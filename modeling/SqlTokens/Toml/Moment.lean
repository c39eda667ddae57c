import SqlTokens.Toml.Number

/-! # Points in time

    A date, a time of the day, or both.  Only the form of a point in time matters
    here, and that it exists: its date is in the calendar, its time in the day. -/

namespace SqlTokens.Toml.Moment

/-- The number that two digits write. -/
def twoDigits? (a b : Char) : Option Nat :=
  if a.isDigit && b.isDigit then some (Number.ofDigits 10 [a, b]) else none

def isLeapYear (year : Nat) : Bool :=
  year % 4 == 0 && (year % 100 != 0 || year % 400 == 0)

def daysIn (year month : Nat) : Nat :=
  if month == 2 then if isLeapYear year then 29 else 28
  else if month == 4 || month == 6 || month == 9 || month == 11 then 30
  else 31

/-- What follows a date of the calendar, if the text starts with one. -/
def afterDate? : List Char → Option (List Char)
  | a :: b :: c :: d :: '-' :: e :: f :: '-' :: g :: h :: rest => do
    let century ← twoDigits? a b
    let year ← twoDigits? c d
    let month ← twoDigits? e f
    let day ← twoDigits? g h
    if 1 ≤ month && month ≤ 12 && 1 ≤ day && day ≤ daysIn (century * 100 + year) month then
      some rest
    else none
  | _ => none

/-- What follows a fraction of a second; the text need not start with one. -/
def afterFraction? : List Char → Option (List Char)
  | '.' :: rest =>
    if rest.head?.any Char.isDigit then some (rest.dropWhile Char.isDigit) else none
  | s => some s

/-- What follows the seconds of a time; they may be left out. -/
def afterSeconds? : List Char → Option (List Char)
  | ':' :: a :: b :: rest => do
    let second ← twoDigits? a b
    if second ≤ 60 then afterFraction? rest else none
  | ':' :: _ => none
  | s => some s

/-- What follows a time of the day, if the text starts with one. -/
def afterTime? : List Char → Option (List Char)
  | a :: b :: ':' :: c :: d :: rest => do
    let hour ← twoDigits? a b
    let minute ← twoDigits? c d
    if hour ≤ 23 && minute ≤ 59 then afterSeconds? rest else none
  | _ => none

/-- A distance from universal time of less than a day, or none at all. -/
def isOffset : List Char → Bool
  | [] => true
  | [c] => c == 'Z' || c == 'z'
  | [sign, a, b, ':', c, d] =>
    (sign == '+' || sign == '-') &&
      match twoDigits? a b, twoDigits? c d with
      | some hours, some minutes => hours ≤ 23 && minutes ≤ 59
      | _, _ => false
  | _ => false

/-- A mark between date and time. -/
def isTimeMark (c : Char) : Bool :=
  c == 'T' || c == 't' || c == ' '

/-- A date, a time, or both; with both, the distance from universal time too. -/
def hasForm (s : List Char) : Bool :=
  match afterDate? s with
  | some [] => true
  | some (mark :: rest) => isTimeMark mark && (afterTime? rest).any isOffset
  | none => (afterTime? s).any List.isEmpty

end SqlTokens.Toml.Moment
