import SqlTokens.Proofs.Prefix

/-! # The rows of items of quoted literals

    The body of a literal is read item by item, and each item by itself: what
    stands before it does not matter (`body_append`).  An item is proper if it can
    be read back, which only excludes a plain delimiter and a plain backslash; all
    items of a body are (`body_isProper`).

    A body ends where it does for one of two reasons: its delimiter is closed and
    not doubled (`head?_ne_of_closed`), or the input is over (`source_of_open`). -/

namespace SqlTokens

namespace Quoted

/-- An item that is read back as it is written. -/
def Item.IsProper (d : UInt8) : Item → Prop
  | .plain b => b ≠ d ∧ b ≠ Byte.backslash
  | .doubled => True
  | .escaped _ => True

/-- A body with more items in front. -/
def Body.prepend (items : List Item) (body : Body) : Body :=
  ⟨items ++ body.items, body.ending⟩

theorem Body.prepend_cons (item : Item) (items : List Item) (body : Body) :
    body.prepend (item :: items) = (body.prepend items).prepend [item] := rfl

/-! ## One item at a time -/

theorem bodyOnto_eq (d : UInt8) (read : List Item) :
    ∀ s : Bytes, bodyOnto d read s = (body d s).prepend read.reverse
  | [] => by simp [body, bodyOnto, Body.prepend]
  | [b] => by
    simp only [body, bodyOnto, Body.prepend]
    split
    · simp
    · split <;> simp
  | b :: c :: rest => by
    -- Both sides read one item and go on; only the rows that they go on with differ.
    have hdoubled := bodyOnto_eq d (.doubled :: read) rest
    have hdoubled' := bodyOnto_eq d [.doubled] rest
    have hescaped := bodyOnto_eq d (.escaped c :: read) rest
    have hescaped' := bodyOnto_eq d [.escaped c] rest
    have hplain := bodyOnto_eq d (.plain b :: read) (c :: rest)
    have hplain' := bodyOnto_eq d [.plain b] (c :: rest)
    rw [body, bodyOnto, bodyOnto]
    split
    · split
      · rw [hdoubled, hdoubled']
        simp [Body.prepend]
      · simp [Body.prepend]
    · split
      · rw [hescaped, hescaped']
        simp [Body.prepend]
      · rw [hplain, hplain']
        simp [Body.prepend]

section
variable {d : UInt8}

theorem body_nil : body d [] = ⟨[], .unclosed⟩ := rfl

theorem body_plain {b : UInt8} (h : Item.IsProper d (.plain b)) (s : Bytes) :
    body d (b :: s) = (body d s).prepend [.plain b] := by
  obtain ⟨hd, hb⟩ := h
  cases s with
  | nil => simp [body, bodyOnto, Body.prepend, hd, hb]
  | cons c s =>
    rw [body, bodyOnto]
    simp [hd, hb, bodyOnto_eq d [.plain b]]

theorem body_doubled (s : Bytes) : body d (d :: d :: s) = (body d s).prepend [.doubled] := by
  rw [body, bodyOnto]
  simp [bodyOnto_eq d [.doubled]]

theorem body_escaped (hd : d ≠ Byte.backslash) (c : UInt8) (s : Bytes) :
    body d (Byte.backslash :: c :: s) = (body d s).prepend [.escaped c] := by
  rw [body, bodyOnto]
  simp [hd.symm, bodyOnto_eq d [.escaped c]]

theorem body_closed {s : Bytes} (h : s.head? ≠ some d) : body d (d :: s) = ⟨[], .closed⟩ := by
  cases s with
  | nil => simp [body, bodyOnto]
  | cons c s =>
    have hc : c ≠ d := fun hc => h (congrArg some hc)
    simp [body, bodyOnto, hc]

/-- What stands before an item does not matter to it. -/
theorem body_append {items : List Item} (h : ∀ i ∈ items, i.IsProper d)
    (hd : d ≠ Byte.backslash) (s : Bytes) :
    body d (items.flatMap (Item.source d) ++ s) = (body d s).prepend items := by
  induction items with
  | nil => rfl
  | cons item items ih =>
    have hitems := ih fun i hi => h i (List.mem_cons_of_mem _ hi)
    rw [Body.prepend_cons, ← hitems]
    cases item with
    | plain b => exact body_plain (h _ List.mem_cons_self) _
    | doubled => exact body_doubled _
    | escaped c => exact body_escaped hd c _

/-! ## The items that are read, and why no more -/

theorem bodyOnto_isProper {read : List Item} (h : ∀ i ∈ read, i.IsProper d) (s : Bytes) :
    ∀ i ∈ (bodyOnto d read s).items, i.IsProper d := by
  -- A plain byte was compared with the delimiter and the backslash before it was taken.
  fun_induction bodyOnto d read s with
  | case1 read => simpa using h
  | case2 read b hb => simpa using h
  | case3 read b hd hb => simpa using h
  | case4 read b hd hb =>
    simp only [beq_iff_eq] at hd hb
    simp only [List.reverse_cons, List.mem_append, List.mem_reverse, List.mem_singleton]
    rintro i (hi | rfl)
    · exact h i hi
    · exact ⟨hd, hb⟩
  | case5 read b c rest hb hc ih =>
    exact ih (List.forall_mem_cons.2 ⟨trivial, h⟩)
  | case6 read b c rest hb hc => simpa using h
  | case7 read b c rest hd hb ih =>
    exact ih (List.forall_mem_cons.2 ⟨trivial, h⟩)
  | case8 read b c rest hd hb ih =>
    simp only [beq_iff_eq] at hd hb
    exact ih (List.forall_mem_cons.2 ⟨⟨hd, hb⟩, h⟩)

theorem body_isProper (s : Bytes) : ∀ i ∈ (body d s).items, i.IsProper d :=
  bodyOnto_isProper (by simp) s

theorem bodyOnto_source_of_open {read : List Item} {s : Bytes}
    (h : (bodyOnto d read s).ending ≠ .closed) :
    (bodyOnto d read s).source d = read.reverse.flatMap (Item.source d) ++ s := by
  fun_induction bodyOnto d read s with
  | case1 read => simp [Body.source, Ending.source]
  | case2 read b hb => exact absurd rfl h
  | case3 read b hd hb =>
    simp only [beq_iff_eq] at hb
    simp [Body.source, Ending.source, hb]
  | case4 read b hd hb => simp [Body.source, Ending.source, Item.source]
  | case5 read b c rest hb hc ih =>
    simp only [beq_iff_eq] at hb hc
    simpa [Item.source, hb, hc] using ih h
  | case6 read b c rest hb hc => exact absurd rfl h
  | case7 read b c rest hd hb ih =>
    simp only [beq_iff_eq] at hb
    simpa [Item.source, hb] using ih h
  | case8 read b c rest hd hb ih => simpa [Item.source] using ih h

/-- A body that is not closed takes the whole of the input. -/
theorem source_of_open {s : Bytes} (h : (body d s).ending ≠ .closed) :
    (body d s).source d = s :=
  bodyOnto_source_of_open h

/-- The delimiter that closes a body is not doubled. -/
theorem head?_ne_of_closed (hd : d ≠ Byte.backslash) {s tail : Bytes}
    (h : (body d s).ending = .closed) (hs : s = (body d s).source d ++ tail) :
    tail.head? ≠ some d := by
  intro ht
  obtain ⟨rest, rfl⟩ := List.head?_eq_some_iff.1 ht
  -- Were it doubled, the body would have one item more than it has.
  have hbody := body_append (body_isProper (d := d) s) hd (d :: d :: rest)
  rw [Body.source, h] at hs
  have hs' : s = (body d s).items.flatMap (Item.source d) ++ d :: d :: rest := by
    simpa [Ending.source] using hs
  rw [← hs', body_doubled] at hbody
  have := congrArg (fun b => b.items.length) hbody
  simp [Body.prepend] at this

/-- A closed body does not depend on what comes after it, if that is no delimiter. -/
theorem body_source_append (hd : d ≠ Byte.backslash) {s tail : Bytes}
    (h : (body d s).ending = .closed) (ht : tail.head? ≠ some d) :
    body d ((body d s).source d ++ tail) = body d s := by
  have hbody := body_append (body_isProper (d := d) s) hd (d :: tail)
  have hs : (body d s).source d ++ tail =
      (body d s).items.flatMap (Item.source d) ++ d :: tail := by
    simp [Body.source, h, Ending.source]
  rw [hs, hbody, body_closed ht]
  simp [Body.prepend, ← h]

end

end Quoted

/-- **Round trip**: a literal with one proper item for each byte is read back, whatever
    follows it but its delimiter. -/
theorem Lexeme.quoted_map (kind : TokenKind) {d : UInt8} (hd : d ≠ Byte.backslash)
    {item : UInt8 → Quoted.Item} (hproper : ∀ b, (item b).IsProper d)
    (hmeaning : ∀ b, (item b).meaning d = b) (v : Bytes) {s : Bytes} (hs : s.head? ≠ some d) :
    quoted kind d ((v.map item).flatMap (Quoted.Item.source d) ++ d :: s) =
      ⟨kind, d :: ((v.map item).flatMap (Quoted.Item.source d) ++ [d]), .text v⟩ := by
  have hitems : ∀ i ∈ v.map item, i.IsProper d := by
    intro i hi
    obtain ⟨b, -, rfl⟩ := List.mem_map.1 hi
    exact hproper b
  have hvalue : (v.map item).map (Quoted.Item.meaning d) = v := by
    rw [List.map_map]
    exact (List.map_congr_left fun b _ => hmeaning b).trans (List.map_id v)
  rw [quoted, Quoted.body_append hitems hd, Quoted.body_closed hs]
  simp [Quoted.Body.prepend, Quoted.Body.source, Quoted.Body.value, Quoted.Ending.source, hvalue]

end SqlTokens
