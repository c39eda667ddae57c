import SqlTokens.Text.Utf8

/-! # Reserved words

    The words of the dialect that are no identifiers.  A word is reserved
    whatever the case of its letters, so the table is by lower-case spelling,
    and `Keyword.ofSpelling?` expects its argument in lower case. -/

namespace SqlTokens

/-- A reserved word.  The order is the order in which the words are listed. -/
inductive Keyword where
  -- Data manipulation
  | SELECT | INSERT | UPDATE | DELETE | FROM | WHERE | GROUP | HAVING | ORDER | BY | LIMIT
  | OFFSET | FOR | INTO | VALUES | DUPLICATE | KEY | DEFAULT | SET | LOCK | REPLACE
  -- Set operations
  | UNION | ALL | MINUS | EXCEPT | INTERSECT
  -- Joins
  | JOIN | FULL | STRAIGHT_JOIN | LEFT | RIGHT | INNER | OUTER | CROSS | NATURAL | USE
  | FORCE | ON | USING
  -- Expressions
  | DISTINCT | CASE | WHEN | THEN | ELSE | END | AS | AND | OR | NOT | EXISTS | IN | IS
  | LIKE | BETWEEN | NULL | ASC | DESC
  -- Data definition
  | CREATE | ALTER | RENAME | DROP | TABLE | INDEX | VIEW | TO | IGNORE | IF | UNIQUE
  -- Transactions and isolation levels
  | BEGIN | ROLLBACK | COMMIT | START | TRANSACTION | ISOLATION | LEVEL | REPEATABLE | READ
  | COMMITTED | UNCOMMITTED | SERIALIZABLE
  -- Character sets and sessions
  | NAMES | COLLATE | CHARSET | CHARACTER | COLLATION | SESSION | GLOBAL
  -- Inspection
  | SHOW | DESCRIBE | EXPLAIN | VARIABLES | STATUS | DATABASES | DATABASE | TABLES
  | COLUMNS | PROCEDURE | FUNCTION | ENGINES | STORAGE | PLUGINS | PROCESSLIST | INDEXES
  | KEYS | TRIGGERS | TRIGGER | SLAVE
  -- Names of character sets
  | ARMSCII8 | ASCII | BIG5 | BINARY | CP1250 | CP1251 | CP1256 | CP1257 | CP850 | CP852
  | CP866 | CP932 | DEC8 | EUCJPMS | EUCKR | GB2312 | GBK | GEOSTD8 | GREEK | HEBREW | HP8
  | KEYBCS2 | KOI8R | KOI8U | LATIN1 | LATIN2 | LATIN5 | LATIN7 | MACCE | MACROMAN | SJIS
  | SWE7 | TIS620 | UCS2 | UJIS | UTF16 | UTF16LE | UTF32 | UTF8 | UTF8MB4
  -- Administration
  | ADMIN | HELP
  deriving DecidableEq

namespace Keyword

/-- Every reserved word, in order. -/
def all : List Keyword :=
  [.SELECT, .INSERT, .UPDATE, .DELETE, .FROM, .WHERE, .GROUP, .HAVING, .ORDER, .BY, .LIMIT,
   .OFFSET, .FOR, .INTO, .VALUES, .DUPLICATE, .KEY, .DEFAULT, .SET, .LOCK, .REPLACE,
   .UNION, .ALL, .MINUS, .EXCEPT, .INTERSECT, .JOIN, .FULL, .STRAIGHT_JOIN, .LEFT, .RIGHT,
   .INNER, .OUTER, .CROSS, .NATURAL, .USE, .FORCE, .ON, .USING, .DISTINCT, .CASE, .WHEN,
   .THEN, .ELSE, .END, .AS, .AND, .OR, .NOT, .EXISTS, .IN, .IS, .LIKE, .BETWEEN, .NULL,
   .ASC, .DESC, .CREATE, .ALTER, .RENAME, .DROP, .TABLE, .INDEX, .VIEW, .TO, .IGNORE, .IF,
   .UNIQUE, .BEGIN, .ROLLBACK, .COMMIT, .START, .TRANSACTION, .ISOLATION, .LEVEL,
   .REPEATABLE, .READ, .COMMITTED, .UNCOMMITTED, .SERIALIZABLE, .NAMES, .COLLATE, .CHARSET,
   .CHARACTER, .COLLATION, .SESSION, .GLOBAL, .SHOW, .DESCRIBE, .EXPLAIN, .VARIABLES,
   .STATUS, .DATABASES, .DATABASE, .TABLES, .COLUMNS, .PROCEDURE, .FUNCTION, .ENGINES,
   .STORAGE, .PLUGINS, .PROCESSLIST, .INDEXES, .KEYS, .TRIGGERS, .TRIGGER, .SLAVE,
   .ARMSCII8, .ASCII, .BIG5, .BINARY, .CP1250, .CP1251, .CP1256, .CP1257, .CP850, .CP852,
   .CP866, .CP932, .DEC8, .EUCJPMS, .EUCKR, .GB2312, .GBK, .GEOSTD8, .GREEK, .HEBREW, .HP8,
   .KEYBCS2, .KOI8R, .KOI8U, .LATIN1, .LATIN2, .LATIN5, .LATIN7, .MACCE, .MACROMAN, .SJIS,
   .SWE7, .TIS620, .UCS2, .UJIS, .UTF16, .UTF16LE, .UTF32, .UTF8, .UTF8MB4, .ADMIN, .HELP]

/-- The lower-case spelling of a reserved word. -/
def spelling : Keyword → String
  | .SELECT => "select"
  | .INSERT => "insert"
  | .UPDATE => "update"
  | .DELETE => "delete"
  | .FROM => "from"
  | .WHERE => "where"
  | .GROUP => "group"
  | .HAVING => "having"
  | .ORDER => "order"
  | .BY => "by"
  | .LIMIT => "limit"
  | .OFFSET => "offset"
  | .FOR => "for"
  | .INTO => "into"
  | .VALUES => "values"
  | .DUPLICATE => "duplicate"
  | .KEY => "key"
  | .DEFAULT => "default"
  | .SET => "set"
  | .LOCK => "lock"
  | .REPLACE => "replace"
  | .UNION => "union"
  | .ALL => "all"
  | .MINUS => "minus"
  | .EXCEPT => "except"
  | .INTERSECT => "intersect"
  | .JOIN => "join"
  | .FULL => "full"
  | .STRAIGHT_JOIN => "straight_join"
  | .LEFT => "left"
  | .RIGHT => "right"
  | .INNER => "inner"
  | .OUTER => "outer"
  | .CROSS => "cross"
  | .NATURAL => "natural"
  | .USE => "use"
  | .FORCE => "force"
  | .ON => "on"
  | .USING => "using"
  | .DISTINCT => "distinct"
  | .CASE => "case"
  | .WHEN => "when"
  | .THEN => "then"
  | .ELSE => "else"
  | .END => "end"
  | .AS => "as"
  | .AND => "and"
  | .OR => "or"
  | .NOT => "not"
  | .EXISTS => "exists"
  | .IN => "in"
  | .IS => "is"
  | .LIKE => "like"
  | .BETWEEN => "between"
  | .NULL => "null"
  | .ASC => "asc"
  | .DESC => "desc"
  | .CREATE => "create"
  | .ALTER => "alter"
  | .RENAME => "rename"
  | .DROP => "drop"
  | .TABLE => "table"
  | .INDEX => "index"
  | .VIEW => "view"
  | .TO => "to"
  | .IGNORE => "ignore"
  | .IF => "if"
  | .UNIQUE => "unique"
  | .BEGIN => "begin"
  | .ROLLBACK => "rollback"
  | .COMMIT => "commit"
  | .START => "start"
  | .TRANSACTION => "transaction"
  | .ISOLATION => "isolation"
  | .LEVEL => "level"
  | .REPEATABLE => "repeatable"
  | .READ => "read"
  | .COMMITTED => "committed"
  | .UNCOMMITTED => "uncommitted"
  | .SERIALIZABLE => "serializable"
  | .NAMES => "names"
  | .COLLATE => "collate"
  | .CHARSET => "charset"
  | .CHARACTER => "character"
  | .COLLATION => "collation"
  | .SESSION => "session"
  | .GLOBAL => "global"
  | .SHOW => "show"
  | .DESCRIBE => "describe"
  | .EXPLAIN => "explain"
  | .VARIABLES => "variables"
  | .STATUS => "status"
  | .DATABASES => "databases"
  | .DATABASE => "database"
  | .TABLES => "tables"
  | .COLUMNS => "columns"
  | .PROCEDURE => "procedure"
  | .FUNCTION => "function"
  | .ENGINES => "engines"
  | .STORAGE => "storage"
  | .PLUGINS => "plugins"
  | .PROCESSLIST => "processlist"
  | .INDEXES => "indexes"
  | .KEYS => "keys"
  | .TRIGGERS => "triggers"
  | .TRIGGER => "trigger"
  | .SLAVE => "slave"
  | .ARMSCII8 => "armscii8"
  | .ASCII => "ascii"
  | .BIG5 => "big5"
  | .BINARY => "binary"
  | .CP1250 => "cp1250"
  | .CP1251 => "cp1251"
  | .CP1256 => "cp1256"
  | .CP1257 => "cp1257"
  | .CP850 => "cp850"
  | .CP852 => "cp852"
  | .CP866 => "cp866"
  | .CP932 => "cp932"
  | .DEC8 => "dec8"
  | .EUCJPMS => "eucjpms"
  | .EUCKR => "euckr"
  | .GB2312 => "gb2312"
  | .GBK => "gbk"
  | .GEOSTD8 => "geostd8"
  | .GREEK => "greek"
  | .HEBREW => "hebrew"
  | .HP8 => "hp8"
  | .KEYBCS2 => "keybcs2"
  | .KOI8R => "koi8r"
  | .KOI8U => "koi8u"
  | .LATIN1 => "latin1"
  | .LATIN2 => "latin2"
  | .LATIN5 => "latin5"
  | .LATIN7 => "latin7"
  | .MACCE => "macce"
  | .MACROMAN => "macroman"
  | .SJIS => "sjis"
  | .SWE7 => "swe7"
  | .TIS620 => "tis620"
  | .UCS2 => "ucs2"
  | .UJIS => "ujis"
  | .UTF16 => "utf16"
  | .UTF16LE => "utf16le"
  | .UTF32 => "utf32"
  | .UTF8 => "utf8"
  | .UTF8MB4 => "utf8mb4"
  | .ADMIN => "admin"
  | .HELP => "help"

/-- The spelling of a reserved word in bytes. -/
def bytes (k : Keyword) : Bytes :=
  Utf8.ofString k.spelling

/-- The spelling under which messages show a reserved word: in upper case. -/
def display (k : Keyword) : String :=
  String.ofList (k.spelling.toList.map Char.toUpper)

/-- A word that names a character set. -/
def namesCharset : Keyword → Bool
  | .ARMSCII8 | .ASCII | .BIG5 | .BINARY | .CP1250 | .CP1251 | .CP1256 | .CP1257 | .CP850
  | .CP852 | .CP866 | .CP932 | .DEC8 | .EUCJPMS | .EUCKR | .GB2312 | .GBK | .GEOSTD8
  | .GREEK | .HEBREW | .HP8 | .KEYBCS2 | .KOI8R | .KOI8U | .LATIN1 | .LATIN2 | .LATIN5
  | .LATIN7 | .MACCE | .MACROMAN | .SJIS | .SWE7 | .TIS620 | .UCS2 | .UJIS | .UTF16
  | .UTF16LE | .UTF32 | .UTF8 | .UTF8MB4 => true
  | _ => false

/-- The reserved words by their spelling. -/
def table : List (Bytes × Keyword) :=
  all.map fun k => (k.bytes, k)

/-- The reserved word that is spelled `word`, if there is one. -/
def ofSpelling? (word : Bytes) : Option Keyword :=
  (table.find? fun entry => entry.1 == word).map Prod.snd

end Keyword

end SqlTokens
