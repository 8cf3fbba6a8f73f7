import XChainDecoder.Lib.Column
import XChainDecoder.Migrate.Reading

/-! # Column definitions and live columns

    What a MODIFY says of a column, as the server takes it: a type with its arguments
    and sign, and after it the attributes in any order. A definition stands for a set of
    values; so does the row that shows the live column. What the guard reads in either
    is proved here from the atoms they are written with.

    **Main results.** `TypeSpec.parseType_eq`, `Definition.declaredCharset_eq`. -/

namespace XChainDecoder.Migrate

open Sql Column

/-! ## Section 1: Types -/

inductive LobSize where
  | tiny
  | plain
  | medium
  | long
deriving DecidableEq, Repr

namespace LobSize

def rank : LobSize → ℕ
  | tiny   => 1
  | plain  => 2
  | medium => 3
  | long   => 4

def capacity : LobSize → ℕ
  | tiny   => 255
  | plain  => 65535
  | medium => 16777215
  | long   => 4294967295

/-- The smallest for so many bytes; a length of 0 counts as none. -/
def holding (bytes : ℕ) : LobSize :=
  if bytes = 0 then plain
  else if bytes ≤ tiny.capacity then tiny
  else if bytes ≤ plain.capacity then plain
  else if bytes ≤ medium.capacity then medium
  else long

theorem four_le_capacity (size : LobSize) : 4 ≤ size.capacity := by
  cases size <;> decide

theorem capacity_le {size size' : LobSize} (h : size.rank ≤ size'.rank) :
    size.capacity ≤ size'.capacity := by
  revert h
  cases size <;> cases size' <;> decide

end LobSize

inductive Family where
  | integer (kind : IntKind)
  | decimal
  | chars
  | text (size : LobSize)
  | blob (size : LobSize)
  | date
  | moment
  | time
  | enum
  | set
deriving DecidableEq, Repr

inductive TypeName where
  | tinyint | int1 | bool | boolean | smallint | int2 | mediumint | int3 | middleint
  | int | integer | int4 | bigint | int8
  | decimal | dec | numeric | fixed
  | char | varchar
  | tinytext | text | mediumtext | longtext
  | tinyblob | blob | mediumblob | longblob
  | date | datetime | timestamp | time
  | enum | set
deriving DecidableEq, Repr

namespace TypeName

def all : List TypeName :=
  [tinyint, int1, bool, boolean, smallint, int2, mediumint, int3, middleint, int, integer, int4, bigint,
    int8, decimal, dec, numeric, fixed, char, varchar, tinytext, text, mediumtext, longtext, tinyblob,
    blob, mediumblob, longblob, date, datetime, timestamp, time, enum, set]

theorem mem_all (name : TypeName) : name ∈ all := by
  cases name <;> decide

def letters : TypeName → List Char
  | tinyint    => "tinyint".toList
  | int1       => "int1".toList
  | bool       => "bool".toList
  | boolean    => "boolean".toList
  | smallint   => "smallint".toList
  | int2       => "int2".toList
  | mediumint  => "mediumint".toList
  | int3       => "int3".toList
  | middleint  => "middleint".toList
  | int        => "int".toList
  | integer    => "integer".toList
  | int4       => "int4".toList
  | bigint     => "bigint".toList
  | int8       => "int8".toList
  | decimal    => "decimal".toList
  | dec        => "dec".toList
  | numeric    => "numeric".toList
  | fixed      => "fixed".toList
  | char       => "char".toList
  | varchar    => "varchar".toList
  | tinytext   => "tinytext".toList
  | text       => "text".toList
  | mediumtext => "mediumtext".toList
  | longtext   => "longtext".toList
  | tinyblob   => "tinyblob".toList
  | blob       => "blob".toList
  | mediumblob => "mediumblob".toList
  | longblob   => "longblob".toList
  | date       => "date".toList
  | datetime   => "datetime".toList
  | timestamp  => "timestamp".toList
  | time       => "time".toList
  | enum       => "enum".toList
  | set        => "set".toList

def family : TypeName → Family
  | tinyint | int1 | bool | boolean => .integer .tinyint
  | smallint | int2 => .integer .smallint
  | mediumint | int3 | middleint => .integer .mediumint
  | int | integer | int4 => .integer .int
  | bigint | int8 => .integer .bigint
  | decimal | dec | numeric | fixed => .decimal
  | char | varchar => .chars
  | tinytext   => .text .tiny
  | text       => .text .plain
  | mediumtext => .text .medium
  | longtext   => .text .long
  | tinyblob   => .blob .tiny
  | blob       => .blob .plain
  | mediumblob => .blob .medium
  | longblob   => .blob .long
  | date => .date
  | datetime | timestamp => .moment
  | time => .time
  | enum => .enum
  | set  => .set

/-- The name information_schema shows. -/
def stored : TypeName → TypeName
  | int1 | bool | boolean => tinyint
  | int2 => smallint
  | int3 | middleint => mediumint
  | integer | int4 => int
  | int8 => bigint
  | dec | numeric | fixed => decimal
  | name => name

end TypeName

/-- A length, a precision or a scale; the server takes no greater one. -/
structure Numeral where
  digits    : List Char
  ne_nil    : digits ≠ []
  allDigits : Decimal.AllDigits digits
  bounded   : Decimal.value digits < 2 ^ 32

namespace Numeral

def value (n : Numeral) : ℕ := Decimal.value n.digits

def atom (n : Numeral) : Atom := .word n.digits

end Numeral

/-- A member of an ENUM or a SET as it is stated. -/
structure Member where
  q      : Char
  body   : List Char
  quoted : q = '\'' ∨ q = '"'

namespace Member

def atom (m : Member) : Atom := .literal m.q m.body

/-- What an escape stands for. -/
def escaped (c : Char) : List Char :=
  if c = '0' then [Char.ofNat 0]
  else if c = 'b' then [Char.ofNat 8]
  else if c = 't' then ['\t']
  else if c = 'n' then ['\n']
  else if c = 'r' then ['\r']
  else if c = 'Z' then [Char.ofNat 26]
  else if c = '%' ∨ c = '_' then ['\\', c]
  else [c]

def unescape (q : Char) : List Char → List Char
  | c :: d :: rest =>
      if c = q then q :: unescape q rest
      else if c = '\\' then escaped d ++ unescape q rest
      else c :: unescape q (d :: rest)
  | rest => rest

/-- The server drops the blanks at the end. -/
def name (m : Member) : List Char := (unescape m.q m.body).rdropWhile (· = ' ')

theorem name_eq {m m' : Member} (hq : m.q = m'.q) (hbody : m.body = m'.body) : m.name = m'.name := by
  unfold name
  rw [hq, hbody]

end Member

inductive TypeArgs where
  | none
  | one (n : Numeral)
  | two (p s : Numeral)
  | members (list : List Member)

namespace TypeArgs

/-- Between the parentheses. -/
def inside : TypeArgs → List Atom
  | none         => []
  | one n        => [n.atom]
  | two p s      => [p.atom, .sign ',', s.atom]
  | members list => (list.map Member.atom).intersperse (.sign ',')

def atoms : TypeArgs → List Atom
  | none => []
  | args => .sign '(' :: (args.inside ++ [.sign ')'])

def list : TypeArgs → List Member
  | members list => list
  | _ => []

def fsp : TypeArgs → ℕ
  | one n => n.value
  | _ => 0

end TypeArgs

/-- What may stand in the parentheses behind a name. -/
def Family.takes : Family → TypeArgs → Bool
  | integer _, .none | integer _, .one _ => true
  | decimal, .none | decimal, .one _ | decimal, .two _ _ => true
  | chars, .none | chars, .one _ => true
  | text .plain, .one _ | blob .plain, .one _ => true
  | text _, .none | blob _, .none | date, .none => true
  | moment, .none | moment, .one _ | time, .none | time, .one _ => true
  | enum, .members _ | set, .members _ => true
  | _, _ => false

def Family.isNumber : Family → Bool
  | integer _ | decimal => true
  | _ => false

/-- The types that have a character set. -/
def Family.isTextual : Family → Bool
  | chars | text _ | enum | set => true
  | _ => false

inductive NumberOption where
  | unsigned
  | signed
  | zerofill
deriving DecidableEq, Repr

def NumberOption.letters : NumberOption → List Char
  | unsigned => "unsigned".toList
  | signed   => "signed".toList
  | zerofill => "zerofill".toList

structure TypeSpec where
  name    : TypeName
  args    : TypeArgs
  options : List NumberOption
  takes   : name.family.takes args = true
  number  : options ≠ [] → name.family.isNumber = true

namespace TypeSpec

def optionAtoms (t : TypeSpec) : List Atom := t.options.map (fun o => .word o.letters)

def atoms (t : TypeSpec) : List Atom := .word t.name.letters :: (t.args.atoms ++ t.optionAtoms)

/-- ZEROFILL alone makes a number unsigned. -/
def isUnsigned (t : TypeSpec) : Bool := t.options.contains .unsigned || t.options.contains .zerofill

/-- The values of the type, in a column of the character set. DECIMAL alone is (10,0),
    CHAR alone is CHAR(1), and a TEXT or BLOB with a length is the smallest for it. -/
def columnType (t : TypeSpec) (charset : Charset) : ColumnType :=
  match t.name.family, t.args with
  | .integer kind, _ => .integer kind t.isUnsigned
  | .decimal, .two p s => .decimal (if p.value = 0 then 10 else p.value) s.value t.isUnsigned
  | .decimal, .one p => .decimal (if p.value = 0 then 10 else p.value) 0 t.isUnsigned
  | .decimal, _ => .decimal 10 0 t.isUnsigned
  | .chars, .one n => .chars n.value
  | .chars, _ => .chars 1
  | .text _, .one n => .text (LobSize.holding (n.value * charset.maxWidth charset)).capacity
  | .text size, _ => .text size.capacity
  | .blob _, .one n => .blob (LobSize.holding n.value).capacity
  | .blob size, _ => .blob size.capacity
  | .date, _ => .date
  | .moment, args => .moment args.fsp
  | .time, args => .time args.fsp
  | .enum, args => .enum (args.list.map Member.name)
  | .set, args => .set (args.list.map Member.name)

/-- As information_schema shows it. -/
structure IsShown (t : TypeSpec) : Prop where
  name    : t.name.stored = t.name
  decimal : t.name.family = .decimal → ∃ p s, t.args = .two p s ∧ 0 < p.value
  chars   : t.name.family = .chars → ∃ n, t.args = .one n
  lob     : ∀ size, t.name.family = .text size ∨ t.name.family = .blob size → t.args = .none
  members : ∀ m ∈ t.args.list, m.q = '\''
  options : t.options = [] ∨ t.options = [.unsigned] ∨ t.options = [.unsigned, .zerofill]

end TypeSpec

/-! ## Section 2: Attributes -/

inductive CharsetName where
  | ascii
  | latin1
  | utf8
  | utf8mb3
  | utf8mb4
deriving DecidableEq, Repr

namespace CharsetName

def letters : CharsetName → List Char
  | ascii   => "ascii".toList
  | latin1  => "latin1".toList
  | utf8    => "utf8".toList
  | utf8mb3 => "utf8mb3".toList
  | utf8mb4 => "utf8mb4".toList

def charset : CharsetName → Charset
  | ascii   => .ascii
  | latin1  => .latin1
  | utf8    => .utf8
  | utf8mb3 => .utf8
  | utf8mb4 => .utf8mb4

end CharsetName

/-- `latin1_swedish_ci` -/
structure Collation where
  name   : CharsetName
  suffix : List Char

def Collation.letters (c : Collation) : List Char := c.name.letters ++ '_' :: c.suffix

/-- A name as a word, or between two quotes. -/
def nameAtom (quote : Option Char) (letters : List Char) : Atom :=
  match quote with
  | none => .word letters
  | some q => .literal q letters

inductive CharsetKeyword where
  | characterSet
  | charset
  | charSet
deriving DecidableEq, Repr

def CharsetKeyword.atoms : CharsetKeyword → List Atom
  | characterSet => [.word "character".toList, .word "set".toList]
  | charset      => [.word "charset".toList]
  | charSet      => [.word "char".toList, .word "set".toList]

/-- The words an attribute begins with; a value goes on up to the next of them. -/
def attributeWords : List (List Char) :=
  ["character".toList, "charset".toList, "char".toList, "ascii".toList, "collate".toList,
    "not".toList, "null".toList, "primary".toList, "key".toList, "unique".toList,
    "auto_increment".toList, "serial".toList, "default".toList, "on".toList, "comment".toList,
    "generated".toList, "as".toList]

/-- A literal, a number, `CURRENT_TIMESTAMP(6)`. -/
structure PlainValue where
  atoms : List Atom
  quiet : ∀ w, .word w ∈ atoms → attributeWords.contains w = false

/-- So many parentheses are open. -/
def balancedFrom : ℕ → List Atom → Bool
  | depth, [] => depth == 0
  | depth, a :: atoms =>
      if a = .sign '(' then balancedFrom (depth + 1) atoms
      else if a = .sign ')' then
        match depth with
        | 0 => false
        | depth + 1 => balancedFrom depth atoms
      else balancedFrom depth atoms

/-- Between parentheses. -/
structure Expression where
  atoms    : List Atom
  balanced : balancedFrom 0 atoms = true

def Expression.enclosed (e : Expression) : List Atom := .sign '(' :: (e.atoms ++ [.sign ')'])

inductive DefaultValue where
  | null
  | plain (value : PlainValue)
  | expression (e : Expression)

inductive Storage where
  | unsaid
  | virtual
  | stored
  | persistent

def Storage.atoms : Storage → List Atom
  | unsaid     => []
  | virtual    => [.word "virtual".toList]
  | stored     => [.word "stored".toList]
  | persistent => [.word "persistent".toList]

inductive Attribute where
  | charset (keyword : CharsetKeyword) (quote : Option Char) (name : CharsetName)
  /-- short for CHARACTER SET latin1 -/
  | ascii
  | collate (quote : Option Char) (collation : Collation)
  | notNull
  | null
  | primaryKey
  | key
  | unique
  | uniqueKey
  | autoIncrement
  /-- short for NOT NULL AUTO_INCREMENT UNIQUE -/
  | serialDefault
  | default (value : DefaultValue)
  | onUpdate (value : PlainValue)
  | comment (q : Char) (body : List Char)
  | generated (said : Bool) (e : Expression) (storage : Storage)

namespace Attribute

def atoms : Attribute → List Atom
  | charset keyword quote name => keyword.atoms ++ [nameAtom quote name.letters]
  | ascii             => [.word "ascii".toList]
  | collate quote collation => [.word "collate".toList, nameAtom quote collation.letters]
  | notNull           => [.word "not".toList, .word "null".toList]
  | null              => [.word "null".toList]
  | primaryKey        => [.word "primary".toList, .word "key".toList]
  | key               => [.word "key".toList]
  | unique            => [.word "unique".toList]
  | uniqueKey         => [.word "unique".toList, .word "key".toList]
  | autoIncrement     => [.word "auto_increment".toList]
  | serialDefault     => [.word "serial".toList, .word "default".toList, .word "value".toList]
  | default .null     => [.word "default".toList, .word "null".toList]
  | default (.plain v) => .word "default".toList :: v.atoms
  | default (.expression e) => .word "default".toList :: e.enclosed
  | onUpdate v        => .word "on".toList :: .word "update".toList :: v.atoms
  | comment q body    => [.word "comment".toList, .literal q body]
  | generated said e storage =>
      (if said then [.word "generated".toList, .word "always".toList] else []) ++
        .word "as".toList :: (e.enclosed ++ storage.atoms)

/-- The character set it makes the column's. -/
def states : Attribute → Option Charset
  | charset _ _ name => some name.charset
  | ascii => some .latin1
  | collate _ collation => some collation.name.charset
  | _ => none

/-- A set or a collation is named where the guard's patterns do not look for one, or a
    word they look for stands in an expression. -/
def isUnread : Attribute → Bool
  | charset keyword quote _ => keyword = .charSet || quote.isSome
  | ascii => true
  | collate quote _ => quote.isSome
  | default (.expression e) | generated _ e _ =>
      e.atoms.any (fun a => a = .word "character".toList || a = .word "charset".toList ||
        a = .word "collate".toList)
  | _ => false

def forbidsNull : Attribute → Bool
  | notNull | primaryKey | key | autoIncrement | serialDefault => true
  | _ => false

/-- In the two ways the guard knows. -/
def saysNotNull : Attribute → Bool
  | notNull | primaryKey => true
  | _ => false

def saysNull : Attribute → Bool
  | null => true
  | _ => false

end Attribute

/-! ## Section 3: Definitions and live columns -/

/-- What stands behind `MODIFY COLUMN name`. -/
structure Definition where
  type       : TypeSpec
  attributes : List Attribute
  /-- one character set at most -/
  agree      : ∀ a ∈ attributes, ∀ b ∈ attributes, ∀ s t, a.states = some s → b.states = some t → s = t
  nullness   : attributes.any Attribute.saysNull = true → attributes.any Attribute.forbidsNull = false
  /-- KEY behind UNIQUE belongs to it -/
  keyed      : ∀ front back, attributes ≠ front ++ .unique :: .key :: back

namespace Definition

def atoms (d : Definition) : List Atom := d.type.atoms ++ d.attributes.flatMap Attribute.atoms

/-- The one that is stated, or the table's. -/
def charset (d : Definition) (table : Charset) : Charset :=
  (d.attributes.findSome? Attribute.states).getD table

/-- A server without explicit defaults makes a TIMESTAMP NOT NULL that does not say NULL. -/
def nullable (d : Definition) (explicitDefaults : Bool) : Bool :=
  !d.attributes.any Attribute.forbidsNull &&
    (explicitDefaults || d.type.name ≠ .timestamp || d.attributes.any Attribute.saysNull)

def domain (d : Definition) (explicitDefaults : Bool) (table : Charset) : Domain where
  type     := d.type.columnType (d.charset table)
  charset  := d.charset table
  nullable := d.nullable explicitDefaults

/-- A literal escapes the end of a line. -/
def BreaksLine (d : Definition) : Prop := ∃ a ∈ d.atoms, a.breaksLine = true

end Definition

/-- A column and the row that shows it. Nothing is asked of the row's other fields. -/
structure LiveColumn where
  row     : LiveRow
  type    : TypeSpec
  charset : Charset
  table   : Charset
  shown   : type.IsShown
  reads   : Reads (row.columnType.getD []) type.atoms
  named   : type.name.family.isTextual = true → ∃ (name : CharsetName) (collation default : Collation),
    row.characterSetName.map lower = some name.letters ∧ name.charset = charset ∧
      row.collationName.map lower = some collation.letters ∧ collation.name.charset = charset ∧
      row.tableCollation.map lower = some default.letters ∧ default.name.charset = table
  /-- a row of the table takes no more bytes -/
  fits    : ∀ length, type.columnType charset = .chars length →
    length * charset.maxWidth charset ≤ LobSize.plain.capacity

def LiveColumn.domain (live : LiveColumn) : Domain where
  type     := live.type.columnType live.charset
  charset  := live.charset
  nullable := isNullableRow live.row

/-! ## Section 4: The type as the guard reads it -/

variable {text : List Char} {atoms more : List Atom} {w : List Char}

/-- What the guard takes the text between the parentheses for. -/
def TypeArgs.ReadAs (a : TypeArgs) (args : Option (List Char)) : Prop :=
  match a with
  | none => args = .none
  | one n => lengthOf args = some (n.value : ℤ) ∧ decimalArgs args = (some (n.value : ℤ), some 0)
  | two p s => decimalArgs args = (some (p.value : ℤ), some (s.value : ℤ))
  | members list => (∀ m ∈ list, m.q = '\'') → enumValues args = list.map Member.body

theorem mem_or_eq_of_mem_intersperse {α : Type*} {a sep : α} {l : List α}
    (h : a ∈ l.intersperse sep) : a ∈ l ∨ a = sep := by
  induction l with
  | nil => exact absurd h List.not_mem_nil
  | cons x l ih =>
    cases l with
    | nil => exact Or.inl h
    | cons y l =>
      rcases List.mem_cons.mp h with rfl | h
      · exact Or.inl List.mem_cons_self
      · rcases List.mem_cons.mp h with rfl | h
        · exact Or.inr rfl
        · exact (ih h).imp_left (List.mem_cons_of_mem x)

theorem TypeArgs.lacks {args : TypeArgs} (h : ∀ m ∈ args.list, ')' ∉ m.body) :
    ∀ a ∈ args.inside, a.Lacks ')' := by
  cases args with
  | none => exact fun a ha => absurd ha List.not_mem_nil
  | one n => exact fun a ha => by rw [List.mem_singleton.mp ha]; trivial
  | two p s =>
    intro a ha
    simp only [inside, List.mem_cons, List.not_mem_nil, or_false] at ha
    rcases ha with rfl | rfl | rfl
    · trivial
    · exact (by decide : ',' ≠ ')')
    · trivial
  | members list =>
    intro a ha
    rcases mem_or_eq_of_mem_intersperse ha with hmem | rfl
    · obtain ⟨m, hm, rfl⟩ := List.mem_map.mp hmem
      exact h m hm
    · exact (by decide : ',' ≠ ')')

theorem TypeArgs.readAs_of_reads {args : TypeArgs} (hne : args ≠ none) (h : Reads text args.inside) :
    args.ReadAs (some text) := by
  cases args with
  | none => exact absurd rfl hne
  | one n => exact ⟨h.toNumber_eq n.allDigits, h.pairOf_one n.allDigits⟩
  | two p s => exact h.pairOf_two p.allDigits s.allDigits
  | members list =>
    intro hq
    have hinside : (list.map Member.atom).intersperse (.sign ',') =
        literalsOf (list.map Member.body) := by
      rw [literalsOf, List.map_map]
      congr 1
      refine List.map_congr_left fun m hm => ?_
      rw [Member.atom, hq m hm]
      rfl
    exact Reads.enumValues_eq (hinside ▸ h)

/-- The name, the arguments and the first of the options. -/
theorem TypeSpec.parseType_eq (t : TypeSpec) (hlacks : ∀ m ∈ t.args.list, ')' ∉ m.body)
    (hmore : more.head? ≠ some (.sign '(')) (h : Reads text (t.atoms ++ more)) :
    ∃ args, parseType text = some ⟨t.name.letters, args, readsUnsigned (t.optionAtoms ++ more)⟩ ∧
      t.args.ReadAs args := by
  have hcase : t.args = .none ∨ t.args ≠ .none ∧
      t.args.atoms = .sign '(' :: (t.args.inside ++ [.sign ')']) := by
    cases t.args with
    | none => exact Or.inl rfl
    | _ => exact Or.inr ⟨fun h => TypeArgs.noConfusion h, rfl⟩
  rcases hcase with hnone | ⟨hne, hatoms⟩
  · refine ⟨none, ?_, by rw [hnone]; rfl⟩
    have htext : Reads text (.word t.name.letters :: (t.optionAtoms ++ more)) := by
      unfold TypeSpec.atoms at h
      rw [hnone] at h
      exact h
    refine htext.parseType_bare ?_
    unfold TypeSpec.optionAtoms
    cases t.options with
    | nil => exact hmore
    | cons o options => exact fun hword => by cases hword
  · have htext : Reads text (.word t.name.letters ::
        .sign '(' :: (t.args.inside ++ .sign ')' :: (t.optionAtoms ++ more))) := by
      unfold TypeSpec.atoms at h
      rw [hatoms] at h
      simpa using h
    obtain ⟨args, hparse, hargs⟩ := htext.parseType_args (TypeArgs.lacks hlacks)
    exact ⟨some args, hparse, TypeArgs.readAs_of_reads hne hargs⟩

/-- Whatever stands between the parentheses. -/
theorem TypeSpec.parseType_name (t : TypeSpec) (h : Reads text (t.atoms ++ more)) :
    ∃ parsed, parseType text = some parsed ∧ parsed.name = t.name.letters := by
  obtain ⟨rest, -, hparse⟩ := Reads.parseType (w := t.name.letters) h
  exact ⟨_, hparse, rfl⟩

theorem Attribute.exists_head (a : Attribute) :
    ∃ w rest, a.atoms = .word w :: rest ∧ attributeWords.contains w = true := by
  cases a with
  | charset keyword quote name => cases keyword <;> exact ⟨_, _, rfl, by decide⟩
  | default value => cases value <;> exact ⟨_, _, rfl, by decide⟩
  | generated said e storage => cases said <;> exact ⟨_, _, rfl, by decide⟩
  | _ => exact ⟨_, _, rfl, by decide⟩

/-- What follows the type begins with a word of an attribute. -/
theorem head?_attributes (attributes : List Attribute) :
    (attributes.flatMap Attribute.atoms).head? = none ∨ ∃ w,
      (attributes.flatMap Attribute.atoms).head? = some (.word w) ∧ attributeWords.contains w = true := by
  cases attributes with
  | nil => exact Or.inl rfl
  | cons a attributes =>
    obtain ⟨w, rest, ha, hw⟩ := a.exists_head
    refine Or.inr ⟨w, ?_, hw⟩
    rw [List.flatMap_cons, ha]
    rfl

theorem readsUnsigned_attributes (attributes : List Attribute) :
    readsUnsigned (attributes.flatMap Attribute.atoms) = false := by
  rcases head?_attributes attributes with hnone | ⟨w, hw, hcontains⟩
  · rw [List.head?_eq_none_iff.mp hnone]
    rfl
  · obtain ⟨rest, hrest⟩ := List.head?_eq_some_iff.mp hw
    rw [hrest]
    have hall : attributeWords.all (fun w => !"unsigned".toList.isPrefixOf w) = true := by decide
    have hnot := List.all_eq_true.mp hall w (List.contains_iff_mem.mp hcontains)
    exact Bool.not_eq_true' _ |>.mp hnot

/-- UNSIGNED counts only where it is the first of the options. -/
theorem readsUnsigned_eq (t : TypeSpec) (attributes : List Attribute) :
    readsUnsigned (t.optionAtoms ++ attributes.flatMap Attribute.atoms) =
      decide (t.options.head? = some .unsigned) := by
  unfold TypeSpec.optionAtoms
  cases t.options with
  | nil => exact readsUnsigned_attributes attributes
  | cons o options => cases o <;> rfl

/-! ## Section 5: The attributes as the guard reads them -/

/-- The words behind which the guard looks for a character set. -/
def charsetWords : List (List Char) := ["character".toList, "charset".toList, "collate".toList]

theorem ne_of_allDigits (hw : charsetWords.contains w = true) {digits : List Char}
    (h : Decimal.AllDigits digits) (hne : digits ≠ []) : digits ≠ w := by
  rintro rfl
  have hall : charsetWords.all (fun w => w.all (fun c => !c.isDigit)) = true := by decide
  have hnot := List.all_eq_true.mp (List.all_eq_true.mp hall digits (List.contains_iff_mem.mp hw))
    (digits.head hne) (List.head_mem hne)
  rw [h _ (List.head_mem hne)] at hnot
  cases hnot

/-- The type holds none of these words. -/
theorem TypeSpec.not_mem_atoms (hw : charsetWords.contains w = true) (t : TypeSpec) :
    .word w ∉ t.atoms := by
  intro hmem
  rcases List.mem_cons.mp hmem with hname | hmem
  · have hall : TypeName.all.all (fun n => !charsetWords.contains n.letters) = true := by decide
    have hnot := List.all_eq_true.mp hall t.name t.name.mem_all
    rw [← Atom.word.inj hname, hw] at hnot
    cases hnot
  · rcases List.mem_append.mp hmem with hmem | hmem
    -- between the brackets there are digits and quoted members, and no word
    · have hinside : .word w ∈ t.args.inside := by
        cases hargs : t.args with
        | none =>
          rw [hargs] at hmem
          cases hmem
        | _ =>
          rw [hargs] at hmem
          rcases List.mem_cons.mp hmem with heq | hmem
          · cases heq
          · rcases List.mem_append.mp hmem with hmem | hmem
            · exact hmem
            · cases List.mem_singleton.mp hmem
      cases hargs : t.args with
      | none =>
        rw [hargs] at hinside
        cases hinside
      | one n =>
        rw [hargs] at hinside
        exact ne_of_allDigits hw n.allDigits n.ne_nil
          (Atom.word.inj (List.mem_singleton.mp hinside)).symm
      | two p s =>
        rw [hargs] at hinside
        simp only [TypeArgs.inside, List.mem_cons, List.not_mem_nil, or_false] at hinside
        rcases hinside with h | h | h
        · exact ne_of_allDigits hw p.allDigits p.ne_nil (Atom.word.inj h).symm
        · cases h
        · exact ne_of_allDigits hw s.allDigits s.ne_nil (Atom.word.inj h).symm
      | members list =>
        rw [hargs] at hinside
        rcases mem_or_eq_of_mem_intersperse hinside with h | h
        · obtain ⟨m, -, hm⟩ := List.mem_map.mp h
          cases hm
        · cases h
    · obtain ⟨o, -, ho⟩ := List.mem_map.mp hmem
      have hall : ∀ o : NumberOption, charsetWords.contains o.letters = false := by
        intro o
        cases o <;> decide
      rw [← Atom.word.inj ho, hall o] at hw
      cases hw

/-- The words the lexemes of some atoms hold are their words. -/
theorem word_mem_lexemes (h : .word w ∈ atoms.flatMap Atom.lexemes) : .word w ∈ atoms := by
  obtain ⟨a, ha, hword⟩ := List.mem_flatMap.mp h
  cases a with
  | word w' =>
    obtain rfl := Lexeme.word.inj (List.mem_singleton.mp hword)
    exact ha
  | literal q body => cases (List.eq_of_mem_replicate hword)
  | sign c => cases List.mem_singleton.mp hword

/-- Where `f` finds nothing at its first lexemes, it finds what it finds behind them. -/
theorem findSome?_tails_append {β : Type*} {f : List Lexeme → Option β} {front : List Lexeme}
    (h : ∀ l ∈ front, ∀ rest, f (l :: rest) = none) (rest : List Lexeme) :
    (front ++ rest).tails.findSome? f = rest.tails.findSome? f := by
  induction front with
  | nil => rfl
  | cons l front ih =>
    obtain ⟨hl, hfront⟩ := List.forall_mem_cons.mp h
    rw [List.cons_append, List.tails_cons, List.findSome?_cons, hl]
    exact ih hfront

theorem charsetAt_quiet {l : Lexeme} (hcharacter : l ≠ word "character") (hcharset : l ≠ word "charset")
    (rest : List Lexeme) : charsetAt (l :: rest) = none := by
  unfold charsetAt
  split
  · rename_i a b w' rest' heq
    obtain ⟨rfl, -⟩ := List.cons.inj heq
    have ha : a ≠ "character".toList := fun h => hcharacter (h ▸ rfl)
    have hb : a ≠ "charset".toList := fun h => hcharset (h ▸ rfl)
    rw [if_neg (fun h => ha h.1), if_neg hb]
  · rename_i a b rest' heq' heq
    obtain ⟨rfl, -⟩ := List.cons.inj heq
    have hb : a ≠ "charset".toList := fun h => hcharset (h ▸ rfl)
    rw [if_neg hb]
  · rfl

theorem collateAt_quiet {l : Lexeme} (h : l ≠ word "collate") (rest : List Lexeme) :
    collateAt (l :: rest) = none := by
  unfold collateAt
  split
  · rename_i a b rest' heq
    obtain ⟨rfl, -⟩ := List.cons.inj heq
    have hb : a ≠ "collate".toList := fun h' => h (h' ▸ rfl)
    rw [if_neg hb]
  · rfl

theorem charsetAt_charset (w : List Char) (rest : List Lexeme) :
    charsetAt (word "charset" :: .word w :: rest) = some w := by
  have hne : "charset".toList ≠ "character".toList := by decide
  unfold charsetAt word
  split
  · rename_i a b w' rest' heq
    obtain ⟨ha, hrest⟩ := List.cons.inj heq
    obtain ⟨hb, -⟩ := List.cons.inj hrest
    obtain rfl := Lexeme.word.inj ha
    obtain rfl := Lexeme.word.inj hb
    rw [if_neg (fun h => hne h.1), if_pos rfl]
  · rename_i a b rest' heq' heq
    obtain ⟨ha, hrest⟩ := List.cons.inj heq
    obtain ⟨hb, -⟩ := List.cons.inj hrest
    obtain rfl := Lexeme.word.inj ha
    obtain rfl := Lexeme.word.inj hb
    rw [if_pos rfl]
  · rename_i h h'
    exact absurd rfl (h' _ _ _)

theorem PlainValue.not_mem (v : PlainValue) (hw : charsetWords.contains w = true) :
    .word w ∉ v.atoms := by
  intro hmem
  have hall : charsetWords.all (fun w => attributeWords.contains w) = true := by decide
  have hcontains := List.all_eq_true.mp hall w (List.contains_iff_mem.mp hw)
  rw [v.quiet w hmem] at hcontains
  cases hcontains

theorem Expression.not_mem (e : Expression) (hw : charsetWords.contains w = true)
    (h : e.atoms.any (fun a => a = .word "character".toList || a = .word "charset".toList ||
      a = .word "collate".toList) = false) : .word w ∉ e.enclosed := by
  intro hmem
  rcases List.mem_cons.mp hmem with heq | hmem
  · cases heq
  · rcases List.mem_append.mp hmem with hmem | hmem
    · have hnot := List.any_eq_false.mp h _ hmem
      rcases List.mem_cons.mp (List.contains_iff_mem.mp hw) with rfl | hw
      · simp at hnot
      · rcases List.mem_cons.mp hw with rfl | hw
        · simp at hnot
        · obtain rfl := List.mem_singleton.mp hw
          simp at hnot
    · cases List.mem_singleton.mp hmem

theorem not_mem_of_all (atoms : List Atom) (h : charsetWords.all (fun w => !atoms.contains (.word w)) = true)
    (hw : charsetWords.contains w = true) : .word w ∉ atoms := by
  intro hmem
  have hnot := List.all_eq_true.mp h w (List.contains_iff_mem.mp hw)
  rw [List.contains_iff_mem.mpr hmem] at hnot
  cases hnot

theorem Collation.letters_ne (hw : charsetWords.contains w = true) (c : Collation) : c.letters ≠ w := by
  rintro rfl
  have hall : charsetWords.all (fun w => !w.contains '_') = true := by decide
  have hnot := List.all_eq_true.mp hall _ (List.contains_iff_mem.mp hw)
  have hmem : '_' ∈ c.letters := List.mem_append_right _ List.mem_cons_self
  rw [List.contains_iff_mem.mpr hmem] at hnot
  cases hnot

/-- Up to the underscore stands the name of the set. -/
theorem Collation.takeWhile_letters (c : Collation) :
    c.letters.takeWhile (· ≠ '_') = c.name.letters := by
  have hname : ∀ d ∈ c.name.letters, decide (d ≠ '_') = true := by
    intro d hd
    have hall : ∀ n : CharsetName, n.letters.all (fun d => d ≠ '_') = true := by
      intro n
      cases n <;> decide
    exact List.all_eq_true.mp (hall c.name) d hd
  unfold Collation.letters
  rw [List.takeWhile_append_of_pos hname, List.takeWhile_cons_of_neg (by decide), List.append_nil]

namespace Attribute

def lexemes (a : Attribute) : List Lexeme := a.atoms.flatMap Atom.lexemes

/-- The name behind CHARACTER SET. -/
def saysCharset : Attribute → Option CharsetName
  | charset _ _ name => some name
  | _ => none

/-- The set of the name behind COLLATE. -/
def saysCollation : Attribute → Option CharsetName
  | collate _ collation => some collation.name
  | _ => none

theorem states_of_saysCharset {a : Attribute} {name : CharsetName} (h : a.saysCharset = some name) :
    a.states = some name.charset := by
  cases a with
  | charset keyword quote name' =>
    obtain rfl := Option.some.inj h
    rfl
  | _ => cases h

theorem states_of_saysCollation {a : Attribute} {name : CharsetName}
    (h : a.saysCollation = some name) : a.states = some name.charset := by
  cases a with
  | collate quote collation =>
    obtain rfl := Option.some.inj h
    rfl
  | _ => cases h

theorem states_eq_none {a : Attribute} (hunread : a.isUnread = false) (hset : a.saysCharset = none)
    (hcollation : a.saysCollation = none) : a.states = none := by
  cases a with
  | charset keyword quote name => cases hset
  | collate quote collation => cases hcollation
  | ascii => cases hunread
  | _ => rfl

/-- An attribute that names no set holds none of the words. -/
theorem not_mem_atoms {a : Attribute} (hw : charsetWords.contains w = true)
    (hunread : a.isUnread = false) (hset : a.saysCharset = none) (hcollation : a.saysCollation = none) :
    .word w ∉ a.atoms := by
  -- an attribute that names a set is excluded, every other one spells fixed words and a value
  cases a with
  | charset keyword quote name => cases hset
  | ascii => cases hunread
  | collate quote collation => cases hcollation
  | default value =>
    cases value with
    | null => exact not_mem_of_all _ (by decide) hw
    | plain v =>
      intro hmem
      rcases List.mem_cons.mp hmem with heq | hmem
      · exact not_mem_of_all [.word "default".toList] (by decide) hw
          (List.mem_singleton.mpr heq)
      · exact v.not_mem hw hmem
    | expression e =>
      intro hmem
      rcases List.mem_cons.mp hmem with heq | hmem
      · exact not_mem_of_all [.word "default".toList] (by decide) hw
          (List.mem_singleton.mpr heq)
      · exact e.not_mem hw hunread hmem
  | onUpdate v =>
    intro hmem
    have hfront := not_mem_of_all [.word "on".toList, .word "update".toList] (by decide) hw
    rcases List.mem_append.mp (show _ ∈ [Atom.word "on".toList, .word "update".toList] ++ v.atoms
      from hmem) with hmem | hmem
    · exact hfront hmem
    · exact v.not_mem hw hmem
  | comment q body =>
    intro hmem
    rcases List.mem_cons.mp hmem with heq | hmem
    · exact not_mem_of_all [.word "comment".toList] (by decide) hw
        (List.mem_singleton.mpr heq)
    · cases List.mem_singleton.mp hmem
  | generated said e storage =>
    intro hmem
    rcases List.mem_append.mp hmem with hmem | hmem
    · cases said with
      | false => cases hmem
      | true =>
        exact not_mem_of_all [.word "generated".toList, .word "always".toList] (by decide) hw
          hmem
    · rcases List.mem_cons.mp hmem with heq | hmem
      · exact not_mem_of_all [.word "as".toList] (by decide) hw (List.mem_singleton.mpr heq)
      · rcases List.mem_append.mp hmem with hmem | hmem
        · exact e.not_mem hw hunread hmem
        · cases storage with
          | unsaid => cases hmem
          | virtual => exact not_mem_of_all _ (by decide) hw hmem
          | stored => exact not_mem_of_all _ (by decide) hw hmem
          | persistent => exact not_mem_of_all _ (by decide) hw hmem
  | notNull => exact not_mem_of_all _ (by decide) hw
  | null => exact not_mem_of_all _ (by decide) hw
  | primaryKey => exact not_mem_of_all _ (by decide) hw
  | key => exact not_mem_of_all _ (by decide) hw
  | unique => exact not_mem_of_all _ (by decide) hw
  | uniqueKey => exact not_mem_of_all _ (by decide) hw
  | autoIncrement => exact not_mem_of_all _ (by decide) hw
  | serialDefault => exact not_mem_of_all _ (by decide) hw

theorem ne_word_of_mem_lexemes {a : Attribute} (h : .word w ∉ a.atoms) :
    ∀ l ∈ a.lexemes, l ≠ .word w := by
  rintro l hl rfl
  exact h (word_mem_lexemes hl)

/-- What names a set as the guard expects it is a single word. -/
theorem charset_lexemes {keyword : CharsetKeyword} {quote : Option Char} {name : CharsetName}
    (h : (charset keyword quote name).isUnread = false) :
    (charset keyword quote name).lexemes = [word "character", word "set", .word name.letters] ∨
      (charset keyword quote name).lexemes = [word "charset", .word name.letters] := by
  cases quote with
  | some q => cases keyword <;> cases h
  | none =>
    cases keyword with
    | characterSet => exact Or.inl rfl
    | charset => exact Or.inr rfl
    | charSet => cases h

theorem collate_lexemes {quote : Option Char} {collation : Collation}
    (h : (collate quote collation).isUnread = false) :
    (collate quote collation).lexemes = [word "collate", .word collation.letters] := by
  cases quote with
  | some q => cases h
  | none => rfl

end Attribute

theorem flatMap_lexemes (attributes : List Attribute) :
    (attributes.flatMap Attribute.atoms).flatMap Atom.lexemes = attributes.flatMap Attribute.lexemes :=
  List.flatMap_assoc

/-- The first CHARACTER SET is found. -/
theorem findSome?_charsetAt {attributes : List Attribute}
    (hunread : ∀ a ∈ attributes, a.isUnread = false) :
    (attributes.flatMap Attribute.lexemes).tails.findSome? charsetAt =
      (attributes.findSome? Attribute.saysCharset).map CharsetName.letters := by
  induction attributes with
  | nil => rfl
  | cons a attributes ih =>
    obtain ⟨ha, hattributes⟩ := List.forall_mem_cons.mp hunread
    -- an attribute whose lexemes say nothing of a set is passed over
    have hquiet : a.saysCharset = none → (∀ l ∈ a.lexemes, l ≠ word "character" ∧ l ≠ word "charset") →
        ((a :: attributes).flatMap Attribute.lexemes).tails.findSome? charsetAt =
          ((a :: attributes).findSome? Attribute.saysCharset).map CharsetName.letters := by
      intro hset hl
      rw [List.flatMap_cons, List.findSome?_cons, hset,
        findSome?_tails_append (fun l hmem => charsetAt_quiet (hl l hmem).1 (hl l hmem).2)]
      exact ih hattributes
    cases a with
    | charset keyword quote name =>
      rw [List.flatMap_cons, List.findSome?_cons]
      rcases Attribute.charset_lexemes ha with hlexemes | hlexemes
      · rw [hlexemes]
        rfl
      · rw [hlexemes, List.cons_append, List.tails_cons, List.findSome?_cons]
        have hat := charsetAt_charset name.letters (attributes.flatMap Attribute.lexemes)
        rw [List.cons_append, List.nil_append, hat]
        rfl
    | collate quote collation =>
      refine hquiet rfl ?_
      rw [Attribute.collate_lexemes ha]
      intro l hl
      rcases List.mem_cons.mp hl with rfl | hl
      · exact ⟨by decide, by decide⟩
      · obtain rfl := List.mem_singleton.mp hl
        exact ⟨fun h => collation.letters_ne (w := "character".toList) (by decide) (Lexeme.word.inj h),
          fun h => collation.letters_ne (w := "charset".toList) (by decide) (Lexeme.word.inj h)⟩
    | _ =>
      refine hquiet rfl fun l hl => ⟨?_, ?_⟩
      · exact Attribute.ne_word_of_mem_lexemes (Attribute.not_mem_atoms (by decide) ha rfl rfl) l hl
      · exact Attribute.ne_word_of_mem_lexemes (Attribute.not_mem_atoms (by decide) ha rfl rfl) l hl

/-- Without one, the first COLLATE. -/
theorem findSome?_collateAt {attributes : List Attribute}
    (hunread : ∀ a ∈ attributes, a.isUnread = false)
    (hset : ∀ a ∈ attributes, a.saysCharset = none) :
    ((attributes.flatMap Attribute.lexemes).tails.findSome? collateAt).map (·.takeWhile (· ≠ '_')) =
      (attributes.findSome? Attribute.saysCollation).map CharsetName.letters := by
  induction attributes with
  | nil => rfl
  | cons a attributes ih =>
    obtain ⟨ha, hattributes⟩ := List.forall_mem_cons.mp hunread
    obtain ⟨hset', hsets⟩ := List.forall_mem_cons.mp hset
    cases hcollation : a.saysCollation with
    | none =>
      have hquiet : ∀ l ∈ a.lexemes, l ≠ word "collate" :=
        Attribute.ne_word_of_mem_lexemes (Attribute.not_mem_atoms (by decide) ha hset' hcollation)
      rw [List.flatMap_cons, List.findSome?_cons, hcollation,
        findSome?_tails_append (fun l hmem => collateAt_quiet (hquiet l hmem))]
      exact ih hattributes hsets
    | some name =>
      cases a with
      | collate quote collation =>
        obtain rfl := Option.some.inj hcollation
        rw [List.flatMap_cons, List.findSome?_cons, Attribute.collate_lexemes ha]
        show (some collation.letters).map _ = some collation.name.letters
        rw [Option.map_some, collation.takeWhile_letters]
      | _ => cases hcollation

/-- What the guard reads as the character set is what the definition says. -/
theorem Definition.declaredCharset_eq (d : Definition) (h : Reads text d.atoms)
    (hbreaks : ¬d.BreaksLine) (hunread : ∀ a ∈ d.attributes, a.isUnread = false) :
    declaredCharset (blankLiterals text) =
      ((d.attributes.findSome? Attribute.saysCharset).or
        (d.attributes.findSome? Attribute.saysCollation)).map CharsetName.letters := by
  have hlexemes : lexemes (blankLiterals text) =
      d.type.atoms.flatMap Atom.lexemes ++ d.attributes.flatMap Attribute.lexemes := by
    rw [h.lexemes_blankLiterals, Definition.atoms, List.flatMap_append, flatMap_lexemes]
    intro a ha
    cases hbreak : a.breaksLine with
    | false => rfl
    | true => exact absurd ⟨a, ha, hbreak⟩ hbreaks
  have htype : ∀ w, charsetWords.contains w = true →
      ∀ l ∈ d.type.atoms.flatMap Atom.lexemes, l ≠ .word w := by
    rintro w hw l hl rfl
    exact d.type.not_mem_atoms hw (word_mem_lexemes hl)
  have hcharset : (lexemes (blankLiterals text)).tails.findSome? charsetAt =
      (d.attributes.findSome? Attribute.saysCharset).map CharsetName.letters := by
    rw [hlexemes, findSome?_tails_append (fun l hl => charsetAt_quiet
      (htype "character".toList (by decide) l hl) (htype "charset".toList (by decide) l hl))]
    exact findSome?_charsetAt hunread
  unfold declaredCharset
  rw [hcharset]
  cases hset : d.attributes.findSome? Attribute.saysCharset with
  | some name => rfl
  | none =>
    rw [hlexemes, findSome?_tails_append (fun l hl => collateAt_quiet
      (htype "collate".toList (by decide) l hl))]
    exact findSome?_collateAt hunread (List.findSome?_eq_none_iff.mp hset)
namespace Definition

variable {d : Definition}

/-- The set the definition names, in either way. -/
def names (d : Definition) : Option CharsetName :=
  (d.attributes.findSome? Attribute.saysCharset).or (d.attributes.findSome? Attribute.saysCollation)

theorem charset_of_names {name : CharsetName} (h : d.names = some name) (table : Charset) :
    d.charset table = name.charset := by
  have hstates : ∃ a ∈ d.attributes, a.states = some name.charset := by
    unfold names at h
    cases hset : d.attributes.findSome? Attribute.saysCharset with
    | some name' =>
      rw [hset] at h
      obtain rfl := Option.some.inj h
      obtain ⟨a, ha, hname⟩ := List.exists_of_findSome?_eq_some hset
      exact ⟨a, ha, Attribute.states_of_saysCharset hname⟩
    | none =>
      rw [hset] at h
      obtain ⟨a, ha, hname⟩ := List.exists_of_findSome?_eq_some h
      exact ⟨a, ha, Attribute.states_of_saysCollation hname⟩
  obtain ⟨a, ha, hstate⟩ := hstates
  unfold charset
  cases hfind : d.attributes.findSome? Attribute.states with
  | none => rw [List.findSome?_eq_none_iff.mp hfind a ha] at hstate; cases hstate
  | some s =>
    obtain ⟨b, hb, hs⟩ := List.exists_of_findSome?_eq_some hfind
    exact d.agree b hb a ha _ _ hs hstate

theorem charset_of_names_none (hunread : ∀ a ∈ d.attributes, a.isUnread = false)
    (h : d.names = none) (table : Charset) : d.charset table = table := by
  obtain ⟨hset, hcollation⟩ := Option.or_eq_none_iff.mp h
  have hnone : d.attributes.findSome? Attribute.states = none := by
    refine List.findSome?_eq_none_iff.mpr fun a ha => ?_
    exact Attribute.states_eq_none (hunread a ha) (List.findSome?_eq_none_iff.mp hset a ha)
      (List.findSome?_eq_none_iff.mp hcollation a ha)
  rw [charset, hnone]
  rfl

/-- NOT NULL and PRIMARY KEY are found, wherever they stand. -/
theorem saysNotNull_lexemes (hreads : Reads text d.atoms) (hbreaks : ¬d.BreaksLine)
    (h : d.attributes.any Attribute.saysNotNull = true) :
    [word "not", word "null"] <:+: lexemes (blankLiterals text) ∨
      [word "primary", word "key"] <:+: lexemes (blankLiterals text) := by
  have hlexemes : lexemes (blankLiterals text) = d.atoms.flatMap Atom.lexemes := by
    refine hreads.lexemes_blankLiterals fun a ha => ?_
    cases hbreak : a.breaksLine with
    | false => rfl
    | true => exact absurd ⟨a, ha, hbreak⟩ hbreaks
  obtain ⟨a, ha, hsays⟩ := List.any_eq_true.mp h
  obtain ⟨front, back, hsplit⟩ := List.append_of_mem ha
  have hinfix : a.lexemes <:+: lexemes (blankLiterals text) := by
    rw [hlexemes, atoms, hsplit, List.flatMap_append, flatMap_lexemes, List.flatMap_append,
      List.flatMap_cons]
    exact ⟨d.type.atoms.flatMap Atom.lexemes ++ front.flatMap Attribute.lexemes,
      back.flatMap Attribute.lexemes, by simp⟩
  cases a with
  | notNull => exact Or.inl hinfix
  | primaryKey => exact Or.inr hinfix
  | _ => cases hsays

end Definition

end XChainDecoder.Migrate
