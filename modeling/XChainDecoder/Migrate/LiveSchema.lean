import Mathlib.Data.List.Infix
import XChainDecoder.Lib.Decimal
import XChainDecoder.Migrate.Statements

/-! # The live-schema guard

    `losses` reads the live column as information_schema shows it and the definition a
    MODIFY restates, and names what the restatement would take away: an attribute the
    definition leaves out, NULL, a part of the type's values, a character set. Texts are
    lists of characters; a pattern with word boundaries is a test on the lexemes. -/

namespace XChainDecoder.Migrate

open Sql

/-! ## Section 1: The patterns -/

/-- `\w` -/
def isWordChar (c : Char) : Bool := c.isAlphanum || c = '_'

def lower (text : List Char) : List Char := text.map Char.toLower

def upper (text : List Char) : List Char := text.map Char.toUpper

/-- What a pattern of `\b`, `\s` and `\w+` can tell apart. -/
inductive Lexeme where
  /-- as many word characters as stand together, in lower case -/
  | word (letters : List Char)
  | sign (c : Char)
deriving DecidableEq, Repr

/-- A word character in front of the lexemes of `rest`. -/
def Lexeme.extend (c : Char) (rest : List Char) (ls : List Lexeme) : List Lexeme :=
  match ls with
  | .word w :: ls' =>
      if rest.head?.any isWordChar then .word (c.toLower :: w) :: ls' else .word [c.toLower] :: ls
  | _ => .word [c.toLower] :: ls

/-- Two words next to each other here have whitespace between them in the text, so that
    `/\bNOT\s+NULL\b/i` matches where these two words follow each other. -/
def lexemes : List Char → List Lexeme
  | [] => []
  | c :: rest =>
      if isWordChar c then Lexeme.extend c rest (lexemes rest)
      else if Text.isWhitespace c then lexemes rest
      else .sign c :: lexemes rest

def word (letters : String) : Lexeme := .word letters.toList

/-- `/\b…\b/` with a text of words and single spaces for the dots, from here on. -/
def mentionsFrom (phrase : List Char) : Bool → List Char → Bool
  | _, [] => false
  | inWord, c :: rest =>
      (!inWord && phrase.isPrefixOf (c :: rest) &&
          !((c :: rest).drop phrase.length).head?.any isWordChar) ||
        mentionsFrom phrase (isWordChar c) rest

def mentions (phrase : String) (text : List Char) : Bool := mentionsFrom phrase.toList false text

/-- `.` matches none of these. -/
def isLineTerminator (c : Char) : Bool :=
  c = '\n' || c = '\r' || c.toNat = 0x2028 || c.toNat = 0x2029

/-- How many characters `(?:[^q\\]|\\.|qq)*q` takes behind an opening `q`. A doubled
    quote that leads nowhere is given back, and its first half closes the literal. -/
def literalEnd (q : Char) : List Char → Option ℕ
  | [] => none
  | c :: rest =>
      if c = q then
        match rest with
        | d :: behind =>
            if d = q then
              match literalEnd q behind with
              | some n => some (n + 2)
              | none => some 1
            else some 1
        | [] => some 1
      else if c = '\\' then
        match rest with
        | d :: behind => if isLineTerminator d then none else (literalEnd q behind).map (· + 2)
        | [] => none
      else (literalEnd q rest).map (· + 1)

/-- How many characters of a literal follow its opening quote. -/
def literalLength (q : Char) (rest : List Char) : Option ℕ :=
  if q = '`' then if '`' ∈ rest then some ((rest.takeWhile (· ≠ '`')).length + 1) else none
  else literalEnd q rest

/-- What the `replace` copies from here on, with so many characters of a match left. -/
def blankFrom : ℕ → List Char → List Char
  | _, [] => []
  | skip + 1, _ :: rest => blankFrom skip rest
  | 0, c :: rest =>
      if isQuote c then
        match literalLength c rest with
        | some n => c :: c :: blankFrom n rest
        | none => c :: blankFrom 0 rest
      else c :: blankFrom 0 rest

def blankLiterals (text : List Char) : List Char := blankFrom 0 text

/-! ## Section 2: The parts of a definition -/

/-- What the loop of `splitTopLevel` pushes from here on. -/
def splitTopFrom : Mode → ℤ → List Char → List Char → List (List Char)
  | _, _, current, [] => if Text.trim current ≠ [] then [current] else []
  | .quoted quote, depth, current, ch :: rest =>
      if opensBackslashEscape ch rest quote then
        splitTopFrom (.second (.quoted quote)) depth (current ++ [ch]) rest
      else if ch = quote then
        if rest.head? = some quote then
          splitTopFrom (.second (.quoted quote)) depth (current ++ [ch]) rest
        else splitTopFrom .code depth (current ++ [ch]) rest
      else splitTopFrom (.quoted quote) depth (current ++ [ch]) rest
  | .second back, depth, current, ch :: rest => splitTopFrom back depth (current ++ [ch]) rest
  | _, depth, current, ch :: rest =>
      if isQuote ch then splitTopFrom (.quoted ch) depth (current ++ [ch]) rest
      else
        let depth' := if ch = '(' then depth + 1 else if ch = ')' then depth - 1 else depth
        if ch = ',' ∧ depth' = 0 then current :: splitTopFrom .code depth' [] rest
        else splitTopFrom .code depth' (current ++ [ch]) rest

def splitTopLevel (text : List Char) : List (List Char) := splitTopFrom .code 0 [] text

/-- The data type, its arguments and unsignedness as the definition states them. -/
structure TypeText where
  name       : List Char
  args       : Option (List Char)
  isUnsigned : Bool
deriving DecidableEq, Repr

def skipSpace (text : List Char) : List Char := text.dropWhile Text.isWhitespace

/-- `(?:\(([^)]*)\))?`: what the parentheses hold, and what is behind them. -/
def parenthesised (text : List Char) : Option (List Char) × List Char :=
  match text with
  | '(' :: rest =>
      match rest.dropWhile (· ≠ ')') with
      | _ :: behind => (some (rest.takeWhile (· ≠ ')')), behind)
      | [] => (none, text)
  | _ => (none, text)

def parseType (definition : List Char) : Option TypeText :=
  match (skipSpace definition).takeWhile isWordChar with
  | [] => none
  | name =>
      let (args, behind) := parenthesised (skipSpace ((skipSpace definition).dropWhile isWordChar))
      some ⟨lower name, args.map Text.trim,
        "unsigned".toList.isPrefixOf (lower (skipSpace behind))⟩

def parseLiveType (columnType : Option (List Char)) : Option TypeText :=
  parseType (columnType.getD [])

/-- `.replace(/^'|'$/g, '')` -/
def stripQuotes (text : List Char) : List Char :=
  let opened := if text.head? = some '\'' then text.tail else text
  if opened.getLast? = some '\'' then opened.dropLast else opened

def enumValues (args : Option (List Char)) : List (List Char) :=
  match args with
  | none => []
  | some args => (splitTopLevel args).map (fun s => stripQuotes (Text.trim s))

/-- `(?:CHARACTER\s+SET|CHARSET)\s+(\w+)` here. -/
def charsetAt : List Lexeme → Option (List Char)
  | .word a :: .word b :: .word w :: _ =>
      if a = "character".toList ∧ b = "set".toList then some w
      else if a = "charset".toList then some b else none
  | .word a :: .word b :: _ => if a = "charset".toList then some b else none
  | _ => none

/-- `COLLATE\s+(\w+)` here. -/
def collateAt : List Lexeme → Option (List Char)
  | .word a :: .word b :: _ => if a = "collate".toList then some b else none
  | _ => none

def declaredCharset (definition : List Char) : Option (List Char) :=
  match (lexemes definition).tails.findSome? charsetAt with
  | some cs => some cs
  | none => ((lexemes definition).tails.findSome? collateAt).map (·.takeWhile (· ≠ '_'))

/-! ## Section 3: The tables -/

def typeAliases : List (List Char × List Char) :=
  [("integer".toList, "int".toList), ("numeric".toList, "decimal".toList),
    ("dec".toList, "decimal".toList), ("fixed".toList, "decimal".toList),
    ("real".toList, "double".toList), ("bool".toList, "tinyint".toList),
    ("boolean".toList, "tinyint".toList), ("json".toList, "longtext".toList)]

def intRanks : List (List Char × ℕ) :=
  [("tinyint".toList, 1), ("smallint".toList, 2), ("mediumint".toList, 3), ("int".toList, 4),
    ("integer".toList, 4), ("bigint".toList, 5)]

def textRanks : List (List Char × ℕ) :=
  [("tinytext".toList, 1), ("text".toList, 2), ("mediumtext".toList, 3), ("longtext".toList, 4)]

def blobRanks : List (List Char × ℕ) :=
  [("tinyblob".toList, 1), ("blob".toList, 2), ("mediumblob".toList, 3), ("longblob".toList, 4)]

def charsetRanks : List (List Char × ℕ) :=
  [("ascii".toList, 1), ("latin1".toList, 1), ("utf8".toList, 3), ("utf8mb3".toList, 3),
    ("utf8mb4".toList, 4)]

/-- Decimal digits each integer type needs to hold its whole range, signed then unsigned. -/
def intDigits : List (List Char × ℕ × ℕ) :=
  [("tinyint".toList, 3, 3), ("smallint".toList, 5, 5), ("mediumint".toList, 7, 8),
    ("int".toList, 10, 10), ("integer".toList, 10, 10), ("bigint".toList, 19, 20)]

def sizedTypes : List (List Char) :=
  ["varchar".toList, "char".toList, "varbinary".toList, "binary".toList]

def fspTypes : List (List Char) := ["datetime".toList, "timestamp".toList, "time".toList]

def textualTypes : List (List Char) :=
  ["char".toList, "varchar".toList, "tinytext".toList, "text".toList, "mediumtext".toList,
    "longtext".toList, "enum".toList, "set".toList]

def intRank (name : List Char) : Option ℕ := intRanks.lookup name

def textRank (name : List Char) : Option ℕ := textRanks.lookup name

def blobRank (name : List Char) : Option ℕ := blobRanks.lookup name

def charsetRank (name : List Char) : Option ℕ := charsetRanks.lookup name

def isSized (name : List Char) : Bool := sizedTypes.contains name

def isFsp (name : List Char) : Bool := fspTypes.contains name

def isTextual (name : List Char) : Bool := textualTypes.contains name

/-- The type under the name the server stores it as. -/
def canonicalType (t : TypeText) : TypeText :=
  { t with name := (typeAliases.lookup t.name).getD t.name }

/-! ## Section 4: Numbers -/

/-- `Number(text)`, with none for NaN. The empty text is 0. Signs, fractions and other
    bases, which the server takes nowhere between these parentheses, are NaN here. -/
def toNumber (text : List Char) : Option ℤ :=
  if (Text.trim text).all Char.isDigit then some (Decimal.value (Text.trim text)) else none

/-- Nothing is less than NaN, nor NaN less than anything. -/
def isLess : Option ℤ → Option ℤ → Bool
  | some a, some b => a < b
  | _, _ => false

def minus (a b : Option ℤ) : Option ℤ := a.bind (fun a => b.map (a - ·))

def numberText : Option ℤ → List Char
  | some n => (toString n).toList
  | none => "NaN".toList

/-- `[p, s = 0] = args.split(',').map(Number)` -/
def pairOf (args : List Char) : Option ℤ × Option ℤ :=
  match (args.splitOn ',').map toNumber with
  | p :: s :: _ => (p, s)
  | [p] => (p, some 0)
  | [] => (none, some 0)

/-- Bare DECIMAL is (10,0), DECIMAL(p) is (p,0). -/
def decimalArgs (args : Option (List Char)) : Option ℤ × Option ℤ :=
  match args with
  | none => (some 10, some 0)
  | some args => pairOf args

/-- Fractional-second digits; absent means 0. -/
def fsp (args : Option (List Char)) : Option ℤ :=
  match args with
  | none => some 0
  | some args => toNumber args

/-- `Number` of what may be null. -/
def lengthOf (args : Option (List Char)) : Option ℤ :=
  match args with
  | none => some 0
  | some args => toNumber args

/-- `Number(args || 1)` -/
def bitsOf (args : Option (List Char)) : Option ℤ :=
  match args with
  | none => some 1
  | some args => if args = [] then some 1 else toNumber args

/-! ## Section 5: Types compared -/

def arrow (live next : List Char) : List Char := live ++ " -> ".toList ++ next

def sized (name size : List Char) : List Char := name ++ '(' :: size ++ [')']

def withSign (name : List Char) (isUnsigned : Bool) : List Char :=
  name ++ if isUnsigned then " unsigned".toList else []

def shownType (t : TypeText) : List Char :=
  withSign (match t.args with | none => t.name | some args => sized t.name args) t.isUnsigned

def gainsSign (live next : TypeText) : Bool := next.isUnsigned && !live.isUnsigned

/-- A change of type name the server applies without losing a stored value. -/
def widensAcross (live next : TypeText) : Bool :=
  match intDigits.lookup live.name, decide (next.name = "decimal".toList) with
  | some (signed, unsigned), true =>
      let (p, s) := decimalArgs next.args
      !isLess (minus p s) (some (if live.isUnsigned then unsigned else signed)) &&
        (minus p s).isSome && !gainsSign live next
  | _, _ =>
      if isSized live.name then
        (textRank next.name).any (1 < ·) || (blobRank next.name).any (1 < ·)
      else if live.name = "timestamp".toList ∧ next.name = "datetime".toList then
        (fsp next.args).isSome && (fsp live.args).isSome && !isLess (fsp next.args) (fsp live.args)
      else if live.name = "date".toList ∧ next.name = "datetime".toList then true
      else live.name = "float".toList && next.name = "double".toList && next.args.isNone &&
        !next.isUnsigned

def decimalText (p s : Option ℤ) : List Char :=
  sized "decimal".toList (numberText p ++ ',' :: numberText s)

/-- The loss when a type keeps its name but its precision, fractional seconds or width
    shrink. -/
def narrowedPrecision (live next : TypeText) : Option (List Char) :=
  let shown := arrow (shownType live) (shownType next)
  if live.name = "decimal".toList then
    let (lp, ls) := decimalArgs live.args
    let (np, ns) := decimalArgs next.args
    if isLess (minus np ns) (minus lp ls) || isLess ns ls || gainsSign live next then
      some (arrow (decimalText lp ls) (withSign (decimalText np ns) next.isUnsigned))
    else none
  else if isFsp live.name then
    if isLess (fsp next.args) (fsp live.args) then some shown else none
  else if live.name = "bit".toList then
    if isLess (bitsOf next.args) (bitsOf live.args) then some shown else none
  else if live.name = "float".toList ∨ live.name = "double".toList then
    match live.args, next.args with
    | _, none => if gainsSign live next then some shown else none
    | none, some _ => some shown
    | some liveArgs, some nextArgs =>
        let (lm, ld) := pairOf liveArgs
        let (nm, nd) := pairOf nextArgs
        if gainsSign live next || isLess (minus nm nd) (minus lm ld) || isLess nd ld then some shown
        else none
  else none

/-- A smaller rank in the same table. -/
def narrowedRank (live next : TypeText) (l n : ℕ) : Option (List Char) :=
  if n < l then some (arrow live.name next.name) else none

def joined (names : List (List Char)) : List Char := [','].intercalate names

def lostMembers (live next : TypeText) : List (List Char) :=
  (enumValues live.args).filter (fun v => !(enumValues next.args).contains v)

def narrowedCanonical (live next : TypeText) : Option (List Char) :=
  match intRank live.name, intRank next.name with
  | some l, some n =>
      if n < l then some (arrow live.name next.name)
      else if n = l ∧ live.isUnsigned ≠ next.isUnsigned then
        some (arrow (withSign live.name live.isUnsigned) (withSign next.name next.isUnsigned))
      else none
  | _, _ =>
    match textRank live.name, textRank next.name with
    | some l, some n => narrowedRank live next l n
    | _, _ =>
      match blobRank live.name, blobRank next.name with
      | some l, some n => narrowedRank live next l n
      | _, _ =>
        if isSized live.name ∧ next.name = live.name then
          if isLess (lengthOf next.args) (lengthOf live.args) then
            some (arrow (sized live.name (numberText (lengthOf live.args)))
              (sized next.name (numberText (lengthOf next.args))))
          else none
        else if (live.name = "enum".toList ∨ live.name = "set".toList) ∧ next.name = live.name then
          if lostMembers live next = [] then none
          else some (live.name ++ " drops ".toList ++ joined (lostMembers live next))
        else if live.name = next.name then narrowedPrecision live next
        else if widensAcross live next then none
        else if (intRank live.name).isSome ∨ (textRank live.name).isSome ∨
            (blobRank live.name).isSome ∨ isSized live.name then
          some (arrow live.name next.name)
        else some (arrow (shownType live) (shownType next))

def narrowedType (rawLive rawNext : Option TypeText) : Option (List Char) :=
  match rawLive, rawNext with
  | some live, some next => narrowedCanonical (canonicalType live) (canonicalType next)
  | _, _ => none

/-! ## Section 6: The losses -/

/-- The live column as information_schema shows it; none is a null. -/
structure LiveRow where
  columnType           : Option (List Char)
  columnDefault        : Option (List Char)
  extra                : Option (List Char)
  columnComment        : Option (List Char)
  generationExpression : Option (List Char)
  isNullable           : Option (List Char)
  characterSetName     : Option (List Char)
  collationName        : Option (List Char)
  tableCollation       : Option (List Char)

/-- MariaDB 10.6+ reports utf8 as utf8mb3. -/
def collationKey (name : Option (List Char)) : Option (List Char) :=
  match name with
  | none | some [] => none
  | some name =>
      if "utf8_".toList.isPrefixOf (lower name) then
        some ("utf8mb3_".toList ++ (lower name).drop 5)
      else some (lower name)

/-- `out.push(message)` under a condition. -/
def lossIf (condition : Bool) (message : List Char) : List (List Char) :=
  if condition then [message] else []

def isGenerated (live : LiveRow) : Bool :=
  let extra := lower (live.extra.getD [])
  live.generationExpression.getD [] ≠ [] || mentions "virtual generated" extra ||
    mentions "stored generated" extra || mentions "persistent generated" extra

/-- What the definition leaves out, but for what a value is made of. -/
def attributeLosses (live : LiveRow) (bare : List Lexeme) : List (List Char) :=
  let extra := lower (live.extra.getD [])
  lossIf (mentions "auto_increment" extra && !decide ([word "auto_increment"] <:+: bare))
      "strips AUTO_INCREMENT".toList ++
    (match live.columnDefault with
      | none => []
      | some text => lossIf (!isGenerated live && upper text ≠ "NULL".toList &&
          !decide ([word "default"] <:+: bare)) ("strips DEFAULT ".toList ++ text)) ++
    lossIf (mentions "on update" extra && !decide ([word "on", word "update"] <:+: bare))
      "strips ON UPDATE".toList ++
    lossIf (live.columnComment.getD [] ≠ [] && !decide ([word "comment"] <:+: bare))
      "strips COMMENT".toList ++
    lossIf (isGenerated live && !decide ([word "generated"] <:+: bare) &&
        !decide ([word "as", .sign '('] <:+: bare)) "strips the generation expression".toList

def isNullableRow (live : LiveRow) : Bool := upper (live.isNullable.getD []) = "YES".toList

def nullLosses (live : LiveRow) (bare : List Lexeme) : List (List Char) :=
  lossIf (isNullableRow live && (decide ([word "not", word "null"] <:+: bare) ||
    decide ([word "primary", word "key"] <:+: bare))) "narrows NULL -> NOT NULL".toList

def typeLosses (live : LiveRow) (definition : List Char) : List (List Char) :=
  match narrowedType (parseLiveType live.columnType) (parseType definition) with
  | some narrowed => ["narrows the type (".toList ++ narrowed ++ [')']]
  | none => []

def liveSet (live : LiveRow) : Option (List Char) :=
  match live.characterSetName with
  | none | some [] => none
  | some name => some (lower name)

def charsetLosses (live : LiveRow) (bare : List Char) : List (List Char) :=
  match liveSet live, declaredCharset bare with
  | some liveSet, some nextSet =>
      let narrows := match charsetRank liveSet, charsetRank nextSet with
        | some l, some n => decide (n < l)
        | _, _ => true
      lossIf (nextSet ≠ liveSet && narrows)
        ("changes the charset (".toList ++ arrow liveSet nextSet ++ [')'])
  | _, _ => []

/-- A text MODIFY naming neither CHARACTER SET nor COLLATE takes the table's default. -/
def collationLosses (live : LiveRow) (definition bare : List Char) : List (List Char) :=
  match liveSet live, declaredCharset bare, parseType definition,
      collationKey live.collationName, collationKey live.tableCollation with
  | some _, none, some nextType, some liveCollation, some tableCollation =>
      let what := if liveCollation.takeWhile (· ≠ '_') = tableCollation.takeWhile (· ≠ '_') then
        "omits COLLATE".toList else "omits CHARACTER SET".toList
      lossIf (isTextual nextType.name && liveCollation ≠ tableCollation)
        (what ++ " (".toList ++ liveCollation ++ " -> table default ".toList ++ tableCollation ++ [')'])
  | _, _, _, _, _ => []

/-- Every loss one MODIFY would cause against the live column row; empty when it is safe. -/
def losses (live : LiveRow) (definition : List Char) : List (List Char) :=
  let bare := blankLiterals definition
  attributeLosses live (lexemes bare) ++ nullLosses live (lexemes bare) ++
    typeLosses live definition ++ charsetLosses live bare ++ collationLosses live definition bare

end XChainDecoder.Migrate
