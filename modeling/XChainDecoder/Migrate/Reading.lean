import XChainDecoder.Migrate.LiveSchema

/-! # What the guard's patterns see of a definition

    A definition is read as atoms: words, quoted literals and signs, with whitespace
    between them. The patterns of the guard run over its text; here each of them is
    answered on the atoms.

    **Main results.** `Reads.lexemes_blankLiterals`, `Reads.parseType_bare`,
    `Reads.parseType_args`, `Reads.enumValues_eq`. -/

namespace XChainDecoder.Migrate

open Sql

/-! ## Section 1: Atoms -/

inductive Atom where
  /-- in lower case -/
  | word (letters : List Char)
  | literal (q : Char) (body : List Char)
  | sign (c : Char)
deriving DecidableEq, Repr

/-- The atom is written as `mid` where `rest` follows. -/
def Atom.Spells (mid rest : List Char) : Atom → Prop
  | word w => lower mid = w ∧ mid ≠ [] ∧ (∀ c ∈ mid, isWordChar c = true) ∧
      rest.head?.any isWordChar = false
  | literal q body => mid = q :: body ++ [q] ∧ isQuote q = true ∧ Body q body ∧
      rest.head? ≠ some q
  | sign c => mid = [c] ∧ isWordChar c = false ∧ Text.isWhitespace c = false ∧ isQuote c = false

inductive Reads : List Char → List Atom → Prop
  | done : Reads [] []
  | space {c : Char} {text : List Char} {atoms : List Atom} (hspace : Text.isWhitespace c = true)
      (h : Reads text atoms) : Reads (c :: text) atoms
  | atom {a : Atom} {mid rest : List Char} {atoms : List Atom} (hspells : a.Spells mid rest)
      (h : Reads rest atoms) : Reads (mid ++ rest) (a :: atoms)

variable {text rest mid : List Char} {a : Atom} {atoms more : List Atom} {c q : Char} {w : List Char}

theorem Reads.word (hne : mid ≠ []) (hmid : mid.all isWordChar = true)
    (hrest : rest.head?.any isWordChar = false) (h : Reads rest atoms) :
    Reads (mid ++ rest) (.word (lower mid) :: atoms) :=
  .atom ⟨rfl, hne, List.all_eq_true.mp hmid, hrest⟩ h

theorem not_isWordChar_of_isWhitespace (h : Text.isWhitespace c = true) : isWordChar c = false := by
  have hall : ∀ n ∈ [0x9, 0xa, 0xb, 0xc, 0xd, 0x20, 0xa0, 0x1680, 0x2000, 0x2001, 0x2002, 0x2003,
      0x2004, 0x2005, 0x2006, 0x2007, 0x2008, 0x2009, 0x200a, 0x2028, 0x2029, 0x202f, 0x205f, 0x3000,
      0xfeff], isWordChar (Char.ofNat n) = false := by decide
  have hc := hall c.toNat (of_decide_eq_true h)
  rwa [Char.ofNat_toNat] at hc

theorem not_isWordChar_of_isQuote (h : isQuote c = true) : isWordChar c = false := by
  rcases isQuote_iff.mp h with rfl | rfl | rfl <;> decide

theorem not_isQuote_of_isWhitespace (h : Text.isWhitespace c = true) : isQuote c = false := by
  cases hq : isQuote c with
  | false => rfl
  | true => rw [not_isWhitespace_of_isQuote hq] at h; cases h

theorem not_isQuote_of_isWordChar (h : isWordChar c = true) : isQuote c = false := by
  cases hq : isQuote c with
  | false => rfl
  | true => rw [not_isWordChar_of_isQuote hq] at h; cases h

theorem not_isWhitespace_of_isWordChar (h : isWordChar c = true) : Text.isWhitespace c = false := by
  cases hs : Text.isWhitespace c with
  | false => rfl
  | true => rw [not_isWordChar_of_isWhitespace hs] at h; cases h

/-- An atom is written with something, neither of whose ends is whitespace. -/
theorem Atom.Spells.ends (h : a.Spells mid rest) :
    (∃ c, mid.head? = some c ∧ Text.isWhitespace c = false) ∧
      ∃ c, mid.getLast? = some c ∧ Text.isWhitespace c = false := by
  cases a with
  | word w =>
    obtain ⟨-, hne, hword, -⟩ := h
    exact ⟨⟨_, List.head?_eq_some_head hne, not_isWhitespace_of_isWordChar (hword _ (List.head_mem hne))⟩,
      ⟨_, List.getLast?_eq_some_getLast hne,
        not_isWhitespace_of_isWordChar (hword _ (List.getLast_mem hne))⟩⟩
  | literal q body =>
    obtain ⟨rfl, hq, -⟩ := h
    have hspace := not_isWhitespace_of_isQuote hq
    refine ⟨⟨q, rfl, hspace⟩, q, ?_, hspace⟩
    exact List.getLast?_concat
  | sign c =>
    obtain ⟨rfl, -, hspace, -⟩ := h
    exact ⟨⟨c, rfl, hspace⟩, c, rfl, hspace⟩

theorem Reads.of_nil (h : Reads text []) : ∀ c ∈ text, Text.isWhitespace c = true := by
  generalize hatoms : ([] : List Atom) = atoms at h
  induction h with
  | done => exact fun c hc => absurd hc List.not_mem_nil
  | space hspace h ih =>
    intro c hc
    rcases List.mem_cons.mp hc with rfl | hc
    · exact hspace
    · exact ih hatoms c hc
  | atom hspells h ih => cases hatoms

/-- Whitespace, the first atom, and what the others are read from. -/
theorem Reads.of_cons (h : Reads text (a :: atoms)) : ∃ lead mid rest,
    text = lead ++ (mid ++ rest) ∧ (∀ c ∈ lead, Text.isWhitespace c = true) ∧
      a.Spells mid rest ∧ Reads rest atoms := by
  generalize hatoms : a :: atoms = all at h
  induction h with
  | done => cases hatoms
  | @space c text atoms' hspace h ih =>
    obtain ⟨lead, mid, rest, rfl, hlead, hspells, hrest⟩ := ih hatoms
    exact ⟨c :: lead, mid, rest, rfl, List.forall_mem_cons.mpr ⟨hspace, hlead⟩, hspells, hrest⟩
  | @atom a' mid rest atoms' hspells h ih =>
    cases hatoms
    exact ⟨[], mid, rest, rfl, fun c hc => absurd hc List.not_mem_nil, hspells, h⟩

theorem dropWhile_spaces {lead : List Char} (hlead : ∀ c ∈ lead, Text.isWhitespace c = true)
    (text : List Char) : skipSpace (lead ++ text) = skipSpace text :=
  List.dropWhile_append_of_pos hlead

theorem skipSpace_of_head (h : ∃ c, text.head? = some c ∧ Text.isWhitespace c = false) :
    skipSpace text = text := by
  obtain ⟨c, hc, hspace⟩ := h
  obtain ⟨rest, rfl⟩ := List.head?_eq_some_iff.mp hc
  unfold skipSpace
  rw [List.dropWhile_cons_of_neg (by simp [hspace])]

theorem Atom.Spells.skipSpace_eq (h : a.Spells mid rest) : skipSpace (mid ++ rest) = mid ++ rest := by
  obtain ⟨c, hc, hspace⟩ := h.ends.1
  refine skipSpace_of_head ⟨c, ?_, hspace⟩
  rw [List.head?_append, hc]
  rfl

theorem Reads.skipSpace_of_cons (h : Reads text (a :: atoms)) : ∃ mid rest,
    skipSpace text = mid ++ rest ∧ a.Spells mid rest ∧ Reads rest atoms := by
  obtain ⟨lead, mid, rest, rfl, hlead, hspells, hrest⟩ := h.of_cons
  exact ⟨mid, rest, by rw [dropWhile_spaces hlead, hspells.skipSpace_eq], hspells, hrest⟩

theorem skipSpace_all (h : ∀ c ∈ text, Text.isWhitespace c = true) : skipSpace text = [] :=
  List.dropWhile_eq_nil_iff.mpr h

theorem skipSpace_skipSpace (text : List Char) : skipSpace (skipSpace text) = skipSpace text :=
  List.dropWhile_idempotent _ text

protected theorem Reads.skipSpace (h : Reads text atoms) : Reads (skipSpace text) atoms := by
  cases atoms with
  | nil =>
    rw [skipSpace_all h.of_nil]
    exact .done
  | cons a atoms =>
    obtain ⟨mid, rest, heq, hspells, hrest⟩ := h.skipSpace_of_cons
    rw [heq]
    exact .atom hspells hrest

theorem Reads.spaces {lead : List Char} (hlead : ∀ c ∈ lead, Text.isWhitespace c = true)
    (h : Reads text atoms) : Reads (lead ++ text) atoms := by
  induction lead with
  | nil => exact h
  | cons c lead ih =>
    obtain ⟨hc, hlead⟩ := List.forall_mem_cons.mp hlead
    exact .space hc (ih hlead)

/-- Nothing changes for an atom when what follows is cut off further on. -/
theorem Atom.Spells.of_append {front back : List Char} (h : a.Spells mid (front ++ back)) :
    a.Spells mid front := by
  cases a with
  | word w =>
    refine ⟨h.1, h.2.1, h.2.2.1, ?_⟩
    cases front with
    | nil => rfl
    | cons c front => exact h.2.2.2
  | literal q body =>
    refine ⟨h.1, h.2.1, h.2.2.1, ?_⟩
    cases front with
    | nil => exact fun hnone => nomatch hnone
    | cons c front => exact h.2.2.2
  | sign c => exact h

theorem Reads.of_append_spaces {trail : List Char} (htrail : ∀ c ∈ trail, Text.isWhitespace c = true)
    (h : Reads (text ++ trail) atoms) : Reads text atoms := by
  generalize hall : text ++ trail = all at h
  induction h generalizing text with
  | done =>
    obtain ⟨rfl, -⟩ := List.append_eq_nil_iff.mp hall
    exact .done
  | @space c text' atoms hspace h ih =>
    -- the spaces are all that is left: there is no atom in them
    cases text with
    | nil =>
      have hnil : atoms = [] := by
        cases atoms with
        | nil => rfl
        | cons a atoms =>
          obtain ⟨mid, rest, heq, hspells, -⟩ := h.skipSpace_of_cons
          have htext : ∀ d ∈ text', Text.isWhitespace d = true := by
            intro d hd
            refine htrail d ?_
            rw [← List.nil_append trail, hall]
            exact List.mem_cons_of_mem c hd
          rw [skipSpace_all htext] at heq
          obtain ⟨hmid, -⟩ := List.append_eq_nil_iff.mp heq.symm
          obtain ⟨d, hd, -⟩ := hspells.ends.1
          rw [hmid] at hd
          cases hd
      rw [hnil]
      exact .done
    | cons d text =>
      obtain ⟨rfl, hrest⟩ := List.cons.inj hall
      exact .space hspace (ih hrest)
  | @atom a mid rest atoms hspells h ih =>
    -- an atom does not end in a space, so it lies in the text
    rcases List.append_eq_append_iff.mp hall with ⟨x, hmid, hx⟩ | ⟨x, rfl, hx⟩
    · obtain ⟨d, hd, hspace⟩ := hspells.ends.2
      cases x using List.reverseRecOn with
      | nil =>
        rw [List.append_nil] at hmid
        rw [List.nil_append] at hx
        have hrest : Reads [] atoms := ih hx
        have hspells' : a.Spells mid [] := hspells.of_append
        rw [← hmid, ← List.append_nil mid]
        exact .atom hspells' hrest
      | append_singleton x e =>
        rw [hmid, ← List.append_assoc, List.getLast?_concat] at hd
        obtain rfl := Option.some.inj hd
        rw [htrail _ (by rw [hx]; simp)] at hspace
        cases hspace
    · have hrest : Reads x atoms := ih hx.symm
      rw [hx] at hspells
      exact .atom hspells.of_append hrest

theorem Reads.trim (h : Reads text atoms) : Reads (Text.trim text) atoms := by
  have hdrop : Reads (skipSpace text) atoms := h.skipSpace
  rw [← Text.rdropWhile_append_rtakeWhile Text.isWhitespace (skipSpace text)] at hdrop
  exact hdrop.of_append_spaces (fun c hc => List.mem_rtakeWhile_imp hc)

/-! ## Section 2: The lexemes of what is left of the literals -/

/-- An escape that `.` does not match, so that the literal is not found. -/
def breaksLine : List Char → Bool
  | c :: d :: rest =>
      if c = '\\' then isLineTerminator d || breaksLine rest else breaksLine (d :: rest)
  | _ => false

def Atom.breaksLine : Atom → Bool
  | literal q body => escapes q && Migrate.breaksLine body
  | _ => false

/-- What is left of a literal is its quotes; a name in backticks ends at each of them. -/
def Atom.lexemes : Atom → List Lexeme
  | word w => [.word w]
  | literal q body => List.replicate (if q = '`' then body.count '`' + 2 else 2) (.sign q)
  | sign c => [.sign c]

theorem blankFrom_drop (text rest : List Char) :
    blankFrom text.length (text ++ rest) = blankFrom 0 rest := by
  induction text with
  | nil => rfl
  | cons c text ih => exact ih

theorem blankFrom_plain (h : isQuote c = false) (rest : List Char) :
    blankFrom 0 (c :: rest) = c :: blankFrom 0 rest := by
  rw [blankFrom, if_neg (by simp [h])]

theorem blankFrom_quote (hq : isQuote q = true) {n : ℕ} (h : literalLength q text = some n) :
    blankFrom 0 (q :: text) = q :: q :: blankFrom n text := by
  rw [blankFrom, if_pos hq, h]

theorem blankFrom_append (h : ∀ c ∈ text, isQuote c = false) (rest : List Char) :
    blankFrom 0 (text ++ rest) = text ++ blankFrom 0 rest := by
  induction text with
  | nil => rfl
  | cons c text ih =>
    obtain ⟨hc, htext⟩ := List.forall_mem_cons.mp h
    rw [List.cons_append, blankFrom_plain hc, ih htext, List.cons_append]

theorem breaksLine_plain (h : c ≠ '\\') (rest : List Char) :
    breaksLine (c :: rest) = breaksLine rest := by
  cases rest with
  | nil => rfl
  | cons d rest => rw [breaksLine, if_neg h]

theorem literalEnd_plain (h : c ≠ q) (hslash : c ≠ '\\') (rest : List Char) :
    literalEnd q (c :: rest) = (literalEnd q rest).map (· + 1) := by
  cases rest with
  | nil => simp [literalEnd, h, hslash]
  | cons d rest => rw [literalEnd, if_neg h, if_neg hslash]

theorem literalEnd_body (hq : isQuote q = true) (hescapes : escapes q = true) {body : List Char}
    (hbody : Body q body) (hbreaks : breaksLine body = false) (hrest : rest.head? ≠ some q) :
    literalEnd q (body ++ q :: rest) = some (body.length + 1) := by
  induction hbody with
  | nil =>
    cases rest with
    | nil => simp [literalEnd]
    | cons d rest =>
      have hd : d ≠ q := fun h => hrest (by rw [h]; rfl)
      simp [literalEnd, hd]
  | @doubled b h ih =>
    rw [breaksLine_plain (ne_backslash hq), breaksLine_plain (ne_backslash hq)] at hbreaks
    simp [literalEnd, ih hbreaks]
  | @escaped d b h h' ih =>
    rw [breaksLine, if_pos rfl, Bool.or_eq_false_iff] at hbreaks
    simp [literalEnd, (ne_backslash hq).symm, hbreaks.1, ih hbreaks.2]
  | @plain d b hd hplain h ih =>
    have hslash : d ≠ '\\' := by
      intro h'
      rw [hplain h'] at hescapes
      cases hescapes
    rw [breaksLine_plain hslash] at hbreaks
    rw [List.cons_append, literalEnd_plain hd hslash, ih hbreaks]
    rfl

theorem takeWhile_backtick (h : c ≠ '`') (text : List Char) :
    literalLength '`' (c :: text) = (literalLength '`' text).map (· + 1) := by
  by_cases hmem : '`' ∈ text
  · simp [literalLength, hmem, h]
  · simp [literalLength, hmem, h.symm]

theorem blankFrom_backtick {body : List Char} (hbody : Body '`' body) (rest : List Char) :
    blankFrom 0 ('`' :: (body ++ '`' :: rest)) =
      List.replicate (body.count '`' + 2) '`' ++ blankFrom 0 rest := by
  induction hbody with
  | nil =>
    rw [List.nil_append, blankFrom_quote (n := 1) (by decide) (by simp [literalLength])]
    rfl
  | @doubled b h ih =>
    rw [List.cons_append, List.cons_append,
      blankFrom_quote (n := 1) (by decide) (by simp [literalLength])]
    have hskip : blankFrom 1 ('`' :: '`' :: (b ++ '`' :: rest)) =
        blankFrom 0 ('`' :: (b ++ '`' :: rest)) := rfl
    rw [hskip, ih, List.count_cons_self, List.count_cons_self]
    rfl
  | escaped d hescapes h ih => cases hescapes
  | @plain d b hd hplain h ih =>
    have hsome : ∃ n, literalLength '`' (b ++ '`' :: rest) = some n := by
      refine ⟨((b ++ '`' :: rest).takeWhile (· ≠ '`')).length + 1, ?_⟩
      rw [literalLength, if_pos rfl, if_pos (by simp)]
    obtain ⟨n, hn⟩ := hsome
    have hlength : literalLength '`' (d :: b ++ '`' :: rest) = some (n + 1) := by
      rw [List.cons_append, takeWhile_backtick hd, hn]
      rfl
    rw [blankFrom_quote (by decide) hn] at ih
    rw [blankFrom_quote (by decide) hlength, List.count_cons_of_ne hd, ← ih]
    rfl

theorem blankFrom_literal {body : List Char} (hq : isQuote q = true) (hbody : Body q body)
    (hbreaks : (Atom.literal q body).breaksLine = false) (hrest : rest.head? ≠ some q) :
    blankFrom 0 (q :: (body ++ q :: rest)) =
      List.replicate (if q = '`' then body.count '`' + 2 else 2) q ++ blankFrom 0 rest := by
  by_cases htick : q = '`'
  · rw [if_pos htick]
    subst htick
    exact blankFrom_backtick hbody rest
  · have hescapes : escapes q = true := decide_eq_true htick
    rw [Atom.breaksLine, hescapes, Bool.true_and] at hbreaks
    have hlength : literalLength q (body ++ q :: rest) = some (body.length + 1) := by
      rw [literalLength, if_neg htick]
      exact literalEnd_body hq hescapes hbody hbreaks hrest
    have hskip : blankFrom (body.length + 1) (body ++ q :: rest) = blankFrom 0 rest := by
      rw [List.append_cons, ← blankFrom_drop (body ++ [q]) rest, List.length_append]
      rfl
    rw [if_neg htick, blankFrom_quote hq hlength, hskip]
    rfl

theorem head?_blankFrom (text : List Char) : (blankFrom 0 text).head? = text.head? := by
  cases text with
  | nil => rfl
  | cons c text =>
    cases hq : isQuote c with
    | false => rw [blankFrom_plain hq]; rfl
    | true =>
      cases hlength : literalLength c text with
      | none => rw [blankFrom, if_pos hq, hlength]; rfl
      | some n => rw [blankFrom_quote hq hlength]; rfl

theorem lexemes_space (h : Text.isWhitespace c = true) (rest : List Char) :
    lexemes (c :: rest) = lexemes rest := by
  rw [lexemes, if_neg (by simp [not_isWordChar_of_isWhitespace h]), if_pos h]

theorem lexemes_sign (hword : isWordChar c = false) (hspace : Text.isWhitespace c = false)
    (rest : List Char) : lexemes (c :: rest) = .sign c :: lexemes rest := by
  rw [lexemes, if_neg (by simp [hword]), if_neg (by simp [hspace])]

theorem lexemes_replicate (hq : isQuote q = true) (n : ℕ) (rest : List Char) :
    lexemes (List.replicate n q ++ rest) = List.replicate n (.sign q) ++ lexemes rest := by
  induction n with
  | zero => rfl
  | succ n ih =>
    rw [List.replicate_succ, List.cons_append,
      lexemes_sign (not_isWordChar_of_isQuote hq) (not_isWhitespace_of_isQuote hq), ih]
    rfl

theorem lexemes_word {letters : List Char} (hne : letters ≠ [])
    (hword : ∀ c ∈ letters, isWordChar c = true) (hrest : rest.head?.any isWordChar = false) :
    lexemes (letters ++ rest) = .word (lower letters) :: lexemes rest := by
  induction letters with
  | nil => exact absurd rfl hne
  | cons c letters ih =>
    obtain ⟨hc, hletters⟩ := List.forall_mem_cons.mp hword
    rw [List.cons_append, lexemes, if_pos hc]
    cases letters with
    | nil =>
      rw [List.nil_append]
      unfold Lexeme.extend
      rw [hrest]
      split
      · rfl
      · rfl
    | cons d letters =>
      have hd : ((d :: letters) ++ rest).head?.any isWordChar = true := hletters d List.mem_cons_self
      rw [ih (List.cons_ne_nil _ _) hletters, Lexeme.extend, hd]
      rfl

/-- The patterns of the guard see the atoms' lexemes, if no literal escapes the end of a
    line. -/
theorem Reads.lexemes_blankLiterals (h : Reads text atoms)
    (hbreaks : ∀ a ∈ atoms, a.breaksLine = false) :
    lexemes (blankLiterals text) = atoms.flatMap Atom.lexemes := by
  induction h with
  | done => rfl
  | @space c text atoms hspace h ih =>
    rw [blankLiterals, blankFrom_plain (not_isQuote_of_isWhitespace hspace), lexemes_space hspace]
    exact ih hbreaks
  | @atom a mid rest atoms hspells h ih =>
    obtain ⟨ha, hatoms⟩ := List.forall_mem_cons.mp hbreaks
    rw [List.flatMap_cons, ← ih hatoms]
    cases a with
    | word w =>
      obtain ⟨rfl, hne, hword, hrest⟩ := hspells
      rw [blankLiterals, blankFrom_append (fun c hc => not_isQuote_of_isWordChar (hword c hc)),
        lexemes_word hne hword (by rw [head?_blankFrom]; exact hrest)]
      rfl
    | literal q body =>
      obtain ⟨rfl, hq, hbody, hrest⟩ := hspells
      have htext : q :: body ++ [q] ++ rest = q :: (body ++ q :: rest) := by simp
      rw [htext, blankLiterals, blankFrom_literal hq hbody ha hrest, lexemes_replicate hq]
      rfl
    | sign c =>
      obtain ⟨rfl, hword, hspace, hq⟩ := hspells
      rw [List.singleton_append, blankLiterals, blankFrom_plain hq, lexemes_sign hword hspace]
      rfl

/-! ## Section 3: The type and its parentheses -/

/-- `(unsigned)?` -/
def readsUnsigned : List Atom → Bool
  | .word w :: _ => "unsigned".toList.isPrefixOf w
  | _ => false

def Atom.Lacks (c : Char) : Atom → Prop
  | word _ => True
  | literal _ body => c ∉ body
  | sign d => d ≠ c

theorem not_isWordChar_toLower (h : isWordChar c = false) : isWordChar c.toLower = false := by
  by_cases hupper : c.val ≥ 'A'.val ∧ c.val ≤ 'Z'.val
  · have halpha : isWordChar c = (((true || c.isLower) || c.isDigit) || c = '_') :=
      congrArg (fun upper => ((upper || c.isLower) || c.isDigit) || c = '_') (decide_eq_true hupper)
    rw [halpha] at h
    cases h
  · have hsame : c.toLower = c := dif_neg hupper
    rw [hsame]
    exact h

theorem isPrefixOf_word {front : List Char} (hfront : ∀ c ∈ front, isWordChar c = true)
    (hrest : rest.head?.any isWordChar = false) :
    front.isPrefixOf (w ++ rest) = front.isPrefixOf w := by
  induction front generalizing w with
  | nil => rfl
  | cons c front ih =>
    obtain ⟨hc, hfront⟩ := List.forall_mem_cons.mp hfront
    cases w with
    | nil =>
      cases rest with
      | nil => rfl
      | cons d rest =>
        have hne : c ≠ d := by
          rintro rfl
          rw [List.head?_cons, Option.any_some, hc] at hrest
          cases hrest
        simp [List.isPrefixOf, hne]
    | cons d w =>
      rw [List.cons_append, List.isPrefixOf_cons_cons, List.isPrefixOf_cons_cons, ih hfront]

theorem lower_append (text rest : List Char) : lower (text ++ rest) = lower text ++ lower rest :=
  List.map_append

theorem head?_lower (h : rest.head?.any isWordChar = false) :
    (lower rest).head?.any isWordChar = false := by
  cases rest with
  | nil => rfl
  | cons c rest => exact not_isWordChar_toLower h

theorem isPrefixOf_unsigned (h : isWordChar c = false) (rest : List Char) :
    "unsigned".toList.isPrefixOf (lower (c :: rest)) = false := by
  have hne : 'u' ≠ c.toLower := by
    intro heq
    have hword := not_isWordChar_toLower h
    rw [← heq] at hword
    exact absurd hword (by decide)
  have hunsigned : "unsigned".toList = 'u' :: "nsigned".toList := by decide
  rw [hunsigned, lower, List.map_cons, List.isPrefixOf_cons_cons, beq_false_of_ne hne, Bool.false_and]

theorem Reads.isPrefixOf_unsigned (h : Reads text atoms) :
    "unsigned".toList.isPrefixOf (lower (Migrate.skipSpace text)) = readsUnsigned atoms := by
  cases atoms with
  | nil =>
    rw [skipSpace_all h.of_nil]
    rfl
  | cons a atoms =>
    obtain ⟨mid, rest, heq, hspells, -⟩ := h.skipSpace_of_cons
    rw [heq]
    cases a with
    | word w =>
      obtain ⟨rfl, -, -, hrest⟩ := hspells
      rw [lower_append]
      exact isPrefixOf_word (fun c hc => List.all_eq_true.mp (by decide) c hc) (head?_lower hrest)
    | literal q body =>
      obtain ⟨rfl, hq, -⟩ := hspells
      exact Migrate.isPrefixOf_unsigned (not_isWordChar_of_isQuote hq) _
    | sign c =>
      obtain ⟨rfl, hword, -⟩ := hspells
      exact Migrate.isPrefixOf_unsigned hword _

/-- An atom that lacks a sign is written without it. -/
theorem Atom.Spells.not_mem (h : a.Spells mid rest) (hword : isWordChar c = false)
    (hq : isQuote c = false) (hlacks : a.Lacks c) : c ∉ mid := by
  intro hmem
  cases a with
  | word w =>
    rw [h.2.2.1 c hmem] at hword
    cases hword
  | literal q body =>
    rw [h.1, List.cons_append] at hmem
    have hne : c ≠ q := by
      rintro rfl
      rw [h.2.1] at hq
      cases hq
    rcases List.mem_cons.mp hmem with heq | hmem
    · exact hne heq
    · rcases List.mem_append.mp hmem with hmem | hmem
      · exact hlacks hmem
      · exact hne (List.mem_singleton.mp hmem)
  | sign d =>
    rw [h.1] at hmem
    exact hlacks (List.mem_singleton.mp hmem).symm

/-- The text in front of a sign, and behind it. -/
theorem Reads.split (hword : isWordChar c = false) (hspace : Text.isWhitespace c = false)
    (hq : isQuote c = false) (hlacks : ∀ a ∈ atoms, a.Lacks c)
    (h : Reads text (atoms ++ .sign c :: more)) :
    ∃ front back, text = front ++ c :: back ∧ c ∉ front ∧ Reads front atoms ∧ Reads back more := by
  generalize hall : atoms ++ .sign c :: more = all at h
  induction h generalizing atoms with
  | done => exact absurd hall (by simp)
  | @space d text all hd h ih =>
    obtain ⟨front, back, rfl, hfront, hreads, hback⟩ := ih hlacks hall
    refine ⟨d :: front, back, rfl, ?_, .space hd hreads, hback⟩
    intro hmem
    rcases List.mem_cons.mp hmem with rfl | hmem
    · rw [hd] at hspace
      cases hspace
    · exact hfront hmem
  | @atom a mid rest all hspells h ih =>
    cases atoms with
    | nil =>
      obtain ⟨rfl, rfl⟩ := List.cons.inj hall
      exact ⟨[], rest, by rw [hspells.1]; rfl, List.not_mem_nil, .done, h⟩
    | cons a' atoms =>
      obtain ⟨rfl, hrest⟩ := List.cons.inj hall
      obtain ⟨ha, hatoms⟩ := List.forall_mem_cons.mp hlacks
      obtain ⟨front, back, rfl, hfront, hreads, hback⟩ := ih hatoms hrest
      refine ⟨mid ++ front, back, (List.append_assoc _ _ _).symm, ?_, .atom hspells.of_append hreads,
        hback⟩
      intro hmem
      rcases List.mem_append.mp hmem with hmem | hmem
      · exact hspells.not_mem hword hq ha hmem
      · exact hfront hmem

theorem Reads.parseType (h : Reads text (.word w :: atoms)) : ∃ rest, Reads rest atoms ∧
    parseType text = some ⟨w, (parenthesised (skipSpace rest)).1.map Text.trim,
      "unsigned".toList.isPrefixOf (lower (skipSpace (parenthesised (skipSpace rest)).2))⟩ := by
  obtain ⟨mid, rest, heq, ⟨rfl, hne, hmid, hrest⟩, hreads⟩ := h.skipSpace_of_cons
  have hnone : rest.takeWhile isWordChar = [] ∧ rest.dropWhile isWordChar = rest := by
    cases rest with
    | nil => exact ⟨rfl, rfl⟩
    | cons c rest =>
      have hc : ¬isWordChar c = true := by
        rw [show isWordChar c = false from hrest]
        exact Bool.false_ne_true
      exact ⟨List.takeWhile_cons_of_neg hc, List.dropWhile_cons_of_neg hc⟩
  have htake : (Migrate.skipSpace text).takeWhile isWordChar = mid := by
    rw [heq, List.takeWhile_append_of_pos hmid, hnone.1, List.append_nil]
  have hdrop : (Migrate.skipSpace text).dropWhile isWordChar = rest := by
    rw [heq, List.dropWhile_append_of_pos hmid, hnone.2]
  refine ⟨rest, hreads, ?_⟩
  unfold Migrate.parseType
  rw [htake, hdrop]
  split
  · exact absurd rfl hne
  · rfl

/-- No parenthesis behind the name. -/
theorem Reads.parseType_bare (h : Reads text (.word w :: atoms))
    (hbare : atoms.head? ≠ some (.sign '(')) :
    Migrate.parseType text = some ⟨w, none, readsUnsigned atoms⟩ := by
  obtain ⟨rest, hrest, hparse⟩ := h.parseType
  have hnone : parenthesised (Migrate.skipSpace rest) = (none, Migrate.skipSpace rest) := by
    unfold parenthesised
    split
    · rename_i behind heq
      cases atoms with
      | nil =>
        rw [skipSpace_all hrest.of_nil] at heq
        cases heq
      | cons a atoms =>
        -- only the sign itself starts with a bracket
        obtain ⟨mid, tail, htext, hspells, -⟩ := hrest.skipSpace_of_cons
        rw [htext] at heq
        cases a with
        | word w' =>
          obtain ⟨c, hc, -⟩ := hspells.ends.1
          obtain ⟨mid', rfl⟩ := List.head?_eq_some_iff.mp hc
          obtain ⟨rfl, -⟩ := List.cons.inj heq
          exact absurd (hspells.2.2.1 _ List.mem_cons_self) (by decide)
        | literal q body =>
          rw [hspells.1] at heq
          obtain ⟨rfl, -⟩ := List.cons.inj heq
          exact absurd hspells.2.1 (by decide)
        | sign c =>
          rw [hspells.1] at heq
          obtain ⟨rfl, -⟩ := List.cons.inj heq
          exact absurd rfl hbare
    · rfl
  rw [hparse, hnone]
  show some _ = _
  rw [skipSpace_skipSpace, hrest.isPrefixOf_unsigned]
  rfl

theorem parenthesised_open {front : List Char} (hfront : ')' ∉ front) (back : List Char) :
    parenthesised ('(' :: (front ++ ')' :: back)) = (some front, back) := by
  have hne : ∀ c ∈ front, decide (c ≠ ')') = true := by
    intro c hc
    refine decide_eq_true ?_
    rintro rfl
    exact hfront hc
  have htake : (front ++ ')' :: back).takeWhile (· ≠ ')') = front := by
    rw [List.takeWhile_append_of_pos hne, List.takeWhile_cons_of_neg (by decide), List.append_nil]
  have hdrop : (front ++ ')' :: back).dropWhile (· ≠ ')') = ')' :: back := by
    rw [List.dropWhile_append_of_pos hne, List.dropWhile_cons_of_neg (by decide)]
  simp only [parenthesised, hdrop, htake]

/-- Arguments in parentheses, none of them with a closing one inside. -/
theorem Reads.parseType_args {inside : List Atom} (hlacks : ∀ a ∈ inside, a.Lacks ')')
    (h : Reads text (.word w :: .sign '(' :: (inside ++ .sign ')' :: atoms))) :
    ∃ args, Migrate.parseType text = some ⟨w, some args, readsUnsigned atoms⟩ ∧
      Reads args inside := by
  obtain ⟨rest, hrest, hparse⟩ := h.parseType
  obtain ⟨mid, tail, htext, ⟨rfl, -⟩, htail⟩ := hrest.skipSpace_of_cons
  obtain ⟨front, back, rfl, hfront, hinside, hback⟩ :=
    htail.split (by decide) (by decide) (by decide) hlacks
  have hparen : parenthesised (Migrate.skipSpace rest) = (some front, back) := by
    rw [htext]
    exact parenthesised_open hfront back
  refine ⟨Text.trim front, ?_, hinside.trim⟩
  rw [hparse, hparen]
  show some _ = _
  rw [hback.isPrefixOf_unsigned]
  rfl

/-! ## Section 4: Numbers and members -/

theorem trim_of_ends {lead trail : List Char} (hlead : ∀ c ∈ lead, Text.isWhitespace c = true)
    (htrail : ∀ c ∈ trail, Text.isWhitespace c = true)
    (hfirst : ∃ c, text.head? = some c ∧ Text.isWhitespace c = false)
    (hlast : ∃ c, text.getLast? = some c ∧ Text.isWhitespace c = false) :
    Text.trim (lead ++ (text ++ trail)) = text := by
  have hdrop : (lead ++ (text ++ trail)).dropWhile Text.isWhitespace = text ++ trail := by
    obtain ⟨c, hc, hspace⟩ := hfirst
    rw [List.dropWhile_append_of_pos hlead]
    refine skipSpace_of_head ⟨c, ?_, hspace⟩
    rw [List.head?_append, hc]
    rfl
  obtain ⟨c, hc, hspace⟩ := hlast
  have hne : text ≠ [] := by
    rintro rfl
    cases hc
  rw [Text.trim_eq, hdrop]
  induction trail using List.reverseRecOn with
  | nil =>
    rw [List.append_nil, List.rdropWhile_eq_self_iff]
    intro hne'
    rw [List.getLast?_eq_some_getLast hne', Option.some.injEq] at hc
    rw [hc, hspace]
    exact Bool.false_ne_true
  | append_singleton trail d ih =>
    have hd : Text.isWhitespace d = true := htrail d (by simp)
    rw [← List.append_assoc, List.rdropWhile_concat_pos _ _ _ hd]
    refine ih (fun e he => htrail e (List.mem_append_left _ he)) ?_
    rw [List.dropWhile_append_of_pos hlead]
    refine skipSpace_of_head ?_
    obtain ⟨e, he, hspace'⟩ := hfirst
    exact ⟨e, by rw [List.head?_append, he]; rfl, hspace'⟩

/-- One atom alone, without the whitespace around it. -/
theorem Reads.trim_singleton (h : Reads text [a]) : ∃ rest, a.Spells (Text.trim text) rest := by
  obtain ⟨lead, mid, rest, rfl, hlead, hspells, hrest⟩ := h.of_cons
  rw [trim_of_ends hlead hrest.of_nil hspells.ends.1 hspells.ends.2]
  exact ⟨rest, hspells⟩

theorem toLower_eq_of_isDigit (h : c.toLower.isDigit = true) : c.toLower = c := by
  by_cases hupper : c.val ≥ 'A'.val ∧ c.val ≤ 'Z'.val
  · have hbounds := Decimal.bounds_of_isDigit h
    have hraised : c.toLower = ⟨c.val + ('a'.val - 'A'.val), _⟩ := dif_pos hupper
    rw [hraised] at hbounds
    have hge : 65 ≤ c.val.toNat := UInt32.le_iff_toNat_le.mp hupper.1
    have hle : c.val.toNat ≤ 90 := UInt32.le_iff_toNat_le.mp hupper.2
    have hval : (c.val + ('a'.val - 'A'.val)).toNat = c.val.toNat + 32 := by
      rw [UInt32.toNat_add, show ('a'.val - 'A'.val).toNat = 32 from rfl]
      omega
    have hlow : (c.val + ('a'.val - 'A'.val)).toNat ≤ 57 := hbounds.2
    omega
  · exact dif_neg hupper

theorem lower_digits (h : Decimal.AllDigits (lower text)) : lower text = text := by
  unfold lower at h ⊢
  induction text with
  | nil => rfl
  | cons c text ih =>
    rw [List.map_cons] at h ⊢
    rw [toLower_eq_of_isDigit (h _ List.mem_cons_self), ih h.tail]

theorem Reads.toNumber_eq (h : Reads text [.word w]) (hw : Decimal.AllDigits w) :
    toNumber text = some (Decimal.value w : ℤ) := by
  obtain ⟨rest, rfl, -⟩ := h.trim_singleton
  have hdigits := lower_digits hw
  rw [hdigits] at hw ⊢
  unfold toNumber
  rw [if_pos (List.all_eq_true.mpr hw)]

theorem Reads.not_mem (hword : isWordChar c = false) (hspace : Text.isWhitespace c = false)
    (hq : isQuote c = false) (hlacks : ∀ a ∈ atoms, a.Lacks c) (h : Reads text atoms) : c ∉ text := by
  induction h with
  | done => exact List.not_mem_nil
  | @space d text atoms hd h ih =>
    intro hmem
    rcases List.mem_cons.mp hmem with rfl | hmem
    · rw [hd] at hspace
      cases hspace
    · exact ih hlacks hmem
  | @atom a mid rest atoms hspells h ih =>
    obtain ⟨ha, hatoms⟩ := List.forall_mem_cons.mp hlacks
    intro hmem
    rcases List.mem_append.mp hmem with hmem | hmem
    · exact hspells.not_mem hword hq ha hmem
    · exact ih hatoms hmem

theorem Reads.pairOf_one (h : Reads text [.word w]) (hw : Decimal.AllDigits w) :
    pairOf text = (some (Decimal.value w : ℤ), some 0) := by
  have hcomma : ',' ∉ text := h.not_mem (by decide) (by decide) (by decide) (by simp [Atom.Lacks])
  unfold pairOf
  rw [List.splitOn_eq_singleton hcomma, List.map_singleton, h.toNumber_eq hw]

theorem Reads.pairOf_two {w' : List Char} (h : Reads text [.word w, .sign ',', .word w'])
    (hw : Decimal.AllDigits w) (hw' : Decimal.AllDigits w') :
    pairOf text = (some (Decimal.value w : ℤ), some (Decimal.value w' : ℤ)) := by
  have hsplit : Reads text ([.word w] ++ .sign ',' :: [.word w']) := h
  obtain ⟨front, back, rfl, hfront, hreads, hback⟩ :=
    hsplit.split (by decide) (by decide) (by decide) (by simp [Atom.Lacks])
  have hcomma : ',' ∉ back :=
    hback.not_mem (by decide) (by decide) (by decide) (by simp [Atom.Lacks])
  unfold pairOf
  rw [List.splitOn_append_cons_self_of_not_mem hfront, List.splitOn_eq_singleton hcomma,
    List.map_cons, List.map_singleton, hreads.toNumber_eq hw, hback.toNumber_eq hw']

variable {current : List Char} {depth : ℤ}

theorem splitTopFrom_code (ch : Char) (rest : List Char) :
    splitTopFrom .code depth current (ch :: rest) =
      if isQuote ch then splitTopFrom (.quoted ch) depth (current ++ [ch]) rest
      else
        let depth' := if ch = '(' then depth + 1 else if ch = ')' then depth - 1 else depth
        if ch = ',' ∧ depth' = 0 then current :: splitTopFrom .code depth' [] rest
        else splitTopFrom .code depth' (current ++ [ch]) rest := by
  rw [splitTopFrom]
  · intro quote h
    cases h
  · intro back h
    cases h

theorem splitTopFrom_spaces {lead : List Char} (hlead : ∀ c ∈ lead, Text.isWhitespace c = true)
    (text : List Char) :
    splitTopFrom .code depth current (lead ++ text) =
      splitTopFrom .code depth (current ++ lead) text := by
  induction lead generalizing current with
  | nil => rw [List.nil_append, List.append_nil]
  | cons c lead ih =>
    obtain ⟨hc, hlead⟩ := List.forall_mem_cons.mp hlead
    have hopen : c ≠ '(' := by rintro rfl; exact absurd hc (by decide)
    have hclose : c ≠ ')' := by rintro rfl; exact absurd hc (by decide)
    have hcomma : c ≠ ',' := by rintro rfl; exact absurd hc (by decide)
    rw [List.cons_append, splitTopFrom_code, if_neg (by simp [not_isQuote_of_isWhitespace hc])]
    simp only [if_neg hopen, if_neg hclose, if_neg (fun h : c = ',' ∧ depth = 0 => hcomma h.1)]
    rw [ih hlead, List.append_assoc, List.singleton_append]

theorem splitTopFrom_body (hq : isQuote q = true) {body : List Char} (hbody : Body q body)
    (hrest : rest.head? ≠ some q) :
    splitTopFrom (.quoted q) depth current (body ++ q :: rest) =
      splitTopFrom .code depth (current ++ body ++ [q]) rest := by
  induction hbody generalizing current with
  | nil =>
    simp [splitTopFrom, opensBackslashEscape, ne_backslash hq, hrest]
  | @doubled b h ih =>
    simp [splitTopFrom, opensBackslashEscape, ne_backslash hq, ih]
  | @escaped d b hescapes h ih =>
    simp [splitTopFrom, opensBackslashEscape_eq, hescapes, ih]
  | @plain d b hd hplain h ih =>
    have hopens : opensBackslashEscape d (b ++ q :: rest) q = false := by
      rw [opensBackslashEscape_eq]
      by_cases hslash : d = '\\'
      · simp [hplain hslash]
      · simp [hslash]
    simp [splitTopFrom, hopens, hd, ih]

theorem splitTopFrom_literal (hq : isQuote q = true) {body : List Char} (hbody : Body q body)
    (hrest : rest.head? ≠ some q) :
    splitTopFrom .code depth current (q :: body ++ [q] ++ rest) =
      splitTopFrom .code depth (current ++ (q :: body ++ [q])) rest := by
  have htext : q :: body ++ [q] ++ rest = q :: (body ++ q :: rest) := by simp
  rw [htext, splitTopFrom_code, if_pos hq, splitTopFrom_body hq hbody hrest]
  simp

theorem stripQuotes_quoted (body : List Char) : stripQuotes ('\'' :: body ++ ['\'']) = body := by
  unfold stripQuotes
  simp

def literalsOf (bodies : List (List Char)) : List Atom :=
  (bodies.map (Atom.literal '\'')).intersperse (.sign ',')

theorem map_splitTopFrom {bodies : List (List Char)}
    (hcurrent : ∀ c ∈ current, Text.isWhitespace c = true) (h : Reads text (literalsOf bodies)) :
    (splitTopFrom .code 0 current text).map (fun s => stripQuotes (Text.trim s)) = bodies := by
  induction bodies generalizing current text with
  | nil =>
    have hspaces := h.of_nil
    have hsplit : splitTopFrom .code 0 current (text ++ []) =
        splitTopFrom .code 0 (current ++ text) [] := splitTopFrom_spaces hspaces []
    rw [List.append_nil] at hsplit
    have htrim : Text.trim (current ++ text) = [] := by
      have hall : ∀ c ∈ current ++ text, Text.isWhitespace c = true :=
        fun c hc => (List.mem_append.mp hc).elim (hcurrent c) (hspaces c)
      rw [Text.trim_eq, List.dropWhile_eq_nil_iff.mpr hall]
      rfl
    rw [hsplit, splitTopFrom, htrim]
    rfl
  | cons body bodies ih =>
    have hfirst : ∃ more, literalsOf (body :: bodies) = .literal '\'' body :: more := by
      cases bodies with
      | nil => exact ⟨[], rfl⟩
      | cons body' bodies => exact ⟨_, rfl⟩
    obtain ⟨more, hmore⟩ := hfirst
    have hreads := h
    rw [hmore] at hreads
    -- the first body and what follows it: the end, or a comma and the next body
    obtain ⟨lead, mid, rest, rfl, hlead, ⟨rfl, hq, hbody, hrest⟩, hback⟩ := hreads.of_cons
    have hends : Atom.Spells ('\'' :: body ++ ['\'']) rest (.literal '\'' body) :=
      ⟨rfl, hq, hbody, hrest⟩
    have hfront : ∀ c ∈ current ++ lead, Text.isWhitespace c = true :=
      fun c hc => (List.mem_append.mp hc).elim (hcurrent c) (hlead c)
    rw [splitTopFrom_spaces hlead, splitTopFrom_literal hq hbody hrest]
    cases bodies with
    | nil =>
      obtain rfl : [] = more := (List.cons.inj hmore).2
      have hspaces := hback.of_nil
      have hsplit : splitTopFrom .code 0 (current ++ lead ++ ('\'' :: body ++ ['\''])) (rest ++ []) =
          splitTopFrom .code 0 (current ++ lead ++ ('\'' :: body ++ ['\'']) ++ rest) [] :=
        splitTopFrom_spaces hspaces []
      rw [List.append_nil] at hsplit
      have htrim := trim_of_ends hfront hspaces hends.ends.1 hends.ends.2
      rw [← List.append_assoc] at htrim
      rw [hsplit, splitTopFrom, htrim, if_pos (by simp), List.map_singleton, htrim, stripQuotes_quoted]
    | cons body' bodies =>
      obtain rfl : Atom.sign ',' :: literalsOf (body' :: bodies) = more := (List.cons.inj hmore).2
      obtain ⟨lead', mid', rest', rfl, hlead', ⟨rfl, -⟩, hback'⟩ := hback.of_cons
      have htrim := trim_of_ends hfront hlead' hends.ends.1 hends.ends.2
      rw [← List.append_assoc] at htrim
      rw [splitTopFrom_spaces hlead', List.singleton_append, splitTopFrom_code]
      simp only [show isQuote ',' = false from rfl, Bool.false_eq_true, if_false,
        show ',' ≠ '(' from by decide, show ',' ≠ ')' from by decide, and_self, if_true]
      rw [List.map_cons, htrim, stripQuotes_quoted,
        ih (fun _ hc => absurd hc List.not_mem_nil) hback']

/-- The members, as they are written between single quotes. -/
theorem Reads.enumValues_eq {bodies : List (List Char)} (h : Reads text (literalsOf bodies)) :
    enumValues (some text) = bodies :=
  map_splitTopFrom (fun _ hc => absurd hc List.not_mem_nil) h

end XChainDecoder.Migrate
