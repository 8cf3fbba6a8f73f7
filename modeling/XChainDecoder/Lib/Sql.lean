import Mathlib.Data.List.Infix
import XChainDecoder.Lib.Text

/-! # The tokens of an SQL text

    A text is quoted spans, block comments, line comments, separators and single
    other characters. `Reads` says that a text is read as a list of tokens; a token is
    told from what follows it, so that a span that goes on is not read as one that
    ends. A span or a comment that never ends is the last token.

    **Main results.** `exists_reads`: every text is read. `Reads.without_lines`: the
    text without its line comments is read as the other tokens. `Reads.trim`: so is
    what `trim` leaves. `Collation.like_of_infix`: what a LIKE pattern between two
    wildcards finds at least. -/

namespace Sql

open Text

/-! ## Section 1: Tokens -/

def isQuote (c : Char) : Bool := c = '\'' || c = '"' || c = '`'

/-- A backslash escapes in a string, not in an identifier. -/
def escapes (q : Char) : Bool := q ≠ '`'

/-- What stands between two quotes `q`: a quote inside is doubled or escaped. -/
inductive Body (q : Char) : List Char → Prop where
  | nil : Body q []
  | doubled {b : List Char} (h : Body q b) : Body q (q :: q :: b)
  | escaped (c : Char) {b : List Char} (hq : escapes q) (h : Body q b) : Body q ('\\' :: c :: b)
  | plain {c : Char} {b : List Char} (hc : c ≠ q) (hq : c = '\\' → escapes q = false)
      (h : Body q b) : Body q (c :: b)

/-- What stands behind a quote that nothing closes; a last backslash escapes nothing. -/
def OpenBody (q : Char) (b : List Char) : Prop :=
  Body q b ∨ ∃ b', b = b' ++ ['\\'] ∧ Body q b' ∧ escapes q

def blockEnd : List Char := ['*', '/']

inductive Token where
  | quoted (q : Char) (body : List Char)
  | openQuoted (q : Char) (body : List Char)
  | block (body : List Char)
  | openBlock (body : List Char)
  /-- with its `--` or `#`, without its newline -/
  | line (text : List Char)
  | separator
  | other (c : Char)
deriving DecidableEq, Repr

namespace Token

def text : Token → List Char
  | quoted q body     => q :: (body ++ [q])
  | openQuoted q body => q :: body
  | block body        => '/' :: '*' :: (body ++ blockEnd)
  | openBlock body    => '/' :: '*' :: body
  | line text         => text
  | separator         => [';']
  | other c           => [c]

def isLine : Token → Bool
  | line _ => true
  | _      => false

def isSeparator : Token → Bool
  | separator => true
  | _         => false

def isOpen : Token → Bool
  | openQuoted _ _ | openBlock _ => true
  | _                            => false

def WellFormed : Token → Prop
  | quoted q body     => isQuote q ∧ Body q body
  | openQuoted q body => isQuote q ∧ OpenBody q body
  | block body        => ¬ blockEnd <:+: body
  | openBlock body    => ¬ blockEnd <:+: body
  | line text         => (['#'] <+: text ∨ ['-', '-'] <+: text) ∧ '\n' ∉ text
  | separator         => True
  | other c           => isQuote c = false ∧ c ≠ ';' ∧ c ≠ '#'

/-- Whether the token ends where the character `d` comes next. -/
def Follows : Token → Char → Prop
  | quoted q _,     d => d ≠ q
  | openQuoted _ _, _ => False
  | block _,        _ => True
  | openBlock _,    _ => False
  | line _,         d => d = '\n'
  | separator,      _ => True
  | other c,        d => (c = '-' → d ≠ '-') ∧ (c = '/' → d ≠ '*')

theorem text_ne_nil {t : Token} (h : t.WellFormed) : t.text ≠ [] := by
  cases t with
  | line text =>
    intro hnil
    replace hnil : text = [] := hnil
    simp [WellFormed, hnil] at h
  | _ => simp [text]

end Token

open Token

/-- The text is read as these tokens. -/
inductive Reads : List Char → List Token → Prop where
  | nil : Reads [] []
  | cons {t : Token} {rest : List Char} {ts : List Token} (hformed : t.WellFormed)
      (hnext : ∀ d, rest.head? = some d → t.Follows d) (h : Reads rest ts) :
      Reads (t.text ++ rest) (t :: ts)

variable {s r : List Char} {t : Token} {ts us : List Token} {q : Char} {b : List Char}

/-- Nothing of the text is outside the tokens. -/
theorem Reads.text_eq (h : Reads s ts) : s = ts.flatMap Token.text := by
  induction h with
  | nil => rfl
  | cons hformed hnext h ih => rw [List.flatMap_cons, ← ih]

theorem Reads.wellFormed (h : Reads s ts) : ∀ t ∈ ts, t.WellFormed := by
  induction h with
  | nil => nofun
  | cons hformed hnext h ih =>
    intro t ht
    rcases List.mem_cons.mp ht with rfl | ht
    · exact hformed
    · exact ih t ht

theorem Reads.single (h : t.WellFormed) : Reads t.text [t] := by
  have hreads : Reads (t.text ++ []) [t] := .cons h nofun .nil
  rwa [List.append_nil] at hreads

/-- Nothing follows a token that never ends. -/
theorem eq_nil_of_isOpen {rest : List Char} (hopen : t.isOpen = true)
    (hnext : ∀ d, rest.head? = some d → t.Follows d) : rest = [] := by
  cases rest with
  | nil => rfl
  | cons d rest =>
    have hfollows := hnext d rfl
    cases t with
    | openQuoted q b => exact hfollows.elim
    | openBlock b    => exact hfollows.elim
    | _              => cases hopen

theorem Reads.eq_nil (h : Reads [] ts) : ts = [] := by
  generalize hs : ([] : List Char) = s at h
  cases h with
  | nil => rfl
  | cons hformed hnext h =>
    have hnil := (List.append_eq_nil_iff.mp hs.symm).1
    exact absurd hnil (text_ne_nil hformed)

/-! ## Section 2: Every text is read -/

theorem isQuote_iff {c : Char} : isQuote c = true ↔ c = '\'' ∨ c = '"' ∨ c = '`' := by
  unfold isQuote
  simp [or_assoc]

/-- A span ends at the first quote that is neither doubled nor escaped, or never. -/
theorem exists_body (q : Char) : ∀ s : List Char,
    (∃ b r, s = b ++ q :: r ∧ Body q b ∧ r.head? ≠ some q) ∨ OpenBody q s
  | [] => .inr (.inl .nil)
  | [c] => by
    by_cases hc : q = c
    · subst hc
      exact .inl ⟨[], [], rfl, .nil, nofun⟩
    by_cases hescape : c = '\\' ∧ escapes q
    · obtain ⟨rfl, hescapes⟩ := hescape
      exact .inr (.inr ⟨[], rfl, .nil, hescapes⟩)
    · exact .inr (.inl (.plain (Ne.symm hc) (fun h => by simpa [h] using hescape) .nil))
  | c :: d :: s => by
    by_cases hescape : c = '\\' ∧ escapes q
    · obtain ⟨rfl, hescapes⟩ := hescape
      rcases exists_body q s with ⟨b, r, rfl, hb, hr⟩ | hb | ⟨b, rfl, hb, hq⟩
      · exact .inl ⟨'\\' :: d :: b, r, rfl, .escaped d hescapes hb, hr⟩
      · exact .inr (.inl (.escaped d hescapes hb))
      · exact .inr (.inr ⟨'\\' :: d :: b, rfl, .escaped d hescapes hb, hq⟩)
    have hplain : c = '\\' → escapes q = false := fun h => by simpa [h] using hescape
    -- a quote ends the body, unless it is doubled
    by_cases hc : q = c
    · subst hc
      by_cases hd : q = d
      · subst hd
        rcases exists_body q s with ⟨b, r, rfl, hb, hr⟩ | hb | ⟨b, rfl, hb, hq⟩
        · exact .inl ⟨q :: q :: b, r, rfl, .doubled hb, hr⟩
        · exact .inr (.inl (.doubled hb))
        · exact .inr (.inr ⟨q :: q :: b, rfl, .doubled hb, hq⟩)
      · exact .inl ⟨[], d :: s, rfl, .nil, by simpa using Ne.symm hd⟩
    · rcases exists_body q (d :: s) with ⟨b, r, hs, hb, hr⟩ | hb | ⟨b, hs, hb, hq⟩
      · exact .inl ⟨c :: b, r, by rw [hs]; rfl, .plain (Ne.symm hc) hplain hb, hr⟩
      · exact .inr (.inl (.plain (Ne.symm hc) hplain hb))
      · exact .inr (.inr ⟨c :: b, by rw [hs]; rfl, .plain (Ne.symm hc) hplain hb, hq⟩)

/-- A comment ends at the first `*/`, or never. -/
theorem exists_block (s : List Char) :
    (∃ b r, s = b ++ blockEnd ++ r ∧ ¬ blockEnd <:+: b) ∨ ¬ blockEnd <:+: s := by
  induction s with
  | nil => exact .inr (by simp [blockEnd])
  | cons c s ih =>
    by_cases hend : blockEnd <+: c :: s
    · obtain ⟨r, hr⟩ := hend
      exact .inl ⟨[], r, hr.symm, by simp [blockEnd]⟩
    · rcases ih with ⟨b, r, rfl, hb⟩ | hs
      · refine .inl ⟨c :: b, r, rfl, fun h => ?_⟩
        rcases List.infix_cons_iff.mp h with h | h
        · refine hend (h.trans ?_)
          rw [List.append_assoc, ← List.cons_append]
          exact List.prefix_append _ _
        · exact hb h
      · refine .inr (fun h => ?_)
        rcases List.infix_cons_iff.mp h with h | h
        · exact hend h
        · exact hs h

theorem reads_line (hstart : ['#'] <+: s ∨ ['-', '-'] <+: s) :
    ∃ (t : Token) (r : List Char),
      s = t.text ++ r ∧ t.WellFormed ∧ (∀ d, r.head? = some d → t.Follows d) := by
  refine ⟨.line (s.takeWhile (· ≠ '\n')), s.dropWhile (· ≠ '\n'),
    List.takeWhile_append_dropWhile.symm, ⟨?_, ?_⟩, ?_⟩
  · rcases hstart with ⟨s', rfl⟩ | ⟨s', rfl⟩
    · exact .inl ⟨s'.takeWhile (· ≠ '\n'), rfl⟩
    · exact .inr ⟨s'.takeWhile (· ≠ '\n'), rfl⟩
  · intro hmem
    simpa using List.mem_takeWhile_imp hmem
  · intro d hd
    have hnot := List.head?_dropWhile_not (· ≠ '\n') s
    rw [hd] at hnot
    show d = '\n'
    simpa using hnot

/-- One token can be taken off the front. -/
theorem exists_token {c : Char} (s : List Char) : ∃ (t : Token) (r : List Char),
    c :: s = t.text ++ r ∧ t.WellFormed ∧ (∀ d, r.head? = some d → t.Follows d) := by
  by_cases hquote : isQuote c = true
  · rcases exists_body c s with ⟨b, r, rfl, hb, hr⟩ | hb
    · refine ⟨.quoted c b, r, by simp [text], ⟨hquote, hb⟩, fun d hd => ?_⟩
      rintro rfl
      exact hr hd
    · exact ⟨.openQuoted c s, [], by simp [text], ⟨hquote, hb⟩, nofun⟩
  by_cases hseparator : c = ';'
  · subst hseparator
    exact ⟨.separator, s, rfl, trivial, fun _ _ => trivial⟩
  by_cases hhash : c = '#'
  · subst hhash
    exact reads_line (.inl ⟨s, rfl⟩)
  by_cases hdash : c = '-' ∧ s.head? = some '-'
  · obtain ⟨rfl, hs⟩ := hdash
    obtain ⟨s', rfl⟩ := List.head?_eq_some_iff.mp hs
    exact reads_line (.inr ⟨s', rfl⟩)
  by_cases hblock : c = '/' ∧ s.head? = some '*'
  · obtain ⟨rfl, hs⟩ := hblock
    obtain ⟨s', rfl⟩ := List.head?_eq_some_iff.mp hs
    rcases exists_block s' with ⟨b, r, rfl, hb⟩ | hs'
    · exact ⟨.block b, r, rfl, hb, fun _ _ => trivial⟩
    · exact ⟨.openBlock s', [], by simp [text], hs', nofun⟩
  refine ⟨.other c, s, rfl, ⟨by simpa using hquote, hseparator, hhash⟩, fun d hd => ⟨?_, ?_⟩⟩
  · rintro rfl rfl
    exact hdash ⟨rfl, hd⟩
  · rintro rfl rfl
    exact hblock ⟨rfl, hd⟩

/-- **Every text** is read. -/
theorem exists_reads (s : List Char) : ∃ ts, Reads s ts := by
  induction hlength : s.length using Nat.strong_induction_on generalizing s with
  | h n ih =>
    cases s with
    | nil => exact ⟨[], .nil⟩
    | cons c s =>
      obtain ⟨t, r, hs, hformed, hnext⟩ := exists_token (c := c) s
      have hshorter : r.length < n := by
        have htext := List.length_pos_of_ne_nil (text_ne_nil hformed)
        rw [← hlength, hs, List.length_append]
        omega
      obtain ⟨ts, hts⟩ := ih r.length hshorter r rfl
      exact ⟨t :: ts, hs ▸ .cons hformed hnext hts⟩

/-! ## Section 3: Without the line comments -/

/-- What is kept of a text whose line comments go. -/
def kept (ts : List Token) : List Char := (ts.filter (!·.isLine)).flatMap Token.text

@[simp] theorem kept_nil : kept [] = [] := rfl

theorem kept_cons_of_line (h : t.isLine = true) : kept (t :: ts) = kept ts := by
  unfold kept
  rw [List.filter_cons_of_neg (by simp [h])]

theorem kept_cons (h : t.isLine = false) : kept (t :: ts) = t.text ++ kept ts := by
  unfold kept
  rw [List.filter_cons_of_pos (by simp [h]), List.flatMap_cons]

theorem kept_eq_text (h : ∀ t ∈ ts, t.isLine = false) : kept ts = ts.flatMap Token.text := by
  unfold kept
  rw [List.filter_eq_self.mpr (fun t ht => by simp [h t ht])]

/-- A newline at the front is a token of its own. -/
theorem Reads.newline (h : Reads s ts) (hs : s.head? = some '\n') :
    ∃ us, ts = .other '\n' :: us := by
  cases h with
  | nil => cases hs
  | @cons t rest us hformed hnext h =>
    cases t with
    | quoted q b =>
      obtain rfl : q = '\n' := by simpa [text] using hs
      exact absurd hformed.1 (by decide)
    | openQuoted q b =>
      obtain rfl : q = '\n' := by simpa [text] using hs
      exact absurd hformed.1 (by decide)
    | line text =>
      rcases hformed.1 with ⟨l, rfl⟩ | ⟨l, rfl⟩ <;> simp [Token.text] at hs
    | other c =>
      obtain rfl : c = '\n' := by simpa [text] using hs
      exact ⟨us, rfl⟩
    | _ => simp [text] at hs

/-- What comes first is kept, or it was a line comment, which leaves its newline. -/
theorem Reads.head_kept (h : Reads s ts) :
    (kept ts).head? = s.head? ∨ (kept ts).head? = none ∨ (kept ts).head? = some '\n' := by
  cases h with
  | nil => exact .inl rfl
  | @cons t rest us hformed hnext h =>
    cases hline : t.isLine with
    | false =>
      refine .inl ?_
      rw [kept_cons hline, List.head?_append_of_ne_nil _ (text_ne_nil hformed),
        List.head?_append_of_ne_nil _ (text_ne_nil hformed)]
    | true =>
      rw [kept_cons_of_line hline]
      match hrest : rest.head? with
      | none =>
        rw [List.head?_eq_none_iff.mp hrest] at h
        rw [h.eq_nil]
        exact .inr (.inl rfl)
      | some d =>
        obtain rfl : d = '\n' := by
          have hfollows := hnext d hrest
          cases t with
          | line text => exact hfollows
          | _ => cases hline
        obtain ⟨us', rfl⟩ := h.newline hrest
        exact .inr (.inr rfl)

theorem Token.Follows.newline {d : Char} (hformed : t.WellFormed) (h : t.Follows d) :
    t.Follows '\n' := by
  cases t with
  | quoted q b =>
    show '\n' ≠ q
    rintro rfl
    exact absurd hformed.1 (by decide)
  | openQuoted q b => exact h
  | openBlock b => exact h
  | line text => rfl
  | other c => exact ⟨fun _ => by decide, fun _ => by decide⟩
  | _ => trivial

/-- Without its line comments a text is read as its other tokens. -/
theorem Reads.without_lines (h : Reads s ts) : Reads (kept ts) (ts.filter (!·.isLine)) := by
  induction h with
  | nil => exact .nil
  | @cons t rest us hformed hnext h ih =>
    cases hline : t.isLine with
    | true =>
      rw [kept_cons_of_line hline, List.filter_cons_of_neg (by simp [hline])]
      exact ih
    | false =>
      rw [kept_cons hline, List.filter_cons_of_pos (by simp [hline])]
      refine .cons hformed (fun d hd => ?_) ih
      rcases h.head_kept with hsame | hnone | hnewline
      · exact hnext d (hsame ▸ hd)
      · rw [hnone] at hd
        cases hd
      · -- a newline came up, behind a comment or before
        obtain rfl : d = '\n' := by simpa [hnewline] using hd.symm
        match hrest : rest.head? with
        | some e => exact (hnext e hrest).newline hformed
        | none =>
          rw [List.head?_eq_none_iff.mp hrest] at h
          rw [h.eq_nil] at hnewline
          cases hnewline

/-! ## Section 4: Trimming -/

theorem not_isWhitespace_of_isQuote {c : Char} (h : isQuote c = true) : isWhitespace c = false := by
  rcases isQuote_iff.mp h with rfl | rfl | rfl <;> decide

theorem OpenBody.append {p : List Char} (hp : ∀ b, Body q b → Body q (p ++ b))
    (h : OpenBody q b) : OpenBody q (p ++ b) := by
  rcases h with h | ⟨b', rfl, h, hq⟩
  · exact .inl (hp b h)
  · exact .inr ⟨p ++ b', (List.append_assoc _ _ _).symm, hp b' h, hq⟩

/-- A span that is cut where no quote follows stays open. -/
theorem Body.openBody_of_append (h : Body q s) : ∀ b w, s = b ++ w → q ∉ w → OpenBody q b := by
  induction h with
  | nil =>
    intro b w hs hw
    rw [(List.append_eq_nil_iff.mp hs.symm).1]
    exact .inl .nil
  | doubled h ih =>
    intro b w hs hw
    match b, hs with
    | [],          _  => exact .inl .nil
    | [d],         hs =>
      -- the cut would fall between the two quotes
      simp only [List.cons_append, List.nil_append, List.cons.injEq] at hs
      rw [← hs.2] at hw
      exact absurd List.mem_cons_self hw
    | d :: e :: b, hs =>
      simp only [List.cons_append, List.cons.injEq] at hs
      obtain ⟨rfl, rfl, htail⟩ := hs
      exact (ih b w htail hw).append (p := [q, q]) (fun _ => .doubled)
  | escaped c hq h ih =>
    intro b w hs hw
    match b, hs with
    | [],          _  => exact .inl .nil
    | [d],         hs =>
      obtain ⟨rfl, -⟩ := List.cons.inj hs
      exact .inr ⟨[], rfl, .nil, hq⟩
    | d :: e :: b, hs =>
      simp only [List.cons_append, List.cons.injEq] at hs
      obtain ⟨rfl, rfl, htail⟩ := hs
      exact (ih b w htail hw).append (p := ['\\', c]) (fun _ => .escaped c hq)
  | @plain c b₀ hc hq h ih =>
    intro b w hs hw
    match b, hs with
    | [],     _  => exact .inl .nil
    | d :: b, hs =>
      obtain ⟨rfl, htail⟩ := List.cons.inj hs
      exact (ih b w htail hw).append (p := [c]) (fun _ => .plain hc hq)

theorem OpenBody.of_append {w : List Char} (hq : isQuote q = true) (h : OpenBody q (b ++ w))
    (hw : ∀ c ∈ w, isWhitespace c = true) : OpenBody q b := by
  have hnot : ∀ c, isWhitespace c = false → c ∉ w := by
    intro c hc hmem
    rw [hw c hmem] at hc
    cases hc
  rcases h with h | ⟨b', hs, h, hescapes⟩
  · exact h.openBody_of_append b w rfl (hnot q (not_isWhitespace_of_isQuote hq))
  · rcases List.eq_nil_or_concat w with rfl | ⟨w, c, rfl⟩
    · exact .inr ⟨b', by simpa using hs, h, hescapes⟩
    · -- the last backslash is no whitespace
      rw [List.concat_eq_append, ← List.append_assoc] at hs
      obtain ⟨-, hc⟩ := List.append_inj' hs rfl
      obtain rfl := (List.cons.inj hc).1
      exact absurd (by simp) (hnot '\\' (by decide))

theorem rdropWhile_append (p : Char → Bool) (s r : List Char) :
    (s ++ r).rdropWhile p = if r.rdropWhile p = [] then s.rdropWhile p else s ++ r.rdropWhile p := by
  unfold List.rdropWhile
  rw [List.reverse_append, List.dropWhile_append]
  by_cases hr : r.reverse.dropWhile p = []
  · simp [hr]
  · simp [hr, List.isEmpty_iff]

theorem rdropWhile_cons {p : Char → Bool} {c : Char} (hc : p c = false) (s : List Char) :
    (c :: s).rdropWhile p = c :: s.rdropWhile p := by
  rw [← List.singleton_append, rdropWhile_append]
  by_cases hs : s.rdropWhile p = []
  · rw [if_pos hs, hs, List.rdropWhile_singleton, if_neg (by simp [hc])]
  · rw [if_neg hs]
    rfl

/-- Tokens left of `ts`: some of them, or what trimming leaves of an open one. -/
def LeftOf (us ts : List Token) : Prop :=
  ∀ u ∈ us, u ∈ ts ∨ u.isOpen = true ∧ ∃ t ∈ ts, t.isOpen = true

theorem LeftOf.isLine (h : LeftOf us ts) (hts : ∀ t ∈ ts, t.isLine = false) :
    ∀ u ∈ us, u.isLine = false := by
  intro u hu
  rcases h u hu with hmem | ⟨hopen, -⟩
  · exact hts u hmem
  · cases u <;> first | rfl | cases hopen

theorem LeftOf.isSeparator (h : LeftOf us ts) (hts : ∀ t ∈ ts, t.isSeparator = false) :
    ∀ u ∈ us, u.isSeparator = false := by
  intro u hu
  rcases h u hu with hmem | ⟨hopen, -⟩
  · exact hts u hmem
  · cases u <;> first | rfl | cases hopen

theorem LeftOf.isOpen (h : LeftOf us ts) (hts : ∀ t ∈ ts, t.isOpen = false) :
    ∀ u ∈ us, u.isOpen = false := by
  intro u hu
  rcases h u hu with hmem | ⟨-, t, ht, hopen⟩
  · exact hts u hmem
  · rw [hts t ht] at hopen
    cases hopen

theorem Reads.dropWhile (h : Reads s ts) :
    ∃ us, Reads (s.dropWhile isWhitespace) us ∧ us <:+ ts := by
  induction h with
  | nil => exact ⟨[], .nil, List.suffix_rfl⟩
  | @cons t rest ts hformed hnext h ih =>
    have hkeeps : (∃ c l, t.text = c :: l ∧ isWhitespace c = false) →
        ∃ us, Reads ((t.text ++ rest).dropWhile isWhitespace) us ∧ us <:+ t :: ts := by
      rintro ⟨c, l, htext, hc⟩
      have hsame : (t.text ++ rest).dropWhile isWhitespace = t.text ++ rest := by
        rw [htext, List.cons_append, List.dropWhile_cons_of_neg (by simp [hc])]
      rw [hsame]
      exact ⟨t :: ts, .cons hformed hnext h, List.suffix_rfl⟩
    cases t with
    | quoted q b     => exact hkeeps ⟨q, _, rfl, not_isWhitespace_of_isQuote hformed.1⟩
    | openQuoted q b => exact hkeeps ⟨q, _, rfl, not_isWhitespace_of_isQuote hformed.1⟩
    | block b        => exact hkeeps ⟨'/', _, rfl, by decide⟩
    | openBlock b    => exact hkeeps ⟨'/', _, rfl, by decide⟩
    | line text =>
      rcases hformed.1 with ⟨l, rfl⟩ | ⟨l, rfl⟩
      · exact hkeeps ⟨'#', _, rfl, by decide⟩
      · exact hkeeps ⟨'-', _, rfl, by decide⟩
    | separator => exact hkeeps ⟨';', _, rfl, by decide⟩
    | other c =>
      cases hc : isWhitespace c with
      | false => exact hkeeps ⟨c, _, rfl, hc⟩
      | true =>
        obtain ⟨us, hus, hsuffix⟩ := ih
        refine ⟨us, ?_, hsuffix.trans (List.suffix_cons _ _)⟩
        show Reads ((c :: rest).dropWhile isWhitespace) us
        rwa [List.dropWhile_cons_of_pos hc]

/-- What trimming leaves of the last token. -/
theorem exists_reads_rdropWhile (hformed : t.WellFormed) (hline : t.isLine = false) :
    ∃ us, Reads (t.text.rdropWhile isWhitespace) us ∧ LeftOf us [t] := by
  have hkeeps : (∃ l c, t.text = l ++ [c] ∧ isWhitespace c = false) →
      ∃ us, Reads (t.text.rdropWhile isWhitespace) us ∧ LeftOf us [t] := by
    rintro ⟨l, c, htext, hc⟩
    rw [htext, List.rdropWhile_concat_neg _ _ _ (by simp [hc]), ← htext]
    exact ⟨[t], .single hformed, fun u hu => .inl hu⟩
  -- a closed token ends in a character that is no space; an open one runs to the end
  cases t with
  | quoted q b     => exact hkeeps ⟨q :: b, q, rfl, not_isWhitespace_of_isQuote hformed.1⟩
  | block b        => exact hkeeps ⟨'/' :: '*' :: (b ++ ['*']), '/', by simp [text, blockEnd], by decide⟩
  | separator      => exact hkeeps ⟨[], ';', rfl, by decide⟩
  | line text      => cases hline
  | other c =>
    cases hc : isWhitespace c with
    | false => exact hkeeps ⟨[], c, rfl, hc⟩
    | true =>
      have hgone : (Token.other c).text.rdropWhile isWhitespace = [] := by
        simp [text, List.rdropWhile_singleton, hc]
      rw [hgone]
      exact ⟨[], .nil, nofun⟩
  | openQuoted q b =>
    have hb : OpenBody q (b.rdropWhile isWhitespace) := by
      have hopen := hformed.2
      rw [← rdropWhile_append_rtakeWhile isWhitespace b] at hopen
      exact hopen.of_append hformed.1 (fun c hc => List.mem_rtakeWhile_imp hc)
    refine ⟨[.openQuoted q (b.rdropWhile isWhitespace)], ?_, fun u hu => ?_⟩
    · rw [show (Token.openQuoted q b).text = q :: b from rfl,
        rdropWhile_cons (not_isWhitespace_of_isQuote hformed.1)]
      exact Reads.single (t := .openQuoted q (b.rdropWhile isWhitespace)) ⟨hformed.1, hb⟩
    · rw [List.mem_singleton.mp hu]
      exact .inr ⟨rfl, _, List.mem_singleton_self _, rfl⟩
  | openBlock b =>
    have hb : ¬ blockEnd <:+: b.rdropWhile isWhitespace := fun h =>
      hformed (h.trans (List.rdropWhile_prefix isWhitespace b).isInfix)
    refine ⟨[.openBlock (b.rdropWhile isWhitespace)], ?_, fun u hu => ?_⟩
    · rw [show (Token.openBlock b).text = '/' :: '*' :: b from rfl,
        rdropWhile_cons (by decide), rdropWhile_cons (by decide)]
      exact Reads.single (t := .openBlock (b.rdropWhile isWhitespace)) hb
    · rw [List.mem_singleton.mp hu]
      exact .inr ⟨rfl, _, List.mem_singleton_self _, rfl⟩

theorem Reads.rdropWhile (h : Reads s ts) (hlines : ∀ t ∈ ts, t.isLine = false) :
    ∃ us, Reads (s.rdropWhile isWhitespace) us ∧ LeftOf us ts := by
  induction h with
  | nil => exact ⟨[], .nil, nofun⟩
  | @cons t rest ts hformed hnext h ih =>
    obtain ⟨us, hus, hleft⟩ := ih (fun u hu => hlines u (List.mem_cons_of_mem _ hu))
    rw [rdropWhile_append]
    by_cases hgone : rest.rdropWhile isWhitespace = []
    · -- the trimming reaches `t`
      rw [if_pos hgone]
      obtain ⟨vs, hvs, hleft'⟩ := exists_reads_rdropWhile hformed (hlines t List.mem_cons_self)
      refine ⟨vs, hvs, fun v hv => ?_⟩
      rcases hleft' v hv with hmem | ⟨hopen, u, hu, hopen'⟩
      · exact .inl (List.mem_singleton.mp hmem ▸ List.mem_cons_self)
      · exact .inr ⟨hopen, u, List.mem_singleton.mp hu ▸ List.mem_cons_self, hopen'⟩
    · rw [if_neg hgone]
      refine ⟨t :: us, .cons hformed (fun d hd => hnext d ?_) hus, fun u hu => ?_⟩
      · obtain ⟨w, hw⟩ := List.rdropWhile_prefix isWhitespace rest
        rw [← hw, List.head?_append_of_ne_nil _ hgone, hd]
      · rcases List.mem_cons.mp hu with rfl | hu
        · exact .inl List.mem_cons_self
        · rcases hleft u hu with hmem | ⟨hopen, t', ht', hopen'⟩
          · exact .inl (List.mem_cons_of_mem _ hmem)
          · exact .inr ⟨hopen, t', List.mem_cons_of_mem _ ht', hopen'⟩

/-- What `trim` leaves is read as what is left of the tokens. -/
theorem Reads.trim (h : Reads s ts) (hlines : ∀ t ∈ ts, t.isLine = false) :
    ∃ us, Reads (Text.trim s) us ∧ LeftOf us ts := by
  obtain ⟨vs, hvs, hsuffix⟩ := h.dropWhile
  obtain ⟨us, hus, hleft⟩ := hvs.rdropWhile (fun t ht => hlines t (hsuffix.subset ht))
  refine ⟨us, hus, fun u hu => ?_⟩
  rcases hleft u hu with hmem | ⟨hopen, t, ht, hopen'⟩
  · exact .inl (hsuffix.subset hmem)
  · exact .inr ⟨hopen, t, hsuffix.subset ht, hopen'⟩

/-! ## Section 5: Statements -/

/-- The statements of a text that is read as `ts`: what stands between two separators,
    without its line comments and the whitespace around it, where anything is left. -/
def statements (ts : List Token) : List (List Char) :=
  ((ts.splitOnP Token.isSeparator).map (fun group => Text.trim (kept group))).filter (· ≠ [])

/-- Line comments do not matter to where the separators are. -/
theorem splitOnP_without_lines (ts : List Token) :
    (ts.filter (!·.isLine)).splitOnP Token.isSeparator =
      (ts.splitOnP Token.isSeparator).map (·.filter (!·.isLine)) := by
  induction ts with
  | nil => rfl
  | cons t ts ih =>
    obtain ⟨g, gs, hgs⟩ := List.exists_cons_of_ne_nil (List.splitOnP_ne_nil Token.isSeparator ts)
    rw [hgs] at ih
    cases hline : t.isLine with
    | true =>
      have hseparator : t.isSeparator = false := by
        cases t <;> first | rfl | cases hline
      rw [List.filter_cons_of_neg (by simp [hline]), ih, List.splitOnP_cons_eq_if_modifyHead,
        hseparator, hgs]
      simp [hline]
    | false =>
      rw [List.filter_cons_of_pos (by simp [hline]), List.splitOnP_cons_eq_if_modifyHead,
        List.splitOnP_cons_eq_if_modifyHead, ih, hgs]
      by_cases hseparator : t.isSeparator = true
      · simp [hseparator]
      · simp [hseparator, hline]

theorem statements_without_lines (ts : List Token) :
    statements (ts.filter (!·.isLine)) = statements ts := by
  unfold statements
  rw [splitOnP_without_lines, List.map_map]
  congr 2
  funext g
  simp [kept, List.filter_filter]

theorem statements_of_single (h : ∀ t ∈ ts, t.isSeparator = false) :
    statements ts = [Text.trim (kept ts)].filter (· ≠ []) := by
  unfold statements
  rw [List.splitOnP_eq_singleton h]
  rfl

theorem statements_append (h : ∀ t ∈ ts, t.isSeparator = false) :
    statements (ts ++ .separator :: us) =
      [Text.trim (kept ts)].filter (· ≠ []) ++ statements us := by
  unfold statements
  rw [List.splitOnP_append_cons_of_forall_mem h _ rfl, List.map_cons, ← List.singleton_append,
    List.filter_append]

/-- Up to the first separator, or there is none. -/
theorem first_separator (ts : List Token) : (∀ t ∈ ts, t.isSeparator = false) ∨
    ∃ g us, ts = g ++ .separator :: us ∧ ∀ t ∈ g, t.isSeparator = false := by
  induction ts with
  | nil => exact .inl nofun
  | cons t ts ih =>
    cases ht : t.isSeparator with
    | true =>
      obtain rfl : t = .separator := by
        cases t <;> first | rfl | cases ht
      exact .inr ⟨[], ts, rfl, nofun⟩
    | false =>
      rcases ih with hts | ⟨g, us, rfl, hg⟩
      · exact .inl (List.forall_mem_cons.mpr ⟨ht, hts⟩)
      · exact .inr ⟨t :: g, us, rfl, List.forall_mem_cons.mpr ⟨ht, hg⟩⟩

/-- A text is read in parts at a separator, and nothing is open there. -/
theorem Reads.split {g : List Token} (h : Reads s (g ++ .separator :: us)) :
    ∃ s₁ s₂, s = s₁ ++ ';' :: s₂ ∧ Reads s₁ g ∧ Reads s₂ us ∧ ∀ t ∈ g, t.isOpen = false := by
  induction g generalizing s with
  | nil =>
    cases h with
    | cons hformed hnext h => exact ⟨[], _, rfl, .nil, h, nofun⟩
  | cons t g ih =>
    cases h with
    | cons hformed hnext h =>
      obtain ⟨s₁, s₂, rfl, h₁, h₂, hopen⟩ := ih h
      refine ⟨t.text ++ s₁, s₂, (List.append_assoc _ _ _).symm,
        .cons hformed (fun d hd => hnext d ?_) h₁, h₂, List.forall_mem_cons.mpr ⟨?_, hopen⟩⟩
      · rw [List.head?_append, hd]
        rfl
      · -- something follows
        have hsome : ∃ d, (s₁ ++ ';' :: s₂).head? = some d := by
          cases s₁ with
          | nil => exact ⟨_, rfl⟩
          | cons d s₁ => exact ⟨d, rfl⟩
        obtain ⟨d, hd⟩ := hsome
        have hfollows := hnext d hd
        cases t with
        | openQuoted q b => exact hfollows.elim
        | openBlock b    => exact hfollows.elim
        | _              => rfl

theorem Token.follows_separator (hformed : t.WellFormed) (hopen : t.isOpen = false)
    (hline : t.isLine = false) : t.Follows ';' := by
  cases t with
  | quoted q b =>
    show ';' ≠ q
    rintro rfl
    exact absurd hformed.1 (by decide)
  | openQuoted q b => cases hopen
  | openBlock b    => cases hopen
  | line text      => cases hline
  | other c        => exact ⟨fun _ => by decide, fun _ => by decide⟩
  | _              => trivial

/-- Two texts are read on with a separator between them. -/
theorem Reads.join (h : Reads s ts) (hopen : ∀ t ∈ ts, t.isOpen = false)
    (hlines : ∀ t ∈ ts, t.isLine = false) (hr : Reads r us) :
    Reads (s ++ ';' :: r) (ts ++ .separator :: us) := by
  induction h with
  | nil => exact Reads.cons (t := .separator) trivial (fun _ _ => trivial) hr
  | @cons t rest ts hformed hnext h ih =>
    rw [List.append_assoc]
    refine .cons hformed (fun d hd => ?_) (ih (fun u hu => hopen u (List.mem_cons_of_mem _ hu))
      (fun u hu => hlines u (List.mem_cons_of_mem _ hu)))
    cases rest with
    | nil =>
      obtain rfl : ';' = d := Option.some.inj hd
      exact follows_separator hformed (hopen t List.mem_cons_self) (hlines t List.mem_cons_self)
    | cons e rest => exact hnext d hd

theorem intercalate_cons {p : List Char} {ps : List (List Char)} (h : ps ≠ []) :
    [';'].intercalate (p :: ps) = p ++ ';' :: [';'].intercalate ps := by
  obtain ⟨p', ps, rfl⟩ := List.exists_cons_of_ne_nil h
  simp [List.intercalate_cons_cons]

/-- **Joined again**, the statements are read as themselves. -/
theorem Reads.rejoin (h : Reads s ts) (hlines : ∀ t ∈ ts, t.isLine = false) :
    ∃ us, Reads ([';'].intercalate (statements ts)) us ∧ (∀ u ∈ us, u.isLine = false) ∧
      statements us = statements ts := by
  induction hlength : ts.length using Nat.strong_induction_on generalizing s ts with
  | h n ih =>
    -- what one statement comes to
    have hone : ∀ {s : List Char} {g : List Token}, Reads s g → (∀ t ∈ g, t.isLine = false) →
        (∀ t ∈ g, t.isSeparator = false) → ∃ us, Reads (Text.trim (kept g)) us ∧
          (∀ u ∈ us, u.isLine = false) ∧ (∀ u ∈ us, u.isSeparator = false) ∧
          ((∀ t ∈ g, t.isOpen = false) → ∀ u ∈ us, u.isOpen = false) ∧
          Text.trim (kept us) = Text.trim (kept g) := by
      intro s g hg hgl hgs
      obtain ⟨us, hus, hleft⟩ := hg.trim hgl
      have hkept : kept g = s := by rw [kept_eq_text hgl, ← hg.text_eq]
      refine ⟨us, hkept ▸ hus, hleft.isLine hgl, hleft.isSeparator hgs, hleft.isOpen, ?_⟩
      rw [kept_eq_text (hleft.isLine hgl), ← hus.text_eq, Text.trim_trim, hkept]
    rcases first_separator ts with hsingle | ⟨g, rest, rfl, hg⟩
    · obtain ⟨us, hus, hul, hus', -, hsame⟩ := hone h hlines hsingle
      rw [statements_of_single hsingle]
      by_cases hempty : Text.trim (kept ts) = []
      · refine ⟨[], ?_, nofun, ?_⟩
        · simpa [hempty] using Reads.nil
        · simp [hempty, statements]
      · refine ⟨us, by simpa [hempty] using hus, hul, ?_⟩
        rw [statements_of_single hus', hsame]
    · obtain ⟨s₁, s₂, rfl, h₁, h₂, hopen⟩ := h.split
      have hlines₁ : ∀ t ∈ g, t.isLine = false := fun t ht => hlines t (by simp [ht])
      have hlines₂ : ∀ t ∈ rest, t.isLine = false := fun t ht => hlines t (by simp [ht])
      obtain ⟨us, hus, hul, hsame⟩ := ih rest.length (by simp [← hlength]; omega) h₂ hlines₂ rfl
      obtain ⟨vs, hvs, hvl, hvs', hvopen, hvsame⟩ := hone h₁ hlines₁ hg
      rw [statements_append hg]
      by_cases hempty : Text.trim (kept g) = []
      · exact ⟨us, by simpa [hempty] using hus, hul, by simp [hempty, hsame]⟩
      have hhead : [Text.trim (kept g)].filter (· ≠ []) = [Text.trim (kept g)] := by simp [hempty]
      rw [hhead, List.singleton_append]
      by_cases hlast : statements rest = []
      · refine ⟨vs, by simpa [hlast] using hvs, hvl, ?_⟩
        rw [statements_of_single hvs', hvsame, hhead, hlast]
      · refine ⟨vs ++ .separator :: us, ?_, ?_, ?_⟩
        · rw [intercalate_cons hlast]
          exact hvs.join (hvopen hopen) hvl hus
        · intro u hu
          rcases List.mem_append.mp hu with hu | hu
          · exact hvl u hu
          · rcases List.mem_cons.mp hu with rfl | hu
            · rfl
            · exact hul u hu
        · rw [statements_append hvs', hvsame, hhead, hsame, List.singleton_append]

/-! ## Section 6: LIKE -/

/-- Which characters a collation takes for the same: at least each for itself. -/
structure Collation where
  same      : Char → Char → Bool
  same_self : ∀ c, same c c = true

namespace Collation

variable (collation : Collation)

/-- `LIKE`, for a pattern without escapes. -/
def like : List Char → List Char → Bool
  | [],           text => text.isEmpty
  | c :: pattern, text =>
      if c = '%' then text.tails.any (like pattern)
      else
        match text with
        | []        => false
        | d :: rest => (c = '_' || collation.same c d) && like pattern rest

theorem like_any (text : List Char) : collation.like ['%'] text = true := by
  unfold like
  rw [if_pos rfl, List.any_eq_true]
  exact ⟨[], (List.mem_tails _ _).mpr List.nil_suffix, rfl⟩

/-- What matches behind something matches anything in front. -/
theorem like_percent {pattern text : List Char} (front : List Char)
    (h : collation.like pattern text = true) :
    collation.like ('%' :: pattern) (front ++ text) = true := by
  conv =>
    lhs
    unfold like
  rw [if_pos rfl, List.any_eq_true]
  exact ⟨text, (List.mem_tails _ _).mpr (List.suffix_append front text), h⟩

/-- A pattern that spells a text out matches it, and goes on behind it. -/
theorem like_append {literal : List Char} (hplain : '%' ∉ literal) (pattern text : List Char) :
    collation.like (literal ++ pattern) (literal ++ text) = collation.like pattern text := by
  induction literal with
  | nil => rfl
  | cons c literal ih =>
    have hc : c ≠ '%' := fun h => hplain (h ▸ List.mem_cons_self)
    show (if c = '%' then _ else ((c = '_' || collation.same c c) && _)) = _
    rw [if_neg hc, collation.same_self, Bool.or_true, Bool.true_and]
    exact ih (fun h => hplain (List.mem_cons_of_mem _ h))

/-- A text with a literal in it is like the literal between two wildcards. -/
theorem like_of_infix {literal text : List Char} (hplain : '%' ∉ literal) (h : literal <:+: text) :
    collation.like ('%' :: (literal ++ ['%'])) text = true := by
  obtain ⟨front, back, rfl⟩ := h
  rw [List.append_assoc]
  refine collation.like_percent front ?_
  rw [collation.like_append hplain]
  exact collation.like_any back

theorem like_of_prefix {literal text : List Char} (hplain : '%' ∉ literal) (h : literal <+: text) :
    collation.like (literal ++ ['%']) text = true := by
  obtain ⟨back, rfl⟩ := h
  rw [collation.like_append hplain]
  exact collation.like_any back

end Collation

end Sql
