import XChainDecoder.Lib.Sql

/-! # Splitting a migration into statements

    `splitSqlStatements` runs two scanners one after the other: the first drops the
    line comments, the second cuts at `;`. Both go through the text once, with what
    they are inside of as their only memory.

    **Main theorem.** `splitSqlStatements_lossless`: on any reading of the text as
    tokens, the result is what stands between the separators, without the line
    comments; and its `;`-join is split into the same list. -/

namespace XChainDecoder.Migrate

open Sql

/-! ## Section 1: The scanners -/

/-- What a scanner is inside of. -/
inductive Mode where
  | code
  | quoted (quote : Char)
  | block
  | line
  /-- the second character of a pair, copied whatever it is -/
  | second (back : Mode)
deriving DecidableEq, Repr

/-- Asked at `ch`, with `rest` behind it. -/
def opensBackslashEscape (ch : Char) (rest : List Char) (quote : Char) : Bool :=
  ch = '\\' && quote ≠ '`' && rest ≠ []

/-- What the loop of `stripSqlLineComments` copies from here on. -/
def stripFrom : Mode → List Char → List Char
  | _, [] => []
  | .quoted quote, ch :: rest =>
      if opensBackslashEscape ch rest quote then ch :: stripFrom (.second (.quoted quote)) rest
      else if ch = quote then
        if rest.head? = some quote then ch :: stripFrom (.second (.quoted quote)) rest
        else ch :: stripFrom .code rest
      else ch :: stripFrom (.quoted quote) rest
  | .code, ch :: rest =>
      if isQuote ch then ch :: stripFrom (.quoted ch) rest
      else if ch = '/' ∧ rest.head? = some '*' then ch :: stripFrom (.second .block) rest
      else if (ch = '-' ∧ rest.head? = some '-') ∨ ch = '#' then stripFrom .line rest
      else ch :: stripFrom .code rest
  | .block, ch :: rest =>
      if ch = '*' ∧ rest.head? = some '/' then ch :: stripFrom (.second .code) rest
      else ch :: stripFrom .block rest
  | .line, ch :: rest =>
      if ch = '\n' then ch :: stripFrom .code rest
      else stripFrom .line rest
  | .second back, ch :: rest => ch :: stripFrom back rest

def stripSqlLineComments (sql : List Char) : List Char := stripFrom .code sql

/-- What the loop of `splitSqlStatements` pushes from here on. Line comments are gone,
    so it is never inside of one. -/
def splitFrom : Mode → List Char → List Char → List (List Char)
  | _, current, [] => [current]
  | .quoted quote, current, ch :: rest =>
      if opensBackslashEscape ch rest quote then
        splitFrom (.second (.quoted quote)) (current ++ [ch]) rest
      else if ch = quote then
        if rest.head? = some quote then splitFrom (.second (.quoted quote)) (current ++ [ch]) rest
        else splitFrom .code (current ++ [ch]) rest
      else splitFrom (.quoted quote) (current ++ [ch]) rest
  | .code, current, ch :: rest =>
      if isQuote ch then splitFrom (.quoted ch) (current ++ [ch]) rest
      else if ch = '/' ∧ rest.head? = some '*' then
        splitFrom (.second .block) (current ++ [ch]) rest
      else if ch = ';' then current :: splitFrom .code [] rest
      else splitFrom .code (current ++ [ch]) rest
  | .block, current, ch :: rest =>
      if ch = '*' ∧ rest.head? = some '/' then splitFrom (.second .code) (current ++ [ch]) rest
      else splitFrom .block (current ++ [ch]) rest
  | .line, current, ch :: rest => splitFrom .line (current ++ [ch]) rest
  | .second back, current, ch :: rest => splitFrom back (current ++ [ch]) rest

def splitSqlStatements (sql : List Char) : List (List Char) :=
  ((splitFrom .code [] (stripSqlLineComments sql)).map Text.trim).filter (· ≠ [])

-- Every proof below unfolds a scanner; its equations are made here, once for all of them.
section
attribute [local simp] stripFrom splitFrom
end

variable {s r b current : List Char} {ts us : List Token} {t : Token} {q : Char}

/-! ## Section 2: Dropping the line comments -/

theorem ne_backslash (hq : isQuote q = true) : q ≠ '\\' := by
  rintro rfl
  exact absurd hq (by decide)

theorem opensBackslashEscape_eq (ch : Char) (rest : List Char) (quote : Char) :
    opensBackslashEscape ch rest quote = (ch = '\\' && escapes quote && rest ≠ []) := rfl

/-- Through what stands between two quotes. -/
theorem stripFrom_body (hq : isQuote q = true) (h : Body q b) (r : List Char) :
    stripFrom (.quoted q) (b ++ r) = b ++ stripFrom (.quoted q) r := by
  induction h with
  | nil => rfl
  | doubled h ih => simp [stripFrom, opensBackslashEscape, ne_backslash hq, ih]
  | escaped c hescapes h ih => simp [stripFrom, opensBackslashEscape_eq, hescapes, ih]
  | @plain c b hc hescapes h ih =>
    have hopens : opensBackslashEscape c (b ++ r) q = false := by
      rw [opensBackslashEscape_eq]
      by_cases hc' : c = '\\'
      · simp [hescapes hc']
      · simp [hc']
    simp [stripFrom, hopens, hc, ih]

theorem stripFrom_openBody (hq : isQuote q = true) (h : OpenBody q b) :
    stripFrom (.quoted q) b = b := by
  rcases h with h | ⟨b, rfl, h, -⟩
  · have hstrip := stripFrom_body hq h []
    rwa [List.append_nil, stripFrom, List.append_nil] at hstrip
  · rw [stripFrom_body hq h]
    simp [stripFrom, opensBackslashEscape]

theorem not_block_end {c : Char} (hb : ¬ blockEnd <:+: c :: b) :
    ¬ (c = '*' ∧ (b ++ (blockEnd ++ r)).head? = some '/') := by
  rintro ⟨rfl, hhead⟩
  cases b with
  | nil => simp [blockEnd] at hhead
  | cons d b =>
    obtain rfl : d = '/' := by simpa using hhead
    exact hb ⟨[], b, rfl⟩

theorem stripFrom_block (hb : ¬ blockEnd <:+: b) (r : List Char) :
    stripFrom .block (b ++ (blockEnd ++ r)) = b ++ (blockEnd ++ stripFrom .code r) := by
  induction b with
  | nil => simp [stripFrom, blockEnd]
  | cons c b ih =>
    have hrest := ih (fun h => hb (h.trans (List.suffix_cons _ _).isInfix))
    have hnot := not_block_end (r := r) hb
    simp only [List.cons_append, stripFrom, if_neg hnot, hrest]

theorem stripFrom_openBlock (hb : ¬ blockEnd <:+: b) : stripFrom .block b = b := by
  induction b with
  | nil => rfl
  | cons c b ih =>
    have hrest := ih (fun h => hb (h.trans (List.suffix_cons _ _).isInfix))
    have hnot : ¬ (c = '*' ∧ b.head? = some '/') := by
      rintro ⟨rfl, hhead⟩
      obtain ⟨b, rfl⟩ := List.head?_eq_some_iff.mp hhead
      exact hb ⟨[], b, rfl⟩
    simp only [stripFrom, if_neg hnot, hrest]

theorem stripFrom_line {l : List Char} (hl : '\n' ∉ l) (hr : ∀ d, r.head? = some d → d = '\n') :
    stripFrom .line (l ++ r) = stripFrom .code r := by
  induction l with
  | nil =>
    cases r with
    | nil => rfl
    | cons d r =>
      obtain rfl := hr d rfl
      simp [stripFrom, isQuote]
  | cons c l ih =>
    obtain ⟨hc, hl⟩ : ¬ '\n' = c ∧ '\n' ∉ l := by simpa using hl
    simp only [List.cons_append, stripFrom, if_neg (Ne.symm hc), ih hl]

/-- The first scanner keeps every token but the line comments. -/
theorem stripFrom_reads (h : Reads s ts) : stripFrom .code s = kept ts := by
  induction h with
  | nil => rfl
  | @cons t rest ts hformed hnext h ih =>
    cases t with
    | quoted q b =>
      obtain ⟨hq, hb⟩ := hformed
      have hclose : rest.head? ≠ some q := fun hd => hnext q hd rfl
      rw [kept_cons rfl, ← ih]
      simp [Token.text, stripFrom, hq, stripFrom_body hq hb, opensBackslashEscape,
        ne_backslash hq, hclose]
    | openQuoted q b =>
      obtain ⟨hq, hb⟩ := hformed
      obtain rfl := eq_nil_of_isOpen rfl hnext
      rw [kept_cons rfl, ← ih]
      simp [Token.text, stripFrom, hq, stripFrom_openBody hq hb]
    | block b =>
      rw [kept_cons rfl, ← ih]
      have hstrip := stripFrom_block hformed rest
      simp [Token.text, stripFrom, isQuote, hstrip]
    | openBlock b =>
      obtain rfl := eq_nil_of_isOpen rfl hnext
      rw [kept_cons rfl, ← ih]
      simp [Token.text, stripFrom, isQuote, stripFrom_openBlock hformed]
    | line text =>
      obtain ⟨hstart, hline⟩ := hformed
      rw [kept_cons_of_line rfl, ← ih]
      rcases hstart with ⟨l, rfl⟩ | ⟨l, rfl⟩
      · have hl : '\n' ∉ l := by simpa using hline
        simp [Token.text, stripFrom, isQuote, stripFrom_line hl hnext]
      · have hl : '\n' ∉ '-' :: l := by simpa using hline
        show stripFrom .code ('-' :: ('-' :: l ++ rest)) = _
        rw [stripFrom, if_neg (by decide), if_neg (by simp), if_pos (by simp)]
        exact stripFrom_line hl hnext
    | separator =>
      rw [kept_cons rfl, ← ih]
      simp [Token.text, stripFrom, isQuote]
    | other c =>
      obtain ⟨hquote, hseparator, hhash⟩ := hformed
      rw [kept_cons rfl, ← ih]
      -- one character that opens nothing, also together with the next one
      have hblock : ¬ (c = '/' ∧ rest.head? = some '*') := fun h => (hnext _ h.2).2 h.1 rfl
      have hdash : ¬ (c = '-' ∧ rest.head? = some '-') := fun h => (hnext _ h.2).1 h.1 rfl
      simp only [Token.text, List.singleton_append, stripFrom, hquote, Bool.false_eq_true, if_false,
        if_neg hblock, hdash, hhash, or_self]

/-! ## Section 3: Cutting at the separators -/

theorem splitFrom_body (hq : isQuote q = true) (h : Body q b) (r : List Char) :
    splitFrom (.quoted q) current (b ++ r) = splitFrom (.quoted q) (current ++ b) r := by
  induction h generalizing current with
  | nil => rw [List.nil_append, List.append_nil]
  | doubled h ih => simp [splitFrom, opensBackslashEscape, ne_backslash hq, ih]
  | escaped c hescapes h ih => simp [splitFrom, opensBackslashEscape_eq, hescapes, ih]
  | @plain c b hc hescapes h ih =>
    have hopens : opensBackslashEscape c (b ++ r) q = false := by
      rw [opensBackslashEscape_eq]
      by_cases hc' : c = '\\'
      · simp [hescapes hc']
      · simp [hc']
    simp [splitFrom, hopens, hc, ih]

theorem splitFrom_openBody (hq : isQuote q = true) (h : OpenBody q b) :
    splitFrom (.quoted q) current b = [current ++ b] := by
  rcases h with h | ⟨b, rfl, h, -⟩
  · have hsplit : splitFrom (.quoted q) current (b ++ []) = _ := splitFrom_body hq h []
    rwa [List.append_nil, splitFrom] at hsplit
  · rw [splitFrom_body hq h]
    simp [splitFrom, opensBackslashEscape]

theorem splitFrom_block (hb : ¬ blockEnd <:+: b) (r : List Char) :
    splitFrom .block current (b ++ (blockEnd ++ r)) =
      splitFrom .code (current ++ (b ++ blockEnd)) r := by
  induction b generalizing current with
  | nil => simp [splitFrom, blockEnd]
  | cons c b ih =>
    have hnot := not_block_end (r := r) hb
    simp only [List.cons_append, splitFrom, if_neg hnot]
    rw [ih (fun h => hb (h.trans (List.suffix_cons _ _).isInfix))]
    simp

theorem splitFrom_openBlock (hb : ¬ blockEnd <:+: b) :
    splitFrom .block current b = [current ++ b] := by
  induction b generalizing current with
  | nil => simp [splitFrom]
  | cons c b ih =>
    have hnot : ¬ (c = '*' ∧ b.head? = some '/') := by
      rintro ⟨rfl, hhead⟩
      obtain ⟨b, rfl⟩ := List.head?_eq_some_iff.mp hhead
      exact hb ⟨[], b, rfl⟩
    simp only [splitFrom, if_neg hnot]
    rw [ih (fun h => hb (h.trans (List.suffix_cons _ _).isInfix)), List.append_assoc]
    rfl

/-- The tokens between two separators, as text; the first piece goes on from `current`. -/
def pieces (current : List Char) (ts : List Token) : List (List Char) :=
  ((ts.splitOnP Token.isSeparator).map (·.flatMap Token.text)).modifyHead (current ++ ·)

theorem pieces_nil : pieces current [] = [current] := by
  simp [pieces]

theorem pieces_separator : pieces current (.separator :: ts) = current :: pieces [] ts := by
  unfold pieces
  obtain ⟨g, gs, hgs⟩ := List.exists_cons_of_ne_nil (List.splitOnP_ne_nil Token.isSeparator ts)
  rw [List.splitOnP_cons_eq_if_modifyHead, hgs]
  simp [Token.isSeparator]

theorem pieces_cons (h : t.isSeparator = false) :
    pieces current (t :: ts) = pieces (current ++ t.text) ts := by
  unfold pieces
  obtain ⟨g, gs, hgs⟩ := List.exists_cons_of_ne_nil (List.splitOnP_ne_nil Token.isSeparator ts)
  rw [List.splitOnP_cons_eq_if_modifyHead, h, hgs]
  simp

/-- The second scanner cuts at the separators. -/
theorem splitFrom_reads (h : Reads s ts) (hlines : ∀ t ∈ ts, t.isLine = false) :
    splitFrom .code current s = pieces current ts := by
  induction h generalizing current with
  | nil => rw [pieces_nil, splitFrom]
  | @cons t rest ts hformed hnext h ih =>
    have hrest : ∀ current, splitFrom .code current rest = pieces current ts :=
      fun current => ih (fun u hu => hlines u (List.mem_cons_of_mem _ hu))
    cases t with
    | quoted q b =>
      obtain ⟨hq, hb⟩ := hformed
      have hclose : rest.head? ≠ some q := fun hd => hnext q hd rfl
      rw [pieces_cons rfl, ← hrest]
      simp [Token.text, splitFrom, hq, splitFrom_body hq hb, opensBackslashEscape,
        ne_backslash hq, hclose]
    | openQuoted q b =>
      obtain ⟨hq, hb⟩ := hformed
      obtain rfl := eq_nil_of_isOpen rfl hnext
      rw [pieces_cons rfl, ← hrest]
      simp [Token.text, splitFrom, hq, splitFrom_openBody hq hb]
    | block b =>
      rw [pieces_cons rfl, ← hrest]
      have hsplit : ∀ current, splitFrom .block current (b ++ (blockEnd ++ rest)) =
          splitFrom .code (current ++ (b ++ blockEnd)) rest := fun current =>
        splitFrom_block hformed rest
      simp [Token.text, splitFrom, isQuote, hsplit]
    | openBlock b =>
      obtain rfl := eq_nil_of_isOpen rfl hnext
      rw [pieces_cons rfl, ← hrest]
      simp [Token.text, splitFrom, isQuote, splitFrom_openBlock hformed]
    -- the comments are stripped before
    | line text => exact absurd (hlines _ List.mem_cons_self) (by simp [Token.isLine])
    | separator =>
      rw [pieces_separator, ← hrest]
      simp [Token.text, splitFrom, isQuote]
    | other c =>
      obtain ⟨hquote, hseparator, hhash⟩ := hformed
      rw [pieces_cons rfl, ← hrest]
      have hblock : ¬ (c = '/' ∧ rest.head? = some '*') := fun h => (hnext _ h.2).2 h.1 rfl
      simp only [Token.text, List.singleton_append, splitFrom, hquote, Bool.false_eq_true, if_false,
        if_neg hblock, hseparator]

/-! ## Section 4: Both -/

/-- The statements are those of any reading of the text. -/
theorem splitSqlStatements_reads (h : Reads s ts) : splitSqlStatements s = statements ts := by
  have hlines : ∀ t ∈ ts.filter (!·.isLine), t.isLine = false := by
    intro t ht
    simpa using (List.mem_filter.mp ht).2
  have hpieces : splitFrom .code [] (kept ts) = _ := splitFrom_reads h.without_lines hlines
  have hkept : pieces [] (ts.filter (!·.isLine)) = (ts.splitOnP Token.isSeparator).map kept := by
    unfold pieces
    rw [splitOnP_without_lines, List.map_map]
    obtain ⟨g, gs, hgs⟩ := List.exists_cons_of_ne_nil (List.splitOnP_ne_nil Token.isSeparator ts)
    rw [hgs]
    rfl
  unfold splitSqlStatements stripSqlLineComments statements
  rw [stripFrom_reads h, hpieces, hkept, List.map_map]
  rfl

/-- **Splitting loses nothing and cuts nothing.** The text is read as tokens that make
    it up, and the statements are what stands between the separators among them,
    without the line comments and the whitespace around it. Their `;`-join is split
    into the same list. -/
theorem splitSqlStatements_lossless (sql : List Char) :
    (∃ ts, Reads sql ts) ∧
    (∀ ts, Reads sql ts → sql = ts.flatMap Token.text ∧ splitSqlStatements sql = statements ts) ∧
    splitSqlStatements ([';'].intercalate (splitSqlStatements sql)) = splitSqlStatements sql := by
  obtain ⟨ts, hts⟩ := exists_reads sql
  refine ⟨⟨ts, hts⟩, fun us hus => ⟨hus.text_eq, splitSqlStatements_reads hus⟩, ?_⟩
  have hlines : ∀ t ∈ ts.filter (!·.isLine), t.isLine = false := by
    intro t ht
    simpa using (List.mem_filter.mp ht).2
  obtain ⟨us, hus, -, hsame⟩ := hts.without_lines.rejoin hlines
  rw [splitSqlStatements_reads hts, ← statements_without_lines, splitSqlStatements_reads hus, hsame]

example : splitSqlStatements "SET a = 'x;y'; -- it's\n/* ; */ DROP b;".toList =
    ["SET a = 'x;y'".toList, "/* ; */ DROP b".toList] := by decide

end XChainDecoder.Migrate
