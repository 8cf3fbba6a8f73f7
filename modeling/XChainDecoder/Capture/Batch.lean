import XChainDecoder.Lib.Tally
import XChainDecoder.Ingest.Expiration

/-! # Looking into a batch

    A BATCH carries its commands behind a head, joined by `;`. Capture is decided over
    the commands, unless the indexer is sure to reject the batch as a whole: for an
    empty name, too many commands of one action, two mints of one tick, or too much
    weight.

    **Main theorems.** `hasProvablyRejectedBatch_perm` and
    `hasProvablyRejectedBatch_append`: rejection does not depend on the order of the
    commands, and what is added to a rejected batch does not save it.
    `captureCommands_rejoins`: the commands are the batch. -/

namespace XChainDecoder.Capture

open Expiration Text

/-! ## Section 1: Tables -/

/-- A name, or a part of a text. -/
abbrev Chars : Type := List Char

/-- `ACTION_ALIASES`. -/
def ACTION_ALIASES : List (Chars × Chars) :=
  [("TRANSFER".toList, "SEND".toList), ("ADDR".toList, "ADDRESS".toList),
    ("DROP".toList, "AIRDROP".toList), ("CAST".toList, "BROADCAST".toList),
    ("MSG".toList, "MESSAGE".toList)]

def COMMAND_LIMIT : ℕ := 250
def WEIGHT_BUDGET : ℕ := 250

def ACTION_LIMITS : List (Chars × ℕ) :=
  [("BATCH".toList, 0), ("ISSUE".toList, 1), ("MINT".toList, 1)]

def GATED_ACTION_LIMITS : List (Chars × ℕ) := [("DEPLOY".toList, 1)]

def CHILD_ISSUE_KEY : Chars := "ISSUE.CHILD".toList

def COMMAND_WEIGHTS : List (Chars × ℕ) :=
  [("AIRDROP".toList, 25), ("DEPLOY".toList, 30), ("DIVIDEND".toList, 25), ("EXECUTE".toList, 30),
    ("XEXEC".toList, 30)]

def COST_WEIGHTING_ACTIVATION : List (String × Option Int) :=
  [("mainnet", some 0), ("testnet", some 0), ("regtest", some 0)]

def BATCH_SUBCOMMAND_OUTPUT_CAPTURE_ACTIVATION : List (String × Option Int) :=
  [("mainnet", some 1786838400), ("testnet", some 0), ("regtest", some 0)]

/-- The formats of a BATCH the indexer knows. -/
def BATCH_SUB_COMMAND_FORMATS : List ℕ := [0]

/-- The activation time of a network; a name the table does not hold has none. -/
def activationOf (table : List (String × Option Int)) (consensusNetwork : String) : Option Int :=
  (table.lookup consensusNetwork).join

/-! ## Section 2: Commands -/

def isBatchSubCommandCaptureActive (consensusNetwork : String) (blockTime : Int) : Bool :=
  gateActive (activationOf BATCH_SUBCOMMAND_OUTPUT_CAPTURE_ACTIVATION consensusNetwork) blockTime

/-- The head of a BATCH of a format. -/
def batchHead (format : ℕ) : Chars := "BATCH|".toList ++ (Nat.toDigits 10 format ++ ['|'])

/-- None where the text is not a BATCH. -/
def batchSubCommands (decodedData : Chars) : Option (List Chars) :=
  if "BATCH|".toList.isPrefixOf decodedData then
    match BATCH_SUB_COMMAND_FORMATS.find? (fun format => (batchHead format).isPrefixOf decodedData) with
    | some format => some ((decodedData.drop (batchHead format).length).splitOn ';')
    | none        => some []
  else none

def subCommandActionName (command : Chars) : Chars := command.takeWhile (· ≠ '|')

def hasProvablyRejectedSubCommand (subCommands : List Chars) : Bool :=
  subCommands.any (fun command => subCommandActionName command = [])

def expandAliasName (actionName : Chars) (aliases : List (Chars × Chars)) : Chars :=
  if actionName = [] then actionName
  else
    match aliases.lookup actionName with
    | none           => actionName
    | some canonical => if canonical = [] then actionName else canonical

def expandSubCommandAlias (command : Chars) (aliases : List (Chars × Chars)) : Chars :=
  let actionName := subCommandActionName command
  if actionName = [] then command
  else
    let canonical := expandAliasName actionName aliases
    if canonical = actionName then command
    else canonical ++ command.drop actionName.length

/-- The length of a string in UTF-16 units. -/
def utf16Length (s : Chars) : ℕ := (s.map (fun c => if c.toNat < 0x10000 then 1 else 2)).sum

/-- `isNumeric` of a string of at most two units: too short for another base, an
    exponent or an overflow. -/
def isNumeric (value : Chars) : Bool := (matchDecimal (trim value)).isSome

/-- On the parameters; a missing version is read as `undefined`. -/
def isLegacyActionFormat (params : List Chars) : Bool :=
  match params with
  | []           => true
  | version :: _ => 2 < utf16Length version || !isNumeric version

/-- The parameters of a command, with the version a legacy one implies. -/
def normalizedParams (action command : Chars) : List Chars :=
  let params := (command.splitOn '|').tail
  if action ∈ ["ISSUE".toList, "MINT".toList, "SEND".toList] ∧ isLegacyActionFormat params then
    ['0'] :: params
  else params

def subCommandTick (action command : Chars) : Chars :=
  match (normalizedParams action command)[1]? with
  | none      => []
  | some tick => trim tick

def subCommandLimitKey (command : Chars) (aliases : List (Chars × Chars)) : Chars :=
  let action := expandAliasName (subCommandActionName command) aliases
  if action ≠ "ISSUE".toList then action
  else
    match (normalizedParams action command)[1]? with
    | none      => action
    | some tick =>
        if tick.head? = some '^' then action
        else if '.' ∈ tick then CHILD_ISSUE_KEY
        else action

def maxIdenticalMintTicks (ticks : List Chars) : ℕ := Tally.most ticks

/-! ## Section 3: Rejection -/

def isBatchCostWeightingActive (consensusNetwork : String) (blockTime : Int) : Bool :=
  gateActive (activationOf COST_WEIGHTING_ACTIVATION consensusNetwork) blockTime

def subCommandCostWeight (command : Chars) (aliases : List (Chars × Chars)) : ℕ :=
  let action := expandAliasName (subCommandActionName command) aliases
  if action = "DEPLOY".toList then 1
  else
    match COMMAND_WEIGHTS.lookup action with
    | none        => 1
    | some weight => if 1 ≤ weight then weight else 1

def batchCostWeight (subCommands : List Chars) (aliases : List (Chars × Chars)) : ℕ :=
  subCommands.foldl (fun total command => total + subCommandCostWeight command aliases) 0

/-- What the commands are tallied under. -/
def limitKeys (subCommands : List Chars) (aliases : List (Chars × Chars)) : List Chars :=
  subCommands.map (subCommandLimitKey · aliases)

/-- The ticks the mints name. -/
def mintTicks (subCommands : List Chars) (aliases : List (Chars × Chars)) : List Chars :=
  (subCommands.filter (fun command => subCommandLimitKey command aliases = "MINT".toList)).map
    (subCommandTick "MINT".toList)

/-- Whether the commands of an action are more than its cap. -/
def overCap (subCommands : List Chars) (aliases : List (Chars × Chars)) (cap : Chars × ℕ) : Bool :=
  let count := if cap.1 = "MINT".toList then maxIdenticalMintTicks (mintTicks subCommands aliases)
    else Tally.tally (limitKeys subCommands aliases) cap.1
  cap.2 < count

def hasProvablyRejectedBatch (subCommands : List Chars) (aliases : List (Chars × Chars))
    (consensusNetwork : String) (blockTime : Int) : Bool :=
  let weightsActive := isBatchCostWeightingActive consensusNetwork blockTime
  (if weightsActive then WEIGHT_BUDGET else COMMAND_LIMIT) < subCommands.length ||
    hasProvablyRejectedSubCommand subCommands ||
    (ACTION_LIMITS ++ GATED_ACTION_LIMITS).any (overCap subCommands aliases) ||
    (weightsActive && WEIGHT_BUDGET < batchCostWeight subCommands aliases)

/-- The texts capture is decided over. -/
def captureCommands (decodedData : Chars) (consensusNetwork : String) (blockTime : Int) :
    List Chars :=
  if isBatchSubCommandCaptureActive consensusNetwork blockTime then
    match batchSubCommands decodedData with
    | none             => [decodedData]
    | some subCommands =>
        if hasProvablyRejectedBatch subCommands ACTION_ALIASES consensusNetwork blockTime then []
        else subCommands.map (expandSubCommandAlias · ACTION_ALIASES)
  else [decodedData]

variable {decodedData : Chars} {subCommands more : List Chars} {aliases : List (Chars × Chars)}
  {consensusNetwork : String} {blockTime : Int}

/-! ## Section 4: The order of the commands -/

theorem batchCostWeight_eq (subCommands : List Chars) (aliases : List (Chars × Chars)) :
    batchCostWeight subCommands aliases =
      (subCommands.map (subCommandCostWeight · aliases)).sum := by
  unfold batchCostWeight
  rw [List.sum_eq_foldl, List.foldl_map]

theorem batchCostWeight_perm (h : subCommands.Perm more) :
    batchCostWeight subCommands aliases = batchCostWeight more aliases := by
  rw [batchCostWeight_eq, batchCostWeight_eq]
  exact (h.map _).sum_eq

theorem mintTicks_perm (h : subCommands.Perm more) :
    (mintTicks subCommands aliases).Perm (mintTicks more aliases) :=
  (h.filter _).map _

theorem overCap_of_perm (h : subCommands.Perm more) {cap : Chars × ℕ}
    (hcap : overCap subCommands aliases cap = true) : overCap more aliases cap = true := by
  unfold overCap at hcap ⊢
  by_cases hmint : cap.1 = "MINT".toList
  · rw [if_pos hmint, decide_eq_true_eq] at hcap ⊢
    exact Tally.lt_most_of_perm (mintTicks_perm h) hcap
  · rw [if_neg hmint, decide_eq_true_eq] at hcap ⊢
    have hkeys : (limitKeys subCommands aliases).Perm (limitKeys more aliases) := h.map _
    rwa [← Tally.tally_perm hkeys]

/-- A rejected batch is rejected in every order. -/
theorem rejected_of_perm (h : subCommands.Perm more)
    (hrejected : hasProvablyRejectedBatch subCommands aliases consensusNetwork blockTime = true) :
    hasProvablyRejectedBatch more aliases consensusNetwork blockTime = true := by
  unfold hasProvablyRejectedBatch at hrejected ⊢
  rw [← h.length_eq, ← batchCostWeight_perm h]
  simp only [Bool.or_eq_true] at hrejected ⊢
  rcases hrejected with ((hlimit | hname) | hcap) | hcost
  · exact .inl (.inl (.inl hlimit))
  · refine .inl (.inl (.inr ?_))
    unfold hasProvablyRejectedSubCommand at hname ⊢
    rwa [← h.any_eq]
  · refine .inl (.inr ?_)
    obtain ⟨cap, hmem, hcap⟩ := List.any_eq_true.mp hcap
    exact List.any_eq_true.mpr ⟨cap, hmem, overCap_of_perm h hcap⟩
  · exact .inr hcost

theorem hasProvablyRejectedBatch_perm (h : subCommands.Perm more) :
    hasProvablyRejectedBatch subCommands aliases consensusNetwork blockTime =
      hasProvablyRejectedBatch more aliases consensusNetwork blockTime :=
  Bool.eq_iff_iff.mpr ⟨rejected_of_perm h, rejected_of_perm h.symm⟩

/-! ## Section 5: More commands -/

theorem overCap_append {cap : Chars × ℕ} (hcap : overCap subCommands aliases cap = true)
    (more : List Chars) : overCap (subCommands ++ more) aliases cap = true := by
  unfold overCap at hcap ⊢
  by_cases hmint : cap.1 = "MINT".toList
  · rw [if_pos hmint, decide_eq_true_eq] at hcap ⊢
    have hticks : mintTicks (subCommands ++ more) aliases =
        mintTicks subCommands aliases ++ mintTicks more aliases := by
      unfold mintTicks
      rw [List.filter_append, List.map_append]
    unfold maxIdenticalMintTicks at hcap ⊢
    rw [hticks]
    exact Tally.lt_most_append hcap _
  · rw [if_neg hmint, decide_eq_true_eq] at hcap ⊢
    have hkeys : limitKeys (subCommands ++ more) aliases =
        limitKeys subCommands aliases ++ limitKeys more aliases := List.map_append
    rw [hkeys]
    exact lt_of_lt_of_le hcap (Tally.tally_le_append _ _ _)

/-- What is added does not save a rejected batch. -/
theorem hasProvablyRejectedBatch_append
    (hrejected : hasProvablyRejectedBatch subCommands aliases consensusNetwork blockTime = true)
    (more : List Chars) :
    hasProvablyRejectedBatch (subCommands ++ more) aliases consensusNetwork blockTime = true := by
  unfold hasProvablyRejectedBatch at hrejected ⊢
  simp only [Bool.or_eq_true, Bool.and_eq_true, decide_eq_true_eq] at hrejected ⊢
  rcases hrejected with ((hlimit | hname) | hcap) | ⟨hweighted, hcost⟩
  · refine .inl (.inl (.inl (lt_of_lt_of_le hlimit ?_)))
    rw [List.length_append]
    exact Nat.le_add_right _ _
  · refine .inl (.inl (.inr ?_))
    unfold hasProvablyRejectedSubCommand at hname ⊢
    rw [List.any_append, hname, Bool.true_or]
  · refine .inl (.inr ?_)
    obtain ⟨cap, hmem, hcap⟩ := List.any_eq_true.mp hcap
    exact List.any_eq_true.mpr ⟨cap, hmem, overCap_append hcap more⟩
  · refine .inr ⟨hweighted, lt_of_lt_of_le hcost ?_⟩
    rw [batchCostWeight_eq, batchCostWeight_eq, List.map_append, List.sum_append]
    exact Nat.le_add_right _ _

/-! ## Section 6: The commands are the batch -/

/-- What expanding an alias changes: the name in front of the first `|`. -/
inductive Renamed (aliases : List (Chars × Chars)) : Chars → Chars → Prop where
  | same (command : Chars) : Renamed aliases command command
  | renamed {name canonical : Chars} (rest : Chars) (halias : aliases.lookup name = some canonical)
      (hname : '|' ∉ name) (hrest : rest = [] ∨ rest.head? = some '|') :
      Renamed aliases (name ++ rest) (canonical ++ rest)

theorem renamed_expandSubCommandAlias (command : Chars) (aliases : List (Chars × Chars)) :
    Renamed aliases command (expandSubCommandAlias command aliases) := by
  unfold expandSubCommandAlias
  by_cases hempty : subCommandActionName command = []
  · rw [if_pos hempty]
    exact .same command
  rw [if_neg hempty]
  by_cases hsame : expandAliasName (subCommandActionName command) aliases =
      subCommandActionName command
  · rw [if_pos hsame]
    exact .same command
  rw [if_neg hsame]
  -- the table holds the name
  obtain ⟨canonical, hlookup, hcanonical⟩ : ∃ canonical,
      aliases.lookup (subCommandActionName command) = some canonical ∧
      expandAliasName (subCommandActionName command) aliases = canonical := by
    unfold expandAliasName at hsame ⊢
    rw [if_neg hempty] at hsame ⊢
    cases hlookup : aliases.lookup (subCommandActionName command) with
    | none =>
      rw [hlookup] at hsame
      exact absurd rfl hsame
    | some canonical =>
      rw [hlookup] at hsame
      by_cases hnil : canonical = []
      · simp [hnil] at hsame
      · exact ⟨canonical, rfl, if_neg hnil⟩
  have hsplit : subCommandActionName command ++ command.dropWhile (· ≠ '|') = command :=
    List.takeWhile_append_dropWhile
  have hdrop : command.drop (subCommandActionName command).length =
      command.dropWhile (· ≠ '|') := by
    calc command.drop (subCommandActionName command).length
        = (subCommandActionName command ++ command.dropWhile (· ≠ '|')).drop
            (subCommandActionName command).length := by rw [hsplit]
      _ = command.dropWhile (· ≠ '|') := List.drop_left
  rw [hcanonical, hdrop]
  conv =>
    arg 2
    rw [← hsplit]
  refine .renamed _ hlookup ?_ ?_
  · intro hmem
    simpa using List.mem_takeWhile_imp hmem
  · have hhead := List.head?_dropWhile_not (· ≠ '|') command
    cases hrest : command.dropWhile (· ≠ '|') with
    | nil => exact .inl rfl
    | cons c rest =>
      rw [hrest] at hhead
      exact .inr (by simpa using hhead)

theorem exists_head (hbatch : batchSubCommands decodedData = some subCommands)
    (hsome : subCommands ≠ []) : ∃ format ∈ BATCH_SUB_COMMAND_FORMATS,
      decodedData = batchHead format ++ [';'].intercalate subCommands ∧
        ∀ command ∈ subCommands, ';' ∉ command := by
  unfold batchSubCommands at hbatch
  split at hbatch
  · split at hbatch
    · rename_i format hfind
      have hstarts := List.find?_some hfind
      obtain ⟨rest, rfl⟩ : batchHead format <+: decodedData := List.isPrefixOf_iff_prefix.mp hstarts
      rw [List.drop_left, Option.some.injEq] at hbatch
      subst hbatch
      refine ⟨format, List.mem_of_find?_eq_some hfind, ?_, ?_⟩
      · rw [List.intercalate_splitOn]
      · exact fun command hmem => Text.not_mem_of_mem_splitOn hmem
    · rw [Option.some.injEq] at hbatch
      exact absurd hbatch.symm hsome
  · cases hbatch

/-- **The commands are the batch**: a text is captured as itself when it is no BATCH, as
    nothing, or as its commands in their order, which joined again behind the head are
    the text, with no more renamed than the aliases in front of commands. -/
theorem captureCommands_rejoins
    (hactive : isBatchSubCommandCaptureActive consensusNetwork blockTime = true)
    (decodedData : Chars) :
    (¬ "BATCH|".toList <+: decodedData ∧
      captureCommands decodedData consensusNetwork blockTime = [decodedData]) ∨
    captureCommands decodedData consensusNetwork blockTime = [] ∨
    ∃ format ∈ BATCH_SUB_COMMAND_FORMATS, ∃ subCommands,
      decodedData = batchHead format ++ [';'].intercalate subCommands ∧
      (∀ command ∈ subCommands, ';' ∉ command) ∧
      List.Forall₂ (Renamed ACTION_ALIASES) subCommands
        (captureCommands decodedData consensusNetwork blockTime) := by
  unfold captureCommands
  rw [if_pos hactive]
  cases hbatch : batchSubCommands decodedData with
  | none =>
    refine .inl ⟨fun hstarts => ?_, rfl⟩
    unfold batchSubCommands at hbatch
    rw [if_pos (List.isPrefixOf_iff_prefix.mpr hstarts)] at hbatch
    split at hbatch <;> cases hbatch
  | some subCommands =>
    refine .inr ?_
    by_cases hrejected :
        hasProvablyRejectedBatch subCommands ACTION_ALIASES consensusNetwork blockTime = true
    · exact .inl (if_pos hrejected)
    by_cases hnone : subCommands = []
    · subst hnone
      exact .inl (if_neg hrejected)
    obtain ⟨format, hformat, htext, hplain⟩ := exists_head hbatch hnone
    refine .inr ⟨format, hformat, subCommands, htext, hplain, ?_⟩
    show List.Forall₂ _ _ (if _ then _ else _)
    rw [if_neg hrejected, List.forall₂_map_right_iff, List.forall₂_same]
    exact fun command _ => renamed_expandSubCommandAlias command ACTION_ALIASES

/-- Rejection and capture of a batch, on every network at every time. -/
theorem batch_captured_whole (consensusNetwork : String) (blockTime : Int) :
    (∀ (aliases : List (Chars × Chars)) (subCommands permuted : List Chars),
      subCommands.Perm permuted →
        hasProvablyRejectedBatch subCommands aliases consensusNetwork blockTime =
          hasProvablyRejectedBatch permuted aliases consensusNetwork blockTime) ∧
    (∀ (aliases : List (Chars × Chars)) (subCommands more : List Chars),
      hasProvablyRejectedBatch subCommands aliases consensusNetwork blockTime = true →
        hasProvablyRejectedBatch (subCommands ++ more) aliases consensusNetwork blockTime = true) ∧
    (isBatchSubCommandCaptureActive consensusNetwork blockTime = true → ∀ decodedData : Chars,
      (¬ "BATCH|".toList <+: decodedData ∧
        captureCommands decodedData consensusNetwork blockTime = [decodedData]) ∨
      captureCommands decodedData consensusNetwork blockTime = [] ∨
      ∃ format ∈ BATCH_SUB_COMMAND_FORMATS, ∃ subCommands,
        decodedData = batchHead format ++ [';'].intercalate subCommands ∧
        (∀ command ∈ subCommands, ';' ∉ command) ∧
        List.Forall₂ (Renamed ACTION_ALIASES) subCommands
          (captureCommands decodedData consensusNetwork blockTime)) :=
  ⟨fun _ _ _ => hasProvablyRejectedBatch_perm,
    fun _ _ more hrejected => hasProvablyRejectedBatch_append hrejected more,
    captureCommands_rejoins⟩

example : captureCommands "BATCH|0|CAST|0|a;COINPAY|0|b".toList "regtest" 0 =
    ["BROADCAST|0|a".toList, "COINPAY|0|b".toList] := by decide

end XChainDecoder.Capture
