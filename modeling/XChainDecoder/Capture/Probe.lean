import XChainDecoder.Lib.Sql
import XChainDecoder.Clear.Command
import XChainDecoder.Capture.Action

/-! # Has a dispenser ever been created?

    A dispenser is registered for every valid create among the commands of a stored
    action. The operator's probe does not parse commands: it asks the database for three
    LIKE patterns over the stored text.

    **Main theorem.** `hasDispenserTransactions_complete`: the patterns miss no stored
    text that registers a dispenser, on any network at any time; so where they find
    nothing, nothing that is stored has ever registered one. -/

namespace XChainDecoder.Capture

open Text Expiration

/-! ## Section 1: Registering creates -/

def V0_GIVE_COIN_INDEX : ℕ := 2
def V0_GET_COIN_INDEX : ℕ := 7
def V0_GET_ADDRESS_INDEX : ℕ := 10
def ORACLE_ADDRESS_INDEX : ℕ := 13
def V0_EXPIRATION_INDEX : ℕ := 14
def V0_REQUIRED_FIELD_COUNT : ℕ := 10
def INDEX_ADDRESS_MAX_CHARS : ℕ := 120

/-- What a decoder runs for. -/
structure Deployment where
  consensusNetwork : String
  coinTick         : Chars
  expiration       : ExpirationRules

/-- `parseInt(value, 10)`, none for NaN. -/
def parseInt (value : Chars) : Option ℤ :=
  let body := value.dropWhile isWhitespace
  let digits := (dropSign body).takeWhile Char.isDigit
  if digits = [] then none
  else if body.head? = some '-' then some (-(Decimal.value digits))
  else some (Decimal.value digits)

def hasRequiredDispenserCreateFields (decodedDataSplit : List Chars) : Bool :=
  V0_REQUIRED_FIELD_COUNT ≤ decodedDataSplit.length

def dispenserOpensForThisChain (d : Deployment) (giveCoin getCoin : Option Chars) : Bool :=
  giveCoin = some d.coinTick && getCoin = some d.coinTick

/-- Whether a column of an address takes a text: a character outside the basic plane is
    two surrogates. -/
def fitsIndexAddressColumn (value : Chars) : Bool :=
  utf16Length value ≤ INDEX_ADDRESS_MAX_CHARS && value.all (fun c => c.toNat < 0x10000)

def oracleAddressFromCreate (fields : List Chars) : Option Chars :=
  match fields[ORACLE_ADDRESS_INDEX]? with
  | none       => none
  | some token => if token = [] ∨ token.head? = some '^' then none else some token

/-- `pushOperatingAddressCreate`: what is pushed. -/
def operatingAddressCreate (decodedDataSplit : List Chars) (source : Option String)
    (expiration : ℤ) : List DispenserCreate :=
  let getAddress := (decodedDataSplit[V0_GET_ADDRESS_INDEX]?).getD []
  if getAddress.head? = some '^' then []
  else if getAddress ≠ [] ∧ fitsIndexAddressColumn getAddress = false then []
  else
    [{ address       := if getAddress = [] then source else some (String.ofList getAddress)
       sourceAddress := source
       oracleAddress := (oracleAddressFromCreate decodedDataSplit).map String.ofList
       expiration    := expiration }]

/-- `pushV0DispenserCreate`: what is pushed. -/
def v0DispenserCreate (d : Deployment) (decodedDataSplit : List Chars) (source : Option String)
    (blockTime : Int) : List DispenserCreate :=
  match (createExpiration d.expiration decodedDataSplit[V0_EXPIRATION_INDEX]? blockTime).bind
    Double.safeInteger? with
  | none            => []
  | some expiration =>
      if dispenserOpensForThisChain d decodedDataSplit[V0_GIVE_COIN_INDEX]?
          decodedDataSplit[V0_GET_COIN_INDEX]? then
        operatingAddressCreate decodedDataSplit source expiration
      else []

/-- The format of a DISPENSER command. -/
def dispenserFormat (decodedDataSplit : List Chars) : Option ℤ := decodedDataSplit[1]?.bind parseInt

/-- The creates of one command. -/
def commandCreates (d : Deployment) (dispenserCommandPrefix : Chars) (source : Option String)
    (blockTime : Int) (dispenserCommand : Chars) : List DispenserCreate :=
  if dispenserCommandPrefix.isPrefixOf dispenserCommand then
    let decodedDataSplit := dispenserCommand.splitOn '|'
    if dispenserFormat decodedDataSplit = some 0 ∧
        hasRequiredDispenserCreateFields decodedDataSplit = true then
      v0DispenserCreate d decodedDataSplit source blockTime
    else []
  else []

def collectDispenserCreates (d : Deployment) (commands : List Chars)
    (dispenserCommandPrefix : Chars) (source : Option String) (blockTime : Int) :
    List DispenserCreate :=
  commands.flatMap (commandCreates d dispenserCommandPrefix source blockTime)

def dispenserCommandPrefixFor (consensusNetwork : String) (blockTime : Int) : Chars :=
  if isBatchSubCommandCaptureActive consensusNetwork blockTime then "DISPENSER|".toList
  else "DISPENSER".toList

/-- What a stored text registers: one dispenser for each operating address among its
    creates. -/
def dispenserRegistrations {κ : Type} [DecidableEq κ] (keyOf : String → κ) (d : Deployment)
    (decodedData : Chars) (source : Option String) (blockTime : Int) : List DispenserCreate :=
  collapseRegistrationsByKey keyOf
    (collectDispenserCreates d (captureCommands decodedData d.consensusNetwork blockTime)
      (dispenserCommandPrefixFor d.consensusNetwork blockTime) source blockTime)

/-! ## Section 2: The probe -/

/-- The patterns of `hasDispenserTransactions`. -/
def DISPENSER_PATTERNS : List Chars :=
  ["DISPENSER|%".toList, "%|DISPENSER|%".toList, "%;DISPENSER|%".toList]

/-- Whether a stored text is like one of them. -/
def likesDispenser (collation : Sql.Collation) (data : String) : Bool :=
  DISPENSER_PATTERNS.any (fun pattern => collation.like pattern data.toList)

/-- A text the storage gate lets through. -/
def StoredData (data : String) : Prop :=
  ∃ (rules : Rules) (r : ParseResult),
    (buildStoredActionRecord { rules with canonicalAction := canonicalAction } r).data = data

/-- It is blank, or its name is one of the protocol. -/
theorem StoredData.name {data : String} (h : StoredData data) :
    data.toList = [] ∨ data.toList.takeWhile (· ≠ '|') ∈ VALID_ACTION_NAMES := by
  obtain ⟨rules, r, rfl⟩ := h
  by_cases hblank :
      (buildStoredActionRecord { rules with canonicalAction := canonicalAction } r).data = ""
  · rw [hblank]
    exact .inl rfl
  · exact .inr ((stored_action_canonical rules).1 r hblank).known

theorem likesDispenser_of_prefix {collation : Sql.Collation} {data : String}
    (h : "DISPENSER|".toList <+: data.toList) : likesDispenser collation data = true := by
  refine List.any_eq_true.mpr ⟨"DISPENSER|%".toList, by decide, ?_⟩
  exact collation.like_of_prefix (by decide) h

theorem likesDispenser_of_infix {collation : Sql.Collation} {data : String} {delimiter : Char}
    (hdelimiter : delimiter = '|' ∨ delimiter = ';')
    (h : delimiter :: "DISPENSER|".toList <:+: data.toList) :
    likesDispenser collation data = true := by
  rcases hdelimiter with rfl | rfl
  · refine List.any_eq_true.mpr ⟨"%|DISPENSER|%".toList, by decide, ?_⟩
    exact collation.like_of_infix (by decide) h
  · refine List.any_eq_true.mpr ⟨"%;DISPENSER|%".toList, by decide, ?_⟩
    exact collation.like_of_infix (by decide) h

/-! ## Section 3: A command that creates -/

section Creates

variable {d : Deployment} {source : Option String} {blockTime : Int} {command : Chars}

/-- A command that creates has the prefix, and a field behind it. -/
theorem of_mem_commandCreates {dispenserCommandPrefix : Chars} {create : DispenserCreate}
    (h : create ∈ commandCreates d dispenserCommandPrefix source blockTime command) :
    dispenserCommandPrefix <+: command ∧ '|' ∈ command := by
  unfold commandCreates at h
  by_cases hstarts : dispenserCommandPrefix.isPrefixOf command = true
  · refine ⟨List.isPrefixOf_iff_prefix.mp hstarts, ?_⟩
    -- without a delimiter there is one field only, and no format
    by_contra hnone
    have hone : command.splitOn '|' = [command] := List.splitOn_eq_singleton hnone
    have hformat : ¬ (dispenserFormat [command] = some 0 ∧
        hasRequiredDispenserCreateFields [command] = true) := by
      intro hformat
      cases hformat.1
    rw [if_pos hstarts, hone, if_neg hformat] at h
    cases h
  · rw [if_neg hstarts] at h
    cases h

/-- The only name of the protocol that begins like a dispenser is its own. -/
theorem name_of_prefix {name : Chars} (hvalid : name ∈ VALID_ACTION_NAMES)
    (hstarts : "DISPENSER".toList <+: name) : name = "DISPENSER".toList := by
  have hall : ∀ name ∈ VALID_ACTION_NAMES, "DISPENSER".toList.isPrefixOf name = true →
      name = "DISPENSER".toList := by decide
  exact hall name hvalid (List.isPrefixOf_iff_prefix.mpr hstarts)

/-- Below the gate: a stored text that begins like a dispenser and has fields is one. -/
theorem prefix_of_name {data : Chars}
    (hname : data = [] ∨ data.takeWhile (· ≠ '|') ∈ VALID_ACTION_NAMES)
    (hstarts : "DISPENSER".toList <+: data) (hpipe : '|' ∈ data) : "DISPENSER|".toList <+: data := by
  have hvalid : data.takeWhile (· ≠ '|') ∈ VALID_ACTION_NAMES := by
    refine hname.resolve_left (fun hnil => ?_)
    rw [hnil] at hpipe
    exact List.not_mem_nil hpipe
  obtain ⟨rest, rfl⟩ := hstarts
  have hplain : ∀ c ∈ "DISPENSER".toList, (decide (c ≠ '|')) = true :=
    List.all_eq_true.mp (by decide)
  rw [List.takeWhile_append_of_pos hplain] at hvalid
  have hnone := name_of_prefix hvalid (List.prefix_append _ _)
  have hnil : rest.takeWhile (· ≠ '|') = [] := List.append_right_eq_self.mp hnone
  -- what follows the name begins with the delimiter
  cases rest with
  | nil =>
    rw [List.append_nil] at hpipe
    exact absurd hpipe (by decide)
  | cons c rest =>
    have hc : c = '|' := by
      by_contra hne
      rw [List.takeWhile_cons_of_pos (by simpa using hne)] at hnil
      cases hnil
    rw [hc]
    exact ⟨rest, by simp⟩

/-- No alias stands for a dispenser: an expanded command that begins like one did so
    before. -/
theorem prefix_of_renamed {expanded : Chars} (h : Renamed ACTION_ALIASES command expanded)
    (hstarts : "DISPENSER|".toList <+: expanded) : "DISPENSER|".toList <+: command := by
  cases h with
  | same => exact hstarts
  | renamed rest halias hname hrest =>
    rename_i name canonical
    have hall : ∀ entry ∈ ACTION_ALIASES, ∃ c tail, entry.2 = c :: tail ∧ c ≠ 'D' := by
      simp only [ACTION_ALIASES, List.forall_mem_cons]
      exact ⟨⟨_, _, rfl, by decide⟩, ⟨_, _, rfl, by decide⟩, ⟨_, _, rfl, by decide⟩,
        ⟨_, _, rfl, by decide⟩, ⟨_, _, rfl, by decide⟩, nofun⟩
    obtain ⟨l₁, l₂, hsplit, -⟩ := List.lookup_eq_some_iff.mp halias
    have hentry : (name, canonical) ∈ ACTION_ALIASES := by
      rw [hsplit]
      exact List.mem_append_right _ List.mem_cons_self
    obtain ⟨c, tail, hcanonical, hc⟩ := hall _ hentry
    simp only at hcanonical
    obtain ⟨back, hback⟩ := hstarts
    rw [hcanonical] at hback
    exact absurd (List.cons.inj hback).1.symm hc

/-- Commands behind others stand behind a separator. -/
theorem exists_intercalate_append {before behind : List Chars} (hbefore : before ≠ [])
    (hbehind : behind ≠ []) : ∃ front, [';'].intercalate (before ++ behind) =
      front ++ ';' :: [';'].intercalate behind := by
  induction before with
  | nil => exact absurd rfl hbefore
  | cons first before ih =>
    have hne : before ++ behind ≠ [] := fun hnil => hbehind (List.append_eq_nil_iff.mp hnil).2
    rw [List.cons_append, List.intercalate_cons_of_ne_nil hne]
    by_cases hlast : before = []
    · rw [hlast]
      exact ⟨first, by simp⟩
    · obtain ⟨front, hfront⟩ := ih hlast
      exact ⟨first ++ [';'] ++ front, by rw [hfront]; simp⟩

/-- A command of a batch stands in it behind a delimiter. -/
theorem infix_of_mem {format : ℕ} {subCommands : List Chars} (hmem : command ∈ subCommands)
    (hstarts : "DISPENSER|".toList <+: command) : ∃ delimiter, (delimiter = '|' ∨ delimiter = ';') ∧
      delimiter :: "DISPENSER|".toList <:+: batchHead format ++ [';'].intercalate subCommands := by
  obtain ⟨before, after, rfl⟩ := List.append_of_mem hmem
  obtain ⟨fields, rfl⟩ := hstarts
  -- the commands from this one on begin with it
  obtain ⟨back, hback⟩ : ∃ back, [';'].intercalate (("DISPENSER|".toList ++ fields) :: after) =
      "DISPENSER|".toList ++ back := by
    by_cases hlast : after = []
    · rw [hlast, List.intercalate_singleton]
      exact ⟨fields, rfl⟩
    · rw [List.intercalate_cons_of_ne_nil hlast]
      exact ⟨_, by rw [List.append_assoc, List.append_assoc]⟩
  by_cases hfirst : before = []
  · refine ⟨'|', .inl rfl, ?_⟩
    rw [hfirst, List.nil_append, hback]
    unfold batchHead
    exact ⟨"BATCH|".toList ++ Nat.toDigits 10 format, back, by simp⟩
  · refine ⟨';', .inr rfl, ?_⟩
    obtain ⟨front, hfront⟩ := exists_intercalate_append hfirst (List.cons_ne_nil _ after)
    rw [hfront, hback]
    exact ⟨batchHead format ++ front, back, by simp⟩

theorem exists_of_mem_right {R : Chars → Chars → Prop} {before after : List Chars}
    (h : List.Forall₂ R before after) {b : Chars} (hb : b ∈ after) : ∃ a ∈ before, R a b := by
  induction h with
  | nil => cases hb
  | cons hhead htail ih =>
    rcases List.mem_cons.mp hb with rfl | hb
    · exact ⟨_, List.mem_cons_self, hhead⟩
    · obtain ⟨a, ha, hR⟩ := ih hb
      exact ⟨a, List.mem_cons_of_mem _ ha, hR⟩

end Creates

/-! ## Section 4: The probe is complete -/

/-- A stored text with a create is like one of the patterns. -/
theorem likesDispenser_of_creates (collation : Sql.Collation) {d : Deployment} {data : String}
    {source : Option String} {blockTime : Int} (hstored : StoredData data)
    (h : collectDispenserCreates d (captureCommands data.toList d.consensusNetwork blockTime)
      (dispenserCommandPrefixFor d.consensusNetwork blockTime) source blockTime ≠ []) :
    likesDispenser collation data = true := by
  obtain ⟨create, hmem⟩ := List.exists_mem_of_ne_nil _ h
  obtain ⟨command, hcommand, hcreate⟩ := List.mem_flatMap.mp hmem
  obtain ⟨hstarts, hpipe⟩ := of_mem_commandCreates hcreate
  unfold dispenserCommandPrefixFor at hstarts
  by_cases hactive : isBatchSubCommandCaptureActive d.consensusNetwork blockTime = true
  · rw [if_pos hactive] at hstarts
    rcases captureCommands_rejoins hactive data.toList with ⟨-, hself⟩ | hnone |
      ⟨format, -, subCommands, htext, -, hrenamed⟩
    · rw [hself, List.mem_singleton] at hcommand
      rw [hcommand] at hstarts
      exact likesDispenser_of_prefix hstarts
    · rw [hnone] at hcommand
      cases hcommand
    · obtain ⟨before, hbefore, hcommand⟩ := exists_of_mem_right hrenamed hcommand
      obtain ⟨delimiter, hdelimiter, hinfix⟩ :=
        infix_of_mem hbefore (prefix_of_renamed hcommand hstarts)
      rw [← htext] at hinfix
      exact likesDispenser_of_infix hdelimiter hinfix
  · rw [if_neg hactive] at hstarts
    unfold captureCommands at hcommand
    rw [if_neg hactive, List.mem_singleton] at hcommand
    rw [hcommand] at hstarts hpipe
    exact likesDispenser_of_prefix (prefix_of_name hstored.name hstarts hpipe)

theorem creates_of_registrations {κ : Type} [DecidableEq κ] {keyOf : String → κ} {d : Deployment}
    {decodedData : Chars} {source : Option String} {blockTime : Int}
    (h : dispenserRegistrations keyOf d decodedData source blockTime ≠ []) :
    collectDispenserCreates d (captureCommands decodedData d.consensusNetwork blockTime)
      (dispenserCommandPrefixFor d.consensusNetwork blockTime) source blockTime ≠ [] := by
  intro hnone
  unfold dispenserRegistrations at h
  rw [hnone] at h
  exact h rfl

/-- **The probe is complete.** Under every collation, for every deployment: a stored
    text that registers a dispenser, whoever sent it and whenever, is like one of the
    patterns; so where the probe of tables finds nothing, no transaction in them has
    ever registered a dispenser that a purge could have taken. -/
theorem hasDispenserTransactions_complete (collation : Sql.Collation) (d : Deployment)
    (κ : Type) [DecidableEq κ] (keyOf : String → κ) :
    (∀ (data : String) (source : Option String) (blockTime : Int), StoredData data →
      dispenserRegistrations keyOf d data.toList source blockTime ≠ [] →
      likesDispenser collation data = true) ∧
    ∀ (weight : String → String) (t : Tables weight), (∀ x ∈ t.transactions, StoredData x.data) →
      t.hasDispenserTransactions (likesDispenser collation) = false →
      ∀ x ∈ t.transactions, ∀ (source : Option String) (blockTime : Int),
        dispenserRegistrations keyOf d x.data.toList source blockTime = [] := by
  have hcomplete : ∀ (data : String) (source : Option String) (blockTime : Int), StoredData data →
      dispenserRegistrations keyOf d data.toList source blockTime ≠ [] →
      likesDispenser collation data = true :=
    fun data source blockTime hstored h =>
      likesDispenser_of_creates collation hstored (creates_of_registrations h)
  refine ⟨hcomplete, ?_⟩
  intro weight t hstored hprobe x hx source blockTime
  by_contra hregisters
  have hlikes := hcomplete x.data source blockTime (hstored x hx) hregisters
  have hnone := List.any_eq_false.mp hprobe x hx
  exact hnone hlikes

namespace Sample

/-- A decoder of regtest, with a conversion that answers no number. -/
def regtest : Deployment :=
  ⟨"regtest", "BTC".toList, ⟨some 0, some 0, fun _ => .finite 1, fun _ => .nan⟩⟩

/-- The second command of a batch registers its source. -/
example : dispenserRegistrations id regtest
    "BATCH|0|SEND|0|TICK|1|a;DISPENSER|0|BTC|TICK|1||1|BTC||1".toList (some "source") 0 =
      [⟨some "source", some "source", none, 1⟩] := by decide

end Sample

end XChainDecoder.Capture
