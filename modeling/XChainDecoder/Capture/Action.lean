import XChainDecoder.Lib.Utf8
import XChainDecoder.Parse.Lanes
import XChainDecoder.Capture.Batch

/-! # The name of an action

    A payload names its action in front of the first `|`. The name is looked up among
    the aliases and the names of the protocol; a payload of another name is refused, and
    what is stored of the others begins with the canonical name.

    **Main theorems.** `canonical_canonicalAction`: what is stored is canonical, whatever
    the bytes are. `stored_action_canonical`: it is on both lanes, and both lanes store
    the same. -/

namespace XChainDecoder.Capture

open Parse

/-! ## Section 1: The names -/

def VALID_ACTION_NAMES : List Chars :=
  ["ADDRESS".toList, "AIRDROP".toList, "ANCHOR".toList, "ATTEST".toList,
    "BATCH".toList, "BET".toList, "BROADCAST".toList, "CALLBACK".toList, "COINPAY".toList,
    "COLLECT".toList, "DELEGATE".toList, "DEPLOY".toList, "DEPOSIT".toList, "DESTROY".toList,
    "DISPENSER".toList, "DIVIDEND".toList, "EXECUTE".toList, "FILE".toList, "ISSUE".toList,
    "LINK".toList, "LIST".toList, "MESSAGE".toList, "MINT".toList,
    "NODEPROOF".toList, "ORDER".toList, "PRICE".toList, "ROLLCALL".toList, "SEND".toList,
    "SLASH".toList, "SLEEP".toList, "STAKE".toList,
    "SWAP".toList,
    "SWEEP".toList, "UNSTAKE".toList, "VOTE".toList, "WITHDRAW".toList,
    "XBRIDGE".toList]

/-- The properties a table has that it does not hold. -/
def inheritedProperties : List Chars :=
  ["constructor".toList, "hasOwnProperty".toList, "isPrototypeOf".toList,
    "propertyIsEnumerable".toList, "toLocaleString".toList, "toString".toList, "valueOf".toList,
    "__defineGetter__".toList, "__defineSetter__".toList, "__lookupGetter__".toList,
    "__lookupSetter__".toList, "__proto__".toList]

/-- What looking up a name answers. -/
inductive ActionName where
  | text (name : Chars)
  /-- a property of every object, and no text -/
  | inherited
deriving DecidableEq, Repr

/-- `ACTION_ALIASES[rawActionName] ?? rawActionName`. -/
def aliasedName (rawActionName : Chars) : ActionName :=
  match ACTION_ALIASES.lookup rawActionName with
  | some canonical => .text canonical
  | none           => if inheritedProperties.contains rawActionName then .inherited
      else .text rawActionName

/-- `VALID_ACTION_NAMES.has`. -/
def ActionName.isValid : ActionName → Bool
  | .text name  => VALID_ACTION_NAMES.contains name
  | .inherited  => false

/-- The bytes of a name in ASCII. -/
def ascii (name : Chars) : List UInt8 := name.map (fun c => UInt8.ofNat c.toNat)

def ActionName.bytes : ActionName → List UInt8
  | .text name  => ascii name
  | .inherited  => []

structure CanonicalPayload where
  buffer        : List UInt8
  rawActionName : Chars
  actionName    : ActionName
  isKnown       : Bool
deriving DecidableEq, Repr

/-- What stands in front of the first `|`. -/
def nameBytes (buffer : List UInt8) : List UInt8 := buffer.takeWhile (· ≠ 0x7C)

/-- What stands from the first `|` on. -/
def paramBytes (buffer : List UInt8) : List UInt8 := buffer.dropWhile (· ≠ 0x7C)

def canonicalizeActionPayload (buffer : List UInt8) : CanonicalPayload :=
  let rawActionName := Utf8.lenient (nameBytes buffer)
  let actionName := aliasedName rawActionName
  let isKnown := actionName.isValid
  { buffer        :=
      if isKnown = true ∧ actionName ≠ .text rawActionName then actionName.bytes ++ paramBytes buffer
      else buffer
    rawActionName := rawActionName
    actionName    := actionName
    isKnown       := isKnown }

/-- The text of a payload: with replacements where it has to be. -/
def decodeText (buffer : List UInt8) : Chars := (Utf8.strict buffer).getD (Utf8.lenient buffer)

/-- The canonical text of a payload, and whether its name is known. -/
def canonicalAction (payload : List UInt8) : String × Bool :=
  let canonical := canonicalizeActionPayload payload
  (String.ofList (decodeText canonical.buffer), canonical.isKnown)

/-! ## Section 2: A text in front of the first pipe -/

/-- The text of bytes behind others. -/
def textBehind (bytes : List UInt8) : Chars := (Utf8.run .start bytes).map (fun c => c.getD '\uFFFD')

theorem decodeText_eq (buffer : List UInt8) : decodeText buffer = Utf8.lenient buffer :=
  Utf8.getD_strict buffer

theorem nameBytes_append (buffer : List UInt8) : nameBytes buffer ++ paramBytes buffer = buffer :=
  List.takeWhile_append_dropWhile

theorem pipe_not_mem_nameBytes (buffer : List UInt8) : 0x7C ∉ nameBytes buffer := by
  intro hmem
  simpa using List.mem_takeWhile_imp hmem

/-- Bytes that are nothing or begin with a pipe. -/
def FromPipe (bytes : List UInt8) : Prop := bytes = [] ∨ ∃ params, bytes = 0x7C :: params

theorem fromPipe_paramBytes (buffer : List UInt8) : FromPipe (paramBytes buffer) := by
  have hhead := List.head?_dropWhile_not (· ≠ (0x7C : UInt8)) buffer
  unfold paramBytes
  cases hrest : buffer.dropWhile (· ≠ 0x7C) with
  | nil => exact .inl rfl
  | cons b params =>
    rw [hrest] at hhead
    have hb : b = 0x7C := by simpa using hhead
    exact .inr ⟨params, by rw [hb]⟩

/-- A pipe ends the text of a name. -/
theorem lenient_append {name rest : List UInt8} (hrest : FromPipe rest) :
    Utf8.lenient (name ++ rest) = Utf8.lenient name ++ textBehind rest := by
  rcases hrest with rfl | ⟨params, rfl⟩
  · rw [List.append_nil]
    exact (List.append_nil _).symm
  · unfold Utf8.lenient textBehind
    rw [Utf8.decode_append_ascii (by decide), List.map_append]
    rfl

theorem head?_textBehind {rest : List UInt8} (hrest : FromPipe rest) :
    textBehind rest = [] ∨ ∃ text, textBehind rest = '|' :: text := by
  rcases hrest with rfl | ⟨params, rfl⟩
  · exact .inl rfl
  · exact .inr ⟨textBehind params, rfl⟩

/-- The text of bytes without a pipe has none. -/
theorem pipe_not_mem_lenient {name : List UInt8} (h : 0x7C ∉ name) : '|' ∉ Utf8.lenient name := by
  intro hmem
  obtain ⟨c, hc, heq⟩ := List.mem_map.mp hmem
  cases c with
  | none => exact absurd heq (by decide)
  | some c =>
    have heq : c = '|' := heq
    rw [heq] at hc
    exact h (Utf8.mem_of_mem_decode (by decide) (by decide) hc)

section Split

variable {name text : Chars}

/-- A text without a pipe, and behind it nothing or one that begins with a pipe, is split
    between the two. -/
theorem takeWhile_pipe (hname : '|' ∉ name) (htext : text = [] ∨ ∃ rest, text = '|' :: rest) :
    (name ++ text).takeWhile (· ≠ '|') = name := by
  have hall : ∀ c ∈ name, (decide (c ≠ '|')) = true := by
    intro c hc
    simp only [decide_eq_true_eq]
    exact fun h => hname (h ▸ hc)
  rw [List.takeWhile_append_of_pos hall]
  rcases htext with rfl | ⟨rest, rfl⟩
  · simp
  · simp

theorem dropWhile_pipe (hname : '|' ∉ name) (htext : text = [] ∨ ∃ rest, text = '|' :: rest) :
    (name ++ text).dropWhile (· ≠ '|') = text := by
  have hall : ∀ c ∈ name, (decide (c ≠ '|')) = true := by
    intro c hc
    simp only [decide_eq_true_eq]
    exact fun h => hname (h ▸ hc)
  rw [List.dropWhile_append_of_pos hall]
  rcases htext with rfl | ⟨rest, rfl⟩
  · rfl
  · simp

end Split

/-! ## Section 3: A canonical name -/

/-- A name as it is written: in ASCII, without a pipe, and found under itself. -/
structure PlainName (name : Chars) : Prop where
  noAlias : ACTION_ALIASES.lookup name = none
  own     : aliasedName name = .text name
  bytes   : Utf8.encode name = ascii name
  text    : Utf8.lenient (ascii name) = name
  noPipe  : 0x7C ∉ ascii name
  first   : ∃ c rest, name = c :: rest ∧ c ≠ '\uFEFF'

instance (name : Chars) : Decidable (∃ c rest, name = c :: rest ∧ c ≠ '\uFEFF') :=
  match name with
  | []        => isFalse (fun ⟨_, _, h, _⟩ => nomatch h)
  | c :: rest =>
      if h : c = '\uFEFF' then isFalse (fun ⟨_, _, heq, hne⟩ => hne ((List.cons.inj heq).1 ▸ h))
      else isTrue ⟨c, rest, rfl, h⟩

theorem plainName_of_valid {name : Chars} (h : name ∈ VALID_ACTION_NAMES) : PlainName name := by
  have hall : ∀ name ∈ VALID_ACTION_NAMES, ACTION_ALIASES.lookup name = none ∧
      aliasedName name = .text name ∧ Utf8.encode name = ascii name ∧
      Utf8.lenient (ascii name) = name ∧ 0x7C ∉ ascii name ∧
      ∃ c rest, name = c :: rest ∧ c ≠ '\uFEFF' := by decide +kernel
  obtain ⟨hnoAlias, hown, hbytes, htext, hnoPipe, hfirst⟩ := hall name h
  exact ⟨hnoAlias, hown, hbytes, htext, hnoPipe, hfirst⟩

/-- What is stored of a payload. -/
structure Canonical (payload : List UInt8) (stored : Chars) : Prop where
  /-- the name is one of the protocol -/
  known   : stored.takeWhile (· ≠ '|') ∈ VALID_ACTION_NAMES
  /-- and no alias -/
  noAlias : ∀ entry ∈ ACTION_ALIASES, entry.1 ≠ stored.takeWhile (· ≠ '|')
  /-- the rest is that of the payload -/
  params  : stored.dropWhile (· ≠ '|') = (decodeText payload).dropWhile (· ≠ '|')
  /-- it is canonical as it is -/
  bytes   : (canonicalizeActionPayload (Utf8.encode stored)).buffer = Utf8.encode stored
  again   : canonicalAction (Utf8.encode stored) = (String.ofList stored, true)

/-- A known payload, once canonicalized: a name of the protocol in ASCII, and the
    parameters as they were. -/
theorem exists_canonical {payload : List UInt8}
    (h : (canonicalizeActionPayload payload).isKnown = true) : ∃ name ∈ VALID_ACTION_NAMES,
      Utf8.lenient (canonicalizeActionPayload payload).buffer =
        name ++ textBehind (paramBytes payload) := by
  have hrest := fromPipe_paramBytes payload
  unfold canonicalizeActionPayload at h ⊢
  dsimp only at h ⊢
  cases hname : aliasedName (Utf8.lenient (nameBytes payload)) with
  | inherited =>
    rw [hname] at h
    cases h
  | text name =>
    rw [hname] at h
    have hvalid : name ∈ VALID_ACTION_NAMES := List.contains_iff_mem.mp h
    refine ⟨name, hvalid, ?_⟩
    by_cases hsame : name = Utf8.lenient (nameBytes payload)
    · have hkeep : ¬ ((ActionName.text name).isValid = true ∧
          ActionName.text name ≠ .text (Utf8.lenient (nameBytes payload))) := by
        rw [← hsame]
        exact fun hchanged => hchanged.2 rfl
      rw [if_neg hkeep]
      conv =>
        lhs
        rw [← nameBytes_append payload]
      rw [lenient_append hrest, ← hsame]
    · have hchange : (ActionName.text name).isValid = true ∧
          ActionName.text name ≠ .text (Utf8.lenient (nameBytes payload)) := by
        refine ⟨h, fun heq => hsame ?_⟩
        exact ActionName.text.inj heq
      rw [if_pos hchange, lenient_append hrest]
      show Utf8.lenient (ascii name) ++ _ = _
      rw [(plainName_of_valid hvalid).text]

theorem encode_pipe (text : Chars) : Utf8.encode ('|' :: text) = 0x7C :: Utf8.encode text := rfl

/-- A name of the protocol with a text from a pipe on is found as it is. -/
theorem canonicalize_encode {name text : Chars} (hvalid : name ∈ VALID_ACTION_NAMES)
    (htext : text = [] ∨ ∃ rest, text = '|' :: rest) :
    canonicalizeActionPayload (Utf8.encode (name ++ text)) =
      ⟨Utf8.encode (name ++ text), name, .text name, true⟩ := by
  have hplain := plainName_of_valid hvalid
  have hname : nameBytes (Utf8.encode (name ++ text)) = ascii name := by
    have hall : ∀ b ∈ ascii name, (decide (b ≠ 0x7C)) = true := by
      intro b hb
      simp only [decide_eq_true_eq]
      exact fun h => hplain.noPipe (h ▸ hb)
    rw [Utf8.encode_append, hplain.bytes]
    unfold nameBytes
    rw [List.takeWhile_append_of_pos hall]
    rcases htext with rfl | ⟨rest, rfl⟩
    · simp
    · rw [encode_pipe]
      simp
  unfold canonicalizeActionPayload
  dsimp only
  rw [hname, hplain.text, hplain.own]
  have hknown : (ActionName.text name).isValid = true := List.contains_iff_mem.mpr hvalid
  rw [hknown, if_neg (fun hchanged => hchanged.2 rfl)]

/-- **Canonical names.** Whatever the bytes of a payload of a known name are, what is
    stored is canonical. -/
theorem canonical_canonicalAction {payload : List UInt8} (h : (canonicalAction payload).2 = true) :
    Canonical payload (canonicalAction payload).1.toList := by
  have hknown : (canonicalizeActionPayload payload).isKnown = true := h
  obtain ⟨name, hvalid, hstored⟩ := exists_canonical hknown
  have hplain := plainName_of_valid hvalid
  have htext := head?_textBehind (fromPipe_paramBytes payload)
  have hnoPipe : '|' ∉ name := by
    rw [← hplain.text]
    exact pipe_not_mem_lenient hplain.noPipe
  have hdata : (canonicalAction payload).1.toList = name ++ textBehind (paramBytes payload) := by
    unfold canonicalAction
    dsimp only
    rw [String.toList_ofList, decodeText_eq, hstored]
  have hfront : (canonicalAction payload).1.toList.takeWhile (· ≠ '|') = name := by
    rw [hdata, takeWhile_pipe hnoPipe htext]
  -- what is stored is read back: its front is the name again, the rest the text of the payload
  have hcanonical := canonicalize_encode hvalid htext
  refine ⟨?_, ?_, ?_, ?_, ?_⟩
  · rw [hfront]
    exact hvalid
  · rw [hfront]
    intro entry hentry heq
    have hnone := List.lookup_eq_none_iff.mp hplain.noAlias entry hentry
    rw [heq] at hnone
    simp at hnone
  · have hpayload : decodeText payload =
        Utf8.lenient (nameBytes payload) ++ textBehind (paramBytes payload) := by
      rw [decodeText_eq, ← lenient_append (fromPipe_paramBytes payload), nameBytes_append]
    rw [hdata, hpayload, dropWhile_pipe hnoPipe htext,
      dropWhile_pipe (pipe_not_mem_lenient (pipe_not_mem_nameBytes payload)) htext]
  · rw [hdata, hcanonical]
  · obtain ⟨c, rest, rfl, hfirst⟩ := hplain.first
    have hdecode : Utf8.lenient (Utf8.encode (c :: rest ++ textBehind (paramBytes payload))) =
        c :: rest ++ textBehind (paramBytes payload) := by
      refine Utf8.lenient_encode (fun hmark => hfirst ?_)
      exact Option.some.inj hmark
    rw [hdata]
    unfold canonicalAction
    dsimp only
    rw [hcanonical, decodeText_eq, hdecode]

/-- An alias behind a byte order mark. -/
example : canonicalAction ([0xEF, 0xBB, 0xBF] ++ ascii "CAST|0|hi".toList) =
    ("BROADCAST|0|hi", true) := by decide

/-! ## Section 4: The two lanes -/

/-- What the block lane stores of a parsed transaction: none where it stores no row. -/
def blockStored (rules : Rules) (r : ParseResult) : Option String :=
  if hasStorableContent r && !(buildStoredActionRecord rules r).skip then
    some (buildStoredActionRecord rules r).data
  else none

/-- `admitMempoolAction`: an action without a source is blanked. -/
def admitMempoolAction (rules : Rules) (r : ParseResult) : StoredRecord :=
  if !r.data.isEmpty && !hasStorableContent r then ⟨false, "", none⟩
  else buildStoredActionRecord rules r

/-- What the mempool lane stores: what is skipped has a row of its own, blanked. -/
def mempoolStored (rules : Rules) (r : ParseResult) : String :=
  if (admitMempoolAction rules r).skip then "" else (admitMempoolAction rules r).data

theorem data_of_build {rules : Rules} {r : ParseResult}
    (h : (buildStoredActionRecord rules r).data ≠ "") : r.data ≠ [] ∧
      (rules.canonicalAction r.data).2 = true ∧
      (buildStoredActionRecord rules r).data = (rules.canonicalAction r.data).1 := by
  unfold buildStoredActionRecord at h ⊢
  by_cases hempty : r.data.isEmpty = true
  · rw [if_pos hempty] at h
    exact absurd rfl h
  rw [if_neg hempty] at h ⊢
  by_cases hlong : (if r.payloadCeiling = 0 then MAX_ACTION_DATA_LENGTH else r.payloadCeiling) <
      r.compiledDataLength
  · rw [if_pos hlong] at h
    exact absurd rfl h
  rw [if_neg hlong] at h ⊢
  by_cases hknown : (rules.canonicalAction r.data).2 = true
  · rw [if_pos hknown]
    exact ⟨by simpa using hempty, hknown, rfl⟩
  · rw [if_neg hknown] at h
    exact absurd rfl h

theorem data_of_blockStored {rules : Rules} {r : ParseResult} {stored : String}
    (h : blockStored rules r = some stored) (hne : stored ≠ "") :
    r.data ≠ [] ∧ stored = (rules.canonicalAction r.data).1 := by
  unfold blockStored at h
  split_ifs at h with hrow
  have hdata : (buildStoredActionRecord rules r).data = stored := Option.some.inj h
  rw [← hdata] at hne
  obtain ⟨hsome, -, heq⟩ := data_of_build hne
  exact ⟨hsome, hdata.symm.trans heq⟩

theorem data_of_mempoolStored {rules : Rules} {r : ParseResult} (hne : mempoolStored rules r ≠ "") :
    r.data ≠ [] ∧ mempoolStored rules r = (rules.canonicalAction r.data).1 := by
  unfold mempoolStored at hne ⊢
  split_ifs at hne ⊢ with hskip
  · exact absurd rfl hne
  unfold admitMempoolAction at hne ⊢
  split_ifs at hne ⊢ with hblank
  · exact absurd rfl hne
  obtain ⟨hsome, -, heq⟩ := data_of_build hne
  exact ⟨hsome, heq⟩

/-- **Stored actions are canonical**: whatever is parsed, what the storage gate lets
    through is canonical; and for every transaction, whatever the heights, the open
    dispensers and the answers of the node and the database are on the two lanes, the
    actions they store are the same where both store one. -/
theorem stored_action_canonical (rules : Rules) :
    (∀ r : ParseResult,
      (buildStoredActionRecord { rules with canonicalAction := canonicalAction } r).data ≠ "" →
      Canonical r.data
        (buildStoredActionRecord { rules with canonicalAction := canonicalAction } r).data.toList) ∧
    ∀ (lib : Library) (net : Network) (openDispensers openDispensers' : String → Bool)
      (height height' : Option Int) (tx : BlockTransaction) (env env' : Surroundings)
      (trace trace' ended ended' : Trace) (confirmed pending : ParsedTransaction) (stored : String),
      parseTransaction lib net openDispensers height tx env trace = (.ok (some confirmed), ended) →
      parseTransaction lib net openDispensers' height' tx env'.mempoolLane trace' =
        (.ok (some pending), ended') →
      blockStored { rules with canonicalAction := canonicalAction } confirmed.toParseResult =
        some stored → stored ≠ "" →
      mempoolStored { rules with canonicalAction := canonicalAction } pending.toParseResult ≠ "" →
      mempoolStored { rules with canonicalAction := canonicalAction } pending.toParseResult =
        stored := by
  constructor
  · intro r hne
    obtain ⟨-, hknown, heq⟩ := data_of_build hne
    rw [heq]
    exact canonical_canonicalAction hknown
  · intro lib net openDispensers openDispensers' height height' tx env env' trace trace' ended ended'
      confirmed pending stored hparse hparse' hblock hne hne'
    obtain ⟨hdata, hstored⟩ := data_of_blockStored hblock hne
    obtain ⟨hdata', hstored'⟩ := data_of_mempoolStored hne'
    have hsame : confirmed.data = pending.data :=
      parseTransaction_agree openDispensers openDispensers' height height' tx _ _ _ _ _ _ _ _ hparse
        hparse' confirmed rfl pending rfl hdata hdata'
    rw [hstored, hstored', hsame]

end XChainDecoder.Capture
