import XChainDecoder.Parse.Envelope

/-! # Reading a payload

    A payload is a script of its own: a push of the action, and a push of the raw data
    where there is any. On the MULTISIGN carrier zero bytes follow, which read as the
    opcode `OP_0`.

    What comes back is what was compiled (`decompilePayload_compile`), except that a raw
    payload of one byte the compiler writes as an opcode is read as that opcode, and an
    opcode is no data: it is dropped. -/

namespace XChainDecoder.Parse

open Script (Element Token)

/-! ## Section 1: The reader -/

def OP_RETURN_PUSH_OVERHEAD : ℕ := 3

/-- `compiledPushSize`: the length of a push with its prefix. -/
def compiledPushSize (byteLength : ℕ) : ℕ :=
  if byteLength ≤ 75 then byteLength + 1
  else if byteLength ≤ 255 then byteLength + 2
  else byteLength + OP_RETURN_PUSH_OVERHEAD

/-- What the carriers of a transaction add up to. -/
structure Payload where
  dataBuffer         : List UInt8
  rawData            : Option (List UInt8)
  getSource          : Bool
  compiledDataLength : ℕ
deriving DecidableEq, Repr

/-- Whether the payload opens with an empty push and goes on behind it. -/
def hasEmptyLeadingPush (decompiledData : List Element) (dataBuffer : List UInt8) : Bool :=
  decompiledData[0]? = some (.opcode OP_0) &&
    (1 < decompiledData.length || 1 < dataBuffer.length)

/-- The action, then what follows it: only data is raw data, and both pushes count. -/
def readPushes (envelopeCarrier : Bool) (action : List UInt8) (rest : List Element)
    (payload : Payload) : Payload :=
  let actionLength :=
    if envelopeCarrier then payload.compiledDataLength else compiledPushSize action.length
  match rest with
  | []          => ⟨action, payload.rawData, true, actionLength⟩
  | second :: _ =>
      match second.data? with
      | none         => ⟨action, none, true, actionLength⟩
      | some rawData =>
          ⟨action, some rawData, true,
            if envelopeCarrier then actionLength
            else actionLength + compiledPushSize rawData.length⟩

/-- `decompilePayload`. A payload whose first element is no data is blanked. -/
def decompilePayload (lib : Library) (envelopeCarrier : Bool) (payload : Payload) :
    Steps Payload :=
  if payload.dataBuffer = [] then pure payload
  else do
    match ← ofLibrary (lib.decompile payload.dataBuffer) with
    | none | some []                 => pure { payload with dataBuffer := [] }
    | some (.data action :: rest)    => pure (readPushes envelopeCarrier action rest payload)
    | some (.opcode code :: rest)    =>
        if hasEmptyLeadingPush (.opcode code :: rest) payload.dataBuffer then do
          countParseError
          pure { payload with dataBuffer := [] }
        else pure { payload with dataBuffer := [] }

theorem decompilePayload_of_data {lib : Library} {envelopeCarrier : Bool} {payload : Payload}
    {action : List UInt8} {rest : List Element} (hne : payload.dataBuffer ≠ [])
    (h : lib.decompile payload.dataBuffer = .ok (some (.data action :: rest)))
    (env : Surroundings) (trace : Trace) :
    decompilePayload lib envelopeCarrier payload env trace =
      (.ok (readPushes envelopeCarrier action rest payload), trace) := by
  unfold decompilePayload
  rw [if_neg hne]
  have hread : (ofLibrary (lib.decompile payload.dataBuffer)) env trace =
      (.ok (some (.data action :: rest)), trace) := by
    rw [h]
    rfl
  rw [Proc.run_bind hread]
  rfl

/-! ## Section 2: What the compiler writes -/

/-- The library writes every push in the shortest way: its opcode, or the shortest
    prefix. -/
def CompilesMinimally (compile : List Element → List UInt8) : Prop :=
  ∀ elements : List Element, compile elements = Script.write (elements.map Script.tokenOf)

/-- The pushes of an action and of its raw data. -/
def actionPushes (action : List UInt8) (rawData : Option (List UInt8)) : List Element :=
  .data action :: (rawData.map Element.data).toList

/-- The MULTISIGN padding. -/
def zeroPadding (n : ℕ) : List UInt8 := List.replicate n 0x00

theorem zeroPadding_eq_write (n : ℕ) :
    zeroPadding n = Script.write (List.replicate n (.op OP_0)) := by
  unfold zeroPadding
  induction n with
  | zero => rfl
  | succ n ih =>
    rw [List.replicate_succ, List.replicate_succ, ih]
    rfl

/-- A compiled payload with its padding reads as what was compiled, then zeros. -/
theorem decompile_padded {lib : Library} {compile : List Element → List UInt8}
    (hreads : ReadsScripts lib) (hcompiles : CompilesMinimally compile) {action : List UInt8}
    {rawData : Option (List UInt8)} (haction : action.length ≤ 65535)
    (hraw : ∀ raw ∈ rawData, raw.length ≤ 65535) (n : ℕ) :
    lib.decompile (compile (actionPushes action rawData) ++ zeroPadding n) =
      .ok (some (Script.elementOf action ::
        ((rawData.map Script.elementOf).toList ++ List.replicate n (.opcode OP_0)))) := by
  have hshort : ∀ bytes : List UInt8, bytes.length ≤ 65535 → bytes.length < 256 ^ 4 := by
    intro bytes h
    omega
  rw [hcompiles, zeroPadding_eq_write, ← Script.write_append]
  rw [hreads]
  · have hzero : (Token.op OP_0).element = .opcode OP_0 := rfl
    simp only [actionPushes, List.map_append, List.map_cons, List.map_replicate,
      Script.element_tokenOf, hzero]
    cases rawData with
    | none => rfl
    | some raw =>
      simp only [Option.map_some, Option.toList_some, List.map_cons, List.map_nil,
        Script.element_tokenOf]
      rfl
  · intro t ht
    rcases List.mem_append.mp ht with hdata | hzero
    · obtain ⟨e, he, rfl⟩ := List.mem_map.mp hdata
      rcases List.mem_cons.mp he with rfl | he
      · exact Script.tokenOf_valid (hshort action haction)
      · obtain ⟨raw, hmem, rfl⟩ := Option.map_eq_some_iff.mp (Option.mem_toList.mp he)
        exact Script.tokenOf_valid (hshort raw (hraw raw hmem))
    · rw [List.eq_of_mem_replicate hzero]
      exact (rfl : Script.Push.ofByte OP_0 = none)

/-- The measure of a push is the length it compiles to. -/
theorem compiledPushSize_eq {bytes : List UInt8} (hdata : Script.minimalOpcode bytes = none)
    (hlen : bytes.length ≤ 65535) :
    compiledPushSize bytes.length = (Script.tokenOf (.data bytes)).bytes.length := by
  rw [Script.tokenOf_data hdata]
  simp only [Token.bytes, Script.Push.head, Script.Push.shortest, List.length_append,
    List.length_cons, Bytes.length_leBytes]
  unfold compiledPushSize OP_RETURN_PUSH_OVERHEAD
  by_cases h₁ : bytes.length ≤ 75
  · rw [if_pos h₁, if_pos h₁]
    simp only [Script.Push.width]
    omega
  · rw [if_neg h₁, if_neg h₁]
    by_cases h₂ : bytes.length ≤ 255
    · rw [if_pos h₂, if_pos (by omega)]
      simp only [Script.Push.width]
      omega
    · rw [if_neg h₂, if_neg (by omega), if_pos (by omega)]
      simp only [Script.Push.width]
      omega

/-! ## Section 3: The round trip -/

section RoundTrip

variable {lib : Library} {compile : List Element → List UInt8} {action : List UInt8}
  {rawData : Option (List UInt8)}

theorem length_compile (hcompiles : CompilesMinimally compile) (action : List UInt8)
    (rawData : Option (List UInt8)) :
    (compile (actionPushes action rawData)).length =
      (Script.tokenOf (.data action)).bytes.length +
        ((rawData.map (fun raw => (Script.tokenOf (.data raw)).bytes.length)).getD 0) := by
  rw [hcompiles]
  cases rawData with
  | none => simp [actionPushes, Script.write]
  | some raw => simp [actionPushes, Script.write]

/-- What is read of a padded payload, whatever the raw data reads as. -/
theorem decompilePayload_padded (hreads : ReadsScripts lib) (hcompiles : CompilesMinimally compile)
    (haction : 2 ≤ action.length ∧ action.length ≤ 65535)
    (hraw : ∀ raw ∈ rawData, raw.length ≤ 65535) (n : ℕ) (getSource : Bool)
    (compiledDataLength : ℕ) (env : Surroundings) (trace : Trace) :
    decompilePayload lib false
        ⟨compile (actionPushes action rawData) ++ zeroPadding n, none, getSource,
          compiledDataLength⟩ env trace =
      (.ok (readPushes false action
        ((rawData.map Script.elementOf).toList ++ List.replicate n (.opcode OP_0))
        ⟨compile (actionPushes action rawData) ++ zeroPadding n, none, getSource,
          compiledDataLength⟩), trace) := by
  have helement : Script.elementOf action = .data action :=
    Script.elementOf_of_minimalOpcode (Script.minimalOpcode_of_length haction.1)
  have hread := decompile_padded hreads hcompiles haction.2 hraw n
  rw [helement] at hread
  refine decompilePayload_of_data ?_ hread env trace
  intro hnil
  have hlen := congrArg List.length hnil
  have hpos := (Script.tokenOf (.data action)).length_bytes_pos
  simp only [List.length_append, List.length_nil, length_compile hcompiles] at hlen
  omega

/-- Behind the action alone the padding is no raw data. -/
theorem readPushes_zeros (action : List UInt8) (n : ℕ) (payload : Payload)
    (hnone : payload.rawData = none) :
    readPushes false action (List.replicate n (.opcode OP_0)) payload =
      ⟨action, none, true, compiledPushSize action.length⟩ := by
  cases n with
  | zero => simp [readPushes, hnone]
  | succ n => rfl

/-- **The payload decoder undoes the compiler.** Whatever padding follows, the action
    comes back with its raw data and is measured as it was compiled, if the raw data is
    not a byte that compiles to an opcode. Such a byte is an opcode to the reader: the
    action comes back without it, and it is not measured. -/
theorem decompilePayload_compile (hreads : ReadsScripts lib) (hcompiles : CompilesMinimally compile)
    (haction : 2 ≤ action.length ∧ action.length ≤ 65535)
    (hraw : ∀ raw ∈ rawData, 1 ≤ raw.length ∧ raw.length ≤ 65535) (n : ℕ) (getSource : Bool)
    (compiledDataLength : ℕ) (env : Surroundings) (trace : Trace) :
    ((∀ raw ∈ rawData, Script.minimalOpcode raw = none) →
      decompilePayload lib false
          ⟨compile (actionPushes action rawData) ++ zeroPadding n, none, getSource,
            compiledDataLength⟩ env trace =
        (.ok ⟨action, rawData, true, (compile (actionPushes action rawData)).length⟩, trace)) ∧
    ((∃ raw ∈ rawData, Script.minimalOpcode raw ≠ none) →
      decompilePayload lib false
          ⟨compile (actionPushes action rawData) ++ zeroPadding n, none, getSource,
            compiledDataLength⟩ env trace =
        (.ok ⟨action, none, true, (compile (actionPushes action none)).length⟩, trace)) := by
  have hraw' : ∀ raw ∈ rawData, raw.length ≤ 65535 := fun raw hmem => (hraw raw hmem).2
  have hactionData : Script.minimalOpcode action = none := Script.minimalOpcode_of_length haction.1
  have hactionSize := compiledPushSize_eq hactionData haction.2
  rw [decompilePayload_padded hreads hcompiles haction hraw' n getSource compiledDataLength env trace]
  constructor
  -- every push is read as data
  · intro hdata
    cases rawData with
    | none =>
      have hread := readPushes_zeros action n
        ⟨compile (actionPushes action none) ++ zeroPadding n, none, getSource, compiledDataLength⟩ rfl
      simp only [Option.map_none, Option.toList_none, List.nil_append, hread,
        length_compile hcompiles, hactionSize]
      rfl
    | some raw =>
      have hrawData : Script.minimalOpcode raw = none := hdata raw rfl
      have hrawSize := compiledPushSize_eq hrawData (hraw raw rfl).2
      simp only [Option.map_some, Option.toList_some, List.cons_append, List.nil_append,
        Script.elementOf_of_minimalOpcode hrawData, readPushes, Element.data?,
        length_compile hcompiles, hactionSize, hrawSize]
      rfl
  -- a one-byte push that compiles to an opcode is read as no data
  · intro hopcode
    obtain ⟨raw, hmem, hne⟩ := hopcode
    have hmem : rawData = some raw := hmem
    subst hmem
    obtain ⟨code, hcode⟩ := Option.ne_none_iff_exists'.mp hne
    have helement : Script.elementOf raw = .opcode code := by
      simp [Script.elementOf, hcode]
    simp only [Option.map_some, Option.toList_some, List.cons_append, List.nil_append, helement,
      readPushes, Element.data?, length_compile hcompiles, hactionSize]
    rfl

end RoundTrip

namespace Sample

theorem compilesMinimally : CompilesMinimally Script.compile := fun _ => rfl

/-- Surroundings that answer nothing. -/
def silent : Surroundings where
  getRawTransaction _ _ := .empty
  getAddressId _        := .answers none
  hasPubkey _           := .answers false
  insertPubkey _ _      := .answers true

/-- An action of two bytes with raw data of two bytes, and four bytes of padding. -/
theorem payload_roundTrip :
    decompilePayload library false
        ⟨Script.compile (actionPushes [0x41, 0x42] (some [1, 2])) ++ zeroPadding 4, none, false, 10⟩
        silent Trace.start =
      (.ok ⟨[0x41, 0x42], some [1, 2], true, 6⟩, Trace.start) :=
  (decompilePayload_compile library_readsScripts compilesMinimally (by decide)
    (show ∀ raw ∈ some [1, 2], 1 ≤ raw.length ∧ raw.length ≤ 65535 by simp) 4 false 10 silent
    Trace.start).1 (by simp [Script.minimalOpcode])

/-- Raw data of the one byte 5 compiles to the opcode `OP_5`, and is lost. -/
theorem opcodeByte_lost :
    ReadsScripts library ∧ CompilesMinimally Script.compile ∧
    decompilePayload library false
        ⟨Script.compile (actionPushes [0x41, 0x42] (some [5])), none, false, 4⟩ silent Trace.start =
      (.ok ⟨[0x41, 0x42], none, true, 3⟩, Trace.start) ∧
    (Script.compile (actionPushes [0x41, 0x42] (some [5]))).length = 4 :=
  ⟨library_readsScripts, compilesMinimally, by decide, by decide⟩

end Sample

end XChainDecoder.Parse
