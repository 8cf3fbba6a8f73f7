import XChainDecoder.Parse.Base

/-! # Envelope recognition

    A Taproot envelope is a tapscript that carries data in a branch never taken:
    `OP_0 OP_IF <XCHN> <0x00> <data>.. OP_ENDIF <key> OP_CHECKSIG`, revealed as the last
    item but one of a witness stack, under a control block.

    `detectEnvelopeWitness` follows the source: the stack is read from its end, then the
    elements of the script one after the other. `IsEnvelope` is the grammar, and the two
    agree on every stack (`detectEnvelopeWitness_eq_some_iff`). -/

namespace XChainDecoder.Parse

open Script (Element Token Push)

/-! ## Section 1: The recognizer -/

def TAPROOT_LEAF_VERSION : UInt8 := 0xc0
def TAPROOT_ANNEX_MARKER : UInt8 := 0x50
def OP_0 : UInt8 := 0x00
def OP_IF : UInt8 := 0x63
def OP_ENDIF : UInt8 := 0x68
def OP_CHECKSIG : UInt8 := 0xac

/-- `MAGIC_WORD_BUFFER`: XCHN. -/
def MAGIC_WORD : List UInt8 := [0x58, 0x43, 0x48, 0x4e]

/-- `envelopeScriptFromWitness`. -/
def envelopeScriptFromWitness (witness : List (List UInt8)) : Option (List UInt8) :=
  if witness.length < 2 then none
  else
    let stackTop := witness.length - 1
    match witness[stackTop]? with
    | none | some []              => none
    | some (first :: controlTail) =>
        let controlBlock := first :: controlTail
        if first = TAPROOT_ANNEX_MARKER then none
        else if first &&& 0xfe ≠ TAPROOT_LEAF_VERSION then none
        else if controlBlock.length < 33 ∨ (controlBlock.length - 33) % 32 ≠ 0 then none
        else
          match witness[stackTop - 1]? with
          | none        => none
          | some script => if script.length < 8 then none else some script

/-- Whether an element is the format push of the one known format. -/
def isFormatByte : Option Element → Bool
  | some (.data [b]) => b = 0x00
  | _                => false

/-- Whether an element is a push of 32 bytes. -/
def isKeyPush : Option Element → Bool
  | some (.data key) => key.length = 32
  | _                => false

/-- The data pushes a list of elements starts with. -/
def leadingPushes : List Element → List (List UInt8)
  | .data bytes :: rest => bytes :: leadingPushes rest
  | _                   => []

/-- `envelopeShapeFromScript`, on the elements: the payload. -/
def envelopeShape (decompiled : List Element) : Option (List UInt8) :=
  if decompiled.length < 8 then none
  else if decompiled[0]? ≠ some (.opcode OP_0) then none
  else if decompiled[1]? ≠ some (.opcode OP_IF) then none
  else if decompiled[2]? ≠ some (.data MAGIC_WORD) then none
  else if isFormatByte decompiled[3]? = false then none
  else
    let payloadPushes := leadingPushes (decompiled.drop 4)
    let i := 4 + payloadPushes.length
    if payloadPushes = [] then none
    else if decompiled[i]? ≠ some (.opcode OP_ENDIF) then none
    else if isKeyPush decompiled[i + 1]? = false then none
    else if decompiled[i + 2]? ≠ some (.opcode OP_CHECKSIG) then none
    else if i + 3 ≠ decompiled.length then none
    else some payloadPushes.flatten

/-- `envelopeShapeFromScript`. -/
def envelopeShapeFromScript (lib : Library) (script : List UInt8) :
    Except String (Option (List UInt8)) :=
  (lib.decompile script).map (fun decompiled => decompiled.bind envelopeShape)

/-- `detectEnvelopeWitness`: an error is caught, and is no envelope. -/
def detectEnvelopeWitness (lib : Library) (witness : List (List UInt8)) : Option (List UInt8) :=
  match envelopeScriptFromWitness witness with
  | none        => none
  | some script =>
      match envelopeShapeFromScript lib script with
      | .error _     => none
      | .ok detected => detected

/-! ## Section 2: The grammar -/

/-- A control block: the leaf version under a parity bit, then 32 bytes of the internal
    key and any number of 32-byte hashes. -/
structure IsControlBlock (controlBlock : List UInt8) : Prop where
  length : ∃ k, controlBlock.length = 33 + 32 * k
  leaf   : ∃ b rest, controlBlock = b :: rest ∧ b &&& 0xfe = TAPROOT_LEAF_VERSION

/-- The elements of an envelope script. -/
def envelopeElements (pushes : List (List UInt8)) (key : List UInt8) : List Element :=
  [.opcode OP_0, .opcode OP_IF, .data MAGIC_WORD, .data [0x00]] ++ pushes.map .data ++
    [.opcode OP_ENDIF, .data key, .opcode OP_CHECKSIG]

/-- A stack that ends in an envelope script and a control block. -/
def IsEnvelope (lib : Library) (witness : List (List UInt8)) (payload : List UInt8) : Prop :=
  ∃ below script controlBlock pushes key,
    witness = below ++ [script, controlBlock] ∧ IsControlBlock controlBlock ∧
      8 ≤ script.length ∧
      lib.decompile script = .ok (some (envelopeElements pushes key)) ∧
      pushes ≠ [] ∧ key.length = 32 ∧ payload = pushes.flatten

/-- The script of an envelope, pushes in whatever form each was written. -/
def envelopeTokens (magic format keyForm : Push) (pushes : List (Push × List UInt8))
    (key : List UInt8) : List Token :=
  [.op OP_0, .op OP_IF, .push magic MAGIC_WORD, .push format [0x00]] ++
    pushes.map (fun p => .push p.1 p.2) ++ [.op OP_ENDIF, .push keyForm key, .op OP_CHECKSIG]

/-- The library reads a script push by push, in whatever form each was written. -/
def ReadsScripts (lib : Library) : Prop :=
  ∀ tokens : List Token, (∀ t ∈ tokens, t.Valid) →
    lib.decompile (Script.write tokens) = .ok (some (tokens.map Token.element))

/-! ## Section 3: The stack -/

/-- The annex marker is no leaf version. -/
theorem ne_annex_of_leaf {b : UInt8} (h : b &&& 0xfe = TAPROOT_LEAF_VERSION) :
    b ≠ TAPROOT_ANNEX_MARKER := by
  intro heq
  rw [heq] at h
  exact absurd h (by decide)

theorem exists_last_two {α : Type} {l : List α} (h : 2 ≤ l.length) :
    ∃ below a b, l = below ++ [a, b] := by
  obtain hnil | ⟨front, b, rfl⟩ := List.eq_nil_or_concat l
  · rw [hnil] at h
    cases h
  · obtain hnil | ⟨below, a, rfl⟩ := List.eq_nil_or_concat front
    · rw [hnil] at h
      simp at h
    · exact ⟨below, a, b, by simp⟩

theorem envelopeScriptFromWitness_eq_some_iff {witness : List (List UInt8)} {script : List UInt8} :
    envelopeScriptFromWitness witness = some script ↔
      ∃ below controlBlock, witness = below ++ [script, controlBlock] ∧
        IsControlBlock controlBlock ∧ 8 ≤ script.length := by
  constructor
  · intro h
    unfold envelopeScriptFromWitness at h
    by_cases hshort : witness.length < 2
    · rw [if_pos hshort] at h
      cases h
    -- The stack splits into what lies below, the script and the control block.
    obtain ⟨below, item, controlBlock, rfl⟩ := exists_last_two (Nat.le_of_not_lt hshort)
    have htop : (below ++ [item, controlBlock])[(below ++ [item, controlBlock]).length - 1]? =
        some controlBlock := by
      simp
    have hunder : (below ++ [item, controlBlock])[(below ++ [item, controlBlock]).length - 1 - 1]? =
        some item := by
      simp
    simp only [if_neg hshort, htop, hunder] at h
    cases controlBlock with
    | nil => cases h
    | cons b rest =>
      simp only at h
      split_ifs at h with hannex hleaf hlength hscript
      have hitem : item = script := Option.some.inj h
      subst hitem
      refine ⟨below, b :: rest, rfl, ⟨?_, b, rest, rfl, by simpa using hleaf⟩, by omega⟩
      have hlen : 33 ≤ (b :: rest).length ∧ ((b :: rest).length - 33) % 32 = 0 := by omega
      exact ⟨((b :: rest).length - 33) / 32, by omega⟩
  · intro h
    obtain ⟨below, controlBlock, rfl, hcontrol, hscript⟩ := h
    obtain ⟨b, rest, rfl, hleaf⟩ := hcontrol.leaf
    obtain ⟨k, hk⟩ := hcontrol.length
    have htop : (below ++ [script, b :: rest])[(below ++ [script, b :: rest]).length - 1]? =
        some (b :: rest) := by
      simp
    have hunder : (below ++ [script, b :: rest])[(below ++ [script, b :: rest]).length - 1 - 1]? =
        some script := by
      simp
    have hshort : ¬ (below ++ [script, b :: rest]).length < 2 := by
      simp
    have hlength : ¬ ((b :: rest).length < 33 ∨ ((b :: rest).length - 33) % 32 ≠ 0) := by omega
    unfold envelopeScriptFromWitness
    simp only [if_neg hshort, htop, hunder]
    rw [if_neg (ne_annex_of_leaf hleaf), if_neg (by simpa using hleaf), if_neg hlength,
      if_neg (by omega)]

/-! ## Section 4: The script -/

theorem leadingPushes_append {pushes : List (List UInt8)} {code : UInt8} {rest : List Element} :
    leadingPushes (pushes.map .data ++ .opcode code :: rest) = pushes := by
  induction pushes with
  | nil => rfl
  | cons bytes pushes ih => simp [leadingPushes, ih]

/-- What the leading pushes are, and what stops them. -/
theorem leadingPushes_spec (elements : List Element) :
    ∃ rest, elements = (leadingPushes elements).map .data ++ rest ∧
      ∀ bytes, rest[0]? ≠ some (.data bytes) := by
  induction elements with
  | nil => exact ⟨[], rfl, by simp⟩
  | cons e elements ih =>
    cases e with
    | opcode code => exact ⟨.opcode code :: elements, rfl, by simp⟩
    | data bytes =>
      obtain ⟨rest, heq, hstop⟩ := ih
      refine ⟨rest, ?_, hstop⟩
      simp only [leadingPushes, List.map_cons, List.cons_append]
      rw [← heq]

theorem envelopeShape_envelopeElements {pushes : List (List UInt8)} {key : List UInt8}
    (hpushes : pushes ≠ []) (hkey : key.length = 32) :
    envelopeShape (envelopeElements pushes key) = some pushes.flatten := by
  have hpos : 0 < pushes.length := List.length_pos_iff.mpr hpushes
  have hlen : (envelopeElements pushes key).length = 7 + pushes.length := by
    simp [envelopeElements]
    omega
  have hdrop : (envelopeElements pushes key).drop 4 =
      pushes.map .data ++ [.opcode OP_ENDIF, .data key, .opcode OP_CHECKSIG] := by
    simp [envelopeElements]
  have hleading : leadingPushes ((envelopeElements pushes key).drop 4) = pushes := by
    rw [hdrop]
    exact leadingPushes_append
  -- The elements behind the payload, by their position after it.
  have hafter : ∀ j, (envelopeElements pushes key)[4 + pushes.length + j]? =
      [.opcode OP_ENDIF, .data key, .opcode OP_CHECKSIG][j]? := by
    intro j
    have hbefore : (4 + pushes.length) =
        ([Element.opcode OP_0, .opcode OP_IF, .data MAGIC_WORD, .data [0x00]] ++
          pushes.map Element.data).length := by
      simp
      omega
    unfold envelopeElements
    rw [hbefore, List.getElem?_append_right (Nat.le_add_right _ _), Nat.add_sub_cancel_left]
  have h0 := hafter 0
  have h1 := hafter 1
  have h2 := hafter 2
  simp only [Nat.add_zero] at h0
  unfold envelopeShape
  simp only [hleading, hlen, h0, h1, h2]
  rw [if_neg (by omega), if_neg (by simp [envelopeElements]), if_neg (by simp [envelopeElements]),
    if_neg (by simp [envelopeElements]), if_neg (by simp [envelopeElements, isFormatByte]),
    if_neg hpushes, if_neg (by simp), if_neg (by simp [isKeyPush, hkey]), if_neg (by simp),
    if_neg (by omega)]

theorem eq_of_isFormatByte {e : Option Element} (h : isFormatByte e = true) :
    e = some (.data [0x00]) := by
  unfold isFormatByte at h
  split at h
  · rw [decide_eq_true_eq] at h
    rw [h]
  · cases h

theorem exists_of_isKeyPush {e : Option Element} (h : isKeyPush e = true) :
    ∃ key, e = some (.data key) ∧ key.length = 32 := by
  unfold isKeyPush at h
  split at h
  · exact ⟨_, rfl, by simpa using h⟩
  · cases h

/-- The walk accepts the elements of the grammar and no others. -/
theorem envelopeShape_eq_some_iff {elements : List Element} {payload : List UInt8} :
    envelopeShape elements = some payload ↔
      ∃ pushes key, elements = envelopeElements pushes key ∧ pushes ≠ [] ∧ key.length = 32 ∧
        payload = pushes.flatten := by
  constructor
  · intro h
    unfold envelopeShape at h
    simp only at h
    split_ifs at h with hshort h0 h1 h2 h3 hnone hend hkey hcheck hlast
    have hpayload : (leadingPushes (elements.drop 4)).flatten = payload := Option.some.inj h
    obtain ⟨key, hkey, hkeylen⟩ := exists_of_isKeyPush (Bool.eq_true_of_not_eq_false hkey)
    refine ⟨leadingPushes (elements.drop 4), key, ?_, hnone, hkeylen, hpayload.symm⟩
    -- Every element is known by its position: compare the two lists there.
    obtain ⟨rest, hrest, -⟩ := leadingPushes_spec (elements.drop 4)
    have hformat := eq_of_isFormatByte (Bool.eq_true_of_not_eq_false h3)
    have hhead : elements.take 4 = [.opcode OP_0, .opcode OP_IF, .data MAGIC_WORD, .data [0x00]] := by
      match elements, hshort, h0, h1, h2, hformat with
      | a :: b :: c :: d :: more, _, h0, h1, h2, hformat =>
        have ha : a = .opcode OP_0 := Option.some.inj (not_not.mp h0)
        have hb : b = .opcode OP_IF := Option.some.inj (not_not.mp h1)
        have hc : c = .data MAGIC_WORD := Option.some.inj (not_not.mp h2)
        have hd : d = .data [0x00] := Option.some.inj hformat
        rw [ha, hb, hc, hd]
        rfl
    have htail : rest = [.opcode OP_ENDIF, .data key, .opcode OP_CHECKSIG] := by
      have hlen : (elements.drop 4).length = (leadingPushes (elements.drop 4)).length + rest.length := by
        have := congrArg List.length hrest
        simpa using this
      rw [List.length_drop] at hlen
      have hat : ∀ j, elements[4 + (leadingPushes (elements.drop 4)).length + j]? = rest[j]? := by
        intro j
        have hdrop : elements[4 + (leadingPushes (elements.drop 4)).length + j]? =
            (elements.drop 4)[(leadingPushes (elements.drop 4)).length + j]? := by
          rw [List.getElem?_drop, Nat.add_assoc]
        rw [hdrop]
        generalize hpushes : leadingPushes (elements.drop 4) = pushes at hrest ⊢
        rw [hrest]
        have hlength : pushes.length = (pushes.map Element.data).length := by simp
        rw [hlength, List.getElem?_append_right (Nat.le_add_right _ _), Nat.add_sub_cancel_left]
      have hr0 := hat 0
      have hr1 := hat 1
      have hr2 := hat 2
      have hthree : rest.length = 3 := by omega
      match rest, hthree with
      | [a, b, c], _ =>
        have ha : a = .opcode OP_ENDIF := Option.some.inj (hr0.symm.trans (not_not.mp hend))
        have hb : b = .data key := Option.some.inj (hr1.symm.trans hkey)
        have hc : c = .opcode OP_CHECKSIG := Option.some.inj (hr2.symm.trans (not_not.mp hcheck))
        rw [ha, hb, hc]
    calc elements = elements.take 4 ++ elements.drop 4 := (List.take_append_drop 4 elements).symm
      _ = _ := by
        rw [hhead, hrest, htail, leadingPushes_append]
        simp [envelopeElements]
  · intro h
    obtain ⟨pushes, key, rfl, hpushes, hkey, rfl⟩ := h
    exact envelopeShape_envelopeElements hpushes hkey

/-! ## Section 5: Recognition -/

theorem detectEnvelopeWitness_eq_some_iff {lib : Library} {witness : List (List UInt8)}
    {payload : List UInt8} :
    detectEnvelopeWitness lib witness = some payload ↔ IsEnvelope lib witness payload := by
  constructor
  · intro h
    unfold detectEnvelopeWitness at h
    cases hscript : envelopeScriptFromWitness witness with
    | none =>
      rw [hscript] at h
      cases h
    | some script =>
      obtain ⟨below, controlBlock, hwitness, hcontrol, hlen⟩ :=
        envelopeScriptFromWitness_eq_some_iff.mp hscript
      rw [hscript] at h
      simp only [envelopeShapeFromScript] at h
      cases hdecompile : lib.decompile script with
      | error error =>
        rw [hdecompile] at h
        cases h
      | ok decompiled =>
        rw [hdecompile] at h
        have h : decompiled.bind envelopeShape = some payload := h
        obtain ⟨elements, rfl, hshape⟩ := Option.bind_eq_some_iff.mp h
        obtain ⟨pushes, key, rfl, hpushes, hkey, hpayload⟩ := envelopeShape_eq_some_iff.mp hshape
        exact ⟨below, script, controlBlock, pushes, key, hwitness, hcontrol, hlen, hdecompile,
          hpushes, hkey, hpayload⟩
  · intro h
    obtain ⟨below, script, controlBlock, pushes, key, hwitness, hcontrol, hlen, hdecompile, hpushes,
      hkey, rfl⟩ := h
    have hscript := envelopeScriptFromWitness_eq_some_iff.mpr ⟨below, controlBlock, hwitness, hcontrol, hlen⟩
    unfold detectEnvelopeWitness envelopeShapeFromScript
    simp only [hscript, hdecompile]
    exact envelopeShape_envelopeElements hpushes hkey

/-- The script of an envelope reads as its elements, if no push of it is an opcode. -/
theorem decompile_envelopeTokens {lib : Library} (hreads : ReadsScripts lib)
    {magic format keyForm : Push} {pushes : List (Push × List UInt8)} {key : List UInt8}
    (hmagic : magic.Fits 4) (hformat : format.Fits 1) (hkeyForm : keyForm.Fits 32)
    (hkey : key.length = 32) (hfits : ∀ p ∈ pushes, p.1.Fits p.2.length)
    (hdata : ∀ p ∈ pushes, Script.minimalOpcode p.2 = none) :
    lib.decompile (Script.write (envelopeTokens magic format keyForm pushes key)) =
      .ok (some (envelopeElements (pushes.map Prod.snd) key)) := by
  -- the opcodes are no pushes, and every push fits its data
  have hvalid : ∀ t ∈ envelopeTokens magic format keyForm pushes key, t.Valid := by
    intro t ht
    simp only [envelopeTokens, List.mem_append, List.mem_cons, List.not_mem_nil, or_false,
      List.mem_map] at ht
    rcases ht with ((rfl | rfl | rfl | rfl) | ⟨p, hp, rfl⟩) | rfl | rfl | rfl
    · exact (rfl : Push.ofByte OP_0 = none)
    · exact (rfl : Push.ofByte OP_IF = none)
    · exact hmagic
    · exact hformat
    · exact hfits p hp
    · exact (rfl : Push.ofByte OP_ENDIF = none)
    · show keyForm.Fits key.length
      rw [hkey]
      exact hkeyForm
    · exact (rfl : Push.ofByte OP_CHECKSIG = none)
  have hkeyElement : Script.elementOf key = .data key :=
    Script.elementOf_of_minimalOpcode (Script.minimalOpcode_of_length (by omega))
  have hpushes : (pushes.map (fun p => Token.push p.1 p.2)).map Token.element =
      (pushes.map Prod.snd).map .data := by
    rw [List.map_map, List.map_map]
    refine List.map_congr_left (fun p hp => ?_)
    exact Script.elementOf_of_minimalOpcode (hdata p hp)
  rw [hreads _ hvalid]
  unfold envelopeTokens envelopeElements
  rw [List.map_append, List.map_append, hpushes]
  simp only [List.map_cons, List.map_nil, Token.element, hkeyElement]
  rfl

theorem length_write_envelopeTokens (magic format keyForm : Push)
    (pushes : List (Push × List UInt8)) (key : List UInt8) :
    8 ≤ (Script.write (envelopeTokens magic format keyForm pushes key)).length := by
  simp only [envelopeTokens, Script.write, List.flatMap_append, List.flatMap_cons, List.length_append,
    Token.bytes, MAGIC_WORD, Push.head, List.length_cons, List.length_nil]
  omega

/-- **The recognizer accepts exactly its grammar.** A stack is recognized with a payload
    if and only if it is an envelope of that payload; an error of the library is no
    recognition. So a payload that is split into pushes in any way, none of them read as
    an opcode, comes back from the envelope built of them. -/
theorem envelope_recognized_exactly (lib : Library) :
    (∀ witness payload,
      detectEnvelopeWitness lib witness = some payload ↔ IsEnvelope lib witness payload) ∧
    (ReadsScripts lib → ∀ (below : List (List UInt8)) (controlBlock : List UInt8)
      (magic format keyForm : Push) (pushes : List (Push × List UInt8)) (key payload : List UInt8),
      IsControlBlock controlBlock → magic.Fits 4 → format.Fits 1 → keyForm.Fits 32 →
      key.length = 32 → (∀ p ∈ pushes, p.1.Fits p.2.length) →
      (∀ p ∈ pushes, Script.minimalOpcode p.2 = none) →
      payload ≠ [] → (pushes.map Prod.snd).flatten = payload →
      detectEnvelopeWitness lib
        (below ++ [Script.write (envelopeTokens magic format keyForm pushes key), controlBlock]) =
          some payload) := by
  constructor
  · exact fun _ _ => detectEnvelopeWitness_eq_some_iff
  · intro hreads below controlBlock magic format keyForm pushes key payload hcontrol hmagic hformat
      hkeyForm hkey hfits hdata hpayload hsplit
    refine detectEnvelopeWitness_eq_some_iff.mpr ⟨below, _, controlBlock, pushes.map Prod.snd, key,
      rfl, hcontrol, length_write_envelopeTokens .., ?_, ?_, hkey, hsplit.symm⟩
    · exact decompile_envelopeTokens hreads hmagic hformat hkeyForm hkey hfits hdata
    · intro hnil
      rw [hnil] at hsplit
      exact hpayload hsplit.symm

namespace Sample

/-- A library that reads scripts; nothing has an address and nothing is enciphered. -/
def library : Library where
  decompile script          := .ok (Script.decompile script)
  looseNumber _             := none
  fromOutputScript _        := none
  decipher _ data           := .bytes data
  transactionFromHex _      := .error "not a transaction"

theorem library_readsScripts : ReadsScripts library := by
  intro tokens hvalid
  show Except.ok (Script.decompile (Script.write tokens)) = _
  rw [Script.decompile_write hvalid]

def controlBlock : List UInt8 := 0xc1 :: List.replicate 32 7

/-- A payload in two pushes, the second in a longer form than it needs. -/
theorem envelope_recognized :
    detectEnvelopeWitness library
      ([[9]] ++ [Script.write (envelopeTokens .direct .direct .direct
        [(.direct, [0x41, 0x42]), (.pushData2, [0x43])] (List.replicate 32 5)), controlBlock]) =
      some [0x41, 0x42, 0x43] :=
  (envelope_recognized_exactly library).2 library_readsScripts [[9]] controlBlock .direct .direct
    .direct [(.direct, [0x41, 0x42]), (.pushData2, [0x43])] (List.replicate 32 5) [0x41, 0x42, 0x43]
    ⟨⟨0, rfl⟩, ⟨0xc1, List.replicate 32 7, rfl, by decide⟩⟩ (by decide) (by decide) (by decide) rfl
    (by decide) (by decide) (by decide) rfl

end Sample

end XChainDecoder.Parse
