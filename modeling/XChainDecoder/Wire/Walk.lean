import XChainDecoder.Wire.Reader

/-! # Walking what was written

    Three facts about each reader. On what was written it answers the value and the
    offset behind it (`_at`). On any buffer it reads nothing past the end and what it
    answers ends inside the buffer (`Within`). On a longer buffer it answers what it
    answered on the shorter one (`Extends`), so a reader that ends inside a truncated
    buffer ends there in the whole one. -/

namespace XChainDecoder.Wire

open Bytes

variable {α β : Type} {buf : Buffer} {offset : ℕ} {rest : List UInt8}

/-! ## Section 1: On what was written -/

theorem Buffer.byteAt_at {b : UInt8} (h : At buf.bytes offset (b :: rest)) :
    buf.byteAt offset = .ok b := by
  have hget : buf.bytes[offset]? = some b := by
    rw [← List.head?_drop, h.2, List.head?_cons]
  rw [byteAt, hget]

theorem Buffer.readUIntLE_at {enc : List UInt8} {width : ℕ} (h : At buf.bytes offset (enc ++ rest))
    (hwidth : enc.length = width) : buf.readUIntLE offset width = .ok (leNat enc) := by
  have hlen := h.length
  rw [List.length_append] at hlen
  subst hwidth
  rw [readUIntLE, if_pos (by rw [Buffer.length]; omega), h.take]

theorem Buffer.readUInt32LE_at {n : UInt32} (h : At buf.bytes offset (uint32Bytes n ++ rest)) :
    buf.readUInt32LE offset = .ok n := by
  rw [readUInt32LE, readUIntLE_at h (length_uint32Bytes n), uint32Bytes,
    leNat_leBytes 4 n.toNat_lt]
  show Except.ok (UInt32.ofNat n.toNat) = _
  rw [UInt32.ofNat_toNat]

theorem Buffer.readBigUInt64LE_at {n : UInt64}
    (h : At buf.bytes offset (leBytes 8 n.toNat ++ rest)) :
    buf.readBigUInt64LE offset = .ok n := by
  rw [readBigUInt64LE, readUIntLE_at h (length_leBytes ..), leNat_leBytes 8 n.toNat_lt]
  show Except.ok (UInt64.ofNat n.toNat) = _
  rw [UInt64.ofNat_toNat]

theorem Buffer.subarray_at {enc : List UInt8} (h : At buf.bytes offset (enc ++ rest)) :
    buf.subarray offset (offset + enc.length) = .ok enc := by
  have hlen := h.length
  rw [List.length_append] at hlen
  rw [subarray, if_pos (by rw [Buffer.length]; omega), Nat.add_sub_cancel_left, h.take]

/-- What is behind a position of a buffer is no longer than a safe integer. -/
theorem Buffer.at_safe {enc : List UInt8} (h : At buf.bytes offset (enc ++ rest)) :
    enc.length ≤ MAX_SAFE_INTEGER := by
  have hlen := h.length
  have hsafe := buf.safe
  rw [List.length_append] at hlen
  omega

theorem skipMwebBytes_at {enc : List UInt8} {count : ℕ} (what : String)
    (h : At buf.bytes offset (enc ++ rest)) (hcount : enc.length = count) :
    skipMwebBytes buf offset count what = .ok (offset + count) := by
  have hlen := h.length
  rw [List.length_append] at hlen
  rw [skipMwebBytes, if_neg (by rw [Buffer.length]; omega)]

theorem readMwebCompactSize_at {n : ℕ} (what : String)
    (h : At buf.bytes offset (compactSize n ++ rest)) (hn : n ≤ MAX_SAFE_INTEGER) :
    readMwebCompactSize buf offset what = .ok ⟨n, offset + (compactSize n).length⟩ := by
  have hlen := h.length
  have hpos := length_compactSize_pos n
  rw [List.length_append] at hlen
  have hbound : n ≤ 2 ^ 53 - 1 := hn
  rw [readMwebCompactSize, if_neg (by rw [Buffer.length]; omega)]
  unfold compactSize at h ⊢
  split_ifs at h ⊢ with h₁ h₂ h₃
  · -- the byte is the value
    have hbyte : (UInt8.ofNat n).toNat = n := by
      rw [UInt8.toNat_ofNat']
      omega
    have hlt : UInt8.ofNat n < 0xFD := by
      rw [UInt8.lt_iff_toNat_lt, hbyte]
      exact h₁
    rw [Buffer.byteAt_at h]
    simp only [bind, Except.bind, pure, Except.pure, if_pos hlt, hbyte, List.length_singleton]
  -- two, four and eight bytes behind a prefix
  · have htail : At buf.bytes (offset + 1) (leBytes 2 n ++ rest) := @At.advance _ _ [0xFD] _ h
    rw [Buffer.byteAt_at h]
    simp only [bind, Except.bind, pure, Except.pure]
    rw [if_neg (by decide), if_pos trivial, skipMwebBytes_at what htail (length_leBytes ..)]
    simp only [if_pos, Buffer.readUInt16LE, Buffer.readUIntLE_at htail (length_leBytes ..),
      leNat_leBytes 2 h₂, List.length_cons, length_leBytes]
  · have htail : At buf.bytes (offset + 1) (leBytes 4 n ++ rest) := @At.advance _ _ [0xFE] _ h
    have hvalue : (UInt32.ofNat n).toNat = n := by
      rw [UInt32.toNat_ofNat']
      omega
    rw [Buffer.byteAt_at h]
    simp only [bind, Except.bind, pure, Except.pure]
    rw [if_neg (by decide), if_neg (by decide), if_pos trivial,
      skipMwebBytes_at what htail (length_leBytes ..)]
    simp only [Buffer.readUInt32LE, Buffer.readUIntLE_at htail (length_leBytes ..),
      leNat_leBytes 4 h₃, List.length_cons, length_leBytes, Except.map, hvalue, Nat.add_assoc]
    rfl
  · have htail : At buf.bytes (offset + 1) (leBytes 8 n ++ rest) := @At.advance _ _ [0xFF] _ h
    have hvalue : (UInt64.ofNat n).toNat = n := by
      rw [UInt64.toNat_ofNat']
      omega
    rw [Buffer.byteAt_at h]
    simp only [bind, Except.bind, pure, Except.pure]
    rw [if_neg (by decide), if_neg (by decide), if_neg (by decide),
      skipMwebBytes_at what htail (length_leBytes ..)]
    have hwide : leNat (leBytes 8 n) = n := leNat_leBytes 8 (by omega)
    simp only [Buffer.readBigUInt64LE, Buffer.readUIntLE_at htail (length_leBytes ..), hwide,
      List.length_cons, length_leBytes, Except.map, hvalue, Nat.add_assoc]
    rw [if_neg (by decide), if_neg (by decide), if_neg (by omega)]

theorem skipMwebVarBytes_at {bs : List UInt8} (what : String)
    (h : At buf.bytes offset (varBytes bs ++ rest)) :
    skipMwebVarBytes buf offset what = .ok (offset + (varBytes bs).length) := by
  simp only [varBytes, List.append_assoc] at h
  have hbs := Buffer.at_safe h.advance
  rw [skipMwebVarBytes, readMwebCompactSize_at what h hbs]
  simp only [bind, Except.bind]
  rw [skipMwebBytes_at what h.advance rfl, varBytes, List.length_append, Nat.add_assoc]

/-- A loop that steps over one element each time steps over all of them. -/
theorem repeatFrom_at {enc : α → List UInt8} {step : ℕ → Except Thrown ℕ} {l : List α}
    (hstep : ∀ a offset rest, At buf.bytes offset (enc a ++ rest) →
      step offset = .ok (offset + (enc a).length))
    (h : At buf.bytes offset (l.flatMap enc ++ rest)) :
    repeatFrom step l.length offset = .ok (offset + (l.flatMap enc).length) := by
  induction l generalizing offset with
  | nil => rfl
  | cons a l ih =>
    simp only [List.flatMap_cons, List.append_assoc] at h
    simp only [List.length_cons, repeatFrom, hstep a offset _ h]
    show repeatFrom step l.length (offset + (enc a).length) = _
    rw [ih h.advance, List.flatMap_cons, List.length_append, Nat.add_assoc]

/-- So a count and a loop over what it counts step over a counted list. -/
theorem countedFrom_at {enc : α → List UInt8} {step : ℕ → Except Thrown ℕ} {l : List α}
    (what : String) (hpos : ∀ a ∈ l, 1 ≤ (enc a).length)
    (hstep : ∀ a offset rest, At buf.bytes offset (enc a ++ rest) →
      step offset = .ok (offset + (enc a).length))
    (h : At buf.bytes offset (counted enc l ++ rest)) :
    readMwebCompactSize buf offset what =
        .ok ⟨l.length, offset + (compactSize l.length).length⟩ ∧
      repeatFrom step l.length (offset + (compactSize l.length).length) =
        .ok (offset + (counted enc l).length) := by
  simp only [counted, List.append_assoc] at h
  have hsafe := Buffer.at_safe h.advance
  have hcount := mul_length_le_flatMap hpos
  refine ⟨readMwebCompactSize_at what h (by omega), ?_⟩
  rw [repeatFrom_at hstep h.advance, counted, List.length_append, Nat.add_assoc]

theorem TxIn.length_bytes_pos (i : TxIn) : 1 ≤ i.bytes.length := by
  simp only [TxIn.bytes, List.length_append, length_prevout]
  omega

theorem TxOut.length_bytes_pos (o : TxOut) : 1 ≤ o.bytes.length := by
  simp only [TxOut.bytes, List.length_append, length_leBytes]
  omega

theorem length_varBytes_pos (bs : List UInt8) : 1 ≤ (varBytes bs).length := by
  have := length_compactSize_pos bs.length
  rw [varBytes, List.length_append]
  omega

theorem skipMwebIn_at (i : TxIn) (offset : ℕ) (rest : List UInt8)
    (h : At buf.bytes offset (i.bytes ++ rest)) :
    skipMwebIn buf offset = .ok (offset + i.bytes.length) := by
  simp only [TxIn.bytes, List.append_assoc] at h
  have hscript := h.advance
  rw [TxIn.length_prevout] at hscript
  rw [skipMwebIn, skipMwebBytes_at _ h (TxIn.length_prevout i)]
  simp only [bind, Except.bind]
  rw [skipMwebVarBytes_at _ hscript]
  simp only []
  rw [skipMwebBytes_at _ hscript.advance (length_uint32Bytes _)]
  simp only [TxIn.bytes, List.length_append, TxIn.length_prevout, length_uint32Bytes,
    Nat.add_assoc]

theorem skipMwebOut_at (o : TxOut) (offset : ℕ) (rest : List UInt8)
    (h : At buf.bytes offset (o.bytes ++ rest)) :
    skipMwebOut buf offset = .ok (offset + o.bytes.length) := by
  simp only [TxOut.bytes, List.append_assoc] at h
  have hscript := h.advance
  rw [length_leBytes] at hscript
  rw [skipMwebOut, skipMwebBytes_at _ h (length_leBytes ..)]
  simp only [bind, Except.bind]
  rw [skipMwebVarBytes_at _ hscript]
  simp only [TxOut.bytes, List.length_append, length_leBytes, Nat.add_assoc]

theorem skipMwebStack_at (i : TxIn) (offset : ℕ) (rest : List UInt8)
    (h : At buf.bytes offset (i.witnessBytes ++ rest)) :
    skipMwebStack buf offset = .ok (offset + i.witnessBytes.length) := by
  rcases countedFrom_at "witness item count" (fun bs _ => length_varBytes_pos bs)
    (fun bs offset rest hbs => skipMwebVarBytes_at "witness item" hbs) h with ⟨hcount, hitems⟩
  rw [skipMwebStack, hcount]
  exact hitems

theorem skipMwebInsAndOuts_at (t : Transaction)
    (h : At buf.bytes offset (t.vin ++ (t.vout ++ rest))) :
    skipMwebInsAndOuts buf offset =
      .ok ⟨offset + t.vin.length + t.vout.length, offset + t.vin.length, t.ins.length⟩ := by
  rcases countedFrom_at "input count" (fun i _ => TxIn.length_bytes_pos i) skipMwebIn_at h
    with ⟨hinsCount, hins⟩
  rcases countedFrom_at "output count" (fun o _ => TxOut.length_bytes_pos o) skipMwebOut_at
    h.advance with ⟨houtsCount, houts⟩
  simp only [skipMwebInsAndOuts, bind, Except.bind, pure, Except.pure, hinsCount, hins]
  rw [← Transaction.vin, houtsCount]
  simp only [houts]
  rfl

theorem skipMwebWitness_at (t : Transaction) (hwitness : t.hasWitnesses = true)
    (h : At buf.bytes offset (t.witnesses ++ rest)) :
    skipMwebWitness buf offset t.ins.length = .ok (offset + t.witnesses.length) := by
  rw [Transaction.witnesses, if_pos hwitness] at h ⊢
  exact repeatFrom_at skipMwebStack_at h

theorem readMwebOuts_at (l : List TxOut) (h : At buf.bytes offset (l.flatMap TxOut.bytes ++ rest)) :
    readMwebOuts buf l.length offset = .ok l := by
  induction l generalizing offset with
  | nil => rfl
  | cons o l ih =>
    simp only [List.flatMap_cons, TxOut.bytes, varBytes, List.append_assoc] at h
    have hscript := h.advance
    rw [length_leBytes] at hscript
    have hsafe := Buffer.at_safe hscript.advance
    simp only [List.length_cons, readMwebOuts, bind, Except.bind, pure, Except.pure,
      Buffer.readBigUInt64LE_at h, readMwebCompactSize_at "output script" hscript hsafe,
      Buffer.subarray_at hscript.advance, ih hscript.advance.advance]

/-! ## Section 2: On any buffer -/

/-- A sequence that answers had its first half answer. -/
theorem bind_eq_ok {ε : Type} {m : Except ε α} {f : α → Except ε β} {b : β}
    (h : m >>= f = .ok b) : ∃ a, m = .ok a ∧ f a = .ok b := by
  cases m with
  | error e => cases h
  | ok a => exact ⟨a, rfl, h⟩

/-- Nothing is read past the end, and what is answered ends between `offset` and
    `length`. -/
def Within (length offset : ℕ) (endOf : α → ℕ) : Except Thrown α → Prop
  | .ok a    => offset ≤ endOf a ∧ endOf a ≤ length
  | .error e => e.readsPastEnd = false

theorem Within.bind {length offset : ℕ} {endOf : α → ℕ} {endOf' : β → ℕ} {m : Except Thrown α}
    {f : α → Except Thrown β} (hm : Within length offset endOf m)
    (hf : ∀ a, m = .ok a → offset ≤ endOf a → endOf a ≤ length →
      Within length (endOf a) endOf' (f a)) : Within length offset endOf' (m >>= f) := by
  cases m with
  | error e => exact hm
  | ok a =>
    have hnext := hf a rfl hm.1 hm.2
    show Within length offset endOf' (f a)
    cases hfa : f a with
    | error e =>
      rw [hfa] at hnext
      exact hnext
    | ok b =>
      rw [hfa] at hnext
      exact ⟨hm.1.trans hnext.1, hnext.2⟩

theorem Within.mono {length offset offset' : ℕ} {endOf : α → ℕ} {m : Except Thrown α}
    (h : Within length offset endOf m) (hle : offset' ≤ offset) : Within length offset' endOf m := by
  cases m with
  | error e => exact h
  | ok a => exact ⟨hle.trans h.1, h.2⟩

theorem Buffer.byteAt_of_lt (h : offset < buf.length) : ∃ b, buf.byteAt offset = .ok b := by
  have hget := List.getElem?_eq_getElem h
  rw [byteAt, hget]
  exact ⟨_, rfl⟩

theorem Buffer.readUIntLE_of_le {width : ℕ} (h : offset + width ≤ buf.length) :
    buf.readUIntLE offset width = .ok (leNat ((buf.bytes.drop offset).take width)) :=
  if_pos h

theorem skipMwebBytes_within (count : ℕ) (what : String) :
    Within buf.length offset id (skipMwebBytes buf offset count what) := by
  unfold skipMwebBytes
  by_cases hshort : (count : ℤ) > buf.length - offset
  · rw [if_pos hshort]
    rfl
  · rw [if_neg hshort]
    show offset ≤ offset + count ∧ offset + count ≤ buf.length
    omega

theorem skipMwebBytes_eq_ok {count stop : ℕ} {what : String}
    (h : skipMwebBytes buf offset count what = .ok stop) :
    stop = offset + count ∧ offset + count ≤ buf.length := by
  unfold skipMwebBytes at h
  by_cases hshort : (count : ℤ) > buf.length - offset
  · rw [if_pos hshort] at h
    simp at h
  · rw [if_neg hshort] at h
    simp only [Except.ok.injEq] at h
    omega

theorem readMwebCompactSize_within (what : String) :
    Within buf.length offset CompactSize.endOffset (readMwebCompactSize buf offset what) := by
  unfold readMwebCompactSize
  by_cases hend : offset ≥ buf.length
  · rw [if_pos hend]
    rfl
  · rcases Buffer.byteAt_of_lt (show offset < buf.length by omega) with ⟨first, hfirst⟩
    rw [if_neg hend, hfirst]
    simp only [bind, Except.bind, pure, Except.pure]
    by_cases hone : first < 0xFD
    · rw [if_pos hone]
      show offset ≤ offset + 1 ∧ offset + 1 ≤ buf.length
      omega
    · rw [if_neg hone]
      have hwidth : (if first = 0xFD then 2 else if first = 0xFE then 4 else 8) = 2 ∨
          (if first = 0xFD then 2 else if first = 0xFE then 4 else 8) = 4 ∨
          (if first = 0xFD then 2 else if first = 0xFE then 4 else 8) = 8 := by
        split_ifs <;> simp
      -- the first byte says how wide the number is
      generalize (if first = 0xFD then 2 else if first = 0xFE then 4 else 8) = width at hwidth ⊢
      have hskip := @skipMwebBytes_within buf (offset + 1) width what
      cases hstop : skipMwebBytes buf (offset + 1) width what with
      | error e =>
        rw [hstop] at hskip
        exact hskip
      | ok stop =>
        rcases skipMwebBytes_eq_ok hstop with ⟨rfl, hle⟩
        have hin : offset ≤ offset + 1 + width ∧ offset + 1 + width ≤ buf.length := by omega
        rcases hwidth with rfl | rfl | rfl
        · simp only [Buffer.readUInt16LE, Buffer.readUIntLE_of_le hle]
          exact hin
        · simp only [Buffer.readUInt32LE, Buffer.readUIntLE_of_le hle, Except.map]
          exact hin
        · simp only [Buffer.readBigUInt64LE, Buffer.readUIntLE_of_le hle, Except.map]
          by_cases hbig : (UInt64.ofNat (leNat ((buf.bytes.drop (offset + 1)).take 8))).toNat >
              MAX_SAFE_INTEGER
          · simp only [if_pos hbig]
            rfl
          · simp only [if_neg hbig]
            exact hin

theorem skipMwebVarBytes_within (what : String) :
    Within buf.length offset id (skipMwebVarBytes buf offset what) := by
  apply Within.bind (readMwebCompactSize_within what)
  intro length hlength hle hin
  exact skipMwebBytes_within length.value what

theorem repeatFrom_within {step : ℕ → Except Thrown ℕ} {n : ℕ}
    (hstep : ∀ offset, Within buf.length offset id (step offset))
    (h : offset ≤ buf.length) : Within buf.length offset id (repeatFrom step n offset) := by
  induction n generalizing offset with
  | zero => exact ⟨Nat.le_refl _, h⟩
  | succ n ih =>
    apply Within.bind (hstep offset)
    intro offset' hoffset' hle hin
    exact ih hin

theorem skipMwebIn_within : Within buf.length offset id (skipMwebIn buf offset) := by
  apply Within.bind (skipMwebBytes_within 36 _)
  intro script hscript hle hin
  apply Within.bind (skipMwebVarBytes_within _)
  intro sequence hsequence hle' hin'
  exact skipMwebBytes_within 4 _

theorem skipMwebOut_within : Within buf.length offset id (skipMwebOut buf offset) := by
  apply Within.bind (skipMwebBytes_within 8 _)
  intro script hscript hle hin
  exact skipMwebVarBytes_within _

theorem skipMwebStack_within : Within buf.length offset id (skipMwebStack buf offset) := by
  apply Within.bind (readMwebCompactSize_within _)
  intro items hitems hle hin
  exact repeatFrom_within (fun _ => skipMwebVarBytes_within _) hin

theorem skipMwebWitness_within {nIns : ℕ} (h : offset ≤ buf.length) :
    Within buf.length offset id (skipMwebWitness buf offset nIns) :=
  repeatFrom_within (fun _ => skipMwebStack_within) h

theorem skipMwebInsAndOuts_within :
    Within buf.length offset InsAndOuts.endOffset (skipMwebInsAndOuts buf offset) := by
  apply Within.bind (readMwebCompactSize_within _)
  intro ins hins hle hin
  apply Within.bind (repeatFrom_within (fun _ => skipMwebIn_within) hin)
  intro outsStart houtsStart hle' hin'
  apply Within.bind (readMwebCompactSize_within _)
  intro outs houts hle'' hin''
  apply Within.bind (repeatFrom_within (fun _ => skipMwebOut_within) hin'')
  intro stop hstop hle''' hin'''
  exact ⟨Nat.le_refl _, hin'''⟩

/-! ## Section 3: On a longer buffer -/

/-- What the first answers, the second answers too. -/
def Extends (r r' : Except Thrown α) : Prop := ∀ a, r = .ok a → r' = .ok a

theorem Extends.refl (r : Except Thrown α) : Extends r r := fun _ h => h

theorem Extends.error {e : Thrown} {r : Except Thrown α} : Extends (.error e) r := by
  intro a h
  cases h

theorem Extends.bind {m m' : Except Thrown α} {f f' : α → Except Thrown β} (hm : Extends m m')
    (hf : ∀ a, m = .ok a → Extends (f a) (f' a)) : Extends (m >>= f) (m' >>= f') := by
  cases m with
  | error e => exact .error
  | ok a =>
    rw [hm a rfl]
    exact hf a rfl

theorem Extends.map {m m' : Except Thrown α} {f : α → β} (hm : Extends m m') :
    Extends (m.map f) (m'.map f) := by
  cases m with
  | error e => exact .error
  | ok a =>
    rw [hm a rfl]
    exact .refl _

/-- `buf'` is `buf` and more. -/
def Buffer.IsPrefix (buf buf' : Buffer) : Prop := buf.bytes <+: buf'.bytes

variable {buf' : Buffer}

theorem Buffer.IsPrefix.length_le (h : buf.IsPrefix buf') : buf.length ≤ buf'.length :=
  List.IsPrefix.length_le h

theorem Buffer.byteAt_extends (h : buf.IsPrefix buf') (offset : ℕ) :
    Extends (buf.byteAt offset) (buf'.byteAt offset) := by
  intro b hb
  unfold byteAt at hb ⊢
  cases hget : buf.bytes[offset]? with
  | none =>
    rw [hget] at hb
    simp at hb
  | some c =>
    rw [hget] at hb
    rcases h with ⟨more, hmore⟩
    rcases List.getElem?_eq_some_iff.mp hget with ⟨hlt, hc⟩
    have hget' : buf'.bytes[offset]? = some c := by
      rw [← hmore, List.getElem?_append_left hlt, hget]
    rw [hget']
    exact hb

theorem Buffer.readUIntLE_extends (h : buf.IsPrefix buf') (offset width : ℕ) :
    Extends (buf.readUIntLE offset width) (buf'.readUIntLE offset width) := by
  unfold readUIntLE
  by_cases hin : offset + width ≤ buf.length
  · have hlong := h.length_le
    rcases h with ⟨more, hmore⟩
    rw [if_pos hin, if_pos (by omega), ← hmore]
    have hdrop : offset ≤ buf.bytes.length := by
      rw [Buffer.length] at hin
      omega
    rw [List.drop_append_of_le_length hdrop, List.take_append_of_le_length]
    · exact .refl _
    · rw [List.length_drop]
      rw [Buffer.length] at hin
      omega
  · rw [if_neg hin]
    exact .error

theorem skipMwebBytes_extends (h : buf.IsPrefix buf') (offset count : ℕ) (what : String) :
    Extends (skipMwebBytes buf offset count what) (skipMwebBytes buf' offset count what) := by
  unfold skipMwebBytes
  by_cases hshort : (count : ℤ) > buf.length - offset
  · rw [if_pos hshort]
    exact .error
  · have := h.length_le
    rw [if_neg hshort, if_neg (by omega)]
    exact .refl _

theorem readMwebCompactSize_extends (h : buf.IsPrefix buf') (offset : ℕ) (what : String) :
    Extends (readMwebCompactSize buf offset what) (readMwebCompactSize buf' offset what) := by
  unfold readMwebCompactSize
  by_cases hend : offset ≥ buf.length
  · rw [if_pos hend]
    exact .error
  · have := h.length_le
    rw [if_neg hend, if_neg (by omega)]
    apply Extends.bind (Buffer.byteAt_extends h offset)
    intro first hfirst
    by_cases hone : first < 0xFD
    · rw [if_pos hone, if_pos hone]
      exact .refl _
    · rw [if_neg hone, if_neg hone]
      simp only []
      generalize (if first = 0xFD then 2 else if first = 0xFE then 4 else 8) = width
      apply Extends.bind (skipMwebBytes_extends h _ _ _)
      intro stop hstop
      split_ifs
      · apply Extends.bind (Buffer.readUIntLE_extends h _ _)
        intro value hvalue
        exact .refl _
      · apply Extends.bind (Extends.map (Buffer.readUIntLE_extends h _ _))
        intro value hvalue
        exact .refl _
      · apply Extends.bind (Extends.map (Buffer.readUIntLE_extends h _ _))
        intro value hvalue
        exact .refl _

theorem skipMwebVarBytes_extends (h : buf.IsPrefix buf') (offset : ℕ) (what : String) :
    Extends (skipMwebVarBytes buf offset what) (skipMwebVarBytes buf' offset what) := by
  apply Extends.bind (readMwebCompactSize_extends h _ _)
  intro length hlength
  exact skipMwebBytes_extends h _ _ _

theorem repeatFrom_extends {step step' : ℕ → Except Thrown ℕ}
    (hstep : ∀ offset, Extends (step offset) (step' offset)) (n offset : ℕ) :
    Extends (repeatFrom step n offset) (repeatFrom step' n offset) := by
  induction n generalizing offset with
  | zero => exact .refl _
  | succ n ih =>
    apply Extends.bind (hstep offset)
    intro offset' hoffset'
    exact ih offset'

theorem skipMwebIn_extends (h : buf.IsPrefix buf') (offset : ℕ) :
    Extends (skipMwebIn buf offset) (skipMwebIn buf' offset) := by
  apply Extends.bind (skipMwebBytes_extends h _ _ _)
  intro script hscript
  apply Extends.bind (skipMwebVarBytes_extends h _ _)
  intro sequence hsequence
  exact skipMwebBytes_extends h _ _ _

theorem skipMwebOut_extends (h : buf.IsPrefix buf') (offset : ℕ) :
    Extends (skipMwebOut buf offset) (skipMwebOut buf' offset) := by
  apply Extends.bind (skipMwebBytes_extends h _ _ _)
  intro script hscript
  exact skipMwebVarBytes_extends h _ _

theorem skipMwebStack_extends (h : buf.IsPrefix buf') (offset : ℕ) :
    Extends (skipMwebStack buf offset) (skipMwebStack buf' offset) := by
  apply Extends.bind (readMwebCompactSize_extends h _ _)
  intro items hitems
  exact repeatFrom_extends (fun offset => skipMwebVarBytes_extends h offset _) _ _

theorem skipMwebWitness_extends (h : buf.IsPrefix buf') (offset nIns : ℕ) :
    Extends (skipMwebWitness buf offset nIns) (skipMwebWitness buf' offset nIns) :=
  repeatFrom_extends (skipMwebStack_extends h) _ _

theorem skipMwebInsAndOuts_extends (h : buf.IsPrefix buf') (offset : ℕ) :
    Extends (skipMwebInsAndOuts buf offset) (skipMwebInsAndOuts buf' offset) := by
  apply Extends.bind (readMwebCompactSize_extends h _ _)
  intro ins hins
  apply Extends.bind (repeatFrom_extends (skipMwebIn_extends h) _ _)
  intro outsStart houtsStart
  apply Extends.bind (readMwebCompactSize_extends h _ _)
  intro outs houts
  apply Extends.bind (repeatFrom_extends (skipMwebOut_extends h) _ _)
  intro stop hstop
  exact .refl _

end XChainDecoder.Wire
