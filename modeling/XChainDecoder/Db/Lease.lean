import Mathlib.Data.List.Nodup
import XChainDecoder.Lib.Runs

/-! # Connection leases

    The block loop holds one pooled connection from `beginTransaction` to
    `commitTransaction` or `endTransaction`, in the field `transactionConnection` of
    the database object. A health probe on the same object asks `getConnection`,
    which answers that connection while there is one and draws from the pool
    otherwise. Whether the probe has to release what it got it decides afterwards, by
    looking at the field again (`readReorgHaltState`).

    Both parties run between awaits without interruption, so a state is what holds
    at an await: the field, the lock, where each party waits, and a record of what
    was acquired and released. An action is a call of one of the functions, or the
    settling of what a party awaits.

    Main results: `disciplined_of_sampled` (in every run in which the field is null
    where the probe looks at it if and only if it was null where the probe asked,
    leases are kept in every state) and `undisciplined_of_missampled` (behind any
    other look the probe breaks the discipline on its own). -/

namespace XChainDecoder

/-! ## Section 1: States -/

inductive Party where
  | loop
  | probe
deriving DecidableEq, Repr

/-- What the block loop awaits. Connections are numbered as they are acquired. -/
inductive LoopAwait where
  | idle
  /-- behind another holder of the transaction lock -/
  | queued
  | locked
  /-- the rollback of a stale connection, and its release -/
  | discarding
  | discardReleasing (c : ℕ)
  | connecting
  | connected (c : ℕ)
  | beginning
  | beginReleasing (c : ℕ)
  | committing
  | commitReleasing (c : ℕ)
  | rollingBack
  | endReleasing (c : ℕ)
deriving DecidableEq, Repr

/-- What the probe awaits. -/
inductive ProbeAwait where
  | idle
  | connecting
  /-- `getConnection` has answered `c`; `shared` where it was the transaction
      connection at the call -/
  | resuming (c : ℕ) (shared : Bool)
  | querying (c : ℕ) (ownLease : Bool)
  | releasing (c : ℕ)
deriving DecidableEq, Repr

structure Leases where
  /-- newest first -/
  acquired              : List (ℕ × Party)
  /-- releases that were fulfilled -/
  released              : List (ℕ × Party)
  /-- connections a release of which was rejected -/
  broken                : List ℕ
  transactionConnection : Option ℕ
  transactionLock       : Bool
  loop                  : LoopAwait
  probe                 : ProbeAwait
deriving DecidableEq, Repr

namespace Leases

def init : Leases := ⟨[], [], [], none, false, .idle, .idle⟩

/-- The pool hands out a connection. -/
def acquire (s : Leases) (p : Party) : Leases :=
  { s with acquired := (s.acquired.length, p) :: s.acquired }

/-- A release settles: the connection is back in the pool, or it is dead. -/
def release (s : Leases) (c : ℕ) (p : Party) (fulfilled : Bool) : Leases :=
  if fulfilled then { s with released := (c, p) :: s.released }
  else { s with broken := c :: s.broken }

/-! ## Section 2: The block loop -/

/-- Nobody else takes the lock, so nobody is queued where the loop releases it. -/
def releaseTransactionLock (s : Leases) : Leases := { s with transactionLock := false }

def acquireTransactionLock (s : Leases) : Leases :=
  if s.transactionLock then { s with loop := .queued }
  else { s with transactionLock := true, loop := .locked }

/-- `getConnection`, as the loop calls it. -/
def loopGetConnection (s : Leases) : Leases :=
  match s.transactionConnection with
  | some c => { s with loop := .connected c }
  | none   => { s with loop := .connecting }

/-- `releaseTransactionConnectionQuietly` up to its await, or what follows it where
    there is nothing to release. -/
def releaseQuietly (s : Leases) (await : ℕ → LoopAwait) (done : Leases → Leases) : Leases :=
  match s.transactionConnection with
  | some c => { s with loop := await c }
  | none   => done s

/-- The lock is given back and the call ends. -/
def finish (s : Leases) : Leases := { s.releaseTransactionLock with loop := .idle }

def endTransaction (s : Leases) : Leases :=
  match s.transactionConnection with
  | some _ => { s with loop := .rollingBack }
  | none   => s.releaseQuietly .endReleasing finish

def commitTransaction (s : Leases) : Leases :=
  match s.transactionConnection with
  | some _ => { s with loop := .committing }
  | none   => s

/-- What the loop does once what it awaits is fulfilled or rejected. -/
def loopSettles (s : Leases) (fulfilled : Bool) : Option Leases :=
  match s.loop with
  | .idle   => none
  | .queued => none
  | .locked =>
    match s.transactionConnection with
    | some _ => some { s with loop := .discarding }
    | none   => some s.loopGetConnection
  | .discarding => some (s.releaseQuietly .discardReleasing loopGetConnection)
  | .discardReleasing c =>
    some { s.release c .loop fulfilled with transactionConnection := none }.loopGetConnection
  | .connecting =>
    if fulfilled then some { s.acquire .loop with loop := .connected s.acquired.length }
    else some (s.releaseQuietly .beginReleasing finish)
  | .connected c => some { s with transactionConnection := some c, loop := .beginning }
  | .beginning =>
    if fulfilled then some { s with loop := .idle }
    else some (s.releaseQuietly .beginReleasing finish)
  | .beginReleasing c =>
    some { s.release c .loop fulfilled with transactionConnection := none }.finish
  | .committing =>
    match fulfilled, s.transactionConnection with
    | true, some c => some { s with loop := .commitReleasing c }
    | _,    _      => some s.endTransaction
  | .commitReleasing c =>
    if fulfilled then some { s.release c .loop true with transactionConnection := none }.finish
    else some (s.release c .loop false).endTransaction
  | .rollingBack => some (s.releaseQuietly .endReleasing finish)
  | .endReleasing c =>
    some { s.release c .loop fulfilled with transactionConnection := none }.finish

/-! ## Section 3: The probe -/

/-- `checkReorgHalt` joins a probe in flight, and asks for a connection otherwise. -/
def checkReorgHalt (s : Leases) : Leases :=
  match s.probe with
  | .idle =>
    match s.transactionConnection with
    | some c => { s with probe := .resuming c true }
    | none   => { s with probe := .connecting }
  | _ => s

/-- What the probe does once what it awaits is fulfilled or rejected. -/
def probeSettles (s : Leases) (fulfilled : Bool) : Option Leases :=
  match s.probe with
  | .idle => none
  | .connecting =>
    if fulfilled then some { s.acquire .probe with probe := .resuming s.acquired.length false }
    else some { s with probe := .idle }
  | .resuming c _ => some { s with probe := .querying c s.transactionConnection.isNone }
  | .querying c ownLease =>
    if ownLease then some { s with probe := .releasing c } else some { s with probe := .idle }
  | .releasing c => some { s.release c .probe fulfilled with probe := .idle }

inductive Action where
  | beginTransaction
  | commitTransaction
  | endTransaction
  | loopSettles (fulfilled : Bool)
  | checkReorgHalt
  | probeSettles (fulfilled : Bool)
deriving DecidableEq, Repr

/-- The loop calls one function at a time. -/
def step : Action → Leases → Option Leases
  | .beginTransaction,       s => if s.loop = .idle then some s.acquireTransactionLock else none
  | .commitTransaction,      s => if s.loop = .idle then some s.commitTransaction else none
  | .endTransaction,         s => if s.loop = .idle then some s.endTransaction else none
  | .loopSettles fulfilled,  s => s.loopSettles fulfilled
  | .checkReorgHalt,         s => some s.checkReorgHalt
  | .probeSettles fulfilled, s => s.probeSettles fulfilled

/-! ## Section 4: The discipline -/

/-- `c` is the party's to release: it holds `c`, or is about to. -/
def Held (s : Leases) : Party → ℕ → Prop
  | .loop,  c => s.transactionConnection = some c ∨ s.loop = .connected c
  | .probe, c => s.probe = .resuming c false ∨ s.probe = .querying c true ∨ s.probe = .releasing c

/-- Leases are kept. -/
structure Disciplined (s : Leases) : Prop where
  /-- a connection is released by the party that acquired it -/
  own     : ∀ c p, (c, p) ∈ s.released → (c, p) ∈ s.acquired
  /-- and once at most -/
  once    : (s.released.map Prod.fst).Nodup
  /-- a connection that was neither released nor found dead is still to be released -/
  settled : ∀ c p, (c, p) ∈ s.acquired →
    c ∈ s.released.map Prod.fst ∨ c ∈ s.broken ∨ s.Held p c
  /-- what the probe releases it has acquired, and it is not the transaction connection -/
  spared  : ∀ c, s.probe = .releasing c →
    (c, .probe) ∈ s.acquired ∧ s.transactionConnection ≠ some c

/-- The probe, about to look at the field, finds it null if and only if it was null
    when it asked for a connection. -/
def SampledAsCalled (a : Action) (s : Leases) : Prop :=
  match a, s.probe with
  | .probeSettles _, .resuming _ shared => s.transactionConnection = none ↔ shared = false
  | _,               _                  => True

instance (a : Action) (s : Leases) : Decidable (SampledAsCalled a s) := by
  unfold SampledAsCalled
  split <;> infer_instance

/-- Where the loop waits, the field is what its calls left there. -/
def LoopAwait.Fits (txn : Option ℕ) : LoopAwait → Prop
  | .discarding | .beginning | .committing | .rollingBack => txn ≠ none
  | .discardReleasing c | .beginReleasing c | .commitReleasing c | .endReleasing c => txn = some c
  | .connecting | .connected _ => txn = none
  | .idle | .queued | .locked => True

/-- What every step preserves as long as the probe finds the field as it was. -/
structure Inv (s : Leases) : Prop where
  fresh    : ∀ c p, (c, p) ∈ s.acquired → c < s.acquired.length
  single   : (s.acquired.map Prod.fst).Nodup
  own      : ∀ c p, (c, p) ∈ s.released → (c, p) ∈ s.acquired
  once     : (s.released.map Prod.fst).Nodup
  held     : ∀ c p, s.Held p c → (c, p) ∈ s.acquired ∧ c ∉ s.released.map Prod.fst
  settled  : ∀ c p, (c, p) ∈ s.acquired →
    c ∈ s.released.map Prod.fst ∨ c ∈ s.broken ∨ s.Held p c
  fits     : LoopAwait.Fits s.transactionConnection s.loop
  /-- a shared connection is one the loop acquired -/
  borrowed : ∀ c, s.probe = .resuming c true → (c, .loop) ∈ s.acquired
  dead     : ∀ c ∈ s.broken, c < s.acquired.length
  /-- and one of its own has not been released yet, so it has not been found dead -/
  sound    : ∀ c, s.probe = .resuming c false → c ∉ s.broken

theorem inv_init : Inv init where
  fresh    := by simp [init]
  single   := by simp [init]
  own      := by simp [init]
  once     := by simp [init]
  held     := by
    intro c p hc
    cases p <;> simp [init, Held] at hc
  settled  := by simp [init]
  fits     := by simp [init, LoopAwait.Fits]
  borrowed := by simp [init]
  dead     := by simp [init]
  sound    := by simp [init]

variable {s s' : Leases} {c : ℕ} {p : Party} {a : Action}

/-- No connection was acquired by both parties. -/
theorem Inv.party_unique (h : Inv s) {q : Party} (hp : (c, p) ∈ s.acquired)
    (hq : (c, q) ∈ s.acquired) : p = q := by
  have hpair := List.inj_on_of_nodup_map h.single hp hq rfl
  simpa using hpair

theorem Inv.disciplined (h : Inv s) : Disciplined s where
  own     := h.own
  once    := h.once
  settled := h.settled
  spared  := by
    intro c hc
    have hprobe := (h.held c .probe (.inr (.inr hc))).1
    refine ⟨hprobe, ?_⟩
    intro htxn
    have hloop := (h.held c .loop (.inl htxn)).1
    exact absurd (h.party_unique hloop hprobe) (by decide)

/-! ## Section 5: Three kinds of step -/

/-- A step that moves the parties about and hands nothing over. -/
theorem Inv.move (h : Inv s) (hacquired : s'.acquired = s.acquired)
    (hreleased : s'.released = s.released) (hbroken : s'.broken = s.broken)
    (hheld : ∀ p c, s'.Held p c ↔ s.Held p c)
    (hfits : LoopAwait.Fits s'.transactionConnection s'.loop)
    (hborrowed : ∀ c, s'.probe = .resuming c true → s.Held .loop c ∨ s.probe = .resuming c true)
    (hsound : ∀ c, s'.probe = .resuming c false → s.probe = .resuming c false) : Inv s' where
  fresh    := by rw [hacquired]; exact h.fresh
  single   := by rw [hacquired]; exact h.single
  own      := by rw [hacquired, hreleased]; exact h.own
  once     := by rw [hreleased]; exact h.once
  held     := by
    intro c p hc
    rw [hacquired, hreleased]
    exact h.held c p ((hheld p c).mp hc)
  settled  := by
    intro c p hc
    rw [hacquired] at hc
    rw [hreleased, hbroken, hheld]
    exact h.settled c p hc
  fits     := hfits
  borrowed := by
    intro c hc
    rw [hacquired]
    rcases hborrowed c hc with hloop | hprobe
    · exact (h.held c .loop hloop).1
    · exact h.borrowed c hprobe
  dead     := by rw [hacquired, hbroken]; exact h.dead
  sound    := by
    intro c hc
    rw [hbroken]
    exact h.sound c (hsound c hc)

/-- A connection is handed out. -/
theorem Inv.acquire (h : Inv s) (p : Party)
    (hacquired : s'.acquired = (s.acquired.length, p) :: s.acquired)
    (hreleased : s'.released = s.released) (hbroken : s'.broken = s.broken)
    (hheld : ∀ q c, s'.Held q c ↔ s.Held q c ∨ (q = p ∧ c = s.acquired.length))
    (hfits : LoopAwait.Fits s'.transactionConnection s'.loop)
    (hborrowed : ∀ c, s'.probe = .resuming c true → s.probe = .resuming c true)
    (hsound : ∀ c, s'.probe = .resuming c false →
      s.probe = .resuming c false ∨ c = s.acquired.length) : Inv s' where
  fresh    := by
    intro c q hc
    rw [hacquired] at hc ⊢
    rw [List.length_cons]
    rcases List.mem_cons.mp hc with heq | hc
    · cases heq
      omega
    · have := h.fresh c q hc
      omega
  single   := by
    rw [hacquired, List.map_cons, List.nodup_cons]
    refine ⟨?_, h.single⟩
    intro hmem
    rcases List.mem_map.mp hmem with ⟨⟨c, q⟩, hc, heq⟩
    have := h.fresh c q hc
    simp only at heq
    omega
  own      := by
    intro c q hc
    rw [hreleased] at hc
    rw [hacquired]
    exact List.mem_cons_of_mem _ (h.own c q hc)
  once     := by rw [hreleased]; exact h.once
  held     := by
    intro c q hc
    rw [hacquired, hreleased]
    rcases (hheld q c).mp hc with hold | ⟨rfl, rfl⟩
    · exact ⟨List.mem_cons_of_mem _ (h.held c q hold).1, (h.held c q hold).2⟩
    -- the new connection has a new number, so it was never given back
    · refine ⟨List.mem_cons_self .., ?_⟩
      intro hmem
      rcases List.mem_map.mp hmem with ⟨⟨c, q⟩, hc, heq⟩
      have := h.fresh c q (h.own c q hc)
      simp only at heq
      omega
  settled  := by
    intro c q hc
    rw [hacquired] at hc
    rw [hreleased, hbroken, hheld]
    rcases List.mem_cons.mp hc with heq | hc
    · cases heq
      exact .inr (.inr (.inr ⟨rfl, rfl⟩))
    · rcases h.settled c q hc with hreleased | hdead | hold
      · exact .inl hreleased
      · exact .inr (.inl hdead)
      · exact .inr (.inr (.inl hold))
  fits     := hfits
  borrowed := by
    intro c hc
    rw [hacquired]
    exact List.mem_cons_of_mem _ (h.borrowed c (hborrowed c hc))
  dead     := by
    intro c hc
    rw [hbroken] at hc
    rw [hacquired, List.length_cons]
    have := h.dead c hc
    omega
  sound    := by
    intro c hc
    rw [hbroken]
    rcases hsound c hc with hold | rfl
    · exact h.sound c hold
    · intro hmem
      have := h.dead _ hmem
      omega

/-- A connection its party holds is given back. -/
theorem Inv.release (h : Inv s) (hc : s.Held p c) (hacquired : s'.acquired = s.acquired)
    (hreleased : s'.released = (c, p) :: s.released) (hbroken : s'.broken = s.broken)
    (hheld : ∀ q d, s'.Held q d ↔ s.Held q d ∧ d ≠ c)
    (hfits : LoopAwait.Fits s'.transactionConnection s'.loop)
    (hprobe : ∀ d shared, s'.probe = .resuming d shared → s.probe = .resuming d shared) :
    Inv s' where
  fresh    := by rw [hacquired]; exact h.fresh
  single   := by rw [hacquired]; exact h.single
  own      := by
    intro d q hd
    rw [hreleased] at hd
    rw [hacquired]
    rcases List.mem_cons.mp hd with heq | hd
    · cases heq
      exact (h.held c p hc).1
    · exact h.own d q hd
  once     := by
    rw [hreleased, List.map_cons, List.nodup_cons]
    exact ⟨(h.held c p hc).2, h.once⟩
  held     := by
    intro d q hd
    rw [hacquired, hreleased, List.map_cons]
    rcases (hheld q d).mp hd with ⟨hold, hne⟩
    refine ⟨(h.held d q hold).1, ?_⟩
    intro hmem
    rcases List.mem_cons.mp hmem with heq | hmem
    · exact hne heq
    · exact (h.held d q hold).2 hmem
  settled  := by
    intro d q hd
    rw [hacquired] at hd
    rw [hreleased, hbroken, hheld, List.map_cons]
    -- the one given back is settled by that, the others as before
    by_cases hdc : d = c
    · exact .inl (List.mem_cons.mpr (.inl hdc))
    · rcases h.settled d q hd with hreleased | hdead | hold
      · exact .inl (List.mem_cons_of_mem _ hreleased)
      · exact .inr (.inl hdead)
      · exact .inr (.inr ⟨hold, hdc⟩)
  fits     := hfits
  borrowed := by
    intro d hd
    rw [hacquired]
    exact h.borrowed d (hprobe d true hd)
  dead     := by rw [hacquired, hbroken]; exact h.dead
  sound    := by
    intro d hd
    rw [hbroken]
    exact h.sound d (hprobe d false hd)

/-- A connection its party holds turns out to be dead; it may hold it for one more
    try. -/
theorem Inv.break (h : Inv s) (hc : s.Held p c) (hacquired : s'.acquired = s.acquired)
    (hreleased : s'.released = s.released) (hbroken : s'.broken = c :: s.broken)
    (hheld : ∀ q d, s'.Held q d → s.Held q d) (hkept : ∀ q d, s.Held q d → d = c ∨ s'.Held q d)
    (hfits : LoopAwait.Fits s'.transactionConnection s'.loop)
    (hprobe : ∀ d shared, s'.probe = .resuming d shared → s.probe = .resuming d shared)
    (hsound : ∀ d, s'.probe = .resuming d false → d ≠ c) : Inv s' where
  fresh    := by rw [hacquired]; exact h.fresh
  single   := by rw [hacquired]; exact h.single
  own      := by rw [hacquired, hreleased]; exact h.own
  once     := by rw [hreleased]; exact h.once
  held     := by
    intro d q hd
    rw [hacquired, hreleased]
    exact h.held d q (hheld q d hd)
  settled  := by
    intro d q hd
    rw [hacquired] at hd
    rw [hreleased, hbroken]
    -- released, broken before, or held: then still held, or the one that broke now
    rcases h.settled d q hd with hreleased | hdead | hold
    · exact .inl hreleased
    · exact .inr (.inl (List.mem_cons_of_mem _ hdead))
    · rcases hkept q d hold with rfl | hd'
      · exact .inr (.inl (List.mem_cons_self ..))
      · exact .inr (.inr hd')
  fits     := hfits
  borrowed := by
    intro d hd
    rw [hacquired]
    exact h.borrowed d (hprobe d true hd)
  dead     := by
    intro d hd
    rw [hbroken] at hd
    rw [hacquired]
    rcases List.mem_cons.mp hd with rfl | hd
    · exact h.fresh _ p (h.held _ p hc).1
    · exact h.dead d hd
  sound    := by
    intro d hd
    rw [hbroken]
    intro hmem
    rcases List.mem_cons.mp hmem with heq | hmem
    · exact hsound d hd heq
    · exact h.sound d (hprobe d false hd) hmem

/-! ## Section 6: Every step -/

theorem Inv.beginTransaction (h : Inv s) (hidle : s.loop = .idle) :
    Inv s.acquireTransactionLock := by
  unfold acquireTransactionLock
  split_ifs
  · refine h.move rfl rfl rfl ?_ trivial (fun c hc => .inr hc) (fun c hc => hc)
    intro p c
    cases p <;> simp [Held, hidle]
  · refine h.move rfl rfl rfl ?_ trivial (fun c hc => .inr hc) (fun c hc => hc)
    intro p c
    cases p <;> simp [Held, hidle]

/-- Where the loop waits for nothing it holds, it may wait for something else. -/
theorem Inv.await (h : Inv s) {await : LoopAwait} (hold : ∀ c, s.loop ≠ .connected c)
    (hnew : ∀ c, await ≠ .connected c) (hfits : LoopAwait.Fits s.transactionConnection await) :
    Inv { s with loop := await } := by
  refine h.move rfl rfl rfl ?_ hfits (fun c hc => .inr hc) (fun c hc => hc)
  intro p c
  cases p <;> simp [Held, hold, hnew]

theorem Inv.finish (h : Inv s) (hold : ∀ c, s.loop ≠ .connected c) : Inv s.finish := by
  have hlock : Inv s.releaseTransactionLock :=
    h.move rfl rfl rfl (fun _ _ => Iff.rfl) h.fits (fun c hc => .inr hc) (fun c hc => hc)
  exact hlock.await hold (by simp) trivial

theorem releaseQuietly_some (htxn : s.transactionConnection = some c) (await : ℕ → LoopAwait)
    (done : Leases → Leases) : s.releaseQuietly await done = { s with loop := await c } := by
  simp only [Leases.releaseQuietly, htxn]

theorem releaseQuietly_none (htxn : s.transactionConnection = none) (await : ℕ → LoopAwait)
    (done : Leases → Leases) : s.releaseQuietly await done = done s := by
  simp only [Leases.releaseQuietly, htxn]

theorem Inv.releaseQuietly (h : Inv s) (hold : ∀ c, s.loop ≠ .connected c) {await : ℕ → LoopAwait}
    {done : Leases → Leases} (hawait : ∀ c d, await c ≠ .connected d)
    (hfits : ∀ c, LoopAwait.Fits (some c) (await c))
    (hdone : s.transactionConnection = none → Inv (done s)) :
    Inv (s.releaseQuietly await done) := by
  cases htxn : s.transactionConnection with
  | none =>
    rw [releaseQuietly_none htxn]
    exact hdone htxn
  | some c =>
    rw [releaseQuietly_some htxn]
    exact h.await hold (hawait c) (by rw [htxn]; exact hfits c)

theorem endTransaction_some (htxn : s.transactionConnection = some c) :
    s.endTransaction = { s with loop := .rollingBack } := by
  simp only [Leases.endTransaction, htxn]

theorem Inv.endTransaction (h : Inv s) (hold : ∀ c, s.loop ≠ .connected c) :
    Inv s.endTransaction := by
  cases htxn : s.transactionConnection with
  | none =>
    have hquiet : s.endTransaction = s.releaseQuietly .endReleasing Leases.finish := by
      simp only [Leases.endTransaction, htxn]
    rw [hquiet]
    exact h.releaseQuietly hold (by simp) (fun c => rfl) (fun _ => h.finish hold)
  | some c =>
    rw [endTransaction_some htxn]
    exact h.await hold (by simp) (by simp [LoopAwait.Fits, htxn])

theorem Inv.commitTransaction (h : Inv s) (hold : ∀ c, s.loop ≠ .connected c) :
    Inv s.commitTransaction := by
  cases htxn : s.transactionConnection with
  | none =>
    have hsame : s.commitTransaction = s := by simp only [Leases.commitTransaction, htxn]
    rw [hsame]
    exact h
  | some c =>
    have hcommit : s.commitTransaction = { s with loop := .committing } := by
      simp only [Leases.commitTransaction, htxn]
    rw [hcommit]
    exact h.await hold (by simp) (by simp [LoopAwait.Fits, htxn])

/-- The loop gives its connection back, or finds it dead, and forgets it. -/
theorem Inv.forget (h : Inv s) (htxn : s.transactionConnection = some c)
    (hold : ∀ c, s.loop ≠ .connected c) (fulfilled : Bool) :
    Inv { s.release c .loop fulfilled with transactionConnection := none, loop := .idle } := by
  have hc : s.Held .loop c := .inl htxn
  have hprobe : ∀ d, s.Held .probe d → d ≠ c := by
    rintro d hd rfl
    exact absurd (h.party_unique (h.held _ _ hc).1 (h.held _ _ hd).1) (by decide)
  -- the loop held nothing else; what is left is what the probe holds
  have hheld : ∀ q d, (s.Held q d ∧ d ≠ c) ↔ (q = .probe ∧ s.Held .probe d) := by
    intro q d
    cases q with
    | loop =>
      simp only [Held, htxn, hold, or_false, Option.some.injEq]
      refine ⟨fun hd => absurd hd.1.symm hd.2, fun hd => absurd hd.1 (by decide)⟩
    | probe => exact ⟨fun hd => ⟨rfl, hd.1⟩, fun hd => ⟨hd.2, hprobe d hd.2⟩⟩
  cases fulfilled with
  | true =>
    refine h.release hc rfl rfl rfl ?_ trivial (fun d shared hd => hd)
    intro q d
    rw [hheld]
    cases q <;> simp [Held, Leases.release]
  | false =>
    refine h.break hc rfl rfl rfl ?_ ?_ trivial (fun d shared hd => hd)
      (fun d hd => hprobe d (.inl hd))
    · intro q d hd
      cases q with
      | loop => simp [Held] at hd
      | probe => exact hd
    · intro q d hd
      by_cases hdc : d = c
      · exact .inl hdc
      · right
        rcases (hheld q d).mp ⟨hd, hdc⟩ with ⟨rfl, hd⟩
        exact hd

theorem Inv.loopGetConnection (h : Inv s) (hold : ∀ c, s.loop ≠ .connected c)
    (htxn : s.transactionConnection = none) : Inv s.loopGetConnection := by
  have hget : s.loopGetConnection = { s with loop := .connecting } := by
    simp only [Leases.loopGetConnection, htxn]
  rw [hget]
  exact h.await hold (by simp) (by simp [LoopAwait.Fits, htxn])

/-- A release by the loop settles with its connection forgotten and the call over. -/
theorem Inv.releaseFinish (h : Inv s) (htxn : s.transactionConnection = some c)
    (hold : ∀ c, s.loop ≠ .connected c) (fulfilled : Bool) :
    Inv { s.release c .loop fulfilled with transactionConnection := none }.finish := by
  have hforget := (h.forget htxn hold fulfilled).finish (by simp)
  exact hforget

/-- A dead connection stays the transaction connection for the rollback. -/
theorem Inv.dead_commit (h : Inv s) (htxn : s.transactionConnection = some c)
    (hold : ∀ c, s.loop ≠ .connected c) : Inv (s.release c .loop false).endTransaction := by
  have hc : s.Held .loop c := .inl htxn
  have hrolling : (s.release c .loop false).endTransaction =
      { s.release c .loop false with loop := .rollingBack } := endTransaction_some htxn
  rw [hrolling]
  refine h.break hc rfl rfl rfl ?_ ?_ ?_ (fun d shared hd => hd) ?_
  · intro q d hd
    cases q with
    | loop => exact .inl (by simpa [Held, Leases.release] using hd)
    | probe => exact hd
  · intro q d hd
    right
    cases q with
    | loop =>
      rcases hd with hd | hd
      · exact .inl hd
      · exact absurd hd (hold d)
    | probe => exact hd
  · show LoopAwait.Fits s.transactionConnection .rollingBack
    rw [htxn]
    simp [LoopAwait.Fits]
  · rintro d hd rfl
    exact absurd (h.party_unique (h.held _ _ hc).1 (h.held _ .probe (.inl hd)).1) (by decide)

theorem Inv.loopSettles (h : Inv s) {fulfilled : Bool} (hstep : s.loopSettles fulfilled = some s') :
    Inv s' := by
  have hfits := h.fits
  cases hloop : s.loop with
  | idle => simp [Leases.loopSettles, hloop] at hstep
  | queued => simp [Leases.loopSettles, hloop] at hstep
  | locked =>
    have hold : ∀ c, s.loop ≠ .connected c := by simp [hloop]
    cases htxn : s.transactionConnection with
    | none =>
      simp only [Leases.loopSettles, hloop, htxn, Option.some.injEq] at hstep
      rw [← hstep]
      exact h.loopGetConnection hold htxn
    | some c =>
      simp only [Leases.loopSettles, hloop, htxn, Option.some.injEq] at hstep
      rw [← hstep, ← htxn]
      exact h.await hold (by simp) (by simp [LoopAwait.Fits, htxn])
  -- the stale transaction is rolled back first, and then the loop leases anew
  | discarding =>
    have hold : ∀ c, s.loop ≠ .connected c := by simp [hloop]
    simp only [Leases.loopSettles, hloop, Option.some.injEq] at hstep
    rw [← hstep]
    exact h.releaseQuietly hold (by simp) (fun c => rfl) (h.loopGetConnection hold)
  | discardReleasing c =>
    have hold : ∀ c, s.loop ≠ .connected c := by simp [hloop]
    simp only [hloop, LoopAwait.Fits] at hfits
    simp only [Leases.loopSettles, hloop, Option.some.injEq] at hstep
    rw [← hstep]
    have hforget := (h.forget hfits hold fulfilled).loopGetConnection (by simp) rfl
    exact hforget
  | connecting =>
    have hold : ∀ c, s.loop ≠ .connected c := by simp [hloop]
    simp only [hloop, LoopAwait.Fits] at hfits
    cases fulfilled with
    | false =>
      simp only [Leases.loopSettles, hloop, Bool.false_eq_true, if_false, Option.some.injEq] at hstep
      rw [← hstep]
      exact h.releaseQuietly hold (by simp) (fun c => rfl) (fun _ => h.finish hold)
    -- the pool answered: the connection is acquired
    | true =>
      simp only [Leases.loopSettles, hloop, if_true, Option.some.injEq] at hstep
      rw [← hstep]
      refine h.acquire .loop rfl rfl rfl ?_ hfits (fun c hc => hc) (fun c hc => .inl hc)
      intro q c
      cases q with
      | loop =>
        simp only [Held, Leases.acquire, hfits, hloop, LoopAwait.connected.injEq]
        simp [eq_comm]
      | probe => simp [Held, Leases.acquire]
  | connected c =>
    simp only [hloop, LoopAwait.Fits] at hfits
    simp only [Leases.loopSettles, hloop, Option.some.injEq] at hstep
    rw [← hstep]
    refine h.move rfl rfl rfl ?_ (by simp [LoopAwait.Fits]) (fun d hd => .inr hd) (fun d hd => hd)
    intro q d
    cases q <;> simp [Held, hloop, hfits]
  | beginning =>
    have hold : ∀ c, s.loop ≠ .connected c := by simp [hloop]
    cases fulfilled with
    | false =>
      simp only [Leases.loopSettles, hloop, Bool.false_eq_true, if_false, Option.some.injEq] at hstep
      rw [← hstep]
      exact h.releaseQuietly hold (by simp) (fun c => rfl) (fun _ => h.finish hold)
    | true =>
      simp only [Leases.loopSettles, hloop, if_true, Option.some.injEq] at hstep
      rw [← hstep]
      exact h.await hold (by simp) trivial
  | beginReleasing c =>
    simp only [hloop, LoopAwait.Fits] at hfits
    simp only [Leases.loopSettles, hloop, Option.some.injEq] at hstep
    rw [← hstep]
    exact h.releaseFinish hfits (by simp [hloop]) fulfilled
  | committing =>
    have hold : ∀ c, s.loop ≠ .connected c := by simp [hloop]
    cases fulfilled with
    | false =>
      simp only [Leases.loopSettles, hloop, Option.some.injEq] at hstep
      rw [← hstep]
      exact h.endTransaction hold
    | true =>
      cases htxn : s.transactionConnection with
      | none =>
        simp only [Leases.loopSettles, hloop, htxn, Option.some.injEq] at hstep
        rw [← hstep]
        exact h.endTransaction hold
      | some c =>
        simp only [Leases.loopSettles, hloop, htxn, Option.some.injEq] at hstep
        rw [← hstep, ← htxn]
        exact h.await hold (by simp) (by simp [LoopAwait.Fits, htxn])
  -- the commit is done; a failed release leaves the connection behind
  | commitReleasing c =>
    have hold : ∀ c, s.loop ≠ .connected c := by simp [hloop]
    simp only [hloop, LoopAwait.Fits] at hfits
    cases fulfilled with
    | false =>
      simp only [Leases.loopSettles, hloop, Bool.false_eq_true, if_false, Option.some.injEq] at hstep
      rw [← hstep]
      exact h.dead_commit hfits hold
    | true =>
      simp only [Leases.loopSettles, hloop, if_true, Option.some.injEq] at hstep
      rw [← hstep]
      exact h.releaseFinish hfits hold true
  | rollingBack =>
    have hold : ∀ c, s.loop ≠ .connected c := by simp [hloop]
    simp only [Leases.loopSettles, hloop, Option.some.injEq] at hstep
    rw [← hstep]
    exact h.releaseQuietly hold (by simp) (fun c => rfl) (fun _ => h.finish hold)
  | endReleasing c =>
    simp only [hloop, LoopAwait.Fits] at hfits
    simp only [Leases.loopSettles, hloop, Option.some.injEq] at hstep
    rw [← hstep]
    exact h.releaseFinish hfits (by simp [hloop]) fulfilled

theorem Inv.checkReorgHalt (h : Inv s) : Inv s.checkReorgHalt := by
  cases hprobe : s.probe with
  | idle =>
    cases htxn : s.transactionConnection with
    | none =>
      have hcall : s.checkReorgHalt = { s with probe := .connecting } := by
        simp only [Leases.checkReorgHalt, hprobe, htxn]
      rw [hcall]
      refine h.move rfl rfl rfl ?_ h.fits (by simp) (by simp)
      intro q c
      cases q <;> simp [Held, hprobe]
    -- the probe borrows the connection of the open transaction
    | some c =>
      have hcall : s.checkReorgHalt = { s with probe := .resuming c true } := by
        simp only [Leases.checkReorgHalt, hprobe, htxn]
      rw [hcall]
      refine h.move rfl rfl rfl ?_ h.fits ?_ (by simp)
      · intro q d
        cases q <;> simp [Held, hprobe]
      · intro d hd
        simp only [ProbeAwait.resuming.injEq, and_true] at hd
        rw [← hd]
        exact .inl (.inl htxn)
  | connecting => simpa only [Leases.checkReorgHalt, hprobe] using h
  | resuming c shared => simpa only [Leases.checkReorgHalt, hprobe] using h
  | querying c ownLease => simpa only [Leases.checkReorgHalt, hprobe] using h
  | releasing c => simpa only [Leases.checkReorgHalt, hprobe] using h

theorem Inv.probeSettles (h : Inv s) {fulfilled : Bool}
    (hsampled : SampledAsCalled (.probeSettles fulfilled) s)
    (hstep : s.probeSettles fulfilled = some s') : Inv s' := by
  cases hprobe : s.probe with
  | idle => simp [Leases.probeSettles, hprobe] at hstep
  | connecting =>
    cases fulfilled with
    | false =>
      simp only [Leases.probeSettles, hprobe, Bool.false_eq_true, if_false, Option.some.injEq] at hstep
      rw [← hstep]
      refine h.move rfl rfl rfl ?_ h.fits (by simp) (by simp)
      intro q c
      cases q <;> simp [Held, hprobe]
    | true =>
      simp only [Leases.probeSettles, hprobe, if_true, Option.some.injEq] at hstep
      rw [← hstep]
      refine h.acquire .probe rfl rfl rfl ?_ h.fits (by simp) (fun c hc => .inr ?_)
      · intro q c
        cases q with
        | loop => simp [Held, Leases.acquire]
        | probe => simp [Held, hprobe, eq_comm]
      · simp only [ProbeAwait.resuming.injEq, and_true] at hc
        exact hc.symm
  -- the lease is the own one exactly where the transaction was sampled as none
  | resuming c shared =>
    simp only [SampledAsCalled, hprobe] at hsampled
    simp only [Leases.probeSettles, hprobe, Option.some.injEq] at hstep
    rw [← hstep]
    refine h.move rfl rfl rfl ?_ h.fits (by simp) (by simp)
    intro q d
    cases q with
    | loop => simp [Held]
    | probe => simp [Held, hprobe, Option.isNone_iff_eq_none, hsampled]
  | querying c ownLease =>
    cases ownLease with
    | false =>
      simp only [Leases.probeSettles, hprobe, Bool.false_eq_true, if_false, Option.some.injEq] at hstep
      rw [← hstep]
      refine h.move rfl rfl rfl ?_ h.fits (by simp) (by simp)
      intro q d
      cases q <;> simp [Held, hprobe]
    | true =>
      simp only [Leases.probeSettles, hprobe, if_true, Option.some.injEq] at hstep
      rw [← hstep]
      refine h.move rfl rfl rfl ?_ h.fits (by simp) (by simp)
      intro q d
      cases q <;> simp [Held, hprobe]
  | releasing c =>
    have hc : s.Held .probe c := .inr (.inr hprobe)
    -- a connection has one party
    have hloop : ∀ d, s.Held .loop d → d ≠ c := by
      rintro d hd rfl
      exact absurd (h.party_unique (h.held _ _ hc).1 (h.held _ _ hd).1) (by decide)
    simp only [Leases.probeSettles, hprobe, Option.some.injEq] at hstep
    rw [← hstep]
    cases fulfilled with
    | true =>
      refine h.release hc rfl rfl rfl ?_ h.fits (by simp)
      intro q d
      cases q with
      | loop => exact ⟨fun hd => ⟨hd, hloop d hd⟩, fun hd => hd.1⟩
      | probe => simp [Held, hprobe, eq_comm]
    | false =>
      refine h.break hc rfl rfl rfl ?_ ?_ h.fits (by simp) (by simp)
      · intro q d hd
        cases q with
        | loop => exact hd
        | probe => simp [Held] at hd
      · intro q d hd
        cases q with
        | loop => exact .inr hd
        | probe =>
          left
          simpa [Held, hprobe, eq_comm] using hd

theorem Inv.step (h : Inv s) (hsampled : SampledAsCalled a s) (hstep : step a s = some s') :
    Inv s' := by
  cases a with
  | beginTransaction =>
    simp only [Leases.step, Option.ite_none_right_eq_some, Option.some.injEq] at hstep
    rw [← hstep.2]
    exact h.beginTransaction hstep.1
  | commitTransaction =>
    simp only [Leases.step, Option.ite_none_right_eq_some, Option.some.injEq] at hstep
    rw [← hstep.2]
    exact h.commitTransaction (by simp [hstep.1])
  | endTransaction =>
    simp only [Leases.step, Option.ite_none_right_eq_some, Option.some.injEq] at hstep
    rw [← hstep.2]
    exact h.endTransaction (by simp [hstep.1])
  | loopSettles fulfilled => exact h.loopSettles hstep
  | checkReorgHalt =>
    simp only [Leases.step, Option.some.injEq] at hstep
    rw [← hstep]
    exact h.checkReorgHalt
  | probeSettles fulfilled => exact h.probeSettles hsampled hstep

/-! ## Section 7: Every run -/

theorem inv_of_sampled {as : List Action} (hgood : Runs.Along step SampledAsCalled as init)
    (h : Runs.run step as init = some s) : Inv s :=
  Runs.run_invariant (fun _ _ _ hinv hsampled hstep => hinv.step hsampled hstep) inv_init hgood h

/-- A connection of its own that the probe takes for the transaction connection is
    lost. -/
theorem Inv.lost (h : Inv s) (hprobe : s.probe = .resuming c false)
    (htxn : s.transactionConnection ≠ none) {fulfilled : Bool}
    (hstep : s.probeSettles fulfilled = some s') : ¬Disciplined s' := by
  have hisNone : s.transactionConnection.isNone = false := by
    cases hsome : s.transactionConnection with
    | none => exact absurd hsome htxn
    | some c => rfl
  simp only [Leases.probeSettles, hprobe, hisNone, Option.some.injEq] at hstep
  rw [← hstep]
  intro hkept
  rcases h.held c .probe (.inl hprobe) with ⟨hacquired, hout⟩
  rcases hkept.settled c .probe hacquired with hreleased | hdead | hheld
  · exact hout hreleased
  · exact h.sound c hprobe hdead
  · simp [Held] at hheld

/-- The transaction connection, taken for one of its own, is released by the probe. -/
theorem Inv.stolen (h : Inv s) (hprobe : s.probe = .resuming c true)
    (htxn : s.transactionConnection = none) {fulfilled : Bool}
    (hstep : s.probeSettles fulfilled = some s') :
    ∃ s'', s'.probeSettles true = some s'' ∧ ¬Disciplined s'' := by
  simp only [Leases.probeSettles, hprobe, htxn, Option.isNone_none, Option.some.injEq] at hstep
  rw [← hstep]
  refine ⟨_, rfl, ?_⟩
  intro hkept
  have hprobe' := (hkept.spared c rfl).1
  exact absurd (h.party_unique hprobe' (h.borrowed c hprobe)) (by decide)

/-- **Main theorem.** In every run in which the probe, where it looks at the field,
    finds it null if and only if it was null where the probe asked for a connection,
    leases are kept in every state. Behind the first look of any other kind the probe
    breaks the discipline by itself. -/
theorem disciplined_of_sampled {as : List Action}
    (hgood : Runs.Along step SampledAsCalled as init) (h : Runs.run step as init = some s) :
    Disciplined s ∧ ∀ fulfilled s', step (.probeSettles fulfilled) s = some s' →
      ¬SampledAsCalled (.probeSettles fulfilled) s →
      ¬Disciplined s' ∨ ∃ s'', step (.probeSettles true) s' = some s'' ∧ ¬Disciplined s'' := by
  have hinv := inv_of_sampled hgood h
  refine ⟨hinv.disciplined, ?_⟩
  intro fulfilled s' hstep hmissed
  cases hprobe : s.probe with
  | resuming c shared =>
    simp only [SampledAsCalled, hprobe] at hmissed
    cases shared with
    | false =>
      left
      exact hinv.lost hprobe (by simpa using hmissed) hstep
    | true =>
      right
      exact hinv.stolen hprobe (by simpa using hmissed) hstep
  | idle => simp [SampledAsCalled, hprobe] at hmissed
  | connecting => simp [SampledAsCalled, hprobe] at hmissed
  | querying c ownLease => simp [SampledAsCalled, hprobe] at hmissed
  | releasing c => simp [SampledAsCalled, hprobe] at hmissed

end Leases

namespace Sample

open Leases

/-- A transaction that is committed. -/
def committed : List Action :=
  [.beginTransaction, .loopSettles true, .loopSettles true, .loopSettles true, .loopSettles true,
    .commitTransaction, .loopSettles true, .loopSettles true]

/-- A probe around it and one inside it, each looking at the field as it was. -/
def probed : List Action :=
  .checkReorgHalt :: .probeSettles true :: .probeSettles true :: .probeSettles true ::
    .probeSettles true :: committed.take 5 ++
    [.checkReorgHalt, .probeSettles true, .probeSettles true] ++ committed.drop 5

/-- The transaction begins while the probe waits for the pool. -/
def overtaken : List Action :=
  .checkReorgHalt :: committed.take 5 ++ [.probeSettles true, .probeSettles true, .probeSettles true]

/-- The transaction ends between the probe's call and its look at the field. -/
def outlived : List Action :=
  committed.dropLast ++ [.checkReorgHalt, .loopSettles true, .probeSettles true, .probeSettles true]

/-- Two connections, each back with the party that acquired it. -/
theorem disciplined_probed : ∃ s, Runs.run Leases.step probed Leases.init = some s ∧
    s.released = [(1, .loop), (0, .probe)] ∧ Disciplined s := by
  have hgood : Runs.Along Leases.step SampledAsCalled probed Leases.init := by decide
  refine ⟨_, rfl, rfl, ?_⟩
  exact (disciplined_of_sampled hgood rfl).1

/-- A connection the probe acquired is lost; a connection the loop acquired is released
    by the probe, after the loop has released it. -/
theorem undisciplined_runs :
    (∃ s, Runs.run Leases.step overtaken Leases.init = some s ∧ s.probe = .idle ∧
      (1, .probe) ∈ s.acquired ∧ s.released = [] ∧ s.broken = [] ∧ ¬Disciplined s) ∧
    ∃ s, Runs.run Leases.step outlived Leases.init = some s ∧ s.probe = .releasing 0 ∧
      s.acquired = [(0, .loop)] ∧ s.released = [(0, .loop)] ∧ ¬Disciplined s := by
  refine ⟨⟨_, rfl, rfl, by decide, rfl, rfl, ?_⟩, ⟨_, rfl, rfl, rfl, rfl, ?_⟩⟩
  · intro hkept
    rcases hkept.settled 1 .probe (by decide) with hreleased | hdead | hheld
    · exact absurd hreleased (by decide)
    · exact absurd hdead (by decide)
    · simp [Held] at hheld
  · intro hkept
    exact absurd (hkept.spared 0 rfl).1 (by decide)

end Sample

end XChainDecoder
