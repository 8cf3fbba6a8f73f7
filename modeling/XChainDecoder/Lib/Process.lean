import Mathlib.Logic.Basic

/-! # Interruptible processes

    A sequential process that runs against an environment it cannot foresee and
    may be killed at any await. `Proc E S ε α` reads an environment `E` (the
    answers every outside call is going to give), threads a state `S`, and ends
    with a value or with a `Stop`: an error it throws, a crash, or no end at all
    (a loop that ran out of its bound, a lock that is never released).

    A handler catches thrown errors only; nothing survives a crash but the
    state. So a fact that holds of the state for *every* ending of a process
    holds wherever the process may be killed, and no separate notion of an
    intermediate state is needed.

    `Proc.wp` is the weakest precondition over all three kinds of ending, with
    one rule for each way of building a process and one rule (`wp_iterate`) for
    its loops. -/

/-- How a process ends when it answers no value. -/
inductive Stop (ε : Type) where
  /-- it threw `e`, and no handler caught it -/
  | thrown (e : ε)
  /-- it was killed at an await -/
  | crashed
  /-- it never gets past this point -/
  | unfinished
deriving DecidableEq, Repr

/-- A process over environment `E` and state `S`. -/
def Proc (E S ε α : Type) : Type :=
  E → S → Except (Stop ε) α × S

namespace Proc

variable {E S ε α β σ : Type}

/-! ## Section 1: Building processes -/

def ret (a : α) : Proc E S ε α := fun _ s => (.ok a, s)

def andThen (m : Proc E S ε α) (f : α → Proc E S ε β) : Proc E S ε β := fun env s =>
  match m env s with
  | (.ok a, s')    => f a env s'
  | (.error e, s') => (.error e, s')

/-- End here without a value. -/
def stop (e : Stop ε) : Proc E S ε α := fun _ s => (.error e, s)

/-- Run `m`; a thrown error is handed to `h`, any other ending stands. -/
def handle (m : Proc E S ε α) (h : ε → Proc E S ε α) : Proc E S ε α := fun env s =>
  match m env s with
  | (.error (.thrown e), s') => h e env s'
  | r                        => r

instance : Monad (Proc E S ε) where
  pure := ret
  bind := andThen

instance : MonadExceptOf ε (Proc E S ε) where
  throw e  := stop (.thrown e)
  tryCatch := handle

instance : MonadReaderOf E (Proc E S ε) where
  read := fun env s => (.ok env, s)

instance : MonadStateOf S (Proc E S ε) where
  get := fun _ s => (.ok s, s)
  set s' := fun _ _ => (.ok ⟨⟩, s')
  modifyGet f := fun _ s => (.ok (f s).1, (f s).2)

/-- Repeat `body` from `a` until it answers on the right, at most `n` times. -/
def iterate (body : σ → Proc E S ε (σ ⊕ β)) : Nat → σ → Proc E S ε β
  | 0,     _ => stop .unfinished
  | n + 1, a => do
      match ← body a with
      | .inl a' => iterate body n a'
      | .inr b  => pure b

/-! ## Section 2: Weakest preconditions -/

/-- `Q` holds of the ending and the state that `m` reaches from `s`. -/
def wp (m : Proc E S ε α) (env : E) (s : S)
    (Q : Except (Stop ε) α → S → Prop) : Prop :=
  Q (m env s).1 (m env s).2

theorem wp_mono {m : Proc E S ε α} {env : E} {s : S}
    {P Q : Except (Stop ε) α → S → Prop}
    (h : m.wp env s P) (hPQ : ∀ r s', P r s' → Q r s') : m.wp env s Q :=
  hPQ _ _ h

/-- Two facts about one run hold together. -/
theorem wp_and {m : Proc E S ε α} {env : E} {s : S}
    {P Q : Except (Stop ε) α → S → Prop}
    (hP : m.wp env s P) (hQ : m.wp env s Q) : m.wp env s (fun r s' => P r s' ∧ Q r s') :=
  ⟨hP, hQ⟩

/-- What a sequence has to establish once its first half has ended. -/
def continuesWith (f : α → Proc E S ε β) (env : E)
    (Q : Except (Stop ε) β → S → Prop) : Except (Stop ε) α → S → Prop
  | .ok a,    s => (f a).wp env s Q
  | .error e, s => Q (.error e) s

@[simp] theorem continuesWith_ok (f : α → Proc E S ε β) (env : E)
    (Q : Except (Stop ε) β → S → Prop) (a : α) (s : S) :
    continuesWith f env Q (.ok a) s ↔ (f a).wp env s Q := Iff.rfl

@[simp] theorem continuesWith_error (f : α → Proc E S ε β) (env : E)
    (Q : Except (Stop ε) β → S → Prop) (e : Stop ε) (s : S) :
    continuesWith f env Q (.error e) s ↔ Q (.error e) s := Iff.rfl

theorem wp_bind {m : Proc E S ε α} {f : α → Proc E S ε β} {env : E} {s : S}
    {Q : Except (Stop ε) β → S → Prop} :
    (m >>= f).wp env s Q ↔ m.wp env s (continuesWith f env Q) := by
  show Q (andThen m f env s).1 (andThen m f env s).2 ↔ _
  unfold wp andThen
  rcases m env s with ⟨_ | a, s'⟩ <;> exact Iff.rfl

@[simp] theorem wp_pure {a : α} {env : E} {s : S} {Q : Except (Stop ε) α → S → Prop} :
    (pure a : Proc E S ε α).wp env s Q ↔ Q (.ok a) s := Iff.rfl

@[simp] theorem wp_stop {e : Stop ε} {env : E} {s : S} {Q : Except (Stop ε) α → S → Prop} :
    (stop e : Proc E S ε α).wp env s Q ↔ Q (.error e) s := Iff.rfl

@[simp] theorem wp_throw {e : ε} {env : E} {s : S} {Q : Except (Stop ε) α → S → Prop} :
    (throw e : Proc E S ε α).wp env s Q ↔ Q (.error (.thrown e)) s := Iff.rfl

@[simp] theorem wp_get {env : E} {s : S} {Q : Except (Stop ε) S → S → Prop} :
    (get : Proc E S ε S).wp env s Q ↔ Q (.ok s) s := Iff.rfl

@[simp] theorem wp_read {env : E} {s : S} {Q : Except (Stop ε) E → S → Prop} :
    (read : Proc E S ε E).wp env s Q ↔ Q (.ok env) s := Iff.rfl

@[simp] theorem wp_modify {f : S → S} {env : E} {s : S}
    {Q : Except (Stop ε) PUnit → S → Prop} :
    (modify f : Proc E S ε PUnit).wp env s Q ↔ Q (.ok ⟨⟩) (f s) := Iff.rfl

/-- What a guarded process has to establish once its body has ended. -/
def handledBy (h : ε → Proc E S ε α) (env : E)
    (Q : Except (Stop ε) α → S → Prop) : Except (Stop ε) α → S → Prop
  | .error (.thrown e), s => (h e).wp env s Q
  | r, s                  => Q r s

@[simp] theorem handledBy_ok (h : ε → Proc E S ε α) (env : E)
    (Q : Except (Stop ε) α → S → Prop) (a : α) (s : S) :
    handledBy h env Q (.ok a) s ↔ Q (.ok a) s := Iff.rfl

@[simp] theorem handledBy_thrown (h : ε → Proc E S ε α) (env : E)
    (Q : Except (Stop ε) α → S → Prop) (e : ε) (s : S) :
    handledBy h env Q (.error (.thrown e)) s ↔ (h e).wp env s Q := Iff.rfl

@[simp] theorem handledBy_crashed (h : ε → Proc E S ε α) (env : E)
    (Q : Except (Stop ε) α → S → Prop) (s : S) :
    handledBy h env Q (.error .crashed) s ↔ Q (.error .crashed) s := Iff.rfl

@[simp] theorem handledBy_unfinished (h : ε → Proc E S ε α) (env : E)
    (Q : Except (Stop ε) α → S → Prop) (s : S) :
    handledBy h env Q (.error .unfinished) s ↔ Q (.error .unfinished) s := Iff.rfl

theorem wp_tryCatch {m : Proc E S ε α} {h : ε → Proc E S ε α} {env : E} {s : S}
    {Q : Except (Stop ε) α → S → Prop} :
    (tryCatch m h).wp env s Q ↔ m.wp env s (handledBy h env Q) := by
  show Q (handle m h env s).1 (handle m h env s).2 ↔ _
  unfold wp handle
  rcases m env s with ⟨(_ | _ | _) | a, s'⟩ <;> exact Iff.rfl

/-- The rule a caller uses: a specification of `m`, then the rest for each of
    the endings it allows. -/
theorem wp_seq {m : Proc E S ε α} {f : α → Proc E S ε β} {env : E} {s : S}
    {P : Except (Stop ε) α → S → Prop} {Q : Except (Stop ε) β → S → Prop}
    (hm : m.wp env s P)
    (hok : ∀ a s', P (.ok a) s' → (f a).wp env s' Q)
    (herr : ∀ e s', P (.error e) s' → Q (.error e) s') : (m >>= f).wp env s Q := by
  refine wp_bind.mpr (wp_mono hm ?_)
  intro r s' hP
  cases r with
  | ok a    => exact hok a s' hP
  | error e => exact herr e s' hP

/-- The rule for a guarded call: the handler answers the thrown errors. -/
theorem wp_guard {m : Proc E S ε α} {h : ε → Proc E S ε α} {env : E} {s : S}
    {P Q : Except (Stop ε) α → S → Prop}
    (hm : m.wp env s P)
    (hok : ∀ a s', P (.ok a) s' → Q (.ok a) s')
    (hthrown : ∀ e s', P (.error (.thrown e)) s' → (h e).wp env s' Q)
    (hcrashed : ∀ s', P (.error .crashed) s' → Q (.error .crashed) s')
    (hunfinished : ∀ s', P (.error .unfinished) s' → Q (.error .unfinished) s') :
    (tryCatch m h).wp env s Q := by
  refine wp_tryCatch.mpr (wp_mono hm ?_)
  intro r s' hP
  match r with
  | .ok a                => exact hok a s' hP
  | .error (.thrown e)   => exact hthrown e s' hP
  | .error .crashed      => exact hcrashed s' hP
  | .error .unfinished   => exact hunfinished s' hP

/-! ## Section 3: Loops -/

/-- What one round of a loop has to establish: the invariant where the loop goes
    on, the postcondition where it ends. -/
def roundEnds (I : σ → S → Prop) (Q : Except (Stop ε) β → S → Prop) :
    Except (Stop ε) (σ ⊕ β) → S → Prop
  | .ok (.inl a), s => I a s
  | .ok (.inr b), s => Q (.ok b) s
  | .error e,     s => Q (.error e) s

@[simp] theorem roundEnds_inl (I : σ → S → Prop) (Q : Except (Stop ε) β → S → Prop)
    (a : σ) (s : S) : roundEnds I Q (.ok (.inl a)) s ↔ I a s := Iff.rfl

@[simp] theorem roundEnds_inr (I : σ → S → Prop) (Q : Except (Stop ε) β → S → Prop)
    (b : β) (s : S) : roundEnds I Q (.ok (.inr b)) s ↔ Q (.ok b) s := Iff.rfl

@[simp] theorem roundEnds_error (I : σ → S → Prop) (Q : Except (Stop ε) β → S → Prop)
    (e : Stop ε) (s : S) : roundEnds I Q (.error e) s ↔ Q (.error e) s := Iff.rfl

private theorem wp_iterate_succ {body : σ → Proc E S ε (σ ⊕ β)} {n : Nat} {a : σ}
    {env : E} {s : S} {I : σ → S → Prop} {Q : Except (Stop ε) β → S → Prop}
    (hbody : (body a).wp env s (roundEnds I Q))
    (hnext : ∀ a' s', I a' s' → (iterate body n a').wp env s' Q) :
    (iterate body (n + 1) a).wp env s Q := by
  refine wp_seq hbody ?_ (fun e s' he => he)
  intro c s' hc
  cases c with
  | inl a' => exact hnext a' s' hc
  | inr b  => exact hc

/-- **Loop rule.** An invariant that each round keeps holds when the loop ends,
    also where the bound on the rounds cut it off. -/
theorem wp_iterate {body : σ → Proc E S ε (σ ⊕ β)} {env : E}
    (I : σ → S → Prop) {Q : Except (Stop ε) β → S → Prop}
    (hround : ∀ a s, I a s → (body a).wp env s (roundEnds I Q))
    (hcut : ∀ a s, I a s → Q (.error .unfinished) s) :
    ∀ (n : Nat) (a : σ) (s : S), I a s → (iterate body n a).wp env s Q
  | 0,     a, s, h => hcut a s h
  | n + 1, a, s, h =>
      wp_iterate_succ (hround a s h) (fun a' s' h' => wp_iterate I hround hcut n a' s' h')

/-- **Terminating loop rule.** When each round that goes on lowers a measure, a
    bound above the measure is never reached. -/
theorem wp_iterate_of_measure {body : σ → Proc E S ε (σ ⊕ β)} {env : E}
    (I : σ → S → Prop) (μ : σ → S → Nat) {Q : Except (Stop ε) β → S → Prop}
    (hround : ∀ a s, I a s →
      (body a).wp env s (roundEnds (fun a' s' => I a' s' ∧ μ a' s' < μ a s) Q)) :
    ∀ (n : Nat) (a : σ) (s : S), I a s → μ a s < n → (iterate body n a).wp env s Q
  | 0,     _, _, _, hn => absurd hn (Nat.not_lt_zero _)
  | n + 1, a, s, h, hn =>
      wp_iterate_succ (hround a s h) (fun a' s' h' =>
        wp_iterate_of_measure I μ hround n a' s' h'.1
          (Nat.lt_of_lt_of_le h'.2 (Nat.le_of_lt_succ hn)))

/-! ## Section 4: Processes that stay within a relation

    `Stays P R m`: started where `P` holds, `m` moves the state along `R`
    whatever happens, and re-establishes `P` unless it was killed half way. For
    a reflexive and transitive `R` this passes through every way of building a
    process, so it is proved once for each primitive. -/

/-- A relation that holds of no step and of two in a row. -/
structure IsPreorderRel (R : S → S → Prop) : Prop where
  refl  : ∀ s, R s s
  trans : ∀ {s s' s''}, R s s' → R s' s'' → R s s''

def Stays (P : S → Prop) (R : S → S → Prop) (m : Proc E S ε α) : Prop :=
  ∀ env s, P s → m.wp env s (fun r s' => R s s' ∧ (r ≠ .error .crashed → P s'))

section Stays

variable {P : S → Prop} {R : S → S → Prop}

theorem stays_pure (hR : IsPreorderRel R) (a : α) : Stays P R (pure a : Proc E S ε α) :=
  fun _ s hP => ⟨hR.refl s, fun _ => hP⟩

theorem stays_throw (hR : IsPreorderRel R) (e : ε) : Stays P R (throw e : Proc E S ε α) :=
  fun _ s hP => ⟨hR.refl s, fun _ => hP⟩

theorem stays_get (hR : IsPreorderRel R) : Stays P R (get : Proc E S ε S) :=
  fun _ s hP => ⟨hR.refl s, fun _ => hP⟩

theorem stays_bind (hR : IsPreorderRel R) {m : Proc E S ε α} {f : α → Proc E S ε β}
    (hm : Stays P R m) (hf : ∀ a, Stays P R (f a)) : Stays P R (m >>= f) := by
  intro env s hP
  refine wp_seq (hm env s hP) ?_ ?_
  · rintro a s' ⟨hs, hP'⟩
    refine wp_mono (hf a env s' (hP' (by simp))) ?_
    rintro r s'' ⟨hs', hP''⟩
    exact ⟨hR.trans hs hs', hP''⟩
  · rintro e s' ⟨hs, hP'⟩
    exact ⟨hs, fun he => hP' (by simpa using he)⟩

theorem stays_tryCatch (hR : IsPreorderRel R) {m : Proc E S ε α} {h : ε → Proc E S ε α}
    (hm : Stays P R m) (hh : ∀ e, Stays P R (h e)) : Stays P R (tryCatch m h) := by
  intro env s hP
  refine wp_guard (hm env s hP) (fun a s' h' => ⟨h'.1, fun _ => h'.2 (by simp)⟩) ?_
    (fun s' h' => ⟨h'.1, fun hne => absurd rfl hne⟩) (fun s' h' => ⟨h'.1, fun _ => h'.2 (by simp)⟩)
  rintro e s' ⟨hs, hP'⟩
  refine wp_mono (hh e env s' (hP' (by simp))) ?_
  rintro r s'' ⟨hs', hP''⟩
  exact ⟨hR.trans hs hs', hP''⟩

theorem stays_ite {c : Prop} [Decidable c] {m m' : Proc E S ε α} (hm : Stays P R m)
    (hm' : Stays P R m') : Stays P R (if c then m else m') := by
  split
  · exact hm
  · exact hm'

/-- A stronger relation will do. -/
theorem Stays.mono {R' : S → S → Prop} {m : Proc E S ε α} (h : Stays P R m)
    (hRR : ∀ s s', R s s' → R' s s') : Stays P R' m := by
  intro env s hP
  refine wp_mono (h env s hP) ?_
  rintro r s' ⟨hs, hP'⟩
  exact ⟨hRR s s' hs, hP'⟩

end Stays

/-! ## Section 5: Triples over an invariant

    `Maintains K P m Q`: started where `P` holds and `K` is kept, `m` keeps `K`
    however it ends, and a value it answers satisfies `Q`. The rules pass `P`
    along as a Hoare triple does. Of a killed process only the durable part of
    `K` is asked. -/

/-- What a process keeps: `live` as long as it runs, `durable` where it is killed. -/
structure Keep (S : Type) where
  live    : S → Prop
  durable : S → Prop

/-- What is kept at the end of a process. -/
def Keep.ends (K : Keep S) : Except (Stop ε) α → S → Prop
  | .error .crashed, s => K.durable s
  | _,               s => K.live s

def Maintains (K : Keep S) (P : S → Prop) (m : Proc E S ε α) (Q : α → S → Prop) : Prop :=
  ∀ env s, K.live s → P s → m.wp env s (fun r s' => K.ends r s' ∧ ∀ a, r = .ok a → Q a s')

section Maintains

variable {K : Keep S} {P P' : S → Prop} {Q : α → S → Prop}

theorem Keep.ends_error {e : Stop ε} {s : S} (h : K.ends (.error e : Except (Stop ε) α) s) :
    K.ends (.error e : Except (Stop ε) β) s := by
  cases e with
  | thrown e   => exact h
  | crashed    => exact h
  | unfinished => exact h

theorem maintains_pure {a : α} (h : ∀ s, P s → Q a s) :
    Maintains K P (pure a : Proc E S ε α) Q := by
  intro env s hK hP
  refine ⟨hK, fun b hb => ?_⟩
  cases hb
  exact h s hP

theorem maintains_throw (e : ε) : Maintains K P (throw e : Proc E S ε α) Q :=
  fun _ _ hK _ => ⟨hK, nofun⟩

theorem maintains_modify {f : S → S} {Q : PUnit → S → Prop}
    (h : ∀ s, K.live s → P s → K.live (f s) ∧ Q ⟨⟩ (f s)) :
    Maintains K P (modify f : Proc E S ε PUnit) Q := by
  intro env s hK hP
  obtain ⟨hK', hQ⟩ := h s hK hP
  exact ⟨hK', fun _ _ => hQ⟩

/-- **Sequencing.** -/
theorem maintains_bind {R : α → S → Prop} {m : Proc E S ε α} {f : α → Proc E S ε β}
    {Q : β → S → Prop} (hm : Maintains K P m R) (hf : ∀ a, Maintains K (R a) (f a) Q) :
    Maintains K P (m >>= f) Q := by
  intro env s hK hP
  refine wp_seq (hm env s hK hP) ?_ ?_
  · intro a s' h
    exact hf a env s' h.1 (h.2 a rfl)
  · intro e s' h
    exact ⟨Keep.ends_error h.1, nofun⟩

/-- A read of the state is a case split on it. -/
theorem maintains_get_bind {f : S → Proc E S ε β} {Q : β → S → Prop}
    (h : ∀ s, K.live s → P s → Maintains K (fun s' => P s' ∧ s' = s) (f s) Q) :
    Maintains K P (get >>= f) Q := by
  intro env s hK hP
  rw [wp_bind, wp_get, continuesWith_ok]
  exact h s hK hP env s hK ⟨hP, rfl⟩

theorem maintains_tryCatch {m : Proc E S ε α} {h : ε → Proc E S ε α} (hm : Maintains K P m Q)
    (hh : ∀ e, Maintains K (fun _ => True) (h e) Q) : Maintains K P (tryCatch m h) Q := by
  intro env s hK hP
  refine wp_guard (hm env s hK hP) ?_ ?_ ?_ ?_
  · exact fun a s' h' => h'
  · exact fun e s' h' => hh e env s' h'.1 trivial
  · exact fun s' h' => ⟨h'.1, nofun⟩
  · exact fun s' h' => ⟨h'.1, nofun⟩

/-- A guarded call whose body keeps more, which the handler then starts from. -/
theorem maintains_guard {L : Keep S} {R : α → S → Prop} {m : Proc E S ε α}
    {h : ε → Proc E S ε α} (hstart : ∀ s, K.live s → P s → L.live s) (hm : Maintains L P m R)
    (hlive : ∀ s, L.live s → K.live s) (hdurable : ∀ s, L.durable s → K.durable s)
    (hok : ∀ a s, L.live s → R a s → Q a s) (hh : ∀ e, Maintains K L.live (h e) Q) :
    Maintains K P (tryCatch m h) Q := by
  intro env s hK hP
  refine wp_guard (hm env s (hstart s hK hP) hP) ?_ ?_ ?_ ?_
  · intro a s' h'
    have hmore : L.live s' := h'.1
    refine ⟨hlive s' hmore, fun b hb => ?_⟩
    cases hb
    exact hok a s' hmore (h'.2 a rfl)
  · exact fun e s' h' => hh e env s' (hlive s' h'.1) h'.1
  · exact fun s' h' => ⟨hdurable s' h'.1, nofun⟩
  · exact fun s' h' => ⟨hlive s' h'.1, nofun⟩

theorem maintains_ite {c : Prop} [Decidable c] {m m' : Proc E S ε α}
    (hm : c → Maintains K P m Q) (hm' : ¬c → Maintains K P m' Q) :
    Maintains K P (if c then m else m') Q := by
  by_cases hc : c
  · rw [if_pos hc]; exact hm hc
  · rw [if_neg hc]; exact hm' hc

/-- The rule for a loop, with an invariant of its own. -/
theorem maintains_iterate {body : σ → Proc E S ε (σ ⊕ α)} {R : σ → S → Prop}
    (hbody : ∀ a, Maintains K (R a) (body a) (fun c s => match c with
      | .inl a' => R a' s
      | .inr b  => Q b s)) (n : Nat) (a : σ) : Maintains K (R a) (iterate body n a) Q := by
  induction n generalizing a with
  | zero => exact fun _ _ hK _ => ⟨hK, nofun⟩
  | succ n ih =>
    refine maintains_bind (hbody a) (fun c => ?_)
    cases c with
    | inl a' => exact ih a'
    | inr b  => exact maintains_pure (fun _ h => h)

/-- The rule of consequence. -/
theorem Maintains.weaken {Q' : α → S → Prop} {m : Proc E S ε α} (h : Maintains K P m Q)
    (hP : ∀ s, K.live s → P' s → P s) (hQ : ∀ a s, Q a s → Q' a s) : Maintains K P' m Q' := by
  intro env s hK hP'
  refine wp_mono (h env s hK (hP s hK hP')) ?_
  intro r s' h'
  exact ⟨h'.1, fun a ha => hQ a s' (h'.2 a ha)⟩

/-- A fact from the precondition that does not depend on the state. -/
theorem maintains_of_pure {p : Prop} {m : Proc E S ε α} (h : p → Maintains K P m Q) :
    Maintains K (fun s => p ∧ P s) m Q :=
  fun env s hK hP => h hP.1 env s hK hP.2

end Maintains

/-! ## Section 6: Triples under one environment

    `Within env I m Q F`: against the answers of `env`, and started where `I` holds, `m`
    keeps `I`, a value it answers satisfies `Q` and an error it throws satisfies `F`. -/

def Within (env : E) (I : S → Prop) (m : Proc E S ε α) (Q : α → Prop) (F : ε → Prop) : Prop :=
  ∀ s, I s → m.wp env s (fun r s' =>
    I s' ∧ (∀ a, r = .ok a → Q a) ∧ ∀ e, r = .error (.thrown e) → F e)

section Within

variable {env : E} {I : S → Prop} {Q : α → Prop} {F : ε → Prop}

theorem within_pure {a : α} (h : Q a) : Within env I (pure a : Proc E S ε α) Q F := by
  intro s hI
  refine ⟨hI, fun b hb => ?_, nofun⟩
  cases hb
  exact h

theorem within_throw {e : ε} (h : F e) : Within env I (throw e : Proc E S ε α) Q F := by
  intro s hI
  refine ⟨hI, nofun, fun e' he' => ?_⟩
  cases he'
  exact h

theorem within_bind {R : α → Prop} {m : Proc E S ε α} {f : α → Proc E S ε β} {Q : β → Prop}
    (hm : Within env I m R F) (hf : ∀ a, R a → Within env I (f a) Q F) :
    Within env I (m >>= f) Q F := by
  intro s hI
  refine wp_seq (hm s hI) ?_ ?_
  · intro a s' h
    exact hf a (h.2.1 a rfl) s' h.1
  · intro e s' h
    refine ⟨h.1, nofun, fun e' he' => ?_⟩
    cases he'
    exact h.2.2 e' rfl

theorem within_modify {f : S → S} {Q : PUnit → Prop} (h : ∀ s, I s → I (f s)) (hQ : Q ⟨⟩) :
    Within env I (modify f : Proc E S ε PUnit) Q F :=
  fun s hI => ⟨h s hI, fun _ _ => hQ, nofun⟩

/-- A read of the state says that the invariant holds of it. -/
theorem within_get : Within env I (get : Proc E S ε S) I F := by
  intro s hI
  refine ⟨hI, fun s' hs' => ?_, nofun⟩
  cases hs'
  exact hI

theorem within_read {Q : E → Prop} (h : Q env) : Within env I (read : Proc E S ε E) Q F := by
  intro s hI
  refine ⟨hI, fun env' henv' => ?_, nofun⟩
  cases henv'
  exact h

theorem within_ite {c : Prop} [Decidable c] {m m' : Proc E S ε α} (hm : c → Within env I m Q F)
    (hm' : ¬ c → Within env I m' Q F) : Within env I (if c then m else m') Q F := by
  by_cases hc : c
  · rw [if_pos hc]
    exact hm hc
  · rw [if_neg hc]
    exact hm' hc

/-- The rule of consequence. -/
theorem Within.weaken {Q' : α → Prop} {F' : ε → Prop} {m : Proc E S ε α} (h : Within env I m Q F)
    (hQ : ∀ a, Q a → Q' a) (hF : ∀ e, F e → F' e) : Within env I m Q' F' := by
  intro s hI
  refine wp_mono (h s hI) ?_
  intro r s' h'
  exact ⟨h'.1, fun a ha => hQ a (h'.2.1 a ha), fun e he => hF e (h'.2.2 e he)⟩

theorem within_true (m : Proc E S ε α) :
    Within env (fun _ => True) m (fun _ => True) (fun _ => True) :=
  fun _ _ => ⟨trivial, fun _ _ => trivial, fun _ _ => trivial⟩

/-- A value that was answered. -/
theorem Within.answered {m : Proc E S ε α} (h : Within env I m Q F) {s s' : S} {a : α} (hI : I s)
    (hrun : m env s = (.ok a, s')) : Q a := by
  have hends := h s hI
  unfold wp at hends
  rw [hrun] at hends
  exact hends.2.1 a rfl

end Within

/-! ## Section 7: Runs -/

theorem run_bind {m : Proc E S ε α} {f : α → Proc E S ε β} {env : E} {s s' : S} {a : α}
    (h : m env s = (.ok a, s')) : (m >>= f) env s = f a env s' := by
  show andThen m f env s = _
  unfold andThen
  rw [h]

@[simp] theorem run_pure (a : α) (env : E) (s : S) :
    (pure a : Proc E S ε α) env s = (.ok a, s) := rfl

/-- A sequence that answers is a first part that answers and a rest that does. -/
theorem exists_of_run_bind {m : Proc E S ε α} {f : α → Proc E S ε β} {env : E} {s s' : S} {b : β}
    (h : (m >>= f) env s = (.ok b, s')) :
    ∃ a t, m env s = (.ok a, t) ∧ f a env t = (.ok b, s') := by
  have h : andThen m f env s = (.ok b, s') := h
  unfold andThen at h
  match hm : m env s with
  | (.ok a, t) =>
    rw [hm] at h
    exact ⟨a, t, rfl, h⟩
  | (.error e, t) =>
    rw [hm] at h
    cases h

/-! ## Section 8: Total triples

    `Answers env m Q`: against the answers of `env`, and wherever it is started, `m`
    answers a value that satisfies `Q`. -/

def Answers (env : E) (m : Proc E S ε α) (Q : α → Prop) : Prop :=
  ∀ s, ∃ a s', m env s = (.ok a, s') ∧ Q a

theorem answers_pure {env : E} {a : α} {Q : α → Prop} (h : Q a) :
    Answers env (pure a : Proc E S ε α) Q :=
  fun s => ⟨a, s, rfl, h⟩

theorem answers_bind {env : E} {R : α → Prop} {Q : β → Prop} {m : Proc E S ε α}
    {f : α → Proc E S ε β} (hm : Answers env m R) (hf : ∀ a, R a → Answers env (f a) Q) :
    Answers env (m >>= f) Q := by
  intro s
  obtain ⟨a, t, hrun, hR⟩ := hm s
  obtain ⟨b, s', hrest, hQ⟩ := hf a hR t
  exact ⟨b, s', (run_bind hrun).trans hrest, hQ⟩

theorem answers_modify {env : E} {f : S → S} {Q : PUnit → Prop} (h : Q ⟨⟩) :
    Answers env (modify f : Proc E S ε PUnit) Q :=
  fun s => ⟨⟨⟩, f s, rfl, h⟩

theorem answers_get {env : E} : Answers env (get : Proc E S ε S) (fun _ => True) :=
  fun s => ⟨s, s, rfl, trivial⟩

theorem answers_read {env : E} {Q : E → Prop} (h : Q env) :
    Answers env (read : Proc E S ε E) Q :=
  fun s => ⟨env, s, rfl, h⟩

theorem answers_tryCatch {env : E} {Q : α → Prop} {m : Proc E S ε α} {h : ε → Proc E S ε α}
    (hm : Answers env m Q) : Answers env (tryCatch m h) Q := by
  intro s
  obtain ⟨a, s', hrun, ha⟩ := hm s
  refine ⟨a, s', ?_, ha⟩
  show handle m h env s = (.ok a, s')
  unfold handle
  rw [hrun]

theorem answers_ite {env : E} {Q : α → Prop} {c : Prop} [Decidable c] {m n : Proc E S ε α}
    (hm : Answers env m Q) (hn : Answers env n Q) : Answers env (if c then m else n) Q := by
  split
  · exact hm
  · exact hn

theorem Answers.weaken {env : E} {Q Q' : α → Prop} {m : Proc E S ε α} (h : Answers env m Q)
    (hQ : ∀ a, Q a → Q' a) : Answers env m Q' := by
  intro s
  obtain ⟨a, s', hrun, ha⟩ := h s
  exact ⟨a, s', hrun, hQ a ha⟩

/-! ## Section 9: Two processes

    `Agree m m' R`: whatever environments two processes run against and wherever they
    are started, two values they answer are related. Nothing is said where one of them
    answers none. -/

def Agree (m : Proc E S ε α) (m' : Proc E S ε β) (R : α → β → Prop) : Prop :=
  ∀ env s env' s' a t b t', m env s = (.ok a, t) → m' env' s' = (.ok b, t') → R a b

section Agree

variable {γ δ : Type} {R : α → β → Prop}

theorem agree_pure {a : α} {b : β} (h : R a b) :
    Agree (pure a : Proc E S ε α) (pure b : Proc E S ε β) R := by
  intro env s env' s' a' t b' t' hrun hrun'
  cases hrun
  cases hrun'
  exact h

theorem agree_throw (e : ε) (m' : Proc E S ε β) : Agree (throw e : Proc E S ε α) m' R := by
  intro env s env' s' a t b t' hrun
  cases hrun

/-- **Sequencing.** -/
theorem agree_bind {m : Proc E S ε α} {m' : Proc E S ε β} {f : α → Proc E S ε γ}
    {f' : β → Proc E S ε δ} {Q : γ → δ → Prop} (hm : Agree m m' R)
    (hf : ∀ a b, R a b → Agree (f a) (f' b) Q) : Agree (m >>= f) (m' >>= f') Q := by
  intro env s env' s' c t d t' hrun hrun'
  obtain ⟨a, u, hfirst, hrest⟩ := exists_of_run_bind hrun
  obtain ⟨b, u', hfirst', hrest'⟩ := exists_of_run_bind hrun'
  exact hf a b (hm _ _ _ _ _ _ _ _ hfirst hfirst') _ _ _ _ _ _ _ _ hrest hrest'

theorem agree_ite {c : Prop} [Decidable c] {m n : Proc E S ε α} {m' n' : Proc E S ε β}
    (hm : Agree m m' R) (hn : Agree n n' R) :
    Agree (if c then m else n) (if c then m' else n') R := by
  split
  · exact hm
  · exact hn

/-- What each of the two answers under every environment. -/
theorem agree_of_within {Q : α → Prop} {Q' : β → Prop} {m : Proc E S ε α} {m' : Proc E S ε β}
    (hm : ∀ env, Within env (fun _ => True) m Q (fun _ => True))
    (hm' : ∀ env, Within env (fun _ => True) m' Q' (fun _ => True)) :
    Agree m m' (fun a b => Q a ∧ Q' b) :=
  fun env _ env' _ _ _ _ _ hrun hrun' =>
    ⟨(hm env).answered trivial hrun, (hm' env').answered trivial hrun'⟩

theorem Agree.weaken {R' : α → β → Prop} {m : Proc E S ε α} {m' : Proc E S ε β}
    (h : Agree m m' R) (hR : ∀ a b, R a b → R' a b) : Agree m m' R' :=
  fun _ _ _ _ _ _ _ _ hrun hrun' => hR _ _ (h _ _ _ _ _ _ _ _ hrun hrun')

end Agree

/-! ## Section 10: Processes that settle

    `Settles m`: `m` answers or throws, under every environment and from every state; it
    is neither killed nor cut off by the bound of a loop. -/

def settled : Except (Stop ε) α → Prop
  | .ok _              => True
  | .error (.thrown _) => True
  | .error _           => False

def Settles (m : Proc E S ε α) : Prop :=
  ∀ env s, m.wp env s (fun ended _ => settled ended)

theorem settles_pure (a : α) : Settles (pure a : Proc E S ε α) := fun _ _ => trivial

theorem settles_throw (e : ε) : Settles (throw e : Proc E S ε α) := fun _ _ => trivial

theorem settles_get : Settles (get : Proc E S ε S) := fun _ _ => trivial

theorem settles_read : Settles (read : Proc E S ε E) := fun _ _ => trivial

theorem settles_modify (f : S → S) : Settles (modify f : Proc E S ε PUnit) := fun _ _ => trivial

theorem settles_bind {m : Proc E S ε α} {f : α → Proc E S ε β} (hm : Settles m)
    (hf : ∀ a, Settles (f a)) : Settles (m >>= f) := by
  intro env s
  refine wp_seq (hm env s) (fun a s' _ => hf a env s') ?_
  intro e s' h
  cases e with
  | thrown e => trivial
  | crashed => exact h
  | unfinished => exact h

theorem settles_tryCatch {m : Proc E S ε α} {h : ε → Proc E S ε α} (hm : Settles m)
    (hh : ∀ e, Settles (h e)) : Settles (tryCatch m h) :=
  fun env s => wp_guard (hm env s) (fun _ _ hok => hok) (fun e s' _ => hh e env s')
    (fun _ hcrashed => hcrashed) (fun _ hcut => hcut)

/-- A process that settles answers where what it throws is handled. -/
theorem answers_handled {env : E} {m : Proc E S ε α} {h : ε → Proc E S ε α} (hm : Settles m)
    (hh : ∀ e, Answers env (h e) (fun _ => True)) : Answers env (tryCatch m h) (fun _ => True) := by
  intro s
  have hends := hm env s
  show ∃ a s', handle m h env s = (.ok a, s') ∧ True
  unfold handle
  unfold wp at hends
  cases hrun : m env s with
  | mk ended s' =>
    rw [hrun] at hends
    cases ended with
    | ok a => exact ⟨a, s', rfl, trivial⟩
    | error e =>
      cases e with
      | thrown e => exact hh e s'
      | crashed => exact hends.elim
      | unfinished => exact hends.elim

theorem settles_ite {c : Prop} [Decidable c] {m n : Proc E S ε α} (hm : Settles m)
    (hn : Settles n) : Settles (if c then m else n) := by
  split
  · exact hm
  · exact hn

end Proc
