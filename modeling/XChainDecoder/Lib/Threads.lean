import Mathlib.Logic.Relation
import Mathlib.Logic.Function.Basic

/-! # Threads over a shared state

    A program is a tree of calls (`Prog`): what it does next depends on how the last
    call was answered. Any number of programs call one shared state in any order, the
    surroundings change it in between, and a program may be killed at any call.

    A fact about one program is proved against a `Protocol`: what it may rely on from
    the others, what it guarantees to them, how its calls are answered. `Prog.Holds`
    is the weakest precondition under such a protocol. Programs that keep what each
    relies on may run together (`Threads.Keeps.run`). -/

/-- A program that calls `c : C` and is answered with an `A c`. -/
inductive Prog (C : Type) (A : C → Type) (β : Type) where
  | ret (b : β)
  | call (c : C) (k : A c → Prog C A β)

namespace Prog

variable {C : Type} {A : C → Type} {β γ σ : Type}

def andThen (f : β → Prog C A γ) : Prog C A β → Prog C A γ
  | .ret b    => f b
  | .call c k => .call c (fun a => (k a).andThen f)

/-! ## Section 1: Protocols -/

/-- The terms on which a program shares the state. -/
structure Protocol (C : Type) (A : C → Type) (σ : Type) where
  /-- what the others may do between two calls -/
  rely      : σ → σ → Prop
  /-- what a call of this program may do -/
  guarantee : σ → σ → Prop
  answers   : (c : C) → σ → A c → σ → Prop

variable {π : Protocol C A σ} {s s' : σ}

def Protocol.Stable (π : Protocol C A σ) (P : σ → Prop) : Prop :=
  ∀ s s', π.rely s s' → P s → P s'

theorem Protocol.Stable.closure {P : σ → Prop} (h : π.Stable P)
    (hrely : Relation.ReflTransGen π.rely s s') (hs : P s) : P s' := by
  induction hrely with
  | refl => exact hs
  | tail _ hstep ih => exact h _ _ hstep ih

/-- A fact that is not about the state does not make an assertion less stable. -/
theorem Protocol.Stable.known {φ : Prop} {P : σ → Prop} (h : π.Stable P) :
    π.Stable (fun s => φ ∧ P s) :=
  fun s s' hrely hs => ⟨hs.1, h s s' hrely hs.2⟩

/-- Whatever the others do, every call keeps the guarantee, and `Q` holds of the result
    from the end of the program on. -/
def Holds (π : Protocol C A σ) : Prog C A β → (β → σ → Prop) → σ → Prop
  | .ret b,    Q, s => ∀ s', Relation.ReflTransGen π.rely s s' → Q b s'
  | .call c k, Q, s => ∀ s', Relation.ReflTransGen π.rely s s' →
      ∀ a s'', π.answers c s' a s'' → π.guarantee s' s'' ∧ (k a).Holds π Q s''

theorem Holds.relies {p : Prog C A β} {Q : β → σ → Prop} (h : p.Holds π Q s)
    (hrely : Relation.ReflTransGen π.rely s s') : p.Holds π Q s' := by
  cases p with
  | ret b    => exact fun s'' hs'' => h s'' (hrely.trans hs'')
  | call c k => exact fun s'' hs'' => h s'' (hrely.trans hs'')

/-! ## Section 2: Rules -/

theorem holds_ret {b : β} {Q : β → σ → Prop} (hstable : π.Stable (Q b)) (h : Q b s) :
    (Prog.ret b : Prog C A β).Holds π Q s :=
  fun _ hrely => hstable.closure hrely h

/-- A call from a state where a stable assertion holds. -/
theorem holds_call {P : σ → Prop} {c : C} {k : A c → Prog C A β} {Q : β → σ → Prop}
    (hstable : π.Stable P) (h : P s)
    (hcall : ∀ s a s', P s → π.answers c s a s' → π.guarantee s s' ∧ (k a).Holds π Q s') :
    (Prog.call c k).Holds π Q s :=
  fun s' hrely a s'' ha => hcall s' a s'' (hstable.closure hrely h) ha

/-- The result may be read at any later time. -/
theorem Holds.mono {p : Prog C A β} {Q Q' : β → σ → Prop}
    (hQ : ∀ b s, (∀ s', Relation.ReflTransGen π.rely s s' → Q b s') → Q' b s) :
    ∀ {s : σ}, p.Holds π Q s → p.Holds π Q' s := by
  -- by induction on the tree; at its end the rest of the surroundings is still to come
  induction p with
  | ret b => exact fun h s' hs' => hQ b s' (fun s'' hs'' => h s'' (hs'.trans hs''))
  | call c k ih =>
    intro s h s' hs' a s'' ha
    obtain ⟨hguarantee, hrest⟩ := h s' hs' a s'' ha
    exact ⟨hguarantee, ih a hrest⟩

theorem holds_andThen {p : Prog C A β} {f : β → Prog C A γ} {Q : γ → σ → Prop} :
    ∀ {s : σ}, p.Holds π (fun b s' => (f b).Holds π Q s') s → (p.andThen f).Holds π Q s := by
  induction p with
  -- the second program starts where the first one ends
  | ret b => exact fun h => h _ Relation.ReflTransGen.refl
  | call c k ih =>
    intro s h s' hs' a s'' ha
    obtain ⟨hguarantee, hrest⟩ := h s' hs' a s'' ha
    exact ⟨hguarantee, ih a hrest⟩

/-- What the others and the program itself leave true, holds at the end too. -/
theorem Holds.frame {p : Prog C A β} {Q : β → σ → Prop} {F : σ → Prop} (hrely : π.Stable F)
    (hguarantee : ∀ s s', π.guarantee s s' → F s → F s') :
    ∀ {s : σ}, p.Holds π Q s → F s → p.Holds π (fun b s' => Q b s' ∧ F s') s := by
  induction p with
  | ret b => exact fun h hF s' hs' => ⟨h s' hs', hrely.closure hs' hF⟩
  | call c k ih =>
    intro s h hF s' hs' a s'' ha
    obtain ⟨hstep, hrest⟩ := h s' hs' a s'' ha
    exact ⟨hstep, ih a hrest (hguarantee _ _ hstep (hrely.closure hs' hF))⟩

end Prog

/-! ## Section 3: Jobs

    A program with variables of its own, which outlive an error it throws. -/

/-- A program over variables `L` that may throw an `ε`. -/
def Job (C : Type) (A : C → Type) (L ε α : Type) : Type := L → Prog C A (Except ε α × L)

namespace Job

variable {C : Type} {A : C → Type} {L ε α β σ : Type} {π : Prog.Protocol C A σ}

def done (a : α) : Job C A L ε α := fun l => .ret (.ok a, l)

def stop (e : ε) : Job C A L ε α := fun l => .ret (.error e, l)

def andThen (m : Job C A L ε α) (f : α → Job C A L ε β) : Job C A L ε β := fun l =>
  (m l).andThen (fun x =>
    match x with
    | (.ok a, l')    => f a l'
    | (.error e, l') => .ret (.error e, l'))

/-- Run `m` to its end and answer how it ended. -/
def attempt (m : Job C A L ε α) : Job C A L ε (Except ε α) := fun l =>
  (m l).andThen (fun x => .ret (.ok x.1, x.2))

def locals : Job C A L ε L := fun l => .ret (.ok l, l)

def update (f : L → L) : Job C A L ε Unit := fun l => .ret (.ok (), f l)

instance : Monad (Job C A L ε) where
  pure := done
  bind := andThen

/-- One call, which answers a value or throws. -/
def ask {V : C → Type} (c : C) : Job C (fun c => Except ε (V c)) L ε (V c) := fun l =>
  .call c (fun a => .ret (a, l))

/-- Answer, or throw, what an attempt came to. -/
def settle : Except ε α → Job C A L ε α
  | .ok a    => done a
  | .error e => stop e

/-- `try m finally f`: an error of `f` takes the place of what `m` came to. -/
def always (m : Job C A L ε α) (f : Job C A L ε Unit) : Job C A L ε α := do
  let r ← m.attempt
  f
  settle r

def when (condition : Prop) [Decidable condition] (m : Job C A L ε Unit) : Job C A L ε Unit :=
  if condition then m else done ()

/-- `try m catch (_) {}` -/
def quietly (m : Job C A L ε α) : Job C A L ε Unit := do
  let _ ← m.attempt

def forEach {δ : Type} (f : δ → Job C A L ε Unit) : List δ → Job C A L ε Unit
  | []      => done ()
  | d :: ds => do
      f d
      forEach f ds

/-- The weakest precondition of a job, over both ways it may end. -/
def Wp (π : Prog.Protocol C A σ) (m : Job C A L ε α) (l : L) (Q : Except ε α → L → σ → Prop)
    (s : σ) : Prop :=
  (m l).Holds π (fun x s' => Q x.1 x.2 s') s

variable {l : L} {s s' : σ} {Q : Except ε α → L → σ → Prop}

theorem Wp.relies {m : Job C A L ε α} (h : m.Wp π l Q s)
    (hrely : Relation.ReflTransGen π.rely s s') : m.Wp π l Q s' :=
  Prog.Holds.relies h hrely

theorem Wp.mono {m : Job C A L ε α} {Q' : Except ε α → L → σ → Prop}
    (h : m.Wp π l Q s) (hQ : ∀ r l' s', Q r l' s' → Q' r l' s') : m.Wp π l Q' s :=
  Prog.Holds.mono (fun x s' hx => hQ x.1 x.2 s' (hx s' Relation.ReflTransGen.refl)) h

theorem Wp.frame {m : Job C A L ε α} {F : σ → Prop} (h : m.Wp π l Q s) (hrely : π.Stable F)
    (hguarantee : ∀ s s', π.guarantee s s' → F s → F s') (hF : F s) :
    m.Wp π l (fun r l' s' => Q r l' s' ∧ F s') s :=
  Prog.Holds.frame hrely hguarantee h hF

theorem wp_done {a : α} (hstable : π.Stable (Q (.ok a) l)) (h : Q (.ok a) l s) :
    (done a : Job C A L ε α).Wp π l Q s :=
  Prog.holds_ret hstable h

theorem wp_stop {e : ε} (hstable : π.Stable (Q (.error e) l)) (h : Q (.error e) l s) :
    (stop e : Job C A L ε α).Wp π l Q s :=
  Prog.holds_ret hstable h

theorem wp_update {f : L → L} {Q : Except ε Unit → L → σ → Prop}
    (hstable : π.Stable (Q (.ok ()) (f l))) (h : Q (.ok ()) (f l) s) :
    (update f : Job C A L ε Unit).Wp π l Q s :=
  Prog.holds_ret hstable h

theorem wp_locals {Q : Except ε L → L → σ → Prop}
    (hstable : π.Stable (Q (.ok l) l)) (h : Q (.ok l) l s) :
    (locals : Job C A L ε L).Wp π l Q s :=
  Prog.holds_ret hstable h

/-- A call from a state where a stable assertion holds. -/
theorem wp_ask {V : C → Type} {π : Prog.Protocol C (fun c => Except ε (V c)) σ} {c : C}
    {P : σ → Prop} {Q : Except ε (V c) → L → σ → Prop} (hP : π.Stable P)
    (hQ : ∀ a, π.Stable (Q a l)) (h : P s)
    (hcall : ∀ s a s', P s → π.answers c s a s' → π.guarantee s s' ∧ Q a l s') :
    (ask c : Job C (fun c => Except ε (V c)) L ε (V c)).Wp π l Q s := by
  apply Prog.holds_call hP h
  intro s a s' hs ha
  obtain ⟨hguarantee, hq⟩ := hcall s a s' hs ha
  exact ⟨hguarantee, Prog.holds_ret (hQ a) hq⟩

/-- `ok` where a job answers, `err` where it throws. -/
def Ends (ok : α → L → σ → Prop) (err : ε → L → σ → Prop) : Except ε α → L → σ → Prop
  | .ok a    => ok a
  | .error e => err e

@[simp] theorem ends_ok (ok : α → L → σ → Prop) (err : ε → L → σ → Prop) (a : α) :
    Ends ok err (.ok a) = ok a := rfl

@[simp] theorem ends_error (ok : α → L → σ → Prop) (err : ε → L → σ → Prop) (e : ε) :
    Ends ok err (.error e) = err e := rfl

/-- A weaker assertion, from what is known of either end. -/
theorem Wp.ends {m : Job C A L ε α} {R : α → L → σ → Prop} {E : ε → L → σ → Prop}
    (h : m.Wp π l (Ends R E) s) (hok : ∀ a l' s', R a l' s' → Q (.ok a) l' s')
    (herr : ∀ e l' s', E e l' s' → Q (.error e) l' s') : m.Wp π l Q s := by
  apply h.mono
  intro r l' s' hr
  cases r with
  | ok a    => exact hok a l' s' hr
  | error e => exact herr e l' s' hr

theorem wp_bind {m : Job C A L ε α} {f : α → Job C A L ε β} {Q : Except ε β → L → σ → Prop}
    (h : m.Wp π l (Ends (fun a l' => (f a).Wp π l' Q) (fun e => Q (.error e))) s) :
    (m >>= f).Wp π l Q s := by
  apply Prog.holds_andThen
  apply Prog.Holds.mono _ h
  intro x s' hx
  obtain ⟨_ | a, l'⟩ := x
  · exact hx
  · exact hx s' Relation.ReflTransGen.refl

/-- A sequence, from what its first half comes to. -/
theorem Wp.bind {m : Job C A L ε α} {f : α → Job C A L ε β} {Q : Except ε β → L → σ → Prop}
    {R : α → L → σ → Prop} {E : ε → L → σ → Prop} (h : m.Wp π l (Ends R E) s)
    (hok : ∀ a l' s', R a l' s' → (f a).Wp π l' Q s')
    (herr : ∀ e l' s', E e l' s' → Q (.error e) l' s') : (m >>= f).Wp π l Q s :=
  wp_bind (h.ends hok herr)

theorem wp_when {condition : Prop} [Decidable condition] {m : Job C A L ε Unit}
    {Q : Except ε Unit → L → σ → Prop} (hstable : π.Stable (Q (.ok ()) l))
    (hthen : condition → m.Wp π l Q s) (helse : ¬condition → Q (.ok ()) l s) :
    (when condition m).Wp π l Q s := by
  unfold when
  split
  · rename_i h
    exact hthen h
  · rename_i h
    exact wp_done hstable (helse h)

theorem wp_attempt {m : Job C A L ε α} {Q : Except ε (Except ε α) → L → σ → Prop}
    (h : m.Wp π l (fun r l' s' => Q (.ok r) l' s') s) : m.attempt.Wp π l Q s := by
  apply Prog.holds_andThen
  apply Prog.Holds.mono _ h
  exact fun x s' hx => hx

theorem wp_settle {r : Except ε α} (hstable : π.Stable (Q r l)) (h : Q r l s) :
    (settle r : Job C A L ε α).Wp π l Q s := by
  cases r with
  | ok a    => exact wp_done hstable h
  | error e => exact wp_stop hstable h

theorem wp_quietly {m : Job C A L ε α} {Q : Except ε Unit → L → σ → Prop}
    (hstable : ∀ l', π.Stable (Q (.ok ()) l')) (h : m.Wp π l (fun _ l' s' => Q (.ok ()) l' s') s) :
    m.quietly.Wp π l Q s := by
  apply wp_bind
  apply wp_attempt
  apply h.mono
  intro r l' s' hr
  exact wp_done (hstable l') hr

/-- What holds however `m` and `f` end. -/
theorem wp_always {m : Job C A L ε α} {f : Job C A L ε Unit}
    (hstable : ∀ r l', π.Stable (Q r l'))
    (h : m.Wp π l (fun r l' s' => f.Wp π l' (Ends (fun _ => Q r) (fun e => Q (.error e))) s') s) :
    (m.always f).Wp π l Q s := by
  apply wp_bind
  apply wp_attempt
  apply h.mono
  intro r l' s' hf
  apply hf.bind
  · exact fun _ l'' s'' hr => wp_settle (hstable r l'') hr
  · exact fun e l'' s'' he => he

/-- A loop: `I done` holds once the items `done` are dealt with, `E` of an error. -/
theorem wp_forEach {δ : Type} {f : δ → Job C A L ε Unit} {I : List δ → L → σ → Prop}
    {E : ε → L → σ → Prop} (hstable : ∀ ds l', π.Stable (I ds l')) {x : List δ}
    (hstep : ∀ ds d rest l' s', x = ds ++ d :: rest → I ds l' s' →
      (f d).Wp π l' (Ends (fun _ => I (ds ++ [d])) E) s')
    (h : I [] l s) : (forEach f x).Wp π l (Ends (fun _ => I x) E) s := by
  -- by induction on the items that are left
  suffices hrest : ∀ (rest ds : List δ) (l : L) (s : σ), x = ds ++ rest → I ds l s →
      (forEach f rest).Wp π l (Ends (fun _ => I x) E) s from hrest x [] l s rfl h
  intro rest
  induction rest with
  | nil =>
    intro ds l s hx hI
    rw [List.append_nil] at hx
    subst hx
    exact wp_done (hstable x l) hI
  | cons d rest ih =>
    intro ds l s hx hI
    apply (hstep ds d rest l s hx hI).bind
    · intro _ l' s' hr
      exact ih (ds ++ [d]) l' s' (by rw [hx, List.append_assoc]; rfl) hr
    · exact fun e l' s' he => he

end Job

/-! ## Section 4: Running together -/

namespace Prog

variable {ι C : Type} {A : C → Type} {β σ : Type} [DecidableEq ι]

/-- The programs as far as they have come, `none` for one that was killed. -/
structure Threads (ι C : Type) (A : C → Type) (β σ : Type) where
  threads : ι → Option (Prog C A β)
  state   : σ

/-- The surroundings: what they do by themselves, and what a kill leaves behind. -/
structure Surroundings (ι σ : Type) where
  moves : σ → σ → Prop
  kills : ι → σ → σ → Prop

variable (π : ι → Protocol C A σ) (env : Surroundings ι σ)

/-- One step of the whole. -/
inductive Threads.Step : Threads ι C A β σ → Threads ι C A β σ → Prop where
  | call {w : Threads ι C A β σ} (i : ι) {c : C} {k : A c → Prog C A β} {a : A c} {s : σ}
      (hthread : w.threads i = some (.call c k)) (ha : (π i).answers c w.state a s) :
      Step w ⟨Function.update w.threads i (some (k a)), s⟩
  | move {w : Threads ι C A β σ} {s : σ} (hmove : env.moves w.state s) :
      Step w { w with state := s }
  | kill {w : Threads ι C A β σ} (i : ι) {s : σ} (hkill : env.kills i w.state s) :
      Step w ⟨Function.update w.threads i none, s⟩

/-- What a thread relies on is what the others guarantee and the surroundings keep. -/
structure Compatible : Prop where
  threads : ∀ i j s s', i ≠ j → (π i).guarantee s s' → (π j).rely s s'
  moves   : ∀ j s s', env.moves s s' → (π j).rely s s'
  kills   : ∀ i j s s', i ≠ j → env.kills i s s' → (π j).rely s s'

/-- Every thread keeps to its protocol from here on. -/
def Threads.Keeps (Q : ι → β → σ → Prop) (w : Threads ι C A β σ) : Prop :=
  ∀ i p, w.threads i = some p → p.Holds (π i) (Q i) w.state

variable {π} {env} {Q : ι → β → σ → Prop} {w w' : Threads ι C A β σ}

theorem Threads.keeps_update {i : ι} {t : Option (Prog C A β)} {s : σ}
    (hself : ∀ p, t = some p → p.Holds (π i) (Q i) s)
    (hothers : ∀ j p, j ≠ i → w.threads j = some p → p.Holds (π j) (Q j) s) :
    Keeps π Q ⟨Function.update w.threads i t, s⟩ := by
  intro j p hp
  have hp : Function.update w.threads i t j = some p := hp
  by_cases hj : j = i
  · subst hj
    rw [Function.update_self] at hp
    exact hself p hp
  · rw [Function.update_of_ne hj] at hp
    exact hothers j p hj hp

/-- **Step lemma.** A step keeps every thread to its protocol, and is one that the
    surroundings or a guarantee allow. -/
theorem Threads.Keeps.step (hπ : Compatible π env) (h : w.Keeps π Q) (hstep : Step π env w w') :
    w'.Keeps π Q ∧ (env.moves w.state w'.state ∨ (∃ i, env.kills i w.state w'.state) ∨
      ∃ i, (π i).guarantee w.state w'.state) := by
  cases hstep with
  | @call i c k a s hthread ha =>
    -- the caller goes on, and the others rely on what it guarantees
    obtain ⟨hguarantee, hrest⟩ := h i _ hthread w.state Relation.ReflTransGen.refl a s ha
    refine ⟨Threads.keeps_update (fun p hp => Option.some.inj hp ▸ hrest) ?_,
      .inr (.inr ⟨i, hguarantee⟩)⟩
    intro j p hj hp
    exact (h j p hp).relies (.single (hπ.threads i j _ _ (Ne.symm hj) hguarantee))
  | move hmove =>
    exact ⟨fun j p hp => (h j p hp).relies (.single (hπ.moves j _ _ hmove)), .inl hmove⟩
  | kill i hkill =>
    refine ⟨Threads.keeps_update (fun p hp => by cases hp) ?_, .inr (.inl ⟨i, hkill⟩)⟩
    intro j p hj hp
    exact (h j p hp).relies (.single (hπ.kills i j _ _ (Ne.symm hj) hkill))

/-- **Run lemma.** Threads that keep to compatible protocols keep to them in any run. -/
theorem Threads.Keeps.run (hπ : Compatible π env) (h : w.Keeps π Q)
    (hrun : Relation.ReflTransGen (Step π env) w w') : w'.Keeps π Q := by
  induction hrun with
  | refl => exact h
  | tail _ hstep ih => exact (ih.step hπ hstep).1

/-- A relation that contains the guarantees and the surroundings contains every run. -/
theorem Threads.Keeps.related {T : σ → σ → Prop} (hπ : Compatible π env)
    (hmoves : ∀ s s', env.moves s s' → T s s') (hkills : ∀ i s s', env.kills i s s' → T s s')
    (hthreads : ∀ i s s', (π i).guarantee s s' → T s s') (h : w.Keeps π Q)
    (hrun : Relation.ReflTransGen (Step π env) w w') :
    Relation.ReflTransGen T w.state w'.state := by
  induction hrun with
  | refl => exact .refl
  | tail hbefore hstep ih =>
    obtain ⟨-, hmove | ⟨i, hkill⟩ | ⟨i, hthread⟩⟩ := (h.run hπ hbefore).step hπ hstep
    · exact ih.tail (hmoves _ _ hmove)
    · exact ih.tail (hkills i _ _ hkill)
    · exact ih.tail (hthreads i _ _ hthread)

end Prog
