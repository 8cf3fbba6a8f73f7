import Mathlib
import XChainDecoder.Lib.Threads

/-! # What programs have done

    A program that was answered a list of calls is at a place of its tree (`Leads`). In
    a run of several threads each has a list of its own, and a counter that only their
    calls move counts what is in the lists (`Threads.exists_traces`).

    A list of items may also be worked off in slices: the programs of one slice run
    together, in any interleaving with each other and with the surroundings, and the
    next slice starts once all of them have answered. Whatever the order they answer in,
    the results stand in the order of the items (`Batch.results_of_reachable`), and
    there are never more of them at work than a slice is wide (`Batch.flight_le`). -/

namespace Prog

variable {C : Type} {A : C → Type} {β γ : Type}

/-! ## Section 1: Traces -/

/-- Answered like this, `p` is at `p'` now. -/
inductive Leads : Prog C A β → List ((c : C) × A c) → Prog C A β → Prop where
  | refl (p : Prog C A β) : Leads p [] p
  | call {c : C} {k : A c → Prog C A β} (a : A c) {trace : List ((c : C) × A c)} {p : Prog C A β}
      (h : Leads (k a) trace p) : Leads (.call c k) (⟨c, a⟩ :: trace) p

variable {p p' : Prog C A β} {trace trace' : List ((c : C) × A c)}

theorem Leads.trans {p'' : Prog C A β} (h : p.Leads trace p') (h' : p'.Leads trace' p'') :
    p.Leads (trace ++ trace') p'' := by
  induction h with
  | refl p => exact h'
  | call a _ ih => exact .call a (ih h')

theorem Leads.snoc {c : C} {k : A c → Prog C A β} (h : p.Leads trace (.call c k)) (a : A c) :
    p.Leads (trace ++ [⟨c, a⟩]) (k a) :=
  h.trans (.call a (.refl (k a)))

/-- A call that came to an end was answered first. -/
theorem Leads.call_inv {c : C} {k : A c → Prog C A β} {b : β}
    (h : (Prog.call c k).Leads trace (.ret b)) :
    ∃ a rest, trace = ⟨c, a⟩ :: rest ∧ (k a).Leads rest (.ret b) := by
  cases h with
  | call a h => exact ⟨a, _, rfl, h⟩

/-! ## Section 2: Counting over a run -/

section Counting

variable {ι σ : Type} [DecidableEq ι] {π : ι → Protocol C A σ} {env : Surroundings ι σ}
  {w w' : Threads ι C A β σ}

/-- What each thread did from `w` to `w'`. -/
def Threads.Traced (w w' : Threads ι C A β σ) (traces : ι → List ((c : C) × A c)) : Prop :=
  ∀ i p', w'.threads i = some p' → ∃ p, w.threads i = some p ∧ p.Leads (traces i) p'

/-- **Run lemma.** A counter that only calls move counts the calls of all threads. -/
theorem Threads.exists_traces [Fintype ι] {count : σ → ℕ} {weight : (c : C) × A c → ℕ}
    (hcall : ∀ i c s a s', (π i).answers c s a s' → count s' = count s + weight ⟨c, a⟩)
    (hmove : ∀ s s', env.moves s s' → count s' = count s)
    (hkill : ∀ i s s', env.kills i s s' → count s' = count s)
    (hrun : Relation.ReflTransGen (Step π env) w w') :
    ∃ traces : ι → List ((c : C) × A c), w.Traced w' traces ∧
      count w'.state = count w.state + ∑ i, ((traces i).map weight).sum := by
  induction hrun with
  | refl => exact ⟨fun _ => [], fun i p' hp' => ⟨p', hp', .refl p'⟩, by simp⟩
  | @tail w₁ w₂ _ hstep ih =>
    obtain ⟨traces, htraced, hcount⟩ := ih
    cases hstep with
    | @call i c k a s hthread ha =>
      -- only the caller goes on in its program
      refine ⟨Function.update traces i (traces i ++ [⟨c, a⟩]), ?_, ?_⟩
      · intro j p' hp'
        have hp' : Function.update w₁.threads i (some (k a)) j = some p' := hp'
        by_cases hj : j = i
        · subst hj
          rw [Function.update_self, Option.some.injEq] at hp'
          obtain ⟨p, hp, hleads⟩ := htraced j _ hthread
          rw [Function.update_self, ← hp']
          exact ⟨p, hp, hleads.snoc a⟩
        · rw [Function.update_of_ne hj] at hp' ⊢
          exact htraced j p' hp'
      · -- the list of the caller is one longer, the others are the same
        have hsum : ∑ j, ((Function.update traces i (traces i ++ [⟨c, a⟩]) j).map weight).sum =
            ∑ j, (((traces j).map weight).sum + if j = i then weight ⟨c, a⟩ else 0) := by
          apply Finset.sum_congr rfl
          intro j _
          by_cases hj : j = i
          · subst hj
            simp
          · rw [Function.update_of_ne hj, if_neg hj, Nat.add_zero]
        rw [hsum, Finset.sum_add_distrib, Finset.sum_ite_eq' Finset.univ i, if_pos (Finset.mem_univ i),
          ← Nat.add_assoc, ← hcount]
        exact hcall i c _ a s ha
    | move h => exact ⟨traces, htraced, (hmove _ _ h).trans hcount⟩
    | @kill i s h =>
      refine ⟨traces, ?_, (hkill i _ _ h).trans hcount⟩
      intro j p' hp'
      have hp' : Function.update w₁.threads i none j = some p' := hp'
      by_cases hj : j = i
      · subst hj
        rw [Function.update_self] at hp'
        cases hp'
      · rw [Function.update_of_ne hj] at hp'
        exact htraced j p' hp'

end Counting

end Prog

/-! ## Section 3: Batches -/

section Batches

variable {C : Type} {A : C → Type} {δ ε α σ : Type}

structure Batch (C : Type) (A : C → Type) (δ ε α : Type) where
  results : List α
  /-- the programs of the slice, each with its item -/
  flight  : List (δ × Prog C A (Except ε α))
  rest    : List δ

namespace Batch

variable (job : δ → Prog C A (Except ε α)) (width : ℕ)

/-- The next slice, behind these results. -/
def slice (results : List α) (items : List δ) : Batch C A δ ε α :=
  ⟨results, (items.take width).map (fun d => (d, job d)), items.drop width⟩

variable (answers : (c : C) → σ → A c → σ → Prop) (others : σ → σ → Prop)

inductive Step : Batch C A δ ε α × σ → Batch C A δ ε α × σ → Prop where
  /-- a call of one of the programs is answered -/
  | call {b : Batch C A δ ε α} {s s' : σ} {before after : List (δ × Prog C A (Except ε α))}
      {d : δ} {c : C} {k : A c → Prog C A (Except ε α)} {a : A c}
      (hflight : b.flight = before ++ (d, .call c k) :: after) (ha : answers c s a s') :
      Step (b, s) ({ b with flight := before ++ (d, k a) :: after }, s')
  | other {b : Batch C A δ ε α} {s s' : σ} (hother : others s s') : Step (b, s) (b, s')
  /-- all have answered -/
  | join {b : Batch C A δ ε α} {s : σ} {values : List α}
      (hflight : b.flight.map Prod.snd = values.map (fun v => .ret (.ok v))) :
      Step (b, s) (slice job width (b.results ++ values) b.rest, s)

/-- What a run from the first slice on keeps. -/
structure Inv (items : List δ) (b : Batch C A δ ε α) : Prop where
  width : b.flight.length ≤ width
  split : ∃ finished, items = finished ++ b.flight.map Prod.fst ++ b.rest ∧
    List.Forall₂ (fun d v => ∃ trace, (job d).Leads trace (.ret (.ok v))) finished b.results
  leads : ∀ x ∈ b.flight, ∃ trace, (job x.1).Leads trace x.2

variable {job} {width} {answers} {others} {items : List δ} {b b' : Batch C A δ ε α} {s s' : σ}

theorem inv_slice {finished rest : List δ} {results : List α}
    (h : List.Forall₂ (fun d v => ∃ trace, (job d).Leads trace (.ret (.ok v))) finished results) :
    (slice job width results rest).Inv job width (finished ++ rest) where
  width := by
    simp only [slice, List.length_map, List.length_take]
    exact Nat.min_le_left _ _
  split := by
    refine ⟨finished, ?_, h⟩
    have hitems : ((rest.take width).map (fun d => (d, job d))).map Prod.fst = rest.take width := by
      simp [Function.comp_def]
    simp only [slice]
    rw [hitems, List.append_assoc, List.take_append_drop]
  leads x hx := by
    obtain ⟨d, -, rfl⟩ := List.mem_map.mp hx
    exact ⟨[], .refl _⟩

/-- All programs of a slice have answered: these are their results. -/
theorem forall₂_of_flight {flight : List (δ × Prog C A (Except ε α))} :
    ∀ {values : List α}, (∀ x ∈ flight, ∃ trace, (job x.1).Leads trace x.2) →
    flight.map Prod.snd = values.map (fun v => .ret (.ok v)) →
    List.Forall₂ (fun d v => ∃ trace, (job d).Leads trace (.ret (.ok v)))
      (flight.map Prod.fst) values := by
  induction flight with
  | nil =>
    intro values _ hvalues
    rw [List.map_nil, eq_comm, List.map_eq_nil_iff] at hvalues
    subst hvalues
    exact .nil
  | cons x flight ih =>
    intro values hleads hvalues
    cases values with
    | nil => cases hvalues
    | cons v values =>
      obtain ⟨hhead, htail⟩ := List.cons.inj hvalues
      obtain ⟨trace, htrace⟩ := hleads x List.mem_cons_self
      rw [hhead] at htrace
      exact .cons ⟨trace, htrace⟩ (ih (fun y hy => hleads y (List.mem_cons_of_mem x hy)) htail)

/-- **Step lemma.** -/
theorem Inv.step (h : b.Inv job width items) (hstep : Step job width answers others (b, s) (b', s')) :
    b'.Inv job width items := by
  cases hstep with
  | @call _ _ _ before after d c k a hflight ha =>
    obtain ⟨finished, hitems, hresults⟩ := h.split
    refine ⟨?_, ⟨finished, ?_, hresults⟩, ?_⟩
    · have hwidth := h.width
      rw [hflight] at hwidth
      simpa using hwidth
    · rw [hitems, hflight]
      simp
    · intro x hx
      have hold : ∀ y ∈ before ++ (d, .call c k) :: after, ∃ trace, (job y.1).Leads trace y.2 :=
        hflight ▸ h.leads
      rcases List.mem_append.mp hx with hx | hx
      · exact hold x (List.mem_append_left _ hx)
      · rcases List.mem_cons.mp hx with rfl | hx
        · obtain ⟨trace, htrace⟩ := hold (d, .call c k) (by simp)
          exact ⟨_, htrace.snoc a⟩
        · exact hold x (List.mem_append_right _ (List.mem_cons_of_mem _ hx))
  | other hother => exact h
  | @join _ _ values hflight =>
    obtain ⟨finished, hitems, hresults⟩ := h.split
    rw [hitems]
    exact inv_slice (List.rel_append hresults (forall₂_of_flight h.leads hflight))

/-- **Run lemma.** -/
theorem inv_of_reachable {w : Batch C A δ ε α × σ}
    (h : Relation.ReflTransGen (Step job width answers others) (slice job width [] items, s) w) :
    w.1.Inv job width items := by
  induction h with
  | refl => exact inv_slice .nil
  | tail _ hstep ih => exact ih.step hstep

/-- Never more than a slice at work. -/
theorem flight_le {w : Batch C A δ ε α × σ}
    (h : Relation.ReflTransGen (Step job width answers others) (slice job width [] items, s) w) :
    w.1.flight.length ≤ width :=
  (inv_of_reachable h).width

/-- The results of a batch that has ended are those of its items, in their order. -/
theorem results_of_reachable {w : Batch C A δ ε α × σ}
    (h : Relation.ReflTransGen (Step job width answers others) (slice job width [] items, s) w)
    (hflight : w.1.flight = []) (hrest : w.1.rest = []) :
    List.Forall₂ (fun d v => ∃ trace, (job d).Leads trace (.ret (.ok v))) items w.1.results := by
  obtain ⟨finished, hitems, hresults⟩ := (inv_of_reachable h).split
  rw [hflight, hrest] at hitems
  simp only [List.map_nil, List.append_nil] at hitems
  rw [hitems]
  exact hresults

end Batch

end Batches
