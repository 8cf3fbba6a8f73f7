import XChainDecoder.Migrate.History

/-! # The terms the migrators work on

    A process relies on two things: nobody touches the connections it has leased, but
    the server may end them; and while one of them holds the lock and lives, nobody
    writes the ledger or sends a statement. It guarantees the same to the others, and
    that the journal stays serial.

    One lemma for each call says what it does under these terms. -/

namespace XChainDecoder.Migrate

variable {ι : Type} (key : NameKey) (procs : ι → Process)

def runtimeOf (i : ι) : ℕ := (procs i).release.queryTimeout

/-! ## Section 1: Terms -/

/-- What holds of the server at any time. -/
structure Server.Good (s : Server ι) : Prop where
  closed : ∀ c, (s.sessions c).lease = .closed → (s.sessions c).alive = false
  holder : ∀ h ∈ s.holder, (s.sessions h.1).alive = true
  /-- a pooled connection has the limit of its pool and ran no statement of a file -/
  clean  : ∀ c i, (s.sessions c).lease = .idle i →
    (s.sessions c).limit = runtimeOf procs i ∧ (s.sessions c).dirty = false ∧
      (s.sessions c).queue = none
  ledger : s.ledger = replay key s.journal
  serial : Serial key procs s.journal

/-- What process `i` relies on. -/
structure Relies (i : ι) (s s' : Server ι) : Prop where
  sessions : ∀ c, (s.sessions c).lease = .leased i → s'.sessions c = s.sessions c ∨
    s'.sessions c = { s.sessions c with alive := false }
  held     : ∀ c, (s.sessions c).lease = .leased i → s.Held c → (s'.sessions c).alive = true →
    s'.holder = s.holder ∧ s'.ledger = s.ledger ∧ s'.journal = s.journal
  good     : s.Good key procs → s'.Good key procs
  grows    : s.journal <+: s'.journal

/-- What process `i` guarantees. -/
structure Guarantees (i : ι) (s s' : Server ι) : Prop where
  good   : s.Good key procs → s'.Good key procs
  grows  : s.journal <+: s'.journal
  others : ∀ j, j ≠ i → Relies key procs j s s'

def protocol (i : ι) : Prog.Protocol Call Call.Answer (Server ι) where
  rely      := Relies key procs i
  guarantee := Guarantees key procs i
  answers   := Answers key (runtimeOf procs) i

variable {key} {procs} {s s' s'' : Server ι} {i j : ι} {c : ℕ}

/-! ## Section 2: The surroundings -/

section Surroundings

theorem good_kill (h : s.Good key procs) (c : ℕ) : (s.kill c).Good key procs := by
  have hsession : ∀ c', (s.kill c).sessions c' = s.sessions c' ∨
      (s.kill c).sessions c' = { s.sessions c' with alive := false } := by
    intro c'
    by_cases hc : c' = c
    · subst hc
      exact .inr (Function.update_self _ _ _)
    · exact .inl (Function.update_of_ne hc _ _)
  refine ⟨?_, ?_, ?_, h.ledger, h.serial⟩
  · intro c' hclosed
    rcases hsession c' with heq | heq <;> rw [heq] at hclosed ⊢
    exact h.closed c' hclosed
  · intro x hx
    obtain ⟨hx, hne⟩ := Option.mem_filter_iff.mp hx
    have hne : x.1 ≠ c := by simpa using hne
    show (Function.update s.sessions c _ x.1).alive = true
    rw [Function.update_of_ne hne]
    exact h.holder x hx
  · intro c' i' hidle
    rcases hsession c' with heq | heq <;> rw [heq] at hidle ⊢ <;> exact h.clean c' i' hidle

theorem relies_kill (j : ι) (s : Server ι) (c : ℕ) : Relies key procs j s (s.kill c) := by
  refine ⟨?_, ?_, fun h => good_kill h c, List.prefix_rfl⟩
  · intro c' _
    by_cases hc : c' = c
    · subst hc
      exact .inr (Function.update_self _ _ _)
    · exact .inl (Function.update_of_ne hc _ _)
  -- the holder is still alive, so another connection was ended, and the lock stays
  · intro c' _ hheld halive
    refine ⟨?_, rfl, rfl⟩
    obtain ⟨depth, hheld⟩ := hheld
    have hne : c' ≠ c := by
      intro hc
      subst hc
      simp [Server.kill] at halive
    show s.holder.filter _ = s.holder
    rw [hheld]
    simpa using hne

theorem good_crash [DecidableEq ι] (h : s.Good key procs) (i : ι) : (s.crash i).Good key procs := by
  have hkilled : ∀ c, (s.crash i).sessions c = s.sessions c ∨
      (s.crash i).sessions c = { s.sessions c with alive := false } := by
    intro c
    by_cases hown : s.Owns c i
    · exact .inr (if_pos hown)
    · exact .inl (if_neg hown)
  refine ⟨?_, ?_, ?_, h.ledger, h.serial⟩
  · intro c hclosed
    rcases hkilled c with heq | heq <;> rw [heq] at hclosed ⊢
    exact h.closed c hclosed
  · intro x hx
    obtain ⟨hx, hown⟩ := Option.mem_filter_iff.mp hx
    have hsession : (s.crash i).sessions x.1 = s.sessions x.1 := if_neg (by simpa using hown)
    rw [hsession]
    exact h.holder x hx
  · intro c i' hidle
    rcases hkilled c with heq | heq <;> rw [heq] at hidle ⊢ <;> exact h.clean c i' hidle

theorem relies_crash [DecidableEq ι] (hne : i ≠ j) (s : Server ι) :
    Relies key procs j s (s.crash i) := by
  -- a connection has one owner
  have hother : ∀ c, (s.sessions c).lease = .leased j → ¬s.Owns c i := by
    rintro c hc (hown | hown)
    · cases hc.symm.trans hown
    · injection hc.symm.trans hown with heq
      exact hne heq.symm
  refine ⟨fun c hc => .inl (if_neg (hother c hc)), ?_, fun h => good_crash h i, List.prefix_rfl⟩
  intro c hc hheld _
  obtain ⟨depth, hheld⟩ := hheld
  refine ⟨?_, rfl, rfl⟩
  show s.holder.filter _ = s.holder
  rw [hheld]
  simpa using hother c hc

theorem compatible [DecidableEq ι] : Prog.Compatible (protocol key procs) (surroundings ι) where
  threads i j s s' hne h := h.others j (Ne.symm hne)
  moves j s s' h := by
    obtain ⟨c, rfl⟩ := h
    exact relies_kill j s c
  kills i j s s' hne h := by
    have h : s' = s.crash i := h
    rw [h]
    exact relies_crash hne s

end Surroundings

/-! ## Section 3: Steps on a connection of one's own -/

/-- A step that touches one connection, and that only in ways its owner may. -/
structure OwnStep (i : ι) (c : ℕ) (s s' : Server ι) : Prop where
  mine   : ∀ j, j ≠ i → (s.sessions c).lease ≠ .leased j
  others : ∀ c', c' ≠ c → s'.sessions c' = s.sessions c'
  holder : s'.holder = s.holder ∨
    (∀ h ∈ s.holder, h.1 = c) ∧ ∀ h ∈ s'.holder, h.1 = c
  books  : s'.ledger = s.ledger ∧ s'.journal = s.journal ∨ s.Held c
  grows  : s.journal <+: s'.journal

namespace OwnStep

theorem relies (h : OwnStep i c s s') (hgood : s.Good key procs → s'.Good key procs) (hj : j ≠ i) :
    Relies key procs j s s' := by
  have hne : ∀ c', (s.sessions c').lease = .leased j → c' ≠ c :=
    fun c' hc' heq => h.mine j hj (heq ▸ hc')
  refine ⟨fun c' hc' => .inl (h.others c' (hne c' hc')), ?_, hgood, h.grows⟩
  intro c' hc' hheld _
  obtain ⟨depth, hheld⟩ := hheld
  refine ⟨?_, ?_⟩
  -- while `j` holds the lock, nobody else can take or release it
  · rcases h.holder with heq | ⟨hmine, -⟩
    · exact heq
    · exact absurd (hmine _ hheld) (hne c' hc')
  -- and the books are only written by the holder
  · rcases h.books with heq | ⟨depth', hheld'⟩
    · exact heq
    · rw [hheld'] at hheld
      injection hheld with hheld
      injection hheld with hheld
      exact absurd hheld.symm (hne c' hc')

theorem guarantees (h : OwnStep i c s s') (hgood : s.Good key procs → s'.Good key procs) :
    Guarantees key procs i s s' :=
  ⟨hgood, h.grows, fun _ hj => h.relies hgood hj⟩

/-- A lost connection after such a step. -/
theorem kill (h : OwnStep i c s s') : OwnStep i c s (s'.kill c) where
  mine   := h.mine
  others c' hc' := (Function.update_of_ne hc' _ _).trans (h.others c' hc')
  holder := by
    rcases h.holder with heq | ⟨hmine, hmine'⟩
    -- a lost holder loses the lock, another session does not
    · by_cases hall : ∀ x ∈ s.holder, x.1 = c
      · refine .inr ⟨hall, ?_⟩
        intro x hx
        obtain ⟨hx, -⟩ := Option.mem_filter_iff.mp hx
        exact hall x (heq ▸ hx)
      · push Not at hall
        obtain ⟨x, hx, hne⟩ := hall
        left
        show s'.holder.filter _ = s.holder
        rw [heq, Option.mem_def.mp hx]
        simpa using hne
    · refine .inr ⟨hmine, ?_⟩
      intro x hx
      obtain ⟨hx, -⟩ := Option.mem_filter_iff.mp hx
      exact hmine' x hx
  books  := h.books
  grows  := h.grows

end OwnStep

/-! ## Section 4: What a process knows -/

variable (key) (procs)

/-- A leased connection. Its limit is raised only where `t` is set, and it ran a
    statement of a file only where `d` is. -/
structure Mine (i : ι) (c : ℕ) (t d : Bool) (s : Server ι) : Prop where
  good  : s.Good key procs
  lease : (s.sessions c).lease = .leased i
  limit : (s.sessions c).limit ≠ runtimeOf procs i → t = true
  dirty : (s.sessions c).dirty = true → d = true

/-- While it lives, the connection has the open transaction `q`; and, given a journal,
    it holds the lock and that is the journal. Once it has died there may be more in the
    journal, but not less. -/
structure At (i : ι) (c : ℕ) (t d : Bool) (q : Option (List Write)) (J : Option (List (Entry ι)))
    (s : Server ι) : Prop extends Mine key procs i c t d s where
  queue : (s.sessions c).alive = true → (s.sessions c).queue = q
  past  : ∀ J' ∈ J, J' <+: s.journal
  held  : ∀ J' ∈ J, (s.sessions c).alive = true → s.Held c ∧ s.journal = J'

variable {key} {procs} {t d : Bool} {q : Option (List Write)} {J : Option (List (Entry ι))}

theorem stable_good (i : ι) : (protocol key procs i).Stable (Server.Good key procs) :=
  fun _ _ h hs => h.good hs

theorem stable_mine : (protocol key procs i).Stable (Mine key procs i c t d) := by
  intro s s' h hs
  rcases h.sessions c hs.lease with heq | heq
  · exact ⟨h.good hs.good, heq ▸ hs.lease, heq ▸ hs.limit, heq ▸ hs.dirty⟩
  · refine ⟨h.good hs.good, ?_, ?_, ?_⟩ <;> rw [heq]
    · exact hs.lease
    · exact hs.limit
    · exact hs.dirty

theorem stable_at : (protocol key procs i).Stable (At key procs i c t d q J) := by
  intro s s' h hs
  have hmine := stable_mine s s' h hs.toMine
  have hpast : ∀ J' ∈ J, J' <+: s'.journal := fun J' hJ' => (hs.past J' hJ').trans h.grows
  rcases h.sessions c hs.lease with heq | heq
  · refine ⟨hmine, heq ▸ hs.queue, hpast, ?_⟩
    intro J' hJ' halive
    obtain ⟨hheld, hjournal⟩ := hs.held J' hJ' (heq ▸ halive)
    obtain ⟨hholder, -, hsame⟩ := h.held c hs.lease hheld halive
    exact ⟨by unfold Server.Held; rw [hholder]; exact hheld, hsame.trans hjournal⟩
  -- the connection was ended: only what is said of any connection is left
  · have hdead : (s'.sessions c).alive = false := by rw [heq]
    refine ⟨hmine, ?_, hpast, ?_⟩
    · intro halive
      rw [hdead] at halive
      cases halive
    · intro J' _ halive
      rw [hdead] at halive
      cases halive

/-- A connection that was lost in the middle of a call. -/
theorem Mine.kill (h : Mine key procs i c t d s) : Mine key procs i c t d (s.kill c) := by
  have heq : (s.kill c).sessions c = { s.sessions c with alive := false } :=
    Function.update_self _ _ _
  refine ⟨good_kill h.good c, ?_, ?_, ?_⟩ <;> rw [heq]
  · exact h.lease
  · exact h.limit
  · exact h.dirty

theorem Mine.ownStep (h : Mine key procs i c t d s)
    (hothers : ∀ c', c' ≠ c → s'.sessions c' = s.sessions c')
    (hholder : s'.holder = s.holder ∨ (∀ h ∈ s.holder, h.1 = c) ∧ ∀ h ∈ s'.holder, h.1 = c)
    (hbooks : s'.ledger = s.ledger ∧ s'.journal = s.journal ∨ s.Held c)
    (hgrows : s.journal <+: s'.journal) : OwnStep i c s s' := by
  refine ⟨?_, hothers, hholder, hbooks, hgrows⟩
  intro j hj heq
  rw [h.lease] at heq
  injection heq with heq
  exact hj heq.symm

theorem Mine.idle (h : Mine key procs i c t d s) : OwnStep i c s s :=
  h.ownStep (fun _ _ => rfl) (.inl rfl) (.inl ⟨rfl, rfl⟩) List.prefix_rfl

/-- Another record of one session. -/
theorem good_setSession (h : s.Good key procs) {x : Session ι}
    (hclosed : x.lease = .closed → x.alive = false)
    (halive : ∀ y ∈ s.holder, y.1 = c → x.alive = true)
    (hclean : ∀ i, x.lease = .idle i →
      x.limit = runtimeOf procs i ∧ x.dirty = false ∧ x.queue = none) :
    (s.setSession c x).Good key procs := by
  have hother : ∀ c', c' ≠ c → (s.setSession c x).sessions c' = s.sessions c' :=
    fun c' hc' => Function.update_of_ne hc' _ _
  have hself : (s.setSession c x).sessions c = x := Function.update_self _ _ _
  refine ⟨?_, ?_, ?_, h.ledger, h.serial⟩
  · intro c' hc'
    by_cases hc : c' = c
    · subst hc
      rw [hself] at hc' ⊢
      exact hclosed hc'
    · rw [hother c' hc] at hc' ⊢
      exact h.closed c' hc'
  · intro y hy
    by_cases hc : y.1 = c
    · rw [hc, hself]
      exact halive y hy hc
    · rw [hother y.1 hc]
      exact h.holder y hy
  · intro c' i' hidle
    by_cases hc : c' = c
    · subst hc
      rw [hself] at hidle ⊢
      exact hclean i' hidle
    · rw [hother c' hc] at hidle ⊢
      exact h.clean c' i' hidle

/-! ## Section 5: Calls -/

variable {l : Locals}

/-- What an own query comes to: a value with the statement done, or an error with it
    done, undone or half done. -/
theorem wp_query {q : Query} {P : Server ι → Prop} {ok : q.Value → Server ι → Prop}
    (hP : (protocol key procs i).Stable P)
    (hok : ∀ v, (protocol key procs i).Stable (ok v))
    (hmine : ∀ s, P s → Mine key procs i c t d s)
    (hruns : ∀ s v s', P s → (s.sessions c).alive = true → Runs key i c s q v s' →
      OwnStep i c s s' ∧ Mine key procs i c t d s' ∧ ok v s')
    (hhalfway : ∀ file text, q = .execute file text → ∀ s, P s → (s.sessions c).alive = true →
      OwnStep i c s (s.send c i file text) ∧ Mine key procs i c t d (s.send c i file text))
    (h : P s) :
    (query c q).Wp (protocol key procs i) l (Job.Ends (fun v l' s' => l' = l ∧ ok v s')
      (fun _ l' s' => l' = l ∧ Mine key procs i c t d s')) s := by
  apply Job.wp_ask hP
  · intro a s s' hrely ha
    cases a with
    | ok v    => exact ⟨ha.1, hok v s s' hrely ha.2⟩
    | error e => exact ⟨ha.1, stable_mine s s' hrely ha.2⟩
  · exact h
  · intro s a s' hs ha
    cases ha with
    | ran halive hrun =>
      obtain ⟨hown, hmine', hv⟩ := hruns s _ s' hs halive hrun
      exact ⟨hown.guarantees (fun _ => hmine'.good), rfl, hv⟩
    | refused call e => exact ⟨(hmine s hs).idle.guarantees id, rfl, hmine s hs⟩
    | halfway file text halive e =>
      obtain ⟨hown, hmine'⟩ := hhalfway file text rfl s hs halive
      exact ⟨hown.guarantees (fun _ => hmine'.good), rfl, hmine'⟩
    -- done, and the answer did not arrive
    | lost halive hrun e =>
      obtain ⟨hown, hmine', -⟩ := hruns s _ _ hs halive hrun
      exact ⟨hown.kill.guarantees (fun _ => hmine'.kill.good), rfl, hmine'.kill⟩

/-- A query that changes nothing on the server. -/
def Query.IsQuiet : Query → Prop
  | .sqlMode | .inspect _ | .createLedger | .retypeAppliedAt | .verifyTable _ => True
  | _                                                                       => False

theorem Query.IsQuiet.runs {q : Query} (hq : q.IsQuiet) {v : q.Value} (h : Runs key i c s q v s') :
    s' = s := by
  cases q with
  | sqlMode | inspect _ | createLedger | retypeAppliedAt | verifyTable _ => exact h
  | _ => exact hq.elim

theorem wp_quiet {q : Query} {P : Server ι → Prop} (hquiet : q.IsQuiet)
    (hP : (protocol key procs i).Stable P) (hmine : ∀ s, P s → Mine key procs i c t d s) (h : P s) :
    (query c q).Wp (protocol key procs i) l
      (Job.Ends (fun _ l' s' => l' = l ∧ P s')
        (fun _ l' s' => l' = l ∧ Mine key procs i c t d s')) s := by
  apply wp_query hP (fun _ => hP) hmine _ _ h
  · intro s v s' hs _ hrun
    rw [hquiet.runs hrun]
    exact ⟨(hmine s hs).idle, hmine s hs, hs⟩
  · intro file text heq
    subst heq
    exact hquiet.elim

theorem wp_readLedger {J : List (Entry ι)} (h : At key procs i c t d q (some J) s) :
    (query c .readLedger).Wp (protocol key procs i) l
      (Job.Ends (fun rows l' s' => l' = l ∧ rows.Perm (replay key J) ∧
          At key procs i c t d q (some J) s')
        (fun _ l' s' => l' = l ∧ Mine key procs i c t d s')) s := by
  apply wp_query stable_at (fun _ => stable_at.known)
    (fun s hs => hs.toMine) _ _ h
  · intro s rows s' hs halive hrun
    obtain ⟨hrows, rfl⟩ := hrun
    refine ⟨hs.idle, hs.toMine, ?_, hs⟩
    -- the holder reads what it knows
    obtain ⟨-, hjournal⟩ := hs.held _ rfl halive
    rw [hs.good.ledger, hjournal] at hrows
    exact hrows
  · intro file text heq
    cases heq

theorem Mine.setSession_ownStep (h : Mine key procs i c t d s) (x : Session ι) :
    OwnStep i c s (s.setSession c x) :=
  h.ownStep (fun _ hc' => Function.update_of_ne hc' _ _) (.inl rfl) (.inl ⟨rfl, rfl⟩)
    List.prefix_rfl

/-- Another record of one's own session, in place of the one before. -/
theorem Mine.setSession {t' d' : Bool} (h : Mine key procs i c t d s) {x : Session ι}
    (hlease : x.lease = (s.sessions c).lease) (halive : x.alive = (s.sessions c).alive)
    (hlimit : x.limit ≠ runtimeOf procs i → t' = true) (hdirty : x.dirty = true → d' = true) :
    Mine key procs i c t' d' (s.setSession c x) := by
  have hself : (s.setSession c x).sessions c = x := Function.update_self _ _ _
  have hleased : x.lease = .leased i := hlease.trans h.lease
  refine ⟨good_setSession h.good ?_ ?_ ?_, ?_, ?_, ?_⟩
  · intro hclosed
    cases hleased.symm.trans hclosed
  · intro y hy hc
    rw [halive, ← hc]
    exact h.good.holder y hy
  · intro i' hidle
    cases hleased.symm.trans hidle
  · rw [hself]
    exact hleased
  · rw [hself]
    exact hlimit
  · rw [hself]
    exact hdirty

theorem At.setSession {t' d' : Bool} {q' : Option (List Write)} (h : At key procs i c t d q J s)
    {x : Session ι} (hlease : x.lease = (s.sessions c).lease)
    (halive : x.alive = (s.sessions c).alive) (hlimit : x.limit ≠ runtimeOf procs i → t' = true)
    (hdirty : x.dirty = true → d' = true) (hqueue : x.queue = q') :
    At key procs i c t' d' q' J (s.setSession c x) := by
  have hself : (s.setSession c x).sessions c = x := Function.update_self _ _ _
  refine ⟨h.toMine.setSession hlease halive hlimit hdirty, ?_, h.past, ?_⟩
  · intro _
    rw [hself]
    exact hqueue
  · intro J' hJ' hlive
    rw [hself, halive] at hlive
    exact h.held J' hJ' hlive

theorem Mine.weaken {t' d' : Bool} (h : Mine key procs i c t d s) (ht : t = true → t' = true)
    (hd : d = true → d' = true) : Mine key procs i c t' d' s :=
  ⟨h.good, h.lease, fun hne => ht (h.limit hne), fun hdirty => hd (h.dirty hdirty)⟩

/-- Raise the limit. -/
theorem wp_raise (ms : ℕ) (h : At key procs i c true d q J s) :
    (query c (.setStatementTime ms)).Wp (protocol key procs i) l
      (Job.Ends (fun _ l' s' => l' = l ∧ At key procs i c true d q J s')
        (fun _ l' s' => l' = l ∧ Mine key procs i c true d s')) s := by
  apply wp_query stable_at (fun _ => stable_at) (fun s hs => hs.toMine) _ _ h
  · intro s _ s' hs halive hrun
    have hrun : s' = s.setSession c { s.sessions c with limit := ms } := hrun
    subst hrun
    -- no claim on the limit is made while `t` is set, so any limit will do
    have hat : At key procs i c true d q J (s.setSession c { s.sessions c with limit := ms }) :=
      hs.setSession rfl rfl (fun _ => rfl) hs.dirty (hs.queue halive)
    exact ⟨hs.setSession_ownStep _, hat.toMine, hat⟩
  · intro file text heq
    cases heq

/-- Restore it. -/
theorem wp_restore (h : Mine key procs i c t d s) :
    (query c (.setStatementTime (runtimeOf procs i))).Wp (protocol key procs i) l
      (Job.Ends (fun _ l' s' => l' = l ∧ Mine key procs i c false d s')
        (fun _ l' s' => l' = l ∧ Mine key procs i c t d s')) s := by
  apply wp_query stable_mine (fun _ => stable_mine) (fun s hs => hs) _ _ h
  · intro s _ s' hs _ hrun
    have hrun : s' = s.setSession c { s.sessions c with limit := runtimeOf procs i } := hrun
    subst hrun
    have hback : Mine key procs i c false d
        (s.setSession c { s.sessions c with limit := runtimeOf procs i }) :=
      hs.setSession rfl rfl (fun hne => absurd rfl hne) hs.dirty
    -- an error tells nothing: the limit may or may not be back
    exact ⟨hs.setSession_ownStep _, hback.weaken (fun hf => by cases hf) id, hback⟩
  · intro file text heq
    cases heq

theorem wp_startTransaction (h : At key procs i c t d q J s) :
    (query c .startTransaction).Wp (protocol key procs i) l
      (Job.Ends (fun _ l' s' => l' = l ∧ At key procs i c t d (some []) J s')
        (fun _ l' s' => l' = l ∧ Mine key procs i c t d s')) s := by
  apply wp_query stable_at (fun _ => stable_at) (fun s hs => hs.toMine) _ _ h
  · intro s _ s' hs _ hrun
    have hrun : s' = s.setSession c { s.sessions c with queue := some [] } := hrun
    subst hrun
    have hat : At key procs i c t d (some []) J
        (s.setSession c { s.sessions c with queue := some [] }) :=
      hs.setSession rfl rfl hs.limit hs.dirty rfl
    exact ⟨hs.setSession_ownStep _, hat.toMine, hat⟩
  · intro file text heq
    cases heq

/-- A write of an open transaction. -/
theorem wp_queue {ws : List Write} (w : Write) (h : At key procs i c t d (some ws) J s) :
    (query c (.write w)).Wp (protocol key procs i) l
      (Job.Ends (fun _ l' s' => l' = l ∧ At key procs i c t d (some (ws ++ [w])) J s')
        (fun _ l' s' => l' = l ∧ Mine key procs i c t d s')) s := by
  apply wp_query stable_at (fun _ => stable_at) (fun s hs => hs.toMine) _ _ h
  · intro s _ s' hs halive hrun
    have hrun : s.write key c i w = some s' := hrun
    unfold Server.write at hrun
    rw [hs.queue halive] at hrun
    obtain rfl := Option.some.inj hrun
    have hat : At key procs i c t d (some (ws ++ [w])) J
        (s.setSession c { s.sessions c with queue := some (ws ++ [w]) }) :=
      hs.setSession rfl rfl hs.limit hs.dirty rfl
    exact ⟨hs.setSession_ownStep _, hat.toMine, hat⟩
  · intro file text heq
    cases heq

theorem wp_rollback (h : Mine key procs i c t d s) :
    (query c .rollback).Wp (protocol key procs i) l
      (Job.Ends (fun _ l' s' => l' = l ∧ Mine key procs i c t d s')
        (fun _ l' s' => l' = l ∧ Mine key procs i c t d s')) s := by
  apply wp_query stable_mine (fun _ => stable_mine) (fun s hs => hs) _ _ h
  · intro s _ s' hs _ hrun
    have hrun : s' = s.setSession c { s.sessions c with queue := none } := hrun
    subst hrun
    have hback := hs.setSession (x := { s.sessions c with queue := none }) rfl rfl hs.limit hs.dirty
    exact ⟨hs.setSession_ownStep _, hback, hback⟩
  · intro file text heq
    cases heq

/-! The lock. -/

theorem Mine.setHolder (h : Mine key procs i c t d s) {x : Option (ℕ × ℕ)}
    (hfree : ∀ y ∈ s.holder, y.1 = c) (hx : ∀ y ∈ x, y.1 = c)
    (halive : ∀ y ∈ x, (s.sessions c).alive = true) :
    OwnStep i c s { s with holder := x } ∧ Mine key procs i c t d { s with holder := x } := by
  refine ⟨h.ownStep (fun _ _ => rfl) (.inr ⟨hfree, hx⟩) (.inl ⟨rfl, rfl⟩) List.prefix_rfl, ?_⟩
  refine ⟨⟨h.good.closed, ?_, h.good.clean, h.good.ledger, h.good.serial⟩, h.lease, h.limit, h.dirty⟩
  intro y hy
  show (s.sessions y.1).alive = true
  rw [hx y hy]
  exact halive y hy

theorem Server.acquire_eq (s : Server ι) (c : ℕ) :
    ∃ depth, s.acquire c = { s with holder := some (c, depth) } := by
  unfold Server.acquire
  split
  · exact ⟨_, rfl⟩
  · exact ⟨_, rfl⟩

theorem Server.unlock_eq (s : Server ι) (c : ℕ) :
    s.unlock c = s ∨ s.Held c ∧ ∃ x : Option (ℕ × ℕ), (∀ y ∈ x, y.1 = c) ∧
      s.unlock c = { s with holder := x } := by
  unfold Server.unlock
  split
  · rename_i owner depth hholder
    by_cases howner : owner = c
    · subst howner
      rw [if_pos rfl]
      refine .inr ⟨⟨depth, hholder⟩, _, ?_, rfl⟩
      intro y hy
      split at hy
      · cases hy
      · rw [← Option.some.inj hy]
    · exact .inl (if_neg howner)
  · exact .inl rfl

theorem wp_getLock (h : At key procs i c t d none none s) :
    (query c .getLock).Wp (protocol key procs i) l
      (Job.Ends (fun got l' s' => l' = l ∧ Mine key procs i c t d s' ∧ (got = true →
          ∃ J, Serial key procs J ∧ At key procs i c t d none (some J) s'))
        (fun _ l' s' => l' = l ∧ Mine key procs i c t d s')) s := by
  apply wp_query stable_at _ (fun s hs => hs.toMine) _ _ h
  · intro got s s' hrely hs
    refine ⟨stable_mine s s' hrely hs.1, ?_⟩
    intro hgot
    obtain ⟨J, hserial, hat⟩ := hs.2 hgot
    exact ⟨J, hserial, stable_at s s' hrely hat⟩
  · intro s got s' hs halive hrun
    cases got with
    | false =>
      have hrun : s' = s := hrun
      subst hrun
      refine ⟨hs.idle, hs.toMine, hs.toMine, ?_⟩
      intro hgot
      cases hgot
    | true =>
      obtain ⟨hfree, rfl⟩ : (∀ h ∈ s.holder, h.1 = c) ∧ s' = s.acquire c := hrun
      obtain ⟨depth, hacquire⟩ := s.acquire_eq c
      rw [hacquire]
      obtain ⟨hown, hmine⟩ := hs.toMine.setHolder (x := some (c, depth)) hfree
        (fun y hy => by rw [← Option.some.inj hy]) (fun _ _ => halive)
      -- what the journal is now, it stays while the lock is held
      refine ⟨hown, hmine, hmine, fun _ => ⟨s.journal, hs.good.serial, hmine, hs.queue, ?_, ?_⟩⟩
      · intro J' hJ'
        exact Option.some.inj hJ' ▸ List.prefix_rfl
      · intro J' hJ' _
        exact ⟨⟨depth, rfl⟩, Option.some.inj hJ'⟩
  · intro file text heq
    cases heq

theorem wp_releaseLock (h : Mine key procs i c t d s) :
    (query c .releaseLock).Wp (protocol key procs i) l
      (Job.Ends (fun _ l' s' => l' = l ∧ Mine key procs i c t d s')
        (fun _ l' s' => l' = l ∧ Mine key procs i c t d s')) s := by
  apply wp_query stable_mine (fun _ => stable_mine) (fun s hs => hs) _ _ h
  · intro s _ s' hs _ hrun
    have hrun : s' = s.unlock c := hrun
    subst hrun
    rcases s.unlock_eq c with heq | ⟨⟨depth, hheld⟩, x, hx, heq⟩
    · rw [heq]
      exact ⟨hs.idle, hs, hs⟩
    · rw [heq]
      obtain ⟨hown, hmine⟩ := hs.setHolder (fun y hy => by
        rw [hheld] at hy
        rw [← Option.some.inj hy]) hx (fun _ _ => hs.good.holder _ hheld)
      exact ⟨hown, hmine, hmine⟩
  · intro file text heq
    cases heq

/-! Under the lock. -/

/-- The server with another journal, and the ledger it writes. -/
def Server.onJournal (key : NameKey) (s : Server ι) (J : List (Entry ι)) : Server ι :=
  { s with ledger := replay key J, journal := J }

/-- New entries in the journal. -/
theorem At.extend {J : List (Entry ι)} (h : At key procs i c t d q (some J) s)
    (halive : (s.sessions c).alive = true) {B : List (Entry ι)}
    (hserial : Serial key procs (J ++ B)) :
    OwnStep i c s (s.onJournal key (J ++ B)) ∧
      At key procs i c t d q (some (J ++ B)) (s.onJournal key (J ++ B)) := by
  obtain ⟨hheld, hjournal⟩ := h.held J rfl halive
  refine ⟨?_, ?_, h.queue, ?_, ?_⟩
  · refine h.ownStep (fun _ _ => rfl) (.inl rfl) (.inr hheld) ?_
    show s.journal <+: J ++ B
    rw [hjournal]
    exact List.prefix_append J B
  · exact ⟨⟨h.good.closed, h.good.holder, h.good.clean, rfl, hserial⟩, h.lease, h.limit, h.dirty⟩
  · intro J' hJ'
    exact Option.some.inj hJ' ▸ List.prefix_rfl
  · intro J' hJ' _
    exact ⟨hheld, Option.some.inj hJ'⟩

/-- A write outside a transaction. -/
theorem wp_write {J : List (Entry ι)} (w : Write)
    (hserial : ∀ L, w.result key (replay key J) = some L → Serial key procs (J ++ [.wrote i w]))
    (h : At key procs i c t d none (some J) s) :
    (query c (.write w)).Wp (protocol key procs i) l
      (Job.Ends (fun _ l' s' => l' = l ∧ (∃ L, w.result key (replay key J) = some L) ∧
          At key procs i c t d none (some (J ++ [.wrote i w])) s')
        (fun _ l' s' => l' = l ∧ Mine key procs i c t d s')) s := by
  apply wp_query stable_at (fun _ => stable_at.known)
    (fun s hs => hs.toMine) _ _ h
  · intro s _ s' hs halive hrun
    have hrun : s.write key c i w = some s' := hrun
    unfold Server.write Server.perform at hrun
    obtain ⟨-, hjournal⟩ := hs.held J rfl halive
    rw [hs.queue halive, hs.good.ledger, hjournal] at hrun
    obtain ⟨L, hL, rfl⟩ := Option.map_eq_some_iff.mp hrun
    have hreplay : replay key (J ++ [.wrote i w]) = L := by rw [replay_wrote, hL]; rfl
    obtain ⟨hown, hat⟩ := hs.extend halive (hserial L hL)
    rw [← hreplay]
    exact ⟨hown, hat.toMine, ⟨L, hL⟩, hat⟩
  · intro file text heq
    cases heq

/-- The next statement of a file. -/
theorem wp_execute {J : List (Entry ι)} {file : String} {text : List Char}
    (hserial : Serial key procs (J ++ [.statement i file text]))
    (h : At key procs i c t true none (some J) s) :
    (query c (.execute file text)).Wp (protocol key procs i) l
      (Job.Ends (fun _ l' s' => l' = l ∧
          At key procs i c t true none (some (J ++ [.statement i file text])) s')
        (fun _ l' s' => l' = l ∧ Mine key procs i c t true s')) s := by
  have hsend : ∀ s, At key procs i c t true none (some J) s → (s.sessions c).alive = true →
      OwnStep i c s (s.send c i file text) ∧
        At key procs i c t true none (some (J ++ [.statement i file text]))
          (s.send c i file text) := by
    intro s hs halive
    obtain ⟨-, hjournal⟩ := hs.held J rfl halive
    obtain ⟨hown, hat⟩ := hs.extend halive hserial
    -- the ledger does not change, so the statement is on record and nothing else
    have hreplay : replay key (J ++ [.statement i file text]) = s.ledger := by
      rw [hs.good.ledger, hjournal]
      exact replay_statements J i file [text]
    have hstate : s.send c i file text =
        (s.onJournal key (J ++ [.statement i file text])).setSession c
          { s.sessions c with dirty := true } := by
      unfold Server.send Server.setSession Server.onJournal
      rw [hreplay, hjournal]
    rw [hstate]
    exact ⟨⟨hown.mine, fun c' hc' => Function.update_of_ne hc' _ _, hown.holder, hown.books,
      hown.grows⟩, hat.setSession rfl rfl hat.limit (fun _ => rfl) (hs.queue halive)⟩
  apply wp_query stable_at (fun _ => stable_at) (fun s hs => hs.toMine) _ _ h
  · intro s _ s' hs halive hrun
    have hrun : s' = s.send c i file text := hrun
    subst hrun
    obtain ⟨hown, hat⟩ := hsend s hs halive
    exact ⟨hown, hat.toMine, hat⟩
  -- an error in the middle of it: it was sent all the same
  · intro file' text' heq s hs halive
    injection heq with hfile htext
    subst hfile htext
    obtain ⟨hown, hat⟩ := hsend s hs halive
    exact ⟨hown, hat.toMine⟩

/-- Writes that are never refused are performed one after the other. -/
theorem performAll_ensure (rows : List LedgerRow) (s : Server ι) (hledger : s.ledger = replay key s.journal) :
    s.performAll key i (rows.map Write.ensure) =
      s.onJournal key (s.journal ++ rows.map (fun row => .wrote i (.ensure row))) := by
  induction rows generalizing s with
  | nil =>
    show s = s.onJournal key (s.journal ++ [])
    rw [List.append_nil]
    unfold Server.onJournal
    rw [← hledger]
  | cons row rows ih =>
    have hperform : s.perform key i (.ensure row) =
        some (s.onJournal key (s.journal ++ [.wrote i (.ensure row)])) := by
      unfold Server.perform Server.onJournal
      rw [replay_wrote, ← hledger]
      rfl
    show Server.performAll key ((s.perform key i (.ensure row)).getD s) i (rows.map Write.ensure) = _
    rw [hperform, Option.getD_some, ih _ rfl]
    unfold Server.onJournal
    simp

/-- The rows of a database built from empty become part of the ledger all at once. -/
theorem wp_commit {J : List (Entry ι)} {rows : List LedgerRow}
    (hserial : Serial key procs (J ++ rows.map (fun row => .wrote i (.ensure row))))
    (h : At key procs i c t d (some (rows.map Write.ensure)) (some J) s) :
    (query c .commit).Wp (protocol key procs i) l
      (Job.Ends (fun _ l' s' => l' = l ∧ Mine key procs i c t d s')
        (fun _ l' s' => l' = l ∧ Mine key procs i c t d s')) s := by
  apply wp_query stable_at (fun _ => stable_mine) (fun s hs => hs.toMine) _ _ h
  · intro s _ s' hs halive hrun
    have hrun : s' = s.commit key c i := hrun
    subst hrun
    obtain ⟨-, hjournal⟩ := hs.held J rfl halive
    obtain ⟨hown, hat⟩ := hs.extend halive hserial
    -- the whole queue at once, and then no transaction
    have hcommit : s.commit key c i =
        (s.onJournal key (J ++ rows.map (fun row => .wrote i (.ensure row)))).setSession c
          { s.sessions c with queue := none } := by
      unfold Server.commit
      rw [hs.queue halive, Option.getD_some, performAll_ensure rows s hs.good.ledger, hjournal]
    rw [hcommit]
    have hmine := hat.toMine.setSession (x := { s.sessions c with queue := none }) rfl rfl
      hat.limit hat.dirty
    exact ⟨⟨hown.mine, fun c' hc' => Function.update_of_ne hc' _ _, hown.holder, hown.books,
      hown.grows⟩, hmine, hmine⟩
  · intro file text heq
    cases heq

/-! Connections. -/

/-- A connection that is given up. -/
theorem OwnStep.closed (h : Mine key procs i c t d s) :
    OwnStep i c s ((s.setSession c { s.sessions c with lease := .closed }).kill c) ∧
      ((s.setSession c { s.sessions c with lease := .closed }).kill c).Good key procs := by
  have hself : ((s.setSession c { s.sessions c with lease := .closed }).kill c).sessions c =
      { s.sessions c with lease := .closed, alive := false } := by
    simp [Server.kill, Server.setSession]
  have hother : ∀ c', c' ≠ c →
      ((s.setSession c { s.sessions c with lease := .closed }).kill c).sessions c' = s.sessions c' := by
    intro c' hc'
    simp [Server.kill, Server.setSession, Function.update_of_ne hc']
  refine ⟨(h.setSession_ownStep _).kill, ?_, ?_, ?_, h.good.ledger, h.good.serial⟩
  · intro c' hclosed
    by_cases hc : c' = c
    · subst hc
      rw [hself]
    · rw [hother c' hc] at hclosed ⊢
      exact h.good.closed c' hclosed
  · intro y hy
    obtain ⟨hy, hne⟩ := Option.mem_filter_iff.mp hy
    have hne : y.1 ≠ c := by simpa using hne
    rw [hother y.1 hne]
    exact h.good.holder y hy
  · intro c' i' hidle
    by_cases hc : c' = c
    · subst hc
      rw [hself] at hidle
      cases hidle
    · rw [hother c' hc] at hidle ⊢
      exact h.good.clean c' i' hidle

theorem wp_destroy (h : Mine key procs i c t d s) :
    (destroy c).Wp (protocol key procs i) l (fun _ l' s' => l' = l ∧ s'.Good key procs) s := by
  apply Job.wp_ask stable_mine _ h
  · intro s a s' hs ha
    cases ha with
    | refused call e => exact ⟨hs.idle.guarantees id, rfl, hs.good⟩
    | destroyed =>
      obtain ⟨hown, hgood⟩ := OwnStep.closed hs
      exact ⟨hown.guarantees (fun _ => hgood), rfl, hgood⟩
  · exact fun _ => (stable_good i).known

/-- Only a clean connection goes back to the pool. -/
theorem wp_release (h : Mine key procs i c false false s) :
    (release c).Wp (protocol key procs i) l (fun _ l' s' => l' = l ∧ s'.Good key procs) s := by
  apply Job.wp_ask stable_mine _ h
  · intro s a s' hs ha
    cases ha with
    | refused call e => exact ⟨hs.idle.guarantees id, rfl, hs.good⟩
    | released halive =>
      have hgood : (s.setSession c { s.sessions c with lease := .idle i, queue := none }).Good key
          procs := by
        apply good_setSession hs.good
        · intro hclosed
          cases hclosed
        · exact fun _ _ _ => halive
        · intro i' hidle
          injection hidle with heq
          subst heq
          refine ⟨?_, ?_, rfl⟩
          -- neither raised nor dirty, by what `Mine` says without the marks
          · by_contra hne
            cases hs.limit hne
          · by_contra hne
            cases hs.dirty (by simpa using hne)
      exact ⟨(hs.setSession_ownStep _).guarantees (fun _ => hgood), rfl, hgood⟩
    | dropped =>
      obtain ⟨hown, hgood⟩ := OwnStep.closed hs
      exact ⟨hown.guarantees (fun _ => hgood), rfl, hgood⟩
  · exact fun _ => (stable_good i).known

/-- A connection nobody had leased. -/
theorem leased_setSession (h : s.Good key procs) {x : Session ι}
    (hfree : ∀ j, (s.sessions c).lease ≠ .leased j) (hlease : x.lease = .leased i)
    (halive : ∀ y ∈ s.holder, y.1 = c → x.alive = true) (hlimit : x.limit = runtimeOf procs i)
    (hdirty : x.dirty = false) (hqueue : x.queue = none) :
    OwnStep i c s (s.setSession c x) ∧ At key procs i c false false none none (s.setSession c x) := by
  have hself : (s.setSession c x).sessions c = x := Function.update_self _ _ _
  have hgood : (s.setSession c x).Good key procs := by
    apply good_setSession h _ halive
    · intro i' hidle
      cases hlease.symm.trans hidle
    · intro hclosed
      cases hlease.symm.trans hclosed
  refine ⟨⟨fun j _ => hfree j, fun _ hc' => Function.update_of_ne hc' _ _, .inl rfl,
    .inl ⟨rfl, rfl⟩, List.prefix_rfl⟩, ⟨hgood, ?_, ?_, ?_⟩, ?_, ?_, ?_⟩
  · rw [hself]
    exact hlease
  · rw [hself]
    exact fun hne => absurd hlimit hne
  · rw [hself, hdirty]
    exact id
  · rw [hself]
    exact fun _ => hqueue
  · intro J' hJ'
    cases hJ'
  · intro J' hJ'
    cases hJ'

/-- A lease gives a clean connection. -/
theorem wp_lease (h : s.Good key procs) :
    lease.Wp (protocol key procs i) l
      (Job.Ends (fun c l' s' => l' = l ∧ At key procs i c false false none none s')
        (fun _ l' s' => l' = l ∧ s'.Good key procs)) s := by
  apply Job.wp_ask (stable_good i) _ h
  · intro s a s' hs ha
    cases ha with
    | refused call e =>
      exact ⟨⟨id, List.prefix_rfl, fun j _ => ⟨fun _ _ => .inl rfl, fun _ _ _ _ => ⟨rfl, rfl, rfl⟩,
        id, List.prefix_rfl⟩⟩, rfl, hs⟩
    -- a pooled connection is as clean as a new one
    | @reused s c hidle =>
      obtain ⟨hlimit, hdirty, hqueue⟩ := hs.clean c i hidle
      have hfree : ∀ j, (s.sessions c).lease ≠ .leased j := by
        intro j hj
        cases hidle.symm.trans hj
      obtain ⟨hown, hat⟩ := leased_setSession (x := { s.sessions c with lease := .leased i }) hs
        hfree rfl (fun y hy hc => hc ▸ hs.holder y hy) hlimit hdirty hqueue
      exact ⟨hown.guarantees (fun _ => hat.good), rfl, hat⟩
    | @opened s c hclosed =>
      have hfree : ∀ j, (s.sessions c).lease ≠ .leased j := by
        intro j hj
        cases hclosed.symm.trans hj
      obtain ⟨hown, hat⟩ := leased_setSession (x := ⟨.leased i, true, runtimeOf procs i, false, none⟩)
        hs hfree rfl (fun _ _ _ => rfl) rfl rfl rfl
      exact ⟨hown.guarantees (fun _ => hat.good), rfl, hat⟩
  · intro a s s' hrely hs
    cases a with
    | ok c    => exact ⟨hs.1, stable_at s s' hrely hs.2⟩
    | error e => exact ⟨hs.1, hrely.good hs.2⟩

end XChainDecoder.Migrate
