import XChainDecoder.Rpc.Connector

/-! # Calls under way together

    Whatever the node and the network answer, and in whatever order the calls of one
    connector go on, each call that is rejected is counted once and no other is; and a
    batch of transactions comes back in the order it was asked for.

    **Main theorems.** `rpcErrors_of_reachable`, `getRawTransactions_of_reachable`. -/

namespace XChainDecoder.Rpc

variable {α β : Type}

/-! ## Section 1: What is counted -/

/-- A program that counts what it throws, and nothing else. -/
inductive Counts : Promise α → Prop where
  | resolve (a : α) : Counts (.ret (.ok a))
  | reject (f : Fault) : Counts (Rpc.reject f)
  | call {c : Call} {k : c.Answer → Promise α} (hc : c ≠ .countError) (h : ∀ a, Counts (k a)) :
      Counts (.call c k)

/-- The call has been rejected. -/
def Rejected : Promise α → Prop
  | .ret (.error _) => True
  | _               => False

instance : DecidablePred (Rejected : Promise α → Prop)
  | .ret (.error _) => .isTrue trivial
  | .ret (.ok _)    => .isFalse id
  | .call _ _       => .isFalse id

def counted (x : (c : Call) × c.Answer) : ℕ := if x.1 = .countError then 1 else 0

/-- At any time, a program has counted the failure it ends with. -/
theorem Counts.leads {p p' : Promise α} {trace : List ((c : Call) × c.Answer)} (h : Counts p)
    (hleads : p.Leads trace p') : (trace.map counted).sum = if Rejected p' then 1 else 0 := by
  induction hleads with
  | refl p =>
    cases h with
    | resolve a => rfl
    | reject f  => rfl
    | call hc h => rfl
  | call a hleads ih =>
    cases h with
    | reject f =>
      cases hleads
      rfl
    | call hc h =>
      -- a call of the program itself counts nothing
      have hzero : counted ⟨_, a⟩ = 0 := if_neg hc
      rw [List.map_cons, List.sum_cons, hzero, Nat.zero_add]
      exact ih (h a)

theorem Counts.andThen {p : Promise α} {f : Except Fault α → Promise β} (h : Counts p)
    (hok : ∀ a, Counts (f (.ok a))) (herror : ∀ e, f (.error e) = .ret (.error e)) :
    Counts (Prog.andThen f p) := by
  induction h with
  | resolve a => exact hok a
  | reject e =>
    show Counts (Prog.call Call.countError (fun _ => f (.error e)))
    rw [herror]
    exact .reject e
  | call hc _ ih => exact .call hc ih

theorem counts_backoffOnTimeout {p : Promise α} (delay : ℕ) (h : Counts p) :
    Counts (backoffOnTimeout delay p) := by
  unfold backoffOnTimeout
  split
  · exact .call nofun (fun _ => h)
  · exact h

theorem counts_timeoutRetries (delay : ℕ) (data : Request) (words : Wording) (tries : ℕ) :
    ∀ last, Counts (timeoutRetries delay data words tries last) := by
  induction tries with
  | zero => exact fun _ => .reject _
  | succ tries ih =>
    intro last
    refine .call nofun (fun posted => ?_)
    split
    · exact .resolve _
    · split
      · exact counts_backoffOnTimeout delay (ih _)
      · exact .reject _

theorem counts_rpcCallWithTimeoutRetry (delay : ℕ) (data : Request) (words : Wording) :
    Counts (rpcCallWithTimeoutRetry delay data words) :=
  counts_timeoutRetries delay data words 10 none

theorem counts_getBlockHash (shown : Value → String) (delay : ℕ) (blockindex : Int) :
    Counts (getBlockHash shown delay blockindex) := by
  unfold getBlockHash
  refine (counts_rpcCallWithTimeoutRetry delay _ _).andThen ?_ (fun _ => rfl)
  intro result
  cases result with
  | text s =>
    dsimp only
    split
    · exact .resolve _
    · exact .reject _
  | other typeof truthy => exact .reject _

theorem counts_rawTransactionRetries (txid : String) (tries : ℕ) :
    ∀ last, Counts (rawTransactionRetries txid tries last) := by
  induction tries with
  | zero => exact fun _ => .reject _
  | succ tries ih =>
    intro last
    refine .call nofun (fun posted => ?_)
    split
    · exact .resolve _
    · split
      · exact .resolve _
      · exact .call nofun (fun _ => ih _)

/-! ## Section 2: Any number of calls -/

/-- The calls of a connector, one for each method that posts. -/
inductive Method where
  | getNetworkInfo
  | getBlockchainInfo
  | getBlockHash (blockindex : Int)
  | getBlockHeader (blockhash : String) (hexFormat : Bool)
  | getBlockVerbose (blockhash : String)
  | getRawMempool
  | getBlock (blockhash : String) (hexFormat : Bool)
  | getRawTransaction (txid : String)
deriving DecidableEq, Repr

/-- Whether it resolves, and not to what. -/
def settled (p : Promise α) : Promise Unit :=
  p.andThen (fun r =>
    match r with
    | .ok _    => .ret (.ok ())
    | .error f => .ret (.error f))

def Method.run (shown : Value → String) (delay : ℕ) : Method → Promise Unit
  | getNetworkInfo            => settled (Rpc.getNetworkInfo delay)
  | getBlockchainInfo         => settled (Rpc.getBlockchainInfo delay)
  | getBlockHash blockindex   => settled (Rpc.getBlockHash shown delay blockindex)
  | getBlockHeader hash hex   => settled (Rpc.getBlockHeader delay hash hex)
  | getBlockVerbose hash      => settled (Rpc.getBlockVerbose delay hash)
  | getRawMempool             => settled (Rpc.getRawMempool delay)
  | getBlock hash hex         => settled (Rpc.getBlock delay hash hex)
  | getRawTransaction txid    => settled (Rpc.getRawTransaction txid)

theorem Counts.settled {p : Promise α} (h : Counts p) : Counts (settled p) :=
  h.andThen (fun _ => .resolve ()) (fun _ => rfl)

theorem Method.counts (shown : Value → String) (delay : ℕ) (m : Method) :
    Counts (m.run shown delay) := by
  cases m with
  | getBlockHash blockindex => exact (counts_getBlockHash shown delay blockindex).settled
  | getRawTransaction txid  => exact (counts_rawTransactionRetries txid 10 none).settled
  | _ => exact (counts_rpcCallWithTimeoutRetry delay _ _).settled

section Calls

variable {ι : Type} [DecidableEq ι]

abbrev Calls (ι : Type) : Type := Prog.Threads ι Call Call.Answer (Except Fault Unit) Connector

/-- A call relies on nothing of the connector. -/
def terms : Prog.Protocol Call Call.Answer Connector where
  rely _ _      := True
  guarantee _ _ := True
  answers       := Answers

/-- Nobody else touches the connector. -/
def undisturbed : Prog.Surroundings ι Connector where
  moves _ _   := False
  kills _ _ _ := False

abbrev Calls.Step : Calls ι → Calls ι → Prop :=
  Prog.Threads.Step (fun _ => terms) undisturbed

variable (shown : Value → String) (delay : ℕ)

/-- All calls are still to start; one that starts late waits until then. -/
def Calls.start (methods : ι → Method) (c : Connector) : Calls ι where
  threads i := some ((methods i).run shown delay)
  state     := c

variable {shown} {delay}

/-- No call ever disappears. -/
theorem Calls.isSome {w w' : Calls ι} (h : ∀ i, (w.threads i).isSome = true)
    (hrun : Relation.ReflTransGen Calls.Step w w') : ∀ i, (w'.threads i).isSome = true := by
  induction hrun with
  | refl => exact h
  | @tail w₁ w₂ _ hstep ih =>
    intro j
    cases hstep with
    | @call i c k a s hthread ha =>
      show (Function.update w₁.threads i (some (k a)) j).isSome = true
      by_cases hj : j = i
      · rw [hj, Function.update_self]
        rfl
      · rw [Function.update_of_ne hj]
        exact ih j
    | move h   => exact h.elim
    | kill i h => exact h.elim

/-- An answer leaves the endpoints as they are and one of them active. -/
theorem Answers.valid {call : Call} {s s' : Connector} {a : call.Answer}
    (h : Answers call s a s') (hs : s.Valid) : s'.Valid ∧ s'.endpoints = s.endpoints := by
  cases h with
  | post data _ now p => exact ⟨hs.rpcPost now p, s.endpoints_rpcPost now p⟩
  | sleep ms          => exact ⟨hs, rfl⟩
  | countError        => exact ⟨hs, rfl⟩

/-- **Run lemma.** Whatever fails over, the active endpoint is one of those configured. -/
theorem Calls.valid {w w' : Calls ι} (hw : w.state.Valid)
    (hrun : Relation.ReflTransGen Calls.Step w w') :
    w'.state.Valid ∧ w'.state.endpoints = w.state.endpoints := by
  induction hrun with
  | refl => exact ⟨hw, rfl⟩
  | tail _ hstep ih =>
    obtain ⟨hvalid, hendpoints⟩ := ih
    cases hstep with
    | call i hthread ha =>
      obtain ⟨hvalid', hendpoints'⟩ := Answers.valid ha hvalid
      exact ⟨hvalid', hendpoints'.trans hendpoints⟩
    | move h   => exact h.elim
    | kill i h => exact h.elim

/-- **Theorem.** However the calls of a connector are interleaved and answered, its
    counter is the number of those that have been rejected. -/
theorem rpcErrors_of_reachable [Fintype ι] {methods : ι → Method} {c : Connector} {w : Calls ι}
    (h : Relation.ReflTransGen Calls.Step (Calls.start shown delay methods c) w) :
    w.state.rpcErrors =
      c.rpcErrors + (Finset.univ.filter (fun i => ∃ p ∈ w.threads i, Rejected p)).card := by
  -- the counter moves with the calls that count, so their traces tell its value
  have hcall : ∀ (i : ι) (call : Call) (s : Connector) (a : call.Answer) (s' : Connector),
      terms.answers call s a s' → s'.rpcErrors = s.rpcErrors + counted ⟨call, a⟩ := by
    intro i call s a s' ha
    cases ha with
    | post data _ now p => exact s.rpcErrors_rpcPost now p
    | sleep ms          => rfl
    | countError        => rfl
  obtain ⟨traces, htraced, hcount⟩ := Prog.Threads.exists_traces hcall
    (fun _ _ hmove => False.elim hmove) (fun _ _ _ hkill => False.elim hkill) h
  have hsome := Calls.isSome (fun _ => rfl) h
  rw [hcount, Finset.card_filter]
  apply congrArg (c.rpcErrors + ·)
  apply Finset.sum_congr rfl
  intro i _
  obtain ⟨p', hp'⟩ := Option.isSome_iff_exists.mp (hsome i)
  obtain ⟨p, hp, hleads⟩ := htraced i p' hp'
  have hcounts : Counts p := by
    rw [← Option.some.inj hp]
    exact (methods i).counts shown delay
  rw [hcounts.leads hleads, hp']
  simp

end Calls

/-! ## Section 3: A batch of transactions -/

def rawTransactionRequest (txid : String) : Request := ⟨"getrawtransaction", [.text txid]⟩

/-- The node says that it does not have the transaction. -/
def SaysAbsent (txid : String) : Except Fault Response → Prop
  | .ok response => rawTransactionResponse response txid = .ok none
  | .error f     => (f.response.bind FaultResponse.error).bind RpcError.code = some (-5)

/-- The post of a transaction that was answered with `posted`. -/
def posting (txid : String) (posted : Except Fault Response) : (c : Call) × c.Answer :=
  ⟨.post (rawTransactionRequest txid), posted⟩

def isPost (x : (c : Call) × c.Answer) : Bool :=
  match x.1 with
  | .post _ => true
  | _       => false

/-- What a fetch resolves to, and what it was answered. -/
structure Fetched (txid : String) (trace : List ((c : Call) × c.Answer))
    (v : Option (List Char)) : Prop where
  posts  : ∀ x ∈ trace, isPost x = true → ∃ posted, x = posting txid posted
  /-- a hex string that the node gave for this transaction -/
  whole  : ∀ hex ∈ v, Wire.isWholeHex hex = true ∧ ∃ response, posting txid (.ok response) ∈ trace ∧
    response.data.bind Body.result = some (.text hex)
  /-- no transaction is taken for missing because it could not be fetched -/
  absent : v = none → ∃ posted, posting txid posted ∈ trace ∧ SaysAbsent txid posted

theorem wholeHexResult_eq_ok {result : Value} {txid : String} {hex : List Char}
    (h : wholeHexResult result txid = .ok hex) :
    Wire.isWholeHex hex = true ∧ result = .text hex := by
  unfold wholeHexResult at h
  cases result with
  | text s =>
    dsimp only at h
    split at h
    · rename_i hwhole
      injection h with h
      subst h
      exact ⟨hwhole, rfl⟩
    · cases h
  | other typeof truthy => cases h

theorem wholeHexResult_eq_error {result : Value} {txid : String} {f : Fault}
    (h : wholeHexResult result txid = .error f) : f.response = none := by
  unfold wholeHexResult at h
  cases result with
  | text s =>
    dsimp only at h
    split at h
    · cases h
    · injection h with h
      rw [← h]
      rfl
  | other typeof truthy =>
    injection h with h
    rw [← h]
    rfl

theorem rawTransactionResponse_eq_some {response : Response} {txid : String} {hex : List Char}
    (h : rawTransactionResponse response txid = .ok (some hex)) :
    Wire.isWholeHex hex = true ∧ response.data.bind Body.result = some (.text hex) := by
  -- a coded error other than `-5` has thrown before
  have hresult : rawTransactionResponse.resultOf txid response = .ok (some hex) := by
    unfold rawTransactionResponse at h
    dsimp only at h
    split at h
    · split at h
      · cases h
      · exact h
    · exact h
  unfold rawTransactionResponse.resultOf at hresult
  cases hdata : response.data with
  | none =>
    rw [hdata] at hresult
    cases hresult
  | some body =>
    rw [hdata] at hresult
    dsimp only at hresult
    cases hvalue : body.result.filter Value.truthy with
    | none =>
      rw [hvalue] at hresult
      cases hresult
    | some result =>
      rw [hvalue] at hresult
      dsimp only at hresult
      cases hhex : wholeHexResult result txid with
      | error f =>
        rw [hhex] at hresult
        cases hresult
      | ok hex' =>
        rw [hhex] at hresult
        injection hresult with hresult
        injection hresult with hresult
        subst hresult
        obtain ⟨hwhole, rfl⟩ := wholeHexResult_eq_ok hhex
        exact ⟨hwhole, (Option.filter_eq_some_iff.mp hvalue).1⟩

/-- What an answer is turned into is never the error of a missing transaction. -/
theorem rawTransactionResponse_eq_error {response : Response} {txid : String} {f : Fault}
    (h : rawTransactionResponse response txid = .error f) :
    (f.response.bind FaultResponse.error).bind RpcError.code ≠ some (-5) := by
  have hresult : ∀ {f : Fault}, rawTransactionResponse.resultOf txid response = .error f →
      f.response = none := by
    intro f h
    unfold rawTransactionResponse.resultOf at h
    split at h
    · injection h with h
      rw [← h]
      rfl
    · split at h
      · rename_i result _
        cases hhex : wholeHexResult result txid with
        | ok hex =>
          rw [hhex] at h
          cases h
        | error f' =>
          rw [hhex] at h
          injection h with h
          subst h
          exact wholeHexResult_eq_error hhex
      · cases h
  unfold rawTransactionResponse at h
  dsimp only at h
  split at h
  -- the re-shaped error carries the code, which is not `-5`
  · rename_i code hcode
    split at h
    · rename_i hne
      injection h with h
      rw [← h]
      show (Option.bind (response.data.bind Body.error) RpcError.code) ≠ some (-5)
      rw [hcode]
      exact fun heq => hne (Option.some.inj heq)
    · rw [hresult h]
      exact nofun
  · rw [hresult h]
    exact nofun

/-- A fetch has posted at most ten times when it resolves. -/
theorem rawTransactionRetries_leads (txid : String) (tries : ℕ) :
    ∀ {last : Option (String × Fault)} {trace : List ((c : Call) × c.Answer)}
      {v : Option (List Char)},
    (rawTransactionRetries txid tries last).Leads trace (.ret (.ok v)) →
    Fetched txid trace v ∧ (trace.filter isPost).length ≤ tries := by
  induction tries with
  | zero =>
    intro last trace v h
    obtain ⟨_, rest, -, hrest⟩ := h.call_inv
    cases hrest
  | succ tries ih =>
    intro last trace v h
    obtain ⟨posted, rest, rfl, hrest⟩ := h.call_inv
    have hself : posting txid posted ∈ posting txid posted :: rest := List.mem_cons_self
    -- where the fetch ends with this post, the trace is this post
    have hends : ∀ v', Prog.Leads (.ret (.ok v') : Promise (Option (List Char))) rest (.ret (.ok v)) →
        (∀ hex ∈ v', Wire.isWholeHex hex = true ∧ ∃ response, posted = .ok response ∧
          response.data.bind Body.result = some (.text hex)) →
        (v' = none → SaysAbsent txid posted) →
        Fetched txid (posting txid posted :: rest) v ∧
          ((posting txid posted :: rest).filter isPost).length ≤ tries + 1 := by
      intro v' hret hwhole habsent
      cases hret
      refine ⟨⟨?_, ?_, fun hnone => ⟨posted, hself, habsent hnone⟩⟩, ?_⟩
      · intro x hx _
        exact ⟨posted, List.mem_singleton.mp hx⟩
      · intro hex hhex
        obtain ⟨hhex, response, rfl, hresult⟩ := hwhole hex hhex
        exact ⟨hhex, response, hself, hresult⟩
      · exact Nat.succ_le_succ (Nat.zero_le tries)
    split at hrest
    · rename_i v' hanswer
      apply hends v' hrest
      · intro hex hhex
        rw [Option.mem_def.mp hhex] at hanswer
        cases posted with
        | error f => cases hanswer
        | ok response =>
          obtain ⟨hwhole, hresult⟩ := rawTransactionResponse_eq_some hanswer
          exact ⟨hwhole, response, rfl, hresult⟩
      · rintro rfl
        cases posted with
        | error f => cases hanswer
        | ok response => exact hanswer
    · rename_i f hfault
      split at hrest
      · rename_i hgone
        apply hends none hrest
        · intro hex hhex
          cases hhex
        · intro _
          cases posted with
          | error f' =>
            injection hfault with hfault
            subst hfault
            exact hgone
          | ok response => exact absurd hgone (rawTransactionResponse_eq_error hfault)
      -- a pause, and the attempts that are left
      · obtain ⟨_, after, rfl, hafter⟩ := hrest.call_inv
        obtain ⟨hfetched, hfew⟩ := ih hafter
        refine ⟨⟨?_, ?_, ?_⟩, ?_⟩
        · intro x hx hpost
          rcases List.mem_cons.mp hx with rfl | hx
          · exact ⟨posted, rfl⟩
          · rcases List.mem_cons.mp hx with rfl | hx
            · cases hpost
            · exact hfetched.posts x hx hpost
        · intro hex hhex
          obtain ⟨hwhole, response, hmem, hresult⟩ := hfetched.whole hex hhex
          exact ⟨hwhole, response, List.mem_cons_of_mem _ (List.mem_cons_of_mem _ hmem), hresult⟩
        · intro hnone
          obtain ⟨posted', hmem, habsent⟩ := hfetched.absent hnone
          exact ⟨posted', List.mem_cons_of_mem _ (List.mem_cons_of_mem _ hmem), habsent⟩
        · exact Nat.succ_le_succ hfew

/-- `getRawTransactions`, with the first slice under way. -/
def getRawTransactions (concurrency : ℕ) (txIdArray : List String) :
    Batch Call Call.Answer String Fault (Option (List Char)) :=
  Batch.slice getRawTransaction concurrency [] txIdArray

/-- **Theorem.** However the fetches of a batch are interleaved with each other and with
    the rest of the connector's work, never more than `concurrency` are under way; and
    when all are done, each place holds what the node said of the transaction asked for
    there. -/
theorem getRawTransactions_of_reachable {concurrency : ℕ} {others : Connector → Connector → Prop}
    {txIdArray : List String} {c : Connector}
    {w : Batch Call Call.Answer String Fault (Option (List Char)) × Connector}
    (h : Relation.ReflTransGen (Batch.Step getRawTransaction concurrency Answers others)
      (getRawTransactions concurrency txIdArray, c) w) :
    w.1.flight.length ≤ concurrency ∧
      (w.1.flight = [] → w.1.rest = [] →
        List.Forall₂ (fun txid v => ∃ trace, Fetched txid trace v ∧ (trace.filter isPost).length ≤ 10)
          txIdArray w.1.results) := by
  refine ⟨Batch.flight_le h, fun hflight hrest => ?_⟩
  apply (Batch.results_of_reachable h hflight hrest).imp
  intro txid v hleads
  obtain ⟨trace, htrace⟩ := hleads
  exact ⟨trace, rawTransactionRetries_leads txid 10 htrace⟩

/-! ## Section 4: Samples -/

namespace Sample

def connector : Connector where
  endpoints           := ["http://primary:8332", "http://fallback:8332"]
  activeEndpointIndex := 0
  connectionFailures  := 0
  failoverThreshold   := 3
  rpcErrors           := 7
  lastNodeOkAt        := 0
  lastNodeFailAt      := 0

def refused : Fault :=
  ⟨"AxiosError", "connect ECONNREFUSED", some "ECONNREFUSED", none, none, none⟩

/-- `-5`, which axios throws with the status of the answer. -/
def absent : Fault :=
  ⟨"AxiosError", "Request failed with status code 500", some "ERR_BAD_RESPONSE",
    some ⟨500, some ⟨some (-5), some "No such mempool or blockchain transaction", ""⟩⟩, none, none⟩

def held : Response := ⟨200, some ⟨none, some (.text ['0', '1'])⟩⟩

def methods : Fin 2 → Method
  | 0 => .getBlockHash 800000
  | 1 => .getRawTransaction "aa"

/-- Both posts were refused. The hash call gave up and was counted, and the other one
    waits for its next attempt. -/
theorem reachable_refused : ∃ w : Calls (Fin 2),
    Relation.ReflTransGen Calls.Step (Calls.start (fun _ => "") 500 methods connector) w ∧
      w.state.rpcErrors = 8 := by
  have hstart : Relation.ReflTransGen Calls.Step
      (Calls.start (fun _ => "") 500 methods connector) _ := .refl
  have hfirst := hstart.tail (.call (i := 0) rfl (.post _ _ 1700 (.error refused)))
  have hsecond := hfirst.tail (.call (i := 1) rfl (.post _ _ 1701 (.error refused)))
  have hcounted := hsecond.tail (.call (i := 0) rfl (.countError _))
  exact ⟨_, hcounted, rfl⟩

theorem rpcErrors_of_refused : ∃ w : Calls (Fin 2), w.state.rpcErrors = 8 ∧
    8 = 7 + (Finset.univ.filter (fun i => ∃ p ∈ w.threads i, Rejected p)).card := by
  obtain ⟨w, hrun, hcount⟩ := reachable_refused
  exact ⟨w, hcount, hcount.symm.trans (rpcErrors_of_reachable hrun)⟩

abbrev StepOfTwo :
    Batch Call Call.Answer String Fault (Option (List Char)) × Connector →
      Batch Call Call.Answer String Fault (Option (List Char)) × Connector → Prop :=
  Batch.Step getRawTransaction 2 Answers (fun _ _ => False)

/-- The node answers for `bb` first, and does not know `aa`. -/
theorem reachable_answered : ∃ w,
    Relation.ReflTransGen StepOfTwo
      (getRawTransactions 2 ["aa", "bb"], connector) w ∧
      w.1 = ⟨[none, some ['0', '1']], [], []⟩ := by
  have hbb : (getRawTransactions 2 ["aa", "bb"]).flight =
    [("aa", getRawTransaction "aa")] ++ [("bb", .call _ _)] := rfl
  have hsecond : Relation.ReflTransGen StepOfTwo
      (getRawTransactions 2 ["aa", "bb"], connector)
      (⟨[], [("aa", getRawTransaction "aa"), ("bb", .ret (.ok (some ['0', '1'])))], []⟩,
        connector.rpcPost 1700 (.ok held)) :=
    .single (Batch.Step.call hbb (Answers.post _ connector 1700 (.ok held)))
  have haa : [("aa", getRawTransaction "aa"), ("bb", .ret (.ok (some ['0', '1'])))] =
    [] ++ ("aa", .call _ _) :: [("bb", .ret (.ok (some ['0', '1'])))] := rfl
  have hfirst := hsecond.tail (.call haa (.post _ _ 1701 (.error absent)))
  have hvalues : [.ret (.ok none), .ret (.ok (some ['0', '1']))] =
      [none, some ['0', '1']].map (fun v => (.ret (.ok v) : Promise (Option (List Char)))) := rfl
  exact ⟨_, hfirst.tail (.join hvalues), rfl⟩

theorem getRawTransactions_of_answered :
    ∃ w : Batch Call Call.Answer String Fault (Option (List Char)) × Connector,
      w.1.results = [none, some ['0', '1']] ∧ w.1.flight.length ≤ 2 ∧
      List.Forall₂ (fun txid v => ∃ trace, Fetched txid trace v ∧
        (trace.filter isPost).length ≤ 10) ["aa", "bb"] w.1.results := by
  obtain ⟨w, hrun, hend⟩ := reachable_answered
  obtain ⟨hflight, hresults⟩ := getRawTransactions_of_reachable hrun
  exact ⟨w, by rw [hend], hflight, hresults (by rw [hend]) (by rw [hend])⟩

end Sample

end XChainDecoder.Rpc
