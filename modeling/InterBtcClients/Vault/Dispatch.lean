import InterBtcClients.Vault.Execution

/-! What the execution of the open requests starts for each of them on a full node: the transactions
of the stream take their requests out of the map one after the other, and those that are left are
looked up. -/

namespace InterBtcClients.Vault.Dispatch

open Library Bitcoin Execution InterBtcClients.Runtime

variable {E : Type} {N : Interface} {S : Type}

/-! ### The surroundings -/

/-- The requests on the parachain, the state of the full node, and the tasks that have been
spawned. -/
structure World (S : Type) where
  redeems : List (H256 × InterBtcRedeemRequest)
  replaces : List (H256 × InterBtcReplaceRequest)
  node : S
  spawned : List Task

/-- The tasks that go on: each first looks up its vault, and ends when it is not known. -/
def World.started (vaults : List VaultId) (w : World S) : List Task :=
  w.spawned.filter fun task => task.request.vaultId ∈ vaults

section Answers

variable (handle : S → (call : N.Call) → N.Answer call × S)
variable (lookup : Address → Nat → H256 → Except E (Option Txid))

/-- `handle` answers the calls to the full node, and `lookup` the lookups. -/
def answer (w : World S) : (call : Call N) → (api E N).Answer call × World S
  | .getVaultRedeemRequests _ => (.ok w.redeems, w)
  | .getOldVaultReplaceRequests _ => (.ok w.replaces, w)
  | .getTxForOpReturn address amount data => (lookup address amount data, w)
  | .node call => ((handle w.node call).1, { w with node := (handle w.node call).2 })
  | .spawn task => ((), { w with spawned := w.spawned ++ [task] })

/-- The items of the stream of the full node's transactions. -/
def streamed (btcRpc : BtcRpc E N) (stopHeight : Nat) (s : S) :
    Except E (List (Except E Transaction)) :=
  match (btcRpc.reverseStreamTransactions stopHeight).run.exec handle s with
  | (.ok stream, s) => .ok (stream.elements handle s).1
  | (.error e, _) => .error e

end Answers

/-! ### What is started -/

variable (lib : Lib E) (network : Network)
variable (lookup : Address → Nat → H256 → Except E (Option Txid))

def lookUp (request : Request) : Except E (Option Txid) := do
  let address ← request.btcAddress.toAddress lib network
  lookup address request.amount request.hash

/-- The task that the first transaction of the stream starts that is matched to the request, else
the one that the lookup leads to, which is none when it fails. -/
def toStart (txs : List Transaction) (requests : List Request) (request : Request) : Option Task :=
  match txs.find? fun tx => getRequestForBtcTx lib tx requests = some request with
  | some tx => some (.paymentWorker request (lib.txid tx))
  | none =>
    match lookUp lib network lookup request with
    | .ok (some txid) => some (.paymentWorker request txid)
    | .ok none => some (.payAndExecute request)
    | .error _ => none

/-- The requests that are open. -/
def openRequests (E : Type) (paymentMargin : Nat) (w : World S) : List Request :=
  (pendingRequests E paymentMargin w.redeems w.replaces).filterMap
    fun (_, request) => request.toOption

/-- Each of the requests has what is to be started for it, and nothing else has been started. -/
structure StartedOnce (txs : List Transaction) (requests : List Request) (started : List Task) :
    Prop where
  within : ∀ task ∈ started, task.request ∈ requests
  each : ∀ request ∈ requests, started.filter (fun task => task.request = request) =
    (toStart lib network lookup txs requests request).toList
  pays : ∀ request ∈ requests, .payAndExecute request ∈ started ↔
    (∀ tx ∈ txs, getRequestForBtcTx lib tx requests ≠ some request) ∧
      lookUp lib network lookup request = .ok none

variable {lib network lookup}

section Matching

variable {tx : Transaction} {requests rest : List Request} {request : Request}

/-- The transaction names the request and pays it. -/
def Matches (lib : Lib E) (tx : Transaction) (request : Request) : Prop :=
  getOpReturn tx = some request.hash ∧ ∃ payload amount,
    request.btcAddress.toPayload lib = .ok payload ∧
    getPaymentAmountTo lib tx payload = some amount ∧ request.amount ≤ amount.toNat

theorem find_hash_iff (hdistinct : (requests.map Request.hash).Nodup) {hash : H256} :
    requests.find? (fun other => other.hash = hash) = some request ↔
      request ∈ requests ∧ request.hash = hash := by
  constructor
  · intro h
    exact ⟨List.mem_of_find?_eq_some h, by simpa using List.find?_some h⟩
  · rintro ⟨hmem, rfl⟩
    cases hfind : requests.find? (fun other => other.hash = request.hash) with
    | none => simpa using List.find?_eq_none.mp hfind request hmem
    | some other =>
      have hhash : other.hash = request.hash := by simpa using List.find?_some hfind
      rw [List.inj_on_of_nodup_map hdistinct (List.mem_of_find?_eq_some hfind) hmem hhash]

/-- The map has at most one request that a transaction can match. -/
theorem getRequestForBtcTx_iff (hdistinct : (requests.map Request.hash).Nodup) :
    getRequestForBtcTx lib tx requests = some request ↔
      request ∈ requests ∧ Matches lib tx request := by
  simp only [getRequestForBtcTx, Option.bind_eq_bind, Option.bind_eq_some_iff]
  constructor
  · rintro ⟨hash, hopReturn, found, hfound, payload, hpayload, amount, hamount, hpaid⟩
    split at hpaid
    next hle =>
      cases hpaid
      obtain ⟨hmem, rfl⟩ := (find_hash_iff hdistinct).mp hfound
      exact ⟨hmem, hopReturn, payload, amount, Prog.ok_of_toOption hpayload, hamount, hle⟩
    next => cases hpaid
  · rintro ⟨hmem, hopReturn, payload, amount, hpayload, hamount, hle⟩
    refine ⟨request.hash, hopReturn, request, (find_hash_iff hdistinct).mpr ⟨hmem, rfl⟩, payload,
      ?_, amount, hamount, if_pos hle⟩
    rw [hpayload]
    rfl

theorem Matches.eq {other : Request} (hdistinct : (requests.map Request.hash).Nodup)
    (hmem : request ∈ requests) (hother : other ∈ requests) (h : Matches lib tx request)
    (h' : Matches lib tx other) : other = request := by
  have hhash : some other.hash = some request.hash := h'.1.symm.trans h.1
  exact List.inj_on_of_nodup_map hdistinct hother hmem (Option.some.inj hhash)

end Matching

/-! ### The stream -/

/-- Of the requests, `rest` are left, with nothing started for them; for each of the others there is
what is to be started for it. -/
structure Started (lib : Lib E) (network : Network)
    (lookup : Address → Nat → H256 → Except E (Option Txid)) (txs : List Transaction)
    (requests rest : List Request) (w : World S) : Prop where
  subset : rest ⊆ requests
  within : ∀ task ∈ w.spawned, task.request ∈ requests
  waiting : ∀ request ∈ rest, w.spawned.filter (fun task => task.request = request) = []
  each : ∀ request ∈ requests, request ∉ rest →
    w.spawned.filter (fun task => task.request = request) =
      (toStart lib network lookup txs requests request).toList

section Stream

variable {txs : List Transaction} {requests rest : List Request} {request : Request} {w : World S}

theorem Started.spawn {task : Task}
    (h : Started lib network lookup txs requests (request :: rest) w)
    (hrest : request ∉ rest) (htask : task.request = request)
    (hstart : toStart lib network lookup txs requests request = some task) :
    Started lib network lookup txs requests rest { w with spawned := w.spawned ++ [task] } where
  subset := (List.cons_subset.mp h.subset).2
  within other hother := by
    rcases List.mem_append.mp hother with hother | hother
    · exact h.within other hother
    · rw [List.mem_singleton.mp hother, htask]
      exact h.subset List.mem_cons_self
  waiting other hother := by
    have hne : task.request ≠ other := by
      rintro rfl
      exact hrest (htask ▸ hother)
    rw [List.filter_append, h.waiting other (List.mem_cons_of_mem _ hother),
      List.filter_singleton, decide_eq_false hne]
    rfl
  each other hmem hother := by
    by_cases heq : other = request
    · rw [heq, List.filter_append, h.waiting request List.mem_cons_self, List.filter_singleton,
        decide_eq_true htask, hstart]
      rfl
    · have hne : task.request ≠ other := fun hsame => heq (hsame.symm.trans htask)
      rw [List.filter_append, h.each other hmem (by simp [heq, hother]), List.filter_singleton,
        decide_eq_false hne]
      exact List.append_nil _

theorem Started.skip (h : Started lib network lookup txs requests (request :: rest) w)
    (hstart : toStart lib network lookup txs requests request = none) :
    Started lib network lookup txs requests rest w where
  subset := (List.cons_subset.mp h.subset).2
  within := h.within
  waiting other hother := h.waiting other (List.mem_cons_of_mem _ hother)
  each other hmem hother := by
    by_cases heq : other = request
    · rw [heq, h.waiting request List.mem_cons_self, hstart]
      rfl
    · exact h.each other hmem (by simp [heq, hother])

theorem Started.perm {rest' : List Request} (h : Started lib network lookup txs requests rest w)
    (hmem : ∀ request, request ∈ rest' ↔ request ∈ rest) :
    Started lib network lookup txs requests rest' w where
  subset request hrequest := h.subset ((hmem request).mp hrequest)
  within := h.within
  waiting request hrequest := h.waiting request ((hmem request).mp hrequest)
  each request hrequest hrest := h.each request hrequest fun hmem' =>
    hrest ((hmem request).mpr hmem')

theorem Started.node {node : S} (h : Started lib network lookup txs requests rest w) :
    Started lib network lookup txs requests rest { w with node } :=
  ⟨h.subset, h.within, h.waiting, h.each⟩

/-- The loop over the stream: none of the transactions that it has seen matches a request that is
left. -/
structure Streaming (lib : Lib E) (network : Network)
    (lookup : Address → Nat → H256 → Except E (Option Txid)) (txs : List Transaction)
    (requests rest : List Request) (items : List (Except E Transaction)) (w : World S) : Prop where
  started : Started lib network lookup txs requests rest w
  sublist : rest.Sublist requests
  seen : ∃ seen left, txs = seen ++ left ∧ items = left.map .ok ∧
    ∀ request ∈ rest, ∀ tx ∈ seen, ¬Matches lib tx request

theorem nodup_hashes (hdistinct : (requests.map Request.hash).Nodup) (h : rest.Sublist requests) :
    (rest.map Request.hash).Nodup :=
  hdistinct.sublist (h.map _)

variable (network lookup) in
/-- The first transaction that matches a request is the one that its worker waits for. -/
theorem toStart_of_first {seen : List Transaction} {tx : Transaction} (left : List Transaction)
    (hdistinct : (requests.map Request.hash).Nodup) (hmem : request ∈ requests)
    (hseen : ∀ tx ∈ seen, ¬Matches lib tx request) (htx : Matches lib tx request) :
    toStart lib network lookup (seen ++ tx :: left) requests request =
      some (.paymentWorker request (lib.txid tx)) := by
  have hfirst : (seen ++ tx :: left).find? (fun tx =>
      getRequestForBtcTx lib tx requests = some request) = some tx := by
    rw [List.find?_append, List.find?_eq_none.mpr fun other hother => ?_, Option.none_or,
      List.find?_cons_of_pos]
    · exact decide_eq_true ((getRequestForBtcTx_iff hdistinct).mpr ⟨hmem, htx⟩)
    · rw [decide_eq_true_eq, getRequestForBtcTx_iff hdistinct]
      exact fun hmatches => hseen other hother hmatches.2
  rw [toStart, hfirst]

variable (network lookup) in
theorem toStart_of_unmatched (hdistinct : (requests.map Request.hash).Nodup)
    (hseen : ∀ tx ∈ txs, ¬Matches lib tx request) :
    toStart lib network lookup txs requests request =
      match lookUp lib network lookup request with
      | .ok (some txid) => some (.paymentWorker request txid)
      | .ok none => some (.payAndExecute request)
      | .error _ => none := by
  have hnone : txs.find? (fun tx => getRequestForBtcTx lib tx requests = some request) = none := by
    refine List.find?_eq_none.mpr fun tx htx => ?_
    rw [decide_eq_true_eq, getRequestForBtcTx_iff hdistinct]
    exact fun hmatches => hseen tx htx hmatches.2
  rw [toStart, hnone]

end Stream

/-! ### The program -/

section Program

variable {handle : S → (call : N.Call) → N.Answer call × S} {txs : List Transaction}
variable {requests rest : List Request} {w : World S}

/-- The surroundings in which every call has its one answer. -/
abbrev answers (handle : S → (call : N.Call) → N.Answer call × S)
    (lookup : Address → Nat → H256 → Except E (Option Txid)) : Prog.Env (api E N) (World S) :=
  fun w call r w' => answer handle lookup w call = (r, w')

/-- The postcondition of a program that does not fail. -/
abbrev Returns {A : Type} (Q : A → World S → Prop) : Except (Error E) A → World S → Prop :=
  Prog.Outcome Q fun _ _ => False

theorem keeps_spawn {request : Request} {task : Task}
    (h : Started lib network lookup txs requests (request :: rest) w) (hrest : request ∉ rest)
    (htask : task.request = request)
    (hstart : toStart lib network lookup txs requests request = some task) :
    Prog.Keeps (answers handle lookup) (fun _ => True) (spawn (E := E) (N := N) task).run
      (Returns fun _ w' =>
        Started lib network lookup txs requests rest w' ∧ w'.node = w.node) w := by
  refine Prog.keeps_run_lift.mpr ⟨trivial, fun _ w' hw' => ⟨trivial, ?_⟩⟩
  obtain ⟨-, rfl⟩ := Prod.mk.inj hw'
  exact ⟨h.spawn hrest htask hstart, rfl⟩

theorem keeps_processTransaction {isTransportError : E → Bool} {item : Except E Transaction}
    {items : List (Except E Transaction)} (hdistinct : (requests.map Request.hash).Nodup)
    (h : Streaming lib network lookup txs requests rest (item :: items) w) :
    Prog.Keeps (answers handle lookup) (fun _ => True)
      (processTransaction lib isTransportError item rest).run
      (Returns (Sum.elim (fun rest w' =>
        Streaming lib network lookup txs requests rest items w' ∧ w'.node = w.node)
        fun _ _ => True)) w := by
  obtain ⟨seen, left, htxs, hitems, hseen⟩ := h.seen
  cases left with
  | nil => cases hitems
  | cons tx left =>
  obtain ⟨rfl, rfl⟩ := List.cons.inj hitems
  have hrest := nodup_hashes hdistinct h.sublist
  dsimp only [processTransaction]
  split
  next request hrequest =>
    obtain ⟨hmem, htx⟩ := (getRequestForBtcTx_iff hrest).mp hrequest
    have hother : request ∉ rest.filter fun other => other.hash ≠ request.hash := by simp
    have hstart : Started lib network lookup txs requests
        (request :: rest.filter fun other => other.hash ≠ request.hash) w := by
      refine h.started.perm fun other => ?_
      rw [List.mem_cons, List.mem_filter, decide_eq_true_eq]
      constructor
      · rintro (rfl | hkept)
        · exact hmem
        · exact hkept.1
      · intro hmem'
        by_cases hhash : other.hash = request.hash
        · exact .inl (List.inj_on_of_nodup_map hrest hmem' hmem hhash)
        · exact .inr ⟨hmem', hhash⟩
    have hfirst := toStart_of_first network lookup left hdistinct (h.sublist.subset hmem)
      (hseen request hmem) htx
    refine Prog.keeps_run_seq (keeps_spawn hstart hother rfl (by rw [htxs]; exact hfirst))
      fun _ w' _ hw' => ⟨trivial, ⟨hw'.1, List.filter_sublist.trans h.sublist, ?_⟩, hw'.2⟩
    refine ⟨seen ++ [tx], left, by rw [htxs, List.append_assoc]; rfl, rfl, ?_⟩
    intro other hkept tx' htx'
    obtain ⟨hmem', hhash⟩ := List.mem_filter.mp hkept
    rcases List.mem_append.mp htx' with htx' | htx'
    · exact hseen other hmem' tx' htx'
    · rw [List.mem_singleton.mp htx']
      intro hmatches
      rw [Matches.eq hrest hmem hmem' htx hmatches] at hhash
      simp at hhash
  next hnone =>
    refine ⟨trivial, ⟨h.started, h.sublist, seen ++ [tx], left, ?_, rfl, ?_⟩, rfl⟩
    · rw [htxs, List.append_assoc]
      rfl
    · intro request hmem tx' htx'
      rcases List.mem_append.mp htx' with htx' | htx'
      · exact hseen request hmem tx' htx'
      · rw [List.mem_singleton.mp htx']
        intro hmatches
        rw [(getRequestForBtcTx_iff hrest).mpr ⟨hmem, hmatches⟩] at hnone
        cases hnone

theorem keeps_processTransactions {btcRpc : BtcRpc E N} {stopHeight : Nat}
    (hdistinct : (requests.map Request.hash).Nodup)
    (hstream : streamed handle btcRpc stopHeight w.node = .ok (txs.map .ok))
    (h : Started lib network lookup txs requests requests w) :
    Prog.Keeps (answers handle lookup) (fun _ => True)
      (processTransactions lib btcRpc requests stopHeight).run
      (Returns fun rest w' => Started lib network lookup txs requests rest w' ∧
        rest.Sublist requests ∧ ∀ request ∈ rest, ∀ tx ∈ txs, ¬Matches lib tx request) w := by
  have hnode (w : World S) (call : N.Call) (r : N.Answer call) (w' : World S)
      (hr : answers (E := E) handle lookup w (.node call) r w') :
      handle w.node call = (r, w'.node) ∧ { w with node := w'.node } = w' := by
    obtain ⟨rfl, rfl⟩ := Prod.mk.inj hr
    exact ⟨rfl, rfl⟩
  have hopen : Prog.Keeps (answers handle lookup) (fun _ => True)
      ((btcRpc.reverseStreamTransactions stopHeight).run.embed Call.node fun _ r => r :
        Prog (api E N) _)
      (fun r w' => (btcRpc.reverseStreamTransactions stopHeight).run.exec handle w.node =
        (r, w'.node) ∧ Started lib network lookup txs requests requests w') w := by
    refine Prog.keeps_embed (fun w call r w' hw hr => ?_) (fun _ _ => trivial) _ h
    obtain ⟨hanswer, hw'⟩ := hnode w call r w' hr
    exact ⟨hanswer, hw' ▸ hw.node⟩
  refine Prog.keeps_run_bind.mpr (Prog.keeps_run_adapt.mpr (hopen.mono fun r w₁ _ hr => ?_))
  obtain ⟨hexec, hw₁⟩ := hr
  rw [streamed, hexec] at hstream
  cases r with
  | error e => cases hstream
  | ok stream =>
    have hitems : (stream.elements handle w₁.node).1 = txs.map .ok := Except.ok.inj hstream
    have hstart : Streaming lib network lookup txs requests requests
        (stream.elements handle w₁.node).1 w₁ :=
          ⟨hw₁, .refl _, [], txs, rfl, hitems, fun _ _ => List.forall_mem_nil _⟩
    have hloop : Prog.Keeps (answers handle lookup) (fun _ => True)
        ((stream.embed Call.node fun _ r => r).forUntil
          (processTransaction lib btcRpc.isTransportError) requests).run
        (Returns (Sum.elim (fun rest => Streaming lib network lookup txs requests rest [])
          fun _ _ => True)) w₁ := by
      refine AsyncStream.keeps_run_forUntil_embed (Streaming lib network lookup txs requests)
        (fun rest items w call r w' hw hr => ?_) (fun _ _ _ _ => trivial) (fun _ _ hw => hw)
        (fun _ _ _ _ hw => keeps_processTransaction hdistinct hw) hstart
      obtain ⟨hanswer, hw'⟩ := hnode w call r w' hr
      exact ⟨hanswer, hw' ▸ ⟨hw.started.node, hw.sublist, hw.seen⟩⟩
    refine Prog.keeps_run_seq hloop fun result w₂ _ hw₂ => ?_
    cases result with
    | inr never => exact never.elim
    | inl rest =>
      obtain ⟨hstarted, hsublist, seen, left, htxs, hleft, hseen⟩ := hw₂
      rw [List.map_eq_nil_iff.mp hleft.symm, List.append_nil] at htxs
      rw [← htxs] at hseen
      exact ⟨trivial, hstarted, hsublist, hseen⟩

theorem keeps_dispatch {request : Request} (hdistinct : (requests.map Request.hash).Nodup)
    (h : Started lib network lookup txs requests (request :: rest) w) (hrest : request ∉ rest)
    (hunmatched : ∀ tx ∈ txs, ¬Matches lib tx request) :
    Prog.Keeps (answers handle lookup) (fun _ => True)
      (dispatch (N := N) lib network request).run
      (Returns fun _ w' => Started lib network lookup txs requests rest w') w := by
  have hstart := toStart_of_unmatched network lookup hdistinct hunmatched
  obtain ⟨address, haddress⟩ := request.btcAddress.toAddress_ok lib network
  rw [lookUp, haddress] at hstart
  rw [dispatch, haddress]
  refine Prog.keeps_run_bind.mpr (Prog.keeps_run_ofExcept.mpr ⟨trivial, Prog.keeps_run_bind.mpr
    (Prog.keeps_run_lift.mpr (Prog.keeps_request.mpr ⟨trivial, fun r w' hr => ⟨trivial, ?_⟩⟩))⟩)
  obtain ⟨hanswer, rfl⟩ := Prod.mk.inj hr
  replace hanswer : lookup address request.amount request.hash = r := hanswer
  dsimp only [bind, Except.bind] at hstart
  rw [hanswer] at hstart
  cases r with
  | error e => exact ⟨trivial, h.skip hstart⟩
  | ok found =>
    cases found with
    | some txid =>
      exact (keeps_spawn h hrest rfl hstart).mono fun _ _ _ hr =>
        hr.imp (fun _ => And.left) fun _ => id
    | none =>
      exact (keeps_spawn h hrest rfl hstart).mono fun _ _ _ hr =>
        hr.imp (fun _ => And.left) fun _ => id

theorem keeps_dispatchAll (hdistinct : (requests.map Request.hash).Nodup)
    (h : Started lib network lookup txs requests rest w) (hrest : rest.Nodup)
    (hunmatched : ∀ request ∈ rest, ∀ tx ∈ txs, ¬Matches lib tx request) :
    Prog.Keeps (answers handle lookup) (fun _ => True)
      (dispatchAll (N := N) lib network rest).run
      (Returns fun _ w' => Started lib network lookup txs requests [] w') w := by
  induction rest generalizing w with
  | nil => exact ⟨trivial, h⟩
  | cons request rest ih =>
    obtain ⟨hfresh, hrest⟩ := List.nodup_cons.mp hrest
    refine Prog.keeps_run_seq (keeps_dispatch hdistinct h hfresh
      (hunmatched request List.mem_cons_self)) fun _ w' _ hw' => ih hw' hrest fun other hother =>
        hunmatched other (List.mem_cons_of_mem _ hother)

theorem keeps_executeOpenRequests {order : MapOrder} {btcRpc : BtcRpc E N} {accountId : AccountId}
    {paymentMargin : Nat} (hfull : btcRpc.isFullNode = true)
    (hids : DistinctIds w.redeems w.replaces) (hspawned : w.spawned = [])
    (hstream : ∀ stopHeight, btcStartHeight (openRequests E paymentMargin w) = some stopHeight →
      streamed handle btcRpc stopHeight w.node = .ok (txs.map .ok)) :
    Prog.Keeps (answers handle lookup) (fun _ => True)
      (executeOpenRequests lib order btcRpc accountId paymentMargin).run
      (Returns fun _ w' => Started lib btcRpc.network lookup txs (openRequests E paymentMargin w) []
        w') w := by
  have hdistinct : ((openRequests E paymentMargin w).map Request.hash).Nodup :=
    (nodup_pendingRequests hids).sublist (hashes_sublist fun _ _ => hash_of_mem_pendingRequests)
  have hstart : Started lib btcRpc.network lookup txs (openRequests E paymentMargin w)
      (openRequests E paymentMargin w) w := by
    refine ⟨List.Subset.refl _, ?_, ?_, fun _ hmem hrest => (hrest hmem).elim⟩
    · rw [hspawned]
      exact List.forall_mem_nil _
    · rw [hspawned]
      exact fun _ _ => rfl
  refine Prog.keeps_run_bind.mpr (Prog.keeps_run_adapt.mpr ⟨trivial, fun r w₁ hr => ⟨trivial, ?_⟩⟩)
  obtain ⟨rfl, rfl⟩ := Prod.mk.inj hr
  refine Prog.keeps_run_bind.mpr (Prog.keeps_run_adapt.mpr ⟨trivial, fun r w₁ hr => ⟨trivial, ?_⟩⟩)
  obtain ⟨rfl, rfl⟩ := Prod.mk.inj hr
  dsimp only [Prog.mapError_ok, Prog.Outcome]
  have hcollect : collect ((pendingRequests E paymentMargin w.redeems w.replaces).filterMap
      fun (_, request) => request.toOption) = openRequests E paymentMargin w :=
    collect_eq hdistinct
  rw [hcollect]
  split
  next hempty =>
    rw [btcStartHeight, List.min?_eq_none_iff, List.map_eq_nil_iff] at hempty
    rw [hempty] at hstart ⊢
    exact ⟨trivial, hstart⟩
  next height hheight =>
    rw [if_pos hfull]
    refine Prog.keeps_run_seq (keeps_processTransactions hdistinct (hstream height hheight) hstart)
      fun rest w' _ hw' => ?_
    obtain ⟨hstarted, hsublist, hunmatched⟩ := hw'
    have hperm := order.perm rest
    refine keeps_dispatchAll hdistinct (hstarted.perm fun _ => hperm.mem_iff) ?_
      fun request hrequest => hunmatched request (hperm.mem_iff.mp hrequest)
    exact hperm.nodup_iff.mpr (.of_map _ (nodup_hashes hdistinct hsublist))

end Program

/-! ### Every request once -/

section Requests

variable {txs : List Transaction} {requests : List Request} {w : World S} {vaults : List VaultId}

theorem toStart_eq_payAndExecute_iff (request : Request) :
    toStart lib network lookup txs requests request = some (.payAndExecute request) ↔
      (∀ tx ∈ txs, getRequestForBtcTx lib tx requests ≠ some request) ∧
        lookUp lib network lookup request = .ok none := by
  rw [toStart]
  cases hfind : txs.find? (fun tx => getRequestForBtcTx lib tx requests = some request) with
  | some tx =>
    refine iff_of_false (by simp) fun h => h.1 tx (List.mem_of_find?_eq_some hfind) ?_
    simpa using List.find?_some hfind
  | none =>
    have hunmatched : ∀ tx ∈ txs, getRequestForBtcTx lib tx requests ≠ some request := by
      simpa using hfind
    rw [and_iff_right hunmatched]
    cases lookUp lib network lookup request with
    | error e => simp
    | ok found => cases found <;> simp

theorem Started.startedOnce (h : Started lib network lookup txs requests [] w)
    (hvaults : ∀ request ∈ requests, request.vaultId ∈ vaults) :
    StartedOnce lib network lookup txs requests (w.started vaults) := by
  have hall : w.started vaults = w.spawned :=
    List.filter_eq_self.mpr fun task htask => decide_eq_true (hvaults _ (h.within task htask))
  rw [hall]
  refine ⟨h.within, fun request hmem => h.each request hmem List.not_mem_nil,
    fun request hmem => ?_⟩
  rw [← toStart_eq_payAndExecute_iff, ← Option.mem_toList,
    ← h.each request hmem List.not_mem_nil, List.mem_filter]
  exact (and_iff_left (decide_eq_true rfl)).symm

/-- On a full node each open request gets exactly what is to be started for it, whatever the stream
and the lookups are. -/
theorem startedOnce_of_fullNode (lib : Lib E) (handle : S → (call : N.Call) → N.Answer call × S)
    (lookup : Address → Nat → H256 → Except E (Option Txid)) (order : MapOrder)
    (btcRpc : BtcRpc E N) (accountId : AccountId) (paymentMargin : Nat) (vaults : List VaultId)
    (w : World S) (txs : List Transaction) (hfull : btcRpc.isFullNode = true)
    (hids : DistinctIds w.redeems w.replaces) (hspawned : w.spawned = [])
    (hvaults : ∀ request ∈ openRequests E paymentMargin w, request.vaultId ∈ vaults)
    (hstream : ∀ stopHeight, btcStartHeight (openRequests E paymentMargin w) = some stopHeight →
      streamed handle btcRpc stopHeight w.node = .ok (txs.map .ok)) :
    ∃ w', (executeOpenRequests lib order btcRpc accountId paymentMargin).run.exec
        (answer handle lookup) w = (.ok (), w') ∧
      StartedOnce lib btcRpc.network lookup txs (openRequests E paymentMargin w)
        (w'.started vaults) := by
  have hruns : Prog.Runs (answers handle lookup)
      (executeOpenRequests lib order btcRpc accountId paymentMargin).run w
      (.pure ((executeOpenRequests lib order btcRpc accountId paymentMargin).run.exec
        (answer handle lookup) w).1)
      ((executeOpenRequests lib order btcRpc accountId paymentMargin).run.exec
        (answer handle lookup) w).2 :=
    Prog.runs_exec (fun _ _ => rfl) _ w
  have hstarted := (keeps_executeOpenRequests hfull hids hspawned hstream).returns hruns
  generalize (executeOpenRequests lib order btcRpc accountId paymentMargin).run.exec
    (answer handle lookup) w = result at hstarted ⊢
  obtain ⟨result, w'⟩ := result
  cases result with
  | error e => exact hstarted.elim
  | ok _ => exact ⟨w', rfl, hstarted.startedOnce hvaults⟩

end Requests

/-! ### Two requests -/

/-- A full node whose stream has these transactions. -/
def replaying (txs : List Transaction) : BtcRpc String noNode where
  isFullNode := true
  network := .regtest
  reverseStreamTransactions _ := return .ofList (txs.map .ok) .done
  isTransportError _ := false

def noCalls : Unit → (call : noNode.Call) → noNode.Answer call × Unit :=
  fun _ call => nomatch (call : Empty)

/-- A transaction that names the request 7 and pays its address. -/
def redeemTx (amount : UInt64) : Transaction where
  version := 2
  lockTime := 0
  input := [⟨⟨0x1111111111111111111111111111111111111111111111111111111111111111, 0⟩, [],
    0xFFFFFFFD, []⟩]
  output :=
    [⟨amount, witnessScript (toBytes 20 0x751e76e8199196d454941c45d1b3a323f1433bd6)⟩,
      ⟨0, 0x6A :: 0x20 :: toBytes 32 7⟩]

def redeemTxid : Txid := 0xa4cc371bc7d5db98e44ac9768ca3ff167f33eb187e2c1e2023b3e030d31cdd7f

def lowTxid : Txid := 0xa8c0de4a63ee61cba0938c0b391fd2a725032686503015bfd6dc0d67b84fa13c

def redeemKeys : Lib String :=
  threeKeys [] [(redeemTxid, redeemTx 1000), (lowTxid, redeemTx 999)]

/-- The replace request with the id 8, which asks for 2000 satoshi on the address of the second
key. -/
def pendingReplace : InterBtcReplaceRequest where
  oldVault := default
  newVault := default
  amount := 2000
  acceptTime := 30
  period := 14400
  btcHeight := 110
  btcAddress := .P2WPKHv0 0x06afd46bcdfd22ef94ac122aa11f241244a37ecc
  status := .pending

def twoRequests : World Unit := ⟨[(7, pendingRedeem)], [(8, pendingReplace)], (), []⟩

def openReplace : Request where
  hash := 8
  btcHeight := some 110
  deadline := some ⟨13830, 386⟩
  amount := 2000
  btcAddress := .P2WPKHv0 0x06afd46bcdfd22ef94ac122aa11f241244a37ecc
  requestType := .replace
  vaultId := default
  feeBudget := none

/-- One transaction pays too little, the next one pays the redeem request and is seen twice; nothing
pays the replace request. -/
def redeemStream : List Transaction := [redeemTx 999, redeemTx 1000, redeemTx 1000]

/-- The redeem request gets a worker, the replace request is paid. -/
theorem startedOnce_of_fullNode_twoRequests :
    ∃ w', (executeOpenRequests redeemKeys .inOrder (replaying redeemStream) 0 7200000).run.exec
        (answer noCalls fun _ _ _ => .ok none) twoRequests = (.ok (), w') ∧
      StartedOnce redeemKeys .regtest (fun _ _ _ => .ok none) redeemStream [openRedeem, openReplace]
        (w'.started [default]) := by
  have hopen : openRequests String 7200000 twoRequests = [openRedeem, openReplace] := by
    decide +kernel
  have hrun := startedOnce_of_fullNode redeemKeys noCalls (fun _ _ _ => .ok none)
    .inOrder (replaying redeemStream) 0 7200000 [default] twoRequests redeemStream rfl
    (by decide : List.Nodup ([7, 8] : List H256)) rfl (by rw [hopen]; decide) fun _ _ => rfl
  rwa [hopen] at hrun

example : toStart redeemKeys .regtest (fun _ _ _ => .ok none) redeemStream [openRedeem, openReplace]
    openRedeem = some (.paymentWorker openRedeem redeemTxid) := by
  decide +kernel

end InterBtcClients.Vault.Dispatch
