import InterBtcClients.Bitcoin.History
import InterBtcClients.Bitcoin.ThreeKeys
import InterBtcClients.Bitcoin.TransactionExt
import InterBtcClients.Runtime.Addr
import InterBtcClients.Vault.Deadline
import Mathlib.Data.List.Nodup

/-! The execution of the open requests: at each start the vault looks for the bitcoin payments of
its pending redeem and replace requests, waits for those that it finds and makes the others. -/

namespace InterBtcClients.Vault.Execution

open Library Bitcoin InterBtcClients.Runtime

inductive RequestType
  | redeem
  | replace
  deriving DecidableEq, Repr

structure Request where
  hash : H256
  btcHeight : Option Nat
  deadline : Option Deadline
  amount : Nat
  btcAddress : BtcAddress
  requestType : RequestType
  vaultId : VaultId
  feeBudget : Option Nat
  deriving DecidableEq

variable {E : Type}

def Request.fromRedeemRequest (hash : H256) (request : InterBtcRedeemRequest)
    (paymentMargin : Nat) : Except (Error E) Request := do
  let deadline ←
    calculateDeadline request.opentime request.btcHeight request.period paymentMargin
  return {
    hash
    btcHeight := some request.btcHeight
    deadline := some deadline
    amount := request.amountBtc
    btcAddress := request.btcAddress
    requestType := .redeem
    vaultId := request.vault
    feeBudget := some request.transferFeeBtc }

def Request.fromReplaceRequest (hash : H256) (request : InterBtcReplaceRequest)
    (paymentMargin : Nat) : Except (Error E) Request := do
  let deadline ←
    calculateDeadline request.acceptTime request.btcHeight request.period paymentMargin
  return {
    hash
    btcHeight := some request.btcHeight
    deadline := some deadline
    amount := request.amount
    btcAddress := request.btcAddress
    requestType := .replace
    vaultId := request.oldVault
    feeBudget := none }

/-- The tasks that are spawned: one waits for a payment that has been made, the other makes it. -/
inductive Task
  | paymentWorker (request : Request) (txid : Txid)
  | payAndExecute (request : Request)
  deriving DecidableEq

def Task.request : Task → Request
  | .paymentWorker request _ | .payAndExecute request => request

/-- What the task pays. -/
def Task.pays : Task → Option Request
  | .payAndExecute request => some request
  | .paymentWorker _ _ => none

/-! ### The program -/

section Program

variable (N : Interface)

inductive Call
  | getVaultRedeemRequests (accountId : AccountId)
  | getOldVaultReplaceRequests (accountId : AccountId)
  | getTxForOpReturn (address : Address) (amount : Nat) (data : H256)
  /-- A call to a full node. -/
  | node (call : N.Call)
  | spawn (task : Task)

variable (E)

@[reducible] def api : Interface where
  Call := Call N
  Answer
    | .getVaultRedeemRequests _ => Except E (List (H256 × InterBtcRedeemRequest))
    | .getOldVaultReplaceRequests _ => Except E (List (H256 × InterBtcReplaceRequest))
    | .getTxForOpReturn _ _ _ => Except E (Option Txid)
    | .node call => N.Answer call
    | .spawn _ => Unit

abbrev Rpc := ExceptT (Error E) (Prog (api E N))

/-- What a bitcoin client is asked for: a full node streams its transactions, from the mempool back
to a height. -/
structure BtcRpc where
  isFullNode : Bool
  network : Network
  reverseStreamTransactions : Nat → ExceptT E (Prog N) (AsyncStream N (Except E Transaction))
  isTransportError : E → Bool

variable {E N}

/-- The light client. -/
def BtcRpc.light (network : Network) : BtcRpc E N where
  isFullNode := false
  network := network
  reverseStreamTransactions _ := return .done
  isTransportError _ := false

abbrev ask (call : Call N) : Prog (api E N) ((api E N).Answer call) :=
  Prog.request (api E N) call

def spawn (task : Task) : Rpc E N Unit := ExceptT.lift (ask (.spawn task))

/-- The pending redeem requests, with the results of converting them. -/
def openRedeems (paymentMargin : Nat) (redeemRequests : List (H256 × InterBtcRedeemRequest)) :
    List (H256 × Except (Error E) Request) :=
  (redeemRequests.filter fun (_, request) => request.status = .pending).map fun (hash, request) =>
    (hash, Request.fromRedeemRequest hash request paymentMargin)

def openReplaces (paymentMargin : Nat) (replaceRequests : List (H256 × InterBtcReplaceRequest)) :
    List (H256 × Except (Error E) Request) :=
  (replaceRequests.filter fun (_, request) => request.status = .pending).map fun (hash, request) =>
    (hash, Request.fromReplaceRequest hash request paymentMargin)

variable (E) in
def pendingRequests (paymentMargin : Nat) (redeemRequests : List (H256 × InterBtcRedeemRequest))
    (replaceRequests : List (H256 × InterBtcReplaceRequest)) :
    List (H256 × Except (Error E) Request) :=
  openRedeems paymentMargin redeemRequests ++ openReplaces paymentMargin replaceRequests

/-- The hash map of the requests by their hashes. -/
def collect (requests : List Request) : List Request :=
  requests.foldl (fun map request =>
    (map.filter fun other => other.hash ≠ request.hash) ++ [request]) []

/-- An order in which a hash map may be iterated. -/
structure MapOrder where
  arrange : List Request → List Request
  perm : ∀ requests, (arrange requests).Perm requests

def MapOrder.inOrder : MapOrder := ⟨id, fun requests => .refl requests⟩

def btcStartHeight (openRequests : List Request) : Option Nat :=
  (openRequests.map fun request => request.btcHeight.getD (2 ^ 32 - 1)).min?

variable (lib : Lib E)

/-- The request that the transaction pays. -/
def getRequestForBtcTx (tx : Transaction) (openRequests : List Request) : Option Request := do
  let hash ← getOpReturn tx
  let request ← openRequests.find? fun request => request.hash = hash
  let payload ← (request.btcAddress.toPayload lib).toOption
  let paidAmount ← getPaymentAmountTo lib tx payload
  if paidAmount.toNat ≥ request.amount then some request else none

/-- One round of the loop over the full node's transactions. -/
def processTransaction (isTransportError : E → Bool) :
    Except E Transaction → List Request → Rpc E N (List Request ⊕ Empty)
  | .error e, openRequests =>
    if isTransportError e then throw (.rpc e) else return .inl openRequests
  | .ok tx, openRequests =>
    match getRequestForBtcTx lib tx openRequests with
    | some request => do
      spawn (.paymentWorker request (lib.txid tx))
      return .inl (openRequests.filter fun other => other.hash ≠ request.hash)
    | none => return .inl openRequests

def processTransactions (btcRpc : BtcRpc E N) (openRequests : List Request) (stopHeight : Nat) :
    Rpc E N (List Request) := do
  let transactionStream ← ExceptT.adapt .rpc
    (ExceptT.mk ((btcRpc.reverseStreamTransactions stopHeight).run.embed Call.node fun _ r => r))
  match ← (transactionStream.embed Call.node fun _ r => r).forUntil
    (processTransaction lib btcRpc.isTransportError) openRequests with
  | .inl openRequests => return openRequests
  | .inr never => nomatch never

/-- One round of the loop over the requests that no transaction of the stream pays. -/
def dispatch (network : Network) (request : Request) : Rpc E N Unit := do
  let address ← Prog.ofExcept ((request.btcAddress.toAddress lib network).mapError .rpc)
  match ← ExceptT.lift (ask (.getTxForOpReturn address request.amount request.hash)) with
  | .ok (some txid) => spawn (.paymentWorker request txid)
  | .ok none => spawn (.payAndExecute request)
  | .error _ => return ()

def dispatchAll (network : Network) : List Request → Rpc E N Unit
  | [] => return ()
  | request :: requests => do
    dispatch lib network request
    dispatchAll network requests

def executeOpenRequests (order : MapOrder) (btcRpc : BtcRpc E N) (accountId : AccountId)
    (paymentMargin : Nat) : Rpc E N Unit := do
  let redeemRequests ← (ExceptT.mk (ask (.getVaultRedeemRequests accountId))).adapt .rpc
  let replaceRequests ← (ExceptT.mk (ask (.getOldVaultReplaceRequests accountId))).adapt .rpc
  let pending := pendingRequests E paymentMargin redeemRequests replaceRequests
  let openRequests := collect (pending.filterMap fun (_, request) => request.toOption)
  match btcStartHeight openRequests with
  | none => return ()
  | some height => do
    let openRequests ←
      if btcRpc.isFullNode then processTransactions lib btcRpc openRequests height
      else pure openRequests
    dispatchAll lib btcRpc.network (order.arrange openRequests)

end Program

/-! ### The chains -/

section World

variable {N : Interface}

/-- The requests on the parachain, the bitcoin server, and a history: the tasks that have been
spawned, and the lookups that have been made, each with the history that the script had when its
first page was read. -/
structure World where
  redeems : List (H256 × InterBtcRedeemRequest)
  replaces : List (H256 × InterBtcReplaceRequest)
  server : Electrs.Server
  spawned : List Task
  lookups : List (H256 × List Electrs.TransactionValue)

variable (lib : Lib E)

/-- A lookup is a run of the light client's program for it, during which new blocks may be found. -/
def env : Prog.Env (api E N) World
  | w, .getVaultRedeemRequests _, r, w' => (∀ requests, r = .ok requests → requests = w.redeems) ∧
    w' = w
  | w, .getOldVaultReplaceRequests _, r, w' =>
    (∀ requests, r = .ok requests → requests = w.replaces) ∧ w' = w
  | w, .getTxForOpReturn address amount data, r, w' => ∃ fuel server found,
    Prog.Runs (Electrs.historyEnv lib) (Electrs.getTxForOpReturn lib fuel address amount data).run
      w.server (.pure (.ok (some found))) server ∧
    r = .ok found ∧
    w' = { w with server, lookups := w.lookups ++ [(data, server.asked)] }
  | w, .node _, _, w' => w' = w
  | w, .spawn task, _, w' => w' = { w with spawned := w.spawned ++ [task] }

/-- The transaction is one of a block of the server, has the request's OP_RETURN output and pays the
request. -/
def IsPayment (network : Network) (server : Electrs.Server) (request : Request) (txid : Txid) :
    Prop :=
  ∃ address tx, request.btcAddress.toAddress lib network = .ok address ∧
    tx ∈ server.opReturnHistory lib request.hash ∧ tx.txid = txid ∧
    Electrs.Pays lib address request.amount tx

/-- A worker waits for a payment of the request, and no task makes one. -/
def Recognised (network : Network) (w : World) (id : H256) : Prop :=
  (∃ request txid, .paymentWorker request txid ∈ w.spawned ∧ request.hash = id ∧
    IsPayment lib network w.server request txid) ∧
    ∀ request, .payAndExecute request ∈ w.spawned → request.hash ≠ id

/-- A transaction that pays the request was in a block when its history was read. -/
def PaidInBlock (network : Network) (w : World) (request : Request) : Prop :=
  ∃ address history, request.btcAddress.toAddress lib network = .ok address ∧
    (request.hash, history) ∈ w.lookups ∧
    ∃ tx ∈ history, Electrs.Pays lib address request.amount tx

/-- What a round has found out about a request, and the task that it has spawned. -/
structure Lookup where
  request : Request
  history : List Electrs.TransactionValue
  task : Task

def Lookup.Correct (network : Network) (start : Electrs.Server) (l : Lookup) : Prop :=
  start.opReturnHistory lib l.request.hash ⊆ l.history ∧
  ∃ address, l.request.btcAddress.toAddress lib network = .ok address ∧
    l.task = match Electrs.findPayment (lib.addressString address) l.request.amount l.history with
      | some txid => .paymentWorker l.request txid
      | none => .payAndExecute l.request

/-- The loop, started on the server `start`, has made the lookups `found`, and `rest` is left. -/
structure Dispatched (network : Network) (start : Electrs.Server) (requests rest : List Request)
    (found : List Lookup) (w : World) : Prop where
  server : w.server.Extends start
  requests : requests = found.map Lookup.request ++ rest
  correct : ∀ l ∈ found, l.Correct lib network start
  confirmed : ∀ l ∈ found, l.history ⊆ w.server.opReturnHistory lib l.request.hash
  spawned : w.spawned = found.map Lookup.task
  lookups : w.lookups = found.map fun l => (l.request.hash, l.history)

end World

/-! ### The loop -/

section Loop

variable {N : Interface} {lib : Lib E} {network : Network} {w : World} {found : List Lookup}
variable {start : Electrs.Server}

theorem dispatched_start (hspawned : w.spawned = []) (hlookups : w.lookups = [])
    (requests : List Request) : Dispatched lib network w.server requests requests [] w where
  server := w.server.extends_self
  requests := rfl
  correct := List.forall_mem_nil _
  confirmed := List.forall_mem_nil _
  spawned := hspawned
  lookups := hlookups

theorem Dispatched.next {requests rest : List Request} {request : Request} {w' : World}
    {history : List Electrs.TransactionValue} {task : Task}
    (h : Dispatched lib network start requests (request :: rest) found w)
    (hserver : w'.server.Extends w.server)
    (hl : Lookup.Correct lib network start ⟨request, history, task⟩)
    (hconfirmed : history ⊆ w'.server.opReturnHistory lib request.hash)
    (hspawned : w'.spawned = w.spawned ++ [task])
    (hlookups : w'.lookups = w.lookups ++ [(request.hash, history)]) :
    Dispatched lib network start requests rest (found ++ [⟨request, history, task⟩]) w' where
  server := hserver.trans h.server
  requests := by rw [h.requests, List.map_append, List.append_assoc]; rfl
  correct l hmem := by
    rcases List.mem_append.mp hmem with hmem | hmem
    · exact h.correct l hmem
    · rw [List.mem_singleton.mp hmem]
      exact hl
  confirmed l hmem := by
    rcases List.mem_append.mp hmem with hmem | hmem
    · exact List.Subset.trans (h.confirmed l hmem) hserver.subset
    · rw [List.mem_singleton.mp hmem]
      exact hconfirmed
  spawned := by rw [hspawned, h.spawned, List.map_append]; rfl
  lookups := by rw [hlookups, h.lookups, List.map_append]; rfl

theorem keeps_dispatch {requests rest : List Request} {request : Request}
    (h : Dispatched lib network start requests (request :: rest) found w) :
    Prog.Keeps (env (N := N) lib) (fun _ => True) (dispatch lib network request).run
      (Prog.Outcome (fun _ w' => ∃ l, Dispatched lib network start requests rest (found ++ [l]) w')
        fun _ _ => True) w := by
  obtain ⟨address, haddress⟩ := request.btcAddress.toAddress_ok lib network
  rw [dispatch, haddress]
  refine Prog.keeps_run_bind.mpr (Prog.keeps_run_ofExcept.mpr ⟨trivial, Prog.keeps_run_bind.mpr
    (Prog.keeps_run_lift.mpr (Prog.keeps_request.mpr ⟨trivial, fun r w' hr => ⟨trivial, ?_⟩⟩))⟩)
  obtain ⟨fuel, server, payment, hruns, rfl, rfl⟩ := hr
  obtain ⟨hextends, hpayment, hknown⟩ :=
    (Electrs.keeps_getTxForOpReturn fuel address request.amount request.hash).runs hruns
  have hstart := List.Subset.trans h.server.subset hknown.known
  cases hfound : payment with
  | some txid =>
    refine ⟨trivial, fun _ w' hw' => ⟨trivial,
      ⟨request, server.asked, .paymentWorker request txid⟩, ?_⟩⟩
    cases hw'
    refine h.next hextends ⟨hstart, address, haddress, ?_⟩ hknown.confirmed rfl rfl
    rw [← hpayment, hfound]
  | none =>
    refine ⟨trivial, fun _ w' hw' => ⟨trivial,
      ⟨request, server.asked, .payAndExecute request⟩, ?_⟩⟩
    cases hw'
    refine h.next hextends ⟨hstart, address, haddress, ?_⟩ hknown.confirmed rfl rfl
    rw [← hpayment, hfound]

theorem keeps_dispatchAll {requests rest : List Request}
    (h : Dispatched lib network start requests rest found w) :
    Prog.Keeps (env (N := N) lib) (fun _ => True) (dispatchAll lib network rest).run
      (Prog.Outcome (fun _ w' => ∃ found, Dispatched lib network start requests [] found w')
        fun _ _ => True) w := by
  induction rest generalizing found w with
  | nil => exact ⟨trivial, found, h⟩
  | cons request rest ih =>
    refine Prog.keeps_run_seq (keeps_dispatch h) fun _ w' _ hw' => ?_
    obtain ⟨l, hl⟩ := hw'
    exact ih hl

/-- On the light client's path every open request has been looked up when the run completes. -/
theorem keeps_executeOpenRequests (order : MapOrder) (accountId : AccountId) (paymentMargin : Nat)
    (hspawned : w.spawned = []) (hlookups : w.lookups = []) :
    Prog.Keeps (env lib) (fun _ => True)
      (executeOpenRequests (N := N) lib order (.light network) accountId paymentMargin).run
      (Prog.Outcome (fun _ w' => ∃ requests found,
        requests.Perm (collect ((pendingRequests E paymentMargin w.redeems w.replaces).filterMap
          fun (_, request) => request.toOption)) ∧
        Dispatched lib network w.server requests [] found w') fun _ _ => True) w := by
  refine Prog.keeps_run_bind.mpr (Prog.keeps_run_adapt.mpr ⟨trivial, fun r w₁ hr => ⟨trivial, ?_⟩⟩)
  obtain ⟨hredeems, rfl⟩ := hr
  cases r with
  | error e => trivial
  | ok redeems =>
  rw [hredeems redeems rfl]
  refine Prog.keeps_run_bind.mpr (Prog.keeps_run_adapt.mpr ⟨trivial, fun r w₂ hr => ⟨trivial, ?_⟩⟩)
  obtain ⟨hreplaces, rfl⟩ := hr
  cases r with
  | error e => trivial
  | ok replaces =>
  rw [hreplaces replaces rfl]
  dsimp only [Prog.mapError_ok, Prog.Outcome]
  generalize collect ((pendingRequests E paymentMargin w₂.redeems w₂.replaces).filterMap
    fun (_, request) => request.toOption) = openRequests
  split
  next hempty =>
    rw [btcStartHeight, List.min?_eq_none_iff, List.map_eq_nil_iff] at hempty
    refine ⟨trivial, [], [], ?_, dispatched_start hspawned hlookups []⟩
    rw [hempty]
  next height hheight =>
    rw [if_neg (by simp [BtcRpc.light])]
    refine Prog.keeps_run_bind.mpr ⟨trivial, ?_⟩
    have hall : Prog.Keeps (env (N := N) lib) (fun _ => True)
        (dispatchAll lib network (order.arrange openRequests)).run _ w₂ :=
      keeps_dispatchAll (dispatched_start hspawned hlookups (order.arrange openRequests))
    refine hall.mono fun r w' _ hr => ?_
    cases r with
    | error e => trivial
    | ok _ =>
      obtain ⟨found, hfound⟩ := hr
      exact ⟨order.arrange openRequests, found, order.perm openRequests, hfound⟩

end Loop

/-! ### The open requests -/

section OpenRequests

variable {paymentMargin : Nat} {redeems : List (H256 × InterBtcRedeemRequest)}
variable {replaces : List (H256 × InterBtcReplaceRequest)}

/-- Every request on the parachain has its own id. -/
def DistinctIds (redeems : List (H256 × InterBtcRedeemRequest))
    (replaces : List (H256 × InterBtcReplaceRequest)) : Prop :=
  (redeems.map Prod.fst ++ replaces.map Prod.fst).Nodup

theorem hash_of_fromRedeemRequest {hash : H256} {redeem : InterBtcRedeemRequest}
    {request : Request}
    (h : Request.fromRedeemRequest (E := E) hash redeem paymentMargin = .ok request) :
    request.hash = hash := by
  simp only [Request.fromRedeemRequest, bind, Except.bind] at h
  split at h
  · cases h
  · cases h
    rfl

theorem hash_of_fromReplaceRequest {hash : H256} {replace : InterBtcReplaceRequest}
    {request : Request}
    (h : Request.fromReplaceRequest (E := E) hash replace paymentMargin = .ok request) :
    request.hash = hash := by
  simp only [Request.fromReplaceRequest, bind, Except.bind] at h
  split at h
  · cases h
  · cases h
    rfl

theorem hash_of_mem_pendingRequests {id : H256} {request : Request}
    (h : (id, .ok request) ∈ pendingRequests E paymentMargin redeems replaces) :
    request.hash = id := by
  rcases List.mem_append.mp h with h | h
  · obtain ⟨⟨hash, redeem⟩, -, heq⟩ := List.mem_map.mp h
    obtain ⟨rfl, hrequest⟩ := Prod.mk.inj heq
    exact hash_of_fromRedeemRequest hrequest
  · obtain ⟨⟨hash, replace⟩, -, heq⟩ := List.mem_map.mp h
    obtain ⟨rfl, hrequest⟩ := Prod.mk.inj heq
    exact hash_of_fromReplaceRequest hrequest

theorem nodup_pendingRequests (h : DistinctIds redeems replaces) :
    ((pendingRequests E paymentMargin redeems replaces).map Prod.fst).Nodup := by
  refine h.sublist ?_
  rw [pendingRequests, List.map_append, openRedeems, openReplaces, List.map_map, List.map_map]
  exact (List.filter_sublist.map _).append (List.filter_sublist.map _)

/-- The elements that are kept have their keys in the order of the list. -/
theorem keys_filterMap_sublist {A B K : Type} {f : A → Option B} {key : A → K} {key' : B → K}
    {as : List A} (h : ∀ a ∈ as, ∀ b, f a = some b → key' b = key a) :
    ((as.filterMap f).map key').Sublist (as.map key) := by
  induction as with
  | nil => exact .slnil
  | cons a as ih =>
    have hrest := ih fun a hmem => h a (List.mem_cons_of_mem _ hmem)
    cases hf : f a with
    | none =>
      rw [List.filterMap_cons_none hf]
      exact hrest.cons _
    | some b =>
      rw [List.filterMap_cons_some hf, List.map_cons, List.map_cons, h a List.mem_cons_self b hf]
      exact hrest.cons_cons _

theorem hashes_sublist {pending : List (H256 × Except (Error E) Request)}
    (h : ∀ id request, (id, .ok request) ∈ pending → request.hash = id) :
    ((pending.filterMap fun (_, request) => request.toOption).map Request.hash).Sublist
      (pending.map Prod.fst) := by
  refine keys_filterMap_sublist fun (id, result) hmem request hrequest => ?_
  obtain rfl := Prog.ok_of_toOption hrequest
  exact h id request hmem

theorem foldl_collect {requests map : List Request}
    (h : ((map ++ requests).map Request.hash).Nodup) :
    requests.foldl (fun map request =>
      (map.filter fun other => other.hash ≠ request.hash) ++ [request]) map = map ++ requests := by
  induction requests generalizing map with
  | nil => rw [List.foldl_nil, List.append_nil]
  | cons request requests ih =>
    have hfresh : map.filter (fun other => other.hash ≠ request.hash) = map := by
      refine List.filter_eq_self.mpr fun other hother => ?_
      rw [List.map_append, List.nodup_append] at h
      simpa using h.2.2 _ (List.mem_map_of_mem hother) _ (by simp)
    rw [List.foldl_cons, hfresh, ih (by rwa [List.append_assoc]), List.append_assoc]
    rfl

theorem collect_eq {requests : List Request} (h : (requests.map Request.hash).Nodup) :
    collect requests = requests :=
  foldl_collect h

theorem nodup_foldl_collect {requests map : List Request} (h : (map.map Request.hash).Nodup) :
    ((requests.foldl (fun map request =>
      (map.filter fun other => other.hash ≠ request.hash) ++ [request]) map).map
        Request.hash).Nodup := by
  induction requests generalizing map with
  | nil => exact h
  | cons request requests ih =>
    refine ih ?_
    rw [List.map_append, List.nodup_append]
    refine ⟨h.sublist (List.filter_sublist.map _), List.nodup_singleton _, ?_⟩
    intro hash hhash other hother
    obtain ⟨kept, hkept, rfl⟩ := List.mem_map.mp hhash
    rw [List.mem_singleton.mp hother]
    exact of_decide_eq_true (List.mem_filter.mp hkept).2

theorem mem_foldl_collect {requests map : List Request} {id : H256} :
    id ∈ (requests.foldl (fun map request =>
      (map.filter fun other => other.hash ≠ request.hash) ++ [request]) map).map Request.hash ↔
      id ∈ map.map Request.hash ∨ id ∈ requests.map Request.hash := by
  induction requests generalizing map with
  | nil => simp
  | cons request requests ih =>
    have hstep : id ∈ ((map.filter fun other => other.hash ≠ request.hash) ++ [request]).map
        Request.hash ↔ id ∈ map.map Request.hash ∨ id = request.hash := by
      by_cases hid : id = request.hash
      · simp [hid]
      · rw [List.map_append, List.mem_append, List.map_singleton, List.mem_singleton,
          or_iff_left hid, or_iff_left hid]
        refine ⟨fun h => (List.filter_sublist.map _).subset h, fun h => ?_⟩
        obtain ⟨other, hother, rfl⟩ := List.mem_map.mp h
        exact List.mem_map_of_mem (List.mem_filter.mpr ⟨hother, decide_eq_true hid⟩)
    rw [List.foldl_cons, ih, hstep, List.map_cons, List.mem_cons, or_assoc]

theorem mem_collect {requests : List Request} {id : H256} :
    id ∈ (collect requests).map Request.hash ↔ id ∈ requests.map Request.hash :=
  mem_foldl_collect.trans (or_iff_right List.not_mem_nil)

theorem mem_of_mem_foldl_collect {requests map : List Request} {request : Request}
    (h : request ∈ requests.foldl (fun map request =>
      (map.filter fun other => other.hash ≠ request.hash) ++ [request]) map) :
    request ∈ map ∨ request ∈ requests := by
  induction requests generalizing map with
  | nil => exact .inl h
  | cons first requests ih =>
    rcases ih h with hmem | hmem
    · rcases List.mem_append.mp hmem with hmem | hmem
      · exact .inl (List.mem_filter.mp hmem).1
      · rw [List.mem_singleton.mp hmem]
        exact .inr List.mem_cons_self
    · exact .inr (List.mem_cons_of_mem _ hmem)

theorem mem_of_mem_collect {requests : List Request} {request : Request}
    (h : request ∈ collect requests) : request ∈ requests :=
  (mem_of_mem_foldl_collect h).resolve_left List.not_mem_nil

/-- The keys of a hash map are distinct. -/
theorem nodup_collect (requests : List Request) : ((collect requests).map Request.hash).Nodup :=
  nodup_foldl_collect List.nodup_nil

/-- The ids of the open requests are those of the pending requests that can be converted. -/
theorem mem_hashes_iff {id : H256} :
    id ∈ ((pendingRequests E paymentMargin redeems replaces).filterMap
      fun (_, request) => request.toOption).map Request.hash ↔
      ∃ request, (id, .ok request) ∈ pendingRequests E paymentMargin redeems replaces := by
  constructor
  · intro h
    obtain ⟨request, hrequest, rfl⟩ := List.mem_map.mp h
    obtain ⟨⟨id, result⟩, hpending, hsome⟩ := List.mem_filterMap.mp hrequest
    obtain rfl := Prog.ok_of_toOption hsome
    exact ⟨_, hash_of_mem_pendingRequests hpending ▸ hpending⟩
  · rintro ⟨request, hpending⟩
    rw [← hash_of_mem_pendingRequests hpending]
    exact List.mem_map_of_mem (List.mem_filterMap.mpr ⟨(id, .ok request), hpending, rfl⟩)

end OpenRequests

/-! ### A start -/

section Start

variable {N : Interface} (lib : Lib E) (node : (call : N.Call) → N.Answer call)

/-- The answers while no bitcoin block is found. -/
def serve (w : World) : (call : Call N) → (api E N).Answer call × World
  | .getVaultRedeemRequests _ => (.ok w.redeems, w)
  | .getOldVaultReplaceRequests _ => (.ok w.replaces, w)
  | .getTxForOpReturn address amount data =>
    match (Electrs.getTxForOpReturn lib (w.server.asked.length + w.server.confirmed.length + 1)
      address amount data).run.exec (Electrs.Server.answer lib) w.server with
    | (.ok (some found), server) =>
      (.ok found, { w with server, lookups := w.lookups ++ [(data, server.asked)] })
    | _ => (.ok none, w)
  | .node call => (node call, w)
  | .spawn task => ((), { w with spawned := w.spawned ++ [task] })

/-- Every call is answered, so every start completes. -/
theorem env_serve (w : World) (call : Call N) :
    env lib w call (serve lib node w call).1 (serve lib node w call).2 := by
  cases call with
  | getVaultRedeemRequests accountId => exact ⟨fun _ h => by cases h; rfl, rfl⟩
  | getOldVaultReplaceRequests accountId => exact ⟨fun _ h => by cases h; rfl, rfl⟩
  | node call => rfl
  | spawn task => rfl
  | getTxForOpReturn address amount data =>
    obtain ⟨found, hfound⟩ := Electrs.exec_getTxForOpReturn lib w.server address amount data
    have hruns := Prog.runs_exec (Electrs.historyEnv_answer lib)
      (Electrs.getTxForOpReturn lib (w.server.asked.length + w.server.confirmed.length + 1) address
        amount data).run w.server
    dsimp only [serve]
    split
    next found' server hexec =>
      rw [hexec] at hruns
      exact ⟨_, server, found', hruns, rfl, rfl⟩
    next hnone => exact (hnone found _ (Prod.ext hfound rfl)).elim

/-- No calls to a full node. -/
@[reducible] def noNode : Interface := ⟨Empty, Empty.elim⟩

/-- The library of the three keys, with the hashes of the scripts of the payment below. -/
def hashingKeys : Lib String :=
  { threeKeys [] [] with
    sha256 := fun bytes =>
      if bytes = 0x6A :: 0x20 :: toBytes 32 7 then
        toBytes 32 0xf12122651c88a38a46e4803ab76c3951791304b3a229c049c236805a8ec9724e
      else toBytes 32 0x8838f796bf4970b148779c05b74b8c49515b322d04035f7faa5d9b2375df2396 }

/-- The redeem request with the id 7, for 1000 satoshi on the address of the first key. -/
def pendingRedeem : InterBtcRedeemRequest where
  vault := default
  opentime := 20
  period := 14400
  amountBtc := 1000
  transferFeeBtc := 300
  btcHeight := 100
  btcAddress := .P2WPKHv0 0x751e76e8199196d454941c45d1b3a323f1433bd6
  status := .pending

/-- Its payment, as the vault has made it: the recipient's output and the OP_RETURN output. -/
def payment : Electrs.TransactionValue :=
  ⟨0x9, [⟨witnessScript (toBytes 20 0x751e76e8199196d454941c45d1b3a323f1433bd6),
      some "bcrt1qw508d6qejxtdg4y5r3zarvary0c5xw7kygt080", 1000⟩,
    ⟨0x6A :: 0x20 :: toBytes 32 7, none, 0⟩]⟩

/-- The vault has been started again after the payment was broadcast. -/
def restarted (mempool confirmed : List Electrs.TransactionValue)
    (distinct : (confirmed.map Electrs.TransactionValue.txid).Nodup) : World :=
  ⟨[(7, pendingRedeem)], [], ⟨mempool, confirmed, [], distinct⟩, [], []⟩

/-- The request that is executed for it. -/
def openRedeem : Request where
  hash := 7
  btcHeight := some 100
  deadline := some ⟨13820, 376⟩
  amount := 1000
  btcAddress := .P2WPKHv0 0x751e76e8199196d454941c45d1b3a323f1433bd6
  requestType := .redeem
  vaultId := default
  feeBudget := some 300

abbrev startRun (w : World) : Except (Error String) Unit × World :=
  (executeOpenRequests (N := noNode) hashingKeys .inOrder (.light .regtest) 0 7200000).run.exec
    (serve (N := noNode) hashingKeys nofun) w

abbrev afterStart (mempool confirmed : List Electrs.TransactionValue)
    (distinct : (confirmed.map Electrs.TransactionValue.txid).Nodup) : World :=
  (startRun (restarted mempool confirmed distinct)).2

theorem runs_startRun {w : World} (h : (startRun w).1 = .ok ()) :
    Prog.Runs (env hashingKeys)
      (executeOpenRequests (N := noNode) hashingKeys .inOrder (.light .regtest) 0 7200000).run w
      (.pure (.ok ())) (startRun w).2 := by
  have hruns := Prog.runs_exec (env_serve (N := noNode) hashingKeys nofun)
    (executeOpenRequests hashingKeys .inOrder (.light .regtest) 0 7200000).run w
  rwa [show _ = _ from h] at hruns

end Start

/-! ### The payments -/

section Payments

variable {N : Interface} {lib : Lib E} {network : Network} {w : World} {requests : List Request}
variable {found : List Lookup} {start : Electrs.Server}

theorem Lookup.Correct.task_request {l : Lookup} (h : l.Correct lib network start) :
    l.task.request = l.request := by
  obtain ⟨-, address, -, htask⟩ := h
  rw [htask]
  split
  · rfl
  · rfl

theorem Dispatched.of_mem_spawned {task : Task}
    (h : Dispatched lib network start requests [] found w) (htask : task ∈ w.spawned) :
    ∃ l ∈ found, l.task = task ∧ l.request = task.request := by
  rw [h.spawned] at htask
  obtain ⟨l, hl, rfl⟩ := List.mem_map.mp htask
  exact ⟨l, hl, rfl, (h.correct l hl).task_request.symm⟩

theorem Dispatched.eq_of_hash {l l' : Lookup} (h : Dispatched lib network start requests [] found w)
    (hdistinct : (requests.map Request.hash).Nodup) (hl : l ∈ found) (hl' : l' ∈ found)
    (hhash : l'.request.hash = l.request.hash) : l' = l := by
  rw [h.requests, List.append_nil, List.map_map] at hdistinct
  exact List.inj_on_of_nodup_map hdistinct hl' hl hhash

/-- The tasks of a request that has been looked up. -/
theorem Dispatched.recognised_iff_paid {l : Lookup}
    (h : Dispatched lib network start requests [] found w)
    (hdistinct : (requests.map Request.hash).Nodup) (hl : l ∈ found) :
    Recognised lib network w l.request.hash ↔ PaidInBlock lib network w l.request := by
  obtain ⟨-, address, haddress, htask⟩ := h.correct l hl
  have hspawned : l.task ∈ w.spawned := by
    rw [h.spawned]
    exact List.mem_map_of_mem hl
  cases hfound : Electrs.findPayment (lib.addressString address) l.request.amount l.history with
  | some txid =>
    rw [hfound] at htask
    dsimp only at htask
    obtain ⟨tx, htx, htxid, hpays⟩ := Electrs.findPayment_eq_some hfound
    have hlookup : (l.request.hash, l.history) ∈ w.lookups := by
      rw [h.lookups]
      exact List.mem_map_of_mem (f := fun l => (l.request.hash, l.history)) hl
    rw [iff_true_right ⟨address, l.history, haddress, hlookup, tx, htx, hpays⟩]
    have hpayment : IsPayment lib network w.server l.request txid :=
      ⟨address, tx, haddress, h.confirmed l hl htx, htxid, hpays⟩
    refine ⟨⟨l.request, txid, htask ▸ hspawned, rfl, hpayment⟩, fun request hpay hhash => ?_⟩
    obtain ⟨l', hl', htask', hrequest⟩ := h.of_mem_spawned hpay
    rw [h.eq_of_hash hdistinct hl hl' (by rw [hrequest]; exact hhash), htask] at htask'
    cases htask'
  | none =>
    rw [hfound] at htask
    dsimp only at htask
    rw [iff_false_left fun hrecognised => hrecognised.2 l.request (htask ▸ hspawned) rfl]
    rintro ⟨address', history, haddress', hlookup, tx, htx, hpays⟩
    rw [h.lookups] at hlookup
    obtain ⟨l', hl', heq⟩ := List.mem_map.mp hlookup
    obtain ⟨hhash, rfl⟩ := Prod.mk.inj heq
    rw [h.eq_of_hash hdistinct hl hl' hhash] at htx
    cases haddress.symm.trans haddress'
    exact Electrs.findPayment_eq_none_iff.mp hfound tx htx hpays

/-- A request that has not been looked up has no task. -/
theorem Dispatched.not_recognised {id : H256}
    (h : Dispatched lib network start requests [] found w)
    (hid : id ∉ requests.map Request.hash) : ¬Recognised lib network w id := by
  rintro ⟨⟨request, txid, hworker, rfl, -⟩, -⟩
  obtain ⟨l, hl, -, hrequest⟩ := h.of_mem_spawned hworker
  refine hid ?_
  rw [h.requests, List.append_nil, List.map_map]
  exact List.mem_map.mpr ⟨l, hl, congrArg Request.hash hrequest⟩

/-- A completed run on the light client's path has looked up each pending request whose deadlines
could be worked out, and no other. -/
theorem dispatched_of_runs {order : MapOrder} {accountId : AccountId} {paymentMargin : Nat}
    {w w' : World} (hspawned : w.spawned = []) (hlookups : w.lookups = [])
    (hids : DistinctIds w.redeems w.replaces)
    (hruns : Prog.Runs (env (N := N) lib)
      (executeOpenRequests lib order (.light network) accountId paymentMargin).run w
      (.pure (.ok ())) w') :
    ∃ requests found, Dispatched lib network w.server requests [] found w' ∧
      (requests.map Request.hash).Nodup ∧
      ∀ id request, (id, request) ∈ pendingRequests E paymentMargin w.redeems w.replaces →
        (∀ r, request = .ok r → r.hash = id ∧ r ∈ requests) ∧
        ∀ e, request = .error e → id ∉ requests.map Request.hash := by
  obtain ⟨requests, found, hperm, hdispatched⟩ :=
    (keeps_executeOpenRequests order accountId paymentMargin hspawned hlookups).returns hruns
  generalize hp : pendingRequests E paymentMargin w.redeems w.replaces = pending at hperm ⊢
  have hhash (id : H256) (r : Request) (hmem : (id, .ok r) ∈ pending) : r.hash = id := by
    rw [← hp] at hmem
    exact hash_of_mem_pendingRequests hmem
  have hnodup : (pending.map Prod.fst).Nodup := hp ▸ nodup_pendingRequests hids
  have hsublist := hashes_sublist hhash
  rw [collect_eq (hnodup.sublist hsublist)] at hperm
  refine ⟨requests, found, hdispatched, ?_, fun id request hpending => ⟨?_, ?_⟩⟩
  · exact (hperm.map Request.hash).nodup_iff.mpr (hnodup.sublist hsublist)
  · rintro r rfl
    exact ⟨hhash id r hpending,
      hperm.mem_iff.mpr (List.mem_filterMap.mpr ⟨(id, .ok r), hpending, rfl⟩)⟩
  · rintro e rfl hmem
    obtain ⟨r, hr, rfl⟩ := List.mem_map.mp hmem
    obtain ⟨⟨id', request⟩, hpending', hsome⟩ := List.mem_filterMap.mp (hperm.mem_iff.mp hr)
    cases request with
    | error e' => cases hsome
    | ok r' =>
      cases hsome
      have heq := List.inj_on_of_nodup_map hnodup hpending' hpending (hhash id' r hpending').symm
      cases heq

/-- A payment that was in a block before the start is found. -/
theorem paidInBlock_of_confirmed {order : MapOrder} {accountId : AccountId} {paymentMargin : Nat}
    {w w' : World} (hspawned : w.spawned = []) (hlookups : w.lookups = [])
    (hids : DistinctIds w.redeems w.replaces)
    (hruns : Prog.Runs (env (N := N) lib)
      (executeOpenRequests lib order (.light network) accountId paymentMargin).run w
      (.pure (.ok ())) w') {id : H256} {r : Request}
    (hpending : (id, .ok r) ∈ pendingRequests E paymentMargin w.redeems w.replaces)
    {address : Address} (haddress : r.btcAddress.toAddress lib network = .ok address)
    {tx : Electrs.TransactionValue} (htx : tx ∈ w.server.opReturnHistory lib id)
    (hpays : Electrs.Pays lib address r.amount tx) : PaidInBlock lib network w' r := by
  obtain ⟨requests, found, hdispatched, -, hrequests⟩ :=
    dispatched_of_runs hspawned hlookups hids hruns
  obtain ⟨rfl, hr⟩ := (hrequests id (.ok r) hpending).1 r rfl
  rw [hdispatched.requests, List.append_nil] at hr
  obtain ⟨l, hl, rfl⟩ := List.mem_map.mp hr
  have hlookup : (l.request.hash, l.history) ∈ w'.lookups := by
    rw [hdispatched.lookups]
    exact List.mem_map_of_mem (f := fun l => (l.request.hash, l.history)) hl
  exact ⟨address, l.history, haddress, hlookup, tx, (hdispatched.correct l hl).1 htx, hpays⟩

variable (lib) in
/-- Once a run on the light client's path has completed, a pending request has been recognised as
paid exactly when its deadlines could be worked out and a transaction that pays it was in a block
when the history of its OP_RETURN output was read. -/
theorem recognised_iff (order : MapOrder) (accountId : AccountId) (paymentMargin : Nat)
    {w w' : World} (hspawned : w.spawned = []) (hlookups : w.lookups = [])
    (hids : DistinctIds w.redeems w.replaces)
    (hruns : Prog.Runs (env (N := N) lib)
      (executeOpenRequests lib order (.light network) accountId paymentMargin).run w
      (.pure (.ok ())) w') {id : H256} {request : Except (Error E) Request}
    (hpending : (id, request) ∈ pendingRequests E paymentMargin w.redeems w.replaces) :
    Recognised lib network w' id ↔ ∃ r, request = .ok r ∧ PaidInBlock lib network w' r := by
  obtain ⟨requests, found, hdispatched, hdistinct, hrequests⟩ :=
    dispatched_of_runs hspawned hlookups hids hruns
  obtain ⟨hok, herror⟩ := hrequests id request hpending
  cases request with
  | ok r =>
    obtain ⟨rfl, hr⟩ := hok r rfl
    rw [hdispatched.requests, List.append_nil] at hr
    obtain ⟨l, hl, rfl⟩ := List.mem_map.mp hr
    rw [hdispatched.recognised_iff_paid hdistinct hl]
    exact ⟨fun h => ⟨_, rfl, h⟩, fun ⟨r, heq, h⟩ => by cases heq; exact h⟩
  | error e =>
    rw [iff_false_left (hdispatched.not_recognised (herror e rfl))]
    rintro ⟨r, heq, -⟩
    cases heq

/-- The payment is in a block: it is found, and a worker waits for it. -/
theorem recognised_iff_confirmed :
    Recognised hashingKeys .regtest (afterStart [] [payment] (by decide)) 7 ↔
      ∃ r, (.ok openRedeem : Except (Error String) Request) = .ok r ∧
        PaidInBlock hashingKeys .regtest (afterStart [] [payment] (by decide)) r := by
  have hids : DistinctIds [(7, pendingRedeem)] [] := List.nodup_singleton 7
  exact recognised_iff hashingKeys .inOrder 0 7200000 rfl rfl hids
    (runs_startRun (by decide +kernel)) (by decide +kernel)

example : (afterStart [] [payment] (by decide)).spawned = [.paymentWorker openRedeem 9] := by
  decide +kernel

/-- The payment has been broadcast: it is in the mempool or in a block. -/
def Broadcast (lib : Lib E) (network : Network) (w : World) (request : Request) : Prop :=
  ∃ address tx, request.btcAddress.toAddress lib network = .ok address ∧
    tx ∈ w.server.mempool ++ w.server.confirmed ∧
    Electrs.hasScript lib (lib.sha256 (lib.opReturnScript request.hash)) tx ∧
    Electrs.Pays lib address request.amount tx

/-- The payment is still in the mempool: the vault pays a second time. -/
theorem not_recognised_of_mempool :
    Broadcast hashingKeys .regtest (restarted [payment] [] (by decide)) openRedeem ∧
      Prog.Runs (env (N := noNode) hashingKeys)
        (executeOpenRequests hashingKeys .inOrder (.light .regtest) 0 7200000).run
        (restarted [payment] [] (by decide)) (.pure (.ok ()))
        (afterStart [payment] [] (by decide)) ∧
      ¬Recognised hashingKeys .regtest (afterStart [payment] [] (by decide)) 7 := by
  have hspawned : (afterStart [payment] [] (by decide)).spawned = [.payAndExecute openRedeem] := by
    decide +kernel
  refine ⟨⟨regtestAddress 0x751e76e8199196d454941c45d1b3a323f1433bd6, payment, ?_, ?_, ?_, ?_⟩,
    runs_startRun (by decide +kernel), fun h => h.2 openRedeem ?_ rfl⟩
  · decide +kernel
  · decide +kernel
  · decide +kernel
  · exact Nat.le_of_ble_eq_true (by decide +kernel)
  · rw [hspawned]
    exact List.mem_singleton.mpr rfl

end Payments

end InterBtcClients.Vault.Execution
