import InterBtcClients.Library.Interleave
import InterBtcClients.Library.Log
import InterBtcClients.Vault.Execution
import Mathlib.Data.List.Flatten

/-! The start of the vault's service: once a new parachain block has come, the execution of the open
requests runs beside the subscription to the redeem events, while blocks are finalized. -/

namespace InterBtcClients.Vault.Startup

open Library Bitcoin Execution InterBtcClients.Runtime

variable {E : Type}

/-! ### The programs -/

inductive HeightCall
  | getCurrentChainHeight
  | sleep

variable (E) in
@[reducible] def heightApi : Interface where
  Call := HeightCall
  Answer
    | .getCurrentChainHeight => Except E Nat
    | .sleep => Unit

def getCurrentChainHeight : ExceptT E (Prog (heightApi E)) Nat :=
  ExceptT.mk (Prog.request (heightApi E) .getCurrentChainHeight)

/-- Waits for a new block and returns the height before it; `none` is a wait that has not ended
after `fuel` polls. -/
def awaitParachainBlock (fuel : Nat) : ExceptT E (Prog (heightApi E)) (Option Nat) := do
  let startupHeight ← getCurrentChainHeight
  Prog.iterate (fun _ : Unit => do
    if startupHeight = (← getCurrentChainHeight) then
      ExceptT.lift (Prog.request (heightApi E) .sleep)
      return .inl ()
    else return .inr startupHeight) fuel ()

structure RequestRedeemEvent where
  redeemId : H256
  vaultId : VaultId
  deriving DecidableEq

inductive ListenerCall
  | subscribeEvents
  | nextEvent
  | getVault (vaultId : VaultId)
  /-- The task that fetches the redeem request and pays it. -/
  | spawn (redeemId : H256)

@[reducible] def listenerApi : Interface where
  Call := ListenerCall
  Answer
    | .subscribeEvents => Unit
    | .nextEvent => RequestRedeemEvent
    | .getVault _ => Option VaultId
    | .spawn _ => Unit

abbrev askListener (call : ListenerCall) : Prog listenerApi (listenerApi.Answer call) :=
  Prog.request listenerApi call

def onRedeemEvent (event : RequestRedeemEvent) : Prog listenerApi Unit := do
  match ← askListener (.getVault event.vaultId) with
  | some _ => askListener (.spawn event.redeemId)
  | none => return () -- event not directed at this vault

def onEvents : Nat → Prog listenerApi Unit
  | 0 => return ()
  | rounds + 1 => do
    let event ← askListener .nextEvent
    onRedeemEvent event
    onEvents rounds

/-- The listener, up to the `rounds`-th event that it handles. -/
def listenForRedeemRequests (rounds : Nat) : Prog listenerApi Unit := do
  askListener .subscribeEvents
  onEvents rounds

/-! ### The parachain -/

structure Block where
  redeems : List (H256 × InterBtcRedeemRequest)
  replaces : List (H256 × InterBtcReplaceRequest)

def Block.ids (block : Block) : List H256 :=
  block.redeems.map Prod.fst ++ block.replaces.map Prod.fst

def Block.events (block : Block) : List RequestRedeemEvent :=
  block.redeems.map fun (id, request) => ⟨id, request.vault⟩

/-- The finalized blocks, each with the requests that it opens, and what has become of these. -/
structure Chain where
  blocks : List Block
  genesis : blocks ≠ []
  redeemStatus : H256 → RedeemRequestStatus
  replaceStatus : H256 → ReplaceRequestStatus

namespace Chain

/-- The height of the finalized head. -/
def head (c : Chain) : Nat := c.blocks.length - 1

def redeems (c : Chain) : List (H256 × InterBtcRedeemRequest) := c.blocks.flatMap Block.redeems

def redeemRequests (c : Chain) (accountId : AccountId) : List (H256 × InterBtcRedeemRequest) :=
  (c.redeems.filter fun (_, request) => request.vault.accountId = accountId).map
    fun (id, request) => (id, { request with status := c.redeemStatus id })

def replaceRequests (c : Chain) (accountId : AccountId) : List (H256 × InterBtcReplaceRequest) :=
  ((c.blocks.flatMap Block.replaces).filter fun (_, request) =>
    request.oldVault.accountId = accountId).map
    fun (id, request) => (id, { request with status := c.replaceStatus id })

def getRedeemRequest (c : Chain) (id : H256) : Option InterBtcRedeemRequest :=
  (c.redeems.find? fun (other, _) => other = id).map Prod.snd

/-- The events of a subscription that was opened at height `s`. -/
def events (c : Chain) (s : Nat) : List RequestRedeemEvent := (c.blocks.drop s).flatMap Block.events

/-- Blocks have been finalized: a request that is pending has been so before. -/
def Grows (c' c : Chain) : Prop := (∃ new, c'.blocks = c.blocks ++ new) ∧
  ∀ id, c'.redeemStatus id = .pending → c.redeemStatus id = .pending

def DistinctIds (c : Chain) : Prop := (c.blocks.flatMap Block.ids).Nodup

instance (c : Chain) : Decidable c.DistinctIds := inferInstanceAs (Decidable (List.Nodup _))

def OpenedAt (c : Chain) (h : Nat) (id : H256) (request : InterBtcRedeemRequest) : Prop :=
  ∃ block, c.blocks[h]? = some block ∧ (id, request) ∈ block.redeems

end Chain

/-! ### The vault -/

/-- A lookup of the payment of a request, with its answer. -/
structure OpReturnLookup (E : Type) where
  address : Address
  amount : Nat
  data : H256
  answer : Except E (Option Txid)

/-- What the execution of the open requests has done: the height that it has read the redeem
requests at and the tasks that it has spawned, with what the bitcoin client has answered: the full
node's answers, and those to the lookups. -/
structure Executor (E : Type) (N : Interface) where
  queried : Option Nat
  tasks : List Task
  node : List (Prog.Event N)
  lookups : List (OpReturnLookup E)

/-- What the listener has done: the height that its subscription was opened at, how many events it
has got, and the redeem requests that it has spawned a task for. -/
structure Listener where
  subscribed : Option Nat
  delivered : Nat
  tasks : List H256

structure World (E : Type) (N : Interface) where
  chain : Chain
  executor : Executor E N
  listener : Listener

variable {N : Interface}

def World.start (chain : Chain) : World E N := ⟨chain, ⟨none, [], [], []⟩, ⟨none, 0, []⟩⟩

def heightEnv : Prog.Env (heightApi E) Chain
  | c, .getCurrentChainHeight, r, c' => (∀ height, r = .ok height → height = c.head) ∧ c' = c
  | c, .sleep, _, c' => c' = c

/-- The bitcoin client may find a payment or not, or fail. -/
def executorEnv : Prog.Env (api E N) (World E N)
  | w, .getVaultRedeemRequests accountId, r, w' =>
    (∀ requests, r = .ok requests → requests = w.chain.redeemRequests accountId) ∧
      w' = { w with executor.queried := some w.chain.head }
  | w, .getOldVaultReplaceRequests accountId, r, w' =>
    (∀ requests, r = .ok requests → requests = w.chain.replaceRequests accountId) ∧ w' = w
  | w, .getTxForOpReturn address amount data, r, w' =>
    w' = { w with executor.lookups := w.executor.lookups ++ [⟨address, amount, data, r⟩] }
  | w, .node call, r, w' => w' = { w with executor.node := w.executor.node ++ [⟨call, r⟩] }
  | w, .spawn task, _, w' => w' = { w with executor.tasks := w.executor.tasks ++ [task] }

/-- A subscription delivers the block that is the finalized head when it is opened, and those after
it. -/
def listenerEnv (vaults : List VaultId) : Prog.Env listenerApi (World E N)
  | w, .subscribeEvents, _, w' => w' = { w with listener.subscribed := some w.chain.head }
  | w, .nextEvent, event, w' => ∃ s, w.listener.subscribed = some s ∧
    (w.chain.events s)[w.listener.delivered]? = some event ∧
    w' = { w with listener.delivered := w.listener.delivered + 1 }
  | w, .getVault vaultId, r, w' => r = (if vaultId ∈ vaults then some vaultId else none) ∧ w' = w
  | w, .spawn id, _, w' => w' = { w with listener.tasks := w.listener.tasks ++ [id] }

def finalize (w w' : World E N) : Prop :=
  w'.chain.Grows w.chain ∧ w'.executor = w.executor ∧ w'.listener = w.listener

variable (E) in
/-- What a task of the listener pays: the redeem request, if its deadlines can be worked out. -/
def Chain.executeRedeem (paymentMargin : Nat) (c : Chain) (id : H256) : Option Request := do
  (Request.fromRedeemRequest (E := E) id (← c.getRedeemRequest id) paymentMargin).toOption

def World.payers (paymentMargin : Nat) (w : World E N) : List Request :=
  w.executor.tasks.filterMap Task.pays ++
    w.listener.tasks.filterMap (w.chain.executeRedeem E paymentMargin)

def HandedOnce (paymentMargin : Nat) (w : World E N) (id : H256) : Prop :=
  ((w.payers paymentMargin).map Request.hash).count id = 1

/-! ### The payments -/

/-- The transactions that the bitcoin client's stream gives, with its errors. -/
def streamedTransactions (btcRpc : BtcRpc E N) (stopHeight : Nat) :
    Prog N (List (Except E Transaction)) := do
  match ← (btcRpc.reverseStreamTransactions stopHeight).run with
  | .ok stream => stream.collect
  | .error _ => return []

/-- `items` are what the stream has given when the full node has answered with `answers`.  A light
client is not asked for a stream. -/
def Streamed (btcRpc : BtcRpc E N) (stopHeight : Nat) (answers : List (Prog.Event N))
    (items : List (Except E Transaction)) : Prop :=
  if btcRpc.isFullNode then
    Prog.Runs (Prog.logged fun _ => True) (streamedTransactions btcRpc stopHeight) [] (.pure items)
      answers
  else items = []

section Payments

variable (lib : Lib E)

/-- The transaction has the id of the request in an OP_RETURN output and pays its amount. -/
def Pays (request : Request) (tx : Transaction) : Prop :=
  getOpReturn tx = some request.hash ∧
    ∃ payload paidAmount, request.btcAddress.toPayload lib = .ok payload ∧
      getPaymentAmountTo lib tx payload = some paidAmount ∧ request.amount ≤ paidAmount.toNat

def OpReturnLookup.IsOf (network : Network) (request : Request)
    (lookup : OpReturnLookup E) : Prop :=
  request.btcAddress.toAddress lib network = .ok lookup.address ∧
    lookup.amount = request.amount ∧ lookup.data = request.hash

/-- A transaction of the stream pays the request, or a lookup of its payment has found one or has
failed. -/
def PaymentSeen (network : Network) (items : List (Except E Transaction))
    (lookups : List (OpReturnLookup E)) (request : Request) : Prop :=
  (∃ tx, .ok tx ∈ items ∧ Pays lib request tx) ∨
    ∃ lookup ∈ lookups, lookup.IsOf lib network request ∧ lookup.answer ≠ .ok none

end Payments

/-- The listener has got the event of the request, if its subscription delivers it. -/
def Delivered (w : World E N) (id : H256) : Prop :=
  ∀ s, w.listener.subscribed = some s → ∀ event ∈ w.chain.events s, event.redeemId = id →
    event ∈ (w.chain.events s).take w.listener.delivered

/-! ### The chain grows -/

section Chain

variable {c c' c'' : Chain} {h s : Nat} {id : H256} {request : InterBtcRedeemRequest}

namespace Chain

theorem Grows.refl (c : Chain) : c.Grows c := ⟨⟨[], (List.append_nil _).symm⟩, fun _ h => h⟩

theorem Grows.trans (h' : c''.Grows c') (h : c'.Grows c) : c''.Grows c := by
  obtain ⟨⟨new, hnew⟩, hstatus⟩ := h
  obtain ⟨⟨new', hnew'⟩, hstatus'⟩ := h'
  refine ⟨⟨new ++ new', ?_⟩, fun id hid => hstatus id (hstatus' id hid)⟩
  rw [hnew', hnew, List.append_assoc]

theorem length_pos (c : Chain) : 0 < c.blocks.length := List.length_pos_of_ne_nil c.genesis

theorem Grows.head_le (h : c'.Grows c) : c.head ≤ c'.head := by
  obtain ⟨⟨new, hnew⟩, -⟩ := h
  have hlength := congrArg List.length hnew
  rw [List.length_append] at hlength
  rw [head, head]
  omega

theorem Grows.events (h : c'.Grows c) (hs : s ≤ c.head) :
    ∃ new, c'.events s = c.events s ++ new := by
  obtain ⟨⟨new, hnew⟩, -⟩ := h
  have hlength : s ≤ c.blocks.length := by
    rw [head] at hs
    omega
  refine ⟨new.flatMap Block.events, ?_⟩
  rw [Chain.events, hnew, List.drop_append_of_le_length hlength, List.flatMap_append, Chain.events]

theorem DistinctIds.nodup_redeems (hids : c.DistinctIds) : (c.redeems.map Prod.fst).Nodup := by
  refine hids.sublist ?_
  rw [redeems, List.map_flatMap]
  exact List.Sublist.flatMap_right _ fun block _ => List.sublist_append_left _ _

theorem DistinctIds.block_unique (hids : c.DistinctIds) {i j : Nat} {b b' : Block}
    (hi : c.blocks[i]? = some b) (hj : c.blocks[j]? = some b') (hid : id ∈ b.ids)
    (hid' : id ∈ b'.ids) : i = j := by
  obtain ⟨hilt, rfl⟩ := List.getElem?_eq_some_iff.mp hi
  obtain ⟨hjlt, rfl⟩ := List.getElem?_eq_some_iff.mp hj
  have hpairwise := List.pairwise_iff_getElem.mp (List.nodup_flatMap.mp hids).2
  rcases Nat.lt_trichotomy i j with hlt | heq | hlt
  · exact (hpairwise i j hilt hjlt hlt hid hid').elim
  · exact heq
  · exact (hpairwise j i hjlt hilt hlt hid' hid).elim

theorem mem_ids_of_redeems {block : Block} (h : (id, request) ∈ block.redeems) :
    id ∈ block.ids :=
  List.mem_append_left _ (List.mem_map_of_mem (f := Prod.fst) h)

theorem mem_redeems_iff : (id, request) ∈ c.redeems ↔ ∃ h, c.OpenedAt h id request := by
  constructor
  · intro hmem
    obtain ⟨block, hblock, hmem⟩ := List.mem_flatMap.mp hmem
    obtain ⟨h, hh⟩ := List.mem_iff_getElem?.mp hblock
    exact ⟨h, block, hh, hmem⟩
  · rintro ⟨h, block, hh, hmem⟩
    exact List.mem_flatMap.mpr ⟨block, List.mem_of_getElem? hh, hmem⟩

/-- A redeem request is opened once. -/
theorem OpenedAt.unique {h' : Nat} {request' : InterBtcRedeemRequest} (hids : c.DistinctIds)
    (hopened : c.OpenedAt h id request) (hopened' : c.OpenedAt h' id request') :
    h = h' ∧ request = request' := by
  obtain ⟨block, hh, hmem⟩ := hopened
  obtain ⟨block', hh', hmem'⟩ := hopened'
  have heq := hids.block_unique hh hh' (mem_ids_of_redeems hmem) (mem_ids_of_redeems hmem')
  have hinj := List.inj_on_of_nodup_map hids.nodup_redeems
    (mem_redeems_iff.mpr ⟨h, block, hh, hmem⟩) (mem_redeems_iff.mpr ⟨h', block', hh', hmem'⟩) rfl
  exact ⟨heq, congrArg Prod.snd hinj⟩

theorem OpenedAt.grows (hopened : c.OpenedAt h id request) (hgrows : c'.Grows c) :
    c'.OpenedAt h id request := by
  obtain ⟨block, hh, hmem⟩ := hopened
  obtain ⟨⟨new, hnew⟩, -⟩ := hgrows
  refine ⟨block, ?_, hmem⟩
  rw [hnew, List.getElem?_append_left (List.getElem?_eq_some_iff.mp hh).1, hh]

theorem lt_length_iff : h < c.blocks.length ↔ h ≤ c.head := by
  have := c.length_pos
  rw [head]
  omega

/-- The requests that the chain had before it grew. -/
theorem OpenedAt.mem_redeems_iff {request' : InterBtcRedeemRequest} (hids : c'.DistinctIds)
    (hgrows : c'.Grows c) (hopened : c'.OpenedAt h id request) :
    (id, request') ∈ c.redeems ↔ h ≤ c.head ∧ request' = request := by
  rw [Chain.mem_redeems_iff]
  constructor
  · rintro ⟨h', hopened'⟩
    obtain ⟨rfl, rfl⟩ := hopened.unique hids (hopened'.grows hgrows)
    obtain ⟨block, hh, -⟩ := hopened'
    exact ⟨lt_length_iff.mp (List.getElem?_eq_some_iff.mp hh).1, rfl⟩
  · rintro ⟨hle, rfl⟩
    obtain ⟨block, hh, hmem⟩ := hopened
    obtain ⟨⟨new, hnew⟩, -⟩ := hgrows
    rw [hnew, List.getElem?_append_left (lt_length_iff.mpr hle)] at hh
    exact ⟨h, block, hh, hmem⟩

/-- The events of a subscription are those of the blocks from `s` on. -/
theorem OpenedAt.mem_events_iff (hids : c.DistinctIds) (hopened : c.OpenedAt h id request) :
    (∃ event ∈ c.events s, event.redeemId = id) ↔ s ≤ h := by
  obtain ⟨block, hh, hmem⟩ := hopened
  constructor
  · rintro ⟨event, hevent, rfl⟩
    obtain ⟨block', hblock', hevent⟩ := List.mem_flatMap.mp hevent
    obtain ⟨⟨id', request'⟩, hmem', rfl⟩ := List.mem_map.mp hevent
    obtain ⟨i, hi⟩ := List.mem_iff_getElem?.mp hblock'
    rw [List.getElem?_drop] at hi
    have heq := hids.block_unique hi hh (mem_ids_of_redeems hmem') (mem_ids_of_redeems hmem)
    omega
  · intro hle
    refine ⟨⟨id, request.vault⟩, List.mem_flatMap.mpr ⟨block, ?_, ?_⟩, rfl⟩
    · refine List.mem_iff_getElem?.mpr ⟨h - s, ?_⟩
      rw [List.getElem?_drop, Nat.add_sub_cancel' hle, hh]
    · exact List.mem_map.mpr ⟨(id, request), hmem, rfl⟩

theorem OpenedAt.vaultId_eq (hids : c.DistinctIds) (hopened : c.OpenedAt h id request)
    {event : RequestRedeemEvent} (hevent : event ∈ c.events s) (hid : event.redeemId = id) :
    event.vaultId = request.vault := by
  obtain ⟨block', hblock', hevent⟩ := List.mem_flatMap.mp hevent
  obtain ⟨⟨id', request'⟩, hmem', rfl⟩ := List.mem_map.mp hevent
  obtain ⟨i, hi⟩ := List.mem_iff_getElem?.mp (List.mem_of_mem_drop hblock')
  obtain rfl : id' = id := hid
  obtain ⟨-, rfl⟩ := OpenedAt.unique hids ⟨block', hi, hmem'⟩ hopened
  rfl

theorem DistinctIds.nodup_events (hids : c.DistinctIds) :
    ((c.events s).map RequestRedeemEvent.redeemId).Nodup := by
  refine hids.nodup_redeems.sublist ?_
  have hmap : (c.events s).map RequestRedeemEvent.redeemId =
      ((c.blocks.drop s).flatMap Block.redeems).map Prod.fst := by
    rw [events, List.map_flatMap, List.map_flatMap]
    refine congrArg (List.flatMap · _) (funext fun block => ?_)
    rw [Block.events, List.map_map]
    rfl
  rw [hmap]
  exact ((List.drop_sublist s c.blocks).flatMap _).map _

theorem getRedeemRequest_eq (hids : c.DistinctIds) (hopened : c.OpenedAt h id request) :
    c.getRedeemRequest id = some request := by
  have hmem := Chain.mem_redeems_iff.mpr ⟨h, hopened⟩
  rw [getRedeemRequest]
  cases hfound : c.redeems.find? fun (other, _) => other = id with
  | none => exact absurd (List.find?_eq_none.mp hfound _ hmem) (by simp)
  | some found =>
    obtain ⟨id', request'⟩ := found
    have hid : id' = id := by simpa using List.find?_some hfound
    rw [List.inj_on_of_nodup_map hids.nodup_redeems (List.mem_of_find?_eq_some hfound) hmem hid]
    rfl

end Chain

end Chain

/-! ### The listener -/

section Listener

variable {N : Interface} {vaults : List VaultId} {w w' : World E N}
variable {current : List RequestRedeemEvent}

/-- What the listener relies on. -/
def ListenerRely (w w' : World E N) : Prop := w'.chain.Grows w.chain ∧ w'.listener = w.listener

theorem ListenerRely.trans {w w' w'' : World E N} (h : ListenerRely w w')
    (h' : ListenerRely w' w'') : ListenerRely w w'' :=
  ⟨h'.1.trans h.1, h'.2.trans h.2⟩

/-- The ids of the events that are directed at the vault. -/
def handled (vaults : List VaultId) (events : List RequestRedeemEvent) : List H256 :=
  (events.filter fun event => event.vaultId ∈ vaults).map RequestRedeemEvent.redeemId

/-- Of the events that the listener has got, all but `current` have been handled. -/
structure Listening (vaults : List VaultId) (start s : Nat) (current : List RequestRedeemEvent)
    (w : World E N) : Prop where
  subscribed : w.listener.subscribed = some s
  start_le : start ≤ s
  le_head : s ≤ w.chain.head
  delivered : w.listener.delivered ≤ (w.chain.events s).length
  tasks : ∃ done, (w.chain.events s).take w.listener.delivered = done ++ current ∧
    w.listener.tasks = handled vaults done

variable {start s : Nat}

theorem Listening.stable (h : Listening vaults start s current w) (hR : ListenerRely w w') :
    Listening vaults start s current w' := by
  obtain ⟨hgrows, hlistener⟩ := hR
  obtain ⟨new, hnew⟩ := hgrows.events h.le_head
  obtain ⟨done, hdone, htasks⟩ := h.tasks
  refine ⟨?_, h.start_le, h.le_head.trans hgrows.head_le, ?_, done, ?_, ?_⟩
  · rw [hlistener, h.subscribed]
  · rw [hlistener, hnew, List.length_append]
    exact h.delivered.trans (Nat.le_add_right _ _)
  · rw [hlistener, hnew, List.take_append_of_le_length h.delivered, hdone]
  · rw [hlistener, htasks]

theorem Listening.next {event : RequestRedeemEvent} (h : Listening vaults start s [] w)
    (hevent : (w.chain.events s)[w.listener.delivered]? = some event) :
    Listening vaults start s [event]
      { w with listener.delivered := w.listener.delivered + 1 } := by
  obtain ⟨done, hdone, htasks⟩ := h.tasks
  obtain ⟨hlt, hget⟩ := List.getElem?_eq_some_iff.mp hevent
  refine ⟨h.subscribed, h.start_le, h.le_head, hlt, done, ?_, htasks⟩
  rw [List.append_nil] at hdone
  dsimp only
  rw [List.take_add_one, hevent, hdone]
  rfl

theorem Listening.skip {event : RequestRedeemEvent} (h : Listening vaults start s [event] w)
    (hvault : event.vaultId ∉ vaults) : Listening vaults start s [] w := by
  obtain ⟨done, hdone, htasks⟩ := h.tasks
  refine ⟨h.subscribed, h.start_le, h.le_head, h.delivered, done ++ [event], ?_, ?_⟩
  · rw [hdone, List.append_nil]
  · simp [htasks, handled, hvault]

theorem Listening.spawn {event : RequestRedeemEvent} (h : Listening vaults start s [event] w)
    (hvault : event.vaultId ∈ vaults) : Listening vaults start s []
      { w with listener.tasks := w.listener.tasks ++ [event.redeemId] } := by
  obtain ⟨done, hdone, htasks⟩ := h.tasks
  refine ⟨h.subscribed, h.start_le, h.le_head, h.delivered, done ++ [event], ?_, ?_⟩
  · rw [← hdone, List.append_nil]
  · simp [htasks, handled, hvault]

variable (E N) in
abbrev listenerInterfered (vaults : List VaultId) : Prog.Env listenerApi (World E N) :=
  Prog.interfere ListenerRely (listenerEnv vaults)

theorem keeps_onRedeemEvent {event : RequestRedeemEvent}
    (h : Listening vaults start s [event] w) :
    Prog.Keeps (listenerInterfered E N vaults) (fun _ => True) (onRedeemEvent event)
      (fun _ => Listening vaults start s []) w := by
  refine Prog.keeps_bind.mpr ⟨trivial, fun r w₂ hr => ⟨trivial, ?_⟩⟩
  obtain ⟨w₁, hR, rfl, rfl⟩ := hr
  have hw₂ := h.stable hR
  by_cases hvault : event.vaultId ∈ vaults
  · rw [if_pos hvault]
    refine ⟨trivial, fun _ w₄ hw₄ => ⟨trivial, ?_⟩⟩
    obtain ⟨w₃, hR, rfl⟩ := hw₄
    exact (hw₂.stable hR).spawn hvault
  · rw [if_neg hvault]
    exact ⟨trivial, hw₂.skip hvault⟩

theorem keeps_onEvents (rounds : Nat) (h : Listening vaults start s [] w) :
    Prog.Keeps (listenerInterfered E N vaults) (fun _ => True) (onEvents rounds)
      (fun _ => Listening vaults start s []) w := by
  induction rounds generalizing w with
  | zero => exact ⟨trivial, h⟩
  | succ rounds ih =>
    refine Prog.keeps_bind.mpr ⟨trivial, fun event w₂ hw₂ => ⟨trivial, ?_⟩⟩
    obtain ⟨w₁, hR, s', hs', hevent, rfl⟩ := hw₂
    have hw₁ := h.stable hR
    cases hw₁.subscribed.symm.trans hs'
    exact Prog.keeps_bind.mpr
      ((keeps_onRedeemEvent (hw₁.next hevent)).mono fun _ w₃ _ hw₃ => ih hw₃)

theorem keeps_listenForRedeemRequests (rounds : Nat) (hdelivered : w.listener.delivered = 0)
    (htasks : w.listener.tasks = []) :
    Prog.Keeps (listenerInterfered E N vaults) (fun _ => True) (listenForRedeemRequests rounds)
      (fun _ w' => ∃ s, Listening vaults w.chain.head s [] w') w := by
  refine Prog.keeps_bind.mpr ⟨trivial, fun _ w₂ hw₂ => ⟨trivial, ?_⟩⟩
  obtain ⟨w₁, ⟨hgrows, hlistener⟩, rfl⟩ := hw₂
  rw [← hlistener] at hdelivered htasks
  have hlistening : Listening vaults w.chain.head w₁.chain.head []
      { w₁ with listener.subscribed := some w₁.chain.head } := by
    refine ⟨rfl, hgrows.head_le, le_rfl, ?_, [], ?_, htasks⟩
    · exact hdelivered ▸ Nat.zero_le _
    · dsimp only
      rw [hdelivered]
      rfl
  exact (keeps_onEvents rounds hlistening).mono fun _ _ _ h => ⟨_, h⟩

end Listener

/-! ### The execution of the open requests -/

section Executor

variable {N : Interface} {w w' : World E N} {requests rest : List Request}

/-- What the execution of the open requests relies on. -/
def ExecutorRely (w w' : World E N) : Prop :=
  w'.chain.Grows w.chain ∧ w'.executor = w.executor

theorem ExecutorRely.trans {w w' w'' : World E N} (h : ExecutorRely w w')
    (h' : ExecutorRely w' w'') : ExecutorRely w w'' :=
  ⟨h'.1.trans h.1, h'.2.trans h.2⟩

/-- The id of a request whose lookup has failed. -/
def OpReturnLookup.failed (lookup : OpReturnLookup E) : Option H256 :=
  match lookup.answer with
  | .ok _ => none
  | .error _ => some lookup.data

/-- The redeem requests have been read from `c` and the replace requests from `c'`, and the stream
has given `items`.  Of the open requests, `rest` are left, of which no payment has been seen.  Each
of the others has a task, which pays it unless a payment has been seen, or its lookup has failed. -/
structure Executing (lib : Lib E) (network : Network) (c c' : Chain) (requests : List Request)
    (items : List (Except E Transaction)) (rest : List Request) (w : World E N) : Prop where
  grows : w.chain.Grows c
  grows' : w.chain.Grows c'
  queried : w.executor.queried = some c.head
  tasks : (w.executor.tasks.map (fun task => task.request.hash) ++
    w.executor.lookups.filterMap OpReturnLookup.failed ++ rest.map Request.hash).Perm
      (requests.map Request.hash)
  correct : ∀ task ∈ w.executor.tasks, task.request ∈ requests ∧
    (task.pays = none ↔ PaymentSeen lib network items w.executor.lookups task.request)
  asked : ∀ lookup ∈ w.executor.lookups, ∃ request ∈ requests, lookup.IsOf lib network request
  left : ∀ request ∈ rest, request ∈ requests ∧
    ¬PaymentSeen lib network items w.executor.lookups request

/-- The loop over the stream: no lookup has been made, and no task makes a payment. -/
structure Streaming (lib : Lib E) (network : Network) (c c' : Chain) (requests : List Request)
    (items : List (Except E Transaction)) (rest : List Request) (w : World E N) : Prop
    extends Executing lib network c c' requests items rest w where
  lookups : w.executor.lookups = []
  workers : ∀ task ∈ w.executor.tasks, task.pays = none

variable {lib : Lib E} {network : Network} {c c' : Chain} {items : List (Except E Transaction)}
variable {lookups : List (OpReturnLookup E)} {lookup : OpReturnLookup E} {request : Request}
variable {tx : Transaction} {task : Task}

theorem paymentSeen_error {e : E} :
    PaymentSeen lib network (items ++ [.error e]) lookups request ↔
      PaymentSeen lib network items lookups request := by
  simp [PaymentSeen]

theorem paymentSeen_ok :
    PaymentSeen lib network (items ++ [.ok tx]) lookups request ↔
      PaymentSeen lib network items lookups request ∨ Pays lib request tx := by
  simp only [PaymentSeen, List.mem_append, List.mem_singleton, Except.ok.injEq, or_and_right,
    exists_or, exists_eq_left]
  exact or_right_comm

theorem paymentSeen_lookup :
    PaymentSeen lib network items (lookups ++ [lookup]) request ↔
      PaymentSeen lib network items lookups request ∨
        lookup.IsOf lib network request ∧ lookup.answer ≠ .ok none := by
  simp only [PaymentSeen, List.mem_append, List.mem_singleton, or_and_right, exists_or,
    exists_eq_left, or_assoc]

/-- A lookup of a request says nothing of the others. -/
theorem paymentSeen_lookup_of_ne {other : Request} (hof : lookup.IsOf lib network request)
    (hne : other.hash ≠ request.hash) :
    PaymentSeen lib network items (lookups ++ [lookup]) other ↔
      PaymentSeen lib network items lookups other := by
  rw [paymentSeen_lookup, or_iff_left]
  rintro ⟨⟨-, -, hdata⟩, -⟩
  exact hne (hdata.symm.trans hof.2.2)

theorem Pays.hash_eq {other : Request} (h : Pays lib request tx) (h' : Pays lib other tx) :
    other.hash = request.hash :=
  Option.some.inj (h'.1.symm.trans h.1)

theorem getRequestForBtcTx_eq_some (h : getRequestForBtcTx lib tx rest = some request) :
    request ∈ rest ∧ Pays lib request tx := by
  simp only [getRequestForBtcTx, Option.bind_eq_bind, Option.bind_eq_some_iff] at h
  obtain ⟨hash, hopReturn, found, hfound, payload, hpayload, amount, hamount, hpaid⟩ := h
  split at hpaid
  next hle =>
    cases hpaid
    have hhash : request.hash = hash := by simpa using List.find?_some hfound
    exact ⟨List.mem_of_find?_eq_some hfound, hhash ▸ hopReturn, payload, amount,
      Prog.ok_of_toOption hpayload, hamount, hle⟩
  next => cases hpaid

theorem getRequestForBtcTx_of_pays (hdistinct : (rest.map Request.hash).Nodup)
    (hmem : request ∈ rest) (hpays : Pays lib request tx) :
    getRequestForBtcTx lib tx rest = some request := by
  obtain ⟨hopReturn, payload, amount, hpayload, hamount, hle⟩ := hpays
  have hfound : rest.find? (fun other => other.hash = request.hash) = some request := by
    cases hfind : rest.find? fun other => other.hash = request.hash with
    | none => exact absurd (List.find?_eq_none.mp hfind request hmem) (by simp)
    | some found =>
      have hhash : found.hash = request.hash := by simpa using List.find?_some hfind
      rw [List.inj_on_of_nodup_map hdistinct (List.mem_of_find?_eq_some hfind) hmem hhash]
  rw [getRequestForBtcTx, hopReturn]
  simp only [Option.bind_eq_bind, Option.bind_some, hfound, hpayload, Except.toOption, hamount]
  exact if_pos hle

theorem Executing.stable (h : Executing lib network c c' requests items rest w)
    (hR : ExecutorRely w w') : Executing lib network c c' requests items rest w' := by
  obtain ⟨hgrows, hexecutor⟩ := hR
  refine ⟨hgrows.trans h.grows, hgrows.trans h.grows', ?_, ?_, ?_, ?_, ?_⟩ <;> rw [hexecutor]
  · exact h.queried
  · exact h.tasks
  · exact h.correct
  · exact h.asked
  · exact h.left

theorem Executing.perm {rest' : List Request}
    (h : Executing lib network c c' requests items rest w) (hperm : rest'.Perm rest) :
    Executing lib network c c' requests items rest' w :=
  { h with
    tasks := ((hperm.map Request.hash).append_left _).trans h.tasks
    left := fun request hmem => h.left request (hperm.mem_iff.mp hmem) }

theorem Executing.nodup (h : Executing lib network c c' requests items rest w)
    (hdistinct : (requests.map Request.hash).Nodup) :
    (w.executor.tasks.map (fun task => task.request.hash) ++
      w.executor.lookups.filterMap OpReturnLookup.failed ++ rest.map Request.hash).Nodup :=
  h.tasks.nodup_iff.mpr hdistinct

/-- The next request is none of those that have a task. -/
theorem Executing.hash_ne_of_task
    (h : Executing lib network c c' requests items (request :: rest) w)
    (hdistinct : (requests.map Request.hash).Nodup) (htask : task ∈ w.executor.tasks) :
    task.request.hash ≠ request.hash := by
  have hmem : task.request.hash ∈ w.executor.tasks.map (fun task => task.request.hash) ++
      w.executor.lookups.filterMap OpReturnLookup.failed :=
    List.mem_append_left _ (List.mem_map_of_mem (f := fun task => task.request.hash) htask)
  exact (List.nodup_append.mp (h.nodup hdistinct)).2.2 _ hmem _ List.mem_cons_self

/-- The next request is none of those that are left after it. -/
theorem Executing.hash_ne_of_left {other : Request}
    (h : Executing lib network c c' requests items (request :: rest) w)
    (hdistinct : (requests.map Request.hash).Nodup) (hother : other ∈ rest) :
    other.hash ≠ request.hash := by
  have hrest := (h.nodup hdistinct).of_append_right
  rw [List.map_cons, List.nodup_cons] at hrest
  exact fun hhash => hrest.1 (hhash ▸ List.mem_map_of_mem hother)

/-- A lookup leaves the tasks of other requests correct. -/
theorem Executing.correct_lookup
    (h : Executing lib network c c' requests items (request :: rest) w)
    (hdistinct : (requests.map Request.hash).Nodup) (hof : lookup.IsOf lib network request)
    (htask : task ∈ w.executor.tasks) : task.request ∈ requests ∧
      (task.pays = none ↔
        PaymentSeen lib network items (w.executor.lookups ++ [lookup]) task.request) := by
  rw [paymentSeen_lookup_of_ne hof (h.hash_ne_of_task hdistinct htask)]
  exact h.correct task htask

theorem Executing.asked_lookup (h : Executing lib network c c' requests items (request :: rest) w)
    (hof : lookup.IsOf lib network request) :
    ∀ other ∈ w.executor.lookups ++ [lookup],
      ∃ request ∈ requests, other.IsOf lib network request := by
  refine List.forall_mem_append.mpr ⟨h.asked, fun other hother => ?_⟩
  rw [List.mem_singleton.mp hother]
  exact ⟨request, (h.left request List.mem_cons_self).1, hof⟩

theorem Executing.left_lookup (h : Executing lib network c c' requests items (request :: rest) w)
    (hdistinct : (requests.map Request.hash).Nodup) (hof : lookup.IsOf lib network request) :
    ∀ other ∈ rest, other ∈ requests ∧
      ¬PaymentSeen lib network items (w.executor.lookups ++ [lookup]) other := by
  intro other hother
  rw [paymentSeen_lookup_of_ne hof (h.hash_ne_of_left hdistinct hother)]
  exact h.left other (List.mem_cons_of_mem _ hother)

/-- The lookup of the next request has been answered, and its task has been spawned. -/
theorem Executing.dispatched (h : Executing lib network c c' requests items (request :: rest) w)
    (hdistinct : (requests.map Request.hash).Nodup) (hof : lookup.IsOf lib network request)
    (hgrows : w'.chain.Grows w.chain)
    (hexecutor : w'.executor = { w.executor with
      tasks := w.executor.tasks ++ [task], lookups := w.executor.lookups ++ [lookup] })
    (htask : task.request = request) (hfailed : lookup.failed = none)
    (hpays : task.pays = none ↔ lookup.answer ≠ .ok none) :
    Executing lib network c c' requests items rest w' := by
  refine ⟨hgrows.trans h.grows, hgrows.trans h.grows', ?_, ?_, ?_, ?_, ?_⟩ <;> rw [hexecutor]
  · exact h.queried
  · refine List.Perm.trans ?_ h.tasks
    simp only [List.map_append, List.map_cons, List.map_nil, List.filterMap_append, htask,
      List.filterMap_cons_none hfailed, List.filterMap_nil, List.append_nil, List.append_assoc]
    have hmiddle : (w.executor.lookups.filterMap OpReturnLookup.failed ++
        request.hash :: rest.map Request.hash).Perm (request.hash ::
          (w.executor.lookups.filterMap OpReturnLookup.failed ++ rest.map Request.hash)) :=
      List.perm_middle
    exact hmiddle.symm.append_left _
  · refine List.forall_mem_append.mpr ⟨fun other => h.correct_lookup hdistinct hof, ?_⟩
    intro other hother
    obtain ⟨hmem, hunseen⟩ := h.left request List.mem_cons_self
    rw [List.mem_singleton.mp hother, htask, paymentSeen_lookup, or_iff_right hunseen, hpays,
      and_iff_right hof]
    exact ⟨hmem, Iff.rfl⟩
  · exact h.asked_lookup hof
  · exact h.left_lookup hdistinct hof

/-- The lookup of the next request has failed. -/
theorem Executing.failed (h : Executing lib network c c' requests items (request :: rest) w)
    (hdistinct : (requests.map Request.hash).Nodup) (hof : lookup.IsOf lib network request)
    (hgrows : w'.chain.Grows w.chain)
    (hexecutor : w'.executor =
      { w.executor with lookups := w.executor.lookups ++ [lookup] })
    (hfailed : lookup.failed = some request.hash) :
    Executing lib network c c' requests items rest w' := by
  refine ⟨hgrows.trans h.grows, hgrows.trans h.grows', ?_, ?_, ?_, ?_, ?_⟩ <;> rw [hexecutor]
  · exact h.queried
  · refine List.Perm.trans (List.Perm.of_eq ?_) h.tasks
    simp only [List.map_cons, List.filterMap_append, List.filterMap_cons_some hfailed,
      List.filterMap_nil, List.append_assoc, List.singleton_append]
  · exact fun other => h.correct_lookup hdistinct hof
  · exact h.asked_lookup hof
  · exact h.left_lookup hdistinct hof

/-! #### The loop over the stream -/

theorem Streaming.stable (h : Streaming lib network c c' requests items rest w)
    (hR : ExecutorRely w w') : Streaming lib network c c' requests items rest w' where
  toExecuting := h.toExecuting.stable hR
  lookups := hR.2 ▸ h.lookups
  workers := hR.2 ▸ h.workers

/-- The stream gives an item that pays none of the requests that are left. -/
theorem Streaming.item {item : Except E Transaction}
    (h : Streaming lib network c c' requests items rest w)
    (hitem : ∀ tx, item = .ok tx → ∀ request ∈ rest, ¬Pays lib request tx) :
    Streaming lib network c c' requests (items ++ [item]) rest w := by
  have hseen (request : Request) :
      PaymentSeen lib network (items ++ [item]) w.executor.lookups request ↔
        PaymentSeen lib network items w.executor.lookups request ∨
          ∃ tx, item = .ok tx ∧ Pays lib request tx := by
    cases item with
    | error e => simp [paymentSeen_error]
    | ok tx => simp [paymentSeen_ok]
  refine { h with
    correct := fun task htask => ?_
    left := fun request hrequest => ?_ }
  · obtain ⟨hmem, hpays⟩ := h.correct task htask
    have hworker := h.workers task htask
    exact ⟨hmem, iff_of_true hworker ((hseen _).mpr (.inl (hpays.mp hworker)))⟩
  · obtain ⟨hmem, hunseen⟩ := h.left request hrequest
    refine ⟨hmem, fun hpaid => ?_⟩
    rcases (hseen request).mp hpaid with hpaid | ⟨tx, htx, hpaid⟩
    · exact hunseen hpaid
    · exact hitem tx htx request hrequest hpaid

/-- Removing a request from the map removes its hash alone. -/
theorem perm_remove (h : (rest.map Request.hash).Nodup) (hmem : request ∈ rest) :
    ((request :: rest.filter fun other => other.hash ≠ request.hash).map Request.hash).Perm
      (rest.map Request.hash) := by
  have hfilter : (rest.filter fun other => other.hash ≠ request.hash).map Request.hash =
      (rest.map Request.hash).erase request.hash := by
    rw [h.erase_eq_filter, List.filter_map]
    refine congrArg _ (List.filter_congr fun other _ => ?_)
    exact decide_not
  rw [List.map_cons, hfilter]
  exact (List.perm_cons_erase (List.mem_map_of_mem hmem)).symm

/-- The stream gives a transaction that pays a request, and a worker has been spawned for it. -/
theorem Streaming.worker {txid : Txid} (h : Streaming lib network c c' requests items rest w)
    (hdistinct : (requests.map Request.hash).Nodup) (hmem : request ∈ rest)
    (hpays : Pays lib request tx) (hgrows : w'.chain.Grows w.chain)
    (hexecutor : w'.executor =
      { w.executor with tasks := w.executor.tasks ++ [.paymentWorker request txid] }) :
    Streaming lib network c c' requests (items ++ [.ok tx])
      (rest.filter fun other => other.hash ≠ request.hash) w' := by
  have hrest := (h.nodup hdistinct).of_append_right
  refine ⟨⟨hgrows.trans h.grows, hgrows.trans h.grows', ?_, ?_, ?_, ?_, ?_⟩, ?_, ?_⟩ <;>
    rw [hexecutor]
  · exact h.queried
  · refine List.Perm.trans ?_ (((perm_remove hrest hmem).append_left _).trans h.tasks)
    simp only [h.lookups, List.filterMap_nil, List.append_nil, List.map_append, List.map_cons,
      List.map_nil, List.append_assoc, List.singleton_append, Task.request, List.Perm.refl]
  · refine List.forall_mem_append.mpr ⟨fun task htask => ?_, fun task htask => ?_⟩
    · obtain ⟨hmem, hseen⟩ := h.correct task htask
      have hworker := h.workers task htask
      exact ⟨hmem, iff_of_true hworker (paymentSeen_ok.mpr (.inl (hseen.mp hworker)))⟩
    · rw [List.mem_singleton.mp htask]
      exact ⟨(h.left request hmem).1, iff_of_true rfl (paymentSeen_ok.mpr (.inr hpays))⟩
  · exact h.asked
  · intro other hother
    obtain ⟨hother, hne⟩ := List.mem_filter.mp hother
    obtain ⟨hmem', hunseen⟩ := h.left other hother
    refine ⟨hmem', fun hseen => ?_⟩
    rcases paymentSeen_ok.mp hseen with hseen | hpaid
    · exact hunseen hseen
    · exact of_decide_eq_true hne (hpays.hash_eq hpaid)
  · exact h.lookups
  · refine List.forall_mem_append.mpr ⟨h.workers, fun task htask => ?_⟩
    rw [List.mem_singleton.mp htask]
    rfl

variable (E N) in
abbrev executorInterfered : Prog.Env (api E N) (World E N) :=
  Prog.interfere ExecutorRely executorEnv

/-- The postcondition of the programs below, which is about their results alone. -/
abbrev Leaves {A : Type} (Q : A → World E N → Prop) : Except (Error E) A → World E N → Prop :=
  Prog.Outcome Q fun _ _ => True

theorem keeps_processTransaction {isTransportError : E → Bool} {item : Except E Transaction}
    (hdistinct : (requests.map Request.hash).Nodup)
    (h : Streaming lib network c c' requests items rest w) :
    Prog.Keeps (executorInterfered E N) (fun _ => True)
      (processTransaction lib isTransportError item rest).run
      (Leaves (Sum.elim (fun rest w' =>
        Streaming lib network c c' requests (items ++ [item]) rest w' ∧
          w'.executor.node = w.executor.node) fun _ _ => True)) w := by
  cases item with
  | error e =>
    dsimp only [processTransaction]
    split
    · exact ⟨trivial, trivial⟩
    · exact ⟨trivial, h.item nofun, rfl⟩
  | ok tx =>
    dsimp only [processTransaction]
    split
    next request hrequest =>
      obtain ⟨hmem, hpays⟩ := getRequestForBtcTx_eq_some hrequest
      refine Prog.keeps_run_bind.mpr (Prog.keeps_run_lift.mpr
        ⟨trivial, fun _ w₂ hw₂ => ⟨trivial, trivial, ?_⟩⟩)
      obtain ⟨w₁, ⟨hgrows, hexecutor⟩, rfl⟩ := hw₂
      have hnode : w₁.executor.node = w.executor.node := by rw [hexecutor]
      exact ⟨h.worker hdistinct hmem hpays hgrows (by rw [hexecutor]), hnode⟩
    next hnone =>
      refine ⟨trivial, h.item fun tx' htx' request hmem hpays => ?_, rfl⟩
      cases htx'
      have hrest := (h.nodup hdistinct).of_append_right
      cases hnone.symm.trans (getRequestForBtcTx_of_pays hrest hmem hpays)

/-- A call to the full node is added to its answers. -/
theorem Streaming.node {call : N.Call} {r : N.Answer call}
    (h : Streaming lib network c c' requests items rest w)
    (hr : executorInterfered E N w (.node call) r w') :
    w'.executor.node = w.executor.node ++ [⟨call, r⟩] ∧
      Streaming lib network c c' requests items rest w' := by
  obtain ⟨w₁, hR, rfl⟩ := hr
  have hw₁ := h.stable hR
  refine ⟨by rw [← hR.2], ⟨hw₁.grows, hw₁.grows', hw₁.queried, hw₁.tasks, hw₁.correct, hw₁.asked,
    hw₁.left⟩, hw₁.lookups, hw₁.workers⟩

theorem keeps_processTransactions {btcRpc : BtcRpc E N} {stopHeight : Nat}
    (hfullNode : btcRpc.isFullNode) (hdistinct : (requests.map Request.hash).Nodup)
    (hnode : w.executor.node = []) (h : Streaming lib network c c' requests [] rest w) :
    Prog.Keeps (executorInterfered E N) (fun _ => True)
      (processTransactions lib btcRpc rest stopHeight).run
      (Leaves fun rest w' => ∃ items, Streamed btcRpc stopHeight w'.executor.node items ∧
        Executing lib network c c' requests items rest w') w := by
  have hopened : Prog.Keeps (executorInterfered E N) (fun _ => True)
      ((btcRpc.reverseStreamTransactions stopHeight).run.embed Call.node fun _ r => r)
      (fun r w' => Prog.Runs (Prog.logged fun _ => True)
        (btcRpc.reverseStreamTransactions stopHeight).run [] (.pure r) w'.executor.node ∧
        Streaming lib network c c' requests [] rest w') w := by
    rw [← hnode]
    exact Prog.keeps_embed_runs (fun w : World E N => w.executor.node)
      (fun w call r w' hw hr => ⟨⟨trivial, (hw.node hr).1⟩, (hw.node hr).2⟩)
      (fun _ _ => trivial) _ h
  refine Prog.keeps_run_bind.mpr (Prog.keeps_run_adapt.mpr (hopened.mono fun r w₁ _ hr => ?_))
  cases r with
  | error e => trivial
  | ok stream =>
    obtain ⟨hruns, hw₁⟩ := hr
    have hcollects : Prog.Runs (Prog.logged fun _ => True)
        (streamedTransactions btcRpc stopHeight) [] ((([] : List _) ++ ·) <$> stream.collect)
        w₁.executor.node := by
      have hid := id_map stream.collect
      exact hid.symm ▸ hruns.bind _
    have hloop : Prog.Keeps (executorInterfered E N) (fun _ => True)
        ((stream.embed Call.node fun _ r => r).forUntil
          (processTransaction lib btcRpc.isTransportError) rest).run
        (Leaves (Sum.elim (fun rest w' => ∃ items,
          Streamed btcRpc stopHeight w'.executor.node items ∧
            Executing lib network c c' requests items rest w') fun _ _ => True)) w₁ :=
      AsyncStream.keeps_run_forUntil_collected
        (fun rest items w => Streaming lib network c c' requests items rest w)
        (fun _ _ _ _ _ _ hw hr => ⟨⟨trivial, (hw.node hr).1⟩, (hw.node hr).2⟩)
        (fun _ _ _ _ => trivial)
        (fun _ items _ hw hruns => ⟨items, by rwa [Streamed, if_pos hfullNode], hw.toExecuting⟩)
        (fun _ _ _ _ hw => keeps_processTransaction hdistinct hw) hcollects hw₁
    refine Prog.keeps_run_seq hloop fun result w₂ _ hw₂ => ?_
    cases result with
    | inl rest => exact ⟨trivial, hw₂⟩
    | inr never => exact never.elim

/-! #### The lookups -/

/-- The lookup of the next request has been answered, and its task is spawned. -/
theorem keeps_spawn (hdistinct : (requests.map Request.hash).Nodup)
    (h : Executing lib network c c' requests items (request :: rest) w)
    (hof : lookup.IsOf lib network request) (htask : task.request = request)
    (hfailed : lookup.failed = none) (hpays : task.pays = none ↔ lookup.answer ≠ .ok none) :
    Prog.Keeps (executorInterfered E N) (fun _ => True) (spawn (E := E) (N := N) task).run
      (Leaves fun _ w' => Executing lib network c c' requests items rest w' ∧
        w'.executor.node = w.executor.node)
      { w with executor.lookups := w.executor.lookups ++ [lookup] } := by
  refine Prog.keeps_run_lift.mpr ⟨trivial, fun _ w₂ hw₂ => ⟨trivial, ?_⟩⟩
  obtain ⟨w₁, ⟨hgrows, hexecutor⟩, rfl⟩ := hw₂
  have hnode : w₁.executor.node = w.executor.node := by rw [hexecutor]
  exact ⟨h.dispatched hdistinct hof hgrows (by rw [hexecutor]) htask hfailed hpays, hnode⟩

theorem keeps_dispatch (hdistinct : (requests.map Request.hash).Nodup)
    (h : Executing lib network c c' requests items (request :: rest) w) :
    Prog.Keeps (executorInterfered E N) (fun _ => True) (dispatch lib network request).run
      (Leaves fun _ w' => Executing lib network c c' requests items rest w' ∧
        w'.executor.node = w.executor.node) w := by
  obtain ⟨address, haddress⟩ := request.btcAddress.toAddress_ok lib network
  rw [dispatch, haddress]
  refine Prog.keeps_run_bind.mpr (Prog.keeps_run_ofExcept.mpr ⟨trivial, Prog.keeps_run_bind.mpr
    (Prog.keeps_run_lift.mpr (Prog.keeps_request.mpr ⟨trivial, fun r w₂ hr => ⟨trivial, ?_⟩⟩))⟩)
  obtain ⟨w₁, hR, rfl⟩ := hr
  have hw₁ := h.stable hR
  have hnode := congrArg Executor.node hR.2
  have hof : OpReturnLookup.IsOf lib network request ⟨address, request.amount, request.hash, r⟩ :=
    ⟨haddress, rfl, rfl⟩
  rcases r with e | (_ | txid)
  · exact ⟨trivial, hw₁.failed hdistinct hof (.refl _) rfl rfl, hnode⟩
  · rw [← hnode]
    exact keeps_spawn hdistinct hw₁ hof rfl rfl
      (iff_of_false (Option.some_ne_none _) fun hne => hne rfl)
  · rw [← hnode]
    exact keeps_spawn hdistinct hw₁ hof rfl rfl (iff_of_true rfl (by simp))

theorem keeps_dispatchAll (hdistinct : (requests.map Request.hash).Nodup)
    (h : Executing lib network c c' requests items rest w) :
    Prog.Keeps (executorInterfered E N) (fun _ => True) (dispatchAll lib network rest).run
      (Leaves fun _ w' => Executing lib network c c' requests items [] w' ∧
        w'.executor.node = w.executor.node) w := by
  induction rest generalizing w with
  | nil => exact ⟨trivial, h, rfl⟩
  | cons request rest ih =>
    refine Prog.keeps_run_seq (keeps_dispatch hdistinct h) fun _ w₁ _ hw₁ => ?_
    rw [← hw₁.2]
    exact ih hw₁.1

/-- The requests that are open when the redeem requests are read from `c` and the replace requests
from `c'`. -/
def openRequests (E : Type) (accountId : AccountId) (paymentMargin : Nat) (c c' : Chain) :
    List Request :=
  collect ((pendingRequests E paymentMargin (c.redeemRequests accountId)
    (c'.replaceRequests accountId)).filterMap fun (_, request) => request.toOption)

/-- The execution has ended: `items` are what the stream has given, back to the lowest bitcoin
height of the open requests. -/
structure Executed (lib : Lib E) (btcRpc : BtcRpc E N) (c c' : Chain) (requests : List Request)
    (items : List (Except E Transaction)) (w : World E N) : Prop where
  executing : Executing lib btcRpc.network c c' requests items [] w
  streamed : ∀ stopHeight, btcStartHeight requests = some stopHeight →
    Streamed btcRpc stopHeight w.executor.node items

theorem Executed.stable {btcRpc : BtcRpc E N} (h : Executed lib btcRpc c c' requests items w)
    (hR : ExecutorRely w w') : Executed lib btcRpc c c' requests items w' where
  executing := h.executing.stable hR
  streamed := hR.2 ▸ h.streamed

theorem keeps_executeOpenRequests (order : MapOrder) (btcRpc : BtcRpc E N) (accountId : AccountId)
    (paymentMargin : Nat) (chain : Chain) :
    Prog.Keeps (executorInterfered E N) (fun _ => True)
      (executeOpenRequests lib order btcRpc accountId paymentMargin).run
      (Leaves fun _ w' => ∃ c c' items, c.Grows chain ∧
        Executed lib btcRpc c c' (openRequests E accountId paymentMargin c c') items w')
      (World.start chain) := by
  refine Prog.keeps_run_bind.mpr (Prog.keeps_run_adapt.mpr ⟨trivial, fun r w₂ hr => ⟨trivial, ?_⟩⟩)
  obtain ⟨w₁, ⟨hgrows, hexecutor⟩, hredeems, rfl⟩ := hr
  cases r with
  | error e => trivial
  | ok redeems =>
  rw [hredeems redeems rfl]
  refine Prog.keeps_run_bind.mpr (Prog.keeps_run_adapt.mpr ⟨trivial, fun r w₃ hr => ⟨trivial, ?_⟩⟩)
  obtain ⟨w₂, ⟨hgrows', hexecutor'⟩, hreplaces, rfl⟩ := hr
  cases r with
  | error e => trivial
  | ok replaces =>
  rw [hreplaces replaces rfl]
  dsimp only [Prog.mapError_ok, Prog.Outcome]
  have hopen : openRequests E accountId paymentMargin w₁.chain w₃.chain =
    collect ((pendingRequests E paymentMargin (w₁.chain.redeemRequests accountId)
      (w₃.chain.replaceRequests accountId)).filterMap fun (_, request) => request.toOption) := rfl
  rw [← hopen]
  generalize hrequests : openRequests E accountId paymentMargin w₁.chain w₃.chain = requests
  have hdistinct : (requests.map Request.hash).Nodup := by
    rw [← hrequests]
    exact nodup_collect _
  have hfresh : w₃.executor = ⟨some w₁.chain.head, [], [], []⟩ := by
    rw [hexecutor']
    dsimp only
    rw [hexecutor]
    rfl
  have hstart : Streaming lib btcRpc.network w₁.chain w₃.chain requests [] requests w₃ := by
    refine ⟨⟨hgrows', .refl _, ?_, ?_, ?_, ?_, ?_⟩, ?_, ?_⟩ <;> rw [hfresh]
    · exact .refl _
    · exact List.forall_mem_nil _
    · exact List.forall_mem_nil _
    · exact fun request hmem => ⟨hmem, by simp [PaymentSeen]⟩
    · exact List.forall_mem_nil _
  split
  next hempty =>
    have hnil := hempty
    rw [btcStartHeight, List.min?_eq_none_iff, List.map_eq_nil_iff] at hnil
    subst hnil
    refine ⟨trivial, w₁.chain, w₃.chain, [], hgrows, ?_⟩
    rw [hrequests]
    exact ⟨hstart.toExecuting, fun stopHeight hstop => by cases hempty.symm.trans hstop⟩
  next height hheight =>
    have hdispatch (items : List (Except E Transaction)) (rest : List Request) (w' : World E N)
        (hstreamed : Streamed btcRpc height w'.executor.node items)
        (hw' : Executing lib btcRpc.network w₁.chain w₃.chain requests items rest w') :
        Prog.Keeps (executorInterfered E N) (fun _ => True)
          (dispatchAll lib btcRpc.network (order.arrange rest)).run
          (Leaves fun _ w' => ∃ c c' items, c.Grows chain ∧
            Executed lib btcRpc c c' (openRequests E accountId paymentMargin c c') items w')
        w' := by
      refine (keeps_dispatchAll hdistinct (hw'.perm (order.perm rest))).mono fun r w'' _ hw'' => ?_
      cases r with
      | error e => trivial
      | ok _ =>
        refine ⟨w₁.chain, w₃.chain, items, hgrows, ?_⟩
        rw [hrequests]
        refine ⟨hw''.1, fun stopHeight hstop => ?_⟩
        cases hheight.symm.trans hstop
        rw [hw''.2]
        exact hstreamed
    split
    next hfullNode =>
      have hnode : w₃.executor.node = [] := by rw [hfresh]
      refine Prog.keeps_run_seq (keeps_processTransactions hfullNode hdistinct hnode hstart)
        fun rest w' _ hw' => ?_
      obtain ⟨items, hstreamed, hw'⟩ := hw'
      exact hdispatch items rest w' hstreamed hw'
    next hlight =>
      refine Prog.keeps_run_bind.mpr ⟨trivial, hdispatch [] requests w₃ ?_ hstart.toExecuting⟩
      rw [Streamed, if_neg hlight]

theorem executorEnv_listenerRely {call : Call N} {r : (api E N).Answer call}
    (h : executorEnv w call r w') : ListenerRely w w' := by
  cases call with
  | getVaultRedeemRequests accountId =>
    rw [h.2]
    exact ⟨.refl _, rfl⟩
  | getOldVaultReplaceRequests accountId =>
    rw [h.2]
    exact ⟨.refl _, rfl⟩
  | getTxForOpReturn address amount data =>
    cases h
    exact ⟨.refl _, rfl⟩
  | node call =>
    cases h
    exact ⟨.refl _, rfl⟩
  | spawn task =>
    cases h
    exact ⟨.refl _, rfl⟩

theorem listenerEnv_executorRely {vaults : List VaultId} {call : ListenerCall}
    {r : listenerApi.Answer call} (h : listenerEnv vaults w call r w') : ExecutorRely w w' := by
  cases call with
  | subscribeEvents =>
    cases h
    exact ⟨.refl _, rfl⟩
  | nextEvent =>
    obtain ⟨s, -, -, rfl⟩ := h
    exact ⟨.refl _, rfl⟩
  | getVault vaultId =>
    rw [h.2]
    exact ⟨.refl _, rfl⟩
  | spawn redeemId =>
    cases h
    exact ⟨.refl _, rfl⟩

end Executor

/-! ### The payers -/

section Payers

variable {N : Interface} {w : World E N} {c c' : Chain} {h s start : Nat} {id : H256}
variable {request : InterBtcRedeemRequest} {lib : Lib E} {network : Network}
variable {items : List (Except E Transaction)} {accountId : AccountId} {paymentMargin : Nat}
variable {vaults : List VaultId}

theorem not_mem_replaces {replace : InterBtcReplaceRequest} (hids : c'.DistinctIds)
    (hgrows : c'.Grows c) (hopened : c'.OpenedAt h id request) :
    (id, replace) ∉ c.blocks.flatMap Block.replaces := by
  intro hmem
  obtain ⟨block', hblock', hmem⟩ := List.mem_flatMap.mp hmem
  obtain ⟨block, hh, hredeem⟩ := hopened
  obtain ⟨⟨new, hnew⟩, -⟩ := hgrows
  have hblock : block' ∈ c'.blocks := hnew ▸ List.mem_append_left _ hblock'
  obtain ⟨i, hi⟩ := List.mem_iff_getElem?.mp hblock
  have hreplaced : id ∈ block'.replaces.map Prod.fst := List.mem_map_of_mem (f := Prod.fst) hmem
  obtain rfl := hids.block_unique hi hh (List.mem_append_right _ hreplaced)
    (Chain.mem_ids_of_redeems hredeem)
  cases hi.symm.trans hh
  have hnodup := (List.nodup_flatMap.mp hids).1 block' hblock
  exact (List.nodup_append.mp hnodup).2.2 id (List.mem_map_of_mem (f := Prod.fst) hredeem) id
    hreplaced rfl

/-- A request that is still pending has been open for the executor when it was finalized before the
redeem requests were read. -/
theorem mem_openRequests {c'' : Chain} (hgrows : c''.Grows c) (hgrows' : c''.Grows c')
    (hids : c''.DistinctIds) (hopened : c''.OpenedAt h id request)
    (haccount : request.vault.accountId = accountId) (hpending : c''.redeemStatus id = .pending)
    {r : Request} :
    r ∈ openRequests E accountId paymentMargin c c' ∧ r.hash = id ↔
      h ≤ c.head ∧ Request.fromRedeemRequest (E := E) id request paymentMargin = .ok r := by
  have honly {r : Request} (hr : r ∈ openRequests E accountId paymentMargin c c')
      (hhash : r.hash = id) :
      h ≤ c.head ∧ Request.fromRedeemRequest (E := E) id request paymentMargin = .ok r := by
    obtain ⟨⟨id', result⟩, hr, hsome⟩ := List.mem_filterMap.mp (mem_of_mem_collect hr)
    obtain rfl := Prog.ok_of_toOption hsome
    obtain rfl : id = id' := hhash.symm.trans (hash_of_mem_pendingRequests hr)
    rcases List.mem_append.mp hr with hr | hr
    · obtain ⟨⟨id', redeem⟩, hredeem, heq⟩ := List.mem_map.mp hr
      obtain ⟨rfl, hconvert⟩ := Prod.mk.inj heq
      obtain ⟨⟨id, request'⟩, hmem, heq⟩ := List.mem_map.mp (List.mem_filter.mp hredeem).1
      obtain ⟨rfl, rfl⟩ := Prod.mk.inj heq
      obtain ⟨hle, rfl⟩ := (hopened.mem_redeems_iff hids hgrows).mp (List.mem_filter.mp hmem).1
      exact ⟨hle, hconvert⟩
    · obtain ⟨⟨id', replace⟩, hreplace, heq⟩ := List.mem_map.mp hr
      obtain ⟨rfl, -⟩ := Prod.mk.inj heq
      obtain ⟨⟨id, replace'⟩, hmem, heq⟩ := List.mem_map.mp (List.mem_filter.mp hreplace).1
      obtain ⟨rfl, -⟩ := Prod.mk.inj heq
      exact (not_mem_replaces hids hgrows' hopened (List.mem_filter.mp hmem).1).elim
  refine ⟨fun hr => honly hr.1 hr.2, fun ⟨hle, hconvert⟩ => ?_⟩
  have hmem := (hopened.mem_redeems_iff hids hgrows).mpr ⟨hle, rfl⟩
  have hredeem : (id, { request with status := .pending }) ∈ c.redeemRequests accountId := by
    refine List.mem_map.mpr ⟨(id, request), List.mem_filter.mpr ⟨hmem, by simpa⟩, ?_⟩
    dsimp only
    rw [hgrows.2 id hpending]
  have hhash : id ∈ (openRequests E accountId paymentMargin c c').map Request.hash := by
    rw [openRequests, mem_collect, mem_hashes_iff]
    refine ⟨r, List.mem_append_left _ (List.mem_map.mpr ⟨_, List.mem_filter.mpr ⟨hredeem, ?_⟩, ?_⟩)⟩
    · simp
    · rw [← hconvert]
      rfl
  obtain ⟨r', hr', hid⟩ := List.mem_map.mp hhash
  cases (honly hr' hid).2.symm.trans hconvert
  exact ⟨hr', hid⟩

theorem hash_of_pays {task : Task} {r : Request} (h : task.pays = some r) :
    r.hash = task.request.hash := by
  cases task with
  | paymentWorker request txid => cases h
  | payAndExecute request =>
    cases h
    rfl

variable {requests : List Request}

theorem Executing.nodup_pays (hexecuting : Executing lib network c c' requests items [] w)
    (hdistinct : (requests.map Request.hash).Nodup) :
    ((w.executor.tasks.filterMap Task.pays).map Request.hash).Nodup :=
  (hexecuting.nodup hdistinct).of_append_left.of_append_left.sublist
    (keys_filterMap_sublist fun _ _ _ => hash_of_pays)

/-- The executor pays the open requests of which it has seen no payment. -/
theorem Executing.mem_pays_iff (hexecuting : Executing lib network c c' requests items [] w)
    (hdistinct : (requests.map Request.hash).Nodup) :
    id ∈ (w.executor.tasks.filterMap Task.pays).map Request.hash ↔ ∃ r ∈ requests,
      r.hash = id ∧ ¬PaymentSeen lib network items w.executor.lookups r := by
  constructor
  · intro hmem
    obtain ⟨r, hr, rfl⟩ := List.mem_map.mp hmem
    obtain ⟨task, htask, hpays⟩ := List.mem_filterMap.mp hr
    obtain ⟨hrequest, hseen⟩ := hexecuting.correct task htask
    cases task with
    | paymentWorker request txid => cases hpays
    | payAndExecute request =>
      cases hpays
      exact ⟨r, hrequest, rfl, fun hpaid => nomatch hseen.mpr hpaid⟩
  · rintro ⟨r, hr, rfl, hunseen⟩
    have hhash := hexecuting.tasks.mem_iff.mpr (List.mem_map_of_mem (f := Request.hash) hr)
    rw [List.map_nil, List.append_nil, List.mem_append] at hhash
    rcases hhash with hhash | hhash
    · obtain ⟨task, htask, hhash⟩ := List.mem_map.mp hhash
      obtain ⟨hrequest, hseen⟩ := hexecuting.correct task htask
      obtain rfl := List.inj_on_of_nodup_map hdistinct hrequest hr hhash
      cases task with
      | paymentWorker request txid => exact (hunseen (hseen.mp rfl)).elim
      | payAndExecute request =>
        exact List.mem_map.mpr ⟨request, List.mem_filterMap.mpr ⟨_, htask, rfl⟩, rfl⟩
    · obtain ⟨lookup, hlookup, hfailed⟩ := List.mem_filterMap.mp hhash
      obtain ⟨request, hrequest, hof⟩ := hexecuting.asked lookup hlookup
      cases hanswer : lookup.answer with
      | ok found => simp [OpReturnLookup.failed, hanswer] at hfailed
      | error e =>
        have hdata : lookup.data = r.hash := by
          simpa [OpReturnLookup.failed, hanswer] using hfailed
        obtain rfl := List.inj_on_of_nodup_map hdistinct hrequest hr (hof.2.2.symm.trans hdata)
        exact (hunseen (.inr ⟨lookup, hlookup, hof, by rw [hanswer]; nofun⟩)).elim

theorem Listening.nodup_tasks (hlistening : Listening vaults start s [] w)
    (hids : w.chain.DistinctIds) : w.listener.tasks.Nodup := by
  obtain ⟨done, hdone, htasks⟩ := hlistening.tasks
  rw [List.append_nil] at hdone
  rw [htasks, handled, ← hdone]
  exact hids.nodup_events.sublist ((List.filter_sublist.trans (List.take_sublist _ _)).map _)

/-- The listener has a task for the requests of the blocks that its subscription delivers. -/
theorem Listening.mem_tasks_iff (hlistening : Listening vaults start s [] w)
    (hids : w.chain.DistinctIds) (hopened : w.chain.OpenedAt h id request)
    (hvault : request.vault ∈ vaults) (hdelivered : Delivered w id) :
    id ∈ w.listener.tasks ↔ s ≤ h := by
  obtain ⟨done, hdone, htasks⟩ := hlistening.tasks
  rw [List.append_nil] at hdone
  rw [htasks, handled, ← hdone, ← hopened.mem_events_iff hids]
  constructor
  · intro hmem
    obtain ⟨event, hevent, hid⟩ := List.mem_map.mp hmem
    exact ⟨event, List.mem_of_mem_take (List.mem_filter.mp hevent).1, hid⟩
  · rintro ⟨event, hevent, hid⟩
    have hmem := hdelivered s hlistening.subscribed event hevent hid
    have hvaultId := hopened.vaultId_eq hids hevent hid
    exact List.mem_map.mpr ⟨event, List.mem_filter.mpr ⟨hmem, by simpa [hvaultId]⟩, hid⟩

theorem hash_of_executeRedeem {r : Request}
    (h : c.executeRedeem E paymentMargin id = some r) : r.hash = id := by
  obtain ⟨request, -, hsome⟩ := Option.bind_eq_some_iff.mp h
  exact hash_of_fromRedeemRequest (Prog.ok_of_toOption hsome)

theorem mem_executeRedeem_iff {ids : List H256} (hids : c.DistinctIds)
    (hopened : c.OpenedAt h id request) :
    id ∈ (ids.filterMap (c.executeRedeem E paymentMargin)).map Request.hash ↔
      id ∈ ids ∧ ∃ r, Request.fromRedeemRequest (E := E) id request paymentMargin = .ok r := by
  have hexecute : c.executeRedeem E paymentMargin id =
      (Request.fromRedeemRequest (E := E) id request paymentMargin).toOption := by
    rw [Chain.executeRedeem, Chain.getRedeemRequest_eq hids hopened]
    rfl
  constructor
  · intro hmem
    obtain ⟨r, hr, rfl⟩ := List.mem_map.mp hmem
    obtain ⟨id', hid', hsome⟩ := List.mem_filterMap.mp hr
    obtain rfl := hash_of_executeRedeem hsome
    rw [hexecute] at hsome
    exact ⟨hid', r, Prog.ok_of_toOption hsome⟩
  · rintro ⟨hid, r, hconvert⟩
    have hsome : c.executeRedeem E paymentMargin id = some r := by
      rw [hexecute, hconvert]
      rfl
    exact List.mem_map.mpr ⟨r, List.mem_filterMap.mpr ⟨id, hid, hsome⟩, hash_of_executeRedeem hsome⟩

theorem handedOnce_iff_xor (hexecuting : Executing lib network c c' requests items [] w)
    (hdistinct : (requests.map Request.hash).Nodup) (hlistening : Listening vaults start s [] w)
    (hids : w.chain.DistinctIds) :
    HandedOnce paymentMargin w id ↔
      Xor (id ∈ (w.executor.tasks.filterMap Task.pays).map Request.hash)
        (id ∈ (w.listener.tasks.filterMap (w.chain.executeRedeem E paymentMargin)).map
          Request.hash) := by
  have hpays := hexecuting.nodup_pays hdistinct
  have hredeems : ((w.listener.tasks.filterMap (w.chain.executeRedeem E paymentMargin)).map
      Request.hash).Nodup := by
    refine List.Nodup.sublist ?_ (hlistening.nodup_tasks hids)
    have hkeys : ((w.listener.tasks.filterMap (w.chain.executeRedeem E paymentMargin)).map
        Request.hash).Sublist (w.listener.tasks.map fun id => id) :=
      keys_filterMap_sublist fun _ _ _ => hash_of_executeRedeem
    rwa [List.map_id'] at hkeys
  rw [HandedOnce, World.payers, List.map_append, List.count_append, hpays.count, hredeems.count]
  split <;> split <;> simp [Xor, *]

theorem btcHeight_of_fromRedeemRequest {r : Request}
    (h : Request.fromRedeemRequest (E := E) id request paymentMargin = .ok r) :
    r.btcHeight = some request.btcHeight := by
  obtain ⟨deadline, -, h⟩ := Prog.bind_eq_ok h
  cases h
  rfl

/-- The stream goes back to the bitcoin height of every open request. -/
theorem btcStartHeight_le {r : Request} (hr : r ∈ requests) {btcHeight : Nat}
    (hbtcHeight : r.btcHeight = some btcHeight) :
    ∃ stopHeight ≤ btcHeight, btcStartHeight requests = some stopHeight := by
  have hmem : btcHeight ∈ requests.map fun request => request.btcHeight.getD (2 ^ 32 - 1) :=
    List.mem_map.mpr ⟨r, hr, by rw [hbtcHeight]; rfl⟩
  cases hstop : btcStartHeight requests with
  | none =>
    rw [btcStartHeight, List.min?_eq_none_iff] at hstop
    rw [hstop] at hmem
    cases hmem
  | some stopHeight => exact ⟨stopHeight, (List.min?_eq_some_iff.mp hstop).2 _ hmem, rfl⟩

/-- Where a redeem request has gone when the executor and the listener have run beside each other.
-/
theorem handed_of_interleaves {order : MapOrder} {btcRpc : BtcRpc E N} {rounds : Nat}
    {chain : Chain}
    (hruns : Prog.Interleaves executorEnv (listenerEnv vaults) finalize
      (executeOpenRequests lib order btcRpc accountId paymentMargin).run
      (listenForRedeemRequests rounds) (World.start chain) (.pure (.ok ())) (.pure ()) w)
    (hids : w.chain.DistinctIds) (hopened : w.chain.OpenedAt h id request)
    (haccount : request.vault.accountId = accountId) (hvault : request.vault ∈ vaults)
    (hpending : w.chain.redeemStatus id = .pending) (hdelivered : Delivered w id) :
    ∃ q s items, w.executor.queried = some q ∧ w.listener.subscribed = some s ∧
      chain.head ≤ q ∧ chain.head ≤ s ∧
      (∀ r, Request.fromRedeemRequest (E := E) id request paymentMargin = .ok r → h ≤ q →
        ∃ stopHeight ≤ request.btcHeight,
          Streamed btcRpc stopHeight w.executor.node items) ∧
      (HandedOnce paymentMargin w id ↔
        ∃ r, Request.fromRedeemRequest (E := E) id request paymentMargin = .ok r ∧
          Xor (h ≤ q ∧ ¬PaymentSeen lib btcRpc.network items w.executor.lookups r) (s ≤ h)) := by
  have hcompatible : Prog.Compatible (executorEnv (E := E) (N := N)) (listenerEnv vaults) finalize
      ExecutorRely ListenerRely :=
    { refl_left := fun w => ⟨.refl _, rfl⟩
      refl_right := fun w => ⟨.refl _, rfl⟩
      trans_left := .trans
      trans_right := .trans
      left := executorEnv_listenerRely
      right := listenerEnv_executorRely
      other_left := fun h => ⟨h.1, h.2.1⟩
      other_right := fun h => ⟨h.1, h.2.2⟩ }
  have hexecutor : Prog.Keeps (executorInterfered E N) (fun _ => True)
      (executeOpenRequests lib order btcRpc accountId paymentMargin).run _ (World.start chain) :=
    keeps_executeOpenRequests order btcRpc accountId paymentMargin chain
  have hlistener : Prog.Keeps (listenerInterfered E N vaults) (fun _ => True)
      (listenForRedeemRequests rounds) _ (World.start chain) :=
    keeps_listenForRedeemRequests rounds rfl rfl
  have hstable (r : Except (Error E) Unit) : Prog.Stable ExecutorRely (Leaves (fun _ w' =>
      ∃ c c' items, c.Grows chain ∧ Executed lib btcRpc c c'
        (openRequests E accountId paymentMargin c c') items w') r) := by
    intro w w' hR h
    cases r with
    | error e => trivial
    | ok _ =>
      obtain ⟨c, c', items, hgrows, hexecuted⟩ := h
      exact ⟨c, c', items, hgrows, hexecuted.stable hR⟩
  have hstable' (_ : Unit) : Prog.Stable ListenerRely fun w' : World E N =>
      ∃ s, Listening vaults chain.head s [] w' := by
    rintro w w' hR ⟨s, hlistening⟩
    exact ⟨s, hlistening.stable hR⟩
  obtain ⟨⟨-, c, c', items, hstart, hexecuting, hstreamed⟩, -, s, hlistening⟩ :=
    Prog.Keeps.interleaves hcompatible (fun _ _ _ _ => trivial) (fun _ _ _ _ => trivial)
      hstable hstable' hexecutor hlistener hruns
  have hopen {r : Request} :
      r ∈ openRequests E accountId paymentMargin c c' ∧ r.hash = id ↔
        h ≤ c.head ∧ Request.fromRedeemRequest (E := E) id request paymentMargin = .ok r :=
    mem_openRequests hexecuting.grows hexecuting.grows' hids hopened haccount hpending
  refine ⟨c.head, s, items, hexecuting.queried, hlistening.subscribed, hstart.head_le,
    hlistening.start_le, fun r hconvert hle => ?_, ?_⟩
  · obtain ⟨stopHeight, hstop, heq⟩ := btcStartHeight_le (hopen.mpr ⟨hle, hconvert⟩).1
      (btcHeight_of_fromRedeemRequest hconvert)
    exact ⟨stopHeight, hstop, hstreamed stopHeight heq⟩
  · have hpaid : (∃ r ∈ openRequests E accountId paymentMargin c c', r.hash = id ∧
        ¬PaymentSeen lib btcRpc.network items w.executor.lookups r) ↔
        ∃ r, Request.fromRedeemRequest (E := E) id request paymentMargin = .ok r ∧
          h ≤ c.head ∧ ¬PaymentSeen lib btcRpc.network items w.executor.lookups r := by
      refine exists_congr fun r => ?_
      rw [← and_assoc, hopen, and_comm (a := h ≤ c.head), and_assoc]
    rw [handedOnce_iff_xor hexecuting (nodup_collect _) hlistening hids,
      hexecuting.mem_pays_iff (nodup_collect _), mem_executeRedeem_iff hids hopened,
      hlistening.mem_tasks_iff hids hopened hvault hdelivered, hpaid]
    cases hconvert : Request.fromRedeemRequest (E := E) id request paymentMargin with
    | error e => simp [Xor]
    | ok r => simp

end Payers

/-! ### The wait for a block -/

abbrev awaitEnv (E : Type) : Prog.Env (heightApi E) Chain :=
  Prog.interfere (fun c c' => c'.Grows c) heightEnv

theorem keeps_awaitParachainBlock (fuel : Nat) (c : Chain) :
    Prog.Keeps (awaitEnv E) (fun _ => True) (awaitParachainBlock fuel).run
      (Prog.Outcome (fun height c' => ∀ startupHeight, height = some startupHeight →
        startupHeight < c'.head) fun _ _ => True) c := by
  refine Prog.keeps_run_bind.mpr ⟨trivial, fun r c₁ hr => ⟨trivial, ?_⟩⟩
  obtain ⟨c₁, -, hheight, rfl⟩ := hr
  cases r with
  | error e => trivial
  | ok startupHeight =>
  refine Prog.keeps_run_iterate (fun _ c => startupHeight ≤ c.head) (fun _ c hc => ?_)
    (fun _ _ _ _ h => by cases h) fuel (hheight startupHeight rfl).le
  refine Prog.keeps_run_bind.mpr ⟨trivial, fun r c₃ hr => ⟨trivial, ?_⟩⟩
  obtain ⟨c₂, hgrows, hheight, rfl⟩ := hr
  have hle := hc.trans hgrows.head_le
  cases r with
  | error e => trivial
  | ok height =>
  have hheight := hheight height rfl
  dsimp only [Prog.Outcome]
  split
  next heq =>
    refine ⟨trivial, fun _ c₅ hc₅ => ⟨trivial, ?_⟩⟩
    obtain ⟨c₄, hgrows, rfl⟩ := hc₅
    exact hle.trans hgrows.head_le
  next hne =>
    refine ⟨trivial, fun _ h => ?_⟩
    cases h
    omega

/-! ### Schedules -/

section Schedules

/-- The answers to the execution of the open requests, with a bitcoin client that finds nothing. -/
def executorAnswer (w : World String noNode) :
    (call : Call noNode) → Option ((api String noNode).Answer call × World String noNode)
  | .getVaultRedeemRequests accountId =>
    some (.ok (w.chain.redeemRequests accountId), { w with executor.queried := some w.chain.head })
  | .getOldVaultReplaceRequests accountId => some (.ok (w.chain.replaceRequests accountId), w)
  | .getTxForOpReturn address amount data => some (.ok none,
      { w with executor.lookups := w.executor.lookups ++ [⟨address, amount, data, .ok none⟩] })
  | .node call => nomatch call
  | .spawn task => some ((), { w with executor.tasks := w.executor.tasks ++ [task] })

def listenerAnswer (vaults : List VaultId) (w : World String noNode) :
    (call : ListenerCall) → Option (listenerApi.Answer call × World String noNode)
  | .subscribeEvents => some ((), { w with listener.subscribed := some w.chain.head })
  | .nextEvent => do
    let s ← w.listener.subscribed
    let event ← (w.chain.events s)[w.listener.delivered]?
    some (event, { w with listener.delivered := w.listener.delivered + 1 })
  | .getVault vaultId => some (if vaultId ∈ vaults then some vaultId else none, w)
  | .spawn id => some ((), { w with listener.tasks := w.listener.tasks ++ [id] })

theorem executorEnv_answer {w w' : World String noNode} {call : Call noNode}
    {r : (api String noNode).Answer call} (h : executorAnswer w call = some (r, w')) :
    executorEnv w call r w' := by
  cases call with
  | node call => exact nomatch call
  | getVaultRedeemRequests accountId =>
    cases h
    exact ⟨fun _ h => by cases h; rfl, rfl⟩
  | getOldVaultReplaceRequests accountId =>
    cases h
    exact ⟨fun _ h => by cases h; rfl, rfl⟩
  | getTxForOpReturn address amount data =>
    cases h
    rfl
  | spawn task =>
    cases h
    rfl

theorem listenerEnv_answer {vaults : List VaultId} {w w' : World String noNode}
    {call : ListenerCall}
    {r : listenerApi.Answer call} (h : listenerAnswer vaults w call = some (r, w')) :
    listenerEnv vaults w call r w' := by
  cases call with
  | nextEvent =>
    obtain ⟨s, hs, h⟩ := Option.bind_eq_some_iff.mp h
    obtain ⟨event, hevent, h⟩ := Option.bind_eq_some_iff.mp h
    cases h
    exact ⟨s, hs, hevent, rfl⟩
  | subscribeEvents =>
    cases h
    rfl
  | getVault vaultId =>
    cases h
    exact ⟨rfl, rfl⟩
  | spawn id =>
    cases h
    rfl

def Chain.append (c : Chain) (block : Block) : Chain :=
  { c with
    blocks := c.blocks ++ [block]
    genesis := List.append_ne_nil_of_right_ne_nil _ (List.cons_ne_nil _ _) }

def finalizeBlock (block : Block) (w : World E N) : World E N :=
  { w with chain := w.chain.append block }

theorem finalize_finalizeBlock (block : Block) (w : World E N) :
    finalize w (finalizeBlock block w) :=
  ⟨⟨⟨[block], rfl⟩, fun _ h => h⟩, rfl, rfl⟩

def emptyBlock : Block := ⟨[], []⟩

def requestBlock : Block := ⟨[(7, pendingRedeem)], []⟩

def genesisChain (block : Block) : Chain :=
  ⟨[block], List.cons_ne_nil _ _, fun _ => .pending, fun _ => .pending⟩

/-- Whose turn it is, with the blocks that are finalized. -/
inductive StartTurn
  | executor
  | listener
  | block (block : Block)

def StartTurn.toTurn : StartTurn → Prog.Turn (World String noNode)
  | .executor => .left
  | .listener => .right
  | .block new => .other (finalizeBlock new)

/-- The light client's start for a vault with the default id. -/
abbrev playStart (block : Block) (rounds : Nat) (turns : List StartTurn) :
    Prog (api String noNode) (Except (Error String) Unit) × Prog listenerApi Unit ×
      World String noNode :=
  Prog.play executorAnswer (listenerAnswer [default]) (turns.map StartTurn.toTurn)
    ((executeOpenRequests hashingKeys .inOrder (.light .regtest) 0 7200000).run,
      listenForRedeemRequests rounds, World.start (genesisChain block))

theorem interleaves_playStart {block : Block} {rounds : Nat} {turns : List StartTurn}
    (hexecutor : (playStart block rounds turns).1.result? = some (.ok ()))
    (hlistener : (playStart block rounds turns).2.1.result? = some ()) :
    Prog.Interleaves executorEnv (listenerEnv [default]) finalize
      (executeOpenRequests hashingKeys .inOrder (.light .regtest) 0 7200000).run
      (listenForRedeemRequests rounds) (World.start (genesisChain block)) (.pure (.ok ()))
      (.pure ()) (playStart block rounds turns).2.2 := by
  have hother (move : World String noNode → World String noNode)
      (hmove : .other move ∈ turns.map StartTurn.toTurn)
      (w : World String noNode) : finalize w (move w) := by
    obtain ⟨first, -, heq⟩ := List.mem_map.mp hmove
    cases first with
    | executor => cases heq
    | listener => cases heq
    | block new =>
      cases heq
      exact finalize_finalizeBlock new w
  have hruns : Prog.Interleaves executorEnv (listenerEnv [default]) finalize _ _ _ _ _ _ :=
    Prog.interleaves_play executorEnv_answer listenerEnv_answer hother
      (executeOpenRequests hashingKeys .inOrder (.light .regtest) 0 7200000).run
      (listenForRedeemRequests rounds) (World.start (genesisChain block))
  rwa [Prog.eq_pure_of_result? hexecutor, Prog.eq_pure_of_result? hlistener] at hruns

/-- The request is open at genesis, and the subscription is opened one block later. -/
def inTurn : List StartTurn :=
  [.executor, .executor, .executor, .executor, .block emptyBlock, .listener]

/-- The subscription is opened at the block that the redeem requests have been read at. -/
def atOnce : List StartTurn :=
  [.executor, .executor, .executor, .executor, .listener, .listener, .listener, .listener]

/-- The request is opened after the redeem requests have been read, and before the block that the
subscription is opened at. -/
def tooLate : List StartTurn :=
  [.executor, .executor, .block requestBlock, .block emptyBlock, .listener]

end Schedules

/-! ### The start -/

section Start

variable {N : Interface} (lib : Lib E) (order : MapOrder) (btcRpc : BtcRpc E N)
variable (accountId : AccountId) (paymentMargin : Nat) (vaults : List VaultId) (rounds : Nat)

/-- After the wait the requests of the blocks up to the start-up height are left to the executor
alone. -/
theorem handedOnce_iff_of_le_startupHeight {fuel startupHeight : Nat} {c chain : Chain}
    {w : World E N}
    (hawait : Prog.Runs (awaitEnv E) (awaitParachainBlock fuel).run c
      (.pure (.ok (some startupHeight))) chain)
    (hruns : Prog.Interleaves executorEnv (listenerEnv vaults) finalize
      (executeOpenRequests lib order btcRpc accountId paymentMargin).run
      (listenForRedeemRequests rounds) (World.start chain) (.pure (.ok ())) (.pure ()) w)
    (hids : w.chain.DistinctIds) {h : Nat} {id : H256} {request : InterBtcRedeemRequest}
    (hopened : w.chain.OpenedAt h id request) (hle : h ≤ startupHeight)
    (haccount : request.vault.accountId = accountId) (hvault : request.vault ∈ vaults)
    (hpending : w.chain.redeemStatus id = .pending) (hdelivered : Delivered w id) :
    ∃ items,
      (∀ r, Request.fromRedeemRequest (E := E) id request paymentMargin = .ok r →
        ∃ stopHeight ≤ request.btcHeight,
          Streamed btcRpc stopHeight w.executor.node items) ∧
      (HandedOnce paymentMargin w id ↔
        ∃ r, Request.fromRedeemRequest (E := E) id request paymentMargin = .ok r ∧
          ¬PaymentSeen lib btcRpc.network items w.executor.lookups r) := by
  obtain ⟨q, s, items, -, -, hq, hs, hstreamed, hiff⟩ :=
    handed_of_interleaves hruns hids hopened haccount hvault hpending hdelivered
  have hstart := (keeps_awaitParachainBlock fuel c).returns hawait startupHeight rfl
  have hquery : h ≤ q := by omega
  have hlate : ¬s ≤ h := by omega
  refine ⟨items, fun r hconvert => hstreamed r hconvert hquery, ?_⟩
  rw [hiff]
  simp [Xor, hquery, hlate]

/-- A redeem request of a vault, opened in block `h`, with deadlines that can be worked out, is
handed to exactly one payer when exactly one of two things holds: the redeem requests have been read
at `h` or later and the bitcoin client has answered with no payment, or the subscription has been
opened at `h` or before. -/
theorem handedOnce_iff {chain : Chain} {w : World E N}
    (hruns : Prog.Interleaves executorEnv (listenerEnv vaults) finalize
      (executeOpenRequests lib order btcRpc accountId paymentMargin).run
      (listenForRedeemRequests rounds) (World.start chain) (.pure (.ok ())) (.pure ()) w)
    (hids : w.chain.DistinctIds) {h : Nat} {id : H256} {request : InterBtcRedeemRequest}
    (hopened : w.chain.OpenedAt h id request) (haccount : request.vault.accountId = accountId)
    (hvault : request.vault ∈ vaults) (hpending : w.chain.redeemStatus id = .pending)
    (hdelivered : Delivered w id) :
    ∃ q s items, w.executor.queried = some q ∧ w.listener.subscribed = some s ∧
      (∀ r, Request.fromRedeemRequest (E := E) id request paymentMargin = .ok r → h ≤ q →
        ∃ stopHeight ≤ request.btcHeight,
          Streamed btcRpc stopHeight w.executor.node items) ∧
      (HandedOnce paymentMargin w id ↔
        ∃ r, Request.fromRedeemRequest (E := E) id request paymentMargin = .ok r ∧
          Xor (h ≤ q ∧ ¬PaymentSeen lib btcRpc.network items w.executor.lookups r) (s ≤ h)) := by
  obtain ⟨q, s, items, hq, hs, -, -, hstreamed, hiff⟩ :=
    handed_of_interleaves hruns hids hopened haccount hvault hpending hdelivered
  exact ⟨q, s, items, hq, hs, hstreamed, hiff⟩

/-- The request is left to the executor. -/
theorem handedOnce_iff_inTurn :
    ∃ q s items, (playStart requestBlock 0 inTurn).2.2.executor.queried = some q ∧
      (playStart requestBlock 0 inTurn).2.2.listener.subscribed = some s ∧
      (∀ r, Request.fromRedeemRequest (E := String) 7 pendingRedeem 7200000 = .ok r → 0 ≤ q →
        ∃ stopHeight ≤ pendingRedeem.btcHeight, Streamed (.light (E := String) .regtest) stopHeight
          (playStart requestBlock 0 inTurn).2.2.executor.node items) ∧
      (HandedOnce 7200000 (playStart requestBlock 0 inTurn).2.2 7 ↔
        ∃ r, Request.fromRedeemRequest (E := String) 7 pendingRedeem 7200000 = .ok r ∧
          Xor (0 ≤ q ∧ ¬PaymentSeen hashingKeys .regtest items
            (playStart requestBlock 0 inTurn).2.2.executor.lookups r) (s ≤ 0)) := by
  have hexecutor : (playStart requestBlock 0 inTurn).1.result? = some (.ok ()) := by decide +kernel
  have hlistener : (playStart requestBlock 0 inTurn).2.1.result? = some () := by decide +kernel
  have hruns := interleaves_playStart hexecutor hlistener
  refine handedOnce_iff hashingKeys .inOrder (.light .regtest) 0 7200000 [default] 0 hruns
    (by decide +kernel) ⟨requestBlock, rfl, List.mem_singleton.mpr rfl⟩ rfl
    (List.mem_singleton.mpr rfl) rfl fun s hs event hevent _ => ?_
  obtain rfl : s = 1 := Option.some.inj (hs.symm.trans (by decide +kernel))
  exact (List.not_mem_nil hevent).elim

/-- The request of genesis is paid twice, and the one of the next block by nobody. -/
theorem not_handedOnce :
    ((playStart requestBlock 1 atOnce).2.2.payers 7200000).map Request.hash = [7, 7] ∧
      ((playStart emptyBlock 0 tooLate).2.2.payers 7200000).map Request.hash = [] ∧
      Prog.Interleaves executorEnv (listenerEnv [default]) finalize
        (executeOpenRequests hashingKeys .inOrder (.light .regtest) 0 7200000).run
        (listenForRedeemRequests 1) (World.start (genesisChain requestBlock)) (.pure (.ok ()))
        (.pure ()) (playStart requestBlock 1 atOnce).2.2 ∧
      Prog.Interleaves executorEnv (listenerEnv [default]) finalize
        (executeOpenRequests hashingKeys .inOrder (.light .regtest) 0 7200000).run
        (listenForRedeemRequests 0) (World.start (genesisChain emptyBlock)) (.pure (.ok ()))
        (.pure ()) (playStart emptyBlock 0 tooLate).2.2 :=
  ⟨by decide +kernel, by decide +kernel,
    interleaves_playStart (by decide +kernel) (by decide +kernel),
    interleaves_playStart (by decide +kernel) (by decide +kernel)⟩

end Start

end InterBtcClients.Vault.Startup
