import InterBtcClients.Bitcoin.Chain
import InterBtcClients.Relay.Runner

/-! The two sides of the relay: the chain that the node is on, and the headers that the parachain
has stored from some height on, with its main chain among them.  `serving` are the surroundings of a
call of the runner, in which the node stays on its chain and no request fails for reasons of its
own. -/

namespace InterBtcClients.Relay

open Library
open Bitcoin (BlockHash BlockTree)

/-- The blocks that there are, with their headers as they are serialised. -/
structure Blocks extends BlockTree where
  rawHeader : BlockHash → RawBlockHeader

/-- A chain that a node is on.  The hash 0 is that of no block. -/
structure BackingChain (lib : Lib) (blocks : Blocks) where
  chain : List BlockHash
  isChain : blocks.IsChain chain
  bounded : chain.length ≤ 2 ^ 31
  hash_rawHeader : ∀ hash ∈ chain, lib.hash (blocks.rawHeader hash) = hash
  zero_notMem : 0 ∉ chain

/-- What an initialised relay has stored: headers from its initial height on, with their parents
down to there, and among them its main chain. -/
structure BtcRelay (blocks : Blocks) where
  initialHeight : Nat
  stored : List BlockHash
  main : List BlockHash
  initialHeight_pos : 0 < initialHeight
  main_ne_nil : main ≠ []
  main_subset : main ⊆ stored
  main_height : ∀ i : Fin main.length, blocks.height main[i] = initialHeight + i
  main_isChain : main.IsChain fun parent hash => (blocks.block hash).prevBlockhash = parent
  initialHeight_le : ∀ hash ∈ stored, initialHeight ≤ blocks.height hash
  parent_mem : ∀ hash ∈ stored, initialHeight < blocks.height hash →
    (blocks.block hash).prevBlockhash ∈ stored
  zero_notMem : 0 ∉ stored

variable {E : Type} {lib : Lib} {blocks : Blocks}

namespace BackingChain

variable (backing : BackingChain lib blocks)

/-- The height of its last block. -/
def blockCount : Nat := backing.chain.length - 1

def Shares (relay : BtcRelay blocks) : Prop := ∃ hash ∈ relay.main, hash ∈ backing.chain

end BackingChain

namespace BtcRelay

variable (relay : BtcRelay blocks)

def bestBlock : BlockHash := relay.main.getLast relay.main_ne_nil

def bestHeight : Nat := relay.initialHeight + relay.main.length - 1

/-- The header of the main chain at a height. -/
def mainAt (height : Nat) : Option BlockHash :=
  if relay.initialHeight ≤ height then relay.main[height - relay.initialHeight]? else none

/-- The relay has become `relay'` by storing a header, which is then the best one or on a fork. -/
structure Stores (hash : BlockHash) (relay' : BtcRelay blocks) : Prop where
  fresh : hash ∉ relay.stored
  parent : (blocks.block hash).prevBlockhash ∈ relay.stored
  initialHeight : relay'.initialHeight = relay.initialHeight
  stored : relay'.stored = hash :: relay.stored
  main : relay'.main = relay.main ∨ relay'.bestBlock = hash

/-- A batch ends with the first header that cannot be stored. -/
inductive StoresAll : BtcRelay blocks → List BlockHash → BtcRelay blocks → Prop
  | nil (relay : BtcRelay blocks) : StoresAll relay [] relay
  | cons {relay relay₁ relay' : BtcRelay blocks} {hash : BlockHash} {hashes : List BlockHash} :
      relay.Stores hash relay₁ → StoresAll relay₁ hashes relay' →
      StoresAll relay (hash :: hashes) relay'
  | refused {relay : BtcRelay blocks} {hash : BlockHash} {hashes : List BlockHash} :
      (∀ relay', ¬relay.Stores hash relay') → StoresAll relay (hash :: hashes) relay

end BtcRelay

/-- The parachain's relay and all headers that have been submitted to it, in this order. -/
structure State (blocks : Blocks) where
  relay : BtcRelay blocks
  submitted : List RawBlockHeader

/-- A height without a block, or a hash without a header, is answered with the default. -/
def answer (backing : BackingChain lib blocks) (relay : BtcRelay blocks) :
    (query : Query) → (queries E).Answer query
  | .getBlockCount => .ok backing.blockCount
  | .getBlockHash height => backing.chain[height]?.elim (.error .invalidBitcoinHeight) .ok
  | .getBlockHeader hash => .ok (blocks.rawHeader hash)
  | .getBestBlock => .ok relay.bestBlock
  | .getBestBlockHeight => .ok relay.bestHeight
  | .getRelayBlockHash height => .ok ((relay.mainAt height).getD 0)
  | .getRelayBlockHeader hash => .ok ⟨if hash ∈ relay.stored then blocks.height hash else 0⟩
  | .delay _ => .ok ()
  | .sleep => ()

/-- A header is refused only when it cannot be stored, and a relay is not initialised again. -/
def serving (backing : BackingChain lib blocks) : Prog.Env (api E) (State blocks)
  | s, .query query, r, s' => r = answer backing s.relay query ∧ s' = s
  | s, .initializeBtcRelay _ _, r, s' => (∃ e, r = .error e) ∧ s' = s
  | s, .storeBlockHeader header, r, s' =>
    (r = .ok () ∧ s.relay.Stores (lib.hash header) s'.relay ∨
      (∃ e, r = .error e) ∧ (∀ relay', ¬s.relay.Stores (lib.hash header) relay') ∧
        s'.relay = s.relay) ∧
      s'.submitted = s.submitted ++ [header]
  | s, .storeBlockHeaders headers, r, s' =>
    r = .ok () ∧ s.relay.StoresAll (headers.map lib.hash) s'.relay ∧
      s'.submitted = s.submitted ++ headers

/-! ### The main chain -/

section Main

variable {relay : BtcRelay blocks} {backing : BackingChain lib blocks} {hash : BlockHash}

theorem BtcRelay.mainAt_height (hmem : hash ∈ relay.main) :
    relay.mainAt (blocks.height hash) = some hash ∧ relay.initialHeight ≤ blocks.height hash ∧
      blocks.height hash ≤ relay.bestHeight := by
  obtain ⟨i, hi, rfl⟩ := List.getElem_of_mem hmem
  have hheight : blocks.height relay.main[i] = relay.initialHeight + i := relay.main_height ⟨i, hi⟩
  refine ⟨?_, by omega, ?_⟩
  · rw [hheight, mainAt, if_pos (Nat.le_add_right _ _), Nat.add_sub_cancel_left,
      List.getElem?_eq_getElem hi]
  · unfold bestHeight
    omega

theorem BtcRelay.height_bestBlock (relay : BtcRelay blocks) :
    blocks.height relay.bestBlock = relay.bestHeight := by
  have hne := List.length_pos_of_ne_nil relay.main_ne_nil
  have hheight := relay.main_height ⟨relay.main.length - 1, by omega⟩
  rw [bestBlock, List.getLast_eq_getElem]
  unfold bestHeight
  simp only [Fin.getElem_fin] at hheight
  omega

theorem BtcRelay.bestBlock_ne_zero (relay : BtcRelay blocks) : relay.bestBlock ≠ 0 := by
  intro hzero
  refine relay.zero_notMem ?_
  rw [← hzero]
  exact relay.main_subset (List.getLast_mem relay.main_ne_nil)

theorem BackingChain.Shares.bestBlock (hmem : relay.bestBlock ∈ backing.chain) :
    backing.Shares relay :=
  ⟨_, List.getLast_mem relay.main_ne_nil, hmem⟩

end Main

/-! ### Chains of a test network -/

/-- A block with what the hash functions make of its header. -/
structure TestBlock where
  header : RawBlockHeader
  sha256 : Runtime.H256
  hash : BlockHash
  prevBlockhash : BlockHash
  height : Nat

def genesis : TestBlock where
  header :=
    Bitcoin.toBytes 36 0x010000000000000000000000000000000000000000000000000000000000000000000000 ++
    Bitcoin.toBytes 32 0x3ba3edfd7a7b12b27ac72c3e67768f617fc81bc3888a51323a9fb8aa4b1e5e4a ++
    Bitcoin.toBytes 12 0xdae5494dffff7f2002000000
  sha256 := 0x6d70f6956fb70359ed8346c65ef450be459cada75445e4363575a54e47ca417d
  hash := 0x06226e46111a0b59caaf126043eb5bbf28c34f3a5e332a1fc7b2b73cf188910f
  prevBlockhash := 0
  height := 0

def firstBlock : TestBlock where
  header :=
    Bitcoin.toBytes 36 0x0000002006226e46111a0b59caaf126043eb5bbf28c34f3a5e332a1fc7b2b73cf188910f ++
    Bitcoin.toBytes 32 0xacd3e07eff34431a904a2b147ef7432346153ce755938b5e62f2f7cc5f789dac ++
    Bitcoin.toBytes 12 0x32e8494dffff7f2004000000
  sha256 := 0x08afea873115e61bf553035d908a6c6405504aee79ab53426ed665d469cc3a3e
  hash := 0xb1a81d797c182795c23631903cc216eaf7543b18eb49bcb70dceae4cb75a6a2e
  prevBlockhash := genesis.hash
  height := 1

def secondBlock : TestBlock where
  header :=
    Bitcoin.toBytes 36 0x00000020b1a81d797c182795c23631903cc216eaf7543b18eb49bcb70dceae4cb75a6a2e ++
    Bitcoin.toBytes 32 0x09bf29dab895dc58a857cefa18dad249634bce72d1a21e56b68f67ba17b6e71b ++
    Bitcoin.toBytes 12 0x8aea494dffff7f2000000000
  sha256 := 0x3d9543f2263efd27674697ce62b027a350462299eb981fce36f0f5cf15b36583
  hash := 0x7485c0ed3a24978941227f4d01bf22c285610511223d15cdc6b264e6a7f9cb17
  prevBlockhash := firstBlock.hash
  height := 2

def thirdBlock : TestBlock where
  header :=
    Bitcoin.toBytes 36 0x000000207485c0ed3a24978941227f4d01bf22c285610511223d15cdc6b264e6a7f9cb17 ++
    Bitcoin.toBytes 32 0xfc29356106dbfc606407dcf07c9feabe4da0de1f3487cc8762aca09b7351fc10 ++
    Bitcoin.toBytes 12 0xe2ec494dffff7f2000000000
  sha256 := 0x47bdd8896c0101c348c97932f3b038814f7a615cd4f183985466bfa35a23a8a2
  hash := 0xac7f8307e61445a615c9662439893d04a16b75859b8f87eb801ca3ab6426c457
  prevBlockhash := secondBlock.hash
  height := 3

/-- Another block after the first one. -/
def forkBlock : TestBlock where
  header :=
    Bitcoin.toBytes 36 0x00000020b1a81d797c182795c23631903cc216eaf7543b18eb49bcb70dceae4cb75a6a2e ++
    Bitcoin.toBytes 32 0xbc5a4638dfbd9e4d1ef79dcdc9f0d0134a8d0421d195b24ba1a28fa06a440e53 ++
    Bitcoin.toBytes 12 0x8aea494dffff7f2000000000
  sha256 := 0xc4653fccc0c7b73e752a88db93c1f5f3e5120a29150658a47a88b612df928950
  hash := 0x8dcc50454603a4135b5d0cf5688d3464e33d63c0e06c92643daa1bffb816fc6b
  prevBlockhash := firstBlock.hash
  height := 2

def testBlocks : List TestBlock := [genesis, firstBlock, secondBlock, thirdBlock, forkBlock]

def testLib : Lib where
  sha256 bytes := ((testBlocks.find? (·.header = bytes)).map TestBlock.sha256).getD 0
  hash header := ((testBlocks.find? (·.header = header)).map TestBlock.hash).getD 0

def testNet : Blocks where
  block hash := ⟨((testBlocks.find? (·.hash = hash)).map TestBlock.prevBlockhash).getD 0, []⟩
  height hash := ((testBlocks.find? (·.hash = hash)).map TestBlock.height).getD 0
  rawHeader hash := ((testBlocks.find? (·.hash = hash)).map TestBlock.header).getD []

theorem forall_mem_of_all {P : BlockHash → Prop} [DecidablePred P] {hashes : List BlockHash}
    (h : hashes.all fun hash => P hash) : ∀ hash ∈ hashes, P hash := by
  simpa using h

def highChain : BackingChain testLib testNet where
  chain := [genesis.hash, firstBlock.hash, secondBlock.hash, thirdBlock.hash]
  isChain := by decide +kernel
  bounded := by decide
  hash_rawHeader := forall_mem_of_all (by decide +kernel)
  zero_notMem := by decide +kernel

def forkChain : BackingChain testLib testNet where
  chain := [genesis.hash, firstBlock.hash, forkBlock.hash]
  isChain := by decide +kernel
  bounded := by decide
  hash_rawHeader := forall_mem_of_all (by decide +kernel)
  zero_notMem := by decide +kernel

end InterBtcClients.Relay
