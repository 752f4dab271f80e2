import InterBtcClients.Bitcoin.Core

/-! The chains that a node can be on: lists of block hashes from the first block on, each with its
height and its parent fixed by the block. -/

namespace InterBtcClients.Bitcoin

/-- The blocks by their hashes, with the heights that their ancestors give them. -/
structure BlockTree where
  block : BlockHash → Block
  height : BlockHash → Nat

namespace BlockTree

variable (tree : BlockTree)

/-- The hash at position `i` is that of a block of height `i`, and of a child of the one before. -/
structure IsChain (chain : List BlockHash) : Prop where
  height : ∀ {i hash}, chain[i]? = some hash → tree.height hash = i
  parent : ∀ {i hash}, chain[i + 1]? = some hash →
    chain[i]? = some (tree.block hash).prevBlockhash

def txids {E : Type} (lib : Lib E) (hash : BlockHash) : List Txid :=
  (tree.block hash).txdata.map lib.txid

/-- How many blocks of the chain there are from the block on, if it is one of them. -/
def depth (chain : List BlockHash) (hash : BlockHash) : Option Nat :=
  if chain[tree.height hash]? = some hash then some (chain.length - tree.height hash) else none

variable {tree} {chain : List BlockHash} {hash : BlockHash} {i : Nat}

theorem IsChain.depth_eq (h : tree.IsChain chain) (hhash : chain[i]? = some hash) :
    tree.depth chain hash = some (chain.length - i) := by
  rw [depth, h.height hhash, if_pos hhash]

theorem isChain_iff : tree.IsChain chain ↔ ∀ i : Fin chain.length,
    tree.height chain[i] = i ∧
      (i.val = 0 ∨ chain[i.val - 1]? = some (tree.block chain[i]).prevBlockhash) := by
  constructor
  · refine fun h i => ⟨h.height (List.getElem?_eq_getElem i.isLt), ?_⟩
    rcases i with ⟨_ | i, hi⟩
    · exact .inl rfl
    · exact .inr (h.parent (List.getElem?_eq_getElem hi))
  · refine fun h => ⟨fun {i hash} hhash => ?_, fun {i hash} hhash => ?_⟩
    · obtain ⟨hi, rfl⟩ := List.getElem?_eq_some_iff.mp hhash
      exact (h ⟨i, hi⟩).1
    · obtain ⟨hi, rfl⟩ := List.getElem?_eq_some_iff.mp hhash
      exact (h ⟨i + 1, hi⟩).2.resolve_left (Nat.succ_ne_zero i)

instance : Decidable (tree.IsChain chain) := decidable_of_iff' _ isChain_iff

theorem depth_eq_some_iff {n : Nat} : tree.depth chain hash = some n ↔
    chain[tree.height hash]? = some hash ∧ n = chain.length - tree.height hash := by
  rw [depth]
  split
  next hmem => simp [hmem, eq_comm]
  next hmem => simp [hmem]

end BlockTree

end InterBtcClients.Bitcoin
