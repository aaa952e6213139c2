import Bleep.SigCommitment
import Bleep.Library.HashTable
import Bleep.Library.MerkleLevels
import Bleep.Library.Results

namespace Bleep

open HashTable Vector MerkleLevels

/-- `checked_next_power_of_two` on a `usize`. -/
def checkedNextPowerOfTwo (n : Nat) : Option Nat :=
  if n.nextPowerOfTwo < 2 ^ 64 then some n.nextPowerOfTwo else none

inductive MerkleError
  | emptyTree
  | invalidProof (message : String)
  | leafNotFound (message : String)
  | proofVerificationFailed (message : String)
  | treeImmutable
  deriving DecidableEq

structure MerkleLeaf where
  index : U64
  data : Bytes
  hash : Hash32

/-- A leaf has no children, a branch has two; both hold their own hash. -/
inductive MerkleNode
  | leaf (hash : Hash32)
  | branch (hash : Hash32) (left right : MerkleNode)

def MerkleNode.hash : MerkleNode → Hash32
  | leaf hash => hash
  | branch hash _ _ => hash

structure MerkleTree.MerkleProof where
  leafIndex : U64
  leafHash : Hash32
  path : List Hash32
  paddedLen : Nat
  root : Hash32

structure MerkleTree where
  leaves : List MerkleLeaf
  root : Option MerkleNode
  rootHash : Option Hash32
  finalized : Bool
  leafIndex : HashMap U64 Nat

/-- The proof of the signature tree, with its index in a `usize`. -/
structure SigCommitmentTree.MerkleProof where
  leafIndex : Nat
  leaf : Hash32
  path : List Hash32
  paddedN : Nat

section
variable (hashes : Hashes)

/-- `merkle_hash_node` at an enumerated position. -/
def merkleNodeAt (left right : Hash32) (position : Nat) : Hash32 :=
  merkleHashNode hashes left right (BitVec.ofNat 64 position)

/-- The leaves resized to the padded length. -/
def padLeaves (paddedLen : Nat) (leaves : List Hash32) : List Hash32 :=
  leaves ++ List.replicate (paddedLen - leaves.length) (merkleEmptyLeaf hashes)

def merkleRootFromHashes (leaves : List Hash32) : Option Hash32 :=
  match checkedNextPowerOfTwo leaves.length with
  | none => none
  | some paddedLen =>
    if leaves.isEmpty then none
    else
      let level := collapse (merkleNodeAt hashes) (padLeaves hashes paddedLen leaves)
      some (versionMerkleRoot hashes (level.headD (replicate 32 0)))

/-- Of a power of two, `trailing_zeros` is the logarithm. -/
def verifyMerklePath (root leafHash : Hash32) (leafIndex paddedLen : Nat) (path : List Hash32) : Bool :=
  if paddedLen = 0 ∨ 2 ^ paddedLen.log2 ≠ paddedLen ∨ paddedLen ≤ leafIndex ∨ path.length ≠ paddedLen.log2 then false
  else versionMerkleRoot hashes (climb (merkleNodeAt hashes) leafHash leafIndex path) == root

def MerkleLeaf.new (index : U64) (data : Bytes) : MerkleLeaf := ⟨index, data, merkleHashLeaf hashes data⟩

/-- `MerkleNode::branch`. -/
def MerkleNode.join (left right : MerkleNode) (position : Nat) : MerkleNode :=
  .branch (merkleNodeAt hashes left.hash right.hash position) left right

def MerkleTree.MerkleProof.verify (self : MerkleTree.MerkleProof) (root : Hash32) : Except MerkleError Unit :=
  if self.root ≠ root then .error (.invalidProof "Proof root does not match expected root")
  else if verifyMerklePath hashes root self.leafHash self.leafIndex.toNat self.paddedLen self.path then .ok ()
  else .error (.proofVerificationFailed "Computed root does not match expected root")

namespace MerkleTree

def new : MerkleTree := ⟨[], none, none, false, ∅⟩

variable (self : MerkleTree)

def addLeaf (data : Bytes) : Except MerkleError (U64 × MerkleTree) :=
  if self.finalized then .error .treeImmutable
  else
    let index := BitVec.ofNat 64 self.leaves.length
    .ok (index, { self with
      leafIndex := self.leafIndex.insert index self.leaves.length
      leaves := self.leaves ++ [MerkleLeaf.new hashes index data] })

def finalize : Except MerkleError (Hash32 × MerkleTree) :=
  if self.finalized then .ok (self.rootHash.getD (replicate 32 0), self)
  else if self.leaves.isEmpty then .error .emptyTree
  else
    match checkedNextPowerOfTwo self.leaves.length with
    | none => .error (.invalidProof "Tree is too large")
    | some paddedLen =>
      let nodes := self.leaves.map (fun leaf => MerkleNode.leaf leaf.hash) ++
        List.replicate (paddedLen - self.leaves.length) (.leaf (merkleEmptyLeaf hashes))
      let root := (collapse (MerkleNode.join hashes) nodes).headD (.leaf (replicate 32 0))
      let rootHash := versionMerkleRoot hashes root.hash
      .ok (rootHash, { self with root := some root, rootHash := some rootHash, finalized := true })

def proveInclusion (leafIndex : U64) : Except MerkleError MerkleProof :=
  if self.finalized = false then .error (.invalidProof "Tree not finalized")
  else
    match self.leafIndex.lookup leafIndex with
    | none => .error (.leafNotFound s!"Leaf {leafIndex.toNat} not found")
    | some position =>
      let leaves := self.leaves.map MerkleLeaf.hash
      let paddedLen := self.leaves.length.nextPowerOfTwo
      .ok {
        leafIndex := leafIndex
        leafHash := leaves.getD position (replicate 32 0)
        path := beside (merkleNodeAt hashes) (replicate 32 0)
          (padLeaves hashes paddedLen leaves) position
        paddedLen := paddedLen
        root := self.rootHash.getD (replicate 32 0) }

/-- The tree after `add_leaf` for each piece of data in turn. -/
def withLeaves (data : List Bytes) : Except MerkleError MerkleTree :=
  data.foldlM (fun tree piece => (tree.addLeaf hashes piece).map Prod.snd) MerkleTree.new

end MerkleTree

namespace SigCommitmentTree

/-- The walk of `generate_proof` from a position of the array up to the root. -/
def siblings (nodes : Array Hash32) (pos : Nat) : List Hash32 :=
  if 1 < pos then
    nodes.getD (if pos % 2 = 0 then pos + 1 else pos - 1) (replicate 32 0) :: siblings nodes (pos / 2)
  else []
termination_by pos
decreasing_by omega

/-- The source asserts that the index is below the leaf count. -/
def generateProof (self : SigCommitmentTree) (leafIdx : Nat) : MerkleProof where
  leafIndex := leafIdx
  leaf := self.nodes.getD (self.paddedN + leafIdx) (replicate 32 0)
  path := siblings self.nodes (self.paddedN + leafIdx)
  paddedN := self.paddedN

end SigCommitmentTree

def verifyCommitmentRoot (root : Hash32) (sigHashes : List Hash32) : Bool :=
  if sigHashes.isEmpty then false else (SigCommitmentTree.new hashes sigHashes).root hashes == root

end

end Bleep
