import Bleep.Crypto

namespace Bleep

def merkleFormatVersion : UInt8 := 1
def merkleLeafDomain : Bytes := utf8 "bleep_sal_leaf_v1"
def merkleNodeDomain : Bytes := utf8 "bleep_sal_node_v1"
def merkleEmptyDomain : Bytes := utf8 "bleep_sal_empty_v1"
def merkleRootDomain : Bytes := utf8 "bleep_merkle_root_v1"

section
variable (hashes : Hashes)

def merkleHashLeaf (data : Bytes) : Hash32 := hashes.sha3 (merkleLeafDomain ++ data)

def merkleHashNode (left right : Hash32) (parentPosition : U64) : Hash32 :=
  hashes.blake3 (merkleNodeDomain ++ [UInt8.ofNat (parentPosition &&& 1).toNat] ++ left.toList ++ right.toList)

def merkleEmptyLeaf : Hash32 := hashes.blake3 merkleEmptyDomain

def versionMerkleRoot (root : Hash32) : Hash32 :=
  hashes.blake3 (merkleRootDomain ++ [merkleFormatVersion] ++ root.toList)

/-- The level-order array of the source: the leaves fill the second half,
the root is at position 1 and position 0 is unused. -/
structure SigCommitmentTree where
  leafCount : Nat
  nodes : Array Hash32
  paddedN : Nat

/-- One turn of the bottom-up loop: node `i` from its two children. -/
def SigCommitmentTree.setNode (nodes : Array Hash32) (i : Nat) : Array Hash32 :=
  let levelStart := 2 ^ Nat.log2 i
  nodes.setIfInBounds i
    (merkleHashNode hashes (nodes.getD (2 * i) (Vector.replicate 32 0))
      (nodes.getD (2 * i + 1) (Vector.replicate 32 0)) (BitVec.ofNat 64 (i - levelStart)))

/-- The source asserts a non-empty list, which its callers check. -/
def SigCommitmentTree.new (sigHashes : List Hash32) : SigCommitmentTree :=
  let paddedN := Nat.nextPowerOfTwo sigHashes.length
  let leaves := sigHashes ++ List.replicate (paddedN - sigHashes.length) (merkleEmptyLeaf hashes)
  let nodes := (List.replicate paddedN (Vector.replicate 32 0) ++ leaves).toArray
  { leafCount := sigHashes.length
    nodes := (List.range' 1 (paddedN - 1)).reverse.foldl (SigCommitmentTree.setNode hashes) nodes
    paddedN := paddedN }

def SigCommitmentTree.root (tree : SigCommitmentTree) : Hash32 :=
  versionMerkleRoot hashes (tree.nodes.getD 1 (Vector.replicate 32 0))

def computeSigCommitment (sigs : List Bytes) : Hash32 × List Hash32 :=
  let sigHashes := sigs.map (merkleHashLeaf hashes)
  ((SigCommitmentTree.new hashes sigHashes).root hashes, sigHashes)

end

end Bleep
