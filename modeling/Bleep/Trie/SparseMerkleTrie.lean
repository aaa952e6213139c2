import Bleep.Crypto
import Bleep.Library.HashTable
import Bleep.Trie.Path

namespace Bleep
open HashTable

structure SparseMerkleTrie where
  leaves : HashMap Hash32 NodeHash
  cachedRoot : Option NodeHash
  interiorCache : HashMap (Nat × Hash32) NodeHash

structure ProofNode where
  sibling : NodeHash
  isRight : Bool
  deriving DecidableEq

structure MerkleProof where
  address : String
  «exists» : Bool
  leaf : NodeHash
  path : List ProofNode
  root : NodeHash
  deriving DecidableEq

section
variable (blake3 : Bytes → Hash32)

def leafHash (address : String) (balance : U128) (nonce : U64) : NodeHash :=
  blake3 (utf8 address ++ Words.leBytes 16 balance.toNat ++ le64 nonce)

def keyToPath (address : String) : Hash32 := blake3 (utf8 address)

def interiorHash (left right : NodeHash) : NodeHash := blake3 (left.toList ++ right.toList)

variable (σ : IterOrder)

/-- The parents of one level: `parents.entry(..).or_insert((EMPTY, EMPTY))`
for every node of the level below, in the order the map yields them. -/
def collectParents (depth : Nat) (level : HashMap Hash32 NodeHash) :
    HashMap Hash32 (NodeHash × NodeHash) :=
  (σ.iter (2 * depth) level).foldl
    (addChild (fun path => masked path depth) (fun path => bitAt path depth != 0) emptyNode) ∅

/-- One turn of the loop over the depths. -/
def levelStep (state : HashMap Hash32 NodeHash × HashMap (Nat × Hash32) NodeHash)
    (depth : Nat) : HashMap Hash32 NodeHash × HashMap (Nat × Hash32) NodeHash :=
  let nodes := (σ.iter (2 * depth + 1) (collectParents σ depth state.1)).map
    fun parent => (parent.1, interiorHash blake3 parent.2.1 parent.2.2)
  (insertAll ∅ nodes, insertAll state.2 (nodes.map fun node => ((depth, node.1), node.2)))

namespace SparseMerkleTrie

def new : SparseMerkleTrie := ⟨∅, none, ∅⟩

variable (trie : SparseMerkleTrie)

def invalidateCaches : SparseMerkleTrie :=
  { trie with cachedRoot := none, interiorCache := ∅ }

def insert (trie : SparseMerkleTrie) (address : String) (balance : U128) (nonce : U64) : SparseMerkleTrie :=
  { trie with
    leaves := trie.leaves.insert (keyToPath blake3 address) (leafHash blake3 address balance nonce)
  }.invalidateCaches

def remove (address : String) : SparseMerkleTrie :=
  { trie with leaves := trie.leaves.erase (keyToPath blake3 address) }.invalidateCaches

/-- The root and the filled cache. The caller has cleared the cache. -/
def computeRootWithCache :
    NodeHash × HashMap (Nat × Hash32) NodeHash :=
  if trie.leaves.entries.isEmpty then (emptyNode, trie.interiorCache)
  else
    let leaves := σ.iter (2 * trieDepth) trie.leaves
    let cache := insertAll trie.interiorCache (leaves.map fun leaf => ((trieDepth, leaf.1), leaf.2))
    let (level, cache) := (List.range trieDepth).reverse.foldl (levelStep blake3 σ) (insertAll ∅ leaves, cache)
    ((level.lookup (Vector.replicate 32 0)).getD emptyNode, cache)

def root (σ : IterOrder) (trie : SparseMerkleTrie) : NodeHash × SparseMerkleTrie :=
  match trie.cachedRoot with
  | some r => (r, trie)
  | none =>
    let (root, cache) := ({ trie with interiorCache := ∅ }).computeRootWithCache blake3 σ
    (root, { trie with cachedRoot := some root, interiorCache := cache })

/-- The depth-bucketed index of the cache. -/
def byDepth : HashMap Nat (List (Hash32 × NodeHash)) :=
  bucketize (σ.iter (2 * trieDepth + 1) trie.interiorCache)

def siblingAt (buckets : HashMap Nat (List (Hash32 × NodeHash))) (keyPath : Hash32) (depth : Nat) : NodeHash :=
  let sibRep := siblingRep keyPath depth
  (((buckets.lookup (depth + 1)).bind fun bucket => bucket.find? fun node => node.1 = sibRep).map
    Prod.snd).getD emptyNode

def prove (address : String) : MerkleProof × SparseMerkleTrie :=
  let (root, trie) := trie.root blake3 σ
  let keyPath := keyToPath blake3 address
  let buckets := trie.byDepth σ
  let path := (List.range trieDepth).reverse.map fun depth =>
    { sibling := siblingAt buckets keyPath depth, isRight := bitAt keyPath depth == 1 }
  ({ address := address
     «exists» := (trie.leaves.lookup keyPath).isSome
     leaf := (trie.leaves.lookup keyPath).getD emptyNode
     path := path
     root := root },
   trie)

end SparseMerkleTrie

/-- One turn of the verifier's loop. -/
def MerkleProof.verifyStep (keyPath : Hash32) (current : NodeHash) (step : ProofNode × Nat) : NodeHash :=
  let (node, depthRev) := step
  let depth := trieDepth - 1 - depthRev
  if current = emptyNode ∧ node.sibling = emptyNode then emptyNode
  else if bitAt keyPath depth = 0 then interiorHash blake3 current node.sibling
  else interiorHash blake3 node.sibling current

def MerkleProof.verify (proof : MerkleProof) (expectedRoot : NodeHash) : Bool :=
  if proof.path.length ≠ trieDepth then false
  else
    let keyPath := keyToPath blake3 proof.address
    let start := if proof.exists then proof.leaf else emptyNode
    proof.path.zipIdx.foldl (MerkleProof.verifyStep blake3 keyPath) start == expectedRoot

end

end Bleep
