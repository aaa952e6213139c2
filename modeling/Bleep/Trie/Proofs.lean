import Bleep.Trie.Runs

namespace Bleep
open HashTable SparseTree SparseMerkleTrie ProofNode List Set MerkleProof

variable {blake3 : Bytes → Hash32} {trie : SparseMerkleTrie} {σ : IterOrder} {proof : MerkleProof}

theorem interiorHash_ne (nonzero : ∀ input, blake3 input ≠ emptyNode) (left right : NodeHash) :
    interiorHash blake3 left right ≠ emptyNode :=
  nonzero _

theorem SparseMerkleTrie.Coherent.sentinel (coherent : trie.Coherent blake3)
    (nonzero : ∀ input, blake3 input ≠ emptyNode) :
    Sentinel emptyNode (interiorHash blake3) 256 (leafMap trie.leaves) := by
  refine ⟨interiorHash_ne nonzero, fun key value atKey => ?_, fun key present => ?_⟩
  · obtain ⟨path, rfl, -⟩ := leafMap_isSome (by rw [atKey]; rfl)
    rw [leafMap_prefixBits] at atKey
    obtain ⟨input, rfl⟩ := coherent.hashed path value atKey
    exact nonzero input
  · obtain ⟨path, rfl, -⟩ := leafMap_isSome present
    simp

def bitsFrom (path : Hash32) (start length : Nat) : List Bool := (List.range' start length).map (pathBit path)

theorem prefixBits_eq_bitsFrom (path : Hash32) (depth : Nat) : prefixBits path depth = bitsFrom path 0 depth := by
  rw [prefixBits, bitsFrom, range_eq_range']

/-- The verifier's loop from the leaf up is a climb along the path. -/
theorem foldl_verifyStep (keyPath : Hash32) (start : NodeHash) (path : List ProofNode) (short : path.length ≤ 256) :
    path.zipIdx.foldl (verifyStep blake3 keyPath) start =
      climb emptyNode (interiorHash blake3) (bitsFrom keyPath (256 - path.length) path.length)
        (path.reverse.map sibling) start := by
  induction path using reverseRecOn with
  | nil => rfl
  | append_singleton path node ih =>
    rw [length_append, length_singleton] at short
    have inner := ih (by omega)
    have bits : bitsFrom keyPath (256 - (path.length + 1)) (path.length + 1) =
        pathBit keyPath (255 - path.length) :: bitsFrom keyPath (256 - path.length) path.length := by
      rw [bitsFrom, range'_succ, map_cons, show 256 - (path.length + 1) = 255 - path.length by omega,
        show 255 - path.length + 1 = 256 - path.length by omega, bitsFrom]
    rw [zipIdx_append, foldl_append, inner, length_append, length_singleton, bits,
      reverse_append, reverse_singleton, singleton_append, map_cons]
    change verifyStep blake3 keyPath _ (node, 0 + path.length) = _
    rw [Nat.zero_add, verifyStep, show trieDepth - 1 - path.length = 255 - path.length from rfl, bitAt_eq]
    cases pathBit keyPath (255 - path.length)
    · rw [climb, join]
      rfl
    · rw [climb, join]
      simp only [and_comm]
      rfl

def MerkleProof.start (proof : MerkleProof) : NodeHash := if proof.exists then proof.leaf else emptyNode

theorem MerkleProof.verify_iff {expectedRoot} :
    proof.verify blake3 expectedRoot = true ↔
      proof.path.length = 256 ∧
        climb emptyNode (interiorHash blake3) (prefixBits (keyToPath blake3 proof.address) 256)
          (proof.path.reverse.map sibling) proof.start = expectedRoot := by
  unfold verify
  split
  · rename_i wrong
    exact ⟨fun accepted => (by cases accepted), fun accepted => absurd accepted.1 wrong⟩
  · rename_i length
    have size : proof.path.length = 256 := not_not.mp length
    rw [beq_iff_eq, foldl_verifyStep _ _ _ (by omega), size, Nat.sub_self, ← prefixBits_eq_bitsFrom]
    exact ⟨fun same => ⟨rfl, same⟩, And.right⟩

theorem siblingAt_subtree {leaves keyPath depth}
    (shallow : depth < 256) (cache : CacheHolds blake3 leaves 0 trie.interiorCache) :
    siblingAt (trie.byDepth σ) keyPath depth =
      subtree emptyNode (interiorHash blake3) (leafMap leaves) (255 - depth)
        (prefixBits keyPath depth ++ [!pathBit keyPath depth]) := by
  -- a lookup in the bucketed index is a lookup in the cache
  rw [siblingAt, byDepth, find_bucketize (iter_keys_nodup σ _ _), lookup_insertAll_iter,
    ← prefixBits_siblingRep keyPath shallow]
  by_cases occupied : Occupied (leafMap leaves) (prefixBits (siblingRep keyPath depth) (depth + 1))
  · have found := (cache (depth + 1) (siblingRep keyPath depth) _).mpr
      ⟨by omega, by omega, cleared_siblingRep keyPath shallow, occupied, rfl⟩
    rw [found, Option.getD_some, show 256 - (depth + 1) = 255 - depth by omega]
  · rw [subtree_of_not_occupied _ occupied]
    cases found : trie.interiorCache.lookup (depth + 1, siblingRep keyPath depth) with
    | none => rfl
    | some value => exact absurd ((cache _ _ _).mp found).2.2.occupied occupied

theorem siblings_bitsFrom (leaves : HashMap Hash32 NodeHash) (keyPath : Hash32) {start length}
    (total : start + length = 256) :
    siblings emptyNode (interiorHash blake3) (leafMap leaves) (prefixBits keyPath start)
        (bitsFrom keyPath start length) =
      (List.range' start length).map fun depth =>
        subtree emptyNode (interiorHash blake3) (leafMap leaves) (255 - depth)
          (prefixBits keyPath depth ++ [!pathBit keyPath depth]) := by
  induction length generalizing start with
  | zero => rfl
  | succ length ih =>
    rw [bitsFrom, range'_succ, map_cons, map_cons, siblings, length_map, length_range',
      ← prefixBits_succ, ← bitsFrom, ih (by omega), show 255 - start = length by omega]

/-- What `prove` returns of a coherent trie: the siblings of the tree along
the path of the address, from the leaf up. -/
theorem SparseMerkleTrie.Coherent.prove_siblings (coherent : trie.Coherent blake3) (address : String) :
    ((trie.prove blake3 σ address).1.path.reverse.map sibling) =
      siblings emptyNode (interiorHash blake3) (leafMap trie.leaves) []
        (prefixBits (keyToPath blake3 address) 256) := by
  rw [prefixBits_eq_bitsFrom]
  have whole := @siblings_bitsFrom blake3 trie.leaves (keyToPath blake3 address) 0 256 rfl
  refine Eq.trans ?_ whole.symm
  rw [← range_eq_range', prove]
  rw [← map_reverse, reverse_reverse, map_map]
  refine map_congr_left fun depth member => ?_
  exact siblingAt_subtree (mem_range.mp member) coherent.root_spec.2.1

theorem prove_start (address : String) :
    (trie.prove blake3 σ address).1.start =
      subtree emptyNode (interiorHash blake3) (leafMap trie.leaves) 0
        (prefixBits (keyToPath blake3 address) 256) := by
  have leaf : (trie.prove blake3 σ address).1.leaf =
      (trie.leaves.lookup (keyToPath blake3 address)).getD emptyNode := by
    rw [← root_leaves σ trie]
    rfl
  have present : (trie.prove blake3 σ address).1.exists =
      (trie.leaves.lookup (keyToPath blake3 address)).isSome := by
    rw [← root_leaves σ trie]
    rfl
  rw [subtree, leafMap_prefixBits, start, leaf, present]
  cases trie.leaves.lookup (keyToPath blake3 address) <;> rfl

/-- Proofs of reachable tries are complete, for present and for absent
addresses. -/
theorem prove_verifies (nonzero : ∀ input, blake3 input ≠ emptyNode) (ops : List TrieOp) (address : String)
    (σ σ' : IterOrder) :
    let trie := runTrie blake3 ops
    let proof := (trie.prove blake3 σ address).1
    let after := (trie.prove blake3 σ address).2
    proof.path.length = 256 ∧
      (proof.exists = true ↔ keyToPath blake3 address ∈ trie.leaves) ∧
      proof.verify blake3 (after.root blake3 σ').1 = true := by
  intro trie proof after
  have coherent : trie.Coherent blake3 := runTrie_coherent ops
  have length : proof.path.length = 256 := by
    simp [proof, prove, trieDepth]
  refine ⟨length, ?_, ?_⟩
  · change ((trie.root blake3 σ).2.leaves.lookup _).isSome = true ↔ _
    rw [root_leaves, AList.lookup_isSome]
  · have root : (after.root blake3 σ').1 = leavesRoot blake3 trie.leaves := by
      change ((trie.root blake3 σ).2.root blake3 σ').1 = _
      rw [coherent.root_spec.2.2.root_spec.1, root_leaves]
    refine verify_iff.mpr ⟨length, ?_⟩
    rw [coherent.prove_siblings, prove_start, root]
    have complete := climb_siblings (coherent.sentinel nonzero) [] (prefixBits (keyToPath blake3 address) 256) (by simp)
    rwa [prefixBits_length, nil_append] at complete

theorem sampleOps_proof_verifies :
    ((runTrie markedHash sampleOps).prove markedHash .stored "bob").1.verify markedHash
      (((runTrie markedHash sampleOps).prove markedHash .stored "bob").2.root markedHash .stored).1 = true :=
  (prove_verifies markedHash_ne sampleOps "bob" .stored .stored).2.2

/-- The two children as the bytes that are hashed. -/
def childBytes (pair : NodeHash × NodeHash) : Bytes := pair.1.toList ++ pair.2.toList

theorem childBytes_injective : Function.Injective childBytes := by
  rintro ⟨l, r⟩ ⟨l', r'⟩ same
  obtain ⟨left, right⟩ := append_inj same (by simp)
  exact Prod.ext (Vector.toList_inj.mp left) (Vector.toList_inj.mp right)

/-- The interior inputs hashed for the root of the trie. -/
def rootInputs (blake3 : Bytes → Hash32) (trie : SparseMerkleTrie) : Set Bytes :=
  childBytes '' treePairs emptyNode (interiorHash blake3) (leafMap trie.leaves) 256

/-- The interior inputs hashed while a proof is verified. -/
def verifyInputs (blake3 : Bytes → Hash32) (proof : MerkleProof) : Set Bytes :=
  childBytes '' climbPairs emptyNode (interiorHash blake3)
    (prefixBits (keyToPath blake3 proof.address) 256) (proof.path.reverse.map ProofNode.sibling) proof.start

/-- A verifying proof starts from what the tree holds at the path, where the
sentinel stands for no leaf. -/
theorem SparseMerkleTrie.Coherent.verified_start (coherent : trie.Coherent blake3)
    (nonzero : ∀ input, blake3 input ≠ emptyNode)
    (injective : Set.InjOn blake3 (rootInputs blake3 trie ∪ verifyInputs blake3 proof))
    (verified : proof.verify blake3 (leavesRoot blake3 trie.leaves) = true) :
    proof.start = (trie.leaves.lookup (keyToPath blake3 proof.address)).getD emptyNode := by
  obtain ⟨length, climbed⟩ := verify_iff.mp verified
  rw [rootInputs, verifyInputs, ← image_union] at injective
  have pairs := injective.comp childBytes_injective.injOn (mapsTo_image childBytes _)
  have start := climb_sound (coherent.sentinel nonzero) (p := []) (by simp) (by simp [length]) pairs
    (by rw [climbed, prefixBits_length]; rfl)
  rw [start, nil_append, subtree, leafMap_prefixBits]

variable (claimed : Bool)

/-- A proof with only empty siblings, claiming presence or absence. -/
def hollowProof : MerkleProof where
  address := "mallory"
  «exists» := claimed
  leaf := emptyNode
  path := List.replicate 256 ⟨emptyNode, false⟩
  root := emptyNode

theorem hollowProof_verifies :
    (hollowProof claimed).verify markedHash ((runTrie markedHash []).root markedHash .stored).1 = true := by
  cases claimed <;> decide +kernel

theorem hollowProof_inputs :
    rootInputs markedHash (runTrie markedHash []) ∪ verifyInputs markedHash (hollowProof claimed) = ∅ := by
  have start : (hollowProof claimed).start = emptyNode := by cases claimed <;> rfl
  have siblings : (hollowProof claimed).path.reverse.map sibling = replicate 256 emptyNode := by
    rw [hollowProof, reverse_replicate, map_replicate]
  have tree : treePairs emptyNode (interiorHash markedHash) (leafMap (runTrie markedHash []).leaves) 256 = ∅ := by
    refine eq_empty_of_forall_notMem ?_
    rintro pair ⟨p, h, -, ⟨key, -, present⟩, -⟩
    obtain ⟨path, -, found⟩ := leafMap_isSome present
    cases found
  rw [rootInputs, verifyInputs, tree, start, siblings, (climb_vacant _ 256).2, image_empty, union_self]

end Bleep
