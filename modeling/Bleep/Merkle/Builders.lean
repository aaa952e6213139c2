import Bleep.Merkle.Commitment

namespace Bleep

open MerkleLevels List Nat List SigCommitmentTree MerkleNode

section Shape
variable (hashes : Hashes)

variable (leaves : List Hash32)

/-- The leaves of the padded tree, as a function of the position. -/
def paddedLeaf (position : Nat) : Hash32 := leaves.getD position (merkleEmptyLeaf hashes)

def treeDepth : Nat := Nat.clog 2 leaves.length

/-- The node at a height and position of the padded tree. -/
def treeNode : Nat → Nat → Hash32 :=
  value (merkleNodeAt hashes) (paddedLeaf hashes leaves)

/-- The root all builders agree on. -/
def treeRoot : Hash32 := versionMerkleRoot hashes (treeNode hashes leaves (treeDepth leaves) 0)

theorem paddedLen_eq : leaves.length.nextPowerOfTwo = 2 ^ treeDepth leaves :=
  nextPowerOfTwo_eq_clog _

theorem length_le_padded : leaves.length ≤ 2 ^ treeDepth leaves :=
  le_pow_clog Nat.one_lt_two _

variable {leaves : List Hash32}

theorem padLeaves_level (leaves : List Hash32) : padLeaves hashes leaves.length.nextPowerOfTwo leaves =
    (range (2 ^ treeDepth leaves)).map (treeNode hashes leaves 0) := by
  have fits := length_le_padded leaves
  rw [paddedLen_eq]
  change _ = (range _).map (paddedLeaf hashes leaves)
  refine ext_getElem (by simp [padLeaves]; omega) fun i _ inside => ?_
  by_cases real : i < leaves.length
  · simp [padLeaves, paddedLeaf, real]
  · simp [padLeaves, paddedLeaf, getElem_append_right (not_lt.mp real), real]

theorem collapse_padLeaves (leaves : List Hash32) :
    collapse (merkleNodeAt hashes) (padLeaves hashes leaves.length.nextPowerOfTwo leaves) =
      [treeNode hashes leaves (treeDepth leaves) 0] := by
  rw [padLeaves_level]
  exact (collapse_level 0 _).trans (by rw [zero_add]; rfl)

theorem checkedNextPowerOfTwo_of_le {n} (fits : n ≤ 2 ^ 63) :
    checkedNextPowerOfTwo n = some n.nextPowerOfTwo := by
  have small : clog 2 n ≤ 63 := clog_le_of_le_pow fits
  have bound : n.nextPowerOfTwo < 2 ^ 64 := by
    rw [nextPowerOfTwo_eq_clog]
    exact Nat.pow_lt_pow_right Nat.one_lt_two (by omega)
  rw [checkedNextPowerOfTwo, if_pos bound]

theorem merkleRootFromHashes_eq (nonempty : leaves ≠ []) (fits : leaves.length ≤ 2 ^ 63) :
    merkleRootFromHashes hashes leaves = some (treeRoot hashes leaves) := by
  have some : leaves.isEmpty = false := isEmpty_eq_false_iff.mpr nonempty
  simp only [merkleRootFromHashes, checkedNextPowerOfTwo_of_le fits, some, collapse_padLeaves]
  rfl

end Shape

variable {i : Nat}

section Heap
variable (hashes : Hashes) (leaves : List Hash32)

/-- What the array of the signature tree holds at a position. -/
def heapNode (i : Nat) : Hash32 := treeNode hashes leaves (treeDepth leaves - i.log2) (i - 2 ^ i.log2)

/-- From a position on, the array holds what it should. -/
def FilledFrom (start : Nat) (nodes : Array Hash32) : Prop :=
  nodes.size = 2 * 2 ^ treeDepth leaves ∧
    ∀ i, start ≤ i → i < 2 * 2 ^ treeDepth leaves → nodes[i]? = some (heapNode hashes leaves i)

variable {leaves}

theorem heapNode_level {level p} (inside : p < 2 ^ level) :
    heapNode hashes leaves (2 ^ level + p) = treeNode hashes leaves (treeDepth leaves - level) p := by
  have log : (2 ^ level + p).log2 = level := by
    rw [log2_eq_iff (by positivity), pow_succ]
    omega
  rw [heapNode, log, Nat.add_sub_cancel_left]

theorem heapNode_children (positive : 0 < i) (inner : i < 2 ^ treeDepth leaves) :
    heapNode hashes leaves i = merkleNodeAt hashes (heapNode hashes leaves (2 * i)) (heapNode hashes leaves (2 * i + 1))
      (i - 2 ^ i.log2) := by
  have start : 2 ^ i.log2 ≤ i := log2_self_le (by omega)
  have stop : i < 2 ^ (i.log2 + 1) := lt_log2_self
  have above : i.log2 < treeDepth leaves := (Nat.pow_lt_pow_iff_right Nat.one_lt_two).mp (by omega)
  have height : treeDepth leaves - i.log2 = treeDepth leaves - (i.log2 + 1) + 1 := by omega
  have left : heapNode hashes leaves (2 * i) =
      treeNode hashes leaves (treeDepth leaves - (i.log2 + 1)) (2 * (i - 2 ^ i.log2)) := by
    rw [← heapNode_level hashes (by rw [pow_succ] at stop ⊢; omega), pow_succ]
    congr 1
    omega
  have right : heapNode hashes leaves (2 * i + 1) =
      treeNode hashes leaves (treeDepth leaves - (i.log2 + 1)) (2 * (i - 2 ^ i.log2) + 1) := by
    rw [← heapNode_level hashes (by rw [pow_succ] at stop ⊢; omega), pow_succ]
    congr 1
    omega
  rw [left, right, heapNode, height]
  rfl

variable {hashes}

variable {nodes : Array Hash32} {start : Nat}

theorem FilledFrom.getD (filled : FilledFrom hashes leaves start nodes) (from_start : start ≤ i)
    (inside : i < 2 * 2 ^ treeDepth leaves) : nodes.getD i (Vector.replicate 32 0) = heapNode hashes leaves i := by
  rw [Array.getD_eq_getD_getElem?, filled.2 i from_start inside, Option.getD_some]

theorem FilledFrom.setNode (filled : FilledFrom hashes leaves (start + 1) nodes) (positive : 0 < start)
    (inner : start < 2 ^ treeDepth leaves) :
    FilledFrom hashes leaves start (SigCommitmentTree.setNode hashes nodes start) := by
  have left := filled.getD (by omega : start + 1 ≤ 2 * start) (by omega)
  have right := filled.getD (by omega : start + 1 ≤ 2 * start + 1) (by omega)
  have placed : SigCommitmentTree.setNode hashes nodes start =
      nodes.setIfInBounds start (heapNode hashes leaves start) := by
    rw [heapNode_children hashes positive inner, ← left, ← right]
    rfl
  rw [placed]
  refine ⟨by rw [Array.size_setIfInBounds, filled.1], fun i from_start inside => ?_⟩
  rw [Array.getElem?_setIfInBounds]
  by_cases here : start = i
  · subst here
    have bound : start < nodes.size := by
      rw [filled.1]
      exact inside
    rw [if_pos rfl, if_pos bound]
  · rw [if_neg here]
    exact filled.2 i (by omega) inside

theorem FilledFrom.foldl {count} (filled : FilledFrom hashes leaves (start + count) nodes)
    (positive : 0 < start)
    (inner : start + count ≤ 2 ^ treeDepth leaves) :
    FilledFrom hashes leaves start
      ((List.range' start count).reverse.foldl (SigCommitmentTree.setNode hashes) nodes) := by
  induction count generalizing start with
  | zero => exact filled
  | succ count ih =>
    rw [range'_succ, reverse_cons, foldl_append]
    refine FilledFrom.setNode (ih ?_ (by omega) (by omega)) positive (by omega)
    rwa [add_assoc, add_comm 1]

theorem filledFrom_leaves : FilledFrom hashes leaves (2 ^ treeDepth leaves)
    (replicate leaves.length.nextPowerOfTwo (Vector.replicate 32 0) ++
      padLeaves hashes leaves.length.nextPowerOfTwo leaves).toArray := by
  rw [padLeaves_level, paddedLen_eq]
  refine ⟨by simp; omega, fun i from_start inside => ?_⟩
  rw [getElem?_toArray, getElem?_append_right (by simpa using from_start), length_replicate,
    getElem?_map, getElem?_range (by omega)]
  obtain ⟨p, rfl⟩ := Nat.exists_eq_add_of_le from_start
  rw [Nat.add_sub_cancel_left, heapNode_level hashes (by omega), Nat.sub_self]
  rfl

variable (hashes leaves)

theorem SigCommitmentTree.filled : FilledFrom hashes leaves 1 (SigCommitmentTree.new hashes leaves).nodes := by
  have positive : 0 < 2 ^ treeDepth leaves := Nat.two_pow_pos _
  have start : FilledFrom hashes leaves (1 + (leaves.length.nextPowerOfTwo - 1)) _ :=
    (by rw [paddedLen_eq]; omega : 2 ^ treeDepth leaves = 1 + (leaves.length.nextPowerOfTwo - 1)) ▸ filledFrom_leaves
  exact start.foldl one_pos (by rw [paddedLen_eq]; omega)

theorem SigCommitmentTree.root_eq : (new hashes leaves).root hashes = treeRoot hashes leaves := by
  have positive : 0 < 2 ^ treeDepth leaves := Nat.two_pow_pos _
  rw [root, (filled hashes leaves).getD le_rfl (by omega), treeRoot]
  rfl

variable {hashes leaves}

/-- The walk up the array meets the nodes beside the way. -/
theorem SigCommitmentTree.siblings_eq (filled : FilledFrom hashes leaves 1 nodes) {level p}
    (depth : level ≤ treeDepth leaves) (inside : p < 2 ^ level) :
    siblings nodes (2 ^ level + p) =
      opening (merkleNodeAt hashes) (paddedLeaf hashes leaves) (treeDepth leaves - level) p level := by
  induction level generalizing p with
  | zero =>
    obtain rfl : p = 0 := by omega
    rw [siblings, if_neg (by simp)]
    rfl
  | succ level ih =>
    have next : (if (2 ^ (level + 1) + p) % 2 = 0 then 2 ^ (level + 1) + p + 1 else 2 ^ (level + 1) + p - 1) =
        2 ^ (level + 1) + (p ^^^ 1) := by
      split
      · rw [xor_one_of_mod_two_eq_zero (by omega)]
        omega
      · rw [xor_one_of_mod_two_ne_zero (by omega)]
        omega
    have sibling := xor_one_lt inside
    have half : (2 ^ (level + 1) + p) / 2 = 2 ^ level + p / 2 := by
      omega
    have width : 2 ^ (level + 1) ≤ 2 ^ treeDepth leaves := Nat.pow_le_pow_right Nat.two_pos depth
    rw [siblings, if_pos (by rw [pow_succ]; omega), next, filled.getD (by omega) (by omega),
      heapNode_level hashes sibling, half, ih (by omega) (by rw [pow_succ] at inside; omega), opening,
      show treeDepth leaves - level = treeDepth leaves - (level + 1) + 1 by omega]
    rfl

end Heap

section Proofs
variable {hashes : Hashes} {leaves : List Hash32} {i : Nat}

/-- The opening of a leaf passes the check against the root. -/
theorem verifyMerklePath_opening (inside : i < 2 ^ treeDepth leaves) :
    verifyMerklePath hashes (treeRoot hashes leaves) (paddedLeaf hashes leaves i) i (2 ^ treeDepth leaves)
      (opening (merkleNodeAt hashes) (paddedLeaf hashes leaves) 0 i (treeDepth leaves)) = true := by
  have climbs := @climb_opening _ (merkleNodeAt hashes) (paddedLeaf hashes leaves) 0 i (treeDepth leaves)
  rw [zero_add, div_eq_of_lt inside] at climbs
  rw [verifyMerklePath, log2_two_pow, opening_length, if_neg (by simp [inside])]
  exact beq_of_eq (congrArg (versionMerkleRoot hashes) climbs)

theorem SigCommitmentTree.generateProof_eq (inside : i < leaves.length) :
    (new hashes leaves).generateProof i =
      ⟨i, paddedLeaf hashes leaves i,
        opening (merkleNodeAt hashes) (paddedLeaf hashes leaves) 0 i (treeDepth leaves), 2 ^ treeDepth leaves⟩ := by
  have short : i < 2 ^ treeDepth leaves := inside.trans_le (length_le_padded leaves)
  have filled := filled hashes leaves
  have leaf := filled.getD (by omega : 1 ≤ 2 ^ treeDepth leaves + i) (by omega)
  have path := siblings_eq filled le_rfl short
  rw [heapNode_level hashes short, Nat.sub_self] at leaf
  rw [Nat.sub_self] at path
  have width : (new hashes leaves).paddedN = 2 ^ treeDepth leaves := paddedLen_eq leaves
  rw [generateProof, width, leaf, path]
  rfl

theorem MerkleTree.MerkleProof.verify_iff {proof : MerkleTree.MerkleProof} {root} :
    proof.verify hashes root = .ok () ↔
    proof.root = root ∧
      verifyMerklePath hashes root proof.leafHash proof.leafIndex.toNat proof.paddedLen proof.path = true := by
  unfold MerkleTree.MerkleProof.verify
  split
  · rename_i other
    exact ⟨fun done => (by cases done), fun both => absurd both.1 other⟩
  · rename_i same
    split
    · rename_i verified
      exact ⟨fun _ => ⟨not_not.mp same, verified⟩, fun _ => rfl⟩
    · rename_i rejected
      exact ⟨fun done => (by cases done), fun both => absurd both.2 rejected⟩

end Proofs

namespace MerkleTree
variable (hashes : Hashes)

/-- The tree after adding the data, before it is finalized. -/
structure Holds (data : List Bytes) (tree : MerkleTree) : Prop where
  leaves : tree.leaves.map MerkleLeaf.hash = data.map (merkleHashLeaf hashes)
  open_ : tree.finalized = false
  index : ∀ i < data.length, tree.leafIndex.lookup (BitVec.ofNat 64 i) = some i

variable {hashes} {data : List Bytes} {tree : MerkleTree}

section
variable (holds : Holds hashes data tree)
include holds

theorem Holds.length : tree.leaves.length = data.length := by
  simpa using congrArg List.length holds.leaves

/-- Adding one piece of data. The indices are told apart as long as they fit
in 64 bits. -/
theorem Holds.addLeaf (piece : Bytes) (fits : data.length < 2 ^ 64) :
    ∃ next, (tree.addLeaf hashes piece).map Prod.snd = .ok next ∧ Holds hashes (data ++ [piece]) next := by
  let index := BitVec.ofNat 64 tree.leaves.length
  refine ⟨{ tree with leafIndex := tree.leafIndex.insert index tree.leaves.length,
                      leaves := tree.leaves ++ [MerkleLeaf.new hashes index piece] }, ?_, ?_, holds.open_, ?_⟩
  · rw [MerkleTree.addLeaf, if_neg (by rw [holds.open_]; decide)]
    rfl
  · rw [map_append, map_append, holds.leaves]
    rfl
  · intro i inside
    rw [length_append, length_singleton] at inside
    simp only [index, holds.length]
    by_cases last : i = data.length
    · rw [last, AList.lookup_insert]
    have apart : BitVec.ofNat 64 i ≠ BitVec.ofNat 64 data.length := by
      intro same
      have values := congrArg BitVec.toNat same
      rw [BitVec.toNat_ofNat, BitVec.toNat_ofNat, mod_eq_of_lt (by omega), mod_eq_of_lt fits] at values
      exact last values
    rw [AList.lookup_insert_ne apart]
    exact holds.index i (by omega)

theorem Holds.addLeaves (more : List Bytes) (fits : (data ++ more).length ≤ 2 ^ 64) :
    ∃ next, more.foldlM (fun tree piece => (tree.addLeaf hashes piece).map Prod.snd) tree = .ok next ∧
      Holds hashes (data ++ more) next := by
  induction more generalizing data tree with
  | nil => exact ⟨tree, rfl, by rwa [append_nil]⟩
  | cons piece more ih =>
    rw [append_cons] at fits ⊢
    obtain ⟨next, added, held⟩ := holds.addLeaf piece (by simp at fits; omega)
    obtain ⟨last, rest, finally_⟩ := ih held fits
    exact ⟨last, by rw [foldlM_cons, added]; exact rest, finally_⟩

end

theorem withLeaves_holds (fits : data.length ≤ 2 ^ 64) :
    ∃ tree, withLeaves hashes data = .ok tree ∧ Holds hashes data tree := by
  have empty : Holds hashes [] MerkleTree.new := ⟨rfl, rfl, fun i inside => absurd inside (not_lt_zero i)⟩
  exact empty.addLeaves data fits

theorem hash_join (left right : MerkleNode) (position : Nat) :
    (join hashes left right position).hash = merkleNodeAt hashes left.hash right.hash position := rfl

theorem collapse_join (leaves : List Hash32) :
    ∃ top, collapse (join hashes) ((padLeaves hashes leaves.length.nextPowerOfTwo leaves).map .leaf) = [top] ∧
      top.hash = treeNode hashes leaves (treeDepth leaves) 0 := by
  have hashed : (collapse (join hashes)
      ((padLeaves hashes leaves.length.nextPowerOfTwo leaves).map .leaf)).map hash =
        [treeNode hashes leaves (treeDepth leaves) 0] := by
    rw [map_collapse hash_join, map_map]
    exact (congrArg _ (map_id _)).trans (collapse_padLeaves hashes leaves)
  obtain ⟨top, rest, split, same, none⟩ := map_eq_cons_iff.mp hashed
  rw [map_eq_nil_iff] at none
  exact ⟨top, by rw [split, none], same⟩

theorem Holds.finalize (holds : Holds hashes data tree) (nonempty : data ≠ []) (fits : data.length ≤ 2 ^ 63) :
    ∃ top, tree.finalize hashes = .ok (treeRoot hashes (data.map (merkleHashLeaf hashes)),
      { tree with root := some top, rootHash := some (treeRoot hashes (data.map (merkleHashLeaf hashes))),
                  finalized := true }) := by
  obtain ⟨top, collapsed, hash⟩ := @collapse_join hashes (data.map (merkleHashLeaf hashes))
  have length := holds.length
  have some : tree.leaves.isEmpty = false := by
    rw [isEmpty_eq_false_iff, ← length_pos_iff, length]
    exact length_pos_iff.mpr nonempty
  have nodes : tree.leaves.map (fun leaf => MerkleNode.leaf leaf.hash) ++
      replicate (data.length.nextPowerOfTwo - data.length) (.leaf (merkleEmptyLeaf hashes)) =
        (padLeaves hashes (data.map (merkleHashLeaf hashes)).length.nextPowerOfTwo
          (data.map (merkleHashLeaf hashes))).map .leaf := by
    rw [padLeaves, map_append, map_replicate, length_map, ← holds.leaves, map_map]
    rfl
  refine ⟨top, ?_⟩
  simp only [MerkleTree.finalize, holds.open_, some, length, checkedNextPowerOfTwo_of_le fits, nodes, collapsed,
    headD_cons, hash]
  rfl

theorem Holds.proveInclusion (holds : Holds hashes data tree) (inside : i < data.length) (top : MerkleNode)
    (root : Hash32) :
    ({ tree with root := some top, rootHash := some root, finalized := true } : MerkleTree).proveInclusion hashes
        (BitVec.ofNat 64 i) =
      .ok ⟨BitVec.ofNat 64 i, paddedLeaf hashes (data.map (merkleHashLeaf hashes)) i,
        opening (merkleNodeAt hashes) (paddedLeaf hashes (data.map (merkleHashLeaf hashes))) 0 i
          (treeDepth (data.map (merkleHashLeaf hashes))),
        2 ^ treeDepth (data.map (merkleHashLeaf hashes)), root⟩ := by
  have leafLength : i < (data.map (merkleHashLeaf hashes)).length := by rwa [length_map]
  have short := leafLength.trans_le (length_le_padded _)
  have width : tree.leaves.length.nextPowerOfTwo = (data.map (merkleHashLeaf hashes)).length.nextPowerOfTwo := by
    rw [holds.length, length_map]
  have leaf : (data.map (merkleHashLeaf hashes)).getD i (Vector.replicate 32 0) =
      paddedLeaf hashes (data.map (merkleHashLeaf hashes)) i := by
    rw [paddedLeaf, getD_eq_getElem _ _ leafLength, getD_eq_getElem _ _ leafLength]
  simp only [MerkleTree.proveInclusion, holds.index i inside, holds.leaves, width, padLeaves_level, leaf]
  rw [treeNode, beside_level _ 0 _ i short, paddedLen_eq]
  rfl

end MerkleTree

/-- Over the same data, of any number of pieces that a vector can hold, the
signature tree, the fold over leaf hashes and the leaf-by-leaf tree have the
same root, and the proofs both trees make for a leaf lead to it. -/
theorem merkle_builders_agree (hashes : Hashes) (data : List Bytes) (nonempty : data ≠ [])
    (fits : data.length ≤ 2 ^ 63) :
    ∃ root tree done, MerkleTree.withLeaves hashes data = .ok tree ∧ tree.finalize hashes = .ok (root, done) ∧
      merkleRootFromHashes hashes (data.map (merkleHashLeaf hashes)) = some root ∧
      (SigCommitmentTree.new hashes (data.map (merkleHashLeaf hashes))).root hashes = root ∧
      ∀ i piece, data[i]? = some piece →
        (∃ proof, (SigCommitmentTree.new hashes (data.map (merkleHashLeaf hashes))).generateProof i = proof ∧
          proof.leafIndex = i ∧ proof.leaf = merkleHashLeaf hashes piece ∧
          verifyMerklePath hashes root proof.leaf proof.leafIndex proof.paddedN proof.path = true) ∧
        ∃ proof, done.proveInclusion hashes (BitVec.ofNat 64 i) = .ok proof ∧
          proof.leafIndex.toNat = i ∧ proof.leafHash = merkleHashLeaf hashes piece ∧
          verifyMerklePath hashes root proof.leafHash proof.leafIndex.toNat proof.paddedLen proof.path = true ∧
          proof.verify hashes root = .ok () := by
  obtain ⟨tree, built, holds⟩ := @MerkleTree.withLeaves_holds hashes data (by omega)
  obtain ⟨top, finalized⟩ := holds.finalize nonempty fits
  have some : data.map (merkleHashLeaf hashes) ≠ [] := by simpa using nonempty
  refine ⟨_, tree, _, built, finalized, merkleRootFromHashes_eq hashes some (by simpa using fits),
    SigCommitmentTree.root_eq hashes _, fun i piece found => ?_⟩
  have inside := (List.getElem?_eq_some_iff.mp found).1
  have leafLength : i < (data.map (merkleHashLeaf hashes)).length := by rwa [length_map]
  have leaf : paddedLeaf hashes (data.map (merkleHashLeaf hashes)) i = merkleHashLeaf hashes piece := by
    rw [paddedLeaf, getD_eq_getElem?_getD, List.getElem?_map, found]
    rfl
  have index : (BitVec.ofNat 64 i).toNat = i := by
    rw [BitVec.toNat_ofNat, mod_eq_of_lt (by omega)]
  have verified := @verifyMerklePath_opening hashes _ i (leafLength.trans_le (length_le_padded _))
  refine ⟨⟨_, SigCommitmentTree.generateProof_eq leafLength, rfl, leaf, verified⟩,
    _, holds.proveInclusion inside top _, index, leaf, ?_, ?_⟩
  · rw [index]
    exact verified
  · rw [MerkleTree.MerkleProof.verify_iff, index]
    exact ⟨rfl, verified⟩

/-- Three pieces of data, so that one leaf is padding. -/
theorem three_leaves_agree : ∃ root,
    merkleRootFromHashes lastHashes ([[1], [2], [3]].map (merkleHashLeaf lastHashes)) = some root ∧
    (SigCommitmentTree.new lastHashes ([[1], [2], [3]].map (merkleHashLeaf lastHashes))).root lastHashes = root := by
  obtain ⟨root, _, _, _, _, folded, heap, _⟩ := merkle_builders_agree lastHashes [[1], [2], [3]] (by decide) (by decide)
  exact ⟨root, folded, heap⟩

end Bleep
