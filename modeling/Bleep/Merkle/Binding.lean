import Bleep.Merkle.Builders

namespace Bleep

open MerkleLevels SigCommitmentTree List Nat Set SigCommitmentTree

section Inputs
variable (hashes : Hashes)

/-- What `merkle_hash_node` feeds to BLAKE3. -/
def nodeInput (parts : Hash32 × Hash32 × Nat) : Bytes :=
  merkleNodeDomain ++ [UInt8.ofNat (BitVec.ofNat 64 parts.2.2 &&& 1).toNat] ++ parts.1.toList ++ parts.2.1.toList

/-- What `version_merkle_root` feeds to BLAKE3. -/
def rootInput (top : Hash32) : Bytes := merkleRootDomain ++ [merkleFormatVersion] ++ top.toList

/-- What is hashed to get the root over the leaves. -/
def treeInputs (leaves : List Hash32) : Set Bytes :=
  insert (rootInput (treeNode hashes leaves (treeDepth leaves) 0))
    (Set.image nodeInput (treeUses (merkleNodeAt hashes) (paddedLeaf hashes leaves) (treeDepth leaves)))

def pathInputs (leaf : Hash32) (index : Nat) (path : List Hash32) : Set Bytes :=
  insert (rootInput (climb (merkleNodeAt hashes) leaf index path))
    (Set.image nodeInput (climbUses (merkleNodeAt hashes) leaf index path))

variable {hashes} {inputs : Set Bytes}

theorem separates_of_injOn {used} (collisionFree : Set.InjOn hashes.blake3 inputs)
    (hashed : Set.image nodeInput used ⊆ inputs) : Separates (merkleNodeAt hashes) used := by
  intro parts inside parts' inside' same
  have equal := collisionFree (hashed ⟨parts, inside, rfl⟩) (hashed ⟨parts', inside', rfl⟩) same
  obtain ⟨front, right⟩ := append_inj' equal (by simp)
  obtain ⟨-, left⟩ := append_inj' front (by simp)
  exact ⟨Vector.toList_inj.mp left, Vector.toList_inj.mp right⟩

theorem versionMerkleRoot_inj {top top'} (collisionFree : Set.InjOn hashes.blake3 inputs)
    (hashed : rootInput top ∈ inputs) (hashed' : rootInput top' ∈ inputs) :
    versionMerkleRoot hashes top = versionMerkleRoot hashes top' ↔ top = top' := by
  constructor
  · intro same
    exact Vector.toList_inj.mp (append_cancel_left (collisionFree hashed hashed' same))
  · rintro rfl
    rfl

end Inputs

section Lists
variable (hashes : Hashes) (leaves leaves' : List Hash32)

/-- The padded leaves are one level of the tree over the other leaves. -/
def IsLevelOf : Prop := ∃ height ≤ treeDepth leaves',
  treeDepth leaves = treeDepth leaves' - height ∧
    ∀ position < 2 ^ treeDepth leaves, paddedLeaf hashes leaves position = treeNode hashes leaves' height position

variable {hashes leaves leaves'}

theorem treeTop_eq_of_isLevelOf (level : IsLevelOf hashes leaves leaves') :
    treeNode hashes leaves (treeDepth leaves) 0 = treeNode hashes leaves' (treeDepth leaves') 0 := by
  obtain ⟨height, below, depth, same⟩ := level
  have top := @top_of_level _ (merkleNodeAt hashes) (paddedLeaf hashes leaves) (paddedLeaf hashes leaves') 0 height
    (treeDepth leaves) same
  rwa [Nat.zero_add, depth, Nat.add_sub_cancel' below, ← depth] at top

theorem isLevelOf_of_treeTop_eq {used} (separates : Separates (merkleNodeAt hashes) used)
    (uses : treeUses (merkleNodeAt hashes) (paddedLeaf hashes leaves) (treeDepth leaves) ⊆ used)
    (uses' : treeUses (merkleNodeAt hashes) (paddedLeaf hashes leaves') (treeDepth leaves') ⊆ used)
    (shallow : treeDepth leaves ≤ treeDepth leaves')
    (same : treeNode hashes leaves (treeDepth leaves) 0 = treeNode hashes leaves' (treeDepth leaves') 0) :
    IsLevelOf hashes leaves leaves' := by
  have split : treeDepth leaves' - treeDepth leaves + treeDepth leaves = treeDepth leaves' := Nat.sub_add_cancel shallow
  refine ⟨treeDepth leaves' - treeDepth leaves, sub_le _ _, by omega, ?_⟩
  have below := @level_of_top _ (merkleNodeAt hashes) (paddedLeaf hashes leaves) (paddedLeaf hashes leaves') used
    separates 0 (treeDepth leaves' - treeDepth leaves) (treeDepth leaves) (by rwa [Nat.zero_add]) (by rwa [split])
    (by rw [Nat.zero_add, split]; exact same)
  exact below

/-- Two lists of leaves have the same root if and only if one is, padded, a
level of the tree over the other. -/
theorem treeRoot_eq_iff
    (collisionFree : Set.InjOn hashes.blake3 (treeInputs hashes leaves ∪ treeInputs hashes leaves')) :
    treeRoot hashes leaves' = treeRoot hashes leaves ↔
      IsLevelOf hashes leaves leaves' ∨ IsLevelOf hashes leaves' leaves := by
  rw [treeRoot, treeRoot, versionMerkleRoot_inj collisionFree (.inr (mem_insert _ _)) (.inl (mem_insert _ _))]
  constructor
  · intro same
    have separates := @separates_of_injOn hashes _
      (treeUses (merkleNodeAt hashes) (paddedLeaf hashes leaves) (treeDepth leaves) ∪
        treeUses (merkleNodeAt hashes) (paddedLeaf hashes leaves') (treeDepth leaves')) collisionFree (by
      rw [image_union]
      exact union_subset_union (subset_insert _ _) (subset_insert _ _))
    rcases le_total (treeDepth leaves) (treeDepth leaves') with shallow | deep
    · exact .inl (isLevelOf_of_treeTop_eq separates subset_union_left subset_union_right shallow same.symm)
    · exact .inr (isLevelOf_of_treeTop_eq separates subset_union_right subset_union_left deep same)
  · rintro (level | level)
    · exact (treeTop_eq_of_isLevelOf level).symm
    · exact treeTop_eq_of_isLevelOf level

theorem verifyCommitmentRoot_iff : verifyCommitmentRoot hashes (treeRoot hashes leaves) leaves' = true ↔
    leaves' ≠ [] ∧ treeRoot hashes leaves' = treeRoot hashes leaves := by
  rw [verifyCommitmentRoot, root_eq]
  cases leaves' with
  | nil => simp
  | cons leaf rest => simp

end Lists

section Paths
variable (hashes : Hashes) (leaves : List Hash32) (leaf : Hash32) (index paddedLen : Nat) (path : List Hash32)

/-- A proof that starts at an inner node of the tree. -/
def InnerProof : Prop := ∃ height, 0 < height ∧ height ≤ treeDepth leaves ∧
  paddedLen = 2 ^ (treeDepth leaves - height) ∧ index < paddedLen ∧ leaf = treeNode hashes leaves height index ∧
    path = opening (merkleNodeAt hashes) (paddedLeaf hashes leaves) height index (treeDepth leaves - height)

/-- A proof that starts below a leaf, in a tree whose top the leaf is. -/
def DeepProof : Prop := ∃ below, 0 < below.length ∧ paddedLen = 2 ^ (below.length + treeDepth leaves) ∧
  index < paddedLen ∧
    climb (merkleNodeAt hashes) leaf index below = paddedLeaf hashes leaves (index / 2 ^ below.length) ∧
    path = below ++
      opening (merkleNodeAt hashes) (paddedLeaf hashes leaves) 0 (index / 2 ^ below.length) (treeDepth leaves)

variable {hashes leaves leaf index paddedLen path}

theorem verifyMerklePath_iff {root} : verifyMerklePath hashes root leaf index paddedLen path = true ↔
    paddedLen = 2 ^ path.length ∧ index < paddedLen ∧
      versionMerkleRoot hashes (climb (merkleNodeAt hashes) leaf index path) = root := by
  unfold verifyMerklePath
  split
  · rename_i malformed
    constructor
    · intro accepted
      cases accepted
    · rintro ⟨rfl, inside, -⟩
      simp at malformed
      omega
  · rename_i wellFormed
    simp only [not_or, not_not, not_le] at wellFormed
    obtain ⟨-, power, inside, length⟩ := wellFormed
    constructor
    · intro accepted
      exact ⟨by rw [length, power], inside, eq_of_beq accepted⟩
    · rintro ⟨-, -, same⟩
      exact beq_of_eq same

/-- The inner proofs and the deep ones are accepted. -/
theorem climb_of_innerProof (inner : InnerProof hashes leaves leaf index paddedLen path) :
    verifyMerklePath hashes (treeRoot hashes leaves) leaf index paddedLen path = true := by
  obtain ⟨height, -, below, rfl, inside, rfl, rfl⟩ := inner
  have climbs :=
    @climb_opening _ (merkleNodeAt hashes) (paddedLeaf hashes leaves) height index (treeDepth leaves - height)
  rw [Nat.add_sub_cancel' below, Nat.div_eq_of_lt inside] at climbs
  rw [verifyMerklePath_iff, opening_length]
  exact ⟨rfl, inside, congrArg (versionMerkleRoot hashes) climbs⟩

theorem climb_of_deepProof (deep : DeepProof hashes leaves leaf index paddedLen path) :
    verifyMerklePath hashes (treeRoot hashes leaves) leaf index paddedLen path = true := by
  obtain ⟨below, -, rfl, inside, reached, rfl⟩ := deep
  have short : index / 2 ^ below.length < 2 ^ treeDepth leaves := by
    rw [pow_add] at inside
    exact Nat.div_lt_of_lt_mul inside
  have climbs := @climb_opening _ (merkleNodeAt hashes) (paddedLeaf hashes leaves) 0 (index / 2 ^ below.length)
    (treeDepth leaves)
  rw [Nat.zero_add, Nat.div_eq_of_lt short] at climbs
  rw [verifyMerklePath_iff, length_append, opening_length, climb_append, reached]
  exact ⟨rfl, inside, congrArg (versionMerkleRoot hashes) climbs⟩

/-- A proof of the right width is one for its leaf; any other accepted proof
starts at an inner node or below a leaf. -/
theorem accepted_cases
    (collisionFree : Set.InjOn hashes.blake3 (treeInputs hashes leaves ∪ pathInputs hashes leaf index path))
    (accepted : verifyMerklePath hashes (treeRoot hashes leaves) leaf index paddedLen path = true) :
    (paddedLen = 2 ^ treeDepth leaves ∧ leaf = paddedLeaf hashes leaves index) ∨
      InnerProof hashes leaves leaf index paddedLen path ∨ DeepProof hashes leaves leaf index paddedLen path := by
  obtain ⟨rfl, inside, same⟩ := verifyMerklePath_iff.mp accepted
  rw [treeRoot, versionMerkleRoot_inj collisionFree (.inr (mem_insert _ _)) (.inl (mem_insert _ _))] at same
  have separates := @separates_of_injOn hashes _
    (treeUses (merkleNodeAt hashes) (paddedLeaf hashes leaves) (treeDepth leaves) ∪
      climbUses (merkleNodeAt hashes) leaf index path) collisionFree (by
    rw [image_union]
    exact union_subset_union (subset_insert _ _) (subset_insert _ _))
  rcases lt_trichotomy path.length (treeDepth leaves) with shorter | equal | longer
  · have split : treeDepth leaves - path.length + path.length = treeDepth leaves := by omega
    obtain ⟨start, way⟩ := climb_inj separates (by rw [split]; exact subset_union_left) subset_union_right rfl
      inside (by rw [split]; exact same)
    have width : treeDepth leaves - (treeDepth leaves - path.length) = path.length := by omega
    exact .inr (.inl ⟨treeDepth leaves - path.length, by omega, by omega, by rw [width], inside, start,
      by rw [width]; exact way⟩)
  · obtain ⟨start, -⟩ := climb_inj separates (by rw [Nat.zero_add]; exact subset_union_left) subset_union_right
      equal (by rwa [← equal]) (by rw [Nat.zero_add]; exact same)
    exact .inl ⟨by rw [equal], start⟩
  · obtain ⟨below, above, rfl, length⟩ : ∃ below above, path = below ++ above ∧ above.length = treeDepth leaves :=
      ⟨path.take (path.length - treeDepth leaves), path.drop (path.length - treeDepth leaves),
        (take_append_drop _ _).symm, by rw [length_drop]; omega⟩
    rw [length_append, length] at inside longer ⊢
    rw [climb_append] at same
    have short : index / 2 ^ below.length < 2 ^ treeDepth leaves := by
      rw [pow_add] at inside
      exact Nat.div_lt_of_lt_mul inside
    obtain ⟨start, way⟩ := climb_inj separates (by rw [Nat.zero_add]; exact subset_union_left)
      ((climbUses_above _ _ _ _).trans subset_union_right) length short (by rw [Nat.zero_add]; exact same)
    exact .inr (.inr ⟨below, by omega, rfl, inside, start, by rw [← way]⟩)

end Paths

/-- With BLAKE3 free of collisions on what is hashed: the announced list is
the committed one unless it is another list of which one is, padded, a level
of the tree over the other; and an accepted path is one for the leaf at its
position unless it starts at an inner node of the tree or below a leaf. -/
theorem commitment_binding_iff (hashes : Hashes) (leaves : List Hash32) :
    (∀ leaves', Set.InjOn hashes.blake3 (treeInputs hashes leaves ∪ treeInputs hashes leaves') →
      ((verifyCommitmentRoot hashes ((new hashes leaves).root hashes) leaves' = true →
          leaves' = leaves) ↔
        ¬(leaves' ≠ [] ∧ leaves' ≠ leaves ∧ (IsLevelOf hashes leaves leaves' ∨ IsLevelOf hashes leaves' leaves)))) ∧
    ∀ leaf index paddedLen path,
      Set.InjOn hashes.blake3 (treeInputs hashes leaves ∪ pathInputs hashes leaf index path) →
      ((verifyMerklePath hashes ((new hashes leaves).root hashes) leaf index paddedLen path = true →
          paddedLen = leaves.length.nextPowerOfTwo ∧ leaf = paddedLeaf hashes leaves index) ↔
        ¬(InnerProof hashes leaves leaf index paddedLen path ∨ DeepProof hashes leaves leaf index paddedLen path)) := by
  rw [root_eq, paddedLen_eq]
  constructor
  · intro leaves' collisionFree
    rw [verifyCommitmentRoot_iff, treeRoot_eq_iff collisionFree]
    tauto
  · intro leaf index paddedLen path collisionFree
    constructor
    · rintro binds (inner | deep)
      · have width := (binds (climb_of_innerProof inner)).1
        obtain ⟨height, positive, below, rfl, -⟩ := inner
        have := Nat.pow_right_injective le_rfl width
        omega
      · have width := (binds (climb_of_deepProof deep)).1
        obtain ⟨below, positive, rfl, -⟩ := deep
        have := Nat.pow_right_injective le_rfl width
        omega
    · intro ordinary accepted
      exact (accepted_cases collisionFree accepted).resolve_right ordinary

section Pair

def firstLeaf : Hash32 := Vector.replicate 32 1

def secondLeaf : Hash32 := Vector.ofFn fun i => UInt8.ofNat i.val

def pairTop : Hash32 := merkleNodeAt lastHashes firstLeaf secondLeaf 0

theorem treeDepth_pair : treeDepth [firstLeaf, secondLeaf] = 1 := Nat.clog_eq_one (by decide) (by decide)

theorem treeDepth_single (leaf : Hash32) : treeDepth [leaf] = 0 := Nat.clog_one_right 2

theorem pairLeaves_inputs : treeInputs lastHashes [firstLeaf, secondLeaf] ∪ treeInputs lastHashes [pairTop] ⊆
    {rootInput pairTop, nodeInput (firstLeaf, secondLeaf, 0)} := by
  rintro input ((rfl | ⟨parts, ⟨height, position, below, inside, rfl⟩, rfl⟩) |
    (rfl | ⟨parts, ⟨height, position, below, _⟩, _⟩))
  · rw [treeDepth_pair]
    exact .inl rfl
  · rw [treeDepth_pair] at below inside
    obtain rfl : height = 0 := by omega
    obtain rfl : position = 0 := by omega
    exact .inr rfl
  · rw [treeDepth_single]
    exact .inl rfl
  · rw [treeDepth_single] at below
    exact absurd below (not_lt_zero height)

theorem pair_collisionFree : Set.InjOn lastHashes.blake3
    (treeInputs lastHashes [firstLeaf, secondLeaf] ∪ treeInputs lastHashes [pairTop]) := by
  refine Set.InjOn.mono pairLeaves_inputs ?_
  have apart : lastHashes.blake3 (rootInput pairTop) ≠ lastHashes.blake3 (nodeInput (firstLeaf, secondLeaf, 0)) := by
    decide +kernel
  rw [injOn_pair]
  exact fun same => absurd same apart

theorem pairTop_isLevelOf : IsLevelOf lastHashes [pairTop] [firstLeaf, secondLeaf] := by
  refine ⟨1, by rw [treeDepth_pair], by rw [treeDepth_pair, treeDepth_single], fun position inside => ?_⟩
  rw [treeDepth_single] at inside
  obtain rfl : position = 0 := by omega
  rfl

theorem pairTop_innerProof : InnerProof lastHashes [firstLeaf, secondLeaf] pairTop 0 1 [] :=
  ⟨1, one_pos, by rw [treeDepth_pair], by rw [treeDepth_pair]; rfl, one_pos, rfl, by rw [treeDepth_pair]; rfl⟩

/-- The one node above two leaves is accepted as the list they commit to, and
as a leaf of a tree of width 1. -/
theorem pair_top_accepted :
    Set.InjOn lastHashes.blake3 (treeInputs lastHashes [firstLeaf, secondLeaf] ∪ treeInputs lastHashes [pairTop]) ∧
    verifyCommitmentRoot lastHashes ((new lastHashes [firstLeaf, secondLeaf]).root lastHashes)
      [pairTop] = true ∧ [pairTop] ≠ [firstLeaf, secondLeaf] ∧
    verifyMerklePath lastHashes ((new lastHashes [firstLeaf, secondLeaf]).root lastHashes)
      pairTop 0 1 [] = true ∧ 1 ≠ [firstLeaf, secondLeaf].length.nextPowerOfTwo := by
  rw [root_eq, verifyCommitmentRoot_iff, paddedLen_eq, treeDepth_pair]
  exact ⟨pair_collisionFree, ⟨by simp, (treeRoot_eq_iff pair_collisionFree).mpr (.inr pairTop_isLevelOf)⟩, by simp,
    climb_of_innerProof pairTop_innerProof, by decide⟩

theorem pair_not_bound :
    ¬(verifyCommitmentRoot lastHashes ((new lastHashes [firstLeaf, secondLeaf]).root lastHashes)
      [pairTop] = true → [pairTop] = [firstLeaf, secondLeaf]) := by
  rw [(commitment_binding_iff lastHashes [firstLeaf, secondLeaf]).1 [pairTop] pair_collisionFree, not_not]
  exact ⟨by simp, by simp, .inr pairTop_isLevelOf⟩

end Pair

end Bleep
