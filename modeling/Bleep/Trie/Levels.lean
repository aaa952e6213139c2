import Bleep.Library.SparseTree
import Bleep.Trie.SparseMerkleTrie
import Mathlib.Data.FinEnum

namespace Bleep
open HashTable SparseTree List Option

open Classical in
/-- The leaves of the trie as a tree over bit strings. -/
noncomputable def leafMap (leaves : HashMap Hash32 NodeHash) (bits : List Bool) : Option NodeHash :=
  if present : ∃ path, prefixBits path 256 = bits then leaves.lookup present.choose else none

theorem leafMap_prefixBits (leaves : HashMap Hash32 NodeHash) (path : Hash32) :
    leafMap leaves (prefixBits path 256) = leaves.lookup path := by
  have present : ∃ other, prefixBits other 256 = prefixBits path 256 := ⟨path, rfl⟩
  rw [leafMap, dif_pos present, prefixBits_injective present.choose_spec]

variable {bits : List Bool} {value : NodeHash}

theorem leafMap_isSome {leaves} (present : (leafMap leaves bits).isSome) :
    ∃ path, prefixBits path 256 = bits ∧ (leaves.lookup path).isSome := by
  unfold leafMap at present
  split at present
  · rename_i found
    exact ⟨found.choose, found.choose_spec, present⟩
  · cases present

/-- A node of the tree at `depth`: its key, cleared below the depth, and its
hash. Nodes exist only above some leaf. -/
structure NodeSpec (blake3 : Bytes → Hash32) (leaves : HashMap Hash32 NodeHash) (depth : Nat)
    (path : Hash32) (value : NodeHash) : Prop where
  cleared : Cleared depth path
  occupied : Occupied (leafMap leaves) (prefixBits path depth)
  hash : value = subtree emptyNode (interiorHash blake3) (leafMap leaves) (256 - depth) (prefixBits path depth)

def LevelHolds (blake3 : Bytes → Hash32) (leaves : HashMap Hash32 NodeHash) (depth : Nat)
    (level : HashMap Hash32 NodeHash) : Prop :=
  ∀ path value, level.lookup path = some value ↔ NodeSpec blake3 leaves depth path value

/-- The cache holds the nodes of all levels from `depth` down to the leaves. -/
def CacheHolds (blake3 : Bytes → Hash32) (leaves : HashMap Hash32 NodeHash) (depth : Nat)
    (cache : HashMap (Nat × Hash32) NodeHash) : Prop :=
  ∀ d path value, cache.lookup (d, path) = some value ↔ depth ≤ d ∧ d ≤ 256 ∧ NodeSpec blake3 leaves d path value

variable {blake3 : Bytes → Hash32} {leaves : HashMap Hash32 NodeHash} {depth : Nat} {σ : IterOrder}

theorem exists_node_of_occupied (occupied : Occupied (leafMap leaves) bits) :
    ∃ path, Cleared bits.length path ∧ prefixBits path bits.length = bits := by
  obtain ⟨key, inside, present⟩ := occupied
  obtain ⟨path, rfl, -⟩ := leafMap_isSome present
  have short : bits.length ≤ 256 := by simpa using inside.length_le
  refine ⟨masked path bits.length, cleared_masked path _, ?_⟩
  rw [prefixBits_masked path short]
  exact (eq_prefixBits_of_isPrefix inside).symm

variable {path parent : Hash32} {level : HashMap Hash32 NodeHash}

theorem nodeSpec_leaf_iff : NodeSpec blake3 leaves 256 path value ↔ leaves.lookup path = some value := by
  constructor
  · intro node
    obtain ⟨key, inside, present⟩ := node.occupied
    obtain ⟨other, rfl, -⟩ := leafMap_isSome present
    have whole : path = other := prefixBits_injective (inside.eq_of_length (by simp))
    rw [leafMap_prefixBits] at present
    obtain ⟨found, lookup⟩ := isSome_iff_exists.mp present
    have hash := node.hash
    rw [Nat.sub_self, subtree, leafMap_prefixBits, whole, lookup, getD_some] at hash
    rw [whole, lookup, hash]
  · intro lookup
    refine ⟨fun k bound above => absurd above (by omega), ⟨prefixBits path 256, prefix_rfl, ?_⟩, ?_⟩
    · rw [leafMap_prefixBits, lookup]
      rfl
    · rw [Nat.sub_self, subtree, leafMap_prefixBits, lookup, getD_some]

theorem masked_eq_of_bits {depth} (shallow : depth ≤ 256) (cleared : Cleared depth parent)
    (same : prefixBits path depth = prefixBits parent depth) : masked path depth = parent :=
  (cleared_masked path depth).ext cleared ((prefixBits_masked path shallow).trans same)

theorem side_eq (path : Hash32) (depth : Nat) : (bitAt path depth != 0) = pathBit path depth := by
  rw [bitAt_eq]
  cases pathBit path depth <;> rfl

section
variable (shallow : depth < 256) (holds : LevelHolds blake3 leaves (depth + 1) level)
include shallow holds

theorem lastChild_level (cleared : Cleared depth parent) (side : Bool) :
    lastChild (fun path => masked path depth) (fun path => bitAt path depth != 0) emptyNode
        (σ.iter (2 * depth) level) parent side =
      subtree emptyNode (interiorHash blake3) (leafMap leaves) (255 - depth)
        (prefixBits parent depth ++ [side]) := by
  -- an entry in this slot has exactly the bits of the child
  have bits {path : Hash32} (hp : masked path depth = parent) (hs : (bitAt path depth != 0) = side) :
      prefixBits path (depth + 1) = prefixBits parent depth ++ [side] := by
    rw [prefixBits_succ, ← hp, prefixBits_masked path (by omega), ← hs, side_eq]
  by_cases occupied : Occupied (leafMap leaves) (prefixBits parent depth ++ [side])
  · obtain ⟨child, childCleared, childBits⟩ := exists_node_of_occupied occupied
    rw [length_append, length_singleton, prefixBits_length] at childCleared childBits
    have split := prefixBits_succ child depth
    rw [childBits] at split
    obtain ⟨high, low⟩ := append_inj split (by simp)
    have found := (holds child _).mpr ⟨childCleared, childBits ▸ occupied, rfl⟩
    rw [childBits, show 256 - (depth + 1) = 255 - depth by omega] at found
    refine lastChild_of_mem (iter_keys_nodup σ _ level) ?_ (mem_iter.mpr found)
      (masked_eq_of_bits (by omega) cleared high.symm) ?_
    · rintro ⟨path, value⟩ member hp hs
      have node := (holds path value).mp (mem_iter.mp member)
      exact node.cleared.ext childCleared ((bits hp hs).trans childBits.symm)
    · rw [side_eq]
      exact (singleton_inj.mp low).symm
  · rw [subtree_of_not_occupied _ occupied]
    refine lastChild_of_forall_not _ _ _ ?_
    rintro ⟨path, value⟩ member hp hs
    have node := (holds path value).mp (mem_iter.mp member)
    exact occupied (bits hp hs ▸ node.occupied)

theorem lookup_collectParents {left right} :
    (collectParents σ depth level).lookup parent = some (left, right) ↔
      Cleared depth parent ∧ Occupied (leafMap leaves) (prefixBits parent depth) ∧
        left = subtree emptyNode (interiorHash blake3) (leafMap leaves) (255 - depth)
          (prefixBits parent depth ++ [false]) ∧
        right = subtree emptyNode (interiorHash blake3) (leafMap leaves) (255 - depth)
          (prefixBits parent depth ++ [true]) := by
  rw [collectParents, lookup_addChildren]
  have listed : parent ∈ (σ.iter (2 * depth) level).map (fun entry => masked entry.1 depth) ↔
      Cleared depth parent ∧ Occupied (leafMap leaves) (prefixBits parent depth) := by
    constructor
    · intro member
      obtain ⟨⟨path, value⟩, entry, rfl⟩ := mem_map.mp member
      have node := (holds path value).mp (mem_iter.mp entry)
      refine ⟨cleared_masked path depth, ?_⟩
      obtain ⟨key, inside, present⟩ := node.occupied
      rw [prefixBits_masked path (by omega)]
      rw [prefixBits_succ] at inside
      exact ⟨key, (prefix_append _ _).trans inside, present⟩
    · rintro ⟨cleared, key, inside, present⟩
      obtain ⟨path, rfl, found⟩ := leafMap_isSome present
      have node : NodeSpec blake3 leaves (depth + 1) (masked path (depth + 1)) _ :=
        ⟨cleared_masked path _, ⟨prefixBits path 256, by
          rw [prefixBits_masked path (by omega)]
          exact prefixBits_isPrefix path (by omega), present⟩, rfl⟩
      refine mem_map.mpr ⟨_, mem_iter.mpr ((holds _ _).mpr node), ?_⟩
      refine masked_eq_of_bits (by omega) cleared ?_
      have own := eq_prefixBits_of_isPrefix inside
      rw [prefixBits_length] at own
      have high := prefixBits_masked path (show depth + 1 ≤ 256 by omega)
      rw [prefixBits_succ, prefixBits_succ] at high
      exact (append_inj_left high (by simp)).trans own.symm
  split
  · rename_i member
    obtain ⟨cleared, occupied⟩ := listed.mp member
    rw [lastChild_level shallow holds cleared, lastChild_level shallow holds cleared, some.injEq, Prod.mk.injEq]
    constructor
    · rintro ⟨rfl, rfl⟩
      exact ⟨cleared, occupied, rfl, rfl⟩
    · rintro ⟨-, -, rfl, rfl⟩
      exact ⟨rfl, rfl⟩
  · rename_i absent
    constructor
    · rintro ⟨⟩
    · rintro ⟨cleared, occupied, -, -⟩
      exact absurd (listed.mpr ⟨cleared, occupied⟩) absent

theorem nodeSpec_of_parents :
    (path, value) ∈ (σ.iter (2 * depth + 1) (collectParents σ depth level)).map
        (fun parent => (parent.1, interiorHash blake3 parent.2.1 parent.2.2)) ↔
      NodeSpec blake3 leaves depth path value := by
  have height : 256 - depth = 255 - depth + 1 := by omega
  constructor
  · intro member
    obtain ⟨⟨parent, left, right⟩, entry, same⟩ := mem_map.mp member
    obtain ⟨rfl, rfl⟩ := Prod.mk.inj same
    obtain ⟨cleared, occupied, rfl, rfl⟩ := (lookup_collectParents shallow holds).mp (mem_iter.mp entry)
    exact ⟨cleared, occupied, by rw [height, subtree, if_pos occupied]⟩
  · rintro ⟨cleared, occupied, rfl⟩
    refine mem_map.mpr ⟨(path, _, _),
      mem_iter.mpr ((lookup_collectParents shallow holds).mpr ⟨cleared, occupied, rfl, rfl⟩), ?_⟩
    rw [height, subtree, if_pos occupied]

end

theorem levelStep_holds {state} (shallow : depth < 256) (level : LevelHolds blake3 leaves (depth + 1) state.1)
    (cache : CacheHolds blake3 leaves (depth + 1) state.2) :
    LevelHolds blake3 leaves depth (levelStep blake3 σ state depth).1 ∧
      CacheHolds blake3 leaves depth (levelStep blake3 σ state depth).2 := by
  have keys : ((σ.iter (2 * depth + 1) (collectParents σ depth state.1)).map
      (fun parent => (parent.1, interiorHash blake3 parent.2.1 parent.2.2))).map Prod.fst |>.Nodup := by
    rw [List.map_map]
    exact iter_keys_nodup σ _ _
  constructor
  · intro path value
    exact (lookup_collect keys).trans (nodeSpec_of_parents shallow level)
  · intro d path value
    have fresh (key : Hash32) : state.2.lookup (depth, key) = none := by
      rw [eq_none_iff_forall_ne_some]
      intro v found
      have above := ((cache depth key v).mp found).1
      omega
    refine (lookup_insertTagged state.2 keys fresh).trans ?_
    rw [nodeSpec_of_parents shallow level, cache d path value]
    constructor
    · rintro (⟨rfl, node⟩ | ⟨above, deep, node⟩)
      · exact ⟨le_rfl, by omega, node⟩
      · exact ⟨by omega, deep, node⟩
    · rintro ⟨above, deep, node⟩
      rcases Nat.eq_or_lt_of_le above with rfl | below
      · exact .inl ⟨rfl, node⟩
      · exact .inr ⟨below, deep, node⟩

theorem levels_hold {state n} (bound : n ≤ 256)
    (holds : LevelHolds blake3 leaves n state.1 ∧ CacheHolds blake3 leaves n state.2) :
    LevelHolds blake3 leaves 0 ((List.range n).reverse.foldl (levelStep blake3 σ) state).1 ∧
      CacheHolds blake3 leaves 0 ((List.range n).reverse.foldl (levelStep blake3 σ) state).2 := by
  induction n generalizing state with
  | zero => exact holds
  | succ n ih =>
    rw [range_succ, reverse_append, reverse_singleton, singleton_append, foldl_cons]
    exact ih (by omega) (levelStep_holds (by omega) holds.1 holds.2)

/-- The root of the reference tree over the leaves of a trie. -/
noncomputable def leavesRoot (blake3 : Bytes → Hash32) (leaves : HashMap Hash32 NodeHash) : NodeHash :=
  subtree emptyNode (interiorHash blake3) (leafMap leaves) 256 []

theorem lookup_root (holds : LevelHolds blake3 leaves 0 level) :
    (level.lookup (Vector.replicate 32 0)).getD emptyNode = leavesRoot blake3 leaves := by
  have zero : Cleared 0 (Vector.replicate 32 0) := by
    intro k bound _
    simp [pathBit, getD_eq_get _ (show k / 8 < 32 by omega), Vector.get]
  by_cases occupied : Occupied (leafMap leaves) []
  · have found := (holds (Vector.replicate 32 0) _).mpr ⟨zero, occupied, rfl⟩
    rw [found]
    rfl
  · cases found : level.lookup (Vector.replicate 32 0) with
    | some value => exact absurd ((holds _ _).mp found).occupied occupied
    | none => exact (subtree_of_not_occupied 256 occupied).symm

/-- `compute_root_with_cache` from an empty cache gives the reference root
and a cache of exactly the nodes of the tree. -/
theorem computeRootWithCache_spec {trie : SparseMerkleTrie} (clean : trie.interiorCache = ∅) :
    (trie.computeRootWithCache blake3 σ).1 = leavesRoot blake3 trie.leaves ∧
      CacheHolds blake3 trie.leaves 0 (trie.computeRootWithCache blake3 σ).2 := by
  unfold SparseMerkleTrie.computeRootWithCache
  split
  · rename_i isEmpty
    have vacant (bits : List Bool) : ¬ Occupied (leafMap trie.leaves) bits := by
      rintro ⟨key, -, present⟩
      obtain ⟨path, -, found⟩ := leafMap_isSome present
      obtain ⟨value, lookup⟩ := isSome_iff_exists.mp found
      have member := AList.mem_lookup_iff.mp (mem_def.mpr lookup)
      rw [isEmpty_iff.mp isEmpty] at member
      cases member
    refine ⟨(subtree_of_not_occupied 256 (vacant [])).symm, fun d path value => ?_⟩
    rw [clean, AList.lookup_empty]
    constructor
    · rintro ⟨⟩
    · rintro ⟨-, -, node⟩
      exact absurd node.occupied (vacant _)
  · have level : LevelHolds blake3 trie.leaves 256 (insertAll ∅ (σ.iter (2 * trieDepth) trie.leaves)) := by
      intro path value
      rw [lookup_collect (iter_keys_nodup σ _ _), mem_iter, nodeSpec_leaf_iff]
    have cache : CacheHolds blake3 trie.leaves 256 (insertAll trie.interiorCache
        ((σ.iter (2 * trieDepth) trie.leaves).map fun leaf => ((trieDepth, leaf.1), leaf.2))) := by
      intro d path value
      rw [lookup_insertTagged _ (iter_keys_nodup σ _ _) (by simp [clean]), clean, AList.lookup_empty, mem_iter]
      constructor
      · rintro (⟨rfl, found⟩ | none)
        · exact ⟨le_rfl, le_rfl, nodeSpec_leaf_iff.mpr found⟩
        · cases none
      · rintro ⟨above, deep, node⟩
        obtain rfl : d = 256 := by omega
        exact .inl ⟨rfl, nodeSpec_leaf_iff.mp node⟩
    obtain ⟨top, filled⟩ := @levels_hold _ _ σ (_, _) _ le_rfl ⟨level, cache⟩
    exact ⟨lookup_root top, filled⟩

end Bleep
