import Mathlib.Data.Set.Function
import Mathlib.Data.List.Infix

namespace SparseTree

open List Option

variable {α : Type*}

/-- Some key below the prefix has a leaf. -/
def Occupied (leaf : List Bool → Option α) (p : List Bool) : Prop :=
  ∃ key, p <+: key ∧ (leaf key).isSome

open Classical in
/-- The sparse Merkle tree over the leaves: `subtree h p` is the hash of the
subtree below the prefix `p` which has `h` levels. Empty subtrees are never
hashed. -/
noncomputable def subtree (empty : α) (combine : α → α → α) (leaf : List Bool → Option α) :
    Nat → List Bool → α
  | 0, p => (leaf p).getD empty
  | h + 1, p =>
    if Occupied leaf p then
      combine (subtree empty combine leaf h (p ++ [false])) (subtree empty combine leaf h (p ++ [true]))
    else empty

/-- What a tree of depth `n` must satisfy for empty to mean empty. -/
structure Sentinel (empty : α) (combine : α → α → α) (n : Nat) (leaf : List Bool → Option α) : Prop where
  combine_ne : ∀ left right, combine left right ≠ empty
  leaf_ne : ∀ key value, leaf key = some value → value ≠ empty
  keyed : ∀ key, (leaf key).isSome → key.length = n

variable {empty : α} {combine : α → α → α} {n : Nat} {leaf : List Bool → Option α} {h : Nat} {p : List Bool}

theorem occupied_append_cases (sentinel : Sentinel empty combine n leaf) (depth : p.length + (h + 1) = n) :
    Occupied leaf p ↔ Occupied leaf (p ++ [false]) ∨ Occupied leaf (p ++ [true]) := by
  constructor
  · rintro ⟨key, ⟨rest, rfl⟩, some⟩
    have length := sentinel.keyed _ some
    rw [length_append] at length
    cases rest with
    | nil =>
      rw [length_nil] at length
      omega
    | cons b rest =>
      cases b
      · exact .inl ⟨_, ⟨rest, by simp⟩, some⟩
      · exact .inr ⟨_, ⟨rest, by simp⟩, some⟩
  · rintro (⟨key, inside, some⟩ | ⟨key, inside, some⟩)
    · exact ⟨key, (prefix_append p _).trans inside, some⟩
    · exact ⟨key, (prefix_append p _).trans inside, some⟩

theorem occupied_leaf_iff (sentinel : Sentinel empty combine n leaf) (depth : p.length = n) :
    Occupied leaf p ↔ (leaf p).isSome := by
  constructor
  · rintro ⟨key, inside, some⟩
    have whole : p = key := inside.eq_of_length (depth.trans (sentinel.keyed key some).symm)
    rwa [whole]
  · intro some
    exact ⟨p, prefix_rfl, some⟩

theorem subtree_of_not_occupied (h : Nat) (vacant : ¬ Occupied leaf p) : subtree empty combine leaf h p = empty := by
  cases h with
  | zero =>
    have none : leaf p = none := by
      rw [← not_isSome_iff_eq_none]
      exact fun some => vacant ⟨p, prefix_rfl, some⟩
    rw [subtree, none, getD_none]
  | succ h => rw [subtree, if_neg vacant]

theorem subtree_ne_empty (sentinel : Sentinel empty combine n leaf) (depth : p.length + h = n)
    (occupied : Occupied leaf p) : subtree empty combine leaf h p ≠ empty := by
  cases h with
  | zero =>
    obtain ⟨value, atLeaf⟩ := isSome_iff_exists.mp ((occupied_leaf_iff sentinel depth).mp occupied)
    rw [subtree, atLeaf, getD_some]
    exact sentinel.leaf_ne p value atLeaf
  | succ h =>
    rw [subtree, if_pos occupied]
    exact sentinel.combine_ne _ _

theorem subtree_eq_empty_iff (sentinel : Sentinel empty combine n leaf) (depth : p.length + h = n) :
    subtree empty combine leaf h p = empty ↔ ¬ Occupied leaf p :=
  ⟨fun same occupied => subtree_ne_empty sentinel depth occupied same, subtree_of_not_occupied h⟩

variable [DecidableEq α]

/-- How a verifier puts two children together without knowing which
subtrees are empty. -/
def join (empty : α) (combine : α → α → α) (left right : α) : α :=
  if left = empty ∧ right = empty then empty else combine left right

/-- From a leaf to the root along `bits`, both lists from the root down. -/
def climb (empty : α) (combine : α → α → α) : List Bool → List α → α → α
  | true :: bits, s :: siblings, x => join empty combine s (climb empty combine bits siblings x)
  | false :: bits, s :: siblings, x => join empty combine (climb empty combine bits siblings x) s
  | _, _, x => x

/-- One level of the tree is the verifier's `join` of the level below. -/
theorem subtree_succ (sentinel : Sentinel empty combine n leaf) (depth : p.length + (h + 1) = n) :
    subtree empty combine leaf (h + 1) p =
      join empty combine (subtree empty combine leaf h (p ++ [false])) (subtree empty combine leaf h (p ++ [true])) := by
  have below (b : Bool) : (p ++ [b]).length + h = n := by
    rw [length_append, length_singleton]
    omega
  have vacant : (subtree empty combine leaf h (p ++ [false]) = empty ∧
      subtree empty combine leaf h (p ++ [true]) = empty) ↔ ¬ Occupied leaf p := by
    rw [subtree_eq_empty_iff sentinel (below false), subtree_eq_empty_iff sentinel (below true), ← not_or,
      ← occupied_append_cases sentinel depth]
  rw [join, subtree]
  by_cases occupied : Occupied leaf p
  · rw [if_pos occupied, if_neg fun both => vacant.mp both occupied]
  · rw [if_neg occupied, if_pos (vacant.mpr occupied)]

/-- The siblings along `bits`, from the root down. -/
noncomputable def siblings (empty : α) (combine : α → α → α) (leaf : List Bool → Option α) :
    List Bool → List Bool → List α
  | _, [] => []
  | p, b :: bits => subtree empty combine leaf bits.length (p ++ [!b]) :: siblings empty combine leaf (p ++ [b]) bits

theorem climb_siblings (sentinel : Sentinel empty combine n leaf) (p bits : List Bool)
    (depth : p.length + bits.length = n) :
    climb empty combine bits (siblings empty combine leaf p bits) (subtree empty combine leaf 0 (p ++ bits)) =
      subtree empty combine leaf bits.length p := by
  induction bits generalizing p with
  | nil => simp [climb]
  | cons b bits ih =>
    have inner := ih (p ++ [b]) (by simp at depth ⊢; omega)
    rw [append_assoc, singleton_append] at inner
    rw [length_cons, subtree_succ sentinel depth]
    cases b with
    | false => rw [siblings, climb, inner, Bool.not_false]
    | true => rw [siblings, climb, inner, Bool.not_true]

def treePairs (empty : α) (combine : α → α → α) (leaf : List Bool → Option α) (n : Nat) : Set (α × α) :=
  { pair | ∃ p h, p.length + (h + 1) = n ∧ Occupied leaf p ∧
    pair = (subtree empty combine leaf h (p ++ [false]), subtree empty combine leaf h (p ++ [true])) }

def climbPairs (empty : α) (combine : α → α → α) : List Bool → List α → α → Set (α × α)
  | b :: bits, s :: siblings, x =>
    let child := climb empty combine bits siblings x
    { pair | pair = (if b then (s, child) else (child, s)) ∧ pair ≠ (empty, empty) }
      ∪ climbPairs empty combine bits siblings x
  | _, _, _ => ∅

/-- Along empty siblings nothing is hashed. -/
theorem climb_vacant (bits : List Bool) (m : Nat) :
    climb empty combine bits (List.replicate m empty) empty = empty ∧
      climbPairs empty combine bits (List.replicate m empty) empty = ∅ := by
  induction bits generalizing m with
  | nil => exact ⟨rfl, rfl⟩
  | cons b bits ih =>
    cases m with
    | zero => cases b <;> exact ⟨rfl, rfl⟩
    | succ m =>
      obtain ⟨value, pairs⟩ := ih m
      rw [replicate_succ, climbPairs, value, pairs]
      constructor
      · cases b <;> rw [climb, value, join, if_pos ⟨rfl, rfl⟩]
      · simp only [Set.union_empty, ite_self]
        exact Set.eq_empty_of_forall_notMem fun pair both => both.2 both.1

theorem join_injective (combine_ne : ∀ left right, combine left right ≠ empty) {left right left' right'}
    (injective : (left, right) ≠ (empty, empty) → (left', right') ≠ (empty, empty) →
      combine left right = combine left' right' → (left, right) = (left', right'))
    (same : join empty combine left right = join empty combine left' right') :
    left = left' ∧ right = right' := by
  unfold join at same
  split at same
  · rename_i first
    split at same
    · rename_i second
      exact ⟨first.1.trans second.1.symm, first.2.trans second.2.symm⟩
    · exact absurd same.symm (combine_ne _ _)
  · rename_i first
    split at same
    · exact absurd same (combine_ne _ _)
    rename_i second
    exact Prod.mk.inj (injective (fun both => first (Prod.mk.inj both)) (fun both => second (Prod.mk.inj both)) same)

omit [DecidableEq α] in
theorem mem_treePairs (sentinel : Sentinel empty combine n leaf) (depth : p.length + (h + 1) = n)
    (nonempty : (subtree empty combine leaf h (p ++ [false]), subtree empty combine leaf h (p ++ [true])) ≠
      (empty, empty)) :
    (subtree empty combine leaf h (p ++ [false]), subtree empty combine leaf h (p ++ [true])) ∈
      treePairs empty combine leaf n := by
  refine ⟨p, h, depth, ?_, rfl⟩
  by_contra vacant
  rw [occupied_append_cases sentinel depth, not_or] at vacant
  exact nonempty (Prod.ext (subtree_of_not_occupied _ vacant.1) (subtree_of_not_occupied _ vacant.2))

variable {bits : List Bool} (sentinel : Sentinel empty combine n leaf)
include sentinel

/-- Two trees with the same hash have the same leaves, as long as no two pairs
hashed by them collide. -/
theorem leaf_eq_of_subtree_eq {leaf'} (sentinel' : Sentinel empty combine n leaf')
    (depth : p.length + bits.length = n) (injective : Set.InjOn (fun pair : α × α => combine pair.1 pair.2)
      (treePairs empty combine leaf n ∪ treePairs empty combine leaf' n))
    (same : subtree empty combine leaf bits.length p = subtree empty combine leaf' bits.length p) :
    leaf (p ++ bits) = leaf' (p ++ bits) := by
  induction bits generalizing p with
  | nil =>
    rw [append_nil]
    have hidden {leaf : List Bool → Option α} (sentinel : Sentinel empty combine n leaf)
        (vacant : (leaf p).getD empty = empty) : leaf p = none := by
      rw [eq_none_iff_forall_ne_some]
      rintro value found
      rw [found] at vacant
      exact sentinel.leaf_ne p value found vacant
    rw [length_nil, subtree, subtree] at same
    cases first : leaf p with
    | none =>
      rw [first] at same
      exact (hidden sentinel' same.symm).symm
    | some value =>
      cases second : leaf' p with
      | none =>
        rw [second] at same
        rw [← first, hidden sentinel same]
      | some value' =>
        rw [first, second] at same
        exact congrArg some same
  | cons b bits ih =>
    have step : p.length + (bits.length + 1) = n := depth
    have below : (p ++ [b]).length + bits.length = n := by
      rw [length_append, length_singleton]
      omega
    rw [length_cons, subtree_succ sentinel step, subtree_succ sentinel' step] at same
    obtain ⟨left, right⟩ := join_injective sentinel.combine_ne (fun first second equal =>
      injective (.inl (mem_treePairs sentinel step first)) (.inr (mem_treePairs sentinel' step second)) equal) same
    have rest := ih below (by cases b; exacts [left, right])
    rwa [append_assoc, singleton_append] at rest

/-- A climb that ends in the root started from the leaf of the tree, as long
as no two pairs hashed by the tree and by the climb collide. -/
theorem climb_sound {sibs x} (depth : p.length + bits.length = n) (length : sibs.length = bits.length)
    (injective : Set.InjOn (fun pair : α × α => combine pair.1 pair.2)
      (treePairs empty combine leaf n ∪ climbPairs empty combine bits sibs x))
    (same : climb empty combine bits sibs x = subtree empty combine leaf bits.length p) :
    x = subtree empty combine leaf 0 (p ++ bits) := by
  induction bits generalizing p sibs with
  | nil =>
    simpa [climb] using same
  | cons b bits ih =>
    cases sibs with
    | nil => simp at length
    | cons s sibs =>
      have step : p.length + (bits.length + 1) = n := depth
      rw [length_cons, subtree_succ sentinel step] at same
      have rest : Set.InjOn (fun pair : α × α => combine pair.1 pair.2)
          (treePairs empty combine leaf n ∪ climbPairs empty combine bits sibs x) :=
        injective.mono (Set.union_subset_union_right _ Set.subset_union_right)
      have below : (p ++ [b]).length + bits.length = n := by
        rw [length_append, length_singleton]
        omega
      have child : climb empty combine bits sibs x = subtree empty combine leaf bits.length (p ++ [b]) := by
        cases b with
        | false =>
          refine (join_injective sentinel.combine_ne (fun left right equal => ?_) same).1
          exact injective (.inr (.inl ⟨rfl, left⟩)) (.inl (mem_treePairs sentinel step right)) equal
        | true =>
          refine (join_injective sentinel.combine_ne (fun left right equal => ?_) same).2
          exact injective (.inr (.inl ⟨rfl, left⟩)) (.inl (mem_treePairs sentinel step right)) equal
      have leafward := ih below (by simpa using length) rest child
      rwa [append_assoc, singleton_append] at leafward

end SparseTree
