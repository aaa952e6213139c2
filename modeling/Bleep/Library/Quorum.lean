import Mathlib.Algebra.BigOperators.Group.Finset.Basic
import Mathlib.Algebra.Ring.Nat

namespace Quorum

open Finset

variable {V X : Type} [DecidableEq V]

/-- More than two thirds of `n`. -/
def threshold (n : Nat) : Nat := n * 2 / 3 + 1

/-- Two sets that each weigh more than two thirds share more than a third. -/
theorem total_lt_three_mul_inter {weight : V → Nat} {total : Nat} {left right : Finset V}
    (bounded : ∑ v ∈ left ∪ right, weight v ≤ total) (leftQuorum : threshold total ≤ ∑ v ∈ left, weight v)
    (rightQuorum : threshold total ≤ ∑ v ∈ right, weight v) : total < 3 * ∑ v ∈ left ∩ right, weight v := by
  have counted := @Finset.sum_union_inter _ _ left right _ weight _
  unfold threshold at leftQuorum rightQuorum
  omega

/-- `x` has a quorum, of which the members that are not faulty voted for it. -/
def Certified (members faulty : Finset V) (voted : V → X → Prop) (x : X) : Prop :=
  ∃ quorum ⊆ members, threshold members.card ≤ quorum.card ∧ ∀ v ∈ quorum, v ∉ faulty → voted v x

variable {members faulty : Finset V} {voted voted' : V → X → Prop} {x y : X}

omit [DecidableEq V] in
theorem Certified.mono (more : ∀ v, voted v x → voted' v x) (certified : Certified members faulty voted x) :
    Certified members faulty voted' x := by
  obtain ⟨quorum, within, enough, votes⟩ := certified
  exact ⟨quorum, within, enough, fun v member correct => more v (votes v member correct)⟩

/-- Where correct members vote once, at most one value is certified. -/
theorem Certified.unique (few : 3 * faulty.card < members.card)
    (once : ∀ v ∈ members, v ∉ faulty → ∀ x y, voted v x → voted v y → x = y)
    (first : Certified members faulty voted x) (second : Certified members faulty voted y) : x = y := by
  obtain ⟨left, leftWithin, leftEnough, leftVotes⟩ := first
  obtain ⟨right, rightWithin, rightEnough, rightVotes⟩ := second
  have overlap : members.card < 3 * (left ∩ right).card := by
    have both : (left ∪ right).card ≤ members.card := card_le_card (union_subset leftWithin rightWithin)
    simp only [card_eq_sum_ones] at both leftEnough rightEnough ⊢
    exact total_lt_three_mul_inter both leftEnough rightEnough
  obtain ⟨v, common, correct⟩ : ∃ v ∈ left ∩ right, v ∉ faulty :=
    exists_mem_notMem_of_card_lt_card (by omega)
  obtain ⟨inLeft, inRight⟩ := mem_inter.mp common
  exact once v (leftWithin inLeft) correct x y (leftVotes v inLeft correct) (rightVotes v inRight correct)

section Weights

variable {A K : Type} {weight : A → ℕ} {list : List A} {chosen other : A → Bool}

/-- The weight of those in a list that are chosen. -/
def weigh (weight : A → ℕ) (list : List A) (chosen : A → Bool) : ℕ :=
  (list.map fun v => if chosen v then weight v else 0).sum

theorem weigh_cons (weight : A → ℕ) (v : A) (list : List A) (chosen : A → Bool) :
    weigh weight (v :: list) chosen = (if chosen v then weight v else 0) + weigh weight list chosen := by
  rw [weigh, List.map_cons, List.sum_cons, weigh]

theorem weigh_congr (same : ∀ v ∈ list, chosen v = other v) : weigh weight list chosen = weigh weight list other := by
  unfold weigh
  rw [List.map_congr_left fun v member => by rw [same v member]]

theorem weigh_eq_zero (none : ∀ v ∈ list, chosen v = false) : weigh weight list chosen = 0 := by
  induction list with
  | nil => rfl
  | cons v list ih =>
    rw [List.forall_mem_cons] at none
    rw [weigh_cons, ih none.2, none.1, if_neg Bool.false_ne_true]

theorem weigh_mono (more : ∀ v ∈ list, chosen v = true → other v = true) :
    weigh weight list chosen ≤ weigh weight list other := by
  induction list with
  | nil => exact le_rfl
  | cons v list ih =>
    rw [List.forall_mem_cons] at more
    have rest := ih more.2
    have here := more.1
    rw [weigh_cons, weigh_cons]
    cases first : chosen v with
    | false =>
      rw [if_neg Bool.false_ne_true]
      omega
    | true =>
      rw [if_pos rfl, if_pos (here first)]
      omega

/-- Two choices weigh no more than the whole list and what they share. -/
theorem weigh_add_weigh_le (weight : A → ℕ) (list : List A) (chosen other : A → Bool) :
    weigh weight list chosen + weigh weight list other ≤
      weigh weight list (fun _ => true) + weigh weight list (fun v => chosen v && other v) := by
  induction list with
  | nil => exact le_rfl
  | cons v list ih =>
    simp only [weigh_cons]
    cases chosen v with
    | false =>
      cases other v <;> simp only [Bool.and_false, Bool.and_true, if_true, Bool.false_eq_true, if_false] <;> omega
    | true =>
      cases other v <;> simp only [Bool.and_false, Bool.and_true, if_true, Bool.false_eq_true, if_false] <;> omega

/-- A choice that falls into two parts. -/
theorem weigh_split {first second} (parts : ∀ v ∈ list, chosen v = (first v || second v))
    (apart : ∀ v ∈ list, first v = true → second v = false) :
    weigh weight list chosen = weigh weight list first + weigh weight list second := by
  induction list with
  | nil => rfl
  | cons v list ih =>
    rw [List.forall_mem_cons] at parts apart
    have rest := ih parts.2 apart.2
    have here := apart.1
    rw [weigh_cons, weigh_cons, weigh_cons, parts.1, rest]
    cases one : first v with
    | false =>
      rw [Bool.false_or, if_neg Bool.false_ne_true]
      omega
    | true =>
      rw [here one, Bool.true_or, if_pos rfl, if_neg Bool.false_ne_true]
      omega

/-- Where keys differ, a key chooses at most the one that is found for it. -/
theorem weigh_key [DecidableEq K] {key} (nodup : (list.map key).Nodup) (k : K) (chosen : A → Bool) :
    weigh weight list (fun v => decide (key v = k) && chosen v) =
      (list.find? fun v => decide (key v = k)).elim 0 fun v => if chosen v then weight v else 0 := by
  induction list with
  | nil => rfl
  | cons v list ih =>
    rw [List.map_cons, List.nodup_cons] at nodup
    rw [weigh_cons, List.find?_cons]
    by_cases here : key v = k
    · have none : weigh weight list (fun u => decide (key u = k) && chosen u) = 0 := by
        refine weigh_eq_zero fun u member => ?_
        have differs : key u ≠ k := fun same =>
          nodup.1 (List.mem_map.mpr ⟨u, member, same.trans here.symm⟩)
        rw [decide_eq_false differs, Bool.false_and]
      rw [none, decide_eq_true here, Bool.true_and, Nat.add_zero]
      rfl
    · rw [decide_eq_false here, Bool.false_and, if_neg Bool.false_ne_true, Nat.zero_add, ih nodup.2]

end Weights

end Quorum
