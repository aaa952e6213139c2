import Mathlib.Algebra.BigOperators.Group.List.Basic
import Mathlib.Algebra.Ring.Nat
import Mathlib.Data.Set.Card
import Mathlib.Order.Interval.Finset.Nat

namespace WeightedChoice

open List

variable {α : Type} (weight : α → Nat)

def total (list : List α) : Nat := (list.map weight).sum

/-- The element in whose interval the point lies, when the elements' weights
are laid end to end from 0. -/
def pick (point : Nat) : List α → Option α
  | [] => none
  | a :: list => if point < weight a then some a else pick (point - weight a) list

@[simp] theorem total_nil : total weight [] = 0 := rfl

@[simp] theorem total_cons (a : α) (list : List α) : total weight (a :: list) = weight a + total weight list := by
  rfl

@[simp] theorem total_append (front list : List α) :
    total weight (front ++ list) = total weight front + total weight list := by
  rw [total, map_append, sum_append]
  rfl

variable {weight}

variable {list : List α} {point : Nat} {a : α} {second first : Nat × α}

theorem pick_eq_some_iff : pick weight point list = some a ↔
    ∃ before after, list = before ++ a :: after ∧ total weight before ≤ point ∧
      point < total weight before + weight a := by
  induction list generalizing point with
  | nil => simp [pick]
  | cons head list ih =>
    rw [pick]
    split
    · rename_i inside
      constructor
      · rintro ⟨⟩
        exact ⟨[], list, rfl, Nat.zero_le _, by simpa using inside⟩
      · rintro ⟨before, after, same, lower, -⟩
        cases before with
        | nil => rw [(cons.inj same).1]
        | cons first before =>
          obtain ⟨rfl, -⟩ := cons.inj same
          rw [total_cons] at lower
          omega
    · rename_i beyond
      rw [ih]
      constructor
      · rintro ⟨before, after, rfl, lower, upper⟩
        refine ⟨head :: before, after, rfl, ?_, ?_⟩ <;> rw [total_cons] <;> omega
      · rintro ⟨before, after, same, lower, upper⟩
        cases before with
        | nil =>
          obtain ⟨rfl, -⟩ := cons.inj same
          rw [total_nil] at upper
          omega
        | cons first before =>
          obtain ⟨rfl, rfl⟩ := cons.inj same
          rw [total_cons] at lower upper
          exact ⟨before, after, rfl, by omega, by omega⟩

theorem mem_of_pick (picked : pick weight point list = some a) : a ∈ list := by
  obtain ⟨before, after, rfl, -, -⟩ := pick_eq_some_iff.mp picked
  simp

/-- Every point below the total lies in some interval. -/
theorem exists_pick (below : point < total weight list) : ∃ a, pick weight point list = some a := by
  induction list generalizing point with
  | nil => simp at below
  | cons head list ih =>
    rw [total_cons] at below
    rw [pick]
    split
    · exact ⟨head, rfl⟩
    · exact ih (by omega)

/-- Every element of positive weight is met at some point below the total. -/
theorem exists_point (listed : a ∈ list) (positive : 0 < weight a) :
    ∃ point < total weight list, pick weight point list = some a := by
  obtain ⟨before, after, rfl⟩ := append_of_mem listed
  refine ⟨total weight before, ?_, pick_eq_some_iff.mpr ⟨before, after, rfl, Nat.le_refl _, by omega⟩⟩
  rw [total_append, total_cons]
  omega

/-- The point lies in the interval of this position of the list. -/
def Holds (weight : α → Nat) (list : List α) (point : Nat) (slot : Nat × α) : Prop :=
  list[slot.1]? = some slot.2 ∧ total weight (list.take slot.1) ≤ point ∧
    point < total weight (list.take slot.1) + weight slot.2

theorem holds_of_pick (picked : pick weight point list = some a) : ∃ i, Holds weight list point (i, a) := by
  obtain ⟨before, after, rfl, lower, upper⟩ := pick_eq_some_iff.mp picked
  exact ⟨before.length, by simp, by simpa using lower, by simpa using upper⟩

theorem total_take_le (weight : α → Nat) {slot : Nat × α} {j} (listed : list[slot.1]? = some slot.2)
    (order : slot.1 < j) :
    total weight (list.take slot.1) + weight slot.2 ≤ total weight (list.take j) := by
  obtain ⟨rest, same⟩ := take_prefix_take_left (l := list) (Nat.succ_le_of_lt order)
  rw [← same, take_add_one, listed, total_append, total_append, Option.toList_some, total_cons, total_nil]
  omega

theorem Holds.le (here : Holds weight list point first)
    (there : Holds weight list point second) : first.1 ≤ second.1 := by
  obtain ⟨-, lower, -⟩ := here
  obtain ⟨listed, -, upper⟩ := there
  by_contra later
  have apart := total_take_le weight listed (Nat.lt_of_not_le later)
  omega

theorem Holds.unique (here : Holds weight list point first)
    (there : Holds weight list point second) : first = second := by
  have same := Nat.le_antisymm (here.le there) (there.le here)
  exact Prod.ext same (Option.some.inj (here.1.symm.trans (same ▸ there.1)))

/-- As many points below the total select a position as its element weighs. -/
theorem ncard_holds {slot : Nat × α} (listed : list[slot.1]? = some slot.2) :
    Set.ncard {point | point < total weight list ∧ Holds weight list point slot} = weight slot.2 := by
  have inside := total_take_le weight listed (List.getElem?_eq_some_iff.mp listed).1
  rw [List.take_length] at inside
  have interval : {point | point < total weight list ∧ Holds weight list point slot} =
      Finset.Ico (total weight (list.take slot.1)) (total weight (list.take slot.1) + weight slot.2) := by
    ext point
    rw [Finset.coe_Ico, Set.mem_Ico]
    exact ⟨fun holds => holds.2.2, fun between => ⟨by omega, listed, between⟩⟩
  rw [interval, Set.ncard_coe_finset, Nat.card_Ico, Nat.add_sub_cancel_left]

end WeightedChoice
