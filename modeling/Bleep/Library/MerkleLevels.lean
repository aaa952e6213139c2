import Mathlib.Data.Nat.Log
import Mathlib.Data.Nat.Bitwise
import Mathlib.Data.List.Range
import Mathlib.Data.Set.Insert
import Mathlib.Algebra.Ring.Nat

namespace MerkleLevels

open List Nat List

variable {α β : Type*}

/-- The loop of `Nat.nextPowerOfTwo`, which is private there. -/
theorem nextPowerOfTwo_loop : ∃ loop : Nat → (power : Nat) → power > 0 → Nat,
    (∀ n power positive, loop n power positive =
      if power < n then loop n (power * 2) (Nat.mul_pos positive Nat.two_pos) else power) ∧
    ∀ n, n.nextPowerOfTwo = loop n 1 Nat.one_pos := by
  refine ⟨_, fun n power positive => ?_, fun n => rfl⟩
  have unfolds := WellFounded.Nat.fix_eq (fun x : PSigma fun power : Nat => power > 0 => n - x.1)
    (fun x rest => if smaller : x.1 < n then
      rest ⟨x.1 * 2, Nat.mul_pos x.2 Nat.two_pos⟩ (Nat.nextPowerOfTwo_dec x.2 smaller) else x.1) ⟨power, positive⟩
  with_unfolding_all exact unfolds

theorem nextPowerOfTwo_eq_clog (n : Nat) : n.nextPowerOfTwo = 2 ^ Nat.clog 2 n := by
  obtain ⟨loop, step, starts⟩ := nextPowerOfTwo_loop
  have reaches : ∀ k j power positive, power = 2 ^ j → j + k = clog 2 n →
      loop n power positive = 2 ^ clog 2 n := by
    intro k
    induction k with
    | zero =>
      intro j power positive here last
      have enough : ¬power < n := by
        rw [here, show j = clog 2 n from last, not_lt]
        exact Nat.le_pow_clog Nat.one_lt_two n
      rw [step, if_neg enough, here, show j = clog 2 n from last]
    | succ k ih =>
      intro j power positive here ahead
      have below : power < n := by
        rw [here]
        exact (Nat.lt_clog_iff_pow_lt Nat.one_lt_two).mp (by omega)
      rw [step, if_pos below]
      exact ih (j + 1) _ _ (by rw [here, Nat.pow_succ]) (by omega)
  rw [starts]
  exact reaches (clog 2 n) 0 1 _ rfl (zero_add _)

/-- The node at a height and a position of the perfect tree over the leaves:
it is made of the two nodes below it and of its position. -/
def value (node : α → α → Nat → α) (leaf : Nat → α) : Nat → Nat → α
  | 0, position => leaf position
  | height + 1, position =>
      node (value node leaf height (2 * position)) (value node leaf height (2 * position + 1)) position

/-- The nodes above the pairs of a level, with their positions counted from
`position`. A last single entry has none. -/
def pairUp (node : α → α → Nat → α) : Nat → List α → List α
  | position, left :: right :: rest => node left right position :: pairUp node (position + 1) rest
  | _, [_] => []
  | _, [] => []

section Levels
variable (node : α → α → Nat → α)

@[simp] theorem pairUp_length (position : Nat) (level : List α) :
    (pairUp node position level).length = level.length / 2 := by
  fun_induction pairUp node position level with
  | case1 position left right rest ih =>
    simp only [length_cons, ih]
    omega
  | case2 => simp
  | case3 => simp

/-- The loop that pairs up level after level until one entry is left. -/
def collapse (level : List α) : List α :=
  if 1 < level.length then collapse (pairUp node 0 level) else level
termination_by level.length
decreasing_by
  rw [pairUp_length]
  omega

/-- The loop that pairs up level after level and keeps the entry beside the
index it follows. -/
def beside (absent : α) (level : List α) (index : Nat) : List α :=
  if 1 < level.length then level.getD (index ^^^ 1) absent :: beside absent (pairUp node 0 level) (index / 2) else []
termination_by level.length
decreasing_by
  rw [pairUp_length]
  omega

/-- The loop that goes up from an entry along the entries beside its way. -/
def climb (current : α) (position : Nat) : List α → α
  | [] => current
  | sibling :: path =>
      climb (if position % 2 = 0 then node current sibling (position / 2) else node sibling current (position / 2))
        (position / 2) path

/-- The nodes beside the way from a node up to the one `n` levels above. -/
def opening (leaf : Nat → α) (height position : Nat) : Nat → List α
  | 0 => []
  | n + 1 => value node leaf height (position ^^^ 1) :: opening leaf (height + 1) (position / 2) n

variable {node} {leaf leaf' : Nat → α}

variable {node' : β → β → Nat → β} {position : Nat}

theorem map_pairUp {f}
    (commutes : ∀ left right position, f (node left right position) = node' (f left) (f right) position)
    (position : Nat) (level : List α) : (pairUp node position level).map f = pairUp node' position (level.map f) := by
  fun_induction pairUp node position level with
  | case1 position left right rest ih => rw [map_cons, commutes, ih, map_cons, map_cons, pairUp]
  | case2 => rfl
  | case3 => rfl

theorem map_collapse {f}
    (commutes : ∀ left right position, f (node left right position) = node' (f left) (f right) position)
    (level : List α) : (collapse node level).map f = collapse node' (level.map f) := by
  induction level using collapse.induct node with
  | case1 level long ih => rw [collapse, if_pos long, ih, map_pairUp commutes, collapse.eq_def node' (level.map f),
      if_pos (by rwa [length_map])]
  | case2 level short => rw [collapse, if_neg short, collapse, if_neg (by rwa [length_map])]

theorem pairUp_map_range' (f : Nat → α) (start n : Nat) :
    pairUp node start ((range' (2 * start) (2 * n)).map f) =
      (range' start n).map fun position => node (f (2 * position)) (f (2 * position + 1)) position := by
  induction n generalizing start with
  | zero => rfl
  | succ n ih =>
    rw [show 2 * (n + 1) = 2 * n + 1 + 1 from rfl, range'_succ, range'_succ, map_cons, map_cons,
      pairUp, range'_succ, map_cons, ← ih (start + 1)]
    rfl

theorem pairUp_level (height n : Nat) : pairUp node 0 ((range (2 * n)).map (value node leaf height)) =
    (range n).map (value node leaf (height + 1)) := by
  rw [range_eq_range', range_eq_range']
  exact pairUp_map_range' (value node leaf height) 0 n

theorem collapse_level (height depth : Nat) :
    collapse node ((range (2 ^ depth)).map (value node leaf height)) = [value node leaf (height + depth) 0] := by
  induction depth generalizing height with
  | zero =>
    rw [collapse, if_neg (by simp)]
    rfl
  | succ depth ih =>
    have long : 1 < ((range (2 ^ (depth + 1))).map (value node leaf height)).length := by
      rw [length_map, length_range]
      exact Nat.one_lt_two_pow (Nat.succ_ne_zero depth)
    rw [collapse, if_pos long, Nat.pow_succ, Nat.mul_comm, pairUp_level, ih, Nat.add_assoc, add_comm 1]

theorem xor_one_lt {depth} (inside : position < 2 ^ (depth + 1)) : position ^^^ 1 < 2 ^ (depth + 1) :=
  Nat.xor_lt_two_pow inside (Nat.one_lt_two_pow (Nat.succ_ne_zero depth))

theorem beside_level (absent : α) (height depth position : Nat) (inside : position < 2 ^ depth) :
    beside node absent ((range (2 ^ depth)).map (value node leaf height)) position =
      opening node leaf height position depth := by
  induction depth generalizing height position with
  | zero =>
    rw [beside, if_neg (by simp)]
    rfl
  | succ depth ih =>
    have long : 1 < ((range (2 ^ (depth + 1))).map (value node leaf height)).length := by
      rw [length_map, length_range]
      exact Nat.one_lt_two_pow (Nat.succ_ne_zero depth)
    have entry : ((range (2 ^ (depth + 1))).map (value node leaf height)).getD (position ^^^ 1) absent =
        value node leaf height (position ^^^ 1) := by
      simp [xor_one_lt inside]
    rw [beside, if_pos long, entry, opening, Nat.pow_succ, Nat.mul_comm, pairUp_level]
    rw [ih (height + 1) (position / 2) (by omega)]

@[simp] theorem opening_length (height position n : Nat) : (opening node leaf height position n).length = n := by
  induction n generalizing height position with
  | zero => rfl
  | succ n ih => rw [opening, length_cons, ih]

theorem xor_one_of_mod_two_eq_zero (even : position % 2 = 0) : position ^^^ 1 = position + 1 :=
  xor_one_of_even (even_iff.mpr even)

theorem xor_one_of_mod_two_ne_zero (odd : position % 2 ≠ 0) : position ^^^ 1 = position - 1 :=
  xor_one_of_odd (odd_iff.mpr (by omega))

theorem value_above (height position : Nat) : value node leaf (height + 1) (position / 2) =
    if position % 2 = 0 then
      node (value node leaf height position) (value node leaf height (position ^^^ 1)) (position / 2)
    else node (value node leaf height (position ^^^ 1)) (value node leaf height position) (position / 2) := by
  rw [value]
  split
  · rename_i even
    rw [xor_one_of_mod_two_eq_zero even, show 2 * (position / 2) = position by omega]
  · rename_i odd
    rw [xor_one_of_mod_two_ne_zero odd, show 2 * (position / 2) = position - 1 by omega,
      show position - 1 + 1 = position by omega]

/-- A node's opening leads from it to the node above. -/
theorem climb_opening (height position n : Nat) :
    climb node (value node leaf height position) position (opening node leaf height position n) =
      value node leaf (height + n) (position / 2 ^ n) := by
  induction n generalizing height position with
  | zero => rw [opening, climb, Nat.pow_zero, Nat.div_one, Nat.add_zero]
  | succ n ih =>
    rw [opening, climb, ← value_above, ih, Nat.div_div_eq_div_mul, Nat.pow_succ, Nat.mul_comm 2, Nat.add_assoc,
      add_comm 1]

theorem climb_append (current : α) (position : Nat) (below above : List α) :
    climb node current position (below ++ above) =
      climb node (climb node current position below) (position / 2 ^ below.length) above := by
  induction below generalizing current position with
  | nil => rw [nil_append, climb, length_nil, Nat.pow_zero, Nat.div_one]
  | cons sibling below ih =>
    rw [cons_append, climb, ih, climb, length_cons, Nat.div_div_eq_div_mul, Nat.pow_succ, Nat.mul_comm 2]

end Levels

section Binding
variable (node : α → α → Nat → α)

/-- Among these inputs, a node tells which two nodes it was made of. -/
def Separates (used : Set (α × α × Nat)) : Prop :=
  ∀ ⦃x⦄, x ∈ used → ∀ ⦃y⦄, y ∈ used → node x.1 x.2.1 x.2.2 = node y.1 y.2.1 y.2.2 → x.1 = y.1 ∧ x.2.1 = y.2.1

/-- What the node above two neighbours is made of. -/
def inputs (leaf : Nat → α) (height position : Nat) : α × α × Nat :=
  (value node leaf height (2 * position), value node leaf height (2 * position + 1), position)

/-- What the nodes of the tree of a depth are made of. -/
def treeUses (leaf : Nat → α) (depth : Nat) : Set (α × α × Nat) :=
  {x | ∃ height position, height < depth ∧ position < 2 ^ (depth - (height + 1)) ∧ x = inputs node leaf height position}

/-- What the nodes on the way up are made of. -/
def climbUses (current : α) (position : Nat) : List α → Set (α × α × Nat)
  | [] => ∅
  | sibling :: path =>
      let here := if position % 2 = 0 then (current, sibling, position / 2) else (sibling, current, position / 2)
      insert here (climbUses (node here.1 here.2.1 here.2.2) (position / 2) path)

/-- A node and the one beside it, as the node above them takes them. -/
def ordered (current sibling : α) (position : Nat) : α × α × Nat :=
  if position % 2 = 0 then (current, sibling, position / 2) else (sibling, current, position / 2)

variable {node} {leaf leaf' : Nat → α} {used : Set (α × α × Nat)}

theorem climb_cons (current sibling : α) (position : Nat) (path : List α) :
    climb node current position (sibling :: path) =
      climb node (node (ordered current sibling position).1 (ordered current sibling position).2.1
        (ordered current sibling position).2.2) (position / 2) path := by
  rw [climb, ordered]
  split <;> rfl

theorem climbUses_cons (current sibling : α) (position : Nat) (path : List α) :
    climbUses node current position (sibling :: path) = insert (ordered current sibling position)
      (climbUses node (node (ordered current sibling position).1 (ordered current sibling position).2.1
        (ordered current sibling position).2.2) (position / 2) path) := rfl

variable {height position : Nat}

/-- Two that are the inputs of a node of the tree are the node at the position
and the one beside it. -/
theorem neighbours_of_ordered {current sibling}
    (left : (ordered current sibling position).1 = (inputs node leaf height (position / 2)).1)
    (right : (ordered current sibling position).2.1 = (inputs node leaf height (position / 2)).2.1) :
    current = value node leaf height position ∧ sibling = value node leaf height (position ^^^ 1) := by
  by_cases even : position % 2 = 0
  · rw [ordered, if_pos even, inputs, show 2 * (position / 2) = position by omega] at left right
    rw [xor_one_of_mod_two_eq_zero even]
    exact ⟨left, right⟩
  · rw [ordered, if_neg even, inputs, show 2 * (position / 2) = position - 1 by omega] at left right
    rw [show position - 1 + 1 = position by omega] at right
    rw [xor_one_of_mod_two_ne_zero even]
    exact ⟨right, left⟩

theorem climbUses_above (current : α) (position : Nat) (below above : List α) :
    climbUses node (climb node current position below) (position / 2 ^ below.length) above ⊆
      climbUses node current position (below ++ above) := by
  induction below generalizing current position with
  | nil => rw [climb, length_nil, Nat.pow_zero, Nat.div_one, nil_append]
  | cons sibling below ih =>
    rw [climb_cons, length_cons, Nat.pow_succ, Nat.mul_comm, ← Nat.div_div_eq_div_mul, cons_append,
      climbUses_cons]
    exact (ih _ _).trans (Set.subset_insert _ _)

theorem inputs_mem {depth} (uses : treeUses node leaf depth ⊆ used) (below : height < depth)
    (inside : position < 2 ^ (depth - (height + 1))) : inputs node leaf height position ∈ used :=
  uses ⟨height, position, below, inside, rfl⟩

/-- Two trees with the same top have the same nodes at every level below,
counted from the top. -/
theorem level_of_top (separates : Separates node used) {height height' n}
    (uses : treeUses node leaf (height + n) ⊆ used) (uses' : treeUses node leaf' (height' + n) ⊆ used)
    (same : value node leaf (height + n) 0 = value node leaf' (height' + n) 0) :
    ∀ q < 2 ^ n, value node leaf height q = value node leaf' height' q := by
  induction n generalizing height height' with
  | zero =>
    intro q inside
    obtain rfl : q = 0 := by omega
    exact same
  | succ n ih =>
    have shift : height + (n + 1) = height + 1 + n := by omega
    have shift' : height' + (n + 1) = height' + 1 + n := by omega
    have above := ih (shift ▸ uses) (shift' ▸ uses') (by rw [← shift, ← shift', same])
    intro q inside
    have width : height + (n + 1) - (height + 1) = n := by omega
    have width' : height' + (n + 1) - (height' + 1) = n := by omega
    obtain ⟨left, right⟩ := separates
      (inputs_mem uses (by omega) (by rw [width]; omega : q / 2 < 2 ^ (height + (n + 1) - (height + 1))))
      (inputs_mem uses' (by omega) (by rw [width']; omega : q / 2 < 2 ^ (height' + (n + 1) - (height' + 1))))
      (above (q / 2) (by omega))
    rcases mod_two_eq_zero_or_one q with even | odd
    · rwa [inputs, inputs, show 2 * (q / 2) = q by omega] at left
    · rwa [inputs, inputs, show 2 * (q / 2) + 1 = q by omega] at right

theorem top_of_level {height height' n}
    (same : ∀ q < 2 ^ n, value node leaf height q = value node leaf' height' q) :
    value node leaf (height + n) 0 = value node leaf' (height' + n) 0 := by
  induction n generalizing height height' with
  | zero => exact same 0 Nat.one_pos
  | succ n ih =>
    have shift : height + (n + 1) = height + 1 + n := by omega
    have shift' : height' + (n + 1) = height' + 1 + n := by omega
    rw [shift, shift']
    refine ih fun q inside => ?_
    rw [value, value, same (2 * q) (by rw [Nat.pow_succ]; omega), same (2 * q + 1) (by rw [Nat.pow_succ]; omega)]

/-- Whoever climbs to the top of a tree started at one of its nodes and went
along its opening. -/
theorem climb_inj (separates : Separates node used) {n} (uses : treeUses node leaf (height + n) ⊆ used)
    {current path} (climbs : climbUses node current position path ⊆ used) (length : path.length = n)
    (inside : position < 2 ^ n) (reaches : climb node current position path = value node leaf (height + n) 0) :
    current = value node leaf height position ∧ path = opening node leaf height position n := by
  induction path generalizing height n current position with
  | nil =>
    obtain rfl := length
    obtain rfl : position = 0 := by rw [length_nil] at inside; omega
    exact ⟨reaches, rfl⟩
  | cons sibling path ih =>
    obtain rfl := length
    rw [length_cons] at uses inside reaches
    have shift : height + (path.length + 1) = height + 1 + path.length := by omega
    have width : height + (path.length + 1) - (height + 1) = path.length := by omega
    have parent : inputs node leaf height (position / 2) ∈ used :=
      inputs_mem uses (by omega) (by rw [width]; omega)
    rw [climb_cons, shift] at reaches
    obtain ⟨here, rest⟩ := ih (shift ▸ uses) ((Set.subset_insert _ _).trans climbs) rfl (by omega) reaches
    obtain ⟨left, right⟩ := separates (climbs (Set.mem_insert _ _)) parent here
    obtain ⟨node, neighbour⟩ := neighbours_of_ordered left right
    refine ⟨node, ?_⟩
    rw [length_cons, opening, ← neighbour, ← rest]

end Binding

end MerkleLevels
