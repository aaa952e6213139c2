import Bleep.Library.HashTable
import Mathlib.Data.List.Sort

namespace OrderedStore
open HashTable List Prod Bool

/-- The byte order of an ordered key-value store. -/
def le : List UInt8 → List UInt8 → Bool
  | [], _ => true
  | _ :: _, [] => false
  | a :: as, b :: bs => a.toNat < b.toNat || a.toNat == b.toNat && le as bs

theorem le_total (x y : List UInt8) : (le x y || le y x) = true := by
  induction x generalizing y with
  | nil => rfl
  | cons a as ih =>
    cases y with
    | nil => rfl
    | cons b bs =>
      have rest := ih bs
      simp only [le, or_eq_true, and_eq_true, decide_eq_true_eq, beq_iff_eq] at rest ⊢
      rcases Nat.lt_trichotomy a.toNat b.toNat with below | same | above
      · exact .inl (.inl below)
      · exact rest.imp (fun inner => .inr ⟨same, inner⟩) (fun inner => .inr ⟨same.symm, inner⟩)
      · exact .inr (.inl above)

theorem le_trans (x y z : List UInt8) (first : le x y = true) (second : le y z = true) : le x z = true := by
  induction x generalizing y z with
  | nil => rfl
  | cons a as ih =>
    cases y with
    | nil => cases first
    | cons b bs =>
      cases z with
      | nil => cases second
      | cons c cs =>
        have rest := ih bs cs
        simp only [le, or_eq_true, and_eq_true, decide_eq_true_eq, beq_iff_eq] at first second ⊢
        rcases first with below | ⟨same, inner⟩
        · left
          omega
        · rcases second with below | ⟨same', inner'⟩
          · left
            omega
          · exact .inr ⟨same.trans same', rest inner inner'⟩

variable {x y : List UInt8}

theorem le_antisymm (first : le x y = true) (second : le y x = true) : x = y := by
  induction x generalizing y with
  | nil =>
    cases y with
    | nil => rfl
    | cons b bs => cases second
  | cons a as ih =>
    cases y with
    | nil => cases first
    | cons b bs =>
      simp only [le, or_eq_true, and_eq_true, decide_eq_true_eq, beq_iff_eq] at first second
      have same : a.toNat = b.toNat := by omega
      have inner : le as bs = true := by
        rcases first with less | ⟨-, inner⟩
        · omega
        · exact inner
      have outer : le bs as = true := by
        rcases second with less | ⟨-, outer⟩
        · omega
        · exact outer
      rw [UInt8.toNat_inj.mp same, ih inner outer]

theorem le_append_left (start : List UInt8) (ordered : le x y = true) :
    le (start ++ x) (start ++ y) = true := by
  induction start with
  | nil => exact ordered
  | cons a start ih => simpa [le] using ih

/-- Between a key and a longer key that starts with it there are only keys
that start with it. -/
theorem isPrefix_of_le {start} (above : le start x = true) (below : le x y = true)
    (inside : start <+: y) : start <+: x := by
  induction start generalizing x y with
  | nil => exact nil_prefix
  | cons a start ih =>
    obtain ⟨rest, rfl⟩ := inside
    cases x with
    | nil => cases above
    | cons b x =>
      simp only [le, cons_append, or_eq_true, and_eq_true, decide_eq_true_eq, beq_iff_eq] at above below
      have same : a.toNat = b.toNat := by omega
      have inner : le start x = true := by
        rcases above with less | ⟨-, inner⟩
        · omega
        · exact inner
      have outer : le x (start ++ rest) = true := by
        rcases below with less | ⟨-, outer⟩
        · omega
        · exact outer
      rw [UInt8.toNat_inj.mp same]
      exact (prefix_cons_inj b).mpr (ih inner outer (prefix_append start rest))

variable {V : Type}

/-- The order of the entries by their keys. -/
def EntryLe (left right : List UInt8 × V) : Prop := le left.1 right.1 = true

instance : DecidableRel (EntryLe (V := V)) := fun _ _ => inferInstanceAs (Decidable (_ = true))

instance : Std.Total (EntryLe (V := V)) := ⟨fun a b => Bool.or_eq_true_iff.mp (le_total a.1 b.1)⟩

instance : IsTrans (List UInt8 × V) EntryLe := ⟨fun a b c => le_trans a.1 b.1 c.1⟩

variable (store : HashMap (List UInt8) V)

variable (start : List UInt8) {value : V}

/-- An iterator that starts at a key: the entries from there on, in order. -/
def scanFrom : List (List UInt8 × V) :=
  ((pairs store).filter fun entry => le start entry.1).insertionSort EntryLe

/-- The loop over an iterator that stops at the first key without the prefix. -/
def prefixEntries : List (List UInt8 × V) :=
  (scanFrom store start).takeWhile fun entry => start.isPrefixOf entry.1

theorem mem_takeWhile_of_pairwise {α : Type} {keep} {list : List α} {x}
    (ordered : list.Pairwise fun a b => keep b = true → keep a = true) :
    x ∈ list.takeWhile keep ↔ x ∈ list ∧ keep x = true := by
  induction list with
  | nil => simp
  | cons a list ih =>
    obtain ⟨first, rest⟩ := pairwise_cons.mp ordered
    by_cases kept : keep a = true
    · rw [takeWhile_cons_of_pos kept, mem_cons, mem_cons, ih rest]
      constructor
      · intro member
        rcases member with same | ⟨later, keeps⟩
        · exact ⟨.inl same, same ▸ kept⟩
        · exact ⟨.inr later, keeps⟩
      · intro ⟨member, keeps⟩
        exact member.imp_right fun later => ⟨later, keeps⟩
    · rw [takeWhile_cons_of_neg kept]
      constructor
      · intro member
        cases member
      · intro ⟨member, keeps⟩
        rcases mem_cons.mp member with same | later
        · exact absurd (same ▸ keeps) kept
        · exact absurd (first x later keeps) kept

theorem scanFrom_perm :
    (scanFrom store start).Perm ((pairs store).filter fun entry => le start entry.1) :=
  perm_insertionSort _ _

/-- A scan from the very start meets every entry once. -/
theorem mem_scanFrom_nil {store key} :
    (key, value) ∈ scanFrom store [] ↔ store.lookup key = some value := by
  rw [(scanFrom_perm store []).mem_iff, mem_filter, mem_pairs]
  exact and_iff_left rfl

theorem scanFrom_keys_nodup :
    ((scanFrom store start).map Prod.fst).Nodup := by
  have keys : ((pairs store).map fst).Nodup := iter_keys_nodup .stored 0 store
  have kept : (((pairs store).filter fun entry => le start entry.1).map fst).Nodup :=
    keys.sublist (filter_sublist.map fst)
  exact (((scanFrom_perm store start).map fst).nodup_iff).mpr kept

/-- Stopping at the first foreign key loses no key with the prefix. -/
theorem mem_prefixEntries {store : HashMap (List UInt8) V} {start key} :
    (key, value) ∈ prefixEntries store start ↔ store.lookup key = some value ∧ start <+: key := by
  have sorted : (scanFrom store start).Pairwise EntryLe := pairwise_insertionSort EntryLe _
  have above : ∀ entry ∈ scanFrom store start, le start entry.1 = true := by
    intro entry member
    exact (mem_filter.mp ((scanFrom_perm store start).mem_iff.mp member)).2
  have ordered : (scanFrom store start).Pairwise fun left right =>
      start.isPrefixOf right.1 = true → start.isPrefixOf left.1 = true := by
    refine sorted.imp_of_mem fun left right below inside => ?_
    exact isPrefixOf_iff_prefix.mpr (isPrefix_of_le (above _ left) below ( isPrefixOf_iff_prefix.mp inside))
  rw [prefixEntries, mem_takeWhile_of_pairwise ordered, (scanFrom_perm store start).mem_iff, mem_filter,
    mem_pairs, isPrefixOf_iff_prefix]
  constructor
  · intro ⟨⟨found, _⟩, inside⟩
    exact ⟨found, inside⟩
  · intro ⟨found, inside⟩
    refine ⟨⟨found, ?_⟩, inside⟩
    -- a key that starts with the prefix is not before it
    obtain ⟨rest, rfl⟩ := inside
    clear found ordered above sorted
    induction start with
    | nil => rfl
    | cons a start ih => simpa [le] using ih

theorem prefixEntries_keys_nodup :
    ((prefixEntries store start).map Prod.fst).Nodup :=
  (scanFrom_keys_nodup store start).sublist ((takeWhile_sublist _).map fst)

/-- The iteration over a prefix is determined by what is stored under it. -/
theorem prefixEntries_eq {store : HashMap (List UInt8) V} {start} {entries : List (List UInt8 × V)}
    (sorted : entries.Pairwise EntryLe) (nodup : (entries.map Prod.fst).Nodup)
    (members : ∀ key value, (key, value) ∈ entries ↔ store.lookup key = some value ∧ start <+: key) :
    prefixEntries store start = entries := by
  have ordered : (prefixEntries store start).Pairwise EntryLe :=
    (pairwise_insertionSort EntryLe _).sublist (takeWhile_sublist _)
  have perm : (prefixEntries store start).Perm entries := by
    refine (perm_ext_iff_of_nodup (prefixEntries_keys_nodup store start).of_map nodup.of_map).mpr ?_
    rintro ⟨key, value⟩
    rw [mem_prefixEntries, members]
  refine perm.eq_of_pairwise ?_ ordered sorted
  rintro ⟨left, x⟩ ⟨right, y⟩ atLeft atRight below above
  obtain rfl : left = right := le_antisymm below above
  have first := (mem_prefixEntries.mp atLeft).1
  rw [((members left y).mp atRight).1] at first
  rw [Option.some.inj first]

section Ascending
variable {K : Type} (below : K → K → Prop) [DecidableRel below]

/-- The entries by ascending keys, as an ordered map iterates over them. -/
def ascending (map : HashMap K V) : List (K × V) := (pairs map).insertionSort fun a b => below a.1 b.1

theorem ascending_perm (map : HashMap K V) : (ascending below map).Perm (pairs map) := List.perm_insertionSort _ _

variable {below}

theorem mem_ascending [DecidableEq K] {map key} :
    (key, value) ∈ ascending below map ↔ map.lookup key = some value := by
  rw [(ascending_perm below map).mem_iff, mem_pairs]

theorem ascending_keys_nodup (map : HashMap K V) : ((ascending below map).map Prod.fst).Nodup := by
  have keys : ((pairs map).map fst).Nodup := iter_keys_nodup .stored 0 map
  exact ((ascending_perm below map).map fst).nodup_iff.mpr keys

end Ascending

end OrderedStore
