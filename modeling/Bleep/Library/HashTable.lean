import Mathlib.Data.List.AList
import Mathlib.Data.List.Induction

namespace HashTable

open List AList Option Prod List Prod

/-- A hash map. Nothing but `lookup` and the multiset of entries may be
observed; the order of the list stands for no particular iteration order. -/
abbrev HashMap (K V : Type) := AList (fun _ : K => V)

/-- The iteration orders met by one call: the hasher is seeded at random, so
the loop with a given number may see the entries in any order. -/
structure IterOrder where
  order : ∀ {α : Type}, Nat → List α → List α
  perm : ∀ {α : Type} (loop : Nat) (entries : List α), (order loop entries).Perm entries

/-- The order in which the list happens to be stored. -/
def IterOrder.stored : IterOrder := ⟨fun _ entries => entries, fun _ _ => .refl _⟩

variable {K V : Type}

def pairs (map : HashMap K V) : List (K × V) := map.entries.map fun entry => (entry.1, entry.2)

def IterOrder.iter (σ : IterOrder) (loop : Nat) (map : HashMap K V) : List (K × V) := σ.order loop (pairs map)

variable [DecidableEq K] {key : K} {map : HashMap K V} {value : V} {entries : List (K × V)}

theorem mem_pairs : (key, value) ∈ pairs map ↔ map.lookup key = some value := by
  have entry : (key, value) ∈ pairs map ↔ (⟨key, value⟩ : Sigma fun _ : K => V) ∈ map.entries := by
    simp only [pairs, List.mem_map, Prod.mk.injEq]
    constructor
    · rintro ⟨⟨k, v⟩, member, rfl, rfl⟩
      exact member
    · intro member
      exact ⟨_, member, rfl, rfl⟩
  rw [entry, ← AList.mem_lookup_iff, Option.mem_def]

theorem mem_iter {σ : IterOrder} {loop} : (key, value) ∈ σ.iter loop map ↔ map.lookup key = some value := by
  rw [IterOrder.iter, (σ.perm loop _).mem_iff, mem_pairs]

omit [DecidableEq K] in
theorem iter_keys_nodup (σ : IterOrder) (loop : Nat) (map : HashMap K V) : ((σ.iter loop map).map fst).Nodup := by
  have keys : (pairs map).map fst = map.keys := by
    rw [pairs, List.map_map]
    rfl
  rw [IterOrder.iter, ((σ.perm loop _).map fst).nodup_iff, keys]
  exact map.keys_nodup

theorem lookup_insert_eq (map : HashMap K V) (key : K) (value : V) (other : K) :
    (map.insert key value).lookup other = if other = key then some value else map.lookup other := by
  split
  · rename_i here
    rw [here, lookup_insert]
  · rename_i here
    rw [lookup_insert_ne here]

theorem lookup_insert_cases {other found} (present : (map.insert key value).lookup other = some found) :
    other = key ∧ found = value ∨ other ≠ key ∧ map.lookup other = some found := by
  rw [lookup_insert_eq] at present
  split at present
  · rename_i here
    exact .inl ⟨here, (some.inj present).symm⟩
  · rename_i here
    exact .inr ⟨here, present⟩

/-- What is read off an entry is the same everywhere if it is at the new one. -/
theorem lookup_insert_congr {β : Type*} (read : Option V → β) (same : read (some value) = read (map.lookup key))
    (other : K) : read ((map.insert key value).lookup other) = read (map.lookup other) := by
  rw [lookup_insert_eq]
  split
  · rename_i here
    rw [here, same]
  · rfl

/-- `extend` and `collect`: later entries replace earlier ones. -/
def insertAll (map : HashMap K V) (entries : List (K × V)) : HashMap K V :=
  entries.foldl (fun map entry => map.insert entry.1 entry.2) map

theorem lookup_insertAll_of_not_mem (map : HashMap K V) (absent : key ∉ entries.map fst) :
    (insertAll map entries).lookup key = map.lookup key := by
  induction entries generalizing map with
  | nil => rfl
  | cons entry entries ih =>
    rw [map_cons, mem_cons, not_or] at absent
    have rest := ih (map.insert entry.1 entry.2) absent.2
    rw [lookup_insert_ne absent.1] at rest
    exact rest

theorem lookup_insertAll_of_mem (map : HashMap K V) (nodup : (entries.map fst).Nodup)
    (member : (key, value) ∈ entries) : (insertAll map entries).lookup key = some value := by
  induction entries generalizing map with
  | nil => simp at member
  | cons entry entries ih =>
    rw [map_cons, nodup_cons] at nodup
    rcases mem_cons.mp member with here | later
    · subst here
      have rest := lookup_insertAll_of_not_mem (map.insert key value) nodup.1
      rw [lookup_insert] at rest
      exact rest
    · exact ih (map.insert entry.1 entry.2) nodup.2 later

theorem lookup_insertAll (map : HashMap K V) (nodup : (entries.map fst).Nodup) :
    (insertAll map entries).lookup key = some value ↔
      (key, value) ∈ entries ∨ key ∉ entries.map fst ∧ map.lookup key = some value := by
  by_cases member : key ∈ entries.map fst
  · obtain ⟨⟨k, v⟩, listed, rfl⟩ := mem_map.mp member
    rw [lookup_insertAll_of_mem map nodup listed]
    constructor
    · rintro ⟨⟩
      exact .inl listed
    · rintro (again | ⟨absent, -⟩)
      · rw [← lookup_insertAll_of_mem map nodup listed, lookup_insertAll_of_mem map nodup again]
      · exact absurd member absent
  · rw [lookup_insertAll_of_not_mem map member]
    constructor
    · exact fun found => .inr ⟨member, found⟩
    · rintro (listed | ⟨-, found⟩)
      · exact absurd (mem_map_of_mem listed) member
      · exact found

theorem lookup_insertAll_const (map : HashMap K V) (keys : List K) (value : V) (key : K) :
    (insertAll map (keys.map fun key => (key, value))).lookup key =
      if key ∈ keys then some value else map.lookup key := by
  induction keys generalizing map with
  | nil => rfl
  | cons first keys ih =>
    have rest := ih (map.insert first value)
    rw [map_cons, insertAll, foldl_cons, ← insertAll, rest]
    by_cases later : key ∈ keys
    · rw [if_pos later, if_pos (mem_cons_of_mem first later)]
    by_cases here : key = first
    · subst here
      rw [if_neg later, if_pos mem_cons_self, lookup_insert]
    · rw [if_neg later, if_neg (not_mem_cons_of_ne_of_not_mem here later), lookup_insert_ne here]

/-- Collecting distinct keys gives exactly the listed entries. -/
theorem lookup_collect (nodup : (entries.map fst).Nodup) :
    (insertAll ∅ entries).lookup key = some value ↔ (key, value) ∈ entries := by
  rw [lookup_insertAll ∅ nodup, lookup_empty]
  simp

/-- Iterating over a map and collecting it again changes nothing. -/
theorem lookup_insertAll_iter (σ : IterOrder) (loop : Nat) (map : HashMap K V) (key : K) :
    (insertAll ∅ (σ.iter loop map)).lookup key = map.lookup key := by
  apply Option.ext
  intro value
  rw [lookup_collect (iter_keys_nodup σ loop map), mem_iter]

section Values
variable {W : Type}

/-- `values_mut`: every value is replaced, none is added or removed. -/
def mapValues (change : K → V → W) (map : HashMap K V) : HashMap K W :=
  insertAll ∅ ((pairs map).map fun entry => (entry.1, change entry.1 entry.2))

theorem lookup_mapValues (change : K → V → W) (map : HashMap K V) (key : K) :
    (mapValues change map).lookup key = (map.lookup key).map (change key) := by
  have keys : ((pairs map).map fun entry => (entry.1, change entry.1 entry.2)).map fst =
      (pairs map).map fst := by
    rw [List.map_map]
    rfl
  have nodup := keys ▸ iter_keys_nodup .stored 0 map
  apply Option.ext
  intro value
  rw [mapValues, lookup_collect nodup, List.mem_map, map_eq_some_iff]
  constructor
  · rintro ⟨⟨other, old⟩, listed, same⟩
    cases same
    exact ⟨old, mem_pairs.mp listed, rfl⟩
  · rintro ⟨old, found, rfl⟩
    exact ⟨(key, old), mem_pairs.mpr found, rfl⟩

/-- Removing keys one after the other. -/
def eraseAll (map : HashMap K V) (keys : List K) : HashMap K V := keys.foldl (fun map key => map.erase key) map

theorem lookup_eraseAll (map : HashMap K V) (keys : List K) (key : K) :
    (eraseAll map keys).lookup key = if key ∈ keys then none else map.lookup key := by
  induction keys generalizing map with
  | nil => rfl
  | cons first keys ih =>
    have rest := ih (map.erase first)
    by_cases here : key = first
    · subst here
      simpa [eraseAll] using rest
    · rw [lookup_erase_ne here] at rest
      simpa [eraseAll, here] using rest

variable (keep : K → Bool)

/-- `retain` by key. -/
def retain (map : HashMap K V) : HashMap K V := eraseAll map (map.keys.filter fun key => !keep key)

theorem lookup_retain (map : HashMap K V) (key : K) :
    (retain keep map).lookup key = if keep key then map.lookup key else none := by
  rw [retain, lookup_eraseAll]
  simp only [mem_filter]
  cases kept : keep key with
  | true => simp
  | false =>
    by_cases present : key ∈ map.keys
    · simp [present]
    · have absent : map.lookup key = none := lookup_eq_none.mpr present
      simp [present, absent]

theorem length_retain_le (map : HashMap K V) :
    (retain keep map).entries.length ≤ map.entries.length :=
  foldlRecOn (motive := fun kept : HashMap K V => kept.entries.length ≤ map.entries.length) _ _ le_rfl
    fun kept le key _ => Nat.le_trans (kerase_sublist key kept.entries).length_le le

end Values

/-- Storing entries under a new first key component. -/
theorem lookup_insertTagged {T : Type} [DecidableEq T] {tag t} (map : HashMap (T × K) V)
    (nodup : (entries.map fst).Nodup) (fresh : ∀ k, map.lookup (tag, k) = none) :
    (insertAll map (entries.map fun entry => ((tag, entry.1), entry.2))).lookup (t, key) = some value ↔
      t = tag ∧ (key, value) ∈ entries ∨ map.lookup (t, key) = some value := by
  have keys : ((entries.map fun entry => ((tag, entry.1), entry.2)).map fst).Nodup := by
    have tagged := nodup.map (f := fun k => (tag, k)) fun _ _ same => (mk.inj same).2
    rwa [List.map_map] at tagged ⊢
  have listed : ((t, key), value) ∈ entries.map (fun entry => ((tag, entry.1), entry.2)) ↔
      t = tag ∧ (key, value) ∈ entries := by
    rw [List.mem_map]
    constructor
    · rintro ⟨⟨k, v⟩, member, same⟩
      cases same
      exact ⟨rfl, member⟩
    · rintro ⟨rfl, member⟩
      exact ⟨_, member, rfl⟩
  rw [lookup_insertAll map keys, listed]
  refine or_congr_right ⟨And.right, fun found => ⟨fun member => ?_, found⟩⟩
  obtain ⟨entry, tagged, same⟩ := mem_map.mp member
  obtain ⟨original, -, rfl⟩ := mem_map.mp tagged
  obtain ⟨rfl, -⟩ := mk.inj same
  rw [fresh key] at found
  cases found

section Buckets

variable {T : Type} [DecidableEq T]

/-- `entry(tag).or_default().push((key, value))` over a list of entries. -/
def bucketize (entries : List ((T × K) × V)) : HashMap T (List (K × V)) :=
  entries.foldl (fun buckets entry =>
    buckets.insert entry.1.1 ((buckets.lookup entry.1.1).getD [] ++ [(entry.1.2, entry.2)])) ∅

omit [DecidableEq K] in
theorem getD_lookup_bucketize (entries : List ((T × K) × V)) (tag : T) :
    ((bucketize entries).lookup tag).getD [] =
      (entries.filter fun entry => entry.1.1 = tag).map fun entry => (entry.1.2, entry.2) := by
  induction entries using reverseRecOn with
  | nil => rfl
  | append_singleton entries entry ih =>
    rw [bucketize, foldl_append, foldl_cons, foldl_nil, ← bucketize, filter_append, map_append, ← ih]
    by_cases here : entry.1.1 = tag
    · subst here
      simp
    · rw [lookup_insert_ne (Ne.symm here)]
      simp [here]

/-- Searching the bucket is looking up the pair of tag and key. -/
theorem find_bucketize {entries : List ((T × K) × V)} (nodup : (entries.map fst).Nodup) (tag : T) (key : K) :
    (((bucketize entries).lookup tag).bind fun bucket => bucket.find? fun entry => entry.1 = key).map snd =
      (insertAll ∅ entries).lookup (tag, key) := by
  have search : ((bucketize entries).lookup tag).bind (fun bucket => bucket.find? fun entry => entry.1 = key) =
      (((bucketize entries).lookup tag).getD []).find? fun entry => entry.1 = key := by
    cases (bucketize entries).lookup tag <;> rfl
  rw [search, getD_lookup_bucketize]
  apply Option.ext
  intro value
  rw [lookup_collect nodup, map_eq_some_iff]
  constructor
  · rintro ⟨⟨k, v⟩, found, rfl⟩
    have same := find?_some found
    have member := mem_of_find?_eq_some found
    obtain ⟨⟨⟨t, k'⟩, v'⟩, listed, equal⟩ := mem_map.mp member
    obtain ⟨listed, tagged⟩ := mem_filter.mp listed
    cases equal
    rw [← of_decide_eq_true tagged, ← of_decide_eq_true same]
    exact listed
  · intro member
    have listed : (key, value) ∈ (entries.filter fun entry => entry.1.1 = tag).map
        fun entry => (entry.1.2, entry.2) :=
      mem_map.mpr ⟨((tag, key), value), mem_filter.mpr ⟨member, decide_eq_true rfl⟩, rfl⟩
    have present : (((entries.filter fun entry => entry.1.1 = tag).map fun entry => (entry.1.2, entry.2)).find?
        fun entry => entry.1 = key).isSome := find?_isSome.mpr ⟨_, listed, decide_eq_true rfl⟩
    obtain ⟨⟨k, v⟩, found⟩ := isSome_iff_exists.mp present
    refine ⟨_, found, ?_⟩
    have same := find?_some found
    obtain ⟨⟨⟨t, k'⟩, v'⟩, other, equal⟩ := mem_map.mp (mem_of_find?_eq_some found)
    obtain ⟨other, tagged⟩ := mem_filter.mp other
    cases equal
    rw [show t = tag from of_decide_eq_true tagged, show k' = key from of_decide_eq_true same] at other
    have first := (lookup_collect nodup).mpr member
    rw [(lookup_collect nodup).mpr other] at first
    exact some.inj first

end Buckets

section Grouping

variable {P : Type} [DecidableEq P] (parent : K → P) (side : K → Bool) (empty : V)

/-- `entry(parent).or_insert((empty, empty))`, then the assignment of the
first or the second component. -/
def addChild (parents : HashMap P (V × V)) (entry : K × V) : HashMap P (V × V) :=
  let pair := (parents.lookup (parent entry.1)).getD (empty, empty)
  parents.insert (parent entry.1) (if side entry.1 then (pair.1, entry.2) else (entry.2, pair.2))

/-- The value the last entry with this parent and side has left. -/
def lastChild (entries : List (K × V)) (p : P) (s : Bool) : V :=
  entries.foldl (fun value entry => if parent entry.1 = p ∧ side entry.1 = s then entry.2 else value) empty

omit [DecidableEq K] in
theorem lastChild_of_forall_not {entries p s}
    (absent : ∀ entry ∈ entries, parent entry.1 = p → side entry.1 ≠ s) :
    lastChild parent side empty entries p s = empty := by
  refine foldlRecOn (motive := (· = empty)) entries _ rfl ?_
  intro value kept entry listed
  rw [if_neg fun both => absent entry listed both.1 both.2]
  exact kept

omit [DecidableEq K] in
theorem lookup_addChildren (entries : List (K × V)) (p : P) :
    (entries.foldl (addChild parent side empty) ∅).lookup p =
      if p ∈ entries.map (fun entry => parent entry.1) then
        some (lastChild parent side empty entries p false, lastChild parent side empty entries p true)
      else none := by
  induction entries using reverseRecOn with
  | nil => simp
  | append_singleton entries entry ih =>
    rw [foldl_append, foldl_cons, foldl_nil, addChild]
    simp only [lastChild, foldl_append, foldl_cons, foldl_nil, map_append, map_cons, map_nil, mem_append, mem_singleton]
    by_cases here : parent entry.1 = p
    · subst here
      have before : ((entries.foldl (addChild parent side empty) ∅).lookup (parent entry.1)).getD (empty, empty) =
          (lastChild parent side empty entries (parent entry.1) false,
            lastChild parent side empty entries (parent entry.1) true) := by
        rw [ih]
        split
        · rfl
        rename_i absent
        -- no earlier entry has this parent, so both folds are still at their start
        have untouched (s : Bool) : lastChild parent side empty entries (parent entry.1) s = empty :=
          lastChild_of_forall_not parent side empty fun e member same _ =>
            absent (mem_map.mpr ⟨e, member, same⟩)
        rw [untouched, untouched]
        rfl
      rw [lookup_insert, before]
      cases atSide : side entry.1 <;> simp [lastChild]
    · rw [lookup_insert_ne (Ne.symm here), ih]
      simp only [here, Ne.symm here, false_and, if_false, lastChild, or_false]

variable {parent side empty}

theorem lastChild_of_mem {entries key value p s} (nodup : (entries.map fst).Nodup)
    (unique : ∀ entry ∈ entries, parent entry.1 = p → side entry.1 = s → entry.1 = key)
    (member : (key, value) ∈ entries) (hp : parent key = p) (hs : side key = s) :
    lastChild parent side empty entries p s = value := by
  have only : ∀ entry ∈ entries, parent entry.1 = p ∧ side entry.1 = s → entry.2 = value := by
    intro entry listed both
    have same := unique entry listed both.1 both.2
    have first := (lookup_collect nodup).mpr member
    rw [← same, (lookup_collect nodup).mpr listed] at first
    exact some.inj first
  obtain ⟨before, after, rfl⟩ := append_of_mem member
  rw [lastChild, foldl_append, foldl_cons, if_pos ⟨hp, hs⟩]
  refine foldlRecOn (motive := (· = value)) after _ rfl ?_
  intro kept same entry listed
  split
  · rename_i both
    exact only entry (by simp [listed]) both
  · exact same

end Grouping

end HashTable
