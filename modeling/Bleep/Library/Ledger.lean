import Bleep.Library.HashTable
import Mathlib.Data.Finsupp.Basic

namespace Ledger
open HashTable Finsupp

variable {A : Type}

variable (balances : A →₀ ℕ)

/-- What all accounts hold together. -/
noncomputable def total : ℕ := balances.sum fun _ balance => balance

noncomputable def mint (account : A) (amount : ℕ) : A →₀ ℕ :=
  balances.update account (balances account + amount)

/-- Both balances are read before either is written, the sender's first. -/
noncomputable def transfer (sender receiver : A) (amount : ℕ) : A →₀ ℕ :=
  (balances.update sender (balances sender - amount)).update receiver (balances receiver + amount)

variable {balances : A →₀ ℕ} {account sender receiver : A} {amount : ℕ}

@[simp] theorem total_zero : total (0 : A →₀ ℕ) = 0 := Finsupp.sum_zero_index

theorem total_update (balances : A →₀ ℕ) (account : A) (balance : ℕ) :
    total (balances.update account balance) + balances account = total balances + balance :=
  sum_update_add balances account balance _ (fun _ => rfl) fun _ _ _ => rfl

theorem le_total (balances : A →₀ ℕ) (account : A) : balances account ≤ total balances := by
  have emptied := total_update balances account 0
  omega

theorem total_mint : total (mint balances account amount) = total balances + amount := by
  have written := total_update balances account (balances account + amount)
  rw [mint]
  omega

theorem total_transfer (distinct : sender ≠ receiver) (covered : amount ≤ balances sender) :
    total (transfer balances sender receiver amount) = total balances := by
  classical
  have debited := total_update balances sender (balances sender - amount)
  have credited := total_update (balances.update sender (balances sender - amount)) receiver
    (balances receiver + amount)
  rw [update_apply, if_neg (Ne.symm distinct)] at credited
  rw [transfer]
  omega

/-- A transfer to oneself is a mint: the credit overwrites the debit. -/
theorem total_transfer_self : total (transfer balances account account amount) = total balances + amount := by
  classical
  have twice : transfer balances account account amount = mint balances account amount := by
    apply ext
    intro other
    simp only [transfer, mint, update_apply]
    split <;> rfl
  rw [twice, total_mint]

variable {V : Type} [DecidableEq A]

/-- Summing the values of a map that holds every nonzero balance gives the
total. -/
theorem total_eq_sum_pairs {map : HashMap A V} {weigh}
    (agree : ∀ a, balances a = ((map.lookup a).map weigh).getD 0) :
    total balances = ((pairs map).map fun entry => weigh entry.2).sum := by
  have inside : balances.support ⊆ map.keys.toFinset := by
    intro a nonzero
    rw [mem_support_iff, agree] at nonzero
    rw [List.mem_toFinset]
    by_contra absent
    rw [AList.lookup_eq_none.mpr (mt AList.mem_keys.mp absent)] at nonzero
    exact nonzero rfl
  have listed : map.keys.map (fun a => balances a) = (pairs map).map fun entry => weigh entry.2 := by
    have keys : map.keys = (pairs map).map Prod.fst := by
      rw [pairs, List.map_map]
      rfl
    rw [keys, List.map_map]
    refine List.map_congr_left fun entry member => ?_
    have found : map.lookup entry.1 = some entry.2 := mem_pairs.mp member
    rw [Function.comp_apply, agree, found]
    rfl
  rw [total, sum_of_support_subset balances inside _ fun _ _ => rfl, List.sum_toFinset _ map.keys_nodup, listed]

/-- The balances that a map stands for; an absent account holds nothing. -/
noncomputable def ofMap (weigh : V → ℕ) (map : HashMap A V) : A →₀ ℕ :=
  Finsupp.ofSupportFinite (fun a => ((map.lookup a).map weigh).getD 0) (by
    refine map.keys.toFinset.finite_toSet.subset fun a nonzero => ?_
    rw [Finset.mem_coe, List.mem_toFinset, AList.mem_keys.symm]
    by_contra absent
    rw [Function.mem_support, AList.lookup_eq_none.mpr absent] at nonzero
    exact nonzero rfl)

variable {weigh : V → ℕ} {map : HashMap A V}

theorem ofMap_apply (a : A) : ofMap weigh map a = ((map.lookup a).map weigh).getD 0 := rfl

@[simp] theorem ofMap_empty : ofMap weigh (∅ : HashMap A V) = 0 := by
  apply Finsupp.ext
  intro a
  rfl

theorem ofMap_insert (a : A) (v : V) : ofMap weigh (map.insert a v) = (ofMap weigh map).update a (weigh v) := by
  apply ext
  intro other
  rw [update_apply, ofMap_apply, lookup_insert_eq, ofMap_apply]
  split <;> rfl

theorem ofMap_erase (a : A) : ofMap weigh (map.erase a) = (ofMap weigh map).update a 0 := by
  apply ext
  intro other
  rw [update_apply, ofMap_apply]
  by_cases here : other = a
  · subst here
    rw [if_pos rfl, AList.lookup_erase]
    rfl
  · rw [if_neg here, AList.lookup_erase_ne here, ofMap_apply]

theorem total_ofMap : total (ofMap weigh map) = ((pairs map).map fun entry => weigh entry.2).sum :=
  total_eq_sum_pairs fun _ => rfl

end Ledger
