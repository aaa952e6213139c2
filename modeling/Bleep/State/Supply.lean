import Bleep.Library.Ledger
import Bleep.State.Blocks

namespace Bleep
open HashTable Words OrderedStore List Finsupp

namespace StateManager

variable {codec : Codec} {state after : StateManager} {σ : IterOrder}

theorem mem_persistedBalances {address balance} :
    (address, balance) ∈ state.persistedBalances codec ↔
      ∃ value account, state.db.lookup (accountKey address) = some value ∧
        codec.decodeAccount value = some account ∧ account.balance = balance := by
  rw [persistedBalances, mem_filterMap]
  constructor
  · rintro ⟨⟨key, value⟩, listed, read⟩
    obtain ⟨stored, rest, rfl⟩ := mem_prefixEntries.mp listed
    rw [drop_left] at read
    split at read
    · rename_i text account decoded parsed
      cases read
      rw [utf8_of_fromUtf8 decoded] at stored
      exact ⟨value, account, stored, parsed, rfl⟩
    · cases read
  · rintro ⟨value, account, stored, parsed, rfl⟩
    refine ⟨(accountKey address, value), mem_prefixEntries.mpr ⟨stored, prefix_append _ _⟩, ?_⟩
    rw [accountKey, drop_left, fromUtf8_utf8, parsed]

theorem persistedBalances_nodup (codec : Codec) (state : StateManager) :
    ((state.persistedBalances codec).map Prod.fst).Nodup := by
  have keys := prefixEntries_keys_nodup state.db prefixAccount
  rw [List.Nodup, pairwise_map] at keys ⊢
  rw [persistedBalances, pairwise_filterMap]
  refine keys.imp_of_mem fun {left right} atLeft atRight distinct => ?_
  rintro ⟨a, x⟩ first ⟨b, y⟩ second same
  obtain ⟨-, restLeft, hl⟩ := mem_prefixEntries.mp atLeft
  obtain ⟨-, restRight, hr⟩ := mem_prefixEntries.mp atRight
  rw [← hl, drop_left] at first
  rw [← hr, drop_left] at second
  split at first
  · rename_i decodedLeft _
    split at second
    · rename_i decodedRight _
      cases first
      cases second
      cases same
      rw [← hl, ← hr, utf8_of_fromUtf8 decodedLeft, utf8_of_fromUtf8 decodedRight] at distinct
      exact distinct rfl
    · cases second
  · cases first

variable {address : String} {balance : U128}

/-- The balances of the database, and over them those of the cache, without the
ones that are passed by. -/
theorem lookup_overlay {loop} (keep : String × U128 → Bool) :
    (insertAll (insertAll ∅ ((state.persistedBalances codec).filter keep))
        (((σ.iter loop state.cache).map fun entry => (entry.1, entry.2.state.balance)).filter keep)).lookup address =
          some balance ↔
      keep (address, balance) = true ∧ ((∃ entry, state.cache.lookup address = some entry ∧ entry.state.balance = balance) ∨
        (∀ entry, state.cache.lookup address = some entry → keep (address, entry.state.balance) = false) ∧
          (address, balance) ∈ state.persistedBalances codec) := by
  have cached {balance : U128} :
      (address, balance) ∈ (σ.iter loop state.cache).map (fun entry => (entry.1, entry.2.state.balance)) ↔
        ∃ entry, state.cache.lookup address = some entry ∧ entry.state.balance = balance := by
    simp [mem_map, mem_iter]
  have nodup : (((σ.iter loop state.cache).map fun entry => (entry.1, entry.2.state.balance)).map Prod.fst).Nodup := by
    rw [map_map]
    exact iter_keys_nodup σ loop state.cache
  have absent : address ∉
      (((σ.iter loop state.cache).map fun entry => (entry.1, entry.2.state.balance)).filter keep).map Prod.fst ↔
        ∀ entry, state.cache.lookup address = some entry → keep (address, entry.state.balance) = false := by
    simp only [mem_map (f := Prod.fst), mem_filter, Prod.exists, exists_and_right, exists_eq_right, cached]
    simp
  rw [lookup_insertAll _ (nodup.sublist (filter_sublist.map _)), absent,
    lookup_collect ((persistedBalances_nodup codec state).sublist (filter_sublist.map _)), mem_filter, mem_filter, cached]
  rw [← and_assoc, ← or_and_right, and_comm]

theorem getBalance_eq_iff (nonzero : balance ≠ 0) :
    state.getBalance codec address = balance ↔
      (∃ entry, state.cache.lookup address = some entry ∧ entry.state.balance = balance) ∨
        state.cache.lookup address = none ∧ (address, balance) ∈ state.persistedBalances codec := by
  rw [getBalance, getAccount, mem_persistedBalances]
  cases state.cache.lookup address with
  | some entry => simp
  | none =>
    cases state.db.lookup (accountKey address) with
    | none => simpa using nonzero.symm
    | some value =>
      cases parsed : codec.decodeAccount value with
      | none => simpa [parsed] using nonzero.symm
      | some account => simp [parsed]

/-- The merged map holds every nonzero balance that can be read. -/
theorem getD_lookup_mergedBalances (address : String) :
    ((state.mergedBalances codec σ).lookup address).getD 0 = state.getBalance codec address := by
  have overlay {balance : U128} := @lookup_overlay codec state σ address balance supplyLoop fun _ => true
  simp only [filter_true, true_and, Bool.true_eq_false, imp_false, ← Option.eq_none_iff_forall_ne_some] at overlay
  have read {balance : U128} (nonzero : balance ≠ 0) : (state.mergedBalances codec σ).lookup address = some balance ↔
      state.getBalance codec address = balance := overlay.trans (getBalance_eq_iff nonzero).symm
  by_cases zero : state.getBalance codec address = 0
  · rw [zero]
    cases found : (state.mergedBalances codec σ).lookup address with
    | none => rfl
    | some balance =>
      by_contra nonzero
      exact nonzero (((read nonzero).mp found).symm.trans zero)
  · rw [(read zero).mpr rfl]
    rfl

theorem balances_finite (codec : Codec) (state : StateManager) :
    (Function.support fun address => (state.getBalance codec address).toNat).Finite := by
  refine (state.mergedBalances codec .stored).keys.toFinset.finite_toSet.subset fun address nonzero => ?_
  rw [Finset.mem_coe, mem_toFinset, AList.mem_keys.symm]
  by_contra absent
  rw [Function.mem_support, ← @getD_lookup_mergedBalances codec state .stored,
    AList.lookup_eq_none.mpr absent] at nonzero
  exact nonzero rfl

/-- The abstract ledger a manager stands for: every address with what it can
spend, wherever it is stored. -/
noncomputable def ledger (codec : Codec) (state : StateManager) : String →₀ ℕ :=
  Finsupp.ofSupportFinite _ (balances_finite codec state)

@[simp] theorem ledger_apply (address : String) :
    state.ledger codec address = (state.getBalance codec address).toNat := rfl

theorem ledger_congr (same : ∀ address, after.getAccount codec address = state.getAccount codec address) :
    after.ledger codec = state.ledger codec := by
  apply ext
  intro address
  rw [ledger_apply, ledger_apply, getBalance, getBalance, same]

theorem totalSupply_toNat : (state.totalSupply codec σ).toNat = Ledger.total (state.ledger codec) % 2 ^ 128 := by
  have agree : ∀ a, state.ledger codec a = (((state.mergedBalances codec σ).lookup a).map BitVec.toNat).getD 0 := by
    intro a
    rw [ledger_apply, ← @getD_lookup_mergedBalances codec state σ]
    cases (state.mergedBalances codec σ).lookup a <;> rfl
  have shuffled := ((σ.perm sumLoop (pairs (state.mergedBalances codec σ))).map fun entry => entry.2.toNat).sum_nat
  rw [totalSupply, toNat_foldl_add, map_map, Ledger.total_eq_sum_pairs agree, ← shuffled]
  rfl

theorem ledger_setBalance (address : String) (balance : U128) :
    (state.setBalance codec address balance).ledger codec =
      (state.ledger codec).update address balance.toNat := by
  apply ext
  intro other
  rw [ledger_apply, getBalance_setBalance, update_apply, ledger_apply]
  split <;> rfl

/-- An admitted transfer is the abstract transfer, self-transfers included. -/
theorem ledger_transferred {sender receiver amount nonce}
    (admits : Admits codec state sender receiver amount nonce) :
    (transferred codec state sender receiver amount nonce).ledger codec =
      Ledger.transfer (state.ledger codec) sender receiver amount.toNat := by
  apply ext
  intro other
  have debited : (state.getBalance codec sender - amount).toNat =
      (state.getBalance codec sender).toNat - amount.toNat :=
    BitVec.toNat_sub_of_le (BitVec.le_def.mpr admits.covered)
  have credited : (state.getBalance codec receiver + amount).toNat =
      (state.getBalance codec receiver).toNat + amount.toNat := by
    rw [BitVec.toNat_add, Nat.mod_eq_of_lt admits.fits]
  rw [ledger_apply, getBalance_transferred, Ledger.transfer, update_apply, update_apply]
  by_cases atReceiver : other = receiver
  · rw [if_pos atReceiver, if_pos atReceiver, credited, ledger_apply]
  rw [if_neg atReceiver, if_neg atReceiver]
  by_cases atSender : other = sender
  · rw [if_pos atSender, if_pos atSender, debited, ledger_apply]
  · rw [if_neg atSender, if_neg atSender, ledger_apply]

end StateManager

end Bleep
