import Bleep.Core.Agreement

namespace Bleep
open HashTable Words StateManager BlockchainState List

section
variable (codec : Codec) (σ : IterOrder)

-- The loops of the export and of the node that reads it.
def exportLoop : Nat := 520
def seedLoop : Nat := 521

variable (state : StateManager)

/-- A balance of 0 is passed by, in the database as in the cache. -/
def StateManager.exportBalances : HashMap String U128 :=
  insertAll (insertAll ∅ ((state.persistedBalances codec).filter fun entry => 0 < entry.2))
    (((σ.iter exportLoop state.cache).map fun entry => (entry.1, entry.2.state.balance)).filter fun entry => 0 < entry.2)

/-- A balance that does not fit in 64 bits is logged and left out. -/
def BlockchainState.seed (core : BlockchainState) (entry : String × U128) : BlockchainState :=
  if 0 < entry.2 ∧ entry.2.toNat < 2 ^ 64 then core.credit entry.1 (entry.2.setWidth 64) else core

/-- The core ledger a node starts with. -/
def BlockchainState.seeded : BlockchainState :=
  (σ.iter seedLoop (state.exportBalances codec σ)).foldl .seed .new

/-- The map holds exactly the positive balances that can be read. -/
def StateManager.Exports (exported : HashMap String U128) : Prop :=
  ∀ address balance, exported.lookup address = some balance ↔ 0 < balance ∧ state.getBalance codec address = balance

/-- An account that was emptied in the cache still has a positive balance in
the database. -/
def StateManager.Stale : Prop :=
  ∃ address entry balance, state.cache.lookup address = some entry ∧ entry.state.balance = 0 ∧
    (address, balance) ∈ state.persistedBalances codec ∧ 0 < balance

end

variable {codec : Codec} {σ : IterOrder} {state : StateManager}

theorem pos_iff {balance : U128} : 0 < balance ↔ balance ≠ 0 := by
  rw [BitVec.lt_def, ne_eq, ← BitVec.toNat_inj]
  exact Nat.pos_iff_ne_zero

theorem exports_iff : state.Exports codec (state.exportBalances codec σ) ↔ ¬ state.Stale codec := by
  have overlay {address : String} {balance : U128} :=
    @lookup_overlay codec state σ address balance exportLoop fun entry => 0 < entry.2
  simp only [decide_eq_true_eq, decide_eq_false_iff_not] at overlay
  constructor
  · rintro exact ⟨address, entry, balance, cached, empty, persisted, positive⟩
    have found : (state.exportBalances codec σ).lookup address = some balance := by
      refine overlay.mpr ⟨positive, .inr ⟨fun other again => ?_, persisted⟩⟩
      cases cached.symm.trans again
      rw [empty]
      decide
    have read := ((exact address balance).mp found).2
    rw [getBalance, getAccount, cached] at read
    exact pos_iff.mp positive (read.symm.trans empty)
  · intro fresh address balance
    refine overlay.trans (and_congr_right fun positive => ?_)
    rw [getBalance_eq_iff (pos_iff.mp positive)]
    refine or_congr_right (and_congr_left fun persisted => ?_)
    cases cached : state.cache.lookup address with
    | none => simp
    | some entry =>
      refine iff_of_false (fun empty => fresh ⟨address, entry, balance, cached, ?_, persisted, positive⟩) (by simp)
      exact Decidable.not_not.mp fun nonzero => empty entry rfl (pos_iff.mpr nonzero)

/-- What of a balance fits in the core ledger. -/
def fitting (balance : U128) : U64 := if balance.toNat < 2 ^ 64 then balance.setWidth 64 else 0

theorem balanceOf_seed (core : BlockchainState) (entry : String × U128) (address : String) :
    (core.seed entry).balanceOf address =
      if address = entry.1 then core.balanceOf address + fitting entry.2 else core.balanceOf address := by
  unfold seed fitting
  split
  · rename_i fits
    rw [credit, balanceOf_insert, if_pos fits.2]
    split
    · rename_i here
      rw [here]
    · rfl
  · rename_i unfit
    have nothing : (if entry.2.toNat < 2 ^ 64 then entry.2.setWidth 64 else 0 : U64) = 0 := by
      split
      · rename_i small
        have zero : entry.2 = 0 := Decidable.not_not.mp fun nonzero => unfit ⟨pos_iff.mpr nonzero, small⟩
        rw [zero]
        rfl
      · rfl
    rw [nothing]
    exact (ite_eq_iff'.mpr ⟨fun _ => BitVec.add_zero _, fun _ => rfl⟩).symm

/-- The turns of the loop are for different addresses. -/
theorem balanceOf_foldl_seed {entries : List (String × U128)} (nodup : (entries.map Prod.fst).Nodup)
    (core : BlockchainState) (address : String) :
    (address ∉ entries.map Prod.fst → (entries.foldl .seed core).balanceOf address = core.balanceOf address) ∧
      ∀ balance, (address, balance) ∈ entries →
        (entries.foldl .seed core).balanceOf address = core.balanceOf address + fitting balance := by
  induction entries generalizing core with
  | nil => simp
  | cons entry entries ih =>
    obtain ⟨absent, nodup⟩ := nodup_cons.mp nodup
    obtain ⟨others, listed⟩ := ih nodup (core.seed entry)
    have turn := balanceOf_seed core entry address
    constructor
    · intro missing
      rw [map_cons, mem_cons, not_or] at missing
      rw [foldl_cons, others missing.2, turn, if_neg missing.1]
    · intro balance member
      rcases mem_cons.mp member with rfl | later
      · rw [foldl_cons, others absent, turn, if_pos rfl]
      · have apart : address ≠ entry.1 := fun same => absent (same ▸ mem_map_of_mem later)
        rw [foldl_cons, listed balance later, turn, if_neg apart]

/-- The export is exact exactly when no account was emptied since it was saved.
Then it sums up to the supply, and the core ledger has every balance that fits. -/
theorem exported_balances (codec : Codec) (σ : IterOrder) (state : StateManager) :
    (state.Exports codec (state.exportBalances codec σ) ↔ ¬ state.Stale codec) ∧
    (state.Exports codec (state.exportBalances codec σ) →
      ((pairs (state.exportBalances codec σ)).map fun entry => entry.2.toNat).sum % 2 ^ 128 =
        (state.totalSupply codec σ).toNat ∧
      ∀ address, (seeded codec σ state).balanceOf address =
        fitting (state.getBalance codec address)) := by
  refine ⟨exports_iff, fun exact => ?_⟩
  have read (address : String) : (state.exportBalances codec σ).lookup address =
      if state.getBalance codec address = 0 then none else some (state.getBalance codec address) := by
    split
    · rename_i zero
      refine Option.eq_none_iff_forall_ne_some.mpr fun balance found => ?_
      obtain ⟨positive, same⟩ := (exact address balance).mp found
      exact pos_iff.mp positive (same.symm.trans zero)
    · rename_i nonzero
      exact (exact address _).mpr ⟨pos_iff.mpr nonzero, rfl⟩
  constructor
  · have agree (address : String) : state.ledger codec address =
        (((state.exportBalances codec σ).lookup address).map BitVec.toNat).getD 0 := by
      rw [ledger_apply, read]
      split
      · rename_i zero
        rw [zero]
        rfl
      · rfl
    rw [totalSupply_toNat, Ledger.total_eq_sum_pairs agree]
  · intro address
    obtain ⟨others, listed⟩ := balanceOf_foldl_seed (iter_keys_nodup σ seedLoop (state.exportBalances codec σ)) .new address
    have start : new.balanceOf address = 0 := rfl
    have found := read address
    split at found
    · rename_i zero
      rw [zero]
      refine others fun member => ?_
      obtain ⟨⟨_, balance⟩, inside, rfl⟩ := mem_map.mp member
      cases (mem_iter.mp inside).symm.trans found
    · exact (listed _ (mem_iter.mpr found)).trans (BitVec.zero_add _)

/-- Alice's coins were saved and are then spent, before the next save. -/
def spentUnsaved : StateManager :=
  let saved := ((empty.mint fixedWidthCodec .stored "alice" 5).2.commitBlock fixedWidthCodec markedHash ⟨.stored, .ok ()⟩).2
  (saved.applyTransferWithNonce fixedWidthCodec "alice" "bob" 5 0).2

theorem spent_coins_exported :
    (spentUnsaved.getBalance fixedWidthCodec "alice", spentUnsaved.totalSupply fixedWidthCodec .stored) = (0, 5) ∧
    ["alice", "bob"].map (seeded fixedWidthCodec .stored spentUnsaved).balanceOf = [5, 5] := by
  decide +kernel

end Bleep
