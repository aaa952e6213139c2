import Bleep.State.Accounts

namespace Bleep
open HashTable Words List

namespace StateManager

variable {codec : Codec} {blake3 : Bytes → Hash32} {state after : StateManager} {outside : Outside}
  {block : BlockArgs} {expectedRoot : String} {transfers : List CanonicalTransfer}

/-- One turn of the loop over the transfers: the nonce is compared twice. -/
theorem applyTransfers_cons (state : StateManager) (transfer : CanonicalTransfer) (rest : List CanonicalTransfer) :
    state.applyTransfers codec (transfer :: rest) =
      if Admits codec state transfer.sender transfer.receiver (transfer.amount.setWidth 128) transfer.nonce then
        (transferred codec state transfer.sender transfer.receiver (transfer.amount.setWidth 128)
          transfer.nonce).applyTransfers codec rest
      else (some transfer.sender, state) := by
  rw [applyTransfers, applyTransferWithNonce_eq]
  by_cases admits : Admits codec state transfer.sender transfer.receiver (transfer.amount.setWidth 128) transfer.nonce
  · rw [if_pos admits, if_pos admits, if_neg (not_not_intro admits.next.symm)]
  · rw [if_neg admits, if_neg admits]
    split <;> rfl

theorem applyTransfers_frame (codec : Codec) (state : StateManager) (transfers : List CanonicalTransfer) :
    ∃ cache, (state.applyTransfers codec transfers).2 = { state with cache := cache } := by
  induction transfers generalizing state with
  | nil => exact ⟨state.cache, rfl⟩
  | cons transfer rest ih =>
    rw [applyTransfers_cons]
    split
    · exact ih _
    · exact ⟨state.cache, rfl⟩

theorem checkNextCanonicalBlock_height (extends_ : state.checkNextCanonicalBlock block = .ok ()) :
    block.index.toNat = state.blockHeight.toNat + 1 := by
  unfold checkNextCanonicalBlock at extends_
  split at extends_
  · cases extends_
  rename_i expectedHeight next
  split at extends_
  · cases extends_
  rename_i same
  rw [not_ne_iff.mp same]
  exact (checkedAdd_eq_some.mp next).symm

/-- The height a failed flush falls back to is the height before the call. -/
theorem height_restored (extends_ : state.checkNextCanonicalBlock block = .ok ()) :
    saturatingSub block.index 1 = state.blockHeight := by
  have height := checkNextCanonicalBlock_height extends_
  apply BitVec.eq_of_toNat_eq
  rw [toNat_saturatingSub, height]
  exact Nat.add_sub_cancel _ _

variable {batch : List (Bytes × Bytes)} {e : StateError} {result : Except StateError Unit}

theorem writeBatch_error (failed : state.writeBatch outside batch = (.error e, after)) : after = state := by
  unfold writeBatch at failed
  split at failed
  · cases failed
    rfl
  · cases failed

theorem flushWithCanonicalBlock_frame (flushed : state.flushWithCanonicalBlock codec outside block = (result, after)) :
    after.cache = state.cache ∧ after.trie = state.trie := by
  unfold flushWithCanonicalBlock writeBatch at flushed
  split at flushed
  · cases flushed
    exact ⟨rfl, rfl⟩
  · split at flushed
    all_goals
      cases flushed
      exact ⟨rfl, rfl⟩

theorem flushWithCanonicalBlock_error (failed : state.flushWithCanonicalBlock codec outside block = (.error e, after)) :
    after = state := by
  unfold flushWithCanonicalBlock at failed
  split at failed
  · cases failed
    rfl
  · exact writeBatch_error failed

/-- The four puts of a block that are not accounts. -/
def blockPuts (codec : Codec) (block : BlockArgs) (body : Bytes) : List (Bytes × Bytes) :=
  [(keyHeight, le64 block.index), (keyChainId, utf8 block.chainId), (keyTipHash, utf8 block.blockHash),
    (blockKey block.index, codec.encodeRecord ⟨block.index, block.blockHash, block.previousHash, block.chainId, body⟩)]

theorem writeBatch_ok (written : state.writeBatch outside batch = (.ok (), after)) :
    after = { state with db := insertAll state.db batch } := by
  unfold writeBatch at written
  split at written
  · cases written
  cases written
  rfl

theorem flushWithCanonicalBlock_ok
    (flushed : state.flushWithCanonicalBlock codec outside block = (.ok (), after)) :
    ∃ body, block.body = .ok body ∧ after =
      { state with db := insertAll state.db (state.dirtyAccounts codec outside.σ ++ blockPuts codec block body) } := by
  unfold flushWithCanonicalBlock at flushed
  split at flushed
  · cases flushed
  rename_i body serialised
  exact ⟨body, serialised, writeBatch_ok flushed⟩

theorem blockPuts_foreign (codec : Codec) (block : BlockArgs) (body : Bytes) :
    ∀ key ∈ (blockPuts codec block body).map Prod.fst, key.head? ≠ some 97 := by
  intro key member
  simp only [blockPuts, map_cons, map_nil, mem_cons, not_mem_nil, or_false] at member
  rcases member with rfl | rfl | rfl | rfl
  · decide
  · decide
  · decide
  · rw [blockKey_head]
    decide

variable (address : String)

/-- Putting cached accounts and foreign keys changes no account. -/
theorem getAccount_insertAll
    (cached : accountKey address ∈ batch.map Prod.fst → (state.cache.lookup address).isSome) :
    ({ state with db := insertAll state.db batch } : StateManager).getAccount codec address =
      state.getAccount codec address := by
  unfold getAccount
  cases found : state.cache.lookup address with
  | some entry => rfl
  | none =>
    have absent : accountKey address ∉ batch.map Prod.fst := by
      intro member
      rw [found] at cached
      exact absurd (cached member) Bool.false_ne_true
    simp only [lookup_insertAll_of_not_mem state.db absent]

theorem cached_of_mem_dirtyAccounts {σ address}
    (member : accountKey address ∈ (state.dirtyAccounts codec σ).map Prod.fst) :
    (state.cache.lookup address).isSome := by
  obtain ⟨⟨key, value⟩, put, rfl⟩ := mem_map.mp member
  obtain ⟨⟨other, entry⟩, listed, written⟩ := mem_filterMap.mp put
  split at written
  · have same := accountKey_injective (Prod.mk.inj (Option.some.inj written)).1
    subst same
    rw [mem_iter.mp listed]
    rfl
  · cases written

theorem getAccount_writeBatch {others}
    (foreign : ∀ key ∈ others.map Prod.fst, key.head? ≠ some 97) (address : String) :
    (state.writeBatch outside (state.dirtyAccounts codec outside.σ ++ others)).2.getAccount codec address =
      state.getAccount codec address := by
  unfold writeBatch
  split
  · rfl
  apply getAccount_insertAll
  intro member
  rw [map_append, mem_append] at member
  rcases member with dirty | other
  · exact cached_of_mem_dirtyAccounts dirty
  · exact absurd (accountKey_head address) (foreign _ other)

theorem getAccount_flushInternal :
    (state.flushInternal codec outside).2.getAccount codec address = state.getAccount codec address := by
  apply getAccount_writeBatch
  intro key member
  rw [mem_singleton.mp member]
  exact (by decide : keyHeight.head? ≠ some 97)

theorem getAccount_flushWithCanonicalBlock
    (flushed : state.flushWithCanonicalBlock codec outside block = (result, after)) (address : String) :
    after.getAccount codec address = state.getAccount codec address := by
  rw [show after = (state.flushWithCanonicalBlock codec outside block).2 by rw [flushed], flushWithCanonicalBlock]
  split
  · rfl
  · rename_i body _
    exact getAccount_writeBatch (blockPuts_foreign codec block body) address

theorem getAccount_commitBlock :
    (state.commitBlock codec blake3 outside).2.getAccount codec address = state.getAccount codec address := by
  rw [commitBlock, getAccount_flushInternal]
  rfl

theorem getAccount_persistCanonicalBlock :
    (state.persistCanonicalBlock codec blake3 outside block).2.getAccount codec address =
      state.getAccount codec address := by
  unfold persistCanonicalBlock
  split
  · rfl
  simp only
  split
  · rename_i failed
    exact getAccount_flushWithCanonicalBlock failed address
  · rename_i flushed
    exact getAccount_flushWithCanonicalBlock flushed address

theorem persistCanonicalBlock_ok
    (accepted : state.persistCanonicalBlock codec blake3 outside block = (.ok (), after)) :
    state.checkNextCanonicalBlock block = .ok () ∧
      (({ state with blockHeight := block.index } : StateManager).syncTrie blake3 outside.σ
        commitSyncLoop).flushWithCanonicalBlock codec outside block = (.ok (), after) := by
  unfold persistCanonicalBlock at accepted
  split at accepted
  · cases accepted
  rename_i extends_
  simp only at accepted
  split at accepted
  · cases accepted
  rename_i flushed
  cases accepted
  exact ⟨extends_, flushed⟩

/-- A block that was not persisted may have synced the trie, and nothing
else. -/
theorem persistCanonicalBlock_error
    (refused : state.persistCanonicalBlock codec blake3 outside block = (.error e, after)) :
    ∃ trie, after = { state with trie := trie } := by
  unfold persistCanonicalBlock at refused
  split at refused
  · cases refused
    exact ⟨state.trie, rfl⟩
  · rename_i extends_
    simp only at refused
    split at refused
    · rename_i failed
      have kept := flushWithCanonicalBlock_error failed
      cases refused
      rw [kept, height_restored extends_]
      exact ⟨_, rfl⟩
    · cases refused

/-- A refused block leaves nothing behind: the caches are restored, and the
height is the one before. -/
theorem applyCanonicalBlock_error
    (refused : state.applyCanonicalBlock codec blake3 outside block expectedRoot transfers = (.error e, after)) :
    after = state := by
  unfold applyCanonicalBlock at refused
  split at refused
  · cases refused
    rfl
  · rename_i extends_
    obtain ⟨cache, framed⟩ := applyTransfers_frame codec state transfers
    simp only at refused
    split at refused
    · rename_i sender mid loop
      rw [loop] at framed
      subst framed
      cases refused
      rfl
    · rename_i mid loop
      rw [loop] at framed
      subst framed
      split at refused
      · cases refused
        rfl
      · split at refused
        · rename_i flush
          have kept := flushWithCanonicalBlock_error flush
          cases refused
          rw [kept, height_restored extends_]
          rfl
        · cases refused

/-- What an accepted block flushes, after its transfers. -/
def staged (blake3 : Bytes → Hash32) (outside : Outside) (block : BlockArgs) (mid : StateManager) : StateManager :=
  ({ (mid.stateRoot blake3 outside.σ).2 with blockHeight := block.index } : StateManager).syncTrie blake3 outside.σ
    commitSyncLoop

section
variable (accepted : state.applyCanonicalBlock codec blake3 outside block expectedRoot transfers = (.ok (), after))
include accepted

/-- An accepted block has all its transfers applied, in order. -/
theorem applyCanonicalBlock_ok :
    ∃ mid, state.applyTransfers codec transfers = (none, mid) ∧
      (staged blake3 outside block mid).flushWithCanonicalBlock codec outside block = (.ok (), after) := by
  unfold applyCanonicalBlock at accepted
  split at accepted
  · cases accepted
  simp only at accepted
  split at accepted
  · cases accepted
  rename_i mid loop
  split at accepted
  · cases accepted
  refine ⟨mid, loop, ?_⟩
  split at accepted
  · cases accepted
  rename_i flushed
  cases accepted
  exact flushed

theorem applyCanonicalBlock_extends : state.checkNextCanonicalBlock block = .ok () := by
  unfold applyCanonicalBlock at accepted
  split at accepted
  · cases accepted
  · assumption

end

theorem getAccount_of_flush_staged {mid}
    (flushed : (staged blake3 outside block mid).flushWithCanonicalBlock codec outside block = (result, after))
    (address : String) : after.getAccount codec address = mid.getAccount codec address :=
  getAccount_flushWithCanonicalBlock flushed address

/-- A block in its place whose transfers all apply and whose root is the one
computed is refused by nothing but the storage. -/
theorem applyCanonicalBlock_accepts {mid body} (extends_ : state.checkNextCanonicalBlock block = .ok ())
    (loop : state.applyTransfers codec transfers = (none, mid))
    (root : Hex.encode (mid.stateRoot blake3 outside.σ).1.toList = expectedRoot)
    (serialised : block.body = .ok body) (written : outside.written = .ok ()) :
    ∃ after, state.applyCanonicalBlock codec blake3 outside block expectedRoot transfers = (.ok (), after) := by
  unfold applyCanonicalBlock
  simp only [extends_, loop, root, ne_eq, not_true_eq_false, if_false, flushWithCanonicalBlock, serialised,
    writeBatch, written]
  exact ⟨_, rfl⟩

end StateManager

end Bleep
