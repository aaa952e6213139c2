import Bleep.State.Sessions

namespace Bleep
open HashTable Words List Function

/-- What the trie shows of an account: nothing for an empty one, and never
the code hash. -/
def AccountState.leaf (account : AccountState) : Option (U128 × U64) :=
  if account.balance = 0 ∧ account.nonce = 0 then none else some (account.balance, account.nonce)

namespace StateManager

def accounts (codec : Codec) (state : StateManager) (address : String) : Option (U128 × U64) :=
  (state.getAccount codec address).leaf

/-- The trie shows every account that is not cached; the cached ones are all
dirty, so the next sync writes them. The set holds all addresses written so
far. -/
structure Synced (codec : Codec) (blake3 : Bytes → Hash32) (seen : Set String) (state : StateManager) : Prop where
  coherent : state.trie.Coherent blake3
  dirty : ∀ address entry, state.cache.lookup address = some entry → entry.dirty = true ∧ address ∈ seen
  shown : ∃ shown, Represents blake3 state.trie.leaves shown ∧ (∀ address, (shown address).isSome → address ∈ seen) ∧
    ∀ address, state.cache.lookup address = none → shown address = state.accounts codec address

variable {codec : Codec} {blake3 : Bytes → Hash32} {seen : Set String} {state : StateManager}

theorem empty_synced : StateManager.empty.Synced codec blake3 seen := by
  refine ⟨SparseMerkleTrie.new_coherent, fun _ _ found => (by cases found), fun _ => none, ?_, ?_, fun _ _ => rfl⟩
  · intro path value
    refine ⟨fun found => (by cases found), ?_⟩
    rintro ⟨_, _, _, stored, -⟩
    cases stored
  · intro _ present
    cases present

/-- The accounts the trie shows after some cache entries are written to it. -/
def showEntries (shown : String → Option (U128 × U64)) (entries : List (String × CacheEntry)) :
    String → Option (U128 × U64) :=
  entries.foldl (fun shown entry => Function.update shown entry.1 entry.2.state.leaf) shown

variable {address : String} {entries : List (String × CacheEntry)} {trie : SparseMerkleTrie}

theorem showEntries_of_not_mem (shown : String → Option (U128 × U64)) (absent : address ∉ entries.map Prod.fst) :
    showEntries shown entries address = shown address := by
  induction entries generalizing shown with
  | nil => rfl
  | cons entry entries ih =>
    rw [map_cons, mem_cons, not_or] at absent
    have rest := ih (update shown entry.1 entry.2.state.leaf) absent.2
    rw [update_of_ne absent.1] at rest
    exact rest

theorem showEntries_of_mem {entry} (shown : String → Option (U128 × U64))
    (nodup : (entries.map Prod.fst).Nodup) (member : (address, entry) ∈ entries) :
    showEntries shown entries address = entry.state.leaf := by
  induction entries generalizing shown with
  | nil => cases member
  | cons head entries ih =>
    rw [map_cons, nodup_cons] at nodup
    rcases mem_cons.mp member with here | later
    · subst here
      have rest := showEntries_of_not_mem (update shown address entry.state.leaf) nodup.1
      rw [update_self] at rest
      exact rest
    · exact ih _ nodup.2 later

theorem syncEntry_coherent (coherent : trie.Coherent blake3) (entry : String × CacheEntry) :
    (syncEntry blake3 trie entry).Coherent blake3 := by
  unfold syncEntry
  split
  · split
    · exact coherent.remove entry.1
    · exact coherent.insert entry.1 _ _
  · exact coherent

theorem syncEntries_represents {shown} (represents : Represents blake3 trie.leaves shown)
    (known : ∀ address, (shown address).isSome → address ∈ seen) (injective : Set.InjOn (keyToPath blake3) seen)
    (dirty : ∀ entry ∈ entries, entry.2.dirty = true ∧ entry.1 ∈ seen) :
    Represents blake3 (entries.foldl (syncEntry blake3) trie).leaves (showEntries shown entries) := by
  induction entries generalizing trie shown with
  | nil => exact represents
  | cons entry entries ih =>
    obtain ⟨⟨flag, inside⟩, later⟩ := forall_mem_cons.mp dirty
    refine ih (represents.update known inside injective fun path => ?_) (fun address present => ?_) later
    · rw [syncEntry, if_pos flag, AccountState.leaf]
      by_cases empty : entry.2.state.balance = 0 ∧ entry.2.state.nonce = 0
      · rw [if_pos empty, if_pos empty, lookup_remove_leaves]
        rfl
      · rw [if_neg empty, if_neg empty, lookup_insert_leaves]
        rfl
    by_cases same : address = entry.1
    · exact same ▸ inside
    · simp only [update_of_ne same] at present
      exact known address present

theorem Synced.known (synced : state.Synced codec blake3 seen) (present : (state.accounts codec address).isSome) :
    address ∈ seen := by
  obtain ⟨shown, -, inside, unsynced⟩ := synced.shown
  cases cached : state.cache.lookup address with
  | some entry => exact (synced.dirty address entry cached).2
  | none => exact inside address (by rw [unsynced address cached]; exact present)

/-- After a sync the trie is exactly the accounts that can be read. -/
theorem Synced.represents (synced : state.Synced codec blake3 seen) (injective : Set.InjOn (keyToPath blake3) seen)
    (σ : IterOrder) (loop : Nat) :
    Represents blake3 (state.syncTrie blake3 σ loop).trie.leaves (state.accounts codec) := by
  obtain ⟨shown, represents, known, unsynced⟩ := synced.shown
  have written : ∀ entry ∈ σ.iter loop state.cache, entry.2.dirty = true ∧ entry.1 ∈ seen :=
    fun entry member => synced.dirty entry.1 entry.2 (mem_iter.mp member)
  have listed := syncEntries_represents represents known injective written
  have whole : showEntries shown (σ.iter loop state.cache) = state.accounts codec := by
    funext address
    cases found : state.cache.lookup address with
    | some entry =>
      rw [showEntries_of_mem shown (iter_keys_nodup σ loop state.cache) (mem_iter.mpr found), accounts, getAccount,
        found]
    | none =>
      have absent : address ∉ (σ.iter loop state.cache).map Prod.fst := by
        intro member
        obtain ⟨⟨_, entry⟩, inside, rfl⟩ := mem_map.mp member
        rw [mem_iter.mp inside] at found
        cases found
      rw [showEntries_of_not_mem shown absent, unsynced address found]
  rw [whole] at listed
  exact listed

theorem syncTrie_coherent (coherent : state.trie.Coherent blake3) (σ : IterOrder) (loop : Nat) :
    (state.syncTrie blake3 σ loop).trie.Coherent blake3 :=
  foldlRecOn (motive := SparseMerkleTrie.Coherent blake3) (σ.iter loop state.cache) _ coherent
    fun _ kept entry _ => syncEntry_coherent kept entry

/-- The root after a sync is the root of the reference trie over all accounts. -/
theorem Synced.stateRoot_eq (synced : state.Synced codec blake3 seen)
    (injective : Set.InjOn (keyToPath blake3) seen) (σ : IterOrder) :
    (state.stateRoot blake3 σ).1 = referenceRoot blake3 (state.accounts codec) := by
  have coherent := syncTrie_coherent synced.coherent σ rootSyncLoop
  have root : (state.stateRoot blake3 σ).1 = ((state.syncTrie blake3 σ rootSyncLoop).trie.root blake3 σ).1 := rfl
  rw [root, coherent.root_spec.1, leavesRoot, (synced.represents injective σ rootSyncLoop).leafMap_eq, referenceRoot]

section Steps

variable {address : String} (synced : state.Synced codec blake3 seen)
include synced

theorem Synced.modifyAccount (inside : address ∈ seen)
    (change : AccountState → AccountState) : (state.modifyAccount codec address change).Synced codec blake3 seen := by
  obtain ⟨shown, represents, known, unsynced⟩ := synced.shown
  refine ⟨synced.coherent, ?_, shown, represents, known, ?_⟩
  · intro other entry found
    by_cases same : other = address
    · subst same
      have written := found
      change (state.cache.insert other _).lookup other = some entry at written
      rw [AList.lookup_insert] at written
      cases written
      exact ⟨rfl, inside⟩
    · change (state.cache.insert address _).lookup other = some entry at found
      rw [AList.lookup_insert_ne same] at found
      exact synced.dirty other entry found
  · intro other absent
    have elsewhere : other ≠ address := by
      rintro rfl
      change (state.cache.insert other _).lookup other = none at absent
      rw [AList.lookup_insert] at absent
      cases absent
    change (state.cache.insert address _).lookup other = none at absent
    rw [AList.lookup_insert_ne elsewhere] at absent
    rw [accounts, getAccount_modifyAccount, if_neg elsewhere]
    exact unsynced other absent

theorem Synced.setBalance (inside : address ∈ seen) (balance : U128) :
    (state.setBalance codec address balance).Synced codec blake3 seen :=
  synced.modifyAccount inside _

variable {receiver sender : String} {after : StateManager}

theorem Synced.transferred (senderSeen : sender ∈ seen) (receiverSeen : receiver ∈ seen) (amount : U128) (nonce : U64) :
    (state.transferred codec sender receiver amount nonce).Synced codec blake3 seen :=
  ((synced.setBalance senderSeen _).setBalance receiverSeen _).modifyAccount senderSeen _

theorem Synced.mint (inside : address ∈ seen) (σ : IterOrder) (amount : U128)
    : (state.mint codec σ address amount).2.Synced codec blake3 seen := by
  rcases mint_cases codec σ state address amount with ⟨e, refused⟩ | ⟨balance, minted, -⟩
  · rw [refused]
    exact synced
  · rw [minted]
    exact synced.setBalance inside balance

theorem Synced.applyTransfers {transfers}
    (known : ∀ transfer ∈ transfers, transfer.sender ∈ seen ∧ transfer.receiver ∈ seen) :
    (state.applyTransfers codec transfers).2.Synced codec blake3 seen := by
  induction transfers generalizing state with
  | nil => exact synced
  | cons transfer rest ih =>
    obtain ⟨⟨senderSeen, receiverSeen⟩, later⟩ := forall_mem_cons.mp known
    rw [applyTransfers_cons]
    split
    · exact ih (synced.transferred senderSeen receiverSeen _ _) later
    · exact synced

/-- Whatever keeps cache, trie and the readable accounts keeps the invariant. -/
theorem Synced.congr (cache : after.cache = state.cache) (trie : after.trie = state.trie)
    (same : ∀ address, after.getAccount codec address = state.getAccount codec address) :
    after.Synced codec blake3 seen := by
  obtain ⟨shown, represents, known, unsynced⟩ := synced.shown
  refine ⟨trie ▸ synced.coherent, cache ▸ synced.dirty, shown, trie ▸ represents, known, fun address absent => ?_⟩
  rw [accounts, same]
  exact unsynced address (cache ▸ absent)

variable {outside : Outside} {block : BlockArgs} {expectedRoot : String} {transfers : List CanonicalTransfer}

theorem Synced.flush {result}
    (flushed : state.flushWithCanonicalBlock codec outside block = (result, after)) :
    after.Synced codec blake3 seen := by
  obtain ⟨cache, trie⟩ := flushWithCanonicalBlock_frame flushed
  exact synced.congr cache trie (getAccount_flushWithCanonicalBlock flushed)

variable (injective : Set.InjOn (keyToPath blake3) seen)
include injective

/-- A sync, with or without the computation of the root, leaves a trie that
shows everything. -/
theorem Synced.resync (σ : IterOrder) (loop : Nat)
    : (state.syncTrie blake3 σ loop).Synced codec blake3 seen := by
  exact ⟨syncTrie_coherent synced.coherent σ loop, synced.dirty, state.accounts codec,
    synced.represents injective σ loop, fun _ => synced.known, fun _ _ => rfl⟩

theorem Synced.stateRoot (σ : IterOrder)
    : (state.stateRoot blake3 σ).2.Synced codec blake3 seen := by
  have resynced := synced.resync injective σ rootSyncLoop
  obtain ⟨shown, represents, rest⟩ := resynced.shown
  refine ⟨resynced.coherent.root_spec.2.2, resynced.dirty, shown, ?_, rest⟩
  have leaves := @root_leaves blake3 σ (state.syncTrie blake3 σ rootSyncLoop).trie
  exact leaves.symm ▸ represents

theorem Synced.commitBlock : (state.commitBlock codec blake3 outside).2.Synced codec blake3 seen := by
  refine (synced.resync injective outside.σ commitSyncLoop).congr ?_ ?_ fun _ => getAccount_flushInternal _
  all_goals
    rw [StateManager.commitBlock, flushInternal, writeBatch]
    split <;> rfl

theorem Synced.persistCanonicalBlock :
    (state.persistCanonicalBlock codec blake3 outside block).2.Synced codec blake3 seen := by
  unfold StateManager.persistCanonicalBlock
  split
  · exact synced
  have raised : ({ state with blockHeight := block.index } : StateManager).Synced codec blake3 seen :=
    synced.congr rfl rfl fun _ => rfl
  have resynced := raised.resync injective outside.σ commitSyncLoop
  simp only
  split
  · rename_i failed
    exact (resynced.flush failed).congr rfl rfl fun _ => rfl
  · rename_i flushed
    exact resynced.flush flushed

/-- The state a block flushes shows what its transfers left. -/
theorem Synced.staged : (staged blake3 outside block state).Synced codec blake3 seen := by
  have raised : ({ (state.stateRoot blake3 outside.σ).2 with blockHeight := block.index } : StateManager).Synced codec
      blake3 seen := (synced.stateRoot injective outside.σ).congr rfl rfl fun _ => rfl
  exact raised.resync injective outside.σ commitSyncLoop

theorem Synced.applyCanonicalBlock
    (known : ∀ transfer ∈ transfers, transfer.sender ∈ seen ∧ transfer.receiver ∈ seen) :
    (state.applyCanonicalBlock codec blake3 outside block expectedRoot transfers).2.Synced codec blake3 seen := by
  rcases result : state.applyCanonicalBlock codec blake3 outside block expectedRoot transfers with ⟨_ | _, after⟩
  · rw [applyCanonicalBlock_error result]
    exact synced
  · obtain ⟨mid, loop, flushed⟩ := applyCanonicalBlock_ok result
    have applied := synced.applyTransfers known
    rw [loop] at applied
    exact (applied.staged injective).flush flushed

end Steps

end StateManager

end Bleep
