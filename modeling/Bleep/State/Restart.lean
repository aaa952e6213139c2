import Bleep.State.Calls

namespace Bleep
open HashTable Words StateManager OrderedStore List Function StateCall Prod

variable {codec : Codec} {blake3 : Bytes → Hash32} {utf8Error : Bytes → String} {seen : Set String}
  {db : HashMap Bytes Bytes} {initial state after : StateManager} {outside : Outside}

/-- The account a database holds for an address. -/
def storedAccount (codec : Codec) (db : HashMap Bytes Bytes) (address : String) : AccountState :=
  match db.lookup (accountKey address) with
  | some value => (codec.decodeAccount value).getD {}
  | none => {}

/-- All keys with the account prefix are keys of addresses. -/
def WellKeyed (db : HashMap Bytes Bytes) : Prop :=
  ∀ key value, db.lookup key = some value → prefixAccount <+: key → ∃ address, key = accountKey address

theorem getAccount_of_not_cached {address} (absent : state.cache.lookup address = none) :
    state.getAccount codec address = storedAccount codec state.db address := by
  rw [getAccount, absent]
  rfl

section Open

theorem leaf_isSome_iff (account : AccountState) : account.leaf.isSome ↔ account.balance > 0 ∨ account.nonce > 0 := by
  have balance : account.balance > 0 ↔ account.balance ≠ 0 := BitVec.pos_iff_ne_zero account.balance
  have nonce : account.nonce > 0 ↔ account.nonce ≠ 0 := BitVec.pos_iff_ne_zero account.nonce
  rw [balance, nonce, AccountState.leaf, ← Decidable.not_and_iff_or_not]
  split
  · rename_i empty
    exact iff_of_false Bool.false_ne_true (not_not_intro empty)
  · rename_i occupied
    exact iff_of_true rfl occupied

variable {account : AccountState}

theorem leaf_eq_some (occupied : account.leaf.isSome) :
    account.leaf = some (account.balance, account.nonce) := by
  unfold AccountState.leaf at occupied ⊢
  split
  · rename_i empty
    rw [if_pos empty] at occupied
    cases occupied
  · rfl

/-- A database that opens has only addresses under the account prefix. -/
theorem rebuildEntries_ok {entries trie rebuilt}
    (ok : rebuildEntries codec blake3 utf8Error trie entries = (.ok (), rebuilt)) :
    ∀ entry ∈ entries, ∃ address, fromUtf8 (entry.1.drop prefixAccount.length) = some address := by
  induction entries generalizing trie with
  | nil => exact fun _ none => absurd none not_mem_nil
  | cons entry entries ih =>
    unfold rebuildEntries at ok
    split at ok
    · cases ok
    rename_i address decoded
    refine forall_mem_cons.mpr ⟨⟨address, decoded⟩, ?_⟩
    simp only at ok
    split at ok
    · exact ih ok
    · exact ih ok

theorem rebuildEntries_cons {address} (trie : SparseMerkleTrie) (value : Bytes)
    (rest : List (Bytes × Bytes)) :
    rebuildEntries codec blake3 utf8Error trie ((accountKey address, value) :: rest) =
      let account := (codec.decodeAccount value).getD {}
      rebuildEntries codec blake3 utf8Error
        (if account.leaf.isSome then trie.insert blake3 address account.balance account.nonce else trie) rest := by
  have decoded : fromUtf8 ((accountKey address).drop prefixAccount.length) = some address := by
    rw [accountKey, drop_left, fromUtf8_utf8]
  rw [rebuildEntries]
  simp only [decoded, leaf_isSome_iff]
  split <;> rfl

variable {trie : SparseMerkleTrie} {shown : String → Option (U128 × U64)} {address : String}

/-- One account: it is inserted, or it is empty and was not shown before. -/
theorem insertStored_represents (injective : Set.InjOn (keyToPath blake3) seen)
    (coherent : trie.Coherent blake3) (represents : Represents blake3 trie.leaves shown)
    (known : ∀ a, (shown a).isSome → a ∈ seen) (fresh : shown address = none)
    (inside : account.leaf.isSome → address ∈ seen) :
    let next := if account.leaf.isSome then trie.insert blake3 address account.balance account.nonce else trie
    next.Coherent blake3 ∧ Represents blake3 next.leaves (update shown address account.leaf) ∧
      ∀ a, (update shown address account.leaf a).isSome → a ∈ seen := by
  intro next
  by_cases occupied : account.leaf.isSome
  · have inserted : next = trie.insert blake3 address account.balance account.nonce := if_pos occupied
    rw [inserted]
    refine ⟨coherent.insert address _ _, represents.update known (inside occupied) injective fun path => ?_, ?_⟩
    · rw [lookup_insert_leaves, leaf_eq_some occupied]
      rfl
    · intro a present
      by_cases same : a = address
      · exact same ▸ inside occupied
      · rw [Function.update_of_ne same] at present
        exact known a present
  · have kept : next = trie := if_neg occupied
    have empty : account.leaf = none := Option.not_isSome_iff_eq_none.mp occupied
    rw [kept, empty, ← fresh, update_eq_self]
    exact ⟨coherent, represents, known⟩

/-- Rebuilding from entries with distinct addresses that the trie does not
show yet: it then shows each of them. -/
theorem rebuildEntries_represents {entries} (injective : Set.InjOn (keyToPath blake3) seen)
    (coherent : trie.Coherent blake3) (represents : Represents blake3 trie.leaves shown)
    (known : ∀ a, (shown a).isSome → a ∈ seen) (nodup : (entries.map fst).Nodup)
    (keyed : ∀ entry ∈ entries, ∃ a, entry.1 = accountKey a ∧ shown a = none ∧
      (((codec.decodeAccount entry.2).getD {}).leaf.isSome → a ∈ seen)) :
    ∃ rebuilt shown', rebuildEntries codec blake3 utf8Error trie entries = (.ok (), rebuilt) ∧
      rebuilt.Coherent blake3 ∧ Represents blake3 rebuilt.leaves shown' ∧
      (∀ a, (shown' a).isSome → a ∈ seen) ∧
      (∀ a value, (accountKey a, value) ∈ entries → shown' a = ((codec.decodeAccount value).getD {}).leaf) ∧
      ∀ a, accountKey a ∉ entries.map fst → shown' a = shown a := by
  induction entries generalizing trie shown with
  | nil =>
    exact ⟨trie, shown, rfl, coherent, represents, known, fun _ _ none => absurd none not_mem_nil, fun _ _ => rfl⟩
  | cons entry entries ih =>
    obtain ⟨key, value⟩ := entry
    obtain ⟨⟨address, rfl, fresh, inside⟩, later⟩ := forall_mem_cons.mp keyed
    rw [List.map_cons, nodup_cons] at nodup
    obtain ⟨nextCoherent, nextRepresents, nextKnown⟩ :=
      insertStored_represents injective coherent represents known fresh inside
    have remaining : ∀ e ∈ entries, ∃ a, e.1 = accountKey a ∧
        update shown address ((codec.decodeAccount value).getD {}).leaf a = none ∧
        (((codec.decodeAccount e.2).getD {}).leaf.isSome → a ∈ seen) := by
      intro e member
      obtain ⟨a, same, absent, allowed⟩ := later e member
      refine ⟨a, same, ?_, allowed⟩
      have different : a ≠ address := by
        rintro rfl
        exact nodup.1 (mem_map.mpr ⟨e, member, same⟩)
      rw [Function.update_of_ne different, absent]
    obtain ⟨rebuilt, shown', run, done, shows_, knows, listed, others⟩ :=
      ih nextCoherent nextRepresents nextKnown nodup.2 remaining
    refine ⟨rebuilt, shown', (rebuildEntries_cons trie value entries).trans run, done, shows_, knows, ?_, ?_⟩
    · intro a stored member
      rcases List.mem_cons.mp member with here | there
      · obtain ⟨same, rfl⟩ := mk.inj here
        rw [accountKey_injective same, others address nodup.1, update_self]
      · exact listed a stored there
    · intro a absent
      rw [List.map_cons, List.mem_cons, not_or] at absent
      rw [others a absent.2, Function.update_of_ne fun same => absent.1 (congrArg accountKey same)]

theorem openDb_ok (opened : openDb codec blake3 utf8Error db = .ok state) :
    WellKeyed db ∧ storedHeight db = .ok state.blockHeight ∧ state.db = db ∧ state.cache = ∅ := by
  unfold openDb at opened
  split at opened
  · cases opened
  rename_i blockHeight height
  split at opened
  · cases opened
  rename_i rebuilt
  cases opened
  obtain ⟨result, rfl⟩ := Prod.mk.inj rebuilt
  have texts := rebuildEntries_ok (Prod.ext result rfl)
  refine ⟨fun key value stored inside => ?_, height, rfl, rfl⟩
  obtain ⟨address, decoded⟩ := texts (key, value) (mem_prefixEntries.mpr ⟨stored, inside⟩)
  obtain ⟨rest, rfl⟩ := inside
  rw [drop_left] at decoded
  exact ⟨address, by rw [accountKey, utf8_of_fromUtf8 decoded]⟩

/-- A well-keyed database with a readable height opens, and the trie then
shows every stored account. -/
theorem openDb_synced {height} (injective : Set.InjOn (keyToPath blake3) seen) (keyed : WellKeyed db)
    (stored : storedHeight db = .ok height)
    (known : ∀ address, (storedAccount codec db address).leaf.isSome → address ∈ seen) :
    ∃ opened, openDb codec blake3 utf8Error db = .ok opened ∧ opened.db = db ∧ opened.cache = ∅ ∧
      opened.blockHeight = height ∧ opened.Synced codec blake3 seen := by
  have found {address : String} {value : Bytes} (entry : db.lookup (accountKey address) = some value) :
      storedAccount codec db address = (codec.decodeAccount value).getD {} := by
    rw [storedAccount, entry]
  have fresh : Represents blake3 SparseMerkleTrie.new.leaves fun _ => none := by
    intro path value
    refine ⟨fun stored => (by cases stored), ?_⟩
    rintro ⟨_, _, _, none, -⟩
    cases none
  have entries : ∀ entry ∈ prefixEntries db prefixAccount, ∃ a, entry.1 = accountKey a ∧
      (none : Option (U128 × U64)) = none ∧
      (((codec.decodeAccount entry.2).getD {}).leaf.isSome → a ∈ seen) := by
    rintro ⟨key, value⟩ member
    obtain ⟨entry, starts⟩ := mem_prefixEntries.mp member
    obtain ⟨address, rfl⟩ := keyed key value entry starts
    exact ⟨address, rfl, rfl, fun occupied => known address (found entry ▸ occupied)⟩
  obtain ⟨rebuilt, shown, run, coherent, represents, inside, listed, others⟩ :=
    @rebuildEntries_represents codec blake3 utf8Error seen _ _ _ injective SparseMerkleTrie.new_coherent fresh
      (fun _ present => by cases present) (prefixEntries_keys_nodup db prefixAccount) entries
  refine ⟨⟨db, ∅, height, rebuilt⟩, ?_, rfl, rfl, rfl, coherent, fun _ _ none => (by cases none), shown, represents,
    inside, fun address _ => ?_⟩
  · simp only [openDb, stored, rebuildTrieFromDb, run]
  rw [accounts, getAccount_of_not_cached rfl]
  cases entry : db.lookup (accountKey address) with
  | some value =>
    rw [found entry]
    exact listed address value (mem_prefixEntries.mpr ⟨entry, prefix_append _ _⟩)
  | none =>
    rw [storedAccount, entry]
    refine others address fun member => ?_
    obtain ⟨⟨key, value⟩, present, rfl⟩ := mem_map.mp member
    rw [(mem_prefixEntries.mp present).1] at entry
    cases entry

end Open

section Commits

/-- The database after a commit: the one before with every dirty account of
the cache, the height, and keys that are no accounts. -/
def Flushed (codec : Codec) (db : HashMap Bytes Bytes) (after : StateManager) : Prop :=
  ∃ σ others, after.db = insertAll db (after.dirtyAccounts codec σ ++ others) ∧
    (∀ key ∈ others.map fst, key.head? ≠ some 97) ∧
    ∀ db : HashMap Bytes Bytes, (insertAll db others).lookup keyHeight = some (le64 after.blockHeight)

/-- The database holds exactly what can be read. -/
structure Durable (codec : Codec) (state : StateManager) : Prop where
  accounts : ∀ address, storedAccount codec state.db address = state.getAccount codec address
  height : storedHeight state.db = .ok state.blockHeight

theorem insertAll_append (db : HashMap Bytes Bytes) (first second : List (Bytes × Bytes)) :
    insertAll db (first ++ second) = insertAll (insertAll db first) second :=
  foldl_append

theorem dirtyAccounts_keys_nodup (codec : Codec) (σ : IterOrder) (state : StateManager) :
    ((state.dirtyAccounts codec σ).map fst).Nodup := by
  have keys := iter_keys_nodup σ flushLoop state.cache
  rw [List.Nodup, pairwise_map] at keys ⊢
  rw [dirtyAccounts, pairwise_filterMap]
  refine keys.imp fun {left right} distinct => ?_
  intro first atLeft second atRight same
  split at atLeft
  · split at atRight
    · cases atLeft
      cases atRight
      exact distinct (accountKey_injective same)
    · cases atRight
  · cases atLeft

theorem mem_dirtyAccounts {σ key value}
    (member : (key, value) ∈ state.dirtyAccounts codec σ) : ∃ address, key = accountKey address := by
  obtain ⟨⟨address, entry⟩, -, written⟩ := mem_filterMap.mp member
  split at written
  · cases written
    exact ⟨address, rfl⟩
  · cases written

theorem storedHeight_of_lookup {height} (stored : db.lookup keyHeight = some (le64 height)) :
    storedHeight db = .ok height := by
  have length : (le64 height).length = 8 := leBytes_length 8 _
  have value : fromLeBytes (le64 height) = height.toNat := by
    rw [le64, fromLeBytes_leBytes]
    exact Nat.mod_eq_of_lt height.isLt
  rw [storedHeight, stored]
  simp [length, value]

/-- After a commit the database holds what can be read, if the cache has
nothing but dirty entries. -/
theorem Flushed.durable (flushed : Flushed codec db after)
    (dirty : ∀ address entry, after.cache.lookup address = some entry → entry.dirty = true) : Durable codec after := by
  obtain ⟨σ, others, written, foreign, height⟩ := flushed
  rw [insertAll_append] at written
  refine ⟨fun address => ?_, storedHeight_of_lookup (written ▸ height _)⟩
  cases cached : after.cache.lookup address with
  | some entry =>
    have apart : accountKey address ∉ others.map fst := fun member =>
      foreign _ member (accountKey_head address)
    have put : (accountKey address, codec.encodeAccount entry.state) ∈ after.dirtyAccounts codec σ :=
      mem_filterMap.mpr ⟨(address, entry), mem_iter.mpr cached, if_pos (dirty address entry cached)⟩
    rw [storedAccount, written, lookup_insertAll_of_not_mem _ apart,
      lookup_insertAll_of_mem _ (dirtyAccounts_keys_nodup codec σ after) put, getAccount, cached]
    simp [codec.decodeAccount_encodeAccount]
  | none => rw [getAccount_of_not_cached cached]

theorem Flushed.wellKeyed (flushed : Flushed codec db after) (keyed : WellKeyed db) : WellKeyed after.db := by
  obtain ⟨σ, others, written, foreign, -⟩ := flushed
  intro key value stored inside
  have account : key.head? = some 97 := by
    obtain ⟨rest, rfl⟩ := inside
    exact accountKey_head ""
  have apart : key ∉ others.map fst := fun member => foreign key member account
  rw [written, insertAll_append, lookup_insertAll_of_not_mem _ apart,
    lookup_insertAll _ (dirtyAccounts_keys_nodup codec σ after)] at stored
  rcases stored with put | ⟨-, old⟩
  · exact mem_dirtyAccounts put
  · exact keyed key value old inside

theorem flushed_of_block {block}
    (flush : state.flushWithCanonicalBlock codec outside block = (.ok (), after)) (kept : state.db = db)
    (height : state.blockHeight = block.index) : Flushed codec db after := by
  subst kept
  obtain ⟨body, -, rfl⟩ := flushWithCanonicalBlock_ok flush
  refine ⟨outside.σ, blockPuts codec block body, rfl, blockPuts_foreign codec block body, fun db => ?_⟩
  have others : keyHeight ∉ [keyChainId, keyTipHash, blockKey block.index] := by
    intro member
    simp only [List.mem_cons, not_mem_nil, or_false] at member
    rcases member with same | same | same
    · exact absurd same (by decide)
    · exact absurd same (by decide)
    · have head := blockKey_head block.index
      rw [← same] at head
      exact absurd head (by decide)
  change (insertAll (db.insert keyHeight _) [_, _, _]).lookup keyHeight = _
  exact congrArg _ (congrArg le64 height.symm)

variable {call : StateCall}

/-- A call that does not commit leaves the database and the height. One that
does has flushed the accounts with a block that was checked to be the next one,
or has flushed them alone. -/
theorem call_cases (codec : Codec) (blake3 : Bytes → Hash32) (state : StateManager) (call : StateCall) :
    (call.commits codec blake3 state = false ∧ (call.apply codec blake3 state).db = state.db ∧
      (call.apply codec blake3 state).blockHeight = state.blockHeight) ∨
    call.commits codec blake3 state = true ∧
    ((∃ (outside : Outside) (block : BlockArgs) (mid : StateManager),
      ((∃ expectedRoot transfers, call = .applyCanonicalBlock outside block expectedRoot transfers) ∨
        call = .persistCanonicalBlock outside block) ∧
      state.checkNextCanonicalBlock block = .ok () ∧
      mid.flushWithCanonicalBlock codec outside block = (.ok (), call.apply codec blake3 state) ∧
      mid.db = state.db ∧ mid.blockHeight = block.index) ∨
    ∃ (outside : Outside) (mid : StateManager),
      call = .commitBlock outside ∧ mid.db = state.db ∧ mid.blockHeight = state.blockHeight ∧
      call.apply codec blake3 state = { mid with
        db := insertAll mid.db (mid.dirtyAccounts codec outside.σ ++ [(keyHeight, le64 mid.blockHeight)]) }) := by
  cases call with
  | mint σ address amount =>
    rw [apply]
    rcases mint_cases codec σ state address amount with ⟨e, refused⟩ | ⟨balance, minted, -⟩
    · exact .inl ⟨rfl, refused ▸ ⟨rfl, rfl⟩⟩
    · exact .inl ⟨rfl, minted ▸ ⟨rfl, rfl⟩⟩
  | applyTransfer now sender receiver amount nonce timestamp =>
    rw [apply]
    rcases applyTransfer_cases codec now state sender receiver amount nonce timestamp with refused | ⟨accepted, -⟩
    · exact .inl ⟨rfl, refused ▸ ⟨rfl, rfl⟩⟩
    · exact .inl ⟨rfl, accepted ▸ ⟨rfl, rfl⟩⟩
  | applyCanonicalBlock outside block expectedRoot transfers =>
    rw [apply, commits]
    rcases result : state.applyCanonicalBlock codec blake3 outside block expectedRoot transfers with ⟨_ | _, after⟩
    · exact .inl ⟨rfl, applyCanonicalBlock_error result ▸ ⟨rfl, rfl⟩⟩
    obtain ⟨mid, loop, flush⟩ := applyCanonicalBlock_ok result
    obtain ⟨cache, framed⟩ := applyTransfers_frame codec state transfers
    rw [loop] at framed
    subst framed
    exact .inr ⟨rfl, .inl ⟨outside, block, _, .inl ⟨_, _, rfl⟩, applyCanonicalBlock_extends result, flush, rfl, rfl⟩⟩
  | persistCanonicalBlock outside block =>
    rw [apply, commits]
    rcases result : state.persistCanonicalBlock codec blake3 outside block with ⟨_ | _, after⟩
    · obtain ⟨trie, rfl⟩ := persistCanonicalBlock_error result
      exact .inl ⟨rfl, rfl, rfl⟩
    obtain ⟨extends_, flush⟩ := persistCanonicalBlock_ok result
    exact .inr ⟨rfl, .inl ⟨outside, block, _, .inr rfl, extends_, flush, rfl, rfl⟩⟩
  | commitBlock outside =>
    rw [apply, commits]
    rcases result : state.commitBlock codec blake3 outside with ⟨_ | _, after⟩
    · exact .inl ⟨rfl, writeBatch_error result ▸ ⟨rfl, rfl⟩⟩
    · exact .inr ⟨rfl, .inr ⟨outside, state.syncTrie blake3 outside.σ commitSyncLoop, rfl, rfl, rfl, writeBatch_ok result⟩⟩
  | _ => exact .inl ⟨rfl, rfl, rfl⟩

theorem frame_of_not_commits (keeps : call.commits codec blake3 state = false) :
    (call.apply codec blake3 state).db = state.db ∧
    (call.apply codec blake3 state).blockHeight = state.blockHeight :=
  ((call_cases codec blake3 state call).resolve_right fun done => by cases done.1.symm.trans keeps).2

/-- A call that commits has flushed the state it leaves. -/
theorem flushed_of_commits (commits : call.commits codec blake3 state = true) :
    Flushed codec state.db (call.apply codec blake3 state) := by
  rcases call_cases codec blake3 state call with ⟨idle, -⟩ |
    ⟨-, ⟨outside, block, mid, -, -, flush, kept, height⟩ | ⟨outside, mid, -, kept, -, written⟩⟩
  · cases idle.symm.trans commits
  · exact flushed_of_block flush kept height
  rw [written, ← kept]
  refine ⟨outside.σ, [(keyHeight, le64 mid.blockHeight)], rfl, ?_, fun db => AList.lookup_insert _⟩
  intro key member
  rw [mem_singleton.mp member]
  exact (by decide : keyHeight.head? ≠ some 97)

end Commits

section Restart

/-- The calls that write only known addresses. -/
abbrev StateCall.Within (seen : Set String) (call : StateCall) : Prop := ∀ address ∈ call.writes, address ∈ seen

/-- The states in which nothing that can be read has changed since the last
successful commit, or since the start. -/
inductive Settled (codec : Codec) (blake3 : Bytes → Hash32) (seen : Set String) (initial : StateManager) :
    StateManager → Prop
  | start : Settled codec blake3 seen initial initial
  | commit {log : List (String × U64)} {state : StateManager} (call : StateCall)
      (reach : CallReach codec blake3 (Within seen) initial log state) (within : call.Within seen)
      (commits : call.commits codec blake3 state = true) :
      Settled codec blake3 seen initial (call.apply codec blake3 state)
  | idle {state : StateManager} (call : StateCall) (settled : Settled codec blake3 seen initial state)
      (within : call.Within seen)
      (accounts : ∀ address, (call.apply codec blake3 state).getAccount codec address = state.getAccount codec address)
      (height : (call.apply codec blake3 state).blockHeight = state.blockHeight) :
      Settled codec blake3 seen initial (call.apply codec blake3 state)

/-- What a run keeps on the way: the trie follows the accounts, and the keys
under the account prefix stay keys of addresses. -/
structure Kept (codec : Codec) (blake3 : Bytes → Hash32) (seen : Set String) (state : StateManager) : Prop where
  synced : state.Synced codec blake3 seen
  keyed : WellKeyed state.db

section

variable (injective : Set.InjOn (keyToPath blake3) seen)
include injective

theorem Synced.proveAccount (synced : state.Synced codec blake3 seen) (σ : IterOrder) (address : String) :
    (state.proveAccount blake3 σ address).2.Synced codec blake3 seen := by
  have resynced := synced.resync injective σ proveSyncLoop
  obtain ⟨shown, represents, rest⟩ := resynced.shown
  refine ⟨resynced.coherent.root_spec.2.2, resynced.dirty, shown, ?_, rest⟩
  have leaves := @root_leaves blake3 σ (state.syncTrie blake3 σ proveSyncLoop).trie
  exact leaves.symm ▸ represents

theorem Synced.call {call : StateCall} (synced : state.Synced codec blake3 seen)
    (within : ∀ address ∈ call.writes, address ∈ seen) :
    (call.apply codec blake3 state).Synced codec blake3 seen := by
  cases call with
  | setBalance address balance => exact synced.setBalance (within address (mem_singleton_self _)) balance
  | incrementNonce address =>
    rw [apply, StateManager.incrementNonce]
    exact synced.modifyAccount (within address (mem_singleton_self _)) _
  | setCodeHash address hash =>
    rw [apply, StateManager.setCodeHash]
    exact synced.modifyAccount (within address (mem_singleton_self _)) _
  | mint σ address amount => exact synced.mint (within address (mem_singleton_self _)) σ amount
  | applyTransfer now sender receiver amount nonce timestamp =>
    have senderSeen := within sender mem_cons_self
    have receiverSeen := within receiver (mem_cons_of_mem _ mem_cons_self)
    rw [apply]
    rcases applyTransfer_cases codec now state sender receiver amount nonce timestamp with refused | ⟨accepted, -⟩
    · rw [refused]
      exact synced
    · rw [accepted]
      exact synced.transferred senderSeen receiverSeen amount nonce
  | applyCanonicalBlock outside block expectedRoot transfers =>
    refine synced.applyCanonicalBlock injective fun transfer member => ⟨within _ ?_, within _ ?_⟩
    · exact mem_flatMap.mpr ⟨transfer, member, mem_cons_self⟩
    · exact mem_flatMap.mpr ⟨transfer, member, mem_cons_of_mem _ mem_cons_self⟩
  | persistCanonicalBlock outside block => exact synced.persistCanonicalBlock injective
  | commitBlock outside => exact synced.commitBlock injective
  | stateRoot σ => exact synced.stateRoot injective σ
  | proveAccount σ address => exact Synced.proveAccount injective synced σ address

theorem Kept.call {call : StateCall} (kept : Kept codec blake3 seen state)
    (within : call.Within seen) :
    Kept codec blake3 seen (call.apply codec blake3 state) := by
  refine ⟨Synced.call injective kept.synced within, ?_⟩
  cases commits : call.commits codec blake3 state with
  | true => exact (flushed_of_commits commits).wellKeyed kept.keyed
  | false =>
    rw [(frame_of_not_commits commits).1]
    exact kept.keyed

theorem durable_of_commits {call : StateCall} (kept : Kept codec blake3 seen state)
    (within : call.Within seen)
    (commits : call.commits codec blake3 state = true) : Durable codec (call.apply codec blake3 state) :=
  (flushed_of_commits commits).durable fun address entry cached =>
    ((Synced.call injective kept.synced within).dirty address entry cached).1

theorem CallReach.kept {log} (start : Kept codec blake3 seen initial)
    (reach : CallReach codec blake3 (Within seen) initial log state) : Kept codec blake3 seen state := by
  induction reach with
  | start => exact start
  | call call _ within ih => exact ih.call injective within

theorem Settled.durable (start : Kept codec blake3 seen initial)
    (fresh : Durable codec initial) (settled : Settled codec blake3 seen initial state) :
    Kept codec blake3 seen state ∧ Durable codec state := by
  induction settled with
  | start => exact ⟨start, fresh⟩
  | commit call reach within commits =>
    have before := reach.kept injective start
    exact ⟨before.call injective within, durable_of_commits injective before within commits⟩
  | idle call _ within accounts height ih =>
    refine ⟨ih.1.call injective within, ?_⟩
    cases commits : commits codec blake3 _ call with
    | true => exact durable_of_commits injective ih.1 within commits
    | false =>
      have db := (frame_of_not_commits commits).1
      exact ⟨fun address => by rw [db, accounts, ih.2.accounts], by rw [db, height, ih.2.height]⟩

/-- A manager whose database holds what can be read is the one that opening
the database gives, as far as any caller can tell. -/
theorem Durable.reopen (kept : Kept codec blake3 seen state)
    (durable : Durable codec state) :
    ∃ reopened, openDb codec blake3 utf8Error state.db = .ok reopened ∧ reopened.Synced codec blake3 seen ∧
      (∀ address, reopened.getAccount codec address = state.getAccount codec address) ∧
      reopened.blockHeight = state.blockHeight := by
  have known : ∀ address, (storedAccount codec state.db address).leaf.isSome → address ∈ seen := by
    intro address occupied
    rw [durable.accounts] at occupied
    exact kept.synced.known occupied
  obtain ⟨reopened, opened, db, cache, height, synced⟩ :=
    @openDb_synced codec blake3 utf8Error seen state.db _ injective kept.keyed durable.height known
  refine ⟨reopened, opened, synced, fun address => ?_, height⟩
  have uncached : reopened.cache.lookup address = none := by rw [cache]; rfl
  rw [getAccount_of_not_cached uncached, db, durable.accounts]

end

/-- Restarting is not noticed: after a run on an opened database, with
nothing changed since the last successful commit, opening the database again
gives the same accounts, height, supply and state root. -/
theorem restart_transparent (opened : openDb codec blake3 utf8Error db = .ok initial)
    (injective : Set.InjOn (keyToPath blake3) seen)
    (stored : ∀ address, (initial.getAccount codec address).leaf.isSome → address ∈ seen)
    (settled : Settled codec blake3 seen initial state) :
    ∃ reopened, openDb codec blake3 utf8Error state.db = .ok reopened ∧
      (∀ address, reopened.getBalance codec address = state.getBalance codec address ∧
        reopened.getNonce codec address = state.getNonce codec address ∧
        (reopened.getAccount codec address).codeHash = (state.getAccount codec address).codeHash) ∧
      reopened.blockHeight = state.blockHeight ∧
      (∀ σ σ', reopened.totalSupply codec σ = state.totalSupply codec σ') ∧
      ∀ σ σ', (reopened.stateRoot blake3 σ).1 = (state.stateRoot blake3 σ').1 := by
  obtain ⟨keyed, height, rfl, cache⟩ := openDb_ok opened
  have uncached (address : String) : storedAccount codec initial.db address = initial.getAccount codec address := by
    rw [getAccount_of_not_cached]
    rw [cache]
    rfl
  obtain ⟨again, same, -, -, -, synced⟩ :=
    @openDb_synced codec blake3 utf8Error seen initial.db _ injective keyed height fun address occupied =>
      stored address (uncached address ▸ occupied)
  obtain rfl : again = initial := Except.ok.inj (same.symm.trans opened)
  obtain ⟨kept, durable⟩ := settled.durable injective ⟨synced, keyed⟩ ⟨uncached, height⟩
  obtain ⟨reopened, run, shows_, accounts, sameHeight⟩ := @Durable.reopen codec blake3 utf8Error seen state injective
    kept durable
  refine ⟨reopened, run, fun address => ?_, sameHeight, fun σ σ' => ?_, fun σ σ' => ?_⟩
  · rw [getBalance, getBalance, getNonce, getNonce, accounts]
    exact ⟨rfl, rfl, rfl⟩
  · apply BitVec.eq_of_toNat_eq
    rw [totalSupply_toNat, totalSupply_toNat, ledger_congr accounts]
  · rw [shows_.stateRoot_eq injective, kept.synced.stateRoot_eq injective]
    have leaves : reopened.accounts codec = state.accounts codec :=
      funext fun address => congrArg AccountState.leaf (accounts address)
    rw [leaves]

/-- A deposit, a payment and a code hash. -/
def beforeRestart : List StateCall :=
  [.mint .stored "alice" 100, .applyTransfer 1000 "alice" "bob" 100 0 990, .setCodeHash "bob" (markedHash [])]

theorem bob_survives_restart :
    ∃ state reopened : StateManager, openDb fixedWidthCodec markedHash (fun _ => "") state.db = .ok reopened ∧
      reopened.getBalance fixedWidthCodec "bob" = 100 ∧ reopened.getNonce fixedWidthCodec "alice" = 1 ∧
      (reopened.getAccount fixedWidthCodec "bob").codeHash = some (markedHash []) ∧ reopened.blockHeight = 1 := by
  have injective : Set.InjOn (keyToPath markedHash) {"alice", "bob"} := by
    rintro a (rfl | rfl) b (rfl | rfl) same
    · rfl
    · exact absurd same (by decide)
    · exact absurd same (by decide)
    · rfl
  have known : ∀ call ∈ beforeRestart, call.Within {"alice", "bob"} := by
    intro call member address written
    simp only [beforeRestart, List.mem_cons, not_mem_nil, or_false] at member
    rcases member with rfl | rfl | rfl
    · exact .inl (mem_singleton.mp written)
    · simpa [writes] using written
    · exact .inr (mem_singleton.mp written)
  have settled := Settled.idle (.stateRoot .stored)
    (.commit (.persistCanonicalBlock quietly openingBlock)
      (makeCalls_reach known : CallReach fixedWidthCodec markedHash _ .empty _ _)
      (fun _ none => absurd none not_mem_nil) (by decide))
    (fun _ none => absurd none not_mem_nil) (fun _ => rfl) rfl
  have opened : openDb fixedWidthCodec markedHash (fun _ => "") ∅ = .ok .empty := rfl
  obtain ⟨reopened, run, accounts, height, -⟩ :=
    restart_transparent opened injective (fun _ occupied => by cases occupied) settled
  refine ⟨_, reopened, run, ?_, ?_, ?_, height.trans ?_⟩
  · rw [(accounts "bob").1]
    decide
  · rw [(accounts "alice").2.1]
    decide
  · rw [(accounts "bob").2.2]
    decide
  · rfl

end Restart

end Bleep
