import Bleep.CrossShard.Locking
import Bleep.Library.Results
import Bleep.Library.Runs

namespace Bleep

open HashTable OrderedStore Results List AList Option CrossShardLockCoordinator StateLock

namespace ShardLockManager

variable {manager : ShardLockManager} {lockId : StateLockId} {lockIds : List StateLockId} {keys : List Bytes}
  {key : Bytes}

/-- The lock of this id has not been released and covers the key. -/
def Covers (manager : ShardLockManager) (lockId : StateLockId) (key : Bytes) : Prop :=
  ∃ lock, manager.locks.lookup lockId = some lock ∧ lock.status ≠ .released ∧ lock.coversKey key = true

structure Exclusive (manager : ShardLockManager) : Prop where
  single : ∀ key lockId other, manager.Covers lockId key → manager.Covers other key → lockId = other
  writable : ∀ key, manager.isKeyWritable key = false ↔ ∃ lockId, manager.Covers lockId key
  consistent : manager.verifyConsistency = .ok ()

/-- What holds of a shard whatever the calls: a mapped key never points outside
the table nor to a released lock that covers it, and a lock that is not released
is active and was taken in the current epoch. -/
structure Timely (manager : ShardLockManager) : Prop where
  mapped : ∀ key lockId, manager.keyToLock.lookup key = some lockId →
    ∃ lock, manager.locks.lookup lockId = some lock ∧ (key ∈ lock.lockedKeys → lock.status ≠ .released)
  current : ∀ lockId lock, manager.locks.lookup lockId = some lock → lock.status ≠ .released →
    lock.status = .active ∧ lock.acquiredEpoch = manager.currentEpoch ∧ lock.maxHoldEpochs = 1

theorem consistentKey_eq_ok {entry} :
    manager.consistentKey entry = .ok () ↔
      ∃ lock, manager.locks.lookup entry.2 = some lock ∧ entry.1 ∈ lock.lockedKeys := by
  unfold consistentKey
  cases manager.locks.lookup entry.2 with
  | none => simp
  | some lock =>
    by_cases covered : entry.1 ∈ lock.lockedKeys
    · simp [covered]
    · simp [covered]

theorem verifyConsistency_eq_ok :
    manager.verifyConsistency = .ok () ↔ ∀ key lockId, manager.keyToLock.lookup key = some lockId →
      ∃ lock, manager.locks.lookup lockId = some lock ∧ key ∈ lock.lockedKeys := by
  rw [verifyConsistency, forM_eq_ok, Prod.forall]
  refine forall_congr' fun key => forall_congr' fun lockId => ?_
  rw [mem_scanFrom_nil, consistentKey_eq_ok]

theorem isKeyWritable_eq_false :
    manager.isKeyWritable key = false ↔ ∃ lockId lock, manager.keyToLock.lookup key = some lockId ∧
      manager.locks.lookup lockId = some lock ∧ lock.status ≠ .released := by
  rw [isKeyWritable, getLockForKey]
  cases mapped : manager.keyToLock.lookup key with
  | none => simp
  | some lockId =>
    cases found : manager.locks.lookup lockId with
    | none => simp [found]
    | some lock =>
      by_cases released : lock.status = .released
      · simp [found, released]
      · simp [found, released]

theorem timely_new (shardId : ShardId) : (new shardId).Timely where
  mapped key lockId found := by cases found
  current lockId lock found := by cases found

/-- A shard is exclusive exactly when every key is mapped to the lock that
covers it. -/
theorem Timely.exclusive_iff (timely : manager.Timely) :
    manager.Exclusive ↔ ∀ key lockId, manager.keyToLock.lookup key = some lockId ↔ manager.Covers lockId key := by
  constructor
  · intro safe key lockId
    constructor
    · intro mapped
      obtain ⟨lock, found, inside⟩ := verifyConsistency_eq_ok.mp safe.consistent key lockId mapped
      obtain ⟨same, again, held⟩ := timely.mapped key lockId mapped
      obtain rfl : lock = same := some.inj (found.symm.trans again)
      exact ⟨lock, found, held inside, coversKey_iff.mpr inside⟩
    · intro covered
      obtain ⟨other, lock, mapped, found, held⟩ :=
        isKeyWritable_eq_false.mp ((safe.writable key).mpr ⟨lockId, covered⟩)
      obtain ⟨same, again, inside⟩ := verifyConsistency_eq_ok.mp safe.consistent key other mapped
      obtain rfl : lock = same := some.inj (found.symm.trans again)
      rwa [safe.single key lockId other covered ⟨lock, found, held, coversKey_iff.mpr inside⟩]
  · intro same
    refine ⟨fun key lockId other left right => ?_, fun key => ?_, verifyConsistency_eq_ok.mpr fun key lockId mapped => ?_⟩
    · exact some.inj (((same key lockId).mpr left).symm.trans ((same key other).mpr right))
    · rw [isKeyWritable_eq_false]
      constructor
      · rintro ⟨lockId, lock, mapped, -⟩
        exact ⟨lockId, (same key lockId).mp mapped⟩
      · rintro ⟨lockId, covered⟩
        obtain ⟨lock, found, held, -⟩ := id covered
        exact ⟨lockId, lock, (same key lockId).mpr covered, found, held⟩
    · obtain ⟨lock, found, -, inside⟩ := (same key lockId).mp mapped
      exact ⟨lock, found, coversKey_iff.mp inside⟩

theorem exclusive_new (shardId : ShardId) : (new shardId).Exclusive :=
  (timely_new shardId).exclusive_iff.mpr fun key lockId => by simp [new, Covers]

section Release

/-- The locks of the ids are released, all others are left as they are. -/
theorem lookup_locks_releaseHeld (manager : ShardLockManager) (lockIds : List StateLockId) (lockId : StateLockId) :
    (manager.releaseHeld lockIds).locks.lookup lockId =
      (manager.locks.lookup lockId).map fun lock => if lockId ∈ lockIds then lock.release else lock := by
  induction lockIds generalizing manager with
  | nil => simp [releaseHeld]
  | cons first lockIds ih =>
    rw [releaseHeld, foldl_cons, ← releaseHeld, ih]
    cases found : manager.locks.lookup first with
    | none =>
      by_cases here : lockId = first
      · subst here
        simp [releaseLock, found]
      · simp [releaseLock, found, here]
    | some lock =>
      by_cases here : lockId = first
      · subst here
        simp [releaseLock, found, drop, release]
      · simp [releaseLock, found, drop, lookup_insert_ne here, here]

/-- The mapping of a key goes with the first of the ids whose lock, released
or not, covers it. -/
theorem lookup_keys_releaseHeld (manager : ShardLockManager) (lockIds : List StateLockId) (key : Bytes) {lockId} :
    (manager.releaseHeld lockIds).keyToLock.lookup key = some lockId ↔
      manager.keyToLock.lookup key = some lockId ∧
        ∀ other ∈ lockIds, ∀ lock, manager.locks.lookup other = some lock → key ∉ lock.lockedKeys := by
  induction lockIds generalizing manager with
  | nil => simp [releaseHeld]
  | cons first lockIds ih =>
    rw [releaseHeld, foldl_cons, ← releaseHeld, ih, forall_mem_cons]
    cases found : manager.locks.lookup first with
    | none => simp [releaseLock, found]
    | some lock =>
      have kept (other : StateLockId) (absent : key ∉ lock.lockedKeys) :
          (∀ next, (manager.locks.insert first lock.release).lookup other = some next → key ∉ next.lockedKeys) ↔
            ∀ next, manager.locks.lookup other = some next → key ∉ next.lockedKeys := by
        by_cases here : other = first
        · subst here
          simp [found, absent, release]
        · rw [lookup_insert_ne here]
      by_cases covered : key ∈ lock.lockedKeys
      · simp [releaseLock, found, drop, lookup_eraseAll, covered]
      · simp [releaseLock, found, drop, lookup_eraseAll, covered, kept _ covered]

@[simp]
theorem currentEpoch_releaseHeld (manager : ShardLockManager) (lockIds : List StateLockId) :
    (manager.releaseHeld lockIds).currentEpoch = manager.currentEpoch := by
  induction lockIds generalizing manager with
  | nil => rfl
  | cons first lockIds ih =>
    rw [releaseHeld, foldl_cons, ← releaseHeld, ih]
    cases found : manager.locks.lookup first with
    | none => simp [releaseLock, found]
    | some lock => simp [releaseLock, found, drop]

theorem covers_releaseHeld :
    (manager.releaseHeld lockIds).Covers lockId key ↔ manager.Covers lockId key ∧ lockId ∉ lockIds := by
  unfold Covers
  rw [lookup_locks_releaseHeld]
  by_cases released : lockId ∈ lockIds
  · simp [released, release]
  · simp [released]

theorem Timely.releaseHeld (timely : manager.Timely) (lockIds : List StateLockId) :
    (manager.releaseHeld lockIds).Timely where
  mapped key lockId found := by
    obtain ⟨mapped, uncovered⟩ := (lookup_keys_releaseHeld manager lockIds key).mp found
    obtain ⟨lock, present, held⟩ := timely.mapped key lockId mapped
    rw [lookup_locks_releaseHeld, present]
    refine ⟨_, rfl, ?_⟩
    by_cases released : lockId ∈ lockIds
    · simp [released, release, uncovered lockId released lock present]
    · simpa [released] using held
  current lockId lock found held := by
    rw [lookup_locks_releaseHeld, map_eq_some_iff] at found
    obtain ⟨old, present, rfl⟩ := found
    by_cases released : lockId ∈ lockIds
    · simp [released, release] at held
    · simp only [released, if_false, currentEpoch_releaseHeld] at held ⊢
      exact timely.current lockId old present held

/-- Releasing keeps the shard exclusive exactly when no key of the released
locks is covered by a lock that stays. -/
theorem Exclusive.releaseHeld_iff (safe : manager.Exclusive) (timely : manager.Timely) (lockIds : List StateLockId) :
    (manager.releaseHeld lockIds).Exclusive ↔
      ∀ lockId ∈ lockIds, ∀ lock, manager.locks.lookup lockId = some lock → ∀ key ∈ lock.lockedKeys,
        ∀ other, manager.Covers other key → other ∈ lockIds := by
  simp only [(timely.releaseHeld lockIds).exclusive_iff, lookup_keys_releaseHeld, covers_releaseHeld,
    timely.exclusive_iff.mp safe]
  constructor
  · intro after lockId released lock found key inside other covered
    by_contra stays
    -- the other lock still covers the key, whose mapping is gone
    exact ((after key other).mpr ⟨covered, stays⟩).2 lockId released lock found inside
  · intro apart key lockId
    refine and_congr_right fun covered => ⟨fun free released => ?_, fun stays other released lock found inside => ?_⟩
    · obtain ⟨lock, found, -, inside⟩ := covered
      exact free lockId released lock found (coversKey_iff.mp inside)
    · exact stays (apart other released lock found key inside lockId covered)

end Release

section Epoch

theorem mem_expiredLocks :
    lockId ∈ manager.expiredLocks ↔
      ∃ lock, manager.locks.lookup lockId = some lock ∧ lock.isExpired manager.currentEpoch = true := by
  rw [expiredLocks, List.mem_map]
  constructor
  · rintro ⟨⟨_, lock⟩, listed, rfl⟩
    obtain ⟨present, expired⟩ := mem_filter.mp listed
    exact ⟨lock, mem_ascending.mp present, expired⟩
  · rintro ⟨lock, present, expired⟩
    exact ⟨(lockId, lock), mem_filter.mpr ⟨mem_ascending.mpr present, expired⟩, rfl⟩

theorem Timely.expires (timely : manager.Timely) {lock}
    (found : manager.locks.lookup lockId = some lock) (held : lock.status ≠ .released) :
    lock.isExpired (manager.currentEpoch + 1) = true := by
  obtain ⟨-, taken, once⟩ := timely.current lockId lock found held
  have elapsed : manager.currentEpoch + 1 - manager.currentEpoch = 1 := by
    rw [BitVec.add_comm, BitVec.add_sub_cancel]
  rw [isExpired, taken, once, elapsed]
  rfl

theorem Timely.advanceEpoch (timely : manager.Timely) : manager.advanceEpoch.Timely where
  mapped key lockId found := by
    obtain ⟨mapped, uncovered⟩ := (lookup_keys_releaseHeld _ _ key).mp found
    obtain ⟨lock, present, held⟩ := timely.mapped key lockId mapped
    rw [ShardLockManager.advanceEpoch, cleanupExpiredLocks, lookup_locks_releaseHeld]
    refine ⟨_, congrArg (Option.map _) present, fun inside => ?_⟩
    have covered : key ∈ lock.lockedKeys := by
      revert inside
      split <;> exact id
    have expired := timely.expires present (held covered)
    exact absurd covered (uncovered lockId (mem_expiredLocks.mpr ⟨lock, present, expired⟩) lock present)
  current lockId lock found held := by
    rw [ShardLockManager.advanceEpoch, cleanupExpiredLocks, lookup_locks_releaseHeld, map_eq_some_iff] at found
    obtain ⟨old, present, rfl⟩ := found
    by_cases released : old.status = .released
    · revert held
      split <;> simp [StateLock.release, released]
    · rw [if_pos (mem_expiredLocks.mpr ⟨old, present, timely.expires present released⟩)] at held
      simp [StateLock.release] at held

/-- At the end of an epoch all locks are released, so no key is covered. -/
theorem Exclusive.advanceEpoch (safe : manager.Exclusive) (timely : manager.Timely) : manager.advanceEpoch.Exclusive := by
  refine timely.advanceEpoch.exclusive_iff.mpr fun key lockId => iff_of_false ?_ ?_
  · intro found
    obtain ⟨mapped, free⟩ := (lookup_keys_releaseHeld _ _ key).mp found
    obtain ⟨lock, present, held, inside⟩ := (timely.exclusive_iff.mp safe key lockId).mp mapped
    exact free lockId (mem_expiredLocks.mpr ⟨lock, present, timely.expires present held⟩) lock present
      (coversKey_iff.mp inside)
  · intro covered
    obtain ⟨⟨lock, present, held, -⟩, stays⟩ := covers_releaseHeld.mp covered
    exact stays (mem_expiredLocks.mpr ⟨lock, present, timely.expires present held⟩)

end Epoch

section Acquire

variable {transactionId : TransactionId}

def taken (manager : ShardLockManager) (lockId : StateLockId) (transactionId : TransactionId) (keys : List Bytes) :
    ShardLockManager :=
  { manager with
    locks := manager.locks.insert lockId (.new lockId transactionId keys manager.currentEpoch)
    keyToLock := insertAll manager.keyToLock (keys.map fun key => (key, lockId)) }

theorem Timely.acquireLock (timely : manager.Timely) (writable : ∀ key ∈ keys, manager.isKeyWritable key = true) :
    manager.acquireLock lockId transactionId keys = .ok (manager.taken lockId transactionId keys) := by
  have free : keys.forM manager.conflict = .ok () := by
    refine forM_eq_ok.mpr fun key inside => ?_
    rw [conflict]
    cases mapped : manager.keyToLock.lookup key with
    | none => rfl
    | some lockId =>
      obtain ⟨lock, found, -⟩ := timely.mapped key lockId mapped
      have released : lock.status = .released := by
        by_contra held
        have blocked := isKeyWritable_eq_false.mpr ⟨lockId, lock, mapped, found, held⟩
        rw [writable key inside] at blocked
        cases blocked
      simp [found, released]
  rw [ShardLockManager.acquireLock, free]
  rfl

variable {other : StateLockId}

theorem covers_taken :
    (manager.taken lockId transactionId keys).Covers other key ↔
      (other = lockId ∧ key ∈ keys) ∨ (other ≠ lockId ∧ manager.Covers other key) := by
  by_cases here : other = lockId
  · subst here
    simp [Covers, taken, StateLock.new, StateLock.coversKey]
  · simp [Covers, taken, lookup_insert_ne here, here]

theorem lookup_keys_taken :
    (manager.taken lockId transactionId keys).keyToLock.lookup key = some other ↔
      (other = lockId ∧ key ∈ keys) ∨ (key ∉ keys ∧ manager.keyToLock.lookup key = some other) := by
  rw [taken, lookup_insertAll_const]
  by_cases asked : key ∈ keys
  · simp [asked, eq_comm]
  · simp [asked]

theorem Timely.taken (timely : manager.Timely) (lockId : StateLockId) (transactionId : TransactionId)
    (keys : List Bytes) : (manager.taken lockId transactionId keys).Timely where
  mapped key other found := by
    by_cases here : other = lockId
    · subst here
      exact ⟨_, lookup_insert _, fun _ => by simp [StateLock.new]⟩
    · rcases lookup_keys_taken.mp found with ⟨same, -⟩ | ⟨-, before⟩
      · exact absurd same here
      rw [ShardLockManager.taken, lookup_insert_ne here]
      exact timely.mapped key other before
  current other lock found held := by
    by_cases here : other = lockId
    · subst here
      rw [ShardLockManager.taken, lookup_insert] at found
      obtain rfl := some.inj found
      exact ⟨rfl, rfl, rfl⟩
    · rw [ShardLockManager.taken, lookup_insert_ne here] at found
      exact timely.current other lock found held

/-- Taking a lock on writable keys keeps the shard exclusive exactly when the
lock it replaces in the table covers nothing. -/
theorem Exclusive.taken_iff (safe : manager.Exclusive) (timely : manager.Timely)
    (writable : ∀ key ∈ keys, manager.isKeyWritable key = true) :
    (manager.taken lockId transactionId keys).Exclusive ↔ ∀ key, ¬ manager.Covers lockId key := by
  have uncovered (key : Bytes) (asked : key ∈ keys) (other : StateLockId) : ¬ manager.Covers other key := by
    intro covered
    have blocked := (safe.writable key).mpr ⟨other, covered⟩
    rw [writable key asked] at blocked
    cases blocked
  simp only [(timely.taken lockId transactionId keys).exclusive_iff, lookup_keys_taken, covers_taken,
    timely.exclusive_iff.mp safe]
  constructor
  · intro after key covered
    -- the key of the replaced lock keeps its mapping, to a lock that lacks it
    have absent : key ∉ keys := fun asked => uncovered key asked lockId covered
    rcases (after key lockId).mp (.inr ⟨absent, covered⟩) with ⟨-, asked⟩ | ⟨differs, -⟩
    · exact absent asked
    · exact differs rfl
  · intro fresh key other
    refine or_congr_right (and_congr_left fun covered => ?_)
    exact iff_of_true (fun asked => uncovered key asked other covered) fun same => fresh key (same ▸ covered)

end Acquire

end ShardLockManager

open ShardLockManager

namespace CrossShardLockCoordinator

variable {self : CrossShardLockCoordinator} {shardId : ShardId} {manager : ShardLockManager}

/-- On every shard a key has at most one lock that is not released, is not
writable exactly when it has one, and the tables agree. -/
structure Exclusive (coordinator : CrossShardLockCoordinator) : Prop where
  single : ∀ shardId manager, coordinator.shardLocks.lookup shardId = some manager →
    ∀ key lockId other, manager.Covers lockId key → manager.Covers other key → lockId = other
  writable : ∀ shardId manager, coordinator.shardLocks.lookup shardId = some manager →
    ∀ key, manager.isKeyWritable key = false ↔ ∃ lockId, manager.Covers lockId key
  consistent : coordinator.verifyAllLocks = .ok ()

/-- The transaction has a lock that is not released on the key. -/
def Holds (self : CrossShardLockCoordinator) (shardId : ShardId) (key : Bytes) (transactionId : TransactionId) : Prop :=
  ∃ manager, self.shardLocks.lookup shardId = some manager ∧ ∃ lockId lock, manager.locks.lookup lockId = some lock ∧
    lock.status ≠ .released ∧ lock.coversKey key = true ∧ lock.transactionId = transactionId

/-- The key cannot be written on the shard. -/
def Blocks (self : CrossShardLockCoordinator) (shardId : ShardId) (key : Bytes) : Prop :=
  ∃ manager, self.shardLocks.lookup shardId = some manager ∧ manager.isKeyWritable key = false

def Timely (self : CrossShardLockCoordinator) : Prop :=
  ∀ shardId manager, self.shardLocks.lookup shardId = some manager → manager.Timely

theorem verifyAllLocks_eq_ok :
    self.verifyAllLocks = .ok () ↔
      ∀ shardId manager, self.shardLocks.lookup shardId = some manager → manager.verifyConsistency = .ok () := by
  rw [verifyAllLocks, forM_eq_ok, Prod.forall]
  exact forall_congr' fun shardId => forall_congr' fun manager => imp_congr_left mem_ascending

theorem exclusive_iff :
    self.Exclusive ↔ ∀ shardId manager, self.shardLocks.lookup shardId = some manager → manager.Exclusive := by
  constructor
  · intro safe shardId manager found
    exact ⟨safe.single shardId manager found, safe.writable shardId manager found,
      verifyAllLocks_eq_ok.mp safe.consistent shardId manager found⟩
  · intro each
    refine ⟨fun shardId manager found => (each shardId manager found).single,
      fun shardId manager found => (each shardId manager found).writable, verifyAllLocks_eq_ok.mpr ?_⟩
    exact fun shardId manager found => (each shardId manager found).consistent

section Acquire

variable {transactionId : TransactionId} {requests : List (ShardId × StateLockId × List Bytes)}

theorem checkRequest_eq_ok {request} :
    self.checkRequest request = .ok () ↔ ∃ manager, self.shardLocks.lookup request.1 = some manager ∧
      ∀ key ∈ request.2.2, manager.isKeyWritable key = true := by
  rw [checkRequest]
  cases self.shardLocks.lookup request.1 with
  | none => simp
  | some manager =>
    simp only [forM_eq_ok, some.injEq, exists_eq_left']
    refine forall_congr' fun key => imp_congr_right fun _ => ?_
    cases manager.isKeyWritable key with
    | false => simp
    | true => simp

theorem Timely.insert_taken (timely : self.Timely) (found : self.shardLocks.lookup shardId = some manager)
    (lockId : StateLockId) (transactionId : TransactionId) (keys : List Bytes) :
    Timely { self with shardLocks := self.shardLocks.insert shardId (manager.taken lockId transactionId keys) } := by
  intro other later present
  rcases lookup_insert_cases present with ⟨-, rfl⟩ | ⟨-, present⟩
  · exact (timely shardId manager found).taken lockId transactionId keys
  · exact timely other later present

/-- The second pass takes every lock that passed the first one. -/
theorem Timely.acquireEach_taken (timely : self.Timely) (nodup : (requests.map Prod.fst).Nodup)
    (checked : ∀ request ∈ requests, self.checkRequest request = .ok ()) :
    (acquireEach transactionId requests self).1 = .ok () ∧
      (∀ shardId lockId keys manager, (shardId, lockId, keys) ∈ requests → self.shardLocks.lookup shardId = some manager →
        (acquireEach transactionId requests self).2.shardLocks.lookup shardId =
          some (manager.taken lockId transactionId keys)) ∧
      ∀ shardId ∉ requests.map Prod.fst,
        (acquireEach transactionId requests self).2.shardLocks.lookup shardId =
          self.shardLocks.lookup shardId := by
  induction requests generalizing self with
  | nil => exact ⟨rfl, fun _ _ _ _ member => (by cases member), fun _ _ => rfl⟩
  | cons request requests ih =>
    obtain ⟨first, lockId, keys⟩ := request
    rw [forall_mem_cons] at checked
    rw [map_cons, nodup_cons] at nodup
    obtain ⟨manager, found, writable⟩ := checkRequest_eq_ok.mp checked.1
    have acquired : manager.acquireLock lockId transactionId keys = .ok (manager.taken lockId transactionId keys) :=
      (timely first manager found).acquireLock writable
    rw [acquireEach]
    simp only [found, acquired]
    have absent : first ∉ requests.map Prod.fst := nodup.1
    have apart {request : ShardId × StateLockId × List Bytes} (member : request ∈ requests) : request.1 ≠ first :=
      fun same => absent (same ▸ mem_map_of_mem member)
    obtain ⟨passed, taken, others⟩ := @ih _ (timely.insert_taken found lockId transactionId keys) nodup.2 (by
      intro request member
      obtain ⟨next, present, free⟩ := checkRequest_eq_ok.mp (checked.2 request member)
      exact checkRequest_eq_ok.mpr ⟨next, (lookup_insert_ne (apart member)).trans present, free⟩)
    refine ⟨passed, fun shardId lockId' keys' manager' member present => ?_, fun shardId absent => ?_⟩
    · rcases mem_cons.mp member with same | later
      · cases same
        cases found.symm.trans present
        exact (others first nodup.1).trans (lookup_insert _)
      · exact taken shardId lockId' keys' manager' later ((lookup_insert_ne (apart later)).trans present)
    · rw [map_cons, mem_cons, not_or] at absent
      exact (others shardId absent.2).trans (lookup_insert_ne absent.1)

/-- Acquiring fails before anything is changed, or takes every lock asked for. -/
theorem Timely.acquireLocks_cases (timely : self.Timely) (transactionId : TransactionId) (requests : LockRequests) :
    (∃ text, self.acquireLocks transactionId requests = (.error text, self)) ∨
      ∃ after, self.acquireLocks transactionId requests = (.ok (), after) ∧ ∀ shardId,
        requests.lookup shardId = none ∧ after.shardLocks.lookup shardId = self.shardLocks.lookup shardId ∨
        ∃ lockId keys manager, requests.lookup shardId = some (lockId, keys) ∧
          self.shardLocks.lookup shardId = some manager ∧ (∀ key ∈ keys, manager.isKeyWritable key = true) ∧
          after.shardLocks.lookup shardId = some (manager.taken lockId transactionId keys) := by
  rw [acquireLocks]
  cases checked : (ascending (· ≤ ·) requests).forM self.checkRequest with
  | error text => exact .inl ⟨text, rfl⟩
  | ok u =>
    have each := forM_eq_ok.mp checked
    obtain ⟨passed, taken, others⟩ := @Timely.acquireEach_taken self transactionId _ timely
      (ascending_keys_nodup requests) each
    rcases ran : acquireEach transactionId (ascending (· ≤ ·) requests) self with ⟨_ | _, mid⟩
    · rw [ran] at passed
      cases passed
    rw [ran] at taken others
    refine .inr ⟨_, rfl, fun shardId => ?_⟩
    cases asked : requests.lookup shardId with
    | none =>
      refine .inl ⟨rfl, others shardId fun listed => ?_⟩
      obtain ⟨⟨_, request⟩, member, rfl⟩ := List.mem_map.mp listed
      rw [mem_ascending.mp member] at asked
      cases asked
    | some request =>
      have listed : (shardId, request) ∈ ascending (· ≤ ·) requests := mem_ascending.mpr asked
      obtain ⟨manager, found, writable⟩ := checkRequest_eq_ok.mp (each _ listed)
      exact .inr ⟨request.1, request.2, manager, rfl, found, writable, taken _ _ _ _ listed found⟩

end Acquire

theorem lookup_release {transactionId lockIds}
    (held : self.transactionLocks.lookup transactionId = some lockIds) (shardId : ShardId) :
    (self.releaseTransactionLocks transactionId).2.shardLocks.lookup shardId =
      (self.shardLocks.lookup shardId).map fun manager => manager.releaseHeld lockIds := by
  rw [releaseTransactionLocks, held]
  exact lookup_mapValues _ _ _

end CrossShardLockCoordinator

namespace LockCall

open CrossShardLockCoordinator

variable {self : CrossShardLockCoordinator}

/-- Releasing the locks of a transaction leaves a key that another one holds
with that transaction, and not writable. -/
def Respects (self : CrossShardLockCoordinator) : LockCall → Prop
  | releaseTransactionLocks transactionId => ∀ shardId key other, other ≠ transactionId →
      self.Holds shardId key other → (self.releaseTransactionLocks transactionId).2.Holds shardId key other ∧
        (self.releaseTransactionLocks transactionId).2.Blocks shardId key
  | _ => True

/-- A lock that is taken replaces none that covers a key; the locks released
for a transaction are its own, and none of their keys has been locked again. -/
def Fits (self : CrossShardLockCoordinator) : LockCall → Prop
  | acquireLocks transactionId requests => (self.acquireLocks transactionId requests).1 = .ok () →
      ∀ shardId lockId keys manager, requests.lookup shardId = some (lockId, keys) →
        self.shardLocks.lookup shardId = some manager → ∀ key, ¬ manager.Covers lockId key
  | releaseTransactionLocks transactionId => ∀ lockIds, self.transactionLocks.lookup transactionId = some lockIds →
      ∀ shardId manager, self.shardLocks.lookup shardId = some manager →
        ∀ lockId ∈ lockIds, ∀ lock, manager.locks.lookup lockId = some lock → ∀ key ∈ lock.lockedKeys,
          (lock.status ≠ .released → lock.transactionId = transactionId) ∧
            ∀ other, manager.Covers other key → other ∈ lockIds
  | _ => True

theorem timely_apply (timely : self.Timely) (call : LockCall) : (call.apply self).Timely := by
  cases call with
  | registerShard shardId =>
    intro other manager found
    rcases lookup_insert_cases found with ⟨-, rfl⟩ | ⟨-, before⟩
    · exact timely_new shardId
    · exact timely other manager before
  | acquireLocks transactionId requests =>
    rw [apply]
    rcases timely.acquireLocks_cases transactionId requests with ⟨_, refused⟩ | ⟨after, done, each⟩
    · rw [refused]
      exact timely
    · rw [done]
      intro shardId later found
      rcases each shardId with ⟨-, same⟩ | ⟨lockId, keys, manager, -, before, -, taken⟩
      · exact timely shardId later (same.symm.trans found)
      · cases taken.symm.trans found
        exact (timely shardId manager before).taken lockId transactionId keys
  | releaseTransactionLocks transactionId =>
    cases held : self.transactionLocks.lookup transactionId with
    | none =>
      rw [apply, CrossShardLockCoordinator.releaseTransactionLocks, held]
      exact timely
    | some lockIds =>
      intro shardId manager found
      rw [apply, lookup_release held, map_eq_some_iff] at found
      obtain ⟨before, present, rfl⟩ := found
      exact (timely shardId before present).releaseHeld lockIds
  | advanceEpoch =>
    intro shardId manager found
    rw [apply, CrossShardLockCoordinator.advanceEpoch, lookup_mapValues, map_eq_some_iff] at found
    obtain ⟨before, present, rfl⟩ := found
    exact (timely shardId before present).advanceEpoch

theorem exclusive_acquireLocks_iff (timely : self.Timely) (safe : self.Exclusive) (transactionId : TransactionId)
    (requests : LockRequests) :
    (self.acquireLocks transactionId requests).2.Exclusive ↔ (acquireLocks transactionId requests).Fits self := by
  rcases timely.acquireLocks_cases transactionId requests with ⟨text, refused⟩ | ⟨after, done, each⟩
  · rw [Fits, refused]
    exact iff_of_true safe fun passed => by cases passed
  · rw [exclusive_iff] at safe
    rw [Fits, done, exclusive_iff]
    constructor
    · intro exclusive _ shardId lockId keys manager asked found
      rcases each shardId with ⟨unasked, -⟩ | ⟨_, _, _, again, found', writable, taken⟩
      · cases asked.symm.trans unasked
      cases asked.symm.trans again
      cases found.symm.trans found'
      exact ((safe shardId manager found).taken_iff (timely shardId manager found) writable).mp
        (exclusive shardId _ taken)
    · intro fits shardId later found
      rcases each shardId with ⟨-, same⟩ | ⟨lockId, keys, manager, asked, before, writable, taken⟩
      · exact safe shardId later (same.symm.trans found)
      · cases taken.symm.trans found
        exact ((safe shardId manager before).taken_iff (timely shardId manager before) writable).mpr
          (fits rfl shardId lockId keys manager asked before)

variable {lockIds : List StateLockId} {transactionId : TransactionId}

theorem exclusive_release_iff (timely : self.Timely) (safe : self.Exclusive)
    (held : self.transactionLocks.lookup transactionId = some lockIds) :
    (self.releaseTransactionLocks transactionId).2.Exclusive ↔
      ∀ shardId manager, self.shardLocks.lookup shardId = some manager → ∀ lockId ∈ lockIds, ∀ lock,
        manager.locks.lookup lockId = some lock → ∀ key ∈ lock.lockedKeys,
          ∀ other, manager.Covers other key → other ∈ lockIds := by
  rw [exclusive_iff] at safe ⊢
  refine forall_congr' fun shardId => ?_
  rw [lookup_release held]
  cases found : self.shardLocks.lookup shardId with
  | none => simp
  | some manager =>
    simp only [map_some, some.injEq, forall_eq']
    exact (safe shardId manager found).releaseHeld_iff (timely shardId manager found) lockIds

theorem respects_release_iff (safe : self.Exclusive) (held : self.transactionLocks.lookup transactionId = some lockIds)
    (after : (self.releaseTransactionLocks transactionId).2.Exclusive) :
    (releaseTransactionLocks transactionId).Respects self ↔
      ∀ shardId manager, self.shardLocks.lookup shardId = some manager → ∀ lockId ∈ lockIds, ∀ lock,
        manager.locks.lookup lockId = some lock → ∀ key ∈ lock.lockedKeys, lock.status ≠ .released →
          lock.transactionId = transactionId := by
  constructor
  · intro respects shardId manager found lockId released lock present key inside active
    by_contra foreign
    have before : self.Holds shardId key lock.transactionId :=
      ⟨manager, found, lockId, lock, present, active, coversKey_iff.mpr inside, rfl⟩
    obtain ⟨later, found', other, lock', present', active', inside', -⟩ := (respects shardId key _ foreign before).1
    rw [lookup_release held, found] at found'
    obtain rfl := some.inj found'
    -- the lock that holds the key afterwards held it before, so it is the released one
    obtain ⟨covered, stays⟩ := covers_releaseHeld.mp ⟨lock', present', active', inside'⟩
    have same := safe.single shardId manager found key lockId other
      ⟨lock, present, active, coversKey_iff.mpr inside⟩ covered
    exact stays (same ▸ released)
  · intro own shardId key other foreign before
    obtain ⟨manager, found, lockId, lock, present, active, inside, rfl⟩ := before
    have stays : lockId ∉ lockIds := fun released =>
      foreign (own shardId manager found lockId released lock present key (coversKey_iff.mp inside) active)
    have found' : (self.releaseTransactionLocks transactionId).2.shardLocks.lookup shardId =
        some (manager.releaseHeld lockIds) := by
      rw [lookup_release held, found]
      rfl
    have present' : (manager.releaseHeld lockIds).locks.lookup lockId = some lock := by
      rw [lookup_locks_releaseHeld, present, map_some, if_neg stays]
    refine ⟨⟨_, found', lockId, lock, present', active, inside, rfl⟩, _, found', ?_⟩
    exact (after.writable shardId _ found' key).mpr ⟨lockId, lock, present', active, inside⟩

theorem safe_apply_iff (timely : self.Timely) (safe : self.Exclusive) (call : LockCall) :
    (call.apply self).Exclusive ∧ call.Respects self ↔ call.Fits self := by
  cases call with
  | registerShard shardId =>
    refine iff_of_true ⟨exclusive_iff.mpr fun other manager found => ?_, trivial⟩ trivial
    rcases lookup_insert_cases found with ⟨-, rfl⟩ | ⟨-, before⟩
    · exact exclusive_new shardId
    · exact exclusive_iff.mp safe other manager before
  | acquireLocks transactionId requests =>
    exact (and_iff_left trivial).trans (exclusive_acquireLocks_iff timely safe transactionId requests)
  | releaseTransactionLocks transactionId =>
    cases held : self.transactionLocks.lookup transactionId with
    | none =>
      rw [apply, Respects, Fits, CrossShardLockCoordinator.releaseTransactionLocks, held]
      refine iff_of_true ⟨safe, fun shardId key other _ holds => ⟨holds, ?_⟩⟩ fun lockIds found => by cases found
      obtain ⟨manager, found, lockId, lock, present, active, inside, -⟩ := holds
      exact ⟨manager, found, (safe.writable shardId manager found key).mpr ⟨lockId, lock, present, active, inside⟩⟩
    | some lockIds =>
      have apart := exclusive_release_iff timely safe held
      rw [apply, Fits, held]
      simp only [some.injEq, forall_eq']
      constructor
      · intro ⟨after, respects⟩ shardId manager found lockId released lock present key inside
        have own := (respects_release_iff safe held after).mp respects
        exact ⟨own shardId manager found lockId released lock present key inside,
          apart.mp after shardId manager found lockId released lock present key inside⟩
      · intro fits
        have after := apart.mpr fun shardId manager found lockId released lock present key inside =>
          (fits shardId manager found lockId released lock present key inside).2
        exact ⟨after, (respects_release_iff safe held after).mpr
          fun shardId manager found lockId released lock present key inside =>
            (fits shardId manager found lockId released lock present key inside).1⟩
  | advanceEpoch =>
    refine iff_of_true ⟨exclusive_iff.mpr fun shardId manager found => ?_, trivial⟩ trivial
    rw [apply, CrossShardLockCoordinator.advanceEpoch, lookup_mapValues, map_eq_some_iff] at found
    obtain ⟨before, present, rfl⟩ := found
    exact (exclusive_iff.mp safe shardId before present).advanceEpoch (timely shardId before present)

end LockCall

open LockCall

/-- After any run, acquiring changes nothing or ends with every key asked for
locked by the transaction. -/
theorem acquireLocks_all_or_nothing (calls : List LockCall) (transactionId : TransactionId) (requests : LockRequests) :
    let self := CrossShardLockCoordinator.new.run calls
    (∃ text, self.acquireLocks transactionId requests = (.error text, self)) ∨
      ∃ after, self.acquireLocks transactionId requests = (.ok (), after) ∧ ∀ shardId lockId keys,
        requests.lookup shardId = some (lockId, keys) → ∃ manager, after.shardLocks.lookup shardId = some manager ∧
          ∀ key ∈ keys, manager.isKeyWritable key = false ∧
            ∃ lock, manager.getLockForKey key = some lock ∧ lock.transactionId = transactionId := by
  intro self
  have timely : self.Timely := List.foldlRecOn calls apply (fun _ _ found => by cases found)
    fun _ kept call _ => timely_apply kept call
  refine (timely.acquireLocks_cases transactionId requests).imp_right ?_
  rintro ⟨after, done, each⟩
  refine ⟨after, done, fun shardId lockId keys asked => ?_⟩
  rcases each shardId with ⟨unasked, -⟩ | ⟨_, _, manager, again, -, -, taken⟩
  · cases asked.symm.trans unasked
  cases asked.symm.trans again
  refine ⟨_, taken, fun key inside => ?_⟩
  have held : (manager.taken lockId transactionId keys).getLockForKey key =
      some (.new lockId transactionId keys manager.currentEpoch) := by
    have mapped : (manager.taken lockId transactionId keys).keyToLock.lookup key = some lockId :=
      ShardLockManager.lookup_keys_taken.mpr (.inl ⟨rfl, inside⟩)
    rw [ShardLockManager.getLockForKey, mapped, bind_some, ShardLockManager.taken, lookup_insert]
    rfl
  exact ⟨by rw [ShardLockManager.isKeyWritable, held]; rfl, _, held, rfl⟩

/-- The locks stay exclusive along a run, and no release takes a key from
another transaction, exactly when every call fits. -/
theorem locks_exclusive_iff (calls : List LockCall) :
    (∀ n, (new.run (calls.take n)).Exclusive ∧
        ∀ call, calls[n]? = some call → call.Respects (new.run (calls.take n))) ↔
      ∀ n (call : LockCall), calls[n]? = some call → call.Fits (new.run (calls.take n)) := by
  refine @Runs.forall_take_step_iff _ _ apply .new calls Timely _ _ _ ?_ ?_ ?_ ?_
  · intro shardId manager found
    cases found
  · exact fun self call timely => timely_apply timely call
  · exact exclusive_iff.mpr fun shardId manager found => by cases found
  · exact fun self call timely safe => safe_apply_iff timely safe call

/-- A lock expires with its epoch, its key is locked again by a second
transaction, and the first one releases late: a third one locks the key too. -/
def lateRelease : List LockCall :=
  let request (lockId : StateLockId) : LockRequests := AList.insert 0 (lockId, [[7]]) ∅
  let transaction (byte : UInt8) : TransactionId := Vector.replicate 32 byte
  [.registerShard 0, .acquireLocks (transaction 1) (request 1), .advanceEpoch,
    .acquireLocks (transaction 2) (request 2), .releaseTransactionLocks (transaction 1),
    .acquireLocks (transaction 3) (request 3)]

theorem lateRelease_shares_key :
    (∃ manager, (new.run (lateRelease.take 5)).shardLocks.lookup 0 = some manager ∧
      manager.Covers 2 [7] ∧ manager.isKeyWritable [7] = true) ∧
    ∃ manager, (new.run lateRelease).shardLocks.lookup 0 = some manager ∧
      manager.Covers 2 [7] ∧ manager.Covers 3 [7] := by
  refine ⟨⟨_, rfl, ⟨_, rfl, ?_, ?_⟩, ?_⟩, ⟨_, rfl, ⟨_, rfl, ?_, ?_⟩, ⟨_, rfl, ?_, ?_⟩⟩⟩
  all_goals decide

end Bleep
