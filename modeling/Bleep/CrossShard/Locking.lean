import Bleep.Crypto
import Bleep.Library.OrderedStore

namespace Bleep

open HashTable OrderedStore

abbrev ShardId := U64
abbrev TransactionId := Hash32
abbrev StateLockId := U64

inductive LockStatus
  | active
  | preparing
  | releasing
  | released
  deriving DecidableEq

/-- The keys of a lock are kept in ascending order. -/
structure StateLock where
  lockId : StateLockId
  transactionId : TransactionId
  lockedKeys : List Bytes
  acquiredEpoch : U64
  maxHoldEpochs : U64
  status : LockStatus
  deriving DecidableEq

namespace StateLock

def new (lockId : StateLockId) (transactionId : TransactionId) (lockedKeys : List Bytes) (acquiredEpoch : U64) :
    StateLock :=
  ⟨lockId, transactionId, lockedKeys, acquiredEpoch, 1, .active⟩

variable (lock : StateLock)

def coversKey (key : Bytes) : Bool := lock.lockedKeys.contains key

theorem coversKey_iff {lock : StateLock} {key} : lock.coversKey key = true ↔ key ∈ lock.lockedKeys :=
  List.contains_iff_mem

def isExpired (currentEpoch : U64) : Bool :=
  lock.maxHoldEpochs ≤ currentEpoch - lock.acquiredEpoch

def release : StateLock := { lock with status := .released }

end StateLock

structure ShardLockManager where
  shardId : ShardId
  locks : HashMap StateLockId StateLock
  keyToLock : HashMap Bytes StateLockId
  currentEpoch : U64

namespace ShardLockManager

def new (shardId : ShardId) : ShardLockManager := ⟨shardId, ∅, ∅, 0⟩

variable (manager : ShardLockManager)

/-- The conflict check of `acquire_lock` on one key. Indexing the table with a
lock it does not hold is a panic. -/
def conflict (key : Bytes) : Except String Unit :=
  match manager.keyToLock.lookup key with
  | none => .ok ()
  | some existing =>
    match manager.locks.lookup existing with
    | none => .error "no entry found for key"
    | some lock =>
      if lock.status = .active ∨ lock.status = .preparing then
        .error s!"Key \"{Hex.encode key}\" is already locked by transaction \"{Hex.encode lock.transactionId.toList}\""
      else .ok ()

variable (lockId : StateLockId)

def acquireLock (transactionId : TransactionId)
    (keys : List Bytes) : Except String ShardLockManager := do
  keys.forM manager.conflict
  return { manager with
    locks := manager.locks.insert lockId (.new lockId transactionId keys manager.currentEpoch)
    keyToLock := insertAll manager.keyToLock (keys.map fun key => (key, lockId)) }

/-- What `release_lock` does to a lock of the table. -/
def drop (lock : StateLock) : ShardLockManager :=
  { manager with
    locks := manager.locks.insert lockId lock.release
    keyToLock := eraseAll manager.keyToLock lock.lockedKeys }

def releaseLock : Except String ShardLockManager :=
  match manager.locks.lookup lockId with
  | none => .error s!"Lock StateLockId({lockId.toNat}) not found"
  | some lock => .ok (manager.drop lockId lock)

def getLockForKey (key : Bytes) : Option StateLock :=
  ((manager.keyToLock.lookup key).bind manager.locks.lookup).filter fun lock => lock.status ≠ .released

def isKeyWritable (key : Bytes) : Bool := (manager.getLockForKey key).isNone

/-- Releases locks one after the other, those that the table does not hold
excepted. -/
def releaseHeld (lockIds : List StateLockId) : ShardLockManager :=
  lockIds.foldl (fun manager lockId =>
    match manager.releaseLock lockId with
    | .ok manager => manager
    | .error _ => manager) manager

def expiredLocks : List StateLockId :=
  ((ascending (· ≤ ·) manager.locks).filter fun entry => entry.2.isExpired manager.currentEpoch).map Prod.fst

def cleanupExpiredLocks : ShardLockManager := manager.releaseHeld manager.expiredLocks

def advanceEpoch : ShardLockManager :=
  { manager with currentEpoch := manager.currentEpoch + 1 }.cleanupExpiredLocks

/-- `verify_consistency` on one key. -/
def consistentKey (entry : Bytes × StateLockId) : Except String Unit :=
  match manager.locks.lookup entry.2 with
  | none => .error s!"Key \"{Hex.encode entry.1}\" points to non-existent lock StateLockId({entry.2.toNat})"
  | some lock =>
    if entry.1 ∈ lock.lockedKeys then .ok ()
    else .error s!"Lock StateLockId({entry.2.toNat}) doesn't contain key \"{Hex.encode entry.1}\""

def verifyConsistency : Except String Unit :=
  (scanFrom manager.keyToLock []).forM manager.consistentKey

end ShardLockManager

abbrev LockRequests := HashMap ShardId (StateLockId × List Bytes)

structure CrossShardLockCoordinator where
  shardLocks : HashMap ShardId ShardLockManager
  transactionLocks : HashMap TransactionId (List StateLockId)

namespace CrossShardLockCoordinator

def new : CrossShardLockCoordinator := ⟨∅, ∅⟩

variable (self : CrossShardLockCoordinator)

def registerShard (shardId : ShardId) : CrossShardLockCoordinator :=
  { self with shardLocks := self.shardLocks.insert shardId (.new shardId) }

/-- The first pass of `acquire_locks`, on one shard. -/
def checkRequest (request : ShardId × StateLockId × List Bytes) :
    Except String Unit :=
  match self.shardLocks.lookup request.1 with
  | none => .error s!"Shard ShardId({request.1.toNat}) not registered"
  | some manager => request.2.2.forM fun key =>
      if manager.isKeyWritable key then .ok ()
      else .error s!"Key \"{Hex.encode key}\" already locked on shard ShardId({request.1.toNat})"

/-- The second pass. A failure leaves the locks already taken in place. -/
def acquireEach (transactionId : TransactionId) :
    List (ShardId × StateLockId × List Bytes) → CrossShardLockCoordinator →
      Except String Unit × CrossShardLockCoordinator
  | [], self => (.ok (), self)
  | (shardId, lockId, keys) :: requests, self =>
    match self.shardLocks.lookup shardId with
    | none => (.error "called `Option::unwrap()` on a `None` value", self)
    | some manager =>
      match manager.acquireLock lockId transactionId keys with
      | .error text => (.error text, self)
      | .ok manager =>
        acquireEach transactionId requests { self with shardLocks := self.shardLocks.insert shardId manager }

/-- The ids of the locks asked for, as a set in ascending order. -/
def requestedIds (requests : LockRequests) : List StateLockId :=
  (((pairs requests).map fun request => request.2.1).dedup).insertionSort (· ≤ ·)

def acquireLocks (transactionId : TransactionId) (requests : LockRequests) :
    Except String Unit × CrossShardLockCoordinator :=
  match (ascending (· ≤ ·) requests).forM self.checkRequest with
  | .error text => (.error text, self)
  | .ok () =>
    match acquireEach transactionId (ascending (· ≤ ·) requests) self with
    | (.error text, self) => (.error text, self)
    | (.ok (), self) =>
      (.ok (), { self with transactionLocks := self.transactionLocks.insert transactionId (requestedIds requests) })

/-- Each shard releases those of the ids that its table holds, whichever
transaction the lock belongs to. -/
def releaseTransactionLocks (transactionId : TransactionId) :
    Except String Unit × CrossShardLockCoordinator :=
  match self.transactionLocks.lookup transactionId with
  | none => (.error "Transaction has no locks", self)
  | some locks =>
    (.ok (), ⟨mapValues (fun _ manager => manager.releaseHeld locks) self.shardLocks,
      self.transactionLocks.erase transactionId⟩)

def verifyAllLocks : Except String Unit :=
  (ascending (· ≤ ·) self.shardLocks).forM fun entry => entry.2.verifyConsistency

def advanceEpoch (self : CrossShardLockCoordinator) : CrossShardLockCoordinator :=
  { self with shardLocks := mapValues (fun _ manager => manager.advanceEpoch) self.shardLocks }

end CrossShardLockCoordinator

inductive LockCall
  | registerShard (shardId : ShardId)
  | acquireLocks (transactionId : TransactionId) (requests : LockRequests)
  | releaseTransactionLocks (transactionId : TransactionId)
  | advanceEpoch

namespace LockCall

def apply (self : CrossShardLockCoordinator) : LockCall → CrossShardLockCoordinator
  | registerShard shardId => self.registerShard shardId
  | acquireLocks transactionId requests => (self.acquireLocks transactionId requests).2
  | releaseTransactionLocks transactionId => (self.releaseTransactionLocks transactionId).2
  | advanceEpoch => self.advanceEpoch

end LockCall

def CrossShardLockCoordinator.run (self : CrossShardLockCoordinator) (calls : List LockCall) :
    CrossShardLockCoordinator :=
  calls.foldl LockCall.apply self

end Bleep
