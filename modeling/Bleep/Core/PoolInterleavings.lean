import Bleep.Core.TransactionPool
import Bleep.Library.ProgramPoints

namespace Bleep

open Resumption List Option Finset Function Transaction

/-- Where a call on the pool stands, between two of its lock acquisitions. -/
inductive PoolPoint
  | checking (tx : Transaction)
  | recording (tx : Transaction)
  | pushing (tx : Transaction)
  | removing (txId : String)
  | clearing
  | returned (answer : Bool)

open PoolPoint

variable {point : PoolPoint}

namespace PoolPoint

/-- The calls on a pool. Those without an answer return `true`. -/
inductive Starts : PoolPoint → Prop
  | addTransaction (tx : Transaction) : Starts (checking tx)
  | removeConfirmed (txId : String) : Starts (removing txId)
  | clearPool : Starts clearing

/-- The transaction that the call has recorded as seen and not yet pushed. -/
def waiting : PoolPoint → Option Transaction
  | pushing tx => some tx
  | _ => none

theorem Starts.waiting (starts : point.Starts) : point.waiting = none := by
  cases starts <;> rfl

end PoolPoint

namespace TransactionPool
variable (hashes : Hashes) (sphincs : Sphincs) (self : TransactionPool)

def pointProg : PoolPoint → Prog PoolState Empty Bool
  | .checking tx => self.addTransaction hashes sphincs tx
  | .recording tx => recordAndPush hashes tx
  | .pushing tx => do
      pushBack tx
      return true
  | .removing txId => do
      removeConfirmed txId
      return true
  | .clearing => do
      clearPool
      return true
  | .returned answer => return answer

def pointAct : PoolPoint → PoolState → PoolState × PoolPoint
  | .checking tx, state =>
      (state, if self.maxSize ≤ state.pool.length then .returned false
        else if self.validates hashes sphincs tx = false then .returned false
        else .recording tx)
  | .recording tx, state =>
      if txHash hashes tx ∈ state.seenHashes then (state, .returned false)
      else ({ state with seenHashes := insert (txHash hashes tx) state.seenHashes }, .pushing tx)
  | .pushing tx, state =>
      ({ state with pool := state.pool ++ [tx], admitted := state.admitted ++ [tx] }, .returned true)
  | .removing txId, state => ({ state with pool := retainOthers txId state.pool }, .returned true)
  | .clearing, state => ({ state with pool := [] }, .returned true)
  | .returned answer, state => (state, .returned answer)

theorem pointProg_checking (tx : Transaction) : self.pointProg hashes sphincs (.checking tx) =
    .atomic (fun state => (self.pointAct hashes sphincs (.checking tx) state).1)
      fun state => self.pointProg hashes sphincs (self.pointAct hashes sphincs (.checking tx) state).2 := by
  refine congrArg (Prog.atomic _) (funext fun state => ?_)
  by_cases full : self.maxSize ≤ state.pool.length
  · simp only [pointAct, full, decide_true, if_true]
    rfl
  · by_cases valid : self.validates hashes sphincs tx = false
    · simp only [pointAct, full, valid, decide_false, if_true, if_false]
      rfl
    · simp only [pointAct, full, valid, decide_false, if_false]
      rfl

/-- The code of the pool's calls, by the points between its lock acquisitions. -/
def points : Points PoolState Empty Bool PoolPoint where
  prog := self.pointProg hashes sphincs
  act := self.pointAct hashes sphincs
  final point := ∃ answer, point = .returned answer
  unfolds point unfinished := by
    cases point with
    | checking tx => exact self.pointProg_checking hashes sphincs tx
    | recording tx =>
      refine congrArg₂ Prog.atomic (funext fun state => ?_) (funext fun state => ?_)
      · by_cases seen : txHash hashes tx ∈ state.seenHashes <;> simp only [pointAct, seen, if_true, if_false]
      · by_cases seen : txHash hashes tx ∈ state.seenHashes <;> simp only [pointAct, seen, if_true, if_false] <;> rfl
    | pushing tx => rfl
    | removing txId => rfl
    | clearing => rfl
    | returned answer => exact absurd ⟨answer, rfl⟩ unfinished
  ends point final := by
    obtain ⟨answer, rfl⟩ := final
    exact ⟨answer, rfl⟩

end TransactionPool

abbrev PoolSystem := PointSystem Unit PoolState PoolPoint

namespace PoolSystem

def state (system : PoolSystem) : PoolState := system.shared ()

@[simp] theorem state_update (shared : Unit → PoolState) (pool : PoolState) (running : List (Unit × PoolPoint)) :
    state ⟨update shared () pool, running⟩ = pool := by
  simp [state]

/-- What running calls have recorded as seen and not yet pushed. -/
def waiting (system : PoolSystem) : List Transaction := system.running.filterMap fun call => call.2.waiting

end PoolSystem

namespace TransactionPool
section Runs
variable (hashes : Hashes) (sphincs : Sphincs) (self : TransactionPool)

/-- When a call records a new payload, the pool has room for it beside the
pending transactions and those that are recorded and not yet pushed. -/
def HasRoom (system : PoolSystem) : PoolPoint → Prop
  | .recording tx => txHash hashes tx ∈ system.state.seenHashes ∨
      system.state.pool.length + system.waiting.length < self.maxSize
  | _ => True

def emptyPool : Unit → PoolState := fun _ => ⟨[], ∅, []⟩

/-- The systems that overlapping calls on a new pool can lead to. -/
abbrev Runs (guard : PoolSystem → PoolPoint → Prop) (system : PoolSystem) : Prop :=
  (self.points hashes sphincs).Reach Starts guard emptyPool system

variable {hashes sphincs self} {guard : PoolSystem → PoolPoint → Prop} {system next : PoolSystem}

/-- What a step does to the pool, the recorded payloads, the admitted
transactions and the waiting ones. -/
inductive Change (hashes : Hashes) (guard : PoolSystem → PoolPoint → Prop) (system next : PoolSystem) : Prop
  | shrinks (fewer : next.state.pool.length ≤ system.state.pool.length)
      (seen : next.state.seenHashes = system.state.seenHashes)
      (admitted : next.state.admitted = system.state.admitted) (waiting : next.waiting = system.waiting)
  | records (tx : Transaction) (allowed : guard system (.recording tx))
      (fresh : txHash hashes tx ∉ system.state.seenHashes)
      (pool : next.state.pool = system.state.pool)
      (seen : next.state.seenHashes = insert (txHash hashes tx) system.state.seenHashes)
      (admitted : next.state.admitted = system.state.admitted) (waiting : next.waiting.Perm (tx :: system.waiting))
  | pushes (tx : Transaction) (pool : next.state.pool = system.state.pool ++ [tx])
      (seen : next.state.seenHashes = system.state.seenHashes)
      (admitted : next.state.admitted = system.state.admitted ++ [tx])
      (waiting : system.waiting.Perm (tx :: next.waiting))

variable {shared : Unit → PoolState} {tx : Transaction}

theorem Change.of_quiet {before after point' state'}
    (quiet : point.waiting = none) (quiet' : point'.waiting = none)
    (fewer : state'.pool.length ≤ (shared ()).pool.length) (seen : state'.seenHashes = (shared ()).seenHashes)
    (admitted : state'.admitted = (shared ()).admitted) :
    Change hashes guard ⟨shared, before ++ ((), point) :: after⟩
      ⟨update shared () state', before ++ ((), point') :: after⟩ := by
  refine .shrinks ?_ ?_ ?_ ?_
  · rwa [PoolSystem.state_update]
  · rwa [PoolSystem.state_update]
  · rwa [PoolSystem.state_update]
  · exact filterMap_running_congr _ _ _ (quiet'.trans quiet.symm)

theorem change_of_step (taken : (self.points hashes sphincs).Step Starts guard system next) :
    Change hashes guard system next := by
  cases taken with
  | call place point first =>
    refine .shrinks le_rfl rfl rfl ?_
    simp only [PoolSystem.waiting, filterMap_cons, first.waiting]
  | returned before place point final =>
    obtain ⟨answer, rfl⟩ := final
    refine .shrinks le_rfl rfl rfl ?_
    simp [PoolSystem.waiting, waiting]
  | @advance shared after before place point unfinished allowed =>
    cases place
    cases point with
    | checking tx =>
      refine .of_quiet rfl ?_ le_rfl rfl rfl
      simp only [points, pointAct]
      split_ifs <;> rfl
    | recording tx =>
      by_cases seen : txHash hashes tx ∈ (shared ()).seenHashes
      · simp only [points, pointAct, seen, if_true]
        exact .of_quiet rfl rfl le_rfl rfl rfl
      · simp only [points, pointAct, seen, if_false]
        refine .records tx allowed seen ?_ ?_ ?_ (filterMap_running_perm _ _ _ rfl rfl)
        all_goals
          rfl
    | pushing tx =>
      refine .pushes tx ?_ ?_ ?_ (filterMap_running_perm _ _ _ rfl rfl)
      all_goals
        rfl
    | removing txId => exact .of_quiet rfl rfl (length_filter_le _ _) rfl rfl
    | clearing => exact .of_quiet rfl rfl (Nat.zero_le _) rfl rfl
    | returned answer => exact absurd ⟨answer, rfl⟩ unfinished

/-- The payload hashes of what was admitted or still waits are recorded, each
for one transaction only. -/
structure Recorded (hashes : Hashes) (system : PoolSystem) : Prop where
  seen : ∀ tx ∈ system.state.admitted ++ system.waiting, txHash hashes tx ∈ system.state.seenHashes
  once : ((system.state.admitted ++ system.waiting).map (txHash hashes)).Nodup

theorem Recorded.of_perm (recorded : Recorded hashes system)
    (seen : next.state.seenHashes = system.state.seenHashes)
    (same : (next.state.admitted ++ next.waiting).Perm (system.state.admitted ++ system.waiting)) :
    Recorded hashes next := by
  constructor
  · intro tx member
    rw [seen]
    exact recorded.seen tx (same.mem_iff.mp member)
  · exact (same.map _).nodup_iff.mpr recorded.once

theorem Recorded.change (recorded : Recorded hashes system) (change : Change hashes guard system next) :
    Recorded hashes next := by
  cases change with
  | shrinks _ seen admitted waiting =>
    refine recorded.of_perm seen ?_
    rw [admitted, waiting]
  | pushes tx _ seen admitted waiting =>
    refine recorded.of_perm seen ?_
    rw [admitted, append_assoc]
    exact waiting.symm.append_left _
  | records tx _ fresh _ seen admitted waiting =>
    have more : (next.state.admitted ++ next.waiting).Perm (tx :: (system.state.admitted ++ system.waiting)) := by
      rw [admitted]
      exact (waiting.append_left _).trans perm_middle
    constructor
    · intro other member
      rw [seen]
      rcases mem_cons.mp (more.mem_iff.mp member) with rfl | old
      · exact mem_insert_self _ _
      · exact mem_insert_of_mem (recorded.seen other old)
    · refine (more.map _).nodup_iff.mpr (nodup_cons.mpr ⟨?_, recorded.once⟩)
      intro twice
      obtain ⟨other, old, same⟩ := mem_map.mp twice
      exact fresh (same ▸ recorded.seen other old)

theorem recorded_of_runs (reach : self.Runs hashes sphincs guard system) : Recorded hashes system := by
  induction reach with
  | start => exact ⟨by simp [PoolSystem.state, PoolSystem.waiting, emptyPool], nodup_nil⟩
  | step _ taken ih => exact ih.change (change_of_step taken)

theorem admitted_payloads_nodup (reach : self.Runs hashes sphincs guard system) :
    (system.state.admitted.map unsigned).Nodup := by
  have once := (recorded_of_runs reach).once
  rw [map_append] at once
  have hashed : system.state.admitted.map (txHash hashes) =
      (system.state.admitted.map unsigned).map (txHash hashes) := by
    rw [List.map_map]
    rfl
  rw [hashed] at once
  exact List.Nodup.of_map _ once.of_append_left

/-- In a run that records only where there is room, the pending and the
waiting transactions fit together. -/
theorem fits_of_runs (reach : self.Runs hashes sphincs (HasRoom hashes self) system) :
    system.state.pool.length + system.waiting.length ≤ self.maxSize := by
  induction reach with
  | start => exact Nat.zero_le _
  | step _ taken ih =>
    cases change_of_step taken with
    | shrinks fewer _ _ waiting =>
      rw [waiting]
      omega
    | records tx allowed fresh pool _ _ waiting =>
      have room := allowed.resolve_left fresh
      rw [pool, waiting.length_eq, length_cons]
      omega
    | pushes tx pool _ _ waiting =>
      have count := waiting.length_eq
      rw [length_cons] at count
      rw [pool, length_append, length_singleton]
      omega

/-- A step that no guard restricts. -/
abbrev Steps (hashes : Hashes) (sphincs : Sphincs) (self : TransactionPool) : PoolSystem → PoolSystem → Prop :=
  (self.points hashes sphincs).Step Starts fun _ _ => True

section Advances
variable {shared : Unit → PoolState} {before after : List (Unit × PoolPoint)} {tx : Transaction}

theorem steps_check (room : (shared ()).pool.length < self.maxSize) (valid : self.validates hashes sphincs tx = true) :
    Steps hashes sphincs self ⟨shared, before ++ ((), .checking tx) :: after⟩
      ⟨shared, before ++ ((), .recording tx) :: after⟩ := by
  have taken : Steps hashes sphincs self ⟨shared, before ++ ((), .checking tx) :: after⟩ _ :=
    .advance before () (.checking tx) (by rintro ⟨answer, ended⟩; cases ended) trivial
  simpa [points, pointAct, if_neg (Nat.not_le.mpr room), valid] using taken

theorem steps_record (fresh : txHash hashes tx ∉ (shared ()).seenHashes) :
    Steps hashes sphincs self ⟨shared, before ++ ((), .recording tx) :: after⟩
      ⟨update shared ()
          { shared () with seenHashes := insert (txHash hashes tx) (shared ()).seenHashes },
        before ++ ((), .pushing tx) :: after⟩ := by
  have taken : Steps hashes sphincs self ⟨shared, before ++ ((), .recording tx) :: after⟩ _ :=
    .advance before () (.recording tx) (by rintro ⟨answer, ended⟩; cases ended) trivial
  simpa only [points, pointAct, if_neg fresh] using taken

end Advances

theorem exists_pushing (waits : tx ∈ system.waiting) :
    ∃ before after, system.running = before ++ ((), .pushing tx) :: after := by
  obtain ⟨⟨place, point⟩, member, waiting⟩ := mem_filterMap.mp waits
  cases point with
  | pushing other =>
    obtain rfl := some.inj waiting
    exact append_of_mem member
  | checking | recording | removing | clearing | returned => cases waiting

theorem push_all (system : PoolSystem) : ∃ later, Relation.ReflTransGen (Steps hashes sphincs self) system later ∧
    later.state.pool.length = system.state.pool.length + system.waiting.length := by
  generalize count : system.waiting.length = n
  induction n generalizing system with
  | zero => exact ⟨system, .refl, rfl⟩
  | succ n ih =>
    obtain ⟨tx, waits⟩ := exists_mem_of_length_pos (by omega : 0 < system.waiting.length)
    obtain ⟨before, after, running⟩ := exists_pushing waits
    obtain ⟨shared, calls⟩ := system
    obtain rfl := running
    have fewer := (@filterMap_running_perm _ _ _ waiting (.returned true) (.pushing tx) before after () tx rfl rfl).length_eq.symm
    obtain ⟨later, further, size⟩ := ih
      ⟨update shared ()
          { shared () with pool := (shared ()).pool ++ [tx], admitted := (shared ()).admitted ++ [tx] },
        before ++ ((), .returned true) :: after⟩ (Nat.succ.inj (fewer.trans count))
    have pushed : Steps hashes sphincs self ⟨shared, before ++ ((), .pushing tx) :: after⟩ _ :=
      .advance before () (.pushing tx) (by rintro ⟨answer, ended⟩; cases ended) trivial
    refine ⟨later, further.head pushed, ?_⟩
    rw [size]
    rw [PoolSystem.state_update, length_append, length_singleton]
    change _ = (shared ()).pool.length + (n + 1)
    omega

/-- Where a call is about to record a new payload without room for it, the
pool can get too large. -/
theorem overflow_of_no_room (running : ((), .recording tx) ∈ system.running)
    (crowded : ¬HasRoom hashes self system (.recording tx)) :
    ∃ later, Relation.ReflTransGen (Steps hashes sphincs self) system later ∧
      self.maxSize < later.state.pool.length := by
  obtain ⟨fresh, full⟩ := not_or.mp crowded
  obtain ⟨before, after, split⟩ := append_of_mem running
  obtain ⟨shared, calls⟩ := system
  obtain rfl := split
  obtain ⟨later, further, size⟩ := @push_all hashes sphincs self _
  refine ⟨later, further.head (steps_record fresh), ?_⟩
  have more := (@filterMap_running_perm _ _ _ waiting (.recording tx) (.pushing tx) before after () tx rfl rfl).length_eq
  rw [size, PoolSystem.state_update, PoolSystem.waiting, more, length_cons]
  exact Nat.lt_succ_of_le (not_lt.mp full)

/-- Of overlapping calls on a pool: where each call that records a new payload
finds room for it beside what is pending and what is recorded and not yet
pushed, the pool never holds more than `max_size`; where one does not, it can
come to hold more. A payload is admitted once at most in any case. -/
theorem pool_bounded_in_roomy_runs (hashes : Hashes) (sphincs : Sphincs) (self : TransactionPool) :
    (∀ threads, Resumption.Reach ((self.points hashes sphincs).Calls Starts) emptyPool threads ↔
      ∃ system, self.Runs hashes sphincs (fun _ _ => True) system ∧
        (self.points hashes sphincs).system system = threads) ∧
    (∀ system, self.Runs hashes sphincs (HasRoom hashes self) system → system.state.pool.length ≤ self.maxSize) ∧
    (∀ system point, self.Runs hashes sphincs (fun _ _ => True) system → ((), point) ∈ system.running →
      ¬HasRoom hashes self system point →
        ∃ later, Relation.ReflTransGen (Steps hashes sphincs self) system later ∧
          self.maxSize < later.state.pool.length) ∧
    ∀ system, self.Runs hashes sphincs (fun _ _ => True) system →
      (system.state.admitted.map unsigned).Nodup := by
  refine ⟨fun threads => Points.reach_iff, ?_, ?_, fun system => admitted_payloads_nodup⟩
  · intro system reach
    have fits := fits_of_runs reach
    omega
  · intro system point _ running crowded
    cases point with
    | recording tx => exact overflow_of_no_room running crowded
    | checking | pushing | removing | clearing | returned => exact absurd trivial crowded

/-- A new call passes its checks before any other call goes on. -/
theorem call_to_recording {running} (reach : self.Runs hashes sphincs (fun _ _ => True) ⟨shared, running⟩)
    (room : (shared ()).pool.length < self.maxSize) (valid : self.validates hashes sphincs tx = true) :
    self.Runs hashes sphincs (fun _ _ => True) ⟨shared, ((), .recording tx) :: running⟩ := by
  have called := reach.step (.call () (.checking tx) (.addTransaction tx))
  exact called.step (@steps_check hashes sphincs self shared [] running tx room valid)

end Runs

def singlePool : TransactionPool := ⟨defaultChainId, 1⟩

def zeroKey : Bytes := List.replicate sphincsPkLen 0

def signedTransfer (nonce : U64) : Transaction where
  chainId := defaultChainId
  sender := deriveAccountAddress lastBytes zeroKey
  receiver := "bob"
  amount := 1
  timestamp := 1
  nonce := nonce
  signature := zeroKey ++ List.replicate sphincsSigLen 0

theorem signedTransfer_authorized (nonce : U64) :
    (signedTransfer nonce).verifyAccountAuthorization lastHashes sizedSphincs = true := by
  have key : zeroKey.length = sphincsPkLen := length_replicate
  refine authorized_of_key rfl rfl key length_replicate rfl ?_
  simp only [Sphincs.verifyTxSignature, sizedSphincs_publicKey key, sizedSphincs_detachedSignature length_replicate.le]
  rfl

theorem signedTransfer_valid (nonce : U64) :
    singlePool.validates lastHashes sizedSphincs (signedTransfer nonce) = true := by
  have other : (signedTransfer nonce).sender ≠ "bob" := by
    intro same
    have member := mem_deriveAccountAddress lastBytes zeroKey
    change 'B' ∈ (signedTransfer nonce).sender.toList at member
    rw [same] at member
    exact absurd member (by decide)
  refine validates_of_authorized (signedTransfer_authorized nonce) rfl (by decide : "bob".isEmpty = false) other
    (by decide : (1 : U64) ≠ 0) (by decide : (1 : U64) ≠ 0) ?_
  rw [signedTransfer, length_append, zeroKey, length_replicate, length_replicate]

theorem signedTransfer_apart : txHash lastHashes (signedTransfer 1) ≠ txHash lastHashes (signedTransfer 0) := by
  decide +kernel

/-- Two valid transactions, added to a pool of size 1 by calls that overlap,
are both held by it. -/
theorem two_in_single_pool : ∃ threads,
    Resumption.Reach ((singlePool.points lastHashes sizedSphincs).Calls Starts) emptyPool threads ∧
      singlePool.maxSize < (threads.shared ()).pool.length := by
  have room : (emptyPool ()).pool.length < singlePool.maxSize := Nat.one_pos
  have both := call_to_recording (call_to_recording .start room (signedTransfer_valid 0)) room (signedTransfer_valid 1)
  have recorded := both.step
    (@steps_record _ _ _ emptyPool [((), .recording (signedTransfer 1))] [] (signedTransfer 0) (notMem_empty _))
  have crowded : ¬HasRoom lastHashes singlePool ⟨update emptyPool ()
      { emptyPool () with seenHashes := insert (txHash lastHashes (signedTransfer 0)) (emptyPool ()).seenHashes },
      [((), .recording (signedTransfer 1))] ++ [((), .pushing (signedTransfer 0))]⟩ (.recording (signedTransfer 1)) := by
    rintro (seen | roomy)
    · rcases mem_insert.mp seen with same | old
      · exact signedTransfer_apart same
      · exact absurd old (notMem_empty _)
    · exact absurd roomy (Nat.lt_irrefl 1)
  obtain ⟨later, further, exceeded⟩ := overflow_of_no_room mem_cons_self crowded
  exact ⟨_, Points.reach_iff.mpr ⟨later, recorded.steps further, rfl⟩, exceeded⟩

end TransactionPool

end Bleep
