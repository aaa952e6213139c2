import Bleep.Bytes
import Bleep.Library.HashTable
import Bleep.Library.ProgramPoints

namespace Bleep.Connect

open HashTable Resumption List Function

inductive NullifierError
  | alreadySpent (nullifier : Hash32)
  | store (msg : String)
  deriving DecidableEq

/-- The column family, with the nullifiers of the spends that were granted. -/
structure NullifierDb where
  table : HashMap Hash32 Bytes
  granted : List Hash32

open NullifierDb

/-- The database errors that one spend meets. A write that fails may have reached
the database all the same. -/
structure SpendFaults where
  read : Option String
  write : Option (String × Bool)

namespace GlobalNullifierSet

def writeSentinel (nullifier : Hash32) : Option (String × Bool) → Prog NullifierDb Empty (Except NullifierError Unit)
  | none => .atomic (fun db => ⟨db.table.insert nullifier (utf8 "1"), nullifier :: db.granted⟩) fun _ => .done (.ok ())
  | some (msg, applied) =>
    .atomic (fun db => if applied then { db with table := db.table.insert nullifier (utf8 "1") } else db)
      fun _ => .done (.error (.store msg))

/-- The check and the write are two operations, with nothing held in between. -/
def spend (nullifier : Hash32) (faults : SpendFaults) : Prog NullifierDb Empty (Except NullifierError Unit) :=
  .atomic id fun db =>
    match faults.read with
    | some msg => .done (.error (.store msg))
    | none =>
      match db.table.lookup nullifier with
      | some _ => .done (.error (.alreadySpent nullifier))
      | none => writeSentinel nullifier faults.write

/-- A read that fails answers `false`. -/
def isSpent (db : NullifierDb) (fault : Option String) (nullifier : Hash32) : Bool :=
  fault.isNone && (db.table.lookup nullifier).isSome

end GlobalNullifierSet

open GlobalNullifierSet

/-- Where a spend stands between its database operations. -/
inductive SpendPoint
  | reading (nullifier : Hash32) (faults : SpendFaults)
  | writing (nullifier : Hash32) (fault : Option (String × Bool))
  | returned (result : Except NullifierError Unit)

open SpendPoint

namespace SpendPoint

inductive Starts : SpendPoint → Prop
  | spend (nullifier : Hash32) (faults : SpendFaults) : Starts (reading nullifier faults)

/-- The nullifier that the call has found unspent and not yet written. -/
def waiting : SpendPoint → Option Hash32
  | writing nullifier _ => some nullifier
  | _ => none

def prog : SpendPoint → Prog NullifierDb Empty (Except NullifierError Unit)
  | reading nullifier faults => spend nullifier faults
  | writing nullifier fault => writeSentinel nullifier fault
  | returned result => .done result

/-- Where a call goes on once it has looked its nullifier up. -/
def afterRead (nullifier : Hash32) (faults : SpendFaults) (found : Option Bytes) : SpendPoint :=
  match faults.read, found with
  | some msg, _ => returned (.error (.store msg))
  | none, some _ => returned (.error (.alreadySpent nullifier))
  | none, none => writing nullifier faults.write

def act : SpendPoint → NullifierDb → NullifierDb × SpendPoint
  | reading nullifier faults, db => (db, afterRead nullifier faults (db.table.lookup nullifier))
  | writing nullifier none, db =>
    (⟨db.table.insert nullifier (utf8 "1"), nullifier :: db.granted⟩, returned (.ok ()))
  | writing nullifier (some (msg, applied)), db =>
    (if applied then { db with table := db.table.insert nullifier (utf8 "1") } else db, returned (.error (.store msg)))
  | returned result, db => (db, returned result)

/-- The code of `spend`, by the points between its database operations. -/
def points : Points NullifierDb Empty (Except NullifierError Unit) SpendPoint where
  prog := prog
  act := act
  final point := ∃ result, point = returned result
  unfolds point unfinished := by
    cases point with
    | reading nullifier faults =>
      obtain ⟨read, write⟩ := faults
      refine congrArg (Prog.atomic _) (funext fun db => ?_)
      cases read with
      | some msg => rfl
      | none =>
        change _ = prog (afterRead nullifier ⟨none, write⟩ (db.table.lookup nullifier))
        cases db.table.lookup nullifier <;> rfl
    | writing nullifier fault => cases fault <;> rfl
    | returned result => exact absurd ⟨result, rfl⟩ unfinished
  ends point final := by
    obtain ⟨result, rfl⟩ := final
    exact ⟨result, rfl⟩

end SpendPoint

/-- A store and the spends running on it. -/
abbrev NullifierSystem := PointSystem Unit NullifierDb SpendPoint

namespace NullifierSystem

def db (system : NullifierSystem) : NullifierDb := system.shared ()

/-- The nullifiers that running spends have found unspent and not yet written. -/
def waiting (system : NullifierSystem) : List Hash32 := system.running.filterMap fun call => call.2.waiting

/-- What the spends on a new store can lead to. Reopening the store ends all the
calls and keeps what has been written. -/
inductive Reach (guard : NullifierSystem → SpendPoint → Prop) : NullifierSystem → Prop
  | opened : Reach guard ⟨fun _ => ⟨∅, []⟩, []⟩
  | step {here next} : Reach guard here → points.Step Starts guard here next → Reach guard next
  | reopened {shared running} : Reach guard ⟨shared, running⟩ → Reach guard ⟨shared, []⟩

/-- A nullifier is looked up only while no other spend of it is about to write. -/
def Alone (system : NullifierSystem) : SpendPoint → Prop
  | .reading nullifier _ => nullifier ∉ system.waiting
  | _ => True

variable {guard : NullifierSystem → SpendPoint → Prop} {system next : NullifierSystem}

@[simp] theorem db_update (shared : Unit → NullifierDb) (db : NullifierDb) (running : List (Unit × SpendPoint)) :
    NullifierSystem.db ⟨update shared () db, running⟩ = db := by
  simp [NullifierSystem.db]

/-- What a step does to the table, the granted spends and the waiting ones. -/
inductive Change (guard : NullifierSystem → SpendPoint → Prop) (system next : NullifierSystem) : Prop
  | quiet (db : next.db = system.db) (waiting : next.waiting = system.waiting)
  | found (nullifier : Hash32) (faults : SpendFaults) (allowed : guard system (.reading nullifier faults))
      (unspent : system.db.table.lookup nullifier = none) (db : next.db = system.db)
      (waiting : next.waiting.Perm (nullifier :: system.waiting))
  | wrote (nullifier : Hash32) (table : next.db.table = system.db.table.insert nullifier (utf8 "1"))
      (granted : next.db.granted = nullifier :: system.db.granted)
      (waiting : system.waiting.Perm (nullifier :: next.waiting))
  | failed (nullifier : Hash32)
      (table : next.db.table = system.db.table.insert nullifier (utf8 "1") ∨ next.db.table = system.db.table)
      (granted : next.db.granted = system.db.granted) (waiting : system.waiting.Perm (nullifier :: next.waiting))

theorem change_of_step (taken : SpendPoint.points.Step SpendPoint.Starts guard system next) :
    Change guard system next := by
  cases taken with
  | call place point first =>
    cases first with
    | spend nullifier faults => exact .quiet rfl rfl
  | returned before place point final =>
    obtain ⟨result, rfl⟩ := final
    refine .quiet rfl ?_
    simp [NullifierSystem.waiting, SpendPoint.waiting]
  | @advance shared after before place point unfinished allowed =>
    cases place
    cases point with
    | reading nullifier faults =>
      simp only [SpendPoint.points, SpendPoint.act, SpendPoint.afterRead]
      cases faults.read with
      | some msg => exact .quiet (db_update _ _ _) (filterMap_running_congr _ _ _ rfl)
      | none =>
        cases spent : (shared ()).table.lookup nullifier with
        | some value => exact .quiet (db_update _ _ _) (filterMap_running_congr _ _ _ rfl)
        | none => exact .found nullifier faults allowed spent (db_update _ _ _) (filterMap_running_perm _ _ _ rfl rfl)
    | writing nullifier fault =>
      cases fault with
      | none =>
        exact .wrote nullifier (congrArg table (db_update _ _ _)) (congrArg granted (db_update _ _ _))
          (filterMap_running_perm _ _ _ rfl rfl)
      | some fault =>
        obtain ⟨msg, applied⟩ := fault
        cases applied with
        | true =>
          exact .failed nullifier (.inl (congrArg table (db_update _ _ _)))
            ((congrArg granted (db_update _ _ _)).trans rfl) (filterMap_running_perm _ _ _ rfl rfl)
        | false =>
          exact .failed nullifier (.inr (congrArg table (db_update _ _ _)))
            ((congrArg granted (db_update _ _ _)).trans rfl) (filterMap_running_perm _ _ _ rfl rfl)
    | returned result => exact absurd ⟨result, rfl⟩ unfinished

def Recorded (system : NullifierSystem) : Prop :=
  ∀ nullifier ∈ system.db.granted, (system.db.table.lookup nullifier).isSome = true

theorem Recorded.change (recorded : Recorded system) (change : Change guard system next) : Recorded next := by
  intro nullifier member
  cases change with
  | quiet db waiting =>
    rw [db] at member ⊢
    exact recorded nullifier member
  | found other faults allowed unspent db waiting =>
    rw [db] at member ⊢
    exact recorded nullifier member
  | wrote other table granted waiting =>
    rw [granted, mem_cons] at member
    rw [table, lookup_insert_eq]
    split
    · rfl
    · rename_i here
      exact recorded nullifier (member.resolve_left here)
  | failed other table granted waiting =>
    rw [granted] at member
    rcases table with written | same
    · rw [written, lookup_insert_eq]
      split
      · rfl
      · exact recorded nullifier member
    · rw [same]
      exact recorded nullifier member

theorem recorded_of_reach (reach : Reach guard system) : Recorded system := by
  induction reach with
  | opened =>
    intro nullifier member
    cases member
  | step _ taken ih => exact ih.change (change_of_step taken)
  | reopened _ ih => exact ih

/-- No nullifier has been granted twice, or is granted or found twice at once. -/
structure Once (system : NullifierSystem) : Prop where
  granted : system.db.granted.Nodup
  waiting : system.waiting.Nodup
  unspent : ∀ nullifier ∈ system.waiting, system.db.table.lookup nullifier = none

theorem Once.change (once : Once system) (recorded : Recorded system) (change : Change Alone system next) :
    Once next := by
  cases change with
  | quiet db waiting =>
    refine ⟨?_, ?_, fun nullifier member => ?_⟩
    · rw [db]
      exact once.granted
    · rw [waiting]
      exact once.waiting
    · rw [waiting] at member
      rw [db]
      exact once.unspent nullifier member
  | found nullifier faults allowed unspent db waiting =>
    refine ⟨?_, ?_, fun other member => ?_⟩
    · rw [db]
      exact once.granted
    · rw [waiting.nodup_iff, nodup_cons]
      exact ⟨allowed, once.waiting⟩
    · rw [waiting.mem_iff, mem_cons] at member
      rw [db]
      rcases member with rfl | old
      · exact unspent
      · exact once.unspent other old
  | wrote nullifier table granted waiting =>
    have rest := once.waiting
    rw [waiting.nodup_iff, nodup_cons] at rest
    have unspent := once.unspent nullifier (waiting.mem_iff.mpr mem_cons_self)
    refine ⟨?_, rest.2, fun other member => ?_⟩
    · -- what has been granted is in the table, and the nullifier is not
      rw [granted, nodup_cons]
      refine ⟨fun before => ?_, once.granted⟩
      have spent := recorded nullifier before
      rw [unspent] at spent
      cases spent
    · have differs : other ≠ nullifier := fun same => rest.1 (same ▸ member)
      rw [table, AList.lookup_insert_ne differs]
      exact once.unspent other (waiting.mem_iff.mpr (mem_cons_of_mem _ member))
  | failed nullifier table granted waiting =>
    have rest := once.waiting
    rw [waiting.nodup_iff, nodup_cons] at rest
    refine ⟨?_, rest.2, fun other member => ?_⟩
    · rw [granted]
      exact once.granted
    · have differs : other ≠ nullifier := fun same => rest.1 (same ▸ member)
      have before := once.unspent other (waiting.mem_iff.mpr (mem_cons_of_mem _ member))
      rcases table with written | same
      · rw [written, AList.lookup_insert_ne differs]
        exact before
      · rw [same]
        exact before

theorem once_of_reach (reach : Reach Alone system) : Once system := by
  induction reach with
  | opened => exact ⟨nodup_nil, nodup_nil, fun _ member => absurd member not_mem_nil⟩
  | step reach taken ih => exact ih.change (recorded_of_reach reach) (change_of_step taken)
  | reopened _ ih => exact ⟨ih.granted, nodup_nil, fun _ member => absurd member not_mem_nil⟩

end NullifierSystem

/-- Whatever the interleaving, a nullifier is spent once a spend of it has been
granted, also after the store is reopened. Where spends of one nullifier do not
overlap between the lookup and the write, each is granted once. -/
theorem nullifiers_spent_once (system : NullifierSystem) (nullifier : Hash32) :
    (∀ guard, NullifierSystem.Reach guard system → nullifier ∈ system.db.granted →
      isSpent system.db none nullifier = true) ∧
    (NullifierSystem.Reach NullifierSystem.Alone system → system.db.granted.count nullifier ≤ 1) := by
  refine ⟨fun guard reach member => ?_, fun reach => ?_⟩
  · rw [isSpent, NullifierSystem.recorded_of_reach reach nullifier member]
    rfl
  · exact nodup_iff_count_le_one.mp (NullifierSystem.once_of_reach reach).granted nullifier

section Overlap

variable {db : NullifierDb} (before after : List (Unit × SpendPoint)) {nullifier : Hash32}

theorem reach_read
    (reach : NullifierSystem.Reach (fun _ _ => True)
      ⟨fun _ => db, before ++ ((), .reading nullifier ⟨none, none⟩) :: after⟩)
    (unspent : db.table.lookup nullifier = none) :
    NullifierSystem.Reach (fun _ _ => True) ⟨fun _ => db, before ++ ((), .writing nullifier none) :: after⟩ := by
  have taken := reach.step (.advance before () (.reading nullifier ⟨none, none⟩)
    (by rintro ⟨result, ended⟩; cases ended) trivial)
  simpa [points, act, afterRead, unspent] using taken

theorem reach_write
    (reach : NullifierSystem.Reach (fun _ _ => True) ⟨fun _ => db, before ++ ((), .writing nullifier none) :: after⟩) :
    NullifierSystem.Reach (fun _ _ => True)
      ⟨fun _ => ⟨db.table.insert nullifier (utf8 "1"), nullifier :: db.granted⟩,
        before ++ ((), .returned (.ok ())) :: after⟩ := by
  have taken := reach.step (.advance before () (.writing nullifier none)
    (by rintro ⟨result, ended⟩; cases ended) trivial)
  have one (next : NullifierDb) : update (fun _ : Unit => db) () next = fun _ => next :=
    funext fun _ => update_self ..
  exact taken

end Overlap

/-- Two spends of one nullifier both look it up before either writes: both
return `Ok`. -/
theorem both_spends_granted :
    ∃ db : NullifierDb, NullifierSystem.Reach (fun _ _ => True)
        ⟨fun _ => db, [((), .returned (.ok ())), ((), .returned (.ok ()))]⟩ ∧
      db.granted = [Vector.replicate 32 7, Vector.replicate 32 7] := by
  have empty : NullifierSystem.Reach (fun _ _ => True) _ := .opened
  have first := empty.step (.call () _ (.spend (Vector.replicate 32 7) ⟨none, none⟩))
  have second := first.step (.call () _ (.spend (Vector.replicate 32 7) ⟨none, none⟩))
  have found := reach_read [] _ second rfl
  have both := reach_read [((), .writing _ none)] [] found rfl
  have wrote := reach_write [] _ both
  exact ⟨_, reach_write [((), .returned (.ok ()))] [] wrote, rfl⟩

end Bleep.Connect
