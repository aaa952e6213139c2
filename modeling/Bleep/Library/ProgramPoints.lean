import Bleep.Library.Resumption

namespace Resumption

open List

variable {ι σ ε α P : Type}

/-- Threads given by the points they can stand at. What is left of a thread at
a point that is not final is one action, and then the thread of the next one. -/
structure Points (σ ε α P : Type) where
  prog : P → Prog σ ε α
  act : P → σ → σ × P
  final : P → Prop
  unfolds : ∀ point, ¬final point → prog point = .atomic (fun s => (act point s).1) fun s => prog (act point s).2
  ends : ∀ point, final point → ∃ value, prog point = .done value

/-- The shared states, and the point each running call stands at. -/
structure PointSystem (ι σ P : Type) where
  shared : ι → σ
  running : List (ι × P)

theorem filterMap_running {A : Type} (pending : P → Option A) (before after : List (ι × P)) (place : ι) (point : P) :
    (before ++ (place, point) :: after).filterMap (fun call => pending call.2) =
      before.filterMap (fun call => pending call.2) ++
        ((pending point).toList ++ after.filterMap fun call => pending call.2) := by
  rw [filterMap_append, filterMap_cons]
  cases pending point <;> rfl

section
variable {A : Type} {pending : P → Option A} {point point' : P} (before after : List (ι × P)) (place : ι)

theorem filterMap_running_congr (same : pending point = pending point') :
    (before ++ (place, point) :: after).filterMap (fun call => pending call.2) =
      (before ++ (place, point') :: after).filterMap fun call => pending call.2 := by
  rw [filterMap_running, filterMap_running, same]

theorem filterMap_running_perm {a} (idle : pending point = none) (busy : pending point' = some a) :
    ((before ++ (place, point') :: after).filterMap fun call => pending call.2).Perm
      (a :: (before ++ (place, point) :: after).filterMap fun call => pending call.2) := by
  rw [filterMap_running, filterMap_running, idle, busy]
  exact perm_middle

end

namespace Points
variable (points : Points σ ε α P) (starts : P → Prop)

/-- The threads that stand at these points. -/
def system (here : PointSystem ι σ P) : System ι σ ε α :=
  ⟨here.shared, here.running.map fun call => (call.1, points.prog call.2)⟩

/-- A step of the calls, taken only where `guard` allows the point to act. -/
inductive Step [DecidableEq ι] (guard : PointSystem ι σ P → P → Prop) : PointSystem ι σ P → PointSystem ι σ P → Prop
  | call {shared running} (place : ι) (point : P) : starts point →
      Step guard ⟨shared, running⟩ ⟨shared, (place, point) :: running⟩
  | advance {shared after} (before) (place : ι) (point : P) : ¬points.final point →
      guard ⟨shared, before ++ (place, point) :: after⟩ point →
      Step guard ⟨shared, before ++ (place, point) :: after⟩
        ⟨Function.update shared place (points.act point (shared place)).1,
          before ++ (place, (points.act point (shared place)).2) :: after⟩
  | returned {shared after} (before) (place : ι) (point : P) : points.final point →
      Step guard ⟨shared, before ++ (place, point) :: after⟩ ⟨shared, before ++ after⟩

inductive Reach [DecidableEq ι] (guard : PointSystem ι σ P → P → Prop) (initial : ι → σ) : PointSystem ι σ P → Prop
  | start : Reach guard initial ⟨initial, []⟩
  | step {here next} : Reach guard initial here → points.Step starts guard here next → Reach guard initial next

/-- The calls that begin at the starting points. -/
def Calls (_ : ι → σ) (_ : ι) (prog : Prog σ ε α) : Prop := ∃ point, starts point ∧ prog = points.prog point

variable {points starts}

theorem exists_of_thread {running : List (ι × P)} {before after place prog}
    (threads : running.map (fun call => (call.1, points.prog call.2)) = before ++ (place, prog) :: after) :
    ∃ front point back, running = front ++ (place, point) :: back ∧ prog = points.prog point ∧
      before = front.map (fun call => (call.1, points.prog call.2)) ∧
      after = back.map (fun call => (call.1, points.prog call.2)) := by
  obtain ⟨front, rest, rfl, rfl, others⟩ := map_eq_append_iff.mp threads
  obtain ⟨⟨here, point⟩, back, rfl, thread, rfl⟩ := map_eq_cons_iff.mp others
  obtain ⟨rfl, rfl⟩ := Prod.mk.inj thread
  exact ⟨front, point, back, rfl, rfl, rfl, rfl⟩

theorem final_iff (point : P) : points.final point ↔ ∃ value, points.prog point = .done value := by
  constructor
  · exact points.ends point
  · rintro ⟨value, done⟩
    by_contra unfinished
    cases (points.unfolds point unfinished).symm.trans done

section Steps
variable [DecidableEq ι] {here : PointSystem ι σ P} {guard : PointSystem ι σ P → P → Prop} {initial : ι → σ}

/-- Where the threads stand at points, a step of the threads is a step of the
points. -/
theorem step_of_system {next} (taken : Resumption.Step (points.Calls starts) (points.system here) next)
    :
    ∃ after, points.Step starts (fun _ _ => True) here after ∧ points.system after = next := by
  obtain ⟨shared, running⟩ := here
  generalize standing : points.system ⟨shared, running⟩ = system at taken
  cases taken with
  | call called =>
    obtain ⟨point, first, rfl⟩ := called
    cases standing
    exact ⟨_, .call _ point first, rfl⟩
  | advance before =>
    obtain ⟨rfl, threads⟩ := System.mk.inj standing
    obtain ⟨front, point, back, rfl, left, rfl, rfl⟩ := exists_of_thread threads
    have unfinished : ¬points.final point := by
      rw [final_iff]
      rintro ⟨value, done⟩
      cases left.trans done
    rw [points.unfolds point unfinished] at left
    cases left
    exact ⟨_, .advance front _ point unfinished trivial, by simp [system]⟩
  | returned before =>
    obtain ⟨rfl, threads⟩ := System.mk.inj standing
    obtain ⟨front, point, back, rfl, left, rfl, rfl⟩ := exists_of_thread threads
    have final := (final_iff point).mpr ⟨_, left.symm⟩
    exact ⟨_, .returned front _ point final, by simp [system]⟩
  | failed before =>
    -- no point has failed
    obtain ⟨front, point, back, -, left, -, -⟩ := exists_of_thread (System.mk.inj standing).2
    by_cases final : points.final point
    · obtain ⟨value, done⟩ := points.ends point final
      cases left.trans done
    · cases left.trans (points.unfolds point final)

theorem Step.system {after} (taken : points.Step starts guard here after) :
    Resumption.Step (points.Calls starts) (points.system here) (points.system after) := by
  cases taken with
  | call place point first => exact .call ⟨point, first, rfl⟩
  | advance before place point unfinished _ =>
    simp only [Points.system, map_append, map_cons, points.unfolds point unfinished]
    exact .advance _
  | returned before place point final =>
    obtain ⟨value, done⟩ := points.ends point final
    simp only [Points.system, map_append, map_cons, done]
    exact .returned _

/-- The systems the threads can reach are the ones their points can reach. -/
theorem reach_iff {system} :
    Resumption.Reach (points.Calls starts) initial system ↔
      ∃ here, points.Reach starts (fun _ _ => True) initial here ∧ points.system here = system := by
  constructor
  · intro reach
    induction reach with
    | start => exact ⟨_, .start, rfl⟩
    | step _ taken ih =>
      obtain ⟨here, reached, rfl⟩ := ih
      obtain ⟨after, moved, rfl⟩ := step_of_system taken
      exact ⟨after, reached.step moved, rfl⟩
  · rintro ⟨here, reach, rfl⟩
    induction reach with
    | start => exact .start
    | step _ taken ih => exact ih.step taken.system

theorem Reach.steps {later} (reach : points.Reach starts guard initial here)
    (taken : Relation.ReflTransGen (points.Step starts guard) here later) :
    points.Reach starts guard initial later := by
  induction taken with
  | refl => exact reach
  | tail _ step ih => exact ih.step step

end Steps

end Points

end Resumption
