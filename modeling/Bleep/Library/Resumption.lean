import Mathlib.Logic.Function.Basic
import Mathlib.Logic.Relation

namespace Resumption

open List Function Function

/-- A thread over shared state: a chain of atomic actions, between which other
threads may run. What follows an action depends on the state it found. -/
inductive Prog (σ ε α : Type)
  | done (value : α)
  | fail (error : ε)
  | atomic (act : σ → σ) (next : σ → Prog σ ε α)

variable {σ ε α β ι : Type} {prog : Prog σ ε α} {body : σ → Except ε (σ × α)}
  {rest : α → Prog σ ε β}

namespace Prog

def bind : Prog σ ε α → (α → Prog σ ε β) → Prog σ ε β
  | done value, rest => rest value
  | fail error, _ => fail error
  | atomic act next, rest => atomic act fun s => (next s).bind rest

instance : Monad (Prog σ ε) where
  pure := done
  bind := bind

/-- A critical section. One that ends in an error leaves the state as it was. -/
def critical (body : σ → Except ε (σ × α)) : Prog σ ε α :=
  atomic (fun s => match body s with | .ok (t, _) => t | .error _ => s)
    fun s => match body s with | .ok (_, value) => done value | .error error => fail error

/-- The thread runs to its end with nothing in between. -/
def run : Prog σ ε α → σ → σ × Except ε α
  | done value, s => (s, .ok value)
  | fail error, s => (s, .error error)
  | atomic act next, s => (next s).run (act s)

theorem run_bind (prog : Prog σ ε α) (rest : α → Prog σ ε β) (s : σ) :
    (prog >>= rest).run s =
      match prog.run s with
      | (t, .ok value) => (rest value).run t
      | (t, .error error) => (t, .error error) := by
  induction prog generalizing s with
  | done value => rfl
  | fail error => rfl
  | atomic act next ih => exact ih s (act s)

end Prog

section Each
variable (moves : σ → σ → Prop)

/-- Every action of the thread, in whatever state it is done, is a move. -/
def Prog.Each : Prog σ ε α → Prop
  | .done _ => True
  | .fail _ => True
  | .atomic act next => ∀ s, moves s (act s) ∧ (next s).Each

variable {moves}

theorem Prog.Each.bind (first : prog.Each moves)
    (second : ∀ value, (rest value).Each moves) : (prog >>= rest).Each moves := by
  induction prog with
  | done value => exact second value
  | fail error => trivial
  | atomic act next ih => exact fun s => ⟨(first s).1, ih s (first s).2⟩

theorem Prog.Each.critical (refl : ∀ s, moves s s)
    (ends : ∀ s t value, body s = .ok (t, value) → moves s t) : (Prog.critical body).Each moves := by
  intro s
  cases outcome : body s with
  | error error =>
    simp only [outcome]
    exact ⟨refl s, trivial⟩
  | ok result =>
    simp only [outcome]
    exact ⟨ends s result.1 result.2 outcome, trivial⟩

theorem Prog.Each.mono {wider} (each : prog.Each moves)
    (widens : ∀ s t, moves s t → wider s t) : prog.Each wider := by
  induction prog with
  | done value => trivial
  | fail error => trivial
  | atomic act next ih => exact fun s => ⟨widens _ _ (each s).1, ih s (each s).2⟩

end Each

/-- What the threads rely on: an invariant of the states, and how a state may
have changed while other threads ran. -/
structure Rely (S : Type) where
  inv : S → Prop
  later : S → S → Prop
  refl : ∀ s, later s s
  trans : ∀ {s t u}, later s t → later t u → later s u

section Rules

variable [DecidableEq ι] (rely : Rely (ι → σ)) (place : ι)

/-- A thread at `place`, last scheduled in the states `s`, keeps the invariant
and only makes changes the others rely on; `post` holds where it returns. -/
def Safe (post : (ι → σ) → α → Prop) : (ι → σ) → Prog σ ε α → Prop
  | s, .done value => post s value
  | _, .fail _ => True
  | s, .atomic act next => ∀ t, rely.later s t → rely.inv t →
      rely.inv (update t place (act (t place))) ∧
      rely.later t (update t place (act (t place))) ∧
      Safe post (update t place (act (t place))) (next (t place))

variable {rely place}

variable {prog : Prog σ ε α} {s : ι → σ}

theorem Safe.later {t} (safe : Safe rely place (fun _ _ => True) s prog) (evolved : rely.later s t) :
    Safe rely place (fun _ _ => True) t prog := by
  cases prog with
  | done value => trivial
  | fail error => trivial
  | atomic act next => exact fun u evolves => safe u (rely.trans evolved evolves)

theorem Safe.bind {mid post} (first : Safe rely place mid s prog)
    (second : ∀ t value, rely.later s t → mid t value → Safe rely place post t (rest value)) :
    Safe rely place post s (prog >>= rest) := by
  induction prog generalizing s with
  | done value => exact second s value (rely.refl s) first
  | fail error => trivial
  | atomic act next ih =>
    intro t evolved holds
    obtain ⟨kept, allowed, after⟩ := first t evolved holds
    refine ⟨kept, allowed, ih (t place) after fun u value evolves => ?_⟩
    exact second u value (rely.trans evolved (rely.trans allowed evolves))

/-- A thread all of whose actions are moves is safe where moves are. -/
theorem Safe.of_each {moves} (each : prog.Each moves) (kept : ∀ t new, rely.inv t → moves (t place) new →
      rely.inv (update t place new) ∧ rely.later t (update t place new)) :
    Safe rely place (fun _ _ => True) s prog := by
  induction prog generalizing s with
  | done value => trivial
  | fail error => trivial
  | atomic act next ih =>
    intro t _ holds
    obtain ⟨moved, rest⟩ := each (t place)
    obtain ⟨still, allowed⟩ := kept t _ holds moved
    exact ⟨still, allowed, ih (t place) rest⟩

theorem Safe.critical {post}
    (ends : ∀ t new value, rely.later s t → rely.inv t → body (t place) = .ok (new, value) →
      rely.inv (update t place new) ∧ rely.later t (update t place new) ∧
        post (update t place new) value) : Safe rely place post s (Prog.critical body) := by
  intro t evolved holds
  cases outcome : body (t place) with
  | error error =>
    simp only [outcome, update_eq_self]
    exact ⟨holds, rely.refl t, trivial⟩
  | ok result =>
    simp only [outcome]
    exact ends t result.1 result.2 evolved holds outcome

end Rules

/-- One shared state at each place, and the calls still running there. -/
structure System (ι σ ε α : Type) where
  shared : ι → σ
  threads : List (ι × Prog σ ε α)

section Runs

variable [DecidableEq ι] (calls : (ι → σ) → ι → Prog σ ε α → Prop)

/-- A call starts, any running call does its next action, or one that has
returned goes away. -/
inductive Step : System ι σ ε α → System ι σ ε α → Prop
  | call {shared threads place prog} : calls shared place prog →
      Step ⟨shared, threads⟩ ⟨shared, (place, prog) :: threads⟩
  | advance {shared after place act next} (before) :
      Step ⟨shared, before ++ (place, .atomic act next) :: after⟩
        ⟨update shared place (act (shared place)), before ++ (place, next (shared place)) :: after⟩
  | returned {shared after place value} (before) :
      Step ⟨shared, before ++ (place, .done value) :: after⟩ ⟨shared, before ++ after⟩
  | failed {shared after place error} (before) :
      Step ⟨shared, before ++ (place, .fail error) :: after⟩ ⟨shared, before ++ after⟩

inductive Reach (initial : ι → σ) : System ι σ ε α → Prop
  | start : Reach initial ⟨initial, []⟩
  | step {system next} : Reach initial system → Step calls system next → Reach initial next

variable {calls} {initial : ι → σ}

variable {system next : System ι σ ε α} {place : ι} {shared : ι → σ} {threads : List (ι × Prog σ ε α)}

/-- The rule of interleavings: when every call is safe in the states it is
made in, the invariant holds however the calls are interleaved. -/
theorem Reach.inv_and_safe {rely} (initially : rely.inv initial)
    (safe : ∀ shared place prog, rely.inv shared → calls shared place prog →
      Safe rely place (fun _ _ => True) shared prog) (reach : Reach calls initial system) :
    rely.inv system.shared ∧
      ∀ thread ∈ system.threads, Safe rely thread.1 (fun _ _ => True) system.shared thread.2 := by
  induction reach with
  | start => exact ⟨initially, by simp⟩
  | step _ taken ih =>
    obtain ⟨holds, running⟩ := ih
    cases taken with
    | call called =>
      refine ⟨holds, fun thread member => ?_⟩
      rcases mem_cons.mp member with rfl | old
      · exact safe _ _ _ holds called
      · exact running thread old
    | @advance shared after place act next before =>
      obtain ⟨kept, allowed, rest⟩ := running (place, .atomic act next) (by simp) shared (rely.refl _) holds
      refine ⟨kept, fun thread member => ?_⟩
      rcases mem_append.mp member with old | new
      · exact (running thread (by simp [old])).later allowed
      · rcases mem_cons.mp new with rfl | old
        · exact rest
        · exact (running thread (by simp [old])).later allowed
    | returned =>
      refine ⟨holds, fun thread member => running thread ?_⟩
      rcases mem_append.mp member with old | old <;> simp [old]
    | failed =>
      refine ⟨holds, fun thread member => running thread ?_⟩
      rcases mem_append.mp member with old | old <;> simp [old]

/-- When every action of every call is a move, a step of the system moves the
state at each place. -/
theorem Step.moves {moves} (refl : ∀ s, moves s s)
    (each : ∀ shared place prog, calls shared place prog → prog.Each moves)
    (taken : Step calls system next) (running : ∀ thread ∈ system.threads, thread.2.Each moves) :
    (∀ thread ∈ next.threads, thread.2.Each moves) ∧ ∀ place, moves (system.shared place) (next.shared place) := by
  cases taken with
  | call called =>
    refine ⟨fun thread member => ?_, fun _ => refl _⟩
    rcases mem_cons.mp member with rfl | old
    · exact each _ _ _ called
    · exact running thread old
  | @advance shared after place act next before =>
    obtain ⟨moved, rest⟩ := running (place, .atomic act next) (by simp) (shared place)
    refine ⟨fun thread member => ?_, fun other => ?_⟩
    · rcases mem_append.mp member with old | new
      · exact running thread (by simp [old])
      · rcases mem_cons.mp new with rfl | old
        · exact rest
        · exact running thread (by simp [old])
    · by_cases here : other = place
      · subst here
        simpa using moved
      · simpa [update_of_ne here] using refl _
  | returned =>
    refine ⟨fun thread member => running thread ?_, fun _ => refl _⟩
    rcases mem_append.mp member with old | old <;> simp [old]
  | failed =>
    refine ⟨fun thread member => running thread ?_, fun _ => refl _⟩
    rcases mem_append.mp member with old | old <;> simp [old]

theorem Reach.each {moves} (refl : ∀ s, moves s s)
    (each : ∀ shared place prog, calls shared place prog → prog.Each moves) (reach : Reach calls initial system) :
    ∀ thread ∈ system.threads, thread.2.Each moves := by
  induction reach with
  | start => simp
  | step _ taken ih => exact (taken.moves refl each ih).1

theorem Reach.steps (reach : Reach calls initial system)
    (taken : Relation.ReflTransGen (Step calls) system next) : Reach calls initial next := by
  induction taken with
  | refl => exact reach
  | tail _ step ih => exact ih.step step

/-- The thread started last can run to its end before any other goes on. -/
theorem steps_run_head (prog : Prog σ ε α) :
    Relation.ReflTransGen (Step calls) ⟨shared, (place, prog) :: threads⟩
      ⟨update shared place (prog.run (shared place)).1, threads⟩ := by
  induction prog generalizing shared with
  | done value =>
    rw [Prog.run, update_eq_self]
    exact .single (.returned [])
  | fail error =>
    rw [Prog.run, update_eq_self]
    exact .single (.failed [])
  | atomic act next ih =>
    have further := @ih (shared place) (update shared place (act (shared place)))
    rw [update_self, update_idem] at further
    exact further.head (.advance [])

/-- A call run to its end at once is one of the interleavings. -/
theorem steps_call_run (called : calls shared place prog) :
    Relation.ReflTransGen (Step calls) ⟨shared, threads⟩
      ⟨update shared place (prog.run (shared place)).1, threads⟩ :=
  (steps_run_head prog).head (.call called)

theorem Reach.call_run (reach : Reach calls initial ⟨shared, threads⟩)
    (called : calls shared place prog) :
    Reach calls initial ⟨update shared place (prog.run (shared place)).1, threads⟩ :=
  reach.steps (steps_call_run called)

end Runs

end Resumption
