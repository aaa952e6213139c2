import Mathlib.Tactic.Common

namespace Results

open List

variable {ε δ α β : Type}

/-- A call fails with an error or by a panic. -/
inductive Failure (ε : Type)
  | error (error : ε)
  | panic (message : String)

def Failure.map {ε δ : Type} (convert : ε → δ) : Failure ε → Failure δ
  | error e => error (convert e)
  | panic message => panic message

/-- `Option::ok_or`. -/
def okOr (value : Option α) (error : ε) : Except ε α :=
  match value with
  | none => .error error
  | some a => .ok a

variable {first : Except ε α} {rest : α → Except ε β} {value : Option α} {condition : Prop}

theorem ok_of_bind {b} (done : (first >>= rest) = .ok b) : ∃ a, first = .ok a ∧ rest a = .ok b := by
  cases first with
  | error e => cases done
  | ok a => exact ⟨a, rfl, done⟩

variable {error : ε} {result : Except ε α} {a : α}

theorem error_of_bind (failed : (first >>= rest) = .error error) :
    first = .error error ∨ ∃ a, first = .ok a ∧ rest a = .error error := by
  cases first with
  | error e =>
    cases failed
    exact .inl rfl
  | ok a => exact .inr ⟨a, rfl, failed⟩

theorem ok_of_mapError {f : ε → δ} (done : result.mapError f = .ok a) : result = .ok a := by
  cases result with
  | error e => cases done
  | ok b =>
    cases done
    rfl

theorem error_of_mapError {f : ε → δ} {error : δ} (failed : result.mapError f = .error error) :
    ∃ inner, error = f inner := by
  cases result with
  | error inner =>
    cases failed
    exact ⟨inner, rfl⟩
  | ok a => cases failed

theorem ok_of_okOr {own : ε} (done : okOr value own = .ok a) : value = some a := by
  cases value with
  | none => cases done
  | some b =>
    cases done
    rfl

theorem error_of_okOr {own} (failed : okOr value own = .error error) : error = own := by
  cases value with
  | none =>
    cases failed
    rfl
  | some a => cases failed

/-- `if !condition { return Err(error) }`. -/
def ensure (condition : Prop) [Decidable condition] (error : ε) : Except ε Unit :=
  if condition then .ok () else .error error

theorem ok_of_ensure [Decidable condition] {u} (passed : ensure condition error = .ok u) : condition := by
  unfold ensure at passed
  split at passed
  · assumption
  · cases passed

theorem ensure_of [Decidable condition] (holds : condition) (error : ε) : ensure condition error = .ok () := if_pos holds

theorem toOption_eq_some : result.toOption = some a ↔ result = .ok a := by
  cases result with
  | error e => simp [Except.toOption]
  | ok b => simp [Except.toOption]

section Loops
variable {σ : Type} {step : σ → α → Except ε σ} {list : List α} {start last : σ}

/-- What every turn of a checked loop keeps holds at its end. -/
theorem foldlM_invariant (kept : σ → Prop) (done : list.foldlM step start = .ok last)
    (keeps : ∀ before a after, a ∈ list → step before a = .ok after → kept before → kept after)
    (begins : kept start) : kept last := by
  induction list generalizing start with
  | nil =>
    cases done
    exact begins
  | cons a list ih =>
    obtain ⟨middle, first, rest⟩ := ok_of_bind done
    exact ih rest (fun before b after member => keeps before b after (mem_cons_of_mem a member))
      (keeps start a middle mem_cons_self first begins)

/-- A checked loop that ends has accepted every element. -/
theorem foldlM_accepts {accepted : α → Prop} (done : list.foldlM step start = .ok last)
    (accepts : ∀ before a after, step before a = .ok after → accepted a) : ∀ a ∈ list, accepted a := by
  induction list generalizing start with
  | nil => simp
  | cons a list ih =>
    obtain ⟨middle, first, rest⟩ := ok_of_bind done
    rw [forall_mem_cons]
    exact ⟨accepts start a middle first, ih rest⟩

/-- A loop of checks passes when each of them does. -/
theorem forM_eq_ok {check : α → Except ε Unit} : list.forM check = .ok () ↔ ∀ a ∈ list, check a = .ok () := by
  induction list with
  | nil => simp [pure, Except.pure]
  | cons a list ih =>
    rw [forall_mem_cons, ← ih]
    change (check a >>= fun _ => list.forM check) = .ok () ↔ _
    cases check a with
    | error e => simp [bind, Except.bind]
    | ok u => simp [bind, Except.bind]

section InPlace

/-- The next part of a computation that changes a state in place: after an
error the state stays as it was left. -/
def andThen (first : Except ε Unit × σ) (next : σ → Except ε Unit × σ) : Except ε Unit × σ :=
  match first with
  | (.error e, s) => (.error e, s)
  | (.ok (), s) => next s

/-- A loop with `?` over a state that is changed in place. -/
def inPlace (step : σ → α → Except ε Unit × σ) : List α → σ → Except ε Unit × σ
  | [], s => (.ok (), s)
  | a :: rest, s => andThen (step s a) (inPlace step rest)

/-- A part that changes nothing when it fails. -/
def orUnchanged (step : σ → α → Except ε σ) (s : σ) (a : α) : Except ε Unit × σ :=
  match step s a with
  | .error e => (.error e, s)
  | .ok s => (.ok (), s)

@[simp] theorem andThen_ok (s : σ) (next : σ → Except ε Unit × σ) : andThen (.ok (), s) next = next s := rfl

@[simp] theorem andThen_error (e : ε) (s : σ) (next : σ → Except ε Unit × σ) :
    andThen (.error e, s) next = (.error e, s) := rfl

@[simp] theorem inPlace_nil (step : σ → α → Except ε Unit × σ) (s : σ) : inPlace step [] s = (.ok (), s) := rfl

@[simp] theorem inPlace_singleton (step : σ → α → Except ε Unit × σ) (a : α) (s : σ) :
    inPlace step [a] s = step s a := by
  unfold inPlace
  rcases step s a with ⟨_ | _, after⟩
  · rfl
  · rfl

theorem inPlace_cons (step : σ → α → Except ε Unit × σ) (a : α) (rest : List α) (s : σ) :
    inPlace step (a :: rest) s = andThen (step s a) (inPlace step rest) := rfl

variable {τ : Type} {step : σ → α → Except ε Unit × σ}

variable (read : σ → τ)

theorem andThen_preserves {next} (keeps : ∀ s, read (next s).2 = read s)
    (first : Except ε Unit × σ) : read (andThen first next).2 = read first.2 := by
  rcases first with ⟨_ | _, s⟩
  · rfl
  · exact keeps s

/-- What no step of a loop changes, the loop does not change either. -/
theorem inPlace_preserves_of_mem (list : List α) (keeps : ∀ s, ∀ a ∈ list, read (step s a).2 = read s)
    (s : σ) : read (inPlace step list s).2 = read s := by
  induction list generalizing s with
  | nil => rfl
  | cons a rest ih =>
    have later := ih fun s b member => keeps s b (mem_cons_of_mem a member)
    exact (andThen_preserves read later (step s a)).trans (keeps s a mem_cons_self)

theorem inPlace_preserves (keeps : ∀ s a, read (step s a).2 = read s) (list : List α) (s : σ) :
    read (inPlace step list s).2 = read s :=
  inPlace_preserves_of_mem read list (fun s a _ => keeps s a) s

theorem inPlace_keeps {holds : σ → Prop} (keeps : ∀ s a, holds s → holds (step s a).2) (list : List α) {s : σ}
    (before : holds s) : holds (inPlace step list s).2 := by
  induction list generalizing s with
  | nil => exact before
  | cons a rest ih =>
    have after := keeps s a before
    rw [inPlace_cons]
    rcases ran : step s a with ⟨e | _, mid⟩
    · rwa [ran] at after
    · rw [ran] at after
      exact ih after

variable {step : σ → α → Except ε σ}

theorem orUnchanged_ok {s after} (done : step s a = .ok after) :
    orUnchanged step s a = (.ok (), after) := by
  rw [orUnchanged, done]

theorem orUnchanged_error {s e} (failed : step s a = .error e) :
    orUnchanged step s a = (.error e, s) := by
  rw [orUnchanged, failed]

theorem orUnchanged_cases (step : σ → α → Except ε σ) (s : σ) (a : α) :
    (∃ e, step s a = .error e ∧ orUnchanged step s a = (.error e, s)) ∨
      ∃ after, step s a = .ok after ∧ orUnchanged step s a = (.ok (), after) := by
  unfold orUnchanged
  cases step s a with
  | error e => exact .inl ⟨e, rfl, rfl⟩
  | ok after => exact .inr ⟨after, rfl, rfl⟩

theorem orUnchanged_keeps {step : σ → α → Except ε σ} {holds : σ → Prop} {s : σ} {a : α} (before : holds s)
    (keeps : ∀ after, step s a = .ok after → holds after) : holds (orUnchanged step s a).2 := by
  unfold orUnchanged
  split
  · exact before
  · rename_i after done
    exact keeps after done

section Keyed
variable {K V : Type} {step : σ → K → Except ε Unit × σ} {view : σ → K → V} {change : K → V → Except ε Unit × V}

theorem inPlace_append (first second : List α) (step : σ → α → Except ε Unit × σ) (s : σ) :
    inPlace step (first ++ second) s = andThen (inPlace step first s) (inPlace step second) := by
  induction first generalizing s with
  | nil => rfl
  | cons a first ih =>
    rw [cons_append, inPlace_cons, inPlace_cons]
    rcases step s a with ⟨_ | _, after⟩
    · rfl
    · exact ih after

/-- A loop whose rounds touch one key each succeeds if each key's change does,
from the value the key had before the loop. -/
theorem inPlace_ok_iff (result : ∀ s key, (step s key).1 = (change key (view s key)).1)
    (others : ∀ s key other, other ≠ key → view (step s key).2 other = view s other) {keys} (nodup : keys.Nodup)
    (s : σ) : (inPlace step keys s).1 = .ok () ↔ ∀ key ∈ keys, (change key (view s key)).1 = .ok () := by
  induction keys generalizing s with
  | nil => simp
  | cons first keys ih =>
    rw [nodup_cons] at nodup
    rw [forall_mem_cons, ← result, inPlace_cons]
    rcases ran : step s first with ⟨e | _, after⟩
    · simp
    have kept : ∀ key ∈ keys, view after key = view s key := by
      intro key member
      have same := others s first key fun here => nodup.1 (here ▸ member)
      rwa [ran] at same
    have rest : (∀ key ∈ keys, (change key (view after key)).1 = .ok ()) ↔
        ∀ key ∈ keys, (change key (view s key)).1 = .ok () :=
      forall₂_congr fun key member => by rw [kept key member]
    rw [andThen_ok, ih nodup.2, rest]
    simp

/-- A key is changed in its own round only, and only if every round before it
has succeeded. -/
theorem inPlace_view (result : ∀ s key, (step s key).1 = (change key (view s key)).1)
    (value : ∀ s key, view (step s key).2 key = (change key (view s key)).2)
    (others : ∀ s key other, other ≠ key → view (step s key).2 other = view s other) {before after key}
    (nodup : (before ++ key :: after).Nodup) (s : σ) :
    ((∀ k ∈ before, (change k (view s k)).1 = .ok ()) ∧
        view (inPlace step (before ++ key :: after) s).2 key = (change key (view s key)).2) ∨
      (∃ k ∈ before, (change k (view s k)).1 ≠ .ok ()) ∧
        view (inPlace step (before ++ key :: after) s).2 key = view s key := by
  obtain ⟨nodup, nodup', apart⟩ := nodup_append.mp nodup
  rw [nodup_cons] at nodup'
  have untouched : view (inPlace step before s).2 key = view s key :=
    inPlace_preserves_of_mem (view · key) before
      (fun s k member => others s k key (apart k member key mem_cons_self).symm) s
  rw [inPlace_append]
  by_cases reached : (inPlace step before s).1 = .ok ()
  · refine .inl ⟨(inPlace_ok_iff result others nodup s).mp reached, ?_⟩
    rcases ran : inPlace step before s with ⟨r, mid⟩
    rw [ran] at reached untouched
    cases (show r = .ok () from reached)
    have later : view (inPlace step (key :: after) mid).2 key = view (step mid key).2 key :=
      andThen_preserves (view · key)
        (inPlace_preserves_of_mem (view · key) after fun s k member => others s k key fun same => nodup'.1 (same ▸ member))
        (step mid key)
    rw [andThen_ok, later, value, untouched]
  · refine .inr ⟨?_, ?_⟩
    · by_contra none
      refine reached ((inPlace_ok_iff result others nodup s).mpr fun k member => ?_)
      by_contra failed
      exact none ⟨k, member, failed⟩
    · rcases ran : inPlace step before s with ⟨e | _, mid⟩
      · rwa [ran] at untouched
      · exact absurd (by rw [ran]) reached

end Keyed

end InPlace

end Loops

/-- A computation with `?` over a state; the state stays as an error left it. -/
abbrev Stateful (σ ε α : Type) := ExceptT ε (StateM σ) α

section Stateful
variable {first : Stateful σ ε α} {rest : α → Stateful σ ε β} {s mid after : σ} {a : α} {b : β} {e : ε}

theorem bind_of_ok (ran : first s = (.ok a, mid)) : (first >>= rest) s = rest a mid := by
  simp only [bind, ExceptT.bind, ExceptT.mk, StateT.bind, ran]
  rfl

theorem bind_of_error (ran : first s = (.error e, mid)) : (first >>= rest) s = (.error e, mid) := by
  simp only [bind, ExceptT.bind, ExceptT.mk, StateT.bind, ran]
  rfl

theorem ok_of_stateful_bind (done : (first >>= rest) s = (.ok b, after)) :
    ∃ a mid, first s = (.ok a, mid) ∧ rest a mid = (.ok b, after) := by
  rcases ran : first s with ⟨e | a, mid⟩
  · cases (bind_of_error ran).symm.trans done
  · exact ⟨a, mid, rfl, (bind_of_ok ran).symm.trans done⟩

/-- A part of the state that a computation leaves alone, also when it fails. -/
def Leaves {τ : Type} (read : σ → τ) (computation : Stateful σ ε α) : Prop := ∀ s, read (computation s).2 = read s

variable {τ : Type} {read : σ → τ}

theorem Leaves.bind (before : Leaves read first) (next : ∀ a, Leaves read (rest a)) : Leaves read (first >>= rest) := by
  intro s
  rcases ran : first s with ⟨e | a, mid⟩
  · rw [bind_of_error ran]
    have kept := before s
    rwa [ran] at kept
  · rw [bind_of_ok ran]
    have kept := before s
    rw [ran] at kept
    exact (next a mid).trans kept

/-- A part of the state that a computation leaves alone where it fails. -/
def FailsLeaving {τ : Type} (read : σ → τ) (computation : Stateful σ ε α) : Prop :=
  ∀ s e after, computation s = (.error e, after) → read after = read s

theorem Leaves.bind_fails (before : Leaves read first) (next : ∀ a, FailsLeaving read (rest a)) :
    FailsLeaving read (first >>= rest) := by
  intro s e after failed
  have kept := before s
  rcases ran : first s with ⟨e' | a, mid⟩
  · rw [ran] at kept
    cases (bind_of_error ran).symm.trans failed
    exact kept
  · rw [ran] at kept
    rw [bind_of_ok ran] at failed
    exact (next a mid e after failed).trans kept

theorem Leaves.pure (a : α) : Leaves read (pure a : Stateful σ ε α) := fun _ => rfl

theorem Leaves.forM {list : List α} {visit : α → Stateful σ ε Unit} (each : ∀ a, Leaves read (visit a)) :
    Leaves read (list.forM visit) := by
  induction list with
  | nil => exact Leaves.pure ()
  | cons a list ih => exact (each a).bind fun _ => ih

end Stateful

end Results
