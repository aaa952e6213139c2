import Mathlib.Data.List.Basic

namespace Runs

open List

variable {σ κ : Type*} {apply : σ → κ → σ} {start : σ} {calls : List κ}

theorem foldl_take_succ {n call} (here : calls[n]? = some call) :
    (calls.take (n + 1)).foldl apply start = apply ((calls.take n).foldl apply start) call := by
  rw [take_add_one, here, Option.toList_some, foldl_append, foldl_cons, foldl_nil]

theorem foldl_take_stop {n} (ended : calls[n]? = none) :
    (calls.take (n + 1)).foldl apply start = (calls.take n).foldl apply start := by
  rw [take_add_one, ended, Option.toList_none, append_nil]

/-- What has come to hold came to hold with a call. -/
theorem exists_turn {holds : σ → Prop} {m n : Nat} (le : m ≤ n) (before : ¬holds ((calls.take m).foldl apply start))
    (now : holds ((calls.take n).foldl apply start)) : ∃ k, m ≤ k ∧ k < n ∧ ∃ call, calls[k]? = some call ∧
      ¬holds ((calls.take k).foldl apply start) ∧ holds (apply ((calls.take k).foldl apply start) call) := by
  induction le with
  | refl => exact absurd now before
  | @step n le ih =>
    by_cases held : holds ((calls.take n).foldl apply start)
    · obtain ⟨k, lower, upper, found⟩ := ih held
      exact ⟨k, lower, Nat.lt_succ_of_lt upper, found⟩
    cases here : calls[n]? with
    | none =>
      rw [foldl_take_stop here] at now
      exact absurd now held
    | some call =>
      rw [foldl_take_succ here] at now
      exact ⟨n, le, Nat.lt_succ_self n, call, here, held, now⟩

/-- What the calls in between preserve still holds after them. -/
theorem foldl_take_keeps {holds : σ → Prop} {m n : Nat} (le : m ≤ n)
    (before : holds ((calls.take m).foldl apply start))
    (keeps : ∀ k call, m ≤ k → k < n → calls[k]? = some call → holds ((calls.take k).foldl apply start) →
      holds (apply ((calls.take k).foldl apply start) call)) : holds ((calls.take n).foldl apply start) := by
  by_contra lost
  obtain ⟨k, lower, upper, call, here, held, fails⟩ :=
    @exists_turn _ _ apply start calls (fun s => ¬holds s) m n le (not_not.mpr before) lost
  exact fails (keeps k call lower upper here (not_not.mp held))

theorem foldl_take_mono {holds : σ → Prop} (keeps : ∀ s call, holds s → holds (apply s call)) {m n : Nat} (le : m ≤ n)
    (before : holds ((calls.take m).foldl apply start)) : holds ((calls.take n).foldl apply start) :=
  foldl_take_keeps le before fun _ call _ _ _ => keeps _ call

/-- An invariant that a call keeps, with whatever else is asked of the call,
exactly when the call fits. It holds all the time exactly when every call fits,
given what no call can break. -/
theorem forall_take_step_iff {kept inv : σ → Prop} {keeps fits : σ → κ → Prop} (starts : kept start)
    (always : ∀ s call, kept s → kept (apply s call)) (initially : inv start)
    (step : ∀ s call, kept s → inv s → (inv (apply s call) ∧ keeps s call ↔ fits s call)) :
    (∀ n, inv ((calls.take n).foldl apply start) ∧
        ∀ call, calls[n]? = some call → keeps ((calls.take n).foldl apply start) call) ↔
      ∀ n call, calls[n]? = some call → fits ((calls.take n).foldl apply start) call := by
  have sound (n : Nat) : kept ((calls.take n).foldl apply start) := foldl_take_mono always (Nat.zero_le n) starts
  constructor
  · intro all n call here
    have after := (all (n + 1)).1
    rw [foldl_take_succ here] at after
    exact (step _ _ (sound n) (all n).1).mp ⟨after, (all n).2 call here⟩
  · intro each n
    have holds : inv ((calls.take n).foldl apply start) := foldl_take_keeps (Nat.zero_le n) initially
      fun k call _ _ here held => ((step _ _ (sound k) held).mpr (each k call here)).1
    exact ⟨holds, fun call here => ((step _ _ (sound n) holds).mpr (each n call here)).2⟩

/-- An invariant that a call keeps exactly when it fits holds all the time
exactly when every call fits. -/
theorem forall_take_iff {inv : σ → Prop} {fits : σ → κ → Prop} (initially : inv start)
    (step : ∀ s call, inv s → (inv (apply s call) ↔ fits s call)) :
    (∀ n, inv ((calls.take n).foldl apply start)) ↔
      ∀ n call, calls[n]? = some call → fits ((calls.take n).foldl apply start) call := by
  have both := @forall_take_step_iff σ κ apply start calls (fun _ => True) inv (fun _ _ => True) fits trivial
    (fun _ _ _ => trivial) initially fun s call _ holds => (and_iff_left trivial).trans (step s call holds)
  exact (forall_congr' fun n => (and_iff_left fun _ _ => trivial).symm).trans both

/-- In a loop whose rounds touch one key each, a key is touched in its own
round only, and is met there as it was. -/
theorem foldl_touch {K V : Type} {touch : σ → K → σ} {view : σ → K → V}
    (others : ∀ s key other, other ≠ key → view (touch s key) other = view s other) {keys : List K} (nodup : keys.Nodup)
    (s : σ) (key : K) :
    (key ∉ keys ∧ view (keys.foldl touch s) key = view s key) ∨
      (key ∈ keys ∧ ∃ s', view s' key = view s key ∧ view (keys.foldl touch s) key = view (touch s' key) key) := by
  induction keys generalizing s with
  | nil => exact .inl ⟨not_mem_nil, rfl⟩
  | cons first keys ih =>
    rw [nodup_cons] at nodup
    rw [foldl_cons, mem_cons]
    rcases ih nodup.2 (touch s first) with ⟨absent, same⟩ | ⟨member, s', before, after⟩
    · by_cases here : key = first
      · exact .inr ⟨.inl here, s, rfl, by rw [same, here]⟩
      · exact .inl ⟨fun either => either.elim here absent, same.trans (others s first key here)⟩
    · have differs : key ≠ first := fun here => nodup.1 (here ▸ member)
      exact .inr ⟨.inr member, s', before.trans (others s first key differs), after⟩

end Runs
