import Mathlib.Data.Finset.Card
import Mathlib.Data.Finset.Union
import Mathlib.Tactic.Common

namespace TwoPhase

open List Finset

/-- Where a proposal stands in a protocol of two voting rounds. -/
inductive Stage
  | proposed
  | prepared
  | committed
  deriving DecidableEq

inductive Ballot (α : Type)
  | prepare (voter : α)
  | commit (voter : α)

structure Tally (α : Type) where
  stage : Stage
  prepares : Finset α
  commits : Finset α

section
variable {α : Type} [DecidableEq α] (quorum : Nat) (own : Finset α)

def addCommits (voters : Finset α) (tally : Tally α) : Tally α :=
  if quorum ≤ (voters ∪ tally.commits).card then
    { tally with stage := .committed, commits := voters ∪ tally.commits }
  else { tally with commits := voters ∪ tally.commits }

/-- A counter that takes ballots of the first round while proposed and of the
second while prepared, and drops the others. It adds its own commits when a
first-round ballot finds or makes the proposal prepared. -/
def count (tally : Tally α) (ballot : Ballot α) : Tally α :=
  match tally.stage, ballot with
  | .proposed, .prepare voter =>
    if quorum ≤ (insert voter tally.prepares).card then
      addCommits quorum own { tally with stage := .prepared, prepares := insert voter tally.prepares }
    else { tally with prepares := insert voter tally.prepares }
  | .prepared, .prepare _ => addCommits quorum own tally
  | .prepared, .commit voter => addCommits quorum {voter} tally
  | _, _ => tally

def run (tally : Tally α) (ballots : List (Ballot α)) : Tally α := ballots.foldl (count quorum own) tally

def preparers : List (Ballot α) → Finset α
  | [] => ∅
  | .prepare voter :: rest => insert voter (preparers rest)
  | .commit _ :: rest => preparers rest

def committers : List (Ballot α) → Finset α
  | [] => ∅
  | .prepare _ :: rest => committers rest
  | .commit voter :: rest => insert voter (committers rest)

/-- The commits that ballots bring to a prepared proposal. -/
def gathered : List (Ballot α) → Finset α
  | [] => ∅
  | .prepare _ :: rest => own ∪ gathered rest
  | .commit voter :: rest => insert voter (gathered rest)

end

section
variable {α : Type} [DecidableEq α] {quorum : Nat} {own : Finset α} {tally : Tally α} {ballots rest : List (Ballot α)}
  {voter : α}

theorem mem_preparers : voter ∈ preparers ballots ↔ .prepare voter ∈ ballots := by
  induction ballots with
  | nil => simp [preparers]
  | cons ballot rest ih => cases ballot <;> simp [preparers, ih]

theorem mem_committers : voter ∈ committers ballots ↔ .commit voter ∈ ballots := by
  induction ballots with
  | nil => simp [committers]
  | cons ballot rest ih => cases ballot <;> simp [committers, ih]

theorem mem_gathered : voter ∈ gathered own ballots ↔
    .commit voter ∈ ballots ∨ voter ∈ own ∧ ∃ other, .prepare other ∈ ballots := by
  induction ballots with
  | nil => simp [gathered]
  | cons ballot rest ih =>
    cases ballot with
    | prepare other =>
      simp only [gathered, Finset.mem_union, ih, List.mem_cons, reduceCtorEq, false_or]
      constructor
      · rintro (mine | commits | ⟨mine, other, prepares⟩)
        · exact .inr ⟨mine, other, .inl rfl⟩
        · exact .inl commits
        · exact .inr ⟨mine, other, .inr prepares⟩
      · rintro (commits | ⟨mine, -⟩)
        · exact .inr (.inl commits)
        · exact .inl mine
    | commit other => simp [gathered, ih, or_assoc]

theorem preparers_append : preparers (ballots ++ rest) = preparers ballots ∪ preparers rest := by
  ext voter
  simp [mem_preparers]

theorem own_union_gathered : own ∪ gathered own ballots = own ∪ committers ballots := by
  ext voter
  simp only [Finset.mem_union, mem_gathered, mem_committers]
  constructor
  · rintro (mine | commits | ⟨mine, -⟩)
    · exact .inl mine
    · exact .inr commits
    · exact .inl mine
  · rintro (mine | commits)
    · exact .inl mine
    · exact .inr (.inl commits)

theorem committers_subset_of_suffix (suffix : rest <:+ ballots) : committers rest ⊆ committers ballots :=
  fun _ commits => mem_committers.mpr (suffix.subset (mem_committers.mp commits))

theorem count_prepare (proposed : tally.stage = .proposed) (enough : quorum ≤ (insert voter tally.prepares).card) :
    count quorum own tally (.prepare voter) =
      addCommits quorum own { tally with stage := .prepared, prepares := insert voter tally.prepares } := by
  simp [count, proposed, enough]

theorem count_prepare_few (proposed : tally.stage = .proposed) (few : ¬quorum ≤ (insert voter tally.prepares).card) :
    count quorum own tally (.prepare voter) = { tally with prepares := insert voter tally.prepares } := by
  simp [count, proposed, few]

theorem count_prepare_prepared (prepared : tally.stage = .prepared) :
    count quorum own tally (.prepare voter) = addCommits quorum own tally := by
  simp only [count, prepared]

theorem count_commit (prepared : tally.stage = .prepared) :
    count quorum own tally (.commit voter) = addCommits quorum {voter} tally := by
  simp only [count, prepared]

theorem count_commit_dropped (pending : tally.stage ≠ .prepared) : count quorum own tally (.commit voter) = tally := by
  cases stage : tally.stage with
  | prepared => exact absurd stage pending
  | proposed => simp only [count, stage]
  | committed => simp only [count, stage]

theorem count_committed (committed : tally.stage = .committed) (ballot : Ballot α) :
    count quorum own tally ballot = tally := by
  simp only [count, committed]

theorem addCommits_of_subset {voters} (counted : voters ⊆ tally.commits) (few : tally.commits.card < quorum) :
    addCommits quorum voters tally = tally := by
  rw [addCommits, union_eq_right.mpr counted, if_neg (Nat.not_le.mpr few)]

theorem run_committed (committed : tally.stage = .committed) : (run quorum own tally ballots).stage = .committed := by
  induction ballots with
  | nil => exact committed
  | cons ballot rest ih =>
    rw [run, foldl_cons, count_committed committed]
    exact ih

/-- Once prepared, only the set of the ballots matters. -/
theorem run_prepared (prepared : tally.stage = .prepared) (few : tally.commits.card < quorum) :
    (run quorum own tally ballots).stage =
      if quorum ≤ (tally.commits ∪ gathered own ballots).card then .committed else .prepared := by
  induction ballots generalizing tally with
  | nil =>
    rw [gathered, union_empty, if_neg (by omega)]
    exact prepared
  | cons ballot rest ih =>
    -- either kind of ballot adds its voters to the commits
    have added (voters : Finset α) (counts : count quorum own tally ballot = addCommits quorum voters tally)
        (gathers : gathered own (ballot :: rest) = voters ∪ gathered own rest) :
        (run quorum own tally (ballot :: rest)).stage =
          if quorum ≤ (tally.commits ∪ gathered own (ballot :: rest)).card then .committed else .prepared := by
      have regroup : tally.commits ∪ gathered own (ballot :: rest) = (voters ∪ tally.commits) ∪ gathered own rest := by
        rw [gathers, ← union_assoc, union_comm tally.commits]
      rw [run, foldl_cons, counts, addCommits, regroup]
      by_cases enough : quorum ≤ (voters ∪ tally.commits).card
      · have more := enough.trans (card_le_card (@Finset.subset_union_left _ _ _ (gathered own rest)))
        rw [if_pos enough, if_pos more]
        exact run_committed rfl
      · rw [if_neg enough]
        exact @ih { tally with commits := voters ∪ tally.commits } prepared (Nat.lt_of_not_le enough)
    cases ballot with
    | prepare voter => exact added own (count_prepare_prepared prepared) rfl
    | commit voter => exact added {voter} (count_commit prepared) rfl

section
variable (proposed : tally.stage = .proposed)
include proposed

theorem run_prepare (none : tally.commits = ∅) (enough : quorum ≤ (insert voter tally.prepares).card) :
    (run quorum own tally (.prepare voter :: rest)).stage =
      if quorum ≤ (own ∪ committers rest).card then .committed else .prepared := by
  rw [run, foldl_cons, count_prepare proposed enough, addCommits, none, union_empty]
  by_cases alone : quorum ≤ own.card
  · have more := alone.trans (card_le_card (@Finset.subset_union_left _ _ own (committers rest)))
    rw [if_pos alone, if_pos more]
    exact run_committed rfl
  · rw [if_neg alone, ← own_union_gathered]
    exact @run_prepared _ _ _ _ { tally with stage := .prepared, prepares := insert voter tally.prepares, commits := own }
      _ rfl (Nat.lt_of_not_le alone)

theorem run_prepare_few (few : ¬quorum ≤ (insert voter tally.prepares).card) :
    run quorum own tally (.prepare voter :: rest) =
      run quorum own { tally with prepares := insert voter tally.prepares } rest := by
  rw [run, foldl_cons, count_prepare_few proposed few, run]

theorem run_commit_dropped : run quorum own tally (.commit voter :: rest) = run quorum own tally rest := by
  rw [run, foldl_cons, count_commit_dropped (by simp [proposed]), run]

variable (none : tally.commits = ∅) (few : tally.prepares.card < quorum)
include none few

/-- A proposal stays proposed exactly when the ballots bring no quorum of the
first round. -/
theorem run_stage_proposed :
    (run quorum own tally ballots).stage = .proposed ↔ (tally.prepares ∪ preparers ballots).card < quorum := by
  induction ballots generalizing tally with
  | nil => simpa [run, preparers, proposed] using few
  | cons ballot rest ih =>
    cases ballot with
    | commit voter =>
      rw [run_commit_dropped proposed, preparers]
      exact ih proposed none few
    | prepare voter =>
      rw [preparers, ← insert_union_comm]
      by_cases enough : quorum ≤ (insert voter tally.prepares).card
      · have more := enough.trans (card_le_card (@Finset.subset_union_left _ _ _ (preparers rest)))
        rw [run_prepare proposed none enough]
        constructor
        · intro stage
          split at stage <;> cases stage
        · intro less
          omega
      · rw [run_prepare_few proposed enough]
        exact ih proposed none (Nat.lt_of_not_le enough)

/-- It is committed exactly when a quorum of the second round, its own commits
with it, comes after one of the first. -/
theorem run_stage_committed :
    (run quorum own tally ballots).stage = .committed ↔ ∃ before after, ballots = before ++ after ∧
      quorum ≤ (tally.prepares ∪ preparers before).card ∧ quorum ≤ (own ∪ committers after).card := by
  induction ballots generalizing tally with
  | nil =>
    constructor
    · intro stage
      cases proposed.symm.trans stage
    · rintro ⟨before, after, split, enough, -⟩
      obtain ⟨rfl, rfl⟩ := append_eq_nil_iff.mp split.symm
      rw [preparers, union_empty] at enough
      omega
  | cons ballot rest ih =>
    -- the first part holds the first ballot, since there is no quorum before it
    have peel (next : Finset α) (prepares : ∀ before, tally.prepares ∪ preparers (ballot :: before) =
        next ∪ preparers before) :
        (∃ before after, ballot :: rest = before ++ after ∧ quorum ≤ (tally.prepares ∪ preparers before).card ∧
          quorum ≤ (own ∪ committers after).card) ↔
        ∃ before after, rest = before ++ after ∧ quorum ≤ (next ∪ preparers before).card ∧
          quorum ≤ (own ∪ committers after).card := by
      constructor
      · rintro ⟨before, after, split, enough, commits⟩
        cases before with
        | nil =>
          rw [preparers, union_empty] at enough
          omega
        | cons first before =>
          obtain ⟨rfl, same⟩ := cons_eq_cons.mp split
          exact ⟨before, after, same, prepares before ▸ enough, commits⟩
      · rintro ⟨before, after, rfl, enough, commits⟩
        exact ⟨ballot :: before, after, rfl, (prepares before).symm ▸ enough, commits⟩
    cases ballot with
    | commit voter =>
      rw [run_commit_dropped proposed, peel tally.prepares fun _ => rfl]
      exact ih proposed none few
    | prepare voter =>
      rw [peel (insert voter tally.prepares) fun before => by rw [preparers, ← insert_union_comm]]
      by_cases enough : quorum ≤ (insert voter tally.prepares).card
      · rw [run_prepare proposed none enough]
        constructor
        · intro stage
          split at stage
          · rename_i commits
            exact ⟨[], rest, rfl, by simpa [preparers] using enough, commits⟩
          · cases stage
        · rintro ⟨before, after, rfl, -, commits⟩
          have grown := committers_subset_of_suffix (suffix_append before after)
          rw [if_pos (commits.trans (card_le_card (union_subset_union_right grown)))]
      · rw [run_prepare_few proposed enough]
        exact ih proposed none (Nat.lt_of_not_le enough)

end

section Orders
variable {others first second : List (Ballot α)}

theorem gathered_congr (same : ∀ ballot, ballot ∈ ballots ↔ ballot ∈ others) :
    gathered own ballots = gathered own others := by
  ext voter
  simp only [mem_gathered, same]

variable (proposed : tally.stage = .proposed) (none : tally.commits = ∅) (few : tally.prepares.card < quorum)
include proposed none few

/-- Where no second-round quorum can come about in time, or none has to be
waited for, the stage is that of the set of the ballots. -/
theorem run_stage_settled
    (settled : (tally.prepares ∪ preparers ballots).card < quorum ∨ (own ∪ committers ballots).card < quorum ∨
      quorum ≤ own.card) :
    (run quorum own tally ballots).stage =
      if (tally.prepares ∪ preparers ballots).card < quorum then .proposed
      else if quorum ≤ own.card then .committed else .prepared := by
  by_cases less : (tally.prepares ∪ preparers ballots).card < quorum
  · rw [if_pos less]
    exact (run_stage_proposed proposed none few).mpr less
  rw [if_neg less]
  by_cases alone : quorum ≤ own.card
  · rw [if_pos alone]
    refine (run_stage_committed proposed none few).mpr ⟨ballots, [], (append_nil _).symm, by omega, ?_⟩
    rwa [committers, union_empty]
  rw [if_neg alone]
  cases stage : (run quorum own tally ballots).stage with
  | prepared => rfl
  | proposed => exact absurd ((run_stage_proposed proposed none few).mp stage) less
  | committed =>
    obtain ⟨before, after, rfl, -, commits⟩ := (run_stage_committed proposed none few).mp stage
    have grown := committers_subset_of_suffix (suffix_append before after)
    have more := commits.trans (card_le_card (union_subset_union_right grown))
    omega

theorem run_commits_first (noPrepares : preparers first = ∅) (noCommits : committers second = ∅)
    (waits : ¬quorum ≤ own.card) : (run quorum own tally (first ++ second)).stage ≠ .committed := by
  intro stage
  obtain ⟨before, after, split, prepares, commits⟩ := (run_stage_committed proposed none few).mp stage
  rcases append_eq_append_iff.mp split with ⟨middle, -, rest⟩ | ⟨middle, early, -⟩
  · have within := committers_subset_of_suffix (rest ▸ suffix_append middle after)
    rw [noCommits] at within
    rw [subset_empty.mp within, union_empty] at commits
    exact waits commits
  · rw [early, preparers_append] at noPrepares
    rw [(union_eq_empty.mp noPrepares).1, union_empty] at prepares
    omega

end Orders

end

end TwoPhase
