import Bleep.Governance.Tally
import Bleep.Library.Runs

namespace Bleep.Governance

open HashTable Words Results ProposalState List AList Option Prod Proposal

variable (self : ProposalState) {s : ProposalState}

def ProposalState.Settled : Prop := self = .awaitingExecution ∨ self.isTerminal = true

/-- What a submitted proposal's state can be: the states in between are passed
through within one call. -/
def ProposalState.Staged : Prop := self = .pending ∨ self = .voting ∨ self.Settled

def ProposalState.AtLeastVoting : Prop := self ≠ .draft ∧ self ≠ .pending

theorem ProposalState.Settled.past (settled : s.Settled) : s.AtLeastVoting ∧ s ≠ .voting := by
  refine ⟨⟨?_, ?_⟩, ?_⟩
  all_goals
    rintro rfl
    simp [ProposalState.Settled, isTerminal] at settled

namespace Proposal

variable {order : IterOrder} {epoch : U64} {stake : U128} {p : Proposal} {after : Except GovernanceError Unit × Proposal}

variable (self : Proposal)

/-- Some vote of the ballot carries stake. -/
def Counted : Prop := ∃ id vote, self.votes.lookup id = some vote ∧ vote.stake ≠ 0

def Opens (epoch : U64) (self : Proposal) : Prop := self.state = .pending ∧ self.votingWindow.startEpoch ≤ epoch

/-- Its ballot is closed at this epoch, if it can be counted. -/
def Ends (epoch : U64) (self : Proposal) : Prop :=
  (self.state = .voting ∨ self.Opens epoch) ∧ self.votingWindow.endEpoch ≤ epoch

def Executes (order : IterOrder) (epoch : U64) (stake : U128) (self : Proposal) : Prop :=
  self.executionEpoch ≤ epoch ∧
    (self.state = .awaitingExecution ∨
      self.Ends epoch ∧ ∃ tally, self.count order stake = .ok tally ∧ tally.approved = true)

/-- The epoch takes it to another state. -/
def Moves (epoch : U64) (self : Proposal) : Prop :=
  self.Opens epoch ∨ (self.Ends epoch ∧ self.Counted) ∨ (self.state = .awaitingExecution ∧ self.executionEpoch ≤ epoch)

theorem Ends.moved (ends : p.Ends epoch) (settled : s.Settled) : s ≠ p.state := by
  rcases ends.1 with voting | opens
  · exact voting ▸ settled.past.2
  · exact opens.1 ▸ settled.past.1.2

theorem count_order (order order' : IterOrder) (stake : U128) (p : Proposal) :
    p.count order stake = p.count order' stake := by
  have perm : (order.iter 0 p.votes).Perm (order'.iter 0 p.votes) := (order.perm 0 _).trans (order'.perm 0 _).symm
  rw [count, count, countVotes_perm (perm.map snd)]

theorem countVotes_eq_zero {votes} :
    saturatingAdd (countVotes votes).1 (countVotes votes).2 = 0 ↔ ∀ vote ∈ votes, vote.stake = 0 := by
  obtain ⟨approved, rejected⟩ := toNat_countVotes votes
  have zero (x : U128) : x = 0 ↔ x.toNat = 0 := BitVec.toNat_inj.symm
  have none (approval : Bool) : min (stakeOf approval votes) (2 ^ 128 - 1) = 0 ↔
      ∀ vote ∈ votes, vote.approval = approval → vote.stake.toNat = 0 := by
    simp [stakeOf, List.sum_eq_zero_iff_forall_eq_nat]
    exact ⟨fun all vote cast kind => all _ vote cast kind rfl, fun all _ vote cast kind same => same ▸ all vote cast kind⟩
  rw [saturatingAdd_eq_zero]
  simp only [zero, approved, rejected, none]
  constructor
  · rintro ⟨yes, no⟩ vote cast
    cases kind : vote.approval
    · exact no vote cast kind
    · exact yes vote cast kind
  · exact fun all => ⟨fun vote cast _ => all vote cast, fun vote cast _ => all vote cast⟩

/-- A ballot can be tallied if and only if some vote carries stake. -/
theorem count_ok_iff : (∃ tally, p.count order stake = .ok tally) ↔ p.Counted := by
  have empty := @countVotes_eq_zero ((order.iter 0 p.votes).map snd)
  have ballot : (∀ vote ∈ (order.iter 0 p.votes).map snd, vote.stake = 0) ↔ ¬p.Counted := by
    constructor
    · rintro zero ⟨id, vote, cast, positive⟩
      exact positive (zero vote (mem_map.mpr ⟨(id, vote), mem_iter.mpr cast, rfl⟩))
    · intro none vote member
      obtain ⟨⟨id, vote⟩, listed, rfl⟩ := mem_map.mp member
      by_contra positive
      exact none ⟨id, vote, mem_iter.mp listed, positive⟩
  rw [ballot] at empty
  simp only [count, VoteTally.compute]
  split
  · rename_i zero
    simp [empty.mp zero]
  · rename_i total
    simp [not_not.mp (mt empty.mpr total)]

def opened : Proposal := { self with state := .voting }

def tallied (tally : VoteTally) : Proposal :=
  { self with tally := some tally, state := outcome tally }

/-- The proposal after a failed execution. -/
def undone : Proposal := { self with previousState := some self, state := .rolledBack }

/-- Everything a round of `advance_epoch` can do with a proposal. -/
inductive Round (order : IterOrder) (epoch : U64) (stake : U128) (p : Proposal) :
    Except GovernanceError Unit × Proposal → Prop
  | idle (closed : ¬p.Opens epoch) (running : ¬p.Ends epoch)
      (waiting : ¬(p.state = .awaitingExecution ∧ p.executionEpoch ≤ epoch)) : Round order epoch stake p (.ok (), p)
  | opened (opens : p.Opens epoch) (running : ¬p.Ends epoch) :
      Round order epoch stake p (.ok (), p.opened)
  | uncounted (ends : p.Ends epoch) (empty : ¬p.Counted) :
      Round order epoch stake p (.ok (), p.opened)
  | closed (ends : p.Ends epoch) {tally : VoteTally} (counted : p.count order stake = .ok tally)
      (later : ¬(tally.approved = true ∧ p.executionEpoch ≤ epoch)) :
      Round order epoch stake p (.ok (), p.tallied tally)
  | closedExecuted (ends : p.Ends epoch) {tally : VoteTally} (counted : p.count order stake = .ok tally)
      (approved : tally.approved = true) (due : p.executionEpoch ≤ epoch) (error : GovernanceError) :
      Round order epoch stake p (.error error, (p.tallied tally).undone)
  | executed (awaiting : p.state = .awaitingExecution) (due : p.executionEpoch ≤ epoch) (error : GovernanceError) :
      Round order epoch stake p (.error error, p.undone)

theorem settled_outcome (tally : VoteTally) : (outcome tally).Settled := by
  unfold outcome
  split
  · exact .inl rfl
  · split
    · exact .inr rfl
    · exact .inr rfl

theorem outcome_eq_awaiting {tally} : outcome tally = .awaitingExecution ↔ tally.approved = true := by
  unfold outcome
  split
  · simp [*]
  · split <;> simp [*]

theorem orSame_startVoting (opens : p.Opens epoch) : p.orSame (startVoting epoch) = p.opened := by
  rw [orSame, startVoting, if_neg (not_not.mpr opens.1), if_neg (BitVec.not_lt.mpr opens.2)]
  rfl

theorem openVoting_opens (opens : p.Opens epoch) : p.openVoting epoch = p.opened :=
  (if_pos opens).trans (orSame_startVoting opens)

theorem openVoting_not (waits : ¬p.Opens epoch) : p.openVoting epoch = p := if_neg waits

theorem openVoting_ends (ends : p.Ends epoch) : p.openVoting epoch = p.opened := by
  rcases ends.1 with voting | opens
  · rw [openVoting_not fun opens => absurd (voting.symm.trans opens.1) (by decide)]
    cases p
    cases voting
    rfl
  · exact openVoting_opens opens

theorem finish_due (awaiting : p.state = .awaitingExecution) (due : p.executionEpoch ≤ epoch) :
    p.finish epoch = (.error (.executionFailed p.payload.notWired), p.undone) := by
  rw [finish, if_pos ⟨awaiting, due⟩, execute, if_neg (not_not.mpr awaiting), if_neg (BitVec.not_lt.mpr due)]
  rfl

theorem finish_waits (waits : ¬(p.state = .awaitingExecution ∧ p.executionEpoch ≤ epoch)) :
    p.finish epoch = (.ok (), p) := if_neg waits

theorem finish_opened : p.opened.finish epoch = (.ok (), p.opened) :=
  finish_waits fun waits => noConfusion waits.1

/-- A ballot whose window has ended is closed in the round that finds it. One
that cannot be counted stays open. -/
theorem endVoting_ended (ends : p.Ends epoch) : (p.openVoting epoch).endVoting order epoch stake =
    ((p.count order stake).toOption.map p.tallied).getD p.opened := by
  have voting : p.opened.state = .voting := rfl
  have closed : p.opened.votingWindow.isClosed epoch = true := decide_eq_true ends.2
  rw [openVoting_ends ends, endVoting, if_pos ⟨rfl, ends.2⟩, orSame, closeVoting, ensure_of voting, ensure_of closed]
  change _ = ((p.opened.count order stake).toOption.map _).getD _
  cases p.opened.count order stake <;> rfl

theorem endVoting_running (running : ¬p.Ends epoch) :
    (p.openVoting epoch).endVoting order epoch stake = p.openVoting epoch := by
  refine if_neg fun found => ?_
  by_cases opens : p.Opens epoch
  · rw [openVoting_opens opens] at found
    exact running ⟨.inr opens, found.2⟩
  · rw [openVoting_not opens] at found
    exact running ⟨.inl found.1, found.2⟩

theorem round_advance (order : IterOrder) (epoch : U64) (stake : U128) (p : Proposal) :
    Round order epoch stake p (p.advance order epoch stake) := by
  rw [advance]
  by_cases ends : p.Ends epoch
  · rw [endVoting_ended ends]
    cases counted : p.count order stake with
    | error e =>
      have empty : ¬p.Counted := fun some => by
        obtain ⟨tally, ok⟩ := (@count_ok_iff order stake p).mpr some
        cases ok.symm.trans counted
      exact .uncounted ends empty
    | ok tally =>
      rw [Except.toOption, map_some, getD_some]
      by_cases due : tally.approved = true ∧ p.executionEpoch ≤ epoch
      · rw [@finish_due epoch (p.tallied tally) (outcome_eq_awaiting.mpr due.1) due.2]
        exact .closedExecuted ends counted due.1 due.2 _
      · rw [@finish_waits epoch (p.tallied tally) fun both => due ⟨outcome_eq_awaiting.mp both.1, both.2⟩]
        exact .closed ends counted due
  · rw [endVoting_running ends]
    by_cases opens : p.Opens epoch
    · rw [openVoting_opens opens, finish_opened]
      exact .opened opens ends
    · rw [openVoting_not opens]
      by_cases due : p.state = .awaitingExecution ∧ p.executionEpoch ≤ epoch
      · rw [finish_due due.1 due.2]
        exact .executed due.1 due.2 _
      · rw [finish_waits due]
        exact .idle opens ends due

section
variable (round : Round order epoch stake p after)
include round

/-- A round fails exactly if it executes the proposal. -/
theorem Round.ok_iff : after.1 = .ok () ↔ ¬p.Executes order epoch stake := by
  cases round with
  | idle closed running waiting =>
    refine iff_of_true rfl ?_
    rintro ⟨due, awaiting | ⟨ends, -⟩⟩
    · exact waiting ⟨awaiting, due⟩
    · exact running ends
  | opened opens running =>
    refine iff_of_true rfl ?_
    rintro ⟨-, awaiting | ⟨ends, -⟩⟩
    · cases opens.1.symm.trans awaiting
    · exact running ends
  | uncounted ends empty =>
    refine iff_of_true rfl ?_
    rintro ⟨-, awaiting | ⟨-, tally, counted, -⟩⟩
    · exact ends.moved (.inl rfl) awaiting.symm
    · exact empty (count_ok_iff.mp ⟨tally, counted⟩)
  | @closed ends tally counted later =>
    refine iff_of_true rfl ?_
    rintro ⟨due, awaiting | ⟨-, again, recounted, approved⟩⟩
    · exact ends.moved (.inl rfl) awaiting.symm
    · cases counted.symm.trans recounted
      exact later ⟨approved, due⟩
  | @closedExecuted ends tally counted approved due error =>
    exact iff_of_false (by simp) (not_not.mpr ⟨due, .inr ⟨ends, tally, counted, approved⟩⟩)
  | executed awaiting due error => exact iff_of_false (by simp) (not_not.mpr ⟨due, .inl awaiting⟩)

theorem Round.votingWindow : after.2.votingWindow = p.votingWindow := by
  cases round <;> rfl

theorem Round.state_ne_iff : after.2.state ≠ p.state ↔ p.Moves epoch := by
  cases round with
  | idle closed running waiting =>
    refine iff_of_false (not_not.mpr rfl) ?_
    rintro (opens | ⟨ends, -⟩ | awaiting)
    · exact closed opens
    · exact running ends
    · exact waiting awaiting
  | opened opens running => exact iff_of_true (by simp [Proposal.opened, opens.1]) (.inl opens)
  | uncounted ends empty =>
    rcases ends.1 with voting | opens
    · refine iff_of_false (not_not.mpr voting.symm) ?_
      rintro (opens | ⟨-, counted⟩ | ⟨awaiting, -⟩)
      · cases voting.symm.trans opens.1
      · exact empty counted
      · cases voting.symm.trans awaiting
    · exact iff_of_true (by simp [Proposal.opened, opens.1]) (.inl opens)
  | @closed ends tally counted later =>
    exact iff_of_true (ends.moved (settled_outcome tally)) (.inr (.inl ⟨ends, count_ok_iff.mp ⟨tally, counted⟩⟩))
  | @closedExecuted ends tally counted approved due error =>
    exact iff_of_true (ends.moved (.inr rfl)) (.inr (.inl ⟨ends, count_ok_iff.mp ⟨tally, counted⟩⟩))
  | executed awaiting due error =>
    exact iff_of_true (by simp [undone, awaiting]) (.inr (.inr ⟨awaiting, due⟩))

/-- After the end of its window a proposal is settled by the round, unless it
has not started or its ballot is empty. -/
theorem Round.settled_iff (ended : p.votingWindow.endEpoch ≤ epoch) :
    after.2.state.Settled ↔ p.state.Settled ∨ p.Ends epoch ∧ p.Counted := by
  cases round with
  | idle closed running waiting => exact ⟨.inl, fun either => either.resolve_right fun both => running both.1⟩
  | opened opens running => exact absurd ⟨.inr opens, ended⟩ running
  | uncounted ends empty =>
    refine iff_of_false (fun settled => settled.past.2 rfl) ?_
    rintro (settled | ⟨-, counted⟩)
    · exact ends.moved settled rfl
    · exact empty counted
  | @closed ends tally counted later =>
    exact iff_of_true (settled_outcome tally) (.inr ⟨ends, count_ok_iff.mp ⟨tally, counted⟩⟩)
  | @closedExecuted ends tally counted approved due error =>
    exact iff_of_true (.inr rfl) (.inr ⟨ends, count_ok_iff.mp ⟨tally, counted⟩⟩)
  | executed awaiting due error => exact iff_of_true (.inr rfl) (.inl (.inl awaiting))

theorem Round.staged (staged : p.state.Staged) : after.2.state.Staged := by
  cases round with
  | idle => exact staged
  | opened | uncounted => exact .inr (.inl rfl)
  | @closed _ tally => exact .inr (.inr (settled_outcome tally))
  | closedExecuted | executed => exact .inr (.inr (.inr rfl))

end

theorem Round.atLeastVoting (round : Round order epoch stake p after) (opens : p.Opens epoch) :
    after.2.state.AtLeastVoting := by
  cases round with
  | idle closed => exact absurd opens closed
  | opened | uncounted => exact ⟨noConfusion, noConfusion⟩
  | @closed _ tally => exact (settled_outcome tally).past.1
  | closedExecuted | executed => exact ⟨noConfusion, noConfusion⟩

theorem advance_order (order order' : IterOrder) (epoch : U64) (stake : U128) (p : Proposal) :
    p.advance order epoch stake = p.advance order' epoch stake := by
  have same : closeVoting order epoch stake = closeVoting order' epoch stake := by
    funext p
    rw [closeVoting, closeVoting, count_order order order']
  rw [advance, advance, endVoting, endVoting, same]

end Proposal

namespace GovernanceEngine

variable {self : GovernanceEngine} {orders orders' : String → IterOrder} {epoch : U64} {id : String} {p : Proposal}

/-- What all calls keep: the queue lists the proposals, each once, and none of
them is left in a passing state. -/
structure Orderly (engine : GovernanceEngine) : Prop where
  nodup : engine.proposalQueue.Nodup
  listed : ∀ id, id ∈ engine.proposalQueue ↔ id ∈ engine.proposals
  staged : ∀ id p, engine.proposals.lookup id = some p → p.state.Staged

section
variable (orderly : self.Orderly)
include orderly

theorem Orderly.update (known : self.proposals.lookup id = some p) {after} (staged : after.state.Staged)
    : Orderly { self with proposals := self.proposals.insert id after } := by
  refine ⟨orderly.nodup, fun other => ?_, fun other q found => ?_⟩
  · have present : id ∈ self.proposals := lookup_isSome.mp (known ▸ rfl)
    rw [mem_insert]
    exact (orderly.listed other).trans ⟨.inr, fun either => either.elim (fun same => same ▸ present) fun member => member⟩
  · rcases lookup_insert_cases found with ⟨rfl, rfl⟩ | ⟨-, found⟩
    · exact staged
    · exact orderly.staged other q found

theorem Orderly.onProposal {method}
    (keeps : ∀ p, p.state.Staged → (method p).2.state.Staged) : (self.onProposal id method).2.Orderly := by
  unfold GovernanceEngine.onProposal
  split
  · exact orderly
  · rename_i p known
    exact orderly.update known (keeps p (orderly.staged id p known))

theorem Orderly.checked {method}
    (keeps : ∀ p after, p.state.Staged → method p = .ok after → after.state.Staged) :
    (self.onProposal id (checked method)).2.Orderly :=
  orderly.onProposal fun p staged => @orUnchanged_keeps _ _ _ _ (fun p => p.state.Staged) p () staged
    fun after done => keeps p after staged done

theorem Orderly.submitProposal (proposal : Proposal) : (self.submitProposal proposal).2.Orderly := by
  unfold GovernanceEngine.submitProposal
  split
  · exact orderly
  rename_i fresh
  cases made : proposal.submit with
  | error e => exact orderly
  | ok submitted =>
    have is : submitted = { proposal with state := .pending } := by
      unfold submit at made
      split at made <;> cases made
      rfl
    subst is
    have unlisted : proposal.id ∉ self.proposalQueue := fun member => fresh ((orderly.listed _).mp member)
    refine ⟨?_, fun id => ?_, fun id p found => ?_⟩
    · exact nodup_append.mpr ⟨orderly.nodup, nodup_singleton _, fun id member other last same =>
        unlisted (mem_singleton.mp last ▸ same ▸ member)⟩
    · rw [mem_append, mem_singleton, mem_insert, orderly.listed, or_comm]
    · rcases lookup_insert_cases found with ⟨rfl, rfl⟩ | ⟨-, found⟩
      · exact .inl rfl
      · exact orderly.staged id p found

theorem Orderly.visit (id : String) : (self.visit orders epoch id).2.Orderly := by
  unfold GovernanceEngine.visit
  split
  · exact orderly
  · rename_i p known
    exact orderly.update known ((round_advance _ _ _ p).staged (orderly.staged id p known))

theorem Orderly.apply (call : GovernanceCall) : (call.apply self).Orderly := by
  cases call with
  | submitProposal proposal => exact orderly.submitProposal proposal
  | startVoting id epoch =>
    refine orderly.checked fun p after _ done => ?_
    unfold Proposal.startVoting at done
    split at done
    · cases done
    split at done <;> cases done
    exact .inr (.inl rfl)
  | castVote id vote epoch =>
    refine orderly.checked fun p after staged done => ?_
    unfold Proposal.castVote at done
    split at done
    · cases done
    split at done
    · cases done
    split at done <;> cases done
    exact staged
  | closeVoting order id epoch =>
    refine orderly.checked fun p after _ done => ?_
    obtain ⟨_, -, done⟩ := ok_of_bind done
    obtain ⟨_, -, done⟩ := ok_of_bind done
    obtain ⟨tally, -, done⟩ := ok_of_bind done
    cases done
    exact .inr (.inr (Proposal.settled_outcome tally))
  | executeProposal id epoch =>
    refine orderly.onProposal fun p staged => ?_
    unfold Proposal.execute
    split
    · exact staged
    split
    · exact staged
    · exact .inr (.inr (.inr rfl))
  | advanceEpoch orders epoch => exact inPlace_keeps (fun _ id kept => kept.visit id) _ orderly

end

theorem orderly_run (stake : U128) (calls : List GovernanceCall) : (run stake calls).Orderly :=
  foldlRecOn calls _ ⟨nodup_nil, by simp [new], by simp [new]⟩ fun _ orderly call _ => orderly.apply call

variable (engine : GovernanceEngine)

/-- What the loop reads of the engine in the round of an id. -/
def view (id : String) : Option Proposal × U128 :=
  (engine.proposals.lookup id, engine.totalNetworkStake)

/-- What the round of an id makes of it. -/
def change (orders : String → IterOrder) (epoch : U64) (id : String) :
    Option Proposal × U128 → Except GovernanceError Unit × Option Proposal × U128
  | (none, stake) => (.ok (), none, stake)
  | (some p, stake) => ((p.advance (orders id) epoch stake).1, some (p.advance (orders id) epoch stake).2, stake)

theorem visit_own (id : String) :
    ((engine.visit orders epoch id).1, (engine.visit orders epoch id).2.view id) =
      change orders epoch id (engine.view id) := by
  unfold visit view
  cases known : engine.proposals.lookup id with
  | none => simp only [known, change]
  | some p => simp only [lookup_insert, change]

theorem visit_others (id other : String) (differs : other ≠ id) :
    (engine.visit orders epoch id).2.view other = engine.view other := by
  unfold visit view
  split
  · rfl
  · rw [lookup_insert_ne differs]

theorem change_ok_iff :
    (change orders epoch id (self.view id)).1 = .ok () ↔
      ∀ q, self.proposals.lookup id = some q → ¬q.Executes (orders id) epoch self.totalNetworkStake := by
  unfold view
  cases self.proposals.lookup id with
  | none => simp [change]
  | some q => exact (round_advance _ _ _ q).ok_iff.trans ⟨fun idle _ found => by cases found; exact idle,
      fun all => all q rfl⟩

/-- A proposal of this queue part is executed by the epoch. -/
def Breaks (orders : String → IterOrder) (epoch : U64) (engine : GovernanceEngine) (ids : List String) : Prop :=
  ∃ id ∈ ids, ∃ q, engine.proposals.lookup id = some q ∧ q.Executes (orders id) epoch engine.totalNetworkStake

/-- A proposal goes through its round unless one before it in the queue is
executed; then it stays as it is. -/
theorem advanceEpoch_lookup (nodup : self.proposalQueue.Nodup) {before after}
    (queue : self.proposalQueue = before ++ id :: after) (known : self.proposals.lookup id = some p) :
    (¬self.Breaks orders epoch before ∧ (self.advanceEpoch orders epoch).2.proposals.lookup id =
        some (p.advance (orders id) epoch self.totalNetworkStake).2) ∨
      self.Breaks orders epoch before ∧ (self.advanceEpoch orders epoch).2.proposals.lookup id = some p := by
  have result (engine : GovernanceEngine) (id : String) :
      (engine.visit orders epoch id).1 = (change orders epoch id (engine.view id)).1 :=
    congrArg fst (visit_own engine id)
  have value (engine : GovernanceEngine) (id : String) :
      (engine.visit orders epoch id).2.view id = (change orders epoch id (engine.view id)).2 :=
    congrArg snd (visit_own engine id)
  rw [queue] at nodup
  have looked : self.view id = (some p, self.totalNetworkStake) := by rw [view, known]
  rw [advanceEpoch, queue]
  rcases inPlace_view result value visit_others nodup self with
    ⟨reached, same⟩ | ⟨⟨other, member, failed⟩, same⟩
  · refine .inl ⟨?_, ?_⟩
    · rintro ⟨other, member, q, found, executes⟩
      exact change_ok_iff.mp (reached other member) q found executes
    · rw [looked] at same
      exact congrArg fst same
  · refine .inr ⟨?_, ?_⟩
    · by_contra none
      exact failed (change_ok_iff.mpr fun q found executes => none ⟨other, member, q, found, executes⟩)
    · rw [looked] at same
      exact congrArg fst same

/-- The engine with one proposal alone in its queue. -/
def alone (id : String) : GovernanceEngine := { engine with proposalQueue := [id] }

theorem alone_lookup (known : self.proposals.lookup id = some p) :
    ((self.alone id).advanceEpoch orders epoch).2.proposals.lookup id =
      some (p.advance (orders id) epoch self.totalNetworkStake).2 := by
  rcases @advanceEpoch_lookup (self.alone id) orders epoch id p (nodup_singleton id) [] [] rfl known with
    ⟨-, found⟩ | ⟨⟨_, member, -⟩, -⟩
  · exact found
  · cases member

theorem advanceEpoch_lookup_none (unknown : self.proposals.lookup id = none) :
    (self.advanceEpoch orders epoch).2.proposals.lookup id = none := by
  have keeps (engine : GovernanceEngine) (other : String) (absent : engine.proposals.lookup id = none) :
      (engine.visit orders epoch other).2.proposals.lookup id = none := by
    by_cases same : id = other
    · subst same
      rw [visit, absent]
      exact absent
    · exact (congrArg fst (visit_others engine other id same)).trans absent
  exact inPlace_keeps keeps self.proposalQueue unknown

/-- The epoch settles every proposal whose window has ended and opens the vote
of every pending one whose window has started. -/
def Completes (orders : String → IterOrder) (epoch : U64) (engine : GovernanceEngine) : Prop :=
  (∀ id p, (engine.advanceEpoch orders epoch).2.proposals.lookup id = some p →
      p.votingWindow.endEpoch ≤ epoch → p.state.Settled) ∧
    ∀ id p, engine.proposals.lookup id = some p → p.state = .pending → p.votingWindow.startEpoch ≤ epoch →
      ∃ after, (engine.advanceEpoch orders epoch).2.proposals.lookup id = some after ∧ after.state.AtLeastVoting

/-- Every proposal comes to the state it comes to alone, whatever the order its
votes are counted in. -/
def Independent (orders : String → IterOrder) (epoch : U64) (engine : GovernanceEngine) : Prop :=
  ∀ id orders', ((engine.advanceEpoch orders epoch).2.proposals.lookup id).map state =
    (((engine.alone id).advanceEpoch orders' epoch).2.proposals.lookup id).map state

/-- No window ends at this epoch on a ballot without stake, or before it has
started. -/
def Countable (epoch : U64) (engine : GovernanceEngine) : Prop :=
  ∀ id p, engine.proposals.lookup id = some p → p.votingWindow.endEpoch ≤ epoch →
    p.state.Settled ∨ p.Ends epoch ∧ p.Counted

/-- No proposal that the epoch executes stands in the queue before one that the
epoch moves. -/
def Unblocked (orders : String → IterOrder) (epoch : U64) (engine : GovernanceEngine) : Prop :=
  ∀ before id after p, engine.proposalQueue = before ++ id :: after → engine.proposals.lookup id = some p →
    p.Moves epoch → ¬engine.Breaks orders epoch before

theorem Orderly.split (orderly : self.Orderly) (known : self.proposals.lookup id = some p) :
    ∃ before after, self.proposalQueue = before ++ id :: after :=
  append_of_mem ((orderly.listed id).mpr (lookup_isSome.mp (known ▸ rfl)))

theorem independent_iff (orderly : self.Orderly) : self.Independent orders epoch ↔ self.Unblocked orders epoch := by
  constructor
  · intro independent before id after p queue known moves breaks
    have same := independent id orders
    rw [alone_lookup known] at same
    rcases advanceEpoch_lookup orderly.nodup queue known with ⟨reached, -⟩ | ⟨-, found⟩
    · exact reached breaks
    · rw [found] at same
      exact (round_advance _ _ _ p).state_ne_iff.mpr moves (some.inj same).symm
  · intro unblocked id orders'
    cases known : self.proposals.lookup id with
    | none =>
      rw [advanceEpoch_lookup_none known, @advanceEpoch_lookup_none (self.alone id) orders' epoch id known]
    | some p =>
      obtain ⟨before, after, queue⟩ := orderly.split known
      rw [alone_lookup known, advance_order (orders' id) (orders id)]
      rcases advanceEpoch_lookup orderly.nodup queue known with ⟨-, found⟩ | ⟨breaks, found⟩
      · rw [found]
      rw [found]
      by_contra differs
      have changed : (p.advance (orders id) epoch self.totalNetworkStake).2.state ≠ p.state :=
        fun same => differs (congrArg some same.symm)
      exact unblocked before id after p queue known ((round_advance _ _ _ p).state_ne_iff.mp changed) breaks

/-- The state of a known proposal after an epoch that lets all of them through. -/
theorem Independent.state_eq (independent : self.Independent orders epoch) (known : self.proposals.lookup id = some p) :
    ∃ after, (self.advanceEpoch orders epoch).2.proposals.lookup id = some after ∧
      after.state = (p.advance (orders id) epoch self.totalNetworkStake).2.state := by
  have same := independent id orders
  rw [alone_lookup known] at same
  obtain ⟨after, found, state⟩ := map_eq_some_iff.mp same
  exact ⟨after, found, state⟩

theorem Orderly.known_of_found (orderly : self.Orderly) {after}
    (found : (self.advanceEpoch orders epoch).2.proposals.lookup id = some after) :
    ∃ p, self.proposals.lookup id = some p ∧ after.votingWindow = p.votingWindow := by
  cases known : self.proposals.lookup id with
  | none => cases (advanceEpoch_lookup_none known).symm.trans found
  | some p =>
    obtain ⟨before, rest, queue⟩ := orderly.split known
    rcases advanceEpoch_lookup orderly.nodup queue known with ⟨-, here⟩ | ⟨-, here⟩
    · cases here.symm.trans found
      exact ⟨p, rfl, (round_advance _ _ _ p).votingWindow⟩
    · exact ⟨p, rfl, congrArg votingWindow (some.inj (found.symm.trans here))⟩

/-- Where no proposal stands in the way of another, the epoch is complete
exactly if all ended ballots can be counted. -/
theorem completes_iff (orderly : self.Orderly) (independent : self.Independent orders epoch) :
    self.Completes orders epoch ↔ self.Countable epoch := by
  constructor
  · intro complete id p known ended
    obtain ⟨after, found, state⟩ := independent.state_eq known
    obtain ⟨q, known', window⟩ := orderly.known_of_found found
    obtain rfl : p = q := some.inj (known.symm.trans known')
    have settled := complete.1 id after found (window ▸ ended)
    rw [state] at settled
    exact ((round_advance _ _ _ p).settled_iff ended).mp settled
  · intro countable
    refine ⟨fun id after found ended => ?_, fun id p known pending started => ?_⟩
    · obtain ⟨p, known, window⟩ := orderly.known_of_found found
      rw [window] at ended
      obtain ⟨again, found', state⟩ := independent.state_eq known
      cases found.symm.trans found'
      rw [state]
      exact ((round_advance _ _ _ p).settled_iff ended).mpr (countable id p known ended)
    · obtain ⟨after, found, state⟩ := independent.state_eq known
      refine ⟨after, found, ?_⟩
      rw [state]
      exact (round_advance _ _ _ p).atLeastVoting ⟨pending, started⟩

/-- In any state an engine can come to, an epoch settles every ended vote, opens
every started one and brings each proposal where it would come alone, exactly
if no ballot that ends is empty and no proposal that is executed stands before
another that moves. -/
theorem epoch_complete_and_independent_iff (stake : U128) (calls : List GovernanceCall) (orders : String → IterOrder)
    (epoch : U64) :
    (run stake calls).Completes orders epoch ∧ (run stake calls).Independent orders epoch ↔
      (run stake calls).Countable epoch ∧ (run stake calls).Unblocked orders epoch := by
  have orderly := orderly_run stake calls
  rw [← independent_iff orderly]
  exact and_congr_left fun independent => completes_iff orderly independent

/-- A proposal to vote on in epochs 0 and 1, due at once. -/
def demoProposal (id : String) : Proposal := .new id ⟨0, 2⟩ 2 67 .recovery

def demoOrders : String → IterOrder := fun _ => .stored

/-- The ballot of the first proposal is empty. The second and the third have
been approved by all the stake. -/
def demoCalls : List GovernanceCall :=
  [.submitProposal (demoProposal "first"), .submitProposal (demoProposal "second"),
    .submitProposal (demoProposal "third"), .advanceEpoch demoOrders 0,
    .castVote "second" ⟨"v", true, 100⟩ 1, .castVote "third" ⟨"v", true, 100⟩ 1]

/-- The window of the first proposal has ended and it is still open; the second
fails in its execution, and the third is not closed for that, which alone it
would be. -/
theorem demoCalls_left_open :
    (((run 100 demoCalls).advanceEpoch demoOrders 2).2.proposals.lookup "first").map state = some .voting ∧
      (((run 100 demoCalls).advanceEpoch demoOrders 2).2.proposals.lookup "second").map state =
        some .rolledBack ∧
      (((run 100 demoCalls).advanceEpoch demoOrders 2).2.proposals.lookup "third").map state = some .voting ∧
      ((((run 100 demoCalls).alone "third").advanceEpoch demoOrders 2).2.proposals.lookup "third").map state =
        some .rolledBack ∧
      ¬(run 100 demoCalls).Completes demoOrders 2 ∧ ¬(run 100 demoCalls).Independent demoOrders 2 := by
  have first : (((run 100 demoCalls).advanceEpoch demoOrders 2).2.proposals.lookup "first").map
      (fun p => (p.state, p.votingWindow)) = some (.voting, ⟨0, 2⟩) := by decide +kernel
  have third : (((run 100 demoCalls).advanceEpoch demoOrders 2).2.proposals.lookup "third").map state =
      some .voting := by decide +kernel
  have alone : ((((run 100 demoCalls).alone "third").advanceEpoch demoOrders 2).2.proposals.lookup "third").map
      state = some .rolledBack := by decide +kernel
  refine ⟨by decide +kernel, by decide +kernel, third, alone, fun complete => ?_, fun independent => ?_⟩
  · obtain ⟨p, found, same⟩ := map_eq_some_iff.mp first
    have window : p.votingWindow = ⟨0, 2⟩ := congrArg snd same
    have settled := complete.1 "first" p found (by rw [window]; decide)
    exact settled.past.2 (congrArg fst same)
  · have same := independent "third" demoOrders
    rw [third, alone] at same
    cases same

end GovernanceEngine

end Bleep.Governance
