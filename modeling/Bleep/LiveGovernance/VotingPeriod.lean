import Bleep.LiveGovernance.Engine
import Bleep.Library.Runs
import Mathlib.Algebra.Order.BigOperators.Group.List
import Mathlib.Data.BitVec

namespace Bleep.LiveGovernance

open HashTable Results LiveGovernanceEngine LiveCall List BitVec Nat AList Function

/-- A vote that the engine has accepted. The proposal itself keeps no powers. -/
structure Ballot where
  voter : String
  vote : Vote
  power : U128

def power (counts : Vote → Bool) (ballots : List Ballot) : Nat :=
  (ballots.map fun ballot => if counts ballot.vote then ballot.power.toNat else 0).sum

/-- A veto counts as a vote against, too. -/
def countsAsNo : Vote → Bool
  | .no | .veto => true
  | _ => false

def participating (ballots : List Ballot) : Nat := power (fun _ => true) ballots

theorem participating_eq (ballots : List Ballot) :
    participating ballots = power (· == .yes) ballots + power countsAsNo ballots + power (· == .abstain) ballots := by
  unfold participating power
  induction ballots with
  | nil => rfl
  | cons ballot ballots ih =>
    simp only [map_cons, sum_cons, if_true] at ih ⊢
    rw [ih]
    cases ballot.vote <;> simp [countsAsNo] <;> omega

/-- The engine with the votes it has accepted for each id since the id was
issued. -/
structure Election where
  engine : LiveGovernanceEngine
  ballots : U64 → List Ballot

def LiveCall.record (engine : LiveGovernanceEngine) (ballots : U64 → List Ballot) : LiveCall → U64 → List Ballot
  | submit paramChange deposit =>
    if (engine.submit paramChange deposit).isOk then Function.update ballots engine.nextId [] else ballots
  | vote id voter v votingPower =>
    if (engine.vote id voter v votingPower).isOk then
      Function.update ballots id (ballots id ++ [⟨voter, v, votingPower⟩])
    else ballots
  | tally _ | execute _ | advanceBlock _ => ballots

namespace Election

def start (config : GovernanceConfig) (block : U64) : Election := ⟨.new config block, fun _ => []⟩

def step (self : Election) (call : LiveCall) : Election :=
  ⟨call.apply self.engine, call.record self.engine self.ballots⟩

def proposal (self : Election) (id : U64) : Option Proposal := self.engine.proposals.lookup id

/-- Everything a call can do to the proposal under an id and to its ballots. -/
inductive Effect (s : Election) (call : LiveCall) (id : U64) : Option Proposal → List Ballot → Prop
  | unchanged : Effect s call id (s.proposal id) (s.ballots id)
  | submitted {paramChange : Option GovernableParam} {deposit : U128} (is : call = .submit paramChange deposit)
      (issued : s.engine.nextId = id) (valid : ∀ param, paramChange = some param → param.validate = .ok ()) :
      Effect s call id (some (.new id paramChange (s.engine.currentBlock + s.engine.config.votingPeriodBlocks))) []
  | voted {p : Proposal} {voter : String} {vote : Vote} {votingPower : U128}
      (is : call = .vote id voter vote votingPower) (known : s.proposal id = some p) (active : p.state = .active)
      (first : voter ∉ p.voters) :
      Effect s call id (some (p.addVote voter vote votingPower)) (s.ballots id ++ [⟨voter, vote, votingPower⟩])
  | tallied {p : Proposal} (is : call = .tally id) (known : s.proposal id = some p) (active : p.state = .active) :
      Effect s call id (some { p with state := p.verdict s.engine.config }) (s.ballots id)
  | executed {p : Proposal} (is : call = .execute id) (known : s.proposal id = some p) (passed : p.state = .passed)
      (txHash : String) :
      Effect s call id (some { p with executionTx := some txHash, state := .executed }) (s.ballots id)

end Election

theorem Proposal.addVote_state (p : Proposal) (voter : String) (vote : Vote) (votingPower : U128) :
    (p.addVote voter vote votingPower).state = p.state := by
  cases vote <;> rfl

open Proposal

theorem Proposal.verdict_cases (config : GovernanceConfig) (p : Proposal) :
    p.verdict config = .passed ∨ p.verdict config = .rejected ∨ p.verdict config = .vetoed := by
  unfold verdict
  split
  · exact .inr (.inl rfl)
  split
  · exact .inr (.inr rfl)
  · split
    · exact .inl rfl
    · exact .inr (.inl rfl)

namespace LiveGovernanceEngine

variable {self after : LiveGovernanceEngine} {id : U64}

theorem submit_ok {paramChange deposit} (done : self.submit paramChange deposit = .ok (id, after)) :
    id = self.nextId ∧ (∀ param, paramChange = some param → param.validate = .ok ()) ∧
      after = { self with
        proposals := self.proposals.insert self.nextId
          (.new self.nextId paramChange (self.currentBlock + self.config.votingPeriodBlocks))
        nextId := self.nextId + 1 } := by
  obtain ⟨_, -, done⟩ := ok_of_bind done
  obtain ⟨_, checked, done⟩ := ok_of_bind done
  cases done
  refine ⟨rfl, ?_, rfl⟩
  rintro param rfl
  exact ok_of_mapError checked

theorem vote_ok {voter vote votingPower} (done : self.vote id voter vote votingPower = .ok after) :
    ∃ p, self.proposals.lookup id = some p ∧ p.state = .active ∧ voter ∉ p.voters ∧
      after = { self with proposals := self.proposals.insert id (p.addVote voter vote votingPower) } := by
  obtain ⟨p, known, done⟩ := ok_of_bind done
  obtain ⟨_, active, done⟩ := ok_of_bind done
  obtain ⟨_, -, done⟩ := ok_of_bind done
  obtain ⟨_, first, done⟩ := ok_of_bind done
  cases done
  exact ⟨p, ok_of_okOr known, ok_of_ensure active, ok_of_ensure first, rfl⟩

theorem tally_active {p} (known : self.proposals.lookup id = some p) (active : p.state = .active) :
    self.tally id = .ok (p.verdict self.config,
      { self with proposals := self.proposals.insert id { p with state := p.verdict self.config } }) := by
  rw [tally, known]
  change (if p.state ≠ .active then _ else _) = _
  rw [if_neg (not_not.mpr active)]
  rfl

theorem tally_ok {state} (done : self.tally id = .ok (state, after)) :
    after = self ∨ ∃ p, self.proposals.lookup id = some p ∧ p.state = .active ∧
      after = { self with proposals := self.proposals.insert id { p with state := p.verdict self.config } } := by
  obtain ⟨p, known, rest⟩ := ok_of_bind done
  by_cases active : p.state = .active
  · cases (tally_active (ok_of_okOr known) active).symm.trans done
    exact .inr ⟨p, ok_of_okOr known, active, rfl⟩
  · change (if p.state ≠ .active then _ else _) = _ at rest
    rw [if_pos active] at rest
    cases rest
    exact .inl rfl

theorem execute_ok {result} (done : self.execute id = .ok (result, after)) :
    ∃ p txHash, self.proposals.lookup id = some p ∧ p.state = .passed ∧
      after = { self with
        proposals := self.proposals.insert id { p with executionTx := some txHash, state := .executed } } := by
  obtain ⟨p, known, done⟩ := ok_of_bind done
  obtain ⟨_, passed, done⟩ := ok_of_bind done
  cases done
  exact ⟨p, _, ok_of_okOr known, ok_of_ensure passed, rfl⟩

end LiveGovernanceEngine

namespace Election

/-- A call leaves all proposals as they are or stores one of them. -/
theorem step_cases (s : Election) (call : LiveCall) :
    (s.step call).engine.config = s.engine.config ∧
      (((s.step call).engine.proposals = s.engine.proposals ∧ (s.step call).ballots = s.ballots) ∨
        ∃ key q list, (s.step call).engine.proposals = s.engine.proposals.insert key q ∧
          (s.step call).ballots = Function.update s.ballots key list ∧ Effect s call key (some q) list) := by
  have kept (key : U64) : s.ballots = update s.ballots key (s.ballots key) :=
    (update_eq_self key s.ballots).symm
  cases call with
  | submit paramChange deposit =>
    rw [step, apply, record]
    cases done : s.engine.submit paramChange deposit with
    | error e => exact ⟨rfl, .inl ⟨rfl, rfl⟩⟩
    | ok result =>
      obtain ⟨issued, after⟩ := result
      obtain ⟨rfl, valid, rfl⟩ := submit_ok done
      exact ⟨rfl, .inr ⟨_, _, _, rfl, rfl, .submitted rfl rfl valid⟩⟩
  | vote key voter vote votingPower =>
    rw [step, apply, record]
    cases done : s.engine.vote key voter vote votingPower with
    | error e => exact ⟨rfl, .inl ⟨rfl, rfl⟩⟩
    | ok after =>
      obtain ⟨p, known, active, first, rfl⟩ := vote_ok done
      exact ⟨rfl, .inr ⟨_, _, _, rfl, rfl, .voted rfl known active first⟩⟩
  | tally key =>
    rw [step, apply, record]
    cases done : s.engine.tally key with
    | error e => exact ⟨rfl, .inl ⟨rfl, rfl⟩⟩
    | ok result =>
      obtain ⟨state, after⟩ := result
      rcases tally_ok done with rfl | ⟨p, known, active, rfl⟩
      · exact ⟨rfl, .inl ⟨rfl, rfl⟩⟩
      · exact ⟨rfl, .inr ⟨_, _, _, rfl, kept key, .tallied rfl known active⟩⟩
  | execute key =>
    rw [step, apply, record]
    cases done : s.engine.execute key with
    | error e => exact ⟨rfl, .inl ⟨rfl, rfl⟩⟩
    | ok result =>
      obtain ⟨result, after⟩ := result
      obtain ⟨p, txHash, known, passed, rfl⟩ := execute_ok done
      exact ⟨rfl, .inr ⟨_, _, _, rfl, kept key, .executed rfl known passed txHash⟩⟩
  | advanceBlock blocks => exact ⟨rfl, .inl ⟨rfl, rfl⟩⟩

theorem effect_step (s : Election) (call : LiveCall) (id : U64) :
    Effect s call id ((s.step call).proposal id) ((s.step call).ballots id) := by
  unfold proposal
  rcases (step_cases s call).2 with ⟨proposals, ballots⟩ | ⟨key, q, list, proposals, ballots, own⟩
  · rw [proposals, ballots]
    exact .unchanged
  · rw [proposals, ballots]
    by_cases same : id = key
    · subst same
      rw [lookup_insert, update_self]
      exact own
    · rw [lookup_insert_ne same, update_of_ne same]
      exact .unchanged

end Election

section Tallies
variable {p : Proposal} {ballots : List Ballot} {voter : String} {vote : Vote} {votingPower : U128}

/-- The running totals of a proposal and its voters are those of its ballots,
each voter's once; and its change passes the check. The totals wrap. -/
structure Sound (p : Proposal) (ballots : List Ballot) : Prop where
  once : (ballots.map Ballot.voter).Nodup
  voters : ∀ voter vote, p.voters.lookup voter = some vote ↔ ∃ power, ⟨voter, vote, power⟩ ∈ ballots
  yes : p.yesVotes.toNat = power (· == .yes) ballots % 2 ^ 128
  no : p.noVotes.toNat = power countsAsNo ballots % 2 ^ 128
  abstain : p.abstainVotes.toNat = power (· == .abstain) ballots % 2 ^ 128
  veto : p.vetoVotes.toNat = power (· == .veto) ballots % 2 ^ 128
  valid : ∀ param, p.paramChange = some param → param.validate = .ok ()

theorem total_append {counts total after} (before : total.toNat = power counts ballots % 2 ^ 128)
    (added : after = if counts vote then total + votingPower else total) :
    after.toNat = power counts (ballots ++ [⟨voter, vote, votingPower⟩]) % 2 ^ 128 := by
  have sum : power counts (ballots ++ [⟨voter, vote, votingPower⟩]) =
      power counts ballots + if counts vote then votingPower.toNat else 0 := by simp [power]
  rw [sum, added]
  cases counts vote with
  | false => exact before
  | true =>
    rw [if_pos rfl, if_pos rfl, toNat_add, before]
    exact mod_add_mod _ _ _

theorem Sound.addVote (sound : Sound p ballots) (first : voter ∉ p.voters) :
    Sound (p.addVote voter vote votingPower) (ballots ++ [⟨voter, vote, votingPower⟩]) := by
  have unseen : voter ∉ ballots.map Ballot.voter := by
    intro member
    obtain ⟨⟨_, vote, power⟩, listed, rfl⟩ := mem_map.mp member
    exact first (lookup_isSome.mp (((sound.voters _ vote).mpr ⟨power, listed⟩) ▸ rfl))
  refine ⟨?_, fun other v => ?_, total_append sound.yes ?_, total_append sound.no ?_, total_append sound.abstain ?_,
    total_append sound.veto ?_, ?_⟩
  · rw [map_append, map_singleton]
    refine nodup_append.mpr ⟨sound.once, nodup_singleton _, fun a member b last same => ?_⟩
    have is : a = voter := same.trans (mem_singleton.mp last)
    exact unseen (is ▸ member)
  · have inserted : (p.addVote voter vote votingPower).voters = p.voters.insert voter vote := by
      cases vote <;> rfl
    rw [inserted]
    by_cases same : other = voter
    · subst same
      rw [lookup_insert]
      constructor
      · rintro ⟨⟩
        exact ⟨votingPower, mem_append_right _ mem_cons_self⟩
      · rintro ⟨power, member⟩
        rcases mem_append.mp member with earlier | last
        · exact absurd (mem_map_of_mem earlier) unseen
        cases mem_singleton.mp last
        rfl
    · rw [lookup_insert_ne same, sound.voters]
      constructor
      · rintro ⟨power, member⟩
        exact ⟨power, mem_append_left _ member⟩
      · rintro ⟨power, member⟩
        rcases mem_append.mp member with earlier | last
        · exact ⟨power, earlier⟩
        · cases mem_singleton.mp last
          exact absurd rfl same
  · cases vote <;> rfl
  · cases vote <;> rfl
  · cases vote <;> rfl
  · cases vote <;> rfl
  · cases vote <;> exact sound.valid

/-- The shares the claim of a passed proposal speaks of, without rounding. -/
structure Fair (config : GovernanceConfig) (ballots : List Ballot) : Prop where
  quorum : config.totalStaked.toNat * config.quorumBps.toNat ≤ participating ballots * 10000
  yes : participating ballots * config.thresholdBps.toNat < power (· == .yes) ballots * 10000
  veto : power (· == .veto) ballots * 10000 ≤ participating ballots * config.vetoThresholdBps.toNat

/-- The tally's arithmetic is exact: no sum and no product wraps, and the quorum
is a whole number. -/
structure Exact (config : GovernanceConfig) (ballots : List Ballot) : Prop where
  total : participating ballots < 2 ^ 128
  quorum : config.totalStaked.toNat * config.quorumBps.toNat < 2 ^ 128
  threshold : participating ballots * config.thresholdBps.toNat < 2 ^ 128
  veto : participating ballots * config.vetoThresholdBps.toNat < 2 ^ 128
  whole : 10000 ∣ config.totalStaked.toNat * config.quorumBps.toNat

theorem toNat_share {amount bps} (fits : amount.toNat * bps.toNat < 2 ^ 128) :
    (share amount bps).toNat = amount.toNat * bps.toNat / 10000 := by
  have wide : (bps.setWidth 128).toNat = bps.toNat := by
    rw [toNat_setWidth]
    omega
  rw [share, toNat_udiv, toNat_mul, wide, mod_eq_of_lt fits]
  rfl

theorem power_le_participating (counts : Vote → Bool) (ballots : List Ballot) :
    power counts ballots ≤ participating ballots := by
  refine sum_le_sum fun ballot _ => ?_
  split
  · exact (if_pos rfl).ge
  · exact zero_le _

theorem Sound.toNat_totalVotes (sound : Sound p ballots) (fits : participating ballots < 2 ^ 128) :
    p.totalVotes.toNat = participating ballots := by
  have parts := participating_eq ballots
  rw [totalVotes, toNat_add, toNat_add, sound.yes, sound.no, sound.abstain]
  omega

/-- A proposal that is passed with exact arithmetic is passed fairly. -/
theorem Sound.fair (sound : Sound p ballots) {config} (exact : Exact config ballots)
    (passed : p.verdict config = .passed) : Fair config ballots := by
  have total := sound.toNat_totalVotes exact.total
  have quorumShare := toNat_share exact.quorum
  have thresholdShare := toNat_share (total.symm ▸ exact.threshold)
  have vetoShare := toNat_share (total.symm ▸ exact.veto)
  have yes : p.yesVotes.toNat = power (· == .yes) ballots :=
    sound.yes.trans (mod_eq_of_lt ((power_le_participating _ _).trans_lt exact.total))
  have veto : p.vetoVotes.toNat = power (· == .veto) ballots :=
    sound.veto.trans (mod_eq_of_lt ((power_le_participating _ _).trans_lt exact.total))
  have whole := exact.whole
  rw [total] at thresholdShare vetoShare
  unfold verdict at passed
  split at passed
  · cases passed
  rename_i reached
  split at passed
  · cases passed
  rename_i tolerated
  split at passed
  · rename_i exceeded
    rw [lt_def, total, quorumShare] at reached
    rw [lt_def, vetoShare, veto] at tolerated
    rw [lt_def, thresholdShare, yes] at exceeded
    exact ⟨by omega, by omega, by omega⟩
  · cases passed

end Tallies

namespace Election

/-- All proposals agree with their ballots. -/
def Counted (s : Election) : Prop := ∀ id p, s.proposal id = some p → Sound p (s.ballots id)

theorem counted_start (config : GovernanceConfig) (block : U64) : (start config block).Counted := by
  intro id p known
  cases known

section Effects
variable {s : Election} {call : LiveCall} {id : U64} {stored : Option Proposal} {list : List Ballot} {p : Proposal}

section
variable (effect : Effect s call id stored list)
include effect

theorem Effect.sound (sound : s.Counted) (is : stored = some p) : Sound p list := by
  cases effect with
  | unchanged => exact sound id p is
  | submitted _ _ valid =>
    cases is
    exact ⟨nodup_nil, by simp [Proposal.new], rfl, rfl, rfl, rfl, valid⟩
  | voted _ known _ first =>
    cases is
    exact (sound id _ known).addVote first
  | tallied _ known _ =>
    cases is
    exact { sound id _ known with }
  | executed _ known _ _ =>
    cases is
    exact { sound id _ known with }

/-- A proposal is executed from Passed only. -/
theorem Effect.executed_of (is : stored = some p) (executed : p.state = .executed) :
    ∃ q, s.proposal id = some q ∧ (q.state = .executed ∨ q.state = .passed) ∧ q.paramChange = p.paramChange := by
  cases effect with
  | unchanged => exact ⟨p, is, .inl executed, rfl⟩
  | submitted =>
    cases is
    cases executed
  | voted _ known active =>
    cases is
    rw [addVote_state, active] at executed
    cases executed
  | @tallied q _ known _ =>
    cases is
    rcases q.verdict_cases s.engine.config with is | is | is
    all_goals cases is.symm.trans executed
  | executed _ known passed _ =>
    cases is
    exact ⟨_, known, .inr passed, rfl⟩

/-- A proposal comes to Passed by a tally only. -/
theorem Effect.passed_of (is : stored = some p) (passed : p.state = .passed) :
    (∃ q, s.proposal id = some q ∧ q.state = .passed) ∨
      ∃ q, call = .tally id ∧ s.proposal id = some q ∧ q.state = .active ∧ q.verdict s.engine.config = .passed := by
  cases effect with
  | unchanged => exact .inl ⟨p, is, passed⟩
  | submitted =>
    cases is
    cases passed
  | voted _ known active =>
    cases is
    rw [addVote_state, active] at passed
    cases passed
  | @tallied q called known active =>
    cases is
    exact .inr ⟨q, called, known, active, passed⟩
  | executed =>
    cases is
    cases passed

end

/-- A proposal that is not active does not become so, unless its id is issued
again. -/
theorem Effect.closed (effect : Effect s call id stored list) {q} (known : s.proposal id = some q)
    (closed : q.state ≠ .active) (unissued : ∀ paramChange deposit, call = .submit paramChange deposit → s.engine.nextId ≠ id) :
    ∃ p, stored = some p ∧ p.state ≠ .active := by
  cases effect with
  | unchanged => exact ⟨q, known, closed⟩
  | submitted is issued => exact absurd issued (unissued _ _ is)
  | voted _ known' active =>
    cases known.symm.trans known'
    exact absurd active closed
  | tallied _ known' active =>
    cases known.symm.trans known'
    exact absurd active closed
  | executed => exact ⟨_, rfl, ProposalState.noConfusion⟩

/-- Nothing but a new issue of its id touches a proposal that is decided. -/
theorem Effect.decided (effect : Effect s call id stored list) (known : s.proposal id = some p)
    (closed : p.state ≠ .active) (unpassed : p.state ≠ .passed)
    (unissued : ∀ paramChange deposit, call = .submit paramChange deposit → s.engine.nextId ≠ id) :
    stored = some p ∧ list = s.ballots id := by
  cases effect with
  | unchanged => exact ⟨known, rfl⟩
  | submitted is issued => exact absurd issued (unissued _ _ is)
  | voted _ known' active | tallied _ known' active =>
    cases known.symm.trans known'
    exact absurd active closed
  | executed _ known' passed =>
    cases known.symm.trans known'
    exact absurd passed unpassed

/-- A proposal leaves Active by a tally only. -/
theorem Effect.leaves (effect : Effect s call id stored list) {q} (known : s.proposal id = some q)
    (active : q.state = .active) (is : stored = some p) (left : p.state ≠ .active) : call = .tally id := by
  cases effect with
  | unchanged =>
    cases known.symm.trans is
    exact absurd active left
  | submitted =>
    cases is
    exact absurd rfl left
  | voted _ known' active' =>
    cases is
    exact absurd ((addVote_state ..).trans active') left
  | tallied called => exact called
  | executed _ known' passed =>
    cases known.symm.trans known'
    cases active.symm.trans passed

end Effects

section Runs
variable (config : GovernanceConfig) (block : U64) (calls : List LiveCall)

/-- The election after `n` calls. -/
def after (n : Nat) : Election := (calls.take n).foldl step (start config block)

/-- The id is given out again, which takes all other ids to be given out first. -/
def Reissued (m n : Nat) (id : U64) : Prop :=
  ∃ k paramChange deposit, m ≤ k ∧ k < n ∧ calls[k]? = some (.submit paramChange deposit) ∧
    (after config block calls k).engine.nextId = id

variable {config block calls} {n : Nat} {id : U64} {p : Proposal}

theorem after_succ {call} (here : calls[n]? = some call) :
    after config block calls (n + 1) = (after config block calls n).step call := Runs.foldl_take_succ here

theorem after_stop (ended : calls[n]? = none) : after config block calls (n + 1) = after config block calls n :=
  Runs.foldl_take_stop ended

theorem config_after (n : Nat) : (after config block calls n).engine.config = config :=
  Runs.foldl_take_mono (fun s call same => (step_cases s call).1.trans same) (zero_le n) rfl

theorem sound_after (n : Nat) : (after config block calls n).Counted :=
  Runs.foldl_take_mono (fun s call sound id _ known => (effect_step s call id).sound sound known) (zero_le n)
    (counted_start config block)

theorem executed_after_passed (known : (after config block calls n).proposal id = some p) (executed : p.state = .executed) :
    ∃ m q, m < n ∧ (after config block calls m).proposal id = some q ∧ q.state = .passed ∧
      q.paramChange = p.paramChange := by
  obtain ⟨m, -, less, call, -, fresh, r, known, executed, same⟩ := @Runs.exists_turn _ _ _ _ _ (fun s : Election =>
    ∃ q, s.proposal id = some q ∧ q.state = .executed ∧ q.paramChange = p.paramChange) 0 n (zero_le n)
    (by rintro ⟨q, ⟨⟩, -⟩) ⟨p, known, executed, rfl⟩
  obtain ⟨q, found, executed' | passed, same'⟩ := (effect_step _ call id).executed_of known executed
  · exact absurd ⟨q, found, executed', same'.trans same⟩ fresh
  · exact ⟨m, q, less, found, passed, same'.trans same⟩

theorem passed_at_tally (known : (after config block calls n).proposal id = some p) (passed : p.state = .passed) :
    ∃ m q, m < n ∧ calls[m]? = some (.tally id) ∧ (after config block calls m).proposal id = some q ∧
      q.state = .active ∧ q.verdict config = .passed := by
  obtain ⟨m, -, less, call, here, fresh, r, known, passed⟩ := @Runs.exists_turn _ _ _ _ _ (fun s : Election =>
    ∃ q, s.proposal id = some q ∧ q.state = .passed) 0 n (zero_le n) (by rintro ⟨q, ⟨⟩, -⟩) ⟨p, known, passed⟩
  rcases (effect_step _ call id).passed_of known passed with earlier | ⟨q, rfl, found, active, verdict⟩
  · exact absurd earlier fresh
  · rw [← after, config_after] at verdict
    exact ⟨m, q, less, here, found, active, verdict⟩

theorem stays_closed {m} (le : m ≤ n) (known : (after config block calls m).proposal id = some p)
    (closed : p.state ≠ .active) (once : ¬Reissued config block calls m n id) :
    ∃ q, (after config block calls n).proposal id = some q ∧ q.state ≠ .active := by
  refine @Runs.foldl_take_keeps _ _ _ _ _ (fun s : Election => ∃ q, s.proposal id = some q ∧ q.state ≠ .active) m n le
    ⟨p, known, closed⟩ fun k call lower upper here held => ?_
  obtain ⟨q, found, closed'⟩ := held
  refine (effect_step _ call id).closed found closed' fun paramChange deposit is issued => ?_
  exact once ⟨k, paramChange, deposit, lower, upper, is ▸ here, issued⟩

/-- Every proposal is Active until its last block. -/
def LeavesAtEnd (config : GovernanceConfig) (block : U64) (calls : List LiveCall) : Prop :=
  ∀ n id p q, (after config block calls n).proposal id = some p → p.state = .active →
    (after config block calls (n + 1)).proposal id = some q → q.state ≠ .active →
      p.votingEndBlock ≤ (after config block calls n).engine.currentBlock

/-- No active proposal is tallied before its last block. -/
def TalliedAtEnd (config : GovernanceConfig) (block : U64) (calls : List LiveCall) : Prop :=
  ∀ n id p, calls[n]? = some (.tally id) → (after config block calls n).proposal id = some p → p.state = .active →
    p.votingEndBlock ≤ (after config block calls n).engine.currentBlock

theorem leavesAtEnd_iff : LeavesAtEnd config block calls ↔ TalliedAtEnd config block calls := by
  constructor
  · intro leaves n id p here known active
    have tallied := tally_active known active
    have stored : (after config block calls (n + 1)).proposal id =
        some { p with state := p.verdict (after config block calls n).engine.config } := by
      rw [after_succ here, step, apply, tallied]
      exact lookup_insert _
    refine leaves n id p _ known active stored fun still => ?_
    rcases p.verdict_cases (after config block calls n).engine.config with is | is | is
    all_goals cases is.symm.trans still
  · intro tallied n id p q known active found left
    cases here : calls[n]? with
    | none =>
      rw [after_stop here] at found
      cases known.symm.trans found
      exact absurd active left
    | some call =>
      rw [after_succ here] at found
      cases (effect_step _ call id).leaves known active found left
      exact tallied n id p here known active

end Runs

/-- In every run: each voter is counted once, and every stored change has passed
the check; a proposal is executed after it was passed, and passed by a tally of
its ballots, fairly where the arithmetic is exact; no vote is accepted once it
has left Active; and it leaves Active no earlier than its last block exactly if
it is not tallied earlier, which the engine does not prevent. -/
theorem live_voting_period (config : GovernanceConfig) (block : U64) (calls : List LiveCall) :
    (∀ n, (after config block calls n).Counted) ∧
      (∀ n id p, (after config block calls n).proposal id = some p → p.state = .executed →
        ∃ m q, m < n ∧ (after config block calls m).proposal id = some q ∧ q.state = .passed ∧
          q.paramChange = p.paramChange) ∧
      (∀ n id p, (after config block calls n).proposal id = some p → p.state = .passed →
        ∃ m q, m < n ∧ calls[m]? = some (.tally id) ∧ (after config block calls m).proposal id = some q ∧
          q.state = .active ∧
            (Exact config ((after config block calls m).ballots id) →
              Fair config ((after config block calls m).ballots id))) ∧
      (∀ m n id p, m ≤ n → (after config block calls m).proposal id = some p → p.state ≠ .active →
        ¬Reissued config block calls m n id → ∀ voter vote votingPower engine,
          (after config block calls n).engine.vote id voter vote votingPower ≠ .ok engine) ∧
      (LeavesAtEnd config block calls ↔ TalliedAtEnd config block calls) := by
  refine ⟨sound_after, fun n id p known executed => executed_after_passed known executed,
    fun n id p known passed => ?_, fun m n id p le known closed once voter vote votingPower engine accepted => ?_,
    leavesAtEnd_iff⟩
  · obtain ⟨m, q, before, here, found, active, verdict⟩ := passed_at_tally known passed
    exact ⟨m, q, before, here, found, active, fun exact => (sound_after m id q found).fair exact verdict⟩
  · obtain ⟨q, found, closed'⟩ := stays_closed le known closed once
    obtain ⟨q', found', active, -⟩ := vote_ok accepted
    cases found.symm.trans found'
    exact closed' active

/-- A voting period of 1000 blocks, no deposit, and a quorum of one basis point. -/
def demoConfig (totalStaked : U128) : GovernanceConfig := ⟨1000, 1, 5000, 5000, 0, totalStaked⟩

/-- Voted, tallied and executed in the block of its submission. -/
def demoEarly : List LiveCall := [.submit none 0, .vote 1 "v" .yes 1, .tally 1, .execute 1]

/-- Two votes against, whose powers add up to `2 ^ 128`, and one in favour. -/
def demoWrapped : List LiveCall :=
  [.submit none 0, .vote 1 "u" .no (2 ^ 127), .vote 1 "v" .no (2 ^ 127), .vote 1 "w" .yes 1, .advanceBlock 1000, .tally 1]

def demoState (totalStaked : U128) (calls : List LiveCall) (n : Nat) : Option ProposalState :=
  ((after (demoConfig totalStaked) 0 calls n).proposal 1).map state

/-- A proposal is passed and executed 1000 blocks early, and just below a quorum
that is not a whole number; one is passed against nearly all the power, since
the votes against wrap. -/
theorem demo_passed_early :
    demoState 10001 demoEarly 3 = some .passed ∧ demoState 10001 demoEarly 4 = some .executed ∧
      ¬LeavesAtEnd (demoConfig 10001) 0 demoEarly ∧
      ¬Fair (demoConfig 10001) ((after (demoConfig 10001) 0 demoEarly 2).ballots 1) ∧
      demoState 0 demoWrapped 6 = some .passed ∧
      ¬Fair (demoConfig 0) ((after (demoConfig 0) 0 demoWrapped 5).ballots 1) := by
  have early : ((after (demoConfig 10001) 0 demoEarly 2).proposal 1).map
      (fun p => (p.state, p.votingEndBlock)) = some (.active, 1000) := by decide +kernel
  refine ⟨by decide +kernel, by decide +kernel, fun leaves => ?_, fun fair => ?_, by decide +kernel, fun fair => ?_⟩
  · obtain ⟨p, known, is⟩ := Option.map_eq_some_iff.mp early
    have window := leavesAtEnd_iff.mp leaves 2 1 p rfl known (congrArg Prod.fst is)
    rw [show p.votingEndBlock = 1000 from congrArg Prod.snd is] at window
    exact absurd window (by decide +kernel)
  · have quorum := fair.quorum
    revert quorum
    decide +kernel
  · have yes := fair.yes
    revert yes
    decide +kernel

end Election

end Bleep.LiveGovernance
