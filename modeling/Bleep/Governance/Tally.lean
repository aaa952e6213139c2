import Bleep.Governance.Core

namespace Bleep.Governance

open HashTable Words Results List BitVec

/-- The stake of the votes of one kind. -/
def stakeOf (approval : Bool) (votes : List Vote) : ℕ :=
  ((votes.filter fun vote => vote.approval = approval).map fun vote => vote.stake.toNat).sum

namespace Proposal

theorem toNat_countVotes (votes : List Vote) :
    (countVotes votes).1.toNat = min (stakeOf true votes) (2 ^ 128 - 1) ∧
    (countVotes votes).2.toNat = min (stakeOf false votes) (2 ^ 128 - 1) := by
  have general (sums : U128 × U128) :
      (votes.foldl countVote sums).1.toNat = min (sums.1.toNat + stakeOf true votes) (2 ^ 128 - 1) ∧
      (votes.foldl countVote sums).2.toNat = min (sums.2.toNat + stakeOf false votes) (2 ^ 128 - 1) := by
    induction votes generalizing sums with
    | nil =>
      simp only [foldl_nil, stakeOf, filter_nil, map_nil, sum_nil]
      omega
    | cons vote rest ih =>
      obtain ⟨approved, rejected⟩ := ih (countVote sums vote)
      rw [foldl_cons, approved, rejected]
      cases kind : vote.approval <;> simp [countVote, stakeOf, kind] <;> omega
  simpa [countVotes] using general (0, 0)

theorem countVotes_perm {votes votes'} (perm : votes.Perm votes') : countVotes votes = countVotes votes' := by
  have same (approval : Bool) : stakeOf approval votes = stakeOf approval votes' := ((perm.filter _).map _).sum_nat
  have here := toNat_countVotes votes
  rw [same, same, ← (toNat_countVotes votes').1, ← (toNat_countVotes votes').2] at here
  exact Prod.ext (eq_of_toNat_eq here.1) (eq_of_toNat_eq here.2)

variable (order : IterOrder) (epoch : U64) (network : U128) (self : Proposal)

/-- The stake that the recorded votes put on one side. -/
def stakeFor (approval : Bool) (self : Proposal) : ℕ := stakeOf approval ((pairs self.votes).map Prod.snd)

def participating : ℕ := self.stakeFor true + self.stakeFor false

/-- The state that the recorded votes ask for, given a rule for the quorum. -/
def decided (quorum : Prop) [Decidable quorum] : ProposalState :=
  if quorum then
    if self.approvalThreshold.toNat * self.participating ≤ 100 * self.stakeFor true then .awaitingExecution
    else .rejected
  else .expired

theorem decided_inj {quorum quorum' : Prop} [Decidable quorum] [Decidable quorum'] :
    self.decided quorum = self.decided quorum' ↔ (quorum ↔ quorum') := by
  unfold decided
  by_cases here : quorum <;> by_cases there : quorum' <;> simp only [here, there, if_true, if_false] <;> split <;> simp

/-- The tally has the exact share of approval while the product by 100 fits. Its
quorum is one unit of stake over the least that is more than a third. -/
theorem count_exact (within : self.participating ≤ network.toNat) (fits : 100 * self.stakeFor true < 2 ^ 128) :
    (self.participating = 0 ∧ self.count order network = .error "No votes cast") ∨
    0 < self.participating ∧ ∃ tally, self.count order network = .ok tally ∧
      outcome tally = self.decided (network.toNat / 3 + 1 < self.participating) := by
  have same : countVotes ((order.iter 0 self.votes).map Prod.snd) = countVotes ((pairs self.votes).map Prod.snd) :=
    countVotes_perm ((order.perm 0 _).map Prod.snd)
  obtain ⟨approved, rejected⟩ := toNat_countVotes ((pairs self.votes).map Prod.snd)
  rw [count, same]
  generalize countVotes ((pairs self.votes).map Prod.snd) = sums at approved rejected ⊢
  obtain ⟨approve, reject⟩ := sums
  have parts : self.participating = self.stakeFor true + self.stakeFor false := rfl
  have yes : approve.toNat = self.stakeFor true := approved.trans (min_eq_left (by change self.stakeFor true ≤ _; omega))
  have no : reject.toNat = self.stakeFor false := rejected.trans (min_eq_left (by change self.stakeFor false ≤ _; omega))
  have total : (saturatingAdd approve reject).toNat = self.participating := by
    rw [toNat_saturatingAdd]
    omega
  have zero : saturatingAdd approve reject = 0 ↔ self.participating = 0 := by
    rw [← total, ← toNat_inj]
    rfl
  simp only [VoteTally.compute, zero]
  by_cases cast : self.participating = 0
  · exact .inl ⟨cast, if_pos cast⟩
  have positive : 0 < self.participating := by omega
  have quorum : (network / 3 + 1).toNat = network.toNat / 3 + 1 := by
    exact Nat.mod_eq_of_lt (by change network.toNat / 3 + 1 < _; omega)
  have product : (approve * 100).toNat = 100 * self.stakeFor true := by
    rw [toNat_mul, yes, Nat.mul_comm]
    exact Nat.mod_eq_of_lt fits
  have share : ((approve * 100 / saturatingAdd approve reject).setWidth 64).toNat =
      100 * self.stakeFor true / self.participating := by
    have most : 100 * self.stakeFor true / self.participating ≤ 100 := Nat.div_le_of_le_mul (by omega)
    rw [toNat_setWidth, toNat_udiv, product, total]
    exact Nat.mod_eq_of_lt (by omega)
  refine .inr ⟨positive, _, if_neg cast, ?_⟩
  simp only [outcome, decided, lt_def, le_def, quorum, total, share, Nat.le_div_iff_mul_le positive]
  by_cases met : network.toNat / 3 + 1 < self.participating <;> simp [met]

/-- Closing the vote gives the state that the recorded votes ask for, without
an overflow, exactly when someone votes, the participation is not the least one
over a third, and the product by 100 fits. -/
theorem tally_exact_iff (voting : self.state = .voting) (closed : self.votingWindow.isClosed epoch = true)
    (within : self.participating ≤ network.toNat) :
    (100 * self.stakeFor true < 2 ^ 128 ∧ ∃ after, self.closeVoting order epoch network = .ok after ∧
      after.state = self.decided (network.toNat < 3 * self.participating)) ↔
    100 * self.stakeFor true < 2 ^ 128 ∧ 0 < self.participating ∧ self.participating ≠ network.toNat / 3 + 1 := by
  refine and_congr_right fun fits => ?_
  rw [closeVoting, ensure_of voting, ensure_of closed]
  rcases count_exact order network self within fits with ⟨none, refused⟩ | ⟨cast, tally, counted, state⟩
  · rw [refused]
    exact iff_of_false (fun ⟨_, done, _⟩ => by cases done) fun both => by omega
  rw [counted]
  have reached : (∃ after, Except.ok { self with tally := some tally, state := outcome tally } =
      (.ok after : Except GovernanceError Proposal) ∧ after.state = self.decided (network.toNat < 3 * self.participating)) ↔
        outcome tally = self.decided (network.toNat < 3 * self.participating) :=
    ⟨fun ⟨_, done, same⟩ => by cases done; exact same, fun same => ⟨_, rfl, same⟩⟩
  refine reached.trans ?_
  rw [state, decided_inj]
  omega

/-- A stake of 2 of 3 approves. -/
def wellSupported : Proposal := { Proposal.new "p" ⟨0, 2⟩ 5 50 .recovery with
  state := .voting
  votes := AList.singleton "a" ⟨"a", true, 2⟩ }

theorem full_support_counted :
    100 * wellSupported.stakeFor true < 2 ^ 128 ∧ ∃ after, wellSupported.closeVoting .stored 2 2 = .ok after ∧
      after.state = wellSupported.decided (2 < 3 * wellSupported.participating) :=
  (tally_exact_iff .stored 2 2 wellSupported rfl (by decide) (by decide)).mpr (by decide)

theorem quorum_boundary_expired :
    wellSupported.participating = 2 ∧ wellSupported.decided (3 < 3 * wellSupported.participating) = .awaitingExecution ∧
    (wellSupported.closeVoting .stored 2 3).toOption.map state = some .expired := by
  decide

end Proposal

end Bleep.Governance
