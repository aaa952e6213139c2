import Bleep.Pat.SupplyRuns

namespace Bleep.Pat

open HashTable Words Results PATRegistry

namespace PATCall

variable {codec : PATCodec} {self : PATRegistry} {call : PATCall} {outcome : PATOutcome}

/-- A transfer whose sender is debited and that fails after it. -/
def MoveBreaksOff (token : PATToken) (ledger : TokenLedger) («to» : Address) (amount : U128) : Prop :=
  amount.toNat ≤ 2 ^ 127 ∧ (¬ ledger.Books «to» (amount - token.transferBurnAmount amount) ∨
    2 ^ 128 ≤ token.totalBurned.toNat + (token.transferBurnAmount amount).toNat)

/-- The first balance can be booked, and a later part of the diff cannot. -/
def BreaksOff (token : PATToken) (ledger : TokenLedger) : PATIntentKind → Prop
  | .mint i => i.amount.toNat < 2 ^ 127 ∧ ledger.Books i.to i.amount ∧
      2 ^ 128 ≤ token.currentSupply.toNat + i.amount.toNat
  | .burn i => i.amount.toNat ≤ 2 ^ 127 ∧ 2 ^ 128 ≤ token.totalBurned.toNat + i.amount.toNat
  | .transfer i => MoveBreaksOff token ledger i.to i.amount
  | .transferFrom i => MoveBreaksOff token ledger i.to i.amount
  | _ => False

/-- The intent is admitted and breaks off half-way. -/
def Torn (codec : PATCodec) (self : PATRegistry) (call : PATCall) : Prop :=
  ∃ outcome token ledger, self.admitted codec call.now call.intent = .ok outcome ∧
    self.tokens.lookup call.intent.kind.symbol = some token ∧
    self.ledgers.lookup call.intent.kind.symbol = some ledger ∧ BreaksOff token ledger call.intent.kind

/-- A failure leaves the registry as it was. -/
def Atomic (codec : PATCodec) (self : PATRegistry) (call : PATCall) : Prop :=
  ∀ error, call.result codec self = .error error → call.apply codec self = self

theorem atomic_of_success (done : ∃ outcome, call.result codec self = .ok outcome) : call.Atomic codec self := by
  intro error failed
  obtain ⟨outcome, done⟩ := done
  cases done.symm.trans failed

theorem atomic_of_stopped (stopped : call.Stopped codec self) : call.Atomic codec self := fun _ _ => stopped.2

variable {symbol : String} {ledger : TokenLedger} {token : PATToken}

/-- Where a balance has moved, only a success is atomic. -/
theorem atomic_iff_of_moved {address}
    (moved : (call.apply codec self).balanceOf symbol address ≠ self.balanceOf symbol address) :
    call.Atomic codec self ↔ ∃ outcome, call.result codec self = .ok outcome := by
  refine ⟨fun atomic => ?_, atomic_of_success⟩
  cases result : call.result codec self with
  | error error =>
    rw [atomic error result] at moved
    exact absurd rfl moved
  | ok outcome => exact ⟨outcome, rfl⟩

theorem torn_iff {kind} (is : call.intent.kind = kind) (accepted : call.Admits codec self outcome)
    (known : self.tokens.lookup kind.symbol = some token) (found : self.ledgers.lookup kind.symbol = some ledger) :
    call.Torn codec self ↔ BreaksOff token ledger kind := by
  subst is
  constructor
  · rintro ⟨_, token', ledger', -, known', found', breaks⟩
    cases known.symm.trans known'
    cases found.symm.trans found'
    exact breaks
  · exact fun breaks => ⟨outcome, token, ledger, accepted, known, found, breaks⟩

theorem mint_atomic_iff {i} (is : call.intent.kind = .mint i) (accepted : call.Admits codec self outcome) :
    call.Atomic codec self ↔ ¬ call.Torn codec self := by
  obtain ⟨positive, ⟨token, known, -⟩, parts⟩ := admitted_mint accepted is
  cases found : self.ledgers.lookup i.symbol with
  | none =>
    have refused : ∃ error, orUnchanged applyBalance self ⟨i.symbol, i.to, i.amount⟩ = (.error error, self) := by
      refine ⟨.tokenNotFound i.symbol, orUnchanged_error ?_⟩
      simp only [applyBalance, found]
    refine iff_of_true (atomic_of_stopped (stopped_of_refused accepted (by simp [is]) parts refused)) ?_
    rintro ⟨_, _, ledger, -, -, present, -⟩
    rw [is] at present
    cases found.symm.trans present
  | some ledger =>
    rw [torn_iff is accepted known found]
    rcases mint_ends accepted is known found with ⟨refused, stopped⟩ | ⟨books, _, wrote, -, result⟩
    · exact iff_of_true (atomic_of_stopped stopped) fun breaks => refused breaks.2.1
    have moved : (call.apply codec self).balanceOf i.symbol i.to ≠ self.balanceOf i.symbol i.to := by
      intro same
      have written := wrote.balanceOf i.to
      rw [same, balanceOf_of_lookup found, Finsupp.update_apply, if_pos rfl, BitVec.toNat_add] at written
      omega
    rw [atomic_iff_of_moved moved, result]
    split
    · rename_i full
      exact iff_of_false (fun success => by cases success.choose_spec) (not_not_intro ⟨full.1, books, full.2⟩)
    · rename_i fits
      exact iff_of_true ⟨outcome, rfl⟩ fun breaks => fits ⟨breaks.1, breaks.2.2⟩

theorem burn_atomic_iff {i} (is : call.intent.kind = .burn i) (accepted : call.Admits codec self outcome) :
    call.Atomic codec self ↔ ¬ call.Torn codec self := by
  obtain ⟨token, known⟩ := token_of_admitted accepted is (by simp)
  obtain ⟨positive, ⟨ledger, found, covered⟩, -⟩ := admitted_burn accepted is
  rw [torn_iff is accepted known found]
  rcases burn_ends accepted is known found with ⟨large, stopped⟩ | ⟨half, wrote, result⟩
  · exact iff_of_true (atomic_of_stopped stopped) fun breaks => absurd breaks.1 (not_le.mpr large)
  have moved : (call.apply codec self).balanceOf i.symbol call.intent.caller ≠
      self.balanceOf i.symbol call.intent.caller := by
    intro same
    have written := wrote.balanceOf call.intent.caller
    rw [same, balanceOf_of_lookup found, Finsupp.update_apply, if_pos rfl] at written
    omega
  rw [atomic_iff_of_moved moved, result]
  split
  · rename_i room
    exact iff_of_true ⟨outcome, rfl⟩ fun breaks => Nat.not_le_of_lt room breaks.2
  · rename_i full
    exact iff_of_false (fun success => by cases success.choose_spec) (not_not_intro ⟨half, Nat.le_of_not_lt full⟩)

theorem Move.atomic_iff {«from» «to» amount}
    (move : Move codec self call outcome symbol «from» «to» amount token ledger) :
    call.Atomic codec self ↔ ¬ MoveBreaksOff token ledger «to» amount := by
  have keys : TokenLedger.key «from» ≠ TokenLedger.key «to» := fun same => move.apart (TokenLedger.key_injective same)
  have moved (less : ((call.apply codec self).balanceOf symbol «from»).toNat < (self.balanceOf symbol «from»).toNat) :
      call.Atomic codec self ↔ ∃ outcome, call.result codec self = .ok outcome :=
    atomic_iff_of_moved fun same => absurd less (by rw [same]; exact lt_irrefl _)
  rcases move.ends with ⟨large, stopped⟩ | ⟨half, paid, lowered, ⟨refused, wrote, error, failed⟩ | ⟨books, wrote, result⟩⟩
  · exact iff_of_true (atomic_of_stopped stopped) fun breaks => absurd breaks.1 (not_le.mpr large)
  · rw [moved (move.paid wrote (by simp [lowered])), failed]
    exact iff_of_false (fun success => by cases success.choose_spec) (not_not_intro ⟨half, .inl refused⟩)
  · rw [moved (move.paid wrote (by simp [lowered, Finsupp.update_apply, keys])), result]
    split
    · rename_i room
      refine iff_of_true ⟨outcome, rfl⟩ fun breaks => ?_
      exact breaks.2.elim (fun refused => refused books) (Nat.not_le_of_lt room)
    · rename_i full
      exact iff_of_false (fun success => by cases success.choose_spec)
        (not_not_intro ⟨half, .inr (Nat.le_of_not_lt full)⟩)

theorem not_torn_of_other (mint : ∀ i, call.intent.kind ≠ .mint i) (burn : ∀ i, call.intent.kind ≠ .burn i)
    (transfer : ∀ i, call.intent.kind ≠ .transfer i) (transferFrom : ∀ i, call.intent.kind ≠ .transferFrom i) :
    ¬ call.Torn codec self := by
  rintro ⟨_, token, ledger, -, -, -, breaks⟩
  cases is : call.intent.kind with
  | mint i => exact mint i is
  | burn i => exact burn i is
  | transfer i => exact transfer i is
  | transferFrom i => exact transferFrom i is
  | _ =>
    rw [is] at breaks
    exact breaks

/-- A failure leaves everything unchanged exactly where the intent does not
break off. -/
theorem atomic_iff (codec : PATCodec) (self : PATRegistry) (call : PATCall) :
    call.Atomic codec self ↔ ¬ call.Torn codec self := by
  cases accepted : self.admitted codec call.now call.intent with
  | error e =>
    refine iff_of_true (fun _ _ => (ends_of_refused accepted).2) ?_
    rintro ⟨_, _, _, admitted, -⟩
    cases accepted.symm.trans admitted
  | ok outcome =>
    cases is : call.intent.kind with
    | createToken i =>
      obtain ⟨-, -, token, -, result, -⟩ := createToken_ends accepted is
      exact iff_of_true (atomic_of_success ⟨outcome, result⟩)
        (not_torn_of_other (by simp [is]) (by simp [is]) (by simp [is]) (by simp [is]))
    | mint i => exact mint_atomic_iff is accepted
    | burn i => exact burn_atomic_iff is accepted
    | transfer i =>
      obtain ⟨-, token, ledger, move⟩ := move_of_transfer is accepted
      rw [move.atomic_iff, torn_iff is accepted move.known move.found]
      rfl
    | transferFrom i =>
      obtain ⟨-, token, ledger, move⟩ := move_of_transferFrom is accepted
      rw [move.atomic_iff, torn_iff is accepted move.known move.found]
      rfl
    | approve i | freeze i | updateBurnRate i | transferOwnership i =>
      refine iff_of_true ?_ (not_torn_of_other (by simp [is]) (by simp [is]) (by simp [is]) (by simp [is]))
      rcases quiet_ends accepted (by simp [is, PATIntentKind.Quiet]) with stopped | ⟨result, -⟩
      · exact atomic_of_stopped stopped
      · exact atomic_of_success ⟨outcome, result⟩

end PATCall

/-- A call to the registry, by the program itself or for a wallet. -/
inductive PATRequest
  | execute (call : PATCall)
  | executeSigned (call : PATCall)

open PATRequest

namespace PATRequest

variable {codec : PATCodec} {self : PATRegistry} {call : PATCall}

def outcome (codec : PATCodec) (self : PATRegistry) : PATRequest → Except PATError PATOutcome × PATRegistry
  | execute call => self.execute codec call.now call.createdAt call.intent
  | executeSigned call => self.executeSigned codec call.now call.createdAt call.intent

def apply (codec : PATCodec) (self : PATRegistry) (request : PATRequest) : PATRegistry := (request.outcome codec self).2

/-- A nonce that `execute_signed` still takes. -/
def Fresh (self : PATRegistry) (call : PATCall) : Prop :=
  call.intent.nonce ≠ 0 ∧ (call.intent.caller, call.intent.nonce) ∉ self.seenNonces

theorem executeSigned_of_stale (stale : ¬ Fresh self call) :
    (executeSigned call).outcome codec self = (.error .duplicateIntent, self) := by
  refine if_pos ?_
  rw [Fresh, not_and_or, not_not, not_not] at stale
  exact stale.imp_right List.contains_iff_mem.mpr

/-- A fresh nonce lets the intent be executed, and is used up by a success. -/
theorem executeSigned_of_fresh (fresh : Fresh self call) :
    (∀ error, call.result codec self = .error error →
      (executeSigned call).outcome codec self = (.error error, call.apply codec self)) ∧
    ∀ outcome, call.result codec self = .ok outcome →
      (executeSigned call).outcome codec self = (.ok outcome, { call.apply codec self with
        seenNonces := (call.intent.caller, call.intent.nonce) :: (call.apply codec self).seenNonces }) := by
  have unseen : ¬ (call.intent.nonce = 0 ∨ self.seenNonces.contains (call.intent.caller, call.intent.nonce) = true) := by
    rintro (zero | seen)
    · exact fresh.1 zero
    · exact fresh.2 (List.contains_iff_mem.mp seen)
  rw [outcome, PATRegistry.executeSigned, if_neg unseen, PATCall.result, PATCall.apply]
  rcases self.execute codec call.now call.createdAt call.intent with ⟨_ | _, after⟩
  · exact ⟨fun error failed => (by cases failed; rfl), fun outcome done => (by cases done)⟩
  · exact ⟨fun error failed => (by cases failed), fun outcome done => (by cases done; rfl)⟩

theorem seenNonces_execute (codec : PATCodec) (self : PATRegistry) (call : PATCall) :
    (call.apply codec self).seenNonces = self.seenNonces := by
  cases accepted : self.admitted codec call.now call.intent with
  | error e => rw [(PATCall.ends_of_refused accepted).2]
  | ok outcome =>
    cases made : self.materialise codec call.createdAt call.intent with
    | error e =>
      rw [PATCall.apply, PATRegistry.execute, accepted]
      simp only [made]
    | ok base =>
      have kept := congrArg (·.2.2) (@read_applyDiff codec _ log log_rewrites base outcome.diff)
      have same : base.seenNonces = self.seenNonces := by
        unfold materialise at made
        split at made
        · obtain ⟨token, -, rest⟩ := ok_of_bind made
          cases rest
          rfl
        · cases made
          rfl
      rcases applied : base.applyDiff codec outcome.diff with ⟨_ | _, after⟩
      · rw [applied] at kept
        rw [(PATCall.ends_of_failed accepted made applied).2, ← same]
        exact kept
      · rw [applied] at kept
        rw [(PATCall.ends_of_done accepted made applied).2, ← same]
        exact kept

theorem seenNonces_apply {key} (seen : key ∈ self.seenNonces) (request : PATRequest) :
    key ∈ (request.apply codec self).seenNonces := by
  cases request with
  | execute call =>
    change key ∈ (call.apply codec self).seenNonces
    rw [seenNonces_execute]
    exact seen
  | executeSigned call =>
    by_cases fresh : Fresh self call
    · cases result : call.result codec self with
      | error error =>
        rw [apply, (executeSigned_of_fresh fresh).1 error result, seenNonces_execute]
        exact seen
      | ok outcome =>
        rw [apply, (executeSigned_of_fresh fresh).2 outcome result]
        refine List.mem_cons_of_mem _ ?_
        rw [seenNonces_execute]
        exact seen
    · rw [apply, executeSigned_of_stale fresh]
      exact seen

theorem seenNonces_foldl {key} (requests : List PATRequest) (seen : key ∈ self.seenNonces) :
    key ∈ (requests.foldl (apply codec) self).seenNonces :=
  List.foldlRecOn (motive := fun after : PATRegistry => key ∈ after.seenNonces) requests _ seen
    fun _ before request _ => seenNonces_apply before request

end PATRequest

/-- A failed call of `execute` leaves the registry as it was exactly where the
intent does not break off after its first balance was written; `execute_signed`
does so where it does not get that far with a fresh nonce. A nonce whose intent
succeeded is refused for ever. -/
theorem execute_atomic_iff (codec : PATCodec) (self : PATRegistry) (call : PATCall) :
    ((∀ error, ((execute call).outcome codec self).1 = .error error →
        ((execute call).outcome codec self).2 = self) ↔ ¬ call.Torn codec self) ∧
    ((∀ error, ((executeSigned call).outcome codec self).1 = .error error →
        ((executeSigned call).outcome codec self).2 = self) ↔
      (Fresh self call → ¬ call.Torn codec self)) ∧
    ∀ outcome, ((executeSigned call).outcome codec self).1 = .ok outcome →
      ∀ (requests : List PATRequest) (later : PATCall), later.intent.caller = call.intent.caller →
        later.intent.nonce = call.intent.nonce →
          ((executeSigned later).outcome codec
            (requests.foldl (apply codec) ((executeSigned call).outcome codec self).2)).1 =
              .error .duplicateIntent := by
  refine ⟨PATCall.atomic_iff codec self call, ?_, ?_⟩
  · by_cases fresh : Fresh self call
    · obtain ⟨fails, succeeds⟩ := @executeSigned_of_fresh codec self call fresh
      rw [← PATCall.atomic_iff, forall_prop_of_true fresh]
      cases result : call.result codec self with
      | error error =>
        rw [fails error result]
        constructor
        · exact fun unchanged _ _ => unchanged error rfl
        · exact fun atomic _ _ => atomic error result
      | ok outcome =>
        rw [succeeds outcome result]
        exact iff_of_true (fun _ failed => by cases failed) (PATCall.atomic_of_success ⟨outcome, result⟩)
    · rw [executeSigned_of_stale fresh]
      exact iff_of_true (fun _ _ => rfl) fun taken => absurd taken fresh
  · intro outcome done requests later caller nonce
    have used : (call.intent.caller, call.intent.nonce) ∈
        ((executeSigned call).outcome codec self).2.seenNonces := by
      by_cases fresh : Fresh self call
      · obtain ⟨fails, succeeds⟩ := @executeSigned_of_fresh codec self call fresh
        cases result : call.result codec self with
        | error error =>
          rw [fails error result] at done
          cases done
        | ok outcome =>
          rw [succeeds outcome result]
          exact List.mem_cons_self
      · rw [executeSigned_of_stale fresh] at done
        cases done
    have still := @seenNonces_foldl codec _ _ requests used
    rw [executeSigned_of_stale]
    rintro ⟨-, unseen⟩
    rw [caller, nonce] at unseen
    exact unseen still

section Cycles

/-- The last burn of the burning cycles fails with the supply and the balance
gone. -/
theorem burningCycles_torn :
    (cycleCall 2048).result nonceCodec (registryAt nonceCodec {} burningCycles 2048) = .error (.balanceOverflow "T") ∧
      (cycleCall 2048).apply nonceCodec (registryAt nonceCodec {} burningCycles 2048) ≠
        registryAt nonceCodec {} burningCycles 2048 ∧
      (∃ token, (registryAt nonceCodec {} burningCycles 2048).tokens.lookup "T" = some token ∧
        token.currentSupply.toNat = 2 ^ 118) ∧
      ∃ token, ((cycleCall 2048).apply nonceCodec (registryAt nonceCodec {} burningCycles 2048)).tokens.lookup "T" =
        some token ∧ token.currentSupply.toNat = 0 := by
  obtain ⟨failed, token, after, gone, -⟩ := burn_overflows 2048 rfl
  rw [registryAt_succ nonceCodec {} (burningCycles_getElem (by decide))] at after
  obtain ⟨token', before, -, -, supply, -⟩ := (cycled_registryAt 2048 (by decide) le_rfl).token
  refine ⟨failed, fun same => ?_, ⟨token', before, supply⟩, token, after, gone⟩
  rw [same] at after
  cases before.symm.trans after
  rw [gone] at supply
  exact absurd supply (by decide)

end Cycles

end Bleep.Pat
