import Bleep.Pat.Effects
import Mathlib.Algebra.BigOperators.Intervals

namespace Bleep.Pat

open HashTable Words Results PATRegistry BitVec Nat Option Finsupp

namespace PATCall

variable {codec : PATCodec} {self : PATRegistry} {call : PATCall} {outcome : PATOutcome}
  {i : CreateTokenIntent}

/-- The intent is one of those that may lower this balance: a burn or a
transfer by its holder, or a transfer that its holder has allowed. -/
def Entitled (self : PATRegistry) (call : PATCall) (symbol : String) (address : Address) : Prop :=
  (∃ i, call.intent.kind = .burn i ∧ i.symbol = symbol ∧ call.intent.caller = address) ∨
    (∃ i, call.intent.kind = .transfer i ∧ i.symbol = symbol ∧ call.intent.caller = address) ∨
    ∃ i, call.intent.kind = .transferFrom i ∧ i.symbol = symbol ∧ i.from = address ∧
      i.amount.toNat ≤ (self.allowance symbol address call.intent.caller).toNat

structure Authorized (codec : PATCodec) (registry : PATRegistry) (call : PATCall) : Prop where
  lowered : ∀ symbol address,
    ((call.apply codec registry).balanceOf symbol address).toNat < (registry.balanceOf symbol address).toNat →
      (∃ outcome, call.result codec registry = .ok outcome) ∧ call.Entitled registry symbol address
  minted : ∀ i outcome, call.intent.kind = .mint i → call.result codec registry = .ok outcome →
    ((call.apply codec registry).balanceOf i.symbol i.to).toNat =
        (registry.balanceOf i.symbol i.to).toNat + i.amount.toNat ∧
      ∀ symbol address, (symbol, address) ≠ (i.symbol, i.to) →
        (call.apply codec registry).balanceOf symbol address = registry.balanceOf symbol address

/-- A transfer that is not cut off by the cast of its amount reaches the
receiver, whose credit is not turned round by the cast and does not overflow,
and the burned total does not overflow. -/
def Reaches (self : PATRegistry) (symbol : String) («to» : Address) (amount : U128) : Prop :=
  amount.toNat ≤ 2 ^ 127 → ∀ token, self.tokens.lookup symbol = some token →
    (amount - token.transferBurnAmount amount).toNat < 2 ^ 127 ∧
      (self.balanceOf symbol «to»).toNat + (amount - token.transferBurnAmount amount).toNat < 2 ^ 128 ∧
      token.totalBurned.toNat + (token.transferBurnAmount amount).toNat < 2 ^ 128

/-- What an admitted intent must satisfy. -/
def Fits (codec : PATCodec) (self : PATRegistry) (call : PATCall) : Prop :=
  ∀ outcome, self.admitted codec call.now call.intent = .ok outcome →
    match call.intent.kind with
    | .mint i => (∃ outcome, call.result codec self = .ok outcome) → i.amount.toNat < 2 ^ 127
    | .burn i => i.amount.toNat ≤ 2 ^ 127 → ∀ token, self.tokens.lookup i.symbol = some token →
        token.totalBurned.toNat + i.amount.toNat < 2 ^ 128
    | .transfer i => Reaches self i.symbol i.to i.amount
    | .transferFrom i => Reaches self i.symbol i.to i.amount
    | _ => True

theorem authorized_of_stopped (stopped : call.Stopped codec self) : call.Authorized codec self where
  lowered symbol address less := by
    rw [stopped.2] at less
    exact absurd less (lt_irrefl _)
  minted i outcome _ done := absurd ⟨outcome, done⟩ stopped.failed

theorem authorized_of_unmoved
    (same : ∀ symbol address, (call.apply codec self).balanceOf symbol address = self.balanceOf symbol address)
    (other : ∀ i, call.intent.kind ≠ .mint i) : call.Authorized codec self where
  lowered symbol address less := by
    rw [same] at less
    exact absurd less (lt_irrefl _)
  minted i _ is := absurd is (other i)

theorem mint_authorized_iff {i} (matched : self.Matched) (is : call.intent.kind = .mint i)
    (accepted : call.Admits codec self outcome) :
    call.Authorized codec self ↔ ((∃ outcome, call.result codec self = .ok outcome) → i.amount.toNat < 2 ^ 127) := by
  obtain ⟨positive, ⟨token, known, -⟩, -⟩ := admitted_mint accepted is
  obtain ⟨ledger, found⟩ := matched.ledger_of_token known
  rcases mint_ends accepted is known found with ⟨-, stopped⟩ | ⟨books, supply, wrote, -, result⟩
  · exact iff_of_true (authorized_of_stopped stopped) fun success => absurd success stopped.failed
  have here := wrote.balanceOf i.to
  rw [update_apply, if_pos rfl, toNat_add] at here
  have before := congrArg BitVec.toNat (balanceOf_of_lookup found i.to)
  unfold TokenLedger.Books at books
  by_cases small : i.amount.toNat < 2 ^ 127
  · refine iff_of_true ⟨fun symbol address less => ?_, fun other _ kind _ => ?_⟩ fun _ => small
    · by_cases same : (symbol, address) = (i.symbol, i.to)
      · cases same
        rw [if_pos small] at books
        omega
      · rw [wrote.balanceOf_single rfl found same] at less
        exact absurd less (lt_irrefl _)
    · cases is.symm.trans kind
      rw [if_pos small] at books
      exact ⟨by omega, fun symbol address => wrote.balanceOf_single rfl found⟩
  · -- the cast makes the amount negative, so the recipient is debited
    rw [if_neg small] at books
    rw [if_neg fun full => small full.1] at result
    refine iff_of_false (fun authorized => ?_) fun bounded => small (bounded ⟨outcome, result⟩)
    have raised := (authorized.minted i outcome is result).1
    omega

theorem burn_authorized_iff {i} (is : call.intent.kind = .burn i)
    (accepted : call.Admits codec self outcome) :
    call.Authorized codec self ↔ (i.amount.toNat ≤ 2 ^ 127 → ∀ token, self.tokens.lookup i.symbol = some token →
      token.totalBurned.toNat + i.amount.toNat < 2 ^ 128) := by
  obtain ⟨token, known⟩ : ∃ token, self.tokens.lookup i.symbol = some token := token_of_admitted accepted is (by simp)
  obtain ⟨positive, ⟨ledger, found, covered⟩, -⟩ := admitted_burn accepted is
  rcases burn_ends accepted is known found with ⟨large, stopped⟩ | ⟨half, wrote, result⟩
  · exact iff_of_true (authorized_of_stopped stopped) fun half => absurd half (not_le.mpr large)
  by_cases fits : token.totalBurned.toNat + i.amount.toNat < 2 ^ 128
  · rw [if_pos fits] at result
    refine iff_of_true ⟨fun symbol address less => ?_, fun other _ kind _ => ?_⟩ fun _ other same => ?_
    · by_cases same : (symbol, address) = (i.symbol, call.intent.caller)
      · cases same
        exact ⟨⟨outcome, result⟩, .inl ⟨i, is, rfl, rfl⟩⟩
      · rw [wrote.balanceOf_single rfl found same] at less
        exact absurd less (lt_irrefl _)
    · cases is.symm.trans kind
    · cases known.symm.trans same
      exact fits
  · refine iff_of_false (fun authorized => ?_) fun bounded => fits (bounded half token known)
    have less : ((call.apply codec self).balanceOf i.symbol call.intent.caller).toNat <
        (self.balanceOf i.symbol call.intent.caller).toNat := by
      rw [wrote.balanceOf, update_apply, if_pos rfl, balanceOf_of_lookup found]
      omega
    obtain ⟨⟨_, success⟩, -⟩ := authorized.lowered i.symbol call.intent.caller less
    rw [result, if_neg fits] at success
    cases success

section Moves

variable {symbol : String} {«from» «to» : Address} {amount : U128} {token : PATToken} {ledger : TokenLedger}
  {balances : String →₀ ℕ} {supply burned : ℕ} (move : Move codec self call outcome symbol «from» «to» amount token ledger)

include move

theorem Move.paid (wrote : Wrote self (call.apply codec self) symbol token balances supply burned)
    (lowered : balances (TokenLedger.key «from») = (ledger.balanceOf «from»).toNat - amount.toNat) :
    ((call.apply codec self).balanceOf symbol «from»).toNat < (self.balanceOf symbol «from»).toNat := by
  have covered := move.covered
  have positive := move.positive
  rw [wrote.balanceOf, lowered, balanceOf_of_lookup move.found]
  omega

/-- Only the sender's balance may go down, and does so exactly when the amount
reaches the receiver. -/
theorem Move.authorized_iff (entitled : call.Entitled self symbol «from»)
    (unentitled : ¬ call.Entitled self symbol «to») :
    call.Authorized codec self ↔ Reaches self symbol «to» amount := by
  have reaches_iff (half : amount.toNat ≤ 2 ^ 127) : Reaches self symbol «to» amount ↔
      (amount - token.transferBurnAmount amount).toNat < 2 ^ 127 ∧
        (ledger.balanceOf «to»).toNat + (amount - token.transferBurnAmount amount).toNat < 2 ^ 128 ∧
        token.totalBurned.toNat + (token.transferBurnAmount amount).toNat < 2 ^ 128 := by
    simp only [Reaches, half, move.known, some.injEq, forall_eq', balanceOf_of_lookup move.found, true_imp_iff]
  have keys : TokenLedger.key «from» ≠ TokenLedger.key «to» := fun same => move.apart (TokenLedger.key_injective same)
  rcases move.ends with ⟨large, stopped⟩ | ⟨half, paid, lowered, ⟨refused, wrote, error, failed⟩ | ⟨books, wrote, result⟩⟩
  · exact iff_of_true (authorized_of_stopped stopped) fun half => absurd half (not_le.mpr large)
  · rw [reaches_iff half]
    refine iff_of_false (fun authorized => ?_) fun claim => refused ?_
    · obtain ⟨⟨_, success⟩, -⟩ := authorized.lowered symbol «from» (move.paid wrote (by simp [lowered]))
      cases failed.symm.trans success
    · unfold TokenLedger.Books
      rw [if_pos claim.1]
      exact claim.2.1
  · rw [reaches_iff half]
    have less := move.paid wrote (by simp [lowered, update_apply, keys])
    have received := wrote.balanceOf «to»
    rw [update_apply, if_pos rfl, toNat_add] at received
    have before := congrArg BitVec.toNat (balanceOf_of_lookup move.found «to»)
    unfold TokenLedger.Books at books
    by_cases small : (amount - token.transferBurnAmount amount).toNat < 2 ^ 127
    · rw [if_pos small] at books
      by_cases room : token.totalBurned.toNat + (token.transferBurnAmount amount).toNat < 2 ^ 128
      · rw [if_pos room] at result
        refine iff_of_true ⟨fun other address drop => ?_, fun i _ same => absurd same (move.notMint i)⟩ ⟨small, books, room⟩
        by_cases sender : (other, address) = (symbol, «from»)
        · cases sender
          exact ⟨⟨outcome, result⟩, entitled⟩
        · exfalso
          by_cases receiver : (other, address) = (symbol, «to»)
          · cases receiver
            omega
          · rw [wrote.balanceOf_kept move.found fun here => ?_] at drop
            · exact absurd drop (lt_irrefl _)
            rw [update_apply, if_neg fun same => receiver ?_, lowered, update_apply,
              if_neg fun same => sender ?_]
            all_goals rw [here, TokenLedger.key_injective same]
      · refine iff_of_false (fun authorized => ?_) fun claim => room claim.2.2
        obtain ⟨⟨_, success⟩, -⟩ := authorized.lowered symbol «from» less
        rw [result, if_neg room] at success
        cases success
    · -- the cast turns the credit round: it debits the receiver
      rw [if_neg small] at books
      refine iff_of_false (fun authorized => ?_) fun claim => small claim.1
      exact unentitled (authorized.lowered symbol «to» (by omega)).2

end Moves

/-- A new token starts with empty tables, where there were none. -/
theorem balanceOf_createToken (matched : self.Matched)
    (is : call.intent.kind = .createToken i) (accepted : call.Admits codec self outcome)
    (symbol : String) (address : Address) :
    (call.apply codec self).balanceOf symbol address = self.balanceOf symbol address := by
  obtain ⟨unknown, -, token, -, -, same⟩ := createToken_ends accepted is
  have ledgers : (call.apply codec self).ledgers = _ := congrArg RegistryView.ledgers same
  have none := matched.ledger i.symbol
  rw [unknown, isSome_none, isSome_eq_false_iff, isNone_iff_eq_none] at none
  rw [balanceOf, ledgers]
  exact lookup_insert_congr (·.elim 0 (TokenLedger.balanceOf · address)) (by rw [none]; rfl) symbol

theorem authorized_iff_fits (matched : self.Matched) (call : PATCall) :
    call.Authorized codec self ↔ call.Fits codec self := by
  cases accepted : self.admitted codec call.now call.intent with
  | error e =>
    have stopped := @ends_of_refused codec self call e accepted
    refine iff_of_true (authorized_of_stopped ⟨⟨e, stopped.1⟩, stopped.2⟩) fun outcome taken => ?_
    rw [accepted] at taken
    cases taken
  | ok outcome =>
    simp only [Fits, accepted, Except.ok.injEq, forall_eq']
    cases is : call.intent.kind with
    | createToken i =>
      exact iff_of_true (authorized_of_unmoved (balanceOf_createToken matched is accepted) (by simp [is])) trivial
    | mint i => exact mint_authorized_iff matched is accepted
    | burn i => exact burn_authorized_iff is accepted
    | transfer i =>
      obtain ⟨-, token, ledger, move⟩ := move_of_transfer is accepted
      refine move.authorized_iff (.inr (.inl ⟨i, is, rfl, rfl⟩)) ?_
      rintro (⟨j, kind, -⟩ | ⟨j, kind, -, caller⟩ | ⟨j, kind, -⟩)
      · cases is.symm.trans kind
      · exact move.apart caller
      · cases is.symm.trans kind
    | transferFrom i =>
      obtain ⟨⟨approved, -⟩, token, ledger, move⟩ := move_of_transferFrom is accepted
      refine move.authorized_iff (.inr (.inr ⟨i, is, rfl, rfl, approved⟩)) ?_
      rintro (⟨j, kind, -⟩ | ⟨j, kind, -⟩ | ⟨j, kind, -, sender, -⟩)
      · cases is.symm.trans kind
      · cases is.symm.trans kind
      · cases is.symm.trans kind
        exact move.apart sender
    | approve i | freeze i | updateBurnRate i | transferOwnership i =>
      refine iff_of_true ?_ trivial
      rcases quiet_ends accepted (by simp [is, PATIntentKind.Quiet]) with stopped | ⟨-, same⟩
      · exact authorized_of_stopped stopped
      · exact authorized_of_unmoved (balanceOf_of_ledgers same) (by simp [is])

section Allowances

variable {symbol : String} {owner spender : Address} {after : PATRegistry}

/-- A successful approval of this spender by this owner. -/
def Approves (codec : PATCodec) (self : PATRegistry) (call : PATCall) (symbol : String) (owner spender : Address) :
    Prop :=
  (∃ outcome, call.result codec self = .ok outcome) ∧
    ∃ i, call.intent.kind = .approve i ∧ i.symbol = symbol ∧ call.intent.caller = owner ∧ i.spender = spender

/-- What the call takes from the owner in the name of the spender. -/
def takes (codec : PATCodec) (self : PATRegistry) (call : PATCall) (symbol : String) (owner spender : Address) : ℕ :=
  match call.intent.kind, call.result codec self with
  | .transferFrom i, .ok _ =>
    if i.symbol = symbol ∧ i.from = owner ∧ call.intent.caller = spender then i.amount.toNat else 0
  | _, _ => 0

theorem takes_of_failed (failed : ¬ ∃ outcome, call.result codec self = .ok outcome) :
    call.takes codec self symbol owner spender = 0 := by
  unfold takes
  split
  · rename_i outcome _ done
    exact absurd ⟨outcome, done⟩ failed
  · rfl

theorem takes_of_other (other : ∀ i, call.intent.kind ≠ .transferFrom i) :
    call.takes codec self symbol owner spender = 0 := by
  unfold takes
  split
  · rename_i i outcome is _
    exact absurd is (other i)
  · rfl

theorem allowance_of_allowances (same : after.allowances = self.allowances) :
    after.allowance symbol owner spender = self.allowance symbol owner spender := by
  rw [allowance, RegistryView.allowance, view, same]
  rfl

theorem allowance_of_insert {table : AllowanceTable} {update : AllowanceUpdate}
    (found : self.allowances.lookup update.symbol = some table)
    (written : after.allowances =
      self.allowances.insert update.symbol (table.set update.owner update.spender update.newValue)) :
    after.allowance symbol owner spender =
      if update.symbol = symbol ∧ update.owner = owner ∧ update.spender = spender then update.newValue
      else self.allowance symbol owner spender := by
  unfold allowance RegistryView.allowance view
  simp only [written]
  by_cases here : symbol = update.symbol
  · subst here
    rw [AList.lookup_insert, found]
    by_cases same : update.owner = owner ∧ update.spender = spender
    · obtain ⟨rfl, rfl⟩ := same
      rw [if_pos ⟨rfl, rfl, rfl⟩]
      exact table.get_set_self ..
    · rw [if_neg fun all => same all.2]
      exact table.get_set_of_ne _ fun both => same ⟨both.1.symm, both.2.symm⟩
  · rw [AList.lookup_insert_ne here, if_neg fun all => here all.1.symm]

theorem allowance_of_update {update : AllowanceUpdate} (matched : self.Matched)
    (existing : ∀ i, call.intent.kind ≠ .createToken i) (named : call.intent.kind.symbol = update.symbol)
    (accepted : call.Admits codec self outcome)
    (single : outcome.diff.allowanceUpdates = [update]) :
    (∃ outcome, call.result codec self = .ok outcome) ∧ (call.apply codec self).allowance symbol owner spender =
        (if update.symbol = symbol ∧ update.owner = owner ∧ update.spender = spender then update.newValue
          else self.allowance symbol owner spender) ∨
      (¬ ∃ outcome, call.result codec self = .ok outcome) ∧
        (call.apply codec self).allowance symbol owner spender = self.allowance symbol owner spender := by
  obtain ⟨token, known⟩ := token_of_admitted accepted rfl existing
  obtain ⟨table, found⟩ := matched.allowances_of_token known
  rw [named] at found
  obtain ⟨ended, same⟩ := tables_of_diff accepted existing
  rcases @allowances_applyDiff codec self outcome.diff with ⟨error, failed, kept⟩ | ⟨second, kept, ended', written⟩
  · right
    rw [failed] at ended
    refine ⟨?_, allowance_of_allowances (same.trans kept)⟩
    rw [ended]
    rintro ⟨_, done⟩
    cases done
  · left
    rw [single, inPlace_singleton, applyAllowance_ok (kept.symm ▸ found)] at ended' written
    rw [ended'] at ended
    exact ⟨⟨outcome, ended⟩, allowance_of_insert found (same.trans (written.trans (by rw [kept])))⟩

theorem allowance_approved {i} (matched : self.Matched) (is : call.intent.kind = .approve i)
    (success : ∃ outcome, call.result codec self = .ok outcome) :
    (call.apply codec self).allowance i.symbol call.intent.caller i.spender = i.amount := by
  cases accepted : self.admitted codec call.now call.intent with
  | error e =>
    obtain ⟨outcome, done⟩ := success
    cases (ends_of_refused accepted).1.symm.trans done
  | ok outcome =>
    rcases allowance_of_update matched (by simp [is]) (by rw [is]; rfl) accepted (admitted_approve accepted is).updates
      with ⟨-, written⟩ | ⟨failed, -⟩
    · rw [written, if_pos ⟨rfl, rfl, rfl⟩]
    · exact absurd success failed

theorem allowance_createToken (matched : self.Matched)
    (is : call.intent.kind = .createToken i) (accepted : call.Admits codec self outcome) :
    (call.apply codec self).allowance symbol owner spender = self.allowance symbol owner spender := by
  obtain ⟨unknown, -, token, -, -, same⟩ := createToken_ends accepted is
  have none := matched.allowance i.symbol
  rw [unknown, isSome_none, isSome_eq_false_iff, isNone_iff_eq_none] at none
  unfold allowance RegistryView.allowance
  rw [same, view]
  exact lookup_insert_congr (·.elim 0 (AllowanceTable.get · owner spender)) (by rw [none]; rfl) symbol

/-- Only `Approve` and `TransferFrom` touch an allowance. -/
theorem no_updates (accepted : call.Admits codec self outcome)
    (notApprove : ∀ i, call.intent.kind ≠ .approve i) (notFrom : ∀ i, call.intent.kind ≠ .transferFrom i) :
    outcome.diff.allowanceUpdates = [] := by
  cases is : call.intent.kind with
  | createToken i => exact (createToken_ends accepted is).2.1
  | mint i => exact (admitted_mint accepted is).2.2.updates
  | burn i => exact (admitted_burn accepted is).2.2.updates
  | transfer i => exact (move_of_transfer is accepted).1
  | freeze i => exact (admitted_freeze accepted is).updates
  | updateBurnRate i => exact (admitted_updateBurnRate accepted is).2.updates
  | transferOwnership i => exact (admitted_transferOwnership accepted is).updates
  | approve i => exact absurd is (notApprove i)
  | transferFrom i => exact absurd is (notFrom i)

theorem allowance_transferFrom {i} (matched : self.Matched)
    (is : call.intent.kind = .transferFrom i) (accepted : call.Admits codec self outcome) :
    ((call.apply codec self).allowance symbol owner spender).toNat + call.takes codec self symbol owner spender =
      (self.allowance symbol owner spender).toNat := by
  obtain ⟨⟨approved, single⟩, -⟩ := move_of_transferFrom is accepted
  rcases @allowance_of_update codec self call outcome symbol owner spender _ matched (by simp [is]) (by rw [is]; rfl)
    accepted single with ⟨⟨outcome, done⟩, written⟩ | ⟨failed, kept⟩
  · rw [written]
    simp only [takes, is, done]
    by_cases this : i.symbol = symbol ∧ i.from = owner ∧ call.intent.caller = spender
    · obtain ⟨rfl, rfl, rfl⟩ := this
      rw [if_pos ⟨rfl, rfl, rfl⟩, if_pos ⟨rfl, rfl, rfl⟩, toNat_sub_of_le (le_def.mpr approved)]
      exact Nat.sub_add_cancel approved
    · rw [if_neg this, if_neg this, add_zero]
  · rw [takes_of_failed failed, kept, add_zero]

/-- Short of an approval, an allowance is used up by what is taken. -/
theorem allowance_apply (matched : self.Matched) (unapproved : ¬ call.Approves codec self symbol owner spender) :
    ((call.apply codec self).allowance symbol owner spender).toNat + call.takes codec self symbol owner spender =
      (self.allowance symbol owner spender).toNat := by
  cases accepted : self.admitted codec call.now call.intent with
  | error e =>
    obtain ⟨failed, same⟩ := ends_of_refused accepted
    rw [takes_of_failed (Stopped.failed ⟨⟨e, failed⟩, same⟩), same, add_zero]
  | ok outcome =>
    cases is : call.intent.kind with
    | createToken i => rw [takes_of_other (by simp [is]), add_zero, allowance_createToken matched is accepted]
    | approve i =>
      rw [takes_of_other (by simp [is]), add_zero]
      rcases @allowance_of_update codec self call outcome symbol owner spender _ matched (by simp [is]) (by rw [is]; rfl)
        accepted (admitted_approve accepted is).updates with ⟨success, written⟩ | ⟨-, kept⟩
      · rw [written, if_neg]
        rintro ⟨named, granted, trusted⟩
        exact unapproved ⟨success, i, is, named, granted, trusted⟩
      · rw [kept]
    | transferFrom i => exact allowance_transferFrom matched is accepted
    | mint i | burn i | transfer i | freeze i | updateBurnRate i | transferOwnership i =>
      have none := no_updates accepted (by simp [is]) (by simp [is])
      obtain ⟨-, same⟩ := tables_of_diff accepted (by simp [is])
      rw [takes_of_other (by simp [is]), add_zero, allowance_of_allowances (same.trans ?_)]
      rcases @allowances_applyDiff codec self outcome.diff with ⟨error, -, kept⟩ | ⟨second, kept, -, written⟩
      · exact kept
      · rw [written, none, inPlace_nil]
        exact kept

end Allowances

end PATCall

section Runs

variable (codec : PATCodec) (gas : PATGasModel) (calls : List PATCall)

/-- The registry before the `n`-th call. -/
def registryAt (n : Nat) : PATRegistry := (withGasModel gas).run codec (calls.take n)

/-- What is taken from the owner in the name of the spender from the `n`-th call
up to the `m`-th. -/
def takenBetween (n m : Nat) (symbol : String) (owner spender : Address) : ℕ :=
  ∑ k ∈ Finset.Ico n m, calls[k]?.elim 0 fun call : PATCall =>
    call.takes codec (registryAt codec gas calls k) symbol owner spender

theorem matched_registryAt (n : Nat) : (registryAt codec gas calls n).Matched :=
  @Runs.foldl_take_mono _ _ _ _ calls Matched
    (fun _ call matched => matched.execute call.now call.createdAt call.intent) 0 n (zero_le n) (matched_new gas)

variable {calls}

theorem registryAt_succ {n} {call : PATCall} (here : calls[n]? = some call) :
    registryAt codec gas calls (n + 1) = call.apply codec (registryAt codec gas calls n) := Runs.foldl_take_succ here

theorem registryAt_stop {n} (ended : calls[n]? = none) :
    registryAt codec gas calls (n + 1) = registryAt codec gas calls n := Runs.foldl_take_stop ended

variable (calls)

/-- Until the next approval an allowance and what was taken make up what it was
at first. -/
theorem allowance_add_taken {n m symbol owner spender} (le : n ≤ m)
    (unapproved : ∀ k, n ≤ k → k < m → ∀ call : PATCall, calls[k]? = some call →
      ¬ call.Approves codec (registryAt codec gas calls k) symbol owner spender) :
    ((registryAt codec gas calls m).allowance symbol owner spender).toNat +
        takenBetween codec gas calls n m symbol owner spender =
      ((registryAt codec gas calls n).allowance symbol owner spender).toNat := by
  induction m, le using le_induction with
  | base => simp [takenBetween]
  | succ m le ih =>
    have earlier := ih fun k above below => unapproved k above (below.trans (lt_succ_self m))
    rw [takenBetween, Finset.sum_Ico_succ_top le, ← takenBetween]
    cases here : calls[m]? with
    | none =>
      rw [registryAt_stop codec gas here]
      exact earlier
    | some call =>
      have step := PATCall.allowance_apply (matched_registryAt codec gas calls m)
        (unapproved m le (lt_succ_self m) call here)
      rw [registryAt_succ codec gas here]
      simp only [elim_some]
      omega

/-- Along a run balances move with authority exactly when every admitted intent
fits; and in any run no more is taken between two approvals than was approved. -/
theorem balances_move_with_authority :
    ((∀ n (call : PATCall), calls[n]? = some call → call.Authorized codec (registryAt codec gas calls n)) ↔
      ∀ n (call : PATCall), calls[n]? = some call → call.Fits codec (registryAt codec gas calls n)) ∧
    ∀ n m (call : PATCall) i, calls[n]? = some call → call.intent.kind = .approve i →
      (∃ outcome, call.result codec (registryAt codec gas calls n) = .ok outcome) →
      (∀ k, n < k → k < m → ∀ later : PATCall, calls[k]? = some later →
        ¬ later.Approves codec (registryAt codec gas calls k) i.symbol call.intent.caller i.spender) →
      takenBetween codec gas calls (n + 1) m i.symbol call.intent.caller i.spender ≤ i.amount.toNat := by
  constructor
  · refine forall_congr' fun n => forall_congr' fun call => imp_congr_right fun _ => ?_
    exact PATCall.authorized_iff_fits (matched_registryAt codec gas calls n) call
  · intro n m call i here is success unapproved
    rcases lt_or_ge n m with before | after
    · have total := @allowance_add_taken codec gas calls (n + 1) m _ _ _ before fun k above below =>
        unapproved k above below
      rw [registryAt_succ codec gas here, PATCall.allowance_approved (matched_registryAt codec gas calls n) is success]
        at total
      omega
    · rw [takenBetween, Finset.Ico_eq_empty (by omega), Finset.sum_empty]
      exact zero_le _

end Runs

/-- Intents told apart by their nonce. -/
def nonceCodec : PATCodec := ⟨lastBytes, fun intent => le64 intent.nonce, fun _ => []⟩

def ownerAddress : Address := Vector.replicate 32 1

def holderAddress : Address := Vector.replicate 32 2

def friendAddress : Address := Vector.replicate 32 3

def ownerCall (nonce : U64) (kind : PATIntentKind) : PATCall := ⟨⟨ownerAddress, kind, 100000, 0, nonce⟩, 0, 0⟩

/-- A token without a cap, and a second mint close to the end of the range. -/
def wrappingMint : List PATCall :=
  [ownerCall 1 (.createToken ⟨"T", "T", 0, 0, 0, false⟩), ownerCall 2 (.mint ⟨"T", holderAddress, 5⟩),
    ownerCall 3 (.mint ⟨"T", holderAddress, -5⟩)]

/-- A receiver that is full: the transfer fails, and its amount is lost. -/
def lostTransfer : List PATCall :=
  [ownerCall 1 (.createToken ⟨"T", "T", 0, 0, 0, false⟩), ownerCall 2 (.mint ⟨"T", ownerAddress, 10⟩),
    ownerCall 3 (.mint ⟨"T", friendAddress, BitVec.ofNat 128 (2 ^ 127 - 1)⟩),
    ownerCall 4 (.mint ⟨"T", friendAddress, BitVec.ofNat 128 (2 ^ 127 - 1)⟩),
    ownerCall 5 (.transfer ⟨"T", friendAddress, 10, none⟩)]

theorem balances_move_without_authority :
    ((registryAt nonceCodec {} wrappingMint 2).balanceOf "T" holderAddress = 5 ∧
      ((ownerCall 3 (.mint ⟨"T", holderAddress, -5⟩)).result nonceCodec
        (registryAt nonceCodec {} wrappingMint 2)).isOk = true ∧
      (registryAt nonceCodec {} wrappingMint 3).balanceOf "T" holderAddress = 0) ∧
    (registryAt nonceCodec {} lostTransfer 4).balanceOf "T" ownerAddress = 10 ∧
      (ownerCall 5 (.transfer ⟨"T", friendAddress, 10, none⟩)).result nonceCodec
          (registryAt nonceCodec {} lostTransfer 4) =
        .error (.balanceOverflow (TokenLedger.key friendAddress)) ∧
      (registryAt nonceCodec {} lostTransfer 5).balanceOf "T" ownerAddress = 0 := by
  refine ⟨⟨?_, ?_, ?_⟩, ?_, ?_, ?_⟩
  all_goals rfl

end Bleep.Pat
