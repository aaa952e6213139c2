import Bleep.Pat.Authority

namespace Bleep.Pat

open HashTable Words Results PATRegistry BitVec Nat AList Ledger

def PATIntentKind.amount : PATIntentKind → U128
  | mint i => i.amount
  | burn i => i.amount
  | transfer i => i.amount
  | transferFrom i => i.amount
  | _ => 0

def PATIntentKind.burned (token : PATToken) : PATIntentKind → U128
  | burn i => i.amount
  | transfer i => token.transferBurnAmount i.amount
  | transferFrom i => token.transferBurnAmount i.amount
  | _ => 0

namespace PATRegistry

variable {codec : PATCodec} {self after : PATRegistry} {symbol : String} {token : PATToken} {ledger : TokenLedger}
  {minted : String → ℕ}

/-- Every token has a cap between 1 and 2^118. -/
def Capped (self : PATRegistry) : Prop :=
  ∀ symbol token, self.tokens.lookup symbol = some token →
    1 ≤ token.totalSupplyCap.toNat ∧ token.totalSupplyCap.toNat ≤ 2 ^ 118

/-- The supply identity of all tokens, given what was minted of each. -/
structure Identity (registry : PATRegistry) (minted : String → ℕ) : Prop where
  sum : ∀ symbol token ledger, registry.tokens.lookup symbol = some token →
    registry.ledgers.lookup symbol = some ledger →
      ((pairs ledger.balances).map fun entry => entry.2.toNat).sum = token.currentSupply.toNat
  cap : ∀ symbol token, registry.tokens.lookup symbol = some token →
    token.currentSupply.toNat ≤ token.totalSupplyCap.toNat
  minted : ∀ symbol token, registry.tokens.lookup symbol = some token →
    minted symbol = token.currentSupply.toNat + token.totalBurned.toNat
  rate : ∀ symbol token, registry.tokens.lookup symbol = some token → token.burnRateBps.toNat ≤ 1000

/-- The supply identity of one token. -/
structure Balanced (balances : String →₀ ℕ) (token : PATToken) (minted : ℕ) : Prop where
  sum : total balances = token.currentSupply.toNat
  cap : token.currentSupply.toNat ≤ token.totalSupplyCap.toNat
  minted : minted = token.currentSupply.toNat + token.totalBurned.toNat
  rate : token.burnRateBps.toNat ≤ 1000

theorem held_of_lookup (found : self.ledgers.lookup symbol = some ledger) : self.held symbol = ledger.held := by
  rw [held, found]
  rfl

section Balanced

variable {minted : ℕ} (balanced : Balanced ledger.held token minted)
include balanced

theorem Balanced.holding (address : Address) : (ledger.balanceOf address).toNat ≤ token.currentSupply.toNat := by
  rw [← ledger.held_key, ← balanced.sum]
  exact le_total ..

theorem Balanced.total_update (address : Address) (balance : ℕ) :
    Ledger.total (ledger.held.update (TokenLedger.key address) balance) + (ledger.balanceOf address).toNat =
      token.currentSupply.toNat + balance := by
  have sum := Ledger.total_update ledger.held (TokenLedger.key address) balance
  rwa [ledger.held_key, balanced.sum] at sum

theorem Balanced.total_moved {«from» «to» amount received paid} (apart : «from» ≠ «to»)
    (covered : amount ≤ (ledger.balanceOf «from»).toNat)
    (lowered : paid = ledger.held.update (TokenLedger.key «from») ((ledger.balanceOf «from»).toNat - amount)) :
    Ledger.total (paid.update (TokenLedger.key «to») ((ledger.balanceOf «to»).toNat + received)) + amount =
      token.currentSupply.toNat + received := by
  have sent := balanced.total_update «from» ((ledger.balanceOf «from»).toNat - amount)
  have got := Ledger.total_update paid (TokenLedger.key «to») ((ledger.balanceOf «to»).toNat + received)
  have still : paid (TokenLedger.key «to») = (ledger.balanceOf «to»).toNat := by
    rw [lowered, Finsupp.update_apply, if_neg fun same => apart.symm (TokenLedger.key_injective same), ledger.held_key]
  rw [← lowered] at sent
  omega

end Balanced

theorem Identity.balanced (identity : self.Identity minted) (known : self.tokens.lookup symbol = some token)
    (found : self.ledgers.lookup symbol = some ledger) : Balanced ledger.held token (minted symbol) where
  sum := by
    rw [TokenLedger.held, total_ofMap]
    exact identity.sum symbol token ledger known found
  cap := identity.cap symbol token known
  minted := identity.minted symbol token known
  rate := identity.rate symbol token known

theorem Matched.identity_iff (matched : self.Matched) :
    self.Identity minted ↔ ∀ symbol token, self.tokens.lookup symbol = some token →
      Balanced (self.held symbol) token (minted symbol) := by
  constructor
  · intro identity symbol token known
    obtain ⟨ledger, found⟩ := matched.ledger_of_token known
    rw [held_of_lookup found]
    exact identity.balanced known found
  · intro balanced
    refine ⟨fun symbol token ledger known found => ?_, fun symbol token known => (balanced symbol token known).cap,
      fun symbol token known => (balanced symbol token known).minted,
      fun symbol token known => (balanced symbol token known).rate⟩
    have sum := (balanced symbol token known).sum
    rwa [held_of_lookup found, TokenLedger.held, total_ofMap] at sum

theorem held_of_insert (replaced : after.ledgers = self.ledgers.insert symbol ledger) :
    after.held symbol = ledger.held ∧ ∀ other, other ≠ symbol → after.held other = self.held other := by
  constructor
  · rw [held, replaced, lookup_insert]
    rfl
  · intro other apart
    rw [held, replaced, lookup_insert_ne apart, held]

/-- A change that concerns one token only: the identity is that of this token. -/
theorem identity_iff_of_replaced {minted' token'} (matched : self.Matched)
    (matched' : after.Matched) (identity : self.Identity minted)
    (here : after.tokens.lookup symbol = some token')
    (others : ∀ other, other ≠ symbol → after.tokens.lookup other = self.tokens.lookup other ∧
      after.held other = self.held other ∧ minted' other = minted other) :
    after.Identity minted' ↔ Balanced (after.held symbol) token' (minted' symbol) := by
  rw [matched'.identity_iff]
  constructor
  · exact fun balanced => balanced symbol token' here
  intro balanced other token known
  by_cases same : other = symbol
  · subst same
    cases here.symm.trans known
    exact balanced
  · obtain ⟨tokens, held, minted⟩ := others other same
    rw [held, minted]
    exact matched.identity_iff.mp identity other token (tokens ▸ known)

theorem identity_new (gas : PATGasModel) : (withGasModel gas).Identity fun _ => 0 := by
  constructor
  all_goals
    intro symbol token
    intros
    cases ‹(withGasModel gas).tokens.lookup symbol = some token›

end PATRegistry

namespace PATCall

variable {codec : PATCodec} {self : PATRegistry} {call : PATCall} {outcome : PATOutcome} {minted : String → ℕ}
  {kind : PATIntentKind}

/-- What a successful mint adds to a token. -/
def mints (codec : PATCodec) (self : PATRegistry) (call : PATCall) (symbol : String) : ℕ :=
  match call.intent.kind, call.result codec self with
  | .mint i, .ok _ => if i.symbol = symbol then i.amount.toNat else 0
  | _, _ => 0

/-- An admitted intent goes through; its amount is not turned round by the cast,
and the product with the burn rate does not wrap. -/
def NoOverflow (codec : PATCodec) (self : PATRegistry) (call : PATCall) : Prop :=
  ∀ outcome, self.admitted codec call.now call.intent = .ok outcome →
    (∃ success, call.result codec self = .ok success) ∧ call.intent.kind.amount.toNat < 2 ^ 127 ∧
      ∀ token, self.tokens.lookup call.intent.kind.symbol = some token →
        call.intent.kind.amount.toNat * token.burnRateBps.toNat < 2 ^ 128

/-- The balances of a frozen token change only by a mint or a burn. -/
def FrozenKept (codec : PATCodec) (self : PATRegistry) (call : PATCall) : Prop :=
  ∀ symbol token address, self.tokens.lookup symbol = some token → token.frozen = true →
    (call.apply codec self).balanceOf symbol address ≠ self.balanceOf symbol address →
      (∃ i, call.intent.kind = .mint i ∧ i.symbol = symbol) ∨ ∃ i, call.intent.kind = .burn i ∧ i.symbol = symbol

/-- The burned total has room for what an admitted intent burns. -/
def Burnable (codec : PATCodec) (self : PATRegistry) (call : PATCall) : Prop :=
  ∀ outcome token, self.admitted codec call.now call.intent = .ok outcome →
    self.tokens.lookup call.intent.kind.symbol = some token →
      token.totalBurned.toNat + (call.intent.kind.burned token).toNat < 2 ^ 128

variable {symbol : String} {token : PATToken} {amount : U128} {ledger : TokenLedger}
  {«from» : Address}

theorem mints_of_failed (failed : ¬ ∃ outcome, call.result codec self = .ok outcome) :
    call.mints codec self symbol = 0 := by
  unfold mints
  split
  · rename_i outcome _ done
    exact absurd ⟨outcome, done⟩ failed
  · rfl

theorem mints_of_other (other : ∀ i, call.intent.kind ≠ .mint i) : call.mints codec self symbol = 0 := by
  unfold mints
  split
  · rename_i i outcome is _
    exact absurd is (other i)
  · rfl

theorem mints_of_success {i} (is : call.intent.kind = .mint i)
    (success : ∃ outcome, call.result codec self = .ok outcome) :
    call.mints codec self symbol = if i.symbol = symbol then i.amount.toNat else 0 := by
  obtain ⟨outcome, done⟩ := success
  simp only [mints, is, done]

def mintedAfter (codec : PATCodec) (self : PATRegistry) (minted : String → ℕ) (call : PATCall) (symbol : String) : ℕ :=
  minted symbol + call.mints codec self symbol

/-- The call keeps the books, and no count overflows. -/
abbrev Keeps (codec : PATCodec) (self : PATRegistry) (minted : String → ℕ) (call : PATCall) : Prop :=
  (call.apply codec self).Identity (call.mintedAfter codec self minted) ∧ call.NoOverflow codec self

theorem matched_apply (matched : self.Matched) (call : PATCall) : (call.apply codec self).Matched :=
  matched.execute call.now call.createdAt call.intent

/-- The identity after a token and its ledger were rewritten is one of numbers. -/
theorem identity_of_wrote {balances supply burned}
    (wrote : Wrote self (call.apply codec self) symbol token balances supply burned) (matched : self.Matched)
    (identity : self.Identity minted) (known : self.tokens.lookup symbol = some token)
    (others : ∀ other, other ≠ symbol → call.mints codec self other = 0) (sum : total balances = supply)
    (cap : supply ≤ token.totalSupplyCap.toNat)
    (issued : minted symbol + call.mints codec self symbol = supply + burned) :
    (call.apply codec self).Identity (call.mintedAfter codec self minted) := by
  obtain ⟨token', lookup, rebooked⟩ := wrote.token
  obtain ⟨ledger, ledgers, held⟩ := wrote.ledger
  obtain ⟨here, elsewhere⟩ := held_of_insert ledgers
  refine (identity_iff_of_replaced matched (matched_apply matched call) identity lookup
    fun other apart => ⟨wrote.elsewhere other apart, elsewhere other apart, ?_⟩).mpr ⟨?_, ?_, ?_, ?_⟩
  · rw [mintedAfter, others other apart, add_zero]
  · rw [here, held, sum, rebooked.supply]
  · rw [rebooked.supply, rebooked.cap]
    exact cap
  · rw [mintedAfter, issued, rebooked.supply, rebooked.burned]
  · rw [rebooked.rate]
    exact identity.rate symbol token known

theorem le_of_withinCap (positive : 1 ≤ token.totalSupplyCap.toNat)
    (bounded : token.totalSupplyCap.toNat ≤ 2 ^ 118) (passed : PATEngine.withinCap token amount = .ok ()) :
    token.currentSupply.toNat + amount.toNat ≤ token.totalSupplyCap.toNat := by
  have capped : 0 < token.totalSupplyCap := lt_def.mpr positive
  rw [PATEngine.withinCap, if_pos capped] at passed
  simp only at passed
  split at passed
  · cases passed
  rename_i within
  have sum := BitVec.le_def.mp (BitVec.not_lt.mp within)
  rw [toNat_saturatingAdd] at sum
  omega

/-- The amounts of a transfer or burn are covered by the supply. -/
theorem noOverflow_amounts {kind} (is : call.intent.kind = kind)
    (known : self.tokens.lookup kind.symbol = some token) (rate : token.burnRateBps.toNat ≤ 1000)
    (bounded : kind.amount.toNat ≤ 2 ^ 118) (success : ∃ success, call.result codec self = .ok success) :
    call.NoOverflow codec self := by
  intro _ _
  rw [is]
  refine ⟨success, by omega, fun token' same => ?_⟩
  cases known.symm.trans same
  have product := mul_le_mul bounded rate
  omega

section Sized

variable (matched : self.Matched) (capped : self.Capped) (identity : self.Identity minted)
include matched capped identity

theorem mint_sound {i} (is : call.intent.kind = .mint i)
    (accepted : call.Admits codec self outcome) : call.Keeps codec self minted := by
  obtain ⟨positive, ⟨token, known, within⟩, -⟩ := admitted_mint accepted is
  obtain ⟨ledger, found⟩ := matched.ledger_of_token known
  have balanced := identity.balanced known found
  obtain ⟨least, most⟩ := capped i.symbol token known
  have bounded := le_of_withinCap least most within
  have holding := balanced.holding i.to
  have added : (ledger.balanceOf i.to + i.amount).toNat = (ledger.balanceOf i.to).toNat + i.amount.toNat :=
    toNat_add_of_lt (by omega)
  have sum := balanced.total_update i.to (ledger.balanceOf i.to + i.amount).toNat
  have books : ledger.Books i.to i.amount := (if_pos (by omega)).mpr (by omega)
  rcases mint_ends accepted is known found with ⟨refused, -⟩ | ⟨-, supply, wrote, grown, result⟩
  · exact absurd books refused
  rw [if_neg (by omega)] at result
  have issued := balanced.minted
  constructor
  · refine identity_of_wrote wrote matched identity known (fun other apart => ?_) (by omega) (by omega) ?_
    · rw [mints_of_success is ⟨outcome, result⟩, if_neg (Ne.symm apart)]
    · rw [mints_of_success is ⟨outcome, result⟩, if_pos rfl]
      omega
  · exact noOverflow_amounts is known balanced.rate (show i.amount.toNat ≤ 2 ^ 118 by omega) ⟨outcome, result⟩

theorem burn_sound_iff {i} (is : call.intent.kind = .burn i)
    (accepted : call.Admits codec self outcome) {token} (known : self.tokens.lookup i.symbol = some token) :
    call.Keeps codec self minted ↔ token.totalBurned.toNat + i.amount.toNat < 2 ^ 128 := by
  obtain ⟨-, ⟨ledger, found, covered⟩, -⟩ := admitted_burn accepted is
  have balanced := identity.balanced known found
  obtain ⟨-, most⟩ := capped i.symbol token known
  have holding := balanced.holding call.intent.caller
  have below := balanced.cap
  rcases burn_ends accepted is known found with ⟨large, -⟩ | ⟨-, wrote, result⟩
  · omega
  have unminted (other : String) : call.mints codec self other = 0 := mints_of_other (by simp [is])
  have sum := balanced.total_update call.intent.caller ((ledger.balanceOf call.intent.caller).toNat - i.amount.toNat)
  have issued := balanced.minted
  by_cases fits : token.totalBurned.toNat + i.amount.toNat < 2 ^ 128
  · rw [if_pos fits] at wrote result
    refine iff_of_true ⟨?_, ?_⟩ fits
    · refine identity_of_wrote wrote matched identity known (fun other _ => unminted other) (by omega) (by omega) ?_
      rw [unminted]
      omega
    · exact noOverflow_amounts is known balanced.rate (show i.amount.toNat ≤ 2 ^ 118 by omega) ⟨outcome, result⟩
  · refine iff_of_false (fun sound => ?_) fits
    obtain ⟨_, success⟩ := (sound.2 outcome accepted).1
    rw [result, if_neg fits] at success
    cases success

theorem Move.sound_iff {symbol «to» token}
    (move : Move codec self call outcome symbol «from» «to» amount token ledger)
    (named : call.intent.kind.symbol = symbol) (sized : call.intent.kind.amount = amount) :
    call.Keeps codec self minted ↔ token.totalBurned.toNat + (token.transferBurnAmount amount).toNat < 2 ^ 128 := by
  have balanced := identity.balanced move.known move.found
  obtain ⟨-, most⟩ := capped symbol token move.known
  have covered := move.covered
  have sending := balanced.holding «from»
  have receiving := balanced.holding «to»
  have below := balanced.cap
  have issued := balanced.minted
  have share := PATToken.transferBurnAmount_le balanced.rate amount
  have received : (amount - token.transferBurnAmount amount).toNat =
      amount.toNat - (token.transferBurnAmount amount).toNat := toNat_sub_of_le (BitVec.le_def.mpr share)
  have books : ledger.Books «to» (amount - token.transferBurnAmount amount) := (if_pos (by omega)).mpr (by omega)
  rcases move.ends with ⟨large, -⟩ | ⟨-, paid, lowered, ⟨refused, -⟩ | ⟨-, wrote, result⟩⟩
  · omega
  · exact absurd books refused
  · rw [toNat_add_of_lt (by omega)] at wrote
    have unminted (other : String) : call.mints codec self other = 0 := mints_of_other move.notMint
    have sum := @Balanced.total_moved _ _ _ balanced _ _ _ (amount - token.transferBurnAmount amount).toNat _ move.apart
      covered lowered
    by_cases room : token.totalBurned.toNat + (token.transferBurnAmount amount).toNat < 2 ^ 128
    · rw [if_pos room] at wrote result
      refine iff_of_true ⟨?_, ?_⟩ room
      · refine identity_of_wrote wrote matched identity move.known (fun other _ => unminted other) (by omega) (by omega) ?_
        rw [unminted]
        omega
      · exact noOverflow_amounts rfl (named ▸ move.known) balanced.rate (sized ▸ (by omega)) ⟨outcome, result⟩
    · refine iff_of_false (fun sound => ?_) room
      obtain ⟨_, success⟩ := (sound.2 outcome move.accepted).1
      rw [result, if_neg room] at success
      cases success

end Sized

section Others

variable {token token' : PATToken}

theorem unmoved_sound {symbol} (matched : self.Matched) (identity : self.Identity minted)
    (notMint : ∀ i, call.intent.kind ≠ .mint i) (ledgers : (call.apply codec self).ledgers = self.ledgers)
    (known : self.tokens.lookup symbol = some token) (here : (call.apply codec self).tokens.lookup symbol = some token')
    (elsewhere : ∀ other, other ≠ symbol → (call.apply codec self).tokens.lookup other = self.tokens.lookup other)
    (kept : token'.currentSupply = token.currentSupply ∧ token'.totalBurned = token.totalBurned ∧
      token'.totalSupplyCap = token.totalSupplyCap) (rate : token'.burnRateBps.toNat ≤ 1000) :
    (call.apply codec self).Identity (call.mintedAfter codec self minted) := by
  obtain ⟨supply, burned, cap⟩ := kept
  have unminted (other : String) : call.mintedAfter codec self minted other = minted other := by
    rw [mintedAfter, mints_of_other notMint, add_zero]
  have same (other : String) : (call.apply codec self).held other = self.held other := by
    rw [held, ledgers, held]
  refine (identity_iff_of_replaced matched (matched_apply matched call) identity here
    fun other apart => ⟨elsewhere other apart, same other, unminted other⟩).mpr ?_
  have balanced := matched.identity_iff.mp identity symbol token known
  rw [same, unminted]
  refine ⟨?_, ?_, ?_, rate⟩
  · rw [supply]
    exact balanced.sum
  · rw [supply, cap]
    exact balanced.cap
  · rw [supply, burned]
    exact balanced.minted

theorem quiet_other (is : call.intent.kind = kind) (quiet : kind.Quiet) :
    (∀ i, call.intent.kind ≠ .createToken i) ∧ ∀ i, call.intent.kind ≠ .mint i := by
  subst is
  constructor
  all_goals
    intro i is
    rw [is] at quiet
    exact quiet

section
variable (matched : self.Matched) (identity : self.Identity minted)
include matched identity

theorem mutation_sound {mutation change} (is : call.intent.kind = kind)
    (quiet : kind.Quiet) (still : kind.amount = 0) (accepted : call.Admits codec self outcome)
    (known : self.tokens.lookup kind.symbol = some token) (parts : outcome.diff.Is [] [] [] [mutation])
    (applied : self.applyMutation codec mutation = self.changeToken codec kind.symbol change)
    (kept : (change token).currentSupply = token.currentSupply ∧ (change token).totalBurned = token.totalBurned ∧
      (change token).totalSupplyCap = token.totalSupplyCap) (rate : (change token).burnRateBps.toNat ≤ 1000) :
    call.Keeps codec self minted := by
  obtain ⟨result, same⟩ := mutation_ends accepted (quiet_other is quiet).1 parts
  have tokens : (call.apply codec self).tokens = self.tokens.insert kind.symbol ((change token).recomputeHash codec.sha256) := by
    refine (congrArg RegistryView.tokens same).trans ?_
    rw [applied, view, changeToken, known]
  have ledgers : (call.apply codec self).ledgers = self.ledgers := by
    refine (congrArg RegistryView.ledgers same).trans ?_
    rw [applied, view, changeToken, known]
  constructor
  · have here : (call.apply codec self).tokens.lookup kind.symbol = some ((change token).recomputeHash codec.sha256) := by
      rw [tokens, lookup_insert]
    exact unmoved_sound matched identity (quiet_other is quiet).2 ledgers known here
      (fun _ apart => by rw [tokens, lookup_insert_ne apart]) kept rate
  · refine noOverflow_amounts is known (identity.rate kind.symbol token known) ?_ ⟨outcome, result⟩
    rw [still]
    exact zero_le _

theorem approve_sound {i} (is : call.intent.kind = .approve i)
    (accepted : call.Admits codec self outcome) (known : self.tokens.lookup i.symbol = some token)
    : call.Keeps codec self minted := by
  obtain ⟨table, there⟩ := matched.allowances_of_token known
  rcases approve_ends accepted (by simp [is]) (admitted_approve accepted is) with ⟨missing, -⟩ | ⟨_, -, result, same⟩
  · cases there.symm.trans missing
  have tokens : (call.apply codec self).tokens = self.tokens := congrArg RegistryView.tokens same
  constructor
  · exact unmoved_sound matched identity (by simp [is]) (congrArg RegistryView.ledgers same) known (tokens ▸ known)
      (fun other _ => by rw [tokens]) ⟨rfl, rfl, rfl⟩ (identity.rate i.symbol token known)
  · exact noOverflow_amounts is known (identity.rate i.symbol token known) (zero_le _) ⟨outcome, result⟩

theorem createToken_sound {i}
    (unissued : ∀ symbol, self.tokens.lookup symbol = none → minted symbol = 0) (is : call.intent.kind = .createToken i)
    (accepted : call.Admits codec self outcome) : call.Keeps codec self minted := by
  obtain ⟨unknown, -, token, ⟨unsupplied, unburned, rate, -⟩, result, same⟩ := createToken_ends accepted is
  have tokens : (call.apply codec self).tokens = _ := congrArg RegistryView.tokens same
  obtain ⟨here, elsewhere⟩ :=
    @held_of_insert self (call.apply codec self) i.symbol .empty (congrArg RegistryView.ledgers same)
  have unminted (other : String) : call.mintedAfter codec self minted other = minted other := by
    rw [mintedAfter, mints_of_other (by simp [is]), add_zero]
  constructor
  · refine (@identity_iff_of_replaced self _ i.symbol minted _ token matched (matched_apply matched call) identity
      ?_ fun other apart => ⟨?_, elsewhere other apart, unminted other⟩).mpr ?_
    · rw [tokens, lookup_insert]
    · rw [tokens, lookup_insert_ne apart]
    · rw [here, unminted, unissued i.symbol unknown]
      refine ⟨?_, ?_, ?_, rate⟩
      · rw [unsupplied, TokenLedger.held, TokenLedger.empty, ofMap_empty]
        exact total_zero
      · rw [unsupplied]
        exact zero_le _
      · rw [unsupplied, unburned]
        rfl
  · intro _ _
    rw [is]
    refine ⟨⟨outcome, result⟩, Nat.two_pow_pos 127, fun token' known => ?_⟩
    cases unknown.symm.trans known

end

theorem Move.frozen_unmoved {symbol other «to»}
    (move : Move codec self call outcome symbol «from» «to» amount token ledger)
    (known : self.tokens.lookup other = some token') (frozen : token'.frozen = true) (address : Address) :
    (call.apply codec self).balanceOf other address = self.balanceOf other address := by
  have apart : other ≠ symbol := by
    rintro rfl
    cases move.known.symm.trans known
    exact absurd frozen (by simp [move.thawed])
  rcases move.ends with ⟨-, stopped⟩ | ⟨-, paid, -, ⟨-, wrote, -⟩ | ⟨-, wrote, -⟩⟩
  · rw [stopped.2]
  · exact wrote.balanceOf_elsewhere apart address
  · exact wrote.balanceOf_elsewhere apart address

theorem frozen_kept (matched : self.Matched) (call : PATCall) : call.FrozenKept codec self := by
  intro symbol token address known frozen changed
  cases accepted : self.admitted codec call.now call.intent with
  | error e =>
    rw [(ends_of_refused accepted).2] at changed
    exact absurd rfl changed
  | ok outcome =>
    cases is : call.intent.kind with
    | createToken i => exact absurd (balanceOf_createToken matched is accepted symbol address) changed
    | mint i =>
      obtain ⟨-, ⟨token', known', -⟩, -⟩ := admitted_mint accepted is
      obtain ⟨ledger, found⟩ := matched.ledger_of_token known'
      refine .inl ⟨i, rfl, not_not.mp fun apart => changed ?_⟩
      rcases mint_ends accepted is known' found with ⟨-, stopped⟩ | ⟨-, _, wrote, -⟩
      · rw [stopped.2]
      · exact wrote.balanceOf_elsewhere (Ne.symm apart) address
    | burn i =>
      obtain ⟨token', known'⟩ := token_of_admitted accepted is (by simp)
      obtain ⟨-, ⟨ledger, found, -⟩, -⟩ := admitted_burn accepted is
      refine .inr ⟨i, rfl, not_not.mp fun apart => changed ?_⟩
      rcases burn_ends accepted is known' found with ⟨-, stopped⟩ | ⟨-, wrote, -⟩
      · rw [stopped.2]
      · exact wrote.balanceOf_elsewhere (Ne.symm apart) address
    | transfer i =>
      obtain ⟨-, _, _, move⟩ := move_of_transfer is accepted
      exact absurd (move.frozen_unmoved known frozen address) changed
    | transferFrom i =>
      obtain ⟨-, _, _, move⟩ := move_of_transferFrom is accepted
      exact absurd (move.frozen_unmoved known frozen address) changed
    | approve i | freeze i | updateBurnRate i | transferOwnership i =>
      rcases quiet_ends accepted (by simp [is, PATIntentKind.Quiet]) with stopped | ⟨-, same⟩
      · rw [stopped.2] at changed
        exact absurd rfl changed
      · exact absurd (balanceOf_of_ledgers same symbol address) changed

end Others

section Steps

/-- A call keeps the identity and goes without overflow exactly when what it
burns fits into the burned total. -/
theorem sound_iff_burnable (matched : self.Matched) (capped : self.Capped) (identity : self.Identity minted)
    (unissued : ∀ symbol, self.tokens.lookup symbol = none → minted symbol = 0) (call : PATCall) :
    call.Keeps codec self minted ↔ call.Burnable codec self := by
  cases accepted : self.admitted codec call.now call.intent with
  | error e =>
    refine iff_of_true ⟨?_, fun outcome admitted => ?_⟩ fun outcome token admitted => ?_
    · obtain ⟨failed, same⟩ := ends_of_refused accepted
      have failed := Stopped.failed ⟨⟨e, failed⟩, same⟩
      have unminted : call.mintedAfter codec self minted = minted := by
        funext symbol
        rw [mintedAfter, mints_of_failed failed, add_zero]
      rw [same, unminted]
      exact identity
    · cases accepted.symm.trans admitted
    · cases accepted.symm.trans admitted
  | ok outcome =>
    have free (none : ∀ token, call.intent.kind.burned token = 0) : call.Burnable codec self := by
      intro _ token _ _
      rw [none]
      exact token.totalBurned.isLt
    have burnable_iff {kind : PATIntentKind} {token : PATToken} (is : call.intent.kind = kind)
        (known : self.tokens.lookup kind.symbol = some token) :
        call.Burnable codec self ↔ token.totalBurned.toNat + (kind.burned token).toNat < 2 ^ 128 := by
      subst is
      refine ⟨fun burnable => burnable outcome token accepted known, fun fits _ token' _ same => ?_⟩
      cases known.symm.trans same
      exact fits
    cases is : call.intent.kind with
    | createToken i =>
      exact iff_of_true (createToken_sound matched identity unissued is accepted) (free fun _ => by rw [is]; rfl)
    | mint i => exact iff_of_true (mint_sound matched capped identity is accepted) (free fun _ => by rw [is]; rfl)
    | burn i =>
      obtain ⟨token, known⟩ := token_of_admitted accepted is (by simp)
      rw [burnable_iff is known]
      exact burn_sound_iff matched capped identity is accepted known
    | transfer i =>
      obtain ⟨-, token, ledger, move⟩ := move_of_transfer is accepted
      rw [burnable_iff is move.known]
      exact Move.sound_iff matched capped identity move (by rw [is]; rfl) (by rw [is]; rfl)
    | transferFrom i =>
      obtain ⟨-, token, ledger, move⟩ := move_of_transferFrom is accepted
      rw [burnable_iff is move.known]
      exact Move.sound_iff matched capped identity move (by rw [is]; rfl) (by rw [is]; rfl)
    | approve i =>
      obtain ⟨token, known⟩ := token_of_admitted accepted is (by simp)
      exact iff_of_true (approve_sound matched identity is accepted known) (free fun _ => by rw [is]; rfl)
    | freeze i =>
      obtain ⟨token, known⟩ := token_of_admitted accepted is (by simp)
      refine iff_of_true ?_ (free fun _ => by rw [is]; rfl)
      exact mutation_sound matched identity is trivial rfl accepted known (admitted_freeze accepted is) rfl
        ⟨rfl, rfl, rfl⟩ (identity.rate i.symbol token known)
    | updateBurnRate i =>
      obtain ⟨token, known⟩ := token_of_admitted accepted is (by simp)
      obtain ⟨rate, parts⟩ := admitted_updateBurnRate accepted is
      refine iff_of_true ?_ (free fun _ => by rw [is]; rfl)
      exact mutation_sound matched identity is trivial rfl accepted known parts rfl ⟨rfl, rfl, rfl⟩ rate
    | transferOwnership i =>
      obtain ⟨token, known⟩ := token_of_admitted accepted is (by simp)
      refine iff_of_true ?_ (free fun _ => by rw [is]; rfl)
      exact mutation_sound matched identity is trivial rfl accepted known (admitted_transferOwnership accepted is) rfl
        ⟨rfl, rfl, rfl⟩ (identity.rate i.symbol token known)

end Steps

end PATCall

end Bleep.Pat
