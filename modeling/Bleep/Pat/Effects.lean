import Bleep.Pat.Registry

namespace Bleep.Pat

open HashTable Words Results TokenLedger AList Option Except
open Relation (ReflGen)

/-- The sign of an amount that was cast to `i128`. -/
theorem nonneg_cast_iff (amount : U128) : 0 ≤ amount.toInt ↔ amount.toNat < 2 ^ 127 := by
  rw [BitVec.toInt_eq_toNat_cond]
  split <;> omega

variable {amount : U128}

theorem toNat_pos_of_ne (nonzero : amount ≠ 0) : 0 < amount.toNat := by
  refine Nat.pos_of_ne_zero fun zero => nonzero ?_
  exact BitVec.eq_of_toNat_eq zero

theorem toNat_add_neg {balance} (covered : amount.toNat ≤ balance.toNat) :
    (balance + -amount).toNat = balance.toNat - amount.toNat := by
  rw [← BitVec.sub_eq_add_neg, BitVec.toNat_sub_of_le (BitVec.le_def.mpr covered)]

/-- A delta can be booked: as an `i128` it is a credit that does not overflow, or
a debit that is covered. -/
def TokenLedger.Books (ledger : TokenLedger) (address : Address) (delta : I128) : Prop :=
  if delta.toNat < 2 ^ 127 then (ledger.balanceOf address).toNat + delta.toNat < 2 ^ 128
  else 2 ^ 128 ≤ (ledger.balanceOf address).toNat + delta.toNat

/-- What a holder pays can be booked up to half the range. -/
theorem TokenLedger.books_neg_iff {ledger : TokenLedger} {address} {amount : U128}
    (positive : 0 < amount.toNat) (covered : amount.toNat ≤ (ledger.balanceOf address).toNat) :
    ledger.Books address (-amount) ↔ amount.toNat ≤ 2 ^ 127 := by
  unfold TokenLedger.Books
  rw [BitVec.toNat_neg]
  split <;> omega

structure PATStateDiff.Is (diff : PATStateDiff) (balances : List BalanceDelta) (supply : List SupplyDelta)
    (updates : List AllowanceUpdate) (mutations : List TokenMutation) : Prop where
  balances : diff.balanceDeltas = balances
  supply : diff.supplyDeltas = supply
  updates : diff.allowanceUpdates = updates
  mutations : diff.tokenMutations = mutations

namespace PATRegistry

variable {codec : PATCodec} {self after : PATRegistry} {symbol : String} {address : Address} {ledger : TokenLedger}
  {token : PATToken} {delta : I128}

/-- What the keys of a token's ledger hold. -/
noncomputable def held (self : PATRegistry) (symbol : String) : String →₀ ℕ :=
  (self.ledgers.lookup symbol).elim 0 TokenLedger.held

/-- Tokens, ledgers and allowance tables are made together. -/
structure Matched (registry : PATRegistry) : Prop where
  ledger : ∀ symbol, (registry.ledgers.lookup symbol).isSome = (registry.tokens.lookup symbol).isSome
  allowance : ∀ symbol, (registry.allowances.lookup symbol).isSome = (registry.tokens.lookup symbol).isSome

def withLedger (self : PATRegistry) (symbol : String) (ledger : TokenLedger) : PATRegistry :=
  { self with ledgers := self.ledgers.insert symbol ledger }

def withToken (self : PATRegistry) (symbol : String) (token : PATToken) : PATRegistry :=
  { self with tokens := self.tokens.insert symbol token }

section Rewriting

/-- What the parts of a diff do to a registry: an entry of a table is rewritten,
which leaves the cap of a token, or events are added. -/
inductive Rewrites (self : PATRegistry) : PATRegistry → Prop
  | ledger {symbol : String} {ledger : TokenLedger} (found : self.ledgers.lookup symbol = some ledger)
      (after : TokenLedger) : Rewrites self (self.withLedger symbol after)
  | token {symbol : String} {token after : PATToken} (found : self.tokens.lookup symbol = some token)
      (cap : after.totalSupplyCap = token.totalSupplyCap) : Rewrites self (self.withToken symbol after)
  | allowances {symbol : String} {table : AllowanceTable} (found : self.allowances.lookup symbol = some table)
      (after : AllowanceTable) : Rewrites self { self with allowances := self.allowances.insert symbol after }
  | events (events : List PATEvent) : Rewrites self { self with events := events }

theorem applyBalance_rewrites (self : PATRegistry) (delta : BalanceDelta) :
    ReflGen Rewrites self (orUnchanged applyBalance self delta).2 ∧
      (orUnchanged applyBalance self delta).2.allowances = self.allowances := by
  rcases orUnchanged_cases applyBalance self delta with ⟨e, -, same⟩ | ⟨after, done, same⟩
  · rw [same]
    exact ⟨.refl, rfl⟩
  · rw [same]
    unfold applyBalance at done
    split at done
    · cases done
    rename_i found
    split at done
    · cases done
    cases done
    exact ⟨.single (.ledger found _), rfl⟩

theorem applySupply_rewrites (self : PATRegistry) (delta : SupplyDelta) :
    ReflGen Rewrites self (self.applySupply codec delta).2 ∧
      (self.applySupply codec delta).2.allowances = self.allowances := by
  unfold applySupply
  split
  · exact ⟨.refl, rfl⟩
  rename_i found
  split
  · exact ⟨.refl, rfl⟩
  · split
    · exact ⟨.single (.token found rfl), rfl⟩
    · exact ⟨.single (.token found rfl), rfl⟩

theorem applyAllowance_rewrites (self : PATRegistry) (update : AllowanceUpdate) :
    ReflGen Rewrites self (orUnchanged applyAllowance self update).2 := by
  unfold orUnchanged applyAllowance
  cases found : self.allowances.lookup update.symbol with
  | none => exact .refl
  | some table => exact .single (.allowances found _)

theorem applyMutation_rewrites (self : PATRegistry) (mutation : TokenMutation) :
    ReflGen Rewrites self (self.applyMutation codec mutation) ∧
      (self.applyMutation codec mutation).ledgers = self.ledgers ∧
      (self.applyMutation codec mutation).allowances = self.allowances := by
  cases mutation with
  | createToken symbol => exact ⟨.refl, rfl, rfl⟩
  | _ =>
    simp only [applyMutation, changeToken]
    split
    · exact ⟨.refl, rfl, rfl⟩
    · rename_i found
      exact ⟨.single (.token found rfl), rfl, rfl⟩

variable {τ : Type} (read : PATRegistry → τ) (keeps : ∀ before after, Rewrites before after → read after = read before)
include keeps

theorem read_of_rewrites (step : ReflGen Rewrites self after) : read after = read self := by
  cases step with
  | refl => rfl
  | single step => exact keeps self after step

/-- What no rewriting changes, no diff changes. -/
theorem read_applyDiff (self : PATRegistry) (diff : PATStateDiff) : read (self.applyDiff codec diff).2 = read self := by
  refine (andThen_preserves read (fun first => ?_) _).trans (inPlace_preserves read
    (fun s delta => read_of_rewrites read keeps (applyBalance_rewrites s delta).1) diff.balanceDeltas self)
  refine (andThen_preserves read (fun second => ?_) _).trans (inPlace_preserves read
    (fun s delta => read_of_rewrites read keeps (applySupply_rewrites s delta).1) diff.supplyDeltas first)
  refine (andThen_preserves read (fun third => ?_) _).trans (inPlace_preserves read
    (fun s update => read_of_rewrites read keeps (applyAllowance_rewrites s update)) diff.allowanceUpdates second)
  refine (keeps _ _ (.events _)).trans ?_
  exact List.foldlRecOn (motive := fun after => read after = read third) _ _ rfl fun after kept mutation _ =>
    (read_of_rewrites read keeps (applyMutation_rewrites after mutation).1).trans kept

end Rewriting

section Allowances

variable {diff : PATStateDiff} {update : AllowanceUpdate} {table : AllowanceTable}

theorem applyAllowance_ok (found : self.allowances.lookup update.symbol = some table) :
    orUnchanged applyAllowance self update = (.ok (), { self with
      allowances := self.allowances.insert update.symbol (table.set update.owner update.spender update.newValue) }) := by
  refine orUnchanged_ok ?_
  rw [applyAllowance, found]
  rfl

/-- The balances and the supply are booked before the allowances. -/
theorem allowances_applyDiff (self : PATRegistry) (diff : PATStateDiff) :
    (∃ error, (self.applyDiff codec diff).1 = .error error ∧
        (self.applyDiff codec diff).2.allowances = self.allowances) ∨
      ∃ second : PATRegistry, second.allowances = self.allowances ∧
        (self.applyDiff codec diff).1 = (inPlace (orUnchanged applyAllowance) diff.allowanceUpdates second).1 ∧
        (self.applyDiff codec diff).2.allowances =
          (inPlace (orUnchanged applyAllowance) diff.allowanceUpdates second).2.allowances := by
  have balance := inPlace_preserves PATRegistry.allowances (fun s delta => (applyBalance_rewrites s delta).2)
    diff.balanceDeltas self
  unfold applyDiff
  rcases booked : inPlace (orUnchanged applyBalance) diff.balanceDeltas self with ⟨error | _, first⟩
  all_goals rw [booked] at balance
  · exact .inl ⟨error, rfl, balance⟩
  have supply := inPlace_preserves PATRegistry.allowances (fun s delta => (@applySupply_rewrites codec s delta).2)
    diff.supplyDeltas first
  rw [andThen_ok]
  rcases supplied : inPlace (applySupply codec) diff.supplyDeltas first with ⟨error | _, second⟩
  all_goals rw [supplied] at supply
  · exact .inl ⟨error, rfl, supply.trans balance⟩
  refine .inr ⟨second, supply.trans balance, ?_⟩
  rw [andThen_ok]
  rcases inPlace (orUnchanged applyAllowance) diff.allowanceUpdates second with ⟨error | _, third⟩
  · exact ⟨rfl, rfl⟩
  · exact ⟨rfl, List.foldlRecOn (motive := fun after => after.allowances = third.allowances) _ _ rfl
      fun after kept mutation _ => (applyMutation_rewrites after mutation).2.2.trans kept⟩

end Allowances

section Stages

variable {amount burned : U128} {supply : SupplyDelta}

theorem applyBalance_of_books (found : self.ledgers.lookup symbol = some ledger) (books : ledger.Books address delta) :
    ∃ after, orUnchanged applyBalance self ⟨symbol, address, delta⟩ = (.ok (), self.withLedger symbol after) ∧
      after.held = ledger.held.update (key address) (ledger.balanceOf address + delta).toNat := by
  unfold TokenLedger.Books at books
  split at books
  · rename_i small
    have sign := (nonneg_cast_iff delta).mpr small
    obtain ⟨balance, after, credited⟩ := credit_of_lt books
    refine ⟨after, orUnchanged_ok ?_, ?_⟩
    · simp [applyBalance, found, sign, credited, withLedger]
    · rw [held_credit credited, BitVec.toNat_add_of_lt books]
  · rename_i large
    have sign := mt (nonneg_cast_iff delta).mp large
    have size : (-delta).toNat = 2 ^ 128 - delta.toNat := by
      rw [BitVec.toNat_neg]
      omega
    obtain ⟨balance, after, debited⟩ := @TokenLedger.debit_of_le ledger address (-delta) (by omega)
    refine ⟨after, orUnchanged_ok ?_, ?_⟩
    · simp [applyBalance, found, sign, debited, withLedger]
    · rw [held_debit debited, BitVec.toNat_add, size]
      congr 1
      omega

theorem applyBalance_of_not_books (found : self.ledgers.lookup symbol = some ledger)
    (refused : ¬ ledger.Books address delta) :
    ∃ error, orUnchanged applyBalance self ⟨symbol, address, delta⟩ = (.error error, self) := by
  unfold TokenLedger.Books at refused
  split at refused
  · rename_i small
    refine ⟨.balanceOverflow (key address), orUnchanged_error ?_⟩
    simp [applyBalance, found, (nonneg_cast_iff delta).mpr small, credit_of_not refused]
  · rename_i large
    have short : ¬ (-delta).toNat ≤ (ledger.balanceOf address).toNat := by
      rw [BitVec.toNat_neg]
      omega
    obtain ⟨error, stopped⟩ := debit_of_not short
    refine ⟨error, orUnchanged_error ?_⟩
    simp [applyBalance, found, mt (nonneg_cast_iff delta).mp large, stopped]

/-- The token after a change of its supply and burned total. -/
structure Rebooked (before after : PATToken) (supply burned : ℕ) : Prop where
  supply : after.currentSupply.toNat = supply
  burned : after.totalBurned.toNat = burned
  cap : after.totalSupplyCap = before.totalSupplyCap
  owner : after.owner = before.owner
  rate : after.burnRateBps = before.burnRateBps

structure Replaced (before after : PATRegistry) (symbol : String) (token : PATToken) : Prop where
  here : after.tokens.lookup symbol = some token
  elsewhere : ∀ other, other ≠ symbol → after.tokens.lookup other = before.tokens.lookup other
  ledgers : after.ledgers = before.ledgers
  allowances : after.allowances = before.allowances

theorem replaced_withToken (self : PATRegistry) (symbol : String) (token : PATToken) :
    Replaced self (self.withToken symbol token) symbol token where
  here := AList.lookup_insert _
  elsewhere _ apart := lookup_insert_ne apart
  ledgers := rfl
  allowances := rfl

theorem Replaced.same (found : self.tokens.lookup symbol = some token) : Replaced self self symbol token :=
  ⟨found, fun _ _ => rfl, rfl, rfl⟩

theorem Rebooked.same (token : PATToken) :
    Rebooked token token token.currentSupply.toNat token.totalBurned.toNat := ⟨rfl, rfl, rfl, rfl, rfl⟩

theorem applySupply_ok {total} (found : self.tokens.lookup supply.symbol = some token)
    (moved : supplyAfter token.currentSupply supply.supplyDelta = some total)
    (fits : token.totalBurned.toNat + supply.burnedAdd.toNat < 2 ^ 128) :
    self.applySupply codec supply = (.ok (), self.withToken supply.symbol (PATToken.recomputeHash codec.sha256
      { token with currentSupply := total, totalBurned := token.totalBurned + supply.burnedAdd })) := by
  simp only [applySupply, found, moved, checkedAdd_of_lt fits, withToken]

/-- Minting raises the supply unless it overflows; an amount that is negative
as an `i128` lowers it. -/
theorem mint_supply_stage (found : self.tokens.lookup symbol = some token) :
    ∃ second after supply, self.applySupply codec ⟨symbol, amount, 0⟩ =
        (if amount.toNat < 2 ^ 127 ∧ 2 ^ 128 ≤ token.currentSupply.toNat + amount.toNat
          then .error (.balanceOverflow symbol) else .ok (), second) ∧
      Replaced self second symbol after ∧ Rebooked token after supply token.totalBurned.toNat ∧
      (amount.toNat < 2 ^ 127 → token.currentSupply.toNat + amount.toNat < 2 ^ 128 →
        supply = token.currentSupply.toNat + amount.toNat) := by
  have room : token.totalBurned.toNat + (0 : U128).toNat < 2 ^ 128 := token.totalBurned.isLt
  have unburned : (token.totalBurned + 0).toNat = token.totalBurned.toNat := by simp
  by_cases small : amount.toNat < 2 ^ 127
  · have sign := (nonneg_cast_iff amount).mpr small
    by_cases fits : token.currentSupply.toNat + amount.toNat < 2 ^ 128
    · rw [if_neg fun full => Nat.not_le_of_lt fits full.2]
      have moved : supplyAfter token.currentSupply amount = some (token.currentSupply + amount) := by
        rw [supplyAfter, if_pos sign, checkedAdd_of_lt fits]
      exact ⟨_, _, _, applySupply_ok found moved room, replaced_withToken ..,
        ⟨BitVec.toNat_add_of_lt fits, unburned, rfl, rfl, rfl⟩, fun _ _ => rfl⟩
    · rw [if_pos ⟨small, Nat.le_of_not_lt fits⟩]
      refine ⟨self, token, _, ?_, .same found, .same token, fun _ less => absurd less fits⟩
      simp [applySupply, found, supplyAfter, sign, checkedAdd_of_not fits]
  · have sign := mt (nonneg_cast_iff amount).mp small
    rw [if_neg fun full => small full.1]
    exact ⟨_, _, _, applySupply_ok found (if_neg sign) room, replaced_withToken .., ⟨rfl, unburned, rfl, rfl, rfl⟩,
      fun less => absurd less small⟩

/-- Burning lowers the supply, and raises the burned total unless it
overflows. -/
theorem burn_supply_stage (found : self.tokens.lookup symbol = some token) (positive : 0 < burned.toNat)
    (half : burned.toNat ≤ 2 ^ 127) :
    ∃ second after, self.applySupply codec ⟨symbol, -burned, burned⟩ =
        (if token.totalBurned.toNat + burned.toNat < 2 ^ 128 then .ok () else .error (.balanceOverflow symbol), second) ∧
      Replaced self second symbol after ∧ Rebooked token after (token.currentSupply.toNat - burned.toNat)
        (if token.totalBurned.toNat + burned.toNat < 2 ^ 128 then token.totalBurned.toNat + burned.toNat
          else token.totalBurned.toNat) := by
  have sign : ¬ 0 ≤ (-burned).toInt := by
    rw [nonneg_cast_iff, BitVec.toNat_neg]
    omega
  have moved : supplyAfter token.currentSupply (-burned) = some (saturatingSub token.currentSupply burned) := by
    rw [supplyAfter, if_neg sign, BitVec.neg_neg]
  by_cases fits : token.totalBurned.toNat + burned.toNat < 2 ^ 128
  · rw [if_pos fits, if_pos fits]
    exact ⟨_, _, applySupply_ok found moved fits, replaced_withToken .., toNat_saturatingSub ..,
      BitVec.toNat_add_of_lt fits, rfl, rfl, rfl⟩
  · rw [if_neg fits, if_neg fits]
    have stopped : self.applySupply codec ⟨symbol, -burned, burned⟩ = (.error (.balanceOverflow symbol),
        self.withToken symbol { token with currentSupply := saturatingSub token.currentSupply burned }) := by
      simp only [applySupply, found, moved, checkedAdd_of_not fits, withToken]
    exact ⟨_, _, stopped, replaced_withToken .., toNat_saturatingSub .., rfl, rfl, rfl, rfl⟩

/-- The supply deltas of a transfer: none where nothing is burned. -/
theorem transfer_supply_stage (found : self.tokens.lookup symbol = some token) (half : burned.toNat ≤ 2 ^ 127) :
    ∃ second after, inPlace (applySupply codec) (transferSupply symbol burned) self =
        (if token.totalBurned.toNat + burned.toNat < 2 ^ 128 then .ok () else .error (.balanceOverflow symbol), second) ∧
      Replaced self second symbol after ∧ Rebooked token after (token.currentSupply.toNat - burned.toNat)
        (if token.totalBurned.toNat + burned.toNat < 2 ^ 128 then token.totalBurned.toNat + burned.toNat
          else token.totalBurned.toNat) := by
  by_cases positive : 0 < burned
  · rw [transferSupply, if_pos positive, inPlace_singleton]
    exact burn_supply_stage found (BitVec.lt_def.mp positive) half
  · have zero : burned.toNat = 0 := Nat.eq_zero_of_not_pos fun above => positive (BitVec.lt_def.mpr above)
    rw [transferSupply, if_neg positive, inPlace_nil, zero]
    have room : token.totalBurned.toNat + 0 < 2 ^ 128 := token.totalBurned.isLt
    rw [if_pos room, if_pos room]
    exact ⟨self, token, rfl, .same found, .same token⟩

end Stages

section Writing

variable {balances : String →₀ ℕ} {supply burned : ℕ}

theorem balanceOf_of_lookup (found : self.ledgers.lookup symbol = some ledger) (address : Address) :
    self.balanceOf symbol address = ledger.balanceOf address := by
  rw [balanceOf, found]
  rfl

theorem balanceOf_of_ledgers (same : after.ledgers = self.ledgers) (symbol : String) (address : Address) :
    after.balanceOf symbol address = self.balanceOf symbol address := by
  rw [balanceOf, same, balanceOf]

/-- A registry in which a token and its ledger were rewritten. -/
structure Wrote (before after : PATRegistry) (symbol : String) (token : PATToken) (balances : String →₀ ℕ)
    (supply burned : ℕ) : Prop where
  token : ∃ token', after.tokens.lookup symbol = some token' ∧ Rebooked token token' supply burned
  elsewhere : ∀ other, other ≠ symbol → after.tokens.lookup other = before.tokens.lookup other
  ledger : ∃ ledger, after.ledgers = before.ledgers.insert symbol ledger ∧ ledger.held = balances

variable (wrote : Wrote self after symbol token balances supply burned) {other : String}
include wrote

theorem Wrote.balanceOf (address : Address) : (after.balanceOf symbol address).toNat = balances (key address) := by
  obtain ⟨ledger, replaced, rfl⟩ := wrote.ledger
  rw [PATRegistry.balanceOf, replaced, lookup_insert, ledger.held_key]
  rfl

theorem Wrote.balanceOf_elsewhere (apart : other ≠ symbol) (address : Address) :
    after.balanceOf other address = self.balanceOf other address := by
  obtain ⟨ledger, replaced, -⟩ := wrote.ledger
  rw [PATRegistry.balanceOf, replaced, lookup_insert_ne apart, PATRegistry.balanceOf]

theorem Wrote.balanceOf_kept (found : self.ledgers.lookup symbol = some ledger)
    (kept : other = symbol → balances (key address) = ledger.held (key address)) :
    after.balanceOf other address = self.balanceOf other address := by
  by_cases here : other = symbol
  · subst here
    have written := wrote.balanceOf address
    rw [kept rfl, ledger.held_key, ← balanceOf_of_lookup found] at written
    exact BitVec.eq_of_toNat_eq written
  · exact wrote.balanceOf_elsewhere here address

theorem Wrote.balanceOf_single {place balance} (single : balances = ledger.held.update (key address) balance)
    (found : self.ledgers.lookup symbol = some ledger) (apart : (other, place) ≠ (symbol, address)) :
    after.balanceOf other place = self.balanceOf other place := by
  refine wrote.balanceOf_kept found fun here => ?_
  rw [single, Finsupp.update_apply, if_neg fun same => apart ?_]
  rw [here, key_injective same]

end Writing

section Domains

/-- The symbols that each table knows. -/
def domains (self : PATRegistry) : (String → Bool) × (String → Bool) × (String → Bool) :=
  (fun symbol => (self.tokens.lookup symbol).isSome, fun symbol => (self.ledgers.lookup symbol).isSome,
    fun symbol => (self.allowances.lookup symbol).isSome)

theorem isSome_insert {V : Type} {map : HashMap String V} {value} (found : map.lookup symbol = some value)
    (next : V) (other : String) : ((map.insert symbol next).lookup other).isSome = (map.lookup other).isSome := by
  exact lookup_insert_congr isSome (by rw [found]; rfl) other

theorem domains_rewrites (before after : PATRegistry) (step : Rewrites before after) : after.domains = before.domains := by
  cases step with
  | ledger found next => simp only [domains, withLedger, isSome_insert found]
  | token found cap => simp only [domains, withToken, isSome_insert found]
  | allowances found next => simp only [domains, isSome_insert found]
  | events events => rfl

theorem Matched.of_domains (matched : self.Matched) (same : after.domains = self.domains) : after.Matched := by
  obtain ⟨tokens, ledgers, allowances⟩ : _ ∧ _ ∧ _ := ⟨congrArg Prod.fst same, congrArg (·.2.1) same,
    congrArg (·.2.2) same⟩
  constructor
  · intro symbol
    exact (congrFun ledgers symbol).trans ((matched.ledger symbol).trans (congrFun tokens symbol).symm)
  · intro symbol
    exact (congrFun allowances symbol).trans ((matched.allowance symbol).trans (congrFun tokens symbol).symm)

theorem Matched.materialise {createdAt intent base} (matched : self.Matched)
    (made : self.materialise codec createdAt intent = .ok base) : base.Matched := by
  unfold PATRegistry.materialise at made
  split at made
  · obtain ⟨token, -, rest⟩ := ok_of_bind made
    cases rest
    constructor
    all_goals
      intro symbol
      simp only [lookup_insert_eq]
      split
      · rfl
      · first | exact matched.ledger symbol | exact matched.allowance symbol
  · cases made
    exact matched

theorem Matched.execute (matched : self.Matched) (now createdAt : U64) (intent : PATIntent) :
    (self.execute codec now createdAt intent).2.Matched := by
  unfold PATRegistry.execute
  split
  · exact matched
  rename_i outcome accepted
  split
  · exact matched
  rename_i base made
  have kept := @read_applyDiff codec _ domains domains_rewrites base outcome.diff
  split
  all_goals
    rename_i applied
    rw [applied] at kept
    exact (matched.materialise made).of_domains kept

theorem matched_new (gas : PATGasModel) : (withGasModel gas).Matched := ⟨fun _ => rfl, fun _ => rfl⟩

variable (matched : self.Matched) (found : self.tokens.lookup symbol = some token)
include matched found

theorem Matched.ledger_of_token : ∃ ledger, self.ledgers.lookup symbol = some ledger := by
  refine isSome_iff_exists.mp ?_
  rw [matched.ledger, found]
  rfl

theorem Matched.allowances_of_token : ∃ table, self.allowances.lookup symbol = some table := by
  refine isSome_iff_exists.mp ?_
  rw [matched.allowance, found]
  rfl

end Domains

end PATRegistry

open PATRegistry

/-- An approval, or a change of a token's own fields. -/
def PATIntentKind.Quiet : PATIntentKind → Prop
  | approve _ => True
  | freeze _ => True
  | updateBurnRate _ => True
  | transferOwnership _ => True
  | _ => False

namespace PATCall

variable {codec : PATCodec} {self base after : PATRegistry} {call : PATCall} {outcome : PATOutcome} {error : PATError}
  {kind : PATIntentKind} {symbol : String} {token : PATToken} {ledger : TokenLedger}

theorem ends_of_refused (refused : self.admitted codec call.now call.intent = .error error) :
    call.result codec self = .error error ∧ call.apply codec self = self := by
  rw [result, apply, execute, refused]
  exact ⟨rfl, rfl⟩

/-- The call fails and changes nothing. -/
def Stopped (codec : PATCodec) (registry : PATRegistry) (call : PATCall) : Prop :=
  (∃ error, call.result codec registry = .error error) ∧ call.apply codec registry = registry

theorem Stopped.failed (stopped : call.Stopped codec self) : ¬ ∃ outcome, call.result codec self = .ok outcome := by
  rintro ⟨outcome, done⟩
  obtain ⟨error, failed⟩ := stopped.1
  cases done.symm.trans failed

theorem materialise_of_existing (existing : ∀ i, call.intent.kind ≠ .createToken i) :
    self.materialise codec call.createdAt call.intent = .ok self := by
  unfold materialise
  split
  · rename_i i same
    exact absurd same (existing i)
  · rfl

/-- The engine accepts the call with this outcome. -/
abbrev Admits (codec : PATCodec) (self : PATRegistry) (call : PATCall) (outcome : PATOutcome) : Prop :=
  self.admitted codec call.now call.intent = .ok outcome

section Admitted

variable (accepted : call.Admits codec self outcome)
include accepted

section
variable (made : self.materialise codec call.createdAt call.intent = .ok base)
include made

theorem ends_of_failed (failed : base.applyDiff codec outcome.diff = (.error error, after)) :
    call.result codec self = .error error ∧ call.apply codec self = after := by
  rw [result, apply, execute, accepted]
  simp [made, failed]

theorem ends_of_done (done : base.applyDiff codec outcome.diff = (.ok (), after)) :
    call.result codec self = .ok outcome ∧ call.apply codec self =
      { after with seenIntents := call.intent.canonicalHash codec :: after.seenIntents } := by
  rw [result, apply, execute, accepted]
  simp [made, done]

end

theorem engine_of_admitted (is : call.intent.kind = kind) :
    self.existence kind = .ok () ∧
      ∃ gasUsed, PATEngine.dispatch codec call.now call.intent.caller gasUsed self.view kind = .ok outcome := by
  obtain ⟨_, -, rest⟩ := ok_of_bind accepted
  obtain ⟨_, known, rest⟩ := ok_of_bind rest
  obtain ⟨gasUsed, -, rest⟩ := ok_of_bind rest
  subst is
  exact ⟨known, gasUsed, rest⟩

theorem token_of_admitted (is : call.intent.kind = kind) (other : ∀ i, kind ≠ .createToken i) :
    ∃ token, self.tokens.lookup kind.symbol = some token := by
  obtain ⟨known, -⟩ := engine_of_admitted accepted is
  cases kind with
  | createToken i => exact absurd rfl (other i)
  | _ =>
    simp only [existence] at known
    split at known
    · rename_i some
      exact isSome_iff_exists.mp some
    · cases known

section Kinds

theorem admitted_mint {i} (is : call.intent.kind = .mint i) :
    0 < i.amount.toNat ∧ (∃ token, self.tokens.lookup i.symbol = some token ∧
      PATEngine.withinCap token i.amount = .ok ()) ∧
      outcome.diff.Is [⟨i.symbol, i.to, i.amount⟩] [⟨i.symbol, i.amount, 0⟩] [] [] := by
  obtain ⟨-, gasUsed, run⟩ := engine_of_admitted accepted is
  obtain ⟨_, nonzero, rest⟩ := ok_of_bind run
  obtain ⟨token, found, rest⟩ := ok_of_bind rest
  obtain ⟨_, -, rest⟩ := ok_of_bind rest
  obtain ⟨_, capped, rest⟩ := ok_of_bind rest
  obtain rfl := ok.inj rest
  exact ⟨toNat_pos_of_ne (ok_of_ensure nonzero), ⟨token, ok_of_okOr found, capped⟩, rfl, rfl, rfl, rfl⟩

theorem admitted_burn {i} (is : call.intent.kind = .burn i) :
    0 < i.amount.toNat ∧ (∃ ledger, self.ledgers.lookup i.symbol = some ledger ∧
      i.amount.toNat ≤ (ledger.balanceOf call.intent.caller).toNat) ∧
      outcome.diff.Is [⟨i.symbol, call.intent.caller, -i.amount⟩] [⟨i.symbol, -i.amount, i.amount⟩] [] [] := by
  obtain ⟨-, gasUsed, run⟩ := engine_of_admitted accepted is
  obtain ⟨_, nonzero, rest⟩ := ok_of_bind run
  obtain ⟨ledger, found, rest⟩ := ok_of_bind rest
  obtain ⟨_, covered, rest⟩ := ok_of_bind rest
  obtain rfl := ok.inj rest
  exact ⟨toNat_pos_of_ne (ok_of_ensure nonzero), ⟨ledger, ok_of_okOr found, BitVec.le_def.mp (ok_of_ensure covered)⟩,
    rfl, rfl, rfl, rfl⟩

theorem admitted_approve {i} (is : call.intent.kind = .approve i) :
    outcome.diff.Is [] [] [⟨i.symbol, call.intent.caller, i.spender, i.amount⟩] [] := by
  obtain ⟨-, gasUsed, run⟩ := engine_of_admitted accepted is
  obtain ⟨_, -, rest⟩ := ok_of_bind run
  obtain rfl := ok.inj rest
  exact ⟨rfl, rfl, rfl, rfl⟩

theorem admitted_freeze {i} (is : call.intent.kind = .freeze i) :
    outcome.diff.Is [] [] [] [.setFrozen i.symbol i.frozen] := by
  obtain ⟨-, gasUsed, run⟩ := engine_of_admitted accepted is
  obtain ⟨_, -, rest⟩ := ok_of_bind run
  obtain ⟨_, -, rest⟩ := ok_of_bind rest
  obtain ⟨_, -, rest⟩ := ok_of_bind rest
  obtain rfl := ok.inj rest
  exact ⟨rfl, rfl, rfl, rfl⟩

theorem admitted_updateBurnRate {i} (is : call.intent.kind = .updateBurnRate i) :
    i.newRateBps.toNat ≤ 1000 ∧ outcome.diff.Is [] [] [] [.setBurnRate i.symbol i.newRateBps] := by
  obtain ⟨-, gasUsed, run⟩ := engine_of_admitted accepted is
  obtain ⟨_, bounded, rest⟩ := ok_of_bind run
  obtain ⟨_, -, rest⟩ := ok_of_bind rest
  obtain ⟨_, -, rest⟩ := ok_of_bind rest
  obtain rfl := ok.inj rest
  exact ⟨BitVec.le_def.mp (ok_of_ensure bounded), rfl, rfl, rfl, rfl⟩

theorem admitted_transferOwnership {i} (is : call.intent.kind = .transferOwnership i) :
    outcome.diff.Is [] [] [] [.setOwner i.symbol i.newOwner] := by
  obtain ⟨-, gasUsed, run⟩ := engine_of_admitted accepted is
  obtain ⟨_, -, rest⟩ := ok_of_bind run
  obtain ⟨_, -, rest⟩ := ok_of_bind rest
  obtain rfl := ok.inj rest
  exact ⟨rfl, rfl, rfl, rfl⟩

theorem createToken_ends {i} (is : call.intent.kind = .createToken i) :
    self.tokens.lookup i.symbol = none ∧ outcome.diff.allowanceUpdates = [] ∧ ∃ token : PATToken,
      (token.currentSupply = 0 ∧ token.totalBurned = 0 ∧ token.burnRateBps.toNat ≤ 1000 ∧
        token.totalSupplyCap = i.totalSupplyCap) ∧
      call.result codec self = .ok outcome ∧ (call.apply codec self).view =
        ⟨self.tokens.insert i.symbol token, self.ledgers.insert i.symbol .empty,
          self.allowances.insert i.symbol .empty⟩ := by
  obtain ⟨absent, gasUsed, run⟩ := engine_of_admitted accepted is
  obtain ⟨_, valid, rest⟩ := ok_of_bind run
  obtain rfl := ok.inj rest
  refine ⟨?_, rfl, ?_⟩
  · simp only [existence] at absent
    split at absent
    · cases absent
    rename_i none
    exact not_isSome_iff_eq_none.mp none
  · have rate : i.burnRateBps.toNat ≤ 1000 := by
      unfold PATToken.validate at valid
      split_ifs at valid with long wordy precise high
      exact BitVec.le_def.mp (BitVec.not_lt.mp high)
    obtain ⟨token, fields, made⟩ : ∃ token : PATToken, (token.currentSupply = 0 ∧ token.totalBurned = 0 ∧
        token.burnRateBps.toNat ≤ 1000 ∧ token.totalSupplyCap = i.totalSupplyCap) ∧
        self.materialise codec call.createdAt call.intent = .ok { self with
          tokens := self.tokens.insert i.symbol token
          ledgers := self.ledgers.insert i.symbol .empty
          allowances := self.allowances.insert i.symbol .empty } := by
      rw [materialise, is]
      simp only [PATToken.new, valid]
      exact ⟨_, ⟨rfl, rfl, rate, rfl⟩, rfl⟩
    obtain ⟨result, same⟩ := ends_of_done accepted made rfl
    exact ⟨token, fields, result, by rw [same]; rfl⟩

end Kinds

section Existing

variable (existing : ∀ i, call.intent.kind ≠ .createToken i) {balances : List BalanceDelta} {supply : List SupplyDelta}
  {updates : List AllowanceUpdate} {mutations : List TokenMutation}
include existing

theorem tables_of_diff :
    call.result codec self = (self.applyDiff codec outcome.diff).1.map (fun _ => outcome) ∧
      (call.apply codec self).allowances = (self.applyDiff codec outcome.diff).2.allowances := by
  rw [result, apply, execute, accepted]
  simp only [@materialise_of_existing codec self call existing]
  rcases self.applyDiff codec outcome.diff with ⟨_ | _, after⟩
  · exact ⟨rfl, rfl⟩
  · exact ⟨rfl, rfl⟩

theorem stopped_of_failed (failed : self.applyDiff codec outcome.diff = (.error error, self)) :
    call.Stopped codec self := by
  obtain ⟨result, same⟩ := ends_of_failed accepted (materialise_of_existing existing) failed
  exact ⟨⟨error, result⟩, same⟩

theorem stopped_of_refused {delta} (parts : outcome.diff.Is (delta :: balances) supply updates mutations)
    (refused : ∃ error, orUnchanged applyBalance self delta = (.error error, self)) : call.Stopped codec self := by
  obtain ⟨error, refused⟩ := refused
  refine @stopped_of_failed codec self call outcome error accepted existing ?_
  rw [applyDiff, parts.balances, inPlace_cons, refused, andThen_error, andThen_error]

theorem mutation_ends {mutation} (parts : outcome.diff.Is [] [] [] [mutation]) :
    call.result codec self = .ok outcome ∧
      (call.apply codec self).view = (self.applyMutation codec mutation).view := by
  have done : self.applyDiff codec outcome.diff = (.ok (), { self.applyMutation codec mutation with
      events := (self.applyMutation codec mutation).events ++ outcome.diff.events }) := by
    rw [applyDiff, parts.balances, parts.supply, parts.updates, parts.mutations]
    rfl
  obtain ⟨result, same⟩ := ends_of_done accepted (materialise_of_existing existing) done
  exact ⟨result, by rw [same]; rfl⟩

theorem approve_ends {update} (parts : outcome.diff.Is [] [] [update] []) :
    self.allowances.lookup update.symbol = none ∧ call.Stopped codec self ∨
      ∃ table, self.allowances.lookup update.symbol = some table ∧ call.result codec self = .ok outcome ∧
        (call.apply codec self).view = ⟨self.tokens, self.ledgers,
          self.allowances.insert update.symbol (table.set update.owner update.spender update.newValue)⟩ := by
  have stages : self.applyDiff codec outcome.diff = andThen (orUnchanged applyAllowance self update) fun third =>
      (.ok (), { third with events := third.events ++ outcome.diff.events }) := by
    rw [applyDiff, parts.balances, parts.supply, parts.updates, parts.mutations, inPlace_nil, andThen_ok, inPlace_nil,
      andThen_ok, inPlace_singleton]
    rfl
  cases found : self.allowances.lookup update.symbol with
  | none =>
    refine .inl ⟨rfl, @stopped_of_failed codec self call outcome (.tokenNotFound update.symbol) accepted existing ?_⟩
    rw [stages, orUnchanged, applyAllowance, found]
    rfl
  | some table =>
    rw [applyAllowance_ok found, andThen_ok] at stages
    obtain ⟨result, same⟩ := ends_of_done accepted (materialise_of_existing existing) stages
    exact .inr ⟨table, rfl, result, by rw [same]; rfl⟩

/-- Once its balances are written an intent ends as the booking of its supply
does. -/
theorem ends_of_booked {written ended second token' supplied burned}
    (booked : inPlace (orUnchanged applyBalance) outcome.diff.balanceDeltas self =
      (.ok (), self.withLedger symbol written))
    (stage : inPlace (applySupply codec) outcome.diff.supplyDeltas (self.withLedger symbol written) = (ended, second))
    (replaced : Replaced (self.withLedger symbol written) second symbol token')
    (rebooked : Rebooked token token' supplied burned)
    (allowed : ∃ third, inPlace (orUnchanged applyAllowance) outcome.diff.allowanceUpdates second = (.ok (), third) ∧
      third.tokens = second.tokens ∧ third.ledgers = second.ledgers)
    (unmutated : outcome.diff.tokenMutations = []) :
    Wrote self (call.apply codec self) symbol token written.held supplied burned ∧
      call.result codec self = ended.map fun _ => outcome := by
  have made := @materialise_of_existing codec self call existing
  cases ended with
  | error e =>
    have failed : self.applyDiff codec outcome.diff = (.error e, second) := by
      rw [applyDiff, booked, andThen_ok, stage, andThen_error]
    obtain ⟨result, same⟩ := ends_of_failed accepted made failed
    rw [same]
    exact ⟨⟨⟨token', replaced.here, rebooked⟩, replaced.elsewhere, written, replaced.ledgers, rfl⟩, result⟩
  | ok u =>
    obtain ⟨third, allowed, tokens, ledgers⟩ := allowed
    have done : self.applyDiff codec outcome.diff =
        (.ok (), { third with events := third.events ++ outcome.diff.events }) := by
      rw [applyDiff, booked, andThen_ok, stage, andThen_ok, allowed, andThen_ok, unmutated]
      rfl
    obtain ⟨result, same⟩ := ends_of_done accepted made done
    rw [same]
    refine ⟨⟨⟨token', ?_, rebooked⟩, fun other apart => ?_, written, ledgers.trans replaced.ledgers, rfl⟩, result⟩
    · exact (congrArg (lookup symbol) tokens).trans replaced.here
    · exact (congrArg (lookup other) tokens).trans (replaced.elsewhere other apart)

end Existing

theorem mint_ends {i} (is : call.intent.kind = .mint i) (known : self.tokens.lookup i.symbol = some token)
    (found : self.ledgers.lookup i.symbol = some ledger) :
    ¬ ledger.Books i.to i.amount ∧ call.Stopped codec self ∨ ledger.Books i.to i.amount ∧
      ∃ supply, Wrote self (call.apply codec self) i.symbol token
          (ledger.held.update (key i.to) (ledger.balanceOf i.to + i.amount).toNat) supply
          token.totalBurned.toNat ∧
        (i.amount.toNat < 2 ^ 127 → token.currentSupply.toNat + i.amount.toNat < 2 ^ 128 →
          supply = token.currentSupply.toNat + i.amount.toNat) ∧
        call.result codec self =
          if i.amount.toNat < 2 ^ 127 ∧ 2 ^ 128 ≤ token.currentSupply.toNat + i.amount.toNat
          then .error (.balanceOverflow i.symbol) else .ok outcome := by
  have existing : ∀ i, call.intent.kind ≠ .createToken i := by simp [is]
  obtain ⟨-, -, parts⟩ := admitted_mint accepted is
  by_cases books : ledger.Books i.to i.amount
  · obtain ⟨written, booked, held⟩ := applyBalance_of_books found books
    obtain ⟨second, token', supply, stage, replaced, rebooked, sum⟩ :=
      @mint_supply_stage codec (self.withLedger i.symbol written) i.symbol token i.amount known
    obtain ⟨wrote, result⟩ := ends_of_booked accepted existing (by rw [parts.balances, inPlace_singleton, booked])
      (by rw [parts.supply, inPlace_singleton, stage]) replaced rebooked
      ⟨second, by rw [parts.updates, inPlace_nil], rfl, rfl⟩ parts.mutations
    refine .inr ⟨books, supply, held ▸ wrote, sum, ?_⟩
    rw [result]
    split <;> rfl
  · exact .inl ⟨books, stopped_of_refused accepted existing parts (applyBalance_of_not_books found books)⟩

/-- A debit of at most half the range is seen as one. A greater one is seen as a
credit, and overflows. -/
theorem burn_ends {i : BurnIntent} (is : call.intent.kind = .burn i) (known : self.tokens.lookup i.symbol = some token)
    (found : self.ledgers.lookup i.symbol = some ledger) :
    2 ^ 127 < i.amount.toNat ∧ call.Stopped codec self ∨ i.amount.toNat ≤ 2 ^ 127 ∧
      Wrote self (call.apply codec self) i.symbol token (ledger.held.update (key call.intent.caller)
          ((ledger.balanceOf call.intent.caller).toNat - i.amount.toNat)) (token.currentSupply.toNat - i.amount.toNat)
        (if token.totalBurned.toNat + i.amount.toNat < 2 ^ 128 then token.totalBurned.toNat + i.amount.toNat
          else token.totalBurned.toNat) ∧
      call.result codec self = if token.totalBurned.toNat + i.amount.toNat < 2 ^ 128 then .ok outcome
        else .error (.balanceOverflow i.symbol) := by
  have existing : ∀ i, call.intent.kind ≠ .createToken i := by simp [is]
  obtain ⟨positive, ⟨ledger', found', covered⟩, parts⟩ := admitted_burn accepted is
  cases found.symm.trans found'
  have books := @TokenLedger.books_neg_iff ledger call.intent.caller i.amount positive covered
  by_cases half : i.amount.toNat ≤ 2 ^ 127
  · obtain ⟨written, booked, held⟩ := applyBalance_of_books found (books.mpr half)
    obtain ⟨second, token', stage, replaced, rebooked⟩ :=
      @burn_supply_stage codec (self.withLedger i.symbol written) i.symbol token i.amount known positive half
    obtain ⟨wrote, result⟩ := ends_of_booked accepted existing (by rw [parts.balances, inPlace_singleton, booked])
      (by rw [parts.supply, inPlace_singleton, stage]) replaced rebooked
      ⟨second, by rw [parts.updates, inPlace_nil], rfl, rfl⟩ parts.mutations
    rw [held, toNat_add_neg covered] at wrote
    refine .inr ⟨half, wrote, ?_⟩
    rw [result]
    split <;> rfl
  · refine .inl ⟨not_le.mp half, stopped_of_refused accepted existing parts ?_⟩
    exact applyBalance_of_not_books found (mt books.mp half)

end Admitted

/-- A transfer that is admitted, whoever asks for it. -/
structure Move (codec : PATCodec) (registry : PATRegistry) (call : PATCall) (outcome : PATOutcome) (symbol : String)
    («from» «to» : Address) (amount : U128) (token : PATToken) (ledger : TokenLedger) : Prop where
  existing : ∀ i, call.intent.kind ≠ .createToken i
  notMint : ∀ i, call.intent.kind ≠ .mint i
  accepted : registry.admitted codec call.now call.intent = .ok outcome
  known : registry.tokens.lookup symbol = some token
  thawed : token.frozen = false
  found : registry.ledgers.lookup symbol = some ledger
  positive : 0 < amount.toNat
  apart : «from» ≠ «to»
  covered : amount.toNat ≤ (ledger.balanceOf «from»).toNat
  balances : outcome.diff.balanceDeltas =
    transferBalances symbol «from» «to» amount (token.transferBurnAmount amount)
  supply : outcome.diff.supplyDeltas = transferSupply symbol (token.transferBurnAmount amount)
  mutations : outcome.diff.tokenMutations = []
  allowed : ∀ second : PATRegistry, second.allowances = registry.allowances →
    ∃ third, inPlace (orUnchanged applyAllowance) outcome.diff.allowanceUpdates second = (.ok (), third) ∧
      third.tokens = second.tokens ∧ third.ledgers = second.ledgers

theorem move_of_transfer {i} (is : call.intent.kind = .transfer i)
    (accepted : call.Admits codec self outcome) :
    outcome.diff.allowanceUpdates = [] ∧
      ∃ token ledger, Move codec self call outcome i.symbol call.intent.caller i.to i.amount token ledger := by
  obtain ⟨-, gasUsed, run⟩ := engine_of_admitted accepted is
  obtain ⟨_, nonzero, rest⟩ := ok_of_bind run
  obtain ⟨_, apart, rest⟩ := ok_of_bind rest
  obtain ⟨_, -, rest⟩ := ok_of_bind rest
  obtain ⟨token, known, rest⟩ := ok_of_bind rest
  obtain ⟨_, thawed, rest⟩ := ok_of_bind rest
  obtain ⟨ledger, found, rest⟩ := ok_of_bind rest
  obtain ⟨_, covered, rest⟩ := ok_of_bind rest
  obtain rfl := ok.inj rest
  exact ⟨rfl, token, ledger, by simp [is], by simp [is], accepted, ok_of_okOr known, ok_of_ensure thawed, ok_of_okOr found,
    toNat_pos_of_ne (ok_of_ensure nonzero), ok_of_ensure apart, BitVec.le_def.mp (ok_of_ensure covered), rfl, rfl, rfl,
    fun second _ => ⟨second, rfl, rfl, rfl⟩⟩

theorem move_of_transferFrom {i} (is : call.intent.kind = .transferFrom i)
    (accepted : call.Admits codec self outcome) :
    (i.amount.toNat ≤ (self.allowance i.symbol i.from call.intent.caller).toNat ∧ outcome.diff.allowanceUpdates =
      [⟨i.symbol, i.from, call.intent.caller, self.allowance i.symbol i.from call.intent.caller - i.amount⟩]) ∧
      ∃ token ledger, Move codec self call outcome i.symbol i.from i.to i.amount token ledger := by
  obtain ⟨-, gasUsed, run⟩ := engine_of_admitted accepted is
  obtain ⟨_, nonzero, rest⟩ := ok_of_bind run
  obtain ⟨_, apart, rest⟩ := ok_of_bind rest
  obtain ⟨token, known, rest⟩ := ok_of_bind rest
  obtain ⟨_, thawed, rest⟩ := ok_of_bind rest
  obtain ⟨_, approved, rest⟩ := ok_of_bind rest
  obtain ⟨ledger, found, rest⟩ := ok_of_bind rest
  obtain ⟨_, covered, rest⟩ := ok_of_bind rest
  obtain rfl := ok.inj rest
  have positive := toNat_pos_of_ne (ok_of_ensure nonzero)
  have approved := BitVec.le_def.mp (ok_of_ensure approved)
  refine ⟨⟨approved, rfl⟩, token, ledger, by simp [is], by simp [is], accepted, ok_of_okOr known, ok_of_ensure thawed,
    ok_of_okOr found, positive, ok_of_ensure apart, BitVec.le_def.mp (ok_of_ensure covered), rfl, rfl, rfl,
    fun second same => ?_⟩
  cases there : self.allowances.lookup i.symbol with
  | none =>
    rw [RegistryView.allowance, view, there] at approved
    exact absurd approved (Nat.not_le_of_lt positive)
  | some table =>
    rw [← same] at there
    exact ⟨_, (inPlace_singleton ..).trans (applyAllowance_ok there), rfl, rfl⟩

/-- The sender is debited first, so a receiver that cannot be credited leaves the
sender without the amount. -/
theorem Move.ends {«from» «to»} (move : Move codec self call outcome symbol «from» «to» amount token ledger) :
    2 ^ 127 < amount.toNat ∧ call.Stopped codec self ∨ amount.toNat ≤ 2 ^ 127 ∧ ∃ paid : String →₀ ℕ,
      paid = ledger.held.update (key «from») ((ledger.balanceOf «from»).toNat - amount.toNat) ∧
      (¬ ledger.Books «to» (amount - token.transferBurnAmount amount) ∧
          Wrote self (call.apply codec self) symbol token paid token.currentSupply.toNat token.totalBurned.toNat ∧
          (∃ error, call.result codec self = .error error) ∨
        ledger.Books «to» (amount - token.transferBurnAmount amount) ∧
          Wrote self (call.apply codec self) symbol token (paid.update (key «to»)
              (ledger.balanceOf «to» + (amount - token.transferBurnAmount amount)).toNat)
            (token.currentSupply.toNat - (token.transferBurnAmount amount).toNat)
            (if token.totalBurned.toNat + (token.transferBurnAmount amount).toNat < 2 ^ 128
              then token.totalBurned.toNat + (token.transferBurnAmount amount).toNat else token.totalBurned.toNat) ∧
          call.result codec self = if token.totalBurned.toNat + (token.transferBurnAmount amount).toNat < 2 ^ 128
            then .ok outcome else .error (.balanceOverflow symbol)) := by
  have books := @TokenLedger.books_neg_iff ledger «from» amount move.positive move.covered
  have made := @materialise_of_existing codec self call move.existing
  by_cases half : amount.toNat ≤ 2 ^ 127
  · obtain ⟨debited, booked, held⟩ := applyBalance_of_books move.found (books.mpr half)
    rw [toNat_add_neg move.covered] at held
    have there : (self.withLedger symbol debited).ledgers.lookup symbol = some debited := lookup_insert _
    have same : debited.balanceOf «to» = ledger.balanceOf «to» := by
      refine BitVec.eq_of_toNat_eq ?_
      rw [← debited.held_key, held, Finsupp.update_apply, if_neg fun same => move.apart.symm (key_injective same),
        ledger.held_key]
    have stages : inPlace (orUnchanged applyBalance) outcome.diff.balanceDeltas self = orUnchanged applyBalance
        (self.withLedger symbol debited) ⟨symbol, «to», amount - token.transferBurnAmount amount⟩ := by
      rw [move.balances, transferBalances, inPlace_cons, booked, andThen_ok, inPlace_singleton]
    have alike : debited.Books «to» (amount - token.transferBurnAmount amount) ↔
        ledger.Books «to» (amount - token.transferBurnAmount amount) := by
      unfold TokenLedger.Books
      rw [same]
    refine .inr ⟨half, debited.held, held, ?_⟩
    by_cases reached : ledger.Books «to» (amount - token.transferBurnAmount amount)
    · obtain ⟨written, credited, raised⟩ := applyBalance_of_books there (alike.mpr reached)
      rw [withLedger, withLedger, insert_insert] at credited
      obtain ⟨second, token', stage, replaced, rebooked⟩ := @transfer_supply_stage codec (self.withLedger symbol written)
        symbol token (token.transferBurnAmount amount) move.known ((token.transferBurnAmount_lt amount).le.trans (by decide))
      obtain ⟨wrote, result⟩ := ends_of_booked move.accepted move.existing (stages.trans credited)
        (by rw [move.supply, stage]) replaced rebooked (move.allowed second replaced.allowances) move.mutations
      rw [raised, same] at wrote
      refine .inr ⟨reached, wrote, ?_⟩
      rw [result]
      split <;> rfl
    · obtain ⟨error, refused⟩ := applyBalance_of_not_books there (mt alike.mp reached)
      have failed : self.applyDiff codec outcome.diff = (.error error, self.withLedger symbol debited) := by
        rw [applyDiff, stages, refused, andThen_error]
      obtain ⟨result, after⟩ := ends_of_failed move.accepted made failed
      rw [after]
      exact .inl ⟨reached, ⟨⟨token, move.known, .same token⟩, fun _ _ => rfl, debited, rfl, rfl⟩, error, result⟩
  · obtain ⟨error, refused⟩ := applyBalance_of_not_books move.found (mt books.mp half)
    refine .inl ⟨not_le.mp half, @stopped_of_failed codec self call outcome error move.accepted move.existing ?_⟩
    rw [applyDiff, move.balances, transferBalances, inPlace_cons, refused, andThen_error, andThen_error]

theorem quiet_ends (accepted : call.Admits codec self outcome) (quiet : call.intent.kind.Quiet) :
    call.Stopped codec self ∨
      call.result codec self = .ok outcome ∧ (call.apply codec self).ledgers = self.ledgers := by
  have existing : ∀ i, call.intent.kind ≠ .createToken i := by
    intro i is
    rw [is] at quiet
    exact quiet
  have mutated {mutation : TokenMutation} (parts : outcome.diff.Is [] [] [] [mutation]) :
      call.result codec self = .ok outcome ∧ (call.apply codec self).ledgers = self.ledgers := by
    obtain ⟨result, same⟩ := mutation_ends accepted existing parts
    exact ⟨result, (congrArg RegistryView.ledgers same).trans (applyMutation_rewrites self mutation).2.1⟩
  cases is : call.intent.kind with
  | approve i =>
    rcases approve_ends accepted existing (admitted_approve accepted is) with ⟨-, stopped⟩ | ⟨table, -, result, same⟩
    · exact .inl stopped
    · exact .inr ⟨result, congrArg RegistryView.ledgers same⟩
  | freeze i => exact .inr (mutated (admitted_freeze accepted is))
  | updateBurnRate i => exact .inr (mutated (admitted_updateBurnRate accepted is).2)
  | transferOwnership i => exact .inr (mutated (admitted_transferOwnership accepted is))
  | _ =>
    rw [is] at quiet
    exact quiet.elim

end PATCall

end Bleep.Pat
