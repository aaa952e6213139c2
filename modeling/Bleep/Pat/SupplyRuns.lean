import Bleep.Pat.Supply

namespace Bleep.Pat

open HashTable Words Results PATRegistry PATCall List BitVec Nat Option

namespace PATEngine

variable {codec : PATCodec} {now gasUsed : U64} {caller : Address} {view : RegistryView}

theorem execMint_accepts {i token} (nonzero : i.amount ≠ 0)
    (known : view.tokens.lookup i.symbol = some token) (owned : token.owner = caller)
    (within : withinCap token i.amount = .ok ()) :
    ∃ outcome, execMint codec now i caller gasUsed view = .ok outcome := by
  rw [execMint, ensure_of nonzero, RegistryView.token, known]
  change ∃ outcome, (ensure (token.owner = caller) _ >>= fun _ => withinCap token i.amount >>= fun _ => _) = .ok outcome
  rw [ensure_of owned, within]
  exact ⟨_, rfl⟩

theorem execBurn_accepts {i ledger} (nonzero : i.amount ≠ 0)
    (found : view.ledgers.lookup i.symbol = some ledger) (covered : i.amount ≤ ledger.balanceOf caller) :
    ∃ outcome, execBurn codec now i caller gasUsed view = .ok outcome := by
  rw [execBurn, ensure_of nonzero, RegistryView.ledger, found]
  change ∃ outcome, (ensure (i.amount ≤ ledger.balanceOf caller) _ >>= fun _ => _) = .ok outcome
  rw [ensure_of covered]
  exact ⟨_, rfl⟩

end PATEngine

open PATEngine

namespace PATRegistry

variable {codec : PATCodec} {self after : PATRegistry} {symbol : String} {token : PATToken}

def caps (self : PATRegistry) (symbol : String) : Option U128 := (self.tokens.lookup symbol).map (·.totalSupplyCap)

theorem caps_eq_none_iff : self.caps symbol = none ↔ self.tokens.lookup symbol = none := map_eq_none_iff

theorem capped_iff_caps : self.Capped ↔
    ∀ symbol cap, self.caps symbol = some cap → 1 ≤ cap.toNat ∧ cap.toNat ≤ 2 ^ 118 := by
  constructor
  · intro capped symbol cap found
    obtain ⟨token, known, rfl⟩ := map_eq_some_iff.mp found
    exact capped symbol token known
  · intro capped symbol token known
    refine capped symbol token.totalSupplyCap ?_
    rw [caps, known, map_some]

theorem caps_rewrites (before after : PATRegistry) (step : Rewrites before after) : after.caps = before.caps := by
  cases step with
  | token found cap =>
    funext other
    exact lookup_insert_congr (Option.map PATToken.totalSupplyCap)
      (by rw [found, Option.map_some, Option.map_some, cap]) other
  | _ => rfl

/-- The fields that no diff touches. -/
def log (self : PATRegistry) : List Hash32 × PATGasModel × List (Address × U64) :=
  (self.seenIntents, self.gas, self.seenNonces)

theorem log_rewrites (before after : PATRegistry) (step : Rewrites before after) : after.log = before.log := by
  cases step with
  | _ => rfl

theorem admitted_of_dispatch {now gasUsed intent}
    (fresh : intent.canonicalHash codec ∉ self.seenIntents) (known : self.existence intent.kind = .ok ())
    (charged : self.gas.charge intent.kind intent.gasLimit = .ok gasUsed)
    (accepts : ∃ outcome, PATEngine.dispatch codec now intent.caller gasUsed self.view intent.kind = .ok outcome) :
    ∃ outcome, self.admitted codec now intent = .ok outcome := by
  rw [admitted, ensure_of fresh, known, PATEngine.execute, charged]
  exact accepts

end PATRegistry

namespace PATCall

variable {codec : PATCodec} {self : PATRegistry} {call : PATCall} {minted : String → ℕ}

/-- An intent changes no cap; only the creation of a token sets one. -/
theorem caps_apply (codec : PATCodec) (self : PATRegistry) (call : PATCall) :
    (call.apply codec self).caps = self.caps ∨ ∃ i, call.intent.kind = .createToken i ∧
      ∀ symbol, (call.apply codec self).caps symbol =
        if symbol = i.symbol then some i.totalSupplyCap else self.caps symbol := by
  cases accepted : self.admitted codec call.now call.intent with
  | error e =>
    left
    rw [(ends_of_refused accepted).2]
  | ok outcome =>
    by_cases creates : ∃ i, call.intent.kind = .createToken i
    · obtain ⟨i, is⟩ := creates
      obtain ⟨-, -, token, ⟨-, -, -, cap⟩, -, same⟩ := createToken_ends accepted is
      have tokens : (call.apply codec self).tokens = _ := congrArg RegistryView.tokens same
      refine .inr ⟨i, is, fun symbol => ?_⟩
      rw [caps, tokens, lookup_insert_eq, apply_ite (Option.map _), Option.map_some, cap]
      rfl
    · left
      have made := @materialise_of_existing codec self call fun i is => creates ⟨i, is⟩
      have kept := @read_applyDiff codec _ caps caps_rewrites self outcome.diff
      rcases applied : self.applyDiff codec outcome.diff with ⟨e | _, after⟩
      · rw [(ends_of_failed accepted made applied).2, ← kept, applied]
      · rw [(ends_of_done accepted made applied).2, ← kept, applied]
        rfl

theorem log_of_success {outcome} (accepted : call.Admits codec self outcome)
    (existing : ∀ i, call.intent.kind ≠ .createToken i) (success : ∃ outcome, call.result codec self = .ok outcome) :
    (call.apply codec self).seenIntents = call.intent.canonicalHash codec :: self.seenIntents ∧
      (call.apply codec self).gas = self.gas := by
  have made := @materialise_of_existing codec self call existing
  have kept := @read_applyDiff codec _ log log_rewrites self outcome.diff
  rcases applied : self.applyDiff codec outcome.diff with ⟨e | _, after⟩
  · obtain ⟨_, done⟩ := success
    cases (ends_of_failed accepted made applied).1.symm.trans done
  · rw [applied] at kept
    rw [(ends_of_done accepted made applied).2]
    exact ⟨congrArg (_ :: Prod.fst ·) kept, congrArg (·.2.1) kept⟩

/-- Nothing is minted of a token that does not exist. -/
theorem unissued_apply (unissued : ∀ symbol, self.tokens.lookup symbol = none → minted symbol = 0) (call : PATCall)
    (symbol : String) (unknown : (call.apply codec self).tokens.lookup symbol = none) :
    call.mintedAfter codec self minted symbol = 0 := by
  have absent : self.tokens.lookup symbol = none := by
    rw [← caps_eq_none_iff] at unknown ⊢
    rcases caps_apply codec self call with same | ⟨i, -, written⟩
    · rwa [same] at unknown
    rw [written] at unknown
    split at unknown
    · cases unknown
    · exact unknown
  rw [mintedAfter, unissued symbol absent, zero_add]
  by_cases success : ∃ outcome, call.result codec self = .ok outcome
  · cases is : call.intent.kind with
    | mint i =>
      rw [mints_of_success is success, if_neg]
      rintro rfl
      cases accepted : self.admitted codec call.now call.intent with
      | error e =>
        obtain ⟨outcome, done⟩ := success
        cases (ends_of_refused accepted).1.symm.trans done
      | ok outcome =>
        obtain ⟨token, known⟩ := token_of_admitted accepted is (by simp)
        cases absent.symm.trans known
    | _ => exact mints_of_other (by simp [is])
  · exact mints_of_failed success

end PATCall

/-- The cost of an intent does not wrap. -/
def PATGasModel.CostFits (gas : PATGasModel) : PATIntentKind → Prop
  | .createToken i =>
    gas.createTokenBase.toNat + i.symbol.utf8ByteSize * gas.createTokenPerSymbol.toNat < 2 ^ 64
  | .transfer i => gas.transferBase.toNat + i.memo.elim 0 List.length * gas.transferPerMemoByte.toNat < 2 ^ 64
  | _ => True

variable {n : Nat}

section Runs

variable (codec : PATCodec) (gas : PATGasModel) (calls : List PATCall)

/-- What the successful mints before the `n`-th call add up to. -/
def mintedBefore (n : Nat) (symbol : String) : ℕ :=
  ∑ k ∈ Finset.range n, calls[k]?.elim 0 fun call : PATCall => call.mints codec (registryAt codec gas calls k) symbol

theorem mintedBefore_succ {calls call} (here : calls[n]? = some call) :
    mintedBefore codec gas calls (n + 1) =
      call.mintedAfter codec (registryAt codec gas calls n) (mintedBefore codec gas calls n) := by
  funext symbol
  rw [mintedBefore, Finset.sum_range_succ, here]
  rfl

theorem mintedBefore_stop {calls} (ended : calls[n]? = none) :
    mintedBefore codec gas calls (n + 1) = mintedBefore codec gas calls n := by
  funext symbol
  rw [mintedBefore, Finset.sum_range_succ, ended]
  rfl

theorem unissued_registryAt (n : Nat) (symbol : String)
    (unknown : (registryAt codec gas calls n).tokens.lookup symbol = none) : mintedBefore codec gas calls n symbol = 0 := by
  induction n generalizing symbol with
  | zero => rfl
  | succ n ih =>
    cases here : calls[n]? with
    | none =>
      rw [registryAt_stop codec gas here] at unknown
      rw [mintedBefore_stop codec gas here]
      exact ih symbol unknown
    | some call =>
      rw [registryAt_succ codec gas here] at unknown
      rw [mintedBefore_succ codec gas here]
      exact unissued_apply ih call symbol unknown

variable {calls}
variable (bounded : ∀ call ∈ calls, ∀ i, call.intent.kind = .createToken i →
  1 ≤ i.totalSupplyCap.toNat ∧ i.totalSupplyCap.toNat ≤ 2 ^ 118)
include bounded

theorem capped_registryAt (n : Nat) : (registryAt codec gas calls n).Capped := by
  refine @Runs.foldl_take_keeps _ _ _ _ _ Capped 0 n (zero_le n) (fun symbol token known => by cases known)
    fun k call _ _ here held => ?_
  rw [capped_iff_caps] at held ⊢
  intro symbol cap found
  rcases caps_apply codec _ call with same | ⟨i, is, written⟩
  · rw [same] at found
    exact held symbol cap found
  rw [written] at found
  split at found
  · cases found
    exact bounded call (mem_of_getElem? here) i is
  · exact held symbol cap found

/-- Along a run the supply identity is kept, frozen balances stay and nothing
overflows exactly when the burned totals always have room and the gas cost of
each intent fits. -/
theorem supply_identity_iff :
    (∀ n, (registryAt codec gas calls n).Identity (mintedBefore codec gas calls n) ∧
      ∀ call : PATCall, calls[n]? = some call → call.FrozenKept codec (registryAt codec gas calls n) ∧
        call.NoOverflow codec (registryAt codec gas calls n) ∧ gas.CostFits call.intent.kind) ↔
    ∀ n (call : PATCall), calls[n]? = some call →
      call.Burnable codec (registryAt codec gas calls n) ∧ gas.CostFits call.intent.kind := by
  have step {n : Nat} {call : PATCall} (identity : (registryAt codec gas calls n).Identity (mintedBefore codec gas calls n))
      (here : calls[n]? = some call) :
      (registryAt codec gas calls (n + 1)).Identity (mintedBefore codec gas calls (n + 1)) ∧
        call.NoOverflow codec (registryAt codec gas calls n) ↔ call.Burnable codec (registryAt codec gas calls n) := by
    rw [registryAt_succ codec gas here, mintedBefore_succ codec gas here]
    exact sound_iff_burnable (matched_registryAt codec gas calls n) (capped_registryAt codec gas bounded n)
      identity (unissued_registryAt codec gas calls n) call
  constructor
  · intro sound n call here
    obtain ⟨identity, kept⟩ := sound n
    obtain ⟨-, exact_, fits⟩ := kept call here
    exact ⟨(step identity here).mp ⟨(sound (n + 1)).1, exact_⟩, fits⟩
  · intro burnable
    have identity (n : Nat) : (registryAt codec gas calls n).Identity (mintedBefore codec gas calls n) := by
      induction n with
      | zero => exact identity_new gas
      | succ n ih =>
        cases here : calls[n]? with
        | none =>
          rw [registryAt_stop codec gas here, mintedBefore_stop codec gas here]
          exact ih
        | some call => exact ((step ih here).mpr (burnable n call here).1).1
    refine fun n => ⟨identity n, fun call here => ⟨?_, ?_, (burnable n call here).2⟩⟩
    · exact frozen_kept (matched_registryAt codec gas calls n) call
    · exact ((step (identity n) here).mpr (burnable n call here).1).2

end Runs

/-- A token of which five units are minted and two are burned. -/
def mintAndBurn : List PATCall :=
  [ownerCall 1 (.createToken ⟨"T", "T", 0, 100, 0, false⟩), ownerCall 2 (.mint ⟨"T", ownerAddress, 5⟩),
    ownerCall 3 (.burn ⟨"T", 2⟩)]

theorem mintAndBurn_identity :
    (∀ call ∈ mintAndBurn, ∀ i, call.intent.kind = .createToken i →
      1 ≤ i.totalSupplyCap.toNat ∧ i.totalSupplyCap.toNat ≤ 2 ^ 118) ∧
    (registryAt nonceCodec {} mintAndBurn 3).Identity (mintedBefore nonceCodec {} mintAndBurn 3) := by
  have bounded : ∀ call ∈ mintAndBurn, ∀ i, call.intent.kind = .createToken i →
      1 ≤ i.totalSupplyCap.toNat ∧ i.totalSupplyCap.toNat ≤ 2 ^ 118 := by
    simp [mintAndBurn, ownerCall]
  refine ⟨bounded, ((supply_identity_iff nonceCodec {} bounded).mpr ?_ 3).1⟩
  intro n call here
  rcases n with _ | _ | _ | n
  · cases here
    refine ⟨fun _ token _ _ => token.totalBurned.isLt, ?_⟩
    change 50000 + "T".utf8ByteSize * 10 < 2 ^ 64
    decide
  · cases here
    exact ⟨fun _ token _ _ => token.totalBurned.isLt, trivial⟩
  · cases here
    refine ⟨fun _ token _ known => ?_, trivial⟩
    cases known
    decide
  · cases here

section Cycles

/-- Mints of the whole cap and burns of it, in turn. -/
def cycleKind (n : Nat) : PATIntentKind :=
  if n = 0 then .createToken ⟨"T", "T", 0, BitVec.ofNat 128 (2 ^ 118), 0, false⟩
  else if n % 2 = 1 then .mint ⟨"T", ownerAddress, BitVec.ofNat 128 (2 ^ 118)⟩
  else .burn ⟨"T", BitVec.ofNat 128 (2 ^ 118)⟩

def cycleCall (n : Nat) : PATCall := ownerCall (BitVec.ofNat 64 n) (cycleKind n)

def burningCycles : List PATCall := (List.range 2049).map cycleCall

theorem burningCycles_getElem (small : n < 2049) : burningCycles[n]? = some (cycleCall n) := by
  rw [burningCycles, getElem?_map, getElem?_range small, map_some]

theorem lastBytes_le64_injective {a b} (same : lastBytes (le64 a) = lastBytes (le64 b)) : a = b := by
  apply le64_injective
  apply reverse_injective
  refine ext_getElem (by simp) fun i left right => ?_
  have short : i < 32 := by
    rw [length_reverse, le64_length] at left
    omega
  have entry : (lastBytes (le64 a))[i] = (lastBytes (le64 b))[i] := by rw [same]
  simp only [lastBytes, Vector.getElem_ofFn] at entry
  rwa [← getElem_eq_getD, ← getElem_eq_getD] at entry

/-- The registry before the `n`-th call: the supply is there in every other
state, and has been burned in every earlier turn. -/
structure Cycled (n : Nat) (registry : PATRegistry) (minted : ℕ) : Prop where
  token : ∃ token, registry.tokens.lookup "T" = some token ∧ token.owner = ownerAddress ∧
    token.totalSupplyCap.toNat = 2 ^ 118 ∧ token.currentSupply.toNat = (1 - n % 2) * 2 ^ 118 ∧
    token.totalBurned.toNat = (n - 1) / 2 * 2 ^ 118
  ledger : ∃ ledger, registry.ledgers.lookup "T" = some ledger ∧
    (ledger.balanceOf ownerAddress).toNat = (1 - n % 2) * 2 ^ 118
  seen : ∀ hash ∈ registry.seenIntents, ∃ m < n, hash = lastBytes (le64 (BitVec.ofNat 64 m))
  gas : registry.gas = {}
  minted : minted = n / 2 * 2 ^ 118

variable {n minted : Nat} {self : PATRegistry}

theorem Cycled.fresh (cycled : Cycled n self minted) (small : n < 2049) :
    (cycleCall n).intent.canonicalHash nonceCodec ∉ self.seenIntents := by
  intro member
  obtain ⟨m, less, same⟩ := cycled.seen _ member
  have nonces : (BitVec.ofNat 64 n).toNat = (BitVec.ofNat 64 m).toNat :=
    congrArg BitVec.toNat (lastBytes_le64_injective same)
  rw [toNat_ofNat, toNat_ofNat] at nonces
  omega

theorem cycleKind_odd (odd : n % 2 = 1) :
    (cycleCall n).intent.kind = .mint ⟨"T", ownerAddress, BitVec.ofNat 128 (2 ^ 118)⟩ := by
  have later : n ≠ 0 := by omega
  simp [cycleCall, ownerCall, cycleKind, later, odd]

theorem cycleKind_even (later : n ≠ 0) (even : n % 2 = 0) :
    (cycleCall n).intent.kind = .burn ⟨"T", BitVec.ofNat 128 (2 ^ 118)⟩ := by
  simp [cycleCall, ownerCall, cycleKind, later, even]

section
variable (cycled : Cycled n self minted)
include cycled

section
variable {outcome : PATOutcome} (later : n ≠ 0)
  (accepted : self.admitted nonceCodec (cycleCall n).now (cycleCall n).intent = .ok outcome)
  (success : (cycleCall n).result nonceCodec self = .ok outcome)
include later accepted success

/-- What a successful call of the cycle leaves in the log. -/
theorem Cycled.seen_apply :
    (∀ hash ∈ ((cycleCall n).apply nonceCodec self).seenIntents, ∃ m < n + 1,
      hash = lastBytes (le64 (BitVec.ofNat 64 m))) ∧ ((cycleCall n).apply nonceCodec self).gas = {} := by
  have existing (i : CreateTokenIntent) : (cycleCall n).intent.kind ≠ .createToken i := by
    rcases mod_two_eq_zero_or_one n with even | odd
    · simp [cycleKind_even later even]
    · simp [cycleKind_odd odd]
  obtain ⟨seen, gas⟩ := log_of_success accepted existing ⟨outcome, success⟩
  refine ⟨fun hash member => ?_, gas.trans cycled.gas⟩
  rw [seen] at member
  rcases mem_cons.mp member with rfl | earlier
  · exact ⟨n, lt_succ_self n, rfl⟩
  · obtain ⟨m, less, same⟩ := cycled.seen hash earlier
    exact ⟨m, less.trans (lt_succ_self n), same⟩

/-- The state after a call that has rewritten the token and the owner's
balance. -/
theorem Cycled.succ {token balances supply burned minted'}
    (wrote : Wrote self ((cycleCall n).apply nonceCodec self) "T" token balances supply burned)
    (owned : token.owner = ownerAddress) (cap : token.totalSupplyCap.toNat = 2 ^ 118)
    (held : balances (TokenLedger.key ownerAddress) = supply) (supplied : supply = (1 - (n + 1) % 2) * 2 ^ 118)
    (gone : burned = (n + 1 - 1) / 2 * 2 ^ 118) (issued : minted' = (n + 1) / 2 * 2 ^ 118) :
    Cycled (n + 1) ((cycleCall n).apply nonceCodec self) minted' := by
  obtain ⟨seen, gas⟩ := cycled.seen_apply later accepted success
  obtain ⟨token', known', rebooked⟩ := wrote.token
  obtain ⟨ledger', ledgers, same⟩ := wrote.ledger
  refine ⟨⟨token', known', ?_, ?_, rebooked.supply.trans supplied, rebooked.burned.trans gone⟩, ⟨ledger', ?_, ?_⟩, seen,
    gas, issued⟩
  · rw [rebooked.owner, owned]
  · rw [rebooked.cap, cap]
  · rw [ledgers, AList.lookup_insert]
  · rw [← ledger'.held_key, same, held, supplied]

end

theorem Cycled.mint (small : n < 2049) (odd : n % 2 = 1) :
    Cycled (n + 1) ((cycleCall n).apply nonceCodec self) (minted + (cycleCall n).mints nonceCodec self "T") := by
  have is := cycleKind_odd odd
  obtain ⟨token, known, owned, cap, supply, burned⟩ := cycled.token
  obtain ⟨ledger, found, balance⟩ := cycled.ledger
  have empty : 1 - n % 2 = 0 := by omega
  have full : 1 - (n + 1) % 2 = 1 := by omega
  rw [empty, Nat.zero_mul] at supply balance
  obtain ⟨outcome, accepted⟩ : ∃ outcome,
      self.admitted nonceCodec (cycleCall n).now (cycleCall n).intent = .ok outcome := by
    have within : withinCap token (BitVec.ofNat 128 (2 ^ 118)) = .ok () := by
      have sum : saturatingAdd token.currentSupply (BitVec.ofNat 128 (2 ^ 118)) ≤ token.totalSupplyCap := by
        rw [le_def, toNat_saturatingAdd, supply, cap]
        decide
      unfold withinCap
      split
      · exact if_neg (BitVec.not_lt.mpr sum)
      · rfl
    refine admitted_of_dispatch (cycled.fresh small) ?_ (by rw [is, cycled.gas]; rfl) ?_
    · simp [is, existence, PATIntentKind.symbol, known]
    · rw [is]
      exact execMint_accepts (by decide) known owned within
  have books : ledger.Books ownerAddress (BitVec.ofNat 128 (2 ^ 118)) := by
    refine (if_pos (by decide)).mpr ?_
    rw [balance]
    decide
  have fits : (0 : ℕ) + (BitVec.ofNat 128 (2 ^ 118)).toNat < 2 ^ 128 := by decide
  have added := toNat_add_of_lt (balance.symm ▸ fits)
  rcases mint_ends accepted is known found with ⟨refused, -⟩ | ⟨-, total, wrote, grown, result⟩
  · exact absurd books refused
  rw [supply] at grown result
  have total := grown (by decide) fits
  refine cycled.succ (by omega) accepted result wrote owned cap ?_ ?_ ?_ ?_
  · rw [Finsupp.update_apply, if_pos rfl, added, balance, total]
  · rw [total, full]
    rfl
  · rw [burned, show (n + 1 - 1) / 2 = (n - 1) / 2 by omega]
  · rw [mints_of_success is ⟨outcome, result⟩, if_pos rfl, cycled.minted]
    change _ + 2 ^ 118 = _
    omega

/-- The burns of the cycle are admitted in every other state. -/
theorem Cycled.burn_admitted (small : n < 2049) (later : n ≠ 0) (even : n % 2 = 0) :
    ∃ outcome, self.admitted nonceCodec (cycleCall n).now (cycleCall n).intent = .ok outcome := by
  have is := cycleKind_even later even
  obtain ⟨token, known, -⟩ := cycled.token
  obtain ⟨ledger, found, balance⟩ := cycled.ledger
  refine admitted_of_dispatch (cycled.fresh small) ?_ (by rw [is, cycled.gas]; rfl) ?_
  · simp [is, existence, PATIntentKind.symbol, known]
  rw [is]
  refine execBurn_accepts (by decide) found (le_def.mpr ?_)
  change 2 ^ 118 ≤ (ledger.balanceOf ownerAddress).toNat
  rw [balance, even]
  decide

theorem Cycled.burn (small : n < 2048) (later : n ≠ 0) (even : n % 2 = 0) :
    Cycled (n + 1) ((cycleCall n).apply nonceCodec self) (minted + (cycleCall n).mints nonceCodec self "T") := by
  have is := cycleKind_even later even
  obtain ⟨token, known, owned, cap, supply, burned⟩ := cycled.token
  obtain ⟨ledger, found, balance⟩ := cycled.ledger
  obtain ⟨outcome, accepted⟩ := cycled.burn_admitted (by omega) later even
  have full : 1 - n % 2 = 1 := by omega
  have empty : 1 - (n + 1) % 2 = 0 := by omega
  rw [full, one_mul] at supply balance
  have half : (n + 1 - 1) / 2 = (n - 1) / 2 + 1 := by omega
  have fits : token.totalBurned.toNat + (BitVec.ofNat 128 (2 ^ 118)).toNat < 2 ^ 128 := by
    change token.totalBurned.toNat + 2 ^ 118 < 2 ^ 128
    omega
  rcases burn_ends accepted is known found with ⟨large, -⟩ | ⟨-, wrote, result⟩
  · exact absurd large (by decide)
  have caller : (cycleCall n).intent.caller = ownerAddress := rfl
  rw [if_pos fits] at wrote result
  refine cycled.succ later accepted result wrote owned cap ?_ ?_ ?_ ?_
  · rw [caller, Finsupp.update_apply, if_pos rfl, balance, supply]
  · rw [supply, empty]
    rfl
  · rw [burned, half]
    change _ + 2 ^ 118 = _
    omega
  · rw [mints_of_other (by simp [is]), cycled.minted]
    omega

end

theorem cycled_registryAt (n : Nat) (later : 0 < n) (small : n ≤ 2048) :
    Cycled n (registryAt nonceCodec {} burningCycles n) (mintedBefore nonceCodec {} burningCycles n "T") := by
  induction n, later using le_induction with
  | base =>
    rw [registryAt_succ nonceCodec {} (burningCycles_getElem (by decide)),
      mintedBefore_succ nonceCodec {} (burningCycles_getElem (by decide))]
    refine ⟨⟨_, rfl, rfl, rfl, rfl, rfl⟩, ⟨_, rfl, rfl⟩, fun hash member => ⟨0, zero_lt_one, ?_⟩, rfl, rfl⟩
    exact mem_singleton.mp member
  | succ n later ih =>
    have cycled := ih (by omega)
    rw [registryAt_succ nonceCodec {} (burningCycles_getElem (by omega)),
      mintedBefore_succ nonceCodec {} (burningCycles_getElem (by omega))]
    rcases mod_two_eq_zero_or_one n with even | odd
    · exact cycled.burn small (by omega) even
    · exact cycled.mint (by omega) odd

/-- A burn that finds the burned total full fails after the supply and the
balance were lowered. -/
theorem burn_overflows (n : Nat) (last : n = 2048) :
    (cycleCall n).result nonceCodec (registryAt nonceCodec {} burningCycles n) = .error (.balanceOverflow "T") ∧
      ∃ token, (registryAt nonceCodec {} burningCycles (n + 1)).tokens.lookup "T" = some token ∧
        token.currentSupply.toNat = 0 ∧ token.totalBurned.toNat = 1023 * 2 ^ 118 ∧
        mintedBefore nonceCodec {} burningCycles (n + 1) "T" = 1024 * 2 ^ 118 := by
  have here : burningCycles[n]? = some (cycleCall n) := burningCycles_getElem (by omega)
  have cycled := cycled_registryAt n (by omega) (by omega)
  rw [registryAt_succ nonceCodec {} here, mintedBefore_succ nonceCodec {} here]
  have is := @cycleKind_even n (by omega) (by omega)
  obtain ⟨token, known, -, -, supply, burned⟩ := cycled.token
  obtain ⟨ledger, found, -⟩ := cycled.ledger
  obtain ⟨outcome, accepted⟩ := cycled.burn_admitted (by omega) (by omega) (by omega)
  have turns : (n - 1) / 2 = 1023 := by omega
  have full : 1 - n % 2 = 1 := by omega
  rw [turns] at burned
  rw [full, one_mul] at supply
  have overflow : ¬ token.totalBurned.toNat + (BitVec.ofNat 128 (2 ^ 118)).toNat < 2 ^ 128 := by
    rw [burned]
    decide
  rcases burn_ends accepted is known found with ⟨large, -⟩ | ⟨-, wrote, result⟩
  · exact absurd large (by decide)
  rw [if_neg overflow] at wrote result
  obtain ⟨token', known', rebooked⟩ := wrote.token
  refine ⟨result, token', known', ?_, ?_, ?_⟩
  · rw [rebooked.supply, supply]
    rfl
  · rw [rebooked.burned, burned]
  · rw [mintedAfter, mints_of_other (by simp [is]), cycled.minted]
    omega

/-- A supply of the whole cap is minted and burned 1024 times. The last burn
fails, since the burned total overflows, but the supply and the balance are gone
by then, and the mints exceed the supply and the burned total. -/
theorem burningCycles_identity_lost :
    (∀ call ∈ burningCycles, ∀ i, call.intent.kind = .createToken i →
      1 ≤ i.totalSupplyCap.toNat ∧ i.totalSupplyCap.toNat ≤ 2 ^ 118) ∧
    (cycleCall 2048).result nonceCodec (registryAt nonceCodec {} burningCycles 2048) = .error (.balanceOverflow "T") ∧
    ∃ token, (registryAt nonceCodec {} burningCycles 2049).tokens.lookup "T" = some token ∧
      token.currentSupply.toNat = 0 ∧ token.totalBurned.toNat = 1023 * 2 ^ 118 ∧
      mintedBefore nonceCodec {} burningCycles 2049 "T" = 1024 * 2 ^ 118 := by
  refine ⟨fun call member i is => ?_, burn_overflows 2048 rfl⟩
  obtain ⟨n, -, rfl⟩ := List.mem_map.mp member
  by_cases first : n = 0
  · subst first
    cases is
    decide
  · rcases mod_two_eq_zero_or_one n with even | odd
    · rw [cycleKind_even first even] at is
      cases is
    · rw [cycleKind_odd odd] at is
      cases is

end Cycles

end Bleep.Pat
