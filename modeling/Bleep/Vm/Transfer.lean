import Bleep.Bytes
import Bleep.Library.OrderedStore

namespace Bleep
open HashTable AList

/-- An `i128` in two's complement. -/
abbrev I128 := BitVec 128

inductive VmError
  | validationError (message : String)
  | gasLimitExceeded (requested limit : U64)
  | unsupportedVmType (vm : String)
  deriving DecidableEq

structure TransferIntent where
  «from» : Hash32
  «to» : Hash32
  amount : U128

/-- An intent that transfers value, as the router reads it. -/
structure Intent where
  kind : TransferIntent
  signer : Hash32

/-- The balance and nonce parts of a diff: ordered maps keyed by the bytes of
the account. -/
structure StateDiff where
  balances : HashMap Bytes I128
  nonces : HashMap Bytes U64

structure EngineResult where
  success : Bool
  gasUsed : U64
  stateDiff : StateDiff

structure RouterConfig where
  maxGasPerIntent : U64 := 30000000
  verifySignatures : Bool := true

def transferGas : U64 := 21000

variable (kind : TransferIntent)

def Intent.newUnsigned : Intent := ⟨kind, Vector.replicate 32 0⟩

namespace StateDiff

def empty : StateDiff := ⟨∅, ∅⟩

def addBalanceUpdate (diff : StateDiff) (account : Hash32) (delta : I128) : StateDiff :=
  let delta := match diff.balances.lookup account.toList with
    | some known => known + delta
    | none => delta
  { diff with balances := diff.balances.insert account.toList delta }

end StateDiff

def transferDiff : StateDiff :=
  (StateDiff.empty.addBalanceUpdate kind.from (-kind.amount)).addBalanceUpdate kind.to kind.amount

/-- `VmRouter::route` on a transfer. The signature check of signed intents and
the engine selection, which may find every engine unhealthy, are external. -/
def VmRouter.route (config : RouterConfig) (verifySignature : Intent → Bool) (selected : Except VmError String)
    (intent : Intent) : Except VmError EngineResult :=
  if config.verifySignatures ∧ intent.signer ≠ Vector.replicate 32 0 ∧ ¬verifySignature intent then
    .error (.validationError "Invalid SPHINCS+ signature on intent")
  else if transferGas > config.maxGasPerIntent then
    .error (.gasLimitExceeded transferGas config.maxGasPerIntent)
  else
    match selected with
    | .error e => .error e
    | .ok _ => .ok { success := true, gasUsed := transferGas, stateDiff := transferDiff intent.kind }

/-- The diff of a transfer debits the source and credits the target; if they
are the same account the two cancel. -/
theorem lookup_transferDiff (key : Bytes) :
    (transferDiff kind).balances.lookup key =
      if key = kind.to.toList then some (if kind.from = kind.to then 0 else kind.amount)
      else if key = kind.from.toList then some (-kind.amount) else none := by
  have first (account : Bytes) : (StateDiff.empty.addBalanceUpdate kind.from (-kind.amount)).balances.lookup account =
      if account = kind.from.toList then some (-kind.amount) else none := by
    change ((∅ : HashMap Bytes I128).insert kind.from.toList (-kind.amount)).lookup account = _
    split
    · rename_i here
      rw [here, lookup_insert]
    · rename_i elsewhere
      rw [lookup_insert_ne elsewhere, lookup_empty]
  rw [transferDiff, StateDiff.addBalanceUpdate]
  simp only [first]
  by_cases atTarget : key = kind.to.toList
  · rw [if_pos atTarget, atTarget, lookup_insert]
    by_cases same : kind.from = kind.to
    · have cancelled : -kind.amount + kind.amount = 0 := by
        rw [BitVec.add_comm, ← BitVec.sub_eq_add_neg, BitVec.sub_self]
        rfl
      rw [if_pos same, same, if_pos rfl]
      exact congrArg some cancelled
    · have apart : kind.to.toList ≠ kind.from.toList := fun equal => same (Vector.toList_inj.mp equal.symm)
      rw [if_neg same, if_neg apart]
  · rw [if_neg atTarget, lookup_insert_ne atTarget, first]

theorem VmRouter.route_ok {config verifySignature intent selected outcome}
    (routed : VmRouter.route config verifySignature selected intent = .ok outcome) :
    outcome.stateDiff = transferDiff intent.kind := by
  unfold VmRouter.route at routed
  split at routed
  · cases routed
  split at routed
  · cases routed
  split at routed
  · cases routed
  · rw [← Except.ok.inj routed]

end Bleep
