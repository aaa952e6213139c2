import Bleep.Core.MerkleBinding
import Bleep.Library.Resumption

namespace Bleep

open Resumption Prog List String Transaction

structure TransactionPool where
  chainId : String
  maxSize : Nat

/-- What the two locks of the pool guard. `admitted` is no field of the source:
it lists what has been pushed so far, and nothing reads it. -/
structure PoolState where
  pool : List Transaction
  seenHashes : Finset Hash32
  admitted : List Transaction

/-- The canonical id, as `canonical_tx_id`, `add_block_inner` and
`remove_confirmed` write it. -/
def canonicalTxId (tx : Transaction) : String :=
  s!"{tx.sender}:{tx.receiver}:{tx.amount.toNat}:{tx.timestamp.toNat}"

/-- The `retain` of `remove_confirmed`. -/
def retainOthers (txId : String) (pool : List Transaction) : List Transaction :=
  pool.filter fun tx => canonicalTxId tx ≠ txId

/-- The loop that takes a committed block's transactions out of the pool. -/
def drainConfirmed (block : Block) (pool : List Transaction) : List Transaction :=
  block.transactions.foldl (fun pool tx => retainOthers (canonicalTxId tx) pool) pool

namespace TransactionPool
variable (hashes : Hashes) (sphincs : Sphincs) (self : TransactionPool)

variable (tx : Transaction)

/-- What `add_transaction` checks without a lock. -/
def validates : Bool :=
  if tx.sender.isEmpty then false
  else if tx.chainId ≠ self.chainId then false
  else if tx.receiver.isEmpty then false
  else if tx.sender = tx.receiver then false
  else if tx.amount = 0 then false
  else if tx.timestamp = 0 then false
  else if tx.signature.length ≠ sphincsPkLen + sphincsSigLen then false
  else tx.verifyAccountAuthorization hashes sphincs

def txHash : Hash32 := hashes.sha256 (txPayload hashes.sha3 tx).toList

/-- The first critical section of `add_transaction`: is the pool full? -/
def atCapacity : Prog PoolState Empty Bool :=
  critical fun state => .ok (state, decide (self.maxSize ≤ state.pool.length))

/-- The second one, under the other lock: is the payload a new one? -/
def recordSeen : Prog PoolState Empty Bool :=
  critical fun state =>
    if txHash hashes tx ∈ state.seenHashes then .ok (state, false)
    else .ok ({ state with seenHashes := insert (txHash hashes tx) state.seenHashes }, true)

def pushBack : Prog PoolState Empty Unit :=
  critical fun state => .ok ({ state with pool := state.pool ++ [tx], admitted := state.admitted ++ [tx] }, ())

/-- `add_transaction` from the duplicate check on. -/
def recordAndPush : Prog PoolState Empty Bool := do
  let fresh ← recordSeen hashes tx
  if fresh = false then return false
  else do
    pushBack tx
    return true

def addTransaction : Prog PoolState Empty Bool := do
  let full ← self.atCapacity
  if full then return false
  else if self.validates hashes sphincs tx = false then return false
  else recordAndPush hashes tx

def clearPool : Prog PoolState Empty Unit := critical fun state => .ok ({ state with pool := [] }, ())

def removeConfirmed (txId : String) : Prog PoolState Empty Unit :=
  critical fun state => .ok ({ state with pool := retainOthers txId state.pool }, ())

end TransactionPool

variable {hashes : Hashes} {sphincs : Sphincs} {tx : Transaction}

theorem Transaction.authorized_of_key {key sig} (chain : tx.chainId.isEmpty = false)
    (split : tx.signature = key ++ sig) (keySize : key.length = sphincsPkLen) (sigSize : sig.length = sphincsSigLen)
    (derived : deriveAccountAddress hashes.sha256 key = tx.sender)
    (verified : sphincs.verifyTxSignature (txPayload hashes.sha3 tx).toList sig key = true) :
    tx.verifyAccountAuthorization hashes sphincs = true := by
  have long : ¬tx.signature.length ≤ sphincsPkLen := by
    rw [split, List.length_append, keySize, sigSize]
    decide
  have front : tx.signature.take sphincsPkLen = key := by rw [split, ← keySize, take_left]
  have back : tx.signature.drop sphincsPkLen = sig := by rw [split, ← keySize, drop_left]
  unfold verifyAccountAuthorization
  simp only [chain, long, front, back, derived, decide_false, Bool.or_false, Bool.false_eq_true, if_false, ne_eq,
    not_true_eq_false]
  exact verified

theorem TransactionPool.validates_of_authorized {pool : TransactionPool}
    (authorized : tx.verifyAccountAuthorization hashes sphincs = true) (chain : tx.chainId = pool.chainId)
    (received : tx.receiver.isEmpty = false) (distinct : tx.sender ≠ tx.receiver) (paid : tx.amount ≠ 0)
    (timed : tx.timestamp ≠ 0) (size : tx.signature.length = sphincsPkLen + sphincsSigLen) :
    pool.validates hashes sphincs tx = true := by
  obtain ⟨pk, derived⟩ := tx.authorized_sender authorized
  have sent : ¬tx.sender.isEmpty = true := by
    intro empty
    have member := mem_deriveAccountAddress hashes.sha256 pk
    rw [derived, isEmpty_iff.mp empty] at member
    cases member
  rw [validates, if_neg sent, if_neg (not_not.mpr chain), if_neg (Bool.eq_false_iff.mp received), if_neg distinct,
    if_neg paid, if_neg timed, if_neg (not_not.mpr size)]
  exact authorized

section Ids
variable {tx tx' : Transaction}

theorem toList_canonicalTxId (tx : Transaction) : (canonicalTxId tx).toList =
    ((tx.sender ++ ":" ++ tx.receiver).toList ++ ':' :: (Nat.repr tx.amount.toNat).toList) ++
      ':' :: (Nat.repr tx.timestamp.toNat).toList := by
  have colon : ":".toList = [':'] := rfl
  simp only [canonicalTxId, String.toList_append, colon, List.append_assoc, List.singleton_append]
  rfl

theorem colon_not_mem_repr (n : Nat) : ':' ∉ (Nat.repr n).toList := by
  intro member
  rw [Nat.toList_repr] at member
  exact absurd (Nat.isDigit_of_mem_toDigits (by decide) (by decide) member) (by decide)

theorem digits_inj {m n} (same : (Nat.repr m).toList = (Nat.repr n).toList) : m = n := by
  rw [Nat.toList_repr, Nat.toList_repr] at same
  have values := congrArg (fun digits => Nat.ofDigitChars 10 digits 0) same
  simpa only [Nat.ofDigitChars_toDigits (by decide : 1 < 10) (by decide)] using values

/-- The two transactions agree in what their ids are made of: the joined text
of sender and receiver, the amount and the time. -/
structure Transaction.SameId (tx tx' : Transaction) : Prop where
  parties : tx.sender ++ ":" ++ tx.receiver = tx'.sender ++ ":" ++ tx'.receiver
  amount : tx.amount = tx'.amount
  timestamp : tx.timestamp = tx'.timestamp

theorem canonicalTxId_eq_iff : canonicalTxId tx = canonicalTxId tx' ↔ tx.SameId tx' := by
  constructor
  · intro same
    have chars := congrArg toList same
    rw [toList_canonicalTxId, toList_canonicalTxId] at chars
    obtain ⟨front, stamps⟩ := Codec.last_separator_inj (colon_not_mem_repr _) (colon_not_mem_repr _) chars
    obtain ⟨parties, amounts⟩ := Codec.last_separator_inj (colon_not_mem_repr _) (colon_not_mem_repr _) front
    exact ⟨toList_inj.mp parties, BitVec.eq_of_toNat_eq (digits_inj amounts), BitVec.eq_of_toNat_eq (digits_inj stamps)⟩
  · intro same
    apply toList_inj.mp
    rw [toList_canonicalTxId, toList_canonicalTxId, same.parties, same.amount, same.timestamp]

theorem drainConfirmed_eq_filter (block : Block) (pool : List Transaction) : drainConfirmed block pool =
    pool.filter fun tx => ∀ confirmed ∈ block.transactions, canonicalTxId tx ≠ canonicalTxId confirmed := by
  unfold drainConfirmed
  induction block.transactions generalizing pool with
  | nil => simp
  | cons confirmed rest ih =>
    rw [foldl_cons, ih, retainOthers, filter_filter]
    refine filter_congr fun tx _ => ?_
    simp only [forall_mem_cons, Bool.decide_and, Bool.and_comm]

/-- Committing a block takes exactly the block's own payloads out of the pool,
the others keeping their order, if and only if no other pending transaction
has the id of one in the block. -/
theorem drain_exact_iff (block : Block) (pool : List Transaction) :
    drainConfirmed block pool =
        pool.filter (fun tx => tx.unsigned ∉ block.transactions.map unsigned) ↔
      ∀ tx ∈ pool, tx.unsigned ∉ block.transactions.map unsigned →
        ∀ confirmed ∈ block.transactions, ¬tx.SameId confirmed := by
  rw [drainConfirmed_eq_filter]
  constructor
  · intro same tx pending other confirmed listed clash
    have kept : tx ∈ pool.filter fun tx => tx.unsigned ∉ block.transactions.map unsigned :=
      mem_filter.mpr ⟨pending, decide_eq_true other⟩
    rw [← same] at kept
    exact of_decide_eq_true (mem_filter.mp kept).2 confirmed listed (canonicalTxId_eq_iff.mpr clash)
  · intro apart
    refine filter_congr fun tx pending => decide_eq_decide.mpr ?_
    constructor
    · intro unlike inside
      obtain ⟨confirmed, listed, same⟩ := mem_map.mp inside
      have ids : canonicalTxId confirmed.unsigned = canonicalTxId tx.unsigned := by rw [same]
      exact unlike confirmed listed ids.symm
    · intro other confirmed listed clash
      exact apart tx pending other confirmed listed (canonicalTxId_eq_iff.mp clash)

/-- A payment of the same amount at the same time with the next nonce is lost
with the one in the block. -/
theorem next_nonce_drained : ∃ (block : Block) (pending : Transaction),
    pending.unsigned ∉ block.transactions.map unsigned ∧
    (∃ confirmed ∈ block.transactions, pending.chainId = confirmed.chainId ∧ pending.sender = confirmed.sender ∧
      pending.receiver = confirmed.receiver ∧ pending.nonce = confirmed.nonce + 1) ∧
    drainConfirmed block [pending] = [] := by
  refine ⟨{ pairBlock [] with transactions := [transferFrom "alice" 0 []] }, transferFrom "alice" 1 [], by decide,
    ⟨_, mem_singleton_self _, rfl, rfl, rfl, rfl⟩, ?_⟩
  rw [drainConfirmed_eq_filter, filter_eq_nil_iff]
  intro tx pending kept
  obtain rfl := mem_singleton.mp pending
  exact of_decide_eq_true kept _ (mem_singleton_self _) (canonicalTxId_eq_iff.mpr ⟨rfl, rfl, rfl⟩)

end Ids

namespace TransactionPool
section Nonces
open Words
variable (pool : List Transaction) (sender : String) (committedNonce : U64)

/-- The loop of `next_nonce`. -/
def skipPending (pendingNonces : Finset U64) (nextNonce : U64) : Option U64 :=
  if nextNonce ∈ pendingNonces then
    match _ : checkedAdd nextNonce 1 with
    | some raised => skipPending pendingNonces raised
    | none => none
  else some nextNonce
termination_by 2 ^ 64 - nextNonce.toNat
decreasing_by
  have step : nextNonce.toNat + 1 = _ := checkedAdd_eq_some.mp ‹_›
  omega

def nextNonce : Option U64 :=
  skipPending ((pool.filter fun tx => tx.sender = sender ∧ committedNonce ≤ tx.nonce).map Transaction.nonce).toFinset
    committedNonce

theorem skipPending_iff (pending : Finset U64) (start : U64) :
    (∀ n, skipPending pending start = some n ↔ IsLeast {n | start ≤ n ∧ n ∉ pending} n) ∧
      (skipPending pending start = none ↔ {n | start ≤ n ∧ n ∉ pending} = ∅) := by
  have other {start m : U64} (above : start ≤ m) (present : start ∈ pending) (absent : m ∉ pending) :
      start.toNat + 1 ≤ m.toNat := by
    have ne : m.toNat ≠ start.toNat := fun same => absent (BitVec.eq_of_toNat_eq same ▸ present)
    rw [BitVec.le_def] at above
    omega
  fun_induction skipPending with
  | case1 start present raised checked ih =>
    have step : start.toNat + 1 = raised.toNat := checkedAdd_eq_some.mp checked
    have same : {n | start ≤ n ∧ n ∉ pending} = {n | raised ≤ n ∧ n ∉ pending} := by
      ext n
      refine and_congr_left fun absent => ⟨fun above => ?_, fun above => ?_⟩
      · exact BitVec.le_def.mpr (step ▸ other above present absent)
      · rw [BitVec.le_def] at above ⊢
        omega
    rwa [same]
  | case2 start present last =>
    have exhausted : {n | start ≤ n ∧ n ∉ pending} = ∅ := by
      refine Set.eq_empty_of_forall_notMem fun n free => ?_
      have room : start.toNat + 1 < 2 ^ 64 := Nat.lt_of_le_of_lt (other free.1 present free.2) n.isLt
      rw [checkedAdd_of_lt room] at last
      cases last
    simp [exhausted, IsLeast]
  | case3 start absent =>
    have least : IsLeast {n | start ≤ n ∧ n ∉ pending} start := ⟨⟨BitVec.le_refl _, absent⟩, fun n free => free.1⟩
    refine ⟨fun n => ⟨fun found => Option.some.inj found ▸ least, fun also => ?_⟩, ?_⟩
    · exact congrArg some (BitVec.le_antisymm (least.2 also.1) (also.2 least.1))
    · simp [Set.nonempty_iff_ne_empty.mp ⟨start, least.1⟩]

/-- The nonces from the committed one on that no pending transaction of the sender uses. -/
def freeNonces : Set U64 :=
  {n | committedNonce ≤ n ∧ ∀ tx ∈ pool, tx.sender = sender → tx.nonce ≠ n}

theorem nextNonce_iff :
    (∀ n, nextNonce pool sender committedNonce = some n ↔ IsLeast (freeNonces pool sender committedNonce) n) ∧
      (nextNonce pool sender committedNonce = none ↔ freeNonces pool sender committedNonce = ∅) := by
  have same : freeNonces pool sender committedNonce = {n | committedNonce ≤ n ∧ n ∉
      ((pool.filter fun tx => tx.sender = sender ∧ committedNonce ≤ tx.nonce).map Transaction.nonce).toFinset} := by
    ext n
    refine and_congr_right fun above => ?_
    simp only [mem_toFinset, mem_map, mem_filter, decide_eq_true_eq, not_exists, not_and]
    grind
  rw [same]
  exact skipPending_iff _ committedNonce

end Nonces

end TransactionPool

end Bleep
