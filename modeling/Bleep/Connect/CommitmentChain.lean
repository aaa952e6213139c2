import Bleep.Connect.Types
import Bleep.Library.Quorum
import Bleep.Library.Runs

namespace Bleep.Connect

open HashTable Words Results Quorum List BitVec Nat

structure Validator where
  id : Hash32
  publicKey : Bytes
  stake : U128
  deriving DecidableEq

def Validator.new (sha256 : Bytes → Hash32) (publicKey : Bytes) (stake : U128) : Validator :=
  ⟨sha256 publicKey, publicKey, stake⟩

namespace ConsensusEngine

variable (hashes : Hashes) (sphincs : Sphincs) (validators : List Validator)

/-- The stake of all validators, unless it overflows. -/
def totalStake : Option U128 := validators.foldlM (fun total validator => checkedAdd total validator.stake) 0

def requiredStake (total : U128) : U128 := total / 3 * 2 + total % 3 * 2 / 3

/-- One signature of a block: the first under each id counts, whether or not it
is valid. -/
def countSignature (blockHash : Hash32) (counted : List Hash32 × U128) (vsig : ValidatorSignature) :
    Option (List Hash32 × U128) :=
  if counted.1.contains vsig.validatorId then some counted
  else
    match validators.find? fun v => decide (v.id = vsig.validatorId) with
    | none => some (vsig.validatorId :: counted.1, counted.2)
    | some validator =>
      if classicalVerify sphincs validator.publicKey blockHash.toList vsig.signature then
        (checkedAdd counted.2 validator.stake).map fun stake => (vsig.validatorId :: counted.1, stake)
      else some (vsig.validatorId :: counted.1, counted.2)

def hasConsensus (block : CommitmentBlock) : Bool :=
  match totalStake validators with
  | none => false
  | some total =>
    if total = 0 then false
    else
      match block.validatorSignatures.foldlM (countSignature sphincs validators (block.calculateHash hashes.sha256))
          ([], 0) with
      | none => false
      | some counted => requiredStake total ≤ counted.2

end ConsensusEngine

/-- Which of the database operations of one call fail, and how. -/
abbrev Disk := Nat → Option BleepConnectError

def Disk.check (disk : Disk) (operation : Nat) : Except BleepConnectError Unit :=
  match disk operation with
  | none => .ok ()
  | some e => .error e

structure ChainStorage where
  blocks : HashMap U64 CommitmentBlock
  tip : Option U64
  commitments : HashMap Hash32 StateCommitment

/-- The block and the tip are two writes. -/
def ChainStorage.storeBlock (self : ChainStorage) (disk : Disk) (block : CommitmentBlock) :
    Except BleepConnectError Unit × ChainStorage :=
  match disk.check 2 with
  | .error e => (.error e, self)
  | .ok () =>
    let stored := { self with blocks := self.blocks.insert block.blockNumber block }
    match disk.check 3 with
    | .error e => (.error e, stored)
    | .ok () => (.ok (), { stored with tip := some block.blockNumber })

/-- The chain of one node; its producer signs with a fixed key pair. -/
structure CommitmentChain where
  storage : ChainStorage
  validators : List Validator
  signingKey : Bytes
  verifyingKey : Bytes
  pending : List StateCommitment

open CommitmentChain

namespace CommitmentChain

variable (hashes : Hashes) (sphincs : Sphincs)

def new (signingKey verifyingKey : Bytes) (initialValidators : List Validator) : CommitmentChain :=
  ⟨⟨∅, none, ∅⟩, initialValidators, signingKey, verifyingKey, []⟩

variable (self : CommitmentChain)

variable (disk : Disk)

def submitCommitment (commitment : StateCommitment) :
    Except BleepConnectError Unit × CommitmentChain :=
  match disk.check 0 with
  | .error e => (.error e, self)
  | .ok () => (.ok (), { self with
      storage := { self.storage with
        commitments := self.storage.commitments.insert commitment.commitmentId commitment }
      pending := self.pending ++ [commitment] })

/-- `BlockProducer::produce_block`: the block carries the producer's signature
alone. -/
def signBlock (timestamp blockNumber : U64) (previousHash : Hash32)
    (commitments : List StateCommitment) : CommitmentBlock :=
  let block : CommitmentBlock := ⟨blockNumber, timestamp, previousHash, commitments, []⟩
  { block with
    validatorSignatures := [⟨hashes.sha256 self.verifyingKey,
      sphincs.detachedSign (block.calculateHash hashes.sha256).toList self.signingKey, timestamp⟩] }

/-- The hash of the block at the tip, or zeros where there is none. -/
def previousHash (tip : U64) : Except BleepConnectError Hash32 :=
  if tip = 0 then .ok (Vector.replicate 32 0)
  else do
    disk.check 1
    return ((self.storage.blocks.lookup tip).map (CommitmentBlock.calculateHash hashes.sha256)).getD
      (Vector.replicate 32 0)

/-- The pending commitments are taken before the block is stored, and are gone
when that fails. -/
def produceBlock (timestamp : U64) :
    Except BleepConnectError CommitmentBlock × CommitmentChain :=
  let tip := self.storage.tip.getD 0
  match disk.check 0 >>= fun _ => self.previousHash hashes disk tip with
  | .error e => (.error e, self)
  | .ok previous =>
    let taken := { self with pending := [] }
    if self.pending.isEmpty then (.error (.internalError "No commitments to include in block"), taken)
    else
      let block := self.signBlock hashes sphincs timestamp (tip + 1) previous self.pending
      let outcome := self.storage.storeBlock disk block
      (outcome.1.map fun _ => block, { taken with storage := outcome.2 })

def getLatestBlock : Except BleepConnectError (Option CommitmentBlock) := do
  disk.check 0
  if self.storage.tip.getD 0 = 0 then return none
  else do
    disk.check 1
    return self.storage.blocks.lookup (self.storage.tip.getD 0)

def addValidator (v : Validator) : CommitmentChain :=
  { self with validators := self.validators ++ [v] }

end CommitmentChain

/-- A restart: the database is what survives. -/
def CommitmentChain.reopen (self : CommitmentChain) (signingKey verifyingKey : Bytes)
    (initialValidators : List Validator) : CommitmentChain :=
  { new signingKey verifyingKey initialValidators with storage := self.storage }

inductive ChainCall
  | submitCommitment (disk : Disk) (commitment : StateCommitment)
  | produceBlock (disk : Disk) (timestamp : U64)
  | addValidator (v : Validator)
  | reopen (signingKey verifyingKey : Bytes) (initialValidators : List Validator)

def ChainCall.apply (hashes : Hashes) (sphincs : Sphincs) (self : CommitmentChain) : ChainCall → CommitmentChain
  | submitCommitment disk commitment => (self.submitCommitment disk commitment).2
  | produceBlock disk timestamp => (self.produceBlock hashes sphincs disk timestamp).2
  | addValidator v => self.addValidator v
  | reopen signingKey verifyingKey initialValidators => self.reopen signingKey verifyingKey initialValidators

namespace ConsensusEngine

abbrev stakeOf (validators : List Validator) (chosen : Validator → Bool) : ℕ :=
  weigh (fun v => v.stake.toNat) validators chosen

section Count

variable {hashes : Hashes} {sphincs : Sphincs} {validators : List Validator} {blockHash : Hash32}

theorem totalStake_eq_some {total} :
    totalStake validators = some total ↔ stakeOf validators (fun _ => true) = total.toNat :=
  foldlM_checkedAdd_eq_some

/-- Whether the first of some signatures under the validator's id verifies,
where the id has not been seen before. -/
def firstVerifies (sphincs : Sphincs) (blockHash : Hash32) (seen : List Hash32)
    (signatures : List ValidatorSignature) (v : Validator) : Bool :=
  !seen.contains v.id && (signatures.find? fun vsig => decide (v.id = vsig.validatorId)).any fun vsig =>
    classicalVerify sphincs v.publicKey blockHash.toList vsig.signature

variable {seen : List Hash32} {vsig : ValidatorSignature}

theorem firstVerifies_cons_seen (before : seen.contains vsig.validatorId = true) (signatures : List ValidatorSignature)
    (v : Validator) :
    firstVerifies sphincs blockHash seen (vsig :: signatures) v = firstVerifies sphincs blockHash seen signatures v := by
  unfold firstVerifies
  by_cases here : v.id = vsig.validatorId
  · rw [here, before]
    rfl
  · rw [find?_cons, decide_eq_false here]

theorem firstVerifies_cons_new (new : seen.contains vsig.validatorId = false) (signatures : List ValidatorSignature)
    (v : Validator) :
    firstVerifies sphincs blockHash seen (vsig :: signatures) v =
      (decide (v.id = vsig.validatorId) && classicalVerify sphincs v.publicKey blockHash.toList vsig.signature ||
        firstVerifies sphincs blockHash (vsig.validatorId :: seen) signatures v) := by
  unfold firstVerifies
  rw [find?_cons, contains_cons]
  by_cases here : v.id = vsig.validatorId
  · rw [here, new, decide_eq_true rfl, beq_self_eq_true]
    simp
  · rw [decide_eq_false here, beq_eq_false_iff_ne.mpr here]
    simp

variable {stake : U128} (nodup : (validators.map Validator.id).Nodup)
include nodup

theorem countSignature_new (new : seen.contains vsig.validatorId = false)
    (fits : stake.toNat + stakeOf validators (fun v => decide (v.id = vsig.validatorId) &&
      classicalVerify sphincs v.publicKey blockHash.toList vsig.signature) < 2 ^ 128) :
    ∃ next : U128, countSignature sphincs validators blockHash (seen, stake) vsig =
        some (vsig.validatorId :: seen, next) ∧
      next.toNat = stake.toNat + stakeOf validators (fun v => decide (v.id = vsig.validatorId) &&
        classicalVerify sphincs v.publicKey blockHash.toList vsig.signature) := by
  rw [stakeOf, weigh_key nodup] at fits ⊢
  rw [countSignature, new, if_neg Bool.false_ne_true]
  cases found : validators.find? fun v => decide (v.id = vsig.validatorId) with
  | none => exact ⟨stake, rfl, rfl⟩
  | some validator =>
    rw [found] at fits
    simp only [Option.elim_some] at fits ⊢
    by_cases valid : classicalVerify sphincs validator.publicKey blockHash.toList vsig.signature = true
    · rw [if_pos valid] at fits
      simp only [if_pos valid, checkedAdd_of_lt fits, Option.map_some]
      exact ⟨_, rfl, by rw [toNat_add, mod_eq_of_lt fits]⟩
    · simp only [if_neg valid]
      exact ⟨stake, rfl, rfl⟩

/-- The loop over the signatures adds up the validators whose first signature
verifies. -/
theorem countSignatures (signatures : List ValidatorSignature)
    (fits : stake.toNat + stakeOf validators (firstVerifies sphincs blockHash seen signatures) < 2 ^ 128) :
    ∃ counted, signatures.foldlM (countSignature sphincs validators blockHash) (seen, stake) = some counted ∧
      counted.2.toNat = stake.toNat + stakeOf validators (firstVerifies sphincs blockHash seen signatures) := by
  induction signatures generalizing seen stake with
  | nil =>
    refine ⟨(seen, stake), rfl, ?_⟩
    rw [stakeOf, weigh_eq_zero fun v _ => by simp [firstVerifies], add_zero]
  | cons vsig signatures ih =>
    rw [foldlM_cons]
    cases before : seen.contains vsig.validatorId with
    | true =>
      have same : stakeOf validators (firstVerifies sphincs blockHash seen (vsig :: signatures)) =
          stakeOf validators (firstVerifies sphincs blockHash seen signatures) :=
        weigh_congr fun v _ => firstVerifies_cons_seen before signatures v
      rw [same] at fits ⊢
      rw [countSignature, before, if_pos rfl]
      exact ih fits
    | false =>
      -- the signature's own validator, and the later ones with its id seen
      have parts : stakeOf validators (firstVerifies sphincs blockHash seen (vsig :: signatures)) =
          stakeOf validators (fun v => decide (v.id = vsig.validatorId) &&
            classicalVerify sphincs v.publicKey blockHash.toList vsig.signature) +
          stakeOf validators (firstVerifies sphincs blockHash (vsig.validatorId :: seen) signatures) :=
        weigh_split (fun v _ => firstVerifies_cons_new before signatures v) fun v _ here => by
          rw [Bool.and_eq_true, decide_eq_true_eq] at here
          simp [firstVerifies, here.1]
      rw [parts] at fits ⊢
      have room := lt_of_le_of_lt (Nat.add_le_add_left (Nat.le_add_right _ _) stake.toNat) fits
      obtain ⟨next, counts, value⟩ := countSignature_new nodup before room
      rw [← add_assoc, ← value] at fits ⊢
      rw [counts]
      exact ih fits

end Count

section Consensus

variable (hashes : Hashes) (sphincs : Sphincs)

/-- Whether one of the block's signatures is a valid one of the validator. -/
def signed (block : CommitmentBlock) (v : Validator) : Bool :=
  block.validatorSignatures.any fun vsig => decide (v.id = vsig.validatorId) &&
    classicalVerify sphincs v.publicKey (block.calculateHash hashes.sha256).toList vsig.signature

/-- Whether the first of the block's signatures under the validator's id is a
valid one. -/
def counted (block : CommitmentBlock) (v : Validator) : Bool :=
  firstVerifies sphincs (block.calculateHash hashes.sha256) [] block.validatorSignatures v

/-- No invalid signature stands before a valid one of the same validator. -/
def Orderly (validators : List Validator) (block : CommitmentBlock) : Prop :=
  ∀ v ∈ validators, signed hashes sphincs block v = true → counted hashes sphincs block v = true

end Consensus

variable {hashes : Hashes} {sphincs : Sphincs} {validators : List Validator} {block : CommitmentBlock}

theorem signed_of_counted {v} (counts : counted hashes sphincs block v = true) :
    signed hashes sphincs block v = true := by
  rw [counted, firstVerifies, Bool.and_eq_true, Option.any_eq_true] at counts
  obtain ⟨-, vsig, found, valid⟩ := counts
  rw [signed, any_eq_true]
  exact ⟨vsig, mem_of_find?_eq_some found, by rw [find?_some found, valid]; rfl⟩

section
variable (nodup : (validators.map Validator.id).Nodup) {second first : CommitmentBlock}
include nodup

theorem hasConsensus_iff :
    hasConsensus hashes sphincs validators block = true ↔
      stakeOf validators (fun _ => true) < 2 ^ 128 ∧ stakeOf validators (fun _ => true) ≠ 0 ∧
        2 * stakeOf validators (fun _ => true) / 3 ≤ stakeOf validators (counted hashes sphincs block) := by
  unfold hasConsensus
  cases sum : totalStake validators with
  | none =>
    have large : ¬stakeOf validators (fun _ => true) < 2 ^ 128 := by
      intro fits
      have fitting : totalStake validators = some (BitVec.ofNat 128 (stakeOf validators fun _ => true)) := by
        rw [totalStake_eq_some, toNat_ofNat, mod_eq_of_lt fits]
      rw [sum] at fitting
      cases fitting
    simp only [Bool.false_eq_true, large, false_and]
  | some total =>
    have value := totalStake_eq_some.mp sum
    have bound := total.isLt
    have least : stakeOf validators (counted hashes sphincs block) ≤ stakeOf validators (fun _ => true) :=
      weigh_mono fun _ _ _ => rfl
    have fits : (0 : U128).toNat + stakeOf validators (counted hashes sphincs block) < 2 ^ 128 := by
      have start : (0 : U128).toNat = 0 := rfl
      omega
    obtain ⟨result, counts, stake⟩ := countSignatures nodup block.validatorSignatures fits
    have stake : result.2.toNat = stakeOf validators (counted hashes sphincs block) := stake.trans (zero_add _)
    simp only [counts]
    have zero : total = 0 ↔ total.toNat = 0 := toNat_inj.symm
    by_cases none : total = 0
    · have empty := zero.mp none
      rw [if_pos none]
      simp only [Bool.false_eq_true, false_iff]
      omega
    · have some := mt zero.mpr none
      rw [if_neg none, decide_eq_true_eq, le_def, requiredStake, toNat_twoThirds, mul_comm, stake, value]
      exact ⟨fun enough => ⟨bound, some, enough⟩, fun all => all.2.2⟩

/-- Two blocks that pass share what two thirds of the stake, rounded down, share. -/
theorem shared_of_hasConsensus
    (passes : hasConsensus hashes sphincs validators first = true)
    (passes' : hasConsensus hashes sphincs validators second = true) :
    2 * (2 * stakeOf validators (fun _ => true) / 3) ≤ stakeOf validators (fun _ => true) +
      stakeOf validators (fun v => signed hashes sphincs first v && signed hashes sphincs second v) := by
  obtain ⟨-, -, enough⟩ := (hasConsensus_iff nodup).mp passes
  obtain ⟨-, -, enough'⟩ := (hasConsensus_iff nodup).mp passes'
  have overlap : stakeOf validators (counted hashes sphincs first) + stakeOf validators (counted hashes sphincs second) ≤
      stakeOf validators (fun _ => true) +
        stakeOf validators (fun v => counted hashes sphincs first v && counted hashes sphincs second v) :=
    weigh_add_weigh_le _ validators _ _
  have both : stakeOf validators (fun v => counted hashes sphincs first v && counted hashes sphincs second v) ≤
      stakeOf validators (fun v => signed hashes sphincs first v && signed hashes sphincs second v) := by
    refine weigh_mono fun v _ counts => ?_
    rw [Bool.and_eq_true] at counts ⊢
    exact ⟨signed_of_counted counts.1, signed_of_counted counts.2⟩
  omega

theorem hasConsensus_congr
    (same : ∀ v ∈ validators, counted hashes sphincs first v = counted hashes sphincs second v) :
    hasConsensus hashes sphincs validators first = hasConsensus hashes sphincs validators second := by
  rw [Bool.eq_iff_iff, hasConsensus_iff nodup, hasConsensus_iff nodup, stakeOf, stakeOf, weigh_congr same]

end

end ConsensusEngine

namespace CommitmentChain

variable {hashes : Hashes} {sphincs : Sphincs} {self : CommitmentChain}

/-- Every stored block carries one signature. -/
def SignedOnce (self : CommitmentChain) : Prop :=
  ∀ number block, self.storage.blocks.lookup number = some block → ∃ vsig, block.validatorSignatures = [vsig]

theorem blocks_produceBlock (self : CommitmentChain) (disk : Disk) (timestamp : U64) :
    (self.produceBlock hashes sphincs disk timestamp).2.storage.blocks = self.storage.blocks ∨
      ∃ number previous commitments, (self.produceBlock hashes sphincs disk timestamp).2.storage.blocks =
        self.storage.blocks.insert number (self.signBlock hashes sphincs timestamp number previous commitments) := by
  simp only [produceBlock]
  cases disk.check 0 >>= fun _ => self.previousHash hashes disk (self.storage.tip.getD 0) with
  | error e => exact .inl rfl
  | ok previous =>
    by_cases empty : self.pending.isEmpty = true
    · left
      simp only [if_pos empty]
    · simp only [if_neg empty]
      unfold ChainStorage.storeBlock
      cases disk.check 2 with
      | error e => exact .inl rfl
      | ok =>
        refine .inr ⟨self.storage.tip.getD 0 + 1, previous, self.pending, ?_⟩
        cases disk.check 3 <;> rfl

theorem SignedOnce.apply (once : self.SignedOnce) (call : ChainCall) : (call.apply hashes sphincs self).SignedOnce := by
  cases call with
  | submitCommitment disk commitment =>
    rw [ChainCall.apply, submitCommitment]
    cases disk.check 0 with
    | error e => exact once
    | ok => exact once
  | produceBlock disk timestamp =>
    intro n found stored
    rw [ChainCall.apply] at stored
    rcases @blocks_produceBlock hashes sphincs self disk timestamp with same | ⟨number, previous, commitments, added⟩
    · rw [same] at stored
      exact once n found stored
    · rw [added] at stored
      rcases lookup_insert_cases stored with ⟨-, rfl⟩ | ⟨-, stored⟩
      · exact ⟨_, rfl⟩
      · exact once n found stored
  | addValidator v => exact once
  | reopen signingKey verifyingKey initialValidators => exact once

/-- The chain after some calls, with an empty database at first. -/
def run (hashes : Hashes) (sphincs : Sphincs) (signingKey verifyingKey : Bytes) (initialValidators : List Validator)
    (calls : List ChainCall) : CommitmentChain :=
  calls.foldl (ChainCall.apply hashes sphincs) (new signingKey verifyingKey initialValidators)

theorem mem_of_getLatestBlock {disk block}
    (latest : self.getLatestBlock disk = .ok (some block)) : ∃ number, self.storage.blocks.lookup number = some block := by
  obtain ⟨-, -, latest⟩ := ok_of_bind latest
  by_cases empty : self.storage.tip.getD 0 = 0
  · rw [if_pos empty] at latest
    cases latest
  · rw [if_neg empty] at latest
    obtain ⟨-, -, latest⟩ := ok_of_bind latest
    exact ⟨_, Except.ok.inj latest⟩

section Links

/-- What the block after the given one carries. -/
def linkHash (hashes : Hashes) (blocks : HashMap U64 CommitmentBlock) (n : U64) : Hash32 :=
  if n = 0 then Vector.replicate 32 0
  else ((blocks.lookup n).map (CommitmentBlock.calculateHash hashes.sha256)).getD (Vector.replicate 32 0)

/-- The block at a number is not empty and links to the one before it. -/
def LinkedAt (hashes : Hashes) (blocks : HashMap U64 CommitmentBlock) (n : U64) : Prop :=
  ∃ block, blocks.lookup n = some block ∧ block.blockNumber = n ∧ block.commitments ≠ [] ∧
    block.previousHash = linkHash hashes blocks (n - 1)

def Linked (hashes : Hashes) (storage : ChainStorage) : Prop :=
  ∀ n, 0 < n → n ≤ storage.tip.getD 0 → LinkedAt hashes storage.blocks n

variable {storage : ChainStorage}

theorem linkHash_insert {n number block} (other : n ≠ 0 → n ≠ number) :
    linkHash hashes (storage.blocks.insert number block) n = linkHash hashes storage.blocks n := by
  unfold linkHash
  split
  · rfl
  · rename_i positive
    rw [AList.lookup_insert_ne (other positive)]

/-- A block is written above the tip, and a failed write leaves the tip. -/
theorem Linked.storeBlock (linked : Linked hashes storage) (disk : Disk) {block : CommitmentBlock}
    (next : block.blockNumber = storage.tip.getD 0 + 1) (full : block.commitments ≠ [])
    (link : block.previousHash = linkHash hashes storage.blocks (storage.tip.getD 0)) :
    Linked hashes (storage.storeBlock disk block).2 := by
  have old (n : U64) (positive : 0 < n) (le : n ≤ storage.tip.getD 0) :
      LinkedAt hashes (storage.blocks.insert block.blockNumber block) n := by
    obtain ⟨found, here, number, full, link⟩ := linked n positive le
    refine ⟨found, ?_, number, full, link.trans (linkHash_insert fun _ => by bv_omega).symm⟩
    rw [AList.lookup_insert_ne (by bv_omega), here]
  unfold ChainStorage.storeBlock
  cases disk.check 2 with
  | error e => exact linked
  | ok =>
    cases disk.check 3 with
    | error e => exact old
    | ok =>
      intro n positive within
      by_cases top : n = block.blockNumber
      · subst top
        refine ⟨block, AList.lookup_insert _, rfl, full, ?_⟩
        rw [link, next, BitVec.add_sub_cancel, linkHash_insert fun _ => by bv_omega]
      · have within : n ≤ block.blockNumber := within
        exact old n positive (by bv_omega)

theorem Linked.apply (linked : Linked hashes self.storage) (call : ChainCall) :
    Linked hashes (call.apply hashes sphincs self).storage := by
  cases call with
  | submitCommitment disk commitment =>
    rw [ChainCall.apply, submitCommitment]
    cases disk.check 0 <;> exact linked
  | produceBlock disk timestamp =>
    unfold ChainCall.apply produceBlock
    dsimp only
    split
    · exact linked
    rename_i previous reads
    split
    · exact linked
    rename_i full
    refine linked.storeBlock disk rfl (fun none => full (isEmpty_iff.mpr none)) ?_
    obtain ⟨-, -, read⟩ := ok_of_bind reads
    unfold previousHash at read
    unfold linkHash
    split at read
    · rename_i first
      rw [if_pos first]
      exact (Except.ok.inj read).symm
    · rename_i later
      obtain ⟨-, -, read⟩ := ok_of_bind read
      rw [if_neg later]
      exact (Except.ok.inj read).symm
  | addValidator v => exact linked
  | reopen signingKey verifyingKey initialValidators => exact linked

/-- Whatever writes fail and whenever the node restarts, the blocks up to the
tip are numbered from one and linked by their hashes. -/
theorem commitment_chain_linked (hashes : Hashes) (sphincs : Sphincs) (signingKey verifyingKey : Bytes)
    (initialValidators : List Validator) (calls : List ChainCall) :
    Linked hashes (run hashes sphincs signingKey verifyingKey initialValidators calls).storage := by
  refine foldlRecOn (motive := fun chain : CommitmentChain => Linked hashes chain.storage) calls _ ?_ fun chain linked call _ => linked.apply call
  exact fun n positive within => absurd positive (BitVec.not_lt.mpr within)

end Links

end CommitmentChain

/-- A scheme in which a signature is the key it is checked with. -/
def keySphincs : Sphincs where
  publicKey _ := .ok ()
  secretKey _ := .ok ()
  detachedSignature _ := .ok ()
  detachedSign _ key := key
  verifyDetachedSignature signature _ key := signature == key

def fourValidators : List Validator := [1, 2, 3, 4].map fun n => Validator.new lastBytes [n] 1

/-- A block with the given signatures, each under a validator's number. -/
def signedBlock (timestamp : U64) (signatures : List (UInt8 × UInt8)) : CommitmentBlock :=
  ⟨1, timestamp, Vector.replicate 32 0, [], signatures.map fun s => ⟨lastBytes [s.1], [s.2], timestamp⟩⟩

end Bleep.Connect
