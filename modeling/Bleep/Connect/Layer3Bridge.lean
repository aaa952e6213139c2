import Bleep.Connect.ProofLayer

namespace Bleep.Connect

open HashTable Results ProofGenerator List AList Option

inductive Chain
  | bleep | ethereumSepolia | ethereumMainnet | solana
  deriving DecidableEq

inductive L3State
  | initiated | proofGenerating | proofReady | submitted | verified | finalized
  | failed (msg : String)
  deriving DecidableEq

/-- The batch ids stand beside the signed proof. -/
structure ZkBridgeProof where
  proofBytes : Bytes
  publicInputs : List Bytes
  srsId : String
  batchIds : List Hash32
  proveTimeMs : U64
  inner : ZKProof
  deriving DecidableEq

structure BridgeIntentL3 where
  intentId : Hash32
  sourceChain : Chain
  destChain : Chain
  sender : String
  recipient : String
  amount : U128
  token : String
  nonce : U64
  state : L3State
  proof : Option ZkBridgeProof
  deriving DecidableEq

def ZkBridgeProof.verify (hashes : Hashes) (sphincs : Sphincs) (self : ZkBridgeProof) (verifier : ProofVerifier) : Bool :=
  match verifier.verify hashes sphincs self.inner with
  | .ok valid => valid
  | .error _ => false

structure L3BatchProver where
  srsId : String
  pendingBatch : List Hash32
  proofsGenerated : U64
  totalProveMs : U64
  generator : ProofGenerator
  verifier : ProofVerifier

open L3BatchProver

namespace L3BatchProver

def new (srsId : String) (signingKey : Bytes) (publicKey : PublicKey) : L3BatchProver :=
  ⟨srsId, [], 0, 0, .newWithSigningKey signingKey, ⟨publicKey⟩⟩

def enqueue (self : L3BatchProver) (intentId : Hash32) : L3BatchProver :=
  { self with pendingBatch := self.pendingBatch ++ [intentId] }

/-- The input of the proof of a batch: only the first intent is part of it. -/
def batchInput (primaryIntent sourceRoot destRoot : Hash32) : ProofInput :=
  ⟨primaryIntent, .executionCompleted, sourceRoot, destRoot, 0, 0⟩

/-- The queue is emptied before the proof is made, and stays so when that
fails. -/
def proveBatch (hashes : Hashes) (sphincs : Sphincs) (self : L3BatchProver) (σ : IterOrder) (now proveTimeMs : U64)
    (sourceRoot destRoot : Hash32) : Option ZkBridgeProof × L3BatchProver :=
  match self.pendingBatch with
  | [] => (none, self)
  | primaryIntent :: rest =>
    let outcome := self.generator.generateProof hashes sphincs σ now (batchInput primaryIntent sourceRoot destRoot)
    let taken := { self with pendingBatch := [], generator := outcome.2 }
    match outcome.1 with
    | .error _ => (none, taken)
    | .ok inner =>
      (some ⟨inner.proofBytes, inner.publicInputs, self.srsId, primaryIntent :: rest, proveTimeMs, inner⟩,
        { taken with
          totalProveMs := self.totalProveMs + proveTimeMs
          proofsGenerated := self.proofsGenerated + 1 })

end L3BatchProver

structure Layer3Bridge where
  prover : L3BatchProver
  intents : HashMap Hash32 BridgeIntentL3
  nextId : U64

open Layer3Bridge

namespace Layer3Bridge

variable (hashes : Hashes) (sphincs : Sphincs) (self : Layer3Bridge)

def new (srsId : String) (signingKey : Bytes) (publicKey : PublicKey) : Layer3Bridge :=
  ⟨.new srsId signingKey publicKey, ∅, 1⟩

/-- The bytes of the number, least significant first, four times over. -/
def idOf (n : U64) : Hash32 := Vector.ofFn fun i => UInt8.ofNat (n.toNat / 256 ^ (i.val % 8))

def initiate (sourceChain destChain : Chain) (sender recipient : String) (amount : U128) (token : String) (nonce : U64) :
    Hash32 × Layer3Bridge :=
  let id := idOf self.nextId
  let intent : BridgeIntentL3 :=
    ⟨id, sourceChain, destChain, sender, recipient, amount, token, nonce, .initiated, none⟩
  (id, { prover := self.prover.enqueue id, intents := self.intents.insert id intent, nextId := self.nextId + 1 })

def modifyIntent (intents : HashMap Hash32 BridgeIntentL3) (id : Hash32) (change : BridgeIntentL3 → BridgeIntentL3) :
    HashMap Hash32 BridgeIntentL3 :=
  match intents.lookup id with
  | none => intents
  | some intent => intents.insert id (change intent)

def flushBatch (σ : IterOrder) (now proveTimeMs : U64) (sourceRoot destRoot : Hash32) :
    Option ZkBridgeProof × Layer3Bridge :=
  let outcome := self.prover.proveBatch hashes sphincs σ now proveTimeMs sourceRoot destRoot
  match outcome.1 with
  | none => (none, { self with prover := outcome.2 })
  | some proof =>
    let ready := fun intents id => modifyIntent intents id fun intent => { intent with state := .proofReady }
    (some proof, { self with prover := outcome.2, intents := proof.batchIds.foldl ready self.intents })

/-- Whether the batch of the proof contains the intent is not asked. -/
def submitProof (intentId : Hash32) (proof : ZkBridgeProof) : Bool × Layer3Bridge :=
  match self.intents.lookup intentId with
  | none => (false, self)
  | some intent =>
    if intent.state ≠ .proofReady then (false, self)
    else if proof.verify hashes sphincs self.prover.verifier then
      (true, { self with intents := self.intents.insert intentId { intent with state := .verified, proof := some proof } })
    else
      (false, { self with
        intents := self.intents.insert intentId { intent with state := .failed "proof verification failed" } })

def finalize (intentId : Hash32) : Bool × Layer3Bridge :=
  match self.intents.lookup intentId with
  | none => (false, self)
  | some intent =>
    if intent.state = .verified then
      (true, { self with intents := self.intents.insert intentId { intent with state := .finalized } })
    else (false, self)

end Layer3Bridge

inductive BridgeCall
  | initiate (sourceChain destChain : Chain) (sender recipient : String) (amount : U128) (token : String) (nonce : U64)
  | flushBatch (σ : IterOrder) (now proveTimeMs : U64) (sourceRoot destRoot : Hash32)
  | submitProof (intentId : Hash32) (proof : ZkBridgeProof)
  | finalize (intentId : Hash32)

def BridgeCall.apply (hashes : Hashes) (sphincs : Sphincs) (self : Layer3Bridge) : BridgeCall → Layer3Bridge
  | initiate sourceChain destChain sender recipient amount token nonce =>
    (self.initiate sourceChain destChain sender recipient amount token nonce).2
  | flushBatch σ now proveTimeMs sourceRoot destRoot =>
    (self.flushBatch hashes sphincs σ now proveTimeMs sourceRoot destRoot).2
  | submitProof intentId proof => (self.submitProof hashes sphincs intentId proof).2
  | finalize intentId => (self.finalize intentId).2

namespace Layer3Bridge

variable {hashes : Hashes} {sphincs : Sphincs} {self : Layer3Bridge} {id : Hash32}

/-- The batch of the proof contains the intent, and each intent of the batch is
among the signed inputs. -/
structure Covers (proof : ZkBridgeProof) (id : Hash32) : Prop where
  member : id ∈ proof.batchIds
  committed : ∀ other ∈ proof.batchIds, other.toList ∈ proof.inner.publicInputs

/-- What no call breaks: an intent that has been verified keeps a proof that
verifies, and the queue holds intents in `Initiated`. -/
structure Kept (hashes : Hashes) (sphincs : Sphincs) (bridge : Layer3Bridge) : Prop where
  proved : ∀ id intent, bridge.intents.lookup id = some intent → intent.state = .verified ∨ intent.state = .finalized →
    ∃ proof, intent.proof = some proof ∧ proof.verify hashes sphincs bridge.prover.verifier = true
  queued : ∀ id ∈ bridge.prover.pendingBatch, ∃ intent, bridge.intents.lookup id = some intent ∧ intent.state = .initiated

/-- Finalized intents rest on proofs that cover them, and intents in `Initiated`
are in the queue. -/
structure Sound (bridge : Layer3Bridge) : Prop where
  covered : ∀ id intent proof, bridge.intents.lookup id = some intent → intent.state = .finalized →
    intent.proof = some proof → Covers proof id
  pending : ∀ id intent, bridge.intents.lookup id = some intent → intent.state = .initiated →
    id ∈ bridge.prover.pendingBatch

/-- What the bridge does not check, and what fails in it. -/
def Fits (hashes : Hashes) (sphincs : Sphincs) (self : Layer3Bridge) : BridgeCall → Prop
  | .flushBatch σ now proveTimeMs sourceRoot destRoot => self.prover.pendingBatch = [] ∨
      (self.prover.proveBatch hashes sphincs σ now proveTimeMs sourceRoot destRoot).1.isSome = true
  | .finalize id => ∀ intent proof, self.intents.lookup id = some intent → intent.state = .verified →
      intent.proof = some proof → Covers proof id
  | _ => True

theorem lookup_modifyIntent (intents : HashMap Hash32 BridgeIntentL3) (key id : Hash32)
    (change : BridgeIntentL3 → BridgeIntentL3) :
    (modifyIntent intents key change).lookup id = if id = key then (intents.lookup id).map change else intents.lookup id := by
  unfold modifyIntent
  cases found : intents.lookup key with
  | none =>
    by_cases here : id = key
    · rw [if_pos here, here, found, map_none]
    · rw [if_neg here]
  | some intent =>
    rw [lookup_insert_eq]
    split
    · rename_i here
      rw [here, found, map_some]
    · rfl

theorem lookup_modifyAll {change} (twice : ∀ intent, change (change intent) = change intent)
    (ids : List Hash32) (intents : HashMap Hash32 BridgeIntentL3) (id : Hash32) :
    (ids.foldl (fun intents key => modifyIntent intents key change) intents).lookup id =
      if id ∈ ids then (intents.lookup id).map change else intents.lookup id := by
  induction ids generalizing intents with
  | nil => rfl
  | cons key ids ih =>
    rw [foldl_cons, ih, lookup_modifyIntent]
    by_cases here : id = key
    · rw [if_pos here, if_pos (List.mem_cons.mpr (.inl here)), Option.map_map]
      have once : change ∘ change = change := funext twice
      rw [once, ite_self]
    · rw [if_neg here]
      simp [here]

variable (σ : IterOrder) (now proveTimeMs : U64) (sourceRoot destRoot : Hash32) (sourceChain destChain : Chain)
  (sender recipient : String) (amount : U128) (token : String) (nonce : U64)

theorem proveBatch_cases (prover : L3BatchProver) :
    let outcome := prover.proveBatch hashes sphincs σ now proveTimeMs sourceRoot destRoot
    outcome.2.verifier = prover.verifier ∧ outcome.2.pendingBatch = [] ∧
      ∀ proof, outcome.1 = some proof → proof.batchIds = prover.pendingBatch := by
  simp only [proveBatch]
  cases queue : prover.pendingBatch with
  | nil => exact ⟨rfl, queue, fun proof made => by cases made⟩
  | cons primaryIntent rest =>
    dsimp only
    cases (prover.generator.generateProof hashes sphincs σ now
        (batchInput primaryIntent sourceRoot destRoot)).1 with
    | error e => exact ⟨rfl, rfl, fun proof made => by cases made⟩
    | ok inner =>
      refine ⟨rfl, rfl, fun proof made => ?_⟩
      cases made
      rfl

/-- A flush empties the queue. When it makes a proof, the intents of the queue
become `ProofReady`; otherwise the intents stay as they are. -/
theorem flushBatch_cases (self : Layer3Bridge) :
    let after := (self.flushBatch hashes sphincs σ now proveTimeMs sourceRoot destRoot).2
    let made := (self.prover.proveBatch hashes sphincs σ now proveTimeMs sourceRoot destRoot).1
    after.prover.verifier = self.prover.verifier ∧ after.prover.pendingBatch = [] ∧
      (made = none ∧ after.intents = self.intents ∨ made.isSome = true ∧ ∀ id intent, after.intents.lookup id = some intent →
        id ∈ self.prover.pendingBatch ∧ intent.state = .proofReady ∨
          id ∉ self.prover.pendingBatch ∧ self.intents.lookup id = some intent) := by
  simp only [flushBatch]
  obtain ⟨verifier, queue, batch⟩ := @proveBatch_cases hashes sphincs σ now proveTimeMs sourceRoot destRoot self.prover
  cases made : (self.prover.proveBatch hashes sphincs σ now proveTimeMs sourceRoot destRoot).1 with
  | none => exact ⟨verifier, queue, .inl ⟨rfl, rfl⟩⟩
  | some proof =>
    refine ⟨verifier, queue, .inr ⟨rfl, fun id intent stored => ?_⟩⟩
    rw [lookup_modifyAll, batch proof made] at stored
    rotate_left
    · exact fun _ => rfl
    split at stored
    · rename_i queued
      obtain ⟨before, -, rfl⟩ := map_eq_some_iff.mp stored
      exact .inl ⟨queued, rfl⟩
    · rename_i other
      exact .inr ⟨other, stored⟩

/-- A proof is refused, or its intent becomes `Verified` or `Failed`. -/
theorem submitProof_cases (self : Layer3Bridge) (key : Hash32) (proof : ZkBridgeProof) :
    let after := (self.submitProof hashes sphincs key proof).2
    after.prover = self.prover ∧ (after.intents = self.intents ∨
      ∃ intent next, self.intents.lookup key = some intent ∧ intent.state = .proofReady ∧
        after.intents = self.intents.insert key next ∧
        (next.state = .verified ∧ next.proof = some proof ∧
          proof.verify hashes sphincs self.prover.verifier = true ∨ ∃ msg, next.state = .failed msg)) := by
  simp only [submitProof]
  cases found : self.intents.lookup key with
  | none => exact ⟨rfl, .inl rfl⟩
  | some intent =>
    by_cases ready : intent.state = .proofReady
    · simp only [ready, ne_eq, not_true_eq_false, if_false]
      cases valid : proof.verify hashes sphincs self.prover.verifier with
      | true => exact ⟨rfl, .inr ⟨intent, _, rfl, ready, rfl, .inl ⟨rfl, rfl, rfl⟩⟩⟩
      | false => exact ⟨rfl, .inr ⟨intent, _, rfl, ready, rfl, .inr ⟨_, rfl⟩⟩⟩
    · simp only [ne_eq, ready, not_false_eq_true, if_true]
      exact ⟨trivial, .inl trivial⟩

/-- Only a verified intent is finalized, and it keeps its proof. -/
theorem finalize_cases (self : Layer3Bridge) (key : Hash32) :
    let after := (self.finalize key).2
    after.prover = self.prover ∧
      ((∀ intent, self.intents.lookup key = some intent → intent.state ≠ .verified) ∧ after.intents = self.intents ∨
        ∃ intent, self.intents.lookup key = some intent ∧ intent.state = .verified ∧
          after.intents = self.intents.insert key { intent with state := .finalized }) := by
  simp only [finalize]
  cases found : self.intents.lookup key with
  | none => exact ⟨rfl, .inl ⟨fun intent there => (by cases there), rfl⟩⟩
  | some intent =>
    by_cases verified : intent.state = .verified
    · simp only [if_pos verified]
      exact ⟨trivial, .inr ⟨intent, rfl, verified, rfl⟩⟩
    · simp only [if_neg verified]
      refine ⟨trivial, .inl ⟨fun other there => ?_, trivial⟩⟩
      cases there
      exact verified

section
variable {after : Layer3Bridge} {key : Hash32} (prover : after.prover = self.prover)
  {next : BridgeIntentL3}
include prover

/-- A change of an intent that is past `Initiated` leaves the queue in order. -/
theorem Kept.replace (kept : self.Kept hashes sphincs) {intent}
    (found : self.intents.lookup key = some intent) (past : intent.state ≠ .initiated)
    (inserted : after.intents = self.intents.insert key next)
    (proved : next.state = .verified ∨ next.state = .finalized →
      ∃ proof, next.proof = some proof ∧ proof.verify hashes sphincs self.prover.verifier = true) :
    after.Kept hashes sphincs := by
  constructor
  · rw [prover, inserted]
    intro id stored there has
    rcases HashTable.lookup_insert_cases there with ⟨-, rfl⟩ | ⟨-, old⟩
    · exact proved has
    · exact kept.proved id stored old has
  · rw [prover, inserted]
    intro id queued
    obtain ⟨other, there, initiated⟩ := kept.queued id queued
    have differs : id ≠ key := by
      rintro rfl
      cases found.symm.trans there
      exact past initiated
    exact ⟨other, (lookup_insert_ne differs).trans there, initiated⟩

theorem Sound.replace (sound : self.Sound)
    (inserted : after.intents = self.intents.insert key next) (past : next.state ≠ .initiated)
    (covered : next.state = .finalized → ∀ proof, next.proof = some proof → Covers proof key) : after.Sound := by
  constructor
  · rw [inserted]
    intro id stored proof there finalized has
    rcases HashTable.lookup_insert_cases there with ⟨rfl, rfl⟩ | ⟨-, old⟩
    · exact covered finalized proof has
    · exact sound.covered id stored proof old finalized has
  · rw [prover, inserted]
    intro id stored there initiated
    rcases HashTable.lookup_insert_cases there with ⟨-, rfl⟩ | ⟨-, old⟩
    · exact absurd initiated past
    · exact sound.pending id stored old initiated

end

section
variable (kept : self.Kept hashes sphincs)
include kept

theorem Kept.initiate :
    (self.initiate sourceChain destChain sender recipient amount token nonce).2.Kept hashes sphincs := by
  constructor
  · intro id intent stored proved
    rcases HashTable.lookup_insert_cases stored with ⟨-, rfl⟩ | ⟨-, old⟩
    · rcases proved with verified | finalized
      · cases verified
      · cases finalized
    · exact kept.proved id intent old proved
  · intro id queued
    simp only [Layer3Bridge.initiate]
    by_cases new : id = idOf self.nextId
    · rw [new, lookup_insert]
      exact ⟨_, rfl, rfl⟩
    · rw [lookup_insert_ne new]
      rcases mem_append.mp queued with old | added
      · exact kept.queued id old
      · exact absurd (mem_singleton.mp added) new

theorem Kept.flushBatch :
    (self.flushBatch hashes sphincs σ now proveTimeMs sourceRoot destRoot).2.Kept hashes sphincs := by
  obtain ⟨verifier, queue, outcome⟩ := @flushBatch_cases hashes sphincs σ now proveTimeMs sourceRoot destRoot self
  constructor
  · intro id intent stored proved
    rw [verifier]
    rcases outcome with ⟨-, same⟩ | ⟨-, readied⟩
    · rw [same] at stored
      exact kept.proved id intent stored proved
    · rcases readied id intent stored with ⟨-, ready⟩ | ⟨-, old⟩
      · simp [ready] at proved
      · exact kept.proved id intent old proved
  · intro id queued
    rw [queue] at queued
    cases queued

theorem Kept.submitProof (key : Hash32) (proof : ZkBridgeProof) :
    (self.submitProof hashes sphincs key proof).2.Kept hashes sphincs := by
  obtain ⟨prover, same | ⟨intent, next, found, ready, inserted, outcome⟩⟩ :=
    @submitProof_cases hashes sphincs self key proof
  · exact ⟨by rw [same, prover]; exact kept.proved, by rw [same, prover]; exact kept.queued⟩
  refine kept.replace prover found (by simp [ready]) inserted fun proved => ?_
  rcases outcome with ⟨-, has, valid⟩ | ⟨msg, failed⟩
  · exact ⟨proof, has, valid⟩
  · simp [failed] at proved

theorem Kept.finalize (key : Hash32) : (self.finalize key).2.Kept hashes sphincs := by
  obtain ⟨prover, ⟨-, same⟩ | ⟨intent, found, verified, inserted⟩⟩ := self.finalize_cases key
  · exact ⟨by rw [same, prover]; exact kept.proved, by rw [same, prover]; exact kept.queued⟩
  · exact kept.replace prover found (by simp [verified]) inserted fun _ => kept.proved key intent found (.inl verified)

theorem Kept.apply (call : BridgeCall) : (call.apply hashes sphincs self).Kept hashes sphincs := by
  cases call with
  | initiate sourceChain destChain sender recipient amount token nonce =>
    exact kept.initiate sourceChain destChain sender recipient amount token nonce
  | flushBatch σ now proveTimeMs sourceRoot destRoot => exact kept.flushBatch σ now proveTimeMs sourceRoot destRoot
  | submitProof key proof => exact kept.submitProof key proof
  | finalize key => exact kept.finalize key

end

theorem verifier_apply (self : Layer3Bridge) (call : BridgeCall) :
    (call.apply hashes sphincs self).prover.verifier = self.prover.verifier := by
  cases call with
  | initiate sourceChain destChain sender recipient amount token nonce => rfl
  | flushBatch σ now proveTimeMs sourceRoot destRoot =>
    exact (@flushBatch_cases hashes sphincs σ now proveTimeMs sourceRoot destRoot self).1
  | submitProof key proof => exact congrArg verifier (@submitProof_cases hashes sphincs self key proof).1
  | finalize key => exact congrArg verifier (self.finalize_cases key).1

variable (sound : self.Sound)
include sound

theorem Sound.initiate :
    (self.initiate sourceChain destChain sender recipient amount token nonce).2.Sound := by
  constructor
  · intro id intent proof stored finalized has
    rcases HashTable.lookup_insert_cases stored with ⟨-, rfl⟩ | ⟨-, old⟩
    · cases finalized
    · exact sound.covered id intent proof old finalized has
  · intro id intent stored initiated
    rcases HashTable.lookup_insert_cases stored with ⟨new, -⟩ | ⟨-, old⟩
    · exact mem_append_right _ (mem_singleton.mpr new)
    · exact mem_append_left _ (sound.pending id intent old initiated)

/-- A flush keeps the queue complete exactly when it has nothing to do or makes
its proof. -/
theorem Sound.flushBatch_iff (kept : self.Kept hashes sphincs) :
    (self.flushBatch hashes sphincs σ now proveTimeMs sourceRoot destRoot).2.Sound ↔
      self.prover.pendingBatch = [] ∨
        (self.prover.proveBatch hashes sphincs σ now proveTimeMs sourceRoot destRoot).1.isSome = true := by
  obtain ⟨-, queue, outcome⟩ := @flushBatch_cases hashes sphincs σ now proveTimeMs sourceRoot destRoot self
  rcases outcome with ⟨none, same⟩ | ⟨some, readied⟩
  · rw [none]
    simp only [isSome_none, Bool.false_eq_true, or_false]
    constructor
    · intro after
      -- what was in the queue is still in `Initiated`, and the queue is gone
      refine eq_nil_iff_forall_not_mem.mpr fun id queued => ?_
      obtain ⟨intent, found, initiated⟩ := kept.queued id queued
      have still := after.pending id intent (same ▸ found) initiated
      rw [queue] at still
      cases still
    · intro empty
      constructor
      · rw [same]
        exact sound.covered
      · rw [same, queue, ← empty]
        exact sound.pending
  · refine iff_of_true ⟨?_, ?_⟩ (.inr some)
    · intro id intent proof stored finalized has
      rcases readied id intent stored with ⟨-, ready⟩ | ⟨-, old⟩
      · cases ready.symm.trans finalized
      · exact sound.covered id intent proof old finalized has
    · intro id intent stored initiated
      rcases readied id intent stored with ⟨-, ready⟩ | ⟨other, old⟩
      · cases ready.symm.trans initiated
      · exact absurd (sound.pending id intent old initiated) other

theorem Sound.submitProof (key : Hash32) (proof : ZkBridgeProof) :
    (self.submitProof hashes sphincs key proof).2.Sound := by
  obtain ⟨prover, same | ⟨intent, next, -, -, inserted, outcome⟩⟩ := @submitProof_cases hashes sphincs self key proof
  · exact ⟨by rw [same]; exact sound.covered, by rw [same, prover]; exact sound.pending⟩
  · rcases outcome with ⟨verified, -, -⟩ | ⟨msg, failed⟩
    · exact sound.replace prover inserted (by simp [verified]) (by simp [verified])
    · exact sound.replace prover inserted (by simp [failed]) (by simp [failed])

/-- An intent may be finalized exactly when the proof it was verified with
covers it. -/
theorem Sound.finalize_iff (key : Hash32) :
    (self.finalize key).2.Sound ↔ ∀ intent proof, self.intents.lookup key = some intent → intent.state = .verified →
      intent.proof = some proof → Covers proof key := by
  obtain ⟨prover, ⟨other, same⟩ | ⟨intent, found, verified, inserted⟩⟩ := self.finalize_cases key
  · refine iff_of_true ⟨by rw [same]; exact sound.covered, by rw [same, prover]; exact sound.pending⟩ ?_
    intro intent proof found verified _
    exact absurd verified (other intent found)
  · constructor
    · intro after given proof found' _ has
      cases found.symm.trans found'
      refine after.covered key { intent with state := .finalized } proof ?_ rfl has
      rw [inserted, lookup_insert]
    · intro covers
      exact sound.replace prover inserted (by simp) fun _ proof => covers intent proof found verified

theorem Sound.apply_iff (kept : self.Kept hashes sphincs) (call : BridgeCall) :
    (call.apply hashes sphincs self).Sound ↔ self.Fits hashes sphincs call := by
  cases call with
  | initiate sourceChain destChain sender recipient amount token nonce =>
    exact iff_of_true (sound.initiate sourceChain destChain sender recipient amount token nonce) trivial
  | flushBatch σ now proveTimeMs sourceRoot destRoot =>
    exact sound.flushBatch_iff σ now proveTimeMs sourceRoot destRoot kept
  | submitProof key proof => exact iff_of_true (sound.submitProof key proof) trivial
  | finalize key => exact sound.finalize_iff key

end Layer3Bridge

section Runs

variable (hashes : Hashes) (sphincs : Sphincs) (srsId : String) (signingKey : Bytes) (publicKey : PublicKey)
  (calls : List BridgeCall)

def bridgeAt (n : Nat) : Layer3Bridge :=
  (calls.take n).foldl (BridgeCall.apply hashes sphincs) (.new srsId signingKey publicKey)

theorem kept_bridgeAt (n : Nat) : (bridgeAt hashes sphincs srsId signingKey publicKey calls n).Kept hashes sphincs := by
  refine Runs.foldl_take_mono (fun _ call kept => kept.apply call) (Nat.zero_le n) ?_
  exact ⟨fun id intent stored => (by cases stored), fun id queued => (by cases queued)⟩

theorem verifier_bridgeAt (n : Nat) :
    (bridgeAt hashes sphincs srsId signingKey publicKey calls n).prover.verifier = ⟨publicKey⟩ := by
  refine @Runs.foldl_take_mono _ _ _ _ _ (fun bridge : Layer3Bridge => bridge.prover.verifier = ⟨publicKey⟩)
    (fun bridge call same => ?_) 0 n (Nat.zero_le n) rfl
  rw [verifier_apply, same]

end Runs

section Demo

def demoRoot : Hash32 := Vector.replicate 32 5

def demoInitiate : BridgeCall := .initiate .bleep .solana "alice" "bob" 10 "BLEEP" 0

/-- The keys have the sizes that the scheme asks for. -/
def demoSigningKey : Bytes := List.replicate (2 * sphincsPkLen) 0

def demoPublicKey : PublicKey := ⟨List.replicate sphincsPkLen 0, List.length_replicate⟩

/-- The signed proof of the batch of the first intent. -/
def demoInner : ZKProof :=
  let input := batchInput (idOf 1) demoRoot demoRoot
  ⟨input.computeProofId lastBytes, .executionCompleted,
    (⟨List.replicate sphincsSigLen 0, lastBytes input.transcript⟩ : DigitalSignature).asBytes, input.publicInputs,
    idOf 1, 0⟩

def demoBridgeProof : ZkBridgeProof :=
  ⟨demoInner.proofBytes, demoInner.publicInputs, "srs", [idOf 1], 0, demoInner⟩

/-- Two intents, each with a batch and a proof of its own; the second one is
given the proof of the first. -/
def demoBridgeCalls : List BridgeCall :=
  [demoInitiate, .flushBatch .stored 0 0 demoRoot demoRoot, demoInitiate, .flushBatch .stored 0 0 demoRoot demoRoot,
    .submitProof (idOf 2) demoBridgeProof, .finalize (idOf 2)]

theorem demoBridgeProof_verifies : demoBridgeProof.verify lastHashes sizedSphincs ⟨demoPublicKey⟩ = true := by
  have size : (replicate sphincsSigLen (0 : UInt8)).length = sphincsSigLen := length_replicate
  have valid : ProofVerifier.verify lastHashes sizedSphincs ⟨demoPublicKey⟩ demoInner = .ok true :=
    verify_of_joined (by decide) (flatten_publicInputs _) rfl size (sizedSphincs_publicKey length_replicate)
      (sizedSphincs_detachedSignature size.le) rfl
  have inner : demoBridgeProof.inner = demoInner := rfl
  rw [ZkBridgeProof.verify, inner, valid]

/-- The second intent as it stands when the foreign proof is submitted. -/
def demoReady : BridgeIntentL3 :=
  ⟨idOf 2, .bleep, .solana, "alice", "bob", 10, "BLEEP", 0, .proofReady, none⟩

/-- A scheme that can parse no secret key. -/
def keylessSphincs : Sphincs := { sizedSphincs with secretKey := fun _ => .error "BadLength" }

def demoBridgeAt (n : Nat) : Layer3Bridge :=
  bridgeAt lastHashes sizedSphincs "srs" demoSigningKey demoPublicKey demoBridgeCalls n

theorem demoBridgeAt_succ {n call} (here : demoBridgeCalls[n]? = some call) :
    demoBridgeAt (n + 1) = call.apply lastHashes sizedSphincs (demoBridgeAt n) :=
  Runs.foldl_take_succ here

theorem demo_made (generator : ProofGenerator) (new : generator = .newWithSigningKey demoSigningKey) :
    (generator.generateProof lastHashes sizedSphincs .stored 0
      (batchInput (idOf 1) demoRoot demoRoot)).1 = .ok demoInner := by
  have key : sizedSphincs.secretKey demoSigningKey = .ok () := sizedSphincs_secretKey length_replicate
  have empty : (newWithSigningKey demoSigningKey).cache.proofs.lookup
      ((batchInput (idOf 1) demoRoot demoRoot).computeProofId lastHashes.sha256) = none := rfl
  have secret : (newWithSigningKey demoSigningKey).signingKey = demoSigningKey := rfl
  rw [new, generateProof]
  simp only [empty, secret, SignatureScheme.sign, key]
  rfl

theorem demo_flushed :
    ((demoBridgeAt 1).flushBatch lastHashes sizedSphincs .stored 0 0 demoRoot demoRoot).1 = some demoBridgeProof := by
  have queue : (demoBridgeAt 1).prover.pendingBatch = [idOf 1] := rfl
  have made := demo_made (demoBridgeAt 1).prover.generator rfl
  have proved : ((demoBridgeAt 1).prover.proveBatch lastHashes sizedSphincs .stored 0 0 demoRoot demoRoot).1 =
      some demoBridgeProof := by
    rw [proveBatch]
    simp only [queue, made]
    rfl
  rw [flushBatch]
  simp only [proved]

theorem demo_verified : (demoBridgeAt 5).intents.lookup (idOf 2) =
    some { demoReady with state := .verified, proof := some demoBridgeProof } := by
  have here : demoBridgeCalls[4]? = some (.submitProof (idOf 2) demoBridgeProof) := rfl
  have next := demoBridgeAt_succ here
  have ready : (demoBridgeAt 4).intents.lookup (idOf 2) = some demoReady := by decide +kernel
  have verifier : (demoBridgeAt 4).prover.verifier = ⟨demoPublicKey⟩ := by
    rw [demoBridgeAt, verifier_bridgeAt]
  rw [next, BridgeCall.apply, submitProof]
  simp only [ready, verifier, demoBridgeProof_verifies, if_true]
  rw [if_neg (by decide), lookup_insert]

end Demo

end Bleep.Connect
