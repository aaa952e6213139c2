import Bleep.Connect.Types
import Bleep.Library.Runs
import Bleep.PqCrypto

namespace Bleep.Connect

open HashTable Results SignatureScheme List AList DigitalSignature

/-- `to_le_bytes` of a `u128`. -/
def le128 (n : U128) : Bytes := Words.leBytes 16 n.toNat

/-- The `Debug` form of a text. -/
def debugText (s : String) : String :=
  "\"" ++ String.ofList (s.toList.flatMap fun c => if c = '"' ∨ c = '\\' then ['\\', c] else [c]) ++ "\""

def debugCryptoError : CryptoError → String
  | .signatureVerificationFailed msg => "SignatureVerificationFailed(" ++ debugText msg ++ ")"
  | .invalidKeyFormat msg => "InvalidKeyFormat(" ++ debugText msg ++ ")"
  | .invalidSignatureFormat msg => "InvalidSignatureFormat(" ++ debugText msg ++ ")"

inductive ProofType
  | escrowLocked | executionCompleted | stateTransition | atomicSwap | batchAggregated
  deriving DecidableEq

structure ZKProof where
  proofId : Hash32
  proofType : ProofType
  proofBytes : Bytes
  publicInputs : List Bytes
  intentId : Hash32
  generatedAt : U64
  deriving DecidableEq

structure ProofCache where
  proofs : HashMap Hash32 ZKProof
  maxSize : Nat

/-- A full cache drops the entry that happens to be met first. -/
def ProofCache.insert (self : ProofCache) (σ : IterOrder) (proof : ZKProof) : ProofCache :=
  let kept := if self.maxSize ≤ self.proofs.entries.length then
      match (σ.iter 0 self.proofs).head? with
      | some entry => self.proofs.erase entry.1
      | none => self.proofs
    else self.proofs
  { self with proofs := kept.insert proof.proofId proof }

structure ProofInput where
  intentId : Hash32
  proofType : ProofType
  sourceStateRoot : Hash32
  destTxHash : Hash32
  minDestAmount : U128
  destAmountDelivered : U128

open ProofInput

namespace ProofInput

def publicInputs (self : ProofInput) : List Bytes :=
  [self.intentId.toList, self.sourceStateRoot.toList, self.destTxHash.toList, le128 self.destAmountDelivered]

def transcript (self : ProofInput) : Bytes :=
  self.intentId.toList ++ self.sourceStateRoot.toList ++ self.destTxHash.toList ++ le128 self.destAmountDelivered

/-- Neither the destination transaction nor the amount delivered is part of the
id. -/
def computeProofId (sha256 : Bytes → Hash32) (self : ProofInput) : Hash32 :=
  sha256 (self.intentId.toList ++ be128 self.minDestAmount ++ self.sourceStateRoot.toList)

end ProofInput

structure ProofGenerator where
  cache : ProofCache
  signingKey : Bytes

namespace ProofGenerator

def newWithSigningKey (signingKey : Bytes) : ProofGenerator := ⟨⟨∅, 1000⟩, signingKey⟩

variable (hashes : Hashes) (sphincs : Sphincs)

/-- The amount delivered is not compared with the least one. -/
def generateProof (self : ProofGenerator) (σ : IterOrder) (now : U64) (input : ProofInput) :
    Except BleepConnectError ZKProof × ProofGenerator :=
  let proofId := input.computeProofId hashes.sha256
  match self.cache.proofs.lookup proofId with
  | some cached => (.ok cached, self)
  | none =>
    match SignatureScheme.sign hashes.sha3 sphincs input.transcript self.signingKey with
    | .error e => (.error (.proofVerificationFailed ("Proof signing failed: " ++ debugCryptoError e)), self)
    | .ok signature =>
      let proof : ZKProof := ⟨proofId, input.proofType, signature.asBytes, input.publicInputs, input.intentId, now⟩
      (.ok proof, { self with cache := self.cache.insert σ proof })

end ProofGenerator

structure ProofVerifier where
  publicKey : PublicKey

/-- The pieces are joined, whatever their lengths, and the intent id beside them
is not looked at. -/
def ProofVerifier.verify (hashes : Hashes) (sphincs : Sphincs) (self : ProofVerifier) (proof : ZKProof) :
    Except BleepConnectError Bool :=
  if proof.publicInputs.length < 4 then
    .error (.proofVerificationFailed "Insufficient public inputs for proof verification")
  else
    match fromBytes proof.proofBytes with
    | .error e => .error (.proofVerificationFailed ("Invalid signature encoding: " ++ debugCryptoError e))
    | .ok signature =>
      .ok (SignatureScheme.verify hashes.sha3 sphincs proof.publicInputs.flatten signature self.publicKey).isOk

structure GenerateCall where
  σ : IterOrder
  now : U64
  input : ProofInput

variable {verifier : ProofVerifier}

section Lemmas

variable {hashes : Hashes} {sphincs : Sphincs} {sha256 : Bytes → Hash32} {first second : ProofInput}

theorem flatten_publicInputs (input : ProofInput) : input.publicInputs.flatten = input.transcript := by
  simp [publicInputs, transcript]

theorem lookup_insert_cases {cache : ProofCache} {σ} {proof : ZKProof} {found key}
    (stored : (cache.insert σ proof).proofs.lookup key = some found) :
    key = proof.proofId ∧ found = proof ∨ cache.proofs.lookup key = some found := by
  by_cases here : key = proof.proofId
  · rw [here, ProofCache.insert, lookup_insert, Option.some.injEq] at stored
    exact .inl ⟨here, stored.symm⟩
  · rw [ProofCache.insert, lookup_insert_ne here] at stored
    right
    by_cases full : cache.maxSize ≤ cache.proofs.entries.length
    · rw [if_pos full] at stored
      cases met : (σ.iter 0 cache.proofs).head? with
      | none =>
        rw [met] at stored
        exact stored
      | some entry =>
        rw [met] at stored
        by_cases dropped : key = entry.1
        · rw [dropped, lookup_erase] at stored
          cases stored
        · rw [lookup_erase_ne dropped] at stored
          exact stored
    · rw [if_neg full] at stored
      exact stored

/-- A proof comes out of the cache, or is made for the input. -/
theorem generateProof_cases (self : ProofGenerator) (σ : IterOrder) (now : U64) (input : ProofInput) :
    (∃ cached, self.cache.proofs.lookup (input.computeProofId hashes.sha256) = some cached ∧
        self.generateProof hashes sphincs σ now input = (.ok cached, self)) ∨
      (∃ e, (self.generateProof hashes sphincs σ now input) = (.error e, self)) ∨
      ∃ proof : ZKProof, self.cache.proofs.lookup (input.computeProofId hashes.sha256) = none ∧
        (sphincs.secretKey self.signingKey).isOk = true ∧ proof.proofId = input.computeProofId hashes.sha256 ∧
        proof.publicInputs = input.publicInputs ∧ proof.intentId = input.intentId ∧
        self.generateProof hashes sphincs σ now input = (.ok proof, { self with cache := self.cache.insert σ proof }) := by
  simp only [ProofGenerator.generateProof]
  cases found : self.cache.proofs.lookup (input.computeProofId hashes.sha256) with
  | some cached => exact .inl ⟨cached, rfl, rfl⟩
  | none =>
    cases signed : sign hashes.sha3 sphincs input.transcript self.signingKey with
    | error e => exact .inr (.inl ⟨_, rfl⟩)
    | ok signature =>
      refine .inr (.inr ⟨_, rfl, ?_, rfl, rfl, rfl, rfl⟩)
      unfold sign at signed
      cases parsed : sphincs.secretKey self.signingKey with
      | ok => rfl
      | error e =>
        rw [parsed] at signed
        cases signed

/-- A proof whose pieces join to a signed message is accepted. -/
theorem verify_of_joined {proof sig msg}
    (many : ¬proof.publicInputs.length < 4) (joined : proof.publicInputs.flatten = msg)
    (bytes : proof.proofBytes = (⟨sig, hashes.sha3 msg⟩ : DigitalSignature).asBytes) (size : sig.length = sphincsSigLen)
    (key : sphincs.publicKey verifier.publicKey.bytes = .ok ()) (parses : sphincs.detachedSignature sig = .ok ())
    (valid : sphincs.verifyDetachedSignature sig msg verifier.publicKey.bytes = true) :
    verifier.verify hashes sphincs proof = .ok true := by
  have parsed : fromBytes proof.proofBytes = .ok ⟨sig, hashes.sha3 msg⟩ := by
    rw [bytes]
    exact fromBytes_asBytes size
  have verified : verify hashes.sha3 sphincs msg ⟨sig, hashes.sha3 msg⟩ verifier.publicKey = .ok () :=
    verify_of_parses rfl key parses valid
  rw [ProofVerifier.verify, if_neg many, parsed]
  simp only [joined, verified]
  rfl

end Lemmas

section Runs

variable (hashes : Hashes) (sphincs : Sphincs) (signingKey : Bytes) (calls : List GenerateCall)

def generatorAt (n : Nat) : ProofGenerator :=
  (calls.take n).foldl
    (fun generator call => (generator.generateProof hashes sphincs call.σ call.now call.input).2)
    (.newWithSigningKey signingKey)

def ReturnsAt (n : Nat) (input : ProofInput) (proof : ZKProof) : Prop :=
  ∃ call, calls[n]? = some call ∧ call.input = input ∧
    ((generatorAt hashes sphincs signingKey calls n).generateProof hashes sphincs call.σ call.now input).1 = .ok proof

/-- The call signs the transcript of its input. -/
def SignsAt (n : Nat) (input : ProofInput) : Prop :=
  ∃ call, calls[n]? = some call ∧ call.input = input ∧
    (generatorAt hashes sphincs signingKey calls n).cache.proofs.lookup (input.computeProofId hashes.sha256) = none ∧
    (sphincs.secretKey signingKey).isOk = true

/-- Whatever verifies under the generator's key was signed by the generator. -/
def Unforgeable (verifier : ProofVerifier) : Prop :=
  ∀ sig msg, sphincs.verifyDetachedSignature sig msg verifier.publicKey.bytes = true →
    ∃ n input, SignsAt hashes sphincs signingKey calls n input ∧ input.transcript = msg

/-- Calls with one proof id agree in the rest of what they prove. -/
def Consistent : Prop :=
  ∀ first ∈ calls, ∀ second ∈ calls, first.input.intentId = second.input.intentId →
    first.input.minDestAmount = second.input.minDestAmount →
    first.input.sourceStateRoot = second.input.sourceStateRoot →
      first.input.destTxHash = second.input.destTxHash ∧
        first.input.destAmountDelivered = second.input.destAmountDelivered

variable {hashes sphincs signingKey calls} {n : Nat}

variable {proof : ZKProof} {input : ProofInput}

/-- Every proof in the cache was made by an earlier call with its id. -/
theorem made_of_cached {key}
    (cached : (generatorAt hashes sphincs signingKey calls n).cache.proofs.lookup key = some proof) :
    ∃ m < n, ∃ call, calls[m]? = some call ∧ call.input.computeProofId hashes.sha256 = key ∧
      proof.publicInputs = call.input.publicInputs ∧ proof.intentId = call.input.intentId := by
  obtain ⟨m, -, less, call, here, fresh, cached⟩ := @Runs.exists_turn _ _ _ _ _
    (fun generator : ProofGenerator => generator.cache.proofs.lookup key = some proof) 0 n (Nat.zero_le n) (by rintro ⟨⟩) cached
  rw [← generatorAt] at fresh cached
  rcases @generateProof_cases hashes sphincs (generatorAt hashes sphincs signingKey calls m) call.σ call.now
    call.input with ⟨_, -, same⟩ | ⟨_, same⟩ | ⟨made, -, -, id, inputs, intent, after⟩
  · rw [same] at cached
    exact absurd cached fresh
  · rw [same] at cached
    exact absurd cached fresh
  · rw [after] at cached
    rcases lookup_insert_cases cached with ⟨is, rfl⟩ | earlier
    · exact ⟨m, less, call, here, (is.trans id).symm, inputs, intent⟩
    · exact absurd earlier fresh

/-- The proof that a call returns was made by a call with the same id. -/
theorem made_of_returned (returns : ReturnsAt hashes sphincs signingKey calls n input proof) :
    ∃ (m : ℕ) (call : _), calls[m]? = some call ∧
      call.input.computeProofId hashes.sha256 = input.computeProofId hashes.sha256 ∧
      proof.publicInputs = call.input.publicInputs ∧ proof.intentId = call.input.intentId := by
  obtain ⟨call, here, rfl, result⟩ := returns
  rcases @generateProof_cases hashes sphincs (generatorAt hashes sphincs signingKey calls n) call.σ call.now
    call.input with ⟨cached, found, same⟩ | ⟨_, same⟩ | ⟨made, -, -, -, inputs, intent, after⟩
  · rw [same] at result
    cases result
    obtain ⟨m, -, made⟩ := made_of_cached found
    exact ⟨m, made⟩
  · rw [same] at result
    cases result
  · rw [after] at result
    cases result
    exact ⟨n, call, here, rfl, inputs, intent⟩

/-- The pieces have the lengths of the generator's, and the first is the intent
id. -/
structure WellSplit (proof : ZKProof) : Prop where
  lengths : proof.publicInputs.map List.length = [32, 32, 32, 16]
  head : proof.publicInputs.head? = some proof.intentId.toList

theorem wellSplit_of_input (inputs : proof.publicInputs = input.publicInputs)
    (intent : proof.intentId = input.intentId) : WellSplit proof := by
  refine ⟨?_, ?_⟩
  · rw [inputs]
    simp [publicInputs, le128]
  · rw [inputs, intent]
    rfl

theorem WellSplit.inputs_eq (split : WellSplit proof) (joined : proof.publicInputs.flatten = input.transcript) :
    proof.publicInputs = input.publicInputs ∧ proof.intentId = input.intentId := by
  obtain ⟨lengths, head⟩ := split
  cases pieces : proof.publicInputs with
  | nil =>
    rw [pieces] at lengths
    cases lengths
  | cons a rest =>
    rw [pieces] at lengths head joined
    have same : a :: rest = input.publicInputs := by
      have widths : (a :: rest).map length = input.publicInputs.map length := by
        rw [lengths]
        simp [publicInputs, le128]
      rw [← flatten_publicInputs] at joined
      exact eq_iff_flatten_eq.mpr ⟨joined, widths⟩
    refine ⟨same, ?_⟩
    rw [same] at head
    exact (Vector.toList_inj.mp (Option.some.inj head)).symm

theorem signed_of_verified
    (unforgeable : Unforgeable hashes sphincs signingKey calls verifier)
    (accepted : verifier.verify hashes sphincs proof = .ok true) :
    ∃ n input, SignsAt hashes sphincs signingKey calls n input ∧ input.transcript = proof.publicInputs.flatten := by
  unfold ProofVerifier.verify at accepted
  split at accepted
  · cases accepted
  split at accepted
  · cases accepted
  rename_i signature parsed
  have valid := Except.ok.inj accepted
  cases verified : verify hashes.sha3 sphincs proof.publicInputs.flatten signature
    verifier.publicKey with
  | error e =>
    rw [verified] at valid
    cases valid
  | ok => exact unforgeable _ _ (verifies verified)

end Runs

section Demo

/-- A transfer that delivers nothing of the 10 it should, to the given
destination transaction. -/
def demoInput (dest : UInt8) : ProofInput :=
  ⟨Vector.replicate 32 1, .executionCompleted, Vector.replicate 32 2, Vector.replicate 32 dest, 10, 0⟩

/-- A scheme that accepts one message, for evaluation only. -/
def onceSphincs (message : Bytes) : Sphincs where
  publicKey _ := .ok ()
  secretKey _ := .ok ()
  detachedSignature _ := .ok ()
  detachedSign _ _ := List.replicate sphincsSigLen 0
  verifyDetachedSignature _ msg _ := msg == message

def demoCalls : List GenerateCall := [⟨.stored, 0, demoInput 3⟩, ⟨.stored, 0, demoInput 4⟩]

def demoVerifierKey : ProofVerifier := ⟨⟨List.replicate 64 0, rfl⟩⟩

/-- The first proof that the generator makes. -/
def demoZKProof (hashes : Hashes) : ZKProof :=
  ⟨(demoInput 3).computeProofId hashes.sha256, .executionCompleted,
    (⟨List.replicate sphincsSigLen 0, hashes.sha3 (demoInput 3).transcript⟩ : DigitalSignature).asBytes,
    (demoInput 3).publicInputs, (demoInput 3).intentId, 0⟩

end Demo

end Bleep.Connect
