import Bleep.P2p.MessageProtocol
import Bleep.Library.Results
import Bleep.Vm.Transfer

namespace Bleep.Vm

open HashTable Results Vector

inductive TargetVm
  | wasm
  | evm
  | solanaSbf
  | move
  | zk
  | auto

inductive ChainId
  | bleep
  | ethereum
  | ethereumL2 (name : String)
  | bitcoin
  | solana
  | cosmosHub
  | polkadot
  | near
  | sui
  | aptos
  | custom (name : String)

def ChainId.display : ChainId → String
  | bleep => "bleep"
  | ethereum => "ethereum"
  | ethereumL2 name => "evm-l2:" ++ name
  | bitcoin => "bitcoin"
  | solana => "solana"
  | cosmosHub => "cosmos"
  | polkadot => "polkadot"
  | near => "near"
  | sui => "sui"
  | aptos => "aptos"
  | custom name => "custom:" ++ name

structure ContractCallIntent where
  targetVm : TargetVm
  contract : Hash32
  calldata : Bytes
  gasLimit : U64
  value : U128
  hints : HashMap String String

structure DeployIntent where
  targetVm : TargetVm
  bytecode : Bytes
  initArgs : Bytes
  gasLimit : U64
  salt : Option Hash32
  abi : Option String

structure CrossChainIntent where
  destinationChain : ChainId
  contract : Bytes
  calldata : Bytes
  sourceGasLimit : U64
  destGasLimit : U64
  bridgeValue : U128
  relayFee : U128
  requireZkProof : Bool

structure ZkVerifyIntent where
  proofBytes : Bytes
  publicInputs : List Bytes
  vkId : String
  postVerifyWasm : Option Bytes

inductive IntentKind
  | transfer (transfer : TransferIntent) (memo : Option String)
  | contractCall (call : ContractCallIntent)
  | deploy (deploy : DeployIntent)
  | crossChain (call : CrossChainIntent)
  | zkVerify (proof : ZkVerifyIntent)

structure Intent where
  id : Vector UInt8 16
  kind : IntentKind
  signer : Hash32
  signerPubkey : Bytes
  signature : Bytes
  nonce : U64
  submittedAt : U64
  sourceChain : ChainId
  priority : UInt8

/-- With the JSON of a kind, in which the hints stand in the order they are
visited. -/
structure Primitives extends P2p.Primitives where
  secretKey : Bytes → Except String Unit
  signedMessage : Bytes → Except String Unit
  json : IterOrder → IntentKind → Except String Bytes

namespace Intent

variable (prim : Primitives) (σ : IterOrder) (self : Intent)

/-- The text of the source chain and the JSON are not told apart. -/
def statement : Bytes := utf8 self.sourceChain.display ++ (prim.json σ self.kind).toOption.getD []

def canonicalBytes : Bytes :=
  self.id.toList ++ (le64 self.nonce ++ (le64 self.submittedAt ++ (self.signer.toList ++ (self.signerPubkey ++
    self.statement prim σ))))

def sign (publicKey secretKey : Bytes) : Except String Intent := do
  (prim.publicKey publicKey).mapError ("invalid SPHINCS+ public key: " ++ ·)
  (prim.secretKey secretKey).mapError ("invalid SPHINCS+ secret key: " ++ ·)
  let named := { self with signer := prim.sha256 publicKey, signerPubkey := publicKey }
  let message := named.canonicalBytes prim σ
  let signed := prim.sign message secretKey
  ensure (message.length ≤ signed.length) "invalid SPHINCS+ signed message"
  let signature := signed.take (signed.length - message.length)
  (prim.signedMessage (signature ++ message)).mapError ("invalid SPHINCS+ signed message: " ++ ·)
  ensure ((prim.openSigned (signature ++ message) publicKey).isSome) "SPHINCS+ public and secret keys do not match"
  return { named with signature }

def verifySignature : Bool :=
  let signedBytes := self.signature ++ self.canonicalBytes prim σ
  (prim.publicKey self.signerPubkey).isOk && prim.sha256 self.signerPubkey == self.signer &&
    (prim.signedMessage signedBytes).isOk && (prim.openSigned signedBytes self.signerPubkey).isSome

variable {prim σ self}

theorem verifySignature_of_sign {σ' publicKey secretKey signed}
    (done : self.sign prim σ publicKey secretKey = .ok signed)
    (same : signed.statement prim σ' = signed.statement prim σ) : signed.verifySignature prim σ' = true := by
  have bytes : signed.canonicalBytes prim σ' = signed.canonicalBytes prim σ := by
    rw [canonicalBytes, canonicalBytes, same]
  obtain ⟨_, key, done⟩ := ok_of_bind done
  obtain ⟨_, -, done⟩ := ok_of_bind done
  obtain ⟨_, -, done⟩ := ok_of_bind done
  obtain ⟨_, parsed, done⟩ := ok_of_bind done
  obtain ⟨_, opened, done⟩ := ok_of_bind done
  have key := congrArg Except.isOk (ok_of_mapError key)
  have parsed := congrArg Except.isOk (ok_of_mapError parsed)
  cases done
  simp only [verifySignature, bytes, Bool.and_eq_true, beq_iff_eq]
  exact ⟨⟨⟨key, trivial⟩, parsed⟩, ok_of_ensure opened⟩

/-- The fields in front of the statement have their length. -/
theorem eq_of_canonicalBytes {first second : Intent} {σ'} (signer : first.signer = second.signer)
    (key : first.signerPubkey = second.signerPubkey)
    (same : first.canonicalBytes prim σ = second.canonicalBytes prim σ') :
    first.id = second.id ∧ first.nonce = second.nonce ∧ first.submittedAt = second.submittedAt ∧
      first.statement prim σ = second.statement prim σ' := by
  obtain ⟨id, same⟩ := List.append_inj same (by rw [length_toList, length_toList])
  obtain ⟨nonce, same⟩ := le64_delimited trivial trivial same
  obtain ⟨submittedAt, same⟩ := le64_delimited trivial trivial same
  rw [signer, key] at same
  exact ⟨toList_inj.mp id, nonce, submittedAt, List.append_cancel_left (List.append_cancel_left same)⟩

/-- A call with two hints, and the order that visits the second first. -/
def hinted (priority : UInt8) : Intent where
  id := replicate 16 0
  kind := .contractCall ⟨.auto, replicate 32 0, [], 300000, 0, AList.insert "b" "2" (AList.insert "a" "1" ∅)⟩
  signer := replicate 32 0
  signerPubkey := []
  signature := [7]
  nonce := 0
  submittedAt := 0
  sourceChain := .bleep
  priority := priority

def backwards : IterOrder := ⟨fun _ entries => entries.reverse, fun _ entries => entries.reverse_perm⟩

/-- Only the given message opens. Of a call the hints are written. -/
def hintPrimitives (message : Bytes) : Primitives where
  toPrimitives := { P2p.demoPrimitives message with sign := fun message _ => 7 :: message }
  secretKey _ := .ok ()
  signedMessage _ := .ok ()
  json
    | σ, .contractCall call => .ok ((σ.iter 0 call.hints).flatMap fun hint => utf8 hint.1 ++ utf8 hint.2)
    | _, _ => .ok []

end Intent

end Bleep.Vm
