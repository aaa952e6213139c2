import Bleep.Bytes
import Bleep.Library.Codec
import Bleep.Library.Hex

namespace Bleep

open Words String

/-- The digests the node uses. Their implementations are external. -/
structure Hashes where
  sha3 : Bytes → Hash32
  sha256 : Bytes → Hash32
  blake3 : Bytes → Hash32

/-- The external SPHINCS+ implementation. The three `from_bytes` functions
report their failure as the text that the source prints. -/
structure Sphincs where
  publicKey : Bytes → Except String Unit
  secretKey : Bytes → Except String Unit
  detachedSignature : Bytes → Except String Unit
  detachedSign : (message secretKey : Bytes) → Bytes
  verifyDetachedSignature : (signature message publicKey : Bytes) → Bool

/-- `u64::to_le_bytes`. -/
def le64 (n : U64) : Bytes := Words.leBytes 8 n.toNat

def le32 (n : U32) : Bytes := Words.leBytes 4 n.toNat

/-- A string with its length in front, as the payload builders append it. -/
def lengthPrefixed (s : String) : Bytes := Words.leBytes 8 (utf8 s).length ++ utf8 s

theorem le64_injective : Function.Injective le64 := by
  intro a b same
  have values : fromLeBytes (le64 a) = fromLeBytes (le64 b) := by rw [same]
  rw [le64, le64, fromLeBytes_leBytes, fromLeBytes_leBytes] at values
  apply BitVec.eq_of_toNat_eq
  omega

theorem le32_injective : Function.Injective le32 := by
  intro a b same
  have values : fromLeBytes (le32 a) = fromLeBytes (le32 b) := by rw [same]
  rw [le32, le32, fromLeBytes_leBytes, fromLeBytes_leBytes] at values
  apply BitVec.eq_of_toNat_eq
  omega

theorem lengthPrefixed_injective : Function.Injective lengthPrefixed := by
  intro s t same
  exact utf8_injective (List.append_inj_right same (by simp))

@[simp] theorem le64_length (n : U64) : (le64 n).length = 8 := leBytes_length 8 n.toNat

theorem le64_delimited : Codec.Delimited Set.univ le64 := .of_length le64_length le64_injective

theorem le32_delimited : Codec.Delimited Set.univ le32 :=
  .of_length (fun n => leBytes_length 4 n.toNat) le32_injective

theorem hash32_delimited : Codec.Delimited Set.univ (Vector.toList : Hash32 → Bytes) :=
  .of_length (fun _ => Vector.length_toList) fun _ _ => Vector.toList_inj.mp

theorem lengthPrefixed_append_inj {s t rest rest'} (short : (utf8 s).length < 2 ^ 64)
    (short' : (utf8 t).length < 2 ^ 64) (same : lengthPrefixed s ++ rest = lengthPrefixed t ++ rest') :
    s = t ∧ rest = rest' := by
  obtain ⟨texts, others⟩ := Codec.lengthPrefixed_delimited 8 short short' same
  exact ⟨utf8_injective texts, others⟩

theorem utf8_ofList (chars : List Char) : utf8 (ofList chars) = chars.flatMap utf8EncodeChar := by
  unfold utf8
  simp [List.utf8Encode]

theorem utf8_encode_length (bytes : Bytes) : (utf8 (Hex.encode bytes)).length = 2 * bytes.length := by
  have single : ∀ c ∈ Hex.chars bytes, (utf8EncodeChar c).length = 1 := by
    intro c member
    obtain ⟨n, small, rfl⟩ := Hex.chars_lower member
    interval_cases n <;> rfl
  rw [Hex.encode, utf8_ofList, List.length_flatMap, List.map_congr_left single]
  simp

def txDomain : Bytes := utf8 "BLEEP:TRANSACTION:V1\x00"
def accountDomain : Bytes := utf8 "BLEEP:ACCOUNT:ADDRESS:V1\x00"
def defaultChainId : String := "BLEEP-PreTestnet-001"

def sphincsPkLen : Nat := 64
def sphincsSigLen : Nat := 49856
def validatorSigLen : Nat := sphincsPkLen + sphincsSigLen

/-- A digest of the last bytes, for evaluation only. -/
def lastBytes (bytes : Bytes) : Hash32 := Vector.ofFn fun i => bytes.reverse.getD i 0

def lastHashes : Hashes := ⟨lastBytes, lastBytes, lastBytes⟩

/-- A scheme with the real sizes that accepts everything, for evaluation only. -/
def sizedSphincs : Sphincs where
  publicKey bytes := if bytes.length = sphincsPkLen then .ok () else .error "BadLength"
  secretKey bytes := if bytes.length = 2 * sphincsPkLen then .ok () else .error "BadLength"
  detachedSignature bytes := if bytes.length ≤ sphincsSigLen then .ok () else .error "BadLength"
  detachedSign _ _ := List.replicate sphincsSigLen 0
  verifyDetachedSignature _ _ _ := true

variable {bytes : Bytes}

theorem sizedSphincs_publicKey (size : bytes.length = sphincsPkLen) :
    sizedSphincs.publicKey bytes = .ok () := if_pos size

theorem sizedSphincs_secretKey (size : bytes.length = 2 * sphincsPkLen) :
    sizedSphincs.secretKey bytes = .ok () := if_pos size

theorem sizedSphincs_detachedSignature (short : bytes.length ≤ sphincsSigLen) :
    sizedSphincs.detachedSignature bytes = .ok () := if_pos short

structure Transaction where
  chainId : String
  sender : String
  receiver : String
  amount : U64
  timestamp : U64
  nonce : U64
  signature : Bytes
  deriving DecidableEq

def txPayload (sha3 : Bytes → Hash32) (tx : Transaction) : Hash32 :=
  sha3 (txDomain ++ lengthPrefixed tx.chainId ++ lengthPrefixed tx.sender ++ lengthPrefixed tx.receiver
    ++ le64 tx.amount ++ le64 tx.timestamp ++ le64 tx.nonce)

def deriveAccountAddress (sha256 : Bytes → Hash32) (pk : Bytes) : String :=
  let first := sha256 (accountDomain ++ Words.leBytes 8 pk.length ++ pk)
  let second := sha256 first.toList
  "BLEEP1" ++ Hex.encode (second.toList.take 20)

def Sphincs.verifyTxSignature (sphincs : Sphincs) (payload sig pk : Bytes) : Bool :=
  (sphincs.publicKey pk).isOk && (sphincs.detachedSignature sig).isOk && sphincs.verifyDetachedSignature sig payload pk

/-- The pool's check that a transaction is signed by the key its sender is
derived from. -/
def Transaction.verifyAccountAuthorization (hashes : Hashes) (sphincs : Sphincs) (tx : Transaction) : Bool :=
  if tx.chainId.isEmpty || tx.signature.length ≤ sphincsPkLen then false
  else
    let pk := tx.signature.take sphincsPkLen
    let sig := tx.signature.drop sphincsPkLen
    if deriveAccountAddress hashes.sha256 pk ≠ tx.sender then false
    else sphincs.verifyTxSignature (txPayload hashes.sha3 tx).toList sig pk

theorem mem_deriveAccountAddress (sha256 : Bytes → Hash32) (pk : Bytes) :
    'B' ∈ (deriveAccountAddress sha256 pk).toList := by
  rw [deriveAccountAddress, toList_append]
  exact List.mem_append_left _ (by decide)

theorem Transaction.authorized_sender {hashes : Hashes} {sphincs} {tx : Transaction}
    (authorized : tx.verifyAccountAuthorization hashes sphincs = true) :
    ∃ pk, deriveAccountAddress hashes.sha256 pk = tx.sender := by
  unfold Transaction.verifyAccountAuthorization at authorized
  split at authorized
  · cases authorized
  dsimp only at authorized
  split at authorized
  · cases authorized
  rename_i derived
  exact ⟨_, not_not.mp derived⟩

end Bleep
