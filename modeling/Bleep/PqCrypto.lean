import Bleep.Crypto
import Bleep.Library.Results

namespace Bleep

open Results

/-- The failures of the signature scheme. -/
inductive CryptoError
  | signatureVerificationFailed (msg : String)
  | invalidKeyFormat (msg : String)
  | invalidSignatureFormat (msg : String)

def CryptoError.display : CryptoError → String
  | signatureVerificationFailed msg => s!"Signature verification failed: {msg}"
  | invalidKeyFormat msg => s!"Invalid key format: {msg}"
  | invalidSignatureFormat msg => s!"Invalid signature format: {msg}"

/-- A detached signature with the SHA3-256 digest of the message it is for. -/
structure DigitalSignature where
  sigBytes : Bytes
  messageHash : Hash32

def DigitalSignature.asBytes (signature : DigitalSignature) : Bytes :=
  signature.messageHash.toList ++ signature.sigBytes

def DigitalSignature.fromBytes (bytes : Bytes) : Except CryptoError DigitalSignature :=
  if size : bytes.length = 32 + sphincsSigLen then
    .ok {
      sigBytes := bytes.drop 32
      messageHash := ⟨(bytes.take 32).toArray, by simp; omega⟩ }
  else .error (.invalidSignatureFormat s!"DigitalSignature must be {32 + sphincsSigLen} bytes, got {bytes.length}")

/-- `from_bytes` looks at nothing but the length. -/
structure PublicKey where
  bytes : Bytes
  size : bytes.length = sphincsPkLen

def PublicKey.fromBytes (bytes : Bytes) : Except CryptoError PublicKey :=
  if size : bytes.length = sphincsPkLen then .ok ⟨bytes, size⟩
  else .error (.invalidKeyFormat s!"SPHINCS+ public key must be {sphincsPkLen} bytes, got {bytes.length}")

namespace SignatureScheme
variable (sha3 : Bytes → Hash32) (sphincs : Sphincs)

def sign (message secretKey : Bytes) : Except CryptoError DigitalSignature := do
  (sphincs.secretKey secretKey).mapError fun error => .invalidKeyFormat s!"SPHINCS+ SK parse: {error}"
  return { sigBytes := sphincs.detachedSign message secretKey, messageHash := sha3 message }

def verify (message : Bytes) (signature : DigitalSignature) (publicKey : PublicKey) : Except CryptoError Unit :=
  if sha3 message ≠ signature.messageHash then
    .error (.signatureVerificationFailed "Message hash does not match signature (pre-check)")
  else do
    (sphincs.publicKey publicKey.bytes).mapError fun error => .invalidKeyFormat s!"SPHINCS+ PK parse: {error}"
    (sphincs.detachedSignature signature.sigBytes).mapError
      fun error => .invalidSignatureFormat s!"SPHINCS+ sig parse: {error}"
    if sphincs.verifyDetachedSignature signature.sigBytes message publicKey.bytes then return ()
    else .error (.signatureVerificationFailed "SPHINCS+-SHAKE-256f-simple verification failed")

end SignatureScheme

variable {bytes : Bytes}

theorem PublicKey.bytes_of_fromBytes {key} (parsed : PublicKey.fromBytes bytes = .ok key) :
    key.bytes = bytes := by
  unfold fromBytes at parsed
  split at parsed <;> cases parsed
  rfl

theorem PublicKey.fromBytes_of_length (size : bytes.length = sphincsPkLen) :
    PublicKey.fromBytes bytes = .ok ⟨bytes, size⟩ := dif_pos size

variable {signature : DigitalSignature} {message : Bytes} {publicKey : PublicKey} {sha3 : Bytes → Hash32}
  {sphincs : Sphincs}

theorem DigitalSignature.sigBytes_of_fromBytes (read : fromBytes bytes = .ok signature) :
    signature.sigBytes = bytes.drop 32 := by
  unfold fromBytes at read
  split at read <;> cases read
  rfl

theorem DigitalSignature.fromBytes_asBytes {signature}
    (size : signature.sigBytes.length = sphincsSigLen) : fromBytes signature.asBytes = .ok signature := by
  have length : signature.asBytes.length = 32 + sphincsSigLen := by
    rw [asBytes, List.length_append, Vector.length_toList, size]
  have hash : signature.asBytes.take 32 = signature.messageHash.toList := List.take_left' (by simp)
  have rest : signature.asBytes.drop 32 = signature.sigBytes := List.drop_left' (by simp)
  rw [fromBytes, dif_pos length]
  simp only [hash, rest]
  rfl

theorem SignatureScheme.verifies (verified : verify sha3 sphincs message signature publicKey = .ok ()) :
    sphincs.verifyDetachedSignature signature.sigBytes message publicKey.bytes = true := by
  unfold verify at verified
  split at verified
  · cases verified
  obtain ⟨-, -, verified⟩ := ok_of_bind verified
  obtain ⟨-, -, verified⟩ := ok_of_bind verified
  split at verified
  · assumption
  · cases verified

theorem SignatureScheme.verify_of_parses (hashed : sha3 message = signature.messageHash)
    (accepted : sphincs.publicKey publicKey.bytes = .ok ())
    (parses : sphincs.detachedSignature signature.sigBytes = .ok ())
    (verifies : sphincs.verifyDetachedSignature signature.sigBytes message publicKey.bytes = true) :
    verify sha3 sphincs message signature publicKey = .ok () := by
  rw [verify, if_neg (not_not.mpr hashed), accepted, parses]
  exact if_pos verifies

end Bleep
