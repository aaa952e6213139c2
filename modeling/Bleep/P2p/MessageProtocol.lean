import Bleep.Crypto
import Bleep.Library.HashTable

namespace Bleep.P2p
open HashTable Words BitVec
open List (kerase_sublist length_cons foldl_append foldl_cons map_append
  mem_map_of_mem pairwise_append foldlRecOn append_inj append_inj' mem_singleton)

inductive P2PError
  | crypto (message : String)
  | peerNotFound (peerId : String)
  | authenticationFailed
  | decryptionFailed
  deriving DecidableEq

abbrev NodeId := Hash32

/-- The external implementations of SHA-256, SPHINCS+ and AES-GCM. What they
draw at random is an argument. -/
structure Primitives where
  sha256 : Bytes → Hash32
  publicKey : Bytes → Except String Unit
  signatureLen : Nat
  sign : (message secretKey : Bytes) → Bytes
  openSigned : (signed publicKey : Bytes) → Option Bytes
  encrypt : (key : Hash32) → (random plaintext : Bytes) → Except String Bytes
  decrypt : Hash32 → Bytes → Except P2PError Bytes

structure SphincsKeypair where
  publicKey : Bytes
  secretKey : Bytes

inductive MessageType
  | transaction
  | block
  | sigAvailability
  | peerDiscovery
  | governance
  | gossip
  | onionRelay
  | ping
  | pong
  | zkHandshake
  | custom (name : String)
  deriving DecidableEq

structure SecureMessage where
  version : UInt8
  senderId : NodeId
  messageType : MessageType
  payload : Bytes
  signature : Bytes
  hopCount : UInt8
  nonce : Vector UInt8 16
  timestamp : U64

def messageTypeTag : MessageType → UInt8
  | .transaction => 0
  | .block => 1
  | .sigAvailability => 2
  | .peerDiscovery => 3
  | .governance => 4
  | .gossip => 5
  | .onionRelay => 6
  | .ping => 7
  | .pong => 8
  | .zkHandshake => 9
  | .custom _ => 255

def SecureMessage.signingBytes (msg : SecureMessage) : Bytes :=
  msg.version :: msg.senderId.toList ++ messageTypeTag msg.messageType :: msg.payload ++ msg.nonce.toList ++
    le64 msg.timestamp

def replayWindowSecs : Nat := 30
def maxNonceCacheEntries : Nat := 100000

abbrev NonceCache := HashMap String U64

def NonceCache.evictOld (seen : NonceCache) (now : U64) : NonceCache :=
  retain (fun key => (seen.lookup key).any (· > now)) seen

/-- `true` for a replay or a full cache. -/
def NonceCache.checkAndInsert (seen : NonceCache) (nonce : Vector UInt8 16) (now : U64) : Bool × NonceCache :=
  let key := Hex.encode nonce.toList
  let seen := seen.evictOld now
  if (seen.lookup key).isSome then (true, seen)
  else if seen.entries.length ≥ maxNonceCacheEntries then (true, seen)
  else (false, seen.insert key (saturatingAdd now (BitVec.ofNat 64 (replayWindowSecs * 2))))

structure MessageProtocol where
  localIdentity : SphincsKeypair
  sessions : HashMap NodeId Hash32
  nonceCache : NonceCache

open MessageProtocol

section
variable (prim : Primitives)

/-- The signature is put in front of the message, and `open` splits the two
again by the length of a signature. -/
def sphincsVerify (message signature publicKey : Bytes) : Except P2PError Unit :=
  match prim.publicKey publicKey with
  | .error e => .error (.crypto ("SPHINCS+ pk parse: " ++ e))
  | .ok () =>
    match prim.openSigned (signature ++ message) publicKey with
    | some _ => .ok ()
    | none => .error .authenticationFailed

namespace MessageProtocol

variable (self : MessageProtocol)

def localId : NodeId := prim.sha256 self.localIdentity.publicKey

def sealMessage (peerId : NodeId) (messageType : MessageType) (plaintext : Bytes)
    (nonce : Vector UInt8 16) (random : Bytes) (now : U64) : Except P2PError SecureMessage :=
  match self.sessions.lookup peerId with
  | none => .error (.peerNotFound (Hex.encode peerId.toList))
  | some key =>
    match prim.encrypt key random plaintext with
    | .error e => .error (.crypto ("AES-GCM encrypt: " ++ e))
    | .ok payload =>
      let msg : SecureMessage := ⟨1, self.localId prim, messageType, payload, [], 0, nonce, now⟩
      .ok { msg with signature := prim.sign msg.signingBytes self.localIdentity.secretKey }

def openMessage (now : U64) (msg : SecureMessage) (senderPubkey : Bytes) :
    Except P2PError Bytes × MessageProtocol :=
  if (now.toNat - msg.timestamp.toNat) + (msg.timestamp.toNat - now.toNat) > replayWindowSecs then
    (.error .authenticationFailed, self)
  else
    match sphincsVerify prim msg.signingBytes msg.signature senderPubkey with
    | .error e => (.error e, self)
    | .ok () =>
      let (refused, cache) := self.nonceCache.checkAndInsert msg.nonce now
      let self := { self with nonceCache := cache }
      if refused then (.error .authenticationFailed, self)
      else
        match self.sessions.lookup msg.senderId with
        | none => (.error (.peerNotFound (Hex.encode msg.senderId.toList)), self)
        | some key => (prim.decrypt key msg.payload, self)

end MessageProtocol

end

variable {prim : Primitives} {seen : NonceCache} {now bound : U64} {nonce : Vector UInt8 16} {key : String}

section Replay

theorem lookup_evictOld (key : String) : (seen.evictOld now).lookup key = (seen.lookup key).filter (· > now) := by
  rw [NonceCache.evictOld, lookup_retain]
  cases seen.lookup key <;> simp [Option.filter]

/-- A key with an expiry after `bound` outlives every call up to then. -/
theorem checkAndInsert_keeps (early : now ≤ bound) {expiry} (found : seen.lookup key = some expiry)
    (later : bound < expiry) : (seen.checkAndInsert nonce now).2.lookup key = some expiry := by
  have kept : (seen.evictOld now).lookup key = some expiry := by
    rw [lookup_evictOld, found, Option.filter_some, if_pos]
    rw [le_def] at early
    rw [lt_def] at later
    exact decide_eq_true (lt_def.mpr (by omega))
  unfold NonceCache.checkAndInsert
  dsimp only
  split
  · exact kept
  rename_i absent
  split
  · exact kept
  have other : key ≠ Hex.encode nonce.toList := by
    rintro rfl
    exact absent (by rw [kept]; rfl)
  rw [AList.lookup_insert_ne other, kept]

theorem checkAndInsert_accepts (accepted : (seen.checkAndInsert nonce now).1 = false) :
    (seen.evictOld now).lookup (Hex.encode nonce.toList) = none ∧
      (seen.checkAndInsert nonce now).2.lookup (Hex.encode nonce.toList) =
        some (saturatingAdd now (BitVec.ofNat 64 (replayWindowSecs * 2))) := by
  unfold NonceCache.checkAndInsert at accepted ⊢
  dsimp only at accepted ⊢
  split at accepted
  · cases accepted
  rename_i absent
  split at accepted
  · cases accepted
  rename_i room
  rw [if_neg absent, if_neg room, AList.lookup_insert]
  exact ⟨Option.not_isSome_iff_eq_none.mp absent, rfl⟩

theorem checkAndInsert_bounded (small : seen.entries.length ≤ maxNonceCacheEntries) :
    (seen.checkAndInsert nonce now).2.entries.length ≤ maxNonceCacheEntries := by
  have evicted : (seen.evictOld now).entries.length ≤ maxNonceCacheEntries := (length_retain_le _ _).trans small
  unfold NonceCache.checkAndInsert
  dsimp only
  split
  · exact evicted
  split
  · exact evicted
  rename_i room
  have erased := (kerase_sublist (Hex.encode nonce.toList) (seen.evictOld now).entries).length_le
  rw [AList.entries_insert, length_cons]
  omega

/-- One call of `open_message`, with the sessions it meets. -/
structure Receipt where
  sessions : HashMap NodeId Hash32
  now : U64
  message : SecureMessage
  senderPubkey : Bytes

namespace MessageProtocol

def receive (prim : Primitives) (self : MessageProtocol) (call : Receipt) : Except P2PError Bytes × MessageProtocol :=
  { self with sessions := call.sessions }.openMessage prim call.now call.message call.senderPubkey

/-- The node after some calls. -/
def after (prim : Primitives) (self : MessageProtocol) (calls : List Receipt) : MessageProtocol :=
  calls.foldl (fun node call => (node.receive prim call).2) self

variable {self : MessageProtocol} {call : Receipt}

/-- Only a fresh message with a valid signature gets to the cache, and only
one that is new there is accepted. -/
theorem receive_cases :
    ((∀ plaintext, (self.receive prim call).1 ≠ .ok plaintext) ∧
        (self.receive prim call).2.nonceCache = self.nonceCache) ∨
      sphincsVerify prim call.message.signingBytes call.message.signature call.senderPubkey = .ok () ∧
        (call.now.toNat - call.message.timestamp.toNat) + (call.message.timestamp.toNat - call.now.toNat) ≤ 30 ∧
        (self.receive prim call).2.nonceCache = (self.nonceCache.checkAndInsert call.message.nonce call.now).2 ∧
        ∀ plaintext, (self.receive prim call).1 = .ok plaintext →
          (self.nonceCache.checkAndInsert call.message.nonce call.now).1 = false := by
  unfold receive openMessage
  split
  · exact .inl ⟨(fun _ done => by cases done), rfl⟩
  rename_i fresh
  split
  · exact .inl ⟨(fun _ done => by cases done), rfl⟩
  rename_i verified
  refine .inr ⟨verified, Nat.not_lt.mp fresh, ?_⟩
  dsimp only
  split
  · exact ⟨rfl, fun _ done => by cases done⟩
  · rename_i unseen
    refine ⟨?_, fun _ _ => Bool.eq_false_of_not_eq_true unseen⟩
    split <;> rfl

/-- Anti-replay, for every run of calls: a message is accepted again only at
the last second of its window, when the first acceptance was at the first
second of it, or when the clock has run out. A stale message or one without a
valid signature leaves the cache alone, and the cache stays bounded. -/
theorem accepted_again_only_at_boundary (new : self.nonceCache = ∅) (calls : List Receipt) :
    (∀ (before middle : List Receipt) (first again : Receipt) (plaintext plaintext' : Bytes),
      calls = before ++ first :: middle ++ [again] →
      (calls.map Receipt.now).Pairwise (· ≤ ·) → again.message = first.message →
      ((self.after prim before).receive prim first).1 = .ok plaintext →
      ((self.after prim (before ++ first :: middle)).receive prim again).1 = .ok plaintext' →
      again.now.toNat = first.now.toNat + 60 ∧ first.message.timestamp.toNat = first.now.toNat + 30 ∨
        again.now = BitVec.allOnes 64) ∧
    (∀ call, (call.now.toNat - call.message.timestamp.toNat) + (call.message.timestamp.toNat - call.now.toNat) > 30 ∨
        sphincsVerify prim call.message.signingBytes call.message.signature call.senderPubkey ≠ .ok () →
      ((self.after prim calls).receive prim call).2.nonceCache = (self.after prim calls).nonceCache) ∧
    (self.after prim calls).nonceCache.entries.length ≤ maxNonceCacheEntries := by
  refine ⟨?_, ?_, ?_⟩
  · rintro before middle first again plaintext plaintext' rfl clock same accepted acceptedAgain
    obtain ⟨-, fresh, cache, unseen⟩ := receive_cases.resolve_left fun refused => refused.1 _ accepted
    obtain ⟨-, freshAgain, -, unseenAgain⟩ := receive_cases.resolve_left fun refused => refused.1 _ acceptedAgain
    obtain ⟨-, entered⟩ := checkAndInsert_accepts (unseen _ accepted)
    obtain ⟨gone, -⟩ := checkAndInsert_accepts (unseenAgain _ acceptedAgain)
    have expired : (saturatingAdd first.now (BitVec.ofNat 64 (replayWindowSecs * 2))) ≤ again.now := by
      by_contra ended
      have live := BitVec.not_le.mp ended
      have split : self.after prim (before ++ first :: middle) =
          (((self.after prim before).receive prim first).2).after prim middle := by
        rw [after, after, after, foldl_append, foldl_cons]
      rw [← cache] at entered
      have early : ∀ call ∈ middle, call.now ≤ again.now := by
        intro call member
        rw [map_append, pairwise_append] at clock
        exact clock.2.2 _ (mem_map_of_mem (by simp [member])) _ (by simp)
      have kept := foldlRecOn (motive := fun node : MessageProtocol => node.nonceCache.lookup
        (Hex.encode first.message.nonce.toList) = some _) middle (fun node call => (node.receive prim call).2) entered
        (by
          intro node found call member
          rcases @receive_cases prim node call with ⟨-, idle⟩ | ⟨-, -, changed, -⟩
          · rw [idle, found]
          · rw [changed]
            exact checkAndInsert_keeps (early call member) found live)
      rw [split, after, same, lookup_evictOld, kept, Option.filter_some, if_pos (decide_eq_true live)] at gone
      cases gone
    rw [le_def, toNat_saturatingAdd] at expired
    rw [same] at freshAgain
    rw [← toNat_inj, toNat_allOnes]
    simp only [replayWindowSecs, BitVec.toNat_ofNat] at expired
    omega
  · intro call refused
    rcases @receive_cases prim (self.after prim calls) call with ⟨-, idle⟩ | ⟨verified, fresh, -⟩
    · exact idle
    · rcases refused with stale | invalid
      · omega
      · exact absurd verified invalid
  · refine foldlRecOn (motive := fun node : MessageProtocol => node.nonceCache.entries.length ≤
      maxNonceCacheEntries) calls _ (by rw [new]; exact Nat.zero_le _) fun node small call _ => ?_
    rcases @receive_cases prim node call with ⟨-, idle⟩ | ⟨-, -, changed, -⟩
    · rw [idle]
      exact small
    · rw [changed]
      exact checkAndInsert_bounded small

end MessageProtocol

end Replay

section Integrity

theorem messageTypeTag_eq {a b : MessageType} (same : messageTypeTag a = messageTypeTag b) :
    a = b ∨ ∃ name name', a = .custom name ∧ b = .custom name' := by
  cases a <;> cases b <;> simp_all [messageTypeTag]

/-- The signed bytes hold every field but the name of a custom type. -/
theorem signingBytes_eq {a b : SecureMessage} (same : a.signingBytes = b.signingBytes) :
    a.version = b.version ∧ a.senderId = b.senderId ∧ messageTypeTag a.messageType = messageTypeTag b.messageType ∧
      a.payload = b.payload ∧ a.nonce = b.nonce ∧ a.timestamp = b.timestamp := by
  obtain ⟨front, timestamp⟩ := append_inj' same (by simp)
  obtain ⟨front, nonce⟩ := append_inj' front (by simp)
  obtain ⟨head, rest⟩ := append_inj front (by simp)
  obtain ⟨version, sender⟩ := List.cons.inj head
  obtain ⟨tag, payload⟩ := List.cons.inj rest
  exact ⟨version, Vector.toList_inj.mp sender, tag, payload, Vector.toList_inj.mp nonce, le64_injective timestamp⟩

/-- One call of `seal_message`, with the sessions it meets. -/
structure Sealing where
  sessions : HashMap NodeId Hash32
  peerId : NodeId
  messageType : MessageType
  plaintext : Bytes
  nonce : Vector UInt8 16
  random : Bytes
  now : U64

def MessageProtocol.sealed (prim : Primitives) (self : MessageProtocol) (calls : List Sealing) : List SecureMessage :=
  calls.filterMap fun call => ({ self with sessions := call.sessions }.sealMessage prim call.peerId call.messageType
    call.plaintext call.nonce call.random call.now).toOption

/-- Under the key only the given messages open, each behind a signature. -/
def Primitives.Unforgeable (prim : Primitives) (publicKey : Bytes) (messages : Set Bytes) : Prop :=
  ∀ signed message, prim.openSigned signed publicKey = some message →
    message ∈ messages ∧ ∃ signature, signature.length = prim.signatureLen ∧ signed = signature ++ message

/-- What acceptance says about the sender: a message with a signature of the
right length was sealed as it is, up to the name of a custom type. Under
another name it would have been accepted all the same. -/
theorem accepted_was_sealed {sender receiver : MessageProtocol} {calls : List Sealing} {call : Receipt}
    {plaintext : Bytes} (own : call.senderPubkey = sender.localIdentity.publicKey)
    (unforgeable : prim.Unforgeable sender.localIdentity.publicKey
      { message | ∃ msg ∈ sender.sealed prim calls, message = msg.signingBytes })
    (accepted : (receiver.receive prim call).1 = .ok plaintext) :
    (call.message.signature.length = prim.signatureLen → ∃ msg ∈ sender.sealed prim calls,
      msg.version = call.message.version ∧ msg.senderId = call.message.senderId ∧
      msg.payload = call.message.payload ∧ msg.nonce = call.message.nonce ∧
      msg.timestamp = call.message.timestamp ∧ (msg.messageType = call.message.messageType ∨
        ∃ name name', msg.messageType = .custom name ∧ call.message.messageType = .custom name')) ∧
    ∀ name name', call.message.messageType = .custom name → (receiver.receive prim
      { call with message := { call.message with messageType := .custom name' } }).1 = .ok plaintext := by
  constructor
  · intro length
    obtain ⟨verified, -⟩ := receive_cases.resolve_left fun refused => refused.1 _ accepted
    rw [own, sphincsVerify] at verified
    split at verified
    · cases verified
    split at verified
    · rename_i message opened
      obtain ⟨⟨msg, member, rfl⟩, signature, size, signed⟩ := unforgeable _ _ opened
      obtain ⟨-, bytes⟩ := append_inj signed (length.trans size.symm)
      obtain ⟨version, sender, tag, payload, nonce, timestamp⟩ := signingBytes_eq bytes.symm
      exact ⟨msg, member, version, sender, payload, nonce, timestamp, messageTypeTag_eq tag⟩
    · cases verified
  · intro name name' custom
    have bytes : { call.message with messageType := .custom name' }.signingBytes = call.message.signingBytes := by
      rw [SecureMessage.signingBytes, SecureMessage.signingBytes, custom]
      rfl
    rw [← accepted, receive, receive, openMessage,
      openMessage]
    simp only [bytes]

end Integrity

section Demo

/-- A scheme with signatures of one byte under which one message opens. -/
def demoPrimitives (message : Bytes) : Primitives where
  sha256 _ := Vector.replicate 32 0
  publicKey _ := .ok ()
  signatureLen := 1
  sign _ _ := [7]
  openSigned signed _ := if signed = 7 :: message then some message else none
  encrypt _ _ plaintext := .ok plaintext
  decrypt _ ciphertext := .ok ciphertext

theorem demoPrimitives_unforgeable {message publicKey messages} (known : message ∈ messages) :
    (demoPrimitives message).Unforgeable publicKey messages := by
  intro signed opened found
  simp only [demoPrimitives] at found
  split at found
  · cases found
    exact ⟨known, [7], rfl, by assumption⟩
  · cases found

def demoNode : MessageProtocol := ⟨⟨[], []⟩, ∅, ∅⟩

def demoSessions : HashMap NodeId Hash32 := AList.insert (Vector.replicate 32 0) (Vector.replicate 32 0) ∅

variable (messageType : MessageType)

def demoMessage : SecureMessage :=
  ⟨1, Vector.replicate 32 0, messageType, [], [7], 0, Vector.replicate 16 0, 130⟩

def demoSealing : Sealing :=
  ⟨demoSessions, Vector.replicate 32 0, messageType, [], Vector.replicate 16 0, [], 130⟩

def demoReceipt (now : U64) : Receipt := ⟨demoSessions, now, demoMessage messageType, []⟩

/-- The scheme under which the message with the given type opens. -/
def demoScheme : Primitives := demoPrimitives (demoMessage messageType).signingBytes

theorem demoScheme_unforgeable : (demoScheme messageType).Unforgeable [] { message |
    ∃ msg ∈ demoNode.sealed (demoScheme messageType) [demoSealing messageType], message = msg.signingBytes } :=
  demoPrimitives_unforgeable ⟨demoMessage messageType, mem_singleton.mpr rfl, rfl⟩

theorem not_replayed_before_boundary :
    ¬∃ plaintext, ((demoNode.after (demoScheme .ping) [demoReceipt .ping 100]).receive (demoScheme .ping)
      (demoReceipt .ping 159)).1 = .ok plaintext := by
  rintro ⟨plaintext, again⟩
  have first : (demoNode.receive (demoScheme .ping) (demoReceipt .ping 100)).1 = .ok [] := by decide +kernel
  have boundary := (accepted_again_only_at_boundary rfl [demoReceipt .ping 100, demoReceipt .ping 159]).1
    [] [] _ _ [] plaintext rfl (by decide) rfl first again
  revert boundary
  decide

/-- The message that is accepted at 100 is accepted again at 160. -/
theorem replayed_at_boundary :
    (demoNode.receive (demoScheme .ping) (demoReceipt .ping 100)).1 = .ok [] ∧
      ((demoNode.after (demoScheme .ping) [demoReceipt .ping 100]).receive (demoScheme .ping)
        (demoReceipt .ping 160)).1 = .ok [] := by
  decide +kernel

theorem accepted_ping_was_sealed :
    ∃ msg ∈ demoNode.sealed (demoScheme .ping) [demoSealing .ping], msg.messageType = .ping := by
  have accepted : (demoNode.receive (demoScheme .ping) (demoReceipt .ping 100)).1 = .ok [] := by decide +kernel
  obtain ⟨msg, member, -, -, -, -, -, same | ⟨_, _, -, custom⟩⟩ :=
    (accepted_was_sealed rfl (demoScheme_unforgeable .ping) accepted).1 rfl
  · exact ⟨msg, member, same⟩
  · cases custom

/-- A relay has given the only message that was sealed another name. -/
theorem renamed_custom_accepted :
    demoNode.sealed (demoScheme (.custom "a")) [demoSealing (.custom "a")] = [demoMessage (.custom "a")] ∧
      (demoScheme (.custom "a")).Unforgeable [] { message | ∃ msg ∈ demoNode.sealed (demoScheme (.custom "a"))
        [demoSealing (.custom "a")], message = msg.signingBytes } ∧
      (demoNode.receive (demoScheme (.custom "a")) (demoReceipt (.custom "b") 100)).1 = .ok [] :=
  ⟨rfl, demoScheme_unforgeable _, by decide +kernel⟩

end Demo
end Bleep.P2p
