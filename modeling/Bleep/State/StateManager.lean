import Bleep.Library.OrderedStore
import Bleep.Trie.SparseMerkleTrie

namespace Bleep
open HashTable Words

inductive StateError
  | accountNotFound (address : String)
  | storage (message : String)
  | serialisation (message : String)
  | snapshot (message : String)
  deriving DecidableEq

structure AccountState where
  balance : U128 := 0
  nonce : U64 := 0
  codeHash : Option Hash32 := none
  deriving DecidableEq

structure CanonicalBlockRecord where
  index : U64
  blockHash : String
  previousHash : String
  chainId : String
  body : Bytes
  deriving DecidableEq

structure CanonicalTransfer where
  sender : String
  receiver : String
  amount : U64
  nonce : U64
  deriving DecidableEq

structure CacheEntry where
  state : AccountState
  dirty : Bool
  deriving DecidableEq

structure StateCheckpoint where
  cache : HashMap String CacheEntry
  blockHeight : U64
  trie : SparseMerkleTrie

/-- The database is an ordered map from keys to values whose reads succeed
and whose batches are written as a whole or not at all. -/
structure StateManager where
  db : HashMap Bytes Bytes
  cache : HashMap String CacheEntry
  blockHeight : U64
  trie : SparseMerkleTrie

/-- `serde_json` on the stored records. Writing such plain records does not
fail. -/
structure Codec where
  encodeAccount : AccountState → Bytes
  decodeAccount : Bytes → Option AccountState
  encodeRecord : CanonicalBlockRecord → Bytes
  decodeAccount_encodeAccount : ∀ account, decodeAccount (encodeAccount account) = some account

/-- What one call meets outside the program: the iteration orders of the hash
maps and the outcome of the batch write. -/
structure Outside where
  σ : IterOrder
  written : Except String Unit

/-- The block and its coordinates, as both persisting calls take them. The
block itself is only serialised, which may fail. -/
structure BlockArgs where
  body : Except String Bytes
  index : U64
  blockHash : String
  previousHash : String
  chainId : String
  genesisHash : String

def prefixAccount : Bytes := utf8 "acct:"
def prefixBlock : Bytes := utf8 "chain:block:"
def keyHeight : Bytes := utf8 "sys:block_height"
def keyChainId : Bytes := utf8 "chain:id"
def keyTipHash : Bytes := utf8 "chain:tip_hash"
def transactionReplayWindowSecs : Nat := 30

def accountKey (address : String) : Bytes := prefixAccount ++ utf8 address

/-- The height as twenty decimal digits. -/
def blockKey (index : U64) : Bytes :=
  let digits := toString index.toNat
  prefixBlock ++ utf8 ("".pushn '0' (20 - digits.length) ++ digits)

/-- 200,000,000 BLEEP with eight decimals. -/
def maxSupply : U128 := 200000000 * 100000000

-- The loops over the cache; the trie uses the numbers below.
def rootSyncLoop : Nat := 514
def commitSyncLoop : Nat := 515
def flushLoop : Nat := 516
def supplyLoop : Nat := 517
def sumLoop : Nat := 518
def proveSyncLoop : Nat := 519

namespace StateManager

/-- A manager over an empty database. -/
def empty : StateManager := ⟨∅, ∅, 0, .new⟩

section
variable (codec : Codec)

variable (state : StateManager)

variable (address : String)

def getAccount : AccountState :=
  match state.cache.lookup address with
  | some entry => entry.state
  | none =>
    match state.db.lookup (accountKey address) with
    | some value => (codec.decodeAccount value).getD {}
    | none => {}

def getBalance : U128 := (state.getAccount codec address).balance

def getNonce : U64 := (state.getAccount codec address).nonce

/-- The cached entry, or the one that is put into the cache for a new
address. -/
def cacheEntry : CacheEntry :=
  (state.cache.lookup address).getD ⟨state.getAccount codec address, false⟩

/-- A write through `cache_entry`, which marks the entry as dirty. -/
def modifyAccount (change : AccountState → AccountState) :
    StateManager :=
  { state with cache := state.cache.insert address ⟨change (state.cacheEntry codec address).state, true⟩ }

def setBalance (balance : U128) : StateManager :=
  state.modifyAccount codec address fun account => { account with balance := balance }

/-- `nonce += 1` of a release build. -/
def incrementNonce : StateManager :=
  state.modifyAccount codec address fun account => { account with nonce := account.nonce + 1 }

def setCodeHash (hash : Hash32) : StateManager :=
  state.modifyAccount codec address fun account => { account with codeHash := some hash }

def applyTransferWithNonce (sender receiver : String) (amount : U128) (nonce : U64) :
    Bool × StateManager :=
  let currentNonce := state.getNonce codec sender
  if nonce ≠ currentNonce then (false, state)
  else
    match checkedAdd currentNonce 1 with
    | none => (false, state)
    | some nextNonce =>
      if amount = 0 then (false, state)
      else
        match checkedSub (state.getBalance codec sender) amount with
        | none => (false, state)
        | some newSenderBal =>
          match checkedAdd (state.getBalance codec receiver) amount with
          | none => (false, state)
          | some newRecvBal =>
            let state := state.setBalance codec sender newSenderBal
            let state := state.setBalance codec receiver newRecvBal
            (true, state.modifyAccount codec sender fun account => { account with nonce := nextNonce })

/-- The wall clock of the call is `now`. -/
def applyTransfer (now : U64) (state : StateManager) (sender receiver : String) (amount : U128)
    (nonce timestamp : U64) : Bool × StateManager :=
  if (now.toNat - timestamp.toNat) + (timestamp.toNat - now.toNat) > transactionReplayWindowSecs then
    (false, state)
  else state.applyTransferWithNonce codec sender receiver amount nonce

/-- The accounts of the database: the loop over the prefix iterator. Keys
that are not text and values that do not decode are skipped. -/
def persistedBalances : List (String × U128) :=
  (OrderedStore.prefixEntries state.db prefixAccount).filterMap fun entry =>
    match fromUtf8 (entry.1.drop prefixAccount.length), codec.decodeAccount entry.2 with
    | some address, some account => some (address, account.balance)
    | _, _ => none

variable (σ : IterOrder)

def mergedBalances (state : StateManager) : HashMap String U128 :=
  insertAll (insertAll ∅ (state.persistedBalances codec))
    ((σ.iter supplyLoop state.cache).map fun entry => (entry.1, entry.2.state.balance))

/-- The `u128` sum of a release build. -/
def totalSupply (state : StateManager) : U128 :=
  ((σ.iter sumLoop (state.mergedBalances codec σ)).map Prod.snd).foldl (· + ·) 0

def mint (σ : IterOrder) (state : StateManager) (address : String) (amount : U128) :
    Except String U128 × StateManager :=
  let currentTotal := state.totalSupply codec σ
  match checkedAdd currentTotal amount with
  | none =>
    (.error s!"[StateManager] mint: total supply arithmetic overflow ({currentTotal.toNat} + {amount.toNat})", state)
  | some newTotal =>
    if newTotal > maxSupply then
      (.error s!"[StateManager] mint: cap exceeded — current={currentTotal.toNat} requested={amount.toNat} cap={maxSupply.toNat}",
        state)
    else
      let bal := state.getBalance codec address
      match checkedAdd bal amount with
      | none =>
        (.error s!"[StateManager] mint: address {address} balance overflow ({bal.toNat} + {amount.toNat})", state)
      | some newBal => (.ok newBal, state.setBalance codec address newBal)

def dirtyAccounts (state : StateManager) : List (Bytes × Bytes) :=
  (σ.iter flushLoop state.cache).filterMap fun entry =>
    if entry.2.dirty then some (accountKey entry.1, codec.encodeAccount entry.2.state) else none

end

variable (state : StateManager)

def checkpoint : StateCheckpoint := ⟨state.cache, state.blockHeight, state.trie⟩

def restoreCheckpoint (checkpoint : StateCheckpoint) : StateManager :=
  { state with cache := checkpoint.cache, blockHeight := checkpoint.blockHeight, trie := checkpoint.trie }

def checkNextCanonicalBlock (block : BlockArgs) : Except StateError Unit :=
  match checkedAdd state.blockHeight 1 with
  | none => .error (.storage "canonical block height overflow")
  | some expectedHeight =>
    if block.index ≠ expectedHeight then
      .error (.storage s!"canonical block height mismatch: expected {expectedHeight.toNat}, got {block.index.toNat}")
    else if (state.db.lookup keyChainId).any (fun id => id ≠ utf8 block.chainId) then
      .error (.storage "refusing to append block from a different chain ID")
    else if block.previousHash ≠ ((state.db.lookup keyTipHash).bind fromUtf8).getD block.genesisHash then
      .error (.storage s!"canonical block {block.index.toNat} does not extend the persisted tip")
    else .ok ()

def writeBatch (outside : Outside) (state : StateManager) (batch : List (Bytes × Bytes)) :
    Except StateError Unit × StateManager :=
  match outside.written with
  | .error e => (.error (.storage e), state)
  | .ok () => (.ok (), { state with db := insertAll state.db batch })

section
variable (codec : Codec) (blake3 : Bytes → Hash32)

variable (outside : Outside)

def flushInternal (state : StateManager) : Except StateError Unit × StateManager :=
  state.writeBatch outside (state.dirtyAccounts codec outside.σ ++ [(keyHeight, le64 state.blockHeight)])

def flushWithCanonicalBlock (state : StateManager) (block : BlockArgs) :
    Except StateError Unit × StateManager :=
  match block.body with
  | .error e => (.error (.serialisation e), state)
  | .ok body =>
    let record : CanonicalBlockRecord :=
      { index := block.index
        blockHash := block.blockHash
        previousHash := block.previousHash
        chainId := block.chainId
        body := body }
    state.writeBatch outside (state.dirtyAccounts codec outside.σ ++
      [(keyHeight, le64 block.index), (keyChainId, utf8 block.chainId), (keyTipHash, utf8 block.blockHash),
        (blockKey block.index, codec.encodeRecord record)])

def syncEntry (trie : SparseMerkleTrie) (entry : String × CacheEntry) : SparseMerkleTrie :=
  if entry.2.dirty then
    if entry.2.state.balance = 0 ∧ entry.2.state.nonce = 0 then trie.remove blake3 entry.1
    else trie.insert blake3 entry.1 entry.2.state.balance entry.2.state.nonce
  else trie

variable (σ : IterOrder)

def syncTrie (loop : Nat) (state : StateManager) : StateManager :=
  { state with trie := (σ.iter loop state.cache).foldl (syncEntry blake3) state.trie }

def stateRoot (state : StateManager) : Hash32 × StateManager :=
  let state := state.syncTrie blake3 σ rootSyncLoop
  let (root, trie) := state.trie.root blake3 σ
  (root, { state with trie := trie })

def proveAccount (state : StateManager) (address : String) : MerkleProof × StateManager :=
  let state := state.syncTrie blake3 σ proveSyncLoop
  let (proof, trie) := state.trie.prove blake3 σ address
  (proof, { state with trie := trie })

def commitBlock (state : StateManager) : Except StateError Unit × StateManager :=
  (state.syncTrie blake3 outside.σ commitSyncLoop).flushInternal codec outside

def persistCanonicalBlock (state : StateManager) (block : BlockArgs) :
    Except StateError Unit × StateManager :=
  match state.checkNextCanonicalBlock block with
  | .error e => (.error e, state)
  | .ok () =>
    let state := { state with blockHeight := block.index }
    let state := state.syncTrie blake3 outside.σ commitSyncLoop
    match state.flushWithCanonicalBlock codec outside block with
    | (.error e, state) => (.error e, { state with blockHeight := saturatingSub block.index 1 })
    | (.ok (), state) => (.ok (), state)

/-- The loop over the transfers of a block. A sender in the result is the one
of the first rejected transfer. -/
def applyTransfers (state : StateManager) : List CanonicalTransfer → Option String × StateManager
  | [] => (none, state)
  | transfer :: rest =>
    if state.getNonce codec transfer.sender ≠ transfer.nonce then (some transfer.sender, state)
    else
      match state.applyTransferWithNonce codec transfer.sender transfer.receiver (transfer.amount.setWidth 128)
        transfer.nonce with
      | (false, state) => (some transfer.sender, state)
      | (true, state) => state.applyTransfers rest

def applyCanonicalBlock (state : StateManager) (block : BlockArgs)
    (expectedPostStateRoot : String) (transfers : List CanonicalTransfer) :
    Except StateError Unit × StateManager :=
  match state.checkNextCanonicalBlock block with
  | .error e => (.error e, state)
  | .ok () =>
    let originalCache := state.cache
    let originalTrie := state.trie
    match state.applyTransfers codec transfers with
    | (some sender, state) =>
      (.error (.storage s!"block {block.index.toNat} transaction state transition rejected for {sender}"),
        { state with cache := originalCache })
    | (none, state) =>
      let (root, state) := state.stateRoot blake3 outside.σ
      let actualPostStateRoot := Hex.encode root.toList
      if actualPostStateRoot ≠ expectedPostStateRoot then
        (.error (.storage
          s!"block {block.index.toNat} post-state root mismatch: expected {expectedPostStateRoot}, computed {actualPostStateRoot}"),
          { state with cache := originalCache, trie := originalTrie })
      else
        let state := { state with blockHeight := block.index }
        let state := state.syncTrie blake3 outside.σ commitSyncLoop
        match state.flushWithCanonicalBlock codec outside block with
        | (.error e, state) =>
          (.error e, { state with
            blockHeight := saturatingSub block.index 1, cache := originalCache, trie := originalTrie })
        | (.ok (), state) => (.ok (), state)

variable (utf8Error : Bytes → String)

/-- The loop over the stored accounts. The text of a failed UTF-8 decoding is
the library's. -/
def rebuildEntries (trie : SparseMerkleTrie) : List (Bytes × Bytes) → Except StateError Unit × SparseMerkleTrie
  | [] => (.ok (), trie)
  | (key, value) :: rest =>
    match fromUtf8 (key.drop prefixAccount.length) with
    | none => (.error (.serialisation (utf8Error (key.drop prefixAccount.length))), trie)
    | some address =>
      let account := (codec.decodeAccount value).getD {}
      if account.balance > 0 ∨ account.nonce > 0 then
        rebuildEntries (trie.insert blake3 address account.balance account.nonce) rest
      else rebuildEntries trie rest

def rebuildTrieFromDb (state : StateManager) : Except StateError Unit × StateManager :=
  let (result, trie) :=
    rebuildEntries codec blake3 utf8Error state.trie (OrderedStore.prefixEntries state.db prefixAccount)
  (result, { state with trie := trie })

def storedHeight (db : HashMap Bytes Bytes) : Except StateError U64 :=
  match db.lookup keyHeight with
  | none => .ok 0
  | some value =>
    if value.length = 8 then .ok (BitVec.ofNat 64 (fromLeBytes value)) else .error (.storage "corrupt block_height")

/-- `open` on a database that is there, or on an empty one. -/
def openDb (db : HashMap Bytes Bytes) : Except StateError StateManager :=
  match storedHeight db with
  | .error e => .error e
  | .ok blockHeight =>
    match rebuildTrieFromDb codec blake3 utf8Error ⟨db, ∅, blockHeight, .new⟩ with
    | (.error e, _) => .error e
    | (.ok (), state) => .ok state

end

end StateManager

end Bleep
