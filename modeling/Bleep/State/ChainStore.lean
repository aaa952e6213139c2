import Bleep.Library.Decimal
import Bleep.State.Restart

namespace Bleep
open HashTable Words StateManager List OrderedStore

/-- `serde_json` on records and blocks of the chain store. A block that could
be written is read back. -/
structure ChainCodec (T : Type) extends Codec where
  decodeRecord : Bytes → Except String CanonicalBlockRecord
  encodeBlock : T → Except String Bytes
  decodeBlock : Bytes → Except String T
  decodeRecord_encodeRecord : ∀ record, decodeRecord (encodeRecord record) = .ok record
  decodeBlock_encodeBlock : ∀ block bytes, encodeBlock block = .ok bytes → decodeBlock bytes = .ok block

section Load
variable {T : Type} (codec : ChainCodec T) (chainId genesisHash : String) (blockHash : T → String)

/-- One turn of the loop over the stored records. -/
def loadRecord (loaded : List CanonicalBlockRecord × List T) (entry : Bytes × Bytes) :
    Except StateError (List CanonicalBlockRecord × List T) :=
  match codec.decodeRecord entry.2 with
  | .error e => .error (.serialisation e)
  | .ok record =>
    let expectedIndex : U64 := BitVec.ofNat 64 loaded.1.length + 1
    let expectedKey := blockKey expectedIndex
    let expectedParent := (loaded.1.getLast?.map CanonicalBlockRecord.blockHash).getD genesisHash
    if entry.1 ≠ expectedKey ∨ record.index ≠ expectedIndex ∨ record.previousHash ≠ expectedParent ∨
        record.chainId ≠ chainId then
      .error (.storage s!"persisted canonical block sequence is invalid at height {record.index.toNat}")
    else
      match codec.decodeBlock record.body with
      | .error e => .error (.serialisation e)
      | .ok block =>
        if record.blockHash ≠ blockHash block then
          .error (.storage s!"persisted canonical block hash does not match body at height {record.index.toNat}")
        else .ok (loaded.1 ++ [record], loaded.2 ++ [block])

def loadCanonicalBlocks (state : StateManager) : Except StateError (List T) :=
  let storedChainId := state.db.lookup keyChainId
  let storedTip := state.db.lookup keyTipHash
  match (prefixEntries state.db prefixBlock).foldlM (loadRecord codec chainId genesisHash blockHash)
    ([], []) with
  | .error e => .error e
  | .ok (records, blocks) =>
    if state.blockHeight = 0 then
      if blocks ≠ [] ∨ storedChainId.isSome ∨ storedTip.isSome then
        .error (.storage "persisted canonical chain metadata is inconsistent at height zero")
      else .ok blocks
    else if storedChainId ≠ some (utf8 chainId) then
      .error (.storage "persisted chain ID does not match configured chain ID")
    else if BitVec.ofNat 64 records.length ≠ state.blockHeight ∨
        records.getLast?.map CanonicalBlockRecord.blockHash ≠ storedTip.bind fromUtf8 then
      .error (.storage s!"persisted block history does not match state height {state.blockHeight.toNat}")
    else .ok blocks

/-- What a call offers to the chain store: the height and the block, for a
chain with the given id and genesis hash and the hash of the block itself. -/
def StateCall.Offers (offered : Option (U64 × T)) : StateCall → Prop
  | applyCanonicalBlock _ block _ _ => ∃ body, offered = some (block.index, body) ∧ block.body = codec.encodeBlock body ∧
      block.blockHash = blockHash body ∧ block.chainId = chainId ∧ block.genesisHash = genesisHash
  | persistCanonicalBlock _ block => ∃ body, offered = some (block.index, body) ∧ block.body = codec.encodeBlock body ∧
      block.blockHash = blockHash body ∧ block.chainId = chainId ∧ block.genesisHash = genesisHash
  | _ => offered = none

/-- The runs from an empty store, with the blocks accepted so far and their
heights. -/
inductive ChainRun (blake3 : Bytes → Hash32) : List (U64 × T) → StateManager → Prop
  | start : ChainRun blake3 [] .empty
  | call {accepted : List (U64 × T)} {state : StateManager} {offered : Option (U64 × T)} (call : StateCall)
      (run : ChainRun blake3 accepted state)
      (offers : call.Offers codec chainId genesisHash blockHash offered) :
      ChainRun blake3 (accepted ++ if call.commits codec.toCodec blake3 state then offered.toList else [])
        (call.apply codec.toCodec blake3 state)

/-- The records of accepted blocks: numbered from one, each with the hash of
the one before, on one chain. -/
inductive Recorded : List (U64 × T) → List CanonicalBlockRecord → Prop
  | nil : Recorded [] []
  | snoc {accepted : List (U64 × T)} {records : List CanonicalBlockRecord} {index : U64} {block : T} {body : Bytes}
      (chain : Recorded accepted records) (number : index.toNat = records.length + 1)
      (serialised : codec.encodeBlock block = .ok body) :
      Recorded (accepted ++ [(index, block)])
        (records ++ [⟨index, blockHash block, (records.getLast?.map CanonicalBlockRecord.blockHash).getD genesisHash,
          chainId, body⟩])

/-- The database and the height hold exactly the given records. -/
structure Stores (records : List CanonicalBlockRecord) (state : StateManager) : Prop where
  entries : ∀ key value, (∃ record ∈ records, key = blockKey record.index ∧ value = codec.encodeRecord record) ↔
    state.db.lookup key = some value ∧ prefixBlock <+: key
  chainId : state.db.lookup keyChainId = if records = [] then none else some (utf8 chainId)
  tip : state.db.lookup keyTipHash = records.getLast?.map fun record => utf8 record.blockHash
  height : state.blockHeight.toNat = records.length

end Load

section Keys

theorem blockKey_eq (index : U64) : blockKey index = prefixBlock ++ Decimal.fixed 20 index.toNat := by
  have bound : index.toNat < 10 ^ (19 + 1) := by
    omega
  exact congrArg (prefixBlock ++ ·) (Decimal.utf8_format bound)

theorem blockKey_injective : Function.Injective blockKey := by
  intro m n same
  rw [blockKey_eq, blockKey_eq] at same
  exact BitVec.eq_of_toNat_eq (Decimal.fixed_injective (by omega) (by omega) (append_cancel_left same))

theorem le_blockKey {m n} (ordered : m.toNat ≤ n.toNat) : le (blockKey m) (blockKey n) = true := by
  rw [blockKey_eq, blockKey_eq]
  exact le_append_left _ (Decimal.le_fixed (by omega) ordered)

end Keys

section Loaded
variable {T : Type} {codec : ChainCodec T} {chainId genesisHash : String} {blockHash : T → String}
  {accepted : List (U64 × T)} {records : List CanonicalBlockRecord} {state after : StateManager}

section
variable (chain : Recorded codec chainId genesisHash blockHash accepted records)
include chain

theorem Recorded.length_eq : accepted.length = records.length := by
  induction chain with
  | nil => rfl
  | snoc _ _ _ ih => rw [length_append, length_append, ih, length_singleton, length_singleton]

theorem Recorded.numbers : (records.map fun record => record.index.toNat) = List.range' 1 records.length := by
  induction chain with
  | nil => rfl
  | snoc _ number _ ih =>
    rw [List.map_append, ih, length_append, length_singleton, range'_1_concat, map_singleton, number, Nat.add_comm]

theorem Recorded.heights : (accepted.map fun entry => entry.1.toNat) = List.range' 1 accepted.length := by
  induction chain with
  | nil => rfl
  | snoc chain number _ ih =>
    rw [List.map_append, ih, length_append, length_singleton, range'_1_concat, map_singleton,
      number, chain.length_eq, Nat.add_comm]

end

/-- The entries of the database that hold the records. -/
def chainEntries (codec : ChainCodec T) (records : List CanonicalBlockRecord) : List (Bytes × Bytes) :=
  records.map fun record => (blockKey record.index, codec.encodeRecord record)

section
variable (chain : Recorded codec chainId genesisHash blockHash accepted records)
include chain

theorem Recorded.increasing : records.Pairwise fun left right => left.index.toNat < right.index.toNat := by
  have numbered : (records.map fun record => record.index.toNat).Pairwise (· < ·) := by
    rw [chain.numbers]
    exact pairwise_lt_range'
  exact pairwise_map.mp numbered

theorem Recorded.load :
    (chainEntries codec records).foldlM (loadRecord codec chainId genesisHash blockHash) ([], []) =
      .ok (records, accepted.map Prod.snd) := by
  induction chain with
  | nil => rfl
  | @snoc accepted records index block body chain number serialised ih =>
    have expected : BitVec.ofNat 64 records.length + 1 = index := by
      apply BitVec.eq_of_toNat_eq
      change (records.length % 2 ^ 64 + 1) % 2 ^ 64 = _
      omega
    have turn : loadRecord codec chainId genesisHash blockHash (records, accepted.map Prod.snd)
        (blockKey index, codec.encodeRecord ⟨index, blockHash block,
          (records.getLast?.map CanonicalBlockRecord.blockHash).getD genesisHash, chainId, body⟩) =
        .ok (records ++ [⟨index, blockHash block,
          (records.getLast?.map CanonicalBlockRecord.blockHash).getD genesisHash, chainId, body⟩],
          accepted.map Prod.snd ++ [block]) := by
      simp only [loadRecord, codec.decodeRecord_encodeRecord, codec.decodeBlock_encodeBlock block body serialised,
        expected, ne_eq, not_true_eq_false, or_self, if_false]
    rw [chainEntries, List.map_append, ← chainEntries, List.foldlM_append, ih, List.map_append]
    exact congrArg (· >>= pure) turn

end

theorem Stores.load (stores : Stores codec chainId records state)
    (chain : Recorded codec chainId genesisHash blockHash accepted records) :
    loadCanonicalBlocks codec chainId genesisHash blockHash state = .ok (accepted.map Prod.snd) := by
  have sorted : (chainEntries codec records).Pairwise EntryLe :=
    pairwise_map.mpr (chain.increasing.imp fun less => le_blockKey less.le)
  have nodup : ((chainEntries codec records).map Prod.fst).Nodup := by
    rw [chainEntries, map_map]
    refine pairwise_map.mpr (chain.increasing.imp fun less same => ?_)
    rw [blockKey_injective same] at less
    exact Nat.lt_irrefl _ less
  have members : ∀ key value, (key, value) ∈ chainEntries codec records ↔
      state.db.lookup key = some value ∧ prefixBlock <+: key := by
    intro key value
    rw [← stores.entries, chainEntries, mem_map]
    refine exists_congr fun record => and_congr_right fun _ => ?_
    rw [Prod.mk.injEq, eq_comm, @eq_comm _ _ value]
  rw [loadCanonicalBlocks, prefixEntries_eq sorted nodup members, chain.load]
  have height := stores.height
  by_cases empty : records = []
  · subst empty
    have zero : state.blockHeight = 0 := BitVec.eq_of_toNat_eq height
    have none : accepted = [] := List.length_eq_zero_iff.mp chain.length_eq
    subst none
    simp [zero, stores.chainId, stores.tip]
  · have positive : state.blockHeight ≠ 0 := by
      intro zero
      rw [zero] at height
      exact empty (List.length_eq_zero_iff.mp height.symm)
    have counted : BitVec.ofNat 64 records.length = state.blockHeight := by
      rw [← height, BitVec.ofNat_toNat, BitVec.setWidth_eq]
    have tip : (state.db.lookup keyTipHash).bind fromUtf8 = records.getLast?.map CanonicalBlockRecord.blockHash := by
      rw [stores.tip]
      cases records.getLast? with
      | none => rfl
      | some record => exact fromUtf8_utf8 _
    simp only [positive, stores.chainId, empty, counted, tip, if_false, ne_eq, not_true_eq_false, or_self]

end Loaded

section Runs
variable {T : Type} {codec : ChainCodec T} {chainId genesisHash : String} {blockHash : T → String}
  {blake3 : Bytes → Hash32} {accepted : List (U64 × T)} {records : List CanonicalBlockRecord}
  {state mid after : StateManager} {outside : Outside} {block : BlockArgs} {offered : Option (U64 × T)}
  {key : Bytes}

theorem prefixBlock_head (inside : prefixBlock <+: key) : key.head? = some 99 := by
  obtain ⟨rest, rfl⟩ := inside
  rfl

theorem Stores.congr (stores : Stores codec chainId records state)
    (same : ∀ key, key.head? = some 99 → after.db.lookup key = state.db.lookup key)
    (height : after.blockHeight = state.blockHeight) : Stores codec chainId records after := by
  refine ⟨fun key value => ?_, ?_, ?_, height ▸ stores.height⟩
  · rw [stores.entries]
    refine and_congr_left fun inside => ?_
    rw [same key (prefixBlock_head inside)]
  · rw [same keyChainId (by decide), stores.chainId]
  · rw [same keyTipHash (by decide), stores.tip]

/-- The accounts of a batch are not in the way of the chain's own keys. -/
theorem lookup_after_accounts {base σ puts key} (foreign : key.head? = some 99) :
    (insertAll state.db (state.dirtyAccounts base σ ++ puts)).lookup key =
      ((insertAll (insertAll state.db (state.dirtyAccounts base σ)) puts).lookup key) ∧
    (insertAll state.db (state.dirtyAccounts base σ)).lookup key = state.db.lookup key := by
  refine ⟨by rw [insertAll_append], lookup_insertAll_of_not_mem _ fun member => ?_⟩
  obtain ⟨⟨_, value⟩, put, rfl⟩ := mem_map.mp member
  obtain ⟨address, own⟩ := mem_dirtyAccounts put
  rw [own, accountKey_head] at foreign
  exact absurd foreign (by decide)

theorem prefix_blockKey (index : U64) : prefixBlock <+: blockKey index := by
  exact prefix_append _ _

/-- The chain's own keys after a flush: those of the block are new, and the
others are as before. -/
theorem lookup_flushed {body} (kept : mid.db = state.db) (flushed : after = { mid with
      db := insertAll mid.db (mid.dirtyAccounts codec.toCodec outside.σ ++ blockPuts codec.toCodec block body) })
    (foreign : key.head? = some 99) :
    after.db.lookup key = if key = blockKey block.index then
        some (codec.encodeRecord ⟨block.index, block.blockHash, block.previousHash, block.chainId, body⟩)
      else if key = keyTipHash then some (utf8 block.blockHash)
      else if key = keyChainId then some (utf8 block.chainId)
      else if key = keyHeight then some (le64 block.index)
      else state.db.lookup key := by
  have below := @lookup_after_accounts mid codec.toCodec outside.σ (blockPuts codec.toCodec block body) key foreign
  rw [flushed]
  refine below.1.trans ?_
  change ((((insertAll mid.db _).insert keyHeight _).insert keyChainId _).insert keyTipHash _ |>.insert
    (blockKey block.index) _).lookup key = _
  rw [lookup_insert_eq, lookup_insert_eq, lookup_insert_eq, lookup_insert_eq, below.2, kept]

theorem ne_blockKey_of_not_prefix (outside : ¬prefixBlock <+: key) (index : U64) :
    key ≠ blockKey index := fun same => outside (same ▸ prefix_blockKey index)

theorem Stores.flush {body} (stores : Stores codec chainId records state)
    (numbers : ∀ record ∈ records, record.index.toNat ≤ records.length)
    (number : block.index.toNat = records.length + 1) (named : block.chainId = chainId) (kept : mid.db = state.db)
    (flushed : after = { mid with
      db := insertAll mid.db (mid.dirtyAccounts codec.toCodec outside.σ ++ blockPuts codec.toCodec block body) })
    (height : mid.blockHeight = block.index) :
    Stores codec chainId
      (records ++ [⟨block.index, block.blockHash, block.previousHash, block.chainId, body⟩]) after := by
  have old {key : Bytes} (inside : prefixBlock <+: key) (other : key ≠ blockKey block.index) :
      after.db.lookup key = state.db.lookup key := by
    rw [lookup_flushed kept flushed (prefixBlock_head inside), if_neg other, if_neg, if_neg, if_neg]
    all_goals
      rintro rfl
      exact absurd inside (by decide)
  have new : after.db.lookup (blockKey block.index) =
      some (codec.encodeRecord ⟨block.index, block.blockHash, block.previousHash, block.chainId, body⟩) := by
    rw [lookup_flushed kept flushed (blockKey_head _), if_pos rfl]
  refine ⟨fun key value => ?_, ?_, ?_, ?_⟩
  · constructor
    · rintro ⟨record, member, rfl, rfl⟩
      refine ⟨?_, prefix_blockKey _⟩
      rcases mem_append.mp member with before | last
      · have other : blockKey record.index ≠ blockKey block.index := by
          intro same
          have bound := numbers record before
          rw [blockKey_injective same] at bound
          omega
        rw [old (prefix_blockKey _) other]
        exact ((stores.entries _ _).mp ⟨record, before, rfl, rfl⟩).1
      · rw [mem_singleton.mp last, new]
    · rintro ⟨stored, inside⟩
      by_cases own : key = blockKey block.index
      · subst own
        rw [new] at stored
        exact ⟨_, mem_append_right _ (mem_singleton_self _), rfl, (Option.some.inj stored).symm⟩
      · rw [old inside own] at stored
        obtain ⟨record, member, found⟩ := (stores.entries key value).mpr ⟨stored, inside⟩
        exact ⟨record, mem_append_left _ member, found⟩
  · have apart := ne_blockKey_of_not_prefix (by decide : ¬prefixBlock <+: keyChainId) block.index
    rw [lookup_flushed kept flushed (by decide), if_neg apart, if_neg (by decide), if_pos rfl, named]
    simp
  · have apart := ne_blockKey_of_not_prefix (by decide : ¬prefixBlock <+: keyTipHash) block.index
    rw [lookup_flushed kept flushed (by decide), if_neg apart, if_pos rfl, getLast?_concat]
    rfl
  · rw [flushed, length_append, length_singleton, ← number, ← height]

theorem checkNextCanonicalBlock_parent (extends_ : state.checkNextCanonicalBlock block = .ok ()) :
    block.previousHash = ((state.db.lookup keyTipHash).bind fromUtf8).getD block.genesisHash := by
  unfold checkNextCanonicalBlock at extends_
  split at extends_
  · cases extends_
  split at extends_
  · cases extends_
  split at extends_
  · cases extends_
  split at extends_
  · cases extends_
  rename_i parent
  exact not_ne_iff.mp parent

/-- The records a run has left. -/
def Chained (codec : ChainCodec T) (chainId genesisHash : String) (blockHash : T → String)
    (accepted : List (U64 × T)) (state : StateManager) : Prop :=
  ∃ records, Recorded codec chainId genesisHash blockHash accepted records ∧ Stores codec chainId records state

theorem Chained.extend {body} (chained : Chained codec chainId genesisHash blockHash accepted state)
    (extends_ : state.checkNextCanonicalBlock block = .ok ()) (serialised : block.body = codec.encodeBlock body)
    (hashed : block.blockHash = blockHash body) (named : block.chainId = chainId)
    (rooted : block.genesisHash = genesisHash)
    (flush : mid.flushWithCanonicalBlock codec.toCodec outside block = (.ok (), after)) (kept : mid.db = state.db)
    (height : mid.blockHeight = block.index) :
    Chained codec chainId genesisHash blockHash (accepted ++ [(block.index, body)]) after := by
  obtain ⟨records, chain, stores⟩ := chained
  obtain ⟨bytes, written, flushed⟩ := flushWithCanonicalBlock_ok flush
  have number : block.index.toNat = records.length + 1 := by
    rw [checkNextCanonicalBlock_height extends_, stores.height]
  have parent : block.previousHash =
      (records.getLast?.map CanonicalBlockRecord.blockHash).getD genesisHash := by
    rw [checkNextCanonicalBlock_parent extends_, stores.tip, rooted]
    cases records.getLast? with
    | none => rfl
    | some record => exact congrArg (Option.getD · genesisHash) (fromUtf8_utf8 _)
  have numbers : ∀ record ∈ records, record.index.toNat ≤ records.length := by
    intro record member
    have listed : record.index.toNat ∈ range' 1 records.length :=
      chain.numbers ▸ mem_map_of_mem member
    have bounds := mem_range'_1.mp listed
    omega
  have next := stores.flush numbers number named kept flushed height
  rw [hashed, parent, named] at next
  exact ⟨_, chain.snoc number (serialised ▸ written), next⟩

theorem Chained.call {call : StateCall} (chained : Chained codec chainId genesisHash blockHash accepted state)
    (offers : call.Offers codec chainId genesisHash blockHash offered) :
    Chained codec chainId genesisHash blockHash
      (accepted ++ if call.commits codec.toCodec blake3 state then offered.toList else [])
      (call.apply codec.toCodec blake3 state) := by
  rcases call_cases codec.toCodec blake3 state call with ⟨idle, db, height⟩ |
    ⟨commits, ⟨outside, block, mid, placed, extends_, flush, kept, height⟩ | ⟨outside, mid, rfl, kept, height, written⟩⟩
  · obtain ⟨records, chain, stores⟩ := chained
    rw [idle, if_neg Bool.false_ne_true, append_nil]
    exact ⟨records, chain, stores.congr (fun _ _ => by rw [db]) height⟩
  · have given : ∃ body, offered = some (block.index, body) ∧ block.body = codec.encodeBlock body ∧
        block.blockHash = blockHash body ∧ block.chainId = chainId ∧ block.genesisHash = genesisHash := by
      rcases placed with ⟨expectedRoot, transfers, rfl⟩ | rfl <;> exact offers
    obtain ⟨body, rfl, serialised, hashed, named, rooted⟩ := given
    rw [if_pos commits]
    exact chained.extend extends_ serialised hashed named rooted flush kept height
  obtain rfl := offers
  obtain ⟨records, chain, stores⟩ := chained
  rw [if_pos commits, Option.toList_none, append_nil, written]
  refine ⟨records, chain, stores.congr (fun key foreign => ?_) height⟩
  have below := @lookup_after_accounts mid codec.toCodec outside.σ [(keyHeight, le64 mid.blockHeight)] key foreign
  have other : key ≠ keyHeight := by
    rintro rfl
    exact absurd foreign (by decide)
  refine below.1.trans ?_
  change ((insertAll _ _).insert keyHeight _).lookup key = _
  rw [AList.lookup_insert_ne other, below.2, kept]

theorem ChainRun.chained (run : ChainRun codec chainId genesisHash blockHash blake3 accepted state) :
    Chained codec chainId genesisHash blockHash accepted state := by
  induction run with
  | start =>
    refine ⟨[], .nil, fun key value => ?_, rfl, rfl, rfl⟩
    exact iff_of_false (fun ⟨_, absent, _⟩ => absurd absent not_mem_nil) fun ⟨stored, _⟩ => by cases stored
  | call call _ offers ih => exact ih.call offers

/-- After any run the chain store loads exactly the accepted blocks, in the
order of their heights, as many as the height says, and a refused call does
not change what is loaded. -/
theorem chain_store_round_trip (run : ChainRun codec chainId genesisHash blockHash blake3 accepted state) :
    loadCanonicalBlocks codec chainId genesisHash blockHash state = .ok (accepted.map Prod.snd) ∧
    (accepted.map fun entry => entry.1.toNat) = List.range' 1 state.blockHeight.toNat ∧
    accepted.length = state.blockHeight.toNat ∧
    ∀ call offered, StateCall.Offers codec chainId genesisHash blockHash offered call →
      call.commits codec.toCodec blake3 state = false →
      loadCanonicalBlocks codec chainId genesisHash blockHash (call.apply codec.toCodec blake3 state) =
        loadCanonicalBlocks codec chainId genesisHash blockHash state := by
  obtain ⟨records, chain, stores⟩ := run.chained
  have length : accepted.length = state.blockHeight.toNat := chain.length_eq.trans stores.height.symm
  refine ⟨stores.load chain, length ▸ chain.heights, length, fun call offered offers refused => ?_⟩
  have next : Chained codec chainId genesisHash blockHash _ (call.apply codec.toCodec blake3 state) :=
    run.chained.call offers
  obtain ⟨later, again, kept⟩ := next
  rw [refused, if_neg Bool.false_ne_true, append_nil] at again
  rw [kept.load again, stores.load chain]

/-- Bytes with a mark before each and another at the end. -/
def marked (bytes : Bytes) : Bytes := bytes.flatMap (fun byte => [1, byte]) ++ [0]

def readMarked : Bytes → Option (Bytes × Bytes)
  | [] => none
  | [mark] => if mark = 0 then some ([], []) else none
  | mark :: byte :: rest =>
    if mark = 0 then some ([], byte :: rest)
    else (readMarked rest).map fun read => (byte :: read.1, read.2)

theorem readMarked_marked (bytes rest : Bytes) : readMarked (marked bytes ++ rest) = some (bytes, rest) := by
  induction bytes with
  | nil => cases rest <;> rfl
  | cons byte bytes ih =>
    have shape : marked (byte :: bytes) ++ rest = 1 :: byte :: (marked bytes ++ rest) := rfl
    rw [shape, readMarked, if_neg (by decide)]
    simp [ih]

def readRecord (bytes : Bytes) : Option CanonicalBlockRecord := do
  let (index, bytes) ← readMarked bytes
  let (blockHash, bytes) ← readMarked bytes
  let (previousHash, bytes) ← readMarked bytes
  let (chainId, body) ← readMarked bytes
  some ⟨BitVec.ofNat 64 (fromLeBytes index), ← fromUtf8 blockHash, ← fromUtf8 previousHash, ← fromUtf8 chainId, body⟩

/-- A chain codec for blocks of raw bytes, for evaluation only. -/
def markedCodec : ChainCodec Bytes where
  toCodec := { fixedWidthCodec with
    encodeRecord := fun record => marked (le64 record.index) ++ (marked (utf8 record.blockHash) ++
      (marked (utf8 record.previousHash) ++ (marked (utf8 record.chainId) ++ record.body))) }
  decodeRecord bytes := (readRecord bytes).elim (.error "bad record") .ok
  encodeBlock block := .ok block
  decodeBlock bytes := .ok bytes
  decodeRecord_encodeRecord record := by
    have index : BitVec.ofNat 64 (fromLeBytes (le64 record.index)) = record.index := by
      rw [le64, fromLeBytes_leBytes, Nat.mod_eq_of_lt (by have := record.index.isLt; omega), BitVec.ofNat_toNat,
        BitVec.setWidth_eq]
    simp only [readRecord, readMarked_marked, fromUtf8_utf8, index, Option.bind_eq_bind, Option.bind_some]
    rfl
  decodeBlock_encodeBlock _ _ written := by
    cases written
    rfl

def persistBytes (index : U64) (previousHash : String) (bytes : Bytes) : StateCall :=
  .persistCanonicalBlock quietly ⟨.ok bytes, index, Hex.encode bytes, previousHash, "bleep", "g"⟩

/-- Two blocks are persisted, with one in between that skips a height. -/
theorem two_blocks_loaded :
    let state := (makeCalls markedCodec.toCodec markedHash .empty
      [persistBytes 1 "g" [10], persistBytes 3 "0a" [30], persistBytes 2 "0a" [20]]).2
    loadCanonicalBlocks markedCodec "bleep" "g" Hex.encode state = .ok [[10], [20]] ∧ state.blockHeight = 2 := by
  have offers (index : U64) (previousHash : String) (bytes : Bytes) :
      (persistBytes index previousHash bytes).Offers markedCodec "bleep" "g" Hex.encode (some (index, bytes)) :=
    ⟨bytes, rfl, rfl, rfl, rfl, rfl⟩
  have run : ChainRun markedCodec "bleep" "g" Hex.encode markedHash [(1, [10]), (2, [20])] _ :=
    .call (persistBytes 2 "0a" [20]) (.call (persistBytes 3 "0a" [30])
      (.call (persistBytes 1 "g" [10]) .start (offers _ _ _)) (offers _ _ _)) (offers _ _ _)
  exact ⟨(chain_store_round_trip run).1, rfl⟩

end Runs

end Bleep
