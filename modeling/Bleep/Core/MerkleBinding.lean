import Bleep.Core.BlockValidation

namespace Bleep

open Block Transaction List Vector BlockValidator Transaction

/-- A transaction without its signature: what `tx_hash` is taken of. -/
def Transaction.unsigned (tx : Transaction) : Transaction := { tx with signature := [] }

/-- No string is longer than a `usize` can say. -/
structure Transaction.Fits (tx : Transaction) : Prop where
  chainId : (utf8 tx.chainId).length < 2 ^ 64
  sender : (utf8 tx.sender).length < 2 ^ 64
  receiver : (utf8 tx.receiver).length < 2 ^ 64

def Transaction.hashInput (tx : Transaction) : Bytes :=
  txDomain ++ lengthPrefixed tx.chainId ++ lengthPrefixed tx.sender ++ lengthPrefixed tx.receiver
    ++ le64 tx.amount ++ le64 tx.timestamp ++ le64 tx.nonce

/-- The hash input determines all of the transaction but its signature. -/
theorem Transaction.unsigned_of_hashInput {tx tx' : Transaction} (fits : tx.Fits) (fits' : tx'.Fits)
    (same : tx.hashInput = tx'.hashInput) : tx.unsigned = tx'.unsigned := by
  simp only [hashInput, List.append_assoc] at same
  obtain ⟨chainId, same⟩ := lengthPrefixed_append_inj fits.chainId fits'.chainId (List.append_cancel_left same)
  obtain ⟨sender, same⟩ := lengthPrefixed_append_inj fits.sender fits'.sender same
  obtain ⟨receiver, same⟩ := lengthPrefixed_append_inj fits.receiver fits'.receiver same
  obtain ⟨amount, same⟩ := append_inj same (by simp [le64])
  obtain ⟨timestamp, nonce⟩ := append_inj same (by simp [le64])
  simp only [unsigned, chainId, sender, receiver, le64_injective amount, le64_injective timestamp, le64_injective nonce]

variable {second first : List Transaction}

theorem map_unsigned_of_hashInput (fits : ∀ tx ∈ first, tx.Fits) (fits' : ∀ tx ∈ second, tx.Fits)
    (same : first.map hashInput = second.map hashInput) :
    first.map unsigned = second.map unsigned := by
  induction first generalizing second with
  | nil => rw [map_eq_nil_iff.mp same.symm]
  | cons tx rest ih =>
    cases second with
    | nil => cases same
    | cons tx' rest' =>
      obtain ⟨head, tail⟩ := cons_eq_cons.mp same
      have heads := unsigned_of_hashInput (fits tx (mem_cons_self ..)) (fits' tx' (mem_cons_self ..)) head
      have tails := ih (fun other listed => fits other (mem_cons_of_mem _ listed))
        (fun other listed => fits' other (mem_cons_of_mem _ listed)) tail
      rw [List.map_cons, List.map_cons, heads, tails]

/-- The hash inputs of one turn of the loop of `calculate_merkle_root`. -/
def levelInputs : List Hash32 → List Bytes
  | left :: right :: rest => (left.toList ++ right.toList) :: levelInputs rest
  | [last] => [last.toList ++ last.toList]
  | [] => []

variable {level level' : List Hash32}

theorem levelInputs_injective (length : level.length = level'.length)
    (same : levelInputs level = levelInputs level') : level = level' := by
  induction level using levelInputs.induct generalizing level' with
  | case1 left right rest ih =>
    match level', length with
    | left' :: right' :: rest', length =>
      obtain ⟨first, others⟩ := cons_eq_cons.mp same
      obtain ⟨lefts, rights⟩ := append_inj first (by simp)
      rw [toList_inj.mp lefts, toList_inj.mp rights, ih (by simpa using length) others]
  | case2 last =>
    match level', length with
    | [last'], _ =>
      obtain ⟨lefts, -⟩ := append_inj (singleton_inj.mp same) (by simp)
      rw [toList_inj.mp lefts]
  | case3 => exact (length_eq_zero_iff.mp length.symm).symm

section
variable (sha3 : Bytes → Hash32)

/-- The hash inputs of the whole loop. -/
def merkleInputs (level : List Hash32) : List Bytes :=
  if 1 < level.length then levelInputs level ++ merkleInputs (merkleLevel sha3 level) else []
termination_by level.length
decreasing_by
  rw [merkleLevel_length]
  omega

/-- What is hashed for a block to check its Merkle root and to commit to it in
the block hash. -/
def Block.hashInputs (block : Block) : List Bytes :=
  block.toBlockHeader.canonicalHashPreimage sha3 :: utf8 block.merkleRoot ::
    block.transactions.map hashInput ++ merkleInputs sha3 (block.transactions.map (txPayload sha3))

variable {sha3}

theorem merkleLevel_eq_map (level : List Hash32) : merkleLevel sha3 level = (levelInputs level).map sha3 := by
  induction level using levelInputs.induct with
  | case1 left right rest ih => simp [merkleLevel, levelInputs, ih]
  | case2 last => simp [merkleLevel, levelInputs]
  | case3 => simp [merkleLevel, levelInputs]

variable {seen : Set Bytes}

theorem map_sha3_injective (injective : Set.InjOn sha3 seen) {inputs inputs' : List Bytes}
    (within : ∀ input ∈ inputs, input ∈ seen) (within' : ∀ input ∈ inputs', input ∈ seen)
    (same : inputs.map sha3 = inputs'.map sha3) : inputs = inputs' := by
  induction inputs generalizing inputs' with
  | nil => exact (map_eq_nil_iff.mp same.symm).symm
  | cons input rest ih =>
    cases inputs' with
    | nil => cases same
    | cons input' rest' =>
      obtain ⟨first, others⟩ := cons_eq_cons.mp same
      rw [injective (within input (mem_cons_self ..)) (within' input' (mem_cons_self ..)) first,
        ih (fun other listed => within other (mem_cons_of_mem _ listed))
          (fun other listed => within' other (mem_cons_of_mem _ listed)) others]

/-- From the top of the tree down to the leaves: with the number of leaves
fixed, every level determines the one below. -/
theorem merkleTop_injective (injective : Set.InjOn sha3 seen)
    (within : ∀ input ∈ merkleInputs sha3 level, input ∈ seen)
    (within' : ∀ input ∈ merkleInputs sha3 level', input ∈ seen) (length : level.length = level'.length)
    (same : merkleTop sha3 level = merkleTop sha3 level') : level = level' := by
  induction size : level.length using Nat.strong_induction_on generalizing level level' with
  | _ size ih =>
    subst size
    rw [merkleTop, merkleTop.eq_def sha3 level', ← length] at same
    rw [merkleInputs] at within
    rw [merkleInputs, ← length] at within'
    by_cases many : 1 < level.length
    · rw [if_pos many, if_pos many] at same
      rw [if_pos many] at within within'
      have shorter : (merkleLevel sha3 level).length < level.length := by
        rw [merkleLevel_length]
        omega
      have levels := ih _ shorter (fun input listed => within input (mem_append_right _ listed))
        (fun input listed => within' input (mem_append_right _ listed))
        (by rw [merkleLevel_length, merkleLevel_length, length]) same rfl
      rw [merkleLevel_eq_map, merkleLevel_eq_map] at levels
      exact levelInputs_injective length
        (map_sha3_injective injective (fun input listed => within input (mem_append_left _ listed))
          (fun input listed => within' input (mem_append_left _ listed)) levels)
    · rwa [if_neg many, if_neg many] at same

theorem merkleTop_singleton {level} (present : level ≠ []) : ∃ top, merkleTop sha3 level = [top] := by
  induction size : level.length using Nat.strong_induction_on generalizing level with
  | _ size ih =>
    have positive := length_pos_iff.mpr present
    rw [merkleTop]
    split
    · have shorter := merkleLevel_length sha3 level
      exact ih (merkleLevel sha3 level).length (by omega) (ne_nil_of_length_pos (by omega)) rfl
    · exact length_eq_one_iff.mp (by omega)

theorem merkleTop_of_root (length : first.length = second.length)
    (same : calculateMerkleRoot sha3 first = calculateMerkleRoot sha3 second) :
    merkleTop sha3 (first.map (txPayload sha3)) = merkleTop sha3 (second.map (txPayload sha3)) := by
  cases first with
  | nil => rw [length_eq_zero_iff.mp length.symm]
  | cons tx rest =>
    have present : second ≠ [] := ne_nil_of_length_pos (by rw [← length]; exact Nat.succ_pos _)
    obtain ⟨top, left⟩ := @merkleTop_singleton sha3 ((tx :: rest).map (txPayload sha3)) (by simp)
    obtain ⟨top', right⟩ := @merkleTop_singleton sha3 (second.map (txPayload sha3)) (by simpa using present)
    rw [calculateMerkleRoot, calculateMerkleRoot, left, right] at same
    rw [left, right, toList_inj.mp (Hex.encode_injective same)]

/-- The block hash binds the transactions exactly as far as their number is
known. -/
theorem block_hash_binds_iff {hashes : Hashes} {first second : Block}
    (verified : BlockValidator.verifyMerkleRoot hashes first = true)
    (verified' : BlockValidator.verifyMerkleRoot hashes second = true)
    (fits : ∀ tx ∈ first.transactions, tx.Fits) (fits' : ∀ tx ∈ second.transactions, tx.Fits)
    (injective : Set.InjOn hashes.sha3
      { input | input ∈ first.hashInputs hashes.sha3 ∨ input ∈ second.hashInputs hashes.sha3 })
    (same : first.computeHash hashes.sha3 = second.computeHash hashes.sha3) :
    first.transactions.map Transaction.unsigned = second.transactions.map Transaction.unsigned ↔
      first.transactions.length = second.transactions.length := by
  constructor
  · intro equal
    have lengths := congrArg List.length equal
    rwa [length_map, length_map] at lengths
  intro length
  -- The header holds the hash of the root, and the root that of the leaves.
  have digests := toList_inj.mp (Hex.encode_injective same)
  have header := BlockHeader.canonicalHashPreimage_inj hashes.sha3
    (injective (.inl (by simp [hashInputs])) (.inr (by simp [hashInputs])) digests)
  have root := utf8_injective (injective (.inl (by simp [hashInputs])) (.inr (by simp [hashInputs])) header.merkleRoot)
  rw [← eq_of_beq verified, ← eq_of_beq verified'] at root
  have leaves := merkleTop_injective injective
    (fun input listed => .inl (by simp [hashInputs, listed]))
    (fun input listed => .inr (by simp [hashInputs, listed])) (by simpa using length)
    (merkleTop_of_root length root)
  have hashed (transactions : List Transaction) : transactions.map (txPayload hashes.sha3) =
      (transactions.map hashInput).map hashes.sha3 := by
    rw [List.map_map]
    rfl
  rw [hashed, hashed] at leaves
  have inputs := map_sha3_injective injective (fun input listed => .inl ?_) (fun input listed => .inr ?_) leaves
  · exact map_unsigned_of_hashInput fits fits' inputs
  · exact mem_append_left _ (mem_cons_of_mem _ (mem_cons_of_mem _ listed))
  · exact mem_append_left _ (mem_cons_of_mem _ (mem_cons_of_mem _ listed))

theorem merkleLevel_duplicate (even : level.length % 2 = 0) (last : Hash32) :
    merkleLevel sha3 (level ++ [last, last]) = merkleLevel sha3 (level ++ [last]) := by
  induction level using levelInputs.induct with
  | case1 left right rest ih =>
    simp only [length_cons] at even
    simp only [cons_append, merkleLevel, ih (by omega)]
  | case2 single => simp at even
  | case3 => rfl

/-- The last of an odd number of leaves can be doubled without a trace. -/
theorem calculateMerkleRoot_duplicate {transactions} (present : transactions ≠ [])
    (even : transactions.length % 2 = 0) (last : Transaction) :
    calculateMerkleRoot sha3 (transactions ++ [last, last]) =
      calculateMerkleRoot sha3 (transactions ++ [last]) := by
  have positive := length_pos_iff.mpr present
  have tops : merkleTop sha3 ((transactions ++ [last, last]).map (txPayload sha3)) =
      merkleTop sha3 ((transactions ++ [last]).map (txPayload sha3)) := by
    rw [merkleTop, if_pos (by simp), merkleTop.eq_def sha3 (map _ (transactions ++ [last])),
      if_pos (by simpa using positive), List.map_append, List.map_append]
    congr 1
    exact merkleLevel_duplicate (by simpa using even) _
  rw [calculateMerkleRoot, calculateMerkleRoot, tops]

theorem merkleTop_pair (left right : Hash32) : merkleTop sha3 [left, right] = [sha3 (left.toList ++ right.toList)] := by
  rw [merkleTop, if_pos (by simp), merkleLevel, merkleLevel, merkleTop, if_neg (by simp)]

theorem merkleInputs_pair (left right : Hash32) : merkleInputs sha3 [left, right] = [left.toList ++ right.toList] := by
  rw [merkleInputs, if_pos (by simp), merkleLevel, merkleLevel, merkleInputs, if_neg (by simp)]
  rfl

end

/-- A digest that tells apart what a small block hashes, for evaluation only. -/
def tagHash (bytes : Bytes) : Hash32 :=
  Vector.ofFn fun i => if i.val = 0 then UInt8.ofNat bytes.length else if i.val = 1 then bytes.headD 0 else 0

def tagHashes : Hashes := ⟨tagHash, tagHash, tagHash⟩

def transferFrom (sender : String) (nonce : U64) (signature : Bytes) : Transaction :=
  ⟨"BLEEP", sender, "carol", 40, 7, nonce, signature⟩

variable (signature : Bytes)

def pairBlock : Block where
  index := 1
  timestamp := 8
  chainId := "BLEEP"
  previousHash := "parent"
  merkleRoot := Hex.encode (tagHash ((txPayload tagHash (transferFrom "alice" 0 [])).toList ++
    (txPayload tagHash (transferFrom "bob" 0 [])).toList)).toList
  validatorSignature := []
  zkProof := []
  epochId := 0
  consensusMode := .posNormal
  protocolVersion := 4
  shardRegistryRoot := ""
  shardId := 0
  shardStateRoot := ""
  sigCommitmentRoot := Vector.replicate 32 0
  transactions := [transferFrom "alice" 0 signature, transferFrom "bob" 0 signature]

theorem pairBlock_verified :
    verifyMerkleRoot tagHashes (pairBlock signature) = true := by
  refine beq_of_eq ?_
  have top : merkleTop tagHash ((pairBlock signature).transactions.map (txPayload tagHash)) = _ := merkleTop_pair _ _
  rw [calculateMerkleRoot]
  simp only [tagHashes, top]
  rfl

def pairInputs : List Bytes :=
  [(pairBlock []).toBlockHeader.canonicalHashPreimage tagHash, utf8 (pairBlock []).merkleRoot,
    (transferFrom "alice" 0 []).hashInput, (transferFrom "bob" 0 []).hashInput,
    (txPayload tagHash (transferFrom "alice" 0 [])).toList ++ (txPayload tagHash (transferFrom "bob" 0 [])).toList]

theorem pairBlock_hashInputs : (pairBlock signature).hashInputs tagHash = pairInputs := by
  have nodes : merkleInputs tagHash ((pairBlock signature).transactions.map (txPayload tagHash)) = _ :=
    merkleInputs_pair _ _
  rw [hashInputs, nodes]
  rfl

theorem tagHash_separates : Set.InjOn tagHash { input |
    input ∈ (pairBlock [1]).hashInputs tagHash ∨ input ∈ (pairBlock [2]).hashInputs tagHash } := by
  have apart : (pairInputs.map tagHash).Nodup := by decide +kernel
  intro input seen input' seen' same
  simp only [pairBlock_hashInputs, Set.mem_ofPred_eq, or_self] at seen seen'
  exact inj_on_of_nodup_map apart seen seen' same

/-- Two blocks with one hash, which differ in their signatures only. -/
theorem pairBlock_bound : (pairBlock [1]).computeHash tagHash = (pairBlock [2]).computeHash tagHash ∧
    (pairBlock [1]).transactions ≠ (pairBlock [2]).transactions ∧
    (pairBlock [1]).transactions.map unsigned = (pairBlock [2]).transactions.map unsigned := by
  have fits (signature : Bytes) : ∀ tx ∈ (pairBlock signature).transactions, tx.Fits := by
    intro tx listed
    simp only [pairBlock, mem_cons, not_mem_nil, or_false] at listed
    have chainId : (utf8 "BLEEP").length < 2 ^ 64 := by decide
    have alice : (utf8 "alice").length < 2 ^ 64 := by decide
    have bob : (utf8 "bob").length < 2 ^ 64 := by decide
    have carol : (utf8 "carol").length < 2 ^ 64 := by decide
    rcases listed with rfl | rfl
    · exact ⟨chainId, alice, carol⟩
    · exact ⟨chainId, bob, carol⟩
  exact ⟨rfl, by decide, (block_hash_binds_iff (pairBlock_verified [1]) (pairBlock_verified [2]) (fits [1]) (fits [2])
    tagHash_separates rfl).mpr rfl⟩

def threePayments : List Transaction := [transferFrom "alice" 0 [], transferFrom "alice" 1 [], transferFrom "bob" 0 []]
def fourPayments : List Transaction :=
  [transferFrom "alice" 0 [], transferFrom "alice" 1 [], transferFrom "bob" 0 [], transferFrom "bob" 0 []]

/-- Whatever the digest is, a block of three transactions and the one in which
the last of them comes twice verify and have the same hash. -/
theorem doubled_payment_same_hash : ∃ three four : (Bytes → Hash32) → Block, ∀ hashes : Hashes,
    (three hashes.sha3).transactions = threePayments ∧ (four hashes.sha3).transactions = fourPayments ∧
    verifyMerkleRoot hashes (three hashes.sha3) = true ∧
    verifyMerkleRoot hashes (four hashes.sha3) = true ∧
    (three hashes.sha3).computeHash hashes.sha3 = (four hashes.sha3).computeHash hashes.sha3 ∧
    threePayments.map unsigned ≠ fourPayments.map unsigned := by
  let block (transactions : List Transaction) (sha3 : Bytes → Hash32) : Block :=
    withConsensusAndSharding sha3 8 1 transactions "parent" 0 .posNormal 4 "" 0 ""
  refine ⟨block threePayments, block fourPayments, fun hashes => ⟨rfl, rfl, beq_self_eq_true _, beq_self_eq_true _, ?_,
    by decide⟩⟩
  have root : calculateMerkleRoot hashes.sha3 fourPayments = calculateMerkleRoot hashes.sha3 threePayments :=
    @calculateMerkleRoot_duplicate hashes.sha3 [transferFrom "alice" 0 [], transferFrom "alice" 1 []] (by simp) rfl _
  simp only [block, computeHash, withConsensusAndSharding, root]

end Bleep
