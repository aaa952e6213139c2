import Bleep.Trie.Levels

namespace Bleep
open HashTable SparseTree SparseMerkleTrie List AList Function

/-- What holds of a trie between calls: every leaf is a digest, and a cached
root is the reference root with a full cache beside it. -/
structure SparseMerkleTrie.Coherent (blake3 : Bytes → Hash32) (trie : SparseMerkleTrie) : Prop where
  hashed : ∀ path value, trie.leaves.lookup path = some value → ∃ input, value = blake3 input
  cached : ∀ root, trie.cachedRoot = some root →
    root = leavesRoot blake3 trie.leaves ∧ CacheHolds blake3 trie.leaves 0 trie.interiorCache

/-- The calls of the public interface. Each reading call meets its own
iteration orders. -/
inductive TrieOp
  | insert (address : String) (balance : U128) (nonce : U64)
  | remove (address : String)
  | root (σ : IterOrder)
  | prove (σ : IterOrder) (address : String)

section
variable (blake3 : Bytes → Hash32)

def TrieOp.apply (trie : SparseMerkleTrie) : TrieOp → SparseMerkleTrie
  | insert address balance nonce => trie.insert blake3 address balance nonce
  | remove address => trie.remove blake3 address
  | root σ => (trie.root blake3 σ).2
  | prove σ address => (trie.prove blake3 σ address).2

def runTrie (ops : List TrieOp) : SparseMerkleTrie := ops.foldl (TrieOp.apply blake3) .new

end

def TrieOp.writes : TrieOp → List String
  | insert address _ _ => [address]
  | remove address => [address]
  | root _ => []
  | prove _ _ => []

/-- The map from addresses to balance and nonce that the calls describe. -/
def TrieOp.record (accounts : String → Option (U128 × U64)) : TrieOp → String → Option (U128 × U64)
  | insert address balance nonce => Function.update accounts address (some (balance, nonce))
  | remove address => Function.update accounts address none
  | root _ => accounts
  | prove _ _ => accounts

def accountsAfter (ops : List TrieOp) : String → Option (U128 × U64) := ops.foldl TrieOp.record fun _ => none

variable {blake3 : Bytes → Hash32} {trie : SparseMerkleTrie} {σ : IterOrder}

theorem root_leaves (σ : IterOrder) (trie : SparseMerkleTrie) : (trie.root blake3 σ).2.leaves = trie.leaves := by
  unfold root
  split <;> rfl

/-- The root of a coherent trie is the reference root, cached or not, and
the trie it leaves behind has a full cache. -/
theorem SparseMerkleTrie.Coherent.root_spec (coherent : trie.Coherent blake3) :
    (trie.root blake3 σ).1 = leavesRoot blake3 trie.leaves ∧
      CacheHolds blake3 trie.leaves 0 (trie.root blake3 σ).2.interiorCache ∧
      (trie.root blake3 σ).2.Coherent blake3 := by
  unfold root
  split
  · rename_i r stored
    obtain ⟨same, cache⟩ := coherent.cached r stored
    exact ⟨same, cache, coherent⟩
  · obtain ⟨same, cache⟩ := @computeRootWithCache_spec blake3 σ { trie with interiorCache := ∅ } rfl
    refine ⟨same, cache, coherent.hashed, ?_⟩
    rintro root stored
    cases stored
    exact ⟨same, cache⟩

theorem lookup_insert_leaves (address : String) (balance : U128) (nonce : U64) (path : Hash32) :
    (trie.insert blake3 address balance nonce).leaves.lookup path =
      if path = keyToPath blake3 address then some (leafHash blake3 address balance nonce)
      else trie.leaves.lookup path := by
  change lookup path (insert _ _ trie.leaves) = _
  split
  · rename_i here
    rw [here, lookup_insert]
  · rename_i other
    rw [lookup_insert_ne other]

theorem lookup_remove_leaves (address : String) (path : Hash32) :
    (trie.remove blake3 address).leaves.lookup path =
      if path = keyToPath blake3 address then none else trie.leaves.lookup path := by
  change lookup path (erase _ trie.leaves) = _
  split
  · rename_i here
    rw [here, lookup_erase]
  · rename_i other
    rw [lookup_erase_ne other]

theorem SparseMerkleTrie.Coherent.insert (coherent : trie.Coherent blake3) (address : String) (balance : U128)
    (nonce : U64) : (trie.insert blake3 address balance nonce).Coherent blake3 := by
  refine ⟨fun path value found => ?_, fun root stored => by cases stored⟩
  rw [lookup_insert_leaves] at found
  split at found
  · cases found
    exact ⟨_, rfl⟩
  · exact coherent.hashed path value found

theorem SparseMerkleTrie.Coherent.remove (coherent : trie.Coherent blake3) (address : String) :
    (trie.remove blake3 address).Coherent blake3 := by
  refine ⟨fun path value found => ?_, fun root stored => by cases stored⟩
  rw [lookup_remove_leaves] at found
  split at found
  · cases found
  · exact coherent.hashed path value found

theorem SparseMerkleTrie.new_coherent : new.Coherent blake3 :=
  ⟨fun _ _ found => (by cases found), fun _ stored => (by cases stored)⟩

theorem SparseMerkleTrie.Coherent.apply (coherent : trie.Coherent blake3) (op : TrieOp) :
    (op.apply blake3 trie).Coherent blake3 := by
  cases op with
  | insert address balance nonce => exact coherent.insert address balance nonce
  | remove address => exact coherent.remove address
  | root σ => exact coherent.root_spec.2.2
  | prove σ address => exact coherent.root_spec.2.2

theorem runTrie_coherent (ops : List TrieOp) : (runTrie blake3 ops).Coherent blake3 :=
  foldlRecOn (motive := SparseMerkleTrie.Coherent blake3) ops _ new_coherent fun _ coherent op _ => coherent.apply op

/-- The leaves are exactly the accounts, each at the path of its address. -/
def Represents (blake3 : Bytes → Hash32) (leaves : HashMap Hash32 NodeHash)
    (accounts : String → Option (U128 × U64)) : Prop :=
  ∀ path value, leaves.lookup path = some value ↔
    ∃ address balance nonce, accounts address = some (balance, nonce) ∧ keyToPath blake3 address = path ∧
      value = leafHash blake3 address balance nonce

variable {accounts : String → Option (U128 × U64)} {leaves : HashMap Hash32 NodeHash} {seen : Set String}
  {ops : List TrieOp}

/-- Writing one account keeps the representation, as long as the addresses
seen so far have distinct paths. -/
theorem Represents.update {written address account}
    (represents : Represents blake3 leaves accounts) (known : ∀ a, (accounts a).isSome → a ∈ seen)
    (own : address ∈ seen) (injective : Set.InjOn (keyToPath blake3) seen)
    (write : ∀ path, written.lookup path = if path = keyToPath blake3 address then
      account.map fun state => leafHash blake3 address state.1 state.2 else leaves.lookup path) :
    Represents blake3 written (Function.update accounts address account) := by
  intro path value
  rw [write]
  split
  · rename_i here
    subst here
    constructor
    · intro stored
      obtain ⟨⟨balance, nonce⟩, rfl, rfl⟩ := Option.map_eq_some_iff.mp stored
      exact ⟨address, balance, nonce, update_self .., rfl, rfl⟩
    · rintro ⟨other, balance, nonce, stored, same, rfl⟩
      by_cases equal : other = address
      · subst equal
        rw [update_self] at stored
        rw [stored]
        rfl
      · rw [update_of_ne equal] at stored
        exact absurd (injective (known other (by rw [stored]; rfl)) own same) equal
  · rename_i elsewhere
    rw [represents path value]
    refine exists_congr fun other => exists_congr fun balance => exists_congr fun nonce => ?_
    by_cases equal : other = address
    · subst equal
      exact ⟨fun found => absurd found.2.1.symm elsewhere, fun found => absurd found.2.1.symm elsewhere⟩
    · rw [update_of_ne equal]

theorem runTrie_represents (injective : Set.InjOn (keyToPath blake3) seen)
    (writes : ∀ op ∈ ops, ∀ a ∈ op.writes, a ∈ seen) :
    Represents blake3 (runTrie blake3 ops).leaves (accountsAfter ops) ∧
      ∀ a, (accountsAfter ops a).isSome → a ∈ seen := by
  induction ops using reverseRecOn with
  | nil =>
    refine ⟨fun path value => ⟨fun found => (by cases found), ?_⟩, fun a present => (by cases present)⟩
    rintro ⟨_, _, _, stored, -⟩
    cases stored
  | append_singleton ops op ih =>
    obtain ⟨represents, known⟩ := ih fun o member => writes o (mem_append_left _ member)
    have own := writes op (mem_append_right _ (mem_singleton_self _))
    rw [runTrie, accountsAfter, foldl_append, foldl_append, foldl_cons, foldl_cons,
      foldl_nil, foldl_nil, ← runTrie, ← accountsAfter]
    have grow (address : String) (account : Option (U128 × U64)) (inside : address ∈ seen) :
        ∀ a, (update (accountsAfter ops) address account a).isSome → a ∈ seen := by
      intro a present
      by_cases equal : a = address
      · exact equal ▸ inside
      · rw [update_of_ne equal] at present
        exact known a present
    cases op with
    | insert address balance nonce =>
      have inside := own address (mem_singleton_self _)
      exact ⟨represents.update known inside injective fun path => lookup_insert_leaves .., grow address _ inside⟩
    | remove address =>
      have inside := own address (mem_singleton_self _)
      exact ⟨represents.update known inside injective fun path => lookup_remove_leaves .., grow address _ inside⟩
    | root σ => exact ⟨(root_leaves σ (runTrie blake3 ops)).symm ▸ represents, known⟩
    | prove σ address => exact ⟨(root_leaves σ (runTrie blake3 ops)).symm ▸ represents, known⟩

open Classical in
/-- The leaf of the reference trie at a full path: the account whose address
hashes to it. -/
noncomputable def accountLeaf (blake3 : Bytes → Hash32) (accounts : String → Option (U128 × U64))
    (bits : List Bool) : Option NodeHash :=
  if present : ∃ leaf : String × U128 × U64,
      accounts leaf.1 = some leaf.2 ∧ prefixBits (keyToPath blake3 leaf.1) 256 = bits then
    some (leafHash blake3 present.choose.1 present.choose.2.1 present.choose.2.2)
  else none

/-- The root of the trie over a map of accounts, by recursion from the top. -/
noncomputable def referenceRoot (blake3 : Bytes → Hash32) (accounts : String → Option (U128 × U64)) : NodeHash :=
  subtree emptyNode (interiorHash blake3) (accountLeaf blake3 accounts) 256 []

theorem Represents.leafMap_eq (represents : Represents blake3 leaves accounts)
    : leafMap leaves = accountLeaf blake3 accounts := by
  funext bits
  unfold accountLeaf
  split
  · rename_i present
    obtain ⟨stored, atBits⟩ := present.choose_spec
    have found := (represents _ _).mpr ⟨_, _, _, stored, rfl, rfl⟩
    rw [← leafMap_prefixBits, atBits] at found
    exact found
  · rename_i absent
    rw [Option.eq_none_iff_forall_ne_some]
    intro value found
    obtain ⟨path, rfl, -⟩ := leafMap_isSome (by rw [found]; rfl)
    rw [leafMap_prefixBits] at found
    obtain ⟨address, balance, nonce, stored, rfl, -⟩ := (represents path value).mp found
    exact absent ⟨(address, balance, nonce), stored, rfl⟩

theorem runTrie_root (injective : Set.InjOn (keyToPath blake3) { a | a ∈ ops.flatMap TrieOp.writes }) :
    ((runTrie blake3 ops).root blake3 σ).1 = referenceRoot blake3 (accountsAfter ops) := by
  have within : ∀ op ∈ ops, ∀ a ∈ op.writes, a ∈ { a | a ∈ ops.flatMap TrieOp.writes } :=
    fun op member a written => mem_flatMap.mpr ⟨op, member, written⟩
  rw [(runTrie_coherent ops).root_spec.1, leavesRoot, (runTrie_represents injective within).1.leafMap_eq, referenceRoot]

/-- After any calls, in any iteration orders, the root is the one of the
reference trie over the map the calls describe. So it depends neither on the
order of the calls nor on the reads between them. -/
theorem root_eq_reference {ops : List TrieOp}
    (injective : Set.InjOn (keyToPath blake3) { a | a ∈ ops.flatMap TrieOp.writes }) (σ : IterOrder) :
    ((runTrie blake3 ops).root blake3 σ).1 = referenceRoot blake3 (accountsAfter ops) ∧
      ∀ (ops' : List TrieOp) (σ' : IterOrder),
        Set.InjOn (keyToPath blake3) { a | a ∈ ops'.flatMap TrieOp.writes } →
        accountsAfter ops' = accountsAfter ops →
        ((runTrie blake3 ops').root blake3 σ').1 = ((runTrie blake3 ops).root blake3 σ).1 := by
  refine ⟨runTrie_root injective, fun ops' σ' injective' same => ?_⟩
  rw [runTrie_root injective', runTrie_root injective, same]

/-- A stand-in digest: a marker byte, then the input cut to 31 bytes. It is
never all-zero and has no collision on short inputs. -/
def markedHash (input : Bytes) : Hash32 := Vector.ofFn fun i => if i.val = 0 then 1 else input.getD (i.val - 1) 0

theorem markedHash_ne (input : Bytes) : markedHash input ≠ emptyNode := by
  intro same
  have first := congrArg (fun hash : Hash32 => hash.getD 0 0) same
  simp [markedHash, emptyNode, Vector.getD] at first

def sampleOps : List TrieOp :=
  [.insert "alice" 100 0, .root .stored, .insert "bob" 7 3, .prove .stored "carol", .remove "alice"]

theorem sampleOps_root :
    ((runTrie markedHash sampleOps).root markedHash .stored).1 =
      referenceRoot markedHash (accountsAfter sampleOps) := by
  have distinct : ∀ a ∈ sampleOps.flatMap TrieOp.writes, ∀ b ∈ sampleOps.flatMap TrieOp.writes,
      keyToPath markedHash a = keyToPath markedHash b → a = b := by
    decide
  exact (root_eq_reference (fun a left b right => distinct a left b right) .stored).1

end Bleep
