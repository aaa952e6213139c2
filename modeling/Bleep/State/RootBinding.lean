import Bleep.State.Restart
import Bleep.Trie.Proofs

namespace Bleep
open HashTable StateManager SparseTree List Set

section
variable (codec : Codec) (blake3 : Bytes → Hash32) (utf8Error : Bytes → String) (seen : Set String)

/-- The states a node can bring its manager into, with the states its
checkpoints were taken of: calls, checkpoints, checkpoints restored before a
durable write, and restarts on the database. -/
inductive ManagerReach : StateManager → List StateManager → Prop
  | start : ManagerReach .empty []
  | call {state : StateManager} {saved : List StateManager} (call : StateCall) (reach : ManagerReach state saved)
      (within : call.Within seen) : ManagerReach (call.apply codec blake3 state) saved
  | checkpoint {state : StateManager} {saved : List StateManager} (reach : ManagerReach state saved) :
      ManagerReach state (state :: saved)
  | restore {state taken : StateManager} {saved : List StateManager} (reach : ManagerReach state saved)
      (held : taken ∈ saved) (inTime : taken.db = state.db) :
      ManagerReach (state.restoreCheckpoint taken.checkpoint) saved
  | restart {state reopened : StateManager} {saved : List StateManager} (reach : ManagerReach state saved)
      (opened : openDb codec blake3 utf8Error state.db = .ok reopened) : ManagerReach reopened []

end

variable {codec : Codec} {blake3 : Bytes → Hash32} {utf8Error : Bytes → String} {seen : Set String}
  {state : StateManager} {saved : List StateManager} {accounts accounts' : String → Option (U128 × U64)}

/-- What a run keeps, restarts included: every stored account is known. -/
structure Known (codec : Codec) (blake3 : Bytes → Hash32) (seen : Set String) (state : StateManager) : Prop where
  kept : Kept codec blake3 seen state
  stored : ∀ address, (storedAccount codec state.db address).leaf.isSome → address ∈ seen

theorem Known.call {call : StateCall} (known : Known codec blake3 seen state)
    (keys : Set.InjOn (keyToPath blake3) seen) (within : call.Within seen) :
    Known codec blake3 seen (call.apply codec blake3 state) := by
  have kept := known.kept.call keys within
  refine ⟨kept, fun address occupied => ?_⟩
  cases commits : call.commits codec blake3 state with
  | true =>
    rw [(durable_of_commits keys known.kept within commits).accounts] at occupied
    exact kept.synced.known occupied
  | false =>
    rw [(frame_of_not_commits commits).1] at occupied
    exact known.stored address occupied

theorem Known.restart {reopened} (known : Known codec blake3 seen state)
    (keys : Set.InjOn (keyToPath blake3) seen) (opened : openDb codec blake3 utf8Error state.db = .ok reopened) :
    Known codec blake3 seen reopened := by
  obtain ⟨keyed, height, db, -⟩ := openDb_ok opened
  obtain ⟨again, same, -, -, -, synced⟩ :=
    @openDb_synced codec blake3 utf8Error seen state.db _ keys keyed height known.stored
  obtain rfl : again = reopened := Except.ok.inj (same.symm.trans opened)
  exact ⟨⟨synced, db ▸ keyed⟩, db ▸ known.stored⟩

theorem ManagerReach.known (keys : Set.InjOn (keyToPath blake3) seen)
    (reach : ManagerReach codec blake3 utf8Error seen state saved) :
    Known codec blake3 seen state ∧ ∀ taken ∈ saved, Known codec blake3 seen taken := by
  induction reach with
  | start =>
    refine ⟨⟨⟨empty_synced, fun _ _ found => ?_⟩, fun _ occupied => ?_⟩, fun _ none => absurd none not_mem_nil⟩
    · cases found
    · cases occupied
  | call call _ within ih => exact ⟨ih.1.call keys within, ih.2⟩
  | checkpoint _ ih => exact ⟨ih.1, forall_mem_cons.mpr ih⟩
  | @restore state taken _ _ held inTime ih =>
    have restored : state.restoreCheckpoint taken.checkpoint = taken := by
      rw [restoreCheckpoint, ← inTime]
      rfl
    rw [restored]
    exact ⟨ih.2 taken held, ih.2⟩
  | restart _ opened ih => exact ⟨ih.1.restart keys opened, fun _ none => absurd none not_mem_nil⟩

section Binding

def leafBytes (address : String) (account : U128 × U64) : Bytes :=
  utf8 address ++ Words.leBytes 16 account.1.toNat ++ le64 account.2

theorem leafBytes_injective (address : String) : Function.Injective (leafBytes address) := by
  rintro ⟨balance, nonce⟩ ⟨balance', nonce'⟩ same
  obtain ⟨front, last⟩ := append_inj' same (by simp)
  have values := congrArg Words.fromLeBytes (append_cancel_left front)
  rw [Words.fromLeBytes_leBytes, Words.fromLeBytes_leBytes] at values
  refine Prod.ext (BitVec.eq_of_toNat_eq ?_) (le64_injective last)
  omega

/-- The inputs hashed for the root over a map of accounts: its leaves and the
pairs of children above them. -/
def rootHashed (blake3 : Bytes → Hash32) (accounts : String → Option (U128 × U64)) : Set Bytes :=
  { input | ∃ address account, accounts address = some account ∧ input = leafBytes address account } ∪
    childBytes '' treePairs emptyNode (interiorHash blake3) (accountLeaf blake3 accounts) 256

theorem accountLeaf_sentinel (nonzero : ∀ input, blake3 input ≠ emptyNode) :
    Sentinel emptyNode (interiorHash blake3) 256 (accountLeaf blake3 accounts) := by
  refine ⟨interiorHash_ne nonzero, fun key value found => ?_, fun key present => ?_⟩ <;> unfold accountLeaf at *
  · split at found
    · cases found
      exact nonzero _
    · cases found
  · split at present
    · rename_i stored
      rw [← stored.choose_spec.2, prefixBits_length]
    · cases present

theorem accountLeaf_prefixBits (keys : Set.InjOn (keyToPath blake3) seen)
    (known : ∀ address, (accounts address).isSome → address ∈ seen) {address} (inside : address ∈ seen) :
    accountLeaf blake3 accounts (prefixBits (keyToPath blake3 address) 256) =
      (accounts address).map fun account => blake3 (leafBytes address account) := by
  unfold accountLeaf
  split
  · rename_i present
    obtain ⟨stored, path⟩ := present.choose_spec
    have same : present.choose.1 = address :=
      keys (known _ (by rw [stored]; rfl)) inside (prefixBits_injective path)
    rw [same] at stored
    rw [stored, same]
    rfl
  · rename_i absent
    cases found : accounts address with
    | none => rfl
    | some account => exact absurd ⟨(address, account), found, rfl⟩ absent

/-- Without collisions the root determines the accounts it shows. -/
theorem accounts_eq_of_referenceRoot_eq (nonzero : ∀ input, blake3 input ≠ emptyNode)
    (keys : Set.InjOn (keyToPath blake3) seen) (known : ∀ address, (accounts address).isSome → address ∈ seen)
    (known' : ∀ address, (accounts' address).isSome → address ∈ seen)
    (collisions : Set.InjOn blake3 (rootHashed blake3 accounts ∪ rootHashed blake3 accounts'))
    (same : referenceRoot blake3 accounts = referenceRoot blake3 accounts') : accounts = accounts' := by
  have pairs : Set.InjOn (fun pair : NodeHash × NodeHash => interiorHash blake3 pair.1 pair.2)
      (treePairs emptyNode (interiorHash blake3) (accountLeaf blake3 accounts) 256 ∪
        treePairs emptyNode (interiorHash blake3) (accountLeaf blake3 accounts') 256) := by
    have images := collisions.mono (union_subset_union subset_union_right subset_union_right)
    rw [← image_union] at images
    exact images.comp childBytes_injective.injOn (mapsTo_image childBytes _)
  funext address
  by_cases inside : address ∈ seen
  case neg =>
    have vacant {accounts : String → Option (U128 × U64)}
        (known : ∀ address, (accounts address).isSome → address ∈ seen) : accounts address = none :=
      Option.not_isSome_iff_eq_none.mp fun present => inside (known address present)
    rw [vacant known, vacant known']
  have leaves : accountLeaf blake3 accounts ([] ++ prefixBits (keyToPath blake3 address) 256) = _ :=
    leaf_eq_of_subtree_eq (accountLeaf_sentinel nonzero) (accountLeaf_sentinel nonzero) (by simp) pairs
      (by rw [prefixBits_length]; exact same)
  rw [nil_append, accountLeaf_prefixBits keys known inside, accountLeaf_prefixBits keys known' inside] at leaves
  cases first : accounts address with
  | none =>
    rw [first] at leaves
    exact (Option.map_eq_none_iff.mp leaves.symm).symm
  | some account =>
    rw [first] at leaves
    obtain ⟨account', second, hashes⟩ := Option.map_eq_some_iff.mp leaves.symm
    have bytes := collisions (.inr (.inl ⟨address, account', second, rfl⟩))
      (.inl (.inl ⟨address, account, first, rfl⟩)) hashes
    rw [second, leafBytes_injective address bytes]

theorem leaf_eq_iff {account account' : AccountState} :
    account.leaf = account'.leaf ↔ account.balance = account'.balance ∧ account.nonce = account'.nonce := by
  grind [AccountState.leaf]

end Binding

/-- Bob has the given balance and code. -/
def deployed (balance : U128) (hash : Hash32) : StateManager :=
  (StateManager.empty.setBalance fixedWidthCodec "bob" balance).setCodeHash fixedWidthCodec "bob" hash

theorem deployed_reached (balance : U128) (hash : Hash32) :
    ManagerReach fixedWidthCodec markedHash (fun _ => "") {"bob"} (deployed balance hash) [] :=
  .call (.setCodeHash "bob" hash) (.call (.setBalance "bob" balance) .start fun _ => mem_singleton.mp)
    fun _ => mem_singleton.mp

end Bleep
