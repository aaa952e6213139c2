import Bleep.Producer.PhaseB
import Bleep.State.TrieSync

namespace Bleep
open HashTable Words StateManager Transaction Attempt List

/-- Two managers with the same balances and nonces, whatever they cache. -/
def SameAccounts (codec : Codec) (left right : StateManager) : Prop :=
  ∀ address, left.getBalance codec address = right.getBalance codec address ∧
    left.getNonce codec address = right.getNonce codec address

variable {producer : BlockProducer} {codec : Codec} {state left right : StateManager} {attempt : Attempt}
  {pending : List Attempt} {seen : Set String}

theorem SameAccounts.accounts (same : SameAccounts codec left right) :
    left.accounts codec = right.accounts codec := by
  funext address
  obtain ⟨balance, nonce⟩ := same address
  change (left.getAccount codec address).balance = (right.getAccount codec address).balance at balance
  change (left.getAccount codec address).nonce = (right.getAccount codec address).nonce at nonce
  rw [StateManager.accounts, StateManager.accounts, AccountState.leaf, AccountState.leaf, balance, nonce]

variable {receiver sender : String} {tx : Transaction} {rest : List Attempt} {next : StateManager}
  {blake3 : Bytes → Hash32}

theorem SameAccounts.transferred (same : SameAccounts codec left right) (sender receiver : String) (amount : U128)
    (nonce : U64) :
    SameAccounts codec (left.transferred codec sender receiver amount nonce)
      (right.transferred codec sender receiver amount nonce) := by
  intro address
  rw [getBalance_transferred, getBalance_transferred, getNonce_transferred, getNonce_transferred,
    (same sender).1, (same receiver).1, (same address).1, (same address).2]
  exact ⟨rfl, rfl⟩

/-- The native side of an accepted transaction. -/
def BlockProducer.native (producer : BlockProducer) (state : StateManager) (tx : Transaction) : StateManager :=
  state.transferred producer.codec tx.sender tx.receiver (tx.amount.setWidth 128) tx.nonce

theorem execute_accepted {router verifySignature diff}
    (accepted : attempt.execute router verifySignature = (true, diff)) :
    diff = transferDiff attempt.tx.toTransferIntent := by
  unfold execute at accepted
  split at accepted
  · rename_i outcome routed
    have carried := VmRouter.route_ok routed
    have same := (Prod.mk.inj accepted).2
    exact same.symm.trans carried
  · cases accepted

theorem Transaction.foreign_of_authorized {hashes sphincs}
    (authorized : tx.verifyAccountAuthorization hashes sphincs = true) (bytes : Bytes) :
    Hex.encode bytes ≠ tx.sender := by
  -- The sender starts with a capital letter.
  obtain ⟨pk, derived⟩ := authorized_sender authorized
  intro same
  have member := mem_deriveAccountAddress hashes.sha256 pk
  rw [derived, ← same, Hex.encode, String.toList_ofList] at member
  obtain ⟨n, small, digit⟩ := Hex.chars_lower member
  interval_cases n <;> exact absurd digit (by decide)

/-- What it means that the block takes a transaction: the transfer is applied,
then the VM diff, which keeps the nonces and, if it is inert, the balances. -/
structure BlockProducer.Takes (producer : BlockProducer) (state : StateManager) (attempt : Attempt)
    (next : StateManager) : Prop where
  settled : producer.settle state attempt = (true, next)
  result : next = applyVmDiff producer.codec attempt.tx (producer.native state attempt.tx)
    (transferDiff attempt.tx.toTransferIntent)
  admits : state.Admits producer.codec attempt.tx.sender attempt.tx.receiver (attempt.tx.amount.setWidth 128)
    attempt.tx.nonce
  nonces : ∀ address, next.getNonce producer.codec address =
    (producer.native state attempt.tx).getNonce producer.codec address
  balances : (∀ address, next.getBalance producer.codec address =
      (producer.native state attempt.tx).getBalance producer.codec address) ↔
    VmWritesInert producer.codec (producer.native state attempt.tx) attempt.tx

/-- A transaction is dropped without a trace, or the block takes it. -/
theorem BlockProducer.settle_cases (producer : BlockProducer) (state : StateManager) (attempt : Attempt) :
    producer.settle state attempt = (false, state) ∨ ∃ next, producer.Takes state attempt next := by
  rcases vm : attempt.execute producer.router producer.verifySignature with ⟨vmOk, diff⟩
  by_cases passed : (!vmOk || attempt.tx.chainId != producer.config.chainId
      || !attempt.tx.verifyAccountAuthorization producer.hashes producer.sphincs
      || state.getNonce producer.codec attempt.tx.sender != attempt.tx.nonce) = true
  · left
    rw [settle, vm]
    exact if_pos passed
  rcases applyTransfer_cases producer.codec attempt.now state attempt.tx.sender attempt.tx.receiver
    (attempt.tx.amount.setWidth 128) attempt.tx.nonce attempt.tx.timestamp with refused | ⟨accepted, admits⟩
  · left
    rw [settle, vm]
    refine (if_neg passed).trans ?_
    rw [refused]
  · right
    have step : producer.settle state attempt =
        (true, applyVmDiff producer.codec attempt.tx (producer.native state attempt.tx) diff) := by
      rw [settle, vm]
      refine (if_neg passed).trans ?_
      rw [accepted]
      rfl
    simp only [Bool.or_eq_true, Bool.not_eq_true', not_or, Bool.not_eq_false] at passed
    obtain ⟨⟨⟨ok, -⟩, authorized⟩, -⟩ := passed
    rw [ok] at vm
    rw [execute_accepted vm] at step
    exact ⟨_, step, rfl, admits, getNonce_applyVmDiff _,
      vmWritesInert_iff (foreign_of_authorized authorized) fun zero => admits.positive (by rw [zero]; rfl)⟩

/-- The VM side of every transaction the block takes is without effect, in
the state it meets. -/
def BlockProducer.Inert (producer : BlockProducer) (state : StateManager) : List Attempt → Prop
  | [] => True
  | attempt :: rest =>
    ((producer.settle state attempt).1 = true →
        VmWritesInert producer.codec (producer.native state attempt.tx) attempt.tx) ∧
      producer.Inert (producer.settle state attempt).2 rest

theorem BlockProducer.phaseB_refused (refused : producer.settle state attempt = (false, state)) :
    producer.phaseB state (attempt :: rest) = producer.phaseB state rest := by
  rw [phaseB, refused]
  rfl

theorem BlockProducer.phaseB_accepted (accepted : producer.settle state attempt = (true, next)) :
    producer.phaseB state (attempt :: rest) =
      (attempt.tx :: (producer.phaseB next rest).1, (producer.phaseB next rest).2) := by
  rw [phaseB, accepted]
  rfl

/-- Over the same accounts, a taken transaction with an inert VM side ends
with the same accounts as its native transfer. -/
theorem BlockProducer.Takes.same (takes : producer.Takes left attempt next)
    (same : SameAccounts producer.codec left right)
    (inert : VmWritesInert producer.codec (producer.native left attempt.tx) attempt.tx) :
    SameAccounts producer.codec next (producer.native right attempt.tx) := by
  intro address
  rw [takes.balances.mpr inert, takes.nonces]
  exact same.transferred _ _ _ _ address

section
variable (same : SameAccounts producer.codec left right)
include same

theorem BlockProducer.applyTransfers_taken {rest}
    (admits : left.Admits producer.codec attempt.tx.sender attempt.tx.receiver (attempt.tx.amount.setWidth 128)
      attempt.tx.nonce) :
    right.applyTransfers producer.codec ((attempt.tx :: rest).map toCanonicalTransfer) =
      (producer.native right attempt.tx).applyTransfers producer.codec
        (rest.map toCanonicalTransfer) := by
  have admitted : right.Admits producer.codec attempt.tx.sender attempt.tx.receiver _ attempt.tx.nonce :=
    ⟨(same _).2 ▸ admits.next, admits.room, admits.positive, (same _).1 ▸ admits.covered, (same _).1 ▸ admits.fits⟩
  rw [applyTransfers_map_cons, if_pos admitted, native]

/-- A validator that replays the transfers of an inert run ends with the same
accounts. -/
theorem BlockProducer.Inert.replay (inert : producer.Inert left pending) :
    ∃ after, right.applyTransfers producer.codec
        ((producer.phaseB left pending).1.map toCanonicalTransfer) = (none, after) ∧
      SameAccounts producer.codec (producer.phaseB left pending).2 after := by
  induction pending generalizing left right with
  | nil => exact ⟨right, rfl, same⟩
  | cons attempt rest ih =>
    obtain ⟨here, later⟩ := inert
    rcases producer.settle_cases left attempt with refused | ⟨next, takes⟩
    · rw [refused] at later
      rw [phaseB_refused refused]
      exact ih same later
    · rw [takes.settled] at here later
      rw [phaseB_accepted takes.settled, applyTransfers_taken same takes.admits]
      exact ih (takes.same same (here rfl)) later

/-- If some VM side has an effect, then after that transaction no replay has
the producer's balances. -/
theorem BlockProducer.diverges_of_not_inert (active : ¬producer.Inert left pending) :
    ∃ start, start <+: pending ∧ (producer.phaseB left start).1 ≠ [] ∧
      ∀ after, right.applyTransfers producer.codec
          ((producer.phaseB left start).1.map toCanonicalTransfer) = (none, after) →
        ¬∀ address, (producer.phaseB left start).2.getBalance producer.codec address =
          after.getBalance producer.codec address := by
  induction pending generalizing left right with
  | nil => exact absurd trivial active
  | cons attempt rest ih =>
    rcases producer.settle_cases left attempt with refused | ⟨next, takes⟩
    · have later : ¬producer.Inert left rest := by
        intro inert
        refine active ⟨fun taken => ?_, ?_⟩
        · rw [refused] at taken
          cases taken
        · rw [refused]
          exact inert
      obtain ⟨start, inside, nonempty, differs⟩ := ih same later
      refine ⟨attempt :: start, (prefix_cons_inj attempt).mpr inside, ?_⟩
      rw [phaseB_refused refused]
      exact ⟨nonempty, differs⟩
    · by_cases here : VmWritesInert producer.codec (producer.native left attempt.tx) attempt.tx
      · have later : ¬producer.Inert next rest := by
          intro inert
          refine active ⟨fun _ => here, ?_⟩
          rw [takes.settled]
          exact inert
        obtain ⟨start, inside, -, differs⟩ := ih (takes.same same here) later
        refine ⟨attempt :: start, (prefix_cons_inj attempt).mpr inside, ?_⟩
        rw [phaseB_accepted takes.settled, applyTransfers_taken same takes.admits]
        exact ⟨cons_ne_nil _ _, differs⟩
      · -- the first transaction with an effect ends the prefix
        refine ⟨[attempt], (prefix_cons_inj attempt).mpr nil_prefix, ?_⟩
        rw [phaseB_accepted takes.settled, applyTransfers_taken same takes.admits]
        refine ⟨cons_ne_nil _ _, fun after loop kept => here (takes.balances.mp fun address => ?_)⟩
        cases loop
        exact (kept address).trans (same.transferred _ _ _ _ address).1.symm

end

theorem BlockProducer.Inert.of_append (inert : producer.Inert state (pending ++ rest)) :
    producer.Inert state pending := by
  induction pending generalizing state with
  | nil => exact trivial
  | cons attempt pending ih => exact ⟨inert.1, ih inert.2⟩

/-- The addresses whose accounts an attempt may write. -/
def Attempt.touches (attempt : Attempt) : List String :=
  [attempt.tx.sender, attempt.tx.receiver, mirror attempt.tx.sender, mirror attempt.tx.receiver]

theorem synced_applyVmDiff (synced : state.Synced codec blake3 seen) (sender : mirror tx.sender ∈ seen)
    (receiver : mirror tx.receiver ∈ seen) :
    (applyVmDiff codec tx state (transferDiff tx.toTransferIntent)).Synced codec blake3 seen := by
  rw [applyVmDiff_transferDiff]
  refine foldlRecOn (motive := fun after : StateManager => after.Synced codec blake3 seen) _ _ synced ?_
  rintro after kept ⟨key, delta⟩ listed
  have stored := mem_transferDiff.mp listed
  have inside : Hex.encode key ∈ seen := by
    split at stored
    · rename_i atKey
      exact atKey ▸ receiver
    · split at stored
      · rename_i atKey
        exact atKey ▸ sender
      · cases stored
  unfold applyVmBalance
  simp only
  split
  · exact kept
  · exact kept.setBalance inside _

theorem BlockProducer.phaseB_synced (synced : state.Synced producer.codec blake3 seen)
    (known : ∀ attempt ∈ pending, ∀ address ∈ attempt.touches, address ∈ seen) :
    (producer.phaseB state pending).2.Synced producer.codec blake3 seen := by
  induction pending generalizing state with
  | nil => exact synced
  | cons attempt rest ih =>
    obtain ⟨here, later⟩ := forall_mem_cons.mp known
    rcases producer.settle_cases state attempt with refused | ⟨next, takes⟩
    · rw [phaseB_refused refused]
      exact ih synced later
    · rw [phaseB_accepted takes.settled]
      refine ih ?_ later
      rw [takes.result]
      exact synced_applyVmDiff
        (synced.transferred (here _ (by simp [touches])) (here _ (by simp [touches])) _ _)
        (here _ (by simp [touches])) (here _ (by simp [touches]))

theorem BlockProducer.exists_of_mem_phaseB (member : tx ∈ (producer.phaseB state pending).1) :
    ∃ attempt ∈ pending, attempt.tx = tx := by
  induction pending generalizing state with
  | nil => cases member
  | cons attempt rest ih =>
    rcases producer.settle_cases state attempt with refused | ⟨next, takes⟩
    · rw [phaseB_refused refused] at member
      obtain ⟨other, inside, same⟩ := ih member
      exact ⟨other, mem_cons_of_mem _ inside, same⟩
    · rw [phaseB_accepted takes.settled] at member
      rcases mem_cons.mp member with here | later
      · exact ⟨attempt, mem_cons_self, here.symm⟩
      · obtain ⟨other, inside, same⟩ := ih later
        exact ⟨other, mem_cons_of_mem _ inside, same⟩

/-- A validator in the producer's state accepts the produced block in its
place and ends with the producer's balances, nonces and root. -/
def BlockProducer.Reproduces (producer : BlockProducer) (state : StateManager) (pending : List Attempt) : Prop :=
  let (blockTxs, produced) := producer.phaseB state pending
  blockTxs ≠ [] →
  ∀ (σ : IterOrder) (outside : Outside) (block : BlockArgs) (bytes : Bytes),
    state.checkNextCanonicalBlock block = .ok () → block.body = .ok bytes → outside.written = .ok () →
    let (root, final) := produced.stateRoot producer.hashes.blake3 σ
    ∃ validated,
      state.applyCanonicalBlock producer.codec producer.hashes.blake3 outside block (Hex.encode root.toList)
        (blockTxs.map Transaction.toCanonicalTransfer) = (.ok (), validated) ∧
      SameAccounts producer.codec final validated ∧
      ∀ σ', (validated.stateRoot producer.hashes.blake3 σ').1 = root

theorem BlockProducer.Inert.reproduces (synced : state.Synced producer.codec producer.hashes.blake3 seen)
    (injective : Set.InjOn (keyToPath producer.hashes.blake3) seen)
    (known : ∀ attempt ∈ pending, ∀ address ∈ attempt.touches, address ∈ seen)
    (inert : producer.Inert state pending) : producer.Reproduces state pending := by
  intro _ σ outside block bytes place serialised written
  obtain ⟨after, loop, same⟩ := inert.replay fun _ => ⟨rfl, rfl⟩
  have inside : ∀ transfer ∈ (producer.phaseB state pending).1.map toCanonicalTransfer,
      transfer.sender ∈ seen ∧ transfer.receiver ∈ seen := by
    intro transfer member
    obtain ⟨tx, taken, rfl⟩ := mem_map.mp member
    obtain ⟨attempt, listed, rfl⟩ := exists_of_mem_phaseB taken
    exact ⟨known attempt listed _ (by simp [touches, toCanonicalTransfer]),
      known attempt listed _ (by simp [touches, toCanonicalTransfer])⟩
  have replayed := synced.applyTransfers inside
  rw [loop] at replayed
  -- both roots are the reference root of the same accounts
  have root (σ σ' : IterOrder) : (after.stateRoot producer.hashes.blake3 σ).1 =
      ((producer.phaseB state pending).2.stateRoot producer.hashes.blake3 σ').1 := by
    rw [replayed.stateRoot_eq injective, (phaseB_synced synced known).stateRoot_eq injective, same.accounts]
  obtain ⟨validated, accepted⟩ := applyCanonicalBlock_accepts place loop
    (congrArg (fun hash : Hash32 => Hex.encode hash.toList) (root outside.σ σ)) serialised written
  obtain ⟨mid, again, flushed⟩ := applyCanonicalBlock_ok accepted
  rw [loop] at again
  cases again
  have kept := getAccount_of_flush_staged flushed
  have agree : SameAccounts producer.codec validated after := fun address => by
    rw [getBalance, getBalance, getNonce, getNonce, kept]
    exact ⟨rfl, rfl⟩
  refine ⟨validated, accepted, fun address => ?_, fun σ' => ?_⟩
  · have produced := same address
    exact ⟨produced.1.trans (agree address).1.symm, produced.2.trans (agree address).2.symm⟩
  · have durable := (Synced.staged replayed injective).flush flushed
    have produced := (phaseB_synced synced known).stateRoot_eq injective σ
    refine (durable.stateRoot_eq injective σ').trans (Eq.trans ?_ produced.symm)
    rw [agree.accounts, same.accounts]

theorem BlockProducer.Reproduces.balances {block bytes}
    (reproduces : producer.Reproduces state pending) (nonempty : (producer.phaseB state pending).1 ≠ [])
    (place : state.checkNextCanonicalBlock block = .ok ()) (serialised : block.body = .ok bytes) :
    ∃ mid, state.applyTransfers producer.codec
        ((producer.phaseB state pending).1.map toCanonicalTransfer) = (none, mid) ∧
      ∀ address, (producer.phaseB state pending).2.getBalance producer.codec address =
        mid.getBalance producer.codec address := by
  obtain ⟨validated, accepted, same, -⟩ :=
    reproduces nonempty .stored ⟨.stored, .ok ()⟩ block bytes place serialised rfl
  obtain ⟨mid, loop, flushed⟩ := applyCanonicalBlock_ok accepted
  refine ⟨mid, loop, fun address => ?_⟩
  have agreed := (same address).1
  rw [getBalance, getBalance, getAccount_of_flush_staged flushed] at agreed
  exact agreed

/-- As long as the chain can grow: a validator reproduces the block of every
initial part of the pending transactions exactly when no VM side of a taken
transaction has an effect. -/
theorem reproduces_iff_inert (synced : state.Synced producer.codec producer.hashes.blake3 seen)
    (injective : Set.InjOn (keyToPath producer.hashes.blake3) seen)
    (known : ∀ attempt ∈ pending, ∀ address ∈ attempt.touches, address ∈ seen)
    (grows : ∃ block bytes, state.checkNextCanonicalBlock block = .ok () ∧ block.body = .ok bytes) :
    (∀ start, start <+: pending → producer.Reproduces state start) ↔ producer.Inert state pending := by
  constructor
  · intro reproduces
    by_contra active
    obtain ⟨start, inside, nonempty, differs⟩ :=
      BlockProducer.diverges_of_not_inert (fun _ => ⟨rfl, rfl⟩ : SameAccounts producer.codec state state) active
    obtain ⟨block, bytes, place, serialised⟩ := grows
    obtain ⟨mid, loop, agreed⟩ := (reproduces start inside).balances nonempty place serialised
    exact differs mid loop agreed
  · intro inert start inside
    obtain ⟨rest, rfl⟩ := inside
    exact inert.of_append.reproduces synced injective fun attempt member =>
      known attempt (mem_append_left _ member)

/-- A stand-in digest that starts with the length of its input. -/
def lengthHash (input : Bytes) : Hash32 :=
  Vector.ofFn fun i => if i.val = 0 then UInt8.ofNat input.length else input.getD (i.val - 1) 0

def sampleProducer : BlockProducer where
  codec := fixedWidthCodec
  hashes := ⟨markedHash, markedHash, lengthHash⟩
  sphincs := sizedSphincs
  config := sampleConfig
  router := {}
  verifySignature := fun _ => false

def samplePayer : String := deriveAccountAddress markedHash (List.replicate 64 0)

/-- An address that agrees with the payer's in the first 32 bytes. -/
def sampleTwin : String := String.ofList (samplePayer.toList.take 32)

def payment (receiver : String) : Attempt where
  tx := ⟨sampleConfig.chainId, samplePayer, receiver, 40, 1000, 0, List.replicate 65 0⟩
  selected := .ok "wasm"
  now := 1000

def payerState : StateManager := StateManager.empty.setBalance fixedWidthCodec samplePayer 100

def firstBlock : BlockArgs := ⟨.ok [], 1, "", "genesis", defaultChainId, "genesis"⟩

theorem payment_to_twin_reproduced :
    (sampleProducer.phaseB payerState [payment sampleTwin]).1 = [(payment sampleTwin).tx] ∧
      sampleProducer.Reproduces payerState [payment sampleTwin] := by
  have inside : samplePayer ∈ { address | address ∈ (payment sampleTwin).touches } := mem_cons_self
  have synced : payerState.Synced fixedWidthCodec lengthHash { address | address ∈ (payment sampleTwin).touches } :=
    empty_synced.setBalance inside 100
  have distinct : ∀ a ∈ (payment sampleTwin).touches, ∀ b ∈ (payment sampleTwin).touches,
      keyToPath lengthHash a = keyToPath lengthHash b → a = b := by
    decide +kernel
  have known : ∀ attempt ∈ [payment sampleTwin], ∀ address ∈ attempt.touches,
      address ∈ { address | address ∈ (payment sampleTwin).touches } := by
    intro attempt member
    rw [mem_singleton.mp member]
    exact fun _ listed => listed
  have twins : accountBytes samplePayer = accountBytes sampleTwin := by decide +kernel
  have inert : sampleProducer.Inert payerState [payment sampleTwin] := ⟨fun _ => .inl twins, trivial⟩
  have all := (@reproduces_iff_inert sampleProducer payerState _ _ synced
    (fun a left b right => distinct a left b right) known ⟨firstBlock, [], rfl, rfl⟩).mpr inert
  exact ⟨by decide +kernel, all _ (prefix_refl _)⟩

/-- An ordinary payment: the producer credits a second account, which no
validator does. -/
theorem payment_to_bob_not_reproduced :
    (sampleProducer.phaseB payerState [payment "bob"]).1 = [(payment "bob").tx] ∧
      (sampleProducer.phaseB payerState [payment "bob"]).2.getBalance fixedWidthCodec (mirror "bob") = 40 ∧
      ¬sampleProducer.Reproduces payerState [payment "bob"] := by
  have taken : (sampleProducer.phaseB payerState [payment "bob"]).1 = [(payment "bob").tx] := by decide +kernel
  have credited : (sampleProducer.phaseB payerState [payment "bob"]).2.getBalance fixedWidthCodec (mirror "bob") =
      40 := by
    decide +kernel
  have place : payerState.checkNextCanonicalBlock firstBlock = .ok () := rfl
  have untouched : (payerState.applyTransfers fixedWidthCodec
      ([(payment "bob").tx].map toCanonicalTransfer)).2.getBalance fixedWidthCodec (mirror "bob") = 0 := by
    decide +kernel
  refine ⟨taken, credited, fun reproduces => ?_⟩
  obtain ⟨mid, loop, agreed⟩ := reproduces.balances (taken ▸ cons_ne_nil _ _) place rfl
  rw [taken] at loop
  have shown := congrArg (fun result : Option String × StateManager =>
    result.2.getBalance fixedWidthCodec (mirror "bob")) loop
  have zero : (40 : U128) = 0 := credited.symm.trans ((agreed (mirror "bob")).trans (shown.symm.trans untouched))
  exact absurd zero (by decide)

end Bleep
