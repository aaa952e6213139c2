import Bleep.State.StateManager

namespace Bleep
open HashTable Words

variable {codec : Codec} {state : StateManager}

theorem accountKey_injective : Function.Injective accountKey := by
  intro a b same
  exact utf8_injective (List.append_cancel_left same)

theorem accountKey_head (address : String) : (accountKey address).head? = some 97 := rfl

theorem blockKey_head (index : U64) : (blockKey index).head? = some 99 := rfl

namespace StateManager

theorem cacheEntry_state (state : StateManager) (address : String) :
    (state.cacheEntry codec address).state = state.getAccount codec address := by
  unfold cacheEntry getAccount
  cases state.cache.lookup address <;> rfl

@[simp] theorem getAccount_modifyAccount (state : StateManager) (address other : String)
    (change : AccountState → AccountState) :
    (state.modifyAccount codec address change).getAccount codec other =
      if other = address then change (state.getAccount codec address) else state.getAccount codec other := by
  by_cases here : other = address
  · subst here
    simp [modifyAccount, getAccount, cacheEntry_state]
  · simp [here, modifyAccount, getAccount, AList.lookup_insert_ne here]

@[simp] theorem getBalance_setBalance (state : StateManager) (address other : String) (balance : U128) :
    (state.setBalance codec address balance).getBalance codec other =
      if other = address then balance else state.getBalance codec other := by
  rw [getBalance, setBalance, getAccount_modifyAccount]
  split <;> rfl

@[simp] theorem getNonce_setBalance (state : StateManager) (address other : String) (balance : U128) :
    (state.setBalance codec address balance).getNonce codec other = state.getNonce codec other := by
  rw [getNonce, setBalance, getAccount_modifyAccount]
  split
  · rename_i here
    rw [here]
    rfl
  · rfl

/-- What `apply_transfer_with_nonce` checks. -/
structure Admits (codec : Codec) (state : StateManager) (sender receiver : String) (amount : U128)
    (nonce : U64) : Prop where
  next : nonce = state.getNonce codec sender
  room : nonce.toNat + 1 < 2 ^ 64
  positive : amount ≠ 0
  covered : amount.toNat ≤ (state.getBalance codec sender).toNat
  fits : (state.getBalance codec receiver).toNat + amount.toNat < 2 ^ 128

instance (sender receiver : String) (amount : U128) (nonce : U64) :
    Decidable (Admits codec state sender receiver amount nonce) :=
  decidable_of_iff
    (nonce = state.getNonce codec sender ∧ nonce.toNat + 1 < 2 ^ 64 ∧ amount ≠ 0 ∧
      amount.toNat ≤ (state.getBalance codec sender).toNat ∧
      (state.getBalance codec receiver).toNat + amount.toNat < 2 ^ 128)
    ⟨fun ⟨next, room, positive, covered, fits⟩ => ⟨next, room, positive, covered, fits⟩,
      fun ⟨next, room, positive, covered, fits⟩ => ⟨next, room, positive, covered, fits⟩⟩

/-- The three writes of an admitted transfer. -/
def transferred (codec : Codec) (state : StateManager) (sender receiver : String) (amount : U128) (nonce : U64) :
    StateManager :=
  ((state.setBalance codec sender (state.getBalance codec sender - amount)).setBalance codec receiver
    (state.getBalance codec receiver + amount)).modifyAccount codec sender
      fun account => { account with nonce := nonce + 1 }

theorem applyTransferWithNonce_eq (state : StateManager) (sender receiver : String) (amount : U128) (nonce : U64) :
    state.applyTransferWithNonce codec sender receiver amount nonce =
      if Admits codec state sender receiver amount nonce then
        (true, transferred codec state sender receiver amount nonce)
      else (false, state) := by
  -- one case per check, in the order of the source
  by_cases next : nonce = state.getNonce codec sender
  case neg =>
    rw [if_neg fun admits => next admits.next, applyTransferWithNonce, if_pos next]
  subst next
  rw [applyTransferWithNonce, if_neg (not_not_intro rfl)]
  by_cases room : (state.getNonce codec sender).toNat + 1 < 2 ^ 64
  case neg =>
    rw [if_neg fun admits => room (Admits.room admits), checkedAdd_of_not room]
  rw [checkedAdd_of_lt room]
  by_cases positive : amount ≠ 0
  case neg =>
    rw [if_neg fun admits => positive (Admits.positive admits)]
    exact if_pos (not_ne_iff.mp positive)
  simp only [if_neg positive]
  by_cases covered : amount.toNat ≤ (state.getBalance codec sender).toNat
  case neg =>
    rw [if_neg fun admits => covered (Admits.covered admits), checkedSub_of_not covered]
  rw [checkedSub_of_le covered]
  by_cases fits : (state.getBalance codec receiver).toNat + amount.toNat < 2 ^ 128
  case neg =>
    rw [if_neg fun admits => fits (Admits.fits admits)]
    simp only [checkedAdd_of_not fits]
  simp only [checkedAdd_of_lt fits]
  rw [if_pos ⟨rfl, room, positive, covered, fits⟩]
  rfl

theorem applyTransfer_cases (codec : Codec) (now : U64) (state : StateManager) (sender receiver : String)
    (amount : U128) (nonce timestamp : U64) :
    state.applyTransfer codec now sender receiver amount nonce timestamp = (false, state) ∨
      state.applyTransfer codec now sender receiver amount nonce timestamp =
          (true, transferred codec state sender receiver amount nonce) ∧
        Admits codec state sender receiver amount nonce := by
  rw [applyTransfer, applyTransferWithNonce_eq]
  split
  · exact .inl rfl
  split
  · rename_i admits
    exact .inr ⟨rfl, admits⟩
  · exact .inl rfl

variable {sender receiver : String} {amount : U128} {nonce : U64}

@[simp] theorem getBalance_transferred (other : String) :
    (transferred codec state sender receiver amount nonce).getBalance codec other =
      if other = receiver then state.getBalance codec receiver + amount
      else if other = sender then state.getBalance codec sender - amount
      else state.getBalance codec other := by
  have kept : (transferred codec state sender receiver amount nonce).getBalance codec other =
      ((state.setBalance codec sender (state.getBalance codec sender - amount)).setBalance codec receiver
        (state.getBalance codec receiver + amount)).getBalance codec other := by
    rw [getBalance, transferred, getAccount_modifyAccount]
    split
    · rename_i here
      rw [here]
      rfl
    · rfl
  rw [kept, getBalance_setBalance, getBalance_setBalance]

@[simp] theorem getNonce_transferred (other : String) :
    (transferred codec state sender receiver amount nonce).getNonce codec other =
      if other = sender then nonce + 1 else state.getNonce codec other := by
  rw [getNonce, transferred, getAccount_modifyAccount]
  split
  · rfl
  · rw [← getNonce, getNonce_setBalance, getNonce_setBalance]

end StateManager

/-- A codec of fixed widths: sixteen bytes of balance, eight of nonce, then
the code hash if there is one. -/
def fixedWidthCodec : Codec where
  encodeAccount account :=
    leBytes 16 account.balance.toNat ++ (leBytes 8 account.nonce.toNat ++ (account.codeHash.map Vector.toList).getD [])
  decodeAccount bytes :=
    let hash := bytes.drop 24
    some
      { balance := BitVec.ofNat 128 (fromLeBytes (bytes.take 16))
        nonce := BitVec.ofNat 64 (fromLeBytes ((bytes.drop 16).take 8))
        codeHash := if sized : hash.length = 32 then some ⟨hash.toArray, sized⟩ else none }
  encodeRecord record := record.body
  decodeAccount_encodeAccount account := by
    obtain ⟨balance, nonce, codeHash⟩ := account
    have balanceBytes := fromLeBytes_leBytes 16 balance.toNat
    have nonceBytes := fromLeBytes_leBytes 8 nonce.toNat
    rw [Nat.mod_eq_of_lt (by have := balance.isLt; omega)] at balanceBytes
    rw [Nat.mod_eq_of_lt (by have := nonce.isLt; omega)] at nonceBytes
    have skip : (leBytes 16 balance.toNat ++
        (leBytes 8 nonce.toNat ++ (codeHash.map Vector.toList).getD [])).drop 24 =
          (codeHash.map Vector.toList).getD [] := by
      rw [← List.append_assoc]
      exact List.drop_left' (by simp)
    simp only [skip, List.take_left' (leBytes_length 16 _), List.drop_left' (leBytes_length 16 _),
      List.take_left' (leBytes_length 8 _), balanceBytes, nonceBytes, BitVec.ofNat_toNat, BitVec.setWidth_eq]
    cases codeHash with
    | none => rfl
    | some hash => simp [Vector.toList]

end Bleep
