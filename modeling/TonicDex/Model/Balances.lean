/-
  Deposits and withdrawals of tokens and of storage (`balances.rs`,
  `token_receiver.rs`, `storage_manager.rs`).

  A withdrawal debits the account first and only promises the transfer; when
  the transfer fails, `exchange_callback_post_withdraw` credits the amount
  again, in a later call of its own.
-/
import TonicDex.Model.Cancel

namespace TonicDex

variable {B : Type} (S : Sdk B)

/-! ## Deposits -/

def depositNear (env : Env) (c : Contract B) : Call (Contract B) := do
  c.assertActive
  let account ← c.internalUnwrapAccount env.predecessorAccountId
  let account ← account.deposit S .nativeNear env.attachedDeposit
  c.internalSaveAccount S env.predecessorAccountId account

/-- What the message of an `ft_on_transfer` says, once parsed. -/
inductive TransferMsg where
  /-- no message: a deposit -/
  | empty
  /-- `Action::Swap` -/
  | swap (swaps : List SwapAction)
  /-- any other action -/
  | otherAction
  /-- not an action -/
  | invalid

/-- A fungible token contract, the predecessor, reports a transfer.  The first
    component is the answer: the amount that it is to give back to the sender. -/
def ftOnTransfer (env : Env) (c : Contract B) (senderId : AccountId) (amount : ℕ)
    (msg : TransferMsg) : Call (ℕ × List Promise × Contract B) := do
  c.assertActive
  let token := TokenType.fungibleToken env.predecessorAccountId
  match msg with
  | .empty => do
    let c ← c.internalDeposit S senderId token amount
    return (0, [], c)
  | .swap swaps => executeSwaps S env c swaps token amount senderId
  | .otherAction => throw (.error .invalidAction)
  | .invalid => throw (.message "Invalid message")

/-- The deposits of a multi-token transfer, one after the other. -/
def mtDeposits (accountId : AccountId) : Contract B → List ((String × ℕ) × AccountId) →
    Call (Contract B)
  | c, [] => return c
  | c, ((subtokenId, amount), prevOwnerId) :: rest => do
    let c ← c.internalDeposit S prevOwnerId (.multiFungibleToken accountId subtokenId) amount
    mtDeposits accountId c rest

/-- A multi-token contract, the predecessor, reports a transfer.  The source does not
    export this method: its impl block is not marked `#[near_bindgen]`. -/
def mtOnTransfer (env : Env) (c : Contract B) (previousOwnerIds : List AccountId)
    (tokenIds : List String) (amounts : List ℕ) : Call (Contract B) := do
  c.assertActive
  assert (tokenIds.length = amounts.length) "Token list length does not match amounts"
  assert (tokenIds.length = previousOwnerIds.length)
    "Token list length does not match previous_owner_ids"
  mtDeposits S env.predecessorAccountId c ((tokenIds.zip amounts).zip previousOwnerIds)

/-! ## Withdrawals -/

def internalWithdraw (c : Contract B) (accountId : AccountId) (token : TokenType) (amount : ℕ) :
    Call (List Promise × Contract B) := do
  assert (0 < amount) "Withdraw amount must be positive"
  let account ← c.internalUnwrapAccount accountId
  let account ← account.withdraw S token amount
  let c ← c.internalSaveAccount S accountId account
  return ([.send accountId token amount], c)

def withdrawNear (env : Env) (c : Contract B) (amount : ℕ) :
    Call (List Promise × Contract B) := do
  c.assertActive
  assertOneYocto env
  internalWithdraw S c env.predecessorAccountId .nativeNear amount

def withdrawFt (env : Env) (c : Contract B) (token : AccountId) (amount : ℕ) :
    Call (List Promise × Contract B) := do
  c.assertActive
  assertOneYocto env
  internalWithdraw S c env.predecessorAccountId (.fungibleToken token) amount

def withdrawMt (env : Env) (c : Contract B) (mtAccountId : AccountId) (tokenId : String)
    (amount : ℕ) : Call (List Promise × Contract B) := do
  c.assertActive
  assertOneYocto env
  let token ← S.fromKey ("mft:" ++ mtAccountId.name ++ ":" ++ tokenId)
  internalWithdraw S c env.predecessorAccountId token amount

/-- Whether the promised transfer succeeded. -/
inductive PromiseResult where
  | successful
  | failed
  deriving DecidableEq, Repr

/-- After a transfer that failed: credit the amount again, to the owner of the
    contract if the account is gone. -/
def exchangeCallbackPostWithdraw (c : Contract B) (token : TokenType) (receiverId : AccountId)
    (amount : ℕ) (result : PromiseResult) : Call (Contract B) :=
  match result with
  | .successful => return c
  | .failed =>
    if (c.internalGetAccount receiverId).isSome then c.internalDeposit S receiverId token amount
    else c.internalDeposit S c.ownerId token amount

/-! ## Storage -/

structure StorageBalance where
  total : ℕ
  available : ℕ
  deriving DecidableEq

/-- `storage_balance_bounds().min` -/
def storageBalanceMin : ℕ := Size.account * S.storageByteCost

def internalUnwrapStorageBalance (c : Contract B) (accountId : AccountId) :
    Call StorageBalance := do
  let account ← c.internalUnwrapAccount accountId
  let available ← account.storageBalanceAvailable S
  return ⟨account.storageBalance, available⟩

/-- Deposit for storage, creating the account if need be; returns the refund. -/
def internalStorageDeposit (c : Contract B) (accountId : AccountId) (registrationOnly : Bool)
    (amount : ℕ) : Call (ℕ × Contract B) :=
  match c.internalGetAccount accountId with
  | some account =>
    if registrationOnly = true ∧ 0 < amount then return (amount, c)
    else do
      let total ← u128 (account.storageBalance + amount)
      let c ← c.internalSaveAccount S accountId { account with storageBalance := total }
      return (0, c)
  | none => do
    let minBalance := Account.new.borshSize S * S.storageByteCost
    Checked.require (.error .insufficientStorageBalance) (minBalance ≤ amount)
    if registrationOnly then do
      let c ← c.internalSaveAccount S accountId { Account.new with storageBalance := minBalance }
      return (amount - minBalance, c)
    else do
      let c ← c.internalSaveAccount S accountId { Account.new with storageBalance := amount }
      return (0, c)

def internalStorageBalanceOf (c : Contract B) (accountId : AccountId) :
    Call (Option StorageBalance) :=
  (c.internalGetAccount accountId).mapM fun account => do
    let available ← sub account.storageBalance
      (max (account.borshSize S * S.storageByteCost) (storageBalanceMin S))
    return ⟨account.storageBalance, available⟩

def storageDeposit (env : Env) (c : Contract B) (accountId : Option AccountId)
    (registrationOnly : Option Bool) : Call (StorageBalance × List Promise × Contract B) := do
  c.assertActive
  let accountId := accountId.getD env.predecessorAccountId
  let (refund, c) ←
    internalStorageDeposit S c accountId (registrationOnly.getD false) env.attachedDeposit
  let balance ← internalUnwrapStorageBalance S c accountId
  return (balance, if 0 < refund then [.transfer env.predecessorAccountId refund] else [], c)

/-- Take `amount` out of the storage balance, if it is positive. -/
def takeStorage (c : Contract B) (accountId : AccountId) (amount : ℕ) :
    Call (List Promise × Contract B) :=
  if 0 < amount then do
    let account ← c.internalUnwrapAccount accountId
    let rest ← sub account.storageBalance amount
    let c ← c.internalSaveAccount S accountId { account with storageBalance := rest }
    return ([.transfer accountId amount], c)
  else return ([], c)

def storageWithdraw (env : Env) (c : Contract B) (amount : Option ℕ) :
    Call (StorageBalance × List Promise × Contract B) := do
  c.assertActive
  assertOneYocto env
  let accountId := env.predecessorAccountId
  match (← internalStorageBalanceOf S c accountId) with
  | none => throw (.error .accountNotFound)
  | some storageBalance => do
    let amount := amount.getD storageBalance.available
    Checked.require (.error .insufficientStorageBalance) (amount ≤ storageBalance.available)
    let (promises, c) ← takeStorage S c accountId amount
    let after ← internalStorageBalanceOf S c accountId
    let after ← Checked.expect .unwrap after
    return (after, promises, c)

/-- Remove an empty account and return its storage balance. -/
def storageUnregister (env : Env) (c : Contract B) : Call (List Promise × Contract B) := do
  c.assertActive
  assertOneYocto env
  let accountId := env.predecessorAccountId
  let account ← c.internalUnwrapAccount accountId
  assert (account.isEmpty = true) "account not empty"
  return ([.transfer accountId account.storageBalance],
    { c with accounts := c.accounts.erase accountId })

end TonicDex
