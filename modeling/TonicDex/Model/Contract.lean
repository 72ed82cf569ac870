/-
  The state of the contract, and the loading and saving of accounts and
  markets (`lib.rs`, `account/mod.rs`, part of `market/mod.rs`).

  The source keeps accounts and markets in tries: loading copies a record,
  saving writes it back, and a call works on copies until it saves them.  Here
  a function that writes the state returns it.  Calls to other contracts are
  not made but promised: a function that promises something returns a list of
  `Promise`s.
-/
import TonicDex.Model.Market

namespace TonicDex

variable {B : Type} (S : Sdk B)

inductive ContractState where
  /-- allows all operations -/
  | active
  /-- allows no operation but those of the owner -/
  | paused
  /-- allows only cancelling -/
  | cancelOnly
  deriving DecidableEq, Repr

structure Contract (B : Type) where
  ownerId : AccountId
  accounts : HMap AccountId Account
  markets : HMap MarketId (Market B)
  /-- all market ids, for enumeration -/
  marketIterMap : List MarketId
  prevOrderSequenceNumber : ℕ
  state : ContractState

/-- What a call can read from `near_sdk::env`. -/
structure Env where
  predecessorAccountId : AccountId
  signerAccountId : AccountId
  attachedDeposit : ℕ
  blockTimestamp : ℕ
  /-- what `measure_storage_increase!` measures in `create_market` -/
  storageIncrease : ℕ

/-- A call to another contract, to be made after this one returned. -/
inductive Promise where
  /-- NEAR sent without a callback: a refund or a storage payment -/
  | transfer (receiverId : AccountId) (amount : ℕ)
  /-- `internal_send`, then `exchange_callback_post_withdraw` -/
  | send (receiverId : AccountId) (token : TokenType) (amount : ℕ)
  /-- `ft_metadata` of a token contract, then `on_ft_metadata` -/
  | ftMetadata (tokenId : AccountId) (marketId : MarketId) (pairSide : PairSide)
  /-- `mt_metadata_base_by_token_id` of a token contract, then `on_mt_metadata` -/
  | mtMetadata (tokenId : AccountId) (subtokenId : String) (marketId : MarketId)
      (pairSide : PairSide)
  deriving DecidableEq

/-- `assert_one_yocto` -/
def assertOneYocto (env : Env) : Call Unit :=
  assert (env.attachedDeposit = 1) "Requires attached deposit of exactly 1 yoctoNEAR"

/-- Methods not marked `#[payable]` accept no deposit. -/
def assertNoDeposit (env : Env) : Call Unit :=
  assert (env.attachedDeposit = 0) "Method doesn't accept deposit"

namespace Contract

/-- `Contract::new` -/
def new (ownerId : AccountId) : Contract B where
  ownerId
  accounts := ∅
  markets := ∅
  marketIterMap := []
  prevOrderSequenceNumber := 0
  state := .active

variable (c : Contract B)

def nextSequenceNumber : Call (ℕ × Contract B) := do
  let n ← u64 (c.prevOrderSequenceNumber + 1)
  return (n, { c with prevOrderSequenceNumber := n })

def assertIsOwner (env : Env) : Call Unit :=
  assert (env.predecessorAccountId = c.ownerId) "Method can only be called by contract owner ID"

def assertActive : Call Unit := assert (c.state = .active) "Contract is not active"

def assertCanCancel : Call Unit :=
  assert (c.state = .active ∨ c.state = .cancelOnly)
    "Contract must be active or cancel only to cancel an order"

/-! ## Accounts -/

/-- The state with an account replaced. -/
def putAccount (accountId : AccountId) (account : Account) : Contract B :=
  { c with accounts := c.accounts.insert accountId account }

/-- Save the account, provided its storage is covered. -/
def internalSaveAccount (accountId : AccountId) (account : Account) : Call (Contract B) := do
  Checked.require (.error .insufficientStorageBalance) (account.isStorageCovered S)
  return c.putAccount accountId account

/-- As `internalSaveAccount`, but `none` if the storage is not covered. -/
def internalTrySaveAccount (accountId : AccountId) (account : Account) : Option (Contract B) :=
  if account.isStorageCovered S then some (c.putAccount accountId account) else none

def internalGetAccount (accountId : AccountId) : Option Account := c.accounts.lookup accountId

def internalUnwrapAccount (accountId : AccountId) : Call Account :=
  Checked.expect (.error .accountNotFound) (c.internalGetAccount accountId)

/-- Load an account, deposit into it and save it. -/
def internalDeposit (senderId : AccountId) (token : TokenType) (amount : ℕ) :
    Call (Contract B) := do
  let account ← c.internalUnwrapAccount senderId
  let account ← account.deposit S token amount
  c.internalSaveAccount S senderId account

/-! ## Markets -/

def internalSaveMarket (id : MarketId) (market : Market B) : Contract B :=
  { c with markets := c.markets.insert id market }

def internalGetMarket (id : MarketId) : Option (Market B) := c.markets.lookup id

def internalUnwrapMarket (id : MarketId) : Call (Market B) :=
  Checked.expect .unwrap (c.internalGetMarket id)

/-! ## What loading and saving do -/

variable {S c} {c' : Contract B} {id : AccountId} {account : Account} {mid : MarketId}
  {market : Market B}

@[simp] theorem internalUnwrapAccount_eq_ok :
    c.internalUnwrapAccount id = .ok account ↔ c.accounts.lookup id = some account := by
  simp [internalUnwrapAccount, internalGetAccount]

@[simp] theorem internalUnwrapMarket_eq_ok :
    c.internalUnwrapMarket mid = .ok market ↔ c.markets.lookup mid = some market := by
  simp [internalUnwrapMarket, internalGetMarket]

@[simp] theorem internalSaveAccount_eq_ok : c.internalSaveAccount S id account = .ok c' ↔
    account.isStorageCovered S ∧ c.putAccount id account = c' := by
  simp [internalSaveAccount]

/-- A deposit into a stored account. -/
theorem internalDeposit_eq_ok {token : TokenType} {n : ℕ} :
    c.internalDeposit S id token n = .ok c' ↔ ∃ a, c.accounts.lookup id = some a ∧
      (∀ x, a.balances.lookup (S.key token) = some x → n + x < 2 ^ 128) ∧
      (a.credit (S.key token) n).isStorageCovered S ∧
      c.putAccount id (a.credit (S.key token) n) = c' := by
  simp only [internalDeposit, Checked.bind_eq_ok, internalUnwrapAccount_eq_ok,
    Account.deposit_eq_ok, internalSaveAccount_eq_ok]
  constructor
  · rintro ⟨a, ha, _, ⟨hfit, rfl⟩, hc⟩; exact ⟨a, ha, hfit, hc⟩
  · rintro ⟨a, ha, hfit, hc⟩; exact ⟨a, ha, _, ⟨hfit, rfl⟩, hc⟩

@[simp] theorem markets_putAccount : (c.putAccount id account).markets = c.markets := rfl

@[simp] theorem prevOrderSequenceNumber_putAccount :
    (c.putAccount id account).prevOrderSequenceNumber = c.prevOrderSequenceNumber := rfl

@[simp] theorem accounts_internalSaveMarket :
    (c.internalSaveMarket mid market).accounts = c.accounts := rfl

@[simp] theorem prevOrderSequenceNumber_internalSaveMarket :
    (c.internalSaveMarket mid market).prevOrderSequenceNumber = c.prevOrderSequenceNumber := rfl

theorem lookup_putAccount (id' : AccountId) : (c.putAccount id account).accounts.lookup id' =
    if id' = id then some account else c.accounts.lookup id' :=
  HMap.lookup_insert_eq _ _ _ _

theorem lookup_internalSaveMarket (mid' : MarketId) :
    (c.internalSaveMarket mid market).markets.lookup mid' =
      if mid' = mid then some market else c.markets.lookup mid' :=
  HMap.lookup_insert_eq _ _ _ _

end Contract

end TonicDex
