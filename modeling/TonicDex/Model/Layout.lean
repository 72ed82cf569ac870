/-
  How accounts are stored (`account/mod.rs`, `account/v1.rs`, `storage.rs`).

  An account is a record of a trie: its key is a prefix and the account id, and
  its value the Borsh encoding of the versioned account, by which it is read.  The resting orders of
  the account take up room in the records of their markets, as told by the
  parameter `usage` of the order book; `UsageLaws` says what is known of it.
-/
import TonicDex.Lib.Decode
import TonicDex.Model.Contract

namespace TonicDex

variable {B : Type} (S : Sdk B)

open Borsh

/-! ## The record of an account -/

/-- The key in `Contract::accounts`: `StorageKey::Accounts` and the id. -/
def accountKey (id : AccountId) : Bytes := uint 1 0 ++ str id.name

/-- The 32 bytes of the hash. -/
def encodeMarketId (mid : MarketId) : Bytes := (uint 32 mid.toNat).reverse

/-- `(LotBalance, Timestamp)` -/
def OrderInfo.encode (i : OrderInfo) : Bytes := uint 8 i.originalSize ++ uint 8 i.timestamp

/-- The orders of an account in one market. -/
def encodeOrders (orders : OrderInfos) : Bytes :=
  Borsh.map (fun o o' => decide (o ≤ o')) (uint 16) OrderInfo.encode orders

/-- `AccountV1`, of which the id is skipped. -/
def Account.encode (a : Account) : Bytes :=
  Borsh.map (fun k k' => decide (k ≤ k')) str (uint 16) a.balances ++
    Borsh.map (fun mid mid' => decide (mid ≤ mid')) encodeMarketId encodeOrders a.openOrders ++
    uint 16 a.storageBalance

/-- `VAccount::V1` -/
def Account.encodeVersioned (a : Account) : Bytes := uint 1 0 ++ a.encode

/-! ## Reading a record -/

def readMarketId : Reader MarketId := do
  let bs ← take 32
  return BitVec.ofNat 256 (ofBytes bs.reverse)

def readOrderInfo : Reader OrderInfo := do
  let originalSize ← readUint 8
  let timestamp ← readUint 8
  return ⟨originalSize, timestamp⟩

def readOrders : Reader OrderInfos := readMap (readUint 16) readOrderInfo

def readAccount : Reader Account := do
  let balances ← readMap readStr (readUint 16)
  let openOrders ← readMap readMarketId readOrders
  let storageBalance ← readUint 16
  return ⟨balances, openOrders, storageBalance⟩

/-- A version that is not known is an error. -/
def readVersioned : Reader Account := do
  let version ← readUint 1
  if version = 0 then readAccount else StateT.lift none

/-! ## The trie -/

/-- The key in `Contract::markets`: `StorageKey::Markets` and the id. -/
def marketKey (mid : MarketId) : Bytes := uint 1 1 ++ encodeMarketId mid

/-- The key in `Contract::market_iter_map`: `StorageKey::MarketIterMap` and the
    index. -/
def marketIterKey (index : ℕ) : Bytes := uint 1 2 ++ uint 8 index

/-- The key of the contract itself, `STATE`. -/
def stateKey : Bytes := [83, 84, 65, 84, 69]

/-- The records of the contract.  Parameters are the encodings of a market, with
    its book, and of the contract itself, with the headers of its collections. -/
def Contract.records (encodeMarket : Market B → Bytes) (encodeContract : Contract B → Bytes)
    (c : Contract B) : List (Sigma fun _ : Bytes => Bytes) :=
  c.accounts.entries.map (fun e => ⟨accountKey e.1, e.2.encodeVersioned⟩) ++
    c.markets.entries.map (fun e => ⟨marketKey e.1, uint 1 0 ++ encodeMarket e.2⟩) ++
    c.marketIterMap.zipIdx.map (fun x => ⟨marketIterKey x.2, encodeMarketId x.1⟩) ++
    [⟨stateKey, encodeContract c⟩]

/-- `LookupMap::get` of `Contract::accounts`. -/
def loadAccount (records : List (Sigma fun _ : Bytes => Bytes)) (id : AccountId) :
    Option Account :=
  (records.dlookup (accountKey id)).bind (parse readVersioned)

/-! ## Sizes of records -/

/-- What a record of the trie takes up besides its key and value. -/
def recordOverhead : ℕ := 40

def Account.recordSize (a : Account) (id : AccountId) : ℕ :=
  recordOverhead + (accountKey id).length + a.encodeVersioned.length

/-! ## The records of markets -/

/-- The measured size of an order with a price level of its own, and with the
    client id. -/
def OpenLimitOrder.measuredSize (o : OpenLimitOrder) : ℕ :=
  Size.openLimitOrder + if o.clientId.isSome then 4 else 0

/-- What is known of the bytes that a resting order takes up in its market's
    record. -/
structure UsageLaws (usage : B → OpenLimitOrder → ℕ) : Prop where
  le : ∀ b o, usage b o ≤ o.measuredSize
  own_level : ∀ {b o}, (∀ o' ∈ S.orders b, o'.side = o.side →
    o'.limitPriceLots = o.limitPriceLots → o' = o) → usage b o = o.measuredSize

/-- The order with an id that rests in a market, and the book it rests in. -/
def Contract.restingOrder (c : Contract B) (mid : MarketId) (o : OrderId) :
    Option (B × OpenLimitOrder) :=
  (c.markets.lookup mid).bind fun m => (S.getOrder m.orderbook o).map fun x => (m.orderbook, x)

/-- The sum of `f` over the orders of an account, as they rest in their books. -/
def Account.sumOrders (f : B → OpenLimitOrder → ℕ) (c : Contract B) (a : Account) : ℕ :=
  a.openOrders.total fun mid orders => orders.total fun o _ =>
    (c.restingOrder S mid o).elim 0 fun x => f x.1 x.2

/-- The bytes an account causes: its record, and what its orders take up in the
    records of their markets. -/
def Account.usedBytes (usage : B → OpenLimitOrder → ℕ) (c : Contract B) (id : AccountId)
    (a : Account) : ℕ :=
  a.recordSize id + a.sumOrders S usage c

/-- The number of open orders that have a client id. -/
def Account.nClientIds (c : Contract B) (a : Account) : ℕ :=
  a.sumOrders S (fun _ x => if x.clientId.isSome then 1 else 0) c

end TonicDex
