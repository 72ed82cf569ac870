/-
  What the contract calls and the repository does not hold: the libraries
  `tonic_sdk` (token keys, the matching engine, `BorshSize`) and `near_sdk`
  (hashing, prices of storage, the order of a hash map's keys).

  All of it is a parameter `S : Sdk B`, where `B` is the type of order books.
  What the contract relies on is stated by `TokenLaws`, `SizeLaws` and
  `KeysLaw`, and for the engine by `BookLaws`, with `Placed` for the effect of
  `place_order`, `PostLaw`, `PanicLaw`, `IdLaw`, and `MatchLaw` for which orders
  are filled.  Theorems take those they need as hypotheses; the library of
  `TonicDex.Engine` satisfies all of them.
-/
import TonicDex.Lib.Consume
import TonicDex.Model.Types

namespace TonicDex

/-- The libraries the contract is built on. -/
structure Sdk (B : Type) where
  /-- `TokenType::key` -/
  key : TokenType → String
  /-- `TokenType::from_key` -/
  fromKey : String → Call TokenType
  /-- `env::sha256_array` -/
  sha256 : String → MarketId
  /-- `env::current_account_id` -/
  currentAccountId : AccountId
  /-- `env::storage_byte_cost` -/
  storageByteCost : ℕ
  /-- `BorshSize::borsh_size` of a map of token balances -/
  balancesBorshSize : HMap String ℕ → ℕ
  /-- what `balancesBorshSize` charges for the entry of a token key -/
  entryBorshSize : String → ℕ
  /-- `borsh_size::HASH_SET_OVERHEAD` -/
  hashSetOverhead : ℕ
  /-- `HashMap::into_keys`, whose order is arbitrary -/
  intoKeys : OrderInfos → List OrderId
  /-- `Orderbook::default` -/
  emptyBook : B
  /-- `orderbook.bids.iter()` -/
  bids : B → List OpenLimitOrder
  /-- `orderbook.asks.iter()` -/
  asks : B → List OpenLimitOrder
  /-- `Orderbook::find_bbo` -/
  findBbo : B → Side → Option OpenLimitOrder
  /-- `Orderbook::get_order` -/
  getOrder : B → OrderId → Option OpenLimitOrder
  /-- `Orderbook::place_order` -/
  placeOrder : B → AccountId → NewOrder → Call (PlaceOrderResult × B)
  /-- `Orderbook::cancel_order` -/
  cancelOrder : B → OrderId → Option CancelOrderResult × B
  /-- `Orderbook::cancel_orders` -/
  cancelOrders : B → List OrderId → Call (List CancelOrderResult × B)
  /-- the sequence number an order id was made from -/
  seqOf : OrderId → ℕ

namespace Sdk

variable {B : Type} (S : Sdk B)

/-- The resting orders of one side. -/
def resting (b : B) : Side → List OpenLimitOrder
  | .buy => S.bids b
  | .sell => S.asks b

/-- All resting orders, asks first. -/
def orders (b : B) : List OpenLimitOrder := S.asks b ++ S.bids b

/-- Cancel the orders with the given ids one after the other, skipping ids that
    do not rest. -/
def cancelEach : B → List OrderId → List OpenLimitOrder × B
  | b, [] => ([], b)
  | b, id :: ids =>
    let (r, b) := S.cancelOrder b id
    let (os, b) := cancelEach b ids
    (r.toList.map CancelOrderResult.order ++ os, b)

/-- The ids of all resting orders. -/
def ids (b : B) : List OrderId := (S.orders b).map OpenLimitOrder.id

/-- The best prices that a cancellation reports are prices of orders in the book. -/
def ReportsPrices (b : B) (r : CancelOrderResult) : Prop :=
  ∀ p, r.bestBid = some p ∨ r.bestAsk = some p → ∃ o ∈ S.orders b, o.limitPriceLots = p

variable {S} {b : B} {o : OpenLimitOrder} {side : Side}

theorem mem_orders : o ∈ S.orders b ↔ ∃ side, o ∈ S.resting b side := by
  rw [orders, List.mem_append]
  constructor
  · rintro (h | h)
    · exact ⟨.sell, h⟩
    · exact ⟨.buy, h⟩
  · rintro ⟨_ | _, h⟩
    · exact .inr h
    · exact .inl h

theorem mem_ids {id : OrderId} : id ∈ S.ids b ↔ ∃ o ∈ S.orders b, o.id = id := List.mem_map

theorem orders_perm (b : B) (side : Side) :
    (S.orders b).Perm (S.resting b side ++ S.resting b side.opposite) := by
  cases side with
  | buy => exact List.perm_append_comm
  | sell => exact List.Perm.refl _

theorem ids_perm (b : B) (side : Side) : (S.ids b).Perm
    ((S.resting b side).map OpenLimitOrder.id ++
      (S.resting b side.opposite).map OpenLimitOrder.id) := by
  rw [ids, ← List.map_append]
  exact (orders_perm b side).map _

theorem resting_nodup (h : (S.ids b).Nodup) (side : Side) :
    ((S.resting b side).map OpenLimitOrder.id).Nodup := by
  rw [ids, orders, List.map_append, List.nodup_append] at h
  cases side with
  | buy => exact h.2.1
  | sell => exact h.1

end Sdk

/-! ## The matching engine -/

/-- `floor(qty * price * L_q * L_b / 10^D_b)`, the native quote amount of
    `qty` base lots at `price` quote lots. -/
def quoteValue (qty price quoteLotSize baseLotSize baseDenomination : ℕ) : ℕ :=
  qty * price * quoteLotSize * baseLotSize / baseDenomination

/-- A fill takes its quantity off the order it names, or the order off the book. -/
def fillRule : Consumption OpenLimitOrder Match OrderId where
  key := OpenLimitOrder.id
  target := Match.makerOrderId
  reduce o f :=
    if f.didRemoveMakerOrder then none
    else some { o with openQtyLots := o.openQtyLots - f.fillQtyLots }
  key_reduce := by
    intro o f o' h
    split_ifs at h
    cases h; rfl

/-- `f` is a possible fill of the resting order `o` by the order `n` of `taker`. -/
structure Fillable (taker : AccountId) (n : NewOrder) (o : OpenLimitOrder) (f : Match) :
    Prop where
  maker : f.makerUserId = o.ownerId
  other : o.ownerId ≠ taker
  price : f.fillPriceLots = o.limitPriceLots
  limit : ∀ p, n.limitPriceLots = some p →
    match n.side with
    | .buy => o.limitPriceLots ≤ p
    | .sell => p ≤ o.limitPriceLots
  qty : f.fillQtyLots ≤ o.openQtyLots
  removed : f.didRemoveMakerOrder = true ↔ f.fillQtyLots = o.openQtyLots
  paid : f.nativeQuotePaid =
    quoteValue f.fillQtyLots f.fillPriceLots n.quoteLotSize n.baseLotSize n.baseDenomination

namespace NewOrder

variable (n : NewOrder) (o : OpenLimitOrder)

/-- The price of a resting order is within the limit of `n`. -/
def crosses : Bool :=
  match n.limitPriceLots with
  | none => true
  | some p =>
    match n.side with
    | .buy => decide (o.limitPriceLots ≤ p)
    | .sell => decide (p ≤ o.limitPriceLots)

/-- The fill of `qty` lots of `o`, at its price. -/
def fill (qty : ℕ) : Match where
  makerOrderId := o.id
  makerUserId := o.ownerId
  fillQtyLots := qty
  fillPriceLots := o.limitPriceLots
  nativeQuotePaid :=
    quoteValue qty o.limitPriceLots n.quoteLotSize n.baseLotSize n.baseDenomination
  didRemoveMakerOrder := decide (qty = o.openQtyLots)

variable {n o} {taker : AccountId} {qty : ℕ}

theorem fillable_fill (ho : o.ownerId ≠ taker) (hc : n.crosses o = true)
    (hq : qty ≤ o.openQtyLots) : Fillable taker n o (n.fill o qty) where
  maker := rfl
  other := ho
  price := rfl
  limit := by
    intro p hp
    simp only [crosses, hp] at hc
    cases hs : n.side <;> simpa [hs] using hc
  qty := hq
  removed := by simp [fill]
  paid := rfl

end NewOrder

variable {B : Type}

/-- How an engine matches: `queue` lists a side in the order in which it is matched,
    `affordable n fs o` is how many lots of `o` the budget of `n` pays for after its
    fills `fs`, and `rejects n fs` tells whether `n` is rejected instead of having the
    fills `fs`. -/
structure Matching (B : Type) where
  queue : B → Side → List OpenLimitOrder
  affordable : NewOrder → List Match → OpenLimitOrder → ℕ
  rejects : NewOrder → List Match → Bool

namespace Matching

variable (M : Matching B) (taker : AccountId) (n : NewOrder)

/-- The lots of `o` that `n` takes after its fills `fs`: as many as are open, as it
    still wants, and as it can pay for if it has a budget. -/
def fillQty (fs : List Match) (o : OpenLimitOrder) : ℕ :=
  let qty := min (n.maxQtyLots - (fs.map Match.fillQtyLots).sum) o.openQtyLots
  if n.availableQuoteLots = none then qty else min qty (M.affordable n fs o)

/-- The fills of `n` by some orders, after its fills `fs`.  It passes over the orders of
    its owner, those beyond its limit, and those it takes nothing of.  (An engine may
    panic at an order of the same owner: then the order is not placed.) -/
def sweep : List Match → List OpenLimitOrder → List Match
  | _, [] => []
  | fs, o :: os =>
    if o.ownerId = taker ∨ n.crosses o = false ∨ M.fillQty n fs o = 0 then sweep fs os
    else
      let f := n.fill o (M.fillQty n fs o)
      f :: sweep (fs ++ [f]) os

/-- The fills that a side of a book offers to an order. -/
def offered (b : B) : List Match := M.sweep taker n [] (M.queue b n.side.opposite)

/-- The fills of an order that is placed.  One that is rejected has none. -/
def fills (b : B) : List Match :=
  if M.rejects n (M.offered taker n b) = true then [] else M.offered taker n b

end Matching

/-- What placing the order `n` of `taker` does to a book. -/
structure Placed (S : Sdk B) (b : B) (taker : AccountId) (n : NewOrder) (r : PlaceOrderResult)
    (b' : B) : Prop where
  seq : S.seqOf r.id = n.sequenceNumber
  filled : fillRule.Used (Fillable taker n) (S.resting b n.side.opposite) r.fills
    (S.resting b' n.side.opposite)
  posted : r.isPosted = true → n.orderType ≠ .market ∧ ∃ p, n.limitPriceLots = some p ∧
    (S.resting b' n.side).Perm
      (⟨r.id, taker, n.side, p, r.openQtyLots, n.clientId⟩ :: S.resting b n.side)
  not_posted : r.isPosted = false → r.openQtyLots = 0 ∧ S.resting b' n.side = S.resting b n.side
  qty : (r.fills.map Match.fillQtyLots).sum + r.openQtyLots ≤ n.maxQtyLots
  budget : ∀ q, n.availableQuoteLots = some q →
    (r.fills.map Match.nativeQuotePaid).sum ≤ q * n.quoteLotSize

/-- What the contract relies on of the order book. -/
structure BookLaws (S : Sdk B) : Prop where
  empty : ∀ side, S.resting S.emptyBook side = []
  bbo_mem : ∀ {b side o}, S.findBbo b side = some o → o ∈ S.resting b side
  bbo_none : ∀ {b side}, S.findBbo b side = none ↔ S.resting b side = []
  getOrder : ∀ {b id o}, (S.ids b).Nodup →
    (S.getOrder b id = some o ↔ o ∈ S.orders b ∧ o.id = id)
  place : ∀ {b taker n r b'}, (S.ids b).Nodup →
    (∀ id ∈ S.ids b, S.seqOf id < n.sequenceNumber) →
    S.placeOrder b taker n = .ok (r, b') → Placed S b taker n r b'
  cancel_some : ∀ {b o}, (S.ids b).Nodup → o ∈ S.orders b → ∃ r b',
    S.cancelOrder b o.id = (some r, b') ∧ r.order = o ∧
    (∀ side, S.resting b' side = (S.resting b side).filter (·.id ≠ o.id)) ∧
    S.ReportsPrices b r
  cancel_none : ∀ {b id}, id ∉ S.ids b → S.cancelOrder b id = (none, b)
  cancel_each : ∀ {b ids rs b'}, S.cancelOrders b ids = .ok (rs, b') →
    S.cancelEach b ids = (rs.map CancelOrderResult.order, b')
  cancel_prices : ∀ {b ids rs b'}, (S.ids b).Nodup → S.cancelOrders b ids = .ok (rs, b') →
    ∀ r ∈ rs, S.ReportsPrices b r
  cancel_resting : ∀ {b ids}, (S.ids b).Nodup → ids.Nodup → (∀ id ∈ ids, id ∈ S.ids b) →
    ∃ r, S.cancelOrders b ids = .ok r

/-- The engine matches as `M` says, within the budget, and rejects only orders that
    are to be filled not at all or whole. -/
structure MatchLaw (S : Sdk B) (M : Matching B) : Prop where
  queue : ∀ b side, (M.queue b side).Perm (S.resting b side)
  rejects : ∀ {n fs}, M.rejects n fs = true → n.orderType = .postOnly ∨ n.orderType = .fillOrKill
  budget : ∀ {taker n b q}, n.availableQuoteLots = some q →
    ((M.fills taker n b).map Match.nativeQuotePaid).sum ≤ q * n.quoteLotSize
  fills : ∀ {b taker n r b'}, S.placeOrder b taker n = .ok (r, b') → r.fills = M.fills taker n b

/-- The engine has messages of its own to panic with. -/
def PanicLaw (S : Sdk B) : Prop :=
  ∀ {b taker n e}, S.placeOrder b taker n = .error e → ∀ text, e ≠ .message text

/-- An order for at least one lot is posted only with something left open. -/
def PostLaw (S : Sdk B) : Prop :=
  ∀ {b taker n r b'}, S.placeOrder b taker n = .ok (r, b') → r.isPosted = true →
    n.maxQtyLots ≠ 0 → r.openQtyLots ≠ 0

/-- Order ids have 128 bits (`size::ORDER_ID`), given a sequence number of 64. -/
def IdLaw (S : Sdk B) : Prop :=
  ∀ {b taker n r b'}, S.placeOrder b taker n = .ok (r, b') → n.sequenceNumber < 2 ^ 64 →
    r.id < 2 ^ 128

/-! ## Tokens, sizes and hash maps -/

/-- What the contract relies on of token keys.  Two keys may still be read as
    one token. -/
structure TokenLaws (S : Sdk B) : Prop where
  key_injective : Function.Injective S.key

/-- What the contract relies on of the size of a map of balances: every entry
    is charged at least its serialized size. -/
structure SizeLaws (S : Sdk B) : Prop where
  insert_new : ∀ {m : HMap String ℕ} {k v}, m.lookup k = none →
    S.balancesBorshSize (m.insert k v) = S.balancesBorshSize m + S.entryBorshSize k
  insert_old : ∀ {m : HMap String ℕ} {k v x}, m.lookup k = some x →
    S.balancesBorshSize (m.insert k v) = S.balancesBorshSize m
  erase : ∀ {m : HMap String ℕ} {k x}, m.lookup k = some x →
    S.balancesBorshSize (m.erase k) + S.entryBorshSize k = S.balancesBorshSize m
  entry : ∀ k : String, 4 + k.utf8ByteSize + 16 ≤ S.entryBorshSize k

/-- A hash map lists each of its keys once. -/
def KeysLaw (S : Sdk B) : Prop := ∀ m : OrderInfos, (S.intoKeys m).Perm m.keys

end TonicDex
