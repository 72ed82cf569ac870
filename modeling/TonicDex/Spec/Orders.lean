/-
  What placing an order and a hop of a swap do.

  `Traded` is common to all order paths: the engine matched the order `n`, the
  fills were settled and the fee accrued.  `OrderRun` adds what `new_order`
  does to the taker's account, `HopRun` what a hop takes in and puts out.
-/
import TonicDex.Spec.Lots

namespace TonicDex

variable {B : Type} {S : Sdk B} {c c' : Contract B} {mid : MarketId} {m m' : Market B}
  {env : Env} {taker : AccountId} {a a' : Account} {p : NewOrderParams}

/-! ## Handing an order to the engine -/

/-- The engine's view of an order in a market. -/
structure NewOrder.Of (n : NewOrder) (m : Market B) : Prop where
  denom : m.denom < 2 ^ 128
  quoteLot : n.quoteLotSize = m.quoteToken.lotSize
  baseLot : n.baseLotSize = m.baseToken.lotSize
  baseDenom : n.baseDenomination = m.denom

/-- A hop has one order. -/
theorem SwapSized.eq_swapOrder {n : NewOrder} {side : Side} {amount : ℕ}
    (h : SwapSized m side amount n) (hof : n.Of m) (htype : n.orderType = .market) :
    n = m.swapOrder n.sequenceNumber side amount := by
  cases n
  rw [Market.swapOrder, NewOrder.mk.injEq]
  exact ⟨rfl, h.price, h.qty, h.budget, h.ofSide, htype, hof.quoteLot, hof.baseDenom, hof.baseLot,
    h.client⟩

/-- So has `new_order`. -/
theorem OrderSized.orderFor_eq {n : NewOrder} (h : OrderSized m p n) (hof : n.Of m)
    (hside : n.side = p.side) (htype : n.orderType = p.orderType)
    (hclient : n.clientId = p.clientId) : m.orderFor n.sequenceNumber p = some n := by
  have hlimit := h.limit_eq
  rw [Market.orderFor, h.lotsFor_eq, Option.map_some, ← hlimit, ← hside, ← htype, ← hclient,
    ← hof.quoteLot, ← hof.baseDenom, ← hof.baseLot]

theorem Market.placeOrder_ok {seq qty : ℕ} {limit avail : Option ℕ} {side : Side}
    {type : OrderType} {client : Option ClientId} {r : PlaceOrderResult}
    (h : m.placeOrder S seq taker limit qty avail side type client = .ok (r, m')) :
    m.state = .active ∧ (NewOrder.mk seq limit qty avail side type m.quoteToken.lotSize m.denom
      m.baseToken.lotSize client).Of m ∧ ∃ b, S.placeOrder m.orderbook taker
        (NewOrder.mk seq limit qty avail side type m.quoteToken.lotSize m.denom
          m.baseToken.lotSize client) = .ok (r, b) ∧ m' = { m with orderbook := b } := by
  simp only [Market.placeOrder, Market.assertActive, Checked.bind_eq_ok, Checked.require_eq_ok,
    Market.baseDenomination_eq_ok, Checked.pure_eq_ok, Prod.mk.injEq] at h
  obtain ⟨_, hact, _, ⟨hd, rfl⟩, ⟨r', b⟩, hp, rfl, rfl⟩ := h
  exact ⟨hact, ⟨hd, rfl, rfl, rfl⟩, b, hp, rfl⟩

/-- The order `n` of `taker` was matched in the market `m`, giving `r` and the
    market `m'`, and the fills were settled. -/
structure Traded (S : Sdk B) (c : Contract B) (mid : MarketId) (m : Market B)
    (taker : AccountId) (n : NewOrder) (referrerId : Option AccountId) (r : PlaceOrderResult)
    (m' : Market B) (s : Settled) (c' : Contract B) where
  active : m.state = .active
  of : n.Of m
  seq : n.sequenceNumber = c.prevOrderSequenceNumber + 1
  placed : S.placeOrder m.orderbook taker n = .ok (r, m'.orderbook)
  market : m' = { m with
    orderbook := m'.orderbook
    feesAccrued := m.feesAccrued + s.net }
  settled : SettledBy S mid m n.side r.fills referrerId
    { c with prevOrderSequenceNumber := c.prevOrderSequenceNumber + 1 } s c'

theorem traded_of_ok {seq qty net : ℕ} {limit avail : Option ℕ} {side : Side} {type : OrderType}
    {client : Option ClientId} {r : PlaceOrderResult} {m₁ : Market B} {c₀ : Contract B}
    {s : Settled} {fee : FeeCalculator} {referrerId : Option AccountId} {bug : String}
    (hseq : c.nextSequenceNumber = .ok (seq, c₀))
    (hplace : m.placeOrder S seq taker limit qty avail side type client = .ok (r, m₁))
    (hfee : fee.takerFeeBaseRate = m.takerFeeBaseRate)
    (hset : settleMatches S c₀ mid m₁ fee side r.fills referrerId bug = .ok (s, c'))
    (hnet : s.netFee = .ok net) (hm : m₁.incrFeesAccrued net = .ok m') :
    ∃ n : NewOrder, n.limitPriceLots = limit ∧ n.maxQtyLots = qty ∧
      n.availableQuoteLots = avail ∧ n.side = side ∧ n.orderType = type ∧ n.clientId = client ∧
      Nonempty (Traded S c mid m taker n referrerId r m' s c') := by
  simp only [Contract.nextSequenceNumber, Checked.bind_eq_ok, Checked.fit_eq_ok,
    Checked.pure_eq_ok, Prod.mk.injEq] at hseq
  obtain ⟨_, ⟨-, rfl⟩, rfl, rfl⟩ := hseq
  obtain ⟨hact, hof, b, hb, rfl⟩ := Market.placeOrder_ok hplace
  simp only [Market.incrFeesAccrued, Checked.bind_eq_ok, Checked.fit_eq_ok, Checked.pure_eq_ok]
    at hm
  obtain ⟨_, ⟨-, rfl⟩, rfl⟩ := hm
  have hs := settleMatches_ok (m := { m with orderbook := b }) hfee hset
  obtain rfl := Settled.netFee_eq_ok hnet
  exact ⟨_, rfl, rfl, rfl, rfl, rfl, rfl, hs.map fun hs => ⟨hact, hof, rfl, hb, rfl, hs.withBook⟩⟩

/-! ## The taker's side -/

/-- What a taker receives. -/
def takerCredit (m : Market B) (side : Side) (s : Settled) : TokenType × ℕ :=
  match side with
  | .buy => (m.baseToken.tokenType, s.baseTraded)
  | .sell => (m.quoteToken.tokenType, s.quoteTraded - s.totalTakerFee)

/-- What a taker pays, with what a posted order locks. -/
def takerDebit (m : Market B) (side : Side) (s : Settled) (locked : ℕ) : TokenType × ℕ :=
  match side with
  | .buy => (m.quoteToken.tokenType, locked + s.quoteTraded + s.totalTakerFee)
  | .sell => (m.baseToken.tokenType, s.baseTraded + locked)

/-- What fills bring their taker, less the fee on a sale. -/
def Market.takerGain (m : Market B) (side : Side) (fills : List Match) : ℕ :=
  match side with
  | .buy => (m.totals fills).baseTraded
  | .sell => (m.totals fills).quoteTraded - m.takerFeeOf (m.totals fills).quoteTraded

/-- What they cost, with the fee on a purchase. -/
def Market.takerCost (m : Market B) (side : Side) (fills : List Match) : ℕ :=
  match side with
  | .buy => (m.totals fills).quoteTraded + m.takerFeeOf (m.totals fills).quoteTraded
  | .sell => (m.totals fills).baseTraded

theorem Traded.takerGain_eq {n : NewOrder} {referrerId : Option AccountId} {r : PlaceOrderResult}
    {s : Settled} (h : Traded S c mid m taker n referrerId r m' s c') (side : Side) :
    (takerCredit m side s).2 = m.takerGain side r.fills := by
  have hquote := congrArg MakerSettlementResult.quoteTraded h.settled.totals
  have hbase := congrArg MakerSettlementResult.baseTraded h.settled.totals
  cases side with
  | buy => exact hbase
  | sell => simp only [takerCredit, Market.takerGain, hquote, h.settled.fee]

theorem Traded.takerCost_eq {n : NewOrder} {referrerId : Option AccountId} {r : PlaceOrderResult}
    {s : Settled} (h : Traded S c mid m taker n referrerId r m' s c') (side : Side) :
    (takerDebit m side s 0).2 = m.takerCost side r.fills := by
  have hquote := congrArg MakerSettlementResult.quoteTraded h.settled.totals
  have hbase := congrArg MakerSettlementResult.baseTraded h.settled.totals
  cases side with
  | buy => simp only [takerDebit, Market.takerCost, hquote, h.settled.fee, Nat.zero_add]
  | sell => exact hbase

/-- The taker's account is credited and debited, in either order. -/
def TakerPaid (S : Sdk B) (a : Account) (credit debit : TokenType × ℕ) (a' : Account) : Prop :=
  (∃ b, a.deposit S credit.1 credit.2 = .ok b ∧ b.withdraw S debit.1 debit.2 = .ok a') ∨
    ∃ b, a.withdraw S debit.1 debit.2 = .ok b ∧ b.deposit S credit.1 credit.2 = .ok a'

namespace TakerPaid

variable {credit debit : TokenType × ℕ}

theorem openOrders (h : TakerPaid S a credit debit a') : a'.openOrders = a.openOrders := by
  obtain ⟨b, h1, h2⟩ | ⟨b, h1, h2⟩ := h
  · rw [← (Account.withdraw_eq_ok.1 h2).2, ← (Account.deposit_eq_ok.1 h1).2]; rfl
  · rw [← (Account.deposit_eq_ok.1 h2).2, ← (Account.withdraw_eq_ok.1 h1).2]; rfl

theorem storageBalance (h : TakerPaid S a credit debit a') :
    a'.storageBalance = a.storageBalance := by
  obtain ⟨b, h1, h2⟩ | ⟨b, h1, h2⟩ := h
  · rw [← (Account.withdraw_eq_ok.1 h2).2, ← (Account.deposit_eq_ok.1 h1).2]; rfl
  · rw [← (Account.deposit_eq_ok.1 h2).2, ← (Account.withdraw_eq_ok.1 h1).2]; rfl

/-- A withdrawal, as a sum. -/
theorem withdraw_balance {token : TokenType} {n : ℕ} (h : a.withdraw S token n = .ok a')
    (k : String) : a'.balance k + (if k = S.key token then n else 0) = a.balance k := by
  obtain ⟨⟨x, hx, hle⟩, rfl⟩ := Account.withdraw_eq_ok.1 h
  exact Account.balance_debit_add (by rw [Account.balance_of_lookup hx]; exact hle)

/-- The balances after both, as a sum. -/
theorem balance (h : TakerPaid S a credit debit a') (k : String) :
    a'.balance k + (if k = S.key debit.1 then debit.2 else 0) =
      a.balance k + (if k = S.key credit.1 then credit.2 else 0) := by
  obtain ⟨b, h1, h2⟩ | ⟨b, h1, h2⟩ := h
  · rw [withdraw_balance h2, ← (Account.deposit_eq_ok.1 h1).2, Account.balance_credit]
  · have h3 := withdraw_balance h1 k
    rw [← (Account.deposit_eq_ok.1 h2).2, Account.balance_credit]
    omega

end TakerPaid

/-! ## `new_order` -/

/-- What a posted order locks, in the token its side pays with. -/
def lockedBy (m : Market B) (side : Side) (openQtyLots limitPrice : ℕ) : ℕ :=
  match side with
  | .buy => openQtyLots * m.baseToken.lotSize * limitPrice / m.denom
  | .sell => openQtyLots * m.baseToken.lotSize

/-- What an order path does, up to the saving of its copies. -/
structure PathRun (S : Sdk B) (env : Env) (c : Contract B) (mid : MarketId) (m : Market B)
    (taker : AccountId) (a : Account) (p : NewOrderParams) (done : OrderDone B) where
  n : NewOrder
  s : Settled
  paid : Account
  locked : ℕ
  side : n.side = p.side
  type : n.orderType = p.orderType
  client : n.clientId = p.clientId
  sized : OrderSized m p n
  traded : Traded S c mid m taker n p.referrerId done.result done.market s done.contract
  takerPaid : TakerPaid S a (takerCredit m p.side s) (takerDebit m p.side s locked) paid
  /-- a limit order is credited first -/
  creditedFirst : p.orderType ≠ .market →
    ∃ b, a.deposit S (takerCredit m p.side s).1 (takerCredit m p.side s).2 = .ok b ∧
      b.withdraw S (takerDebit m p.side s locked).1 (takerDebit m p.side s locked).2 = .ok paid
  feeCovered : p.side = .sell → s.totalTakerFee ≤ s.quoteTraded
  limit : p.orderType ≠ .market → ∃ limit, p.limitPrice = some limit ∧
    m.quoteToken.lotSize ≠ 0 ∧ n.limitPriceLots = some (asU64 (limit / m.quoteToken.lotSize)) ∧
    locked = lockedBy m p.side done.result.openQtyLots limit ∧
    savePosted env mid m paid done.result n.maxQtyLots = .ok done.takerAccount
  market : p.orderType = .market → n.limitPriceLots = none ∧ locked = 0 ∧
    done.takerAccount = paid
  /-- what is locked was computed without overflow -/
  fits : p.orderType ≠ .market → done.result.openQtyLots * m.baseToken.lotSize < 2 ^ 128 ∧
    (p.side = .buy → ∀ limit, p.limitPrice = some limit →
      done.result.openQtyLots * m.baseToken.lotSize * limit < 2 ^ 256 ∧ locked < 2 ^ 128)

/-- Recording an order changes nothing but the orders of its market. -/
theorem savePosted_ok {q : ℕ} {r : PlaceOrderResult}
    (h : savePosted env mid m a r q = .ok a') :
    (r.isPosted = false ∧ a' = a) ∨ (r.isPosted = true ∧ ∃ os, a' = a.setOrders mid os ∧
      ((a.openOrders.lookup mid = none ∧ os = AList.insert r.id ⟨q, env.blockTimestamp⟩ ∅) ∨
        ∃ old, a.openOrders.lookup mid = some old ∧ old.size < m.maxOrdersPerAccount ∧
          os = old.insert r.id ⟨q, env.blockTimestamp⟩)) := by
  unfold savePosted at h
  split_ifs at h with hp
  · refine .inr ⟨hp, ?_⟩
    unfold Account.saveNewOrderInfo at h
    rcases hos : a.openOrders.lookup mid with _ | os
    · simp only [hos, Checked.pure_eq_ok] at h
      exact ⟨_, h.symm, .inl ⟨rfl, rfl⟩⟩
    · simp only [hos] at h
      split_ifs at h with hlt
      simp only [Checked.pure_eq_ok] at h
      exact ⟨_, h.symm, .inr ⟨os, rfl, not_le.1 hlt, rfl⟩⟩
  · simp only [Checked.pure_eq_ok] at h
    exact .inl ⟨Bool.not_eq_true _ ▸ hp, h.symm⟩

/-- The taker's account at the end of an order path is the one that paid, but
    for the orders of the market. -/
theorem PathRun.takerAccount_eq {done : OrderDone B} (h : PathRun S env c mid m taker a p done) :
    done.takerAccount = { h.paid with openOrders := done.takerAccount.openOrders } := by
  by_cases ht : p.orderType = .market
  · rw [(h.market ht).2.2]
  · obtain ⟨_, -, -, -, -, hsave⟩ := h.limit ht
    obtain ⟨-, he⟩ | ⟨-, os, he, -⟩ := savePosted_ok hsave
    · rw [he]
    · rw [he]; rfl

theorem PathRun.storageBalance {done : OrderDone B} (h : PathRun S env c mid m taker a p done) :
    done.takerAccount.storageBalance = a.storageBalance := by
  rw [h.takerAccount_eq]
  exact h.takerPaid.storageBalance

/-- The taker's balances at the end of an order path, as a sum. -/
theorem PathRun.balance {done : OrderDone B} (h : PathRun S env c mid m taker a p done)
    (k : String) : done.takerAccount.balance k +
        (if k = S.key (takerDebit m p.side h.s h.locked).1
          then (takerDebit m p.side h.s h.locked).2 else 0) =
      a.balance k + if k = S.key (takerCredit m p.side h.s).1
          then (takerCredit m p.side h.s).2 else 0 := by
  have hsame : done.takerAccount.balance k = h.paid.balance k := by rw [h.takerAccount_eq]; rfl
  rw [hsame]
  exact h.takerPaid.balance k

theorem internalPlaceLimitBuy_ok {done : OrderDone B} (hside : p.side = .buy)
    (htype : p.orderType ≠ .market)
    (h : internalPlaceLimitBuy S env c mid m taker a p = .ok done) :
    Nonempty (PathRun S env c mid m taker a p done) := by
  simp only [internalPlaceLimitBuy, Checked.bind_eq_ok, Checked.require_eq_ok,
    Checked.expect_eq_ok, Checked.fit_eq_ok, Checked.pure_eq_ok,
    Market.quoteNativeToLots_eq_ok, Market.baseNativeToLots_eq_ok, Market.baseLotsToNative] at h
  obtain ⟨_, -, maxDebit, hdebit, avail, havail, _, ⟨-, rfl⟩, _, hpos, limit, hlimit, _,
    ⟨hlot, rfl⟩, _, ⟨-, rfl⟩, afford, hafford, h⟩ := h
  obtain ⟨⟨seq, c₀⟩, hseq, ⟨r, m₁⟩, hplace, ⟨s, c₁⟩, hset, h⟩ := h
  obtain ⟨net, hnet, m₂, hm, a₁, ha₁, locked, hlocked, _, ⟨-, rfl⟩, _, ⟨-, rfl⟩, h⟩ := h
  obtain ⟨_, -, a₂, ha₂, a₃, ha₃, _, ⟨hopen, -⟩, _, -, rfl⟩ := h
  obtain ⟨n, hl, hq, hb, hns, hnt, hcl, ⟨tr⟩⟩ := traded_of_ok hseq hplace rfl hset hnet hm
  obtain rfl := FeeCalculator.withholdTakerFee_eq_ok (m := m) rfl havail
  have hsized : BidSized m p limit maxDebit afford n :=
    ⟨hns, hlimit, hdebit, hpos, hafford, hl, hq, hb⟩
  have hm₂ := tr.market
  rw [hm₂] at hlocked hopen
  simp only [Market.quoteLocked, Checked.bind_eq_ok, Checked.fit_eq_ok,
    Market.baseDenomination_eq_ok] at hlocked
  obtain ⟨_, ⟨-, rfl⟩, _, ⟨hvolume, rfl⟩, _, ⟨-, rfl⟩, hlock, hlocked⟩ := hlocked
  have hpaid : ∃ b, a.deposit S (takerCredit m p.side s).1 (takerCredit m p.side s).2 = .ok b ∧
      b.withdraw S (takerDebit m p.side s locked).1 (takerDebit m p.side s locked).2 = .ok a₂ := by
    refine ⟨a₁, ?_, ?_⟩
    · rw [hm₂] at ha₁; rw [hside]; exact ha₁
    · rw [hm₂] at ha₂; rw [hside]; exact ha₂
  refine ⟨⟨n, s, a₂, locked, hns, hnt, hcl, .bid htype hside hsized, tr, .inl hpaid,
    fun _ => hpaid, ?_, fun _ => ⟨limit, hlimit, hlot, hl, ?_, ?_⟩, fun ht => absurd ht htype,
    fun _ => ⟨hopen, fun _ l hl' => ?_⟩⟩⟩
  · rw [hside]; intro h; cases h
  · rw [hside, ← hlocked]; rfl
  · rw [hm₂] at ha₃; rw [hq]; exact ha₃
  · cases hlimit.symm.trans hl'
    exact ⟨hvolume, hlocked ▸ hlock⟩

theorem internalPlaceLimitSell_ok {done : OrderDone B} (hside : p.side = .sell)
    (htype : p.orderType ≠ .market)
    (h : internalPlaceLimitSell S env c mid m taker a p = .ok done) :
    Nonempty (PathRun S env c mid m taker a p done) := by
  simp only [internalPlaceLimitSell, Checked.bind_eq_ok, Checked.require_eq_ok,
    Checked.expect_eq_ok, Checked.fit_eq_ok, Checked.pure_eq_ok, Checked.sub_eq_ok,
    Market.quoteNativeToLots_eq_ok, Market.baseNativeToLots_eq_ok, Market.baseLotsToNative] at h
  obtain ⟨_, -, _, -, _, ⟨-, rfl⟩, limit, hlimit, _, ⟨hlot, rfl⟩, h⟩ := h
  obtain ⟨⟨seq, c₀⟩, hseq, ⟨r, m₁⟩, hplace, ⟨s, c₁⟩, hset, h⟩ := h
  obtain ⟨net, hnet, m₂, hm, _, ⟨hfee, rfl⟩, a₁, ha₁, locked, ⟨hopen, hlocked⟩, h⟩ := h
  obtain ⟨_, ⟨-, rfl⟩, _, -, a₂, ha₂, a₃, ha₃, _, -, rfl⟩ := h
  obtain ⟨n, hl, hq, hb, hns, hnt, hcl, ⟨tr⟩⟩ := traded_of_ok hseq hplace rfl hset hnet hm
  have hm₂ := tr.market
  have hpaid : ∃ b, a.deposit S (takerCredit m p.side s).1 (takerCredit m p.side s).2 = .ok b ∧
      b.withdraw S (takerDebit m p.side s locked).1 (takerDebit m p.side s locked).2 = .ok a₂ := by
    refine ⟨a₁, ?_, ?_⟩
    · rw [hm₂] at ha₁; rw [hside]; exact ha₁
    · rw [hm₂] at ha₂; rw [hside]; exact ha₂
  refine ⟨⟨n, s, a₂, locked, hns, hnt, hcl, .ask htype hside ⟨hns, hlimit, hl, hq, hb⟩, tr,
    .inl hpaid, fun _ => hpaid, fun _ => hfee, fun _ => ⟨limit, hlimit, hlot, hl, ?_, ?_⟩,
    fun ht => absurd ht htype, fun _ => ⟨?_, fun hb => by rw [hside] at hb; cases hb⟩⟩⟩
  · rw [hm₂] at hlocked; rw [hside, ← hlocked]; rfl
  · rw [hm₂] at ha₃; rw [hq]; exact ha₃
  · rw [hm₂] at hopen; exact hopen

theorem takerAmounts_eq_ok {s : Settled} {side : Side} {inn out : ℕ}
    (h : takerAmounts s side = .ok (inn, out)) :
    (takerDebit m side s 0).2 = inn ∧ (takerCredit m side s).2 = out ∧
      (side = .sell → s.totalTakerFee ≤ s.quoteTraded) := by
  cases side with
  | buy =>
    simp only [takerAmounts, Checked.bind_eq_ok, Checked.fit_eq_ok, Checked.pure_eq_ok,
      Prod.mk.injEq] at h
    obtain ⟨_, ⟨-, rfl⟩, rfl, rfl⟩ := h
    exact ⟨by simp [takerDebit], rfl, fun h => by cases h⟩
  | sell =>
    simp only [takerAmounts, Checked.bind_eq_ok, Checked.sub_eq_ok, Checked.pure_eq_ok,
      Prod.mk.injEq] at h
    obtain ⟨_, ⟨hle, rfl⟩, rfl, rfl⟩ := h
    exact ⟨rfl, rfl, fun _ => hle⟩

theorem tradedTokens_eq (m : Market B) (side : Side) (s : Settled) (locked : ℕ) :
    tradedTokens m side = ((takerDebit m side s locked).1, (takerCredit m side s).1) := by
  cases side <;> rfl

theorem internalPlaceMarketOrder_ok {done : OrderDone B} (htype : p.orderType = .market)
    (h : internalPlaceMarketOrder S c mid m taker a p = .ok done) :
    Nonempty (PathRun S env c mid m taker a p done) := by
  simp only [internalPlaceMarketOrder, Checked.bind_eq_ok, Checked.require_eq_ok,
    Checked.pure_eq_ok, Market.baseNativeToLots_eq_ok] at h
  obtain ⟨_, ⟨-, rfl⟩, _, hpos, avail, havail, h⟩ := h
  obtain ⟨⟨seq, c₀⟩, hseq, ⟨r, m₁⟩, hplace, ⟨s, c₁⟩, hset, h⟩ := h
  obtain ⟨⟨inn, out⟩, hamt, _, -, a₁, ha₁, a₂, ha₂, net, hnet, m₂, hm, _, -, rfl⟩ := h
  obtain ⟨n, hl, hq, hb, hns, hnt, hcl, ⟨tr⟩⟩ := traded_of_ok hseq hplace rfl hset hnet hm
  have hsized : MarketSized m p n := ⟨hns, hl, hq, hq ▸ hpos,
    hb.trans (marketOrderBudget_eq_ok rfl havail)⟩
  obtain ⟨-, -, b, -, rfl⟩ := Market.placeOrder_ok hplace
  obtain ⟨rfl, rfl, hfee⟩ := takerAmounts_eq_ok (m := m) hamt
  have htok : tradedTokens { m with orderbook := b } p.side = tradedTokens m p.side := by
    cases p.side <;> rfl
  rw [htok, tradedTokens_eq m p.side s 0] at ha₁ ha₂
  exact ⟨⟨n, s, a₂, 0, hns, hnt, hcl, .market htype hsized, tr, .inr ⟨a₁, ha₁, ha₂⟩,
    fun ht => absurd htype ht, hfee, fun ht => absurd htype ht, fun _ => ⟨hl, rfl, rfl⟩,
    fun ht => absurd htype ht⟩⟩

theorem placeByType_ok {done : OrderDone B}
    (h : placeByType S env c mid m taker a p = .ok done) :
    Nonempty (PathRun S env c mid m taker a p done) := by
  unfold placeByType at h
  split_ifs at h with ht
  · exact internalPlaceMarketOrder_ok ht h
  · rcases hs : p.side with _ | _
    · rw [hs] at h; exact internalPlaceLimitBuy_ok hs ht h
    · rw [hs] at h; exact internalPlaceLimitSell_ok hs ht h

/-- What a `new_order` that returns does. -/
structure OrderRun (S : Sdk B) (env : Env) (c : Contract B) (mid : MarketId) (p : NewOrderParams)
    (r : PlaceOrderResult) (c' : Contract B) where
  m : Market B
  a : Account
  done : OrderDone B
  active : c.state = .active
  valid : 0 < p.quantity ∧ p.limitPrice ≠ some 0 ∧ p.maxSpend ≠ some 0
  found : c.markets.lookup mid = some m
  account : c.accounts.lookup env.predecessorAccountId = some a
  path : PathRun S env c mid m env.predecessorAccountId a p done
  covered : done.takerAccount.isStorageCovered S
  result : r = done.result
  state : c' = (done.contract.putAccount env.predecessorAccountId
    done.takerAccount).internalSaveMarket mid done.market

theorem newOrder_ok {r : PlaceOrderResult} (h : newOrder S env c mid p = .ok (r, c')) :
    Nonempty (OrderRun S env c mid p r c') := by
  simp only [newOrder, assertValidOrder, Contract.assertActive, Checked.bind_eq_ok,
    Checked.require_eq_ok, Contract.internalUnwrapMarket_eq_ok,
    Contract.internalUnwrapAccount_eq_ok, Contract.internalSaveAccount_eq_ok, Checked.pure_eq_ok,
    Prod.mk.injEq] at h
  obtain ⟨_, hact, _, ⟨_, hl, _, hs, hq⟩, m, hm, _, -, a, ha, done, hdone, _, ⟨hcov, rfl⟩, rfl,
    rfl⟩ := h
  obtain ⟨path⟩ := placeByType_ok hdone
  exact ⟨⟨m, a, done, hact, ⟨hq, hl, hs⟩, hm, ha, path, hcov, rfl, rfl⟩⟩

/-! ## Swaps -/

/-- What a hop of a swap that returns does. -/
structure HopRun (S : Sdk B) (env : Env) (c : Contract B) (swap : SwapAction) (token : TokenType)
    (amount : ℕ) (out : SwapResult) (c' : Contract B) where
  m : Market B
  m' : Market B
  n : NewOrder
  r : PlaceOrderResult
  s : Settled
  settled : Contract B
  found : c.markets.lookup swap.marketId = some m
  side : n.side = swap.side
  type : n.orderType = .market
  sized : SwapSized m swap.side amount n
  traded : Traded S c swap.marketId m env.signerAccountId n swap.referrerId r m' s settled
  input : (takerDebit m swap.side s 0).1 = token
  spent : (takerDebit m swap.side s 0).2 + out.inputRefund = amount
  output : takerCredit m swap.side s = (out.outputToken, out.outputAmount)
  minOutput : swap.minOutputToken.getD 0 ≤ out.outputAmount
  feeCovered : swap.side = .sell → s.totalTakerFee ≤ s.quoteTraded
  state : c' = settled.internalSaveMarket swap.marketId m'

/-- The orders that are handed over are those of the input and the state. -/
theorem PathRun.order_eq {done : OrderDone B} (h : PathRun S env c mid m taker a p done) :
    m.orderFor (c.prevOrderSequenceNumber + 1) p = some h.n :=
  h.traded.seq ▸ h.sized.orderFor_eq h.traded.of h.side h.type h.client

theorem HopRun.order_eq {swap : SwapAction} {token : TokenType} {amount : ℕ} {out : SwapResult}
    (h : HopRun S env c swap token amount out c') :
    h.n = h.m.swapOrder (c.prevOrderSequenceNumber + 1) swap.side amount :=
  h.traded.seq ▸ h.sized.eq_swapOrder h.traded.of h.type

/-- The amounts a swap reports. -/
theorem swapAmounts_ok {s : Settled} {side : Side} {inn qty out refund : ℕ}
    {fee : FeeCalculator} {avail : Option ℕ} (hq : swapQuantity fee side inn = .ok (qty, avail))
    (ho : outputAmount s side = .ok out) (hr : inputRefund s side inn qty = .ok refund) :
    (takerDebit m side s 0).2 + refund = inn ∧ (takerCredit m side s).2 = out ∧
      (side = .sell → s.totalTakerFee ≤ s.quoteTraded) := by
  cases side with
  | buy =>
    simp only [outputAmount, inputRefund, Checked.bind_eq_ok, Checked.sub_eq_ok,
      Checked.pure_eq_ok] at ho hr
    obtain ⟨_, ⟨h1, rfl⟩, h2, rfl⟩ := hr
    refine ⟨?_, ho, fun h => by cases h⟩
    simp only [takerDebit]; omega
  | sell =>
    simp only [swapQuantity, outputAmount, inputRefund, Checked.sub_eq_ok, Checked.pure_eq_ok,
      Prod.mk.injEq] at hq ho hr
    obtain ⟨rfl, -⟩ := hq
    refine ⟨?_, ho.2, fun _ => ho.1⟩
    simp only [takerDebit]; omega

theorem executeSwapAction_ok {swap : SwapAction} {token : TokenType} {amount : ℕ}
    {out : SwapResult} (h : executeSwapAction S env c swap token amount = .ok (out, c')) :
    Nonempty (HopRun S env c swap token amount out c') := by
  simp only [executeSwapAction, internalSwap, Checked.bind_eq_ok,
    Checked.require_eq_ok, Contract.internalUnwrapMarket_eq_ok, Checked.pure_eq_ok,
    Prod.mk.injEq] at h
  obtain ⟨m, hm, _, htok, ⟨_, m', _⟩, hswap, _, hmin, rfl, rfl⟩ := h
  obtain ⟨_, -, ⟨qty, avail⟩, hqty, ⟨seq, c₀⟩, hseq, lots, hlots, availLots, havail, h⟩ := hswap
  obtain ⟨⟨r, m₁⟩, hplace, ⟨s, c₁⟩, hset, h⟩ := h
  obtain ⟨net, hnet, _, hm₁, o, ho, refund, hrefund, _, -, rfl, rfl, rfl⟩ := h
  obtain ⟨n, hl, hq, hb, hns, hnt, hcl, ⟨tr⟩⟩ := traded_of_ok hseq hplace rfl hset hnet hm₁
  have hm' := tr.market
  obtain ⟨hspent, hout, hfee⟩ := swapAmounts_ok (m := m) hqty ho hrefund
  have htok' : tradedTokens m' swap.side = tradedTokens m swap.side := by
    rw [hm']; cases swap.side <;> rfl
  rw [tradedTokens_eq m swap.side s 0] at htok htok'
  have hsized := swapSized (m := m) rfl hqty hlots havail hns hl hq hb hcl
  refine ⟨⟨m, m', n, r, s, c₁, hm, hns, hnt, hsized, tr, htok.symm, hspent, ?_, hmin, hfee, rfl⟩⟩
  simp only at hout ⊢
  rw [htok', ← hout]

end TonicDex
