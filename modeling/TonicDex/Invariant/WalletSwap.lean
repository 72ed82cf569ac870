/-
  Swaps against market orders.

  A swap and the market order it stands for (`MarketOrderFor`) are sized by
  different code, but hand the same order to the engine; what follows is the
  same matching and settling of fills (`TakesMarket`).  They differ in where
  the input comes from and where the output goes: the market order moves both
  in the taker's account, and so needs that the balances have room for them
  (`swap_is_market_order`).
-/
import TonicDex.Invariant.Budget

namespace TonicDex

variable {B : Type} {S : Sdk B} {c c' : Contract B} {mid : MarketId} {m m' : Market B} {env : Env}
  {taker : AccountId} {a : Account} {p : NewOrderParams} {n : NewOrder} {r : PlaceOrderResult}
  {side : Side} {inputAmount lots : ℕ} {avail : Option ℕ} {referrerId : Option AccountId}
  {s : Settled}

open Consult

/-- The parameters of the market order that a swap stands for: it sells the same
    quantity, or buys any quantity for the same maximum. -/
structure MarketOrderFor (side : Side) (inputAmount : ℕ) (referrerId : Option AccountId)
    (p : NewOrderParams) : Prop where
  ofSide : p.side = side
  type : p.orderType = .market
  quantity : p.quantity = swapped side inputAmount
  maxSpend : side = .buy → p.maxSpend = some inputAmount
  client : p.clientId = none
  referrer : p.referrerId = referrerId

/-! ## Sizing -/

theorem swapQuantity_fst {fee : FeeCalculator} {q : ℕ} {b : Option ℕ}
    (h : swapQuantity fee side inputAmount = .ok (q, b)) : q = swapped side inputAmount := by
  cases side with
  | buy =>
    simp only [swapQuantity, Checked.bind_eq_ok, Checked.pure_eq_ok, Prod.mk.injEq] at h
    obtain ⟨_, -, rfl, -⟩ := h
    rfl
  | sell =>
    simp only [swapQuantity, Checked.pure_eq_ok, Prod.mk.injEq] at h
    exact h.1.symm

/-- Both paths withhold the same fee from the same budget. -/
theorem swapBudget_iff {fee : FeeCalculator} {maxSpend : Option ℕ}
    (hmax : side = .buy → maxSpend = some inputAmount) :
    (∃ b, swapQuantity fee side inputAmount = .ok (swapped side inputAmount, b) ∧
      b.mapM m.quoteNativeToLots = .ok avail) ↔
      marketOrderBudget m fee side maxSpend = .ok avail := by
  cases side with
  | buy =>
    rw [hmax rfl]
    simp only [swapQuantity, swapped, marketOrderBudget, Checked.bind_eq_ok, Checked.pure_eq_ok,
      Prod.mk.injEq, true_and]
    constructor
    · rintro ⟨_, ⟨q, hq, rfl⟩, hb⟩
      simp only [Option.mapM_some, Checked.map_eq_ok] at hb
      obtain ⟨lots, hlots, rfl⟩ := hb
      exact ⟨q, hq, lots, hlots, rfl⟩
    · rintro ⟨q, hq, lots, hlots, rfl⟩
      refine ⟨some q, ⟨q, hq, rfl⟩, ?_⟩
      simp only [Option.mapM_some, Checked.map_eq_ok]
      exact ⟨lots, hlots, rfl⟩
  | sell =>
    simp only [swapQuantity, swapped, marketOrderBudget, Checked.pure_eq_ok, Prod.mk.injEq,
      true_and, exists_eq_left', Option.mapM_none]

/-! ## Handing the order over -/

/-- The order of either path, given its lots and its budget. -/
def takingOrder (c : Contract B) (m : Market B) (side : Side) (lots : ℕ) (avail : Option ℕ) :
    NewOrder :=
  ⟨c.prevOrderSequenceNumber + 1, none, lots, avail, side, .market, m.quoteToken.lotSize, m.denom,
    m.baseToken.lotSize, none⟩

theorem internalSwap_hands_iff {maxSpend : Option ℕ}
    (hmax : side = .buy → maxSpend = some inputAmount) :
    Hands S (fun S => internalSwap S env c mid m side inputAmount referrerId) m.orderbook
        env.signerAccountId n ↔
      ∃ lots, m.baseNativeToLots (swapped side inputAmount) = .ok lots ∧
      ∃ avail, marketOrderBudget m (.newWithBaseRate m) side maxSpend = .ok avail ∧
      c.prevOrderSequenceNumber + 1 < 2 ^ 64 ∧ m.state = .active ∧ m.denom < 2 ^ 128 ∧
      n = takingOrder c m side lots avail := by
  have hsteps : Hands S (fun S => internalSwap S env c mid m side inputAmount referrerId)
      m.orderbook env.signerAccountId n ↔ m.state = .active ∧
      ∃ x, swapQuantity (.newWithBaseRate m) side inputAmount = .ok x ∧
      c.prevOrderSequenceNumber + 1 < 2 ^ 64 ∧ ∃ lots, m.baseNativeToLots x.1 = .ok lots ∧
      ∃ avail, x.2.mapM m.quoteNativeToLots = .ok avail ∧ m.state = .active ∧
      m.denom < 2 ^ 128 ∧ n = takingOrder c m side lots avail := by
    refine (asks_bind_left_iff fun _ => rfl).trans ?_
    simp only [Market.assertActive, Checked.require_eq_ok, exists_const]
    refine and_congr_right fun _ => (asks_bind_left_iff fun _ => rfl).trans ?_
    refine exists_congr fun x => and_congr_right fun _ => ?_
    refine (asks_bind_left_iff fun _ => rfl).trans ?_
    simp only [Contract.nextSequenceNumber_eq_ok, and_assoc, exists_and_left, exists_eq_left]
    refine and_congr_right fun _ => (asks_bind_left_iff fun _ => rfl).trans ?_
    refine exists_congr fun lots => and_congr_right fun _ => ?_
    refine (asks_bind_left_iff fun _ => rfl).trans ?_
    exact exists_congr fun avail => and_congr_right fun _ => Market.placeOrder_bind_hands_iff rfl
  rw [hsteps]
  constructor
  · rintro ⟨-, ⟨q, b⟩, hx, hseq, lots, hlots, avail, havail, hact, hd, rfl⟩
    obtain rfl := swapQuantity_fst hx
    exact ⟨lots, hlots, avail, (swapBudget_iff hmax).1 ⟨b, hx, havail⟩, hseq, hact, hd, rfl⟩
  · rintro ⟨lots, hlots, avail, havail, hseq, hact, hd, rfl⟩
    obtain ⟨b, hx, hb⟩ := (swapBudget_iff hmax).2 havail
    exact ⟨hact, ⟨_, b⟩, hx, hseq, lots, hlots, avail, hb, hact, hd, rfl⟩

theorem internalPlaceMarketOrder_hands_iff (htype : p.orderType = .market)
    (hclient : p.clientId = none) :
    Hands S (fun S => internalPlaceMarketOrder S c mid m taker a p) m.orderbook taker n ↔
      ∃ lots, m.baseNativeToLots p.quantity = .ok lots ∧ lots ≠ 0 ∧
      ∃ avail, marketOrderBudget m (.newWithBaseRate m) p.side p.maxSpend = .ok avail ∧
      c.prevOrderSequenceNumber + 1 < 2 ^ 64 ∧ m.state = .active ∧ m.denom < 2 ^ 128 ∧
      n = takingOrder c m p.side lots avail := by
  refine (asks_bind_left_iff fun _ => rfl).trans ?_
  refine exists_congr fun lots => and_congr_right fun _ => ?_
  refine (asks_bind_left_iff fun _ => rfl).trans ?_
  simp only [Checked.require_eq_ok, exists_const]
  refine and_congr_right fun _ => (asks_bind_left_iff fun _ => rfl).trans ?_
  refine exists_congr fun avail => and_congr_right fun _ => ?_
  refine (asks_bind_left_iff fun _ => rfl).trans ?_
  simp only [Contract.nextSequenceNumber_eq_ok, and_assoc, exists_and_left, exists_eq_left]
  rw [htype, hclient]
  exact and_congr_right fun _ => Market.placeOrder_bind_hands_iff rfl

/-! ## The steps in common -/

/-- The text of the assertion does not matter to a settlement that returns. -/
theorem settleMatches_bug {fee : FeeCalculator} {fs : List Match} {bug : String}
    (bug' : String) (h : settleMatches S c mid m fee side fs referrerId bug = .ok (s, c')) :
    settleMatches S c mid m fee side fs referrerId bug' = .ok (s, c') := by
  simp only [settleMatches, Checked.bind_eq_ok, Checked.require_eq_ok] at h ⊢
  exact h

/-- What both paths do with the order: the engine matches it, the fills are
    settled and the fee accrues. -/
def TakesMarket (S : Sdk B) (c : Contract B) (mid : MarketId) (m : Market B) (taker : AccountId)
    (side : Side) (lots : ℕ) (avail : Option ℕ) (referrerId : Option AccountId)
    (r : PlaceOrderResult) (s : Settled) (m' : Market B) (c' : Contract B) : Prop :=
  ∃ seq c₀ m₁ bug net prices, c.nextSequenceNumber = .ok (seq, c₀) ∧
    m.placeOrder S seq taker none lots avail side .market none = .ok (r, m₁) ∧
    settleMatches S c₀ mid m₁ (.newWithBaseRate m) side r.fills referrerId bug = .ok (s, c') ∧
    s.netFee = .ok net ∧ m₁.incrFeesAccrued net = .ok m' ∧
    m'.reportedPrices r.bestBid r.bestAsk = .ok prices

namespace TakesMarket

theorem traded (h : TakesMarket S c mid m taker side lots avail referrerId r s m' c') :
    ∃ n : NewOrder, n.limitPriceLots = none ∧ n.maxQtyLots = lots ∧ n.availableQuoteLots = avail ∧
      n.side = side ∧ n.clientId = none ∧
      Nonempty (Traded S c mid m taker n referrerId r m' s c') := by
  obtain ⟨seq, c₀, m₁, bug, net, prices, hseq, hplace, hset, hnet, hm, -⟩ := h
  obtain ⟨n, hl, hq, hb, hns, -, hcl, tr⟩ := traded_of_ok hseq hplace rfl hset hnet hm
  exact ⟨n, hl, hq, hb, hns, hcl, tr⟩

/-- The order matched is the one handed over. -/
theorem placed (h : TakesMarket S c mid m taker side lots avail referrerId r s m' c') :
    c.prevOrderSequenceNumber + 1 < 2 ^ 64 ∧ m.state = .active ∧ m.denom < 2 ^ 128 ∧
      S.placeOrder m.orderbook taker (takingOrder c m side lots avail) = .ok (r, m'.orderbook) := by
  obtain ⟨seq, c₀, m₁, bug, net, prices, hseq, hplace, -, -, hm, -⟩ := h
  obtain ⟨hlt, heq⟩ := Contract.nextSequenceNumber_eq_ok.1 hseq
  cases heq
  obtain ⟨hact, hof, b, hb, rfl⟩ := Market.placeOrder_ok hplace
  simp only [Market.incrFeesAccrued, Checked.bind_eq_ok, Checked.pure_eq_ok] at hm
  obtain ⟨_, -, rfl⟩ := hm
  exact ⟨hlt, hact, hof.denom, hb⟩

theorem tradedTokens_eq (h : TakesMarket S c mid m taker side lots avail referrerId r s m' c')
    (side' : Side) : tradedTokens m' side' = tradedTokens m side' := by
  obtain ⟨n, -, -, -, -, -, ⟨tr⟩⟩ := h.traded
  rw [tr.market]
  cases side' <;> rfl

end TakesMarket

theorem internalSwap_eq_ok {out : SwapResult} :
    internalSwap S env c mid m side inputAmount referrerId = .ok (out, m', c') ↔
      m.state = .active ∧ ∃ q b, swapQuantity (.newWithBaseRate m) side inputAmount = .ok (q, b) ∧
      ∃ lots, m.baseNativeToLots q = .ok lots ∧ ∃ avail, b.mapM m.quoteNativeToLots = .ok avail ∧
      ∃ r s, TakesMarket S c mid m env.signerAccountId side lots avail referrerId r s m' c' ∧
        outputAmount s side = .ok out.outputAmount ∧
        inputRefund s side inputAmount q = .ok out.inputRefund ∧
        out.outputToken = (tradedTokens m side).2 := by
  constructor
  · intro h
    simp only [internalSwap, Market.assertActive, Checked.bind_eq_ok, Checked.require_eq_ok,
      Checked.pure_eq_ok, Prod.mk.injEq] at h
    obtain ⟨_, hact, ⟨q, b⟩, hq, ⟨seq, c₀⟩, hseq, lots, hlots, avail, havail, h⟩ := h
    obtain ⟨⟨r, m₁⟩, hplace, ⟨s, c₁⟩, hset, net, hnet, m₂, hm, o, ho, rf, hrf, h⟩ := h
    obtain ⟨prices, hprices, rfl, rfl, rfl⟩ := h
    have hmkt : TakesMarket S c mid m env.signerAccountId side lots avail referrerId r s m₂ c₁ :=
      ⟨seq, c₀, m₁, _, net, prices, hseq, hplace, hset, hnet, hm, hprices⟩
    refine ⟨hact, q, b, hq, lots, hlots, avail, havail, r, s, hmkt, ho, hrf, ?_⟩
    rw [hmkt.tradedTokens_eq]
  · rintro ⟨hact, q, b, hq, lots, hlots, avail, havail, r, s, hmkt, ho, hrf, htok⟩
    have htok' := hmkt.tradedTokens_eq side
    obtain ⟨seq, c₀, m₁, bug, net, prices, hseq, hplace, hset, hnet, hm, hprices⟩ := hmkt
    simp only [internalSwap, Market.assertActive, Checked.bind_eq_ok, Checked.require_eq_ok,
      Checked.pure_eq_ok, Prod.mk.injEq]
    refine ⟨(), hact, (q, b), hq, (seq, c₀), hseq, lots, hlots, avail, havail, (r, m₁), hplace, ?_⟩
    refine ⟨(s, c'), settleMatches_bug _ hset, net, hnet, m', hm, _, ho, _, hrf, prices, hprices,
      ?_, rfl, rfl⟩
    rw [htok', ← htok]

theorem internalPlaceMarketOrder_eq_ok {done : OrderDone B} (htype : p.orderType = .market)
    (hclient : p.clientId = none) :
    internalPlaceMarketOrder S c mid m taker a p = .ok done ↔
      ∃ lots, m.baseNativeToLots p.quantity = .ok lots ∧ lots ≠ 0 ∧
      ∃ avail, marketOrderBudget m (.newWithBaseRate m) p.side p.maxSpend = .ok avail ∧
      ∃ s, TakesMarket S c mid m taker p.side lots avail p.referrerId done.result s done.market
        done.contract ∧
      ∃ inn out, takerAmounts s p.side = .ok (inn, out) ∧
        (p.side = .buy → inn ≤ p.maxSpend.getD u128Max) ∧
        ∃ a₁, a.withdraw S (tradedTokens m p.side).1 inn = .ok a₁ ∧
          a₁.deposit S (tradedTokens m p.side).2 out = .ok done.takerAccount := by
  have hbook : ∀ b : B, tradedTokens { m with orderbook := b } p.side = tradedTokens m p.side := by
    intro b
    cases p.side <;> rfl
  constructor
  · intro h
    simp only [internalPlaceMarketOrder, Checked.bind_eq_ok, Checked.require_eq_ok,
      Checked.pure_eq_ok] at h
    obtain ⟨lots, hlots, _, hpos, avail, havail, ⟨seq, c₀⟩, hseq, ⟨r, m₁⟩, hplace, h⟩ := h
    obtain ⟨⟨s, c₁⟩, hset, ⟨inn, out⟩, hamt, _, hle, a₁, ha₁, a₂, ha₂, net, hnet, m₂, hm, h⟩ := h
    obtain ⟨prices, hprices, rfl⟩ := h
    rw [htype, hclient] at hplace
    have hmkt : TakesMarket S c mid m taker p.side lots avail p.referrerId r s m₂ c₁ :=
      ⟨seq, c₀, m₁, _, net, prices, hseq, hplace, hset, hnet, hm, hprices⟩
    obtain ⟨-, -, b, -, rfl⟩ := Market.placeOrder_ok hplace
    rw [hbook] at ha₁ ha₂
    exact ⟨lots, hlots, hpos, avail, havail, s, hmkt, inn, out, hamt, hle, a₁, ha₁, ha₂⟩
  · rintro ⟨lots, hlots, hpos, avail, havail, s, hmkt, inn, out, hamt, hle, a₁, ha₁, ha₂⟩
    obtain ⟨seq, c₀, m₁, bug, net, prices, hseq, hplace, hset, hnet, hm, hprices⟩ := hmkt
    simp only [internalPlaceMarketOrder, Checked.bind_eq_ok, Checked.require_eq_ok,
      Checked.pure_eq_ok]
    refine ⟨lots, hlots, (), hpos, avail, havail, (seq, c₀), hseq, (done.result, m₁), ?_, ?_⟩
    · rw [htype, hclient]
      exact hplace
    obtain ⟨-, -, b, -, rfl⟩ := Market.placeOrder_ok hplace
    rw [← hbook b] at ha₁ ha₂
    exact ⟨(s, done.contract), settleMatches_bug _ hset, (inn, out), hamt, (), hle, a₁, ha₁, _, ha₂,
      net, hnet, _, hm, prices, hprices, rfl⟩

/-! ## Paying from the wallet or from the account -/

theorem Account.lookup_debit_of_ne {k k' : String} {amount : ℕ} (h : k' ≠ k) :
    (a.debit k amount).balances.lookup k' = a.balances.lookup k' := by
  unfold Account.debit
  split_ifs
  · exact AList.lookup_erase_ne h
  · exact AList.lookup_insert_ne h

/-- What a trade moves fits, so the market order can compute it. -/
theorem takerAmounts_of_fits (hfits : (takerDebit m side s 0).2 < 2 ^ 128)
    (hfee : side = .sell → s.totalTakerFee ≤ s.quoteTraded) :
    takerAmounts s side = .ok ((takerDebit m side s 0).2, (takerCredit m side s).2) := by
  cases side with
  | buy =>
    simp only [takerDebit, Nat.zero_add] at hfits
    simp only [takerAmounts, takerDebit, takerCredit, Nat.zero_add, Checked.bind_eq_ok,
      Checked.fit_eq_ok, Checked.pure_eq_ok]
    exact ⟨_, ⟨hfits, rfl⟩, rfl⟩
  | sell =>
    simp only [takerAmounts, takerDebit, takerCredit, Checked.bind_eq_ok, Checked.sub_eq_ok,
      Checked.pure_eq_ok]
    exact ⟨_, ⟨hfee rfl, rfl⟩, rfl⟩

/-- The taker's account after a market order in place of a swap. -/
def paidFromAccount (S : Sdk B) (m : Market B) (a : Account) (side : Side) (inputAmount : ℕ)
    (out : SwapResult) : Account :=
  (a.debit (S.key (tradedTokens m side).1) (inputAmount - out.inputRefund)).credit
    (S.key (tradedTokens m side).2) out.outputAmount

/-- **A market order that returns does what the swap does**, and moves the same
    amounts in the taker's account. -/
theorem swap_of_marketOrder (hB : BookLaws S) (hok : MarketOk S c.prevOrderSequenceNumber m)
    (hp : MarketOrderFor side inputAmount referrerId p) {done : OrderDone B}
    (h : internalPlaceMarketOrder S c mid m env.signerAccountId a p = .ok done) :
    ∃ n out, Hands S (fun S => internalPlaceMarketOrder S c mid m env.signerAccountId a p)
        m.orderbook env.signerAccountId n ∧
      S.placeOrder m.orderbook env.signerAccountId n = .ok (done.result, done.market.orderbook) ∧
      (∀ f ∈ done.result.fills, f.makerUserId ≠ env.signerAccountId) ∧
      internalSwap S env c mid m side inputAmount referrerId =
        .ok (out, done.market, done.contract) ∧
      out.outputToken = (tradedTokens m side).2 ∧ out.inputRefund ≤ inputAmount ∧
      done.takerAccount = paidFromAccount S m a side inputAmount out := by
  obtain ⟨rfl, htype, hqty, hmax, hclient, rfl⟩ := hp
  have hsteps := (internalPlaceMarketOrder_eq_ok htype hclient).1 h
  obtain ⟨lots, hlots, hpos, avail, havail, s, hmkt, inn, out, hamt, -, a₁, ha₁, ha₂⟩ := hsteps
  obtain ⟨b, hb, hbavail⟩ := (swapBudget_iff hmax).2 havail
  obtain ⟨n, hl, hq, hbudget, hns, hcl, ⟨tr⟩⟩ := hmkt.traded
  have hsized : SwapSized m p.side inputAmount n := by
    rw [hqty] at hlots
    exact swapSized rfl hb hlots hbavail hns hl hq hbudget hcl
  -- the amounts of the swap do not underflow
  obtain ⟨⟨o, ho⟩, refund, hrefund⟩ := swapAmounts_total tr.of hok.takerRate hsized
    (tr.placement hB hok) (congrArg MakerSettlementResult.baseTraded tr.settled.totals)
    (congrArg MakerSettlementResult.quoteTraded tr.settled.totals) tr.settled.fee
  obtain ⟨hspent, hout, -⟩ := swapAmounts_ok (m := m) hb ho hrefund
  obtain ⟨rfl, rfl, -⟩ := takerAmounts_eq_ok (m := m) hamt
  have hle : refund ≤ inputAmount := by omega
  have hdebit : (takerDebit m p.side s 0).2 = inputAmount - refund := by omega
  obtain ⟨hseq, hact, hd, hplace⟩ := hmkt.placed
  refine ⟨_, ⟨(tradedTokens m p.side).2, o, refund⟩, ?_, hplace, fun f => tr.maker_ne hB hok, ?_,
    rfl, hle, ?_⟩
  · refine (internalPlaceMarketOrder_hands_iff htype hclient).2 ?_
    exact ⟨lots, hlots, hpos, avail, havail, hseq, hact, hd, rfl⟩
  · refine internalSwap_eq_ok.2 ⟨hact, _, b, hb, lots, hqty ▸ hlots, avail, hbavail, ?_⟩
    exact ⟨done.result, s, hmkt, ho, hrefund, rfl⟩
  · rw [hdebit] at ha₁
    rw [hout] at ha₂
    rw [← (Account.deposit_eq_ok.1 ha₂).2, ← (Account.withdraw_eq_ok.1 ha₁).2]
    rfl

/-- **A swap that returns does what the market order does**, if the taker can
    withdraw the input and the output fits in the balance. -/
theorem marketOrder_of_swap (hp : MarketOrderFor side inputAmount referrerId p)
    (hx : inputAmount < 2 ^ 128)
    (hlots : asU64 (swapped side inputAmount / m.baseToken.lotSize) ≠ 0)
    (hpays : ∃ a', a.withdraw S (tradedTokens m side).1 inputAmount = .ok a') {out : SwapResult}
    (h : internalSwap S env c mid m side inputAmount referrerId = .ok (out, m', c'))
    (hfits : ∀ y, (a.debit (S.key (tradedTokens m side).1)
        (inputAmount - out.inputRefund)).balances.lookup (S.key (tradedTokens m side).2) = some y →
      out.outputAmount + y < 2 ^ 128) :
    ∃ done, internalPlaceMarketOrder S c mid m env.signerAccountId a p = .ok done ∧
      done.market = m' ∧ done.contract = c' := by
  obtain ⟨rfl, htype, hqty, hmax, hclient, rfl⟩ := hp
  obtain ⟨hact, q, b, hb, lots, hl, avail, havail, r, s, hmkt, ho, hrefund, htok⟩ :=
    internalSwap_eq_ok.1 h
  obtain rfl := swapQuantity_fst hb
  obtain ⟨hspent, hout, hfee⟩ := swapAmounts_ok (m := m) hb ho hrefund
  have hdebit : (takerDebit m p.side s 0).2 = inputAmount - out.inputRefund := by omega
  obtain ⟨_, hpays⟩ := hpays
  obtain ⟨⟨y, hy, hle⟩, -⟩ := Account.withdraw_eq_ok.1 hpays
  refine ⟨⟨r, m', paidFromAccount S m a p.side inputAmount out, c'⟩, ?_, rfl, rfl⟩
  refine (internalPlaceMarketOrder_eq_ok htype hclient).2 ⟨lots, hqty ▸ hl, ?_, avail,
    (swapBudget_iff hmax).1 ⟨b, hb, havail⟩, s, hmkt, _, _,
    takerAmounts_of_fits (m := m) (by omega) hfee, fun hside => ?_,
    a.debit (S.key (tradedTokens m p.side).1) (inputAmount - out.inputRefund),
    ?_, ?_⟩
  · rw [← (Market.baseNativeToLots_eq_ok.1 hl).2]
    exact hlots
  · rw [hmax hside, Option.getD_some]
    omega
  · rw [hdebit]
    exact Account.withdraw_eq_ok.2 ⟨⟨y, hy, by omega⟩, rfl⟩
  · rw [hout]
    exact Account.deposit_eq_ok.2 ⟨hfits, rfl⟩

/-- **A swap is a market order paid from the wallet.**  In every reachable state,
    also in the middle of a batch or a chain of swaps, for a taker who is both
    signer and predecessor, can withdraw the input, and is not the referrer: the
    two hand the same order to the engine; if the market order returns, the swap
    returns the same market and the same accounts, of which saving the taker
    changes neither a maker's nor the referrer's, and their amounts agree; if the
    swap returns, so does the market order, unless the output overflows the
    taker's balance. -/
theorem swap_is_market_order (hB : BookLaws S) {y : System B}
    (hy : System.Reachable S y) {es : List (Effect B)} (hes : Effects S y.contract es c)
    (hm : c.markets.lookup mid = some m) (henv : env.predecessorAccountId = env.signerAccountId)
    (hp : MarketOrderFor side inputAmount referrerId p)
    (href : referrerId ≠ some env.signerAccountId)
    (hx : inputAmount < 2 ^ 128)
    (hlots : asU64 (swapped side inputAmount / m.baseToken.lotSize) ≠ 0)
    (hpays : ∃ a', a.withdraw S (tradedTokens m side).1 inputAmount = .ok a') :
    (∀ n, Hands S (fun S => internalSwap S env c mid m side inputAmount referrerId) m.orderbook
        env.signerAccountId n ↔
      Hands S (fun S => internalPlaceMarketOrder S c mid m env.predecessorAccountId a p)
        m.orderbook env.predecessorAccountId n) ∧
    (∀ done, internalPlaceMarketOrder S c mid m env.predecessorAccountId a p = .ok done →
      ∃ n out, Hands S (fun S => internalPlaceMarketOrder S c mid m env.predecessorAccountId a p)
          m.orderbook env.predecessorAccountId n ∧
        S.placeOrder m.orderbook env.predecessorAccountId n =
          .ok (done.result, done.market.orderbook) ∧
        internalSwap S env c mid m side inputAmount referrerId =
          .ok (out, done.market, done.contract) ∧
        out.outputToken = (tradedTokens m side).2 ∧ out.inputRefund ≤ inputAmount ∧
        done.takerAccount = paidFromAccount S m a side inputAmount out ∧
        ∀ id, (referrerId = some id ∨ ∃ f ∈ done.result.fills, f.makerUserId = id) →
          (done.contract.putAccount env.predecessorAccountId done.takerAccount).accounts.lookup id =
            done.contract.accounts.lookup id) ∧
    ∀ out m' c', internalSwap S env c mid m side inputAmount referrerId = .ok (out, m', c') →
      (∀ x, (a.debit (S.key (tradedTokens m side).1)
          (inputAmount - out.inputRefund)).balances.lookup (S.key out.outputToken) = some x →
        out.outputAmount + x < 2 ^ 128) →
      ∃ done, internalPlaceMarketOrder S c mid m env.predecessorAccountId a p = .ok done ∧
        done.market = m' ∧ done.contract = c' := by
  have hok := booksOk_of_effects hB hy hes mid m hm
  rw [henv]
  refine ⟨fun n => ?_, fun done hdone => ?_, fun out m' c' h hfits => ?_⟩
  · obtain ⟨rfl, htype, hqty, hmax, hclient, -⟩ := hp
    rw [internalSwap_hands_iff hmax, internalPlaceMarketOrder_hands_iff htype hclient, hqty]
    refine exists_congr fun lots => and_congr_right fun hl => (and_iff_right ?_).symm
    rw [← (Market.baseNativeToLots_eq_ok.1 hl).2]
    exact hlots
  · obtain ⟨n, out, hn, hplace, hne, hswap, htok, hle, hpaid⟩ :=
      swap_of_marketOrder hB hok hp hdone
    refine ⟨n, out, hn, hplace, hswap, htok, hle, hpaid, fun id hid => ?_⟩
    refine AList.lookup_insert_ne ?_
    rintro rfl
    obtain h | ⟨f, hf, h⟩ := hid
    · exact href h
    · exact hne f hf h
  · refine marketOrder_of_swap hp hx hlots hpays h fun x hx => hfits x ?_
    obtain ⟨-, -, -, -, -, -, -, -, -, -, -, -, -, htok⟩ := internalSwap_eq_ok.1 h
    rw [htok]
    exact hx

/-- The market order in place of a swap of 1000 `usd`. -/
def thousand : NewOrderParams := ⟨none, some 1000, u128Max, .buy, .market, none, none⟩

/-- Bob's swap of 1000 `usd` takes Alice's ask. -/
theorem swap_bob : ∃ m out m' c', (Engine.run Engine.asked).contract.markets.lookup Engine.btcUsd =
      some m ∧ internalSwap Engine.sdk (Engine.calling Engine.bob 0)
        (Engine.run Engine.asked).contract Engine.btcUsd m .buy 1000 none = .ok (out, m', c') ∧
    0 < out.outputAmount := by
  have hhop : Engine.stoppedBy (executeSwapAction Engine.sdk (Engine.calling Engine.bob 0)
      (Engine.run Engine.asked).contract ⟨Engine.btcUsd, .buy, some 1, none⟩
      (.fungibleToken Engine.usd) 1000) = none := by
    decide +kernel
  obtain ⟨⟨out, c⟩, hexec⟩ := Engine.eq_ok_of_stoppedBy hhop
  simp only [executeSwapAction, Checked.bind_eq_ok, Contract.internalUnwrapMarket_eq_ok,
    Checked.require_eq_ok, Checked.pure_eq_ok, Prod.mk.injEq] at hexec
  obtain ⟨m, hm, -, -, ⟨_, m', c'⟩, hswap, -, hmin, rfl, -⟩ := hexec
  exact ⟨m, _, m', c', hm, hswap, hmin⟩

/-- Bob's order in place of his swap. -/
theorem swap_is_market_order_bob : ∃ a m out m' c' done,
    (Engine.run Engine.asked).contract.accounts.lookup Engine.bob = some a ∧
    internalSwap Engine.sdk (Engine.calling Engine.bob 0) (Engine.run Engine.asked).contract
      Engine.btcUsd m .buy 1000 none = .ok (out, m', c') ∧ 0 < out.outputAmount ∧
    internalPlaceMarketOrder Engine.sdk (Engine.run Engine.asked).contract Engine.btcUsd m
      Engine.bob a thousand = .ok done ∧ done.market = m' ∧ done.contract = c' := by
  obtain ⟨m, out, m', c', hm, hswap, hout⟩ := swap_bob
  -- Bob has `usd` but no `btc`
  have hbob : ((Engine.run Engine.asked).contract.accounts.lookup Engine.bob).map (fun a =>
      (a.balances.lookup "ft:usd.near", a.balances.lookup "ft:btc.near")) =
      some (some 100000, none) := by
    decide +kernel
  obtain ⟨a, ha, hbal⟩ := Option.map_eq_some_iff.1 hbob
  obtain ⟨husd, hbtc⟩ := Prod.mk.inj hbal
  obtain ⟨m₀, hm₀, hbase, hquote⟩ := Engine.market_asked
  obtain rfl : m₀ = m := Option.some.inj (hm₀.symm.trans hm)
  have htokens : tradedTokens m₀ .buy = (.fungibleToken Engine.usd, .fungibleToken Engine.btc) := by
    rw [tradedTokens, hbase, hquote]
  have husdKey : Engine.sdk.key (.fungibleToken Engine.usd) = "ft:usd.near" := by decide
  have hbtcKey : Engine.sdk.key (.fungibleToken Engine.btc) = "ft:btc.near" := by decide
  have hp : MarketOrderFor .buy 1000 none thousand := ⟨rfl, rfl, rfl, fun _ => rfl, rfl, rfl⟩
  have henv : (Engine.calling Engine.bob 0).predecessorAccountId =
      (Engine.calling Engine.bob 0).signerAccountId := rfl
  have hpays : ∃ a', a.withdraw Engine.sdk (tradedTokens m₀ .buy).1 1000 = .ok a' := by
    refine ⟨_, Account.withdraw_eq_ok.2 ⟨⟨100000, ?_, by decide⟩, rfl⟩⟩
    rw [htokens, husdKey, husd]
  have hlots : asU64 (swapped .buy 1000 / m₀.baseToken.lotSize) ≠ 0 := by
    rw [hbase]
    decide
  have hfits : ∀ x, (a.debit (Engine.sdk.key (tradedTokens m₀ .buy).1)
      (1000 - out.inputRefund)).balances.lookup (Engine.sdk.key out.outputToken) = some x →
      out.outputAmount + x < 2 ^ 128 := by
    intro x hx
    obtain ⟨-, -, -, -, -, -, -, -, -, -, -, -, -, htok⟩ := internalSwap_eq_ok.1 hswap
    rw [htok, htokens, husdKey, hbtcKey, Account.lookup_debit_of_ne (by decide), hbtc] at hx
    cases hx
  obtain ⟨-, -, hreturns⟩ := swap_is_market_order Engine.bookLaws
    (Engine.reachable_run Engine.asked) (.nil _) hm henv hp nofun (by decide) hlots hpays
  obtain ⟨done, hdone, hmarket, hcontract⟩ := hreturns out m' c' hswap hfits
  exact ⟨a, m₀, out, m', c', done, ha, hswap, hout, hdone, hmarket, hcontract⟩

end TonicDex
