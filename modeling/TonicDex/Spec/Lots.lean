/-
  From native amounts to lots.

  Every order path turns native amounts into lots before it hands an order to
  the engine.  `BidSized`, `AskSized`, `MarketSized` and `SwapSized` say what
  the order of each path is made of, and `OrderSized` what that of `new_order`
  is, by the path it takes.
-/
import TonicDex.Spec.Settlement

namespace TonicDex

variable {B : Type} {m : Market B} {p : NewOrderParams} {n : NewOrder}

/-! ## Native amounts in lots -/

/-- `10^D_b` -/
def Market.denom (m : Market B) : ℕ := 10 ^ m.baseToken.decimals

@[simp] theorem Market.baseDenomination_eq_ok {d : ℕ} :
    m.baseDenomination = .ok d ↔ m.denom < 2 ^ 128 ∧ m.denom = d :=
  Checked.fit_eq_ok

theorem Market.quoteNativeToLots_eq_ok {amount lots : ℕ} :
    m.quoteNativeToLots amount = .ok lots ↔
      m.quoteToken.lotSize ≠ 0 ∧ asU64 (amount / m.quoteToken.lotSize) = lots := by
  simp only [Market.quoteNativeToLots, Checked.bind_eq_ok, Checked.div_eq_ok, Checked.pure_eq_ok]
  constructor
  · rintro ⟨_, ⟨h, rfl⟩, rfl⟩; exact ⟨h, rfl⟩
  · rintro ⟨h, rfl⟩; exact ⟨_, ⟨h, rfl⟩, rfl⟩

theorem Market.baseNativeToLots_eq_ok {amount lots : ℕ} :
    m.baseNativeToLots amount = .ok lots ↔
      m.baseToken.lotSize ≠ 0 ∧ asU64 (amount / m.baseToken.lotSize) = lots := by
  simp only [Market.baseNativeToLots, Checked.bind_eq_ok, Checked.div_eq_ok, Checked.pure_eq_ok]
  constructor
  · rintro ⟨_, ⟨h, rfl⟩, rfl⟩; exact ⟨h, rfl⟩
  · rintro ⟨h, rfl⟩; exact ⟨_, ⟨h, rfl⟩, rfl⟩

theorem asU64_mul_le (n lot : ℕ) : asU64 (n / lot) * lot ≤ n :=
  (Nat.mul_le_mul_right _ (Checked.wrap_le _ _)).trans (Nat.div_mul_le_self _ _)

/-- The quote lots that can be spent of a native amount, after withholding the
    fee. -/
def Market.budgetLots (m : Market B) (q : ℕ) : ℕ :=
  asU64 ((q - m.takerFeeOf q) / m.quoteToken.lotSize)

theorem FeeCalculator.withholdTakerFee_eq_ok {fee : FeeCalculator} {q x : ℕ}
    (hfee : fee.takerFeeBaseRate = m.takerFeeBaseRate) (h : fee.withholdTakerFee q = .ok x) :
    x = q - m.takerFeeOf q := by
  simp only [FeeCalculator.withholdTakerFee, FeeCalculator.takerFee, Checked.bind_eq_ok,
    FeeCalculator.atRate_eq_ok, Checked.pure_eq_ok] at h
  obtain ⟨_, ⟨-, rfl⟩, rfl⟩ := h
  rw [hfee]
  rfl

/-- The quote lots a market order may spend: a bid its maximum, if it has one. -/
def Market.spendable (m : Market B) (side : Side) (maxSpend : Option ℕ) : Option ℕ :=
  match side with
  | .buy => some (maxSpend.elim u64Max m.budgetLots)
  | .sell => none

/-- The native quantity a swap asks for. -/
def swapped (side : Side) (inputAmount : ℕ) : ℕ :=
  match side with
  | .buy => u128Max
  | .sell => inputAmount

/-! ## The orders of each path -/

/-- The order of a limit buy: `affordable` is what its budget buys at its price. -/
structure BidSized (m : Market B) (p : NewOrderParams) (limit maxDebit affordable : ℕ)
    (n : NewOrder) : Prop where
  side : n.side = p.side
  limitPrice : p.limitPrice = some limit
  debit : m.getMaxBidDebit p = .ok maxDebit
  positive : m.budgetLots maxDebit ≠ 0
  affords : m.affordableLots (m.budgetLots maxDebit) limit = .ok affordable
  price : n.limitPriceLots = some (asU64 (limit / m.quoteToken.lotSize))
  qty : n.maxQtyLots = min (asU64 (p.quantity / m.baseToken.lotSize)) affordable
  budget : n.availableQuoteLots = some (m.budgetLots maxDebit)

/-- The order of a limit sell. -/
structure AskSized (m : Market B) (p : NewOrderParams) (limit : ℕ) (n : NewOrder) : Prop where
  side : n.side = p.side
  limitPrice : p.limitPrice = some limit
  price : n.limitPriceLots = some (asU64 (limit / m.quoteToken.lotSize))
  qty : n.maxQtyLots = asU64 (p.quantity / m.baseToken.lotSize)
  budget : n.availableQuoteLots = none

/-- The order of a market order. -/
structure MarketSized (m : Market B) (p : NewOrderParams) (n : NewOrder) : Prop where
  side : n.side = p.side
  price : n.limitPriceLots = none
  qty : n.maxQtyLots = asU64 (p.quantity / m.baseToken.lotSize)
  positive : n.maxQtyLots ≠ 0
  budget : n.availableQuoteLots = m.spendable p.side p.maxSpend

/-- The order of a swap. -/
structure SwapSized (m : Market B) (side : Side) (inputAmount : ℕ) (n : NewOrder) : Prop where
  ofSide : n.side = side
  price : n.limitPriceLots = none
  qty : n.maxQtyLots = asU64 (swapped side inputAmount / m.baseToken.lotSize)
  budget : n.availableQuoteLots = m.spendable side (some inputAmount)
  client : n.clientId = none

/-- The order that a swap of `amount` hands to the engine. -/
def Market.swapOrder (m : Market B) (seq : ℕ) (side : Side) (amount : ℕ) : NewOrder where
  sequenceNumber := seq
  limitPriceLots := none
  maxQtyLots := asU64 (swapped side amount / m.baseToken.lotSize)
  availableQuoteLots := m.spendable side (some amount)
  side := side
  orderType := .market
  quoteLotSize := m.quoteToken.lotSize
  baseDenomination := m.denom
  baseLotSize := m.baseToken.lotSize
  clientId := none

theorem marketOrderBudget_eq_ok {fee : FeeCalculator} {side : Side} {q budget : Option ℕ}
    (hfee : fee.takerFeeBaseRate = m.takerFeeBaseRate)
    (h : marketOrderBudget m fee side q = .ok budget) : budget = m.spendable side q := by
  cases side with
  | sell => exact (Except.ok.inj h).symm
  | buy =>
    cases q with
    | none => exact (Except.ok.inj h).symm
    | some q =>
      simp only [marketOrderBudget, Checked.bind_eq_ok, Market.quoteNativeToLots_eq_ok,
        Checked.pure_eq_ok] at h
      obtain ⟨x, hx, _, ⟨-, rfl⟩, rfl⟩ := h
      obtain rfl := FeeCalculator.withholdTakerFee_eq_ok hfee hx
      rfl

theorem swapSized {fee : FeeCalculator} {side : Side} {inputAmount qty lots : ℕ}
    {avail availLots : Option ℕ} (hfee : fee.takerFeeBaseRate = m.takerFeeBaseRate)
    (hq : swapQuantity fee side inputAmount = .ok (qty, avail))
    (hl : m.baseNativeToLots qty = .ok lots)
    (ha : avail.mapM m.quoteNativeToLots = .ok availLots) (hside : n.side = side)
    (hprice : n.limitPriceLots = none) (hqty : n.maxQtyLots = lots)
    (hbudget : n.availableQuoteLots = availLots) (hclient : n.clientId = none) :
    SwapSized m side inputAmount n := by
  rw [Market.baseNativeToLots_eq_ok] at hl
  cases side with
  | sell =>
    simp only [swapQuantity, Checked.pure_eq_ok, Prod.mk.injEq] at hq
    obtain ⟨rfl, rfl⟩ := hq
    cases ha
    exact ⟨hside, hprice, hqty.trans hl.2.symm, hbudget, hclient⟩
  | buy =>
    simp only [swapQuantity, Checked.bind_eq_ok, Checked.pure_eq_ok, Prod.mk.injEq] at hq
    obtain ⟨x, hx, rfl, rfl⟩ := hq
    simp only [Option.mapM_some, Checked.map_eq_ok, Market.quoteNativeToLots_eq_ok] at ha
    obtain ⟨_, ⟨-, rfl⟩, rfl⟩ := ha
    obtain rfl := FeeCalculator.withholdTakerFee_eq_ok hfee hx
    exact ⟨hside, hprice, hqty.trans hl.2.symm, hbudget, hclient⟩

/-- The order of `new_order`, by the path it takes. -/
inductive OrderSized (m : Market B) (p : NewOrderParams) (n : NewOrder) : Prop
  | bid {limit maxDebit affordable : ℕ} (type : p.orderType ≠ .market) (side : p.side = .buy)
      (sized : BidSized m p limit maxDebit affordable n)
  | ask {limit : ℕ} (type : p.orderType ≠ .market) (side : p.side = .sell)
      (sized : AskSized m p limit n)
  | market (type : p.orderType = .market) (sized : MarketSized m p n)

/-- What the order of `new_order` asks for at most: its lots, and its quote lots.
    Those of a limit buy are computed first, which can fail. -/
def Market.lotsFor (m : Market B) (p : NewOrderParams) : Option (ℕ × Option ℕ) :=
  let lots := asU64 (p.quantity / m.baseToken.lotSize)
  if p.orderType = .market then some (lots, m.spendable p.side p.maxSpend)
  else
    match p.side with
    | .sell => some (lots, none)
    | .buy => do
      let limit ← p.limitPrice
      let maxDebit ← (m.getMaxBidDebit p).toOption
      let affordable ← (m.affordableLots (m.budgetLots maxDebit) limit).toOption
      return (min lots affordable, some (m.budgetLots maxDebit))

/-- The order that `new_order` hands to the engine. -/
def Market.orderFor (m : Market B) (seq : ℕ) (p : NewOrderParams) : Option NewOrder :=
  (m.lotsFor p).map fun x =>
    { sequenceNumber := seq
      limitPriceLots := if p.orderType = .market then none
        else p.limitPrice.map fun limit => asU64 (limit / m.quoteToken.lotSize)
      maxQtyLots := x.1
      availableQuoteLots := x.2
      side := p.side
      orderType := p.orderType
      quoteLotSize := m.quoteToken.lotSize
      baseDenomination := m.denom
      baseLotSize := m.baseToken.lotSize
      clientId := p.clientId }

theorem OrderSized.lotsFor_eq (h : OrderSized m p n) :
    m.lotsFor p = some (n.maxQtyLots, n.availableQuoteLots) := by
  unfold Market.lotsFor
  cases h with
  | bid type side sized =>
    have haffords : (m.affordableLots (m.budgetLots _) _).toOption = some _ :=
      congrArg Except.toOption sized.affords
    have hdebit : (m.getMaxBidDebit p).toOption = some _ := congrArg Except.toOption sized.debit
    simp only [if_neg type, side, sized.limitPrice, sized.qty, sized.budget, hdebit,
      Option.bind_eq_bind, Option.bind_some, haffords]
    rfl
  | ask type side sized => simp only [if_neg type, side, sized.qty, sized.budget]
  | market type sized => simp only [if_pos type, sized.qty, sized.budget]

theorem OrderSized.limit_eq (h : OrderSized m p n) : n.limitPriceLots =
    if p.orderType = .market then none
      else p.limitPrice.map fun limit => asU64 (limit / m.quoteToken.lotSize) := by
  cases h with
  | bid type side sized => rw [if_neg type, sized.limitPrice, sized.price, Option.map_some]
  | ask type side sized => rw [if_neg type, sized.limitPrice, sized.price, Option.map_some]
  | market type sized => rw [if_pos type, sized.price]

end TonicDex
