/-
  What orders and swaps cost.

  A limit buy withholds the fee from its whole budget, rounds the rest down to
  lots, and is sized by what these lots buy at its price; so what it locks and
  spends, with the fee on what it trades, is within the budget
  (`BidSized.covers`).  The other paths are bounded by the quantity and the
  budget the engine was given.  So the assertions by which the contract guards
  its own accounting never fire (`budgets_hold`).
-/
import Mathlib.Algebra.BigOperators.Ring.List
import Mathlib.Algebra.Order.BigOperators.Group.List
import Mathlib.Tactic.Ring
import TonicDex.Engine.Library
import TonicDex.Invariant.Books
import TonicDex.Lib.Rounding
import TonicDex.Spec.Panics
import TonicDex.Spec.Sizing

namespace TonicDex

variable {B : Type} {S : Sdk B} {c c' : Contract B} {mid : MarketId} {m : Market B} {env : Env}
  {taker : AccountId} {a : Account} {p : NewOrderParams} {n : NewOrder} {r : PlaceOrderResult}
  {b b' : B} {limit maxDebit affordable : ℕ}

/-! ## Fees -/

namespace Market

/-- A fee withheld from a budget covers the fee on any part of it. -/
theorem add_takerFeeOf_le {x y q : ℕ} (h : y + x ≤ q - m.takerFeeOf q) :
    y + x + m.takerFeeOf x ≤ q := by
  rcases Nat.lt_or_ge (m.takerFeeOf q) q with hlt | hge
  · have hx : x ≤ q := (Nat.le_add_left x y).trans (h.trans (Nat.sub_le _ _))
    have hfee := m.takerFeeOf_mono hx
    omega
  · -- the whole budget is withheld, so nothing is spent
    have hx : x = 0 := by omega
    subst hx
    have hfee : m.takerFeeOf 0 = 0 := by simp [takerFeeOf]
    omega

/-- The fee is a part of what is traded. -/
theorem takerFeeOf_le (h : m.takerFeeBaseRate < 256) (x : ℕ) : m.takerFeeOf x ≤ x := by
  refine Nat.div_le_of_le_mul ?_
  rw [Nat.mul_comm]
  exact Nat.mul_le_mul_right x (h.le.trans (by decide))

/-- The lots that can be spent are worth at most the budget less the fee. -/
theorem budgetLots_mul_le (q : ℕ) :
    m.budgetLots q * m.quoteToken.lotSize ≤ q - m.takerFeeOf q :=
  (Nat.mul_le_mul_right _ (Checked.wrap_le _ _)).trans (Nat.div_mul_le_self _ _)

theorem getMaxBidDebit_eq_ok (hl : p.limitPrice = some limit)
    (h : m.getMaxBidDebit p = .ok maxDebit) :
    maxDebit = p.maxSpend.getD (p.quantity * limit / m.denom) := by
  unfold getMaxBidDebit at h
  rcases hs : p.maxSpend with _ | q
  · simp only [hs, hl, Checked.bind_eq_ok, Checked.expect_eq_ok, Option.some.injEq,
      Checked.fit_eq_ok, baseDenomination_eq_ok] at h
    obtain ⟨_, rfl, _, ⟨-, rfl⟩, _, ⟨-, rfl⟩, -, rfl⟩ := h
    rfl
  · simp only [hs, Checked.pure_eq_ok] at h
    exact h.symm

/-- What is affordable at a price costs at most the lots available. -/
theorem affordableLots_mul_le {lots : ℕ} (h : m.affordableLots lots limit = .ok affordable) :
    affordable * m.baseToken.lotSize * limit ≤ lots * m.quoteToken.lotSize * m.denom := by
  simp only [affordableLots, quoteLotsToNative, Checked.bind_eq_ok, Checked.fit_eq_ok,
    baseDenomination_eq_ok, Checked.div_eq_ok] at h
  obtain ⟨_, ⟨-, rfl⟩, _, ⟨-, rfl⟩, _, ⟨-, rfl⟩, _, ⟨-, rfl⟩, _, ⟨-, rfl⟩, -, rfl⟩ := h
  refine (Nat.mul_le_mul_right limit (Nat.div_mul_le_self _ _)).trans ?_
  exact Nat.div_mul_le_self _ _

end Market

/-! ## Fills -/

namespace Placed

/-- The fills of a bid are at its limit price or below. -/
theorem fill_price_le (h : Placed S b taker n r b') (hs : n.side = .buy) {price : ℕ}
    (hl : n.limitPriceLots = some price) {f : Match} (hf : f ∈ r.fills) :
    f.fillPriceLots ≤ price ∧ f.nativeQuotePaid =
      quoteValue f.fillQtyLots f.fillPriceLots n.quoteLotSize n.baseLotSize n.baseDenomination := by
  obtain ⟨o, -, -, o', -, hfit⟩ := h.filled.target (fun _ _ => True) (fun _ => trivial)
    (fun _ _ _ _ _ => trivial) (fun _ _ _ _ => trivial) f hf
  have hlim := hfit.limit price hl
  rw [hs] at hlim
  rw [hfit.price]
  exact ⟨hlim, hfit.price ▸ hfit.paid⟩

/-- At a native limit price, a fill of a bid costs at most its quantity. -/
theorem fill_paid_le (h : Placed S b taker n r b') (hof : n.Of m) (hs : n.side = .buy)
    (hl : n.limitPriceLots = some (asU64 (limit / m.quoteToken.lotSize))) {f : Match}
    (hf : f ∈ r.fills) :
    f.nativeQuotePaid ≤ f.fillQtyLots * (m.baseToken.lotSize * limit) / m.denom := by
  obtain ⟨hprice, hpaid⟩ := h.fill_price_le hs hl hf
  have hnative : f.fillPriceLots * m.quoteToken.lotSize ≤ limit :=
    (Nat.mul_le_mul_right _ (hprice.trans (Checked.wrap_le _ _))).trans (Nat.div_mul_le_self _ _)
  rw [hpaid, hof.quoteLot, hof.baseLot, hof.baseDenom]
  refine Nat.div_le_div_right ?_
  calc f.fillQtyLots * f.fillPriceLots * m.quoteToken.lotSize * m.baseToken.lotSize
      = f.fillQtyLots * (m.baseToken.lotSize * (f.fillPriceLots * m.quoteToken.lotSize)) := by ring
    _ ≤ f.fillQtyLots * (m.baseToken.lotSize * limit) :=
        Nat.mul_le_mul_left _ (Nat.mul_le_mul_left _ hnative)

/-- The base amount of the fills and of what stays open is within the quantity. -/
theorem base_le (h : Placed S b taker n r b') {q : ℕ}
    (hq : n.maxQtyLots * m.baseToken.lotSize ≤ q) :
    (m.totals r.fills).baseTraded + r.openQtyLots * m.baseToken.lotSize ≤ q := by
  have hbase : (m.totals r.fills).baseTraded =
      (r.fills.map Match.fillQtyLots).sum * m.baseToken.lotSize :=
    List.sum_map_mul_right _ _ _
  rw [hbase, ← Nat.add_mul]
  exact (Nat.mul_le_mul_right _ h.qty).trans hq

end Placed

/-! ## Limit buys -/

/-- **What a limit buy locks and spends, with the fee on what it trades, is
    within its budget.** -/
theorem BidSized.covers (h : BidSized m p limit maxDebit affordable n) (hof : n.Of m)
    (hs : p.side = .buy) (hp : Placed S b taker n r b') :
    lockedBy m .buy r.openQtyLots limit + (m.totals r.fills).quoteTraded +
      m.takerFeeOf (m.totals r.fills).quoteTraded ≤ maxDebit := by
  have hd : 0 < m.denom := Nat.pow_pos (Nat.succ_pos _)
  have hpaid : (m.totals r.fills).quoteTraded ≤
      (r.fills.map fun f => f.fillQtyLots * (m.baseToken.lotSize * limit)).sum / m.denom := by
    refine le_trans (List.sum_le_sum fun f hf => ?_) (Rounding.sum_div_le _ _ _)
    exact hp.fill_paid_le hof (h.side.trans hs) h.price hf
  rw [List.sum_map_mul_right] at hpaid
  have hqty : n.maxQtyLots * (m.baseToken.lotSize * limit) ≤
      m.budgetLots maxDebit * m.quoteToken.lotSize * m.denom := by
    refine (Nat.mul_le_mul_right _ (h.qty ▸ Nat.min_le_right _ _)).trans ?_
    rw [← Nat.mul_assoc]
    exact Market.affordableLots_mul_le h.affords
  have hspent : lockedBy m .buy r.openQtyLots limit + (m.totals r.fills).quoteTraded ≤
      m.budgetLots maxDebit * m.quoteToken.lotSize := by
    calc lockedBy m .buy r.openQtyLots limit + (m.totals r.fills).quoteTraded
        ≤ r.openQtyLots * m.baseToken.lotSize * limit / m.denom +
            (r.fills.map Match.fillQtyLots).sum * (m.baseToken.lotSize * limit) / m.denom :=
          Nat.add_le_add_left hpaid _
      _ ≤ (r.openQtyLots * m.baseToken.lotSize * limit +
            (r.fills.map Match.fillQtyLots).sum * (m.baseToken.lotSize * limit)) / m.denom :=
          Nat.div_add_div_le_add_div
      _ = ((r.fills.map Match.fillQtyLots).sum + r.openQtyLots) *
            (m.baseToken.lotSize * limit) / m.denom := by ring_nf
      _ ≤ m.budgetLots maxDebit * m.quoteToken.lotSize := by
          refine Nat.div_le_of_le_mul ?_
          rw [Nat.mul_comm m.denom]
          exact (Nat.mul_le_mul_right _ hp.qty).trans hqty
  exact Market.add_takerFeeOf_le (hspent.trans (Market.budgetLots_mul_le _))

/-! ## Market orders and swaps -/

/-- What a bounded bid spends, with its fee, is within its maximum. -/
theorem Placed.spent_le (h : Placed S b taker n r b') (hof : n.Of m) {q : ℕ}
    (hq : n.availableQuoteLots = some (m.budgetLots q)) :
    (m.totals r.fills).quoteTraded + m.takerFeeOf (m.totals r.fills).quoteTraded ≤ q := by
  have hspent : (m.totals r.fills).quoteTraded ≤ m.budgetLots q * m.quoteToken.lotSize :=
    hof.quoteLot ▸ h.budget _ hq
  have hle := hspent.trans (Market.budgetLots_mul_le q)
  rw [← Nat.zero_add (m.totals r.fills).quoteTraded] at hle
  simpa only [Nat.zero_add] using Market.add_takerFeeOf_le hle

theorem lots_mul_le (q : ℕ) : asU64 (q / m.baseToken.lotSize) * m.baseToken.lotSize ≤ q :=
  (Nat.mul_le_mul_right _ (Checked.wrap_le _ _)).trans (Nat.div_mul_le_self _ _)

/-! ## Assertions -/

theorem Market.placeOrder_texts (hP : PanicLaw S) {texts : List String} {seq qty : ℕ}
    {price avail : Option ℕ} {side : Side} {type : OrderType} {client : Option ClientId}
    (h : "Market must be active to place an order" ∈ texts) :
    Says texts (m.placeOrder S seq taker price qty avail side type client) := by
  refine .bind (says_assert h) fun _ _ => .bind (.fit nofun) fun _ _ => ?_
  refine .bind (fun e he text ht => absurd ht (hP he text)) fun _ _ => ?_
  exact .pure _

/-- The assertion on the fees does not fire: the referrer is paid at most what
    the makers leave. -/
theorem settleMatches_texts {fee : FeeCalculator} {side : Side} {fs : List Match}
    {referrerId : Option AccountId} {bug : String} (texts : List String) :
    Says texts (settleMatches S c mid m fee side fs referrerId bug) := by
  have hord := ordinary_texts texts
  refine .bind (internalSettleMakerFills_fails hord) fun ⟨t, c₁⟩ _ => ?_
  refine .bind (FeeCalculator.atRate_fails nofun) fun total _ => ?_
  refine .bind (.sub nofun) fun net hnet => ?_
  refine .bind (internalSettleReferrerRebate_fails nofun) fun ⟨rebate, c₂⟩ hr => ?_
  refine .bind (.fit nofun) fun rebates hrebates => .bind (.require_of ?_) fun _ _ => .pure _
  have hle : rebate ≤ net := by
    cases internalSettleReferrerRebate_ok hr with
    | nothing => exact Nat.zero_le _
    | paid => exact le_rfl
  simp only [Checked.sub_eq_ok] at hnet
  simp only [Checked.fit_eq_ok] at hrebates
  omega

/-- What the engine and the settlement leave behind, as the paths use it. -/
theorem settled_of_placed (hB : BookLaws S) (hm : MarketOk S c.prevOrderSequenceNumber m)
    {seq qty : ℕ} {price avail : Option ℕ} {side : Side} {type : OrderType}
    {client : Option ClientId} {m₁ : Market B} {c₀ c₁ : Contract B} {s : Settled}
    {fee : FeeCalculator} {referrerId : Option AccountId} {bug : String}
    (hseq : c.nextSequenceNumber = .ok (seq, c₀))
    (hplace : m.placeOrder S seq taker price qty avail side type client = .ok (r, m₁))
    (hfee : fee.takerFeeBaseRate = m.takerFeeBaseRate)
    (hset : settleMatches S c₀ mid m₁ fee side r.fills referrerId bug = .ok (s, c₁)) :
    ∃ (n : NewOrder) (b' : B), n.Of m ∧ n.limitPriceLots = price ∧ n.maxQtyLots = qty ∧
      n.availableQuoteLots = avail ∧ n.side = side ∧ m₁ = { m with orderbook := b' } ∧
      Placed S m.orderbook taker n r b' ∧ s.baseTraded = (m.totals r.fills).baseTraded ∧
      s.quoteTraded = (m.totals r.fills).quoteTraded ∧
      s.totalTakerFee = m.takerFeeOf (m.totals r.fills).quoteTraded := by
  obtain ⟨-, hof, b', hb, rfl⟩ := Market.placeOrder_ok hplace
  obtain ⟨hs⟩ := settleMatches_ok (m := { m with orderbook := b' }) hfee hset
  have hnew := nextSequenceNumber_eq hseq
  refine ⟨_, b', hof, rfl, rfl, rfl, rfl, rfl, hB.place hm.nodup (fun id hid => ?_) hb, ?_, ?_,
    hs.fee⟩
  · have := hm.old id hid
    dsimp only
    omega
  · exact congrArg MakerSettlementResult.baseTraded hs.totals
  · exact congrArg MakerSettlementResult.quoteTraded hs.totals

/-- The messages with which the checks of an order or a hop stop it. -/
def checkMessages : List String := [
  "Contract is not active",
  "Limit price must be greater than 0",
  "Max spend must be greater than 0",
  "Quantity must be greater than 0",
  "Market must be active to place an order",
  "Bid outside of market trading window",
  "Ask outside of market trading window",
  "assertion failed: (left == right)"]

theorem assertBidWindow_texts : Says checkMessages (m.assertBidWindow S p) := by
  unfold Market.assertBidWindow
  cases m.bestBid S with
  | none => exact .pure _
  | some o =>
    refine .bind (.expect nofun) fun _ _ => .bind (.fit nofun) fun _ _ => ?_
    exact .bind (.fit nofun) fun _ _ => .bind (.div nofun) fun _ _ => says_assert (by decide)

theorem assertAskWindow_texts : Says checkMessages (m.assertAskWindow S p) := by
  unfold Market.assertAskWindow
  cases m.bestAsk S with
  | none => exact .pure _
  | some o =>
    refine .bind (.expect nofun) fun _ _ => .bind (.fit nofun) fun _ _ => ?_
    exact .bind (.fit nofun) fun _ _ => .bind (.div nofun) fun _ _ => says_assert (by decide)

theorem internalPlaceLimitBuy_texts (hB : BookLaws S) (hP : PanicLaw S)
    (hm : MarketOk S c.prevOrderSequenceNumber m) (hside : p.side = .buy) :
    Says checkMessages (internalPlaceLimitBuy S env c mid m taker a p) := by
  have hord := ordinary_texts checkMessages
  refine .bind assertBidWindow_texts fun _ _ => ?_
  refine .bind (Market.getMaxBidDebit_fails hord) fun maxDebit hdebit => ?_
  refine .bind (FeeCalculator.withholdTakerFee_fails hord.unwrap) fun avail havail => ?_
  refine .bind (Market.quoteNativeToLots_fails hord.arithmetic) fun lots hlots => ?_
  refine .bind (.require (hord.error _)) fun _ hpos => ?_
  refine .bind (.expect (hord.error _)) fun limit hlimit => ?_
  refine .bind (Market.quoteNativeToLots_fails hord.arithmetic) fun price hprice => ?_
  refine .bind (Market.baseNativeToLots_fails hord.arithmetic) fun spec hspec => ?_
  refine .bind (Market.affordableLots_fails hord.arithmetic) fun affordable haff => ?_
  refine .bind (.bind (.fit hord.arithmetic) fun _ _ => .pure _) fun sc hseq => ?_
  obtain ⟨seq, c₀⟩ := sc
  refine .bind (Market.placeOrder_texts hP (by decide)) fun rm hplace => ?_
  obtain ⟨r, m₁⟩ := rm
  refine .bind (settleMatches_texts _) fun sc hset => ?_
  obtain ⟨s, c₁⟩ := sc
  refine .bind (Settled.netFee_fails hord.arithmetic) fun net _ => ?_
  refine .bind (Market.incrFeesAccrued_fails hord.arithmetic) fun m₂ hm₂ => ?_
  refine .bind (Account.deposit_fails hord.arithmetic) fun a₁ _ => ?_
  refine .bind (Market.quoteLocked_fails hord.arithmetic) fun locked hlocked => ?_
  refine .bind (.fit hord.arithmetic) fun spent hspent => ?_
  refine .bind (.fit hord.arithmetic) fun total htotal => ?_
  refine .bind (.require_of ?_) fun _ _ => ?_
  · -- the budget covers what is locked and spent
    obtain ⟨n, b', hof, hl, hq, hbudget, hns, rfl, hp, -, hquote, hfee⟩ :=
      settled_of_placed hB hm hseq hplace rfl hset
    obtain rfl := FeeCalculator.withholdTakerFee_eq_ok (m := m) rfl havail
    obtain ⟨-, rfl⟩ := Market.quoteNativeToLots_eq_ok.1 hlots
    obtain ⟨-, rfl⟩ := Market.quoteNativeToLots_eq_ok.1 hprice
    obtain ⟨-, rfl⟩ := Market.baseNativeToLots_eq_ok.1 hspec
    have hsized : BidSized m p limit maxDebit affordable n := ⟨hns,
      Checked.expect_eq_ok.1 hlimit, hdebit, Checked.require_eq_ok.1 hpos, haff, hl, hq, hbudget⟩
    have hcovers := hsized.covers hof hside hp
    simp only [Market.incrFeesAccrued, Checked.bind_eq_ok, Checked.pure_eq_ok] at hm₂
    obtain ⟨_, -, rfl⟩ := hm₂
    simp only [Market.quoteLocked, Checked.bind_eq_ok, Checked.fit_eq_ok,
      Market.baseDenomination_eq_ok] at hlocked
    obtain ⟨_, ⟨-, rfl⟩, _, ⟨-, rfl⟩, _, ⟨-, rfl⟩, -, rfl⟩ := hlocked
    simp only [Checked.fit_eq_ok] at hspent htotal
    obtain ⟨⟨-, rfl⟩, -, rfl⟩ := hspent, htotal
    rw [hquote, hfee]
    exact hcovers
  refine .bind (Account.withdraw_fails (hord.error _)) fun a₂ _ => ?_
  refine .bind (savePosted_fails (hord.error _)) fun a₃ _ => ?_
  refine .bind (.fit hord.arithmetic) fun _ _ => ?_
  exact .bind (Market.reportedPrices_fails hord.arithmetic) fun _ _ => .pure _

theorem internalPlaceLimitSell_texts (hB : BookLaws S) (hP : PanicLaw S)
    (hm : MarketOk S c.prevOrderSequenceNumber m) :
    Says checkMessages (internalPlaceLimitSell S env c mid m taker a p) := by
  have hord := ordinary_texts checkMessages
  refine .bind assertAskWindow_texts fun _ _ => .bind (.require (hord.error _)) fun _ _ => ?_
  refine .bind (Market.baseNativeToLots_fails hord.arithmetic) fun lots hlots => ?_
  refine .bind (.expect (hord.error _)) fun limit _ => ?_
  refine .bind (Market.quoteNativeToLots_fails hord.arithmetic) fun price _ => ?_
  refine .bind (.bind (.fit hord.arithmetic) fun _ _ => .pure _) fun sc hseq => ?_
  obtain ⟨seq, c₀⟩ := sc
  refine .bind (Market.placeOrder_texts hP (by decide)) fun rm hplace => ?_
  obtain ⟨r, m₁⟩ := rm
  refine .bind (settleMatches_texts _) fun sc hset => ?_
  obtain ⟨s, c₁⟩ := sc
  refine .bind (Settled.netFee_fails hord.arithmetic) fun net _ => ?_
  refine .bind (Market.incrFeesAccrued_fails hord.arithmetic) fun m₂ hm₂ => ?_
  refine .bind (.sub hord.arithmetic) fun _ _ => ?_
  refine .bind (Account.deposit_fails hord.arithmetic) fun a₁ _ => ?_
  refine .bind (.fit hord.arithmetic) fun locked hlocked => ?_
  refine .bind (.fit hord.arithmetic) fun total htotal => .bind (.require_of ?_) fun _ _ => ?_
  · -- the quantity covers what is locked and sold
    obtain ⟨n, b', -, -, hq, -, -, rfl, hp, hbase, -, -⟩ :=
      settled_of_placed hB hm hseq hplace rfl hset
    obtain ⟨-, rfl⟩ := Market.baseNativeToLots_eq_ok.1 hlots
    have hle := hp.base_le (m := m) (hq ▸ lots_mul_le p.quantity)
    simp only [Market.incrFeesAccrued, Checked.bind_eq_ok, Checked.pure_eq_ok] at hm₂
    obtain ⟨_, -, rfl⟩ := hm₂
    simp only [Market.baseLotsToNative, Checked.fit_eq_ok] at hlocked htotal
    obtain ⟨⟨-, rfl⟩, -, rfl⟩ := hlocked, htotal
    rw [hbase]
    exact hle
  refine .bind (Account.withdraw_fails (hord.error _)) fun a₂ _ => ?_
  refine .bind (savePosted_fails (hord.error _)) fun a₃ _ => ?_
  exact .bind (Market.reportedPrices_fails hord.arithmetic) fun _ _ => .pure _

theorem internalPlaceMarketOrder_texts (hB : BookLaws S) (hP : PanicLaw S)
    (hm : MarketOk S c.prevOrderSequenceNumber m) :
    Says checkMessages (internalPlaceMarketOrder S c mid m taker a p) := by
  have hord := ordinary_texts checkMessages
  refine .bind (Market.baseNativeToLots_fails nofun) fun lots _ => ?_
  refine .bind (.require nofun) fun _ _ => ?_
  refine .bind (marketOrderBudget_fails hord) fun avail havail => ?_
  refine .bind (.bind (.fit nofun) fun _ _ => .pure _) fun ⟨seq, c₀⟩ hseq => ?_
  refine .bind (Market.placeOrder_texts hP (by decide)) fun ⟨r, m₁⟩ hplace => ?_
  refine .bind (settleMatches_texts _) fun ⟨s, c₁⟩ hset => ?_
  refine .bind (takerAmounts_fails nofun) fun ⟨inn, out⟩ hamounts => ?_
  refine .bind (.require_of ?_) fun _ _ => ?_
  · -- the maximum covers what is spent
    intro hside
    obtain ⟨n, b', hof, -, -, hbudget, -, rfl, hp, -, hquote, hfee⟩ :=
      settled_of_placed hB hm hseq hplace rfl hset
    have havail := marketOrderBudget_eq_ok (m := m) rfl havail
    rw [hside] at hamounts havail
    simp only [takerAmounts, Checked.bind_eq_ok, Checked.fit_eq_ok, Checked.pure_eq_ok,
      Prod.mk.injEq] at hamounts
    obtain ⟨_, ⟨hlt, rfl⟩, rfl, -⟩ := hamounts
    rcases hmax : p.maxSpend with _ | q
    · rw [Option.getD_none]
      exact Nat.le_sub_one_of_lt hlt
    · rw [hmax] at havail
      rw [Option.getD_some, hquote, hfee]
      exact hp.spent_le hof (hbudget.trans havail)
  refine .bind (Account.withdraw_fails nofun) fun a₁ _ => ?_
  refine .bind (Account.deposit_fails nofun) fun a₂ _ => ?_
  refine .bind (Settled.netFee_fails nofun) fun net _ => ?_
  refine .bind (Market.incrFeesAccrued_fails nofun) fun m₂ _ => ?_
  exact .bind (Market.reportedPrices_fails nofun) fun _ _ => .pure _

theorem internalSwap_texts (hP : PanicLaw S) {side : Side} {inputAmount : ℕ}
    {referrerId : Option AccountId} :
    Says checkMessages (internalSwap S env c mid m side inputAmount referrerId) := by
  refine .bind (says_assert (by decide)) fun _ _ => .bind (swapQuantity_fails nofun) fun x _ => ?_
  refine .bind (.bind (.fit nofun) fun _ _ => .pure _) fun ⟨seq, c₀⟩ _ => ?_
  refine .bind (Market.baseNativeToLots_fails nofun) fun lots _ => ?_
  refine .bind (.option_mapM fun _ _ => Market.quoteNativeToLots_fails nofun) fun avail _ => ?_
  refine .bind (Market.placeOrder_texts hP (by decide)) fun ⟨r, m₁⟩ _ => ?_
  refine .bind (settleMatches_texts _) fun ⟨s, c₁⟩ _ => ?_
  refine .bind (Settled.netFee_fails nofun) fun net _ => ?_
  refine .bind (Market.incrFeesAccrued_fails nofun) fun m₂ _ => ?_
  refine .bind (outputAmount_fails nofun) fun out _ => .bind (inputRefund_fails nofun) fun _ _ => ?_
  exact .bind (Market.reportedPrices_fails nofun) fun _ _ => .pure _

/-- The amounts of a swap do not underflow. -/
theorem swapAmounts_total (hof : n.Of m) (hrate : m.takerFeeBaseRate < 256) {side : Side}
    {inputAmount : ℕ} (h : SwapSized m side inputAmount n) (hp : Placed S b taker n r b')
    {s : Settled} (hbase : s.baseTraded = (m.totals r.fills).baseTraded)
    (hquote : s.quoteTraded = (m.totals r.fills).quoteTraded)
    (hfee : s.totalTakerFee = m.takerFeeOf (m.totals r.fills).quoteTraded) :
    (∃ x, outputAmount s side = .ok x) ∧
      ∃ x, inputRefund s side inputAmount (swapped side inputAmount) = .ok x := by
  cases side with
  | buy =>
    have hle := hp.spent_le hof h.budget
    rw [← hfee, ← hquote] at hle
    refine ⟨⟨_, rfl⟩, inputAmount - s.quoteTraded - s.totalTakerFee, ?_⟩
    simp only [inputRefund, Checked.bind_eq_ok, Checked.sub_eq_ok]
    exact ⟨_, ⟨by omega, rfl⟩, by omega, rfl⟩
  | sell =>
    have hle := hp.base_le (m := m) (h.qty ▸ lots_mul_le inputAmount)
    have hfee' := m.takerFeeOf_le hrate s.quoteTraded
    rw [hquote, ← hfee] at hfee'
    refine ⟨⟨s.quoteTraded - s.totalTakerFee, Checked.sub_eq_ok.2 ⟨hquote ▸ hfee', rfl⟩⟩,
      inputAmount - s.baseTraded, Checked.sub_eq_ok.2 ⟨?_, rfl⟩⟩
    rw [swapped, hbase]
    omega

theorem newOrder_texts (hB : BookLaws S) (hP : PanicLaw S) (hc : BooksOk S c) :
    Says checkMessages (newOrder S env c mid p) := by
  refine .bind (says_assert (by decide)) fun _ _ => ?_
  refine .bind (.bind (says_assert (by decide)) fun _ _ =>
    .bind (says_assert (by decide)) fun _ _ => says_assert (by decide)) fun _ _ => ?_
  refine .bind (.expect nofun) fun m hm => .bind (says_assert (by decide)) fun _ _ => ?_
  have hm := hc mid m (Contract.internalUnwrapMarket_eq_ok.1 hm)
  refine .bind (.expect nofun) fun a _ => .bind ?_ fun done _ => ?_
  · unfold placeByType
    split_ifs
    · exact internalPlaceMarketOrder_texts hB hP hm
    · rcases hs : p.side with _ | _
      · exact internalPlaceLimitBuy_texts hB hP hm hs
      · exact internalPlaceLimitSell_texts hB hP hm
  · exact .bind (Contract.internalSaveAccount_fails nofun) fun _ _ => .pure _

/-! ## Budgets -/

theorem NextOrder.placed (hB : BookLaws S) (hm : MarketOk S c.prevOrderSequenceNumber m)
    {type : OrderType} {Q : NewOrder → Prop}
    (h : NextOrder c m taker type Q (m.orderbook, taker, n))
    (hp : S.placeOrder m.orderbook taker n = .ok (r, b')) :
    Placed S m.orderbook taker n r b' := by
  refine hB.place hm.nodup (fun id hid => ?_) hp
  have h1 := hm.old id hid
  have h2 := h.seq
  dsimp only at h2
  omega

/-- Effects keep the books of a reachable state well formed. -/
theorem booksOk_of_effects (hB : BookLaws S) {s : System B}
    (hs : System.Reachable S s) {es : List (Effect B)} (hes : Effects S s.contract es c) :
    BooksOk S c :=
  hes.invariant (fun _ _ _ _ he hc => he.booksOk hB hc) (booksOk_of_reach hB hs)

/-- **The budget assertions are unreachable.**  In every reachable state, also in
    the middle of a batch or a chain of swaps, and whatever the engine answers to
    the order that a path hands over: a limit buy locks and spends, with its fee,
    at most its maximum; a market buy spends at most its maximum; a limit sell
    locks and sells at most its quantity; the amounts of a swap do not underflow;
    and no order is stopped by an assertion on what it spent or sold. -/
theorem budgets_hold (hB : BookLaws S) (hP : PanicLaw S) {s : System B}
    (hs : System.Reachable S s) {es : List (Effect B)} (hes : Effects S s.contract es c)
    (hm : c.markets.lookup mid = some m) (env : Env) (taker : AccountId) (a : Account)
    (p : NewOrderParams) :
    (p.side = .buy → ∀ n r b',
      Hands S (fun S => internalPlaceLimitBuy S env c mid m taker a p) m.orderbook taker n →
      S.placeOrder m.orderbook taker n = .ok (r, b') → ∃ limit, p.limitPrice = some limit ∧
        lockedBy m .buy r.openQtyLots limit + (m.totals r.fills).quoteTraded +
            m.takerFeeOf (m.totals r.fills).quoteTraded ≤
          p.maxSpend.getD (p.quantity * limit / m.denom)) ∧
    (p.side = .buy → ∀ n r b' maxSpend, p.maxSpend = some maxSpend →
      Hands S (fun S => internalPlaceMarketOrder S c mid m taker a p) m.orderbook taker n →
      S.placeOrder m.orderbook taker n = .ok (r, b') →
        (m.totals r.fills).quoteTraded + m.takerFeeOf (m.totals r.fills).quoteTraded ≤ maxSpend) ∧
    (∀ n r b',
      Hands S (fun S => internalPlaceLimitSell S env c mid m taker a p) m.orderbook taker n →
      S.placeOrder m.orderbook taker n = .ok (r, b') →
        (m.totals r.fills).baseTraded + r.openQtyLots * m.baseToken.lotSize ≤ p.quantity) ∧
    (∀ side inputAmount referrerId n r b' c₀ bug settled c₁,
      Hands S (fun S => internalSwap S env c mid m side inputAmount referrerId) m.orderbook
        env.signerAccountId n →
      S.placeOrder m.orderbook env.signerAccountId n = .ok (r, b') →
      settleMatches S c₀ mid { m with orderbook := b' } (.newWithBaseRate m) side r.fills
        referrerId bug = .ok (settled, c₁) →
      (∃ x, outputAmount settled side = .ok x) ∧
        ∃ x, inputRefund settled side inputAmount (swapped side inputAmount) = .ok x) ∧
    (∀ text ∈ ["bid bug: overspent", "market order overspent", "ask bug: oversold"],
      (p.side = .buy →
        internalPlaceLimitBuy S env c mid m taker a p ≠ .error (.message text)) ∧
      internalPlaceLimitSell S env c mid m taker a p ≠ .error (.message text) ∧
      internalPlaceMarketOrder S c mid m taker a p ≠ .error (.message text) ∧
      newOrder S env c mid p ≠ .error (.message text)) := by
  have hc := booksOk_of_effects hB hs hes
  have hok := hc mid m hm
  refine ⟨fun hside n r b' hn hp => ?_, fun hside n r b' q hq hn hp => ?_, fun n r b' hn hp => ?_,
    fun side inputAmount referrerId n r b' c₀ bug settled c₁ hn hp hset => ?_, fun text htext => ?_⟩
  · have hnext := internalPlaceLimitBuy_asks.of_hands hn
    obtain ⟨limit, maxDebit, affordable, hsized⟩ := hnext.order
    refine ⟨limit, hsized.limitPrice, ?_⟩
    rw [← Market.getMaxBidDebit_eq_ok hsized.limitPrice hsized.debit]
    exact hsized.covers hnext.of hside (hnext.placed hB hok hp)
  · have hnext := internalPlaceMarketOrder_asks.of_hands hn
    refine (hnext.placed hB hok hp).spent_le hnext.of ?_
    rw [hnext.order.budget, hside, hq]
    rfl
  · have hnext := internalPlaceLimitSell_asks.of_hands hn
    obtain ⟨limit, hsized⟩ := hnext.order
    exact (hnext.placed hB hok hp).base_le (hsized.qty ▸ lots_mul_le p.quantity)
  · have hnext := internalSwap_asks.of_hands hn
    obtain ⟨hs⟩ := settleMatches_ok (m := { m with orderbook := b' }) rfl hset
    exact swapAmounts_total hnext.of hok.takerRate hnext.order (hnext.placed hB hok hp)
      (congrArg MakerSettlementResult.baseTraded hs.totals)
      (congrArg MakerSettlementResult.quoteTraded hs.totals) hs.fee
  · have hother : text ∉ checkMessages := by
      simp only [List.mem_cons, List.not_mem_nil, or_false] at htext
      obtain rfl | rfl | rfl := htext <;> decide
    exact ⟨fun hside => (internalPlaceLimitBuy_texts hB hP hok hside).ne_message hother,
      (internalPlaceLimitSell_texts hB hP hok).ne_message hother,
      (internalPlaceMarketOrder_texts hB hP hok).ne_message hother,
      (newOrder_texts hB hP hc).ne_message hother⟩

/-- Bob's bid against Alice's order. -/
theorem budgets_hold_asked : newOrder Engine.sdk (Engine.calling Engine.bob 0)
    (Engine.run Engine.asked).contract Engine.btcUsd (Engine.order .buy .limit 20 600 none) ≠
      .error (.message "bid bug: overspent") := by
  obtain ⟨m, hm, -⟩ := Engine.market_asked
  obtain ⟨-, -, -, -, hnever⟩ := budgets_hold Engine.bookLaws Engine.panicLaw
    (Engine.reachable_run Engine.asked) (.nil _) hm (Engine.calling Engine.bob 0) Engine.bob .new
    (Engine.order .buy .limit 20 600 none)
  exact (hnever _ (by decide)).2.2.2

end TonicDex
