/-
  How large a limit buy is.

  A limit buy is sized by what its budget affords at its price, in base lots,
  but for no more than its quantity.  The nested floors find the greatest such
  size (`Rounding.isGreatest_min_div`); but what the budget affords is narrowed
  to 64 bits before the minimum is taken, so a budget that is large for the
  price stops the call whatever the quantity is (`bid_sizing_iff`).
-/
import TonicDex.Engine.Library
import TonicDex.Lib.Rounding
import TonicDex.Spec.Sizing

namespace TonicDex

variable {B : Type} {S : Sdk B} {c : Contract B} {mid : MarketId} {m : Market B} {env : Env}
  {p : NewOrderParams} {n n' : NewOrder} {limit : ℕ}

/-! ## The size of a bid -/

namespace Market

variable (m : Market B)

/-- The most a bid may cost, fees included. -/
def maxBid (p : NewOrderParams) (limit : ℕ) : ℕ :=
  p.maxSpend.getD (p.quantity * limit / m.denom)

/-- What is left of `x` after the fee, in native amounts of whole quote lots. -/
def bidBudget (x : ℕ) : ℕ :=
  m.quoteToken.lotSize * ((x - x * m.takerFeeBaseRate / feeToBpsDivisor) / m.quoteToken.lotSize)

/-- The base lots that a budget affords at a price. -/
def affords (budget limit : ℕ) : ℕ := budget * m.denom / limit / m.baseToken.lotSize

/-- What the sizing of a bid computes fits, and it has a quote lot to spend. -/
structure Sizable (limit x : ℕ) : Prop where
  denom : m.denom < 2 ^ 128
  debit : x < 2 ^ 128
  fee : x * m.takerFeeBaseRate < 2 ^ 128
  budget : m.bidBudget x ≠ 0
  affordable : m.affords (m.bidBudget x) limit < 2 ^ 64

/-- In lots, the amounts of a bid fit into 64 bits. -/
structure LotsFit (p : NewOrderParams) (limit x : ℕ) : Prop where
  budget : m.bidBudget x / m.quoteToken.lotSize < 2 ^ 64
  quantity : p.quantity / m.baseToken.lotSize < 2 ^ 64
  price : limit / m.quoteToken.lotSize < 2 ^ 64

end Market

/-- A limit buy whose sizing starts: nothing stops it before, and there is a
    sequence number for it. -/
structure SizingStarts (S : Sdk B) (c : Contract B) (env : Env) (mid : MarketId) (m : Market B)
    (p : NewOrderParams) (limit : ℕ) : Prop where
  type : p.orderType ≠ .market
  side : p.side = .buy
  limitPrice : p.limitPrice = some limit
  contract : c.state = .active
  valid : assertValidOrder p = .ok ()
  found : c.markets.lookup mid = some m
  market : m.state = .active
  account : ∃ a, c.accounts.lookup env.predecessorAccountId = some a
  window : m.assertBidWindow S p = .ok ()
  numbered : c.prevOrderSequenceNumber + 1 < 2 ^ 64
  baseLot : 0 < m.baseToken.lotSize
  quoteLot : 0 < m.quoteToken.lotSize

/-- The amounts of an order have 128 bits. -/
structure NewOrderParams.Typed (p : NewOrderParams) : Prop where
  quantity : p.quantity < 2 ^ 128
  limitPrice : ∀ l, p.limitPrice = some l → l < 2 ^ 128
  maxSpend : ∀ q, p.maxSpend = some q → q < 2 ^ 128

/-- The order that a bid becomes. -/
def bidOrder (c : Contract B) (m : Market B) (p : NewOrderParams) (limit x : ℕ) : NewOrder :=
  ⟨c.prevOrderSequenceNumber + 1, some (limit / m.quoteToken.lotSize),
    min (p.quantity / m.baseToken.lotSize) (m.affords (m.bidBudget x) limit),
    some (m.bidBudget x / m.quoteToken.lotSize), p.side, p.orderType, m.quoteToken.lotSize, m.denom,
    m.baseToken.lotSize, p.clientId⟩

/-! ## The steps of the sizing -/

theorem SizingStarts.limit_pos (h : SizingStarts S c env mid m p limit) : 0 < limit := by
  have hvalid := h.valid
  simp only [assertValidOrder, Checked.bind_eq_ok, Checked.require_eq_ok, h.limitPrice] at hvalid
  obtain ⟨_, hne, -⟩ := hvalid
  exact Nat.pos_of_ne_zero fun h0 => hne (h0 ▸ rfl)

theorem getMaxBidDebit_eq_ok (hp : p.Typed) (hlimit : p.limitPrice = some limit)
    (hd : m.denom < 2 ^ 128) {x : ℕ} :
    m.getMaxBidDebit p = .ok x ↔ m.maxBid p limit < 2 ^ 128 ∧ x = m.maxBid p limit := by
  unfold Market.getMaxBidDebit Market.maxBid
  rcases hq : p.maxSpend with _ | q
  · have hvolume : p.quantity * limit < 2 ^ 256 := by
      calc p.quantity * limit < 2 ^ 128 * 2 ^ 128 :=
            Nat.mul_lt_mul'' hp.quantity (hp.limitPrice limit hlimit)
        _ = 2 ^ 256 := by norm_num
    have hdenom : m.baseDenomination = .ok m.denom := Market.baseDenomination_eq_ok.2 ⟨hd, rfl⟩
    simp only [hlimit, Checked.expect, Checked.ok_bind, Checked.fit_of_lt hvolume, hdenom,
      Checked.fit_eq_ok, Option.getD_none]
    exact and_congr_right fun _ => eq_comm
  · simp only [Checked.pure_eq_ok, Option.getD_some]
    exact ⟨fun h => ⟨hp.maxSpend q hq, h.symm⟩, fun h => h.2.symm⟩

theorem withholdTakerFee_iff {a : Account} {x y : ℕ} :
    (FeeCalculator.new a m).withholdTakerFee x = .ok y ↔ x * m.takerFeeBaseRate < 2 ^ 128 ∧
      y = x - x * m.takerFeeBaseRate / feeToBpsDivisor := by
  simp only [FeeCalculator.withholdTakerFee, FeeCalculator.takerFee, FeeCalculator.new,
    Checked.bind_eq_ok, FeeCalculator.atRate_eq_ok, Checked.pure_eq_ok]
  constructor
  · rintro ⟨_, ⟨hlt, rfl⟩, rfl⟩
    exact ⟨hlt, rfl⟩
  · rintro ⟨hlt, rfl⟩
    exact ⟨_, ⟨hlt, rfl⟩, rfl⟩

theorem Market.bidBudget_le (m : Market B) (x : ℕ) : m.bidBudget x ≤ x :=
  (Nat.mul_div_le _ _).trans (Nat.sub_le _ _)

theorem affordableLots_eq_ok {budget : ℕ} (hlimit : 0 < limit) (hbase : 0 < m.baseToken.lotSize)
    (hbudget : budget * m.quoteToken.lotSize < 2 ^ 128) (hd : m.denom < 2 ^ 128) {lots : ℕ} :
    m.affordableLots budget limit = .ok lots ↔
      m.affords (budget * m.quoteToken.lotSize) limit < 2 ^ 64 ∧
        lots = m.affords (budget * m.quoteToken.lotSize) limit := by
  have hscaled : budget * m.quoteToken.lotSize * m.denom < 2 ^ 256 := by
    calc budget * m.quoteToken.lotSize * m.denom < 2 ^ 128 * 2 ^ 128 := Nat.mul_lt_mul'' hbudget hd
      _ = 2 ^ 256 := by norm_num
  have hdenom : m.baseDenomination = .ok m.denom := Market.baseDenomination_eq_ok.2 ⟨hd, rfl⟩
  simp only [Market.affordableLots, Market.quoteLotsToNative, Checked.fit_of_lt hbudget, hdenom,
    Checked.ok_bind, Checked.fit_of_lt hscaled, Checked.div, if_neg hlimit.ne', if_neg hbase.ne',
    Checked.fit_eq_ok]
  exact and_congr_right fun _ => eq_comm

theorem quoteNativeToLots_iff (hquote : 0 < m.quoteToken.lotSize) {x lots : ℕ}
    (hfits : x / m.quoteToken.lotSize < 2 ^ 64) :
    m.quoteNativeToLots x = .ok lots ↔ lots = x / m.quoteToken.lotSize := by
  rw [Market.quoteNativeToLots_eq_ok, asU64, Checked.wrap_of_lt hfits]
  exact ⟨fun h => h.2.symm, fun h => ⟨hquote.ne', h.symm⟩⟩

theorem baseNativeToLots_iff (hbase : 0 < m.baseToken.lotSize) {x lots : ℕ}
    (hfits : x / m.baseToken.lotSize < 2 ^ 64) :
    m.baseNativeToLots x = .ok lots ↔ lots = x / m.baseToken.lotSize := by
  rw [Market.baseNativeToLots_eq_ok, asU64, Checked.wrap_of_lt hfits]
  exact ⟨fun h => h.2.symm, fun h => ⟨hbase.ne', h.symm⟩⟩

/-! ## The order handed over -/

/-- **A limit buy hands its order over just in case its sizing goes through.** -/
theorem SizingStarts.hands_iff (h : SizingStarts S c env mid m p limit) (hp : p.Typed)
    (hfit : m.LotsFit p limit (m.maxBid p limit)) :
    Hands S (fun S => newOrder S env c mid p) m.orderbook env.predecessorAccountId n ↔
      m.Sizable limit (m.maxBid p limit) ∧ n = bidOrder c m p limit (m.maxBid p limit) := by
  have hle := m.bidBudget_le (m.maxBid p limit)
  have hlots : (m.maxBid p limit - m.maxBid p limit * m.takerFeeBaseRate / feeToBpsDivisor) /
      m.quoteToken.lotSize = m.bidBudget (m.maxBid p limit) / m.quoteToken.lotSize :=
    (Nat.mul_div_cancel_left _ h.quoteLot).symm
  have hbudget : m.bidBudget (m.maxBid p limit) / m.quoteToken.lotSize * m.quoteToken.lotSize =
      m.bidBudget (m.maxBid p limit) := Nat.div_mul_cancel (Nat.dvd_mul_right _ _)
  have hquotient := hfit.budget
  rw [← hlots] at hquotient
  rw [newOrder_buy_hands_iff h.found h.type h.side]
  constructor
  · rintro ⟨-, -, -, a, -, hn⟩
    obtain ⟨-, maxDebit, hdebit, avail, havail, hn⟩ := internalPlaceLimitBuy_hands_iff.1 hn
    obtain ⟨lots, hlots', hpos, limit', hlimit, price, hprice, hn⟩ := hn
    obtain ⟨specified, hspecified, affordable, haffordable, -, -, hd, rfl⟩ := hn
    obtain rfl := Option.some.inj (hlimit.symm.trans h.limitPrice)
    obtain ⟨hM, rfl⟩ := (getMaxBidDebit_eq_ok hp h.limitPrice hd).1 hdebit
    obtain ⟨hfee, rfl⟩ := withholdTakerFee_iff.1 havail
    obtain rfl := (quoteNativeToLots_iff h.quoteLot hquotient).1 hlots'
    obtain rfl := (quoteNativeToLots_iff h.quoteLot hfit.price).1 hprice
    obtain rfl := (baseNativeToLots_iff h.baseLot hfit.quantity).1 hspecified
    rw [hlots] at hpos haffordable ⊢
    have hnative : m.bidBudget (m.maxBid p limit') / m.quoteToken.lotSize *
        m.quoteToken.lotSize < 2 ^ 128 := by
      rw [hbudget]
      exact hle.trans_lt hM
    rw [affordableLots_eq_ok h.limit_pos h.baseLot hnative hd, hbudget] at haffordable
    obtain ⟨haffordable, rfl⟩ := haffordable
    refine ⟨⟨hd, hM, hfee, fun h0 => hpos ?_, haffordable⟩, rfl⟩
    rw [h0, Nat.zero_div]
  · rintro ⟨hs, rfl⟩
    obtain ⟨a, ha⟩ := h.account
    refine ⟨h.contract, h.valid, h.market, a, ha, internalPlaceLimitBuy_hands_iff.2 ?_⟩
    refine ⟨h.window, _, (getMaxBidDebit_eq_ok hp h.limitPrice hs.denom).2 ⟨hs.debit, rfl⟩, _,
      withholdTakerFee_iff.2 ⟨hs.fee, rfl⟩, _,
      (quoteNativeToLots_iff h.quoteLot hquotient).2 rfl, ?_⟩
    refine ⟨?_, limit, h.limitPrice, _, (quoteNativeToLots_iff h.quoteLot hfit.price).2 rfl, _,
      (baseNativeToLots_iff h.baseLot hfit.quantity).2 rfl, _,
      (affordableLots_eq_ok h.limit_pos h.baseLot ?_ hs.denom).2 ⟨?_, rfl⟩, h.numbered, h.market,
      hs.denom, ?_⟩
    · intro h0
      rw [hlots] at h0
      rw [h0, Nat.zero_mul] at hbudget
      exact hs.budget hbudget.symm
    · rw [hlots, hbudget]
      exact hle.trans_lt hs.debit
    · rw [hlots, hbudget]
      exact hs.affordable
    · rw [hlots, hbudget]
      rfl

/-- The bid goes through its sizing, and is as large as its quantity and its budget
    allow. -/
def SizedMaximally (S : Sdk B) (c : Contract B) (env : Env) (mid : MarketId) (m : Market B)
    (p : NewOrderParams) (limit : ℕ) : Prop :=
  ∃ n, Hands S (fun S => newOrder S env c mid p) m.orderbook env.predecessorAccountId n ∧
    IsGreatest {q | q * m.baseToken.lotSize ≤ p.quantity ∧
      q * m.baseToken.lotSize * limit ≤ m.bidBudget (m.maxBid p limit) * m.denom} n.maxQtyLots

theorem SizingStarts.sizedMaximally_iff (h : SizingStarts S c env mid m p limit) (hp : p.Typed)
    (hfit : m.LotsFit p limit (m.maxBid p limit)) :
    SizedMaximally S c env mid m p limit ↔ m.Sizable limit (m.maxBid p limit) := by
  unfold SizedMaximally
  constructor
  · rintro ⟨n, hn, -⟩
    exact ((h.hands_iff hp hfit).1 hn).1
  · intro hs
    exact ⟨_, (h.hands_iff hp hfit).2 ⟨hs, rfl⟩,
      Rounding.isGreatest_min_div h.baseLot h.limit_pos _ _⟩

/-! ## Larger budgets -/

/-- The bid with another maximum spend. -/
def NewOrderParams.spending (p : NewOrderParams) (q : ℕ) : NewOrderParams :=
  { p with maxSpend := some q }

theorem SizingStarts.spending (h : SizingStarts S c env mid m p limit) {q : ℕ} (hq : q ≠ 0) :
    SizingStarts S c env mid m (p.spending q) limit := by
  refine ⟨h.type, h.side, h.limitPrice, h.contract, ?_, h.found, h.market, h.account, h.window,
    h.numbered, h.baseLot, h.quoteLot⟩
  have hvalid := h.valid
  simp only [assertValidOrder, Checked.bind_eq_ok, Checked.require_eq_ok] at hvalid ⊢
  obtain ⟨u, hprice, v, -, hqty⟩ := hvalid
  exact ⟨u, hprice, v, fun h0 => hq (Option.some.inj h0), hqty⟩

theorem Market.bidBudget_mono (m : Market B) (hrate : m.takerFeeBaseRate < 256) :
    Monotone m.bidBudget := by
  intro x y hxy
  refine Nat.mul_le_mul_left _ (Nat.div_le_div_right ?_)
  exact Rounding.sub_mul_div_mono (d := feeToBpsDivisor) (hrate.le.trans (by decide)) hxy

theorem Market.affords_mono (m : Market B) (limit : ℕ) : Monotone (m.affords · limit) :=
  fun _ _ h => Nat.div_le_div_right (Nat.div_le_div_right (Nat.mul_le_mul_right _ h))

/-- **A bid is sized maximally just in case what its sizing computes fits.**  For
    every limit buy whose lots fit into 64 bits: its sizing goes through, and finds
    the greatest size within quantity and budget, if and only if the scale, the
    budget and the fee fit into 128 bits, the budget makes up a quote lot, and what
    it affords at the price fits into 64 bits.  Raising the maximum spend of a bid
    that went through gives an order that is no smaller if and only if this still
    holds of the fee and of what the budget affords. -/
theorem bid_sizing_iff (h : SizingStarts S c env mid m p limit) (hp : p.Typed)
    (hrate : m.takerFeeBaseRate < 256) (hfit : m.LotsFit p limit (m.maxBid p limit)) :
    (SizedMaximally S c env mid m p limit ↔ m.Sizable limit (m.maxBid p limit)) ∧
    ∀ q q' n, p.maxSpend = some q → q ≤ q' → q' < 2 ^ 128 → m.LotsFit p limit q' →
      Hands S (fun S => newOrder S env c mid p) m.orderbook env.predecessorAccountId n →
      ((∃ n', Hands S (fun S => newOrder S env c mid (p.spending q')) m.orderbook
            env.predecessorAccountId n' ∧ n.maxQtyLots ≤ n'.maxQtyLots) ↔
        q' * m.takerFeeBaseRate < 2 ^ 128 ∧ m.affords (m.bidBudget q') limit < 2 ^ 64) := by
  refine ⟨h.sizedMaximally_iff hp hfit, fun q q' n hq hle hq' hfit' hn => ?_⟩
  obtain ⟨hs, rfl⟩ := (h.hands_iff hp hfit).1 hn
  have hM : m.maxBid p limit = q := by rw [Market.maxBid, hq, Option.getD_some]
  rw [hM] at hs ⊢
  have hbudget := m.bidBudget_mono hrate hle
  -- a larger budget is not zero either
  have hpos : m.bidBudget q' ≠ 0 := fun h0 => hs.budget (Nat.le_zero.1 (h0 ▸ hbudget))
  have hq'0 : q' ≠ 0 := fun h0 => hpos (Nat.le_zero.1 (h0 ▸ m.bidBudget_le q'))
  have htyped : (p.spending q').Typed :=
    ⟨hp.quantity, hp.limitPrice, fun _ hx => Option.some.inj hx ▸ hq'⟩
  have hraised : m.LotsFit (p.spending q') limit (m.maxBid (p.spending q') limit) :=
    ⟨hfit'.budget, hfit'.quantity, hfit'.price⟩
  constructor
  · rintro ⟨n', hn', -⟩
    obtain ⟨hs', -⟩ := ((h.spending hq'0).hands_iff htyped hraised).1 hn'
    exact ⟨hs'.fee, hs'.affordable⟩
  · rintro ⟨hfee, haffordable⟩
    refine ⟨_, ((h.spending hq'0).hands_iff htyped hraised).2
      ⟨⟨hs.denom, hq', hfee, hpos, haffordable⟩, rfl⟩, ?_⟩
    exact min_le_min_left _ (m.affords_mono limit hbudget)

/-- A bid for 10 `btc` at the price of one lot. -/
def cheapBid (maxSpend : ℕ) : NewOrderParams :=
  (Engine.order .buy .limit 10 100 none).spending maxSpend

theorem sizingStarts_cheapBid {q : ℕ} (hq : q ≠ 0) : ∃ m,
    SizingStarts Engine.sdk (Engine.run Engine.asked).contract (Engine.calling Engine.bob 0)
        Engine.btcUsd m (cheapBid q) 10 ∧
      m.baseToken = ⟨.fungibleToken Engine.btc, 1, 1⟩ ∧
      m.quoteToken = ⟨.fungibleToken Engine.usd, 10, 1⟩ ∧ m.takerFeeBaseRate = 100 := by
  obtain ⟨m, hm, hbase, hquote⟩ := Engine.market_asked
  have hstate : ((Engine.run Engine.asked).contract.markets.lookup Engine.btcUsd).map (fun m =>
      (m.state, m.takerFeeBaseRate, m.bestBid Engine.sdk)) = some (.active, 100, none) := by
    decide +kernel
  rw [hm, Option.map_some, Option.some.injEq, Prod.mk.injEq, Prod.mk.injEq] at hstate
  obtain ⟨hst, hrate, hbid⟩ := hstate
  have haccount :
      ((Engine.run Engine.asked).contract.accounts.lookup Engine.bob).isSome = true := by
    decide +kernel
  refine ⟨m, ⟨nofun, rfl, rfl, by decide +kernel, ?_, hm, hst, Option.isSome_iff_exists.1 haccount,
    ?_, by decide +kernel, ?_, ?_⟩, hbase, hquote, hrate⟩
  · have hspend : (cheapBid q).maxSpend ≠ some 0 := fun h0 => hq (Option.some.inj h0)
    have hprice : (cheapBid q).limitPrice ≠ some 0 := show some 10 ≠ some 0 by decide
    rw [assertValidOrder, assert, Checked.require_pos hprice, Checked.ok_bind, assert,
      Checked.require_pos hspend]
    rfl
  · rw [Market.assertBidWindow, hbid]
    rfl
  · rw [hbase]
    exact Nat.one_pos
  · rw [hquote]
    exact Nat.succ_pos 9

theorem maxBid_cheapBid (m : Market Engine.Book) (q limit : ℕ) :
    m.maxBid (cheapBid q) limit = q := rfl

theorem typed_cheapBid {q : ℕ} (hq : q < 2 ^ 128) : (cheapBid q).Typed where
  quantity := show 100 < 2 ^ 128 by decide
  limitPrice := by
    rintro l ⟨⟩
    decide
  maxSpend := by
    rintro x ⟨⟩
    exact hq

/-- What the sizing of the bid computes of a budget. -/
theorem cheapBid_amounts (hbase : m.baseToken = ⟨.fungibleToken Engine.btc, 1, 1⟩)
    (hquote : m.quoteToken = ⟨.fungibleToken Engine.usd, 10, 1⟩) (hrate : m.takerFeeBaseRate = 100)
    (x : ℕ) : m.bidBudget x = 10 * ((x - x * 100 / 10000) / 10) ∧
      m.affords (m.bidBudget x) 10 = 10 * ((x - x * 100 / 10000) / 10) * 10 / 10 / 1 := by
  have hbudget : m.bidBudget x = 10 * ((x - x * 100 / 10000) / 10) := by
    rw [Market.bidBudget, hquote, hrate]
    rfl
  refine ⟨hbudget, ?_⟩
  rw [Market.affords, hbudget, Market.denom, hbase]
  rfl

/-- With 2000 `usd` to spend the bid is as large as it can be, and with 3000 it is no
    smaller. -/
theorem bid_sizing_cheapBid : ∃ m n n',
    SizedMaximally Engine.sdk (Engine.run Engine.asked).contract (Engine.calling Engine.bob 0)
      Engine.btcUsd m (cheapBid 2000) 10 ∧
    Hands Engine.sdk (fun S => newOrder S (Engine.calling Engine.bob 0)
      (Engine.run Engine.asked).contract Engine.btcUsd (cheapBid 2000)) m.orderbook Engine.bob n ∧
    Hands Engine.sdk (fun S => newOrder S (Engine.calling Engine.bob 0)
      (Engine.run Engine.asked).contract Engine.btcUsd (cheapBid 3000)) m.orderbook Engine.bob n' ∧
    n.maxQtyLots ≤ n'.maxQtyLots := by
  obtain ⟨m, h, hbase, hquote, hrate⟩ := sizingStarts_cheapBid (q := 2000) (by decide)
  have hamounts := cheapBid_amounts hbase hquote hrate
  have hfit : ∀ x, x = 2000 ∨ x = 3000 → m.LotsFit (cheapBid 2000) 10 x := by
    intro x hx
    refine ⟨?_, ?_, ?_⟩
    · rw [(hamounts x).1, hquote]
      rcases hx with rfl | rfl <;> decide
    · rw [hbase]
      decide
    · rw [hquote]
      decide
  obtain ⟨hiff, hraise⟩ := bid_sizing_iff h (typed_cheapBid (by decide))
    (by rw [hrate]; decide) (hfit _ (.inl rfl))
  rw [maxBid_cheapBid] at hiff
  have hsized := hiff.2 ⟨by rw [Market.denom, hbase]; decide, by decide, by rw [hrate]; decide,
    by rw [(hamounts _).1]; decide, by rw [(hamounts _).2]; decide⟩
  have ⟨n, hn, _⟩ := hsized
  obtain ⟨n', hn', hle⟩ := (hraise 2000 3000 n rfl (by decide) (by decide) (hfit _ (.inr rfl))
    hn).2 ⟨by rw [hrate]; decide, by rw [(hamounts _).2]; decide⟩
  exact ⟨m, n, n', hsized, hn, hn', hle⟩

/-- With 5 * 2^64 `usd` to spend the bid is not even handed over, although all its
    lots fit: what it affords is narrowed before it is compared with the quantity. -/
theorem bid_sizing_stopped : ∃ m,
    SizingStarts Engine.sdk (Engine.run Engine.asked).contract (Engine.calling Engine.bob 0)
      Engine.btcUsd m (cheapBid (5 * 2 ^ 64)) 10 ∧
    (cheapBid (5 * 2 ^ 64)).Typed ∧
    m.LotsFit (cheapBid (5 * 2 ^ 64)) 10 (5 * 2 ^ 64) ∧
    ¬ SizedMaximally Engine.sdk (Engine.run Engine.asked).contract (Engine.calling Engine.bob 0)
      Engine.btcUsd m (cheapBid (5 * 2 ^ 64)) 10 ∧
    newOrder Engine.sdk (Engine.calling Engine.bob 0) (Engine.run Engine.asked).contract
      Engine.btcUsd (cheapBid (5 * 2 ^ 64)) = .error .arithmetic ∧
    (newOrder Engine.sdk (Engine.calling Engine.bob 0) (Engine.run Engine.asked).contract
      Engine.btcUsd (cheapBid 2000)).isOk = true := by
  obtain ⟨m, h, hbase, hquote, hrate⟩ := sizingStarts_cheapBid (q := 5 * 2 ^ 64) (by decide)
  have hamounts := cheapBid_amounts hbase hquote hrate (5 * 2 ^ 64)
  have htyped := typed_cheapBid (q := 5 * 2 ^ 64) (by decide)
  have hfit : m.LotsFit (cheapBid (5 * 2 ^ 64)) 10 (5 * 2 ^ 64) := by
    refine ⟨?_, ?_, ?_⟩
    · rw [hamounts.1, hquote]
      decide
    · rw [hbase]
      decide
    · rw [hquote]
      decide
  refine ⟨m, h, htyped, hfit, fun hsized => ?_, Engine.eq_error_of_stoppedBy (by decide +kernel),
    by decide +kernel⟩
  have haffordable := ((h.sizedMaximally_iff htyped
    ((maxBid_cheapBid m (5 * 2 ^ 64) 10).symm ▸ hfit)).1 hsized).affordable
  rw [maxBid_cheapBid, hamounts.2] at haffordable
  exact absurd haffordable (by decide)

end TonicDex
