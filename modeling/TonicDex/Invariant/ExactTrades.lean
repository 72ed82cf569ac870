/-
  Trades that lose nothing.

  A trade pays out no more than it takes in (`Traded.flow_le`).  It pays out just
  as much if a lot of base at a lot of quote is a whole native amount
  (`Market.Divides`), and what its order locks is what the order is worth in the
  book (`Traded.flow_exact`).  An order locks that if its limit price is one in
  lots, and the rebate of its referrer is not lost unless the taker refers itself
  (`NewOrderParams.Exact`); a hop hands out all but what it leaves over of its
  input.
-/
import TonicDex.Invariant.Degenerate
import TonicDex.Invariant.LotSizes

namespace TonicDex

variable {B : Type} {S : Sdk B} {c c' : Contract B} {mid : MarketId} {m m' : Market B}
  {env : Env} {taker : AccountId} {n : NewOrder} {referrerId : Option AccountId}
  {r : PlaceOrderResult} {s : Settled} {p : NewOrderParams}

/-! ## Fills -/

/-- The base denomination divides the value of a lot at the price of a lot. -/
def Market.Divides (m : Market B) : Prop :=
  m.denom ∣ m.quoteToken.lotSize * m.baseToken.lotSize

theorem Market.lotValue_add (h : m.Divides) (a b price : ℕ) :
    m.lotValue (a + b) price = m.lotValue a price + m.lotValue b price := by
  have hprice := h.mul_left price
  rw [lotValue_eq, lotValue_eq, lotValue_eq, Nat.mul_div_assoc _ hprice,
    Nat.mul_div_assoc _ hprice, Nat.mul_div_assoc _ hprice, Nat.add_mul]

/-- A fill takes exactly its quote amount off a bid. -/
theorem bid_fill_eq {o : OpenLimitOrder} {f : Match} (hn : n.Of m) (hd : m.Divides)
    (h : Fillable taker n o f) :
    (fillRule.reduce o f).elim 0 (m.restingValue .buy) + f.nativeQuotePaid =
      m.restingValue .buy o := by
  have hpaid : f.nativeQuotePaid = m.lotValue f.fillQtyLots o.limitPriceLots := by
    rw [h.paid, h.price, hn.quoteLot, hn.baseLot, hn.baseDenom]
    rfl
  have hvalue : ∀ o, m.restingValue .buy o = m.lotValue o.openQtyLots o.limitPriceLots := by
    intro o
    rfl
  have hsplit := m.lotValue_add hd (o.openQtyLots - f.fillQtyLots) f.fillQtyLots o.limitPriceLots
  rw [Nat.sub_add_cancel h.qty] at hsplit
  rw [hpaid, hvalue, hsplit]
  simp only [fillRule]
  split_ifs with hr
  · rw [← h.removed.1 hr, Nat.sub_self]
    simp [Market.lotValue, quoteValue]
  · rfl

namespace Traded

/-- A trade takes exactly what it moves off the opposite side of the book. -/
theorem opposite_exact (hB : BookLaws S) (h : Traded S c mid m taker n referrerId r m' s c')
    (hm : MarketOk S c.prevOrderSequenceNumber m) (hd : m.Divides) :
    m'.lockedOn S n.side.opposite + (m.totals r.fills).gained n.side =
      m.lockedOn S n.side.opposite := by
  rcases hs : n.side with _ | _
  · exact h.opposite_eq hB hm hs
  · have hp := (h.placement hB hm).filled
    rw [hs] at hp
    unfold Market.lockedOn
    rw [h.restingValue_eq]
    exact hp.sum_add_eq (fun o f _ hf => bid_fill_eq h.of hd hf) (Sdk.resting_nodup hm.nodup .buy)

/-- What the market holds moves by exactly what the trade takes and posts. -/
theorem market_attributed_exact (hB : BookLaws S)
    (h : Traded S c mid m taker n referrerId r m' s c')
    (hm : MarketOk S c.prevOrderSequenceNumber m) (hd : m.Divides) (token : TokenType) :
    m'.attributed S token +
        (if token = m.sideToken n.side.opposite then (m.totals r.fills).gained n.side else 0) =
      m.attributed S token +
        (if token = m.sideToken n.side then postedValue m taker n r else 0) +
        (if token = m.quoteToken.tokenType then s.net else 0) := by
  have hopp := h.opposite_exact hB hm hd
  have hown := h.own_eq hB hm
  have hbase : m'.baseToken = m.baseToken := by rw [h.market]
  have hquote : m'.quoteToken = m.quoteToken := by rw [h.market]
  have hfees : m'.feesAccrued = m.feesAccrued + s.net := by rw [h.market]
  simp only [Market.attributed, Market.locked, hbase, hquote, hfees, postedValue]
  rcases hs : n.side with _ | _
  · rw [hs, Side.opposite] at hopp
    rw [hs] at hown
    rw [Side.opposite, Market.sideToken, Market.sideToken]
    split_ifs <;> omega
  · rw [hs, Side.opposite] at hopp
    rw [hs] at hown
    rw [Side.opposite, Market.sideToken, Market.sideToken]
    split_ifs <;> omega

/-- **A trade pays out exactly what it takes in**, if nothing is rounded. -/
theorem flow_exact {locked : ℕ} (hB : BookLaws S) (hT : TokenLaws S)
    (h : Traded S c mid m taker n referrerId r m' s c') (hm : c.markets.lookup mid = some m)
    (hok : MarketOk S c.prevOrderSequenceNumber m) (hd : m.Divides)
    (hl : postedValue m taker n r = locked)
    (hfee : n.side = .sell → s.totalTakerFee ≤ s.quoteTraded) (token : TokenType) :
    (c'.internalSaveMarket mid m').attributed S token +
        amountOf (takerCredit m n.side s) token =
      c.attributed S token + amountOf (takerDebit m n.side s locked) token := by
  have hset := h.attributed_settled hT hm token
  have hmarket := h.market_attributed_exact hB hok hd token
  have hsplit := h.settled.fee_eq
  have hbase : s.baseTraded = (m.totals r.fills).baseTraded := by rw [h.settled.totals]
  have hquote : s.quoteTraded = (m.totals r.fills).quoteTraded := by rw [h.settled.totals]
  rcases hs : n.side with _ | _
  · rw [hs, Side.opposite, Market.sideToken, Market.sideToken, MakerSettlementResult.gained]
      at hmarket
    rw [hs, Market.sideToken, MakerSettlementResult.paid] at hset
    rw [takerCredit, takerDebit, amountOf, amountOf]
    split_ifs at hmarket hset ⊢ <;> omega
  · rw [hs, Side.opposite, Market.sideToken, Market.sideToken, MakerSettlementResult.gained]
      at hmarket
    rw [hs, Market.sideToken, MakerSettlementResult.paid] at hset
    have hle := hfee hs
    rw [takerCredit, takerDebit, amountOf, amountOf]
    split_ifs at hmarket hset ⊢ <;> omega

end Traded

/-! ## Orders and hops -/

/-- An order that loses nothing: a lot at the price of a lot is a whole amount, the limit
    price of a bid is one in lots, and the taker does not refer itself. -/
structure NewOrderParams.Exact (p : NewOrderParams) (m : Market B) (taker : AccountId) : Prop where
  divides : m.Divides
  price : p.side = .buy → p.orderType ≠ .market → ∀ limit, p.limitPrice = some limit →
    ∃ lots < 2 ^ 64, limit = lots * m.quoteToken.lotSize
  referrer : p.referrerId ≠ some taker

namespace OrderRun

/-- Such an order locks what it is worth in the book. -/
theorem posted_exact (hB : BookLaws S) (h : OrderRun S env c mid p r c')
    (hok : MarketOk S c.prevOrderSequenceNumber h.m)
    (hx : p.Exact h.m env.predecessorAccountId) :
    Traded.postedValue h.m env.predecessorAccountId h.path.n h.done.result = h.path.locked := by
  rcases hs : p.side with _ | _
  swap
  · exact (h.posted_le hB hok).2 (h.path.side.trans hs)
  by_cases ht : p.orderType = .market
  · obtain ⟨-, hlocked, -⟩ := h.path.market ht
    have hle := (h.posted_le hB hok).1
    omega
  · obtain ⟨limit, hlimit, hlot, hprice, hlocked, -⟩ := h.path.limit ht
    obtain ⟨lots, hlots, rfl⟩ := hx.price hs ht limit hlimit
    rw [Nat.mul_div_cancel _ (Nat.pos_of_ne_zero hlot), asU64, Checked.wrap_of_lt hlots] at hprice
    rw [hlocked, Traded.postedValue, h.path.side, hs]
    simp only [Market.restingValue, Placed.postedOrder, quoteValue, lockedBy, Traded.price, hprice,
      Option.getD_some]
    congr 1
    ring

/-- **It leaves what the contract attributes as it is.** -/
theorem attributed_exact (hB : BookLaws S) (hT : TokenLaws S) (h : OrderRun S env c mid p r c')
    (hok : MarketOk S c.prevOrderSequenceNumber h.m)
    (hx : p.Exact h.m env.predecessorAccountId) (token : TokenType) :
    c'.attributed S token = c.attributed S token := by
  have hstored : h.done.contract.accounts.lookup env.predecessorAccountId = some h.a := by
    obtain he | ⟨href, -⟩ := h.path.traded.taker_lookup hB hok h.account
    · exact he
    · exact absurd href hx.referrer
  have htaker := h.attributed_taker hT hstored token
  have hfee : h.path.n.side = .sell → h.path.s.totalTakerFee ≤ h.path.s.quoteTraded :=
    fun hs => h.path.feeCovered (h.path.side ▸ hs)
  have hflow := h.path.traded.flow_exact hB hT h.found hok hx.divides
    (h.posted_exact hB hok hx) hfee token
  omega

end OrderRun

/-- **A hop puts out what it takes in**, but for what it leaves over. -/
theorem HopRun.attributed_exact {swap : SwapAction} {token : TokenType} {amount : ℕ}
    {out : SwapResult} (hB : BookLaws S) (hT : TokenLaws S)
    (h : HopRun S env c swap token amount out c')
    (hok : MarketOk S c.prevOrderSequenceNumber h.m) (hd : h.m.Divides) (t : TokenType) :
    c'.attributed S t + amountOf (out.outputToken, out.outputAmount) t +
        amountOf (token, out.inputRefund) t =
      c.attributed S t + amountOf (token, amount) t := by
  have hfee : h.n.side = .sell → h.s.totalTakerFee ≤ h.s.quoteTraded :=
    fun hs => h.feeCovered (h.side ▸ hs)
  have hflow := h.traded.flow_exact hB hT h.found hok hd (h.posted_eq hB hok) hfee t
  rw [h.side, h.output, ← h.state] at hflow
  have hin : amountOf (takerDebit h.m swap.side h.s 0) t + amountOf (token, out.inputRefund) t =
      amountOf (token, amount) t := by
    have hpair : takerDebit h.m swap.side h.s 0 = (token, (takerDebit h.m swap.side h.s 0).2) :=
      Prod.ext h.input rfl
    have hspent := h.spent
    rw [hpair, amountOf, amountOf, amountOf]
    split_ifs
    · exact hspent
    · rfl
  omega

end TonicDex
