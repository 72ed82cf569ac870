/-
  How the taker fee is split.

  Rebates are rounded down for each fill and the fee once, on the whole amount
  traded; since makers get a lower rate than takers pay, the rebates never
  exceed the fee (`totals_rebate_le`).  What the makers leave goes to the
  referrer, or to the market if there is no referrer that can take it.
-/
import TonicDex.Invariant.Budget

namespace TonicDex

variable {B : Type} {S : Sdk B} {c c' : Contract B} {mid : MarketId} {m : Market B} {env : Env}
  {taker : AccountId} {a : Account} {p : NewOrderParams}

/-- **Rebates rounded fill by fill are at most the fee on the whole trade.** -/
theorem Market.totals_rebate_le (hrates : m.makerRebateBaseRate ≤ m.takerFeeBaseRate)
    (fs : List Match) :
    (m.totals fs).totalMakerRebate ≤ m.takerFeeOf (m.totals fs).quoteTraded := by
  calc (m.totals fs).totalMakerRebate
      ≤ (fs.map fun f => f.nativeQuotePaid * m.makerRebateBaseRate).sum / feeToBpsDivisor :=
        Rounding.sum_div_le _ _ _
    _ = (m.totals fs).quoteTraded * m.makerRebateBaseRate / feeToBpsDivisor := by
        rw [List.sum_map_mul_right]
        rfl
    _ ≤ m.takerFeeOf (m.totals fs).quoteTraded :=
        Nat.div_le_div_right (Nat.mul_le_mul_left _ hrates)

theorem MarketOk.rates_le {seq : ℕ} (h : MarketOk S seq m) :
    m.makerRebateBaseRate ≤ m.takerFeeBaseRate := by
  obtain h | ⟨h₁, h₂⟩ := h.rates
  · exact h.le
  · exact (h₁.trans h₂.symm).le

/-- The fee on some fills is split: the makers are settled, the referrer gets
    `rebate` of what they leave, and the rest accrues to the market. -/
structure FeeSplit (S : Sdk B) (mid : MarketId) (m m' : Market B) (side : Side) (fs : List Match)
    (referrerId : Option AccountId) (c makers c' : Contract B) (rebate : ℕ) : Prop where
  settled : MakersSettled S mid m side c fs makers
  referrer : ReferrerPaid S m.quoteToken.tokenType referrerId
    (m.takerFeeOf (m.totals fs).quoteTraded - (m.totals fs).totalMakerRebate) makers rebate c'
  accrued : m.feesAccrued ≤ m'.feesAccrued
  exact : m.takerFeeOf (m.totals fs).quoteTraded =
    (m.totals fs).totalMakerRebate + rebate + (m'.feesAccrued - m.feesAccrued)

theorem Traded.feeSplit {m' : Market B} {n : NewOrder} {referrerId : Option AccountId}
    {r : PlaceOrderResult} {s : Settled} (h : Traded S c mid m taker n referrerId r m' s c') :
    ∃ makers, FeeSplit S mid m m' n.side r.fills referrerId
      { c with prevOrderSequenceNumber := c.prevOrderSequenceNumber + 1 } makers c'
      s.referrerRebate := by
  have hfees : m'.feesAccrued = m.feesAccrued + s.net := congrArg Market.feesAccrued h.market
  have hpaid := h.settled.referrer
  have hexact := h.settled.fee_eq
  rw [h.settled.fee] at hpaid hexact
  refine ⟨_, h.settled.settled, hpaid, ?_, ?_⟩
  · rw [hfees]
    exact Nat.le_add_right _ _
  · rw [hfees, Nat.add_sub_cancel_left]
    exact hexact

/-- A referrer's account stops an order only by overflowing. -/
theorem internalSettleReferrerRebate_error {token : TokenType} {referrerId : Option AccountId}
    {net : ℕ} {e : Panic} (h : internalSettleReferrerRebate S c token referrerId net = .error e) :
    e = .arithmetic ∧ ∃ id a x, referrerId = some id ∧ c.accounts.lookup id = some a ∧
      a.balances.lookup (S.key token) = some x ∧ 2 ^ 128 ≤ net + x := by
  refine ⟨internalSettleReferrerRebate_fails (P := fun e => e = .arithmetic) rfl e h, ?_⟩
  unfold internalSettleReferrerRebate at h
  rcases referrerId with _ | id
  · cases h
  dsimp only at h
  rcases ha : c.internalGetAccount id with _ | a
  · rw [ha] at h; cases h
  rw [ha] at h
  rcases hd : a.deposit S token (referrerRebate net) with e' | b
  · have hfull : ¬ ∀ x, a.balances.lookup (S.key token) = some x →
        referrerRebate net + x < 2 ^ 128 := fun hfits => by
      rw [Account.deposit_eq_ok.2 ⟨hfits, rfl⟩] at hd
      cases hd
    obtain ⟨x, hx⟩ := not_forall.1 hfull
    obtain ⟨hx, hge⟩ := Classical.not_imp.1 hx
    exact ⟨id, a, x, rfl, ha, hx, not_lt.1 hge⟩
  · simp only [hd, Checked.ok_bind] at h
    rcases hs : c.internalTrySaveAccount S id b with _ | c' <;>
    · rw [hs] at h
      cases h

/-- **The fee is split exactly.**  In every reachable state, also in the middle of
    a call: the rebates on any list of fills are at most the fee, so subtracting
    them does not underflow; paying the referrer stops no order but for an
    overflow of the referrer's balance; no order or swap is stopped by the
    assertion on the fees; and what takers pay is what makers, the referrer and
    the market get. -/
theorem fee_split (hB : BookLaws S) (hP : PanicLaw S) {s : System B}
    (hs : System.Reachable S s) {es : List (Effect B)} (hes : Effects S s.contract es c)
    (hm : c.markets.lookup mid = some m) :
    (∀ fs, (m.totals fs).totalMakerRebate ≤ m.takerFeeOf (m.totals fs).quoteTraded) ∧
    (∀ c₀ c₁ side fs t fee, internalSettleMakerFills S c₀ mid m side fs = .ok (t, c₁) →
      (FeeCalculator.newWithBaseRate m).takerFee t.quoteTraded = .ok fee →
      ∃ net, sub fee t.totalMakerRebate = .ok net) ∧
    (∀ c₀ referrerId net e,
      internalSettleReferrerRebate S c₀ m.quoteToken.tokenType referrerId net = .error e →
      e = .arithmetic ∧ ∃ id a x, referrerId = some id ∧ c₀.accounts.lookup id = some a ∧
        a.balances.lookup (S.key m.quoteToken.tokenType) = some x ∧ 2 ^ 128 ≤ net + x) ∧
    (∀ env taker a p side inputAmount referrerId,
      ∀ text ∈ ["bid accounting bug: over-counted fees", "ask accounting bug: over-counted fees",
        "accounting bug: over-counted fees"],
      (p.side = .buy →
        internalPlaceLimitBuy S env c mid m taker a p ≠ .error (.message text)) ∧
      internalPlaceLimitSell S env c mid m taker a p ≠ .error (.message text) ∧
      internalPlaceMarketOrder S c mid m taker a p ≠ .error (.message text) ∧
      internalSwap S env c mid m side inputAmount referrerId ≠ .error (.message text)) ∧
    (∀ env p r c', newOrder S env c mid p = .ok (r, c') →
      ∃ m' makers c₁ rebate, c'.markets.lookup mid = some m' ∧
        FeeSplit S mid m m' p.side r.fills p.referrerId
          { c with prevOrderSequenceNumber := c.prevOrderSequenceNumber + 1 } makers c₁ rebate) ∧
    (∀ env swap token amount out c', swap.marketId = mid →
      executeSwapAction S env c swap token amount = .ok (out, c') →
      ∃ m' fills makers c₁ rebate, c'.markets.lookup mid = some m' ∧
        FeeSplit S mid m m' swap.side fills swap.referrerId
          { c with prevOrderSequenceNumber := c.prevOrderSequenceNumber + 1 }
          makers c₁ rebate) := by
  have hok := booksOk_of_effects hB hs hes mid m hm
  have hrebate := fun fs => m.totals_rebate_le hok.rates_le fs
  refine ⟨hrebate, fun c₀ c₁ side fs t fee ht hfee => ?_,
    fun c₀ referrerId net e h => internalSettleReferrerRebate_error h,
    fun env taker a p side inputAmount referrerId text htext => ?_, fun env p r c' h => ?_,
    fun env swap token amount out c' hid h => ?_⟩
  · obtain ⟨rfl, -⟩ := internalSettleMakerFills_ok ht
    obtain ⟨-, rfl⟩ := FeeCalculator.atRate_eq_ok.1 hfee
    exact ⟨_, Checked.sub_eq_ok.2 ⟨hrebate fs, rfl⟩⟩
  · have hother : text ∉ checkMessages := by
      simp only [List.mem_cons, List.not_mem_nil, or_false] at htext
      obtain rfl | rfl | rfl := htext <;> decide
    exact ⟨fun hside => (internalPlaceLimitBuy_texts hB hP hok hside).ne_message hother,
      (internalPlaceLimitSell_texts hB hP hok).ne_message hother,
      (internalPlaceMarketOrder_texts hB hP hok).ne_message hother,
      (internalSwap_texts hP).ne_message hother⟩
  · obtain ⟨run⟩ := newOrder_ok h
    obtain rfl : run.m = m := Option.some.inj (run.found.symm.trans hm)
    obtain ⟨makers, hsplit⟩ := run.path.traded.feeSplit
    rw [run.path.side, ← run.result] at hsplit
    refine ⟨run.done.market, _, _, _, ?_, hsplit⟩
    rw [run.markets_eq]
    exact AList.lookup_insert _
  · obtain ⟨run⟩ := executeSwapAction_ok h
    subst hid
    obtain rfl : run.m = m := Option.some.inj (run.found.symm.trans hm)
    obtain ⟨makers, hsplit⟩ := run.traded.feeSplit
    rw [run.side] at hsplit
    refine ⟨run.m', run.r.fills, _, _, _, ?_, hsplit⟩
    rw [run.markets_eq]
    exact AList.lookup_insert _

/-- The fee on what Bob buys of Alice. -/
theorem fee_split_bought : ∃ m r m' makers c₁ rebate,
    (Engine.run Engine.asked).contract.markets.lookup Engine.btcUsd = some m ∧
    (Engine.run Engine.bought).contract.markets.lookup Engine.btcUsd = some m' ∧
    FeeSplit Engine.sdk Engine.btcUsd m m' .buy r (some Engine.dao)
      { (Engine.run Engine.asked).contract with
        prevOrderSequenceNumber := (Engine.run Engine.asked).contract.prevOrderSequenceNumber + 1 }
      makers c₁ rebate := by
  obtain ⟨m, hm, -⟩ := Engine.market_asked
  obtain ⟨-, -, -, -, horder, -⟩ := fee_split Engine.bookLaws Engine.panicLaw
    (Engine.reachable_run Engine.asked) (.nil _) hm
  obtain ⟨ps, h⟩ := Engine.perform_bought
  obtain ⟨hx, -⟩ := quiet_eq_ok.1 (dispatch_of_perform h)
  obtain ⟨⟨r, c'⟩, hx, rfl⟩ := Checked.map_eq_ok.1 hx
  obtain ⟨m', makers, c₁, rebate, hm', hsplit⟩ := horder _ _ _ _ hx
  exact ⟨m, r.fills, m', makers, c₁, rebate, hm, hm', hsplit⟩

end TonicDex
