/-
  From native amounts to lots.

  `quote_native_to_lots` and `base_native_to_lots` divide in 128 bits and then
  cast to `u64`, which drops the high bits.  So the lots of an order are the
  floors of the native amounts it is made of just in case the quotients fit
  into 64 bits (`lots_exact_iff`); a price that does not fit becomes a lower
  one.
-/
import TonicDex.Engine.Library
import TonicDex.Lib.Rounding
import TonicDex.Spec.Sizing

namespace TonicDex

variable {B : Type} {S : Sdk B} {c : Contract B} {mid : MarketId} {m : Market B} {env : Env}
  {taker : AccountId} {a : Account} {p : NewOrderParams} {n : NewOrder} {b : B}

open Rounding

/-- The native amounts an order is made of, as far as there are any. -/
structure Native where
  limitPrice : Option ℕ
  quantity : Option ℕ
  budget : Option ℕ

/-- The lots of the order are the floors of the amounts. -/
structure Native.Exact (x : Native) (m : Market B) (n : NewOrder) : Prop where
  limitPrice : ∀ v, x.limitPrice = some v →
    ∃ lots, n.limitPriceLots = some lots ∧ IsFloor v m.quoteToken.lotSize lots
  quantity : ∀ v, x.quantity = some v → IsFloor v m.baseToken.lotSize n.maxQtyLots
  budget : ∀ v, x.budget = some v →
    ∃ lots, n.availableQuoteLots = some lots ∧ IsFloor v m.quoteToken.lotSize lots

/-- In lots, the amounts fit into 64 bits. -/
structure Native.Fits (x : Native) (m : Market B) : Prop where
  limitPrice : ∀ v, x.limitPrice = some v → v / m.quoteToken.lotSize < 2 ^ 64
  quantity : ∀ v, x.quantity = some v → v / m.baseToken.lotSize < 2 ^ 64
  budget : ∀ v, x.budget = some v → v / m.quoteToken.lotSize < 2 ^ 64

/-- `x` are some of the amounts `y`. -/
structure Native.Part (x y : Native) : Prop where
  limitPrice : ∀ v, x.limitPrice = some v → y.limitPrice = some v
  quantity : ∀ v, x.quantity = some v → y.quantity = some v
  budget : ∀ v, x.budget = some v → y.budget = some v

/-- Any of the amounts are exact just in case these fit, whatever the others do. -/
def Native.ExactIffFits (y : Native) (m : Market B) (n : NewOrder) : Prop :=
  ∀ x : Native, x.Part y → (x.Exact m n ↔ x.Fits m)

/-- The order was made of the amounts by dividing and casting. -/
structure Native.Cast (x : Native) (m : Market B) (n : NewOrder) : Prop where
  limitPrice : ∀ v, x.limitPrice = some v →
    n.limitPriceLots = some (asU64 (v / m.quoteToken.lotSize))
  quantity : ∀ v, x.quantity = some v → n.maxQtyLots = asU64 (v / m.baseToken.lotSize)
  budget : ∀ v, x.budget = some v →
    n.availableQuoteLots = some (asU64 (v / m.quoteToken.lotSize))

/-- A cast quotient is the floor if it fits. -/
theorem isFloor_asU64_iff {v d : ℕ} (hd : d ≠ 0) : IsFloor v d (asU64 (v / d)) ↔ v / d < 2 ^ 64 :=
  isFloor_mod_iff (Nat.pos_of_ne_zero hd) (Nat.two_pow_pos 64)

theorem Native.Cast.exact_iff {x : Native} (h : x.Cast m n) (hbase : m.baseToken.lotSize ≠ 0)
    (hquote : m.quoteToken.lotSize ≠ 0) : x.Exact m n ↔ x.Fits m := by
  constructor
  · intro hx
    refine ⟨fun v hv => ?_, fun v hv => ?_, fun v hv => ?_⟩
    · obtain ⟨lots, hl, hfloor⟩ := hx.limitPrice v hv
      rw [h.limitPrice v hv] at hl
      cases hl
      exact (isFloor_asU64_iff hquote).1 hfloor
    · have hfloor := hx.quantity v hv
      rw [h.quantity v hv] at hfloor
      exact (isFloor_asU64_iff hbase).1 hfloor
    · obtain ⟨lots, hl, hfloor⟩ := hx.budget v hv
      rw [h.budget v hv] at hl
      cases hl
      exact (isFloor_asU64_iff hquote).1 hfloor
  · intro hx
    refine ⟨fun v hv => ⟨_, h.limitPrice v hv, ?_⟩, fun v hv => ?_, fun v hv =>
      ⟨_, h.budget v hv, ?_⟩⟩
    · exact (isFloor_asU64_iff hquote).2 (hx.limitPrice v hv)
    · rw [h.quantity v hv]
      exact (isFloor_asU64_iff hbase).2 (hx.quantity v hv)
    · exact (isFloor_asU64_iff hquote).2 (hx.budget v hv)

theorem Native.Cast.part {x y : Native} (h : y.Cast m n) (hp : x.Part y) : x.Cast m n where
  limitPrice := fun v hv => h.limitPrice v (hp.limitPrice v hv)
  quantity := fun v hv => h.quantity v (hp.quantity v hv)
  budget := fun v hv => h.budget v (hp.budget v hv)

theorem Native.Cast.exactIffFits {y : Native} (h : y.Cast m n) (hbase : m.baseToken.lotSize ≠ 0)
    (hquote : m.quoteToken.lotSize ≠ 0) : y.ExactIffFits m n :=
  fun _ hp => (h.part hp).exact_iff hbase hquote

theorem Native.ExactIffFits.all {y : Native} (h : y.ExactIffFits m n) : y.Exact m n ↔ y.Fits m :=
  h y ⟨fun _ hv => hv, fun _ hv => hv, fun _ hv => hv⟩

/-- A limit buy takes the smaller of its quantity in lots and of what it affords,
    so a quantity that was cut off does not show if it still is the larger. -/
theorem min_floor_iff {q d affordable : ℕ} (hd : d ≠ 0) :
    (∃ lots, IsFloor q d lots ∧ min (asU64 (q / d)) affordable = min lots affordable) ↔
      q / d < 2 ^ 64 ∨ affordable ≤ asU64 (q / d) := by
  have hle : asU64 (q / d) ≤ q / d := Checked.wrap_le _ _
  have hfloor : ∀ lots, IsFloor q d lots ↔ lots = q / d := fun _ =>
    isFloor_iff (Nat.pos_of_ne_zero hd)
  simp only [hfloor, exists_eq_left]
  constructor
  · intro heq
    by_contra hnot
    obtain ⟨hbig, hlt⟩ := not_or.1 hnot
    have hcut : asU64 (q / d) < 2 ^ 64 := Checked.wrap_lt _ _
    omega
  · rintro (hfits | hlarge)
    · rw [asU64, Checked.wrap_of_lt hfits]
    · omega

/-- What is left of a maximum spend, if there is any, after withholding the fee. -/
def Market.withheld (m : Market B) (side : Side) (maxSpend : Option ℕ) : Option ℕ :=
  match side with
  | .buy => maxSpend.map fun q => q - m.takerFeeOf q
  | .sell => none

theorem spendable_of_withheld {side : Side} {maxSpend : Option ℕ} {v : ℕ}
    (h : m.withheld side maxSpend = some v) :
    m.spendable side maxSpend = some (asU64 (v / m.quoteToken.lotSize)) := by
  cases side with
  | sell => cases h
  | buy =>
    obtain ⟨q, rfl, rfl⟩ := Option.map_eq_some_iff.1 h
    rfl

/-- **Orders are made of exact lots just in case these fit into 64 bits.**  For
    every order that a path hands to the engine, and any of its price, its quantity
    and its budget: these are the floors of the native amounts in lots if and only
    if none of their quotients reaches 2^64.  A limit buy takes its quantity in lots
    or what the budget affords, whichever is less: its quantity may be cut off just
    in case what is left of it is not below what the budget affords, and its price
    and its budget are exact or not whether it is. -/
theorem lots_exact_iff (hbase : m.baseToken.lotSize ≠ 0) (hquote : m.quoteToken.lotSize ≠ 0) :
    (Hands S (fun S => internalPlaceLimitBuy S env c mid m taker a p) b taker n →
      ∃ limit maxDebit affordable, p.limitPrice = some limit ∧
        m.getMaxBidDebit p = .ok maxDebit ∧
        m.affordableLots (m.budgetLots maxDebit) limit = .ok affordable ∧
        (⟨some limit, none, some (maxDebit - m.takerFeeOf maxDebit)⟩ : Native).ExactIffFits m n ∧
        ((∃ lots, IsFloor p.quantity m.baseToken.lotSize lots ∧
            n.maxQtyLots = min lots affordable) ↔
          p.quantity / m.baseToken.lotSize < 2 ^ 64 ∨
            affordable ≤ asU64 (p.quantity / m.baseToken.lotSize))) ∧
    (Hands S (fun S => internalPlaceLimitSell S env c mid m taker a p) b taker n →
      ∃ limit, p.limitPrice = some limit ∧
        (⟨some limit, some p.quantity, none⟩ : Native).ExactIffFits m n) ∧
    (Hands S (fun S => internalPlaceMarketOrder S c mid m taker a p) b taker n →
      (⟨none, some p.quantity, m.withheld p.side p.maxSpend⟩ : Native).ExactIffFits m n) ∧
    (∀ side inputAmount referrerId,
      Hands S (fun S => internalSwap S env c mid m side inputAmount referrerId) b
        env.signerAccountId n →
      (⟨none, some (swapped side inputAmount), m.withheld side (some inputAmount)⟩ :
        Native).ExactIffFits m n) := by
  refine ⟨fun hn => ?_, fun hn => ?_, fun hn => ?_, fun side inputAmount referrerId hn => ?_⟩
  · obtain ⟨limit, maxDebit, affordable, h⟩ := (internalPlaceLimitBuy_asks.of_hands hn).order
    refine ⟨limit, maxDebit, affordable, h.limitPrice, h.debit, h.affords, ?_, ?_⟩
    · refine Native.Cast.exactIffFits ⟨fun v hv => ?_, nofun, fun v hv => ?_⟩ hbase hquote
      · cases hv; exact h.price
      · cases hv; exact h.budget
    · rw [h.qty]
      exact min_floor_iff hbase
  · obtain ⟨limit, h⟩ := (internalPlaceLimitSell_asks.of_hands hn).order
    refine ⟨limit, h.limitPrice, Native.Cast.exactIffFits ⟨fun v hv => ?_, fun v hv => ?_, nofun⟩
      hbase hquote⟩
    · cases hv; exact h.price
    · cases hv; exact h.qty
  · have h := (internalPlaceMarketOrder_asks.of_hands hn).order
    refine Native.Cast.exactIffFits ⟨nofun, fun v hv => ?_, fun v hv => ?_⟩ hbase hquote
    · cases hv; exact h.qty
    · exact h.budget.trans (spendable_of_withheld hv)
  · have h := (internalSwap_asks.of_hands hn).order
    refine Native.Cast.exactIffFits ⟨nofun, fun v hv => ?_, fun v hv => ?_⟩ hbase hquote
    · cases hv; exact h.qty
    · exact h.budget.trans (spendable_of_withheld hv)

/-- Alice has some `btc` to sell. -/
def funded : List Event := Engine.listed ++ [Engine.pay Engine.btc Engine.alice 1000]

/-- Alice's offer in the market of `btc` and `usd`, whose quote lots are of 10. -/
def offer (limitPrice : ℕ) : NewOrderParams := Engine.order .sell .limit limitPrice 1000 none

/-- An offer that is accepted has been handed to the engine. -/
theorem hands_offer (limitPrice : ℕ)
    (h : ((Engine.run funded).contract.markets.lookup Engine.btcUsd).bind (fun m =>
      ((Engine.run funded).contract.accounts.lookup Engine.alice).map fun a =>
        m.baseToken.lotSize == 1 && m.quoteToken.lotSize == 10 &&
        (internalPlaceLimitSell Engine.sdk (Engine.calling Engine.alice 0)
          (Engine.run funded).contract Engine.btcUsd m Engine.alice a (offer limitPrice)).isOk) =
      some true) :
    ∃ m a n, (Engine.run funded).contract.markets.lookup Engine.btcUsd = some m ∧
      m.baseToken.lotSize = 1 ∧ m.quoteToken.lotSize = 10 ∧
      Hands Engine.sdk (fun S => internalPlaceLimitSell S (Engine.calling Engine.alice 0)
        (Engine.run funded).contract Engine.btcUsd m Engine.alice a (offer limitPrice))
        m.orderbook Engine.alice n := by
  obtain ⟨m, hm, h⟩ := Option.bind_eq_some_iff.1 h
  obtain ⟨a, -, h⟩ := Option.map_eq_some_iff.1 h
  rw [Bool.and_eq_true, Bool.and_eq_true, beq_iff_eq, beq_iff_eq] at h
  obtain ⟨⟨hbase, hquote⟩, hok⟩ := h
  obtain ⟨done, hx⟩ := Engine.eq_ok_of_isOk hok
  obtain ⟨n, -, hn⟩ := internalPlaceLimitSell_asks.of_ok hx
  exact ⟨m, a, n, hm, hbase, hquote, hn⟩

/-- At a price of two lots, the lots are exact. -/
theorem lots_exact_offer : ∃ m n,
    (Engine.run funded).contract.markets.lookup Engine.btcUsd = some m ∧
    (⟨some 20, some 1000, none⟩ : Native).Exact m n := by
  obtain ⟨m, a, n, hm, hbase, hquote, hn⟩ := hands_offer 20 (by decide +kernel)
  obtain ⟨-, hsell, -⟩ := lots_exact_iff (p := offer 20) (n := n) (hbase ▸ Nat.one_ne_zero)
    (hquote ▸ Nat.succ_ne_zero 9)
  obtain ⟨limit, hlimit, hiff⟩ := hsell hn
  cases hlimit
  refine ⟨m, n, hm, hiff.all.2 ⟨fun v hv => ?_, fun v hv => ?_, nofun⟩⟩
  · cases hv
    rw [hquote]
    decide
  · cases hv
    rw [hbase]
    decide

/-- At 2^64 lots more, the order still rests at a price of two lots. -/
theorem lots_not_exact : (∃ m n,
      (Engine.run funded).contract.markets.lookup Engine.btcUsd = some m ∧
      m.baseToken.lotSize ≠ 0 ∧ m.quoteToken.lotSize ≠ 0 ∧
      (∃ a, Hands Engine.sdk (fun S => internalPlaceLimitSell S (Engine.calling Engine.alice 0)
        (Engine.run funded).contract Engine.btcUsd m Engine.alice a (offer ((2 ^ 64 + 2) * 10)))
        m.orderbook Engine.alice n) ∧
      n.limitPriceLots = some 2 ∧ ¬ IsFloor ((2 ^ 64 + 2) * 10) m.quoteToken.lotSize 2) ∧
    (newOrder Engine.sdk (Engine.calling Engine.alice 0) (Engine.run funded).contract Engine.btcUsd
        (offer ((2 ^ 64 + 2) * 10))).toOption.bind (fun x =>
      (x.2.markets.lookup Engine.btcUsd).map fun m =>
        (Engine.sdk.orders m.orderbook).map OpenLimitOrder.limitPriceLots) = some [2] := by
  refine ⟨?_, by decide +kernel⟩
  obtain ⟨m, a, n, hm, hbase, hquote, hn⟩ :=
    hands_offer ((2 ^ 64 + 2) * 10) (by decide +kernel)
  obtain ⟨limit, h⟩ := (internalPlaceLimitSell_asks.of_hands hn).order
  have hlimit := h.limitPrice
  cases hlimit
  refine ⟨m, n, hm, hbase ▸ Nat.one_ne_zero, hquote ▸ Nat.succ_ne_zero 9, ⟨a, hn⟩, ?_, ?_⟩
  · rw [h.price, hquote]
    decide
  · rw [hquote]
    unfold IsFloor
    decide

end TonicDex
