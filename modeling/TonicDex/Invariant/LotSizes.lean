/-
  Lot sizes and exact quote amounts.

  `assert_valid_lot_sizes` is meant to accept powers of ten only, but accepts
  every multiple of ten (`LotStray`).  With powers of ten, a market that passes
  `validate_lots_and_decimals` values every quantity exactly, so that nothing
  is lost to rounding however an order is split into fills (`Market.Exact`).
-/
import TonicDex.Engine.Library
import TonicDex.Invariant.Activation
import TonicDex.Lib.Rounding
import TonicDex.Spec.Listing

namespace TonicDex

variable {B : Type} {S : Sdk B} {a b n : ℕ}

/-! ## The check -/

def PowerOfTen (n : ℕ) : Prop := ∃ k, n = 10 ^ k

/-- A multiple of ten that is no power of ten. -/
def LotStray (n : ℕ) : Prop := n ≠ 0 ∧ n % 10 = 0 ∧ ¬ PowerOfTen n

/-- One of the lot sizes is stray, and the check accepts both. -/
def LotsStray (a b : ℕ) : Prop := (LotStray a ∧ LotAccepted b) ∨ (LotAccepted a ∧ LotStray b)

theorem LotStray.accepted (h : LotStray n) : LotAccepted n := ⟨h.1, .inl h.2.1⟩

theorem LotAccepted.cases (h : LotAccepted n) : PowerOfTen n ∨ LotStray n := by
  by_cases hp : PowerOfTen n
  · exact .inl hp
  · rcases h with ⟨hne, h10 | rfl⟩
    · exact .inr ⟨hne, h10, hp⟩
    · exact absurd ⟨0, rfl⟩ hp

/-- **What passes the check are powers of ten, unless one of them is stray.** -/
theorem lots_checked_iff : (assertValidLotSizes a b = .ok () → PowerOfTen a ∧ PowerOfTen b) ↔
    ¬ LotsStray a b := by
  rw [assertValidLotSizes_eq_ok]
  constructor
  · rintro h (⟨ha, hb⟩ | ⟨ha, hb⟩)
    · exact ha.2.2 (h ⟨ha.accepted, hb⟩).1
    · exact hb.2.2 (h ⟨ha, hb.accepted⟩).2
  · rintro h ⟨ha, hb⟩
    refine ⟨ha.cases.resolve_right fun hs => h (.inl ⟨hs, hb⟩), ?_⟩
    exact hb.cases.resolve_right fun hs => h (.inr ⟨ha, hs⟩)

/-! ## Exact markets -/

namespace Market

variable (m : Market B)

/-- The native quote amount of `qty` lots at `price`. -/
def lotValue (qty price : ℕ) : ℕ :=
  quoteValue qty price m.quoteToken.lotSize m.baseToken.lotSize m.denom

/-- Nothing is rounded in the market. -/
structure Exact (S : Sdk B) (c : Contract B) (mid : MarketId) (m : Market B) : Prop where
  divides : m.denom ∣ m.quoteToken.lotSize * m.baseToken.lotSize
  value : ∀ qty price, m.lotValue qty price * m.denom =
    qty * price * m.quoteToken.lotSize * m.baseToken.lotSize
  split : ∀ price (parts : List ℕ),
    (parts.map fun qty => m.lotValue qty price).sum = m.lotValue parts.sum price
  fills : ∀ {taker n referrerId r m' s c'},
    Nonempty (Traded S c mid m taker n referrerId r m' s c') →
    ∀ f ∈ r.fills, f.nativeQuotePaid = m.lotValue f.fillQtyLots f.fillPriceLots
  lock : ∀ {qty price locked}, m.quoteLocked qty (price * m.quoteToken.lotSize) = .ok locked →
    locked = m.lotValue qty price
  refund : ∀ {qty price refunded}, m.bidRefund qty price = .ok refunded →
    refunded = m.lotValue qty price

variable {m}

theorem lotValue_eq (qty price : ℕ) : m.lotValue qty price =
    qty * (price * (m.quoteToken.lotSize * m.baseToken.lotSize)) / m.denom := by
  simp only [lotValue, quoteValue, Nat.mul_assoc]

theorem quoteLocked_eq {qty price locked : ℕ}
    (h : m.quoteLocked qty (price * m.quoteToken.lotSize) = .ok locked) :
    locked = m.lotValue qty price := by
  simp only [quoteLocked, Checked.bind_eq_ok, Checked.fit_eq_ok, baseDenomination_eq_ok] at h
  obtain ⟨_, ⟨-, rfl⟩, _, ⟨-, rfl⟩, _, ⟨-, rfl⟩, -, rfl⟩ := h
  rw [lotValue_eq]
  congr 1
  ring

theorem bidRefund_eq {qty price refunded : ℕ} (h : m.bidRefund qty price = .ok refunded) :
    refunded = m.lotValue qty price := by
  simp only [bidRefund, Checked.bind_eq_ok, Checked.fit_eq_ok, baseDenomination_eq_ok] at h
  obtain ⟨_, ⟨-, rfl⟩, _, ⟨-, rfl⟩, _, ⟨-, rfl⟩, _, ⟨-, rfl⟩, -, rfl⟩ := h
  rfl

/-- A market whose base denomination divides its lots is exact. -/
theorem Exact.of_dvd (hB : BookLaws S) {c : Contract B} {mid : MarketId}
    (hok : MarketOk S c.prevOrderSequenceNumber m)
    (h : m.denom ∣ m.quoteToken.lotSize * m.baseToken.lotSize) : Exact S c mid m where
  divides := h
  value qty price := by
    rw [lotValue_eq, Nat.div_mul_cancel ((h.mul_left price).mul_left qty)]
    ring
  split price parts := by
    simp only [lotValue_eq]
    exact Rounding.sum_mul_div _ (h.mul_left price) parts
  fills := by
    rintro taker n referrerId r m' s c' ⟨tr⟩ f hf
    obtain ⟨_, -, -, o, -, hfit⟩ := tr.fill_target hB hok hf
    rw [hfit.paid, tr.of.quoteLot, tr.of.baseLot, tr.of.baseDenom]
    rfl
  lock := quoteLocked_eq
  refund := bidRefund_eq

/-- In a validated market, powers of ten leave no remainder. -/
theorem Validated.dvd (h : m.Validated) (hb : PowerOfTen m.baseToken.lotSize)
    (hq : PowerOfTen m.quoteToken.lotSize) :
    m.denom ∣ m.quoteToken.lotSize * m.baseToken.lotSize := by
  obtain ⟨k, hk⟩ := hb
  obtain ⟨l, hl⟩ := hq
  have hle := h.lots
  rw [hk, hl, ← Nat.pow_add, Market.denom, Nat.pow_le_pow_iff_right (by decide)] at hle
  rw [hk, hl, ← Nat.pow_add, Market.denom, Nat.add_comm]
  exact Nat.pow_dvd_pow 10 hle

end Market

/-! ## Runs -/

/-- A market is created only with lot sizes of which neither is stray. -/
def LotsChosen (_ : System B) (ev : Event) : Prop :=
  ∀ env args, ev = .call env (.createMarket args) →
    ¬ LotsStray args.baseTokenLotSize args.quoteTokenLotSize

/-- The lot sizes of every market are powers of ten. -/
def DecimalLots (c : Contract B) : Prop :=
  ∀ mid m, c.markets.lookup mid = some m →
    PowerOfTen m.baseToken.lotSize ∧ PowerOfTen m.quoteToken.lotSize

theorem Relisted.decimalLots {c c' : Contract B} {s : System B} {ev : Event}
    (h : Relisted S c ev c') (hok : LotsChosen s ev) (hc : DecimalLots c) : DecimalLots c' := by
  cases h with
  | same hsame =>
    intro mid m' hm'
    obtain ⟨m, hm, ht⟩ := hsame.origin hm'
    rw [ht.baseLot, ht.quoteLot]
    exact hc mid m hm
  | @created env args mid m hm =>
    refine HMap.forall_insert hc ?_
    rw [hm.baseLot, hm.quoteLot]
    exact lots_checked_iff.2 (hok _ _ rfl) (assertValidLotSizes_eq_ok.2 hm.accepted)
  | deleted => exact HMap.forall_erase hc

theorem decimalLots_of_reach (hB : BookLaws S) {s : System B}
    (hs : System.Reach S LotsChosen s) : DecimalLots s.contract := by
  refine hs.invariant (P := fun s => DecimalLots s.contract) ?_ fun s ev hs hok h => ?_
  · rintro s ⟨id, rfl⟩ mid m hm
    cases hm
  · exact (step_relisted hB s ev (booksOk_of_reach hB hs)).decimalLots hok h

/-- **The check accepts only powers of ten just in case no lot size is stray,
    and then every market that passes validation is exact.** -/
theorem lot_sizes_exact (hB : BookLaws S) :
    (∀ a b, (assertValidLotSizes a b = .ok () → PowerOfTen a ∧ PowerOfTen b) ↔
      ¬ LotsStray a b) ∧
    ∀ s, System.Reach S LotsChosen s → ∀ mid m, s.contract.markets.lookup mid = some m →
      m.validateLotsAndDecimals = .ok true → m.Exact S s.contract mid := by
  refine ⟨fun a b => lots_checked_iff, fun s hs mid m hm hvalid => ?_⟩
  obtain ⟨hb, hq⟩ := decimalLots_of_reach hB hs mid m hm
  obtain ⟨-, hv⟩ | ⟨hfalse, -⟩ | ⟨⟨_, herr⟩, -⟩ := m.validateLotsAndDecimals_cases
  · exact .of_dvd hB (booksOk_of_reach hB hs mid m hm) (hv.dvd hb hq)
  · rw [hfalse] at hvalid
    cases hvalid
  · rw [herr] at hvalid
    cases hvalid

/-! ## A lot of 150 -/

namespace Gross

open Engine

/-- A market is created with a base lot of 150, and becomes active with 2 base
    decimals. -/
def created : List Event := [register dao,
  .call (calling dao (10 ^ 22)) (.createMarket ⟨"ft:btc.near", "ft:usd.near", 150, 1, 100, 50⟩),
  .resolve 0 (.ftMetadata (some 2)), .resolve 0 (.ftMetadata (some 1))]

def library : Sdk Book := hashing "tonic.near ft:btc.near 150 ft:usd.near 1"
  0xeb17a86dbd6ca62115ca896adf1d3e179ad2d8786a3eb56022c3141ce8a5a0e4#256

def market : MarketId := genMarketId library (.fungibleToken btc) 150 (.fungibleToken usd) 1

end Gross

theorem not_powerOfTen_150 : ¬ PowerOfTen 150 := by
  rintro ⟨k, hk⟩
  rcases Nat.lt_or_ge k 3 with h | h
  · have := Nat.pow_le_pow_right (by decide : 0 < 10) (Nat.le_of_lt_succ h)
    omega
  · have := Nat.pow_le_pow_right (by decide : 0 < 10) h
    omega

/-- A lot size that is no power of ten passes the check, and the market passes
    validation: one lot is worth 1, and two lots are worth 3. -/
theorem lot_sizes_not_exact : assertValidLotSizes 150 1 = .ok () ∧ ¬ PowerOfTen 150 ∧
    ∃ s m, System.Reachable Gross.library s ∧
      s.contract.markets.lookup Gross.market = some m ∧
      m.validateLotsAndDecimals = .ok true ∧ m.state = .active ∧
      ¬ m.denom ∣ m.quoteToken.lotSize * m.baseToken.lotSize ∧
      m.lotValue 1 1 = 1 ∧ m.lotValue 2 1 = 3 := by
  have hm : ((Engine.runWith Gross.library Gross.created).contract.markets.lookup
      Gross.market).map (fun m => (m.baseToken, m.quoteToken, m.state)) =
      some (⟨.fungibleToken Engine.btc, 150, 2⟩, ⟨.fungibleToken Engine.usd, 1, 1⟩, .active) := by
    decide +kernel
  obtain ⟨m, hm, heq⟩ := Option.map_eq_some_iff.1 hm
  obtain ⟨hbase, hquote, hstate⟩ : m.baseToken = _ ∧ m.quoteToken = _ ∧ m.state = _ := by
    simpa only [Prod.mk.injEq] using heq
  refine ⟨rfl, not_powerOfTen_150, _, m, Engine.reachable_runWith _ _, hm, ?_, hstate, ?_⟩
  · simp only [Market.validateLotsAndDecimals, Market.baseDenomination, hbase, hquote]
    rfl
  · simp only [Market.lotValue, Market.denom, hbase, hquote]
    decide

/-- The market of `btc` and `usd`, in lots of 1 and 10. -/
theorem lot_sizes_exact_btcUsd : ∃ m,
    (Engine.run Engine.listed).contract.markets.lookup Engine.btcUsd = some m ∧
      m.Exact Engine.sdk (Engine.run Engine.listed).contract Engine.btcUsd := by
  have hm : ((Engine.run Engine.listed).contract.markets.lookup Engine.btcUsd).map
      (fun m => (m.baseToken, m.quoteToken)) =
      some (⟨.fungibleToken Engine.btc, 1, 1⟩, ⟨.fungibleToken Engine.usd, 10, 1⟩) := by
    decide +kernel
  obtain ⟨m, hm, heq⟩ := Option.map_eq_some_iff.1 hm
  obtain ⟨hbase, hquote⟩ := Prod.mk.inj heq
  refine ⟨m, hm, (lot_sizes_exact Engine.bookLaws).2 _
    (Engine.reach_run ?_) _ m hm ?_⟩
  · intro e he s env args h
    subst h
    simp only [Engine.listed, Engine.register, List.mem_cons, List.not_mem_nil, or_false,
      Event.call.injEq, reduceCtorEq, and_false, false_or, Op.createMarket.injEq] at he
    obtain ⟨-, rfl⟩ := he
    exact fun hs => hs.elim (fun h => h.1.2.2 ⟨0, rfl⟩) fun h => h.2.2.2 ⟨1, rfl⟩
  · simp only [Market.validateLotsAndDecimals, Market.baseDenomination, hbase, hquote]
    rfl

end TonicDex
