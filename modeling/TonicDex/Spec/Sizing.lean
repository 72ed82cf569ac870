/-
  What is handed to the engine.

  A call hands an order to the engine if it goes on from whatever the engine
  answers (`Hands`).  The lemmas `*_asks` say that each order path hands over
  an order of its size, or panics before it hands over any.
-/
import TonicDex.Lib.Consult
import TonicDex.Spec.Orders

namespace TonicDex

variable {B α : Type} {S : Sdk B} {c : Contract B} {mid : MarketId} {m : Market B} {env : Env}
  {taker : AccountId} {a : Account} {p : NewOrderParams} {n n' : NewOrder} {b b' : B}

open Consult

/-! ## Handing an order over -/

/-- The libraries with another matching engine. -/
def Sdk.withEngine (S : Sdk B) (f : B × AccountId × NewOrder → Call (PlaceOrderResult × B)) :
    Sdk B :=
  { S with placeOrder := fun b taker n => f (b, taker, n) }

/-- The call `x` hands the order `n` of `taker` to the engine, for the book `b`:
    it goes on from whatever the engine answers. -/
def Hands (S : Sdk B) (x : Sdk B → Call α) (b : B) (taker : AccountId) (n : NewOrder) : Prop :=
  Asks (fun f => x (S.withEngine f)) (b, taker, n)

/-- An order that `taker` places in the market `m` next, of some type and
    satisfying `Q`. -/
structure NextOrder (c : Contract B) (m : Market B) (taker : AccountId) (type : OrderType)
    (Q : NewOrder → Prop) (q : B × AccountId × NewOrder) : Prop where
  book : q.1 = m.orderbook
  taker : q.2.1 = taker
  of : q.2.2.Of m
  seq : q.2.2.sequenceNumber = c.prevOrderSequenceNumber + 1
  type : q.2.2.orderType = type
  order : Q q.2.2

/-- `x` panics before it hands over an order, or hands over such an order. -/
def HandsOnly (S : Sdk B) (c : Contract B) (m : Market B) (taker : AccountId) (type : OrderType)
    (Q : NewOrder → Prop) (x : Sdk B → Call α) : Prop :=
  AsksOnly (NextOrder c m taker type Q) fun f => x (S.withEngine f)

instance : Nontrivial Panic := ⟨.arithmetic, .unwrap, nofun⟩

theorem HandsOnly.of_hands {type : OrderType} {Q : NewOrder → Prop} {x : Sdk B → Call α}
    (h : HandsOnly S c m taker type Q x) {taker' : AccountId} (hn : Hands S x b taker' n) :
    NextOrder c m taker type Q (b, taker', n) :=
  AsksOnly.of_asks h hn

theorem HandsOnly.of_ok {type : OrderType} {Q : NewOrder → Prop} {x : Sdk B → Call α} {y : α}
    (h : HandsOnly S c m taker type Q x) (hx : x S = .ok y) : ∃ n,
    NextOrder c m taker type Q (m.orderbook, taker, n) ∧ Hands S x m.orderbook taker n := by
  have hS : S.withEngine (fun q => S.placeOrder q.1 q.2.1 q.2.2) = S := rfl
  obtain ⟨⟨b, t, n⟩, hn, hask⟩ :=
    AsksOnly.of_ok h (f := fun q => S.placeOrder q.1 q.2.1 q.2.2) (hS.symm ▸ hx)
  obtain rfl : b = m.orderbook := hn.book
  obtain rfl : t = taker := hn.taker
  exact ⟨n, hn, hask⟩

/-! ## What each path hands over -/

theorem nextSequenceNumber_eq {seq : ℕ} {c' : Contract B}
    (h : c.nextSequenceNumber = .ok (seq, c')) : seq = c.prevOrderSequenceNumber + 1 := by
  simp only [Contract.nextSequenceNumber, Checked.bind_eq_ok, Checked.fit_eq_ok,
    Checked.pure_eq_ok, Prod.mk.injEq] at h
  obtain ⟨_, ⟨-, rfl⟩, rfl, -⟩ := h
  rfl

theorem Market.placeOrder_asks {Q : NewOrder → Prop} {seq qty : ℕ} {limit avail : Option ℕ}
    {side : Side} {type : OrderType} {client : Option ClientId}
    (hseq : seq = c.prevOrderSequenceNumber + 1)
    (h : ∀ n : NewOrder, n.limitPriceLots = limit → n.maxQtyLots = qty →
      n.availableQuoteLots = avail → n.side = side → n.clientId = client → Q n) :
    AsksOnly (NextOrder c m taker type Q) fun f =>
      m.placeOrder (S.withEngine f) seq taker limit qty avail side type client := by
  refine .bind_left (fun _ => rfl) fun _ _ => .bind_left (fun _ => rfl) fun d hd => ?_
  obtain ⟨hfits, rfl⟩ := Market.baseDenomination_eq_ok.1 hd
  exact .bind (.ask ⟨rfl, rfl, ⟨hfits, rfl, rfl, rfl⟩, hseq, rfl, h _ rfl rfl rfl rfl rfl⟩)

theorem internalPlaceLimitBuy_asks : HandsOnly S c m taker p.orderType
    (fun n => ∃ limit maxDebit affordable, BidSized m p limit maxDebit affordable n)
    fun S => internalPlaceLimitBuy S env c mid m taker a p := by
  refine .bind_left (y := m.assertBidWindow S p) (fun _ => rfl) fun _ _ => ?_
  refine .bind_left (fun _ => rfl) fun maxDebit hdebit => ?_
  refine .bind_left (fun _ => rfl) fun avail havail => ?_
  refine .bind_left (fun _ => rfl) fun lots hlots => ?_
  refine .bind_left (fun _ => rfl) fun _ hpos => ?_
  refine .bind_left (fun _ => rfl) fun limit hlimit => ?_
  refine .bind_left (fun _ => rfl) fun price hprice => ?_
  refine .bind_left (fun _ => rfl) fun spec hspec => ?_
  refine .bind_left (fun _ => rfl) fun affordable haff => ?_
  refine .bind_left (fun _ => rfl) fun ⟨seq, _⟩ hseq => ?_
  refine .bind ?_
  refine Market.placeOrder_asks (nextSequenceNumber_eq hseq) fun n hl hq hb hs _ => ?_
  obtain rfl := FeeCalculator.withholdTakerFee_eq_ok (m := m) rfl havail
  obtain ⟨-, rfl⟩ := Market.quoteNativeToLots_eq_ok.1 hlots
  obtain ⟨-, rfl⟩ := Market.quoteNativeToLots_eq_ok.1 hprice
  obtain ⟨-, rfl⟩ := Market.baseNativeToLots_eq_ok.1 hspec
  exact ⟨limit, maxDebit, affordable, hs, Checked.expect_eq_ok.1 hlimit, hdebit,
    Checked.require_eq_ok.1 hpos, haff, hl, hq, hb⟩

theorem internalPlaceLimitSell_asks : HandsOnly S c m taker p.orderType
    (fun n => ∃ limit, AskSized m p limit n)
    fun S => internalPlaceLimitSell S env c mid m taker a p := by
  refine .bind_left (y := m.assertAskWindow S p) (fun _ => rfl) fun _ _ => ?_
  refine .bind_left (fun _ => rfl) fun _ _ => ?_
  refine .bind_left (fun _ => rfl) fun qty hqty => ?_
  refine .bind_left (fun _ => rfl) fun limit hlimit => ?_
  refine .bind_left (fun _ => rfl) fun price hprice => ?_
  refine .bind_left (fun _ => rfl) fun ⟨seq, _⟩ hseq => ?_
  refine .bind ?_
  refine Market.placeOrder_asks (nextSequenceNumber_eq hseq) fun n hl hq hb hs _ => ?_
  obtain ⟨-, rfl⟩ := Market.quoteNativeToLots_eq_ok.1 hprice
  obtain ⟨-, rfl⟩ := Market.baseNativeToLots_eq_ok.1 hqty
  exact ⟨limit, hs, Checked.expect_eq_ok.1 hlimit, hl, hq, hb⟩

theorem internalPlaceMarketOrder_asks : HandsOnly S c m taker p.orderType
    (fun n => MarketSized m p n)
    fun S => internalPlaceMarketOrder S c mid m taker a p := by
  refine .bind_left (fun _ => rfl) fun qty hqty => ?_
  refine .bind_left (fun _ => rfl) fun _ hpos => ?_
  refine .bind_left (fun _ => rfl) fun budget hbudget => ?_
  refine .bind_left (fun _ => rfl) fun ⟨seq, _⟩ hseq => ?_
  refine .bind ?_
  refine Market.placeOrder_asks (nextSequenceNumber_eq hseq) fun n hl hq hb hs _ => ?_
  obtain ⟨-, rfl⟩ := Market.baseNativeToLots_eq_ok.1 hqty
  refine ⟨hs, hl, hq, ?_, hb.trans (marketOrderBudget_eq_ok rfl hbudget)⟩
  rw [hq]
  exact Checked.require_eq_ok.1 hpos

theorem internalSwap_asks {side : Side} {inputAmount : ℕ} {referrerId : Option AccountId} :
    HandsOnly S c m env.signerAccountId .market (fun n => SwapSized m side inputAmount n)
      fun S => internalSwap S env c mid m side inputAmount referrerId := by
  refine .bind_left (fun _ => rfl) fun _ _ => ?_
  refine .bind_left (fun _ => rfl) fun ⟨qty, avail⟩ hx => ?_
  refine .bind_left (fun _ => rfl) fun ⟨seq, _⟩ hseq => ?_
  refine .bind_left (fun _ => rfl) fun lots hlots => ?_
  refine .bind_left (fun _ => rfl) fun avail havail => ?_
  refine .bind ?_
  refine Market.placeOrder_asks (nextSequenceNumber_eq hseq) fun n hl hq hb hs hcl => ?_
  exact swapSized rfl hx hlots havail hs hl hq hb hcl

/-! ## `new_order` -/

theorem NextOrder.imp {type : OrderType} {Q Q' : NewOrder → Prop} {q : B × AccountId × NewOrder}
    (h : NextOrder c m taker type Q q) (hQ : ∀ n, Q n → Q' n) : NextOrder c m taker type Q' q :=
  ⟨h.book, h.taker, h.of, h.seq, h.type, hQ _ h.order⟩

theorem HandsOnly.imp {type : OrderType} {Q Q' : NewOrder → Prop} {x : Sdk B → Call α}
    (h : HandsOnly S c m taker type Q x) (hQ : ∀ n, Q n → Q' n) :
    HandsOnly S c m taker type Q' x := by
  obtain he | ⟨q, hq, hask⟩ := h
  · exact .inl he
  · exact .inr ⟨q, hq.imp hQ, hask⟩

theorem placeByType_asks : HandsOnly S c m taker p.orderType (OrderSized m p)
    fun S => placeByType S env c mid m taker a p := by
  unfold placeByType
  by_cases ht : p.orderType = .market
  · simp only [if_pos ht]
    exact internalPlaceMarketOrder_asks.imp fun n hn => .market ht hn
  · simp only [if_neg ht]
    rcases hs : p.side with _ | _
    · exact internalPlaceLimitBuy_asks.imp fun n ⟨_, _, _, hn⟩ => .bid ht hs hn
    · exact internalPlaceLimitSell_asks.imp fun n ⟨_, hn⟩ => .ask ht hs hn

theorem newOrder_asks (hm : c.markets.lookup mid = some m) :
    HandsOnly S c m env.predecessorAccountId p.orderType (OrderSized m p)
      fun S => newOrder S env c mid p := by
  refine .bind_left (fun _ => rfl) fun _ _ => .bind_left (fun _ => rfl) fun _ _ => ?_
  refine .bind_left (fun _ => rfl) fun m' hm' => ?_
  obtain rfl : m' = m := Option.some.inj ((Contract.internalUnwrapMarket_eq_ok.1 hm').symm.trans hm)
  refine .bind_left (fun _ => rfl) fun _ _ => .bind_left (fun _ => rfl) fun a _ => .bind ?_
  exact placeByType_asks

/-! ## Which limit buys hand over an order -/

theorem Market.placeOrder_hands_iff {seq qty : ℕ} {limit avail : Option ℕ} {side : Side}
    {type : OrderType} {client : Option ClientId} :
    Asks (fun f => m.placeOrder (S.withEngine f) seq taker limit qty avail side type client)
        (m.orderbook, taker, n) ↔
      m.state = .active ∧ m.denom < 2 ^ 128 ∧
        n = ⟨seq, limit, qty, avail, side, type, m.quoteToken.lotSize, m.denom,
          m.baseToken.lotSize, client⟩ := by
  refine (asks_bind_left_iff fun _ => rfl).trans ?_
  simp only [Market.assertActive, Checked.require_eq_ok, exists_const]
  refine and_congr_right fun _ => (asks_bind_left_iff fun _ => rfl).trans ?_
  simp only [Market.baseDenomination_eq_ok, and_assoc, exists_and_left, exists_eq_left']
  refine and_congr_right fun _ => (asks_self_iff _).trans ?_
  simp only [Prod.mk.injEq, true_and]

/-- What follows the engine's answer hands nothing over. -/
theorem Market.placeOrder_bind_hands_iff {α : Type} {seq qty : ℕ} {limit avail : Option ℕ}
    {side : Side} {type : OrderType} {client : Option ClientId}
    {k : (B × AccountId × NewOrder → Call (PlaceOrderResult × B)) →
      PlaceOrderResult × Market B → Call α}
    (hseq : seq = c.prevOrderSequenceNumber + 1) :
    Asks (fun f => m.placeOrder (S.withEngine f) seq taker limit qty avail side type client >>= k f)
        (m.orderbook, taker, n) ↔
      m.state = .active ∧ m.denom < 2 ^ 128 ∧
        n = ⟨seq, limit, qty, avail, side, type, m.quoteToken.lotSize, m.denom,
          m.baseToken.lotSize, client⟩ :=
  (AsksOnly.bind_iff (Market.placeOrder_asks (c := c) (Q := fun _ => True) hseq
    fun _ _ _ _ _ _ => trivial)).trans Market.placeOrder_hands_iff

theorem Contract.nextSequenceNumber_eq_ok {x : ℕ × Contract B} :
    c.nextSequenceNumber = .ok x ↔ c.prevOrderSequenceNumber + 1 < 2 ^ 64 ∧
      x = (c.prevOrderSequenceNumber + 1,
        { c with prevOrderSequenceNumber := c.prevOrderSequenceNumber + 1 }) := by
  simp only [nextSequenceNumber, Checked.bind_eq_ok, Checked.fit_eq_ok, Checked.pure_eq_ok]
  constructor
  · rintro ⟨_, ⟨hlt, rfl⟩, rfl⟩
    exact ⟨hlt, rfl⟩
  · rintro ⟨hlt, rfl⟩
    exact ⟨_, ⟨hlt, rfl⟩, rfl⟩

/-- A limit buy hands an order over just in case each step of its sizing returns. -/
theorem internalPlaceLimitBuy_hands_iff :
    Hands S (fun S => internalPlaceLimitBuy S env c mid m taker a p) m.orderbook taker n ↔
      m.assertBidWindow S p = .ok () ∧ ∃ maxDebit, m.getMaxBidDebit p = .ok maxDebit ∧
      ∃ avail, (FeeCalculator.new a m).withholdTakerFee maxDebit = .ok avail ∧
      ∃ lots, m.quoteNativeToLots avail = .ok lots ∧ lots ≠ 0 ∧
      ∃ limit, p.limitPrice = some limit ∧ ∃ price, m.quoteNativeToLots limit = .ok price ∧
      ∃ specified, m.baseNativeToLots p.quantity = .ok specified ∧
      ∃ affordable, m.affordableLots lots limit = .ok affordable ∧
      c.prevOrderSequenceNumber + 1 < 2 ^ 64 ∧ m.state = .active ∧ m.denom < 2 ^ 128 ∧
      n = ⟨c.prevOrderSequenceNumber + 1, some price, min specified affordable, some lots, p.side,
        p.orderType, m.quoteToken.lotSize, m.denom, m.baseToken.lotSize, p.clientId⟩ := by
  refine (asks_bind_left_iff (y := m.assertBidWindow S p) fun _ => rfl).trans ?_
  refine Unique.exists_iff.trans ?_
  refine and_congr_right fun _ => (asks_bind_left_iff fun _ => rfl).trans ?_
  refine exists_congr fun maxDebit => and_congr_right fun _ => ?_
  refine (asks_bind_left_iff fun _ => rfl).trans ?_
  refine exists_congr fun avail => and_congr_right fun _ => ?_
  refine (asks_bind_left_iff fun _ => rfl).trans ?_
  refine exists_congr fun lots => and_congr_right fun _ => ?_
  refine (asks_bind_left_iff fun _ => rfl).trans ?_
  simp only [Checked.require_eq_ok, exists_const]
  refine and_congr_right fun _ => (asks_bind_left_iff fun _ => rfl).trans ?_
  simp only [Checked.expect_eq_ok]
  refine exists_congr fun limit => and_congr_right fun _ => ?_
  refine (asks_bind_left_iff fun _ => rfl).trans ?_
  refine exists_congr fun price => and_congr_right fun _ => ?_
  refine (asks_bind_left_iff fun _ => rfl).trans ?_
  refine exists_congr fun specified => and_congr_right fun _ => ?_
  refine (asks_bind_left_iff fun _ => rfl).trans ?_
  refine exists_congr fun affordable => and_congr_right fun _ => ?_
  refine (asks_bind_left_iff fun _ => rfl).trans ?_
  simp only [Contract.nextSequenceNumber_eq_ok, and_assoc, exists_and_left, exists_eq_left]
  exact and_congr_right fun _ => Market.placeOrder_bind_hands_iff rfl

theorem newOrder_buy_hands_iff (hm : c.markets.lookup mid = some m) (htype : p.orderType ≠ .market)
    (hside : p.side = .buy) :
    Hands S (fun S => newOrder S env c mid p) m.orderbook env.predecessorAccountId n ↔
      c.state = .active ∧ assertValidOrder p = .ok () ∧ m.state = .active ∧
      ∃ a, c.accounts.lookup env.predecessorAccountId = some a ∧
        Hands S (fun S => internalPlaceLimitBuy S env c mid m env.predecessorAccountId a p)
          m.orderbook env.predecessorAccountId n := by
  refine (asks_bind_left_iff fun _ => rfl).trans ?_
  simp only [Contract.assertActive, Checked.require_eq_ok, exists_const]
  refine and_congr_right fun _ => (asks_bind_left_iff fun _ => rfl).trans ?_
  refine Unique.exists_iff.trans (and_congr_right fun _ => ?_)
  refine (asks_bind_left_iff fun _ => rfl).trans ?_
  simp only [Contract.internalUnwrapMarket_eq_ok, hm, Option.some.injEq, exists_eq_left']
  refine (asks_bind_left_iff fun _ => rfl).trans ?_
  simp only [Market.assertActive, Checked.require_eq_ok, exists_const]
  refine and_congr_right fun _ => (asks_bind_left_iff fun _ => rfl).trans ?_
  simp only [Contract.internalUnwrapAccount_eq_ok]
  refine exists_congr fun a => and_congr_right fun _ => ?_
  refine (AsksOnly.bind_iff placeByType_asks).trans ?_
  have hpath : (fun S => placeByType S env c mid m env.predecessorAccountId a p) =
      fun S => internalPlaceLimitBuy S env c mid m env.predecessorAccountId a p := by
    funext S
    rw [placeByType, if_neg htype, hside]
  exact iff_of_eq (congrArg (Hands S · m.orderbook env.predecessorAccountId n) hpath)

end TonicDex
