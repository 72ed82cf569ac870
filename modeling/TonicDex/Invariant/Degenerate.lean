/-
  Orders of nothing, and at no price.

  `new_order` checks that the native amounts of an order are positive, but the
  engine is handed their floors in lots.  So an order has a price and a quantity
  just in case its native amounts make up a lot each (`Substantial`).  While all
  orders do, nothing rests at the price zero or without a quantity, and the
  trading windows can divide by the best prices.
-/
import TonicDex.Invariant.Budget
import TonicDex.Invariant.Custody

namespace TonicDex

variable {B : Type} {S : Sdk B} {c c' : Contract B} {mid : MarketId} {m m' : Market B}
  {env : Env} {p : NewOrderParams} {n : NewOrder} {e : Effect B} {es : List (Effect B)}

/-! ## Orders as they are handed over -/

/-- The order is for at least one lot, and at a price of at least one unless it is
    a market order. -/
structure NewOrder.Proper (n : NewOrder) : Prop where
  qty : 1 ≤ n.maxQtyLots
  price : n.orderType ≠ .market → ∃ lots, n.limitPriceLots = some lots ∧ 1 ≤ lots

/-- The native amounts of an order make up a lot each; for a limit buy, so does
    the quantity that its budget affords. -/
structure NewOrderParams.Substantial (p : NewOrderParams) (m : Market B) : Prop where
  quantity : asU64 (p.quantity / m.baseToken.lotSize) ≠ 0
  price : p.orderType ≠ .market → ∀ limit, p.limitPrice = some limit →
    asU64 (limit / m.quoteToken.lotSize) ≠ 0
  affords : p.orderType ≠ .market → p.side = .buy → ∀ limit, p.limitPrice = some limit →
    limit * m.baseToken.lotSize ≤
      m.budgetLots (p.maxSpend.getD (p.quantity * limit / m.denom)) * m.quoteToken.lotSize *
        m.denom

/-- A bid affords a lot just in case its budget pays for one. -/
theorem Market.affordableLots_ne_zero_iff {lots limit affordable : ℕ}
    (h : m.affordableLots lots limit = .ok affordable) : affordable ≠ 0 ↔
      limit * m.baseToken.lotSize ≤ lots * m.quoteToken.lotSize * m.denom := by
  simp only [affordableLots, quoteLotsToNative, Checked.bind_eq_ok, Checked.fit_eq_ok,
    baseDenomination_eq_ok, Checked.div_eq_ok] at h
  obtain ⟨_, ⟨-, rfl⟩, _, ⟨-, rfl⟩, _, ⟨-, rfl⟩, _, ⟨hlimit, rfl⟩, _, ⟨hlot, rfl⟩, -, rfl⟩ := h
  rw [Nat.div_div_eq_div_mul, Nat.div_ne_zero_iff]
  exact ⟨fun h => h.2, fun h => ⟨Nat.mul_ne_zero hlimit hlot, h⟩⟩

/-- An order at a price is proper just in case its quantity and its price are not zero. -/
theorem NewOrder.proper_iff {lots : ℕ} (hprice : n.limitPriceLots = some lots)
    (ht : n.orderType ≠ .market) : n.Proper ↔ n.maxQtyLots ≠ 0 ∧ lots ≠ 0 := by
  constructor
  · intro h
    obtain ⟨_, hlots, hpos⟩ := h.price ht
    cases hprice.symm.trans hlots
    exact ⟨Nat.one_le_iff_ne_zero.1 h.qty, Nat.one_le_iff_ne_zero.1 hpos⟩
  · rintro ⟨hqty, hlots⟩
    exact ⟨Nat.one_le_iff_ne_zero.2 hqty, fun _ => ⟨_, hprice, Nat.one_le_iff_ne_zero.2 hlots⟩⟩

/-- **An order is proper just in case its native amounts are substantial.** -/
theorem OrderSized.proper_iff (h : OrderSized m p n) (ht : n.orderType = p.orderType) :
    n.Proper ↔ p.Substantial m := by
  cases h with
  | @bid limit maxDebit affordable type side sized =>
    have hdebit := Market.getMaxBidDebit_eq_ok sized.limitPrice sized.debit
    have haffords := Market.affordableLots_ne_zero_iff sized.affords
    rw [hdebit] at haffords
    rw [NewOrder.proper_iff sized.price (ht ▸ type), sized.qty]
    constructor
    · rintro ⟨hqty, hprice⟩
      refine ⟨by omega, fun _ v hv => ?_, fun _ _ v hv => ?_⟩
      · cases sized.limitPrice.symm.trans hv
        exact hprice
      · cases sized.limitPrice.symm.trans hv
        exact haffords.1 (by omega)
    · intro hp
      have hqty := hp.quantity
      have haff := haffords.2 (hp.affords type side limit sized.limitPrice)
      exact ⟨by omega, hp.price type limit sized.limitPrice⟩
  | @ask limit type side sized =>
    rw [NewOrder.proper_iff sized.price (ht ▸ type), sized.qty]
    constructor
    · rintro ⟨hqty, hprice⟩
      refine ⟨hqty, fun _ v hv => ?_, fun _ hs => ?_⟩
      · cases sized.limitPrice.symm.trans hv
        exact hprice
      · rw [side] at hs
        cases hs
    · intro hp
      exact ⟨hp.quantity, hp.price type limit sized.limitPrice⟩
  | market type sized =>
    have hpos := sized.positive
    constructor
    · intro _
      exact ⟨sized.qty ▸ hpos, fun h => absurd type h, fun h => absurd type h⟩
    · intro _
      exact ⟨Nat.one_le_iff_ne_zero.2 hpos, fun h => absurd (ht.trans type) h⟩

/-! ## Resting orders -/

/-- The order has a price and a quantity. -/
def OpenLimitOrder.Sound (o : OpenLimitOrder) : Prop := o.limitPriceLots ≠ 0 ∧ o.openQtyLots ≠ 0

/-- All resting orders have a price and a quantity. -/
def SoundBooks (S : Sdk B) (c : Contract B) : Prop :=
  ∀ mid m, c.markets.lookup mid = some m → ∀ o ∈ S.orders m.orderbook, o.Sound

/-- A fill that does not remove an order leaves some of it. -/
theorem Fillable.sound {taker : AccountId} {o o' : OpenLimitOrder} {f : Match}
    (h : Fillable taker n o f) (ho' : fillRule.reduce o f = some o') (ho : o.Sound) : o'.Sound := by
  simp only [fillRule] at ho'
  split_ifs at ho' with hremoved
  cases ho'
  have hne : f.fillQtyLots ≠ o.openQtyLots := fun he => hremoved (h.removed.2 he)
  have hle := h.qty
  refine ⟨ho.1, ?_⟩
  dsimp only
  omega

/-- What rests after a proper order, or a market order, is sound if all was before. -/
theorem Traded.sound (hB : BookLaws S) (hP : PostLaw S) {taker : AccountId}
    {referrerId : Option AccountId} {r : PlaceOrderResult} {s : Settled}
    (h : Traded S c mid m taker n referrerId r m' s c')
    (hm : MarketOk S c.prevOrderSequenceNumber m) (hn : n.orderType ≠ .market → n.Proper)
    (hs : ∀ o ∈ S.orders m.orderbook, o.Sound) : ∀ o ∈ S.orders m'.orderbook, o.Sound := by
  have hplaced := h.placement hB hm
  have hresting : ∀ side, ∀ o ∈ S.resting m.orderbook side, o.Sound :=
    fun side o ho => hs o (Sdk.mem_orders.2 ⟨side, ho⟩)
  intro o ho
  obtain ⟨side, ho⟩ := Sdk.mem_orders.1 ho
  by_cases hside : side = n.side
  · subst hside
    rcases hposted : r.isPosted with _ | _
    · rw [(hplaced.not_posted hposted).2] at ho
      exact hresting n.side o ho
    · obtain ⟨htype, price, hprice, hperm⟩ := hplaced.posted hposted
      obtain rfl | ho := List.mem_cons.1 (hperm.mem_iff.1 ho)
      · obtain ⟨lots, hlots, hpos⟩ := (hn htype).price htype
        rw [hprice] at hlots
        cases hlots
        exact ⟨Nat.one_le_iff_ne_zero.1 hpos,
          hP h.placed hposted (Nat.one_le_iff_ne_zero.1 (hn htype).qty)⟩
      · exact hresting n.side o ho
  · have hside : side = n.side.opposite := by
      revert hside
      cases side <;> cases n.side <;> decide
    subst hside
    exact hplaced.filled.keeps (fun _ _ _ hfit hred => hfit.sound hred)
      (hresting n.side.opposite) (Sdk.resting_nodup hm.nodup _) o ho

/-- An order is substantial in the market it is placed in. -/
def Effect.Substantial (c : Contract B) : Effect B → Prop
  | order _ mid p _ => ∀ m, c.markets.lookup mid = some m → p.Substantial m
  | _ => True

/-- **Effects keep the books sound if the orders are substantial.** -/
theorem Does.soundBooks (hB : BookLaws S) (hP : PostLaw S) (h : Does S c e c') (hc : BooksOk S c)
    (he : e.Substantial c) (hs : SoundBooks S c) : SoundBooks S c' := by
  intro mid m' hm' o ho
  by_cases htrade : ∃ t, e.trade = some t ∧ t.marketId = mid
  · obtain ⟨t, ht, rfl⟩ := htrade
    cases h with
    | order run =>
      cases ht
      cases (AList.lookup_insert _).symm.trans (run.markets_eq ▸ hm')
      refine run.path.traded.sound hB hP (hc _ _ run.found) (fun _ => ?_) (hs _ _ run.found) o ho
      exact (run.path.sized.proper_iff run.path.type).2 (he run.m run.found)
    | hop run =>
      cases ht
      cases (AList.lookup_insert _).symm.trans (run.markets_eq ▸ hm')
      exact run.traded.sound hB hP (hc _ _ run.found) (fun ht => absurd run.type ht)
        (hs _ _ run.found) o ho
    | _ => cases ht
  · obtain ⟨m, hm, -, hold⟩ :=
      h.resting_origin hB hc (fun t ht hmid => htrade ⟨t, ht, hmid⟩) hm' ho
    exact hs mid m hm o hold

theorem EachEffect.soundBooks (hB : BookLaws S) (hP : PostLaw S)
    (h : EachEffect S (fun c e _ => e.Substantial c) c es c') (hc : BooksOk S c)
    (hs : SoundBooks S c) : SoundBooks S c' :=
  h.invariant hB hc (fun _ _ _ head hc holds hs => head.soundBooks hB hP hc holds hs) hs

/-! ## Runs of substantial orders -/

/-- Trading leaves everything of a market but its book and its fees. -/
theorem Does.trades_market (hB : BookLaws S) (h : Does S c e c') (hc : BooksOk S c)
    {actions : List Action} (ht : e.Trades env actions) (hm' : c'.markets.lookup mid = some m') :
    ∃ m, c.markets.lookup mid = some m ∧
      m' = { m with orderbook := m'.orderbook, feesAccrued := m'.feesAccrued } := by
  obtain ⟨rfl, -⟩ | ⟨m, hm, hmove⟩ := h.market_origin hB hc hm'
  · cases ht
  · refine ⟨m, hm, ?_⟩
    cases hmove with
    | kept | matched | cancelled => rfl
    | state | window | decimals => cases ht

/-- While a batch is executed, its orders stay substantial. -/
theorem Effects.substantial (hB : BookLaws S) (h : Effects S c es c') (hc : BooksOk S c)
    {actions : List Action} (ht : ∀ e ∈ es, e.Trades env actions)
    (hs : ∀ mid p, .newOrder mid p ∈ actions → ∀ m, c.markets.lookup mid = some m →
      p.Substantial m) : EachEffect S (fun c e _ => e.Substantial c) c es c' := by
  induction h with
  | nil c => exact .nil c
  | @cons c c₁ c' e es head tail ih =>
    obtain ⟨he, hes⟩ := List.forall_mem_cons.1 ht
    refine .cons head ?_ (ih (head.booksOk hB hc) hes fun mid p hp m₁ hm₁ => ?_)
    · cases he with
      | order r action => exact hs _ _ action
      | cancel => trivial
    · obtain ⟨m, hm, heq⟩ := head.trades_market hB hc he hm₁
      have hp := hs mid p hp m hm
      rw [heq]
      exact ⟨hp.quantity, hp.price, hp.affords⟩

/-- The orders of a call. -/
def Op.orders : Op → List (MarketId × NewOrderParams)
  | newOrder mid p => [(mid, p)]
  | execute actions => actions.filterMap fun
    | .newOrder mid p => some (mid, p)
    | _ => none
  | _ => []

/-- If the event is a call that returns, its orders are substantial. -/
def Event.Substantial (S : Sdk B) (s : System B) : Event → Prop
  | call env op => (perform S env s.contract op).isOk = true →
      ∀ x ∈ op.orders, ∀ m, s.contract.markets.lookup x.1 = some m → x.2.Substantial m
  | resolve .. => True

/-- No other method places orders. -/
def Effect.isOrder : Effect B → Bool
  | order .. => true
  | _ => false

theorem Hops.no_orders {swaps : List SwapAction} {x y : TokenType × ℕ}
    (h : Hops env swaps x es y) : ∀ e ∈ es, e.isOrder = false := by
  induction h with
  | nil x => intro e he; cases he
  | cons rest ih => exact List.forall_mem_cons.2 ⟨rfl, ih⟩

theorem Effects.substantial_of_no_orders (hB : BookLaws S) (h : Effects S c es c')
    (hc : BooksOk S c) (hno : ∀ e ∈ es, e.isOrder = false) :
    EachEffect S (fun c e _ => e.Substantial c) c es c' :=
  h.each hB hc fun e he c _ _ _ => by
    have hne := hno e he
    cases e with
    | order => cases hne
    | _ => trivial

theorem Shape.substantial (hB : BookLaws S) {op : Op} {ps : List Promise}
    (h : Shape S c env op ps es) (hes : Effects S c es c') (hc : BooksOk S c)
    (hs : ∀ x ∈ op.orders, ∀ m, c.markets.lookup x.1 = some m → x.2.Substantial m) :
    EachEffect S (fun c e _ => e.Substantial c) c es c' := by
  have other := fun hno => hes.substantial_of_no_orders hB hc hno
  cases h with
  | newOrder => exact .cons hes.of_single (hs _ (List.mem_singleton_self _)) (.nil _)
  | execute trades =>
    refine hes.substantial hB hc trades fun mid p hp => hs (mid, p) ?_
    exact List.mem_filterMap.2 ⟨_, hp, rfl⟩
  | swap method hops => exact other hops.no_orders
  | storageDeposit sum effects =>
    obtain ⟨rfl, -⟩ | rfl := effects
    · exact other (List.forall_mem_nil _)
    · exact other (List.forall_mem_singleton.2 rfl)
  | adminCancel method cancels =>
    refine other fun e he => ?_
    obtain ⟨owner, ids, rfl, -⟩ := cancels e he
    rfl
  | mtDeposit => exact other (List.forall_mem_map.2 fun _ _ => rfl)
  | storageKept | notDeleted =>
    cases hes
    exact .nil _
  | _ => exact other (List.forall_mem_singleton.2 rfl)

/-- No resolution places orders. -/
theorem Resolution.no_orders {pr : Promise} {paid : Option (TokenType × ℕ)}
    (h : Resolution S c pr es paid) : ∀ e ∈ es, e.isOrder = false := by
  intro e he
  cases h with
  | credited =>
    cases List.mem_singleton.1 he
    rfl
  | metadata subtoken promise callback =>
    cases callback with
    | nothing => cases he
    | _ =>
      cases List.mem_singleton.1 he
      rfl
  | _ => cases he

theorem soundBooks_of_reach (hB : BookLaws S) (hP : PostLaw S) {s : System B}
    (hs : System.Reach S (Event.Substantial S) s) : SoundBooks S s.contract := by
  refine hs.invariant (P := fun s => SoundBooks S s.contract) ?_ fun s ev hr hev hsound => ?_
  · rintro s ⟨id, rfl⟩ mid m hm
    cases hm
  have hc := booksOk_of_reach hB hr
  have hcase := step_cases hB s ev
  generalize System.step S s ev = s' at hcase ⊢
  cases hcase with
  | unchanged => exact hsound
  | called performed effects shape =>
    refine (shape.substantial hB effects hc (hev ?_)).soundBooks hB hP hc hsound
    rw [performed]
    rfl
  | resolved paid promise effects resolution =>
    exact (effects.substantial_of_no_orders hB hc resolution.no_orders).soundBooks hB hP hc hsound

/-- **No degenerate order reaches the book just in case the orders are
    substantial.**  What `new_order` hands to the engine is for at least one lot,
    at a price of at least one lot unless it is a market order, if and only if
    its native amounts make up a lot each; and a `new_order` that returns has
    handed an order over.  In every run whose orders are of that kind, also in
    the middle of a batch, nothing rests at the price zero or without a quantity,
    and the native best prices that the trading windows divide by are not zero. -/
theorem no_degenerate_order_iff (hB : BookLaws S) (hP : PostLaw S) :
    (∀ (c : Contract B) mid m env p, c.markets.lookup mid = some m →
      (∀ b taker n, Hands S (fun S => newOrder S env c mid p) b taker n →
        (n.Proper ↔ p.Substantial m)) ∧
      ∀ r c', newOrder S env c mid p = .ok (r, c') → ∃ n,
        Hands S (fun S => newOrder S env c mid p) m.orderbook env.predecessorAccountId n) ∧
    ∀ s : System B, System.Reach S (Event.Substantial S) s → ∀ es c,
      EachEffect S (fun c e _ => e.Substantial c) s.contract es c →
      ∀ mid m, c.markets.lookup mid = some m →
        (∀ o ∈ S.orders m.orderbook, o.limitPriceLots ≠ 0 ∧ o.openQtyLots ≠ 0) ∧
        ∀ side o best, S.findBbo m.orderbook side = some o →
          m.quoteLotsToNative o.limitPriceLots = .ok best → best ≠ 0 := by
  refine ⟨fun c mid m env p hm => ⟨fun b taker n hn => ?_, fun r c' h => ?_⟩,
    fun s hs es c hes mid m hm => ?_⟩
  · have hnext := (newOrder_asks hm).of_hands hn
    exact hnext.order.proper_iff hnext.type
  · obtain ⟨n, -, hn⟩ := (newOrder_asks hm).of_ok h
    exact ⟨n, hn⟩
  · have hc := booksOk_of_reach hB hs
    have hsound := hes.soundBooks hB hP hc (soundBooks_of_reach hB hP hs) mid m hm
    refine ⟨hsound, fun side o best hbest hnative => ?_⟩
    have hprice := (hsound o (Sdk.mem_orders.2 ⟨side, hB.bbo_mem hbest⟩)).1
    have hlot := (hes.booksOk hB hc mid m hm).quoteLot
    obtain ⟨-, rfl⟩ := Checked.fit_eq_ok.1 hnative
    exact Nat.mul_ne_zero hprice hlot

/-- Events without orders are always allowed. -/
theorem Event.substantial_of_isEmpty {s : System B} {ev : Event}
    (h : ∀ env op, ev = .call env op → op.orders = []) : ev.Substantial S s := by
  cases ev with
  | resolve => trivial
  | call env op =>
    intro _ x hx
    rw [h env op rfl] at hx
    cases hx

/-- Alice and Bob have funds. -/
def paid : List Event := Engine.listed ++
  [Engine.pay Engine.btc Engine.alice 1000, Engine.pay Engine.usd Engine.bob 100000]

/-- After Alice's order, all that rests has a price and a quantity. -/
theorem no_degenerate_order_asked : ∃ m,
    (Engine.run Engine.asked).contract.markets.lookup Engine.btcUsd = some m ∧
      ∀ o ∈ Engine.sdk.orders m.orderbook, o.limitPriceLots ≠ 0 ∧ o.openQtyLots ≠ 0 := by
  obtain ⟨m, hm, -⟩ := Engine.market_asked
  have hpaid : System.Reach Engine.sdk (Event.Substantial Engine.sdk) (Engine.run paid) := by
    refine Engine.reach_run fun e he s => Event.substantial_of_isEmpty ?_
    simp only [paid, Engine.listed, Engine.register, Engine.pay, List.cons_append,
      List.nil_append, List.mem_cons, List.not_mem_nil, or_false] at he
    rintro env op rfl
    obtain h | h | h | h | h | h | h | h := he <;> cases h <;> rfl
  have hlots : ((Engine.run paid).contract.markets.lookup Engine.btcUsd).map (fun m =>
      (m.baseToken.lotSize, m.quoteToken.lotSize)) = some (1, 10) := by decide +kernel
  have hasked : System.Reach Engine.sdk (Event.Substantial Engine.sdk)
      (Engine.run Engine.asked) := by
    refine Engine.reach_concat hpaid fun _ x hx m₀ hm₀ => ?_
    cases List.mem_singleton.1 hx
    dsimp only at hm₀
    rw [hm₀, Option.map_some, Option.some.injEq, Prod.mk.injEq] at hlots
    refine ⟨?_, fun _ limit hlimit => ?_, fun _ hside => by cases hside⟩
    · rw [hlots.1]
      decide
    · cases hlimit
      rw [hlots.2]
      decide
  have hsound := (no_degenerate_order_iff Engine.bookLaws Engine.postLaw).2 _
    hasked [] _ (.nil _) _ m hm
  exact ⟨m, hm, hsound.1⟩

/-- A bid at half a quote lot. -/
def halfLot : NewOrderParams := Engine.order .buy .limit 5 100 none

/-- Bob's bid at half a lot is handed over and rests at the price zero, and then
    every limit buy panics. -/
theorem degenerate_order_rests : (∃ m n,
      (Engine.run Engine.asked).contract.markets.lookup Engine.btcUsd = some m ∧
      Hands Engine.sdk (fun S => newOrder S (Engine.calling Engine.bob 0)
        (Engine.run Engine.asked).contract Engine.btcUsd halfLot) m.orderbook Engine.bob n ∧
      n.orderType = .limit ∧ n.limitPriceLots = some 0) ∧
    ∃ r c, newOrder Engine.sdk (Engine.calling Engine.bob 0) (Engine.run Engine.asked).contract
        Engine.btcUsd halfLot = .ok (r, c) ∧
      (c.markets.lookup Engine.btcUsd).map (fun m =>
        (Engine.sdk.orders m.orderbook).map OpenLimitOrder.limitPriceLots) = some [2, 0] ∧
      newOrder Engine.sdk (Engine.calling Engine.bob 0) c Engine.btcUsd
        (Engine.order .buy .limit 20 100 none) = .error .arithmetic := by
  obtain ⟨m, hm, -, hquote⟩ := Engine.market_asked
  have hrun : (newOrder Engine.sdk (Engine.calling Engine.bob 0)
      (Engine.run Engine.asked).contract Engine.btcUsd halfLot).toOption.map (fun x =>
        ((x.2.markets.lookup Engine.btcUsd).map fun m =>
            (Engine.sdk.orders m.orderbook).map OpenLimitOrder.limitPriceLots,
          Engine.stoppedBy (newOrder Engine.sdk (Engine.calling Engine.bob 0) x.2 Engine.btcUsd
            (Engine.order .buy .limit 20 100 none)))) =
      some (some [2, 0], some .arithmetic) := by decide +kernel
  obtain ⟨⟨r, c⟩, hok, hrun⟩ := Engine.eq_ok_of_map hrun
  obtain ⟨hrests, hstopped⟩ := Prod.mk.inj hrun
  refine ⟨?_, r, c, hok, hrests, Engine.eq_error_of_stoppedBy hstopped⟩
  obtain ⟨n, hnext, hn⟩ := (newOrder_asks hm).of_ok hok
  refine ⟨m, n, hm, hn, hnext.type, ?_⟩
  cases hnext.order with
  | bid type side sized =>
    have hlimit := sized.limitPrice
    cases hlimit
    rw [sized.price, hquote]
    rfl
  | ask type side sized => cases side
  | market type sized => cases type

end TonicDex
