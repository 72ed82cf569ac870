/-
  The two views of an order.

  `get_open_orders` starts from the records of an account and scales the lots
  of the orders by the lot sizes of the market; `get_order` starts from the
  book and scales by the denominations of the tokens.  In every run both are
  computed from the same order and the same record, so that they agree just in
  case the lot sizes are the denominations, as far as there are lots to scale
  (`order_views_iff`).
-/
import TonicDex.Invariant.Agreement
import TonicDex.Invariant.Shown

namespace TonicDex

variable {B : Type} {S : Sdk B} {c c' : Contract B} {e : Effect B} {es : List (Effect B)}
  {mid : MarketId} {m m' : Market B} {env : Env} {p : NewOrderParams} {r : PlaceOrderResult}
  {x x' : OpenLimitOrder} {id : AccountId} {a : Account} {o : OrderId} {i : OrderInfo}

/-! ## The sizes on record -/

/-- A record is that of an order which the effect posts, or an old one. -/
theorem Does.record_origin (hB : BookLaws S) (hK : KeysLaw S) (h : Does S c e c')
    (hc : BooksOk S c) (hi : (c'.accountOf id).getOrderInfo mid o = some i) :
    (c.accountOf id).getOrderInfo mid o = some i ∨
      ∃ env p r, ∃ run : OrderRun S env c mid p r c', e = .order env mid p r ∧
        run.done.result.isPosted = true ∧ o = run.done.result.id ∧
        i.originalSize = run.path.n.maxQtyLots := by
  by_cases hno : e.Reindexes
  · cases h with
    | order run =>
      have hm := hc _ _ run.found
      obtain ⟨hr, rfl, ho, -, hsize⟩ | ⟨hold, -⟩ :=
        run.path.traded.record_origin hB hm (run.records hB hm) hi
      · exact .inr ⟨_, _, _, run, rfl, hr, ho, hsize⟩
      · exact .inl hold
    | hop run =>
      have hm := hc _ _ run.found
      obtain ⟨hr, -⟩ | ⟨hold, -⟩ := run.traded.record_origin hB hm (run.records hB hm) hi
      · exact absurd run.type ((run.traded.placement hB hm).posted hr).1
      · exact .inl hold
    | cancel run =>
      rw [run.getOrderInfo_eq hB hK (hc _ _ run.found)] at hi
      split_ifs at hi
      exact .inl hi
    | _ => exact hno.elim
  · rw [(index_congr (h.openOrders_eq hno id)).1] at hi
    exact .inl hi

/-- An order that rests after an effect was posted by it, or rested before. -/
theorem Does.resting_cases (hB : BookLaws S) (h : Does S c e c') (hc : BooksOk S c)
    (hm' : c'.markets.lookup mid = some m') (hx' : x' ∈ S.orders m'.orderbook) :
    S.seqOf x'.id = c.prevOrderSequenceNumber + 1 ∨
      ∃ m x, c.markets.lookup mid = some m ∧ SameTerms m m' ∧ x ∈ S.orders m.orderbook ∧
        x.id = x'.id := by
  have traded : ∀ {m m₁ taker n referrerId r s c₁},
      Traded S c mid m taker n referrerId r m₁ s c₁ → c.markets.lookup mid = some m →
      c'.markets = c.markets.insert mid m₁ → S.seqOf x'.id = c.prevOrderSequenceNumber + 1 ∨
        ∃ m x, c.markets.lookup mid = some m ∧ SameTerms m m' ∧ x ∈ S.orders m.orderbook ∧
          x.id = x'.id := by
    intro m m₁ taker n referrerId r s c₁ tr hm hmarkets
    cases (AList.lookup_insert _).symm.trans (hmarkets ▸ hm')
    obtain ⟨-, hid, -⟩ | ⟨x, hx, hsh, -⟩ := tr.origin hB (hc _ _ hm) hx'
    · rw [hid, (tr.placement hB (hc _ _ hm)).seq, tr.seq]
      exact .inl rfl
    · exact .inr ⟨m, x, hm, tr.sameTerms, hx, by rw [hsh.1]⟩
  by_cases htrade : ∃ t, e.trade = some t ∧ t.marketId = mid
  · obtain ⟨t, ht, rfl⟩ := htrade
    cases h with
    | order run =>
      cases ht
      exact traded run.path.traded run.found run.markets_eq
    | hop run =>
      cases ht
      exact traded run.traded run.found run.markets_eq
    | _ => cases ht
  · obtain ⟨m, hm, hmove, hx⟩ :=
      h.resting_origin hB hc (fun t ht hmid => htrade ⟨t, ht, hmid⟩) hm' hx'
    exact .inr ⟨m, x', hm, hmove.sameTerms, hx, rfl⟩

/-- The quantity of an order is an amount of 128 bits. -/
def Effect.QuantityTyped : Effect B → Prop
  | order _ _ p _ => p.quantity < 2 ^ 128
  | _ => True

/-- The lots of an order are worth at most its quantity. -/
theorem OrderSized.size_le {n : NewOrder} (h : OrderSized m p n) :
    n.maxQtyLots * m.baseToken.lotSize ≤ p.quantity := by
  cases h with
  | bid type side sized =>
    rw [sized.qty]
    exact (Nat.mul_le_mul_right _ (Nat.min_le_left _ _)).trans (lots_mul_le p.quantity)
  | ask type side sized => exact sized.qty ▸ lots_mul_le p.quantity
  | market type sized => exact sized.qty ▸ lots_mul_le p.quantity

/-- Records are of orders placed before; and the native size of an order that still
    rests fits. -/
structure SizesFit (S : Sdk B) (c : Contract B) : Prop where
  old : ∀ id mid o i, (c.accountOf id).getOrderInfo mid o = some i →
    S.seqOf o ≤ c.prevOrderSequenceNumber
  fits : ∀ id mid i m x, (c.accountOf id).getOrderInfo mid x.id = some i →
    c.markets.lookup mid = some m → x ∈ S.orders m.orderbook →
    i.originalSize * m.baseToken.lotSize < 2 ^ 128

theorem Does.sizesFit (hB : BookLaws S) (hK : KeysLaw S) (h : Does S c e c')
    (hc : BooksOk S c) (htyped : e.QuantityTyped) (hf : SizesFit S c) : SizesFit S c' := by
  have hseq := h.seq_le
  constructor
  · intro id mid o i hi
    obtain hold | ⟨env, p, r, run, he, hr, rfl, -⟩ := h.record_origin hB hK hc hi
    · exact (hf.old id mid o i hold).trans hseq
    · have hplaced := run.path.traded.placement hB (hc _ _ run.found)
      rw [hplaced.seq, run.path.traded.seq, run.seq_eq]
  · intro id mid i m' x' hi hm' hx'
    obtain hold | ⟨env, p, r, run, rfl, -, -, hsize⟩ := h.record_origin hB hK hc hi
    · obtain hnew | ⟨m, x, hm, ht, hx, hid⟩ := h.resting_cases hB hc hm' hx'
      · have := hf.old id mid x'.id i hold
        omega
      · rw [ht.baseLot]
        exact hf.fits id mid i m x (hid ▸ hold) hm hx
    · cases (AList.lookup_insert _).symm.trans (run.markets_eq ▸ hm')
      rw [run.path.traded.sameTerms.baseLot, hsize]
      exact run.path.sized.size_le.trans_lt htyped

/-- The prices and quantities of a call are amounts of 128 bits. -/
def Event.AmountsTyped : Event → Prop
  | call _ op => ∀ y ∈ op.orders, y.2.quantity < 2 ^ 128 ∧
      ∀ l, y.2.limitPrice = some l → l < 2 ^ 128
  | resolve .. => True

theorem Event.AmountsTyped.typed {ev : Event} (h : ev.AmountsTyped) : ev.Typed := by
  cases ev with
  | call env op => exact fun y hy => (h y hy).2
  | resolve => trivial

instance : DecidablePred Event.AmountsTyped
  | .call _ op => inferInstanceAs (Decidable (∀ y ∈ op.orders, y.2.quantity < 2 ^ 128 ∧
      ∀ l ∈ y.2.limitPrice, l < 2 ^ 128))
  | .resolve .. => .isTrue trivial

/-- **In every run what is recorded of resting orders fits.** -/
theorem sizesFit_of_reach (hB : BookLaws S) (hK : KeysLaw S) {s : System B}
    (hs : System.Reach S (fun _ ev => ev.AmountsTyped) s) : SizesFit S s.contract := by
  refine reach_invariant_of_orders (Q := fun p => p.quantity < 2 ^ 128) hB ?_
    (fun e c c' he hc hQ hf => he.sizesFit hB hK hc ?_ hf) (fun s env op h y hy => (h y hy).1) hs
  · intro id
    constructor
    · intro id mid o i hi
      cases hi
    · intro id mid i m x hi
      cases hi
  · cases e with
    | order env mid p r => exact hQ env mid p r rfl
    | _ => trivial

/-! ## The views -/

theorem orderToView_eq_ok {base quote size time : ℕ} {v : OpenLimitOrderView} :
    orderToView x base quote (some size) (some time) = .ok v ↔ size * base < 2 ^ 128 ∧
      x.limitPriceLots * quote < 2 ^ 128 ∧ x.openQtyLots * base < 2 ^ 128 ∧
      v = ⟨x.id, x.limitPriceLots * quote, x.openQtyLots * base, some (size * base), x.side,
        some time, x.clientId⟩ := by
  simp only [orderToView, Option.mapM_some, Checked.bind_eq_ok, Checked.map_eq_ok,
    Checked.fit_eq_ok, Checked.pure_eq_ok]
  constructor
  · rintro ⟨_, ⟨_, ⟨hsize, rfl⟩, rfl⟩, _, ⟨hprice, rfl⟩, _, ⟨hopen, rfl⟩, rfl⟩
    exact ⟨hsize, hprice, hopen, rfl⟩
  · rintro ⟨hsize, hprice, hopen, rfl⟩
    exact ⟨_, ⟨_, ⟨hsize, rfl⟩, rfl⟩, _, ⟨hprice, rfl⟩, _, ⟨hopen, rfl⟩, rfl⟩

theorem getOrder_eq_ok (hfound : c.markets.lookup mid = some m)
    (hx : S.getOrder m.orderbook o = some x) (ha : c.accounts.lookup x.ownerId = some a)
    (hi : a.getOrderInfo mid o = some i) {v : OpenLimitOrderView} :
    getOrder S c mid o = .ok (some v) ↔ m.denom < 2 ^ 128 ∧
      10 ^ m.quoteToken.decimals < 2 ^ 128 ∧
      orderToView x m.denom (10 ^ m.quoteToken.decimals) (some i.originalSize)
        (some i.timestamp) = .ok v := by
  simp only [getOrder, Contract.internalUnwrapMarket_eq_ok, Checked.bind_eq_ok, hfound,
    Option.some.injEq, exists_eq_left', hx, Option.mapM_some, Checked.map_eq_ok,
    Contract.internalUnwrapAccount_eq_ok, ha, hi, Checked.expect_eq_ok,
    Market.baseDenomination_eq_ok, Market.quoteDenomination, denomination, Checked.fit_eq_ok,
    exists_eq_right, and_assoc, exists_and_left]

/-- What an account lists as open in a market is what it records. -/
theorem mem_openOrdersIter_iff (hK : KeysLaw S) :
    (o, i) ∈ a.openOrdersIter S mid ↔ a.getOrderInfo mid o = some i := by
  refine ⟨fun h => getOrderInfo_of_mem_iter h, fun h => ?_⟩
  unfold Account.getOrderInfo at h
  obtain ⟨os, hos, hi⟩ := Option.bind_eq_some_iff.1 h
  unfold Account.openOrdersIter
  rw [hos]
  refine List.mem_filterMap.2 ⟨o, (hK os).mem_iff.2 ?_, ?_⟩
  · exact AList.mem_keys.1 (AList.lookup_isSome.1 (by rw [hi]; rfl))
  · rw [hi]
    rfl

/-- One entry of `get_open_orders`. -/
def openOrderView (S : Sdk B) (m : Market B) (y : OrderId × OrderInfo) :
    Call OpenLimitOrderView := do
  let o ← Checked.expect .unwrap (S.getOrder m.orderbook y.1)
  orderToView o m.baseToken.lotSize m.quoteToken.lotSize (some y.2.originalSize)
    (some y.2.timestamp)

theorem getOpenOrders_eq (hfound : c.markets.lookup mid = some m)
    (ha : c.accounts.lookup id = some a) :
    getOpenOrders S c mid id = (a.openOrdersIter S mid).mapM (openOrderView S m) := by
  have hmarket : c.internalUnwrapMarket mid = .ok m :=
    Contract.internalUnwrapMarket_eq_ok.2 hfound
  have haccount : c.internalUnwrapAccount id = .ok a := Contract.internalUnwrapAccount_eq_ok.2 ha
  rw [getOpenOrders, hmarket, Checked.ok_bind, haccount, Checked.ok_bind]
  rfl

/-- The view of an order in the native amounts of its lots. -/
def nativeView (m : Market B) (x : OpenLimitOrder) (i : OrderInfo) : OpenLimitOrderView :=
  ⟨x.id, x.limitPriceLots * m.quoteToken.lotSize, x.openQtyLots * m.baseToken.lotSize,
    some (i.originalSize * m.baseToken.lotSize), x.side, some i.timestamp, x.clientId⟩

/-- The entry of a record is the native view of the order found under its id. -/
theorem openOrderView_eq_ok (hB : BookLaws S) (hc : BooksOk S c)
    (hfound : c.markets.lookup mid = some m) {v : OpenLimitOrderView} :
    openOrderView S m (o, i) = .ok v ↔ ∃ x ∈ S.orders m.orderbook, x.id = o ∧ m.Shows x ∧
      i.originalSize * m.baseToken.lotSize < 2 ^ 128 ∧ v = nativeView m x i := by
  simp only [openOrderView, Checked.bind_eq_ok, Checked.expect_eq_ok, orderToView_eq_ok,
    hB.getOrder (hc mid m hfound).nodup]
  constructor
  · rintro ⟨x, ⟨hx, hid⟩, hsize, hprice, hqty, rfl⟩
    exact ⟨x, hx, hid, ⟨hprice, hqty⟩, hsize, rfl⟩
  · rintro ⟨x, hx, hid, ⟨hprice, hqty⟩, hsize, rfl⟩
    exact ⟨x, ⟨hx, hid⟩, hsize, hprice, hqty, rfl⟩

/-- The list of an account has one entry for an order that it records and that
    rests: its native view. -/
theorem mem_getOpenOrders_iff (hB : BookLaws S) (hK : KeysLaw S) (hc : BooksOk S c)
    (hfound : c.markets.lookup mid = some m) (hx : x ∈ S.orders m.orderbook)
    (ha : c.accounts.lookup id = some a) (hi : a.getOrderInfo mid x.id = some i)
    {vs : List OpenLimitOrderView} (h : getOpenOrders S c mid id = .ok vs)
    {v : OpenLimitOrderView} : v ∈ vs ∧ v.id = x.id ↔ v = nativeView m x i := by
  rw [getOpenOrders_eq hfound ha] at h
  have hmem : (x.id, i) ∈ a.openOrdersIter S mid := (mem_openOrdersIter_iff hK).2 hi
  constructor
  · rintro ⟨hv, hid⟩
    obtain ⟨⟨o, j⟩, hj, hview⟩ := (Checked.mem_of_mapM h).1 hv
    obtain ⟨y, hy, rfl, -, -, rfl⟩ := (openOrderView_eq_ok hB hc hfound).1 hview
    obtain rfl : y = x := List.inj_on_of_nodup_map (hc mid m hfound).nodup hy hx hid
    cases hi.symm.trans ((mem_openOrdersIter_iff hK).1 hj)
    rfl
  · rintro rfl
    obtain ⟨v, hview⟩ := Checked.mapM_ok_iff.1 ⟨vs, h⟩ _ hmem
    obtain ⟨y, hy, hid, -, -, rfl⟩ := (openOrderView_eq_ok hB hc hfound).1 hview
    obtain rfl : y = x := List.inj_on_of_nodup_map (hc mid m hfound).nodup hy hx hid
    exact ⟨(Checked.mem_of_mapM h).2 ⟨_, hmem, hview⟩, rfl⟩

/-- The list returns just in case every recorded order rests. -/
theorem getOpenOrders_ok_iff (hB : BookLaws S) (hK : KeysLaw S) (hc : BooksOk S c)
    (hshown : OrdersShown S c) (hsizes : SizesFit S c)
    (hfound : c.markets.lookup mid = some m) (ha : c.accounts.lookup id = some a) :
    (∃ vs, getOpenOrders S c mid id = .ok vs) ↔
      ∀ o i, a.getOrderInfo mid o = some i → o ∈ S.ids m.orderbook := by
  rw [getOpenOrders_eq hfound ha, Checked.mapM_ok_iff]
  constructor
  · intro h o i hi
    obtain ⟨v, hv⟩ := h (o, i) ((mem_openOrdersIter_iff hK).2 hi)
    obtain ⟨x, hx, rfl, -⟩ := (openOrderView_eq_ok hB hc hfound).1 hv
    exact List.mem_map_of_mem hx
  · rintro h ⟨o, i⟩ hmem
    have hi := (mem_openOrdersIter_iff hK).1 hmem
    obtain ⟨x, hx, rfl⟩ := List.mem_map.1 (h o i hi)
    rw [← accountOf_of_lookup ha] at hi
    exact ⟨_, (openOrderView_eq_ok hB hc hfound).2
      ⟨x, hx, rfl, hshown mid m x hfound hx, hsizes.fits id mid i m x hi hfound hx, rfl⟩⟩

/-! ## Agreement of the views -/

/-- The two views of an order agree, and show the native amounts of its lots, which
    cancelling or filling it would move. -/
structure ViewsAgree (S : Sdk B) (c : Contract B) (mid : MarketId) (m : Market B)
    (x : OpenLimitOrder) (i : OrderInfo) (v : OpenLimitOrderView)
    (vs : List OpenLimitOrderView) : Prop where
  order : getOrder S c mid x.id = .ok (some v)
  listed : getOpenOrders S c mid x.ownerId = .ok vs
  only : ∀ w, w ∈ vs ∧ w.id = x.id ↔ w = v
  limitPrice : v.limitPrice = x.limitPriceLots * m.quoteToken.lotSize
  openQty : v.openQty = x.openQtyLots * m.baseToken.lotSize
  originalQty : v.originalQty = some (i.originalSize * m.baseToken.lotSize)
  moved : m.restingValue x.side x = match x.side with
    | .buy => v.openQty * v.limitPrice / m.denom
    | .sell => v.openQty

/-- The lot sizes of the market are the denominations of its tokens, as far as
    there are lots to scale, and the account has no record of the market that is
    left over from a deleted book. -/
structure ScalesAlike (S : Sdk B) (mid : MarketId) (m : Market B) (x : OpenLimitOrder)
    (i : OrderInfo) (a : Account) : Prop where
  base : m.denom < 2 ^ 128
  quote : 10 ^ m.quoteToken.decimals < 2 ^ 128
  price : m.quoteToken.lotSize = 10 ^ m.quoteToken.decimals ∨ x.limitPriceLots = 0
  qty : m.baseToken.lotSize = m.denom ∨ x.openQtyLots = 0
  size : m.baseToken.lotSize = m.denom ∨ i.originalSize = 0
  records : ∀ o j, a.getOrderInfo mid o = some j → o ∈ S.ids m.orderbook

/-- **The two views of an order agree just in case the lot sizes are the
    denominations.**  In every run, for every order that rests in a market: the
    order is recorded on its owner's account; and `get_order` shows what is its
    only entry in `get_open_orders`, in the native amounts of its lots, if and only
    if it has no lots that are scaled by a lot size other than the denomination of
    the token, the denominations fit, and the list of the owner does not stop at a
    record that is left over from a deleted book. -/
theorem order_views_iff (hB : BookLaws S) (hK : KeysLaw S) {s : System B}
    (hs : System.Reach S (fun _ ev => ev.AmountsTyped) s)
    (hfound : s.contract.markets.lookup mid = some m) (hx : x ∈ S.orders m.orderbook) :
    ∃ a i, s.contract.accounts.lookup x.ownerId = some a ∧ a.getOrderInfo mid x.id = some i ∧
      ((∃ v vs, ViewsAgree S s.contract mid m x i v vs) ↔ ScalesAlike S mid m x i a) := by
  have hc := booksOk_of_reach hB hs
  have hshown := shown_of_reach hB (fun _ _ h => Event.AmountsTyped.typed h) hs
  have hsizes := sizesFit_of_reach hB hK hs
  obtain ⟨i, hi⟩ := allRecorded_of_reach hB hK hs mid m x hfound hx
  have hshows := hshown mid m x hfound hx
  have hsize := hsizes.fits _ mid i m x hi hfound hx
  have hget : S.getOrder m.orderbook x.id = some x :=
    (hB.getOrder (hc mid m hfound).nodup).2 ⟨hx, rfl⟩
  rcases ha : s.contract.accounts.lookup x.ownerId with _ | a
  · rw [Contract.accountOf, ha] at hi
    cases hi
  rw [accountOf_of_lookup ha] at hi
  refine ⟨a, i, rfl, hi, ?_, fun h => ?_⟩
  · rintro ⟨v, vs, h⟩
    obtain ⟨hbase, hquote, hview⟩ := (getOrder_eq_ok hfound hget ha hi).1 h.order
    obtain ⟨-, -, -, rfl⟩ := orderToView_eq_ok.1 hview
    refine ⟨hbase, hquote, mul_eq_mul_left_iff.1 h.limitPrice.symm,
      mul_eq_mul_left_iff.1 h.openQty.symm,
      mul_eq_mul_left_iff.1 (Option.some.inj h.originalQty).symm, ?_⟩
    exact (getOpenOrders_ok_iff hB hK hc hshown hsizes hfound ha).1 ⟨vs, h.listed⟩
  · have hprice := mul_eq_mul_left_iff.2 h.price
    have hqty := mul_eq_mul_left_iff.2 h.qty
    have horig := mul_eq_mul_left_iff.2 h.size
    obtain ⟨vs, hvs⟩ := (getOpenOrders_ok_iff hB hK hc hshown hsizes hfound ha).2 h.records
    refine ⟨nativeView m x i, vs, ?_, hvs,
      fun w => mem_getOpenOrders_iff hB hK hc hfound hx ha hi hvs, rfl, rfl, rfl, ?_⟩
    · refine (getOrder_eq_ok hfound hget ha hi).2 ⟨h.base, h.quote, orderToView_eq_ok.2 ?_⟩
      rw [← hprice, ← hqty, ← horig]
      exact ⟨hsize, hshows.price, hshows.qty, rfl⟩
    · rcases x.side with _ | _
      · have hvolume : x.openQtyLots * x.limitPriceLots * m.quoteToken.lotSize *
            m.baseToken.lotSize = x.openQtyLots * m.baseToken.lotSize *
              (x.limitPriceLots * m.quoteToken.lotSize) := by ring
        exact congrArg (· / m.denom) hvolume
      · rfl

/-- A market in which a lot of `btc` is one unit without decimals, and a lot of `usd`
    is 10 units with one decimal.  Alice asks 20 `usd` for one `btc`. -/
def denominated : List Event := [Engine.register Engine.dao, Engine.register Engine.alice,
  .call (Engine.calling Engine.dao (10 ^ 22))
    (.createMarket ⟨"ft:btc.near", "ft:usd.near", 1, 10, 100, 50⟩),
  .resolve 0 (.ftMetadata (some 0)), .resolve 0 (.ftMetadata (some 1)),
  Engine.pay Engine.btc Engine.alice 1000, .call (Engine.calling Engine.alice 0)
    (.newOrder Engine.btcUsd (Engine.order .sell .limit 20 100 none))]

/-- There the two views of Alice's order agree. -/
theorem order_views_denominated : ∃ m x a i v vs,
    (Engine.run denominated).contract.markets.lookup Engine.btcUsd = some m ∧
    x ∈ Engine.sdk.orders m.orderbook ∧
    (Engine.run denominated).contract.accounts.lookup x.ownerId = some a ∧
    ViewsAgree Engine.sdk (Engine.run denominated).contract Engine.btcUsd m x i v vs := by
  have hmarket : ((Engine.run denominated).contract.markets.lookup Engine.btcUsd).map (fun m =>
      (m.baseToken, m.quoteToken, (Engine.sdk.orders m.orderbook).map OpenLimitOrder.ownerId)) =
      some (⟨.fungibleToken Engine.btc, 1, 0⟩, ⟨.fungibleToken Engine.usd, 10, 1⟩,
        [Engine.alice]) := by
    decide +kernel
  have hlist : Engine.stoppedBy (getOpenOrders Engine.sdk (Engine.run denominated).contract
      Engine.btcUsd Engine.alice) = none := by
    decide +kernel
  obtain ⟨m, hm, heq⟩ := Option.map_eq_some_iff.1 hmarket
  obtain ⟨hbase, heq⟩ := Prod.mk.inj heq
  obtain ⟨hquote, howners⟩ := Prod.mk.inj heq
  obtain ⟨x, hx, howner⟩ : ∃ x ∈ Engine.sdk.orders m.orderbook, x.ownerId = Engine.alice := by
    rw [← List.mem_map, howners]
    exact List.mem_singleton_self _
  have hreach : System.Reach Engine.sdk (fun _ ev => ev.AmountsTyped) (Engine.run denominated) :=
    Engine.reach_run fun e he _ => (by decide : ∀ e ∈ denominated, e.AmountsTyped) e he
  obtain ⟨a, i, ha, -, hiff⟩ := order_views_iff Engine.bookLaws Engine.keysLaw
    hreach hm hx
  have hdenom : m.denom = 1 := by rw [Market.denom, hbase, pow_zero]
  -- Alice's list returns, so it stops at no record
  have hrecords := (getOpenOrders_ok_iff Engine.bookLaws Engine.keysLaw
    (booksOk_of_reach Engine.bookLaws hreach)
    (shown_of_reach Engine.bookLaws (fun _ _ h => h.typed) hreach)
    (sizesFit_of_reach Engine.bookLaws Engine.keysLaw hreach) hm
    (howner ▸ ha)).1 (Engine.eq_ok_of_stoppedBy hlist)
  obtain ⟨v, vs, hviews⟩ := hiff.2 ⟨by rw [hdenom]; decide, by rw [hquote]; decide,
    .inl (by rw [hquote]; rfl), .inl (by rw [hdenom, hbase]), .inl (by rw [hdenom, hbase]),
    hrecords⟩
  exact ⟨m, x, a, i, v, vs, hm, hx, ha, hviews⟩

/-- In the market of the other runs, with one decimal for lots of one `btc`, Alice's
    1000 `btc` are 10000 to `get_order`. -/
theorem order_views_differ : ∃ s,
    System.Reach Engine.sdk (fun _ ev => ev.AmountsTyped) s ∧
    (s.contract.markets.lookup Engine.btcUsd).map (fun m => (Engine.sdk.orders m.orderbook).map
        fun x => (x.id, x.ownerId, x.openQtyLots * m.baseToken.lotSize)) =
      some [(1, Engine.alice, 1000)] ∧
    getOrder Engine.sdk s.contract Engine.btcUsd 1 =
      .ok (some ⟨1, 20, 10000, some 10000, .sell, some 0, none⟩) ∧
    getOpenOrders Engine.sdk s.contract Engine.btcUsd Engine.alice =
      .ok [⟨1, 20, 1000, some 1000, .sell, some 0, none⟩] := by
  refine ⟨Engine.run Engine.asked, Engine.reach_run ?_, ?_, Engine.eq_ok_of_toOption ?_,
    Engine.eq_ok_of_toOption ?_⟩
  · exact fun e he _ => (by decide : ∀ e ∈ Engine.asked, e.AmountsTyped) e he
  all_goals decide +kernel

end TonicDex
