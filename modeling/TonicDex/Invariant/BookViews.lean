/-
  The views of a book and of the accounts.

  `get_orderbook` starts from the book, `get_open_orders` from the records of an
  account.  In every run the book shows of each account just the orders that the
  account lists (`book_lists_accounts`), and `get_market` counts what all
  accounts together record (`total_orders_eq`).
-/
import TonicDex.Invariant.OrderViews

namespace TonicDex

variable {B : Type} {S : Sdk B} {takeDepth : TakeDepth B} {c : Contract B} {mid : MarketId}
  {m : Market B} {x : OpenLimitOrder} {id : AccountId} {a : Account} {o : OrderId} {i : OrderInfo}
  {side : Side} {depth : ℕ}

/-! ## Books -/

def OrderbookView.entries (v : OrderbookView) : Side → List L2OpenLimitOrderView
  | .buy => v.bids
  | .sell => v.asks

/-- The view with only those parts of its entries that are asked for. -/
def OrderbookView.only (showOwner showOrderId showClientId : Bool) (v : OrderbookView) :
    OrderbookView :=
  let hide := fun y : L2OpenLimitOrderView =>
    { y with
      owner := if showOwner then y.owner else none
      orderId := if showOrderId then y.orderId else none
      clientId := if showClientId then y.clientId else none }
  ⟨v.bids.map hide, v.asks.map hide⟩

/-- The orders of a side that are shown. -/
def shownOrders (takeDepth : TakeDepth B) (b : B) (depth : ℕ) (side : Side) :
    List OpenLimitOrder :=
  (takeDepth b side depth).flatMap Prod.snd

/-- The entry of an order, in the native amounts of its lots. -/
def Market.l2View (m : Market B) (showOwner showOrderId showClientId : Bool)
    (x : OpenLimitOrder) : L2OpenLimitOrderView :=
  ⟨x.limitPriceLots * m.quoteToken.lotSize, x.openQtyLots * m.baseToken.lotSize,
    if showOwner then some x.ownerId else none, if showOrderId then some x.id else none,
    if showClientId then x.clientId else none⟩

/-- The view of a book, in the native amounts of its lots. -/
def Market.bookView (takeDepth : TakeDepth B) (m : Market B) (depth : ℕ)
    (showOwner showOrderId showClientId : Bool) : OrderbookView :=
  ⟨(shownOrders takeDepth m.orderbook depth .buy).map
      (m.l2View showOwner showOrderId showClientId),
    (shownOrders takeDepth m.orderbook depth .sell).map
      (m.l2View showOwner showOrderId showClientId)⟩

theorem Market.entries_bookView {showOwner showOrderId showClientId : Bool} :
    (m.bookView takeDepth depth showOwner showOrderId showClientId).entries side =
      (shownOrders takeDepth m.orderbook depth side).map
        (m.l2View showOwner showOrderId showClientId) := by
  cases side with
  | _ => rfl

/-- All views are the one with everything, as far as it is asked for. -/
theorem Market.only_bookView (showOwner showOrderId showClientId : Bool) :
    (m.bookView takeDepth depth true true true).only showOwner showOrderId showClientId =
      m.bookView takeDepth depth showOwner showOrderId showClientId := by
  simp only [OrderbookView.only, bookView, List.map_map]
  rfl

theorem orderToL2View_eq {showOwner showOrderId showClientId : Bool} (h : m.Shows x) :
    orderToL2View x m.baseToken.lotSize m.quoteToken.lotSize showOwner showOrderId showClientId =
      .ok (m.l2View showOwner showOrderId showClientId x) := by
  have h1 : u128 (x.limitPriceLots * m.quoteToken.lotSize) = .ok _ :=
    Checked.fit_eq_ok.2 ⟨h.price, rfl⟩
  have h2 : u128 (x.openQtyLots * m.baseToken.lotSize) = .ok _ :=
    Checked.fit_eq_ok.2 ⟨h.qty, rfl⟩
  simp only [orderToL2View, h1, h2, Checked.ok_bind]
  rfl

theorem mem_orders_of_shown (hD : DepthLaw S takeDepth) {b : B}
    (hx : x ∈ shownOrders takeDepth b depth side) : x ∈ S.orders b := by
  obtain ⟨level, hlevel, hx⟩ := List.mem_flatMap.1 hx
  exact Sdk.mem_orders.2 ⟨side, hD b side depth level hlevel x hx⟩

/-- A book whose orders fit is shown, whatever is asked for. -/
theorem orderbookToView_eq (hD : DepthLaw S takeDepth) (hshown : OrdersShown S c)
    (hfound : c.markets.lookup mid = some m) (showOwner showOrderId showClientId : Bool) :
    orderbookToView takeDepth m.orderbook depth m.baseToken.lotSize m.quoteToken.lotSize showOwner
      showOrderId showClientId =
      .ok (m.bookView takeDepth depth showOwner showOrderId showClientId) := by
  have hside : ∀ side, ((takeDepth m.orderbook side depth).flatMap Prod.snd).mapM (fun o =>
      orderToL2View o m.baseToken.lotSize m.quoteToken.lotSize showOwner showOrderId
        showClientId) =
      .ok ((shownOrders takeDepth m.orderbook depth side).map
        (m.l2View showOwner showOrderId showClientId)) := by
    intro side
    refine Checked.mapM_eq_map ?_
    intro x hx
    exact orderToL2View_eq (hshown mid m x hfound (mem_orders_of_shown hD hx))
  simp only [orderbookToView, hside, Checked.ok_bind]
  rfl

theorem getOrderbook_eq (hD : DepthLaw S takeDepth) (hshown : OrdersShown S c)
    (hfound : c.markets.lookup mid = some m) (showOwner showOrderId showClientId : Option Bool) :
    getOrderbook takeDepth c mid depth showOwner showOrderId showClientId =
      .ok (some (m.bookView takeDepth depth (showOwner.getD false) (showOrderId.getD false)
        (showClientId.getD false))) := by
  have hget : c.internalGetMarket mid = some m := hfound
  simp only [getOrderbook, hget, Option.mapM_some, orderbookToView_eq hD hshown hfound]
  rfl

/-! ## Accounts -/

/-- What an account lists as one of its orders, as the book shows it. -/
def OpenLimitOrderView.inBook (owner : AccountId) (v : OpenLimitOrderView) :
    L2OpenLimitOrderView :=
  ⟨v.limitPrice, v.openQty, some owner, some v.id, v.clientId⟩

/-- The ids that an account lists are different. -/
theorem openOrdersIter_nodup (hK : KeysLaw S) (a : Account) (mid : MarketId) :
    ((a.openOrdersIter S mid).map Prod.fst).Nodup := by
  unfold Account.openOrdersIter
  rcases a.openOrders.lookup mid with _ | os
  · exact List.nodup_nil
  have hkeys : ((S.intoKeys os).filterMap fun o => (os.lookup o).map (o, ·)).map Prod.fst =
      (S.intoKeys os).filter fun o => (os.lookup o).isSome := by
    rw [List.map_filterMap, ← List.filterMap_eq_filter]
    refine List.filterMap_congr ?_
    intro o _
    cases ho : os.lookup o <;> simp [ho, Option.guard]
  rw [hkeys]
  exact ((hK os).nodup_iff.2 os.nodupKeys).filter _

variable {vs : List OpenLimitOrderView}

/-- What `get_open_orders` lists are the resting orders of the account. -/
theorem mem_getOpenOrders (hB : BookLaws S) (hK : KeysLaw S) (hc : BooksOk S c)
    (hi : Indexed S c) (hfound : c.markets.lookup mid = some m)
    (ha : c.accounts.lookup id = some a) (h : getOpenOrders S c mid id = .ok vs)
    {v : OpenLimitOrderView} : v ∈ vs ↔ ∃ x ∈ S.orders m.orderbook, x.ownerId = id ∧
      ∃ i, a.getOrderInfo mid x.id = some i ∧ v = nativeView m x i := by
  constructor
  · intro hv
    rw [getOpenOrders_eq hfound ha] at h
    obtain ⟨⟨o, i⟩, hoi, hview⟩ := (Checked.mem_of_mapM h).1 hv
    obtain ⟨x, hx, rfl, -, -, rfl⟩ := (openOrderView_eq_ok hB hc hfound).1 hview
    have hrec := (mem_openOrdersIter_iff hK).1 hoi
    rw [← accountOf_of_lookup ha] at hrec
    obtain ⟨m', y, hm', hy, hid, hown, -⟩ := hi.recorded id mid x.id i hrec
    cases hfound.symm.trans hm'
    obtain rfl : y = x := List.inj_on_of_nodup_map (hc mid m hfound).nodup hy hx hid
    exact ⟨y, hx, hown, i, accountOf_of_lookup ha ▸ hrec, rfl⟩
  · rintro ⟨x, hx, rfl, i, hrec, rfl⟩
    exact ((mem_getOpenOrders_iff hB hK hc hfound hx ha hrec h).2 rfl).1

/-- It lists no order twice. -/
theorem getOpenOrders_nodup (hB : BookLaws S) (hK : KeysLaw S) (hc : BooksOk S c)
    (hfound : c.markets.lookup mid = some m) (ha : c.accounts.lookup id = some a)
    (h : getOpenOrders S c mid id = .ok vs) : (vs.map OpenLimitOrderView.id).Nodup := by
  rw [getOpenOrders_eq hfound ha, Checked.mapM_eq_ok] at h
  have hids : List.Forall₂ (· = ·) ((a.openOrdersIter S mid).map Prod.fst)
      (vs.map OpenLimitOrderView.id) := by
    rw [List.forall₂_map_left_iff, List.forall₂_map_right_iff]
    refine h.imp ?_
    rintro ⟨o, i⟩ v hview
    obtain ⟨x, -, rfl, -, -, rfl⟩ := (openOrderView_eq_ok hB hc hfound).1 hview
    rfl
  rw [List.forall₂_eq_eq_eq] at hids
  rw [← hids]
  exact openOrdersIter_nodup hK a mid

theorem inBook_nodup (h : (vs.map OpenLimitOrderView.id).Nodup) :
    (vs.map (OpenLimitOrderView.inBook id)).Nodup := by
  refine List.Nodup.of_map L2OpenLimitOrderView.orderId ?_
  have hids : (vs.map (OpenLimitOrderView.inBook id)).map L2OpenLimitOrderView.orderId =
      (vs.map OpenLimitOrderView.id).map some := by
    rw [List.map_map, List.map_map]
    rfl
  rw [hids]
  exact h.map (Option.some_injective _)

theorem l2View_nodup {xs : List OpenLimitOrder} (h : (xs.map OpenLimitOrder.id).Nodup) :
    (xs.map (m.l2View true true true)).Nodup := by
  refine List.Nodup.of_map L2OpenLimitOrderView.orderId ?_
  have hids : (xs.map (m.l2View true true true)).map L2OpenLimitOrderView.orderId =
      (xs.map OpenLimitOrder.id).map some := by
    rw [List.map_map, List.map_map]
    rfl
  rw [hids]
  exact h.map (Option.some_injective _)

theorem mem_resting_iff {seq : ℕ} (hm : MarketOk S seq m) :
    x ∈ S.resting m.orderbook side ↔ x ∈ S.orders m.orderbook ∧ x.side = side := by
  constructor
  · intro hx
    exact ⟨Sdk.mem_orders.2 ⟨side, hx⟩, hm.side side x hx⟩
  · rintro ⟨hx, rfl⟩
    obtain ⟨side, hx⟩ := Sdk.mem_orders.1 hx
    rw [hm.side side x hx]
    exact hx

/-- An account lists of each side what rests there for it. -/
theorem getOpenOrders_perm (hB : BookLaws S) (hK : KeysLaw S) (hc : BooksOk S c)
    (hi : Indexed S c) (hfound : c.markets.lookup mid = some m)
    (ha : c.accounts.lookup id = some a) (h : getOpenOrders S c mid id = .ok vs) (side : Side) :
    ((vs.filter (·.side = side)).map (OpenLimitOrderView.inBook id)).Perm
      (((S.resting m.orderbook side).filter (·.ownerId = id)).map (m.l2View true true true)) := by
  have hm := hc mid m hfound
  refine (List.perm_ext_iff_of_nodup ?_ ?_).2 ?_
  · refine inBook_nodup (List.Nodup.sublist ?_ (getOpenOrders_nodup hB hK hc hfound ha h))
    exact List.filter_sublist.map _
  · refine l2View_nodup (List.Nodup.sublist ?_ (Sdk.resting_nodup hm.nodup side))
    exact List.filter_sublist.map _
  intro y
  simp only [List.mem_map, List.mem_filter, decide_eq_true_eq,
    mem_getOpenOrders hB hK hc hi hfound ha h, mem_resting_iff hm]
  constructor
  · rintro ⟨v, ⟨⟨x, hx, rfl, i, hrec, rfl⟩, hside⟩, rfl⟩
    exact ⟨x, ⟨⟨hx, hside⟩, rfl⟩, rfl⟩
  · rintro ⟨x, ⟨⟨hx, hside⟩, rfl⟩, rfl⟩
    obtain ⟨i, hrec⟩ := hi.rests mid m x hfound hx
    rw [accountOf_of_lookup ha] at hrec
    exact ⟨nativeView m x i, ⟨⟨x, hx, rfl, i, hrec, rfl⟩, hside⟩, rfl⟩

/-! ## Counts -/

/-- An account records as many orders in a market as rest there for it. -/
theorem Indexed.ordersIn_eq (h : Indexed S c) (hc : BooksOk S c)
    (hfound : c.markets.lookup mid = some m) (id : AccountId) :
    (c.accountOf id).ordersIn mid =
      ((S.orders m.orderbook).filter (·.ownerId = id)).length := by
  have hmem : ∀ o, (∃ i, (c.accountOf id).getOrderInfo mid o = some i) ↔
      o ∈ ((S.orders m.orderbook).filter (·.ownerId = id)).map OpenLimitOrder.id := by
    intro o
    simp only [List.mem_map, List.mem_filter, decide_eq_true_eq]
    constructor
    · rintro ⟨i, hi⟩
      obtain ⟨m', x, hm', hx, hid, hown, -⟩ := h.recorded id mid o i hi
      cases hfound.symm.trans hm'
      exact ⟨x, ⟨hx, hown⟩, hid⟩
    · rintro ⟨x, ⟨hx, rfl⟩, rfl⟩
      exact h.rests mid m x hfound hx
  rw [← List.length_map (f := OpenLimitOrder.id)]
  unfold Account.getOrderInfo at hmem
  unfold Account.ordersIn
  rcases hos : (c.accountOf id).openOrders.lookup mid with _ | os
  · rw [Option.elim_none, eq_comm, List.length_eq_zero_iff, List.eq_nil_iff_forall_not_mem]
    intro o ho
    obtain ⟨i, hi⟩ := (hmem o).2 ho
    rw [hos] at hi
    cases hi
  · refine List.Perm.length_eq ((List.perm_ext_iff_of_nodup os.nodupKeys ?_).2 ?_)
    · exact List.Nodup.sublist (List.filter_sublist.map _) (hc mid m hfound).nodup
    · intro o
      rw [← hmem, hos]
      exact HMap.mem_keys_iff os o

/-- All accounts together record as many orders as rest. -/
theorem Indexed.total_ordersIn (h : Indexed S c) (hc : BooksOk S c)
    (hfound : c.markets.lookup mid = some m) :
    (c.accounts.total fun _ a => a.ordersIn mid) = (S.orders m.orderbook).length := by
  have hcount : (c.accounts.total fun _ a => a.ordersIn mid) =
      c.accounts.total fun id _ => ((S.orders m.orderbook).filter (·.ownerId = id)).length := by
    refine HMap.total_congr ?_
    intro id a ha
    rw [← accountOf_of_lookup ha]
    exact h.ordersIn_eq hc hfound id
  rw [hcount]
  refine HMap.total_filter _ OpenLimitOrder.ownerId ?_
  intro x hx
  obtain ⟨i, hi⟩ := h.rests mid m x hfound hx
  rcases ha : c.accounts.lookup x.ownerId with _ | a
  · rw [Contract.accountOf, ha] at hi
    cases hi
  · exact (HMap.mem_keys_iff _ _).2 ⟨a, ha⟩

theorem Market.totalOrders_eq_ok {n : ℕ} : m.totalOrders S = .ok n ↔
    (S.orders m.orderbook).length < 2 ^ 32 ∧ n = (S.orders m.orderbook).length := by
  simp only [Market.totalOrders, Checked.bind_eq_ok, Checked.fit_eq_ok, Sdk.orders,
    List.length_append]
  constructor
  · rintro ⟨_, ⟨-, rfl⟩, _, ⟨-, rfl⟩, hfits, rfl⟩
    omega
  · rintro ⟨hfits, rfl⟩
    exact ⟨_, ⟨by omega, rfl⟩, _, ⟨by omega, rfl⟩, by omega, by omega⟩

/-! ## Runs -/

/-- The amounts of orders are 128-bit numbers, and no market with orders is deleted. -/
def TypedAndKept (S : Sdk B) (s : System B) (ev : Event) : Prop :=
  ev.AmountsTyped ∧ DeletesEmpty S s ev

/-- **The book shows what the accounts list.**  In every run, `get_orderbook`
    returns for any depth, and whatever is to be shown of an entry is what is asked
    for of one and the same view; an order that this shows is that of an account which
    lists it; and of a side with fewer price levels than asked for, it shows of each
    account exactly what that account's `get_open_orders`, which returns, lists of the
    side. -/
theorem book_lists_accounts (hB : BookLaws S) (hK : KeysLaw S)
    (hD : DepthLaw S takeDepth) (hW : WholeLaw S takeDepth) {s : System B}
    (hs : System.Reach S (TypedAndKept S) s) (hfound : s.contract.markets.lookup mid = some m)
    (depth : ℕ) :
    ∃ v, getOrderbook takeDepth s.contract mid depth (some true) (some true) (some true) =
        .ok (some v) ∧
      (∀ showOwner showOrderId showClientId : Option Bool,
        getOrderbook takeDepth s.contract mid depth showOwner showOrderId showClientId =
          .ok (some (v.only (showOwner.getD false) (showOrderId.getD false)
            (showClientId.getD false)))) ∧
      (∀ side, ∀ y ∈ v.entries side, ∃ id a vs, y.owner = some id ∧
        s.contract.accounts.lookup id = some a ∧ getOpenOrders S s.contract mid id = .ok vs ∧
        ∃ w ∈ vs, w.side = side ∧ w.inBook id = y) ∧
      ∀ side, (takeDepth m.orderbook side depth).length < depth → ∀ id a,
        s.contract.accounts.lookup id = some a →
        ∃ vs, getOpenOrders S s.contract mid id = .ok vs ∧
          ((vs.filter (·.side = side)).map (OpenLimitOrderView.inBook id)).Perm
            ((v.entries side).filter (·.owner = some id)) := by
  have htyped := Runs.Reach.imp (fun _ _ _ h => h.1) hs
  have hc := booksOk_of_reach hB hs
  have hi := indexed_of_reach hB hK (Runs.Reach.imp (fun _ _ _ h => h.2) hs)
  have hshown := shown_of_reach hB (fun _ _ h => Event.AmountsTyped.typed h) htyped
  have hsizes := sizesFit_of_reach hB hK htyped
  have hlists : ∀ id a, s.contract.accounts.lookup id = some a →
      ∃ vs, getOpenOrders S s.contract mid id = .ok vs := by
    intro id a ha
    refine (getOpenOrders_ok_iff hB hK hc hshown hsizes hfound ha).2 ?_
    intro o i hrec
    rw [← accountOf_of_lookup ha] at hrec
    obtain ⟨m', x, hm', hx, rfl, -⟩ := hi.recorded id mid o i hrec
    cases hfound.symm.trans hm'
    exact List.mem_map_of_mem hx
  refine ⟨_, getOrderbook_eq hD hshown hfound _ _ _, ?_, ?_, ?_⟩
  · intro f g h
    rw [getOrderbook_eq hD hshown hfound f g h, ← Market.only_bookView]
    rfl
  · intro side y hy
    rw [Market.entries_bookView] at hy
    obtain ⟨x, hx, rfl⟩ := List.mem_map.1 hy
    obtain ⟨level, hlevel, hx⟩ := List.mem_flatMap.1 hx
    have hrest := hD m.orderbook side depth level hlevel x hx
    obtain ⟨horders, hside⟩ := (mem_resting_iff (hc mid m hfound)).1 hrest
    obtain ⟨i, hrec⟩ := hi.rests mid m x hfound horders
    rcases ha : s.contract.accounts.lookup x.ownerId with _ | a
    · rw [Contract.accountOf, ha] at hrec
      cases hrec
    rw [accountOf_of_lookup ha] at hrec
    obtain ⟨vs, hvs⟩ := hlists _ a ha
    refine ⟨x.ownerId, a, vs, rfl, ha, hvs, nativeView m x i, ?_, hside, rfl⟩
    exact (mem_getOpenOrders hB hK hc hi hfound ha hvs).2 ⟨x, horders, rfl, i, hrec, rfl⟩
  · intro side hfew id a ha
    obtain ⟨vs, hvs⟩ := hlists id a ha
    refine ⟨vs, hvs, (getOpenOrders_perm hB hK hc hi hfound ha hvs side).trans ?_⟩
    have hall := (((hW m.orderbook side depth hfew).symm.filter (·.ownerId = id)).map
      (m.l2View true true true))
    refine hall.trans (List.Perm.of_eq ?_)
    rw [Market.entries_bookView, List.filter_map]
    refine congrArg _ (List.filter_congr ?_)
    intro x _
    exact decide_eq_decide.2 Option.some_inj.symm

open Engine

theorem typedAndKept_asked : System.Reach sdk (TypedAndKept sdk) (run asked) := by
  refine reach_run fun e he s => ⟨(by decide : ∀ e ∈ asked, e.AmountsTyped) e he, ?_⟩
  intro env mid m heq
  exact absurd heq ((mem_asked he).1 env mid)

/-- While Alice's order rests. -/
theorem book_lists_accounts_asked : ∃ v vs,
    getOrderbook Engine.takeDepth (run asked).contract btcUsd 8 (some true) (some true)
      (some true) = .ok (some v) ∧
    getOpenOrders sdk (run asked).contract btcUsd alice = .ok vs ∧
    ((vs.filter (·.side = .sell)).map (OpenLimitOrderView.inBook alice)).Perm
      ((v.entries .sell).filter (·.owner = some alice)) := by
  have hlevels : ((run asked).contract.markets.lookup btcUsd).map
      (fun m => (Engine.takeDepth m.orderbook .sell 8).length) = some 1 := by
    decide +kernel
  obtain ⟨m, hm, hlen⟩ := Option.map_eq_some_iff.1 hlevels
  obtain ⟨a, ha⟩ : ∃ a, (run asked).contract.accounts.lookup alice = some a :=
    Option.isSome_iff_exists.1 (by decide +kernel)
  obtain ⟨v, hv, -, -, hall⟩ := book_lists_accounts bookLaws keysLaw depthLaw wholeLaw
    typedAndKept_asked hm 8
  obtain ⟨vs, hvs, hperm⟩ := hall .sell (by rw [hlen]; decide) alice a ha
  exact ⟨v, vs, hv, hvs, hperm⟩

/-- **`get_market` counts the open orders of all accounts.**  In every run it
    returns, asked for the total, if and only if that fits in 32 bits; and the total
    is that of the orders which the accounts record in the market. -/
theorem total_orders_eq (hB : BookLaws S) (hK : KeysLaw S)
    (hD : DepthLaw S takeDepth) {s : System B} (hs : System.Reach S (TypedAndKept S) s)
    (hfound : s.contract.markets.lookup mid = some m) :
    ((∃ v, getMarket takeDepth S s.contract mid (some true) = .ok (some v)) ↔
      (s.contract.accounts.total fun _ a => a.ordersIn mid) < 2 ^ 32) ∧
    ∀ v, getMarket takeDepth S s.contract mid (some true) = .ok (some v) →
      v.totalOrders = some (s.contract.accounts.total fun _ a => a.ordersIn mid) := by
  have hc := booksOk_of_reach hB hs
  have hi := indexed_of_reach hB hK (Runs.Reach.imp (fun _ _ _ h => h.2) hs)
  have hshown := shown_of_reach hB (fun _ _ h => h.1.typed) hs
  have hget : s.contract.internalGetMarket mid = some m := hfound
  have hview : ∀ v, getMarket takeDepth S s.contract mid (some true) = .ok (some v) ↔
      ∃ n, m.totalOrders S = .ok n ∧ v = ⟨mid, m.baseToken, m.quoteToken,
        m.bookView takeDepth 8 false false false, m.makerRebateBaseRate, m.takerFeeBaseRate,
        m.feesAccrued, m.maxOrdersPerAccount, some n, m.state⟩ := by
    intro v
    simp only [getMarket, hget, Option.mapM_some, Option.getD_some, Market.toView,
      orderbookToView_eq hD hshown hfound, Checked.ok_bind, if_true, Checked.map_eq_ok,
      Checked.bind_eq_ok, Checked.pure_eq_ok, Option.some.injEq]
    constructor
    · rintro ⟨_, ⟨_, ⟨n, hn, rfl⟩, rfl⟩, rfl⟩
      exact ⟨n, hn, rfl⟩
    · rintro ⟨n, hn, rfl⟩
      exact ⟨_, ⟨_, ⟨n, hn, rfl⟩, rfl⟩, rfl⟩
  rw [hi.total_ordersIn hc hfound]
  constructor
  · constructor
    · rintro ⟨v, hv⟩
      obtain ⟨n, hn, -⟩ := (hview v).1 hv
      exact (Market.totalOrders_eq_ok.1 hn).1
    · intro hfits
      exact ⟨_, (hview _).2 ⟨_, Market.totalOrders_eq_ok.2 ⟨hfits, rfl⟩, rfl⟩⟩
  · intro v hv
    obtain ⟨n, hn, rfl⟩ := (hview v).1 hv
    rw [(Market.totalOrders_eq_ok.1 hn).2]

theorem total_orders_eq_asked : ∃ v,
    getMarket Engine.takeDepth sdk (run asked).contract btcUsd (some true) = .ok (some v) ∧
      v.totalOrders = some ((run asked).contract.accounts.total fun _ a => a.ordersIn btcUsd) := by
  obtain ⟨m, hm, -⟩ := market_asked
  obtain ⟨hiff, htotal⟩ :=
    total_orders_eq bookLaws keysLaw depthLaw typedAndKept_asked hm
  obtain ⟨v, hv⟩ := hiff.2 (by decide +kernel)
  exact ⟨v, hv, htotal v hv⟩

end TonicDex
