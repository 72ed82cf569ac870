/-
  The list of market ids.

  The contract keeps the ids of all markets in a vector beside the map of
  markets.  In every reachable state the vector holds each key of the map once
  (`Listed`): creation appends a new id, and deletion puts the last id in the
  place of the removed one.  So the pages of `list_markets`, one after the
  other, show every market once (`market_enumeration`).
-/
import TonicDex.Engine.Library
import TonicDex.Invariant.Shown
import TonicDex.Model.Views
import TonicDex.Spec.Listing

namespace TonicDex

variable {B : Type} {S : Sdk B} {c c' : Contract B} {mid : MarketId} {m : Market B}

/-! ## The vector and the map -/

open List in
/-- The last element takes the place of the removed one, and nothing else changes. -/
theorem swapRemove_perm {α : Type} {l : List α} {i : ℕ} {x : α} (h : l[i]? = some x) :
    (x :: swapRemove l i).Perm l := by
  rcases l.eq_nil_or_concat' with rfl | ⟨init, last, rfl⟩
  · simp at h
  unfold swapRemove
  by_cases hi : i + 1 = (init ++ [last]).length
  · have hlast : last = x := by
      obtain rfl : i = init.length := by simpa using hi
      simpa using h
    rw [if_pos hi, List.dropLast_concat, hlast]
    exact (List.perm_append_singleton x init).symm
  · have hlt : i < init.length := by
      have := (List.getElem?_eq_some_iff.1 h).1
      simp only [List.length_append, List.length_singleton] at this hi
      omega
    rw [List.getElem?_append_left hlt, List.getElem?_eq_getElem hlt, Option.some.injEq] at h
    have hsplit : init.take i ++ x :: init.drop (i + 1) = init := by
      rw [← h, ← List.drop_eq_getElem_cons hlt, List.take_append_drop]
    have hset : (init ++ [last]).set i last =
        (init.take i ++ last :: init.drop (i + 1)) ++ [last] := by
      rw [List.set_append_left _ _ hlt, List.set_eq_take_append_cons_drop, if_pos hlt]
    simp only [if_neg hi, List.getLast?_concat, hset, List.dropLast_concat]
    -- both are the two elements in front of the rest of `init`
    calc x :: (init.take i ++ last :: init.drop (i + 1))
        ~ x :: last :: (init.take i ++ init.drop (i + 1)) := perm_middle.cons x
      _ ~ last :: x :: (init.take i ++ init.drop (i + 1)) := .swap ..
      _ ~ last :: (init.take i ++ x :: init.drop (i + 1)) := perm_middle.symm.cons last
      _ ~ init ++ [last] := by
        rw [hsplit]
        exact (perm_append_singleton last init).symm

/-- The vector holds the ids of all markets, each once. -/
structure Listed (c : Contract B) : Prop where
  nodup : c.marketIterMap.Nodup
  exact : ∀ mid, mid ∈ c.marketIterMap ↔ ∃ m, c.markets.lookup mid = some m

theorem Listed.of_same (h : Listed c) (hs : SameList c c') : Listed c' where
  nodup := hs.ids ▸ h.nodup
  exact mid := by
    rw [hs.ids, h.exact]
    constructor
    · rintro ⟨m, hm⟩
      obtain ⟨m', hm', -⟩ := hs.kept mid m hm
      exact ⟨m', hm'⟩
    · rintro ⟨m', hm'⟩
      obtain ⟨m, hm, -⟩ := hs.origin hm'
      exact ⟨m, hm⟩

theorem Listed.list (h : Listed c) (hnew : c.markets.lookup mid = none) :
    Listed (c.list mid m) := by
  have hmid : mid ∉ c.marketIterMap := by
    intro hmem
    obtain ⟨m', hm'⟩ := (h.exact mid).1 hmem
    rw [hnew] at hm'
    cases hm'
  refine ⟨?_, fun mid' => ?_⟩
  · show (c.marketIterMap ++ [mid]).Nodup
    rw [(List.perm_append_singleton mid _).nodup_iff, List.nodup_cons]
    exact ⟨hmid, h.nodup⟩
  · show mid' ∈ c.marketIterMap ++ [mid] ↔ ∃ m', (c.markets.insert mid m).lookup mid' = some m'
    rw [List.mem_append, List.mem_singleton, h.exact, HMap.lookup_insert_eq]
    by_cases hid : mid' = mid
    · simp [hid]
    · simp [hid]

theorem Listed.unlist (h : Listed c) {pos : ℕ} (hpos : c.marketIterMap[pos]? = some mid) :
    Listed (c.unlist mid pos) := by
  have hperm := swapRemove_perm hpos
  have hnodup := hperm.nodup_iff.2 h.nodup
  rw [List.nodup_cons] at hnodup
  refine ⟨hnodup.2, fun mid' => ?_⟩
  show mid' ∈ swapRemove c.marketIterMap pos ↔ ∃ m', (c.markets.erase mid).lookup mid' = some m'
  have hmem : mid' ∈ c.marketIterMap ↔ mid' = mid ∨ mid' ∈ swapRemove c.marketIterMap pos := by
    rw [← hperm.mem_iff, List.mem_cons]
  rw [HMap.lookup_erase_eq]
  by_cases hid : mid' = mid
  · subst hid
    simp [hnodup.1]
  · simp only [hid, false_or] at hmem
    rw [if_neg hid, ← h.exact, hmem]

/-- **In every reachable state the vector lists the markets.** -/
theorem listed_of_reach (hB : BookLaws S) {ok : System B → Event → Prop}
    {s : System B} (hs : System.Reach S ok s) : Listed s.contract := by
  refine hs.invariant (P := fun s => Listed s.contract) ?_ fun s ev hr _ h => ?_
  · rintro s ⟨id, rfl⟩
    refine ⟨List.nodup_nil, fun mid => ?_⟩
    show mid ∈ ([] : List MarketId) ↔ ∃ m, (∅ : HMap MarketId (Market B)).lookup mid = some m
    simp
  · have hcase := step_relisted hB s ev (booksOk_of_reach hB hr)
    generalize (System.step S s ev).contract = c' at hcase
    cases hcase with
    | same hsame => exact h.of_same hsame
    | created hm => exact h.list hm.new
    | deleted _ hpos => exact h.unlist hpos

/-! ## Pages -/

/-- The pages of a list, one after the other, are its beginning. -/
theorem flatten_pages {α : Type} (l : List α) (k n : ℕ) :
    ((List.range n).map fun i => (l.drop (i * k)).take k).flatten = l.take (n * k) := by
  induction n with
  | zero => simp
  | succ n ih =>
    rw [List.range_succ, List.map_append, List.flatten_append, ih, Nat.succ_mul, List.take_add]
    simp

variable {takeDepth : TakeDepth B}

/-- `v` shows the market `mid`. -/
def Views (takeDepth : TakeDepth B) (S : Sdk B) (c : Contract B) (mid : MarketId)
    (v : MarketView) : Prop :=
  ∃ m, c.markets.lookup mid = some m ∧ m.toView takeDepth S mid 8 false = .ok v

theorem Views.id_eq {v : MarketView} (h : Views takeDepth S c mid v) : v.id = mid := by
  obtain ⟨m, -, hv⟩ := h
  simp only [Market.toView, Checked.bind_eq_ok] at hv
  obtain ⟨_, -, _, -, rfl⟩ := hv
  rfl

theorem Views.getMarket_eq {v : MarketView} (h : Views takeDepth S c mid v) :
    getMarket takeDepth S c mid none = .ok (some v) := by
  obtain ⟨m, hm, hv⟩ := h
  have hget : c.internalGetMarket mid = some m := hm
  rw [getMarket, hget, Option.mapM_some, Option.getD_none, hv]
  rfl

/-- A side of a book whose orders show what fits has a view. -/
theorem orderToL2View_total (hdepth : DepthLaw S takeDepth)
    (hshown : ∀ x ∈ S.orders m.orderbook, m.Shows x) (side : Side) (depth : ℕ) :
    ∃ vs, ((takeDepth m.orderbook side depth).flatMap Prod.snd).mapM
      (fun o => orderToL2View o m.baseToken.lotSize m.quoteToken.lotSize false false false) =
        .ok vs := by
  refine Checked.mapM_total fun o ho => ?_
  obtain ⟨level, hlevel, ho⟩ := List.mem_flatMap.1 ho
  have hshows := hshown o (Sdk.mem_orders.2 ⟨side, hdepth _ _ _ level hlevel o ho⟩)
  simp only [orderToL2View, Checked.fit_of_lt hshows.price, Checked.fit_of_lt hshows.qty,
    Checked.ok_bind]
  exact ⟨_, rfl⟩

theorem Market.toView_total (hdepth : DepthLaw S takeDepth)
    (hshown : ∀ x ∈ S.orders m.orderbook, m.Shows x) (mid : MarketId) :
    ∃ v, m.toView takeDepth S mid 8 false = .ok v := by
  obtain ⟨bids, hbids⟩ := orderToL2View_total hdepth hshown .buy 8
  obtain ⟨asks, hasks⟩ := orderToL2View_total hdepth hshown .sell 8
  rw [Market.toView, orderbookToView, hbids, Checked.ok_bind, hasks]
  exact ⟨_, rfl⟩

theorem listedMarket_eq_ok {i : ℕ} {v : MarketView} : listedMarket takeDepth S c i = .ok v ↔
    ∃ mid, c.marketIterMap[i]? = some mid ∧ Views takeDepth S c mid v := by
  simp only [listedMarket, Checked.bind_eq_ok, Checked.expect_eq_ok,
    Contract.internalUnwrapMarket_eq_ok, Views]

/-- What is found at consecutive places is a part of the list. -/
theorem forall₂_slice {α β : Type} {R : α → β → Prop} {l : List α} {n : ℕ} :
    ∀ {start : ℕ} {bs : List β},
      List.Forall₂ (fun i b => ∃ a, l[i]? = some a ∧ R a b) (List.range' start n) bs →
        List.Forall₂ R ((l.drop start).take n) bs := by
  induction n with
  | zero =>
    intro start bs h
    cases h
    rw [List.take_zero]
    exact .nil
  | succ n ih =>
    intro start bs h
    rw [List.range'_succ] at h
    rcases h with _ | ⟨⟨a, ha, hr⟩, hrest⟩
    obtain ⟨hlt, rfl⟩ := List.getElem?_eq_some_iff.1 ha
    rw [List.drop_eq_getElem_cons hlt, List.take_succ_cons]
    exact .cons hr (ih hrest)

/-- A page shows the markets whose ids stand in its part of the vector. -/
theorem listMarkets_ok {start limit : ℕ} {views : List MarketView}
    (h : listMarkets takeDepth S c start limit = .ok views) :
    List.Forall₂ (Views takeDepth S c) ((c.marketIterMap.drop start).take limit) views := by
  simp only [listMarkets, Checked.bind_eq_ok, Checked.fit_eq_ok] at h
  obtain ⟨_, ⟨-, rfl⟩, h⟩ := h
  have hslice : (c.marketIterMap.drop start).take limit = (c.marketIterMap.drop start).take
      (min (start + limit) c.marketIterMap.length - start) := by
    rw [List.take_eq_take_iff, List.length_drop]
    omega
  rw [hslice]
  refine forall₂_slice ((Checked.mapM_eq_ok.1 h).imp fun i v hv => ?_)
  exact listedMarket_eq_ok.1 hv

/-- **A page is shown**, if the index behind it fits in 64 bits. -/
theorem listMarkets_total (hdepth : DepthLaw S takeDepth) (hl : Listed c)
    (hshown : OrdersShown S c) {start limit : ℕ} (hfit : start + limit < 2 ^ 64) :
    ∃ views, listMarkets takeDepth S c start limit = .ok views := by
  rw [listMarkets, u64, Checked.fit_of_lt hfit, Checked.ok_bind]
  refine Checked.mapM_total fun i hi => ?_
  have hlt : i < c.marketIterMap.length := by
    rw [List.mem_range'_1] at hi
    omega
  obtain ⟨m, hm⟩ := (hl.exact _).1 (List.getElem_mem hlt)
  obtain ⟨v, hv⟩ := m.toView_total hdepth (fun x hx => hshown _ m x hm hx) c.marketIterMap[i]
  exact ⟨v, listedMarket_eq_ok.2 ⟨_, List.getElem?_eq_getElem hlt, m, hm, hv⟩⟩

/-- The ids shown are those of the vector, and each view is that of its market. -/
theorem views_of_forall₂ {ids : List MarketId} {views : List MarketView}
    (h : List.Forall₂ (Views takeDepth S c) ids views) :
    views.map MarketView.id = ids ∧ ∀ v ∈ views, Views takeDepth S c v.id v := by
  have hids : ids = views.map MarketView.id := by
    rw [← List.forall₂_eq_eq_eq, List.forall₂_map_right_iff]
    exact h.imp fun mid v hv => hv.id_eq.symm
  subst hids
  rw [List.forall₂_map_left_iff, List.forall₂_same] at h
  exact ⟨rfl, h⟩

/-- **The vector lists every market once, and so do the pages of `list_markets`**,
    of any size, which never fail. -/
theorem market_enumeration (hB : BookLaws S) (hdepth : DepthLaw S takeDepth) :
    (∀ s, System.Reachable S s → Listed s.contract) ∧
    ∀ s, System.Reach S (fun _ ev => ev.Typed) s → ∀ k pages,
      (∀ i < pages, i * k + k < 2 ^ 64) → getNumberOfMarkets s.contract ≤ pages * k →
      ∃ views, (List.range pages).mapM (fun i => listMarkets takeDepth S s.contract (i * k) k) =
          .ok views ∧
        views.flatten.map MarketView.id = s.contract.marketIterMap ∧
        ∀ v ∈ views.flatten, getMarket takeDepth S s.contract v.id none = .ok (some v) := by
  refine ⟨fun s hs => listed_of_reach hB hs, fun s hs k pages hfit hlen => ?_⟩
  have hl := listed_of_reach hB hs
  have hshown := shown_of_reach hB (fun _ _ h => h) hs
  obtain ⟨views, hviews⟩ := Checked.mapM_total (l := List.range pages) fun i hi =>
    listMarkets_total hdepth hl hshown (hfit i (List.mem_range.1 hi))
  have hpages : List.Forall₂ (List.Forall₂ (Views takeDepth S s.contract))
      ((List.range pages).map fun i => (s.contract.marketIterMap.drop (i * k)).take k) views := by
    rw [List.forall₂_map_left_iff]
    exact (Checked.mapM_eq_ok.1 hviews).imp fun i page hpage => listMarkets_ok hpage
  have hall := List.rel_flatten hpages
  rw [flatten_pages, List.take_of_length_le hlen] at hall
  obtain ⟨hids, hshows⟩ := views_of_forall₂ hall
  exact ⟨views, hviews, hids, fun v hv => (hshows v hv).getMarket_eq⟩

/-- After the market of `btc` and `usd`, which is deleted, come one of `gold`, one of
    an edition, and one of `btc` and `usd` in other lots. -/
def relisted : List Event := Engine.listed ++ [
  .call (Engine.calling Engine.dao (10 ^ 22))
    (.createMarket ⟨"mft:game.near:gold", "ft:usd.near", 1, 1, 0, 0⟩),
  .call (Engine.calling Engine.dao (10 ^ 22))
    (.createMarket ⟨"ft:btc.near", "mft:game.near:" ++ Engine.edition, 1, 1, 0, 0⟩),
  .call (Engine.calling Engine.dao (10 ^ 22))
    (.createMarket ⟨"ft:btc.near", "ft:usd.near", 1, 100, 0, 0⟩),
  .call (Engine.calling Engine.dao 0) (.setMarketState Engine.btcUsd .paused),
  .call (Engine.calling Engine.dao 0) (.adminDeleteMarket Engine.btcUsd)]

/-- The last market has taken the place of the one deleted.  Pages of two show all
    three. -/
theorem market_enumeration_relisted : ∃ page page',
    (List.range 2).mapM (fun i => listMarkets Engine.takeDepth Engine.sdk
      (Engine.run relisted).contract (i * 2) 2) = .ok [page, page'] ∧
    (page.map MarketView.id ++ page'.map MarketView.id) =
      [genMarketId Engine.sdk (.fungibleToken Engine.btc) 1 (.fungibleToken Engine.usd) 100,
        genMarketId Engine.sdk (.multiFungibleToken Engine.game "gold") 1
          (.fungibleToken Engine.usd) 1,
        genMarketId Engine.sdk (.fungibleToken Engine.btc) 1
          (.multiFungibleToken Engine.game Engine.edition) 1] := by
  have hids : (Engine.run relisted).contract.marketIterMap =
      [genMarketId Engine.sdk (.fungibleToken Engine.btc) 1 (.fungibleToken Engine.usd) 100,
        genMarketId Engine.sdk (.multiFungibleToken Engine.game "gold") 1
          (.fungibleToken Engine.usd) 1,
        genMarketId Engine.sdk (.fungibleToken Engine.btc) 1
          (.multiFungibleToken Engine.game Engine.edition) 1] := by
    decide +kernel
  have hreach : System.Reach Engine.sdk (fun _ ev => ev.Typed) (Engine.run relisted) :=
    Engine.reach_run fun e he _ => by
      revert e
      decide
  obtain ⟨views, hviews, hall, -⟩ :=
    (market_enumeration Engine.bookLaws Engine.depthLaw).2 _ hreach 2 2
      (fun i hi => by omega) (by rw [getNumberOfMarkets, hids]; decide)
  have hpages := (Checked.mapM_eq_ok.1 hviews).length_eq
  rw [List.length_range] at hpages
  obtain ⟨page, page', rfl⟩ := List.length_eq_two.1 hpages.symm
  refine ⟨page, page', hviews, ?_⟩
  rw [← hids, ← hall]
  simp

end TonicDex
