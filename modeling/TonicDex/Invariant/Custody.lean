/-
  Custody of accounts that do not act.

  `Kept S id c e c'` says what an effect of somebody else does to the account of
  `id` and to its orders: every balance grows by exactly what its fills, refunds
  and deposits are worth, and by a referrer's rebate, and every order shrinks by
  exactly its fills.  `custody` carries this over to calls and callbacks.
-/
import TonicDex.Engine.Library
import TonicDex.Invariant.Index

namespace TonicDex

variable {B : Type} {S : Sdk B} {c c' : Contract B} {e : Effect B} {es : List (Effect B)}
  {id : AccountId}

/-! ## Trades -/

/-- A trade, as an effect reports it. -/
structure Trade where
  marketId : MarketId
  side : Side
  taker : AccountId
  referrerId : Option AccountId
  fills : List Match

def Effect.trade : Effect B → Option Trade
  | order env mid p r =>
    some ⟨mid, p.side, env.predecessorAccountId, p.referrerId, r.fills⟩
  | hop env swap _ _ _ fills =>
    some ⟨swap.marketId, swap.side, env.signerAccountId, swap.referrerId, fills⟩
  | _ => none

theorem OrderRun.trade_eq {env : Env} {mid : MarketId} {p : NewOrderParams}
    {r : PlaceOrderResult} (h : OrderRun S env c mid p r c') :
    (Effect.order env mid p r : Effect B).trade = some ⟨mid, h.path.n.side,
      env.predecessorAccountId, p.referrerId, h.done.result.fills⟩ := by
  rw [Effect.trade, h.path.side]
  exact congrArg (fun r : PlaceOrderResult => some (Trade.mk mid p.side
    env.predecessorAccountId p.referrerId r.fills)) h.result

theorem HopRun.trade_eq {env : Env} {swap : SwapAction} {token : TokenType} {amount : ℕ}
    {out : SwapResult} (h : HopRun S env c swap token amount out c') :
    (Effect.hop env swap token amount out h.r.fills : Effect B).trade = some ⟨swap.marketId,
      h.n.side, env.signerAccountId, swap.referrerId, h.r.fills⟩ := by
  rw [Effect.trade, h.side]

/-- The settlement of a reported trade. -/
theorem Does.traded (h : Does S c e c') {t : Trade} (ht : e.trade = some t) :
    ∃ m n r m' s c₁, ∃ _ : Traded S c t.marketId m t.taker n t.referrerId r m' s c₁,
      c.markets.lookup t.marketId = some m ∧
      c'.markets = c.markets.insert t.marketId m' ∧ r.fills = t.fills := by
  cases h with
  | order run =>
    obtain rfl := Option.some.inj (run.trade_eq.symm.trans ht)
    exact ⟨_, _, _, _, _, _, run.path.traded, run.found, run.markets_eq, rfl⟩
  | hop run =>
    obtain rfl := Option.some.inj (run.trade_eq.symm.trans ht)
    exact ⟨_, _, _, _, _, _, run.traded, run.found, run.markets_eq, rfl⟩
  | _ => cases ht

/-- **Without a trade in its market, an order has rested there before.** -/
theorem Does.resting_origin (hB : BookLaws S) (h : Does S c e c') (hc : BooksOk S c)
    {mid : MarketId} {m' : Market B} {x : OpenLimitOrder}
    (htrade : ∀ t, e.trade = some t → t.marketId ≠ mid)
    (hm' : c'.markets.lookup mid = some m') (hx : x ∈ S.orders m'.orderbook) :
    ∃ m, c.markets.lookup mid = some m ∧ Moves S mid m e m' ∧ x ∈ S.orders m.orderbook := by
  obtain ⟨m, hm, hmove⟩ := h.book_origin hB hc hm' (List.ne_nil_of_mem hx)
  refine ⟨m, hm, hmove, ?_⟩
  cases hmove with
  | kept | state | window => exact hx
  | matched trades =>
    obtain ⟨_, _, _, rfl⟩ | ⟨_, _, _, _, _, _, rfl, rfl⟩ := trades
    · exact absurd rfl (htrade _ rfl)
    · exact absurd rfl (htrade _ rfl)
  | cancelled state rest => exact List.mem_of_mem_filter (rest ▸ hx)
  | @decimals side => cases side <;> exact hx

/-- What fills took off the order `o`. -/
def filledOf (fills : List Match) (o : OrderId) : ℕ :=
  ((fills.filter (·.makerOrderId = o)).map Match.fillQtyLots).sum

/-- What the fills of `id` credit to it. -/
def fillCredits (m : Market B) (side : Side) (id : AccountId) (fills : List Match)
    (token : TokenType) : ℕ :=
  ((fills.filter (·.makerUserId = id)).map fun f => m.makerCredit side f token).sum

/-- The orders of a market shrink by exactly their fills, and every fill is of
    an order of its maker, on the other side. -/
structure Shrinks (S : Sdk B) (t : Trade) (m m' : Market B) : Prop where
  fills : ∀ f ∈ t.fills, ∃ x ∈ S.resting m.orderbook t.side.opposite,
    x.id = f.makerOrderId ∧ x.ownerId = f.makerUserId ∧ x.side = t.side.opposite
  orders : ∀ x ∈ S.orders m.orderbook,
    (∃ x' ∈ S.orders m'.orderbook, x' = { x with openQtyLots := x'.openQtyLots } ∧
        x'.openQtyLots + filledOf t.fills x.id = x.openQtyLots) ∨
      (x.id ∉ S.ids m'.orderbook ∧ filledOf t.fills x.id = x.openQtyLots)

namespace Traded

variable {mid : MarketId} {m m' : Market B} {taker : AccountId} {n : NewOrder}
  {referrerId : Option AccountId} {r : PlaceOrderResult} {s : Settled}

/-- The stored account of anybody after a trade is settled. -/
theorem lookup (h : Traded S c mid m taker n referrerId r m' s c') (id : AccountId) :
    (c'.accounts.lookup id =
        (c.accounts.lookup id).map (fillsOf S mid m n.side id r.fills) ∧
      (referrerId = some id → s.referrerRebate = 0)) ∨
      (referrerId = some id ∧ ∃ a, c.accounts.lookup id = some a ∧
        c'.accounts.lookup id = some ((fillsOf S mid m n.side id r.fills a).credit
          (S.key m.quoteToken.tokenType) s.referrerRebate)) := by
  have hmk := h.settled.settled.lookup id
  obtain ⟨he, hzero⟩ | ⟨href, hr, b, hb, -, he⟩ := h.settled.referrer.lookup id
  · exact .inl ⟨he.trans hmk, hzero⟩
  · rw [hmk] at hb
    obtain ⟨a, ha, rfl⟩ := Option.map_eq_some_iff.1 hb
    exact .inr ⟨href, a, ha, by rw [hr]; exact he⟩

/-- **Everybody is credited exactly its fills**, and a referrer the rebate. -/
theorem balance_eq (hT : TokenLaws S) (h : Traded S c mid m taker n referrerId r m' s c')
    (id : AccountId) (token : TokenType) :
    (c'.accountOf id).getBalance S token = (c.accountOf id).getBalance S token +
      fillCredits m n.side id r.fills token +
      if referrerId = some id ∧ token = m.quoteToken.tokenType then s.referrerRebate else 0 := by
  obtain ⟨he, hzero⟩ | ⟨href, he⟩ := h.accountOf id
  · have hrebate : (if referrerId = some id ∧ token = m.quoteToken.tokenType
        then s.referrerRebate else 0) = 0 := by
      split_ifs with href
      · exact hzero href.1
      · rfl
    rw [he, balance_fillsOf hT, fillCredits, hrebate, Nat.add_zero]
  · rw [he, Account.getBalance, Account.balance_credit, ← Account.getBalance,
      balance_fillsOf hT, fillCredits]
    simp only [hT.key_injective.eq_iff, href, true_and]

/-- What the fills of one order add up to. -/
theorem filledOf_add (hB : BookLaws S) (h : Traded S c mid m taker n referrerId r m' s c')
    (hm : MarketOk S c.prevOrderSequenceNumber m) (o : OrderId) :
    ((S.resting m'.orderbook n.side.opposite).map fun x =>
        if x.id = o then x.openQtyLots else 0).sum + filledOf r.fills o =
      ((S.resting m.orderbook n.side.opposite).map fun x =>
        if x.id = o then x.openQtyLots else 0).sum := by
  have hcost : filledOf r.fills o =
      (r.fills.map fun f => if f.makerOrderId = o then f.fillQtyLots else 0).sum := by
    unfold filledOf
    induction r.fills with
    | nil => rfl
    | cons f fs ih =>
      rw [List.filter_cons, List.map_cons, List.sum_cons, ← ih]
      by_cases hf : f.makerOrderId = o <;> simp [hf]
  rw [hcost]
  refine (h.placement hB hm).filled.sum_add_eq (fun x f hkey hfit => ?_)
    (Sdk.resting_nodup hm.nodup _)
  have hid : x.id = f.makerOrderId := hkey
  simp only [fillRule, hid]
  split_ifs with h1 h2 h2
  · rw [hfit.removed.1 h1]
    exact Nat.zero_add _
  · rfl
  · simp only [Option.elim_some, if_pos h2]
    exact Nat.sub_add_cancel hfit.qty
  · simp only [Option.elim_some, if_neg h2]

/-- A list without repeated ids weighs one order by its open quantity. -/
theorem sum_of_mem {l : List OpenLimitOrder} (hn : (l.map OpenLimitOrder.id).Nodup)
    {x : OpenLimitOrder} (hx : x ∈ l) :
    (l.map fun y => if y.id = x.id then y.openQtyLots else 0).sum = x.openQtyLots := by
  induction l with
  | nil => cases hx
  | cons y l ih =>
    rw [List.map_cons, List.nodup_cons] at hn
    rw [List.map_cons, List.sum_cons]
    rcases List.mem_cons.1 hx with rfl | hx
    · have hzero : (l.map fun y => if y.id = x.id then y.openQtyLots else 0).sum = 0 := by
        refine List.sum_eq_zero fun q hq => ?_
        obtain ⟨y, hy, rfl⟩ := List.mem_map.1 hq
        rw [if_neg]
        intro he
        exact hn.1 (he ▸ List.mem_map_of_mem hy)
      rw [if_pos rfl, hzero, Nat.add_zero]
    · have hne : y.id ≠ x.id := by
        intro he
        exact hn.1 (he ▸ List.mem_map_of_mem hx)
      rw [if_neg hne, Nat.zero_add, ih hn.2 hx]

theorem sum_of_not_mem {l : List OpenLimitOrder} {o : OrderId}
    (ho : o ∉ l.map OpenLimitOrder.id) :
    (l.map fun y => if y.id = o then y.openQtyLots else 0).sum = 0 := by
  refine List.sum_eq_zero fun q hq => ?_
  obtain ⟨y, hy, rfl⟩ := List.mem_map.1 hq
  rw [if_neg]
  rintro rfl
  exact ho (List.mem_map_of_mem hy)

/-- The open quantity of the order `o` in a book, zero if there is none. -/
def openQty (S : Sdk B) (b : B) (o : OrderId) : ℕ :=
  ((S.orders b).map fun x => if x.id = o then x.openQtyLots else 0).sum

theorem openQty_eq (b : B) (side : Side) (o : OrderId) : openQty S b o =
    ((S.resting b side).map fun x => if x.id = o then x.openQtyLots else 0).sum +
      ((S.resting b side.opposite).map fun x => if x.id = o then x.openQtyLots else 0).sum := by
  rw [openQty, ((Sdk.orders_perm b side).map _).sum_eq, List.map_append, List.sum_append]

/-- The open quantity of an order that rested before shrinks by its fills. -/
theorem openQty_add (hB : BookLaws S) (h : Traded S c mid m taker n referrerId r m' s c')
    (hm : MarketOk S c.prevOrderSequenceNumber m) {o : OrderId} (ho : o ∈ S.ids m.orderbook) :
    openQty S m'.orderbook o + filledOf r.fills o = openQty S m.orderbook o := by
  have hp := h.placement hB hm
  have hadd := h.filledOf_add hB hm o
  have hown : ((S.resting m'.orderbook n.side).map fun x =>
        if x.id = o then x.openQtyLots else 0).sum =
      ((S.resting m.orderbook n.side).map fun x =>
        if x.id = o then x.openQtyLots else 0).sum := by
    cases hr : r.isPosted with
    | false => rw [(hp.not_posted hr).2]
    | true =>
      obtain ⟨-, p, -, hperm⟩ := hp.posted hr
      have hne : r.id ≠ o := by
        rintro rfl
        exact hp.id_new (h.new hm) ho
      rw [(hperm.map _).sum_eq, List.map_cons, List.sum_cons, if_neg hne, Nat.zero_add]
  rw [openQty_eq _ n.side, openQty_eq _ n.side, hown]
  omega

/-- **Orders shrink by exactly their fills.** -/
theorem shrinks (hB : BookLaws S) (h : Traded S c mid m taker n referrerId r m' s c')
    (hm : MarketOk S c.prevOrderSequenceNumber m) :
    Shrinks S ⟨mid, n.side, taker, referrerId, r.fills⟩ m m' := by
  constructor
  · intro f hf
    obtain ⟨x, hx, hid, x', hsh, hfit⟩ := h.fill_target hB hm hf
    refine ⟨x, hx, hid, ?_, hm.side _ x hx⟩
    rw [hfit.maker, hsh.1]
  · intro x hx
    have hxid : x.id ∈ S.ids m.orderbook := Sdk.mem_ids.2 ⟨x, hx, rfl⟩
    have hadd := h.openQty_add hB hm hxid
    rw [show openQty S m.orderbook x.id = x.openQtyLots from sum_of_mem hm.nodup hx] at hadd
    by_cases hleft : x.id ∈ S.ids m'.orderbook
    · obtain ⟨x', hx', hid⟩ := Sdk.mem_ids.1 hleft
      have hqty : openQty S m'.orderbook x'.id = x'.openQtyLots :=
        sum_of_mem (h.marketOk hB hm).nodup hx'
      rw [← hid, hqty, hid] at hadd
      refine .inl ⟨x', hx', ?_, hadd⟩
      obtain ⟨-, hr, -⟩ | ⟨y, hy, hsh, -⟩ := h.origin hB hm hx'
      · refine absurd hxid ?_
        rw [← hid, hr]
        exact (h.placement hB hm).id_new (h.new hm)
      · have hyid : y.id = x.id := by rw [← hid, hsh.1]
        obtain rfl : y = x := List.inj_on_of_nodup_map hm.nodup hy hx hyid
        exact hsh.1
    · rw [show openQty S m'.orderbook x.id = 0 from sum_of_not_mem hleft, Nat.zero_add] at hadd
      exact .inr ⟨hleft, hadd⟩

end Traded

/-! ## One effect -/

/-- The effects of an account's own acts. -/
def Effect.ActOf (id : AccountId) : Effect B → Prop
  | debit id' _ _ | unregister id' _ => id' = id
  | order env _ _ _ => env.predecessorAccountId = id
  | _ => False

/-- What cancelling the orders `ids` of a market refunds. -/
def refundCredits (S : Sdk B) (m : Market B) (ids : List OrderId) (token : TokenType) : ℕ :=
  (((S.orders m.orderbook).filter (·.id ∈ ids)).map fun x =>
    if token = m.sideToken x.side then m.restingValue x.side x else 0).sum

theorem refundCredits_singleton {m : Market B} (hn : (S.ids m.orderbook).Nodup)
    {x : OpenLimitOrder} (hx : x ∈ S.orders m.orderbook) (token : TokenType) :
    refundCredits S m [x.id] token =
      if token = m.sideToken x.side then m.restingValue x.side x else 0 := by
  have hone : ((S.orders m.orderbook).filter (·.id ∈ [x.id])).Perm [x] := by
    refine (List.perm_ext_iff_of_nodup ((List.Nodup.of_map _ hn).filter _)
      (List.nodup_singleton x)).2 fun y => ?_
    simp only [List.mem_filter, List.mem_singleton, decide_eq_true_eq]
    constructor
    · rintro ⟨hy, hid⟩
      exact List.inj_on_of_nodup_map hn hy hx hid
    · rintro rfl
      exact ⟨hx, rfl⟩
  rw [refundCredits, (hone.map _).sum_eq]
  exact List.sum_singleton

/-- What an effect that is not an act of `id` does to its account and orders. -/
structure Kept (S : Sdk B) (id : AccountId) (c : Contract B) (e : Effect B) (c' : Contract B) :
    Prop where
  stored : ∀ a, c.accounts.lookup id = some a → ∃ a', c'.accounts.lookup id = some a'
  trade : ∀ t, e.trade = some t → ∃ m m', c.markets.lookup t.marketId = some m ∧
    c'.markets.lookup t.marketId = some m' ∧ Shrinks S t m m' ∧ ∀ token, ∃ rebate,
      (c'.accountOf id).getBalance S token = (c.accountOf id).getBalance S token +
        fillCredits m t.side id t.fills token + rebate ∧
      (rebate ≠ 0 → t.referrerId = some id ∧ token = m.quoteToken.tokenType)
  cancel : ∀ mid ids, e = .cancel mid id ids → ∃ m, c.markets.lookup mid = some m ∧
    (∀ x ∈ S.orders m.orderbook, x.id ∈ ids → x.ownerId = id ∧
      getRefundAmount m x = .ok (m.restingValue x.side x, m.sideToken x.side)) ∧
    ∀ token, (c'.accountOf id).getBalance S token =
      (c.accountOf id).getBalance S token + refundCredits S m ids token
  credit : ∀ t n, e = .credit id t n → ∀ token, (c'.accountOf id).getBalance S token =
    (c.accountOf id).getBalance S token + if token = t then n else 0
  other : e.trade = none → (∀ mid ids, e ≠ .cancel mid id ids) → (∀ t n, e ≠ .credit id t n) →
    ∀ token, (c'.accountOf id).getBalance S token = (c.accountOf id).getBalance S token

/-- No balance gets smaller, and the account stays. -/
def NoLoss (S : Sdk B) (id : AccountId) (c c' : Contract B) : Prop :=
  ∀ a, c.accounts.lookup id = some a → ∃ a', c'.accounts.lookup id = some a' ∧
    ∀ token, a.getBalance S token ≤ a'.getBalance S token

theorem NoLoss.refl (c : Contract B) : NoLoss S id c c := fun a ha => ⟨a, ha, fun _ => le_rfl⟩

theorem NoLoss.trans {c₁ : Contract B} (h : NoLoss S id c c₁) (h' : NoLoss S id c₁ c') :
    NoLoss S id c c' := by
  intro a ha
  obtain ⟨a₁, ha₁, hle⟩ := h a ha
  obtain ⟨a', ha', hle'⟩ := h' a₁ ha₁
  exact ⟨a', ha', fun token => (hle token).trans (hle' token)⟩

theorem Kept.noLoss (h : Kept S id c e c') : NoLoss S id c c' := by
  intro a ha
  obtain ⟨a', ha'⟩ := h.stored a ha
  refine ⟨a', ha', fun token => ?_⟩
  rw [← accountOf_of_lookup ha, ← accountOf_of_lookup ha']
  rcases ht : e.trade with _ | t
  · by_cases hcancel : ∃ mid ids, e = .cancel mid id ids
    · obtain ⟨mid, ids, he⟩ := hcancel
      obtain ⟨m, -, -, hbal⟩ := h.cancel mid ids he
      rw [hbal]
      exact Nat.le_add_right _ _
    by_cases hcredit : ∃ t n, e = .credit id t n
    · obtain ⟨t, n, he⟩ := hcredit
      rw [h.credit t n he]
      exact Nat.le_add_right _ _
    · exact (h.other ht (fun mid ids he => hcancel ⟨mid, ids, he⟩)
        (fun t n he => hcredit ⟨t, n, he⟩) token).ge
  · obtain ⟨m, m', -, -, -, hbal⟩ := h.trade t ht
    obtain ⟨rebate, he, -⟩ := hbal token
    rw [he, Nat.add_assoc]
    exact Nat.le_add_right _ _

/-- An effect after which the account is stored as before. -/
theorem Kept.of_lookup_eq (ht : e.trade = none) (hl : c'.accounts.lookup id = c.accounts.lookup id)
    (hcancel : ∀ mid ids, e ≠ .cancel mid id ids) (hcredit : ∀ t n, e ≠ .credit id t n) :
    Kept S id c e c' where
  stored a ha := ⟨a, hl.trans ha⟩
  trade t h := by rw [ht] at h; cases h
  cancel mid ids h := absurd h (hcancel mid ids)
  credit t n h := absurd h (hcredit t n)
  other _ _ _ token := by rw [Contract.accountOf, hl, Contract.accountOf]

/-- What a trade keeps of somebody other than an order's taker. -/
theorem Traded.kept (hB : BookLaws S) (hT : TokenLaws S) {mid : MarketId} {m m' : Market B}
    {taker : AccountId} {n : NewOrder} {referrerId : Option AccountId} {r : PlaceOrderResult}
    {s : Settled} {c₁ : Contract B} (h : Traded S c mid m taker n referrerId r m' s c₁)
    (hm : MarketOk S c.prevOrderSequenceNumber m) (hfound : c.markets.lookup mid = some m)
    (hmarkets : c'.markets = c.markets.insert mid m')
    (haccount : c'.accounts.lookup id = c₁.accounts.lookup id)
    (he : e.trade = some ⟨mid, n.side, taker, referrerId, r.fills⟩) : Kept S id c e c' where
  stored a ha := by
    rw [haccount]
    obtain ⟨hl, -⟩ | ⟨-, b, -, hl⟩ := h.lookup id
    · rw [hl, ha]; exact ⟨_, rfl⟩
    · exact ⟨_, hl⟩
  trade t ht := by
    rw [he] at ht
    cases ht
    refine ⟨m, m', hfound, by rw [hmarkets, AList.lookup_insert], h.shrinks hB hm,
      fun token => ?_⟩
    have hacc : c'.accountOf id = c₁.accountOf id := by
      rw [Contract.accountOf, haccount, Contract.accountOf]
    refine ⟨_, by rw [hacc, h.balance_eq hT id token], fun hne => ?_⟩
    split_ifs at hne with href
    · exact href
    · exact absurd rfl hne
  cancel mid ids hc := by rw [hc] at he; cases he
  credit t n hc := by rw [hc] at he; cases he
  other hnone := by rw [he] at hnone; cases hnone

/-- Refunds, for the account that owns the orders. -/
theorem CancelRun.keeps (hB : BookLaws S) (hT : TokenLaws S) {mid : MarketId} {owner : AccountId}
    {ids : List OrderId} (h : CancelRun S c mid owner ids c')
    (hm : MarketOk S c.prevOrderSequenceNumber h.m) : Kept S id c (.cancel mid owner ids) c' := by
  have hperm := h.cancelled_perm hB hm
  by_cases hid : owner = id
  · subst hid
    have hself : c'.accountOf owner = (h.results.map CancelOrderResult.order).foldl
        (refund S h.m mid) h.kept := by rw [h.accountOf_eq, if_pos rfl]
    refine ⟨fun a ha => ?_, fun t ht => (by cases ht), fun mid' ids' he => ?_,
      fun t n he => (by cases he), fun _ hne => absurd rfl (hne mid ids)⟩
    · exact ⟨_, (congrArg (fun c => c.accounts.lookup owner) h.result).trans
        (AList.lookup_insert c.accounts)⟩
    · cases he
      refine ⟨h.m, h.found, fun x hx hmem => ?_, fun token => ?_⟩
      · obtain ⟨r, hr, rfl⟩ := List.mem_map.1
          (hperm.mem_iff.2 (List.mem_filter.2 ⟨hx, decide_eq_true hmem⟩))
        exact h.amounts r hr
      · have hkept : h.kept.getBalance S token = h.a.getBalance S token := by
          rw [Account.getBalance, Account.balance, h.forgets.balances]; rfl
        rw [hself, getBalance_refunds hT, (hperm.map _).sum_eq, hkept,
          accountOf_of_lookup h.account, refundCredits]
  · refine Kept.of_lookup_eq rfl ?_ (fun mid' ids' he => hid (by cases he; rfl))
      fun t n he => by cases he
    refine (congrArg (fun c => c.accounts.lookup id) h.result).trans ?_
    exact AList.lookup_insert_ne fun he => hid he.symm

/-- **What an effect of somebody else keeps.** -/
theorem Does.kept (hB : BookLaws S) (hT : TokenLaws S) (h : Does S c e c') (hc : BooksOk S c)
    (hact : ¬ e.ActOf id) : Kept S id c e c' := by
  cases h with
  | @credit id' a t n found covered =>
    by_cases hid : id' = id
    · subst hid
      refine ⟨fun a ha => ⟨_, AList.lookup_insert _⟩, fun t ht => (by cases ht),
        fun mid ids he => (by cases he), fun t' n' he token => ?_,
        fun _ _ hne => absurd rfl (hne t n)⟩
      cases he
      rw [accountOf_putAccount, if_pos rfl, accountOf_of_lookup found, Account.getBalance,
        Account.balance_credit]
      simp only [hT.key_injective.eq_iff]
      rfl
    · refine Kept.of_lookup_eq rfl (AList.lookup_insert_ne fun he => hid he.symm)
        (fun mid ids he => (by cases he)) fun t' n' he => hid (by cases he; rfl)
  | @debit id' a a' t n found paid covered =>
    exact Kept.of_lookup_eq rfl (AList.lookup_insert_ne fun he => hact he.symm)
      (fun mid ids he => (by cases he)) fun t' n' he => (by cases he)
  | @storage id' a inn out total found sum covered =>
    by_cases hid : id' = id
    · subst hid
      refine ⟨fun b hb => ⟨_, AList.lookup_insert _⟩, fun t ht => (by cases ht),
        fun mid ids he => (by cases he), fun t' n' he => (by cases he), fun _ _ _ token => ?_⟩
      rw [accountOf_putAccount, if_pos rfl]
      obtain he | ⟨he, rfl⟩ := found
      · rw [accountOf_of_lookup he]; rfl
      · rw [Contract.accountOf, he]; rfl
    · exact Kept.of_lookup_eq rfl (AList.lookup_insert_ne fun he => hid he.symm)
        (fun mid ids he => (by cases he)) fun t' n' he => (by cases he)
  | @unregister id' a found empty =>
    exact Kept.of_lookup_eq rfl (AList.lookup_erase_ne fun he => hact he.symm)
      (fun mid ids he => (by cases he)) fun t' n' he => (by cases he)
  | @order env mid p r c' run =>
    refine run.path.traded.kept hB hT (hc _ _ run.found) run.found run.markets_eq ?_ ?_
    · refine (congrArg (fun c => c.accounts.lookup id) run.state).trans ?_
      exact AList.lookup_insert_ne fun he => hact he.symm
    · exact run.trade_eq
  | @hop env swap t amount out c' run =>
    refine run.traded.kept hB hT (hc _ _ run.found) run.found run.markets_eq ?_ ?_
    · exact (congrArg (fun c => c.accounts.lookup id) run.state).trans rfl
    · exact run.trade_eq
  | cancel run => exact run.keeps hB hT (hc _ _ run.found)
  | create | delete | setState | setWindow | decimals | admin =>
    exact Kept.of_lookup_eq rfl rfl (fun mid ids he => (by cases he)) fun t n he => (by cases he)

/-! ## Accounts that nothing is about -/

/-- The account an effect is about, makers and referrers apart. -/
def Effect.about : Effect B → Option AccountId
  | credit id _ _ | debit id _ _ | storage id _ _ | unregister id _ => some id
  | cancel _ owner _ => some owner
  | order env _ _ _ => some env.predecessorAccountId
  | _ => none

theorem Effect.about_of_actOf (h : e.ActOf id) : e.about = some id := by
  cases e with
  | debit | unregister | order => exact congrArg some h
  | _ => cases h

/-- No hop is about its taker's account. -/
theorem Hops.about {env : Env} {swaps : List SwapAction} {x y : TokenType × ℕ}
    (h : Hops env swaps x es y) : ∀ e ∈ es, e.about = none := by
  induction h with
  | nil x => intro e he; cases he
  | cons rest ih =>
    intro e he
    rcases List.mem_cons.1 he with rfl | he
    · rfl
    · exact ih e he

/-- The accounts an effect can change. -/
def Effect.Touches (id : AccountId) (e : Effect B) : Prop :=
  e.about = some id ∨ ∃ t, e.trade = some t ∧
    ((∃ f ∈ t.fills, f.makerUserId = id) ∨ t.referrerId = some id)

/-- Other accounts are stored as before. -/
theorem Does.lookup_eq (h : Does S c e c') (hid : ¬ e.Touches id) :
    c'.accounts.lookup id = c.accounts.lookup id := by
  have hne : ∀ id', e.about = some id' → id ≠ id' := by
    rintro id' he rfl
    exact hid (.inl he)
  have traded : ∀ {mid m m' taker n referrerId r s c₁},
      Traded S c mid m taker n referrerId r m' s c₁ →
      e.trade = some ⟨mid, n.side, taker, referrerId, r.fills⟩ →
      c₁.accounts.lookup id = c.accounts.lookup id := by
    intro mid m m' taker n referrerId r s c₁ ht he
    have hne : ∀ f ∈ r.fills, f.makerUserId ≠ id :=
      fun f hf hmk => hid (.inr ⟨_, he, .inl ⟨f, hf, hmk⟩⟩)
    obtain ⟨hl, -⟩ | ⟨href, -⟩ := ht.lookup id
    · rw [hl]
      cases c.accounts.lookup id with
      | none => rfl
      | some a => rw [Option.map_some, fillsOf_of_ne hne]
    · exact absurd (.inr ⟨_, he, .inr href⟩) hid
  cases h with
  | credit | debit | storage => exact AList.lookup_insert_ne (hne _ rfl)
  | unregister => exact AList.lookup_erase_ne (hne _ rfl)
  | @order env mid p r c' run =>
    refine (congrArg (fun c => c.accounts.lookup id) run.state).trans ?_
    exact (AList.lookup_insert_ne (hne _ rfl)).trans (traded run.path.traded run.trade_eq)
  | @hop env swap t amount out c' run =>
    have hsettled : run.settled.accounts.lookup id = c.accounts.lookup id :=
      traded run.traded run.trade_eq
    exact (congrArg (fun c => c.accounts.lookup id) run.state).trans hsettled
  | cancel run =>
    refine (congrArg (fun c => c.accounts.lookup id) run.result).trans ?_
    exact AList.lookup_insert_ne (hne _ rfl)
  | create | delete | setState | setWindow | decimals | admin => rfl

/-! ## Calls and callbacks -/

theorem EachEffect.noLoss (h : EachEffect S (Kept S id) c es c') : NoLoss S id c c' := by
  induction h with
  | nil c => exact .refl c
  | cons head holds tail ih => exact holds.noLoss.trans ih

theorem EachEffect.lookup_eq {P : Contract B → Effect B → Contract B → Prop}
    (h : EachEffect S P c es c') (hid : ∀ e ∈ es, ¬ e.Touches id) :
    c'.accounts.lookup id = c.accounts.lookup id := by
  induction h with
  | nil c => rfl
  | cons head holds tail ih =>
    rw [ih fun e he => hid e (List.mem_cons_of_mem _ he)]
    exact head.lookup_eq (hid _ (List.mem_cons_self ..))

/-- The effects of a call are about its caller or about those it addresses, and
    acts are the caller's. -/
theorem Shape.about {env : Env} {op : Op} {ps : List Promise} (h : Shape S c env op ps es) :
    ∀ e ∈ es, ∀ id, e.about = some id → env.predecessorAccountId = id ∨
      (op.Addresses S c id ∧ ¬ e.ActOf id) := by
  intro e he id hid
  cases h with
  | ftDeposit =>
    cases List.mem_singleton.1 he
    cases hid
    exact .inr ⟨rfl, fun h => h⟩
  | mtDeposit =>
    obtain ⟨x, hx, rfl⟩ := List.mem_map.1 he
    cases hid
    exact .inr ⟨(List.of_mem_zip hx).2, fun h => h⟩
  | swap method hops =>
    have hnone := hops.about e he
    rw [hnone] at hid
    cases hid
  | @storageDeposit receiver only inn refund es sum effects =>
    obtain ⟨rfl, -⟩ | rfl := effects
    · cases he
    · cases List.mem_singleton.1 he
      cases hid
      cases receiver with
      | none => exact .inl rfl
      | some receiver => exact .inr ⟨rfl, fun h => h⟩
  | execute trades => obtain _ | _ := trades e he <;> exact .inl (Option.some_inj.1 hid)
  | adminCancel method cancels =>
    obtain ⟨owner, ids, rfl, haddr⟩ := cancels e he
    cases hid
    exact .inr ⟨haddr, fun h => h⟩
  | storageKept | notDeleted => cases he
  | createMarket | admin | setMarketState | setWindow | deleted =>
    cases List.mem_singleton.1 he
    cases hid
  | _ =>
    cases List.mem_singleton.1 he
    exact .inl (Option.some_inj.1 hid)

/-- The effects of a resolution are about the account a refund goes to. -/
theorem Resolution.about {p : Promise} {paid : Option (TokenType × ℕ)}
    (h : Resolution S c p es paid) (id : AccountId) : ∀ e ∈ es, e.trade = none ∧ ¬ e.ActOf id ∧
      (e.about = some id → ∃ r t n, p = .send r t n ∧ c.refundee r = id) := by
  intro e he
  cases h with
  | transferred | transferFailed | sent | lost => cases he
  | credited =>
    cases List.mem_singleton.1 he
    exact ⟨rfl, fun h => h, fun h => ⟨_, _, _, rfl, Option.some_inj.1 h⟩⟩
  | metadata subtoken promise callback =>
    cases callback with
    | nothing => cases he
    | unchanged | ft | mt =>
      cases List.mem_singleton.1 he
      exact ⟨rfl, fun h => h, fun h => by cases h⟩

/-- **Custody.** Whatever others do, the balances of an account do not get
    smaller: its orders shrink by their fills and are refunded when cancelled,
    for exactly what they are worth, and an account that a call is not about is
    stored as before. -/
theorem custody (hB : BookLaws S) (hT : TokenLaws S) {s : System B}
    (hs : System.Reachable S s) (id : AccountId) :
    (∀ env op ps c', perform S env s.contract op = .ok (ps, c') →
      env.predecessorAccountId ≠ id → ∃ es, EachEffect S (Kept S id) s.contract es c' ∧
        Shape S s.contract env op ps es ∧ NoLoss S id s.contract c' ∧
        (¬ op.Addresses S s.contract id → (∀ e ∈ es, ∀ t, e.trade = some t →
            (∀ f ∈ t.fills, f.makerUserId ≠ id) ∧ t.referrerId ≠ some id) →
          c'.accounts.lookup id = s.contract.accounts.lookup id)) ∧
    ∀ i out p, s.pending[i]? = some p →
      NoLoss S id s.contract (System.step S s (.resolve i out)).contract ∧
        ((∀ r t n, p = .send r t n → s.contract.refundee r ≠ id) →
          (System.step S s (.resolve i out)).contract.accounts.lookup id =
            s.contract.accounts.lookup id) := by
  have hc := booksOk_of_reach hB hs
  constructor
  · intro env op ps c' hop hne
    obtain ⟨es, heff, hshape⟩ := perform_effects hB hop
    have hact : ∀ e ∈ es, ¬ e.ActOf id := by
      intro e he ha
      obtain h | ⟨-, h⟩ := hshape.about e he id (Effect.about_of_actOf ha)
      · exact hne h
      · exact h ha
    have heach : EachEffect S (Kept S id) s.contract es c' :=
      heff.each hB hc fun e he _ _ hd hbooks => hd.kept hB hT hbooks (hact e he)
    refine ⟨es, heach, hshape, heach.noLoss, fun haddr hfree => ?_⟩
    refine heach.lookup_eq fun e he => ?_
    rintro (habout | ⟨t, ht, ⟨f, hf, hmk⟩ | href⟩)
    · obtain h | ⟨h, -⟩ := hshape.about e he id habout
      · exact hne h
      · exact haddr h
    · exact (hfree e he t ht).1 f hf hmk
    · exact (hfree e he t ht).2 href
  · intro i out p hp
    have hcase := step_cases hB s (.resolve i out)
    generalize System.step S s (.resolve i out) = s' at hcase ⊢
    cases hcase with
    | unchanged => exact ⟨.refl _, fun _ => rfl⟩
    | @resolved _ _ p' c' es paid promise effects resolution =>
      obtain rfl : p' = p := Option.some_inj.1 (promise.symm.trans hp)
      have heach : EachEffect S (Kept S id) s.contract es c' :=
        effects.each hB hc fun e he _ _ hd hbooks =>
          hd.kept hB hT hbooks (resolution.about id e he).2.1
      refine ⟨heach.noLoss, fun hne => heach.lookup_eq fun e he => ?_⟩
      obtain ⟨htr, -, habout⟩ := resolution.about id e he
      rintro (h | ⟨t, ht, -⟩)
      · obtain ⟨r, t, n, hpr, hr⟩ := habout h
        exact hne r t n hpr hr
      · rw [htr] at ht
        cases ht

/-- Bob buys from Alice: her fills are worth 1180 `usd` and a rebate of 5, and she
    is credited just that. -/
theorem custody_bought : NoLoss Engine.sdk Engine.alice (Engine.run Engine.asked).contract
      (Engine.run Engine.bought).contract ∧
    ∃ m fills, (Engine.run Engine.asked).contract.markets.lookup Engine.btcUsd = some m ∧
      fillCredits m .buy Engine.alice fills (.fungibleToken Engine.usd) = 1185 ∧
      ((Engine.run Engine.bought).contract.accountOf Engine.alice).getBalance Engine.sdk
          (.fungibleToken Engine.usd) =
        ((Engine.run Engine.asked).contract.accountOf Engine.alice).getBalance Engine.sdk
          (.fungibleToken Engine.usd) + 1185 := by
  obtain ⟨ps, hop⟩ := Engine.perform_bought
  obtain ⟨es, heach, hshape, hkept, -⟩ := (custody Engine.bookLaws Engine.tokenLaws
    (Engine.reachable_run Engine.asked) Engine.alice).1 _ _ _ _ hop (by decide)
  refine ⟨hkept, ?_⟩
  have hbalance : ((Engine.run Engine.bought).contract.accountOf Engine.alice).getBalance
      Engine.sdk (.fungibleToken Engine.usd) =
        ((Engine.run Engine.asked).contract.accountOf Engine.alice).getBalance Engine.sdk
          (.fungibleToken Engine.usd) + 1185 := by decide +kernel
  obtain ⟨r, rfl⟩ := hshape.of_order.1 _ _ rfl
  cases heach with
  | cons head holds tail =>
    cases tail
    obtain ⟨m, m', hm, -, -, hcredit⟩ := holds.trade _ rfl
    obtain ⟨rebate, heq, hreferrer⟩ := hcredit (.fungibleToken Engine.usd)
    have hzero : rebate = 0 := by
      by_contra hne
      -- the referrer is the owner
      have hdao : Engine.dao = Engine.alice := Option.some_inj.1 (hreferrer hne).1
      exact absurd hdao (by decide)
    subst hzero
    rw [hbalance] at heq
    refine ⟨m, r.fills, hm, ?_, hbalance⟩
    exact (Nat.add_left_cancel heq).symm

end TonicDex
