/-
  What a bid locks, and what it pays back.

  A bid that is posted locks the value of its open quantity at the limit price
  of its owner.  Its fills and the refund of the rest are computed from the limit
  in lots, and each is rounded down.  An order is followed back through a run to
  the state it was posted in (`Effects.follows`), and so the two amounts can be
  compared: they agree just in case the roundings, together, lose less than a
  unit (`bid_lock_iff`).
-/
import Mathlib.Algebra.BigOperators.Ring.List
import Mathlib.Tactic.Ring
import TonicDex.Invariant.Degenerate
import TonicDex.Invariant.LimitPrice
import TonicDex.Lib.Rounding

namespace TonicDex

variable {B : Type} {S : Sdk B} {c c' : Contract B} {e : Effect B} {es : List (Effect B)}
  {mid : MarketId} {m m' : Market B} {env : Env} {p : NewOrderParams} {r : PlaceOrderResult}

/-! ## Following an order -/

/-- The fills of the order `id` of a market that an effect makes. -/
def Effect.fillsTo (mid : MarketId) (id : OrderId) (e : Effect B) : List Match :=
  match e.trade with
  | some t => if t.marketId = mid then t.fills.filter (·.makerOrderId = id) else []
  | none => []

theorem Effect.fillsTo_of_trade {t : Trade} {id : OrderId} (h : e.trade = some t)
    (hmid : t.marketId = mid) : e.fillsTo mid id = t.fills.filter (·.makerOrderId = id) := by
  simp only [fillsTo, h, hmid, if_true]

theorem Effect.fillsTo_of_ne {id : OrderId} (h : ∀ t, e.trade = some t → t.marketId ≠ mid) :
    e.fillsTo mid id = [] := by
  unfold fillsTo
  rcases ht : e.trade with _ | t
  · rfl
  · exact if_neg (h t ht)

/-- The order `x'` of the market `m'` is what the fills `fs` left of the order `x`
    of `m`, and each fill paid its value, rounded down. -/
structure Filled (m : Market B) (x : OpenLimitOrder) (fs : List Match) (m' : Market B)
    (x' : OpenLimitOrder) : Prop where
  order : x' = { x with openQtyLots := x'.openQtyLots }
  qty : (fs.map Match.fillQtyLots).sum + x'.openQtyLots = x.openQtyLots
  terms : SameTerms m m'
  denom : m'.denom = m.denom
  paid : ∀ f ∈ fs, f.nativeQuotePaid = quoteValue f.fillQtyLots x.limitPriceLots
    m.quoteToken.lotSize m.baseToken.lotSize m.denom

variable {x x' : OpenLimitOrder} {fs : List Match}

/-- Without fills an order stays as it is. -/
theorem Filled.none (ht : SameTerms m m') (hd : m'.denom = m.denom) : Filled m x [] m' x :=
  ⟨rfl, Nat.zero_add _, ht, hd, fun _ hf => (List.not_mem_nil hf).elim⟩

theorem Filled.trans {fs' : List Match} {m'' : Market B} {x'' : OpenLimitOrder}
    (h : Filled m x fs m' x') (h' : Filled m' x' fs' m'' x'') : Filled m x (fs ++ fs') m'' x'' := by
  have hprice : x'.limitPriceLots = x.limitPriceLots := by rw [h.order]
  refine ⟨by rw [h'.order, h.order], ?_, h.terms.trans h'.terms, h'.denom.trans h.denom, ?_⟩
  · have h1 := h.qty
    have h2 := h'.qty
    rw [List.map_append, List.sum_append]
    omega
  · intro f hf
    obtain hf | hf := List.mem_append.1 hf
    · exact h.paid f hf
    · rw [h'.paid f hf, hprice, h.terms.quoteLot, h.terms.baseLot, h.denom]

/-- An order that is not new and rests after a trade was filled by it. -/
theorem Traded.follows {taker : AccountId} {n : NewOrder} {referrerId : Option AccountId}
    {s : Settled} (hB : BookLaws S) (h : Traded S c mid m taker n referrerId r m' s c')
    (hm : MarketOk S c.prevOrderSequenceNumber m)
    (hold : S.seqOf x'.id ≤ c.prevOrderSequenceNumber) (hx' : x' ∈ S.orders m'.orderbook) :
    ∃ x ∈ S.orders m.orderbook,
      Filled m x (r.fills.filter (·.makerOrderId = x'.id)) m' x' := by
  obtain ⟨-, hnew, -⟩ | ⟨x, hx, hsh, -⟩ := h.origin hB hm hx'
  · have hseq := (h.placement hB hm).seq
    rw [← hnew, h.seq] at hseq
    omega
  have hid : x'.id = x.id := by rw [hsh.1]
  refine ⟨x, hx, hsh.1, ?_, h.sameTerms, by rw [h.market]; rfl, fun f hf => ?_⟩
  · obtain ⟨y, hy, hyx, hqty⟩ | ⟨hgone, -⟩ := (h.shrinks hB hm).orders x hx
    · -- the order is the only one with its id
      have hyid : y.id = x'.id := by rw [hyx, hid]
      obtain rfl : y = x' := List.inj_on_of_nodup_map (h.marketOk hB hm).nodup hy hx' hyid
      rw [hid, Nat.add_comm]
      exact hqty
    · exact absurd (hid ▸ Sdk.mem_ids.2 ⟨x', hx', rfl⟩) hgone
  · obtain ⟨hf, htarget⟩ := List.mem_filter.1 hf
    obtain ⟨y, hy, hyid, y', hshy, hfit⟩ := h.fill_target hB hm hf
    have hyx : y.id = x.id := by rw [hyid, ← hid]; exact of_decide_eq_true htarget
    obtain rfl : y = x :=
      List.inj_on_of_nodup_map hm.nodup (Sdk.mem_orders.2 ⟨_, hy⟩) hx hyx
    have hprice : y'.limitPriceLots = y.limitPriceLots := by rw [hshy.1]
    rw [hfit.paid, hfit.price, hprice, h.of.quoteLot, h.of.baseLot, h.of.baseDenom]

/-- The effect leaves the base decimals of the market as they are. -/
def KeepsDenom (mid : MarketId) (c : Contract B) (_ : Effect B) (c' : Contract B) : Prop :=
  ∀ m m', c.markets.lookup mid = some m → c'.markets.lookup mid = some m' →
    m'.baseToken.decimals = m.baseToken.decimals

/-- **An order is what the fills of an effect left of it.** -/
theorem Does.follows (hB : BookLaws S) (h : Does S c e c') (hc : BooksOk S c)
    (hd : KeepsDenom mid c e c') (hold : S.seqOf x'.id ≤ c.prevOrderSequenceNumber)
    (hm' : c'.markets.lookup mid = some m') (hx' : x' ∈ S.orders m'.orderbook) :
    ∃ m x, c.markets.lookup mid = some m ∧ x ∈ S.orders m.orderbook ∧
      Filled m x (e.fillsTo mid x'.id) m' x' := by
  by_cases htrade : ∃ t, e.trade = some t ∧ t.marketId = mid
  · obtain ⟨t, ht, rfl⟩ := htrade
    obtain ⟨m, n, r, m₁, s, c₁, htraded, hm, hmarkets, hfills⟩ := h.traded ht
    rw [hmarkets, AList.lookup_insert] at hm'
    cases hm'
    obtain ⟨x, hx, hfilled⟩ := htraded.follows hB (hc _ _ hm) hold hx'
    rw [hfills, ← Effect.fillsTo_of_trade ht rfl] at hfilled
    exact ⟨m, x, hm, hx, hfilled⟩
  · have hother : ∀ t, e.trade = some t → t.marketId ≠ mid :=
      fun t ht hmid => htrade ⟨t, ht, hmid⟩
    obtain ⟨m, hm, hmove, hx⟩ := h.resting_origin hB hc hother hm' hx'
    rw [Effect.fillsTo_of_ne hother]
    exact ⟨m, x', hm, hx, .none hmove.sameTerms (congrArg (10 ^ ·) (hd m m' hm hm'))⟩

/-- **An order is what the fills of a run left of it.** -/
theorem EachEffect.follows (hB : BookLaws S) (h : EachEffect S (KeepsDenom mid) c es c')
    (hc : BooksOk S c) (hold : S.seqOf x'.id ≤ c.prevOrderSequenceNumber)
    (hm' : c'.markets.lookup mid = some m') (hx' : x' ∈ S.orders m'.orderbook) :
    ∃ m x, c.markets.lookup mid = some m ∧ x ∈ S.orders m.orderbook ∧
      Filled m x (es.flatMap (Effect.fillsTo mid x'.id)) m' x' := by
  induction h with
  | nil c => exact ⟨m', x', hm', hx', .none (.refl _) rfl⟩
  | cons head holds tail ih =>
    obtain ⟨m₁, x₁, hm₁, hx₁, hrest⟩ :=
      ih (head.booksOk hB hc) (hold.trans head.seq_le) hm'
    have hid : x'.id = x₁.id := by rw [hrest.order]
    obtain ⟨m, x, hm, hx, hfirst⟩ := head.follows hB hc holds (hid ▸ hold) hm₁ hx₁
    rw [← hid] at hfirst
    exact ⟨m, x, hm, hx, List.flatMap_cons ▸ hfirst.trans hrest⟩

/-! ## Posting a bid -/

/-- The order that rests under the id of a placed limit order. -/
theorem OrderRun.posted (hB : BookLaws S) (h : OrderRun S env c mid p r c') (hc : BooksOk S c)
    {limit : ℕ} (htype : p.orderType ≠ .market) (hlimit : p.limitPrice = some limit)
    (hm' : c'.markets.lookup mid = some m') (hx : x ∈ S.orders m'.orderbook) (hid : x.id = r.id) :
    x = ⟨r.id, env.predecessorAccountId, p.side, asU64 (limit / h.m.quoteToken.lotSize),
      r.openQtyLots, h.path.n.clientId⟩ := by
  have hmarket := hc mid h.m h.found
  have hplaced := h.path.traded.placement hB hmarket
  rw [h.markets_eq, AList.lookup_insert] at hm'
  cases hm'
  obtain ⟨side, hxside⟩ := Sdk.mem_orders.1 hx
  obtain ⟨y, hy, hsh⟩ | ⟨-, -, price, hprice, hpost⟩ := hplaced.origin hxside
  · have hyid : y.id = h.done.result.id := by rw [← h.result, ← hid, hsh.1]
    have hy' := Sdk.mem_ids.2 ⟨y, Sdk.mem_orders.2 ⟨side, hy⟩, hyid⟩
    exact absurd hy' (hplaced.id_new (h.path.traded.new hmarket))
  · obtain ⟨l, hl, -, hlots, -⟩ := h.path.limit htype
    cases hlimit.symm.trans hl
    cases hlots.symm.trans hprice
    rw [hpost, Placed.postedOrder, h.path.side, ← h.result]

/-- What a limit bid takes off the quote balance of its owner: what it locks, and
    what its fills cost with the fee; less what it buys, in a market of one token. -/
theorem OrderRun.bid_debit (hT : TokenLaws S) (h : OrderRun S env c mid p r c') {limit : ℕ}
    (hside : p.side = .buy) (htype : p.orderType ≠ .market) (hlimit : p.limitPrice = some limit) :
    (c'.accountOf env.predecessorAccountId).getBalance S h.m.quoteToken.tokenType +
        (lockedBy h.m .buy r.openQtyLots limit + (r.fills.map Match.nativeQuotePaid).sum +
          h.m.takerFeeOf (r.fills.map Match.nativeQuotePaid).sum) =
      (c.accountOf env.predecessorAccountId).getBalance S h.m.quoteToken.tokenType +
        amountOf (h.m.baseToken.tokenType, (r.fills.map h.m.fillBase).sum)
          h.m.quoteToken.tokenType := by
  have hsettled := h.path.traded.settled
  have hfills : h.done.result.fills = r.fills := (congrArg PlaceOrderResult.fills h.result).symm
  have htotals := hsettled.totals
  rw [hfills] at htotals
  have hquote : h.path.s.quoteTraded = (r.fills.map Match.nativeQuotePaid).sum :=
    congrArg MakerSettlementResult.quoteTraded htotals
  have hbase : h.path.s.baseTraded = (r.fills.map h.m.fillBase).sum :=
    congrArg MakerSettlementResult.baseTraded htotals
  have hopen : h.done.result.openQtyLots = r.openQtyLots :=
    (congrArg PlaceOrderResult.openQtyLots h.result).symm
  have hfee : h.path.s.totalTakerFee = h.m.takerFeeOf h.path.s.quoteTraded := by
    rw [hsettled.fee, hfills, hquote]
    rfl
  obtain ⟨l, hl, -, -, hlocked, -⟩ := h.path.limit htype
  cases hlimit.symm.trans hl
  have hbalance := h.path.balance (S.key h.m.quoteToken.tokenType)
  simp only [takerDebit, takerCredit, hside, if_true, hT.key_injective.eq_iff, hlocked,
    hopen, hfee, hquote, hbase] at hbalance
  rw [h.accountOf_eq, if_pos rfl, accountOf_of_lookup h.account]
  exact hbalance

/-- A sum of values at one price, each rounded down, makes up what a bid of all
    the quantities `qs` at `limit` locks: the remainders, with what the limit is
    above its price in lots, stay below a unit. -/
def LockExact (m : Market B) (limit : ℕ) (qs : List ℕ) : Prop :=
  (qs.map fun q => q * asU64 (limit / m.quoteToken.lotSize) * m.quoteToken.lotSize *
      m.baseToken.lotSize % m.denom).sum +
    qs.sum * m.baseToken.lotSize *
      (limit - asU64 (limit / m.quoteToken.lotSize) * m.quoteToken.lotSize) < m.denom

instance (m : Market B) (limit : ℕ) (qs : List ℕ) : Decidable (LockExact m limit qs) :=
  inferInstanceAs (Decidable (_ < _))

theorem lockedBy_eq_iff (m : Market B) (limit : ℕ) (qs : List ℕ) :
    lockedBy m .buy qs.sum limit = (qs.map fun q => quoteValue q
        (asU64 (limit / m.quoteToken.lotSize)) m.quoteToken.lotSize m.baseToken.lotSize
        m.denom).sum ↔ LockExact m limit qs := by
  unfold LockExact lockedBy
  generalize hlots : asU64 (limit / m.quoteToken.lotSize) = lots
  have hle : lots * m.quoteToken.lotSize ≤ limit := by
    rw [← hlots]
    exact asU64_within (.inl rfl)
  have hpos : 0 < m.denom := Nat.pow_pos (by decide)
  rw [← Rounding.sum_div_eq_iff hpos]
  have hsum : (qs.map fun q => q * lots * m.quoteToken.lotSize * m.baseToken.lotSize).sum =
      qs.sum * m.baseToken.lotSize * (lots * m.quoteToken.lotSize) := by
    simp only [List.sum_map_mul_right, List.map_id']
    ring
  rw [hsum, ← Nat.mul_add, Nat.add_sub_cancel' hle]
  rfl

/-! ## What comes back -/

/-- The number of an order that was placed is the last one used. -/
theorem OrderRun.seqOf_eq (hB : BookLaws S) (h : OrderRun S env c mid p r c') (hc : BooksOk S c) :
    S.seqOf r.id = c'.prevOrderSequenceNumber := by
  have hseq := (h.path.traded.placement hB (hc mid h.m h.found)).seq
  rw [h.path.traded.seq, ← h.seq_eq] at hseq
  exact (congrArg (fun r : PlaceOrderResult => S.seqOf r.id) h.result).trans hseq

/-- **The fills of a bid and the refund of its rest make up what it locked just in
    case nothing is lost to rounding.** -/
theorem OrderRun.lock_iff (hB : BookLaws S) (h : OrderRun S env c mid p r c') (hc : BooksOk S c)
    {limit n : ℕ} {t : TokenType} {c₂ : Contract B} (hside : p.side = .buy)
    (htype : p.orderType ≠ .market) (hlimit : p.limitPrice = some limit)
    (hes : EachEffect S (KeepsDenom mid) c' es c₂) (hm' : c₂.markets.lookup mid = some m')
    (hx : x ∈ S.orders m'.orderbook) (hid : x.id = r.id)
    (hn : getRefundAmount m' x = .ok (n, t)) :
    t = h.m.quoteToken.tokenType ∧
      (lockedBy h.m .buy r.openQtyLots limit =
          ((es.flatMap (Effect.fillsTo mid r.id)).map Match.nativeQuotePaid).sum + n ↔
        LockExact h.m limit
          ((es.flatMap (Effect.fillsTo mid r.id)).map Match.fillQtyLots ++ [x.openQtyLots])) := by
  have hdoes : Does S c (.order env mid p r) c' := .order h
  obtain ⟨m₁, x₁, hm₁, hx₁, hfilled⟩ := hes.follows hB (hdoes.booksOk hB hc)
    (hid ▸ (h.seqOf_eq hB hc).le) hm' hx
  rw [hid] at hfilled
  have hid₁ : x₁.id = r.id := by rw [← hid, hfilled.order]
  have hpost := h.posted hB hc htype hlimit hm₁ hx₁ hid₁
  -- the market has the terms of the one the bid was placed in
  have hm₁' : m₁ = h.done.market := by
    rw [h.markets_eq, AList.lookup_insert] at hm₁
    exact (Option.some.inj hm₁).symm
  have hterms : SameTerms h.m m' := (hm₁' ▸ h.path.traded.sameTerms).trans hfilled.terms
  have hdenom : m₁.denom = h.m.denom := by rw [hm₁', h.path.traded.market]; rfl
  have hbid : x.side = .buy := by rw [hfilled.order, hpost]; exact hside
  have hprice : x₁.limitPriceLots = asU64 (limit / h.m.quoteToken.lotSize) := by rw [hpost]
  have hprice' : x.limitPriceLots = asU64 (limit / h.m.quoteToken.lotSize) := by
    rw [← hprice, hfilled.order]
  have hopen : x₁.openQtyLots = r.openQtyLots := by rw [hpost]
  obtain ⟨rfl, rfl⟩ := getRefundAmount_ok hn
  rw [hbid]
  refine ⟨hterms.quote, ?_⟩
  have hsum : r.openQtyLots = ((es.flatMap (Effect.fillsTo mid r.id)).map Match.fillQtyLots ++
      [x.openQtyLots]).sum := by
    rw [List.sum_append, List.sum_singleton, hfilled.qty, hopen]
  have hpaid : (es.flatMap (Effect.fillsTo mid r.id)).map Match.nativeQuotePaid =
      (es.flatMap (Effect.fillsTo mid r.id)).map fun f => quoteValue f.fillQtyLots
        (asU64 (limit / h.m.quoteToken.lotSize)) h.m.quoteToken.lotSize h.m.baseToken.lotSize
        h.m.denom := by
    refine List.map_congr_left fun f hf => ?_
    rw [hfilled.paid f hf, hprice, hdenom, hm₁', h.path.traded.sameTerms.quoteLot,
      h.path.traded.sameTerms.baseLot]
  have hrest : m'.restingValue .buy x = quoteValue x.openQtyLots
      (asU64 (limit / h.m.quoteToken.lotSize)) h.m.quoteToken.lotSize h.m.baseToken.lotSize
      h.m.denom := by
    rw [Market.restingValue, hprice', hterms.quoteLot, hterms.baseLot, hfilled.denom, hdenom]
  rw [hsum, ← lockedBy_eq_iff, hpaid, hrest]
  simp only [List.map_append, List.sum_append, List.map_map, List.map_singleton,
    List.sum_singleton]
  rfl

/-- An order that is cancelled rests, and its refund is computed. -/
theorem internalCancelOrder_refunds (hB : BookLaws S) (hT : TokenLaws S) {owner : AccountId}
    {id : OrderId} (h : internalCancelOrder S c mid owner id = .ok c') (hc : BooksOk S c) :
    ∃ m x, c.markets.lookup mid = some m ∧ x ∈ S.orders m.orderbook ∧ x.id = id ∧
      getRefundAmount m x = .ok (m.restingValue x.side x, m.sideToken x.side) := by
  obtain ⟨run⟩ := internalCancelOrder_ok h
  obtain ⟨m, hm, hrefunds, -⟩ :=
    (run.keeps hB hT (hc _ _ run.found)).cancel mid [id] rfl
  have hrests : id ∈ S.ids m.orderbook := by
    by_contra hgone
    simp only [internalCancelOrder, Checked.bind_eq_ok, Contract.internalUnwrapMarket_eq_ok] at h
    obtain ⟨m₁, hm₁, _, -, a, -, h⟩ := h
    cases hm.symm.trans hm₁
    rcases hro : a.removeOrderInfo mid id with ⟨_ | id', a₁⟩
    · rw [hro] at h
      cases h
    · simp only [hro, hB.cancel_none hgone, Checked.bind_eq_ok, Checked.expect_eq_ok] at h
      obtain ⟨r, hr, -⟩ := h
      cases hr
  obtain ⟨x, hx, hid⟩ := Sdk.mem_ids.1 hrests
  exact ⟨m, x, hm, hx, hid, (hrefunds x hx (hid ▸ List.mem_singleton_self _)).2⟩

/-- What cancelling an order credits. -/
theorem internalCancelOrder_credits (hB : BookLaws S) (hT : TokenLaws S) {owner : AccountId}
    {id : OrderId} {n : ℕ} {t : TokenType} (h : internalCancelOrder S c mid owner id = .ok c')
    (hc : BooksOk S c) (hm : c.markets.lookup mid = some m) (hx : x ∈ S.orders m.orderbook)
    (hid : x.id = id) (hn : getRefundAmount m x = .ok (n, t)) :
    (c'.accountOf owner).getBalance S t = (c.accountOf owner).getBalance S t + n := by
  obtain ⟨run⟩ := internalCancelOrder_ok h
  obtain ⟨m₁, hm₁, -, hcredits⟩ :=
    (run.keeps hB hT (hc _ _ run.found)).cancel mid [id] rfl
  cases hm.symm.trans hm₁
  subst hid
  obtain ⟨rfl, rfl⟩ := getRefundAmount_ok hn
  rw [hcredits, refundCredits_singleton (hc mid m hm).nodup hx, if_pos rfl]

/-- **A bid locks what it can pay back just in case nothing is lost to rounding.**
    In every reachable state, also in the middle of a batch, a limit bid takes off
    its owner's balance what it locks and what its fills cost (less what it buys, if
    that is the same token).  In any later run
    that keeps the base decimals of the market, whatever rests of the bid is
    refunded what makes up, with the payments for its fills since, the amount
    locked, if and only if the remainders of these values, together with what the
    limit is above its price in lots, stay below one unit.  A bid that is cancelled
    at once restores the balance on the same condition. -/
theorem bid_lock_iff (hB : BookLaws S) (hT : TokenLaws S) {s : System B}
    (hs : System.Reachable S s) {es₀ : List (Effect B)} (before : Effects S s.contract es₀ c)
    {c₁ : Contract B} (placed : newOrder S env c mid p = .ok (r, c₁)) (hside : p.side = .buy)
    (htype : p.orderType ≠ .market) :
    ∃ m limit, c.markets.lookup mid = some m ∧ p.limitPrice = some limit ∧
      (c₁.accountOf env.predecessorAccountId).getBalance S m.quoteToken.tokenType +
          (lockedBy m .buy r.openQtyLots limit + (r.fills.map Match.nativeQuotePaid).sum +
            m.takerFeeOf (r.fills.map Match.nativeQuotePaid).sum) =
        (c.accountOf env.predecessorAccountId).getBalance S m.quoteToken.tokenType +
          amountOf (m.baseToken.tokenType, (r.fills.map m.fillBase).sum)
            m.quoteToken.tokenType ∧
      (∀ es c₂ m₂ x n t, EachEffect S (KeepsDenom mid) c₁ es c₂ →
        c₂.markets.lookup mid = some m₂ → x ∈ S.orders m₂.orderbook → x.id = r.id →
        getRefundAmount m₂ x = .ok (n, t) →
          t = m.quoteToken.tokenType ∧
          (lockedBy m .buy r.openQtyLots limit =
              ((es.flatMap (Effect.fillsTo mid r.id)).map Match.nativeQuotePaid).sum + n ↔
            LockExact m limit ((es.flatMap (Effect.fillsTo mid r.id)).map Match.fillQtyLots ++
              [x.openQtyLots])) ∧
          ∀ c₃, internalCancelOrder S c₂ mid env.predecessorAccountId r.id = .ok c₃ →
            (c₃.accountOf env.predecessorAccountId).getBalance S t =
              (c₂.accountOf env.predecessorAccountId).getBalance S t + n) ∧
      (r.fills = [] → ∀ c₂, internalCancelOrder S c₁ mid env.predecessorAccountId r.id = .ok c₂ →
        ((c₂.accountOf env.predecessorAccountId).getBalance S m.quoteToken.tokenType =
            (c.accountOf env.predecessorAccountId).getBalance S m.quoteToken.tokenType ↔
          LockExact m limit [r.openQtyLots])) := by
  have hc := booksOk_of_effects hB hs before
  obtain ⟨run⟩ := newOrder_ok placed
  have hdoes : Does S c (.order env mid p r) c₁ := .order run
  have hc₁ := hdoes.booksOk hB hc
  obtain ⟨limit, hlimit, -⟩ := run.path.limit htype
  have hdebit := run.bid_debit hT hside htype hlimit
  refine ⟨run.m, limit, run.found, hlimit, hdebit, ?_, fun hfills c₂ hcancel => ?_⟩
  · intro es c₂ m₂ x n t hes hm₂ hx hid hn
    have hc₂ : BooksOk S c₂ := hes.booksOk hB hc₁
    obtain ⟨ht, hiff⟩ := run.lock_iff hB hc hside htype hlimit hes hm₂ hx hid hn
    exact ⟨ht, hiff, fun c₃ hcancel =>
      internalCancelOrder_credits hB hT hcancel hc₂ hm₂ hx hid hn⟩
  · obtain ⟨m₁, x, hm₁, hx, hid, hn⟩ := internalCancelOrder_refunds hB hT hcancel hc₁
    have hpost := run.posted hB hc htype hlimit hm₁ hx hid
    have hopen : x.openQtyLots = r.openQtyLots := by rw [hpost]
    obtain ⟨ht, hiff⟩ := run.lock_iff hB hc hside htype hlimit (.nil _) hm₁ hx hid hn
    have hcredit := internalCancelOrder_credits hB hT hcancel hc₁ hm₁ hx hid hn
    rw [ht] at hcredit
    have hfee : run.m.takerFeeOf 0 = 0 := by
      rw [Market.takerFeeOf, Nat.zero_mul, Nat.zero_div]
    simp only [hfills, List.map_nil, List.sum_nil, hfee, Nat.add_zero, amountOf_zero] at hdebit
    simp only [List.flatMap_nil, List.map_nil, List.sum_nil, Nat.zero_add, List.nil_append,
      hopen] at hiff
    rw [← hiff, hcredit, ← hdebit]
    omega

/-- Bob bids for 600 lots. -/
def bidAt (limit : ℕ) : Call (PlaceOrderResult × Contract Engine.Book) :=
  newOrder Engine.sdk (Engine.calling Engine.bob 0) (Engine.run paid).contract Engine.btcUsd
    (Engine.order .buy .limit limit 600 none)

/-- Alice sells 200 of them. -/
def sale : NewOrderParams := Engine.order .sell .immediateOrCancel 20 200 none

/-- The market in which they trade: lots of 1 and 10, and one decimal. -/
theorem market_paid : ∃ m, (Engine.run paid).contract.markets.lookup Engine.btcUsd = some m ∧
    m.baseToken.lotSize = 1 ∧ m.quoteToken.lotSize = 10 ∧ m.denom = 10 := by
  have h : ((Engine.run paid).contract.markets.lookup Engine.btcUsd).map (fun m =>
      (m.baseToken.lotSize, m.quoteToken.lotSize, m.denom)) = some (1, 10, 10) := by
    decide +kernel
  obtain ⟨m, hm, h⟩ := Option.map_eq_some_iff.1 h
  simp only [Prod.mk.injEq] at h
  exact ⟨m, hm, h⟩

/-- Bob bids 20, Alice sells him a part, and the rest is refunded. -/
theorem bid_lock_sold : ∃ (m m₂ : Market Engine.Book) (c₁ c₂ : Contract Engine.Book)
    (r r' : PlaceOrderResult) (x : OpenLimitOrder), bidAt 20 = .ok (r, c₁) ∧
    newOrder Engine.sdk (Engine.calling Engine.alice 0) c₁ Engine.btcUsd sale = .ok (r', c₂) ∧
    c₂.markets.lookup Engine.btcUsd = some m₂ ∧ x ∈ Engine.sdk.orders m₂.orderbook ∧
    getRefundAmount m₂ x = .ok (780, m.quoteToken.tokenType) ∧
    lockedBy m .buy r.openQtyLots 20 = (([.order (Engine.calling Engine.alice 0) Engine.btcUsd
      sale r'] : List (Effect Engine.Book)).flatMap (Effect.fillsTo Engine.btcUsd r.id) |>.map
        Match.nativeQuotePaid).sum + 780 := by
  have hid : (bidAt 20).toOption.map (fun x => x.1.id) = some 1 := by decide +kernel
  have hfills : ((bidAt 20).toOption.bind fun x => (newOrder Engine.sdk
      (Engine.calling Engine.alice 0) x.2 Engine.btcUsd sale).toOption).map (fun y =>
        y.1.fills.map fun f => (f.makerOrderId, f.fillQtyLots)) = some [(1, 200)] := by
    decide +kernel
  have hrests : (((bidAt 20).toOption.bind fun x => (newOrder Engine.sdk
      (Engine.calling Engine.alice 0) x.2 Engine.btcUsd sale).toOption).bind fun y =>
        y.2.markets.lookup Engine.btcUsd).map (fun m => (Engine.sdk.orders m.orderbook).map
          fun x => (x.id, x.openQtyLots, (getRefundAmount m x).toOption.map Prod.fst)) =
      some [(1, 390, some 780)] := by decide +kernel
  obtain ⟨⟨r, c₁⟩, hbid, hid⟩ := Engine.eq_ok_of_map hid
  rw [hbid] at hfills hrests
  simp only [Except.toOption, Option.bind_some] at hfills hrests
  obtain ⟨⟨r', c₂⟩, hsale, hfills⟩ := Engine.eq_ok_of_map hfills
  rw [hsale] at hrests
  obtain ⟨m₂, hm₂, hrests⟩ := Option.map_eq_some_iff.1 hrests
  have hm₂ : c₂.markets.lookup Engine.btcUsd = some m₂ := hm₂
  obtain ⟨x, horders, hx⟩ := List.map_eq_singleton_iff.1 hrests
  obtain ⟨f, hf, hfx⟩ := List.map_eq_singleton_iff.1 hfills
  simp only [Prod.mk.injEq] at hx hfx
  obtain ⟨hxid, hxqty, hrefund⟩ := hx
  -- Alice's order keeps the decimals
  have hc := booksOk_of_effects Engine.bookLaws (Engine.reachable_run paid)
    (.single (newOrder_does hbid))
  have hdoes := newOrder_does hsale
  have hkeeps : KeepsDenom Engine.btcUsd c₁
      (.order (Engine.calling Engine.alice 0) Engine.btcUsd sale r') c₂ := by
    intro m₁ m₂' hm₁ hm₂'
    obtain ⟨m', hm', hd⟩ := hdoes.keeps Engine.bookLaws hc nofun
      (fun _ _ hmove => hmove.baseDecimals nofun) hm₁
    cases hm₂'.symm.trans hm'
    exact hd
  obtain ⟨m, limit, hm, hlimit, -, hlater, -⟩ := bid_lock_iff Engine.bookLaws Engine.tokenLaws
    (Engine.reachable_run paid) (.nil _) hbid rfl nofun
  cases hlimit
  obtain ⟨m', hm', hlots⟩ := market_paid
  cases hm.symm.trans hm'
  have hx : x ∈ Engine.sdk.orders m₂.orderbook := horders ▸ List.mem_singleton_self x
  have hn : ∃ t, getRefundAmount m₂ x = .ok (780, t) := by
    obtain ⟨⟨_, t⟩, hn, rfl⟩ := Engine.eq_ok_of_map hrefund
    exact ⟨t, hn⟩
  obtain ⟨t, hn⟩ := hn
  obtain ⟨rfl, hiff, -⟩ := hlater _ c₂ m₂ x 780 t (.cons hdoes hkeeps (.nil _)) hm₂ hx
    (hxid.trans hid.symm) hn
  refine ⟨m, m₂, c₁, c₂, r, r', x, hbid, hsale, hm₂, hx, hn, hiff.2 ?_⟩
  have hqty : ([.order (Engine.calling Engine.alice 0) Engine.btcUsd sale r'] :
      List (Effect Engine.Book)).flatMap (Effect.fillsTo Engine.btcUsd r.id) = [f] := by
    have hto : Effect.fillsTo Engine.btcUsd r.id (.order (Engine.calling Engine.alice 0)
        Engine.btcUsd sale r' : Effect Engine.Book) = r'.fills.filter (·.makerOrderId = r.id) :=
      Effect.fillsTo_of_trade (t := ⟨_, _, _, _, r'.fills⟩) rfl rfl
    rw [List.flatMap_singleton, hto, hf, hid]
    exact List.filter_cons_of_pos (decide_eq_true hfx.1)
  rw [hqty, LockExact, hlots.1, hlots.2.1, hlots.2.2, List.map_singleton, hfx.2, hxqty]
  decide

/-- At 15, which is a lot and a half, Bob gets less back than he had. -/
theorem bid_lock_lost : System.Reachable Engine.sdk (Engine.run paid) ∧
    ∃ r c₁ c₂, bidAt 15 = .ok (r, c₁) ∧ r.isPosted = true ∧ r.fills = [] ∧
      cancelOrder Engine.sdk (Engine.calling Engine.bob 0) c₁ Engine.btcUsd r.id = .ok c₂ ∧
      ((Engine.run paid).contract.accountOf Engine.bob).getBalance Engine.sdk
        (.fungibleToken Engine.usd) = 100000 ∧
      (c₂.accountOf Engine.bob).getBalance Engine.sdk (.fungibleToken Engine.usd) = 99704 := by
  refine ⟨Engine.reachable_run paid, ?_⟩
  have hrun : ((bidAt 15).toOption.map fun x => (x.1.isPosted, x.1.fills.map Match.fillQtyLots)) =
      some (true, []) := by decide +kernel
  have hcancel : ((bidAt 15).toOption.bind fun x => (cancelOrder Engine.sdk
      (Engine.calling Engine.bob 0) x.2 Engine.btcUsd x.1.id).toOption).map (fun c =>
        (c.accountOf Engine.bob).getBalance Engine.sdk (.fungibleToken Engine.usd)) =
      some 99704 := by decide +kernel
  obtain ⟨⟨r, c₁⟩, hbid, hrun⟩ := Engine.eq_ok_of_map hrun
  obtain ⟨hposted, hfills⟩ := Prod.mk.inj hrun
  rw [hbid] at hcancel
  simp only [Except.toOption, Option.bind_some] at hcancel
  obtain ⟨c₂, hok, hcancel⟩ := Engine.eq_ok_of_map hcancel
  exact ⟨r, c₁, c₂, hbid, hposted, List.map_eq_nil_iff.1 hfills, hok, by decide +kernel, hcancel⟩

end TonicDex
