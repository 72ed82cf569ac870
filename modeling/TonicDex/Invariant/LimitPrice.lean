/-
  The limit price of an order.

  A limit price is given in native quote and converted to lots by a division
  that rounds down and a cast to 64 bits, for bids and asks alike.  So a bid
  never pays more than its limit, while an ask can be filled below its own,
  unless the limit is a whole number of lots that fits
  (`limit_protected_iff`).
-/
import TonicDex.Engine.Library
import TonicDex.Invariant.Leaving
import TonicDex.Invariant.Storage

namespace TonicDex

variable {B : Type} {S : Sdk B} {c c' : Contract B} {e : Effect B} {es : List (Effect B)}
  {mid : MarketId} {m : Market B}

/-! ## Orders keep their price -/

theorem Does.seq_le (h : Does S c e c') :
    c.prevOrderSequenceNumber ≤ c'.prevOrderSequenceNumber := by
  cases h with
  | order run => exact run.seq_eq ▸ Nat.le_succ _
  | hop run => exact run.seq_eq ▸ Nat.le_succ _
  | cancel run => rw [run.result]; exact le_rfl
  | _ => exact le_rfl

/-- Where the order `id` rests in the market, it does at the price `lots`, and
    quote lots are of the size `lotSize`. -/
def RestsAt (S : Sdk B) (mid : MarketId) (id : OrderId) (lots lotSize : ℕ) (c : Contract B) :
    Prop :=
  ∀ m x, c.markets.lookup mid = some m → x ∈ S.orders m.orderbook → x.id = id →
    x.limitPriceLots = lots ∧ m.quoteToken.lotSize = lotSize

variable {id : OrderId} {lots lotSize : ℕ}

/-- A trade after the order was placed does not bring it back at another price. -/
theorem Traded.restsAt {m' : Market B} {taker : AccountId} {n : NewOrder}
    {referrerId : Option AccountId} {r : PlaceOrderResult} {s : Settled} (hB : BookLaws S)
    (h : Traded S c mid m taker n referrerId r m' s c')
    (hm : MarketOk S c.prevOrderSequenceNumber m) (hfound : c.markets.lookup mid = some m)
    (hid : S.seqOf id ≤ c.prevOrderSequenceNumber) (hr : RestsAt S mid id lots lotSize c)
    {x : OpenLimitOrder} (hx : x ∈ S.orders m'.orderbook) (hxid : x.id = id) :
    x.limitPriceLots = lots ∧ m'.quoteToken.lotSize = lotSize := by
  obtain ⟨-, hnew, -⟩ | ⟨y, hy, hsh, -⟩ := h.origin hB hm hx
  · have hseq := (h.placement hB hm).seq
    rw [← hnew, hxid, h.seq] at hseq
    omega
  · have hyid : y.id = id := by rw [← hxid, hsh.1]
    have hprice : x.limitPriceLots = y.limitPriceLots := by rw [hsh.1]
    rw [hprice, h.market]
    exact hr m y hfound hy hyid

theorem Does.restsAt (hB : BookLaws S) (h : Does S c e c') (hc : BooksOk S c)
    (hid : S.seqOf id ≤ c.prevOrderSequenceNumber) (hr : RestsAt S mid id lots lotSize c) :
    RestsAt S mid id lots lotSize c' := by
  intro m' x hm' hx hxid
  by_cases htrade : ∃ t, e.trade = some t ∧ t.marketId = mid
  · obtain ⟨t, ht, rfl⟩ := htrade
    obtain ⟨m, n, r, m₁, s, c₁, htraded, hm, hmarkets, -⟩ := h.traded ht
    rw [hmarkets, AList.lookup_insert] at hm'
    cases hm'
    exact htraded.restsAt hB (hc _ _ hm) hm hid hr hx hxid
  · obtain ⟨m, hm, hmove, hold⟩ :=
      h.resting_origin hB hc (fun t ht hmid => htrade ⟨t, ht, hmid⟩) hm' hx
    rw [hmove.sameTerms.quoteLot]
    exact hr m x hm hold hxid

/-- A fill is at the price of the order it names. -/
theorem Traded.fill_price {m' : Market B} {taker : AccountId} {n : NewOrder}
    {referrerId : Option AccountId} {r : PlaceOrderResult} {s : Settled} (hB : BookLaws S)
    (h : Traded S c mid m taker n referrerId r m' s c')
    (hm : MarketOk S c.prevOrderSequenceNumber m) {f : Match} (hf : f ∈ r.fills) :
    ∃ x ∈ S.orders m.orderbook, x.id = f.makerOrderId ∧ f.fillPriceLots = x.limitPriceLots := by
  obtain ⟨x, hx, hid, x', hsh, hfit⟩ := h.fill_target hB hm hf
  refine ⟨x, Sdk.mem_orders.2 ⟨_, hx⟩, hid, ?_⟩
  rw [hfit.price, hsh.1]

theorem Does.fill_price (hB : BookLaws S) (h : Does S c e c') (hc : BooksOk S c) {t : Trade}
    (ht : e.trade = some t) {f : Match} (hf : f ∈ t.fills) :
    ∃ m x, c.markets.lookup t.marketId = some m ∧ x ∈ S.orders m.orderbook ∧
      x.id = f.makerOrderId ∧ f.fillPriceLots = x.limitPriceLots := by
  obtain ⟨m, n, r, m', s, c₁, htraded, hm, -, hfills⟩ := h.traded ht
  obtain ⟨x, hx, h⟩ := htraded.fill_price hB (hc _ _ hm) (hfills ▸ hf)
  exact ⟨m, x, hm, hx, h⟩

/-- What the steps of a run keep, once the order was placed. -/
theorem Effects.restsAt (hB : BookLaws S) (h : Effects S c es c') (hc : BooksOk S c)
    (hid : S.seqOf id ≤ c.prevOrderSequenceNumber) (hr : RestsAt S mid id lots lotSize c) :
    BooksOk S c' ∧ RestsAt S mid id lots lotSize c' := by
  induction h with
  | nil c => exact ⟨hc, hr⟩
  | cons head _ ih =>
    exact ih (head.booksOk hB hc) (hid.trans head.seq_le) (head.restsAt hB hc hid hr)

/-! ## Within the limit -/

/-- A price is no worse than a limit. -/
def Side.Within : Side → ℕ → ℕ → Prop
  | buy, price, limit => price ≤ limit
  | sell, price, limit => limit ≤ price

/-- The fills that the order `r` causes, and those that it gets later, in any
    course of events, are within its limit. -/
structure FillsWithin (S : Sdk B) (mid : MarketId) (side : Side) (lotSize limit : ℕ)
    (r : PlaceOrderResult) (c' : Contract B) : Prop where
  now : ∀ f ∈ r.fills, side.Within (f.fillPriceLots * lotSize) limit
  later : ∀ es c₁ e c₂ t, Effects S c' es c₁ → Does S c₁ e c₂ → e.trade = some t →
    t.marketId = mid → ∀ f ∈ t.fills, f.makerOrderId = r.id →
      side.Within (f.fillPriceLots * lotSize) limit

/-- Whatever the market, with quote lots of the size `lotSize`, the book and the
    order, a limit order of this side and limit is filled within its limit. -/
def LimitProtected (side : Side) (lotSize limit : ℕ) : Prop :=
  ∀ {B : Type} (S : Sdk B), BookLaws S → ∀ c : Contract B, BooksOk S c →
    ∀ env mid m p r c', c.markets.lookup mid = some m → m.quoteToken.lotSize = lotSize →
      p.side = side → p.limitPrice = some limit → p.orderType ≠ .market →
      newOrder S env c mid p = .ok (r, c') → FillsWithin S mid side lotSize limit r c'

/-- The limit in lots is no worse than the limit. -/
def LimitExact (side : Side) (lotSize limit : ℕ) : Prop :=
  side = .buy ∨ (lotSize ∣ limit ∧ limit / lotSize < 2 ^ 64)

instance (side : Side) (lotSize limit : ℕ) : Decidable (LimitExact side lotSize limit) :=
  inferInstanceAs (Decidable (_ ∨ _))

theorem asU64_within {side : Side} {limit : ℕ} (h : LimitExact side lotSize limit) :
    side.Within (asU64 (limit / lotSize) * lotSize) limit := by
  cases side with
  | buy =>
    calc asU64 (limit / lotSize) * lotSize ≤ limit / lotSize * lotSize :=
          Nat.mul_le_mul_right _ (Checked.wrap_le 64 _)
      _ ≤ limit := Nat.div_mul_le_self limit lotSize
  | sell =>
    obtain h | ⟨hdvd, hlt⟩ := h
    · cases h
    · have hlots : asU64 (limit / lotSize) = limit / lotSize := Checked.wrap_of_lt hlt
      rw [hlots, Nat.div_mul_cancel hdvd]
      exact Nat.le_refl limit

/-- A better price in lots is better in native quote. -/
theorem Side.Within.mono {side : Side} {p p' limit : ℕ}
    (hp : match side with | .buy => p' ≤ p | .sell => p ≤ p')
    (h : side.Within (p * lotSize) limit) : side.Within (p' * lotSize) limit := by
  cases side with
  | buy => exact (Nat.mul_le_mul_right _ hp).trans h
  | sell => exact Nat.le_trans h (Nat.mul_le_mul_right _ hp)

/-- **A limit that is exact in lots protects**, at once and later. -/
theorem limitProtected_of_exact {side : Side} {limit : ℕ} (h : LimitExact side lotSize limit) :
    LimitProtected side lotSize limit := by
  rintro B S hB c hc env mid m p r c' hm rfl rfl hlimit htype hop
  obtain ⟨run⟩ := newOrder_ok hop
  obtain rfl : run.m = m := Option.some_inj.1 (run.found.symm.trans hm)
  have hdoes : Does S c (.order env mid p r) c' := .order run
  have hmarket := hc mid run.m run.found
  have hplaced := run.path.traded.placement hB hmarket
  have hside := run.path.side
  have hid : r.id = run.done.result.id := congrArg PlaceOrderResult.id run.result
  -- the limit the engine was given
  obtain ⟨l, hl, -, hlots, -⟩ := run.path.limit htype
  obtain rfl : limit = l := Option.some_inj.1 (hlimit.symm.trans hl)
  have hexact := asU64_within h
  constructor
  · intro f hf
    have hf' : f ∈ run.done.result.fills :=
      (congrArg (fun r : PlaceOrderResult => f ∈ r.fills) run.result).mp hf
    obtain ⟨x, -, -, x', -, hfit⟩ := run.path.traded.fill_target hB hmarket hf'
    have hworse := hfit.limit _ hlots
    rw [← hfit.price, hside] at hworse
    exact .mono hworse hexact
  · intro es c₁ e c₂ t heffects hd ht htmid f hf hmaker
    -- the posted order, if any, rests at the limit
    have hseq : S.seqOf r.id ≤ c'.prevOrderSequenceNumber := by
      rw [hid, hplaced.seq, run.path.traded.seq, run.seq_eq]
    have hrests : RestsAt S mid r.id (asU64 (limit / run.m.quoteToken.lotSize))
        run.m.quoteToken.lotSize c' := by
      intro m' x hm' hx hxid
      rw [run.markets_eq, AList.lookup_insert] at hm'
      cases hm'
      obtain ⟨side, hxside⟩ := Sdk.mem_orders.1 hx
      obtain ⟨y, hy, hsh⟩ | ⟨-, -, price, hprice, rfl⟩ := hplaced.origin hxside
      · have hy' : y.id ∈ S.ids run.m.orderbook :=
          Sdk.mem_ids.2 ⟨y, Sdk.mem_orders.2 ⟨side, hy⟩, rfl⟩
        have hyid : y.id = run.done.result.id := by rw [← hid, ← hxid, hsh.1]
        exact absurd (hyid ▸ hy') (hplaced.id_new (run.path.traded.new hmarket))
      · rw [hlots] at hprice
        cases hprice
        exact ⟨rfl, by rw [run.path.traded.market]⟩
    obtain ⟨hbooks, hrests'⟩ := heffects.restsAt hB (hdoes.booksOk hB hc) hseq hrests
    obtain ⟨m₁, x, hm₁, hx, hxid, hprice⟩ := hd.fill_price hB hbooks ht hf
    rw [htmid] at hm₁
    obtain ⟨hxprice, -⟩ := hrests' m₁ x hm₁ hx (hxid.trans hmaker)
    rw [hprice, hxprice]
    exact hexact

/-! ## A limit that is not exact

One bid rests, of one lot at the price `lots`; alice sells one lot with a limit
that comes to at most `lots`. -/

namespace OneBid

open Engine

variable {limit : ℕ}

def bid (lots : ℕ) : OpenLimitOrder := ⟨1, bob, .buy, lots, 1, none⟩

def fill (lotSize lots : ℕ) : Match := ⟨1, bob, 1, lots, lots * lotSize, true⟩

/-- A market without fees, in lots of 1 `btc` and `lotSize` `usd`. -/
def market (lotSize : ℕ) (book : Book) : Market Book where
  state := .active
  baseToken := ⟨.fungibleToken btc, 1, 0⟩
  quoteToken := ⟨.fungibleToken usd, lotSize, 0⟩
  orderbook := book
  takerFeeBaseRate := 0
  makerRebateBaseRate := 0
  maxOrdersPerAccount := defaultMaxOrders
  feesAccrued := 0
  minimumBidBps := defaultMinMultiplierBps
  maximumAskBps := defaultMaxMultiplierBps

/-- The order of alice, with its limit in lots. -/
def sale (lotSize q : ℕ) : NewOrder :=
  ⟨2, some q, 1, none, .sell, .immediateOrCancel, lotSize, 1, 1, none⟩

def seller : Account := ⟨AList.insert (tokenKey (.fungibleToken btc)) 1 ∅, ∅, 10 ^ 22⟩

def bidder : Account := ⟨∅, AList.insert btcUsd (AList.insert 1 ⟨1, 0⟩ ∅) ∅, 10 ^ 22⟩

def state (lotSize lots seq : ℕ) : Contract Book where
  ownerId := dao
  accounts := AList.insert alice seller (AList.insert bob bidder ∅)
  markets := AList.insert btcUsd (market lotSize ⟨[bid lots], []⟩) ∅
  marketIterMap := [btcUsd]
  prevOrderSequenceNumber := seq
  state := .active

theorem booksOk (hlot : lotSize ≠ 0) : BooksOk sdk (state lotSize lots 1) := by
  intro mid m hm
  rw [state, HMap.lookup_insert_eq] at hm
  split_ifs at hm with hmid
  swap
  · cases hm
  cases hm
  constructor
  case nodup => exact List.nodup_singleton 1
  case side =>
    rintro (_ | _) o ho
    · rw [List.mem_singleton.1 ho]
      rfl
    · cases ho
  case old =>
    intro id hid
    rw [List.mem_singleton.1 hid]
    exact Nat.le_refl 1
  case rates => exact .inr ⟨rfl, rfl⟩
  case takerRate => exact Nat.zero_lt_succ _
  case baseLot => exact Nat.one_ne_zero
  case quoteLot => exact hlot
  case maxOrders => rfl

/-- What alice receives and pays. -/
def sold (proceeds : ℕ) : Account :=
  (seller.credit (tokenKey (.fungibleToken usd)) proceeds).debit (tokenKey (.fungibleToken btc)) 1

/-- What bob receives, a rebate of nothing first. -/
def bought : Account :=
  ((bidder.forget btcUsd 1).credit (tokenKey (.fungibleToken usd)) 0).credit
    (tokenKey (.fungibleToken btc)) 1

theorem lookup_btc (n : ℕ) : (seller.credit (tokenKey (.fungibleToken usd)) n).balances.lookup
    (tokenKey (.fungibleToken btc)) = some 1 :=
  (AList.lookup_insert_ne (by decide)).trans (AList.lookup_insert _)

theorem covered_sold (n : ℕ) : (sold n).isStorageCovered sdk := by
  have hsize : (sold n).borshSize sdk ≤
      seller.borshSize sdk + seller.missing sdk (tokenKey (.fungibleToken usd)) :=
    (Account.borshSize_debit_le sizeLaws (lookup_btc n) 1).trans
      (Account.borshSize_credit sizeLaws _ _ _).le
  have hroom : (seller.borshSize sdk + seller.missing sdk (tokenKey (.fungibleToken usd))) *
      sdk.storageByteCost ≤ 10 ^ 22 := by decide +kernel
  exact (Nat.mul_le_mul_right _ hsize).trans hroom

/-- The engine fills the bid. -/
theorem placeOrder_eq {q : ℕ} (hq : q ≤ lots) :
    (market lotSize ⟨[bid lots], []⟩).placeOrder sdk 2 alice (some q) 1 none .sell
        .immediateOrCancel none =
      .ok (⟨2, [fill lotSize lots], 0, false, none, none⟩, market lotSize .empty) := by
  have hactive : (market lotSize ⟨[bid lots], []⟩).assertActive = .ok () := rfl
  have hd : (market lotSize ⟨[bid lots], []⟩).baseDenomination = .ok 1 := rfl
  have hne : bob ≠ alice := by decide
  have hoffered : matching.offered alice (sale lotSize q) ⟨[bid lots], []⟩ =
      [fill lotSize lots] := by
    change matching.sweep alice (sale lotSize q) [] [bid lots] = [fill lotSize lots]
    simp [Matching.sweep, Matching.fillQty, NewOrder.crosses, NewOrder.fill, sale, bid, hne, hq,
      fill, quoteValue]
  have hfills : matching.fills alice (sale lotSize q) ⟨[bid lots], []⟩ = [fill lotSize lots] := by
    rw [Matching.fills, hoffered]
    rfl
  have hplaced : placeOrder ⟨[bid lots], []⟩ alice (sale lotSize q) =
      .ok (⟨2, [fill lotSize lots], 0, false, none, none⟩, .empty) := by
    have hown : meetsOwn alice (sale lotSize q) [] [bid lots] = false := by
      simp [meetsOwn, bid, hne]
    unfold placeOrder
    rw [hfills, if_neg (by rw [Bool.not_eq_true]; exact hown)]
    rfl
  unfold Market.placeOrder
  rw [hactive, hd]
  simp only [Checked.ok_bind]
  exact (congrArg (· >>= _) hplaced).trans rfl

theorem atRate_zero (q : ℕ) : FeeCalculator.atRate 0 q = .ok 0 := by
  have hfit : Checked.fit Panic.unwrap 128 (q * 0) = .ok 0 :=
    Checked.fit_of_lt (Nat.two_pow_pos 128)
  rw [FeeCalculator.atRate, hfit]
  rfl

theorem settleMatches_eq (hfits : lots * lotSize < 2 ^ 128) {c : Contract Book}
    (hbob : c.accounts.lookup bob = some bidder) (bug : String) :
    settleMatches sdk c btcUsd (market lotSize .empty) ⟨0, 0⟩ .sell [fill lotSize lots] none bug =
      .ok (⟨⟨1, lots * lotSize, 0⟩, 0, 0⟩, c.putAccount bob bought) := by
  have hcov : bought.isStorageCovered sdk := by decide +kernel
  have hcredit : creditMaker sdk btcUsd (market lotSize .empty) .sell (fill lotSize lots) 1
      bidder = .ok (0, bought) := by
    have hrebate : FeeCalculator.makerRebate ⟨0, 0⟩ (fill lotSize lots).nativeQuotePaid = .ok 0 :=
      atRate_zero _
    unfold creditMaker
    simp only [FeeCalculator.new, market, hrebate]
    rfl
  have hmakers : internalSettleMakerFills sdk c btcUsd (market lotSize .empty) .sell
      [fill lotSize lots] = .ok (⟨1, lots * lotSize, 0⟩, c.putAccount bob bought) := by
    have hload : c.internalUnwrapAccount (fill lotSize lots).makerUserId = .ok bidder :=
      Contract.internalUnwrapAccount_eq_ok.2 hbob
    have hsave : c.internalSaveAccount sdk (fill lotSize lots).makerUserId bought =
        .ok (c.putAccount bob bought) := Contract.internalSaveAccount_eq_ok.2 ⟨hcov, rfl⟩
    have hprice : (market lotSize .empty).quoteLotsToNative (fill lotSize lots).fillPriceLots =
        .ok (lots * lotSize) := Checked.fit_of_lt hfits
    have hqty : (market lotSize .empty).baseLotsToNative (fill lotSize lots).fillQtyLots =
        .ok 1 := rfl
    have hbase : u128 (MakerSettlementResult.default.baseTraded + 1) = .ok 1 := rfl
    have hquote : u128 (MakerSettlementResult.default.quoteTraded +
        (fill lotSize lots).nativeQuotePaid) = .ok (lots * lotSize) := by
      have hsum : MakerSettlementResult.default.quoteTraded +
          (fill lotSize lots).nativeQuotePaid = lots * lotSize := Nat.zero_add _
      rw [hsum]
      exact Checked.fit_of_lt hfits
    have hrebate : u128 (MakerSettlementResult.default.totalMakerRebate + 0) = .ok 0 := rfl
    simp only [internalSettleMakerFills, settleMakerFill, List.foldlM_cons, List.foldlM_nil,
      hprice, hqty, hbase, hquote, hload, hcredit, hrebate, hsave, Checked.ok_bind]
    rfl
  have hfee : FeeCalculator.takerFee ⟨0, 0⟩ (lots * lotSize) = .ok 0 := atRate_zero _
  unfold settleMatches
  rw [hmakers]
  simp only [Checked.ok_bind, hfee]
  rfl

theorem internalPlaceLimitSell_eq (hlot : lotSize ≠ 0) (hlots : asU64 (limit / lotSize) ≤ lots)
    (hfits : lots * lotSize < 2 ^ 128) :
    internalPlaceLimitSell sdk (calling alice 0) (state lotSize lots 1) btcUsd
        (market lotSize ⟨[bid lots], []⟩) alice seller
        (order .sell .immediateOrCancel limit 1 none) =
      .ok ⟨⟨2, [fill lotSize lots], 0, false, none, none⟩, market lotSize .empty,
        sold (lots * lotSize), (state lotSize lots 2).putAccount bob bought⟩ := by
  have hask : ∀ p, (market lotSize ⟨[bid lots], []⟩).assertAskWindow sdk p = .ok () :=
    fun _ => rfl
  have hqty : (market lotSize ⟨[bid lots], []⟩).baseNativeToLots 1 = .ok 1 := by
    simp only [Market.baseNativeToLots, Checked.bind_eq_ok, Checked.div_eq_ok]
    exact ⟨1, ⟨Nat.one_ne_zero, Nat.div_one 1⟩, rfl⟩
  have hexpect : Checked.expect (Panic.error .missingLimitPrice) (some limit) = .ok limit := rfl
  have hquote : (market lotSize ⟨[bid lots], []⟩).quoteNativeToLots limit =
      .ok (asU64 (limit / lotSize)) := by
    simp only [Market.quoteNativeToLots, Checked.bind_eq_ok, Checked.div_eq_ok]
    exact ⟨_, ⟨hlot, rfl⟩, rfl⟩
  have hseq : (state lotSize lots 1).nextSequenceNumber = .ok (2, state lotSize lots 2) := rfl
  have hfee : FeeCalculator.new seller (market lotSize ⟨[bid lots], []⟩) = ⟨0, 0⟩ := rfl
  have hreceived : sub (lots * lotSize) 0 = .ok (lots * lotSize) :=
    Checked.sub_eq_ok.2 ⟨Nat.zero_le _, rfl⟩
  have hdeposit : seller.deposit sdk (market lotSize .empty).quoteToken.tokenType
      (lots * lotSize) = .ok (seller.credit (tokenKey (.fungibleToken usd)) (lots * lotSize)) := by
    refine Account.deposit_eq_ok.2 ⟨?_, rfl⟩
    rintro x ⟨⟩
  have hlocked : (market lotSize .empty).baseLotsToNative 0 = .ok 0 := rfl
  have hdebit : u128 (1 + 0) = .ok 1 := rfl
  have hwithdraw : (seller.credit (tokenKey (.fungibleToken usd)) (lots * lotSize)).withdraw sdk
      (market lotSize .empty).baseToken.tokenType 1 = .ok (sold (lots * lotSize)) :=
    Account.withdraw_eq_ok.2 ⟨⟨1, lookup_btc _, Nat.le_refl 1⟩, rfl⟩
  have hnet : Settled.netFee ⟨⟨1, lots * lotSize, 0⟩, 0, 0⟩ = .ok 0 := rfl
  have hfees : (market lotSize .empty).incrFeesAccrued 0 = .ok (market lotSize .empty) := rfl
  unfold internalPlaceLimitSell
  simp only [order, hask, hqty, hexpect, hquote, hseq, hfee, placeOrder_eq hlots, Checked.ok_bind]
  rw [settleMatches_eq hfits rfl]
  simp only [hnet, hfees, hreceived, hdeposit, hlocked, hdebit, hwithdraw, Checked.ok_bind]
  rfl

/-- Alice sells at the price of the bid. -/
theorem newOrder_eq (hlimit : limit ≠ 0) (hlot : lotSize ≠ 0)
    (hlots : asU64 (limit / lotSize) ≤ lots) (hfits : lots * lotSize < 2 ^ 128) :
    ∃ c', newOrder sdk (calling alice 0) (state lotSize lots 1) btcUsd
      (order .sell .immediateOrCancel limit 1 none) =
        .ok (⟨2, [fill lotSize lots], 0, false, none, none⟩, c') := by
  have hvalid : assertValidOrder (order .sell .immediateOrCancel limit 1 none) = .ok () := by
    simp [assertValidOrder, order, hlimit]
  have hmarket : (state lotSize lots 1).internalUnwrapMarket btcUsd =
      .ok (market lotSize ⟨[bid lots], []⟩) :=
    Contract.internalUnwrapMarket_eq_ok.2 (AList.lookup_insert _)
  have haccount : (state lotSize lots 1).internalUnwrapAccount
      (calling alice 0).predecessorAccountId = .ok seller :=
    Contract.internalUnwrapAccount_eq_ok.2 (AList.lookup_insert _)
  have hactive : (state lotSize lots 1).assertActive = .ok () := rfl
  have hactive' : (market lotSize ⟨[bid lots], []⟩).assertActive = .ok () := rfl
  have hpath : placeByType sdk (calling alice 0) (state lotSize lots 1) btcUsd
      (market lotSize ⟨[bid lots], []⟩) (calling alice 0).predecessorAccountId seller
      (order .sell .immediateOrCancel limit 1 none) = .ok _ :=
    internalPlaceLimitSell_eq hlot hlots hfits
  have hsave : ((state lotSize lots 2).putAccount bob bought).internalSaveAccount sdk
      (calling alice 0).predecessorAccountId (sold (lots * lotSize)) = .ok _ :=
    Contract.internalSaveAccount_eq_ok.2 ⟨covered_sold _, rfl⟩
  refine ⟨(((state lotSize lots 2).putAccount bob bought).putAccount alice
    (sold (lots * lotSize))).internalSaveMarket btcUsd (market lotSize .empty), ?_⟩
  simp only [newOrder, hactive, hvalid, hmarket, hactive', haccount, hpath, hsave,
    Checked.ok_bind]
  rfl

end OneBid

/-- A limit that is not exact in lots comes to less than the limit. -/
theorem asU64_mul_lt {limit : ℕ} (hlot : lotSize ≠ 0)
    (h : ¬ (lotSize ∣ limit ∧ limit / lotSize < 2 ^ 64)) :
    asU64 (limit / lotSize) * lotSize < limit := by
  have hpos : 0 < lotSize := Nat.pos_of_ne_zero hlot
  have hle : limit / lotSize * lotSize ≤ limit := Nat.div_mul_le_self limit lotSize
  by_cases hfits : limit / lotSize < 2 ^ 64
  · -- the division rounded
    have hlots : asU64 (limit / lotSize) = limit / lotSize := Checked.wrap_of_lt hfits
    rw [hlots]
    refine lt_of_le_of_ne hle fun heq => h ⟨?_, hfits⟩
    exact Dvd.intro_left _ heq
  · -- the cast dropped the high bits
    have hlt : asU64 (limit / lotSize) < limit / lotSize :=
      (Checked.wrap_lt 64 _).trans_le (not_lt.1 hfits)
    calc asU64 (limit / lotSize) * lotSize < limit / lotSize * lotSize :=
          Nat.mul_lt_mul_of_pos_right hlt hpos
      _ ≤ limit := hle

/-- **A limit protects just in case it is exact in lots**: always for bids, and
    for asks if it is a whole number of lots that fits into 64 bits. -/
theorem limit_protected_iff {side : Side} {limit : ℕ} (hlot : lotSize ≠ 0)
    (hlimit : limit < 2 ^ 128) :
    LimitProtected side lotSize limit ↔ LimitExact side lotSize limit := by
  refine ⟨fun h => ?_, limitProtected_of_exact⟩
  cases side with
  | buy => exact .inl rfl
  | sell =>
    by_contra hexact
    have hbelow : asU64 (limit / lotSize) * lotSize < limit :=
      asU64_mul_lt hlot fun hex => hexact (.inr hex)
    have hzero : limit ≠ 0 := by
      rintro rfl
      cases hbelow
    obtain ⟨c', hop⟩ := OneBid.newOrder_eq hzero hlot (Nat.le_refl _) (hbelow.trans hlimit)
    have htype : OrderType.immediateOrCancel ≠ .market := by decide
    have hwithin := (h Engine.sdk Engine.bookLaws _ (OneBid.booksOk hlot) _ _ _ _ _ _
      (AList.lookup_insert _) rfl rfl rfl htype hop).now _ (List.mem_singleton_self _)
    exact absurd hbelow (not_lt.2 hwithin)

/-- An ask at two lots of ten. -/
theorem limit_protected_two_lots : LimitProtected .sell 10 20 :=
  (limit_protected_iff (by decide) (by decide)).2 (.inr (by decide))

/-- Bob has a bid of one lot, and Alice has `btc`. -/
def oneLotBid : List Event :=
  Engine.listed ++ [Engine.pay Engine.btc Engine.alice 1000,
    Engine.pay Engine.usd Engine.bob 100000,
    .call (Engine.calling Engine.bob 0)
      (.newOrder Engine.btcUsd (Engine.order .buy .limit 10 1000 none))]

/-- Alice asks at least 15 and sells at 10. -/
theorem limit_missed : System.Reachable Engine.sdk (Engine.run oneLotBid) ∧
    ((Engine.run oneLotBid).contract.markets.lookup Engine.btcUsd).map (fun m =>
      m.quoteToken.lotSize) = some 10 ∧
    (newOrder Engine.sdk (Engine.calling Engine.alice 0) (Engine.run oneLotBid).contract
      Engine.btcUsd (Engine.order .sell .immediateOrCancel 15 600 none)).toOption.map (fun x =>
        x.1.fills.map fun f => (f.fillQtyLots, f.fillPriceLots)) = some [(600, 1)] ∧
    1 * 10 < 15 :=
  ⟨Engine.reachable_run oneLotBid, by decide +kernel, by decide +kernel, by decide⟩

end TonicDex
