/-
  The log is that of an exchange.

  `Legal S log` says what every line of a log has to be, given the lines before
  it: an order is new, its fills take what is left of announced orders of the
  other side and of other accounts, at no more than the announced prices, and
  its fee pays for the rebates; a cancellation removes all that is left of
  orders of one account.  The log of every run is legal (`legal_of_logs`).
-/
import TonicDex.Invariant.LimitPrice
import TonicDex.Invariant.Replay

namespace TonicDex

variable {B : Type} {S : Sdk B} {c c' : Contract B} {mid : MarketId} {m m' : Market B}
  {b b' : B} {taker owner : AccountId} {n : NewOrder} {r : PlaceOrderResult} {log es : Log}
  {i : MarketIndex} {e : NewOrderEvent}

/-! ## Legal logs -/

/-- A fill that the order may cause. -/
structure FillEventData.FillsFor (d : FillEventData) (i : MarketIndex) (e : NewOrderEvent) :
    Prop where
  side : d.side = e.side
  taker : d.takerAccountId = e.accountId
  other : d.makerAccountId ≠ e.accountId
  maker : ∃ e₀, i.orders d.makerOrderId = some e₀ ∧ e₀.accountId = d.makerAccountId ∧
    e₀.side = e.side.opposite ∧ d.fillPrice ≤ e₀.limitPrice
  /-- an order without a limit is announced with the price 0 -/
  limit : e.side = .buy → e.limitPrice ≠ 0 → d.fillPrice ≤ e.limitPrice

/-- An order in its market, with its fills. -/
structure NewOrderEvent.Fits (e : NewOrderEvent) (i : MarketIndex) (fs : List FillEventData) :
    Prop where
  fills : ∀ d ∈ fs, d.FillsFor i e
  covered : ∀ o, qtyFilled fs o ≤ i.remaining o
  quantity : (fs.map FillEventData.fillQty).sum + e.openQuantity.getD 0 ≤ e.quantity
  fees : (fs.map FillEventData.makerRebate).sum + e.referrerRebate ≤ e.takerFee
  free : fs = [] → e.takerFee = 0

/-- A cancelled order of an account. -/
structure CancelEventData.Fits (d : CancelEventData) (i : MarketIndex) (owner : AccountId) :
    Prop where
  quantity : d.cancelledQty = i.remaining d.orderId
  order : ∃ e, i.orders d.orderId = some e ∧ e.accountId = owner ∧
    match e.side with
    | .buy => d.refundToken = i.created.quoteToken
    | .sell => d.refundToken = i.created.baseToken ∧ d.refundAmount = d.cancelledQty

/-- The lines of an order and its fills. -/
def orderLines (e : NewOrderEvent) (fs : List FillEventData) : Log :=
  (if fs.isEmpty then [] else [.fill ⟨fs, e.marketId, e.orderId⟩]) ++ [.order e]

/-- A log whose every line can follow those before it. -/
inductive Legal (S : Sdk B) : Log → Prop
  | nil : Legal S []
  | newMarket {log : Log} (e : NewMarketEvent) (past : Legal S log) :
      Legal S (log ++ [.newMarket e])
  | order {log : Log} {e : NewOrderEvent} {i : MarketIndex} {fs : List FillEventData}
      (past : Legal S log) (index : replay e.marketId log = some i)
      (new : ∀ e', .order e' ∈ log → S.seqOf e'.orderId < S.seqOf e.orderId) (fits : e.Fits i fs) :
      Legal S (log ++ orderLines e fs)
  | cancel {log : Log} {mid : MarketId} {ds : List CancelEventData} {owner : AccountId}
      {i : MarketIndex} (past : Legal S log) (index : replay mid log = some i)
      (each : (ds.map CancelEventData.orderId).Nodup) (fits : ∀ d ∈ ds, d.Fits i owner) :
      Legal S (log ++ [.cancel ⟨mid, ds⟩])

/-! ## What a legal log says -/

/-- The index accounts for every order that was announced. -/
structure MarketIndex.Accounts (i : MarketIndex) (log : Log) : Prop where
  announced : ∀ o e, i.orders o = some e → .order e ∈ log ∧ e.orderId = o
  amounts : ∀ o e, i.orders o = some e →
    i.filled o + i.cancelled o + i.remaining o = e.openQuantity.getD 0
  nothing : ∀ o, i.orders o = none → i.filled o = 0 ∧ i.cancelled o = 0 ∧ i.remaining o = 0

theorem MarketIndex.Accounts.mono (h : i.Accounts log) : i.Accounts (log ++ es) :=
  ⟨fun o e he => ⟨List.mem_append_left _ (h.announced o e he).1, (h.announced o e he).2⟩,
    h.amounts, h.nothing⟩

theorem MarketIndex.Accounts.new (e : NewMarketEvent) : (MarketIndex.new e).Accounts log := by
  refine ⟨fun o e he => ?_, fun o e he => ?_, fun o _ => ⟨rfl, rfl, rfl⟩⟩
  · cases he
  · cases he

theorem MarketIndex.Accounts.order (h : i.Accounts log) {fs : List FillEventData}
    (new : ∀ e', .order e' ∈ log → S.seqOf e'.orderId < S.seqOf e.orderId) (fits : e.Fits i fs)
    (hes : .order e ∈ es) : ((fs.foldl .fill i).order e).Accounts (log ++ es) := by
  have hnew : i.orders e.orderId = none := by
    rcases ho : i.orders e.orderId with _ | e'
    · rfl
    · obtain ⟨hmem, hid⟩ := h.announced _ _ ho
      exact absurd (hid ▸ new e' hmem) (lt_irrefl _)
  obtain ⟨hf, hc, hr⟩ := h.nothing _ hnew
  have hcovered := fits.covered
  rw [MarketIndex.foldl_fill]
  constructor
  case announced =>
    intro o e' he'
    change (if o = e.orderId then some e else i.orders o) = some e' at he'
    split_ifs at he' with ho
    · cases he'
      exact ⟨List.mem_append_right _ hes, ho.symm⟩
    · exact ⟨List.mem_append_left _ (h.announced o e' he').1, (h.announced o e' he').2⟩
  case amounts =>
    intro o e' he'
    change (if o = e.orderId then some e else i.orders o) = some e' at he'
    have hle := hcovered o
    show i.filled o + qtyFilled fs o + i.cancelled o +
      (if o = e.orderId then e.openQuantity.getD 0 else i.remaining o - qtyFilled fs o) = _
    split_ifs at he' ⊢ with ho
    · cases he'
      rw [ho] at hle ⊢
      omega
    · have := h.amounts o e' he'
      omega
  case nothing =>
    intro o he'
    change (if o = e.orderId then some e else i.orders o) = none at he'
    have hle := hcovered o
    show i.filled o + qtyFilled fs o = 0 ∧ i.cancelled o = 0 ∧
      (if o = e.orderId then e.openQuantity.getD 0 else i.remaining o - qtyFilled fs o) = 0
    split_ifs at he' ⊢ with ho
    obtain ⟨h1, h2, h3⟩ := h.nothing o he'
    omega

/-- A cancellation takes each of its orders off whole. -/
theorem qtyCancelled_eq {q : OrderId → ℕ} (o : OrderId) : ∀ {ds : List CancelEventData},
    (ds.map CancelEventData.orderId).Nodup → (∀ d ∈ ds, d.cancelledQty = q d.orderId) →
      qtyCancelled ds o = if o ∈ ds.map CancelEventData.orderId then q o else 0
  | [], _, _ => rfl
  | d :: ds, hn, hq => by
    obtain ⟨hd, hn⟩ := List.nodup_cons.1 hn
    obtain ⟨hqd, hq⟩ := List.forall_mem_cons.1 hq
    have ih := qtyCancelled_eq o hn hq
    rw [qtyCancelled] at ih
    rw [qtyCancelled, List.map_cons, List.sum_cons, ih, List.map_cons, hqd]
    by_cases ho : d.orderId = o
    · subst ho
      rw [if_pos rfl, if_neg hd, if_pos List.mem_cons_self, Nat.add_zero]
    · rw [if_neg ho, Nat.zero_add]
      exact if_congr ⟨List.mem_cons_of_mem _,
        fun h => (List.mem_cons.1 h).resolve_left fun he => ho he.symm⟩ rfl rfl

theorem MarketIndex.Accounts.cancel (h : i.Accounts log) {ds : List CancelEventData}
    (each : (ds.map CancelEventData.orderId).Nodup) (fits : ∀ d ∈ ds, d.Fits i owner) :
    (ds.foldl .cancel i).Accounts (log ++ es) := by
  have hle : ∀ o, qtyCancelled ds o ≤ i.remaining o := by
    intro o
    rw [qtyCancelled_eq o each fun d hd => (fits d hd).quantity]
    split_ifs
    · exact le_rfl
    · exact Nat.zero_le _
  rw [MarketIndex.foldl_cancel]
  refine ⟨(h.mono).announced, fun o e he => ?_, fun o ho => ?_⟩
  · have h1 := h.amounts o e he
    have h2 := hle o
    show i.filled o + (i.cancelled o + qtyCancelled ds o) + (i.remaining o - qtyCancelled ds o) = _
    omega
  · have h1 := h.nothing o ho
    have h2 := hle o
    show i.filled o = 0 ∧ i.cancelled o + qtyCancelled ds o = 0 ∧
      i.remaining o - qtyCancelled ds o = 0
    omega

theorem marketId_of_mem_orderLines {fs : List FillEventData} {ev : EventType}
    (h : ev ∈ orderLines e fs) : ev.marketId = e.marketId := by
  rw [orderLines, List.mem_append, List.mem_singleton] at h
  rcases h with h | rfl
  · split_ifs at h
    · cases h
    · rw [List.mem_singleton.1 h]
      rfl
  · rfl

theorem foldl_orderLines (i : MarketIndex) (fs : List FillEventData) :
    (orderLines e fs).foldl (replayEvent e.marketId) (some i) =
      some ((fs.foldl .fill i).order e) := by
  have hfills : (if fs.isEmpty then [] else [.fill ⟨fs, e.marketId, e.orderId⟩] : Log).foldl
      (replayEvent e.marketId) (some i) = some (fs.foldl .fill i) := by
    cases fs with
    | nil => rfl
    | cons d ds => exact if_pos rfl
  rw [orderLines, List.foldl_append, hfills]
  exact if_pos rfl

/-- **A legal log accounts for every order**: what it left open is filled, is
    cancelled, or remains. -/
theorem Legal.accounts (h : Legal S log) : ∀ {i}, replay mid log = some i → i.Accounts log := by
  induction h with
  | nil =>
    intro i hi
    cases hi
  | @newMarket log e past ih =>
    intro i hi
    by_cases hmid : e.marketId = mid
    · rw [replay_append] at hi
      rw [← Option.some.inj ((if_pos hmid).symm.trans hi)]
      exact .new e
    · have hother : (EventType.newMarket e).marketId ≠ mid := hmid
      rw [replay_concat_of_ne hother] at hi
      exact (ih hi).mono
  | @order log e i₀ fs past index new fits ih =>
    intro i hi
    by_cases hmid : e.marketId = mid
    · subst hmid
      rw [replay_append, index, foldl_orderLines] at hi
      cases hi
      exact (ih index).order new fits (List.mem_append_right _ List.mem_cons_self)
    · rw [replay_append_of_ne fun ev hev => marketId_of_mem_orderLines hev ▸ hmid] at hi
      exact (ih hi).mono
  | @cancel log mid₀ ds owner i₀ past index each fits ih =>
    intro i hi
    by_cases hmid : mid₀ = mid
    · subst hmid
      rw [replay_append, index] at hi
      rw [← Option.some.inj ((if_pos rfl).symm.trans hi)]
      exact (ih index).cancel each fits
    · have hother : (EventType.cancel ⟨mid₀, ds⟩).marketId ≠ mid := hmid
      rw [replay_concat_of_ne hother] at hi
      exact (ih hi).mono

/-! ## Trades -/

theorem fillEvents_eq (m : Market B) (mid : MarketId) (id : OrderId) (side : Side)
    (taker : AccountId) (fs : List Match) : m.fillEvents mid id side taker fs =
      if (fs.map (m.fillData side taker)).isEmpty then []
      else [.fill ⟨fs.map (m.fillData side taker), mid, id⟩] := by
  rw [List.isEmpty_map]
  rfl

/-- Every fill of a trade is one that its order may cause. -/
theorem MarketIndex.Shows.fillsFor (hB : BookLaws S) (h : i.Shows S m)
    (hm : MarketOk S c.prevOrderSequenceNumber m) {ref : Option AccountId} {s : Settled}
    (traded : Traded S c mid m taker n ref r m' s c') (told : e.Of mid m taker n r s)
    {f : Match} (hf : f ∈ r.fills) : (m.fillData n.side taker f).FillsFor i e := by
  obtain ⟨x, hx, hid, x', hs, fit⟩ := traded.fill_target hB hm hf
  obtain ⟨e₀, he₀, ha⟩ := h.orders x (Sdk.mem_orders.2 ⟨_, hx⟩)
  have howner : x'.ownerId = x.ownerId := by rw [hs.1]
  have hprice : f.fillPriceLots = x.limitPriceLots := by rw [fit.price, hs.1]
  refine ⟨told.side.symm, told.account.symm, ?_, ⟨e₀, ?_, ?_, ?_, ?_⟩, fun hside hlimit => ?_⟩
  · show f.makerUserId ≠ e.accountId
    rw [fit.maker, told.account]
    exact fit.other
  · show i.orders f.makerOrderId = some e₀
    rw [← hid, he₀]
  · show e₀.accountId = f.makerUserId
    rw [ha.account, fit.maker, howner]
  · rw [ha.side, told.side]
    exact hm.side _ x hx
  · show f.fillPriceLots * m.quoteToken.lotSize ≤ e₀.limitPrice
    rw [hprice, ha.price]
    exact asU64_mul_le ..
  · obtain h0 | ⟨p, hp⟩ := told.priced
    · exact (hlimit h0).elim
    · have hle := fit.limit p hp
      rw [← told.side, hside] at hle
      have hle : x'.limitPriceLots ≤ p := hle
      show f.fillPriceLots * m.quoteToken.lotSize ≤ e.limitPrice
      rw [fit.price]
      refine (Nat.mul_le_mul_right _ hle).trans ?_
      rw [told.limit p hp]
      exact asU64_mul_le ..

theorem sum_fillQty (m : Market B) (side : Side) (taker : AccountId) :
    ∀ fs : List Match, ((fs.map (m.fillData side taker)).map FillEventData.fillQty).sum =
      (fs.map Match.fillQtyLots).sum * m.baseToken.lotSize
  | [] => (Nat.zero_mul _).symm
  | f :: fs => by
    simp only [List.map_cons, List.sum_cons, Nat.add_mul, sum_fillQty m side taker fs]
    rfl

/-- **An order fits the books it is placed in.** -/
theorem MarketIndex.Shows.fits (hB : BookLaws S) (h : i.Shows S m)
    (hm : MarketOk S c.prevOrderSequenceNumber m) {ref : Option AccountId} {s : Settled}
    (traded : Traded S c mid m taker n ref r m' s c') (told : e.Of mid m taker n r s) :
    e.Fits i (r.fills.map (m.fillData n.side taker)) := by
  have hp := traded.placement hB hm
  have hn' := (traded.marketOk hB hm).nodup
  constructor
  case fills =>
    intro d hd
    obtain ⟨f, hf, rfl⟩ := List.mem_map.1 hd
    exact h.fillsFor hB hm traded told hf
  case covered =>
    intro o
    rw [sum_fillData, h.remaining]
    exact Nat.mul_le_mul_right _ (hp.openLots hB hm.nodup hn' o).2
  case quantity =>
    rw [sum_fillQty, told.openQuantity_eq hp, ← Nat.add_mul]
    exact (Nat.mul_le_mul_right _ hp.qty).trans told.quantity
  case fees =>
    have hsplit := traded.settled.split
    rw [sum_rebates, told.takerFee, told.referrerRebate]
    omega
  case free =>
    intro hnil
    rw [told.takerFee, traded.settled.fee, List.map_eq_nil_iff.1 hnil]
    show 0 * _ / _ = 0
    rw [Nat.zero_mul, Nat.zero_div]

/-! ## Cancellations -/

/-- **What is cancelled fits the books.** -/
theorem MarketIndex.Shows.cancels (hB : BookLaws S) {ids : List OrderId}
    (t : LoggedCancel S c mid owner ids es c') {seq : ℕ} (hm : MarketOk S seq t.run.m)
    (h : i.Shows S t.run.m) :
    (t.cancels.map CancelEventData.orderId).Nodup ∧ ∀ d ∈ t.cancels, d.Fits i owner := by
  obtain ⟨run, cancels, _, told⟩ := t
  have hperm := run.cancelled_perm hB hm
  constructor
  · have hids : cancels.map CancelEventData.orderId =
        (run.results.map CancelOrderResult.order).map OpenLimitOrder.id := by
      have h := congrArg (List.map Prod.fst) told
      rw [List.map_map, List.map_map] at h
      exact h
    show (cancels.map CancelEventData.orderId).Nodup
    rw [hids, (hperm.map OpenLimitOrder.id).nodup_iff]
    exact hm.nodup.sublist (List.filter_sublist.map _)
  · intro d hd
    have hsays : d.says ∈ cancels.map CancelEventData.says := List.mem_map_of_mem hd
    rw [told] at hsays
    obtain ⟨x, hx, hxd⟩ := List.mem_map.1 hsays
    simp only [Market.cancelled, CancelEventData.says, Prod.mk.injEq] at hxd
    obtain ⟨hid, hqty, hamount, htoken⟩ := hxd
    have hmem : x ∈ S.orders run.m.orderbook := (List.mem_filter.1 (hperm.subset hx)).1
    obtain ⟨e, he, ha⟩ := h.orders _ hmem
    have hopen : S.openLots run.m.orderbook x.id = x.openQtyLots := by
      rw [openLots_eq_sum hB hm.nodup]
      exact sum_lotsOf hm.nodup hmem
    have howner : x.ownerId = owner := by
      obtain ⟨r, hr, rfl⟩ := List.mem_map.1 hx
      exact (run.amounts r hr).1
    refine ⟨?_, e, hid ▸ he, ha.account.trans howner, ?_⟩
    · rw [← hqty, ← hid, h.remaining, hopen]
    · rw [ha.side]
      rcases hside : x.side with _ | _ <;> rw [hside] at hamount htoken
      · exact htoken.symm.trans h.quote.symm
      · exact ⟨htoken.symm.trans h.base.symm, hamount.symm.trans hqty⟩

/-! ## Runs -/

/-- The log is legal so far, and its orders are no newer than the last one. -/
structure Audited (S : Sdk B) (c : Contract B) (log : Log) : Prop where
  legal : Legal S log
  index : Replayed S c log
  old : ∀ e, .order e ∈ log → S.seqOf e.orderId ≤ c.prevOrderSequenceNumber

theorem mem_fillEvents {id : OrderId} {side : Side} {fs : List Match} :
    EventType.order e ∉ m.fillEvents mid id side taker fs := by
  unfold Market.fillEvents
  split_ifs
  · exact List.not_mem_nil
  · intro h
    cases List.mem_singleton.1 h

/-- **A trade continues a legal log.** -/
theorem Audited.trade (hB : BookLaws S) (h : Audited S c log) (hc : BooksOk S c)
    (t : LoggedTrade S c mid taker es c') : Audited S c' (log ++ es) := by
  have hindex := h.index.trade hB hc t
  obtain ⟨m, m', r, settled, found, ⟨n, s, ref, e, traded, rfl, told⟩, -, seq⟩ := t
  have hm := hc _ _ found
  obtain ⟨i, hi, hs⟩ := h.index _ _ found
  have hseq : S.seqOf e.orderId = c.prevOrderSequenceNumber + 1 := by
    rw [told.order, (traded.placement hB hm).seq, traded.seq]
  refine ⟨?_, hindex, fun e' he' => ?_⟩
  · have hlegal := Legal.order h.legal (told.market ▸ hi)
      (fun e' he' => hseq ▸ Nat.lt_succ_of_le (h.old e' he')) (hs.fits hB hm traded told)
    rw [orderLines, told.market, told.order, ← fillEvents_eq] at hlegal
    exact hlegal
  · rw [List.mem_append, List.mem_append, List.mem_singleton] at he'
    obtain he' | he' | he' := he'
    · rw [seq]
      exact (h.old e' he').trans (Nat.le_succ _)
    · exact (mem_fillEvents he').elim
    · cases he'
      rw [seq, hseq]

theorem Tells.audited (hB : BookLaws S) {e : Effect B} (hdo : Does S c e c')
    (ht : Tells S c e es c') (hc : BooksOk S c) (h : Audited S c log) :
    Audited S c' (log ++ es) := by
  have hindex := ht.replayed hB hdo hc h.index
  have hle := hdo.seq_le
  have old : (∀ e, .order e ∉ es) → ∀ e, .order e ∈ log ++ es →
      S.seqOf e.orderId ≤ c'.prevOrderSequenceNumber := by
    intro hes e he
    obtain he | he := List.mem_append.1 he
    · exact (h.old e he).trans hle
    · exact (hes e he).elim
  cases ht with
  | order run log => exact h.trade hB hc (run.logged log)
  | hop trade => exact h.trade hB hc trade
  | cancel cancel =>
    obtain ⟨i, hi, hs⟩ := h.index _ _ cancel.run.found
    obtain ⟨each, fits⟩ := hs.cancels hB cancel (hc _ _ cancel.run.found)
    rw [cancel.events] at hindex old ⊢
    refine ⟨.cancel h.legal hi each fits, hindex, old fun e he => ?_⟩
    cases List.mem_singleton.1 he
  | create event base quote =>
    refine ⟨.newMarket event h.legal, hindex, old fun e he => ?_⟩
    cases List.mem_singleton.1 he
  | quiet quiet =>
    refine ⟨?_, hindex, old fun e he => (List.not_mem_nil he).elim⟩
    rw [List.append_nil]
    exact h.legal

/-- The sequence numbers of the orders of a log. -/
def orderSeqs (S : Sdk B) (log : Log) : List ℕ :=
  log.filterMap fun
    | .order e => some (S.seqOf e.orderId)
    | _ => none

theorem orderSeqs_fillEvents {id : OrderId} {side : Side} {fs : List Match} :
    orderSeqs S (m.fillEvents mid id side taker fs) = [] := by
  unfold Market.fillEvents
  split_ifs
  · rfl
  · rfl

theorem LoggedTrade.orderSeqs_eq (hB : BookLaws S) (hc : BooksOk S c)
    (t : LoggedTrade S c mid taker es c') :
    orderSeqs S es = [c.prevOrderSequenceNumber + 1] := by
  obtain ⟨m, m', r, settled, found, ⟨n, s, ref, e, traded, rfl, told⟩, -, seq⟩ := t
  have hseq : S.seqOf e.orderId = c.prevOrderSequenceNumber + 1 := by
    rw [told.order, (traded.placement hB (hc _ _ found)).seq, traded.seq]
  rw [orderSeqs, List.filterMap_append]
  show orderSeqs S _ ++ [S.seqOf e.orderId] = _
  rw [orderSeqs_fillEvents, hseq, List.nil_append]

/-- Only trades use up sequence numbers. -/
theorem Does.seq_eq_of_quiet {e : Effect B} (h : Does S c e c') (hq : e.Quiet) :
    c'.prevOrderSequenceNumber = c.prevOrderSequenceNumber := by
  cases h with
  | order | hop | cancel | create => exact hq.elim
  | _ => rfl

theorem Tells.numbered (hB : BookLaws S) {e : Effect B} (hdo : Does S c e c')
    (ht : Tells S c e es c') (hc : BooksOk S c)
    (h : orderSeqs S log = List.range' 1 c.prevOrderSequenceNumber) :
    orderSeqs S (log ++ es) = List.range' 1 c'.prevOrderSequenceNumber := by
  have trade : ∀ {mid taker}, LoggedTrade S c mid taker es c' →
      orderSeqs S (log ++ es) = List.range' 1 c'.prevOrderSequenceNumber := by
    intro mid taker t
    have hes := t.orderSeqs_eq hB hc
    rw [orderSeqs] at h hes
    rw [orderSeqs, List.filterMap_append, h, hes, t.seq, List.range'_concat, Nat.one_mul,
      Nat.add_comm 1]
  have quiet : orderSeqs S es = [] →
      c'.prevOrderSequenceNumber = c.prevOrderSequenceNumber →
        orderSeqs S (log ++ es) = List.range' 1 c'.prevOrderSequenceNumber := by
    intro hes hseq
    rw [orderSeqs] at h hes
    rw [orderSeqs, List.filterMap_append, h, hes, hseq, List.append_nil]
  cases ht with
  | order run log => exact trade (run.logged log)
  | hop t => exact trade t
  | cancel cancel =>
    refine quiet ?_ ?_
    · rw [cancel.events]
      rfl
    · rw [cancel.run.result]
      rfl
  | create event base quote =>
    cases hdo
    exact quiet rfl rfl
  | quiet hq => exact quiet rfl (hdo.seq_eq_of_quiet hq)

theorem audited_of_logs (hB : BookLaws S) {x : System B × Log}
    (hx : System.Logs S x) : Audited S x.1.contract x.2 := by
  have hnew : ∀ id, Audited S (.new id) [] := fun id =>
    ⟨.nil, fun mid m hm => (by cases hm), fun e he => (List.not_mem_nil he).elim⟩
  exact logs_invariant hB hnew (fun c c' e log es hdo ht hc h => ht.audited hB hdo hc h) hx

open Engine

/-- **The log of every run is legal.** -/
theorem legal_of_logs (hB : BookLaws S) {x : System B × Log}
    (hx : System.Logs S x) : Legal S x.2 :=
  (audited_of_logs hB hx).legal

theorem legal_bought : Legal sdk (logged bought).2 :=
  legal_of_logs bookLaws (logs_logged bought)

/-- **Every order is accounted for.**  In every run, what an order left open when
    it was placed is what was filled of it since, what was cancelled, and what
    still rests. -/
theorem orders_accounted (hB : BookLaws S) {x : System B × Log}
    (hx : System.Logs S x) (hm : x.1.contract.markets.lookup mid = some m) :
    ∃ i, replay mid x.2 = some i ∧ ∀ o e, i.orders o = some e →
      i.filled o + i.cancelled o + S.openLots m.orderbook o * m.baseToken.lotSize =
        e.openQuantity.getD 0 := by
  obtain ⟨i, hi, hs⟩ := replayed_of_logs hB hx mid m hm
  refine ⟨i, hi, fun o e he => ?_⟩
  rw [← hs.remaining]
  exact ((audited_of_logs hB hx).legal.accounts hi).amounts o e he

theorem orders_accounted_bought :
    ∃ m, (logged bought).1.contract.markets.lookup btcUsd = some m ∧
      ∃ i, replay btcUsd (logged bought).2 = some i ∧ ∀ o e, i.orders o = some e →
        i.filled o + i.cancelled o + sdk.openLots m.orderbook o * m.baseToken.lotSize =
          e.openQuantity.getD 0 := by
  obtain ⟨m, hm⟩ := market_logged_bought
  exact ⟨m, hm, orders_accounted bookLaws (logs_logged bought) hm⟩

/-- **Orders are numbered in the order of the log.**  The orders and hops of
    swaps in the log of a run bear the sequence numbers 1, 2, 3 and so on, up to
    the last one given, with none left out or given twice. -/
theorem orders_numbered (hB : BookLaws S) {x : System B × Log}
    (hx : System.Logs S x) :
    orderSeqs S x.2 = List.range' 1 x.1.contract.prevOrderSequenceNumber :=
  logs_invariant hB (P := fun c log => orderSeqs S log = List.range' 1 c.prevOrderSequenceNumber)
    (fun _ => rfl) (fun _ _ _ _ _ hdo ht hc h => ht.numbered hB hdo hc h) hx

theorem orders_numbered_bought : orderSeqs sdk (logged bought).2 =
    List.range' 1 (logged bought).1.contract.prevOrderSequenceNumber :=
  orders_numbered bookLaws (logs_logged bought)

end TonicDex
