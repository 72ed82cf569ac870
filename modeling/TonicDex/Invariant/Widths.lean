/-
  Every stored number fits its field.

  The model counts in natural numbers, where the source has fields of 128 and 64
  bits.  A call whose own amounts fit leaves only accounts whose numbers fit
  (`dispatch_typed`): each path checks what it adds up before it deposits it.
  So in every run each stored account can be written, and is read back
  (`records_read_back`).
-/
import TonicDex.Engine.Library
import TonicDex.Invariant.Records
import TonicDex.Spec.Calls

namespace TonicDex

variable {B : Type} {S : Sdk B} {c c' : Contract B} {a a' : Account} {mid : MarketId}
  {m m' : Market B} {side : Side} {env : Env} {id : AccountId} {token : TokenType} {n : ℕ}
  {f : Match} {fs : List Match} {p : NewOrderParams} {s : Settled} {pair : PairSide}

/-! ## Accounts -/

namespace Account.Typed

theorem new : Account.new.Typed :=
  ⟨fun _ _ h => (by cases h), fun _ _ h => (by cases h), by decide⟩

theorem deposit (h : a.Typed) (hn : n < 2 ^ 128) (hd : a.deposit S token n = .ok a') :
    a'.Typed := by
  obtain ⟨hfit, rfl⟩ := Account.deposit_eq_ok.1 hd
  refine ⟨HMap.forall_insert h.balances ?_, h.orders, h.storage⟩
  rcases hx : a.balances.lookup (S.key token) with _ | x
  · rw [Account.balance_of_lookup_none hx, Nat.zero_add]
    exact hn
  · rw [Account.balance_of_lookup hx, Nat.add_comm]
    exact hfit x hx

theorem withdraw (h : a.Typed) (hw : a.withdraw S token n = .ok a') : a'.Typed ∧ n < 2 ^ 128 := by
  obtain ⟨⟨x, hx, hle⟩, rfl⟩ := Account.withdraw_eq_ok.1 hw
  have hlt := h.balances _ x hx
  refine ⟨⟨?_, h.orders, h.storage⟩, hle.trans_lt hlt⟩
  unfold Account.debit
  dsimp only
  split_ifs
  · exact HMap.forall_erase h.balances
  · refine HMap.forall_insert h.balances ?_
    rw [Account.balance_of_lookup hx]
    omega

theorem setOrders (h : a.Typed) {os : OrderInfos} (hos : ∀ o i, os.lookup o = some i →
    o < 2 ^ 128 ∧ i.originalSize < 2 ^ 64 ∧ i.timestamp < 2 ^ 64) : (a.setOrders mid os).Typed :=
  ⟨h.balances, HMap.forall_insert h.orders hos, h.storage⟩

theorem dropMarket (h : a.Typed) : { a with openOrders := a.openOrders.erase mid }.Typed :=
  ⟨h.balances, HMap.forall_erase h.orders, h.storage⟩

theorem forget (h : a.Typed) (mid : MarketId) (o : OrderId) : (a.forget mid o).Typed := by
  obtain ⟨-, he⟩ | ⟨os, i, hos, -, ⟨-, he⟩ | ⟨-, he⟩⟩ := Account.forget_cases a mid o
  · rw [he]
    exact h
  · rw [he]
    exact h.dropMarket
  · rw [he]
    exact h.setOrders (HMap.forall_erase (h.orders mid os hos))

theorem removeAll (h : a.Typed) (mid : MarketId) : (a.removeAllOrderInfos S mid).2.Typed := by
  unfold Account.removeAllOrderInfos
  split
  · exact h.dropMarket
  · exact h

theorem savePosted (h : a.Typed) {r : PlaceOrderResult} {q : ℕ} (hid : r.id < 2 ^ 128)
    (hq : q < 2 ^ 64) (htime : env.blockTimestamp < 2 ^ 64)
    (hs : savePosted env mid m a r q = .ok a') : a'.Typed := by
  have hnew : r.id < 2 ^ 128 ∧ q < 2 ^ 64 ∧ env.blockTimestamp < 2 ^ 64 := ⟨hid, hq, htime⟩
  obtain ⟨-, rfl⟩ | ⟨-, os, rfl, ⟨-, rfl⟩ | ⟨old, hold, -, rfl⟩⟩ := savePosted_ok hs
  · exact h
  · exact h.setOrders (HMap.forall_insert (fun _ _ hl => by cases hl) hnew)
  · exact h.setOrders (HMap.forall_insert (h.orders mid old hold) hnew)

end Account.Typed

/-- The numbers of all stored accounts fit. -/
def AccountsTyped (c : Contract B) : Prop := ∀ id a, c.accounts.lookup id = some a → a.Typed

theorem AccountsTyped.put (h : AccountsTyped c) (ha : a.Typed) :
    AccountsTyped (c.putAccount id a) :=
  HMap.forall_insert h ha

theorem internalDeposit_typed (hc : AccountsTyped c) (hn : n < 2 ^ 128)
    (h : c.internalDeposit S id token n = .ok c') : AccountsTyped c' := by
  simp only [Contract.internalDeposit, Checked.bind_eq_ok, Contract.internalUnwrapAccount_eq_ok,
    Contract.internalSaveAccount_eq_ok] at h
  obtain ⟨a, ha, a', hd, -, rfl⟩ := h
  exact hc.put ((hc _ a ha).deposit hn hd)

/-! ## Trades -/

theorem FeeCalculator.atRate_lt {rate q : ℕ} (h : FeeCalculator.atRate rate q = .ok n) :
    n < 2 ^ 128 := by
  obtain ⟨hlt, rfl⟩ := FeeCalculator.atRate_eq_ok.1 h
  exact (Nat.div_le_self _ _).trans_lt hlt

theorem creditMaker_typed {qty r : ℕ} (ha : a.Typed) (hpaid : f.nativeQuotePaid < 2 ^ 128)
    (hqty : qty < 2 ^ 128) (h : creditMaker S mid m side f qty a = .ok (r, a')) : a'.Typed := by
  simp only [creditMaker, FeeCalculator.makerRebate, Checked.bind_eq_ok, Checked.pure_eq_ok,
    Prod.mk.injEq] at h
  obtain ⟨rebate, hrebate, a₁, h1, a₂, h2, -, rfl⟩ := h
  have hamount : (makerProceeds m side f qty).2 < 2 ^ 128 := by
    cases side with
    | buy => exact hpaid
    | sell => exact hqty
  refine Account.Typed.deposit (Account.Typed.deposit ?_ (FeeCalculator.atRate_lt hrebate) h1)
    hamount h2
  split
  · exact ha.forget mid f.makerOrderId
  · exact ha

/-- The sums of a settlement fit. -/
def MakerSettlementResult.Typed (t : MakerSettlementResult) : Prop :=
  t.baseTraded < 2 ^ 128 ∧ t.quoteTraded < 2 ^ 128

theorem settleMakerFill_typed {t t' : MakerSettlementResult} (hc : AccountsTyped c)
    (h : settleMakerFill S mid m side (t, c) f = .ok (t', c')) :
    AccountsTyped c' ∧ t'.Typed := by
  simp only [settleMakerFill, Market.quoteLotsToNative, Market.baseLotsToNative,
    Checked.bind_eq_ok, Checked.fit_eq_ok, Contract.internalUnwrapAccount_eq_ok,
    Contract.internalSaveAccount_eq_ok, Checked.pure_eq_ok, Prod.mk.injEq] at h
  obtain ⟨_, -, qty, ⟨hqty, rfl⟩, _, ⟨hbase, rfl⟩, _, ⟨hquote, rfl⟩, a, ha, ⟨r, a'⟩, hcr, _, -, _,
    ⟨-, rfl⟩, rfl, rfl⟩ := h
  exact ⟨hc.put (creditMaker_typed (hc _ a ha) ((Nat.le_add_left _ _).trans_lt hquote) hqty hcr),
    hbase, hquote⟩

theorem foldlM_settleMakerFill_typed : ∀ {fs : List Match} {t t' : MakerSettlementResult}
    {c c' : Contract B}, AccountsTyped c → t.Typed →
    fs.foldlM (settleMakerFill S mid m side) (t, c) = .ok (t', c') → AccountsTyped c' ∧ t'.Typed
  | [], t, t', c, c', hc, ht, h => by
    simp only [List.foldlM_nil, Checked.pure_eq_ok, Prod.mk.injEq] at h
    obtain ⟨rfl, rfl⟩ := h
    exact ⟨hc, ht⟩
  | f :: fs, t, t', c, c', hc, _, h => by
    simp only [List.foldlM_cons, Checked.bind_eq_ok] at h
    obtain ⟨⟨t₁, c₁⟩, h1, h2⟩ := h
    obtain ⟨hc₁, ht₁⟩ := settleMakerFill_typed hc h1
    exact foldlM_settleMakerFill_typed hc₁ ht₁ h2

theorem internalSettleReferrerRebate_typed {r : ℕ} {ref : Option AccountId}
    (hc : AccountsTyped c) (hn : n < 2 ^ 128)
    (h : internalSettleReferrerRebate S c token ref n = .ok (r, c')) : AccountsTyped c' := by
  unfold internalSettleReferrerRebate at h
  rcases ref with _ | id
  · simp only [Checked.pure_eq_ok, Prod.mk.injEq] at h
    exact h.2 ▸ hc
  rcases ha : c.internalGetAccount id with _ | a
  · simp only [ha, Checked.pure_eq_ok, Prod.mk.injEq] at h
    exact h.2 ▸ hc
  simp only [ha, Checked.bind_eq_ok, Contract.internalTrySaveAccount] at h
  obtain ⟨a', hd, h⟩ := h
  split_ifs at h
  · simp only [Checked.pure_eq_ok, Prod.mk.injEq] at h
    exact h.2 ▸ hc.put ((hc _ a ha).deposit hn hd)
  · simp only [Checked.pure_eq_ok, Prod.mk.injEq] at h
    exact h.2 ▸ hc

theorem settleMatches_typed {fee : FeeCalculator} {ref : Option AccountId} {bug : String}
    (hc : AccountsTyped c) (h : settleMatches S c mid m fee side fs ref bug = .ok (s, c')) :
    AccountsTyped c' ∧ s.toMakerSettlementResult.Typed := by
  simp only [settleMatches, internalSettleMakerFills, FeeCalculator.takerFee, Checked.bind_eq_ok,
    Checked.sub_eq_ok, Checked.require_eq_ok, Checked.pure_eq_ok, Prod.mk.injEq] at h
  obtain ⟨⟨t, c₁⟩, hmakers, fee', hfee, _, ⟨-, rfl⟩, ⟨r, c₂⟩, href, _, -, _, -, rfl, rfl⟩ := h
  obtain ⟨hc₁, ht⟩ := foldlM_settleMakerFill_typed hc ⟨by decide, by decide⟩ hmakers
  have hnet : fee' - t.totalMakerRebate < 2 ^ 128 :=
    (Nat.sub_le _ _).trans_lt (FeeCalculator.atRate_lt hfee)
  exact ⟨internalSettleReferrerRebate_typed hc₁ hnet href, ht⟩

theorem traded_typed {seq qty : ℕ} {limit avail : Option ℕ} {type : OrderType}
    {client : Option ClientId} {r : PlaceOrderResult} {m₁ : Market B} {c₀ : Contract B}
    {fee : FeeCalculator} {ref : Option AccountId} {bug : String} {taker : AccountId}
    (hI : IdLaw S) (hc : AccountsTyped c) (hseq : c.nextSequenceNumber = .ok (seq, c₀))
    (hplace : m.placeOrder S seq taker limit qty avail side type client = .ok (r, m₁))
    (hset : settleMatches S c₀ mid m₁ fee side r.fills ref bug = .ok (s, c')) :
    AccountsTyped c' ∧ s.toMakerSettlementResult.Typed ∧ r.id < 2 ^ 128 := by
  simp only [Contract.nextSequenceNumber, Checked.bind_eq_ok, Checked.fit_eq_ok,
    Checked.pure_eq_ok, Prod.mk.injEq] at hseq
  obtain ⟨_, ⟨hlt, rfl⟩, rfl, rfl⟩ := hseq
  obtain ⟨-, -, b, hb, -⟩ := Market.placeOrder_ok hplace
  have hc₀ : AccountsTyped { c with prevOrderSequenceNumber := c.prevOrderSequenceNumber + 1 } := hc
  obtain ⟨hc', hs⟩ := settleMatches_typed hc₀ hset
  exact ⟨hc', hs, hI hb hlt⟩

/-! ## Orders -/

/-- What an order path leaves fits. -/
def OrderDone.Typed (done : OrderDone B) : Prop :=
  AccountsTyped done.contract ∧ done.takerAccount.Typed

variable {taker : AccountId} {done : OrderDone B}

theorem affordableLots_lt {avail limit : ℕ} (h : m.affordableLots avail limit = .ok n) :
    n < 2 ^ 64 := by
  simp only [Market.affordableLots, Checked.bind_eq_ok, Checked.fit_eq_ok] at h
  obtain ⟨_, -, _, -, _, -, _, -, _, -, hlt, rfl⟩ := h
  exact hlt

theorem internalPlaceLimitBuy_typed (hI : IdLaw S) (hc : AccountsTyped c) (ha : a.Typed)
    (htime : env.blockTimestamp < 2 ^ 64)
    (h : internalPlaceLimitBuy S env c mid m taker a p = .ok done) : done.Typed := by
  simp only [internalPlaceLimitBuy, Checked.bind_eq_ok, Checked.pure_eq_ok] at h
  obtain ⟨_, -, _, -, _, -, _, -, _, -, limit, -, _, -, specified, hspecified, afford, hafford,
    h⟩ := h
  obtain ⟨⟨seq, c₀⟩, hseq, ⟨r, m₁⟩, hplace, ⟨s, c₁⟩, hset, h⟩ := h
  obtain ⟨_, -, m₂, -, a₁, ha₁, _, -, _, -, _, -, _, -, a₂, ha₂, a₃, ha₃, _, -, _, -, rfl⟩ := h
  obtain ⟨hc₁, hs, hid⟩ := traded_typed hI hc hseq hplace hset
  have hqty : min specified afford < 2 ^ 64 :=
    (Nat.min_le_right _ _).trans_lt (affordableLots_lt hafford)
  exact ⟨hc₁, ((ha.deposit hs.1 ha₁).withdraw ha₂).1.savePosted hid hqty htime ha₃⟩

theorem internalPlaceLimitSell_typed (hI : IdLaw S) (hc : AccountsTyped c) (ha : a.Typed)
    (htime : env.blockTimestamp < 2 ^ 64)
    (h : internalPlaceLimitSell S env c mid m taker a p = .ok done) : done.Typed := by
  simp only [internalPlaceLimitSell, Checked.bind_eq_ok, Checked.sub_eq_ok, Checked.pure_eq_ok,
    Market.baseNativeToLots_eq_ok] at h
  obtain ⟨_, -, _, -, _, ⟨-, rfl⟩, limit, -, _, -, h⟩ := h
  obtain ⟨⟨seq, c₀⟩, hseq, ⟨r, m₁⟩, hplace, ⟨s, c₁⟩, hset, h⟩ := h
  obtain ⟨_, -, m₂, -, _, ⟨-, rfl⟩, a₁, ha₁, _, -, _, -, _, -, a₂, ha₂, a₃, ha₃, _, -, rfl⟩ := h
  obtain ⟨hc₁, hs, hid⟩ := traded_typed hI hc hseq hplace hset
  have hreceived : s.quoteTraded - s.totalTakerFee < 2 ^ 128 := (Nat.sub_le _ _).trans_lt hs.2
  exact ⟨hc₁, ((ha.deposit hreceived ha₁).withdraw ha₂).1.savePosted hid (Checked.wrap_lt 64 _)
    htime ha₃⟩

theorem takerAmounts_lt {inn out : ℕ} (hs : s.toMakerSettlementResult.Typed)
    (h : takerAmounts s side = .ok (inn, out)) : out < 2 ^ 128 := by
  cases side with
  | buy =>
    simp only [takerAmounts, Checked.bind_eq_ok, Checked.pure_eq_ok, Prod.mk.injEq] at h
    obtain ⟨_, -, -, rfl⟩ := h
    exact hs.1
  | sell =>
    simp only [takerAmounts, Checked.bind_eq_ok, Checked.sub_eq_ok, Checked.pure_eq_ok,
      Prod.mk.injEq] at h
    obtain ⟨_, ⟨-, rfl⟩, -, rfl⟩ := h
    exact (Nat.sub_le _ _).trans_lt hs.2

theorem internalPlaceMarketOrder_typed (hI : IdLaw S) (hc : AccountsTyped c) (ha : a.Typed)
    (h : internalPlaceMarketOrder S c mid m taker a p = .ok done) : done.Typed := by
  simp only [internalPlaceMarketOrder, Checked.bind_eq_ok, Checked.pure_eq_ok] at h
  obtain ⟨_, -, _, -, _, -, h⟩ := h
  obtain ⟨⟨seq, c₀⟩, hseq, ⟨r, m₁⟩, hplace, ⟨s, c₁⟩, hset, h⟩ := h
  obtain ⟨⟨inn, out⟩, hamounts, _, -, a₁, ha₁, a₂, ha₂, _, -, m₂, -, _, -, rfl⟩ := h
  obtain ⟨hc₁, hs, -⟩ := traded_typed hI hc hseq hplace hset
  exact ⟨hc₁, (ha.withdraw ha₁).1.deposit (takerAmounts_lt hs hamounts) ha₂⟩

theorem newOrder_typed {r : PlaceOrderResult} (hI : IdLaw S) (hc : AccountsTyped c)
    (htime : env.blockTimestamp < 2 ^ 64) (h : newOrder S env c mid p = .ok (r, c')) :
    AccountsTyped c' := by
  simp only [newOrder, Checked.bind_eq_ok, Contract.internalUnwrapAccount_eq_ok,
    Contract.internalSaveAccount_eq_ok, Checked.pure_eq_ok, Prod.mk.injEq] at h
  obtain ⟨_, -, _, -, m, -, _, -, a, ha, done, hdone, _, ⟨-, rfl⟩, -, rfl⟩ := h
  have hd : done.Typed := by
    unfold placeByType at hdone
    split at hdone
    · exact internalPlaceMarketOrder_typed hI hc (hc _ a ha) hdone
    · split at hdone
      · exact internalPlaceLimitBuy_typed hI hc (hc _ a ha) htime hdone
      · exact internalPlaceLimitSell_typed hI hc (hc _ a ha) htime hdone
  exact hd.1.put hd.2

/-! ## Swaps -/

theorem executeSwapAction_typed {swap : SwapAction} {amount : ℕ} {out : SwapResult}
    (hI : IdLaw S) (hc : AccountsTyped c)
    (h : executeSwapAction S env c swap token amount = .ok (out, c')) :
    AccountsTyped c' ∧ out.outputAmount < 2 ^ 128 := by
  simp only [executeSwapAction, internalSwap, Checked.bind_eq_ok, Checked.pure_eq_ok,
    Prod.mk.injEq] at h
  obtain ⟨m, -, _, -, ⟨_, m', _⟩, hswap, _, -, rfl, rfl⟩ := h
  obtain ⟨_, -, _, -, ⟨seq, c₀⟩, hseq, _, -, _, -, ⟨r, m₁⟩, hplace, ⟨s, c₁⟩, hset, h⟩ := hswap
  obtain ⟨_, -, _, -, o, ho, _, -, _, -, rfl, rfl, rfl⟩ := h
  obtain ⟨hc₁, hs, -⟩ := traded_typed hI hc hseq hplace hset
  refine ⟨hc₁, ?_⟩
  cases hside : swap.side with
  | buy =>
    simp only [hside, outputAmount, Checked.pure_eq_ok] at ho
    exact ho ▸ hs.1
  | sell =>
    simp only [hside, outputAmount, Checked.sub_eq_ok] at ho
    exact ho.2 ▸ (Nat.sub_le _ _).trans_lt hs.2

theorem executeHops_typed (hI : IdLaw S) : ∀ {swaps : List SwapAction} {c c' : Contract B}
    {token : TokenType} {amount : ℕ} {x : TokenType × ℕ}, AccountsTyped c → amount < 2 ^ 128 →
    executeHops S env c swaps token amount = .ok (x, c') → AccountsTyped c' ∧ x.2 < 2 ^ 128
  | [], c, c', token, amount, x, hc, hn, h => by
    simp only [executeHops, Checked.pure_eq_ok, Prod.mk.injEq] at h
    obtain ⟨rfl, rfl⟩ := h
    exact ⟨hc, hn⟩
  | swap :: swaps, c, c', token, amount, x, hc, _, h => by
    simp only [executeHops, Checked.bind_eq_ok] at h
    obtain ⟨⟨out, c₁⟩, h1, h2⟩ := h
    obtain ⟨hc₁, hout⟩ := executeSwapAction_typed hI hc h1
    exact executeHops_typed hI hc₁ hout h2

/-- The amount of a promised transfer fits. -/
def Promise.Typed : Promise → Prop
  | send _ _ n => n < 2 ^ 128
  | _ => True

theorem executeSwaps_typed {swaps : List SwapAction} {unused : ℕ} {ps : List Promise}
    (hI : IdLaw S) (hc : AccountsTyped c) (hn : n < 2 ^ 128)
    (h : executeSwaps S env c swaps token n id = .ok (unused, ps, c')) :
    AccountsTyped c' ∧ ∀ promise ∈ ps, promise.Typed := by
  simp only [executeSwaps, Checked.bind_eq_ok, Checked.pure_eq_ok, Prod.mk.injEq] at h
  obtain ⟨_, -, _, -, ⟨⟨token', n'⟩, c₁⟩, hx, -, rfl, rfl⟩ := h
  obtain ⟨hc₁, hn'⟩ := executeHops_typed hI hc hn hx
  refine ⟨hc₁, fun promise hp => ?_⟩
  split_ifs at hp
  · rw [List.mem_singleton.1 hp]
    exact hn'
  · cases hp

/-! ## Cancellations -/

theorem getRefundAmount_lt {o : OpenLimitOrder} (h : getRefundAmount m o = .ok (n, token)) :
    n < 2 ^ 128 := by
  unfold getRefundAmount at h
  split at h
  · simp only [Market.bidRefund, Checked.bind_eq_ok, Checked.fit_eq_ok, Checked.pure_eq_ok,
      Prod.mk.injEq] at h
    obtain ⟨_, ⟨_, -, _, -, _, -, _, -, hlt, rfl⟩, rfl, -⟩ := h
    exact hlt
  · simp only [Checked.bind_eq_ok, Checked.fit_eq_ok, Checked.pure_eq_ok, Prod.mk.injEq] at h
    obtain ⟨_, ⟨hlt, rfl⟩, rfl, -⟩ := h
    exact hlt

theorem processRefunds_typed : ∀ {rs : List CancelOrderResult} {es es' : List CancelEventData}
    {a a' : Account}, a.Typed → rs.foldlM (processRefund S m mid id) (es, a) = .ok (es', a') →
    a'.Typed
  | [], es, es', a, a', ha, h => by
    simp only [List.foldlM_nil, Checked.pure_eq_ok, Prod.mk.injEq] at h
    exact h.2 ▸ ha
  | r :: rs, es, es', a, a', ha, h => by
    simp only [List.foldlM_cons, processRefund, Checked.bind_eq_ok, Checked.pure_eq_ok] at h
    obtain ⟨_, ⟨_, -, ⟨n, token⟩, hn, a₁, hd, _, -, _, -, rfl⟩, h⟩ := h
    exact processRefunds_typed ((ha.deposit (getRefundAmount_lt hn) hd).forget mid r.order.id) h

theorem internalCancelAllOrders_typed {ids : List OrderId} (hc : AccountsTyped c)
    (h : internalCancelAllOrders S c mid id = .ok (ids, c')) : AccountsTyped c' := by
  simp only [internalCancelAllOrders, processRefunds, Checked.bind_eq_ok,
    Contract.internalUnwrapAccount_eq_ok, Contract.internalSaveAccount_eq_ok, Checked.pure_eq_ok,
    Prod.mk.injEq] at h
  obtain ⟨m, -, _, -, a, ha, _, -, ⟨_, a'⟩, hr, _, ⟨-, rfl⟩, -, rfl⟩ := h
  have ha' := processRefunds_typed ((hc _ a ha).removeAll mid) hr
  exact HMap.forall_insert hc ha'

theorem internalCancelOrder_typed {o : OrderId} (hc : AccountsTyped c)
    (h : internalCancelOrder S c mid id o = .ok c') : AccountsTyped c' := by
  simp only [internalCancelOrder, Checked.bind_eq_ok, Contract.internalUnwrapAccount_eq_ok] at h
  obtain ⟨m, -, _, -, a, ha, h⟩ := h
  rcases hro : a.removeOrderInfo mid o with ⟨_ | _, a₁⟩
  · rw [hro] at h
    cases h
  rw [hro] at h
  simp only [processRefunds, Checked.bind_eq_ok, Contract.internalSaveAccount_eq_ok] at h
  obtain ⟨_, -, ⟨_, a'⟩, hr, -, rfl⟩ := h
  have ha₁ : a₁.Typed := by
    have hforget := (hc _ a ha).forget mid o
    rwa [Account.forget, hro] at hforget
  have ha' := processRefunds_typed ha₁ hr
  exact HMap.forall_insert hc ha'

theorem cancelForOwners_typed : ∀ {os : List OpenLimitOrder} {c c' : Contract B},
    AccountsTyped c → cancelForOwners S mid c os = .ok c' → AccountsTyped c'
  | [], c, c', hc, h => by
    simp only [cancelForOwners, Checked.pure_eq_ok] at h
    exact h ▸ hc
  | o :: os, c, c', hc, h => by
    simp only [cancelForOwners, Checked.bind_eq_ok] at h
    obtain ⟨c₁, h1, h2⟩ := h
    exact cancelForOwners_typed (internalCancelOrder_typed hc h1) h2

theorem cancelOrder_typed {o : OrderId} (hc : AccountsTyped c)
    (h : cancelOrder S env c mid o = .ok c') : AccountsTyped c' := by
  simp only [cancelOrder, Checked.bind_eq_ok] at h
  obtain ⟨_, -, h⟩ := h
  exact internalCancelOrder_typed hc h

theorem cancelAllOrders_typed {ids : List OrderId} (hc : AccountsTyped c)
    (h : cancelAllOrders S env c mid = .ok (ids, c')) : AccountsTyped c' := by
  simp only [cancelAllOrders, Checked.bind_eq_ok] at h
  obtain ⟨_, -, _, -, h⟩ := h
  exact internalCancelAllOrders_typed hc h

/-! ## Batches -/

theorem cancelEachOrder_typed : ∀ {ids : List OrderId} {c c' : Contract B}, AccountsTyped c →
    cancelEachOrder S env mid c ids = .ok c' → AccountsTyped c'
  | [], c, c', hc, h => by
    simp only [cancelEachOrder, Checked.pure_eq_ok] at h
    exact h ▸ hc
  | o :: ids, c, c', hc, h => by
    simp only [cancelEachOrder, Checked.bind_eq_ok] at h
    obtain ⟨c₁, h1, h2⟩ := h
    exact cancelEachOrder_typed (cancelOrder_typed hc h1) h2

theorem executeAction_typed {action : Action} {r : ActionResult} (hI : IdLaw S)
    (hc : AccountsTyped c) (htime : env.blockTimestamp < 2 ^ 64)
    (h : executeAction S env c action = .ok (r, c')) : AccountsTyped c' := by
  cases action with
  | newOrder mid p =>
    simp only [executeAction, Checked.bind_eq_ok, Checked.pure_eq_ok, Prod.mk.injEq] at h
    obtain ⟨⟨r, c₁⟩, h, -, rfl⟩ := h
    exact newOrder_typed hI hc htime h
  | cancelOrders mid ids =>
    simp only [executeAction, Checked.bind_eq_ok, Checked.pure_eq_ok, Prod.mk.injEq] at h
    obtain ⟨c₁, h, -, rfl⟩ := h
    exact cancelEachOrder_typed hc h
  | cancelAllOrders mid =>
    simp only [executeAction, Checked.bind_eq_ok, Checked.pure_eq_ok, Prod.mk.injEq] at h
    obtain ⟨⟨ids, c₁⟩, h, -, rfl⟩ := h
    exact cancelAllOrders_typed hc h
  | swap swaps => cases h

theorem executeActions_typed (hI : IdLaw S) (htime : env.blockTimestamp < 2 ^ 64) :
    ∀ {actions : List Action} {c c' : Contract B} {rs : List ActionResult}, AccountsTyped c →
      executeActions S env c actions = .ok (rs, c') → AccountsTyped c'
  | [], c, c', rs, hc, h => by
    simp only [executeActions, Checked.pure_eq_ok, Prod.mk.injEq] at h
    exact h.2 ▸ hc
  | action :: actions, c, c', rs, hc, h => by
    simp only [executeActions, Checked.bind_eq_ok, Checked.pure_eq_ok, Prod.mk.injEq] at h
    obtain ⟨⟨r, c₁⟩, h1, ⟨rs', c₂⟩, h2, -, rfl⟩ := h
    exact executeActions_typed hI htime (executeAction_typed hI hc htime h1) h2

/-! ## Deposits, withdrawals and storage -/

theorem mtDeposits_typed : ∀ {xs : List ((String × ℕ) × AccountId)} {c c' : Contract B},
    (∀ x ∈ xs, x.1.2 < 2 ^ 128) → AccountsTyped c → mtDeposits S id c xs = .ok c' →
    AccountsTyped c'
  | [], c, c', _, hc, h => by
    simp only [mtDeposits, Checked.pure_eq_ok] at h
    exact h ▸ hc
  | ((subtokenId, n), owner) :: xs, c, c', hxs, hc, h => by
    simp only [mtDeposits, Checked.bind_eq_ok] at h
    obtain ⟨c₁, h1, h2⟩ := h
    obtain ⟨hx, hxs⟩ := List.forall_mem_cons.1 hxs
    exact mtDeposits_typed hxs (internalDeposit_typed hc hx h1) h2

theorem internalWithdraw_typed {ps : List Promise} (hc : AccountsTyped c)
    (h : internalWithdraw S c id token n = .ok (ps, c')) :
    AccountsTyped c' ∧ ∀ promise ∈ ps, promise.Typed := by
  simp only [internalWithdraw, Checked.bind_eq_ok, Contract.internalUnwrapAccount_eq_ok,
    Contract.internalSaveAccount_eq_ok, Checked.pure_eq_ok, Prod.mk.injEq] at h
  obtain ⟨_, -, a, ha, a', hw, _, ⟨-, rfl⟩, rfl, rfl⟩ := h
  obtain ⟨ha', hn⟩ := (hc _ a ha).withdraw hw
  exact ⟨hc.put ha', List.forall_mem_singleton.2 hn⟩

theorem Account.Typed.withStorage (h : a.Typed) (hn : n < 2 ^ 128) :
    { a with storageBalance := n }.Typed := ⟨h.balances, h.orders, hn⟩

theorem internalStorageDeposit_typed {only : Bool} {refund : ℕ} (hc : AccountsTyped c)
    (hn : n < 2 ^ 128) (h : internalStorageDeposit S c id only n = .ok (refund, c')) :
    AccountsTyped c' := by
  unfold internalStorageDeposit at h
  rcases ha : c.internalGetAccount id with _ | a
  · simp only [ha, Checked.bind_eq_ok, Checked.require_eq_ok] at h
    obtain ⟨_, hle, h⟩ := h
    split_ifs at h
    · simp only [Checked.bind_eq_ok, Contract.internalSaveAccount_eq_ok, Checked.pure_eq_ok,
        Prod.mk.injEq] at h
      obtain ⟨_, ⟨-, rfl⟩, -, rfl⟩ := h
      exact hc.put (Account.Typed.new.withStorage (hle.trans_lt hn))
    · simp only [Checked.bind_eq_ok, Contract.internalSaveAccount_eq_ok, Checked.pure_eq_ok,
        Prod.mk.injEq] at h
      obtain ⟨_, ⟨-, rfl⟩, -, rfl⟩ := h
      exact hc.put (Account.Typed.new.withStorage hn)
  · simp only [ha] at h
    split_ifs at h
    · simp only [Checked.pure_eq_ok, Prod.mk.injEq] at h
      exact h.2 ▸ hc
    · simp only [Checked.bind_eq_ok, Checked.fit_eq_ok, Contract.internalSaveAccount_eq_ok,
        Checked.pure_eq_ok, Prod.mk.injEq] at h
      obtain ⟨_, ⟨hlt, rfl⟩, _, ⟨-, rfl⟩, -, rfl⟩ := h
      exact hc.put ((hc _ a ha).withStorage hlt)

theorem takeStorage_typed {ps : List Promise} (hc : AccountsTyped c)
    (h : takeStorage S c id n = .ok (ps, c')) :
    AccountsTyped c' ∧ ∀ promise ∈ ps, promise.Typed := by
  unfold takeStorage at h
  split_ifs at h
  · simp only [Checked.bind_eq_ok, Contract.internalUnwrapAccount_eq_ok, Checked.sub_eq_ok,
      Contract.internalSaveAccount_eq_ok, Checked.pure_eq_ok, Prod.mk.injEq] at h
    obtain ⟨a, ha, _, ⟨-, rfl⟩, _, ⟨-, rfl⟩, rfl, rfl⟩ := h
    have ht := hc _ a ha
    exact ⟨hc.put (ht.withStorage ((Nat.sub_le _ _).trans_lt ht.storage)),
      List.forall_mem_singleton.2 trivial⟩
  · simp only [Checked.pure_eq_ok, Prod.mk.injEq] at h
    obtain ⟨rfl, rfl⟩ := h
    exact ⟨hc, fun promise hp => absurd hp List.not_mem_nil⟩

theorem storageWithdraw_typed {amount : Option ℕ} {bal : StorageBalance} {ps : List Promise}
    (hc : AccountsTyped c) (h : storageWithdraw S env c amount = .ok (bal, ps, c')) :
    AccountsTyped c' ∧ ∀ promise ∈ ps, promise.Typed := by
  simp only [storageWithdraw, Checked.bind_eq_ok] at h
  obtain ⟨_, -, _, -, _ | b, -, h⟩ := h
  · cases h
  · simp only [Checked.bind_eq_ok, Checked.pure_eq_ok, Prod.mk.injEq] at h
    obtain ⟨_, -, ⟨ps', c₁⟩, ht, _, -, _, -, -, rfl, rfl⟩ := h
    exact takeStorage_typed hc ht

/-! ## Calls -/

/-- The amounts that the caller reports fit. -/
def Op.DepositsTyped : Op → Prop
  | ftOnTransfer _ n _ => n < 2 ^ 128
  | mtOnTransfer _ _ ns => ∀ n ∈ ns, n < 2 ^ 128
  | _ => True

/-- The accounts after a call fit, and what it promises. -/
def CallTyped (ps : List Promise) (c' : Contract B) : Prop :=
  AccountsTyped c' ∧ ∀ promise ∈ ps, promise.Typed

theorem AccountsTyped.quiet (h : AccountsTyped c') : CallTyped [] c' :=
  ⟨h, fun _ hp => absurd hp List.not_mem_nil⟩

/-- Promises that are no payouts of an amount. -/
theorem AccountsTyped.promises {ps : List Promise} (h : AccountsTyped c')
    (hps : ∀ promise ∈ ps, ∀ id token n, promise ≠ .send id token n) : CallTyped ps c' := by
  refine ⟨h, fun promise hp => ?_⟩
  have hne := hps promise hp
  cases promise with
  | send id token n => exact absurd rfl (hne id token n)
  | _ => trivial

theorem storageDeposit_typed {accountId : Option AccountId} {only : Option Bool}
    {bal : StorageBalance} {ps : List Promise} (hc : AccountsTyped c)
    (hn : env.attachedDeposit < 2 ^ 128)
    (h : storageDeposit S env c accountId only = .ok (bal, ps, c')) : CallTyped ps c' := by
  simp only [storageDeposit, Checked.bind_eq_ok, Checked.pure_eq_ok, Prod.mk.injEq] at h
  obtain ⟨_, -, ⟨refund, c₁⟩, hd, _, -, -, rfl, rfl⟩ := h
  refine (internalStorageDeposit_typed hc hn hd).promises fun promise hp id token n => ?_
  split_ifs at hp
  · rw [List.mem_singleton.1 hp]
    exact Promise.noConfusion
  · cases hp

theorem ftOnTransfer_typed {msg : TransferMsg} {unused : ℕ} {ps : List Promise} (hI : IdLaw S)
    (hc : AccountsTyped c) (hn : n < 2 ^ 128)
    (h : ftOnTransfer S env c id n msg = .ok (unused, ps, c')) : CallTyped ps c' := by
  simp only [ftOnTransfer, Checked.bind_eq_ok] at h
  obtain ⟨_, -, h⟩ := h
  cases msg with
  | empty =>
    simp only [Checked.bind_eq_ok, Checked.pure_eq_ok, Prod.mk.injEq] at h
    obtain ⟨c₁, hd, -, rfl, rfl⟩ := h
    exact (internalDeposit_typed hc hn hd).quiet
  | swap swaps => exact executeSwaps_typed hI hc hn h
  | otherAction => cases h
  | invalid => cases h

theorem createMarket_accounts {args : CreateMarketArgs} {ps : List Promise}
    (h : createMarket S env c args = .ok (mid, ps, c')) :
    c'.accounts = c.accounts ∧ ∀ promise ∈ ps, ∀ id token n, promise ≠ .send id token n := by
  simp only [createMarket, Checked.bind_eq_ok, Checked.pure_eq_ok, Prod.mk.injEq] at h
  obtain ⟨_, -, _, -, _, -, base, -, quote, -, _, -, _, -, _, -, _, -, -, rfl, rfl⟩ := h
  refine ⟨rfl, fun promise hp id token n => ?_⟩
  rintro rfl
  have hmeta : ∀ mid side t, .send id token n ∉ (getDecimalsForToken mid side t).2 := by
    intro mid side t ht
    cases t with
    | nativeNear => cases ht
    | _ => cases List.mem_singleton.1 ht
  rw [List.mem_append, List.mem_append] at hp
  obtain (hp | hp) | hp := hp
  · exact hmeta _ _ _ hp
  · exact hmeta _ _ _ hp
  · split_ifs at hp
    · cases List.mem_singleton.1 hp
    · cases hp

/-- **A call whose amounts fit leaves only accounts whose numbers fit**, and
    promises only amounts that fit. -/
theorem dispatch_typed {op : Op} {ps : List Promise} (hI : IdLaw S) (hc : AccountsTyped c)
    (hdeposit : env.attachedDeposit < 2 ^ 128) (htime : env.blockTimestamp < 2 ^ 64)
    (hop : op.DepositsTyped) (h : dispatch S env c op = .ok (ps, c')) : CallTyped ps c' := by
  have market : ∀ {x : Call (Contract B)}, quiet x = .ok (ps, c') →
      (x = .ok c' → c'.accounts = c.accounts) → CallTyped ps c' := by
    intro x hx hsame
    obtain ⟨hok, rfl⟩ := quiet_eq_ok.1 hx
    have hc' : AccountsTyped c' := by
      rw [AccountsTyped, hsame hok]
      exact hc
    exact hc'.quiet
  cases op with
  | depositNear =>
    obtain ⟨hx, rfl⟩ := quiet_eq_ok.1 h
    simp only [depositNear, Checked.bind_eq_ok] at hx
    obtain ⟨_, -, hx⟩ := hx
    exact (internalDeposit_typed hc hdeposit
      (by simpa only [Contract.internalDeposit, Checked.bind_eq_ok] using hx)).quiet
  | withdrawNear n =>
    simp only [dispatch, withdrawNear, Checked.bind_eq_ok] at h
    obtain ⟨_, -, _, -, h⟩ := h
    exact internalWithdraw_typed hc h
  | withdrawFt t n =>
    simp only [dispatch, withdrawFt, Checked.bind_eq_ok] at h
    obtain ⟨_, -, _, -, h⟩ := h
    exact internalWithdraw_typed hc h
  | withdrawMt t i n =>
    simp only [dispatch, withdrawMt, Checked.bind_eq_ok] at h
    obtain ⟨_, -, _, -, token, -, h⟩ := h
    exact internalWithdraw_typed hc h
  | ftOnTransfer id n msg =>
    simp only [dispatch, Checked.map_eq_ok] at h
    obtain ⟨⟨unused, ps', c₁⟩, h, heq⟩ := h
    obtain ⟨rfl, rfl⟩ := Prod.mk.injEq .. ▸ heq
    exact ftOnTransfer_typed hI hc hop h
  | mtOnTransfer owners tokens ns =>
    obtain ⟨hx, rfl⟩ := quiet_eq_ok.1 h
    simp only [mtOnTransfer, Checked.bind_eq_ok] at hx
    obtain ⟨_, -, _, -, _, -, hx⟩ := hx
    refine (mtDeposits_typed (fun x hmem => ?_) hc hx).quiet
    exact hop _ (List.of_mem_zip (List.of_mem_zip hmem).1).2
  | swapNear swaps =>
    simp only [dispatch, swapNear, Checked.map_eq_ok, Checked.bind_eq_ok] at h
    obtain ⟨⟨unused, ps', c₁⟩, ⟨_, -, h⟩, heq⟩ := h
    obtain ⟨rfl, rfl⟩ := Prod.mk.injEq .. ▸ heq
    exact executeSwaps_typed hI hc hdeposit h
  | storageDeposit accountId only =>
    simp only [dispatch, Checked.map_eq_ok] at h
    obtain ⟨⟨bal, ps', c₁⟩, h, heq⟩ := h
    obtain ⟨rfl, rfl⟩ := Prod.mk.injEq .. ▸ heq
    exact storageDeposit_typed hc hdeposit h
  | storageWithdraw amount =>
    simp only [dispatch, Checked.map_eq_ok] at h
    obtain ⟨⟨bal, ps', c₁⟩, h, heq⟩ := h
    obtain ⟨rfl, rfl⟩ := Prod.mk.injEq .. ▸ heq
    exact storageWithdraw_typed hc h
  | storageUnregister =>
    simp only [dispatch, storageUnregister, Checked.bind_eq_ok, Checked.pure_eq_ok,
      Prod.mk.injEq] at h
    obtain ⟨_, -, _, -, a, -, _, -, rfl, rfl⟩ := h
    have hc' : AccountsTyped { c with accounts := c.accounts.erase env.predecessorAccountId } :=
      HMap.forall_erase hc
    exact ⟨hc', List.forall_mem_singleton.2 trivial⟩
  | createMarket args =>
    simp only [dispatch, Checked.map_eq_ok] at h
    obtain ⟨⟨mid, ps', c₁⟩, h, heq⟩ := h
    obtain ⟨rfl, rfl⟩ := Prod.mk.injEq .. ▸ heq
    obtain ⟨hsame, hps⟩ := createMarket_accounts h
    have hc₁ : AccountsTyped c₁ := by
      rw [AccountsTyped, hsame]
      exact hc
    exact hc₁.promises hps
  | newOrder mid p =>
    obtain ⟨hx, rfl⟩ := quiet_eq_ok.1 h
    obtain ⟨⟨r, c₁⟩, hok, rfl⟩ := Checked.map_eq_ok.1 hx
    exact (newOrder_typed hI hc htime hok).quiet
  | cancelOrder mid id =>
    obtain ⟨hx, rfl⟩ := quiet_eq_ok.1 h
    exact (cancelOrder_typed hc hx).quiet
  | cancelAllOrders mid =>
    obtain ⟨hx, rfl⟩ := quiet_eq_ok.1 h
    obtain ⟨⟨ids, c₁⟩, hok, rfl⟩ := Checked.map_eq_ok.1 hx
    exact (cancelAllOrders_typed hc hok).quiet
  | execute actions =>
    obtain ⟨hx, rfl⟩ := quiet_eq_ok.1 h
    obtain ⟨⟨rs, c₁⟩, hok, rfl⟩ := Checked.map_eq_ok.1 hx
    simp only [execute, Checked.bind_eq_ok] at hok
    obtain ⟨_, -, hok⟩ := hok
    exact (executeActions_typed hI htime hc hok).quiet
  | setContractState state =>
    refine market h fun hx => ?_
    simp only [setContractState, Checked.bind_eq_ok, Checked.pure_eq_ok] at hx
    obtain ⟨_, -, rfl⟩ := hx
    rfl
  | setOwner accountId =>
    refine market h fun hx => ?_
    simp only [setOwner, Checked.bind_eq_ok, Checked.pure_eq_ok] at hx
    obtain ⟨_, -, rfl⟩ := hx
    rfl
  | setMarketState mid state =>
    refine market h fun hx => ?_
    simp only [setMarketState, Checked.bind_eq_ok, Checked.pure_eq_ok] at hx
    obtain ⟨_, -, m, -, rfl⟩ := hx
    rfl
  | setMarketBidWindow mid bps =>
    refine market h fun hx => ?_
    simp only [setMarketBidWindow, Checked.bind_eq_ok, Checked.pure_eq_ok] at hx
    obtain ⟨_, -, m, -, rfl⟩ := hx
    rfl
  | setMarketAskWindow mid bps =>
    refine market h fun hx => ?_
    simp only [setMarketAskWindow, Checked.bind_eq_ok, Checked.pure_eq_ok] at hx
    obtain ⟨_, -, m, -, rfl⟩ := hx
    rfl
  | adminDeleteMarket mid =>
    refine market h fun hx => ?_
    obtain rfl | hdoes := adminDeleteMarket_ok (S := S) hx
    · rfl
    · cases hdoes with
      | delete => rfl
  | adminCancelOrder mid id =>
    obtain ⟨hx, rfl⟩ := quiet_eq_ok.1 h
    simp only [adminCancelOrder, Checked.bind_eq_ok] at hx
    obtain ⟨_, -, m, -, o, -, hx⟩ := hx
    exact (internalCancelOrder_typed hc hx).quiet
  | adminCancelAllUserOrders mid accountId =>
    obtain ⟨hx, rfl⟩ := quiet_eq_ok.1 h
    obtain ⟨⟨ids, c₁⟩, hok, rfl⟩ := Checked.map_eq_ok.1 hx
    simp only [adminCancelAllUserOrders, Checked.bind_eq_ok] at hok
    obtain ⟨_, -, hok⟩ := hok
    exact (internalCancelAllOrders_typed hc hok).quiet
  | adminClearOrderbook mid limit =>
    obtain ⟨hx, rfl⟩ := quiet_eq_ok.1 h
    obtain ⟨⟨ids, c₁⟩, hok, rfl⟩ := Checked.map_eq_ok.1 hx
    simp only [adminClearOrderbook, internalClearOrderbookOrders, Checked.bind_eq_ok,
      Checked.pure_eq_ok, Prod.mk.injEq] at hok
    obtain ⟨_, -, m, -, _, -, c₂, hok, -, rfl⟩ := hok
    exact (cancelForOwners_typed hc hok).quiet

/-! ## Runs -/

/-- The amounts that an event brings in fit. -/
def Event.DepositsTyped : Event → Prop
  | call env op =>
    env.attachedDeposit < 2 ^ 128 ∧ env.blockTimestamp < 2 ^ 64 ∧ op.DepositsTyped
  | resolve .. => True

instance Op.decidableDepositsTyped : DecidablePred Op.DepositsTyped
  | .ftOnTransfer _ n _ => inferInstanceAs (Decidable (n < 2 ^ 128))
  | .mtOnTransfer _ _ ns => inferInstanceAs (Decidable (∀ n ∈ ns, n < 2 ^ 128))
  | .depositNear | .withdrawNear _ | .withdrawFt .. | .withdrawMt .. | .swapNear _
  | .storageDeposit .. | .storageWithdraw _ | .storageUnregister | .createMarket _ | .newOrder ..
  | .cancelOrder .. | .cancelAllOrders _ | .execute _ | .setContractState _ | .setOwner _
  | .setMarketState .. | .setMarketBidWindow .. | .setMarketAskWindow .. | .adminDeleteMarket _
  | .adminCancelOrder .. | .adminCancelAllUserOrders .. | .adminClearOrderbook .. => .isTrue trivial

instance Event.decidableDepositsTyped : DecidablePred Event.DepositsTyped
  | .call env op => inferInstanceAs (Decidable (env.attachedDeposit < 2 ^ 128 ∧
      env.blockTimestamp < 2 ^ 64 ∧ op.DepositsTyped))
  | .resolve .. => .isTrue trivial

/-- The numbers of all accounts fit, and of all payouts on their way. -/
structure System.Typed (x : System B) : Prop where
  accounts : AccountsTyped x.contract
  pending : ∀ promise ∈ x.pending, promise.Typed

theorem onFtMetadata_accounts {d : Option ℕ} (h : onFtMetadata c mid pair d = .ok c') :
    c'.accounts = c.accounts := by
  simp only [onFtMetadata, Checked.bind_eq_ok] at h
  obtain ⟨m, -, h⟩ := h
  cases d with
  | none =>
    simp only [Checked.pure_eq_ok] at h
    rw [h]
  | some d =>
    simp only [Checked.bind_eq_ok, Checked.pure_eq_ok] at h
    obtain ⟨_, -, rfl⟩ := h
    rfl

theorem onMtMetadata_accounts {d : Option (List (Option String))}
    (h : onMtMetadata c mid pair d = .ok c') : c'.accounts = c.accounts := by
  simp only [onMtMetadata, Checked.bind_eq_ok] at h
  obtain ⟨m, -, h⟩ := h
  cases d with
  | none =>
    simp only [Checked.pure_eq_ok] at h
    rw [h]
  | some d =>
    dsimp only at h
    split at h <;>
    · simp only [Checked.pure_eq_ok] at h
      subst h
      rfl

/-- A callback leaves what fits, whatever it answers to. -/
theorem System.Typed.resolved {x : System B} (h : x.Typed) {promise : Promise}
    (hp : promise.Typed) (out : Outcome) : (System.resolved S x promise out).Typed := by
  have callback : ∀ {r : Call (Contract B)}, (∀ c', r = .ok c' → AccountsTyped c') →
      (x.callback r).Typed := by
    intro r hr
    cases r with
    | ok c' => exact ⟨hr c' rfl, h.pending⟩
    | error e => exact h
  have same : ∀ {c' : Contract B}, c'.accounts = x.contract.accounts → AccountsTyped c' := by
    intro c' hsame
    rw [AccountsTyped, hsame]
    exact h.accounts
  cases promise with
  | transfer id n => cases out <;> exact ⟨h.accounts, h.pending⟩
  | send id token n =>
    have failed : (x.callback
        (exchangeCallbackPostWithdraw S x.contract token id n .failed)).Typed := by
      refine callback fun c' hc' => ?_
      unfold exchangeCallbackPostWithdraw at hc'
      dsimp only at hc'
      split_ifs at hc'
      · exact internalDeposit_typed h.accounts hp hc'
      · exact internalDeposit_typed h.accounts hp hc'
    cases out with
    | successful => exact ⟨h.accounts, h.pending⟩
    | _ => exact failed
  | ftMetadata token mid pair =>
    cases out with
    | ftMetadata d => exact callback fun c' hc' => same (onFtMetadata_accounts hc')
    | _ => exact h
  | mtMetadata token subtoken mid pair =>
    cases out with
    | mtMetadata d => exact callback fun c' hc' => same (onMtMetadata_accounts hc')
    | _ => exact h

theorem System.Typed.step {x : System B} (hI : IdLaw S) (h : x.Typed) {ev : Event}
    (hev : ev.DepositsTyped) : (System.step S x ev).Typed := by
  cases ev with
  | call env op =>
    rcases hp : perform S env x.contract op with e | ⟨ps, c'⟩
    · simpa only [System.step, hp] using h
    · simp only [System.step, hp]
      obtain ⟨hdeposit, htime, hop⟩ := hev
      obtain ⟨haccounts, hps⟩ :=
        dispatch_typed hI h.accounts hdeposit htime hop (dispatch_of_perform hp)
      refine ⟨haccounts, fun promise hmem => ?_⟩
      obtain hmem | hmem := List.mem_append.1 hmem
      · exact h.pending _ hmem
      · exact hps _ hmem
  | resolve i out =>
    rcases hp : x.pending[i]? with _ | promise
    · simpa only [System.step, hp] using h
    · simp only [System.step, hp]
      have hrest : System.Typed { x with pending := x.pending.eraseIdx i } :=
        ⟨h.accounts, fun promise hmem => h.pending _ (List.mem_of_mem_eraseIdx hmem)⟩
      exact hrest.resolved (h.pending _ (List.mem_of_getElem? hp)) out

/-- **In every run the numbers of all accounts fit.** -/
theorem typed_of_reach (hI : IdLaw S) {x : System B}
    (hx : System.Reach S (fun _ ev => ev.DepositsTyped) x) : x.Typed := by
  refine hx.invariant (P := System.Typed) ?_ fun x ev _ hev h => h.step hI hev
  rintro x ⟨id, rfl⟩
  exact ⟨fun _ _ h => (by cases h), fun _ h => absurd h List.not_mem_nil⟩

/-- **Accounts survive storage**, in every run: no two records of the contract have
    the same key, and the account loaded from the record of any id holds what was
    stored for it, and there is none if none was stored. -/
theorem records_read_back (hI : IdLaw S) {x : System B}
    (hx : System.Reach S (fun _ ev => ev.DepositsTyped) x)
    (hshort : ∀ id a, x.contract.accounts.lookup id = some a → a.Short)
    (hlen : x.contract.marketIterMap.length < 2 ^ 64) (encodeMarket : Market B → Borsh.Bytes)
    (encodeContract : Contract B → Borsh.Bytes) :
    (x.contract.records encodeMarket encodeContract).NodupKeys ∧ ∀ id,
      match x.contract.accounts.lookup id with
      | none => loadAccount (x.contract.records encodeMarket encodeContract) id = none
      | some a => ∃ a', loadAccount (x.contract.records encodeMarket encodeContract) id = some a' ∧
        a.Same a' := by
  refine ⟨records_nodupKeys hlen, fun id => ?_⟩
  rw [loadAccount_records hlen]
  rcases ha : x.contract.accounts.lookup id with _ | a
  · rfl
  · obtain ⟨a', hread, hsame⟩ := a.reads ((typed_of_reach hI hx).accounts id a ha) (hshort id a ha)
    exact ⟨a', hread.parse, hsame⟩

open Engine in
theorem records_read_back_bought :
    ((run bought).contract.records (fun _ => []) fun _ => []).NodupKeys ∧ ∀ id,
      match (run bought).contract.accounts.lookup id with
      | none => loadAccount ((run bought).contract.records (fun _ => []) fun _ => []) id = none
      | some a => ∃ a', loadAccount ((run bought).contract.records (fun _ => []) fun _ => []) id =
          some a' ∧ a.Same a' := by
  have hreach : System.Reach sdk (fun _ ev => ev.DepositsTyped) (run bought) :=
    reach_run fun e he _ => (by decide +kernel : ∀ e ∈ bought, e.DepositsTyped) e he
  have hshort : ∀ e ∈ (run bought).contract.accounts.entries, e.2.Short := by decide +kernel
  exact records_read_back idLaw hreach (HMap.forall_lookup_iff.2 hshort) (by decide +kernel) _ _

end TonicDex
