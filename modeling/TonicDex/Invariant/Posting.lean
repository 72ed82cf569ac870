/-
  What the log says of accounts.

  An observer who knows the decimals of the tokens posts to the accounts what the
  log says (`statement`): to makers what their fills brought them, to a taker
  what its order traded, less its fee and what it locks, to a referrer its
  rebate, to an owner what is refunded.  `System.outside` is what events move
  between accounts and the outside, of which the log says nothing.
-/
import TonicDex.Invariant.Kept
import TonicDex.Invariant.Replay
import TonicDex.Lib.Postings

namespace TonicDex

open Postings

variable {B : Type} {S : Sdk B} {c c' : Contract B} {mid : MarketId} {m m' : Market B}
  {taker owner : AccountId} {n : NewOrder} {r : PlaceOrderResult} {log es : Log}
  {decimals : TokenType → ℕ} {e : Effect B} {env : Env} {op : Op} {ps : List Promise}

/-- Signed amounts of tokens, posted to accounts. -/
abbrev Statement := List ((AccountId × TokenType) × ℤ)

/-! ## What events post -/

/-- What a fill brings its maker, of a market of `base` for `quote`. -/
def FillEventData.postings (base quote : TokenType) (d : FillEventData) : Statement :=
  [((d.makerAccountId, quote), d.makerRebate),
    match d.side with
    | .buy => ((d.makerAccountId, quote), d.quoteQty)
    | .sell => ((d.makerAccountId, base), d.fillQty)]

/-- What an order with these fills costs and brings its taker, if a bid locks quote at
    its native limit price per `denom` of base. -/
def NewOrderEvent.takerPostings (base quote : TokenType) (denom : ℕ) (fills : List FillEventData)
    (e : NewOrderEvent) : Statement :=
  let traded := (fills.map FillEventData.fillQty).sum
  let paid := (fills.map FillEventData.quoteQty).sum
  let opened := e.openQuantity.getD 0
  match e.side with
  | .buy => [((e.accountId, base), traded),
      ((e.accountId, quote), -(opened * e.limitPrice / denom + paid + e.takerFee : ℕ))]
  | .sell => [((e.accountId, quote), paid - e.takerFee), ((e.accountId, base), -(traded + opened))]

/-- What an order brings its referrer.  A taker of an order that refers itself is not
    paid the rebate. -/
def NewOrderEvent.referrerPostings (quote : TokenType) (e : NewOrderEvent) : Statement :=
  match e.referrerId with
  | some id =>
    if e.isSwap ∨ id ≠ e.accountId then [((id, quote), e.referrerRebate)] else []
  | none => []

/-- Swaps are paid from outside, and pay out. -/
def NewOrderEvent.postings (base quote : TokenType) (denom : ℕ) (fills : List FillEventData)
    (e : NewOrderEvent) : Statement :=
  (if e.isSwap then [] else e.takerPostings base quote denom fills) ++ e.referrerPostings quote

/-- What a cancellation refunds the account that the order was announced for. -/
def CancelEventData.postings (i : MarketIndex) (d : CancelEventData) : Statement :=
  (i.orders d.orderId).elim [] fun e => [((e.accountId, d.refundToken), d.refundAmount)]

/-- The fills told last: those of an order are told right before it. -/
def lastFills (past : Log) : List FillEventData :=
  match past.getLast? with
  | some (.fill e) => e.fills
  | _ => []

/-- What an event posts after the events `past`. -/
def EventType.postings (decimals : TokenType → ℕ) (past : Log) (event : EventType) : Statement :=
  (replay event.marketId past).elim [] fun i =>
    let base := i.created.baseToken
    let quote := i.created.quoteToken
    match event with
    | .newMarket _ => []
    | .fill e => e.fills.flatMap (FillEventData.postings base quote)
    | .order e => e.postings base quote (10 ^ decimals base) (lastFills past)
    | .cancel e => e.cancels.flatMap (CancelEventData.postings i)

/-- What the log posts. -/
def statement (decimals : TokenType → ℕ) (log : Log) : Statement :=
  posted (EventType.postings decimals) log

/-! ## What goes in and out -/

/-- What a transfer takes out of an account. -/
def Promise.withdrawn : Promise → Statement
  | send id token n => [((id, token), -n)]
  | _ => []

/-- What a call that returns moves between accounts and the outside. -/
def Op.outside (env : Env) (ps : List Promise) : Op → Statement
  | depositNear => [((env.predecessorAccountId, .nativeNear), env.attachedDeposit)]
  | ftOnTransfer id n .empty => [((id, .fungibleToken env.predecessorAccountId), n)]
  | mtOnTransfer ids tokens ns => ((tokens.zip ns).zip ids).map fun x =>
    ((x.2, .multiFungibleToken env.predecessorAccountId x.1.1), x.1.2)
  | withdrawNear _ | withdrawFt .. | withdrawMt .. => ps.flatMap Promise.withdrawn
  | _ => []

/-- What a failed transfer returns to an account, or else to the owner. -/
def System.returned (S : Sdk B) (s : System B) : Promise → Outcome → Statement
  | .send .., .successful => []
  | .send id token n, _ =>
    match exchangeCallbackPostWithdraw S s.contract token id n .failed with
    | .ok _ => [((s.contract.refundee id, token), n)]
    | .error _ => []
  | _, _ => []

/-- What an event moves between accounts and the outside. -/
def System.outside (S : Sdk B) (s : System B) : Event → Statement
  | .call env op =>
    match perform S env s.contract op with
    | .ok (ps, _) => op.outside env ps
    | .error _ => []
  | .resolve i out =>
    match s.pending[i]? with
    | some p => s.returned S p out
    | none => []

/-- What an effect moves between accounts and the outside. -/
def Effect.outside : Effect B → Statement
  | credit id token n => [((id, token), n)]
  | debit id token n => [((id, token), -n)]
  | _ => []

theorem flatMap_outside_eq_nil {effects : List (Effect B)} (h : ∀ e ∈ effects, e.outside = []) :
    effects.flatMap Effect.outside = [] := List.flatMap_eq_nil_iff.2 h

/-- **What a call moves in and out is what its effects do.** -/
theorem Shape.outside_eq {effects : List (Effect B)} (h : Shape S c env op ps effects) :
    effects.flatMap Effect.outside = op.outside env ps := by
  cases h with
  | withdraw pos method =>
    obtain rfl | ⟨_, rfl⟩ | ⟨_, _, rfl⟩ := method
    · rfl
    · rfl
    · rfl
  | mtDeposit =>
    rw [List.flatMap_map]
    exact List.map_eq_flatMap.symm
  | @swap op id x y swaps effects method hops =>
    have hnone : effects.flatMap Effect.outside = [] := by
      refine flatMap_outside_eq_nil fun e he => ?_
      obtain ⟨_, -, _, _, _, _, rfl⟩ := hops.mem e he
      rfl
    obtain ⟨rfl, -⟩ | ⟨rfl, -⟩ := method
    · exact hnone
    · exact hnone
  | storageDeposit sum effects =>
    obtain ⟨rfl, -⟩ | rfl := effects
    · rfl
    · rfl
  | execute trades =>
    refine flatMap_outside_eq_nil fun e he => ?_
    cases trades e he with
    | _ => rfl
  | admin method =>
    obtain ⟨_, rfl⟩ | ⟨_, rfl⟩ := method
    · rfl
    · rfl
  | setWindow method =>
    obtain ⟨_, rfl⟩ | ⟨_, rfl⟩ := method
    · rfl
    · rfl
  | @adminCancel op mid effects method cancels =>
    have hnone : effects.flatMap Effect.outside = [] := by
      refine flatMap_outside_eq_nil fun e he => ?_
      obtain ⟨_, _, rfl, -⟩ := cancels e he
      rfl
    obtain ⟨_, rfl⟩ | ⟨_, rfl⟩ | ⟨_, rfl⟩ := method
    · exact hnone
    · exact hnone
    · exact hnone
  | _ => rfl

/-! ## What trades post -/

theorem fillCredits_cons (m : Market B) (side : Side) (id : AccountId) (f : Match)
    (fs : List Match) (token : TokenType) : fillCredits m side id (f :: fs) token =
      (if f.makerUserId = id then m.makerCredit side f token else 0) +
        fillCredits m side id fs token := by
  by_cases hf : f.makerUserId = id
  · simp [fillCredits, hf]
  · simp [fillCredits, hf]

/-- Fills post what they credit. -/
theorem net_fills (m : Market B) (side : Side) (taker : AccountId) (fs : List Match)
    (id : AccountId) (token : TokenType) :
    net ((fs.map (m.fillData side taker)).flatMap
        (FillEventData.postings m.baseToken.tokenType m.quoteToken.tokenType)) (id, token) =
      fillCredits m side id fs token := by
  induction fs with
  | nil => rfl
  | cons f fs ih =>
    rw [List.map_cons, List.flatMap_cons, net_append, ih, fillCredits_cons, Nat.cast_add]
    congr 1
    by_cases hid : f.makerUserId = id
    · cases side with
      | _ =>
        simp only [FillEventData.postings, Market.fillData, net_cons, net_nil, Prod.mk.injEq, hid,
          true_and, if_true, Market.makerCredit, Market.fillBase, Nat.cast_add,
          Nat.cast_ite, Nat.cast_zero, eq_comm (a := token), add_zero]
    · cases side with
      | _ =>
        simp only [FillEventData.postings, Market.fillData, net_cons, net_nil, Prod.mk.injEq, hid,
          false_and, if_false, Nat.cast_zero, add_zero]

/-- An order posts what it costs and brings its taker. -/
theorem net_takerPostings (m : Market B) (taker : AccountId) (fs : List Match)
    (event : NewOrderEvent) (s : Settled) (denom locked : ℕ)
    (hs : s.toMakerSettlementResult = m.totals fs) (hfee : event.takerFee = s.totalTakerFee)
    (hcovered : event.side = .sell → s.totalTakerFee ≤ s.quoteTraded)
    (hlocked : locked = match event.side with
      | .buy => event.openQuantity.getD 0 * event.limitPrice / denom
      | .sell => event.openQuantity.getD 0) (id : AccountId) (token : TokenType) :
    net (event.takerPostings m.baseToken.tokenType m.quoteToken.tokenType denom
        (fs.map (m.fillData event.side taker))) (id, token) +
        (if id = event.accountId ∧ token = (takerDebit m event.side s locked).1
          then (takerDebit m event.side s locked).2 else 0 : ℕ) =
      (if id = event.accountId ∧ token = (takerCredit m event.side s).1
        then (takerCredit m event.side s).2 else 0 : ℕ) := by
  have hbase : ((fs.map (m.fillData event.side taker)).map FillEventData.fillQty).sum =
      s.baseTraded := by
    rw [List.map_map]
    exact (congrArg MakerSettlementResult.baseTraded hs).symm
  have hquote : ((fs.map (m.fillData event.side taker)).map FillEventData.quoteQty).sum =
      s.quoteTraded := by
    rw [List.map_map]
    exact (congrArg MakerSettlementResult.quoteTraded hs).symm
  rw [NewOrderEvent.takerPostings, hbase, hquote, hfee]
  by_cases hid : id = event.accountId
  swap
  · have hne : ∀ t, ¬ (event.accountId, t) = (id, token) := by
      intro t he
      exact hid (Prod.mk.inj he).1.symm
    cases hside : event.side with
    | _ => simp only [net_cons, net_nil, hne, hid, false_and, if_false, Nat.cast_zero, add_zero]
  subst hid
  cases hside : event.side with
  | buy =>
    rw [hside] at hlocked
    simp only [net_cons, net_nil, Prod.mk.injEq, true_and, takerDebit, takerCredit, ← hlocked,
      eq_comm (a := token)]
    split_ifs <;> omega
  | sell =>
    rw [hside] at hlocked
    have hle := hcovered hside
    simp only [net_cons, net_nil, Prod.mk.injEq, true_and, takerDebit, takerCredit, ← hlocked,
      eq_comm (a := token)]
    split_ifs <;> omega

theorem net_statement_concat (log : Log) (event : EventType) (k : AccountId × TokenType) :
    net (statement decimals (log ++ [event])) k =
      net (statement decimals log) k + net (event.postings decimals log) k := by
  rw [statement, posted_concat, net_append]
  rfl

theorem lastFills_concat (log : Log) (e : NewFillEvent) :
    lastFills (log ++ [.fill e]) = e.fills := by
  rw [lastFills, List.getLast?_concat]

/-- What the events of some fills post, which are told last then. -/
theorem net_statement_fills (decimals : TokenType → ℕ) {i : MarketIndex}
    (hwhole : lastFills log = []) (hi : replay mid log = some i) (hs : i.Shows S m) (id : OrderId)
    (side : Side) (taker : AccountId) (fs : List Match) :
    lastFills (log ++ m.fillEvents mid id side taker fs) = fs.map (m.fillData side taker) ∧
      (∃ i', replay mid (log ++ m.fillEvents mid id side taker fs) = some i' ∧
        i'.created = i.created) ∧
      ∀ k, net (statement decimals (log ++ m.fillEvents mid id side taker fs)) k =
        net (statement decimals log) k + net ((fs.map (m.fillData side taker)).flatMap
          (FillEventData.postings m.baseToken.tokenType m.quoteToken.tokenType)) k := by
  have hreplay : replay mid (log ++ m.fillEvents mid id side taker fs) =
      some ((fs.map (m.fillData side taker)).foldl .fill i) := by
    rw [replay_append, hi, foldl_fillEvents]
  cases fs with
  | nil =>
    have hnone : m.fillEvents mid id side taker [] = [] := rfl
    rw [hnone, List.append_nil]
    exact ⟨hwhole, ⟨i, hi, rfl⟩, fun k => (add_zero _).symm⟩
  | cons f fs =>
    refine ⟨lastFills_concat _ _, ⟨_, hreplay, ?_⟩, ?_⟩
    · rw [MarketIndex.foldl_fill]
    · intro k
      have hone : m.fillEvents mid id side taker (f :: fs) =
        [.fill ⟨(f :: fs).map (m.fillData side taker), mid, id⟩] := rfl
      rw [hone, net_statement_concat]
      simp only [EventType.postings, EventType.marketId, hi, Option.elim_some, hs.base, hs.quote]

/-- What a trade posts. -/
theorem net_statement_trade {i : MarketIndex} (hwhole : lastFills log = [])
    (hi : replay mid log = some i) (hs : i.Shows S m) (t : TradeLog S c mid m taker r m' c' es)
    (id : AccountId) (token : TokenType) :
    net (statement decimals (log ++ es)) (id, token) = net (statement decimals log) (id, token) +
      fillCredits m t.n.side id r.fills token +
      net (t.event.postings m.baseToken.tokenType m.quoteToken.tokenType
        (10 ^ decimals m.baseToken.tokenType) (r.fills.map (m.fillData t.n.side taker)))
        (id, token) := by
  obtain ⟨hlast, ⟨i', hi', hcreated⟩, hnet⟩ :=
    net_statement_fills decimals hwhole hi hs r.id t.n.side taker r.fills
  have hes : log ++ es =
      log ++ m.fillEvents mid r.id t.n.side taker r.fills ++ [.order t.event] :=
    (congrArg (log ++ ·) t.events).trans (List.append_assoc _ _ _).symm
  rw [hes, net_statement_concat, hnet, net_fills]
  congr 1
  simp only [EventType.postings, EventType.marketId, t.told.market, hi', hlast, hcreated,
    Option.elim_some, hs.base, hs.quote]

/-- What a referrer is posted. -/
theorem net_referrerPostings (quote : TokenType) (event : NewOrderEvent) (id : AccountId)
    (token : TokenType) : net (event.referrerPostings quote) (id, token) =
      (if event.referrerId = some id ∧ token = quote ∧ (event.isSwap ∨ id ≠ event.accountId)
        then event.referrerRebate else 0 : ℕ) := by
  unfold NewOrderEvent.referrerPostings
  rcases event.referrerId with _ | id'
  · simp
  by_cases hid : id' = id
  · subst hid
    by_cases hpaid : event.isSwap = true ∨ id' ≠ event.accountId
    · simp [hpaid, eq_comm (a := token)]
    · simp [hpaid]
  · have hnone : ∀ n : ℤ, net [((id', quote), n)] (id, token) = 0 := by
      intro n
      simp [hid]
    simp only [Option.some_inj, hid, false_and, if_false, Nat.cast_zero]
    split_ifs
    · exact hnone _
    · rfl

/-- What some cancellations post is what they refund. -/
theorem net_cancels {i : MarketIndex} {cancels : List CancelEventData}
    {os : List OpenLimitOrder} (htold : cancels.map CancelEventData.says = os.map m.cancelled)
    (howner : ∀ x ∈ os, ∃ e, i.orders x.id = some e ∧ e.accountId = owner) (id : AccountId)
    (token : TokenType) : net (cancels.flatMap (CancelEventData.postings i)) (id, token) =
      (if id = owner then (os.map fun x =>
        if token = m.sideToken x.side then m.restingValue x.side x else 0).sum else 0 : ℕ) := by
  have hdata : ∀ cancels : List CancelEventData,
      cancels.flatMap (CancelEventData.postings i) = (cancels.map CancelEventData.says).flatMap
        fun x => (i.orders x.1).elim [] fun e => [((e.accountId, x.2.2.2), (x.2.2.1 : ℤ))] := by
    intro cancels
    rw [List.flatMap_map]
    rfl
  rw [hdata, htold]
  clear hdata htold
  induction os with
  | nil => simp
  | cons x os ih =>
    obtain ⟨⟨e, he, rfl⟩, hrest⟩ := List.forall_mem_cons.1 howner
    rw [List.map_cons, List.flatMap_cons, net_append, ih hrest]
    simp only [Market.cancelled, he, Option.elim_some, net_cons, net_nil, Prod.mk.injEq,
      List.map_cons, List.sum_cons]
    by_cases hid : id = e.accountId
    · simp [hid, eq_comm (a := token)]
    · have hid' : ¬ e.accountId = id := fun h => hid h.symm
      simp [hid, hid']

end TonicDex
