/-
  The log tells the balances.

  Every effect does to the balances what its log posts, or what it moves in or
  out (`Tells.tracked`).  So in every run the postings of the log and what went
  in and out come to the balance of every account in every token
  (`balances_told`).
-/
import TonicDex.Invariant.Posting
import TonicDex.Invariant.Referral

namespace TonicDex

open Postings

variable {B : Type} {S : Sdk B} {c c' : Contract B} {mid : MarketId} {m m' : Market B}
  {taker owner : AccountId} {n : NewOrder} {r : PlaceOrderResult} {log es : Log}
  {decimals : TokenType → ℕ} {e : Effect B} {env : Env} {op : Op} {ps : List Promise}

/-! ## One effect -/

/-- A bid is placed in a market with the decimals of its base token. -/
def Effect.Denominated (decimals : TokenType → ℕ) (c : Contract B) : Effect B → Prop
  | order _ mid p _ => p.side = .buy → ∀ m, c.markets.lookup mid = some m →
    m.baseToken.decimals = decimals m.baseToken.tokenType
  | _ => True

/-- What is posted comes to the balances. -/
structure Tracked (S : Sdk B) (decimals : TokenType → ℕ) (c : Contract B) (log : Log)
    (outside : Statement) : Prop where
  index : Replayed S c log
  /-- no fills are told whose order is not -/
  whole : lastFills log = []
  balances : ∀ id token, ((c.accountOf id).getBalance S token : ℤ) =
    net (statement decimals log) (id, token) + net outside (id, token)

/-- The fills of a trade, and what it left in the market, say how it was settled. -/
theorem Traded.settled_unique {n' : NewOrder} {ref ref' : Option AccountId} {s s' : Settled}
    (h : Traded S c mid m taker n ref r m' s c') (h' : Traded S c mid m taker n' ref' r m' s' c') :
    s = s' := by
  have hmakers := h.settled.totals.trans h'.settled.totals.symm
  have hfee := h.settled.fee.trans h'.settled.fee.symm
  have hnet : s.net = s'.net := by
    have h1 := congrArg Market.feesAccrued h.market
    have h2 := congrArg Market.feesAccrued h'.market
    exact Nat.add_left_cancel (h1.symm.trans h2)
  have hsplit := h.settled.fee_eq
  have hsplit' := h'.settled.fee_eq
  obtain ⟨makers, fee, rebate⟩ := s
  obtain ⟨makers', fee', rebate'⟩ := s'
  simp only at hmakers hfee hnet hsplit hsplit'
  subst hmakers hfee
  obtain rfl : rebate = rebate' := by omega
  rfl

/-- What an order locks, by its event. -/
theorem OrderRun.locked_told {p : NewOrderParams} (hB : BookLaws S)
    (run : OrderRun S env c mid p r c') (hm : MarketOk S c.prevOrderSequenceNumber run.m)
    (t : TradeLog S c mid run.m env.predecessorAccountId run.done.result run.done.market
      run.done.contract es) (asks : t.event.Asks p) :
    run.path.locked = match p.side with
      | .buy => t.event.openQuantity.getD 0 * t.event.limitPrice / run.m.denom
      | .sell => t.event.openQuantity.getD 0 := by
  rw [t.told.openQuantity_eq (t.traded.placement hB hm)]
  by_cases ht : p.orderType = .market
  · obtain ⟨-, hlocked, -⟩ := run.path.market ht
    have hopen := (run.path.traded.placement hB hm).openQty_of_market (run.path.type.trans ht)
    rw [hlocked, hopen]
    cases p.side with
    | buy => simp
    | sell => simp
  · obtain ⟨limit, hlimit, -, -, hlocked, -⟩ := run.path.limit ht
    obtain rfl : limit = t.event.limitPrice := Option.some_inj.1 (hlimit.symm.trans (asks.limit ht))
    rw [hlocked]
    cases p.side with
    | buy => rfl
    | sell => rfl

/-- **What an order posts is what it does to the balances.** -/
theorem OrderRun.net_eq {p : NewOrderParams} {i : MarketIndex} (hB : BookLaws S) (hT : TokenLaws S)
    (run : OrderRun S env c mid p r c') (hm : MarketOk S c.prevOrderSequenceNumber run.m)
    (t : TradeLog S c mid run.m env.predecessorAccountId run.done.result run.done.market
      run.done.contract es) (asks : t.event.Asks p) (hwhole : lastFills log = [])
    (hi : replay mid log = some i) (hs : i.Shows S run.m)
    (hd : p.side = .buy →
      run.m.baseToken.decimals = decimals run.m.baseToken.tokenType) (id : AccountId)
    (token : TokenType) :
    ((c'.accountOf id).getBalance S token : ℤ) - (c.accountOf id).getBalance S token =
      net (statement decimals (log ++ es)) (id, token) -
        net (statement decimals log) (id, token) := by
  have hside : t.n.side = p.side := t.told.side.symm.trans asks.side
  have hsettled : t.s = run.path.s := t.traded.settled_unique run.path.traded
  have hlocked := run.locked_told hB hm t asks
  rw [net_statement_trade hwhole hi hs t, NewOrderEvent.postings, asks.isSwap, net_append,
    net_referrerPostings, asks.isSwap, t.told.referrerRebate, t.told.account, asks.referrerId,
    hsettled, hside]
  have htaker := net_takerPostings run.m env.predecessorAccountId run.done.result.fills t.event
    run.path.s (10 ^ decimals run.m.baseToken.tokenType) run.path.locked
    run.path.traded.settled.totals (t.told.takerFee.trans (congrArg _ hsettled))
    (fun hsell => run.path.feeCovered (asks.side ▸ hsell)) ?_ id token
  swap
  · rw [hlocked, asks.side]
    cases hp : p.side with
    | buy => simp only [Market.denom, hd hp]
    | sell => rfl
  rw [asks.side, t.told.account] at htaker
  simp only [Bool.false_eq_true, if_false, false_or]
  by_cases hid : id = env.predecessorAccountId
  · subst hid
    have hbal := run.balance_taker hB hT hm token
    simp only [OrderRun.credits, OrderRun.debits, true_and] at hbal
    simp only [true_and] at htaker
    simp only [ne_eq, not_true_eq_false, and_false, if_false, run.fills_eq] at htaker ⊢
    omega
  · have hbal := run.balance_of_ne hT hid token
    simp only [OrderRun.credits, OrderRun.debits, hid, false_and, if_false] at hbal htaker
    simp only [ne_eq, hid, not_false_eq_true, and_true, run.fills_eq] at htaker ⊢
    omega

/-- What a hop posts is what it does to the balances. -/
theorem LoggedTrade.net_eq (decimals : TokenType → ℕ) {i : MarketIndex} (hT : TokenLaws S)
    (t : LoggedTrade S c mid taker es c') (accounts : c'.accounts = t.settled.accounts)
    (isSwap : t.log.event.isSwap = true) (referrerId : t.log.event.referrerId = t.log.referrerId)
    (hwhole : lastFills log = []) (hi : replay mid log = some i) (hs : i.Shows S t.m)
    (id : AccountId) (token : TokenType) :
    ((c'.accountOf id).getBalance S token : ℤ) - (c.accountOf id).getBalance S token =
      net (statement decimals (log ++ es)) (id, token) -
        net (statement decimals log) (id, token) := by
  have hbal := t.log.traded.balance_eq hT id token
  have haccount : c'.accountOf id = t.settled.accountOf id := by
    rw [Contract.accountOf, accounts, Contract.accountOf]
  rw [net_statement_trade hwhole hi hs t.log, NewOrderEvent.postings, isSwap, net_append,
    net_referrerPostings, isSwap, referrerId, t.log.told.referrerRebate, haccount]
  simp only [if_true, net_nil, true_or, and_true]
  omega

/-- What a cancellation posts is what it does to the balances. -/
theorem LoggedCancel.net_eq (decimals : TokenType → ℕ) {i : MarketIndex} {ids : List OrderId}
    (hB : BookLaws S) (hT : TokenLaws S) (t : LoggedCancel S c mid owner ids es c')
    (hm : MarketOk S c.prevOrderSequenceNumber t.run.m) (hi : replay mid log = some i)
    (hs : i.Shows S t.run.m) (id : AccountId) (token : TokenType) :
    ((c'.accountOf id).getBalance S token : ℤ) - (c.accountOf id).getBalance S token =
      net (statement decimals (log ++ es)) (id, token) -
        net (statement decimals log) (id, token) := by
  have hperm := t.run.cancelled_perm hB hm
  have howner : ∀ x ∈ t.run.results.map CancelOrderResult.order,
      ∃ e, i.orders x.id = some e ∧ e.accountId = owner := by
    intro x hx
    obtain ⟨hmem, hin⟩ := List.mem_filter.1 (hperm.mem_iff.1 hx)
    have kept : Kept S owner c _ c' := t.run.keeps hB hT hm
    obtain ⟨m, hfound, howns, -⟩ := kept.cancel mid ids rfl
    obtain rfl : m = t.run.m := Option.some_inj.1 (hfound.symm.trans t.run.found)
    obtain ⟨e, he, announces⟩ := hs.orders _ hmem
    exact ⟨e, he, announces.account.trans (howns _ hmem (of_decide_eq_true hin)).1⟩
  have hposted : (EventType.cancel ⟨mid, t.cancels⟩).postings decimals log =
      t.cancels.flatMap (CancelEventData.postings i) := by
    simp only [EventType.postings, EventType.marketId, hi, Option.elim_some]
  have kept : Kept S id c _ c' := t.run.keeps hB hT hm
  rw [t.events, net_statement_concat, hposted, net_cancels t.told howner]
  by_cases hid : id = owner
  · subst hid
    obtain ⟨m, hfound, -, hbal⟩ := kept.cancel mid ids rfl
    obtain rfl : m = t.run.m := Option.some_inj.1 (hfound.symm.trans t.run.found)
    rw [hbal token, refundCredits, ← (hperm.map _).sum_eq, if_pos rfl]
    push_cast
    ring
  · have hsame := kept.other rfl (fun _ _ he => hid (by cases he; rfl)) (fun _ _ he => by cases he)
    rw [if_neg hid, hsame]
    push_cast
    ring

/-- What an effect moves in or out, if it logs nothing. -/
theorem Does.moved (hT : TokenLaws S) (h : Does S c e c') (hq : e.Quiet) (id : AccountId)
    (token : TokenType) : ((c'.accountOf id).getBalance S token : ℤ) =
      (c.accountOf id).getBalance S token + net e.outside (id, token) := by
  cases h with
  | @credit id' a t n found covered =>
    rw [accountOf_putAccount]
    by_cases hid : id = id'
    · subst hid
      simp [accountOf_of_lookup found, Account.getBalance, Account.balance_credit, Effect.outside,
        hT.key_injective.eq_iff, eq_comm (a := token)]
    · simp [hid, Effect.outside, eq_comm (a := id')]
  | @debit id' a a' t n found paid covered =>
    have hpaid := TakerPaid.withdraw_balance paid (S.key token)
    rw [accountOf_putAccount]
    by_cases hid : id = id'
    · subst hid
      simp only [if_true, accountOf_of_lookup found, Account.getBalance, Effect.outside, net_cons,
        net_nil, Prod.mk.injEq, true_and, hT.key_injective.eq_iff, eq_comm (a := token)] at hpaid ⊢
      split_ifs at hpaid ⊢ <;> omega
    · simp [hid, Effect.outside, eq_comm (a := id')]
  | @storage id' a inn out total found sum covered =>
    rw [accountOf_putAccount]
    split_ifs with hid
    · subst hid
      have hold : c.accountOf id = a := by
        obtain hfound | ⟨hnone, rfl⟩ := found
        · exact accountOf_of_lookup hfound
        · rw [Contract.accountOf, hnone, Option.getD_none]
      rw [hold]
      exact (add_zero _).symm
    · exact (add_zero _).symm
  | @unregister id' a found empty =>
    rw [Contract.accountOf, HMap.lookup_erase_eq]
    split_ifs with hid
    · subst hid
      rw [accountOf_of_lookup found, Account.getBalance_of_isEmpty empty]
      rfl
    · exact (add_zero _).symm
  | order | hop | cancel | create => exact hq.elim
  | delete | setState | setWindow | decimals | admin => exact (add_zero _).symm

/-- A trade is told to its end. -/
theorem TradeLog.whole (t : TradeLog S c mid m taker r m' c' es) (log : Log) :
    lastFills (log ++ es) = [] := by
  have hes : log ++ es = log ++ m.fillEvents mid r.id t.n.side taker r.fills ++ [.order t.event] :=
    (congrArg (log ++ ·) t.events).trans (List.append_assoc _ _ _).symm
  rw [hes, lastFills, List.getLast?_concat]

theorem Tells.whole (ht : Tells S c e es c') (h : lastFills log = []) :
    lastFills (log ++ es) = [] := by
  cases ht with
  | order run t asks => exact t.whole log
  | hop t => exact t.log.whole log
  | cancel t => rw [t.events, lastFills, List.getLast?_concat]
  | create => rw [lastFills, List.getLast?_concat]
  | quiet => rwa [List.append_nil]

/-- **What is posted comes to the balances after every effect.** -/
theorem Tells.tracked (hB : BookLaws S) (hT : TokenLaws S) {outside : Statement}
    (ht : Tells S c e es c') (hdo : Does S c e c') (hc : BooksOk S c)
    (hd : e.Denominated decimals c) (h : Tracked S decimals c log outside) :
    Tracked S decimals c' (log ++ es) (outside ++ e.outside) := by
  refine ⟨ht.replayed hB hdo hc h.index, ht.whole h.whole, ?_⟩
  intro id token
  have hold := h.balances id token
  rw [net_append]
  cases ht with
  | order run t asks =>
    obtain ⟨i, hi, hs⟩ := h.index _ _ run.found
    have hmove := run.net_eq hB hT (hc _ _ run.found) t asks h.whole hi hs
      (fun hbuy => hd hbuy _ run.found) id token
    simp only [Effect.outside, net_nil]
    omega
  | hop t accounts isSwap referrerId =>
    obtain ⟨i, hi, hs⟩ := h.index _ _ t.found
    have hmove := t.net_eq decimals hT accounts isSwap referrerId h.whole hi hs id
      token
    simp only [Effect.outside, net_nil]
    omega
  | cancel t =>
    obtain ⟨i, hi, hs⟩ := h.index _ _ t.run.found
    have hmove := t.net_eq decimals hB hT (hc _ _ t.run.found) hi hs id token
    simp only [Effect.outside, net_nil]
    omega
  | create event base quote =>
    have hnone : (EventType.newMarket event).postings decimals log = [] := by
      unfold EventType.postings
      cases replay _ log with
      | none => rfl
      | some i => rfl
    cases hdo with
    | create new fresh =>
      rw [net_statement_concat, hnone]
      simp only [Effect.outside, net_nil, add_zero]
      exact hold
  | quiet hq =>
    rw [List.append_nil, hdo.moved hT hq, hold]
    ring

/-! ## Calls and runs -/

theorem Effect.Denominated.after (hB : BookLaws S) {e' : Effect B} (h : e'.Denominated decimals c)
    (hdo : Does S c e c') (hc : BooksOk S c) (he : e.Matches) : e'.Denominated decimals c' := by
  cases e' with
  | order env mid p r =>
    intro hbuy m' hm'
    obtain ⟨m, hm, heq⟩ := hdo.matches_market hB hc he hm'
    rw [heq]
    exact h hbuy m hm
  | _ => trivial

theorem Effect.denominated_of_not_matches (h : ¬ e.Matches) : e.Denominated decimals c := by
  cases e with
  | order => exact (h trivial).elim
  | _ => trivial

theorem Told.tracked (hB : BookLaws S) (hT : TokenLaws S) {effects : List (Effect B)}
    {outside : Statement} (h : Told S c effects es c') (hc : BooksOk S c)
    (hm : (∀ e ∈ effects, e.Matches) ∨ ∀ e ∈ effects, ¬ e.Matches)
    (hd : ∀ e ∈ effects, e.Denominated decimals c) (ht : Tracked S decimals c log outside) :
    Tracked S decimals c' (log ++ es) (outside ++ effects.flatMap Effect.outside) := by
  induction h generalizing log outside with
  | nil c =>
    rw [List.append_nil, List.flatMap_nil, List.append_nil]
    exact ht
  | @cons c c₁ c' e effects es es' head tells tail ih =>
    obtain ⟨he, hes⟩ := List.forall_mem_cons.1 hd
    have hnext := tells.tracked hB hT head hc he ht
    rw [← List.append_assoc, List.flatMap_cons, ← List.append_assoc]
    refine ih (head.booksOk hB hc) ?_ ?_ hnext
    · exact hm.imp (fun h => (List.forall_mem_cons.1 h).2) fun h => (List.forall_mem_cons.1 h).2
    · intro e' he'
      obtain hm | hnot := hm
      · exact (hes e' he').after hB head hc (hm e (List.mem_cons_self ..))
      · exact Effect.denominated_of_not_matches (hnot e' (List.mem_cons_of_mem _ he'))

/-- The bids of a call are placed in markets with the decimals of their base tokens. -/
def Op.Denominated (decimals : TokenType → ℕ) (c : Contract B) (op : Op) : Prop :=
  ∀ x ∈ op.orders, x.2.side = .buy → ∀ m, c.markets.lookup x.1 = some m →
    m.baseToken.decimals = decimals m.baseToken.tokenType

theorem Shape.denominated {effects : List (Effect B)} (h : Shape S c env op ps effects)
    (hd : op.Denominated decimals c) : ∀ e ∈ effects, e.Denominated decimals c := by
  intro e he
  cases e with
  | order => exact hd _ (h.mem_orders he)
  | _ => trivial

variable {s : System B}

/-- If the event is a call that returns, its bids are. -/
def Event.Denominated (S : Sdk B) (decimals : TokenType → ℕ) (s : System B) : Event → Prop
  | call env op => (perform S env s.contract op).isOk = true → op.Denominated decimals s.contract
  | resolve .. => True

/-- A resolution returns what it moves. -/
theorem Tracked.resolve (hB : BookLaws S) (hT : TokenLaws S) {outside : Statement} {i : ℕ}
    {out : Outcome} (hc : BooksOk S s.contract) (h : Tracked S decimals s.contract log outside) :
    Tracked S decimals (System.step S s (.resolve i out)).contract log
      (outside ++ s.outside S (.resolve i out)) := by
  have same : Tracked S decimals s.contract log (outside ++ []) := by
    rw [List.append_nil]
    exact h
  simp only [System.outside]
  rcases hp : s.pending[i]? with _ | p
  · simp only [System.step, hp]
    exact same
  cases p with
  | transfer id n =>
    simp only [System.step, hp]
    cases out with
    | _ => exact same
  | send id token n =>
    have failed : Tracked S decimals (System.callback { s with pending := s.pending.eraseIdx i }
        (exchangeCallbackPostWithdraw S s.contract token id n .failed)).contract log
        (outside ++ s.returned S (.send id token n) .failed) := by
      simp only [System.returned]
      rcases hx : exchangeCallbackPostWithdraw S s.contract token id n .failed with err | c'
      · exact same
      · have hdo := exchangeCallbackPostWithdraw_does hx
        have htells : Tells S s.contract (.credit (s.contract.refundee id) token n) [] c' :=
          .quiet trivial
        have hnext := htells.tracked hB hT hdo hc trivial h
        rw [List.append_nil] at hnext
        exact hnext
    simp only [System.step, hp]
    cases out with
    | successful => exact same
    | _ => exact failed
  | ftMetadata | mtMetadata =>
    have hcase := step_cases hB s (.resolve i out)
    generalize System.step S s (.resolve i out) = s' at hcase ⊢
    cases hcase with
    | unchanged => exact same
    | @resolved _ _ _ c' effects paid promise leads resolution =>
      cases promise.symm.trans hp
      have htold := leads.told resolution.quiet
      cases resolution with
      | metadata subtoken promise callback =>
        have hnone : (∀ e ∈ effects, ¬ e.Matches) ∧ effects.flatMap Effect.outside = [] := by
          cases callback with
          | nothing => exact ⟨List.forall_mem_nil _, rfl⟩
          | unchanged | ft | mt => exact ⟨List.forall_mem_singleton.2 id, rfl⟩
        have hnext := htold.tracked hB hT hc (.inr hnone.1)
          (fun e he => Effect.denominated_of_not_matches (hnone.1 e he)) h
        rw [List.append_nil, hnone.2] at hnext
        exact hnext

/-- What a call logs, and what it moves in and out, comes to the balances. -/
theorem Tracked.call (hB : BookLaws S) (hT : TokenLaws S) {outside : Statement}
    (hc : BooksOk S s.contract) (hd : Event.Denominated S decimals s (.call env op))
    (h : Tracked S decimals s.contract log outside) :
    Tracked S decimals (System.step S s (.call env op)).contract
      (System.note S log s (.call env op)) (outside ++ s.outside S (.call env op)) := by
  simp only [System.step, System.note, System.outside]
  rcases hx : perform S env s.contract op with err | ⟨ps, c'⟩
  · rw [events_of_error hx, List.append_nil, List.append_nil]
    exact h
  · obtain ⟨effects, htold, shape⟩ := events_of_ok hB hx
    show Tracked S decimals c' _ (outside ++ op.outside env ps)
    rw [← shape.outside_eq]
    refine htold.tracked hB hT hc shape.matches (shape.denominated (hd ?_)) h
    rw [hx]
    rfl

/-- The log after an event, and what went in and out. -/
def System.record (S : Sdk B) (x : Log × Statement) (s : System B) (ev : Event) :
    Log × Statement :=
  (System.note S x.1 s ev, x.2 ++ s.outside S ev)

/-- The states reached from a new contract, each with the log, and with what went in
    and out of the accounts. -/
abbrev System.Statements (S : Sdk B) (decimals : TokenType → ℕ) :
    System B × (Log × Statement) → Prop :=
  Runs.Recorded (fun s => ∃ ownerId, s = .init ownerId) (System.step S) (System.record S) ([], [])
    fun x ev => Event.Denominated S decimals x.1 ev

open Engine

/-- **The log tells the balances.**  In every run, in whatever order its calls and
    callbacks come, if bids are placed in markets with the decimals of their base
    tokens: what the log posts to an account, and what went in and out of it, comes
    to its balance, in every token. -/
theorem balances_told (hB : BookLaws S) (hT : TokenLaws S) {x : System B × (Log × Statement)}
    (hx : System.Statements S decimals x) (id : AccountId) (token : TokenType) :
    ((x.1.contract.accountOf id).getBalance S token : ℤ) =
      net (statement decimals x.2.1) (id, token) + net x.2.2 (id, token) := by
  have hall : Tracked S decimals x.1.contract x.2.1 x.2.2 := by
    refine hx.invariant (P := fun x => Tracked S decimals x.1.contract x.2.1 x.2.2) ?_
      fun x ev hr hd h => ?_
    · rintro ⟨s, log, outside⟩ ⟨⟨id, hs⟩, hlog⟩
      simp only [Prod.mk.injEq] at hs hlog
      obtain ⟨rfl, rfl⟩ := hlog
      subst hs
      refine ⟨fun mid m hm => ?_, rfl, fun id token => rfl⟩
      cases hm
    · have hc := booksOk_of_reach hB hr.unrecorded
      cases ev with
      | call env op => exact h.call hB hT hc hd
      | resolve i out => exact h.resolve hB hT hc
  exact hall.balances id token

/-- The state after some events, with the log and what went in and out. -/
def stated (es : List Event) : System Book × (Log × Statement) :=
  es.foldl (fun x e => (System.step sdk x.1 e, System.record sdk x.2 x.1 e)) (.init dao, ([], []))

/-- Bob has bought of Alice.  She cancels the rest of her order, and withdraws; the
    transfer fails. -/
def returnedTo : List Event := [.call (calling alice 0) (.cancelOrder btcUsd 1),
  .call (calling alice 1) (.withdrawFt usd 185), .resolve 0 .failed]

-- of 1180 for 590 btc, a rebate of 5, and 185 that went out and came back
example : net (statement (fun _ => 1) (stated (bought ++ returnedTo)).2.1)
      (alice, .fungibleToken usd) = 1185 ∧
    net (stated (bought ++ returnedTo)).2.2 (alice, .fungibleToken usd) = 0 := by
  decide +kernel

def Event.bidless : Event → Bool
  | call _ op => op.orders.all fun x => x.2.side = .sell
  | resolve .. => true

theorem Event.denominated_of_bidless {ev : Event} (h : ev.bidless = true) (s : System B) :
    ev.Denominated S decimals s := by
  cases ev with
  | resolve i out => trivial
  | call env op =>
    intro _ x hx hbuy
    have hsell : x.2.side = .sell := of_decide_eq_true (List.all_eq_true.1 h x hx)
    cases hbuy.symm.trans hsell

theorem statements_returned :
    System.Statements sdk (fun _ => 1) (stated (bought ++ returnedTo)) := by
  have hasked : System.Statements sdk (fun _ => 1) (stated asked) := by
    refine Runs.Reach.foldl (.init ⟨⟨dao, rfl⟩, rfl⟩) fun e he x => ?_
    have hall : asked.all Event.bidless = true := by decide
    exact Event.denominated_of_bidless (List.all_eq_true.1 hall e he) x.1
  have hbought : System.Statements sdk (fun _ => 1) (stated bought) := by
    rw [bought, stated, List.foldl_append]
    refine .step hasked fun _ => ?_
    refine List.forall_mem_singleton.2 fun _ m hm => ?_
    have hone : ((stated asked).1.contract.markets.lookup btcUsd).map
        (fun m => m.baseToken.decimals) = some 1 := by decide +kernel
    exact Option.some_inj.1 ((congrArg _ hm).symm.trans hone)
  rw [stated, List.foldl_append]
  refine Runs.Reach.foldl hbought fun e he x => ?_
  have hall : returnedTo.all Event.bidless = true := by decide
  exact Event.denominated_of_bidless (List.all_eq_true.1 hall e he) x.1

/-- Alice's balances, when some of her order is filled and the rest cancelled. -/
theorem balances_told_returned :
    (((stated (bought ++ returnedTo)).1.contract.accountOf alice).getBalance sdk
        (.fungibleToken usd) : ℤ) =
      net (statement (fun _ => 1) (stated (bought ++ returnedTo)).2.1)
          (alice, .fungibleToken usd) +
        net (stated (bought ++ returnedTo)).2.2 (alice, .fungibleToken usd) :=
  balances_told bookLaws tokenLaws statements_returned alice (.fungibleToken usd)

end TonicDex
