/-
  What calls keep.

  `Op.keeps` lists what a call leaves with the contract that is nobody's: input
  that its swaps leave over, what a market is listed for, and what a deleted market
  held.  If its prices and lots are whole amounts and no taker refers itself
  (`Op.Lossless`), that is all: what a call is paid is owed to somebody, promised
  or kept (`perform_conserves`).
-/
import TonicDex.Invariant.Custody
import TonicDex.Invariant.ExactTrades
import TonicDex.Invariant.Recovery

namespace TonicDex

variable {B : Type} {S : Sdk B} {c c' : Contract B} {e : Effect B} {es : List (Effect B)}
  {env : Env} {op : Op} {ps : List Promise} {mid : MarketId} {m : Market B}

/-! ## What is kept -/

/-- What the hops of a chain leave over of their inputs. -/
def leftOver (S : Sdk B) (env : Env) : Contract B → List SwapAction → TokenType × ℕ →
    List (TokenType × ℕ)
  | _, [], _ => []
  | c, swap :: swaps, x =>
    match executeSwapAction S env c swap x.1 x.2 with
    | .ok (out, c) =>
      (x.1, out.inputRefund) :: leftOver S env c swaps (out.outputToken, out.outputAmount)
    | .error _ => []

/-- What the swaps of a call leave over. -/
def Op.leftOver (S : Sdk B) (env : Env) (c : Contract B) : Op → List (TokenType × ℕ)
  | swapNear swaps => TonicDex.leftOver S env c swaps (.nativeNear, env.attachedDeposit)
  | ftOnTransfer _ n (.swap swaps) =>
    TonicDex.leftOver S env c swaps (.fungibleToken env.predecessorAccountId, n)
  | _ => []

/-- What a market holds, in its tokens. -/
def Market.holdings (S : Sdk B) (m : Market B) : List (TokenType × ℕ) :=
  [(m.baseToken.tokenType, m.lockedOn S .sell),
    (m.quoteToken.tokenType, m.lockedOn S .buy + m.feesAccrued)]

/-- What a call that led from `c` to `c'` keeps. -/
def Op.keeps (S : Sdk B) (env : Env) (c : Contract B) (ps : List Promise) (c' : Contract B) :
    Op → List (TokenType × ℕ)
  -- what is not refunded pays for the storage of the market
  | createMarket _ => [(.nativeNear, env.attachedDeposit - promised ps .nativeNear)]
  | adminDeleteMarket mid =>
    if (c'.markets.lookup mid).isSome then []
    else (c.markets.lookup mid).elim [] (Market.holdings S)
  | op => op.leftOver S env c

/-- Amounts of tokens, as an amount of `token`. -/
def sumOf (xs : List (TokenType × ℕ)) (token : TokenType) : ℕ :=
  (xs.map fun x => amountOf x token).sum

@[simp] theorem sumOf_nil (token : TokenType) : sumOf [] token = 0 := rfl

@[simp] theorem sumOf_cons (x : TokenType × ℕ) (xs : List (TokenType × ℕ)) (token : TokenType) :
    sumOf (x :: xs) token = amountOf x token + sumOf xs token := rfl

/-! ## Effects -/

/-- What an effect leaves over. -/
def Effect.leaves : Effect B → TokenType × ℕ
  | hop _ _ token _ out _ => (token, out.inputRefund)
  | _ => (.nativeNear, 0)

/-- What a list of effects leaves over. -/
def leftBy (es : List (Effect B)) (token : TokenType) : ℕ :=
  (es.map fun e => amountOf e.leaves token).sum

/-- The effect deletes no market, and loses nothing but what it leaves over. -/
def Effect.Lossless (c : Contract B) : Effect B → Prop
  | order env mid p _ =>
    ∀ m, c.markets.lookup mid = some m → p.Exact m env.predecessorAccountId
  | hop _ swap _ _ _ _ => ∀ m, c.markets.lookup swap.marketId = some m → m.Divides
  | delete _ => False
  | _ => True

theorem Account.getBalance_of_isEmpty {a : Account} (h : a.isEmpty = true) (token : TokenType) :
    a.getBalance S token = 0 := by
  simp only [isEmpty, Bool.and_eq_true, List.isEmpty_iff, HMap.keys_eq_nil_iff] at h
  exact balance_of_lookup_none (h.1 _)

/-- **Such an effect takes out what it brings in**, but for what it leaves over. -/
theorem Does.flow_eq (hB : BookLaws S) (hT : TokenLaws S) (h : Does S c e c') (hc : BooksOk S c)
    (hok : ¬ e.Rescales S c) (hl : e.Lossless c) (token : TokenType) :
    c'.owed S token + amountOf e.outflow token + amountOf e.leaves token =
      c.owed S token + amountOf e.inflow token := by
  cases h with
  | @credit id a t n found covered =>
    have hput := owed_putAccount (S := S) (.inl found) (a.credit (S.key t) n) token
    rw [Account.owed_credit hT] at hput
    simp only [Effect.inflow, Effect.outflow, Effect.leaves, amountOf_zero]
    omega
  | @debit id a a' t n found paid covered =>
    have hput := owed_putAccount (S := S) (.inl found) a' token
    have hpaid := Account.owed_withdraw hT paid token
    simp only [Effect.inflow, Effect.outflow, Effect.leaves, amountOf_zero]
    omega
  | @storage id a inn out total found sum covered =>
    have hput := owed_putAccount (S := S) found { a with storageBalance := total } token
    have hsame : { a with storageBalance := total }.getBalance S token = a.getBalance S token := rfl
    simp only [Account.owed, hsame] at hput
    simp only [Effect.inflow, Effect.outflow, Effect.leaves, amountOf_zero]
    simp only [amountOf] at hput ⊢
    split_ifs at hput ⊢ <;> omega
  | @unregister id a found empty =>
    have herase := owed_eraseAccount (S := S) found token
    have hbal := Account.getBalance_of_isEmpty (S := S) empty token
    simp only [Effect.inflow, Effect.outflow, Effect.leaves, amountOf_zero]
    unfold Account.owed at herase
    omega
  | @order env mid p r c' run =>
    have hm := hc _ _ run.found
    have hsame := run.attributed_exact hB hT hm (hl _ run.found) token
    simp only [Contract.owed, Effect.inflow, Effect.outflow, Effect.leaves, amountOf_zero,
      run.storageTotal_eq hB hm, hsame]
  | @hop env swap t amount out c' run =>
    have hst : c'.storageTotal = c.storageTotal := by
      rw [congrArg Contract.storageTotal run.state]
      exact run.traded.storageTotal_eq
    have hflow := run.attributed_exact hB hT (hc _ _ run.found) (hl _ run.found) token
    simp only [Contract.owed, Effect.inflow, Effect.outflow, Effect.leaves, hst]
    omega
  | cancel run =>
    simp only [Contract.owed, Effect.inflow, Effect.outflow, Effect.leaves, amountOf_zero,
      run.storageTotal_eq, run.attributed_eq hB hT (hc _ _ run.found)]
  | @create mid m new fresh =>
    have hatt := HMap.total_insert_add c.markets (fun _ m => m.attributed S token) mid m
    have hnil := fresh.orders hB
    have hzero : m.attributed S token = 0 := by
      simp only [Market.attributed, Market.locked, lockedOn_of_orders_nil hnil, fresh.fees]
      split_ifs <;> rfl
    rw [new, hzero] at hatt
    simp only [Contract.owed, Effect.inflow, Effect.outflow, Effect.leaves, amountOf_zero,
      Contract.attributed, Contract.balances, Contract.storageTotal, Contract.internalSaveMarket,
      Option.elim_none] at hatt ⊢
    omega
  | delete => exact hl.elim
  | @setState mid m state found =>
    have hsame : (m.setState state).attributed S token = m.attributed S token := rfl
    simp only [Contract.owed, attributed_saveMarket_eq found hsame, Effect.inflow, Effect.outflow,
      Effect.leaves, amountOf_zero]
    rfl
  | @setWindow mid m bid ask found =>
    have hsame : { m with minimumBidBps := bid, maximumAskBps := ask }.attributed S token =
        m.attributed S token := rfl
    simp only [Contract.owed, attributed_saveMarket_eq found hsame, Effect.inflow, Effect.outflow,
      Effect.leaves, amountOf_zero]
    rfl
  | @decimals mid m side d state found =>
    have hsame := attributed_setDecimals found hok token
    simp only [Contract.owed, attributed_saveMarket_eq found hsame, Effect.inflow, Effect.outflow,
      Effect.leaves, amountOf_zero]
    rfl
  | admin owner state =>
    simp only [Effect.inflow, Effect.outflow, Effect.leaves, amountOf_zero]
    rfl

/-! ## The effects of a call -/

/-- The effect is an order, a hop or a cancellation. -/
def Effect.Matches : Effect B → Prop
  | order .. | hop .. | cancel .. => True
  | _ => False

/-- Such effects leave everything of a market but its book and its fees. -/
theorem Does.matches_market (hB : BookLaws S) (h : Does S c e c') (hc : BooksOk S c)
    (he : e.Matches) {m' : Market B} (hm' : c'.markets.lookup mid = some m') :
    ∃ m, c.markets.lookup mid = some m ∧
      m' = { m with orderbook := m'.orderbook, feesAccrued := m'.feesAccrued } := by
  obtain ⟨rfl, -⟩ | ⟨m, hm, hmove⟩ := h.market_origin hB hc hm'
  · exact he.elim
  · refine ⟨m, hm, ?_⟩
    cases hmove with
    | kept | matched | cancelled => rfl
    | state | window | decimals => exact he.elim

theorem Effect.Lossless.after (hB : BookLaws S) {e' : Effect B} (h : e'.Lossless c)
    (hdo : Does S c e c') (hc : BooksOk S c) (he : e.Matches) : e'.Lossless c' := by
  cases e' with
  | order env mid p r =>
    intro m' hm'
    obtain ⟨m, hm, heq⟩ := hdo.matches_market hB hc he hm'
    have hx := h m hm
    rw [heq]
    exact ⟨hx.divides, hx.price, hx.referrer⟩
  | hop env swap token amount out fills =>
    intro m' hm'
    obtain ⟨m, hm, heq⟩ := hdo.matches_market hB hc he hm'
    rw [heq]
    exact h m hm
  | _ => exact h

/-- What is lossless at the beginning of a call stays so. -/
theorem Effects.lossless (hB : BookLaws S) (h : Effects S c es c') (hc : BooksOk S c)
    (hm : ∀ e ∈ es, e.Matches) (hl : ∀ e ∈ es, e.Lossless c) :
    EachEffect S (fun c e _ => e.Lossless c) c es c' := by
  induction h with
  | nil c => exact .nil c
  | @cons c c₁ c' e es head tail ih =>
    obtain ⟨he, hes⟩ := List.forall_mem_cons.1 hm
    obtain ⟨hle, hles⟩ := List.forall_mem_cons.1 hl
    exact .cons head hle (ih (head.booksOk hB hc) hes fun e' he' =>
      (hles e' he').after hB head hc he)

theorem EachEffect.flow_eq (hB : BookLaws S) (hT : TokenLaws S) (token : TokenType)
    (h : EachEffect S (fun c e _ => e.Lossless c) c es c') (hc : BooksOk S c)
    (hok : ∀ e ∈ es, ∀ c : Contract B, ¬ e.Rescales S c) :
    c'.owed S token + outflows es token + leftBy es token = c.owed S token + inflows es token := by
  induction h with
  | nil c => rfl
  | cons head holds tail ih =>
    obtain ⟨he, hes⟩ := List.forall_mem_cons.1 hok
    have h1 := head.flow_eq hB hT hc (he _) holds token
    have h2 := ih (head.booksOk hB hc) hes
    simp only [outflows, inflows, leftBy, List.map_cons, List.sum_cons] at h2 ⊢
    omega

/-! ## Calls -/

/-- The hops a call asks for. -/
def Op.swaps : Op → List SwapAction
  | swapNear swaps | ftOnTransfer _ _ (.swap swaps) => swaps
  | _ => []

/-- The orders and hops of a call lose nothing but what the hops leave over. -/
structure Op.Lossless (c : Contract B) (env : Env) (op : Op) : Prop where
  orders : ∀ x ∈ op.orders, ∀ m, c.markets.lookup x.1 = some m →
    x.2.Exact m env.predecessorAccountId
  swaps : ∀ swap ∈ op.swaps, ∀ m, c.markets.lookup swap.marketId = some m → m.Divides

theorem Hops.mem {swaps : List SwapAction} {x y : TokenType × ℕ} (h : Hops env swaps x es y) :
    ∀ e ∈ es, ∃ swap ∈ swaps, ∃ token amount out fills,
      e = .hop env swap token amount out fills := by
  induction h with
  | nil x => exact List.forall_mem_nil _
  | @cons swap swaps token amount out fills es x rest ih =>
    refine List.forall_mem_cons.2 ⟨⟨swap, List.mem_cons_self .., _, _, _, _, rfl⟩, ?_⟩
    intro e he
    obtain ⟨swap', hmem, hop⟩ := ih e he
    exact ⟨swap', List.mem_cons_of_mem _ hmem, hop⟩

/-- The hops of a call are those it asks for. -/
theorem Shape.mem_swaps (h : Shape S c env op ps es) {env' : Env} {swap : SwapAction}
    {token : TokenType} {amount : ℕ} {out : SwapResult} {fills : List Match}
    (he : .hop env' swap token amount out fills ∈ es) : swap ∈ op.swaps := by
  cases h with
  | swap method hops =>
    obtain ⟨swap', hmem, _, _, _, _, heq⟩ := hops.mem _ he
    cases heq
    obtain ⟨rfl, -⟩ | ⟨rfl, -⟩ := method
    · exact hmem
    · exact hmem
  | execute trades => cases trades _ he
  | storageDeposit sum effects =>
    obtain ⟨rfl, -⟩ | rfl := effects
    · cases he
    · cases List.mem_singleton.1 he
  | adminCancel method cancels =>
    obtain ⟨_, _, heq, -⟩ := cancels _ he
    cases heq
  | mtDeposit =>
    obtain ⟨_, -, heq⟩ := List.mem_map.1 he
    cases heq
  | storageKept | notDeleted => cases he
  | _ => cases List.mem_singleton.1 he

theorem Shape.lossless_each (h : Shape S c env op ps es) (hl : op.Lossless c env)
    (hdel : ∀ mid, op ≠ .adminDeleteMarket mid) : ∀ e ∈ es, e.Lossless c := by
  intro e he
  cases e with
  | order env' mid p r =>
    intro m hm
    have henv : env.predecessorAccountId = env'.predecessorAccountId := by
      obtain heq | ⟨-, hnot⟩ := h.about _ he _ rfl
      · exact heq
      · exact absurd rfl hnot
    rw [← henv]
    exact hl.orders _ (h.mem_orders he) m hm
  | hop env' swap token amount out fills => exact hl.swaps swap (h.mem_swaps he)
  | delete mid => exact absurd (h.causedBy _ he) (hdel mid)
  | _ => trivial

theorem Effect.lossless_of_not_matches (h : ¬ e.Matches) (hdel : ∀ mid, e ≠ .delete mid) :
    e.Lossless c := by
  cases e with
  | order | hop => exact (h trivial).elim
  | delete mid => exact (hdel mid rfl).elim
  | _ => trivial

/-- The effects of a call are orders, hops and cancellations, or none of them is one. -/
theorem Shape.matches (h : Shape S c env op ps es) :
    (∀ e ∈ es, e.Matches) ∨ ∀ e ∈ es, ¬ e.Matches := by
  have other : ∀ e : Effect B, ¬ e.Matches →
      (∀ e' ∈ [e], e'.Matches) ∨ ∀ e' ∈ [e], ¬ e'.Matches := by
    intro e he
    exact .inr (List.forall_mem_singleton.2 he)
  cases h with
  | newOrder | cancelOrder | cancelAllOrders =>
    exact .inl (List.forall_mem_singleton.2 trivial)
  | execute trades =>
    left
    intro e he
    cases trades e he with
    | _ => trivial
  | swap method hops =>
    left
    intro e he
    obtain ⟨_, -, _, _, _, _, rfl⟩ := hops.mem e he
    trivial
  | adminCancel method cancels =>
    left
    intro e he
    obtain ⟨_, _, rfl, -⟩ := cancels e he
    trivial
  | storageDeposit sum effects =>
    obtain ⟨rfl, -⟩ | rfl := effects
    · exact .inl (List.forall_mem_nil _)
    · exact other _ id
  | mtDeposit => exact .inr (List.forall_mem_map.2 fun _ _ => id)
  | storageKept | notDeleted => exact .inl (List.forall_mem_nil _)
  | _ => exact other _ id

theorem Shape.lossless (hB : BookLaws S) (h : Shape S c env op ps es) (hes : Effects S c es c')
    (hc : BooksOk S c) (hl : op.Lossless c env) (hdel : ∀ mid, op ≠ .adminDeleteMarket mid) :
    EachEffect S (fun c e _ => e.Lossless c) c es c' := by
  obtain hm | hnot := h.matches
  · exact hes.lossless hB hc hm (h.lossless_each hl hdel)
  · refine hes.each hB hc fun e he c _ _ _ => Effect.lossless_of_not_matches (hnot e he) ?_
    rintro mid rfl
    exact hdel mid (h.causedBy _ he)

/-- What the effects of a call leave over is what its swaps do. -/
theorem executeHops_left : ∀ {swaps : List SwapAction} {c : Contract B} {token : TokenType}
    {amount : ℕ} {y : TokenType × ℕ}, executeHops S env c swaps token amount = .ok (y, c') →
    ∃ es, Effects S c es c' ∧ Hops env swaps (token, amount) es y ∧
      ∀ t, leftBy es t = sumOf (leftOver S env c swaps (token, amount)) t
  | [], c, token, amount, y, h => by
    simp only [executeHops, Checked.pure_eq_ok, Prod.mk.injEq] at h
    obtain ⟨rfl, rfl⟩ := h
    exact ⟨[], .nil _, .nil _, fun _ => rfl⟩
  | swap :: swaps, c, token, amount, y, h => by
    simp only [executeHops, Checked.bind_eq_ok] at h
    obtain ⟨⟨out, c₁⟩, h1, h2⟩ := h
    obtain ⟨fills, hdo⟩ := executeSwapAction_does h1
    obtain ⟨es, hes, hops, hleft⟩ := executeHops_left h2
    refine ⟨_ :: es, .cons hdo hes, .cons hops, ?_⟩
    intro t
    simp only [leftOver, h1, sumOf_cons, ← hleft t]
    rfl

theorem executeSwaps_left {swaps : List SwapAction} {token : TokenType} {amount unused : ℕ}
    {id : AccountId} (h : executeSwaps S env c swaps token amount id = .ok (unused, ps, c')) :
    ∃ es y, Effects S c es c' ∧ Hops env swaps (token, amount) es y ∧
      ps = (if 0 < y.2 then [.send id y.1 y.2] else []) ∧
      ∀ t, leftBy es t = sumOf (leftOver S env c swaps (token, amount)) t := by
  simp only [executeSwaps, Checked.bind_eq_ok, Checked.pure_eq_ok, Prod.mk.injEq] at h
  obtain ⟨_, -, _, -, ⟨y, c₁⟩, hx, -, rfl, rfl⟩ := h
  obtain ⟨es, hes, hops, hleft⟩ := executeHops_left hx
  exact ⟨es, y, hes, hops, rfl, hleft⟩

/-- A call without hops leaves nothing over. -/
theorem Shape.leftBy_eq_zero (h : Shape S c env op ps es) (hno : op.swaps = []) (t : TokenType) :
    leftBy es t = 0 := by
  refine List.sum_eq_zero ?_
  intro n hn
  obtain ⟨e, he, rfl⟩ := List.mem_map.1 hn
  cases e with
  | hop env' swap token amount out fills =>
    have hmem := h.mem_swaps he
    rw [hno] at hmem
    cases hmem
  | _ => exact amountOf_zero _ _

theorem perform_left (hB : BookLaws S)
    (h : perform S env c op = .ok (ps, c')) : ∃ es, Effects S c es c' ∧ Shape S c env op ps es ∧
      ∀ t, leftBy es t = sumOf (op.leftOver S env c) t := by
  have other : op.swaps = [] → op.leftOver S env c = [] → ∃ es, Effects S c es c' ∧
      Shape S c env op ps es ∧ ∀ t, leftBy es t = sumOf (op.leftOver S env c) t := by
    intro hno hnil
    obtain ⟨es, hes, shape⟩ := perform_effects hB h
    refine ⟨es, hes, shape, ?_⟩
    intro t
    rw [hnil, shape.leftBy_eq_zero hno]
    rfl
  have hd := dispatch_of_perform h
  cases op with
  | swapNear swaps =>
    simp only [dispatch, swapNear, Checked.map_eq_ok, Checked.bind_eq_ok] at hd
    obtain ⟨⟨unused, ps', c₁⟩, ⟨_, -, hd⟩, heq⟩ := hd
    obtain ⟨rfl, rfl⟩ := Prod.mk.injEq .. ▸ heq
    obtain ⟨es, y, hes, hops, rfl, hleft⟩ := executeSwaps_left hd
    exact ⟨es, hes, .swap (.inl ⟨rfl, rfl, rfl⟩) hops, hleft⟩
  | ftOnTransfer id n msg =>
    cases msg with
    | swap swaps =>
      simp only [dispatch, ftOnTransfer, Checked.map_eq_ok, Checked.bind_eq_ok] at hd
      obtain ⟨⟨unused, ps', c₁⟩, ⟨_, -, hd⟩, heq⟩ := hd
      obtain ⟨rfl, rfl⟩ := Prod.mk.injEq .. ▸ heq
      obtain ⟨es, y, hes, hops, rfl, hleft⟩ := executeSwaps_left hd
      exact ⟨es, hes, .swap (.inr ⟨rfl, rfl⟩) hops, hleft⟩
    | _ => exact other rfl rfl
  | _ => exact other rfl rfl

theorem outflows_eq_zero (h : ∀ e ∈ es, e.outflow.2 = 0) (token : TokenType) :
    outflows es token = 0 := by
  refine List.sum_eq_zero ?_
  intro n hn
  obtain ⟨e, he, rfl⟩ := List.mem_map.1 hn
  have hz := h e he
  rw [amountOf, hz, ite_self]

/-- **What a call is paid is what its effects bring in, and what they take out it
    promises**; but listing a market may cost something. -/
theorem Shape.covered_eq (h : Shape S c env op ps es) (hlist : ∀ args, op ≠ .createMarket args)
    (token : TokenType) :
    inflows es token + promised ps token = outflows es token + paidTotal env op token := by
  have single : ∀ e : Effect B, inflows [e] token = amountOf e.inflow token ∧
      outflows [e] token = amountOf e.outflow token := by
    intro e
    exact ⟨Nat.add_zero _, Nat.add_zero _⟩
  cases h with
  | depositNear | ftDeposit =>
    simp only [single, Effect.inflow, Effect.outflow, amountOf_zero, Nat.zero_add]
    rfl
  | @withdraw op t n pos method =>
    have hpaid : paidTotal env op token = 0 := by
      obtain rfl | ⟨_, rfl⟩ | ⟨_, _, rfl⟩ := method
      · rfl
      · rfl
      · rfl
    simp only [single, Effect.inflow, Effect.outflow, amountOf_zero, Nat.zero_add, hpaid]
    rfl
  | mtDeposit =>
    rw [outflows_eq_zero (List.forall_mem_map.2 fun _ _ => rfl)]
    simp only [inflows, paidTotal, paidIn, promised, List.map_map, List.map_nil, List.sum_nil]
    exact Nat.add_comm _ _
  | @swap op id x y swaps es method hops =>
    have hflow := hops.flow token
    have hpaid : paidTotal env op token = amountOf x token := by
      obtain ⟨t, n⟩ := x
      obtain ⟨rfl, -, hx⟩ | ⟨rfl, hx⟩ := method
      · rw [hx]; exact Nat.add_zero _
      · simp only at hx
        rw [hx]; exact Nat.add_zero _
    have hsend : promised (if 0 < y.2 then [.send id y.1 y.2] else []) token =
        amountOf y token := by
      split_ifs with hy
      · exact Nat.add_zero _
      · obtain ⟨t, n⟩ := y
        obtain rfl : n = 0 := by simpa using hy
        exact (amountOf_zero _ _).symm
    omega
  | @storageDeposit id only inn refund es sum effects =>
    rw [promised_transfers]
    have hpaid : paidTotal env (.storageDeposit id only) token =
        amountOf (.nativeNear, env.attachedDeposit) token := Nat.add_zero _
    have hflows : inflows es token = amountOf (.nativeNear, inn) token ∧ outflows es token = 0 := by
      obtain ⟨rfl, rfl⟩ | rfl := effects
      · exact ⟨(amountOf_zero _ _).symm, rfl⟩
      · simp only [single, Effect.inflow, Effect.outflow, amountOf_zero, and_self]
    rw [hpaid, hflows.1, hflows.2]
    simp only [amountOf]
    split_ifs <;> omega
  | storageKept => rfl
  | storageWithdraw | storageUnregister =>
    simp only [single, Effect.inflow, Effect.outflow, amountOf_zero, Nat.zero_add]
    rfl
  | createMarket => exact absurd rfl (hlist _)
  | newOrder | cancelOrder | cancelAllOrders | setMarketState | notDeleted | deleted =>
    simp [inflows, outflows, promised, Effect.inflow, Effect.outflow, paidTotal, paidIn]
  | execute trades =>
    obtain ⟨hin, hout⟩ := flows_of_forall (fun e he => by
      obtain _ | _ := trades e he <;> exact ⟨rfl, rfl⟩) token
    rw [hin, hout]
    rfl
  | @admin op method =>
    have hpaid : paidTotal env op token = 0 := by
      obtain ⟨_, rfl⟩ | ⟨_, rfl⟩ := method
      · rfl
      · rfl
    simp only [single, Effect.inflow, Effect.outflow, amountOf_zero, Nat.zero_add, hpaid]
    rfl
  | @setWindow op mid method =>
    have hpaid : paidTotal env op token = 0 := by
      obtain ⟨_, rfl⟩ | ⟨_, rfl⟩ := method
      · rfl
      · rfl
    simp only [single, Effect.inflow, Effect.outflow, amountOf_zero, Nat.zero_add, hpaid]
    rfl
  | @adminCancel op mid es method cancels =>
    have hpaid : paidTotal env op token = 0 := by
      obtain ⟨_, rfl⟩ | ⟨_, rfl⟩ | ⟨_, rfl⟩ := method
      · rfl
      · rfl
      · rfl
    obtain ⟨hin, hout⟩ := flows_of_forall (fun e he => by
      obtain ⟨owner, ids, rfl, -⟩ := cancels e he
      exact ⟨rfl, rfl⟩) token
    rw [hin, hout, hpaid]
    rfl

theorem Market.sumOf_holdings (m : Market B) (token : TokenType) :
    sumOf (m.holdings S) token = m.attributed S token := by
  simp only [holdings, sumOf_cons, sumOf_nil, amountOf, attributed, locked]
  split_ifs <;> omega

/-- A market that is deleted takes away what it holds. -/
theorem owed_deleteMarket {ids : List MarketId} (h : c.markets.lookup mid = some m)
    (token : TokenType) :
    { c with marketIterMap := ids, markets := c.markets.erase mid }.owed S token +
      sumOf (m.holdings S) token = c.owed S token := by
  have hatt := HMap.total_erase_add c.markets (fun _ m => m.attributed S token) mid
  rw [h, Option.elim_some] at hatt
  rw [m.sumOf_holdings]
  simp only [Contract.owed, Contract.attributed, Contract.balances, Contract.storageTotal]
    at hatt ⊢
  omega

/-- What is promised when a market is listed is the refund. -/
theorem promised_listing (mid : MarketId) (m : Market B) (id : AccountId) (refund : ℕ)
    (token : TokenType) : promised (metadataPromises mid m ++ transfers id refund) token =
      amountOf (.nativeNear, refund) token := by
  rw [← promised_transfers id refund token, promised, List.map_append, List.sum_append]
  exact (congrArg (· + _) (promised_metadata mid m token)).trans (Nat.zero_add _)

/-- **What a call is paid is owed, promised or kept.** -/
theorem perform_conserves (hB : BookLaws S) (hT : TokenLaws S) (hc : BooksOk S c)
    (h : perform S env c op = .ok (ps, c')) (hl : op.Lossless c env) (token : TokenType) :
    c'.owed S token + promised ps token + sumOf (op.keeps S env c ps c') token =
      c.owed S token + paidTotal env op token := by
  have other : (∀ args, op ≠ .createMarket args) → (∀ mid, op ≠ .adminDeleteMarket mid) →
      c'.owed S token + promised ps token + sumOf (op.leftOver S env c) token =
        c.owed S token + paidTotal env op token := by
    intro hlist hdel
    obtain ⟨es, hes, shape, hleft⟩ := perform_left hB h
    have hflow := (shape.lossless hB hes hc hl hdel).flow_eq hB hT token hc shape.not_rescales
    have hcov := shape.covered_eq hlist token
    rw [hleft] at hflow
    omega
  have hd := dispatch_of_perform h
  cases op with
  | createMarket args =>
    simp only [dispatch, Checked.map_eq_ok] at hd
    obtain ⟨⟨mid, ps', c₁⟩, hd, heq⟩ := hd
    obtain ⟨rfl, rfl⟩ := Prod.mk.injEq .. ▸ heq
    obtain ⟨m, refund, hle, hdo, rfl⟩ := createMarket_ok hd
    have hflow := hdo.flow_eq hB hT hc (fun hres => hres) trivial token
    have hpaid : paidTotal env (.createMarket args) token =
        amountOf (.nativeNear, env.attachedDeposit) token := Nat.add_zero _
    simp only [Effect.inflow, Effect.outflow, Effect.leaves, amountOf_zero, Nat.add_zero] at hflow
    simp only [Op.keeps, sumOf_cons, sumOf_nil, promised_listing, hflow, hpaid, amountOf, if_true]
    split_ifs <;> omega
  | adminDeleteMarket mid =>
    obtain ⟨hx, rfl⟩ := quiet_eq_ok.1 hd
    have hpaid : paidTotal env (.adminDeleteMarket mid) token = 0 := rfl
    have hps : promised [] token = 0 := rfl
    rw [hpaid, hps]
    obtain rfl | hdo := adminDeleteMarket_ok hx
    · simp only [Op.keeps]
      split_ifs with hsome
      · rfl
      · rw [Option.not_isSome_iff_eq_none.1 hsome]
        rfl
    · cases hdo with
      | delete found can =>
        have hgone : (c.markets.erase mid).lookup mid = none := AList.lookup_erase _ _
        simp only [Op.keeps, hgone, found]
        exact owed_deleteMarket found token
  | _ =>
    refine other ?_ ?_
    · intro args heq
      cases heq
    · intro mid heq
      cases heq

end TonicDex
