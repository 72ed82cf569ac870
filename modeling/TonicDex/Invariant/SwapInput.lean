/-
  What becomes of the input of a swap.

  Each hop of a chain uses some of its input, by its fills and the fee on them,
  and computes what is left of it; but `execute_swaps` drops that, answers that
  nothing was unused, and sends only the output of the last hop.  So every unit
  of the input and of what one hop hands to the next is accounted for just in
  case each hop meets a book that takes all it is given (`Market.TakesAll`).
-/
import Mathlib.Algebra.Order.BigOperators.Group.List
import Mathlib.Algebra.Order.Group.Nat
import TonicDex.Engine.Library
import TonicDex.Invariant.Ledger
import TonicDex.Spec.Sizing

namespace TonicDex

variable {B : Type} {S : Sdk B} {M : Matching B} {c c' : Contract B} {m : Market B} {env : Env}
  {n : NewOrder} {taker : AccountId} {seq : ℕ} {side : Side} {token : TokenType} {amount : ℕ}
  {swap : SwapAction} {swaps : List SwapAction} {x y : TokenType × ℕ}

/-! ## What a book takes -/

/-- The open lots that others than `taker` have on a side of a book. -/
def Sdk.othersLots (S : Sdk B) (b : B) (side : Side) (taker : AccountId) : ℕ :=
  (((S.resting b side).filter (·.ownerId ≠ taker)).map OpenLimitOrder.openQtyLots).sum

/-- The book of `m` takes all of an `amount` that `taker` swaps.  What is sold is a
    number of lots, and no more than others bid for.  What is spent on a purchase
    is, without its fee, a number of lots, and all of it goes to the asks that
    matching takes with it. -/
def Market.TakesAll (S : Sdk B) (M : Matching B) (m : Market B) (taker : AccountId) (seq : ℕ)
    (side : Side) (amount : ℕ) : Prop :=
  match side with
  | .sell => m.baseToken.lotSize ∣ amount ∧ amount / m.baseToken.lotSize < 2 ^ 64 ∧
      amount / m.baseToken.lotSize ≤ S.othersLots m.orderbook .buy taker
  | .buy =>
    let budget := amount - m.takerFeeOf amount
    budget + m.takerFeeOf budget = amount ∧ m.quoteToken.lotSize ∣ budget ∧
      budget / m.quoteToken.lotSize < 2 ^ 64 ∧
      ((M.fills taker (m.swapOrder seq .buy amount) m.orderbook).map Match.nativeQuotePaid).sum =
        budget

instance {S : Sdk B} {M : Matching B} {m : Market B} {taker : AccountId} {seq : ℕ} {side : Side}
    {amount : ℕ} : Decidable (m.TakesAll S M taker seq side amount) :=
  match side with
  | .buy => inferInstanceAs (Decidable (_ ∧ _))
  | .sell => inferInstanceAs (Decidable (_ ∧ _))

/-- Without a limit and a budget an order takes what it wants of what others offer. -/
theorem Matching.sum_sweep (hlimit : n.limitPriceLots = none)
    (hbudget : n.availableQuoteLots = none) : ∀ (os : List OpenLimitOrder) (fs : List Match),
      ((M.sweep taker n fs os).map Match.fillQtyLots).sum =
        min (n.maxQtyLots - (fs.map Match.fillQtyLots).sum)
          ((os.filter (·.ownerId ≠ taker)).map OpenLimitOrder.openQtyLots).sum
  | [], _ => (Nat.min_zero _).symm
  | o :: os, fs => by
    have hcross : n.crosses o = true := by rw [NewOrder.crosses, hlimit]
    have hqty : M.fillQty n fs o =
        min (n.maxQtyLots - (fs.map Match.fillQtyLots).sum) o.openQtyLots := if_pos hbudget
    have hpass := sum_sweep hlimit hbudget os fs
    have htake := sum_sweep hlimit hbudget os (fs ++ [n.fill o (M.fillQty n fs o)])
    simp only [List.map_append, List.map_singleton, List.sum_append, List.sum_singleton,
      NewOrder.fill] at htake
    unfold sweep
    by_cases hown : o.ownerId = taker
    · rw [if_pos (.inl hown), List.filter_cons_of_neg (by simpa using hown)]
      exact hpass
    · rw [List.filter_cons_of_pos (by simpa using hown), List.map_cons, List.sum_cons]
      split_ifs with h
      · have hzero : M.fillQty n fs o = 0 := by simpa [hown, hcross] using h
        omega
      · simp only [List.map_cons, List.sum_cons, NewOrder.fill]
        omega

/-! ## Hops -/

/-- A hop takes what is offered to it. -/
theorem Market.fills_swapOrder (hM : MatchLaw S M) (side : Side) :
    M.fills taker (m.swapOrder seq side amount) m.orderbook =
      M.offered taker (m.swapOrder seq side amount) m.orderbook := by
  refine if_neg fun h => ?_
  rcases hM.rejects h with h | h <;> cases h

/-- A sale uses all of its input just in case it is of lots that others bid for. -/
theorem Market.sold_eq_iff (hM : MatchLaw S M) {fills : List Match}
    (hfills : fills = M.fills taker (m.swapOrder seq .sell amount) m.orderbook) :
    m.takerCost .sell fills = amount ↔ m.TakesAll S M taker seq .sell amount := by
  have hoffer : ((((M.queue m.orderbook .buy).filter (·.ownerId ≠ taker)).map
      OpenLimitOrder.openQtyLots).sum) = S.othersLots m.orderbook .buy taker :=
    (((hM.queue m.orderbook .buy).filter _).map _).sum_eq
  have hsum : (fills.map Match.fillQtyLots).sum =
      min (asU64 (amount / m.baseToken.lotSize)) (S.othersLots m.orderbook .buy taker) := by
    rw [hfills, ← hoffer, Market.fills_swapOrder hM]
    exact Matching.sum_sweep rfl rfl _ _
  have hcost : m.takerCost .sell fills =
      (fills.map Match.fillQtyLots).sum * m.baseToken.lotSize := List.sum_map_mul_right ..
  rw [hcost, hsum]
  simp only [Market.TakesAll]
  generalize m.baseToken.lotSize = lot, S.othersLots m.orderbook .buy taker = offered
  constructor
  · intro h
    obtain rfl | hlot := Nat.eq_zero_or_pos lot
    · obtain rfl : 0 = amount := h
      exact ⟨Nat.dvd_refl 0, by decide, Nat.zero_le _⟩
    · have hdiv : amount / lot = min (asU64 (amount / lot)) offered := by
        conv_lhs => rw [← h]
        exact Nat.mul_div_cancel _ hlot
      refine ⟨Dvd.intro_left _ h, ?_, ?_⟩
      · rw [hdiv]
        exact (Nat.min_le_left _ _).trans_lt (Checked.wrap_lt _ _)
      · rw [hdiv]
        exact Nat.min_le_right _ _
  · rintro ⟨hdvd, hlt, hle⟩
    rw [asU64, Checked.wrap_of_lt hlt, Nat.min_eq_left hle]
    exact Nat.div_mul_cancel hdvd

/-- A purchase uses all of its input just in case its budget, without the fee, is
    a number of lots that are all spent. -/
theorem Market.bought_eq_iff (hM : MatchLaw S M) {fills : List Match}
    (hfills : fills = M.fills taker (m.swapOrder seq .buy amount) m.orderbook) :
    m.takerCost .buy fills = amount ↔ m.TakesAll S M taker seq .buy amount := by
  have hspent : (fills.map Match.nativeQuotePaid).sum ≤
      asU64 ((amount - m.takerFeeOf amount) / m.quoteToken.lotSize) * m.quoteToken.lotSize := by
    rw [hfills]
    exact hM.budget rfl
  have hlots := asU64_mul_le (amount - m.takerFeeOf amount) m.quoteToken.lotSize
  simp only [Market.TakesAll, ← hfills]
  change (fills.map Match.nativeQuotePaid).sum +
    m.takerFeeOf (fills.map Match.nativeQuotePaid).sum = amount ↔ _
  generalize (fills.map Match.nativeQuotePaid).sum = spent at hspent ⊢
  constructor
  · intro h
    have hbudget : spent = amount - m.takerFeeOf amount := by
      have hle := m.takerFeeOf_mono (hspent.trans hlots)
      have hfee := m.takerFeeOf_mono (Nat.sub_le amount (m.takerFeeOf amount))
      omega
    rw [← hbudget] at hspent hlots ⊢
    have hwhole := Nat.le_antisymm hlots hspent
    refine ⟨h, Dvd.intro_left _ hwhole, ?_, rfl⟩
    obtain hzero | hlot := Nat.eq_zero_or_pos m.quoteToken.lotSize
    · rw [hzero, Nat.div_zero]
      decide
    · have hdiv : spent / m.quoteToken.lotSize = asU64 (spent / m.quoteToken.lotSize) := by
        conv_lhs => rw [← hwhole]
        exact Nat.mul_div_cancel _ hlot
      rw [hdiv]
      exact Checked.wrap_lt _ _
  · rintro ⟨h, -, -, rfl⟩
    exact h

/-- Fills use all of the input of a swap just in case the book takes it. -/
theorem Market.takerCost_eq_iff (hM : MatchLaw S M) {fills : List Match}
    (hfills : fills = M.fills taker (m.swapOrder seq side amount) m.orderbook) :
    m.takerCost side fills = amount ↔ m.TakesAll S M taker seq side amount := by
  cases side with
  | buy => exact Market.bought_eq_iff hM hfills
  | sell => exact Market.sold_eq_iff hM hfills

/-- A hop as it went: the market before it, the number of its order, its input, and
    how much of it was used. -/
structure HopMade (B : Type) where
  market : Market B
  seq : ℕ
  side : Side
  token : TokenType
  amount : ℕ
  used : ℕ

/-- The swaps `swaps`, given the input `x`, make the hops `hops` and put out `y`:
    each hop hands an order to the engine, uses what the fills cost that the
    engine answers with, and its output is the input of the next. -/
inductive Made (S : Sdk B) (env : Env) : Contract B → List SwapAction → TokenType × ℕ →
    List (HopMade B) → TokenType × ℕ → Contract B → Prop
  | nil (c : Contract B) (x : TokenType × ℕ) : Made S env c [] x [] x c
  | cons {c c₁ c' : Contract B} {swap : SwapAction} {swaps : List SwapAction} {token : TokenType}
      {amount : ℕ} {m : Market B} {n : NewOrder} {r : PlaceOrderResult} {b : B}
      {out : SwapResult} {hops : List (HopMade B)} {y : TokenType × ℕ}
      (found : c.markets.lookup swap.marketId = some m)
      (handed : Hands S (fun S => executeSwapAction S env c swap token amount) m.orderbook
        env.signerAccountId n)
      (answered : S.placeOrder m.orderbook env.signerAccountId n = .ok (r, b))
      (returned : executeSwapAction S env c swap token amount = .ok (out, c₁))
      (rest : Made S env c₁ swaps (out.outputToken, out.outputAmount) hops y c') :
      Made S env c (swap :: swaps) (token, amount)
        (⟨m, n.sequenceNumber, swap.side, token, amount, m.takerCost swap.side r.fills⟩ :: hops)
        y c'

theorem executeSwapAction_asks (hm : c.markets.lookup swap.marketId = some m) :
    HandsOnly S c m env.signerAccountId .market (fun n => SwapSized m swap.side amount n)
      fun S => executeSwapAction S env c swap token amount := by
  refine .bind_left (fun _ => rfl) fun m' hm' => ?_
  obtain rfl : m' = m := Option.some.inj ((Contract.internalUnwrapMarket_eq_ok.1 hm').symm.trans hm)
  exact .bind_left (fun _ => rfl) fun _ _ => .bind internalSwap_asks

/-- The order that a hop hands over. -/
theorem handed_eq (hm : c.markets.lookup swap.marketId = some m)
    (hn : Hands S (fun S => executeSwapAction S env c swap token amount) m.orderbook
      env.signerAccountId n) :
    n = m.swapOrder (c.prevOrderSequenceNumber + 1) swap.side amount := by
  have hnext := (executeSwapAction_asks hm).of_hands hn
  have hseq : n.sequenceNumber = c.prevOrderSequenceNumber + 1 := hnext.seq
  have heq : n = m.swapOrder n.sequenceNumber swap.side amount :=
    hnext.order.eq_swapOrder hnext.of hnext.type
  rw [hseq] at heq
  exact heq

/-- What the fills of a hop use, and what is left, are its input. -/
theorem HopRun.takerCost_add {out : SwapResult} (h : HopRun S env c swap token amount out c') :
    h.m.takerCost swap.side h.r.fills + out.inputRefund = amount := by
  rw [← h.traded.takerCost_eq]
  exact h.spent

/-- What the fills of the order that a hop hands over use, and what is left, are
    its input. -/
theorem takerCost_add_of_handed {r : PlaceOrderResult} {b : B} {out : SwapResult}
    (hm : c.markets.lookup swap.marketId = some m)
    (hn : Hands S (fun S => executeSwapAction S env c swap token amount) m.orderbook
      env.signerAccountId n)
    (hr : S.placeOrder m.orderbook env.signerAccountId n = .ok (r, b))
    (h : executeSwapAction S env c swap token amount = .ok (out, c')) :
    m.takerCost swap.side r.fills + out.inputRefund = amount := by
  obtain ⟨run⟩ := executeSwapAction_ok h
  obtain rfl : run.m = m := Option.some.inj (run.found.symm.trans hm)
  obtain rfl : n = run.n := (handed_eq hm hn).trans run.order_eq.symm
  obtain rfl : run.r = r :=
    (Prod.mk.inj (Except.ok.inj (run.traded.placed.symm.trans hr))).1
  exact run.takerCost_add

/-- A hop that returns has handed its order over. -/
theorem HopRun.handed {out : SwapResult} (run : HopRun S env c swap token amount out c')
    (h : executeSwapAction S env c swap token amount = .ok (out, c')) :
    Hands S (fun S => executeSwapAction S env c swap token amount) run.m.orderbook
      env.signerAccountId run.n := by
  obtain ⟨n, -, hn⟩ := (executeSwapAction_asks run.found).of_ok h
  obtain rfl : n = run.n := (handed_eq run.found hn).trans run.order_eq.symm
  exact hn

/-- A chain that returns was made of hops. -/
theorem executeHops_made : ∀ {swaps : List SwapAction} {c c' : Contract B} {token : TokenType}
    {amount : ℕ}, executeHops S env c swaps token amount = .ok (y, c') →
    ∃ hops, Made S env c swaps (token, amount) hops y c'
  | [], c, c', token, amount, h => by
    simp only [executeHops, Checked.pure_eq_ok, Prod.mk.injEq] at h
    obtain ⟨rfl, rfl⟩ := h
    exact ⟨[], .nil _ _⟩
  | swap :: swaps, c, c', token, amount, h => by
    simp only [executeHops, Checked.bind_eq_ok] at h
    obtain ⟨⟨out, c₁⟩, h1, h2⟩ := h
    obtain ⟨run⟩ := executeSwapAction_ok h1
    obtain ⟨hops, hmade⟩ := executeHops_made h2
    exact ⟨_, .cons run.found (run.handed h1) run.traded.placed h1 hmade⟩

/-- No hop uses more than it was given. -/
theorem Made.used_le {hops : List (HopMade B)} (h : Made S env c swaps x hops y c') :
    ∀ hop ∈ hops, hop.used ≤ hop.amount := by
  induction h with
  | nil => exact List.forall_mem_nil _
  | cons found handed answered returned rest ih =>
    refine List.forall_mem_cons.2 ⟨?_, ih⟩
    exact Nat.le.intro (takerCost_add_of_handed found handed answered returned)

/-- The book that a hop meets takes all that it is given. -/
def HopMade.TakesAll (S : Sdk B) (M : Matching B) (taker : AccountId) (hop : HopMade B) : Prop :=
  hop.market.TakesAll S M taker hop.seq hop.side hop.amount

/-- A hop uses all that it is given just in case its book takes that. -/
theorem Made.used_eq_iff (hM : MatchLaw S M) {hops : List (HopMade B)}
    (h : Made S env c swaps x hops y c') :
    ∀ hop ∈ hops, hop.used = hop.amount ↔ hop.TakesAll S M env.signerAccountId := by
  induction h with
  | nil => exact List.forall_mem_nil _
  | cons found handed answered returned rest ih =>
    refine List.forall_mem_cons.2 ⟨?_, ih⟩
    obtain rfl := handed_eq found handed
    exact Market.takerCost_eq_iff hM (hM.fills answered)

/-! ## Accounts of a chain -/

/-- What the hops were given in a token. -/
def givenTo (hops : List (HopMade B)) (token : TokenType) : ℕ :=
  (hops.map fun h => amountOf (h.token, h.amount) token).sum

/-- What the hops used of it. -/
def usedBy (hops : List (HopMade B)) (token : TokenType) : ℕ :=
  (hops.map fun h => amountOf (h.token, h.used) token).sum

/-- What promises send to an account. -/
def sentTo (id : AccountId) (ps : List Promise) (token : TokenType) : ℕ :=
  (ps.map fun
    | .send id' t n => if id' = id then amountOf (t, n) token else 0
    | _ => 0).sum

/-- Sums of terms below one another agree just in case the terms do. -/
theorem sum_eq_sum_iff_of_le {α : Type} {f g : α → ℕ} : ∀ {l : List α}, (∀ a ∈ l, f a ≤ g a) →
    ((l.map g).sum = (l.map f).sum ↔ ∀ a ∈ l, f a = g a)
  | [], _ => by simp
  | a :: l, h => by
    obtain ⟨ha, hl⟩ := List.forall_mem_cons.1 h
    have hsum : (l.map f).sum ≤ (l.map g).sum := List.sum_le_sum hl
    rw [List.forall_mem_cons, ← sum_eq_sum_iff_of_le hl]
    simp only [List.map_cons, List.sum_cons]
    omega

theorem amountOf_le_amountOf {n k : ℕ} (h : n ≤ k) (t token : TokenType) :
    amountOf (t, n) token ≤ amountOf (t, k) token := by
  rw [amountOf, amountOf]
  split_ifs
  · exact h
  · exact le_rfl

/-- All that was given was used just in case each hop used what it was given. -/
theorem given_eq_used_iff {hops : List (HopMade B)} (hle : ∀ h ∈ hops, h.used ≤ h.amount) :
    (∀ token, givenTo hops token = usedBy hops token) ↔ ∀ h ∈ hops, h.used = h.amount := by
  have heach : ∀ token, givenTo hops token = usedBy hops token ↔
      ∀ h ∈ hops, amountOf (h.token, h.used) token = amountOf (h.token, h.amount) token :=
    fun token => sum_eq_sum_iff_of_le fun h hh => amountOf_le_amountOf (hle h hh) _ _
  constructor
  · intro hall h hh
    have heq := (heach h.token).1 (hall h.token) h hh
    simpa only [amountOf, if_true] using heq
  · intro hall token
    refine (heach token).2 fun h hh => ?_
    rw [hall h hh]

theorem sentTo_output (id : AccountId) (x : TokenType × ℕ) (token : TokenType) :
    sentTo id (if 0 < x.2 then [.send id x.1 x.2] else []) token = amountOf x token := by
  obtain ⟨t, n⟩ := x
  unfold sentTo
  split_ifs with hn
  · simp
  · obtain rfl : n = 0 := Nat.eq_zero_of_not_pos hn
    simp [amountOf]

/-- The last hop puts out at least its minimum. -/
theorem Made.minOutput {hops : List (HopMade B)} (h : Made S env c swaps x hops y c')
    {last : SwapAction} (hlast : swaps.getLast? = some last) :
    last.minOutputToken.getD 0 ≤ y.2 := by
  induction h with
  | nil => cases hlast
  | @cons c c₁ c' swap swaps token amount m n r b out hops y found handed answered returned rest
      ih =>
    cases swaps with
    | nil =>
      cases hlast
      cases rest
      obtain ⟨run⟩ := executeSwapAction_ok returned
      exact run.minOutput
    | cons swap' swaps => exact ih hlast

/-- What a chain that succeeds answers and sends. -/
theorem executeSwaps_made {senderId : AccountId} {unused : ℕ} {ps : List Promise}
    (h : executeSwaps S env c swaps token amount senderId = .ok (unused, ps, c')) :
    ∃ hops y, Made S env c swaps (token, amount) hops y c' ∧ unused = 0 ∧
      (ps = if 0 < y.2 then [.send senderId y.1 y.2] else []) ∧
      ∃ last least, swaps.getLast? = some last ∧ last.minOutputToken = some least ∧
        least ≤ y.2 := by
  simp only [executeSwaps, Checked.bind_eq_ok, Checked.require_eq_ok, Checked.pure_eq_ok,
    Prod.mk.injEq] at h
  obtain ⟨_, -, _, hmin, ⟨y, c₁⟩, hx, rfl, rfl, rfl⟩ := h
  obtain ⟨hops, hmade⟩ := executeHops_made hx
  refine ⟨hops, y, hmade, rfl, rfl, ?_⟩
  obtain ⟨least, hleast⟩ := Option.isSome_iff_exists.1 hmin
  obtain ⟨last, hlast, hleast⟩ := Option.bind_eq_some_iff.1 hleast
  refine ⟨last, least, hlast, hleast, ?_⟩
  have hout := hmade.minOutput hlast
  rw [hleast] at hout
  exact hout

/-- **A chain of swaps accounts for its input just in case the book of each hop
    takes all that the hop is given.**  Of a chain that succeeds: in every token,
    what the hops are given, with the output of the last one, is what their fills
    and fees use, what is answered to be unused and what is sent to the sender, if
    and only if each hop meets a book that takes all of its input.  Always, what is
    sent is the output of the last hop, and at least its minimum. -/
theorem swaps_accounted_iff (hM : MatchLaw S M) {senderId : AccountId} {unused : ℕ}
    {ps : List Promise}
    (h : executeSwaps S env c swaps token amount senderId = .ok (unused, ps, c')) :
    ∃ hops y, Made S env c swaps (token, amount) hops y c' ∧
      ((∀ t, givenTo hops t + amountOf y t =
          usedBy hops t + amountOf (token, unused) t + sentTo senderId ps t) ↔
        ∀ hop ∈ hops, hop.TakesAll S M env.signerAccountId) ∧
      (ps = if 0 < y.2 then [.send senderId y.1 y.2] else []) ∧
      ∃ last least, swaps.getLast? = some last ∧ last.minOutputToken = some least ∧
        least ≤ y.2 := by
  obtain ⟨hops, y, hmade, rfl, rfl, hleast⟩ := executeSwaps_made h
  refine ⟨hops, y, hmade, ?_, rfl, hleast⟩
  rw [← forall₂_congr (hmade.used_eq_iff hM), ← given_eq_used_iff hmade.used_le]
  refine forall_congr' fun t => ?_
  have hzero : amountOf (token, 0) t = 0 := by
    rw [amountOf]
    split_ifs <;> rfl
  rw [sentTo_output, hzero, Nat.add_zero]
  exact Nat.add_right_cancel_iff

/-- Bob bids for 90 lots of `btc` at a price of one lot: his budget affords no more. -/
def bidding : List Event := Engine.asked ++
  [.call (Engine.calling Engine.bob 0)
    (.newOrder Engine.btcUsd (Engine.order .buy .limit 10 100 none))]

/-- The `btc` contract reports a transfer that the owner of the exchange signed. -/
def swapping : Env := ⟨Engine.btc, Engine.dao, 0, 0, 1000⟩

def sells : SwapAction := ⟨Engine.btcUsd, .sell, some 1, none⟩

def buys : SwapAction := ⟨Engine.btcUsd, .buy, some 1, none⟩

/-- The owner of the exchange swaps `btc`. -/
def swapsBtc (swaps : List SwapAction) (amount : ℕ) :
    Call (ℕ × List Promise × Contract Engine.Book) :=
  executeSwaps Engine.sdk swapping (Engine.run bidding).contract swaps
    (.fungibleToken Engine.btc) amount Engine.dao

theorem givenTo_self (hop : HopMade B) : givenTo [hop] hop.token = hop.amount := by
  simp [givenTo, amountOf]

theorem usedBy_self (hop : HopMade B) : usedBy [hop] hop.token = hop.used := by
  simp [usedBy, amountOf]

/-- The first hop of a chain, and the rest of it. -/
theorem Made.cons_inv {hops : List (HopMade B)}
    (h : Made S env c (swap :: swaps) (token, amount) hops y c') : ∃ m out c₁ hop hops',
      c.markets.lookup swap.marketId = some m ∧
      executeSwapAction S env c swap token amount = .ok (out, c₁) ∧
      hop = ⟨m, c.prevOrderSequenceNumber + 1, swap.side, token, amount,
        amount - out.inputRefund⟩ ∧ hops = hop :: hops' ∧
      Made S env c₁ swaps (out.outputToken, out.outputAmount) hops' y c' := by
  cases h with
  | @cons c c₁ c' swap swaps token amount m n r b out hops y found handed answered returned rest =>
    have hadd := takerCost_add_of_handed found handed answered returned
    have hused : m.takerCost swap.side r.fills = amount - out.inputRefund := by omega
    have hseq : n.sequenceNumber = c.prevOrderSequenceNumber + 1 :=
      congrArg NewOrder.sequenceNumber (handed_eq found handed)
    exact ⟨m, out, c₁, _, hops, found, returned, by rw [hseq, hused], rfl, rest⟩

/-- The books that a chain of a sale and a purchase meets, if its hops return. -/
def takenBack (amount : ℕ) : Call Bool := do
  let c := (Engine.run bidding).contract
  let (out, c₁) ← executeSwapAction Engine.sdk swapping c sells (.fungibleToken Engine.btc) amount
  return (c.markets.lookup Engine.btcUsd).all (fun m => decide (m.TakesAll Engine.sdk
      Engine.matching Engine.dao (c.prevOrderSequenceNumber + 1) .sell amount)) &&
    (c₁.markets.lookup Engine.btcUsd).all (fun m => decide (m.TakesAll Engine.sdk
      Engine.matching Engine.dao (c₁.prevOrderSequenceNumber + 1) .buy out.outputAmount))

/-- As much as Bob bids for, and what is bought back for it, is all accounted for. -/
theorem swaps_accounted_back : ∃ c' hops y,
    swapsBtc [sells, buys] 90 =
      .ok (0, [.send Engine.dao (.fungibleToken Engine.btc) 45], c') ∧
    Made Engine.sdk swapping (Engine.run bidding).contract [sells, buys]
      (.fungibleToken Engine.btc, 90) hops y c' ∧
    ∀ t, givenTo hops t + amountOf y t = usedBy hops t +
      amountOf (.fungibleToken Engine.btc, 0) t +
        sentTo Engine.dao [.send Engine.dao (.fungibleToken Engine.btc) 45] t := by
  have hrun : (swapsBtc [sells, buys] 90).toOption.map (fun x => (x.1, x.2.1)) =
      some (0, [.send Engine.dao (.fungibleToken Engine.btc) 45]) := by decide +kernel
  have htaken : (takenBack 90).toOption = some true := by decide +kernel
  obtain ⟨⟨_, _, c'⟩, hok, hsent⟩ := Engine.eq_ok_of_map hrun
  obtain ⟨rfl, rfl⟩ := Prod.mk.inj hsent
  obtain ⟨hops, y, hmade, hiff, -⟩ := swaps_accounted_iff Engine.matchLaw hok
  refine ⟨c', hops, y, hok, hmade, hiff.2 ?_⟩
  obtain ⟨m, out, c₁, _, hops', hm, hout, rfl, rfl, hrest⟩ := hmade.cons_inv
  obtain ⟨m₁, out₁, c₂, _, hops'', hm₁, hout₁, rfl, rfl, hend⟩ := hrest.cons_inv
  cases hend
  have htaken := Engine.eq_ok_of_toOption htaken
  simp only [takenBack, hout, Checked.ok_bind, Checked.pure_eq_ok, Bool.and_eq_true] at htaken
  obtain ⟨hfirst, hsecond⟩ := htaken
  have hm : (Engine.run bidding).contract.markets.lookup Engine.btcUsd = some m := hm
  have hm₁ : c₁.markets.lookup Engine.btcUsd = some m₁ := hm₁
  rw [hm, Option.all_some, decide_eq_true_eq] at hfirst
  rw [hm₁, Option.all_some, decide_eq_true_eq] at hsecond
  exact List.forall_mem_cons.2 ⟨hfirst, List.forall_mem_singleton.2 hsecond⟩

/-- Of 150, the 60 that Bob does not bid for are sent back to nobody. -/
theorem swaps_not_accounted : ∃ c' hops y,
    swapsBtc [sells] 150 = .ok (0, [.send Engine.dao (.fungibleToken Engine.usd) 90], c') ∧
    Made Engine.sdk swapping (Engine.run bidding).contract [sells]
      (.fungibleToken Engine.btc, 150) hops y c' ∧
    givenTo hops (.fungibleToken Engine.btc) = 150 ∧
    usedBy hops (.fungibleToken Engine.btc) = 90 ∧
    ¬ ∀ t, givenTo hops t + amountOf y t = usedBy hops t +
      amountOf (.fungibleToken Engine.btc, 0) t +
        sentTo Engine.dao [.send Engine.dao (.fungibleToken Engine.usd) 90] t := by
  have hrun : (swapsBtc [sells] 150).toOption.map (fun x => (x.1, x.2.1)) =
      some (0, [.send Engine.dao (.fungibleToken Engine.usd) 90]) := by decide +kernel
  have hleft : ((executeSwapAction Engine.sdk swapping (Engine.run bidding).contract sells
      (.fungibleToken Engine.btc) 150).toOption.map fun x => x.1.inputRefund) = some 60 := by
    decide +kernel
  obtain ⟨⟨_, _, c'⟩, hok, hsent⟩ := Engine.eq_ok_of_map hrun
  obtain ⟨rfl, rfl⟩ := Prod.mk.inj hsent
  obtain ⟨hops, y, hmade, -, hps, -⟩ := executeSwaps_made hok
  obtain ⟨m, out, c₁, hop, hops', -, hout, hhop, rfl, hrest⟩ := hmade.cons_inv
  cases hrest
  obtain ⟨sold, hsold, hsixty⟩ := Engine.eq_ok_of_map hleft
  cases hout.symm.trans hsold
  have hsixty : out.inputRefund = 60 := hsixty
  rw [hsixty] at hhop
  have hgiven : givenTo [hop] (.fungibleToken Engine.btc) = 150 := by
    rw [hhop]
    exact givenTo_self _
  have hused : usedBy [hop] (.fungibleToken Engine.btc) = 90 := by
    rw [hhop]
    exact usedBy_self _
  refine ⟨c', _, _, hok, hmade, hgiven, hused, ?_⟩
  intro hall
  have hbtc := hall (.fungibleToken Engine.btc)
  rw [hps, sentTo_output, hgiven, hused] at hbtc
  simp [amountOf] at hbtc

end TonicDex
