/-
  What belongs to somebody.

  `Contract.attributed S c token` is the sum of all balances of a token, of what
  resting orders lock of it and of the fees accrued in it.  This module follows
  it through a trade: what fills take off the book is what takers and makers
  are credited (`Traded.opposite_le`, `Traded.settled_total`), up to the
  rounding of quote amounts, which only ever goes in favour of the contract.
-/
import TonicDex.Invariant.Books

namespace TonicDex

variable {B : Type} {S : Sdk B}

/-! ## Attributed amounts -/

/-- What the resting orders of a side of a market lock. -/
def Market.lockedOn (S : Sdk B) (m : Market B) (side : Side) : ℕ :=
  ((S.resting m.orderbook side).map (m.restingValue side)).sum

/-- What the resting orders of a market lock of `token`. -/
def Market.locked (S : Sdk B) (m : Market B) (token : TokenType) : ℕ :=
  (if token = m.quoteToken.tokenType then m.lockedOn S .buy else 0) +
    if token = m.baseToken.tokenType then m.lockedOn S .sell else 0

/-- What a market holds of `token` for somebody: locked amounts and fees. -/
def Market.attributed (S : Sdk B) (m : Market B) (token : TokenType) : ℕ :=
  m.locked S token + if token = m.quoteToken.tokenType then m.feesAccrued else 0

/-- The sum of all accounts' balances of `token`. -/
def Contract.balances (S : Sdk B) (c : Contract B) (token : TokenType) : ℕ :=
  c.accounts.total fun _ a => a.getBalance S token

def Contract.attributed (S : Sdk B) (c : Contract B) (token : TokenType) : ℕ :=
  c.balances S token + c.markets.total fun _ m => m.attributed S token

/-! ## The book in a trade -/

/-- What the taker of a trade gains before fees: base for a buy, else quote. -/
def MakerSettlementResult.gained (t : MakerSettlementResult) : Side → ℕ
  | .buy => t.baseTraded
  | .sell => t.quoteTraded

/-- What the makers of a trade are paid, rebates apart. -/
def MakerSettlementResult.paid (t : MakerSettlementResult) : Side → ℕ
  | .buy => t.quoteTraded
  | .sell => t.baseTraded

section fills

variable {m : Market B} {n : NewOrder} {taker : AccountId} {o : OpenLimitOrder} {f : Match}

/-- A fill takes exactly its base amount off an ask. -/
theorem ask_fill (h : Fillable taker n o f) :
    (fillRule.reduce o f).elim 0 (m.restingValue .sell) + m.fillBase f =
      m.restingValue .sell o := by
  simp only [fillRule, Market.restingValue, Market.fillBase]
  split_ifs with hr
  · rw [h.removed.1 hr]; exact Nat.zero_add _
  · simp only [Option.elim_some, Market.restingValue]
    rw [← Nat.add_mul, Nat.sub_add_cancel h.qty]

/-- A fill takes at least its quote amount off a bid: the two parts of a value
    that was rounded down are rounded down each. -/
theorem bid_fill (hn : n.Of m) (h : Fillable taker n o f) :
    (fillRule.reduce o f).elim 0 (m.restingValue .buy) + f.nativeQuotePaid ≤
      m.restingValue .buy o := by
  have hpaid : f.nativeQuotePaid = quoteValue f.fillQtyLots o.limitPriceLots
      m.quoteToken.lotSize m.baseToken.lotSize m.denom := by
    rw [h.paid, h.price, hn.quoteLot, hn.baseLot, hn.baseDenom]
  simp only [fillRule, Market.restingValue, hpaid]
  split_ifs with hr
  · rw [h.removed.1 hr]; exact (Nat.zero_add _).le
  · simp only [Option.elim_some, Market.restingValue, quoteValue]
    refine Nat.div_add_div_le_add_div.trans (Nat.div_le_div_right ?_)
    simp only [← Nat.add_mul, Nat.sub_add_cancel h.qty]
    exact le_rfl

end fills

namespace Traded

variable {c c' : Contract B} {mid : MarketId} {m m' : Market B} {taker : AccountId}
  {n : NewOrder} {referrerId : Option AccountId} {r : PlaceOrderResult} {s : Settled}

theorem restingValue_eq (h : Traded S c mid m taker n referrerId r m' s c') (side : Side) :
    m'.restingValue side = m.restingValue side := by
  rw [h.market]; cases side <;> rfl

/-- What a trade takes off the opposite side of the book covers what it moves. -/
theorem opposite_le (hB : BookLaws S) (h : Traded S c mid m taker n referrerId r m' s c')
    (hm : MarketOk S c.prevOrderSequenceNumber m) :
    m'.lockedOn S n.side.opposite + (m.totals r.fills).gained n.side ≤
      m.lockedOn S n.side.opposite := by
  have hp := (h.placement hB hm).filled
  have hn := Sdk.resting_nodup hm.nodup n.side.opposite
  unfold Market.lockedOn
  rw [h.restingValue_eq]
  rcases hs : n.side with _ | _
  · rw [hs] at hp hn
    exact hp.sum_add_le (fun o f hf => (ask_fill hf).le) hn
  · rw [hs] at hp hn
    exact hp.sum_add_le (fun o f hf => bid_fill h.of hf) hn

/-- A buy takes exactly what it moves off the asks. -/
theorem opposite_eq (hB : BookLaws S) (h : Traded S c mid m taker n referrerId r m' s c')
    (hm : MarketOk S c.prevOrderSequenceNumber m) (hs : n.side = .buy) :
    m'.lockedOn S .sell + (m.totals r.fills).baseTraded = m.lockedOn S .sell := by
  have hp := (h.placement hB hm).filled
  have hn := Sdk.resting_nodup hm.nodup .sell
  rw [hs] at hp
  unfold Market.lockedOn
  rw [h.restingValue_eq]
  exact hp.sum_add_eq (fun o f _ hf => ask_fill hf) hn

/-- The price of the order a trade posts. -/
def price (n : NewOrder) : ℕ := n.limitPriceLots.getD 0

/-- The own side of the book gains the posted order. -/
theorem own_eq (hB : BookLaws S) (h : Traded S c mid m taker n referrerId r m' s c')
    (hm : MarketOk S c.prevOrderSequenceNumber m) :
    m'.lockedOn S n.side = m.lockedOn S n.side +
      m.restingValue n.side (Placed.postedOrder taker n r (price n)) := by
  have hp := h.placement hB hm
  unfold Market.lockedOn
  rw [h.restingValue_eq]
  cases hr : r.isPosted with
  | true =>
    obtain ⟨-, p, hl, hperm⟩ := hp.posted hr
    have hpr : price n = p := by rw [price, hl]; rfl
    rw [(hperm.map _).sum_eq, hpr]
    simp only [List.map_cons, List.sum_cons]
    exact Nat.add_comm _ _
  | false =>
    obtain ⟨hopen, hside⟩ := hp.not_posted hr
    rw [hside]
    have hz : m.restingValue n.side (Placed.postedOrder taker n r (price n)) = 0 := by
      cases n.side <;> simp [Market.restingValue, Placed.postedOrder, hopen, quoteValue]
    rw [hz, Nat.add_zero]

/-! ## The accounts in a trade -/

/-- What the fills credit to all makers together. -/
theorem makerCredit_sum (m : Market B) (side : Side) (token : TokenType) :
    ∀ fs : List Match, (fs.map fun f => m.makerCredit side f token).sum =
      (if token = m.quoteToken.tokenType then (m.totals fs).totalMakerRebate else 0) +
        if token = m.sideToken side then (m.totals fs).paid side else 0
  | [] => by cases side <;> simp [Market.totals, MakerSettlementResult.paid]
  | f :: fs => by
    have hcredit : m.makerCredit side f token =
        (if token = m.quoteToken.tokenType then m.rebateOf f else 0) +
          if token = m.sideToken side then (m.totals [f]).paid side else 0 := by
      cases side <;> rfl
    have hpaid : (m.totals (f :: fs)).paid side = (m.totals [f]).paid side +
        (m.totals fs).paid side := by
      cases side <;> simp [Market.totals, MakerSettlementResult.paid]
    rw [List.map_cons, List.sum_cons, makerCredit_sum m side token fs, hcredit, hpaid]
    simp only [Market.totals, List.map_cons, List.sum_cons]
    split_ifs <;> omega

/-- What the stored accounts gain when a trade is settled. -/
theorem settled_total (hT : TokenLaws S) (h : Traded S c mid m taker n referrerId r m' s c')
    (token : TokenType) : c'.balances S token = c.balances S token +
      (if token = m.quoteToken.tokenType then (m.totals r.fills).totalMakerRebate else 0) +
      (if token = m.sideToken n.side then (m.totals r.fills).paid n.side else 0) +
      if token = m.quoteToken.tokenType then s.referrerRebate else 0 := by
  have hs := h.settled
  have hmk := hs.settled.total_eq (w := fun a => a.getBalance S token)
    (g := fun f => m.makerCredit n.side f token) fun a f _ => balance_afterFill hT token
  have hrf := hs.referrer.total_eq (w := fun a => a.getBalance S token)
    (g := fun x => if token = m.quoteToken.tokenType then x else 0) (by simp) fun a => by
      simp only [Account.getBalance, Account.balance_credit, hT.key_injective.eq_iff]
  rw [makerCredit_sum] at hmk
  calc c'.balances S token
      = hs.makers.accounts.total (fun _ a => a.getBalance S token) +
          (if token = m.quoteToken.tokenType then s.referrerRebate else 0) := hrf
    _ = c.balances S token + ((if token = m.quoteToken.tokenType
            then (m.totals r.fills).totalMakerRebate else 0) +
          (if token = m.sideToken n.side then (m.totals r.fills).paid n.side else 0)) +
          (if token = m.quoteToken.tokenType then s.referrerRebate else 0) :=
        congrArg (· + _) hmk
    _ = _ := by omega

/-- What the posted order of a trade locks in the book. -/
def postedValue (m : Market B) (taker : AccountId) (n : NewOrder) (r : PlaceOrderResult) : ℕ :=
  m.restingValue n.side (Placed.postedOrder taker n r (price n))

/-- What the market holds moves by what the trade takes and posts. -/
theorem market_attributed (hB : BookLaws S)
    (h : Traded S c mid m taker n referrerId r m' s c')
    (hm : MarketOk S c.prevOrderSequenceNumber m) (token : TokenType) :
    m'.attributed S token +
        (if token = m.sideToken n.side.opposite then (m.totals r.fills).gained n.side else 0) ≤
      m.attributed S token +
        (if token = m.sideToken n.side then postedValue m taker n r else 0) +
        (if token = m.quoteToken.tokenType then s.net else 0) := by
  have hopp := h.opposite_le hB hm
  have hown := h.own_eq hB hm
  have hbase : m'.baseToken = m.baseToken := by rw [h.market]
  have hquote : m'.quoteToken = m.quoteToken := by rw [h.market]
  have hfees : m'.feesAccrued = m.feesAccrued + s.net := by rw [h.market]
  simp only [Market.attributed, Market.locked, hbase, hquote, hfees, postedValue]
  rcases hs : n.side with _ | _
  · rw [hs, Side.opposite] at hopp
    rw [hs] at hown
    rw [Side.opposite, Market.sideToken, Market.sideToken]
    split_ifs <;> omega
  · rw [hs, Side.opposite] at hopp
    rw [hs] at hown
    rw [Side.opposite, Market.sideToken, Market.sideToken]
    split_ifs <;> omega

/-- Outside the quote token nothing is rounded. -/
theorem market_attributed_eq (hB : BookLaws S)
    (h : Traded S c mid m taker n referrerId r m' s c')
    (hm : MarketOk S c.prevOrderSequenceNumber m) {token : TokenType}
    (ht : token ≠ m.quoteToken.tokenType) :
    m'.attributed S token +
        (if token = m.sideToken n.side.opposite then (m.totals r.fills).gained n.side else 0) =
      m.attributed S token +
        (if token = m.sideToken n.side then postedValue m taker n r else 0) := by
  have hown := h.own_eq hB hm
  have hbase : m'.baseToken = m.baseToken := by rw [h.market]
  have hquote : m'.quoteToken = m.quoteToken := by rw [h.market]
  simp only [Market.attributed, Market.locked, hbase, hquote, postedValue, if_neg ht]
  rcases hs : n.side with _ | _
  · have hopp := h.opposite_eq hB hm hs
    rw [Side.opposite, Market.sideToken, Market.sideToken, if_neg ht,
      MakerSettlementResult.gained]
    split_ifs <;> omega
  · rw [hs] at hown
    rw [Side.opposite, Market.sideToken, Market.sideToken, if_neg ht]
    split_ifs <;> omega

end Traded

/-! ## The contract in a trade -/

/-- An amount of one token, as an amount of `token`. -/
def amountOf : TokenType × ℕ → TokenType → ℕ
  | (t, n), token => if token = t then n else 0

@[simp] theorem amountOf_zero (t token : TokenType) : amountOf (t, 0) token = 0 := by
  rw [amountOf]
  split_ifs <;> rfl

/-- Saving a market replaces what it holds. -/
theorem attributed_saveMarket {c : Contract B} {mid : MarketId} {m : Market B}
    (h : c.markets.lookup mid = some m) (m' : Market B) (token : TokenType) :
    (c.internalSaveMarket mid m').attributed S token + m.attributed S token =
      c.attributed S token + m'.attributed S token := by
  have := HMap.total_insert_add c.markets (fun _ m => m.attributed S token) mid m'
  rw [h] at this
  simp only [Contract.attributed, Contract.balances, Contract.internalSaveMarket,
    Option.elim_some] at this ⊢
  omega

/-- Saving an account replaces its balance. -/
theorem attributed_putAccount {c : Contract B} {id : AccountId} {a : Account}
    (h : c.accounts.lookup id = some a) (a' : Account) (token : TokenType) :
    (c.putAccount id a').attributed S token + a.getBalance S token =
      c.attributed S token + a'.getBalance S token := by
  have := HMap.total_insert_add c.accounts (fun _ a => a.getBalance S token) id a'
  rw [h] at this
  simp only [Contract.attributed, Contract.balances, Contract.putAccount,
    Option.elim_some] at this ⊢
  omega

namespace Traded

variable {c c' : Contract B} {mid : MarketId} {m m' : Market B} {taker : AccountId}
  {n : NewOrder} {referrerId : Option AccountId} {r : PlaceOrderResult} {s : Settled}
  {locked : ℕ}

/-- What the contract holds after the makers, the referrer and the market were
    settled. -/
theorem attributed_settled (hT : TokenLaws S)
    (h : Traded S c mid m taker n referrerId r m' s c') (hm : c.markets.lookup mid = some m)
    (token : TokenType) :
    (c'.internalSaveMarket mid m').attributed S token + m.attributed S token =
      c.attributed S token + m'.attributed S token +
        (if token = m.quoteToken.tokenType then
          (m.totals r.fills).totalMakerRebate + s.referrerRebate else 0) +
        if token = m.sideToken n.side then (m.totals r.fills).paid n.side else 0 := by
  have hbal := h.settled_total hT token
  have hm' : c'.markets.lookup mid = some m := by rw [h.markets_eq]; exact hm
  have hsave := attributed_saveMarket (S := S) hm' m' token
  have hmk : c'.attributed S token = c'.balances S token +
      c.markets.total fun _ m => m.attributed S token := by
    rw [Contract.attributed, h.markets_eq]
  have hc : c.attributed S token = c.balances S token +
      c.markets.total fun _ m => m.attributed S token := rfl
  split_ifs at hbal ⊢ <;> omega

/-- **In a trade the contract pays out no more than it takes in**, counting
    what the taker is credited as paid out and what the taker is debited as
    taken in. -/
theorem flow_le (hB : BookLaws S) (hT : TokenLaws S)
    (h : Traded S c mid m taker n referrerId r m' s c') (hm : c.markets.lookup mid = some m)
    (hok : MarketOk S c.prevOrderSequenceNumber m) (hl : postedValue m taker n r ≤ locked)
    (hfee : n.side = .sell → s.totalTakerFee ≤ s.quoteTraded) (token : TokenType) :
    (c'.internalSaveMarket mid m').attributed S token +
        amountOf (takerCredit m n.side s) token ≤
      c.attributed S token + amountOf (takerDebit m n.side s locked) token := by
  have hset := h.attributed_settled hT hm token
  have hmarket := h.market_attributed hB hok token
  have hsplit := h.settled.fee_eq
  have hbase : s.baseTraded = (m.totals r.fills).baseTraded := by rw [h.settled.totals]
  have hquote : s.quoteTraded = (m.totals r.fills).quoteTraded := by rw [h.settled.totals]
  rcases hs : n.side with _ | _
  · rw [hs, Side.opposite, Market.sideToken, Market.sideToken, MakerSettlementResult.gained]
      at hmarket
    rw [hs, Market.sideToken, MakerSettlementResult.paid] at hset
    rw [takerCredit, takerDebit, amountOf, amountOf]
    split_ifs at hmarket hset ⊢ <;> omega
  · rw [hs, Side.opposite, Market.sideToken, Market.sideToken, MakerSettlementResult.gained]
      at hmarket
    rw [hs, Market.sideToken, MakerSettlementResult.paid] at hset
    have hle := hfee hs
    rw [takerCredit, takerDebit, amountOf, amountOf]
    split_ifs at hmarket hset ⊢ <;> omega

/-- Outside the quote token the two are equal. -/
theorem flow_eq (hB : BookLaws S) (hT : TokenLaws S)
    (h : Traded S c mid m taker n referrerId r m' s c') (hm : c.markets.lookup mid = some m)
    (hok : MarketOk S c.prevOrderSequenceNumber m)
    (hl : n.side = .sell → postedValue m taker n r = locked) {token : TokenType}
    (ht : token ≠ m.quoteToken.tokenType) :
    (c'.internalSaveMarket mid m').attributed S token +
        amountOf (takerCredit m n.side s) token =
      c.attributed S token + amountOf (takerDebit m n.side s locked) token := by
  have hset := h.attributed_settled hT hm token
  have hmarket := h.market_attributed_eq hB hok ht
  have hbase : s.baseTraded = (m.totals r.fills).baseTraded := by rw [h.settled.totals]
  rw [if_neg ht] at hset
  rcases hs : n.side with _ | _
  · rw [hs, Side.opposite, Market.sideToken, Market.sideToken, MakerSettlementResult.gained,
      if_neg ht] at hmarket
    rw [hs, Market.sideToken, if_neg ht] at hset
    rw [takerCredit, takerDebit, amountOf, amountOf]
    simp only [if_neg ht]
    split_ifs at hmarket ⊢ <;> omega
  · have hle := hl hs
    rw [hs, Side.opposite, Market.sideToken, Market.sideToken, if_neg ht] at hmarket
    rw [hs, Market.sideToken, MakerSettlementResult.paid] at hset
    rw [takerCredit, takerDebit, amountOf, amountOf]
    simp only [if_neg ht]
    split_ifs at hmarket hset ⊢ <;> omega

end Traded

/-! ## Orders and hops -/

namespace OrderRun

variable {env : Env} {c c' : Contract B} {mid : MarketId} {p : NewOrderParams}
  {r : PlaceOrderResult}

/-- What an order locks on the account covers what it locks in the book: the
    limit price is rounded down to lots. -/
theorem posted_le (hB : BookLaws S) (h : OrderRun S env c mid p r c')
    (hok : MarketOk S c.prevOrderSequenceNumber h.m) :
    Traded.postedValue h.m env.predecessorAccountId h.path.n h.done.result ≤ h.path.locked ∧
      (h.path.n.side = .sell →
        Traded.postedValue h.m env.predecessorAccountId h.path.n h.done.result =
          h.path.locked) := by
  have hside := h.path.side
  unfold Traded.postedValue
  by_cases ht : p.orderType = .market
  · obtain ⟨-, hlocked, -⟩ := h.path.market ht
    have hopen : h.done.result.openQtyLots = 0 :=
      (h.path.traded.placement hB hok).openQty_of_market (h.path.type.trans ht)
    rw [hlocked]
    cases h.path.n.side <;>
      simp [Market.restingValue, Placed.postedOrder, quoteValue, hopen]
  · obtain ⟨limit, -, -, hl, hlocked, -⟩ := h.path.limit ht
    rw [hlocked, ← hside]
    rcases hs : h.path.n.side with _ | _
    · have hprice : Traded.price h.path.n * h.m.quoteToken.lotSize ≤ limit := by
        rw [Traded.price, hl, Option.getD_some]
        calc asU64 (limit / h.m.quoteToken.lotSize) * h.m.quoteToken.lotSize
            ≤ limit / h.m.quoteToken.lotSize * h.m.quoteToken.lotSize :=
              Nat.mul_le_mul_right _ (Checked.wrap_le _ _)
          _ ≤ limit := Nat.div_mul_le_self _ _
      refine ⟨?_, fun he => by cases he⟩
      simp only [Market.restingValue, Placed.postedOrder, quoteValue, lockedBy]
      refine Nat.div_le_div_right ?_
      calc h.done.result.openQtyLots * Traded.price h.path.n * h.m.quoteToken.lotSize *
            h.m.baseToken.lotSize
          = h.done.result.openQtyLots * h.m.baseToken.lotSize *
              (Traded.price h.path.n * h.m.quoteToken.lotSize) := by
            simp only [Nat.mul_assoc, Nat.mul_comm, Nat.mul_left_comm]
        _ ≤ h.done.result.openQtyLots * h.m.baseToken.lotSize * limit :=
            Nat.mul_le_mul_left _ hprice
    · exact ⟨le_rfl, fun _ => rfl⟩

/-- The taker's stored account while the others are settled. -/
theorem taker_settled (hB : BookLaws S) (h : OrderRun S env c mid p r c')
    (hok : MarketOk S c.prevOrderSequenceNumber h.m) :
    ∃ b, h.done.contract.accounts.lookup env.predecessorAccountId = some b ∧
      b.storageBalance = h.a.storageBalance ∧ ∀ k, h.a.balance k ≤ b.balance k ∧
        (k ≠ S.key h.m.quoteToken.tokenType → h.a.balance k = b.balance k) := by
  obtain he | ⟨-, -, -, he⟩ := h.path.traded.taker_lookup hB hok h.account
  · exact ⟨h.a, he, rfl, fun k => ⟨le_rfl, fun _ => rfl⟩⟩
  · refine ⟨_, he, Account.storageBalance_credit, fun k => ⟨?_, fun hk => ?_⟩⟩
    · rw [Account.balance_credit]; exact Nat.le_add_right _ _
    · rw [Account.balance_credit, if_neg hk, Nat.add_zero]

/-- Saving the taker's account, in terms of what the contract holds. -/
theorem attributed_taker (hT : TokenLaws S) (h : OrderRun S env c mid p r c') {b : Account}
    (hb : h.done.contract.accounts.lookup env.predecessorAccountId = some b)
    (token : TokenType) :
    c'.attributed S token + b.getBalance S token +
        amountOf (takerDebit h.m h.path.n.side h.path.s h.path.locked) token =
      (h.done.contract.internalSaveMarket mid h.done.market).attributed S token +
        h.a.getBalance S token + amountOf (takerCredit h.m h.path.n.side h.path.s) token := by
  have hput := attributed_putAccount (S := S)
    (c := h.done.contract.internalSaveMarket mid h.done.market) hb h.done.takerAccount token
  have hbal := h.path.balance (S.key token)
  have hc : c'.attributed S token = ((h.done.contract.internalSaveMarket mid
      h.done.market).putAccount env.predecessorAccountId h.done.takerAccount).attributed S token :=
    congrArg (fun c => c.attributed S token) h.state
  simp only [hT.key_injective.eq_iff] at hbal
  rw [← h.path.side] at hbal
  simp only [Account.getBalance, amountOf] at hput ⊢
  omega

/-- **An order never increases what the contract attributes to somebody.** -/
theorem attributed_le (hB : BookLaws S) (hT : TokenLaws S) (h : OrderRun S env c mid p r c')
    (hok : MarketOk S c.prevOrderSequenceNumber h.m) (token : TokenType) :
    c'.attributed S token ≤ c.attributed S token := by
  obtain ⟨b, hb, -, hle⟩ := h.taker_settled hB hok
  have htaker := h.attributed_taker hT hb token
  have hfee : h.path.n.side = .sell → h.path.s.totalTakerFee ≤ h.path.s.quoteTraded :=
    fun hs => h.path.feeCovered (h.path.side ▸ hs)
  have hflow := h.path.traded.flow_le hB hT h.found hok (h.posted_le hB hok).1 hfee token
  have hbal : h.a.getBalance S token ≤ b.getBalance S token := (hle _).1
  omega

/-- Outside the quote token it leaves it as it is. -/
theorem attributed_eq (hB : BookLaws S) (hT : TokenLaws S) (h : OrderRun S env c mid p r c')
    (hok : MarketOk S c.prevOrderSequenceNumber h.m) {token : TokenType}
    (ht : token ≠ h.m.quoteToken.tokenType) : c'.attributed S token = c.attributed S token := by
  obtain ⟨b, hb, -, hle⟩ := h.taker_settled hB hok
  have htaker := h.attributed_taker hT hb token
  have hflow := h.path.traded.flow_eq hB hT h.found hok (h.posted_le hB hok).2 ht
  have hbal : h.a.getBalance S token = b.getBalance S token :=
    (hle _).2 fun he => ht (hT.key_injective he)
  omega

end OrderRun

namespace HopRun

variable {env : Env} {c c' : Contract B} {swap : SwapAction} {token : TokenType} {amount : ℕ}
  {out : SwapResult}

/-- Swaps post nothing. -/
theorem posted_eq (hB : BookLaws S) (h : HopRun S env c swap token amount out c')
    (hok : MarketOk S c.prevOrderSequenceNumber h.m) :
    Traded.postedValue h.m env.signerAccountId h.n h.r = 0 := by
  have hopen : h.r.openQtyLots = 0 := (h.traded.placement hB hok).openQty_of_market h.type
  unfold Traded.postedValue
  cases h.n.side <;> simp [Market.restingValue, Placed.postedOrder, quoteValue, hopen]

/-- **A hop puts out no more than it takes in.** -/
theorem attributed_le (hB : BookLaws S) (hT : TokenLaws S)
    (h : HopRun S env c swap token amount out c')
    (hok : MarketOk S c.prevOrderSequenceNumber h.m) (t : TokenType) :
    c'.attributed S t + amountOf (out.outputToken, out.outputAmount) t ≤
      c.attributed S t + amountOf (token, amount) t := by
  have hfee : h.n.side = .sell → h.s.totalTakerFee ≤ h.s.quoteTraded :=
    fun hs => h.feeCovered (h.side ▸ hs)
  have hflow := h.traded.flow_le hB hT h.found hok (h.posted_eq hB hok).le hfee t
  rw [h.side, h.output, ← h.state] at hflow
  have hin : amountOf (takerDebit h.m swap.side h.s 0) t ≤ amountOf (token, amount) t := by
    have hpair : takerDebit h.m swap.side h.s 0 = (token, (takerDebit h.m swap.side h.s 0).2) :=
      Prod.ext h.input rfl
    rw [hpair, amountOf, amountOf]
    split_ifs
    · exact Nat.le_of_add_right_le h.spent.le
    · exact le_rfl
  omega

end HopRun

/-! ## Cancellations -/

namespace CancelRun

variable {c c' : Contract B} {mid : MarketId} {owner : AccountId} {ids : List OrderId}

/-- What refunds credit to an account. -/
theorem getBalance_refunds (hT : TokenLaws S) (m : Market B) (token : TokenType) :
    ∀ (os : List OpenLimitOrder) (a : Account),
      (os.foldl (refund S m mid) a).getBalance S token = a.getBalance S token +
        (os.map fun o => if token = m.sideToken o.side then m.restingValue o.side o else 0).sum
  | [], a => rfl
  | o :: os, a => by
    rw [List.foldl_cons, getBalance_refunds hT m token os, balance_refund hT, List.map_cons,
      List.sum_cons, Nat.add_assoc]

/-- What is cancelled of one side, in the token of that side. -/
theorem cancelled_sum {seq : ℕ} {m : Market B} (hm : MarketOk S seq m) (ids : List OrderId)
    (side : Side) (token : TokenType) :
    (((S.resting m.orderbook side).filter (·.id ∈ ids)).map fun o =>
        if token = m.sideToken o.side then m.restingValue o.side o else 0).sum =
      amountOf (m.sideToken side,
        (((S.resting m.orderbook side).filter (·.id ∈ ids)).map (m.restingValue side)).sum)
        token := by
  have hside : ∀ o ∈ (S.resting m.orderbook side).filter (·.id ∈ ids),
      (if token = m.sideToken o.side then m.restingValue o.side o else 0) =
        if token = m.sideToken side then m.restingValue side o else 0 := fun o ho => by
    rw [hm.side side o (List.mem_filter.1 ho).1]
  rw [List.map_congr_left hside, amountOf]
  split_ifs
  · rfl
  · simp

/-- A side of the book loses what is cancelled of it. -/
theorem lockedOn_add (hB : BookLaws S) (h : CancelRun S c mid owner ids c') {seq : ℕ}
    (hm : MarketOk S seq h.m) (side : Side) :
    h.market.lockedOn S side +
        (((S.resting h.m.orderbook side).filter (·.id ∈ ids)).map (h.m.restingValue side)).sum =
      h.m.lockedOn S side := by
  have hval : h.market.restingValue side = h.m.restingValue side := by cases side <;> rfl
  unfold Market.lockedOn
  rw [hval, market, h.resting hB hm side, ← List.sum_append, ← List.map_append]
  refine ((List.Perm.map _ ?_).sum_eq)
  refine List.perm_append_comm.trans ?_
  have hnot : (fun o : OpenLimitOrder => decide (o.id ∉ ids)) =
      fun o => !decide (o.id ∈ ids) := by
    funext o; exact decide_not
  rw [hnot]
  exact List.filter_append_perm _ _

/-- **Cancelling leaves what the contract attributes as it is.** -/
theorem attributed_eq (hB : BookLaws S) (hT : TokenLaws S) (h : CancelRun S c mid owner ids c')
    {seq : ℕ} (hm : MarketOk S seq h.m) (token : TokenType) :
    c'.attributed S token = c.attributed S token := by
  have hput := attributed_putAccount (S := S) (c := c.internalSaveMarket mid h.market) h.account
    ((h.results.map CancelOrderResult.order).foldl (refund S h.m mid) h.kept) token
  have hsave := attributed_saveMarket (S := S) h.found h.market token
  have hkept : h.kept.getBalance S token = h.a.getBalance S token := by
    rw [Account.getBalance, Account.balance, h.forgets.balances]; rfl
  have hc : c'.attributed S token = ((c.internalSaveMarket mid h.market).putAccount owner
      ((h.results.map CancelOrderResult.order).foldl (refund S h.m mid) h.kept)).attributed S
        token := congrArg (fun c => c.attributed S token) h.result
  have hbuy := h.lockedOn_add hB hm .buy
  have hsell := h.lockedOn_add hB hm .sell
  have h1 : _ = amountOf (h.m.baseToken.tokenType, _) token := cancelled_sum hm ids .sell token
  have h2 : _ = amountOf (h.m.quoteToken.tokenType, _) token := cancelled_sum hm ids .buy token
  have hbase : h.market.baseToken = h.m.baseToken := rfl
  have hquote : h.market.quoteToken = h.m.quoteToken := rfl
  have hfees : h.market.feesAccrued = h.m.feesAccrued := rfl
  rw [getBalance_refunds hT, ((h.cancelled_perm hB hm).map _).sum_eq, Sdk.orders,
    List.filter_append, List.map_append, List.sum_append, hkept] at hput
  rw [amountOf] at h1 h2
  simp only [Sdk.resting] at h1 h2 hbuy hsell
  simp only [Market.attributed, Market.locked, hbase, hquote, hfees] at hsave
  split_ifs at h1 h2 hsave <;> omega

end CancelRun

end TonicDex
