/-
  Credits and debits when parties coincide.

  The account of a taker is loaded before its order is matched and saved after
  makers and referrer were, so what is written to it meanwhile is lost.  Makers
  are never the taker; the referrer can be.  `balanced_iff` says when the stored
  balances are the old ones with all credits and debits, for every party.
-/
import TonicDex.Invariant.Custody

namespace TonicDex

variable {B : Type} {S : Sdk B} {c c' : Contract B} {e : Effect B} {es : List (Effect B)}
  {env : Env} {mid : MarketId} {p : NewOrderParams} {r : PlaceOrderResult}

/-! ## What a trade computes -/

/-- What is left of the taker fee of some fills after the maker rebates. -/
def Market.netTakerFee (m : Market B) (fills : List Match) : ℕ :=
  m.takerFeeOf (m.totals fills).quoteTraded - (m.totals fills).totalMakerRebate

namespace OrderRun

variable (h : OrderRun S env c mid p r c')

/-- What an order credits to an account: its fills, the rebate of a referrer, and
    what the taker receives. -/
def credits (id : AccountId) (token : TokenType) : ℕ :=
  fillCredits h.m p.side id r.fills token +
    (if p.referrerId = some id ∧ token = h.m.quoteToken.tokenType
      then h.path.s.referrerRebate else 0) +
    if id = env.predecessorAccountId ∧ token = (takerCredit h.m p.side h.path.s).1
      then (takerCredit h.m p.side h.path.s).2 else 0

/-- What an order debits: what the taker pays and locks. -/
def debits (id : AccountId) (token : TokenType) : ℕ :=
  if id = env.predecessorAccountId ∧
      token = (takerDebit h.m p.side h.path.s h.path.locked).1
    then (takerDebit h.m p.side h.path.s h.path.locked).2 else 0

/-- Every stored balance is the old one with all credits and debits. -/
def Balanced : Prop := ∀ id token, (c'.accountOf id).getBalance S token + h.debits id token =
  (c.accountOf id).getBalance S token + h.credits id token

/-- The taker is paid no rebate for its own order: somebody else is the referrer,
    or nobody, or nothing is left of the fee, or the stored account of the taker
    cannot be saved with the rebate. -/
def NoOwnRebate : Prop :=
  p.referrerId ≠ some env.predecessorAccountId ∨ h.m.netTakerFee r.fills = 0 ∨
    ¬ (h.a.credit (S.key h.m.quoteToken.tokenType) (h.m.netTakerFee r.fills)).isStorageCovered S

end OrderRun

/-- What a hop credits to an account. -/
def HopRun.credits {swap : SwapAction} {token : TokenType} {n : ℕ} {out : SwapResult}
    (h : HopRun S env c swap token n out c') (id : AccountId) (token : TokenType) : ℕ :=
  fillCredits h.m swap.side id h.r.fills token +
    if swap.referrerId = some id ∧ token = h.m.quoteToken.tokenType
      then h.s.referrerRebate else 0

/-! ## Orders -/

/-- The rebate of a taker that refers itself: the net fee, if its stored account
    can be saved with it. -/
theorem Traded.own_rebate {m m' : Market B} {taker : AccountId} {n : NewOrder}
    {referrerId : Option AccountId} {s : Settled} {a : Account} (hB : BookLaws S)
    (h : Traded S c mid m taker n referrerId r m' s c')
    (hm : MarketOk S c.prevOrderSequenceNumber m) (ha : c.accounts.lookup taker = some a)
    (href : referrerId = some taker) : s.referrerRebate = 0 ↔ m.netTakerFee r.fills = 0 ∨
      ¬ (a.credit (S.key m.quoteToken.tokenType) (m.netTakerFee r.fills)).isStorageCovered S := by
  have hmakers := (h.makers_lookup hB hm).trans ha
  have hnet : s.totalTakerFee - (m.totals r.fills).totalMakerRebate = m.netTakerFee r.fills := by
    rw [h.settled.fee, Market.netTakerFee]
  have hpaid := h.settled.referrer
  rw [hnet] at hpaid
  generalize h.settled.makers = makers at hmakers hpaid
  generalize s.referrerRebate = rebate at hpaid ⊢
  cases hpaid with
  | nothing uncovered =>
    exact iff_of_true rfl (.inr (uncovered taker a href hmakers))
  | @paid id b referrer found covered =>
    obtain rfl : taker = id := Option.some_inj.1 (href.symm.trans referrer)
    rw [hmakers] at found
    cases found
    constructor
    · exact .inl
    · rintro (hzero | huncovered)
      · exact hzero
      · exact absurd covered huncovered

theorem OrderRun.fills_eq (h : OrderRun S env c mid p r c') : h.done.result.fills = r.fills :=
  (congrArg PlaceOrderResult.fills h.result).symm

/-- Anybody but the taker is credited and debited exactly. -/
theorem OrderRun.balance_of_ne (hT : TokenLaws S) (h : OrderRun S env c mid p r c')
    {id : AccountId} (hid : id ≠ env.predecessorAccountId) (token : TokenType) :
    (c'.accountOf id).getBalance S token + h.debits id token =
      (c.accountOf id).getBalance S token + h.credits id token := by
  have hacc : c'.accountOf id = h.done.contract.accountOf id := by
    rw [h.accountOf_eq, if_neg hid]
  have hnot : ∀ t, ¬ (id = env.predecessorAccountId ∧ token = t) := fun t h => hid h.1
  rw [hacc, h.path.traded.balance_eq hT id token, debits, credits, if_neg (hnot _),
    if_neg (hnot _), h.path.side, h.fills_eq]
  omega

/-- The taker is credited and debited as such, and its own rebate is lost. -/
theorem OrderRun.balance_taker (hB : BookLaws S) (hT : TokenLaws S)
    (h : OrderRun S env c mid p r c') (hm : MarketOk S c.prevOrderSequenceNumber h.m)
    (token : TokenType) :
    (c'.accountOf env.predecessorAccountId).getBalance S token +
        h.debits env.predecessorAccountId token +
        (if p.referrerId = some env.predecessorAccountId ∧
          token = h.m.quoteToken.tokenType then h.path.s.referrerRebate else 0) =
      (c.accountOf env.predecessorAccountId).getBalance S token +
        h.credits env.predecessorAccountId token := by
  have hacc : c'.accountOf env.predecessorAccountId = h.done.takerAccount := by
    rw [h.accountOf_eq, if_pos rfl]
  have hold : c.accountOf env.predecessorAccountId = h.a := accountOf_of_lookup h.account
  have hnone : fillCredits h.m p.side env.predecessorAccountId r.fills token = 0 := by
    have hne : ∀ f ∈ r.fills, f.makerUserId ≠ env.predecessorAccountId :=
      fun f hf => h.path.traded.maker_ne hB hm (h.fills_eq ▸ hf)
    rw [fillCredits, filter_maker_eq_nil hne]
    rfl
  have hbal := h.path.balance (S.key token)
  simp only [hT.key_injective.eq_iff] at hbal
  rw [hacc, hold, debits, credits, hnone]
  simp only [true_and, Account.getBalance]
  omega

/-- **Every balance is the old one with all credits and debits, just in case the
    taker is paid no rebate for its own order.** -/
theorem OrderRun.balanced_iff (hB : BookLaws S) (hT : TokenLaws S)
    (h : OrderRun S env c mid p r c') (hc : BooksOk S c) : h.Balanced ↔ h.NoOwnRebate := by
  have hm := hc mid h.m h.found
  have hothers := fun id (hid : id ≠ env.predecessorAccountId) => h.balance_of_ne hT hid
  have htaker := h.balance_taker hB hT hm
  by_cases href : p.referrerId = some env.predecessorAccountId
  swap
  · refine iff_of_true (fun id token => ?_) (.inl href)
    by_cases hid : id = env.predecessorAccountId
    · subst hid
      have h := htaker token
      rw [if_neg fun h => href h.1] at h
      exact h
    · exact hothers id hid token
  have hrebate := h.path.traded.own_rebate hB hm h.account href
  rw [h.fills_eq] at hrebate
  constructor
  · intro hall
    have h1 := hall env.predecessorAccountId h.m.quoteToken.tokenType
    have h2 := htaker h.m.quoteToken.tokenType
    rw [if_pos ⟨href, rfl⟩] at h2
    exact .inr (hrebate.1 (by omega))
  · intro hown
    have hzero := hrebate.2 (hown.resolve_left fun hne => hne href)
    intro id token
    by_cases hid : id = env.predecessorAccountId
    · subst hid
      have h1 := htaker token
      rw [hzero, ite_self] at h1
      exact h1
    · exact hothers id hid token

/-! ## Hops -/

/-- A hop leaves no party out: the taker's account is not loaded. -/
theorem HopRun.balanced (hT : TokenLaws S) {swap : SwapAction} {token : TokenType} {n : ℕ}
    {out : SwapResult} (h : HopRun S env c swap token n out c') (id : AccountId)
    (token' : TokenType) : (c'.accountOf id).getBalance S token' =
      (c.accountOf id).getBalance S token' + h.credits id token' := by
  rw [h.accountOf_eq, h.traded.balance_eq hT id token', credits, h.side, Nat.add_assoc]

/-! ## Calls -/

/-- What the trades of a call do to the stored balances. -/
structure Settles (S : Sdk B) (c : Contract B) (e : Effect B) (c' : Contract B) : Prop where
  order : ∀ env mid p r, e = .order env mid p r →
    ∃ h : OrderRun S env c mid p r c', h.Balanced ↔ h.NoOwnRebate
  hop : ∀ env swap token n out fills, e = .hop env swap token n out fills →
    ∃ h : HopRun S env c swap token n out c', h.r.fills = fills ∧ ∀ id token,
      (c'.accountOf id).getBalance S token =
        (c.accountOf id).getBalance S token + h.credits id token

theorem Does.settles (hB : BookLaws S) (hT : TokenLaws S) (h : Does S c e c')
    (hc : BooksOk S c) : Settles S c e c' := by
  constructor
  · rintro env mid p r rfl
    cases h with
    | order run => exact ⟨run, run.balanced_iff hB hT hc⟩
  · rintro env swap token n out fills rfl
    cases h with
    | hop run => exact ⟨run, rfl, run.balanced hT⟩

/-- **Credits are found in the stored balances** after every order and every hop
    of a swap, whichever parties coincide, except for the rebate of a taker that
    refers itself. -/
theorem credits_found_iff (hB : BookLaws S) (hT : TokenLaws S) {s : System B}
    (hs : System.Reachable S s) {op : Op} {ps : List Promise}
    (h : perform S env s.contract op = .ok (ps, c')) :
    ∃ es, Shape S s.contract env op ps es ∧ EachEffect S (Settles S) s.contract es c' := by
  obtain ⟨es, heff, hshape⟩ := perform_effects hB h
  exact ⟨es, hshape, heff.each hB (booksOk_of_reach hB hs) fun e _ _ _ hd hc =>
    hd.settles hB hT hc⟩

/-- Bob buys from Alice, and refers to somebody else. -/
theorem credits_found_bought : ∃ ps es,
    Shape Engine.sdk (Engine.run Engine.asked).contract (Engine.calling Engine.bob 0)
      (Engine.bobBuys (some Engine.dao)) ps es ∧
    EachEffect Engine.sdk (Settles Engine.sdk) (Engine.run Engine.asked).contract es
      (Engine.run Engine.bought).contract := by
  obtain ⟨ps, hop⟩ := Engine.perform_bought
  obtain ⟨es, hshape, heach⟩ := credits_found_iff Engine.bookLaws Engine.tokenLaws
    (Engine.reachable_run Engine.asked) hop
  exact ⟨ps, es, hshape, heach⟩

/-- Bob buys from Alice, and refers to himself. -/
def selfReferred : List Event :=
  Engine.asked ++ [.call (Engine.calling Engine.bob 0) (Engine.bobBuys (some Engine.bob))]

/-- He pays 1180 and a fee of 11, and is to be paid a rebate of 6.  No more than
    what he pays is booked, and the market keeps none of the 6 either. -/
theorem own_rebate_lost : System.Reachable Engine.sdk (Engine.run Engine.asked) ∧
    ((Engine.run Engine.asked).contract.accounts.lookup Engine.bob).map (fun a =>
      a.balance "ft:usd.near") = some 100000 ∧
    ((Engine.run Engine.asked).contract.markets.lookup Engine.btcUsd).bind (fun m =>
      (settleMatches Engine.sdk (Engine.run Engine.asked).contract Engine.btcUsd m ⟨100, 50⟩ .buy
        [⟨1, Engine.alice, 590, 2, 1180, false⟩] (some Engine.bob) "").toOption.map fun x =>
          (x.1.quoteTraded, x.1.totalTakerFee, x.1.totalMakerRebate, x.1.referrerRebate)) =
      some (1180, 11, 5, 6) ∧
    ((Engine.run selfReferred).contract.accounts.lookup Engine.bob).map (fun a =>
      (a.balance "ft:btc.near", a.balance "ft:usd.near")) = some (590, 98809) ∧
    ((Engine.run selfReferred).contract.accounts.lookup Engine.alice).map (fun a =>
      a.balance "ft:usd.near") = some 1185 ∧
    ((Engine.run selfReferred).contract.markets.lookup Engine.btcUsd).map Market.feesAccrued =
      some 0 ∧
    98809 ≠ 100000 - 1180 - 11 + 6 :=
  ⟨Engine.reachable_run Engine.asked, by decide +kernel, by decide +kernel, by decide +kernel,
    by decide +kernel, by decide +kernel, by decide⟩

end TonicDex
