/-
  Leaving the exchange.

  An account can be unregistered when its maps are empty.  A withdrawal removes
  an entry that reaches zero, but a deposit of zero makes one.  `LeavesSome` says
  of an effect, on what it is given and the state before it, that whomever it pays
  in a token then holds some of it; in runs of such effects an account that holds
  nothing has no entries and can leave (`empty_accounts_leave`).
-/
import TonicDex.Invariant.Referral

namespace TonicDex

variable {B : Type} {S : Sdk B} {M : Matching B} {c c' : Contract B} {e : Effect B}
  {es : List (Effect B)} {mid : MarketId} {m m' : Market B} {a a' : Account} {token : TokenType}
  {n : ℕ} {k : String}

/-! ## Accounts without empty entries -/

/-- Every entry is of a token, and not zero. -/
def Account.Clean (S : Sdk B) (a : Account) : Prop :=
  ∀ k v, a.balances.lookup k = some v → v ≠ 0 ∧ ∃ t, S.key t = k

namespace Account.Clean

/-- Entries that are new or changed must be of tokens and not zero. -/
theorem of_changes (h : a.Clean S) (hk : ∀ k, a'.balances.lookup k = a.balances.lookup k ∨
    ∃ t, S.key t = k ∧ a'.getBalance S t ≠ 0) : a'.Clean S := by
  intro k v hv
  obtain hsame | ⟨t, rfl, hne⟩ := hk k
  · rw [hsame] at hv
    exact h k v hv
  · rw [Account.getBalance, Account.balance_of_lookup hv] at hne
    exact ⟨hne, t, rfl⟩

theorem credit (h : a.Clean S) (hpos : a.getBalance S token + n ≠ 0) :
    (a.credit (S.key token) n).Clean S := by
  refine h.of_changes fun k => ?_
  by_cases hk : k = S.key token
  · refine .inr ⟨token, hk.symm, ?_⟩
    rw [Account.getBalance, Account.balance_credit, if_pos rfl]
    exact hpos
  · exact .inl (AList.lookup_insert_ne hk)

/-- A withdrawal leaves no empty entry of its token. -/
theorem of_withdraw (h : ∀ k v, k ≠ S.key token → a.balances.lookup k = some v →
    v ≠ 0 ∧ ∃ t, S.key t = k) (hw : a.withdraw S token n = .ok a') : a'.Clean S := by
  obtain ⟨⟨x, hx, hle⟩, rfl⟩ := Account.withdraw_eq_ok.1 hw
  intro k v hv
  rw [Account.debit, Account.balance_of_lookup hx] at hv
  by_cases hk : k = S.key token
  · subst hk
    split_ifs at hv with he
    · rw [HMap.lookup_erase_eq, if_pos rfl] at hv
      cases hv
    · rw [AList.lookup_insert] at hv
      cases hv
      exact ⟨by omega, token, rfl⟩
  · refine h k v hk ?_
    split_ifs at hv
    · rwa [HMap.lookup_erase_eq, if_neg hk] at hv
    · rwa [AList.lookup_insert_ne hk] at hv

theorem withdraw (h : a.Clean S) (hw : a.withdraw S token n = .ok a') : a'.Clean S :=
  of_withdraw (fun k v _ hv => h k v hv) hw

end Account.Clean

section Taker

variable {credit debit : TokenType × ℕ}

/-- A taker that is credited first needs some of the token, unless it pays in it. -/
theorem Account.Clean.credited_first (ha : a.Clean S)
    (h : ∃ b, a.deposit S credit.1 credit.2 = .ok b ∧ b.withdraw S debit.1 debit.2 = .ok a')
    (hpos : S.key credit.1 ≠ S.key debit.1 → a.getBalance S credit.1 + credit.2 ≠ 0) :
    a'.Clean S := by
  obtain ⟨b, h1, h2⟩ := h
  obtain ⟨-, rfl⟩ := Account.deposit_eq_ok.1 h1
  by_cases hkey : S.key credit.1 = S.key debit.1
  · refine of_withdraw (fun k v hk hv => ha k v ?_) h2
    rw [Account.credit, hkey, AList.lookup_insert_ne hk] at hv
    exact hv
  · exact (ha.credit (hpos hkey)).withdraw h2

/-- One that is debited first must keep some, if it pays in the token. -/
theorem Account.Clean.debited_first (ha : a.Clean S)
    (h : ∃ b, a.withdraw S debit.1 debit.2 = .ok b ∧ b.deposit S credit.1 credit.2 = .ok a')
    (hpos : S.key credit.1 ≠ S.key debit.1 → a.getBalance S credit.1 + credit.2 ≠ 0)
    (hone : S.key credit.1 = S.key debit.1 →
      a.getBalance S credit.1 + credit.2 ≠ debit.2) : a'.Clean S := by
  obtain ⟨b, h1, h2⟩ := h
  obtain ⟨-, rfl⟩ := Account.deposit_eq_ok.1 h2
  have hbal := TakerPaid.withdraw_balance h1 (S.key credit.1)
  refine (ha.withdraw h1).credit ?_
  unfold Account.getBalance at hpos hone ⊢
  by_cases hkey : S.key credit.1 = S.key debit.1
  · have hne := hone hkey
    rw [if_pos hkey] at hbal
    omega
  · have hne := hpos hkey
    rw [if_neg hkey] at hbal
    omega

end Taker

/-! ## Fills and refunds -/

/-- The entries that a fill writes: its maker gets the rebate and the proceeds. -/
def Market.entriesOf (m : Market B) (side : Side) (f : Match) : List (AccountId × TokenType) :=
  [(f.makerUserId, m.quoteToken.tokenType), (f.makerUserId, (m.proceeds side f).1)]

/-- Fills write those entries only. -/
theorem lookup_fillsOf (side : Side) (id : AccountId) (k : String) :
    ∀ (fs : List Match) (a : Account),
      (fillsOf S mid m side id fs a).balances.lookup k = a.balances.lookup k ∨
        ∃ t, (id, t) ∈ fs.flatMap (m.entriesOf side) ∧ S.key t = k
  | [], a => .inl rfl
  | f :: fs, a => by
    have later : (∃ t, (id, t) ∈ fs.flatMap (m.entriesOf side) ∧ S.key t = k) →
        ∃ t, (id, t) ∈ (f :: fs).flatMap (m.entriesOf side) ∧ S.key t = k := by
      rintro ⟨t, ht, hk⟩
      exact ⟨t, List.mem_append_right _ ht, hk⟩
    by_cases hf : f.makerUserId = id
    swap
    · rw [fillsOf_cons_of_ne hf]
      obtain h | h := lookup_fillsOf side id k fs a
      · exact .inl h
      · exact .inr (later h)
    rw [fillsOf_cons_self hf]
    by_cases hk : ∃ t, (t = m.quoteToken.tokenType ∨ t = (m.proceeds side f).1) ∧ S.key t = k
    · obtain ⟨t, ht, hkt⟩ := hk
      refine .inr ⟨t, List.mem_append_left _ ?_, hkt⟩
      rcases ht with rfl | rfl
      · simp [Market.entriesOf, hf]
      · simp [Market.entriesOf, hf]
    · obtain h | h := lookup_fillsOf side id k fs (afterFill S mid m side f a)
      · refine .inl (h.trans ?_)
        have hquote : k ≠ S.key m.quoteToken.tokenType := fun h => hk ⟨_, .inl rfl, h.symm⟩
        have hproceeds : k ≠ S.key (m.proceeds side f).1 := fun h => hk ⟨_, .inr rfl, h.symm⟩
        refine (AList.lookup_insert_ne hproceeds).trans ((AList.lookup_insert_ne hquote).trans ?_)
        split_ifs
        · rw [Account.balances_forget]
        · rfl
      · exact .inr (later h)

theorem lookup_refunds (mid : MarketId) (m : Market B) (k : String) :
    ∀ (xs : List OpenLimitOrder) (a : Account),
    (xs.foldl (refund S m mid) a).balances.lookup k = a.balances.lookup k ∨
      ∃ x ∈ xs, S.key (m.sideToken x.side) = k
  | [], a => .inl rfl
  | x :: xs, a => by
    rw [List.foldl_cons]
    obtain h | ⟨y, hy, hk⟩ := lookup_refunds mid m k xs (refund S m mid a x)
    swap
    · exact .inr ⟨y, List.mem_cons_of_mem _ hy, hk⟩
    by_cases hk : S.key (m.sideToken x.side) = k
    · exact .inr ⟨x, List.mem_cons_self .., hk⟩
    · refine .inl (h.trans ?_)
      rw [refund, Account.balances_forget]
      exact AList.lookup_insert_ne fun he => hk he.symm

/-! ## Trades -/

section Trades

variable (S : Sdk B) (c : Contract B) (mid : MarketId) (m : Market B) (side : Side)
  (fs : List Match) (referrerId : Option AccountId)

/-- The stored account of a referrer can be saved with what is left of the fee. -/
def RebateSaved (id : AccountId) : Prop :=
  ∃ a ∈ c.accounts.lookup id, ((fillsOf S mid m side id fs a).credit
    (S.key m.quoteToken.tokenType) (m.netTakerFee fs)).isStorageCovered S

instance (id : AccountId) : Decidable (RebateSaved S c mid m side fs id) :=
  inferInstanceAs (Decidable (∃ a ∈ c.accounts.lookup id, _))

/-- Whom a trade with the fills `fs` pays, and in which token: the makers, and the
    referrer if its account can be saved. -/
def tradeEntries : List (AccountId × TokenType) :=
  fs.flatMap (m.entriesOf side) ++
    (referrerId.toList.filter fun id => RebateSaved S c mid m side fs id).map
      fun id => (id, m.quoteToken.tokenType)

/-- What it pays an account in a token. -/
def tradeCredits (id : AccountId) (token : TokenType) : ℕ :=
  fillCredits m side id fs token +
    if (referrerId = some id ∧ token = m.quoteToken.tokenType) ∧ RebateSaved S c mid m side fs id
      then m.netTakerFee fs else 0

/-- Whomever a trade pays in a token then holds some of it.  The account of `taker`
    does not count: it is saved later. -/
def TradeLeavesSome (taker : Option AccountId) : Prop :=
  ∀ x ∈ tradeEntries S c mid m side fs referrerId, taker ≠ some x.1 →
    (c.accountOf x.1).getBalance S x.2 + tradeCredits S c mid m side fs referrerId x.1 x.2 ≠ 0

instance (taker : Option AccountId) :
    Decidable (TradeLeavesSome S c mid m side fs referrerId taker) :=
  inferInstanceAs (Decidable (∀ x ∈ tradeEntries S c mid m side fs referrerId, _ → _))

end Trades

section Traded

variable {taker : AccountId} {order : NewOrder} {referrerId : Option AccountId}
  {r : PlaceOrderResult} {s : Settled} {id : AccountId}

theorem Traded.net_eq (h : Traded S c mid m taker order referrerId r m' s c') :
    s.totalTakerFee - (m.totals r.fills).totalMakerRebate = m.netTakerFee r.fills := by
  rw [h.settled.fee, Market.netTakerFee]

/-- The referrer is paid what is left of the fee just in case its account can be
    saved with it. -/
theorem Traded.referrerRebate_eq (h : Traded S c mid m taker order referrerId r m' s c')
    (href : referrerId = some id) : s.referrerRebate =
      if RebateSaved S c mid m order.side r.fills id then m.netTakerFee r.fills else 0 := by
  have hmakers := h.settled.settled.lookup id
  have hpaid := h.settled.referrer
  rw [h.net_eq] at hpaid
  generalize h.settled.makers = makers at hmakers hpaid
  generalize s.referrerRebate = rebate at hpaid ⊢
  cases hpaid with
  | nothing uncovered =>
    have hunsaved : ¬ RebateSaved S c mid m order.side r.fills id := by
      rintro ⟨a, ha, hcov⟩
      refine uncovered id _ href ?_ hcov
      rw [hmakers, Option.mem_def.1 ha, Option.map_some]
    rw [if_neg hunsaved]
  | @paid id' b referrer found covered =>
    obtain rfl : id = id' := Option.some_inj.1 (href.symm.trans referrer)
    rw [hmakers] at found
    obtain ⟨a, ha, rfl⟩ := Option.map_eq_some_iff.1 found
    have hsaved : RebateSaved S c mid m order.side r.fills id := ⟨a, ha, covered⟩
    rw [if_pos hsaved]

/-- A trade pays an account what it owes. -/
theorem Traded.balance_credits (hT : TokenLaws S)
    (h : Traded S c mid m taker order referrerId r m' s c') (id : AccountId) (token : TokenType) :
    (c'.accountOf id).getBalance S token = (c.accountOf id).getBalance S token +
      tradeCredits S c mid m order.side r.fills referrerId id token := by
  rw [h.balance_eq hT id token, tradeCredits, Nat.add_assoc]
  congr 2
  by_cases href : referrerId = some id ∧ token = m.quoteToken.tokenType
  · rw [if_pos href, h.referrerRebate_eq href.1]
    simp only [href, and_self, true_and]
  · rw [if_neg href, if_neg fun hboth => href hboth.1]

theorem Traded.clean (hT : TokenLaws S) (h : Traded S c mid m taker order referrerId r m' s c')
    {late : Option AccountId} (hlate : late ≠ some id)
    (hc : ∀ a, c.accounts.lookup id = some a → a.Clean S)
    (hleaves : TradeLeavesSome S c mid m order.side r.fills referrerId late) :
    ∀ a', c'.accounts.lookup id = some a' → a'.Clean S := by
  intro a' ha'
  have hpos : ∀ t, (id, t) ∈ tradeEntries S c mid m order.side r.fills referrerId →
      a'.getBalance S t ≠ 0 := by
    intro t ht
    rw [← accountOf_of_lookup ha', h.balance_credits hT]
    exact hleaves _ ht hlate
  have hfilled : ∀ {t}, (id, t) ∈ r.fills.flatMap (m.entriesOf order.side) →
      a'.getBalance S t ≠ 0 := fun ht => hpos _ (List.mem_append_left _ ht)
  have hmk := h.settled.settled.lookup id
  obtain ⟨he, -⟩ | ⟨href, hr, b, hb, hcov, he⟩ := h.settled.referrer.lookup id
  · rw [he, hmk] at ha'
    obtain ⟨a, ha, rfl⟩ := Option.map_eq_some_iff.1 ha'
    refine (hc a ha).of_changes fun k => ?_
    obtain hsame | ⟨t, ht, hk⟩ := lookup_fillsOf (S := S) order.side id k r.fills a
    · exact .inl hsame
    · exact .inr ⟨t, hk, hfilled ht⟩
  · rw [hmk] at hb
    obtain ⟨a, ha, rfl⟩ := Option.map_eq_some_iff.1 hb
    rw [h.net_eq] at hcov he
    rw [he] at ha'
    cases ha'
    have hsaved : RebateSaved S c mid m order.side r.fills id := ⟨a, ha, hcov⟩
    refine (hc a ha).of_changes fun k => ?_
    by_cases hk : k = S.key m.quoteToken.tokenType
    · refine .inr ⟨_, hk.symm, hpos _ (List.mem_append_right _ ?_)⟩
      simp [href, hsaved]
    obtain hsame | ⟨t, ht, hkt⟩ := lookup_fillsOf (S := S) order.side id k r.fills a
    · exact .inl ((AList.lookup_insert_ne hk).trans hsame)
    · exact .inr ⟨t, hkt, hfilled ht⟩

end Traded

/-! ## Effects -/

section Effects

variable (S : Sdk B) (M : Matching B) (c : Contract B)

/-- The taker of the fills `fs` then holds some of the token that it is paid in.  In a
    market of one token a limit order is credited before it is debited, and leaves
    no empty entry. -/
def TakerLeftSome (m : Market B) (taker : AccountId) (p : NewOrderParams) (fs : List Match) :
    Prop :=
  let token := m.sideToken p.side.opposite
  if S.key token = S.key (m.sideToken p.side) then
    p.orderType = .market → (c.accountOf taker).getBalance S token + m.takerGain p.side fs ≠
      m.takerCost p.side fs
  else (c.accountOf taker).getBalance S token + m.takerGain p.side fs ≠ 0

instance (m : Market B) (taker : AccountId) (p : NewOrderParams) (fs : List Match) :
    Decidable (TakerLeftSome S c m taker p fs) :=
  inferInstanceAs (Decidable (ite _ _ _))

/-- An order, with the fills that it finds in the book, leaves its taker, the makers
    and the referrer with some of what they are paid in. -/
def OrderLeavesSome (env : Env) (mid : MarketId) (p : NewOrderParams) : Prop :=
  ∀ m ∈ c.markets.lookup mid, ∀ n ∈ m.orderFor (c.prevOrderSequenceNumber + 1) p,
    TakerLeftSome S c m env.predecessorAccountId p
      (M.fills env.predecessorAccountId n m.orderbook) ∧
    TradeLeavesSome S c mid m p.side (M.fills env.predecessorAccountId n m.orderbook) p.referrerId
      (some env.predecessorAccountId)

/-- The same of a hop, given an amount. -/
def HopLeavesSome (env : Env) (swap : SwapAction) (amount : ℕ) : Prop :=
  ∀ m ∈ c.markets.lookup swap.marketId,
    TradeLeavesSome S c swap.marketId m swap.side (M.fills env.signerAccountId
      (m.swapOrder (c.prevOrderSequenceNumber + 1) swap.side amount) m.orderbook)
      swap.referrerId none

/-- The owner of orders that are cancelled then holds some of what they locked. -/
def CancelLeavesSome (mid : MarketId) (owner : AccountId) (ids : List OrderId) : Prop :=
  ∀ m ∈ c.markets.lookup mid, ∀ x ∈ S.orders m.orderbook, x.id ∈ ids →
    (c.accountOf owner).getBalance S (m.sideToken x.side) +
      refundCredits S m ids (m.sideToken x.side) ≠ 0

instance (env : Env) (mid : MarketId) (p : NewOrderParams) :
    Decidable (OrderLeavesSome S M c env mid p) :=
  inferInstanceAs (Decidable (∀ m ∈ c.markets.lookup mid, ∀ n ∈ m.orderFor _ p, _ ∧ _))

instance (mid : MarketId) (owner : AccountId) (ids : List OrderId) :
    Decidable (CancelLeavesSome S c mid owner ids) :=
  inferInstanceAs (Decidable (∀ m ∈ c.markets.lookup mid, ∀ x ∈ S.orders m.orderbook, _ → _))

/-- Whomever an effect pays in a token then holds some of it. -/
def Effect.LeavesSome : Effect B → Prop
  | credit id token n => (c.accountOf id).getBalance S token + n ≠ 0
  | order env mid p _ => OrderLeavesSome S M c env mid p
  | hop env swap _ amount _ _ => HopLeavesSome S M c env swap amount
  | cancel mid owner ids => CancelLeavesSome S c mid owner ids
  | _ => True

end Effects

/-- No stored account has an entry that is empty. -/
def AllClean (S : Sdk B) (c : Contract B) : Prop :=
  ∀ id a, c.accounts.lookup id = some a → a.Clean S

theorem AllClean.put {id : AccountId} (h : AllClean S c) (ha : a.Clean S) :
    AllClean S (c.putAccount id a) :=
  HMap.forall_insert h ha

theorem takerTokens_eq (m : Market B) (side : Side) (s : Settled) (locked : ℕ) :
    (takerCredit m side s).1 = m.sideToken side.opposite ∧
      (takerDebit m side s locked).1 = m.sideToken side := by
  cases side <;> exact ⟨rfl, rfl⟩

/-- The account of a taker, when it has paid. -/
theorem PathRun.paid_clean {env : Env} {taker : AccountId} {p : NewOrderParams}
    {done : OrderDone B} (h : PathRun S env c mid m taker a p done)
    (ha : c.accounts.lookup taker = some a) (hclean : a.Clean S)
    (hleft : TakerLeftSome S c m taker p done.result.fills) : h.paid.Clean S := by
  obtain ⟨hcredit, hdebit⟩ := takerTokens_eq m p.side h.s h.locked
  have hgain := h.traded.takerGain_eq p.side
  unfold TakerLeftSome at hleft
  rw [accountOf_of_lookup ha, ← hcredit, ← hdebit, ← hgain] at hleft
  have hpos : S.key (takerCredit m p.side h.s).1 ≠ S.key (takerDebit m p.side h.s h.locked).1 →
      a.getBalance S (takerCredit m p.side h.s).1 + (takerCredit m p.side h.s).2 ≠ 0 := by
    intro hkey
    rwa [if_neg hkey] at hleft
  by_cases htype : p.orderType = .market
  · obtain hfirst | hfirst := h.takerPaid
    · exact hclean.credited_first hfirst hpos
    · refine hclean.debited_first hfirst hpos ?_
      intro hkey
      rw [(h.market htype).2.1, h.traded.takerCost_eq]
      rw [if_pos hkey] at hleft
      exact hleft htype
  · exact hclean.credited_first (h.creditedFirst htype) hpos

theorem OrderRun.clean (hT : TokenLaws S) (hM : MatchLaw S M) {env : Env} {p : NewOrderParams}
    {r : PlaceOrderResult} (h : OrderRun S env c mid p r c')
    (hleaves : OrderLeavesSome S M c env mid p) (hclean : AllClean S c) : AllClean S c' := by
  obtain ⟨htaker, htrade⟩ := hleaves h.m h.found h.path.n h.path.order_eq
  rw [← hM.fills h.path.traded.placed] at htaker htrade
  intro id a' ha'
  have haccount : (h.done.contract.putAccount env.predecessorAccountId
      h.done.takerAccount).accounts.lookup id = some a' :=
    (congrArg (fun c => c.accounts.lookup id) h.state).symm.trans ha'
  rw [Contract.lookup_putAccount] at haccount
  split_ifs at haccount with hid
  · cases haccount
    -- the taker's account is the one that paid, but for its orders
    have hpaid := h.path.paid_clean h.account (hclean _ _ h.account) htaker
    intro k v hv
    rw [h.path.takerAccount_eq] at hv
    exact hpaid k v hv
  · rw [← h.path.side] at htrade
    have hlate : some env.predecessorAccountId ≠ some id :=
      fun he => hid (Option.some.inj he).symm
    exact h.path.traded.clean hT hlate (hclean id) htrade a' haccount

theorem HopRun.clean (hT : TokenLaws S) (hM : MatchLaw S M) {env : Env} {swap : SwapAction}
    {out : SwapResult} (h : HopRun S env c swap token n out c')
    (hleaves : HopLeavesSome S M c env swap n) (hclean : AllClean S c) : AllClean S c' := by
  have htrade := hleaves h.m h.found
  rw [← h.order_eq, ← hM.fills h.traded.placed, ← h.side] at htrade
  intro id a' ha'
  have haccount : h.settled.accounts.lookup id = some a' :=
    (congrArg (fun c => c.accounts.lookup id) h.state).symm.trans ha'
  exact h.traded.clean hT (Option.some_ne_none id).symm (hclean id) htrade a' haccount

theorem CancelRun.clean (hB : BookLaws S) (hT : TokenLaws S) {owner : AccountId}
    {ids : List OrderId} (h : CancelRun S c mid owner ids c') (hc : BooksOk S c)
    (hleaves : CancelLeavesSome S c mid owner ids) (hclean : AllClean S c) : AllClean S c' := by
  have hperm := h.cancelled_perm hB (hc mid h.m h.found)
  rw [h.result]
  refine AllClean.put (c := c.internalSaveMarket _ _) hclean ?_
  have hkept : h.kept.balances = h.a.balances := h.forgets.balances
  refine (hclean owner h.a h.account).of_changes fun k => ?_
  obtain hsame | ⟨x, hx, hk⟩ := lookup_refunds (S := S) mid h.m k
    (h.results.map CancelOrderResult.order) h.kept
  · exact .inl (hsame.trans (by rw [hkept]))
  · have hx := List.mem_filter.1 (hperm.mem_iff.1 hx)
    refine .inr ⟨_, hk, ?_⟩
    have hpos := hleaves h.m h.found x hx.1 (of_decide_eq_true hx.2)
    rw [accountOf_of_lookup h.account] at hpos
    have hbal : h.kept.getBalance S (h.m.sideToken x.side) =
        h.a.getBalance S (h.m.sideToken x.side) := by
      rw [Account.getBalance, Account.balance, hkept]
      rfl
    rw [getBalance_refunds hT, (hperm.map _).sum_eq, hbal]
    exact hpos

/-- **No account gets an empty entry if all that are paid then hold some.** -/
theorem Does.clean (hB : BookLaws S) (hT : TokenLaws S) (hM : MatchLaw S M) (h : Does S c e c')
    (hc : BooksOk S c) (he : e.LeavesSome S M c) (hclean : AllClean S c) : AllClean S c' := by
  cases h with
  | @credit id a token n found covered =>
    have hpos : (c.accountOf id).getBalance S token + n ≠ 0 := he
    rw [accountOf_of_lookup found] at hpos
    exact hclean.put ((hclean _ _ found).credit hpos)
  | debit found paid covered => exact hclean.put ((hclean _ _ found).withdraw paid)
  | storage found sum covered =>
    refine hclean.put ?_
    intro k v hv
    obtain found | ⟨-, rfl⟩ := found
    · exact hclean _ _ found k v hv
    · cases hv
  | unregister found empty => exact HMap.forall_erase hclean
  | order run => exact run.clean hT hM he hclean
  | hop run => exact run.clean hT hM he hclean
  | cancel run => exact run.clean hB hT hc he hclean
  | create | delete | setState | setWindow | decimals | admin => exact hclean

/-- No effect leaves a market without orders on an account. -/
theorem Does.tidy (hB : BookLaws S) (h : Does S c e c') (hc : BooksOk S c)
    (ht : ∀ id, (c.accountOf id).Tidy) : ∀ id, (c'.accountOf id).Tidy := by
  intro id
  by_cases hno : e.Reindexes
  · cases h with
    | order run => exact (run.records hB (hc _ _ run.found)).tidy ht id
    | hop run => exact (run.records hB (hc _ _ run.found)).tidy ht id
    | @cancel mid owner ids c' run =>
      rw [run.accountOf_eq]
      split_ifs
      · have hacc := accountOf_of_lookup run.account
        exact (CancelRun.index_refunds run.m _ (run.forgets.tidy (hacc ▸ ht owner))).1
      · exact ht id
    | _ => exact hno.elim
  · exact (index_congr (h.openOrders_eq hno id)).2.2 (ht id)

/-! ## Runs -/

/-- An event each of whose effects, in the state in which it happens, leaves whomever
    it pays in a token with some of it. -/
def LeavesSome (S : Sdk B) (M : Matching B) (s : System B) (ev : Event) : Prop :=
  ∃ es, EachEffect S (fun c e _ => e.LeavesSome S M c) s.contract es
    (System.step S s ev).contract

theorem clean_of_reach (hB : BookLaws S) (hT : TokenLaws S) (hM : MatchLaw S M) {s : System B}
    (hs : System.Reach S (LeavesSome S M) s) : AllClean S s.contract := by
  refine hs.invariant (P := fun s => AllClean S s.contract) ?_ fun s ev hr hok h => ?_
  · rintro s ⟨id, rfl⟩ id' a ha
    cases ha
  · obtain ⟨es, hes⟩ := hok
    exact hes.invariant hB (booksOk_of_reach hB hr)
      (fun _ _ _ head hc holds hclean => head.clean hB hT hM hc holds hclean) h

theorem tidy_of_reach (hB : BookLaws S) {ok : System B → Event → Prop}
    {s : System B} (hs : System.Reach S ok s) (id : AccountId) :
    (s.contract.accountOf id).Tidy := by
  have hboth : BooksOk S s.contract ∧ ∀ id, (s.contract.accountOf id).Tidy :=
    reach_invariant hB (P := fun c => BooksOk S c ∧ ∀ id, (c.accountOf id).Tidy)
      (fun id => ⟨fun _ _ h => (by cases h), fun _ _ _ h => (by cases h)⟩)
      (fun _ _ _ he h => ⟨he.booksOk hB h.1, he.tidy hB h.1 h.2⟩) hs
  exact hboth.2 id

/-- An account without empty entries and empty markets is empty just in case it
    holds nothing. -/
theorem Account.Clean.isEmpty_iff (h : a.Clean S) (ht : a.Tidy) : a.isEmpty = true ↔
    (∀ token, a.getBalance S token = 0) ∧ ∀ mid o, a.getOrderInfo mid o = none := by
  simp only [Account.isEmpty, Bool.and_eq_true, List.isEmpty_iff, HMap.keys_eq_nil_iff]
  constructor
  · rintro ⟨hbal, hord⟩
    refine ⟨fun token => Account.balance_of_lookup_none (hbal _), fun mid o => ?_⟩
    rw [Account.getOrderInfo, hord mid]
    rfl
  · rintro ⟨hbal, hord⟩
    constructor
    · intro k
      rcases hk : a.balances.lookup k with _ | v
      · rfl
      · obtain ⟨hv, t, rfl⟩ := h k v hk
        have hzero := hbal t
        rw [Account.getBalance, Account.balance_of_lookup hk] at hzero
        exact absurd hzero hv
    · intro mid
      rcases hm : a.openOrders.lookup mid with _ | os
      · rfl
      · refine absurd ((HMap.keys_eq_nil_iff os).2 fun o => ?_) (ht mid os hm)
        have hnone := hord mid o
        rw [Account.getOrderInfo, hm] at hnone
        exact hnone

/-- **An account with nothing in it can leave.** In every run each of whose effects
    leaves whomever it pays in a token with some of it, no account has an empty
    entry, an account is empty just in case it holds no token and has no orders,
    and while the contract is active such an account can be unregistered, and gets
    its whole storage balance back. -/
theorem empty_accounts_leave (hB : BookLaws S) (hT : TokenLaws S) (hM : MatchLaw S M)
    {s : System B} (hs : System.Reach S (LeavesSome S M) s) {id : AccountId}
    (ha : s.contract.accounts.lookup id = some a) :
    (∀ k, a.balances.lookup k ≠ some 0) ∧
    (a.isEmpty = true ↔
      (∀ token, a.getBalance S token = 0) ∧ ∀ mid o, a.getOrderInfo mid o = none) ∧
    ((∀ token, a.getBalance S token = 0) → (∀ mid o, a.getOrderInfo mid o = none) →
      s.contract.state = .active → ∀ env, env.predecessorAccountId = id →
      env.attachedDeposit = 1 → storageUnregister env s.contract =
        .ok ([.transfer id a.storageBalance],
          { s.contract with accounts := s.contract.accounts.erase id })) := by
  have hclean := clean_of_reach hB hT hM hs id a ha
  have htidy : a.Tidy := accountOf_of_lookup ha ▸ tidy_of_reach hB hs id
  have hiff := hclean.isEmpty_iff htidy
  refine ⟨fun k hk => (hclean k 0 hk).1 rfl, hiff, ?_⟩
  rintro hbal hord hactive env rfl hdeposit
  have hempty := hiff.2 ⟨hbal, hord⟩
  have hload := Contract.internalUnwrapAccount_eq_ok.2 ha
  have h1 : s.contract.assertActive = .ok () := Checked.require_pos hactive
  have h2 : assertOneYocto env = .ok () := Checked.require_pos hdeposit
  have h3 : assert (a.isEmpty = true) "account not empty" = .ok () := Checked.require_pos hempty
  simp only [storageUnregister, h1, h2, hload, h3, Checked.ok_bind]
  rfl

/-! ## Runs that leave some -/

/-- The effects that pay nobody, or deposit something. -/
def Effect.GivesSome : Effect B → Prop
  | credit _ _ n => n ≠ 0
  | order .. | hop .. | cancel .. => False
  | _ => True

theorem Effect.GivesSome.leavesSome (h : e.GivesSome) : e.LeavesSome S M c := by
  cases e with
  | credit id token n =>
    have hn : n ≠ 0 := h
    unfold LeavesSome
    omega
  | order | hop | cancel => exact h.elim
  | _ => trivial

theorem Effects.givesSome (h : Effects S c es c') (hes : ∀ e ∈ es, e.GivesSome) :
    EachEffect S (fun c e _ => e.LeavesSome S M c) c es c' := by
  induction h with
  | nil c => exact .nil c
  | cons head tail ih =>
    exact .cons head (hes _ List.mem_cons_self).leavesSome
      (ih fun e he => hes e (List.mem_cons_of_mem _ he))

/-- The methods that neither trade nor cancel, and deposit something if anything. -/
def Op.givesSome (env : Env) : Op → Bool
  | depositNear => decide (env.attachedDeposit ≠ 0)
  | ftOnTransfer _ n .empty => decide (n ≠ 0)
  | withdrawNear _ | withdrawFt .. | withdrawMt .. | storageDeposit .. | storageWithdraw _
  | storageUnregister | createMarket _ | setContractState _ | setOwner _ | setMarketState ..
  | setMarketBidWindow .. | setMarketAskWindow .. | adminDeleteMarket _ => true
  | _ => false

theorem Shape.givesSome {env : Env} {op : Op} {ps : List Promise} (h : Shape S c env op ps es)
    (hop : op.givesSome env = true) : ∀ e ∈ es, e.GivesSome := by
  intro e he
  cases h with
  | depositNear | ftDeposit =>
    cases List.mem_singleton.1 he
    have hn : _ ≠ 0 := of_decide_eq_true hop
    exact hn
  | mtDeposit | newOrder | cancelOrder | cancelAllOrders | execute => cases hop
  | swap method hops => obtain ⟨rfl, -⟩ | ⟨rfl, -⟩ := method <;> cases hop
  | adminCancel method cancels =>
    obtain ⟨_, rfl⟩ | ⟨_, rfl⟩ | ⟨_, rfl⟩ := method <;> cases hop
  | storageDeposit sum effects =>
    obtain ⟨rfl, -⟩ | rfl := effects
    · cases he
    · cases List.mem_singleton.1 he
      trivial
  | storageKept | notDeleted => cases he
  | _ =>
    cases List.mem_singleton.1 he
    trivial

theorem Resolution.givesSome {p : Promise} {paid : Option (TokenType × ℕ)}
    (h : Resolution S c p es paid) (hp : ∀ id t n, p ≠ .send id t n) : ∀ e ∈ es, e.GivesSome := by
  intro e he
  cases h with
  | credited => exact absurd rfl (hp _ _ _)
  | metadata subtoken promise callback =>
    cases callback with
    | nothing => cases he
    | _ =>
      cases List.mem_singleton.1 he
      trivial
  | _ => cases he

/-- A check of an event in the state before it: orders and cancellations leave some,
    and the other effects deposit some.  Batches, swaps and what becomes of
    transfers do not pass. -/
def passes (S : Sdk B) (M : Matching B) (s : System B) : Event → Bool
  | .call env (.newOrder mid p) => decide (OrderLeavesSome S M s.contract env mid p)
  | .call env (.cancelOrder mid id) =>
    decide (CancelLeavesSome S s.contract mid env.predecessorAccountId [id])
  | .call env op => op.givesSome env
  | .resolve i _ =>
    match s.pending[i]? with
    | some (.send ..) => false
    | _ => true

theorem leavesSome_of_passes (hB : BookLaws S) {s : System B} {ev : Event}
    (h : passes S M s ev = true) : LeavesSome S M s ev := by
  have hcase := step_cases hB s ev
  unfold LeavesSome
  generalize System.step S s ev = s' at hcase ⊢
  cases hcase with
  | unchanged => exact ⟨[], .nil _⟩
  | @called env op c' ps es performed effects shape =>
    cases op with
    | newOrder mid p =>
      obtain ⟨r, rfl⟩ := shape.of_order.1 mid p rfl
      have hleaves : OrderLeavesSome S M s.contract env mid p := of_decide_eq_true h
      exact ⟨_, .cons effects.of_single hleaves (.nil _)⟩
    | cancelOrder mid id =>
      obtain rfl := shape.of_order.2 mid id rfl
      have hleaves : CancelLeavesSome S s.contract mid env.predecessorAccountId [id] :=
        of_decide_eq_true h
      exact ⟨_, .cons effects.of_single hleaves (.nil _)⟩
    | _ => exact ⟨_, effects.givesSome (shape.givesSome h)⟩
  | resolved paid promise effects resolution =>
    refine ⟨_, effects.givesSome (resolution.givesSome ?_)⟩
    rintro id t n rfl
    simp [passes, promise] at h

/-- The check of a run. -/
def allPass (S : Sdk B) (M : Matching B) : System B → List Event → Bool
  | _, [] => true
  | s, ev :: evs => passes S M s ev && allPass S M (System.step S s ev) evs

theorem reach_of_allPass (hB : BookLaws S) : ∀ {evs : List Event} {s : System B},
    System.Reach S (LeavesSome S M) s → allPass S M s evs = true →
      System.Reach S (LeavesSome S M) (evs.foldl (System.step S) s)
  | [], _, hs, _ => hs
  | ev :: evs, s, hs, h => by
    obtain ⟨hpass, hrest⟩ := Bool.and_eq_true_iff.1 h
    rw [List.foldl_cons]
    exact reach_of_allPass hB (.step hs (leavesSome_of_passes hB hpass)) hrest

/-- Alice, who has some of both tokens, asks for `usd`, Bob buys some of her `btc`, and
    she cancels the rest of her order. -/
def traded : List Event := Engine.listed ++ [Engine.pay Engine.btc Engine.alice 1000,
  Engine.pay Engine.usd Engine.alice 5, Engine.pay Engine.usd Engine.bob 100000,
  .call (Engine.calling Engine.alice 0)
    (.newOrder Engine.btcUsd (Engine.order .sell .limit 20 1000 none)),
  .call (Engine.calling Engine.bob 0) (Engine.bobBuys (some Engine.dao)),
  .call (Engine.calling Engine.alice 0) (.cancelOrder Engine.btcUsd 1)]

theorem reach_traded : System.Reach Engine.sdk (LeavesSome Engine.sdk Engine.matching)
    (Engine.run traded) :=
  reach_of_allPass Engine.bookLaws (.init ⟨Engine.dao, rfl⟩) (by decide +kernel)

/-- Then she withdraws all that she has. -/
def tradedOut : List Event := traded ++
  [.call (Engine.calling Engine.alice 1) (.withdrawFt Engine.usd 1190),
    .call (Engine.calling Engine.alice 1) (.withdrawFt Engine.btc 410)]

/-- She can leave. -/
theorem empty_accounts_leave_emptied : ∃ a,
    (Engine.run tradedOut).contract.accounts.lookup Engine.alice = some a ∧
      storageUnregister (Engine.calling Engine.alice 1) (Engine.run tradedOut).contract =
        .ok ([.transfer Engine.alice a.storageBalance], { (Engine.run tradedOut).contract with
          accounts := (Engine.run tradedOut).contract.accounts.erase Engine.alice }) := by
  have hs : System.Reach Engine.sdk (LeavesSome Engine.sdk Engine.matching)
      (Engine.run tradedOut) :=
    reach_of_allPass Engine.bookLaws (.init ⟨Engine.dao, rfl⟩) (by decide +kernel)
  have hempty : ((Engine.run tradedOut).contract.accounts.lookup Engine.alice).map (fun a =>
      (a.balances.keys, a.openOrders.keys)) = some ([], []) := by decide +kernel
  obtain ⟨a, ha, hempty⟩ := Option.map_eq_some_iff.1 hempty
  obtain ⟨hbal, hord⟩ := Prod.mk.inj hempty
  obtain ⟨-, -, hleave⟩ :=
    empty_accounts_leave Engine.bookLaws Engine.tokenLaws Engine.matchLaw hs ha
  refine ⟨a, ha, hleave (fun token => ?_) (fun mid o => ?_) (by decide +kernel) _ rfl rfl⟩
  · exact Account.balance_of_lookup_none ((HMap.keys_eq_nil_iff _).1 hbal _)
  · rw [Account.getOrderInfo, (HMap.keys_eq_nil_iff _).1 hord mid]
    rfl

/-- Bob places a bid, cancels it, and withdraws all he deposited. -/
def cancelled : List Event := Engine.listed ++ [Engine.pay Engine.usd Engine.bob 1000,
  .call (Engine.calling Engine.bob 0)
    (.newOrder Engine.btcUsd (Engine.order .buy .limit 10 1000 none)),
  .call (Engine.calling Engine.bob 0) (.cancelAllOrders Engine.btcUsd),
  .call (Engine.calling Engine.bob 1) (.withdrawFt Engine.usd 1000)]

/-- He is left with an entry of nothing, and cannot leave. -/
theorem empty_account_stays : System.Reachable Engine.sdk (Engine.run cancelled) ∧
    (Engine.run cancelled).contract.state = .active ∧
    ((Engine.run cancelled).contract.accounts.lookup Engine.bob).map (fun a =>
      (a.balances.keys, a.balances.lookup "ft:btc.near", a.openOrders.keys, a.isEmpty)) =
        some (["ft:btc.near"], some 0, [], false) ∧
    storageUnregister (Engine.calling Engine.bob 1) (Engine.run cancelled).contract =
      .error (.message "account not empty") := by
  refine ⟨Engine.reachable_run cancelled, rfl, by decide +kernel, ?_⟩
  exact Engine.eq_error_of_stoppedBy (by decide +kernel)

end TonicDex
