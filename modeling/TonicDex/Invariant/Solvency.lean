/-
  Solvency.

  `Does.flow` says that no effect takes more out of the contract than it brings
  in, unless it rescales a market (`KeepsScale`).  With what each method
  promises and is paid (`Shape.covered`), every step of the system keeps
  `Backed`: what the contract attributes to somebody, the storage deposits and
  the promised payments are covered by what was received and not sent out.

  A change of a market's base decimals would change the value of its bids.  It
  cannot happen while there are any: the decimals are invalid until the token
  contract answers, and with invalid decimals no order can be placed
  (`Priced`, `AwaitsBase`).  `Solvent` is `Backed` with that.

  What a market attributes in its base token and in its quote token can be told
  apart if they are two.  But `create_market` compares the keys it is given, and
  two keys may be read as one token (`TwoTokens`).
-/
import Mathlib.Algebra.Order.BigOperators.Group.List
import Mathlib.Algebra.Order.Group.Nat
import TonicDex.Engine.Library
import TonicDex.Spec.Listing

namespace TonicDex

variable {B : Type} {S : Sdk B} {c c' : Contract B} {e : Effect B} {es : List (Effect B)}

/-! ## Storage deposits -/

/-- The NEAR deposited for storage. -/
def Contract.storageTotal (c : Contract B) : ℕ := c.accounts.total fun _ a => a.storageBalance

theorem storageTotal_putAccount {id : AccountId} {a : Account}
    (h : c.accounts.lookup id = some a) {a' : Account}
    (hs : a'.storageBalance = a.storageBalance) :
    (c.putAccount id a').storageTotal = c.storageTotal :=
  HMap.total_insert_same h hs

/-- Trades leave storage deposits alone. -/
theorem Traded.storageTotal_eq {mid : MarketId} {m m' : Market B} {taker : AccountId}
    {n : NewOrder} {referrerId : Option AccountId} {r : PlaceOrderResult} {s : Settled}
    (h : Traded S c mid m taker n referrerId r m' s c') : c'.storageTotal = c.storageTotal := by
  have hmk := h.settled.settled.total_eq (w := Account.storageBalance) (g := fun _ => 0)
    fun a f _ => storageBalance_afterFill
  have href := h.settled.referrer.total_eq (w := Account.storageBalance) (g := fun _ => 0) rfl
    fun a => rfl
  have hzero : (r.fills.map fun _ => 0).sum = 0 := by simp
  rw [hzero] at hmk
  exact href.trans hmk

theorem OrderRun.storageTotal_eq {env : Env} {mid : MarketId} {p : NewOrderParams}
    {r : PlaceOrderResult} (hB : BookLaws S) (h : OrderRun S env c mid p r c')
    (hok : MarketOk S c.prevOrderSequenceNumber h.m) : c'.storageTotal = c.storageTotal := by
  obtain ⟨b, hb, hsb, -⟩ := h.taker_settled hB hok
  have hput := storageTotal_putAccount hb (h.path.storageBalance.trans hsb.symm)
  rw [congrArg Contract.storageTotal h.state]
  exact hput.trans h.path.traded.storageTotal_eq

theorem CancelRun.storageTotal_eq {mid : MarketId} {owner : AccountId} {ids : List OrderId}
    (h : CancelRun S c mid owner ids c') : c'.storageTotal = c.storageTotal := by
  rw [congrArg Contract.storageTotal h.result]
  exact storageTotal_putAccount h.account
    ((storageBalance_refunds mid h.m _ _).trans h.forgets.storageBalance)

/-! ## The flow of an effect -/

/-- All that the contract owes of `token`. -/
def Contract.owed (S : Sdk B) (c : Contract B) (token : TokenType) : ℕ :=
  c.attributed S token + amountOf (.nativeNear, c.storageTotal) token

/-- What an effect brings in. -/
def Effect.inflow : Effect B → TokenType × ℕ
  | credit _ token n => (token, n)
  | storage _ inn _ => (.nativeNear, inn)
  | hop _ _ token amount _ _ => (token, amount)
  | _ => (.nativeNear, 0)

/-- What an effect takes out. -/
def Effect.outflow : Effect B → TokenType × ℕ
  | debit _ token n => (token, n)
  | storage _ _ out => (.nativeNear, out)
  | unregister _ n => (.nativeNear, n)
  | hop _ _ _ _ out _ => (out.outputToken, out.outputAmount)
  | _ => (.nativeNear, 0)

/-- A market that holds the same can be saved. -/
theorem attributed_saveMarket_eq {mid : MarketId} {m : Market B} {token : TokenType}
    (h : c.markets.lookup mid = some m) {m' : Market B}
    (hm : m'.attributed S token = m.attributed S token) :
    (c.internalSaveMarket mid m').attributed S token = c.attributed S token := by
  have := attributed_saveMarket (S := S) h m' token
  omega

theorem lockedOn_of_orders_nil {m : Market B} (h : S.orders m.orderbook = []) (side : Side) :
    m.lockedOn S side = 0 := by
  obtain ⟨hasks, hbids⟩ := List.append_eq_nil_iff.1 h
  unfold Market.lockedOn
  cases side with
  | buy => rw [Sdk.resting, hbids]; rfl
  | sell => rw [Sdk.resting, hasks]; rfl

/-- Decimals change what a market holds only if they are new base decimals and
    orders rest. -/
theorem attributed_setDecimals {mid : MarketId} {m : Market B} {side : PairSide} {d : ℕ}
    {state : MarketState} (hm : c.markets.lookup mid = some m)
    (hok : ¬ (Effect.decimals mid side d state : Effect B).Rescales S c) (token : TokenType) :
    { m.setDecimals side d with state }.attributed S token = m.attributed S token := by
  cases side with
  | quote => rfl
  | base =>
    by_cases hd : d = m.baseToken.decimals
    · subst hd
      rfl
    have hnil : S.orders m.orderbook = [] := by
      by_contra hne
      exact hok ⟨m, hm, hne, hd⟩
    have hzero := lockedOn_of_orders_nil hnil
    have hzero' : ∀ side, { m.setDecimals .base d with state }.lockedOn S side = 0 :=
      lockedOn_of_orders_nil hnil
    simp only [Market.attributed, Market.locked, hzero, hzero']
    rfl

/-- What is owed to the holder of an account. -/
def Account.owed (S : Sdk B) (a : Account) (token : TokenType) : ℕ :=
  a.getBalance S token + amountOf (.nativeNear, a.storageBalance) token

/-- Saving an account, new or not, replaces what is owed to its holder. -/
theorem owed_putAccount {id : AccountId} {a : Account}
    (h : c.accounts.lookup id = some a ∨ c.accounts.lookup id = none ∧ a = .new) (a' : Account)
    (token : TokenType) : (c.putAccount id a').owed S token + a.owed S token =
      c.owed S token + a'.owed S token := by
  have hatt := HMap.total_insert_add c.accounts (fun _ a => a.getBalance S token) id a'
  have hst := HMap.total_insert_add c.accounts (fun _ a => a.storageBalance) id a'
  have hold : (c.accounts.lookup id).elim 0 (fun a => a.getBalance S token) =
      a.getBalance S token ∧ (c.accounts.lookup id).elim 0 Account.storageBalance =
        a.storageBalance := by
    obtain he | ⟨he, rfl⟩ := h
    · rw [he]; exact ⟨rfl, rfl⟩
    · rw [he]; exact ⟨rfl, rfl⟩
  rw [hold.1] at hatt
  rw [hold.2] at hst
  simp only [Contract.owed, Account.owed, Contract.attributed, Contract.balances,
    Contract.storageTotal, Contract.putAccount, amountOf] at hatt hst ⊢
  split_ifs <;> omega

/-- Removing an account takes away what is owed to its holder. -/
theorem owed_eraseAccount {id : AccountId} {a : Account} (h : c.accounts.lookup id = some a)
    (token : TokenType) : { c with accounts := c.accounts.erase id }.owed S token +
      a.owed S token = c.owed S token := by
  have hatt := HMap.total_erase_add c.accounts (fun _ a => a.getBalance S token) id
  have hst := HMap.total_erase_add c.accounts (fun _ a => a.storageBalance) id
  rw [h] at hatt hst
  simp only [Contract.owed, Account.owed, Contract.attributed, Contract.balances,
    Contract.storageTotal, amountOf, Option.elim_some] at hatt hst ⊢
  split_ifs <;> omega

theorem Account.owed_credit (hT : TokenLaws S) (a : Account) (t : TokenType) (n : ℕ)
    (token : TokenType) :
    (a.credit (S.key t) n).owed S token = a.owed S token + amountOf (t, n) token := by
  simp only [owed, getBalance, balance_credit, storageBalance_credit, hT.key_injective.eq_iff,
    amountOf]
  omega

theorem Account.owed_withdraw (hT : TokenLaws S) {a a' : Account} {t : TokenType} {n : ℕ}
    (h : a.withdraw S t n = .ok a') (token : TokenType) :
    a'.owed S token + amountOf (t, n) token = a.owed S token := by
  have hbal := TakerPaid.withdraw_balance h (S.key token)
  have hsame : a'.storageBalance = a.storageBalance := by
    rw [← (withdraw_eq_ok.1 h).2]; rfl
  simp only [hT.key_injective.eq_iff] at hbal
  simp only [owed, getBalance, hsame, amountOf]
  omega

/-- **No effect takes more out of the contract than it brings in.** -/
theorem Does.flow (hB : BookLaws S) (hT : TokenLaws S) (h : Does S c e c') (hc : BooksOk S c)
    (hok : ¬ e.Rescales S c) (token : TokenType) :
    c'.owed S token + amountOf e.outflow token ≤ c.owed S token + amountOf e.inflow token := by
  cases h with
  | @credit id a t n found covered =>
    have hput := owed_putAccount (S := S) (.inl found) (a.credit (S.key t) n) token
    rw [Account.owed_credit hT] at hput
    simp only [Effect.inflow, Effect.outflow, amountOf_zero]
    omega
  | @debit id a a' t n found paid covered =>
    have hput := owed_putAccount (S := S) (.inl found) a' token
    have hpaid := Account.owed_withdraw hT paid token
    simp only [Effect.inflow, Effect.outflow, amountOf_zero]
    omega
  | @storage id a inn out total found sum covered =>
    have hput := owed_putAccount (S := S) found { a with storageBalance := total } token
    have hsame : { a with storageBalance := total }.getBalance S token = a.getBalance S token := rfl
    simp only [Account.owed, hsame] at hput
    simp only [Effect.inflow, Effect.outflow]
    simp only [amountOf] at hput ⊢
    split_ifs at hput ⊢ <;> omega
  | @unregister id a found empty =>
    have herase := owed_eraseAccount (S := S) found token
    simp only [Effect.inflow, Effect.outflow, amountOf_zero]
    unfold Account.owed at herase
    omega
  | @order env mid p r c' run =>
    have hm := hc _ _ run.found
    have := run.attributed_le hB hT hm token
    simp only [Contract.owed, Effect.inflow, Effect.outflow, run.storageTotal_eq hB hm]
    omega
  | @hop env swap t amount out c' run =>
    have hst : c'.storageTotal = c.storageTotal := by
      rw [congrArg Contract.storageTotal run.state]
      exact run.traded.storageTotal_eq
    have := run.attributed_le hB hT (hc _ _ run.found) token
    simp only [Contract.owed, Effect.inflow, Effect.outflow, hst]
    omega
  | cancel run =>
    unfold Contract.owed
    rw [run.storageTotal_eq, run.attributed_eq hB hT (hc _ _ run.found)]
    exact le_rfl
  | @create mid m new fresh =>
    have hatt := HMap.total_insert_add c.markets (fun _ m => m.attributed S token) mid m
    have hnil := fresh.orders hB
    have hzero : m.attributed S token = 0 := by
      simp only [Market.attributed, Market.locked, lockedOn_of_orders_nil hnil, fresh.fees]
      split_ifs <;> rfl
    rw [new, hzero] at hatt
    simp only [Contract.owed, Effect.inflow, Effect.outflow, Contract.attributed,
      Contract.balances, Contract.storageTotal, Contract.internalSaveMarket,
      Option.elim_none] at hatt ⊢
    omega
  | @delete mid m ids found can =>
    have hatt := HMap.total_erase_add c.markets (fun _ m => m.attributed S token) mid
    simp only [Contract.owed, Effect.inflow, Effect.outflow, Contract.attributed,
      Contract.balances, Contract.storageTotal] at hatt ⊢
    omega
  | @setState mid m state found =>
    have hsame : (m.setState state).attributed S token = m.attributed S token := rfl
    unfold Contract.owed
    rw [attributed_saveMarket_eq found hsame]
    exact le_rfl
  | @setWindow mid m bid ask found =>
    have hsame : { m with minimumBidBps := bid, maximumAskBps := ask }.attributed S token =
        m.attributed S token := rfl
    unfold Contract.owed
    rw [attributed_saveMarket_eq found hsame]
    exact le_rfl
  | @decimals mid m side d state found =>
    unfold Contract.owed
    rw [attributed_saveMarket_eq found (attributed_setDecimals found hok token)]
    exact le_rfl
  | admin owner state => exact le_rfl

/-! ## The flow of a call -/

/-- What a list of effects brings in. -/
def inflows (es : List (Effect B)) (token : TokenType) : ℕ :=
  (es.map fun e => amountOf e.inflow token).sum

/-- What a list of effects takes out. -/
def outflows (es : List (Effect B)) (token : TokenType) : ℕ :=
  (es.map fun e => amountOf e.outflow token).sum

theorem EachEffect.flow (hB : BookLaws S) (hT : TokenLaws S) (token : TokenType)
    (h : EachEffect S (fun c e _ => ¬ e.Rescales S c) c es c') (hc : BooksOk S c) :
    c'.owed S token + outflows es token ≤ c.owed S token + inflows es token := by
  induction h with
  | nil c => exact le_rfl
  | cons head holds tail ih =>
    have h1 := head.flow hB hT hc holds token
    have h2 := ih (head.booksOk hB hc)
    simp only [outflows, inflows, List.map_cons, List.sum_cons] at h2 ⊢
    omega

/-- What a promise pays. -/
def Promise.value : Promise → TokenType × ℕ
  | transfer _ n => (.nativeNear, n)
  | send _ token n => (token, n)
  | _ => (.nativeNear, 0)

/-- What a list of promises pays. -/
def promised (ps : List Promise) (token : TokenType) : ℕ :=
  (ps.map fun p => amountOf p.value token).sum

/-- What is handed over with a call. -/
def paidTotal (env : Env) (op : Op) (token : TokenType) : ℕ :=
  ((paidIn env op).map fun x => amountOf x token).sum

theorem foldl_tally (token : TokenType) : ∀ (xs : List (TokenType × ℕ)) (f : TokenType → ℕ),
    xs.foldl (fun f x => tally f x.1 x.2) f token =
      f token + (xs.map fun x => amountOf x token).sum
  | [], f => rfl
  | (t, n) :: xs, f => by
    rw [List.foldl_cons, foldl_tally token xs, List.map_cons, List.sum_cons, tally, amountOf]
    split_ifs <;> omega

theorem promised_transfers (id : AccountId) (n : ℕ) (token : TokenType) :
    promised (transfers id n) token = amountOf (.nativeNear, n) token := by
  unfold transfers promised
  split_ifs with hn
  · exact Nat.add_zero _
  · obtain rfl : n = 0 := by omega
    exact (amountOf_zero _ _).symm

/-- Asking for metadata costs nothing. -/
theorem promised_metadata (mid : MarketId) (m : Market B) (token : TokenType) :
    promised (metadataPromises mid m) token = 0 := by
  have hside : ∀ side t, promised (getDecimalsForToken mid side t).2 token = 0 := by
    intro side t
    cases t with
    | nativeNear => rfl
    | fungibleToken id => exact amountOf_zero _ _
    | multiFungibleToken id i => exact amountOf_zero _ _
  have hadd := congrArg₂ (· + ·) (hside .base m.baseToken.tokenType)
    (hside .quote m.quoteToken.tokenType)
  rw [promised, metadataPromises, List.map_append, List.sum_append]
  exact hadd

/-- A chain of hops passes on what it is given. -/
theorem Hops.flow {env : Env} {swaps : List SwapAction} {x y : TokenType × ℕ}
    (h : Hops env swaps x es y) (token : TokenType) :
    inflows es token + amountOf y token = outflows es token + amountOf x token := by
  induction h with
  | nil x => rfl
  | @cons swap swaps t n out fills es x rest ih =>
    have hin : (Effect.hop env swap t n out fills : Effect B).inflow = (t, n) := rfl
    have hout : (Effect.hop env swap t n out fills : Effect B).outflow =
        (out.outputToken, out.outputAmount) := rfl
    simp only [inflows, outflows, List.map_cons, List.sum_cons, hin, hout] at ih ⊢
    omega

/-- Effects without tokens. -/
theorem flows_of_forall (h : ∀ e ∈ es, e.inflow.2 = 0 ∧ e.outflow.2 = 0) (token : TokenType) :
    inflows es token = 0 ∧ outflows es token = 0 := by
  have hz : ∀ x : TokenType × ℕ, x.2 = 0 → amountOf x token = 0 := by
    rintro ⟨t, n⟩ rfl
    exact amountOf_zero t token
  constructor
  · refine List.sum_eq_zero fun n hn => ?_
    obtain ⟨e, he, rfl⟩ := List.mem_map.1 hn
    exact hz _ (h e he).1
  · refine List.sum_eq_zero fun n hn => ?_
    obtain ⟨e, he, rfl⟩ := List.mem_map.1 hn
    exact hz _ (h e he).2

/-- **What a call promises is covered** by what its effects take out, and what
    they bring in by what was paid with the call. -/
theorem Shape.covered {env : Env} {op : Op} {ps : List Promise} (h : Shape S c env op ps es)
    (token : TokenType) :
    inflows es token + promised ps token ≤ outflows es token + paidTotal env op token := by
  cases h with
  | depositNear => exact Nat.le_add_left _ _
  | @withdraw op t n pos method =>
    have hpaid : paidTotal env op token = 0 := by
      obtain rfl | ⟨_, rfl⟩ | ⟨_, _, rfl⟩ := method <;> rfl
    have hin : inflows [(Effect.debit env.predecessorAccountId t n : Effect B)] token = 0 :=
      amountOf_zero _ _
    rw [hpaid, hin, Nat.zero_add]
    exact le_rfl
  | ftDeposit => exact Nat.le_add_left _ _
  | @mtDeposit ids tokens ns =>
    simp only [inflows, paidTotal, paidIn, promised, List.map_map, List.map_nil, List.sum_nil]
    exact Nat.le_add_left _ _
  | @swap op id x y swaps es method hops =>
    have hflow := hops.flow token
    have hpaid : paidTotal env op token = amountOf x token := by
      obtain ⟨t, n⟩ := x
      obtain ⟨rfl, -, hx⟩ | ⟨rfl, hx⟩ := method
      · rw [hx]; exact Nat.add_zero _
      · simp only at hx
        rw [hx]; exact Nat.add_zero _
    have hsend : promised (if 0 < y.2 then [.send id y.1 y.2] else []) token ≤
        amountOf y token := by
      split_ifs
      · exact (Nat.add_zero _).le
      · exact Nat.zero_le _
    omega
  | @storageDeposit id only inn refund es sum effects =>
    rw [promised_transfers]
    have hpaid : paidTotal env (.storageDeposit id only) token =
        amountOf (.nativeNear, env.attachedDeposit) token := Nat.add_zero _
    have hin : inflows es token = amountOf (.nativeNear, inn) token := by
      obtain ⟨rfl, rfl⟩ | rfl := effects
      · exact (amountOf_zero _ _).symm
      · exact Nat.add_zero _
    rw [hpaid, hin]
    simp only [amountOf]
    split_ifs <;> omega
  | storageKept => exact Nat.zero_le _
  | @storageWithdraw n out pos =>
    have hin : inflows [(Effect.storage env.predecessorAccountId 0 out : Effect B)] token = 0 :=
      amountOf_zero _ _
    rw [hin, Nat.zero_add]
    exact le_rfl
  | @storageUnregister n =>
    have hin : inflows [(Effect.unregister env.predecessorAccountId n : Effect B)] token = 0 :=
      amountOf_zero _ _
    rw [hin, Nat.zero_add]
    exact le_rfl
  | @createMarket args mid m refund le =>
    have hps : promised (metadataPromises mid m ++ transfers env.predecessorAccountId refund)
        token = amountOf (.nativeNear, refund) token := by
      rw [← promised_transfers env.predecessorAccountId refund token, promised, List.map_append,
        List.sum_append]
      exact (congrArg (· + _) (promised_metadata mid m token)).trans (Nat.zero_add _)
    have hin : inflows [(Effect.create mid m : Effect B)] token = 0 := amountOf_zero _ _
    have hpaid : paidTotal env (.createMarket args) token =
        amountOf (.nativeNear, env.attachedDeposit) token := Nat.add_zero _
    rw [hps, hin, hpaid]
    simp only [amountOf]
    split_ifs <;> omega
  | newOrder | cancelOrder | cancelAllOrders | setMarketState | notDeleted | deleted =>
    exact Nat.le_of_eq (by simp [inflows, outflows, promised, Effect.inflow, Effect.outflow,
      paidTotal, paidIn])
  | execute trades =>
    obtain ⟨hin, hout⟩ := flows_of_forall (fun e he => by
      obtain _ | _ := trades e he <;> exact ⟨rfl, rfl⟩) token
    rw [hin, hout]
    exact Nat.zero_le _
  | admin method =>
    have hin : inflows [(Effect.admin : Effect B)] token = 0 := amountOf_zero _ _
    rw [hin]
    exact Nat.zero_le _
  | @setWindow op mid method =>
    have hin : inflows [(Effect.setWindow mid : Effect B)] token = 0 := amountOf_zero _ _
    rw [hin]
    exact Nat.zero_le _
  | adminCancel method cancels =>
    obtain ⟨hin, hout⟩ := flows_of_forall (fun e he => by
      obtain ⟨owner, ids, rfl, -⟩ := cancels e he
      exact ⟨rfl, rfl⟩) token
    rw [hin, hout]
    exact Nat.zero_le _

/-! ## Runs -/

/-- What a resolution brings in and pays was promised. -/
theorem Resolution.covered {p : Promise} {paid : Option (TokenType × ℕ)}
    (h : Resolution S c p es paid) (token : TokenType) :
    inflows es token + paid.elim 0 (amountOf · token) ≤ amountOf p.value token := by
  cases h with
  | transferred | sent => exact (Nat.zero_add _).le
  | transferFailed | lost => exact Nat.zero_le _
  | credited => exact le_rfl
  | metadata subtoken promise callback =>
    have hzero : ∀ t : TokenType, amountOf (t, 0) token + 0 + 0 = 0 :=
      fun t => amountOf_zero t token
    cases callback with
    | nothing => exact Nat.zero_le _
    | unchanged | ft | mt => exact (hzero _).le.trans (Nat.zero_le _)

/-- What is owed, promised or sent out was received. -/
structure Backed (S : Sdk B) (s : System B) : Prop where
  books : BooksOk S s.contract
  covered : ∀ token, s.contract.owed S token + promised s.pending token + s.sent token ≤
    s.received token

theorem Backed.init (id : AccountId) : Backed S (System.init id) where
  books := fun _ _ h => by cases h
  covered := fun token => by
    have hzero : (Contract.new id : Contract B).owed S token = 0 := by
      change 0 + amountOf (.nativeNear, 0) token = 0
      rw [amountOf_zero]
    exact hzero.le

/-- **Every step that keeps the scale of the markets keeps the contract backed.** -/
theorem Backed.step (hB : BookLaws S) (hT : TokenLaws S) {s : System B} {ev : Event}
    (hok : KeepsScale S s ev) (h : Backed S s) : Backed S (System.step S s ev) := by
  unfold KeepsScale at hok
  have hcase := step_cases hB s ev
  generalize System.step S s ev = s' at hcase hok ⊢
  cases hcase with
  | unchanged => exact h
  | @called env op c' ps es performed effects shape =>
    have heach := effects.each hB h.books fun e he c _ _ _ => shape.not_rescales e he c
    refine ⟨heach.booksOk hB h.books, fun token => ?_⟩
    have hflow := heach.flow hB hT token h.books
    have hcov := shape.covered token
    have hold := h.covered token
    have hsum : promised (s.pending ++ ps) token =
        promised s.pending token + promised ps token := by
      rw [promised, List.map_append, List.sum_append]; rfl
    simp only [foldl_tally, hsum]
    unfold paidTotal at hcov
    omega
  | @resolved i out p c' es paid promise effects resolution =>
    have heach := resolution.not_rescales effects hok
    refine ⟨heach.booksOk hB h.books, fun token => ?_⟩
    have hold := h.covered token
    have hcov := resolution.covered token
    have hflow := heach.flow hB hT token h.books
    have hpend : amountOf p.value token + promised (s.pending.eraseIdx i) token =
        promised s.pending token := by
      have := ((System.pending_perm promise).map fun p => amountOf p.value token).sum_eq
      rwa [List.map_cons, List.sum_cons] at this
    have hsent : (paid.elim s.sent fun x => tally s.sent x.1 x.2) token =
        s.sent token + paid.elim 0 (amountOf · token) := by
      rcases paid with _ | ⟨t, n⟩
      · rfl
      · simp only [Option.elim_some, tally, amountOf]
        split_ifs <;> rfl
    simp only [hsent]
    omega

theorem backed_of_reach (hB : BookLaws S) (hT : TokenLaws S) {ok : System B → Event → Prop}
    (hok : ∀ s ev, ok s ev → KeepsScale S s ev) {s : System B} (hs : System.Reach S ok s) :
    Backed S s := by
  refine hs.invariant ?_ fun s ev _ hev h => h.step hB hT (hok s ev hev)
  rintro s ⟨id, rfl⟩
  exact .init id

/-- What holds in runs without deletions: the contract is backed, and stays so
    because the scale of the markets is kept. -/
structure Solvent (S : Sdk B) (s : System B) : Prop where
  books : BooksOk S s.contract
  priced : Priced S s.contract
  awaits : AwaitsBase s
  covered : ∀ token, s.contract.owed S token + promised s.pending token + s.sent token ≤
    s.received token

theorem Solvent.init (id : AccountId) : Solvent S (System.init id) where
  books := (Backed.init id).books
  priced := fun _ _ h => by cases h
  awaits := fun _ => ⟨Nat.zero_le _, fun h => absurd h (Nat.lt_irrefl 0)⟩
  covered := (Backed.init id).covered

/-- **Every step keeps the contract solvent.** -/
theorem Solvent.step (hB : BookLaws S) (hT : TokenLaws S) {s : System B} {ev : Event}
    (hok : NoDelete s ev) (h : Solvent S s) : Solvent S (System.step S s ev) := by
  have hkeeps := h.awaits.keepsScale hB hok h.books h.priced
  have hbacked := Backed.step hB hT hkeeps ⟨h.books, h.covered⟩
  obtain ⟨es, heach⟩ := hkeeps.each hB h.books
  exact ⟨hbacked.books, heach.invariant hB h.books
    (fun _ _ _ head hc hcalm hP => head.priced hB hc hcalm hP) h.priced,
    h.awaits.step hB hok h.books, hbacked.covered⟩

theorem solvent_of_reach (hB : BookLaws S) (hT : TokenLaws S) {s : System B}
    (hs : System.Reach S NoDelete s) : Solvent S s := by
  refine hs.invariant ?_ fun s ev _ hok h => h.step hB hT hok
  rintro s ⟨id, rfl⟩
  exact .init id

/-! ## What is attributed and in flight -/

/-- The tokens in flight: promised by `internal_send`, and not yet resolved. -/
def System.inFlight (s : System B) (token : TokenType) : ℕ :=
  (s.pending.map fun
    | .send _ t n => if token = t then n else 0
    | _ => 0).sum

theorem System.inFlight_le (s : System B) (token : TokenType) :
    s.inFlight token ≤ promised s.pending token := by
  refine List.sum_le_sum fun p _ => ?_
  cases p with
  | send id t n => exact le_rfl
  | _ => exact Nat.zero_le _

/-- The market in which a method places or cancels orders. -/
def Op.tradesIn : Op → Option MarketId
  | newOrder mid _ | cancelOrder mid _ | cancelAllOrders mid | adminCancelOrder mid _
  | adminCancelAllUserOrders mid _ | adminClearOrderbook mid _ => some mid
  | _ => none

theorem Effects.cancels_eq (hB : BookLaws S) (hT : TokenLaws S) (token : TokenType)
    (h : Effects S c es c') (hc : BooksOk S c)
    (hes : ∀ e ∈ es, ∃ mid owner ids, e = .cancel mid owner ids) :
    c'.attributed S token = c.attributed S token := by
  induction h with
  | nil c => rfl
  | @cons c c₁ c' e es head tail ih =>
    obtain ⟨mid, owner, ids, rfl⟩ := hes _ (List.mem_cons_self ..)
    rw [ih (head.booksOk hB hc) fun e he => hes e (List.mem_cons_of_mem _ he)]
    cases head with
    | cancel run => exact run.attributed_eq hB hT (hc _ _ run.found) token

/-- The effects of such a method: one order, or only cancellations. -/
theorem Shape.tradesIn {env : Env} {op : Op} {ps : List Promise} {mid : MarketId}
    (h : Shape S c env op ps es) (hop : op.tradesIn = some mid) :
    (∃ p r, es = [.order env mid p r]) ∨ ∀ e ∈ es, ∃ mid owner ids, e = .cancel mid owner ids := by
  cases h with
  | newOrder =>
    cases hop
    exact .inl ⟨_, _, rfl⟩
  | cancelOrder | cancelAllOrders =>
    exact .inr (List.forall_mem_singleton.2 ⟨_, _, _, rfl⟩)
  | adminCancel method cancels =>
    refine .inr fun e he => ?_
    obtain ⟨owner, ids, rfl, -⟩ := cancels e he
    exact ⟨_, owner, ids, rfl⟩
  | withdraw pos method => obtain rfl | ⟨_, rfl⟩ | ⟨_, _, rfl⟩ := method <;> cases hop
  | swap method hops => obtain ⟨rfl, -⟩ | ⟨rfl, -⟩ := method <;> cases hop
  | admin method => obtain ⟨_, rfl⟩ | ⟨_, rfl⟩ := method <;> cases hop
  | setWindow method => obtain ⟨_, rfl⟩ | ⟨_, rfl⟩ := method <;> cases hop
  | _ => cases hop

/-- The event creates no market of a token with itself. -/
def TwoTokens (S : Sdk B) : Event → Prop
  | .call _ (.createMarket args) =>
    ∀ t, S.fromKey args.baseToken = .ok t → S.fromKey args.quoteToken ≠ .ok t
  | _ => True

/-- Every market is of two tokens. -/
def AllTwoTokens (c : Contract B) : Prop :=
  ∀ mid m, c.markets.lookup mid = some m → m.baseToken.tokenType ≠ m.quoteToken.tokenType

theorem Relisted.twoTokens {ev : Event} (h : Relisted S c ev c') (hev : TwoTokens S ev)
    (hc : AllTwoTokens c) : AllTwoTokens c' := by
  intro mid' m' hm'
  cases h with
  | same same =>
    obtain ⟨m, hm, ht⟩ := same.origin hm'
    rw [ht.base, ht.quote]
    exact hc mid' m hm
  | @created env args mid m created =>
    have hm' : (c.markets.insert mid m).lookup mid' = some m' := hm'
    rw [HMap.lookup_insert_eq] at hm'
    split_ifs at hm' with hmid
    · cases hm'
      intro he
      exact hev _ created.baseToken (he ▸ created.quoteToken)
    · exact hc mid' m' hm'
  | deleted =>
    have hm' : (c.markets.erase _).lookup mid' = some m' := hm'
    rw [HMap.lookup_erase_eq] at hm'
    split_ifs at hm'
    exact hc mid' m' hm'

theorem twoTokens_of_reach (hB : BookLaws S) {s : System B}
    (hs : System.Reach S (fun _ ev => TwoTokens S ev) s) : AllTwoTokens s.contract := by
  refine hs.invariant (P := fun s => AllTwoTokens s.contract) ?_ fun s ev hr hev h =>
    (step_relisted hB s ev (booksOk_of_reach hB hr)).twoTokens hev h
  rintro s ⟨id, rfl⟩ mid m hm
  cases hm

/-- **Solvency.** In every run without deletions of markets, what the contract
    attributes to accounts, orders and fees, and what is in flight, is covered
    by what was received and not sent out.  If no market of a token with itself is
    created either, orders and cancellations leave the base tokens attributed as
    they are, and never add quote tokens. -/
theorem solvency (hB : BookLaws S) (hT : TokenLaws S) {s : System B}
    (hs : System.Reach S NoDelete s) :
    (∀ token, s.contract.attributed S token + s.inFlight token + s.sent token ≤
      s.received token) ∧
    (System.Reach S (fun s ev => NoDelete s ev ∧ TwoTokens S ev) s →
      ∀ env op ps c' mid m, perform S env s.contract op = .ok (ps, c') →
        op.tradesIn = some mid → s.contract.markets.lookup mid = some m →
        c'.attributed S m.baseToken.tokenType =
            s.contract.attributed S m.baseToken.tokenType ∧
          c'.attributed S m.quoteToken.tokenType ≤
            s.contract.attributed S m.quoteToken.tokenType) := by
  have hsolv := solvent_of_reach hB hT hs
  constructor
  · intro token
    have hcov := hsolv.covered token
    have hflight := s.inFlight_le token
    unfold Contract.owed at hcov
    omega
  intro htwo env op ps c' mid m hop htr hm
  have htokens := twoTokens_of_reach hB (Runs.Reach.imp (fun _ _ _ h => h.2) htwo) mid m hm
  obtain ⟨es, heff, hshape⟩ := perform_effects hB hop
  obtain ⟨p, r, rfl⟩ | hcancel := hshape.tradesIn htr
  · cases heff.of_single with
    | order run =>
      have hok := hsolv.books _ _ run.found
      have hrun : run.m = m := Option.some_inj.1 (run.found.symm.trans hm)
      exact ⟨run.attributed_eq hB hT hok (hrun ▸ htokens), run.attributed_le hB hT hok _⟩
  · exact ⟨heff.cancels_eq hB hT _ hsolv.books hcancel,
      (heff.cancels_eq hB hT _ hsolv.books hcancel).le⟩

/-- While Alice's order rests, and when Bob buys from it. -/
theorem solvency_bought :
    (Engine.run Engine.asked).contract.attributed Engine.sdk (.fungibleToken Engine.usd) +
        (Engine.run Engine.asked).inFlight (.fungibleToken Engine.usd) +
        (Engine.run Engine.asked).sent (.fungibleToken Engine.usd) ≤
      (Engine.run Engine.asked).received (.fungibleToken Engine.usd) ∧
    (Engine.run Engine.bought).contract.attributed Engine.sdk (.fungibleToken Engine.btc) =
      (Engine.run Engine.asked).contract.attributed Engine.sdk (.fungibleToken Engine.btc) ∧
    (Engine.run Engine.bought).contract.attributed Engine.sdk (.fungibleToken Engine.usd) ≤
      (Engine.run Engine.asked).contract.attributed Engine.sdk (.fungibleToken Engine.usd) := by
  have htwo : ∀ e ∈ Engine.asked, TwoTokens Engine.sdk e := by
    have hbase := Engine.eq_ok_of_toOption (show (Engine.sdk.fromKey "ft:btc.near").toOption =
      some (.fungibleToken Engine.btc) by decide +kernel)
    have hquote := Engine.eq_ok_of_toOption (show (Engine.sdk.fromKey "ft:usd.near").toOption =
      some (.fungibleToken Engine.usd) by decide +kernel)
    simp only [Engine.asked, Engine.listed, Engine.register, Engine.pay, List.cons_append,
      List.nil_append, List.forall_mem_cons, TwoTokens, hbase, hquote]
    simp [Engine.btc, Engine.usd]
  obtain ⟨hcovered, htrades⟩ := solvency Engine.bookLaws Engine.tokenLaws
    (Engine.reach_run fun e he _ => (Engine.mem_asked he).1)
  obtain ⟨m, hm, hbase, hquote⟩ := Engine.market_asked
  obtain ⟨ps, hop⟩ := Engine.perform_bought
  have htrade := htrades (Engine.reach_run fun e he _ => ⟨(Engine.mem_asked he).1, htwo e he⟩)
    _ _ _ _ _ m hop rfl hm
  rw [hbase, hquote] at htrade
  exact ⟨hcovered _, htrade⟩

/-- The market of `usd` and `usd`, in lots of 1 and 10. -/
def usdUsd : MarketId :=
  genMarketId Engine.sdk (.fungibleToken Engine.usd) 1 (.fungibleToken Engine.usd) 10

/-- It is listed under two keys. -/
def listedTwice : List Event := [Engine.register Engine.dao, Engine.register Engine.bob,
  .call (Engine.calling Engine.dao (10 ^ 22))
    (.createMarket ⟨"ft:usd.near", "ft:usd.near:x", 1, 10, 100, 50⟩),
  .resolve 0 (.ftMetadata (some 1)), .resolve 0 (.ftMetadata (some 1)),
  Engine.pay Engine.usd Engine.bob 100000]

/-- Bob bids a lot and a half. -/
def bidsTwice : Op := .newOrder usdUsd (Engine.order .buy .limit 15 600 none)

/-- What his bid locks above its price in lots is attributed to nobody. -/
theorem base_not_attributed : System.Reach Engine.sdk NoDelete (Engine.run listedTwice) ∧
    ∃ ps c' m, perform Engine.sdk (Engine.calling Engine.bob 0) (Engine.run listedTwice).contract
      bidsTwice = .ok (ps, c') ∧ bidsTwice.tradesIn = some usdUsd ∧
    (Engine.run listedTwice).contract.markets.lookup usdUsd = some m ∧
    m.baseToken.tokenType = .fungibleToken Engine.usd ∧
    (Engine.run listedTwice).contract.attributed Engine.sdk m.baseToken.tokenType = 100000 ∧
    c'.attributed Engine.sdk m.baseToken.tokenType = 99704 := by
  have hmarket : ((Engine.run listedTwice).contract.markets.lookup usdUsd).map
      (fun m => m.baseToken.tokenType) = some (.fungibleToken Engine.usd) := by decide +kernel
  have hafter : (perform Engine.sdk (Engine.calling Engine.bob 0)
      (Engine.run listedTwice).contract bidsTwice).toOption.map
        (fun x => x.2.attributed Engine.sdk (.fungibleToken Engine.usd)) = some 99704 := by
    decide +kernel
  obtain ⟨m, hm, hbase⟩ := Option.map_eq_some_iff.1 hmarket
  obtain ⟨⟨ps, c'⟩, hop, hafter⟩ := Engine.eq_ok_of_map hafter
  refine ⟨Engine.reach_run fun e he s => ?_, ps, c', m, hop, rfl, hm, hbase, ?_, ?_⟩
  · rintro env mid rfl
    simp [listedTwice, Engine.register, Engine.pay] at he
  · rw [hbase]
    decide +kernel
  · rw [hbase]
    exact hafter

end TonicDex
