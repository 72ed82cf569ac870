/-
  The effects and promises of every method.

  `Shape S c env op ps es` lists, for each method, the promises and effects it can
  have when it returns.  `perform_effects` is the inversion of a call, and
  `step_cases` that of an event of the system; nothing after this module looks
  into a method again.
-/
import TonicDex.Spec.Effects

namespace TonicDex

variable {B : Type} {S : Sdk B} {c c' : Contract B} {env : Env}

/-! ## Storage -/

theorem internalStorageDeposit_ok {id : AccountId} {only : Bool} {amount refund : ℕ}
    (h : internalStorageDeposit S c id only amount = .ok (refund, c')) :
    (refund = amount ∧ c' = c) ∨
      ∃ inn, inn + refund = amount ∧ Does S c (.storage id inn 0) c' := by
  unfold internalStorageDeposit at h
  rcases ha : c.internalGetAccount id with _ | a
  · simp only [ha, Checked.bind_eq_ok, Checked.require_eq_ok] at h
    obtain ⟨_, hle, h⟩ := h
    split_ifs at h
    · simp only [Checked.bind_eq_ok, Contract.internalSaveAccount_eq_ok, Checked.pure_eq_ok,
        Prod.mk.injEq] at h
      obtain ⟨_, ⟨hcov, rfl⟩, rfl, rfl⟩ := h
      exact .inr ⟨_, Nat.add_sub_of_le hle,
        .storage (.inr ⟨ha, rfl⟩) (by simp [Account.new]) hcov⟩
    · simp only [Checked.bind_eq_ok, Contract.internalSaveAccount_eq_ok, Checked.pure_eq_ok,
        Prod.mk.injEq] at h
      obtain ⟨_, ⟨hcov, rfl⟩, rfl, rfl⟩ := h
      exact .inr ⟨amount, rfl, .storage (.inr ⟨ha, rfl⟩) (by simp [Account.new]) hcov⟩
  · simp only [ha] at h
    split_ifs at h
    · simp only [Checked.pure_eq_ok, Prod.mk.injEq] at h
      exact .inl ⟨h.1.symm, h.2.symm⟩
    · simp only [Checked.bind_eq_ok, Checked.fit_eq_ok, Contract.internalSaveAccount_eq_ok,
        Checked.pure_eq_ok, Prod.mk.injEq] at h
      obtain ⟨_, ⟨-, rfl⟩, _, ⟨hcov, rfl⟩, rfl, rfl⟩ := h
      exact .inr ⟨amount, rfl, .storage (.inl ha) rfl hcov⟩

theorem takeStorage_ok {id : AccountId} {n : ℕ} {ps : List Promise}
    (h : takeStorage S c id n = .ok (ps, c')) :
    (ps = [] ∧ c' = c) ∨ (0 < n ∧ ps = [.transfer id n] ∧ Does S c (.storage id 0 n) c') := by
  unfold takeStorage at h
  split_ifs at h with hn
  · simp only [Checked.bind_eq_ok, Contract.internalUnwrapAccount_eq_ok, Checked.sub_eq_ok,
      Contract.internalSaveAccount_eq_ok, Checked.pure_eq_ok, Prod.mk.injEq] at h
    obtain ⟨a, ha, _, ⟨hle, rfl⟩, _, ⟨hcov, rfl⟩, rfl, rfl⟩ := h
    exact .inr ⟨hn, rfl, .storage (.inl ha) (by omega) hcov⟩
  · simp only [Checked.pure_eq_ok, Prod.mk.injEq] at h
    exact .inl ⟨h.1.symm, h.2.symm⟩

theorem storageWithdraw_ok {amount : Option ℕ} {bal : StorageBalance} {ps : List Promise}
    (h : storageWithdraw S env c amount = .ok (bal, ps, c')) :
    (ps = [] ∧ c' = c) ∨ ∃ n, 0 < n ∧ ps = [.transfer env.predecessorAccountId n] ∧
      Does S c (.storage env.predecessorAccountId 0 n) c' := by
  simp only [storageWithdraw, Checked.bind_eq_ok] at h
  obtain ⟨_, -, _, -, _ | b, -, h⟩ := h
  · cases h
  · simp only [Checked.bind_eq_ok, Checked.pure_eq_ok, Prod.mk.injEq] at h
    obtain ⟨_, -, ⟨ps', c₁⟩, ht, _, -, _, -, -, rfl, rfl⟩ := h
    obtain h | h := takeStorage_ok ht
    · exact .inl h
    · exact .inr ⟨_, h⟩

theorem storageUnregister_ok {ps : List Promise} (h : storageUnregister env c = .ok (ps, c')) :
    ∃ n, ps = [.transfer env.predecessorAccountId n] ∧
      Does S c (.unregister env.predecessorAccountId n) c' := by
  simp only [storageUnregister, Checked.bind_eq_ok, Contract.internalUnwrapAccount_eq_ok,
    Checked.require_eq_ok, Checked.pure_eq_ok, Prod.mk.injEq] at h
  obtain ⟨_, -, _, -, a, ha, _, he, rfl, rfl⟩ := h
  exact ⟨_, rfl, .unregister ha he⟩

/-! ## Markets -/

/-- A transfer, unless there is nothing to transfer. -/
def transfers (id : AccountId) (n : ℕ) : List Promise := if 0 < n then [.transfer id n] else []

theorem decimals_getD (mid : MarketId) (side : PairSide) (token : TokenType) :
    (getDecimalsForToken mid side token).1.getD invalidDecimals =
      if token = .nativeNear then 24 else invalidDecimals := by
  cases token <;> rfl

/-- The promises for the metadata of a new market. -/
def metadataPromises (mid : MarketId) (m : Market B) : List Promise :=
  (getDecimalsForToken mid .base m.baseToken.tokenType).2 ++
    (getDecimalsForToken mid .quote m.quoteToken.tokenType).2

theorem createMarket_ok {args : CreateMarketArgs} {mid : MarketId} {ps : List Promise}
    (h : createMarket S env c args = .ok (mid, ps, c')) :
    ∃ m refund, refund ≤ env.attachedDeposit ∧ Does S c (.create mid m) c' ∧
      ps = metadataPromises mid m ++ transfers env.predecessorAccountId refund := by
  simp only [createMarket, assertValidLotSizes, Checked.bind_eq_ok, Checked.require_eq_ok,
    Checked.fit_eq_ok, Checked.pure_eq_ok, Prod.mk.injEq, Option.isNone_iff_eq_none] at h
  obtain ⟨_, -, _, hrates, _, -, base, -, quote, -, _, hnew, _, ⟨_, -, _, -, _, hb, hq⟩,
    _, ⟨-, rfl⟩, _, -, rfl, rfl, rfl⟩ := h
  exact ⟨_, _, Nat.sub_le _ _, .create hnew ⟨rfl, rfl, rfl, hrates,
    args.takerFeeBaseRate.isLt, hb, hq, rfl, decimals_getD _ _ _, decimals_getD _ _ _⟩, rfl⟩

/-- A metadata callback reported decimals, and the market's state is `state` now. -/
inductive Callback (S : Sdk B) (c : Contract B) (mid : MarketId) (side : PairSide) :
    List (Effect B) → Prop
  | nothing : Callback S c mid side []
  | unchanged : Callback S c mid side [.setWindow mid]
  | ft {m : Market B} {d : ℕ} {valid : Bool} (found : c.markets.lookup mid = some m)
      (checked : (m.setDecimals side d).validateLotsAndDecimals = .ok valid) :
      Callback S c mid side [.decimals mid side d (if valid then .active else m.state)]
  | mt {m : Market B} {d : ℕ} (found : c.markets.lookup mid = some m) :
      Callback S c mid side [.decimals mid side d
        (if (m.setDecimals side d).baseToken.decimals ≠ invalidDecimals ∧
            (m.setDecimals side d).quoteToken.decimals ≠ invalidDecimals
          then .active else m.state)]

/-- Setting decimals keeps the state, unless it is set as well. -/
theorem Market.setDecimals_ite (m : Market B) (side : PairSide) (d : ℕ) (p : Prop) [Decidable p] :
    (if p then { m.setDecimals side d with state := .active } else m.setDecimals side d) =
      { m.setDecimals side d with state := if p then .active else m.state } := by
  split_ifs
  · rfl
  · cases side <;> rfl

theorem onFtMetadata_ok {mid : MarketId} {side : PairSide} {d : Option ℕ}
    (h : onFtMetadata c mid side d = .ok c') :
    ∃ es, Effects S c es c' ∧ Callback S c mid side es := by
  simp only [onFtMetadata, Checked.bind_eq_ok, Contract.internalUnwrapMarket_eq_ok] at h
  obtain ⟨m, hm, h⟩ := h
  rcases d with _ | d
  · simp only [Checked.pure_eq_ok] at h
    subst h
    exact ⟨[], .nil _, .nothing⟩
  · simp only [Checked.bind_eq_ok, Checked.pure_eq_ok] at h
    obtain ⟨valid, hv, rfl⟩ := h
    rw [Market.setDecimals_ite]
    exact ⟨_, .single (.decimals hm), .ft hm hv⟩

theorem onMtMetadata_ok {mid : MarketId} {side : PairSide} {d : Option (List (Option String))}
    (h : onMtMetadata c mid side d = .ok c') :
    ∃ es, Effects S c es c' ∧ Callback S c mid side es := by
  simp only [onMtMetadata, Checked.bind_eq_ok, Contract.internalUnwrapMarket_eq_ok] at h
  obtain ⟨m, hm, h⟩ := h
  rcases d with _ | d
  · simp only [Checked.pure_eq_ok] at h
    subst h
    exact ⟨[], .nil _, .nothing⟩
  rcases hd : (d.head?.bind id).bind parseU8 with _ | d'
  · simp only [hd, Checked.pure_eq_ok] at h
    subst h
    exact ⟨_, .single (.setWindow m.minimumBidBps m.maximumAskBps hm),
      .unchanged⟩
  · simp only [hd, Checked.pure_eq_ok] at h
    subst h
    refine ⟨_, .single ?_, .mt (d := d') hm⟩
    rw [Market.setDecimals_ite]
    exact .decimals hm

theorem adminDeleteMarket_ok {mid : MarketId} (h : adminDeleteMarket S env c mid = .ok c') :
    c' = c ∨ Does S c (.delete mid) c' := by
  simp only [adminDeleteMarket, Checked.bind_eq_ok, Contract.internalUnwrapMarket_eq_ok,
    Checked.require_eq_ok] at h
  obtain ⟨_, -, m, hm, _, hcan, h⟩ := h
  split at h
  · simp only [Checked.pure_eq_ok] at h
    subst h
    exact .inr (.delete hm hcan)
  · simp only [Checked.pure_eq_ok] at h
    exact .inl h.symm

/-! ## Methods -/

/-- The account a method is about, besides its caller's: the one a token was
    sent for, the one whose storage is paid, or the owners of orders that the
    owner of the contract cancels. -/
def Op.Addresses (S : Sdk B) (c : Contract B) (id : AccountId) : Op → Prop
  | ftOnTransfer senderId _ _ => id = senderId
  | mtOnTransfer previousOwnerIds _ _ => id ∈ previousOwnerIds
  | storageDeposit accountId _ => accountId = some id
  | adminCancelOrder mid orderId => ∃ m o, c.markets.lookup mid = some m ∧
      S.getOrder m.orderbook orderId = some o ∧ id = o.ownerId
  | adminCancelAllUserOrders _ accountId => id = accountId
  | adminClearOrderbook mid _ => ∃ m o, c.markets.lookup mid = some m ∧
      o ∈ S.orders m.orderbook ∧ id = o.ownerId
  | _ => False

/-- The promises and effects a method can have. -/
inductive Shape (S : Sdk B) (c : Contract B) (env : Env) :
    Op → List Promise → List (Effect B) → Prop
  | depositNear : Shape S c env .depositNear []
      [.credit env.predecessorAccountId .nativeNear env.attachedDeposit]
  | withdraw {op : Op} {token : TokenType} {n : ℕ} (pos : 0 < n)
      (method : op = .withdrawNear n ∨ (∃ t, op = .withdrawFt t n) ∨
        ∃ t i, op = .withdrawMt t i n) :
      Shape S c env op [.send env.predecessorAccountId token n]
        [.debit env.predecessorAccountId token n]
  | ftDeposit {id : AccountId} {n : ℕ} : Shape S c env (.ftOnTransfer id n .empty) []
      [.credit id (.fungibleToken env.predecessorAccountId) n]
  | mtDeposit {ids : List AccountId} {tokens : List String} {ns : List ℕ} :
      Shape S c env (.mtOnTransfer ids tokens ns) [] (((tokens.zip ns).zip ids).map fun x =>
        .credit x.2 (.multiFungibleToken env.predecessorAccountId x.1.1) x.1.2)
  | swap {op : Op} {id : AccountId} {x y : TokenType × ℕ} {swaps : List SwapAction}
      {es : List (Effect B)}
      (method : op = .swapNear swaps ∧ id = env.predecessorAccountId ∧
          x = (.nativeNear, env.attachedDeposit) ∨
        op = .ftOnTransfer id x.2 (.swap swaps) ∧ x.1 = .fungibleToken env.predecessorAccountId)
      (hops : Hops env swaps x es y) :
      Shape S c env op (if 0 < y.2 then [.send id y.1 y.2] else []) es
  | storageDeposit {id : Option AccountId} {only : Option Bool} {inn refund : ℕ}
      {es : List (Effect B)} (sum : inn + refund = env.attachedDeposit)
      (effects : es = [] ∧ inn = 0 ∨
        es = [.storage (id.getD env.predecessorAccountId) inn 0]) :
      Shape S c env (.storageDeposit id only) (transfers env.predecessorAccountId refund) es
  | storageKept {n : Option ℕ} : Shape S c env (.storageWithdraw n) [] []
  | storageWithdraw {n : Option ℕ} {out : ℕ} (pos : 0 < out) :
      Shape S c env (.storageWithdraw n) [.transfer env.predecessorAccountId out]
        [.storage env.predecessorAccountId 0 out]
  | storageUnregister {n : ℕ} : Shape S c env .storageUnregister
      [.transfer env.predecessorAccountId n] [.unregister env.predecessorAccountId n]
  | createMarket {args : CreateMarketArgs} {mid : MarketId} {m : Market B} {refund : ℕ}
      (le : refund ≤ env.attachedDeposit) : Shape S c env (.createMarket args)
        (metadataPromises mid m ++ transfers env.predecessorAccountId refund) [.create mid m]
  | newOrder {mid : MarketId} {p : NewOrderParams} {r : PlaceOrderResult} :
      Shape S c env (.newOrder mid p) [] [.order env mid p r]
  | cancelOrder {mid : MarketId} {id : OrderId} :
      Shape S c env (.cancelOrder mid id) [] [.cancel mid env.predecessorAccountId [id]]
  | cancelAllOrders {mid : MarketId} {ids : List OrderId} :
      Shape S c env (.cancelAllOrders mid) [] [.cancel mid env.predecessorAccountId ids]
  | execute {actions : List Action} {es : List (Effect B)}
      (trades : ∀ e ∈ es, e.Trades env actions) :
      Shape S c env (.execute actions) [] es
  | admin {op : Op} (method : (∃ x, op = .setContractState x) ∨ ∃ x, op = .setOwner x) :
      Shape S c env op [] [.admin]
  | setMarketState {mid : MarketId} {state : MarketState} :
      Shape S c env (.setMarketState mid state) [] [.setState mid state]
  | setWindow {op : Op} {mid : MarketId} (method : (∃ n, op = .setMarketBidWindow mid n) ∨
      ∃ n, op = .setMarketAskWindow mid n) : Shape S c env op [] [.setWindow mid]
  | notDeleted {mid : MarketId} : Shape S c env (.adminDeleteMarket mid) [] []
  | deleted {mid : MarketId} : Shape S c env (.adminDeleteMarket mid) [] [.delete mid]
  | adminCancel {op : Op} {mid : MarketId} {es : List (Effect B)}
      (method : (∃ id, op = .adminCancelOrder mid id) ∨
        (∃ id, op = .adminCancelAllUserOrders mid id) ∨ ∃ n, op = .adminClearOrderbook mid n)
      (cancels : ∀ e ∈ es, ∃ owner ids, e = .cancel mid owner ids ∧ op.Addresses S c owner) :
      Shape S c env op [] es

/-- The effects of the calls that delete a market or set its state. -/
theorem Shape.of_market {op : Op} {ps : List Promise} {es : List (Effect B)}
    (h : Shape S c env op ps es) :
    (∀ mid, op = .adminDeleteMarket mid → es = [] ∨ es = [.delete mid]) ∧
      ∀ mid state, op = .setMarketState mid state → es = [.setState mid state] := by
  cases h with
  | notDeleted => exact ⟨fun _ _ => .inl rfl, nofun⟩
  | deleted => exact ⟨fun _ h => .inr (by cases h; rfl), nofun⟩
  | setMarketState => exact ⟨nofun, fun _ _ h => by cases h; rfl⟩
  | withdraw pos method => obtain rfl | ⟨_, rfl⟩ | ⟨_, _, rfl⟩ := method <;> exact ⟨nofun, nofun⟩
  | swap method hops => obtain ⟨rfl, -⟩ | ⟨rfl, -⟩ := method <;> exact ⟨nofun, nofun⟩
  | admin method => obtain ⟨_, rfl⟩ | ⟨_, rfl⟩ := method <;> exact ⟨nofun, nofun⟩
  | setWindow method => obtain ⟨_, rfl⟩ | ⟨_, rfl⟩ := method <;> exact ⟨nofun, nofun⟩
  | adminCancel method cancels =>
    obtain ⟨_, rfl⟩ | ⟨_, rfl⟩ | ⟨_, rfl⟩ := method <;> exact ⟨nofun, nofun⟩
  | _ => exact ⟨nofun, nofun⟩

/-- The effect of placing an order, and of cancelling one. -/
theorem Shape.of_order {op : Op} {ps : List Promise} {es : List (Effect B)}
    (h : Shape S c env op ps es) :
    (∀ mid p, op = .newOrder mid p → ∃ r, es = [.order env mid p r]) ∧
      ∀ mid id, op = .cancelOrder mid id →
        es = [.cancel mid env.predecessorAccountId [id]] := by
  cases h with
  | newOrder =>
    constructor
    · rintro _ _ ⟨⟩
      exact ⟨_, rfl⟩
    · rintro _ _ ⟨⟩
  | cancelOrder =>
    constructor
    · rintro _ _ ⟨⟩
    · rintro _ _ ⟨⟩
      rfl
  | withdraw pos method =>
    obtain rfl | ⟨_, rfl⟩ | ⟨_, _, rfl⟩ := method <;> constructor <;> rintro _ _ ⟨⟩
  | swap method hops => obtain ⟨rfl, -⟩ | ⟨rfl, -⟩ := method <;> constructor <;> rintro _ _ ⟨⟩
  | admin method | setWindow method =>
    obtain ⟨_, rfl⟩ | ⟨_, rfl⟩ := method <;> constructor <;> rintro _ _ ⟨⟩
  | adminCancel method cancels =>
    obtain ⟨_, rfl⟩ | ⟨_, rfl⟩ | ⟨_, rfl⟩ := method <;> constructor <;> rintro _ _ ⟨⟩
  | _ => constructor <;> rintro _ _ ⟨⟩

theorem executeSwaps_effects {swaps : List SwapAction} {token : TokenType} {n : ℕ}
    {id : AccountId} {unused : ℕ} {ps : List Promise}
    (h : executeSwaps S env c swaps token n id = .ok (unused, ps, c')) :
    ∃ es y, Effects S c es c' ∧ Hops env swaps (token, n) es y ∧
      ps = if 0 < y.2 then [.send id y.1 y.2] else [] := by
  simp only [executeSwaps, Checked.bind_eq_ok, Checked.pure_eq_ok, Prod.mk.injEq] at h
  obtain ⟨_, -, _, -, ⟨⟨token', n'⟩, c₁⟩, hx, -, rfl, rfl⟩ := h
  obtain ⟨es, hes, hops⟩ := executeHops_effects hx
  exact ⟨es, _, hes, hops, rfl⟩

@[simp] theorem quiet_eq_ok {x : Call (Contract B)} {ps : List Promise} :
    quiet x = .ok (ps, c') ↔ x = .ok c' ∧ ps = [] := by
  simp only [quiet, Checked.bind_eq_ok, Checked.pure_eq_ok, Prod.mk.injEq]
  constructor
  · rintro ⟨_, h, rfl, rfl⟩; exact ⟨h, rfl⟩
  · rintro ⟨h, rfl⟩; exact ⟨_, h, rfl, rfl⟩

/-- **Every call that returns is a sequence of effects of its method's shape.** -/
theorem dispatch_effects (hB : BookLaws S) {op : Op} {ps : List Promise}
    (h : dispatch S env c op = .ok (ps, c')) :
    ∃ es, Effects S c es c' ∧ Shape S c env op ps es := by
  cases op with
  | depositNear =>
    obtain ⟨hx, rfl⟩ := quiet_eq_ok.1 h
    exact ⟨_, .single (depositNear_does hx), .depositNear⟩
  | withdrawNear n =>
    simp only [dispatch, withdrawNear, Checked.bind_eq_ok] at h
    obtain ⟨_, -, _, -, h⟩ := h
    obtain ⟨hn, rfl, hd⟩ := internalWithdraw_does h
    exact ⟨_, .single hd, .withdraw hn (.inl rfl)⟩
  | withdrawFt t n =>
    simp only [dispatch, withdrawFt, Checked.bind_eq_ok] at h
    obtain ⟨_, -, _, -, h⟩ := h
    obtain ⟨hn, rfl, hd⟩ := internalWithdraw_does h
    exact ⟨_, .single hd, .withdraw hn (.inr (.inl ⟨_, rfl⟩))⟩
  | withdrawMt t i n =>
    simp only [dispatch, withdrawMt, Checked.bind_eq_ok] at h
    obtain ⟨_, -, _, -, token, -, h⟩ := h
    obtain ⟨hn, rfl, hd⟩ := internalWithdraw_does h
    exact ⟨_, .single hd, .withdraw hn (.inr (.inr ⟨_, _, rfl⟩))⟩
  | ftOnTransfer id n msg =>
    simp only [dispatch, ftOnTransfer, Checked.map_eq_ok, Checked.bind_eq_ok] at h
    obtain ⟨⟨unused, ps', c₁⟩, ⟨_, -, h⟩, heq⟩ := h
    obtain ⟨rfl, rfl⟩ := Prod.mk.injEq .. ▸ heq
    cases msg with
    | empty =>
      simp only [Checked.bind_eq_ok, Checked.pure_eq_ok, Prod.mk.injEq] at h
      obtain ⟨_, h, -, rfl, rfl⟩ := h
      exact ⟨_, .single (internalDeposit_does h), .ftDeposit⟩
    | swap swaps =>
      obtain ⟨es, y, hes, hops, rfl⟩ := executeSwaps_effects h
      exact ⟨es, hes, .swap (.inr ⟨rfl, rfl⟩) hops⟩
    | otherAction => cases h
    | invalid => cases h
  | mtOnTransfer owners tokens ns =>
    obtain ⟨hx, rfl⟩ := quiet_eq_ok.1 h
    simp only [mtOnTransfer, Checked.bind_eq_ok] at hx
    obtain ⟨_, -, _, -, _, -, hx⟩ := hx
    exact ⟨_, mtDeposits_effects hx, .mtDeposit⟩
  | swapNear swaps =>
    simp only [dispatch, swapNear, Checked.map_eq_ok, Checked.bind_eq_ok] at h
    obtain ⟨⟨unused, ps', c₁⟩, ⟨_, -, h⟩, heq⟩ := h
    obtain ⟨rfl, rfl⟩ := Prod.mk.injEq .. ▸ heq
    obtain ⟨es, y, hes, hops, rfl⟩ := executeSwaps_effects h
    exact ⟨es, hes, .swap (.inl ⟨rfl, rfl, rfl⟩) hops⟩
  | storageDeposit id only =>
    simp only [dispatch, storageDeposit, Checked.map_eq_ok, Checked.bind_eq_ok,
      Checked.pure_eq_ok] at h
    obtain ⟨_, ⟨_, -, ⟨refund, c₁⟩, hd, bal, -, rfl⟩, heq⟩ := h
    obtain ⟨rfl, rfl⟩ := Prod.mk.injEq .. ▸ heq
    obtain ⟨rfl, rfl⟩ | ⟨inn, hsum, hd⟩ := internalStorageDeposit_ok hd
    · exact ⟨[], .nil _, .storageDeposit (Nat.zero_add _) (.inl ⟨rfl, rfl⟩)⟩
    · exact ⟨_, .single hd, .storageDeposit hsum (.inr rfl)⟩
  | storageWithdraw n =>
    simp only [dispatch, Checked.map_eq_ok] at h
    obtain ⟨⟨bal, ps', c₁⟩, h, heq⟩ := h
    obtain ⟨rfl, rfl⟩ := Prod.mk.injEq .. ▸ heq
    obtain ⟨rfl, rfl⟩ | ⟨out, hpos, rfl, hd⟩ := storageWithdraw_ok h
    · exact ⟨[], .nil _, .storageKept⟩
    · exact ⟨_, .single hd, .storageWithdraw hpos⟩
  | storageUnregister =>
    obtain ⟨n, rfl, hd⟩ := storageUnregister_ok h
    exact ⟨_, .single hd, .storageUnregister⟩
  | createMarket args =>
    simp only [dispatch, Checked.map_eq_ok] at h
    obtain ⟨⟨mid, ps', c₁⟩, h, heq⟩ := h
    obtain ⟨rfl, rfl⟩ := Prod.mk.injEq .. ▸ heq
    obtain ⟨m, refund, hle, hd, rfl⟩ := createMarket_ok h
    exact ⟨_, .single hd, .createMarket hle⟩
  | newOrder mid p =>
    simp only [dispatch, quiet_eq_ok, Checked.map_eq_ok] at h
    obtain ⟨⟨⟨r, c₁⟩, hx, rfl⟩, rfl⟩ := h
    exact ⟨_, .single (newOrder_does hx), .newOrder⟩
  | cancelOrder mid id =>
    obtain ⟨hx, rfl⟩ := quiet_eq_ok.1 h
    exact ⟨_, .single (cancelOrder_does hx), .cancelOrder⟩
  | cancelAllOrders mid =>
    simp only [dispatch, quiet_eq_ok, Checked.map_eq_ok] at h
    obtain ⟨⟨⟨ids, c₁⟩, hx, rfl⟩, rfl⟩ := h
    exact ⟨_, .single (cancelAllOrders_does hB hx), .cancelAllOrders⟩
  | execute actions =>
    simp only [dispatch, quiet_eq_ok, Checked.map_eq_ok] at h
    obtain ⟨⟨⟨rs, c₁⟩, hx, rfl⟩, rfl⟩ := h
    simp only [execute, Checked.bind_eq_ok] at hx
    obtain ⟨_, -, hx⟩ := hx
    obtain ⟨es, hes, ht⟩ := executeActions_effects hB hx
    exact ⟨es, hes, .execute ht⟩
  | setContractState state =>
    obtain ⟨hx, rfl⟩ := quiet_eq_ok.1 h
    simp only [setContractState, Checked.bind_eq_ok, Checked.pure_eq_ok] at hx
    obtain ⟨_, -, rfl⟩ := hx
    exact ⟨_, .single (.admin c.ownerId _), .admin (.inl ⟨_, rfl⟩)⟩
  | setOwner id =>
    obtain ⟨hx, rfl⟩ := quiet_eq_ok.1 h
    simp only [setOwner, Checked.bind_eq_ok, Checked.pure_eq_ok] at hx
    obtain ⟨_, -, rfl⟩ := hx
    exact ⟨_, .single (.admin _ c.state), .admin (.inr ⟨_, rfl⟩)⟩
  | setMarketState mid state =>
    obtain ⟨hx, rfl⟩ := quiet_eq_ok.1 h
    simp only [setMarketState, Checked.bind_eq_ok, Contract.internalUnwrapMarket_eq_ok,
      Checked.pure_eq_ok] at hx
    obtain ⟨_, -, m, hm, rfl⟩ := hx
    exact ⟨_, .single (.setState hm), .setMarketState⟩
  | setMarketBidWindow mid bps =>
    obtain ⟨hx, rfl⟩ := quiet_eq_ok.1 h
    simp only [setMarketBidWindow, Checked.bind_eq_ok, Contract.internalUnwrapMarket_eq_ok,
      Checked.pure_eq_ok] at hx
    obtain ⟨_, -, m, hm, rfl⟩ := hx
    exact ⟨_, .single (.setWindow _ m.maximumAskBps hm), .setWindow (.inl ⟨_, rfl⟩)⟩
  | setMarketAskWindow mid bps =>
    obtain ⟨hx, rfl⟩ := quiet_eq_ok.1 h
    simp only [setMarketAskWindow, Checked.bind_eq_ok, Contract.internalUnwrapMarket_eq_ok,
      Checked.pure_eq_ok] at hx
    obtain ⟨_, -, m, hm, rfl⟩ := hx
    exact ⟨_, .single (.setWindow m.minimumBidBps _ hm), .setWindow (.inr ⟨_, rfl⟩)⟩
  | adminDeleteMarket mid =>
    obtain ⟨hx, rfl⟩ := quiet_eq_ok.1 h
    obtain rfl | hd := adminDeleteMarket_ok hx
    · exact ⟨[], .nil _, .notDeleted⟩
    · exact ⟨_, .single hd, .deleted⟩
  | adminCancelOrder mid id =>
    obtain ⟨hx, rfl⟩ := quiet_eq_ok.1 h
    simp only [adminCancelOrder, Checked.bind_eq_ok, Contract.internalUnwrapMarket_eq_ok,
      Checked.expect_eq_ok] at hx
    obtain ⟨_, -, m, hm, o, ho, hx⟩ := hx
    exact ⟨_, .single (internalCancelOrder_does hx), .adminCancel (.inl ⟨_, rfl⟩)
      (List.forall_mem_singleton.2 ⟨_, _, rfl, m, o, hm, ho, rfl⟩)⟩
  | adminCancelAllUserOrders mid id =>
    simp only [dispatch, quiet_eq_ok, Checked.map_eq_ok] at h
    obtain ⟨⟨⟨ids, c₁⟩, hx, rfl⟩, rfl⟩ := h
    simp only [adminCancelAllUserOrders, Checked.bind_eq_ok] at hx
    obtain ⟨_, -, hx⟩ := hx
    exact ⟨_, .single (internalCancelAllOrders_does hB hx), .adminCancel (.inr (.inl ⟨_, rfl⟩))
      (List.forall_mem_singleton.2 ⟨_, _, rfl, rfl⟩)⟩
  | adminClearOrderbook mid limit =>
    simp only [dispatch, quiet_eq_ok, Checked.map_eq_ok] at h
    obtain ⟨⟨⟨ids, c₁⟩, hx, rfl⟩, rfl⟩ := h
    simp only [adminClearOrderbook, internalClearOrderbookOrders, Checked.bind_eq_ok,
      Contract.internalUnwrapMarket_eq_ok, Checked.pure_eq_ok, Prod.mk.injEq] at hx
    obtain ⟨_, -, m, hm, _, -, _, hx, -, rfl⟩ := hx
    exact ⟨_, cancelForOwners_effects hx, .adminCancel (.inr (.inr ⟨_, rfl⟩))
      (List.forall_mem_map.2 fun o ho =>
        ⟨_, _, rfl, m, o, hm, List.mem_of_mem_take ho, rfl⟩)⟩

theorem dispatch_of_perform {op : Op} {ps : List Promise}
    (h : perform S env c op = .ok (ps, c')) : dispatch S env c op = .ok (ps, c') := by
  unfold perform at h
  split_ifs at h
  · exact h
  · simp only [Checked.bind_eq_ok] at h
    obtain ⟨_, -, h⟩ := h
    exact h

theorem perform_effects (hB : BookLaws S) {op : Op} {ps : List Promise}
    (h : perform S env c op = .ok (ps, c')) :
    ∃ es, Effects S c es c' ∧ Shape S c env op ps es :=
  dispatch_effects hB (dispatch_of_perform h)

/-! ## Events -/

/-- The account that a failed transfer to `id` is credited to. -/
def Contract.refundee (c : Contract B) (id : AccountId) : AccountId :=
  if (c.accounts.lookup id).isSome then id else c.ownerId

/-- What the resolution of a promise can do: its effects, and what was sent out. -/
inductive Resolution (S : Sdk B) (c : Contract B) :
    Promise → List (Effect B) → Option (TokenType × ℕ) → Prop
  | transferred {id : AccountId} {n : ℕ} :
      Resolution S c (.transfer id n) [] (some (.nativeNear, n))
  | transferFailed {id : AccountId} {n : ℕ} : Resolution S c (.transfer id n) [] none
  | sent {id : AccountId} {token : TokenType} {n : ℕ} :
      Resolution S c (.send id token n) [] (some (token, n))
  | credited {id : AccountId} {token : TokenType} {n : ℕ} :
      Resolution S c (.send id token n) [.credit (c.refundee id) token n] none
  -- the callback panicked
  | lost {id : AccountId} {token : TokenType} {n : ℕ} : Resolution S c (.send id token n) [] none
  | metadata {p : Promise} {token : AccountId} (subtoken : String) {mid : MarketId}
      {side : PairSide} {es : List (Effect B)}
      (promise : p = .ftMetadata token mid side ∨ p = .mtMetadata token subtoken mid side)
      (callback : Callback S c mid side es) : Resolution S c p es none

theorem exchangeCallbackPostWithdraw_does {token : TokenType} {id : AccountId} {n : ℕ}
    (h : exchangeCallbackPostWithdraw S c token id n .failed = .ok c') :
    Does S c (.credit (c.refundee id) token n) c' := by
  unfold exchangeCallbackPostWithdraw Contract.internalGetAccount at h
  unfold Contract.refundee
  split_ifs at h ⊢
  · exact internalDeposit_does h
  · exact internalDeposit_does h

/-- What an event can do to the system. -/
inductive StepCase (S : Sdk B) (s : System B) : Event → System B → Prop
  | unchanged {ev : Event} : StepCase S s ev s
  | called {env : Env} {op : Op} {c' : Contract B} {ps : List Promise} {es : List (Effect B)}
      (performed : perform S env s.contract op = .ok (ps, c'))
      (effects : Effects S s.contract es c')
      (shape : Shape S s.contract env op ps es) :
      StepCase S s (.call env op)
        { contract := c'
          pending := s.pending ++ ps
          received := (paidIn env op).foldl (fun f x => tally f x.1 x.2) s.received
          sent := s.sent }
  | resolved {i : ℕ} {out : Outcome} {p : Promise} {c' : Contract B} {es : List (Effect B)}
      (paid : Option (TokenType × ℕ)) (promise : s.pending[i]? = some p)
      (effects : Effects S s.contract es c') (resolution : Resolution S s.contract p es paid) :
      StepCase S s (.resolve i out)
        { contract := c'
          pending := s.pending.eraseIdx i
          received := s.received
          sent := paid.elim s.sent fun x => tally s.sent x.1 x.2 }

/-- A callback that panics changes nothing; one that returns has its effects. -/
theorem System.callback_cases (s : System B) (x : Call (Contract B)) :
    s.callback x = s ∨ ∃ c', x = .ok c' ∧ s.callback x = { s with contract := c' } := by
  cases x with
  | ok c' => exact .inr ⟨c', rfl, rfl⟩
  | error e => exact .inl rfl

theorem resolved_cases {s : System B} {i : ℕ} {out : Outcome} {p : Promise}
    (hp : s.pending[i]? = some p) : StepCase S s (.resolve i out)
      (System.resolved S { s with pending := s.pending.eraseIdx i } p out) := by
  have quiet : ∀ {paid : Option (TokenType × ℕ)}, Resolution S s.contract p [] paid →
      StepCase S s (.resolve i out) { s with
        pending := s.pending.eraseIdx i
        sent := paid.elim s.sent fun x => tally s.sent x.1 x.2 } :=
    fun {paid} h => .resolved paid hp (.nil _) h
  cases p with
  | transfer id n =>
    cases out with
    | successful => exact quiet .transferred
    | _ => exact quiet .transferFailed
  | send id token n =>
    have failed : StepCase S s (.resolve i out)
        (System.callback { s with pending := s.pending.eraseIdx i }
          (exchangeCallbackPostWithdraw S s.contract token id n .failed)) := by
      obtain he | ⟨c', hc, he⟩ :=
        System.callback_cases { s with pending := s.pending.eraseIdx i }
          (exchangeCallbackPostWithdraw S s.contract token id n .failed)
      · rw [he]; exact quiet .lost
      · rw [he]
        exact .resolved none hp (.single (exchangeCallbackPostWithdraw_does hc)) .credited
    cases out with
    | successful => exact quiet .sent
    | _ => exact failed
  | ftMetadata token mid side =>
    cases out with
    | ftMetadata d =>
      obtain he | ⟨c', hc, he⟩ := System.callback_cases { s with
        pending := s.pending.eraseIdx i } (onFtMetadata s.contract mid side d)
      · simp only [System.resolved, he]
        exact quiet (.metadata "" (.inl rfl) .nothing)
      · simp only [System.resolved, he]
        obtain ⟨es, hes, hcb⟩ := onFtMetadata_ok (S := S) hc
        exact .resolved none hp hes (.metadata "" (.inl rfl) hcb)
    | _ => exact quiet (.metadata "" (.inl rfl) .nothing)
  | mtMetadata token subtoken mid side =>
    cases out with
    | mtMetadata d =>
      obtain he | ⟨c', hc, he⟩ := System.callback_cases { s with
        pending := s.pending.eraseIdx i } (onMtMetadata s.contract mid side d)
      · simp only [System.resolved, he]
        exact quiet (.metadata subtoken (.inr rfl) .nothing)
      · simp only [System.resolved, he]
        obtain ⟨es, hes, hcb⟩ := onMtMetadata_ok (S := S) hc
        exact .resolved none hp hes (.metadata subtoken (.inr rfl) hcb)
    | _ => exact quiet (.metadata subtoken (.inr rfl) .nothing)

/-- **What an event can do.** -/
theorem step_cases (hB : BookLaws S) (s : System B) (ev : Event) :
    StepCase S s ev (System.step S s ev) := by
  cases ev with
  | call env op =>
    unfold System.step
    rcases h : perform S env s.contract op with e | ⟨ps, c'⟩
    · simp only [h]; exact .unchanged
    · obtain ⟨es, hes, hsh⟩ := perform_effects hB h
      simp only [h]; exact .called h hes hsh
  | resolve i out =>
    unfold System.step
    rcases h : s.pending[i]? with _ | p
    · simp only [h]; exact .unchanged
    · simp only [h]; exact resolved_cases h

end TonicDex
