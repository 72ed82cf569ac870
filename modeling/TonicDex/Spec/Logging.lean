/-
  Logging changes nothing.

  The functions of `TonicDex.Logging` return what the plain ones do, and panic
  where those panic: `erase_dispatch` and `erase_perform` for calls, with one
  lemma for each function on the way.
-/
import TonicDex.Model.Events

namespace TonicDex

variable {B : Type} {S : Sdk B} {c c' : Contract B} {mid : MarketId} {m : Market B} {env : Env}
  {side : Side} {taker : AccountId}

/-! ## Settling -/

/-- The data of a fill does not change what settling it does. -/
theorem fst_settleMakerFill (acc : MakerSettlementResult × Contract B) (ds : List FillEventData)
    (f : Match) : Prod.fst <$> Logging.settleMakerFill S mid m side taker (acc, ds) f =
      settleMakerFill S mid m side acc f := by
  obtain ⟨total, c⟩ := acc
  simp only [Logging.settleMakerFill, settleMakerFill, map_bind, map_pure]

theorem fst_foldlM_settleMakerFill : ∀ (fs : List Match)
    (acc : (MakerSettlementResult × Contract B) × List FillEventData),
    Prod.fst <$> fs.foldlM (Logging.settleMakerFill S mid m side taker) acc =
      fs.foldlM (settleMakerFill S mid m side) acc.1
  | [], acc => rfl
  | f :: fs, acc => by
    rw [List.foldlM_cons, List.foldlM_cons, map_bind, ← fst_settleMakerFill acc.1 acc.2 f,
      bind_map_left]
    exact bind_congr fun acc' => fst_foldlM_settleMakerFill fs acc'

theorem erase_internalSettleMakerFills (c : Contract B) (mid : MarketId) (m : Market B)
    (id : OrderId) (side : Side) (fs : List Match) (taker : AccountId) :
    (Logging.internalSettleMakerFills S c mid m id side fs taker).erase =
      internalSettleMakerFills S c mid m side fs := by
  unfold Logging.internalSettleMakerFills internalSettleMakerFills
  cases fs with
  | nil => rfl
  | cons f fs =>
    show _ = (f :: fs).foldlM (settleMakerFill S mid m side) (.default, c)
    rw [← fst_foldlM_settleMakerFill (f :: fs) ((_, _), []), ← bind_pure_comp]
    exact Logged.erase_lift_bind fun _ => Logged.erase_emit_bind Logged.erase_pure

theorem erase_settleMatches (c : Contract B) (mid : MarketId) (m : Market B)
    (fee : FeeCalculator) (id : OrderId) (side : Side) (fs : List Match) (taker : AccountId)
    (ref : Option AccountId) (bug : String) :
    (Logging.settleMatches S c mid m fee id side fs taker ref bug).erase =
      settleMatches S c mid m fee side fs ref bug := by
  refine Logged.erase_bind (erase_internalSettleMakerFills ..) fun _ => ?_
  repeat refine Logged.erase_lift_bind fun _ => ?_
  exact Logged.erase_pure

/-! ## Orders and swaps -/

theorem erase_internalPlaceLimitBuy (env : Env) (c : Contract B) (mid : MarketId) (m : Market B)
    (taker : AccountId) (a : Account) (p : NewOrderParams) :
    (Logging.internalPlaceLimitBuy S env c mid m taker a p).erase =
      internalPlaceLimitBuy S env c mid m taker a p := by
  unfold Logging.internalPlaceLimitBuy internalPlaceLimitBuy
  repeat refine Logged.erase_lift_bind fun _ => ?_
  refine Logged.erase_bind (erase_settleMatches ..) fun _ => ?_
  repeat refine Logged.erase_lift_bind fun _ => ?_
  exact Logged.erase_emit_bind Logged.erase_pure

theorem erase_internalPlaceLimitSell (env : Env) (c : Contract B) (mid : MarketId) (m : Market B)
    (taker : AccountId) (a : Account) (p : NewOrderParams) :
    (Logging.internalPlaceLimitSell S env c mid m taker a p).erase =
      internalPlaceLimitSell S env c mid m taker a p := by
  unfold Logging.internalPlaceLimitSell internalPlaceLimitSell
  repeat refine Logged.erase_lift_bind fun _ => ?_
  refine Logged.erase_bind (erase_settleMatches ..) fun _ => ?_
  repeat refine Logged.erase_lift_bind fun _ => ?_
  exact Logged.erase_emit_bind Logged.erase_pure

theorem erase_internalPlaceMarketOrder (c : Contract B) (mid : MarketId) (m : Market B)
    (taker : AccountId) (a : Account) (p : NewOrderParams) :
    (Logging.internalPlaceMarketOrder S c mid m taker a p).erase =
      internalPlaceMarketOrder S c mid m taker a p := by
  unfold Logging.internalPlaceMarketOrder internalPlaceMarketOrder
  repeat refine Logged.erase_lift_bind fun _ => ?_
  refine Logged.erase_bind (erase_settleMatches ..) fun _ => ?_
  repeat refine Logged.erase_lift_bind fun _ => ?_
  exact Logged.erase_emit_bind Logged.erase_pure

theorem erase_placeByType (env : Env) (c : Contract B) (mid : MarketId) (m : Market B)
    (taker : AccountId) (a : Account) (p : NewOrderParams) :
    (Logging.placeByType S env c mid m taker a p).erase = placeByType S env c mid m taker a p := by
  unfold Logging.placeByType placeByType
  split_ifs
  · exact erase_internalPlaceMarketOrder ..
  · cases p.side with
    | buy => exact erase_internalPlaceLimitBuy ..
    | sell => exact erase_internalPlaceLimitSell ..

theorem erase_newOrder (env : Env) (c : Contract B) (mid : MarketId) (p : NewOrderParams) :
    (Logging.newOrder S env c mid p).erase = newOrder S env c mid p := by
  unfold Logging.newOrder newOrder
  repeat refine Logged.erase_lift_bind fun _ => ?_
  refine Logged.erase_bind (erase_placeByType ..) fun _ => ?_
  exact Logged.erase_lift_bind fun _ => Logged.erase_pure

theorem erase_internalSwap (env : Env) (c : Contract B) (mid : MarketId) (m : Market B)
    (side : Side) (n : ℕ) (ref : Option AccountId) :
    (Logging.internalSwap S env c mid m side n ref).erase =
      internalSwap S env c mid m side n ref := by
  unfold Logging.internalSwap internalSwap
  repeat refine Logged.erase_lift_bind fun _ => ?_
  refine Logged.erase_bind (erase_settleMatches ..) fun _ => ?_
  repeat refine Logged.erase_lift_bind fun _ => ?_
  exact Logged.erase_emit_bind Logged.erase_pure

theorem erase_executeSwapAction (env : Env) (c : Contract B) (swap : SwapAction)
    (token : TokenType) (n : ℕ) : (Logging.executeSwapAction S env c swap token n).erase =
      executeSwapAction S env c swap token n := by
  unfold Logging.executeSwapAction executeSwapAction
  repeat refine Logged.erase_lift_bind fun _ => ?_
  refine Logged.erase_bind (erase_internalSwap ..) fun _ => ?_
  exact Logged.erase_lift_bind fun _ => Logged.erase_pure

theorem erase_executeHops (env : Env) : ∀ (swaps : List SwapAction) (c : Contract B)
    (token : TokenType) (n : ℕ), (Logging.executeHops S env c swaps token n).erase =
      executeHops S env c swaps token n
  | [], _, _, _ => rfl
  | _ :: swaps, _, _, _ =>
    Logged.erase_bind (erase_executeSwapAction ..) fun _ => erase_executeHops env swaps _ _ _

theorem erase_executeSwaps (env : Env) (c : Contract B) (swaps : List SwapAction)
    (token : TokenType) (n : ℕ) (id : AccountId) :
    (Logging.executeSwaps S env c swaps token n id).erase =
      executeSwaps S env c swaps token n id := by
  unfold Logging.executeSwaps executeSwaps
  repeat refine Logged.erase_lift_bind fun _ => ?_
  exact Logged.erase_bind (erase_executeHops ..) fun _ => Logged.erase_pure

/-! ## Cancelling -/

theorem erase_internalCancelAllOrders (c : Contract B) (mid : MarketId) (id : AccountId) :
    (Logging.internalCancelAllOrders S c mid id).erase = internalCancelAllOrders S c mid id := by
  unfold Logging.internalCancelAllOrders internalCancelAllOrders
  repeat refine Logged.erase_lift_bind fun _ => ?_
  exact Logged.erase_emit_bind Logged.erase_pure

theorem erase_internalCancelOrder (c : Contract B) (mid : MarketId) (id : AccountId)
    (o : OrderId) : (Logging.internalCancelOrder S c mid id o).erase =
      internalCancelOrder S c mid id o := by
  unfold Logging.internalCancelOrder internalCancelOrder
  refine Logged.erase_lift_bind fun m => Logged.erase_lift_bind fun _ =>
    Logged.erase_lift_bind fun a => ?_
  rcases a.removeOrderInfo mid o with ⟨_ | o', a'⟩
  · exact Logged.erase_lift
  · refine Logged.erase_lift_bind fun _ => Logged.erase_lift_bind fun x => ?_
    obtain ⟨cancels, account⟩ := x
    refine (Logged.erase_lift_bind fun a => ?_).trans (bind_pure _)
    exact Logged.erase_emit_bind Logged.erase_pure

theorem erase_cancelForOwners (mid : MarketId) : ∀ (os : List OpenLimitOrder) (c : Contract B),
    (Logging.cancelForOwners S mid c os).erase = cancelForOwners S mid c os
  | [], _ => rfl
  | _ :: os, _ =>
    Logged.erase_bind (erase_internalCancelOrder ..) fun _ => erase_cancelForOwners mid os _

theorem erase_cancelOrder (env : Env) (c : Contract B) (mid : MarketId) (id : OrderId) :
    (Logging.cancelOrder S env c mid id).erase = cancelOrder S env c mid id :=
  Logged.erase_lift_bind fun _ => erase_internalCancelOrder ..

theorem erase_cancelAllOrders (env : Env) (c : Contract B) (mid : MarketId) :
    (Logging.cancelAllOrders S env c mid).erase = cancelAllOrders S env c mid :=
  Logged.erase_lift_bind fun _ => Logged.erase_lift_bind fun _ =>
    erase_internalCancelAllOrders ..

theorem erase_cancelEachOrder (env : Env) (mid : MarketId) : ∀ (ids : List OrderId)
    (c : Contract B), (Logging.cancelEachOrder S env mid c ids).erase =
      cancelEachOrder S env mid c ids
  | [], _ => rfl
  | _ :: ids, _ =>
    Logged.erase_bind (erase_cancelOrder ..) fun _ => erase_cancelEachOrder env mid ids _

/-! ## Calls -/

theorem erase_executeAction (env : Env) (c : Contract B) (action : Action) :
    (Logging.executeAction S env c action).erase = executeAction S env c action := by
  cases action with
  | newOrder mid p => exact Logged.erase_bind (erase_newOrder ..) fun _ => Logged.erase_pure
  | cancelOrders mid ids =>
    exact Logged.erase_bind (erase_cancelEachOrder ..) fun _ => Logged.erase_pure
  | cancelAllOrders mid =>
    exact Logged.erase_bind (erase_cancelAllOrders ..) fun _ => Logged.erase_pure
  | swap swaps => rfl

theorem erase_executeActions (env : Env) : ∀ (actions : List Action) (c : Contract B),
    (Logging.executeActions S env c actions).erase = executeActions S env c actions
  | [], _ => rfl
  | _ :: actions, _ =>
    Logged.erase_bind (erase_executeAction ..) fun _ =>
      Logged.erase_bind (erase_executeActions env actions _) fun _ => Logged.erase_pure

/-- A market that was created has tokens whose keys were read. -/
theorem createMarket_tokens {args : CreateMarketArgs} {ps : List Promise}
    (h : createMarket S env c args = .ok (mid, ps, c')) :
    ∃ base quote, S.fromKey args.baseToken = .ok base ∧
      S.fromKey args.quoteToken = .ok quote := by
  simp only [createMarket, Checked.bind_eq_ok] at h
  obtain ⟨_, -, _, -, _, -, base, hbase, quote, hquote, -⟩ := h
  exact ⟨base, quote, hbase, hquote⟩

/-- A market that is created is logged. -/
theorem createMarket_writes {args : CreateMarketArgs} {ps : List Promise}
    (h : createMarket S env c args = .ok (mid, ps, c')) :
    ∃ base quote, (Logging.createMarket S env c args).Writes (mid, ps, c')
      [.newMarket ⟨env.predecessorAccountId, mid, base, quote⟩] := by
  obtain ⟨base, quote, hbase, hquote⟩ := createMarket_tokens h
  refine ⟨base, quote, ?_⟩
  simp only [Logging.createMarket, emitEvent, Logged.writes_lift_bind, Logged.writes_emit_bind,
    Logged.writes_pure]
  exact ⟨_, h, base, hbase, quote, hquote, [], ⟨rfl, rfl⟩, rfl⟩

theorem erase_createMarket (env : Env) (c : Contract B) (args : CreateMarketArgs) :
    (Logging.createMarket S env c args).erase = createMarket S env c args := by
  rcases h : createMarket S env c args with e | ⟨mid, ps, c'⟩
  · unfold Logging.createMarket
    rw [h]
    rfl
  · obtain ⟨_, _, hw⟩ := createMarket_writes h
    exact hw.erase

theorem erase_quiet {x : Logging (Contract B)} {y : Call (Contract B)} (h : x.erase = y) :
    (Logging.quiet x).erase = quiet y :=
  Logged.erase_bind h fun _ => Logged.erase_pure

theorem erase_results {α β : Type} {x : Logging (α × β)} {y : Call (α × β)}
    (h : x.erase = y) : (Logging.results x).erase = Prod.snd <$> y :=
  (Logged.erase_bind h fun _ => Logged.erase_pure).trans (bind_pure_comp ..)

/-- **Logging changes nothing.** -/
theorem erase_dispatch (env : Env) (c : Contract B) (op : Op) :
    (Logging.dispatch S env c op).erase = dispatch S env c op := by
  cases op with
  | ftOnTransfer id n msg =>
    refine erase_results (Logged.erase_lift_bind fun _ => ?_)
    cases msg with
    | empty => exact Logged.erase_lift_bind fun _ => Logged.erase_pure
    | swap swaps => exact erase_executeSwaps ..
    | otherAction => rfl
    | invalid => rfl
  | swapNear swaps => exact erase_results (Logged.erase_lift_bind fun _ => erase_executeSwaps ..)
  | createMarket args => exact erase_results (erase_createMarket ..)
  | newOrder mid p => exact erase_quiet (erase_results (erase_newOrder ..))
  | cancelOrder mid id => exact erase_quiet (erase_cancelOrder ..)
  | cancelAllOrders mid => exact erase_quiet (erase_results (erase_cancelAllOrders ..))
  | execute actions =>
    exact erase_quiet (erase_results (Logged.erase_lift_bind fun _ => erase_executeActions ..))
  | adminCancelOrder mid id =>
    exact erase_quiet (Logged.erase_lift_bind fun _ => Logged.erase_lift_bind fun _ =>
      Logged.erase_lift_bind fun _ => erase_internalCancelOrder ..)
  | adminCancelAllUserOrders mid id =>
    exact erase_quiet (erase_results (Logged.erase_lift_bind fun _ =>
      erase_internalCancelAllOrders ..))
  | adminClearOrderbook mid limit =>
    refine erase_quiet (erase_results (Logged.erase_lift_bind fun _ => ?_))
    exact Logged.erase_lift_bind fun _ => Logged.erase_lift_bind fun _ =>
      Logged.erase_bind (erase_cancelForOwners ..) fun _ => Logged.erase_pure
  | _ => exact Logged.erase_lift

theorem erase_perform (env : Env) (c : Contract B) (op : Op) :
    (Logging.perform S env c op).erase = perform S env c op := by
  unfold Logging.perform perform
  split_ifs
  · exact erase_dispatch ..
  · exact Logged.erase_lift_bind fun _ => erase_dispatch ..

end TonicDex
