/-
  With what the parts of a call can panic.

  Most of what a call does can only panic on arithmetic, on a missing value or
  with a message of `tonic_sdk::errors` (`Ordinary`).  So the messages of the
  contract itself that a call can panic with (`Says`) come from its assertions.
-/
import TonicDex.Model.System

namespace TonicDex

variable {B : Type} {S : Sdk B} {c : Contract B} {mid : MarketId} {m : Market B} {a : Account}
  {id : AccountId} {P : Panic → Prop}

open Checked

/-! ## Kinds of panics -/

/-- The panics that are no messages of the contract itself. -/
structure Ordinary (P : Panic → Prop) : Prop where
  arithmetic : P .arithmetic
  unwrap : P .unwrap
  error : ∀ code, P (.error code)

/-- The messages of the contract that `x` can panic with are among `texts`. -/
def Says {α : Type} (texts : List String) (x : Call α) : Prop :=
  FailsOnly (fun e => ∀ text, e = .message text → text ∈ texts) x

theorem ordinary_texts (texts : List String) :
    Ordinary (fun e => ∀ text, e = .message text → text ∈ texts) :=
  ⟨nofun, nofun, nofun⟩

theorem Says.ne_message {α : Type} {texts : List String} {x : Call α} (h : Says texts x)
    {text : String} (ht : text ∉ texts) : x ≠ .error (.message text) :=
  h.ne_error fun hp => ht (hp text rfl)

theorem says_assert {texts : List String} {p : Prop} [Decidable p] {text : String}
    (h : text ∈ texts) : Says texts (assert p text) :=
  .require fun _ ht => Panic.message.inj ht ▸ h

/-! ## Accounts -/

theorem Account.deposit_fails {token : TokenType} {n : ℕ} (h : P .arithmetic) :
    FailsOnly P (a.deposit S token n) := by
  unfold Account.deposit
  cases a.balances.lookup (S.key token) with
  | none => exact .pure _
  | some x => exact .bind (.fit h) fun _ _ => .pure _

theorem Account.withdraw_fails {token : TokenType} {n : ℕ}
    (h : P (.error .insufficientBalance)) : FailsOnly P (a.withdraw S token n) := by
  unfold Account.withdraw
  cases a.balances.lookup (S.key token) with
  | none => exact .throw h
  | some x =>
    dsimp only
    split_ifs
    · exact .throw h
    · exact .pure _
    · exact .pure _

theorem savePosted_fails {env : Env} {r : PlaceOrderResult} {q : ℕ}
    (h : P (.error .exceededOrderLimit)) : FailsOnly P (savePosted env mid m a r q) := by
  unfold savePosted Account.saveNewOrderInfo
  split_ifs
  · cases a.openOrders.lookup mid with
    | none => exact .pure _
    | some os =>
      dsimp only
      split_ifs
      · exact .throw h
      · exact .pure _
  · exact .pure _

theorem Contract.internalSaveAccount_fails (h : P (.error .insufficientStorageBalance)) :
    FailsOnly P (c.internalSaveAccount S id a) :=
  .bind (.require h) fun _ _ => .pure _

/-! ## Conversions and fees -/

namespace Market

theorem reportedPrices_fails {bid ask : Option ℕ} (h : P .arithmetic) :
    FailsOnly P (m.reportedPrices bid ask) := by
  refine .bind (.option_mapM fun _ _ => .fit h) fun _ _ => ?_
  exact .bind (.option_mapM fun _ _ => .fit h) fun _ _ => .pure _

theorem quoteNativeToLots_fails {n : ℕ} (h : P .arithmetic) :
    FailsOnly P (m.quoteNativeToLots n) :=
  .bind (.div h) fun _ _ => .pure _

theorem baseNativeToLots_fails {n : ℕ} (h : P .arithmetic) :
    FailsOnly P (m.baseNativeToLots n) :=
  .bind (.div h) fun _ _ => .pure _

theorem affordableLots_fails {lots limit : ℕ} (h : P .arithmetic) :
    FailsOnly P (m.affordableLots lots limit) := by
  refine .bind (.fit h) fun _ _ => .bind (.fit h) fun _ _ => .bind (.fit h) fun _ _ => ?_
  exact .bind (.div h) fun _ _ => .bind (.div h) fun _ _ => .fit h

theorem quoteLocked_fails {lots limit : ℕ} (h : P .arithmetic) :
    FailsOnly P (m.quoteLocked lots limit) :=
  .bind (.fit h) fun _ _ => .bind (.fit h) fun _ _ => .bind (.fit h) fun _ _ => .fit h

theorem getMaxBidDebit_fails {p : NewOrderParams} (h : Ordinary P) :
    FailsOnly P (m.getMaxBidDebit p) := by
  unfold getMaxBidDebit
  cases p.maxSpend with
  | some q => exact .pure q
  | none =>
    refine .bind (.expect (h.error _)) fun _ _ => .bind (.fit h.arithmetic) fun _ _ => ?_
    exact .bind (.fit h.arithmetic) fun _ _ => .fit h.arithmetic

theorem incrFeesAccrued_fails {n : ℕ} (h : P .arithmetic) : FailsOnly P (m.incrFeesAccrued n) :=
  .bind (.fit h) fun _ _ => .pure _

end Market

theorem FeeCalculator.atRate_fails {rate q : ℕ} (h : P .unwrap) :
    FailsOnly P (FeeCalculator.atRate rate q) :=
  .bind (.fit h) fun _ _ => .pure _

theorem FeeCalculator.withholdTakerFee_fails {fee : FeeCalculator} {q : ℕ} (h : P .unwrap) :
    FailsOnly P (fee.withholdTakerFee q) :=
  .bind (atRate_fails h) fun _ _ => .pure _

theorem marketOrderBudget_fails {fee : FeeCalculator} {side : Side} {q : Option ℕ}
    (h : Ordinary P) : FailsOnly P (marketOrderBudget m fee side q) := by
  cases side with
  | sell => exact .pure _
  | buy =>
    cases q with
    | none => exact .pure _
    | some q =>
      refine .bind (FeeCalculator.withholdTakerFee_fails h.unwrap) fun _ _ => ?_
      exact .bind (Market.quoteNativeToLots_fails h.arithmetic) fun _ _ => .pure _

theorem swapQuantity_fails {fee : FeeCalculator} {side : Side} {q : ℕ} (h : P .unwrap) :
    FailsOnly P (swapQuantity fee side q) := by
  cases side with
  | sell => exact .pure _
  | buy => exact .bind (FeeCalculator.withholdTakerFee_fails h) fun _ _ => .pure _

theorem takerAmounts_fails {s : Settled} {side : Side} (h : P .arithmetic) :
    FailsOnly P (takerAmounts s side) := by
  cases side with
  | sell => exact .bind (.sub h) fun _ _ => .pure _
  | buy => exact .bind (.fit h) fun _ _ => .pure _

theorem outputAmount_fails {s : Settled} {side : Side} (h : P .arithmetic) :
    FailsOnly P (outputAmount s side) := by
  cases side with
  | sell => exact .sub h
  | buy => exact .pure _

theorem inputRefund_fails {s : Settled} {side : Side} {n q : ℕ} (h : P .arithmetic) :
    FailsOnly P (inputRefund s side n q) := by
  cases side with
  | sell => exact .sub h
  | buy => exact .bind (.sub h) fun _ _ => .sub h

/-! ## Settlement -/

theorem creditMaker_fails {side : Side} {f : Match} {n : ℕ} (h : Ordinary P) :
    FailsOnly P (creditMaker S mid m side f n a) := by
  refine .bind (FeeCalculator.atRate_fails h.unwrap) fun _ _ => ?_
  refine .bind (Account.deposit_fails h.arithmetic) fun _ _ => ?_
  exact .bind (Account.deposit_fails h.arithmetic) fun _ _ => .pure _

theorem internalSettleMakerFills_fails {side : Side} {fs : List Match} (h : Ordinary P) :
    FailsOnly P (internalSettleMakerFills S c mid m side fs) := by
  refine .foldlM fun acc f => ?_
  refine .bind (.fit h.arithmetic) fun _ _ => .bind (.fit h.arithmetic) fun _ _ => ?_
  refine .bind (.fit h.arithmetic) fun _ _ => .bind (.fit h.arithmetic) fun _ _ => ?_
  refine .bind (.expect (h.error _)) fun _ _ => .bind (creditMaker_fails h) fun _ _ => ?_
  refine .bind (.fit h.arithmetic) fun _ _ => ?_
  exact .bind (Contract.internalSaveAccount_fails (h.error _)) fun _ _ => .pure _

/-- **Paying the referrer fails only when an existing balance overflows**, and
    not for want of an account or of storage. -/
theorem internalSettleReferrerRebate_fails {token : TokenType} {referrerId : Option AccountId}
    {net : ℕ} (h : P .arithmetic) :
    FailsOnly P (internalSettleReferrerRebate S c token referrerId net) := by
  unfold internalSettleReferrerRebate
  rcases referrerId with _ | id
  · exact .pure _
  dsimp only
  rcases c.internalGetAccount id with _ | a
  · exact .pure _
  refine .bind (Account.deposit_fails h) fun b _ => ?_
  cases c.internalTrySaveAccount S id b with
  | none => exact .pure _
  | some c' => exact .pure _

theorem Settled.netFee_fails {s : Settled} (h : P .arithmetic) : FailsOnly P s.netFee :=
  .bind (.sub h) fun _ _ => .sub h

/-! ## Refunds and views -/

theorem getRefundAmount_fails {x : OpenLimitOrder} (h : P .arithmetic) (hu : P .unwrap) :
    FailsOnly P (getRefundAmount m x) := by
  unfold getRefundAmount
  cases x.side with
  | buy =>
    refine .bind ?_ fun _ _ => .pure _
    refine .bind (.fit h) fun _ _ => .bind (.fit h) fun _ _ => .bind (.fit h) fun _ _ => ?_
    exact .bind (.fit h) fun _ _ => .fit h
  | sell => exact .bind (.fit hu) fun _ _ => .pure _

theorem processRefund_fails {acc : List CancelEventData × Account} {r : CancelOrderResult}
    (h : P .arithmetic) (hu : P .unwrap) (hm : P (.message "order is not owned by account")) :
    FailsOnly P (processRefund S m mid id acc r) := by
  refine .bind (.require hm) fun _ _ => .bind (getRefundAmount_fails h hu) fun _ _ => ?_
  refine .bind (Account.deposit_fails h) fun _ _ => .bind (.fit h) fun _ _ => ?_
  exact .bind (Market.reportedPrices_fails h) fun _ _ => .pure _

theorem orderToView_fails {x : OpenLimitOrder} {base quote : ℕ} {q t : Option ℕ}
    (h : P .arithmetic) : FailsOnly P (orderToView x base quote q t) := by
  refine .bind (.option_mapM fun _ _ => .fit h) fun _ _ => ?_
  exact .bind (.fit h) fun _ _ => .bind (.fit h) fun _ _ => .pure _

end TonicDex
