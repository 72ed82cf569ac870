/-
  Settling trades (`settlement.rs`).

  Balance changes are settled in two stages: the makers of the fills first,
  then the taker, whose account the caller holds in memory meanwhile.  Between
  the two, what is left of the taker fee after maker rebates goes to the
  referrer, if the referrer's account can take it, and else to the market.
-/
import TonicDex.Model.Contract

namespace TonicDex

variable {B : Type} (S : Sdk B)

/-- What settling the maker side of some fills moved. -/
structure MakerSettlementResult where
  baseTraded : ℕ
  quoteTraded : ℕ
  totalMakerRebate : ℕ

def MakerSettlementResult.default : MakerSettlementResult := ⟨0, 0, 0⟩

/-- The token and amount a maker is paid for a fill, besides the rebate. -/
def makerProceeds (market : Market B) (side : Side) (fill : Match) (nativeFillQty : ℕ) :
    TokenType × ℕ :=
  match side with
  -- the taker paid quote
  | .buy => (market.quoteToken.tokenType, fill.nativeQuotePaid)
  -- the taker sold base
  | .sell => (market.baseToken.tokenType, nativeFillQty)

/-- What a fill does to the maker's account, and the rebate it was paid. -/
def creditMaker (marketId : MarketId) (market : Market B) (side : Side) (fill : Match)
    (nativeFillQty : ℕ) (makerAccount : Account) : Call (ℕ × Account) := do
  let makerAccount :=
    if fill.didRemoveMakerOrder then (makerAccount.removeOrderInfo marketId fill.makerOrderId).2
    else makerAccount
  let feeCalculator := FeeCalculator.new makerAccount market
  let nativeMakerRebate ← feeCalculator.makerRebate fill.nativeQuotePaid
  let makerAccount ← makerAccount.deposit S market.quoteToken.tokenType nativeMakerRebate
  let (token, amount) := makerProceeds market side fill nativeFillQty
  let makerAccount ← makerAccount.deposit S token amount
  return (nativeMakerRebate, makerAccount)

/-- One round of the loop of `internal_settle_maker_fills`. -/
def settleMakerFill (marketId : MarketId) (market : Market B) (side : Side)
    (acc : MakerSettlementResult × Contract B) (fill : Match) :
    Call (MakerSettlementResult × Contract B) := do
  let (total, c) := acc
  -- the native price is only reported, but computing it can overflow
  let _ ← market.quoteLotsToNative fill.fillPriceLots
  let nativeFillQty ← market.baseLotsToNative fill.fillQtyLots
  let baseTraded ← u128 (total.baseTraded + nativeFillQty)
  let quoteTraded ← u128 (total.quoteTraded + fill.nativeQuotePaid)
  let makerAccount ← c.internalUnwrapAccount fill.makerUserId
  let (nativeMakerRebate, makerAccount) ←
    creditMaker S marketId market side fill nativeFillQty makerAccount
  let totalMakerRebate ← u128 (total.totalMakerRebate + nativeMakerRebate)
  let c ← c.internalSaveAccount S fill.makerUserId makerAccount
  return (⟨baseTraded, quoteTraded, totalMakerRebate⟩, c)

/-- Settle the maker accounts of matched orders. -/
def internalSettleMakerFills (c : Contract B) (marketId : MarketId) (market : Market B)
    (side : Side) (fills : List Match) : Call (MakerSettlementResult × Contract B) :=
  fills.foldlM (settleMakerFill S marketId market side) (.default, c)

/-- Pay the net taker fee to the referrer and return the amount paid: zero if
    there is no such account, or its storage does not cover the entry. -/
def internalSettleReferrerRebate (c : Contract B) (quoteToken : TokenType)
    (referrerId : Option AccountId) (takerFeeLessMakerRebate : ℕ) : Call (ℕ × Contract B) :=
  match referrerId with
  | none => return (0, c)
  | some id =>
    match c.internalGetAccount id with
    | none => return (0, c)
    | some referrerAccount => do
      let rebate := referrerRebate takerFeeLessMakerRebate
      let referrerAccount ← referrerAccount.deposit S quoteToken rebate
      match c.internalTrySaveAccount S id referrerAccount with
      | some c => return (rebate, c)
      | none => return (0, c)

/-- The amounts of a trade: what was exchanged, and how the fee was split. -/
structure Settled extends MakerSettlementResult where
  totalTakerFee : ℕ
  referrerRebate : ℕ

/-- What remains of the taker fee for the market. -/
def Settled.netFee (s : Settled) : Call ℕ := do
  let rest ← sub s.totalTakerFee s.totalMakerRebate
  sub rest s.referrerRebate

/-- The block that follows matching in every order path: settle the makers,
    compute the taker fee and settle the referrer.  Only the text of the
    assertion differs. -/
def settleMatches (c : Contract B) (marketId : MarketId) (market : Market B)
    (feeCalculator : FeeCalculator) (side : Side) (fills : List Match)
    (referrerId : Option AccountId) (bug : String) : Call (Settled × Contract B) := do
  let (makers, c) ← internalSettleMakerFills S c marketId market side fills
  let totalTakerFee ← feeCalculator.takerFee makers.quoteTraded
  let net ← sub totalTakerFee makers.totalMakerRebate
  let (referrerRebate, c) ←
    internalSettleReferrerRebate S c market.quoteToken.tokenType referrerId net
  let rebates ← u128 (referrerRebate + makers.totalMakerRebate)
  assert (rebates ≤ totalTakerFee) bug
  return (⟨makers, totalTakerFee, referrerRebate⟩, c)

end TonicDex
