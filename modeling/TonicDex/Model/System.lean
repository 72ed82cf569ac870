/-
  The contract among accounts and token contracts.

  A state of the system is the state of the contract, the promises not yet
  resolved, and, for each token, how much was received for the exchange and how
  much was sent out.  An event is a call by an account, or the resolution of
  any pending promise; events come in any order.  A call that panics changes
  nothing, and a promise is resolved even if its callback panics.
-/
import TonicDex.Lib.Runs
import TonicDex.Model.Admin

namespace TonicDex

variable {B : Type} (S : Sdk B)

/-! ## Batches (`actions.rs`) -/

/-- An action of a batch. -/
inductive Action where
  | newOrder (marketId : MarketId) (params : NewOrderParams)
  | cancelOrders (marketId : MarketId) (orderIds : List OrderId)
  | cancelAllOrders (marketId : MarketId)
  | swap (swaps : List SwapAction)

def cancelEachOrder (env : Env) (marketId : MarketId) : Contract B → List OrderId →
    Call (Contract B)
  | c, [] => return c
  | c, orderId :: orderIds => do
    let c ← cancelOrder S env c marketId orderId
    cancelEachOrder env marketId c orderIds

inductive ActionResult where
  | order (result : PlaceOrderResult)
  | cancel (orderIds : List OrderId)

def executeAction (env : Env) (c : Contract B) : Action → Call (ActionResult × Contract B)
  | .newOrder marketId params => do
    let (result, c) ← newOrder S env c marketId params
    return (.order result, c)
  | .cancelOrders marketId orderIds => do
    let c ← cancelEachOrder S env marketId c orderIds
    return (.cancel orderIds, c)
  | .cancelAllOrders marketId => do
    let (orderIds, c) ← cancelAllOrders S env c marketId
    return (.cancel orderIds, c)
  | .swap _ => throw (.error .invalidAction)

def executeActions (env : Env) : Contract B → List Action →
    Call (List ActionResult × Contract B)
  | c, [] => return ([], c)
  | c, action :: actions => do
    let (result, c) ← executeAction S env c action
    let (results, c) ← executeActions env c actions
    return (result :: results, c)

def execute (env : Env) (c : Contract B) (actions : List Action) :
    Call (List ActionResult × Contract B) := do
  assertOneYocto env
  executeActions S env c actions

/-! ## Calls -/

/-- The methods of the contract that can change its state.  All but `mtOnTransfer` are
    exported; runs may contain it all the same, as they would if it were. -/
inductive Op where
  | depositNear
  | withdrawNear (amount : ℕ)
  | withdrawFt (token : AccountId) (amount : ℕ)
  | withdrawMt (mtAccountId : AccountId) (tokenId : String) (amount : ℕ)
  | ftOnTransfer (senderId : AccountId) (amount : ℕ) (msg : TransferMsg)
  | mtOnTransfer (previousOwnerIds : List AccountId) (tokenIds : List String)
      (amounts : List ℕ)
  | swapNear (swaps : List SwapAction)
  | storageDeposit (accountId : Option AccountId) (registrationOnly : Option Bool)
  | storageWithdraw (amount : Option ℕ)
  | storageUnregister
  | createMarket (args : CreateMarketArgs)
  | newOrder (marketId : MarketId) (params : NewOrderParams)
  | cancelOrder (marketId : MarketId) (orderId : OrderId)
  | cancelAllOrders (marketId : MarketId)
  | execute (actions : List Action)
  | setContractState (state : ContractState)
  | setOwner (accountId : AccountId)
  | setMarketState (marketId : MarketId) (newState : MarketState)
  | setMarketBidWindow (marketId : MarketId) (minimumBidBps : ℕ)
  | setMarketAskWindow (marketId : MarketId) (maximumAskBps : ℕ)
  | adminDeleteMarket (marketId : MarketId)
  | adminCancelOrder (marketId : MarketId) (orderId : OrderId)
  | adminCancelAllUserOrders (marketId : MarketId) (accountId : AccountId)
  | adminClearOrderbook (marketId : MarketId) (limit : Option ℕ)

/-- The methods marked `#[payable]`. -/
def Op.payable : Op → Bool
  | depositNear | withdrawNear _ | withdrawFt .. | withdrawMt .. | swapNear _
  | storageDeposit .. | storageWithdraw _ | storageUnregister | createMarket _ | execute _ => true
  | _ => false

def swapNear (env : Env) (c : Contract B) (swaps : List SwapAction) :
    Call (ℕ × List Promise × Contract B) := do
  c.assertActive
  executeSwaps S env c swaps .nativeNear env.attachedDeposit env.predecessorAccountId

/-- Pair the state after a call that promises nothing with no promises. -/
def quiet (x : Call (Contract B)) : Call (List Promise × Contract B) := do
  let c ← x
  return ([], c)

/-- A call of a method, its result dropped. -/
def dispatch (env : Env) (c : Contract B) : Op → Call (List Promise × Contract B)
  | .depositNear => quiet (depositNear S env c)
  | .withdrawNear amount => withdrawNear S env c amount
  | .withdrawFt token amount => withdrawFt S env c token amount
  | .withdrawMt mtAccountId tokenId amount => withdrawMt S env c mtAccountId tokenId amount
  | .ftOnTransfer senderId amount msg => Prod.snd <$> ftOnTransfer S env c senderId amount msg
  | .mtOnTransfer owners tokenIds amounts => quiet (mtOnTransfer S env c owners tokenIds amounts)
  | .swapNear swaps => Prod.snd <$> swapNear S env c swaps
  | .storageDeposit accountId registrationOnly =>
    Prod.snd <$> storageDeposit S env c accountId registrationOnly
  | .storageWithdraw amount => Prod.snd <$> storageWithdraw S env c amount
  | .storageUnregister => storageUnregister env c
  | .createMarket args => Prod.snd <$> createMarket S env c args
  | .newOrder marketId params => quiet (Prod.snd <$> newOrder S env c marketId params)
  | .cancelOrder marketId orderId => quiet (cancelOrder S env c marketId orderId)
  | .cancelAllOrders marketId => quiet (Prod.snd <$> cancelAllOrders S env c marketId)
  | .execute actions => quiet (Prod.snd <$> execute S env c actions)
  | .setContractState state => quiet (setContractState env c state)
  | .setOwner accountId => quiet (setOwner env c accountId)
  | .setMarketState marketId newState => quiet (setMarketState env c marketId newState)
  | .setMarketBidWindow marketId bps => quiet (setMarketBidWindow env c marketId bps)
  | .setMarketAskWindow marketId bps => quiet (setMarketAskWindow env c marketId bps)
  | .adminDeleteMarket marketId => quiet (adminDeleteMarket S env c marketId)
  | .adminCancelOrder marketId orderId => quiet (adminCancelOrder S env c marketId orderId)
  | .adminCancelAllUserOrders marketId accountId =>
    quiet (Prod.snd <$> adminCancelAllUserOrders S env c marketId accountId)
  | .adminClearOrderbook marketId limit =>
    quiet (Prod.snd <$> adminClearOrderbook S env c marketId limit)

def perform (env : Env) (c : Contract B) (op : Op) : Call (List Promise × Contract B) := do
  if op.payable then dispatch S env c op
  else do
    assertNoDeposit env
    dispatch S env c op

/-! ## The system -/

structure System (B : Type) where
  contract : Contract B
  pending : List Promise
  received : TokenType → ℕ
  sent : TokenType → ℕ

/-- Add an amount of one token to a tally. -/
def tally (f : TokenType → ℕ) (token : TokenType) (amount : ℕ) : TokenType → ℕ :=
  fun t => if t = token then f t + amount else f t

/-- The tokens a call hands over to the contract, if it succeeds.  The one
    yoctoNEAR some methods ask for as proof of a full-access key is not part of
    any balance and not counted. -/
def paidIn (env : Env) : Op → List (TokenType × ℕ)
  | .depositNear | .swapNear _ | .storageDeposit .. | .createMarket _ =>
    [(.nativeNear, env.attachedDeposit)]
  | .ftOnTransfer _ amount _ => [(.fungibleToken env.predecessorAccountId, amount)]
  | .mtOnTransfer owners tokenIds amounts =>
    ((tokenIds.zip amounts).zip owners).map fun x =>
      (.multiFungibleToken env.predecessorAccountId x.1.1, x.1.2)
  | _ => []

/-- How a promise turned out. -/
inductive Outcome where
  /-- a transfer went through -/
  | successful
  /-- the promised call failed -/
  | failed
  /-- a fungible token contract answered with its decimals, or without metadata -/
  | ftMetadata (decimals : Option ℕ)
  /-- a multi-token contract answered with the decimals of each token asked for -/
  | mtMetadata (metadata : Option (List (Option String)))

inductive Event where
  | call (env : Env) (op : Op)
  | resolve (i : ℕ) (outcome : Outcome)

namespace System

/-- The state after a callback: what it returned, or as before if it panicked. -/
def callback (s : System B) (x : Call (Contract B)) : System B :=
  match x with
  | .ok c => { s with contract := c }
  | .error _ => s

/-- What the resolution of a promise does, its callback included. -/
def resolved (s : System B) : Promise → Outcome → System B
  | .transfer _ amount, .successful => { s with sent := tally s.sent .nativeNear amount }
  | .transfer _ _, _ => s
  | .send receiverId token amount, .successful =>
    { s with sent := tally s.sent token amount }.callback
      (exchangeCallbackPostWithdraw S s.contract token receiverId amount .successful)
  | .send receiverId token amount, _ =>
    s.callback (exchangeCallbackPostWithdraw S s.contract token receiverId amount .failed)
  | .ftMetadata _ marketId pairSide, .ftMetadata decimals =>
    s.callback (onFtMetadata s.contract marketId pairSide decimals)
  | .ftMetadata .., _ => s
  | .mtMetadata _ _ marketId pairSide, .mtMetadata metadata =>
    s.callback (onMtMetadata s.contract marketId pairSide metadata)
  | .mtMetadata .., _ => s

def step (s : System B) : Event → System B
  | .call env op =>
    match perform S env s.contract op with
    | .ok (promises, c) =>
      { contract := c
        pending := s.pending ++ promises
        received := (paidIn env op).foldl (fun f x => tally f x.1 x.2) s.received
        sent := s.sent }
    | .error _ => s
  | .resolve i outcome =>
    match s.pending[i]? with
    | some promise => resolved S { s with pending := s.pending.eraseIdx i } promise outcome
    | none => s

/-- The state after `Contract::new`. -/
def init (ownerId : AccountId) : System B where
  contract := .new ownerId
  pending := []
  received := fun _ => 0
  sent := fun _ => 0

/-- The states reached from a new contract by events that `ok` allows. -/
abbrev Reach (ok : System B → Event → Prop) : System B → Prop :=
  Runs.Reach (fun s => ∃ ownerId, s = init ownerId) (step S) ok

/-- The states reached by any events. -/
abbrev Reachable : System B → Prop := Reach S fun _ _ => True

end System

end TonicDex
