/-
  Who can trade with whom.

  The engine does not match an order with one of the account it is given.  For
  `new_order` that is the predecessor, on whose behalf the order runs.  A hop of
  a swap gives it the signer, but runs on behalf of `sender_id`, who supplied
  the input: when the two differ, nothing keeps a swap from filling an order of
  its own sender, if one rests where a hop takes from (`Guarded`).
-/
import TonicDex.Invariant.Budget
import TonicDex.Invariant.SwapInput

namespace TonicDex

variable {B : Type} {S : Sdk B} {c c' : Contract B} {mid : MarketId} {m : Market B} {env : Env}
  {n : NewOrder} {p : NewOrderParams} {swap : SwapAction} {swaps : List SwapAction}
  {token : TokenType} {amount : ℕ} {senderId : AccountId} {f : Match}

open Consult

/-! ## The fills of a call -/

/-- The chain `swaps` executes the fill `f`: it is in the answer of the engine to
    the order that a hop hands over, for the account and the book it hands over. -/
inductive HopFill (S : Sdk B) (env : Env) (f : Match) :
    Contract B → List SwapAction → TokenType → ℕ → Prop
  | here {c : Contract B} {swap : SwapAction} {swaps : List SwapAction} {token : TokenType}
      {amount : ℕ} {b b' : B} {taker : AccountId} {n : NewOrder} {r : PlaceOrderResult}
      (handed : Hands S (fun S => executeSwapAction S env c swap token amount) b taker n)
      (answered : S.placeOrder b taker n = .ok (r, b')) (fill : f ∈ r.fills) :
      HopFill S env f c (swap :: swaps) token amount
  | later {c c₁ : Contract B} {swap : SwapAction} {swaps : List SwapAction} {token : TokenType}
      {amount : ℕ} {out : SwapResult}
      (returned : executeSwapAction S env c swap token amount = .ok (out, c₁))
      (rest : HopFill S env f c₁ swaps out.outputToken out.outputAmount) :
      HopFill S env f c (swap :: swaps) token amount

/-- The orders of a batch execute the fill `f`. -/
inductive ActionFill (S : Sdk B) (env : Env) (f : Match) : Contract B → List Action → Prop
  | here {c : Contract B} {mid : MarketId} {p : NewOrderParams} {actions : List Action} {b b' : B}
      {taker : AccountId} {n : NewOrder} {r : PlaceOrderResult}
      (handed : Hands S (fun S => newOrder S env c mid p) b taker n)
      (answered : S.placeOrder b taker n = .ok (r, b')) (fill : f ∈ r.fills) :
      ActionFill S env f c (.newOrder mid p :: actions)
  | later {c c₁ : Contract B} {action : Action} {actions : List Action} {result : ActionResult}
      (returned : executeAction S env c action = .ok (result, c₁))
      (rest : ActionFill S env f c₁ actions) : ActionFill S env f c (action :: actions)

/-- A call executes the fill `f`. -/
inductive Executes (S : Sdk B) (env : Env) (c : Contract B) (f : Match) : Op → Prop
  | newOrder {mid : MarketId} {p : NewOrderParams}
      (fill : ActionFill S env f c [.newOrder mid p]) : Executes S env c f (.newOrder mid p)
  | execute {actions : List Action} (fill : ActionFill S env f c actions) :
      Executes S env c f (.execute actions)
  | swapNear {swaps : List SwapAction}
      (fill : HopFill S env f c swaps .nativeNear env.attachedDeposit) :
      Executes S env c f (.swapNear swaps)
  | ftOnTransfer {senderId : AccountId} {amount : ℕ} {swaps : List SwapAction}
      (fill : HopFill S env f c swaps (.fungibleToken env.predecessorAccountId) amount) :
      Executes S env c f (.ftOnTransfer senderId amount (.swap swaps))

/-- The account on whose behalf the orders of a call run. -/
def Op.onBehalfOf (env : Env) : Op → AccountId
  | .ftOnTransfer senderId _ _ => senderId
  | _ => env.predecessorAccountId

/-! ## Orders -/

theorem newOrder_hands_found {b : B} {taker : AccountId}
    (h : Hands S (fun S => newOrder S env c mid p) b taker n) :
    ∃ m, c.markets.lookup mid = some m := by
  obtain ⟨_, -, h⟩ := (asks_bind_left_iff fun _ => rfl).1 h
  obtain ⟨_, -, h⟩ := (asks_bind_left_iff fun _ => rfl).1 h
  obtain ⟨m, hm, -⟩ := (asks_bind_left_iff fun _ => rfl).1 h
  exact ⟨m, Contract.internalUnwrapMarket_eq_ok.1 hm⟩

theorem executeSwapAction_hands_found {b : B} {taker : AccountId}
    (h : Hands S (fun S => executeSwapAction S env c swap token amount) b taker n) :
    ∃ m, c.markets.lookup swap.marketId = some m := by
  obtain ⟨m, hm, -⟩ := (asks_bind_left_iff fun _ => rfl).1 h
  exact ⟨m, Contract.internalUnwrapMarket_eq_ok.1 hm⟩

/-- A fill has a resting order, of another account than the one handed over. -/
theorem Placed.maker {b b' : B} {taker : AccountId} {r : PlaceOrderResult}
    (h : Placed S b taker n r b') (hf : f ∈ r.fills) :
    f.makerUserId ≠ taker ∧ ∃ o ∈ S.resting b n.side.opposite, f.makerUserId = o.ownerId := by
  obtain ⟨o, ho, -, o', hsh, hfit⟩ := h.filled.target Shrunk Shrunk.refl
    (fun _ _ _ => Shrunk.trans) (fun _ _ _ => Shrunk.of_reduce) f hf
  refine ⟨hfit.maker ▸ hfit.other, o, ho, ?_⟩
  rw [hfit.maker, hsh.1]

/-- The orders of a batch do not trade with the predecessor. -/
theorem ActionFill.maker_ne (hB : BookLaws S) {actions : List Action}
    (h : ActionFill S env f c actions) (hc : BooksOk S c) :
    f.makerUserId ≠ env.predecessorAccountId := by
  induction h with
  | here handed answered fill =>
    obtain ⟨m, hm⟩ := newOrder_hands_found handed
    have hnext := (newOrder_asks hm).of_hands handed
    obtain rfl := hnext.book
    obtain rfl := hnext.taker
    exact ((hnext.placed hB (hc _ m hm) answered).maker fill).1
  | later returned _ ih =>
    obtain ⟨es, hes, -⟩ := executeAction_effects hB returned
    exact ih (hes.invariant (fun _ _ _ _ he hc => he.booksOk hB hc) hc)

/-! ## Hops -/

/-- The sender of a swap has signed it, or owns no order that rests on a side from
    which a hop takes. -/
def Guarded (S : Sdk B) (env : Env) (c : Contract B) (senderId : AccountId)
    (swaps : List SwapAction) : Prop :=
  env.signerAccountId = senderId ∨ ∀ swap ∈ swaps, ∀ m, c.markets.lookup swap.marketId = some m →
    ∀ o ∈ S.resting m.orderbook swap.side.opposite, o.ownerId ≠ senderId

/-- A hop gives nobody an order. -/
theorem Guarded.of_hop (hB : BookLaws S) (hc : BooksOk S c) {out : SwapResult}
    (hop : HopRun S env c swap token amount out c')
    (h : Guarded S env c senderId (swap :: swaps)) : Guarded S env c' senderId swaps := by
  obtain hsigner | hnone := h
  · exact .inl hsigner
  refine .inr fun swap' hswap' m hm o ho => ?_
  have hnone' := hnone swap' (List.mem_cons_of_mem _ hswap')
  rw [hop.markets_eq, HMap.lookup_insert_eq] at hm
  split_ifs at hm with heq
  · cases hm
    have hplaced := hop.traded.placement hB (hc _ _ hop.found)
    obtain ⟨o₀, ho₀, hsh⟩ | ⟨-, hposted, -⟩ := hplaced.origin ho
    · rw [hsh.1]
      exact hnone' hop.m (heq ▸ hop.found) o₀ ho₀
    · exact absurd hop.type (hplaced.posted hposted).1
  · exact hnone' m hm o ho

/-- A guarded chain does not trade with its sender. -/
theorem HopFill.maker_ne (hB : BookLaws S) (h : HopFill S env f c swaps token amount)
    (hc : BooksOk S c) (hguard : Guarded S env c senderId swaps) : f.makerUserId ≠ senderId := by
  induction h with
  | here handed answered fill =>
    obtain ⟨m, hm⟩ := executeSwapAction_hands_found handed
    have hnext := (executeSwapAction_asks hm).of_hands handed
    obtain rfl := hnext.book
    obtain rfl := hnext.taker
    obtain ⟨hne, o, ho, howner⟩ := (hnext.placed hB (hc _ m hm) answered).maker fill
    obtain hsigner | hnone := hguard
    · exact hsigner ▸ hne
    · rw [howner]
      exact hnone _ List.mem_cons_self m hm o (hnext.order.ofSide ▸ ho)
  | later returned _ ih =>
    obtain ⟨run⟩ := executeSwapAction_ok returned
    exact ih ((Does.hop run).booksOk hB hc) (hguard.of_hop hB hc run)

/-! ## Calls -/

/-- Nothing is asked of a call but that a swap be guarded. -/
def Op.Guarded (S : Sdk B) (env : Env) (c : Contract B) : Op → Prop
  | .swapNear swaps => TonicDex.Guarded S env c env.predecessorAccountId swaps
  | .ftOnTransfer senderId _ (.swap swaps) => TonicDex.Guarded S env c senderId swaps
  | _ => True

/-- **No self-trade, where swaps are guarded.**  In every run, whatever else
    happens in it and whoever signs and makes the call: no fill that a call
    executes, whether it returns or panics later, has as its maker the account on
    whose behalf the call runs, provided that a swap is signed by its sender, or
    that its sender owns no order resting on a side from which the swap takes. -/
theorem no_self_trade (hB : BookLaws S) {s : System B}
    (hs : System.Reachable S s) {op : Op} (hguard : op.Guarded S env s.contract)
    (hf : Executes S env s.contract f op) : f.makerUserId ≠ op.onBehalfOf env := by
  have hc := booksOk_of_reach hB hs
  cases hf with
  | newOrder fill => exact fill.maker_ne hB hc
  | execute fill => exact fill.maker_ne hB hc
  | swapNear fill => exact fill.maker_ne hB hc hguard
  | ftOnTransfer fill => exact fill.maker_ne hB hc hguard

/-- A buy of `btc` for the `usd` that `senderId` transfers. -/
def buysFor (senderId : AccountId) : Op :=
  .ftOnTransfer senderId 1000 (.swap [⟨Engine.btcUsd, .buy, some 1, none⟩])

/-- A transaction that Bob signed, by whichever contracts, makes the `usd` contract
    report a transfer. -/
def signedByBob : Env := { Engine.calling Engine.usd 0 with signerAccountId := Engine.bob }

/-- Whoever sent the `usd`, Alice's ask is filled. -/
theorem executes_alice (senderId : AccountId) : ∃ f,
    Executes Engine.sdk signedByBob (Engine.run Engine.asked).contract f (buysFor senderId) ∧
      f.makerUserId = Engine.alice := by
  have hhop : Engine.stoppedBy (executeSwapAction Engine.sdk signedByBob
      (Engine.run Engine.asked).contract ⟨Engine.btcUsd, .buy, some 1, none⟩
      (.fungibleToken Engine.usd) 1000) = none := by
    decide +kernel
  have hasks : ((Engine.run Engine.asked).contract.markets.lookup Engine.btcUsd).map (fun m =>
      (Engine.sdk.resting m.orderbook .sell).map OpenLimitOrder.ownerId) =
      some [Engine.alice] := by
    decide +kernel
  obtain ⟨⟨out, c'⟩, hexec⟩ := Engine.eq_ok_of_stoppedBy hhop
  obtain ⟨run⟩ := executeSwapAction_ok hexec
  -- the swap has put out something, so there is a fill
  obtain ⟨f, hf⟩ : ∃ f, f ∈ run.r.fills := by
    refine List.exists_mem_of_ne_nil _ fun hnil => ?_
    have hmin : 1 ≤ out.outputAmount := run.minOutput
    have hout := congrArg Prod.snd run.output
    have hbase := congrArg MakerSettlementResult.baseTraded run.traded.settled.totals
    rw [hnil] at hbase
    simp only [takerCredit] at hout
    simp [Market.totals] at hbase
    omega
  have hc := booksOk_of_reach Engine.bookLaws (Engine.reachable_run Engine.asked)
  obtain ⟨-, o, ho, howner⟩ :=
    (run.traded.placement Engine.bookLaws (hc _ _ run.found)).maker hf
  refine ⟨f, .ftOnTransfer (.here (run.handed hexec) run.traded.placed hf), ?_⟩
  rw [run.found, Option.map_some, Option.some.injEq] at hasks
  rw [run.side] at ho
  have hmem : o.ownerId ∈ [Engine.alice] := hasks ▸ List.mem_map_of_mem ho
  exact howner.trans (List.mem_singleton.1 hmem)

/-- Bob's own swap does not trade with Bob. -/
theorem no_self_trade_bob : ∃ f, Executes Engine.sdk signedByBob
      (Engine.run Engine.asked).contract f (buysFor Engine.bob) ∧ f.makerUserId ≠ Engine.bob := by
  obtain ⟨f, hf, -⟩ := executes_alice Engine.bob
  have hguard : (buysFor Engine.bob).Guarded Engine.sdk signedByBob
      (Engine.run Engine.asked).contract := Or.inl rfl
  exact ⟨f, hf, no_self_trade Engine.bookLaws
    (Engine.reachable_run Engine.asked) hguard hf⟩

/-- Alice's swap, in a transaction that Bob signed, fills her own ask. -/
theorem self_trade : ∃ s, System.Reachable Engine.sdk s ∧ ∃ f,
    Executes Engine.sdk signedByBob s.contract f (buysFor Engine.alice) ∧
      f.makerUserId = (buysFor Engine.alice).onBehalfOf signedByBob ∧
      ∃ x, perform Engine.sdk signedByBob s.contract (buysFor Engine.alice) = .ok x := by
  have hcall : Engine.stoppedBy (perform Engine.sdk signedByBob
      (Engine.run Engine.asked).contract (buysFor Engine.alice)) = none := by
    decide +kernel
  obtain ⟨f, hf, hmaker⟩ := executes_alice Engine.alice
  exact ⟨_, Engine.reachable_run Engine.asked, f, hf, hmaker, Engine.eq_ok_of_stoppedBy hcall⟩

end TonicDex
