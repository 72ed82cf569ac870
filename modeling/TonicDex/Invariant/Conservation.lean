/-
  Conservation.

  Solvency says that what is owed was received.  Here is where the rest of it is.
  `System.keeps` lists what an event leaves with the contract that is nobody's:
  what a call keeps, NEAR whose transfer failed, and tokens whose transfer failed
  and that nobody could be credited with.  If calls lose nothing else
  (`LosesNothing`), then in every run what is owed, promised, sent out and kept is
  exactly what was received (`conserved`).
-/
import TonicDex.Invariant.Kept
import TonicDex.Invariant.SwapInput

namespace TonicDex

variable {B : Type} {S : Sdk B} {c c' : Contract B} {es : List (Effect B)} {mid : MarketId}
  {s : System B}

/-! ## What an event keeps -/

/-- What the resolution of a promise keeps: a transfer failed, and so did its refund. -/
def System.strands (S : Sdk B) (s : System B) : Promise → Outcome → List (TokenType × ℕ)
  | .transfer .., .successful | .send .., .successful => []
  | .transfer _ n, _ => [(.nativeNear, n)]
  | .send id token n, _ =>
    match exchangeCallbackPostWithdraw S s.contract token id n .failed with
    | .ok _ => []
    | .error _ => [(token, n)]
  | _, _ => []

/-- What an event leaves with the contract that is nobody's. -/
def System.keeps (S : Sdk B) (s : System B) : Event → List (TokenType × ℕ)
  | .call env op =>
    match perform S env s.contract op with
    | .ok (ps, c') => op.keeps S env s.contract ps c'
    | .error _ => []
  | .resolve i out =>
    match s.pending[i]? with
    | some p => s.strands S p out
    | none => []

/-! ## Resolutions -/

/-- Metadata moves nothing. -/
theorem Callback.owed_eq (hB : BookLaws S) (hT : TokenLaws S) {side : PairSide}
    (h : Callback S c mid side es) (hes : Effects S c es c') (hc : BooksOk S c)
    (hkeep : ∀ mid m m', c.markets.lookup mid = some m → S.orders m.orderbook ≠ [] →
      c'.markets.lookup mid = some m' → m'.baseToken.decimals = m.baseToken.decimals)
    (token : TokenType) : c'.owed S token = c.owed S token := by
  have single : ∀ e : Effect B, Does S c e c' → e.Lossless c → e.inflow.2 = 0 →
      e.outflow.2 = 0 → e.leaves.2 = 0 → c'.owed S token = c.owed S token := by
    intro e hdo hl hin hout hleft
    have hflow := hdo.flow_eq hB hT hc (hdo.not_rescales hkeep) hl token
    rw [amountOf, amountOf, amountOf, hin, hout, hleft, ite_self, ite_self, ite_self] at hflow
    exact hflow
  cases h with
  | nothing =>
    cases hes
    rfl
  | unchanged | ft | mt => exact single _ hes.of_single trivial rfl rfl rfl

/-- All that was received is owed, promised, sent out or kept. -/
def Conserves (S : Sdk B) (s : System B) (kept : TokenType → ℕ) : Prop :=
  ∀ token, s.contract.owed S token + promised s.pending token + s.sent token + kept token =
    s.received token

theorem promised_erase {i : ℕ} {p : Promise} (h : s.pending[i]? = some p) (token : TokenType) :
    amountOf p.value token + promised (s.pending.eraseIdx i) token = promised s.pending token := by
  have hperm := ((System.pending_perm h).map fun p => amountOf p.value token).sum_eq
  rwa [List.map_cons, List.sum_cons] at hperm

theorem tally_eq (f : TokenType → ℕ) (t : TokenType) (n : ℕ) (token : TokenType) :
    tally f t n token = f token + amountOf (t, n) token := by
  rw [tally, amountOf]
  split_ifs
  · rfl
  · rfl

/-- **What a promise pays is sent, owed again or kept.** -/
theorem resolve_conserves (hB : BookLaws S) (hT : TokenLaws S) {i : ℕ} {out : Outcome}
    {p : Promise} (hc : BooksOk S s.contract) (hok : KeepsScale S s (.resolve i out))
    (hp : s.pending[i]? = some p) {kept : TokenType → ℕ} (h : Conserves S s kept) :
    Conserves S (System.step S s (.resolve i out)) fun token =>
      kept token + sumOf (s.strands S p out) token := by
  intro token
  have hold := h token
  have hpend := promised_erase hp token
  have hstep : System.step S s (.resolve i out) =
      System.resolved S { s with pending := s.pending.eraseIdx i } p out := by
    simp only [System.step, hp]
  cases p with
  | transfer id n =>
    have failed : s.contract.owed S token + promised (s.pending.eraseIdx i) token + s.sent token +
        (kept token + sumOf [(.nativeNear, n)] token) = s.received token := by
      simp only [Promise.value, sumOf_cons, sumOf_nil] at hpend ⊢
      omega
    rw [hstep]
    cases out with
    | successful =>
      simp only [System.resolved, System.strands, sumOf_nil, tally_eq, Promise.value] at hpend ⊢
      omega
    | _ => exact failed
  | send id t n =>
    have failed : ∀ s', s' = System.callback { s with pending := s.pending.eraseIdx i }
        (exchangeCallbackPostWithdraw S s.contract t id n .failed) →
        s'.contract.owed S token + promised s'.pending token + s'.sent token +
          (kept token + sumOf (s.strands S (.send id t n) .failed) token) = s'.received token := by
      rintro s' rfl
      simp only [System.strands, Promise.value] at hpend ⊢
      rcases hx : exchangeCallbackPostWithdraw S s.contract t id n .failed with err | c'
      · simp only [System.callback, sumOf_cons, sumOf_nil]
        omega
      · have hdo := exchangeCallbackPostWithdraw_does hx
        have hflow := hdo.flow_eq hB hT hc (fun hres => hres) trivial token
        simp only [Effect.inflow, Effect.outflow, Effect.leaves, amountOf_zero] at hflow
        simp only [System.callback, sumOf_nil]
        omega
    rw [hstep]
    cases out with
    | successful =>
      have hsent : System.resolved S { s with pending := s.pending.eraseIdx i } (.send id t n)
          .successful = { s with
            pending := s.pending.eraseIdx i
            sent := tally s.sent t n } := rfl
      simp only [hsent, System.strands, sumOf_nil, tally_eq, Promise.value] at hpend ⊢
      omega
    | _ => exact failed _ rfl
  | ftMetadata | mtMetadata =>
    simp only [Promise.value, amountOf_zero, Nat.zero_add] at hpend
    simp only [System.strands, sumOf_nil, Nat.add_zero]
    unfold KeepsScale at hok
    have hcase := step_cases hB s (.resolve i out)
    generalize System.step S s (.resolve i out) = s' at hcase hok ⊢
    cases hcase with
    | unchanged => exact hold
    | resolved paid promise effects resolution =>
      cases promise.symm.trans hp
      cases resolution with
      | metadata subtoken promise callback =>
        have howed := callback.owed_eq hB hT effects hc hok token
        simp only [Option.elim_none, howed, hpend]
        exact hold

/-! ## Runs -/

/-- If the event is a call that returns, its orders and hops lose nothing but what
    the hops leave over. -/
def Event.Lossless (S : Sdk B) (s : System B) : Event → Prop
  | call env op => (perform S env s.contract op).isOk = true → op.Lossless s.contract env
  | resolve .. => True

/-- The event also leaves the base decimals of markets with resting orders as they are. -/
def LosesNothing (S : Sdk B) (s : System B) (ev : Event) : Prop :=
  ev.Lossless S s ∧ KeepsScale S s ev

/-- What is kept after an event. -/
def System.keep (S : Sdk B) (kept : TokenType → ℕ) (s : System B) (ev : Event) : TokenType → ℕ :=
  (s.keeps S ev).foldl (fun f x => tally f x.1 x.2) kept

/-- The states reached from a new contract, each with what was kept on the way. -/
abbrev System.Keeping (S : Sdk B) : System B × (TokenType → ℕ) → Prop :=
  Runs.Recorded (fun s => ∃ ownerId, s = .init ownerId) (System.step S) (System.keep S)
    (fun _ => 0) fun x ev => LosesNothing S x.1 ev

theorem Conserves.step (hB : BookLaws S) (hT : TokenLaws S) {kept : TokenType → ℕ} {ev : Event}
    (hc : BooksOk S s.contract) (hok : LosesNothing S s ev) (h : Conserves S s kept) :
    Conserves S (System.step S s ev) (System.keep S kept s ev) := by
  intro token
  rw [System.keep, foldl_tally, ← sumOf]
  cases ev with
  | call env op =>
    simp only [System.step, System.keeps]
    rcases hx : perform S env s.contract op with err | ⟨ps, c'⟩
    · exact h token
    · have hcall := perform_conserves hB hT hc hx (hok.1 (by rw [hx]; rfl)) token
      have hold := h token
      have hsum : promised (s.pending ++ ps) token =
          promised s.pending token + promised ps token := by
        rw [promised, List.map_append, List.sum_append]
        rfl
      rw [paidTotal] at hcall
      simp only [foldl_tally, hsum]
      omega
  | resolve i out =>
    simp only [System.keeps]
    rcases hp : s.pending[i]? with _ | p
    · simp only [System.step, hp]
      exact h token
    · exact resolve_conserves hB hT hc hok.2 hp h token

open Engine

/-- **Conservation.**  In every run, in whatever order its calls and callbacks
    come, if prices and lots are whole amounts and no taker refers itself: of
    every token, what is owed to accounts, orders, fees and storage deposits, what is
    promised, what was sent out, and what was kept is exactly what was received. -/
theorem conserved (hB : BookLaws S) (hT : TokenLaws S) {x : System B × (TokenType → ℕ)}
    (hx : System.Keeping S x) (token : TokenType) :
    x.1.contract.owed S token + promised x.1.pending token + x.1.sent token + x.2 token =
      x.1.received token := by
  have hall : Conserves S x.1 x.2 := by
    refine hx.invariant (P := fun x => Conserves S x.1 x.2) ?_ fun x ev hr hok h => ?_
    · rintro ⟨s, kept⟩ ⟨⟨id, hs⟩, hkept⟩ token
      simp only at hs hkept
      subst hs hkept
      have hzero : (Contract.new id : Contract B).owed S token = 0 := by
        show 0 + amountOf (.nativeNear, 0) token = 0
        rw [amountOf_zero]
      exact congrArg (· + 0) hzero
    · exact h.step hB hT (booksOk_of_reach hB hr.unrecorded) hok
  exact hall token

/-- The state after some events, with what was kept. -/
def keeping (es : List Event) : System Book × (TokenType → ℕ) :=
  es.foldl (fun x e => (System.step sdk x.1 e, System.keep sdk x.2 x.1 e)) (.init dao, fun _ => 0)

theorem keeping_concat (es : List Event) (e : Event) : keeping (es ++ [e]) =
    (System.step sdk (keeping es).1 e, System.keep sdk (keeping es).2 (keeping es).1 e) :=
  List.foldl_append

theorem keeping_fst (es : List Event) : (keeping es).1 = run es := by
  induction es using List.reverseRecOn with
  | nil => rfl
  | append_singleton es e ih => rw [keeping_concat, run_concat, ih]

/-- One more event, if no market is deleted. -/
theorem keeping_step {es : List Event} {e : Event} (h : System.Keeping sdk (keeping es))
    (hdel : ∀ e' ∈ es ++ [e], ∀ env mid, e' ≠ .call env (.adminDeleteMarket mid))
    (hl : e.Lossless sdk (run es)) : System.Keeping sdk (keeping (es ++ [e])) := by
  have hsolv := solvent_of_reach bookLaws tokenLaws
    (reach_run fun e' he' _ => hdel e' (List.mem_append_left _ he'))
  have hscale := hsolv.awaits.keepsScale bookLaws
    (hdel e (List.mem_append_right _ (List.mem_singleton_self e))) hsolv.books hsolv.priced
  rw [keeping_concat]
  refine .step h ?_
  rw [keeping_fst]
  exact ⟨hl, hscale⟩

/-- Events without orders and hops. -/
theorem keeping_of_quiet {es : List Event}
    (h : ∀ e ∈ es, (∀ env mid, e ≠ .call env (.adminDeleteMarket mid)) ∧
      ∀ env op, e = .call env op → op.orders = [] ∧ op.swaps = []) :
    System.Keeping sdk (keeping es) := by
  induction es using List.reverseRecOn with
  | nil => exact .init ⟨⟨dao, rfl⟩, rfl⟩
  | append_singleton es e ih =>
    refine keeping_step (ih fun e he => h e (List.mem_append_left _ he))
      (fun e' he' => (h e' he').1) ?_
    obtain ⟨-, hquiet⟩ := h e (List.mem_append_right _ (List.mem_singleton_self e))
    cases e with
    | resolve i out => trivial
    | call env op =>
      obtain ⟨horders, hswaps⟩ := hquiet env op rfl
      refine fun _ => ⟨?_, ?_⟩
      · rw [horders]
        exact List.forall_mem_nil _
      · rw [hswaps]
        exact List.forall_mem_nil _

theorem exact_btcUsd {es : List Event} {m : Market Book}
    (h : ((run es).contract.markets.lookup btcUsd).map (fun m => (m.baseToken, m.quoteToken)) =
      some (⟨.fungibleToken btc, 1, 1⟩, ⟨.fungibleToken usd, 10, 1⟩))
    (hm : (run es).contract.markets.lookup btcUsd = some m) :
    m.Divides ∧ m.quoteToken.lotSize = 10 := by
  rw [hm, Option.map_some, Option.some_inj] at h
  obtain ⟨hbase, hquote⟩ := Prod.mk.inj h
  rw [Market.Divides, Market.denom, hbase, hquote]
  exact ⟨⟨1, rfl⟩, rfl⟩

/-- An order of somebody without a referrer, in lots of 10. -/
theorem lossless_order {es : List Event} {who : AccountId} {side : Side} {quantity : ℕ}
    (lots : ℕ) (h : ((run es).contract.markets.lookup btcUsd).map (fun m =>
      (m.baseToken, m.quoteToken)) = some (⟨.fungibleToken btc, 1, 1⟩, ⟨.fungibleToken usd, 10, 1⟩))
    (hlots : lots < 2 ^ 64) :
    (Event.call (calling who 0)
      (.newOrder btcUsd (order side .limit (lots * 10) quantity none))).Lossless sdk (run es) := by
  refine fun _ => ⟨List.forall_mem_singleton.2 fun m hm => ?_, List.forall_mem_nil _⟩
  obtain ⟨hdiv, hlot⟩ := exact_btcUsd h hm
  refine ⟨hdiv, fun _ _ limit hlimit => ⟨lots, hlots, ?_⟩, nofun⟩
  cases hlimit
  rw [hlot]

/-- Alice swaps 150 `btc`, of which Bob bids for 90. -/
def oversold : List Event := bidding ++ [.call (calling btc 0)
  (.ftOnTransfer alice 150 (.swap [⟨btcUsd, .sell, some 1, none⟩]))]

-- the other 60 are nobody's
example : (keeping oversold).2 (.fungibleToken btc) = 60 := by decide +kernel

theorem keeping_oversold : System.Keeping sdk (keeping oversold) := by
  have hdel : ∀ e ∈ oversold, ∀ env mid, e ≠ .call env (.adminDeleteMarket mid) := by
    rintro e he env mid rfl
    rw [oversold, bidding, asked, listed] at he
    simp [register, pay] at he
  have hin : ∀ e ∈ asked, e ∈ oversold := fun e he =>
    List.mem_append_left _ (List.mem_append_left _ he)
  have hfunded : System.Keeping sdk
      (keeping (listed ++ [pay btc alice 1000, pay usd bob 100000])) := by
    refine keeping_of_quiet fun e he => ⟨hdel e (hin e ?_), ?_⟩
    · have hprefix : listed ++ [pay btc alice 1000, pay usd bob 100000] <+: asked :=
        ⟨_, List.append_assoc _ _ _⟩
      exact hprefix.subset he
    · rintro env op rfl
      simp only [listed, register, pay, List.cons_append, List.nil_append, List.mem_cons,
        List.not_mem_nil, or_false, Event.call.injEq, reduceCtorEq, false_or] at he
      rcases he with ⟨-, rfl⟩ | ⟨-, rfl⟩ | ⟨-, rfl⟩ | ⟨-, rfl⟩ | ⟨-, rfl⟩ | ⟨-, rfl⟩
      all_goals exact ⟨rfl, rfl⟩
  have hasked : System.Keeping sdk (keeping asked) :=
    keeping_step hfunded (fun e he => hdel e (hin e he))
      (lossless_order 2 (by decide +kernel) (by decide))
  have hbidding : System.Keeping sdk (keeping bidding) :=
    keeping_step hasked (fun e he => hdel e (List.mem_append_left _ he))
      (lossless_order 1 (by decide +kernel) (by decide))
  refine keeping_step hbidding hdel fun _ => ⟨List.forall_mem_nil _, ?_⟩
  refine List.forall_mem_singleton.2 fun m hm => ?_
  exact (exact_btcUsd (by decide +kernel) hm).1

theorem conserved_oversold : (keeping oversold).1.contract.owed sdk (.fungibleToken btc) +
    promised (keeping oversold).1.pending (.fungibleToken btc) +
    (keeping oversold).1.sent (.fungibleToken btc) + (keeping oversold).2 (.fungibleToken btc) =
      (keeping oversold).1.received (.fungibleToken btc) :=
  conserved bookLaws tokenLaws keeping_oversold (.fungibleToken btc)

end TonicDex
