/-
  Which markets can become active.

  A market becomes active in a metadata callback.  `on_ft_metadata` compares
  the lot sizes with the decimals first, `on_mt_metadata` does not, and neither
  makes an active market inactive again.  `SafeReport` says which reports leave
  no active market with bad decimals, and `active_validated` that in runs with
  such reports only, every active market is sound.
-/
import TonicDex.Invariant.Storage

namespace TonicDex

variable {B : Type} {S : Sdk B} {c c' : Contract B} {e : Effect B} {es : List (Effect B)}
  {mid : MarketId} {m m' : Market B} {s : System B} {ev : Event}

/-! ## Sound markets -/

namespace Market

def DecimalsKnown (m : Market B) : Prop :=
  m.baseToken.decimals ≠ invalidDecimals ∧ m.quoteToken.decimals ≠ invalidDecimals

instance (m : Market B) : Decidable m.DecimalsKnown := inferInstanceAs (Decidable (_ ∧ _))

/-- The condition under which matching works. -/
structure Validated (m : Market B) : Prop where
  known : m.DecimalsKnown
  denom : m.denom < 2 ^ 128
  lots : m.denom ≤ m.baseToken.lotSize * m.quoteToken.lotSize

/-- Validation panics when `10^D_b` does not fit, and else decides the condition. -/
theorem validateLotsAndDecimals_cases (m : Market B) :
    (m.validateLotsAndDecimals = .ok true ∧ m.Validated) ∨
      (m.validateLotsAndDecimals = .ok false ∧ ¬ m.Validated ∧
        ¬ (m.DecimalsKnown ∧ 2 ^ 128 ≤ m.denom)) ∨
      ((∃ p, m.validateLotsAndDecimals = .error p) ∧ m.DecimalsKnown ∧ 2 ^ 128 ≤ m.denom) := by
  by_cases hknown : m.DecimalsKnown
  swap
  · have hfalse : m.validateLotsAndDecimals = .ok false := if_neg hknown
    exact .inr (.inl ⟨hfalse, fun h => hknown h.known, fun h => hknown h.1⟩)
  have hcheck : m.validateLotsAndDecimals = m.baseDenomination >>= fun d =>
      .ok (decide (d ≤ m.baseToken.lotSize * m.quoteToken.lotSize)) := if_pos hknown
  rw [hcheck]
  by_cases hd : m.denom < 2 ^ 128
  · have hok : m.baseDenomination = .ok m.denom := baseDenomination_eq_ok.2 ⟨hd, rfl⟩
    rw [hok, Checked.ok_bind]
    by_cases hlots : m.denom ≤ m.baseToken.lotSize * m.quoteToken.lotSize
    · rw [decide_eq_true hlots]
      exact .inl ⟨rfl, hknown, hd, hlots⟩
    · rw [decide_eq_false hlots]
      exact .inr (.inl ⟨rfl, fun h => hlots h.lots, fun h => absurd h.2 (not_le.2 hd)⟩)
  · refine .inr (.inr ⟨⟨.arithmetic, ?_⟩, hknown, not_lt.1 hd⟩)
    have herr : m.baseDenomination = .error .arithmetic := if_neg hd
    rw [herr, Checked.error_bind]

end Market

/-! ## Reports -/

/-- The callback of an event reports the decimals `d` of one side of the market;
    `checked` says that it is `on_ft_metadata`. -/
inductive Reports (s : System B) (mid : MarketId) : Event → PairSide → ℕ → Bool → Prop
  | ft {i : ℕ} {token : AccountId} {side : PairSide} {d : ℕ}
      (promise : s.pending[i]? = some (.ftMetadata token mid side)) :
      Reports s mid (.resolve i (.ftMetadata (some d))) side d true
  | mt {i : ℕ} {token : AccountId} {subtoken : String} {side : PairSide} {d : ℕ}
      {metadata : List (Option String)}
      (promise : s.pending[i]? = some (.mtMetadata token subtoken mid side))
      (parsed : (metadata.head?.bind id).bind parseU8 = some d) :
      Reports s mid (.resolve i (.mtMetadata (some metadata))) side d false

/-- The state in which a report leaves the market `m`, which it makes `m'`;
    nothing if the callback panics. -/
def stateAfter (m m' : Market B) : Bool → Option MarketState
  | true =>
    match m'.validateLotsAndDecimals with
    | .ok valid => some (if valid then .active else m.state)
    | .error _ => none
  | false => some (if m'.DecimalsKnown then .active else m.state)

/-- What a report does. -/
theorem Reports.step {side : PairSide} {d : ℕ} {checked : Bool}
    (h : Reports s mid ev side d checked) (hm : s.contract.markets.lookup mid = some m) :
    (System.step S s ev).contract =
      match stateAfter m (m.setDecimals side d) checked with
      | some state => s.contract.internalSaveMarket mid { m.setDecimals side d with state }
      | none => s.contract := by
  have hload : s.contract.internalUnwrapMarket mid = .ok m :=
    Contract.internalUnwrapMarket_eq_ok.2 hm
  cases h with
  | ft promise =>
    simp only [System.step, promise, System.resolved, onFtMetadata, hload, Checked.ok_bind,
      stateAfter]
    rcases (m.setDecimals side d).validateLotsAndDecimals with p | _ | _
    · rfl
    · cases side <;> rfl
    · rfl
  | mt promise parsed =>
    simp only [System.step, promise, System.resolved, onMtMetadata, hload, Checked.ok_bind,
      stateAfter, parsed]
    by_cases hknown : (m.setDecimals side d).DecimalsKnown
    · rw [if_pos hknown]
      exact congrArg (s.contract.internalSaveMarket mid) (if_pos hknown)
    · rw [if_neg hknown]
      refine (congrArg (s.contract.internalSaveMarket mid) (if_neg hknown)).trans ?_
      cases side <;> rfl

theorem callback_lookup {x : Call (Contract B)} (h : ∀ c', x = .ok c' →
      c'.markets.lookup mid = s.contract.markets.lookup mid) :
    (s.callback x).contract.markets.lookup mid = s.contract.markets.lookup mid := by
  cases x with
  | ok c' => exact h c' rfl
  | error p => rfl

/-- A callback that reports no decimals for the market leaves it alone. -/
theorem onFtMetadata_lookup {mid' : MarketId} {side : PairSide} {d : Option ℕ}
    (h : onFtMetadata c mid' side d = .ok c') (hd : mid' = mid → d = none) :
    c'.markets.lookup mid = c.markets.lookup mid := by
  simp only [onFtMetadata, Checked.bind_eq_ok, Contract.internalUnwrapMarket_eq_ok] at h
  obtain ⟨m, -, h⟩ := h
  rcases d with _ | d
  · simp only [Checked.pure_eq_ok] at h
    rw [h]
  · simp only [Checked.bind_eq_ok, Checked.pure_eq_ok] at h
    obtain ⟨valid, -, rfl⟩ := h
    exact AList.lookup_insert_ne fun he => Option.some_ne_none d (hd he.symm)

theorem onMtMetadata_lookup {mid' : MarketId} {side : PairSide}
    {metadata : Option (List (Option String))} (h : onMtMetadata c mid' side metadata = .ok c')
    (hd : mid' = mid → ∀ l, metadata = some l → (l.head?.bind id).bind parseU8 = none) :
    c'.markets.lookup mid = c.markets.lookup mid := by
  simp only [onMtMetadata, Checked.bind_eq_ok, Contract.internalUnwrapMarket_eq_ok] at h
  obtain ⟨m, hm, h⟩ := h
  rcases metadata with _ | l
  · simp only [Checked.pure_eq_ok] at h
    rw [h]
  by_cases hid : mid' = mid
  · subst hid
    simp only [hd rfl l rfl, Checked.pure_eq_ok] at h
    rw [← h, hm]
    exact AList.lookup_insert _
  · rcases hp : (l.head?.bind id).bind parseU8 with _ | d <;>
    · simp only [hp, Checked.pure_eq_ok] at h
      rw [← h]
      exact AList.lookup_insert_ne fun he => hid he.symm

/-- A report on a market that is gone panics. -/
theorem Reports.step_none {side : PairSide} {d : ℕ} {checked : Bool}
    (h : Reports s mid ev side d checked) (hm : s.contract.markets.lookup mid = none) :
    (System.step S s ev).contract = s.contract := by
  have hload : s.contract.internalUnwrapMarket mid = .error .unwrap := by
    rw [Contract.internalUnwrapMarket, Contract.internalGetMarket, hm]
    rfl
  cases h with
  | ft promise =>
    simp only [System.step, promise, System.resolved, onFtMetadata, hload, Checked.error_bind]
    rfl
  | mt promise parsed =>
    simp only [System.step, promise, System.resolved, onMtMetadata, hload, Checked.error_bind]
    rfl

/-- An event that resolves a promise reports something on a market, or leaves it
    alone. -/
theorem reports_or_kept (s : System B) (i : ℕ) (out : Outcome) (mid : MarketId) :
    (∃ side d checked, Reports s mid (.resolve i out) side d checked) ∨
      (System.step S s (.resolve i out)).contract.markets.lookup mid =
        s.contract.markets.lookup mid := by
  unfold System.step
  rcases hp : s.pending[i]? with _ | p
  · exact .inr (by simp only [hp])
  simp only [hp]
  cases p with
  | transfer id n => cases out <;> exact .inr rfl
  | send id token n =>
    right
    have credited : ∀ s' : System B, s'.contract = s.contract →
        (s'.callback (exchangeCallbackPostWithdraw S s.contract token id n .failed)
          ).contract.markets.lookup mid = s.contract.markets.lookup mid := by
      intro s' hs'
      rw [callback_lookup, hs']
      intro c' hc'
      cases exchangeCallbackPostWithdraw_does hc'
      rw [hs']
      rfl
    cases out with
    | successful => rfl
    | _ => exact credited _ rfl
  | ftMetadata token mid' side =>
    cases out with
    | ftMetadata d =>
      by_cases hd : mid' = mid → d = none
      · exact .inr (callback_lookup fun c' hc' => onFtMetadata_lookup hc' hd)
      · obtain ⟨rfl, hne⟩ := Classical.not_imp.1 hd
        obtain ⟨d, rfl⟩ := Option.ne_none_iff_exists'.1 hne
        exact .inl ⟨side, d, true, .ft hp⟩
    | _ => exact .inr rfl
  | mtMetadata token subtoken mid' side =>
    cases out with
    | mtMetadata metadata =>
      by_cases hd : mid' = mid → ∀ l, metadata = some l →
          (l.head?.bind id).bind parseU8 = none
      · exact .inr (callback_lookup fun c' hc' => onMtMetadata_lookup hc' hd)
      · obtain ⟨rfl, hne⟩ := Classical.not_imp.1 hd
        obtain ⟨l, hl⟩ := not_forall.1 hne
        obtain ⟨rfl, hparse⟩ := Classical.not_imp.1 hl
        obtain ⟨d, hd⟩ := Option.ne_none_iff_exists'.1 hparse
        exact .inl ⟨side, d, false, .mt hp hd⟩
    | _ => exact .inr rfl

/-! ## Safe reports -/

/-- The report that makes `m'` of `m` leaves no active market that is not sound:
    the market is sound with it; or it is not active yet, and the callback checks
    it or other decimals are missing; or the check of the callback panics. -/
def SafeReport (m m' : Market B) (checked : Bool) : Prop :=
  m'.Validated ∨ (m.state ≠ .active ∧ (checked = true ∨ ¬ m'.DecimalsKnown)) ∨
    (checked = true ∧ m'.DecimalsKnown ∧ 2 ^ 128 ≤ m'.denom)

/-- Safe are exactly the reports after which an active market is sound. -/
theorem safeReport_iff (m m' : Market B) (checked : Bool) : SafeReport m m' checked ↔
    (stateAfter m m' checked = some .active → m'.Validated) := by
  cases checked with
  | true =>
    obtain ⟨hv, hok⟩ | ⟨hv, hbad, hfits⟩ | ⟨⟨p, hv⟩, hknown, hd⟩ := m'.validateLotsAndDecimals_cases
    · exact ⟨fun _ _ => hok, fun _ => .inl hok⟩
    · simp only [SafeReport, stateAfter, hv, hbad, hfits, Option.some.injEq]
      simp
    · refine ⟨fun _ h => ?_, fun _ => .inr (.inr ⟨rfl, hknown, hd⟩)⟩
      simp [stateAfter, hv] at h
  | false =>
    by_cases hknown : m'.DecimalsKnown
    · simp [SafeReport, stateAfter, hknown]
    · have hbad : ¬ m'.Validated := fun h => hknown h.known
      simp [SafeReport, stateAfter, hknown, hbad]

/-- An event by which the market `mid` can only become active soundly: the owner
    does not set its state, and a report on it is safe. -/
structure Sound (mid : MarketId) (s : System B) (ev : Event) : Prop where
  state : ∀ env state, ev = .call env (.setMarketState mid state) →
    env.predecessorAccountId ≠ s.contract.ownerId
  report : ∀ side d checked m, Reports s mid ev side d checked →
    s.contract.markets.lookup mid = some m → SafeReport m (m.setDecimals side d) checked

/-- The market is sound if it is active. -/
def ActiveValidated (mid : MarketId) (c : Contract B) : Prop :=
  ∀ m, c.markets.lookup mid = some m → m.state = .active → m.Validated

/-- Without a new state or new decimals an active market stays sound. -/
theorem Does.activeValidated (hB : BookLaws S) (h : Does S c e c') (hc : BooksOk S c)
    (hstate : ∀ state, e ≠ .setState mid state)
    (hdec : ∀ side d state, e ≠ .decimals mid side d state)
    (hv : ActiveValidated mid c) : ActiveValidated mid c' := by
  intro m' hm' hact
  obtain ⟨-, hfresh⟩ | ⟨m, hm, hmove⟩ := h.market_origin hB hc hm'
  · rw [hfresh.state] at hact
    cases hact
  cases hmove with
  | kept => exact hv _ hm hact
  | matched trades active denom =>
    have h := hv m hm active
    exact ⟨h.known, h.denom, h.lots⟩
  | cancelled state rest =>
    have h := hv m hm hact
    exact ⟨h.known, h.denom, h.lots⟩
  | state state => exact absurd rfl (hstate state)
  | window =>
    have h := hv m hm hact
    exact ⟨h.known, h.denom, h.lots⟩
  | decimals => exact absurd rfl (hdec _ _ _)

/-- Only the owner sets the state of a market. -/
theorem setMarketState_owner {env : Env} {state : MarketState} {ps : List Promise}
    (h : perform S env c (.setMarketState mid state) = .ok (ps, c')) :
    env.predecessorAccountId = c.ownerId := by
  obtain ⟨h, -⟩ := quiet_eq_ok.1 (dispatch_of_perform h)
  simp only [setMarketState, Contract.assertIsOwner, Checked.bind_eq_ok,
    Checked.require_eq_ok] at h
  obtain ⟨_, howner, -⟩ := h
  exact howner

theorem ActiveValidated.step (hB : BookLaws S) (hok : Sound mid s ev)
    (hc : BooksOk S s.contract) (hv : ActiveValidated mid s.contract) :
    ActiveValidated mid (System.step S s ev).contract := by
  cases ev with
  | call env op =>
    have hcase := step_cases hB s (.call env op)
    generalize System.step S s (.call env op) = s' at hcase ⊢
    cases hcase with
    | unchanged => exact hv
    | @called _ _ c' ps es performed effects shape =>
      have hstate : ∀ e ∈ es, ∀ state, e ≠ .setState mid state := by
        rintro e he state rfl
        obtain rfl : op = .setMarketState mid state := shape.causedBy _ he
        exact hok.state env state rfl (setMarketState_owner performed)
      have hdec : ∀ e ∈ es, ∀ side d state, e ≠ .decimals mid side d state := by
        rintro e he side d state rfl
        exact shape.causedBy _ he
      have hboth : BooksOk S c' ∧ ActiveValidated mid c' :=
        effects.invariant (P := fun c => BooksOk S c ∧ ActiveValidated mid c)
          (fun e he c c' hd h => ⟨hd.booksOk hB h.1,
            hd.activeValidated hB h.1 (hstate e he) (hdec e he) h.2⟩) ⟨hc, hv⟩
      exact hboth.2
  | resolve i out =>
    obtain ⟨side, d, checked, hrep⟩ | hkept := reports_or_kept (S := S) s i out mid
    swap
    · intro m hm hact
      rw [hkept] at hm
      exact hv m hm hact
    rcases hm : s.contract.markets.lookup mid with _ | m
    · intro m' hm' hact
      rw [hrep.step_none hm, hm] at hm'
      cases hm'
    · have hsafe := (safeReport_iff _ _ _).1 (hok.report side d checked m hrep hm)
      intro m' hm' hact
      rw [hrep.step hm] at hm'
      rcases hst : stateAfter m (m.setDecimals side d) checked with _ | state
      · rw [hst, hm] at hm'
        cases hm'
        exact hv m hm hact
      · have hl := (AList.lookup_insert _).symm.trans (hst ▸ hm')
        cases hl
        have h := hsafe (hst.trans (congrArg some hact))
        exact ⟨h.known, h.denom, h.lots⟩

/-- **Only sound markets trade.** In every run in which every report on a market
    is safe and the owner does not set its state, it is sound whenever it is
    active.  A report that is not safe leaves it active and not sound. -/
theorem active_validated (hB : BookLaws S)
    (hs : System.Reach S (Sound mid) s) :
    (∀ m, s.contract.markets.lookup mid = some m → m.state = .active → m.Validated) ∧
      ∀ ev side d checked m, Reports s mid ev side d checked →
        s.contract.markets.lookup mid = some m →
        ¬ SafeReport m (m.setDecimals side d) checked →
        ∃ m', (System.step S s ev).contract.markets.lookup mid = some m' ∧ m'.state = .active ∧
          ¬ m'.Validated := by
  constructor
  · refine hs.invariant (P := fun s => ActiveValidated mid s.contract) ?_ fun s ev hr hok h =>
      h.step hB hok (booksOk_of_reach hB hr)
    rintro s ⟨id, rfl⟩ m hm
    cases hm
  · intro ev side d checked m hrep hm hunsafe
    rw [safeReport_iff] at hunsafe
    obtain ⟨hst, hbad⟩ := Classical.not_imp.1 hunsafe
    refine ⟨{ m.setDecimals side d with state := .active }, ?_, rfl, fun h => hbad ?_⟩
    · rw [hrep.step hm, hst]
      exact AList.lookup_insert _
    · exact ⟨h.known, h.denom, h.lots⟩

/-- Calls of other methods are sound. -/
theorem Sound.call {env : Env} {op : Op} (hop : ∀ state, op ≠ .setMarketState mid state) :
    Sound mid s (.call env op) := by
  constructor
  · rintro env' state heq
    cases heq
    exact absurd rfl (hop state)
  · intro side d checked m hrep
    cases hrep

/-- So are reports that are checked, before the market is active. -/
theorem Sound.ft {i : ℕ} {d : Option ℕ} (h : ∀ m, s.contract.markets.lookup mid = some m →
    m.state ≠ .active) : Sound mid s (.resolve i (.ftMetadata d)) := by
  constructor
  · rintro env state ⟨⟩
  · intro side d checked m hrep hm
    cases hrep
    exact .inr (.inl ⟨h m hm, .inl rfl⟩)

/-- The market of two fungible tokens that have both answered. -/
theorem active_validated_listed : ∃ m,
    (Engine.run Engine.listed).contract.markets.lookup Engine.btcUsd = some m ∧
      m.state = .active ∧ m.Validated := by
  have hcalls : System.Reach Engine.sdk (Sound Engine.btcUsd)
      (Engine.run (Engine.listed.take 4)) := by
    refine Engine.reach_run fun e he s => ?_
    simp only [Engine.listed, Engine.register, List.take_succ_cons, List.take_zero, List.mem_cons,
      List.not_mem_nil, or_false] at he
    obtain rfl | rfl | rfl | rfl := he <;> exact .call fun _ h => by cases h
  have hstates : ∀ n ∈ [4, 5], ((Engine.run (Engine.listed.take n)).contract.markets.lookup
      Engine.btcUsd).map Market.state = some .uninitialized := by decide +kernel
  have hwaits : ∀ n ∈ [4, 5], ∀ m, (Engine.run (Engine.listed.take n)).contract.markets.lookup
      Engine.btcUsd = some m → m.state ≠ .active := by
    intro n hn m hm
    have hstate := hstates n hn
    rw [hm, Option.map_some, Option.some.injEq] at hstate
    rw [hstate]
    decide
  have hreach : System.Reach Engine.sdk (Sound Engine.btcUsd) (Engine.run Engine.listed) :=
    Engine.reach_concat (Engine.reach_concat hcalls (.ft (hwaits 4 (by decide))))
      (.ft (hwaits 5 (by decide)))
  obtain ⟨hsound, -⟩ := active_validated Engine.bookLaws hreach
  have hactive : ((Engine.run Engine.listed).contract.markets.lookup Engine.btcUsd).map
      Market.state = some .active := by decide +kernel
  obtain ⟨m, hm, hactive⟩ := Option.map_eq_some_iff.1 hactive
  exact ⟨m, hm, hactive, hsound m hm hactive⟩

def goldUsd : MarketId :=
  genMarketId Engine.sdk (.multiFungibleToken Engine.game "gold") 1 (.fungibleToken Engine.usd) 1

/-- A market of a multi-token, in lots of 1 and 1.  The quote token reports 6
    decimals, and then the base token 18. -/
def goldListed : List Event := [
  .call (Engine.calling Engine.dao (10 ^ 22))
    (.createMarket ⟨"mft:game.near:gold", "ft:usd.near", 1, 1, 0, 0⟩),
  .resolve 1 (.ftMetadata (some 6)), .resolve 0 (.mtMetadata (some [some "18"]))]

/-- It is active, with lots far too small for its decimals. -/
theorem active_not_validated : System.Reachable Engine.sdk (Engine.run goldListed) ∧
    ((Engine.run goldListed).contract.markets.lookup goldUsd).map (fun m =>
      (m.state, m.baseToken.decimals, m.quoteToken.decimals)) = some (.active, 18, 6) ∧
    ((Engine.run goldListed).contract.markets.lookup goldUsd).map (fun m =>
      m.quoteToken.lotSize * m.baseToken.lotSize) = some 1 ∧ 1 < 10 ^ 18 :=
  ⟨Engine.reachable_run goldListed, by decide +kernel, by decide +kernel, by decide⟩

end TonicDex
