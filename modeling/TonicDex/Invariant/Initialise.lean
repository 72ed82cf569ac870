/-
  Metadata callbacks after a market was initialised.

  A callback is made when the token contract answers, whatever the owner did to
  the market meanwhile, and both `on_ft_metadata` and `on_mt_metadata` write the
  decimals and the state without looking at the state first.  `Harmless` says
  which callbacks leave an initialised market as it is; a run keeps a record of
  the decimals each market had when it first became active (`FirstActive`), and
  `callbacks_initialise_iff` compares.
-/
import TonicDex.Invariant.Activation

namespace TonicDex

variable {B : Type} {S : Sdk B} {c c' : Contract B} {e : Effect B} {es : List (Effect B)}
  {mid : MarketId} {m m' : Market B} {s : System B} {ev : Event} {side : PairSide} {d : ℕ}
  {checked : Bool}

/-! ## Reports -/

namespace Market

def decimals (m : Market B) : ℕ × ℕ := (m.baseToken.decimals, m.quoteToken.decimals)

def decimalsOf (m : Market B) : PairSide → ℕ
  | .base => m.baseToken.decimals
  | .quote => m.quoteToken.decimals

theorem decimals_setDecimals_eq_iff :
    (m.setDecimals side d).decimals = m.decimals ↔ d = m.decimalsOf side := by
  cases side with
  | base => simp [setDecimals, decimals, decimalsOf]
  | quote => simp [setDecimals, decimals, decimalsOf]

theorem setDecimals_eq_iff {state : MarketState} :
    { m.setDecimals side d with state } = m ↔ d = m.decimalsOf side ∧ state = m.state := by
  constructor
  · intro h
    have hdec : (m.setDecimals side d).decimals = m.decimals :=
      (congrArg decimals h : ({ m.setDecimals side d with state } : Market B).decimals = _)
    exact ⟨decimals_setDecimals_eq_iff.1 hdec, congrArg Market.state h⟩
  · rintro ⟨rfl, rfl⟩
    cases side <;> rfl

/-- The test after which a callback makes the market active. -/
def Passes (m : Market B) (checked : Bool) : Prop :=
  m.DecimalsKnown ∧ (checked = true → m.Validated)

/-- The test panics. -/
def Panics (m : Market B) (checked : Bool) : Prop :=
  checked = true ∧ m.DecimalsKnown ∧ 2 ^ 128 ≤ m.denom

end Market

theorem stateAfter_cases (m m' : Market B) (checked : Bool) :
    (stateAfter m m' checked = none ∧ m'.Panics checked) ∨
      (stateAfter m m' checked = some .active ∧ m'.Passes checked ∧ ¬ m'.Panics checked) ∨
      (stateAfter m m' checked = some m.state ∧ ¬ m'.Passes checked ∧ ¬ m'.Panics checked) := by
  cases checked with
  | false =>
    by_cases hknown : m'.DecimalsKnown
    · exact .inr (.inl ⟨congrArg some (if_pos hknown), ⟨hknown, nofun⟩, nofun⟩)
    · exact .inr (.inr ⟨congrArg some (if_neg hknown), fun h => hknown h.1, nofun⟩)
  | true =>
    obtain ⟨hv, hok⟩ | ⟨hv, hbad, hfits⟩ | ⟨⟨p, hv⟩, hpanics⟩ := m'.validateLotsAndDecimals_cases
    · exact .inr (.inl ⟨by rw [stateAfter, hv]; rfl, ⟨hok.known, fun _ => hok⟩,
        fun h => absurd h.2.2 (not_le.2 hok.denom)⟩)
    · exact .inr (.inr ⟨by rw [stateAfter, hv]; rfl, fun h => hbad (h.2 rfl),
        fun h => hfits h.2⟩)
    · exact .inl ⟨by rw [stateAfter, hv], rfl, hpanics⟩

/-- A report that leaves an initialised market as it is, and the decimals of one
    that was active: its callback panics; or the market is uninitialised and, if it
    was active before, its decimals are repeated; or the decimals are repeated and
    the market is active or does not pass the test. -/
def HarmlessReport (m : Market B) (wasActive : Prop) (side : PairSide) (d : ℕ) (checked : Bool) :
    Prop :=
  (m.setDecimals side d).Panics checked ∨
    (m.state = .uninitialized ∧ (wasActive → d = m.decimalsOf side)) ∨
    (d = m.decimalsOf side ∧ (m.state = .active ∨ ¬ (m.setDecimals side d).Passes checked))

theorem harmlessReport_iff {wasActive : Prop} : HarmlessReport m wasActive side d checked ↔
    ∀ state, stateAfter m (m.setDecimals side d) checked = some state →
      (m.state = .uninitialized ∧ (wasActive → d = m.decimalsOf side)) ∨
        (d = m.decimalsOf side ∧ state = m.state) := by
  unfold HarmlessReport
  obtain ⟨hst, hpanics⟩ | ⟨hst, hpass, hruns⟩ | ⟨hst, hfail, hruns⟩ :=
    stateAfter_cases m (m.setDecimals side d) checked
  · simp [hst, hpanics]
  · simp [hst, hpass, hruns, eq_comm]
  · simp [hst, hfail, hruns]

/-! ## What a callback may do -/

/-- For each market the decimals it had when it first became active, as long as
    it exists. -/
abbrev FirstActive := MarketId → Option (ℕ × ℕ)

/-- The record after an event. -/
def noteActive (S : Sdk B) (g : FirstActive) (s : System B) (ev : Event) : FirstActive :=
  fun mid => ((System.step S s ev).contract.markets.lookup mid).bind fun m =>
    (g mid).or (if m.state = .active then some m.decimals else none)

/-- The event, if it is a callback, changes no market but uninitialised ones; and
    it leaves the decimals of markets that have become active as they were. -/
structure OnlyInitialises (S : Sdk B) (x : System B × FirstActive) (ev : Event) : Prop where
  callback : ∀ i out mid m, ev = .resolve i out → x.1.contract.markets.lookup mid = some m →
    m.state ≠ .uninitialized → (System.step S x.1 ev).contract.markets.lookup mid = some m
  decimals : ∀ mid m ds, (System.step S x.1 ev).contract.markets.lookup mid = some m →
    x.2 mid = some ds → m.decimals = ds

/-- Every report that the event brings is harmless. -/
def Harmless (x : System B × FirstActive) (ev : Event) : Prop :=
  ∀ mid side d checked m, Reports x.1 mid ev side d checked →
    x.1.contract.markets.lookup mid = some m → HarmlessReport m (x.2 mid ≠ none) side d checked

/-- Markets that have become active have the decimals of that time. -/
def Frozen (x : System B × FirstActive) : Prop :=
  ∀ mid ds, x.2 mid = some ds → ∃ m, x.1.contract.markets.lookup mid = some m ∧ m.decimals = ds

variable {x : System B × FirstActive}

/-- The market after a report. -/
theorem Reports.lookup {state : MarketState} (h : Reports s mid ev side d checked)
    (hm : s.contract.markets.lookup mid = some m)
    (hst : stateAfter m (m.setDecimals side d) checked = some state) :
    (System.step S s ev).contract.markets.lookup mid =
      some { m.setDecimals side d with state } := by
  rw [h.step hm, hst]
  exact AList.lookup_insert _

/-! ## Calls -/

/-- Only callbacks write decimals. -/
theorem Moves.decimals_eq (h : Moves S mid m e m')
    (hdec : ∀ side d state, e ≠ .decimals mid side d state) : m'.decimals = m.decimals := by
  cases h with
  | decimals => exact absurd rfl (hdec _ _ _)
  | _ => rfl

/-- A call that deletes a market does nothing else. -/
theorem Shape.delete_alone {env : Env} {op : Op} {ps : List Promise} (h : Shape S c env op ps es)
    (hmem : .delete mid ∈ es) : es = [.delete mid] := by
  obtain rfl : op = .adminDeleteMarket mid := h.causedBy _ hmem
  cases h with
  | deleted => rfl
  | notDeleted => cases hmem
  | withdraw pos method => obtain h | ⟨_, h⟩ | ⟨_, _, h⟩ := method <;> cases h
  | swap method hops => obtain ⟨h, -⟩ | ⟨h, -⟩ := method <;> cases h
  | admin method => obtain ⟨_, h⟩ | ⟨_, h⟩ := method <;> cases h
  | setWindow method => obtain ⟨_, h⟩ | ⟨_, h⟩ := method <;> cases h
  | adminCancel method cancels => obtain ⟨_, h⟩ | ⟨_, h⟩ | ⟨_, h⟩ := method <;> cases h

/-- A market that a call does not delete keeps its decimals. -/
theorem call_decimals_eq (hB : BookLaws S) (hc : BooksOk S s.contract)
    {env : Env} {op : Op} (hm : s.contract.markets.lookup mid = some m)
    (hm' : (System.step S s (.call env op)).contract.markets.lookup mid = some m') :
    m'.decimals = m.decimals := by
  have hcase := step_cases hB s (.call env op)
  generalize System.step S s (.call env op) = s' at hcase hm'
  cases hcase with
  | unchanged =>
    cases hm.symm.trans hm'
    rfl
  | @called _ _ c' ps es performed effects shape =>
    by_cases hdel : .delete mid ∈ es
    · cases shape.delete_alone hdel
      cases effects.of_single with
      | delete found can => cases (AList.lookup_erase _ _).symm.trans hm'
    · have hkeeps : ∀ e ∈ es, ∀ m m', Moves S mid m e m' → m'.decimals = m.decimals := by
        intro e he m m' hmove
        refine hmove.decimals_eq ?_
        rintro side d state rfl
        exact shape.causedBy _ he
      obtain ⟨m₁, hm₁, he⟩ := effects.keeps hB hc (fun e he heq => hdel (heq ▸ he)) hkeeps hm
      cases hm₁.symm.trans hm'
      exact he

/-! ## Callbacks -/

theorem Harmless.lookup (h : Harmless x ev) (hrep : Reports x.1 mid ev side d checked)
    (hm : x.1.contract.markets.lookup mid = some m) :
    (System.step S x.1 ev).contract.markets.lookup mid = some m ∨
      (m.state = .uninitialized ∧ ∃ m', m'.decimals = (m.setDecimals side d).decimals ∧
        (System.step S x.1 ev).contract.markets.lookup mid = some m' ∧
        (x.2 mid ≠ none → d = m.decimalsOf side)) := by
  have hharm := harmlessReport_iff.1 (h mid side d checked m hrep hm)
  rcases hst : stateAfter m (m.setDecimals side d) checked with _ | state
  · left
    rw [hrep.step hm, hst]
    exact hm
  · have hnew := hrep.lookup (S := S) hm hst
    obtain ⟨hstate, hwas⟩ | hsame := hharm state hst
    · exact .inr ⟨hstate, { m.setDecimals side d with state }, rfl, hnew, hwas⟩
    · left
      rw [hnew, Market.setDecimals_eq_iff.2 hsame]

/-- **The events that only initialise are those whose reports are harmless.** -/
theorem onlyInitialises_iff (hB : BookLaws S) (hc : BooksOk S x.1.contract)
    (hf : Frozen x) : OnlyInitialises S x ev ↔ Harmless x ev := by
  constructor
  · intro h mid side d checked m hrep hm
    refine harmlessReport_iff.2 fun state hst => ?_
    have hnew := hrep.lookup (S := S) hm hst
    by_cases hstate : m.state = .uninitialized
    · refine .inl ⟨hstate, fun hwas => ?_⟩
      obtain ⟨ds, hds⟩ := Option.ne_none_iff_exists'.1 hwas
      obtain ⟨m₁, hm₁, hold⟩ := hf mid ds hds
      cases hm.symm.trans hm₁
      have hkept := h.decimals mid _ ds hnew hds
      exact Market.decimals_setDecimals_eq_iff.1 (hkept.trans hold.symm)
    · have hresolve : ∃ i out, ev = .resolve i out := by cases hrep <;> exact ⟨_, _, rfl⟩
      obtain ⟨i, out, he⟩ := hresolve
      have hkept := h.callback i out mid m he hm hstate
      exact .inr (Market.setDecimals_eq_iff.1 (Option.some.inj (hnew.symm.trans hkept)))
  · intro h
    constructor
    · rintro i out mid m rfl hm hstate
      obtain ⟨side, d, checked, hrep⟩ | hkept := reports_or_kept (S := S) x.1 i out mid
      · obtain hsame | ⟨hun, -⟩ := h.lookup (S := S) hrep hm
        · exact hsame
        · exact absurd hun hstate
      · exact hkept.trans hm
    · intro mid m' ds hm' hds
      obtain ⟨m, hm, hold⟩ := hf mid ds hds
      cases ev with
      | call env op => exact (call_decimals_eq hB hc hm hm').trans hold
      | resolve i out =>
        obtain ⟨side, d, checked, hrep⟩ | hkept := reports_or_kept (S := S) x.1 i out mid
        · obtain hsame | ⟨-, m₁, hdec, hnew, hwas⟩ := h.lookup (S := S) hrep hm
          · cases hsame.symm.trans hm'
            exact hold
          · cases hnew.symm.trans hm'
            have hd := hwas (hds ▸ Option.some_ne_none ds)
            exact hdec.trans ((Market.decimals_setDecimals_eq_iff.2 hd).trans hold)
        · cases (hkept.trans hm).symm.trans hm'
          exact hold

theorem Frozen.step (h : OnlyInitialises S x ev) :
    Frozen (System.step S x.1 ev, noteActive S x.2 x.1 ev) := by
  intro mid ds hds
  obtain ⟨m, hm, hnote⟩ := Option.bind_eq_some_iff.1 hds
  refine ⟨m, hm, ?_⟩
  rcases hold : x.2 mid with _ | ds'
  · rw [hold, Option.none_or] at hnote
    split_ifs at hnote
    exact Option.some.inj hnote
  · rw [hold, Option.some_or] at hnote
    cases hnote
    exact h.decimals mid m ds hm hold

/-- The runs with a record all of whose reports are harmless. -/
abbrev HarmlessRun (S : Sdk B) : System B × FirstActive → Prop :=
  Runs.Recorded (fun s => ∃ ownerId, s = System.init ownerId) (System.step S) (noteActive S)
    (fun _ => none) Harmless

/-- **Callbacks only initialise just in case their reports are harmless.**  In
    every run of harmless reports, every market that has become active since it
    was created still has the decimals it had then, and the events that change no
    initialised market by a callback, and no decimals of a market that has become
    active, are exactly those whose reports are harmless. -/
theorem callbacks_initialise_iff (hB : BookLaws S) (hx : HarmlessRun S x) :
    (∀ mid m ds, x.1.contract.markets.lookup mid = some m → x.2 mid = some ds →
      m.decimals = ds) ∧
    ∀ ev, OnlyInitialises S x ev ↔ Harmless x ev := by
  have hboth : BooksOk S x.1.contract ∧ Frozen x := by
    refine hx.invariant (P := fun x => BooksOk S x.1.contract ∧ Frozen x) ?_ ?_
    · rintro ⟨s, g⟩ ⟨⟨id, rfl⟩, rfl⟩
      exact ⟨fun _ _ h => (by cases h), fun _ _ h => (by cases h)⟩
    · rintro ⟨s, g⟩ ev hr hok ⟨hc, hf⟩
      refine ⟨?_, .step ((onlyInitialises_iff hB hc hf).2 hok)⟩
      exact booksOk_of_reach hB (.step hr.unrecorded trivial)
  obtain ⟨hc, hf⟩ := hboth
  refine ⟨fun mid m ds hm hds => ?_, fun ev => onlyInitialises_iff hB hc hf⟩
  obtain ⟨m₁, hm₁, hold⟩ := hf mid ds hds
  cases hm.symm.trans hm₁
  exact hold

theorem Harmless.call {env : Env} {op : Op} : Harmless x (.call env op) := by
  intro mid side d checked m hrep
  cases hrep

/-- The first answers for a market are harmless. -/
theorem Harmless.first {i : ℕ} {token : AccountId}
    (hp : x.1.pending[i]? = some (.ftMetadata token mid side))
    (hstate : (x.1.contract.markets.lookup mid).map Market.state = some .uninitialized)
    (hnew : x.2 mid = none) : Harmless x (.resolve i (.ftMetadata (some d))) := by
  intro mid' side' d' checked m hrep hm
  cases hrep with
  | ft promise =>
    cases hp.symm.trans promise
    rw [hm, Option.map_some, Option.some.injEq] at hstate
    exact .inr (.inl ⟨hstate, fun hwas => absurd hnew hwas⟩)

/-- The state after some events, with its record. -/
def recorded (es : List Event) : System Engine.Book × FirstActive :=
  es.foldl (fun x ev => (System.step Engine.sdk x.1 ev, noteActive Engine.sdk x.2 x.1 ev))
    (.init Engine.dao, fun _ => none)

theorem recorded_step {es : List Event} (h : HarmlessRun Engine.sdk (recorded es))
    (hev : Harmless (recorded es) ev) : HarmlessRun Engine.sdk (recorded (es ++ [ev])) := by
  rw [recorded, List.foldl_append]
  exact .step h hev

/-- Both tokens have answered, and their decimals are kept. -/
theorem callbacks_initialise_listed : ∃ m,
    (recorded Engine.listed).1.contract.markets.lookup Engine.btcUsd = some m ∧
      m.state = .active ∧ m.decimals = (1, 1) := by
  have hcalls : HarmlessRun Engine.sdk (recorded (Engine.listed.take 4)) := by
    refine Runs.Reach.foldl (.init ⟨⟨Engine.dao, rfl⟩, rfl⟩) fun ev hev x => ?_
    simp only [Engine.listed, Engine.register, List.take_succ_cons, List.take_zero, List.mem_cons,
      List.not_mem_nil, or_false] at hev
    obtain rfl | rfl | rfl | rfl := hev <;> exact .call
  have hpending : (recorded (Engine.listed.take 4)).1.pending =
      [.ftMetadata Engine.btc Engine.btcUsd .base,
        .ftMetadata Engine.usd Engine.btcUsd .quote] := by decide +kernel
  have hpending' : (recorded (Engine.listed.take 5)).1.pending =
      [.ftMetadata Engine.usd Engine.btcUsd .quote] := by decide +kernel
  have hbase : HarmlessRun Engine.sdk (recorded (Engine.listed.take 5)) :=
    recorded_step hcalls (.first (congrArg (·[0]?) hpending) (by decide +kernel)
      (by decide +kernel))
  have hquote : HarmlessRun Engine.sdk (recorded Engine.listed) :=
    recorded_step hbase (.first (congrArg (·[0]?) hpending') (by decide +kernel)
      (by decide +kernel))
  have hactive : ((recorded Engine.listed).1.contract.markets.lookup Engine.btcUsd).map
      Market.state = some .active := by decide +kernel
  have hnoted : (recorded Engine.listed).2 Engine.btcUsd = some (1, 1) := by decide +kernel
  obtain ⟨m, hm, hactive⟩ := Option.map_eq_some_iff.1 hactive
  obtain ⟨hkept, -⟩ := callbacks_initialise_iff Engine.bookLaws hquote
  exact ⟨m, hm, hactive, hkept _ m _ hm hnoted⟩

/-- The owner pauses the market before the second token answers. -/
def paused : List Event := Engine.listed.take 5 ++
  [.call (Engine.calling Engine.dao 0) (.setMarketState Engine.btcUsd .paused)]

/-- The answer makes it active. -/
theorem callback_unpauses : System.Reachable Engine.sdk (Engine.run paused) ∧
    ((Engine.run paused).contract.markets.lookup Engine.btcUsd).map Market.state =
      some .paused ∧
    ((Engine.run (paused ++ [.resolve 0 (.ftMetadata (some 1))])).contract.markets.lookup
      Engine.btcUsd).map Market.state = some .active :=
  ⟨Engine.reachable_run paused, by decide +kernel, by decide +kernel⟩

end TonicDex
