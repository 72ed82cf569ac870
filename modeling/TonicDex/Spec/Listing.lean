/-
  Creating and deleting markets, in full.

  The effects `create` and `delete` leave open which lot sizes a new market has
  and what becomes of the list of market ids; `createMarket_eq_ok` and
  `adminDeleteMarket_eq_ok` say it.  `Relisted` is what an event can do to the
  list and the terms of the markets: nothing but by these two methods.
-/
import TonicDex.Invariant.Markets

namespace TonicDex

variable {B : Type} {S : Sdk B} {c c' : Contract B} {env : Env} {mid : MarketId} {m : Market B}

/-! ## `create_market` -/

/-- What `assert_valid_lot_sizes` accepts. -/
def LotAccepted (n : ℕ) : Prop := n ≠ 0 ∧ (n % 10 = 0 ∨ n = 1)

instance (n : ℕ) : Decidable (LotAccepted n) := inferInstanceAs (Decidable (_ ∧ _))

theorem assertValidLotSizes_eq_ok {a b : ℕ} {u : Unit} :
    assertValidLotSizes a b = .ok u ↔ LotAccepted a ∧ LotAccepted b := by
  simp only [assertValidLotSizes, Checked.bind_eq_ok, Checked.require_eq_ok, LotAccepted]
  constructor
  · rintro ⟨_, ha, _, hb, _, ha0, hb0⟩
    exact ⟨⟨ha0, ha⟩, hb0, hb⟩
  · rintro ⟨⟨ha0, ha⟩, hb0, hb⟩
    exact ⟨(), ha, (), hb, (), ha0, hb0⟩

/-- What `create_market` establishes of the market it makes. -/
structure Created (S : Sdk B) (c : Contract B) (args : CreateMarketArgs) (mid : MarketId)
    (m : Market B) : Prop where
  fresh : m.Fresh S
  baseToken : S.fromKey args.baseToken = .ok m.baseToken.tokenType
  quoteToken : S.fromKey args.quoteToken = .ok m.quoteToken.tokenType
  baseLot : m.baseToken.lotSize = args.baseTokenLotSize
  quoteLot : m.quoteToken.lotSize = args.quoteTokenLotSize
  accepted : LotAccepted args.baseTokenLotSize ∧ LotAccepted args.quoteTokenLotSize
  id : mid = genMarketId S m.baseToken.tokenType args.baseTokenLotSize m.quoteToken.tokenType
    args.quoteTokenLotSize
  new : c.markets.lookup mid = none

/-- The state with one more market. -/
def Contract.list (c : Contract B) (mid : MarketId) (m : Market B) : Contract B :=
  { c.internalSaveMarket mid m with marketIterMap := c.marketIterMap ++ [mid] }

theorem createMarket_eq_ok {args : CreateMarketArgs} {ps : List Promise}
    (h : createMarket S env c args = .ok (mid, ps, c')) :
    ∃ m, Created S c args mid m ∧ c' = c.list mid m := by
  simp only [createMarket, Checked.bind_eq_ok, Checked.require_eq_ok,
    Checked.pure_eq_ok, Prod.mk.injEq, Option.isNone_iff_eq_none] at h
  obtain ⟨_, -, _, hrates, _, -, base, hbase, quote, hquote, h⟩ := h
  obtain ⟨_, hnew, _, hlots, _, -, _, -, hmid, -, hc⟩ := h
  have hlots := assertValidLotSizes_eq_ok.1 hlots
  rw [← hmid, ← hc]
  refine ⟨_, ?_, rfl⟩
  exact ⟨⟨rfl, rfl, rfl, hrates, args.takerFeeBaseRate.isLt, hlots.1.1, hlots.2.1, rfl,
    decimals_getD _ _ _, decimals_getD _ _ _⟩, hbase, hquote, rfl, rfl, hlots, rfl, hnew⟩

/-! ## `admin_delete_market` -/

/-- The state with a market less, the last id in the place of its. -/
def Contract.unlist (c : Contract B) (mid : MarketId) (pos : ℕ) : Contract B :=
  { c with marketIterMap := swapRemove c.marketIterMap pos, markets := c.markets.erase mid }

theorem adminDeleteMarket_eq_ok (h : adminDeleteMarket S env c mid = .ok c') :
    (∃ m, c.markets.lookup mid = some m ∧ m.canDelete S = true) ∧
      ((mid ∉ c.marketIterMap ∧ c' = c) ∨
        ∃ pos, c.marketIterMap[pos]? = some mid ∧ c' = c.unlist mid pos) := by
  simp only [adminDeleteMarket, Checked.bind_eq_ok, Contract.internalUnwrapMarket_eq_ok,
    Checked.require_eq_ok] at h
  obtain ⟨_, -, m, hm, _, hcan, h⟩ := h
  refine ⟨⟨m, hm, hcan⟩, ?_⟩
  rcases hpos : c.marketIterMap.findIdx? (· = mid) with _ | pos
  · rw [hpos] at h
    simp only [Checked.pure_eq_ok] at h
    refine .inl ⟨fun hmem => ?_, h.symm⟩
    have := List.findIdx?_eq_none_iff.1 hpos mid hmem
    simp at this
  · rw [hpos] at h
    simp only [Checked.pure_eq_ok] at h
    obtain ⟨hlt, heq, -⟩ := List.findIdx?_eq_some_iff_getElem.1 hpos
    refine .inr ⟨pos, ?_, h.symm⟩
    rw [List.getElem?_eq_getElem hlt, of_decide_eq_true heq]

/-! ## Events -/

/-- No market is created or deleted from one state to the other, and none
    changes its terms. -/
structure SameList (c c' : Contract B) : Prop where
  ids : c'.marketIterMap = c.marketIterMap
  kept : ∀ mid m, c.markets.lookup mid = some m →
    ∃ m', c'.markets.lookup mid = some m' ∧ SameTerms m m'
  absent : ∀ mid, c.markets.lookup mid = none → c'.markets.lookup mid = none

theorem SameList.refl (c : Contract B) : SameList c c :=
  ⟨rfl, fun _ m hm => ⟨m, hm, .refl m⟩, fun _ h => h⟩

theorem SameList.trans {c₁ c₂ c₃ : Contract B} (h : SameList c₁ c₂) (h' : SameList c₂ c₃) :
    SameList c₁ c₃ := by
  refine ⟨h'.ids.trans h.ids, fun mid m hm => ?_, fun mid hm => h'.absent _ (h.absent _ hm)⟩
  obtain ⟨m₂, hm₂, ht⟩ := h.kept mid m hm
  obtain ⟨m₃, hm₃, ht'⟩ := h'.kept mid m₂ hm₂
  exact ⟨m₃, hm₃, ht.trans ht'⟩

/-- A market after is one before, with its terms. -/
theorem SameList.origin {m' : Market B} (h : SameList c c')
    (hm : c'.markets.lookup mid = some m') :
    ∃ m, c.markets.lookup mid = some m ∧ SameTerms m m' := by
  rcases hc : c.markets.lookup mid with _ | m
  · rw [h.absent mid hc] at hm
    cases hm
  · obtain ⟨m₁, hm₁, ht⟩ := h.kept mid m hc
    cases hm₁.symm.trans hm
    exact ⟨m, rfl, ht⟩

/-- An effect that creates or deletes a market. -/
def Effect.Relists : Effect B → Prop
  | create .. | delete _ => True
  | _ => False

theorem Traded.ids_eq {m' : Market B} {taker : AccountId} {n : NewOrder}
    {referrerId : Option AccountId} {r : PlaceOrderResult} {s : Settled}
    (h : Traded S c mid m taker n referrerId r m' s c') : c'.marketIterMap = c.marketIterMap := by
  rw [h.contract_eq]

theorem Does.ids_eq {e : Effect B} (h : Does S c e c') (he : ¬ e.Relists) :
    c'.marketIterMap = c.marketIterMap := by
  cases h with
  | create | delete => exact absurd trivial he
  | order run => exact (congrArg Contract.marketIterMap run.state).trans run.path.traded.ids_eq
  | hop run => exact (congrArg Contract.marketIterMap run.state).trans run.traded.ids_eq
  | cancel run => rw [congrArg Contract.marketIterMap run.result]; rfl
  | _ => rfl

theorem Does.sameList (hB : BookLaws S) {e : Effect B} (h : Does S c e c') (hc : BooksOk S c)
    (he : ¬ e.Relists) : SameList c c' := by
  refine ⟨h.ids_eq he, fun mid m hm => ?_, fun mid hm => ?_⟩
  · obtain ⟨rfl, -⟩ | ⟨m', hm', hmove⟩ := h.market_cases hB hc hm
    · exact absurd trivial he
    · exact ⟨m', hm', hmove.sameTerms⟩
  · obtain hnone | ⟨m, rfl, -⟩ := h.market_new hm
    · exact hnone
    · exact absurd trivial he

theorem Effects.sameList (hB : BookLaws S) {es : List (Effect B)} (h : Effects S c es c')
    (hc : BooksOk S c) (hes : ∀ e ∈ es, ¬ e.Relists) : SameList c c' := by
  induction h with
  | nil c => exact .refl c
  | cons head tail ih =>
    obtain ⟨he, hes⟩ := List.forall_mem_cons.1 hes
    exact (head.sameList hB hc he).trans (ih (head.booksOk hB hc) hes)

theorem Hops.not_relists {env : Env} {swaps : List SwapAction} {x y : TokenType × ℕ}
    {es : List (Effect B)} (h : Hops env swaps x es y) : ∀ e ∈ es, ¬ e.Relists := by
  induction h with
  | nil x => exact fun e he => absurd he List.not_mem_nil
  | cons rest ih => exact List.forall_mem_cons.2 ⟨id, ih⟩

/-- Only two methods create and delete markets. -/
theorem Shape.not_relists {op : Op} {ps : List Promise} {es : List (Effect B)}
    (h : Shape S c env op ps es) : (∃ args, op = .createMarket args) ∨
      (∃ mid, op = .adminDeleteMarket mid) ∨ ∀ e ∈ es, ¬ e.Relists := by
  cases h with
  | createMarket le => exact .inl ⟨_, rfl⟩
  | notDeleted | deleted => exact .inr (.inl ⟨_, rfl⟩)
  | mtDeposit => exact .inr (.inr (List.forall_mem_map.2 fun _ _ => id))
  | swap method hops => exact .inr (.inr hops.not_relists)
  | storageDeposit sum effects =>
    obtain ⟨rfl, -⟩ | rfl := effects
    · exact .inr (.inr fun e he => absurd he List.not_mem_nil)
    · exact .inr (.inr (List.forall_mem_singleton.2 id))
  | storageKept => exact .inr (.inr fun e he => absurd he List.not_mem_nil)
  | execute trades =>
    refine .inr (.inr fun e he => ?_)
    cases trades e he <;> exact id
  | adminCancel method cancels =>
    refine .inr (.inr fun e he => ?_)
    obtain ⟨_, _, rfl, -⟩ := cancels e he
    exact id
  | _ => exact .inr (.inr (List.forall_mem_singleton.2 id))

theorem Resolution.not_relists {p : Promise} {es : List (Effect B)} {paid : Option (TokenType × ℕ)}
    (h : Resolution S c p es paid) : ∀ e ∈ es, ¬ e.Relists := by
  cases h with
  | transferred | transferFailed | sent | lost => exact fun e he => absurd he List.not_mem_nil
  | credited => exact List.forall_mem_singleton.2 id
  | metadata _ promise callback =>
    cases callback with
    | nothing => exact fun e he => absurd he List.not_mem_nil
    | _ => exact List.forall_mem_singleton.2 id

/-- What an event can do to the list of markets. -/
inductive Relisted (S : Sdk B) (c : Contract B) : Event → Contract B → Prop
  | same {ev : Event} {c' : Contract B} (same : SameList c c') : Relisted S c ev c'
  | created {env : Env} {args : CreateMarketArgs} {mid : MarketId} {m : Market B}
      (created : Created S c args mid m) :
      Relisted S c (.call env (.createMarket args)) (c.list mid m)
  | deleted {env : Env} {mid : MarketId} {m : Market B} {pos : ℕ}
      (found : c.markets.lookup mid = some m) (listed : c.marketIterMap[pos]? = some mid) :
      Relisted S c (.call env (.adminDeleteMarket mid)) (c.unlist mid pos)

/-- **Markets are created by `create_market`, deleted by `admin_delete_market`,
    and keep their terms otherwise.** -/
theorem step_relisted (hB : BookLaws S) (s : System B) (ev : Event)
    (hc : BooksOk S s.contract) : Relisted S s.contract ev (System.step S s ev).contract := by
  have hcase := step_cases hB s ev
  generalize System.step S s ev = s' at hcase
  cases hcase with
  | unchanged => exact .same (.refl _)
  | @called env op c' ps es performed effects shape =>
    have hd := dispatch_of_perform performed
    obtain ⟨args, rfl⟩ | ⟨mid, rfl⟩ | hes := shape.not_relists
    · simp only [dispatch, Checked.map_eq_ok] at hd
      obtain ⟨⟨mid, ps', c₁⟩, h, heq⟩ := hd
      obtain ⟨rfl, rfl⟩ := Prod.mk.injEq .. ▸ heq
      obtain ⟨m, hm, rfl⟩ := createMarket_eq_ok h
      exact .created hm
    · obtain ⟨h, -⟩ := quiet_eq_ok.1 hd
      obtain ⟨⟨m, hm, -⟩, ⟨-, rfl⟩ | ⟨pos, hpos, rfl⟩⟩ := adminDeleteMarket_eq_ok h
      · exact .same (.refl _)
      · exact .deleted hm hpos
    · exact .same (effects.sameList hB hc hes)
  | resolved paid promise effects resolution =>
    exact .same (effects.sameList hB hc resolution.not_relists)

end TonicDex
