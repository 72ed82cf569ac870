/-
  What can happen to one market.

  `Moves` lists what an effect can do to an existing market, with the state the
  market had to be in; `Does.market_cases` and `Does.market_origin` are the
  inversions for a market before and after an effect.  Two facts follow for all
  runs: the book of a market whose base denomination does not fit into 128 bits
  is empty (`Priced`), and orders are matched only in active markets.
-/
import TonicDex.Invariant.Ledger

namespace TonicDex

variable {B : Type} {S : Sdk B} {c c' : Contract B} {e : Effect B} {es : List (Effect B)}
  {mid : MarketId} {m : Market B}

/-- What an effect can do to the market `mid`, apart from deleting it. -/
inductive Moves (S : Sdk B) (mid : MarketId) (m : Market B) : Effect B → Market B → Prop
  | kept {e : Effect B} : Moves S mid m e m
  | matched {e : Effect B} {b : B} {fees : ℕ} (trades : (∃ env p r, e = .order env mid p r) ∨
        ∃ env swap token n out fills, e = .hop env swap token n out fills ∧ swap.marketId = mid)
      (active : m.state = .active) (denom : m.denom < 2 ^ 128) :
      Moves S mid m e { m with orderbook := b, feesAccrued := fees }
  | cancelled {owner : AccountId} {ids : List OrderId} {b : B}
      (state : m.state = .active ∨ m.state = .cancelOnly)
      (rest : S.orders b = (S.orders m.orderbook).filter (·.id ∉ ids)) :
      Moves S mid m (.cancel mid owner ids) { m with orderbook := b }
  | state (state : MarketState) : Moves S mid m (.setState mid state) (m.setState state)
  | window {bid ask : ℕ} :
      Moves S mid m (.setWindow mid) { m with minimumBidBps := bid, maximumAskBps := ask }
  | decimals {side : PairSide} {d : ℕ} {state : MarketState} :
      Moves S mid m (.decimals mid side d state) { m.setDecimals side d with state }

/-- A market other than the saved one is kept. -/
theorem Moves.of_save {mid' : MarketId} {m₁ m' : Market B}
    (hc : c'.markets = c.markets.insert mid' m') (h₁ : c.markets.lookup mid' = some m₁)
    (hm : c.markets.lookup mid = some m) (hmove : mid = mid' → m₁ = m → Moves S mid m e m') :
    ∃ m'', c'.markets.lookup mid = some m'' ∧ Moves S mid m e m'' := by
  rw [hc, HMap.lookup_insert_eq]
  split_ifs with hid
  · subst hid
    refine ⟨m', rfl, hmove rfl ?_⟩
    rw [hm] at h₁
    cases h₁; rfl
  · exact ⟨m, hm, .kept⟩

/-- **What an effect does to an existing market.** -/
theorem Does.market_cases (hB : BookLaws S) (h : Does S c e c') (hc : BooksOk S c)
    (hm : c.markets.lookup mid = some m) :
    (e = .delete mid ∧ m.canDelete S = true ∧ c'.markets.lookup mid = none) ∨
      ∃ m', c'.markets.lookup mid = some m' ∧ Moves S mid m e m' := by
  cases h with
  | credit | debit | storage | unregister | admin => exact .inr ⟨m, hm, .kept⟩
  | @order env mid' p r c' run =>
    refine .inr (Moves.of_save run.markets_eq run.found hm ?_)
    rintro rfl rfl
    rw [run.path.traded.market]
    exact .matched (.inl ⟨_, _, _, rfl⟩) run.path.traded.active run.path.traded.of.denom
  | @hop env swap t amount out c' run =>
    refine .inr (Moves.of_save run.markets_eq run.found hm ?_)
    rintro rfl rfl
    rw [run.traded.market]
    exact .matched (.inr ⟨_, _, _, _, _, _, rfl, rfl⟩) run.traded.active run.traded.of.denom
  | @cancel mid' owner ids c' run =>
    refine .inr (Moves.of_save (congrArg Contract.markets run.result) run.found hm ?_)
    rintro rfl rfl
    exact .cancelled run.state (run.orders hB (hc _ _ run.found))
  | @create mid' m' new fresh =>
    refine .inr ⟨m, ?_, .kept⟩
    have hne : mid ≠ mid' := by
      rintro rfl
      rw [new] at hm
      cases hm
    exact (Contract.lookup_internalSaveMarket mid).trans ((if_neg hne).trans hm)
  | @delete mid' m' ids found can =>
    by_cases hid : mid = mid'
    · subst hid
      rw [hm] at found
      cases found
      exact .inl ⟨rfl, can, AList.lookup_erase _ _⟩
    · exact .inr ⟨m, (AList.lookup_erase_ne hid).trans hm, .kept⟩
  | @setState mid' m' state found =>
    refine .inr (Moves.of_save rfl found hm ?_)
    rintro rfl rfl
    exact .state state
  | @setWindow mid' m' bid ask found =>
    refine .inr (Moves.of_save rfl found hm ?_)
    rintro rfl rfl
    exact .window
  | @decimals mid' m' side d state found =>
    refine .inr (Moves.of_save rfl found hm ?_)
    rintro rfl rfl
    exact .decimals

/-- A market that an effect brings about is new. -/
theorem Does.market_new (h : Does S c e c') (hm : c.markets.lookup mid = none) :
    c'.markets.lookup mid = none ∨
      ∃ m, e = .create mid m ∧ m.Fresh S ∧ c'.markets.lookup mid = some m := by
  have saved : ∀ {mid' m₁ m'}, c'.markets = c.markets.insert mid' m' →
      c.markets.lookup mid' = some m₁ → c'.markets.lookup mid = none := by
    intro mid' m₁ m' hc h₁
    have hne : mid ≠ mid' := by
      rintro rfl
      rw [hm] at h₁
      cases h₁
    rw [hc, AList.lookup_insert_ne hne, hm]
  cases h with
  | credit | debit | storage | unregister | admin => exact .inl hm
  | order run => exact .inl (saved run.markets_eq run.found)
  | hop run => exact .inl (saved run.markets_eq run.found)
  | cancel run => exact .inl (saved (congrArg Contract.markets run.result) run.found)
  | @create mid' m' new fresh =>
    by_cases hid : mid = mid'
    · subst hid
      exact .inr ⟨m', rfl, fresh, AList.lookup_insert _⟩
    · exact .inl ((AList.lookup_insert_ne hid).trans hm)
  | @delete mid' m' ids found can =>
    refine .inl ?_
    rw [HMap.lookup_erase_eq, hm, ite_self]
  | setState found => exact .inl (saved rfl found)
  | setWindow bid ask found => exact .inl (saved rfl found)
  | decimals found => exact .inl (saved rfl found)

/-- **Where a market comes from**: it is new, or what an effect left of the old one. -/
theorem Does.market_origin (hB : BookLaws S) (h : Does S c e c') (hc : BooksOk S c)
    {m' : Market B} (hm' : c'.markets.lookup mid = some m') :
    (e = .create mid m' ∧ m'.Fresh S) ∨
      ∃ m, c.markets.lookup mid = some m ∧ Moves S mid m e m' := by
  rcases hm : c.markets.lookup mid with _ | m
  · obtain hnone | ⟨m₁, he, hfresh, hm₁⟩ := h.market_new hm
    · rw [hnone] at hm'
      cases hm'
    · cases hm₁.symm.trans hm'
      exact .inl ⟨he, hfresh⟩
  · obtain ⟨-, -, hnone⟩ | ⟨m₁, hm₁, hmove⟩ := h.market_cases hB hc hm
    · rw [hnone] at hm'
      cases hm'
    · cases hm₁.symm.trans hm'
      exact .inr ⟨m, rfl, hmove⟩

/-- An invariant of single markets is one of all markets. -/
theorem Does.forall_markets (hB : BookLaws S) {P : Market B → Prop} (h : Does S c e c')
    (hc : BooksOk S c) (fresh : ∀ m, m.Fresh S → P m)
    (moves : ∀ mid m m', c.markets.lookup mid = some m → Moves S mid m e m' → P m → P m')
    (hP : ∀ mid m, c.markets.lookup mid = some m → P m) :
    ∀ mid m, c'.markets.lookup mid = some m → P m := by
  intro mid m' hm'
  obtain ⟨-, hfresh⟩ | ⟨m, hm, hmove⟩ := h.market_origin hB hc hm'
  · exact fresh _ hfresh
  · exact moves _ _ _ hm hmove (hP _ _ hm)

/-- An effect changes no terms of a market. -/
theorem Moves.sameTerms {m' : Market B} (h : Moves S mid m e m') : SameTerms m m' := by
  cases h with
  | @decimals side d state => cases side <;> exact ⟨rfl, rfl, rfl, rfl, rfl, rfl, rfl⟩
  | _ => exact ⟨rfl, rfl, rfl, rfl, rfl, rfl, rfl⟩

theorem Market.Fresh.orders (hB : BookLaws S) (h : m.Fresh S) : S.orders m.orderbook = [] := by
  rw [h.book, Sdk.orders]
  exact List.append_eq_nil_iff.2 ⟨hB.empty .sell, hB.empty .buy⟩

/-- A market in which something rests is not new. -/
theorem Does.book_origin (hB : BookLaws S) (h : Does S c e c') (hc : BooksOk S c)
    {m' : Market B} (hm' : c'.markets.lookup mid = some m') (hne : S.orders m'.orderbook ≠ []) :
    ∃ m, c.markets.lookup mid = some m ∧ Moves S mid m e m' := by
  obtain ⟨-, hfresh⟩ | h := h.market_origin hB hc hm'
  · exact absurd (hfresh.orders hB) hne
  · exact h

/-! ## Books of markets without decimals -/

/-- The base decimals of a market with resting orders change. -/
def Effect.Rescales (S : Sdk B) (c : Contract B) : Effect B → Prop
  | decimals mid .base d _ => ∃ m, c.markets.lookup mid = some m ∧ S.orders m.orderbook ≠ [] ∧
      d ≠ m.baseToken.decimals
  | _ => False

/-- Without a base denomination that fits into 128 bits, nothing rests. -/
def Priced (S : Sdk B) (c : Contract B) : Prop :=
  ∀ mid m, c.markets.lookup mid = some m → 2 ^ 128 ≤ m.denom → S.orders m.orderbook = []

theorem Does.priced (hB : BookLaws S) (h : Does S c e c') (hc : BooksOk S c)
    (hok : ¬ e.Rescales S c) (hP : Priced S c) : Priced S c' := by
  refine h.forall_markets hB hc (P := fun m => 2 ^ 128 ≤ m.denom → S.orders m.orderbook = [])
    (fun m hf _ => hf.orders hB) (fun mid m m' hm hmove hP hd => ?_) hP
  cases hmove with
  | kept | state | window => exact hP hd
  | matched trades active denom => exact absurd denom (not_lt.2 hd)
  | cancelled state rest => rw [rest, hP hd]; rfl
  | @decimals side d state =>
    cases side with
    | quote => exact hP hd
    | base =>
      by_contra hne
      refine hok ⟨m, hm, hne, ?_⟩
      rintro rfl
      exact hne (hP hd)

/-! ## Waiting for decimals -/

/-- The promises whose callback will set the base decimals of a market. -/
def Promise.asksBase (mid : MarketId) : Promise → Bool
  | ftMetadata _ mid' .base | mtMetadata _ _ mid' .base => decide (mid' = mid)
  | _ => false

/-- At most one promise will set the base decimals of a market, and they are
    invalid until then. -/
def AwaitsBase (s : System B) : Prop :=
  ∀ mid, s.pending.countP (Promise.asksBase mid) ≤ 1 ∧
    (0 < s.pending.countP (Promise.asksBase mid) → ∃ m,
      s.contract.markets.lookup mid = some m ∧ m.baseToken.decimals = invalidDecimals)

/-- The methods that can have an effect: deletions and new states are calls of
    the owner, and only callbacks change decimals. -/
def Effect.CausedBy (op : Op) : Effect B → Prop
  | decimals .. => False
  | delete mid => op = .adminDeleteMarket mid
  | setState mid state => op = .setMarketState mid state
  | _ => True

theorem Hops.causedBy {env : Env} {swaps : List SwapAction} {x y : TokenType × ℕ}
    (h : Hops env swaps x es y) (op : Op) : ∀ e ∈ es, e.CausedBy op := by
  induction h with
  | nil x => intro e he; cases he
  | cons rest ih =>
    intro e he
    rcases List.mem_cons.1 he with rfl | he
    · trivial
    · exact ih e he

theorem Shape.causedBy {env : Env} {op : Op} {ps : List Promise} (h : Shape S c env op ps es) :
    ∀ e ∈ es, e.CausedBy op := by
  intro e he
  cases h with
  | swap method hops => exact hops.causedBy op e he
  | storageDeposit sum effects =>
    obtain ⟨rfl, -⟩ | rfl := effects
    · cases he
    · cases List.mem_singleton.1 he
      trivial
  | execute trades => obtain _ | _ := trades _ he <;> trivial
  | adminCancel method cancels =>
    obtain ⟨owner, ids, rfl, -⟩ := cancels _ he
    trivial
  | mtDeposit =>
    obtain ⟨x, -, rfl⟩ := List.mem_map.1 he
    trivial
  | storageKept | notDeleted => cases he
  | setMarketState | deleted =>
    cases List.mem_singleton.1 he
    rfl
  | _ =>
    cases List.mem_singleton.1 he
    trivial

/-- What the moves of an effect keep of a market that it does not delete. -/
theorem Does.keeps (hB : BookLaws S) {α : Type} {f : Market B → α} (h : Does S c e c')
    (hc : BooksOk S c) (hdel : e ≠ .delete mid)
    (hmove : ∀ m m', Moves S mid m e m' → f m' = f m) (hm : c.markets.lookup mid = some m) :
    ∃ m', c'.markets.lookup mid = some m' ∧ f m' = f m := by
  obtain ⟨he, -⟩ | ⟨m', hm', hmoves⟩ := h.market_cases hB hc hm
  · exact absurd he hdel
  · exact ⟨m', hm', hmove m m' hmoves⟩

theorem Effects.keeps (hB : BookLaws S) {α : Type} {f : Market B → α} (h : Effects S c es c')
    (hc : BooksOk S c) (hdel : ∀ e ∈ es, e ≠ .delete mid)
    (hmove : ∀ e ∈ es, ∀ m m', Moves S mid m e m' → f m' = f m)
    (hm : c.markets.lookup mid = some m) : ∃ m', c'.markets.lookup mid = some m' ∧ f m' = f m := by
  induction h generalizing m with
  | nil c => exact ⟨m, hm, rfl⟩
  | @cons c c₁ c' e es head tail ih =>
    obtain ⟨m₁, hm₁, h1⟩ := head.keeps hB hc (hdel e (List.mem_cons_self ..))
      (hmove e (List.mem_cons_self ..)) hm
    obtain ⟨m', hm', h2⟩ := ih (head.booksOk hB hc)
      (fun e he => hdel e (List.mem_cons_of_mem _ he))
      (fun e he => hmove e (List.mem_cons_of_mem _ he)) hm₁
    exact ⟨m', hm', h2.trans h1⟩

/-- Base decimals stay as they are, except by a metadata callback. -/
theorem Moves.baseDecimals {m' : Market B} (h : Moves S mid m e m')
    (hdec : ∀ d state, e ≠ .decimals mid .base d state) :
    m'.baseToken.decimals = m.baseToken.decimals := by
  cases h with
  | @decimals side d state =>
    cases side with
    | base => exact absurd rfl (hdec d state)
    | quote => rfl
  | _ => rfl

theorem Effects.baseDecimals (hB : BookLaws S) (h : Effects S c es c')
    (hc : BooksOk S c) (hdel : ∀ e ∈ es, e ≠ .delete mid)
    (hdec : ∀ e ∈ es, ∀ d state, e ≠ .decimals mid .base d state)
    (hm : c.markets.lookup mid = some m) :
    ∃ m', c'.markets.lookup mid = some m' ∧ m'.baseToken.decimals = m.baseToken.decimals :=
  h.keeps hB hc hdel (fun e he _ _ hmove => hmove.baseDecimals (hdec e he)) hm

/-- The base decimals of a token are asked for once, if they have to be asked for. -/
theorem countP_getDecimals (mid' mid : MarketId) (t : TokenType) :
    (getDecimalsForToken mid' .base t).2.countP (Promise.asksBase mid) = 0 ∨
      (mid' = mid ∧ t ≠ .nativeNear) := by
  by_cases hid : mid' = mid
  · cases t with
    | nativeNear => exact .inl rfl
    | _ => exact .inr ⟨hid, nofun⟩
  · left
    cases t with
    | nativeNear => rfl
    | _ => simp [getDecimalsForToken, Promise.asksBase, hid]

theorem length_getDecimals (mid : MarketId) (side : PairSide) (t : TokenType) :
    (getDecimalsForToken mid side t).2.length ≤ 1 := by
  cases t <;> simp [getDecimalsForToken]

/-- A call asks for base decimals only when it creates the market. -/
theorem Shape.asksBase {env : Env} {op : Op} {ps : List Promise} (h : Shape S c env op ps es)
    (mid : MarketId) : ps.countP (Promise.asksBase mid) = 0 ∨
      ∃ m, es = [.create mid m] ∧ ps.countP (Promise.asksBase mid) ≤ 1 ∧
        m.baseToken.tokenType ≠ .nativeNear := by
  have htransfers : ∀ id n, (transfers id n).countP (Promise.asksBase mid) = 0 := by
    intro id n
    unfold transfers
    split_ifs <;> rfl
  cases h with
  | @createMarket args mid' m refund le =>
    rw [List.countP_append, htransfers, Nat.add_zero, metadataPromises, List.countP_append]
    have hquote : (getDecimalsForToken mid' .quote m.quoteToken.tokenType).2.countP
        (Promise.asksBase mid) = 0 := by
      cases m.quoteToken.tokenType <;> rfl
    rw [hquote, Nat.add_zero]
    obtain hzero | ⟨rfl, hne⟩ := countP_getDecimals mid' mid m.baseToken.tokenType
    · exact .inl hzero
    · exact .inr ⟨m, rfl, List.countP_le_length.trans (length_getDecimals ..), hne⟩
  | swap method hops =>
    left
    split_ifs <;> rfl
  | storageDeposit sum effects => exact .inl (htransfers _ _)
  | _ => exact .inl rfl

/-- The owner does not delete markets. -/
def NoDelete (_ : System B) (ev : Event) : Prop :=
  ∀ env mid, ev ≠ .call env (.adminDeleteMarket mid)

/-- A pending promise, taken out of the list. -/
theorem System.pending_perm {s : System B} {i : ℕ} {p : Promise} (h : s.pending[i]? = some p) :
    (p :: s.pending.eraseIdx i).Perm s.pending := by
  obtain ⟨hi, rfl⟩ := List.getElem?_eq_some_iff.1 h
  exact List.getElem_cons_eraseIdx_perm hi

/-- The effects of a resolution: a refund, or new decimals for the market that
    the promise asked about. -/
theorem Resolution.cases_effects {p : Promise} {paid : Option (TokenType × ℕ)}
    (h : Resolution S c p es paid) : es = [] ∨ ∃ e, es = [e] ∧ (∀ mid, e ≠ .delete mid) ∧
      ∀ mid d state, e = .decimals mid .base d state → p.asksBase mid = true := by
  cases h with
  | transferred | transferFailed | sent | lost => exact .inl rfl
  | credited =>
    exact .inr ⟨_, rfl, fun mid h => (by cases h), fun mid d state h => (by cases h)⟩
  | @metadata p token subtoken mid side es promise callback =>
    have hasks : ∀ mid', mid = mid' → side = .base → p.asksBase mid' = true := by
      rintro mid' rfl rfl
      obtain rfl | rfl := promise <;> exact decide_eq_true rfl
    cases callback with
    | nothing => exact .inl rfl
    | unchanged =>
      exact .inr ⟨_, rfl, fun mid h => (by cases h), fun mid d state h => (by cases h)⟩
    | ft found checked =>
      refine .inr ⟨_, rfl, fun mid h => (by cases h), fun mid' d state h => ?_⟩
      injection h with h1 h2
      exact hasks mid' h1 h2
    | mt found =>
      refine .inr ⟨_, rfl, fun mid h => (by cases h), fun mid' d state h => ?_⟩
      injection h with h1 h2
      exact hasks mid' h1 h2

/-- **As long as no market is deleted, base decimals change only from invalid.** -/
theorem AwaitsBase.step (hB : BookLaws S) {s : System B} {ev : Event}
    (hok : NoDelete s ev) (hc : BooksOk S s.contract) (h : AwaitsBase s) :
    AwaitsBase (System.step S s ev) := by
  intro mid
  obtain ⟨hle, hinv⟩ := h mid
  have hcase := step_cases hB s ev
  generalize System.step S s ev = s' at hcase ⊢
  cases hcase with
  | unchanged => exact ⟨hle, hinv⟩
  | @called env op c' ps es performed effects shape =>
    simp only [List.countP_append]
    obtain hz | ⟨m, rfl, hone, hne⟩ := shape.asksBase mid
    · rw [hz, Nat.add_zero]
      refine ⟨hle, fun hpos => ?_⟩
      obtain ⟨m, hm, hd⟩ := hinv hpos
      have hdel : ∀ e ∈ es, e ≠ .delete mid := by
        rintro _ he rfl
        obtain rfl : op = .adminDeleteMarket mid := shape.causedBy _ he
        exact hok env mid rfl
      have hdec : ∀ e ∈ es, ∀ d state, e ≠ .decimals mid .base d state := by
        rintro _ he d state rfl
        exact shape.causedBy _ he
      obtain ⟨m', hm', he⟩ := effects.baseDecimals hB hc hdel hdec hm
      exact ⟨m', hm', he.trans hd⟩
    · cases effects.of_single with
      | create new fresh =>
        have hnone : ¬ 0 < s.pending.countP (Promise.asksBase mid) := by
          intro hpos
          obtain ⟨m', hm', -⟩ := hinv hpos
          rw [new] at hm'
          cases hm'
        refine ⟨by omega, fun _ => ⟨m, AList.lookup_insert _, ?_⟩⟩
        rw [fresh.baseDecimals, if_neg hne]
  | @resolved i out p c' es paid promise effects resolution =>
    have hcount := (System.pending_perm promise).countP_eq (Promise.asksBase mid)
    rw [List.countP_cons] at hcount
    refine ⟨?_, fun hpos => ?_⟩
    · simp only
      omega
    · simp only at hpos
      have hnot : ¬ p.asksBase mid = true := by
        intro hp
        rw [if_pos hp] at hcount
        omega
      obtain ⟨m, hm, hd⟩ := hinv (by omega)
      have hkeep : ∀ e ∈ es, e ≠ .delete mid ∧ ∀ d state, e ≠ .decimals mid .base d state := by
        obtain rfl | ⟨e, rfl, hdel, hdec⟩ := resolution.cases_effects
        · intro e he; cases he
        · intro e' he'
          obtain rfl := List.mem_singleton.1 he'
          exact ⟨hdel mid, fun d state he => hnot (hdec mid d state he)⟩
      obtain ⟨m', hm', he⟩ := effects.baseDecimals hB hc (fun e he => (hkeep e he).1)
        (fun e he => (hkeep e he).2) hm
      exact ⟨m', hm', he.trans hd⟩

/-- A callback that is still to come finds a market without orders. -/
theorem AwaitsBase.not_rescales {s : System B} (h : AwaitsBase s) (hP : Priced S s.contract)
    {i : ℕ} {p : Promise} {paid : Option (TokenType × ℕ)} (hp : s.pending[i]? = some p)
    (hr : Resolution S s.contract p es paid) : ∀ e ∈ es, ¬ e.Rescales S s.contract := by
  obtain rfl | ⟨e, rfl, -, hdec⟩ := hr.cases_effects
  · intro e he; cases he
  intro e' he'
  obtain rfl := List.mem_singleton.1 he'
  intro hres
  unfold Effect.Rescales at hres
  split at hres
  · next mid d state =>
    obtain ⟨m, hm, hne, -⟩ := hres
    have hpos : 0 < s.pending.countP (Promise.asksBase mid) :=
      List.countP_pos_iff.2 ⟨p, List.mem_of_getElem? hp, hdec mid d state rfl⟩
    obtain ⟨m', hm', hd⟩ := (h mid).2 hpos
    rw [hm] at hm'
    cases hm'
    refine hne (hP mid m hm ?_)
    rw [Market.denom, hd]
    decide
  · exact hres

/-! ## The scale of a market -/

/-- The event leaves the base decimals of markets with resting orders as they are. -/
def KeepsScale (S : Sdk B) (s : System B) (ev : Event) : Prop :=
  ∀ mid m m', s.contract.markets.lookup mid = some m → S.orders m.orderbook ≠ [] →
    (System.step S s ev).contract.markets.lookup mid = some m' →
      m'.baseToken.decimals = m.baseToken.decimals

theorem Does.keeps_scale (hB : BookLaws S) (h : Does S c e c') (hc : BooksOk S c)
    (hok : ¬ e.Rescales S c) {m' : Market B} (hm : c.markets.lookup mid = some m)
    (hne : S.orders m.orderbook ≠ []) (hm' : c'.markets.lookup mid = some m') :
    m'.baseToken.decimals = m.baseToken.decimals := by
  obtain ⟨-, -, hnone⟩ | ⟨m₁, hm₁, hmove⟩ := h.market_cases hB hc hm
  · rw [hnone] at hm'
    cases hm'
  · cases hm₁.symm.trans hm'
    cases hmove with
    | @decimals side d state =>
      cases side with
      | quote => rfl
      | base =>
        by_contra hd
        exact hok ⟨m, hm, hne, hd⟩
    | _ => rfl

theorem Does.not_rescales (h : Does S c e c')
    (hkeep : ∀ mid m m', c.markets.lookup mid = some m → S.orders m.orderbook ≠ [] →
      c'.markets.lookup mid = some m' → m'.baseToken.decimals = m.baseToken.decimals) :
    ¬ e.Rescales S c := by
  intro hres
  unfold Effect.Rescales at hres
  split at hres
  · next mid d state =>
    obtain ⟨m, hm, hne, hd⟩ := hres
    cases h with
    | decimals found =>
      cases hm.symm.trans found
      exact hd (hkeep mid m _ hm hne (AList.lookup_insert _))
  · exact hres

theorem Shape.not_rescales {env : Env} {op : Op} {ps : List Promise}
    (h : Shape S c env op ps es) : ∀ e ∈ es, ∀ c : Contract B, ¬ e.Rescales S c := by
  intro e he c' hres
  have hcaused := h.causedBy e he
  unfold Effect.Rescales at hres
  split at hres
  · exact hcaused
  · exact hres

theorem Resolution.not_rescales {p : Promise} {paid : Option (TokenType × ℕ)}
    (h : Resolution S c p es paid) (heff : Effects S c es c')
    (hkeep : ∀ mid m m', c.markets.lookup mid = some m → S.orders m.orderbook ≠ [] →
      c'.markets.lookup mid = some m' → m'.baseToken.decimals = m.baseToken.decimals) :
    EachEffect S (fun c e _ => ¬ e.Rescales S c) c es c' := by
  obtain rfl | ⟨e, rfl, -⟩ := h.cases_effects
  · cases heff with
    | nil => exact .nil _
  · exact .cons heff.of_single (heff.of_single.not_rescales hkeep) (.nil _)

/-- **Steps that keep the scale of the markets are made of effects that do.** -/
theorem KeepsScale.each (hB : BookLaws S) {s : System B} {ev : Event}
    (hok : KeepsScale S s ev) (hc : BooksOk S s.contract) :
    ∃ es, EachEffect S (fun c e _ => ¬ e.Rescales S c) s.contract es
      (System.step S s ev).contract := by
  unfold KeepsScale at hok
  have hcase := step_cases hB s ev
  generalize System.step S s ev = s' at hcase hok ⊢
  cases hcase with
  | unchanged => exact ⟨[], .nil _⟩
  | called performed effects shape =>
    exact ⟨_, effects.each hB hc fun e he c _ _ _ => shape.not_rescales e he c⟩
  | resolved paid promise effects resolution =>
    exact ⟨_, resolution.not_rescales effects hok⟩

/-- As long as no market is deleted, the scale of the markets is kept. -/
theorem AwaitsBase.keepsScale (hB : BookLaws S) {s : System B} {ev : Event}
    (hdel : NoDelete s ev) (hc : BooksOk S s.contract) (hP : Priced S s.contract)
    (h : AwaitsBase s) : KeepsScale S s ev := by
  intro mid m m' hm hne hm'
  have hcase := step_cases hB s ev
  generalize System.step S s ev = s' at hcase hm'
  cases hcase with
  | unchanged =>
    cases hm.symm.trans hm'
    rfl
  | @called env op c' ps es performed effects shape =>
    have hstays : ∀ e ∈ es, e ≠ .delete mid := by
      rintro _ he rfl
      obtain rfl : op = .adminDeleteMarket mid := shape.causedBy _ he
      exact hdel env mid rfl
    have hdec : ∀ e ∈ es, ∀ d state, e ≠ .decimals mid .base d state := by
      rintro _ he d state rfl
      exact shape.causedBy _ he
    obtain ⟨m₁, hm₁, hd⟩ := effects.baseDecimals hB hc hstays hdec hm
    cases hm₁.symm.trans hm'
    exact hd
  | resolved paid promise effects resolution =>
    have hnot := h.not_rescales hP promise resolution
    obtain rfl | ⟨e, rfl, -⟩ := resolution.cases_effects
    · cases effects with
      | nil =>
        cases hm.symm.trans hm'
        rfl
    · exact effects.of_single.keeps_scale hB hc (hnot e (List.mem_singleton_self e)) hm hne hm'

end TonicDex
