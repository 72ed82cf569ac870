/-
  What only the owner can do.

  The owner's methods return for the owner only (`dispatch_admin`), callbacks do
  no more than `Answered` says, and without calls of the owner nobody changes
  the owner, the state of the contract or the terms of a market (`owner_only`).
-/
import TonicDex.Invariant.Custody

namespace TonicDex

variable {B : Type} {S : Sdk B} {c c₁ c₂ c' : Contract B} {env : Env} {op : Op}
  {ps : List Promise} {mid : MarketId} {m m₁ m₂ m' : Market B} {s s₀ s' : System B} {p : Promise}

/-! ## What methods ask for -/

/-- The methods for the owner. -/
def Op.Admin : Op → Prop
  | setContractState _ | setOwner _ | setMarketState .. | setMarketBidWindow .. |
    setMarketAskWindow .. | adminDeleteMarket _ | adminCancelOrder .. |
    adminCancelAllUserOrders .. | adminClearOrderbook .. => True
  | _ => False

/-- The methods for the owner return for nobody else. -/
theorem dispatch_admin (hop : op.Admin) (h : dispatch S env c op = .ok (ps, c')) :
    env.predecessorAccountId = c.ownerId := by
  by_contra hne
  obtain ⟨e, he⟩ : ∃ e, c.assertIsOwner env = .error e := ⟨_, if_neg hne⟩
  cases op with
  | setContractState | setOwner | setMarketState | setMarketBidWindow | setMarketAskWindow
  | adminDeleteMarket | adminCancelOrder | adminCancelAllUserOrders | adminClearOrderbook =>
    simp only [dispatch, quiet, setContractState, setOwner, setMarketState, setMarketBidWindow,
      setMarketAskWindow, adminDeleteMarket, adminCancelOrder, adminCancelAllUserOrders,
      adminClearOrderbook, he, Checked.error_bind, Checked.error_map] at h
    cases h
  | _ => exact hop

/-! ## What callbacks do -/

/-- What the resolution of the promise does to the state of the contract. -/
inductive Answered (S : Sdk B) (c : Contract B) : Promise → Contract B → Prop
  | nothing {p : Promise} : Answered S c p c
  | credited {id : AccountId} {token : TokenType} {n : ℕ} {a : Account}
      (found : c.accounts.lookup (c.refundee id) = some a) :
      Answered S c (.send id token n)
        (c.putAccount (c.refundee id) (a.credit (S.key token) n))
  | decimals {p : Promise} {mid : MarketId} {m : Market B} {side : PairSide} {d : ℕ}
      {state : MarketState} (found : c.markets.lookup mid = some m)
      (kept : state = m.state ∨ state = .active) (metadata : ∀ id token n, p ≠ .send id token n) :
      Answered S c p (c.internalSaveMarket mid { m.setDecimals side d with state })

theorem Market.setDecimals_self (m : Market B) :
    { m.setDecimals .base m.baseToken.decimals with state := m.state } = m := rfl

/-- A metadata callback sets decimals and may make the market active. -/
theorem onFtMetadata_answered {side : PairSide} {d : Option ℕ}
    (hp : ∀ id token n, p ≠ .send id token n) (h : onFtMetadata c mid side d = .ok c') :
    Answered S c p c' := by
  simp only [onFtMetadata, Checked.bind_eq_ok, Contract.internalUnwrapMarket_eq_ok] at h
  obtain ⟨m, hm, h⟩ := h
  rcases d with _ | d
  · simp only [Checked.pure_eq_ok] at h
    subst h
    exact .nothing
  · simp only [Checked.bind_eq_ok, Checked.pure_eq_ok, Market.setDecimals_ite] at h
    obtain ⟨valid, -, rfl⟩ := h
    refine .decimals hm ?_ hp
    split_ifs
    · exact .inr rfl
    · exact .inl rfl

theorem onMtMetadata_answered {side : PairSide} {d : Option (List (Option String))}
    (hp : ∀ id token n, p ≠ .send id token n) (h : onMtMetadata c mid side d = .ok c') :
    Answered S c p c' := by
  simp only [onMtMetadata, Checked.bind_eq_ok, Contract.internalUnwrapMarket_eq_ok] at h
  obtain ⟨m, hm, h⟩ := h
  rcases d with _ | d
  · simp only [Checked.pure_eq_ok] at h
    subst h
    exact .nothing
  rcases hd : (d.head?.bind id).bind parseU8 with _ | d'
  · simp only [hd, Checked.pure_eq_ok] at h
    subst h
    rw [← Market.setDecimals_self m]
    exact .decimals hm (.inl rfl) hp
  · simp only [hd, Checked.pure_eq_ok, Market.setDecimals_ite] at h
    subst h
    refine .decimals hm ?_ hp
    split_ifs
    · exact .inr rfl
    · exact .inl rfl

theorem refund_answered {id : AccountId} {token : TokenType} {n : ℕ}
    (h : exchangeCallbackPostWithdraw S c token id n .failed = .ok c') :
    Answered S c (.send id token n) c' := by
  have hdo := exchangeCallbackPostWithdraw_does h
  cases hdo with
  | credit found covered => exact .credited found

/-- **What the resolution of a promise does**: it takes in nothing, promises
    nothing, and changes the contract as its callback does. -/
theorem resolved_answered {i : ℕ} (out : Outcome) (hp : s.pending[i]? = some p) :
    ∃ c' sent, System.step S s (.resolve i out) = ⟨c', s.pending.eraseIdx i, s.received, sent⟩ ∧
      Answered S s.contract p c' := by
  simp only [System.step, hp]
  have callback : ∀ {x : Call (Contract B)}, (∀ {c'}, x = .ok c' → Answered S s.contract p c') →
      ∃ c' sent, System.callback { s with pending := s.pending.eraseIdx i } x =
        ⟨c', s.pending.eraseIdx i, s.received, sent⟩ ∧ Answered S s.contract p c' := by
    intro x hx
    cases x with
    | ok c' => exact ⟨c', s.sent, rfl, hx rfl⟩
    | error e => exact ⟨s.contract, s.sent, rfl, .nothing⟩
  cases p with
  | transfer id n =>
    cases out with
    | _ => exact ⟨s.contract, _, rfl, .nothing⟩
  | send id token n =>
    cases out with
    | successful => exact ⟨s.contract, _, rfl, .nothing⟩
    | _ => exact callback refund_answered
  | ftMetadata token mid side =>
    cases out with
    | ftMetadata d => exact callback (onFtMetadata_answered fun _ _ _ => Promise.noConfusion)
    | _ => exact ⟨s.contract, _, rfl, .nothing⟩
  | mtMetadata token subtoken mid side =>
    cases out with
    | mtMetadata d => exact callback (onMtMetadata_answered fun _ _ _ => Promise.noConfusion)
    | _ => exact ⟨s.contract, _, rfl, .nothing⟩

/-! ## Without the owner -/

/-- The event is not a call by the account. -/
def Event.NotBy (id : AccountId) : Event → Prop
  | .call env _ => env.predecessorAccountId ≠ id
  | .resolve .. => True

/-- The states reached from `s₀` while its owner makes no call. -/
abbrev System.Alone (S : Sdk B) (s₀ : System B) : System B → Prop :=
  Runs.Reach (· = s₀) (System.step S) fun _ ev => ev.NotBy s₀.contract.ownerId

/-- The market keeps its terms and its trading window, and is made active at most. -/
structure TermsKept (m m' : Market B) : Prop where
  terms : SameTerms m m'
  bid : m'.minimumBidBps = m.minimumBidBps
  ask : m'.maximumAskBps = m.maximumAskBps
  state : m'.state = m.state ∨ m'.state = .active

theorem TermsKept.refl (m : Market B) : TermsKept m m := ⟨.refl m, rfl, rfl, .inl rfl⟩

theorem TermsKept.trans (h : TermsKept m m₁) (h' : TermsKept m₁ m₂) : TermsKept m m₂ where
  terms := h.terms.trans h'.terms
  bid := h'.bid.trans h.bid
  ask := h'.ask.trans h.ask
  state := by
    obtain h2 | h2 := h'.state
    · rw [h2]
      exact h.state
    · exact .inr h2

/-- Nothing that is the owner's to change has changed. -/
structure OwnerOnly (c c' : Contract B) : Prop where
  owner : c'.ownerId = c.ownerId
  state : c'.state = c.state
  markets : ∀ mid m, c.markets.lookup mid = some m →
    ∃ m', c'.markets.lookup mid = some m' ∧ TermsKept m m'

theorem OwnerOnly.refl (c : Contract B) : OwnerOnly c c :=
  ⟨rfl, rfl, fun _ m hm => ⟨m, hm, .refl m⟩⟩

theorem OwnerOnly.trans (h : OwnerOnly c c₁) (h' : OwnerOnly c₁ c₂) : OwnerOnly c c₂ where
  owner := h'.owner.trans h.owner
  state := h'.state.trans h.state
  markets mid m hm := by
    obtain ⟨m₁, hm₁, h1⟩ := h.markets mid m hm
    obtain ⟨m₂, hm₂, h2⟩ := h'.markets mid m₁ hm₁
    exact ⟨m₂, hm₂, h1.trans h2⟩

/-- The effects that only the owner's methods have. -/
def Effect.Admin : Effect B → Prop
  | .admin | .setState .. | .setWindow _ | .delete _ | .decimals .. => True
  | _ => False

theorem Hops.not_admin {swaps : List SwapAction} {x y : TokenType × ℕ} {es : List (Effect B)}
    (h : Hops env swaps x es y) : ∀ e ∈ es, ¬ e.Admin := by
  induction h with
  | nil x => exact fun e he => (List.not_mem_nil he).elim
  | cons rest ih => exact List.forall_mem_cons.2 ⟨id, ih⟩

theorem Shape.not_admin {es : List (Effect B)} (h : Shape S c env op ps es) (hop : ¬ op.Admin) :
    ∀ e ∈ es, ¬ e.Admin := by
  cases h with
  | admin method =>
    obtain ⟨x, rfl⟩ | ⟨x, rfl⟩ := method
    · exact (hop trivial).elim
    · exact (hop trivial).elim
  | setWindow method =>
    obtain ⟨n, rfl⟩ | ⟨n, rfl⟩ := method
    · exact (hop trivial).elim
    · exact (hop trivial).elim
  | setMarketState | deleted => exact (hop trivial).elim
  | notDeleted | storageKept => exact fun e he => (List.not_mem_nil he).elim
  | mtDeposit => exact List.forall_mem_map.2 fun _ _ => id
  | swap method hops => exact hops.not_admin
  | storageDeposit sum effects =>
    obtain ⟨rfl, -⟩ | rfl := effects
    · exact fun e he => (List.not_mem_nil he).elim
    · exact List.forall_mem_singleton.2 id
  | execute trades =>
    intro e he
    cases trades e he with
    | _ => exact id
  | adminCancel method cancels =>
    intro e he
    obtain ⟨_, _, rfl, -⟩ := cancels e he
    exact id
  | _ => exact List.forall_mem_singleton.2 id

/-- **An effect that is not the owner's keeps what is.** -/
theorem Does.ownerOnly (hB : BookLaws S) {e : Effect B} (h : Does S c e c') (hc : BooksOk S c)
    (he : ¬ e.Admin) : OwnerOnly c c' := by
  have hcontract : c'.ownerId = c.ownerId ∧ c'.state = c.state := by
    cases h with
    | order run =>
      rw [run.state, Contract.internalSaveMarket, Contract.putAccount, run.path.traded.contract_eq]
      exact ⟨rfl, rfl⟩
    | hop run =>
      rw [run.state, Contract.internalSaveMarket, run.traded.contract_eq]
      exact ⟨rfl, rfl⟩
    | cancel run =>
      rw [run.result]
      exact ⟨rfl, rfl⟩
    | admin => exact (he trivial).elim
    | _ => exact ⟨rfl, rfl⟩
  refine ⟨hcontract.1, hcontract.2, fun mid m hm => ?_⟩
  obtain ⟨rfl, -⟩ | ⟨m', hm', hmoves⟩ := h.market_cases hB hc hm
  · exact (he trivial).elim
  refine ⟨m', hm', ?_⟩
  cases hmoves with
  | kept => exact .refl m
  | matched | cancelled =>
    exact ⟨⟨rfl, rfl, rfl, rfl, rfl, rfl, rfl⟩, rfl, rfl, .inl rfl⟩
  | state | window | decimals => exact (he trivial).elim

theorem Answered.ownerOnly (h : Answered S c p c') : OwnerOnly c c' := by
  cases h with
  | nothing => exact .refl c
  | credited found => exact ⟨rfl, rfl, fun mid m hm => ⟨m, hm, .refl m⟩⟩
  | @decimals p mid m side d state found kept =>
    refine ⟨rfl, rfl, fun mid₁ m₁ h₁ => ?_⟩
    rw [Contract.lookup_internalSaveMarket]
    split_ifs with hmid
    · obtain rfl : m = m₁ := Option.some.inj (found.symm.trans (hmid ▸ h₁))
      refine ⟨_, rfl, ?_⟩
      cases side with
      | base => exact ⟨⟨rfl, rfl, rfl, rfl, rfl, rfl, rfl⟩, rfl, rfl, kept⟩
      | quote => exact ⟨⟨rfl, rfl, rfl, rfl, rfl, rfl, rfl⟩, rfl, rfl, kept⟩
    · exact ⟨m₁, h₁, .refl m₁⟩

/-- **An event that is not a call by the owner** keeps what is the owner's to change. -/
theorem ownerOnly_step (hB : BookLaws S) (hs : System.Reachable S s)
    {ev : Event} (hev : ev.NotBy s.contract.ownerId) :
    OwnerOnly s.contract (System.step S s ev).contract := by
  have hc := booksOk_of_reach hB hs
  cases ev with
  | call env op =>
    rcases hp : perform S env s.contract op with e | ⟨ps, c'⟩
    · simp only [System.step, hp]
      exact .refl _
    simp only [System.step, hp]
    obtain ⟨es, heffects, hshape⟩ := perform_effects hB hp
    have hop : ¬ op.Admin := fun hop => hev (dispatch_admin hop (dispatch_of_perform hp))
    have heach : EachEffect S (fun c _ c' => OwnerOnly c c') s.contract es c' :=
      heffects.each hB hc fun e he _ _ hdo hc => hdo.ownerOnly hB hc (hshape.not_admin hop e he)
    exact heach.invariant (Q := OwnerOnly s.contract) hB hc
      (fun _ _ _ _ _ hkept h => h.trans hkept) (.refl _)
  | resolve i out =>
    rcases hi : s.pending[i]? with _ | p
    · simp only [System.step, hi]
      exact .refl _
    · obtain ⟨c', sent, hstep, hanswered⟩ := resolved_answered out hi
      rw [hstep]
      exact hanswered.ownerOnly

/-! ## Runs -/

open Engine

/-- **Only the owner administers.**  However calls of others and callbacks are
    interleaved, as long as the owner makes no call the contract keeps its owner
    and its state, and every market its tokens, lot sizes, rates, order limit and
    window; its state changes only by becoming active. -/
theorem owner_only (hB : BookLaws S) (h₀ : System.Reachable S s₀)
    (h : System.Alone S s₀ s) : OwnerOnly s₀.contract s.contract := by
  have both : System.Reachable S s ∧ OwnerOnly s₀.contract s.contract := by
    refine h.invariant (P := fun s => System.Reachable S s ∧ OwnerOnly s₀.contract s.contract)
      ?_ fun s ev _ hev ⟨hr, hs⟩ =>
        ⟨.step hr trivial, hs.trans (ownerOnly_step hB hr (hs.owner ▸ hev))⟩
    rintro s rfl
    exact ⟨h₀, .refl _⟩
  exact both.2

theorem owner_only_bought : OwnerOnly (run asked).contract (run bought).contract := by
  have hbob : bob ≠ (run asked).contract.ownerId := by decide +kernel
  have halone : System.Alone sdk (run asked) (run bought) := by
    rw [bought, run_concat]
    exact .step (.init rfl) hbob
  exact owner_only bookLaws (reachable_run asked) halone

end TonicDex
