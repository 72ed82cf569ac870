/-
  Deleting markets.

  `admin_delete_market` looks at the book of a paused market, and takes the book
  of an uninitialized one to be empty.  It is, as long as the owner does not put
  a market back into that state while orders rest in it: then no deletion leaves
  anything of the market on an account.
-/
import TonicDex.Invariant.Agreement

namespace TonicDex

variable {B : Type} {S : Sdk B} {c c' : Contract B} {e : Effect B} {es : List (Effect B)}
  {mid : MarketId} {m : Market B} {s : System B} {ev : Event}

/-! ## Uninitialized markets -/

/-- Nothing rests in a market that waits for decimals. -/
def UninitializedEmpty (S : Sdk B) (c : Contract B) : Prop :=
  ∀ mid m, c.markets.lookup mid = some m → m.state = .uninitialized → S.orders m.orderbook = []

/-- A market with orders becomes uninitialized. -/
def Effect.Reopens (S : Sdk B) (c : Contract B) : Effect B → Prop
  | setState mid .uninitialized | decimals mid _ _ .uninitialized =>
    ∃ m, c.markets.lookup mid = some m ∧ S.orders m.orderbook ≠ []
  | _ => False

theorem Does.uninitializedEmpty (hB : BookLaws S) (h : Does S c e c') (hc : BooksOk S c)
    (hok : ¬ e.Reopens S c) (hu : UninitializedEmpty S c) : UninitializedEmpty S c' := by
  refine h.forall_markets hB hc (P := fun m => m.state = .uninitialized →
    S.orders m.orderbook = []) (fun m hf _ => hf.orders hB) (fun mid m m' hm hmove hP hst => ?_) hu
  cases hmove with
  | kept | window => exact hP hst
  | matched trades active denom =>
    have hun : m.state = .uninitialized := hst
    rw [active] at hun
    cases hun
  | cancelled state rest =>
    have hun : m.state = .uninitialized := hst
    rw [hun] at state
    obtain h | h := state <;> cases h
  | state state =>
    obtain rfl : state = .uninitialized := hst
    by_contra hne
    exact hok ⟨m, hm, hne⟩
  | @decimals side d state =>
    obtain rfl : state = .uninitialized := hst
    by_contra hne
    exact hok ⟨m, hm, by cases side <;> exact hne⟩

/-- The book of a market that can be deleted is empty. -/
theorem UninitializedEmpty.of_canDelete (hu : UninitializedEmpty S c)
    (hm : c.markets.lookup mid = some m) (hcan : m.canDelete S = true) :
    S.orders m.orderbook = [] := by
  unfold Market.canDelete at hcan
  split at hcan
  · next hst => exact hu mid m hm hst
  · simp only [Bool.and_eq_true, List.isEmpty_iff] at hcan
    rw [Sdk.orders, hcan.1, hcan.2]
    rfl
  · cases hcan

/-! ## Runs -/

/-- What holds of the contract as long as no market with orders becomes
    uninitialized. -/
structure Unstranded (S : Sdk B) (c : Contract B) : Prop where
  books : BooksOk S c
  empty : UninitializedEmpty S c
  indexed : Indexed S c

theorem Does.unstranded (hB : BookLaws S) (hK : KeysLaw S) (h : Does S c e c')
    (hok : ¬ e.Reopens S c) (hu : Unstranded S c) : Unstranded S c' := by
  refine ⟨h.booksOk hB hu.books, h.uninitializedEmpty hB hu.books hok hu.empty, ?_⟩
  refine h.indexed hB hK hu.books (fun hs => ?_) hu.indexed
  cases h with
  | delete found can =>
    obtain ⟨m, hm, hne⟩ := hs
    rw [found] at hm
    cases hm
    exact hne (hu.empty.of_canDelete found can)
  | _ => exact hs

theorem Effects.unstranded (hB : BookLaws S) (hK : KeysLaw S) (h : Effects S c es c')
    (hok : ∀ e ∈ es, ∀ c, ¬ e.Reopens S c) (hu : Unstranded S c) : Unstranded S c' :=
  h.invariant (fun e he c _ hd => hd.unstranded hB hK (hok e he c)) hu

/-- A callback keeps the state of a market or makes it active. -/
theorem Resolution.not_reopens {p : Promise} {paid : Option (TokenType × ℕ)}
    (hu : UninitializedEmpty S c) (h : Resolution S c p es paid) :
    ∀ e ∈ es, ¬ e.Reopens S c := by
  -- new decimals leave a market uninitialized only if it was
  have kept : ∀ {mid side d} {m : Market B} {active : Prop} [Decidable active],
      c.markets.lookup mid = some m →
      ¬ (Effect.decimals mid side d (if active then .active else m.state)).Reopens S c := by
    intro mid side d m active _ hm hre
    split_ifs at hre with hact
    · exact hre
    · cases hst : m.state with
      | uninitialized =>
        rw [hst] at hre
        obtain ⟨m', hm', hne⟩ := hre
        rw [hm] at hm'
        cases hm'
        exact hne (hu mid m hm hst)
      | _ =>
        rw [hst] at hre
        exact hre
  intro e he
  cases h with
  | transferred | transferFailed | sent | lost => cases he
  | credited =>
    cases List.mem_singleton.1 he
    exact fun h => h
  | metadata subtoken promise callback =>
    cases callback with
    | nothing => cases he
    | unchanged =>
      cases List.mem_singleton.1 he
      exact fun h => h
    | ft found checked =>
      cases List.mem_singleton.1 he
      exact kept found
    | mt found =>
      cases List.mem_singleton.1 he
      exact kept found

/-- The owner does not make a market uninitialized while orders rest in it. -/
def KeepsInitialized (S : Sdk B) (s : System B) (ev : Event) : Prop :=
  ∀ env mid m ps c', ev = .call env (.setMarketState mid .uninitialized) →
    perform S env s.contract (.setMarketState mid .uninitialized) = .ok (ps, c') →
    s.contract.markets.lookup mid = some m → S.orders m.orderbook = []

theorem Unstranded.step (hB : BookLaws S) (hK : KeysLaw S)
    (hok : KeepsInitialized S s ev) (hu : Unstranded S s.contract) :
    Unstranded S (System.step S s ev).contract := by
  have hcase := step_cases hB s ev
  generalize System.step S s ev = s' at hcase ⊢
  cases hcase with
  | unchanged => exact hu
  | @called env op c' ps es performed effects shape =>
    by_cases hop : ∃ mid, op = .setMarketState mid .uninitialized
    · obtain ⟨mid, rfl⟩ := hop
      obtain rfl := shape.of_market.2 mid _ rfl
      refine effects.of_single.unstranded hB hK ?_ hu
      rintro ⟨m, hm, hne⟩
      exact hne (hok env mid m ps _ rfl performed hm)
    · refine effects.unstranded hB hK (fun e he c hre => ?_) hu
      have hcause := shape.causedBy e he
      unfold Effect.Reopens at hre
      split at hre
      · exact hop ⟨_, hcause⟩
      · exact hcause
      · exact hre
  | @resolved i out p c' es paid promise effects resolution =>
    have hre := resolution.not_reopens hu.empty
    obtain rfl | ⟨e, rfl, -⟩ := resolution.cases_effects
    · cases effects
      exact hu
    · exact effects.of_single.unstranded hB hK (hre _ (List.mem_singleton_self _)) hu

theorem unstranded_of_reach (hB : BookLaws S) (hK : KeysLaw S)
    (hs : System.Reach S (KeepsInitialized S) s) : Unstranded S s.contract := by
  refine hs.invariant (P := fun s => Unstranded S s.contract) ?_ fun s ev _ hok h =>
    h.step hB hK hok
  rintro s ⟨id, rfl⟩
  exact ⟨fun _ _ h => (by cases h), fun _ _ h => (by cases h), .new id⟩

/-- **Deleting a market strands nothing.** In every run in which the owner makes
    no market uninitialized while orders rest in it, a market that can be deleted
    has no orders, and no account lists orders in a market that does not exist.
    A market made uninitialized in spite of its orders can be deleted with them. -/
theorem deletion_strands_nothing (hB : BookLaws S) (hK : KeysLaw S)
    (hs : System.Reach S (KeepsInitialized S) s) :
    (∀ env mid m c', adminDeleteMarket S env s.contract mid = .ok c' →
      s.contract.markets.lookup mid = some m →
      S.bids m.orderbook = [] ∧ S.asks m.orderbook = []) ∧
    (∀ id a mid, s.contract.accounts.lookup id = some a →
      s.contract.markets.lookup mid = none → a.openOrders.lookup mid = none) ∧
    ∀ env mid m ps c', s.contract.markets.lookup mid = some m → S.orders m.orderbook ≠ [] →
      perform S env s.contract (.setMarketState mid .uninitialized) = .ok (ps, c') →
      ∃ m' c'', c'.markets.lookup mid = some m' ∧ S.orders m'.orderbook ≠ [] ∧
        adminDeleteMarket S env c' mid = .ok c'' := by
  have hu := unstranded_of_reach hB hK hs
  refine ⟨?_, ?_, ?_⟩
  · intro env mid m c' hdel hm
    simp only [adminDeleteMarket, Checked.bind_eq_ok, Contract.internalUnwrapMarket_eq_ok,
      Checked.require_eq_ok] at hdel
    obtain ⟨_, -, m', hm', _, hcan, -⟩ := hdel
    rw [hm] at hm'
    cases hm'
    have hempty := hu.empty.of_canDelete hm hcan
    rw [Sdk.orders, List.append_eq_nil_iff] at hempty
    exact hempty.symm
  · intro id a mid ha hnone
    rcases hos : a.openOrders.lookup mid with _ | os
    · rfl
    have htidy : os.keys ≠ [] := (accountOf_of_lookup ha ▸ hu.indexed.tidy id) mid os hos
    obtain ⟨o, ho⟩ := List.exists_mem_of_ne_nil _ htidy
    obtain ⟨i, hi⟩ := (HMap.mem_keys_iff os o).1 ho
    have hinfo : (s.contract.accountOf id).getOrderInfo mid o = some i := by
      rw [accountOf_of_lookup ha, Account.getOrderInfo, hos]
      exact hi
    obtain ⟨m, x, hm, -⟩ := hu.indexed.recorded id mid o i hinfo
    rw [hnone] at hm
    cases hm
  · intro env mid m ps c' hm hne hset
    obtain ⟨hset, -⟩ := quiet_eq_ok.1 (dispatch_of_perform hset)
    simp only [setMarketState, Contract.assertIsOwner, Checked.bind_eq_ok, Checked.require_eq_ok,
      Contract.internalUnwrapMarket_eq_ok, Checked.pure_eq_ok] at hset
    obtain ⟨_, howner, m', hm', rfl⟩ := hset
    rw [hm] at hm'
    cases hm'
    -- the owner can now delete it without a look at its book
    have hfound : (s.contract.internalSaveMarket mid (m.setState .uninitialized)).markets.lookup
        mid = some (m.setState .uninitialized) := AList.lookup_insert _
    have hload := Contract.internalUnwrapMarket_eq_ok.2 hfound
    have hassert : (s.contract.internalSaveMarket mid (m.setState .uninitialized)).assertIsOwner
        env = .ok () := Checked.require_pos howner
    have hcan : assert ((m.setState .uninitialized).canDelete S = true)
        "Market cannot be deleted" = .ok () := Checked.require_pos rfl
    unfold adminDeleteMarket
    rw [hassert, Checked.ok_bind, hload, Checked.ok_bind, hcan, Checked.ok_bind]
    split
    · exact ⟨_, _, hfound, hne, rfl⟩
    · exact ⟨_, _, hfound, hne, rfl⟩

/-- Alice cancels, and the owner pauses the market. -/
def emptied : List Event :=
  Engine.asked ++ [.call (Engine.calling Engine.alice 0) (.cancelAllOrders Engine.btcUsd),
    .call (Engine.calling Engine.dao 0) (.setMarketState Engine.btcUsd .paused)]

/-- The market can be deleted, and is empty. -/
theorem deletion_strands_nothing_emptied : ∃ m,
    (Engine.run emptied).contract.markets.lookup Engine.btcUsd = some m ∧
      (adminDeleteMarket Engine.sdk (Engine.calling Engine.dao 0) (Engine.run emptied).contract
        Engine.btcUsd).isOk = true ∧
      Engine.sdk.bids m.orderbook = [] ∧ Engine.sdk.asks m.orderbook = [] := by
  have hs : System.Reach Engine.sdk (KeepsInitialized Engine.sdk) (Engine.run emptied) := by
    refine Engine.reach_run fun e he s env mid m ps c' heq => ?_
    subst heq
    obtain he | he := List.mem_append.1 he
    · exact absurd rfl ((Engine.mem_asked he).2 env mid .uninitialized)
    · simp at he
  obtain ⟨m, hm⟩ := Option.isSome_iff_exists.1
    (show ((Engine.run emptied).contract.markets.lookup Engine.btcUsd).isSome = true by
      decide +kernel)
  have hok : (adminDeleteMarket Engine.sdk (Engine.calling Engine.dao 0)
      (Engine.run emptied).contract Engine.btcUsd).isOk = true := by decide +kernel
  obtain ⟨c', hdel⟩ := Engine.eq_ok_of_isOk hok
  obtain ⟨hempty, -⟩ :=
    deletion_strands_nothing Engine.bookLaws Engine.keysLaw hs
  exact ⟨m, hm, hok, hempty _ _ m c' hdel hm⟩

/-- The owner makes the market uninitialized while Alice's order rests in it. -/
def reopened : List Event :=
  Engine.asked ++ [.call (Engine.calling Engine.dao 0)
    (.setMarketState Engine.btcUsd .uninitialized)]

/-- It is deleted with Alice's order, which she can never cancel. -/
theorem deletion_strands_order : System.Reachable Engine.sdk (Engine.run reopened) ∧
    ((Engine.run reopened).contract.markets.lookup Engine.btcUsd).map (fun m =>
      Engine.sdk.asks m.orderbook) = some [⟨1, Engine.alice, .sell, 2, 1000, none⟩] ∧
    ((Engine.run (reopened ++ [.call (Engine.calling Engine.dao 0)
      (.adminDeleteMarket Engine.btcUsd)])).contract.markets.lookup Engine.btcUsd).isNone = true ∧
    ((Engine.run (reopened ++ [.call (Engine.calling Engine.dao 0)
      (.adminDeleteMarket Engine.btcUsd)])).contract.accounts.lookup Engine.alice).map (fun a =>
        ((a.getOrderInfo Engine.btcUsd 1).isSome, a.balance "ft:btc.near")) = some (true, 0) ∧
    perform Engine.sdk (Engine.calling Engine.alice 0)
      (Engine.run (reopened ++ [.call (Engine.calling Engine.dao 0)
        (.adminDeleteMarket Engine.btcUsd)])).contract (.cancelOrder Engine.btcUsd 1) =
      .error .unwrap := by
  refine ⟨Engine.reachable_run reopened, by decide +kernel, by decide +kernel, by decide +kernel,
    ?_⟩
  exact Engine.eq_error_of_stoppedBy (by decide +kernel)

end TonicDex
