/-
  Storage coverage.

  The size of an account moves by the entries it gains and the orders it
  forgets (`borshSize_credit`, `borshSize_forget`), and every stored account is
  covered by its storage balance (`Covered`).  So a call that saves an account
  goes through just in case the storage balance covers what the account gains:
  this decides when a failed transfer is credited again, and when the fill of a
  resting order can be settled.
-/
import Mathlib.Data.List.Dedup
import Mathlib.Tactic.Ring
import TonicDex.Invariant.Custody

namespace TonicDex

variable {B : Type} {S : Sdk B} {c c' : Contract B} {e : Effect B} {es : List (Effect B)}
  {a a' : Account} {id : AccountId} {mid : MarketId} {m : Market B}

/-! ## Sizes -/

namespace Account

/-- What an entry for the key `k` adds to the size, if there is none yet. -/
def missing (S : Sdk B) (a : Account) (k : String) : ℕ :=
  if (a.balances.lookup k).isSome then 0 else S.entryBorshSize k

/-- What entries for the keys `ks` add to the size, each of them once. -/
def missingAll (S : Sdk B) (a : Account) (ks : List String) : ℕ :=
  (ks.dedup.map (a.missing S)).sum

/-- The size of a recorded order. -/
def orderBytes : ℕ := Size.orderId + Size.lotBalance + Size.openLimitOrder

/-- The size of a market with open orders. -/
def marketBytes (S : Sdk B) : ℕ := S.hashSetOverhead + Size.marketId + Size.marketPairOverhead

/-- What forgetting an order takes off the size. -/
def freed (S : Sdk B) (a : Account) (mid : MarketId) (o : OrderId) : ℕ :=
  match a.getOrderInfo mid o with
  | none => 0
  | some _ => orderBytes + if a.ordersIn mid = 1 then marketBytes S else 0

theorem borshSize_credit (hZ : SizeLaws S) (a : Account) (k : String) (n : ℕ) :
    (a.credit k n).borshSize S = a.borshSize S + a.missing S k := by
  have hbal : S.balancesBorshSize (a.credit k n).balances =
      S.balancesBorshSize a.balances + a.missing S k := by
    unfold missing
    rcases hk : a.balances.lookup k with _ | x
    · exact hZ.insert_new hk
    · exact hZ.insert_old hk
  have hord : (a.credit k n).openOrdersBorshSize S = a.openOrdersBorshSize S := rfl
  unfold borshSize
  rw [hbal, hord]
  omega

/-- A debit makes no account larger. -/
theorem borshSize_debit_le (hZ : SizeLaws S) {k : String} {x : ℕ}
    (h : a.balances.lookup k = some x) (n : ℕ) : (a.debit k n).borshSize S ≤ a.borshSize S := by
  have hbal : S.balancesBorshSize (a.debit k n).balances ≤ S.balancesBorshSize a.balances := by
    unfold debit
    dsimp only
    split_ifs
    · have := hZ.erase h
      omega
    · exact (hZ.insert_old h).le
  have hord : (a.debit k n).openOrdersBorshSize S = a.openOrdersBorshSize S := rfl
  unfold borshSize
  rw [hord]
  omega

/-- After a credit there is an entry. -/
theorem missing_credit (a : Account) (k k' : String) (n : ℕ) :
    (a.credit k n).missing S k' = if k' = k then 0 else a.missing S k' := by
  unfold missing credit
  rw [HMap.lookup_insert_eq]
  split_ifs <;> simp_all

theorem missingAll_cons (a : Account) (k : String) (ks : List String) :
    a.missingAll S (k :: ks) = (if k ∈ ks then 0 else a.missing S k) + a.missingAll S ks := by
  unfold missingAll
  rw [List.dedup_cons]
  split_ifs
  · exact (Nat.zero_add _).symm
  · rw [List.map_cons, List.sum_cons]

theorem missingAll_singleton (a : Account) (k : String) :
    a.missingAll S [k] = a.missing S k := by
  simp [missingAll]

/-- A credit takes its key off the missing ones. -/
theorem missingAll_credit_add (a : Account) (k : String) (n : ℕ) (ks : List String) :
    (a.credit k n).missingAll S ks + (if k ∈ ks then a.missing S k else 0) =
      a.missingAll S ks := by
  induction ks with
  | nil => simp [missingAll]
  | cons k' ks ih =>
    simp only [missingAll_cons, missing_credit, List.mem_cons]
    by_cases hk : k = k'
    · subst hk
      by_cases hmem : k ∈ ks
      · simp only [hmem, if_true, or_true] at ih ⊢
        omega
      · simp only [hmem, if_true, if_false, or_false] at ih ⊢
        omega
    · simp only [hk, Ne.symm hk, false_or, if_false] at ih ⊢
      omega

theorem missingAll_credit (a : Account) (k : String) (n : ℕ) (ks : List String) :
    a.missing S k + (a.credit k n).missingAll S ks = a.missingAll S (k :: ks) := by
  have hadd := missingAll_credit_add (S := S) a k n ks
  rw [missingAll_cons]
  split_ifs at hadd ⊢ <;> omega

theorem missing_forget (a : Account) (mid : MarketId) (o : OrderId) (k : String) :
    (a.forget mid o).missing S k = a.missing S k := by
  unfold missing
  rw [balances_forget]

/-- An order is the last of its market. -/
theorem erase_keys_eq_nil_iff {os : OrderInfos} {o : OrderId} {i : OrderInfo}
    (hi : os.lookup o = some i) : (os.erase o).keys = [] ↔ os.size = 1 := by
  have hsize := HMap.size_erase_of_some hi
  have hlen : (os.erase o).keys = [] ↔ HMap.size (os.erase o) = 0 := List.length_eq_zero_iff.symm
  rw [hlen]
  omega

theorem borshSize_forget (a : Account) (mid : MarketId) (o : OrderId) :
    (a.forget mid o).borshSize S + a.freed S mid o = a.borshSize S := by
  obtain ⟨hnone, he⟩ | ⟨os, i, hos, hi, hcase⟩ := forget_cases a mid o
  · rw [he, freed, hnone]
    rfl
  have hinfo : a.getOrderInfo mid o = some i := by rw [getOrderInfo, hos]; exact hi
  have hin : a.ordersIn mid = os.size := by rw [ordersIn, hos]; rfl
  have hsize := HMap.size_erase_of_some hi
  have hfreed : a.freed S mid o = orderBytes + if os.size = 1 then marketBytes S else 0 := by
    rw [freed, hinfo, hin]
  have hbal : (a.forget mid o).balances = a.balances := balances_forget
  have horders : (a.forget mid o).openOrdersBorshSize S + a.freed S mid o =
      a.openOrdersBorshSize S := by
    rw [hfreed]
    obtain ⟨hnil, he⟩ | ⟨hne, he⟩ := hcase
    · have hone := (erase_keys_eq_nil_iff hi).1 hnil
      have hmarkets := HMap.size_erase_of_some hos
      have htotal := HMap.total_erase_add a.openOrders (fun _ os => os.size) mid
      rw [hos] at htotal
      simp only [Option.elim_some] at htotal
      have h1 : (a.forget mid o).openOrders.size + 1 = a.openOrders.size := by
        rw [he]; exact hmarkets
      have h2 : (a.forget mid o).nOrders + 1 = a.nOrders := by
        rw [he, ← hone]
        exact htotal
      rw [if_pos hone]
      unfold openOrdersBorshSize
      rw [← h1, ← h2]
      unfold orderBytes marketBytes
      ring
    · have hmany : ¬ os.size = 1 := fun h => hne ((erase_keys_eq_nil_iff hi).2 h)
      have htotal : HMap.total (a.openOrders.insert mid (os.erase o)) (fun _ os => HMap.size os) +
          HMap.size os = a.nOrders + HMap.size (os.erase o) := by
        have h := HMap.total_insert_add a.openOrders (fun _ os => os.size) mid (os.erase o)
        rw [hos] at h
        exact h
      have h1 : (a.forget mid o).openOrders.size = a.openOrders.size := by
        rw [he]; exact HMap.size_insert_of_some hos
      have h2 : (a.forget mid o).nOrders + 1 = a.nOrders := by
        rw [he]
        change HMap.total (a.openOrders.insert mid (os.erase o)) (fun _ os => HMap.size os) + 1 =
          a.nOrders
        omega
      rw [if_neg hmany]
      unfold openOrdersBorshSize
      rw [h1, ← h2]
      unfold orderBytes
      ring
  unfold borshSize
  rw [hbal, ← horders]
  omega

end Account

/-! ## Stored accounts are covered -/

/-- The storage balance of every stored account covers its size. -/
def Covered (S : Sdk B) (c : Contract B) : Prop :=
  ∀ id a, c.accounts.lookup id = some a → a.isStorageCovered S

theorem Covered.put (h : Covered S c) (ha : a.isStorageCovered S) :
    Covered S (c.putAccount id a) :=
  HMap.forall_insert h ha

theorem MakersSettled.covered {side : Side} {fs : List Match}
    (h : MakersSettled S mid m side c fs c') (hc : Covered S c) : Covered S c' := by
  induction h with
  | nil c => exact hc
  | cons found covered rest ih => exact ih (hc.put covered)

theorem ReferrerPaid.covered {token : TokenType} {referrerId : Option AccountId} {net r : ℕ}
    (h : ReferrerPaid S token referrerId net c r c') (hc : Covered S c) : Covered S c' := by
  cases h with
  | nothing uncovered => exact hc
  | paid referrer found covered => exact hc.put covered

theorem Traded.covered {m' : Market B} {taker : AccountId} {n : NewOrder}
    {referrerId : Option AccountId} {r : PlaceOrderResult} {s : Settled}
    (h : Traded S c mid m taker n referrerId r m' s c') (hc : Covered S c) : Covered S c' :=
  h.settled.referrer.covered (h.settled.settled.covered hc)

theorem Does.covered (h : Does S c e c') (hc : Covered S c) : Covered S c' := by
  cases h with
  | credit found covered => exact hc.put covered
  | debit found paid covered => exact hc.put covered
  | storage found sum covered => exact hc.put covered
  | unregister found empty => exact HMap.forall_erase hc
  | order run =>
    rw [run.state]
    exact (run.path.traded.covered hc).put run.covered
  | hop run =>
    rw [run.state]
    exact run.traded.covered hc
  | cancel run =>
    rw [run.result]
    exact Covered.put (c := c.internalSaveMarket _ _) hc run.covered
  | create | delete | setState | setWindow | decimals | admin => exact hc

theorem covered_of_reach (hB : BookLaws S) {ok : System B → Event → Prop}
    {s : System B} (hs : System.Reach S ok s) : Covered S s.contract :=
  reach_invariant hB (fun _ _ _ h => by cases h) (fun _ _ _ he hc => he.covered hc) hs

/-! ## Failed transfers -/

/-- An account can take `n` more of `token`: the sum fits, and the storage
    balance covers the entry if there is none yet. -/
structure Account.Takes (S : Sdk B) (a : Account) (token : TokenType) (n : ℕ) : Prop where
  fits : ∀ x, a.balances.lookup (S.key token) = some x → n + x < 2 ^ 128
  room : a.balances.lookup (S.key token) = none →
    (a.borshSize S + S.entryBorshSize (S.key token)) * S.storageByteCost ≤ a.storageBalance

/-- A deposit into a stored account goes through just in case the account can
    take it. -/
theorem internalDeposit_iff_takes (hZ : SizeLaws S) (hc : Covered S c)
    (ha : c.accounts.lookup id = some a) {token : TokenType} {n : ℕ} :
    c.internalDeposit S id token n = .ok c' ↔
      a.Takes S token n ∧ c.putAccount id (a.credit (S.key token) n) = c' := by
  have hcov : (a.credit (S.key token) n).isStorageCovered S ↔
      (a.borshSize S + a.missing S (S.key token)) * S.storageByteCost ≤ a.storageBalance := by
    unfold Account.isStorageCovered Account.storageBalanceLocked
    rw [Account.borshSize_credit hZ, Account.storageBalance_credit]
  rw [Contract.internalDeposit_eq_ok]
  constructor
  · rintro ⟨b, hb, hfits, hcovered, rfl⟩
    rw [ha] at hb
    cases hb
    refine ⟨⟨hfits, fun hk => ?_⟩, rfl⟩
    have hroom := hcov.1 hcovered
    rw [Account.missing, hk] at hroom
    exact hroom
  · rintro ⟨htakes, rfl⟩
    refine ⟨a, ha, htakes.fits, hcov.2 ?_, rfl⟩
    unfold Account.missing
    rcases hk : a.balances.lookup (S.key token) with _ | x
    · exact htakes.room hk
    · exact hc id a ha

/-- **A failed transfer is credited again just in case the account it goes to
    can take it.**  Whatever happened since the transfer was promised, the
    callback of a failed transfer succeeds and leaves the whole amount in the
    stored balance of the receiver, or of the owner if the receiver is gone, if
    and only if that account has an entry for the token into which the amount
    fits, or its storage balance covers a new one. -/
theorem failed_transfer_credited_iff (hB : BookLaws S) (hZ : SizeLaws S)
    {s : System B} (hs : System.Reachable S s) {i : ℕ} {receiver : AccountId}
    {token : TokenType} {n : ℕ} (hp : s.pending[i]? = some (.send receiver token n))
    (ha : s.contract.accounts.lookup (s.contract.refundee receiver) = some a) :
    ((∃ c', exchangeCallbackPostWithdraw S s.contract token receiver n .failed = .ok c' ∧
        (System.step S s (.resolve i .failed)).contract = c' ∧
        ∃ a', c'.accounts.lookup (s.contract.refundee receiver) = some a' ∧
          a'.getBalance S token = a.getBalance S token + n) ↔ a.Takes S token n) ∧
      (System.step S s (.resolve i .successful)).contract = s.contract := by
  have hc := covered_of_reach hB hs
  have hcallback : exchangeCallbackPostWithdraw S s.contract token receiver n .failed =
      s.contract.internalDeposit S (s.contract.refundee receiver) token n := by
    unfold exchangeCallbackPostWithdraw Contract.refundee Contract.internalGetAccount
    split_ifs <;> rfl
  have hstep : ∀ out, System.step S s (.resolve i out) =
      System.resolved S { s with pending := s.pending.eraseIdx i }
        (.send receiver token n) out := fun out => by
    simp only [System.step, hp]
  refine ⟨⟨?_, fun htakes => ?_⟩, ?_⟩
  · rintro ⟨c', hok, -⟩
    rw [hcallback] at hok
    exact ((internalDeposit_iff_takes hZ hc ha).1 hok).1
  · have hok := hcallback.trans ((internalDeposit_iff_takes hZ hc ha).2 ⟨htakes, rfl⟩)
    refine ⟨_, hok, ?_, _, AList.lookup_insert _, ?_⟩
    · rw [hstep]
      simp only [System.resolved, hok, System.callback]
    · rw [Account.getBalance, Account.balance_credit, if_pos rfl]
      rfl
  · rw [hstep]
    rfl

/-- Bob withdraws some of his `usd`. -/
def withdrawing : List Event :=
  Engine.asked ++ [.call (Engine.calling Engine.bob 1) (.withdrawFt Engine.usd 100)]

/-- Bob has an entry left, into which a failed transfer goes. -/
theorem failed_transfer_credited_withdrawing : ∃ c', exchangeCallbackPostWithdraw Engine.sdk
    (Engine.run withdrawing).contract (.fungibleToken Engine.usd) Engine.bob 100 .failed =
      .ok c' := by
  have hp : (Engine.run withdrawing).pending[0]? =
      some (.send Engine.bob (.fungibleToken Engine.usd) 100) := by decide +kernel
  have hentry : ((Engine.run withdrawing).contract.accounts.lookup
      ((Engine.run withdrawing).contract.refundee Engine.bob)).map (fun a =>
        a.balances.lookup (Engine.sdk.key (.fungibleToken Engine.usd))) = some (some 99900) := by
    decide +kernel
  obtain ⟨a, ha, hentry⟩ := Option.map_eq_some_iff.1 hentry
  have htakes : a.Takes Engine.sdk (.fungibleToken Engine.usd) 100 := by
    constructor
    · intro x hx
      rw [hentry] at hx
      cases hx
      decide
    · intro hnone
      rw [hentry] at hnone
      cases hnone
  obtain ⟨c', hc, -⟩ := (failed_transfer_credited_iff Engine.bookLaws
    Engine.sizeLaws (Engine.reachable_run withdrawing) hp ha).1.2 htakes
  exact ⟨c', hc⟩

/-- Bob withdraws all his `usd`, and then the storage it took. -/
def withdrawn : List Event :=
  Engine.asked ++ [.call (Engine.calling Engine.bob 1) (.withdrawFt Engine.usd 100000),
    .call (Engine.calling Engine.bob 1) (.storageWithdraw none)]

/-- When the transfer fails, nobody is credited. -/
theorem failed_transfer_lost : System.Reachable Engine.sdk (Engine.run withdrawn) ∧
    (Engine.run withdrawn).pending[0]? =
      some (.send Engine.bob (.fungibleToken Engine.usd) 100000) ∧
    ((Engine.run withdrawn).contract.accounts.lookup Engine.bob).isSome = true ∧
    exchangeCallbackPostWithdraw Engine.sdk (Engine.run withdrawn).contract
      (.fungibleToken Engine.usd) Engine.bob 100000 .failed =
        .error (.error .insufficientStorageBalance) ∧
    ((System.step Engine.sdk (Engine.run withdrawn) (.resolve 0 .failed)).contract.accounts.lookup
      Engine.bob).map (fun a => a.getBalance Engine.sdk (.fungibleToken Engine.usd)) = some 0 := by
  refine ⟨Engine.reachable_run withdrawn, by decide +kernel, by decide +kernel, ?_,
    by decide +kernel⟩
  exact Engine.eq_error_of_stoppedBy (by decide +kernel)

/-! ## Fills of resting orders -/

/-- What the entries a fill needs add to the size of its maker's account: for the
    rebate, and for what the order is filled with. -/
def Market.missingFor (S : Sdk B) (m : Market B) (side : Side) (a : Account) : ℕ :=
  a.missingAll S [S.key m.quoteToken.tokenType, S.key (m.sideToken side)]

/-- What a fill takes off the size of its maker's account. -/
def freedBy (S : Sdk B) (mid : MarketId) (f : Match) (a : Account) : ℕ :=
  if f.didRemoveMakerOrder then a.freed S mid f.makerOrderId else 0

theorem Market.proceeds_fst (m : Market B) (side : Side) (f : Match) :
    (m.proceeds side f).1 = m.sideToken side := by
  cases side <;> rfl

/-- A fill adds the entries it needs and takes off the order it removes. -/
theorem borshSize_afterFill (hZ : SizeLaws S) (mid : MarketId) (side : Side) (f : Match)
    (a : Account) : (afterFill S mid m side f a).borshSize S + freedBy S mid f a =
      a.borshSize S + m.missingFor S side a := by
  have hforget : ∀ b : Account, (b = a.forget mid f.makerOrderId ∧
      f.didRemoveMakerOrder = true ∨ b = a ∧ f.didRemoveMakerOrder = false) →
      b.borshSize S + freedBy S mid f a = a.borshSize S ∧
        ∀ k, b.missing S k = a.missing S k := by
    rintro b (⟨rfl, hf⟩ | ⟨rfl, hf⟩)
    · refine ⟨?_, Account.missing_forget a mid f.makerOrderId⟩
      rw [freedBy, if_pos hf]
      exact Account.borshSize_forget a mid f.makerOrderId
    · refine ⟨?_, fun _ => rfl⟩
      rw [freedBy, hf]
      rfl
  have hb := hforget (if f.didRemoveMakerOrder then a.forget mid f.makerOrderId else a) (by
    cases hf : f.didRemoveMakerOrder
    · exact .inr ⟨rfl, rfl⟩
    · exact .inl ⟨rfl, rfl⟩)
  unfold afterFill
  generalize (if f.didRemoveMakerOrder then a.forget mid f.makerOrderId else a) = b at hb ⊢
  obtain ⟨hsize, hmissing⟩ := hb
  have hall : b.missingAll S = a.missingAll S := by
    funext ks
    simp only [Account.missingAll, funext hmissing]
  have hentries := Account.missingAll_credit (S := S) b (S.key m.quoteToken.tokenType)
    (m.rebateOf f) [S.key (m.sideToken side)]
  rw [Market.missingFor, ← hall, ← hentries, ← m.proceeds_fst side f]
  rw [Account.missingAll_singleton, Account.borshSize_credit hZ, Account.borshSize_credit hZ]
  omega

/-- The fill `f` of the resting order `x` is settled next, after other fills of
    the same call have led to `c`; it makes `a'` of the maker's account `a`. -/
structure NextFill (S : Sdk B) (s : System B) (mid : MarketId) (m : Market B) (side : Side)
    (x : OpenLimitOrder) (f : Match) (c : Contract B) (a a' : Account) : Prop where
  market : s.contract.markets.lookup mid = some m
  resting : x ∈ S.resting m.orderbook side.opposite
  order : f.makerOrderId = x.id
  maker : f.makerUserId = x.ownerId
  earlier : ∃ fs t, internalSettleMakerFills S s.contract mid m side fs = .ok (t, c)
  account : c.accounts.lookup x.ownerId = some a
  credited : ∃ rebate, creditMaker S mid m side f (m.fillBase f) a = .ok (rebate, a')

/-- **The account of a maker can be saved after a fill just in case its storage
    balance covers the entries that the fill adds**, less what a complete fill
    frees; in every state, and after any earlier fills. -/
theorem maker_saved_iff (hZ : SizeLaws S) {s : System B} {side : Side} {x : OpenLimitOrder}
    {f : Match} (h : NextFill S s mid m side x f c a a') :
    (∃ c', c.internalSaveAccount S x.ownerId a' = .ok c') ↔
      (a.borshSize S + m.missingFor S side a) * S.storageByteCost ≤
        a.storageBalance + freedBy S mid f a * S.storageByteCost := by
  obtain ⟨rebate, hcredit⟩ := h.credited
  obtain ⟨-, rfl⟩ := creditMaker_eq_ok hcredit
  have hsize := borshSize_afterFill (m := m) hZ mid side f a
  have hsaved : (∃ c', c.internalSaveAccount S x.ownerId (afterFill S mid m side f a) =
      .ok c') ↔ (afterFill S mid m side f a).isStorageCovered S := by
    simp only [Contract.internalSaveAccount_eq_ok, exists_and_left, exists_eq', and_true]
  rw [hsaved, Account.isStorageCovered, Account.storageBalanceLocked, storageBalance_afterFill,
    ← hsize, Nat.add_mul]
  omega

/-- The first fill of Alice's order. -/
def firstFill : Match := ⟨1, Engine.alice, 590, 2, 1180, false⟩

/-- While all is as Alice left it when she placed the order, it can be settled. -/
theorem maker_saved_asked : ∃ m a a' c',
    NextFill Engine.sdk (Engine.run Engine.asked) Engine.btcUsd m .buy
      ⟨1, Engine.alice, .sell, 2, 1000, none⟩ firstFill (Engine.run Engine.asked).contract a a' ∧
    (Engine.run Engine.asked).contract.internalSaveAccount Engine.sdk Engine.alice a' =
      .ok c' := by
  obtain ⟨m, hm, -⟩ := Engine.market_asked
  obtain ⟨a, ha⟩ := Option.isSome_iff_exists.1
    (show ((Engine.run Engine.asked).contract.accounts.lookup Engine.alice).isSome = true by
      decide +kernel)
  have hstate : ((Engine.run Engine.asked).contract.markets.lookup Engine.btcUsd).bind (fun m =>
      ((Engine.run Engine.asked).contract.accounts.lookup Engine.alice).map fun a =>
        decide ((⟨1, Engine.alice, .sell, 2, 1000, none⟩ : OpenLimitOrder) ∈
            Engine.sdk.resting m.orderbook .sell) &&
          (creditMaker Engine.sdk Engine.btcUsd m .buy firstFill (m.fillBase firstFill) a).isOk &&
          decide ((a.borshSize Engine.sdk + m.missingFor Engine.sdk .buy a) *
            Engine.sdk.storageByteCost ≤ a.storageBalance +
              freedBy Engine.sdk Engine.btcUsd firstFill a * Engine.sdk.storageByteCost)) =
      some true := by
    decide +kernel
  rw [hm, Option.bind_some, ha, Option.map_some, Option.some.injEq, Bool.and_eq_true,
    Bool.and_eq_true] at hstate
  obtain ⟨⟨hrests, hcredits⟩, hcovered⟩ := hstate
  obtain ⟨⟨rebate, a'⟩, hcredited⟩ := Engine.eq_ok_of_isOk hcredits
  have hnext : NextFill Engine.sdk (Engine.run Engine.asked) Engine.btcUsd m .buy
      ⟨1, Engine.alice, .sell, 2, 1000, none⟩ firstFill (Engine.run Engine.asked).contract a a' :=
    ⟨hm, of_decide_eq_true hrests, rfl, rfl, ⟨[], _, rfl⟩, ha, rebate, hcredited⟩
  obtain ⟨c', hc⟩ := (maker_saved_iff Engine.sizeLaws hnext).2 (of_decide_eq_true hcovered)
  exact ⟨m, a, a', c', hnext, hc⟩

/-- Alice withdraws her entry for `usd`, and then all storage she can. -/
def drained : List Event :=
  Engine.asked ++ [Engine.pay Engine.usd Engine.alice 1,
    .call (Engine.calling Engine.alice 1) (.withdrawFt Engine.usd 1),
    .call (Engine.calling Engine.alice 1) (.storageWithdraw none)]

/-- Now Bob's order, which was filled before, panics on her account. -/
theorem maker_not_saved : System.Reachable Engine.sdk (Engine.run drained) ∧
    ((Engine.run drained).contract.markets.lookup Engine.btcUsd).map (fun m =>
      Engine.sdk.orders m.orderbook) = some [⟨1, Engine.alice, .sell, 2, 1000, none⟩] ∧
    ((Engine.run drained).contract.markets.lookup Engine.btcUsd).map (fun m =>
      Engine.stoppedBy (internalSettleMakerFills Engine.sdk (Engine.run drained).contract
        Engine.btcUsd m .buy [firstFill])) = some (some (.error .insufficientStorageBalance)) ∧
    perform Engine.sdk (Engine.calling Engine.bob 0) (Engine.run drained).contract
      (Engine.bobBuys none) = .error (.error .insufficientStorageBalance) := by
  refine ⟨Engine.reachable_run drained, by decide +kernel, by decide +kernel, ?_⟩
  exact Engine.eq_error_of_stoppedBy (by decide +kernel)

end TonicDex
