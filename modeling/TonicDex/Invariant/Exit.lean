/-
  Taking money out.

  While the contract is active, an account can withdraw what it holds
  (`perform_withdrawal`).  Nothing that others do in between stops it
  (`withdrawals_honoured`); and an account without open orders can withdraw one
  balance after another, and leave with its storage balance (`account_exits`).
-/
import Mathlib.Data.Set.List
import TonicDex.Invariant.Access
import TonicDex.Invariant.Leaving
import TonicDex.Invariant.Storage
import TonicDex.Model.Views

namespace TonicDex

variable {B : Type} {S : Sdk B} {M : Matching B} {c c' : Contract B} {env : Env} {id : AccountId}
  {a b : Account} {s s₀ : System B} {t : TokenType} {n : ℕ} {taken : TokenType → ℕ}

/-! ## One withdrawal -/

/-- The call that withdraws `n` of a token. -/
def withdrawal : TokenType → ℕ → Op
  | .nativeNear, n => .withdrawNear n
  | .fungibleToken account, n => .withdrawFt account n
  | .multiFungibleToken account subtoken, n => .withdrawMt account subtoken n

/-- The token is found by the key that `withdraw_mt` makes for it; the other
    methods make none. -/
def Named (S : Sdk B) : TokenType → Prop
  | .multiFungibleToken account subtoken =>
    S.fromKey ("mft:" ++ account.name ++ ":" ++ subtoken) =
      .ok (.multiFungibleToken account subtoken)
  | _ => True

theorem paidIn_withdrawal : paidIn env (withdrawal t n) = [] := by
  cases t with
  | _ => rfl

theorem exists_entry_of_pos (hpos : 0 < n) (hle : n ≤ a.getBalance S t) :
    ∃ x, a.balances.lookup (S.key t) = some x ∧ n ≤ x := by
  rcases hx : a.balances.lookup (S.key t) with _ | x
  · rw [Account.getBalance, Account.balance_of_lookup_none hx] at hle
    omega
  · rw [Account.getBalance, Account.balance_of_lookup hx] at hle
    exact ⟨x, rfl, hle⟩

theorem Account.covered_debit (hZ : SizeLaws S) (hcov : a.isStorageCovered S) (hpos : 0 < n)
    (hle : n ≤ a.getBalance S t) : (a.debit (S.key t) n).isStorageCovered S := by
  obtain ⟨x, hx, -⟩ := exists_entry_of_pos hpos hle
  have hsize := borshSize_debit_le hZ hx n
  exact (Nat.mul_le_mul_right S.storageByteCost hsize).trans hcov

/-- What an account holds it can withdraw: its storage balance is no obstacle. -/
theorem internalWithdraw_of_le (hZ : SizeLaws S) (ha : c.accounts.lookup id = some a)
    (hcov : a.isStorageCovered S) (hpos : 0 < n) (hle : n ≤ a.getBalance S t) :
    internalWithdraw S c id t n =
      .ok ([.send id t n], c.putAccount id (a.debit (S.key t) n)) := by
  have hentry := exists_entry_of_pos hpos hle
  have hdebit : a.withdraw S t n = .ok (a.debit (S.key t) n) :=
    Account.withdraw_eq_ok.2 ⟨hentry, rfl⟩
  simp only [internalWithdraw, Checked.bind_eq_ok, Checked.require_eq_ok,
    Contract.internalUnwrapAccount_eq_ok, Contract.internalSaveAccount_eq_ok, Checked.pure_eq_ok]
  exact ⟨(), hpos, a, ha, _, hdebit, _, ⟨Account.covered_debit hZ hcov hpos hle, rfl⟩, rfl⟩

/-- **A withdrawal of what is there returns.** -/
theorem perform_withdrawal (hZ : SizeLaws S) (hactive : c.state = .active)
    (hyocto : env.attachedDeposit = 1) (ha : c.accounts.lookup env.predecessorAccountId = some a)
    (hcov : a.isStorageCovered S) (hnamed : Named S t) (hpos : 0 < n)
    (hle : n ≤ a.getBalance S t) :
    perform S env c (withdrawal t n) = .ok ([.send env.predecessorAccountId t n],
      c.putAccount env.predecessorAccountId (a.debit (S.key t) n)) := by
  have h1 : c.assertActive = .ok () := Checked.require_pos hactive
  have h2 : assertOneYocto env = .ok () := Checked.require_pos hyocto
  have h3 := internalWithdraw_of_le hZ ha hcov hpos hle
  cases t with
  | nativeNear | fungibleToken =>
    simp only [perform, withdrawal, Op.payable, dispatch, withdrawNear, withdrawFt, h1, h2,
      Checked.ok_bind, if_true]
    exact h3
  | multiFungibleToken account subtoken =>
    have h4 : S.fromKey ("mft:" ++ account.name ++ ":" ++ subtoken) =
      .ok (.multiFungibleToken account subtoken) := hnamed
    simp only [perform, withdrawal, Op.payable, dispatch, withdrawMt, h1, h2, h4,
      Checked.ok_bind, if_true]
    exact h3

theorem step_withdrawal (hZ : SizeLaws S) (hactive : s.contract.state = .active)
    (hyocto : env.attachedDeposit = 1)
    (ha : s.contract.accounts.lookup env.predecessorAccountId = some a)
    (hcov : a.isStorageCovered S) (hnamed : Named S t) (hpos : 0 < n)
    (hle : n ≤ a.getBalance S t) :
    System.step S s (.call env (withdrawal t n)) =
      ⟨s.contract.putAccount env.predecessorAccountId (a.debit (S.key t) n),
        s.pending ++ [.send env.predecessorAccountId t n], s.received, s.sent⟩ := by
  have hp := perform_withdrawal hZ hactive hyocto ha hcov hnamed hpos hle
  simp only [System.step, hp, paidIn_withdrawal, List.foldl_nil]

/-! ## Withdrawals among other events -/

/-- What others do takes nothing from an account. -/
theorem noLoss_step (hB : BookLaws S) (hT : TokenLaws S) (hs : System.Reachable S s) {ev : Event}
    (hev : ev.NotBy id) : NoLoss S id s.contract (System.step S s ev).contract := by
  have hc := booksOk_of_reach hB hs
  have hcase := step_cases hB s ev
  generalize System.step S s ev = s' at hcase
  cases hcase with
  | unchanged => exact .refl _
  | @called env op c' ps es performed effects shape =>
    refine EachEffect.noLoss (effects.each hB hc fun e he _ _ hdo hbooks =>
      hdo.kept hB hT hbooks fun hact => ?_)
    rcases shape.about e he id (Effect.about_of_actOf hact) with h | ⟨-, h⟩
    · exact hev h
    · exact h hact
  | resolved paid promise effects resolution =>
    exact EachEffect.noLoss (effects.each hB hc fun e he _ _ hdo hbooks =>
      hdo.kept hB hT hbooks (resolution.about id e he).2.1)

/-- The states reached from `s₀` while the owner makes no call and the account `id`
    does nothing but withdraw what it held in `s₀`, each with what it has taken. -/
inductive Withdrawing (S : Sdk B) (s₀ : System B) (id : AccountId) :
    System B → (TokenType → ℕ) → Prop
  | start : Withdrawing S s₀ id s₀ fun _ => 0
  | other {s : System B} {taken : TokenType → ℕ} {ev : Event} (run : Withdrawing S s₀ id s taken)
      (notOwn : ev.NotBy id) (notOwner : ev.NotBy s₀.contract.ownerId) :
      Withdrawing S s₀ id (System.step S s ev) taken
  | withdraws {s : System B} {taken : TokenType → ℕ} {env : Env} {t : TokenType} {n : ℕ}
      (run : Withdrawing S s₀ id s taken) (caller : env.predecessorAccountId = id)
      (yocto : env.attachedDeposit = 1) (named : Named S t) (pos : 0 < n)
      (held : taken t + n ≤ (s₀.contract.accountOf id).getBalance S t) :
      Withdrawing S s₀ id (System.step S s (.call env (withdrawal t n))) (tally taken t n)

/-- What is known in such a run: the account has what it held, but for what it
    has taken. -/
structure Honoured (S : Sdk B) (s₀ : System B) (id : AccountId) (s : System B)
    (taken : TokenType → ℕ) : Prop where
  reachable : System.Reachable S s
  owner : s.contract.ownerId = s₀.contract.ownerId
  active : s.contract.state = .active
  account : ∃ a, s.contract.accounts.lookup id = some a ∧
    ∀ t, (s₀.contract.accountOf id).getBalance S t ≤ a.getBalance S t + taken t

theorem Honoured.other (hB : BookLaws S) (hT : TokenLaws S) (h : Honoured S s₀ id s taken)
    {ev : Event} (hown : ev.NotBy id) (howner : ev.NotBy s₀.contract.ownerId) :
    Honoured S s₀ id (System.step S s ev) taken := by
  rw [← h.owner] at howner
  have hkept := ownerOnly_step hB h.reachable howner
  obtain ⟨a, ha, hle⟩ := h.account
  obtain ⟨a', ha', hmore⟩ := noLoss_step hB hT h.reachable hown a ha
  refine ⟨.step h.reachable trivial, hkept.owner.trans h.owner, hkept.state.trans h.active,
    a', ha', ?_⟩
  intro t
  have h1 := hle t
  have h2 := hmore t
  omega

/-- The next withdrawal returns, and takes what it says. -/
theorem Honoured.withdraws (hB : BookLaws S) (hZ : SizeLaws S)
    (h : Honoured S s₀ env.predecessorAccountId s taken) (hyocto : env.attachedDeposit = 1)
    (hnamed : Named S t) (hpos : 0 < n)
    (hheld : taken t + n ≤ (s₀.contract.accountOf env.predecessorAccountId).getBalance S t) :
    ∃ a, s.contract.accounts.lookup env.predecessorAccountId = some a ∧ n ≤ a.getBalance S t ∧
      perform S env s.contract (withdrawal t n) = .ok ([.send env.predecessorAccountId t n],
        s.contract.putAccount env.predecessorAccountId (a.debit (S.key t) n)) ∧
      System.step S s (.call env (withdrawal t n)) =
        ⟨s.contract.putAccount env.predecessorAccountId (a.debit (S.key t) n),
          s.pending ++ [.send env.predecessorAccountId t n], s.received, s.sent⟩ := by
  obtain ⟨a, ha, hle⟩ := h.account
  have hcov := covered_of_reach hB h.reachable _ a ha
  have hn : n ≤ a.getBalance S t := by
    have := hle t
    omega
  exact ⟨a, ha, hn, perform_withdrawal hZ h.active hyocto ha hcov hnamed hpos hn,
    step_withdrawal hZ h.active hyocto ha hcov hnamed hpos hn⟩

theorem getBalance_debit_add (hT : TokenLaws S) (hle : n ≤ a.getBalance S t) (t' : TokenType) :
    (a.debit (S.key t) n).getBalance S t' + (if t' = t then n else 0) = a.getBalance S t' := by
  have h : (a.debit (S.key t) n).balance (S.key t') +
      (if S.key t' = S.key t then n else 0) = a.balance (S.key t') :=
    Account.balance_debit_add hle
  simp only [hT.key_injective.eq_iff] at h
  exact h

theorem Honoured.of_withdrawing (hB : BookLaws S) (hT : TokenLaws S) (hZ : SizeLaws S)
    (h₀ : System.Reachable S s₀) (hactive : s₀.contract.state = .active)
    (ha : s₀.contract.accounts.lookup id = some a) (h : Withdrawing S s₀ id s taken) :
    Honoured S s₀ id s taken := by
  induction h with
  | start =>
    refine ⟨h₀, rfl, hactive, a, ha, ?_⟩
    intro t
    rw [accountOf_of_lookup ha]
    exact Nat.le_add_right _ _
  | other run notOwn notOwner ih => exact ih.other hB hT notOwn notOwner
  | @withdraws s taken env t n run caller yocto named pos held ih =>
    subst caller
    obtain ⟨b, hb, hn, -, hstep⟩ := ih.withdraws hB hZ yocto named pos held
    obtain ⟨b', hb', hle⟩ := ih.account
    cases hb.symm.trans hb'
    rw [hstep]
    refine ⟨hstep ▸ .step ih.reachable trivial, ih.owner, ih.active, _, AList.lookup_insert _, ?_⟩
    intro t'
    have h1 := hle t'
    have h2 := getBalance_debit_add hT hn t'
    rw [tally]
    split_ifs at h2 ⊢ with heq
    · omega
    · omega

/-! ## Everything, and the account -/

/-- The account without its entry for a key. -/
def Account.without (a : Account) (k : String) : Account :=
  { a with balances := a.balances.erase k }

theorem Account.debit_all (k : String) : a.debit k (a.balance k) = a.without k := by
  rw [Account.debit, if_pos rfl, Account.without]

theorem Account.getBalance_without {t' : TokenType} (hne : S.key t' ≠ S.key t) :
    (a.without (S.key t)).getBalance S t' = a.getBalance S t' := by
  rw [getBalance, getBalance, balance, balance, without, AList.lookup_erase_ne hne]

/-- The account without its entries for the tokens. -/
def Account.withoutAll (S : Sdk B) (a : Account) (ts : List TokenType) : Account :=
  ts.foldl (fun a t => a.without (S.key t)) a

theorem Account.lookup_withoutAll (ts : List TokenType) (a : Account) (k : String) :
    (a.withoutAll S ts).balances.lookup k =
      if k ∈ ts.map S.key then none else a.balances.lookup k := by
  induction ts generalizing a with
  | nil => rfl
  | cons t ts ih =>
    rw [withoutAll, List.foldl_cons, ← withoutAll, ih, without, HMap.lookup_erase_eq]
    simp only [List.map_cons, List.mem_cons]
    by_cases hk : k = S.key t
    · simp only [hk, true_or, if_true, ite_self]
    · simp only [hk, false_or, if_false]

@[simp] theorem Account.openOrders_withoutAll (ts : List TokenType) (a : Account) :
    (a.withoutAll S ts).openOrders = a.openOrders := by
  induction ts generalizing a with
  | nil => rfl
  | cons t ts ih => exact ih _

@[simp] theorem Account.storageBalance_withoutAll (ts : List TokenType) (a : Account) :
    (a.withoutAll S ts).storageBalance = a.storageBalance := by
  induction ts generalizing a with
  | nil => rfl
  | cons t ts ih => exact ih _

/-- The contract without an account. -/
def Contract.dropAccount (c : Contract B) (id : AccountId) : Contract B :=
  { c with accounts := c.accounts.erase id }

theorem Contract.dropAccount_putAccount :
    (c.putAccount id a).dropAccount id = c.dropAccount id := by
  simp only [dropAccount, putAccount, HMap.erase_insert]

/-- The calls that withdraw the balances of the account in the tokens. -/
def withdrawAll (S : Sdk B) (env : Env) (a : Account) (ts : List TokenType) : List Event :=
  ts.map fun t => .call env (withdrawal t (a.getBalance S t))

/-- The transfers they begin. -/
def sendAll (S : Sdk B) (id : AccountId) (a : Account) (ts : List TokenType) : List Promise :=
  ts.map fun t => .send id t (a.getBalance S t)

/-- The calls by which an account leaves with its balances. -/
def exitCalls (S : Sdk B) (env : Env) (a : Account) (ts : List TokenType) : List Event :=
  withdrawAll S env a ts ++ [.call env .storageUnregister]

/-- **One balance after another is withdrawn.** -/
theorem foldl_withdrawAll (hZ : SizeLaws S) {ts : List TokenType}
    (hyocto : env.attachedDeposit = 1) (hactive : s.contract.state = .active)
    (ha : s.contract.accounts.lookup env.predecessorAccountId = some a)
    (hcov : a.isStorageCovered S) (hnodup : (ts.map S.key).Nodup)
    (hts : ∀ t ∈ ts, Named S t ∧ 0 < a.getBalance S t) :
    ∃ c', (withdrawAll S env a ts).foldl (System.step S) s =
        ⟨c', s.pending ++ sendAll S env.predecessorAccountId a ts, s.received, s.sent⟩ ∧
      c'.state = .active ∧
      c'.accounts.lookup env.predecessorAccountId = some (a.withoutAll S ts) ∧
      c'.dropAccount env.predecessorAccountId =
        s.contract.dropAccount env.predecessorAccountId := by
  induction ts generalizing s a with
  | nil => exact ⟨s.contract, by rw [sendAll, List.map_nil, List.append_nil]; rfl, hactive, ha, rfl⟩
  | cons t ts ih =>
    rw [List.map_cons, List.nodup_cons] at hnodup
    obtain ⟨hnamed, hpos⟩ := hts t (List.mem_cons_self ..)
    have hstep := step_withdrawal hZ hactive hyocto ha hcov hnamed hpos le_rfl
    have hcov' := Account.covered_debit hZ hcov hpos le_rfl
    rw [Account.getBalance, Account.debit_all, ← Account.getBalance] at hstep
    rw [Account.getBalance, Account.debit_all] at hcov'
    have hsame : ∀ t' ∈ ts, (a.without (S.key t)).getBalance S t' = a.getBalance S t' := by
      intro t' ht'
      refine Account.getBalance_without ?_
      intro heq
      exact hnodup.1 (heq ▸ List.mem_map_of_mem ht')
    have hcalls : withdrawAll S env a (t :: ts) = .call env (withdrawal t (a.getBalance S t)) ::
        withdrawAll S env (a.without (S.key t)) ts :=
      congrArg _ (List.map_congr_left fun t' ht' => by rw [hsame t' ht'])
    have hsends : sendAll S env.predecessorAccountId a (t :: ts) =
        .send env.predecessorAccountId t (a.getBalance S t) ::
          sendAll S env.predecessorAccountId (a.without (S.key t)) ts :=
      congrArg _ (List.map_congr_left fun t' ht' => by rw [hsame t' ht'])
    have hts' : ∀ t' ∈ ts, Named S t' ∧ 0 < (a.without (S.key t)).getBalance S t' := by
      intro t' ht'
      rw [hsame t' ht']
      exact hts t' (List.mem_cons_of_mem _ ht')
    obtain ⟨c', hfold, hstate, hl, hdrop⟩ := ih
      (s := System.step S s (.call env (withdrawal t (a.getBalance S t))))
      (by rw [hstep]; exact hactive) (by rw [hstep]; exact AList.lookup_insert _) hcov'
      hnodup.2 hts'
    rw [hstep] at hfold hdrop
    refine ⟨c', ?_, hstate, hl, hdrop.trans Contract.dropAccount_putAccount⟩
    simp only [hcalls, hsends, List.foldl_cons, hstep, hfold, List.append_assoc,
      List.singleton_append]

/-- The account without its entries is empty, if it has no open orders. -/
theorem Account.withoutAll_isEmpty {ts : List TokenType} (ht : a.Tidy)
    (hord : ∀ mid o, a.getOrderInfo mid o = none)
    (hts : ∀ k ∈ a.balances.keys, k ∈ ts.map S.key) : (a.withoutAll S ts).isEmpty = true := by
  have hnone : ∀ k, (a.withoutAll S ts).balances.lookup k = none := by
    intro k
    rw [lookup_withoutAll]
    split_ifs with hk
    · rfl
    · rcases hl : a.balances.lookup k with _ | v
      · rfl
      · exact absurd (hts k ((HMap.mem_keys_iff _ _).2 ⟨v, hl⟩)) hk
  have hclean : (a.withoutAll S ts).Clean S := by
    intro k v hv
    rw [hnone k] at hv
    cases hv
  have htidy : (a.withoutAll S ts).Tidy := by
    intro mid os hos
    rw [openOrders_withoutAll] at hos
    exact ht mid os hos
  refine (hclean.isEmpty_iff htidy).2 ⟨?_, ?_⟩
  · intro token
    exact Account.balance_of_lookup_none (hnone _)
  · intro mid o
    rw [getOrderInfo, openOrders_withoutAll]
    exact hord mid o

/-- An empty account leaves. -/
theorem step_storageUnregister (hyocto : env.attachedDeposit = 1)
    (hactive : s.contract.state = .active)
    (ha : s.contract.accounts.lookup env.predecessorAccountId = some a)
    (hempty : a.isEmpty = true) :
    System.step S s (.call env .storageUnregister) =
      ⟨s.contract.dropAccount env.predecessorAccountId,
        s.pending ++ [.transfer env.predecessorAccountId a.storageBalance], s.received,
        s.sent⟩ := by
  have h1 : s.contract.assertActive = .ok () := Checked.require_pos hactive
  have h2 : assertOneYocto env = .ok () := Checked.require_pos hyocto
  have h3 : s.contract.internalUnwrapAccount env.predecessorAccountId = .ok a :=
    Contract.internalUnwrapAccount_eq_ok.2 ha
  have h4 : assert (a.isEmpty = true) "account not empty" = .ok () := Checked.require_pos hempty
  have hperform : perform S env s.contract .storageUnregister =
      .ok ([.transfer env.predecessorAccountId a.storageBalance],
        s.contract.dropAccount env.predecessorAccountId) := by
    simp only [perform, Op.payable, dispatch, storageUnregister, h1, h2, h3, h4, Checked.ok_bind,
      if_true]
    rfl
  simp only [System.step, hperform]
  rfl

/-- Entries that are not empty are of tokens. -/
theorem Account.Clean.exists_tokens (h : a.Clean S) :
    ∃ ts : List TokenType, ts.map (fun t => (S.key t, a.getBalance S t)) = a.getBalances := by
  have hkeys : a.balances.keys ∈ Set.range (List.map S.key) := by
    rw [Set.range_list_map]
    intro k hk
    obtain ⟨v, hv⟩ := (HMap.mem_keys_iff _ _).1 hk
    exact (h k v hv).2
  obtain ⟨ts, hts⟩ := hkeys
  refine ⟨ts, ?_⟩
  have hmap : ts.map (fun t => (S.key t, a.getBalance S t)) =
      (ts.map S.key).map fun k => (k, a.balance k) := by
    rw [List.map_map]
    rfl
  rw [hmap, hts, AList.keys, List.keys, List.map_map, getBalances]
  refine List.map_congr_left ?_
  intro e he
  have hl : a.balances.lookup e.1 = some e.2 := AList.mem_lookup_iff.2 he
  simp only [Function.comp_apply, Account.balance_of_lookup hl]

/-! ## Runs -/

open Engine

/-- **Withdrawals are honoured.**  From any reachable state of an active contract,
    however calls of others and callbacks are interleaved, until its owner makes
    a call: an account that does nothing but withdraw keeps what it held, but for
    what it has taken, and its next withdrawal of what is left of that returns,
    begins the transfer, and takes exactly its amount. -/
theorem withdrawals_honoured (hB : BookLaws S) (hT : TokenLaws S) (hZ : SizeLaws S)
    (h₀ : System.Reachable S s₀) (hactive : s₀.contract.state = .active)
    (ha : s₀.contract.accounts.lookup id = some a) (h : Withdrawing S s₀ id s taken) :
    (∀ t, a.getBalance S t ≤ (s.contract.accountOf id).getBalance S t + taken t) ∧
    ∀ env t n, env.predecessorAccountId = id → env.attachedDeposit = 1 → Named S t → 0 < n →
      taken t + n ≤ a.getBalance S t →
      ∃ c', perform S env s.contract (withdrawal t n) = .ok ([.send id t n], c') ∧
        System.step S s (.call env (withdrawal t n)) =
          ⟨c', s.pending ++ [.send id t n], s.received, s.sent⟩ ∧
        ∀ t', (c'.accountOf id).getBalance S t' + (if t' = t then n else 0) =
          (s.contract.accountOf id).getBalance S t' := by
  have hs := Honoured.of_withdrawing hB hT hZ h₀ hactive ha h
  constructor
  · intro t
    obtain ⟨b, hb, hle⟩ := hs.account
    rw [accountOf_of_lookup hb, ← accountOf_of_lookup ha]
    exact hle t
  · rintro env t n rfl hyocto hnamed hpos hheld
    rw [← accountOf_of_lookup ha] at hheld
    obtain ⟨b, hb, hn, hperform, hstep⟩ := hs.withdraws hB hZ hyocto hnamed hpos hheld
    refine ⟨_, hperform, hstep, ?_⟩
    intro t'
    rw [accountOf_putAccount, if_pos rfl, accountOf_of_lookup hb]
    exact getBalance_debit_add hT hn t'

/-- Bob withdraws 5 `usd`, then Alice cancels her order. -/
def withdrawnOnce : System Book :=
  System.step sdk (run asked) (.call (calling bob 1) (withdrawal (.fungibleToken usd) 5))

def withdrawnAmid : System Book :=
  System.step sdk withdrawnOnce (.call (calling alice 0) (.cancelOrder btcUsd 1))

/-- All that Bob has left can be withdrawn. -/
theorem withdrawals_honoured_amid : ∃ c',
    perform sdk (calling bob 1) withdrawnAmid.contract (withdrawal (.fungibleToken usd) 99995) =
      .ok ([.send bob (.fungibleToken usd) 99995], c') := by
  have hbob : ((run asked).contract.accounts.lookup bob).map
      (fun a => a.getBalance sdk (.fungibleToken usd)) = some 100000 := by
    decide +kernel
  obtain ⟨a, ha, hbal⟩ := Option.map_eq_some_iff.1 hbob
  have halice : alice ≠ (run asked).contract.ownerId := by decide +kernel
  have hrun : Withdrawing sdk (run asked) bob withdrawnAmid
      (tally (fun _ => 0) (.fungibleToken usd) 5) := by
    refine .other (.withdraws .start rfl rfl trivial (Nat.succ_pos 4) ?_)
      (by decide : alice ≠ bob) halice
    rw [accountOf_of_lookup ha, hbal]
    decide
  obtain ⟨-, hnext⟩ := withdrawals_honoured bookLaws tokenLaws sizeLaws (reachable_run asked)
    (by decide +kernel) ha hrun
  obtain ⟨c', hc', -⟩ := hnext (calling bob 1) (.fungibleToken usd) 99995 rfl rfl trivial
    (Nat.succ_pos _) (by rw [hbal]; decide)
  exact ⟨c', hc'⟩

/-- **An account without open orders can leave with everything.**  In every run whose
    effects leave whomever they pay in a token with some of it, `get_balances` lists
    what the account holds, each entry that of a token; and if the account withdraws
    all of it, in any order, and then unregisters, all these calls return: the account
    is gone, and the transfers of all its balances and of its storage balance are on
    their way. -/
theorem account_exits (hB : BookLaws S) (hT : TokenLaws S) (hZ : SizeLaws S) (hM : MatchLaw S M)
    (hs : System.Reach S (LeavesSome S M) s) (hactive : s.contract.state = .active)
    (ha : s.contract.accounts.lookup id = some a)
    (hord : ∀ mid o, a.getOrderInfo mid o = none) :
    ∃ bs, getBalances s.contract id = .ok bs ∧
      (∃ ts : List TokenType, ts.map (fun t => (S.key t, a.getBalance S t)) = bs) ∧
      ∀ ts : List TokenType, (ts.map fun t => (S.key t, a.getBalance S t)).Perm bs →
        (∀ t ∈ ts, Named S t) →
        ∀ env : Env, env.predecessorAccountId = id → env.attachedDeposit = 1 →
          (exitCalls S env a ts).foldl (System.step S) s = ⟨s.contract.dropAccount id,
            s.pending ++ sendAll S id a ts ++ [.transfer id a.storageBalance],
            s.received, s.sent⟩ := by
  have hclean := clean_of_reach hB hT hM hs id a ha
  have htidy : a.Tidy := accountOf_of_lookup ha ▸ tidy_of_reach hB hs id
  have hload : s.contract.internalUnwrapAccount id = .ok a :=
    Contract.internalUnwrapAccount_eq_ok.2 ha
  refine ⟨a.getBalances, ?_, hclean.exists_tokens, ?_⟩
  · rw [getBalances, hload]
    rfl
  rintro ts hperm hnamed env rfl hyocto
  have hkeys : (ts.map S.key).Perm a.balances.keys := by
    have h := hperm.map Prod.fst
    rw [Account.getBalances, List.map_map, List.map_map] at h
    exact h
  have hpos : ∀ t ∈ ts, Named S t ∧ 0 < a.getBalance S t := by
    intro t ht
    obtain ⟨v, hv⟩ := (HMap.mem_keys_iff _ _).1 (hkeys.mem_iff.1 (List.mem_map_of_mem ht))
    rw [Account.getBalance, Account.balance_of_lookup hv]
    exact ⟨hnamed t ht, Nat.pos_of_ne_zero (hclean _ v hv).1⟩
  have hcov := covered_of_reach hB hs _ a ha
  have hnodup : (ts.map S.key).Nodup := hkeys.nodup_iff.2 a.balances.nodupKeys
  obtain ⟨c', hfold, hstate, hl, hdrop⟩ := foldl_withdrawAll hZ hyocto hactive ha hcov hnodup hpos
  have hempty := Account.withoutAll_isEmpty htidy hord fun k hk => hkeys.mem_iff.2 hk
  rw [exitCalls, List.foldl_append, hfold, List.foldl_cons, List.foldl_nil,
    step_storageUnregister hyocto hstate hl hempty, Account.storageBalance_withoutAll]
  simp only [hdrop]

/-- Alice, who has traded, withdraws her `usd` first, and then her `btc`. -/
theorem account_exits_traded : ∃ a, (run traded).contract.accounts.lookup alice = some a ∧
    a.getBalances = [("ft:btc.near", 410), ("ft:usd.near", 1190)] ∧
    (exitCalls sdk (calling alice 1) a [.fungibleToken usd, .fungibleToken btc]).foldl
        (System.step sdk) (run traded) =
      ⟨(run traded).contract.dropAccount alice, (run traded).pending ++
        sendAll sdk alice a [.fungibleToken usd, .fungibleToken btc] ++
          [.transfer alice a.storageBalance], (run traded).received, (run traded).sent⟩ := by
  have halice : ((run traded).contract.accounts.lookup alice).map (fun a => (a.getBalances,
      a.getBalance sdk (.fungibleToken btc), a.getBalance sdk (.fungibleToken usd),
      a.openOrders.keys)) =
      some ([("ft:btc.near", 410), ("ft:usd.near", 1190)], 410, 1190, []) := by
    decide +kernel
  obtain ⟨a, ha, halice⟩ := Option.map_eq_some_iff.1 halice
  simp only [Prod.mk.injEq] at halice
  obtain ⟨hheld, hbtc, husd, hord⟩ := halice
  have hnone : ∀ mid o, a.getOrderInfo mid o = none := by
    intro mid o
    rw [Account.getOrderInfo, (HMap.keys_eq_nil_iff _).1 hord mid]
    rfl
  obtain ⟨bs, hbs, -, hexit⟩ := account_exits bookLaws tokenLaws sizeLaws matchLaw reach_traded
    (by decide +kernel) ha hnone
  have hload : (run traded).contract.internalUnwrapAccount alice = .ok a :=
    Contract.internalUnwrapAccount_eq_ok.2 ha
  rw [getBalances, hload] at hbs
  cases hbs
  refine ⟨a, ha, hheld, hexit _ ?_ ?_ _ rfl rfl⟩
  · rw [hheld]
    simp only [List.map_cons, List.map_nil, hbtc, husd]
    exact List.Perm.swap ..
  · intro t ht
    rcases List.mem_cons.1 ht with rfl | ht
    · trivial
    · rw [List.mem_singleton.1 ht]
      trivial

end TonicDex
