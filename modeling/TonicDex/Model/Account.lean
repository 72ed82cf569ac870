/-
  Accounts of the exchange (`account/v1.rs`, `storage.rs`).

  An account holds token balances by token key, the orders it has open in each
  market, and the NEAR it deposited for storage.  After each group of
  definitions stand the lemmas by which later modules use it: what a deposit
  or a withdrawal that went through did (`deposit_eq_ok`, `withdraw_eq_ok`),
  and what it did to each balance.
-/
import TonicDex.Model.Sdk

namespace TonicDex

variable {B : Type} (S : Sdk B)

/-! ## Sizes (`storage.rs`) -/

namespace Size

/-- The largest size of an empty account. -/
def account : ℕ := 134

/-- The size of a resting order, with a price level of its own. -/
def openLimitOrder : ℕ := 93

def orderId : ℕ := 16

def lotBalance : ℕ := 8

def marketId : ℕ := 32

/-- Charged for each market in which an account has orders, to hold its two
    balances: account id + balance + account id + balance. -/
def marketPairOverhead : ℕ := 64 + 16 + 64 + 16

end Size

/-! ## Accounts -/

structure Account where
  /-- balances by token key -/
  balances : HMap String ℕ
  /-- by market, the orders open in it -/
  openOrders : HMap MarketId OrderInfos
  /-- NEAR deposited for storage -/
  storageBalance : ℕ

namespace Account

/-- `AccountV1::new` -/
def new : Account := ⟨∅, ∅, 0⟩

/-- Deposit `amount` to the balance of `token`. -/
def deposit (a : Account) (token : TokenType) (amount : ℕ) : Call Account :=
  match a.balances.lookup (S.key token) with
  | some x => do
    let sum ← u128 (amount + x)
    return { a with balances := a.balances.insert (S.key token) sum }
  | none => return { a with balances := a.balances.insert (S.key token) amount }

/-- Withdraw `amount` of `token`; a balance that reaches zero is removed. -/
def withdraw (a : Account) (token : TokenType) (amount : ℕ) : Call Account :=
  match a.balances.lookup (S.key token) with
  | some x =>
    if x < amount then throw (.error .insufficientBalance)
    else if x = amount then return { a with balances := a.balances.erase (S.key token) }
    else return { a with balances := a.balances.insert (S.key token) (x - amount) }
  | none => throw (.error .insufficientBalance)

/-- The balance under a token key, zero if there is no entry. -/
def balance (a : Account) (k : String) : ℕ := (a.balances.lookup k).getD 0

/-- The available balance of `token`. -/
def getBalance (a : Account) (token : TokenType) : ℕ := a.balance (S.key token)

/-- The account with the orders of one market replaced. -/
def setOrders (a : Account) (marketId : MarketId) (orders : OrderInfos) : Account :=
  { a with openOrders := a.openOrders.insert marketId orders }

/-- Record a newly posted order. -/
def saveNewOrderInfo (a : Account) (marketId : MarketId) (orderId : OrderId)
    (originalSize maxAllowedOrders timestamp : ℕ) : Call Account :=
  match a.openOrders.lookup marketId with
  | some ordersInMarket =>
    if maxAllowedOrders ≤ ordersInMarket.size then throw (.error .exceededOrderLimit)
    else return a.setOrders marketId (ordersInMarket.insert orderId ⟨originalSize, timestamp⟩)
  | none => return a.setOrders marketId (AList.insert orderId ⟨originalSize, timestamp⟩ ∅)

/-- Forget all orders in a market and return their ids. -/
def removeAllOrderInfos (a : Account) (marketId : MarketId) : List OrderId × Account :=
  match a.openOrders.lookup marketId with
  | some existing => (S.intoKeys existing, { a with openOrders := a.openOrders.erase marketId })
  | none => ([], a)

/-- What the account records of one of its orders. -/
def getOrderInfo (a : Account) (marketId : MarketId) (orderId : OrderId) : Option OrderInfo :=
  (a.openOrders.lookup marketId).bind fun orders => orders.lookup orderId

/-- Forget one order; a market without further orders is removed. -/
def removeOrderInfo (a : Account) (marketId : MarketId) (orderId : OrderId) :
    Option OrderId × Account :=
  match a.openOrders.lookup marketId with
  | some orders =>
    if (orders.lookup orderId).isSome then
      let orders := orders.erase orderId
      (some orderId,
        if orders.keys = [] then { a with openOrders := a.openOrders.erase marketId }
        else a.setOrders marketId orders)
    else (none, a)
  | none => (none, a)

/-- The orders open in a market, in the order of the hash map. -/
def openOrdersIter (a : Account) (marketId : MarketId) : List (OrderId × OrderInfo) :=
  match a.openOrders.lookup marketId with
  | some orders => (S.intoKeys orders).filterMap fun id => (orders.lookup id).map (id, ·)
  | none => []

/-- No balances and no open orders. -/
def isEmpty (a : Account) : Bool := a.balances.keys.isEmpty && a.openOrders.keys.isEmpty

/-! ## Storage -/

/-- The number of open orders, over all markets. -/
def nOrders (a : Account) : ℕ := a.openOrders.total fun _ orders => orders.size

/-- `OpenOrdersMap::borsh_size` -/
def openOrdersBorshSize (a : Account) : ℕ :=
  a.openOrders.size * (S.hashSetOverhead + Size.marketId + Size.marketPairOverhead) +
    a.nOrders * (Size.orderId + Size.lotBalance + Size.openLimitOrder)

/-- `AccountV1::borsh_size`.  The sizes are those of maps in memory, so the
    64-bit sums of the source do not overflow. -/
def borshSize (a : Account) : ℕ :=
  Size.account + S.balancesBorshSize a.balances + a.openOrdersBorshSize S

def storageBalanceLocked (a : Account) : ℕ := a.borshSize S * S.storageByteCost

def isStorageCovered (a : Account) : Prop := a.storageBalanceLocked S ≤ a.storageBalance

instance (a : Account) : Decidable (a.isStorageCovered S) :=
  inferInstanceAs (Decidable (_ ≤ _))

def storageBalanceAvailable (a : Account) : Call ℕ :=
  sub a.storageBalance (a.storageBalanceLocked S)

/-! ## What deposits and withdrawals do -/

/-- The account with `n` more under the key `k`. -/
def credit (a : Account) (k : String) (n : ℕ) : Account :=
  { a with balances := a.balances.insert k (a.balance k + n) }

/-- The account with `n` less under the key `k`, without an entry if nothing is
    left. -/
def debit (a : Account) (k : String) (n : ℕ) : Account :=
  { a with balances :=
      if a.balance k = n then a.balances.erase k else a.balances.insert k (a.balance k - n) }

variable {S} {a a' : Account} {token : TokenType} {n : ℕ} {k k' : String}

theorem balance_of_lookup {x : ℕ} (h : a.balances.lookup k = some x) : a.balance k = x := by
  rw [balance, h]; rfl

theorem balance_of_lookup_none (h : a.balances.lookup k = none) : a.balance k = 0 := by
  rw [balance, h]; rfl

/-- A deposit fails only when an existing balance would overflow. -/
theorem deposit_eq_ok : a.deposit S token n = .ok a' ↔
    (∀ x, a.balances.lookup (S.key token) = some x → n + x < 2 ^ 128) ∧
      a.credit (S.key token) n = a' := by
  unfold deposit credit
  rcases h : a.balances.lookup (S.key token) with _ | x
  · rw [balance_of_lookup_none h]; simp
  · rw [balance_of_lookup h]
    simp only [Checked.bind_eq_ok, Checked.fit_eq_ok, Checked.pure_eq_ok, Option.some.injEq,
      forall_eq']
    constructor
    · rintro ⟨_, ⟨hlt, rfl⟩, rfl⟩; exact ⟨hlt, by rw [Nat.add_comm]⟩
    · rintro ⟨hlt, rfl⟩; exact ⟨_, ⟨hlt, rfl⟩, by rw [Nat.add_comm]⟩

/-- A withdrawal needs an entry with at least its amount. -/
theorem withdraw_eq_ok : a.withdraw S token n = .ok a' ↔
    (∃ x, a.balances.lookup (S.key token) = some x ∧ n ≤ x) ∧
      a.debit (S.key token) n = a' := by
  unfold withdraw debit
  rcases h : a.balances.lookup (S.key token) with _ | x
  · simp
  · rw [balance_of_lookup h]
    simp only [Option.some.injEq, exists_eq_left']
    rcases Nat.lt_trichotomy x n with h1 | rfl | h1
    · rw [if_pos h1]
      simp only [Checked.throw_eq_ok, false_iff, not_and]; omega
    · simp
    · have h2 : ¬ x < n := by omega
      have h3 : x ≠ n := by omega
      rw [if_neg h2, if_neg h3, if_neg h3]
      simp only [Checked.pure_eq_ok, iff_and_self]; omega

@[simp] theorem balance_credit :
    (a.credit k n).balance k' = a.balance k' + if k' = k then n else 0 := by
  simp only [credit, balance, HMap.lookup_insert_eq]
  split_ifs with h
  · subst h; rfl
  · rfl

/-- A debit that is covered, as a sum. -/
theorem balance_debit_add (h : n ≤ a.balance k) :
    (a.debit k n).balance k' + (if k' = k then n else 0) = a.balance k' := by
  unfold debit
  by_cases hk : k' = k
  · subst hk
    rw [if_pos rfl]
    split_ifs with he
    · rw [balance, HMap.lookup_erase_eq, if_pos rfl, Option.getD_none]; omega
    · rw [balance, HMap.lookup_insert_eq, if_pos rfl, Option.getD_some]; omega
  · rw [if_neg hk, Nat.add_zero]
    split_ifs with he
    · simp only [balance, HMap.lookup_erase_eq, if_neg hk]
    · simp only [balance, HMap.lookup_insert_eq, if_neg hk]

@[simp] theorem openOrders_credit : (a.credit k n).openOrders = a.openOrders := rfl

@[simp] theorem openOrders_debit : (a.debit k n).openOrders = a.openOrders := rfl

@[simp] theorem storageBalance_credit : (a.credit k n).storageBalance = a.storageBalance := rfl

@[simp] theorem storageBalance_debit : (a.debit k n).storageBalance = a.storageBalance := rfl

/-! ## What forgetting an order does -/

variable {mid m : MarketId} {id o : OrderId} {orders : OrderInfos}

@[simp] theorem balances_setOrders : (a.setOrders mid orders).balances = a.balances := rfl

@[simp] theorem storageBalance_setOrders :
    (a.setOrders mid orders).storageBalance = a.storageBalance := rfl

/-- The account after `removeOrderInfo`. -/
def forget (a : Account) (mid : MarketId) (id : OrderId) : Account :=
  (a.removeOrderInfo mid id).2

theorem removeOrderInfo_fst :
    (a.removeOrderInfo mid id).1 = (a.getOrderInfo mid id).map fun _ => id := by
  unfold removeOrderInfo getOrderInfo
  rcases a.openOrders.lookup mid with _ | os
  · rfl
  · rcases h : os.lookup id with _ | i <;> simp [h]

/-- Forgetting an order that is not recorded does nothing; otherwise its entry
    goes, and the market's with it when it was the last. -/
theorem forget_cases (a : Account) (mid : MarketId) (id : OrderId) :
    (a.getOrderInfo mid id = none ∧ a.forget mid id = a) ∨
    ∃ os i, a.openOrders.lookup mid = some os ∧ os.lookup id = some i ∧
      (((os.erase id).keys = [] ∧
          a.forget mid id = { a with openOrders := a.openOrders.erase mid }) ∨
        ((os.erase id).keys ≠ [] ∧ a.forget mid id = a.setOrders mid (os.erase id))) := by
  unfold forget removeOrderInfo getOrderInfo
  rcases h : a.openOrders.lookup mid with _ | os
  · exact .inl ⟨rfl, rfl⟩
  · rcases hi : os.lookup id with _ | i
    · exact .inl ⟨hi, by simp [hi]⟩
    · refine .inr ⟨os, i, rfl, hi, ?_⟩
      by_cases hk : (os.erase id).keys = []
      · exact .inl ⟨hk, by simp only [hi, Option.isSome_some, if_true, if_pos hk]⟩
      · exact .inr ⟨hk, by simp only [hi, Option.isSome_some, if_true, if_neg hk]⟩

@[simp] theorem balances_forget : (a.forget mid id).balances = a.balances := by
  obtain ⟨-, h⟩ | ⟨_, _, -, -, ⟨-, h⟩ | ⟨-, h⟩⟩ := forget_cases a mid id <;>
    simp [h]

@[simp] theorem storageBalance_forget : (a.forget mid id).storageBalance = a.storageBalance := by
  obtain ⟨-, h⟩ | ⟨_, _, -, -, ⟨-, h⟩ | ⟨-, h⟩⟩ := forget_cases a mid id <;>
    simp [h]

@[simp] theorem balance_forget : (a.forget mid id).balance k = a.balance k := by
  rw [balance, balances_forget, balance]

theorem lookup_forget_of_ne (h : m ≠ mid) :
    (a.forget mid id).openOrders.lookup m = a.openOrders.lookup m := by
  obtain ⟨-, he⟩ | ⟨_, _, -, -, ⟨-, he⟩ | ⟨-, he⟩⟩ := forget_cases a mid id
  · rw [he]
  · rw [he]; exact AList.lookup_erase_ne h
  · rw [he]; exact AList.lookup_insert_ne h

theorem getOrderInfo_forget :
    (a.forget mid id).getOrderInfo m o =
      if m = mid ∧ o = id then none else a.getOrderInfo m o := by
  by_cases hm : m = mid
  swap
  · rw [if_neg fun h => hm h.1, getOrderInfo, lookup_forget_of_ne hm, getOrderInfo]
  subst hm
  obtain ⟨hn, he⟩ | ⟨os, i, hos, hi, ⟨hk, he⟩ | ⟨-, he⟩⟩ := forget_cases a m id
  · rw [he]
    split_ifs with h
    · rw [h.2, hn]
    · rfl
  · have hn := (HMap.keys_eq_nil_iff _).1 hk o
    rw [HMap.lookup_erase_eq] at hn
    rw [he, getOrderInfo, AList.lookup_erase, getOrderInfo, hos]
    simpa using hn.symm
  · rw [he, getOrderInfo, setOrders, AList.lookup_insert, getOrderInfo, hos]
    simpa using HMap.lookup_erase_eq os id o

/-! ## Markets with orders -/

/-- No market is listed without orders. -/
def Tidy (a : Account) : Prop := ∀ m os, a.openOrders.lookup m = some os → os.keys ≠ []

/-- The number of orders open in a market. -/
def ordersIn (a : Account) (m : MarketId) : ℕ := (a.openOrders.lookup m).elim 0 HMap.size

theorem tidy_forget (h : a.Tidy) : (a.forget mid id).Tidy := by
  obtain ⟨-, he⟩ | ⟨os, i, hos, hi, ⟨-, he⟩ | ⟨hk, he⟩⟩ := forget_cases a mid id
  · rw [he]; exact h
  · intro m os' hm
    rw [he] at hm
    by_cases hmm : m = mid
    · subst hmm; rw [AList.lookup_erase] at hm; cases hm
    · rw [AList.lookup_erase_ne hmm] at hm; exact h m os' hm
  · intro m os' hm
    rw [he, setOrders] at hm
    by_cases hmm : m = mid
    · subst hmm; rw [AList.lookup_insert] at hm; cases hm; exact hk
    · rw [AList.lookup_insert_ne hmm] at hm; exact h m os' hm

theorem ordersIn_forget_le : (a.forget mid id).ordersIn m ≤ a.ordersIn m := by
  by_cases hm : m = mid
  swap
  · rw [ordersIn, lookup_forget_of_ne hm, ordersIn]
  subst hm
  obtain ⟨-, he⟩ | ⟨os, i, hos, hi, ⟨-, he⟩ | ⟨-, he⟩⟩ := forget_cases a m id
  · rw [he]
  · rw [he, ordersIn, AList.lookup_erase]; exact Nat.zero_le _
  · have := HMap.size_erase_of_some hi
    rw [he, ordersIn, setOrders, AList.lookup_insert, ordersIn, hos]
    simp only [Option.elim_some]; omega

end Account

end TonicDex
