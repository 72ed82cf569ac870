/-
  Charged and used storage.

  `borsh_size` charges an account a measured size for each order and a fixed
  amount for each market with orders.  The record of an order on the account has
  grown by a timestamp and the one in the market by a client id, so each order is
  charged 8 or 12 bytes too few, and each market 160 too many:
  `storage_charged_iff` says when the charge still covers what is used.
-/
import TonicDex.Engine.Library
import TonicDex.Model.Layout

namespace TonicDex

variable {B : Type} {S : Sdk B} {c : Contract B} {id : AccountId} {a : Account}
  {usage : B → OpenLimitOrder → ℕ}

/-! ## What the record takes up -/

theorem val_le_of_isLower {ch : Char} (h : ch.isLower = true) : ch.val ≤ 'z'.val :=
  of_decide_eq_true (Bool.and_eq_true_iff.1 h).2

theorem utf8Size_of_valid {ch : Char} (h : validChar ch = true) : ch.utf8Size = 1 := by
  have hle : ch.val ≤ 127 := by
    simp only [validChar, Char.isDigit, Bool.or_eq_true, Bool.and_eq_true, decide_eq_true_eq,
      beq_iff_eq] at h
    rcases h with (((h | h) | rfl) | rfl) | rfl
    · exact UInt32.le_trans (val_le_of_isLower h) (by decide)
    · exact UInt32.le_trans h.2 (by decide)
    all_goals decide
  exact if_pos hle

/-- The characters of an account id take up a byte each. -/
theorem utf8ByteSize_valid : ∀ {l : List Char}, (∀ ch ∈ l, validChar ch = true) →
    (String.ofList l).utf8ByteSize = l.length
  | [], _ => rfl
  | ch :: l, h => by
    obtain ⟨hch, hl⟩ := List.forall_mem_cons.1 h
    rw [String.ofList_cons, String.utf8ByteSize_append, String.utf8ByteSize_singleton,
      utf8Size_of_valid hch, utf8ByteSize_valid hl, List.length_cons, Nat.add_comm]

theorem AccountId.utf8ByteSize_le (id : AccountId) : id.name.utf8ByteSize ≤ 64 := by
  obtain ⟨-, hlen, hall⟩ := id.valid
  have hsize := utf8ByteSize_valid (List.all_eq_true.1 hall)
  rw [String.ofList_toList, String.length_toList] at hsize
  exact hsize ▸ hlen

theorem length_encodeOrders (orders : OrderInfos) :
    (encodeOrders orders).length = 4 + 32 * orders.size := by
  simp only [encodeOrders, OrderInfo.encode, Borsh.length_map, Borsh.length_uint,
    List.length_append, HMap.total_const]

theorem Account.recordSize_eq (a : Account) (id : AccountId) :
    a.recordSize id = 70 + id.name.utf8ByteSize +
      (a.balances.total fun k _ => 4 + k.utf8ByteSize + 16) +
      36 * a.openOrders.size + 32 * a.nOrders := by
  have horders : (a.openOrders.total fun _ orders => 32 + (4 + 32 * orders.size)) =
      36 * a.openOrders.size + 32 * a.nOrders := by
    rw [nOrders, HMap.total_add, HMap.total_add, HMap.total_const, HMap.total_const,
      HMap.total_mul a.openOrders (fun _ orders => HMap.size orders)]
    omega
  simp only [recordSize, recordOverhead, accountKey, encodeVersioned, encode, encodeMarketId,
    length_encodeOrders, Borsh.length_map, Borsh.length_uint, Borsh.length_str,
    List.length_append, List.length_reverse, horders]
  omega

/-! ## What is charged -/

/-- What the contract is charged for balances: their serialized size. -/
structure ChargeLaws (S : Sdk B) : Prop where
  entry : ∀ k, S.entryBorshSize k = 4 + k.utf8ByteSize + 16
  overhead : S.hashSetOverhead = 4

theorem balancesBorshSize_eq (hZ : SizeLaws S) (hC : ChargeLaws S) (m : HMap String ℕ) :
    S.balancesBorshSize m =
      S.balancesBorshSize ∅ + m.total fun k _ => 4 + k.utf8ByteSize + 16 := by
  induction m using AList.insertRec with
  | H0 => rfl
  | IH k v m hnew ih =>
    have hnone := AList.lookup_eq_none.2 hnew
    rw [hZ.insert_new hnone, ih, hC.entry, HMap.total_insert, HMap.erase_of_none hnone]
    omega

/-! ## Orders in the records of markets -/

/-- Every record of the account is one of a resting order. -/
def Account.Rests (S : Sdk B) (c : Contract B) (a : Account) : Prop :=
  ∀ mid o i, a.getOrderInfo mid o = some i → ∃ x, c.restingOrder S mid o = some x

theorem Account.Rests.of_entries (h : ∀ e ∈ a.openOrders.entries, ∀ o ∈ e.2.keys,
    (c.restingOrder S e.1 o).isSome) : a.Rests S c := by
  intro mid o i hi
  obtain ⟨orders, horders, hi⟩ := Option.bind_eq_some_iff.1 hi
  exact Option.isSome_iff_exists.1 (h ⟨mid, orders⟩ (AList.mem_lookup_iff.1 horders) o
    ((HMap.mem_keys_iff orders o).2 ⟨i, hi⟩))

/-- Every order of the account has a price level of its own. -/
def Account.OwnLevels (S : Sdk B) (c : Contract B) (a : Account) : Prop :=
  ∀ mid o i b x, a.getOrderInfo mid o = some i → c.restingOrder S mid o = some (b, x) →
    ∀ x' ∈ S.orders b, x'.side = x.side → x'.limitPriceLots = x.limitPriceLots → x' = x

namespace Account

theorem sumOrders_le {f g : B → OpenLimitOrder → ℕ} (h : ∀ b x, f b x ≤ g b x) :
    a.sumOrders S f c ≤ a.sumOrders S g c := by
  refine HMap.total_le_total fun mid orders _ => HMap.total_le_total fun o _ _ => ?_
  rcases c.restingOrder S mid o with _ | ⟨b, x⟩
  · exact le_rfl
  · exact h b x

/-- What holds of the resting orders of an account decides the sum over them. -/
theorem sumOrders_congr {f g : B → OpenLimitOrder → ℕ}
    (h : ∀ mid o i b x, a.getOrderInfo mid o = some i → c.restingOrder S mid o = some (b, x) →
      f b x = g b x) : a.sumOrders S f c = a.sumOrders S g c := by
  refine HMap.total_congr fun mid orders horders => HMap.total_congr fun o i hi => ?_
  have hinfo : a.getOrderInfo mid o = some i := by rw [getOrderInfo, horders]; exact hi
  rcases hx : c.restingOrder S mid o with _ | ⟨b, x⟩
  · rfl
  · exact h mid o i b x hinfo hx

theorem sumOrders_add (f g : B → OpenLimitOrder → ℕ) (c : Contract B) (a : Account) :
    a.sumOrders S (fun b x => f b x + g b x) c = a.sumOrders S f c + a.sumOrders S g c := by
  unfold sumOrders
  rw [← HMap.total_add]
  refine HMap.total_congr fun mid orders _ => ?_
  rw [← HMap.total_add]
  refine HMap.total_congr fun o _ _ => ?_
  rcases c.restingOrder S mid o with _ | x <;> rfl

theorem sumOrders_mul (n : ℕ) (f : B → OpenLimitOrder → ℕ) (c : Contract B) (a : Account) :
    a.sumOrders S (fun b x => n * f b x) c = n * a.sumOrders S f c := by
  unfold sumOrders
  rw [← HMap.total_mul]
  refine HMap.total_congr fun mid orders _ => ?_
  rw [← HMap.total_mul]
  refine HMap.total_congr fun o _ _ => ?_
  rcases c.restingOrder S mid o with _ | x <;> rfl

theorem Rests.sumOrders_const (h : a.Rests S c) (n : ℕ) :
    a.sumOrders S (fun _ _ => n) c = n * a.nOrders := by
  unfold sumOrders nOrders
  rw [← HMap.total_mul]
  refine HMap.total_congr fun mid orders horders => ?_
  rw [← HMap.total_const]
  refine HMap.total_congr fun o i hi => ?_
  obtain ⟨x, hx⟩ := h mid o i (by rw [getOrderInfo, horders]; exact hi)
  rw [hx]
  rfl

/-- The measured sizes of the orders. -/
theorem Rests.sumOrders_measured (h : a.Rests S c) :
    a.sumOrders S (fun _ x => x.measuredSize) c = 93 * a.nOrders + 4 * a.nClientIds S c := by
  have hsize : ∀ (_ : B) (x : OpenLimitOrder), x.measuredSize =
      93 + 4 * if x.clientId.isSome then 1 else 0 := by
    intro _ x
    rw [OpenLimitOrder.measuredSize, mul_ite]
    rfl
  rw [sumOrders_congr fun _ _ _ b x _ _ => hsize b x, sumOrders_add, h.sumOrders_const,
    sumOrders_mul, nClientIds]

end Account

/-! ## Whether the charge covers what is used -/

theorem Account.borshSize_eq (hZ : SizeLaws S) (hC : ChargeLaws S) (a : Account) :
    a.borshSize S = 134 + (S.balancesBorshSize ∅ +
      a.balances.total fun k _ => 4 + k.utf8ByteSize + 16) +
      196 * a.openOrders.size + 117 * a.nOrders := by
  simp only [borshSize, openOrdersBorshSize, balancesBorshSize_eq hZ hC a.balances, hC.overhead,
    Size.account, Size.marketId, Size.marketPairOverhead, Size.orderId, Size.lotBalance,
    Size.openLimitOrder]
  omega

/-- Orders that take up their measured sizes. -/
theorem Account.Rests.measured_le_iff (hZ : SizeLaws S) (hC : ChargeLaws S) (h : a.Rests S c) :
    a.usedBytes S (fun _ x => x.measuredSize) c id ≤ a.borshSize S ↔
      8 * a.nOrders + 4 * a.nClientIds S c + id.name.utf8ByteSize ≤
        160 * a.openOrders.size + 64 + S.balancesBorshSize ∅ := by
  rw [Account.usedBytes, h.sumOrders_measured, a.recordSize_eq, a.borshSize_eq hZ hC]
  omega

/-- Within the limit of orders in each market. -/
theorem Account.nOrders_le (h : ∀ mid, a.ordersIn mid ≤ defaultMaxOrders) :
    a.nOrders ≤ defaultMaxOrders * a.openOrders.size := by
  rw [← HMap.total_const]
  refine HMap.total_le_total fun mid orders horders => ?_
  have hle := h mid
  rw [ordersIn, horders] at hle
  exact hle

/-- **The charge covers the used storage just in case the markets' overheads make up
    for the orders.**  For every account whose orders each have a price level of
    their own: `borsh_size` is at least what the account uses if and only if 8 for
    each order, 4 for each client id and the length of the account id are together at
    most 160 for each market, 64, and what is charged for a map without balances.
    This is enough also where orders share price levels; and without client ids it
    holds of every account within the limit of orders. -/
theorem storage_charged_iff (hZ : SizeLaws S) (hC : ChargeLaws S) (hU : UsageLaws S usage)
    (h : a.Rests S c) :
    (a.OwnLevels S c → (a.usedBytes S usage c id ≤ a.borshSize S ↔
      8 * a.nOrders + 4 * a.nClientIds S c + id.name.utf8ByteSize ≤
        160 * a.openOrders.size + 64 + S.balancesBorshSize ∅)) ∧
    (8 * a.nOrders + 4 * a.nClientIds S c + id.name.utf8ByteSize ≤
        160 * a.openOrders.size + 64 + S.balancesBorshSize ∅ →
      a.usedBytes S usage c id ≤ a.borshSize S) ∧
    ((∀ mid, a.ordersIn mid ≤ defaultMaxOrders) → a.nClientIds S c = 0 →
      a.usedBytes S usage c id ≤ a.borshSize S) := by
  have hle : a.usedBytes S usage c id ≤ a.usedBytes S (fun _ x => x.measuredSize) c id :=
    Nat.add_le_add_left (Account.sumOrders_le hU.le) _
  refine ⟨fun hown => ?_, fun hcond => hle.trans ((h.measured_le_iff hZ hC).2 hcond),
    fun hlimit hnone => ?_⟩
  · have hsum : a.sumOrders S usage c = a.sumOrders S (fun _ x => x.measuredSize) c :=
      Account.sumOrders_congr fun mid o i b x hi hx => hU.own_level (hown mid o i b x hi hx)
    rw [← h.measured_le_iff hZ hC, Account.usedBytes, hsum]
    rfl
  · refine hle.trans ((h.measured_le_iff hZ hC).2 ?_)
    have hid := id.utf8ByteSize_le
    have hn := Account.nOrders_le hlimit
    rw [defaultMaxOrders] at hn
    omega

/-- Orders that take up their measured sizes. -/
def measuredUsage : Engine.Book → OpenLimitOrder → ℕ := fun _ x => x.measuredSize

theorem usageLaws : UsageLaws Engine.sdk measuredUsage := ⟨fun _ _ => le_rfl, fun _ => rfl⟩

theorem chargeLaws : ChargeLaws Engine.sdk := ⟨fun _ => rfl, rfl⟩

/-- Alice's order is paid for. -/
theorem storage_charged_asked : ∃ a,
    (Engine.run Engine.asked).contract.accounts.lookup Engine.alice = some a ∧ a.nOrders = 1 ∧
    a.usedBytes Engine.sdk measuredUsage (Engine.run Engine.asked).contract Engine.alice ≤
      a.borshSize Engine.sdk := by
  have haccount : ((Engine.run Engine.asked).contract.accounts.lookup Engine.alice).map (fun a =>
      (decide (∀ e ∈ a.openOrders.entries, ∀ o ∈ e.2.keys,
        ((Engine.run Engine.asked).contract.restingOrder Engine.sdk e.1 o).isSome),
        a.nOrders, a.nClientIds Engine.sdk (Engine.run Engine.asked).contract,
        a.openOrders.size)) = some (true, 1, 0, 1) := by decide +kernel
  obtain ⟨a, ha, haccount⟩ := Option.map_eq_some_iff.1 haccount
  simp only [Prod.mk.injEq, decide_eq_true_eq] at haccount
  obtain ⟨hrests, hn, hids, hsize⟩ := haccount
  refine ⟨a, ha, hn, (storage_charged_iff Engine.sizeLaws chargeLaws usageLaws
    (.of_entries hrests)).2.1 ?_⟩
  rw [hn, hids, hsize]
  decide

/-- An account with the longest of ids. -/
def hoarder : AccountId :=
  ⟨"0123456789abcdef0123456789abcdef0123456789abcdef0123456789abcdef", by decide⟩

/-- It asks at 14 prices, each time with a client id. -/
def hoarded : List Event := Engine.listed ++
  [.call (Engine.calling hoarder (3 * 10 ^ 22)) (.storageDeposit none none),
    Engine.pay Engine.btc hoarder 1000] ++
  (List.range 14).map fun i => .call (Engine.calling hoarder 0) (.newOrder Engine.btcUsd
    { Engine.order .sell .limit (20 + 10 * i) 10 none with clientId := some i })

/-- 14 orders with client ids, each at a price of its own, use more than they are
    charged for, in a state that the contract reaches and saves. -/
theorem storage_not_charged : System.Reachable Engine.sdk (Engine.run hoarded) ∧
    ∃ a, (Engine.run hoarded).contract.accounts.lookup hoarder = some a ∧
      a.ordersIn Engine.btcUsd = 14 ∧ a.isStorageCovered Engine.sdk ∧
      ((Engine.run hoarded).contract.markets.lookup Engine.btcUsd).map (fun m =>
        (m.maxOrdersPerAccount, (Engine.sdk.orders m.orderbook).map fun x =>
          (x.limitPriceLots, x.clientId))) =
        some (20, (List.range 14).map fun i => (2 + i, some i)) ∧
      a.borshSize Engine.sdk <
        a.usedBytes Engine.sdk measuredUsage (Engine.run hoarded).contract hoarder := by
  have haccount : ((Engine.run hoarded).contract.accounts.lookup hoarder).map (fun a =>
      (a.ordersIn Engine.btcUsd, decide (a.isStorageCovered Engine.sdk), a.nOrders,
        a.openOrders.size, a.sumOrders Engine.sdk measuredUsage (Engine.run hoarded).contract)) =
      some (14, true, 14, 1, 14 * 97) := by decide +kernel
  obtain ⟨a, ha, haccount⟩ := Option.map_eq_some_iff.1 haccount
  simp only [Prod.mk.injEq, decide_eq_true_eq] at haccount
  obtain ⟨hin, hcovered, hn, hsize, hsum⟩ := haccount
  refine ⟨Engine.reachable_run hoarded, a, ha, hin, hcovered, by decide +kernel, ?_⟩
  have hid : hoarder.name.utf8ByteSize = 64 := by decide
  have hempty : Engine.sdk.balancesBorshSize ∅ = 4 := rfl
  rw [a.borshSize_eq Engine.sizeLaws chargeLaws, Account.usedBytes, a.recordSize_eq, hsum, hn,
    hsize, hid, hempty]
  omega

end TonicDex
