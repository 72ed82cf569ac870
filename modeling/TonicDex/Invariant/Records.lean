/-
  Accounts are read back as they were stored.

  The record of an account is its Borsh encoding.  Reading it gives an account
  with the same balances, orders and storage (`Account.parse_encode`), provided
  that every number fits its field (`Account.Typed`) and no collection is
  longer than Borsh can count (`Account.Short`); and whatever is read from bytes
  at all satisfies both.
-/
import TonicDex.Model.Layout

namespace TonicDex

open Borsh

variable {B : Type} {S : Sdk B} {a a' : Account} {mid : MarketId} {id : AccountId}

/-! ## What a record can hold -/

/-- The numbers of an account fit their types. -/
structure Account.Typed (a : Account) : Prop where
  balances : ∀ k n, a.balances.lookup k = some n → n < 2 ^ 128
  orders : ∀ mid os, a.openOrders.lookup mid = some os → ∀ o i, os.lookup o = some i →
    o < 2 ^ 128 ∧ i.originalSize < 2 ^ 64 ∧ i.timestamp < 2 ^ 64
  storage : a.storageBalance < 2 ^ 128

/-- Borsh counts in four bytes, and does not write what it cannot count. -/
structure Account.Short (a : Account) : Prop where
  balances : a.balances.size < 2 ^ 32
  keys : ∀ k n, a.balances.lookup k = some n → k.utf8ByteSize < 2 ^ 32
  markets : a.openOrders.size < 2 ^ 32
  orders : ∀ mid os, a.openOrders.lookup mid = some os → os.size < 2 ^ 32

instance Account.decidableShort : DecidablePred Account.Short := fun a =>
  decidable_of_iff (a.balances.size < 2 ^ 32 ∧
      (∀ e ∈ a.balances.entries, e.1.utf8ByteSize < 2 ^ 32) ∧ a.openOrders.size < 2 ^ 32 ∧
      ∀ e ∈ a.openOrders.entries, e.2.size < 2 ^ 32)
    ⟨fun h => ⟨h.1, HMap.forall_lookup_iff.2 h.2.1, h.2.2.1, HMap.forall_lookup_iff.2 h.2.2.2⟩,
      fun h => ⟨h.balances, HMap.forall_lookup_iff.1 h.keys, h.markets,
        HMap.forall_lookup_iff.1 h.orders⟩⟩

/-- Accounts that hold the same: hash maps do not keep the order of entries. -/
structure Account.Same (a a' : Account) : Prop where
  balances : ∀ k, a'.balances.lookup k = a.balances.lookup k
  orders : Matches (fun os os' => ∀ o, os'.lookup o = os.lookup o) a.openOrders a'.openOrders
  storage : a'.storageBalance = a.storageBalance

theorem Account.Same.getOrderInfo_eq (h : a.Same a') (mid : MarketId) (o : OrderId) :
    a'.getOrderInfo mid o = a.getOrderInfo mid o := by
  rcases hos : a.openOrders.lookup mid with _ | os
  · rw [getOrderInfo, h.orders.none mid hos, getOrderInfo, hos]
  · obtain ⟨os', hos', heq⟩ := h.orders.some mid os hos
    rw [getOrderInfo, hos', getOrderInfo, hos]
    exact heq o

/-! ## Writing and reading -/

theorem reads_marketId (mid : MarketId) : Reads readMarketId (encodeMarketId mid) mid := by
  have htake := (reads_take (encodeMarketId mid)).map
    (g := fun bs => BitVec.ofNat 256 (ofBytes bs.reverse))
  have hlen : (encodeMarketId mid).length = 32 := by
    rw [encodeMarketId, List.length_reverse, length_uint]
  have hofBytes : BitVec.ofNat 256 (ofBytes (encodeMarketId mid).reverse) = mid := by
    have hlt : mid.toNat < 256 ^ 32 := mid.isLt.trans_eq (Nat.pow_mul 2 8 32)
    rw [encodeMarketId, List.reverse_reverse, ofBytes_uint, Nat.mod_eq_of_lt hlt,
      BitVec.ofNat_toNat, BitVec.setWidth_eq]
  rwa [hlen, hofBytes] at htake

theorem reads_orderInfo {i : OrderInfo} (hsize : i.originalSize < 2 ^ 64)
    (htime : i.timestamp < 2 ^ 64) : Reads readOrderInfo i.encode i :=
  (reads_uint 8 hsize).bind ((reads_uint 8 htime).map (g := OrderInfo.mk i.originalSize))

theorem reads_orders {os : OrderInfos} (hsize : os.size < 2 ^ 32)
    (htyped : ∀ o i, os.lookup o = some i →
      o < 2 ^ 128 ∧ i.originalSize < 2 ^ 64 ∧ i.timestamp < 2 ^ 64) :
    ∃ os', Reads readOrders (encodeOrders os) os' ∧ ∀ o, os'.lookup o = os.lookup o := by
  have hkeys : ∀ o i, os.lookup o = some i → Reads (readUint 16) (uint 16 o) o :=
    fun o i hi => reads_uint 16 (htyped o i hi).1
  have hvalues : ∀ o i, os.lookup o = some i → ∃ i', Reads readOrderInfo i.encode i' ∧ i = i' :=
    fun o i hi => ⟨i, reads_orderInfo (htyped o i hi).2.1 (htyped o i hi).2.2, rfl⟩
  obtain ⟨os', hread, hmatches⟩ := reads_map (fun o o' => decide (o ≤ o')) hsize hkeys hvalues
  exact ⟨os', hread, hmatches.lookup_eq⟩

theorem reads_balances {bs : HMap String ℕ} (hsize : bs.size < 2 ^ 32)
    (hkeys : ∀ k n, bs.lookup k = some n → k.utf8ByteSize < 2 ^ 32)
    (htyped : ∀ k n, bs.lookup k = some n → n < 2 ^ 128) :
    ∃ bs', Reads (readMap readStr (readUint 16))
      (Borsh.map (fun k k' => decide (k ≤ k')) str (uint 16) bs) bs' ∧
      ∀ k, bs'.lookup k = bs.lookup k := by
  have hvalues : ∀ k n, bs.lookup k = some n → ∃ n', Reads (readUint 16) (uint 16 n) n' ∧ n = n' :=
    fun k n hn => ⟨n, reads_uint 16 (htyped k n hn), rfl⟩
  obtain ⟨bs', hread, hmatches⟩ := reads_map (fun k k' => decide (k ≤ k')) hsize
    (fun k n hn => reads_str (hkeys k n hn)) hvalues
  exact ⟨bs', hread, hmatches.lookup_eq⟩

/-- **An account is read back as it was written.** -/
theorem Account.reads (h : a.Typed) (hs : a.Short) :
    ∃ a', Reads readVersioned a.encodeVersioned a' ∧ a.Same a' := by
  obtain ⟨balances, hbalances, hb⟩ := reads_balances hs.balances hs.keys h.balances
  obtain ⟨openOrders, horders, ho⟩ := reads_map (fun mid mid' => decide (mid ≤ mid')) hs.markets
    (fun mid _ _ => reads_marketId mid)
    (fun mid os hos => reads_orders (hs.orders mid os hos) (h.orders mid os hos))
  refine ⟨⟨balances, openOrders, a.storageBalance⟩, ?_, hb, ho, rfl⟩
  refine (reads_uint 1 (by decide : 0 < 2 ^ (8 * 1))).bind ?_
  rw [if_pos rfl, encode, List.append_assoc]
  exact hbalances.bind
    (horders.bind ((reads_uint 16 h.storage).map (g := Account.mk balances openOrders)))

/-! ## What can be read -/

theorem yields_marketId : Yields (fun _ => True) readMarketId :=
  (yields_take 32).bind fun _ _ => .pure trivial

theorem yields_orderInfo :
    Yields (fun i => i.originalSize < 2 ^ 64 ∧ i.timestamp < 2 ^ 64) readOrderInfo :=
  (yields_uint 8).bind fun _ hsize => (yields_uint 8).bind fun _ htime => .pure ⟨hsize, htime⟩

/-- **What is read as an account can be written again.** -/
theorem yields_account : Yields (fun a => a.Typed ∧ a.Short) readVersioned := by
  refine (yields_uint 1).bind fun version _ => ?_
  split_ifs
  · refine (yields_map yields_str (yields_uint 16)).bind fun balances hb => ?_
    refine (yields_map yields_marketId (yields_map (yields_uint 16) yields_orderInfo)).bind
      fun openOrders ho => ?_
    refine (yields_uint 16).bind fun storageBalance hs => .pure ⟨⟨?_, ?_, hs⟩, ⟨hb.1, ?_, ho.1, ?_⟩⟩
    · exact fun k n hn => (hb.2 k n hn).2
    · exact fun mid os hos o i hi => ((ho.2 mid os hos).2).2 o i hi
    · exact fun k n hn => (hb.2 k n hn).1
    · exact fun mid os hos => ((ho.2 mid os hos).2).1
  · intro bs a rest h
    cases h

/-- **What is accepted as the record of an account can be written again**, and is
    read back then. -/
theorem reread_account {bs : Bytes} (h : parse readVersioned bs = some a) :
    a.Typed ∧ a.Short ∧ ∃ a', parse readVersioned a.encodeVersioned = some a' ∧ a.Same a' := by
  obtain ⟨htyped, hshort⟩ := yields_account.parse h
  obtain ⟨a', hread, hsame⟩ := a.reads htyped hshort
  exact ⟨htyped, hshort, a', hread.parse, hsame⟩

/-- The record of an account with one open order. -/
def recordBytes : Bytes :=
  uint 1 0 ++ uint 4 0 ++ (uint 4 1 ++ encodeMarketId 7 ++
    (uint 4 1 ++ uint 16 3 ++ uint 8 50 ++ uint 8 1000)) ++ uint 16 90000

def recordAccount : Account := ⟨∅, AList.insert 7 (AList.insert 3 ⟨50, 1000⟩ ∅) ∅, 90000⟩

theorem reread_recordBytes : parse readVersioned recordBytes = some recordAccount ∧
    recordAccount.Typed ∧ recordAccount.Short ∧
    ∃ a', parse readVersioned recordAccount.encodeVersioned = some a' ∧ recordAccount.Same a' := by
  have h : parse readVersioned recordBytes = some recordAccount := rfl
  exact ⟨h, reread_account h⟩

/-! ## Keys -/

theorem accountKey_injective : Function.Injective accountKey := by
  intro id id' h
  have hstr : str id.name = str id'.name := List.append_cancel_left h
  have hbytes : id.name.toByteArray.data.toList = id'.name.toByteArray.data.toList :=
    (List.append_inj hstr (by rw [length_uint, length_uint])).2
  have hname : id.name = id'.name :=
    String.toByteArray_inj.1 (ByteArray.ext (Array.toList_inj.1 hbytes))
  cases id
  cases id'
  cases hname
  rfl

theorem marketKey_injective : Function.Injective marketKey := by
  intro mid mid' h
  have hid : encodeMarketId mid = encodeMarketId mid' := List.append_cancel_left h
  have hread := (reads_marketId mid).parse
  rw [hid, (reads_marketId mid').parse] at hread
  exact (Option.some.inj hread).symm

theorem marketIterKey_inj {i j : ℕ} (hi : i < 2 ^ 64) (hj : j < 2 ^ 64)
    (h : marketIterKey i = marketIterKey j) : i = j := by
  have hidx : uint 8 i = uint 8 j := List.append_cancel_left h
  have hread := (reads_uint 8 hi).parse
  rw [hidx, (reads_uint 8 hj).parse] at hread
  exact (Option.some.inj hread).symm

theorem ne_of_head {x y : UInt8} {k k' : Bytes} (hne : x ≠ y) (hx : k.head? = some x)
    (hy : k'.head? = some y) : k ≠ k' := by
  rintro rfl
  exact hne (Option.some.inj (hx.symm.trans hy))

variable {encodeMarket : Market B → Bytes} {encodeContract : Contract B → Bytes} {c : Contract B}

/-- **No two records have the same key**: those of different collections begin
    with different bytes. -/
theorem records_nodupKeys (hlen : c.marketIterMap.length < 2 ^ 64) :
    (c.records encodeMarket encodeContract).NodupKeys := by
  have haccounts : (c.accounts.entries.map fun e => accountKey e.1).Nodup := by
    have h := c.accounts.nodupKeys.map accountKey_injective
    rwa [List.keys, List.map_map] at h
  have hmarkets : (c.markets.entries.map fun e => marketKey e.1).Nodup := by
    have h := c.markets.nodupKeys.map marketKey_injective
    rwa [List.keys, List.map_map] at h
  have hlist : (c.marketIterMap.zipIdx.map fun x => marketIterKey x.2).Nodup := by
    have h : ((List.range' 0 c.marketIterMap.length).map marketIterKey).Nodup := by
      refine List.Nodup.map_on (fun i hi j hj hij => marketIterKey_inj ?_ ?_ hij) List.nodup_range'
      · rw [List.mem_range'_1] at hi
        omega
      · rw [List.mem_range'_1] at hj
        omega
    rwa [← List.zipIdx_map_snd, List.map_map] at h
  simp only [List.NodupKeys, List.keys, Contract.records, List.map_append, List.map_map,
    List.map_cons, List.map_nil, List.nodup_append]
  refine ⟨⟨⟨haccounts, hmarkets, ?_⟩, hlist, ?_⟩, List.nodup_singleton _, ?_⟩ <;>
    simp only [List.forall_mem_append, List.forall_mem_map, List.forall_mem_singleton]
  · exact fun e _ e' _ => ne_of_head (by decide : (0 : UInt8) ≠ 1) rfl rfl
  · exact ⟨fun e _ x _ => ne_of_head (by decide : (0 : UInt8) ≠ 2) rfl rfl,
      fun e _ x _ => ne_of_head (by decide : (1 : UInt8) ≠ 2) rfl rfl⟩
  · exact ⟨⟨fun e _ => ne_of_head (by decide : (0 : UInt8) ≠ 83) rfl rfl,
      fun e _ => ne_of_head (by decide : (1 : UInt8) ≠ 83) rfl rfl⟩,
      fun x _ => ne_of_head (by decide : (2 : UInt8) ≠ 83) rfl rfl⟩

/-- An account is loaded from its own record. -/
theorem loadAccount_records (hlen : c.marketIterMap.length < 2 ^ 64) (id : AccountId) :
    loadAccount (c.records encodeMarket encodeContract) id =
      (c.accounts.lookup id).bind fun a => parse readVersioned a.encodeVersioned := by
  have hnodup : (c.records encodeMarket encodeContract).NodupKeys := records_nodupKeys hlen
  rcases ha : c.accounts.lookup id with _ | a
  · have hnone : (c.records encodeMarket encodeContract).dlookup (accountKey id) = none := by
      refine List.dlookup_eq_none.2 fun hkey => ?_
      simp only [List.keys, Contract.records, List.map_append, List.map_map, List.mem_append,
        List.mem_map, List.map_cons, List.map_nil, List.mem_singleton] at hkey
      obtain ((⟨e, he, heq⟩ | ⟨e, -, heq⟩) | ⟨x, -, heq⟩) | heq := hkey
      · have hid : e.1 = id := accountKey_injective heq
        have hl : c.accounts.lookup e.1 = some e.2 := AList.mem_lookup_iff.2 he
        rw [hid, ha] at hl
        cases hl
      · exact ne_of_head (by decide : (1 : UInt8) ≠ 0) rfl rfl heq
      · exact ne_of_head (by decide : (2 : UInt8) ≠ 0) rfl rfl heq
      · exact ne_of_head (by decide : (0 : UInt8) ≠ 83) rfl rfl heq
    rw [loadAccount, hnone]
    rfl
  · have he : ⟨id, a⟩ ∈ c.accounts.entries := AList.mem_lookup_iff.1 ha
    have hmem : ⟨accountKey id, a.encodeVersioned⟩ ∈ c.records encodeMarket encodeContract := by
      simp only [Contract.records, List.mem_append, List.mem_map]
      exact .inl (.inl (.inl ⟨_, he, rfl⟩))
    have hsome : (c.records encodeMarket encodeContract).dlookup (accountKey id) =
        some a.encodeVersioned := (List.mem_dlookup_iff hnodup).2 hmem
    rw [loadAccount, hsome]
    rfl

end TonicDex
