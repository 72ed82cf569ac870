/-
  The two indexes of orders.

  An order is recorded on the account of its owner and rests in the book of its
  market, and the two are written by different functions.  `Indexed` says that
  they agree; every effect keeps it (`Does.indexed`), except the deletion of a
  market whose book is not empty.
-/
import TonicDex.Invariant.Markets

namespace TonicDex

variable {B : Type} {S : Sdk B} {c c' : Contract B} {e : Effect B} {es : List (Effect B)}

/-! ## The index on the accounts -/

/-- The account of `id`, empty if there is none. -/
def Contract.accountOf (c : Contract B) (id : AccountId) : Account :=
  (c.accounts.lookup id).getD .new

theorem accountOf_of_lookup {id : AccountId} {a : Account} (h : c.accounts.lookup id = some a) :
    c.accountOf id = a := by
  rw [Contract.accountOf, h]; rfl

theorem accountOf_putAccount (id id' : AccountId) (a : Account) :
    (c.putAccount id a).accountOf id' = if id' = id then a else c.accountOf id' := by
  rw [Contract.accountOf, Contract.lookup_putAccount]
  split_ifs <;> rfl

/-- What depends on the open orders of an account only. -/
theorem index_congr {a b : Account} (h : a.openOrders = b.openOrders) :
    a.getOrderInfo = b.getOrderInfo ∧ a.ordersIn = b.ordersIn ∧ (b.Tidy → a.Tidy) := by
  refine ⟨?_, ?_, ?_⟩
  · funext mid id
    rw [Account.getOrderInfo, h, Account.getOrderInfo]
  · funext mid
    rw [Account.ordersIn, h, Account.ordersIn]
  · intro hb m os hm
    rw [h] at hm
    exact hb m os hm

/-- Every resting order is recorded on the account of its owner. -/
def AllRecorded (S : Sdk B) (c : Contract B) : Prop :=
  ∀ mid m x, c.markets.lookup mid = some m → x ∈ S.orders m.orderbook →
    ∃ i, (c.accountOf x.ownerId).getOrderInfo mid x.id = some i

/-- Effects that change no record and add nothing to a book. -/
theorem AllRecorded.of_same (h : AllRecorded S c)
    (haccounts : ∀ id, (c'.accountOf id).openOrders = (c.accountOf id).openOrders)
    (hback : ∀ mid m', c'.markets.lookup mid = some m' → S.orders m'.orderbook ≠ [] →
      ∃ m, c.markets.lookup mid = some m ∧ m.orderbook = m'.orderbook) : AllRecorded S c' := by
  intro mid m' x hm' hx
  obtain ⟨m, hm, hb⟩ := hback mid m' hm' (List.ne_nil_of_mem hx)
  obtain ⟨i, hi⟩ := h mid m x hm (hb ▸ hx)
  exact ⟨i, by rw [(index_congr (haccounts _)).1]; exact hi⟩

/-- The records of the accounts agree with the books. -/
structure Indexed (S : Sdk B) (c : Contract B) : Prop where
  recorded : ∀ id mid o i, (c.accountOf id).getOrderInfo mid o = some i →
    ∃ m x, c.markets.lookup mid = some m ∧ x ∈ S.orders m.orderbook ∧ x.id = o ∧
      x.ownerId = id ∧ x.openQtyLots ≤ i.originalSize
  rests : ∀ mid m x, c.markets.lookup mid = some m → x ∈ S.orders m.orderbook →
    ∃ i, (c.accountOf x.ownerId).getOrderInfo mid x.id = some i
  limit : ∀ id mid, (c.accountOf id).ordersIn mid ≤ defaultMaxOrders
  tidy : ∀ id, (c.accountOf id).Tidy

/-- Effects that change neither records nor books. -/
theorem Indexed.of_same (h : Indexed S c)
    (haccounts : ∀ id, (c'.accountOf id).openOrders = (c.accountOf id).openOrders)
    (hmarkets : ∀ mid m, c.markets.lookup mid = some m → S.orders m.orderbook ≠ [] →
      ∃ m', c'.markets.lookup mid = some m' ∧ m'.orderbook = m.orderbook)
    (hback : ∀ mid m', c'.markets.lookup mid = some m' → S.orders m'.orderbook ≠ [] →
      ∃ m, c.markets.lookup mid = some m ∧ m.orderbook = m'.orderbook) : Indexed S c' where
  recorded id mid o i hi := by
    rw [(index_congr (haccounts id)).1] at hi
    obtain ⟨m, x, hm, hx, hrest⟩ := h.recorded id mid o i hi
    obtain ⟨m', hm', hb⟩ := hmarkets mid m hm (List.ne_nil_of_mem hx)
    exact ⟨m', x, hm', hb ▸ hx, hrest⟩
  rests := AllRecorded.of_same h.rests haccounts hback
  limit id mid := by
    rw [(index_congr (haccounts id)).2.1]
    exact h.limit id mid
  tidy id := (index_congr (haccounts id)).2.2 (h.tidy id)

/-! ## Trades -/

/-- A fill forgets an order at most. -/
theorem openOrders_afterFill (mid : MarketId) (m : Market B) (side : Side) (f : Match)
    (a : Account) : (afterFill S mid m side f a).openOrders = a.openOrders ∨
      (afterFill S mid m side f a).openOrders = (a.forget mid f.makerOrderId).openOrders := by
  rcases hf : f.didRemoveMakerOrder with _ | _
  · exact .inl (by simp [afterFill, hf])
  · exact .inr (by simp [afterFill, hf])

theorem tidy_fillsOf {mid : MarketId} {m : Market B} {side : Side} (id : AccountId)
    (fs : List Match) {a : Account} (ht : a.Tidy) : (fillsOf S mid m side id fs a).Tidy := by
  refine fillsOf_induction (fun b f _ hb => ?_) ht
  obtain he | he := openOrders_afterFill (S := S) mid m side f b
  · exact (index_congr he).2.2 hb
  · exact (index_congr he).2.2 (Account.tidy_forget hb)

theorem ordersIn_fillsOf_le {mid : MarketId} {m : Market B} {side : Side} (id : AccountId)
    (fs : List Match) (a : Account) (mid' : MarketId) :
    (fillsOf S mid m side id fs a).ordersIn mid' ≤ a.ordersIn mid' := by
  refine fillsOf_induction (P := fun b => b.ordersIn mid' ≤ a.ordersIn mid') (fun b f _ hb => ?_)
    le_rfl
  obtain he | he := openOrders_afterFill (S := S) mid m side f b
  · rw [(index_congr he).2.1]
    exact hb
  · rw [(index_congr he).2.1]
    exact Account.ordersIn_forget_le.trans hb

theorem MakersSettled.accountOf {mid : MarketId} {m : Market B} {side : Side} {fs : List Match}
    (h : MakersSettled S mid m side c fs c') (id : AccountId) :
    c'.accountOf id = fillsOf S mid m side id fs (c.accountOf id) := by
  rw [Contract.accountOf, h.lookup, Contract.accountOf]
  rcases ha : c.accounts.lookup id with _ | a
  · exact (fillsOf_of_ne (h.maker_ne ha) .new).symm
  · rfl

namespace Traded

variable {mid : MarketId} {m m' : Market B} {taker : AccountId} {n : NewOrder}
  {referrerId : Option AccountId} {r : PlaceOrderResult} {s : Settled}

/-- Everybody's account after a trade is the old one after its fills, with the
    rebate if it is the referrer's. -/
theorem accountOf (h : Traded S c mid m taker n referrerId r m' s c') (id : AccountId) :
    (c'.accountOf id = fillsOf S mid m n.side id r.fills (c.accountOf id) ∧
        (referrerId = some id → s.referrerRebate = 0)) ∨
      (referrerId = some id ∧
        c'.accountOf id = (fillsOf S mid m n.side id r.fills (c.accountOf id)).credit
          (S.key m.quoteToken.tokenType) s.referrerRebate) := by
  have hmakers : h.settled.makers.accountOf id =
      fillsOf S mid m n.side id r.fills (c.accountOf id) := h.settled.settled.accountOf id
  rw [← hmakers]
  obtain ⟨he, hzero⟩ | ⟨href, hr, a, ha, -, he⟩ := h.settled.referrer.lookup id
  · exact .inl ⟨by rw [Contract.accountOf, he, Contract.accountOf], hzero⟩
  · exact .inr ⟨href, by rw [accountOf_of_lookup he, accountOf_of_lookup ha, hr]⟩

/-- The orders on an account after a trade are the old ones after its fills. -/
theorem openOrders_eq (h : Traded S c mid m taker n referrerId r m' s c') (id : AccountId) :
    (c'.accountOf id).openOrders =
      (fillsOf S mid m n.side id r.fills (c.accountOf id)).openOrders := by
  obtain ⟨he, -⟩ | ⟨-, he⟩ := h.accountOf id
  · rw [he]
  · rw [he, Account.openOrders_credit]

/-- An order that some fill removed is no longer there, and the others are. -/
theorem opposite_ids_iff (hB : BookLaws S) (h : Traded S c mid m taker n referrerId r m' s c')
    (hm : MarketOk S c.prevOrderSequenceNumber m) (id : OrderId) :
    id ∈ (S.resting m'.orderbook n.side.opposite).map OpenLimitOrder.id ↔
      id ∈ (S.resting m.orderbook n.side.opposite).map OpenLimitOrder.id ∧
        ∀ f ∈ r.fills, f.makerOrderId = id → ¬ f.didRemoveMakerOrder = true := by
  refine (h.placement hB hm).filled.mem_keys_iff (fun o f hf => ?_)
    (Sdk.resting_nodup hm.nodup _) id
  simp only [fillRule]
  cases f.didRemoveMakerOrder <;> simp

/-- The maker of a fill is the owner of the order it names. -/
theorem maker_eq (hB : BookLaws S) (h : Traded S c mid m taker n referrerId r m' s c')
    (hm : MarketOk S c.prevOrderSequenceNumber m) {f : Match} (hf : f ∈ r.fills)
    {x : OpenLimitOrder} (hx : x ∈ S.orders m.orderbook) (hid : f.makerOrderId = x.id) :
    f.makerUserId = x.ownerId ∧ x ∈ S.resting m.orderbook n.side.opposite := by
  obtain ⟨o, ho, hoid, o', hsh, hfit⟩ := h.fill_target hB hm hf
  obtain rfl : o = x := List.inj_on_of_nodup_map hm.nodup (Sdk.mem_orders.2 ⟨_, ho⟩) hx
    (hoid.trans hid)
  refine ⟨?_, ho⟩
  rw [hfit.maker, hsh.1]

/-- An order survives a trade unless a fill removes it. -/
theorem survives (hB : BookLaws S) (h : Traded S c mid m taker n referrerId r m' s c')
    (hm : MarketOk S c.prevOrderSequenceNumber m) {x : OpenLimitOrder}
    (hx : x ∈ S.orders m.orderbook)
    (hf : ∀ f ∈ r.fills, f.makerOrderId = x.id → ¬ f.didRemoveMakerOrder = true) :
    ∃ x' ∈ S.orders m'.orderbook, Shrunk x x' := by
  have hp := h.placement hB hm
  obtain ⟨side, hside⟩ := Sdk.mem_orders.1 hx
  by_cases hs : side = n.side.opposite
  · subst hs
    obtain ⟨x', hx', hid⟩ := List.mem_map.1
      ((h.opposite_ids_iff hB hm x.id).2 ⟨List.mem_map_of_mem hside, hf⟩)
    refine ⟨x', Sdk.mem_orders.2 ⟨_, hx'⟩, ?_⟩
    obtain ⟨y, hy, hyid, hsh⟩ := hp.filled.origin Shrunk.refl (fun _ _ _ => Shrunk.trans)
      (fun _ _ _ => Shrunk.of_reduce) x' hx'
    obtain rfl : y = x := List.inj_on_of_nodup_map (Sdk.resting_nodup hm.nodup _) hy hside
      (hyid.trans hid)
    exact hsh
  · have hown : side = n.side := by
      revert hs; cases side <;> cases n.side <;> decide
    subst hown
    refine ⟨x, Sdk.mem_orders.2 ⟨n.side, ?_⟩, .refl x⟩
    cases hr : r.isPosted with
    | true =>
      obtain ⟨-, p, -, hperm⟩ := hp.posted hr
      exact hperm.mem_iff.2 (List.mem_cons_of_mem _ hside)
    | false => rw [(hp.not_posted hr).2]; exact hside

/-- An order that rests after a trade was posted by it, or rested before and
    was removed by no fill. -/
theorem origin (hB : BookLaws S) (h : Traded S c mid m taker n referrerId r m' s c')
    (hm : MarketOk S c.prevOrderSequenceNumber m) {x' : OpenLimitOrder}
    (hx' : x' ∈ S.orders m'.orderbook) :
    (r.isPosted = true ∧ x'.id = r.id ∧ x'.ownerId = taker ∧ x'.openQtyLots = r.openQtyLots) ∨
      ∃ x ∈ S.orders m.orderbook, Shrunk x x' ∧
        ∀ f ∈ r.fills, f.makerOrderId = x.id → ¬ f.didRemoveMakerOrder = true := by
  have hp := h.placement hB hm
  obtain ⟨side, hside⟩ := Sdk.mem_orders.1 hx'
  obtain ⟨x, hx, hsh⟩ | ⟨rfl, hr, p, -, rfl⟩ := hp.origin hside
  · refine .inr ⟨x, Sdk.mem_orders.2 ⟨side, hx⟩, hsh, fun f hf hid => ?_⟩
    obtain ⟨-, hopp⟩ := h.maker_eq hB hm hf (Sdk.mem_orders.2 ⟨side, hx⟩) hid
    have hxside : side = n.side.opposite :=
      (hm.side _ _ hx).symm.trans (hm.side _ _ hopp)
    subst hxside
    have hid' : x'.id = x.id := by rw [hsh.1]
    exact ((h.opposite_ids_iff hB hm x.id).1 (hid' ▸ List.mem_map_of_mem hside)).2 f hf hid
  · exact .inl ⟨hr, rfl, rfl, rfl⟩

/-- The record that a trade leaves of an order: of a posted one, the new
    record, and else the old one unless a fill removed the order. -/
structure Records (taker : AccountId) (mid : MarketId) (r : PlaceOrderResult)
    (maxQtyLots : ℕ) (old : AccountId → Account) (new : AccountId → Account) : Prop where
  others : ∀ id, id ≠ taker → ∀ m o, (new id).getOrderInfo m o =
    if m = mid ∧ ∃ f ∈ r.fills, f.makerUserId = id ∧ f.makerOrderId = o ∧
      f.didRemoveMakerOrder = true then none else (old id).getOrderInfo m o
  taker : ∀ m o, (r.isPosted = true ∧ m = mid ∧ o = r.id ∧ ∃ t,
      (new taker).getOrderInfo m o = some ⟨maxQtyLots, t⟩) ∨
    (¬ (r.isPosted = true ∧ m = mid ∧ o = r.id) ∧
      (new taker).getOrderInfo m o = (old taker).getOrderInfo m o)
  limit : (∀ id m, (old id).ordersIn m ≤ defaultMaxOrders) →
    ∀ id m, (new id).ordersIn m ≤ defaultMaxOrders
  tidy : (∀ id, (old id).Tidy) → ∀ id, (new id).Tidy

/-- A trade records the order it posts, and forgets only those it removes. -/
theorem allRecorded (hB : BookLaws S) {c'' : Contract B}
    (h : Traded S c mid m taker n referrerId r m' s c')
    (hm : MarketOk S c.prevOrderSequenceNumber m) (hfound : c.markets.lookup mid = some m)
    (hmarkets : c''.markets = c.markets.insert mid m')
    (hrec : Records taker mid r n.maxQtyLots c.accountOf c''.accountOf) (hi : AllRecorded S c) :
    AllRecorded S c'' := by
  have hmid : c''.markets.lookup mid = some m' := by rw [hmarkets, AList.lookup_insert]
  have hother : ∀ mid₁, mid₁ ≠ mid → c''.markets.lookup mid₁ = c.markets.lookup mid₁ :=
    fun mid₁ hne => by rw [hmarkets, AList.lookup_insert_ne hne]
  intro mid₁ m₁ x' hm₁ hx'
  by_cases hmm : mid₁ = mid
  swap
  · rw [hother mid₁ hmm] at hm₁
    obtain ⟨i, hinfo⟩ := hi mid₁ m₁ x' hm₁ hx'
    by_cases hid : x'.ownerId = taker
    · obtain ⟨-, he, -⟩ | ⟨-, he⟩ := hrec.taker mid₁ x'.id
      · exact absurd he hmm
      · exact ⟨i, by rw [hid, he, ← hid]; exact hinfo⟩
    · exact ⟨i, by rw [hrec.others _ hid, if_neg fun hc => hmm hc.1]; exact hinfo⟩
  subst hmm
  rw [hmid] at hm₁
  cases hm₁
  obtain ⟨hr, hid, hown, -⟩ | ⟨x, hx, hsh, hrem⟩ := h.origin hB hm hx'
  · obtain ⟨-, -, -, t, ht⟩ | ⟨hnot, -⟩ := hrec.taker mid₁ x'.id
    · exact ⟨_, hown ▸ ht⟩
    · exact absurd ⟨hr, rfl, hid⟩ hnot
  · have hxid : x'.id = x.id := by rw [hsh.1]
    have hxown : x'.ownerId = x.ownerId := by rw [hsh.1]
    rw [hxid, hxown]
    obtain ⟨i, hinfo⟩ := hi mid₁ m x hfound hx
    by_cases htk : x.ownerId = taker
    · rw [htk] at hinfo ⊢
      obtain ⟨-, -, -, t, ht⟩ | ⟨-, he⟩ := hrec.taker mid₁ x.id
      · exact ⟨_, ht⟩
      · exact ⟨i, he.trans hinfo⟩
    · refine ⟨i, ?_⟩
      rw [hrec.others _ htk, if_neg]
      · exact hinfo
      · rintro ⟨-, f, hf, -, ho, hre⟩
        exact hrem f hf ho hre

/-- A record that a trade leaves is that of the order it posts, or an old one of
    an order that no fill removed. -/
theorem record_origin (hB : BookLaws S) {c'' : Contract B}
    (h : Traded S c mid m taker n referrerId r m' s c')
    (hm : MarketOk S c.prevOrderSequenceNumber m)
    (hrec : Records taker mid r n.maxQtyLots c.accountOf c''.accountOf) {id : AccountId}
    {o : OrderId} {i : OrderInfo} {mid₁ : MarketId}
    (hinfo : (c''.accountOf id).getOrderInfo mid₁ o = some i) :
    (r.isPosted = true ∧ mid₁ = mid ∧ o = r.id ∧ id = taker ∧ i.originalSize = n.maxQtyLots) ∨
      ((c.accountOf id).getOrderInfo mid₁ o = some i ∧ (mid₁ = mid → ∀ f ∈ r.fills,
        f.makerUserId = id → f.makerOrderId = o → ¬ f.didRemoveMakerOrder = true)) := by
  by_cases hid : id = taker
  · subst hid
    obtain ⟨hr, hmm, ho, t, ht⟩ | ⟨-, he⟩ := hrec.taker mid₁ o
    · rw [ht] at hinfo
      cases hinfo
      exact .inl ⟨hr, hmm, ho, rfl, rfl⟩
    · rw [he] at hinfo
      exact .inr ⟨hinfo, fun _ f hf hmk => absurd hmk (h.maker_ne hB hm hf)⟩
  · rw [hrec.others id hid] at hinfo
    split_ifs at hinfo with hrem
    exact .inr ⟨hinfo, fun hmm f hf hmk ho hre => hrem ⟨hmm, f, hf, hmk, ho, hre⟩⟩

/-- **A trade keeps the indexes in agreement**, if the taker's account is
    saved with the order that was posted. -/
theorem indexed (hB : BookLaws S) {c'' : Contract B}
    (h : Traded S c mid m taker n referrerId r m' s c')
    (hm : MarketOk S c.prevOrderSequenceNumber m) (hfound : c.markets.lookup mid = some m)
    (hmarkets : c''.markets = c.markets.insert mid m')
    (hrec : Records taker mid r n.maxQtyLots c.accountOf c''.accountOf) (hi : Indexed S c) :
    Indexed S c'' := by
  have hmid : c''.markets.lookup mid = some m' := by rw [hmarkets, AList.lookup_insert]
  have hother : ∀ mid₁, mid₁ ≠ mid → c''.markets.lookup mid₁ = c.markets.lookup mid₁ :=
    fun mid₁ hne => by rw [hmarkets, AList.lookup_insert_ne hne]
  constructor
  · intro id mid₁ o i hinfo
    obtain ⟨hr, rfl, rfl, rfl, hsize⟩ | ⟨hold, hrem⟩ := h.record_origin hB hm hrec hinfo
    · obtain ⟨-, p, -, hperm⟩ := (h.placement hB hm).posted hr
      have hmem := hperm.mem_iff.2 (List.mem_cons_self ..)
      refine ⟨m', _, hmid, Sdk.mem_orders.2 ⟨_, hmem⟩, rfl, rfl, ?_⟩
      have hqty := (h.placement hB hm).qty
      rw [hsize]
      exact (Nat.le_add_left _ _).trans hqty
    · obtain ⟨m₁, x, hm₁, hx, rfl, rfl, hsize⟩ := hi.recorded id mid₁ o i hold
      by_cases hmm : mid₁ = mid
      · subst hmm
        rw [hfound] at hm₁
        cases hm₁
        obtain ⟨x', hx', hsh⟩ := h.survives hB hm hx fun f hf ho =>
          hrem rfl f hf (h.maker_eq hB hm hf hx ho).1 ho
        refine ⟨m', x', hmid, hx', ?_, ?_, hsh.2.trans hsize⟩
        · rw [hsh.1]
        · rw [hsh.1]
      · exact ⟨m₁, x, (hother mid₁ hmm).trans hm₁, hx, rfl, rfl, hsize⟩
  · exact h.allRecorded hB hm hfound hmarkets hrec hi.rests
  · exact hrec.limit hi.limit
  · exact hrec.tidy hi.tidy

end Traded

/-! ## The taker's account -/

/-- The orders of a market after one was recorded. -/
structure Recorded (a : Account) (mid : MarketId) (id : OrderId) (info : OrderInfo) (limit : ℕ)
    (os : OrderInfos) : Prop where
  orders : (a.openOrders.lookup mid = none ∧ os = AList.insert id info ∅) ∨
    ∃ old, a.openOrders.lookup mid = some old ∧ old.size < limit ∧ os = old.insert id info

namespace Recorded

variable {a : Account} {mid : MarketId} {id : OrderId} {info : OrderInfo} {limit : ℕ}
  {os : OrderInfos}

theorem getOrderInfo (h : Recorded a mid id info limit os) (m : MarketId) (o : OrderId) :
    (a.setOrders mid os).getOrderInfo m o =
      if m = mid ∧ o = id then some info else a.getOrderInfo m o := by
  unfold Account.getOrderInfo Account.setOrders
  rw [HMap.lookup_insert_eq]
  by_cases hm : m = mid
  · subst hm
    obtain ⟨hnone, rfl⟩ | ⟨old, hold, -, rfl⟩ := h.orders
    · simp only [if_true, Option.bind_some, HMap.lookup_insert_eq, true_and, hnone,
        Option.bind_none]
      rfl
    · simp only [if_true, Option.bind_some, HMap.lookup_insert_eq, true_and, hold]
  · rw [if_neg hm, if_neg fun hc => hm hc.1]

theorem keys_ne_nil (h : Recorded a mid id info limit os) : os.keys ≠ [] := by
  intro hnil
  have hnone := (HMap.keys_eq_nil_iff _).1 hnil id
  obtain ⟨-, rfl⟩ | ⟨old, -, -, rfl⟩ := h.orders
  · rw [AList.lookup_insert] at hnone; cases hnone
  · rw [AList.lookup_insert] at hnone; cases hnone

theorem tidy (h : Recorded a mid id info limit os) (ht : a.Tidy) : (a.setOrders mid os).Tidy := by
  intro m os' hm
  rw [Account.setOrders, HMap.lookup_insert_eq] at hm
  split_ifs at hm
  · cases hm
    exact h.keys_ne_nil
  · exact ht m os' hm

theorem ordersIn_le (h : Recorded a mid id info limit os) (hpos : 0 < limit)
    (hl : ∀ m, a.ordersIn m ≤ limit) (m : MarketId) : (a.setOrders mid os).ordersIn m ≤ limit := by
  rw [Account.ordersIn, Account.setOrders, HMap.lookup_insert_eq]
  split_ifs
  · obtain ⟨-, rfl⟩ | ⟨old, -, hlt, rfl⟩ := h.orders
    · exact (HMap.size_insert_le _ _ _).trans hpos
    · exact (HMap.size_insert_le _ _ _).trans hlt
  · exact hl m

end Recorded

theorem OrderRun.accountOf_eq {env : Env} {mid : MarketId} {p : NewOrderParams}
    {r : PlaceOrderResult} (h : OrderRun S env c mid p r c') (id : AccountId) :
    c'.accountOf id = if id = env.predecessorAccountId then h.done.takerAccount
      else h.done.contract.accountOf id := by
  have hc : c'.accountOf = (h.done.contract.putAccount env.predecessorAccountId
      h.done.takerAccount).accountOf := (congrArg Contract.accountOf h.state).trans rfl
  rw [hc, accountOf_putAccount]

/-- The taker's account is saved as it is after paying, or with the order that
    was posted. -/
theorem OrderRun.takerAccount_cases (hB : BookLaws S) {env : Env} {mid : MarketId}
    {p : NewOrderParams} {r : PlaceOrderResult} (h : OrderRun S env c mid p r c')
    (hm : MarketOk S c.prevOrderSequenceNumber h.m) :
    (h.done.result.isPosted = false ∧ h.done.takerAccount = h.path.paid) ∨
      (h.done.result.isPosted = true ∧ ∃ os t,
        h.done.takerAccount = h.path.paid.setOrders mid os ∧
        Recorded h.path.paid mid h.done.result.id ⟨h.path.n.maxQtyLots, t⟩ defaultMaxOrders
          os) := by
  by_cases ht : p.orderType = .market
  · refine .inl ⟨?_, (h.path.market ht).2.2⟩
    by_contra hpost
    exact ((h.path.traded.placement hB hm).posted (Bool.not_eq_false _ ▸ hpost)).1
      (h.path.type.trans ht)
  · obtain ⟨_, -, -, -, -, hsave⟩ := h.path.limit ht
    obtain he | ⟨hr, os, he, hos⟩ := savePosted_ok hsave
    · exact .inl he
    · exact .inr ⟨hr, os, _, he, ⟨hm.maxOrders ▸ hos⟩⟩

/-- What an order records. -/
theorem OrderRun.records (hB : BookLaws S) {env : Env} {mid : MarketId} {p : NewOrderParams}
    {r : PlaceOrderResult} (h : OrderRun S env c mid p r c')
    (hm : MarketOk S c.prevOrderSequenceNumber h.m) :
    Traded.Records env.predecessorAccountId mid h.done.result h.path.n.maxQtyLots c.accountOf
      c'.accountOf := by
  have hold : c.accountOf env.predecessorAccountId = h.a := accountOf_of_lookup h.account
  have hpaid : h.path.paid.openOrders = (c.accountOf env.predecessorAccountId).openOrders := by
    rw [hold, h.path.takerPaid.openOrders]
  obtain ⟨hpinfo, hpin, hptidy⟩ := index_congr hpaid
  have htaker := h.takerAccount_cases hB hm
  have hself : c'.accountOf env.predecessorAccountId = h.done.takerAccount := by
    rw [h.accountOf_eq, if_pos rfl]
  have hother : ∀ id, id ≠ env.predecessorAccountId →
      c'.accountOf id = h.done.contract.accountOf id := fun id hid => by
    rw [h.accountOf_eq, if_neg hid]
  constructor
  · intro id hid m₁ o
    rw [hother id hid, (index_congr (h.path.traded.openOrders_eq id)).1]
    exact getOrderInfo_fillsOf m₁ o _ _
  · intro m₁ o
    rw [hself]
    obtain ⟨hr, he⟩ | ⟨hr, os, t, he, hrec⟩ := htaker
    · refine .inr ⟨fun hc => ?_, by rw [he, hpinfo]⟩
      rw [hr] at hc
      exact Bool.false_ne_true hc.1
    · rw [he, hrec.getOrderInfo, hpinfo]
      by_cases hmo : m₁ = mid ∧ o = h.done.result.id
      · exact .inl ⟨hr, hmo.1, hmo.2, t, if_pos hmo⟩
      · exact .inr ⟨fun hc => hmo hc.2, if_neg hmo⟩
  · intro hl id m₁
    by_cases hid : id = env.predecessorAccountId
    · subst hid
      rw [hself]
      obtain ⟨-, he⟩ | ⟨-, os, t, he, hrec⟩ := htaker
      · rw [he, hpin]
        exact hl _ m₁
      · rw [he]
        refine hrec.ordersIn_le (by decide) (fun m => ?_) m₁
        rw [hpin]
        exact hl _ m
    · rw [hother id hid, (index_congr (h.path.traded.openOrders_eq id)).2.1]
      exact (ordersIn_fillsOf_le id _ _ m₁).trans (hl id m₁)
  · intro ht id
    by_cases hid : id = env.predecessorAccountId
    · subst hid
      rw [hself]
      obtain ⟨-, he⟩ | ⟨-, os, t, he, hrec⟩ := htaker
      · rw [he]
        exact hptidy (ht _)
      · rw [he]
        exact hrec.tidy (hptidy (ht _))
    · rw [hother id hid]
      exact (index_congr (h.path.traded.openOrders_eq id)).2.2 (tidy_fillsOf id _ (ht id))

theorem HopRun.accountOf_eq {env : Env} {swap : SwapAction} {token : TokenType} {amount : ℕ}
    {out : SwapResult} (h : HopRun S env c swap token amount out c') (id : AccountId) :
    c'.accountOf id = h.settled.accountOf id :=
  congrFun ((congrArg Contract.accountOf h.state).trans rfl) id

/-- A hop records nothing. -/
theorem HopRun.records (hB : BookLaws S) {env : Env} {swap : SwapAction} {token : TokenType}
    {amount : ℕ} {out : SwapResult} (h : HopRun S env c swap token amount out c')
    (hm : MarketOk S c.prevOrderSequenceNumber h.m) :
    Traded.Records env.signerAccountId swap.marketId h.r h.n.maxQtyLots c.accountOf
      c'.accountOf := by
  have hnot : ¬ h.r.isPosted = true := by
    intro hpost
    exact ((h.traded.placement hB hm).posted hpost).1 h.type
  constructor
  · intro id _ m₁ o
    rw [h.accountOf_eq, (index_congr (h.traded.openOrders_eq id)).1]
    exact getOrderInfo_fillsOf m₁ o _ _
  · intro m₁ o
    refine .inr ⟨fun hc => hnot hc.1, ?_⟩
    rw [h.accountOf_eq, (index_congr (h.traded.openOrders_eq _)).1, getOrderInfo_fillsOf, if_neg]
    rintro ⟨-, f, hf, hmk, -, -⟩
    exact h.traded.maker_ne hB hm hf hmk
  · intro hl id m₁
    rw [h.accountOf_eq, (index_congr (h.traded.openOrders_eq id)).2.1]
    exact (ordersIn_fillsOf_le id _ _ m₁).trans (hl id m₁)
  · intro ht id
    rw [h.accountOf_eq]
    exact (index_congr (h.traded.openOrders_eq id)).2.2 (tidy_fillsOf id _ (ht id))

/-! ## Cancellations -/

namespace CancelRun

variable {mid : MarketId} {owner : AccountId} {ids : List OrderId}

/-- Refunds forget orders. -/
theorem getOrderInfo_refunds (m : Market B) (m₁ : MarketId) (o : OrderId) :
    ∀ (xs : List OpenLimitOrder) (a : Account),
      (xs.foldl (refund S m mid) a).getOrderInfo m₁ o =
        if m₁ = mid ∧ o ∈ xs.map OpenLimitOrder.id then none else a.getOrderInfo m₁ o
  | [], a => by simp
  | x :: xs, a => by
    rw [List.foldl_cons, getOrderInfo_refunds m m₁ o xs, getOrderInfo_refund, List.map_cons]
    by_cases hm : m₁ = mid
    · by_cases ho : o = x.id
      · simp [hm, ho]
      · simp [hm, ho]
    · simp [hm]

theorem index_refunds (m : Market B) (xs : List OpenLimitOrder) {a : Account} (ht : a.Tidy) :
    (xs.foldl (refund S m mid) a).Tidy ∧
      ∀ m₁, (xs.foldl (refund S m mid) a).ordersIn m₁ ≤ a.ordersIn m₁ := by
  induction xs generalizing a with
  | nil => exact ⟨ht, fun _ => le_rfl⟩
  | cons x xs ih =>
    obtain ⟨h1, h2⟩ := ih (a := refund S m mid a x) (Account.tidy_forget (a := a.credit _ _) ht)
    exact ⟨h1, fun m₁ => (h2 m₁).trans (Account.ordersIn_forget_le (a := a.credit _ _))⟩

theorem accountOf_eq (h : CancelRun S c mid owner ids c') (id : AccountId) :
    c'.accountOf id = if id = owner then
      (h.results.map CancelOrderResult.order).foldl (refund S h.m mid) h.kept
      else c.accountOf id := by
  have hc : c'.accountOf = ((c.internalSaveMarket mid h.market).putAccount owner
      ((h.results.map CancelOrderResult.order).foldl (refund S h.m mid) h.kept)).accountOf :=
    congrArg Contract.accountOf h.result
  rw [hc, accountOf_putAccount]
  rfl

/-- A cancellation forgets the cancelled orders. -/
theorem getOrderInfo_eq (hB : BookLaws S) (hK : KeysLaw S) (h : CancelRun S c mid owner ids c')
    (hm : MarketOk S c.prevOrderSequenceNumber h.m) (id : AccountId) (m₁ : MarketId)
    (o : OrderId) : (c'.accountOf id).getOrderInfo m₁ o =
      if id = owner ∧ m₁ = mid ∧ o ∈ ids then none else (c.accountOf id).getOrderInfo m₁ o := by
  rw [h.accountOf_eq]
  by_cases hid : id = owner
  · subst hid
    have hsub : o ∈ (h.results.map CancelOrderResult.order).map OpenLimitOrder.id → o ∈ ids := by
      intro ho
      obtain ⟨x, hx, rfl⟩ := List.mem_map.1 ho
      exact of_decide_eq_true (List.mem_filter.1 ((h.cancelled_perm hB hm).mem_iff.1 hx)).2
    rw [if_pos rfl, getOrderInfo_refunds, h.forgets.getOrderInfo hK,
      accountOf_of_lookup h.account]
    by_cases hmo : m₁ = mid ∧ o ∈ ids
    · simp [hmo.1, hmo.2]
    · have hno : ¬ (m₁ = mid ∧
          o ∈ (h.results.map CancelOrderResult.order).map OpenLimitOrder.id) :=
        fun hc => hmo ⟨hc.1, hsub hc.2⟩
      rw [if_neg hno, if_neg hmo, if_neg fun hc => hmo hc.2]
  · rw [if_neg hid, if_neg fun hc => hid hc.1]

/-- A cancellation forgets only orders that it takes off the book. -/
theorem allRecorded (hB : BookLaws S) (hK : KeysLaw S) (h : CancelRun S c mid owner ids c')
    (hm : MarketOk S c.prevOrderSequenceNumber h.m) (hi : AllRecorded S c) : AllRecorded S c' := by
  have hmarkets : c'.markets = c.markets.insert mid h.market :=
    congrArg Contract.markets h.result
  intro m₁ m x hm₁ hx
  rw [h.getOrderInfo_eq hB hK hm]
  rw [hmarkets, HMap.lookup_insert_eq] at hm₁
  split_ifs at hm₁ with hmm
  · subst hmm
    cases hm₁
    rw [market, h.orders hB hm, List.mem_filter] at hx
    rw [if_neg fun hc => of_decide_eq_true hx.2 hc.2.2]
    exact hi m₁ h.m x h.found hx.1
  · rw [if_neg fun hc => hmm hc.2.1]
    exact hi m₁ m x hm₁ hx

/-- **Cancelling keeps the indexes in agreement.** -/
theorem indexed (hB : BookLaws S) (hK : KeysLaw S) (h : CancelRun S c mid owner ids c')
    (hm : MarketOk S c.prevOrderSequenceNumber h.m) (hi : Indexed S c) : Indexed S c' := by
  have hmarkets : c'.markets = c.markets.insert mid h.market :=
    congrArg Contract.markets h.result
  have hmid : c'.markets.lookup mid = some h.market := by rw [hmarkets, AList.lookup_insert]
  have hother : ∀ mid₁, mid₁ ≠ mid → c'.markets.lookup mid₁ = c.markets.lookup mid₁ :=
    fun mid₁ hne => by rw [hmarkets, AList.lookup_insert_ne hne]
  have hbook : S.orders h.market.orderbook = (S.orders h.m.orderbook).filter (·.id ∉ ids) :=
    h.orders hB hm
  have hown := h.getOrderInfo_eq hB hK hm
  constructor
  · intro id m₁ o i hinfo
    rw [hown] at hinfo
    split_ifs at hinfo with hgone
    obtain ⟨m, x, hm₁, hx, rfl, rfl, hsize⟩ := hi.recorded id m₁ o i hinfo
    by_cases hmm : m₁ = mid
    · subst hmm
      rw [h.found] at hm₁
      cases hm₁
      refine ⟨h.market, x, hmid, ?_, rfl, rfl, hsize⟩
      rw [hbook, List.mem_filter]
      refine ⟨hx, decide_eq_true fun hmem => ?_⟩
      -- the cancelled orders are all of `owner`
      obtain ⟨-, hrec⟩ := h.forgets.recorded hK
      obtain ⟨j, hj⟩ := hrec x.id hmem
      rw [← accountOf_of_lookup h.account] at hj
      obtain ⟨m₂, y, hm₂, hy, hyid, hyown, -⟩ := hi.recorded owner m₁ x.id j hj
      rw [h.found] at hm₂
      cases hm₂
      obtain rfl : y = x := List.inj_on_of_nodup_map hm.nodup hy hx hyid
      exact hgone ⟨hyown, rfl, hmem⟩
    · exact ⟨m, x, (hother m₁ hmm).trans hm₁, hx, rfl, rfl, hsize⟩
  · exact h.allRecorded hB hK hm hi.rests
  · intro id m₁
    rw [h.accountOf_eq]
    split_ifs with hid
    · have hacc := accountOf_of_lookup h.account
      have ht := h.forgets.tidy (hacc ▸ hi.tidy owner)
      refine ((index_refunds h.m _ ht).2 m₁).trans ((h.forgets.ordersIn_le m₁).trans ?_)
      exact hacc ▸ hi.limit owner m₁
    · exact hi.limit id m₁
  · intro id
    rw [h.accountOf_eq]
    split_ifs with hid
    · have hacc := accountOf_of_lookup h.account
      exact (index_refunds h.m _ (h.forgets.tidy (hacc ▸ hi.tidy owner))).1
    · exact hi.tidy id

end CancelRun

/-! ## All effects -/

/-- A market with resting orders is deleted. -/
def Effect.Strands (S : Sdk B) (c : Contract B) : Effect B → Prop
  | delete mid => ∃ m, c.markets.lookup mid = some m ∧ S.orders m.orderbook ≠ []
  | _ => False

/-- Only trades and cancellations change records, or books that stay. -/
def Effect.Reindexes : Effect B → Prop
  | order .. | hop .. | cancel .. => True
  | _ => False

theorem Does.openOrders_eq (h : Does S c e c') (hno : ¬ e.Reindexes) (id : AccountId) :
    (c'.accountOf id).openOrders = (c.accountOf id).openOrders := by
  have put : ∀ {id₁ a}, a.openOrders = (c.accountOf id₁).openOrders →
      ((c.putAccount id₁ a).accountOf id).openOrders = (c.accountOf id).openOrders := by
    intro id₁ a ha
    rw [accountOf_putAccount]
    split_ifs with hid
    · rw [hid, ha]
    · rfl
  cases h with
  | credit found covered => exact put (by rw [accountOf_of_lookup found]; rfl)
  | debit found paid covered =>
    refine put ?_
    rw [accountOf_of_lookup found, ← (Account.withdraw_eq_ok.1 paid).2]
    rfl
  | storage found sum covered =>
    refine put ?_
    obtain he | ⟨he, rfl⟩ := found
    · rw [accountOf_of_lookup he]
    · rw [Contract.accountOf, he]; rfl
  | @unregister id₁ a found empty =>
    rw [Contract.accountOf, HMap.lookup_erase_eq]
    split_ifs with hid
    · subst hid
      simp only [Account.isEmpty, Bool.and_eq_true, List.isEmpty_iff] at empty
      rw [accountOf_of_lookup found]
      exact (AList.ext (List.map_eq_nil_iff.1 empty.2)).symm
    · rfl
  | order | hop | cancel => exact absurd trivial hno
  | create | delete | setState | setWindow | decimals | admin => rfl

theorem Moves.book_eq {mid : MarketId} {m m' : Market B} (h : Moves S mid m e m')
    (hno : ¬ e.Reindexes) : m'.orderbook = m.orderbook := by
  cases h with
  | matched trades =>
    obtain ⟨_, _, _, rfl⟩ | ⟨_, _, _, _, _, _, rfl, -⟩ := trades <;> exact absurd trivial hno
  | cancelled => exact absurd trivial hno
  | @decimals side => cases side <;> rfl
  | kept | state | window => rfl

theorem Does.book_eq (hB : BookLaws S) (h : Does S c e c') (hc : BooksOk S c)
    (hno : ¬ e.Reindexes) {mid : MarketId} {m' : Market B}
    (hm' : c'.markets.lookup mid = some m') (hne : S.orders m'.orderbook ≠ []) :
    ∃ m, c.markets.lookup mid = some m ∧ m.orderbook = m'.orderbook := by
  obtain ⟨m, hm, hmove⟩ := h.book_origin hB hc hm' hne
  exact ⟨m, hm, (hmove.book_eq hno).symm⟩

/-- **Every effect keeps resting orders recorded.** -/
theorem Does.allRecorded (hB : BookLaws S) (hK : KeysLaw S) (h : Does S c e c')
    (hc : BooksOk S c) (hi : AllRecorded S c) : AllRecorded S c' := by
  by_cases hno : e.Reindexes
  · cases h with
    | order run =>
      have hm := hc _ _ run.found
      exact run.path.traded.allRecorded hB hm run.found run.markets_eq (run.records hB hm) hi
    | hop run =>
      have hm := hc _ _ run.found
      exact run.traded.allRecorded hB hm run.found run.markets_eq (run.records hB hm) hi
    | cancel run => exact run.allRecorded hB hK (hc _ _ run.found) hi
    | _ => exact hno.elim
  · exact hi.of_same (h.openOrders_eq hno) fun _ _ => h.book_eq hB hc hno

theorem allRecorded_of_reach (hB : BookLaws S) (hK : KeysLaw S)
    {ok : System B → Event → Prop} {s : System B} (hs : System.Reach S ok s) :
    AllRecorded S s.contract := by
  have h := reach_invariant (P := fun c => BooksOk S c ∧ AllRecorded S c) hB
    (fun _ => ⟨fun _ _ h => (by cases h), fun _ _ _ h => (by cases h)⟩)
    (fun _ _ _ he h => ⟨he.booksOk hB h.1, he.allRecorded hB hK h.1 h.2⟩) hs
  exact h.2

/-- **Every effect but the deletion of a book keeps the indexes in agreement.** -/
theorem Does.indexed (hB : BookLaws S) (hK : KeysLaw S) (h : Does S c e c') (hc : BooksOk S c)
    (hok : ¬ e.Strands S c) (hi : Indexed S c) : Indexed S c' := by
  by_cases hno : e.Reindexes
  · cases h with
    | order run =>
      have hm := hc _ _ run.found
      exact run.path.traded.indexed hB hm run.found run.markets_eq (run.records hB hm) hi
    | hop run =>
      have hm := hc _ _ run.found
      exact run.traded.indexed hB hm run.found run.markets_eq (run.records hB hm) hi
    | cancel run => exact run.indexed hB hK (hc _ _ run.found) hi
    | _ => exact hno.elim
  · refine hi.of_same (h.openOrders_eq hno) (fun mid m hm hne => ?_)
      fun _ _ => h.book_eq hB hc hno
    obtain ⟨rfl, -, -⟩ | ⟨m', hm', hmove⟩ := h.market_cases hB hc hm
    · exact absurd ⟨m, hm, hne⟩ hok
    · exact ⟨m', hm', hmove.book_eq hno⟩

end TonicDex
