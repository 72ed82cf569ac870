/-
  The libraries the contract is built on, in the small.

  `sdk` puts the order book together with token keys, sizes and prices of
  storage.  It satisfies everything the contract relies on: `bookLaws`, `matchLaw`,
  `postLaw`, `panicLaw`, `idLaw`, `tokenLaws`, `sizeLaws` and `keysLaw`.  So the
  contract can be run: `run` leads from a new contract through a list of events.
-/
import Mathlib.Data.List.Nodup
import Mathlib.Data.List.SplitBy
import Mathlib.Data.List.TakeWhile
import TonicDex.Engine.Book
import TonicDex.Lib.Separated
import TonicDex.Model.Events
import TonicDex.Model.Views

namespace TonicDex.Engine

/-! ## Token keys -/

def tokenKey : TokenType → String
  | .nativeNear => "NEAR"
  | .fungibleToken a => "ft:" ++ a.name
  | .multiFungibleToken a t => "mft:" ++ a.name ++ ":" ++ t

def readAccount (cs : List Char) : Call AccountId :=
  let s := String.ofList cs
  if h : 2 ≤ s.length ∧ s.length ≤ 64 ∧ s.toList.all validChar = true then return ⟨s, h⟩
  else throw (.sdk "invalid account id")

/-- Read a key, whose parts stand between colons.  What follows one colon too many
    is not read. -/
def readKey : List Char → Call TokenType
  | ['N', 'E', 'A', 'R'] => return .nativeNear
  | 'f' :: 't' :: ':' :: cs => do
    let a ← readAccount (cs.takeWhile (· ≠ ':'))
    return .fungibleToken a
  | 'm' :: 'f' :: 't' :: ':' :: cs => do
    let a ← readAccount (cs.takeWhile (· ≠ ':'))
    match cs.dropWhile (· ≠ ':') with
    | ':' :: t => return .multiFungibleToken a (String.ofList (t.takeWhile (· ≠ ':')))
    | _ => throw (.sdk "invalid token")
  | _ => throw (.sdk "invalid token")

def fromKey (k : String) : Call TokenType := readKey k.toList

theorem account_ext {a a' : AccountId} (h : a.name.toList = a'.name.toList) : a = a' := by
  cases a
  cases a'
  exact (AccountId.mk.injEq ..).mpr (String.toList_inj.1 h)

/-- The keys of different tokens differ: the account ends at the first colon. -/
theorem tokenKey_injective : Function.Injective tokenKey := by
  intro t t' h
  rw [← String.toList_inj] at h
  cases t <;> cases t' <;>
    simp only [tokenKey, String.toList_append, String.reduceToList, List.cons_append,
      List.nil_append, List.cons.injEq, Char.reduceEq, false_and, true_and,
      List.append_assoc] at h ⊢
  · rw [account_ext h]
  · obtain ⟨ha, ht⟩ := Separated.first (AccountId.notMem_name _ (by decide))
      (AccountId.notMem_name _ (by decide)) h
    rw [account_ext ha, String.toList_inj.1 ht]

/-- A token id that was read from a key has no colon. -/
theorem colon_notMem_of_fromKey {k t : String} {a : AccountId}
    (h : fromKey k = .ok (.multiFungibleToken a t)) : ':' ∉ t.toList := by
  unfold fromKey readKey at h
  split at h
  · cases h
  · simp only [Checked.bind_eq_ok, Checked.pure_eq_ok, reduceCtorEq, and_false,
      exists_false] at h
  · simp only [Checked.bind_eq_ok] at h
    obtain ⟨_, -, h⟩ := h
    split at h
    · cases h
      rw [String.toList_ofList]
      intro hc
      have := List.mem_takeWhile_imp hc
      simp at this
    · cases h
  · cases h

/-! ## Sizes -/

/-- A map entry: the length and bytes of its key, and a balance. -/
def entrySize (k : String) : ℕ := 4 + k.utf8ByteSize + 16

def balancesSize (m : HMap String ℕ) : ℕ := 4 + HMap.total m fun k _ => entrySize k

/-! ## The libraries -/

/-- A token id that is longer than an account id can be. -/
def edition : String :=
  "edition-24d7f03d8dc3c3666969e6fa5bb1fac4736d3f1353c28307ed51b320f9dc42d3/" ++
    "6b86b273ff34fce19d6b804eff5a3f57"

/-- SHA-256 of the texts that the runs below hash. -/
def sha256 (text : String) : MarketId :=
  if text = "tonic.near ft:btc.near 1 ft:usd.near 10" then
    0x30697c22d895fdab757d94d1883ef1655f4095696fb3186e437781d463672534#256
  else if text = "tonic.near ft:btc.near 1 ft:usd.near 100" then
    0x79a9e477a7abc8be89b1b5aec71971d881781788f60adc2700aecc63d5984b46#256
  else if text = "tonic.near mft:game.near:gold 1 ft:usd.near 1" then
    0x2822e96ebb24115d29484af8aafe8bfde8757a2199c1ae66a8b5f5836eb6599d#256
  else if text = "tonic.near ft:btc.near 1 mft:game.near:" ++ edition ++ " 1" then
    0x615fc0d4beb9e8c1b6c532b761efc9e0a133e8c11e6b6294f9bbe69082d9e443#256
  else if text = "tonic.near ft:usd.near 1 ft:usd.near 10" then
    0x41f5bf037354b6264a837610eb92dd0eaf2b63927e5eebb4a1bfc1beca2f1321#256
  else 0#256

def tonic : AccountId := ⟨"tonic.near", by decide⟩

def sdk : Sdk Book where
  key := tokenKey
  fromKey := fromKey
  sha256 := sha256
  currentAccountId := tonic
  storageByteCost := 10 ^ 19
  balancesBorshSize := balancesSize
  entryBorshSize := entrySize
  hashSetOverhead := 4
  intoKeys := AList.keys
  emptyBook := .empty
  bids := Book.bids
  asks := Book.asks
  findBbo := findBbo
  getOrder := getOrder
  placeOrder := placeOrder
  cancelOrder := cancelOrder
  cancelOrders := cancelOrders
  seqOf := fun id => id

theorem tokenLaws : TokenLaws sdk := ⟨tokenKey_injective⟩

theorem sizeLaws : SizeLaws sdk where
  insert_new := by
    intro m k v h
    have := HMap.total_insert_add m (fun k _ => entrySize k) k v
    rw [h] at this
    simp only [sdk, balancesSize, Option.elim_none] at this ⊢
    omega
  insert_old := by
    intro m k v x h
    have hm : HMap.total (m.insert k v) (fun k _ => entrySize k) = HMap.total m _ :=
      HMap.total_insert_same h rfl
    simp only [sdk, balancesSize, hm]
  erase := by
    intro m k x h
    have := HMap.total_erase_add m (fun k _ => entrySize k) k
    rw [h] at this
    simp only [sdk, balancesSize, Option.elim_some] at this ⊢
    omega
  entry := fun _ => Nat.le_refl _

theorem keysLaw : KeysLaw sdk := fun _ => List.Perm.refl _

/-! ## The book -/

@[simp] theorem resting_eq (b : Book) (side : Side) : sdk.resting b side = b.side side := by
  cases side <;> rfl

theorem orders_eq (b : Book) : sdk.orders b = b.orders := rfl

theorem side_nodup {b : Book} (hn : (sdk.ids b).Nodup) (side : Side) :
    ((b.side side).map OpenLimitOrder.id).Nodup :=
  resting_eq b side ▸ Sdk.resting_nodup hn side

theorem fills_within {taker : AccountId} {n : NewOrder} {q : ℕ}
    (hq : n.availableQuoteLots = some q) (b : Book) :
    ((matching.fills taker n b).map Match.nativeQuotePaid).sum ≤ q * n.quoteLotSize := by
  unfold Matching.fills
  split_ifs
  · exact Nat.zero_le _
  · have hle := paid_sweep_le taker (hq ▸ Option.some_ne_none q) (b.side n.side.opposite) []
    rw [budget, hq] at hle
    exact hle

theorem swept_fills {b : Book} (hn : (sdk.ids b).Nodup) (taker : AccountId) (n : NewOrder) :
    Swept taker n [] (b.side n.side.opposite) (matching.fills taker n b) := by
  unfold Matching.fills
  split_ifs
  · exact ⟨⟨_, .nil _⟩, Nat.zero_le _⟩
  · exact swept taker n _ [] (side_nodup hn _)

theorem placed {b b' : Book} {taker : AccountId} {n : NewOrder} {r : PlaceOrderResult}
    (hn : (sdk.ids b).Nodup) (h : placeOrder b taker n = .ok (r, b')) :
    Placed sdk b taker n r b' := by
  obtain ⟨⟨rest, hused⟩, hqty⟩ := swept_fills hn taker n
  have hran := ran h
  have hbudget : ∀ q, n.availableQuoteLots = some q →
      (r.fills.map Match.nativeQuotePaid).sum ≤ q * n.quoteLotSize :=
    fun q hq => hran.fills ▸ fills_within hq b
  obtain rfl := hused.eq_foldl
  rw [← hran.fills] at hused hqty
  rw [List.map_nil, List.sum_nil, Nat.sub_zero] at hqty
  rcases hp : r.isPosted with _ | _
  · obtain ⟨hopen, rfl⟩ := hran.dropped hp
    exact ⟨hran.id, by simpa [Book.used] using hused, by simp [hp],
      fun _ => ⟨hopen, by simp [Book.used]⟩, by omega, hbudget⟩
  · obtain ⟨htype, hopen, -, p, hlimit, rfl⟩ := hran.posted hp
    refine ⟨hran.id, by simpa [Book.used] using hused, fun _ => ⟨?_, p, hlimit, ?_⟩,
      by simp [hp], ?_, hbudget⟩
    · intro hm
      simp [rests, hm] at htype
    · simpa [Book.used] using queue_perm _ _
    · rw [hopen, left]
      omega

theorem matchLaw : MatchLaw sdk matching where
  queue := by
    intro b side
    rw [resting_eq]
    exact List.Perm.refl _
  rejects := by
    intro n fs h
    change rejects n fs = true at h
    unfold rejects at h
    split at h
    · next htype => exact .inl htype
    · next htype => exact .inr htype
    · cases h
  budget := fun hq => fills_within hq _
  fills := fun h => (ran h).fills

theorem bestPrice_mem {b : Book} {side : Side} {p : ℕ} (h : b.bestPrice side = some p) :
    ∃ o ∈ b.orders, o.limitPriceLots = p := by
  obtain ⟨o, ho, hp⟩ := Option.map_eq_some_iff.1 h
  have hside : o ∈ sdk.resting b side := by
    rw [resting_eq]
    exact List.mem_of_mem_head? ho
  exact ⟨o, Sdk.mem_orders.2 ⟨side, hside⟩, hp⟩

/-- What is reported of a book is reported of the book before an order left it. -/
theorem reportsPrices_of_drop {b : Book} {id : OrderId} {r : CancelOrderResult}
    (h : sdk.ReportsPrices (b.drop id) r) : sdk.ReportsPrices b r := by
  intro p hp
  obtain ⟨o, ho, hprice⟩ := h p hp
  rw [orders_eq, orders_drop] at ho
  exact ⟨o, List.mem_of_mem_filter ho, hprice⟩

theorem cancelled {b : Book} {o : OpenLimitOrder} (hn : (sdk.ids b).Nodup) (ho : o ∈ b.orders) :
    ∃ r, cancelOrder b o.id = (some r, b.drop o.id) ∧ r.order = o ∧ sdk.ReportsPrices b r := by
  have hget : getOrder b o.id = some o := (mem_getOrder hn).2 ⟨ho, rfl⟩
  unfold cancelOrder
  rw [hget]
  refine ⟨_, rfl, rfl, ?_⟩
  have hprices : sdk.ReportsPrices (b.drop o.id) ⟨o, (b.side o.side).findIdx fun x => decide
      (x.id = o.id), (b.drop o.id).bestPrice .buy, (b.drop o.id).bestPrice .sell⟩ :=
    fun p hp => hp.elim bestPrice_mem bestPrice_mem
  exact reportsPrices_of_drop hprices

theorem ids_drop (b : Book) (id : OrderId) :
    sdk.ids (b.drop id) = (sdk.ids b).filter (· ≠ id) := by
  simp only [Sdk.ids, orders_eq, orders_drop, List.filter_map]
  rfl

/-- Cancelling a list of orders cancels the first and then the others. -/
theorem cancelOrders_cons {id : OrderId} {ids : List OrderId} {b b' : Book}
    {rs : List CancelOrderResult} (h : cancelOrders b (id :: ids) = .ok (rs, b')) :
    ∃ r b₁ rs', cancelOrder b id = (some r, b₁) ∧ cancelOrders b₁ ids = .ok (rs', b') ∧
      rs = r :: rs' := by
  unfold cancelOrders at h
  rcases hc : cancelOrder b id with ⟨_ | r, b₁⟩
  · rw [hc] at h
    cases h
  · rw [hc] at h
    simp only [Checked.bind_eq_ok, Checked.pure_eq_ok] at h
    obtain ⟨⟨rs', b₂⟩, hrest, he⟩ := h
    cases he
    exact ⟨r, b₁, rs', rfl, hrest, rfl⟩

/-- Cancelling a list of orders is cancelling one after the other. -/
theorem cancelEach_of_cancelOrders : ∀ {ids : List OrderId} {b b' : Book}
    {rs : List CancelOrderResult}, cancelOrders b ids = .ok (rs, b') →
      sdk.cancelEach b ids = (rs.map CancelOrderResult.order, b')
  | [], _, _, _, h => by cases h; rfl
  | id :: ids, b, b', rs, h => by
    obtain ⟨r, b₁, rs', hc, hrest, rfl⟩ := cancelOrders_cons h
    have ih := cancelEach_of_cancelOrders hrest
    have hs : sdk.cancelOrder b id = (some r, b₁) := hc
    simp only [Sdk.cancelEach, hs, ih]
    rfl

theorem cancelOrders_prices : ∀ {ids : List OrderId} {b b' : Book} {rs : List CancelOrderResult},
    (sdk.ids b).Nodup → cancelOrders b ids = .ok (rs, b') → ∀ r ∈ rs, sdk.ReportsPrices b r
  | [], _, _, _, _, h, r, hr => by
    cases h
    cases hr
  | id :: ids, b, b', rs, hn, h, r, hr => by
    obtain ⟨r₁, b₁, rs', hc, hrest, rfl⟩ := cancelOrders_cons h
    rcases hget : getOrder b id with _ | o
    · unfold cancelOrder at hc
      rw [hget] at hc
      cases hc
    obtain ⟨ho, rfl⟩ := (mem_getOrder hn).1 hget
    obtain ⟨r₂, hc₂, -, hprices⟩ := cancelled hn ho
    cases hc₂.symm.trans hc
    rcases List.mem_cons.1 hr with rfl | hr
    · exact hprices
    · have hn' : (sdk.ids (b.drop o.id)).Nodup := ids_drop b o.id ▸ hn.filter _
      exact reportsPrices_of_drop (cancelOrders_prices hn' hrest r hr)

/-- Distinct resting orders can all be cancelled. -/
theorem cancelOrders_resting : ∀ {ids : List OrderId} {b : Book}, (sdk.ids b).Nodup →
    ids.Nodup → (∀ id ∈ ids, id ∈ sdk.ids b) → ∃ r, cancelOrders b ids = .ok r
  | [], b, _, _, _ => ⟨([], b), rfl⟩
  | id :: ids, b, hn, hids, hmem => by
    rw [List.nodup_cons] at hids
    obtain ⟨o, ho, rfl⟩ := Sdk.mem_ids.1 (hmem id List.mem_cons_self)
    obtain ⟨r, hc, -⟩ := cancelled hn ho
    have hrest : ∀ id ∈ ids, id ∈ sdk.ids (b.drop o.id) := by
      intro id hid
      rw [ids_drop, List.mem_filter]
      refine ⟨hmem id (List.mem_cons_of_mem _ hid), decide_eq_true ?_⟩
      rintro rfl
      exact hids.1 hid
    have hn' : (sdk.ids (b.drop o.id)).Nodup := ids_drop b o.id ▸ hn.filter _
    obtain ⟨⟨rs, b'⟩, h⟩ := cancelOrders_resting hn' hids.2 hrest
    refine ⟨(r :: rs, b'), ?_⟩
    unfold cancelOrders
    rw [hc]
    simp only [h, Checked.ok_bind]
    rfl

theorem bookLaws : BookLaws sdk where
  empty := by
    intro side
    cases side <;> rfl
  bbo_mem := by
    intro b side o h
    rw [resting_eq]
    exact List.mem_of_mem_head? h
  bbo_none := by
    intro b side
    rw [resting_eq]
    exact List.head?_eq_none_iff
  getOrder := mem_getOrder
  place := fun hn _ h => placed hn h
  cancel_some := by
    intro b o hn ho
    obtain ⟨r, hc, hr, hprices⟩ := cancelled hn ho
    refine ⟨r, b.drop o.id, hc, hr, ?_, hprices⟩
    intro side
    cases side <;> rfl
  cancel_none := by
    intro b id h
    have hget : getOrder b id = none := getOrder_eq_none.2 h
    change cancelOrder b id = (none, b)
    unfold cancelOrder
    rw [hget]
  cancel_each := cancelEach_of_cancelOrders
  cancel_prices := cancelOrders_prices
  cancel_resting := cancelOrders_resting

theorem postLaw : PostLaw sdk := by
  intro b taker n r b' h hposted hqty
  obtain ⟨-, -, hopen, -⟩ := (ran h).posted hposted
  exact hopen

theorem panicLaw : PanicLaw sdk := by
  intro b taker n e h text
  change placeOrder b taker n = .error e at h
  unfold placeOrder at h
  dsimp only at h
  intro htext
  subst htext
  split_ifs at h
  · cases h
  · split at h <;> cases h

theorem idLaw : IdLaw sdk := by
  intro b taker n r b' h hseq
  rw [(ran h).id]
  exact hseq.trans (by decide)

/-- The best price levels of a side. -/
def takeDepth : TakeDepth Book := fun b side depth =>
  (((b.side side).splitBy fun x y => x.limitPriceLots == y.limitPriceLots).take depth).map
    fun level => ((level.head?.map OpenLimitOrder.limitPriceLots).getD 0, level)

theorem depthLaw : DepthLaw sdk takeDepth := by
  intro b side depth level hlevel o ho
  obtain ⟨os, hos, rfl⟩ := List.mem_map.1 hlevel
  rw [resting_eq, ← List.flatten_splitBy (fun x y => x.limitPriceLots == y.limitPriceLots)
    (b.side side)]
  exact List.mem_flatten.2 ⟨os, List.mem_of_mem_take hos, ho⟩

theorem wholeLaw : WholeLaw sdk takeDepth := by
  intro b side depth hfew
  rw [takeDepth, List.length_map, List.length_take] at hfew
  have hall : ((b.side side).splitBy fun x y => x.limitPriceLots == y.limitPriceLots).length ≤
      depth := by
    omega
  have hid : (Prod.snd ∘ fun level : List OpenLimitOrder =>
      ((level.head?.map OpenLimitOrder.limitPriceLots).getD 0, level)) = id := rfl
  rw [takeDepth, List.take_of_length_le hall, List.flatMap_def, List.map_map, hid, List.map_id,
    List.flatten_splitBy, resting_eq]

/-! ## Runs -/

def dao : AccountId := ⟨"dao.near", by decide⟩

def alice : AccountId := ⟨"alice.near", by decide⟩

def bob : AccountId := ⟨"bob.near", by decide⟩

/-- The token contracts. -/
def btc : AccountId := ⟨"btc.near", by decide⟩

def usd : AccountId := ⟨"usd.near", by decide⟩

def game : AccountId := ⟨"game.near", by decide⟩

/-- A call with a deposit attached, by an account that signed it. -/
def calling (who : AccountId) (deposit : ℕ) : Env := ⟨who, who, deposit, 0, 1000⟩

/-- Open an account with storage for 1000 bytes. -/
def register (who : AccountId) : Event :=
  .call (calling who (10 ^ 22)) (.storageDeposit none none)

def pay (token who : AccountId) (amount : ℕ) : Event :=
  .call (calling token 0) (.ftOnTransfer who amount .empty)

def order (side : Side) (type : OrderType) (limitPrice quantity : ℕ)
    (referrerId : Option AccountId) : NewOrderParams :=
  ⟨some limitPrice, none, quantity, side, type, none, referrerId⟩

/-- The market of `btc` and `usd`, in lots of 1 and 10. -/
def btcUsd : MarketId := genMarketId sdk (.fungibleToken btc) 1 (.fungibleToken usd) 10

/-- The state after some events. -/
def run (es : List Event) : System Book := es.foldl (System.step sdk) (.init dao)

theorem run_concat (es : List Event) (e : Event) : run (es ++ [e]) = System.step sdk (run es) e :=
  List.foldl_append

/-- Events that are allowed in any state lead to reachable states. -/
theorem reach_run {ok : System Book → Event → Prop} {es : List Event}
    (h : ∀ e ∈ es, ∀ s, ok s e) : System.Reach sdk ok (run es) :=
  Runs.Reach.foldl (.init ⟨dao, rfl⟩) h

theorem reach_concat {ok : System Book → Event → Prop} {es : List Event} {e : Event}
    (h : System.Reach sdk ok (run es)) (he : ok (run es) e) :
    System.Reach sdk ok (run (es ++ [e])) := by
  rw [run_concat]
  exact .step h he

theorem reachable_run (es : List Event) : System.Reachable sdk (run es) :=
  reach_run fun _ _ _ => trivial

/-- The state after some events, with what they logged. -/
def logged (es : List Event) : System Book × Log :=
  es.foldl (fun x e => (System.step sdk x.1 e, System.note sdk x.2 x.1 e)) (.init dao, [])

theorem logs_logged (es : List Event) : System.Logs sdk (logged es) :=
  Runs.Reach.foldl (.init ⟨⟨dao, rfl⟩, rfl⟩) fun _ _ _ => trivial

theorem eq_ok_of_isOk {α : Type} {x : Call α} (h : x.isOk = true) : ∃ a, x = .ok a := by
  cases x with
  | ok a => exact ⟨a, rfl⟩
  | error e => exact absurd h Bool.false_ne_true

/-- A call that returns leads to the next state. -/
theorem perform_run {es : List Event} {env : Env} {op : Op}
    (h : (perform sdk env (run es).contract op).isOk = true) : ∃ ps,
    perform sdk env (run es).contract op = .ok (ps, (run (es ++ [.call env op])).contract) := by
  obtain ⟨⟨ps, c⟩, hp⟩ := eq_ok_of_isOk h
  rw [run_concat, System.step, hp]
  exact ⟨ps, rfl⟩

/-- What stops a call, if anything does. -/
def stoppedBy {α : Type} (x : Call α) : Option Panic :=
  match x with
  | .ok _ => none
  | .error p => some p

theorem eq_error_of_stoppedBy {α : Type} {x : Call α} {p : Panic} (h : stoppedBy x = some p) :
    x = .error p := by
  cases x with
  | ok a => cases h
  | error e =>
    cases h
    rfl

theorem eq_ok_of_stoppedBy {α : Type} {x : Call α} (h : stoppedBy x = none) :
    ∃ a, x = .ok a := by
  cases x with
  | ok a => exact ⟨a, rfl⟩
  | error e => cases h

theorem eq_ok_of_toOption {α : Type} {x : Call α} {a : α} (h : x.toOption = some a) :
    x = .ok a := by
  cases x with
  | ok b => exact congrArg Except.ok (Option.some.inj h)
  | error e => cases h

/-- A call with something to show for it returned. -/
theorem eq_ok_of_map {α β : Type} {x : Call α} {f : α → β} {b : β}
    (h : x.toOption.map f = some b) : ∃ a, x = .ok a ∧ f a = b := by
  obtain ⟨a, ha, hf⟩ := Option.map_eq_some_iff.1 h
  exact ⟨a, eq_ok_of_toOption ha, hf⟩

/-- The libraries, with the SHA-256 of one more text. -/
def hashing (text : String) (hash : MarketId) : Sdk Book :=
  { sdk with sha256 := fun t => if t = text then hash else sha256 t }

/-- The state after some events, with other libraries. -/
def runWith (S : Sdk Book) (es : List Event) : System Book := es.foldl (System.step S) (.init dao)

theorem reachable_runWith (S : Sdk Book) (es : List Event) : System.Reachable S (runWith S es) :=
  Runs.Reach.foldl (.init ⟨dao, rfl⟩) fun _ _ _ => trivial

/-- Three accounts, and a market with a taker fee of 1% and a maker rebate of
    0.5%, in which 10 `btc` cost 10 `usd` for each lot of the price. -/
def listed : List Event := [register dao, register alice, register bob,
  .call (calling dao (10 ^ 22)) (.createMarket ⟨"ft:btc.near", "ft:usd.near", 1, 10, 100, 50⟩),
  .resolve 0 (.ftMetadata (some 1)), .resolve 0 (.ftMetadata (some 1))]

/-- Alice has funds, and asks 20 `usd` for 10 `btc`. -/
def asked : List Event := listed ++ [pay btc alice 1000, pay usd bob 100000,
  .call (calling alice 0) (.newOrder btcUsd (order .sell .limit 20 1000 none))]

/-- Bob buys some of Alice's `btc`. -/
def bobBuys (referrerId : Option AccountId) : Op :=
  .newOrder btcUsd (order .buy .immediateOrCancel 20 600 referrerId)

def bought : List Event := asked ++ [.call (calling bob 0) (bobBuys (some dao))]

theorem perform_bought : ∃ ps,
    perform sdk (calling bob 0) (run asked).contract (bobBuys (some dao)) =
      .ok (ps, (run bought).contract) :=
  perform_run (by decide +kernel)

theorem market_logged_bought :
    ∃ m, (logged bought).1.contract.markets.lookup btcUsd = some m :=
  Option.isSome_iff_exists.1 (by decide +kernel)

/-- The market of `btc` and `usd` while Alice's order rests in it. -/
theorem market_asked : ∃ m, (run asked).contract.markets.lookup btcUsd = some m ∧
    m.baseToken = ⟨.fungibleToken btc, 1, 1⟩ ∧ m.quoteToken = ⟨.fungibleToken usd, 10, 1⟩ := by
  have hm : ((run asked).contract.markets.lookup btcUsd).map
      (fun m => (m.baseToken, m.quoteToken)) =
      some (⟨.fungibleToken btc, 1, 1⟩, ⟨.fungibleToken usd, 10, 1⟩) := by
    decide +kernel
  obtain ⟨m, hm, heq⟩ := Option.map_eq_some_iff.1 hm
  exact ⟨m, hm, Prod.mk.inj heq⟩

/-- Nobody deletes a market or sets its state. -/
theorem mem_asked {e : Event} (he : e ∈ asked) :
    (∀ env mid, e ≠ .call env (.adminDeleteMarket mid)) ∧
      ∀ env mid state, e ≠ .call env (.setMarketState mid state) := by
  simp only [asked, listed, register, pay, List.cons_append, List.nil_append, List.mem_cons,
    List.not_mem_nil, or_false] at he
  constructor
  · rintro env mid rfl
    simp at he
  · rintro env mid state rfl
    simp at he

end TonicDex.Engine
