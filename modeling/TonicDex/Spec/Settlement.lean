/-
  What settling a trade does.

  `afterFill` is the maker's account after one fill, and `MakersSettled` the
  state after a list of them.  A maker may occur in many fills: `fillsOf` is
  what all fills do to one account, and `MakersSettled.lookup` says that the
  stored account of everybody is the old one after its own fills.
  `SettledBy` collects what `settleMatches` establishes.
-/
import TonicDex.Model.System

namespace TonicDex

variable {B : Type} (S : Sdk B)

/-! ## Fees -/

theorem FeeCalculator.atRate_eq_ok {rate q n : ℕ} : FeeCalculator.atRate rate q = .ok n ↔
    q * rate < 2 ^ 128 ∧ q * rate / feeToBpsDivisor = n := by
  simp only [FeeCalculator.atRate, Checked.bind_eq_ok, Checked.fit_eq_ok, Checked.pure_eq_ok]
  constructor
  · rintro ⟨_, ⟨h, rfl⟩, rfl⟩; exact ⟨h, rfl⟩
  · rintro ⟨h, rfl⟩; exact ⟨_, ⟨h, rfl⟩, rfl⟩

namespace Market

variable (m : Market B)

/-- The rebate of a maker for a fill. -/
def rebateOf (f : Match) : ℕ := f.nativeQuotePaid * m.makerRebateBaseRate / feeToBpsDivisor

/-- The native base amount of a fill. -/
def fillBase (f : Match) : ℕ := f.fillQtyLots * m.baseToken.lotSize

/-- The fee of a taker who traded `quote`. -/
def takerFeeOf (quote : ℕ) : ℕ := quote * m.takerFeeBaseRate / feeToBpsDivisor

/-- The fee on more is no less. -/
theorem takerFeeOf_mono {x y : ℕ} (h : x ≤ y) : m.takerFeeOf x ≤ m.takerFeeOf y :=
  Nat.div_le_div_right (Nat.mul_le_mul_right _ h)

/-- What a maker is paid for a fill, besides the rebate. -/
def proceeds (side : Side) (f : Match) : TokenType × ℕ := makerProceeds m side f (m.fillBase f)

/-- What a fill is worth to its maker in `token`: the rebate, and for an ask, which
    a buyer fills, the quote paid, or for a bid the lots of base. -/
def makerCredit (side : Side) (f : Match) (token : TokenType) : ℕ :=
  (if token = m.quoteToken.tokenType then m.rebateOf f else 0) +
    match side with
    | .buy => if token = m.quoteToken.tokenType then f.nativeQuotePaid else 0
    | .sell => if token = m.baseToken.tokenType then f.fillQtyLots * m.baseToken.lotSize else 0

/-- The totals of a list of fills. -/
def totals (fills : List Match) : MakerSettlementResult :=
  ⟨(fills.map m.fillBase).sum, (fills.map Match.nativeQuotePaid).sum, (fills.map m.rebateOf).sum⟩

end Market

/-! ## One fill -/

/-- The maker's account after a fill. -/
def afterFill (mid : MarketId) (m : Market B) (side : Side) (f : Match) (a : Account) : Account :=
  let a := if f.didRemoveMakerOrder then a.forget mid f.makerOrderId else a
  let a := a.credit (S.key m.quoteToken.tokenType) (m.rebateOf f)
  a.credit (S.key (m.proceeds side f).1) (m.proceeds side f).2

variable {S} {mid : MarketId} {m : Market B} {side : Side} {f : Match} {fs : List Match}
  {a a' : Account} {c c' : Contract B} {id : AccountId}

theorem creditMaker_eq_ok {r : ℕ} (h : creditMaker S mid m side f (m.fillBase f) a = .ok (r, a')) :
    r = m.rebateOf f ∧ a' = afterFill S mid m side f a := by
  simp only [creditMaker, Checked.bind_eq_ok, FeeCalculator.makerRebate,
    FeeCalculator.atRate_eq_ok, Account.deposit_eq_ok, Checked.pure_eq_ok, Prod.mk.injEq] at h
  obtain ⟨_, ⟨-, rfl⟩, _, ⟨-, rfl⟩, _, ⟨-, rfl⟩, rfl, rfl⟩ := h
  exact ⟨rfl, rfl⟩

@[simp] theorem storageBalance_afterFill :
    (afterFill S mid m side f a).storageBalance = a.storageBalance := by
  unfold afterFill; split <;> simp

theorem balance_afterFill (hS : TokenLaws S) (token : TokenType) :
    (afterFill S mid m side f a).getBalance S token =
      a.getBalance S token + m.makerCredit side f token := by
  have hk : ∀ t, (S.key token = S.key t) = (token = t) := fun t =>
    propext hS.key_injective.eq_iff
  have hproceeds : (if token = (m.proceeds side f).1 then (m.proceeds side f).2 else 0) =
      match side with
      | .buy => if token = m.quoteToken.tokenType then f.nativeQuotePaid else 0
      | .sell => if token = m.baseToken.tokenType then f.fillQtyLots * m.baseToken.lotSize
        else 0 := by
    cases side with
    | buy | sell => rfl
  simp only [afterFill, Account.getBalance, Account.balance_credit, hk, Market.makerCredit,
    hproceeds]
  split <;> simp [Nat.add_assoc]

theorem getOrderInfo_afterFill (m' : MarketId) (o : OrderId) :
    (afterFill S mid m side f a).getOrderInfo m' o =
      if f.didRemoveMakerOrder = true ∧ m' = mid ∧ o = f.makerOrderId then none
      else a.getOrderInfo m' o := by
  cases hf : f.didRemoveMakerOrder with
  | true =>
    have : (a.forget mid f.makerOrderId).getOrderInfo m' o = _ := Account.getOrderInfo_forget
    simpa [afterFill, Account.getOrderInfo, hf] using this
  | false => simp [afterFill, Account.getOrderInfo, hf]

/-- One round of the loop settles one maker. -/
theorem settleMakerFill_ok {t t' : MakerSettlementResult}
    (h : settleMakerFill S mid m side (t, c) f = .ok (t', c')) :
    t' = ⟨t.baseTraded + m.fillBase f, t.quoteTraded + f.nativeQuotePaid,
        t.totalMakerRebate + m.rebateOf f⟩ ∧
      ∃ a, c.accounts.lookup f.makerUserId = some a ∧
        (afterFill S mid m side f a).isStorageCovered S ∧
        c' = c.putAccount f.makerUserId (afterFill S mid m side f a) := by
  simp only [settleMakerFill, Market.quoteLotsToNative, Market.baseLotsToNative,
    Checked.bind_eq_ok, Checked.fit_eq_ok, Contract.internalUnwrapAccount_eq_ok,
    Contract.internalSaveAccount_eq_ok, Checked.pure_eq_ok, Prod.mk.injEq] at h
  obtain ⟨_, -, _, ⟨-, rfl⟩, _, ⟨-, rfl⟩, _, ⟨-, rfl⟩, a, ha, ⟨r, a'⟩, hcr, _, ⟨-, rfl⟩, _,
    ⟨hcov, rfl⟩, rfl, rfl⟩ := h
  obtain ⟨rfl, rfl⟩ := creditMaker_eq_ok hcr
  exact ⟨rfl, a, ha, hcov, rfl⟩

/-! ## All fills -/

/-- The fills `fs` settled one after the other, each loading and saving its
    maker's account. -/
inductive MakersSettled (S : Sdk B) (mid : MarketId) (m : Market B) (side : Side) :
    Contract B → List Match → Contract B → Prop
  | nil (c : Contract B) : MakersSettled S mid m side c [] c
  | cons {c c' : Contract B} {f : Match} {fs : List Match} {a : Account}
      (found : c.accounts.lookup f.makerUserId = some a)
      (covered : (afterFill S mid m side f a).isStorageCovered S)
      (rest : MakersSettled S mid m side
        (c.putAccount f.makerUserId (afterFill S mid m side f a)) fs c') :
      MakersSettled S mid m side c (f :: fs) c'

theorem foldlM_settleMakerFill_ok : ∀ {fs : List Match} {t t' : MakerSettlementResult}
    {c c' : Contract B}, fs.foldlM (settleMakerFill S mid m side) (t, c) = .ok (t', c') →
    t' = ⟨t.baseTraded + (m.totals fs).baseTraded, t.quoteTraded + (m.totals fs).quoteTraded,
        t.totalMakerRebate + (m.totals fs).totalMakerRebate⟩ ∧
      MakersSettled S mid m side c fs c'
  | [], t, t', c, c', h => by
    simp only [List.foldlM_nil, Checked.pure_eq_ok, Prod.mk.injEq] at h
    obtain ⟨rfl, rfl⟩ := h
    exact ⟨by simp [Market.totals], .nil _⟩
  | f :: fs, t, t', c, c', h => by
    simp only [List.foldlM_cons, Checked.bind_eq_ok] at h
    obtain ⟨⟨t₁, c₁⟩, h1, h2⟩ := h
    obtain ⟨rfl, a, ha, hcov, rfl⟩ := settleMakerFill_ok h1
    obtain ⟨rfl, hrest⟩ := foldlM_settleMakerFill_ok h2
    exact ⟨by simp [Market.totals, Nat.add_assoc], .cons ha hcov hrest⟩

theorem internalSettleMakerFills_ok {t : MakerSettlementResult}
    (h : internalSettleMakerFills S c mid m side fs = .ok (t, c')) :
    t = m.totals fs ∧ MakersSettled S mid m side c fs c' := by
  obtain ⟨rfl, hm⟩ := foldlM_settleMakerFill_ok h
  exact ⟨by simp [MakerSettlementResult.default], hm⟩

/-- What the fills do to the account of `id`. -/
def fillsOf (S : Sdk B) (mid : MarketId) (m : Market B) (side : Side) (id : AccountId)
    (fs : List Match) (a : Account) : Account :=
  (fs.filter (·.makerUserId = id)).foldl (fun a f => afterFill S mid m side f a) a

theorem fillsOf_cons_self (hf : f.makerUserId = id) :
    fillsOf S mid m side id (f :: fs) a =
      fillsOf S mid m side id fs (afterFill S mid m side f a) := by
  simp [fillsOf, hf]

theorem fillsOf_cons_of_ne (hf : f.makerUserId ≠ id) :
    fillsOf S mid m side id (f :: fs) a = fillsOf S mid m side id fs a := by
  simp [fillsOf, hf]

theorem filter_maker_eq_nil (h : ∀ f ∈ fs, f.makerUserId ≠ id) :
    fs.filter (·.makerUserId = id) = [] := by
  refine List.filter_eq_nil_iff.2 fun f hf hid => ?_
  exact h f hf (of_decide_eq_true hid)

/-- The fills of others leave an account as it is. -/
theorem fillsOf_of_ne (h : ∀ f ∈ fs, f.makerUserId ≠ id) (a : Account) :
    fillsOf S mid m side id fs a = a := by
  rw [fillsOf, filter_maker_eq_nil h, List.foldl_nil]

namespace MakersSettled

/-- Settling makers changes accounts only. -/
theorem frame (h : MakersSettled S mid m side c fs c') :
    c' = { c with accounts := c'.accounts } := by
  induction h with
  | nil c => rfl
  | cons _ _ _ ih => exact ih

/-- **Every account is the old one after its own fills.** -/
theorem lookup (h : MakersSettled S mid m side c fs c') (id : AccountId) :
    c'.accounts.lookup id = (c.accounts.lookup id).map (fillsOf S mid m side id fs) := by
  induction h with
  | nil c =>
    cases hc : c.accounts.lookup id with
    | none => rfl
    | some a => rfl
  | @cons c c' f fs a found covered rest ih =>
    rw [ih, Contract.lookup_putAccount]
    by_cases hid : id = f.makerUserId
    · subst hid
      rw [if_pos rfl, found, Option.map_some, Option.map_some, fillsOf_cons_self rfl]
    · rw [if_neg hid]
      have hne : f.makerUserId ≠ id := fun h => hid h.symm
      exact Option.map_congr fun a _ => (fillsOf_cons_of_ne hne).symm

/-- Makers have accounts. -/
theorem maker (h : MakersSettled S mid m side c fs c') :
    ∀ f ∈ fs, ∃ a, c.accounts.lookup f.makerUserId = some a := by
  induction h with
  | nil c => intro f hf; cases hf
  | @cons c c' f fs a found covered rest ih =>
    intro g hg
    rcases List.mem_cons.1 hg with rfl | hg
    · exact ⟨a, found⟩
    · obtain ⟨b, hb⟩ := ih g hg
      rw [Contract.lookup_putAccount] at hb
      split_ifs at hb with hid
      · exact ⟨a, by rw [hid]; exact found⟩
      · exact ⟨b, hb⟩

theorem maker_ne (h : MakersSettled S mid m side c fs c') (hid : c.accounts.lookup id = none) :
    ∀ f ∈ fs, f.makerUserId ≠ id := by
  rintro f hf rfl
  obtain ⟨a, ha⟩ := h.maker f hf
  exact Option.some_ne_none a (ha.symm.trans hid)

/-- Settling does not look at the book of the market. -/
theorem withBook {b : B} (h : MakersSettled S mid { m with orderbook := b } side c fs c') :
    MakersSettled S mid m side c fs c' := by
  induction h with
  | nil c => exact .nil c
  | cons found covered _ ih => exact .cons found covered ih

/-- A weight of accounts moves by what each fill adds to it. -/
theorem total_eq {w : Account → ℕ} {g : Match → ℕ}
    (hw : ∀ a, ∀ f ∈ fs, w (afterFill S mid m side f a) = w a + g f)
    (h : MakersSettled S mid m side c fs c') :
    c'.accounts.total (fun _ a => w a) =
      c.accounts.total (fun _ a => w a) + (fs.map g).sum := by
  induction h with
  | nil c => simp
  | @cons c c' f fs a found covered rest ih =>
    rw [ih fun a f hf => hw a f (List.mem_cons_of_mem _ hf)]
    have := HMap.total_insert_add c.accounts (fun _ a => w a) f.makerUserId
      (afterFill S mid m side f a)
    rw [found] at this
    simp only [Option.elim_some, hw a f (List.mem_cons_self ..)] at this
    simp only [Contract.putAccount, List.map_cons, List.sum_cons]
    omega

end MakersSettled

/-! ## Folding over one account -/

/-- A property of accounts that every fill keeps. -/
theorem fillsOf_induction {P : Account → Prop} :
    ∀ {fs : List Match} {a : Account}, (∀ a, ∀ f ∈ fs, P a → P (afterFill S mid m side f a)) →
      P a → P (fillsOf S mid m side id fs a)
  | [], _, _, h => h
  | f :: fs, a, hstep, h => by
    by_cases hf : f.makerUserId = id
    · rw [fillsOf_cons_self hf]
      exact fillsOf_induction (fun a g hg => hstep a g (List.mem_cons_of_mem _ hg))
        (hstep a f (List.mem_cons_self ..) h)
    · rw [fillsOf_cons_of_ne hf]
      exact fillsOf_induction (fun a g hg => hstep a g (List.mem_cons_of_mem _ hg)) h

theorem balance_fillsOf (hS : TokenLaws S) (token : TokenType) :
    ∀ (fs : List Match) (a : Account), (fillsOf S mid m side id fs a).getBalance S token =
      a.getBalance S token +
        ((fs.filter (·.makerUserId = id)).map fun f => m.makerCredit side f token).sum
  | [], a => by simp [fillsOf]
  | f :: fs, a => by
    by_cases hf : f.makerUserId = id
    · rw [fillsOf_cons_self hf, balance_fillsOf hS token fs, balance_afterFill hS]
      simp [hf, Nat.add_assoc]
    · rw [fillsOf_cons_of_ne hf, balance_fillsOf hS token fs]
      simp [hf]

/-- Forgotten are the orders that a fill removed. -/
theorem getOrderInfo_fillsOf (m' : MarketId) (o : OrderId) :
    ∀ (fs : List Match) (a : Account), (fillsOf S mid m side id fs a).getOrderInfo m' o =
      if m' = mid ∧ ∃ f ∈ fs, f.makerUserId = id ∧ f.makerOrderId = o ∧ f.didRemoveMakerOrder = true
      then none else a.getOrderInfo m' o
  | [], a => by simp [fillsOf]
  | f :: fs, a => by
    by_cases hf : f.makerUserId = id
    · rw [fillsOf_cons_self hf, getOrderInfo_fillsOf m' o fs, getOrderInfo_afterFill]
      by_cases hm : m' = mid
      · by_cases ho : f.makerOrderId = o
        · cases hr : f.didRemoveMakerOrder <;> simp [hm, hf, ho, hr]
        · have ho' : ¬ o = f.makerOrderId := fun h => ho h.symm
          simp [hm, ho, ho']
      · simp [hm]
    · rw [fillsOf_cons_of_ne hf, getOrderInfo_fillsOf m' o fs]
      simp [hf]

/-! ## The referrer and the fee -/

/-- The referrer is paid the whole net fee, or nothing if there is no such
    account or its storage does not cover the entry. -/
inductive ReferrerPaid (S : Sdk B) (quoteToken : TokenType) (referrerId : Option AccountId)
    (net : ℕ) : Contract B → ℕ → Contract B → Prop
  | nothing {c : Contract B} (uncovered : ∀ id a, referrerId = some id →
      c.accounts.lookup id = some a → ¬ (a.credit (S.key quoteToken) net).isStorageCovered S) :
      ReferrerPaid S quoteToken referrerId net c 0 c
  | paid {c : Contract B} {id : AccountId} {a : Account} (referrer : referrerId = some id)
      (found : c.accounts.lookup id = some a)
      (covered : (a.credit (S.key quoteToken) net).isStorageCovered S) :
      ReferrerPaid S quoteToken referrerId net c net
        (c.putAccount id (a.credit (S.key quoteToken) net))

theorem internalSettleReferrerRebate_ok {quoteToken : TokenType} {referrerId : Option AccountId}
    {net r : ℕ} (h : internalSettleReferrerRebate S c quoteToken referrerId net = .ok (r, c')) :
    ReferrerPaid S quoteToken referrerId net c r c' := by
  unfold internalSettleReferrerRebate at h
  rcases referrerId with _ | id
  · simp only [Checked.pure_eq_ok, Prod.mk.injEq] at h
    obtain ⟨rfl, rfl⟩ := h
    exact .nothing fun id a hid => by cases hid
  rcases ha : c.internalGetAccount id with _ | a
  · simp only [ha, Checked.pure_eq_ok, Prod.mk.injEq] at h
    obtain ⟨rfl, rfl⟩ := h
    refine .nothing fun id' a hid hl => ?_
    cases hid
    rw [Contract.internalGetAccount, hl] at ha; cases ha
  simp only [ha, referrerRebate, Checked.bind_eq_ok, Account.deposit_eq_ok,
    Contract.internalTrySaveAccount] at h
  obtain ⟨_, ⟨-, rfl⟩, h⟩ := h
  split_ifs at h with hcov
  · simp only [Checked.pure_eq_ok, Prod.mk.injEq] at h
    obtain ⟨rfl, rfl⟩ := h
    exact .paid rfl ha hcov
  · simp only [Checked.pure_eq_ok, Prod.mk.injEq] at h
    obtain ⟨rfl, rfl⟩ := h
    refine .nothing fun id' b hid hl => ?_
    cases hid
    rw [Contract.internalGetAccount, hl] at ha; cases ha
    exact hcov

namespace ReferrerPaid

variable {quoteToken : TokenType} {referrerId : Option AccountId} {net r : ℕ}

theorem frame (h : ReferrerPaid S quoteToken referrerId net c r c') :
    c' = { c with accounts := c'.accounts } := by
  cases h with
  | nothing => rfl
  | paid => rfl

/-- Only the referrer's account changes, by the amount paid. -/
theorem lookup (h : ReferrerPaid S quoteToken referrerId net c r c') (id : AccountId) :
    (c'.accounts.lookup id = c.accounts.lookup id ∧ (referrerId = some id → r = 0)) ∨
      (referrerId = some id ∧ r = net ∧ ∃ a, c.accounts.lookup id = some a ∧
        (a.credit (S.key quoteToken) net).isStorageCovered S ∧
        c'.accounts.lookup id = some (a.credit (S.key quoteToken) net)) := by
  cases h with
  | nothing => exact .inl ⟨rfl, fun _ => rfl⟩
  | @paid id' a referrer found covered =>
    rw [Contract.lookup_putAccount]
    by_cases hid : id = id'
    · subst hid
      exact .inr ⟨referrer, rfl, a, found, covered, if_pos rfl⟩
    · refine .inl ⟨if_neg hid, fun href => absurd ?_ hid⟩
      exact Option.some_inj.1 (href.symm.trans referrer)

theorem total_eq {w : Account → ℕ} {g : ℕ → ℕ} (hg : g 0 = 0)
    (hw : ∀ a, w (a.credit (S.key quoteToken) net) = w a + g net)
    (h : ReferrerPaid S quoteToken referrerId net c r c') :
    c'.accounts.total (fun _ a => w a) = c.accounts.total (fun _ a => w a) + g r := by
  cases h with
  | nothing => rw [hg, Nat.add_zero]
  | @paid id a referrer found covered =>
    have := HMap.total_insert_add c.accounts (fun _ a => w a) id
      (a.credit (S.key quoteToken) net)
    rw [found] at this
    simp only [Option.elim_some, hw] at this
    simp only [Contract.putAccount]
    omega

end ReferrerPaid

/-- What `settleMatches` does: the fills are settled, the fee is that of the
    quote amount traded, and the referrer is paid out of it. -/
structure SettledBy (S : Sdk B) (mid : MarketId) (m : Market B) (side : Side) (fs : List Match)
    (referrerId : Option AccountId) (c : Contract B) (s : Settled) (c' : Contract B) where
  makers : Contract B
  totals : s.toMakerSettlementResult = m.totals fs
  fee : s.totalTakerFee = m.takerFeeOf (m.totals fs).quoteTraded
  split : s.referrerRebate + (m.totals fs).totalMakerRebate ≤ s.totalTakerFee
  settled : MakersSettled S mid m side c fs makers
  referrer : ReferrerPaid S m.quoteToken.tokenType referrerId
    (s.totalTakerFee - (m.totals fs).totalMakerRebate) makers s.referrerRebate c'

theorem settleMatches_ok {referrerId : Option AccountId} {bug : String} {s : Settled}
    {fee : FeeCalculator} (hfee : fee.takerFeeBaseRate = m.takerFeeBaseRate)
    (h : settleMatches S c mid m fee side fs referrerId bug = .ok (s, c')) :
    Nonempty (SettledBy S mid m side fs referrerId c s c') := by
  simp only [settleMatches, Checked.bind_eq_ok, FeeCalculator.takerFee,
    FeeCalculator.atRate_eq_ok, Checked.sub_eq_ok, Checked.fit_eq_ok, Checked.require_eq_ok,
    Checked.pure_eq_ok, Prod.mk.injEq] at h
  obtain ⟨⟨t, c₁⟩, hm, _, ⟨-, rfl⟩, _, ⟨-, rfl⟩, ⟨r, c₂⟩, hr, _, ⟨-, rfl⟩, _, hle, rfl, rfl⟩ := h
  obtain ⟨rfl, hset⟩ := internalSettleMakerFills_ok hm
  have hr := internalSettleReferrerRebate_ok hr
  exact ⟨⟨c₁, rfl, by rw [hfee]; rfl, hle, hset, hr⟩⟩

/-- What is left of the fee for the market. -/
def Settled.net (s : Settled) : ℕ := s.totalTakerFee - s.totalMakerRebate - s.referrerRebate

theorem Settled.netFee_eq_ok {s : Settled} {n : ℕ} (h : s.netFee = .ok n) : n = s.net := by
  simp only [Settled.netFee, Checked.bind_eq_ok, Checked.sub_eq_ok] at h
  obtain ⟨_, ⟨-, rfl⟩, -, rfl⟩ := h
  rfl

namespace SettledBy

variable {referrerId : Option AccountId} {s : Settled}

def withBook {b : B} (h : SettledBy S mid { m with orderbook := b } side fs referrerId c s c') :
    SettledBy S mid m side fs referrerId c s c' :=
  ⟨h.makers, h.totals, h.fee, h.split, h.settled.withBook, h.referrer⟩

/-- Settling changes accounts only. -/
theorem frame (h : SettledBy S mid m side fs referrerId c s c') :
    c' = { c with accounts := c'.accounts } := by
  rw [h.referrer.frame, h.settled.frame]

/-- **The fee is split exactly.** -/
theorem fee_eq (h : SettledBy S mid m side fs referrerId c s c') :
    s.totalTakerFee = (m.totals fs).totalMakerRebate + s.referrerRebate + s.net := by
  have h1 := h.split
  have h2 : s.totalMakerRebate = (m.totals fs).totalMakerRebate := by rw [h.totals]
  unfold Settled.net
  omega

end SettledBy

end TonicDex
