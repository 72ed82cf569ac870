/-
  The ids of markets.

  `gen_market_id` hashes the terms of a market, joined by single spaces.  A
  token key may contain spaces itself: if the base key of one market ran over
  the base key and the lot size of another (`Straddles`), both would be hashed
  from one text.  But the parts of a key stand between colons, and a token id
  that was read has none: what is left over of such a key has no colon, and does
  not begin the key of another token (`AsksFor.not_straddles`).  So no market is
  in the way of another (`market_ids_apart`).
-/
import TonicDex.Engine.Library
import TonicDex.Lib.Separated
import TonicDex.Spec.Listing

namespace TonicDex

variable {B : Type} (S : Sdk B)

/-! ## Terms -/

/-- The terms of a market that its id is made from. -/
structure Listing where
  baseToken : TokenType
  baseLotSize : ℕ
  quoteToken : TokenType
  quoteLotSize : ℕ
  deriving DecidableEq

/-- The terms a call of `create_market` asks for. -/
structure CreateMarketArgs.AsksFor (args : CreateMarketArgs) (t : Listing) : Prop where
  baseToken : S.fromKey args.baseToken = .ok t.baseToken
  quoteToken : S.fromKey args.quoteToken = .ok t.quoteToken
  baseLot : args.baseTokenLotSize = t.baseLotSize
  quoteLot : args.quoteTokenLotSize = t.quoteLotSize

namespace Listing

variable (t t' : Listing)

/-- What `gen_market_id` hashes. -/
def text : String :=
  S.currentAccountId.name ++ " " ++ S.key t.baseToken ++ " " ++ toString t.baseLotSize ++
    " " ++ S.key t.quoteToken ++ " " ++ toString t.quoteLotSize

def id : MarketId := genMarketId S t.baseToken t.baseLotSize t.quoteToken t.quoteLotSize

/-- The base key of `t` runs over the base key and the lot size of `t'`, and
    what it has left over begins the quote key of `t'`. -/
def Straddles : Prop :=
  t.quoteLotSize = t'.quoteLotSize ∧ ∃ w : String,
    S.key t.baseToken = S.key t'.baseToken ++ " " ++ toString t'.baseLotSize ++ w ∧
    w ++ " " ++ toString t.baseLotSize ++ " " ++ S.key t.quoteToken = " " ++ S.key t'.quoteToken

/-- Creating the market `t` has no bearing on the market `t'`. -/
structure Apart : Prop where
  texts : t.text S ≠ t'.text S
  ids : t.id S ≠ t'.id S
  refused : ∀ {env env' : Env} {c c' : Contract B} {args args' : CreateMarketArgs}
    {mid : MarketId} {ps : List Promise}, args.AsksFor S t → args'.AsksFor S t' →
    createMarket S env c args = .ok (mid, ps, c') →
    createMarket S env' c' args' = .error (.error .marketExists) →
      createMarket S env' c args' = .error (.error .marketExists)
  stored : ∀ {env env' : Env} {c c' c₁ c₁' : Contract B} {args args' : CreateMarketArgs}
    {mid mid' : MarketId} {ps ps' : List Promise}, args.AsksFor S t → args'.AsksFor S t' →
    createMarket S env c args = .ok (mid, ps, c') →
    createMarket S env' c₁ args' = .ok (mid', ps', c₁') → mid ≠ mid'

end Listing

/-! ## Texts -/

variable {S} {t t' : Listing}

theorem notMem_toString {ch : Char} (hch : ch.isDigit = false) (n : ℕ) :
    ch ∉ (toString n).toList := by
  intro h
  rw [Nat.toString_eq_repr, Nat.toList_repr] at h
  have := Nat.isDigit_of_mem_toDigits (by decide) (by decide) h
  rw [hch] at this
  cases this

theorem space_notMem_toString (n : ℕ) : ' ' ∉ (toString n).toList := notMem_toString (by decide) n

theorem toString_nat_injective {n m : ℕ} (h : (toString n).toList = (toString m).toList) :
    n = m := by
  rw [Nat.toString_eq_repr, Nat.toString_eq_repr, Nat.toList_repr, Nat.toList_repr] at h
  rw [← Nat.ofDigitChars_ten_toDigits (n := n), h, Nat.ofDigitChars_ten_toDigits]

/-- The part of the text between the exchange and the quote lot size. -/
def Listing.middle (S : Sdk B) (t : Listing) : List Char :=
  (S.key t.baseToken).toList ++ ' ' :: ((toString t.baseLotSize).toList ++
    ' ' :: (S.key t.quoteToken).toList)

theorem Listing.toList_text : (t.text S).toList = (S.currentAccountId.name.toList ++
    ' ' :: t.middle S) ++ ' ' :: (toString t.quoteLotSize).toList := by
  simp [text, middle, String.toList_append]

theorem Listing.text_eq_iff :
    t.text S = t'.text S ↔ t.middle S = t'.middle S ∧ t.quoteLotSize = t'.quoteLotSize := by
  rw [← String.toList_inj, toList_text, toList_text]
  constructor
  · intro h
    obtain ⟨hleft, hlot⟩ :=
      Separated.last (space_notMem_toString _) (space_notMem_toString _) h
    exact ⟨List.cons_inj_right _ |>.1 (List.append_cancel_left hleft), toString_nat_injective hlot⟩
  · rintro ⟨hm, hq⟩
    rw [hm, hq]

theorem Listing.straddles_iff : t.Straddles S t' ↔ t.quoteLotSize = t'.quoteLotSize ∧
    Separated.Straddles ' ' (S.key t.baseToken).toList (toString t.baseLotSize).toList
      (S.key t.quoteToken).toList (S.key t'.baseToken).toList (toString t'.baseLotSize).toList
      (S.key t'.quoteToken).toList := by
  refine and_congr_right fun _ => ?_
  constructor
  · rintro ⟨w, h1, h2⟩
    rw [← String.toList_inj] at h1 h2
    exact ⟨w.toList, by simpa using h1, by simpa using h2⟩
  · rintro ⟨w, h1, h2⟩
    refine ⟨String.ofList w, ?_, ?_⟩
    · rw [← String.toList_inj]; simpa using h1
    · rw [← String.toList_inj]; simpa using h2

theorem Listing.text_eq_iff_straddles (hT : TokenLaws S) : t.text S = t'.text S ↔
    t = t' ∨ t.Straddles S t' ∨ t'.Straddles S t := by
  rw [text_eq_iff, straddles_iff, straddles_iff, middle, middle,
    Separated.word_eq_iff (space_notMem_toString _) (space_notMem_toString _)]
  constructor
  · rintro ⟨⟨hb, hl, hq⟩ | h | h, hlot⟩
    · have hbase := hT.key_injective (String.toList_inj.1 hb)
      have hquote := hT.key_injective (String.toList_inj.1 hq)
      have hlots := toString_nat_injective hl
      left
      cases t; cases t'
      simp only at hbase hquote hlots hlot
      rw [hbase, hquote, hlots, hlot]
    · exact .inr (.inl ⟨hlot, h⟩)
    · exact .inr (.inr ⟨hlot.symm, h⟩)
  · rintro (rfl | ⟨hlot, h⟩ | ⟨hlot, h⟩)
    · exact ⟨.inl ⟨rfl, rfl, rfl⟩, rfl⟩
    · exact ⟨.inr (.inl h), hlot⟩
    · exact ⟨.inr (.inr h), hlot.symm⟩

/-! ## Creating markets -/

variable {c c' : Contract B} {env : Env} {args : CreateMarketArgs} {mid : MarketId}
  {ps : List Promise}

/-- The checks of `create_market` before it looks for the market. -/
structure CreateMarketArgs.Passes (args : CreateMarketArgs) (c : Contract B) : Prop where
  active : c.state = .active
  rates : args.makerRebateBaseRate.val < args.takerFeeBaseRate ∨
    (args.makerRebateBaseRate.val = 0 ∧ args.takerFeeBaseRate.val = 0)
  tokens : args.baseToken ≠ args.quoteToken

/-- A market is refused as existing when it exists. -/
theorem createMarket_exists_iff (ht : args.AsksFor S t) :
    createMarket S env c args = .error (.error .marketExists) ↔
      args.Passes c ∧ (c.markets.lookup (t.id S)).isSome := by
  have hid : t.id S = genMarketId S t.baseToken args.baseTokenLotSize t.quoteToken
      args.quoteTokenLotSize := by
    rw [ht.baseLot, ht.quoteLot]; rfl
  rw [hid, ← Option.isNone_iff_eq_none.not.trans Option.ne_none_iff_isSome]
  simp only [createMarket, Contract.assertActive, assertValidLotSizes, Checked.bind_eq_error,
    Checked.require_eq_error, Checked.fit_eq_error, Checked.require_eq_ok, ht.baseToken,
    ht.quoteToken, reduceCtorEq, and_false, false_or, Checked.pure_ne_error, exists_false, or_false,
    Except.ok.injEq, exists_eq_left', and_true, Panic.error.injEq]
  constructor
  · rintro ⟨_, hact, _, hrates, _, hne, hsome⟩
    exact ⟨⟨hact, hrates, hne⟩, hsome⟩
  · rintro ⟨⟨hact, hrates, hne⟩, hsome⟩
    exact ⟨(), hact, (), hrates, (), hne, hsome⟩

theorem Created.id_eq {m : Market B} (h : Created S c args mid m) (ht : args.AsksFor S t) :
    mid = t.id S := by
  have hbase : m.baseToken.tokenType = t.baseToken :=
    Except.ok.inj (h.baseToken.symm.trans ht.baseToken)
  have hquote : m.quoteToken.tokenType = t.quoteToken :=
    Except.ok.inj (h.quoteToken.symm.trans ht.quoteToken)
  rw [h.id, hbase, hquote, ht.baseLot, ht.quoteLot]
  rfl

/-! ## Keys -/

/-- Token keys as the library writes and reads them: their parts stand between
    colons, and a token id that was read from a key has no colon. -/
structure KeyForm (S : Sdk B) : Prop where
  near : S.key .nativeNear = "NEAR"
  fungible : ∀ a, S.key (.fungibleToken a) = "ft:" ++ a.name
  multiFungible : ∀ a t, S.key (.multiFungibleToken a t) = "mft:" ++ a.name ++ ":" ++ t
  read : ∀ {k a t}, S.fromKey k = .ok (.multiFungibleToken a t) → ':' ∉ t.toList

/-- A key with a space is the key of a multi-fungible token. -/
theorem KeyForm.of_space (hF : KeyForm S) {token : TokenType}
    (h : ' ' ∈ (S.key token).toList) : ∃ a t, token = .multiFungibleToken a t := by
  cases token with
  | nativeNear =>
    rw [hF.near] at h
    exact absurd h (by decide)
  | fungibleToken a =>
    rw [hF.fungible, String.toList_append, List.mem_append] at h
    exact (h.elim (by decide) (a.notMem_name (by decide))).elim
  | multiFungibleToken a t => exact ⟨a, t, rfl⟩

theorem KeyForm.toList_multiFungible (hF : KeyForm S) (a : AccountId) (t : String) :
    (S.key (.multiFungibleToken a t)).toList =
      "mft".toList ++ ':' :: (a.name.toList ++ ':' :: t.toList) := by
  rw [hF.multiFungible]
  simp [String.toList_append]

/-- A key that begins like that of a multi-fungible token has its two colons. -/
theorem KeyForm.two_le_count (hF : KeyForm S) {token : TokenType} {l l' : List Char}
    (h : 'm' :: l = (S.key token).toList ++ ' ' :: l') :
    2 ≤ (S.key token).toList.count ':' := by
  cases token with
  | nativeNear =>
    rw [hF.near] at h
    simp at h
  | fungibleToken a =>
    rw [hF.fungible, String.toList_append] at h
    simp at h
  | multiFungibleToken a t =>
    rw [hF.toList_multiFungible]
    simp only [List.count_append, List.count_cons_self]
    omega

/-- **A key that was read straddles no other.** -/
theorem CreateMarketArgs.AsksFor.not_straddles (hF : KeyForm S) (ht : args.AsksFor S t) :
    ¬ t.Straddles S t' := by
  intro hs
  have hstraddles := (Listing.straddles_iff.1 hs).2
  obtain ⟨w, hkey, hrest⟩ := hstraddles
  -- both the key that straddles and the quote key that it begins have spaces
  have hspace : ' ' ∈ (S.key t.baseToken).toList := hkey ▸ Separated.mem_middle
  have hspace' : ' ' ∈ (S.key t'.quoteToken).toList := by
    rcases w with _ | ⟨ch, w⟩
    · rw [← (List.cons.inj hrest).2]
      exact Separated.mem_middle
    · rw [← (List.cons.inj hrest).2]
      exact Separated.mem_middle
  obtain ⟨a, id, hbase⟩ := hF.of_space hspace
  obtain ⟨a', id', hquote⟩ := hF.of_space hspace'
  have hcount : (S.key t.baseToken).toList.count ':' = 2 := by
    have hid : ':' ∉ id.toList := hF.read (hbase ▸ ht.baseToken)
    have ha : ':' ∉ a.name.toList := a.notMem_name (by decide)
    rw [hbase, hF.toList_multiFungible]
    simp [List.count_append, List.count_eq_zero.2 hid, List.count_eq_zero.2 ha]
  have hprefix : 2 ≤ (S.key t'.baseToken).toList.count ':' := by
    rw [hbase, hF.toList_multiFungible] at hkey
    exact hF.two_le_count hkey
  have hstraddles := (Listing.straddles_iff.1 hs).2
  rw [hquote, hF.toList_multiFungible] at hstraddles
  exact Separated.not_straddles_of_marks (by decide) (hcount.trans_le hprefix)
    (notMem_toString (by decide) _) (by decide) hstraddles

/-- **Markets with different terms are apart.**  For any two calls of
    `create_market` that ask for different terms, the texts that are hashed differ,
    and so do the ids, unless the two texts are a collision of the hash: neither
    call makes the other fail as existing, nor is stored in its place. -/
theorem market_ids_apart (hT : TokenLaws S) (hF : KeyForm S) (hne : t ≠ t')
    {args args' : CreateMarketArgs} (ht : args.AsksFor S t) (ht' : args'.AsksFor S t')
    (hsha : S.sha256 (t.text S) = S.sha256 (t'.text S) → t.text S = t'.text S) : t.Apart S t' := by
  have htexts : t.text S ≠ t'.text S := by
    intro h
    rcases (Listing.text_eq_iff_straddles hT).1 h with h | h | h
    · exact hne h
    · exact ht.not_straddles hF h
    · exact ht'.not_straddles hF h
  have hids : t.id S ≠ t'.id S := fun h => htexts (hsha h)
  refine ⟨htexts, hids, ?_, ?_⟩
  · intro env env' c c' args args' mid ps ht ht' hok herr
    obtain ⟨m, hm, rfl⟩ := createMarket_eq_ok hok
    rw [createMarket_exists_iff ht'] at herr ⊢
    obtain ⟨hpass, hsome⟩ := herr
    refine ⟨⟨hpass.active, hpass.rates, hpass.tokens⟩, ?_⟩
    have hother : t'.id S ≠ mid := by
      rw [hm.id_eq ht]
      exact hids.symm
    have hlookup : (c.list mid m).markets.lookup (t'.id S) = c.markets.lookup (t'.id S) :=
      AList.lookup_insert_ne hother
    rwa [hlookup] at hsome
  · intro env env' c c' c₁ c₁' args args' mid mid' ps ps' ht ht' hok hok'
    obtain ⟨m, hm, -⟩ := createMarket_eq_ok hok
    obtain ⟨m', hm', -⟩ := createMarket_eq_ok hok'
    rw [hm.id_eq ht, hm'.id_eq ht']
    exact hids

/-! ## Markets of one game -/

namespace Gold

open Engine

def library : Sdk Book := hashing "tonic.near mft:game.near:gold 1 ft 1 ft:usd.near 1"
  0xb823e799393614f2d651413147303e02cc874ca6a0766bec42adbe5bd5315bfc#256

theorem tokenLaws : TokenLaws library := ⟨tokenKey_injective⟩

theorem keyForm : KeyForm library where
  near := rfl
  fungible := fun _ => rfl
  multiFungible := fun _ _ => rfl
  read := colon_notMem_of_fromKey

def gold : Listing := ⟨.multiFungibleToken game "gold", 1, .fungibleToken usd, 1⟩

/-- The id of this token goes on where the text of the other market does. -/
def goldFt : Listing := ⟨.multiFungibleToken game "gold 1 ft", 1, .fungibleToken usd, 1⟩

end Gold

theorem market_ids_apart_gold : Gold.gold.Apart Gold.library Gold.goldFt := by
  have asks : CreateMarketArgs.AsksFor Gold.library
      ⟨"mft:game.near:gold", "ft:usd.near", 1, 1, 100, 50⟩ Gold.gold :=
    ⟨by decide +kernel, by decide +kernel, rfl, rfl⟩
  have asksFt : CreateMarketArgs.AsksFor Gold.library
      ⟨"mft:game.near:gold 1 ft", "ft:usd.near", 1, 1, 100, 50⟩ Gold.goldFt :=
    ⟨by decide +kernel, by decide +kernel, rfl, rfl⟩
  exact market_ids_apart Gold.tokenLaws Gold.keyForm (by decide) asks asksFt
    fun h => absurd h (by decide +kernel)

end TonicDex
