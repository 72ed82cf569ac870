/-
  The amounts of an order that views show.

  A view computes the native price and the native open quantity of an order, and
  panics where they do not fit in 128 bits.  Those of a posted order were
  computed when it was placed, and fills make them no larger; so in every run
  they fit (`shown_of_reach`).
-/
import TonicDex.Invariant.Recovery

namespace TonicDex

variable {B : Type} {S : Sdk B} {c c' : Contract B} {e : Effect B} {m m' : Market B}
  {x x' : OpenLimitOrder}

/-- The native price and open quantity of the order fit. -/
structure Market.Shows (m : Market B) (x : OpenLimitOrder) : Prop where
  price : x.limitPriceLots * m.quoteToken.lotSize < 2 ^ 128
  qty : x.openQtyLots * m.baseToken.lotSize < 2 ^ 128

theorem Market.Shows.shrunk (h : m.Shows x) (ht : SameTerms m m') (hsh : Shrunk x x') :
    m'.Shows x' := by
  constructor
  · rw [hsh.1, ht.quoteLot]
    exact h.price
  · rw [ht.baseLot]
    exact (Nat.mul_le_mul_right _ hsh.2).trans_lt h.qty

/-- What every resting order shows fits. -/
def OrdersShown (S : Sdk B) (c : Contract B) : Prop :=
  ∀ mid m x, c.markets.lookup mid = some m → x ∈ S.orders m.orderbook → m.Shows x

theorem Does.ordersShown (hB : BookLaws S) (h : Does S c e c') (hc : BooksOk S c)
    (htyped : e.Typed) (hs : OrdersShown S c) : OrdersShown S c' := by
  refine h.forall_resting hB hc (P := Market.Shows) ?_ ?_ hs
  · intro m m' x x' ht _ hsh hshows
    exact hshows.shrunk ht hsh
  · intro env mid p r c' run price he htype hprice
    subst he
    have hfits := run.posted_fits htyped htype hprice rfl
    exact ⟨hfits.price, hfits.qty⟩

/-- What holds of a new contract, and is kept by every effect whose order satisfies
    `Q`, holds in every run that places only such orders. -/
theorem reach_invariant_of_orders (hB : BookLaws S)
    {ok : System B → Event → Prop} {P : Contract B → Prop} {Q : NewOrderParams → Prop}
    (h₀ : ∀ id, P (.new id))
    (hstep : ∀ e c c', Does S c e c' → BooksOk S c →
      (∀ env mid p r, e = .order env mid p r → Q p) → P c → P c')
    (hok : ∀ s env op, ok s (.call env op) → ∀ y ∈ op.orders, Q y.2) {s : System B}
    (hs : System.Reach S ok s) : P s.contract := by
  refine hs.invariant (P := fun s => P s.contract) ?_ fun s ev hr hev hp => ?_
  · rintro s ⟨id, rfl⟩
    exact h₀ id
  have kept : ∀ {es c'}, Effects S s.contract es c' →
      (∀ env mid p r, .order env mid p r ∈ es → Q p) → P c' := fun hes hQ =>
    (hes.each hB (booksOk_of_reach hB hr) fun e he _ _ _ _ => he).invariant hB
      (booksOk_of_reach hB hr)
      (fun e _ _ head hc he hp => hstep e _ _ head hc (fun _ _ _ _ heq => hQ _ _ _ _ (heq ▸ he)) hp)
      hp
  have hcase := step_cases hB s ev
  generalize System.step S s ev = s' at hcase ⊢
  cases hcase with
  | unchanged => exact hp
  | called performed effects shape =>
    exact kept effects fun _ _ _ _ he => hok _ _ _ hev _ (shape.mem_orders he)
  | resolved paid promise effects resolution =>
    exact kept effects fun _ _ _ _ he => absurd (resolution.no_orders _ he) nofun

/-- **In every run what resting orders show fits.** -/
theorem shown_of_reach (hB : BookLaws S) {ok : System B → Event → Prop}
    (hok : ∀ s ev, ok s ev → ev.Typed) {s : System B} (hs : System.Reach S ok s) :
    OrdersShown S s.contract := by
  refine reach_invariant_of_orders (Q := fun p => ∀ l, p.limitPrice = some l → l < 2 ^ 128) hB
    (fun _ _ _ _ hm => by cases hm)
    (fun e c c' he hc hQ hf => he.ordersShown hB hc ?_ hf) (fun s env op h => hok s _ h) hs
  cases e with
  | order env mid p r => exact hQ env mid p r rfl
  | _ => trivial

end TonicDex
