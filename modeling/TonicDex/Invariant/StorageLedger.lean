/-
  The storage ledger.

  Every stored account is covered by its storage balance, so neither formula for
  what is available of it underflows, and whatever is available can be taken
  out.  A run that keeps the books of what was attached to `storage_deposit` and
  what was paid back (`StorageBook`) finds the difference in the storage
  balances, to the yoctoNEAR.
-/
import TonicDex.Invariant.Solvency
import TonicDex.Invariant.Storage

namespace TonicDex

variable {B : Type} {S : Sdk B} {c c' : Contract B} {e : Effect B} {es : List (Effect B)}
  {env : Env} {op : Op} {ps : List Promise} {id : AccountId} {a : Account}

/-! ## What is available -/

/-- The storage balance that an account does not need. -/
def Account.spare (S : Sdk B) (a : Account) : ℕ := a.storageBalance - a.storageBalanceLocked S

theorem Account.size_le_borshSize (a : Account) : Size.account ≤ a.borshSize S := by
  unfold borshSize
  omega

/-- What is locked is never below the minimal balance. -/
theorem Account.max_locked (a : Account) :
    max (a.borshSize S * S.storageByteCost) (storageBalanceMin S) = a.storageBalanceLocked S :=
  max_eq_left (Nat.mul_le_mul_right _ a.size_le_borshSize)

theorem Account.storageBalanceAvailable_of_covered (h : a.isStorageCovered S) :
    a.storageBalanceAvailable S = .ok (a.spare S) :=
  Checked.sub_eq_ok.2 ⟨h, rfl⟩

theorem internalStorageBalanceOf_of_covered (ha : c.accounts.lookup id = some a)
    (h : a.isStorageCovered S) :
    internalStorageBalanceOf S c id = .ok (some ⟨a.storageBalance, a.spare S⟩) := by
  have hsub : sub a.storageBalance (max (a.borshSize S * S.storageByteCost)
      (storageBalanceMin S)) = .ok (a.spare S) := by
    rw [Account.max_locked]
    exact Checked.sub_eq_ok.2 ⟨h, rfl⟩
  unfold internalStorageBalanceOf Contract.internalGetAccount
  rw [ha]
  simp only [Option.mapM_some, hsub, Checked.ok_bind]
  rfl

/-- The account after taking out `n` of its storage balance. -/
def Account.withoutStorage (a : Account) (n : ℕ) : Account :=
  { a with storageBalance := a.storageBalance - n }

theorem Account.covered_withoutStorage (h : a.isStorageCovered S) {n : ℕ} (hn : n ≤ a.spare S) :
    (a.withoutStorage n).isStorageCovered S := by
  have hsame : (a.withoutStorage n).storageBalanceLocked S = a.storageBalanceLocked S := rfl
  unfold Account.spare at hn
  unfold isStorageCovered at h ⊢
  rw [hsame]
  change _ ≤ a.storageBalance - n
  omega

/-- Taking out nothing may leave the account unsaved. -/
theorem takeStorage_of_le (ha : c.accounts.lookup id = some a) (h : a.isStorageCovered S) {n : ℕ}
    (hn : n ≤ a.spare S) : ∃ c', takeStorage S c id n = .ok (transfers id n, c') ∧
      c'.accounts.lookup id = some (a.withoutStorage n) := by
  unfold takeStorage transfers
  split_ifs with hpos
  · have hle : n ≤ a.storageBalance := hn.trans (Nat.sub_le _ _)
    refine ⟨c.putAccount id (a.withoutStorage n), ?_, AList.lookup_insert _⟩
    simp only [Checked.bind_eq_ok, Contract.internalUnwrapAccount_eq_ok, Checked.sub_eq_ok,
      Contract.internalSaveAccount_eq_ok, Checked.pure_eq_ok]
    exact ⟨a, ha, _, ⟨hle, rfl⟩, _, ⟨Account.covered_withoutStorage h hn, rfl⟩, rfl⟩
  · obtain rfl : n = 0 := by omega
    exact ⟨c, rfl, ha⟩

/-- Whatever is available can be withdrawn. -/
theorem storageWithdraw_of_le (hact : c.state = .active) (hone : env.attachedDeposit = 1)
    (ha : c.accounts.lookup env.predecessorAccountId = some a) (h : a.isStorageCovered S)
    {amount : Option ℕ} (hle : amount.getD (a.spare S) ≤ a.spare S) :
    ∃ c', storageWithdraw S env c amount =
        .ok (⟨a.storageBalance - amount.getD (a.spare S),
            (a.withoutStorage (amount.getD (a.spare S))).spare S⟩,
          transfers env.predecessorAccountId (amount.getD (a.spare S)), c') ∧
      c'.accounts.lookup env.predecessorAccountId =
        some (a.withoutStorage (amount.getD (a.spare S))) := by
  obtain ⟨c', htake, hlookup⟩ := takeStorage_of_le ha h hle
  have hafter := internalStorageBalanceOf_of_covered hlookup (Account.covered_withoutStorage h hle)
  refine ⟨c', ?_, hlookup⟩
  simp only [storageWithdraw, Contract.assertActive, assertOneYocto, Checked.bind_eq_ok,
    Checked.require_eq_ok]
  refine ⟨(), hact, (), hone, _, internalStorageBalanceOf_of_covered ha h, ?_⟩
  simp only [Checked.bind_eq_ok, Checked.require_eq_ok]
  exact ⟨(), hle, _, htake, _, hafter, _, rfl, rfl⟩

/-! ## The books -/

/-- The yoctoNEAR that promises transfer. -/
def transferred (ps : List Promise) : ℕ :=
  (ps.map fun
    | .transfer _ n => n
    | _ => 0).sum

/-- What was paid in and out for storage. -/
structure StorageBook where
  attached : ℕ
  refunded : ℕ
  withdrawn : ℕ
  unregistered : ℕ
  deriving DecidableEq

namespace StorageBook

/-- The books after a call that returned the promises `ps`. -/
def enter (l : StorageBook) (env : Env) (ps : List Promise) : Op → StorageBook
  | .storageDeposit .. =>
    { l with
      attached := l.attached + env.attachedDeposit
      refunded := l.refunded + transferred ps }
  | .storageWithdraw _ => { l with withdrawn := l.withdrawn + transferred ps }
  | .storageUnregister => { l with unregistered := l.unregistered + transferred ps }
  | _ => l

/-- The books after an event; a call that panicked does not count. -/
def note (S : Sdk B) (l : StorageBook) (s : System B) : Event → StorageBook
  | .call env op =>
    match perform S env s.contract op with
    | .ok (ps, _) => l.enter env ps op
    | .error _ => l
  | .resolve .. => l

/-- What was paid back. -/
def paid (l : StorageBook) : ℕ := l.refunded + l.withdrawn + l.unregistered

end StorageBook

/-- The states reached from a new contract, each with its books. -/
abbrev System.Booked (S : Sdk B) : System B × StorageBook → Prop :=
  Runs.Recorded (fun s => ∃ ownerId, s = System.init ownerId) (System.step S) (StorageBook.note S)
    ⟨0, 0, 0, 0⟩ fun _ _ => True

/-! ## What calls pay in and out -/

/-- What an effect adds to the storage balances. -/
def Effect.storageIn : Effect B → ℕ
  | storage _ inn _ => inn
  | _ => 0

/-- What an effect takes off the storage balances. -/
def Effect.storageOut : Effect B → ℕ
  | storage _ _ out => out
  | unregister _ n => n
  | _ => 0

/-- Only the storage methods touch storage balances. -/
theorem Does.storageTotal_add (hB : BookLaws S) (h : Does S c e c') (hc : BooksOk S c) :
    c'.storageTotal + e.storageOut = c.storageTotal + e.storageIn := by
  cases h with
  | credit found covered => exact storageTotal_putAccount found rfl
  | debit found paid covered =>
    exact storageTotal_putAccount found ((Account.withdraw_eq_ok.1 paid).2 ▸ rfl)
  | @storage id a inn out total found sum covered =>
    have hput := HMap.total_insert_add c.accounts (fun _ a => a.storageBalance) id
      { a with storageBalance := total }
    have hold : (c.accounts.lookup id).elim 0 Account.storageBalance = a.storageBalance := by
      obtain he | ⟨he, rfl⟩ := found
      · rw [he]; rfl
      · rw [he]; rfl
    rw [hold] at hput
    dsimp only at hput
    simp only [Contract.storageTotal, Contract.putAccount, Effect.storageIn, Effect.storageOut]
    omega
  | @unregister id a found empty =>
    have herase := HMap.total_erase_add c.accounts (fun _ a => a.storageBalance) id
    rw [found] at herase
    exact herase
  | order run => exact run.storageTotal_eq hB (hc _ _ run.found)
  | hop run =>
    rw [congrArg Contract.storageTotal run.state]
    exact run.traded.storageTotal_eq
  | cancel run => exact run.storageTotal_eq
  | _ => rfl

theorem Effects.storageTotal_add (hB : BookLaws S) (h : Effects S c es c') (hc : BooksOk S c) :
    c'.storageTotal + (es.map Effect.storageOut).sum =
      c.storageTotal + (es.map Effect.storageIn).sum := by
  induction h with
  | nil c => rfl
  | cons head tail ih =>
    have h1 := head.storageTotal_add hB hc
    have h2 := ih (head.booksOk hB hc)
    simp only [List.map_cons, List.sum_cons]
    omega

/-- Effects that touch no storage balance add up to nothing. -/
theorem storage_sums_of_forall (h : ∀ e ∈ es, e.storageIn = 0 ∧ e.storageOut = 0) :
    (es.map Effect.storageIn).sum = 0 ∧ (es.map Effect.storageOut).sum = 0 := by
  constructor
  · refine List.sum_eq_zero fun n hn => ?_
    obtain ⟨e, he, rfl⟩ := List.mem_map.1 hn
    exact (h e he).1
  · refine List.sum_eq_zero fun n hn => ?_
    obtain ⟨e, he, rfl⟩ := List.mem_map.1 hn
    exact (h e he).2

theorem Hops.no_storage {swaps : List SwapAction} {x y : TokenType × ℕ}
    (h : Hops env swaps x es y) : ∀ e ∈ es, e.storageIn = 0 ∧ e.storageOut = 0 := by
  induction h with
  | nil x => intro e he; cases he
  | cons rest ih => exact List.forall_mem_cons.2 ⟨⟨rfl, rfl⟩, ih⟩

theorem transferred_transfers (id : AccountId) (n : ℕ) : transferred (transfers id n) = n := by
  unfold transfers
  split_ifs with hn
  · rfl
  · exact (Nat.eq_zero_of_not_pos hn).symm

/-- The methods that are about storage. -/
def Op.isStorage : Op → Bool
  | storageDeposit .. | storageWithdraw _ | storageUnregister => true
  | _ => false

/-- No other method touches a storage balance. -/
theorem Shape.no_storage (h : Shape S c env op ps es) (hop : op.isStorage = false) :
    ∀ e ∈ es, e.storageIn = 0 ∧ e.storageOut = 0 := by
  intro e he
  cases h with
  | storageDeposit | storageKept | storageWithdraw | storageUnregister => cases hop
  | swap method hops => exact hops.no_storage e he
  | execute trades => obtain _ | _ := trades _ he <;> exact ⟨rfl, rfl⟩
  | adminCancel method cancels =>
    obtain ⟨owner, ids, rfl, -⟩ := cancels _ he
    exact ⟨rfl, rfl⟩
  | mtDeposit =>
    obtain ⟨x, -, rfl⟩ := List.mem_map.1 he
    exact ⟨rfl, rfl⟩
  | notDeleted => cases he
  | _ =>
    cases List.mem_singleton.1 he
    exact ⟨rfl, rfl⟩

theorem StorageBook.enter_of_not_storage (l : StorageBook) (hop : op.isStorage = false) :
    l.enter env ps op = l := by
  cases op with
  | storageDeposit | storageWithdraw | storageUnregister => cases hop
  | _ => rfl

/-- The books and the storage balances move by the same amounts. -/
theorem Shape.book (h : Shape S c env op ps es) (l : StorageBook) :
    (l.enter env ps op).attached + l.paid + (es.map Effect.storageOut).sum =
      l.attached + (l.enter env ps op).paid + (es.map Effect.storageIn).sum := by
  by_cases hop : op.isStorage = false
  · obtain ⟨hin, hout⟩ := storage_sums_of_forall (h.no_storage hop)
    rw [l.enter_of_not_storage hop, hin, hout]
  unfold StorageBook.paid
  cases h with
  | @storageDeposit id only inn refund es sum effects =>
    have hin : (es.map Effect.storageIn).sum = inn ∧ (es.map Effect.storageOut).sum = 0 := by
      obtain ⟨rfl, rfl⟩ | rfl := effects
      · exact ⟨rfl, rfl⟩
      · exact ⟨rfl, rfl⟩
    rw [hin.1, hin.2]
    simp only [StorageBook.enter, transferred_transfers]
    omega
  | storageKept => rfl
  | @storageWithdraw n out pos =>
    simp only [StorageBook.enter, transferred, List.map_cons, List.map_nil, List.sum_cons,
      List.sum_nil, Effect.storageIn, Effect.storageOut]
    omega
  | @storageUnregister n =>
    simp only [StorageBook.enter, transferred, List.map_cons, List.map_nil, List.sum_cons,
      List.sum_nil, Effect.storageIn, Effect.storageOut]
    omega
  | withdraw pos method =>
    obtain rfl | ⟨_, rfl⟩ | ⟨_, _, rfl⟩ := method <;> exact absurd rfl hop
  | swap method hops => obtain ⟨rfl, -⟩ | ⟨rfl, -⟩ := method <;> exact absurd rfl hop
  | admin method => obtain ⟨_, rfl⟩ | ⟨_, rfl⟩ := method <;> exact absurd rfl hop
  | setWindow method => obtain ⟨_, rfl⟩ | ⟨_, rfl⟩ := method <;> exact absurd rfl hop
  | adminCancel method cancels =>
    obtain ⟨_, rfl⟩ | ⟨_, rfl⟩ | ⟨_, rfl⟩ := method <;> exact absurd rfl hop
  | _ => exact absurd rfl hop

/-- A promise that is resolved touches no storage balance. -/
theorem Resolution.no_storage {p : Promise} {paid : Option (TokenType × ℕ)}
    (h : Resolution S c p es paid) : ∀ e ∈ es, e.storageIn = 0 ∧ e.storageOut = 0 := by
  intro e he
  cases h with
  | credited =>
    cases List.mem_singleton.1 he
    exact ⟨rfl, rfl⟩
  | metadata subtoken promise callback =>
    cases callback with
    | nothing => cases he
    | _ =>
      cases List.mem_singleton.1 he
      exact ⟨rfl, rfl⟩
  | _ => cases he

/-! ## Runs -/

/-- Calls of the methods that are about storage. -/
def Event.isStorage : Event → Bool
  | call _ op => op.isStorage
  | resolve .. => false

theorem Effects.storageTotal_eq (hB : BookLaws S) (h : Effects S c es c') (hc : BooksOk S c)
    (hes : ∀ e ∈ es, e.storageIn = 0 ∧ e.storageOut = 0) : c'.storageTotal = c.storageTotal := by
  have hadd := h.storageTotal_add hB hc
  obtain ⟨hin, hout⟩ := storage_sums_of_forall hes
  omega

/-- No other event changes what is deposited for storage. -/
theorem System.storageTotal_step (hB : BookLaws S) {s : System B}
    (hc : BooksOk S s.contract) {ev : Event} (hev : ev.isStorage = false) :
    (System.step S s ev).contract.storageTotal = s.contract.storageTotal := by
  have hcase := step_cases hB s ev
  generalize System.step S s ev = s' at hcase ⊢
  cases hcase with
  | unchanged => rfl
  | called performed effects shape => exact effects.storageTotal_eq hB hc (shape.no_storage hev)
  | resolved paid promise effects resolution =>
    exact effects.storageTotal_eq hB hc resolution.no_storage

/-- Each event enters into the books what it moves. -/
theorem StorageBook.note_step (hB : BookLaws S) {s : System B}
    (hc : BooksOk S s.contract) (l : StorageBook) (ev : Event)
    (h : s.contract.storageTotal + l.paid = l.attached) :
    (System.step S s ev).contract.storageTotal + (l.note S s ev).paid =
      (l.note S s ev).attached := by
  cases ev with
  | resolve i out =>
    have hev : (Event.resolve i out).isStorage = false := rfl
    rw [System.storageTotal_step hB hc hev]
    exact h
  | call env op =>
    rcases hp : perform S env s.contract op with e | ⟨ps, c'⟩
    · simp only [System.step, StorageBook.note, hp]
      exact h
    · obtain ⟨es, hes, hshape⟩ := perform_effects hB hp
      have hadd := hes.storageTotal_add hB hc
      have hbook := hshape.book l
      simp only [System.step, StorageBook.note, hp]
      omega

theorem storageTotal_of_booked (hB : BookLaws S) {x : System B × StorageBook}
    (hx : System.Booked S x) : x.1.contract.storageTotal + x.2.paid = x.2.attached := by
  refine hx.invariant (P := fun x => x.1.contract.storageTotal + x.2.paid = x.2.attached) ?_
    fun x ev hx _ h => StorageBook.note_step hB (booksOk_of_reach hB hx.unrecorded) x.2 ev h
  rintro ⟨s, l⟩ ⟨⟨id, rfl⟩, rfl⟩
  rfl

/-- **The storage ledger.**  In every reachable state, with the books of the run
    that led to it: every account is covered and at least of the minimal size,
    nothing underflows in either formula for what is available, and whatever is
    available can be taken out, which leaves the account covered; the storage
    balances add up to what was attached to `storage_deposit`, less what was paid
    back; and no event but a call about storage changes that sum. -/
theorem storage_ledger (hB : BookLaws S) {s : System B} {l : StorageBook}
    (hs : System.Booked S (s, l)) :
    (∀ id a, s.contract.accounts.lookup id = some a →
      a.borshSize S * S.storageByteCost ≤ a.storageBalance ∧ Size.account ≤ a.borshSize S ∧
      a.storageBalanceAvailable S = .ok (a.spare S) ∧
      internalStorageBalanceOf S s.contract id = .ok (some ⟨a.storageBalance, a.spare S⟩) ∧
      ∀ env amount, env.predecessorAccountId = id → s.contract.state = .active →
        env.attachedDeposit = 1 → amount.getD (a.spare S) ≤ a.spare S →
        ∃ bal c', storageWithdraw S env s.contract amount =
            .ok (bal, transfers id (amount.getD (a.spare S)), c') ∧
          ∃ a', c'.accounts.lookup id = some a' ∧ a'.isStorageCovered S ∧
            a'.storageBalance + amount.getD (a.spare S) = a.storageBalance) ∧
    s.contract.storageTotal + (l.refunded + l.withdrawn + l.unregistered) = l.attached ∧
    ∀ ev, ev.isStorage = false →
      (System.step S s ev).contract.storageTotal = s.contract.storageTotal := by
  refine ⟨fun id a ha => ?_, storageTotal_of_booked hB hs, fun ev hev =>
    System.storageTotal_step hB (booksOk_of_reach hB hs.unrecorded) hev⟩
  have hcov := covered_of_reach hB hs.unrecorded id a ha
  refine ⟨hcov, a.size_le_borshSize, a.storageBalanceAvailable_of_covered hcov,
    internalStorageBalanceOf_of_covered ha hcov, ?_⟩
  rintro env amount rfl hact hone hle
  obtain ⟨c', hok, hlookup⟩ := storageWithdraw_of_le hact hone ha hcov hle
  have hspare : a.spare S ≤ a.storageBalance := Nat.sub_le _ _
  exact ⟨_, c', hok, _, hlookup, Account.covered_withoutStorage hcov hle,
    Nat.sub_add_cancel (hle.trans hspare)⟩

/-- The books of a run of the library. -/
def Engine.booked (es : List Event) : System Engine.Book × StorageBook :=
  es.foldl (fun x e => (System.step Engine.sdk x.1 e, StorageBook.note Engine.sdk x.2 x.1 e))
    (.init Engine.dao, ⟨0, 0, 0, 0⟩)

/-- Alice registers twice, and takes out what she does not need; Bob leaves. -/
def storing : List Event := [Engine.register Engine.alice, Engine.register Engine.bob,
  .call (Engine.calling Engine.alice (10 ^ 22)) (.storageDeposit none (some true)),
  .call (Engine.calling Engine.alice 1) (.storageWithdraw none),
  .call (Engine.calling Engine.bob 1) .storageUnregister]

/-- All she has left is the minimal balance. -/
theorem storage_ledger_storing : (Engine.booked storing).2 =
      ⟨3 * 10 ^ 22, 10 ^ 22, 10 ^ 22 - 138 * 10 ^ 19, 10 ^ 22⟩ ∧
    (Engine.booked storing).1.contract.storageTotal = 138 * 10 ^ 19 := by
  have hbook : (Engine.booked storing).2 =
      ⟨3 * 10 ^ 22, 10 ^ 22, 10 ^ 22 - 138 * 10 ^ 19, 10 ^ 22⟩ := by decide +kernel
  have hreach : System.Booked Engine.sdk (Engine.booked storing) :=
    Runs.Reach.foldl (.init ⟨⟨Engine.dao, rfl⟩, rfl⟩) fun _ _ _ => trivial
  obtain ⟨-, hsum, -⟩ := storage_ledger (s := (Engine.booked storing).1)
    (l := (Engine.booked storing).2) Engine.bookLaws hreach
  rw [hbook] at hsum
  exact ⟨hbook, Nat.add_right_cancel hsum⟩

end TonicDex
