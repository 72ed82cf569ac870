/-
  Reading Borsh.

  A reader takes a value off the front of the bytes, or fails.  `Reads r bs x`
  says that `r` takes `x` off `bs`, whatever follows; there is a rule for a
  sequence of readers and one for each format.  A map is read by inserting its
  entries one after the other, so what is read is the map that was written, up
  to the order of the entries (`Matches`).
-/
import TonicDex.Lib.Borsh

namespace Borsh

variable {α β κ ν : Type}

abbrev Reader := StateT Bytes Option

/-! ## Readers -/

/-- The integer with these bytes, the lowest first. -/
def ofBytes : Bytes → ℕ
  | [] => 0
  | b :: bs => b.toNat + 256 * ofBytes bs

/-- The next `n` bytes. -/
def take (n : ℕ) : Reader Bytes := fun bs =>
  if n ≤ bs.length then some (bs.take n, bs.drop n) else none

def readUint (width : ℕ) : Reader ℕ := do
  let bs ← take width
  return ofBytes bs

def readStr : Reader String := do
  let n ← readUint 4
  let bs ← take n
  StateT.lift (String.fromUTF8? ⟨bs.toArray⟩)

/-- Insert the next `n` entries. -/
def readEntries [DecidableEq κ] (key : Reader κ) (value : Reader ν) :
    ℕ → HMap κ ν → Reader (HMap κ ν)
  | 0, m => return m
  | n + 1, m => do
    let k ← key
    let v ← value
    readEntries key value n (m.insert k v)

def readMap [DecidableEq κ] (key : Reader κ) (value : Reader ν) : Reader (HMap κ ν) := do
  let n ← readUint 4
  readEntries key value n ∅

/-- `try_from_slice`: read a value, and leave no bytes over. -/
def parse (r : Reader α) (bs : Bytes) : Option α :=
  match r bs with
  | some (x, []) => some x
  | _ => none

/-! ## What is read -/

/-- The reader takes `x` off `bs`, whatever follows. -/
def Reads (r : Reader α) (bs : Bytes) (x : α) : Prop := ∀ rest, r (bs ++ rest) = some (x, rest)

variable {r : Reader α} {f : α → Reader β} {bs bs' : Bytes} {x : α} {y : β}

theorem Reads.pure (x : α) : Reads (pure x) [] x := fun _ => rfl

theorem Reads.bind (h : Reads r bs x) (h' : Reads (f x) bs' y) : Reads (r >>= f) (bs ++ bs') y := by
  intro rest
  rw [List.append_assoc]
  show (r (bs ++ (bs' ++ rest))).bind _ = _
  rw [h]
  exact h' rest

/-- The last reader of a sequence may read nothing. -/
theorem Reads.map {g : α → β} (h : Reads r bs x) : Reads (do return g (← r)) bs (g x) := by
  have hb : Reads (do return g (← r)) (bs ++ []) (g x) := h.bind (.pure (g x))
  rwa [List.append_nil] at hb

theorem Reads.parse (h : Reads r bs x) : parse r bs = some x := by
  have hr := h []
  rw [List.append_nil] at hr
  rw [Borsh.parse, hr]

/-! ## Integers and strings -/

theorem uint_succ (width n : ℕ) : uint (width + 1) n = UInt8.ofNat n :: uint width (n / 256) := by
  simp only [uint, List.range_succ_eq_map, List.map_cons, List.map_map, pow_zero, Nat.div_one]
  congr 1
  refine List.map_congr_left fun i _ => ?_
  rw [Function.comp, Nat.pow_succ', Nat.div_div_eq_div_mul]

theorem ofBytes_uint (width n : ℕ) : ofBytes (uint width n) = n % 256 ^ width := by
  induction width generalizing n with
  | zero => simp [uint, ofBytes, Nat.mod_one]
  | succ width ih =>
    rw [uint_succ, ofBytes, ih, Nat.pow_succ', Nat.mod_mul, UInt8.toNat_ofNat']

theorem reads_take (bs : Bytes) : Reads (take bs.length) bs bs := by
  intro rest
  rw [take, if_pos (by rw [List.length_append]; exact Nat.le_add_right _ _), List.take_left,
    List.drop_left]

theorem reads_uint (width : ℕ) {n : ℕ} (h : n < 2 ^ (8 * width)) :
    Reads (readUint width) (uint width n) n := by
  have hlt : n < 256 ^ width := h.trans_eq (Nat.pow_mul 2 8 width)
  have htake := reads_take (uint width n)
  rw [length_uint] at htake
  have hread := htake.map (g := ofBytes)
  rwa [ofBytes_uint, Nat.mod_eq_of_lt hlt] at hread

theorem fromUTF8?_toByteArray (s : String) : String.fromUTF8? s.toByteArray = some s := by
  rw [String.fromUTF8?, dif_pos s.isValidUTF8, String.fromUTF8]

theorem reads_str {s : String} (h : s.utf8ByteSize < 2 ^ 32) : Reads readStr (str s) s := by
  refine (reads_uint 4 h).bind ?_
  have htake : Reads (take s.utf8ByteSize) s.toByteArray.data.toList _ :=
    reads_take s.toByteArray.data.toList
  rw [← List.append_nil s.toByteArray.data.toList]
  refine htake.bind fun rest => ?_
  show (String.fromUTF8? s.toByteArray).bind _ = _
  rw [fromUTF8?_toByteArray]
  rfl

/-! ## Maps -/

/-- The same keys, with related values. -/
structure Matches [DecidableEq κ] (R : ν → ν → Prop) (m m' : HMap κ ν) : Prop where
  some : ∀ k v, m.lookup k = some v → ∃ v', m'.lookup k = some v' ∧ R v v'
  none : ∀ k, m.lookup k = none → m'.lookup k = none

theorem Matches.lookup_eq [DecidableEq κ] {m m' : HMap κ ν} (h : Matches Eq m m') (k : κ) :
    m'.lookup k = m.lookup k := by
  rcases hk : m.lookup k with _ | v
  · exact h.none k hk
  · obtain ⟨_, hv, rfl⟩ := h.some k v hk
    exact hv

variable [DecidableEq κ] {key : Reader κ} {value : Reader ν} {encodeKey : κ → Bytes}
  {encodeValue : ν → Bytes} {R : ν → ν → Prop}

/-- Reading entries with different keys: what they say is found, and the rest as before. -/
theorem reads_entries : ∀ {l : List (Sigma fun _ : κ => ν)}, l.NodupKeys →
    (∀ e ∈ l, Reads key (encodeKey e.1) e.1) →
    (∀ e ∈ l, ∃ v, Reads value (encodeValue e.2) v ∧ R e.2 v) → ∀ m : HMap κ ν,
    ∃ m', Reads (readEntries key value l.length m)
        (l.flatMap fun e => encodeKey e.1 ++ encodeValue e.2) m' ∧
      (∀ k v, l.dlookup k = some v → ∃ v', m'.lookup k = some v' ∧ R v v') ∧
      ∀ k, l.dlookup k = none → m'.lookup k = m.lookup k
  | [], _, _, _, m => ⟨m, .pure m, fun _ _ h => (by cases h), fun _ _ => rfl⟩
  | ⟨k₀, v₀⟩ :: l, hl, hkeys, hvalues, m => by
    obtain ⟨hnew, hrest⟩ := List.nodupKeys_cons.1 hl
    obtain ⟨hkey, hkeys⟩ := List.forall_mem_cons.1 hkeys
    obtain ⟨⟨v₁, hvalue, hrel⟩, hvalues⟩ := List.forall_mem_cons.1 hvalues
    obtain ⟨m', hread, hsome, hnone⟩ := reads_entries hrest hkeys hvalues (m.insert k₀ v₁)
    refine ⟨m', ?_, fun k v hk => ?_, fun k hk => ?_⟩
    · rw [List.flatMap_cons, List.append_assoc]
      exact hkey.bind (hvalue.bind hread)
    · by_cases hkk : k = k₀
      · subst hkk
        rw [List.dlookup_cons_eq] at hk
        cases hk
        exact ⟨v₁, by rw [hnone k (List.dlookup_eq_none.2 hnew), AList.lookup_insert], hrel⟩
      · rw [List.dlookup_cons_ne _ _ hkk] at hk
        exact hsome k v hk
    · have hkk : k ≠ k₀ := by
        rintro rfl
        rw [List.dlookup_cons_eq] at hk
        cases hk
      rw [List.dlookup_cons_ne _ _ hkk] at hk
      rw [hnone k hk, AList.lookup_insert_ne hkk]

/-- **A map is read back**, up to the order of its entries. -/
theorem reads_map (le : κ → κ → Bool) {m : HMap κ ν} (hsize : m.size < 2 ^ 32)
    (hkeys : ∀ k v, m.lookup k = some v → Reads key (encodeKey k) k)
    (hvalues : ∀ k v, m.lookup k = some v → ∃ v', Reads value (encodeValue v) v' ∧ R v v') :
    ∃ m', Reads (readMap key value) (map le encodeKey encodeValue m) m' ∧ Matches R m m' := by
  have hperm := List.mergeSort_perm m.entries fun x y => le x.1 y.1
  have hnodup := (List.perm_nodupKeys hperm).2 m.nodupKeys
  have hmem : ∀ e ∈ m.entries.mergeSort fun x y => le x.1 y.1, m.lookup e.1 = some e.2 :=
    fun e he => AList.mem_lookup_iff.2 (hperm.mem_iff.1 he)
  have hlookup : ∀ k, (m.entries.mergeSort fun x y => le x.1 y.1).dlookup k = m.lookup k :=
    fun k => List.perm_dlookup k hnodup hperm
  obtain ⟨m', hread, hsome, hnone⟩ := reads_entries (R := R) hnodup
    (fun e he => hkeys e.1 e.2 (hmem e he)) (fun e he => hvalues e.1 e.2 (hmem e he)) ∅
  have hlen : (m.entries.mergeSort fun x y => le x.1 y.1).length = m.size := by
    rw [hperm.length_eq, HMap.size, AList.keys, List.keys, List.length_map]
  rw [hlen] at hread
  refine ⟨m', (reads_uint 4 hsize).bind hread, fun k v hk => ?_, fun k hk => ?_⟩
  · exact hsome k v ((hlookup k).trans hk)
  · rw [hnone k ((hlookup k).trans hk), AList.lookup_empty]

/-! ## What can be read -/

/-- Whatever the reader takes off some bytes satisfies `Q`. -/
def Yields (Q : α → Prop) (r : Reader α) : Prop := ∀ bs x rest, r bs = some (x, rest) → Q x

theorem Yields.pure {Q : α → Prop} (h : Q x) : Yields Q (pure x : Reader α) := by
  intro bs y rest hy
  cases hy
  exact h

theorem Yields.bind {P : α → Prop} {Q : β → Prop} (h : Yields P r)
    (h' : ∀ x, P x → Yields Q (f x)) : Yields Q (r >>= f) := by
  intro bs y rest hy
  obtain ⟨⟨x, bs'⟩, hx, hy⟩ := Option.bind_eq_some_iff.1 hy
  exact h' x (h _ _ _ hx) _ _ _ hy

theorem Yields.parse {Q : α → Prop} (h : Yields Q r) (hx : Borsh.parse r bs = some x) : Q x := by
  unfold Borsh.parse at hx
  split at hx
  · next hr =>
    cases hx
    exact h _ _ _ hr
  · cases hx

theorem ofBytes_lt : ∀ bs : Bytes, ofBytes bs < 256 ^ bs.length
  | [] => Nat.one_pos
  | b :: bs => by
    have ih := ofBytes_lt bs
    have hb := b.toNat_lt
    rw [ofBytes, List.length_cons, Nat.pow_succ']
    omega

theorem yields_take (n : ℕ) : Yields (fun bs => bs.length = n) (take n) := by
  intro bs x rest h
  unfold take at h
  split_ifs at h with hn
  cases h
  exact List.length_take_of_le hn

theorem yields_uint (width : ℕ) : Yields (· < 2 ^ (8 * width)) (readUint width) := by
  refine (yields_take width).bind fun bs hbs => .pure ?_
  rw [Nat.pow_mul, ← hbs]
  exact ofBytes_lt bs

theorem yields_str : Yields (fun s => s.utf8ByteSize < 2 ^ 32) readStr := by
  refine (yields_uint 4).bind fun n hn => (yields_take n).bind fun bs hbs => ?_
  intro _ s _ hs
  obtain ⟨s', hs', heq⟩ := Option.bind_eq_some_iff.1 hs
  cases heq
  unfold String.fromUTF8? at hs'
  split_ifs at hs' with hvalid
  cases hs'
  show bs.length < 2 ^ 32
  rw [hbs]
  exact hn

theorem yields_entries {P : κ → Prop} {Q : ν → Prop} (hkey : Yields P key)
    (hvalue : Yields Q value) : ∀ (n : ℕ) (m : HMap κ ν),
    (∀ k v, m.lookup k = some v → P k ∧ Q v) → Yields
      (fun m' => m'.size ≤ m.size + n ∧ ∀ k v, m'.lookup k = some v → P k ∧ Q v)
      (readEntries key value n m)
  | 0, m, hm => .pure ⟨le_rfl, hm⟩
  | n + 1, m, hm => by
    refine hkey.bind fun k hk => hvalue.bind fun v hv => ?_
    intro bs m' rest hread
    obtain ⟨hsize, hall⟩ := yields_entries hkey hvalue n (m.insert k v)
      (HMap.forall_insert hm ⟨hk, hv⟩) _ _ _ hread
    have hinsert := HMap.size_insert_le m k v
    exact ⟨by omega, hall⟩

theorem yields_map {P : κ → Prop} {Q : ν → Prop} (hkey : Yields P key) (hvalue : Yields Q value) :
    Yields (fun m => m.size < 2 ^ 32 ∧ ∀ k v, m.lookup k = some v → P k ∧ Q v)
      (readMap key value) := by
  refine (yields_uint 4).bind fun n hn => ?_
  intro bs m rest hread
  obtain ⟨hsize, hall⟩ := yields_entries hkey hvalue n ∅ (fun k v h => by cases h) _ _ _ hread
  have hzero : HMap.size (∅ : HMap κ ν) = 0 := rfl
  exact ⟨by omega, hall⟩

end Borsh
