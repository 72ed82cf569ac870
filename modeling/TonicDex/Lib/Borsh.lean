/-
  Borsh, a binary format.

  Integers are little-endian and of a fixed width.  Strings and maps start with
  their length, of four bytes, and maps list their entries by key.  The length
  of every encoding is a simp lemma.
-/
import TonicDex.Lib.FiniteMap

namespace Borsh

abbrev Bytes := List UInt8

/-- An integer of `width` bytes, the lowest first. -/
def uint (width n : ℕ) : Bytes := (List.range width).map fun i => UInt8.ofNat (n / 256 ^ i)

/-- A string, as its length and its bytes. -/
def str (s : String) : Bytes := uint 4 s.utf8ByteSize ++ s.toByteArray.data.toList

variable {κ ν : Type}

/-- A map, as its size and its entries by key. -/
def map (le : κ → κ → Bool) (key : κ → Bytes) (value : ν → Bytes) (m : HMap κ ν) : Bytes :=
  uint 4 m.size ++
    (m.entries.mergeSort fun x y => le x.1 y.1).flatMap fun e => key e.1 ++ value e.2

@[simp] theorem length_uint (width n : ℕ) : (uint width n).length = width := by simp [uint]

@[simp] theorem length_str (s : String) : (str s).length = 4 + s.utf8ByteSize := by
  rw [str, List.length_append, length_uint]
  rfl

/-- The order of the entries does not matter for the length. -/
@[simp] theorem length_map (le : κ → κ → Bool) (key : κ → Bytes) (value : ν → Bytes)
    (m : HMap κ ν) : (map le key value m).length =
      4 + m.total fun k v => (key k).length + (value v).length := by
  have hperm := List.mergeSort_perm m.entries fun x y => le x.1 y.1
  rw [map, List.length_append, length_uint, List.length_flatMap, HMap.total]
  simp only [List.length_append]
  rw [(hperm.map _).sum_nat]

end Borsh
