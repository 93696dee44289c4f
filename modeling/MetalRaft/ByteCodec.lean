import Mathlib.Data.List.Basic

/-!
# Codes of bytes

Self-delimiting codes: what is written is read back whatever follows it, so that codes can be put
one after the other.

* `Codec` — a writer and a reader with this property.
* `varint` — a number in groups of seven bits, the least significant one first.
* Sequences are preceded by their length; a Boolean is a byte.
-/

set_option autoImplicit false

/-- What is written can be read back, whatever comes after it. -/
class Codec (α : Type) where
  write : α → List UInt8
  read : List UInt8 → Option (α × List UInt8)
  read_write (a : α) (rest : List UInt8) : read (write a ++ rest) = some (a, rest)

namespace Codec

attribute [simp] read_write

/-! ## Numbers -/

/-- Every byte but the last has its highest bit set; `fuel` bounds the number of further bytes. -/
def varintFrom : Nat → Nat → List UInt8
  | 0, n => [UInt8.ofNat n]
  | fuel + 1, n =>
    if n < 128 then [UInt8.ofNat n] else UInt8.ofNat (n % 128 + 128) :: varintFrom fuel (n / 128)

def varint (n : Nat) : List UInt8 := varintFrom n n

def readVarint : List UInt8 → Option (Nat × List UInt8)
  | [] => none
  | b :: bytes =>
    if b.toNat < 128 then some (b.toNat, bytes)
    else (readVarint bytes).map fun r => (b.toNat - 128 + 128 * r.1, r.2)

theorem readVarint_last {n : Nat} (h : n < 128) (rest : List UInt8) :
    readVarint (UInt8.ofNat n :: rest) = some (n, rest) := by
  have hn : (UInt8.ofNat n).toNat = n := by
    rw [UInt8.toNat_ofNat']
    omega
  unfold readVarint
  rw [hn, if_pos h]

theorem readVarint_varintFrom : ∀ (fuel : Nat) {n : Nat}, n ≤ fuel → ∀ rest : List UInt8,
    readVarint (varintFrom fuel n ++ rest) = some (n, rest)
  | 0, n, h, rest => readVarint_last (by omega) rest
  | fuel + 1, n, h, rest => by
    unfold varintFrom
    split
    · rename_i hlast
      exact readVarint_last hlast rest
    · rename_i hmore
      have hbyte : (UInt8.ofNat (n % 128 + 128)).toNat = n % 128 + 128 := by
        rw [UInt8.toNat_ofNat']
        omega
      rw [List.cons_append]
      unfold readVarint
      rw [hbyte, if_neg (by omega), readVarint_varintFrom fuel (by omega) rest, Option.map_some]
      have hsum : n % 128 + 128 - 128 + 128 * (n / 128) = n := by omega
      rw [hsum]

instance : Codec Nat where
  write := varint
  read := readVarint
  read_write n rest := readVarint_varintFrom n (Nat.le_refl n) rest

/-! ## Bytes and Booleans -/

instance : Codec UInt8 where
  write b := [b]
  read
    | [] => none
    | b :: bytes => some (b, bytes)
  read_write _ _ := rfl

instance : Codec Bool where
  write b := [if b then 1 else 0]
  read
    | 0 :: bytes => some (false, bytes)
    | 1 :: bytes => some (true, bytes)
    | _ => none
  read_write b _ := by cases b <;> rfl

/-! ## Sequences -/

section

variable {α : Type} [Codec α]

def readMany : Nat → List UInt8 → Option (List α × List UInt8)
  | 0, bytes => some ([], bytes)
  | count + 1, bytes => do
    let (a, bytes) ← read bytes
    let (as, bytes) ← readMany count bytes
    some (a :: as, bytes)

theorem readMany_flatMap (as : List α) (rest : List UInt8) :
    readMany as.length (as.flatMap write ++ rest) = some (as, rest) := by
  induction as with
  | nil => rfl
  | cons a as ih => simp [readMany, ih]

/-- The length comes first. -/
instance : Codec (List α) where
  write as := write as.length ++ as.flatMap write
  read bytes := do
    let (count, bytes) ← read bytes
    readMany count bytes
  read_write as rest := by simp [readMany_flatMap]

end

end Codec
