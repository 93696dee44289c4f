import Mathlib.Algebra.Group.Nat.Defs
import Mathlib.Data.List.Basic

/-!
# Fixed-width little-endian numbers

`toBytes w n` is the number `n` in `w` bytes, the lowest first; `ofBytes` reads a number back.
Reading inverts writing for the numbers that fit (`ofBytes_toBytes`), also at the front of a longer
list of bytes (`ofBytes_take_append`).
-/

set_option autoImplicit false

namespace LittleEndian

def toBytes : Nat → Nat → List UInt8
  | 0, _ => []
  | w + 1, n => UInt8.ofNat n :: toBytes w (n / 256)

def ofBytes : List UInt8 → Nat
  | [] => 0
  | b :: bs => b.toNat + 256 * ofBytes bs

@[simp] theorem length_toBytes : ∀ w n : Nat, (toBytes w n).length = w
  | 0, _ => rfl
  | w + 1, n => by rw [toBytes, List.length_cons, length_toBytes w]

theorem ofBytes_toBytes : ∀ {w n : Nat}, n < 256 ^ w → ofBytes (toBytes w n) = n
  | 0, n, h => by
    rw [Nat.pow_zero] at h
    exact (Nat.lt_one_iff.mp h).symm
  | w + 1, n, h => by
    have hdiv : n / 256 < 256 ^ w := by
      rw [Nat.pow_succ'] at h
      exact Nat.div_lt_of_lt_mul h
    rw [toBytes, ofBytes, ofBytes_toBytes hdiv, UInt8.toNat_ofNat']
    exact Nat.mod_add_div n 256

/-- What does not fit loses its upper bytes. -/
theorem ofBytes_toBytes_mod : ∀ w n : Nat, ofBytes (toBytes w n) = n % 256 ^ w
  | 0, n => by rw [Nat.pow_zero, Nat.mod_one]; rfl
  | w + 1, n => by
    have hpow : 256 ^ (w + 1) = 256 * 256 ^ w := Nat.pow_succ'
    rw [toBytes, ofBytes, ofBytes_toBytes_mod w, UInt8.toNat_ofNat', hpow, Nat.mod_mul]

theorem ofBytes_lt : ∀ bs : List UInt8, ofBytes bs < 256 ^ bs.length
  | [] => Nat.one_pos
  | b :: bs => by
    have hb := b.toNat_lt
    have hbs := ofBytes_lt bs
    rw [ofBytes, List.length_cons, Nat.pow_succ']
    omega

section

variable {w n : Nat} {rest : List UInt8}

theorem ofBytes_take_append (h : n < 256 ^ w) :
    ofBytes ((toBytes w n ++ rest).take w) = n := by
  rw [List.take_left' (length_toBytes w n), ofBytes_toBytes h]

theorem ofBytes_take_append_mod : ofBytes ((toBytes w n ++ rest).take w) = n % 256 ^ w := by
  rw [List.take_left' (length_toBytes w n), ofBytes_toBytes_mod]

theorem drop_append : (toBytes w n ++ rest).drop w = rest := List.drop_left' (length_toBytes w n)

theorem not_length_lt : ¬ (toBytes w n ++ rest).length < w := by
  rw [List.length_append, length_toBytes]
  omega

end

end LittleEndian
