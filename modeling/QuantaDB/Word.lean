import Mathlib.Data.String.Basic

/-!
Machine words of the DSSN code. Stamps, pointers and `size_t` are `UInt64`;
every comparison and sum on them is moved to `Nat` by the lemmas here and
closed by `omega`. A `size_t` is stored in memory as its 8 bytes, least
significant first (x86-64).
-/

set_option autoImplicit false

namespace QuantaDB

theorem UInt64.le_iff_toNat_le (a b : UInt64) : a ≤ b ↔ a.toNat ≤ b.toNat := Iff.rfl

theorem UInt64.lt_iff_toNat_lt (a b : UInt64) : a < b ↔ a.toNat < b.toNat := Iff.rfl

theorem UInt64.toNat_max (a b : UInt64) : (max a b).toNat = max a.toNat b.toNat := by
  show (if a ≤ b then b else a).toNat = _
  split <;> rename_i h <;> rw [UInt64.le_iff_toNat_le] at h <;> omega

theorem UInt64.toNat_min (a b : UInt64) : (min a b).toNat = min a.toNat b.toNat := by
  show (if a ≤ b then a else b).toNat = _
  split <;> rename_i h <;> rw [UInt64.le_iff_toNat_le] at h <;> omega

/-- Batteries' `UInt64.toNat_add`, with the modulus as `2 ^ 64`, the form
`omega` reads. -/
theorem UInt64.toNat_add' (a b : UInt64) : (a + b).toNat = (a.toNat + b.toNat) % 2 ^ 64 :=
  UInt64.toNat_add a b

theorem UInt64.toNat_sub' (a b : UInt64) :
    (a - b).toNat = (2 ^ 64 - b.toNat + a.toNat) % 2 ^ 64 :=
  UInt64.toNat_sub a b

theorem UInt64.toNat_natCast (n : Nat) : n.toUInt64.toNat = n % 2 ^ 64 := rfl

theorem UInt64.natCast_toNat (a : UInt64) : a.toNat.toUInt64 = a :=
  UInt64.ext (by rw [toNat_natCast, Nat.mod_eq_of_lt (UInt64.toNat_lt a)])

/-- The `w` bytes of `n`, least significant first. -/
def bytesLE : Nat → Nat → List UInt8
  | 0, _ => []
  | w + 1, n => (n % 256).toUInt8 :: bytesLE w (n / 256)

def valueLE : List UInt8 → Nat
  | [] => 0
  | b :: bs => b.toNat + 256 * valueLE bs

@[simp] theorem length_bytesLE (w n : Nat) : (bytesLE w n).length = w := by
  induction w generalizing n with
  | zero => rfl
  | succ w ih => simp [bytesLE, ih]

theorem valueLE_bytesLE (w n : Nat) : valueLE (bytesLE w n) = n % 256 ^ w := by
  induction w generalizing n with
  | zero => simp [bytesLE, valueLE, Nat.mod_one]
  | succ w ih =>
    have hb : ((n % 256).toUInt8).toNat = n % 256 := by
      show n % 256 % 256 = n % 256; omega
    rw [bytesLE, valueLE, ih, hb, Nat.pow_succ, Nat.mul_comm (256 ^ w), Nat.mod_mul]

theorem valueLE_lt (bs : List UInt8) : valueLE bs < 256 ^ bs.length := by
  induction bs with
  | nil => simp [valueLE]
  | cons b bs ih =>
    have hb := b.toNat_lt
    rw [valueLE, List.length_cons, Nat.pow_succ]
    omega

/-- The other half of the little-endian law: the bytes of `valueLE bs` are `bs`. -/
theorem bytesLE_valueLE (bs : List UInt8) : bytesLE bs.length (valueLE bs) = bs := by
  induction bs with
  | nil => rfl
  | cons b bs ih =>
    have hb := b.toNat_lt
    rw [List.length_cons, bytesLE, valueLE]
    congr 1
    · rw [Nat.add_mul_mod_self_left, Nat.mod_eq_of_lt hb]
      exact UInt8.ext (show b.toNat % 256 = b.toNat from Nat.mod_eq_of_lt hb)
    · rw [Nat.add_mul_div_left _ _ (by decide), Nat.div_eq_of_lt hb, Nat.zero_add, ih]

end QuantaDB
