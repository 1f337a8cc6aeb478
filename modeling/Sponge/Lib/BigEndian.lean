/-
# Network byte order

A number as `len` bytes, the most significant first, and the number that a
list of bytes spells.

Key definitions: `BigEndian.toBytes`, `BigEndian.ofBytes`.
Key theorem: `BigEndian.ofBytes_toBytes`.
-/
import Mathlib.Data.List.Basic
import Mathlib.Data.UInt
import Mathlib.Tactic

namespace BigEndian

/-- The last `len` bytes of a number. -/
def toBytes : ℕ → ℕ → List UInt8
  | 0, _ => []
  | len + 1, n => toBytes len (n / 256) ++ [UInt8.ofNat (n % 256)]

def ofBytes (bytes : List UInt8) : ℕ := bytes.foldl (fun n b => n * 256 + b.toNat) 0

@[simp] theorem toBytes_length (len n : ℕ) : (toBytes len n).length = len := by
  induction len generalizing n with
  | zero => rfl
  | succ len ih => simp [toBytes, ih]

theorem ofBytes_concat (bytes : List UInt8) (b : UInt8) : ofBytes (bytes ++ [b]) = ofBytes bytes * 256 + b.toNat := by
  simp [ofBytes]

theorem ofBytes_lt (bytes : List UInt8) : ofBytes bytes < 256 ^ bytes.length := by
  induction bytes using List.reverseRecOn with
  | nil => exact Nat.one_pos
  | append_singleton bytes b ih =>
    have hb := b.toNat_lt
    rw [ofBytes_concat, List.length_append, List.length_singleton, pow_succ]
    omega

/-- The first byte, read on its own. -/
theorem ofNat_ofBytes_take_one {bytes : List UInt8} (h : 1 ≤ bytes.length) :
    UInt8.ofNat (ofBytes (bytes.take 1)) = bytes.headD 0 := by
  cases bytes with
  | nil => simp at h
  | cons b bytes =>
    show UInt8.ofNat (0 * 256 + b.toNat) = b
    rw [zero_mul, zero_add, UInt8.ofNat_toNat]

/-- The first two bytes hold a 16-bit number. -/
theorem ofBytes_take_two_lt (bytes : List UInt8) : ofBytes (bytes.take 2) < 65536 := by
  have hlt := ofBytes_lt (bytes.take 2)
  have hlen : (bytes.take 2).length ≤ 2 := List.length_take_le ..
  calc ofBytes (bytes.take 2) < 256 ^ (bytes.take 2).length := hlt
    _ ≤ 256 ^ 2 := Nat.pow_le_pow_right (by decide) hlen

/-- Reading what was written gives the number back, up to its width. -/
theorem ofBytes_toBytes (len n : ℕ) : ofBytes (toBytes len n) = n % 256 ^ len := by
  induction len generalizing n with
  | zero => simp [toBytes, ofBytes, Nat.mod_one]
  | succ len ih =>
    have hb : (UInt8.ofNat (n % 256)).toNat = n % 256 := by
      rw [UInt8.toNat_ofNat']
      exact Nat.mod_eq_of_lt (Nat.mod_lt _ (by decide))
    calc ofBytes (toBytes (len + 1) n) = n / 256 % 256 ^ len * 256 + n % 256 := by
          rw [toBytes, ofBytes_concat, ih, hb]
      _ = n % 256 ^ (len + 1) := by
          rw [pow_succ', Nat.mod_mul]
          ring

end BigEndian
