/-
# Wrapping sequence numbers

`wrapping_integers.hh` and `.cc`: 32-bit sequence numbers relative to an
initial one, and the absolute number closest to a checkpoint. Absolute numbers
are `uint64_t` in the source and naturals here; sums that can pass 2^64 are
taken modulo it.

The number `unwrap` finds is the closest one of 64 bits, except at the top of
the range, where one era up is past 2^64: `unwrap_closest_iff`.

Key definitions: `wrap`, `unwrap`, `Closest`.
Key theorems: `unwrap_wrap`, `unwrap_lt`, `unwrap_closest_iff`.
-/
import Mathlib.Data.Nat.Dist
import Mathlib.Data.UInt
import Mathlib.Tactic

namespace Sponge

structure WrappingInt32 where
  rawValue : UInt32
  deriving DecidableEq

namespace WrappingInt32

/-- The point `b` steps past `a`. -/
def add (a : WrappingInt32) (b : UInt32) : WrappingInt32 := ⟨a.rawValue + b⟩

/-- The point `b` steps before `a`. -/
def sub (a : WrappingInt32) (b : UInt32) : WrappingInt32 := a.add (-b)

end WrappingInt32

def wrap (n : ℕ) (isn : WrappingInt32) : WrappingInt32 :=
  ⟨UInt32.ofNat ((isn.rawValue.toNat + n) % 2 ^ 64 % 2 ^ 32)⟩

/-- The era of the checkpoint, then one era down or up if that is closer. -/
def unwrap (n isn : WrappingInt32) (checkpoint : ℕ) : ℕ :=
  let diff := (n.rawValue.toNat + 2 ^ 32 - isn.rawValue.toNat) % 2 ^ 32
  let era := checkpoint / 2 ^ 32
  let absSeq := diff + era * 2 ^ 32
  if checkpoint < absSeq ∧ 2 ^ 31 < absSeq - checkpoint ∧ 2 ^ 32 ≤ absSeq then absSeq - 2 ^ 32
  else if absSeq < checkpoint ∧ 2 ^ 31 < checkpoint - absSeq then (absSeq + 2 ^ 32) % 2 ^ 64
  else absSeq

theorem wrap_toNat (n : ℕ) (isn : WrappingInt32) :
    (wrap n isn).rawValue.toNat = (isn.rawValue.toNat + n) % 2 ^ 32 := by
  simp only [wrap, UInt32.toNat_ofNat']
  omega

theorem wrap_zero (isn : WrappingInt32) : wrap 0 isn = isn := by
  have hlt := isn.rawValue.toNat_lt
  have h : (wrap 0 isn).rawValue = isn.rawValue := by
    rw [← UInt32.toNat_inj, wrap_toNat]
    omega
  cases isn
  exact congrArg WrappingInt32.mk h

/-- Wrapped numbers are the same modulo 2^32. -/
theorem wrap_eq_iff {n m : ℕ} {isn : WrappingInt32} : wrap n isn = wrap m isn ↔ n % 2 ^ 32 = m % 2 ^ 32 := by
  have h : (wrap n isn).rawValue = (wrap m isn).rawValue ↔ n % 2 ^ 32 = m % 2 ^ 32 := by
    rw [← UInt32.toNat_inj, wrap_toNat, wrap_toNat]
    omega
  exact ⟨fun hw => h.mp (congrArg _ hw), fun hm => congrArg WrappingInt32.mk (h.mpr hm)⟩

theorem wrap_sub_one (n : ℕ) (isn : WrappingInt32) : (wrap (n + 1) isn).sub 1 = wrap n isn := by
  have hraw : (wrap (n + 1) isn).rawValue + -1 = (wrap n isn).rawValue := by
    have hneg : (-1 : UInt32).toNat = 2 ^ 32 - 1 := by decide
    rw [← UInt32.toNat_inj, UInt32.toNat_add, wrap_toNat, wrap_toNat, hneg]
    omega
  exact congrArg WrappingInt32.mk hraw

/-- The offset of a wrapped number from the initial one. -/
theorem wrap_diff (n : ℕ) (isn : WrappingInt32) :
    ((wrap n isn).rawValue.toNat + 2 ^ 32 - isn.rawValue.toNat) % 2 ^ 32 = n % 2 ^ 32 := by
  have := isn.rawValue.toNat_lt
  rw [wrap_toNat]
  omega

/-- **Within half an era of the checkpoint, unwrapping undoes wrapping.** -/
theorem unwrap_wrap {n checkpoint : ℕ} (isn : WrappingInt32) (h1 : n < checkpoint + 2 ^ 31)
    (h2 : checkpoint < n + 2 ^ 31) (h3 : n ≤ checkpoint ∨ n < 2 ^ 64) : unwrap (wrap n isn) isn checkpoint = n := by
  unfold unwrap
  simp only [wrap_diff]
  split_ifs <;> omega

/-- An absolute number near a 64-bit checkpoint is of 64 bits. -/
theorem unwrap_lt (n isn : WrappingInt32) {checkpoint : ℕ} (h : checkpoint < 2 ^ 64) :
    unwrap n isn checkpoint < 2 ^ 64 := by
  unfold unwrap
  simp only
  have h1 : (n.rawValue.toNat + 2 ^ 32 - isn.rawValue.toNat) % 2 ^ 32 < 2 ^ 32 := Nat.mod_lt _ (by decide)
  split_ifs <;> omega

/-! ### The closest number -/

/-- How far `n` is past the initial number. -/
def offset (n isn : WrappingInt32) : ℕ := (n.rawValue.toNat + 2 ^ 32 - isn.rawValue.toNat) % 2 ^ 32

theorem offset_lt (n isn : WrappingInt32) : offset n isn < 2 ^ 32 := Nat.mod_lt _ (by decide)

/-- The numbers that wrap to `n` are its offset plus whole eras. -/
theorem wrap_eq_iff_offset {a : ℕ} {n isn : WrappingInt32} : wrap a isn = n ↔ a % 2 ^ 32 = offset n isn := by
  have hn := n.rawValue.toNat_lt
  have hi := isn.rawValue.toNat_lt
  have h : (wrap a isn).rawValue = n.rawValue ↔ a % 2 ^ 32 = offset n isn := by
    rw [← UInt32.toNat_inj, wrap_toNat, offset]
    omega
  exact ⟨fun hw => h.mp (congrArg _ hw), fun ho => congrArg WrappingInt32.mk (h.mpr ho)⟩

/-- `a` is an absolute number of 64 bits for `n`, and none is closer to the
checkpoint. -/
structure Closest (n isn : WrappingInt32) (checkpoint a : ℕ) : Prop where
  lt : a < 2 ^ 64
  wraps : wrap a isn = n
  le : ∀ b < 2 ^ 64, wrap b isn = n → Nat.dist a checkpoint ≤ Nat.dist b checkpoint

/-- Numbers that differ by eras, one of them half an era from the checkpoint. -/
theorem dist_le_of_mod {a b checkpoint : ℕ} (hmod : a % 2 ^ 32 = b % 2 ^ 32)
    (hnear : Nat.dist a checkpoint ≤ 2 ^ 31 ∨ a < 2 ^ 32 ∧ checkpoint ≤ a) :
    Nat.dist a checkpoint ≤ Nat.dist b checkpoint := by
  unfold Nat.dist at *
  omega

/-- **The number found is the closest one iff the checkpoint is not in the last
half era before 2^64, counted from `n`.** -/
theorem unwrap_closest_iff (n isn : WrappingInt32) {checkpoint : ℕ} (h : checkpoint < 2 ^ 64) :
    Closest n isn checkpoint (unwrap n isn checkpoint) ↔ checkpoint ≤ 2 ^ 64 - 2 ^ 31 + offset n isn := by
  have hoff := offset_lt n isn
  have hdiv := Nat.div_add_mod checkpoint (2 ^ 32)
  have hmod := Nat.mod_lt checkpoint (show 2 ^ 32 > 0 by decide)
  have hdef : unwrap n isn checkpoint =
      let absSeq := offset n isn + checkpoint / 2 ^ 32 * 2 ^ 32
      if checkpoint < absSeq ∧ 2 ^ 31 < absSeq - checkpoint ∧ 2 ^ 32 ≤ absSeq then absSeq - 2 ^ 32
      else if absSeq < checkpoint ∧ 2 ^ 31 < checkpoint - absSeq then (absSeq + 2 ^ 32) % 2 ^ 64
      else absSeq := rfl
  constructor
  · intro hc
    by_contra hlate
    -- the era of the checkpoint is the last, and the number is one era past it
    have hle := hc.le (offset n isn + checkpoint / 2 ^ 32 * 2 ^ 32) (by omega) (wrap_eq_iff_offset.mpr (by omega))
    rw [hdef] at hle
    simp only at hle
    rw [if_neg (by omega), if_pos (by omega)] at hle
    unfold Nat.dist at hle
    omega
  · intro hle
    have hresult : unwrap n isn checkpoint % 2 ^ 32 = offset n isn ∧
        (Nat.dist (unwrap n isn checkpoint) checkpoint ≤ 2 ^ 31 ∨
          unwrap n isn checkpoint < 2 ^ 32 ∧ checkpoint ≤ unwrap n isn checkpoint) := by
      rw [hdef]
      unfold Nat.dist
      simp only
      split_ifs <;> omega
    refine ⟨unwrap_lt n isn h, wrap_eq_iff_offset.mpr hresult.1, fun b _ hb => ?_⟩
    exact dist_le_of_mod (hresult.1.trans (wrap_eq_iff_offset.mp hb).symm) hresult.2

/-- From the last number of 64 bits the era's own number is closer than the
one that is found, which starts over at zero. -/
theorem unwrap_top : unwrap ⟨0⟩ ⟨0⟩ (2 ^ 64 - 1) = 0 ∧ wrap (2 ^ 64 - 2 ^ 32) ⟨0⟩ = ⟨0⟩ ∧
    Nat.dist (2 ^ 64 - 2 ^ 32) (2 ^ 64 - 1) < Nat.dist 0 (2 ^ 64 - 1) ∧
    ¬ Closest ⟨0⟩ ⟨0⟩ (2 ^ 64 - 1) (unwrap ⟨0⟩ ⟨0⟩ (2 ^ 64 - 1)) := by
  refine ⟨by decide, by decide, by decide, fun hc => ?_⟩
  exact absurd (hc.le (2 ^ 64 - 2 ^ 32) (by decide) (by decide)) (by decide)

theorem unwrap_closest_iff_one : Closest ⟨5⟩ ⟨4⟩ 3 (unwrap ⟨5⟩ ⟨4⟩ 3) ↔ 3 ≤ 2 ^ 64 - 2 ^ 31 + offset ⟨5⟩ ⟨4⟩ :=
  unwrap_closest_iff ⟨5⟩ ⟨4⟩ (by decide)

end Sponge
