/-
# One's-complement sums

Sums of 16-bit words with end-around carry: a carry out of the top bit is added
back at the bottom. Such a sum is the sum of the words modulo `2 ^ 16 - 1`, with
`0` kept for the words that are all zero; a text verifies when its sum is all
ones, and the word that makes it so is the complement of the sum without it.

Key definitions: `OnesComplement.add`, `OnesComplement.sum`,
`OnesComplement.checksum`, `OnesComplement.words`, `OnesComplement.Verifies`.
Key theorems: `OnesComplement.sum_eq_norm`, `OnesComplement.verifies_iff`,
`OnesComplement.norm_carry`, `OnesComplement.norm_complement`.
-/
import Sponge.Lib.BigEndian

namespace OnesComplement

/-- Addition with end-around carry. -/
def add (a b : ℕ) : ℕ := if a + b < 65536 then a + b else a + b - 65536 + 1

def sum (ws : List ℕ) : ℕ := ws.foldl add 0

/-- The 16-bit words of a text, high byte first; an odd last byte is followed
by a zero. -/
def words : List UInt8 → List ℕ
  | [] => []
  | [a] => [a.toNat * 256]
  | a :: b :: bytes => (a.toNat * 256 + b.toNat) :: words bytes

/-- The complement of the sum. -/
def checksum (ws : List ℕ) : ℕ := 0xffff - sum ws

/-- The sum of the words is all ones. -/
def Verifies (ws : List ℕ) : Prop := sum ws = 0xffff

instance (ws : List ℕ) : Decidable (Verifies ws) := inferInstanceAs (Decidable (_ = _))

/-! ### The sum modulo `2 ^ 16 - 1` -/

/-- The 16-bit sum that stands for a sum of words: of the two zeros, `0` only
for `0` itself. -/
def norm (n : ℕ) : ℕ := if n = 0 then 0 else (n - 1) % 65535 + 1

theorem norm_zero : norm 0 = 0 := rfl

/-- A sum and its 16 bits differ by the carries. -/
theorem eq_norm_add (n : ℕ) : ∃ q, n = 65535 * q + norm n := by
  unfold norm
  split_ifs with h
  · exact ⟨0, by omega⟩
  · have hdiv := Nat.div_add_mod (n - 1) 65535
    exact ⟨(n - 1) / 65535, by omega⟩

theorem norm_le (n : ℕ) : norm n ≤ 65535 := by
  have h := Nat.mod_lt (n - 1) (show 65535 > 0 by decide)
  unfold norm
  split_ifs
  · exact Nat.zero_le _
  · exact h

theorem norm_pos {n : ℕ} (h : 0 < n) : 0 < norm n := by
  unfold norm
  rw [if_neg h.ne']
  exact Nat.succ_pos _

theorem norm_mul_add {q r : ℕ} (h : r ≤ 65535) (h0 : 0 < r) : norm (65535 * q + r) = r := by
  have h1 : 65535 * q + r - 1 = 65535 * q + (r - 1) := by omega
  unfold norm
  rw [if_neg (by omega), h1, Nat.mul_add_mod, Nat.mod_eq_of_lt (by omega)]
  omega

theorem norm_of_le {n : ℕ} (h : n ≤ 65535) : norm n = n := by
  rcases Nat.eq_zero_or_pos n with rfl | h0
  · rfl
  · simpa using norm_mul_add (q := 0) h h0

/-- Carries may be added back at any time. -/
theorem norm_carry (n : ℕ) : norm (n / 65536 + n % 65536) = norm n := by
  rcases Nat.eq_zero_or_pos n with rfl | hn
  · rfl
  obtain ⟨q, hq⟩ := eq_norm_add (n / 65536 + n % 65536)
  have hpos : 0 < norm (n / 65536 + n % 65536) := norm_pos (by omega)
  have hsplit : n = 65535 * (n / 65536 + q) + norm (n / 65536 + n % 65536) := by omega
  conv_rhs => rw [hsplit, norm_mul_add (norm_le _) hpos]

theorem add_norm {n w : ℕ} (hw : w < 65536) : add (norm n) w = norm (n + w) := by
  obtain ⟨q, hq⟩ := eq_norm_add n
  rcases Nat.eq_zero_or_pos n with rfl | hn
  · rw [norm_zero, zero_add, norm_of_le (by omega), add, zero_add, if_pos hw]
  have hpos := norm_pos hn
  have hle := norm_le n
  unfold add
  split_ifs with h
  · have hsum : n + w = 65535 * q + (norm n + w) := by omega
    rw [hsum, norm_mul_add (by omega) (by omega)]
  · have hsum : n + w = 65535 * (q + 1) + (norm n + w - 65535) := by omega
    rw [hsum, norm_mul_add (by omega) (by omega)]
    omega

theorem foldl_add_norm {ws : List ℕ} (hws : ∀ w ∈ ws, w < 65536) (n : ℕ) :
    ws.foldl add (norm n) = norm (n + ws.sum) := by
  induction ws generalizing n with
  | nil => rfl
  | cons w ws ih =>
    have hw : w < 65536 := hws w (List.mem_cons_self ..)
    rw [List.foldl_cons, add_norm hw, ih (fun v hv => hws v (List.mem_cons_of_mem _ hv)), List.sum_cons, add_assoc]

/-- **The sum with end-around carry is the sum modulo `2 ^ 16 - 1`.** -/
theorem sum_eq_norm {ws : List ℕ} (hws : ∀ w ∈ ws, w < 65536) : sum ws = norm ws.sum := by
  have h := foldl_add_norm hws 0
  rw [zero_add] at h
  exact h

theorem verifies_iff {ws : List ℕ} (hws : ∀ w ∈ ws, w < 65536) : Verifies ws ↔ norm ws.sum = 0xffff := by
  rw [Verifies, sum_eq_norm hws]

/-- The complement of a sum makes it verify. -/
theorem norm_complement (n : ℕ) : norm (n + (65535 - norm n)) = 65535 := by
  obtain ⟨q, hq⟩ := eq_norm_add n
  have hle := norm_le n
  have hsum : n + (65535 - norm n) = 65535 * q + 65535 := by omega
  rw [hsum, norm_mul_add le_rfl (by decide)]

/-! ### The words of a text -/

theorem words_lt (bytes : List UInt8) : ∀ w ∈ words bytes, w < 65536 := by
  induction bytes using words.induct with
  | case1 => simp [words]
  | case2 a =>
    have ha := a.toNat_lt
    simp only [words, List.mem_singleton, forall_eq]
    omega
  | case3 a b bytes ih =>
    have ha := a.toNat_lt
    have hb := b.toNat_lt
    simp only [words, List.mem_cons, forall_eq_or_imp]
    exact ⟨by omega, ih⟩

/-- A text of an even length ends with a whole word. -/
theorem words_append {bytes : List UInt8} (h : Even bytes.length) (rest : List UInt8) :
    words (bytes ++ rest) = words bytes ++ words rest := by
  induction bytes using words.induct with
  | case1 => rfl
  | case2 a => simp at h
  | case3 a b bytes ih =>
    have h' : Even bytes.length := by
      simpa [Nat.even_add_one] using h
    simp only [List.cons_append, words, ih h']

/-- A number in two bytes is a word. -/
theorem words_toBytes (n : ℕ) (rest : List UInt8) :
    words (BigEndian.toBytes 2 n ++ rest) = n % 65536 :: words rest := by
  have h1 : (UInt8.ofNat (n / 256 % 256)).toNat = n / 256 % 256 := UInt8.toNat_ofNat_of_lt (Nat.mod_lt _ (by decide))
  have h2 : (UInt8.ofNat (n % 256)).toNat = n % 256 := UInt8.toNat_ofNat_of_lt (Nat.mod_lt _ (by decide))
  show words (UInt8.ofNat (n / 256 % 256) :: UInt8.ofNat (n % 256) :: rest) = _
  rw [words, h1, h2]
  congr 1
  omega

theorem length_words (bytes : List UInt8) : (words bytes).length = (bytes.length + 1) / 2 := by
  induction bytes using words.induct with
  | case1 => rfl
  | case2 a => simp [words]
  | case3 a b bytes ih =>
    simp only [words, List.length_cons, ih]
    omega

theorem sum_words_le (bytes : List UInt8) : (words bytes).sum ≤ (bytes.length + 1) / 2 * 65535 := by
  rw [← length_words]
  apply List.sum_le_card_nsmul
  intro w hw
  exact Nat.le_of_lt_succ (words_lt bytes w hw)

end OnesComplement
