/-
# Sequences kept in chunks

A sequence cut into chunks that can each drop elements from their front, with
the loop that drops `n` elements of the whole: chunks that are used up go, the
last one touched is shortened. What is left is what dropping `n` elements of
the sequence leaves, however it was cut (`contents_discard`), and the loop
runs out of chunks exactly if there were fewer (`discard_snd`).

Key definitions: `Chunks.contents`, `Chunks.discard`.
Key theorems: `Chunks.discard_snd`, `Chunks.contents_discard`.
-/
import Mathlib.Data.List.Basic
import Mathlib.Tactic

namespace Chunks

variable {α β : Type*} (str : β → List α) (cut : β → ℕ → β)

/-- The sequence that the chunks are. -/
def contents (bs : List β) : List α := bs.flatMap str

/-- The chunks left, and how many elements there were not enough to drop. -/
def discard : List β → ℕ → List β × ℕ
  | bs, 0 => (bs, 0)
  | [], n + 1 => ([], n + 1)
  | b :: bs, n + 1 =>
    if n + 1 < (str b).length then (cut b (n + 1) :: bs, 0) else discard bs (n + 1 - (str b).length)

variable {str cut}

@[simp] theorem contents_nil : contents str [] = [] := rfl

@[simp] theorem contents_cons (b : β) (bs : List β) : contents str (b :: bs) = str b ++ contents str bs := rfl

@[simp] theorem contents_append (bs bs' : List β) : contents str (bs ++ bs') = contents str bs ++ contents str bs' :=
  List.flatMap_append

/-- The loop runs out of chunks if it is to drop more than there is. -/
theorem discard_snd (bs : List β) (n : ℕ) : (discard str cut bs n).2 = n - (contents str bs).length := by
  induction bs generalizing n with
  | nil => cases n <;> simp [discard]
  | cons b bs ih =>
    cases n with
    | zero => simp [discard]
    | succ n =>
      unfold discard
      split_ifs with h
      · simp
        omega
      · rw [ih, contents_cons, List.length_append]
        omega

/-- **Dropping from the chunks drops from the sequence.** -/
theorem contents_discard (hcut : ∀ b n, n < (str b).length → str (cut b n) = (str b).drop n) (bs : List β) (n : ℕ) :
    contents str (discard str cut bs n).1 = (contents str bs).drop n := by
  induction bs generalizing n with
  | nil => cases n <;> simp [discard]
  | cons b bs ih =>
    cases n with
    | zero => simp [discard]
    | succ n =>
      unfold discard
      split_ifs with h
      · rw [contents_cons, contents_cons, hcut b _ h, List.drop_append_of_le_length h.le]
      · rw [ih, contents_cons, List.drop_append, List.drop_of_length_le (not_lt.mp h), List.nil_append]

end Chunks
