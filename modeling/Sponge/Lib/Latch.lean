/-
# Latches

A reader that belongs to nobody at first: the first item that may open it
decides whose it is, and from then on it hands on the items of that owner only.
What such a reader makes of a whole sequence is `passed`: nothing before the
first opener, the opener, and behind it what has the opener's key
(`Latches.reads_of_open`).

Key definitions: `Latch.passed`, `Latch.reads`, `Latch.Latches`.
Key theorems: `Latch.Latches.reads_of_held`, `Latch.Latches.reads_of_open`.
-/
import Mathlib.Data.List.Basic
import Mathlib.Tactic

namespace Latch

variable {σ ι κ β ε : Type*} [DecidableEq κ]

/-- The items a latch hands on. `key` is whose an item is, if it is anyone's. -/
def passed (key : ι → Option κ) (opens : ι → Bool) : List ι → List ι
  | [] => []
  | x :: xs =>
    if (key x).isSome && opens x then x :: xs.filter fun y => decide (key y = key x) else passed key opens xs

/-- The values that a reader hands on of the items, and its last state. -/
def reads (read : σ → ι → Except ε (Option β × σ)) : σ → List ι → Except ε (List β × σ)
  | s, [] => .ok ([], s)
  | s, x :: xs =>
    match read s x with
    | .error e => .error e
    | .ok (y, s) => (reads read s xs).map fun (ys, s) => (y.toList ++ ys, s)

/-- A reader is a latch: `held` is whose it is, `value` what it hands on of an
item, and `I` what its states keep. -/
structure Latches (read : σ → ι → Except ε (Option β × σ)) (key : ι → Option κ) (opens : ι → Bool) (value : ι → β)
    (held : σ → Option κ) (I : σ → Prop) : Prop where
  /-- the items of the owner pass -/
  shut : ∀ s x k, I s → held s = some k → read s x = .ok (if key x = some k then some (value x) else none, s)
  /-- the first item that may open it does -/
  opened : ∀ s x, I s → held s = none → (key x).isSome = true → opens x = true →
    ∃ s', read s x = .ok (some (value x), s') ∧ held s' = key x ∧ I s'
  /-- nothing else changes it -/
  waits : ∀ s x, I s → held s = none → ((key x).isSome && opens x) = false → read s x = .ok (none, s)

variable {read : σ → ι → Except ε (Option β × σ)} {key : ι → Option κ} {opens : ι → Bool} {value : ι → β}
  {held : σ → Option κ} {I : σ → Prop}

theorem reads_cons {s s' : σ} {x : ι} {xs : List ι} {y : Option β} (h : read s x = .ok (y, s')) :
    reads read s (x :: xs) = (reads read s' xs).map fun (ys, s) => (y.toList ++ ys, s) := by
  simp only [reads, h]

namespace Latches

/-- A latch that is held hands on what its owner sends. -/
theorem reads_of_held (h : Latches read key opens value held I) {s : σ} {k : κ} (hI : I s) (hk : held s = some k)
    (xs : List ι) : reads read s xs = .ok ((xs.filter fun x => decide (key x = some k)).map value, s) := by
  induction xs with
  | nil => rfl
  | cons x xs ih =>
    rw [reads_cons (h.shut s x k hI hk), ih]
    by_cases hx : key x = some k
    · simp [Except.map, hx]
    · simp [Except.map, hx]

/-- **A latch over a sequence**: nothing before the first opener, then the
opener and what comes from where it came from. -/
theorem reads_of_open (h : Latches read key opens value held I) {s : σ} (hI : I s) (hs : held s = none)
    (xs : List ι) : ∃ s', reads read s xs = .ok ((passed key opens xs).map value, s') ∧ I s' ∧
      (passed key opens xs = [] → s' = s) ∧ ∀ x ∈ (passed key opens xs).head?, held s' = key x := by
  induction xs with
  | nil => exact ⟨s, rfl, hI, fun _ => rfl, fun x hx => by simp [passed] at hx⟩
  | cons x xs ih =>
    by_cases hx : ((key x).isSome && opens x) = true
    · simp only [Bool.and_eq_true] at hx
      obtain ⟨s', h1, h2, h3⟩ := h.opened s x hI hs hx.1 hx.2
      obtain ⟨k, hk⟩ := Option.isSome_iff_exists.mp hx.1
      refine ⟨s', ?_, h3, fun hc => ?_, fun y hy => ?_⟩
      · rw [reads_cons h1, h.reads_of_held h3 (h2.trans hk)]
        simp [Except.map, passed, hx.2, hk]
      · simp [passed, hx.1, hx.2] at hc
      · simp [passed, hx.1, hx.2] at hy
        rw [← hy, h2]
    · obtain ⟨s', h1, h2⟩ := ih
      have hno : ((key x).isSome && opens x) = false := Bool.not_eq_true _ ▸ hx
      have hp : passed key opens (x :: xs) = passed key opens xs := by simp only [passed, hno, Bool.false_eq_true,
        if_false]
      refine ⟨s', ?_, hp.symm ▸ h2⟩
      rw [reads_cons (h.waits s x hI hs hno), h1, hp]
      rfl

end Latches

end Latch
