/-
# Sorted stores of disjoint pieces

A store keeps blocks of a sequence under the index of their first element,
sorted by index, as a `std::map` from index to block does. `Ordered lo m`
says that the blocks of `m` are nonempty, follow one another without overlap
and start at or after `lo`. The map operations are `lastLE` (one step back
from `upper_bound`), `lowerBound`, `insert` (which keeps the block a key
already has) and `erase`.

A new block that ends at `e` meets the pieces at its right: `trim` takes out
the pieces it covers and cuts its end at the first it does not. What runs on
from `n` without a gap ends at `reach n m`.

Key definitions: `Pieces.Ordered`, `Pieces.stop`, `Pieces.trim`,
`Pieces.reach`, `Pieces.Covers`, `Pieces.below`.
Key theorems: `Pieces.ordered_append`, `Pieces.split_lowerBound`,
`Pieces.trim_spec`, `Pieces.insert_between`, `Pieces.le_reach`,
`Pieces.Ordered.total_eq_card`, `Pieces.Ordered.below_le`.
-/
import Mathlib.Data.List.Basic
import Mathlib.Data.List.TakeWhile
import Mathlib.Tactic

namespace Pieces

variable {α : Type*}

/-- Blocks under the index of their first element. -/
abbrev Store (α : Type*) := List (ℕ × List α)

/-- Nonempty blocks, one after the other without overlap, the first at or
after `lo`. -/
def Ordered : ℕ → Store α → Prop
  | _, [] => True
  | lo, (k, b) :: m => lo ≤ k ∧ b ≠ [] ∧ Ordered (k + b.length) m

/-- Where the last block ends, `lo` for an empty store. -/
def stop : ℕ → Store α → ℕ
  | lo, [] => lo
  | _, (k, b) :: m => stop (k + b.length) m

/-- The elements held. -/
def total (m : Store α) : ℕ := (m.map fun p => p.2.length).sum

/-- Index `x` is held. -/
def Covers (m : Store α) (x : ℕ) : Prop := ∃ p ∈ m, p.1 ≤ x ∧ x < p.1 + p.2.length

instance (m : Store α) : DecidablePred (Covers m) := fun x =>
  inferInstanceAs (Decidable (∃ p ∈ m, p.1 ≤ x ∧ x < p.1 + p.2.length))

/-! ### The map operations -/

/-- The last block at or before `k`: one step back from `upper_bound`. -/
def lastLE (m : Store α) (k : ℕ) : Option (ℕ × List α) := (m.takeWhile (·.1 ≤ k)).getLast?

/-- The blocks from the first at or after `k` on. -/
def lowerBound (m : Store α) (k : ℕ) : Store α := m.dropWhile (·.1 < k)

/-- `insert` of a map: a key that is there keeps its block. -/
def insert (k : ℕ) (b : List α) : Store α → Store α
  | [] => [(k, b)]
  | (k', b') :: m =>
    if k < k' then (k, b) :: (k', b') :: m
    else if k = k' then (k', b') :: m
    else (k', b') :: insert k b m

/-- `erase` of a key. -/
def erase (k : ℕ) (m : Store α) : Store α := m.filter (·.1 ≠ k)

/-! ### Order -/

theorem Ordered.mono {lo lo' : ℕ} (h : lo' ≤ lo) : ∀ {m : Store α}, Ordered lo m → Ordered lo' m
  | [], _ => trivial
  | (_, _) :: _, ⟨h1, h2, h3⟩ => ⟨h.trans h1, h2, h3⟩

theorem Ordered.le_stop : ∀ {lo : ℕ} {m : Store α}, Ordered lo m → lo ≤ stop lo m
  | _, [], _ => le_rfl
  | _, (_, _) :: _, ⟨h1, _, h3⟩ => (h1.trans (Nat.le_add_right _ _)).trans h3.le_stop

theorem Ordered.le_key : ∀ {lo : ℕ} {m : Store α}, Ordered lo m → ∀ p ∈ m, lo ≤ p.1
  | _, [], _, _, hp => by cases hp
  | lo, (k, b) :: m, ⟨h1, _, h3⟩, p, hp => by
    rcases List.mem_cons.mp hp with rfl | hp
    · exact h1
    · have := h3.le_key p hp
      omega

theorem Ordered.ne_nil : ∀ {lo : ℕ} {m : Store α}, Ordered lo m → ∀ p ∈ m, p.2 ≠ []
  | _, [], _, _, hp => by cases hp
  | _, (_, _) :: _, ⟨_, h2, h3⟩, p, hp => by
    rcases List.mem_cons.mp hp with rfl | hp
    · exact h2
    · exact h3.ne_nil p hp

theorem Ordered.end_le_stop : ∀ {lo : ℕ} {m : Store α}, Ordered lo m → ∀ p ∈ m, p.1 + p.2.length ≤ stop lo m
  | _, [], _, _, hp => by cases hp
  | _, (k, b) :: m, ⟨_, _, h3⟩, p, hp => by
    rcases List.mem_cons.mp hp with rfl | hp
    · exact h3.le_stop
    · exact h3.end_le_stop p hp

theorem stop_le {e : ℕ} : ∀ {lo : ℕ} {m : Store α}, lo ≤ e → (∀ p ∈ m, p.1 + p.2.length ≤ e) → stop lo m ≤ e
  | _, [], h, _ => h
  | _, (k, b) :: m, _, hm => by
    show stop (k + b.length) m ≤ e
    exact stop_le (hm (k, b) List.mem_cons_self) fun p hp => hm p (List.mem_cons_of_mem _ hp)

theorem stop_append : ∀ (lo : ℕ) (a b : Store α), stop lo (a ++ b) = stop (stop lo a) b
  | _, [], _ => rfl
  | _, (_, _) :: a, b => stop_append _ a b

theorem ordered_append : ∀ {lo : ℕ} {a b : Store α},
    Ordered lo (a ++ b) ↔ Ordered lo a ∧ Ordered (stop lo a) b
  | _, [], _ => by simp [Ordered, stop]
  | _, (_, _) :: a, b => by
    simp only [List.cons_append, Ordered, stop, ordered_append (a := a) (b := b)]
    tauto

theorem stop_of_getLast? {m : Store α} {p : ℕ × List α} (h : m.getLast? = some p) (lo : ℕ) :
    stop lo m = p.1 + p.2.length := by
  obtain ⟨a, rfl⟩ := List.getLast?_eq_some_iff.mp h
  rw [stop_append]
  rfl

theorem Ordered.of_suffix {lo : ℕ} {m m' : Store α} (hs : m' <:+ m) (h : Ordered lo m) : Ordered lo m' := by
  obtain ⟨a, rfl⟩ := hs
  obtain ⟨h1, h2⟩ := ordered_append.mp h
  exact h2.mono h1.le_stop

/-- A sorted store splits at `k`: the blocks at or before it, the blocks after. -/
theorem Ordered.lt_dropWhile : ∀ {lo : ℕ} {m : Store α} (k : ℕ), Ordered lo m →
    ∀ p ∈ m.dropWhile (·.1 ≤ k), k < p.1
  | _, [], _, _, _, hp => by simp at hp
  | lo, (k', b) :: m, k, ⟨_, hb, h3⟩, p, hp => by
    by_cases hk : k' ≤ k
    · rw [List.dropWhile_cons_of_pos (by simpa using hk)] at hp
      exact h3.lt_dropWhile k p hp
    · rw [List.dropWhile_cons_of_neg (by simpa using hk)] at hp
      rcases List.mem_cons.mp hp with rfl | hp
      · simpa using hk
      · have := h3.le_key p hp
        omega

theorem split_le (m : Store α) (k : ℕ) : m.takeWhile (·.1 ≤ k) ++ m.dropWhile (·.1 ≤ k) = m :=
  List.takeWhile_append_dropWhile

/-- The store splits at `n` where `a` ends if every later block starts at or after `n`. -/
theorem dropWhile_split {a b : Store α} {n : ℕ} (ha : ∀ p ∈ a, p.1 < n) (hb : ∀ p ∈ b, n ≤ p.1) :
    (a ++ b).dropWhile (·.1 < n) = b ∧ (a ++ b).takeWhile (·.1 < n) = a := by
  induction a with
  | nil =>
    cases b with
    | nil => simp
    | cons p b =>
      have : ¬ p.1 < n := not_lt.mpr (hb p List.mem_cons_self)
      simp [this]
  | cons p a ih =>
    have hp : p.1 < n := ha p List.mem_cons_self
    obtain ⟨h1, h2⟩ := ih fun q hq => ha q (List.mem_cons_of_mem _ hq)
    simp [hp, h1, h2]

/-- The larger of `k` and the end of the blocks at or before `k` splits the
store where `k` does. -/
theorem split_lowerBound {lo k : ℕ} {m : Store α} (h : Ordered lo m) :
    let n := max k (stop lo (m.takeWhile (·.1 ≤ k)))
    lowerBound m n = m.dropWhile (·.1 ≤ k) ∧ m.takeWhile (·.1 < n) = m.takeWhile (·.1 ≤ k) ∧
      Ordered n (m.dropWhile (·.1 ≤ k)) := by
  intro n
  set a := m.takeWhile (·.1 ≤ k) with ha
  set b := m.dropWhile (·.1 ≤ k) with hb
  have hab : a ++ b = m := split_le m k
  obtain ⟨hoa, hob⟩ := ordered_append.mp (hab.symm ▸ h)
  have hlt : ∀ p ∈ a, p.1 < n := by
    intro p hp
    have h1 := hoa.end_le_stop p hp
    have h2 := List.length_pos_of_ne_nil (hoa.ne_nil p hp)
    have h3 : stop lo a ≤ n := le_max_right _ _
    omega
  have hge : ∀ p ∈ b, n ≤ p.1 := fun p hp =>
    max_le (h.lt_dropWhile k p hp).le (hob.le_key p hp)
  obtain ⟨h1, h2⟩ := dropWhile_split hlt hge
  rw [hab] at h1 h2
  refine ⟨h1, h2, ?_⟩
  cases hb' : b with
  | nil => trivial
  | cons p b' =>
    rw [hb'] at hob hge
    exact ⟨hge p List.mem_cons_self, hob.2⟩

/-! ### Counting -/

@[simp] theorem total_nil : total ([] : Store α) = 0 := rfl

@[simp] theorem total_cons (k : ℕ) (b : List α) (m : Store α) : total ((k, b) :: m) = b.length + total m := by
  simp [total]

@[simp] theorem total_append (a b : Store α) : total (a ++ b) = total a + total b := by
  simp [total]

theorem Ordered.total_eq_zero_iff {lo : ℕ} {m : Store α} (h : Ordered lo m) : total m = 0 ↔ m = [] := by
  cases m with
  | nil => simp
  | cons p m =>
    have := List.length_pos_of_ne_nil (h.ne_nil p List.mem_cons_self)
    obtain ⟨k, b⟩ := p
    rw [total_cons]
    simp only at this
    exact iff_of_false (by omega) (List.cons_ne_nil _ _)

theorem total_le_of_suffix {m m' : Store α} (h : m' <:+ m) : total m' ≤ total m := by
  obtain ⟨a, rfl⟩ := h
  simp

/-! ### Insertion and erasure -/

theorem insert_between {k : ℕ} {b : List α} {x y : Store α} (hx : ∀ p ∈ x, p.1 < k) (hy : ∀ p ∈ y, k < p.1) :
    insert k b (x ++ y) = x ++ (k, b) :: y := by
  induction x with
  | nil =>
    cases y with
    | nil => rfl
    | cons p y => simp [insert, hy p List.mem_cons_self]
  | cons p x ih =>
    have hp : p.1 < k := hx p List.mem_cons_self
    have ih := ih fun q hq => hx q (List.mem_cons_of_mem _ hq)
    obtain ⟨k', b'⟩ := p
    simp only at hp
    simp only [List.cons_append, insert, ih]
    rw [if_neg (by omega), if_neg (by omega)]

theorem insert_head (k : ℕ) (b b' : List α) (m : Store α) : insert k b ((k, b') :: m) = (k, b') :: m := by
  simp [insert]

theorem erase_head {k : ℕ} {b : List α} {m : Store α} (h : ∀ p ∈ m, k < p.1) : erase k ((k, b) :: m) = m := by
  unfold erase
  rw [List.filter_cons_of_neg (by simp)]
  exact List.filter_eq_self.mpr fun p hp => by simpa using (h p hp).ne'

/-! ### A new block and the pieces at its right -/

/-- A new block ends at `e`: the pieces it covers go, and it ends where the
first piece begins that reaches past it. What stays, and where it ends. -/
def trim (e : ℕ) : Store α → Store α × ℕ
  | [] => ([], e)
  | (k, b) :: m =>
    if k < e then if e < k + b.length then ((k, b) :: m, k) else trim e m
    else ((k, b) :: m, e)

theorem trim_of_le {e n : ℕ} (h : e ≤ n) : ∀ {m : Store α}, Ordered n m → trim e m = (m, e)
  | [], _ => rfl
  | (k, b) :: m, ⟨h1, _, _⟩ => by
    unfold trim
    rw [if_neg (by omega)]

theorem trim_suffix (e : ℕ) : ∀ m : Store α, (trim e m).1 <:+ m
  | [] => List.suffix_refl _
  | (k, b) :: m => by
    unfold trim
    split_ifs
    · exact List.suffix_refl _
    · exact (trim_suffix e m).trans (List.suffix_cons _ _)
    · exact List.suffix_refl _

/-- What `trim` leaves is at or after the new end. -/
theorem trim_spec : ∀ {n e : ℕ} {m : Store α}, Ordered n m →
    (trim e m).2 ≤ e ∧ (n ≤ e → n ≤ (trim e m).2) ∧ Ordered (trim e m).2 (trim e m).1
  | _, _, [], _ => ⟨le_rfl, id, trivial⟩
  | n, e, (k, b) :: m, ⟨h1, h2, h3⟩ => by
    unfold trim
    by_cases hk : k < e
    · rw [if_pos hk]
      by_cases he : e < k + b.length
      · rw [if_pos he]
        exact ⟨hk.le, fun _ => h1, le_rfl, h2, h3⟩
      · rw [if_neg he]
        obtain ⟨i1, i2, i3⟩ := trim_spec (e := e) h3
        refine ⟨i1, fun _ => ?_, i3⟩
        have := i2 (by omega)
        omega
    · rw [if_neg hk]
      exact ⟨le_rfl, id, by omega, h2, h3⟩

/-- Up to `e` nothing is lost: an index the new block gives up is in the
piece that cut it. -/
theorem trim_covers : ∀ {n e : ℕ} {m : Store α}, Ordered n m → ∀ x, x < e → (trim e m).2 ≤ x → Covers (trim e m).1 x
  | _, _, [], _, _, h1, h2 => absurd h2 (by simpa [trim] using h1)
  | n, e, (k, b) :: m, ⟨_, _, h3⟩, x, h1, h2 => by
    unfold trim at h2 ⊢
    by_cases hk : k < e
    · rw [if_pos hk] at h2 ⊢
      by_cases he : e < k + b.length
      · rw [if_pos he] at h2 ⊢
        simp only at h2
        exact ⟨(k, b), List.mem_cons_self, h2, by simp only; omega⟩
      · rw [if_neg he] at h2 ⊢
        exact trim_covers h3 x h1 h2
    · rw [if_neg hk] at h2
      simp only at h2
      omega

/-- And a piece that goes is covered by the new block. -/
theorem covers_trim : ∀ {n e : ℕ} {m : Store α}, Ordered n m → ∀ x, Covers m x →
    Covers (trim e m).1 x ∨ x < (trim e m).2
  | _, _, [], _, _, hx => Or.inl hx
  | n, e, (k, b) :: m, ⟨_, _, h3⟩, x, hx => by
    unfold trim
    by_cases hk : k < e
    · rw [if_pos hk]
      by_cases he : e < k + b.length
      · rw [if_pos he]
        exact Or.inl hx
      · rw [if_neg he]
        obtain ⟨p, hp, h4, h5⟩ := hx
        rcases List.mem_cons.mp hp with rfl | hp
        · have := (trim_spec (e := e) h3).2.1 (not_lt.mp he)
          exact Or.inr (h5.trans_le this)
        · exact covers_trim h3 x ⟨p, hp, h4, h5⟩
    · rw [if_neg hk]
      exact Or.inl hx

/-! ### Pieces of a sequence -/

/-- Block `b` is what the sequence `S` holds from index `k` on. -/
def Holds (S : List α) (p : ℕ × List α) : Prop := p.2 <+: S.drop p.1

theorem Holds.drop {S : List α} {k : ℕ} {b : List α} (h : Holds S (k, b)) (w : ℕ) :
    Holds S (k + w, b.drop w) := by
  have := List.IsPrefix.drop h w
  simpa only [Holds, List.drop_drop] using this

theorem Holds.take {S : List α} {k : ℕ} {b : List α} (h : Holds S (k, b)) (w : ℕ) :
    Holds S (k, b.take w) := (List.take_prefix w b).trans h

theorem Holds.append {S : List α} {k : ℕ} {b b' : List α} (h : Holds S (k, b))
    (h' : Holds S (k + b.length, b')) : Holds S (k, b ++ b') := by
  obtain ⟨t, ht⟩ := h
  simp only [Holds, ← List.drop_drop] at h' ht ⊢
  rw [← ht, List.drop_left] at h'
  rw [← ht]
  exact (List.prefix_append_right_inj _).mpr h'

/-- A longer sequence holds what its prefixes hold. -/
theorem Holds.mono {S T : List α} {p : ℕ × List α} (h : Holds S p) (hS : S <+: T) : Holds T p :=
  h.trans (hS.drop p.1)

/-! ### The run without a gap -/

/-- Where the blocks that follow `n` without a gap end. -/
def reach : ℕ → Store α → ℕ
  | n, [] => n
  | n, (k, b) :: m => if k = n then reach (n + b.length) m else n

theorem reach_cons_self {n : ℕ} {b : List α} {m : Store α} : reach n ((n, b) :: m) = reach (n + b.length) m := by
  simp [reach]

theorem reach_cons_ne {n k : ℕ} (h : k ≠ n) {b : List α} {m : Store α} : reach n ((k, b) :: m) = n := by
  simp [reach, h]

theorem le_reach_self : ∀ (n : ℕ) (m : Store α), n ≤ reach n m
  | _, [] => le_rfl
  | n, (k, b) :: m => by
    unfold reach
    split
    · exact (Nat.le_add_right _ _).trans (le_reach_self _ m)
    · exact le_rfl

theorem covers_cons {k x : ℕ} {b : List α} {m : Store α} :
    Covers ((k, b) :: m) x ↔ (k ≤ x ∧ x < k + b.length) ∨ Covers m x := by
  simp [Covers]

theorem covers_append {a b : Store α} {x : ℕ} : Covers (a ++ b) x ↔ Covers a x ∨ Covers b x := by
  simp only [Covers, List.mem_append, or_and_right, exists_or]

/-- If every index from `n` to `e` is held, the run reaches `e`. -/
theorem le_reach : ∀ {n e : ℕ} {m : Store α}, Ordered n m → (∀ x, n ≤ x → x < e → Covers m x) → e ≤ reach n m
  | n, e, [], _, h => by
    by_contra hc
    obtain ⟨p, hp, -⟩ := h n le_rfl (by simpa [reach] using hc)
    cases hp
  | n, e, (k, b) :: m, ⟨h1, h2, h3⟩, h => by
    unfold reach
    by_cases hk : k = n
    · rw [if_pos hk]
      subst hk
      refine le_reach h3 fun x hx hxe => ?_
      rcases covers_cons.mp (h x (by omega) hxe) with ⟨_, h5⟩ | h4
      · omega
      · exact h4
    · rw [if_neg hk]
      by_contra hc
      rcases covers_cons.mp (h n le_rfl (by omega)) with ⟨h4, _⟩ | ⟨p, hp, h4, _⟩
      · omega
      · have := h3.le_key p hp
        omega

/-- The elements held are the indices covered. -/
theorem Ordered.total_eq_card {lo e : ℕ} {m : Store α} (h : Ordered lo m) (he : stop lo m ≤ e) :
    total m = ((Finset.Ico lo e).filter (Covers m)).card := by
  induction m generalizing lo with
  | nil =>
    rw [Finset.filter_false_of_mem fun x _ => by simp [Covers]]
    simp
  | cons p m ih =>
    obtain ⟨k, b⟩ := p
    obtain ⟨h1, _, h3⟩ := h
    have hstop := h3.le_stop
    simp only [stop] at he
    have hsplit : (Finset.Ico lo e).filter (Covers ((k, b) :: m)) =
        Finset.Ico k (k + b.length) ∪ (Finset.Ico (k + b.length) e).filter (Covers m) := by
      ext x
      have hm : Covers m x → k + b.length ≤ x := by
        rintro ⟨q, hq, h4, -⟩
        exact (h3.le_key q hq).trans h4
      simp only [Finset.mem_filter, Finset.mem_union, Finset.mem_Ico, covers_cons]
      constructor
      · rintro ⟨h4, h5 | h5⟩
        · exact Or.inl h5
        · exact Or.inr ⟨⟨hm h5, h4.2⟩, h5⟩
      · rintro (h4 | ⟨h4, h5⟩)
        · exact ⟨by omega, Or.inl h4⟩
        · exact ⟨by omega, Or.inr h5⟩
    have hdisj : Disjoint (Finset.Ico k (k + b.length)) ((Finset.Ico (k + b.length) e).filter (Covers m)) := by
      rw [Finset.disjoint_left]
      intro x h4 h5
      simp only [Finset.mem_filter, Finset.mem_Ico] at h4 h5
      omega
    rw [hsplit, Finset.card_union_of_disjoint hdisj, Nat.card_Ico, total_cons, ih h3 he]
    omega

/-! ### Below an edge -/

/-- The elements held at indices below `e`. -/
def below (e : ℕ) (m : Store α) : ℕ := (m.map fun p => min p.2.length (e - p.1)).sum

@[simp] theorem below_nil (e : ℕ) : below e ([] : Store α) = 0 := rfl

@[simp] theorem below_cons (e k : ℕ) (b : List α) (m : Store α) :
    below e ((k, b) :: m) = min b.length (e - k) + below e m := by simp [below]

/-- Disjoint pieces from `lo` on hold at most what lies between. -/
theorem Ordered.below_le : ∀ {lo e : ℕ} {m : Store α}, Ordered lo m → below e m ≤ e - lo
  | _, _, [], _ => Nat.zero_le _
  | lo, e, (k, b) :: m, ⟨h1, _, h3⟩ => by
    have := h3.below_le (e := e)
    rw [below_cons]
    omega

/-- Two pieces do not overlap. -/
theorem Ordered.apart : ∀ {lo : ℕ} {m : Store α}, Ordered lo m → ∀ p ∈ m, ∀ q ∈ m,
    q.1 ≤ p.1 ∨ p.1 + p.2.length ≤ q.1
  | _, [], _, _, hp, _, _ => by cases hp
  | lo, (k, b) :: m, ⟨_, _, h3⟩, p, hp, q, hq => by
    rcases List.mem_cons.mp hp with rfl | hp' <;> rcases List.mem_cons.mp hq with rfl | hq'
    · exact Or.inl le_rfl
    · exact Or.inr (h3.le_key q hq')
    · have := h3.le_key p hp'
      exact Or.inl (by simp only; omega)
    · exact h3.apart p hp' q hq'

/-- One block ends where the next begins, or before. -/
theorem Ordered.pairwise {lo : ℕ} {m : Store α} (h : Ordered lo m) :
    m.Pairwise fun p q => p.1 + p.2.length ≤ q.1 := by
  induction m generalizing lo with
  | nil => exact List.Pairwise.nil
  | cons p m ih => exact List.pairwise_cons.mpr ⟨fun q hq => h.2.2.le_key q hq, ih h.2.2⟩

/-- Under a key is one block. -/
theorem Ordered.unique {lo k k' : ℕ} {b b' : List α} {m : Store α} (h : Ordered lo m) (hp : (k, b) ∈ m)
    (hp' : (k', b') ∈ m) (hk : k = k') : b = b' := by
  induction m generalizing lo with
  | nil => cases hp
  | cons q m ih =>
    obtain ⟨_, h2, h3⟩ := h
    have hlt : ∀ p ∈ m, q.1 < p.1 := fun p hp => by
      have h4 := h3.le_key p hp
      have h5 := List.length_pos_of_ne_nil h2
      omega
    rcases List.mem_cons.mp hp with rfl | hm <;> rcases List.mem_cons.mp hp' with hq | hm'
    · exact (Prod.mk.inj hq).2.symm
    · exact absurd hk (hlt _ hm').ne
    · subst hq
      exact absurd hk (hlt _ hm).ne'
    · exact ih h3 hm hm'

/-- If no piece starts past the edge, one piece at most reaches over it. -/
theorem Ordered.total_le_below : ∀ {lo e l : ℕ} {m : Store α}, Ordered lo m → (∀ p ∈ m, p.1 ≤ e) →
    (∀ p ∈ m, p.2.length ≤ l) → total m ≤ below e m + l
  | _, _, _, [], _, _, _ => by simp
  | lo, e, l, (k, b) :: m, ⟨_, _, h3⟩, hk, hl => by
    rw [total_cons, below_cons]
    rcases le_or_gt (k + b.length) e with h | h
    · have := h3.total_le_below (fun p hp => hk p (List.mem_cons_of_mem _ hp))
        fun p hp => hl p (List.mem_cons_of_mem _ hp)
      omega
    · have hm : m = [] := by
        by_contra hc
        obtain ⟨p, hp⟩ := List.exists_mem_of_ne_nil _ hc
        have h1 := h3.le_key p hp
        have h2 := hk p (List.mem_cons_of_mem _ hp)
        omega
      have := hl (k, b) List.mem_cons_self
      simp only at this
      rw [hm, total_nil, below_nil]
      omega

end Pieces
