/-
# What a push does

Where no sum wraps `push_substring` is exact: the new start is the larger of
the index and the end of what is held at its left, and the clipping is `trim`
(`pushSubstring_exact`). A substring past the window changes nothing
(`pushSubstring_past`); one so far before what is assembled that its size wraps
does not either, if the window is closed (`pushSubstring_behind`). In range
(`PushOk`) one of the first two applies. `push_spec` says what every push in
range keeps and what it writes; the results about the reassembler and the
receiver are derived from it.

Key definitions: `StreamReassembler.Tidy`, `StreamReassembler.WF`,
`StreamReassembler.PushOk`, `StreamReassembler.clipped`,
`StreamReassembler.merged`.
Key theorems: `StreamReassembler.pushSubstring_exact`,
`StreamReassembler.pushSubstring_behind`, `StreamReassembler.assemble_spec`,
`StreamReassembler.push_exact`, `StreamReassembler.push_spec`.
-/
import Sponge.StreamReassembler

namespace Sponge
namespace StreamReassembler

open Pieces ByteStream

/-- The store is in order: it starts where the output stops, and its pieces
are what a `size_t` can index and a string can hold. -/
structure Tidy (r : StreamReassembler) : Prop where
  ordered : Ordered r.nextAssembledIdx r.unassembleStrs
  next_eq : r.nextAssembledIdx = r.output.bytesWritten
  cap_eq : r.capacity = r.output.capacity
  end_lt : ∀ p ∈ r.unassembleStrs, p.1 + p.2.length < 2 ^ 64
  len_lt : ∀ p ∈ r.unassembleStrs, p.2.length < 2 ^ 63
  total_le : total r.unassembleStrs ≤ r.unassembledBytesNum

/-- Between two calls, a stream whose end is reached has been ended. -/
structure WF (r : StreamReassembler) : Prop extends Tidy r where
  eof_gt : r.output.inputEnded = false → r.nextAssembledIdx < r.eofIdx

theorem init_wf (capacity : ℕ) : WF (init capacity) where
  ordered := trivial
  next_eq := rfl
  cap_eq := rfl
  end_lt := fun _ h => by cases h
  len_lt := fun _ h => by cases h
  total_le := le_rfl
  eof_gt := fun _ => by simp [init]

theorem read_wf {r : StreamReassembler} (h : WF r) (len : ℕ) : WF (r.read len).2 where
  ordered := h.ordered
  next_eq := h.next_eq.trans (ByteStream.popOutput_bytesWritten _ _).symm
  cap_eq := h.cap_eq.trans (ByteStream.popOutput_capacity _ _).symm
  end_lt := h.end_lt
  len_lt := h.len_lt
  total_le := h.total_le
  eof_gt := fun hc => h.eof_gt ((ByteStream.popOutput_inputEnded _ _).symm.trans hc)

theorem setError_wf {r : StreamReassembler} (h : WF r) : WF { r with output := r.output.setError } :=
  ⟨⟨h.ordered, h.next_eq, h.cap_eq, h.end_lt, h.len_lt, h.total_le⟩, h.eof_gt⟩

/-- The substrings whose index sums do not wrap, or that start past the window. -/
def PushOk (r : StreamReassembler) (data : Bytes) (index : ℕ) : Prop :=
  data.length < 2 ^ 63 ∧ r.nextAssembledIdx ≤ 2 ^ 63 ∧
    (index + data.length < 2 ^ 64 ∨ r.firstUnacceptableIdx ≤ index)

/-! ### The split at an index -/

/-- The pieces that start at or before the index. -/
def left (r : StreamReassembler) (index : ℕ) : Store UInt8 := r.unassembleStrs.takeWhile (·.1 ≤ index)

/-- The pieces that start after it. -/
def right (r : StreamReassembler) (index : ℕ) : Store UInt8 := r.unassembleStrs.dropWhile (·.1 ≤ index)

/-- Where a substring pushed at the index starts to be new. -/
def start (r : StreamReassembler) (index : ℕ) : ℕ := max index (stop r.nextAssembledIdx (r.left index))

theorem left_append_right (r : StreamReassembler) (index : ℕ) : r.left index ++ r.right index = r.unassembleStrs :=
  split_le _ _

theorem mem_left {r : StreamReassembler} {index : ℕ} {p : ℕ × Bytes} (hp : p ∈ r.left index) :
    p ∈ r.unassembleStrs ∧ p.1 ≤ index :=
  ⟨(List.takeWhile_prefix _).subset hp, by simpa using List.mem_takeWhile_imp hp⟩

theorem mem_right {r : StreamReassembler} {index : ℕ} {p : ℕ × Bytes} (hp : p ∈ r.right index) :
    p ∈ r.unassembleStrs := (List.dropWhile_suffix _).subset hp

theorem Tidy.left_ordered {r : StreamReassembler} (h : Tidy r) (index : ℕ) :
    Ordered r.nextAssembledIdx (r.left index) :=
  (ordered_append.mp ((left_append_right r index).symm ▸ h.ordered)).1

theorem Tidy.right_ordered {r : StreamReassembler} (h : Tidy r) (index : ℕ) :
    Ordered (r.start index) (r.right index) := (split_lowerBound h.ordered).2.2

theorem next_le_start {r : StreamReassembler} (h : Tidy r) (index : ℕ) : r.nextAssembledIdx ≤ r.start index :=
  (h.left_ordered index).le_stop.trans (le_max_right _ _)

theorem index_le_start (r : StreamReassembler) (index : ℕ) : index ≤ r.start index := le_max_left _ _

theorem newIdx_eq {r : StreamReassembler} (h : Tidy r) (index : ℕ) : r.newIdx index = r.start index := by
  have hleft : lastLE r.unassembleStrs index = (r.left index).getLast? := rfl
  unfold newIdx start
  rw [hleft]
  cases hl : (r.left index).getLast? with
  | none =>
    rw [List.getLast?_eq_none_iff] at hl
    simp only [hl, stop]
    split <;> omega
  | some p =>
    have := h.end_lt p (mem_left (List.mem_of_getLast? hl)).1
    rw [stop_of_getLast? hl]
    obtain ⟨k, b⟩ := p
    simp only at this ⊢
    rw [Nat.mod_eq_of_lt this]
    split <;> omega

/-- Where the new start is: within a piece, so close to the index, or where
the assembled part ends. -/
theorem start_near {r : StreamReassembler} (h : Tidy r) (index : ℕ) :
    r.start index ≤ index + 2 ^ 63 ∨ r.start index = r.nextAssembledIdx := by
  unfold start
  cases hl : (r.left index).getLast? with
  | none =>
    rw [List.getLast?_eq_none_iff] at hl
    simp only [hl, stop]
    omega
  | some p =>
    obtain ⟨hp, h1⟩ := mem_left (List.mem_of_getLast? hl)
    have h2 := h.len_lt p hp
    rw [stop_of_getLast? hl]
    omega

theorem start_sub_le {r : StreamReassembler} (h : Tidy r) (hn : r.nextAssembledIdx ≤ 2 ^ 63) (index : ℕ) :
    r.start index - index ≤ 2 ^ 63 := by
  have hnear := start_near h index
  omega

theorem start_lt {r : StreamReassembler} (h : Tidy r) (hn : r.nextAssembledIdx < 2 ^ 64) {index : ℕ}
    (hi : index < 2 ^ 64) : r.start index < 2 ^ 64 := by
  unfold start
  cases hl : (r.left index).getLast? with
  | none =>
    rw [List.getLast?_eq_none_iff] at hl
    simp only [hl, stop]
    omega
  | some p =>
    have h2 := h.end_lt p (mem_left (List.mem_of_getLast? hl)).1
    rw [stop_of_getLast? hl]
    omega

/-! ### The clipping loop is `trim` -/

theorem clip_eq {n e : ℕ} (he : e < 2 ^ 64) : ∀ {m : Store UInt8} (num : ℕ),
    (∀ p ∈ m, p.1 + p.2.length < 2 ^ 64) →
    clip n (e - n) m num = ((trim e m).1, ((trim e m).2 : ℤ) - n, num - (total m - total (trim e m).1))
  | [], num, _ => by simp [clip, trim]
  | (k, b) :: m, num, hm => by
    have hk := hm (k, b) List.mem_cons_self
    simp only at hk
    have hde : ((((n : ℤ) + (e - n)) % 2 ^ 64).toNat) = e := by omega
    unfold clip trim
    simp only [hde, Nat.mod_eq_of_lt hk]
    by_cases h1 : k < e
    · rw [if_pos h1, if_pos h1]
      by_cases h2 : e < k + b.length
      · rw [if_pos h2, if_pos h2]; simp
      · rw [if_neg h2, if_neg h2, clip_eq he _ fun p hp => hm p (List.mem_cons_of_mem _ hp)]
        have hle := total_le_of_suffix (trim_suffix e m)
        simp only [total_cons, Prod.mk.injEq, true_and]
        omega
    · rw [if_neg h1, if_neg h1]; simp

/-- Pieces past the wrapped end of the substring are not clipped. -/
theorem clip_of_le {n : ℕ} {z : ℤ} {m : Store UInt8} (num : ℕ)
    (hm : ∀ p ∈ m, ((n + z) % 2 ^ 64).toNat ≤ p.1) : clip n z m num = (m, z, num) := by
  cases m with
  | nil => rfl
  | cons p m =>
    unfold clip
    simp only
    rw [if_neg (not_lt.mpr (hm p List.mem_cons_self))]

/-! ### The push, exactly -/

/-- After the clipping. -/
def clipped (r : StreamReassembler) (data : Bytes) (index : ℕ) : StreamReassembler :=
  let t := trim (index + data.length) (r.right index)
  { r with
    unassembleStrs := r.left index ++ t.1
    unassembledBytesNum := r.unassembledBytesNum - (total (r.right index) - total t.1) }

/-- The bytes of the substring that are new. -/
def newData (r : StreamReassembler) (data : Bytes) (index : ℕ) : Bytes :=
  (data.drop (r.start index - index)).take ((trim (index + data.length) (r.right index)).2 - r.start index)

/-- After the new bytes, if there are any, are written or stored. -/
def merged (r : StreamReassembler) (data : Bytes) (index : ℕ) : StreamReassembler :=
  if r.start index < (trim (index + data.length) (r.right index)).2 then
    (r.clipped data index).store (r.start index) (r.newData data index)
  else r.clipped data index

/-- If neither the end of the substring nor the signed size of what is left of
it wraps, `push_substring` is the exact clipping, the window check, the merge,
the assembly and the end-of-stream bookkeeping. -/
theorem pushSubstring_exact {r : StreamReassembler} (h : Tidy r) {data : Bytes} {index : ℕ}
    (hs : r.start index ≤ index + data.length + 2 ^ 63) (hd : data.length < 2 ^ 63)
    (he : index + data.length < 2 ^ 64) (eof : Bool) : r.pushSubstring data index eof =
      if r.firstUnacceptableIdx ≤ r.start index then some (r.clipped data index)
      else (assemble (r.merged data index).unassembleStrs (r.merged data index)).map
        (·.finish (index + data.length) eof) := by
  obtain ⟨hlb, htw, hor⟩ := split_lowerBound (k := index) h.ordered
  change lowerBound _ (r.start index) = r.right index at hlb
  change List.takeWhile (fun p => decide (p.1 < r.start index)) _ = r.left index at htw
  have hi := index_le_start r index
  have hsz : toSSize ((data.length : ℤ) - ((r.start index - index : ℕ) : ℤ)) =
      ((index + data.length : ℕ) : ℤ) - (r.start index : ℤ) := by
    rw [toSSize_of_range (by omega) (by omega)]
    omega
  have hclip := clip_eq (n := r.start index) he r.unassembledBytesNum
    fun p (hp : p ∈ r.right index) => h.end_lt p (mem_right hp)
  unfold pushSubstring merged
  simp only [newIdx_eq h, hlb, htw, hsz, hclip, Nat.mod_eq_of_lt he]
  set t := trim (index + data.length) (r.right index) with ht
  by_cases hw : r.firstUnacceptableIdx ≤ r.start index
  · rw [if_pos hw, if_pos hw]; rfl
  · rw [if_neg hw, if_neg hw]
    by_cases hpos : r.start index < t.2
    · have hte : t.2 ≤ index + data.length := (trim_spec hor).1
      rw [if_pos (by omega), if_pos hpos, if_neg (by omega)]
      have htn : ((t.2 : ℤ) - (r.start index : ℤ)).toNat = t.2 - r.start index := by omega
      simp only [htn]
      rfl
    · rw [if_neg (by omega), if_neg hpos]; rfl

/-- While at most `2 ^ 63` bytes are assembled the size does not wrap. -/
theorem pushSubstring_eq {r : StreamReassembler} (h : Tidy r) (hn : r.nextAssembledIdx ≤ 2 ^ 63) {data : Bytes}
    {index : ℕ} (hd : data.length < 2 ^ 63) (he : index + data.length < 2 ^ 64) (eof : Bool) :
    r.pushSubstring data index eof =
      if r.firstUnacceptableIdx ≤ r.start index then some (r.clipped data index)
      else (assemble (r.merged data index).unassembleStrs (r.merged data index)).map
        (·.finish (index + data.length) eof) := by
  have hs := start_sub_le h hn index
  exact pushSubstring_exact h (by omega) hd he eof

/-- A substring whose wrapped end is before all pieces clips none of them. What
happens then depends on what size is seen. -/
theorem pushSubstring_unclipped {r : StreamReassembler} (h : Tidy r) {data : Bytes} {index : ℕ} {size : ℤ}
    (hsize : toSSize ((data.length : ℤ) - ((r.start index - index : ℕ) : ℤ)) = size)
    (hend : ((r.start index + size) % 2 ^ 64).toNat ≤ r.start index) (eof : Bool) :
    (r.firstUnacceptableIdx ≤ r.start index → r.pushSubstring data index eof = some r) ∧
      (r.start index < r.firstUnacceptableIdx → 0 < size → data.length < r.start index - index →
        r.pushSubstring data index eof = none) := by
  obtain ⟨hlb, htw, hor⟩ := split_lowerBound (k := index) h.ordered
  change lowerBound _ (r.start index) = r.right index at hlb
  change List.takeWhile (fun p => decide (p.1 < r.start index)) _ = r.left index at htw
  have hclip := clip_of_le (n := r.start index) (z := size) r.unassembledBytesNum (m := r.right index) fun p hp =>
    hend.trans (hor.le_key p hp)
  unfold pushSubstring
  simp only [newIdx_eq h, hlb, htw, hsize, hclip]
  constructor
  · intro hw
    rw [if_pos hw, left_append_right]
  · intro hw hpos hshort
    rw [if_neg (not_le.mpr hw), if_pos hpos, if_pos hshort]

/-- A substring past the window whose end wraps changes nothing. -/
theorem pushSubstring_past {r : StreamReassembler} (h : Tidy r) (hn : r.nextAssembledIdx < 2 ^ 64) {data : Bytes}
    {index : ℕ} (hd : data.length < 2 ^ 63) (hi : index < 2 ^ 64) (he : 2 ^ 64 ≤ index + data.length)
    (hw : r.firstUnacceptableIdx ≤ r.start index) (eof : Bool) : r.pushSubstring data index eof = some r := by
  have his := index_le_start r index
  have hlt := start_lt h hn hi
  have hsize := toSSize_of_range (x := (data.length : ℤ) - ((r.start index - index : ℕ) : ℤ)) (by omega) (by omega)
  exact (pushSubstring_unclipped h hsize (by omega) eof).1 hw

theorem pushSubstring_far {r : StreamReassembler} (h : Tidy r) (hn : r.nextAssembledIdx ≤ 2 ^ 63) {data : Bytes}
    {index : ℕ} (hd : data.length < 2 ^ 63) (hi : index < 2 ^ 64) (he : 2 ^ 64 ≤ index + data.length)
    (hw : r.firstUnacceptableIdx ≤ index) (eof : Bool) : r.pushSubstring data index eof = some r :=
  pushSubstring_past h (by omega) hd hi he (hw.trans (index_le_start r index)) eof

/-- A substring so far before what is assembled that its size wraps: if the
window is closed nothing happens, else the position of its first byte is past
its end, and `substr` throws. -/
theorem pushSubstring_behind {r : StreamReassembler} (h : Tidy r) {data : Bytes} {index : ℕ}
    (hn : r.nextAssembledIdx < 2 ^ 64) (hb : index + data.length + 2 ^ 63 < r.nextAssembledIdx) (eof : Bool) :
    r.pushSubstring data index eof = if r.firstUnacceptableIdx ≤ r.nextAssembledIdx then some r else none := by
  have hstart : r.start index = r.nextAssembledIdx := by
    have hnear := start_near h index
    have hge := next_le_start h index
    omega
  have hsize : toSSize ((data.length : ℤ) - ((r.start index - index : ℕ) : ℤ)) =
      2 ^ 64 - ((r.start index - index : ℕ) - (data.length : ℤ)) := by
    unfold toSSize
    split <;> omega
  obtain ⟨hclosed, hopen⟩ := pushSubstring_unclipped h hsize (by omega) eof
  rw [hstart] at hclosed hopen
  split
  · exact hclosed ‹_›
  · exact hopen (not_le.mp ‹_›) (by omega) (by omega)

/-! ### The assembly loop -/

/-- What the assembly loop over `m` makes of `r`: it writes the run without a
gap (`d`) as far as the output has room; a piece that stays is a piece of `m`
or the rest of the one cut. -/
structure Assembled (m : Store UInt8) (r r' : StreamReassembler) (d : Bytes) : Prop where
  wrote : Wrote r.output r'.output d
  next : r'.nextAssembledIdx = r.nextAssembledIdx + d.length
  stops : r'.nextAssembledIdx = min (r.nextAssembledIdx + r.output.room) (reach r.nextAssembledIdx m)
  ordered : Ordered r'.nextAssembledIdx r'.unassembleStrs
  num : r'.unassembledBytesNum + d.length = r.unassembledBytesNum
  total_le : total r'.unassembleStrs ≤ r'.unassembledBytesNum
  pieces : ∀ p ∈ r'.unassembleStrs, ∃ q ∈ m, ∃ w, p = (q.1 + w, q.2.drop w) ∧ w ≤ q.2.length ∧
    (w = 0 ∨ p.1 = r'.nextAssembledIdx)
  holds : ∀ S, (∀ p ∈ m, Holds S p) → Holds S (r.nextAssembledIdx, d)
  eof : r'.eofIdx = r.eofIdx
  capacity : r'.capacity = r.capacity

/-- No piece continues the output: nothing happens. -/
theorem assembled_gap {m : Store UInt8} {r : StreamReassembler} (ho : Ordered r.nextAssembledIdx m)
    (ht : total m ≤ r.unassembledBytesNum) (hr : reach r.nextAssembledIdx m = r.nextAssembledIdx) :
    Assembled m r { r with unassembleStrs := m } [] where
  wrote := Wrote.refl _
  next := rfl
  stops := by rw [hr]; simp
  ordered := ho
  num := rfl
  total_le := ht
  pieces := fun p hp => ⟨p, hp, 0, by simp, Nat.zero_le _, Or.inl rfl⟩
  holds := fun _ _ => List.nil_prefix
  eof := rfl
  capacity := rfl

/-- What `erase` and `insert` leave when a write took `w` bytes of the first
piece: the rest under its own index, or, if `w = 0`, nothing of it. -/
theorem erase_insert_rest {k w : ℕ} {s : Bytes} {m : Store UInt8} (hw : w < s.length) (hm : Ordered (k + s.length) m) :
    erase k (insert (k + w) (s.drop w) ((k, s) :: m)) = if w = 0 then m else (k + w, s.drop w) :: m := by
  have hgt : ∀ p ∈ m, k + w < p.1 := fun p hp => by
    have := hm.le_key p hp
    omega
  split
  · rename_i h0
    subst h0
    rw [Nat.add_zero, insert_head, erase_head fun p hp => by simpa using hgt p hp]
  · have hins := insert_between (k := k + w) (b := s.drop w) (x := [(k, s)]) (y := m) (by simp; omega) hgt
    rw [List.singleton_append] at hins
    rw [hins, List.singleton_append, erase_head]
    intro p hp
    rcases List.mem_cons.mp hp with rfl | hp
    · simp only; omega
    · have := hgt p hp
      omega

/-- The output fills up in the first piece: what is left of it stays under
its own index, unless the write took nothing, when it is lost. -/
theorem assembled_cut {s : Bytes} {m : Store UInt8} {r : StreamReassembler}
    (ho : Ordered (r.nextAssembledIdx + s.length) m) (ht : s.length + total m ≤ r.unassembledBytesNum)
    (hlt : r.output.room < s.length) :
    Assembled ((r.nextAssembledIdx, s) :: m) r { r with
      output := (r.output.write s).2
      nextAssembledIdx := r.nextAssembledIdx + r.output.room
      unassembledBytesNum := r.unassembledBytesNum + (s.length - r.output.room) - s.length
      unassembleStrs := erase r.nextAssembledIdx (insert (r.nextAssembledIdx + r.output.room)
        (s.drop r.output.room) ((r.nextAssembledIdx, s) :: m)) }
      (s.take r.output.room) := by
  rw [erase_insert_rest hlt ho]
  have hw := ByteStream.write_wrote r.output s
  rw [min_eq_left hlt.le] at hw
  have hlen : (s.take r.output.room).length = r.output.room := by rw [List.length_take]; omega
  have hne : s.drop r.output.room ≠ [] := by rw [ne_eq, List.drop_eq_nil_iff]; omega
  refine ⟨hw, by rw [hlen], ?_, ?_, ?_, ?_, ?_, fun S hS => (hS _ List.mem_cons_self).take _, rfl, rfl⟩
  · rw [reach_cons_self]
    have := le_reach_self (r.nextAssembledIdx + s.length) m
    dsimp only
    omega
  · dsimp only
    split
    · exact ho.mono (by omega)
    · refine ⟨le_rfl, hne, ?_⟩
      rw [List.length_drop]
      exact ho.mono (by omega)
  · rw [hlen]
    dsimp only
    omega
  · dsimp only
    split
    · omega
    · rw [total_cons, List.length_drop]
      omega
  · intro p hp
    have hin : p = (r.nextAssembledIdx + r.output.room, s.drop r.output.room) ∨ p ∈ m := by
      dsimp only at hp
      split at hp
      · exact Or.inr hp
      · exact List.mem_cons.mp hp
    rcases hin with rfl | hp
    · exact ⟨(r.nextAssembledIdx, s), List.mem_cons_self, r.output.room, rfl, hlt.le, Or.inr rfl⟩
    · exact ⟨p, List.mem_cons_of_mem _ hp, 0, by simp, Nat.zero_le _, Or.inl rfl⟩

/-- The first piece is written whole and the loop goes on. -/
theorem assembled_whole {s d : Bytes} {m : Store UInt8} {r r' : StreamReassembler} (hle : s.length ≤ r.output.room)
    (ht : s.length + total m ≤ r.unassembledBytesNum)
    (h : Assembled m { r with
      output := (r.output.write s).2
      nextAssembledIdx := r.nextAssembledIdx + s.length
      unassembledBytesNum := r.unassembledBytesNum - s.length } r' d) :
    Assembled ((r.nextAssembledIdx, s) :: m) r r' (s ++ d) := by
  have hw := ByteStream.write_wrote r.output s
  rw [min_eq_right hle, List.take_length] at hw
  have hroom := hw.room
  have hnum := h.num
  have hnext := h.next
  simp only at hnum hnext
  refine ⟨hw.trans h.wrote, ?_, ?_, h.ordered, ?_, h.total_le, ?_, ?_, h.eof, h.capacity⟩
  · rw [hnext, List.length_append, Nat.add_assoc]
  · rw [h.stops, reach_cons_self]
    simp only
    rw [Nat.add_assoc, hroom]
  · rw [List.length_append]
    omega
  · intro p hp
    obtain ⟨q, hq, w, hpw⟩ := h.pieces p hp
    exact ⟨q, List.mem_cons_of_mem _ hq, w, hpw⟩
  · intro S hS
    exact (hS _ List.mem_cons_self).append (h.holds S fun p hp => hS p (List.mem_cons_of_mem _ hp))

/-- On a store in order the assertion of the loop holds. -/
theorem assemble_spec : ∀ {m : Store UInt8} {r : StreamReassembler}, Ordered r.nextAssembledIdx m →
    total m ≤ r.unassembledBytesNum → ∃ r' d, assemble m r = some r' ∧ Assembled m r r' d
  | [], _, _, ht => ⟨_, [], rfl, assembled_gap trivial ht rfl⟩
  | (k, s) :: m, r, ho, ht => by
    obtain ⟨h1, h2, h3⟩ := ho
    by_cases hk : k = r.nextAssembledIdx
    · subst hk
      rw [total_cons] at ht
      have hfst := ByteStream.write_fst r.output s
      unfold assemble
      simp only [lt_irrefl, ↓reduceIte]
      by_cases hlt : r.output.room < s.length
      · rw [min_eq_left hlt.le] at hfst
        simp only [hfst, if_pos hlt]
        exact ⟨_, _, rfl, assembled_cut h3 ht hlt⟩
      · rw [min_eq_right (not_lt.mp hlt)] at hfst
        simp only [hfst, lt_irrefl, ↓reduceIte]
        obtain ⟨r', d, he, ha⟩ := assemble_spec (m := m) (r := { r with
          output := (r.output.write s).2
          nextAssembledIdx := r.nextAssembledIdx + s.length
          unassembledBytesNum := r.unassembledBytesNum - s.length }) h3 (by simp only; omega)
        exact ⟨r', s ++ d, he, assembled_whole (not_lt.mp hlt) ht ha⟩
    · refine ⟨{ r with unassembleStrs := (k, s) :: m }, [], ?_, assembled_gap ⟨h1, h2, h3⟩ ht (reach_cons_ne hk)⟩
      unfold assemble
      rw [if_neg (not_lt.mpr h1), if_neg hk]

theorem assembled_of_eq {m : Store UInt8} {r r' : StreamReassembler} (ho : Ordered r.nextAssembledIdx m)
    (ht : total m ≤ r.unassembledBytesNum) (ha : assemble m r = some r') : ∃ d, Assembled m r r' d := by
  obtain ⟨r₁, d, h1, h2⟩ := assemble_spec ho ht
  obtain rfl := Option.some.inj (h1.symm.trans ha)
  exact ⟨d, h2⟩

/-! ### The clipped and the merged store -/

theorem clipped_ordered {r : StreamReassembler} (h : Tidy r) (data : Bytes) (index : ℕ) :
    Ordered r.nextAssembledIdx (r.clipped data index).unassembleStrs := by
  refine ordered_append.mpr ⟨h.left_ordered index, ?_⟩
  exact ((h.right_ordered index).of_suffix (trim_suffix _ _)).mono (le_max_right _ _)

theorem mem_clipped {r : StreamReassembler} {data : Bytes} {index : ℕ} {p : ℕ × Bytes}
    (hp : p ∈ (r.clipped data index).unassembleStrs) : p ∈ r.unassembleStrs := by
  rcases List.mem_append.mp hp with hp | hp
  · exact (mem_left hp).1
  · exact mem_right ((trim_suffix _ _).subset hp)

theorem clipped_tidy {r : StreamReassembler} (h : Tidy r) (data : Bytes) (index : ℕ) :
    Tidy (r.clipped data index) where
  ordered := clipped_ordered h data index
  next_eq := h.next_eq
  cap_eq := h.cap_eq
  end_lt := fun p hp => h.end_lt p (mem_clipped hp)
  len_lt := fun p hp => h.len_lt p (mem_clipped hp)
  total_le := by
    have h1 := h.total_le
    have h2 := total_le_of_suffix (trim_suffix (index + data.length) (r.right index))
    rw [← left_append_right r index, total_append] at h1
    simp only [clipped, total_append]
    omega

/-- The new bytes fill the gap from the start to where `trim` cuts them. -/
theorem newData_length {r : StreamReassembler} (h : Tidy r) (data : Bytes) (index : ℕ) :
    (r.newData data index).length =
      (trim (index + data.length) (r.right index)).2 - r.start index := by
  have h1 := (trim_spec (e := index + data.length) (h.right_ordered index)).1
  have h2 := index_le_start r index
  rw [newData, List.length_take, List.length_drop]
  omega

theorem newData_holds {r : StreamReassembler} {data : Bytes} {index : ℕ} {S : Bytes} (hS : Holds S (index, data)) :
    Holds S (r.start index, r.newData data index) := by
  have h1 := (hS.drop (r.start index - index)).take
    ((trim (index + data.length) (r.right index)).2 - r.start index)
  rwa [Nat.add_sub_cancel' (index_le_start r index)] at h1

/-- What merging the new bytes makes of `r`: those that continue the output
are written (`d`), the rest is a new piece or stays in the map. -/
structure Merged (r : StreamReassembler) (data : Bytes) (index : ℕ) (r' : StreamReassembler) (d : Bytes) : Prop where
  wrote : Wrote r.output r'.output d
  next : r'.nextAssembledIdx = r.nextAssembledIdx + d.length
  ordered : Ordered r'.nextAssembledIdx r'.unassembleStrs
  total_le : total r'.unassembleStrs ≤ r'.unassembledBytesNum
  pieces : ∀ p ∈ r'.unassembleStrs, p ∈ r.unassembleStrs ∨
    p.1 + p.2.length ≤ index + data.length ∧ p.2.length ≤ data.length ∧
      (p.1 = r'.nextAssembledIdx ∨ p.1 = r.start index)
  holds : ∀ S, Holds S (index, data) → Holds S (r.nextAssembledIdx, d)
  holds_pieces : ∀ S, Holds S (index, data) → (∀ p ∈ r.unassembleStrs, Holds S p) →
    ∀ p ∈ r'.unassembleStrs, Holds S p
  covers : ∀ x, r'.nextAssembledIdx ≤ x → x < index + data.length →
    (r.start index ≤ x ∨ Covers (r.left index) x) → Covers r'.unassembleStrs x
  eof : r'.eofIdx = r.eofIdx
  capacity : r'.capacity = r.capacity

section Merge

variable {r : StreamReassembler} {data : Bytes} {index : ℕ}

/-- Nothing of the substring is new. -/
theorem merged_of_le (h : Tidy r) (hle : (trim (index + data.length) (r.right index)).2 ≤ r.start index) :
    Merged r data index (r.clipped data index) [] where
  wrote := Wrote.refl _
  next := rfl
  ordered := (clipped_tidy h data index).ordered
  total_le := (clipped_tidy h data index).total_le
  pieces := fun _ hp => Or.inl (mem_clipped hp)
  holds := fun _ _ => List.nil_prefix
  holds_pieces := fun _ _ hS p hp => hS p (mem_clipped hp)
  covers := fun x _ hxe hx => by
    refine covers_append.mpr ?_
    rcases hx with hx | hx
    · exact Or.inr (trim_covers (h.right_ordered index) x hxe (hle.trans hx))
    · exact Or.inl hx
  eof := rfl
  capacity := rfl

/-- If the new bytes continue the output, nothing is held before them. -/
theorem left_eq_nil (h : Tidy r) (hn : r.start index = r.nextAssembledIdx) : r.left index = [] := by
  by_contra hc
  obtain ⟨p, hp⟩ := List.exists_mem_of_ne_nil _ hc
  have h1 := (h.left_ordered index).le_key p hp
  have h2 := (h.left_ordered index).end_le_stop p hp
  have h3 := List.length_pos_of_ne_nil ((h.left_ordered index).ne_nil p hp)
  have h4 : stop r.nextAssembledIdx (r.left index) ≤ r.start index := le_max_right _ _
  omega

/-- New bytes that continue the output are written as far as it has room; the
rest is the first piece. -/
theorem store_write (h : Tidy r) (hlt : r.start index < (trim (index + data.length) (r.right index)).2)
    (hn : r.start index = r.nextAssembledIdx) :
    (r.clipped data index).store (r.start index) (r.newData data index) =
      { r with
        output := (r.output.write (r.newData data index)).2
        nextAssembledIdx := r.nextAssembledIdx + min r.output.room (r.newData data index).length
        unassembledBytesNum := (r.clipped data index).unassembledBytesNum +
          ((r.newData data index).length - r.output.room)
        unassembleStrs :=
          if r.output.room < (r.newData data index).length then
            (r.nextAssembledIdx + r.output.room, (r.newData data index).drop r.output.room) ::
              (trim (index + data.length) (r.right index)).1
          else (trim (index + data.length) (r.right index)).1 } := by
  have hlen := newData_length h data index
  have hord := (trim_spec (e := index + data.length) (h.right_ordered index)).2.2
  have hfst := ByteStream.write_fst r.output (r.newData data index)
  simp only [store, clipped, left_eq_nil h hn, List.nil_append, hn, ↓reduceIte, hfst]
  by_cases hroom : r.output.room < (r.newData data index).length
  · have hgt : ∀ p ∈ (trim (index + data.length) (r.right index)).1, r.nextAssembledIdx + r.output.room < p.1 := by
      intro p hp
      have := hord.le_key p hp
      omega
    have hins : insert (r.nextAssembledIdx + r.output.room) ((r.newData data index).drop r.output.room)
        (trim (index + data.length) (r.right index)).1 = _ := insert_between (x := []) (fun _ hp => by cases hp) hgt
    simp only [min_eq_left hroom.le, if_pos hroom, hins, List.nil_append, List.length_drop]
  · have h0 : (r.newData data index).length - r.output.room = 0 := by omega
    simp only [min_eq_right (not_lt.mp hroom), lt_irrefl, if_neg hroom, h0, ↓reduceIte, Nat.add_zero]

/-- Other new bytes are a piece of their own. -/
theorem store_insert (h : Tidy r) (hlt : r.start index < (trim (index + data.length) (r.right index)).2)
    (hn : r.start index ≠ r.nextAssembledIdx) :
    (r.clipped data index).store (r.start index) (r.newData data index) =
      { r with
        unassembledBytesNum := (r.clipped data index).unassembledBytesNum + (r.newData data index).length
        unassembleStrs := r.left index ++ (r.start index, r.newData data index) ::
          (trim (index + data.length) (r.right index)).1 } := by
  have hord := (trim_spec (e := index + data.length) (h.right_ordered index)).2.2
  have hlo := h.left_ordered index
  have hstop : stop r.nextAssembledIdx (r.left index) ≤ r.start index := le_max_right _ _
  have hins : insert (r.start index) (r.newData data index) (r.clipped data index).unassembleStrs =
      r.left index ++ (r.start index, r.newData data index) :: (trim (index + data.length) (r.right index)).1 := by
    refine insert_between (fun p hp => ?_) fun p hp => ?_
    · have h1 := hlo.end_le_stop p hp
      have h2 := List.length_pos_of_ne_nil (hlo.ne_nil p hp)
      omega
    · have := hord.le_key p hp
      omega
  have hnext : (r.clipped data index).nextAssembledIdx = r.nextAssembledIdx := rfl
  simp only [store, hnext, if_neg hn, hins]
  rfl

/-- The new bytes continue the output: they are written as far as it has
room, and the rest is stored. -/
theorem merged_write (h : Tidy r) (hlt : r.start index < (trim (index + data.length) (r.right index)).2)
    (hn : r.start index = r.nextAssembledIdx) : ∃ d,
    Merged r data index ((r.clipped data index).store (r.start index) (r.newData data index)) d := by
  have hor := h.right_ordered index
  have hlen := newData_length h data index
  have hend := (trim_spec (e := index + data.length) hor).1
  have hord := (trim_spec (e := index + data.length) hor).2.2
  have htot := (clipped_tidy h data index).total_le
  have hcov := trim_covers (e := index + data.length) hor
  have hsuf := trim_suffix (index + data.length) (r.right index)
  have hmem : ∀ p ∈ (trim (index + data.length) (r.right index)).1, p ∈ r.unassembleStrs :=
    fun p hp => mem_right (hsuf.subset hp)
  have hi := index_le_start r index
  have hw := ByteStream.write_wrote r.output (r.newData data index)
  have hnew : ∀ S, Holds S (index, data) → Holds S (r.nextAssembledIdx, r.newData data index) := fun S hS => by
    rw [← hn]
    exact newData_holds hS
  simp only [clipped, left_eq_nil h hn, List.nil_append] at htot
  rw [store_write h hlt hn]
  simp only [clipped]
  generalize (trim (index + data.length) (r.right index)).1 = m at *
  generalize (trim (index + data.length) (r.right index)).2 = e at *
  generalize r.unassembledBytesNum - (total (r.right index) - total m) = num at *
  generalize r.newData data index = new at *
  have hwlen : (new.take (min r.output.room new.length)).length = min r.output.room new.length := by
    rw [List.length_take]
    omega
  refine ⟨new.take (min r.output.room new.length), ?_⟩
  by_cases hlt' : r.output.room < new.length
  · have hend' : r.nextAssembledIdx + r.output.room + (new.drop r.output.room).length = e := by
      rw [List.length_drop]
      omega
    rw [min_eq_left hlt'.le] at hw hwlen ⊢
    rw [if_pos hlt']
    refine ⟨hw, by rw [hwlen], ?_, ?_, ?_, fun S hS => (hnew S hS).take _, ?_, ?_, rfl, rfl⟩
    · refine ⟨le_rfl, ?_, by rw [hend']; exact hord⟩
      rw [ne_eq, List.drop_eq_nil_iff]
      omega
    · simp only [total_cons, List.length_drop]
      omega
    · intro p hp
      rcases List.mem_cons.mp hp with rfl | hp
      · refine Or.inr ⟨by rw [hend']; exact hend, ?_, Or.inl rfl⟩
        rw [List.length_drop]
        omega
      · exact Or.inl (hmem p hp)
    · intro S hS hp' p hp
      rcases List.mem_cons.mp hp with rfl | hp
      · exact (hnew S hS).drop _
      · exact hp' p (hmem p hp)
    · intro x hx hxe _
      refine covers_cons.mpr ?_
      rw [hend']
      rcases lt_or_ge x e with h1 | h1
      · exact Or.inl ⟨hx, h1⟩
      · exact Or.inr (hcov x hxe h1)
  · have h0 : new.length - r.output.room = 0 := by omega
    rw [min_eq_right (not_lt.mp hlt')] at hw hwlen ⊢
    rw [if_neg hlt', h0]
    refine ⟨hw, by rw [hwlen], ?_, htot, fun p hp => Or.inl (hmem p hp), fun S hS => (hnew S hS).take _,
      fun S _ hS p hp => hS p (hmem p hp), ?_, rfl, rfl⟩
    · exact hord.mono (by simp only; omega)
    · intro x hx hxe _
      exact hcov x hxe (by simp only at hx; omega)

/-- The new bytes do not continue the output: they are stored. -/
theorem merged_insert (h : Tidy r) (hlt : r.start index < (trim (index + data.length) (r.right index)).2)
    (hn : r.start index ≠ r.nextAssembledIdx) :
    Merged r data index ((r.clipped data index).store (r.start index) (r.newData data index)) [] := by
  have hor := h.right_ordered index
  have hlen := newData_length h data index
  obtain ⟨hend, -, hord⟩ := trim_spec (e := index + data.length) hor
  have htot := (clipped_tidy h data index).total_le
  have hcov := trim_covers (e := index + data.length) hor
  have hi := index_le_start r index
  have hstop : stop r.nextAssembledIdx (r.left index) ≤ r.start index := le_max_right _ _
  rw [store_insert h hlt hn]
  refine ⟨Wrote.refl _, rfl, ?_, ?_, ?_, fun _ _ => List.nil_prefix, ?_, ?_, rfl, rfl⟩
  · refine ordered_append.mpr ⟨h.left_ordered index, hstop, ?_, ?_⟩
    · rw [ne_eq, ← List.length_eq_zero_iff]
      omega
    · rw [hlen, Nat.add_sub_cancel' hlt.le]
      exact hord
  · simp only [clipped, total_append, total_cons] at htot ⊢
    omega
  · intro p hp
    rcases List.mem_append.mp hp with hp | hp
    · exact Or.inl (mem_left hp).1
    · rcases List.mem_cons.mp hp with rfl | hp
      · exact Or.inr ⟨by simp only; omega, by simp only; omega, Or.inr rfl⟩
      · exact Or.inl (mem_right ((trim_suffix _ _).subset hp))
  · intro S hS hp' p hp
    rcases List.mem_append.mp hp with hp | hp
    · exact hp' p (mem_left hp).1
    · rcases List.mem_cons.mp hp with rfl | hp
      · exact newData_holds hS
      · exact hp' p (mem_right ((trim_suffix _ _).subset hp))
  · intro x _ hxe hx
    refine covers_append.mpr ?_
    rcases hx with hx | hx
    · refine Or.inr (covers_cons.mpr ?_)
      rcases lt_or_ge x (trim (index + data.length) (r.right index)).2 with h1 | h1
      · exact Or.inl ⟨hx, by rw [hlen]; omega⟩
      · exact Or.inr (hcov x hxe h1)
    · exact Or.inl hx

theorem merged_spec (h : Tidy r) (data : Bytes) (index : ℕ) : ∃ d, Merged r data index (r.merged data index) d := by
  unfold merged
  split
  · rename_i hlt
    by_cases hn : r.start index = r.nextAssembledIdx
    · exact merged_write h hlt hn
    · exact ⟨[], merged_insert h hlt hn⟩
  · rename_i hle
    exact ⟨[], merged_of_le h (not_lt.mp hle)⟩

end Merge

/-! ### The whole push -/

/-- What every push keeps, and what it writes (`d`). -/
structure Pushed (r : StreamReassembler) (data : Bytes) (index : ℕ) (eof : Bool) (r' : StreamReassembler)
    (d : Bytes) : Prop where
  wf : WF r'
  buffer : r'.output.buffer = r.output.buffer ++ d
  next : r'.nextAssembledIdx = r.nextAssembledIdx + d.length
  bytesRead : r'.output.bytesRead = r.output.bytesRead
  capacity : r'.output.capacity = r.output.capacity
  error : r'.output.error = r.output.error
  eofIdx : r'.eofIdx = r.eofIdx ∨ eof = true ∧ r'.eofIdx = index + data.length
  still_ended : r.output.inputEnded = true → r'.output.inputEnded = true
  ended : r'.output.inputEnded = true → r.output.inputEnded = true ∨ r'.eofIdx ≤ r'.nextAssembledIdx
  /-- no piece starts past the window -/
  keys : (∀ p ∈ r.unassembleStrs, p.1 ≤ r.output.bytesRead + r.output.capacity) →
    ∀ p ∈ r'.unassembleStrs, p.1 ≤ r.output.bytesRead + r.output.capacity
  /-- no piece is longer than the longest substring pushed -/
  lens : ∀ L, data.length ≤ L → (∀ p ∈ r.unassembleStrs, p.2.length ≤ L) → ∀ p ∈ r'.unassembleStrs, p.2.length ≤ L
  /-- what is written and what is stored is at its index -/
  holds : ∀ S, Holds S (index, data) → (∀ p ∈ r.unassembleStrs, Holds S p) →
    Holds S (r.nextAssembledIdx, d) ∧ ∀ p ∈ r'.unassembleStrs, Holds S p

theorem pushed_refl {r : StreamReassembler} (h : WF r) (data : Bytes) (index : ℕ) (eof : Bool) :
    Pushed r data index eof r [] where
  wf := h
  buffer := (List.append_nil _).symm
  next := rfl
  bytesRead := rfl
  capacity := rfl
  error := rfl
  eofIdx := Or.inl rfl
  still_ended := id
  ended := Or.inl
  keys := id
  lens := fun _ _ hl => hl
  holds := fun _ _ hS => ⟨List.nil_prefix, hS⟩

/-- A substring that starts past the window is not kept. -/
theorem pushed_clipped {r : StreamReassembler} (h : WF r) (data : Bytes) (index : ℕ) (eof : Bool) :
    Pushed r data index eof (r.clipped data index) [] where
  wf := ⟨clipped_tidy h.toTidy data index, h.eof_gt⟩
  buffer := (List.append_nil _).symm
  next := rfl
  bytesRead := rfl
  capacity := rfl
  error := rfl
  eofIdx := Or.inl rfl
  still_ended := id
  ended := Or.inl
  keys := fun hk p hp => hk p (mem_clipped hp)
  lens := fun _ _ hl p hp => hl p (mem_clipped hp)
  holds := fun _ _ hS => ⟨List.nil_prefix, fun p hp => hS p (mem_clipped hp)⟩

/-- The window ends where the reader leaves room for. -/
theorem firstUnacceptableIdx_le {r : StreamReassembler} (h : Tidy r) :
    r.firstUnacceptableIdx ≤ r.output.bytesRead + r.output.capacity := by
  have h1 := r.output.count
  have h2 := h.next_eq
  have h3 := h.cap_eq
  calc r.firstUnacceptableIdx ≤ r.nextAssembledIdx + r.capacity - r.output.buffer.length := Nat.mod_le _ _
    _ = r.output.bytesRead + r.output.capacity := by omega

theorem next_le_edge {r : StreamReassembler} (h : Tidy r) :
    r.nextAssembledIdx ≤ r.output.bytesRead + r.output.capacity := by
  have h1 := r.output.count
  have h2 := h.next_eq
  have h3 := r.output.fits
  omega

/-! What `finish` leaves alone, and what it does. -/

theorem finish_output (r : StreamReassembler) (e : ℕ) (eof : Bool) : (r.finish e eof).output =
    if (r.finish e eof).eofIdx ≤ r.nextAssembledIdx then r.output.endInput else r.output := rfl

theorem finish_eofIdx (r : StreamReassembler) (e : ℕ) (eof : Bool) :
    (r.finish e eof).eofIdx = if eof then e else r.eofIdx := rfl

/-- Ending the output changes its flag only. -/
theorem finish_frame (r : StreamReassembler) (e : ℕ) (eof : Bool) :
    (r.finish e eof).output.buffer = r.output.buffer ∧
      (r.finish e eof).output.bytesWritten = r.output.bytesWritten ∧
      (r.finish e eof).output.bytesRead = r.output.bytesRead ∧
      (r.finish e eof).output.capacity = r.output.capacity ∧
      (r.finish e eof).output.error = r.output.error := by
  rw [finish_output]
  split <;> exact ⟨rfl, rfl, rfl, rfl, rfl⟩

theorem finish_inputEnded (r : StreamReassembler) (e : ℕ) (eof : Bool) :
    (r.finish e eof).output.inputEnded = true ↔
      r.output.inputEnded = true ∨ (r.finish e eof).eofIdx ≤ r.nextAssembledIdx := by
  rw [finish_output]
  split
  · rename_i h
    exact ⟨fun _ => Or.inr h, fun _ => rfl⟩
  · rename_i h
    exact ⟨Or.inl, fun hc => hc.resolve_right h⟩

section Finish

variable {r m r' : StreamReassembler} {data : Bytes} {index : ℕ} {d₁ d₂ : Bytes}

/-- A piece after the assembly is of the store before, or of the substring. -/
theorem assembled_pieces (ha : Assembled m.unassembleStrs m r' d₂) :
    ∀ p ∈ r'.unassembleStrs, ∃ q : ℕ × Bytes, q ∈ m.unassembleStrs ∧ p.1 + p.2.length = q.1 + q.2.length ∧
      p.2.length ≤ q.2.length ∧ (p.1 = q.1 ∨ p.1 = r'.nextAssembledIdx) := by
  intro p hp
  obtain ⟨q, hq, w, rfl, hw, h0⟩ := ha.pieces p hp
  refine ⟨q, hq, ?_, ?_, ?_⟩
  · simp only [List.length_drop]; omega
  · simp only [List.length_drop]; omega
  · rcases h0 with rfl | h0
    · exact Or.inl rfl
    · exact Or.inr h0

theorem tidy_assembled (h : Tidy r) (hd : data.length < 2 ^ 63) (he : index + data.length < 2 ^ 64)
    (hm : Merged r data index m d₁) (ha : Assembled m.unassembleStrs m r' d₂) : Tidy r' := by
  have hends : ∀ q ∈ m.unassembleStrs, q.1 + q.2.length < 2 ^ 64 ∧ q.2.length < 2 ^ 63 := fun q hq => by
    rcases hm.pieces q hq with hq | ⟨h1, h2, -⟩
    · exact ⟨h.end_lt q hq, h.len_lt q hq⟩
    · omega
  refine ⟨ha.ordered, ?_, ?_, fun p hp => ?_, fun p hp => ?_, ha.total_le⟩
  · rw [ha.next, ha.wrote.bytesWritten, hm.next, hm.wrote.bytesWritten, h.next_eq]
  · rw [ha.capacity, ha.wrote.capacity, hm.capacity, hm.wrote.capacity, h.cap_eq]
  · obtain ⟨q, hq, h1, -, -⟩ := assembled_pieces ha p hp
    rw [h1]
    exact (hends q hq).1
  · obtain ⟨q, hq, -, h2, -⟩ := assembled_pieces ha p hp
    exact h2.trans_lt (hends q hq).2

theorem pushed_finish (h : WF r) (hd : data.length < 2 ^ 63) (he : index + data.length < 2 ^ 64)
    (hw : r.start index < r.firstUnacceptableIdx) (hm : Merged r data index m d₁)
    (ha : Assembled m.unassembleStrs m r' d₂) (eof : Bool) :
    Pushed r data index eof (r'.finish (index + data.length) eof) (d₁ ++ d₂) := by
  have ht := tidy_assembled h.toTidy hd he hm ha
  have hwr := hm.wrote.trans ha.wrote
  have hnext : r'.nextAssembledIdx = r.nextAssembledIdx + (d₁ ++ d₂).length := by
    rw [ha.next, hm.next, List.length_append, Nat.add_assoc]
  obtain ⟨f1, f2, f3, f4, f5⟩ := finish_frame r' (index + data.length) eof
  have f6 := finish_inputEnded r' (index + data.length) eof
  have htf : Tidy (r'.finish (index + data.length) eof) :=
    ⟨ht.ordered, ht.next_eq.trans f2.symm, ht.cap_eq.trans f4.symm, ht.end_lt, ht.len_lt, ht.total_le⟩
  refine ⟨⟨htf, fun hc => ?_⟩, f1.trans hwr.buffer, hnext, f3.trans hwr.bytesRead, f4.trans hwr.capacity,
    f5.trans hwr.error, ?_, fun hc => ?_, fun hc => ?_, ?_, ?_, ?_⟩
  · by_contra hle
    exact Bool.false_ne_true (hc.symm.trans (f6.mpr (Or.inr (not_lt.mp hle))))
  · rw [finish_eofIdx]
    by_cases heof : eof = true
    · exact Or.inr ⟨heof, if_pos heof⟩
    · exact Or.inl (by rw [if_neg heof, ha.eof, hm.eof])
  · exact f6.mpr (Or.inl (hwr.inputEnded.trans hc))
  · exact (f6.mp hc).imp_left hwr.inputEnded.symm.trans
  · intro hk p hp
    have h1 := firstUnacceptableIdx_le h.toTidy
    have h2 := next_le_edge ht
    rw [hwr.bytesRead, hwr.capacity] at h2
    have h3 : m.nextAssembledIdx ≤ r'.nextAssembledIdx := by rw [ha.next]; exact Nat.le_add_right _ _
    obtain ⟨q, hq, -, -, hpq | hpq⟩ := assembled_pieces ha p hp
    · rcases hm.pieces q hq with hq | ⟨-, -, h4⟩
      · have := hk q hq
        omega
      · omega
    · omega
  · intro L hL hl p hp
    obtain ⟨q, hq, -, h1, -⟩ := assembled_pieces ha p hp
    rcases hm.pieces q hq with hq | ⟨-, h2, -⟩
    · exact h1.trans (hl q hq)
    · calc p.2.length ≤ q.2.length := h1
        _ ≤ data.length := h2
        _ ≤ L := hL
  · intro S hS hp
    have hp' := hm.holds_pieces S hS hp
    have hd₂ := ha.holds S hp'
    rw [hm.next] at hd₂
    refine ⟨(hm.holds S hS).append hd₂, fun p hpm => ?_⟩
    obtain ⟨q, hq, w, rfl, -, -⟩ := ha.pieces p hpm
    exact (hp' q hq).drop w

end Finish

/-- A push whose sums do not wrap returns, and does what `Pushed` says. -/
theorem push_exact {r : StreamReassembler} (h : WF r) {data : Bytes} {index : ℕ}
    (hs : r.start index ≤ index + data.length + 2 ^ 63) (hd : data.length < 2 ^ 63)
    (he : index + data.length < 2 ^ 64) (eof : Bool) :
    ∃ r' d, r.pushSubstring data index eof = some r' ∧ Pushed r data index eof r' d ∧
      (r.firstUnacceptableIdx ≤ r.start index → d = []) := by
  rw [pushSubstring_exact h.toTidy hs hd he]
  by_cases hw : r.firstUnacceptableIdx ≤ r.start index
  · rw [if_pos hw]
    exact ⟨_, [], rfl, pushed_clipped h data index eof, fun _ => rfl⟩
  · rw [if_neg hw]
    obtain ⟨d₁, hm⟩ := merged_spec h.toTidy data index
    obtain ⟨r', d₂, hr', ha⟩ := assemble_spec hm.ordered hm.total_le
    rw [hr']
    exact ⟨_, d₁ ++ d₂, rfl, pushed_finish h hd he (not_le.mp hw) hm ha eof, fun hc => absurd hc hw⟩

/-- **A push in range returns**, and does what `Pushed` says. -/
theorem push_spec {r : StreamReassembler} (h : WF r) {data : Bytes} {index : ℕ} (hi : index < 2 ^ 64)
    (hok : PushOk r data index) (eof : Bool) :
    ∃ r' d, r.pushSubstring data index eof = some r' ∧ Pushed r data index eof r' d := by
  obtain ⟨hd, hn, hr⟩ := hok
  by_cases he : index + data.length < 2 ^ 64
  · have hs := start_sub_le h.toTidy hn index
    obtain ⟨r', d, hr', hp, -⟩ := push_exact h (by omega) hd he eof
    exact ⟨r', d, hr', hp⟩
  · rw [pushSubstring_far h.toTidy hn hd hi (not_lt.mp he) (hr.resolve_left he)]
    exact ⟨r, [], rfl, pushed_refl h data index eof⟩

end StreamReassembler
end Sponge
