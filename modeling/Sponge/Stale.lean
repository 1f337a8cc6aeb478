/-
# Segments outside the window

A segment whose whole range lies before the acknowledgment number, or from
the end of the window on, should change nothing the receiver shows. After the
window that holds. Before it, a push still runs the assembly loop and the
end-of-stream bookkeeping; `Inert` is the condition under which neither, nor
the clipping, changes anything.

Key definitions: `StreamReassembler.Inert`, `TCPReceiver.Outside`,
`TCPReceiver.SameAs`.
Key theorems: `StreamReassembler.stale_push_iff`, `TCPReceiver.stale_iff`.
-/
import Sponge.TCPReceiver

namespace Sponge
namespace StreamReassembler

open Pieces ByteStream

/-- What a caller sees of a reassembler did not change. -/
def Unmoved (r r' : StreamReassembler) : Prop :=
  r'.output.buffer = r.output.buffer ∧ r'.output.bytesWritten = r.output.bytesWritten ∧
    r'.output.inputEnded = r.output.inputEnded ∧ r'.unassembledBytesNum = r.unassembledBytesNum

/-- A stored piece starts where the output stops. -/
def Ready (r : StreamReassembler) : Prop := ∃ p ∈ r.unassembleStrs, p.1 = r.output.bytesWritten

/-- Whether `n` bytes at the index, before the first byte missing, leave the
reassembler as it is. Before the end of the stream: the output is full, or
they bring no end and the assembly has nothing to write. After it: they do not
reach into the slot of the FIN, where they are counted as stored. -/
def Inert (r : StreamReassembler) (index n : ℕ) (fin : Bool) : Prop :=
  r.edge ≤ index ∨
    if r.output.inputEnded then
      ¬ (fin = false ∧ index + n = r.output.bytesWritten + 1 ∧
        (r.output.bytesWritten < r.edge ∧ ¬ r.Ready ∨
          index < r.output.bytesWritten ∧ r.output.bytesWritten = r.edge ∧
            ∃ x, (r.output.bytesWritten, [x]) ∈ r.unassembleStrs))
    else r.output.bytesWritten = r.edge ∨ (fin = false ∧ (r.output.error = true ∨ ¬ r.Ready))

/-! ### Nothing new -/

section

variable {r r' : StreamReassembler} {data : Bytes} {index : ℕ}

/-- A substring that ends before its new start is clipped away. -/
theorem nothing_new (h : Tidy r) (hle : index + data.length ≤ r.start index) :
    r.clipped data index = r ∧ r.merged data index = r := by
  have ht := trim_of_le hle (h.right_ordered index)
  have hc : r.clipped data index = r := by
    unfold clipped
    simp only [ht, left_append_right, Nat.sub_self, Nat.sub_zero]
  refine ⟨hc, ?_⟩
  unfold merged
  rw [ht, if_neg (not_lt.mpr hle), hc]

/-- Where the output stops, no piece stands before the index. -/
theorem start_of_lt (h : Tidy r) (hi : index < r.nextAssembledIdx) :
    r.start index = r.nextAssembledIdx ∧ r.left index = [] := by
  rcases left_cases h hi.le with h1 | ⟨rfl, -⟩
  · exact h1
  · exact absurd hi (lt_irrefl _)

/-- The run from `n` goes on iff a piece starts there. -/
theorem reach_eq_self_iff {n : ℕ} : ∀ {m : Store UInt8}, Ordered n m → (reach n m = n ↔ ∀ p ∈ m, p.1 ≠ n)
  | [], _ => by simp [reach]
  | (k, b) :: m, ⟨h1, h2, h3⟩ => by
    have hb := List.length_pos_of_ne_nil h2
    by_cases hk : k = n
    · subst hk
      rw [reach_cons_self]
      refine ⟨fun h => ?_, fun h => absurd rfl (h _ List.mem_cons_self)⟩
      have := le_reach_self (k + b.length) m
      omega
    · rw [reach_cons_ne hk]
      refine ⟨fun _ p hp => ?_, fun _ => rfl⟩
      rcases List.mem_cons.mp hp with rfl | hp
      · exact hk
      · have := h3.le_key p hp
        omega

/-- The assembly writes nothing iff the output takes nothing, or no piece
stands where it stops. -/
theorem assembled_nil_iff (h : Tidy r) {d : Bytes} (ha : Assembled r.unassembleStrs r r' d) :
    d = [] ↔ r.output.room = 0 ∨ ¬ r.Ready := by
  have hready : r.Ready ↔ ¬ reach r.nextAssembledIdx r.unassembleStrs = r.nextAssembledIdx := by
    rw [reach_eq_self_iff h.ordered, Ready, ← h.next_eq]
    push Not
    rfl
  have hs := ha.stops
  have hn := ha.next
  have hle := le_reach_self r.nextAssembledIdx r.unassembleStrs
  rw [hready, ← List.length_eq_zero_iff]
  omega

/-- A push from the end of the window on is refused. -/
theorem far_push {capacity l : ℕ} (h : Held capacity l r) (he : r.edge ≤ 2 ^ 63) (hd : data.length < 2 ^ 63)
    (hi : index < 2 ^ 64) (hfar : r.edge ≤ index) (fin : Bool) :
    ∃ r', r.pushSubstring data index fin = some r' ∧ Unmoved r r' := by
  have hn := next_le_edge' h.toTidy
  have hfu := firstUnacceptableIdx_eq h.toTidy (by omega)
  by_cases hw : index + data.length < 2 ^ 64
  · have hs := hfar.trans (index_le_start r index)
    rw [pushSubstring_eq h.toTidy (by omega) hd hw, hfu, if_pos hs]
    refine ⟨_, rfl, rfl, rfl, rfl, ?_⟩
    have hr : r.right index = [] := by
      by_contra hc
      obtain ⟨p, hp⟩ := List.exists_mem_of_ne_nil _ hc
      have h1 := h.keys p (mem_right hp)
      have h2 := h.ordered.lt_dropWhile index p hp
      omega
    simp only [clipped, hr, trim, Nat.sub_self, Nat.sub_zero]
  · rw [pushSubstring_far h.toTidy (by omega) hd hi (not_lt.mp hw) (hfu.trans_le hfar)]
    exact ⟨r, rfl, rfl, rfl, rfl, rfl⟩

/-! ### Before the end -/

/-- A push before the output, not ended yet: it assembles what is stored, and
it may end the stream. -/
theorem stale_open (h : WF r) (he : r.edge ≤ 2 ^ 63) (hd : data.length < 2 ^ 63)
    (hend : r.output.inputEnded = false) {fin : Bool} (hlt : index < r.output.bytesWritten)
    (hle : index + data.length + (if fin then 1 else 0) ≤ r.output.bytesWritten) :
    ∃ r', r.pushSubstring data index fin = some r' ∧ (Unmoved r r' ↔
      r.output.bytesWritten = r.edge ∨ (fin = false ∧ (r.output.error = true ∨ ¬ r.Ready))) := by
  have hn := h.next_eq
  have hedge := next_le_edge' h.toTidy
  obtain ⟨hstart, -⟩ := start_of_lt h.toTidy (hn ▸ hlt)
  have hle' : index + data.length ≤ r.start index := by omega
  obtain ⟨hc, hm⟩ := nothing_new h.toTidy hle'
  rw [pushSubstring_eq h.toTidy (by omega) hd (by omega), firstUnacceptableIdx_eq h.toTidy (by omega), hstart, hc, hm]
  by_cases hw : r.edge ≤ r.nextAssembledIdx
  · rw [if_pos hw]
    exact ⟨r, rfl, fun _ => Or.inl (by omega), fun _ => ⟨rfl, rfl, rfl, rfl⟩⟩
  · rw [if_neg hw]
    obtain ⟨r', d, hr', ha⟩ := assemble_spec h.ordered h.total_le
    rw [hr']
    refine ⟨r'.finish (index + data.length) fin, rfl, ?_⟩
    obtain ⟨f1, f2, -, -, -⟩ := finish_frame r' (index + data.length) fin
    have f3 := finish_inputEnded r' (index + data.length) fin
    rw [finish_eofIdx, ha.eof, ha.wrote.inputEnded, hend] at f3
    have hbw := ha.wrote.bytesWritten
    have hnum : (r'.finish (index + data.length) fin).unassembledBytesNum + d.length = r.unassembledBytesNum := ha.num
    have hnext := ha.next
    have hgt := h.eof_gt hend
    have hnil := assembled_nil_iff h.toTidy ha
    constructor
    · rintro ⟨h1, h2, h3, h4⟩
      have hdn : d = [] := List.length_eq_zero_iff.mp (by omega)
      have hfin : fin = false := by
        by_contra hf
        rw [Bool.not_eq_false] at hf
        subst hf
        rw [h3, hend] at f3
        simp only [↓reduceIte] at f3 hle
        exact Bool.false_ne_true (f3.mpr (Or.inr (by omega)))
      refine Or.inr ⟨hfin, ?_⟩
      rcases hnil.mp hdn with h5 | h5
      · by_contra hc
        simp only [not_or, Bool.not_eq_true] at hc
        have := room_eq h.toTidy ⟨hc.1, hend⟩
        omega
      · exact Or.inr h5
    · rintro (hfull | ⟨rfl, hq⟩)
      · omega
      · have hdn : d = [] := by
          rw [hnil]
          exact hq.imp_left fun herr => room_of_not_open fun ho => Bool.false_ne_true (ho.1.symm.trans herr)
        subst hdn
        simp only [Bool.false_eq_true, ↓reduceIte, false_or] at f3
        refine ⟨f1.trans (by rw [ha.wrote.buffer, List.append_nil]), f2.trans hbw, ?_, hnum⟩
        rw [hend, ← Bool.not_eq_true, f3]
        simp only [List.length_nil] at hnext
        omega

/-! ### After the end -/

/-- Bytes that a closed output does not take are counted as stored. -/
theorem store_num_of_not_open (ho : ¬ r.output.Open) (n : ℕ) (d : Bytes) :
    (r.store n d).unassembledBytesNum = r.unassembledBytesNum + d.length := by
  unfold store
  simp only [write_of_not_open ho]
  by_cases hn : n = r.nextAssembledIdx
  · rw [if_pos hn]
    cases d <;> simp
  · rw [if_neg hn]

/-- The counter after the clipping and, if the push gets that far, the merge. -/
def countAfter (r : StreamReassembler) (data : Bytes) (index : ℕ) : ℕ :=
  if r.edge ≤ r.start index then (r.clipped data index).unassembledBytesNum
  else (r.merged data index).unassembledBytesNum

/-- A push to an ended stream shows in the counter only. -/
theorem push_ended (h : WF r) (he : r.edge ≤ 2 ^ 63) (hd : data.length < 2 ^ 63) (hi : index + data.length < 2 ^ 64)
    (hend : r.output.inputEnded = true) (fin : Bool) : ∃ r', r.pushSubstring data index fin = some r' ∧
      (Unmoved r r' ↔ r.countAfter data index = r.unassembledBytesNum) := by
  have hn := next_le_edge' h.toTidy
  have hroom : r.output.room = 0 := room_of_not_open fun ho => Bool.false_ne_true (ho.2.symm.trans hend)
  rw [pushSubstring_eq h.toTidy (by omega) hd hi, firstUnacceptableIdx_eq h.toTidy (by omega)]
  unfold countAfter
  by_cases hw : r.edge ≤ r.start index
  · rw [if_pos hw, if_pos hw]
    exact ⟨_, rfl, fun hu => hu.2.2.2, fun hc => ⟨rfl, rfl, rfl, hc⟩⟩
  · rw [if_neg hw, if_neg hw]
    obtain ⟨d₁, hm⟩ := merged_spec h.toTidy data index
    obtain ⟨r', d₂, hr', ha⟩ := assemble_spec hm.ordered hm.total_le
    have hroom₁ := hm.wrote.room
    have hroom₂ := ha.wrote.room
    have hd₁ : d₁ = [] := List.length_eq_zero_iff.mp (by omega)
    have hd₂ : d₂ = [] := List.length_eq_zero_iff.mp (by omega)
    subst hd₁ hd₂
    obtain ⟨f1, f2, -, -, -⟩ := finish_frame r' (index + data.length) fin
    have hwr := hm.wrote.trans ha.wrote
    have f3 := (finish_inputEnded r' (index + data.length) fin).mpr (Or.inl (hwr.inputEnded.trans hend))
    have hnum : (r'.finish (index + data.length) fin).unassembledBytesNum = _ := ha.num
    rw [hr']
    refine ⟨r'.finish (index + data.length) fin, rfl, fun hu => hnum.symm.trans hu.2.2.2, fun hc => ?_⟩
    have hbuffer : (r'.finish (index + data.length) fin).output.buffer = r.output.buffer := calc
      _ = r'.output.buffer := f1
      _ = r.output.buffer ++ ([] ++ []) := hwr.buffer
      _ = r.output.buffer := List.append_nil _
    exact ⟨hbuffer, f2.trans hwr.bytesWritten, f3.trans hend.symm,
      hnum.trans hc⟩

/-- Nothing new leaves the counter as it is. -/
theorem countAfter_of_le (h : Tidy r) (hle : index + data.length ≤ r.start index) :
    r.countAfter data index = r.unassembledBytesNum := by
  obtain ⟨h1, h2⟩ := nothing_new h hle
  unfold countAfter
  rw [h1, h2, ite_self]

/-- The counter when the new bytes start where a closed output stops. -/
theorem countAfter_of_start (h : Tidy r) (ho : ¬ r.output.Open) (hs : r.start index = r.nextAssembledIdx) :
    r.countAfter data index =
      r.unassembledBytesNum - (total (r.right index) - total (trim (index + data.length) (r.right index)).1) +
        if r.edge ≤ r.nextAssembledIdx then 0
        else (trim (index + data.length) (r.right index)).2 - r.nextAssembledIdx := by
  unfold countAfter
  rw [hs]
  by_cases hw : r.edge ≤ r.nextAssembledIdx
  · rw [if_pos hw, if_pos hw]
    rfl
  · rw [if_neg hw, if_neg hw]
    unfold merged
    by_cases hlt : r.start index < (trim (index + data.length) (r.right index)).2
    · have hstore := store_num_of_not_open (r := r.clipped data index) ho (r.start index) (r.newData data index)
      rw [if_pos hlt, hstore, newData_length h, hs]
      rfl
    · have h0 : (trim (index + data.length) (r.right index)).2 - r.nextAssembledIdx = 0 := by omega
      rw [if_neg hlt, h0]
      rfl

/-- One byte past the end, with no piece there, is counted unless the output
is full. -/
theorem countAfter_gap (h : Tidy r) (ho : ¬ r.output.Open) (hi : index ≤ r.nextAssembledIdx)
    (he : index + data.length = r.nextAssembledIdx + 1) (hgap : ¬ r.Ready) :
    r.countAfter data index = r.unassembledBytesNum ↔ ¬ r.nextAssembledIdx < r.edge := by
  have hs : r.start index = r.nextAssembledIdx := by
    rcases left_cases h hi with ⟨h1, -⟩ | ⟨rfl, b, h1, -⟩
    · exact h1
    · have := (mem_left (h1.symm ▸ List.mem_singleton_self (r.nextAssembledIdx, b))).1
      exact absurd ⟨_, this, h.next_eq⟩ hgap
  have hor : Ordered (index + data.length) (r.right index) := by
    have h1 := h.right_ordered index
    have h2 : ∀ p ∈ r.right index, index + data.length ≤ p.1 := fun p hp => by
      have h3 := h1.le_key p hp
      have h4 : p.1 ≠ r.output.bytesWritten := fun hc => hgap ⟨p, mem_right hp, hc⟩
      have h5 := h.next_eq
      omega
    cases hr : r.right index with
    | nil => trivial
    | cons p m =>
      rw [hr] at h1 h2
      exact ⟨h2 p List.mem_cons_self, h1.2⟩
  rw [countAfter_of_start h ho hs, trim_of_le le_rfl hor]
  simp only
  split_ifs <;> omega

/-- One byte past the end, onto the stored piece there: a piece of one byte is
clipped and, unless the output is full, counted anew. -/
theorem countAfter_ready (h : Tidy r) (ho : ¬ r.output.Open) (hi : index < r.nextAssembledIdx)
    (he : index + data.length = r.nextAssembledIdx + 1) {b : Bytes} (hb : (r.nextAssembledIdx, b) ∈ r.unassembleStrs) :
    r.countAfter data index = r.unassembledBytesNum ↔ ¬ (r.edge ≤ r.nextAssembledIdx ∧ b.length = 1) := by
  obtain ⟨hs, hl⟩ := start_of_lt h hi
  have hright : r.right index = r.unassembleStrs := by rw [← left_append_right r index, hl, List.nil_append]
  have hor := h.ordered
  have htot := h.total_le
  rw [countAfter_of_start h ho hs, hright, he]
  cases hm : r.unassembleStrs with
  | nil => rw [hm] at hb; cases hb
  | cons p m =>
    obtain ⟨k, b'⟩ := p
    rw [hm] at hb hor htot
    obtain ⟨h1, h2, h3⟩ := hor
    have hpos := List.length_pos_of_ne_nil h2
    obtain ⟨rfl, rfl⟩ : k = r.nextAssembledIdx ∧ b' = b := by
      rcases List.mem_cons.mp hb with h4 | h4
      · exact ⟨(Prod.mk.inj h4).1.symm, (Prod.mk.inj h4).2.symm⟩
      · have := h3.le_key _ h4
        simp only at this
        omega
    rw [total_cons] at htot ⊢
    unfold trim
    rw [if_pos (by omega)]
    by_cases hone : b'.length = 1
    · rw [if_neg (by omega), trim_of_le (n := r.nextAssembledIdx + b'.length) (by omega) h3]
      simp only [hone, and_true]
      split_ifs <;> omega
    · rw [if_pos (by omega)]
      simp only [hone, and_false, not_false_eq_true, iff_true, Nat.sub_self, total_cons]
      simp

/-- When the counter of an ended stream stays. -/
theorem countAfter_iff (h : Tidy r) (ho : ¬ r.output.Open) {fin : Bool}
    (hpos : 0 < data.length + if fin then 1 else 0)
    (hle : index + data.length + (if fin then 1 else 0) ≤ r.output.bytesWritten + 1) :
    r.countAfter data index = r.unassembledBytesNum ↔
      ¬ (fin = false ∧ index + data.length = r.output.bytesWritten + 1 ∧
        (r.output.bytesWritten < r.edge ∧ ¬ r.Ready ∨
          index < r.output.bytesWritten ∧ r.output.bytesWritten = r.edge ∧
            ∃ x, (r.output.bytesWritten, [x]) ∈ r.unassembleStrs)) := by
  have hn := h.next_eq
  have hedge := next_le_edge' h
  by_cases hslot : index + data.length = r.output.bytesWritten + 1
  · have hfin : fin = false := by
      by_contra hf
      rw [Bool.not_eq_false] at hf
      simp only [hf, ↓reduceIte] at hle
      omega
    subst hfin
    simp only [Bool.false_eq_true, ↓reduceIte, add_zero] at hpos
    simp only [hslot, true_and]
    by_cases hready : r.Ready
    · obtain ⟨p, hp, hpk⟩ := hready
      obtain ⟨k, b⟩ := p
      simp only at hpk
      subst hpk
      have hr : r.Ready := ⟨_, hp, rfl⟩
      simp only [hr, not_true_eq_false, and_false, false_or]
      rcases Nat.lt_or_ge index r.output.bytesWritten with hlt | hge
      · rw [countAfter_ready h ho (hn ▸ hlt) (hn ▸ hslot) (hn ▸ hp), hn]
        refine not_congr ⟨fun ⟨h1, h2⟩ => ⟨hlt, by omega, ?_⟩, fun ⟨_, h1, x, hx⟩ => ⟨h1.ge, ?_⟩⟩
        · obtain ⟨x, rfl⟩ := List.length_eq_one_iff.mp h2
          exact ⟨x, hp⟩
        · have h2 := h.ordered.unique hp hx rfl
          rw [h2, List.length_singleton]
      · have hstart : index + data.length ≤ r.start index := by
          rcases left_cases h (show index ≤ r.nextAssembledIdx by omega) with ⟨-, h1⟩ | ⟨h1, b', h5, h2⟩
          · have h2 : (index, b) ∈ r.left index := by
              have h3 := (left_append_right r index).symm ▸ hp
              obtain rfl : index = r.output.bytesWritten := by omega
              refine (List.mem_append.mp h3).resolve_right fun h4 => ?_
              exact absurd (h.ordered.lt_dropWhile _ _ h4) (lt_irrefl _)
            rw [h1] at h2
            cases h2
          · have h3 := h.left_ordered index
            rw [h5] at h3
            have h4 := List.length_pos_of_ne_nil h3.2.1
            omega
        exact iff_of_true (countAfter_of_le h hstart) fun hc => absurd hc.1 (not_lt.mpr hge)
    · have hno : ¬ ∃ x, (r.output.bytesWritten, [x]) ∈ r.unassembleStrs := fun ⟨x, hx⟩ => hready ⟨_, hx, rfl⟩
      rw [countAfter_gap h ho (by omega) (hn ▸ hslot) hready, hn]
      simp only [hready, hno, not_false_eq_true, and_true, and_false, or_false]
  · have hstart : index + data.length ≤ r.start index := by
      have := next_le_start h index
      omega
    exact iff_of_true (countAfter_of_le h hstart) fun hc => hslot hc.2.1

end

/-- **A push outside the window** returns, and changes nothing a caller sees
iff it is `Inert`. -/
theorem stale_push_iff {capacity l : ℕ} {r : StreamReassembler} (h : Held capacity l r) (he : r.edge ≤ 2 ^ 63)
    {data : Bytes} {index : ℕ} {fin : Bool} (hd : data.length < 2 ^ 63) (hi : index < 2 ^ 64)
    (hpos : 0 < data.length + if fin then 1 else 0)
    (hout : r.edge ≤ index ∨ index + data.length + (if fin then 1 else 0) ≤
      r.output.bytesWritten + if r.output.inputEnded then 1 else 0) :
    ∃ r', r.pushSubstring data index fin = some r' ∧ (Unmoved r r' ↔ Inert r index data.length fin) := by
  have hn := h.next_eq
  have hedge := next_le_edge' h.toTidy
  unfold Inert
  by_cases hfar : r.edge ≤ index
  · obtain ⟨r', hr', hu⟩ := far_push h he hd hi hfar fin
    exact ⟨r', hr', fun _ => Or.inl hfar, fun _ => hu⟩
  · replace hout := hout.resolve_left hfar
    simp only [hfar, false_or]
    cases hend : r.output.inputEnded with
    | false =>
      simp only [hend, Bool.false_eq_true, ↓reduceIte] at hout ⊢
      exact stale_open h.toWF he hd hend (by omega) hout
    | true =>
      simp only [hend, ↓reduceIte] at hout ⊢
      obtain ⟨r', hr', hu⟩ := push_ended h.toWF he hd (show index + data.length < 2 ^ 64 by omega) hend fin
      refine ⟨r', hr', hu.trans ?_⟩
      exact countAfter_iff h.toTidy (fun ho => Bool.false_ne_true (ho.2.symm.trans hend)) hpos hout

end StreamReassembler

namespace TCPReceiver

open StreamReassembler Pieces

/-- What a receiver shows did not change: the acknowledgment number, the
window, the unassembled bytes, the output, and whether it is ended. -/
def SameAs (rcv rcv' : TCPReceiver) : Prop :=
  rcv'.ackno = rcv.ackno ∧ rcv'.windowSize = rcv.windowSize ∧ rcv'.unassembledBytes = rcv.unassembledBytes ∧
    rcv'.streamOut.buffer = rcv.streamOut.buffer ∧ rcv'.streamOut.inputEnded = rcv.streamOut.inputEnded

/-- The absolute number a segment is taken to start at. -/
def absSeqno (rcv : TCPReceiver) (seg : TCPSegment) : ℕ :=
  unwrap seg.header.seqno rcv.isn (rcv.streamOut.bytesWritten + 1)

theorem absSeqno_of_near {rcv : TCPReceiver} {seg : TCPSegment} {k : ℕ} (h : seg.header.seqno = wrap k rcv.isn)
    (h1 : k < rcv.streamOut.bytesWritten + 1 + 2 ^ 31) (h2 : rcv.streamOut.bytesWritten + 1 < k + 2 ^ 31)
    (h3 : k < 2 ^ 64) : rcv.absSeqno seg = k := by
  unfold absSeqno
  rw [h]
  exact unwrap_wrap _ h1 h2 (Or.inr h3)

/-- The whole range of the segment lies before the acknowledgment number, or
from the end of the window on. -/
def Outside (rcv : TCPReceiver) (seg : TCPSegment) : Prop :=
  rcv.absSeqno seg + seg.lengthInSequenceSpace ≤ rcv.absAck ∨ rcv.absAck + rcv.windowSize ≤ rcv.absSeqno seg

instance (rcv : TCPReceiver) (seg : TCPSegment) : Decidable (rcv.Outside seg) :=
  inferInstanceAs (Decidable (_ ∨ _))

instance (rcv rcv' : TCPReceiver) : Decidable (rcv.SameAs rcv') :=
  inferInstanceAs (Decidable (_ ∧ _))

/-- The segment's bytes are `Inert` for the reassembler. -/
def Inert (rcv : TCPReceiver) (seg : TCPSegment) : Prop :=
  rcv.reassembler.Inert (rcv.streamIndex seg) seg.payload.length seg.header.fin

/-- A push changes what the receiver shows iff it moves the reassembler. -/
theorem sameAs_iff {rcv : TCPReceiver} {r' : StreamReassembler} {data : Bytes} {index : ℕ} {eof : Bool}
    (h : WF rcv.reassembler) (he : rcv.reassembler.edge ≤ 2 ^ 63) (hd : data.length < 2 ^ 63) (hi : index < 2 ^ 64)
    (hr : rcv.reassembler.pushSubstring data index eof = some r') :
    rcv.SameAs { rcv with reassembler := r' } ↔ Unmoved rcv.reassembler r' := by
  obtain ⟨r₁, d, hr₁, hp⟩ := push_spec h hi (pushOk_of_edge h.toTidy he hd) eof
  obtain rfl : r' = r₁ := Option.some.inj (hr.symm.trans hr₁)
  have hread := hp.bytesRead
  have hc := r'.output.count
  have hc' := rcv.reassembler.output.count
  constructor
  · rintro ⟨-, -, h3, h4, h5⟩
    simp only [streamOut, unassembledBytes, StreamReassembler.unassembledBytes] at h3 h4 h5
    refine ⟨h4, ?_, h5, h3⟩
    rw [hc, hc', h4, hread]
  · rintro ⟨h1, h2, h3, h4⟩
    refine ⟨?_, ?_, h4, h1, h3⟩
    · unfold ackno
      rw [absAck_eq, absAck_eq]
      unfold streamOut
      rw [h2, h3]
    · simp only [windowSize, streamOut, h1]

/-- The index of a segment without SYN. -/
theorem streamIndex_eq (rcv : TCPReceiver) {seg : TCPSegment} (hs : seg.header.syn = false)
    (hb : rcv.streamOut.bytesWritten < 2 ^ 63) : rcv.absSeqno seg = 0 ∧ rcv.streamIndex seg = 2 ^ 64 - 1 ∨
      rcv.absSeqno seg = rcv.streamIndex seg + 1 := by
  have hlt := unwrap_lt seg.header.seqno rcv.isn (show rcv.streamOut.bytesWritten + 1 < 2 ^ 64 by omega)
  change rcv.absSeqno seg < _ at hlt
  have hi : rcv.streamIndex seg = (rcv.absSeqno seg + 2 ^ 64 - 1) % 2 ^ 64 := by
    simp only [streamIndex, absSeqno, hs, Bool.false_eq_true, ↓reduceIte, add_zero]
  omega

/-- **A segment outside the window**, after the SYN and in any state a run
reaches, changes nothing iff it is `Inert`. -/
theorem stale_iff {capacity : ℕ} {ops : List Op} (hops : ∀ op ∈ ops, Sized op) {rcv : TCPReceiver}
    (hr : Runs.run step (init capacity) ops = some rcv) (he : rcv.reassembler.edge < 2 ^ 63)
    (hsyn : rcv.synReceived = true) {seg : TCPSegment} (hs : seg.header.syn = false)
    (hd : seg.payload.length < 2 ^ 63) (hpos : 0 < seg.lengthInSequenceSpace) (hout : rcv.Outside seg) :
    ∃ rcv', rcv.segmentReceived seg = some rcv' ∧ (rcv.SameAs rcv' ↔ rcv.Inert seg) := by
  have h := run_held hops hr he.le
  have hwf := h.held.toWF
  have hedge := next_le_edge' hwf.toTidy
  have hn := hwf.next_eq
  have hbw : rcv.streamOut.bytesWritten = rcv.reassembler.output.bytesWritten := rfl
  have hidx := streamIndex_eq rcv hs (by omega)
  have hlen : seg.lengthInSequenceSpace = seg.payload.length + if seg.header.fin then 1 else 0 := by
    simp [TCPSegment.lengthInSequenceSpace, hs]
  rw [hlen] at hpos
  have hout' : rcv.reassembler.edge ≤ rcv.streamIndex seg ∨
      rcv.streamIndex seg + seg.payload.length + (if seg.header.fin then 1 else 0) ≤
        rcv.reassembler.output.bytesWritten + if rcv.reassembler.output.inputEnded then 1 else 0 := by
    rcases hidx with ⟨-, h2⟩ | h2
    · exact Or.inl (by omega)
    · have hack : rcv.absAck = rcv.reassembler.output.bytesWritten + 1 +
          if rcv.reassembler.output.inputEnded then 1 else 0 := absAck_eq rcv
      rcases hout with h3 | h3
      · rw [hlen] at h3
        exact Or.inr (by omega)
      · have hwin : rcv.windowSize = rcv.reassembler.output.capacity - rcv.reassembler.output.buffer.length := by
          simp only [windowSize, streamOut, h.cap, h.held.cap]
        have hcount := rcv.reassembler.output.count
        have hfits := rcv.reassembler.output.fits
        refine Or.inl ?_
        unfold edge
        omega
  obtain ⟨r', hr', hu⟩ := stale_push_iff h.held he.le hd (streamIndex_lt rcv seg) hpos hout'
  refine ⟨{ rcv with reassembler := r' }, ?_, ?_⟩
  · rw [segmentReceived_eq hsyn hs, push, hr', Option.map_some]
  · exact (sameAs_iff hwf he.le hd (streamIndex_lt rcv seg) hr').trans hu

/-- A SYN, then "ab". -/
def abOps : List Op :=
  [.segment { header := { syn := true } }, .segment { header := { seqno := ⟨1⟩ }, payload := [97, 98] }]

/-- The receiver after them. -/
def afterAb : TCPReceiver where
  reassembler :=
    { StreamReassembler.init 4 with
      nextAssembledIdx := 2
      output := { ByteStream.init 4 with
        bytesWritten := 2, buffer := [97, 98], fits := by decide, count := by decide } }
  capacity := 4
  synReceived := true
  isn := ⟨0⟩

/-- A FIN on the first byte, which has been received. -/
def staleFin : TCPSegment := { header := { seqno := ⟨1⟩, fin := true } }

/-- It ends the stream, though it lies before the acknowledgment number. -/
theorem staleFin_ends : Runs.run step (init 4) abOps = some afterAb ∧ afterAb.synReceived = true ∧
    staleFin.header.syn = false ∧ 0 < staleFin.lengthInSequenceSpace ∧
    afterAb.absSeqno staleFin + staleFin.lengthInSequenceSpace ≤ afterAb.absAck ∧
    afterAb.streamOut.inputEnded = false ∧
    (afterAb.segmentReceived staleFin).map (·.streamOut.inputEnded) = some true ∧
    (afterAb.segmentReceived staleFin).map (fun rcv' => decide (afterAb.SameAs rcv')) = some false := by
  decide +kernel

theorem stale_iff_staleFin :
    ∃ rcv', afterAb.segmentReceived staleFin = some rcv' ∧ (afterAb.SameAs rcv' ↔ afterAb.Inert staleFin) :=
  stale_iff (show ∀ op ∈ abOps, Sized op by simp [abOps, Sized])
    (show Runs.run step (init 4) abOps = some afterAb by decide +kernel) (by decide +kernel) rfl rfl (by decide)
    (by decide) (by decide +kernel)

end TCPReceiver
end Sponge
