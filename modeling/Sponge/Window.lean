/-
# The window of the reassembler

The window ends at `edge`, the bytes read plus the capacity. What is pushed
from outside it is refused by its start only. Two questions about that check:
whether the next bytes are always taken (`push_advances_iff`: unless a stored
piece that starts where the output stops already reaches the edge), and how
much is held (`held_le`: below the edge no more than the capacity, at or past
it the tail of one piece).

Runs are runs of `Reassembly.step` with strings and indices of 63 and 64 bits,
to a state whose edge is at most 2^63.

Key definitions: `StreamReassembler.edge`, `StreamReassembler.Blocked`,
`StreamReassembler.Held`.
Key theorems: `StreamReassembler.advances_iff`, `Reassembly.push_advances_iff`,
`Reassembly.held_le`.
-/
import Sponge.Reassembly

namespace Sponge
namespace StreamReassembler

open Pieces

/-- The end of the window. -/
def edge (r : StreamReassembler) : ℕ := r.output.bytesRead + r.output.capacity

theorem next_le_edge' {r : StreamReassembler} (h : Tidy r) : r.nextAssembledIdx ≤ r.edge := next_le_edge h

theorem firstUnacceptableIdx_eq {r : StreamReassembler} (h : Tidy r) (he : r.edge < 2 ^ 64) :
    r.firstUnacceptableIdx = r.edge := by
  have h1 := r.output.count
  have h2 := h.next_eq
  have h3 := h.cap_eq
  have h4 := r.output.fits
  unfold firstUnacceptableIdx
  unfold edge at *
  rw [Nat.mod_eq_of_lt] <;> omega

/-- While the edge is at most 2^63, every push is in range. -/
theorem pushOk_of_edge {r : StreamReassembler} (h : Tidy r) (he : r.edge ≤ 2 ^ 63) {data : Bytes} {index : ℕ}
    (hd : data.length < 2 ^ 63) : PushOk r data index := by
  have h1 := next_le_edge' h
  have h2 := firstUnacceptableIdx_eq h (by omega)
  refine ⟨hd, by omega, ?_⟩
  omega

/-- Where a push ends up: it starts to be new past the window and clips the
store at most, or it is merged and assembled. -/
theorem push_cases {r r' : StreamReassembler} (h : Tidy r) (he : r.edge ≤ 2 ^ 63) {data : Bytes} {index : ℕ}
    (hd : data.length < 2 ^ 63) (hi : index < 2 ^ 64) {eof : Bool} (hp : r.pushSubstring data index eof = some r') :
    r.edge ≤ r.start index ∧ (r' = r ∨ r' = r.clipped data index) ∨
      r.start index < r.edge ∧ ∃ r₁, assemble (r.merged data index).unassembleStrs (r.merged data index) = some r₁ ∧
        r' = r₁.finish (index + data.length) eof := by
  have hn := next_le_edge' h
  have hfu := firstUnacceptableIdx_eq h (by omega)
  by_cases hw : index + data.length < 2 ^ 64
  · rw [pushSubstring_eq h (by omega) hd hw, hfu] at hp
    by_cases hstart : r.edge ≤ r.start index
    · rw [if_pos hstart] at hp
      exact Or.inl ⟨hstart, Or.inr (Option.some.inj hp).symm⟩
    · rw [if_neg hstart] at hp
      obtain ⟨r₁, ha, rfl⟩ := Option.map_eq_some_iff.mp hp
      exact Or.inr ⟨not_le.mp hstart, r₁, ha, rfl⟩
  · have hfar : r.edge ≤ index := by omega
    rw [pushSubstring_far h (by omega) hd hi (not_lt.mp hw) (hfu.trans_le hfar)] at hp
    exact Or.inl ⟨hfar.trans (index_le_start r index), Or.inl (Option.some.inj hp).symm⟩

theorem room_eq {r : StreamReassembler} (h : Tidy r) (ho : r.output.Open) :
    r.nextAssembledIdx + r.output.room = r.edge := by
  have h1 := r.output.count
  have h2 := h.next_eq
  have h4 := r.output.fits
  rw [ByteStream.room_of_open ho]
  unfold edge
  omega

/-! ### What a push does to the output, in range or not -/

section
variable {P : ByteStream → Prop} (hwrite : ∀ o d, P o → P (o.write d).2)
include hwrite

theorem store_induct {r : StreamReassembler} (h : P r.output) (n : ℕ) (d : Bytes) : P (r.store n d).output := by
  unfold store
  split
  · dsimp only
    split <;> exact hwrite _ _ h
  · exact h

theorem assemble_induct : ∀ {m : Store UInt8} {r r' : StreamReassembler}, P r.output → assemble m r = some r' →
    P r'.output
  | [], r, r', h, ha => by
    obtain rfl := Option.some.inj ha
    exact h
  | (k, s) :: m, r, r', h, ha => by
    unfold assemble at ha
    dsimp only at ha
    split_ifs at ha
    · obtain rfl := Option.some.inj ha
      exact hwrite _ _ h
    · exact assemble_induct (by exact hwrite _ _ h) ha
    · obtain rfl := Option.some.inj ha
      exact h

/-- What writing to the output and ending it keep, a push keeps. -/
theorem pushSubstring_induct (hend : ∀ o, P o → P o.endInput) {r r' : StreamReassembler} {data : Bytes} {index : ℕ}
    {eof : Bool} (h : P r.output) (hp : r.pushSubstring data index eof = some r') : P r'.output := by
  have hfinish : ∀ r : StreamReassembler, P r.output → P (r.finish ((index + data.length) % 2 ^ 64) eof).output := by
    intro r hr
    rw [finish_output]
    split
    · exact hend _ hr
    · exact hr
  unfold pushSubstring at hp
  dsimp only at hp
  split_ifs at hp
  · obtain rfl := Option.some.inj hp
    exact h
  · obtain ⟨r₁, h1, rfl⟩ := Option.map_eq_some_iff.mp hp
    exact hfinish r₁ (assemble_induct hwrite (by exact store_induct hwrite (by exact h) _ _) h1)
  · obtain ⟨r₁, h1, rfl⟩ := Option.map_eq_some_iff.mp hp
    exact hfinish r₁ (assemble_induct hwrite (by exact h) h1)

end

/-- No push moves the edge. -/
theorem pushSubstring_edge {r r' : StreamReassembler} {data : Bytes} {index : ℕ} {eof : Bool}
    (h : r.pushSubstring data index eof = some r') : r'.edge = r.edge := by
  refine pushSubstring_induct (P := fun o => o.bytesRead + o.capacity = r.edge) ?_ (fun o ho => ho) rfl h
  intro o d ho
  rw [ByteStream.write_snd_bytesRead, ByteStream.write_snd_capacity]
  exact ho

/-- A push to an ended stream leaves the output as it is. -/
theorem pushSubstring_output {r r' : StreamReassembler} {data : Bytes} {index : ℕ} {eof : Bool}
    (he : r.output.inputEnded = true) (h : r.pushSubstring data index eof = some r') : r'.output = r.output := by
  refine pushSubstring_induct (P := fun o => o = r.output) ?_ ?_ rfl h
  · rintro o d rfl
    rw [ByteStream.write_of_not_open fun ho => Bool.false_ne_true (ho.2.symm.trans he)]
  · rintro o rfl
    exact ByteStream.endInput_of_ended he

/-! ### Progress -/

/-- A stored piece stands at the start of a push that continues the output,
and reaches the edge: the push is refused, though there is room. -/
def Blocked (r : StreamReassembler) (index : ℕ) : Prop :=
  r.output.bytesWritten < r.edge ∧ index = r.output.bytesWritten ∧
    ∃ p ∈ r.unassembleStrs, p.1 = index ∧ r.edge ≤ p.1 + p.2.length

/-- What is held before a push that meets the output: the piece at its
index, if the two start together. -/
theorem left_cases {r : StreamReassembler} (h : Tidy r) {index : ℕ} (hi : index ≤ r.nextAssembledIdx) :
    r.start index = r.nextAssembledIdx ∧ r.left index = [] ∨
      index = r.nextAssembledIdx ∧ ∃ b, r.left index = [(index, b)] ∧ r.start index = index + b.length := by
  have hlo := h.left_ordered index
  cases hl : r.left index with
  | nil =>
    refine Or.inl ⟨?_, rfl⟩
    simp only [start, hl, stop]
    omega
  | cons p m =>
    obtain ⟨k, b⟩ := p
    have hmem : ∀ q ∈ r.left index, q.1 ≤ index := fun q hq => (mem_left hq).2
    rw [hl] at hlo hmem
    obtain ⟨h1, h2, h3⟩ := hlo
    have h4 := hmem (k, b) List.mem_cons_self
    have h5 := List.length_pos_of_ne_nil h2
    have hm : m = [] := by
      by_contra hc
      obtain ⟨q, hq⟩ := List.exists_mem_of_ne_nil _ hc
      have h6 := h3.le_key q hq
      have h7 := hmem q (List.mem_cons_of_mem _ hq)
      simp only at h4
      omega
    subst hm
    simp only at h4
    obtain rfl : k = index := by omega
    refine Or.inr ⟨by omega, b, rfl, ?_⟩
    simp only [start, hl, stop]
    omega

/-- A push that meets the output and passes the window check is taken: the
output is full, or has what was pushed. -/
theorem advances_of_lt {r m r' : StreamReassembler} {data d₁ d₂ : Bytes} {index : ℕ} (h : Tidy r)
    (ho : r.output.Open) (hi : index ≤ r.nextAssembledIdx) (hm : Merged r data index m d₁)
    (ha : Assembled m.unassembleStrs m r' d₂) : min (index + data.length) r.edge ≤ r'.nextAssembledIdx := by
  have hroom := hm.wrote.room
  have hedge := room_eq h ho
  have hnext := hm.next
  have hreach : index + data.length ≤ reach m.nextAssembledIdx m.unassembleStrs := by
    refine le_reach hm.ordered fun x hx hxe => hm.covers x hx hxe ?_
    rcases left_cases h hi with ⟨h1, -⟩ | ⟨rfl, b, h1, h2⟩
    · exact Or.inl (by omega)
    · rcases le_or_gt (r.start r.nextAssembledIdx) x with h3 | h3
      · exact Or.inl h3
      · refine Or.inr ⟨_, by rw [h1]; exact List.mem_singleton_self _, ?_, ?_⟩ <;> simp only <;> omega
  rw [ha.stops]
  omega

theorem advances_iff {r : StreamReassembler} (h : WF r) (he : r.edge ≤ 2 ^ 63) (ho : r.output.Open) {data : Bytes}
    {index : ℕ} (hd : data.length < 2 ^ 63) (hi : index ≤ r.output.bytesWritten)
    (hlt : r.output.bytesWritten < index + data.length) (eof : Bool) :
    (∃ r', r.pushSubstring data index eof = some r' ∧
      min (index + data.length) r.edge ≤ r'.output.bytesWritten) ↔ ¬ Blocked r index := by
  have hbw := h.next_eq
  have hedge := next_le_edge' h.toTidy
  rw [← hbw] at hi hlt
  rw [pushSubstring_eq h.toTidy (by omega) hd (by omega), firstUnacceptableIdx_eq h.toTidy (by omega)]
  by_cases hw : r.edge ≤ r.start index
  · rw [if_pos hw]
    simp only [Option.some.injEq, exists_eq_left']
    change min _ _ ≤ r.output.bytesWritten ↔ _
    rw [← hbw]
    unfold Blocked
    rcases left_cases h.toTidy hi with ⟨h1, -⟩ | ⟨rfl, b, h1, h2⟩
    · exact ⟨fun _ hb => by omega, fun _ => by omega⟩
    · have hp : (r.nextAssembledIdx, b) ∈ r.unassembleStrs :=
        (mem_left (h1.symm ▸ List.mem_singleton_self (r.nextAssembledIdx, b))).1
      refine ⟨fun h3 hb => by omega, fun hb => ?_⟩
      by_contra hc
      exact hb ⟨by omega, hbw, _, hp, rfl, by simp only; omega⟩
  · rw [if_neg hw]
    obtain ⟨d₁, hm⟩ := merged_spec h.toTidy data index
    obtain ⟨r', d₂, hr', ha⟩ := assemble_spec hm.ordered hm.total_le
    have hadv := advances_of_lt h.toTidy ho hi hm ha
    have htidy := tidy_assembled h.toTidy hd (by omega) hm ha
    obtain ⟨-, hf, -⟩ := finish_frame r' (index + data.length) eof
    rw [hr', Option.map_some]
    refine ⟨fun _ ⟨_, hb, p, hp, hpi, hpe⟩ => ?_, fun _ => ⟨_, rfl, ?_⟩⟩
    · have hpl : p ∈ r.left index := by
        have := (left_append_right r index).symm ▸ hp
        refine (List.mem_append.mp this).resolve_right fun hr => ?_
        have := h.ordered.lt_dropWhile index p hr
        omega
      have := (h.left_ordered index).end_le_stop p hpl
      have h4 : stop r.nextAssembledIdx (r.left index) ≤ r.start index := le_max_right _ _
      omega
    · rw [hf, ← htidy.next_eq]
      exact hadv

/-! ### What a reassembler holds -/

/-- What every call keeps: no piece starts past the window, none is longer
than the longest string pushed. -/
structure Held (capacity l : ℕ) (r : StreamReassembler) : Prop extends WF r where
  cap : r.output.capacity = capacity
  keys : ∀ p ∈ r.unassembleStrs, p.1 ≤ r.edge
  lens : ∀ p ∈ r.unassembleStrs, p.2.length ≤ l

theorem held_init (capacity l : ℕ) : Held capacity l (init capacity) :=
  ⟨init_wf capacity, rfl, fun _ h => absurd h List.not_mem_nil, fun _ h => absurd h List.not_mem_nil⟩

namespace Held

variable {capacity l : ℕ} {r : StreamReassembler}

theorem push (h : Held capacity l r) (he : r.edge ≤ 2 ^ 63) {data : Bytes} {index : ℕ} (hd : data.length < 2 ^ 63)
    (hi : index < 2 ^ 64) (hl : data.length ≤ l) (eof : Bool) :
    ∃ r', r.pushSubstring data index eof = some r' ∧ Held capacity l r' := by
  obtain ⟨r', d, hr', hp⟩ := push_spec h.toWF hi (pushOk_of_edge h.toTidy he hd) eof
  have hkeys := hp.keys h.keys
  refine ⟨r', hr', hp.wf, hp.capacity.trans h.cap, fun p hpm => ?_, hp.lens l hl h.lens⟩
  rw [pushSubstring_edge hr']
  exact hkeys p hpm

theorem read_edge (r : StreamReassembler) (len : ℕ) : r.edge ≤ (r.read len).2.edge :=
  Nat.add_le_add (ByteStream.bytesRead_le_popOutput _ _) (ByteStream.popOutput_capacity _ _).ge

theorem read (h : Held capacity l r) (len : ℕ) : Held capacity l (r.read len).2 :=
  ⟨read_wf h.toWF len, (ByteStream.popOutput_capacity _ _).trans h.cap,
    fun p hp => (h.keys p hp).trans (read_edge r len), h.lens⟩

theorem setError (h : Held capacity l r) : Held capacity l { r with output := r.output.setError } :=
  ⟨setError_wf h.toWF, h.cap, h.keys, h.lens⟩

end Held
end StreamReassembler

namespace Reassembly

open StreamReassembler Pieces

/-- Strings and indices of 63 and 64 bits. -/
def Sized : Op → Prop
  | .push data index _ => data.length < 2 ^ 63 ∧ index < 2 ^ 64
  | .read _ => True

/-- No string pushed is longer than `l`. -/
def AtMost (l : ℕ) : Op → Prop
  | .push data _ _ => data.length ≤ l
  | .read _ => True

/-- The edge never moves back. -/
theorem step_edge {t t' : Reassembly} {op : Op} (h : step t op = some t') :
    t.reassembler.edge ≤ t'.reassembler.edge := by
  cases op with
  | push data index eof =>
    obtain ⟨r', hr', rfl⟩ := Option.map_eq_some_iff.mp h
    exact (pushSubstring_edge hr').ge
  | read len =>
    obtain rfl := Option.some.inj h
    exact Held.read_edge _ _

theorem step_held {capacity l : ℕ} {t t' : Reassembly} {op : Op} (hop : Sized op ∧ AtMost l op)
    (he : t'.reassembler.edge ≤ 2 ^ 63) (h : Held capacity l t.reassembler) (hs : step t op = some t') :
    Held capacity l t'.reassembler := by
  have hedge := step_edge hs
  cases op with
  | push data index eof =>
    obtain ⟨⟨hd, hi⟩, hl⟩ := hop
    obtain ⟨r', hr', hh⟩ := h.push (hedge.trans he) hd hi hl eof
    simp only [step, hr', Option.map_some, Option.some.injEq] at hs
    subst hs
    exact hh
  | read len =>
    obtain rfl := Option.some.inj hs
    exact h.read len

theorem run_held {capacity l : ℕ} {ops : List Op} {t : Reassembly} (hops : ∀ op ∈ ops, Sized op ∧ AtMost l op)
    (hr : Runs.run step (start capacity) ops = some t) (he : t.reassembler.edge ≤ 2 ^ 63) :
    Held capacity l t.reassembler := by
  refine Runs.run_bounded (I := fun t => Held capacity l t.reassembler)
    (B := fun t => t.reassembler.edge ≤ 2 ^ 63) ?_ ?_ hops (held_init capacity l) hr he
  · exact fun _ _ _ hs he' => (step_edge hs).trans he'
  · exact fun _ _ _ hop hB hI hs => step_held hop hB hI hs

/-- **Progress**: from a state any run reaches, a push that meets the output
and brings bytes past it is taken up to the edge, unless it is `Blocked`. -/
theorem push_advances_iff {capacity : ℕ} {ops : List Op} (hops : ∀ op ∈ ops, Sized op) {t : Reassembly}
    (hr : Runs.run step (start capacity) ops = some t) (he : t.reassembler.edge ≤ 2 ^ 63)
    (ho : t.reassembler.output.Open) {data : Bytes} {index : ℕ} (hd : data.length < 2 ^ 63)
    (hi : index ≤ t.reassembler.output.bytesWritten)
    (hlt : t.reassembler.output.bytesWritten < index + data.length) (eof : Bool) :
    (∃ r', t.reassembler.pushSubstring data index eof = some r' ∧
      min (index + data.length) (t.reassembler.output.bytesRead + capacity) ≤ r'.output.bytesWritten) ↔
      ¬ Blocked t.reassembler index := by
  have hsized : ∀ op ∈ ops, Sized op ∧ AtMost (2 ^ 63) op := fun op hop => by
    refine ⟨hops op hop, ?_⟩
    have := hops op hop
    cases op with
    | push data index eof => exact this.1.le
    | read len => trivial
  have h := run_held hsized hr he
  rw [← h.cap]
  exact advances_iff h.toWF he ho hd hi hlt eof

/-- "bcd" before "a" through a window of two, then a read of both. -/
def stallOps : List Op := [.push [98, 99, 100] 1 false, .push [97] 0 false, .read 2]

/-- The rest of "bcd" stands where the output stops. -/
def stalled : Reassembly where
  reassembler :=
    { StreamReassembler.init 2 with
      unassembleStrs := [(2, [99, 100])]
      nextAssembledIdx := 2
      unassembledBytesNum := 2
      output := { ByteStream.init 2 with bytesWritten := 2, bytesRead := 2, count := rfl } }
  got := [97, 98]

/-- There is room, "c" is next, and pushing it changes nothing. -/
theorem stalled_push : Runs.run step (start 2) stallOps = some stalled ∧ stalled.reassembler.output.Open ∧
    stalled.reassembler.output.bytesWritten = 2 ∧
    ¬ ∃ r', stalled.reassembler.pushSubstring [99] 2 false = some r' ∧
      min (2 + [(99 : UInt8)].length) (stalled.reassembler.output.bytesRead + 2) ≤ r'.output.bytesWritten := by
  have hpush : stalled.reassembler.pushSubstring [99] 2 false = some stalled.reassembler := by decide
  refine ⟨by decide, by decide, rfl, ?_⟩
  rw [hpush]
  rintro ⟨r', hr', hle⟩
  obtain rfl := Option.some.inj hr'
  exact absurd hle (by decide)

/-- "d", pushed from where the output stops with "c", is refused too. -/
theorem push_advances_iff_stalled :
    (∃ r', stalled.reassembler.pushSubstring [99, 100] 2 false = some r' ∧
      min (2 + [(99 : UInt8), 100].length) (stalled.reassembler.output.bytesRead + 2) ≤ r'.output.bytesWritten) ↔
      ¬ Blocked stalled.reassembler 2 :=
  push_advances_iff (show ∀ op ∈ stallOps, Sized op by simp [stallOps, Sized]) (by decide) (by decide) (by decide)
    (by decide) (by decide) (by decide) false

/-- **What is held**: the buffer and the pieces below the edge fit the
capacity. Past the edge is the tail of the last piece, so the whole is at most
the longest string more. -/
theorem held_le {capacity l : ℕ} {ops : List Op} (hops : ∀ op ∈ ops, Sized op ∧ AtMost l op) {t : Reassembly}
    (hr : Runs.run step (start capacity) ops = some t) (he : t.reassembler.edge ≤ 2 ^ 63) :
    t.reassembler.output.buffer.length + below (t.reassembler.output.bytesRead + capacity) t.reassembler.unassembleStrs
        ≤ capacity ∧
      t.reassembler.output.buffer.length + total t.reassembler.unassembleStrs ≤ capacity + l ∧
      ∀ p ∈ t.reassembler.unassembleStrs, p.1 ≤ t.reassembler.output.bytesRead + capacity ∧
        (t.reassembler.output.bytesRead + capacity < p.1 + p.2.length →
          ∀ q ∈ t.reassembler.unassembleStrs, q.1 ≤ p.1) := by
  have h := run_held hops hr he
  have hbelow := h.ordered.below_le (e := t.reassembler.edge)
  have htotal := h.ordered.total_le_below h.keys h.lens
  have hkeys := h.keys
  have h1 := h.next_eq
  have h2 := t.reassembler.output.count
  have h3 := t.reassembler.output.fits
  simp only [edge, h.cap] at hbelow htotal hkeys h3
  refine ⟨by omega, by omega, fun p hp => ⟨hkeys p hp, fun hc q hq => ?_⟩⟩
  have h4 := hkeys q hq
  rcases h.ordered.apart p hp q hq with h5 | h5 <;> omega

/-- "bcd" pushed at 1 into an empty window of two: three bytes are kept, the
last two of them past the edge. -/
theorem held_past_edge : ∃ t, Runs.run step (start 2) [.push [98, 99, 100] 1 false] = some t ∧
    2 < t.reassembler.output.buffer.length + t.reassembler.unassembledBytes ∧
    Covers t.reassembler.unassembleStrs (t.reassembler.output.bytesRead + 2) :=
  ⟨_, rfl, by decide, (1, [98, 99, 100]), List.mem_singleton_self _, by decide, by decide⟩

theorem held_le_stalled :
    stalled.reassembler.output.buffer.length + below (stalled.reassembler.output.bytesRead + 2)
        stalled.reassembler.unassembleStrs ≤ 2 ∧
      stalled.reassembler.output.buffer.length + total stalled.reassembler.unassembleStrs ≤ 2 + 3 ∧
      ∀ p ∈ stalled.reassembler.unassembleStrs, p.1 ≤ stalled.reassembler.output.bytesRead + 2 ∧
        (stalled.reassembler.output.bytesRead + 2 < p.1 + p.2.length →
          ∀ q ∈ stalled.reassembler.unassembleStrs, q.1 ≤ p.1) :=
  held_le (show ∀ op ∈ stallOps, Sized op ∧ AtMost 3 op by simp [stallOps, Sized, AtMost]) (by decide) (by decide)

end Reassembly
end Sponge
