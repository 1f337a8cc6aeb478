/-
# The counter of stored bytes

`unassembled_bytes` reads a counter that every change of the store adjusts.
One of them is wrong: when the assembly loop meets a piece and the output
takes nothing of it, the piece is put back under the key it has, which changes
nothing, and is erased, while the counter keeps it. `Loses` is the condition
under which a push gets there. A run counts what is stored iff no push of it
loses a piece.

Key definitions: `StreamReassembler.MeetsFull`, `StreamReassembler.Loses`,
`StreamReassembler.Counts`.
Key theorems: `StreamReassembler.assemble_count`,
`StreamReassembler.push_count`, `StreamReassembler.counts_iff`.
-/
import Sponge.Stale

namespace Sponge
namespace StreamReassembler

open Pieces ByteStream

/-! ### The assembly loop -/

/-- The loop, from `next` on and with room for `room` bytes, meets a piece
when there is no room. -/
def MeetsFull : ℕ → ℕ → Store UInt8 → Prop
  | _, _, [] => False
  | next, room, (k, s) :: m =>
    k = next ∧ (room = 0 ∨ s.length ≤ room ∧ MeetsFull (next + s.length) (room - s.length) m)

theorem meetsFull_zero {next : ℕ} {m : Store UInt8} (h : Ordered next m) :
    MeetsFull next 0 m ↔ ∃ p ∈ m, p.1 = next := by
  cases m with
  | nil => simp [MeetsFull]
  | cons q m =>
    obtain ⟨k, s⟩ := q
    obtain ⟨h1, h2, h3⟩ := h
    have hs := List.length_pos_of_ne_nil h2
    simp only [MeetsFull, true_or, and_true]
    constructor
    · intro hk
      exact ⟨(k, s), List.mem_cons_self, hk⟩
    · rintro ⟨p, hp, hk⟩
      rcases List.mem_cons.mp hp with rfl | hp
      · exact hk
      · have := h3.le_key p hp
        omega

/-- A loop whose pieces all start where there is room meets none without. -/
theorem not_meetsFull {next room : ℕ} {m : Store UInt8} (h : ∀ p ∈ m, p.1 < next + room) :
    ¬ MeetsFull next room m := by
  induction m generalizing next room with
  | nil => exact not_false
  | cons p m ih =>
    obtain ⟨k, s⟩ := p
    rintro ⟨rfl, hroom | ⟨hle, hm⟩⟩
    · have := h _ List.mem_cons_self
      omega
    · refine ih (fun q hq => ?_) hm
      have := h q (List.mem_cons_of_mem _ hq)
      omega

/-- The counter goes along with the pieces, unless one is met without room:
that is erased and still counted. -/
theorem assemble_count {m : Store UInt8} {r r' : StreamReassembler} (ho : Ordered r.nextAssembledIdx m)
    (ht : total m ≤ r.unassembledBytesNum) (ha : assemble m r = some r') :
    (MeetsFull r.nextAssembledIdx r.output.room m →
        r.unassembledBytesNum + total r'.unassembleStrs < r'.unassembledBytesNum + total m) ∧
      (¬ MeetsFull r.nextAssembledIdx r.output.room m →
        r.unassembledBytesNum + total r'.unassembleStrs = r'.unassembledBytesNum + total m) := by
  induction m generalizing r with
  | nil =>
    obtain rfl := Option.some.inj ha
    exact ⟨fun hc => hc.elim, fun _ => rfl⟩
  | cons p m ih =>
    obtain ⟨k, s⟩ := p
    obtain ⟨h1, h2, h3⟩ := ho
    have hs := List.length_pos_of_ne_nil h2
    rw [total_cons] at ht
    unfold assemble at ha
    rw [if_neg (not_lt.mpr h1)] at ha
    by_cases hk : k = r.nextAssembledIdx
    · subst hk
      have hfst := ByteStream.write_fst r.output s
      rw [if_pos rfl] at ha
      simp only [MeetsFull, true_and, total_cons]
      by_cases hlt : r.output.room < s.length
      · rw [min_eq_left hlt.le] at hfst
        simp only [hfst, if_pos hlt, erase_insert_rest hlt h3] at ha
        obtain rfl := Option.some.inj ha
        dsimp only
        by_cases hroom : r.output.room = 0
        · rw [if_pos hroom]
          exact ⟨fun _ => by omega, fun hc => absurd (Or.inl hroom) hc⟩
        · rw [if_neg hroom, total_cons, List.length_drop]
          refine ⟨fun hc => ?_, fun _ => by omega⟩
          rcases hc with hc | ⟨hc, -⟩
          · exact absurd hc hroom
          · exact absurd hlt (not_lt.mpr hc)
      · rw [min_eq_right (not_lt.mp hlt)] at hfst
        simp only [hfst, lt_irrefl, ↓reduceIte] at ha
        have hroom : (r.output.write s).2.room = r.output.room - s.length := by
          rw [write_snd_room]
          omega
        have hih := ih (r := { r with
          output := (r.output.write s).2
          nextAssembledIdx := r.nextAssembledIdx + s.length
          unassembledBytesNum := r.unassembledBytesNum - s.length }) h3 (by dsimp only; omega) ha
        dsimp only at hih
        rw [hroom] at hih
        have hiff : (r.output.room = 0 ∨ s.length ≤ r.output.room ∧
            MeetsFull (r.nextAssembledIdx + s.length) (r.output.room - s.length) m) ↔
            MeetsFull (r.nextAssembledIdx + s.length) (r.output.room - s.length) m := by
          rw [or_iff_right (by omega), and_iff_right (by omega)]
        rw [hiff]
        refine ⟨fun hc => ?_, fun hc => ?_⟩
        · have := hih.1 hc
          omega
        · have := hih.2 hc
          omega
    · rw [if_neg hk] at ha
      obtain rfl := Option.some.inj ha
      exact ⟨fun hc => absurd hc.1 hk, fun _ => rfl⟩

/-! ### A push -/

section

variable {r r' : StreamReassembler} {data : Bytes} {index : ℕ}

theorem clipped_count (h : Tidy r) (data : Bytes) (index : ℕ) :
    (r.clipped data index).unassembledBytesNum + total r.unassembleStrs =
      r.unassembledBytesNum + total (r.clipped data index).unassembleStrs := by
  have h1 := h.total_le
  have h2 := total_le_of_suffix (trim_suffix (index + data.length) (r.right index))
  have h3 : total r.unassembleStrs = total (r.left index) + total (r.right index) := by
    rw [← total_append, left_append_right]
  simp only [clipped, total_append]
  omega

theorem merged_count (h : Tidy r) (data : Bytes) (index : ℕ) :
    (r.merged data index).unassembledBytesNum + total r.unassembleStrs =
      r.unassembledBytesNum + total (r.merged data index).unassembleStrs := by
  have hc := clipped_count h data index
  unfold merged
  split_ifs with hlt
  · by_cases hn : r.start index = r.nextAssembledIdx
    · rw [store_write h hlt hn]
      simp only [clipped, left_eq_nil h hn, List.nil_append] at hc ⊢
      split_ifs with hroom
      · rw [total_cons, List.length_drop]
        omega
      · omega
    · rw [store_insert h hlt hn]
      simp only [clipped, total_append, total_cons] at hc ⊢
      omega
  · exact hc

/-- When a push makes the loop meet a piece without room: the new bytes
continue the output and do not all fit, or a closed output has a piece where
it stops. -/
def Loses (r : StreamReassembler) (data : Bytes) (index : ℕ) : Prop :=
  r.start index < r.edge ∧
    (r.start index = r.nextAssembledIdx ∧ r.output.room < (r.newData data index).length ∨
      ¬ r.output.Open ∧ r.Ready)

/-- Below the edge there is room: no piece starts past it. -/
def Strict (r : StreamReassembler) : Prop := r.nextAssembledIdx < r.edge → ∀ p ∈ r.unassembleStrs, p.1 < r.edge

/-- With an open output the loop meets a piece without room only where the
new bytes were cut. -/
theorem meetsFull_open (h : Tidy r) (hs : r.Strict) (ho : r.output.Open) (hw : r.start index < r.edge) :
    MeetsFull (r.merged data index).nextAssembledIdx (r.merged data index).output.room
        (r.merged data index).unassembleStrs ↔
      r.start index = r.nextAssembledIdx ∧ r.output.room < (r.newData data index).length := by
  have hkeys := hs ((next_le_start h index).trans_lt hw)
  have hlen := newData_length h data index
  have hedge := room_eq h ho
  have hmem : ∀ p ∈ (trim (index + data.length) (r.right index)).1, p ∈ r.unassembleStrs :=
    fun p hp => mem_right ((trim_suffix _ _).subset hp)
  unfold merged
  split_ifs with hlt
  · by_cases hn : r.start index = r.nextAssembledIdx
    · rw [store_write h hlt hn]
      dsimp only
      by_cases hroom : r.output.room < (r.newData data index).length
      · have hfull : (r.output.write (r.newData data index)).2.room = 0 := by
          rw [write_snd_room]
          omega
        rw [if_pos hroom, hfull, min_eq_left hroom.le]
        exact iff_of_true ⟨rfl, Or.inl rfl⟩ ⟨hn, hroom⟩
      · rw [if_neg hroom, write_snd_room]
        refine iff_of_false (not_meetsFull fun p hp => ?_) fun hc => hroom hc.2
        have := hkeys p (hmem p hp)
        omega
    · rw [store_insert h hlt hn]
      dsimp only
      refine iff_of_false (not_meetsFull fun p hp => ?_) fun hc => hn hc.1
      rw [hedge]
      rcases List.mem_append.mp hp with hp | hp
      · exact hkeys p (mem_left hp).1
      · rcases List.mem_cons.mp hp with rfl | hp
        · exact hw
        · exact hkeys p (hmem p hp)
  · refine iff_of_false (not_meetsFull fun p hp => ?_) fun hc => ?_
    · have := hkeys p (mem_clipped hp)
      exact this.trans_eq hedge.symm
    · omega

/-- Where a closed output stops, a piece stands after the merge iff one stood
there before or the new bytes start there. -/
theorem meetsFull_closed (h : Tidy r) (ho : ¬ r.output.Open) :
    MeetsFull (r.merged data index).nextAssembledIdx (r.merged data index).output.room
        (r.merged data index).unassembleStrs ↔
      r.start index = r.nextAssembledIdx ∧ 0 < (r.newData data index).length ∨ r.Ready := by
  have hlen := newData_length h data index
  have hroom := room_of_not_open ho
  obtain ⟨d, hm⟩ := merged_spec h data index
  have hr := hm.wrote.room
  have hzero : (r.merged data index).output.room = 0 := by omega
  have hnext : (r.merged data index).nextAssembledIdx = r.nextAssembledIdx := by
    have := hm.next
    omega
  have hcov : Covers (r.merged data index).unassembleStrs r.nextAssembledIdx →
      ∃ p ∈ (r.merged data index).unassembleStrs, p.1 = r.nextAssembledIdx := by
    rintro ⟨p, hp, h1, -⟩
    have h2 := hm.ordered.le_key p hp
    exact ⟨p, hp, by omega⟩
  rw [hzero, meetsFull_zero hm.ordered, hnext]
  constructor
  · rintro ⟨p, hp, hk⟩
    have hready : p ∈ r.unassembleStrs → r.Ready := fun hpr => ⟨p, hpr, hk.trans h.next_eq⟩
    unfold merged at hp
    split_ifs at hp with hlt
    · by_cases hn : r.start index = r.nextAssembledIdx
      · exact Or.inl ⟨hn, by omega⟩
      · rw [store_insert h hlt hn] at hp
        rcases List.mem_append.mp hp with hp | hp
        · exact Or.inr (hready (mem_left hp).1)
        · rcases List.mem_cons.mp hp with rfl | hp
          · exact absurd hk hn
          · exact Or.inr (hready (mem_right ((trim_suffix _ _).subset hp)))
    · exact Or.inr (hready (mem_clipped hp))
  · rintro (⟨hn, hpos⟩ | ⟨q, hq, hk⟩)
    · have hend := (trim_spec (e := index + data.length) (h.right_ordered index)).1
      exact hcov (hm.covers _ hnext.le (by omega) (Or.inl hn.le))
    · rw [← h.next_eq] at hk
      rcases le_or_gt (index + data.length) (r.start index) with hle | hgt
      · rw [(nothing_new h hle).2]
        exact ⟨q, hq, hk⟩
      · have hle := next_le_start h index
        apply hcov
        apply hm.covers _ hnext.le (by omega)
        by_cases hn : r.start index = r.nextAssembledIdx
        · exact Or.inl hn.le
        · -- the piece starts at or before the index
          have hi : r.nextAssembledIdx ≤ index := by
            by_contra hc
            exact hn (start_of_lt h (not_le.mp hc)).1
          rw [← left_append_right r index] at hq
          rcases List.mem_append.mp hq with hl | hr
          · have hne := List.length_pos_of_ne_nil (h.ordered.ne_nil q (mem_left hl).1)
            exact Or.inr ⟨q, hl, by omega, by omega⟩
          · have := h.ordered.lt_dropWhile index q hr
            omega

theorem meetsFull_iff (h : Tidy r) (hs : r.Strict) (hw : r.start index < r.edge) :
    MeetsFull (r.merged data index).nextAssembledIdx (r.merged data index).output.room
        (r.merged data index).unassembleStrs ↔ r.Loses data index := by
  unfold Loses
  rw [and_iff_right hw]
  by_cases ho : r.output.Open
  · rw [meetsFull_open h hs ho hw]
    simp [ho]
  · rw [meetsFull_closed h ho, room_of_not_open ho]
    simp [ho]

/-- What a push does to the counter and to the pieces. -/
theorem push_count (h : WF r) (hs : r.Strict) (he : r.edge ≤ 2 ^ 63) (hd : data.length < 2 ^ 63) (hi : index < 2 ^ 64)
    {eof : Bool} (hp : r.pushSubstring data index eof = some r') :
    (r.Loses data index →
        r.unassembledBytesNum + total r'.unassembleStrs < r'.unassembledBytesNum + total r.unassembleStrs) ∧
      (¬ r.Loses data index →
        r.unassembledBytesNum + total r'.unassembleStrs = r'.unassembledBytesNum + total r.unassembleStrs) := by
  rcases push_cases h.toTidy he hd hi hp with ⟨hstart, rfl | rfl⟩ | ⟨hstart, r₁, ha, rfl⟩
  · exact ⟨fun hl => absurd hl.1 (not_lt.mpr hstart), fun _ => rfl⟩
  · have hc := clipped_count h.toTidy data index
    exact ⟨fun hl => absurd hl.1 (not_lt.mpr hstart), fun _ => hc.symm⟩
  · obtain ⟨d, hm⟩ := merged_spec h.toTidy data index
    have hc := merged_count h.toTidy data index
    obtain ⟨h1, h2⟩ := assemble_count hm.ordered hm.total_le ha
    rw [meetsFull_iff h.toTidy hs hstart] at h1 h2
    constructor
    · intro hl
      have := h1 hl
      show r.unassembledBytesNum + total r₁.unassembleStrs < r₁.unassembledBytesNum + total r.unassembleStrs
      omega
    · intro hl
      have := h2 hl
      show r.unassembledBytesNum + total r₁.unassembleStrs = r₁.unassembledBytesNum + total r.unassembleStrs
      omega

/-- Nothing is stored at the edge while there is room below it. -/
theorem push_strict (h : WF r) (hs : r.Strict) (he : r.edge ≤ 2 ^ 63) (hd : data.length < 2 ^ 63)
    (hi : index < 2 ^ 64) {eof : Bool} (hp : r.pushSubstring data index eof = some r') : r'.Strict := by
  have hedge := pushSubstring_edge hp
  rcases push_cases h.toTidy he hd hi hp with ⟨-, rfl | rfl⟩ | ⟨hstart, r₁, ha, rfl⟩
  · exact hs
  · exact fun hlt p hp => hs hlt p (mem_clipped hp)
  · obtain ⟨d, hm⟩ := merged_spec h.toTidy data index
    obtain ⟨d', hs'⟩ := assembled_of_eq hm.ordered hm.total_le ha
    have hkeys := hs ((next_le_start h.toTidy index).trans_lt hstart)
    have hnext := hs'.next
    intro hlt p hp
    rw [hedge] at hlt ⊢
    have hlt : r₁.nextAssembledIdx < r.edge := hlt
    obtain ⟨q, hq, -, -, h1 | h1⟩ := assembled_pieces hs' p hp
    · rcases hm.pieces q hq with hq | ⟨-, -, h2 | h2⟩
      · rw [h1]
        exact hkeys q hq
      · omega
      · omega
    · omega

end

/-! ### Runs -/

/-- The calls of a reassembler's owner, who may also reset the output. -/
inductive Op where
  | push (data : Bytes) (index : ℕ) (eof : Bool)
  | read (len : ℕ)
  | setError

def step (r : StreamReassembler) : Op → Option StreamReassembler
  | .push data index eof => r.pushSubstring data index eof
  | .read len => some (r.read len).2
  | .setError => some { r with output := r.output.setError }

/-- Strings and indices of 63 and 64 bits. -/
def Sized : Op → Prop
  | .push data index _ => data.length < 2 ^ 63 ∧ index < 2 ^ 64
  | _ => True

/-- No piece is lost. -/
def Keeps (r : StreamReassembler) : Op → Prop
  | .push data index _ => ¬ r.Loses data index
  | _ => True

/-- The counter is the bytes held, each index once, and `empty` tells whether
there are any. -/
structure Counts (r : StreamReassembler) : Prop where
  num : r.unassembledBytes = total r.unassembleStrs
  once : r.unassembleStrs.Pairwise fun p q => p.1 + p.2.length ≤ q.1
  empty : r.empty = true ↔ r.unassembleStrs = []

/-- What the counter has too much. -/
def overcount (r : StreamReassembler) : ℕ := r.unassembledBytesNum - total r.unassembleStrs

theorem counts_iff_overcount {r : StreamReassembler} (h : Tidy r) : Counts r ↔ r.overcount = 0 := by
  have hle := h.total_le
  unfold overcount
  constructor
  · rintro ⟨hnum, -, -⟩
    change r.unassembledBytesNum = _ at hnum
    omega
  · intro hzero
    have hnum : r.unassembledBytesNum = total r.unassembleStrs := by omega
    refine ⟨hnum, h.ordered.pairwise, ?_⟩
    unfold empty
    rw [beq_iff_eq, hnum, h.ordered.total_eq_zero_iff]

/-- What every run keeps. -/
structure Run (capacity : ℕ) (r : StreamReassembler) : Prop extends Held capacity (2 ^ 63) r where
  strict : r.Strict

theorem step_edge {r r' : StreamReassembler} {op : Op} (hs : step r op = some r') : r.edge ≤ r'.edge := by
  cases op with
  | push data index eof => exact (pushSubstring_edge hs).ge
  | read len =>
    obtain rfl := Option.some.inj hs
    exact Held.read_edge r len
  | setError =>
    obtain rfl := Option.some.inj hs
    exact le_rfl

/-- A step never counts less too much, and the same iff it loses nothing. -/
theorem step_run {capacity : ℕ} {r r' : StreamReassembler} {op : Op} (h : Run capacity r) (hop : Sized op)
    (he : r'.edge ≤ 2 ^ 63) (hs : step r op = some r') :
    Run capacity r' ∧ r.overcount ≤ r'.overcount ∧ (r'.overcount = r.overcount ↔ r.Keeps op) := by
  have hedge := (step_edge hs).trans he
  cases op with
  | push data index eof =>
    obtain ⟨hd, hi⟩ := hop
    change r.pushSubstring data index eof = some r' at hs
    obtain ⟨r₁, hr₁, hheld⟩ := h.toHeld.push hedge hd hi hd.le eof
    obtain rfl := Option.some.inj (hr₁.symm.trans hs)
    obtain ⟨h1, h2⟩ := push_count h.toWF h.strict hedge hd hi hs
    have hle := h.total_le
    have hle' := hheld.total_le
    refine ⟨⟨hheld, push_strict h.toWF h.strict hedge hd hi hs⟩, ?_⟩
    unfold overcount Keeps
    by_cases hl : r.Loses data index
    · have := h1 hl
      exact ⟨by omega, iff_of_false (by omega) (not_not.mpr hl)⟩
    · have := h2 hl
      exact ⟨by omega, iff_of_true (by omega) hl⟩
  | read len =>
    obtain rfl := Option.some.inj hs
    refine ⟨⟨h.toHeld.read len, fun hlt p hp => ?_⟩, le_rfl, iff_of_true rfl trivial⟩
    -- what is stored at the edge is below it once something was read
    have hread := Held.read_edge r len
    have hlt : r.nextAssembledIdx < (r.read len).2.edge := hlt
    have hkey := h.keys p hp
    by_cases hroom : r.nextAssembledIdx < r.edge
    · exact (h.strict hroom p hp).trans_le hread
    · exact hkey.trans_lt (by omega)
  | setError =>
    obtain rfl := Option.some.inj hs
    exact ⟨⟨h.toHeld.setError, h.strict⟩, le_rfl, iff_of_true rfl trivial⟩

theorem run_overcount {capacity : ℕ} {ops : List Op} {r r' : StreamReassembler} (h : Run capacity r)
    (hops : ∀ op ∈ ops, Sized op) (hr : Runs.run step r ops = some r') (he : r'.edge ≤ 2 ^ 63) :
    Run capacity r' ∧ r.overcount ≤ r'.overcount ∧ (r'.overcount = r.overcount ↔ Runs.Along step Keeps r ops) := by
  induction ops generalizing r with
  | nil =>
    obtain rfl := Option.some.inj hr
    exact ⟨h, le_rfl, iff_of_true rfl trivial⟩
  | cons op ops ih =>
    obtain ⟨r₁, h1, h2⟩ := Runs.run_cons.mp hr
    have he₁ : r₁.edge ≤ 2 ^ 63 :=
      Runs.run_back (B := fun r => r.edge ≤ 2 ^ 63) (fun _ _ _ hs hb => (step_edge hs).trans hb) h2 he
    obtain ⟨i1, i2, i3⟩ := step_run h (hops op List.mem_cons_self) he₁ h1
    obtain ⟨j1, j2, j3⟩ := ih i1 (fun o ho => hops o (List.mem_cons_of_mem op ho)) h2
    refine ⟨j1, i2.trans j2, ?_⟩
    have htail : Runs.Along step Keeps r (op :: ops) ↔ r.Keeps op ∧ Runs.Along step Keeps r₁ ops := by
      refine and_congr_right fun _ => ⟨fun ha => ha r₁ h1, fun ha r₂ hs => ?_⟩
      obtain rfl := Option.some.inj (h1.symm.trans hs)
      exact ha
    rw [htail, ← i3, ← j3]
    omega

/-- **The counter** of a run is the total of the pieces held, and `empty`
tells whether there are any, iff no push of the run loses a piece. -/
theorem counts_iff {capacity : ℕ} {ops : List Op} (hops : ∀ op ∈ ops, Sized op) {r : StreamReassembler}
    (hr : Runs.run step (init capacity) ops = some r) (he : r.edge ≤ 2 ^ 63) :
    Counts r ↔ Runs.Along step Keeps (init capacity) ops := by
  have hinit : Run capacity (init capacity) := ⟨held_init capacity _, fun _ p hp => absurd hp List.not_mem_nil⟩
  obtain ⟨h1, -, h3⟩ := run_overcount hinit hops hr he
  rw [counts_iff_overcount h1.toTidy, ← h3]
  rfl

/-- "abc" into a window of two: "c" is not held, and counted. -/
theorem abc_counted : ∃ r ∈ Runs.run step (init 2) [.push [97, 98, 99] 0 false],
    r.unassembledBytes = 1 ∧ r.unassembleStrs = [] ∧ r.empty = false := by
  decide

/-- "bc" at its place, then "a", in a window of three. -/
theorem counts_iff_abc : ∃ r, Runs.run step (init 3) [.push [98, 99] 1 false, .push [97] 0 false] = some r ∧
    (Counts r ↔ Runs.Along step Keeps (init 3) [.push [98, 99] 1 false, .push [97] 0 false]) :=
  ⟨_, rfl, counts_iff (by simp [Sized]) (show Runs.run step (init 3) [.push [98, 99] 1 false, .push [97] 0 false] =
    some _ from rfl) (by decide)⟩

end StreamReassembler
end Sponge
