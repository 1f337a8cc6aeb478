/-
# Any pushes at all

Substrings with any content at any 64-bit index, while the owner reads, ends
or resets the output. The stored pieces should stay apart from one another and
from what is assembled, and no push should fail. A push does arithmetic on
64-bit numbers that may wrap: the size left of a substring that ends more than
2^63 bytes before the assembled part, and the end of one that reaches past
2^64. If the window is closed or the substring past it, nothing comes of it
(`push_any`). If not (`Wraps`), the first makes `substr` throw
(`behind_throws_iff`).

Key definitions: `StreamReassembler.Call`, `StreamReassembler.Wraps`,
`StreamReassembler.Sound`.
Key theorems: `StreamReassembler.push_any`,
`StreamReassembler.any_pushes_sound`.
-/
import Sponge.Window

namespace Sponge
namespace StreamReassembler

open Pieces ByteStream

/-- A substring from anywhere, or a call of the output's owner. -/
inductive Call where
  | pushSubstring (data : Bytes) (index : ℕ) (eof : Bool)
  | read (len : ℕ)
  | endInput
  | setError
  deriving DecidableEq

def call (r : StreamReassembler) : Call → Option StreamReassembler
  | .pushSubstring data index eof => r.pushSubstring data index eof
  | .read len => some (r.read len).2
  | .endInput => some { r with output := r.output.endInput }
  | .setError => some { r with output := r.output.setError }

/-- Strings shorter than 2^62 at `size_t` indices. -/
def Call.Sized : Call → Prop
  | .pushSubstring data index _ => data.length < 2 ^ 62 ∧ index < 2 ^ 64
  | _ => True

/-- The sums of a push that goes on wrap: the window ends below 2^64, and the
substring ends more than 2^63 bytes before the assembled part, whose window is
open, or starts before the window's end and ends past 2^64. -/
def Wraps (r : StreamReassembler) (data : Bytes) (index : ℕ) : Prop :=
  r.edge < 2 ^ 64 ∧
    (index + data.length + 2 ^ 63 < r.nextAssembledIdx ∧ r.nextAssembledIdx < r.edge ∨
      2 ^ 64 ≤ index + data.length ∧ index < r.edge)

/-- The calls whose sums do not wrap. -/
def InRange (r : StreamReassembler) : Call → Prop
  | .pushSubstring data index _ => ¬ r.Wraps data index
  | _ => True

instance (c : Call) : Decidable c.Sized := by
  cases c <;> unfold Call.Sized <;> infer_instance

instance (r : StreamReassembler) (data : Bytes) (index : ℕ) : Decidable (r.Wraps data index) :=
  inferInstanceAs (Decidable (_ ∧ _))

instance (r : StreamReassembler) (c : Call) : Decidable (r.InRange c) := by
  cases c <;> unfold InRange <;> infer_instance

/-- The stored pieces are not empty, apart from each other, and none starts
before what is assembled, which is what was written. -/
structure Sound (r : StreamReassembler) : Prop where
  ne_nil : ∀ p ∈ r.unassembleStrs, p.2 ≠ []
  apart : r.unassembleStrs.Pairwise fun p q => p.1 + p.2.length ≤ q.1 ∨ q.1 + q.2.length ≤ p.1
  next_le : ∀ p ∈ r.unassembleStrs, r.nextAssembledIdx ≤ p.1
  next_eq : r.nextAssembledIdx = r.output.bytesWritten

theorem Tidy.sound {r : StreamReassembler} (h : Tidy r) : Sound r where
  ne_nil := h.ordered.ne_nil
  apart := h.ordered.pairwise.imp Or.inl
  next_le := h.ordered.le_key
  next_eq := h.next_eq

/-! ### One call -/

/-- What every call keeps. -/
structure Bounded (r : StreamReassembler) : Prop extends WF r where
  cap_lt : r.output.capacity < 2 ^ 62
  next_lt : r.nextAssembledIdx < 2 ^ 64

theorem init_bounded {capacity : ℕ} (hc : capacity < 2 ^ 62) : Bounded (init capacity) :=
  ⟨init_wf capacity, hc, by simp [init]⟩

theorem endInput_wf {r : StreamReassembler} (h : WF r) : WF { r with output := r.output.endInput } :=
  ⟨⟨h.ordered, h.next_eq, h.cap_eq, h.end_lt, h.len_lt, h.total_le⟩, fun hc => by cases hc⟩

section

variable {r : StreamReassembler} {data : Bytes} {index : ℕ}

/-- A window whose end wraps is closed. -/
theorem closed_of_edge (h : Bounded r) (he : 2 ^ 64 ≤ r.edge) : r.firstUnacceptableIdx ≤ r.nextAssembledIdx := by
  have h1 := r.output.count
  have h2 := h.next_eq
  have h3 := h.cap_eq
  have h4 := r.output.fits
  have h5 := h.cap_lt
  have h6 := h.next_lt
  unfold edge at he
  unfold firstUnacceptableIdx
  omega

/-- Where the window ends: at its edge, or before all that is new. -/
theorem window_cases (h : Bounded r) :
    r.edge < 2 ^ 64 ∧ r.firstUnacceptableIdx = r.edge ∨ r.firstUnacceptableIdx ≤ r.nextAssembledIdx := by
  rcases lt_or_ge r.edge (2 ^ 64) with he | he
  · exact Or.inl ⟨he, firstUnacceptableIdx_eq h.toTidy he⟩
  · exact Or.inr (closed_of_edge h he)

/-- A push keeps the bounds, whatever it writes. -/
theorem pushed_bounded (h : Bounded r) {eof : Bool} {r' : StreamReassembler} {d : Bytes}
    (hp : Pushed r data index eof r' d) (hd : r.firstUnacceptableIdx ≤ r.start index → d = []) : Bounded r' := by
  refine ⟨hp.wf, hp.capacity.trans_lt h.cap_lt, ?_⟩
  rcases window_cases h with ⟨he, -⟩ | hclosed
  · calc r'.nextAssembledIdx ≤ r'.edge := next_le_edge' hp.wf.toTidy
      _ = r.edge := by rw [edge, hp.bytesRead, hp.capacity, edge]
      _ < 2 ^ 64 := he
  · rw [hp.next, hd (hclosed.trans (next_le_start h.toTidy index))]
    exact h.next_lt

/-- A push far behind the assembled part fails iff the window is open. -/
theorem behind_throws_iff (h : Bounded r) (hb : index + data.length + 2 ^ 63 < r.nextAssembledIdx) (eof : Bool) :
    r.pushSubstring data index eof = none ↔ r.Wraps data index := by
  have hw : r.Wraps data index ↔ r.nextAssembledIdx < r.firstUnacceptableIdx := by
    have hnext := h.next_lt
    unfold Wraps
    rcases window_cases h with ⟨he, hfu⟩ | hclosed
    · omega
    · have hfu := fun he => firstUnacceptableIdx_eq h.toTidy (r := r) he
      omega
  rw [pushSubstring_behind h.toTidy h.next_lt hb, hw]
  split
  · rename_i hle
    exact iff_of_false (fun hc => by cases hc) (not_lt.mpr hle)
  · rename_i hlt
    exact iff_of_true rfl (not_le.mp hlt)

/-- A push whose sums do not wrap returns and keeps the bounds. -/
theorem push_any (h : Bounded r) (hd : data.length < 2 ^ 62) (hi : index < 2 ^ 64) (hw : ¬ r.Wraps data index)
    (eof : Bool) : ∃ r', r.pushSubstring data index eof = some r' ∧ Bounded r' := by
  have hnear := start_near h.toTidy index
  rcases lt_or_ge (index + data.length) (2 ^ 64) with he | he
  · by_cases hs : r.start index ≤ index + data.length + 2 ^ 63
    · obtain ⟨r', d, hr', hp, hnil⟩ := push_exact h.toWF hs (by omega) he eof
      exact ⟨r', hr', pushed_bounded h hp hnil⟩
    · -- the new start is where the assembled part ends
      have hb : index + data.length + 2 ^ 63 < r.nextAssembledIdx := by omega
      have hsome := mt (behind_throws_iff h hb eof).mp hw
      rw [pushSubstring_behind h.toTidy h.next_lt hb] at hsome ⊢
      split at hsome
      · rw [if_pos ‹_›]
        exact ⟨r, rfl, h⟩
      · exact absurd rfl hsome
  · have hpast : r.firstUnacceptableIdx ≤ r.start index := by
      have h1 := index_le_start r index
      have h2 := next_le_start h.toTidy index
      unfold Wraps at hw
      rcases window_cases h with ⟨hedge, hfu⟩ | hclosed
      · omega
      · omega
    exact ⟨r, pushSubstring_past h.toTidy h.next_lt (by omega) hi he hpast eof, h⟩

end

theorem read_bounded {r : StreamReassembler} (h : Bounded r) (len : ℕ) : Bounded (r.read len).2 :=
  ⟨read_wf h.toWF len, (popOutput_capacity _ _).trans_lt h.cap_lt, h.next_lt⟩

theorem call_bounded {r : StreamReassembler} {c : Call} (h : Bounded r) (hc : c.Sized) (hw : r.InRange c) :
    ∃ r', r.call c = some r' ∧ Bounded r' := by
  cases c with
  | pushSubstring data index eof => exact push_any h hc.1 hc.2 hw eof
  | read len => exact ⟨_, rfl, read_bounded h len⟩
  | endInput => exact ⟨_, rfl, endInput_wf h.toWF, h.cap_lt, h.next_lt⟩
  | setError => exact ⟨_, rfl, setError_wf h.toWF, h.cap_lt, h.next_lt⟩

/-! ### Runs -/

/-- **While no sum of a push that goes on wraps, no call fails and the store
is sound**, whatever is pushed, on the way and at the end. -/
theorem any_pushes_sound {capacity : ℕ} (hc : capacity < 2 ^ 62) {calls : List Call} (hs : ∀ c ∈ calls, c.Sized)
    (hw : Runs.Along call InRange (init capacity) calls) :
    ∀ calls₁, calls₁ <+: calls → ∃ r, Runs.run call (init capacity) calls₁ = some r ∧ Sound r := by
  rintro calls₁ ⟨calls₂, rfl⟩
  have hs₁ : ∀ c ∈ calls₁, c.Sized := fun c hc => hs c (List.mem_append_left _ hc)
  have hok : Runs.Along call (fun r c => InRange r c ∧ c.Sized) (init capacity) calls₁ :=
    Runs.along_and.mpr ⟨(Runs.along_append.mp hw).1, Runs.along_of_forall hs₁⟩
  obtain ⟨r, hr, hb⟩ := Runs.run_total_along (fun r c h hc => call_bounded h hc.2 hc.1) (init_bounded hc) hok
  exact ⟨r, hr, hb.toTidy.sound⟩

/-- Pieces that overlap, contradict each other and come before the first byte,
then the end of the output. -/
def scattered : List Call :=
  [.pushSubstring [3, 4] 3 false, .pushSubstring [9, 9, 9] 2 true, .pushSubstring [0] (2 ^ 64 - 1) true, .read 1,
    .pushSubstring [0, 1, 7, 7] 0 false, .read 2, .setError, .pushSubstring [8, 8] 4 false, .endInput]

theorem any_pushes_sound_scattered : ∃ r, Runs.run call (init 4) scattered = some r ∧ Sound r :=
  any_pushes_sound (by decide) (by decide) (by decide) scattered (List.prefix_refl _)

/-! ### A long stream, and its first byte again -/

/-- The `n` bytes written are all read. -/
def readOut (c n : ℕ) : ByteStream := { ByteStream.init c with bytesWritten := n, bytesRead := n, count := rfl }

/-- And nothing is stored. -/
def drained (c n : ℕ) : StreamReassembler := { init c with nextAssembledIdx := n, output := readOut c n }

theorem drained_bounded {c n : ℕ} (hc : c < 2 ^ 62) (hn : n < 2 ^ 64 - 1) : Bounded (drained c n) where
  ordered := trivial
  next_eq := rfl
  cap_eq := rfl
  end_lt := fun _ hp => by cases hp
  len_lt := fun _ hp => by cases hp
  total_le := le_rfl
  eof_gt := fun _ => hn
  cap_lt := hc
  next_lt := by simp only [drained]; omega

/-- A full window is pushed in order and read. -/
def round (c i : ℕ) : List Call := [.pushSubstring (List.replicate c 0) (i * c) false, .read c]

def rounds (c n : ℕ) : List Call := (List.range n).flatMap (round c)

/-- A string that fills the stream is read in one piece. -/
theorem readOut_write {c : ℕ} (n : ℕ) (hpos : 0 < c) :
    ((readOut c n).write (List.replicate c 0)).1 = c ∧
      ((readOut c n).write (List.replicate c 0)).2.popOutput c = readOut c (n + c) := by
  have hne : c ≠ 0 := hpos.ne'
  simp [write, popOutput, eof, readOut, ByteStream.init, hne]

/-- A string that fills the window, pushed in order, is written. -/
theorem push_drained {c n : ℕ} (hpos : 0 < c) (hc : c < 2 ^ 62) (hn : n + c < 2 ^ 64 - 1) :
    (drained c n).pushSubstring (List.replicate c 0) n false = some
      { drained c (n + c) with output := ((readOut c n).write (List.replicate c 0)).2 } := by
  have hb := drained_bounded hc (show n < 2 ^ 64 - 1 by omega)
  have hlen : (List.replicate c (0 : UInt8)).length = c := List.length_replicate
  have hstart : (drained c n).start n = n := max_self n
  have hfu : (drained c n).firstUnacceptableIdx = n + c :=
    firstUnacceptableIdx_eq hb.toTidy (show n + c < 2 ^ 64 by omega)
  have hnew : (drained c n).newData (List.replicate c 0) n = List.replicate c 0 := by
    change ((List.replicate c 0).drop ((drained c n).start n - n)).take
      (n + (List.replicate c (0 : UInt8)).length - (drained c n).start n) = _
    rw [hstart, hlen, Nat.sub_self, List.drop_zero, Nat.add_sub_cancel_left, List.take_of_length_le hlen.le]
  have hm : (drained c n).merged (List.replicate c 0) n =
      { drained c (n + c) with output := ((readOut c n).write (List.replicate c 0)).2 } := by
    have hclip : (drained c n).clipped (List.replicate c 0) n = drained c n := rfl
    have hlt : n < (trim (n + (List.replicate c (0 : UInt8)).length) ((drained c n).right n)).2 := by
      change n < n + (List.replicate c (0 : UInt8)).length
      omega
    have hfst : ((drained c n).output.write (List.replicate c 0)).1 = c := (readOut_write n hpos).1
    unfold merged store
    rw [hstart, if_pos hlt, hnew, hclip, if_pos (show n = (drained c n).nextAssembledIdx from rfl)]
    simp only [hfst, hlen, lt_irrefl, ↓reduceIte]
    rfl
  have heof : ¬ (2 ^ 64 - 1 ≤ n + c) := not_le.mpr hn
  rw [pushSubstring_exact hb.toTidy (by omega) (by omega) (by omega), hstart, hfu, if_neg (by omega), hm]
  simp only [assemble, finish, drained, init, Option.map_some, heof, ↓reduceIte, Bool.false_eq_true]

/-- And the reader takes it. -/
theorem round_drained {c n : ℕ} (hpos : 0 < c) (hc : c < 2 ^ 62) (hn : (n + 1) * c < 2 ^ 64 - 1) :
    Runs.run call (drained c (n * c)) (round c n) = some (drained c ((n + 1) * c)) := by
  rw [Nat.succ_mul] at hn ⊢
  refine Runs.run_cons.mpr ⟨_, push_drained hpos hc hn, Runs.run_cons.mpr ⟨_, rfl, ?_⟩⟩
  simp only [Runs.run, read, ByteStream.read, (readOut_write (n * c) hpos).2]
  rfl

theorem rounds_drained {c : ℕ} (hpos : 0 < c) (hc : c < 2 ^ 62) : ∀ {n : ℕ}, n * c < 2 ^ 64 - 1 →
    Runs.run call (init c) (rounds c n) = some (drained c (n * c))
  | 0, _ => by
    rw [Nat.zero_mul]
    rfl
  | n + 1, hn => by
    have hn' : n * c < 2 ^ 64 - 1 := by
      rw [Nat.succ_mul] at hn
      omega
    unfold rounds
    rw [List.range_succ, List.flatMap_append]
    refine Runs.run_append_eq_some.mpr ⟨_, rounds_drained hpos hc hn', ?_⟩
    rw [List.flatMap_cons, List.flatMap_nil, List.append_nil]
    exact round_drained hpos hc hn

theorem rounds_sized {c n : ℕ} (hc : c < 2 ^ 62) (hn : n * c < 2 ^ 64) : ∀ x ∈ rounds c n, x.Sized := by
  intro x hx
  obtain ⟨i, hi, hx⟩ := List.mem_flatMap.mp hx
  have hle := Nat.mul_le_mul_right c (List.mem_range.mp hi).le
  simp only [round, List.mem_cons, List.not_mem_nil, or_false] at hx
  rcases hx with rfl | rfl
  · exact ⟨by rw [List.length_replicate]; exact hc, by omega⟩
  · trivial

/-- 2^63 bytes and 64 KiB more, in order and read at once, then one byte at
the first index again. -/
def rewound : List Call := rounds 65536 (2 ^ 47 + 1) ++ [.pushSubstring [0] 0 false]

theorem rewound_sized : ∀ c ∈ rewound, c.Sized := by
  intro c hc
  rcases List.mem_append.mp hc with hc | hc
  · exact rounds_sized (by norm_num) (by norm_num) c hc
  · obtain rfl := List.mem_singleton.mp hc
    decide

/-- The last push throws. -/
theorem rewound_throws : ¬ ∀ capacity < 2 ^ 62, ∀ calls : List Call, (∀ c ∈ calls, c.Sized) →
    ∃ r, Runs.run call (init capacity) calls = some r ∧ Sound r := by
  intro h
  obtain ⟨r, hr, -⟩ := h 65536 (by norm_num) rewound rewound_sized
  unfold rewound at hr
  obtain ⟨r₁, h1, h2⟩ := Runs.run_append_eq_some.mp hr
  rw [rounds_drained (by norm_num) (by norm_num) (by norm_num)] at h1
  obtain rfl := Option.some.inj h1
  obtain ⟨r₂, h3, -⟩ := Runs.run_cons.mp h2
  have hb := drained_bounded (c := 65536) (n := (2 ^ 47 + 1) * 65536) (by norm_num) (by norm_num)
  have hfar : 0 + ([0] : Bytes).length + 2 ^ 63 < (drained 65536 ((2 ^ 47 + 1) * 65536)).nextAssembledIdx := by
    norm_num [drained]
  have hnone := (behind_throws_iff hb hfar false).mpr (by decide)
  cases hnone.symm.trans h3

end StreamReassembler
end Sponge
