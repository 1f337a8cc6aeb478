/-
# The order of pushes

Pieces of a sequence `S` that fits the capacity, pushed with no read in
between, in any order: what was written is the longest prefix they cover, the
counter is the number of bytes they cover beyond it (`Collects`). Whether the
stream is ended is not settled by the pieces alone: a substring that starts at
the end of the window is dropped with its end of stream. That happens only if
`S` fills the window, and then all pushes agree iff some byte of `S` comes
with the end of stream in every piece (`order_independent_iff`).

Key definitions: `StreamReassembler.Has`, `OrderIndependence.Covered`,
`OrderIndependence.Collects`, `OrderIndependence.Ends`.
Key theorems: `StreamReassembler.merged_has`,
`StreamReassembler.assemble_has`, `OrderIndependence.run_collects`,
`OrderIndependence.order_independent_iff`.
-/
import Sponge.Counter

namespace Sponge
namespace StreamReassembler

open Pieces ByteStream

/-- Byte `x` was written or is stored. -/
def Has (r : StreamReassembler) (x : ℕ) : Prop := x < r.nextAssembledIdx ∨ Covers r.unassembleStrs x

section

variable {r r' : StreamReassembler} {data : Bytes} {index : ℕ}

theorem has_iff (r : StreamReassembler) (index x : ℕ) :
    r.Has x ↔ x < r.nextAssembledIdx ∨ Covers (r.left index) x ∨ Covers (r.right index) x := by
  rw [Has, ← covers_append, left_append_right]

/-- From the index to the new start nothing is missing. -/
theorem has_of_lt_start (r : StreamReassembler) {index x : ℕ} (hi : index ≤ x) (hlt : x < r.start index) :
    x < r.nextAssembledIdx ∨ Covers (r.left index) x := by
  unfold start at hlt
  cases hl : (r.left index).getLast? with
  | none =>
    rw [List.getLast?_eq_none_iff] at hl
    simp only [hl, stop] at hlt
    exact Or.inl (by omega)
  | some p =>
    have hmem := List.mem_of_getLast? hl
    have hle := (mem_left hmem).2
    rw [stop_of_getLast? hl] at hlt
    exact Or.inr ⟨p, hmem, by omega, by omega⟩

/-- After the merge there are the pieces at the left, the new bytes, and what
`trim` leaves. -/
theorem merged_has_iff (h : Tidy r) (hfit : (r.newData data index).length ≤ r.output.room) (x : ℕ) :
    (r.merged data index).Has x ↔ x < r.nextAssembledIdx ∨ Covers (r.left index) x ∨
      (r.start index ≤ x ∧ x < (trim (index + data.length) (r.right index)).2) ∨
        Covers (trim (index + data.length) (r.right index)).1 x := by
  have hlen := newData_length h data index
  unfold merged
  split_ifs with hlt
  · by_cases hn : r.start index = r.nextAssembledIdx
    · rw [store_write h hlt hn, left_eq_nil h hn]
      simp only [Has, if_neg (not_lt.mpr hfit), min_eq_right hfit, Covers, List.not_mem_nil, false_and, exists_false,
        false_or, ← or_assoc]
      exact or_congr_left (by omega)
    · rw [store_insert h hlt hn]
      simp only [Has, covers_append, covers_cons, hlen, Nat.add_sub_cancel' hlt.le]
  · have hempty : ¬ (r.start index ≤ x ∧ x < (trim (index + data.length) (r.right index)).2) := by omega
    rw [or_iff_right hempty]
    simp only [Has, clipped, covers_append]

/-- If the new bytes fit, the merge adds the substring. -/
theorem merged_has (h : Tidy r) (hfit : (r.newData data index).length ≤ r.output.room) (x : ℕ) :
    (r.merged data index).Has x ↔ r.Has x ∨ index ≤ x ∧ x < index + data.length := by
  have hor := h.right_ordered index
  have hend := (trim_spec (e := index + data.length) hor).1
  have hi := index_le_start r index
  rw [merged_has_iff h hfit, has_iff r index]
  constructor
  · rintro (hx | hx | hx | hx)
    · exact Or.inl (Or.inl hx)
    · exact Or.inl (Or.inr (Or.inl hx))
    · exact Or.inr (by omega)
    · obtain ⟨p, hp, h1⟩ := hx
      exact Or.inl (Or.inr (Or.inr ⟨p, (trim_suffix _ _).subset hp, h1⟩))
  · rintro ((hx | hx | hx) | ⟨h1, h2⟩)
    · exact Or.inl hx
    · exact Or.inr (Or.inl hx)
    · -- a stored piece at the right stays, or the new bytes cover it
      have hstart : r.start index ≤ x := by
        obtain ⟨p, hp, h1, -⟩ := hx
        exact (hor.le_key p hp).trans h1
      rcases covers_trim (e := index + data.length) hor x hx with hx | hx
      · exact Or.inr (Or.inr (Or.inr hx))
      · exact Or.inr (Or.inr (Or.inl ⟨hstart, hx⟩))
    · rcases lt_or_ge x (r.start index) with hlt | hge
      · exact (has_of_lt_start r h1 hlt).imp_right Or.inl
      · rcases lt_or_ge x (trim (index + data.length) (r.right index)).2 with hlt | hcut
        · exact Or.inr (Or.inr (Or.inl ⟨hge, hlt⟩))
        · exact Or.inr (Or.inr (Or.inr (trim_covers hor x h2 hcut)))

/-- A loop over pieces that all fit loses none, and stops at a gap. -/
theorem assemble_has {m : Store UInt8} {r r' : StreamReassembler} (ho : Ordered r.nextAssembledIdx m)
    (hfit : ∀ p ∈ m, p.1 + p.2.length ≤ r.nextAssembledIdx + r.output.room) (ha : assemble m r = some r') :
    (∀ x, r'.Has x ↔ x < r.nextAssembledIdx ∨ Covers m x) ∧ ∀ p ∈ r'.unassembleStrs, r'.nextAssembledIdx < p.1 := by
  induction m generalizing r with
  | nil =>
    obtain rfl := Option.some.inj ha
    exact ⟨fun _ => Iff.rfl, fun _ hp => absurd hp List.not_mem_nil⟩
  | cons p m ih =>
    obtain ⟨k, s⟩ := p
    obtain ⟨h1, h2, h3⟩ := ho
    have hs := hfit (k, s) List.mem_cons_self
    unfold assemble at ha
    rw [if_neg (not_lt.mpr h1)] at ha
    by_cases hk : k = r.nextAssembledIdx
    · subst hk
      have hroom : s.length ≤ r.output.room := by
        dsimp only at hs
        omega
      have hfst := ByteStream.write_fst r.output s
      rw [min_eq_right hroom] at hfst
      simp only [↓reduceIte, hfst, lt_irrefl] at ha
      obtain ⟨i1, i2⟩ := ih (r := { r with
        output := (r.output.write s).2
        nextAssembledIdx := r.nextAssembledIdx + s.length
        unassembledBytesNum := r.unassembledBytesNum - s.length }) h3 (fun q hq => by
          have := hfit q (List.mem_cons_of_mem _ hq)
          dsimp only
          rw [write_snd_room]
          omega) ha
      refine ⟨fun x => ?_, i2⟩
      rw [i1, covers_cons, ← or_assoc]
      exact or_congr_left (by dsimp only; omega)
    · rw [if_neg hk] at ha
      obtain rfl := Option.some.inj ha
      refine ⟨fun _ => Iff.rfl, fun q hq => ?_⟩
      rcases List.mem_cons.mp hq with rfl | hq
      · dsimp only
        omega
      · have := h3.le_key q hq
        dsimp only
        omega

end

end StreamReassembler

/-! ### Pieces pushed one after another -/

namespace OrderIndependence

open Pieces StreamReassembler

/-- A substring as it is pushed. -/
structure Piece where
  data : Bytes
  index : ℕ
  eof : Bool
  deriving DecidableEq

def push (r : StreamReassembler) (p : Piece) : Option StreamReassembler := r.pushSubstring p.data p.index p.eof

/-- A piece of `S`, with `eof` at the end of `S` only. -/
structure Piece.Of (p : Piece) (S : Bytes) : Prop where
  end_le : p.index + p.data.length ≤ S.length
  data_eq : p.data = (S.drop p.index).take p.data.length
  eof_end : p.eof = true → p.index + p.data.length = S.length

instance (p : Piece) (S : Bytes) : Decidable (p.Of S) :=
  decidable_of_iff (p.index + p.data.length ≤ S.length ∧ p.data = (S.drop p.index).take p.data.length ∧
    (p.eof = true → p.index + p.data.length = S.length))
    ⟨fun ⟨h1, h2, h3⟩ => ⟨h1, h2, h3⟩, fun ⟨h1, h2, h3⟩ => ⟨h1, h2, h3⟩⟩

/-- Byte `x` is in one of the pieces. -/
def Covered (l : List Piece) (x : ℕ) : Prop := ∃ p ∈ l, p.index ≤ x ∧ x < p.index + p.data.length

instance (l : List Piece) : DecidablePred (Covered l) := fun x =>
  inferInstanceAs (Decidable (∃ p ∈ l, p.index ≤ x ∧ x < p.index + p.data.length))

/-- The length of the longest prefix of `S` that the pieces cover. -/
def prefixLength (S : Bytes) (l : List Piece) : ℕ := Nat.findGreatest (fun n => ∀ x < n, Covered l x) S.length

/-- The number of bytes that they cover beyond it. -/
def beyond (S : Bytes) (l : List Piece) : ℕ := ((Finset.Ico (prefixLength S l) S.length).filter (Covered l)).card

/-- The pieces without the end of the stream. -/
def plain (l : List Piece) : List Piece := l.filter fun p => !p.eof

theorem covered_append {l l' : List Piece} {x : ℕ} : Covered (l ++ l') x ↔ Covered l x ∨ Covered l' x := by
  simp only [Covered, List.mem_append, or_and_right, exists_or]

theorem covered_singleton {p : Piece} {x : ℕ} : Covered [p] x ↔ p.index ≤ x ∧ x < p.index + p.data.length := by
  simp [Covered]

theorem covered_congr {l l' : List Piece} (h : ∀ p, p ∈ l ↔ p ∈ l') (x : ℕ) : Covered l x ↔ Covered l' x := by
  simp only [Covered, h]

/-- The reassembler after the pieces of `l`: it has the bytes they cover, it
stops at a gap, and it knows of the end of stream unless all that brought it
were dropped, which cover nothing that others do not. -/
structure Collects (S : Bytes) (capacity : ℕ) (l : List Piece) (r : StreamReassembler) : Prop
    extends Assembles S True [] r where
  error : r.output.error = false
  edge_eq : r.edge = capacity
  num : r.unassembledBytesNum = total r.unassembleStrs
  gap : ∀ q ∈ r.unassembleStrs, r.nextAssembledIdx < q.1
  has : ∀ x, r.Has x ↔ Covered l x
  ended_iff : r.output.inputEnded = true ↔ r.eofIdx ≤ r.nextAssembledIdx
  brought : r.eofIdx = S.length → ∃ p ∈ l, p.eof = true
  recorded : r.eofIdx = S.length ∨
    (∀ p ∈ l, p.eof = true → capacity ≤ S.length) ∧ ∀ x, Covered l x → Covered (plain l) x

namespace Collects

variable {S : Bytes} {capacity : ℕ} {l : List Piece} {r : StreamReassembler} {p : Piece}

theorem start (hS : S.length < 2 ^ 63) (capacity : ℕ) : Collects S capacity [] (init capacity) where
  toAssembles := Assembles.start S True capacity
  error := rfl
  edge_eq := Nat.zero_add capacity
  num := rfl
  gap := fun _ hq => absurd hq List.not_mem_nil
  has := fun x => by simp [Has, init, Covers, Covered]
  ended_iff := iff_of_false Bool.false_ne_true (by simp [init])
  brought := fun hc => by
    change 2 ^ 64 - 1 = S.length at hc
    omega
  recorded := Or.inr ⟨fun _ hp => absurd hp List.not_mem_nil, fun _ => id⟩

theorem next_le (h : Collects S capacity l r) : r.nextAssembledIdx ≤ S.length :=
  h.wf.next_eq.trans_le h.written_le

theorem firstUnacceptableIdx_eq (h : Collects S capacity l r) (hcap : capacity < 2 ^ 64) :
    r.firstUnacceptableIdx = capacity :=
  (StreamReassembler.firstUnacceptableIdx_eq h.wf.toTidy (h.edge_eq.trans_lt hcap)).trans h.edge_eq

/-- What is held ends within `S`. -/
theorem end_le {q : ℕ × Bytes} (hq : Holds S q) (hne : q.2 ≠ []) : q.1 + q.2.length ≤ S.length := by
  have h1 := hq.length_le
  have h2 := List.length_pos_of_ne_nil hne
  rw [List.length_drop] at h1
  omega

/-- Before the end of `S` the output is open, with room for the rest. -/
theorem room_of_lt (h : Collects S capacity l r) (hlt : r.nextAssembledIdx < S.length) :
    r.nextAssembledIdx + r.output.room = capacity := by
  have hend : r.output.inputEnded = false := by
    by_contra hc
    have h1 := (h.ended (by simpa using hc)).2
    have h2 := h.wf.next_eq
    omega
  rw [← h.edge_eq]
  exact room_eq h.wf.toTidy ⟨h.error, hend⟩

theorem newData_fits (h : Collects S capacity l r) (hle : S.length ≤ capacity) (hp : p.Of S) :
    (r.newData p.data p.index).length ≤ r.output.room := by
  have hend := (trim_spec (e := p.index + p.data.length) (h.wf.right_ordered p.index)).1
  have hnext := next_le_start h.wf.toTidy p.index
  have hpe := hp.end_le
  rw [newData_length h.wf.toTidy]
  rcases le_or_gt (trim (p.index + p.data.length) (r.right p.index)).2 (r.start p.index) with hc | hlt
  · omega
  · have := h.room_of_lt (by omega)
    omega

/-- A piece that starts to be new at the end of the window is dropped: it
has no new bytes, and its end of stream is not looked at. -/
theorem push_refused (h : Collects S capacity l r) (hS : S.length < 2 ^ 63) (hle : S.length ≤ capacity)
    (hcap : capacity < 2 ^ 64) (hp : p.Of S) (hw : capacity ≤ r.start p.index) : push r p = some r := by
  have hpe := hp.end_le
  have hn := h.next_le
  unfold push
  rw [pushSubstring_eq h.wf.toTidy (by omega) (by omega) (by omega), h.firstUnacceptableIdx_eq hcap, if_pos hw,
    (nothing_new h.wf.toTidy (by omega)).1]

theorem refused (h : Collects S capacity l r) (hle : S.length ≤ capacity) (hp : p.Of S)
    (hw : capacity ≤ r.start p.index) : Collects S capacity (l ++ [p]) r := by
  have hpe := hp.end_le
  -- its bytes are there already
  have hold : ∀ x, Covered [p] x → Covered l x := by
    intro x hx
    obtain ⟨h1, h2⟩ := covered_singleton.mp hx
    rw [← h.has]
    exact (has_of_lt_start r h1 (by omega)).imp_right fun ⟨q, hq, h3⟩ => ⟨q, (mem_left hq).1, h3⟩
  have hstart : r.start p.index ≤ S.length := by
    have hstop : stop r.nextAssembledIdx (r.left p.index) ≤ S.length := stop_le h.next_le fun q hq =>
      end_le (h.pieces q (mem_left hq).1) (h.wf.ordered.ne_nil q (mem_left hq).1)
    unfold StreamReassembler.start
    omega
  refine ⟨h.toAssembles, h.error, h.edge_eq, h.num, h.gap, fun x => ?_, h.ended_iff, fun hc => ?_, ?_⟩
  · rw [h.has, covered_append, or_iff_left_of_imp (hold x)]
  · obtain ⟨q, hq, heof⟩ := h.brought hc
    exact ⟨q, List.mem_append_left _ hq, heof⟩
  · refine h.recorded.imp_right fun ⟨_, h2⟩ => ⟨fun _ _ _ => by omega, fun x hx => ?_⟩
    rw [plain, List.filter_append, covered_append]
    rw [covered_append, or_iff_left_of_imp (hold x)] at hx
    exact Or.inl (h2 x hx)

/-- Another piece is merged and assembled, and its end of stream recorded. -/
theorem accepted (h : Collects S capacity l r) (hS : S.length < 2 ^ 63) (hle : S.length ≤ capacity)
    (hcap : capacity < 2 ^ 64) (hp : p.Of S) (hw : ¬ capacity ≤ r.start p.index) :
    ∃ r', push r p = some r' ∧ Collects S capacity (l ++ [p]) r' := by
  have hpe := hp.end_le
  have hn := h.next_le
  have hholds : Holds S (p.index, p.data) := List.prefix_iff_eq_take.mpr hp.data_eq
  obtain ⟨r', hr', hasm, -, -⟩ := h.toAssembles.push hS hholds (by omega) fun he => ⟨trivial, hp.eof_end he⟩
  refine ⟨r', hr', ?_⟩
  have hedge := pushSubstring_edge hr'
  have herror : r'.output.error = false := pushSubstring_induct (P := fun o => o.error = false)
    (fun o d ho => (ByteStream.write_snd_error o d).trans ho) (fun _ ho => ho) h.error hr'
  rw [pushSubstring_eq h.wf.toTidy (by omega) (by omega) (by omega), h.firstUnacceptableIdx_eq hcap,
    if_neg hw] at hr'
  obtain ⟨r₁, ha, rfl⟩ := Option.map_eq_some_iff.mp hr'
  obtain ⟨d, hm⟩ := merged_spec h.wf.toTidy p.data p.index
  have hpieces := hm.holds_pieces S hholds h.pieces
  -- everything that is stored fits
  have hfit : ∀ q ∈ (r.merged p.data p.index).unassembleStrs, q.1 + q.2.length ≤
      (r.merged p.data p.index).nextAssembledIdx + (r.merged p.data p.index).output.room := by
    intro q hq
    have h1 := end_le (hpieces q hq) (hm.ordered.ne_nil q hq)
    have h2 := hm.ordered.le_key q hq
    have h3 := List.length_pos_of_ne_nil (hm.ordered.ne_nil q hq)
    have h4 := hm.next
    have h5 := hm.wrote.room
    have h6 := h.room_of_lt (by omega)
    omega
  have hstrict : ∀ q ∈ (r.merged p.data p.index).unassembleStrs, q.1 <
      (r.merged p.data p.index).nextAssembledIdx + (r.merged p.data p.index).output.room := by
    intro q hq
    have h1 := hfit q hq
    have h2 := List.length_pos_of_ne_nil (hm.ordered.ne_nil q hq)
    omega
  obtain ⟨hhas, hgap⟩ := assemble_has hm.ordered hfit ha
  have hcount := (assemble_count hm.ordered hm.total_le ha).2 (not_meetsFull hstrict)
  have hmcount := merged_count h.wf.toTidy p.data p.index
  obtain ⟨d', hs⟩ := assembled_of_eq hm.ordered hm.total_le ha
  have hended : r₁.output.inputEnded = r.output.inputEnded := hs.wrote.inputEnded.trans hm.wrote.inputEnded
  have hnext : r.nextAssembledIdx ≤ r₁.nextAssembledIdx := by
    rw [hs.next, hm.next]
    omega
  have hidx : (r₁.finish (p.index + p.data.length) p.eof).eofIdx = if p.eof = true then S.length else r.eofIdx := by
    rw [finish_eofIdx]
    split_ifs with heof
    · exact hp.eof_end heof
    · exact hs.eof.trans hm.eof
  refine ⟨hasm, herror, hedge.trans h.edge_eq, ?_, hgap, fun x => ?_, ?_, fun hc => ?_, ?_⟩
  · have hnum := h.num
    show r₁.unassembledBytesNum = total r₁.unassembleStrs
    omega
  · show r₁.Has x ↔ _
    rw [covered_append, covered_singleton, ← h.has, ← merged_has h.wf.toTidy (h.newData_fits hle hp)]
    exact hhas x
  · rw [finish_inputEnded, hended]
    refine or_iff_right_of_imp fun hc => ?_
    have h1 := h.ended_iff.mp hc
    have h2 := (h.ended hc).2
    have h3 := h.wf.next_eq
    rw [hidx]
    split_ifs <;> omega
  · rw [hidx] at hc
    split_ifs at hc with heof
    · exact ⟨p, List.mem_append_right _ List.mem_cons_self, heof⟩
    · obtain ⟨q, hq, hqe⟩ := h.brought hc
      exact ⟨q, List.mem_append_left _ hq, hqe⟩
  · rw [hidx]
    split_ifs with heof
    · exact Or.inl rfl
    · refine h.recorded.imp_right fun ⟨h1, h2⟩ => ⟨fun q hq hqe => ?_, fun x hx => ?_⟩
      · rcases List.mem_append.mp hq with hq | hq
        · exact h1 q hq hqe
        · exact absurd (List.mem_singleton.mp hq ▸ hqe) heof
      · have hplain : plain (l ++ [p]) = plain l ++ [p] := by simp [plain, heof]
        rw [hplain, covered_append]
        exact (covered_append.mp hx).imp_left (h2 x)

theorem push (h : Collects S capacity l r) (hS : S.length < 2 ^ 63) (hle : S.length ≤ capacity)
    (hcap : capacity < 2 ^ 64) (hp : p.Of S) : ∃ r', push r p = some r' ∧ Collects S capacity (l ++ [p]) r' := by
  by_cases hw : capacity ≤ r.start p.index
  · exact ⟨r, h.push_refused hS hle hcap hp hw, h.refused hle hp hw⟩
  · exact h.accepted hS hle hcap hp hw

/-- The output stops where the longest prefix does. -/
theorem next_eq_prefixLength (h : Collects S capacity l r) : r.nextAssembledIdx = prefixLength S l := by
  have hspec : ∀ x < prefixLength S l, Covered l x :=
    Nat.findGreatest_spec (P := fun n => ∀ x < n, Covered l x) (Nat.zero_le _)
      fun x hx => absurd hx (Nat.not_lt_zero x)
  apply le_antisymm
  · exact Nat.le_findGreatest h.next_le fun x hx => (h.has x).mp (Or.inl hx)
  · by_contra hc
    rcases (h.has _).mpr (hspec _ (not_le.mp hc)) with hlt | ⟨q, hq, hle, -⟩
    · exact lt_irrefl _ hlt
    · exact absurd (h.gap q hq) (not_lt.mpr hle)

/-- The counter is the number of bytes beyond. -/
theorem num_eq_beyond (h : Collects S capacity l r) : r.unassembledBytesNum = beyond S l := by
  have hstop : stop r.nextAssembledIdx r.unassembleStrs ≤ S.length := stop_le h.next_le fun q hq =>
    end_le (h.pieces q hq) (h.wf.ordered.ne_nil q hq)
  rw [h.num, h.wf.ordered.total_eq_card hstop, beyond, ← h.next_eq_prefixLength]
  congr 1
  refine Finset.filter_congr fun x hx => ?_
  rw [← h.has, Has, or_iff_right (not_lt.mpr (Finset.mem_Ico.mp hx).1)]

/-- All of `S` is written iff the pieces cover it. -/
theorem next_eq_iff (h : Collects S capacity l r) :
    r.nextAssembledIdx = S.length ↔ ∀ x < S.length, Covered l x := by
  constructor
  · intro hn x hx
    exact (h.has x).mp (Or.inl (by omega))
  · intro hall
    rw [h.next_eq_prefixLength]
    exact le_antisymm (Nat.findGreatest_le _) (Nat.le_findGreatest le_rfl hall)

theorem ended_iff_covered (h : Collects S capacity l r) (hS : S.length < 2 ^ 63) :
    r.output.inputEnded = true ↔ (∀ x < S.length, Covered l x) ∧ r.eofIdx = S.length := by
  have hn := h.next_le
  rw [h.ended_iff, ← h.next_eq_iff]
  rcases h.eof with heof | ⟨-, heof⟩ <;> omega

end Collects

variable {S : Bytes} {capacity : ℕ}

theorem run_collects (hS : S.length < 2 ^ 63) (hle : S.length ≤ capacity) (hcap : capacity < 2 ^ 64)
    {l₀ l : List Piece} {r : StreamReassembler} (h : Collects S capacity l₀ r) (hl : ∀ p ∈ l, p.Of S) :
    ∃ r', Runs.run push r l = some r' ∧ Collects S capacity (l₀ ++ l) r' := by
  induction l generalizing l₀ r with
  | nil => exact ⟨r, rfl, by rwa [List.append_nil]⟩
  | cons p l ih =>
    obtain ⟨r₁, h1, h2⟩ := h.push hS hle hcap (hl p List.mem_cons_self)
    obtain ⟨r', h3, h4⟩ := ih h2 fun q hq => hl q (List.mem_cons_of_mem _ hq)
    rw [List.append_assoc] at h4
    exact ⟨r', Runs.run_cons.mpr ⟨r₁, h1, h3⟩, h4⟩

/-- What the pieces alone say about the reassembler after them. -/
structure Ends (S : Bytes) (l : List Piece) (r : StreamReassembler) : Prop where
  written : r.output.bytesWritten = prefixLength S l
  unassembled : r.unassembledBytes = beyond S l
  ended : r.output.inputEnded = true ↔ (∀ x < S.length, Covered l x) ∧ ∃ p ∈ l, p.eof = true

/-- No order of the pieces drops the end of the stream: `S` does not fill the
window, or some byte comes with the end of stream only, or none brings it. -/
def Settled (S : Bytes) (capacity : ℕ) (l : List Piece) : Prop :=
  S.length < capacity ∨ (∃ x < S.length, ¬ Covered (plain l) x) ∨ ∀ p ∈ l, p.eof = false

instance (S : Bytes) (capacity : ℕ) (l : List Piece) : Decidable (Settled S capacity l) :=
  inferInstanceAs (Decidable (_ ∨ _ ∨ _))

theorem Collects.ends {l : List Piece} {r : StreamReassembler} (h : Collects S capacity l r) (hS : S.length < 2 ^ 63)
    (hset : Settled S capacity l) : Ends S l r where
  written := h.wf.next_eq.symm.trans h.next_eq_prefixLength
  unassembled := h.num_eq_beyond
  ended := by
    rw [h.ended_iff_covered hS]
    refine and_congr_right fun hall => ⟨h.brought, fun ⟨p, hp, heof⟩ => ?_⟩
    refine h.recorded.resolve_right fun ⟨hfull, hcov⟩ => ?_
    rcases hset with hlt | ⟨x, hx, hc⟩ | hnone
    · have := hfull p hp heof
      omega
    · exact hc (hcov x (hall x hx))
    · exact Bool.false_ne_true ((hnone p hp).symm.trans heof)

/-- Once the output is full, every further piece is dropped. -/
theorem run_full (hS : S.length < 2 ^ 63) (hle : S.length ≤ capacity) (hcap : capacity < 2 ^ 64) {l₀ l : List Piece}
    {r : StreamReassembler} (h : Collects S capacity l₀ r) (hfull : r.nextAssembledIdx = capacity)
    (hl : ∀ p ∈ l, p.Of S) : Runs.run push r l = some r := by
  induction l generalizing l₀ with
  | nil => rfl
  | cons p l ih =>
    have hp := hl p List.mem_cons_self
    have hw : capacity ≤ r.start p.index := hfull.symm.trans_le (next_le_start h.wf.toTidy p.index)
    apply Runs.run_cons.mpr
    exact ⟨r, h.push_refused hS hle hcap hp hw, ih (h.refused hle hp hw) fun q hq => hl q (List.mem_cons_of_mem _ hq)⟩

theorem Ends.congr {l l' : List Piece} (hl : ∀ p, p ∈ l' ↔ p ∈ l) {r : StreamReassembler} (h : Ends S l' r) :
    Ends S l r := by
  have hcov : Covered l' = Covered l := funext fun x => propext (covered_congr hl x)
  have hpre : prefixLength S l' = prefixLength S l := by
    simp only [prefixLength, hcov]
  refine ⟨h.written.trans hpre, h.unassembled.trans ?_, ?_⟩
  · rw [beyond, beyond, hpre]
    exact congrArg Finset.card (Finset.filter_congr fun x _ => covered_congr hl x)
  · rw [h.ended, hcov]
    simp only [hl]

/-- **The order of the pieces does not matter**, for what is written and for
the counter, and for the end of the stream iff `Settled`. -/
theorem order_independent_iff (hS : S.length < 2 ^ 63) (hle : S.length ≤ capacity) (hcap : capacity < 2 ^ 64)
    {l : List Piece} (hl : ∀ p ∈ l, p.Of S) :
    (∀ l', l'.Perm l → ∃ r, Runs.run push (init capacity) l' = some r ∧ Ends S l r) ↔ Settled S capacity l := by
  constructor
  · intro hall
    by_contra hset
    simp only [Settled, not_or, not_exists, not_and, not_not, not_lt, not_forall, Bool.not_eq_false] at hset
    obtain ⟨hge, hcov, p, hp, heof⟩ := hset
    -- first the pieces without the end of the stream, which fill the window
    have hperm : (plain l ++ l.filter fun p => p.eof).Perm l := calc
      List.Perm _ ((l.filter fun p => p.eof) ++ plain l) := List.perm_append_comm
      List.Perm _ l := List.filter_append_perm (fun p => p.eof) l
    have hplain : ∀ q ∈ plain l, q.Of S := fun q hq => hl q (List.mem_filter.mp hq).1
    obtain ⟨r₁, h1, h2⟩ := run_collects hS hle hcap (Collects.start hS capacity) hplain
    rw [List.nil_append] at h2
    have hnext := h2.next_eq_iff.mpr hcov
    have hrest : Runs.run push r₁ (l.filter fun p => p.eof) = some r₁ :=
      run_full hS hle hcap h2 (by omega) fun q hq => hl q (List.mem_filter.mp hq).1
    obtain ⟨r, hr, hends⟩ := hall _ hperm
    rw [Runs.run_append, h1, Option.bind_some, hrest] at hr
    obtain rfl := Option.some.inj hr
    have hlcov : ∀ x < S.length, Covered l x := fun x hx => by
      obtain ⟨q, hq, h3⟩ := hcov x hx
      exact ⟨q, (List.mem_filter.mp hq).1, h3⟩
    have hend := hends.ended.mpr ⟨hlcov, p, hp, heof⟩
    obtain ⟨q, hq, hqe⟩ := h2.brought ((h2.ended_iff_covered hS).mp hend).2
    have := (List.mem_filter.mp hq).2
    rw [hqe] at this
    exact Bool.false_ne_true this
  · intro hset l' hperm
    obtain ⟨r, hr, h⟩ := run_collects hS hle hcap (Collects.start hS capacity) fun p hp => hl p (hperm.mem_iff.mp hp)
    rw [List.nil_append] at h
    have hmem : ∀ p, p ∈ l' ↔ p ∈ l := fun p => hperm.mem_iff
    have hmem' : ∀ p, p ∈ plain l ↔ p ∈ plain l' := fun p => by simp only [plain, List.mem_filter, hmem]
    refine ⟨r, hr, Ends.congr hmem (h.ends hS ?_)⟩
    refine hset.imp_right (Or.imp (fun ⟨x, hx, hc⟩ => ⟨x, hx, ?_⟩) fun hnone p hp => hnone p ((hmem p).mp hp))
    rwa [← covered_congr hmem' x]

/-- "ab" fills a window of two; the "b" that brings the end of the stream is
dropped if it comes second, and ends the stream if it comes first. -/
theorem late_eof_dropped :
    (∀ p ∈ [(⟨[97, 98], 0, false⟩ : Piece), ⟨[98], 1, true⟩], p.Of [97, 98]) ∧
    (∃ r ∈ Runs.run push (init 2) [⟨[97, 98], 0, false⟩, ⟨[98], 1, true⟩], r.output.inputEnded = false) ∧
      ∃ r ∈ Runs.run push (init 2) [⟨[98], 1, true⟩, ⟨[97, 98], 0, false⟩], r.output.inputEnded = true := by
  decide

/-- The same pieces, in a window of three. -/
theorem order_independent_iff_ab :
    (∀ l', l'.Perm [⟨[97, 98], 0, false⟩, ⟨[98], 1, true⟩] → ∃ r, Runs.run push (init 3) l' = some r ∧
      Ends [97, 98] [⟨[97, 98], 0, false⟩, ⟨[98], 1, true⟩] r) ↔
        Settled [97, 98] 3 [⟨[97, 98], 0, false⟩, ⟨[98], 1, true⟩] :=
  order_independent_iff (by decide) (by decide) (by decide) (by decide)

end OrderIndependence
end Sponge
