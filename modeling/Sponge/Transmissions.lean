/-
# What the sender transmits

A sender with two records beside it: the bytes its stream accepted, and the
segments it sent for the first time, in order. The segments follow one
another from sequence number 0 on without a gap; the first is the SYN, their
payloads are the bytes read from the stream, and a FIN ends them. What is
outstanding is what of them is not wholly acknowledged (`unacked`), and a
retransmission is a copy of the oldest of that. Sequence numbers are naturals
here, so the 64 bits of the source set no bound.

Key definitions: `Sending.step`, `TCPSender.unacked`, `Sending.Transmits`.
Key theorems: `TCPSender.Log.sent`, `TCPSender.Log.ackReceived`,
`Sending.transmits`.
-/
import Sponge.FlowControl

namespace Sponge
namespace TCPSender

variable {s s' : TCPSender} {first : List TCPSegment} {accepted : Bytes}

/-- The bytes the segments carry. -/
def payloads (segs : List TCPSegment) : Bytes := segs.flatMap (·.payload)

/-- Of the segments, numbered from `a` on, those that end past `k`. -/
def unacked (k : ℕ) : ℕ → List TCPSegment → List TCPSegment
  | _, [] => []
  | a, seg :: segs =>
    if k < a + seg.lengthInSequenceSpace then seg :: unacked k (a + seg.lengthInSequenceSpace) segs
    else unacked k (a + seg.lengthInSequenceSpace) segs

/-- Every acknowledgment number is that of an absolute number. -/
theorem exists_wrap (ackno isn : WrappingInt32) : ∃ a, wrap a isn = ackno := by
  have h1 := ackno.rawValue.toNat_lt
  have h2 := isn.rawValue.toNat_lt
  refine ⟨ackno.rawValue.toNat + 2 ^ 32 - isn.rawValue.toNat, ?_⟩
  have h : (wrap (ackno.rawValue.toNat + 2 ^ 32 - isn.rawValue.toNat) isn).rawValue = ackno.rawValue := by
    rw [← UInt32.toNat_inj, wrap_toNat]
    omega
  cases ackno
  exact congrArg WrappingInt32.mk h

/-! ### Chains -/

theorem Chain.split {isn : WrappingInt32} : ∀ {a c : ℕ} {l₁ l₂ : List TCPSegment}, Chain isn a (l₁ ++ l₂) c →
    ∃ b, Chain isn a l₁ b ∧ Chain isn b l₂ c
  | a, _, [], _, h => ⟨a, rfl, h⟩
  | _, _, _ :: _, _, ⟨h1, h2, h3, h4⟩ => by
    obtain ⟨b, g1, g2⟩ := h4.split
    exact ⟨b, ⟨h1, h2, h3, g1⟩, g2⟩

/-- The end of a chain determines its start. -/
theorem Chain.start_eq {isn : WrappingInt32} : ∀ {a b c : ℕ} {segs : List TCPSegment}, Chain isn a segs c →
    Chain isn b segs c → a = b
  | _, _, _, [], h, h' => h.trans h'.symm
  | _, _, _, _ :: _, ⟨_, _, _, h⟩, ⟨_, _, _, h'⟩ => Nat.add_right_cancel (h.start_eq h')

theorem unacked_append {isn : WrappingInt32} {k : ℕ} (segs : List TCPSegment) : ∀ {a b : ℕ} {pre : List TCPSegment},
    Chain isn a pre b → b ≤ k → unacked k a (pre ++ segs) = unacked k b segs
  | _, _, [], rfl, _ => rfl
  | _, _, _ :: _, ⟨_, _, _, h⟩, hb => by
    have hle := h.le
    rw [List.cons_append, unacked, if_neg (by omega)]
    exact unacked_append segs h hb

/-- Past an open head nothing is acknowledged. -/
theorem unacked_eq_self {isn : WrappingInt32} {k : ℕ} : ∀ {a b : ℕ} {segs : List TCPSegment}, Chain isn a segs b →
    HeadOpen k a segs → unacked k a segs = segs
  | _, _, [], _, _ => rfl
  | a, _, seg :: segs, ⟨_, _, _, h⟩, hk => by
    have hk : k < a + seg.lengthInSequenceSpace := hk
    have hopen : HeadOpen k (a + seg.lengthInSequenceSpace) segs := by
      cases segs with
      | nil => trivial
      | cons x xs =>
        show k < a + seg.lengthInSequenceSpace + x.lengthInSequenceSpace
        omega
    rw [unacked, if_pos hk, unacked_eq_self h hopen]

/-! ### The log of first transmissions -/

/-- What holds of the segments sent for the first time. -/
structure Log (first : List TCPSegment) (accepted : Bytes) (s : TCPSender) : Prop where
  wf : WF s
  chain : Chain s.isn 0 first s.nextSeqno
  suffix : s.segmentsOutstanding <:+ first
  syn : ∀ i seg, first[i]? = some seg → (seg.header.syn = true ↔ i = 0)
  payload_le : ∀ seg ∈ first, seg.payload.length ≤ TCPConfig.maxPayloadSize
  payload : payloads first ++ s.stream.buffer = accepted
  read : (payloads first).length = s.stream.bytesRead
  fin : ∀ i seg, first[i]? = some seg → seg.header.fin = true → i + 1 = first.length ∧ s.finSent = true

theorem init_log (capacity : ℕ) (rt : UInt16) (isn : WrappingInt32) : Log [] [] (init capacity rt isn) where
  wf := init_wf capacity rt isn
  chain := rfl
  suffix := List.suffix_refl _
  syn := fun i seg h => by simp at h
  payload_le := fun seg h => by cases h
  payload := rfl
  read := rfl
  fin := fun i seg h => by simp at h

/-- The timers and the queue of segments to send play no part, nor does how
much of the log is still outstanding. -/
theorem Log.congr (h : Log first accepted s) (hwf : WF s') (h1 : s'.isn = s.isn) (h2 : s'.nextSeqno = s.nextSeqno)
    (h3 : s'.segmentsOutstanding <:+ s.segmentsOutstanding) (h4 : s'.stream = s.stream)
    (h5 : s'.finSent = s.finSent) : Log first accepted s' where
  wf := hwf
  chain := by rw [h1, h2]; exact h.chain
  suffix := h3.trans h.suffix
  syn := h.syn
  payload_le := h.payload_le
  payload := by rw [h4]; exact h.payload
  read := by rw [h4]; exact h.read
  fin := by rw [h5]; exact h.fin

/-- The entries of a log that got longer by one. -/
theorem getElem?_snoc {first : List TCPSegment} {seg x : TCPSegment} {i : ℕ} (h : (first ++ [seg])[i]? = some x) :
    i < first.length ∧ first[i]? = some x ∨ i = first.length ∧ x = seg := by
  rcases Nat.lt_or_ge i first.length with hi | hi
  · rw [List.getElem?_append_left hi] at h
    exact Or.inl ⟨hi, h⟩
  · rw [List.getElem?_append_right hi] at h
    have h0 : i - first.length = 0 := by
      have := (List.getElem?_eq_some_iff.mp h).1
      rw [List.length_singleton] at this
      omega
    rw [h0] at h
    exact Or.inr ⟨by omega, (Option.some.inj h).symm⟩

theorem Log.eq_nil_iff (h : Log first accepted s) : first = [] ↔ s.nextSeqno = 0 := by
  constructor
  · rintro rfl
    exact h.chain.symm
  · intro h0
    by_contra hne
    have := h.chain.lt hne
    omega

/-- A new segment goes to the end of the log. -/
theorem Log.sent {w : ℕ} {seg : TCPSegment} (hw : w < 2 ^ 16) (h : Log first accepted s) (hfin : s.finSent = false)
    (hs : Sent w s s' seg) : Log (first ++ [seg]) accepted s' where
  wf := h.wf.sent hw hfin hs
  chain := by
    rw [hs.frame.isn, hs.next]
    exact h.chain.snoc hs.pos hs.len_le hs.seqno
  suffix := by
    obtain ⟨pre, hpre⟩ := h.suffix
    refine ⟨pre, ?_⟩
    rw [hs.outstanding, ← List.append_assoc, hpre]
  syn := fun i x hx => by
    rcases getElem?_snoc hx with ⟨-, hx⟩ | ⟨rfl, rfl⟩
    · exact h.syn i x hx
    · rw [hs.syn, List.length_eq_zero_iff, h.eq_nil_iff]
  payload_le := fun x hx => by
    rcases List.mem_append.mp hx with hx | hx
    · exact h.payload_le x hx
    · rw [List.mem_singleton.mp hx]
      exact hs.payload_le
  payload := by
    rw [payloads, List.flatMap_append, List.flatMap_singleton, List.append_assoc, hs.payload]
    exact h.payload
  read := by
    rw [payloads, List.flatMap_append, List.flatMap_singleton, List.length_append, hs.bytesRead]
    exact congrArg (· + seg.payload.length) h.read
  fin := fun i x hx hf => by
    rcases getElem?_snoc hx with ⟨-, hx⟩ | ⟨rfl, rfl⟩
    · exact absurd ((h.fin i x hx hf).2.symm.trans hfin) (by decide)
    · exact ⟨by rw [List.length_append, List.length_singleton], hs.finSent.trans hf⟩

/-- What the calls below add to the log is what they add to the queue of
segments to send. -/
theorem Log.fillWindow (h : Log first accepted s) :
    Log (first ++ s.fillWindow.segmentsOut.drop s.segmentsOut.length) accepted s.fillWindow := by
  obtain ⟨segs, h1, h2⟩ : ∃ segs, s.fillWindow.segmentsOut = s.segmentsOut ++ segs ∧
      Log (first ++ segs) accepted s.fillWindow := by
    refine fillWindow_induct (P := fun t => ∃ segs, t.segmentsOut = s.segmentsOut ++ segs ∧
      Log (first ++ segs) accepted t) ?_ ⟨[], (List.append_nil _).symm, (List.append_nil first).symm ▸ h⟩
    rintro a b seg ⟨segs, h1, h2⟩ hfin - hs
    refine ⟨segs ++ [seg], ?_, ?_⟩
    · rw [hs.out, h1, List.append_assoc]
    · rw [← List.append_assoc]
      exact h2.sent s.currentWindow_lt hfin hs
  rw [h1, List.drop_left]
  exact h2

theorem Log.ackReceived (h : Log first accepted s) (ackno : WrappingInt32) (w : UInt16) :
    Log (first ++ (s.ackReceived ackno w).segmentsOut.drop s.segmentsOut.length) accepted
      (s.ackReceived ackno w) := by
  rcases lt_or_ge s.nextSeqno (unwrap ackno s.isn s.nextSeqno) with hk | hk
  · rw [ackReceived_of_lt hk, List.drop_length, List.append_nil]
    exact h
  · rw [ackReceived_of_le hk]
    obtain ⟨f1, f2, f3, f4, f5, -⟩ := acknowledge_frame s (unwrap ackno s.isn s.nextSeqno) w
    have ht := settleTimer_timerOnly (s.acknowledge (unwrap ackno s.isn s.nextSeqno) w).fillWindow
      (decide (s.lastAckSeqno < unwrap ackno s.isn s.nextSeqno))
    have hack : Log first accepted (s.acknowledge (unwrap ackno s.isn s.nextSeqno) w) :=
      h.congr (h.wf.acknowledge hk w) f1 f2 (acknowledge_suffix s _ w) f3 f4
    have hfill := hack.fillWindow
    rw [f5, ← ht.out] at hfill
    exact hfill.congr (hfill.wf.timer ht) ht.isn ht.next (ht.outstanding ▸ List.suffix_refl _) ht.stream
      ht.finSent

theorem Log.tick (h : Log first accepted s) (ms : ℕ) : Log first accepted (s.tick ms) := by
  have hwf := h.wf.tick ms
  rcases tick_cases s ms with ⟨time, he⟩ | ⟨seg, segs, rto, -, he⟩ <;> rw [he] at hwf ⊢ <;>
    exact h.congr hwf rfl rfl (List.suffix_refl _) rfl rfl

theorem Log.write (h : Log first accepted s) (data : Bytes) :
    Log first (accepted ++ data.take (s.write data).1) (s.write data).2 where
  wf := h.wf.write data
  chain := h.chain
  suffix := h.suffix
  syn := h.syn
  payload_le := h.payload_le
  payload := by
    have hb := ByteStream.write_snd_buffer s.stream data
    have hn := ByteStream.write_fst s.stream data
    show payloads first ++ (s.stream.write data).2.buffer = accepted ++ data.take (s.stream.write data).1
    rw [hb, hn, ← List.append_assoc, h.payload]
  read := h.read.trans (ByteStream.write_snd_bytesRead s.stream data).symm
  fin := h.fin

theorem Log.endInput (h : Log first accepted s) : Log first accepted s.endInput :=
  ⟨h.wf.endInput, h.chain, h.suffix, h.syn, h.payload_le, h.payload, h.read, h.fin⟩

/-- The outstanding segments are those of the log that end past the last
acknowledged number. -/
theorem Log.outstanding (h : Log first accepted s) : s.segmentsOutstanding = unacked s.lastAckSeqno 0 first := by
  obtain ⟨a, h1, h2, h3⟩ := h.wf.chain
  obtain ⟨pre, hpre⟩ := h.suffix
  obtain ⟨b, g1, g2⟩ := (hpre.symm ▸ h.chain).split
  obtain rfl := g2.start_eq h2
  rw [← hpre, unacked_append _ g1 h1, unacked_eq_self h2 h3]

end TCPSender

/-! ### Runs -/

/-- A sender, the bytes its stream accepted and the segments it sent for the
first time. -/
structure Sending where
  sender : TCPSender
  accepted : Bytes
  first : List TCPSegment
  deriving DecidableEq

namespace Sending

open TCPSender

def start (capacity : ℕ) (rt : UInt16) (isn : WrappingInt32) : Sending := ⟨TCPSender.init capacity rt isn, [], []⟩

def step (h : Sending) (op : Op) : Option Sending :=
  some ⟨h.sender.step op, match op with
    | .write data => h.accepted ++ data.take (h.sender.write data).1
    | _ => h.accepted, h.first ++ h.sender.firstSent op⟩

theorem step_log {h h' : Sending} {op : Op} (hl : Log h.first h.accepted h.sender) (hs : h.step op = some h') :
    Log h'.first h'.accepted h'.sender := by
  obtain rfl := Option.some.inj hs
  cases op with
  | write data =>
    have hnone : h.sender.firstSent (.write data) = [] := by simp [firstSent, TCPSender.step, TCPSender.write]
    simp only [hnone, List.append_nil]
    exact hl.write data
  | endInput =>
    have hnone : h.sender.firstSent .endInput = [] := by simp [firstSent, TCPSender.step, TCPSender.endInput]
    simp only [hnone, List.append_nil]
    exact hl.endInput
  | fillWindow => exact hl.fillWindow
  | ack a w => exact hl.ackReceived _ w
  | tick ms =>
    simp only [firstSent, List.append_nil]
    exact hl.tick ms

/-- The segments, payloads and copies of a sender's transmissions. -/
structure Transmits (h : Sending) : Prop where
  /-- the sequence ranges start at 0 and leave no gap -/
  chain : Chain h.sender.isn 0 h.first h.sender.nextSeqno
  /-- the first segment carries the SYN, and no other -/
  syn : ∀ i seg, h.first[i]? = some seg → (seg.header.syn = true ↔ i = 0)
  payload_le : ∀ seg ∈ h.first, seg.payload.length ≤ 1000
  /-- the payloads are the bytes read from the stream -/
  payload : payloads h.first = h.accepted.take h.sender.stream.bytesRead
  /-- a FIN is on the last segment, when the stream is ended and all of it sent -/
  fin : ∀ i seg, h.first[i]? = some seg → seg.header.fin = true → i + 1 = h.first.length ∧
    h.sender.stream.inputEnded = true ∧ payloads h.first = h.accepted
  outstanding : h.sender.segmentsOutstanding = unacked h.sender.lastAckSeqno 0 h.first
  /-- a call queues what it sends for the first time, or it is a tick that
  queues the oldest outstanding segment as it is -/
  out : ∀ op, (h.sender.step op).segmentsOut = h.sender.segmentsOut ++ h.sender.firstSent op ∨
    ∃ ms seg segs, op = .tick ms ∧ h.sender.segmentsOutstanding = seg :: segs ∧
      (h.sender.step op).segmentsOut = h.sender.segmentsOut ++ [seg]

/-- What waits to be sent is only added to. -/
theorem out_step (s : TCPSender) (op : Op) : s.segmentsOut <+: (s.step op).segmentsOut := by
  cases op with
  | write data => exact List.prefix_refl _
  | endInput => exact List.prefix_refl _
  | fillWindow => exact fillWindow_out s
  | ack a w =>
    show s.segmentsOut <+: (s.ackReceived (wrap a s.isn) w).segmentsOut
    rcases lt_or_ge s.nextSeqno (unwrap (wrap a s.isn) s.isn s.nextSeqno) with hk | hk
    · rw [ackReceived_of_lt hk]
    · obtain ⟨-, -, -, -, h5, -⟩ := acknowledge_frame s (unwrap (wrap a s.isn) s.isn s.nextSeqno) w
      rw [ackReceived_of_le hk, (settleTimer_timerOnly _ _).out]
      exact h5 ▸ fillWindow_out (s.acknowledge (unwrap (wrap a s.isn) s.isn s.nextSeqno) w)
  | tick ms =>
    show s.segmentsOut <+: (s.tick ms).segmentsOut
    rcases tick_cases s ms with ⟨time, he⟩ | ⟨seg, segs, rto, -, he⟩ <;> rw [he]
    exact List.prefix_append _ _

theorem Transmits.of_log {h : Sending} (hl : Log h.first h.accepted h.sender) : Transmits h where
  chain := hl.chain
  syn := hl.syn
  payload_le := hl.payload_le
  payload := by rw [← hl.payload, ← hl.read, List.take_left]
  fin := fun i seg hi hf => by
    obtain ⟨h1, h2⟩ := hl.fin i seg hi hf
    obtain ⟨h3, h4⟩ := hl.wf.fin h2
    have hp := hl.payload
    rw [h4, List.append_nil] at hp
    exact ⟨h1, h3, hp⟩
  outstanding := hl.outstanding
  out := fun op => by
    cases op with
    | tick ms =>
      show (h.sender.tick ms).segmentsOut = _ ∨ ∃ ms' seg segs, _ ∧ _ ∧ (h.sender.tick ms).segmentsOut = _
      rcases tick_cases h.sender ms with ⟨time, he⟩ | ⟨seg, segs, rto, ho, he⟩ <;> rw [he]
      · exact Or.inl (List.append_nil _).symm
      · exact Or.inr ⟨ms, seg, segs, rfl, ho, rfl⟩
    | _ => exact Or.inl (List.prefix_iff_eq_append.mp (out_step h.sender _)).symm

/-- **What is transmitted**, in every run of the calls of a sender's owner. -/
theorem transmits {capacity : ℕ} {rt : UInt16} {isn : WrappingInt32} {ops : List Op} {h : Sending}
    (hr : Runs.run step (start capacity rt isn) ops = some h) : Transmits h :=
  Transmits.of_log (Runs.run_invariant (I := fun h => Log h.first h.accepted h.sender) (fun _ _ _ => step_log)
    (init_log capacity rt isn) hr)

/-- SYN, five bytes in a window of four, part of them acknowledged, a window
of zero and back, and the FIN with the last byte. -/
def partialOps : List Op :=
  [.fillWindow, .ack 1 4, .write [97, 98, 99, 100, 101], .endInput, .fillWindow, .ack 3 0, .tick 1000, .ack 3 4]

theorem transmits_partial : ∃ h, Runs.run step (start 64 1000 ⟨0⟩) partialOps = some h ∧
    h.first.map (·.payload) = [[], [97, 98, 99, 100], [101]] ∧ h.first.map (·.header.fin) = [false, false, true] ∧
    h.sender.segmentsOutstanding.length = 2 ∧ Transmits h :=
  ⟨_, rfl, by decide +kernel, by decide +kernel, by decide +kernel,
    transmits (show Runs.run step (start 64 1000 ⟨0⟩) partialOps = some _ from rfl)⟩

end Sending
end Sponge
