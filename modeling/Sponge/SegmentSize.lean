/-
# The size of segments

Every segment that a connection queues has a header without options and a
payload of at most `MAX_PAYLOAD_SIZE` bytes, so that it fits into a datagram of
every kind, and writing it does not throw.

Key definitions: `TCPSegment.Fits`, `TCPSender.Fit`, `TCPConnection.Fit`.
Key theorems: `TCPConnection.Fit.segmentReceived`, `TCPConnection.Fit.tick`.
-/
import Sponge.TCPConnection
import Sponge.Flight

namespace Sponge

/-- No options, and no more payload than one segment is given. -/
structure TCPSegment.Fits (seg : TCPSegment) : Prop where
  doff : seg.header.doff = 5
  payload_le : seg.payload.length ≤ TCPConfig.maxPayloadSize

namespace TCPSender

variable {s s' : TCPSender}

/-- All segments to send, and to send again, fit. -/
def Fit (s : TCPSender) : Prop := ∀ seg ∈ s.segmentsOut ++ s.segmentsOutstanding, seg.Fits

theorem Fit.congr (h : Fit s) (h1 : s'.segmentsOut = s.segmentsOut)
    (h2 : s'.segmentsOutstanding ⊆ s.segmentsOutstanding) : Fit s' := by
  intro seg hseg
  rw [h1] at hseg
  exact h seg ((List.mem_append.mp hseg).elim (List.mem_append_left _) fun hs => List.mem_append_right _ (h2 hs))

/-- A segment that fits is queued. -/
theorem Fit.queue (h : Fit s) {seg : TCPSegment} (hseg : seg.Fits)
    (h1 : s'.segmentsOut = s.segmentsOut ++ [seg])
    (h2 : s'.segmentsOutstanding ⊆ s.segmentsOutstanding ++ [seg]) : Fit s' := by
  intro x hx
  rcases List.mem_append.mp hx with hx | hx
  · rw [h1] at hx
    rcases List.mem_append.mp hx with hx | hx
    · exact h x (List.mem_append_left _ hx)
    · exact List.mem_singleton.mp hx ▸ hseg
  · rcases List.mem_append.mp (h2 hx) with hx | hx
    · exact h x (List.mem_append_right _ hx)
    · exact List.mem_singleton.mp hx ▸ hseg

/-- What the loop builds fits. -/
theorem build_fits (s : TCPSender) (w : ℕ) : (s.build w).1.Fits :=
  ⟨rfl, (ByteStream.read_length_le _ _).trans (min_le_right _ _)⟩

theorem Fit.sendNext (h : Fit s) (w : ℕ) : Fit (s.sendNext w) := by
  have hseg : TCPSegment.Fits
      { (s.build w).1 with header := { (s.build w).1.header with seqno := wrap s.nextSeqno s.isn } } :=
    ⟨(build_fits s w).doff, (build_fits s w).payload_le⟩
  exact Fit.queue (s := s) h hseg rfl fun _ hx => hx

theorem Fit.fillLoop (w : ℕ) : ∀ (n : ℕ) {s : TCPSender}, Fit s → Fit (fillLoop n w s)
  | 0, _, h => h
  | n + 1, s, h => by
    unfold TCPSender.fillLoop
    split_ifs with hw
    · dsimp only
      split_ifs with hlen hfin
      · rw [build_idle hlen]
        exact h
      · exact h.sendNext w
      · exact Fit.fillLoop w n (h.sendNext w)
    · exact h

theorem Fit.fillWindow (h : Fit s) : Fit s.fillWindow := by
  unfold TCPSender.fillWindow
  split_ifs
  · exact h
  · exact Fit.fillLoop _ _ h

theorem Fit.ackReceived (h : Fit s) (ackno : WrappingInt32) (w : UInt16) : Fit (s.ackReceived ackno w) := by
  apply ackReceived_induct (P := Fit) h
  · intro k _
    obtain ⟨-, -, -, -, hout, -⟩ := acknowledge_frame s k w
    exact h.congr hout (acknowledge_suffix s k w).subset
  · exact fun t ht => ht.fillWindow
  · exact fun t t' hP ht => hP.congr ht.out fun _ hx => ht.outstanding ▸ hx

theorem Fit.tick (h : Fit s) (ms : ℕ) : Fit (s.tick ms) := by
  rcases tick_cases s ms with ⟨time, he⟩ | ⟨seg, segs, rto, ho, he⟩ <;> rw [he]
  · exact h
  · have hseg : seg.Fits := h seg (List.mem_append_right _ (ho ▸ List.mem_cons_self))
    exact h.queue hseg rfl (List.subset_append_left _ _)

theorem Fit.sendEmptySegment (h : Fit s) : Fit s.sendEmptySegment := by
  have hseg : TCPSegment.Fits { header := { seqno := wrap s.nextSeqno s.isn } } := ⟨rfl, Nat.zero_le _⟩
  exact h.queue hseg rfl (List.subset_append_left _ _)

end TCPSender

namespace TCPConnection

variable {c c' : TCPConnection}

structure Fit (c : TCPConnection) : Prop where
  sender : c.sender.Fit
  out : ∀ seg ∈ c.segmentsOut, seg.Fits

theorem stamp_fits {seg : TCPSegment} (h : seg.Fits) (rcv : TCPReceiver) : (stamp rcv seg).Fits := by
  unfold stamp
  cases rcv.ackno with
  | none => exact h
  | some ackno => exact ⟨h.doff, h.payload_le⟩

theorem init_fit (cfg : TCPConfig) (isn : WrappingInt32) : Fit (init cfg isn) :=
  ⟨fun _ hseg => absurd hseg List.not_mem_nil, fun _ hseg => absurd hseg List.not_mem_nil⟩

namespace Fit

theorem sendSegments (h : Fit c) : Fit c.sendSegments where
  sender := fun seg hseg => h.sender seg (List.mem_append_right _ hseg)
  out := fun seg hseg => by
    rw [sendSegments_segmentsOut] at hseg
    rcases List.mem_append.mp hseg with hseg | hseg
    · exact h.out seg hseg
    · obtain ⟨x, hx, rfl⟩ := List.mem_map.mp hseg
      exact stamp_fits (h.sender x (List.mem_append_left _ hx)) _

theorem setRstState (h : Fit c) (sendRst : Bool) : Fit (c.setRstState sendRst) := by
  cases sendRst with
  | false => exact ⟨h.sender, h.out⟩
  | true =>
    refine ⟨h.sender, fun seg hseg => ?_⟩
    rcases List.mem_append.mp hseg with hseg | hseg
    · exact h.out seg hseg
    · rw [List.mem_singleton.mp hseg]
      exact ⟨rfl, Nat.zero_le _⟩

theorem connect (h : Fit c) : Fit c.connect :=
  sendSegments (c := { c with sender := c.sender.fillWindow, isActive := true }) ⟨h.sender.fillWindow, h.out⟩

theorem write (h : Fit c) (data : Bytes) : Fit (c.write data).2 := by
  have hw : (c.sender.write data).2.Fit := h.sender
  exact sendSegments (c := { c with sender := (c.sender.write data).2.fillWindow }) ⟨hw.fillWindow, h.out⟩

theorem endInputStream (h : Fit c) : Fit c.endInputStream := by
  have he : c.sender.endInput.Fit := h.sender
  exact sendSegments (c := { c with sender := c.sender.endInput.fillWindow }) ⟨he.fillWindow, h.out⟩

theorem segmentReceived (h : Fit c) {seg : TCPSegment} (hs : c.segmentReceived seg = some c') : Fit c' := by
  rcases segment_cases hs with ⟨-, rfl⟩ | ⟨-, -, rfl⟩ | ⟨-, -, receiver, -, rfl⟩
  · exact h
  · exact setRstState (c := { c with timeSinceLastSegmentReceived := 0 }) ⟨h.sender, h.out⟩ false
  · have hacked : (c.acked seg).Fit := by
      unfold acked
      split_ifs
      · exact h.sender.ackReceived _ _
      · exact h.sender
    refine respond_induct (P := Fit) (Q := Fit) (fun d h => ⟨h.sender.fillWindow, h.out⟩)
      (fun d h => ⟨h.sender.sendEmptySegment, h.out⟩) (fun d h => ⟨h.sender, h.out⟩)
      (fun d h => ⟨h.sender, h.out⟩) (fun d h => h.sendSegments) ?_ seg
    exact ⟨hacked, h.out⟩

theorem tick (h : Fit c) (ms : ℕ) : Fit (c.tick ms) := by
  rcases Bool.eq_false_or_eq_true c.isActive with ha | ha
  · have ht : Fit (c.ticked ms) := ⟨h.sender.tick ms, h.out⟩
    rcases tick_cases ha ms with ⟨-, he⟩ | ⟨-, he⟩ <;> rw [he]
    · exact ht.setRstState true
    · exact ⟨ht.sendSegments.sender, ht.sendSegments.out⟩
  · rw [tick_of_inactive ha]
    exact h

theorem readInbound (h : Fit c) (len : ℕ) : Fit (c.readInbound len).2 := ⟨h.sender, h.out⟩

end Fit
end TCPConnection
end Sponge
