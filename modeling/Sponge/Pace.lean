/-
# No receiver is ahead of its sender

While fewer than 2^30 bytes are written at each side, nothing on the way
carries a byte, or a SYN or FIN, that its sender has not sent (`Told`), so no
receiver waits for more than that: no run is `Network.Crossed`. What was sent of
`accepted` are the bytes that have left the stream (`TCPSender.gone`), and these
grow as `accepted` does, so what is known of a receiver holds of them as well.

Key definitions: `TCPSender.gone`, `TCPSender.Told`, `TCPSender.Advances`, `Pace`,
`Network.Paced`.
Key theorems: `TCPSender.Paced.fillWindow`, `Pace.segmentReceived`,
`Network.Paced.act`, `Network.Paced.not_ahead`, `Network.comes_to_rest`.
-/
import Sponge.Rest

namespace Sponge

open Pieces

theorem Grows.trans {a b c : Bytes} {e f g : Bool} (h : Grows a e b f) (h' : Grows b f c g) : Grows a e c g where
  isPrefix := h.isPrefix.trans h'.isPrefix
  complete := fun he => by
    obtain ⟨h1, h2⟩ := h.complete he
    obtain ⟨h3, h4⟩ := h'.complete h2
    exact ⟨h3.trans h1, h4⟩

/-! ### The sender -/

namespace TCPSender

/-- The bytes that have left the stream. -/
def gone (s : TCPSender) (accepted : Bytes) : Bytes := accepted.take s.stream.bytesRead

/-- The segment has nothing that was not sent. -/
structure Told (s : TCPSender) (accepted : Bytes) (seg : TCPSegment) : Prop where
  genuine : Genuine s.isn (s.gone accepted) s.finSent seg
  syn : seg.header.syn = true → 0 < s.nextSeqno

/-- `s'` is `s` once it has sent more, or nothing. -/
structure Advances (s : TCPSender) (accepted : Bytes) (s' : TCPSender) (accepted' : Bytes) : Prop where
  isn : s'.isn = s.isn
  grows : Grows (s.gone accepted) s.finSent (s'.gone accepted') s'.finSent
  next : s.nextSeqno ≤ s'.nextSeqno

/-- All that the sender queues and keeps was sent. -/
structure Paced (s : TCPSender) (accepted : Bytes) (ended : Bool) : Prop where
  speaks : s.Speaks accepted ended
  queue : ∀ seg ∈ s.segmentsOut, s.Told accepted seg
  outstanding : ∀ seg ∈ s.segmentsOutstanding, s.Told accepted seg

variable {s s' s'' : TCPSender} {accepted accepted' accepted'' : Bytes} {ended ended' : Bool} {seg : TCPSegment}

theorem Told.empty (hlen : seg.lengthInSequenceSpace = 0) : s.Told accepted seg where
  genuine := Or.inr (Or.inl hlen)
  syn := fun hsyn => by simp [TCPSegment.lengthInSequenceSpace, hsyn] at hlen

theorem Told.mono (h : s.Told accepted seg) (ha : s.Advances accepted s' accepted') : s'.Told accepted' seg where
  genuine := ha.isn.symm ▸ h.genuine.mono ha.grows
  syn := fun hsyn => (h.syn hsyn).trans_le ha.next

theorem Advances.trans (h : s.Advances accepted s' accepted') (h' : s'.Advances accepted' s'' accepted'') :
    s.Advances accepted s'' accepted'' :=
  ⟨h'.isn.trans h.isn, h.grows.trans h'.grows, h.next.trans h'.next⟩

/-- Nothing is sent. The stream may accept more. -/
theorem Advances.of_eq (h1 : s'.isn = s.isn) (h2 : s'.stream.bytesRead = s.stream.bytesRead)
    (h3 : s'.finSent = s.finSent) (h4 : s'.nextSeqno = s.nextSeqno) (hle : s.stream.bytesRead ≤ accepted.length)
    (hpre : accepted <+: accepted') : s.Advances accepted s' accepted' := by
  have hgone : s'.gone accepted' = s.gone accepted := by
    unfold gone
    obtain ⟨rest, rfl⟩ := hpre
    rw [h2, List.take_append_of_le_length hle]
  refine ⟨h1, ?_, h4.ge⟩
  rw [hgone, h3]
  exact Link.grows_refl _ _

/-- A segment that is sent carries what leaves the stream. -/
theorem Speaks.advances {w : ℕ} (h : s.Speaks accepted ended) (hfin : s.finSent = false) (hs : Sent w s s' seg) :
    s.Advances accepted s' accepted ∧ s'.Told accepted seg := by
  have hindex := h.wf.next_pred hfin
  have hpay : seg.payload ++ s'.stream.buffer = accepted.drop s.stream.bytesRead := hs.payload.trans h.buffer
  have hread := hs.bytesRead
  have hlen : (s'.gone accepted).length = s.stream.bytesRead + seg.payload.length := by
    have h1 := congrArg List.length hpay
    have h2 := h.bytesRead_le
    rw [List.length_append, List.length_drop] at h1
    unfold gone
    rw [List.length_take]
    omega
  have hpos := hs.pos
  have hnext := hs.next
  refine ⟨⟨hs.frame.isn, ⟨?_, fun hc => absurd (hfin.symm.trans hc) Bool.false_ne_true⟩, by omega⟩, ?_, by omega⟩
  · exact List.take_prefix_take_left (by omega)
  · refine Or.inr (Or.inr ⟨s.nextSeqno, by rw [hs.frame.isn]; exact hs.seqno, hs.syn, ?_, ?_, fun hf => ?_⟩)
    · unfold Holds gone
      rw [hindex, hread, List.drop_take, Nat.add_sub_cancel_left, ← hpay, List.take_left]
    · rw [hindex, hlen]
    · rw [hindex, hlen, hs.finSent]
      exact ⟨hf, rfl⟩

namespace Paced

/-- Nothing is sent but what was sent before, or is empty. -/
theorem congr (h : s.Paced accepted ended) (hs : s'.Speaks accepted' ended') (ha : s.Advances accepted s' accepted')
    (hq : ∀ seg ∈ s'.segmentsOut, seg ∈ s.segmentsOut ∨ seg ∈ s.segmentsOutstanding ∨ seg.lengthInSequenceSpace = 0)
    (ho : ∀ seg ∈ s'.segmentsOutstanding, seg ∈ s.segmentsOutstanding) : s'.Paced accepted' ended' where
  speaks := hs
  queue := fun seg hseg => by
    rcases hq seg hseg with hx | hx | hx
    · exact (h.queue seg hx).mono ha
    · exact (h.outstanding seg hx).mono ha
    · exact Told.empty hx
  outstanding := fun seg hseg => (h.outstanding seg (ho seg hseg)).mono ha

theorem sent {w : ℕ} (hw : w < 2 ^ 16) (h : s.Paced accepted ended) (hfin : s.finSent = false)
    (hs : Sent w s s' seg) : s'.Paced accepted ended ∧ s.Advances accepted s' accepted := by
  obtain ⟨ha, hnew⟩ := h.speaks.advances hfin hs
  have hold : ∀ {segs : List TCPSegment}, (∀ x ∈ segs, s.Told accepted x) →
      ∀ x ∈ segs ++ [seg], s'.Told accepted x := by
    intro segs hsegs x hx
    rcases List.mem_append.mp hx with hx | hx
    · exact (hsegs x hx).mono ha
    · exact List.mem_singleton.mp hx ▸ hnew
  refine ⟨⟨h.speaks.sent hw hfin hs, ?_, ?_⟩, ha⟩
  · rw [hs.out]
    exact hold h.queue
  · rw [hs.outstanding]
    exact hold h.outstanding

/-- What leaves the numbers and the stream as they are sends nothing. -/
theorem same (h : s.Paced accepted ended) (h1 : s'.isn = s.isn) (h2 : s'.stream.bytesRead = s.stream.bytesRead)
    (h3 : s'.finSent = s.finSent) (h4 : s'.nextSeqno = s.nextSeqno) : s.Advances accepted s' accepted :=
  Advances.of_eq h1 h2 h3 h4 h.speaks.bytesRead_le (List.prefix_refl _)

theorem fillWindow (h : s.Paced accepted ended) :
    s.fillWindow.Paced accepted ended ∧ s.Advances accepted s.fillWindow accepted := by
  apply fillWindow_induct (P := fun t => t.Paced accepted ended ∧ s.Advances accepted t accepted)
  · rintro a b seg ⟨ha, hadv⟩ hfin - hs
    obtain ⟨hb, hadv'⟩ := ha.sent s.currentWindow_lt hfin hs
    exact ⟨hb, hadv.trans hadv'⟩
  · exact ⟨h, h.same rfl rfl rfl rfl⟩

theorem ackReceived (h : s.Paced accepted ended) (ackno : WrappingInt32) (w : UInt16) :
    (s.ackReceived ackno w).Paced accepted ended ∧ s.Advances accepted (s.ackReceived ackno w) accepted := by
  apply ackReceived_induct (P := fun t => t.Paced accepted ended ∧ s.Advances accepted t accepted)
  · exact ⟨h, h.same rfl rfl rfl rfl⟩
  · intro k hk
    obtain ⟨f1, f2, f3, f4, f5, -⟩ := acknowledge_frame s k w
    have hadv : s.Advances accepted (s.acknowledge k w) accepted := h.same f1 (by rw [f3]) f4 f2
    refine ⟨h.congr (h.speaks.acknowledge hk w) hadv (fun seg hseg => Or.inl (f5 ▸ hseg)) fun seg hseg => ?_, hadv⟩
    exact (acknowledge_suffix s k w).subset hseg
  · rintro t ⟨ht, hadv⟩
    obtain ⟨hfill, hadv'⟩ := ht.fillWindow
    exact ⟨hfill, hadv.trans hadv'⟩
  · rintro t t' ⟨hP, hadv⟩ ht
    have hadv' := hP.same ht.isn (by rw [ht.stream]) ht.finSent ht.next
    refine ⟨hP.congr (hP.speaks.timer ht) hadv' (fun seg hseg => Or.inl (ht.out ▸ hseg)) fun seg hseg => ?_,
      hadv.trans hadv'⟩
    exact ht.outstanding ▸ hseg

theorem tick (h : s.Paced accepted ended) (ms : ℕ) :
    (s.tick ms).Paced accepted ended ∧ s.Advances accepted (s.tick ms) accepted := by
  obtain ⟨h1, h2, -, -, h5, h6, h7⟩ := tick_frame s ms
  have hadv : s.Advances accepted (s.tick ms) accepted := h.same h1 (by rw [h6]) h7 h2
  refine ⟨h.congr (h.speaks.tick ms) hadv (fun seg hseg => ?_) fun seg hseg => h5 ▸ hseg, hadv⟩
  rcases tick_cases s ms with ⟨time, he⟩ | ⟨x, xs, rto, ho, he⟩
  · rw [he] at hseg
    exact Or.inl hseg
  · rw [he] at hseg
    rcases List.mem_append.mp hseg with hx | hx
    · exact Or.inl hx
    · exact Or.inr (Or.inl (List.mem_singleton.mp hx ▸ ho ▸ List.mem_cons_self))

theorem sendEmptySegment (h : s.Paced accepted ended) :
    s.sendEmptySegment.Paced accepted ended ∧ s.Advances accepted s.sendEmptySegment accepted := by
  have hadv : s.Advances accepted s.sendEmptySegment accepted := h.same rfl rfl rfl rfl
  refine ⟨h.congr h.speaks.sendEmptySegment hadv (fun seg hseg => ?_) fun _ hseg => hseg, hadv⟩
  rcases List.mem_append.mp hseg with hseg | hseg
  · exact Or.inl hseg
  · rw [List.mem_singleton.mp hseg]
    exact Or.inr (Or.inr rfl)

theorem flush (h : s.Paced accepted ended) : Paced { s with segmentsOut := [] } accepted ended ∧
    s.Advances accepted { s with segmentsOut := [] } accepted :=
  have hadv : s.Advances accepted { s with segmentsOut := [] } accepted := h.same rfl rfl rfl rfl
  ⟨h.congr h.speaks.flush hadv (fun _ hseg => absurd hseg List.not_mem_nil) fun _ hseg => hseg, hadv⟩

theorem setError (h : s.Paced accepted ended) :
    s.setError.Paced accepted ended ∧ s.Advances accepted s.setError accepted :=
  have hadv : s.Advances accepted s.setError accepted := h.same rfl rfl rfl rfl
  ⟨h.congr h.speaks.setError hadv (fun _ hseg => Or.inl hseg) fun _ hseg => hseg, hadv⟩

theorem write (h : s.Paced accepted ended) (data : Bytes) :
    (s.write data).2.Paced (accepted ++ data.take (s.write data).1) ended ∧
      s.Advances accepted (s.write data).2 (accepted ++ data.take (s.write data).1) := by
  have hadv : s.Advances accepted (s.write data).2 (accepted ++ data.take (s.write data).1) :=
    Advances.of_eq rfl (ByteStream.write_snd_bytesRead _ _) rfl rfl h.speaks.bytesRead_le (List.prefix_append _ _)
  exact ⟨h.congr (h.speaks.write data) hadv (fun _ hseg => Or.inl hseg) fun _ hseg => hseg, hadv⟩

theorem endInput (h : s.Paced accepted ended) :
    s.endInput.Paced accepted true ∧ s.Advances accepted s.endInput accepted :=
  have hadv : s.Advances accepted s.endInput accepted := h.same rfl rfl rfl rfl
  ⟨h.congr h.speaks.endInput hadv (fun _ hseg => Or.inl hseg) fun _ hseg => hseg, hadv⟩

end Paced
end TCPSender

/-! ### One direction -/

/-- A sender, the receiver at the other end, and the segments for it: the
receiver has nothing that was not sent. -/
structure Pace (s : TCPSender) (accepted : Bytes) (ended : Bool) (rcv : TCPReceiver) (got : Bytes)
    (data : List TCPSegment) : Prop where
  paced : s.Paced accepted ended
  hears : rcv.Hears s.isn (s.gone accepted) s.finSent got
  synced : rcv.synReceived = true → 0 < s.nextSeqno
  data : ∀ seg ∈ data, s.Told accepted seg

namespace Pace

variable {s s' : TCPSender} {accepted accepted' got : Bytes} {ended ended' : Bool} {rcv rcv' : TCPReceiver}
  {data data' : List TCPSegment} {seg : TCPSegment}

/-- The sender does something. -/
theorem sender (h : Pace s accepted ended rcv got data)
    (hs : s'.Paced accepted' ended' ∧ s.Advances accepted s' accepted') : Pace s' accepted' ended' rcv got data where
  paced := hs.1
  hears := hs.2.isn.symm ▸ h.hears.mono hs.2.grows
  synced := fun hsyn => (h.synced hsyn).trans_le hs.2.next
  data := fun seg hseg => (h.data seg hseg).mono hs.2

/-- Segments are sent, or lost. -/
theorem wires (h : Pace s accepted ended rcv got data) (hdata : ∀ seg ∈ data', seg ∈ data ∨ s.Told accepted seg) :
    Pace s accepted ended rcv got data' where
  paced := h.paced
  hears := h.hears
  synced := h.synced
  data := fun seg hseg => (hdata seg hseg).elim (h.data seg) id

theorem read (h : Pace s accepted ended rcv got data) (len : ℕ) :
    Pace s accepted ended (rcv.read len).2 (got ++ (rcv.read len).1) data :=
  ⟨h.paced, (h.hears.read len).1, h.synced, h.data⟩

theorem setError (h : Pace s accepted ended rcv got data) : Pace s accepted ended rcv.setError got data :=
  ⟨h.paced, h.hears.setError, h.synced, h.data⟩

theorem gone_length (h : Pace s accepted ended rcv got data) : (s.gone accepted).length = s.stream.bytesRead := by
  rw [TCPSender.gone, List.length_take, min_eq_left h.paced.speaks.bytesRead_le]

/-- A segment arrives, for the first time or again. -/
theorem segmentReceived (h : Pace s accepted ended rcv got data) (hS : accepted.length < 2 ^ 30) (hseg : seg ∈ data)
    (hrst : seg.header.rst = false) (hrcv : rcv.segmentReceived seg = some rcv') :
    Pace s accepted ended rcv' got data := by
  have htold := h.data seg hseg
  have hgone : (s.gone accepted).length < 2 ^ 30 := by
    rw [h.gone_length]
    exact lt_of_le_of_lt h.paced.speaks.bytesRead_le hS
  obtain ⟨rcv'', h1, h2, -⟩ := h.hears.segmentReceived hgone htold.genuine hrst
  obtain rfl := Option.some.inj (h1.symm.trans hrcv)
  refine ⟨h.paced, h2, fun hsyn => ?_, h.data⟩
  rw [(TCPReceiver.segmentReceived_isn hrcv).1] at hsyn
  unfold TCPReceiver.synced at hsyn
  split_ifs at hsyn with hs
  · exact htold.syn hs
  · exact h.synced hsyn

/-- **Behind**: what the receiver has, the sender has sent. -/
theorem received_le (h : Pace s accepted ended rcv got data) : rcv.received ≤ s.nextSeqno := by
  have habs := h.hears.absAck_le
  rw [h.gone_length] at habs
  unfold TCPReceiver.received
  by_cases hsyn : rcv.synReceived = true
  · rw [if_pos hsyn]
    have hlater := h.paced.speaks.wf.later (h.synced hsyn)
    by_cases he : rcv.streamOut.inputEnded = true
    · rw [if_pos he] at habs
      rw [if_pos (h.hears.assembles.ended he).1] at hlater
      omega
    · rw [if_neg he] at habs
      omega
  · rw [if_neg hsyn]
    exact Nat.zero_le _

end Pace

/-! ### Both directions -/

namespace Network

open TCPSender TCPConnection Runs

structure Paced (n : Network) : Prop where
  ab : Pace n.a.conn.sender n.a.accepted n.a.ended n.b.conn.receiver n.b.got (n.toB ++ n.a.conn.segmentsOut)
  ba : Pace n.b.conn.sender n.b.accepted n.b.ended n.a.conn.receiver n.a.got (n.toA ++ n.b.conn.segmentsOut)

namespace Paced

variable {n n' : Network}

theorem swap (h : Paced n) : Paced n.swap := ⟨h.ba, h.ab⟩

theorem start (cfgA cfgB : TCPConfig) (isnA isnB : WrappingInt32) : Paced (start cfgA cfgB isnA isnB) := by
  have hpace : ∀ (cfg cfg' : TCPConfig) (isn isn' : WrappingInt32),
      Pace (TCPConnection.init cfg isn).sender [] false (TCPConnection.init cfg' isn').receiver [] ([] ++ []) := by
    intro cfg cfg' isn isn'
    refine ⟨⟨Speaks.start _ _ _, ?_, ?_⟩, TCPReceiver.Hears.start _ _, fun hc => absurd hc Bool.false_ne_true, ?_⟩
    · exact fun _ hseg => absurd hseg List.not_mem_nil
    · exact fun _ hseg => absurd hseg List.not_mem_nil
    · exact fun _ hseg => absurd hseg List.not_mem_nil
  exact ⟨hpace _ _ _ _, hpace _ _ _ _⟩

/-! ### The parts of a call -/

theorem fill (h : Paced n) : Paced (n.setConn { n.a.conn with sender := n.a.conn.sender.fillWindow }) :=
  ⟨h.ab.sender h.ab.paced.fillWindow, h.ba⟩

theorem sendEmpty (h : Paced n) : Paced (n.setConn { n.a.conn with sender := n.a.conn.sender.sendEmptySegment }) :=
  ⟨h.ab.sender h.ab.paced.sendEmptySegment, h.ba⟩

/-- Stamping a segment adds nothing to what it carries. -/
theorem stamp_told {s : TCPSender} {accepted : Bytes} {seg : TCPSegment} (h : s.Told accepted seg)
    (rcv : TCPReceiver) : s.Told accepted (stamp rcv seg) where
  genuine := Inv.stamp_genuine h.genuine rcv
  syn := by
    have hsyn : (stamp rcv seg).header.syn = seg.header.syn := by
      unfold stamp
      cases rcv.ackno <;> rfl
    rw [hsyn]
    exact h.syn

theorem sent (h : Paced n) : Paced (n.setConn n.a.conn.sendSegments) := by
  refine ⟨(h.ab.sender h.ab.paced.flush).wires fun seg hseg => ?_, h.ba⟩
  refine (mem_sent hseg).imp_right ?_
  rintro ⟨x, hx, rfl⟩
  exact (stamp_told (h.ab.paced.queue x hx) _).mono h.ab.paced.flush.2

theorem reset (h : Paced n) (sendRst : Bool) : Paced (n.setConn (n.a.conn.setRstState sendRst)) := by
  have hab : Pace n.a.conn.sender.setError n.a.accepted n.a.ended n.b.conn.receiver n.b.got
      (n.toB ++ (n.a.conn.setRstState sendRst).segmentsOut) := by
    refine (h.ab.sender h.ab.paced.setError).wires fun seg hseg => (mem_reset hseg).imp_right ?_
    rintro ⟨seqno, rfl⟩
    exact Told.empty rfl
  cases sendRst <;> exact ⟨hab, h.ba.setError⟩

/-! ### The calls -/

theorem respond (h : Paced n) (seg : TCPSegment) : Paced (n.setConn (n.a.conn.respond seg)) :=
  respond_induct (P := fun c => Paced (n.setConn c)) (Q := fun c => Paced (n.setConn c)) (fun _ h => h.fill)
    (fun _ h => h.sendEmpty) (fun _ h => ⟨h.ab, h.ba⟩) (fun _ h => ⟨h.ab, h.ba⟩) (fun _ h => h.sent) h seg

theorem tick (h : Paced n) (ms : ℕ) : Paced (n.setConn (n.a.conn.tick ms)) := by
  rcases Bool.eq_false_or_eq_true n.a.conn.isActive with ha | ha
  · have ht : Paced (n.setConn (n.a.conn.ticked ms)) := ⟨h.ab.sender (h.ab.paced.tick ms), h.ba⟩
    rcases TCPConnection.tick_cases ha ms with ⟨-, he⟩ | ⟨-, he⟩ <;> rw [he]
    · exact ht.reset true
    · exact ⟨ht.sent.ab, ht.sent.ba⟩
  · rw [tick_of_inactive ha]
    exact h

/-- A segment of B, which may have arrived before, arrives at A. -/
theorem segmentReceived (h : Paced n) (hb : Bounded n) {seg : TCPSegment} (hseg : seg ∈ n.toA ++ n.b.conn.segmentsOut)
    {conn : TCPConnection} (hs : n.a.conn.segmentReceived seg = some conn) : Paced (n.setConn conn) := by
  have hinit : Paced (n.setConn { n.a.conn with timeSinceLastSegmentReceived := 0 }) := ⟨h.ab, h.ba⟩
  rcases segment_cases hs with ⟨-, rfl⟩ | ⟨-, -, rfl⟩ | ⟨-, hrst, receiver, hrcv, rfl⟩
  · exact h
  · exact hinit.reset false
  · have hacked : Pace (n.a.conn.acked seg) n.a.accepted n.a.ended n.b.conn.receiver n.b.got
        (n.toB ++ n.a.conn.segmentsOut) := by
      unfold acked
      split_ifs
      · exact h.ab.sender (h.ab.paced.ackReceived _ _)
      · exact h.ab
    have hmid : Paced (n.setConn
        { n.a.conn with timeSinceLastSegmentReceived := 0, receiver, sender := n.a.conn.acked seg }) :=
      ⟨hacked, h.ba.segmentReceived hb.2 hseg hrst hrcv⟩
    exact hmid.respond seg

theorem transmit (h : Paced n) : Paced n.transmit := by
  unfold Network.transmit
  cases hout : n.a.conn.segmentsOut with
  | nil => exact h
  | cons seg segs =>
    refine ⟨h.ab.wires fun x hx => Or.inl ?_, h.ba⟩
    have hx' : x ∈ (n.toB ++ [seg]) ++ segs := hx
    rw [hout, List.append_cons]
    exact hx'

theorem lose (h : Paced n) (i : ℕ) : Paced { n with toA := n.toA.eraseIdx i } := by
  refine ⟨h.ab, h.ba.wires fun x hx => Or.inl ?_⟩
  have hx' : x ∈ n.toA.eraseIdx i ++ n.b.conn.segmentsOut := hx
  rw [List.mem_append] at hx' ⊢
  exact hx'.imp_left List.mem_of_mem_eraseIdx

/-- What happens at A keeps the pace. -/
theorem act (h : Paced n) (hb : Bounded n) {action : Action} (hs : n.act action = some n') : Paced n' := by
  cases action with
  | connect =>
    obtain rfl := Option.some.inj hs
    exact Paced.sent (n := n.setConn { n.a.conn with sender := n.a.conn.sender.fillWindow, isActive := true })
      ⟨h.fill.ab, h.fill.ba⟩
  | write data =>
    obtain rfl := Option.some.inj hs
    have hw : Paced
        { n with
          a :=
            { n.a with
              conn := { n.a.conn with sender := (n.a.conn.sender.write data).2 }
              accepted := n.a.accepted ++ data.take (n.a.conn.sender.write data).1 } } :=
      ⟨h.ab.sender (h.ab.paced.write data), h.ba⟩
    exact hw.fill.sent
  | endInputStream =>
    obtain rfl := Option.some.inj hs
    have he : Paced
        { n with a := { n.a with conn := { n.a.conn with sender := n.a.conn.sender.endInput }, ended := true } } :=
      ⟨h.ab.sender h.ab.paced.endInput, h.ba⟩
    exact he.fill.sent
  | tick ms =>
    obtain rfl := Option.some.inj hs
    exact h.tick ms
  | read len =>
    obtain rfl := Option.some.inj hs
    exact ⟨h.ab, h.ba.read len⟩
  | transmit =>
    obtain rfl := Option.some.inj hs
    exact h.transmit
  | deliver i =>
    rcases deliver_cases hs with rfl | ⟨seg, conn, hi, hconn, rfl⟩
    · exact h
    · exact h.segmentReceived hb (List.mem_append_left _ (List.mem_of_getElem? hi)) hconn
  | lose i =>
    obtain rfl := Option.some.inj hs
    exact h.lose i

/-- **Behind**: no side waits for one more than the other has sent. -/
theorem not_ahead (h : Paced n) (hb : Bounded n) : ¬ n.Ahead := by
  rintro ⟨ackno, hackno, hseqno⟩
  have hle := h.ab.received_le
  have hnext := h.ab.paced.speaks.next_le
  have hbound := hb.1
  have hpos : 0 < n.b.conn.receiver.received := by
    have habs := TCPReceiver.absAck_eq n.b.conn.receiver
    unfold TCPReceiver.received
    unfold TCPReceiver.ackno at hackno
    split_ifs at hackno with hsyn
    rw [if_pos (Bool.not_eq_false _ ▸ hsyn)]
    omega
  obtain ⟨k, hk⟩ := Nat.exists_eq_succ_of_ne_zero hpos.ne'
  have hwrap : wrap n.a.conn.sender.nextSeqno n.a.conn.sender.isn = wrap k n.a.conn.sender.isn := by
    have h1 : wrap n.a.conn.sender.nextSeqno n.a.conn.sender.isn = ackno.sub 1 := hseqno
    rw [h1, h.ab.hears.ackno_eq hackno, hk]
    exact wrap_sub_one k _
  -- fewer numbers than 2^32 are in use
  have hmod := wrap_eq_iff.mp hwrap
  split_ifs at hnext <;> omega

theorem pass (h : Paced n) (hb : Bounded n) {t : Transit} (hs : n.pass t = some n') : Paced n' := by
  rcases pass_cases hs with rfl | rfl | ⟨i, rfl⟩ | ⟨i, seg, conn, hi, hconn, rfl⟩
  · exact h
  · exact h.transmit
  · exact h.lose i
  · exact (h.segmentReceived hb (List.mem_append_left _ (List.mem_of_getElem? hi)) hconn).lose i

end Paced

variable {n n' : Network}

/-- Nothing is written while segments pass. -/
theorem pass_accepted {t : Transit} (hs : n.pass t = some n') : n'.a.accepted = n.a.accepted ∧ n'.b = n.b := by
  rcases pass_cases hs with rfl | rfl | ⟨i, rfl⟩ | ⟨i, seg, conn, -, -, rfl⟩
  · exact ⟨rfl, rfl⟩
  · unfold transmit
    cases n.a.conn.segmentsOut <;> exact ⟨rfl, rfl⟩
  · exact ⟨rfl, rfl⟩
  · exact ⟨rfl, rfl⟩

theorem passStep_paced (h : Paced n) (hb : Bounded n) {e : Party × Transit} (hs : passStep n e = some n') :
    Paced n' ∧ Bounded n' := by
  obtain ⟨party, t⟩ := e
  cases party with
  | A =>
    obtain ⟨h1, h2⟩ := pass_accepted hs
    refine ⟨h.pass hb hs, ?_⟩
    unfold Bounded
    rw [h1, h2]
    exact hb
  | B =>
    obtain ⟨n₁, hp, rfl⟩ := Option.map_eq_some_iff.mp hs
    obtain ⟨h1, h2⟩ := pass_accepted hp
    refine ⟨(h.swap.pass hb.symm hp).swap, ?_⟩
    show n₁.b.accepted.length < _ ∧ n₁.a.accepted.length < _
    rw [h1, h2]
    exact hb

/-- A run in which nothing is written is never crossed. -/
theorem along_not_crossed : ∀ {ts : List (Party × Transit)} {n : Network}, Paced n → Bounded n →
    Along passStep (fun n _ => ¬ n.Crossed) n ts
  | [], _, _, _ => trivial
  | _ :: _, _, h, hb => by
    refine ⟨fun hc => h.not_ahead hb hc.1, fun n' hs => ?_⟩
    obtain ⟨h', hb'⟩ := passStep_paced h hb hs
    exact along_not_crossed h' hb'

theorem step_paced (h : Paced n) (hb : Bounded n) {e : Party × Action} (hs : step n e = some n') : Paced n' := by
  obtain ⟨party, action⟩ := e
  cases party with
  | A => exact h.act hb hs
  | B =>
    obtain ⟨n₁, hact, rfl⟩ := Option.map_eq_some_iff.mp hs
    exact (h.swap.act hb.symm hact).swap

theorem run_paced {cfgA cfgB : TCPConfig} {isnA isnB : WrappingInt32} {es : List (Party × Action)}
    (hr : run step (start cfgA cfgB isnA isnB) es = some n) (hb : Bounded n) : Paced n :=
  run_bounded (fun _ _ _ => step_bounded) (fun _ _ _ _ hB hI hs => step_paced hI (step_bounded hs hB) hs)
    (fun e _ => show (fun _ : Party × Action => True) e from trivial) (Paced.start cfgA cfgB isnA isnB) hr hb

/-- **The exchange comes to rest**: from any reachable state the runs of
transmissions, deliveries and losses push a bounded number of segments as long as
no state is crossed, and no state is while each side has written fewer than 2^30
bytes. -/
theorem comes_to_rest {cfgA cfgB : TCPConfig} {isnA isnB : WrappingInt32} {es : List (Party × Action)}
    (hr : run step (start cfgA cfgB isnA isnB) es = some n) :
    (∃ N, ∀ ts, Along passStep (fun n _ => ¬ n.Crossed) n ts → (outputs passStep pushed n ts).length ≤ N) ∧
      (Bounded n → ∃ N, ∀ ts, (outputs passStep pushed n ts).length ≤ N) := by
  refine ⟨pushes_bounded n, fun hb => ?_⟩
  obtain ⟨N, hN⟩ := pushes_bounded n
  exact ⟨N, fun ts => hN ts (along_not_crossed (run_paced hr hb) hb)⟩

theorem comes_to_rest_exchange : ∃ n, run step (start {} {} ⟨5⟩ ⟨7⟩) exchange = some n ∧
    ∃ N, ∀ ts, (outputs passStep pushed n ts).length ≤ N :=
  ⟨_, (Option.some_get exchange_isSome).symm,
    (comes_to_rest (Option.some_get exchange_isSome).symm).2 ⟨by decide +kernel, by decide +kernel⟩⟩

end Network
end Sponge
