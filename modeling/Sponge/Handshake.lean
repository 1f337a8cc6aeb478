/-
# What is pushed around the handshake

Until the SYN of the peer has come, a connection should push nothing but its
own SYN, and everything after carries the acknowledgment of the peer's. The
second half always holds: what goes out is stamped. The first fails where the
connection answers what it should ignore, or where an acknowledgment without a
SYN opens the window. `Calm` says which calls do neither; a run pushes what it
should iff all its calls are calm.

Key definitions: `TCPSender.Opening`, `TCPSender.Blocked`,
`TCPConnection.Pushes`, `TCPConnection.Calm`.
Key theorems: `TCPSender.fillWindow_syn`, `TCPSender.idle_iff_blocked`,
`TCPConnection.pushes_iff`, `TCPConnection.handshake_iff`.
-/
import Sponge.Ackno
import Sponge.FlowControl
import Sponge.Listen

namespace Sponge

/-- Bytes wait in the stream, or the end of it. -/
def ByteStream.Waiting (s : ByteStream) : Prop := s.buffer ≠ [] ∧ s.error = false ∨ s.eof = true

namespace ByteStream

instance (s : ByteStream) : Decidable s.Waiting := inferInstanceAs (Decidable (_ ∨ _))

variable {s : ByteStream}

theorem not_waiting (hb : s.buffer = []) (he : s.inputEnded = false) : ¬ s.Waiting := by simp [Waiting, eof, hb, he]

/-- A write makes something wait iff a byte is accepted. -/
theorem write_waiting (h : ¬ s.Waiting) (data : Bytes) : (s.write data).2.Waiting ↔ ¬ (s.room = 0 ∨ data = []) := by
  by_cases hnone : s.room = 0 ∨ data = []
  · have hbuf : (s.write data).2.buffer = s.buffer := by
      rw [write_snd_buffer]
      rcases hnone with hn | hn <;> simp [hn]
    have hsame : (s.write data).2.Waiting ↔ s.Waiting := by
      simp only [Waiting, eof, hbuf, write_snd_error, write_snd_inputEnded]
    simp [hsame, h, hnone]
  · have hopen : s.Open := by
      by_contra hc
      exact hnone (Or.inl (room_of_not_open hc))
    have hbuf : (s.write data).2.buffer ≠ [] := by
      simp only [not_or] at hnone
      have hpos := List.length_pos_of_ne_nil hnone.2
      rw [write_snd_buffer]
      apply List.append_ne_nil_of_right_ne_nil
      apply List.ne_nil_of_length_pos
      rw [List.length_take]
      omega
    exact ⟨fun _ => hnone, fun _ => Or.inl ⟨hbuf, (write_snd_error s data).trans hopen.1⟩⟩

/-- The end of the stream makes something wait iff nothing is buffered. -/
theorem endInput_waiting (h : ¬ s.Waiting) : s.endInput.Waiting ↔ s.buffer = [] := by
  unfold Waiting at h
  simp only [not_or] at h
  have hsame : s.endInput.Waiting ↔ s.buffer ≠ [] ∧ s.error = false ∨ s.buffer = [] := by
    simp [Waiting, eof, endInput]
  rw [hsame, or_iff_right h.1]

end ByteStream

/-- The SYN of a sender, with no payload and no FIN. -/
def bareSyn (isn : WrappingInt32) : TCPSegment := { header := { syn := true, seqno := isn } }

namespace TCPSender

variable {s : TCPSender}

/-! ### The first segment -/

/-- A loop that has nothing to send ends. -/
theorem fillLoop_of_idle {n w : ℕ} (h : w ≤ s.bytesInFlight ∨ (s.build w).1.lengthInSequenceSpace = 0) :
    fillLoop n w s = s := by
  cases n with
  | zero => rfl
  | succ n =>
    unfold fillLoop
    rcases h with h | h
    · rw [if_neg (not_lt.mpr h)]
    · simp only
      rw [if_pos h, build_idle h, ite_self]

/-- With an empty stream that goes on, a segment carries nothing but a SYN. -/
theorem build_nil {w : ℕ} (hb : s.stream.buffer = []) (he : s.stream.inputEnded = false) :
    s.build w = ({ header := { syn := s.nextSeqno == 0 } }, s) := by
  have hpeek : ∀ n, s.stream.peekOutput n = [] := fun n => by simp [ByteStream.peekOutput, hb]
  have heof : s.stream.eof = false := by simp [ByteStream.eof, he]
  simp only [build, ByteStream.read, hpeek, ByteStream.popOutput_of_peek_nil (hpeek _), heof, Bool.and_false,
    Bool.false_and, Bool.or_false]

/-- In a window of one there is room for the SYN only. -/
theorem build_one (h0 : s.nextSeqno = 0) : s.build 1 = ({ header := { syn := true } }, s) := by
  have hflight : s.bytesInFlight = 0 := by
    unfold bytesInFlight
    omega
  have hsyn : (s.nextSeqno == 0) = true := by simp [h0]
  have hpeek : s.stream.peekOutput 0 = [] := by simp [ByteStream.peekOutput]
  simp only [build, ByteStream.read, hsyn, hflight, ↓reduceIte, Nat.sub_zero, Nat.sub_self, Nat.zero_min, hpeek,
    ByteStream.popOutput_of_peek_nil hpeek, TCPSegment.lengthInSequenceSpace, List.length_nil, Bool.false_eq_true,
    Nat.add_zero, Nat.zero_add, Nat.lt_irrefl, decide_false, Bool.and_false, Bool.or_false]

/-- What goes out first is the SYN alone, if the window is one or the stream
is empty. -/
theorem fillWindow_syn (h0 : s.nextSeqno = 0) (hfin : s.finSent = false) (hle : s.lastAckSeqno ≤ s.nextSeqno)
    (h : s.currentWindow = 1 ∨ s.stream.buffer = [] ∧ s.stream.inputEnded = false) :
    s.fillWindow = s.send { header := { syn := true } } := by
  have hbuild : s.build s.currentWindow = ({ header := { syn := true } }, s) := by
    rcases h with hw | ⟨hb, he⟩
    · rw [hw, build_one h0]
    · rw [build_nil hb he, h0]
      rfl
  have hflight : s.bytesInFlight < s.currentWindow := by
    have := s.currentWindow_pos
    unfold bytesInFlight
    omega
  have hnext : (s.send { header := { syn := true } }).nextSeqno = s.nextSeqno + 1 := rfl
  have hidle : s.currentWindow ≤ (s.send { header := { syn := true } }).bytesInFlight ∨
      ((s.send { header := { syn := true } }).build s.currentWindow).1.lengthInSequenceSpace = 0 := by
    rcases h with hw | ⟨hb, he⟩
    · left
      have hlast : (s.send { header := { syn := true } }).lastAckSeqno = s.lastAckSeqno := rfl
      unfold bytesInFlight
      omega
    · right
      have hb' : (s.send { header := { syn := true } }).stream.buffer = [] := hb
      rw [build_nil hb' he, hnext, h0]
      rfl
  obtain ⟨n, hn⟩ := Nat.exists_eq_succ_of_ne_zero s.currentWindow_pos.ne'
  have hloop : s.fillWindow = fillLoop (n + 1) s.currentWindow s := by
    unfold fillWindow
    rw [if_neg (by rw [hfin]; decide), ← Nat.succ_eq_add_one, ← hn]
  have hstep : fillLoop (n + 1) s.currentWindow s =
      fillLoop n s.currentWindow (s.send { header := { syn := true } }) := by
    conv => lhs; unfold fillLoop
    rw [if_pos hflight, hbuild]
    rfl
  rw [hloop, hstep]
  exact fillLoop_of_idle hidle

/-! ### After the SYN -/

/-- Once the SYN is sent, the window has no room or nothing waits. -/
def Blocked (s : TCPSender) : Prop :=
  s.nextSeqno ≠ 0 → s.bytesInFlight < s.currentWindow → ¬ s.stream.Waiting

/-- Then, and only then, nothing more goes out. -/
theorem idle_iff_blocked (h0 : s.nextSeqno ≠ 0) (hfin : s.finSent = false) : s.Idle ↔ s.Blocked := by
  have hsyn : (s.nextSeqno == 0) = false := by simp [h0]
  unfold Idle Blocked
  rw [hfin]
  rcases Nat.lt_or_ge s.bytesInFlight s.currentWindow with hw | hw
  · have hroom : 0 < s.currentWindow - s.bytesInFlight := by omega
    have hiff : (s.build s.currentWindow).1.lengthInSequenceSpace = 0 ↔ ¬ s.stream.Waiting := by
      by_cases hp : s.stream.buffer = [] ∨ s.stream.error = true
      · -- no bytes to read: only a FIN can go out
        have hpeek : ∀ n, s.stream.peekOutput n = [] := fun n => by
          unfold ByteStream.peekOutput
          exact if_pos (Or.inr hp)
        have hwait : s.stream.Waiting ↔ s.stream.eof = true := by
          unfold ByteStream.Waiting
          rw [or_iff_right]
          rintro ⟨h1, h2⟩
          rcases hp with hp | hp
          · exact h1 hp
          · exact Bool.false_ne_true (h2.symm.trans hp)
        rw [hwait]
        cases he : s.stream.eof <;>
          simp [build, ByteStream.read, hpeek, ByteStream.popOutput_of_peek_nil (hpeek _), hsyn, hfin, he,
            TCPSegment.lengthInSequenceSpace, hroom]
      · simp only [not_or, Bool.not_eq_true] at hp
        have hwait : s.stream.Waiting := Or.inl hp
        have hlen : (s.build s.currentWindow).1.payload.length =
            min (min (s.currentWindow - s.bytesInFlight) TCPConfig.maxPayloadSize) s.stream.buffer.length := by
          simp only [build, ByteStream.read, ByteStream.peekOutput_eq, hsyn, hp.2, Bool.false_eq_true, ↓reduceIte,
            Nat.sub_zero, List.length_take]
        have hpos : 0 < s.stream.buffer.length := List.length_pos_of_ne_nil hp.1
        have hmax : 0 < TCPConfig.maxPayloadSize := by decide
        have hne : (s.build s.currentWindow).1.lengthInSequenceSpace ≠ 0 := by
          unfold TCPSegment.lengthInSequenceSpace
          omega
        exact ⟨fun h => absurd h hne, fun h => absurd hwait h⟩
    rw [hiff]
    constructor
    · rintro (h | h | h)
      · exact absurd h Bool.false_ne_true
      · exact absurd hw (not_lt.mpr h)
      · exact fun _ _ => h
    · exact fun h => Or.inr (Or.inr (h h0 hw))
  · exact ⟨fun _ _ hlt => absurd hlt (not_lt.mpr hw), fun _ => Or.inr (Or.inl hw)⟩

/-- A sender that has sent nothing but its SYN. -/
structure Opening (s : TCPSender) : Prop where
  wf : WF s
  unfinished : s.finSent = false
  next_le : s.nextSeqno ≤ 1
  out : ∀ seg ∈ s.segmentsOut, seg = bareSyn s.isn
  outstanding : ∀ seg ∈ s.segmentsOutstanding, seg = bareSyn s.isn
  first : s.nextSeqno = 0 → s.currentWindow = 1 ∨ s.stream.buffer = [] ∧ s.stream.inputEnded = false

/-- A blocked sender sends its SYN or nothing. -/
theorem Opening.fill (h : Opening s) (hb : Blocked s) :
    Opening s.fillWindow ∧ Blocked s.fillWindow ∧ s.fillWindow.nextSeqno ≠ 0 := by
  rcases Nat.eq_zero_or_pos s.nextSeqno with h0 | h0
  · have hfirst := h.first h0
    have hwf := h.wf.fillWindow
    rw [fillWindow_syn h0 h.unfinished h.wf.acked_le hfirst] at hwf ⊢
    have hsyn : { header := { syn := true, seqno := wrap s.nextSeqno s.isn } } = bareSyn s.isn := by
      rw [h0, wrap_zero]
      rfl
    have hnext : (s.send { header := { syn := true } }).nextSeqno = s.nextSeqno + 1 := rfl
    refine ⟨⟨hwf, h.unfinished, by omega, ?_, ?_, ?_⟩, ?_, by omega⟩
    · intro seg hseg
      rcases List.mem_append.mp hseg with hseg | hseg
      · exact h.out seg hseg
      · exact (List.mem_singleton.mp hseg).trans hsyn
    · intro seg hseg
      rcases List.mem_append.mp hseg with hseg | hseg
      · exact h.outstanding seg hseg
      · exact (List.mem_singleton.mp hseg).trans hsyn
    · intro hc
      omega
    · intro _ hroom
      rcases hfirst with hw | ⟨hbuf, hend⟩
      · have hflight : (s.send { header := { syn := true } }).bytesInFlight = s.nextSeqno + 1 - s.lastAckSeqno := rfl
        have hwin : (s.send { header := { syn := true } }).currentWindow = s.currentWindow := rfl
        have hle := h.wf.acked_le
        omega
      · exact ByteStream.not_waiting hbuf hend
  · rw [fillWindow_of_idle ((idle_iff_blocked h0.ne' h.unfinished).mpr hb)]
    exact ⟨h, hb, h0.ne'⟩

/-- Any other lets out more than its SYN. -/
theorem Opening.leak (h : Opening s) (hb : ¬ Blocked s) :
    ∃ seg ∈ s.fillWindow.segmentsOut, seg.header.rst = false ∧ seg ≠ bareSyn s.isn := by
  have h0 : s.nextSeqno ≠ 0 := fun hc => hb fun hn => absurd hc hn
  have hone : s.nextSeqno = 1 := by
    have := h.next_le
    omega
  have hplain : Plain s := by
    constructor
    · intro seg hseg
      rw [h.out seg hseg]
      rfl
    · intro seg hseg
      rw [h.outstanding seg hseg]
      rfl
  have hidle : ¬ s.Idle := fun hc => hb ((idle_iff_blocked h0 h.unfinished).mp hc)
  obtain ⟨segs, h1, h2, -⟩ := fillWindow_sends h.wf.acked_le
  cases segs with
  | nil => exact absurd (by rw [h1, List.append_nil]) (fillWindow_of_not_idle hidle)
  | cons seg segs =>
    have hmem : seg ∈ s.fillWindow.segmentsOut := by simp [h1]
    refine ⟨seg, hmem, hplain.fillWindow.1 seg hmem, ?_⟩
    rintro rfl
    -- the next number is not the initial one
    have hseq : s.isn = wrap s.nextSeqno s.isn := h2.1
    have hraw := congrArg (fun n => n.rawValue.toNat) hseq
    simp only [wrap_toNat, hone] at hraw
    have hlt := s.isn.rawValue.toNat_lt
    omega

/-- Timers and the queue of segments to send play no part. -/
theorem Opening.congr {s' : TCPSender} (h : Opening s) (hwf : WF s') (hisn : s'.isn = s.isn)
    (hfin : s'.finSent = s.finSent) (hnext : s'.nextSeqno = s.nextSeqno) (hwin : s'.windowSize = s.windowSize)
    (hstream : s'.stream = s.stream) (hout : ∀ seg ∈ s'.segmentsOut, seg ∈ s.segmentsOut ∨ seg = bareSyn s.isn)
    (ho : ∀ seg ∈ s'.segmentsOutstanding, seg ∈ s.segmentsOutstanding) : Opening s' where
  wf := hwf
  unfinished := hfin.trans h.unfinished
  next_le := hnext.le.trans h.next_le
  out := fun seg hseg => by
    rw [hisn]
    exact (hout seg hseg).elim (h.out seg) id
  outstanding := fun seg hseg => by
    rw [hisn]
    exact h.outstanding seg (ho seg hseg)
  first := fun h0 => by
    unfold currentWindow
    rw [hwin, hstream]
    exact h.first (hnext ▸ h0)

theorem Blocked.congr {s' : TCPSender} (h : Blocked s) (hnext : s'.nextSeqno = s.nextSeqno)
    (hlast : s'.lastAckSeqno = s.lastAckSeqno) (hwin : s'.windowSize = s.windowSize)
    (hstream : s'.stream = s.stream) : Blocked s' := by
  unfold Blocked bytesInFlight currentWindow
  rw [hnext, hlast, hwin, hstream]
  exact h

/-- A tick sends the SYN again, if anything. -/
theorem Opening.tick (h : Opening s) (ms : ℕ) : Opening (s.tick ms) := by
  have hwf := h.wf.tick ms
  rcases tick_cases s ms with ⟨time, he⟩ | ⟨seg, segs, rto, ho, he⟩ <;> rw [he] at hwf ⊢
  · exact h.congr hwf rfl rfl rfl rfl rfl (fun _ hseg => Or.inl hseg) fun _ hseg => hseg
  · refine h.congr hwf rfl rfl rfl rfl rfl (fun x hx => ?_) fun _ hseg => hseg
    rcases List.mem_append.mp hx with hx | hx
    · exact Or.inl hx
    · right
      rw [List.mem_singleton.mp hx]
      exact h.outstanding seg (by simp [ho])

end TCPSender

namespace TCPConnection

open TCPSender

variable {c c' : TCPConnection} {seg : TCPSegment}

/-! ### What a call pushes -/

/-- A call pushes, but for resets, copies of the SYN while that of the peer
has not come, and acknowledgments after. -/
def Pushes (c c' : TCPConnection) : Prop :=
  ∀ seg ∈ c'.segmentsOut.drop c.segmentsOut.length, seg.header.rst = false →
    (c'.receiver.synReceived = false → seg = bareSyn c'.sender.isn) ∧
      (c'.receiver.synReceived = true → seg.header.ack = true ∧ c'.receiver.ackno = some seg.header.ackno)

instance (c c' : TCPConnection) : Decidable (Pushes c c') := inferInstanceAs (Decidable (∀ seg ∈ _, _))

/-- The acknowledgment of a segment is accepted and leaves room in the window. -/
def Opens (c : TCPConnection) (seg : TCPSegment) : Prop :=
  let k := unwrap seg.header.ackno c.sender.isn c.sender.nextSeqno
  seg.header.ack = true ∧ k ≤ c.sender.nextSeqno ∧
    c.sender.nextSeqno < max c.sender.lastAckSeqno k + max seg.header.win.toNat 1

/-- Between the own SYN and the peer's, nothing is answered or sent: a segment
occupies no sequence number and opens no window for what waits in the stream,
and while there is room the owner gives the stream no byte and does not end
it when it is empty. -/
def Calm (c : TCPConnection) (op : Op) : Prop :=
  c.receiver.synReceived = false → c.sender.nextSeqno ≠ 0 → match op with
  | .write data => c.sender.bytesInFlight < c.sender.currentWindow → c.sender.stream.room = 0 ∨ data = []
  | .endInputStream => c.sender.bytesInFlight < c.sender.currentWindow → c.sender.stream.buffer ≠ []
  | .segment seg => c.isActive = true → seg.header.rst = false → seg.header.syn = false →
      seg.lengthInSequenceSpace = 0 ∧ (c.Opens seg → ¬ c.sender.stream.Waiting)
  | _ => True

/-- What is pushed was stamped, or it is a reset. -/
theorem pushes_of_stamped {l : List TCPSegment} (h : c'.segmentsOut = c.segmentsOut ++ l)
    (hl : ∀ seg ∈ l, seg.header.rst = true ∨ ∃ x, seg = stamp c'.receiver x) (hr : c'.receiver.synReceived = true) :
    Pushes c c' := by
  intro seg hseg hrst
  rw [h, List.drop_left] at hseg
  obtain ⟨x, rfl⟩ := (hl seg hseg).resolve_left (by rw [hrst]; decide)
  have hack : c'.receiver.ackno = some (wrap c'.receiver.absAck c'.receiver.isn) := if_neg (by rw [hr]; decide)
  refine ⟨fun hc => absurd (hc.symm.trans hr) Bool.false_ne_true, fun _ => ?_⟩
  simp [stamp, hack]

/-- Without a SYN of the peer nothing is stamped. -/
theorem pushes_iff_unsynced {l : List TCPSegment} (h : c'.segmentsOut = c.segmentsOut ++ l.map (stamp c'.receiver))
    (hr : c'.receiver.synReceived = false) :
    Pushes c c' ↔ ∀ seg ∈ l, seg.header.rst = false → seg = bareSyn c'.sender.isn := by
  have hack := TCPReceiver.ackno_unsynced hr
  have hstamp : l.map (stamp c'.receiver) = l := by
    rw [List.map_congr_left (g := id) (fun x _ => by simp [stamp, hack]), List.map_id]
  unfold Pushes
  rw [h, List.drop_left, hstamp, hr]
  simp

/-! ### Before the SYN of the peer -/

/-- What a run keeps until then. -/
structure Early (c : TCPConnection) : Prop where
  unsynced : c.receiver.synReceived = false
  opening : Opening c.sender
  blocked : Blocked c.sender
  unsent : c.sender.nextSeqno = 0 →
    c.sender.currentWindow = 1 ∧ c.sender.stream.buffer = [] ∧ c.sender.stream.inputEnded = false
  queue : c.isActive = true → c.sender.segmentsOut = []

theorem init_early (cfg : TCPConfig) (isn : WrappingInt32) : Early (init cfg isn) where
  unsynced := rfl
  opening := {
    wf := init_wf _ _ _
    unfinished := rfl
    next_le := Nat.zero_le 1
    out := fun seg h => by cases h
    outstanding := fun seg h => by cases h
    first := fun _ => Or.inr ⟨rfl, rfl⟩ }
  blocked := fun h => absurd rfl h
  unsent := fun _ => ⟨rfl, rfl, rfl⟩
  queue := fun _ => rfl

/-- The sender fills its window and its segments go out. -/
theorem early_fill {t : TCPSender} (ht : Opening t) (hr : c'.receiver.synReceived = false)
    (hs : c'.sender = { t.fillWindow with segmentsOut := [] })
    (hout : c'.segmentsOut = c.segmentsOut ++ t.fillWindow.segmentsOut.map (stamp c'.receiver)) :
    (Pushes c c' ↔ Blocked t) ∧ (Blocked t → Early c') := by
  have hisn : c'.sender.isn = t.isn := by
    rw [hs]
    exact (fillWindow_frame t).isn
  rw [pushes_iff_unsynced hout hr, hisn]
  refine ⟨⟨fun hp => ?_, fun hb seg hseg _ => ?_⟩, fun hb => ?_⟩
  · by_contra hb
    obtain ⟨seg, hmem, hrst, hne⟩ := ht.leak hb
    exact hne (hp seg hmem hrst)
  · rw [(ht.fill hb).1.out seg hseg, (fillWindow_frame t).isn]
  · obtain ⟨h1, h2, h3⟩ := ht.fill hb
    have h4 : Opening { t.fillWindow with segmentsOut := [] } :=
      h1.congr (h1.wf.congr rfl rfl rfl rfl rfl rfl) rfl rfl rfl rfl rfl (fun seg hseg => by cases hseg)
        fun _ hseg => hseg
    have h5 : Blocked { t.fillWindow with segmentsOut := [] } := h2.congr rfl rfl rfl rfl
    refine ⟨hr, hs ▸ h4, hs ▸ h5, fun h0 => ?_, fun _ => by rw [hs]⟩
    rw [hs] at h0
    exact absurd h0 h3

/-- The owner changes the stream and the sender fills its window. -/
theorem early_stream (h : Early c) {stream : ByteStream} (hwf : WF { c.sender with stream }) (active : Bool) :
    let c' := sendSegments { c with sender := { c.sender with stream }.fillWindow, isActive := active }
    (Pushes c c' ↔ Blocked { c.sender with stream }) ∧ (Blocked { c.sender with stream } → Early c') := by
  have ht : Opening { c.sender with stream } := ⟨hwf, h.opening.unfinished, h.opening.next_le, h.opening.out,
    h.opening.outstanding, fun h0 => Or.inl (h.unsent h0).1⟩
  exact early_fill ht h.unsynced rfl rfl

theorem early_connect (h : Early c) : Pushes c c.connect ∧ Early c.connect := by
  obtain ⟨h1, h2⟩ := early_stream h h.opening.wf true
  exact ⟨h1.mpr h.blocked, h2 h.blocked⟩

theorem early_write (h : Early c) (data : Bytes) :
    (Pushes c (c.write data).2 ↔ Calm c (.write data)) ∧ (Calm c (.write data) → Early (c.write data).2) := by
  obtain ⟨h1, h2⟩ := early_stream h (h.opening.wf.write data) c.isActive
  have hiff : Blocked { c.sender with stream := (c.sender.stream.write data).2 } ↔ Calm c (.write data) := by
    unfold Calm Blocked
    simp only [h.unsynced, forall_const]
    refine forall_congr' fun h0 => forall_congr' fun hroom => ?_
    rw [ByteStream.write_waiting (h.blocked h0 hroom), not_not]
  rw [hiff] at h1 h2
  exact ⟨h1, h2⟩

theorem early_endInputStream (h : Early c) : (Pushes c c.endInputStream ↔ Calm c .endInputStream) ∧
    (Calm c .endInputStream → Early c.endInputStream) := by
  obtain ⟨h1, h2⟩ := early_stream h h.opening.wf.endInput c.isActive
  have hiff : Blocked { c.sender with stream := c.sender.stream.endInput } ↔ Calm c .endInputStream := by
    unfold Calm Blocked
    simp only [h.unsynced, forall_const]
    refine forall_congr' fun h0 => forall_congr' fun hroom => ?_
    exact not_congr (ByteStream.endInput_waiting (h.blocked h0 hroom))
  rw [hiff] at h1 h2
  exact ⟨h1, h2⟩

/-- A reset changes the streams only. -/
theorem early_setError (h : Early c) {sender : TCPSender} (hs : Opening sender) (hb : Blocked sender)
    (hu : sender.nextSeqno = 0 →
      sender.currentWindow = 1 ∧ sender.stream.buffer = [] ∧ sender.stream.inputEnded = false)
    (hc : c'.receiver = c.receiver.setError) (hs' : c'.sender = sender.setError) (ha : c'.isActive = false) :
    Early c' := by
  refine ⟨hc ▸ h.unsynced, hs' ▸ ?_, hs' ▸ fun h0 hroom hw => ?_, hs' ▸ hu, fun hc => ?_⟩
  · exact ⟨hs.wf.setError, hs.unfinished, hs.next_le, hs.out, hs.outstanding, hs.first⟩
  · refine hb h0 hroom (Or.inr ?_)
    exact hw.resolve_left fun he => Bool.false_ne_true (he.2.symm.trans rfl)
  · exact absurd (ha.symm.trans hc) Bool.false_ne_true

theorem early_tick (h : Early c) (ms : ℕ) : Pushes c (c.tick ms) ∧ Early (c.tick ms) := by
  rcases Bool.eq_false_or_eq_true c.isActive with ha | ha
  · have ht := h.opening.tick ms
    obtain ⟨-, h1, h2, h3, -, h4, -⟩ := tick_frame c.sender ms
    have hb : Blocked (c.sender.tick ms) := h.blocked.congr h1 h2 h3 h4
    have hu : (c.sender.tick ms).nextSeqno = 0 → (c.sender.tick ms).currentWindow = 1 ∧
        (c.sender.tick ms).stream.buffer = [] ∧ (c.sender.tick ms).stream.inputEnded = false := by
      unfold currentWindow
      rw [h1, h3, h4]
      exact h.unsent
    rcases tick_cases ha ms with ⟨-, he⟩ | ⟨-, he⟩ <;> rw [he]
    · refine ⟨fun seg hseg hrst => ?_, early_setError h ht hb hu rfl rfl rfl⟩
      have hout : ((c.ticked ms).setRstState true).segmentsOut = c.segmentsOut ++
        [{ header := { rst := true, seqno := wrap (c.sender.tick ms).nextSeqno (c.sender.tick ms).isn } }] := rfl
      rw [hout, List.drop_left, List.mem_singleton] at hseg
      rw [hseg] at hrst
      cases hrst
    · refine ⟨?_, h.unsynced, ?_, hb.congr rfl rfl rfl rfl, hu, fun _ => rfl⟩
      · apply (pushes_iff_unsynced (l := (c.sender.tick ms).segmentsOut) ?_ ?_).mpr
        · exact fun seg hseg _ => ht.out seg hseg
        · rfl
        · exact h.unsynced
      · exact ht.congr (ht.wf.congr rfl rfl rfl rfl rfl rfl) rfl rfl rfl rfl rfl (fun seg hseg => by cases hseg)
          fun _ hseg => hseg
  · rw [tick_of_inactive ha]
    refine ⟨fun seg hseg => ?_, h⟩
    rw [List.drop_length] at hseg
    cases hseg

/-! ### Segments before the SYN of the peer -/

/-- The acknowledgment leaves a sender that has sent its SYN at most. -/
theorem opening_acknowledge (h : Early c) {k : ℕ} (hk : k ≤ c.sender.nextSeqno) (w : UInt16) :
    Opening (c.sender.acknowledge k w) := by
  obtain ⟨f1, f2, f3, f4, f5, -⟩ := acknowledge_frame c.sender k w
  refine ⟨h.opening.wf.acknowledge hk w, f4.trans h.opening.unfinished, f2.le.trans h.opening.next_le, ?_, ?_, ?_⟩
  · rw [f1, f5]
    exact h.opening.out
  · intro seg hseg
    rw [f1]
    exact h.opening.outstanding seg ((acknowledge_suffix c.sender k w).subset hseg)
  · intro h0
    rw [f3]
    exact Or.inr (h.unsent (f2.symm.trans h0)).2

theorem blocked_acknowledge {s : TCPSender} (k : ℕ) (w : UInt16) : Blocked (s.acknowledge k w) ↔
    (s.nextSeqno ≠ 0 → s.nextSeqno < max s.lastAckSeqno k + max w.toNat 1 → ¬ s.stream.Waiting) := by
  obtain ⟨-, f2, f3, -, -, f6⟩ := acknowledge_frame s k w
  have hroom : (s.acknowledge k w).bytesInFlight < (s.acknowledge k w).currentWindow ↔
      s.nextSeqno < max s.lastAckSeqno k + max w.toNat 1 := by
    rw [Flow.currentWindow_eq, f6]
    unfold bytesInFlight
    rw [f2, acknowledge_lastAck]
    omega
  unfold Blocked
  rw [hroom, f2, f3]

/-- The sender after a segment, if that opens no window for what waits: it has
sent its SYN at most, and nothing if it had sent it before. -/
theorem early_acked (h : Early c) (ha : c.isActive = true)
    (hcalm : c.sender.nextSeqno ≠ 0 → c.Opens seg → ¬ c.sender.stream.Waiting) :
    Opening (c.acked seg) ∧ Blocked (c.acked seg) ∧
      ((c.acked seg).nextSeqno = 0 → c.acked seg = c.sender) ∧
      (c.sender.nextSeqno = 0 → (c.acked seg).nextSeqno = 0 ∨ (c.acked seg).segmentsOut ≠ []) ∧
      (c.sender.nextSeqno ≠ 0 → (c.acked seg).segmentsOut = []) := by
  have hq := h.queue ha
  by_cases hacc : seg.header.ack = true ∧ unwrap seg.header.ackno c.sender.isn c.sender.nextSeqno ≤ c.sender.nextSeqno
  · obtain ⟨hack, hk⟩ := hacc
    have heq : c.acked seg = c.sender.ackReceived seg.header.ackno seg.header.win := if_pos hack
    have hopens : c.Opens seg ↔ c.sender.nextSeqno < max c.sender.lastAckSeqno
        (unwrap seg.header.ackno c.sender.isn c.sender.nextSeqno) + max seg.header.win.toNat 1 := by
      simp only [Opens, hack, hk, true_and]
    rw [hopens] at hcalm
    rw [heq, ackReceived_of_le hk]
    generalize unwrap seg.header.ackno c.sender.isn c.sender.nextSeqno = k at hk hcalm
    obtain ⟨-, f2, -, f4, f5, -⟩ := acknowledge_frame c.sender k seg.header.win
    have ht := opening_acknowledge h hk seg.header.win
    have hb := (blocked_acknowledge k seg.header.win).mpr hcalm
    obtain ⟨h1, h2, h3⟩ := ht.fill hb
    have hs := settleTimer_timerOnly (c.sender.acknowledge k seg.header.win).fillWindow
      (decide (c.sender.lastAckSeqno < k))
    have hout : ((c.sender.acknowledge k seg.header.win).fillWindow.settleTimer
        (decide (c.sender.lastAckSeqno < k))).segmentsOut =
        (c.sender.acknowledge k seg.header.win).fillWindow.segmentsOut := hs.out
    refine ⟨?_, h2.congr hs.next hs.lastAck hs.window hs.stream, fun h0 => ?_, fun h0 => Or.inr ?_, fun h0 => ?_⟩
    · exact h1.congr (h1.wf.timer (settleTimer_timerOnly _ _)) hs.isn hs.finSent hs.next hs.window hs.stream
        (fun x hx => Or.inl (hs.out ▸ hx)) fun x hx => hs.outstanding ▸ hx
    · exact absurd (hs.next.symm.trans h0) h3
    · have hne := fillWindow_of_not_idle (not_idle_of_zero (f2.trans h0) (f4.trans h.opening.unfinished))
      rw [f5, hq] at hne
      rw [hout]
      exact hne
    · have hidle := (idle_iff_blocked (f2.trans_ne h0) (f4.trans h.opening.unfinished)).mpr hb
      rw [hout, fillWindow_of_idle hidle, f5, hq]
  · have heq : c.acked seg = c.sender := by
      unfold acked
      split_ifs with hack
      · exact ackReceived_of_lt (not_le.mp fun hk => hacc ⟨hack, hk⟩) _
      · rfl
    rw [heq]
    exact ⟨h.opening, h.blocked, fun _ => rfl, fun h0 => Or.inl h0, fun _ => hq⟩

/-- Otherwise the segment lets out more than the SYN. -/
theorem acked_leak (h : Early c) (hn : c.sender.nextSeqno ≠ 0) (ho : c.Opens seg) (hw : c.sender.stream.Waiting) :
    ∃ x ∈ (c.acked seg).segmentsOut, x.header.rst = false ∧ x ≠ bareSyn c.sender.isn := by
  obtain ⟨hack, hk, hroom⟩ := ho
  have heq : c.acked seg = c.sender.ackReceived seg.header.ackno seg.header.win := if_pos hack
  rw [heq, ackReceived_of_le hk, (settleTimer_timerOnly _ _).out]
  have hisn := (acknowledge_frame c.sender (unwrap seg.header.ackno c.sender.isn c.sender.nextSeqno) seg.header.win).1
  have hb : ¬ Blocked
      (c.sender.acknowledge (unwrap seg.header.ackno c.sender.isn c.sender.nextSeqno) seg.header.win) := by
    intro hb
    exact (blocked_acknowledge _ _).mp hb hn hroom hw
  obtain ⟨x, hx, hrst, hne⟩ := (opening_acknowledge h hk seg.header.win).leak hb
  rw [hisn] at hne
  exact ⟨x, hx, hrst, hne⟩

theorem answer_frame (c : TCPConnection) (seg : TCPSegment) : (c.answer seg).receiver = c.receiver ∧
    (c.answer seg).segmentsOut = c.segmentsOut ∧ (c.answer seg).sender.isn = c.sender.isn ∧
    c.sender.segmentsOut <+: (c.answer seg).sender.segmentsOut := by
  have hisn := (fillWindow_frame c.sender).isn
  have hout := fillWindow_out c.sender
  unfold answer
  split_ifs with hlen
  · by_cases hq : c.sender.fillWindow.segmentsOut = []
    · simp only [hq, ↓reduceIte]
      refine ⟨trivial, trivial, hisn, hout.trans (List.prefix_append _ _)⟩
    · simp only [hq, ↓reduceIte]
      exact ⟨trivial, trivial, hisn, hout⟩
  · exact ⟨rfl, rfl, rfl, List.prefix_refl _⟩

/-- The segments that go out after an answer. -/
theorem pushes_answer {d : TCPConnection} (hr : d.receiver.synReceived = false) (ho : d.segmentsOut = c.segmentsOut) :
    Pushes c (d.answer seg).sendSegments ↔
      ∀ x ∈ (d.answer seg).sender.segmentsOut, x.header.rst = false → x = bareSyn d.sender.isn := by
  obtain ⟨h1, h2, h3, -⟩ := answer_frame d seg
  have hout : (d.answer seg).sendSegments.segmentsOut = c.segmentsOut ++
      (d.answer seg).sender.segmentsOut.map (stamp (d.answer seg).sendSegments.receiver) := by
    rw [sendSegments_segmentsOut, h2, ho]
    rfl
  rw [pushes_iff_unsynced hout (h1 ▸ hr), ← h3]
  rfl

theorem early_sent {d : TCPConnection} (hr : d.receiver.synReceived = false) (hs : Opening d.sender)
    (hb : Blocked d.sender) (hu : d.sender.nextSeqno = 0 → d.sender.currentWindow = 1 ∧ d.sender.stream.buffer = [] ∧
      d.sender.stream.inputEnded = false) : Early d.sendSegments where
  unsynced := hr
  opening := hs.congr (hs.wf.congr rfl rfl rfl rfl rfl rfl) rfl rfl rfl rfl rfl (fun seg hseg => by cases hseg)
    fun _ hseg => hseg
  blocked := hb.congr rfl rfl rfl rfl
  unsent := hu
  queue := fun _ => rfl

theorem acked_isn (c : TCPConnection) (seg : TCPSegment) : (c.acked seg).isn = c.sender.isn := by
  unfold acked
  split_ifs
  · exact (ackReceived_frame _ _ _).1
  · rfl

/-- When a segment occupies no sequence number and opens no window for what
waits, or the SYN is still to be sent. -/
def CalmSegment (c : TCPConnection) (seg : TCPSegment) : Prop :=
  c.sender.nextSeqno ≠ 0 → seg.lengthInSequenceSpace = 0 ∧ (c.Opens seg → ¬ c.sender.stream.Waiting)

theorem early_answer (h : Early c) (ha : c.isActive = true) {d : TCPConnection} (hr : d.receiver.synReceived = false)
    (ho : d.segmentsOut = c.segmentsOut) (hd : d.sender = c.acked seg) :
    (Pushes c (d.answer seg).sendSegments ↔ c.CalmSegment seg) ∧
      (c.CalmSegment seg → Early (d.answer seg).sendSegments) := by
  rw [pushes_answer hr ho]
  by_cases hopen : c.sender.nextSeqno ≠ 0 → c.Opens seg → ¬ c.sender.stream.Waiting
  · obtain ⟨hs, hb, hsame, hzero, hnone⟩ := early_acked h ha hopen
    rw [← hd] at hs hb hsame hzero hnone
    rcases Nat.eq_zero_or_pos seg.lengthInSequenceSpace with hlen | hlen
    · have hcalm : c.CalmSegment seg := fun hn => ⟨hlen, hopen hn⟩
      rw [answer_of_empty d hlen]
      refine ⟨⟨fun _ => hcalm, fun _ x hx _ => hs.out x hx⟩, fun _ => early_sent hr hs hb fun h0 => ?_⟩
      have heq := hsame h0
      rw [heq] at h0 ⊢
      exact h.unsent h0
    · obtain ⟨h1, h2, h3⟩ := hs.fill hb
      by_cases hn : c.sender.nextSeqno = 0
      · -- the SYN is sent in this call
        have hcalm : c.CalmSegment seg := fun hc => absurd hn hc
        have hout : d.sender.fillWindow.segmentsOut ≠ [] := by
          rcases hzero hn with h0 | hne
          · exact fillWindow_ne_nil (not_idle_of_zero h0 hs.unfinished)
          · exact fun hnil => hne (List.prefix_nil.mp (hnil ▸ fillWindow_out d.sender))
        have hans : d.answer seg = { d with sender := d.sender.fillWindow } := by
          unfold answer
          rw [if_pos hlen]
          simp only [hout, ↓reduceIte]
        rw [hans]
        refine ⟨⟨fun _ => hcalm, fun _ x hx _ => ?_⟩, fun _ => early_sent hr h1 h2 fun hc => absurd hc h3⟩
        rw [← (fillWindow_frame d.sender).isn]
        exact h1.out x hx
      · -- what occupies sequence numbers is answered without an acknowledgment
        have hcalm : ¬ c.CalmSegment seg := by
          intro hc
          have := (hc hn).1
          omega
        have hn' : d.sender.nextSeqno ≠ 0 := by
          intro h0
          rw [hsame h0] at h0
          exact hn h0
        have hidle := fillWindow_of_idle ((idle_iff_blocked hn' hs.unfinished).mpr hb)
        have hans : (d.answer seg).sender = d.sender.sendEmptySegment := by
          unfold answer
          rw [if_pos hlen]
          simp only [hidle, hnone hn, ↓reduceIte]
        have hpush : ¬ ∀ x ∈ (d.answer seg).sender.segmentsOut, x.header.rst = false → x = bareSyn d.sender.isn := by
          intro hall
          have hempty := hall { header := { seqno := wrap d.sender.nextSeqno d.sender.isn } }
            (by simp [hans, sendEmptySegment]) rfl
          have hsyn := congrArg (fun x => x.header.syn) hempty
          simp [bareSyn] at hsyn
        exact ⟨iff_of_false hpush hcalm, fun hc => absurd hc hcalm⟩
  · simp only [Classical.not_imp, not_not] at hopen
    obtain ⟨hn, hop, hw⟩ := hopen
    have hcalm : ¬ c.CalmSegment seg := fun hc => (hc hn).2 hop hw
    have hpush : ¬ ∀ x ∈ (d.answer seg).sender.segmentsOut, x.header.rst = false → x = bareSyn d.sender.isn := by
      intro hall
      obtain ⟨x, hx, hrst, hne⟩ := acked_leak h hn hop hw
      rw [← hd] at hx
      have hxeq := hall x ((answer_frame d seg).2.2.2.subset hx) hrst
      rw [hd, acked_isn] at hxeq
      exact hne hxeq
    exact ⟨iff_of_false hpush hcalm, fun hc => absurd hc hcalm⟩

/-! ### Runs -/

/-- What a call pushes are resets, and segments stamped by the receiver. -/
theorem step_stamps {op : Op} (hs : step c op = some c') : ∃ l, c'.segmentsOut = c.segmentsOut ++ l ∧
    ∀ seg ∈ l, seg.header.rst = true ∨ ∃ x, seg = stamp c'.receiver x := by
  have hmap : ∀ {d : TCPConnection} {l : List TCPSegment}, d.segmentsOut = c.segmentsOut ++ l.map (stamp d.receiver) →
      ∃ l, d.segmentsOut = c.segmentsOut ++ l ∧ ∀ seg ∈ l, seg.header.rst = true ∨ ∃ x, seg = stamp d.receiver x := by
    intro d l hd
    refine ⟨_, hd, fun seg hseg => Or.inr ?_⟩
    obtain ⟨x, -, rfl⟩ := List.mem_map.mp hseg
    exact ⟨x, rfl⟩
  have hnone : ∀ {d : TCPConnection}, d.segmentsOut = c.segmentsOut → ∃ l, d.segmentsOut = c.segmentsOut ++ l ∧
      ∀ seg ∈ l, seg.header.rst = true ∨ ∃ x, seg = stamp d.receiver x := by
    intro d hd
    exact ⟨[], by rw [hd, List.append_nil], fun seg hseg => absurd hseg List.not_mem_nil⟩
  cases op with
  | connect =>
    obtain rfl := Option.some.inj hs
    exact hmap (l := c.sender.fillWindow.segmentsOut) rfl
  | write data =>
    obtain rfl := Option.some.inj hs
    exact hmap (l := (c.sender.write data).2.fillWindow.segmentsOut) rfl
  | endInputStream =>
    obtain rfl := Option.some.inj hs
    exact hmap (l := c.sender.endInput.fillWindow.segmentsOut) rfl
  | read len =>
    obtain rfl := Option.some.inj hs
    exact hnone rfl
  | tick ms =>
    obtain rfl := Option.some.inj hs
    rcases Bool.eq_false_or_eq_true c.isActive with ha | ha
    · rcases tick_cases ha ms with ⟨-, he⟩ | ⟨-, he⟩ <;> rw [he]
      · refine ⟨[{ header :=
          { rst := true, seqno := wrap (c.ticked ms).sender.nextSeqno (c.ticked ms).sender.isn } }], rfl,
          fun seg hseg => Or.inl ?_⟩
        rw [List.mem_singleton.mp hseg]
      · exact hmap (l := (c.sender.tick ms).segmentsOut) rfl
    · rw [tick_of_inactive ha]
      exact hnone rfl
  | segment seg =>
    change c.segmentReceived seg = some c' at hs
    rcases segment_cases hs with ⟨-, rfl⟩ | ⟨-, -, rfl⟩ | ⟨-, -, receiver, -, rfl⟩
    · exact hnone rfl
    · exact hnone rfl
    · apply respond_induct (P := fun d => d.segmentsOut = c.segmentsOut)
        (Q := fun d => ∃ l, d.segmentsOut = c.segmentsOut ++ l ∧
          ∀ seg ∈ l, seg.header.rst = true ∨ ∃ x, seg = stamp d.receiver x)
      · exact fun _ hd => hd
      · exact fun _ hd => hd
      · exact fun _ hd => hd
      · exact fun _ hd => hd
      · intro d hd
        apply hmap (l := d.sender.segmentsOut)
        rw [sendSegments_segmentsOut, hd]
        rfl
      · rfl

theorem segmentReceived_syn (ha : c.isActive = true) (hrst : seg.header.rst = false)
    (hs : c.segmentReceived seg = some c') :
    c'.receiver.synReceived = (c.receiver.synReceived || seg.header.syn) := by
  rw [segmentReceived_eq ha hrst] at hs
  obtain ⟨receiver, hrcv, rfl⟩ := Option.map_eq_some_iff.mp hs
  have hsyn : receiver.synReceived = (c.receiver.synReceived || seg.header.syn) := by
    rw [(TCPReceiver.segmentReceived_isn hrcv).1]
    unfold TCPReceiver.synced
    split_ifs with h <;> simp [h]
  apply respond_induct (P := fun d => d.receiver.synReceived = (c.receiver.synReceived || seg.header.syn))
    (Q := fun d => d.receiver.synReceived = (c.receiver.synReceived || seg.header.syn))
  · exact fun _ hd => hd
  · exact fun _ hd => hd
  · exact fun _ hd => hd
  · exact fun _ hd => hd
  · exact fun _ hd => hd
  · exact hsyn

/-- The SYN of the peer, once there, is there for good. -/
theorem step_synced {op : Op} (hr : c.receiver.synReceived = true) (hs : step c op = some c') :
    c'.receiver.synReceived = true := by
  cases op with
  | tick ms =>
    obtain rfl := Option.some.inj hs
    rcases Bool.eq_false_or_eq_true c.isActive with ha | ha
    · rcases tick_cases ha ms with ⟨-, he⟩ | ⟨-, he⟩ <;> rw [he] <;> exact hr
    · rw [tick_of_inactive ha]
      exact hr
  | segment seg =>
    change c.segmentReceived seg = some c' at hs
    rcases segment_cases hs with ⟨-, rfl⟩ | ⟨-, -, rfl⟩ | ⟨ha, hrst, -⟩
    · exact hr
    · exact hr
    · rw [segmentReceived_syn ha hrst hs, hr, Bool.true_or]
  | _ =>
    obtain rfl := Option.some.inj hs
    exact hr

/-- What every run keeps whose calls push what they should. -/
def Proper (c : TCPConnection) : Prop := c.receiver.synReceived = true ∨ Early c

theorem early_segment (h : Early c) (hs : c.segmentReceived seg = some c') :
    (Pushes c c' ↔ Calm c (.segment seg)) ∧ (Calm c (.segment seg) → Proper c') := by
  rcases segment_cases hs with ⟨ha, rfl⟩ | ⟨-, hrst, rfl⟩ | ⟨ha, hrst, -⟩
  · have hcalm : Calm c' (.segment seg) := fun _ _ hc => absurd (ha.symm.trans hc) Bool.false_ne_true
    refine ⟨⟨fun _ => hcalm, fun _ x hx => ?_⟩, fun _ => Or.inr h⟩
    simp at hx
  · have hcalm : Calm c (.segment seg) := fun _ _ _ hc => absurd (hrst.symm.trans hc) (by decide)
    refine ⟨⟨fun _ => hcalm, fun _ x hx => ?_⟩, fun _ => Or.inr ?_⟩
    · simp [setRstState] at hx
    · exact early_setError h h.opening h.blocked h.unsent rfl rfl rfl
  · rcases Bool.eq_false_or_eq_true seg.header.syn with hsyn | hsyn
    · have hcalm : Calm c (.segment seg) := fun _ _ _ _ hc => absurd (hsyn.symm.trans hc) (by decide)
      have hr : c'.receiver.synReceived = true := by rw [segmentReceived_syn ha hrst hs, hsyn, Bool.or_true]
      obtain ⟨l, h1, h2⟩ := step_stamps (show step c (.segment seg) = some c' from hs)
      exact ⟨iff_of_true (pushes_of_stamped h1 h2 hr) hcalm, fun _ => Or.inl hr⟩
    · rw [segmentReceived_unsynced ha h.unsynced hrst hsyn] at hs
      obtain rfl := Option.some.inj hs
      have hiff : Calm c (.segment seg) ↔ c.CalmSegment seg := by
        simp only [Calm, CalmSegment, h.unsynced, ha, hrst, hsyn, forall_const]
      rw [hiff]
      obtain ⟨h1, h2⟩ := early_answer (d := { c with timeSinceLastSegmentReceived := 0, sender := c.acked seg })
        h ha h.unsynced rfl rfl
      exact ⟨h1, fun hc => Or.inr (h2 hc)⟩

/-- A call pushes what it should iff it is calm, and then the next one is as
well placed. -/
theorem pushes_iff (h : Proper c) {op : Op} (hs : step c op = some c') :
    (Pushes c c' ↔ Calm c op) ∧ (Calm c op → Proper c') := by
  rcases h with hr | h
  · have hr' := step_synced hr hs
    obtain ⟨l, h1, h2⟩ := step_stamps hs
    have hcalm : Calm c op := fun hc => absurd (hr.symm.trans hc) (by decide)
    exact ⟨iff_of_true (pushes_of_stamped h1 h2 hr') hcalm, fun _ => Or.inl hr'⟩
  · cases op with
    | connect =>
      obtain rfl := Option.some.inj hs
      obtain ⟨h1, h2⟩ := early_connect h
      exact ⟨iff_of_true h1 fun _ _ => trivial, fun _ => Or.inr h2⟩
    | write data =>
      obtain rfl := Option.some.inj hs
      obtain ⟨h1, h2⟩ := early_write h data
      exact ⟨h1, fun hc => Or.inr (h2 hc)⟩
    | endInputStream =>
      obtain rfl := Option.some.inj hs
      obtain ⟨h1, h2⟩ := early_endInputStream h
      exact ⟨h1, fun hc => Or.inr (h2 hc)⟩
    | segment seg => exact early_segment h hs
    | tick ms =>
      obtain rfl := Option.some.inj hs
      obtain ⟨h1, h2⟩ := early_tick h ms
      exact ⟨iff_of_true h1 fun _ _ => trivial, fun _ => Or.inr h2⟩
    | read len =>
      obtain rfl := Option.some.inj hs
      refine ⟨iff_of_true (fun x hx => ?_) fun _ _ => trivial, fun _ => Or.inr ?_⟩
      · simp [readInbound] at hx
      · exact ⟨h.unsynced, h.opening, h.blocked, h.unsent, h.queue⟩

/-- Only a segment with the SYN of the peer, or one after it, can fail. -/
theorem calm_of_fails (h : Proper c) {op : Op} (hs : step c op = none) : Calm c op := by
  intro hr _
  have h := h.resolve_left (by rw [hr]; decide)
  cases op with
  | segment seg =>
    intro ha hrst hsyn
    have hsome := (segmentReceived_unsynced ha hr hrst hsyn).symm.trans hs
    cases hsome
  | _ => cases hs

/-- **The handshake**: in every run of calls, what is pushed before the SYN of
the peer are copies of the own one, and after it acknowledgments, iff every
call is calm. -/
theorem handshake_iff (cfg : TCPConfig) (isn : WrappingInt32) (ops : List Op) :
    Runs.Along step (fun c op => ∀ c', step c op = some c' → Pushes c c') (init cfg isn) ops ↔
      Runs.Along step Calm (init cfg isn) ops := by
  apply Runs.along_congr (I := Proper)
  · intro c op h
    constructor
    · intro hp
      cases hs : step c op with
      | none => exact calm_of_fails h hs
      | some c' => exact (pushes_iff h hs).1.mp (hp c' hs)
    · intro hcalm c' hs
      exact (pushes_iff h hs).1.mpr hcalm
  · intro c op c' h hp hs
    exact (pushes_iff h hs).2 ((pushes_iff h hs).1.mp (hp c' hs))
  · exact Or.inr (init_early cfg isn)

/-- A byte with an acknowledgment of the SYN. -/
def earlyByte : TCPSegment := { header := { ack := true, ackno := ⟨1⟩, win := 10 }, payload := [97] }

/-- After `connect` it is answered with an empty segment that acknowledges nothing. -/
theorem early_byte_answered : ∃ c ∈ Runs.run step (init {} ⟨0⟩) [.connect], ∃ c' ∈ step c (.segment earlyByte),
    c'.receiver.synReceived = false ∧ ¬ Pushes c c' ∧
    c'.segmentsOut.drop c.segmentsOut.length = [{ header := { seqno := ⟨1⟩ } }] := by
  decide +kernel

end TCPConnection
end Sponge
