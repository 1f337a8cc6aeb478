/-
# Progress

What keeps one direction of a connection from being stuck. A sender sends what
the window allows as soon as it may; so if it is not done it has a segment
outstanding, and a tick that is long enough has the oldest one sent again. A
receiver whose reader has taken everything gets on with the segment that has the
number it waits for.

Key definitions: `TCPSender.Timed`, `TCPSender.Sated`, `TCPConnection.Lively`.
Key theorems: `TCPReceiver.gets_on`, `TCPSender.Sated.filled`,
`TCPConnection.step_lively`, `TCPConnection.nothing_waits`,
`TCPConnection.Lively.retransmits`.
-/
import Sponge.Answers
import Sponge.FillWindow
import Sponge.Link
import Sponge.SegmentSize
import Sponge.RetxTimer

namespace Sponge

open Pieces

/-! ### The receiver -/

namespace StreamReassembler

variable {S got : Bytes} {fin : Prop} {r r' : StreamReassembler} {capacity l index : ℕ} {data : Bytes} {eof : Bool}

/-- With all of the sequence written, nothing is stored. -/
theorem Assembles.store_nil (h : Assembles S fin got r) (hall : S.length ≤ r.output.bytesWritten) :
    r.unassembleStrs = [] := by
  apply List.eq_nil_iff_forall_not_mem.mpr
  intro p hmem
  have hkey := h.wf.ordered.le_key p hmem
  have hnext := h.wf.next_eq
  have hpiece : p.2 <+: S.drop p.1 := h.pieces p hmem
  rw [List.drop_eq_nil_iff.mpr (by omega), List.prefix_nil] at hpiece
  exact h.wf.ordered.ne_nil p hmem hpiece

/-- With nothing left to read, a push of what comes next is taken: no piece is
long enough to fill the window. -/
theorem gets_on (h : Assembles S fin got r) (hheld : Held capacity l r) (hl : l < capacity) (he : r.edge ≤ 2 ^ 63)
    (ho : r.output.Open) (hdrained : r.output.buffer = []) (hp : Holds S (index, data))
    (hfin : eof = true → fin ∧ index + data.length = S.length) (hd : data.length < 2 ^ 63)
    (hi : index ≤ r.output.bytesWritten)
    (hlt : r.output.bytesWritten < index + data.length + if eof then 1 else 0)
    (hr : r.pushSubstring data index eof = some r') :
    r.output.bytesWritten < r'.output.bytesWritten + if r'.output.inputEnded then 1 else 0 := by
  have hcount := r.output.count
  have hcap := hheld.cap
  have hnext := h.wf.next_eq
  have hedge : r.edge = r.output.bytesWritten + capacity := by
    rw [hdrained, List.length_nil] at hcount
    unfold edge
    omega
  by_cases hlen : r.output.bytesWritten < index + data.length
  · have hfree : ¬ Blocked r index := by
      rintro ⟨-, rfl, p, hp, hpi, hpe⟩
      have hlong := hheld.lens p hp
      omega
    obtain ⟨r'', h1, h2⟩ := (advances_iff h.wf he ho hd hi hlen eof).mpr hfree
    obtain rfl := Option.some.inj (h1.symm.trans hr)
    omega
  · -- the FIN alone is missing, so nothing is stored
    have heof : eof = true := by
      by_contra hc
      rw [if_neg hc] at hlt
      omega
    obtain ⟨-, hend⟩ := hfin heof
    have hle := h.written_le
    have hnil := h.store_nil (by omega)
    have hstart : r.start index = r.nextAssembledIdx := by
      rcases left_cases h.wf.toTidy (hi.trans_eq hnext.symm) with ⟨h1, -⟩ | ⟨-, b, h2, -⟩
      · exact h1
      · have hmem : (index, b) ∈ r.unassembleStrs := (mem_left (h2.symm ▸ List.mem_singleton_self (index, b))).1
        rw [hnil] at hmem
        cases hmem
    obtain ⟨r'', d, h1, hpushed⟩ := push_spec h.wf (show index < 2 ^ 64 by omega)
      (pushOk_of_edge h.wf.toTidy he hd) eof
    obtain rfl := Option.some.inj (h1.symm.trans hr)
    have hge := hpushed.next
    have hnext' := hpushed.wf.next_eq
    have hended : r''.output.inputEnded = true := by
      by_contra hc
      have hgt := hpushed.wf.eof_gt (Bool.not_eq_true _ ▸ hc)
      rcases push_cases h.wf.toTidy he hd (by omega) hr with ⟨hfar, -⟩ | ⟨-, r₁, -, hfinish⟩
      · omega
      · have hidx : r''.eofIdx = index + data.length := by
          rw [hfinish, finish_eofIdx, if_pos heof]
        omega
    rw [if_pos hended]
    omega

end StreamReassembler

/-- What carries its part of the bytes ends by the number after the FIN. -/
theorem Carries.length_le {isn : WrappingInt32} {accepted : Bytes} {ended : Bool} {k : ℕ} {seg : TCPSegment}
    (h : Carries isn accepted ended k seg) : k + seg.lengthInSequenceSpace ≤ accepted.length + 2 := by
  have hle := h.le
  have hsyn := h.syn
  unfold TCPSegment.lengthInSequenceSpace
  by_cases h0 : k = 0
  · rw [if_pos (hsyn.mpr h0)]
    split_ifs <;> omega
  · rw [if_neg fun hs => h0 (hsyn.mp hs)]
    split_ifs <;> omega

namespace TCPReceiver

open StreamReassembler

variable {isn : WrappingInt32} {accepted got : Bytes} {ended : Bool} {rcv rcv' : TCPReceiver} {seg : TCPSegment}
  {capacity l k : ℕ}

/-- What a receiver that knows the SYN does with its part of the bytes: nothing if
it is the SYN alone, else it pushes them where they belong. -/
theorem Hears.pushes (h : rcv.Hears isn accepted ended got) (hS : accepted.length < 2 ^ 30)
    (hsyn : rcv.synReceived = true) (hc : Carries isn accepted ended k seg)
    (hs : rcv.segmentReceived seg = some rcv') :
    k + seg.lengthInSequenceSpace = 1 ∨ ∃ data index, rcv.push data index seg.header.fin = some rcv' ∧
      Holds accepted (index, data) ∧ data.length ≤ seg.payload.length ∧ index ≤ k - 1 ∧
      (seg.header.fin = true → ended = true ∧ index + data.length = accepted.length) ∧
      index + 1 + data.length + (if seg.header.fin then 1 else 0) = k + seg.lengthInSequenceSpace := by
  have hsame : rcv.synced seg = rcv := by
    unfold TCPReceiver.synced
    split_ifs with hs'
    · have hseqno : seg.header.seqno = rcv.isn := by rw [hc.seqno, hc.syn.mp hs', wrap_zero, h.isn hsyn]
      rw [hseqno, ← hsyn]
    · rfl
  have hfin := hc.fin
  unfold TCPReceiver.segmentReceived at hs
  dsimp only at hs
  rw [hsame, if_neg (by rw [hsyn]; decide), h.streamIndex_eq hS hsyn hc] at hs
  unfold TCPSegment.lengthInSequenceSpace
  by_cases h0 : k = 0
  · rw [if_pos (hc.syn.mpr h0)]
    by_cases hempty : seg.payload = []
    · rw [if_pos ⟨hc.syn.mpr h0, hempty⟩] at hs
      rw [hempty, h0] at hfin
      rw [hempty, h0]
      by_cases hf : seg.header.fin = true
      · rw [if_pos hf] at hs
        refine Or.inr ⟨[], 0, hf.symm ▸ hs, List.nil_prefix, le_rfl, le_rfl, hfin, ?_⟩
        simp only [List.length_nil]
        omega
      · left
        rw [if_neg hf, List.length_nil]
    · rw [if_neg fun hc => hempty hc.2] at hs
      exact Or.inr ⟨_, _, hs, hc.piece, le_rfl, le_rfl, hfin, by omega⟩
  · have hno : ¬ seg.header.syn = true := fun hc' => h0 (hc.syn.mp hc')
    rw [if_neg fun hc => hno hc.1] at hs
    rw [if_neg hno]
    exact Or.inr ⟨_, _, hs, hc.piece, le_rfl, le_rfl, hfin, by omega⟩

/-- A receiver whose stream is ended has every number. -/
theorem Hears.received_of_ended (h : rcv.Hears isn accepted ended got) (hsyn : rcv.synReceived = true)
    (hended : rcv.streamOut.inputEnded = true) : rcv.received = accepted.length + 2 := by
  have hall : rcv.streamOut.bytesWritten = accepted.length := (h.assembles.ended hended).2
  rw [received, if_pos hsyn, absAck_eq, if_pos hended, hall]

/-- A receiver whose reader has everything gets on with a segment that has the
number it waits for. -/
theorem gets_on (h : rcv.Hears isn accepted ended got) (hS : accepted.length < 2 ^ 30)
    (hheld : StreamReassembler.Held capacity l rcv.reassembler) (hl : l < capacity)
    (he : rcv.reassembler.edge ≤ 2 ^ 63) (herr : rcv.streamOut.error = false) (hdrained : rcv.streamOut.buffer = [])
    (hc : Carries isn accepted ended k seg) (hk : k ≤ rcv.received)
    (hlt : rcv.received < k + seg.lengthInSequenceSpace) (hs : rcv.segmentReceived seg = some rcv') :
    rcv.received < rcv'.received := by
  by_cases hsyn : rcv.synReceived = true
  · have hopen : rcv.streamOut.inputEnded = false := by
      by_contra hended
      have hall := h.received_of_ended hsyn (Bool.not_eq_false _ ▸ hended)
      have hle := hc.length_le
      omega
    have hrec : rcv.received = rcv.streamOut.bytesWritten + 1 := by
      rw [received, if_pos hsyn, absAck_eq, if_neg (by rw [hopen]; decide), Nat.add_zero]
    rcases h.pushes hS hsyn hc hs with hone | ⟨data, index, hp, hholds, hle, hindex, hfin, hreach⟩
    · omega
    · have hlen : seg.payload.length ≤ accepted.length := (Nat.le_add_left _ _).trans hc.le
      obtain ⟨r', hr', rfl⟩ := Option.map_eq_some_iff.mp hp
      have hadv := StreamReassembler.gets_on h.assembles hheld hl he ⟨herr, hopen⟩ hdrained hholds hfin (by omega)
        (show index ≤ rcv.streamOut.bytesWritten by omega)
        (show rcv.streamOut.bytesWritten < index + data.length + _ by omega) hr'
      rw [hrec, received, if_pos hsyn, absAck_eq]
      exact Nat.add_right_comm _ _ _ ▸ Nat.add_lt_add_right hadv 1
  · have hzero : rcv.received = 0 := if_neg hsyn
    have hk0 : k = 0 := by omega
    have hsynced : rcv'.synReceived = true := by
      rw [(segmentReceived_isn hs).1, synced, if_pos (hc.syn.mpr hk0)]
    rw [hzero, received, if_pos hsynced, absAck_eq]
    omega

end TCPReceiver

/-! ### The sender -/

namespace TCPSender

/-- The timer runs while something is outstanding, and its timeout is one the
clock can reach. -/
structure Timed (s : TCPSender) : Prop where
  running : s.timerRunning = true ↔ s.segmentsOutstanding ≠ []
  rto : s.currentRto < 2 ^ 32
  initial : s.initialRetransmissionTimeout < 2 ^ 32

/-- What the window allows is sent, unless there was nothing to send yet. -/
def Sated (s : TCPSender) : Prop :=
  s.stream.error = true ∨ s.Idle ∨
    s.nextSeqno = 0 ∧ s.stream.bytesWritten = 0 ∧ s.stream.inputEnded = false

variable {s s' : TCPSender}

theorem Timed.timerKept (h : Timed s) (hk : TimerKept s s') : Timed s' :=
  ⟨hk.running, hk.rto.trans_lt h.rto, hk.initial.trans_lt h.initial⟩

theorem Timed.fillWindow (h : Timed s) : Timed s.fillWindow :=
  h.timerKept (TimerKept.refl h.running).fillWindow

/-- Setting the timer makes it run as it is to. -/
theorem settleTimer_timed (hrun : s.segmentsOutstanding ≠ [] → s.timerRunning = true) (hrto : s.currentRto < 2 ^ 32)
    (hinit : s.initialRetransmissionTimeout < 2 ^ 32) (b : Bool) : Timed (s.settleTimer b) := by
  by_cases ho : s.segmentsOutstanding = []
  · rw [settleTimer_of_nil ho]
    exact ⟨iff_of_false Bool.false_ne_true fun hne => hne ho, hrto, hinit⟩
  · rw [settleTimer_of_running ho (hrun ho)]
    exact ⟨iff_of_true (hrun ho) ho, hrto, hinit⟩

theorem Timed.acknowledge (h : Timed s) (k : ℕ) (w : UInt16) (b : Bool) :
    Timed ((s.acknowledge k w).fillWindow.settleTimer b) := by
  have hrun := acknowledge_running h.running k w
  obtain ⟨-, hinit, hrto, -⟩ := acknowledge_timer s k w
  have hframe := fillWindow_frame (s.acknowledge k w)
  generalize (s.acknowledge k w).fillWindow = t at hrun hframe ⊢
  refine settleTimer_timed hrun ?_ ?_ b
  · rw [hframe.rto, hrto]
    split_ifs
    · exact h.initial
    · exact h.rto
  · rw [hframe.initialRto, hinit]
    exact h.initial

theorem Timed.ackReceived (h : Timed s) (ackno : WrappingInt32) (w : UInt16) : Timed (s.ackReceived ackno w) := by
  rcases lt_or_ge s.nextSeqno (unwrap ackno s.isn s.nextSeqno) with hk | hk
  · rw [ackReceived_of_lt hk]
    exact h
  · rw [ackReceived_of_le hk]
    exact h.acknowledge _ w _

theorem Timed.tick (h : Timed s) (ms : ℕ) : Timed (s.tick ms) := by
  have hrun := h.running
  unfold TCPSender.tick
  split_ifs
  · exact h
  · cases ho : s.segmentsOutstanding with
    | nil =>
      rw [ho] at hrun
      exact ⟨hrun, h.rto, h.initial⟩
    | cons seg segs =>
      rw [ho] at hrun
      dsimp only
      split_ifs
      · exact ⟨hrun, h.rto, h.initial⟩
      · exact ⟨hrun, Nat.mod_lt _ (by decide), h.initial⟩
      · exact ⟨hrun, h.rto, h.initial⟩

/-- A clock can be set to any time by going on. -/
theorem exists_add_mod (t : ℕ) {r m : ℕ} (h : r < m) : ∃ ms, (t + ms) % m = r := by
  have hle : t ≤ m * t := Nat.le_mul_of_pos_left t (Nat.zero_lt_of_lt h)
  refine ⟨m * t - t + r, ?_⟩
  calc (t + (m * t - t + r)) % m
    _ = (m * t + r) % m := by rw [← Nat.add_assoc, Nat.add_sub_cancel' hle]
    _ = r := by rw [Nat.mul_add_mod, Nat.mod_eq_of_lt h]

/-- **A tick that is long enough** sends the oldest segment again. -/
theorem Timed.expires (h : Timed s) {seg : TCPSegment} {segs : List TCPSegment}
    (ho : s.segmentsOutstanding = seg :: segs) : ∃ ms, (s.tick ms).segmentsOut = s.segmentsOut ++ [seg] ∧
      (s.tick ms).consecutiveRetransmissions = (s.consecutiveRetransmissions + 1) % 2 ^ 32 := by
  have hrun : ¬ s.timerRunning = false := by
    rw [h.running.mpr (ho ▸ List.cons_ne_nil _ _)]
    decide
  obtain ⟨ms, hms⟩ := exists_add_mod s.timeElapsed h.rto
  refine ⟨ms, ?_⟩
  unfold TCPSender.tick
  rw [if_neg hrun]
  simp only [ho, hms, le_refl, ↓reduceIte, and_self]

/-! What is sated stays so. -/

theorem Idle.congr (h : s.Idle) (h1 : s'.finSent = s.finSent) (h2 : s'.windowSize = s.windowSize)
    (h3 : s'.nextSeqno = s.nextSeqno) (h4 : s'.lastAckSeqno = s.lastAckSeqno) (h5 : s'.stream = s.stream) :
    s'.Idle := by
  have hflight : s'.bytesInFlight = s.bytesInFlight := by unfold bytesInFlight; rw [h3, h4]
  have hwindow : s'.currentWindow = s.currentWindow := by unfold currentWindow; rw [h2]
  have hbuild : (s'.build s'.currentWindow).1 = (s.build s.currentWindow).1 := by
    unfold build
    rw [h1, h3, h5, hflight, hwindow]
  rw [hwindow] at hbuild
  unfold Idle
  rw [h1, hwindow, hflight, hbuild]
  exact h

theorem Sated.congr (h : s.Sated) (h1 : s'.finSent = s.finSent) (h2 : s'.windowSize = s.windowSize)
    (h3 : s'.nextSeqno = s.nextSeqno) (h4 : s'.lastAckSeqno = s.lastAckSeqno) (h5 : s'.stream = s.stream) :
    s'.Sated := by
  refine h.imp (fun he => h5.symm ▸ he) (Or.imp (fun hi => hi.congr h1 h2 h3 h4 h5) fun h0 => ?_)
  rw [h3, h5]
  exact h0

theorem WF.sated (h : WF s) : s.fillWindow.Sated := Or.inr (Or.inl (fillWindow_idle h.acked_le))

theorem Sated.ackReceived (h : s.Sated) (hwf : WF s) (ackno : WrappingInt32) (w : UInt16) :
    (s.ackReceived ackno w).Sated := by
  rcases lt_or_ge s.nextSeqno (unwrap ackno s.isn s.nextSeqno) with hk | hk
  · rw [ackReceived_of_lt hk]
    exact h
  · rw [ackReceived_of_le hk]
    have ht := settleTimer_timerOnly (s.acknowledge (unwrap ackno s.isn s.nextSeqno) w).fillWindow
      (decide (s.lastAckSeqno < unwrap ackno s.isn s.nextSeqno))
    exact (hwf.acknowledge hk w).sated.congr ht.finSent ht.window ht.next ht.lastAck ht.stream

/-- What the window allows of what was written is sent. -/
theorem Sated.filled (h : s.Sated) (hwf : WF s) (herr : s.stream.error = false) :
    min (s.lastAckSeqno + s.currentWindow) (1 + s.stream.bytesWritten + if s.stream.inputEnded then 1 else 0) ≤
        s.nextSeqno ∨
      s.nextSeqno = 0 ∧ s.stream.bytesWritten = 0 ∧ s.stream.inputEnded = false := by
  rcases h with he | hidle | h0
  · exact absurd (herr.symm.trans he) Bool.false_ne_true
  · have hnext := hwf.le_fillWindow_next herr
    rw [fillWindow_of_idle hidle] at hnext
    exact Or.inl hnext
  · exact Or.inr h0

/-- With everything acknowledged there is nothing left to send. -/
theorem Sated.all_sent (h : s.Sated) (hwf : WF s) (herr : s.stream.error = false)
    (hacked : s.lastAckSeqno = s.nextSeqno) :
    1 + s.stream.bytesWritten + (if s.stream.inputEnded then 1 else 0) ≤ s.nextSeqno ∨
      s.stream.bytesWritten = 0 ∧ s.stream.inputEnded = false := by
  have hpos := s.currentWindow_pos
  apply (h.filled hwf herr).imp _ And.right
  omega

/-- What a sender keeps. -/
structure Lively (s : TCPSender) : Prop where
  wf : WF s
  plain : Plain s
  timed : Timed s
  sated : Sated s

/-- A sender that is to fill its window. -/
structure Lively.Ready (s : TCPSender) : Prop where
  wf : WF s
  plain : Plain s
  timed : Timed s

namespace Lively

theorem Ready.fill (h : Ready s) : s.fillWindow.Lively :=
  ⟨h.wf.fillWindow, h.plain.fillWindow, h.timed.fillWindow, h.wf.sated⟩

theorem fillWindow (h : s.Lively) : s.fillWindow.Lively := Ready.fill ⟨h.wf, h.plain, h.timed⟩

/-- What is written is still to be sent. -/
theorem write (h : s.Lively) (data : Bytes) : Ready (s.write data).2 :=
  ⟨h.wf.write data, h.plain, ⟨h.timed.running, h.timed.rto, h.timed.initial⟩⟩

theorem endInput (h : s.Lively) : Ready s.endInput :=
  ⟨h.wf.endInput, h.plain, ⟨h.timed.running, h.timed.rto, h.timed.initial⟩⟩

theorem ackReceived (h : s.Lively) (ackno : WrappingInt32) (w : UInt16) : (s.ackReceived ackno w).Lively :=
  ⟨h.wf.ackReceived _ _, h.plain.ackReceived _ _, h.timed.ackReceived _ _, h.sated.ackReceived h.wf _ _⟩

theorem sendEmptySegment (h : s.Lively) : s.sendEmptySegment.Lively :=
  ⟨h.wf.sendEmptySegment, h.plain.sendEmptySegment, ⟨h.timed.running, h.timed.rto, h.timed.initial⟩,
    h.sated.congr rfl rfl rfl rfl rfl⟩

theorem flush (h : s.Lively) : Lively { s with segmentsOut := [] } :=
  ⟨h.wf.congr rfl rfl rfl rfl rfl rfl, ⟨fun _ hseg => absurd hseg List.not_mem_nil, h.plain.2⟩,
    ⟨h.timed.running, h.timed.rto, h.timed.initial⟩, h.sated.congr rfl rfl rfl rfl rfl⟩

theorem tick (h : s.Lively) (ms : ℕ) : (s.tick ms).Lively := by
  obtain ⟨-, h2, h3, h4, -, h6, h7⟩ := tick_frame s ms
  exact ⟨h.wf.tick ms, h.plain.tick ms, h.timed.tick ms, h.sated.congr h7 h4 h2 h3 h6⟩

theorem setError (h : s.Lively) : s.setError.Lively :=
  ⟨h.wf.setError, h.plain, ⟨h.timed.running, h.timed.rto, h.timed.initial⟩, Or.inl rfl⟩

end Lively
end TCPSender
/-! ### The connection -/

namespace TCPConnection

open TCPSender

/-- What every run keeps. -/
structure Lively (c : TCPConnection) : Prop where
  steady : Steady c
  fit : Fit c
  sender : c.sender.Lively

variable {c c' : TCPConnection}

theorem init_lively (cfg : TCPConfig) (isn : WrappingInt32) : Lively (init cfg isn) := by
  have hrt : cfg.rtTimeout.toNat < 2 ^ 32 := cfg.rtTimeout.toNat_lt.trans (by decide)
  refine ⟨init_steady cfg isn, init_fit cfg isn, init_wf _ _ _, ?_, ⟨?_, hrt, hrt⟩, ?_⟩
  · exact ⟨fun _ h => absurd h List.not_mem_nil, fun _ h => absurd h List.not_mem_nil⟩
  · exact iff_of_false Bool.false_ne_true fun h => h rfl
  · exact Or.inr (Or.inr ⟨rfl, rfl, rfl⟩)

theorem acked_lively (h : c.sender.Lively) (seg : TCPSegment) : (c.acked seg).Lively := by
  unfold acked
  split_ifs
  · exact h.ackReceived _ _
  · exact h

theorem respond_lively (h : c.sender.Lively) (seg : TCPSegment) : (c.respond seg).sender.Lively := by
  apply respond_induct (P := fun d => d.sender.Lively) (Q := fun d => d.sender.Lively)
  · exact fun d hd => hd.fillWindow
  · exact fun d hd => hd.sendEmptySegment
  · exact fun d hd => hd
  · exact fun d hd => hd
  · exact fun d hd => hd.flush
  · exact h

theorem step_lively_sender (h : c.sender.Lively) {op : Op} (hs : step c op = some c') : c'.sender.Lively := by
  cases op with
  | connect =>
    obtain rfl := Option.some.inj hs
    exact h.fillWindow.flush
  | write data =>
    obtain rfl := Option.some.inj hs
    have hw : Lively.Ready (c.sender.write data).2 := h.write data
    exact hw.fill.flush
  | endInputStream =>
    obtain rfl := Option.some.inj hs
    exact h.endInput.fill.flush
  | segment seg =>
    change c.segmentReceived seg = some c' at hs
    rcases segment_cases hs with ⟨-, rfl⟩ | ⟨-, -, rfl⟩ | ⟨-, -, receiver, -, rfl⟩
    · exact h
    · exact h.setError
    · exact respond_lively (c := { c with timeSinceLastSegmentReceived := 0, receiver, sender := c.acked seg })
        (acked_lively h seg) seg
  | tick ms =>
    obtain rfl := Option.some.inj hs
    rcases Bool.eq_false_or_eq_true c.isActive with ha | ha
    · rcases tick_cases ha ms with ⟨-, he⟩ | ⟨-, he⟩ <;> rw [he]
      · exact (h.tick ms).setError
      · exact (h.tick ms).flush
    · rw [tick_of_inactive ha]
      exact h
  | read len =>
    obtain rfl := Option.some.inj hs
    exact h

/-- **Every call keeps a connection lively.** -/
theorem step_lively (h : Lively c) {op : Op} (hs : step c op = some c') : Lively c' := by
  refine ⟨step_steady h.steady hs, ?_, step_lively_sender h.sender hs⟩
  cases op with
  | connect =>
    obtain rfl := Option.some.inj hs
    exact h.fit.connect
  | write data =>
    obtain rfl := Option.some.inj hs
    exact h.fit.write data
  | endInputStream =>
    obtain rfl := Option.some.inj hs
    exact h.fit.endInputStream
  | segment seg => exact h.fit.segmentReceived hs
  | tick ms =>
    obtain rfl := Option.some.inj hs
    exact h.fit.tick ms
  | read len =>
    obtain rfl := Option.some.inj hs
    exact h.fit.readInbound len

theorem run_lively {cfg : TCPConfig} {isn : WrappingInt32} {ops : List Op}
    (hr : Runs.run step (init cfg isn) ops = some c) : Lively c :=
  Runs.run_invariant (fun _ _ _ h hs => step_lively h hs) (init_lively cfg isn) hr

/-- **Nothing waits**: in every state of every run, unless the stream is in error
or there was nothing to send yet, all is sent that the window allows: up to its
end, or to the end of what was written. -/
theorem nothing_waits {cfg : TCPConfig} {isn : WrappingInt32} {ops : List Op}
    (hr : Runs.run step (init cfg isn) ops = some c) (herr : c.sender.stream.error = false)
    (hsome : 0 < c.sender.nextSeqno ∨ 0 < c.sender.stream.bytesWritten ∨ c.sender.stream.inputEnded = true) :
    min (c.sender.lastAckSeqno + max 1 c.sender.windowSize.toNat)
      (1 + c.sender.stream.bytesWritten + if c.sender.stream.inputEnded then 1 else 0) ≤ c.sender.nextSeqno := by
  have h := (run_lively hr).sender
  rw [max_comm 1, ← Flow.currentWindow_eq]
  rcases h.sated.filled h.wf herr with hfilled | ⟨h0, hnone, hopen⟩
  · exact hfilled
  · rw [hopen] at hsome
    simp only [h0, hnone, lt_irrefl, Bool.false_eq_true, or_self] at hsome

/-- Two bytes for a window of one: one is sent. -/
theorem nothing_waits_twoBytes :
    ∃ c ∈ Runs.run step (init {} ⟨0⟩) [.connect, .segment Watched.synAckSegment, .write [97, 98]],
      c.sender.nextSeqno = 2 ∧ min (c.sender.lastAckSeqno + max 1 c.sender.windowSize.toNat)
        (1 + c.sender.stream.bytesWritten + if c.sender.stream.inputEnded then 1 else 0) ≤ c.sender.nextSeqno := by
  have hex : ∃ c ∈ Runs.run step (init {} ⟨0⟩) [.connect, .segment Watched.synAckSegment, .write [97, 98]],
      c.sender.stream.error = false ∧ c.sender.nextSeqno = 2 := by decide +kernel
  obtain ⟨c, hc, herr, hnext⟩ := hex
  exact ⟨c, hc, hnext, nothing_waits hc herr (Or.inl (by omega))⟩

/-- **A tick that is long enough** has the oldest segment sent again, unless
the limit of retransmissions is reached. -/
theorem Lively.retransmits (h : Lively c) (ha : c.isActive = true)
    (hretx : c.sender.consecutiveRetransmissions < TCPConfig.maxRetxAttempts) {seg : TCPSegment}
    {segs : List TCPSegment} (ho : c.sender.segmentsOutstanding = seg :: segs) :
    ∃ ms, c.tick ms = { (c.ticked ms).sendSegments with isActive := true } ∧
      (c.tick ms).segmentsOut = c.segmentsOut ++ [stamp c.receiver seg] := by
  obtain ⟨ms, hout, hcount⟩ := h.sender.timed.expires ho
  have hlimit : (c.sender.tick ms).consecutiveRetransmissions ≤ TCPConfig.maxRetxAttempts := by
    rw [hcount]
    exact (Nat.mod_le _ _).trans hretx
  -- something is not acknowledged, so the streams are not closed
  have hopen : (c.ticked ms).active = true := by
    obtain ⟨-, h2, h3, -⟩ := tick_frame c.sender ms
    by_contra hc
    obtain ⟨hclosed, -⟩ := (active_eq_false_iff (c := c.ticked ms) ha).mp (Bool.not_eq_true _ ▸ hc)
    obtain ⟨-, -, hacked⟩ := (streamsClosed_iff (c := c.ticked ms) (h.sender.wf.tick ms)).mp hclosed
    have hnil := h.sender.wf.outstanding_eq_nil_iff.mpr (h3.symm.trans (hacked.trans h2))
    exact List.cons_ne_nil _ _ (ho.symm.trans hnil)
  have htick : c.tick ms = { (c.ticked ms).sendSegments with isActive := true } := by
    rcases tick_cases ha ms with ⟨hover, -⟩ | ⟨-, he⟩
    · exact absurd hlimit (not_le.mpr hover)
    · rw [he, hopen]
  refine ⟨ms, htick, ?_⟩
  have hqueue := h.steady.queue ha
  rw [htick]
  show c.segmentsOut ++ (c.sender.tick ms).segmentsOut.map (stamp c.receiver) = _
  rw [hout, hqueue]
  rfl

end TCPConnection
end Sponge
