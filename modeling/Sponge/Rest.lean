/-
# Coming to rest

With no more ticks and calls, do two connections stop answering each other?
What occupies sequence numbers is sent only once, so data, SYN and FIN run out,
and so do the answers to them. An empty segment is answered only if its number
is one before what the receiver waits for. The next empty segment of a side has
its next sequence number, so two sides answer each other for ever only if each
waits for one more than the other has sent (`Network.Crossed`).

Key definitions: `TCPSender.remaining`, `TCPConnection.Reacts`, `Network.passStep`,
`Network.Crossed`, `Network.measure`.
Key theorems: `TCPConnection.segmentReceived_reacts`, `Network.pass_measure`,
`Network.pushes_bounded`.
-/
import Sponge.Ackno
import Sponge.Inactive
import Sponge.Listen
import Sponge.Network

namespace Sponge

/-! ### The sender -/

namespace TCPSender

/-- The sequence numbers the sender can still use. -/
def remaining (s : TCPSender) : ℕ :=
  s.stream.buffer.length + (if s.nextSeqno = 0 then 1 else 0) + if s.finSent then 0 else 1

/-- The segment of `send_empty_segment`. -/
def emptySegment (s : TCPSender) : TCPSegment := { header := { seqno := wrap s.nextSeqno s.isn } }

/-- `s'` is `s` after it queued `segs`, all of which use sequence numbers. -/
structure Emits (s s' : TCPSender) (segs : List TCPSegment) : Prop where
  isn : s'.isn = s.isn
  out : s'.segmentsOut = s.segmentsOut ++ segs
  pos : ∀ seg ∈ segs, 0 < seg.lengthInSequenceSpace
  remaining : segs.length + s'.remaining ≤ s.remaining
  next : segs = [] → s'.nextSeqno = s.nextSeqno

variable {s s' s'' : TCPSender} {segs segs' : List TCPSegment}

theorem Emits.refl (s : TCPSender) : Emits s s [] where
  isn := rfl
  out := (List.append_nil _).symm
  pos := fun _ hseg => absurd hseg List.not_mem_nil
  remaining := (Nat.zero_add _).le
  next := fun _ => rfl

theorem Emits.trans (h : Emits s s' segs) (h' : Emits s' s'' segs') : Emits s s'' (segs ++ segs') where
  isn := h'.isn.trans h.isn
  out := by rw [h'.out, h.out, List.append_assoc]
  pos := fun seg hseg => (List.mem_append.mp hseg).elim (h.pos seg) (h'.pos seg)
  remaining := by
    have h1 := h.remaining
    have h2 := h'.remaining
    rw [List.length_append]
    omega
  next := fun hnil => by
    obtain ⟨h1, h2⟩ := List.append_eq_nil_iff.mp hnil
    rw [h'.next h2, h.next h1]

/-- The window, the timer and the acknowledgments play no part. -/
theorem Emits.of_eq (h1 : s'.isn = s.isn) (h2 : s'.segmentsOut = s.segmentsOut) (h3 : s'.stream = s.stream)
    (h4 : s'.nextSeqno = s.nextSeqno) (h5 : s'.finSent = s.finSent) : Emits s s' [] where
  isn := h1
  out := by rw [h2, List.append_nil]
  pos := fun _ hseg => absurd hseg List.not_mem_nil
  remaining := by simp [TCPSender.remaining, h3, h4, h5]
  next := fun _ => h4

/-- A segment that is sent uses up what it occupies. -/
theorem Emits.sent {w : ℕ} {seg : TCPSegment} (hfin : s.finSent = false) (h : Sent w s s' seg) :
    Emits s s' [seg] where
  isn := h.frame.isn
  out := h.out
  pos := fun x hx => by
    rw [List.mem_singleton.mp hx]
    exact h.pos
  remaining := by
    have hpay := congrArg List.length h.payload
    have hnext := h.next
    have hpos := h.pos
    have hsyn := h.syn
    rw [List.length_append] at hpay
    unfold TCPSender.remaining
    rw [hfin, h.finSent, List.length_singleton]
    unfold TCPSegment.lengthInSequenceSpace at hnext hpos
    split_ifs at * <;> simp_all <;> omega
  next := fun hnil => absurd hnil (List.cons_ne_nil _ _)

theorem fillWindow_emits (s : TCPSender) : ∃ segs, Emits s s.fillWindow segs := by
  apply fillWindow_induct (P := fun t => ∃ segs, Emits s t segs)
  · rintro a b seg ⟨segs, ha⟩ hfin - hs
    exact ⟨_, ha.trans (Emits.sent hfin hs)⟩
  · exact ⟨[], Emits.refl s⟩

theorem ackReceived_emits (s : TCPSender) (ackno : WrappingInt32) (w : UInt16) :
    ∃ segs, Emits s (s.ackReceived ackno w) segs := by
  apply ackReceived_induct (P := fun t => ∃ segs, Emits s t segs) ⟨[], Emits.refl s⟩
  · intro k _
    obtain ⟨f1, f2, f3, f4, f5, -⟩ := acknowledge_frame s k w
    exact ⟨[], Emits.of_eq f1 f5 f3 f2 f4⟩
  · rintro t ⟨segs, h⟩
    obtain ⟨segs', hfill⟩ := fillWindow_emits t
    exact ⟨_, h.trans hfill⟩
  · rintro t t' ⟨segs, h⟩ ht
    exact ⟨_, h.trans (Emits.of_eq ht.isn ht.out ht.stream ht.next ht.finSent)⟩

end TCPSender

/-! ### The receiver -/

namespace TCPReceiver

variable {rcv rcv' : TCPReceiver} {seg : TCPSegment}

/-- What the acknowledgment can still grow by before the application reads. -/
def slack (rcv : TCPReceiver) : ℕ := rcv.reassembler.edge + 2 - rcv.absAck

theorem absAck_le_edge (rcv : TCPReceiver) : rcv.absAck ≤ rcv.reassembler.edge + 2 := by
  have h1 := rcv.streamOut.count
  have h2 := rcv.streamOut.fits
  unfold StreamReassembler.edge
  rw [absAck_eq]
  unfold streamOut at *
  split_ifs <;> omega

/-- What occupies no sequence number changes an acknowledgment only by what it
lets be assembled. -/
theorem segmentReceived_empty (h : rcv.segmentReceived seg = some rcv') (hlen : seg.lengthInSequenceSpace = 0)
    (habs : rcv'.absAck = rcv.absAck) : rcv'.ackno = rcv.ackno := by
  have hsyn : seg.header.syn = false := by
    by_contra hc
    simp [TCPSegment.lengthInSequenceSpace, hc] at hlen
  obtain ⟨h1, h2⟩ := segmentReceived_isn h
  have hsame : rcv.synced seg = rcv := by simp [synced, hsyn]
  unfold ackno
  rw [h1, h2, hsame, habs]

end TCPReceiver

/-! ### The connection -/

namespace TCPConnection

open TCPSender

variable {c c' d : TCPConnection} {seg : TCPSegment}

theorem acked_emits (c : TCPConnection) (seg : TCPSegment) : ∃ segs, Emits c.sender (c.acked seg) segs := by
  unfold acked
  split_ifs
  · exact ackReceived_emits _ _ _
  · exact ⟨[], Emits.refl _⟩

/-- The empty segments that answer `seg`: at most one, and to an empty one only if it pings. -/
def Answers (c : TCPConnection) (seg : TCPSegment) (s : TCPSender) (empties : List TCPSegment) : Prop :=
  empties = [] ∨ empties = [s.emptySegment] ∧ (0 < seg.lengthInSequenceSpace ∨ c.Pings seg)

/-- What goes out with a response. -/
theorem respond_emits (c : TCPConnection) (seg : TCPSegment) : ∃ s segs empties, Emits c.sender s segs ∧
    Answers c seg s empties ∧ (c.respond seg).receiver = c.receiver ∧
    (c.respond seg).sender = { s with segmentsOut := [] } ∧
    (c.respond seg).segmentsOut = c.segmentsOut ++ (s.segmentsOut ++ empties).map (stamp c.receiver) := by
  obtain ⟨segs, hfill⟩ := fillWindow_emits c.sender
  have hreply : ∀ d : TCPConnection, d.receiver = c.receiver → d.sender = c.sender → d.segmentsOut = c.segmentsOut →
      ∃ s segs empties, Emits c.sender s segs ∧ Answers c seg s empties ∧ (d.reply seg).receiver = c.receiver ∧
        (d.reply seg).sender = { s with segmentsOut := [] } ∧
        (d.reply seg).segmentsOut = c.segmentsOut ++ (s.segmentsOut ++ empties).map (stamp c.receiver) := by
    intro d hr hs ho
    rcases Nat.eq_zero_or_pos seg.lengthInSequenceSpace with hlen | hlen
    · by_cases hp : d.Pings seg
      · rw [reply_of_pings hlen hp]
        refine ⟨c.sender, [], [c.sender.emptySegment], Emits.refl _, Or.inr ⟨rfl, Or.inr ?_⟩, hr, ?_, ?_⟩
        · unfold Pings at hp ⊢
          rwa [hr] at hp
        · rw [← hs]
          rfl
        · rw [← hr, ← hs, ← ho]
          rfl
      · rw [reply_of_quiet hlen hp]
        refine ⟨c.sender, [], [], Emits.refl _, Or.inl rfl, hr, ?_, ?_⟩
        · rw [← hs]
          rfl
        · rw [← hr, ← hs, ← ho, List.append_nil]
          rfl
    · rw [reply_of_pos d hlen]
      unfold answer
      rw [if_pos hlen]
      by_cases hq : c.sender.fillWindow.segmentsOut = []
      · refine ⟨c.sender.fillWindow, segs, [c.sender.fillWindow.emptySegment], hfill, Or.inr ⟨rfl, Or.inl hlen⟩, hr,
          ?_, ?_⟩
        · simp only [hs, hq, ↓reduceIte]
          rfl
        · simp only [hs, hq, ↓reduceIte]
          rw [← hr, ← ho, sendSegments_segmentsOut]
          simp only [sendEmptySegment, hq]
          rfl
      · refine ⟨c.sender.fillWindow, segs, [], hfill, Or.inl rfl, hr, ?_, ?_⟩
        · simp only [hs, hq, ↓reduceIte]
          rfl
        · simp only [hs, hq, ↓reduceIte]
          rw [← hr, ← ho, List.append_nil]
          rfl
  unfold respond
  split_ifs
  · refine ⟨c.sender.fillWindow, segs, [], hfill, Or.inl rfl, rfl, rfl, ?_⟩
    rw [List.append_nil]
    rfl
  · exact hreply _ rfl rfl rfl
  · exact hreply _ rfl rfl rfl

/-- What a segment that arrives does: `segs` use sequence numbers, `empties` do
not. What goes out is stamped, or stays queued. -/
structure Reacts (c c' : TCPConnection) (seg : TCPSegment) (segs empties : List TCPSegment) : Prop where
  isn : c'.sender.isn = c.sender.isn
  out : ∃ f : TCPSegment → TCPSegment,
    (∀ x, (f x).header.seqno = x.header.seqno ∧ (f x).lengthInSequenceSpace = x.lengthInSequenceSpace) ∧
      c'.segmentsOut ++ c'.sender.segmentsOut = c.segmentsOut ++ (c.sender.segmentsOut ++ segs ++ empties).map f
  pos : ∀ x ∈ segs, 0 < x.lengthInSequenceSpace
  remaining : segs.length + c'.sender.remaining ≤ c.sender.remaining
  next : segs = [] → c'.sender.nextSeqno = c.sender.nextSeqno
  answers : Answers c' seg c'.sender empties
  edge : c'.receiver.reassembler.edge = c.receiver.reassembler.edge
  absAck : c.receiver.absAck ≤ c'.receiver.absAck
  ackno : seg.lengthInSequenceSpace = 0 → c'.receiver.absAck = c.receiver.absAck →
    c'.receiver.ackno = c.receiver.ackno

theorem stamp_seqno (rcv : TCPReceiver) (x : TCPSegment) : (stamp rcv x).header.seqno = x.header.seqno ∧
    (stamp rcv x).lengthInSequenceSpace = x.lengthInSequenceSpace := by
  unfold stamp
  cases rcv.ackno <;> exact ⟨rfl, rfl⟩

/-- Nothing goes out. -/
theorem Reacts.silent (hout : c'.segmentsOut = c.segmentsOut)
    (hsender : c'.sender = c.sender ∨ c'.sender = c.sender.setError)
    (hrcv : c'.receiver = c.receiver ∨ c'.receiver = c.receiver.setError) : Reacts c c' seg [] [] where
  isn := by rcases hsender with h | h <;> simp [h, setError]
  out := by
    refine ⟨id, fun x => ⟨rfl, rfl⟩, ?_⟩
    rcases hsender with h | h <;> simp [h, hout, setError]
  pos := fun x hx => absurd hx List.not_mem_nil
  remaining := by
    have hremaining : c.sender.setError.remaining = c.sender.remaining := rfl
    rcases hsender with h | h <;> simp [h, hremaining]
  next := fun _ => by rcases hsender with h | h <;> simp [h, setError]
  answers := Or.inl rfl
  edge := by
    have hedge : c.receiver.setError.reassembler.edge = c.receiver.reassembler.edge := rfl
    rcases hrcv with h | h <;> simp [h, hedge]
  absAck := by
    have habs : c.receiver.setError.absAck = c.receiver.absAck := rfl
    rcases hrcv with h | h <;> simp [h, habs]
  ackno := fun _ _ => by
    have hackno : c.receiver.setError.ackno = c.receiver.ackno := rfl
    rcases hrcv with h | h <;> simp [h, hackno]

theorem segmentReceived_reacts (hs : c.segmentReceived seg = some c') :
    ∃ segs empties, Reacts c c' seg segs empties := by
  rcases segment_cases hs with ⟨-, rfl⟩ | ⟨-, -, rfl⟩ | ⟨-, -, receiver, hrcv, rfl⟩
  · exact ⟨[], [], Reacts.silent rfl (Or.inl rfl) (Or.inl rfl)⟩
  · exact ⟨[], [], Reacts.silent rfl (Or.inr rfl) (Or.inr rfl)⟩
  · obtain ⟨segs, hacked⟩ := acked_emits c seg
    obtain ⟨s, segs', empties, hemits, hanswers, hr, hsender, hout⟩ :=
      respond_emits { c with timeSinceLastSegmentReceived := 0, receiver, sender := c.acked seg } seg
    have h := hacked.trans hemits
    refine ⟨segs ++ segs', empties, ?_⟩
    exact {
      isn := by rw [hsender]; exact h.isn
      out := by
        refine ⟨stamp receiver, stamp_seqno receiver, ?_⟩
        rw [hout, hsender, List.append_nil, h.out]
      pos := h.pos
      remaining := by rw [hsender]; exact h.remaining
      next := by rw [hsender]; exact h.next
      answers := by
        unfold Answers Pings at hanswers ⊢
        rw [hr, hsender]
        exact hanswers
      edge := by rw [hr]; exact TCPReceiver.segmentReceived_edge hrcv
      absAck := by
        have honward : TCPReceiver.Onward c.receiver receiver :=
          TCPReceiver.step_onward (show TCPReceiver.step c.receiver (.segment seg) = some receiver from hrcv)
        rw [hr]
        exact honward.absAck_le
      ackno := by rw [hr]; exact TCPReceiver.segmentReceived_empty hrcv }

instance (c : TCPConnection) (seg : TCPSegment) : Decidable (c.Pings seg) :=
  inferInstanceAs (Decidable (∃ ackno ∈ c.receiver.ackno, seg.header.seqno = ackno.sub 1))

end TCPConnection

/-! ### Without ticks and calls -/

namespace Network

open TCPConnection TCPSender Runs

/-- What happens to a segment between the two sides. -/
inductive Transit where
  | transmit
  | deliver (i : ℕ)
  | lose (i : ℕ)

/-- What happens at A; a segment that arrives is not on its way any more. -/
def pass (n : Network) : Transit → Option Network
  | .transmit => some n.transmit
  | .deliver i =>
    match n.toA[i]? with
    | none => some n
    | some seg => (n.a.conn.segmentReceived seg).map fun conn => { n.setConn conn with toA := n.toA.eraseIdx i }
  | .lose i => some { n with toA := n.toA.eraseIdx i }

def passStep (n : Network) : Party × Transit → Option Network
  | (.A, t) => n.pass t
  | (.B, t) => (n.swap.pass t).map swap

/-- What A pushes onto its `segments_out`. -/
def pushedAt (n : Network) : Transit → List TCPSegment
  | .deliver i => (n.pass (.deliver i)).elim [] fun n' => n'.a.conn.segmentsOut.drop n.a.conn.segmentsOut.length
  | _ => []

/-- What either side pushes. -/
def pushed (n : Network) : Party × Transit → List TCPSegment
  | (.A, t) => n.pushedAt t
  | (.B, t) => n.swap.pushedAt t

/-- B waits for one more than A has sent. -/
def Ahead (n : Network) : Prop := n.b.conn.Pings n.a.conn.sender.emptySegment

instance : DecidablePred Ahead := fun n => inferInstanceAs (Decidable (n.b.conn.Pings _))

/-- Each side waits for one more than the other has sent. -/
def Crossed (n : Network) : Prop := n.Ahead ∧ n.swap.Ahead

instance : DecidablePred Crossed := fun _ => inferInstanceAs (Decidable (_ ∧ _))

theorem pass_cases {n n' : Network} {t : Transit} (hs : n.pass t = some n') :
    n' = n ∨ n' = n.transmit ∨ (∃ i, n' = { n with toA := n.toA.eraseIdx i }) ∨
      ∃ i seg conn, n.toA[i]? = some seg ∧ n.a.conn.segmentReceived seg = some conn ∧
        n' = { n.setConn conn with toA := n.toA.eraseIdx i } := by
  cases t with
  | transmit => exact Or.inr (Or.inl (Option.some.inj hs).symm)
  | deliver i =>
    simp only [pass] at hs
    cases hi : n.toA[i]? with
    | none =>
      rw [hi] at hs
      exact Or.inl (Option.some.inj hs).symm
    | some seg =>
      rw [hi] at hs
      obtain ⟨conn, hconn, rfl⟩ := Option.map_eq_some_iff.mp hs
      exact Or.inr (Or.inr (Or.inr ⟨i, seg, conn, hi, hconn, rfl⟩))
  | lose i => exact Or.inr (Or.inr (Or.inl ⟨i, (Option.some.inj hs).symm⟩))

/-! ### The measure -/

/-- What A has on its way, or is to put there. -/
def outgoing (n : Network) : List TCPSegment := n.toB ++ (n.a.conn.segmentsOut ++ n.a.conn.sender.segmentsOut)

/-- Whether a segment uses sequence numbers. -/
def occupies (seg : TCPSegment) : ℕ := if 0 < seg.lengthInSequenceSpace then 1 else 0

/-- What an empty segment of A counts: more than the one it is answered with. -/
def weight (n : Network) (seg : TCPSegment) : ℕ :=
  if 0 < seg.lengthInSequenceSpace then 0
  else if n.b.conn.Pings seg then if n.swap.Ahead then 3 else 2
  else 1

/-- Sending moves a number from the first sum, where it counts twice, to the others. -/
def load (n : Network) : ℕ :=
  2 * (n.a.conn.sender.remaining + n.b.conn.sender.remaining) +
    ((n.outgoing.map occupies).sum + (n.swap.outgoing.map occupies).sum)

def slack (n : Network) : ℕ := n.a.conn.receiver.slack + n.b.conn.receiver.slack

def burden (n : Network) : ℕ := (n.outgoing.map n.weight).sum + (n.swap.outgoing.map n.swap.weight).sum

def queued (n : Network) : ℕ := n.a.conn.segmentsOut.length + n.b.conn.segmentsOut.length

/-- What every event lowers that changes anything. -/
def measure (n : Network) : ℕ ×ₗ ℕ ×ₗ ℕ ×ₗ ℕ := toLex (n.load, toLex (n.slack, toLex (n.burden, n.queued)))

variable {n n' : Network}

theorem measure_lt_iff : n'.measure < n.measure ↔ n'.load < n.load ∨ n'.load = n.load ∧
    (n'.slack < n.slack ∨ n'.slack = n.slack ∧
      (n'.burden < n.burden ∨ n'.burden = n.burden ∧ n'.queued < n.queued)) := by
  simp only [measure, Prod.Lex.toLex_lt_toLex]

theorem measure_swap (n : Network) : n.swap.measure = n.measure := by
  have h1 : n.swap.load = n.load := by
    unfold load
    rw [Nat.add_comm n.swap.a.conn.sender.remaining, Nat.add_comm (n.swap.outgoing.map occupies).sum]
    rfl
  have h2 : n.swap.slack = n.slack := Nat.add_comm _ _
  have h3 : n.swap.burden = n.burden := Nat.add_comm _ _
  have h4 : n.swap.queued = n.queued := Nat.add_comm _ _
  rw [measure, h1, h2, h3, h4, measure]

theorem crossed_swap : n.swap.Crossed ↔ n.Crossed := And.comm

/-- A segment that leaves the way takes its share with it. -/
theorem outgoing_erase {l rest : List TCPSegment} {i : ℕ} {seg : TCPSegment} (hi : l[i]? = some seg)
    (w : TCPSegment → ℕ) : ((l ++ rest).map w).sum = ((l.eraseIdx i ++ rest).map w).sum + w seg := by
  obtain ⟨hlt, rfl⟩ := List.getElem?_eq_some_iff.mp hi
  have hperm : (l[i] :: l.eraseIdx i).Perm l := List.getElem_cons_eraseIdx_perm hlt
  have hperm' : (l[i] :: (l.eraseIdx i ++ rest)).Perm (l ++ rest) := hperm.append_right rest
  calc ((l ++ rest).map w).sum = ((l[i] :: (l.eraseIdx i ++ rest)).map w).sum := (hperm'.map w).sum_eq.symm
    _ = w l[i] + ((l.eraseIdx i ++ rest).map w).sum := by rw [List.map_cons, List.sum_cons]
    _ = ((l.eraseIdx i ++ rest).map w).sum + w l[i] := Nat.add_comm _ _

/-- A segment that goes on its way stays outgoing. -/
theorem transmit_measure {seg : TCPSegment} {segs : List TCPSegment} (hout : n.a.conn.segmentsOut = seg :: segs) :
    n.transmit.measure < n.measure := by
  have ht : n.transmit = { n.setConn { n.a.conn with segmentsOut := segs } with toB := n.toB ++ [seg] } := by
    unfold transmit
    rw [hout]
  have hsame : n.transmit.outgoing = n.outgoing := by
    simp [ht, outgoing, setConn, hout]
  have hswap : n.transmit.swap.outgoing = n.swap.outgoing := by
    rw [ht]
    rfl
  rw [measure_lt_iff]
  refine Or.inr ⟨?_, Or.inr ⟨?_, Or.inr ⟨?_, ?_⟩⟩⟩
  · unfold load
    rw [hsame, hswap, ht]
    rfl
  · rw [ht]
    rfl
  · unfold burden
    rw [hsame, hswap, ht]
    rfl
  · rw [ht]
    unfold queued
    simp only [setConn, hout, List.length_cons]
    omega

theorem weight_pos {seg : TCPSegment} (h : ¬ 0 < seg.lengthInSequenceSpace) : 0 < n.weight seg := by
  unfold weight
  rw [if_neg h]
  split_ifs <;> decide

/-- `n'` is `n` after `seg`, the segment `i` on its way to A, is off the way and A has reacted to it. -/
structure Takes (n n' : Network) (i : ℕ) (seg : TCPSegment) (segs empties : List TCPSegment) : Prop where
  at_i : n.toA[i]? = some seg
  toA : n'.toA = n.toA.eraseIdx i
  toB : n'.toB = n.toB
  b : n'.b = n.b
  reacts : Reacts n.a.conn n'.a.conn seg segs empties

namespace Takes

variable {i : ℕ} {seg : TCPSegment} {segs empties : List TCPSegment}

theorem swap_outgoing (h : Takes n n' i seg segs empties) :
    n'.swap.outgoing = n.toA.eraseIdx i ++ (n.b.conn.segmentsOut ++ n.b.conn.sender.segmentsOut) := by
  show n'.toA ++ (n'.b.conn.segmentsOut ++ n'.b.conn.sender.segmentsOut) = _
  rw [h.toA, h.b]

/-- What B has outgoing loses the segment. -/
theorem swap_outgoing_sum (h : Takes n n' i seg segs empties) (w : TCPSegment → ℕ) :
    (n.swap.outgoing.map w).sum = (n'.swap.outgoing.map w).sum + w seg := by
  rw [h.swap_outgoing]
  exact outgoing_erase h.at_i w

/-- What A has outgoing grows, counted by what stamping keeps. -/
theorem outgoing_sum (h : Takes n n' i seg segs empties) {w : TCPSegment → ℕ}
    (hw : ∀ x y : TCPSegment, x.header.seqno = y.header.seqno → x.lengthInSequenceSpace = y.lengthInSequenceSpace →
      w x = w y) :
    (n'.outgoing.map w).sum = (n.outgoing.map w).sum + (segs.map w).sum + (empties.map w).sum := by
  obtain ⟨f, hf, hout⟩ := h.reacts.out
  have hwf : w ∘ f = w := funext fun x => hw _ _ (hf x).1 (hf x).2
  unfold outgoing
  rw [hout, h.toB]
  simp only [List.map_append, List.map_map, hwf, List.sum_append]
  omega

/-- No number is used twice: the load falls, unless nothing new goes out and
the segment used none. -/
theorem load_le (h : Takes n n' i seg segs empties) :
    n'.load + segs.length + occupies seg ≤ n.load := by
  have h1 := h.outgoing_sum (w := occupies) fun x y _ hlen => by simp only [occupies, hlen]
  have h2 := h.swap_outgoing_sum occupies
  have h3 := h.reacts.remaining
  have hsegs : (segs.map occupies).sum = segs.length := by
    have hone : ∀ x ∈ segs, occupies x = 1 := fun x hx => if_pos (h.reacts.pos x hx)
    rw [List.map_congr_left hone]
    simp
  have hempties : (empties.map occupies).sum = 0 := by
    rcases h.reacts.answers with rfl | ⟨rfl, -⟩ <;> rfl
  unfold load
  rw [h.b]
  omega

theorem slack_le (h : Takes n n' i seg segs empties) : n'.slack ≤ n.slack ∧
    (n'.slack = n.slack → n'.a.conn.receiver.absAck = n.a.conn.receiver.absAck) := by
  have h1 := h.reacts.edge
  have h2 := h.reacts.absAck
  have h3 := TCPReceiver.absAck_le_edge n'.a.conn.receiver
  unfold slack TCPReceiver.slack
  rw [h.b]
  omega

/-- **Lower**: a segment that is taken leaves less to do, unless both sides wait
for more than was sent. -/
theorem measure_lt (h : Takes n n' i seg segs empties) (hcross : ¬ n.Crossed) : n'.measure < n.measure := by
  have hload := h.load_le
  obtain ⟨hslack, habs⟩ := h.slack_le
  rw [measure_lt_iff]
  rcases Nat.lt_or_ge n'.load n.load with hl | hl
  · exact Or.inl hl
  rcases Nat.lt_or_ge n'.slack n.slack with hs | hs
  · exact Or.inr ⟨by omega, Or.inl hs⟩
  refine Or.inr ⟨by omega, Or.inr ⟨by omega, Or.inl ?_⟩⟩
  have hsegs : segs = [] := List.length_eq_zero_iff.mp (by omega)
  have hlen : ¬ 0 < seg.lengthInSequenceSpace := by
    intro hpos
    rw [occupies, if_pos hpos] at hload
    omega
  -- the numbers are what they were, and so are the weights
  have hackno := h.reacts.ackno (by omega) (habs (by omega))
  have hempty : n'.a.conn.sender.emptySegment = n.a.conn.sender.emptySegment := by
    unfold emptySegment
    rw [h.reacts.next hsegs, h.reacts.isn]
  have hpings : ∀ x, n'.a.conn.Pings x ↔ n.a.conn.Pings x := by
    intro x
    unfold Pings
    rw [hackno]
  have hahead : n'.Ahead ↔ n.Ahead := by
    unfold Ahead
    rw [hempty, h.b]
  have hahead' : n'.swap.Ahead ↔ n.swap.Ahead := by
    show n'.a.conn.Pings n'.b.conn.sender.emptySegment ↔ n.a.conn.Pings n.b.conn.sender.emptySegment
    rw [hpings, h.b]
  have hweight : n'.weight = n.weight := by
    funext x
    unfold weight
    simp only [h.b, hahead']
  have hweight' : n'.swap.weight = n.swap.weight := by
    funext x
    show (if 0 < x.lengthInSequenceSpace then 0 else if n'.a.conn.Pings x then if n'.Ahead then 3 else 2 else 1) =
      if 0 < x.lengthInSequenceSpace then 0 else if n.a.conn.Pings x then if n.Ahead then 3 else 2 else 1
    simp only [hpings, hahead]
  have h1 := h.outgoing_sum (w := n.weight) fun x y hseqno hlen => by
    have hp : n.b.conn.Pings x ↔ n.b.conn.Pings y := by
      unfold Pings
      rw [hseqno]
    simp only [weight, hlen, hp]
  have h2 := h.swap_outgoing_sum n.swap.weight
  have hpos := weight_pos (n := n.swap) hlen
  unfold burden
  rw [hweight, hweight', h1, h2, hsegs]
  suffices hless : (empties.map n.weight).sum < n.swap.weight seg by
    simp only [List.map_nil, List.sum_nil]
    omega
  rcases h.reacts.answers with rfl | ⟨rfl, hanswers⟩
  · exact hpos
  · -- an empty segment answers one that pinged: it weighs less, for not both sides are ahead
    have hping : n.a.conn.Pings seg := (hpings seg).mp (hanswers.resolve_left hlen)
    have hseg : n.swap.weight seg = if n.Ahead then 3 else 2 := by
      unfold weight
      rw [if_neg hlen]
      exact if_pos hping
    have hnew : n.weight n'.a.conn.sender.emptySegment = if n.Ahead then if n.swap.Ahead then 3 else 2 else 1 := by
      rw [hempty]
      rfl
    rw [List.map_singleton, List.sum_singleton, hseg, hnew]
    unfold Crossed at hcross
    by_cases ha : n.Ahead
    · have hb : ¬ n.swap.Ahead := fun hc => hcross ⟨ha, hc⟩
      simp [ha, hb]
    · simp [ha]

end Takes

/-! ### Runs -/

/-- The events that can do anything at A. -/
def events (n : Network) : List Transit :=
  .transmit :: (List.range n.toA.length).flatMap fun i => [.deliver i, .lose i]

/-- **What happens at A** lowers the measure, or nothing happens. -/
theorem pass_measure (hcross : ¬ n.Crossed) (t : Transit) : n.pass t = some n ∧ n.pushedAt t = [] ∨
    t ∈ n.events ∧ ∀ n', n.pass t = some n' → n'.measure < n.measure := by
  have hmem : ∀ {i : ℕ} {seg : TCPSegment}, n.toA[i]? = some seg →
      Transit.deliver i ∈ n.events ∧ Transit.lose i ∈ n.events := by
    intro i seg hi
    obtain ⟨hlt, -⟩ := List.getElem?_eq_some_iff.mp hi
    simp [events, hlt]
  cases t with
  | transmit =>
    cases hout : n.a.conn.segmentsOut with
    | nil => exact Or.inl ⟨by simp [pass, transmit, hout], rfl⟩
    | cons seg segs =>
      refine Or.inr ⟨List.mem_cons_self, fun n' hs => ?_⟩
      obtain rfl := Option.some.inj hs
      exact transmit_measure hout
  | deliver i =>
    cases hi : n.toA[i]? with
    | none => exact Or.inl ⟨by simp [pass, hi], by simp [pushedAt, pass, hi]⟩
    | some seg =>
      refine Or.inr ⟨(hmem hi).1, fun n' hs => ?_⟩
      simp only [pass, hi] at hs
      obtain ⟨conn, hconn, rfl⟩ := Option.map_eq_some_iff.mp hs
      obtain ⟨segs, empties, hreacts⟩ := segmentReceived_reacts hconn
      exact Takes.measure_lt ⟨hi, rfl, rfl, rfl, hreacts⟩ hcross
  | lose i =>
    cases hi : n.toA[i]? with
    | none =>
      refine Or.inl ⟨?_, rfl⟩
      simp only [pass, List.eraseIdx_of_length_le (List.getElem?_eq_none_iff.mp hi)]
    | some seg =>
      refine Or.inr ⟨(hmem hi).2, fun n' hs => ?_⟩
      obtain rfl := Option.some.inj hs
      exact Takes.measure_lt ⟨hi, rfl, rfl, rfl, Reacts.silent rfl (Or.inl rfl) (Or.inl rfl)⟩ hcross

/-- **At rest**: from whatever state, the runs of transmissions, deliveries and
losses push a bounded number of segments, unless each side waits for one more
than the other has sent. -/
theorem pushes_bounded (n : Network) : ∃ N, ∀ ts, Along passStep (fun n _ => ¬ n.Crossed) n ts →
    (outputs passStep pushed n ts).length ≤ N := by
  apply outputs_bounded measure
  intro n
  refine ⟨n.events.map (Prod.mk .A) ++ n.swap.events.map (Prod.mk .B), ?_⟩
  rintro ⟨party, t⟩ hcross
  cases party with
  | A =>
    refine (pass_measure hcross t).imp_right fun ⟨hmem, hlt⟩ => ⟨?_, hlt⟩
    exact List.mem_append_left _ (List.mem_map_of_mem hmem)
  | B =>
    rcases pass_measure (fun hc => hcross (crossed_swap.mp hc)) t with ⟨h1, h2⟩ | ⟨hmem, hlt⟩
    · exact Or.inl ⟨congrArg (Option.map swap) h1, h2⟩
    · refine Or.inr ⟨List.mem_append_right _ (List.mem_map_of_mem hmem), fun n' hs => ?_⟩
      obtain ⟨n₁, h1, rfl⟩ := Option.map_eq_some_iff.mp hs
      rw [measure_swap, ← measure_swap n]
      exact hlt n₁ h1

end Network
end Sponge
