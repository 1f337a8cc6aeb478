/-
# The receiver

`TCPReceiver` of `tcp_receiver.cc`: it turns the sequence number of a segment
into an index of the stream and pushes the payload there, and it answers with
the acknowledgment number and the window. `none` is a failure of
`push_substring`.

Key definitions: `TCPReceiver.segmentReceived`, `TCPReceiver.ackno`,
`TCPReceiver.step`.
Key theorems: `TCPReceiver.segmentReceived_eq`, `TCPReceiver.run_held`.
-/
import Sponge.TCPSegment
import Sponge.Window

namespace Sponge

structure TCPReceiver where
  reassembler : StreamReassembler
  capacity : ℕ
  synReceived : Bool
  isn : WrappingInt32
  deriving DecidableEq

namespace TCPReceiver

open StreamReassembler Pieces

/-- The constructor. -/
def init (capacity : ℕ) : TCPReceiver where
  reassembler := StreamReassembler.init capacity
  capacity := capacity
  synReceived := false
  isn := ⟨0⟩

def streamOut (rcv : TCPReceiver) : ByteStream := rcv.reassembler.output

def unassembledBytes (rcv : TCPReceiver) : ℕ := rcv.reassembler.unassembledBytes

/-- The stream index of a segment; that of the slot of the SYN is the largest
`size_t`. -/
def streamIndex (rcv : TCPReceiver) (seg : TCPSegment) : ℕ :=
  let checkpoint := rcv.streamOut.bytesWritten + 1
  let absSeqno := unwrap seg.header.seqno rcv.isn checkpoint
  (absSeqno + 2 ^ 64 - 1 + if seg.header.syn then 1 else 0) % 2 ^ 64

def push (rcv : TCPReceiver) (data : Bytes) (index : ℕ) (eof : Bool) : Option TCPReceiver :=
  (rcv.reassembler.pushSubstring data index eof).map fun reassembler => { rcv with reassembler }

/-- Every SYN sets the initial sequence number anew. -/
def synced (rcv : TCPReceiver) (seg : TCPSegment) : TCPReceiver :=
  if seg.header.syn then { rcv with synReceived := true, isn := seg.header.seqno } else rcv

def segmentReceived (rcv : TCPReceiver) (seg : TCPSegment) : Option TCPReceiver :=
  let rcv := rcv.synced seg
  if rcv.synReceived = false then some rcv
  else if seg.header.syn = true ∧ seg.payload = [] then
    if seg.header.fin then rcv.push [] 0 true else some rcv
  else rcv.push seg.payload (rcv.streamIndex seg) seg.header.fin

/-- The absolute number of the first byte not yet received. -/
def absAck (rcv : TCPReceiver) : ℕ :=
  let absAck := rcv.streamOut.bytesWritten + 1
  if rcv.streamOut.inputEnded then absAck + 1 else absAck

def ackno (rcv : TCPReceiver) : Option WrappingInt32 :=
  if rcv.synReceived = false then none else some (wrap rcv.absAck rcv.isn)

def windowSize (rcv : TCPReceiver) : ℕ := rcv.capacity - rcv.streamOut.buffer.length

/-- `stream_out().read`, by the application. -/
def read (rcv : TCPReceiver) (len : ℕ) : Bytes × TCPReceiver :=
  ((rcv.reassembler.read len).1, { rcv with reassembler := (rcv.reassembler.read len).2 })

/-- `stream_out().set_error`, when the connection is reset. -/
def setError (rcv : TCPReceiver) : TCPReceiver :=
  { rcv with reassembler := { rcv.reassembler with output := rcv.reassembler.output.setError } }

theorem absAck_eq (rcv : TCPReceiver) :
    rcv.absAck = rcv.streamOut.bytesWritten + 1 + if rcv.streamOut.inputEnded then 1 else 0 := by
  unfold absAck
  split_ifs <;> rfl

/-- After the SYN, a segment without SYN is pushed at its index. -/
theorem segmentReceived_eq {rcv : TCPReceiver} (h : rcv.synReceived = true) {seg : TCPSegment}
    (hs : seg.header.syn = false) :
    rcv.segmentReceived seg = rcv.push seg.payload (rcv.streamIndex seg) seg.header.fin := by
  simp [segmentReceived, synced, h, hs]

/-! ### Runs of a receiver -/

inductive Op where
  | segment (seg : TCPSegment)
  | read (len : ℕ)
  | setError

def step (rcv : TCPReceiver) : Op → Option TCPReceiver
  | .segment seg => rcv.segmentReceived seg
  | .read len => some (rcv.read len).2
  | .setError => some rcv.setError

/-- A payload is a string. -/
def Sized : Op → Prop
  | .segment seg => seg.payload.length < 2 ^ 63
  | .read _ => True
  | .setError => True

/-- What a receiver keeps. -/
structure Held (capacity : ℕ) (rcv : TCPReceiver) : Prop where
  held : StreamReassembler.Held capacity (2 ^ 63) rcv.reassembler
  cap : rcv.capacity = capacity

theorem synced_reassembler (rcv : TCPReceiver) (seg : TCPSegment) :
    (rcv.synced seg).reassembler = rcv.reassembler ∧ (rcv.synced seg).capacity = rcv.capacity := by
  unfold synced
  split <;> exact ⟨rfl, rfl⟩

theorem streamIndex_lt (rcv : TCPReceiver) (seg : TCPSegment) : rcv.streamIndex seg < 2 ^ 64 :=
  Nat.mod_lt _ (by decide)

/-- What a segment does to the reassembler: nothing, or one push. -/
theorem segmentReceived_cases {rcv rcv' : TCPReceiver} {seg : TCPSegment} (h : rcv.segmentReceived seg = some rcv') :
    rcv' = rcv.synced seg ∨ ∃ data index, data.length ≤ seg.payload.length ∧ index < 2 ^ 64 ∧
      (rcv.synced seg).push data index seg.header.fin = some rcv' := by
  unfold segmentReceived at h
  dsimp only at h
  split_ifs at h with h1 h2 h3
  · exact Or.inl (Option.some.inj h).symm
  · exact Or.inr ⟨[], 0, Nat.zero_le _, by decide, by rw [h3]; exact h⟩
  · exact Or.inl (Option.some.inj h).symm
  · exact Or.inr ⟨_, _, le_rfl, streamIndex_lt _ _, h⟩

/-- So what a push keeps, a segment keeps. -/
theorem segmentReceived_push {P : StreamReassembler → Prop} {rcv rcv' : TCPReceiver} {seg : TCPSegment}
    (h : rcv.segmentReceived seg = some rcv') (hself : P rcv.reassembler)
    (hpush : ∀ data index r', rcv.reassembler.pushSubstring data index seg.header.fin = some r' → P r') :
    P rcv'.reassembler := by
  obtain ⟨h1, -⟩ := synced_reassembler rcv seg
  rcases segmentReceived_cases h with rfl | ⟨data, index, -, -, hp⟩
  · rw [h1]
    exact hself
  · obtain ⟨r', hr', rfl⟩ := Option.map_eq_some_iff.mp hp
    rw [h1] at hr'
    exact hpush data index r' hr'

/-- A stream that is ended stays as it is, whatever arrives. -/
theorem segmentReceived_streamOut {rcv rcv' : TCPReceiver} {seg : TCPSegment} (he : rcv.streamOut.inputEnded = true)
    (h : rcv.segmentReceived seg = some rcv') : rcv'.streamOut = rcv.streamOut :=
  segmentReceived_push (P := fun r => r.output = rcv.streamOut) h rfl fun _ _ _ hp => pushSubstring_output he hp

/-- No segment moves the edge. -/
theorem segmentReceived_edge {rcv rcv' : TCPReceiver} {seg : TCPSegment} (h : rcv.segmentReceived seg = some rcv') :
    rcv'.reassembler.edge = rcv.reassembler.edge :=
  segmentReceived_push (P := fun r => r.edge = rcv.reassembler.edge) h rfl fun _ _ _ hp => pushSubstring_edge hp

/-- Then an answer to a segment without SYN is the answer before. -/
theorem segmentReceived_ackno {rcv rcv' : TCPReceiver} {seg : TCPSegment} (he : rcv.streamOut.inputEnded = true)
    (hs : seg.header.syn = false) (h : rcv.segmentReceived seg = some rcv') : rcv'.ackno = rcv.ackno := by
  have hout := segmentReceived_streamOut he h
  have hsame : rcv.synced seg = rcv := by simp [synced, hs]
  have hctl : rcv'.synReceived = rcv.synReceived ∧ rcv'.isn = rcv.isn := by
    rcases segmentReceived_cases h with rfl | ⟨data, index, -, -, hp⟩
    · rw [hsame]
      exact ⟨rfl, rfl⟩
    · obtain ⟨r', hr', rfl⟩ := Option.map_eq_some_iff.mp hp
      rw [hsame]
      exact ⟨rfl, rfl⟩
  unfold ackno absAck
  rw [hctl.1, hctl.2, hout]

theorem step_edge {rcv rcv' : TCPReceiver} {op : Op} (h : step rcv op = some rcv') :
    rcv.reassembler.edge ≤ rcv'.reassembler.edge := by
  cases op with
  | segment seg => exact (segmentReceived_edge h).ge
  | read len =>
    obtain rfl := Option.some.inj h
    exact Held.read_edge _ _
  | setError =>
    obtain rfl := Option.some.inj h
    exact le_rfl

theorem step_held {capacity : ℕ} {rcv rcv' : TCPReceiver} {op : Op} (hop : Sized op)
    (he : rcv'.reassembler.edge ≤ 2 ^ 63) (h : Held capacity rcv) (hs : step rcv op = some rcv') :
    Held capacity rcv' := by
  have hedge := (step_edge hs).trans he
  cases op with
  | segment seg =>
    obtain ⟨h1, h2⟩ := synced_reassembler rcv seg
    rcases segmentReceived_cases hs with rfl | ⟨data, index, hl, hi, hp⟩
    · exact ⟨h1.symm ▸ h.held, h2.trans h.cap⟩
    · have hd : data.length < 2 ^ 63 := lt_of_le_of_lt hl hop
      rw [← h1] at hedge
      obtain ⟨r', hr', hh⟩ := StreamReassembler.Held.push (h1.symm ▸ h.held) hedge hd hi hd.le seg.header.fin
      simp only [push, hr', Option.map_some, Option.some.injEq] at hp
      subst hp
      exact ⟨hh, h2.trans h.cap⟩
  | read len =>
    obtain rfl := Option.some.inj hs
    exact ⟨h.held.read len, h.cap⟩
  | setError =>
    obtain rfl := Option.some.inj hs
    exact ⟨h.held.setError, h.cap⟩

theorem run_held {capacity : ℕ} {ops : List Op} {rcv : TCPReceiver} (hops : ∀ op ∈ ops, Sized op)
    (hr : Runs.run step (init capacity) ops = some rcv) (he : rcv.reassembler.edge ≤ 2 ^ 63) : Held capacity rcv := by
  refine Runs.run_bounded (I := Held capacity) (B := fun rcv => rcv.reassembler.edge ≤ 2 ^ 63) ?_ ?_ hops
    ⟨held_init capacity _, rfl⟩ hr he
  · exact fun _ _ _ hs he' => (step_edge hs).trans he'
  · exact fun _ _ _ hop hB hI hs => step_held hop hB hI hs

end TCPReceiver
end Sponge
