/-
# Copying between a terminal and a socket

`bidirectional_stream_copy.cc`: two byte streams and four rules of an event
loop, which move bytes from the standard input to a socket and from the socket
to the standard output. Both directions work alike, so each is a `Half`: a
source, a stream and a sink. Whatever the polls report and however few bytes a
call moves, what a sink got and what the stream holds is a beginning of what
was read from the source, and all of it as long as the sink has not hung up
(`copies_in_order`); a sink is shut down only after all of it
(`shut_down_after_all`), and the copy does not return before (`returns_done`).

Key definitions: `StreamCopy.rule`, `StreamCopy.turn`, `StreamCopy.Half`,
`StreamCopy.Half.Inv`, `StreamCopy.Path`.
Key theorems: `StreamCopy.turn_path`, `StreamCopy.copies_in_order`,
`StreamCopy.shut_down_after_all`, `StreamCopy.returns_done`.
-/
import Sponge.ByteStream
import Sponge.EventLoop
import Sponge.FileDescriptor
import Sponge.Lib.Runs

namespace Sponge

/-- The descriptors, the streams, and which sinks are shut down. -/
structure StreamCopy where
  input : FileDescriptor
  socket : FileDescriptor
  output : FileDescriptor
  outbound : ByteStream
  inbound : ByteStream
  outboundShutdown : Bool
  inboundShutdown : Bool

namespace StreamCopy

open EventLoop Runs

def maxCopyLength : ℕ := 65536

def bufferSize : ℕ := 1048576

/-- The rules, in the order they were added. -/
inductive RuleName where
  | rule1 | rule2 | rule3 | rule4
  deriving DecidableEq

/-- What the system calls of a pass answer. -/
structure Answers where
  readInput : Result Bytes := .ok []
  writeSocket : Result ℕ := .ok 0
  shutdownSocket : Result Unit := .ok ()
  readSocket : Result Bytes := .ok []
  writeOutput : Result ℕ := .ok 0
  closeOutput : Result Unit := .ok ()

/-- Rules 1 and 3: from a descriptor into a stream. -/
def readInto (stream : ByteStream) (fd : FileDescriptor) (answer : Result Bytes) :
    Result (ByteStream × FileDescriptor) :=
  let (data, fd) := fd.read answer stream.remainingCapacity
  data.map fun data =>
    let stream := (stream.write data).2
    (if fd.eof then stream.endInput else stream, fd)

/-- Rules 2 and 4: from a stream into a descriptor; one call of `writev` is
all that is made. -/
def writeFrom (stream : ByteStream) (fd : FileDescriptor) (answer : Result ℕ) :
    Result (ByteStream × FileDescriptor) :=
  let bytesToWrite := min maxCopyLength stream.buffer.length
  let (bytesWritten, fd) := fd.write [stream.peekOutput bytesToWrite] false [answer]
  (bytesWritten.getD (.ok 0)).map fun bytesWritten => (stream.popOutput bytesWritten, fd)

/-- Rule 1. -/
def readInput (answers : Answers) (s : StreamCopy) : Result StreamCopy :=
  (readInto s.outbound s.input answers.readInput).map fun (outbound, input) => { s with outbound, input }

/-- Rule 2, which shuts the socket down for writing at the end of the stream. -/
def writeSocket (answers : Answers) (s : StreamCopy) : Result StreamCopy :=
  (writeFrom s.outbound s.socket answers.writeSocket).bind fun (outbound, socket) =>
    let s : StreamCopy := { s with outbound, socket }
    if s.outbound.eof then
      answers.shutdownSocket.map fun _ =>
        { s with socket := { s.socket with writeCount := s.socket.writeCount + 1 }, outboundShutdown := true }
    else .ok s

/-- Rule 3. -/
def readSocket (answers : Answers) (s : StreamCopy) : Result StreamCopy :=
  (readInto s.inbound s.socket answers.readSocket).map fun (inbound, socket) => { s with inbound, socket }

/-- Rule 4, which closes the standard output at the end of the stream. -/
def writeOutput (answers : Answers) (s : StreamCopy) : Result StreamCopy :=
  (writeFrom s.inbound s.output answers.writeOutput).bind fun (inbound, output) =>
    let s : StreamCopy := { s with inbound, output }
    if s.inbound.eof then
      answers.closeOutput.map fun _ => { s with output := s.output.close, inboundShutdown := true }
    else .ok s

/-- The callback of a rule, with whether its descriptor was read or written. -/
def serviced (count : StreamCopy → ℕ) (callback : Answers → StreamCopy → Result StreamCopy) (answers : Answers)
    (s : StreamCopy) : Result (StreamCopy × Bool) :=
  (callback answers s).map fun s' => (s', count s' != count s)

def rule : RuleName → Rule StreamCopy Answers Exception
  | .rule1 =>
    { direction := .In
      eof := fun s => s.input.eof
      closed := fun s => s.input.closed
      callback := serviced (fun s => s.input.readCount) readInput
      interest := fun s => !s.outbound.error && decide (0 < s.outbound.remainingCapacity) && !s.inbound.error
      cancel := fun s => { s with outbound := s.outbound.endInput } }
  | .rule2 =>
    { direction := .Out
      eof := fun s => s.socket.eof
      closed := fun s => s.socket.closed
      callback := serviced (fun s => s.socket.writeCount) writeSocket
      interest := fun s => !s.outbound.buffer.isEmpty || (s.outbound.eof && !s.outboundShutdown)
      cancel := fun s => { s with outbound := s.outbound.endInput } }
  | .rule3 =>
    { direction := .In
      eof := fun s => s.socket.eof
      closed := fun s => s.socket.closed
      callback := serviced (fun s => s.socket.readCount) readSocket
      interest := fun s => !s.inbound.error && decide (0 < s.inbound.remainingCapacity) && !s.outbound.error
      cancel := fun s => { s with inbound := s.inbound.endInput } }
  | .rule4 =>
    { direction := .Out
      eof := fun s => s.output.eof
      closed := fun s => s.output.closed
      callback := serviced (fun s => s.output.writeCount) writeOutput
      interest := fun s => !s.inbound.buffer.isEmpty || (s.inbound.eof && !s.inboundShutdown)
      cancel := fun s => { s with inbound := s.inbound.endInput } }

/-! ### The loop -/

/-- The state, the rules not cancelled, and whether the function has returned. -/
structure Loop where
  copy : StreamCopy
  rules : List RuleName
  returned : Bool

def start : Loop where
  copy :=
    { input := {}
      socket := {}
      output := {}
      outbound := ByteStream.init bufferSize
      inbound := ByteStream.init bufferSize
      outboundShutdown := false
      inboundShutdown := false }
  rules := [.rule1, .rule2, .rule3, .rule4]
  returned := false

/-- What a pass meets: the poll, and the answers of the system calls. -/
structure Event where
  poll : Poll RuleName
  answers : Answers

/-- One call of `wait_next_event`; an exception ends the loop. -/
def turn (l : Loop) (e : Event) : Option Loop :=
  if l.returned then none
  else
    match waitNextEvent rule e.poll e.answers l.rules l.copy with
    | .error _ => none
    | .ok (res, rules, copy) => some ⟨copy, rules, decide (res = .exit)⟩

/-! ### What a call moves -/

theorem readInto_ok {stream stream' : ByteStream} {fd fd' : FileDescriptor} {answer : Result Bytes}
    (h : readInto stream fd answer = .ok (stream', fd')) : ∃ data : Bytes,
      data.length ≤ stream.remainingCapacity ∧ fd'.got = fd.got ++ data ∧ fd'.put = fd.put ∧
      fd'.closed = fd.closed ∧ (fd.eof = true → fd'.eof = true) ∧
      stream' = if fd'.eof then (stream.write data).2.endInput else (stream.write data).2 := by
  obtain ⟨data, hdata, h⟩ := Result.map_eq_ok.mp h
  obtain ⟨rfl, rfl⟩ := Prod.mk.inj h
  obtain ⟨hlen, hgot, hput, hclosed, heof⟩ := FileDescriptor.read_ok hdata
  exact ⟨data, hlen, hgot, hput, hclosed, heof, rfl⟩

theorem writeFrom_ok {stream stream' : ByteStream} {fd fd' : FileDescriptor} {answer : Result ℕ}
    (he : stream.error = false) (h : writeFrom stream fd answer = .ok (stream', fd')) :
    ∃ n, stream' = stream.popOutput n ∧ fd'.put = fd.put ++ stream.buffer.take n ∧
      fd'.got = fd.got ∧ fd'.eof = fd.eof ∧ fd'.closed = fd.closed := by
  set buffer : BufferList := [stream.peekOutput (min maxCopyLength stream.buffer.length)]
  have hpeek : buffer.concatenate = stream.buffer.take (min maxCopyLength stream.buffer.length) := by
    show stream.peekOutput _ ++ [] = _
    rw [ByteStream.peekOutput_eq, he, if_neg Bool.false_ne_true, List.append_nil]
  obtain ⟨k, hk, hput, hret⟩ := fd.write_prefix buffer false [answer]
  obtain ⟨hgot, heof, hclosed, -⟩ := fd.write_frame buffer false [answer]
  have hk' : k ≤ min maxCopyLength stream.buffer.length := by
    rw [BufferList.size_eq, hpeek, List.length_take] at hk
    omega
  rw [hpeek, List.take_take, min_eq_left hk'] at hput
  obtain ⟨n, hn, h⟩ := Result.map_eq_ok.mp h
  obtain ⟨rfl, rfl⟩ := Prod.mk.inj h
  have hwritten : (fd.write buffer false [answer]).1.getD (.ok 0) = .ok n := hn
  obtain ⟨r, hr⟩ := Option.isSome_iff_exists.mp (fd.write_isSome buffer answer)
  rw [hr, Option.getD_some] at hwritten
  obtain ⟨rfl, -⟩ := hret n (hr.trans (congrArg some hwritten))
  exact ⟨n, rfl, hput, hgot, heof, hclosed⟩

/-! ### One direction -/

/-- A source, the stream from it, the sink, and whether that is shut down. -/
structure Half where
  src : FileDescriptor
  stream : ByteStream
  dst : FileDescriptor
  shutdown : Bool

def outboundHalf (s : StreamCopy) : Half := ⟨s.input, s.outbound, s.socket, s.outboundShutdown⟩

def inboundHalf (s : StreamCopy) : Half := ⟨s.socket, s.inbound, s.output, s.inboundShutdown⟩

namespace Half

def endInput (h : Half) : Half := { h with stream := h.stream.endInput }

/-- What happens elsewhere. -/
structure Same (h h' : Half) : Prop where
  stream : h'.stream = h.stream
  shutdown : h'.shutdown = h.shutdown
  got : h'.src.got = h.src.got
  eof : h'.src.eof = h.src.eof
  gone : h'.src.closed = h.src.closed
  put : h'.dst.put = h.dst.put
  closed : h'.dst.closed = h.dst.closed

/-- The source is read. -/
structure Fills (h h' : Half) (data : Bytes) : Prop where
  fits : data.length ≤ h.stream.remainingCapacity
  stream : h'.stream = if h'.src.eof then (h.stream.write data).2.endInput else (h.stream.write data).2
  shutdown : h'.shutdown = h.shutdown
  got : h'.src.got = h.src.got ++ data
  gone : h'.src.closed = h.src.closed
  put : h'.dst.put = h.dst.put
  closed : h'.dst.closed = h.dst.closed

/-- The sink is written, and shut down at the end of the stream. -/
structure Drains (h h' : Half) (n : ℕ) : Prop where
  stream : h'.stream = h.stream.popOutput n
  shutdown : h'.shutdown = (h.shutdown || h'.stream.eof)
  got : h'.src.got = h.src.got
  eof : h'.src.eof = h.src.eof
  gone : h'.src.closed = h.src.closed
  put : h'.dst.put = h.dst.put ++ h.stream.buffer.take n
  closed : h'.dst.closed = true → h.dst.closed = true ∨ h'.shutdown = true

/-- What holds of a direction while its rules are registered, or not: `fills`
and `drains` say which are, `sound` that its sink never hung up and its source
only with something to read. -/
structure Inv (sound fills drains : Prop) (h : Half) : Prop where
  error : h.stream.error = false
  capacity : h.stream.capacity = bufferSize
  isPrefix : h.dst.put ++ h.stream.buffer <+: h.src.got
  all : h.stream.inputEnded = false ∨ drains → h.dst.put ++ h.stream.buffer = h.src.got
  ended : ¬ fills → h.stream.inputEnded = true
  read : h.stream.inputEnded = true → drains → fills → h.src.eof = true
  shut : h.shutdown = true → h.stream.inputEnded = true ∧ h.stream.buffer = [] ∧ h.dst.put = h.src.got ∧
    (fills → h.src.eof = true)
  closed : h.dst.closed = true → h.shutdown = true
  alive : sound → drains ∨ h.shutdown = true
  gone : h.src.closed = false
  seen : sound → ¬ fills → h.src.eof = true

variable {sound fills drains : Prop} {h h' : Half}

theorem Inv.same (hi : Inv sound fills drains h) (hs : Same h h') : Inv sound fills drains h' where
  error := hs.stream ▸ hi.error
  capacity := hs.stream ▸ hi.capacity
  isPrefix := by
    rw [hs.put, hs.stream, hs.got]
    exact hi.isPrefix
  all := by
    rw [hs.put, hs.stream, hs.got]
    exact hi.all
  ended := by
    rw [hs.stream]
    exact hi.ended
  read := by
    rw [hs.stream, hs.eof]
    exact hi.read
  shut := by
    rw [hs.shutdown, hs.stream, hs.put, hs.got, hs.eof]
    exact hi.shut
  closed := by
    rw [hs.closed, hs.shutdown]
    exact hi.closed
  alive := by
    rw [hs.shutdown]
    exact hi.alive
  gone := hs.gone.trans hi.gone
  seen := by
    rw [hs.eof]
    exact hi.seen

theorem Inv.congr {fills' drains' : Prop} (hi : Inv sound fills drains h) (hf : fills' ↔ fills)
    (hd : drains' ↔ drains) : Inv sound fills' drains' h := by
  rwa [propext hf, propext hd]

/-- A read that is not at the end of the source: what fits the stream goes in,
unless the stream was ended from the other side. -/
theorem Inv.fill (hi : Inv sound fills drains h) (hf : fills) (heof : h.src.eof = false) {data : Bytes}
    (hs : Fills h h' data) : Inv sound fills drains h' := by
  have hnot : h.shutdown = false := by
    by_contra hc
    exact Bool.false_ne_true (heof.symm.trans ((hi.shut (Bool.not_eq_false _ ▸ hc)).2.2.2 hf))
  have hbuffer : h'.stream.buffer = (h.stream.write data).2.buffer := by
    rw [hs.stream]
    split_ifs <;> rfl
  have hflag : h'.stream.inputEnded = true ↔ h'.src.eof = true ∨ h.stream.inputEnded = true := by
    rw [hs.stream]
    split_ifs with he <;> simp [ByteStream.endInput, he]
  have hopen : h.stream.inputEnded = false → h'.dst.put ++ h'.stream.buffer = h'.src.got := by
    intro he
    have hroom : h.stream.room = h.stream.remainingCapacity := ByteStream.room_of_open ⟨hi.error, he⟩
    rw [hs.put, hbuffer, ByteStream.write_snd_buffer, hroom, min_eq_right hs.fits, List.take_length,
      ← List.append_assoc, hi.all (Or.inl he), hs.got]
  have hclosed : drains → h.stream.inputEnded = false := by
    intro hd
    by_contra hc
    exact Bool.false_ne_true (heof.symm.trans (hi.read (Bool.not_eq_false _ ▸ hc) hd hf))
  refine ⟨?_, ?_, ?_, ?_, fun hc => absurd hf hc, ?_, ?_, ?_, ?_, hs.gone.trans hi.gone, fun _ hc => absurd hf hc⟩
  · rw [hs.stream]
    split_ifs <;> exact (ByteStream.write_snd_error _ _).trans hi.error
  · rw [hs.stream]
    split_ifs <;> exact (ByteStream.write_snd_capacity _ _).trans hi.capacity
  · rcases Bool.eq_false_or_eq_true h.stream.inputEnded with he | he
    · have hno : ¬ h.stream.Open := fun ho => Bool.false_ne_true (ho.2.symm.trans he)
      rw [hs.put, hbuffer, ByteStream.write_of_not_open hno, hs.got]
      exact hi.isPrefix.trans (List.prefix_append _ _)
    · rw [hopen he]
  · rintro (he | hd)
    · refine hopen ?_
      by_contra hc
      exact Bool.false_ne_true (he.symm.trans (hflag.mpr (Or.inr (Bool.not_eq_false _ ▸ hc))))
    · exact hopen (hclosed hd)
  · intro he hd _
    exact (hflag.mp he).resolve_right fun hc => Bool.false_ne_true ((hclosed hd).symm.trans hc)
  · intro hc
    rw [hs.shutdown, hnot] at hc
    exact absurd hc Bool.false_ne_true
  · rw [hs.closed, hs.shutdown]
    exact hi.closed
  · rw [hs.shutdown]
    exact hi.alive

/-- The stream hands its first bytes on. -/
theorem Inv.drain (hi : Inv sound fills drains h) (hd : drains) {n : ℕ} (hs : Drains h h' n) :
    Inv sound fills drains h' := by
  have hbuffer : h'.stream.buffer = h.stream.buffer.drop n := by
    rw [hs.stream, ByteStream.popOutput_buffer, hi.error, if_neg Bool.false_ne_true]
  have hended : h'.stream.inputEnded = h.stream.inputEnded := by rw [hs.stream, ByteStream.popOutput_inputEnded]
  have hkept : h'.dst.put ++ h'.stream.buffer = h.dst.put ++ h.stream.buffer := calc
    h'.dst.put ++ h'.stream.buffer = h.dst.put ++ (h.stream.buffer.take n ++ h.stream.buffer.drop n) := by
        rw [hs.put, hbuffer, List.append_assoc]
    _ = h.dst.put ++ h.stream.buffer := by rw [List.take_append_drop]
  have hall := hi.all (Or.inr hd)
  refine ⟨?_, ?_, ?_, ?_, ?_, ?_, ?_, ?_, fun _ => Or.inl hd, hs.gone.trans hi.gone, ?_⟩
  · rw [hs.stream, ByteStream.popOutput_error, hi.error]
  · rw [hs.stream, ByteStream.popOutput_capacity, hi.capacity]
  · rw [hkept, hs.got]
    exact hi.isPrefix
  · intro _
    rw [hkept, hs.got, hall]
  · rw [hended]
    exact hi.ended
  · rw [hended, hs.eof]
    exact hi.read
  · intro hc
    have hend : h.stream.inputEnded = true ∧ h'.stream.buffer = [] := by
      rw [hs.shutdown, Bool.or_eq_true] at hc
      rcases hc with hc | hc
      · obtain ⟨h1, h2, -, -⟩ := hi.shut hc
        exact ⟨h1, by rw [hbuffer, h2, List.drop_nil]⟩
      · simp only [ByteStream.eof, Bool.and_eq_true, List.isEmpty_iff] at hc
        exact ⟨hended ▸ hc.1, hc.2⟩
    refine ⟨hended.trans hend.1, hend.2, ?_, fun hf => ?_⟩
    · rw [hs.got, ← hall, ← hkept, hend.2, List.append_nil]
    · rw [hs.eof]
      exact hi.read hend.1 hd hf
  · intro hc
    rcases hs.closed hc with hc | hc
    · rw [hs.shutdown, hi.closed hc, Bool.true_or]
    · exact hc
  · rw [hs.eof]
    exact hi.seen

/-- No more is read: the stream is ended. -/
theorem Inv.cancelFill (hi : Inv sound fills drains h) (hsound : sound → h.src.eof = true) :
    Inv sound False drains h.endInput where
  error := hi.error
  capacity := hi.capacity
  isPrefix := hi.isPrefix
  all := fun hc => hi.all (hc.imp_left fun he => absurd he.symm Bool.false_ne_true)
  ended := fun _ => rfl
  read := fun _ _ hf => hf.elim
  shut := fun hc => ⟨rfl, (hi.shut hc).2.1, (hi.shut hc).2.2.1, False.elim⟩
  closed := hi.closed
  alive := hi.alive
  gone := hi.gone
  seen := fun hc _ => hsound hc

/-- No more is written. -/
theorem Inv.cancelDrain (hi : Inv sound fills drains h) (hsound : sound → h.shutdown = true) :
    Inv sound fills False h.endInput where
  error := hi.error
  capacity := hi.capacity
  isPrefix := hi.isPrefix
  all := fun hc => hc.elim (fun he => absurd he.symm Bool.false_ne_true) False.elim
  ended := fun _ => rfl
  read := fun _ hd _ => hd.elim
  shut := fun hc => ⟨rfl, (hi.shut hc).2⟩
  closed := hi.closed
  alive := fun hc => Or.inr (hsound hc)
  gone := hi.gone
  seen := hi.seen

end Half

/-! ### Both directions -/

theorem serviced_ok {count : StreamCopy → ℕ} {callback : Answers → StreamCopy → Result StreamCopy} {answers : Answers}
    {s s' : StreamCopy} {served : Bool} (h : serviced count callback answers s = .ok (s', served)) :
    callback answers s = .ok s' := by
  obtain ⟨s₁, h1, h2⟩ := Result.map_eq_ok.mp h
  rw [h1, (Prod.mk.inj h2).1]

theorem writeFrom_frame {stream stream' : ByteStream} {fd fd' : FileDescriptor} {answer : Result ℕ}
    (h : writeFrom stream fd answer = .ok (stream', fd')) :
    fd'.got = fd.got ∧ fd'.eof = fd.eof ∧ fd'.closed = fd.closed := by
  obtain ⟨n, -, h⟩ := Result.map_eq_ok.mp h
  obtain ⟨-, rfl⟩ := Prod.mk.inj h
  obtain ⟨hgot, heof, hclosed, -⟩ :=
    fd.write_frame [stream.peekOutput (min maxCopyLength stream.buffer.length)] false [answer]
  exact ⟨hgot, heof, hclosed⟩

theorem writeSocket_ok {answers : Answers} {s s' : StreamCopy} (h : writeSocket answers s = .ok s') :
    ∃ outbound socket, writeFrom s.outbound s.socket answers.writeSocket = .ok (outbound, socket) ∧
      s'.input = s.input ∧ s'.output = s.output ∧ s'.inbound = s.inbound ∧ s'.inboundShutdown = s.inboundShutdown ∧
      s'.outbound = outbound ∧ s'.outboundShutdown = (s.outboundShutdown || outbound.eof) ∧
      ∃ writeCount, s'.socket = { socket with writeCount } := by
  unfold writeSocket at h
  cases hw : writeFrom s.outbound s.socket answers.writeSocket with
  | error e => rw [hw] at h; cases h
  | ok out =>
    rw [hw] at h
    dsimp only [Except.bind] at h
    refine ⟨out.1, out.2, rfl, ?_⟩
    split_ifs at h with he
    · obtain ⟨-, -, rfl⟩ := Result.map_eq_ok.mp h
      exact ⟨rfl, rfl, rfl, rfl, rfl, by simp [he], _, rfl⟩
    · obtain rfl := Except.ok.inj h
      exact ⟨rfl, rfl, rfl, rfl, rfl, by simp [he], _, rfl⟩

theorem writeOutput_ok {answers : Answers} {s s' : StreamCopy} (h : writeOutput answers s = .ok s') :
    ∃ inbound output, writeFrom s.inbound s.output answers.writeOutput = .ok (inbound, output) ∧
      s'.input = s.input ∧ s'.socket = s.socket ∧ s'.outbound = s.outbound ∧
      s'.outboundShutdown = s.outboundShutdown ∧ s'.inbound = inbound ∧
      s'.inboundShutdown = (s.inboundShutdown || inbound.eof) ∧
      s'.output = if inbound.eof then output.close else output := by
  unfold writeOutput at h
  cases hw : writeFrom s.inbound s.output answers.writeOutput with
  | error e => rw [hw] at h; cases h
  | ok out =>
    rw [hw] at h
    dsimp only [Except.bind] at h
    refine ⟨out.1, out.2, rfl, ?_⟩
    split_ifs at h with he
    · obtain ⟨-, -, rfl⟩ := Result.map_eq_ok.mp h
      exact ⟨rfl, rfl, rfl, rfl, rfl, by simp [he], by rw [if_pos he]⟩
    · obtain rfl := Except.ok.inj h
      exact ⟨rfl, rfl, rfl, rfl, rfl, by simp [he], by rw [if_neg he]⟩

def RuleName.number : RuleName → ℕ
  | .rule1 => 1
  | .rule2 => 2
  | .rule3 => 3
  | .rule4 => 4

/-- The rule `fill` reads the source of the direction and `drain` writes its
sink; the other rules leave it alone. -/
structure Path (half : StreamCopy → Half) (fill drain : RuleName) : Prop where
  order : fill.number < drain.number
  fills : ∀ {answers s s' served}, (rule fill).callback answers s = .ok (s', served) →
    ∃ data, Half.Fills (half s) (half s') data
  drains : ∀ {answers s s' served}, (half s).stream.error = false →
    (rule drain).callback answers s = .ok (s', served) → ∃ n, Half.Drains (half s) (half s') n
  others : ∀ {r answers s s' served}, r ≠ fill → r ≠ drain → (rule r).callback answers s = .ok (s', served) →
    Half.Same (half s) (half s')
  cancelFill : ∀ s, half ((rule fill).cancel s) = (half s).endInput
  cancelDrain : ∀ s, half ((rule drain).cancel s) = (half s).endInput
  cancelOther : ∀ {r} s, r ≠ fill → r ≠ drain → half ((rule r).cancel s) = half s
  endsFill : ∀ {s}, Ends rule fill s ↔ (half s).src.eof = true ∨ (half s).src.closed = true
  endsDrain : ∀ {s}, Ends rule drain s → (half s).dst.closed = true
  interestFill : ∀ {s}, s.outbound.error = false → s.inbound.error = false →
    (rule fill).interest s = decide (0 < (half s).stream.remainingCapacity)
  interestDrain : ∀ s, (rule drain).interest s =
    (!(half s).stream.buffer.isEmpty || ((half s).stream.eof && !(half s).shutdown))

theorem outbound_path : Path outboundHalf .rule1 .rule2 where
  order := by decide
  fills := by
    intro answers s s' served h
    obtain ⟨⟨outbound, input⟩, hr, rfl⟩ := Result.map_eq_ok.mp (serviced_ok h)
    obtain ⟨data, h1, h2, -, h4, -, h3⟩ := readInto_ok hr
    exact ⟨data, h1, h3, rfl, h2, h4, rfl, rfl⟩
  drains := by
    intro answers s s' served he h
    obtain ⟨outbound, socket, hw, h1, -, -, -, h2, h3, writeCount, h4⟩ := writeSocket_ok (serviced_ok h)
    obtain ⟨n, h5, h6, -, -, h7⟩ := writeFrom_ok he hw
    refine ⟨n, h2.trans h5, by rw [outboundHalf, outboundHalf, h2, h3], congrArg _ h1, congrArg _ h1, congrArg _ h1,
      ?_, ?_⟩
    · rw [outboundHalf, h4]; exact h6
    · rw [outboundHalf, h4]; exact fun hc => Or.inl (h7 ▸ hc)
  others := by
    intro r answers s s' served h1 h2 h
    cases r with
    | rule1 => exact absurd rfl h1
    | rule2 => exact absurd rfl h2
    | rule3 =>
      obtain ⟨⟨inbound, socket⟩, hr, rfl⟩ := Result.map_eq_ok.mp (serviced_ok h)
      obtain ⟨-, -, -, h3, h4, -, -⟩ := readInto_ok hr
      exact ⟨rfl, rfl, rfl, rfl, rfl, h3, h4⟩
    | rule4 =>
      obtain ⟨-, -, -, h3, h4, h5, h6, -, -, -⟩ := writeOutput_ok (serviced_ok h)
      simp only [outboundHalf, h3, h4, h5, h6]
      exact ⟨rfl, rfl, rfl, rfl, rfl, rfl, rfl⟩
  cancelFill := fun _ => rfl
  cancelDrain := fun _ => rfl
  cancelOther := by
    intro r s h1 h2
    cases r with
    | rule1 => exact absurd rfl h1
    | rule2 => exact absurd rfl h2
    | rule3 => rfl
    | rule4 => rfl
  endsFill := or_congr_left (and_iff_right rfl)
  endsDrain := by
    rintro s (⟨hc, -⟩ | hc)
    · cases hc
    · exact hc
  interestFill := by
    intro s h1 h2
    show (!s.outbound.error && decide (0 < s.outbound.remainingCapacity) && !s.inbound.error) = _
    rw [h1, h2]
    exact Bool.and_true _
  interestDrain := fun _ => rfl

theorem inbound_path : Path inboundHalf .rule3 .rule4 where
  order := by decide
  fills := by
    intro answers s s' served h
    obtain ⟨⟨inbound, socket⟩, hr, rfl⟩ := Result.map_eq_ok.mp (serviced_ok h)
    obtain ⟨data, h1, h2, -, h4, -, h3⟩ := readInto_ok hr
    exact ⟨data, h1, h3, rfl, h2, h4, rfl, rfl⟩
  drains := by
    intro answers s s' served he h
    obtain ⟨inbound, output, hw, -, h1, -, -, h2, h3, h4⟩ := writeOutput_ok (serviced_ok h)
    obtain ⟨n, h5, h6, -, -, h7⟩ := writeFrom_ok he hw
    have hput : s'.output.put = output.put := by
      rw [h4]
      split_ifs <;> rfl
    refine ⟨n, h2.trans h5, by rw [inboundHalf, inboundHalf, h2, h3], congrArg _ h1, congrArg _ h1, congrArg _ h1,
      hput.trans h6, ?_⟩
    · intro hc
      have hclosed : s'.output.closed = true := hc
      rw [h4] at hclosed
      split_ifs at hclosed with heof
      · exact Or.inr (by rw [inboundHalf, h3, heof, Bool.or_true])
      · exact Or.inl (h7 ▸ hclosed)
  others := by
    intro r answers s s' served h1 h2 h
    cases r with
    | rule1 =>
      obtain ⟨⟨outbound, input⟩, hr, rfl⟩ := Result.map_eq_ok.mp (serviced_ok h)
      exact ⟨rfl, rfl, rfl, rfl, rfl, rfl, rfl⟩
    | rule2 =>
      obtain ⟨outbound, socket, hw, -, h3, h4, h5, -, -, writeCount, h6⟩ := writeSocket_ok (serviced_ok h)
      obtain ⟨h7, h8, h9⟩ := writeFrom_frame hw
      simp only [inboundHalf, h3, h4, h5, h6]
      exact ⟨rfl, rfl, h7, h8, h9, rfl, rfl⟩
    | rule3 => exact absurd rfl h1
    | rule4 => exact absurd rfl h2
  cancelFill := fun _ => rfl
  cancelDrain := fun _ => rfl
  cancelOther := by
    intro r s h1 h2
    cases r with
    | rule1 => rfl
    | rule2 => rfl
    | rule3 => exact absurd rfl h1
    | rule4 => exact absurd rfl h2
  endsFill := or_congr_left (and_iff_right rfl)
  endsDrain := by
    rintro s (⟨hc, -⟩ | hc)
    · cases hc
    · exact hc
  interestFill := by
    intro s h1 h2
    show (!s.inbound.error && decide (0 < s.inbound.remainingCapacity) && !s.outbound.error) = _
    rw [h1, h2]
    exact Bool.and_true _
  interestDrain := fun _ => rfl

/-! ### A pass -/

def Ordered (rules : List RuleName) : Prop := rules.Pairwise fun a b => a.number < b.number

theorem Ordered.not_mem {before after : List RuleName} {r : RuleName} (h : Ordered (before ++ r :: after)) :
    r ∉ before ∧ r ∉ after := by
  obtain ⟨-, hafter, hbefore⟩ := List.pairwise_append.mp h
  refine ⟨fun hr => ?_, fun hr => ?_⟩
  · exact absurd (hbefore r hr r List.mem_cons_self) (lt_irrefl _)
  · exact absurd ((List.pairwise_cons.mp hafter).1 r hr) (lt_irrefl _)

theorem Ordered.erase {before after : List RuleName} {r : RuleName} (h : Ordered (before ++ r :: after)) :
    Ordered (before ++ after) :=
  List.Pairwise.sublist ((List.sublist_cons_self r after).append_left before) h

theorem mem_append_cons_of_ne {before after : List RuleName} {r x : RuleName} (h : x ≠ r) :
    x ∈ before ++ after ↔ x ∈ before ++ r :: after := by
  simp [h]

/-- While the rules are prepared: those that are kept, with their interest, and
those still to come. -/
structure Prepares (half : StreamCopy → Half) (fill drain : RuleName) (sound : Prop)
    (kept : List (RuleName × Bool)) (rest : List RuleName) (s : StreamCopy) : Prop where
  inv : (half s).Inv sound (fill ∈ kept.map Prod.fst ++ rest) (drain ∈ kept.map Prod.fst ++ rest)
  ordered : Ordered (kept.map Prod.fst ++ rest)
  calm : s.outbound.error = false ∧ s.inbound.error = false
  read : fill ∈ kept.map Prod.fst → (half s).src.eof = false
  filling : ∀ b, (fill, b) ∈ kept → b = decide (0 < (half s).stream.remainingCapacity)
  draining : ∀ b, (drain, b) ∈ kept →
    b = (!(half s).stream.buffer.isEmpty || ((half s).stream.eof && !(half s).shutdown))

/-- While they are served. -/
structure Serves (half : StreamCopy → Half) (fill drain : RuleName) (sound : Prop)
    (kept rest : List RuleName) (s : StreamCopy) : Prop where
  inv : (half s).Inv sound (fill ∈ kept ++ rest) (drain ∈ kept ++ rest)
  ordered : Ordered (kept ++ rest)
  read : fill ∈ rest → (half s).src.eof = false

theorem cancel_calm (r : RuleName) (s : StreamCopy) : ((rule r).cancel s).outbound.error = s.outbound.error ∧
    ((rule r).cancel s).inbound.error = s.inbound.error := by
  cases r <;> exact ⟨rfl, rfl⟩

namespace Path

variable {half : StreamCopy → Half} {fill drain : RuleName} {sound : Prop}

theorem ne (hp : Path half fill drain) : fill ≠ drain := fun h => absurd (h ▸ hp.order) (lt_irrefl _)

/-- The rule that reads comes before the one that writes. -/
theorem before (hp : Path half fill drain) {kept rest : List RuleName} (h : Ordered (kept ++ rest))
    (hd : drain ∈ kept) : fill ∉ rest := fun hf =>
  absurd ((List.pairwise_append.mp h).2.2 drain hd fill hf) (not_lt.mpr hp.order.le)

theorem prepares_cancel (hp : Path half fill drain) {kept : List (RuleName × Bool)} {r : RuleName}
    {rest : List RuleName} {s : StreamCopy} (he : Ends rule r s)
    (h : Prepares half fill drain sound kept (r :: rest) s) :
    Prepares half fill drain sound kept rest ((rule r).cancel s) := by
  obtain ⟨hk, hr⟩ := h.ordered.not_mem
  have hcalm : ((rule r).cancel s).outbound.error = false ∧ ((rule r).cancel s).inbound.error = false := by
    rw [(cancel_calm r s).1, (cancel_calm r s).2]
    exact h.calm
  have hkept : ∀ b, (r, b) ∉ kept := fun b hb => hk (List.mem_map_of_mem hb)
  by_cases hf : r = fill
  · subst hf
    have hno : r ∉ kept.map Prod.fst ++ rest := fun hc => (List.mem_append.mp hc).elim hk hr
    refine ⟨?_, h.ordered.erase, hcalm, fun hc => absurd hc hk, fun b hb => absurd hb (hkept b), fun b hb => ?_⟩
    · rw [hp.cancelFill]
      have heof : (half s).src.eof = true := (hp.endsFill.mp he).resolve_right (by rw [h.inv.gone]; decide)
      exact (h.inv.cancelFill fun _ => heof).congr (iff_of_false hno id) (mem_append_cons_of_ne hp.ne.symm)
    · exact absurd List.mem_cons_self (hp.before h.ordered (List.mem_map_of_mem hb))
  · by_cases hd : r = drain
    · subst hd
      have hno : r ∉ kept.map Prod.fst ++ rest := fun hc => (List.mem_append.mp hc).elim hk hr
      refine ⟨?_, h.ordered.erase, hcalm, ?_, ?_, fun b hb => absurd hb (hkept b)⟩
      · rw [hp.cancelDrain]
        exact (h.inv.cancelDrain fun _ => h.inv.closed (hp.endsDrain he)).congr (mem_append_cons_of_ne hp.ne)
          (iff_of_false hno id)
      · rw [hp.cancelDrain]
        exact h.read
      · rw [hp.cancelDrain]
        exact h.filling
    · refine ⟨?_, h.ordered.erase, hcalm, ?_, ?_, ?_⟩
      · rw [hp.cancelOther s hf hd]
        exact h.inv.congr (mem_append_cons_of_ne (Ne.symm hf)) (mem_append_cons_of_ne (Ne.symm hd))
      all_goals rw [hp.cancelOther s hf hd]
      · exact h.read
      · exact h.filling
      · exact h.draining

theorem prepares_keep (hp : Path half fill drain) {kept : List (RuleName × Bool)} {r : RuleName}
    {rest : List RuleName} {s : StreamCopy} (he : ¬ Ends rule r s)
    (h : Prepares half fill drain sound kept (r :: rest) s) :
    Prepares half fill drain sound (kept ++ [(r, (rule r).interest s)]) rest s := by
  have hlist : (kept ++ [(r, (rule r).interest s)]).map Prod.fst ++ rest = kept.map Prod.fst ++ r :: rest := by
    rw [List.map_append, List.append_assoc]
    rfl
  have hlast : ∀ {x b}, (x, b) ∈ kept ++ [(r, (rule r).interest s)] →
      (x, b) ∈ kept ∨ x = r ∧ b = (rule r).interest s := by
    intro x b hb
    simpa using hb
  refine ⟨?_, ?_, h.calm, fun hc => ?_, fun b hb => ?_, fun b hb => ?_⟩
  · rw [hlist]
    exact h.inv
  · rw [hlist]
    exact h.ordered
  · rw [List.map_append, List.mem_append] at hc
    rcases hc with hc | hc
    · exact h.read hc
    · obtain rfl := List.mem_singleton.mp hc
      exact Bool.eq_false_iff.mpr fun hc => he (hp.endsFill.mpr (Or.inl hc))
  · rcases hlast hb with hb | ⟨rfl, rfl⟩
    · exact h.filling b hb
    · exact hp.interestFill h.calm.1 h.calm.2
  · rcases hlast hb with hb | ⟨rfl, rfl⟩
    · exact h.draining b hb
    · exact hp.interestDrain s

theorem serves_cancel (hp : Path half fill drain) {kept rest : List RuleName} {r : RuleName} {s : StreamCopy}
    (hsound : r = drain ∨ r = fill → ¬ sound) (h : Serves half fill drain sound kept (r :: rest) s) :
    Serves half fill drain sound kept rest ((rule r).cancel s) := by
  obtain ⟨hk, hr⟩ := h.ordered.not_mem
  have hno : r ∉ kept ++ rest := fun hc => (List.mem_append.mp hc).elim hk hr
  by_cases hf : r = fill
  · subst hf
    refine ⟨?_, h.ordered.erase, fun hc => absurd hc hr⟩
    rw [hp.cancelFill]
    exact (h.inv.cancelFill fun hs => absurd hs (hsound (Or.inr rfl))).congr (iff_of_false hno id)
      (mem_append_cons_of_ne hp.ne.symm)
  · by_cases hd : r = drain
    · subst hd
      refine ⟨?_, h.ordered.erase, fun hc => ?_⟩
      · rw [hp.cancelDrain]
        exact (h.inv.cancelDrain fun hs => absurd hs (hsound (Or.inl rfl))).congr (mem_append_cons_of_ne hp.ne)
          (iff_of_false hno id)
      · rw [hp.cancelDrain]
        exact h.read (List.mem_cons_of_mem _ hc)
    · refine ⟨?_, h.ordered.erase, fun hc => ?_⟩
      · rw [hp.cancelOther s hf hd]
        exact h.inv.congr (mem_append_cons_of_ne (Ne.symm hf)) (mem_append_cons_of_ne (Ne.symm hd))
      · rw [hp.cancelOther s hf hd]
        exact h.read (List.mem_cons_of_mem _ hc)

theorem serves_callback (hp : Path half fill drain) {kept rest : List RuleName} {r : RuleName} {answers : Answers}
    {s s' : StreamCopy} {served : Bool} (h : Serves half fill drain sound kept (r :: rest) s)
    (hc : (rule r).callback answers s = .ok (s', served)) : Serves half fill drain sound (kept ++ [r]) rest s' := by
  obtain ⟨-, hr⟩ := h.ordered.not_mem
  have hlist : kept ++ [r] ++ rest = kept ++ r :: rest := List.append_assoc _ _ _
  have hmem : r ∈ kept ++ r :: rest := List.mem_append_right _ List.mem_cons_self
  refine ⟨?_, hlist ▸ h.ordered, fun hrest => ?_⟩
  · rw [hlist]
    by_cases hf : r = fill
    · subst hf
      obtain ⟨data, hs⟩ := hp.fills hc
      exact h.inv.fill hmem (h.read List.mem_cons_self) hs
    · by_cases hd : r = drain
      · subst hd
        obtain ⟨n, hs⟩ := hp.drains h.inv.error hc
        exact h.inv.drain hmem hs
      · exact h.inv.same (hp.others hf hd hc)
  · have heof := h.read (List.mem_cons_of_mem _ hrest)
    by_cases hf : r = fill
    · subst hf
      exact absurd hrest hr
    · by_cases hd : r = drain
      · subst hd
        obtain ⟨n, hs⟩ := hp.drains h.inv.error hc
        exact hs.eof.trans heof
      · exact (hp.others hf hd hc).eof.trans heof

end Path

/-- What holds between passes. -/
structure Holds (half : StreamCopy → Half) (fill drain : RuleName) (sound : Prop) (l : Loop) : Prop where
  inv : (half l.copy).Inv sound (fill ∈ l.rules) (drain ∈ l.rules)
  ordered : Ordered l.rules

variable {half : StreamCopy → Half} {fill drain : RuleName} {sound : Prop}

/-- A pass that found nothing to poll: the sink is shut down, if it can be
written to. -/
theorem Path.shut_of_idle (hp : Path half fill drain) {kept : List (RuleName × Bool)} {s : StreamCopy}
    (h : Prepares half fill drain sound kept [] s) (hidle : ∀ p ∈ kept, p.2 = false)
    (hd : drain ∈ kept.map Prod.fst) : (half s).shutdown = true := by
  have hinv := h.inv
  rw [List.append_nil] at hinv
  obtain ⟨⟨_, b⟩, hb, rfl⟩ := List.mem_map.mp hd
  have hdrain := (h.draining b hb).symm.trans (hidle _ hb)
  simp only [Bool.or_eq_false_iff, Bool.not_eq_false', List.isEmpty_iff, Bool.and_eq_false_iff] at hdrain
  obtain ⟨hempty, hopen | hshut⟩ := hdrain
  · have hnot : (half s).stream.inputEnded = false := by
      simpa [ByteStream.eof, hempty] using hopen
    have hf : fill ∈ kept.map Prod.fst := by
      by_contra hc
      exact Bool.false_ne_true (hnot.symm.trans (hinv.ended hc))
    obtain ⟨⟨_, b'⟩, hb', rfl⟩ := List.mem_map.mp hf
    -- the stream is empty, so its source would have been polled
    have hroom := (h.filling b' hb').symm.trans (hidle _ hb')
    rw [decide_eq_false_iff_not, ByteStream.remainingCapacity, hinv.capacity, hempty] at hroom
    exact absurd (by decide) hroom
  · exact hshut

theorem turn_path (hp : Path half fill drain) {l l' : Loop} {e : Event}
    (hcalm : l.copy.outbound.error = false ∧ l.copy.inbound.error = false)
    (hsound : ∀ revents, e.poll = .events revents → sound → (revents drain).hup = false ∧
      ((revents fill).hup = true → (revents fill).ready = true))
    (h : Holds half fill drain sound l) (hs : turn l e = some l') :
    Holds half fill drain sound l' ∧ (l'.returned = true → e.poll ≠ .interrupted → drain ∈ l'.rules →
      (half l'.copy).shutdown = true) := by
  have hstart : Prepares half fill drain sound [] l.rules l.copy :=
    ⟨h.inv, h.ordered, hcalm, fun hc => absurd hc List.not_mem_nil, fun b hb => absurd hb List.not_mem_nil,
      fun b hb => absurd hb List.not_mem_nil⟩
  have hprep := prepare_positions (J := Prepares half fill drain sound) (fun _ _ _ _ he h => hp.prepares_cancel he h)
    (fun _ _ _ _ he h => hp.prepares_keep he h) hstart
  rw [List.nil_append] at hprep
  unfold turn at hs
  split_ifs at hs
  split at hs
  · cases hs
  · rename_i res rules copy hw
    obtain rfl := Option.some.inj hs
    rcases waitNextEvent_cases hw with ⟨rfl, rfl, hexit⟩ | ⟨rfl, revents, hpoll, hserve⟩
    · have hinv := hprep.inv
      have hord := hprep.ordered
      rw [List.append_nil] at hinv hord
      refine ⟨⟨hinv, hord⟩, fun hret hno hd => ?_⟩
      exact hp.shut_of_idle hprep ((hexit (of_decide_eq_true hret)).resolve_left hno) hd
    · have hserves : Serves half fill drain sound [] ((prepare rule l.rules l.copy).1.map (·.1))
          (prepare rule l.rules l.copy).2 := by
        have hinv := hprep.inv
        have hord := hprep.ordered
        rw [List.append_nil] at hinv hord
        exact ⟨hinv, hord, hprep.read⟩
      have hend := serve_positions (J := Serves half fill drain sound)
        (fun _ r _ _ hhup hready h => hp.serves_cancel (fun hr hsd => by
          rcases hr with rfl | rfl
          · exact Bool.false_ne_true ((hsound revents hpoll hsd).1.symm.trans hhup)
          · exact Bool.false_ne_true (hready.symm.trans ((hsound revents hpoll hsd).2 hhup))) h)
        (fun kept r rest s h => ⟨by simpa using h.inv, by simpa using h.ordered,
          fun hc => h.read (List.mem_cons_of_mem _ hc)⟩)
        (fun _ _ _ _ _ _ _ h hc => hp.serves_callback h hc) hserves hserve
      have hinv := hend.inv
      have hord := hend.ordered
      rw [List.append_nil, List.nil_append] at hinv hord
      exact ⟨⟨hinv, hord⟩, fun hret => absurd hret Bool.false_ne_true⟩

/-! ### Runs -/

/-- Both directions, and what a return means. -/
structure Copies (sound : Prop) (l : Loop) : Prop where
  outbound : Holds outboundHalf .rule1 .rule2 sound l
  inbound : Holds inboundHalf .rule3 .rule4 sound l
  returned : sound → l.returned = true → (.rule2 ∈ l.rules → l.copy.outboundShutdown = true) ∧
    (.rule4 ∈ l.rules → l.copy.inboundShutdown = true)

theorem start_copies (sound : Prop) : Copies sound start := by
  have hord : Ordered [.rule1, .rule2, .rule3, .rule4] := by
    simp [Ordered, RuleName.number]
  have hinv : ∀ {fill drain : RuleName} (h : Half), fill ∈ start.rules → drain ∈ start.rules →
      h = ⟨{}, ByteStream.init bufferSize, {}, false⟩ → h.Inv sound (fill ∈ start.rules) (drain ∈ start.rules) := by
    rintro fill drain h hf hd rfl
    exact ⟨rfl, rfl, List.prefix_refl _, fun _ => rfl, fun hc => absurd hf hc, fun hc => absurd hc (by decide),
      fun hc => absurd hc (by decide), fun hc => absurd hc (by decide), fun _ => Or.inl hd, rfl,
      fun _ hc => absurd hf hc⟩
  exact ⟨⟨hinv _ (by decide) (by decide) rfl, hord⟩, ⟨hinv _ (by decide) (by decide) rfl, hord⟩,
    fun _ hc => absurd hc (by decide)⟩

/-- The poll was not interrupted, found no sink hung up, and a source only with
something to read. -/
def Sound (e : Event) : Prop := e.poll ≠ .interrupted ∧ ∀ revents, e.poll = .events revents →
  ((revents .rule2).hup = false ∧ ((revents .rule1).hup = true → (revents .rule1).ready = true)) ∧
  (revents .rule4).hup = false ∧ ((revents .rule3).hup = true → (revents .rule3).ready = true)

/-- Where nothing hangs up. -/
theorem sound_of_ready {ready : RuleName → Bool} {answers : Answers} :
    Sound ⟨.events fun r => { ready := ready r }, answers⟩ := by
  refine ⟨nofun, fun revents hp => ?_⟩
  obtain rfl := Poll.events.inj hp
  exact ⟨⟨rfl, nofun⟩, rfl, nofun⟩

theorem turn_copies {l l' : Loop} {e : Event} (hsound : sound → Sound e) (h : Copies sound l)
    (hs : turn l e = some l') : Copies sound l' := by
  have hcalm : l.copy.outbound.error = false ∧ l.copy.inbound.error = false :=
    ⟨h.outbound.inv.error, h.inbound.inv.error⟩
  obtain ⟨hout, houtret⟩ :=
    turn_path outbound_path hcalm (fun revents hp hc => ((hsound hc).2 revents hp).1) h.outbound hs
  obtain ⟨hin, hinret⟩ :=
    turn_path inbound_path hcalm (fun revents hp hc => ((hsound hc).2 revents hp).2) h.inbound hs
  exact ⟨hout, hin, fun hc hret => ⟨houtret hret (hsound hc).1, hinret hret (hsound hc).1⟩⟩

/-- Two bytes are typed, one arrives, and both sides are at their end. -/
def doneRun : List Event :=
  let poll : Poll RuleName := .events fun _ => { ready := true }
  [⟨poll, { readInput := .ok [104, 105], readSocket := .ok [7] }⟩,
    ⟨poll, { writeSocket := .ok 2, writeOutput := .ok 1 }⟩,
    ⟨poll, {}⟩]

theorem doneRun_sound : ∀ e ∈ doneRun, Sound e := by
  simp [doneRun, sound_of_ready]

/-- **Nothing is lost, repeated or reordered on the way**: what the socket got
and what is still to be sent is a beginning of what was read from the standard
input, all of it as long as the socket can be written to, and at most a buffer
of it is held; and so from the socket to the standard output. -/
theorem copies_in_order {es : List Event} {l : Loop} (hr : run turn start es = some l) :
    l.copy.socket.put ++ l.copy.outbound.buffer <+: l.copy.input.got ∧
    (.rule2 ∈ l.rules → l.copy.socket.put ++ l.copy.outbound.buffer = l.copy.input.got) ∧
    l.copy.outbound.buffer.length ≤ bufferSize ∧
    l.copy.output.put ++ l.copy.inbound.buffer <+: l.copy.socket.got ∧
    (.rule4 ∈ l.rules → l.copy.output.put ++ l.copy.inbound.buffer = l.copy.socket.got) ∧
    l.copy.inbound.buffer.length ≤ bufferSize := by
  have h := run_invariant (fun _ _ _ h hs => turn_copies False.elim h hs) (start_copies False) hr
  have hout := h.outbound.inv
  have hin := h.inbound.inv
  exact ⟨hout.isPrefix, fun hd => hout.all (Or.inr hd), l.copy.outbound.fits.trans_eq hout.capacity,
    hin.isPrefix, fun hd => hin.all (Or.inr hd), l.copy.inbound.fits.trans_eq hin.capacity⟩

theorem copies_in_order_done : ∃ l, run turn start doneRun = some l ∧
    l.copy.socket.put ++ l.copy.outbound.buffer <+: l.copy.input.got ∧
    (.rule2 ∈ l.rules → l.copy.socket.put ++ l.copy.outbound.buffer = l.copy.input.got) ∧
    l.copy.outbound.buffer.length ≤ bufferSize ∧
    l.copy.output.put ++ l.copy.inbound.buffer <+: l.copy.socket.got ∧
    (.rule4 ∈ l.rules → l.copy.output.put ++ l.copy.inbound.buffer = l.copy.socket.got) ∧
    l.copy.inbound.buffer.length ≤ bufferSize :=
  ⟨_, rfl, @copies_in_order doneRun _ rfl⟩

/-- **A sink is shut down only after everything**: all that was read was handed
on, and no more is read, for the source is at its end or hung up. -/
theorem shut_down_after_all {es : List Event} {l : Loop} (hr : run turn start es = some l) :
    (l.copy.outboundShutdown = true → l.copy.socket.put = l.copy.input.got ∧
      (.rule1 ∈ l.rules → l.copy.input.eof = true)) ∧
    (l.copy.output.closed = true → l.copy.output.put = l.copy.socket.got ∧
      (.rule3 ∈ l.rules → l.copy.socket.eof = true)) := by
  have h := run_invariant (fun _ _ _ h hs => turn_copies False.elim h hs) (start_copies False) hr
  constructor
  · intro hc
    obtain ⟨-, -, hput, hread⟩ := h.outbound.inv.shut hc
    exact ⟨hput, hread⟩
  · intro hc
    obtain ⟨-, -, hput, hread⟩ := h.inbound.inv.shut (h.inbound.inv.closed hc)
    exact ⟨hput, hread⟩

theorem shut_down_after_all_done : ∃ l, run turn start doneRun = some l ∧
    (l.copy.outboundShutdown = true → l.copy.socket.put = l.copy.input.got ∧
      (.rule1 ∈ l.rules → l.copy.input.eof = true)) ∧
    (l.copy.output.closed = true → l.copy.output.put = l.copy.socket.got ∧
      (.rule3 ∈ l.rules → l.copy.socket.eof = true)) :=
  ⟨_, rfl, @shut_down_after_all doneRun _ rfl⟩

/-- What is shut down was all read and handed on. -/
theorem Half.Inv.shut_all {sound fills drains : Prop} {h : Half} (hi : h.Inv sound fills drains) (hsound : sound)
    (hc : h.shutdown = true) : h.dst.put = h.src.got ∧ h.src.eof = true := by
  obtain ⟨-, -, hput, heof⟩ := hi.shut hc
  by_cases hf : fills
  · exact ⟨hput, heof hf⟩
  · exact ⟨hput, hi.seen hsound hf⟩

theorem run_sound {es : List Event} {l : Loop} (hsound : ∀ e ∈ es, Sound e) (hr : run turn start es = some l) :
    Copies True l := by
  have hall : Along turn (fun _ e => Sound e) start es := along_of_forall hsound
  exact run_along (fun _ _ _ h he hs => turn_copies (fun _ => he) h hs) (start_copies True) hall hr

/-- It returns only when both sinks are shut down. -/
theorem Copies.shut_of_returned {sound : Prop} {l : Loop} (h : Copies sound l) (hsound : sound)
    (hret : l.returned = true) : l.copy.outboundShutdown = true ∧ l.copy.inboundShutdown = true :=
  ⟨(h.outbound.inv.alive hsound).elim (h.returned hsound hret).1 id,
    (h.inbound.inv.alive hsound).elim (h.returned hsound hret).2 id⟩

/-- **The copy returns when all is copied**: if no poll is interrupted and no
descriptor hangs up early, both sides are at their end when
`bidirectional_stream_copy` returns, everything read was handed on, and both
sinks are shut down. -/
theorem returns_done {es : List Event} {l : Loop} (hsound : ∀ e ∈ es, Sound e) (hr : run turn start es = some l)
    (hret : l.returned = true) :
    (l.copy.input.eof = true ∧ l.copy.socket.put = l.copy.input.got ∧ l.copy.outboundShutdown = true) ∧
    l.copy.socket.eof = true ∧ l.copy.output.put = l.copy.socket.got ∧ l.copy.inboundShutdown = true := by
  have h := run_sound hsound hr
  obtain ⟨hshut, hshut'⟩ := h.shut_of_returned trivial hret
  obtain ⟨hput, heof⟩ := h.outbound.inv.shut_all trivial hshut
  obtain ⟨hput', heof'⟩ := h.inbound.inv.shut_all trivial hshut'
  exact ⟨⟨heof, hput, hshut⟩, heof', hput', hshut'⟩

theorem returns_done_done : ∃ l, run turn start doneRun = some l ∧ l.copy.input.got = [104, 105] ∧
    (l.copy.input.eof = true ∧ l.copy.socket.put = l.copy.input.got ∧ l.copy.outboundShutdown = true) ∧
    l.copy.socket.eof = true ∧ l.copy.output.put = l.copy.socket.got ∧ l.copy.inboundShutdown = true :=
  ⟨_, rfl, rfl, returns_done doneRun_sound rfl rfl⟩

end StreamCopy
end Sponge
