/-
# Packets on a stream

`send_packet` and `recv_packet` of `lab2`, which the server and the client
share: three bytes of type and total length, then the payload. A packet is
received by one `recv` for the header and one for the payload, and a `recv` that
returns less than it was asked for is taken for the end of the connection. So
the packets arrive exactly if the stream delivers every header and every payload
in one piece.

Key definitions: `Packet.encode`, `Link.recv`, `Link.recvPacket`,
`Link.receiveAll`, `Whole`.
Key theorems: `Link.recvPacket_encode`, `Link.receiveAll_iff`.
-/
import Sponge.Lib.BigEndian

namespace Chat

open BigEndian

structure Packet where
  type : UInt8
  payload : List UInt8 := []
  deriving DecidableEq

namespace Packet

/-- A payload whose length fits the field, with the three bytes of the header. -/
def Fits (p : Packet) : Prop := p.payload.length ≤ 65532

instance (p : Packet) : Decidable p.Fits := inferInstanceAs (Decidable (_ ≤ _))

def header (p : Packet) : List UInt8 := p.type :: toBytes 2 (3 + p.payload.length)

/-- What `send_packet` sends. -/
def encode (p : Packet) : List UInt8 := p.header ++ p.payload

@[simp] theorem header_length (p : Packet) : p.header.length = 3 := by simp [header]

end Packet

/-- The receiving end: the bytes still to come, and the number of calls of
`recv` so far. -/
structure Link where
  stream : List UInt8
  calls : ℕ := 0
  deriving DecidableEq

namespace Link

/-- A call of `recv` for `n` bytes, of which call number `k` delivers `amount k`
if it can, and at least one; no bytes are the end of the stream. -/
def recv (amount : ℕ → ℕ) (l : Link) (n : ℕ) : List UInt8 × Link :=
  let got := min (max 1 (amount l.calls)) n
  (l.stream.take got, ⟨l.stream.drop got, l.calls + 1⟩)

def recvPacket (amount : ℕ → ℕ) (l : Link) : Option Packet × Link :=
  let (h, l) := l.recv amount 3
  if h.length < 3 then (none, l)
  else
    let totalLen := ofBytes (h.drop 1)
    -- a 16-bit subtraction
    let payloadLen := (totalLen + 65536 - 3) % 65536
    let (payload, l) := l.recv amount payloadLen
    if payload.length ≠ payloadLen then (none, l) else (some ⟨h.headD 0, payload⟩, l)

theorem recv_length (amount : ℕ → ℕ) (l : Link) (n : ℕ) :
    (l.recv amount n).1.length + (l.recv amount n).2.stream.length = l.stream.length := by
  simp only [recv, List.length_take, List.length_drop]
  omega

/-- A packet that is received takes its header from the stream. -/
theorem recvPacket_lt {amount : ℕ → ℕ} {l : Link} {p : Packet} (h : (l.recvPacket amount).1 = some p) :
    (l.recvPacket amount).2.stream.length < l.stream.length := by
  have h1 := recv_length amount l 3
  have h2 := recv_length amount (l.recv amount 3).2 ((ofBytes ((l.recv amount 3).1.drop 1) + 65536 - 3) % 65536)
  unfold recvPacket at h ⊢
  dsimp only at h ⊢
  split_ifs at h ⊢ with h3 h4
  dsimp only
  omega

/-- `recv_packet` until it fails: the packets, and the link after. -/
def receiveAll (amount : ℕ → ℕ) (l : Link) : List Packet × Link :=
  match h : (l.recvPacket amount).1 with
  | none => ([], (l.recvPacket amount).2)
  | some p =>
    have := recvPacket_lt h
    let (ps, l) := receiveAll amount (l.recvPacket amount).2
    (p :: ps, l)
termination_by l.stream.length

theorem receiveAll_none {amount : ℕ → ℕ} {l l' : Link} (h : l.recvPacket amount = (none, l')) :
    l.receiveAll amount = ([], l') := by
  have h1 : (l.recvPacket amount).1 = none := by rw [h]
  rw [receiveAll]
  split
  · rw [h]
  · rename_i p hp
    rw [h1] at hp
    cases hp

theorem receiveAll_some {amount : ℕ → ℕ} {l l' : Link} {p : Packet} (h : l.recvPacket amount = (some p, l')) :
    l.receiveAll amount = (p :: (l'.receiveAll amount).1, (l'.receiveAll amount).2) := by
  have h1 : (l.recvPacket amount).1 = some p := by rw [h]
  rw [receiveAll]
  split
  · rename_i hp
    rw [h1] at hp
    cases hp
  · rename_i q hq
    rw [h1] at hq
    cases hq
    simp only [h]

end Link

/-! ### One packet -/

/-- The stream delivers every header and every payload by one call of `recv`. -/
def Whole (amount : ℕ → ℕ) (calls : ℕ) : List Packet → Prop
  | [] => True
  | p :: ps => (3 ≤ amount calls ∧ p.payload.length ≤ max 1 (amount (calls + 1))) ∧ Whole amount (calls + 2) ps

instance decidableWhole (amount : ℕ → ℕ) : ∀ (calls : ℕ) (ps : List Packet), Decidable (Whole amount calls ps)
  | _, [] => isTrue trivial
  | calls, _ :: ps =>
    have := decidableWhole amount (calls + 2) ps
    inferInstanceAs (Decidable (_ ∧ _))

namespace Link

variable {amount : ℕ → ℕ}

/-- A `recv` that is asked for what comes next delivers all of it, or too little. -/
theorem recv_append (amount : ℕ → ℕ) (data rest : List UInt8) (calls : ℕ) :
    (data.length ≤ max 1 (amount calls) →
      recv amount ⟨data ++ rest, calls⟩ data.length = (data, ⟨rest, calls + 1⟩)) ∧
    (max 1 (amount calls) < data.length →
      (recv amount ⟨data ++ rest, calls⟩ data.length).1.length < data.length) := by
  constructor
  · intro h
    simp only [recv, Nat.min_eq_right h, List.take_left, List.drop_left]
  · intro h
    simp only [recv, List.length_take, List.length_append]
    omega

/-- **One call of `recv_packet`** gives the packet that comes next if header and
payload are delivered whole, and fails if not. -/
theorem recvPacket_encode (amount : ℕ → ℕ) {p : Packet} (hp : p.Fits) (rest : List UInt8) (calls : ℕ) :
    (3 ≤ amount calls ∧ p.payload.length ≤ max 1 (amount (calls + 1)) →
      recvPacket amount ⟨p.encode ++ rest, calls⟩ = (some p, ⟨rest, calls + 2⟩)) ∧
    (¬ (3 ≤ amount calls ∧ p.payload.length ≤ max 1 (amount (calls + 1))) →
      (recvPacket amount ⟨p.encode ++ rest, calls⟩).1 = none) := by
  obtain ⟨hwhole, hpart⟩ := recv_append amount p.header (p.payload ++ rest) calls
  rw [Packet.header_length] at hwhole hpart
  have hstream : p.encode ++ rest = p.header ++ (p.payload ++ rest) := List.append_assoc _ _ _
  rw [hstream]
  rcases Nat.lt_or_ge (amount calls) 3 with h3 | h3
  · have hshort := hpart (by omega)
    refine ⟨fun h => absurd h.1 (Nat.not_le.mpr h3), fun _ => ?_⟩
    unfold recvPacket
    dsimp only
    rw [if_pos hshort]
  · have hlen : (ofBytes (p.header.drop 1) + 65536 - 3) % 65536 = p.payload.length := by
      have hfit : p.payload.length ≤ 65532 := hp
      show (ofBytes (toBytes 2 (3 + p.payload.length)) + 65536 - 3) % 65536 = _
      rw [ofBytes_toBytes]
      omega
    have hnot : ¬ p.header.length < 3 := by
      rw [Packet.header_length]
      decide
    obtain ⟨hwhole', hpart'⟩ := recv_append amount p.payload rest (calls + 1)
    unfold recvPacket
    rw [hwhole (by omega)]
    dsimp only
    rw [if_neg hnot, hlen]
    constructor
    · rintro ⟨-, hle⟩
      rw [hwhole' hle, if_neg (not_not_intro rfl)]
      rfl
    · intro h
      have hlt : max 1 (amount (calls + 1)) < p.payload.length := Nat.not_le.mp fun hle => h ⟨h3, hle⟩
      rw [if_pos (hpart' hlt).ne]

/-- At the end of the stream `recv_packet` fails. -/
theorem recvPacket_end (calls : ℕ) : recvPacket amount ⟨[], calls⟩ = (none, ⟨[], calls + 1⟩) := by
  unfold recvPacket recv
  simp

/-! ### All packets -/

/-- **The packets arrive, in order and to the end of the stream, iff every
header and every payload is delivered whole.** -/
theorem receiveAll_iff (ps : List Packet) (hps : ∀ p ∈ ps, p.Fits) (amount : ℕ → ℕ) :
    ((receiveAll amount ⟨ps.flatMap Packet.encode, 0⟩).1 = ps ∧
      (receiveAll amount ⟨ps.flatMap Packet.encode, 0⟩).2.stream = []) ↔ Whole amount 0 ps := by
  suffices h : ∀ calls, ((receiveAll amount ⟨ps.flatMap Packet.encode, calls⟩).1 = ps ∧
      (receiveAll amount ⟨ps.flatMap Packet.encode, calls⟩).2.stream = []) ↔ Whole amount calls ps from h 0
  induction ps with
  | nil =>
    intro calls
    rw [List.flatMap_nil, receiveAll_none (recvPacket_end calls)]
    simp [Whole]
  | cons p ps ih =>
    intro calls
    obtain ⟨hsome, hnone⟩ := recvPacket_encode amount (hps p List.mem_cons_self)
      (ps.flatMap Packet.encode) calls
    rw [List.flatMap_cons, Whole]
    by_cases hw : 3 ≤ amount calls ∧ p.payload.length ≤ max 1 (amount (calls + 1))
    · rw [receiveAll_some (hsome hw), ← ih (fun q hq => hps q (List.mem_cons_of_mem _ hq)) (calls + 2)]
      simp only [hw, List.cons.injEq, true_and]
    · have hfail := hnone hw
      rw [receiveAll_none (Prod.ext hfail rfl)]
      exact ⟨fun h => absurd h.1 (List.cons_ne_nil _ _).symm, fun h => absurd h.1 hw⟩

theorem receiveAll_split_header :
    ∃ amount : ℕ → ℕ, ¬ ((receiveAll amount ⟨[(⟨13, [104]⟩ : Packet)].flatMap Packet.encode, 0⟩).1 = [⟨13, [104]⟩] ∧
      (receiveAll amount ⟨[(⟨13, [104]⟩ : Packet)].flatMap Packet.encode, 0⟩).2.stream = []) := by
  refine ⟨fun _ => 1, fun h => ?_⟩
  have hfail : recvPacket (fun _ => 1) ⟨[(⟨13, [104]⟩ : Packet)].flatMap Packet.encode, 0⟩ =
      (none, ⟨[0, 4, 104], 1⟩) := by decide
  rw [receiveAll_none hfail] at h
  cases h.1

/-- A request for the list, which has no payload, and two messages, of which
the calls deliver a little more each time. -/
def threePackets : List Packet := [⟨3, []⟩, ⟨13, [104, 105]⟩, ⟨13, [111, 107, 33]⟩]

theorem receiveAll_whole_three :
    (receiveAll (fun k => k + 3) ⟨threePackets.flatMap Packet.encode, 0⟩).1 = threePackets ∧
      (receiveAll (fun k => k + 3) ⟨threePackets.flatMap Packet.encode, 0⟩).2.stream = [] :=
  (receiveAll_iff threePackets (by decide) fun k => k + 3).mpr (by decide)

end Link
end Chat
