/-
# Segments and the configuration

The TCP header with its defaults, a segment, and the constants of
`tcp_config.hh`.

Key definitions: `TCPHeader`, `TCPSegment`, `TCPSegment.lengthInSequenceSpace`,
`TCPConfig`.
-/
import Sponge.ByteStream
import Sponge.WrappingIntegers

namespace Sponge

structure TCPHeader where
  sport : UInt16 := 0
  dport : UInt16 := 0
  seqno : WrappingInt32 := ⟨0⟩
  ackno : WrappingInt32 := ⟨0⟩
  doff : UInt8 := 5
  urg : Bool := false
  ack : Bool := false
  psh : Bool := false
  rst : Bool := false
  syn : Bool := false
  fin : Bool := false
  win : UInt16 := 0
  cksum : UInt16 := 0
  uptr : UInt16 := 0
  deriving DecidableEq

structure TCPSegment where
  header : TCPHeader := {}
  payload : Bytes := []
  deriving DecidableEq

namespace TCPSegment

/-- The payload, and one each for SYN and FIN. -/
def lengthInSequenceSpace (seg : TCPSegment) : ℕ :=
  seg.payload.length + (if seg.header.syn then 1 else 0) + (if seg.header.fin then 1 else 0)

end TCPSegment

structure TCPConfig where
  rtTimeout : UInt16 := 1000
  recvCapacity : ℕ := 64000
  sendCapacity : ℕ := 64000
  fixedIsn : Option WrappingInt32 := none
  deriving DecidableEq

namespace TCPConfig

def maxPayloadSize : ℕ := 1000

def maxRetxAttempts : ℕ := 8

end TCPConfig
end Sponge
