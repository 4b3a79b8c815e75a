import OrazioLogger.Support.ByteMemory
import OrazioLogger.Support.RingBuffer

/-! packet_header.h, packet_operations.h and buffer_utils.h: limits, status
codes, the table entry of one packet type and the two index macros. -/
namespace OrazioLogger
open ByteMemory RingBuffer

abbrev PacketType := UInt8
abbrev PacketSize := UInt8
abbrev PacketSeq := UInt16

def packetSizeAny : PacketSize := 0xFF
def packetTypeMax : Nat := 20
def packetSizeMax : Int := 254
def sizeofPacketHeader : PacketSize := 4
def sizeofPacketSeq : PacketSize := 2

inductive PacketStatus where
  | unknownType | rxBufferError | invalidSize | checksumError | unsync
  | packetTypeOutOfBounds | packetInstallError | packetUninstallError
  | txBufferFull | noHandler | timeout | wrongPins | versionMismatch | genericError
  | success
  | syncAA | sync55 | syncType | syncSize | syncPayload | syncPayloadComplete | syncChecksum
  deriving DecidableEq, Repr

def PacketStatus.code : PacketStatus → Int
  | .unknownType => -1
  | .rxBufferError => -2
  | .invalidSize => -3
  | .checksumError => -4
  | .unsync => -5
  | .packetTypeOutOfBounds => -6
  | .packetInstallError => -7
  | .packetUninstallError => -8
  | .txBufferFull => -9
  | .noHandler => -10
  | .timeout => -11
  | .wrongPins => -12
  | .versionMismatch => -13
  | .genericError => -127
  | .success => 0
  | .syncAA => 1
  | .sync55 => 2
  | .syncType => 3
  | .syncSize => 4
  | .syncPayload => 5
  | .syncPayloadComplete => 6
  | .syncChecksum => 7

/- What a callback can see and change besides the handler that calls it. -/
structure World (σ : Type) where
  memory : Memory
  env : σ

/- The `void*` arguments are part of the two functions. A null `on_receive_fn`
is `none`, a null buffer returned by the first function too. -/
structure PacketOperations (σ : Type) where
  type : PacketType
  size : PacketSize
  initializeBufferFn : PacketType → PacketSize → World σ → Option Addr × World σ
  onReceiveFn : Option (Addr → World σ → PacketStatus × World σ)

/- `_IDX_start`, `_IDX_end`, `_IDX_size` are the three fields of `Indices`. -/
def bufferPut (max : Int) (idx : Indices) : Indices :=
  let stop := idx.stop + 1
  let stop := if stop ≥ max then 0 else stop
  { idx with stop := stop, size := idx.size + 1 }

def bufferGet (max : Int) (idx : Indices) : Indices :=
  let start := idx.start + 1
  let start := if start ≥ max then 0 else start
  { idx with start := start, size := idx.size - 1 }

theorem wrapped {max i : Int} (low : 0 ≤ i) (high : i < max) :
    (if i + 1 ≥ max then 0 else i + 1) = (i + 1) % max := by
  split
  · rw [show i + 1 = max by omega, Int.emod_self]
  · exact (Int.emod_eq_of_lt (by omega) (by omega)).symm

theorem bufferPutPushes {max : Int} {idx : Indices} (h : Valid max idx) : bufferPut max idx = push max idx := by
  simp only [bufferPut, push, wrapped h.stopLow h.stopHigh]

theorem bufferGetPops {max : Int} {idx : Indices} (h : Valid max idx) : bufferGet max idx = pop max idx := by
  simp only [bufferGet, pop, wrapped h.startLow h.startHigh]

end OrazioLogger
