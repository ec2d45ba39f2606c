import Mathlib.Data.List.Basic

/-! # The vocabulary of the network server

    `Common.hpp`: the constants of the frame format, message types, headers and
    packets.  A byte vector is a list of bytes. -/

namespace AsyncNet

abbrev Bytes := List UInt8

/-- `MAGIC_HEADER`, "AN". -/
def magicHeader : UInt16 := 0x414E

/-- `HEADER_SIZE`: magic (2 bytes), type (2 bytes), length (4 bytes). -/
def headerSize : Nat := 8

/-- `MAX_PAYLOAD_SIZE`. -/
def maxPayloadSize : Nat := 65536

/-- `enum class MessageType : uint16_t`.  A decoded header holds any 16-bit value,
    also one without an enumerator. -/
structure MessageType where
  code : UInt16
  deriving DecidableEq, Repr

namespace MessageType

def ping : MessageType := ⟨0x0001⟩
def pong : MessageType := ⟨0x0002⟩
def echoRequest : MessageType := ⟨0x0003⟩
def echoResponse : MessageType := ⟨0x0004⟩
def dataStream : MessageType := ⟨0x0005⟩
def disconnect : MessageType := ⟨0x00FF⟩
def unknown : MessageType := ⟨0xFFFF⟩

end MessageType

structure Header where
  magic  : UInt16 := magicHeader
  type   : MessageType := .unknown
  length : UInt32 := 0
  deriving DecidableEq, Repr

structure Packet where
  header  : Header := {}
  payload : Bytes := []
  deriving DecidableEq, Repr

end AsyncNet
