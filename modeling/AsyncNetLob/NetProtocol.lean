import Mathlib.Algebra.GroupWithZero.Nat
import AsyncNetLob.NetCommon

/-! # `Protocol`

    `Protocol.cpp`, statement by statement, for a host of either byte order.  An
    integer has bytes in memory (`bytes16`, `bytes32`), `memcpy` moves them, and
    `htons` and `htonl` give the integer whose bytes in memory are in network
    order. -/

namespace AsyncNet

/-- The byte order of the host. -/
inductive ByteOrder where
  | little
  | big
  deriving DecidableEq, Repr

namespace ByteOrder

/-- Big-endian bytes, in memory order. -/
def arrange : ByteOrder → Bytes → Bytes
  | .big, bs => bs
  | .little, bs => bs.reverse

/-- The bytes of a `uint16_t` in memory. -/
def bytes16 (host : ByteOrder) (x : UInt16) : Bytes :=
  host.arrange [UInt8.ofNat (x.toNat / 2 ^ 8), UInt8.ofNat x.toNat]

/-- The bytes of a `uint32_t` in memory. -/
def bytes32 (host : ByteOrder) (x : UInt32) : Bytes :=
  host.arrange [UInt8.ofNat (x.toNat / 2 ^ 24), UInt8.ofNat (x.toNat / 2 ^ 16),
    UInt8.ofNat (x.toNat / 2 ^ 8), UInt8.ofNat x.toNat]

/-- The number that bytes in memory stand for. -/
def value (host : ByteOrder) (bs : Bytes) : Nat :=
  (host.arrange bs).foldl (fun n b => n * 2 ^ 8 + b.toNat) 0

def word16 (host : ByteOrder) (bs : Bytes) : UInt16 := UInt16.ofNat (host.value bs)
def word32 (host : ByteOrder) (bs : Bytes) : UInt32 := UInt32.ofNat (host.value bs)

end ByteOrder

def htons (host : ByteOrder) (x : UInt16) : UInt16 := host.word16 (ByteOrder.big.bytes16 x)
def htonl (host : ByteOrder) (x : UInt32) : UInt32 := host.word32 (ByteOrder.big.bytes32 x)
def ntohs (host : ByteOrder) (x : UInt16) : UInt16 := ByteOrder.big.word16 (host.bytes16 x)
def ntohl (host : ByteOrder) (x : UInt32) : UInt32 := ByteOrder.big.word32 (host.bytes32 x)

/-- `std::memcpy(buffer.data() + offset, src, size)`. -/
def memcpy (buffer : Bytes) (offset : Nat) (src : Bytes) : Bytes :=
  buffer.take offset ++ src ++ buffer.drop (offset + src.length)

namespace Protocol

variable (host : ByteOrder)

/-- `Protocol::serializeHeader`. -/
def serializeHeader (header : Header) : Bytes :=
  let buffer : Bytes := List.replicate headerSize 0
  let netMagic := htons host header.magic
  let netType := htons host header.type.code
  let netLen := htonl host header.length
  let buffer := memcpy buffer 0 (host.bytes16 netMagic)
  let buffer := memcpy buffer 2 (host.bytes16 netType)
  memcpy buffer 4 (host.bytes32 netLen)

/-- `Protocol::deserializeHeader`: the returned flag, and what the reference argument
    holds afterwards. -/
def deserializeHeader (data : Bytes) (size : Nat) (header : Header) : Bool × Header :=
  if size < headerSize then (false, header)
  else
    let netMagic := host.word16 (data.take 2)
    let netType := host.word16 ((data.drop 2).take 2)
    let netLen := host.word32 ((data.drop 4).take 4)
    let header : Header := ⟨ntohs host netMagic, ⟨ntohs host netType⟩, ntohl host netLen⟩
    if header.magic ≠ magicHeader then (false, header) else (true, header)

/-- `Protocol::serializePacket`. -/
def serializePacket (packet : Packet) : Bytes :=
  let h := { packet.header with length := UInt32.ofNat packet.payload.length }
  serializeHeader host h ++ packet.payload

/-- `Protocol::createEchoResponse`. -/
def createEchoResponse (payload : Bytes) : Packet where
  header := ⟨magicHeader, .echoResponse, UInt32.ofNat payload.length⟩
  payload := payload

/-- `Protocol::createPongPacket`. -/
def createPongPacket : Packet where
  header := ⟨magicHeader, .pong, 0⟩

end Protocol

end AsyncNet
