import Alos.Net.Route

/-!
# TCP の header（`net/l4/tcp.h`、`net/l4/tcp.c`）

header の欄は host の値で持ち、`bytes` が network byte order で並べる。`htons` と `htonl` はそこに含まれる。
-/

namespace Alos.Tcp

open Net (Ip)

/-! ## flag -/

def flagFin : UInt8 := 0x01

def flagSyn : UInt8 := 0x02

def flagRst : UInt8 := 0x04

def flagPsh : UInt8 := 0x08

def flagAck : UInt8 := 0x10

/-- 下位の 6 bit。 -/
def tcpGetFlags (dataOffsetFlags : UInt16) : UInt8 := (dataOffsetFlags &&& 0x3F).toUInt8

/-- header の長さは 32 bit の語の数で書いてある。 -/
def tcpGetHeaderLen (dataOffsetFlags : UInt16) : Nat :=
    ((dataOffsetFlags >>> 12) &&& 0x0F).toNat * 4

def tcpMakeDataOffsetFlags (headerLen : Nat) (flags : UInt8) : UInt16 :=
  (UInt16.ofNat (headerLen / 4) <<< 12) ||| (flags &&& 0x3F).toUInt16

/-! ## header -/

def tcpHeaderSize : Nat := 20

structure TcpHeader where
  srcPort : UInt16
  destPort : UInt16
  seqNum : UInt32
  ackNum : UInt32
  dataOffsetFlags : UInt16
  windowSize : UInt16
  checksum : UInt16
  urgentPtr : UInt16
  deriving DecidableEq

namespace TcpHeader

def bytes (h : TcpHeader) : List UInt8 :=
  Wire.encode 2 h.srcPort.toNat ++ Wire.encode 2 h.destPort.toNat ++ Wire.encode 4 h.seqNum.toNat ++
  Wire.encode 4 h.ackNum.toNat ++ Wire.encode 2 h.dataOffsetFlags.toNat ++
  Wire.encode 2 h.windowSize.toNat ++ Wire.encode 2 h.checksum.toNat ++
    Wire.encode 2 h.urgentPtr.toNat

def parse (data : List UInt8) : TcpHeader where
  srcPort := .ofNat (Wire.field data 0 2)
  destPort := .ofNat (Wire.field data 2 2)
  seqNum := .ofNat (Wire.field data 4 4)
  ackNum := .ofNat (Wire.field data 8 4)
  dataOffsetFlags := .ofNat (Wire.field data 12 2)
  windowSize := .ofNat (Wire.field data 14 2)
  checksum := .ofNat (Wire.field data 16 2)
  urgentPtr := .ofNat (Wire.field data 18 2)

@[simp] theorem length_bytes {h : TcpHeader} : h.bytes.length = tcpHeaderSize := by
  simp [bytes, tcpHeaderSize]

theorem ofNat16_decode {v : UInt16} : UInt16.ofNat (Wire.decode (Wire.encode 2 v.toNat)) = v := by
  rw [Wire.decode_encode, Nat.mod_eq_of_lt (show v.toNat < 256 ^ 2 from v.toNat_lt),
    UInt16.ofNat_toNat]

theorem ofNat32_decode {v : UInt32} : UInt32.ofNat (Wire.decode (Wire.encode 4 v.toNat)) = v := by
  rw [Wire.decode_encode, Nat.mod_eq_of_lt (show v.toNat < 256 ^ 4 from v.toNat_lt),
    UInt32.ofNat_toNat]

/-- **並べた header は、後に何が続いても読み戻せる。** -/
theorem parse_bytes {h : TcpHeader} {data : List UInt8} : parse (h.bytes ++ data) = h := by
  cases h with
  | mk srcPort destPort seqNum ackNum dataOffsetFlags windowSize checksum urgentPtr =>
    -- 欄の位置は定数なので、切り出した byte は書いた byte そのものである
    rw [mk.injEq]
    exact ⟨ofNat16_decode, ofNat16_decode, ofNat32_decode,
      ofNat32_decode, ofNat16_decode, ofNat16_decode,
      ofNat16_decode, ofNat16_decode⟩

end TcpHeader

/-! ## checksum -/

/-- 16 bit の語を順に足す。余った byte は上の桁に置く。 -/
def sumWords : List UInt8 → UInt32
  | [] => 0
  | [a] => a.toUInt32 <<< 8
  | a :: b :: rest => ((a.toUInt32 <<< 8) ||| b.toUInt32) + sumWords rest

/-- 桁上がりを下の 16 bit に畳む。二度で収まる。 -/
def foldCarry : Nat → UInt32 → UInt32
  | 0, sum => sum
  | fuel + 1, sum => if sum >>> 16 = 0 then sum else foldCarry fuel
    ((sum &&& (0xFFFF : UInt32)) + (sum >>> 16))

/-- 疑似 header と TCP の header とデータの checksum。header の `checksum` の欄は零である。 -/
def tcpChecksum (srcIp destIp : Ip) (header : TcpHeader) (data : List UInt8) : UInt16 :=
  let sum := sumWords srcIp.bytes + sumWords destIp.bytes + 6
    + (UInt16.ofNat (tcpHeaderSize + data.length)).toUInt32 + sumWords header.bytes + sumWords data
  ~~~(foldCarry 2 sum).toUInt16

end Alos.Tcp
