import Alos.Tcp.Buffer

/-!
# 受信した frame の byte（`net/l2/ethernet.c`、`net/l3/ipv4.c`、`net/l3/icmp.c`、`net/l4`）

driver が渡す frame は `len` byte だが、`ipv4_handle_packet` は次の層の長さを header の `total_length` から
作り、`len` と比べない。ここでは、各層が frame のどこを読み、どの範囲を次の層に渡すかを、起きた順の列で返す。

* `frame_within_iff` — 読む byte も渡す範囲も frame の中にあるのは、`total_length` が届いた長さに収まるとき、
  かつそのときに限る
* `echo_leak` — 60 byte の frame の echo request が、1480 byte を読ませる
-/

namespace Alos.Net

open Tcp

/-! ## frame -/

/-- 範囲を受け取る関数。 -/
inductive Handler where
  | arp
  | ipv4
  | icmp
  | udp
  | tcp
  | dhcp
  | dns
  deriving DecidableEq, Repr

/-- frame に触れる仕方。位置は frame の先頭から数える。 -/
inductive Access where
  /-- `off` からの `len` byte を渡す。 -/
  | pass (handler : Handler) (off : Nat) (len : Int)
  /-- `off` からの `n` byte を読む。 -/
  | read (off n : Nat)
  deriving DecidableEq, Repr

/-- `len` byte の frame の中にある。長さが負の範囲は空である。 -/
def Access.Within (len : Int) : Access → Prop
  | .pass _ off n => (off : Int) ≤ len ∧ off + n ≤ len
  | .read off n => (off : Int) + n ≤ len

instance (len : Int) : (a : Access) → Decidable (a.Within len)
  | .pass _ _ _ => inferInstanceAs (Decidable (_ ∧ _))
  | .read _ _ => inferInstanceAs (Decidable (_ ≤ _))

/-- `frame` は先頭からの byte で、`len` より先は後に続く memory である。 -/
def bytesAt (frame : Nat → UInt8) (off n : Nat) : List UInt8 := (List.range n).map fun i =>
    frame (off + i)

/-- network byte order の欄。 -/
def fieldAt (frame : Nat → UInt8) (off n : Nat) : Nat := Wire.decode (bytesAt frame off n)

def ipAt (frame : Nat → UInt8) (off : Nat) : Ip :=
  ⟨frame off, frame (off + 1), frame (off + 2), frame (off + 3)⟩

/-- `g_ping` のうち、受信で見るもの。 -/
structure Ping where
  active : Bool
  waiting : Bool
  identifier : UInt16

/-- 受信の間に見る、ほかの状態。 -/
structure Receiver where
  env : Env
  table : TcpTable
  ping : Ping

/-! ## ICMP、UDP、TCP -/

def icmpHeaderSize : Nat := 8

def icmpTypeEchoReply : UInt8 := 0

def icmpTypeEchoRequest : UInt8 := 8

section Handlers

variable (rx : Receiver) (frame : Nat → UInt8) (ip off : Nat) (len : Int)

/-- echo request には、届いた byte を 1500 まで写して返す。`ip` は IPv4 の header の位置である。 -/
def icmpHandlePacket : List Access :=
  if len < icmpHeaderSize then []
  else
    .read off 1 :: if frame off = icmpTypeEchoRequest then
        -- 返す相手は、Ethernet の header の `src_mac` と IPv4 の header の `src_ip` である
        [.read off (min len.toNat 1500), .read 6 6, .read (ip + 12) 4]
      else if frame off = icmpTypeEchoReply then
        if rx.ping.active ∧ rx.ping.waiting then
          .read (off + 4) 2 :: .read (off + 6) 2 ::
            if fieldAt frame (off + 4) 2 = rx.ping.identifier.toNat then [.read (ip + 8) 1] else []
        else []
      else []

def udpHeaderSize : Nat := 8

def udpPortDhcpClient : Nat := 68

def udpPortDns : Nat := 53

def udpHandlePacket : List Access :=
  if len < udpHeaderSize then []
  else
    let srcPort := fieldAt frame off 2
    let destPort := fieldAt frame (off + 2) 2
    let udpLen := fieldAt frame (off + 4) 2
    .read off 2 :: .read (off + 2) 2 :: .read (off + 4) 2 ::
      if udpLen < udpHeaderSize ∨ len < udpLen then []
      else
        let payloadLen : Int := (udpLen : Int) - udpHeaderSize
        if destPort = udpPortDhcpClient then [.pass .dhcp (off + udpHeaderSize) payloadLen]
        else if destPort = udpPortDns then [.pass .dns (off + udpHeaderSize) payloadLen]
        else if srcPort = udpPortDns then [.pass .dns (off + udpHeaderSize) payloadLen]
        else []

/-- 環に入る byte の数。入らない byte は読まない。 -/
def stored (sock : TcpSocket) (pkt : Packet) : Nat := (sock.stores pkt).length

/-- `tcp_handle_packet` の読むもの。header の欄、相手の IP、それから環に入れる byte である。 -/
def tcpReads : List Access :=
  if len < tcpHeaderSize then []
  else
    let data := bytesAt frame off len.toNat
    let pkt := Packet.parse data
    .read off 14 :: .read (ip + 12) 4 ::
      match (tcpLookup rx.table (ipAt frame (ip + 12)) pkt).bind (rx.table.sockets[·]?) with
      | none => []
      | some sock =>
        if 0 < stored sock pkt then
          [.read (off + tcpGetHeaderLen (TcpHeader.parse data).dataOffsetFlags) (stored sock pkt)]
        else []

end Handlers

/-! ## IPv4 と Ethernet -/

def ethernetHeaderSize : Nat := 14

def ipv4HeaderSize : Nat := 20

def ethTypeIpv4 : Nat := 0x0800

def ethTypeArp : Nat := 0x0806

def ipProtoIcmp : UInt8 := 1

def ipProtoUdp : UInt8 := 17

/-- 自分宛か broadcast で、番地が無い間は何でも受ける。 -/
def ipv4ForUs (env : Env) (destIp : Ip) (protocol : UInt8) : Prop :=
  destIp = env.sourceIp ∨ destIp = ⟨255, 255, 255, 255⟩ ∨ env.sourceIp = Ip.zero ∨
    protocol = ipProtoUdp ∧ env.sourceIp = Ip.zero
  deriving Decidable

/-- `total_length` から header の長さを引いたものを、届いた長さと比べずに次の層の長さとする。 -/
def ipv4HandlePacket (rx : Receiver) (frame : Nat → UInt8) (off : Nat) (len : Int) : List Access :=
  if len < ipv4HeaderSize then []
  else
    let version := (frame off >>> 4) &&& 0x0F
    let headerLen := (frame off &&& 0x0F).toNat * 4
    .read off 1 :: if version ≠ 4 then []
      else if headerLen < ipv4HeaderSize ∨ len < headerLen then []
      else
        .read (off + 16) 4 :: .read (off + 9) 1 ::
          if ¬ipv4ForUs rx.env (ipAt frame (off + 16)) (frame (off + 9)) then []
          else
            let payload := off + headerLen
            let payloadLen : Int := (fieldAt frame (off + 2) 2 : Int) - headerLen
            .read (off + 2) 2 :: if frame (off + 9) = ipProtoIcmp then
                .pass .icmp payload payloadLen :: icmpHandlePacket rx frame off payload payloadLen
              else if frame (off + 9) = ipProtoTcp then
                .pass .tcp payload payloadLen :: tcpReads rx frame off payload payloadLen
              else if frame (off + 9) = ipProtoUdp then
                .pass .udp payload payloadLen :: udpHandlePacket frame payload payloadLen
              else []

def ethernetHandlePacketNetif (rx : Receiver) (frame : Nat → UInt8) (len : Int) : List Access :=
  if len < ethernetHeaderSize then []
  else
    .read 12 2 ::
      if fieldAt frame 12 2 = ethTypeArp then [.pass .arp ethernetHeaderSize
        (len - ethernetHeaderSize)]
      else if fieldAt frame 12 2 = ethTypeIpv4 then
        .pass .ipv4 ethernetHeaderSize (len - ethernetHeaderSize) ::
          ipv4HandlePacket rx frame ethernetHeaderSize (len - ethernetHeaderSize)
      else []

/-! ## frame の中にある -/

def AllWithin (len : Int) (log : List Access) : Prop := ∀ a ∈ log, a.Within len
  deriving Decidable

section Within

variable {rx : Receiver} {frame : Nat → UInt8} {ip off : Nat} {len total : Int} {a : Access}
  {log : List Access}

@[simp] theorem allWithin_nil : AllWithin total [] := nofun

@[simp] theorem allWithin_cons : AllWithin total (a :: log) ↔ a.Within total ∧
    AllWithin total log :=
  List.forall_mem_cons

@[simp] theorem within_read {n : Nat} : (Access.read off n).Within total ↔
    (off : Int) + n ≤ total := Iff.rfl

@[simp] theorem within_pass {handler : Handler} {n : Int} :
    (Access.pass handler off n).Within total ↔ (off : Int) ≤ total ∧ off + n ≤ total := Iff.rfl

/-- 渡された範囲が frame の中なら、ICMP の読む byte も中にある。 -/
theorem icmp_within (hip : (ip : Int) + ipv4HeaderSize ≤ total) (hoff : (off : Int) + len ≤ total) :
    AllWithin total (icmpHandlePacket rx frame ip off len) := by
  have hipv4 : ipv4HeaderSize = 20 := rfl
  have hicmp : icmpHeaderSize = 8 := rfl
  unfold icmpHandlePacket
  split
  · exact allWithin_nil
  refine allWithin_cons.mpr ⟨within_read.mpr (by omega), ?_⟩
  split
  · simp only [allWithin_cons, within_read, allWithin_nil, and_true]
    refine ⟨?_, ?_, ?_⟩ <;> omega
  split
  · split
    · refine allWithin_cons.mpr
        ⟨within_read.mpr (by omega), allWithin_cons.mpr ⟨within_read.mpr (by omega), ?_⟩⟩
      split
      · exact allWithin_cons.mpr ⟨within_read.mpr (by omega), allWithin_nil⟩
      · exact allWithin_nil
    · exact allWithin_nil
  · exact allWithin_nil

/-- UDP は、自分の長さの欄を渡された長さと比べるので、DHCP と DNS に渡す範囲も中にある。 -/
theorem udp_within (hoff : (off : Int) + len ≤ total) :
    AllWithin total (udpHandlePacket frame off len) := by
  have hudp : udpHeaderSize = 8 := rfl
  unfold udpHandlePacket
  split
  · exact allWithin_nil
  simp only [allWithin_cons, within_read]
  refine ⟨by omega, by omega, by omega, ?_⟩
  split
  · exact allWithin_nil
  have hpass : ∀ handler, AllWithin total
      [.pass handler (off + udpHeaderSize)
        ((fieldAt frame (off + 4) 2 : Int) - udpHeaderSize)] := by
    intro handler
    simp only [allWithin_cons, within_pass, allWithin_nil, and_true]
    constructor <;> omega
  split
  · exact hpass _
  · split
    · exact hpass .dns
    · split
      · exact hpass .dns
      · exact allWithin_nil

@[simp] theorem length_bytesAt {n : Nat} : (bytesAt frame off n).length = n := by simp [bytesAt]

/-- 環に入る byte は、header より後の byte の数を越えない。 -/
theorem stored_le (sock : TcpSocket) (pkt : Packet) : stored sock pkt ≤ pkt.payload.length := by
  unfold stored TcpSocket.stores
  split
  · exact List.length_take_le' _ _
  · exact Nat.zero_le _

theorem tcp_within (hip : (ip : Int) + ipv4HeaderSize ≤ total) (hoff : (off : Int) + len ≤ total) :
    AllWithin total (tcpReads rx frame ip off len) := by
  have hipv4 : ipv4HeaderSize = 20 := rfl
  have htcp : tcpHeaderSize = 20 := rfl
  unfold tcpReads
  split
  · exact allWithin_nil
  simp only [allWithin_cons, within_read]
  refine ⟨by omega, by omega, ?_⟩
  split
  · exact allWithin_nil
  rename_i sock _
  split
  · have hle := stored_le sock (Packet.parse (bytesAt frame off len.toNat))
    have hlen : (Packet.parse (bytesAt frame off len.toNat)).payload.length = len.toNat -
        tcpGetHeaderLen (TcpHeader.parse (bytesAt frame off len.toNat)).dataOffsetFlags := by
      simp [Packet.parse]
    simp only [allWithin_cons, within_read, allWithin_nil, and_true]
    omega
  · exact allWithin_nil

end Within

/-! ## 次の層に渡る -/

/-- IPv4 の header の `total_length`。 -/
def totalLength (frame : Nat → UInt8) : Nat := fieldAt frame (ethernetHeaderSize + 2) 2

/-- IPv4 の header が整っていて、自分宛の ICMP か TCP か UDP の packet である。 -/
structure Transported (rx : Receiver) (frame : Nat → UInt8) (off : Nat) (len : Int) : Prop where
  length : ipv4HeaderSize ≤ len
  version : (frame off >>> 4) &&& 0x0F = 4
  header : ipv4HeaderSize ≤ (frame off &&& 0x0F).toNat * 4
  fits : ((frame off &&& 0x0F).toNat * 4 : Nat) ≤ len
  forUs : ipv4ForUs rx.env (ipAt frame (off + 16)) (frame (off + 9))
  protocol : frame (off + 9) = ipProtoIcmp ∨ frame (off + 9) = ipProtoTcp ∨
    frame (off + 9) = ipProtoUdp

/-- ICMP か TCP か UDP に渡る frame。 -/
def Dispatched (rx : Receiver) (frame : Nat → UInt8) (len : Int) : Prop :=
  ethernetHeaderSize ≤ len ∧ fieldAt frame 12 2 = ethTypeIpv4 ∧
    Transported rx frame ethernetHeaderSize (len - ethernetHeaderSize)

section Dispatch

variable {rx : Receiver} {frame : Nat → UInt8} {off headerLen : Nat} {len total : Int}
  {log : List Access} {handler : Handler}

/-- 渡す範囲が frame の中にあれば、渡された層の触れる byte も中にある。 -/
theorem transport_iff {field : Nat} (hheader : (off : Int) + headerLen ≤ total)
    (hlog : ((off + headerLen : Nat) : Int) + ((field : Int) - headerLen) ≤ total →
      AllWithin total log) :
    AllWithin total (.pass handler (off + headerLen) ((field : Int) - headerLen) :: log) ↔
      (off : Int) + field ≤ total := by
  simp only [allWithin_cons, within_pass]
  constructor
  · rintro ⟨⟨-, hpass⟩, -⟩
    omega
  · intro hfield
    exact ⟨⟨by omega, by omega⟩, hlog (by omega)⟩

/-- IPv4 の層で、届いた範囲の外に触れるのは、`total_length` が届いた長さを越えるときだけである。 -/
theorem ipv4_within_iff (htotal : (off : Int) + len = total) :
    AllWithin total (ipv4HandlePacket rx frame off len) ↔
      (Transported rx frame off len → (off : Int) + fieldAt frame (off + 2) 2 ≤ total) := by
  have hipv4 : ipv4HeaderSize = 20 := rfl
  have hread : ∀ {k m : Nat} {log : List _} {P : Prop}, k + m ≤ 20 → ¬len < ipv4HeaderSize →
      (AllWithin total log ↔ P) → (AllWithin total (.read (off + k) m :: log) ↔ P) := by
    intro k m log P hk hlen hiff
    rw [allWithin_cons, within_read, ← hiff]
    exact and_iff_right (by omega)
  have hnone : ¬Transported rx frame off len → (AllWithin total [] ↔
      (Transported rx frame off len → (off : Int) + fieldAt frame (off + 2) 2 ≤ total)) :=
    fun h => iff_of_true allWithin_nil fun h' => absurd h' h
  unfold ipv4HandlePacket
  split
  · exact hnone fun h => by have := h.length; omega
  rename_i hlen
  refine hread (k := 0) (by omega) hlen ?_
  split
  · rename_i hversion
    exact hnone fun h => hversion h.version
  rename_i hversion
  split
  · exact hnone fun h => by have := h.header; have := h.fits; omega
  rename_i hheader
  refine hread (by omega) hlen (hread (by omega) hlen ?_)
  have hip : (off : Int) + ipv4HeaderSize ≤ total := by omega
  split
  · rename_i hus
    exact hnone fun h => hus h.forUs
  rename_i hus
  refine hread (by omega) hlen ?_
  -- ここからは三つの層のどれかに渡る
  have hpass : (frame (off + 9) = ipProtoIcmp ∨ frame (off + 9) = ipProtoTcp ∨
      frame (off + 9) = ipProtoUdp) → Transported rx frame off len := fun h =>
    ⟨by omega, not_not.mp hversion, by omega, by omega, not_not.mp hus, h⟩
  split
  · rename_i hicmp
    exact (transport_iff (by omega) (icmp_within hip)).trans
      (imp_iff_right (hpass (.inl hicmp))).symm
  rename_i hicmp
  split
  · rename_i htcp
    exact (transport_iff (by omega) (tcp_within hip)).trans
      (imp_iff_right (hpass (.inr (.inl htcp)))).symm
  rename_i htcp
  split
  · rename_i hudp
    exact (transport_iff (by omega) udp_within).trans
      (imp_iff_right (hpass (.inr (.inr hudp)))).symm
  · rename_i hudp
    exact hnone fun h => not_or.mpr ⟨hicmp, not_or.mpr ⟨htcp, hudp⟩⟩ h.protocol

end Dispatch

/--
**frame のどんな内容と長さでも、読む byte と渡す範囲がすべて frame の中にあるのは、ICMP、TCP、UDP に渡る packet の
`total_length` が届いた長さに収まるとき、かつそのときに限る。**
-/
theorem frame_within_iff (rx : Receiver) (frame : Nat → UInt8) (len : Int) :
    AllWithin len (ethernetHandlePacketNetif rx frame len) ↔
      (Dispatched rx frame len → (ethernetHeaderSize : Int) + totalLength frame ≤ len) := by
  have hethernet : ethernetHeaderSize = 14 := rfl
  unfold ethernetHandlePacketNetif
  split
  · exact iff_of_true allWithin_nil fun h => by have := h.1; omega
  rename_i hlen
  have htype : ((12 : Nat) : Int) + (2 : Nat) ≤ len := by omega
  rw [allWithin_cons, within_read, and_iff_right htype]
  split
  · rename_i harp
    refine iff_of_true ?_ fun h => ?_
    · simp only [allWithin_cons, within_pass, allWithin_nil, and_true]
      constructor <;> omega
    · exact absurd (harp.symm.trans h.2.1) (by decide)
  · split
    · rename_i hip
      rw [allWithin_cons, and_iff_right (by constructor <;> omega), ipv4_within_iff (by omega)]
      exact ⟨fun h hd => h hd.2.2, fun h ht => h ⟨by omega, hip, ht⟩⟩
    · rename_i hip
      exact iff_of_true allWithin_nil fun h => absurd h.2.1 hip

/-- gateway の echo request。frame は 60 byte だが、`total_length` は 1500 である。 -/
def echoFrame : List UInt8 :=
  [0x52, 0x54, 0, 0x12, 0x34, 0x56, 0x52, 0x55, 0x0A, 0, 2, 2, 0x08, 0x00,
    0x45, 0, 0x05, 0xDC, 0, 0, 0, 0, 64, 1, 0, 0, 10, 0, 2, 2, 10, 0, 2, 15,
    8, 0, 0, 0, 0, 1, 0, 1] ++ List.replicate 18 0

/-- **60 byte の frame の echo request は、frame の後の memory まで 1480 byte を読ませる。** -/
theorem echo_leak :
    let log := ethernetHandlePacketNetif ⟨Env.qemu, tcpInit Env.qemu, ⟨false, false, 0⟩⟩
      (echoFrame.getD · 0) 60
    echoFrame.length = 60 ∧ .pass .icmp 34 1480 ∈ log ∧ .read 34 1480 ∈ log ∧
      ¬AllWithin 60 log := by
  decide +kernel

end Alos.Net
