import Alos.Net.Frame

/-!
# 送る frame の buffer（`net/l3/ipv4.c`、`net/l3/icmp.c`、`net/l4/udp.c`、`net/l4/tcp.c`）

`ipv4_send_packet` は frame を stack の上の 1518 byte に組み立てるが、渡された長さを調べない。調べるのは呼ぶ側で、TCP と
UDP は自分の 1500 byte の buffer に収まるかだけを見る。そこには IPv4 と Ethernet の header の 34 byte が入っていない。
echo の返事は、受けた header の `total_length` から作った長さをそのまま渡す。

* `output_fits_iff` — 三つの呼ぶ側で、それがどの長さになるか
* `output_overflow` — 三つとも、受け付ける長さで buffer を越える
-/

namespace Alos.Net

open Tcp List

variable {data : List UInt8} {handler : Handler}

/-! ## buffer -/

/-- stack の上の buffer。`bytes` は先頭からの byte で、その後に続く memory も含む。`writes` は書いた範囲を順に並べる。 -/
structure Buffer where
  bytes : Nat → UInt8
  writes : List (Nat × Nat)

def Buffer.put (b : Buffer) (off : Nat) (data : List UInt8) : Buffer where
  bytes i := if off ≤ i ∧ i < off + data.length then data.getD (i - off) 0 else b.bytes i
  writes := b.writes ++ [(off, data.length)]

@[simp] theorem Buffer.writes_put {b : Buffer} {off : Nat} :
    (b.put off data).writes = b.writes ++ [(off, data.length)] := rfl

/-! ## checksum -/

/-- 語は memory の順、つまり下の桁から読む。 -/
def sumWordsLe : List UInt8 → UInt32
  | [] => 0
  | [a] => a.toUInt32
  | a :: b :: rest => (a.toUInt32 ||| (b.toUInt32 <<< 8)) + sumWordsLe rest

def ipChecksum (data : List UInt8) : UInt16 := ~~~(foldCarry 2 (sumWordsLe data)).toUInt16

/-- `checksum` の欄に memory の順で書く 2 byte。 -/
def checksumBytes (checksum : UInt16) : List UInt8 := [checksum.toUInt8, (checksum >>> 8).toUInt8]

/-! ## IPv4 -/

/-- 送る側の番地と、`ip_id_counter` の値。 -/
structure Sender where
  mac : Mac
  ip : Ip
  ipIdCounter : UInt16

def ipDefaultTtl : UInt8 := 64

/-- `checksum` の欄が零の IPv4 の header。長さは 16 bit に切り詰められる。 -/
def ipv4Header (sender : Sender) (destIp : Ip) (protocol : UInt8) (payloadLen : Nat) : List UInt8 :=
  [((4 : UInt8) <<< 4) ||| 5, 0] ++ Wire.encode 2 (ipv4HeaderSize + payloadLen) ++
    Wire.encode 2 sender.ipIdCounter.toNat ++ Wire.encode 2 0x4000 ++
    [ipDefaultTtl, protocol, 0, 0] ++ sender.ip.bytes ++ destIp.bytes

@[simp] theorem length_ipv4Header {sender : Sender} {destIp : Ip} {protocol : UInt8}
    {payloadLen : Nat} :
    (ipv4Header sender destIp protocol payloadLen).length = ipv4HeaderSize := by
  simp [ipv4Header, Ip.bytes, ipv4HeaderSize]

def frameBufferSize : Nat := 1518

/-- 組み立てた frame。`totalLen` は device に渡す長さである。 -/
structure Output where
  buffer : Buffer
  totalLen : Nat

/-- `stack` は buffer の場所に元からある byte である。60 byte に満たない frame は零で埋める。 -/
def ipv4SendPacket (sender : Sender) (destMac : Mac) (destIp : Ip) (protocol : UInt8)
    (payload : List UInt8) (stack : Nat → UInt8) : Output :=
  let totalLen := ethernetHeaderSize + ipv4HeaderSize + payload.length
  let buffer : Buffer := ⟨stack, []⟩
  let buffer := if totalLen < 60 then buffer.put 0 (List.replicate 60 0) else buffer
  let header := ipv4Header sender destIp protocol payload.length
  let buffer := buffer.put 0 (destMac.toList ++ sender.mac.toList ++ Wire.encode 2 ethTypeIpv4)
  let buffer := buffer.put ethernetHeaderSize header
  let buffer := buffer.put (ethernetHeaderSize + 10) (checksumBytes (ipChecksum header))
  { buffer := buffer.put (ethernetHeaderSize + ipv4HeaderSize) payload
    totalLen := if totalLen < 60 then 60 else totalLen }

/-- 書いた範囲も device に渡す長さも、buffer の中にある。 -/
def Output.Fits (out : Output) : Prop :=
  (∀ w ∈ out.buffer.writes, w.1 + w.2 ≤ frameBufferSize) ∧ out.totalLen ≤ frameBufferSize
  deriving Decidable

section

variable (sender : Sender) (destMac : Mac) (destIp : Ip) (protocol : UInt8) (payload : List UInt8)
  (stack : Nat → UInt8)

theorem ipv4SendPacket_writes : ∃ pad,
    (ipv4SendPacket sender destMac destIp protocol payload stack).buffer.writes =
      pad ++ [(0, 14), (14, 20), (24, 2), (34, payload.length)] ∧ ∀ w ∈ pad, w = (0, 60) := by
  have hmac : ∀ mac : Mac, mac.toList.length = 6 := fun mac => mac.length_toList
  by_cases hshort : ethernetHeaderSize + ipv4HeaderSize + payload.length < 60
  · refine ⟨[(0, 60)], ?_, by simp⟩
    simp only [ipv4SendPacket, if_pos hshort]
    simp [hmac, checksumBytes, ethernetHeaderSize, ipv4HeaderSize]
  · refine ⟨[], ?_, by simp⟩
    simp only [ipv4SendPacket, if_neg hshort]
    simp [hmac, checksumBytes, ethernetHeaderSize, ipv4HeaderSize]

/-- **frame が buffer に収まるのは、渡された長さが 1484 以下のとき、かつそのときに限る。** -/
theorem ipv4SendPacket_fits_iff :
    (ipv4SendPacket sender destMac destIp protocol payload stack).Fits ↔ payload.length ≤ 1484 := by
  obtain ⟨pad, hwrites, hpad⟩ := ipv4SendPacket_writes _ _ _ _ _ _
  have htotal : (ipv4SendPacket sender destMac destIp protocol payload stack).totalLen =
      max 60 (34 + payload.length) := by
    rw [ipv4SendPacket, ethernetHeaderSize, ipv4HeaderSize]
    dsimp only
    split <;> omega
  rw [Output.Fits, hwrites]
  constructor
  · rintro ⟨hall, -⟩
    have hlast := hall (34, payload.length) (by simp)
    simp only [frameBufferSize] at hlast
    omega
  · intro hle
    refine ⟨fun w hw => ?_, by simp only [frameBufferSize]; omega⟩
    rcases mem_append.mp hw with hw | hw
    · rw [hpad w hw]
      decide
    · simp only [mem_cons, not_mem_nil, or_false] at hw
      rcases hw with rfl | rfl | rfl | rfl <;> simp only [frameBufferSize] <;> omega

end

/-! ## UDP -/

/-- 送る packet の buffer。checksum は零のままである。 -/
def udpDatagram (srcPort destPort : UInt16) (data : List UInt8) : List UInt8 :=
  Wire.encode 2 srcPort.toNat ++ Wire.encode 2 destPort.toNat ++ Wire.encode 2
    (udpHeaderSize + data.length) ++
    Wire.encode 2 0 ++ data

/-- 長すぎるか、経路か MAC が無ければ、何も送らずに戻る。 -/
def udpSendPacket (env : Env) (destIp : Ip) (srcPort destPort : UInt16) (data : List UInt8) :
    List Event :=
  if 1500 - udpHeaderSize < data.length then []
  else
    match routeGetNextHop env.routes destIp with
    | none => []
    | some nextHop =>
      match arpCacheLookup env.arpCache nextHop with
      | none => [.arpRequest nextHop]
      | some destMac => [.ipv4 destMac destIp ipProtoUdp (udpDatagram srcPort destPort data)]

/-! ## ICMP -/

/--
echo request への返事。`off` からの `len` byte が受けた ICMP で、`ip` は IPv4 の header の位置である。

`reply_buffer` は 1500 byte で、その後は `stack` の続きである。写すのは 1500 byte までだが、checksum と
`ipv4_send_packet` には `len` をそのまま渡す。
-/
def echoReply (frame : Nat → UInt8) (ip off : Nat) (len : Int) (stack : Nat → UInt8) : List Event :=
  if len < icmpHeaderSize then []
  else if frame off ≠ icmpTypeEchoRequest then []
  else
    let copied i := if i < 1500 then frame (off + i) else stack i
    let rest := (List.range (len.toNat - 4)).map fun i => copied (4 + i)
    let checksum := ipChecksum ([icmpTypeEchoReply, 0, 0, 0] ++ rest)
    [.ipv4 #v[frame 6, frame 7, frame 8, frame 9, frame 10, frame 11]
      (ipAt frame (ip + 12)) ipProtoIcmp
      ([icmpTypeEchoReply, 0] ++ checksumBytes checksum ++ rest)]

/-- 届いた frame が送らせる echo の返事。 -/
def echoReplies (rx : Receiver) (frame : Nat → UInt8) (len : Int) (stack : Nat → UInt8) :
    List Event :=
  (ethernetHandlePacketNetif rx frame len).flatMap fun
    | .pass .icmp off n => echoReply frame ethernetHeaderSize off n stack
    | _ => []

/-! ## 渡す長さ -/

section Lengths

variable {destMac : Mac} {destIp : Ip} {protocol : UInt8} {bytes : List UInt8}

theorem length_of_mem_tcpSendPacket {env : Env} {sock : TcpSocket} {flags : UInt8}
    {payload : List UInt8}
    (h : .ipv4 destMac destIp protocol bytes ∈ (tcpSendPacket env sock flags payload).2) :
    bytes.length = tcpHeaderSize + payload.length := by
  unfold tcpSendPacket at h
  split at h
  · cases h
  · split at h
    · cases h
    · split at h
      · simp at h
      · obtain ⟨-, -, -, rfl⟩ := Event.ipv4.inj (mem_singleton.mp h)
        rw [tcpSegment, length_append, TcpHeader.length_bytes]

theorem length_of_mem_udpSendPacket {env : Env} {ip : Ip} {srcPort destPort : UInt16}
    (h : .ipv4 destMac destIp protocol bytes ∈ udpSendPacket env ip srcPort destPort data) :
    bytes.length = udpHeaderSize + data.length := by
  unfold udpSendPacket at h
  split at h
  · cases h
  · split at h
    · cases h
    · split at h
      · simp at h
      · obtain ⟨-, -, -, rfl⟩ := Event.ipv4.inj (mem_singleton.mp h)
        simp only [udpDatagram, udpHeaderSize, length_append, Wire.length_encode]

theorem length_of_mem_echoReply {frame stack : Nat → UInt8} {ip off : Nat} {len : Int}
    (h : .ipv4 destMac destIp protocol bytes ∈ echoReply frame ip off len stack) :
    (bytes.length : Int) = len := by
  have hicmp : icmpHeaderSize = 8 := rfl
  unfold echoReply at h
  split at h
  · cases h
  · split at h
    · cases h
    · obtain ⟨-, -, -, rfl⟩ := Event.ipv4.inj (mem_singleton.mp h)
      simp only [length_append, length_cons, length_nil, checksumBytes, length_map, length_range]
      omega

end Lengths

/-- IPv4 の header の言う header の長さ。 -/
def headerLength (frame : Nat → UInt8) : Nat := (frame ethernetHeaderSize &&& 0x0F).toNat * 4

section

variable {rx : Receiver} {frame : Nat → UInt8} {ip off off' : Nat} {len n : Int}

theorem pass_not_mem_icmpHandlePacket :
    .pass handler off' n ∉ icmpHandlePacket rx frame ip off len := by
  unfold icmpHandlePacket
  repeat' split
  all_goals simp

theorem pass_not_mem_tcpReads : .pass handler off' n ∉ tcpReads rx frame ip off len := by
  unfold tcpReads
  split
  · simp
  · dsimp only
    split
    · simp
    · split <;> simp

theorem icmp_not_mem_udpHandlePacket : .pass .icmp off' n ∉ udpHandlePacket frame off len := by
  unfold udpHandlePacket
  split
  · simp
  · simp only [mem_cons, reduceCtorEq, false_or]
    repeat' split
    all_goals simp

theorem ipv4_icmp_length (h : .pass .icmp off' n ∈ ipv4HandlePacket rx frame off len) :
    n = (fieldAt frame (off + 2) 2 : Int) - ((frame off &&& 0x0F).toNat * 4 : Nat) := by
  unfold ipv4HandlePacket at h
  split at h
  · cases h
  simp only [mem_cons, reduceCtorEq, false_or] at h
  split at h
  · cases h
  split at h
  · cases h
  simp only [mem_cons, reduceCtorEq, false_or] at h
  split at h
  · cases h
  simp only [mem_cons, reduceCtorEq, false_or] at h
  split at h
  · rcases mem_cons.mp h with h | h
    · exact (Access.pass.inj h).2.2
    · exact absurd h pass_not_mem_icmpHandlePacket
  split at h
  · rcases mem_cons.mp h with h | h
    · cases h
    · exact absurd h pass_not_mem_tcpReads
  · split at h
    · rcases mem_cons.mp h with h | h
      · cases h
      · exact absurd h icmp_not_mem_udpHandlePacket
    · cases h

end

/-- ICMP に渡る長さは、`total_length` から header の長さを引いたものである。 -/
theorem icmp_length_of_mem {rx : Receiver} {frame : Nat → UInt8} {off : Nat} {len n : Int}
    (h : .pass .icmp off n ∈ ethernetHandlePacketNetif rx frame len) :
    n = (totalLength frame : Int) - headerLength frame := by
  unfold ethernetHandlePacketNetif at h
  split at h
  · cases h
  rcases mem_cons.mp h with h | h
  · cases h
  · split at h
    · simp at h
    · split at h
      · rcases mem_cons.mp h with h | h
        · cases h
        · exact ipv4_icmp_length h
      · cases h

/-! ## 主定理 -/

/--
**`ipv4_send_packet` の frame が buffer に収まるのは、TCP では 1464 byte まで、UDP では 1476 byte までのデータで、echo の返事
では `total_length` が header の長さより 1484 を越えて大きくないときであり、そのときに限る。**

TCP は 1480、UDP は 1492 byte まで受け付け、echo の返事に上限は無い。
-/
theorem output_fits_iff (sender : Sender) (stack stack' : Nat → UInt8) (destMac : Mac) (destIp : Ip)
    (protocol : UInt8) (bytes : List UInt8) :
    (∀ env sock flags payload,
        .ipv4 destMac destIp protocol bytes ∈ (tcpSendPacket env sock flags payload).2 →
        ((ipv4SendPacket sender destMac destIp protocol bytes stack).Fits ↔
          payload.length ≤ 1464)) ∧
      (∀ env ip srcPort destPort data,
        .ipv4 destMac destIp protocol bytes ∈ udpSendPacket env ip srcPort destPort data →
        ((ipv4SendPacket sender destMac destIp protocol bytes stack).Fits ↔ data.length ≤ 1476)) ∧
      (∀ rx frame len, .ipv4 destMac destIp protocol bytes ∈ echoReplies rx frame len stack' →
        ((ipv4SendPacket sender destMac destIp protocol bytes stack).Fits ↔
          totalLength frame ≤ headerLength frame + 1484)) := by
  refine ⟨fun env sock flags payload h => ?_, fun env ip srcPort destPort data h =>
    ?_, fun rx frame len h => ?_⟩
  · rw [ipv4SendPacket_fits_iff, length_of_mem_tcpSendPacket h, tcpHeaderSize]
    omega
  · rw [ipv4SendPacket_fits_iff, length_of_mem_udpSendPacket h, udpHeaderSize]
    omega
  · obtain ⟨access, haccess, hreply⟩ := mem_flatMap.mp h
    split at hreply
    · have hlength := length_of_mem_echoReply hreply
      have htotal := icmp_length_of_mem haccess
      rw [ipv4SendPacket_fits_iff]
      omega
    · cases hreply

/-! ## 送られる packet -/

section

variable {env : Env} {nextHop : Ip} {destMac : Mac}

theorem tcpSendPacket_sent (sock : TcpSocket) (flags : UInt8) {payload : List UInt8}
    (hlen : payload.length ≤ 1480)
      (hroute : routeGetNextHop env.routes sock.remoteIp = some nextHop)
    (harp : arpCacheLookup env.arpCache nextHop = some destMac) :
    (tcpSendPacket env sock flags payload).2 =
      [.ipv4 destMac sock.remoteIp ipProtoTcp (tcpSegment env sock flags payload)] := by
  simp [tcpSendPacket, tcpHeaderSize, Nat.not_lt.mpr hlen, hroute, harp]

theorem udpSendPacket_sent {destIp : Ip} (srcPort destPort : UInt16) (hlen : data.length ≤ 1492)
    (hroute : routeGetNextHop env.routes destIp = some nextHop)
    (harp : arpCacheLookup env.arpCache nextHop = some destMac) :
    udpSendPacket env destIp srcPort destPort data =
      [.ipv4 destMac destIp ipProtoUdp (udpDatagram srcPort destPort data)] := by
  simp [udpSendPacket, udpHeaderSize, Nat.not_lt.mpr hlen, hroute, harp]

/-- 型が echo request で header より短くなければ、返事が出る。 -/
theorem echoReply_sent (frame stack : Nat → UInt8) (ip : Nat) {off : Nat} {len : Int}
    (hlen : 8 ≤ len) (htype : frame off = icmpTypeEchoRequest) :
    ∃ destMac destIp bytes, .ipv4 destMac destIp ipProtoIcmp bytes ∈
      echoReply frame ip off len stack := by
  have hshort : ¬len < (icmpHeaderSize : Int) := by
    simp only [icmpHeaderSize]
    omega
  rw [echoReply, if_neg hshort, if_neg (not_not.mpr htype)]
  exact ⟨_, _, _, mem_singleton_self _⟩

end

/-- QEMU の user network の interface。 -/
def qemuSender : Sender := ⟨#v[0x52, 0x54, 0, 0x12, 0x34, 0x56], ⟨10, 0, 2, 15⟩, 0⟩

/-- gateway に繋がる socket。 -/
def gatewaySocket : TcpSocket := { tcpInitSocket with remoteIp := ⟨10, 0, 2, 2⟩ }

theorem qemu_gateway_route : routeGetNextHop Env.qemu.routes ⟨10, 0, 2, 2⟩ = some
    ⟨10, 0, 2, 2⟩ := by decide

theorem qemu_gateway_arp :
    arpCacheLookup Env.qemu.arpCache ⟨10, 0, 2, 2⟩ = some #v[0x52, 0x55, 0x0A, 0, 2, 2] := by decide

/-- gateway への 1464 byte は収まる。 -/
theorem output_fits_iff_gateway : ∃ destMac destIp protocol bytes,
    .ipv4 destMac destIp protocol bytes ∈
      (tcpSendPacket Env.qemu gatewaySocket flagAck (List.replicate 1464 0x41)).2 ∧
    (ipv4SendPacket qemuSender destMac destIp protocol bytes fun _ => 0).Fits := by
  have hlen : (replicate 1464 (0x41 : UInt8)).length = 1464 := length_replicate
  have hsent := tcpSendPacket_sent gatewaySocket flagAck (hlen.trans_le (by decide))
    qemu_gateway_route
    qemu_gateway_arp
  have hmem := hsent ▸ mem_singleton_self _
  refine ⟨_, _, _, _, hmem, ?_⟩
  exact ((output_fits_iff _ _ (fun _ => 0) _ _ _ _).1 _ _ _ _ hmem).mpr (Nat.le_of_eq hlen)

/-- gateway の echo request。`total_length` は 2000 である。 -/
def longEchoFrame : List UInt8 := (echoFrame.set 16 0x07).set 17 0xD0

/--
**三つとも、受け付ける長さで buffer を越える。**

TCP の 1480 byte、UDP の 1492 byte のデータと、`total_length` が 2000 の echo request である。
-/
theorem output_overflow :
    (∃ destMac destIp protocol bytes, .ipv4 destMac destIp protocol bytes ∈
        (tcpSendPacket Env.qemu gatewaySocket flagAck (List.replicate 1480 0x41)).2 ∧
      ¬(ipv4SendPacket qemuSender destMac destIp protocol bytes fun _ => 0).Fits) ∧
    (∃ destMac destIp protocol bytes, .ipv4 destMac destIp protocol bytes ∈
        udpSendPacket Env.qemu ⟨10, 0, 2, 2⟩ 12345 53 (List.replicate 1492 0x41) ∧
      ¬(ipv4SendPacket qemuSender destMac destIp protocol bytes fun _ => 0).Fits) ∧
    ∃ destMac destIp protocol bytes, .ipv4 destMac destIp protocol bytes ∈
        echoReplies ⟨Env.qemu, tcpInit Env.qemu, ⟨false, false, 0⟩⟩ (longEchoFrame.getD · 0) 60
          (fun _ => 0) ∧
      ¬(ipv4SendPacket qemuSender destMac destIp protocol bytes fun _ => 0).Fits := by
  have htcp : (replicate 1480 (0x41 : UInt8)).length = 1480 := length_replicate
  have hudp : (replicate 1492 (0x41 : UInt8)).length = 1492 := length_replicate
  have hicmp : .pass .icmp 34 1980 ∈ ethernetHandlePacketNetif
      ⟨Env.qemu, tcpInit Env.qemu, ⟨false, false, 0⟩⟩ (longEchoFrame.getD · 0) 60 := by
    decide +kernel
  refine ⟨?_, ?_, ?_⟩
  · have hsent := tcpSendPacket_sent gatewaySocket flagAck htcp.le qemu_gateway_route
      qemu_gateway_arp
    have hmem := hsent ▸ mem_singleton_self _
    refine ⟨_, _, _, _, hmem, ?_⟩
    rw [ipv4SendPacket_fits_iff, length_of_mem_tcpSendPacket hmem, htcp]
    decide
  · have hsent := udpSendPacket_sent 12345 53 hudp.le qemu_gateway_route qemu_gateway_arp
    have hmem := hsent ▸ mem_singleton_self _
    refine ⟨_, _, _, _, hmem, ?_⟩
    rw [ipv4SendPacket_fits_iff, length_of_mem_udpSendPacket hmem, hudp]
    decide
  · have htype : longEchoFrame.getD 34 0 = icmpTypeEchoRequest := by decide
    obtain ⟨destMac, destIp, bytes, hreply⟩ := echoReply_sent (longEchoFrame.getD · 0) (fun _ => 0)
      _ (show (8 : Int) ≤ 1980 by decide) htype
    refine ⟨destMac, destIp, ipProtoIcmp, bytes, mem_flatMap.mpr ⟨_, hicmp, hreply⟩, ?_⟩
    have hlength := length_of_mem_echoReply hreply
    rw [ipv4SendPacket_fits_iff]
    omega

end Alos.Net
