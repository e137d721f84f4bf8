import Alos.Tcp.Model

/-!
# 送信の結果

`tcp_send_packet` は何も返さない。長すぎる、経路が無い、MAC が分からない、のどれかなら packet は出ず、番号も進まないが、
`tcp_send` はそれを知らずに `len` を返す。

* `tcp_send_handed_iff` — 返した数だけの byte が渡るのは、長さが 1480 以下で宛先が解決できるときに限る
-/

namespace Alos.Tcp

open List

open Net (Ip Mac Env)

variable {env : Env} {sock : TcpSocket} {flags : UInt8} {payload : List UInt8}

/-! ## `tcp_send_packet` -/

/-- 変わるのは `seq` だけである。 -/
theorem sendPacket_sock (env : Env) (sock : TcpSocket) (flags : UInt8) (payload : List UInt8) :
    ∃ seq, (tcpSendPacket env sock flags payload).1 = { sock with seq := seq } := by
  unfold tcpSendPacket
  split
  · exact ⟨_, rfl⟩
  · split
    · exact ⟨_, rfl⟩
    · split <;> exact ⟨_, rfl⟩

@[simp] theorem sendPacket_state : (tcpSendPacket env sock flags payload).1.state = sock.state := by
  obtain ⟨seq, h⟩ := sendPacket_sock env sock _ _
  rw [h]

@[simp] theorem sendPacket_inUse : (tcpSendPacket env sock flags payload).1.inUse = sock.inUse := by
  obtain ⟨seq, h⟩ := sendPacket_sock env sock _ _
  rw [h]

@[simp] theorem sendPacket_localPort :
    (tcpSendPacket env sock flags payload).1.localPort = sock.localPort := by
  obtain ⟨seq, h⟩ := sendPacket_sock env sock _ _
  rw [h]

@[simp] theorem sendPacket_ack : (tcpSendPacket env sock flags payload).1.ack = sock.ack := by
  obtain ⟨seq, h⟩ := sendPacket_sock env sock _ _
  rw [h]

/-- 宛先が解決できれば、packet が一つ出る。 -/
theorem sendPacket_of_resolve {mac : Mac} (hlen : payload.length ≤ 1480)
    (h : env.resolve sock.remoteIp = some mac) : tcpSendPacket env sock flags payload =
      ({ sock with seq := sock.seq + seqAdvance flags payload },
        [.ipv4 mac sock.remoteIp ipProtoTcp (tcpSegment env sock flags payload)]) := by
  obtain ⟨hop, hroute, harp⟩ := Option.bind_eq_some_iff.mp h
  have hshort : ¬1500 - tcpHeaderSize < payload.length := Nat.not_lt.mpr hlen
  rw [tcpSendPacket, if_neg hshort]
  simp only [hroute, harp]

/-- 解決できないか長すぎれば、socket は変わらず、packet は出ない。 -/
theorem sendPacket_of_not (h : ¬(payload.length ≤ 1480 ∧ (env.resolve sock.remoteIp).isSome)) :
    (tcpSendPacket env sock flags payload).1 = sock ∧
    ∀ event ∈ (tcpSendPacket env sock flags payload).2, ∃ ip, event = .arpRequest ip := by
  unfold tcpSendPacket
  split
  · exact ⟨rfl, fun event he => absurd he not_mem_nil⟩
  rename_i hshort
  split
  · exact ⟨rfl, fun event he => absurd he not_mem_nil⟩
  · rename_i hop hroute
    split
    · exact ⟨rfl, fun event he => ⟨hop, mem_singleton.mp he⟩⟩
    · rename_i mac harp
      refine absurd ⟨Nat.not_lt.mp hshort, ?_⟩ h
      rw [Env.resolve, hroute, Option.bind_some, harp]
      rfl

/-! ## 出た packet を読む -/

theorem makeDataOffsetFlags_spec (flags : UInt8) :
    tcpGetHeaderLen (tcpMakeDataOffsetFlags tcpHeaderSize flags) = tcpHeaderSize ∧
    tcpGetFlags (tcpMakeDataOffsetFlags tcpHeaderSize flags) = flags &&& 0x3F := by
  have hall : ∀ n < 256,
      tcpGetHeaderLen (tcpMakeDataOffsetFlags tcpHeaderSize (UInt8.ofNat n)) = tcpHeaderSize ∧
      tcpGetFlags (tcpMakeDataOffsetFlags tcpHeaderSize (UInt8.ofNat n)) =
        UInt8.ofNat n &&& 0x3F := by
    decide +kernel
  have h := hall _ flags.toNat_lt
  rwa [UInt8.ofNat_toNat] at h

/-- 送った packet を受け手が読むと、socket の欄とデータが出る。 -/
theorem parse_tcpSegment (env : Env) (sock : TcpSocket) (flags : UInt8) (payload : List UInt8) :
    Packet.parse (tcpSegment env sock flags payload) =
      ⟨sock.localPort, sock.remotePort, sock.seq, sock.ack, flags &&& 0x3F, payload⟩ := by
  obtain ⟨hlen, hflags⟩ := makeDataOffsetFlags_spec flags
  simp only [Packet.parse, tcpSegment, TcpHeader.parse_bytes, hlen, hflags]
  rw [drop_left' TcpHeader.length_bytes]

/-- packet なら、その ack の番号。 -/
def Event.ack? : Event → Option UInt32
  | .ipv4 _ _ _ payload => some (Packet.parse payload).ackNum
  | .arpRequest _ | .wake .. => none

/-- 出た packet の ack の番号を、出た順に並べたもの。 -/
def acks (events : List Event) : List UInt32 := events.filterMap Event.ack?

@[simp] theorem acks_nil : acks [] = [] := rfl

@[simp] theorem acks_append {es es' : List Event} : acks (es ++ es') = acks es ++ acks es' :=
  filterMap_append

@[simp] theorem acks_wake {slot : Nat} {queue : WaitQueue} : acks [.wake slot queue] = [] := rfl

theorem acks_sendPacket (env : Env) (sock : TcpSocket) (flags : UInt8) :
    acks (tcpSendPacket env sock flags []).2 =
      if (env.resolve sock.remoteIp).isSome then [sock.ack] else [] := by
  cases hmac : env.resolve _ with
  | none =>
    have hnot : ¬(([] : List UInt8).length ≤ 1480 ∧
      (env.resolve sock.remoteIp).isSome) := by simp [hmac]
    rw [acks, Option.isSome_none, if_neg Bool.false_ne_true, filterMap_eq_nil_iff]
    intro event he
    obtain ⟨ip, rfl⟩ := (sendPacket_of_not hnot).2 _ he
    rfl
  | some mac =>
    rw [sendPacket_of_resolve (Nat.zero_le _) hmac]
    simp [acks, Event.ack?, parse_tcpSegment]

/-! ## `tcp_send` -/

theorem seqAdvance_data :
    seqAdvance (flagAck ||| flagPsh) payload = UInt32.ofNat payload.length := by
  rw [seqAdvance, if_neg (by decide), if_neg (by decide), UInt32.add_zero, UInt32.zero_add]

/-- 相手に宛てた TCP の packet のデータを、出た順に並べたもの。 -/
def handedTo (ip : Ip) (port : UInt16) (events : List Event) : List UInt8 :=
  events.flatMap fun event =>
    match event with
    | .ipv4 _ destIp protocol payload =>
      if destIp = ip ∧ protocol = ipProtoTcp ∧ (Packet.parse payload).destPort = port then
        (Packet.parse payload).payload
      else []
    | _ => []

theorem handedTo_of_resolve {mac : Mac} (hlen : payload.length ≤ 1480)
    (h : env.resolve sock.remoteIp = some mac) :
    handedTo sock.remoteIp sock.remotePort (tcpSendPacket env sock flags payload).2 = payload := by
  rw [sendPacket_of_resolve hlen h]
  simp [handedTo, parse_tcpSegment]

theorem handedTo_of_not (h : ¬(payload.length ≤ 1480 ∧ (env.resolve sock.remoteIp).isSome)) :
    handedTo sock.remoteIp sock.remotePort (tcpSendPacket env sock flags payload).2 = [] := by
  rw [handedTo, flatMap_eq_nil_iff]
  intro event he
  obtain ⟨ip, rfl⟩ := (sendPacket_of_not h).2 _ he
  rfl

/--
**返した数だけの byte が渡るのは、長さが 1480 以下で宛先が解決できるときに限る。**

ESTABLISHED の socket では、`tcp_send` は正の `len` をいつもそのまま返す。先頭の `len` byte が相手に渡り、`seq` が `len` だけ
進むことは、`len` が 1480 以下で、経路と ARP の cache から MAC が引けることと同値である。
-/
theorem tcp_send_handed_iff (env : Env) (sock : TcpSocket) (hstate : sock.state = .established)
    (buf : Nat → UInt8) (len : Int) (hlen : 0 < len) :
    (tcpSend env sock buf len).1 = len ∧
    ((handedTo sock.remoteIp sock.remotePort (tcpSend env sock buf len).2.2 =
        (List.range len.toNat).map buf ∧
      (tcpSend env sock buf len).2.1.seq = sock.seq + UInt32.ofNat len.toNat) ↔
      len ≤ 1480 ∧ (env.resolve sock.remoteIp).isSome) := by
  have hpos : ¬len ≤ 0 := Int.not_le.mpr hlen
  have hlength : ((range len.toNat).map buf).length = len.toNat := by simp
  have hfits : ((range len.toNat).map buf).length ≤ 1480 ↔ len ≤ 1480 := by
    omega
  simp only [tcpSend, if_neg hpos, hstate, ne_eq, not_true_eq_false, if_false, true_and]
  rw [← hfits]
  constructor
  · rintro ⟨hhanded, -⟩
    by_contra hnot
    rw [handedTo_of_not hnot] at hhanded
    have hzero := congrArg length hhanded
    rw [length_nil] at hzero
    omega
  · rintro ⟨hshort, hsome⟩
    obtain ⟨mac, hmac⟩ := Option.isSome_iff_exists.mp hsome
    refine ⟨handedTo_of_resolve hshort hmac, ?_⟩
    rw [sendPacket_of_resolve hshort hmac]
    simp only [seqAdvance_data, hlength]

/-- 10.0.2.2 と接続している socket が、2 byte を送る。 -/
theorem tcp_send_handed_pair :
    handedTo ⟨10, 0, 2, 2⟩ 4000 (tcpSend Env.qemu { tcpInitSocket with
      state := .established, remoteIp := ⟨10, 0, 2, 2⟩, remotePort := 4000, seq := 0xFFFFFFFF }
      (fun i => UInt8.ofNat (65 + i)) 2).2.2 = [65, 66] ∧
    (tcpSend Env.qemu { tcpInitSocket with
      state := .established, remoteIp := ⟨10, 0, 2, 2⟩, remotePort := 4000, seq := 0xFFFFFFFF }
      (fun i => UInt8.ofNat (65 + i)) 2).2.1.seq = 1 :=
  (tcp_send_handed_iff _ { tcpInitSocket with
    state := .established, remoteIp := ⟨10, 0, 2, 2⟩, remotePort := 4000, seq := 0xFFFFFFFF }
    rfl (fun i => UInt8.ofNat _) 2 (by decide)).2.mpr (by decide)

/-- 同じ網の MAC の分からない相手に 1 byte を送ると、何も渡らず `seq` も進まないのに 1 が返る。 -/
theorem tcp_send_dropped :
    let sock := { tcpInitSocket with
      state := .established, remoteIp := ⟨10, 0, 2, 9⟩, remotePort := 4000, seq := 100 }
    let r := tcpSend Env.qemu sock (fun _ => 65) 1
    r.1 = 1 ∧ r.2.2 = [.arpRequest ⟨10, 0, 2, 9⟩] ∧ r.2.1.seq = 100 ∧
      handedTo ⟨10, 0, 2, 9⟩ 4000 r.2.2 = [] := by
  decide +kernel

end Alos.Tcp
