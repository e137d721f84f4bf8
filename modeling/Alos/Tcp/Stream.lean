import Alos.Lib.Run
import Alos.Tcp.Input

/-!
# 相手の byte 列が読み手に届くまで

相手は byte の列を segment に分けて送る。segment は `tcp_handle_packet` で環に入り、`tcp_recv` で出る。受け手は番号を
見ずに、届いた順に入れる。

* `stream_prefix` — 空きがあるうちは続きの segment だけが届くなら、読んだ列は相手の列の先頭である
* `stream_duplicated` — 同じ segment が二度届けば、同じ byte が二度読まれる
-/

namespace Alos.Tcp

open List Option

open Net (Ip Env)

/-! ## 相手と接続 -/

/-- 接続の相手。`isn` は最初の byte の番号である。 -/
structure Peer where
  ip : Ip
  port : UInt16
  isn : UInt32

/-- 相手の列の `off` byte 目から始まる segment。SYN と RST は無い。 -/
structure Addressed (peer : Peer) (localPort : UInt16) (off : Nat) (data : List UInt8) : Prop where
  length : tcpHeaderSize ≤ data.length
  srcPort : (Packet.parse data).srcPort = peer.port
  destPort : (Packet.parse data).destPort = localPort
  seqNum : (Packet.parse data).seqNum = peer.isn + UInt32.ofNat off
  syn : (Packet.parse data).has flagSyn = false
  rst : (Packet.parse data).has flagRst = false

instance (peer : Peer) (localPort : UInt16) (off : Nat) (data : List UInt8) :
    Decidable (Addressed peer localPort off data) :=
  decidable_of_iff (tcpHeaderSize ≤ data.length ∧ (Packet.parse data).srcPort = peer.port ∧
      (Packet.parse data).destPort = localPort ∧
      (Packet.parse data).seqNum = peer.isn + UInt32.ofNat off ∧
      (Packet.parse data).has flagSyn = false ∧ (Packet.parse data).has flagRst = false)
    ⟨fun h => ⟨h.1, h.2.1, h.2.2.1, h.2.2.2.1, h.2.2.2.2.1, h.2.2.2.2.2⟩,
      fun h => ⟨h.length, h.srcPort, h.destPort, h.seqNum, h.syn, h.rst⟩⟩

/-- 相手が作る segment。受け手は window と checksum を見ない。 -/
def Peer.segment (peer : Peer) (localPort : UInt16) (off : Nat) (ackNum : UInt32) (flags : UInt8)
    (payload : List UInt8) : List UInt8 :=
  (TcpHeader.mk peer.port localPort (peer.isn + UInt32.ofNat off) ackNum
    (tcpMakeDataOffsetFlags tcpHeaderSize flags) 0 0 0).bytes ++ payload

/-- 起動した表で port を開き、相手が SYN と ACK を送ったところ。 -/
def handshake (env : Env) (peer : Peer) (port : UInt16) : TcpTable :=
  let t := (tcpListen env (tcpInit env) port).2
  let syn := { peer with isn := peer.isn - 1 }.segment port 0 0 flagSyn []
  let t := (tcpHandlePacket env t peer.ip syn).1
  (tcpHandlePacket env t peer.ip
    (peer.segment port 0 (env.ticks.toUInt32 * 12345 + 1) flagAck [])).1

/-- slot に相手と接続した socket があり、相手の packet はそこに届く。 -/
structure Connected (peer : Peer) (localPort : UInt16) (slot : Nat) (t : TcpTable)
    (sock : TcpSocket) :
    Prop where
  entry : t.sockets[slot]? = some sock
  find : tcpFindSocket t localPort peer.ip peer.port = some slot
  state : sock.state = .established

variable {peer : Peer} {localPort : UInt16} {slot off : Nat} {t : TcpTable} {sock : TcpSocket}
  {env : Env} {data : List UInt8}

namespace Connected

section

variable (h : Connected peer localPort slot t sock)
include h

theorem remoteIp : sock.remoteIp = peer.ip :=
  tcpFindSocket_remoteIp h.find h.entry

/-- 番地の欄を変えない書換えの後も、packet は届く。 -/
theorem find_update {sock' : TcpSocket} (huse : sock'.inUse = sock.inUse)
    (hport : sock'.localPort = sock.localPort) (hremote : sock'.remotePort = sock.remotePort)
    (hip : sock'.remoteIp = sock.remoteIp) :
    tcpFindSocket (t.update slot fun _ => sock') localPort peer.ip peer.port = some slot := by
  rw [tcpFindSocket, findIdx?_update]
  · exact h.find
  · intro other hother
    obtain rfl := some.inj (h.entry.symm.trans hother)
    rw [huse, hport, hremote, hip]

/-- 相手の segment は、ESTABLISHED の socket がそのまま受ける。 -/
theorem handlePacket (hdata : Addressed peer localPort off data) :
    tcpHandlePacket env t peer.ip data =
      (t.update slot fun _ => (establishedInput env slot sock (Packet.parse data)).1,
        (establishedInput env slot sock (Packet.parse data)).2) := by
  have hfind := h.find
  rw [← hdata.destPort, ← hdata.srcPort] at hfind
  obtain ⟨listener, he⟩ := handlePacket_connection env hdata.length hfind h.entry
    (by rw [h.state]; simp)
  rw [he]
  simp only [connectionInput, h.state]

/-- segment を受けた後。FIN があれば接続は LAST_ACK に移る。 -/
theorem received (hdata : Addressed peer localPort off data) (env : Env) :
    ∃ sock', (tcpHandlePacket env t peer.ip data).1 = t.update slot (fun _ => sock') ∧
      (tcpHandlePacket env t peer.ip data).1.sockets[slot]? = some sock' ∧
      sock'.recv = sock.recv.store (Packet.parse data).payload ∧
      (if (Packet.parse data).has flagFin then sock'.state = .lastAck
        else Connected peer localPort slot (tcpHandlePacket env t peer.ip data).1 sock') := by
  obtain ⟨ack, seq, hsock⟩ := establishedInput_sock env slot sock _ hdata.rst
  rw [h.handlePacket hdata]
  refine ⟨_, rfl, by simp [h.entry], by rw [hsock], ?_⟩
  split
  · rename_i hfin
    rw [hsock]
    simp [hfin]
  · rename_i hfin
    refine ⟨by simp [h.entry], h.find_update ?_ ?_ ?_ ?_, ?_⟩ <;> rw [hsock]
    simpa [hfin] using h.state

theorem received_recv (r : Ring UInt8 tcpRecvBufferSize) :
    Connected peer localPort slot (t.update slot fun _ => { sock with recv := r })
      { sock with recv := r } :=
  ⟨by simp [h.entry], h.find_update rfl rfl rfl rfl, h.state⟩

end

end Connected

/-! ## `tcp_recv` -/

theorem tcpRecv_readable (hstate : sock.state = .established) {len : Int} (hlen : 0 < len) :
    tcpRecv sock len = (((sock.recv.take len.toNat).1.length : Int), (sock.recv.take len.toNat).1,
      { sock with recv := (sock.recv.take len.toNat).2 }) := by
  rw [tcpRecv, if_neg (Int.not_le.mpr hlen), if_neg (by simp [hstate])]

/-- 読んだ列と残りの環を合わせると、元の環の中身である。 -/
theorem recv_contents (sock : TcpSocket) (len : Int) :
    (tcpRecv sock len).2.1 ++ (tcpRecv sock len).2.2.recv.contents = sock.recv.contents := by
  unfold tcpRecv
  split
  · rfl
  · split
    · rfl
    · obtain ⟨htake, hdrop⟩ := sock.recv.contents_take len.toNat
      rw [htake, hdrop, take_append_drop]

theorem Connected.recv (h : Connected peer localPort slot t sock) (len : Int) :
    Connected peer localPort slot (t.update slot fun _ => (tcpRecv sock len).2.2)
      (tcpRecv sock len).2.2 := by
  unfold tcpRecv
  split
  · exact h.received_recv _
  · split <;> exact h.received_recv _

/-- ESTABLISHED でも CLOSE_WAIT でもなければ、読めない。 -/
theorem tcpRecv_unreadable (hstate : sock.state = .lastAck ∨ sock.state = .listen) (len : Int) :
    (tcpRecv sock len).2 = ([], sock) := by
  rw [tcpRecv]
  split
  · rfl
  · rcases hstate with hstate | hstate <;> simp [hstate]

/-! ## 相手の列の先頭だけを読む -/

/-- 受け手の表と、`tcp_recv` が返した byte。 -/
structure Reading where
  table : TcpTable
  returned : List UInt8

inductive StreamOp where
  /-- 相手の列の `off` byte 目からの segment が届く。 -/
  | segment (env : Env) (off : Nat) (data : List UInt8)
  | recv (len : Int)

def streamStep (peer : Peer) (slot : Nat) (s : Reading) : StreamOp → Option Reading
  | .segment env _ data => some { s with table := (tcpHandlePacket env s.table peer.ip data).1 }
  | .recv len => (s.table.sockets[slot]?).map fun sock =>
      ⟨s.table.update slot fun _ => (tcpRecv sock len).2.2, s.returned ++ (tcpRecv sock len).2.1⟩

/-- 届くのは、相手の列 `stream` の一部を運ぶ segment である。失われても、重なっても、順が入れ替わってもよい。 -/
def FromPeer (peer : Peer) (stream : List UInt8) (localPort : UInt16) (_ : Reading) :
    StreamOp → Prop
  | .segment _ off data =>
    Addressed peer localPort off data ∧ (Packet.parse data).payload <+: stream.drop off
  | .recv _ => True

instance (peer : Peer) (stream : List UInt8) (localPort : UInt16) (s : Reading) :
    (op : StreamOp) → Decidable (FromPeer peer stream localPort s op)
  | .segment .. => inferInstanceAs (Decidable (_ ∧ _))
  | .recv _ => .isTrue trivial

/-- さらに、環に空きがあるときに届くデータは、まだ入れていない最初の byte から始まる。 -/
def InOrder (peer : Peer) (stream : List UInt8) (localPort : UInt16) (slot : Nat) (s : Reading)
    (op : StreamOp) : Prop :=
  FromPeer peer stream localPort s op ∧
  match op with
  | .segment _ off data => ∀ sock ∈ s.table.sockets[slot]?, sock.state = .established →
      off = s.returned.length + sock.recv.count ∨ sock.recv.count = tcpRecvBufferSize ∨
        (Packet.parse data).payload = []
  | .recv _ => True

instance (peer : Peer) (stream : List UInt8) (localPort : UInt16) (slot : Nat) (s : Reading) :
    (op : StreamOp) → Decidable (InOrder peer stream localPort slot s op)
  | .segment _ off data => inferInstanceAs (Decidable (_ ∧ ∀ sock ∈ s.table.sockets[slot]?,
      sock.state = .established → off = s.returned.length + sock.recv.count ∨
        sock.recv.count = tcpRecvBufferSize ∨ (Packet.parse data).payload = []))
  | .recv _ => inferInstanceAs (Decidable (_ ∧ True))

/-- 読んだ列に環の中身を続けたものが、相手の列の先頭である。接続が終われば、もう読めない。 -/
inductive Streaming (peer : Peer) (stream : List UInt8) (localPort : UInt16) (slot : Nat)
    (s : Reading) :
    Prop
  | opened (sock : TcpSocket) (h : Connected peer localPort slot s.table sock)
      (hinit : s.returned ++ sock.recv.contents <+: stream)
  | ended (sock : TcpSocket) (h : s.table.sockets[slot]? = some sock)
      (hstate : sock.state = .lastAck ∨ sock.state = .listen) (hinit : s.returned <+: stream)

variable {stream : List UInt8} {s s' : Reading}

theorem append_isPrefix {a b l : List UInt8} (ha : a <+: l) (hb : b <+: l.drop a.length) :
    a ++ b <+: l := by
  obtain ⟨rest, rfl⟩ := ha
  rw [drop_left] at hb
  exact (prefix_append_right_inj a).mpr hb

/-- 終わった接続は、SYN でない packet では戻らない。 -/
theorem ended_handlePacket (hsyn : (Packet.parse data).has flagSyn = false) (srcIp : Ip)
    (h : t.sockets[slot]? = some sock) (hstate : sock.state = .lastAck ∨ sock.state = .listen) :
    ∃ sock', (tcpHandlePacket env t srcIp data).1.sockets[slot]? = some sock' ∧
      (sock'.state = .lastAck ∨ sock'.state = .listen) := by
  rcases handlePacket_of_not_syn hsyn with
    he | ⟨i, other, listener, hother, hlisten, he⟩
  · rw [he]
    exact ⟨sock, h, hstate⟩
  rw [he]
  by_cases hi : i = slot
  · subst hi
    obtain rfl := some.inj (h.symm.trans hother)
    refine ⟨(connectionInput env i listener sock (Packet.parse data)).1, by simp [h], ?_⟩
    have hlast : sock.state = .lastAck := hstate.resolve_right hlisten
    simp only [connectionInput, hlast]
    split
    · exact .inr rfl
    · exact .inl hlast
  · rw [TcpTable.getElem?_update_of_ne hi]
    exact ⟨sock, h, hstate⟩

theorem Streaming.step (h : Streaming peer stream localPort slot s) {op : StreamOp}
    (hop : InOrder peer stream localPort slot s op) (hstep : streamStep peer slot s op = some s') :
    Streaming peer stream localPort slot s' := by
  cases op with
  | segment env off data =>
    obtain ⟨⟨haddr, hpayload⟩, horder⟩ := hop
    obtain rfl := some.inj hstep
    cases h with
    | opened sock h hinit =>
      obtain ⟨sock', -, hentry, hrecv, hnext⟩ := h.received haddr env
      have hkept : s.returned ++ sock'.recv.contents <+: stream := by
        rw [hrecv, Ring.contents_store, ← append_assoc]
        refine append_isPrefix hinit ?_
        rw [length_append, Ring.length_contents]
        rcases horder sock h.entry h.state with hoff | hfull | hnil
        · exact hoff ▸ ( take_prefix _ _).trans hpayload
        · rw [hfull]
          exact nil_prefix
        · rw [hnil, take_nil]
          exact nil_prefix
      split at hnext
      · exact .ended _ hentry (.inl hnext) ((prefix_append _ _).trans hkept)
      · exact .opened _ hnext hkept
    | ended sock h hstate hinit =>
      obtain ⟨sock', hentry, hstate'⟩ := ended_handlePacket haddr.syn _ h hstate
      exact .ended _ hentry hstate' hinit
  | recv len =>
    obtain ⟨sock₀, hsock, rfl⟩ := map_eq_some_iff.mp hstep
    cases h with
    | opened sock h hinit =>
      obtain rfl := some.inj (h.entry.symm.trans hsock)
      exact .opened _ (h.recv len) (by rwa [append_assoc, recv_contents])
    | ended sock h hstate hinit =>
      obtain rfl := some.inj (h.symm.trans hsock)
      have hrecv := tcpRecv_unreadable hstate len
      rw [hrecv, append_nil]
      exact .ended sock (by simp [h]) hstate hinit

/--
**空きがあるうちは続きの segment だけが届くなら、読んだ列は相手の列の先頭である。**

ESTABLISHED で、環の中身が相手の列の先頭である接続から始める。一杯の環に届いた segment は何も入れないので、そのときは
順を問わない。
-/
theorem stream_prefix (h : Connected peer localPort slot t sock)
    (hstart : sock.recv.contents <+: stream)
    {ops : List StreamOp}
    (hreach : Run.Reach (streamStep peer slot) (InOrder peer stream localPort slot) ⟨t, []⟩ ops s) :
    s.returned <+: stream := by
  have hs := hreach.invariant (P := Streaming peer _ _ slot)
    (.opened sock h (by simpa using hstart))
    fun s op s' hs hop hstep => hs.step hop hstep
  cases hs with
  | opened sock h hinit => exact (prefix_append _ _).trans hinit
  | ended sock h hstate hinit => exact hinit

/-- QEMU の gateway の 4000 番の port。最初の byte の番号は 101 である。 -/
def gateway : Peer := ⟨⟨10, 0, 2, 2⟩, 4000, 101⟩

/-- 握手の後、slot 1 に空の環を持つ接続がある。 -/
theorem handshake_connected :
    ∃ sock, Connected gateway 80 1 (handshake Env.qemu gateway 80) sock ∧
      sock.recv.contents = [] := by
  have hsock : ((handshake Env.qemu gateway 80).sockets[1]?).map
    (fun sock => (sock.state, sock.recv.count)) =
      some (.established, 0) := by decide +kernel
  obtain ⟨sock, hentry, he⟩ := map_eq_some_iff.mp hsock
  refine ⟨sock, ⟨hentry, by decide +kernel, congrArg Prod.fst he⟩, ?_⟩
  rw [← length_eq_zero_iff, Ring.length_contents]
  exact congrArg Prod.snd he

/-- 二つの segment が順に届き、続けて読まれる。 -/
theorem stream_prefix_pair : ∃ s,
    Run.Reach (streamStep gateway 1) (InOrder gateway [65, 66, 67] 80 1)
      ⟨handshake Env.qemu gateway 80, []⟩
      [.segment Env.qemu 0 (gateway.segment 80 0 0 flagAck [65]),
        .segment Env.qemu 1 (gateway.segment 80 1 0 flagAck [66]), .recv 10] s ∧
    s.returned = [65, 66] ∧ s.returned <+: [65, 66, 67] := by
  obtain ⟨sock, hsock, hempty⟩ := handshake_connected
  exact Run.exists_reach_of (P := fun s => s.returned = [65, 66]) (by decide +kernel)
    fun s hreach hreturned => ⟨hreturned, stream_prefix hsock (hempty ▸ nil_prefix) hreach⟩

/-- **同じ segment が二度届けば、同じ byte が二度読まれる。** -/
theorem stream_duplicated : ∃ s,
    Run.Reach (streamStep gateway 1) (FromPeer gateway [65, 66] 80)
      ⟨handshake Env.qemu gateway 80, []⟩
      [.segment Env.qemu 0 (gateway.segment 80 0 0 flagAck [65]),
        .segment Env.qemu 0 (gateway.segment 80 0 0 flagAck [65]), .recv 10] s ∧
    s.returned = [65, 65] ∧ ¬s.returned <+: [65, 66] :=
  Run.exists_reach (by decide +kernel)

end Alos.Tcp
