import Alos.Lib.Run
import Alos.Socket.Slots
import Alos.Tcp.Acks

/-!
# 接続の始まり

受ける側は、SYN の再送に `seq` を一つ戻してから SYN+ACK を送り直すが、送れなければ `seq` は戻ったままになる。始める側は
SYN_SENT で待つが、`tcp_handle_packet` に SYN_SENT の case は無い。

* `syn_ack_repeated` — 一度送れた後は毎回送れるなら、SYN+ACK の番号はどれも同じである
* `connect_never` — 返事が来ても SYN_SENT のままで、`tcp_connect_timeout` はいつも NULL を返す
-/

namespace Alos.Socket

open Net (Ip Env)
open Tcp

variable {env : Env} {t : TcpTable} {srcIp : Ip} {data : List UInt8} {slot : Nat} {sock : TcpSocket}
  {s : Acking} {a : Arrival}

/-! ## SYN+ACK の再送 -/

/-- 出た SYN+ACK の番号。 -/
def synAcks (events : List Event) : List UInt32 :=
  events.filterMap fun
    | .ipv4 _ _ _ payload =>
      let pkt := Packet.parse payload
      if pkt.has flagSyn ∧ pkt.has flagAck then some pkt.seqNum else none
    | .arpRequest _ | .wake .. => none

theorem send_synAck (env : Env) (sock : TcpSocket) :
    let r := tcpSendPacket env sock (flagSyn ||| flagAck) []
    if (env.resolve sock.remoteIp).isSome then
      r.1 = { sock with seq := sock.seq + 1 } ∧ synAcks r.2 = [sock.seq]
    else r.1 = sock ∧ synAcks r.2 = [] := by
  split
  · rename_i hsome
    obtain ⟨mac, hmac⟩ := Option.isSome_iff_exists.mp hsome
    rw [sendPacket_of_resolve (Nat.zero_le _) hmac]
    refine ⟨rfl, ?_⟩
    have hflags : ∀ flag ∈ [flagSyn, flagAck], ((flagSyn ||| flagAck) &&& 0x3F) &&&
      flag ≠ 0 := by decide +kernel
    simp [synAcks, parse_tcpSegment, Packet.has, hflags]
  · rename_i hnone
    obtain ⟨hsame, hevents⟩ := @sendPacket_of_not _ _ _ [] fun h => hnone h.2
    refine ⟨hsame, List.filterMap_eq_nil_iff.mpr fun event he => ?_⟩
    obtain ⟨ip, rfl⟩ := hevents _ he
    rfl

/-- packet を受ける。`sent` は、これまでに送った SYN+ACK の番号である。 -/
def openStep (s : Acking) (a : Arrival) : Acking :=
  let r := tcpHandlePacket a.env s.table a.srcIp a.data
  ⟨r.1, s.sent ++ synAcks r.2⟩

/-- slot の接続に宛てた packet。 -/
def Meant (slot : Nat) (t : TcpTable) (a : Arrival) : Prop :=
  tcpHeaderSize ≤ a.data.length ∧
    tcpFindSocket t (Packet.parse a.data).destPort a.srcIp (Packet.parse a.data).srcPort = some slot
  deriving Decidable

/-- SYN の再送。 -/
def Resent (slot : Nat) (s : Acking) (a : Arrival) : Prop :=
  Meant slot s.table a ∧ (Packet.parse a.data).has flagSyn ∧ ¬(Packet.parse a.data).has flagAck
  deriving Decidable

/-- SYN+ACK を送ったことがあれば、今度も送れる。 -/
def Resolved (slot : Nat) (s : Acking) (a : Arrival) : Prop :=
  Resent slot s a ∧ (s.sent ≠ [] → (a.env.resolve a.srcIp).isSome)
  deriving Decidable

/-- SYN_RCVD の socket の `seq` は、送った番号の次である。 -/
def HalfOpen (slot : Nat) (s : Acking) : Prop :=
  ∃ sock, s.table.sockets[slot]? = some sock ∧ sock.state = .synRcvd ∧
    ∀ n ∈ s.sent, sock.seq = n + 1

theorem HalfOpen.first (h : synSlot a.env t a.srcIp a.data = some slot) :
    HalfOpen slot (openStep ⟨t, []⟩ a) := by
  obtain ⟨hplain, h⟩ := Option.ite_none_left_eq_some.mp h
  obtain ⟨hlen, hsyn⟩ := not_or.mp hplain
  split at h
  · rename_i listener hfound
    obtain ⟨i, hlook, hlistener⟩ := Option.bind_eq_some_iff.mp hfound
    obtain ⟨hstate, halloc⟩ := Option.ite_none_right_eq_some.mp h
    rcases alloc_spec with he | ⟨t₁, j, old, -, hold, -, he⟩
    · rw [he] at halloc
      cases halloc
    rw [he] at halloc
    obtain rfl := Option.some.inj halloc
    have hclient : (install t₁ j { old with inUse := true }).sockets[j]? =
        some { old with inUse := true } := by simp [install, hold]
    have hsend := send_synAck a.env
      ({ old with inUse := true }.answer a.env listener.localPort a.srcIp (Packet.parse a.data))
    simp only [HalfOpen, openStep, tcpHandlePacket, if_neg hlen, hlook, hlistener, hstate, if_true,
      listenInput, if_pos (not_not.mp hsyn), he, hclient, TcpTable.getElem?_update_self]
    refine ⟨_, rfl, by simp [TcpSocket.answer], ?_⟩
    split at hsend
    · simp [hsend.1, hsend.2]
    · simp [hsend.2]
  · cases h

theorem HalfOpen.step (h : HalfOpen slot s) (ha : Resolved slot s a) :
    HalfOpen slot (openStep s a) := by
  obtain ⟨sock, hsock, hstate, hseq⟩ := h
  obtain ⟨⟨⟨hlen, hfind⟩, hsyn⟩, hresolve⟩ := ha
  obtain ⟨listener, he⟩ := handlePacket_connection _ hlen hfind hsock (by rw [hstate]; decide)
  rw [connectionInput, hstate, synRcvdInput, if_pos hsyn] at he
  have hsend := send_synAck a.env { sock with seq := sock.seq - 1 }
  rw [HalfOpen, openStep, he, TcpTable.getElem?_update_self, hsock]
  refine ⟨_, rfl, by simpa using hstate, ?_⟩
  split at hsend
  · simpa [hsend.1, hsend.2, or_imp, forall_and] using hseq
  · rename_i hnone
    rw [tcpFindSocket_remoteIp hfind hsock] at hnone
    simp [hsend.2, not_not.mp (mt hresolve hnone)]

/-- 番号 `n` の SYN+ACK への ACK。 -/
def Confirms (slot : Nat) (n : UInt32) (s : Acking) (a : Arrival) : Prop :=
  let pkt := Packet.parse a.data
  Meant slot s.table a ∧ pkt.has flagAck ∧ ¬pkt.has flagRst ∧ pkt.ackNum = n + 1

theorem HalfOpen.confirmed (h : HalfOpen slot s) {n : UInt32} (hn : n ∈ s.sent)
    (ha : Confirms slot n s a) :
    ((openStep s a).table.sockets[slot]?).map TcpSocket.state = some .established := by
  obtain ⟨sock, hsock, hstate, hseq⟩ := h
  obtain ⟨⟨hlen, hfind⟩, hack, hrst, hnum⟩ := ha
  obtain ⟨listener, he⟩ := handlePacket_connection _ hlen hfind hsock (by rw [hstate]; decide)
  rw [openStep, he, TcpTable.getElem?_update_self, hsock, connectionInput, hstate, synRcvdInput,
    if_neg fun h => h.2 hack, if_pos hack, if_neg hrst, synRcvdAck,
      if_pos (hnum.trans (hseq n hn).symm)]
  dsimp only
  split
  · simp [acknowledge]
  · rfl

/--
**一度送れた後は毎回送れるなら、SYN+ACK の番号はどれも同じである。**

socket の `seq` はその次の番号であり、それを ack する packet で ESTABLISHED になる。
-/
theorem syn_ack_repeated {first : Arrival}
    (hfirst : synSlot first.env t first.srcIp first.data = some slot)
    {as : List Arrival} (hreach : Run.Reach (fun s a => some (openStep s a)) (Resolved slot)
      (openStep ⟨t, []⟩ first) as s) :
    (∀ n ∈ s.sent, ∀ m ∈ s.sent, n = m) ∧
    (∃ sock, s.table.sockets[slot]? = some sock ∧ sock.state = .synRcvd ∧
      ∀ n ∈ s.sent, sock.seq = n + 1) ∧
    ∀ n ∈ s.sent, ∀ a, Confirms slot n s a →
      ((openStep s a).table.sockets[slot]?).map TcpSocket.state = some .established := by
  have hopen : HalfOpen slot s := hreach.invariant (HalfOpen.first hfirst) fun s a s' hs ha hstep =>
    Option.some.inj hstep ▸ hs.step ha
  refine ⟨fun n hn m hm => ?_, hopen, fun n hn a => hopen.confirmed hn⟩
  obtain ⟨sock, -, -, hseq⟩ := hopen
  exact (UInt32.add_left_inj 1).mp ((hseq n hn).symm.trans (hseq m hm))

/-- 10.0.2.2 からの segment が、ARP の cache が `cache` のときに届く。 -/
def fromGateway (cache : List Net.ArpCacheEntry) (ackNum : UInt32) (flags : UInt8) : Arrival :=
  ⟨{ Env.qemu with arpCache := cache }, gateway.ip, gateway.segment 80 0 ackNum flags []⟩

/-- 起動した表で port 80 を開いたところに、SYN が届く。 -/
def firstSyn (cache : List Net.ArpCacheEntry) : Acking :=
  openStep ⟨(tcpListen Env.qemu (tcpInit Env.qemu) 80).2, []⟩ (fromGateway cache 0 flagSyn)

/-- 最初の SYN+ACK が送れず、再送の SYN で二つ送る。 -/
theorem syn_ack_repeated_late : ∃ s,
    Run.Reach (fun s a => some (openStep s a)) (Resolved 1) (firstSyn [])
      [fromGateway Env.qemu.arpCache 0 flagSyn, fromGateway Env.qemu.arpCache 0 flagSyn] s ∧
    s.sent = [86414, 86414] ∧ ∀ n ∈ s.sent, ∀ m ∈ s.sent, n = m :=
  Run.exists_reach_of (P := fun s => s.sent = [86414, 86414]) (by decide +kernel)
    fun s hreach hsent => ⟨hsent, (@syn_ack_repeated _ _ _ _ (by decide +kernel) _ hreach).1⟩

/-- **送り直せない SYN が二つ続くと、送った SYN+ACK への ACK は捨てられ、次の SYN+ACK の番号は二つ小さい。** -/
theorem syn_ack_drifts : ∃ s,
    Run.Reach (fun s a => some (openStep s a)) (Resent 1) (firstSyn Env.qemu.arpCache)
      [fromGateway [] 0 flagSyn, fromGateway [] 0 flagSyn] s ∧
    s.sent = [86415] ∧ (openStep s (fromGateway Env.qemu.arpCache 0 flagSyn)).sent =
      [86415, 86413] ∧
    ((openStep s (fromGateway [] 86416 flagAck)).table.sockets[1]?).map TcpSocket.state =
      some .synRcvd :=
  Run.exists_reach (by decide +kernel)

/-! ## `tcp_connect_timeout` -/

/-- SYN を送るところまで。`localPort` は、呼ぶたびに進む static 変数の値である。 -/
def connectSyn (env : Env) (t : TcpTable) (localPort : UInt16) (ip : Ip) (port : UInt16) :
    Option Nat × TcpTable × List Event :=
  match tcpSocketCreate env t with
  | (none, t) => (none, t, [])
  | (some slot, t) =>
    match tcpBind t slot localPort with
    | (0, t) =>
      match t.sockets[slot]? with
      | none => (none, t, [])
      | some sock =>
        let r := tcpSendPacket env
          { sock with remoteIp := ip, remotePort := port, state := .synSent, seq := 1000 } flagSyn
            []
        (some slot, t.update slot fun _ => r.1, r.2)
    | _ => (none, tcpClose env t slot)

/-- packet の列を受ける。 -/
def receiveAll (t : TcpTable) (as : List Arrival) : TcpTable :=
  as.foldl (fun t a => (tcpHandlePacket a.env t a.srcIp a.data).1) t

/--
状態を見ながら待つ。`rounds` は、一回の `thread_sleep_ms(10)` の間に届く packet である。

表が広がると `sock` は解放した表を指すが、そこには広がる前の状態が残る。
-/
def connectWait (t : TcpTable) (slot : Nat) (rounds : List (List Arrival)) : Option Nat :=
  let state := (t.sockets[slot]?).map TcpSocket.state
  match rounds with
  | [] => if state = some .established then some slot else none
  | as :: rounds =>
    if state = some .established then some slot
    else
      let t := receiveAll t as
      if (t.sockets[slot]?).map TcpSocket.state =
        some .closed then none else connectWait t slot rounds

/-- 返す socket。失敗したときに閉じることは、返す値に関わらない。 -/
def tcpConnectTimeout (env : Env) (t : TcpTable) (localPort : UInt16) (ip : Ip) (port : UInt16)
    (timeoutMs : Nat) (arrivals : Nat → List Arrival) : Option Nat :=
  match connectSyn env t localPort ip port with
  | (none, _) => none
  | (some slot, t, _) => connectWait t slot ((List.range ((timeoutMs + 9) / 10)).map arrivals)

/-- slot は SYN_SENT の socket が使っている。 -/
def Waiting (slot : Nat) (t : TcpTable) : Prop :=
  ∃ sock, t.sockets[slot]? = some sock ∧ sock.inUse = true ∧ sock.state = .synSent

/-- どの packet も、SYN_SENT の socket を変えない。 -/
theorem Waiting.handlePacket (h : Waiting slot t) (env : Env) (srcIp : Ip) (data : List UInt8) :
    Waiting slot (tcpHandlePacket env t srcIp data).1 := by
  obtain ⟨sock, hsock, huse, hstate⟩ := h
  suffices (tcpHandlePacket env t _ data).1.sockets[slot]? =
    some sock from ⟨sock, this, huse, hstate⟩
  unfold tcpHandlePacket
  split
  · exact hsock
  dsimp only
  split
  · split <;> exact hsock
  rename_i i hlook
  split
  · exact hsock
  rename_i other hother
  split
  · by_cases hsyn : (Packet.parse data).has flagSyn = true
    · rcases listenInput_spec hsyn with ⟨-, he⟩ | ⟨j, new, -, hplaced, -⟩
      · rwa [he]
      · exact (hplaced.keep hsock huse).2
    · rwa [listenInput, if_neg hsyn]
  · by_cases hi : i = slot
    · subst hi
      obtain rfl := Option.some.inj (hsock.symm.trans hother)
      simp [hsock, connectionInput, hstate]
    · rwa [TcpTable.getElem?_update_of_ne hi]

theorem Waiting.receiveAll (h : Waiting slot t) (as : List Arrival) :
    Waiting slot (receiveAll t as) :=
  List.foldlRecOn as _ h fun _ ht a _ => ht.handlePacket _ _ a.data

theorem Waiting.connectWait (h : Waiting slot t) {rounds : List (List Arrival)} :
    connectWait t slot rounds = none := by
  have hstate {t : TcpTable} (h : Waiting slot t) : (t.sockets[slot]?).map TcpSocket.state =
    some .synSent := by
    obtain ⟨sock, hsock, -, hstate⟩ := h
    rw [hsock, Option.map_some, hstate]
  induction rounds generalizing t with
  | nil => simp [Socket.connectWait, hstate h]
  | cons as rounds ih =>
    simp [Socket.connectWait, hstate h, hstate (h.receiveAll as), ih (h.receiveAll as)]

theorem connectSyn_waiting {localPort port : UInt16} {ip : Ip} {t₁ : TcpTable} {events : List Event}
    (h : connectSyn env t localPort ip port = (some slot, t₁, events)) : Waiting slot t₁ := by
  unfold connectSyn at h
  rcases socketCreate_spec env t with he | ⟨i, r, new, he, hplaced, -⟩
  · simp [he] at h
  simp only [he] at h
  split at h
  · rename_i t₂ hbind
    have huse : ∀ sock, t₂.sockets[i]? = some sock → sock.inUse = true := by
      intro sock hsock
      rw [tcpBind] at hbind
      split at hbind
      · cases hbind
      · rw [← (Prod.mk.inj hbind).2, TcpTable.getElem?_update_self, hplaced.getElem?_self] at hsock
        obtain rfl := Option.some.inj hsock
        exact hplaced.inUse
    split at h
    · cases h
    · rename_i sock hsock
      simp only [Prod.mk.injEq, Option.some.injEq] at h
      obtain ⟨rfl, rfl, -⟩ := h
      exact ⟨_, by rw [TcpTable.getElem?_update_self, hsock]; rfl,
        by simpa using huse sock hsock, by simp⟩
  · cases h

/--
**返事が来ても SYN_SENT のままで、`tcp_connect_timeout` はいつも NULL を返す。**

SYN を送った後にどの packet がどの順に届いても、その接続に宛てた packet は socket の状態を変えず、ACK も出さない。
-/
theorem connect_never (env : Env) (t : TcpTable) (localPort : UInt16) (ip : Ip) (port : UInt16) :
    (∀ slot t₁ events, connectSyn env t localPort ip port = (some slot, t₁, events) →
      ∀ as a, Meant slot (receiveAll t₁ as) a →
        let r := tcpHandlePacket a.env (receiveAll t₁ as) a.srcIp a.data
        (r.1.sockets[slot]?).map TcpSocket.state = some .synSent ∧ r.2 = []) ∧
    ∀ timeoutMs arrivals, tcpConnectTimeout env t localPort ip port timeoutMs arrivals = none := by
  constructor
  · intro slot t₁ events hsyn as a ⟨hlen, hfind⟩
    obtain ⟨sock, hsock, -, hstate⟩ := (connectSyn_waiting hsyn).receiveAll as
    obtain ⟨listener, he⟩ := handlePacket_connection a.env hlen hfind hsock (by rw [hstate]; decide)
    simp [he, hsock, connectionInput, hstate]
  · intro timeoutMs arrivals
    unfold tcpConnectTimeout
    split
    · rfl
    · rename_i slot t₁ events hsyn
      exact (connectSyn_waiting hsyn).connectWait

/-- 10.0.2.2 の port 4000 に SYN を送る。 -/
def connectGateway : Option Nat × TcpTable × List Event :=
  connectSyn Env.qemu (tcpInit Env.qemu) 50000 gateway.ip gateway.port

/-- 番号 1000 の SYN への SYN+ACK。 -/
def gatewaySynAck : Arrival :=
  ⟨Env.qemu, gateway.ip, gateway.segment 50000 0 1001 (flagSyn ||| flagAck) []⟩

theorem connect_never_gateway : connectGateway.1 = some 0 ∧
    (tcpHandlePacket Env.qemu connectGateway.2.1 gateway.ip gatewaySynAck.data).2 = [] := by
  have hslot : connectGateway.1 = some 0 := by decide +kernel
  exact ⟨hslot, ((connect_never _ _ _ _ _).1 0 _ _ (Prod.ext hslot rfl) [] _ (by decide +kernel)).2⟩

/-- **SYN は送れ、すぐに SYN+ACK が届いても、`ack` は進まず、ACK は出ず、NULL が返る。** -/
theorem connect_unanswered :
    let r := tcpHandlePacket Env.qemu connectGateway.2.1 gateway.ip gatewaySynAck.data
    connectGateway.1 = some 0 ∧ acks connectGateway.2.2 = [0] ∧
    (r.1.sockets[0]?).map (fun sock => (sock.state, sock.ack)) = some (.synSent, 0) ∧ r.2 = [] ∧
    tcpConnectTimeout Env.qemu (tcpInit Env.qemu) 50000 gateway.ip gateway.port 20
      (fun _ => [gatewaySynAck]) = none := by
  decide +kernel

end Alos.Socket
