import Alos.Tcp.Send

/-!
# 一つの packet の効果

`tcp_handle_packet` が触るのは、見つけた slot と、SYN が新しく取る slot だけである。接続の状態ごとに、socket の欄と出る
ack の番号がどうなるかを一度だけ調べておく。
-/

namespace Alos.Tcp

open List

open Net (Ip Env)

/-! ## 表の slot -/

section Table

variable {t : TcpTable} {i j : Nat} {f : TcpSocket → TcpSocket}

@[simp] theorem TcpTable.getElem?_update_self :
    (t.update i f).sockets[i]? = (t.sockets[i]?).map f := by
  simp [TcpTable.update]

theorem TcpTable.getElem?_update_of_ne (h : i ≠ j) :
    (t.update i f).sockets[j]? = t.sockets[j]? := by
  simp [TcpTable.update, h]

@[simp] theorem TcpTable.length_update : (t.update i f).sockets.length = t.sockets.length := by
  simp [TcpTable.update]

/-- 述語の値を変えない書換えは、見つかる slot を変えない。 -/
theorem findIdx?_update {p : TcpSocket → Bool}
    (h : ∀ sock, t.sockets[i]? = some sock → p (f sock) = p sock) :
    (t.update i f).sockets.findIdx? p = t.sockets.findIdx? p := by
  have hmap : ∀ l : List _, l.findIdx? p = (l.map p).findIdx? id := by
    intro l
    rw [findIdx?_map]
    rfl
  rw [hmap, hmap]
  congr 1
  refine ext_getElem? fun k => ?_
  rw [getElem?_map, getElem?_map]
  by_cases hk : i = k
  · subst hk
    rw [TcpTable.getElem?_update_self]
    cases hsock : t.sockets[i]? with
    | none => rfl
    | some sock => simp only [Option.map_some, h sock hsock]
  · rw [TcpTable.getElem?_update_of_ne hk]

/-- 見つかった slot の socket は、述語を満たす。 -/
theorem findIdx?_getElem? {p : TcpSocket → Bool} {sock : TcpSocket}
    (h : t.sockets.findIdx? p = some i) (hsock : t.sockets[i]? = some sock) : p sock = true := by
  obtain ⟨hlt, hp, -⟩ := findIdx?_eq_some_iff_getElem.mp h
  rw [getElem?_eq_getElem hlt] at hsock
  rwa [Option.some.inj hsock] at hp

theorem tcpFindSocket_remoteIp {localPort remotePort : UInt16} {remoteIp : Ip} {sock : TcpSocket}
    (h : tcpFindSocket t localPort remoteIp remotePort = some i)
      (hsock : t.sockets[i]? = some sock) :
    sock.remoteIp = remoteIp := by
  have hp := findIdx?_getElem? h hsock
  simp only [Bool.and_eq_true, beq_iff_eq] at hp
  exact hp.2

end Table

/-! ## 相手の packet が届く socket -/

section Reaching

variable {env : Env} {t : TcpTable} {srcIp : Ip} {data : List UInt8} {i : Nat} {sock : TcpSocket}

/-- 番地の合う socket が接続中なら、その socket だけが packet を受ける。 -/
theorem handlePacket_connection (env : Env) (hlen : tcpHeaderSize ≤ data.length)
    (hfind : tcpFindSocket t (Packet.parse data).destPort srcIp
      (Packet.parse data).srcPort = some i)
    (hsock : t.sockets[i]? = some sock) (hstate : sock.state ≠ .listen) :
    ∃ listener, tcpHandlePacket env t srcIp data =
      (t.update i fun _ => (connectionInput env i listener sock (Packet.parse data)).1,
        (connectionInput env i listener sock (Packet.parse data)).2) := by
  refine ⟨tcpFindListeningSocket t sock.localPort, ?_⟩
  simp only [tcpHandlePacket, if_neg (Nat.not_lt.mpr hlen), tcpLookup, hfind, hsock, if_neg hstate]

/-- SYN でない packet は、見つけた一つの socket しか触らない。 -/
theorem handlePacket_of_not_syn
    (hsyn : (Packet.parse data).has flagSyn = false) : (tcpHandlePacket env t srcIp data).1 = t ∨
    ∃ i sock listener, t.sockets[i]? = some sock ∧ sock.state ≠ .listen ∧
      (tcpHandlePacket env t srcIp data).1 =
        t.update i fun _ => (connectionInput env i listener sock (Packet.parse data)).1 := by
  unfold tcpHandlePacket
  split
  · exact .inl rfl
  dsimp only
  split
  · split <;> exact .inl rfl
  rename_i i hi
  split
  · exact .inl rfl
  · rename_i sock hsock
    split
    · rw [listenInput, if_neg (by simp [hsyn])]
      exact .inl rfl
    · rename_i hstate
      exact .inr ⟨i, sock, _, hsock, hstate, rfl⟩

end Reaching

/-! ## ESTABLISHED -/

section Established

variable (env : Env) (slot : Nat) (sock : TcpSocket) (pkt : Packet)

/-- 送れるなら ack を一つ、送れないなら何も出さない。 -/
def Answer (env : Env) (sock : TcpSocket) (ack : UInt32) : List UInt32 :=
  if (env.resolve sock.remoteIp).isSome then [ack] else []

theorem acknowledge_spec :
    (∃ seq, (acknowledge env slot sock pkt).1 =
      { sock with ack := pkt.seqNum + UInt32.ofNat pkt.payload.length, seq := seq }) ∧
    acks (acknowledge env slot sock pkt).2 =
      Answer env sock (pkt.seqNum + UInt32.ofNat pkt.payload.length) := by
  refine ⟨sendPacket_sock .., ?_⟩
  simp only [acknowledge, acks_append, acks_sendPacket, acks_wake, append_nil, Answer]

theorem acknowledgeFin_spec :
    (∃ seq, (acknowledgeFin env sock pkt).1 = { sock with ack := pkt.seqNum + 1, seq := seq }) ∧
    acks (acknowledgeFin env sock pkt).2 = Answer env sock (pkt.seqNum + 1) :=
  ⟨sendPacket_sock .., acks_sendPacket ..⟩

theorem establishedData_spec :
    (∃ seq, (establishedData env slot sock pkt).1 = { sock with
      recv := sock.recv.store pkt.payload
      ack := if 0 < pkt.payload.length then pkt.seqNum +
        UInt32.ofNat pkt.payload.length else sock.ack
      seq := seq }) ∧
    acks (establishedData env slot sock pkt).2 =
      if 0 < pkt.payload.length then Answer env sock (pkt.seqNum + UInt32.ofNat pkt.payload.length)
      else [] := by
  unfold establishedData
  split
  · exact acknowledge_spec env slot _ pkt
  · have hnil : pkt.payload = [] := length_eq_zero_iff.mp (by omega)
    rw [hnil]
    exact ⟨⟨sock.seq, rfl⟩, rfl⟩

/-- FIN の部分。二つの packet が同じ ack を運ぶ。 -/
theorem establishedFin_spec (hfin : pkt.has flagFin = true) :
    (∃ seq, (establishedFin env sock pkt).1 =
      { sock with ack := pkt.seqNum + 1, state := .lastAck, seq := seq }) ∧
    acks (establishedFin env sock pkt).2 =
      Answer env sock (pkt.seqNum + 1) ++ Answer env sock (pkt.seqNum + 1) := by
  obtain ⟨⟨seq, hsock⟩, hacks⟩ := acknowledgeFin_spec env sock pkt
  obtain ⟨seq', hsock'⟩ := sendPacket_sock env _ _ []
  simp only [establishedFin, if_pos hfin]
  refine ⟨⟨seq', ?_⟩, ?_⟩
  · rw [hsock', hsock]
  · rw [acks_append, hacks, acks_sendPacket, hsock]
    rfl

theorem establishedFin_of_not (hfin : ¬pkt.has flagFin = true) :
    establishedFin env sock pkt = (sock, []) := by
  rw [establishedFin, if_neg hfin]

/-- ESTABLISHED の socket が packet を受けた後の ack と、出る ack。 -/
theorem establishedInput_acks : (establishedInput env slot sock pkt).1.ack =
      (if pkt.has flagFin then pkt.seqNum + 1
        else if 0 < pkt.payload.length then pkt.seqNum +
          UInt32.ofNat pkt.payload.length else sock.ack) ∧
    acks (establishedInput env slot sock pkt).2 =
      (if 0 < pkt.payload.length then Answer env sock (pkt.seqNum + UInt32.ofNat pkt.payload.length)
        else []) ++
      (if pkt.has flagFin then Answer env sock (pkt.seqNum + 1) ++ Answer env sock (pkt.seqNum + 1)
        else []) := by
  obtain ⟨⟨seq, hsock⟩, hacks⟩ := establishedData_spec env slot sock pkt
  have hrst : ∀ sock', (establishedRst slot sock' pkt).1.ack = sock'.ack ∧
      acks (establishedRst slot sock' pkt).2 = [] := by
    intro sock'
    unfold establishedRst
    split <;> exact ⟨rfl, rfl⟩
  simp only [establishedInput, acks_append, (hrst _).1, (hrst _).2, append_nil, hacks]
  by_cases hfin : pkt.has flagFin = true
  · obtain ⟨⟨seq', hsock'⟩, hacks'⟩ := establishedFin_spec env _ pkt hfin
    rw [hsock', hacks', hsock]
    simp only [hfin, if_true]
    exact ⟨trivial, rfl⟩
  · rw [establishedFin_of_not _ _ _ hfin, hsock]
    simp only [hfin, Bool.false_eq_true, if_false, acks_nil, and_self]

/-- RST の無い packet が ESTABLISHED の socket にすること。 -/
theorem establishedInput_sock (hrst : pkt.has flagRst = false) :
    ∃ ack seq, (establishedInput env slot sock pkt).1 = { sock with
      recv := sock.recv.store pkt.payload
      state := if pkt.has flagFin then .lastAck else sock.state
      ack := ack
      seq := seq } := by
  obtain ⟨⟨seq, hsock⟩, -⟩ := establishedData_spec env slot sock pkt
  simp only [establishedInput, establishedRst, hrst, Bool.false_eq_true, if_false]
  by_cases hfin : pkt.has flagFin = true
  · obtain ⟨⟨seq', hsock'⟩, -⟩ := establishedFin_spec env _ pkt hfin
    rw [hsock', hsock]
    simp only [hfin, if_true]
    exact ⟨_, _, rfl⟩
  · rw [establishedFin_of_not _ _ _ hfin, hsock]
    simp only [hfin, Bool.false_eq_true, if_false]
    exact ⟨_, _, rfl⟩

end Established

end Alos.Tcp
