import Alos.Tcp.Stream

/-!
# ack の番号

FIN とデータは続く二つの区間で扱われ、どちらも `ack` を書いて packet を送る。FIN の区間はデータの長さを足さないので、両方を
持つ segment では ack が戻る。

* `fin_acknowledged` — 順に届いた FIN の後の ack が一つ先に進むのはデータの無いときに限り、FIN とデータを同時に持つ
  segment が無ければ、送る ack は減らない
* `fin_acknowledged_back` — 2 byte のデータと FIN を持つ segment に、`s + 2` と `s + 1` の順で ack を送る
-/

namespace Alos.Tcp

open Net (Ip Env)

variable {b : UInt32} {as : List UInt32} {listener : Option Nat}

/-! ## 2³² を法とする順序 -/

/-- 差を符号付きで読んで負でない。 -/
def NotAfter (a b : UInt32) : Prop := 0 ≤ (b - a).toInt32.toInt
  deriving Decidable

theorem notAfter_add {a : UInt32} {n : Nat} (hn : n < 2 ^ 31) :
    NotAfter a (a + UInt32.ofNat n) := by
  have hdiff : a + UInt32.ofNat n - a = UInt32.ofNat n := by
    rw [UInt32.add_comm, UInt32.add_sub_cancel]
  have hnat : (UInt32.ofNat n).toNat = n :=
    UInt32.toNat_ofNat_of_lt' (Nat.lt_trans hn (by decide))
  rw [NotAfter, hdiff, Int32.toInt, UInt32.toBitVec_toInt32, BitVec.toInt_eq_toNat_of_lt]
  · exact Int.natCast_nonneg _
  · rw [UInt32.toNat_toBitVec]
    omega

theorem notAfter_self {a : UInt32} : NotAfter a a := by
  simpa using notAfter_add (show 0 < 2 ^ 31 by decide)

theorem notAfter_succ {a : UInt32} : NotAfter a (a + 1) := notAfter_add (show 1 < 2 ^ 31 by decide)

/-- `a` から減らずに並び、`b` で終わる。 -/
inductive Rising : UInt32 → List UInt32 → UInt32 → Prop
  | nil {a : UInt32} : Rising a [] a
  | cons {a b c : UInt32} {as : List UInt32} : NotAfter a b → Rising b as c → Rising a (b :: as) c

theorem Rising.append {a c : UInt32} {bs : List UInt32} (h : Rising a as b) (h' : Rising b bs c) :
    Rising a (as ++ bs) c := by
  induction h with
  | nil => exact h'
  | cons hle _ ih => exact .cons hle (ih h')

theorem Rising.isChain {a : UInt32} (h : Rising a as b) : List.IsChain NotAfter (a :: as) := by
  induction h with
  | nil => exact .singleton _
  | cons hle _ ih => exact .cons_cons hle ih

theorem Rising.single {a : UInt32} (h : NotAfter a b) : Rising a [b] b := .cons h .nil

/-! ## 順に届く segment -/

/-- packet は slot の接続に、期待した番号で届く。 -/
structure Arrives (slot : Nat) (t : TcpTable) (srcIp : Ip) (data : List UInt8) (sock : TcpSocket) :
    Prop where
  length : tcpHeaderSize ≤ data.length
  /-- 長さは `int` である。 -/
  bounded : data.length < 2 ^ 31
  find : tcpFindSocket t (Packet.parse data).destPort srcIp (Packet.parse data).srcPort = some slot
  entry : t.sockets[slot]? = some sock
  connection : sock.state ≠ .listen
  inOrder : (Packet.parse data).seqNum = sock.ack

instance (slot : Nat) (t : TcpTable) (srcIp : Ip) (data : List UInt8) :
    Decidable (∃ sock, Arrives slot t srcIp data sock) :=
  decidable_of_iff ((tcpHeaderSize ≤ data.length ∧ data.length < 2 ^ 31 ∧
      tcpFindSocket t (Packet.parse data).destPort srcIp (Packet.parse data).srcPort = some slot) ∧
      ∃ sock ∈ t.sockets[slot]?, sock.state ≠ .listen ∧ (Packet.parse data).seqNum = sock.ack)
    (by
      constructor
      · rintro ⟨⟨hlen, hbound, hfind⟩, sock, hsock, hstate, hseq⟩
        exact ⟨sock, hlen, hbound, hfind, hsock, hstate, hseq⟩
      · rintro ⟨sock, h⟩
        exact ⟨⟨h.length, h.bounded, h.find⟩, sock, h.entry, h.connection, h.inOrder⟩)

variable {slot : Nat} {t : TcpTable} {srcIp : Ip} {data : List UInt8} {sock : TcpSocket}
  {pkt : Packet}
  {env : Env}

namespace Arrives

section

variable (h : Arrives slot t srcIp data sock)
include h

theorem payload_lt : (Packet.parse data).payload.length < 2 ^ 31 := by
  have hbounded := h.bounded
  simp only [Packet.parse, List.length_drop]
  omega

/-- 接続の socket が packet を受けた後の slot と、出る作用。 -/
theorem handlePacket : ∃ listener, (tcpHandlePacket env t srcIp data).1.sockets[slot]? =
        some (connectionInput env slot listener sock (Packet.parse data)).1 ∧
      (tcpHandlePacket env t srcIp data).2 =
        (connectionInput env slot listener sock (Packet.parse data)).2 := by
  obtain ⟨listener, he⟩ := handlePacket_connection env h.length h.find h.entry h.connection
  refine ⟨listener, ?_, ?_⟩ <;> rw [he]
  simp [h.entry]

theorem remoteIp : sock.remoteIp = srcIp :=
  tcpFindSocket_remoteIp h.find h.entry

end

end Arrives

/-- FIN を受けられる状態。 -/
def TcpState.AwaitsFin (state : TcpState) : Prop :=
  state = .established ∨ state = .finWait1 ∨ state = .finWait2

/-- そのような状態で FIN を受けると、データがあってもなくても ack は番号の次になる。 -/
theorem connectionInput_fin (hstate : sock.state.AwaitsFin) (hfin : pkt.has flagFin = true) :
    (connectionInput env slot listener sock pkt).1.ack = pkt.seqNum + 1 := by
  rcases hstate with hstate | hstate | hstate
  · simp only [connectionInput, hstate]
    rw [(establishedInput_acks env slot sock pkt).1, if_pos hfin]
  · obtain ⟨⟨seq, hsock⟩, -⟩ := acknowledgeFin_spec env sock pkt
    simp only [connectionInput, hstate, finWait1Input, hfin, if_true]
    split <;> simp only [hsock]
  · obtain ⟨⟨seq, hsock⟩, -⟩ := acknowledgeFin_spec env sock pkt
    simp only [connectionInput, hstate, finWait2Input, hfin, if_true, hsock]

theorem synRcvdInput_ack :
    (synRcvdInput env slot listener sock pkt).1.ack = sock.ack ∨
    (synRcvdInput env slot listener sock pkt).1.ack
      = pkt.seqNum + UInt32.ofNat pkt.payload.length := by
  have hack : (synRcvdAck env slot listener sock pkt).1.ack = sock.ack ∨
      (synRcvdAck env slot listener sock pkt).1.ack
        = pkt.seqNum + UInt32.ofNat pkt.payload.length := by
    unfold synRcvdAck
    dsimp only
    split
    · split
      · obtain ⟨⟨seq, hsock⟩, -⟩ := acknowledge_spec env slot _ pkt
        rw [hsock]
        exact .inr rfl
      · exact .inl rfl
    · split <;> exact .inl rfl
  unfold synRcvdInput
  split
  · exact .inl (sendPacket_ack ..)
  · dsimp only
    split <;> split <;> first | exact hack | exact .inl rfl

/-- ほかの状態では、FIN は ack に数えられない。 -/
theorem connectionInput_ack (hstate : ¬sock.state.AwaitsFin) :
    (connectionInput env slot listener sock pkt).1.ack = sock.ack ∨
    (connectionInput env slot listener sock pkt).1.ack
      = pkt.seqNum + UInt32.ofNat pkt.payload.length := by
  unfold connectionInput
  split
  · exact synRcvdInput_ack
  · rename_i he
    exact absurd (.inl he) hstate
  · rename_i he
    exact absurd (.inr (.inl he)) hstate
  · rename_i he
    exact absurd (.inr (.inr he)) hstate
  · split <;> exact .inl rfl
  · split
    · exact .inl (sendPacket_ack ..)
    · exact .inl rfl
  · split <;> exact .inl rfl
  all_goals exact .inl rfl

/-! ## 送る ack -/

section Rising

variable (hseq : pkt.seqNum = sock.ack) (hlen : pkt.payload.length < 2 ^ 31)
  (henv : (env.resolve sock.remoteIp).isSome)
include hseq henv

theorem rising_acknowledgeFin :
    Rising sock.ack (acks (acknowledgeFin env sock pkt).2) (acknowledgeFin env sock pkt).1.ack := by
  obtain ⟨⟨seq, hsock⟩, hacks⟩ := acknowledgeFin_spec env sock pkt
  rw [hsock, hacks, Answer, if_pos henv, hseq]
  exact .single notAfter_succ

theorem rising_finWait1 :
    Rising sock.ack (acks (finWait1Input env slot sock pkt).2)
      (finWait1Input env slot sock pkt).1.ack := by
  have hfin := rising_acknowledgeFin hseq henv
  unfold finWait1Input
  split
  · split
    · simpa using hfin
    · exact .nil
  · split
    · simpa using hfin
    · exact .nil

theorem rising_finWait2 :
    Rising sock.ack (acks (finWait2Input env slot sock pkt).2)
      (finWait2Input env slot sock pkt).1.ack := by
  have hfin := rising_acknowledgeFin hseq henv
  unfold finWait2Input
  split
  · simpa using hfin
  · exact .nil

include hlen

theorem rising_acknowledge {sock' : TcpSocket} (hip : sock'.remoteIp = sock.remoteIp) :
    Rising sock.ack (acks (acknowledge env slot sock' pkt).2)
      (acknowledge env slot sock' pkt).1.ack := by
  obtain ⟨⟨seq, hsock⟩, hacks⟩ := acknowledge_spec env slot _ pkt
  rw [hsock, hacks, Answer, hip, if_pos henv, hseq]
  exact .single (notAfter_add hlen)

theorem rising_synRcvdAck : Rising sock.ack (acks (synRcvdAck env slot listener sock pkt).2)
      (synRcvdAck env slot listener sock pkt).1.ack := by
  have hwoken : acks (.wake slot .state :: listener.toList.map (.wake · .accept)) = [] := by
    cases listener <;> rfl
  unfold synRcvdAck
  dsimp only
  split
  · split
    · rw [acks_append, hwoken]
      exact rising_acknowledge hseq hlen henv rfl
    · rw [hwoken]
      exact .nil
  · split
    · rw [hwoken]
      exact .nil
    · exact .nil

theorem rising_synRcvd : Rising sock.ack (acks (synRcvdInput env slot listener sock pkt).2)
      (synRcvdInput env slot listener sock pkt).1.ack := by
  have hack : Rising sock.ack
      (acks (if pkt.has flagAck then synRcvdAck env slot listener sock pkt else (sock, [])).2)
      (if pkt.has flagAck then synRcvdAck env slot listener sock pkt else (sock, [])).1.ack := by
    split
    · exact rising_synRcvdAck hseq hlen henv
    · exact .nil
  unfold synRcvdInput
  split
  · rw [acks_sendPacket, if_pos (by exact henv), sendPacket_ack]
    exact .single notAfter_self
  · dsimp only
    split
    · exact hack
    · exact hack

/-- FIN とデータの片方しか無ければ、ESTABLISHED でも減らない。 -/
theorem rising_established (hplain : pkt.has flagFin = true → pkt.payload = []) :
    Rising sock.ack (acks (establishedInput env slot sock pkt).2)
      (establishedInput env slot sock pkt).1.ack := by
  obtain ⟨hack, hacks⟩ := establishedInput_acks env slot sock pkt
  rw [hack, hacks]
  simp only [Answer, if_pos henv, hseq]
  by_cases hfin : pkt.has flagFin = true
  · simp only [hplain hfin, hfin, if_true, List.length_nil, Nat.lt_irrefl,
      if_false, List.nil_append]
    exact .cons notAfter_succ (.single notAfter_self)
  · split
    · exact .single (notAfter_add hlen)
    · exact .nil

theorem rising_connection (hplain : pkt.has flagFin = true → pkt.payload = []) :
    Rising sock.ack (acks (connectionInput env slot listener sock pkt).2)
      (connectionInput env slot listener sock pkt).1.ack := by
  unfold connectionInput
  split
  · exact rising_synRcvd hseq hlen henv
  · exact rising_established hseq hlen henv hplain
  · exact rising_finWait1 hseq henv
  · exact rising_finWait2 hseq henv
  · split <;> exact .nil
  · split
    · rw [acks_sendPacket, if_pos henv, sendPacket_ack]
      exact .single notAfter_self
    · exact .nil
  · split <;> exact .nil
  · exact .nil
  · exact .nil
  · exact .nil
  · exact .nil

end Rising

/-! ## 順に届く segment の列 -/

/-- 表と、これまでに送った ack。 -/
structure Acking where
  table : TcpTable
  sent : List UInt32

/-- 届いた segment と、そのときの環境。 -/
structure Arrival where
  env : Env
  srcIp : Ip
  data : List UInt8

def ackStep (s : Acking) (a : Arrival) : Option Acking :=
  let r := tcpHandlePacket a.env s.table a.srcIp a.data
  some ⟨r.1, s.sent ++ acks r.2⟩

/-- segment は順に届き、ack は送れる。 -/
def Ordered (slot : Nat) (s : Acking) (a : Arrival) : Prop :=
  (a.env.resolve a.srcIp).isSome ∧ ∃ sock, Arrives slot s.table a.srcIp a.data sock
  deriving Decidable

/-- さらに、FIN とデータを同時に持たない。 -/
def Plain (slot : Nat) (s : Acking) (a : Arrival) : Prop :=
  Ordered slot s a ∧ ((Packet.parse a.data).has flagFin = true → (Packet.parse a.data).payload = [])
  deriving Decidable

theorem rising_step {s s' : Acking} {a : Arrival} {first : UInt32} (ha : Plain slot s a)
    (hstep : ackStep s a = some s')
    (hs : ∃ sock, s.table.sockets[slot]? = some sock ∧ Rising first s.sent sock.ack) :
    ∃ sock, s'.table.sockets[slot]? = some sock ∧ Rising first s'.sent sock.ack := by
  obtain ⟨⟨henv, sock, harrives⟩, hplain⟩ := ha
  obtain ⟨sock₀, hentry, hrising⟩ := hs
  obtain rfl := Option.some.inj (harrives.entry.symm.trans hentry)
  obtain rfl := Option.some.inj hstep
  obtain ⟨listener, hsock, hevents⟩ := harrives.handlePacket
  refine ⟨_, hsock, hrising.append ?_⟩
  rw [hevents]
  exact rising_connection harrives.inOrder harrives.payload_lt (by rwa [harrives.remoteIp]) hplain

/--
**順に届いた FIN の後の ack が一つ先に進むのは、FIN を受けられる状態でデータの無いときに限り、FIN とデータを
同時に持つ segment が無ければ、送る ack は減らない。**

前半は、番号 `s` で `L` byte のデータと FIN を持つ一つの segment について、ack が `s + L + 1` になる条件を言う。
後半は、どの状態の接続から始めても、送った ack を順に並べると、2³² を法とする順序で減らないことを言う。
-/
theorem fin_acknowledged (slot : Nat) :
    (∀ (env : Env) (t : TcpTable) (srcIp : Ip) (data : List UInt8) (sock : TcpSocket),
      Arrives slot t srcIp data sock → (Packet.parse data).has flagFin = true →
      sock.recv.count + (Packet.parse data).payload.length ≤ tcpRecvBufferSize →
      ∃ sock', (tcpHandlePacket env t srcIp data).1.sockets[slot]? = some sock' ∧
        (sock'.ack = (Packet.parse data).seqNum +
            UInt32.ofNat (Packet.parse data).payload.length + 1 ↔
          sock.state.AwaitsFin ∧ (Packet.parse data).payload = [])) ∧
    (∀ (t : TcpTable) (sock : TcpSocket) (as : List Arrival) (s : Acking),
      t.sockets[slot]? = some sock → Run.Reach ackStep (Plain slot) ⟨t, []⟩ as s →
      List.IsChain NotAfter (sock.ack :: s.sent)) := by
  constructor
  · intro env t srcIp data sock harrives hfin hfits
    obtain ⟨listener, hsock, -⟩ := harrives.handlePacket
    refine ⟨_, hsock, ?_⟩
    have hlt := harrives.payload_lt
    have hlen : (UInt32.ofNat _).toNat = (Packet.parse data).payload.length :=
      UInt32.toNat_ofNat_of_lt' (Nat.lt_trans hlt (by decide))
    rw [UInt32.add_assoc]
    by_cases hstate : sock.state.AwaitsFin
    · rw [connectionInput_fin hstate hfin, UInt32.add_right_inj, and_iff_right hstate]
      constructor
      · intro he
        have hzero := congrArg UInt32.toNat
          ((UInt32.add_left_inj 1).mp (he.symm.trans (UInt32.zero_add 1).symm))
        rw [hlen] at hzero
        exact List.length_eq_zero_iff.mp hzero
      · intro hnil
        rw [hnil]
        rfl
    · refine iff_of_false (fun he => ?_) fun h => hstate h.1
      -- ack は番号のままか、データの分だけ進む
      have hnat : (UInt32.ofNat (Packet.parse data).payload.length + 1).toNat
          = (Packet.parse data).payload.length + 1 := by
        rw [UInt32.toNat_add, hlen]
        exact Nat.mod_eq_of_lt (Nat.lt_trans (Nat.succ_lt_succ hlt) (by decide))
      rcases connectionInput_ack hstate with h | h
      · rw [h, ← harrives.inOrder] at he
        have hzero := congrArg UInt32.toNat
          ((UInt32.add_right_inj _).mp ((UInt32.add_zero _).trans he))
        rw [hnat] at hzero
        cases hzero
      · rw [h] at he
        have hsame := congrArg UInt32.toNat ((UInt32.add_right_inj _).mp he)
        rw [hnat, hlen] at hsame
        omega
  · intro t sock as s hentry hreach
    obtain ⟨sock', -, hrising⟩ := hreach.invariant
      (P := fun s => ∃ sock', s.table.sockets[slot]? = some sock' ∧ Rising _ s.sent sock'.ack)
      ⟨sock, hentry, .nil⟩ fun s a s' hs ha hstep => rising_step ha hstep hs
    exact hrising.isChain

/-- データの無い FIN と、データの後の FIN。 -/
theorem fin_acknowledged_gateway :
    (∃ sock', (tcpHandlePacket Env.qemu (handshake Env.qemu gateway 80) gateway.ip
        (gateway.segment 80 0 0 (flagFin ||| flagAck) [])).1.sockets[1]? = some sock' ∧
      sock'.ack = 102) ∧
    ∃ s, Run.Reach ackStep (Plain 1) ⟨handshake Env.qemu gateway 80, []⟩
        [⟨Env.qemu, gateway.ip, gateway.segment 80 0 0 flagAck [65]⟩,
          ⟨Env.qemu, gateway.ip, gateway.segment 80 1 0 (flagFin ||| flagAck) []⟩] s ∧
      s.sent = [102, 103, 103] ∧ List.IsChain NotAfter (101 :: s.sent) := by
  have hsock : ((handshake Env.qemu gateway 80).sockets[1]?).map
      (fun sock => (sock.state, sock.recv.count, sock.ack)) = some (.established, 0, 101) := by
    decide +kernel
  obtain ⟨sock, hentry, he⟩ := Option.map_eq_some_iff.mp hsock
  simp only [Prod.mk.injEq] at he
  obtain ⟨hstate, hcount, hack⟩ := he
  constructor
  · obtain ⟨sock', hsock', hiff⟩ := (fin_acknowledged 1).1 _ _
      gateway.ip (gateway.segment 80 0 0 (flagFin ||| flagAck) []) sock
      ⟨by decide, by decide, by decide +kernel,
        hentry, by rw [hstate]; decide, by rw [hack]; decide⟩
      (by decide) (by rw [hcount]; decide)
    exact ⟨sock', hsock', hiff.mpr ⟨.inl hstate, by decide⟩⟩
  · refine Run.exists_reach_of (P := fun s => s.sent = [102, 103, 103]) (by decide +kernel)
      fun s hreach hsent => ⟨hsent, ?_⟩
    have hchain := (fin_acknowledged 1).2 _ sock _ s hentry hreach
    rwa [hack] at hchain

/-- **2 byte のデータと FIN を持つ segment に、`s + 2` と `s + 1` の順で ack を送る。** -/
theorem fin_acknowledged_back : ∃ s,
    Run.Reach ackStep (Ordered 1) ⟨handshake Env.qemu gateway 80, []⟩
      [⟨Env.qemu, gateway.ip, gateway.segment 80 0 0 (flagFin ||| flagAck) [65, 66]⟩] s ∧
    s.sent = [103, 102, 102] ∧ ¬List.IsChain NotAfter (101 :: s.sent) ∧
    (s.table.sockets[1]?).map TcpSocket.ack = some 102 ∧ gateway.isn + 2 + 1 = 104 :=
  Run.exists_reach (by decide +kernel)

end Alos.Tcp
