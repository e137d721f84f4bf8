import Alos.Tcp.Stream

/-!
# ack したデータは読めるか

ack の番号はデータの全部の長さだけ進むので、環に入らなかった分も ack される。FIN を受けた socket はすぐ LAST_ACK に移り、
`tcp_recv` は環に残ったデータを返さない。

* `acknowledged_delivered` — どの segment も入りきり、FIN がデータを持たず空の環に届くなら、ack したデータはすべて読める
* `acknowledged_lost` — 読む前に FIN が届けば、ack したデータが読めない
-/

namespace Alos.Tcp

open List
open Net (Ip Env)

variable {peer : Peer} {localPort : UInt16} {slot : Nat} {t : TcpTable} {sock : TcpSocket}
  {env : Env} {bs delivered : List UInt8} {isn : UInt32}

/-! ## 読み尽くす -/

/-- 0 が返るまで `tcp_recv` を繰り返して得る byte。 -/
inductive Drain : TcpSocket → List UInt8 → Prop
  | stop {sock : TcpSocket} {len : Int} (hlen : 0 < len) (h : (tcpRecv sock len).1 = 0) :
    Drain sock []
  | more {sock : TcpSocket} {len : Int} {rest : List UInt8} (hlen : 0 < len)
      (h : 0 < (tcpRecv sock len).1) (hrest : Drain (tcpRecv sock len).2.2 rest) :
      Drain sock ((tcpRecv sock len).2.1 ++ rest)

/-- ESTABLISHED の socket からは、環の中身が出る。 -/
theorem Drain.eq_contents (h : Drain sock bs) (hstate : sock.state = .established) :
    bs = sock.recv.contents := by
  induction h with
  | @stop sock len hlen h =>
    rw [tcpRecv_readable hstate hlen, (sock.recv.contents_take _).1] at h
    have hzero : (sock.recv.contents.take _).length = 0 := Int.ofNat_eq_zero.mp h
    rw [length_take, Nat.min_eq_zero_iff, length_eq_zero_iff] at hzero
    exact (hzero.resolve_left (by omega)).symm
  | @more sock len rest hlen h hrest ih =>
    rw [tcpRecv_readable hstate hlen] at ih ⊢
    obtain ⟨htake, hdrop⟩ := sock.recv.contents_take _
    rw [ih hstate]
    rw [htake, hdrop, take_append_drop]

theorem Drain.eq_nil (h : Drain sock bs) (hstate : sock.state = .lastAck) : bs = [] := by
  induction h with
  | stop => rfl
  | @more sock len rest hlen h hrest ih =>
    have hrecv := tcpRecv_unreadable (.inl hstate) len
    rw [hrecv] at ih ⊢
    rw [ih hstate, append_nil]

/-- 読み尽くすことはいつでもできる。 -/
theorem exists_drain (hstate : sock.state = .established ∨ sock.state = .lastAck) :
    ∃ bs, Drain sock bs := by
  rcases hstate with hstate | hstate
  · -- 一度に環の大きさだけ読めば、二度目は空である
    obtain ⟨htake, hdrop⟩ := sock.recv.contents_take _
    have hlen : (0 : Int) < (tcpRecvBufferSize : Int) := by decide
    have hall : sock.recv.contents.drop _ = [] :=
      drop_eq_nil_of_le (sock.recv.length_contents ▸ sock.recv.count_le)
    by_cases hzero : (tcpRecv sock tcpRecvBufferSize).1 = 0
    · exact ⟨[], .stop hlen hzero⟩
    · refine ⟨_, .more hlen ?_ (.stop hlen ?_)⟩
      · rw [tcpRecv_readable hstate hlen] at hzero ⊢
        omega
      · rw [tcpRecv_readable hstate hlen, tcpRecv_readable (by exact hstate) hlen]
        simp only [Int.toNat_natCast]
        rw [((sock.recv.take _).2.contents_take _).1, hdrop, hall]
        rfl
  · refine ⟨[], .stop (show (0 : Int) < 1 by decide) ?_⟩
    rw [tcpRecv, if_neg (by decide), if_pos (by simp [hstate])]

/-! ## 順に届く segment -/

/-- `delivered` は届いた segment のデータの全部、`acked` は最後に送った ack の番号である。 -/
structure Delivery where
  table : TcpTable
  returned : List UInt8
  delivered : List UInt8
  acked : UInt32
  finished : Bool

inductive DeliveryOp where
  | segment (env : Env) (data : List UInt8)
  | recv (len : Int)

def deliveryStep (peer : Peer) (slot : Nat) (s : Delivery) : DeliveryOp → Option Delivery
  | .segment env data =>
    let r := tcpHandlePacket env s.table peer.ip data
    some { s with
      table := r.1
      delivered := s.delivered ++ (Packet.parse data).payload
      acked := (acks r.2).getLastD s.acked
      finished := (Packet.parse data).has flagFin }
  | .recv len => (s.table.sockets[slot]?).map fun sock => { s with
      table := s.table.update slot fun _ => (tcpRecv sock len).2.2
      returned := s.returned ++ (tcpRecv sock len).2.1 }

/-- segment は隙間なく順に届き、FIN の後には届かない。 -/
def GapFree (peer : Peer) (localPort : UInt16) (s : Delivery) : DeliveryOp → Prop
  | .segment _ data => s.finished = false ∧ Addressed peer localPort s.delivered.length data
  | .recv _ => True

instance (peer : Peer) (localPort : UInt16) (s : Delivery) :
    (op : DeliveryOp) → Decidable (GapFree peer localPort s op)
  | .segment .. => inferInstanceAs (Decidable (_ ∧ _))
  | .recv _ => .isTrue trivial

/-- さらに、データは環に入りきり、FIN はデータを持たず空の環に届き、ack は送れる。 -/
def Kept (peer : Peer) (localPort : UInt16) (slot : Nat) (s : Delivery) (op : DeliveryOp) : Prop :=
  GapFree peer localPort s op ∧
  match op with
  | .segment env data => (env.resolve peer.ip).isSome ∧ ∀ sock ∈ s.table.sockets[slot]?,
      sock.recv.count + (Packet.parse data).payload.length ≤ tcpRecvBufferSize ∧
      ((Packet.parse data).has flagFin → (Packet.parse data).payload = [] ∧ sock.recv.count = 0)
  | .recv _ => True

instance (peer : Peer) (localPort : UInt16) (slot : Nat) (s : Delivery) :
    (op : DeliveryOp) → Decidable (Kept peer localPort slot s op)
  | .segment _ data => inferInstanceAs (Decidable (_ ∧ _ ∧ ∀ sock ∈ s.table.sockets[slot]?,
      sock.recv.count + (Packet.parse data).payload.length ≤ tcpRecvBufferSize ∧
      ((Packet.parse data).has flagFin → (Packet.parse data).payload = [] ∧ sock.recv.count = 0)))
  | .recv _ => inferInstanceAs (Decidable (_ ∧ True))

/-- 番号 `ack` の ack が覆うデータ。番号は 2³² を法とするので、届いた終わりからの差を符号付きで読む。 -/
def covered (isn : UInt32) (delivered : List UInt8) (ack : UInt32) : List UInt8 :=
  delivered.take
    ((delivered.length : Int) + (ack - (isn + UInt32.ofNat delivered.length)).toInt32.toInt).toNat

/-- 届いたデータは、読んだものと環の中身に分かれ、ack は届いた終わりを指す。 -/
inductive Delivering (peer : Peer) (localPort : UInt16) (slot : Nat) (s : Delivery) : Prop
  | opened (sock : TcpSocket) (h : Connected peer localPort slot s.table sock)
      (hdata : s.returned ++ sock.recv.contents = s.delivered)
      (hack : s.acked = peer.isn + UInt32.ofNat s.delivered.length)
  | ended (sock : TcpSocket) (h : s.table.sockets[slot]? = some sock)
    (hstate : sock.state = .lastAck)
      (hfin : s.finished = true) (hdata : s.returned = s.delivered)
      (hack : s.acked = peer.isn + UInt32.ofNat s.delivered.length + 1)

variable {s s' : Delivery}

theorem Answer_of_resolve (h : (env.resolve sock.remoteIp).isSome) {ack : UInt32} :
    Answer env sock ack = [ack] := if_pos h

/-- 相手の segment が出す ack。 -/
theorem Connected.acks_received (h : Connected peer localPort slot t sock) {off : Nat}
    {data : List UInt8} (hdata : Addressed peer localPort off data)
      (henv : (env.resolve peer.ip).isSome) :
    acks (tcpHandlePacket env t peer.ip data).2 = (if 0 < (Packet.parse data).payload.length then
        [peer.isn + UInt32.ofNat off + UInt32.ofNat (Packet.parse data).payload.length] else []) ++
      (if (Packet.parse data).has flagFin then
        [peer.isn + UInt32.ofNat off + 1, peer.isn + UInt32.ofNat off + 1] else []) := by
  have hresolve : (env.resolve sock.remoteIp).isSome := by rwa [h.remoteIp]
  obtain ⟨-, hacks⟩ := establishedInput_acks env slot sock (Packet.parse data)
  rw [h.handlePacket hdata]
  simp only [hacks, Answer_of_resolve hresolve, hdata.seqNum, cons_append, nil_append]

theorem Delivering.step (h : Delivering peer localPort slot s) {op : DeliveryOp}
    (hop : Kept peer localPort slot s op) (hstep : deliveryStep peer slot s op = some s') :
    Delivering peer localPort slot s' := by
  cases op with
  | segment env data =>
    obtain ⟨⟨hopen, haddr⟩, henv, hkept⟩ := hop
    obtain rfl := Option.some.inj hstep
    cases h with
    | opened sock h hdata hack =>
      obtain ⟨hfits, hfin⟩ := hkept sock h.entry
      obtain ⟨sock', -, hentry, hrecv, hnext⟩ := h.received haddr env
      have hacks := h.acks_received haddr henv
      have hcontents : sock'.recv.contents = sock.recv.contents ++ (Packet.parse data).payload := by
        rw [hrecv, Ring.contents_store, take_of_length_le (by omega)]
      split at hnext
      · rename_i hflag
        obtain ⟨hnil, hzero⟩ := hfin hflag
        have hempty : sock.recv.contents = [] :=
          length_eq_zero_iff.mp (by rw [Ring.length_contents, hzero])
        refine .ended _ hentry hnext hflag ?_ ?_
        · simp only [hnil, append_nil]
          rw [← hdata, hempty, append_nil]
        · simp only [hacks, hnil, hflag]
          simp
      · rename_i hflag
        refine .opened _ hnext ?_ ?_
        · rw [hcontents, ← append_assoc, hdata]
        · simp only [hacks, hflag, length_append]
          by_cases hpos : 0 < (Packet.parse data).payload.length
          · simp [hpos, UInt32.ofNat_add, UInt32.add_assoc]
          · simp [hack, show (Packet.parse data).payload.length = 0 by omega]
    | ended sock h hstate hfin hdata hack =>
      rw [hopen] at hfin
      cases hfin
  | recv len =>
    obtain ⟨sock₀, hsock, rfl⟩ := Option.map_eq_some_iff.mp hstep
    cases h with
    | opened sock h hdata hack =>
      obtain rfl := Option.some.inj (h.entry.symm.trans hsock)
      exact .opened _ (h.recv len) (by rwa [append_assoc, recv_contents]) hack
    | ended sock h hstate hfin hdata hack =>
      obtain rfl := Option.some.inj (h.symm.trans hsock)
      have hrecv := tcpRecv_unreadable (.inl hstate) len
      rw [hrecv, append_nil]
      exact .ended sock (by simp [h]) hstate hfin hdata hack

theorem covered_end : covered isn delivered (isn + UInt32.ofNat delivered.length) = delivered := by
  simp [covered]

/-- FIN の番号はデータを覆わない。 -/
theorem covered_fin :
    covered isn delivered (isn + UInt32.ofNat delivered.length + 1) = delivered := by
  have hone : (isn + UInt32.ofNat delivered.length + 1 - (isn + UInt32.ofNat delivered.length)) =
    1 := by
    rw [UInt32.add_comm, UInt32.add_sub_cancel]
  rw [covered, hone, show (1 : UInt32).toInt32.toInt = 1 by decide]
  exact take_of_length_le (by omega)

/--
**どの segment も入りきり、FIN がデータを持たず空の環に届くなら、ack したデータはすべて読める。**

最後に送った ack が覆うデータは、すでに読んだ byte に、0 が返るまで読んで得る byte を続けたものである。始めの環の中身は、
握手の ACK とともに届いて ack されたデータである。
-/
theorem acknowledged_delivered (h : Connected peer localPort slot t sock) {ops : List DeliveryOp}
    (hreach : Run.Reach (deliveryStep peer slot) (Kept peer localPort slot)
      ⟨t, [], sock.recv.contents, peer.isn + UInt32.ofNat sock.recv.contents.length, false⟩ ops s) :
    ∃ sock', s.table.sockets[slot]? = some sock' ∧ (∃ bs, Drain sock' bs) ∧
      ∀ bs, Drain sock' bs → covered peer.isn s.delivered s.acked = s.returned ++ bs := by
  have hs := hreach.invariant (P := Delivering peer _ slot) (.opened sock h rfl rfl)
    fun s op s' hs hop hstep => hs.step hop hstep
  cases hs with
  | opened sock' h hdata hack =>
    refine ⟨sock', h.entry, exists_drain (.inl h.state), fun bs hbs => ?_⟩
    rw [hack, covered_end, ← hdata, hbs.eq_contents h.state]
  | ended sock' h hstate hfin hdata hack =>
    refine ⟨sock', h, exists_drain (.inr hstate), fun bs hbs => ?_⟩
    rw [hack, covered_fin, hdata, hbs.eq_nil hstate, append_nil]

/-- データが読まれてから FIN が届く。 -/
theorem acknowledged_delivered_fin : ∃ s,
    Run.Reach (deliveryStep gateway 1) (Kept gateway 80 1)
      ⟨handshake Env.qemu gateway 80, [], [], gateway.isn, false⟩
      [.segment Env.qemu (gateway.segment 80 0 0 flagAck [65]), .recv 10,
        .segment Env.qemu (gateway.segment 80 1 0 (flagFin ||| flagAck) [])] s ∧
    s.returned = [65] ∧ s.acked = 103 ∧
    ∃ sock, s.table.sockets[1]? = some sock ∧ (∃ bs, Drain sock bs) ∧
      ∀ bs, Drain sock bs → covered gateway.isn s.delivered s.acked = s.returned ++ bs := by
  obtain ⟨sock, hsock, hempty⟩ := handshake_connected
  exact Run.exists_reach_of (P := fun s => s.returned = [65] ∧ s.acked = 103) (by decide +kernel)
    fun s hreach ⟨hreturned, hacked⟩ =>
      ⟨hreturned, hacked, acknowledged_delivered hsock (by rw [hempty]; exact hreach)⟩

/-- **読む前に FIN が届けば、ack したデータが読めない。** -/
theorem acknowledged_lost : ∃ s sock,
    Run.Reach (deliveryStep gateway 1) (GapFree gateway 80)
      ⟨handshake Env.qemu gateway 80, [], [], gateway.isn, false⟩
      [.segment Env.qemu (gateway.segment 80 0 0 flagAck [65]),
        .segment Env.qemu (gateway.segment 80 1 0 (flagFin ||| flagAck) [])] s ∧
    s.table.sockets[1]? = some sock ∧ s.returned = [] ∧
      covered gateway.isn s.delivered s.acked = [65] ∧
    Drain sock [] ∧ ∀ bs, Drain sock bs → bs = [] := by
  have hstate {sock : TcpSocket} (h : sock.state = .lastAck) : Drain sock [] ∧ ∀ bs, Drain sock bs →
    bs = [] := by
    obtain ⟨bs, hbs⟩ := exists_drain (.inr h)
    exact ⟨hbs.eq_nil h ▸ hbs, fun bs hbs => hbs.eq_nil h⟩
  refine ⟨_, _, Run.reach_get ?_, (Option.some_get ?_).symm, ?_, ?_, hstate ?_⟩
  all_goals decide +kernel

end Alos.Tcp
