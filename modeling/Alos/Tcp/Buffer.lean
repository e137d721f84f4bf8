import Alos.Tcp.Acks

/-!
# 受信 buffer は列である

データを入れるループは二つある。ESTABLISHED のループは一杯になると止まり、SYN_RCVD のループは残りも試すが、入るものは
同じである。

* `recv_queue` — segment と `tcp_recv` をどう交ぜても、入った byte が、入った順に一度ずつ出る
-/

namespace Alos.Tcp

open List Option

variable {env : Net.Env} {pkt : Packet} {listener : Option Nat}


variable {slot : Nat} {sock : TcpSocket}

/-- 一杯の環には何も入らないので、止まらないループも同じものを入れる。 -/
theorem foldl_push {cap : Nat} {r : Ring UInt8 cap} {as : List UInt8} :
    as.foldl Ring.push r = r.store as := by
  induction as generalizing r with
  | nil => rfl
  | cons a as ih =>
    rw [foldl_cons, ih, Ring.store]
    split
    · rfl
    · rename_i hfull
      rw [Ring.push, dif_neg hfull]
      cases as with
      | nil => rfl
      | cons => rw [Ring.store, if_neg hfull]

/-- データを入れる状態の socket が、packet のデータのうち環に入れる分。 -/
def TcpSocket.stores (sock : TcpSocket) (pkt : Packet) : List UInt8 :=
  if sock.state = .established ∨ sock.state = .synRcvd ∧ pkt.has flagAck ∧
    pkt.ackNum = sock.seq then
    pkt.payload.take (tcpRecvBufferSize - sock.recv.count)
  else []

theorem sendPacket_recv {flags : UInt8} {payload : List UInt8} :
    (tcpSendPacket env sock flags payload).1.recv = sock.recv := by
  obtain ⟨seq, h⟩ := sendPacket_sock env sock flags payload
  rw [h]

theorem establishedInput_recv :
    (establishedInput env slot sock pkt).1.recv = sock.recv.store pkt.payload := by
  obtain ⟨⟨seq, hsock⟩, -⟩ := establishedData_spec env slot sock pkt
  have hfin : ∀ sock', (establishedFin env sock' pkt).1.recv = sock'.recv := by
    intro sock'
    unfold establishedFin
    split
    · simp only [acknowledgeFin, sendPacket_recv]
    · rfl
  have hrst : ∀ sock', (establishedRst slot sock' pkt).1.recv = sock'.recv := by
    intro sock'
    unfold establishedRst
    split <;> rfl
  rw [establishedInput, hrst, hfin, hsock]

theorem synRcvdInput_recv : (synRcvdInput env slot listener sock pkt).1.recv =
      if pkt.has flagAck ∧ pkt.ackNum =
        sock.seq then sock.recv.store pkt.payload else sock.recv := by
  have hack : (synRcvdAck env slot listener sock pkt).1.recv =
      if pkt.ackNum = sock.seq then sock.recv.store pkt.payload else sock.recv := by
    unfold synRcvdAck
    split
    · dsimp only
      split
      · simp only [acknowledge, sendPacket_recv, foldl_push]
      · rename_i hnone
        rw [length_eq_zero_iff.mp (Nat.eq_zero_of_not_pos hnone)]
        rfl
    · dsimp only
      split <;> rfl
  unfold synRcvdInput
  by_cases h : pkt.has flagAck = true
  · rw [if_neg fun hsyn => hsyn.2 h]
    simp only [h, true_and, if_true]
    split <;> exact hack
  · simp only [h, Bool.false_eq_true, false_and, if_false]
    split
    · rw [sendPacket_recv]
    · split <;> rfl

/-- 環の中身の末尾に、入れる分が加わる。 -/
theorem connectionInput_recv (hstate : sock.state = .synRcvd ∨ sock.state = .established) :
    (connectionInput env slot listener sock pkt).1.recv.contents = sock.recv.contents ++
      sock.stores pkt := by
  unfold TcpSocket.stores
  rcases hstate with hstate | hstate
  · simp only [connectionInput, hstate, synRcvdInput_recv, reduceCtorEq, true_and, false_or]
    split
    · rw [Ring.contents_store]
    · rw [append_nil]
  · simp only [connectionInput, hstate, establishedInput_recv, Ring.contents_store,
      true_or, if_true]

/-! ## segment と `tcp_recv` -/

/-- 表と、これまでに環に入った byte と、`tcp_recv` が返した byte。 -/
structure Buffered where
  table : TcpTable
  stored : List UInt8
  returned : List UInt8

inductive BufferOp where
  | segment (a : Arrival)
  | recv (len : Int)

def bufferStep (slot : Nat) (s : Buffered) : BufferOp → Option Buffered
  | .segment a => (s.table.sockets[slot]?).map fun sock =>
      { s with
        table := (tcpHandlePacket a.env s.table a.srcIp a.data).1
        stored := s.stored ++ sock.stores (Packet.parse a.data) }
  | .recv len => (s.table.sockets[slot]?).map fun sock =>
      { s with
        table := s.table.update slot fun _ => (tcpRecv sock len).2.2
        returned := s.returned ++ (tcpRecv sock len).2.1 }

/-- segment は、SYN_RCVD か ESTABLISHED の接続に届く。 -/
def Stores (slot : Nat) (s : Buffered) : BufferOp → Prop
  | .segment a => tcpHeaderSize ≤ a.data.length ∧
      tcpFindSocket s.table (Packet.parse a.data).destPort a.srcIp
        (Packet.parse a.data).srcPort = some slot ∧
      ∀ sock ∈ s.table.sockets[slot]?, sock.state = .synRcvd ∨ sock.state = .established
  | .recv _ => True

instance (slot : Nat) (s : Buffered) : (op : BufferOp) → Decidable (Stores slot s op)
  | .segment _ => inferInstanceAs (Decidable (_ ∧ _ ∧ ∀ sock ∈ s.table.sockets[slot]?, _))
  | .recv _ => .isTrue trivial

/-- 初めの中身 `start` に入った byte を続けたものは、返した byte に今の中身を続けたものである。 -/
def Queue (slot : Nat) (start : List UInt8) (s : Buffered) : Prop :=
  ∃ sock, s.table.sockets[slot]? = some sock ∧ s.returned ++ sock.recv.contents = start ++ s.stored

variable {s s' : Buffered}

theorem Queue.step {start : List UInt8} (h : Queue slot start s) {op : BufferOp}
    (hop : Stores slot s op)
    (hstep : bufferStep slot s op = some s') : Queue slot start s' := by
  obtain ⟨sock, hsock, hqueue⟩ := h
  cases op with
  | segment a =>
    obtain ⟨hlen, hfind, hstate⟩ := hop
    have hstate := hstate sock hsock
    rw [bufferStep, hsock] at hstep
    obtain rfl := some.inj hstep
    obtain ⟨listener, he⟩ := handlePacket_connection a.env hlen hfind hsock
      (by rcases hstate with h | h <;> simp [h])
    refine ⟨_, by rw [he, TcpTable.getElem?_update_self, hsock]; rfl, ?_⟩
    rw [connectionInput_recv hstate, ← append_assoc, hqueue, append_assoc]
  | recv len =>
    rw [bufferStep, hsock] at hstep
    obtain rfl := some.inj hstep
    refine ⟨_, by rw [TcpTable.getElem?_update_self, hsock]; rfl, ?_⟩
    rw [append_assoc, recv_contents, hqueue]

/--
**segment と `tcp_recv` をどう交ぜても、入った byte が、入った順に一度ずつ出る。**

どの socket から始めても、`recv_count` は 4096 以下で、`recv_head` は `recv_tail + recv_count` を 4096 で割った余りである。
-/
theorem recv_queue {t : TcpTable} (hentry : t.sockets[slot]? = some sock) {ops : List BufferOp}
    (hreach : Run.Reach (bufferStep slot) (Stores slot) ⟨t, [], []⟩ ops s) :
    ∃ sock', s.table.sockets[slot]? = some sock' ∧ sock'.recv.count ≤ 4096 ∧
      sock'.recv.head = (sock'.recv.tail + sock'.recv.count) % 4096 ∧
      s.returned ++ sock'.recv.contents = sock.recv.contents ++ s.stored := by
  obtain ⟨sock', hsock', hqueue⟩ := hreach.invariant (P := Queue slot sock.recv.contents)
    ⟨sock, hentry, by simp⟩ fun s op s' hs hop hstep => hs.step hop hstep
  exact ⟨sock', hsock', sock'.recv.count_le, sock'.recv.head_eq, hqueue⟩

/-- 二つの segment の間で 1 byte を読む。 -/
theorem recv_queue_pair : ∃ s, Run.Reach (bufferStep 1) (Stores 1)
    ⟨handshake Net.Env.qemu gateway 80, [], []⟩
      [.segment ⟨Net.Env.qemu, gateway.ip, gateway.segment 80 0 0 flagAck [65, 66]⟩, .recv 1,
        .segment ⟨Net.Env.qemu, gateway.ip, gateway.segment 80 2 0 flagAck [67]⟩] s ∧
    s.returned = [65] ∧ ∃ sock, s.table.sockets[1]? = some sock ∧
      [65] ++ sock.recv.contents = [65, 66, 67] := by
  obtain ⟨sock, hconn, hempty⟩ := handshake_connected
  refine Run.exists_reach_of (P := fun s => s.returned = [65] ∧ s.stored = [65, 66, 67])
    (by decide +kernel)
    fun s hreach ⟨hreturned, hstored⟩ => ⟨hreturned, ?_⟩
  obtain ⟨sock', hsock', -, -, hqueue⟩ := recv_queue hconn.entry hreach
  exact ⟨sock', hsock', by rwa [hreturned, hstored, hempty] at hqueue⟩

end Alos.Tcp
