import Alos.Tcp.Input

/-!
# socket の system call（`kernel/syscall.c`）

file descriptor は `tcp_socket_t` の番地を持つ。表の中の位置から番地を作り、使うたびに今の表の位置に戻す。表が移った
後の古い番地は戻せないので、それを使う呼出しは `none` になる。

`sys_accept` は待つことがあるので、待つ前と起こされた後の二つの手に分ける。
-/

namespace Alos.Socket

open Net (Ip Env)
open Tcp

/-! ## 型 -/

def socketSize : Nat := 4208

/-- 表の `i` 番目の socket の番地。 -/
def address (t : TcpTable) (i : Nat) : Nat := t.base + i * socketSize

/-- 番地が今の表の socket を指せば、その位置。 -/
def slotOf (t : TcpTable) (ptr : Nat) : Option Nat :=
  if t.base ≤ ptr ∧ (ptr - t.base) % socketSize = 0 ∧
    (ptr - t.base) / socketSize < t.sockets.length then
    some ((ptr - t.base) / socketSize)
  else none

/-- `file_descriptor_t` の `type` と、socket ならその番地。 -/
inductive Fd where
  | none
  | console
  | file
  | socket (ptr : Nat)
  deriving DecidableEq, Repr

def maxFd : Nat := 32

/--
socket の表、`fd_table`、`g_server_socket` とその仲間。

`accepting` は、`sys_accept` で待っている thread の `listen_sock` である。その下は記録である。SYN が取った slot の接続に
`started` の順の番号 `conn` を与え、`sys_accept` が返した接続の番号を `accepted` に並べる。`ended` は、終わった接続のまま
空けられていない slot を言う。
-/
structure Sys where
  tcp : TcpTable
  fds : List Fd
  serverSocket : Option Nat
  serverFd : Int
  serverClosing : Bool
  accepting : List Nat
  conn : Nat → Nat
  started : Nat
  accepted : List Nat
  ended : Nat → Bool

/-- 起動したところ。0、1、2 は console である。 -/
def Sys.boot (env : Env) : Sys where
  tcp := tcpInit env
  fds := [.console, .console, .console] ++ List.replicate (maxFd - 3) .none
  serverSocket := .none
  serverFd := -1
  serverClosing := false
  accepting := []
  conn _ := 0
  started := 0
  accepted := []
  ended _ := false

/-! ## descriptor -/

/-- 範囲の外の番号は、使われていない descriptor と同じに扱われる。 -/
def Sys.fd (s : Sys) (fd : Int) : Fd :=
  if fd < 0 then .none else (s.fds[fd.toNat]?).getD .none

/-- 3 以上の、空いている最初の descriptor。 -/
def fdAlloc (fds : List Fd) : Option Nat := ((fds.drop 3).findIdx? (· = .none)).map (· + 3)

def Sys.setFd (s : Sys) (fd : Nat) (v : Fd) : Sys := { s with fds := s.fds.set fd v }

/-- slot を閉じる。 -/
def Sys.closeSlot (s : Sys) (env : Env) (slot : Nat) : Sys :=
  { s with tcp := (tcpClose env s.tcp slot).1, ended := Function.update s.ended slot false }

/-! ## packet -/

/-- SYN が新しく取る slot。 -/
def synSlot (env : Env) (t : TcpTable) (srcIp : Ip) (data : List UInt8) : Option Nat :=
  if data.length < tcpHeaderSize ∨ ¬(Packet.parse data).has flagSyn then none
  else
    match (tcpLookup t srcIp (Packet.parse data)).bind (t.sockets[·]?) with
    | some sock => if sock.state = .listen then (tcpAllocSocket env t).1 else none
    | none => none

/-- SYN_RCVD か ESTABLISHED での RST と、LAST_ACK での ACK は、接続を終える。 -/
def Ends (state : TcpState) (pkt : Packet) : Prop :=
  (state = .synRcvd ∨ state = .established) ∧ pkt.has flagRst = true ∨
    state = .lastAck ∧ pkt.has flagAck = true
  deriving Decidable

/-- packet が終える接続の slot。 -/
def endedSlot (t : TcpTable) (srcIp : Ip) (data : List UInt8) : Option Nat :=
  if data.length < tcpHeaderSize then none
  else (tcpLookup t srcIp (Packet.parse data)).filter fun i =>
    (t.sockets[i]?).any fun sock => decide (Ends sock.state (Packet.parse data))

/-- packet が届く。 -/
def Sys.receive (s : Sys) (env : Env) (srcIp : Ip) (data : List UInt8) : Sys :=
  let s' := { s with tcp := (tcpHandlePacket env s.tcp srcIp data).1 }
  match synSlot env s.tcp srcIp data with
  | some i => { s' with conn := Function.update s.conn i s.started, started := s.started + 1 }
  | none =>
    match endedSlot s.tcp srcIp data with
    | some i => { s' with ended := Function.update s.ended i true }
    | none => s'

/-! ## system call -/

def afInet : Int := 2

def sockStream : Int := 1

def sysSocket (env : Env) (s : Sys) (domain type : Int) : Int × Sys :=
  if domain ≠ afInet ∨ type ≠ sockStream then (-1, s)
  else
    match tcpSocketCreate env s.tcp with
    | (none, t) => (-1, { s with tcp := t })
    | (some i, t) =>
      let s := { s with tcp := t }
      match fdAlloc s.fds with
      | none => (-1, s.closeSlot env i)
      | some fd =>
        (fd, { s.setFd fd (.socket (address t i)) with
          serverSocket := some (address t i), serverFd := fd, serverClosing := false })

def sysBind (s : Sys) (fd : Int) (port : UInt16) : Option (Int × Sys) :=
  match s.fd fd with
  | .socket ptr => (slotOf s.tcp ptr).map fun i =>
      ((tcpBind s.tcp i port).1, { s with tcp := (tcpBind s.tcp i port).2 })
  | _ => some (-1, s)

/-- bind されていれば、ほかに LISTEN の socket があるかを見ずに LISTEN にする。 -/
def sysListen (s : Sys) (fd : Int) : Option (Int × Sys) :=
  match s.fd fd with
  | .socket ptr => (slotOf s.tcp ptr).bind fun i => (s.tcp.sockets[i]?).map fun sock =>
      if sock.localPort = 0 then (-1, s)
      else (0, { s with tcp := s.tcp.update i ({ · with state := .listen }) })
  | _ => some (-1, s)

/-- 見つけた client に descriptor を与える。与えられなければ閉じる。 -/
def acceptClient (env : Env) (s : Sys) (client : Nat) : Int × Sys :=
  match fdAlloc s.fds with
  | none => (-1, s.closeSlot env client)
  | some fd =>
    (fd, { s.setFd fd (.socket (address s.tcp client)) with
      accepted := s.accepted ++ [s.conn client] })

/-- 待つ前まで。返す値が `none` なら、待っている。 -/
def sysAccept (env : Env) (s : Sys) (fd : Int) : Option (Option Int × Sys) :=
  match s.fd fd with
  | .socket ptr => (slotOf s.tcp ptr).bind fun i => (s.tcp.sockets[i]?).map fun sock =>
      if sock.state ≠ .listen then (some (-1), s)
      else
        match tcpFindReadyClient s.tcp sock.localPort with
        | some client =>
          let r := acceptClient env s client
          (some r.1, r.2)
        | none => (none, { s with accepting := ptr :: s.accepting })
  | _ => some (some (-1), s)

/-- 待っていた `sys_accept` が戻る。`gotClient` は `wait_queue_wait_timeout` の返す値である。 -/
def sysAcceptResume (env : Env) (s : Sys) (ptr : Nat) (gotClient : Bool) : Option (Int × Sys) :=
  if ptr ∉ s.accepting then none
  else
    let s := { s with accepting := s.accepting.erase ptr }
    if ¬gotClient then some (-1, s)
    else (slotOf s.tcp ptr).bind fun i => (s.tcp.sockets[i]?).map fun sock =>
      match tcpFindReadyClient s.tcp sock.localPort with
      | some client => acceptClient env s client
      | none => (-1, s)

/-- server の socket は、閉じずに LISTEN に戻して descriptor も残す。 -/
def sysClose (env : Env) (s : Sys) (fd : Int) : Option (Int × Sys) :=
  if fd < 3 ∨ s.fd fd = .none then some (-1, s)
  else if fd = s.serverFd ∧ s.serverSocket ≠ none ∧ s.serverClosing then
    (s.serverSocket.bind (slotOf s.tcp)).map fun i =>
      (0, { (s.closeSlot env i).setFd fd.toNat .none with
        serverSocket := none, serverFd := -1, serverClosing := false })
  else
    match s.fd fd with
    | .socket ptr => (slotOf s.tcp ptr).bind fun i => (s.tcp.sockets[i]?).map fun sock =>
        if s.serverSocket = some ptr then
          (0, { s with tcp := (tcpCloseAndRelisten env s.tcp i sock.localPort).1 })
        else (0, (s.closeSlot env i).setFd fd.toNat .none)
    | _ => some (0, s.setFd fd.toNat .none)

/-! ## 手 -/

inductive Op where
  | packet (env : Env) (srcIp : Ip) (data : List UInt8)
  | tcpListen (env : Env) (port : UInt16)
  | tcpSocketCreate (env : Env)
  | tcpBind (slot : Nat) (port : UInt16)
  | tcpAccept (env : Env) (slot : Nat)
  | tcpClose (env : Env) (slot : Nat)
  | socket (env : Env) (domain type : Int)
  | bind (fd : Int) (port : UInt16)
  | listen (fd : Int)
  | accept (env : Env) (fd : Int)
  | acceptResume (env : Env) (ptr : Nat) (gotClient : Bool)
  | close (env : Env) (fd : Int)

/-- kernel の中の API には、今の表の socket を渡す。 -/
def step (s : Sys) : Op → Option Sys
  | .packet env srcIp data => some (s.receive env srcIp data)
  | .tcpListen env port => some { s with tcp := (Tcp.tcpListen env s.tcp port).2 }
  | .tcpSocketCreate env => some { s with tcp := (Tcp.tcpSocketCreate env s.tcp).2 }
  | .tcpBind slot port =>
    if slot < s.tcp.sockets.length then some
      { s with tcp := (Tcp.tcpBind s.tcp slot port).2 } else none
  | .tcpAccept env slot =>
    if slot < s.tcp.sockets.length then
      some { s with
        tcp := (Tcp.tcpAccept env s.tcp slot).2
        conn := match (Tcp.tcpAccept env s.tcp slot).1 with
          | some i => Function.update s.conn i (s.conn slot)
          | none => s.conn }
    else none
  | .tcpClose env slot => if slot < s.tcp.sockets.length then some (s.closeSlot env slot) else none
  | .socket env domain type => some (sysSocket env s domain type).2
  | .bind fd port => (sysBind s fd port).map Prod.snd
  | .listen fd => (sysListen s fd).map Prod.snd
  | .accept env fd => (sysAccept env s fd).map Prod.snd
  | .acceptResume env ptr gotClient => (sysAcceptResume env s ptr gotClient).map Prod.snd
  | .close env fd => (sysClose env s fd).map Prod.snd

end Alos.Socket
