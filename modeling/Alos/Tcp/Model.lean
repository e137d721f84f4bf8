import Alos.Lib.Ring
import Alos.Tcp.Header

/-!
# TCP（`net/l4/tcp.c`）

socket は表の中の位置で呼ぶ。socket の欄だけを読み書きする関数は、socket から socket への関数とし、表を探すか広げる
関数だけが表を受け取る。外に出る作用（`ipv4_send_packet`、`arp_send_request`、`wait_queue_wake_all`）は、起きた順の列で返す。

受信の packet は byte 列で受ける。長さは列の長さである。
-/

namespace Alos.Tcp

open Net (Ip Mac Env)

/-! ## 型 -/

inductive TcpState where
  | closed
  | listen
  | synSent
  | synRcvd
  | established
  | finWait1
  | finWait2
  | closeWait
  | closing
  | lastAck
  | timeWait
  deriving DecidableEq, Repr

def tcpRecvBufferSize : Nat := 4096

/-- `tcp_socket_t`。`recv` は `recv_buffer`、`recv_head`、`recv_tail`、`recv_count` である。 -/
structure TcpSocket where
  state : TcpState
  inUse : Bool
  localPort : UInt16
  remotePort : UInt16
  remoteIp : Ip
  seq : UInt32
  ack : UInt32
  window : UInt16
  flags : UInt8
  recv : Ring UInt8 tcpRecvBufferSize

/-- socket の三つの待ち行列。 -/
inductive WaitQueue where
  | state
  | recv
  | accept
  deriving DecidableEq, Repr

/-- 外に出る作用。 -/
inductive Event where
  | ipv4 (destMac : Mac) (destIp : Ip) (protocol : UInt8) (payload : List UInt8)
  | arpRequest (ip : Ip)
  | wake (slot : Nat) (queue : WaitQueue)
  deriving DecidableEq

/-- 受けた packet の、host の値に直した欄。`payload` は header の長さより後の byte である。 -/
structure Packet where
  srcPort : UInt16
  destPort : UInt16
  seqNum : UInt32
  ackNum : UInt32
  flags : UInt8
  payload : List UInt8
  deriving DecidableEq

def Packet.parse (data : List UInt8) : Packet :=
  let tcp := TcpHeader.parse data
  { srcPort := tcp.srcPort
    destPort := tcp.destPort
    seqNum := tcp.seqNum
    ackNum := tcp.ackNum
    flags := tcpGetFlags tcp.dataOffsetFlags
    payload := data.drop (tcpGetHeaderLen tcp.dataOffsetFlags) }

/-- flag が立っているか。 -/
def Packet.has (pkt : Packet) (flag : UInt8) : Bool := pkt.flags &&& flag != 0

/-! ## 送る -/

def ipProtoTcp : UInt8 := 6

/-- 送る packet の buffer。 -/
def tcpSegment (env : Env) (sock : TcpSocket) (flags : UInt8) (payload : List UInt8) : List UInt8 :=
  let tcp : TcpHeader := {
    srcPort := sock.localPort
    destPort := sock.remotePort
    seqNum := sock.seq
    ackNum := sock.ack
    dataOffsetFlags := tcpMakeDataOffsetFlags tcpHeaderSize flags
    windowSize := sock.window
    checksum := 0
    urgentPtr := 0 }
  { tcp with checksum := tcpChecksum env.sourceIp sock.remoteIp tcp payload }.bytes ++ payload

/-- SYN と FIN は一つずつ、データは長さだけ番号を使う。 -/
def seqAdvance (flags : UInt8) (payload : List UInt8) : UInt32 :=
  (if flags &&& flagSyn ≠ 0 then 1 else 0) + (if flags &&& flagFin ≠ 0 then 1 else 0)
    + UInt32.ofNat payload.length

/-- 長すぎるか、経路か MAC が無ければ、何も送らずに戻る。 -/
def tcpSendPacket (env : Env) (sock : TcpSocket) (flags : UInt8) (payload : List UInt8) :
    TcpSocket × List Event :=
  if 1500 - tcpHeaderSize < payload.length then (sock, [])
  else
    match Net.routeGetNextHop env.routes sock.remoteIp with
    | none => (sock, [])
    | some nextHop =>
      match Net.arpCacheLookup env.arpCache nextHop with
      | none => (sock, [.arpRequest nextHop])
      | some destMac =>
        ({ sock with seq := sock.seq + seqAdvance flags payload },
          [.ipv4 destMac sock.remoteIp ipProtoTcp (tcpSegment env sock flags payload)])

/-- socket の無い packet に RST を返す。ARP の要求は出さない。 -/
def tcpSendRst (env : Env) (destIp : Ip) (destPort srcPort : UInt16) (seq ack : UInt32) :
    List Event :=
  let tcp : TcpHeader := {
    srcPort := srcPort
    destPort := destPort
    seqNum := seq
    ackNum := ack
    dataOffsetFlags := tcpMakeDataOffsetFlags tcpHeaderSize (flagRst ||| flagAck)
    windowSize := 0
    checksum := 0
    urgentPtr := 0 }
  match env.resolve destIp with
  | none => []
  | some destMac =>
    [.ipv4 destMac destIp ipProtoTcp
      { tcp with checksum := tcpChecksum env.sourceIp destIp tcp [] }.bytes]

/-! ## 接続している socket の受信 -/

/-- 相手を忘れて LISTEN に戻る。 -/
def TcpSocket.relisten (sock : TcpSocket) : TcpSocket :=
  { sock with state := .listen, remotePort := 0, remoteIp := Ip.zero }

/-- 受けたデータの次の番号まで ack を進めて送り、読む thread を起こす。 -/
def acknowledge (env : Env) (slot : Nat) (sock : TcpSocket) (pkt : Packet) :
    TcpSocket × List Event :=
  let r := tcpSendPacket env { sock with ack := pkt.seqNum + UInt32.ofNat pkt.payload.length }
    flagAck []
  (r.1, r.2 ++ [.wake slot .recv])

/-- FIN の次の番号を ack として送る。 -/
def acknowledgeFin (env : Env) (sock : TcpSocket) (pkt : Packet) : TcpSocket × List Event :=
  tcpSendPacket env { sock with ack := pkt.seqNum + 1 } flagAck []

/-- ACK を受けて ESTABLISHED になる。`listener` は、同じ port の LISTEN の socket である。 -/
def synRcvdAck (env : Env) (slot : Nat) (listener : Option Nat) (sock : TcpSocket) (pkt : Packet) :
    TcpSocket × List Event :=
  let woken : List Event := .wake slot .state :: listener.toList.map (.wake · .accept)
  let established := { sock with state := .established }
  if pkt.ackNum = sock.seq then
    if 0 < pkt.payload.length then
      -- ここのループは、一杯になっても止まらずに残りを試す
      let r := acknowledge env slot
        { established with recv := pkt.payload.foldl Ring.push sock.recv } pkt
      (r.1, woken ++ r.2)
    else (established, woken)
  else
    let diff := (pkt.ackNum - sock.seq).toInt32
    if -1 ≤ diff ∧ diff ≤ 1 then (established, woken) else (sock, [])

/-- `TCP_STATE_SYN_RCVD`。SYN の再送には、番号を一つ戻して SYN+ACK を送り直す。 -/
def synRcvdInput (env : Env) (slot : Nat) (listener : Option Nat) (sock : TcpSocket)
    (pkt : Packet) :
    TcpSocket × List Event :=
  if pkt.has flagSyn ∧ ¬pkt.has flagAck then
    tcpSendPacket env { sock with seq := sock.seq - 1 } (flagSyn ||| flagAck) []
  else
    let r := if pkt.has flagAck then synRcvdAck env slot listener sock pkt else (sock, [])
    if pkt.has flagRst then (r.1.relisten, r.2) else r

/-- データを環に入れる。入らない分は捨てるが、ack は全部の長さだけ進む。 -/
def establishedData (env : Env) (slot : Nat) (sock : TcpSocket) (pkt : Packet) :
    TcpSocket × List Event :=
  if 0 < pkt.payload.length then
    acknowledge env slot { sock with recv := sock.recv.store pkt.payload } pkt
  else (sock, [])

/-- FIN に ack を返し、すぐに自分の FIN も送る。 -/
def establishedFin (env : Env) (sock : TcpSocket) (pkt : Packet) : TcpSocket × List Event :=
  if pkt.has flagFin then
    let r := acknowledgeFin env sock pkt
    let r' := tcpSendPacket env { r.1 with state := .closeWait } (flagFin ||| flagAck) []
    ({ r'.1 with state := .lastAck }, r.2 ++ r'.2)
  else (sock, [])

/-- RST なら LISTEN に戻る。 -/
def establishedRst (slot : Nat) (sock : TcpSocket) (pkt : Packet) : TcpSocket × List Event :=
  if pkt.has flagRst then (sock.relisten, [.wake slot .state]) else (sock, [])

def establishedInput (env : Env) (slot : Nat) (sock : TcpSocket) (pkt : Packet) :
    TcpSocket × List Event :=
  let r := establishedData env slot sock pkt
  let r' := establishedFin env r.1 pkt
  let r'' := establishedRst slot r'.1 pkt
  (r''.1, r.2 ++ r'.2 ++ r''.2)

def finWait1Input (env : Env) (slot : Nat) (sock : TcpSocket) (pkt : Packet) :
    TcpSocket × List Event :=
  if pkt.has flagAck then
    if pkt.has flagFin then
      let r := acknowledgeFin env sock pkt
      ({ r.1 with state := .timeWait }, r.2 ++ [.wake slot .state])
    else ({ sock with state := .finWait2 }, [.wake slot .state])
  else if pkt.has flagFin then
    let r := acknowledgeFin env sock pkt
    ({ r.1 with state := .closing }, r.2 ++ [.wake slot .state])
  else (sock, [])

def finWait2Input (env : Env) (slot : Nat) (sock : TcpSocket) (pkt : Packet) :
    TcpSocket × List Event :=
  if pkt.has flagFin then
    let r := acknowledgeFin env sock pkt
    ({ r.1 with state := .timeWait }, r.2 ++ [.wake slot .state])
  else (sock, [])

/-- LISTEN でない socket が packet を受ける。 -/
def connectionInput (env : Env) (slot : Nat) (listener : Option Nat) (sock : TcpSocket)
    (pkt : Packet) :
    TcpSocket × List Event :=
  match sock.state with
  | .synRcvd => synRcvdInput env slot listener sock pkt
  | .established => establishedInput env slot sock pkt
  | .finWait1 => finWait1Input env slot sock pkt
  | .finWait2 => finWait2Input env slot sock pkt
  | .closing =>
    if pkt.has flagAck then ({ sock with state := .timeWait }, [.wake slot .state]) else (sock, [])
  | .timeWait => if pkt.has flagFin then tcpSendPacket env sock flagAck [] else (sock, [])
  | .lastAck => if pkt.has flagAck then (sock.relisten, []) else (sock, [])
  | .closed | .listen | .synSent | .closeWait => (sock, [])

/-! ## 表 -/

def tcpInitialSockets : Nat := 8

def tcpMaxSockets : Nat := 256

/-- `tcp_sockets`、`tcp_socket_capacity`、`tcp_socket_count`。capacity は列の長さである。 -/
structure TcpTable where
  base : Nat
  sockets : List TcpSocket
  count : Int

/-- `tcp_init_socket`。`recv_buffer` は書かないが、数が零なので読まれない。 -/
def tcpInitSocket : TcpSocket where
  state := .closed
  inUse := false
  localPort := 0
  remotePort := 0
  remoteIp := Ip.zero
  seq := 0
  ack := 0
  window := 8192
  flags := 0
  recv := ⟨fun _ => 0, 0, 0, 0, by decide, by decide, rfl⟩

/-- 倍の大きさの表を取って移る。元の表は解放する。 -/
def tcpGrowSockets (env : Env) (t : TcpTable) : Option TcpTable :=
  let capacity := t.sockets.length
  if tcpMaxSockets ≤ capacity then none
  else
    let newCapacity := max tcpInitialSockets (min tcpMaxSockets (capacity * 2))
    env.kmalloc.map fun base =>
      { t with
        base := base
        sockets := t.sockets ++ List.replicate (newCapacity - capacity) tcpInitSocket }

def tcpInit (env : Env) : TcpTable :=
  let empty : TcpTable := ⟨0, [], 0⟩
  (tcpGrowSockets env empty).getD empty

/-- 空いている最初の slot を使用中にする。 -/
def TcpTable.claim (t : TcpTable) : Option (Nat × TcpTable) :=
  (t.sockets.findIdx? (!·.inUse)).map fun i =>
    (i, { t with sockets := t.sockets.modify i ({ · with inUse := true }), count := t.count + 1 })

/-- 空きが無ければ表を広げる。 -/
def tcpAllocSocket (env : Env) (t : TcpTable) : Option Nat × TcpTable :=
  match t.claim with
  | some (i, t') => (some i, t')
  | none =>
    match tcpGrowSockets env t with
    | none => (none, t)
    | some t' =>
      match t'.claim with
      | some (i, t'') => (some i, t'')
      | none => (none, t')

def tcpFindListeningSocket (t : TcpTable) (port : UInt16) : Option Nat :=
  t.sockets.findIdx? fun sock => sock.inUse && sock.localPort == port && sock.state == .listen

def tcpFindReadyClient (t : TcpTable) (localPort : UInt16) : Option Nat :=
  t.sockets.findIdx? fun sock => sock.inUse && sock.localPort == localPort &&
    sock.state == .established

def tcpFindSocketByLocalPort (t : TcpTable) (port : UInt16) : Option Nat :=
  t.sockets.findIdx? fun sock => sock.inUse && sock.localPort == port

def tcpFindSocket (t : TcpTable) (localPort : UInt16) (remoteIp : Ip) (remotePort : UInt16) :
    Option Nat :=
  t.sockets.findIdx? fun sock =>
    sock.inUse && sock.localPort == localPort && sock.remotePort == remotePort &&
      sock.remoteIp == remoteIp

/-- 一つの slot を書き換える。 -/
def TcpTable.update (t : TcpTable) (slot : Nat) (f : TcpSocket → TcpSocket) : TcpTable :=
  { t with sockets := t.sockets.modify slot f }

/-! ## 受信 -/

def tcpWindowSize : UInt16 := 4096

/-- SYN を受けて作る socket。環の数は変えない。 -/
def TcpSocket.answer (client : TcpSocket) (env : Env) (localPort : UInt16) (srcIp : Ip)
    (pkt : Packet) :
    TcpSocket :=
  { client with
    localPort := localPort
    remoteIp := srcIp
    remotePort := pkt.srcPort
    seq := env.ticks.toUInt32 * 12345
    ack := pkt.seqNum + 1
    state := .synRcvd
    window := tcpWindowSize }

/--
`TCP_STATE_LISTEN`。SYN なら新しい slot で接続を始める。

表が広がると `sock` は解放した表を指すが、`local_port` はそこから読む。`kfree` は中身を消さないので、元の値である。
-/
def listenInput (env : Env) (t : TcpTable) (sock : TcpSocket) (srcIp : Ip) (pkt : Packet) :
    TcpTable × List Event :=
  if pkt.has flagSyn then
    match tcpAllocSocket env t with
    | (none, t') => (t', tcpSendRst env srcIp pkt.srcPort pkt.destPort 0 (pkt.seqNum + 1))
    | (some i, t') =>
      match t'.sockets[i]? with
      | none => (t', [])
      | some client =>
        let r := tcpSendPacket env (client.answer env sock.localPort srcIp pkt)
          (flagSyn ||| flagAck) []
        (t'.update i fun _ => r.1, r.2)
  else (t, [])

/-- packet の宛先の socket。SYN だけの packet は LISTEN の socket でもよい。 -/
def tcpLookup (t : TcpTable) (srcIp : Ip) (pkt : Packet) : Option Nat :=
  match tcpFindSocket t pkt.destPort srcIp pkt.srcPort with
  | some i => some i
  | none =>
    if pkt.has flagSyn ∧ ¬pkt.has flagAck then tcpFindListeningSocket t pkt.destPort else none

def tcpHandlePacket (env : Env) (t : TcpTable) (srcIp : Ip) (data : List UInt8) :
    TcpTable × List Event :=
  if data.length < tcpHeaderSize then (t, [])
  else
    let pkt := Packet.parse data
    match tcpLookup t srcIp pkt with
    | none =>
      if pkt.has flagRst then (t, [])
      else (t, tcpSendRst env srcIp pkt.srcPort pkt.destPort pkt.ackNum (pkt.seqNum + 1))
    | some i =>
      match t.sockets[i]? with
      | none => (t, [])
      | some sock =>
        if sock.state = .listen then listenInput env t sock srcIp pkt
        else
          let r := connectionInput env i (tcpFindListeningSocket t sock.localPort) sock pkt
          (t.update i fun _ => r.1, r.2)

/-! ## socket の API -/

/-- port が使われていれば NULL を返す。環の数は変えない。 -/
def tcpListen (env : Env) (t : TcpTable) (port : UInt16) : Option Nat × TcpTable :=
  if (tcpFindSocketByLocalPort t port).isSome then (none, t)
  else
    match tcpAllocSocket env t with
    | (none, t') => (none, t')
    | (some i, t') =>
      (some i, t'.update i ({ · with
        state := .listen, localPort := port, remotePort := 0, seq := 0, ack := 0, window := 8192,
        flags := 0, remoteIp := Ip.zero }))

def tcpSocketCreate (env : Env) (t : TcpTable) : Option Nat × TcpTable :=
  match tcpAllocSocket env t with
  | (none, t') => (none, t')
  | (some i, t') =>
    (some i, t'.update i fun sock => { sock with
      state := .closed, localPort := 0, remotePort := 0, seq := 0, ack := 0, window := 8192,
      flags := 0, recv := sock.recv.clear, remoteIp := Ip.zero })

/-- 接続していれば FIN を送る。 -/
def farewell (env : Env) (sock : TcpSocket) : TcpSocket × List Event :=
  if sock.state = .established ∨ sock.state = .closeWait then
    tcpSendPacket env sock (flagFin ||| flagAck) []
  else (sock, [])

/-- FIN を送り、slot をすぐに空ける。`tcp_socket_count` は、使用中でなくても減る。 -/
def tcpClose (env : Env) (t : TcpTable) (slot : Nat) : TcpTable × List Event :=
  match t.sockets[slot]? with
  | none => (t, [])
  | some sock =>
    let r := farewell env sock
    ({ t.update slot fun _ => { r.1 with
          state := .closed, remotePort := 0, seq := 0, ack := 0, flags := 0, recv := r.1.recv.clear,
          remoteIp := Ip.zero, localPort := 0, inUse := false } with
        count := t.count - 1 },
      r.2 ++ [.wake slot .state])

/-- FIN を送り、同じ slot で LISTEN に戻る。 -/
def tcpCloseAndRelisten (env : Env) (t : TcpTable) (slot : Nat) (listenPort : UInt16) :
    TcpTable × List Event :=
  match t.sockets[slot]? with
  | none => (t, [])
  | some sock =>
    let r := farewell env sock
    (t.update slot fun _ => { r.1 with
        state := .listen, remotePort := 0, seq := 0, ack := 0, flags := 0, recv := r.1.recv.clear,
        remoteIp := Ip.zero, localPort := listenPort },
      r.2 ++ [.wake slot .state])

/-- ほかの使用中の socket が同じ port を持てば -1。 -/
def tcpBind (t : TcpTable) (slot : Nat) (port : UInt16) : Int × TcpTable :=
  if t.sockets.zipIdx.any fun (sock, i) => sock.inUse && i != slot &&
    sock.localPort == port then (-1, t)
  else (0, t.update slot ({ · with localPort := port }))

/-- 返した数と、buffer に書いた byte。ESTABLISHED と CLOSE_WAIT でだけ読める。 -/
def tcpRecv (sock : TcpSocket) (len : Int) : Int × List UInt8 × TcpSocket :=
  if len ≤ 0 then (-1, [], sock)
  else if sock.state ≠ .established ∧ sock.state ≠ .closeWait then (0, [], sock)
  else
    let r := sock.recv.take len.toNat
    (r.1.length, r.1, { sock with recv := r.2 })

/-- `buf` は送る byte の置かれたところで、その先頭の `len` byte を送る。 -/
def tcpSend (env : Env) (sock : TcpSocket) (buf : Nat → UInt8) (len : Int) :
    Int × TcpSocket × List Event :=
  if len ≤ 0 then (-1, sock, [])
  else if sock.state ≠ .established then (-1, sock, [])
  else
    let r := tcpSendPacket env sock (flagAck ||| flagPsh) ((List.range len.toNat).map buf)
    (len, r.1, r.2)

def tcpAvailable (sock : TcpSocket) : Nat := sock.recv.count

/--
接続している socket の接続を新しい slot に移し、元の socket を LISTEN に戻す。

表が広がると `listen_sock` は解放した表を指すので、LISTEN に戻す書込みは新しい表に届かない。
-/
def tcpAccept (env : Env) (t : TcpTable) (slot : Nat) : Option Nat × TcpTable :=
  match t.sockets[slot]? with
  | none => (none, t)
  | some sock =>
    if sock.state = .established ∨ sock.state = .synRcvd then
      match tcpAllocSocket env t with
      | (none, t') => (none, t')
      | (some i, t') =>
        let t'' := t'.update i fun _ => { sock with inUse := true }
        (some i, if t'.sockets.length = t.sockets.length then
          t''.update slot fun _ => { sock with
            state := .listen, remotePort := 0, seq := 0, ack := 0, recv := sock.recv.clear,
            remoteIp := Ip.zero }
        else t'')
    else (none, t)

end Alos.Tcp
