import Alos.Lib.Run
import Alos.Lib.Wire
import Mathlib.Logic.Function.Basic

/-!
# DHCP の client（`net/l4/dhcp.c`）

client は DISCOVER を送って OFFER を待ち、最初の OFFER に REQUEST を送って ACK を待つ。ACK を受け取ると interface に番地を
設定する。受け取る packet の中身は任意である。

番地が変わるときの packet は、client が覚えている transaction の ACK であり、その前に受け入れた OFFER がある。しかし
ACK の server と番地は、覚えている OFFER のものと比べられない。

* `dhcpHandlePacket_cases` — 一つの packet にできること
* `dhcpHandlePacket_assigns` — 番地が変わるときに成り立つこと
* `dhcpHandlePacket_other_server` — 別の server の ACK でも番地が変わる
-/

namespace Alos.Dhcp

open Wire List

/-! ## packet -/

def dhcpBootreply : Nat := 2

def dhcpHeaderSize : Nat := 236

def dhcpMagicCookie : List UInt8 := [0x63, 0x82, 0x53, 0x63]

def dhcpDiscoverType : UInt8 := 1

def dhcpOffer : Nat := 2

def dhcpRequestType : UInt8 := 3

def dhcpAck : Nat := 5

def dhcpNak : Nat := 6

/-- `dhcp_parse_options` の読む値。 -/
structure Options where
  msgType : Nat
  serverIp : Nat
  subnetMask : Nat
  router : Nat
  dns : Nat
  leaseTime : Nat
  deriving DecidableEq

/-- 一つの option。短すぎるものと知らないものは読み飛ばす。 -/
def readOption (opt : UInt8) (optLen : Nat) (body : List UInt8) (o : Options) : Options :=
  if opt = 53 then if 1 ≤ optLen then { o with msgType := field body 0 1 } else o
  else if optLen < 4 then o
  else if opt = 54 then { o with serverIp := field body 0 4 }
  else if opt = 1 then { o with subnetMask := field body 0 4 }
  else if opt = 3 then { o with router := field body 0 4 }
  else if opt = 6 then { o with dns := field body 0 4 }
  else if opt = 51 then { o with leaseTime := field body 0 4 }
  else o

/-- `dhcp_parse_options` のループ。`skip` は、読んだ option の残りの byte の数である。 -/
def parseLoop : List UInt8 → Nat → Options → Options
  | [], _, o => o
  | _ :: rest, skip + 1, o => parseLoop rest skip o
  | opt :: rest, 0, o =>
    if opt = 0 then parseLoop rest 0 o
    else if opt = 255 then o
    else
      match rest with
      | [] => o
      | optLen :: body =>
        if body.length < optLen.toNat then o
        else parseLoop (optLen :: body) (1 + optLen.toNat) (readOption opt optLen.toNat body o)

def dhcpParseOptions (options : List UInt8) : Options := parseLoop options 0 ⟨0, 0, 0, 0, 0, 0⟩

/-- packet の option。 -/
def optionsOf (data : List UInt8) : Options := dhcpParseOptions (data.drop (dhcpHeaderSize + 4))

def yiaddr (data : List UInt8) : Nat := field data 16 4

/-- transaction `xid` の、種類が `msgType` の BOOTREPLY。 -/
structure IsReply (data : List UInt8) (xid msgType : Nat) : Prop where
  length : dhcpHeaderSize + 4 ≤ data.length
  op : field data 0 1 = dhcpBootreply
  xid : field data 4 4 = xid
  cookie : (data.drop dhcpHeaderSize).take 4 = dhcpMagicCookie
  msgType : (optionsOf data).msgType = msgType

/-! ## client -/

inductive State where
  | init
  | selecting
  | requesting
  | bound
  | renewing
  | rebinding
  deriving DecidableEq, Repr

/-- `dhcp_context_t`。`netif` の `NULL` は `none` である。 -/
structure Context where
  netif : Option Nat
  state : State
  xid : Nat
  offeredIp : Nat
  serverIp : Nat
  leaseTime : Nat
  discoverCount : Nat
  requestCount : Nat

/-- `NetInterface` のうち、DHCP の使う部分。 -/
structure Interface where
  macAddr : Fin 6 → UInt8
  ipAddr : Nat
  netmask : Nat
  gateway : Nat
  dnsServer : Nat

/-- `dhcp.c` の静的変数と interface。`sent` は `dhcp_send_raw` に渡した interface と中身である。 -/
structure Client where
  ctx : Context
  initialized : Bool
  xidCounter : Nat
  ifaces : Nat → Interface
  defaultNetif : Option Nat
  sent : List (Nat × List UInt8)

/-- 起動時の静的変数。 -/
def Client.boot (ifaces : Nat → Interface) (defaultNetif : Option Nat) : Client :=
  ⟨⟨none, .init, 0, 0, 0, 0, 0, 0⟩, false, 0x12345678, ifaces, defaultNetif, []⟩

/-- 共通の header と cookie と message type。 -/
def dhcpBuildHeader (netif : Interface) (msgType : UInt8) (xid : Nat) : List UInt8 :=
  [1, 1, 6, 0] ++ encode 4 xid ++ [0, 0] ++ encode 2 0x8000 ++ List.replicate 16 0 ++
    List.ofFn netif.macAddr ++ List.replicate (10 + 64 + 128) 0 ++ dhcpMagicCookie ++
      [53, 1, msgType]

def dhcpAddParamRequest : List UInt8 := [55, 4, 1, 3, 6, 51]

/-- END を加え、300 byte まで 0 で埋める。 -/
def finishPacket (packet : List UInt8) : List UInt8 :=
  packet ++ [255] ++ List.replicate (300 - (packet.length + 1)) 0

def discoverPacket (netif : Interface) (xid : Nat) : List UInt8 :=
  finishPacket (dhcpBuildHeader netif dhcpDiscoverType xid ++ dhcpAddParamRequest)

/-- 求める番地は option 50、server は option 54 に入る。 -/
def requestPacket (netif : Interface) (xid offeredIp serverIp : Nat) : List UInt8 :=
  finishPacket (dhcpBuildHeader netif dhcpRequestType xid ++ [50, 4] ++ encode 4 offeredIp ++
    [54, 4] ++ encode 4 serverIp ++ dhcpAddParamRequest)

def dhcpInit (c : Client) (netif : Nat) : Client :=
  { c with ctx := ⟨some netif, .init, 0, 0, 0, 0, 0, 0⟩, initialized := true }

def nextXid (counter : Nat) : Nat := (counter * 1103515245 + 12345) % 2 ^ 32

def dhcpDiscover (c : Client) (netif : Nat) : Client :=
  let c := if c.initialized = false ∨ c.ctx.netif ≠ some netif then dhcpInit c netif else c
  let xid := nextXid c.xidCounter
  { c with
    xidCounter := xid
    ctx := { c.ctx with xid, state := .selecting, discoverCount :=
      (c.ctx.discoverCount + 1) % 2 ^ 32 }
    sent := c.sent ++ [(netif, discoverPacket (c.ifaces netif) xid)] }

def dhcpSendRequest (c : Client) (netif : Nat) : Client :=
  { c with
    ctx := { c.ctx with state := .requesting, requestCount := (c.ctx.requestCount + 1) % 2 ^ 32 }
    sent := c.sent ++ [(netif, requestPacket (c.ifaces netif) c.ctx.xid c.ctx.offeredIp
      c.ctx.serverIp)] }

def dhcpHandleOffer (c : Client) (netif : Nat) (data : List UInt8) : Client :=
  let o := optionsOf data
  if o.msgType ≠ dhcpOffer then c
  else
    dhcpSendRequest
      { c with ctx := { c.ctx with offeredIp := yiaddr data, serverIp := o.serverIp } } netif

/-- ACK の server も番地も、覚えている OFFER とは比べない。 -/
def dhcpHandleAck (c : Client) (netif : Nat) (data : List UInt8) : Client :=
  let o := optionsOf data
  if o.msgType = dhcpNak then { c with ctx := { c.ctx with state := .init } }
  else if o.msgType ≠ dhcpAck then c
  else
    { c with
      ctx := { c.ctx with state := .bound, leaseTime := o.leaseTime }
      ifaces := Function.update c.ifaces netif { c.ifaces netif with
        ipAddr := yiaddr data
        netmask := o.subnetMask
        gateway := o.router
        dnsServer := o.dns } }

def dhcpHandlePacket (c : Client) (netif : Option Nat) (data : List UInt8) : Client :=
  if c.initialized = false then c
  else
    match netif.or c.defaultNetif with
    | none => c
    | some n =>
      if c.ctx.netif ≠ some n then c
      else if data.length < dhcpHeaderSize + 4 then c
      else if field data 0 1 ≠ dhcpBootreply then c
      else if field data 4 4 ≠ c.ctx.xid then c
      else if (data.drop dhcpHeaderSize).take 4 ≠ dhcpMagicCookie then c
      else
        match c.ctx.state with
        | .selecting => dhcpHandleOffer c n data
        | .requesting | .renewing | .rebinding => dhcpHandleAck c n data
        | .init | .bound => c

/-- 自分の interface でなければ何もしない。 -/
def dhcpRelease (c : Client) (netif : Nat) : Client :=
  if c.initialized = false ∨ c.ctx.netif ≠ some netif then c
  else
    { c with
      ctx := { c.ctx with state := .init }
      ifaces := Function.update c.ifaces netif
        { c.ifaces netif with ipAddr := 0, netmask := 0, gateway := 0, dnsServer := 0 } }

inductive Op where
  | init (netif : Nat)
  | discover (netif : Nat)
  | release (netif : Nat)
  | packet (netif : Option Nat) (data : List UInt8)

def step (c : Client) : Op → Option Client
  | .init netif => some (dhcpInit c netif)
  | .discover netif => some (dhcpDiscover c netif)
  | .release netif => some (dhcpRelease c netif)
  | .packet netif data => some (dhcpHandlePacket c netif data)

/-! ## 一つの packet -/

/-- OFFER を受け入れた後。 -/
def afterOffer (c : Client) (n : Nat) (data : List UInt8) : Client :=
  dhcpSendRequest { c with
    ctx := { c.ctx with offeredIp := yiaddr data, serverIp := (optionsOf data).serverIp } } n

/-- ACK を受け取ったときに設定する interface。 -/
def assigned (netif : Interface) (data : List UInt8) : Interface :=
  { netif with
    ipAddr := yiaddr data
    netmask := (optionsOf data).subnetMask
    gateway := (optionsOf data).router
    dnsServer := (optionsOf data).dns }

theorem dhcpHandleAck_cases (c : Client) (n : Nat) (data : List UInt8) :
    dhcpHandleAck c n data = c ∨ dhcpHandleAck c n data =
      { c with ctx := { c.ctx with state := .init } } ∨
    ((optionsOf data).msgType = dhcpAck ∧ (dhcpHandleAck c n data).ctx.state = .bound ∧
      (dhcpHandleAck c n data).ifaces = Function.update c.ifaces n
        (assigned (c.ifaces n) data)) := by
  unfold dhcpHandleAck
  dsimp only
  split
  · exact .inr (.inl rfl)
  · split
    · exact .inl rfl
    · rename_i ht
      exact .inr (.inr ⟨not_not.mp ht, rfl, rfl⟩)

/-- ACK を待つ状態。 -/
def State.awaitsAck (s : State) : Prop := s = .requesting ∨ s = .renewing ∨ s = .rebinding

/--
一つの packet は、何も変えないか、SELECTING で OFFER を受け入れるか、NAK で初めに戻るか、ACK で番地を設定する。
-/
theorem dhcpHandlePacket_cases (c : Client) (netif : Option Nat) (data : List UInt8) :
    dhcpHandlePacket c netif data = c ∨
    (∃ n, c.ctx.netif = some n ∧ c.ctx.state = .selecting ∧ IsReply data c.ctx.xid dhcpOffer ∧
      dhcpHandlePacket c netif data = afterOffer c n data) ∨
    dhcpHandlePacket c netif data = { c with ctx := { c.ctx with state := .init } } ∨
    ∃ n, c.ctx.netif = some n ∧ c.ctx.state.awaitsAck ∧ IsReply data c.ctx.xid dhcpAck ∧
      (dhcpHandlePacket c netif data).ctx.state = .bound ∧
      (dhcpHandlePacket c netif data).ifaces = Function.update c.ifaces n
        (assigned (c.ifaces n) data) := by
  unfold dhcpHandlePacket
  split
  · exact .inl rfl
  split
  · exact .inl rfl
  rename_i n _
  split
  · exact .inl rfl
  rename_i hnetif
  rw [not_not] at hnetif
  split
  · exact .inl rfl
  rename_i hlen
  split
  · exact .inl rfl
  rename_i hop
  split
  · exact .inl rfl
  rename_i hxid
  split
  · exact .inl rfl
  rename_i hcookie
  have hreply : ∀ {t}, (optionsOf data).msgType = t → IsReply data _ t := fun ht =>
    ⟨Nat.not_lt.mp hlen, not_not.mp hop, not_not.mp hxid, not_not.mp hcookie, ht⟩
  -- ACK を待つ三つの状態は同じ関数に入る
  have hack := dhcpHandleAck_cases c n data
  split
  · rename_i hstate
    unfold dhcpHandleOffer
    dsimp only
    split
    · exact .inl rfl
    · rename_i ht
      exact .inr (.inl ⟨n, hnetif, hstate, hreply (not_not.mp ht), rfl⟩)
  · rename_i hstate
    exact hack.imp_right fun h =>
      .inr (h.imp_right fun ⟨ht, hb⟩ => ⟨n, hnetif, .inl hstate, hreply ht, hb⟩)
  · rename_i hstate
    exact hack.imp_right fun h =>
      .inr (h.imp_right fun ⟨ht, hb⟩ => ⟨n, hnetif, .inr (.inl hstate), hreply ht, hb⟩)
  · rename_i hstate
    exact hack.imp_right fun h =>
      .inr (h.imp_right fun ⟨ht, hb⟩ => ⟨n, hnetif, .inr (.inr hstate), hreply ht, hb⟩)
  · exact .inl rfl
  · exact .inl rfl

/-! ## 受け入れた OFFER -/

variable {c₀ c : Client} {ops : List Op} {op : Op} {data : List UInt8}
  {netif : Option Nat} {n : Nat}

/-- どの手も許される実行。 -/
abbrev Runs (c₀ : Client) (ops : List Op) (c : Client) : Prop :=
  Run.Reach step (fun _ _ => True) c₀ ops c

/--
履歴 `ops` の中の、client が受け入れた OFFER。それが届いたときは同じ transaction の SELECTING であり、
覚えている番地と server はその中身で、それを求める REQUEST を送っている。その後に DISCOVER は送っていない。
-/
structure Accepted (c₀ : Client) (ops : List Op) (c : Client) (offer : List UInt8) : Prop where
  reply : IsReply offer c.ctx.xid dhcpOffer
  offeredIp : c.ctx.offeredIp = yiaddr offer
  serverIp : c.ctx.serverIp = (optionsOf offer).serverIp
  history : ∃ pre m post c₁, ops = pre ++ .packet m offer :: post ∧ Runs c₀ pre c₁ ∧
    c₁.ctx.state = .selecting ∧ c₁.ctx.xid = c.ctx.xid ∧ ∀ n, .discover n ∉ post
  requested : ∃ n netif, c.ctx.netif = some n ∧
    (n, requestPacket netif c.ctx.xid (yiaddr offer) (optionsOf offer).serverIp) ∈ c.sent

/-- DISCOVER でない手が client を変えなければ、受け入れた OFFER も変わらない。 -/
theorem Accepted.ignore {offer : List UInt8} (h : Accepted c₀ ops c offer)
    (hop : ∀ n, op ≠ .discover n) : Accepted c₀ (ops ++ [op]) c offer := by
  obtain ⟨pre, m, post, c₁, hops, hrun, hstate, hxid, hpost⟩ := h.history
  refine { h with history := ⟨pre, m, post ++ [op], c₁, ?_, hrun, hstate, hxid, fun n hn => ?_⟩ }
  · rw [hops, append_assoc, cons_append]
  · rcases mem_append.mp hn with hn | hn
    · exact hpost n hn
    · exact hop n (mem_singleton.mp hn).symm

/-- SELECTING で OFFER を受け入れた直後。 -/
theorem accepted_afterOffer (hrun : Runs c₀ ops c) (hnetif : c.ctx.netif = some n)
    (hstate : c.ctx.state = .selecting)
    (hreply : IsReply data c.ctx.xid dhcpOffer) :
    Accepted c₀ (ops ++ [.packet netif data]) (afterOffer c n data) data where
  reply := hreply
  offeredIp := rfl
  serverIp := rfl
  history := ⟨ops, netif, [], c, rfl, hrun, hstate, rfl, fun _ => not_mem_nil⟩
  requested := ⟨n, c.ifaces n, hnetif, mem_append_right _ (mem_singleton.mpr rfl)⟩

/-- 履歴についての不変条件。RENEWING と REBINDING には入らず、REQUESTING には受け入れた OFFER がある。 -/
structure Traced (c₀ : Client) (ops : List Op) (c : Client) : Prop where
  waits : c.ctx.state.awaitsAck → c.ctx.state = .requesting
  accepted : c.ctx.state = .requesting → ∃ offer, Accepted c₀ ops c offer

/-- ACK を待たない状態では、何も言うことがない。 -/
theorem Traced.of_state {s : State} (hs : c.ctx.state = s)
    (h : s = .init ∨ s = .selecting ∨ s = .bound) : Traced c₀ ops c := by
  constructor
  · rw [hs]
    rcases h with rfl | rfl | rfl <;> exact fun hw => by simp [State.awaitsAck] at hw
  · rw [hs]
    rcases h with rfl | rfl | rfl <;> exact nofun

/-- client を変えない手。 -/
theorem Traced.ignore (h : Traced c₀ ops c)
    (hop : ∀ n, op ≠ .discover n) : Traced c₀ (ops ++ [op]) c where
  waits := h.waits
  accepted hr := (h.accepted hr).imp fun _ hoffer => hoffer.ignore hop

theorem Traced.packet (hrun : Runs c₀ ops c) (h : Traced c₀ ops c) :
    Traced c₀ (ops ++ [.packet netif data]) (dhcpHandlePacket c netif data) := by
  rcases dhcpHandlePacket_cases c _ data with
    hc | ⟨n, hnetif, hstate, hreply, hc⟩ | hc | ⟨n, hnetif, hstate, hreply, hbound, _⟩
  · rw [hc]
    exact h.ignore fun _ => nofun
  · rw [hc]
    exact ⟨fun _ => rfl, fun _ => ⟨data, accepted_afterOffer hrun hnetif hstate hreply⟩⟩
  · rw [hc]
    exact .of_state rfl (.inl rfl)
  · exact .of_state hbound (.inr (.inr rfl))

/-- 自分の interface でない `dhcp_release` は何も変えない。 -/
theorem Traced.release {netif : Nat} (h : Traced c₀ ops c) :
    Traced c₀ (ops ++ [.release netif]) (dhcpRelease c netif) := by
  unfold dhcpRelease
  split
  · exact h.ignore fun _ => nofun
  · exact .of_state rfl (.inl rfl)

theorem traced_of_runs (hinit : c₀.ctx.state = .init) (h : Runs c₀ ops c) : Traced c₀ ops c := by
  induction h with
  | nil => exact .of_state hinit (.inl rfl)
  | @snoc ops c c' op hrun _ hstep ih =>
    cases op with
    | init netif =>
      obtain rfl := Option.some.inj hstep
      exact .of_state rfl (.inl rfl)
    | discover netif =>
      obtain rfl := Option.some.inj hstep
      exact .of_state rfl (.inr (.inl rfl))
    | release netif =>
      obtain rfl := Option.some.inj hstep
      exact ih.release
    | packet netif data =>
      obtain rfl := Option.some.inj hstep
      exact ih.packet hrun

/-! ## 番地の設定 -/

/--
番地を変えた packet。ほかの interface の番地は変わらないので、client の interface のものであり、覚えている transaction の ACK である。
-/
theorem dhcpHandlePacket_changes
    (hne : ((dhcpHandlePacket c netif data).ifaces n).ipAddr ≠ (c.ifaces n).ipAddr) :
    c.ctx.netif = some n ∧ c.ctx.state.awaitsAck ∧ IsReply data c.ctx.xid dhcpAck ∧
      (dhcpHandlePacket c netif data).ifaces n = assigned (c.ifaces n) data := by
  rcases dhcpHandlePacket_cases c _ data with
    hc | ⟨_, _, _, _, hc⟩ | hc | ⟨n', hnetif, hstate, hreply, _, hifaces⟩
  · exact absurd (by rw [hc]) hne
  · exact absurd (by rw [hc]; rfl) hne
  · exact absurd (by rw [hc]) hne
  · rw [hifaces] at hne ⊢
    obtain rfl : n = n' := by
      by_contra hn
      exact hne (by rw [Function.update_of_ne hn])
    exact ⟨hnetif, hstate, hreply, Function.update_self ..⟩

/-- ACK の server と番地は、覚えている OFFER のものである。 -/
def Confirms (c : Client) (data : List UInt8) : Prop :=
  (optionsOf data).serverIp = c.ctx.serverIp ∧ yiaddr data = c.ctx.offeredIp

/--
**番地が変わるとき、packet は今の transaction の ACK であり、状態は REQUESTING で、受け入れた OFFER がある。
ACK の server が OFFER のものであり、設定される番地が REQUEST で求めた番地であるのは、ACK の二つの値が
覚えているものに等しいとき、そのときに限る。**
-/
theorem dhcpHandlePacket_assigns (hinit : c₀.ctx.state = .init) (hrun : Runs c₀ ops c)
    (hne : ((dhcpHandlePacket c netif data).ifaces n).ipAddr ≠ (c.ifaces n).ipAddr) :
    c.ctx.netif = some n ∧ c.ctx.state = .requesting ∧ IsReply data c.ctx.xid dhcpAck ∧
    ∃ offer, Accepted c₀ ops c offer ∧
      ((optionsOf data).serverIp = (optionsOf offer).serverIp ∧
        ((dhcpHandlePacket c netif data).ifaces n).ipAddr = yiaddr offer ↔ Confirms c data) := by
  obtain ⟨hnetif, hstate, hreply, hiface⟩ := dhcpHandlePacket_changes hne
  have htraced := traced_of_runs hinit hrun
  have hreq := htraced.waits hstate
  obtain ⟨offer, hoffer⟩ := htraced.accepted hreq
  refine ⟨hnetif, hreq, hreply, offer, hoffer, ?_⟩
  rw [hiface, ← hoffer.serverIp, ← hoffer.offeredIp]
  rfl

/-! ## 二つの server -/

/-- interface 0 の起動時。 -/
def twoServers : Client := .boot (fun _ => ⟨fun _ => 0, 0, 0, 0, 0⟩) (some 0)

/-- 最初の DISCOVER の transaction に対する、server `serverIp` からの番地 `ip` の返事。 -/
def replyFrom (msgType : UInt8) (ip serverIp : Nat) : List UInt8 :=
  [2, 1, 6, 0] ++ encode 4 (nextXid 0x12345678) ++ List.replicate 8 0 ++ encode 4 ip ++
    List.replicate 216 0 ++ dhcpMagicCookie ++ [53, 1, msgType, 54, 4] ++ encode 4 serverIp ++ [255]

/-- server `10.0.0.1` からの、番地 `10.0.0.5` の OFFER。 -/
def firstOffer : List UInt8 := replyFrom 2 0x0a000005 0x0a000001

/-- 最初の OFFER を受け入れて ACK を待つ client。 -/
def requested : Client := dhcpHandlePacket (dhcpDiscover twoServers 0) (some 0) firstOffer

theorem runs_requested : Runs twoServers [.discover 0, .packet (some 0) firstOffer] requested :=
  .snoc (.snoc .nil trivial rfl) trivial rfl

/-- server `10.0.0.1` からの、番地 `10.0.0.5` の ACK。 -/
def firstAck : List UInt8 := replyFrom 5 0x0a000005 0x0a000001

theorem dhcpHandlePacket_assigns_one_server :
    ((dhcpHandlePacket requested (some 0) firstAck).ifaces 0).ipAddr = 0x0a000005 ∧
    ∃ offer, Accepted twoServers [.discover 0, .packet (some 0) firstOffer] requested offer ∧
      (optionsOf firstAck).serverIp = (optionsOf offer).serverIp := by
  have hip : ((dhcpHandlePacket requested (some 0) firstAck).ifaces 0).ipAddr = 0x0a000005 ∧
      (requested.ifaces 0).ipAddr = 0 := by
    decide +kernel
  obtain ⟨-, -, -, offer, haccepted, hiff⟩ := dhcpHandlePacket_assigns (n := 0) rfl runs_requested
    (show ((dhcpHandlePacket requested (some 0) firstAck).ifaces 0).ipAddr ≠ _ by
      rw [hip.1, hip.2]
      decide)
  have hconfirm : Confirms requested firstAck := ⟨by decide +kernel, by decide +kernel⟩
  exact ⟨hip.1, offer, haccepted, (hiff.mpr hconfirm).1⟩

/--
**受け入れたのは `10.0.0.1` の `10.0.0.5` なのに、`10.0.0.2` からの `10.0.0.9` の ACK で番地が設定される。**
-/
theorem dhcpHandlePacket_other_server :
    Runs twoServers [.discover 0, .packet (some 0) firstOffer] requested ∧
    requested.ctx.serverIp = 0x0a000001 ∧ requested.ctx.offeredIp = 0x0a000005 ∧
    (optionsOf (replyFrom 5 0x0a000009 0x0a000002)).serverIp = 0x0a000002 ∧
    (requested.ifaces 0).ipAddr = 0 ∧
    ((dhcpHandlePacket requested (some 0) (replyFrom 5 0x0a000009 0x0a000002)).ifaces 0).ipAddr =
      0x0a000009 :=
  ⟨runs_requested, by decide +kernel⟩

end Alos.Dhcp
