import Alos.Socket.Model

/-!
# 表と slot に起きること

slot を取る呼出しは、どれも空いている slot に新しい socket を置いて数を一つ増やす。packet は、何も変えないか、一つの接続の
socket を書き換えるか、SYN で新しい slot を取る。system call を調べるときは、ここの場合分けだけを使う。
-/

namespace Alos.Socket

open List Option
open Net (Ip Env)
open Tcp

variable {t t₁ : TcpTable} {env : Env} {i j ptr : Nat} {sock sock' : TcpSocket}
  {f : TcpSocket → TcpSocket}

/-! ## 番地 -/

theorem slotOf_eq_some : slotOf t ptr = some i ↔ ptr = address t i ∧ i < t.sockets.length := by
  have hsize : socketSize = 4208 := rfl
  unfold slotOf address
  constructor
  · intro h
    obtain ⟨⟨hle, hmod, hlt⟩, he⟩ := ite_none_right_eq_some.mp h
    obtain rfl := some.inj he
    have hdiv := Nat.div_add_mod (ptr - t.base) socketSize
    rw [Nat.mul_comm] at hdiv
    exact ⟨by omega, hlt⟩
  · rintro ⟨rfl, hlt⟩
    rw [Nat.add_sub_cancel_left, Nat.mul_mod_left, Nat.mul_div_cancel _ (by omega)]
    exact if_pos ⟨Nat.le_add_right _ _, rfl, hlt⟩

theorem slotOf_address (hi : i < t.sockets.length) : slotOf t (address t i) = some i :=
  slotOf_eq_some.mpr ⟨rfl, hi⟩

/-- 表が動かなければ、番地の指す位置も変わらない。 -/
theorem slotOf_congr (hbase : t₁.base = t.base) (hlen : t₁.sockets.length = t.sockets.length) :
    slotOf t₁ ptr = slotOf t ptr := by
  rw [slotOf, slotOf, hbase, hlen]

theorem slotOf_update : slotOf (t.update i f) ptr = slotOf t ptr :=
  slotOf_congr rfl TcpTable.length_update

theorem lt_of_getElem? {l : List TcpSocket} (h : l[i]? = some sock) : i < l.length :=
  (List.getElem?_eq_some_iff.mp h).1

/-! ## slot を取る -/

/-- 広がったかもしれない表。元の slot はそのままで、加わった slot は空いている。 -/
structure Grown (t t₁ : TcpTable) : Prop where
  count : t₁.count = t.count
  extra : ∃ n, t₁.sockets = t.sockets ++ List.replicate n tcpInitSocket
  same : t₁.sockets.length = t.sockets.length → t₁ = t

theorem Grown.refl : Grown t t := ⟨rfl, ⟨0, by simp⟩, fun _ => rfl⟩

theorem Grown.getElem? (h : Grown t t₁) (hsock : t.sockets[i]? = some sock) :
    t₁.sockets[i]? = some sock := by
  obtain ⟨n, hn⟩ := h.extra
  rw [hn, getElem?_append_left (lt_of_getElem? hsock), hsock]

/-- 使用中の slot は、元の slot である。 -/
theorem Grown.of_inUse (h : Grown t t₁) (hsock : t₁.sockets[i]? = some sock)
    (huse : sock.inUse = true) :
    t.sockets[i]? = some sock := by
  obtain ⟨n, hn⟩ := h.extra
  rw [hn] at hsock
  by_cases hi : i < t.sockets.length
  · rwa [getElem?_append_left hi] at hsock
  · rw [getElem?_append_right (Nat.not_lt.mp hi)] at hsock
    have hinit := eq_of_mem_replicate (mem_of_getElem? hsock)
    rw [hinit] at huse
    cases huse

/-- 広げた表は、元より大きい。 -/
theorem growSockets_spec (h : tcpGrowSockets env t = some t₁) :
    Grown t t₁ ∧ t.sockets.length < t₁.sockets.length := by
  obtain ⟨hlt, h⟩ := ite_none_left_eq_some.mp h
  obtain ⟨base, -, rfl⟩ := map_eq_some_iff.mp h
  have hinit : tcpInitialSockets = 8 := rfl
  have hlen : t.sockets.length < (t.sockets ++ replicate
      (max tcpInitialSockets (min tcpMaxSockets (t.sockets.length * 2)) - t.sockets.length)
      tcpInitSocket).length := by
    simp only [length_append, length_replicate]
    omega
  exact ⟨⟨rfl, ⟨_, rfl⟩, fun he => absurd he (Nat.ne_of_gt hlen)⟩, hlen⟩

/-- 起動したときの slot は、どれも空いている。 -/
theorem init_free (hsock : (tcpInit env).sockets[i]? = some sock) : sock.inUse = false := by
  by_contra huse
  have hempty : (TcpTable.mk 0 [] 0).sockets[i]? = some sock := by
    simp only [tcpInit] at hsock
    cases hgrow : tcpGrowSockets env _ with
    | none =>
      rw [hgrow] at hsock
      exact hsock
    | some t =>
      rw [hgrow] at hsock
      exact (growSockets_spec hgrow).1.of_inUse hsock (by simpa using huse)
  cases hempty

/-- 空いている slot に socket を置き、数を一つ増やす。 -/
def install (t : TcpTable) (i : Nat) (sock : TcpSocket) : TcpTable :=
  { t.update i fun _ => sock with count := t.count + 1 }

/-- slot の socket が分かっていれば、書換えは置換えである。 -/
theorem update_const (f : TcpSocket → TcpSocket) (hsock : t.sockets[i]? = some sock) :
    t.update i f = t.update i fun _ => f sock := by
  rw [TcpTable.update, TcpTable.update, TcpTable.mk.injEq]
  refine ⟨rfl, ext_getElem? fun k => ?_, rfl⟩
  by_cases hk : i = k
  · subst hk
    simp [hsock]
  · simp [hk]

theorem claim_spec {r : Nat × TcpTable} (h : t.claim = some r) :
    ∃ sock, t.sockets[r.1]? = some sock ∧ sock.inUse = false ∧
      r.2 = install t r.1 { sock with inUse := true } := by
  obtain ⟨i, hi, rfl⟩ := map_eq_some_iff.mp h
  obtain ⟨hlt, hfree, -⟩ := findIdx?_eq_some_iff_getElem.mp hi
  have hsock := getElem?_eq_getElem hlt
  refine ⟨_, hsock, by simpa using hfree, ?_⟩
  rw [install, ← update_const ({ · with inUse := true }) hsock]
  rfl

/-- `tcp_alloc_socket` は、失敗して表を変えないか、空いている slot を取る。 -/
theorem alloc_spec : tcpAllocSocket env t = (none, t) ∨
    ∃ t₁ i sock, Grown t t₁ ∧ t₁.sockets[i]? = some sock ∧ sock.inUse = false ∧
      tcpAllocSocket env t = (some i, install t₁ i { sock with inUse := true }) := by
  unfold tcpAllocSocket
  split
  · rename_i i t' hclaim
    obtain ⟨sock, hsock, hfree, he⟩ := claim_spec hclaim
    exact .inr ⟨t, i, sock, .refl, hsock, hfree, by rw [← he]⟩
  split
  · exact .inl rfl
  rename_i t' hgrow
  obtain ⟨hgrown, hlen⟩ := growSockets_spec hgrow
  split
  · rename_i i t'' hclaim
    obtain ⟨sock, hsock, hfree, he⟩ := claim_spec hclaim
    exact .inr ⟨t', i, sock, hgrown, hsock, hfree, by rw [← he]⟩
  -- 広げた表には、必ず空きがある
  rename_i hfull
  exfalso
  obtain ⟨n, hn⟩ := hgrown.extra
  have hnew : t'.sockets[t.sockets.length]? = some tcpInitSocket := by
    rw [hn, length_append, length_replicate] at hlen
    rw [hn, getElem?_append_right (Nat.le_refl _), getElem?_replicate_of_lt (by omega)]
  have hall := findIdx?_eq_none_iff.mp (map_eq_none_iff.mp hfull) _ (mem_of_getElem? hnew)
  cases hall

@[simp] theorem base_install : (install t i sock).base = t.base := rfl

@[simp] theorem length_install : (install t i sock).sockets.length = t.sockets.length :=
  TcpTable.length_update

/-- 置いた後で書き換えるのは、書き換えたものを置くのと同じである。 -/
theorem install_update : (install t i sock).update i f = install t i (f sock) := by
  simp only [install, TcpTable.update, modify_modify_eq]
  rfl

/-- 広がったかもしれない表の空いている slot に、`new` を置く。 -/
structure Placed (t : TcpTable) (r : TcpTable) (i : Nat) (new : TcpSocket) : Prop where
  inUse : new.inUse = true
  eq : ∃ t₁ old, Grown t t₁ ∧ t₁.sockets[i]? = some old ∧ old.inUse = false ∧ r = install t₁ i new

section Placed

variable {r : TcpTable} {new b : TcpSocket}

section

variable (h : Placed t r i new)
include h

theorem Placed.getElem?_self : r.sockets[i]? = some new := by
  obtain ⟨t₁, old, -, hold, -, rfl⟩ := h.eq
  simp [install, hold]

/-- 使用中だった slot は、取られず変わりもしない。 -/
theorem Placed.keep (hj : t.sockets[j]? = some b) (huse : b.inUse = true) :
    j ≠ i ∧ r.sockets[j]? = some b := by
  obtain ⟨t₁, old, hgrown, hold, hfree, rfl⟩ := h.eq
  have hj' := hgrown.getElem? hj
  have hne : j ≠ i := by
    rintro rfl
    obtain rfl := some.inj (hold.symm.trans hj')
    rw [hfree] at huse
    cases huse
  exact ⟨hne, (TcpTable.getElem?_update_of_ne hne.symm).trans hj'⟩

/-- 使用中の slot は、今取ったものか、前から使用中のものである。 -/
theorem Placed.of_inUse (hj : r.sockets[j]? = some b) (huse : b.inUse = true) :
    j = i ∧ b = new ∨ j ≠ i ∧ t.sockets[j]? = some b := by
  by_cases hji : j = i
  · subst hji
    exact .inl ⟨rfl, some.inj (hj.symm.trans h.getElem?_self)⟩
  · obtain ⟨t₁, old, hgrown, hold, hfree, rfl⟩ := h.eq
    exact .inr ⟨hji, hgrown.of_inUse ((TcpTable.getElem?_update_of_ne (Ne.symm hji)).symm.trans hj)
      huse⟩

/-- 広がらなければ、表は動かない。 -/
theorem Placed.base_eq (hlen : r.sockets.length = t.sockets.length) : r.base = t.base := by
  obtain ⟨t₁, old, hgrown, -, -, rfl⟩ := h.eq
  rw [base_install, hgrown.same (by simpa using hlen)]

end

end Placed

theorem socketCreate_spec (env : Env) (t : TcpTable) : tcpSocketCreate env t = (none, t) ∨
    ∃ i r new, tcpSocketCreate env t = (some i, r) ∧ Placed t r i new ∧
      new.state = .closed ∧ new.localPort = 0 := by
  unfold tcpSocketCreate
  rcases alloc_spec with he | ⟨t₁, i, old, hgrown, hold, hfree, he⟩
  · rw [he]
    exact .inl rfl
  · rw [he]
    simp only [install_update]
    exact .inr ⟨i, _, _, rfl, ⟨rfl, t₁, old, hgrown, hold, hfree, rfl⟩, rfl, rfl⟩

/-- port が使われていなければ、LISTEN の socket を置く。 -/
theorem listen_spec (env : Env) (t : TcpTable) (port : UInt16) : tcpListen env t port = (none, t) ∨
    ∃ i r new, tcpListen env t port = (some i, r) ∧ Placed t r i new ∧
      new.state = .listen ∧ new.localPort = port ∧
      ∀ sock ∈ t.sockets, sock.inUse = true → sock.localPort ≠ port := by
  unfold tcpListen
  split
  · exact .inl rfl
  rename_i hfind
  rw [not_isSome_iff_eq_none, tcpFindSocketByLocalPort, findIdx?_eq_none_iff] at hfind
  rcases alloc_spec with he | ⟨t₁, i, old, hgrown, hold, hfree, he⟩
  · rw [he]
    exact .inl rfl
  · rw [he]
    simp only [install_update]
    refine .inr ⟨i, _, _, rfl, ⟨rfl, t₁, old, hgrown, hold, hfree, rfl⟩, rfl, rfl,
      fun sock hsock huse => ?_⟩
    simpa [huse] using hfind sock hsock

/-! ## 接続の socket -/

/-- 接続の途中か、接続している状態。 -/
def Live (state : TcpState) : Prop := state = .synRcvd ∨ state = .established

section Connection

variable (env : Env) (slot : Nat) (listener : Option Nat) (sock : TcpSocket) (pkt : Packet)

/-- packet を受けても変わらないことと、状態の動き。 -/
structure Frame (sock sock' : TcpSocket) (pkt : Packet) : Prop where
  inUse : sock'.inUse = sock.inUse
  localPort : sock'.localPort = sock.localPort
  listen : sock'.state = .listen → Ends sock.state pkt
  live : Live sock'.state → Live sock.state
  closed : sock'.state = .closed → sock.state = .closed

variable {sock} {pkt} in
theorem Frame.self (h : sock.state ≠ .listen) : Frame sock sock pkt :=
  ⟨rfl, rfl, fun he => absurd he h, id, id⟩

variable {sock} {pkt} in
/-- 接続中だった socket では、LISTEN に戻るときだけが問題である。 -/
theorem Frame.of_live (hlive : Live sock.state) (huse : sock'.inUse = sock.inUse)
    (hport : sock'.localPort = sock.localPort) (hclosed : sock'.state ≠ .closed)
    (hlisten : sock'.state = .listen → pkt.has flagRst = true) : Frame sock sock' pkt :=
  ⟨huse, hport, fun he => .inl ⟨hlive, hlisten he⟩, fun _ => hlive, fun he => absurd he hclosed⟩

/-- LISTEN でも接続中でも CLOSED でもない状態に移る。 -/
theorem Frame.quit (huse : sock'.inUse = sock.inUse)
    (hport : sock'.localPort = sock.localPort) (hlisten : sock'.state ≠ .listen)
      (hlive : ¬Live sock'.state)
    (hclosed : sock'.state ≠ .closed) : Frame sock sock' pkt :=
  ⟨huse, hport, fun he => absurd he hlisten, fun he => absurd he hlive, fun he => absurd he hclosed⟩

theorem synRcvdAck_frame (hstate : sock.state = .synRcvd) :
    (synRcvdAck env slot listener sock pkt).1.inUse = sock.inUse ∧
    (synRcvdAck env slot listener sock pkt).1.localPort = sock.localPort ∧
    Live (synRcvdAck env slot listener sock pkt).1.state := by
  unfold synRcvdAck
  dsimp only
  split
  · split
    · simp [acknowledge, Live]
    · simp [Live]
  · split <;> simp [hstate, Live]

theorem synRcvdInput_frame (hstate : sock.state = .synRcvd) :
    Frame sock (synRcvdInput env slot listener sock pkt).1 pkt := by
  have hlive : Live _ := .inl hstate
  have hack : (if pkt.has flagAck then synRcvdAck env slot listener sock pkt else (sock,
    [])).1.inUse = sock.inUse ∧
      (if pkt.has flagAck then synRcvdAck env slot listener sock pkt else (sock, [])).1.localPort =
        sock.localPort ∧
      Live (if pkt.has flagAck then synRcvdAck env slot listener sock pkt else (sock,
        [])).1.state := by
    split
    · exact synRcvdAck_frame env slot _ sock pkt hstate
    · exact ⟨rfl, rfl, hlive⟩
  unfold synRcvdInput
  split
  · exact .of_live hlive (by simp) (by simp) (by simp [hstate]) (by simp [hstate])
  dsimp only
  split
  · rename_i hrst
    exact .of_live hlive hack.1 hack.2.1 (by simp [TcpSocket.relisten]) fun _ => hrst
  · obtain ⟨huse, hport, hstate'⟩ := hack
    refine .of_live hlive huse hport ?_ fun he => ?_
    · rcases hstate' with he | he <;> simp [he]
    · rcases hstate' with he' | he' <;> rw [he'] at he <;> cases he

theorem establishedInput_frame (hstate : sock.state = .established) :
    Frame sock (establishedInput env slot sock pkt).1 pkt := by
  have hlive : Live _ := .inr hstate
  obtain ⟨⟨seq, hdata⟩, -⟩ := establishedData_spec env slot sock pkt
  have hfin : (establishedFin env (establishedData env slot sock pkt).1 pkt).1.inUse = sock.inUse ∧
      (establishedFin env (establishedData env slot sock pkt).1 pkt).1.localPort = sock.localPort ∧
      (establishedFin env (establishedData env slot sock pkt).1 pkt).1.state ≠ .listen ∧
      (establishedFin env (establishedData env slot sock pkt).1 pkt).1.state ≠ .closed := by
    by_cases hflag : pkt.has flagFin = true
    · obtain ⟨⟨seq', he⟩, -⟩ := establishedFin_spec env _ pkt hflag
      rw [he, hdata]
      simp
    · rw [establishedFin_of_not _ _ _ hflag, hdata]
      simp [hstate]
  obtain ⟨huse, hport, hlisten, hclosed⟩ := hfin
  simp only [establishedInput, establishedRst]
  split
  · rename_i hrst
    exact .of_live hlive huse hport (by simp [TcpSocket.relisten]) fun _ => hrst
  · exact .of_live hlive huse hport hclosed fun he => absurd he hlisten

theorem acknowledgeFin_frame {state : TcpState} (hlisten : state ≠ .listen) (hlive : ¬Live state)
    (hclosed : state ≠ .closed) : Frame sock { (acknowledgeFin env sock pkt).1 with state := state }
      pkt := by
  obtain ⟨⟨seq, he⟩, -⟩ := acknowledgeFin_spec env sock pkt
  rw [he]
  exact .quit _ _ rfl rfl hlisten hlive hclosed

/-- 接続の socket が packet を受けても、`in_use` と `local_port` は変わらない。 -/
theorem connectionInput_frame (hstate : sock.state ≠ .listen) :
    Frame sock (connectionInput env slot listener sock pkt).1 pkt := by
  unfold connectionInput
  split
  · exact synRcvdInput_frame env slot _ sock pkt ‹_›
  · exact establishedInput_frame env slot sock pkt ‹_›
  · unfold finWait1Input
    split
    · split
      · exact acknowledgeFin_frame env sock pkt (by simp) (by simp [Live]) (by simp)
      · exact .quit _ _ rfl rfl (by simp) (by simp [Live]) (by simp)
    · split
      · exact acknowledgeFin_frame env sock pkt (by simp) (by simp [Live]) (by simp)
      · exact .self hstate
  · unfold finWait2Input
    split
    · exact acknowledgeFin_frame env sock pkt (by simp) (by simp [Live]) (by simp)
    · exact .self hstate
  · split
    · exact .quit _ _ rfl rfl (by simp) (by simp [Live]) (by simp)
    · exact .self hstate
  · split
    · refine ⟨by simp, by simp, fun he => absurd (by simpa using he) hstate,
        ?_, ?_⟩ <;> intro he <;>
        simpa using he
    · exact .self hstate
  · rename_i hlast
    split
    · rename_i hack
      refine ⟨rfl, rfl, fun _ => .inr ⟨hlast, hack⟩, ?_, ?_⟩ <;> intro he <;>
        simp [Live, TcpSocket.relisten] at he
    · exact .self hstate
  all_goals exact .self hstate

end Connection

/-! ## packet -/

section Receive

variable {s : Sys} {srcIp : Ip} {data : List UInt8} {pkt : Packet}

theorem lookup_inUse (h : tcpLookup t srcIp pkt = some i) (hsock : t.sockets[i]? = some sock) :
    sock.inUse = true := by
  unfold tcpLookup at h
  split at h
  · rename_i k hfind
    obtain rfl := some.inj h
    have hp := findIdx?_getElem? hfind hsock
    simp only [Bool.and_eq_true] at hp
    exact hp.1.1.1
  · obtain ⟨-, hfind⟩ := ite_none_right_eq_some.mp h
    have hp := findIdx?_getElem? hfind hsock
    simp only [Bool.and_eq_true] at hp
    exact hp.1.1

theorem lookup_getElem? (h : tcpLookup t srcIp pkt = some i) :
    ∃ sock, t.sockets[i]? = some sock := by
  have hlt : i < t.sockets.length := by
    unfold tcpLookup at h
    split at h
    · rename_i k hfind
      obtain rfl := some.inj h
      exact (findIdx?_eq_some_iff_getElem.mp hfind).1
    · obtain ⟨-, hfind⟩ := ite_none_right_eq_some.mp h
      exact (findIdx?_eq_some_iff_getElem.mp hfind).1
  exact ⟨_, getElem?_eq_getElem hlt⟩

/-- LISTEN の socket が SYN を受けると、slot が取れなければ何も起きず、取れれば SYN_RCVD の socket を置く。 -/
theorem listenInput_spec (hsyn : pkt.has flagSyn = true) :
    ((tcpAllocSocket env t).1 = none ∧ (listenInput env t sock srcIp pkt).1 = t) ∨
    ∃ i new, (tcpAllocSocket env t).1 = some i ∧
      Placed t (listenInput env t sock srcIp pkt).1 i new ∧
      new.state = .synRcvd ∧ new.localPort = sock.localPort := by
  simp only [listenInput, if_pos hsyn]
  rcases alloc_spec with he | ⟨t₁, i, old, hgrown, hold, hfree, he⟩
  · rw [he]
    exact .inl ⟨rfl, rfl⟩
  · have hclient : (install t₁ i { old with inUse := true }).sockets[i]? = some
      { old with inUse := true } := by
      simp [install, hold]
    rw [he]
    simp only [hclient, install_update]
    refine .inr ⟨i, _, rfl, ⟨?_, t₁, old, hgrown, hold, hfree, rfl⟩, ?_,
      ?_⟩ <;> simp [TcpSocket.answer]

/-- packet が届いた後の状態。 -/
inductive Received (s : Sys) (srcIp : Ip) (data : List UInt8) : Sys → Prop
  | same : Received s srcIp data s
  | connection {i : Nat} {old new : TcpSocket} (hold : s.tcp.sockets[i]? = some old)
      (huse : old.inUse = true) (hstate : old.state ≠ .listen)
        (hframe : Frame old new (Packet.parse data))
      (hended : Ends old.state (Packet.parse data) → endedSlot s.tcp srcIp data = some i) :
      Received s srcIp data { s with
        tcp := s.tcp.update i fun _ => new
        ended := if Ends old.state (Packet.parse data) then Function.update
          s.ended i true else s.ended }
  | syn {i l : Nat} {r : TcpTable} {new listener : TcpSocket}
    (hl : s.tcp.sockets[l]? = some listener)
      (huse : listener.inUse = true) (hlisten : listener.state = .listen)
        (hplaced : Placed s.tcp r i new)
      (hstate : new.state = .synRcvd) (hport : new.localPort = listener.localPort) :
      Received s srcIp data { s with
        tcp := r, conn := Function.update s.conn i s.started, started := s.started + 1 }

theorem Received.fds {s' : Sys} (h : Received s srcIp data s') : s'.fds = s.fds := by
  cases h <;> rfl

/-- 表が変わらず、slot を取りも終えもしない packet。 -/
theorem received_same (hsyn : synSlot env s.tcp srcIp data = none)
    (hended : endedSlot s.tcp srcIp data = none)
    (htcp : (tcpHandlePacket env s.tcp srcIp data).1 = s.tcp) :
    Received s srcIp data (s.receive env srcIp data) := by
  have he : s.receive env srcIp data = s := by
    simp only [Sys.receive, hsyn, hended, htcp]
  rw [he]
  exact .same

section Found

variable (env : Env) (hlen : ¬data.length < tcpHeaderSize)
  (hlook : tcpLookup s.tcp srcIp (Packet.parse data) = some i)
    (hsock : s.tcp.sockets[i]? = some sock)

include hlen hlook hsock

theorem endedSlot_found : endedSlot s.tcp srcIp data =
    if Ends sock.state (Packet.parse data) then some i else none := by
  simp [endedSlot, hlen, hlook, hsock, Option.filter]

theorem received_listen (hstate : sock.state = .listen) :
    Received s srcIp data (s.receive env srcIp data) := by
  have hended : endedSlot s.tcp srcIp data = none := by
    rw [endedSlot_found hlen hlook hsock, if_neg (by simp [Ends, hstate])]
  have htcp : tcpHandlePacket env s.tcp srcIp data = listenInput env s.tcp sock srcIp
    (Packet.parse data) := by
    simp [tcpHandlePacket, hlen, hlook, hsock, hstate]
  by_cases hsyn : (Packet.parse data).has flagSyn = true
  · have hslot : synSlot env s.tcp srcIp data = (tcpAllocSocket env s.tcp).1 := by
      simp [synSlot, hlen, hlook, hsock, hstate, hsyn]
    rcases listenInput_spec hsyn with ⟨hnone, hin⟩ | ⟨k, new, hsome, hplaced, hnew, hport⟩
    · exact received_same (hslot.trans hnone) hended (by rw [htcp, hin])
    · simp only [Sys.receive, hslot, hsome, htcp]
      exact .syn hsock (lookup_inUse hlook hsock) hstate hplaced hnew hport
  · exact received_same (by simp [synSlot, hsyn]) hended (by rw [htcp, listenInput, if_neg hsyn])

theorem received_connection (hstate : sock.state ≠ .listen) :
    Received s srcIp data (s.receive env srcIp data) := by
  have hended := endedSlot_found hlen hlook hsock
  have hsyn : synSlot env s.tcp srcIp data = none := by
    simp [synSlot, hlook, hsock, hstate]
  have he : s.receive env srcIp data = { s with
      tcp := s.tcp.update i fun _ =>
        (connectionInput env i (tcpFindListeningSocket s.tcp sock.localPort) sock
          (Packet.parse data)).1
      ended := if Ends sock.state (Packet.parse data) then Function.update s.ended i
        true else s.ended } := by
    simp only [Sys.receive, hsyn, hended, tcpHandlePacket, hlen, hlook, hsock, hstate, if_false]
    by_cases hends : Ends sock.state (Packet.parse data)
    · simp only [if_pos hends]
    · simp only [if_neg hends]
  rw [he]
  exact .connection hsock (lookup_inUse hlook hsock) hstate
    (connectionInput_frame env i _ sock _ hstate) fun hends => by rw [hended, if_pos hends]

end Found

/-- packet は、何も変えないか、一つの接続を書き換えるか、新しい接続を始める。 -/
theorem received (s : Sys) (env : Env) (srcIp : Ip) (data : List UInt8) :
    Received s srcIp data (s.receive env srcIp data) := by
  by_cases hlen : data.length < tcpHeaderSize
  · refine received_same ?_ ?_ ?_ <;> simp [synSlot, endedSlot, tcpHandlePacket, hlen]
  cases hlook : tcpLookup s.tcp srcIp (Packet.parse data) with
  | none =>
    refine received_same (by simp [synSlot, hlook]) (by simp [endedSlot, hlook]) ?_
    simp only [tcpHandlePacket, hlen, hlook, if_false]
    split <;> rfl
  | some i =>
    cases hsock : s.tcp.sockets[i]? with
    | none =>
      refine received_same (by simp [synSlot, hlook, hsock]) ?_ ?_
      · simp [endedSlot, hlook, hsock]
      · simp [tcpHandlePacket, hlook, hsock]
    | some sock =>
      by_cases hstate : sock.state = .listen
      · exact received_listen env hlen hlook hsock hstate
      · exact received_connection env hlen hlook hsock hstate

end Receive

/-! ## 閉じる、bind する、移す -/

theorem close_spec (env : Env) (hsock : t.sockets[i]? = some sock) :
    ∃ new, new.inUse = false ∧ new.state = .closed ∧
      (tcpClose env t i).1 = { t.update i fun _ => new with count := t.count - 1 } := by
  simp only [tcpClose, hsock]
  exact ⟨_, rfl, rfl, rfl⟩

theorem length_tcpClose : (tcpClose env t i).1.sockets.length = t.sockets.length := by
  unfold tcpClose
  split
  · rfl
  · exact TcpTable.length_update

theorem closeAndRelisten_spec {port : UInt16} (hsock : t.sockets[i]? = some sock) :
    ∃ new, new.inUse = sock.inUse ∧ new.state = .listen ∧ new.localPort = port ∧
      (tcpCloseAndRelisten env t i port).1 = t.update i fun _ => new := by
  simp only [tcpCloseAndRelisten, hsock]
  refine ⟨_, ?_, rfl, rfl, rfl⟩
  unfold farewell
  split <;> simp

/-- ほかの使用中の socket が port を持たなければ、port を書く。 -/
theorem bind_spec {slot : Nat} {port : UInt16} : (tcpBind t slot port).2 = t ∨
    ((tcpBind t slot port).2 = t.update slot ({ · with localPort := port }) ∧
      ∀ j b, t.sockets[j]? = some b → b.inUse = true → j ≠ slot → b.localPort ≠ port) := by
  unfold tcpBind
  split
  · exact .inl rfl
  · rename_i hany
    refine .inr ⟨rfl, fun j b hj huse hne hport => hany ?_⟩
    refine any_eq_true.mpr ⟨(b, j), mem_zipIdx_iff_getElem?.mpr hj, ?_⟩
    simp [huse, hne, hport]

/-- 接続を移すときだけ表が変わる。表が広がると、元の socket は元のまま残る。 -/
theorem accept_spec {slot : Nat} : (tcpAccept env t slot).2 = t ∨
    ∃ sock i r, t.sockets[slot]? = some sock ∧ Live sock.state ∧
      Placed t r i { sock with inUse := true } ∧ ((tcpAccept env t slot).2 = r ∨
        ∃ new, new.inUse = sock.inUse ∧ new.state = .listen ∧ new.localPort = sock.localPort ∧
          (tcpAccept env t slot).2 = r.update slot fun _ => new) := by
  unfold tcpAccept
  split
  · exact .inl rfl
  rename_i sock hsock
  split
  · rename_i hlive
    rcases alloc_spec with he | ⟨t₁, i, old, hgrown, hold, hfree, he⟩
    · rw [he]
      exact .inl rfl
    rw [he]
    simp only [install_update]
    refine .inr ⟨sock, i, _, hsock, hlive.symm, ⟨rfl, t₁, old, hgrown, hold, hfree, rfl⟩, ?_⟩
    split
    · refine .inr ⟨{ sock with
        state := .listen, remotePort := 0, seq := 0, ack := 0, recv := sock.recv.clear,
        remoteIp := Ip.zero }, rfl, rfl, rfl, rfl⟩
    · exact .inl rfl
  · exact .inl rfl

/-! ## descriptor -/

/-- descriptor の指す slot。 -/
def Fd.slot (t : TcpTable) : Fd → Option Nat
  | .socket ptr => slotOf t ptr
  | _ => .none

/-- 開いている descriptor のどれかが slot を指す。 -/
def Refers (t : TcpTable) (fds : List Fd) (i : Nat) : Prop := ∃ fd ∈ fds, fd.slot t = some i
  deriving Decidable

/-- 表が広がって移るのは、descriptor が一つも表を指していないときだけである。 -/
def Steady (t : TcpTable) (fds : List Fd) (t' : TcpTable) : Prop :=
  t'.sockets.length = t.sockets.length ∨ ∀ fd ∈ fds, fd.slot t = none
  deriving Decidable

/-! ## 表が動く手 -/

/-- 次に slot を取ると表が移る。空いた slot がなく、上限より小さく、`kmalloc` が新しい表を返す。 -/
def Grows (env : Env) (t : TcpTable) : Prop :=
  (∀ sock ∈ t.sockets, sock.inUse = true) ∧ t.sockets.length < tcpMaxSockets ∧ env.kmalloc ≠ none
  deriving Decidable

/-- LISTEN の socket に SYN が届く。 -/
def Knocks (t : TcpTable) (srcIp : Ip) (data : List UInt8) : Prop :=
  tcpHeaderSize ≤ data.length ∧ (Packet.parse data).has flagSyn = true ∧
    (((tcpLookup t srcIp (Packet.parse data)).bind (t.sockets[·]?)).any
      fun sock => decide (sock.state = .listen)) = true
  deriving Decidable

/-- 手は slot を取り、そのために表が移る。 -/
def Moves (s : Sys) : Op → Prop
  | .packet env srcIp data => Knocks s.tcp srcIp data ∧ Grows env s.tcp
  | .tcpListen env port => tcpFindSocketByLocalPort s.tcp port = none ∧ Grows env s.tcp
  | .tcpSocketCreate env => Grows env s.tcp
  | .tcpAccept env slot =>
    ((s.tcp.sockets[slot]?).any fun sock => sock.state == .established || sock.state == .synRcvd) =
      true ∧ Grows env s.tcp
  | .socket env domain type => (domain = afInet ∧ type = sockStream) ∧ Grows env s.tcp
  | _ => False

instance (s : Sys) : (op : Op) → Decidable (Moves s op)
  | .packet _ _ _ | .tcpListen _ _ | .tcpAccept _ _ | .socket _ _ _ =>
    inferInstanceAs (Decidable (_ ∧ _))
  | .tcpSocketCreate env => inferInstanceAs (Decidable (Grows env s.tcp))
  | .tcpBind _ _ | .tcpClose _ _ | .bind _ _ | .listen _ | .accept _ _ | .acceptResume _ _ _
  | .close _ _ => inferInstanceAs (Decidable False)

/-- 表が移るのは、descriptor が一つも表を指していないときだけである。 -/
def Anchored (s : Sys) (op : Op) : Prop := ¬Moves s op ∨ ∀ fd ∈ s.fds, fd.slot s.tcp = none
  deriving Decidable

theorem Anchored.steady {s : Sys} {op : Op} {t' : TcpTable} (h : Anchored s op)
    (hlen : ¬Moves s op → t'.sockets.length = s.tcp.sockets.length) : Steady s.tcp s.fds t' :=
  h.imp_left hlen

theorem length_alloc (h : ¬Grows env t) :
    (tcpAllocSocket env t).2.sockets.length = t.sockets.length := by
  unfold tcpAllocSocket
  split
  · rename_i i t' hclaim
    obtain ⟨sock, -, -, he⟩ := claim_spec hclaim
    rw [he]
    exact length_install
  · rename_i hfull
    have hused : ∀ sock ∈ t.sockets, sock.inUse = true := by
      simpa using findIdx?_eq_none_iff.mp (map_eq_none_iff.mp hfull)
    have hgrow : tcpGrowSockets env t = none := by
      unfold tcpGrowSockets
      simp only
      split
      · rfl
      · rename_i hlt
        rw [map_eq_none_iff]
        by_contra hsome
        exact h ⟨hused, Nat.not_le.mp hlt, hsome⟩
    rw [hgrow]

section Length

variable {s : Sys} {srcIp : Ip} {data : List UInt8} {port : UInt16} {slot : Nat} {domain type : Int}

theorem length_tcpSocketCreate (h : ¬Grows env t) :
    (tcpSocketCreate env t).2.sockets.length = t.sockets.length := by
  rw [← length_alloc h]
  unfold tcpSocketCreate
  split <;> rename_i he <;> rw [he]
  exact TcpTable.length_update

theorem length_tcpListen (h : ¬Moves s (.tcpListen env port)) :
    (tcpListen env s.tcp port).2.sockets.length = s.tcp.sockets.length := by
  unfold tcpListen
  split
  · rfl
  · rename_i hnone
    have hfull : ¬Grows env s.tcp := fun hg => h ⟨by simpa using hnone, hg⟩
    rw [← length_alloc hfull]
    split <;> rename_i he <;> rw [he]
    exact TcpTable.length_update

theorem length_tcpAccept (h : ¬Moves s (.tcpAccept env slot)) :
    (tcpAccept env s.tcp slot).2.sockets.length = s.tcp.sockets.length := by
  unfold tcpAccept
  split
  · rfl
  rename_i sock hsock
  split
  · rename_i hlive
    have hfull : ¬Grows env s.tcp := fun hg => h ⟨by simpa [hsock] using hlive, hg⟩
    rw [← length_alloc hfull]
    split <;> rename_i he <;> rw [he]
    split <;> simp
  · rfl

theorem length_sysSocket (h : ¬Moves s (.socket env domain type)) :
    (sysSocket env s domain type).2.tcp.sockets.length = s.tcp.sockets.length := by
  unfold sysSocket
  split
  · rfl
  rename_i hkind
  have hfull : ¬Grows env s.tcp := fun hg => h ⟨by simpa using hkind, hg⟩
  rw [← length_tcpSocketCreate hfull]
  split <;> rename_i he <;> rw [he]
  dsimp only
  split
  · exact length_tcpClose
  · rfl

theorem length_listenInput {pkt : Packet} (h : pkt.has flagSyn = true → ¬Grows env t) :
    (listenInput env t sock srcIp pkt).1.sockets.length = t.sockets.length := by
  unfold listenInput
  split
  · rename_i hsyn
    rw [← length_alloc (h hsyn)]
    split <;> rename_i he <;> rw [he]
    split
    · rfl
    · exact TcpTable.length_update
  · rfl

theorem length_receive (h : ¬Moves s (.packet env srcIp data)) :
    (s.receive env srcIp data).tcp.sockets.length = s.tcp.sockets.length := by
  have htcp : (s.receive env srcIp data).tcp = (tcpHandlePacket env s.tcp srcIp data).1 := by
    unfold Sys.receive
    split
    · rfl
    · split <;> rfl
  rw [htcp, tcpHandlePacket]
  split
  · rfl
  rename_i hlen
  dsimp only
  split
  · split <;> rfl
  rename_i i hlook
  split
  · rfl
  rename_i sock hsock
  split
  · rename_i hstate
    refine length_listenInput fun hsyn hg => h ⟨⟨Nat.not_lt.mp hlen, hsyn, ?_⟩, hg⟩
    simp [hlook, hsock, hstate]
  · exact TcpTable.length_update

end Length

section Descriptors

variable {fds : List Fd} {fd : Nat} {v w : Fd}

theorem fdAlloc_spec (h : fdAlloc fds = some fd) : 3 ≤ fd ∧ fds[fd]? = some .none := by
  obtain ⟨k, hk, rfl⟩ := map_eq_some_iff.mp h
  obtain ⟨hlt, hnone, -⟩ := findIdx?_eq_some_iff_getElem.mp hk
  refine ⟨Nat.le_add_left _ _, ?_⟩
  rw [getElem_drop, decide_eq_true_eq] at hnone
  rw [← hnone, Nat.add_comm, getElem?_eq_getElem]

/-- 表が動かなければ、descriptor の指す slot も変わらない。 -/
theorem Fd.slot_congr (hbase : t₁.base = t.base) (hlen : t₁.sockets.length = t.sockets.length) :
    v.slot t₁ = v.slot t := by
  cases v with
  | socket ptr => exact slotOf_congr hbase hlen
  | none => rfl
  | console => rfl
  | file => rfl

/-- slot を指すのは、socket の descriptor だけである。 -/
theorem Fd.exists_ptr (h : v.slot t = some i) : ∃ ptr, v = .socket ptr ∧ slotOf t ptr = some i := by
  cases v with
  | socket ptr => exact ⟨ptr, rfl, h⟩
  | none => cases h
  | console => cases h
  | file => cases h

theorem Fd.slot_lt (h : v.slot t = some i) : i < t.sockets.length := by
  obtain ⟨ptr, -, hslot⟩ := Fd.exists_ptr h
  exact (slotOf_eq_some.mp hslot).2

/-- 空いている descriptor に書いても、ほかの descriptor は残る。 -/
theorem mem_set_of_none (hfree : fds[fd]? = some .none) (hv : v ∈ fds) (hne : v ≠ .none) :
    v ∈ fds.set fd w := by
  obtain ⟨k, hk⟩ := mem_iff_getElem?.mp hv
  have hkfd : fd ≠ k := by
    rintro rfl
    exact hne (some.inj (hk.symm.trans hfree))
  exact mem_iff_getElem?.mpr ⟨k, by rw [getElem?_set_ne hkfd, hk]⟩

theorem Refers.set (h : Refers t fds i) (hfree : fds[fd]? = some .none) :
    Refers t (fds.set fd v) i := by
  obtain ⟨w, hw, hslot⟩ := h
  refine ⟨w, mem_set_of_none hfree hw ?_, hslot⟩
  rintro rfl
  cases hslot

/-- 手放す descriptor がほかを指していれば、slot は指されたままである。 -/
theorem Refers.drop (h : Refers t fds i) (hother : ∀ v, fds[fd]? = some v → v.slot t ≠ some i) :
    Refers t (fds.set fd .none) i := by
  obtain ⟨v, hv, hslot⟩ := h
  obtain ⟨k, hk⟩ := mem_iff_getElem?.mp hv
  have hne : fd ≠ k := by
    rintro rfl
    exact hother v hk hslot
  exact ⟨v, mem_iff_getElem?.mpr ⟨k, (getElem?_set_ne hne).trans hk⟩, hslot⟩

/-- 指された slot があれば、表は動いていない。 -/
theorem Refers.move (h : Refers t fds i) (hsteady : Steady t fds t₁)
    (hbase : t₁.sockets.length = t.sockets.length → t₁.base = t.base) : Refers t₁ fds i := by
  obtain ⟨w, hw, hslot⟩ := h
  rcases hsteady with hlen | hnone
  · exact ⟨w, hw, (Fd.slot_congr (hbase hlen) hlen).trans hslot⟩
  · rw [hnone w hw] at hslot
    cases hslot

end Descriptors

/-- 取った slot を閉じても、表の長さは変わらない。 -/
theorem Steady.of_closeSlot {s : Sys} {fds : List Fd} (h : Steady t fds (s.closeSlot env i).tcp) :
    Steady t fds s.tcp := by
  rwa [Steady, Sys.closeSlot, length_tcpClose] at h

/-! ## system call -/

section Calls

variable {s : Sys} {domain type fd : Int} {port : UInt16}

/-- `sys_socket` の後の状態。descriptor が無ければ、取った slot を閉じる。 -/
inductive Opened (env : Env) (s : Sys) : Sys → Prop
  | failed : Opened env s s
  | full {i : Nat} {r : TcpTable} {new : TcpSocket} (hplaced : Placed s.tcp r i new)
      (hclosed : new.state = .closed) (hport : new.localPort = 0) :
      Opened env s (Sys.closeSlot { s with tcp := r } env i)
  | opened {i fd : Nat} {r : TcpTable} {new : TcpSocket} (hplaced : Placed s.tcp r i new)
      (hclosed : new.state = .closed) (hport : new.localPort = 0)
        (hfree : s.fds[fd]? = some .none) :
      Opened env s { s with
        tcp := r
        fds := s.fds.set fd (.socket (address r i))
        serverSocket := some (address r i)
        serverFd := fd
        serverClosing := false }

theorem opened (env : Env) (s : Sys) (domain type : Int) :
    Opened env s (sysSocket env s domain type).2 := by
  unfold sysSocket
  split
  · exact .failed
  · rcases socketCreate_spec env _ with he | ⟨i, r, new, he, hplaced, hclosed, hport⟩ <;> rw [he]
    · exact .failed
    · dsimp only
      split
      · exact .full hplaced hclosed hport
      · rename_i fd hfd
        exact .opened hplaced hclosed hport (fdAlloc_spec hfd).2

/-- `sys_bind` は、何も変えないか、descriptor の指す slot に `tcp_bind` を使う。 -/
theorem sysBind_spec {res : Int × Sys} (h : sysBind s fd port = some res) :
    res.2 = s ∨ ∃ i, (s.fd fd).slot s.tcp = some i ∧
      res.2 = { s with tcp := (tcpBind s.tcp i port).2 } := by
  unfold sysBind at h
  split at h
  · rename_i ptr hfd
    obtain ⟨i, hi, rfl⟩ := map_eq_some_iff.mp h
    exact .inr ⟨i, by rw [hfd]; exact hi, rfl⟩
  · obtain rfl := some.inj h
    exact .inl rfl

/-- `sys_listen` は、何も変えないか、bind された socket を LISTEN にする。 -/
theorem sysListen_spec {res : Int × Sys} (h : sysListen s fd = some res) :
    res.2 = s ∨ ∃ i sock, (s.fd fd).slot s.tcp = some i ∧ s.tcp.sockets[i]? = some sock ∧
      sock.localPort ≠ 0 ∧ res.2 = { s with tcp := s.tcp.update i fun _ =>
        { sock with state := .listen } } := by
  unfold sysListen at h
  split at h
  · rename_i ptr hfd
    obtain ⟨i, hi, h⟩ := bind_eq_some_iff.mp h
    obtain ⟨sock, hsock, rfl⟩ := map_eq_some_iff.mp h
    split
    · exact .inl rfl
    · rename_i hport
      refine .inr ⟨i, sock, by rw [hfd]; exact hi, hsock, hport, ?_⟩
      rw [update_const _ hsock]
  · obtain rfl := some.inj h
    exact .inl rfl

/-- LISTEN の socket の番地から見つかる client。 -/
def readyClient (s : Sys) (ptr : Nat) : Option Nat :=
  (slotOf s.tcp ptr).bind fun i => (s.tcp.sockets[i]?).bind fun sock =>
    tcpFindReadyClient s.tcp sock.localPort

/-- `sys_accept` が待たずに見つける client。 -/
def acceptCandidate (s : Sys) (fd : Int) : Option Nat :=
  match s.fd fd with
  | .socket ptr => (slotOf s.tcp ptr).bind fun i => (s.tcp.sockets[i]?).bind fun sock =>
      if sock.state = .listen then tcpFindReadyClient s.tcp sock.localPort else none
  | _ => none

/-- 待った後で見つける client。 -/
def resumeCandidate (s : Sys) (ptr : Nat) (gotClient : Bool) : Option Nat :=
  if gotClient then readyClient s ptr else none

/-- `sys_accept` の後の状態。見つけた client に descriptor を与えるか、与えられずに閉じる。 -/
inductive Handed (env : Env) (s : Sys) (candidate : Option Nat) : Sys → Prop
  | same (l : List Nat) : Handed env s candidate { s with accepting := l }
  | full {client : Nat} {sock : TcpSocket} (l : List Nat) (hcand : candidate = some client)
      (hsock : s.tcp.sockets[client]? = some sock) (huse : sock.inUse = true)
      (hstate : sock.state = .established) :
      Handed env s candidate (Sys.closeSlot { s with accepting := l } env client)
  | given {client fd : Nat} {sock : TcpSocket} (l : List Nat) (hcand : candidate = some client)
      (hsock : s.tcp.sockets[client]? = some sock) (huse : sock.inUse = true)
      (hstate : sock.state = .established) (hfree : s.fds[fd]? = some .none) :
      Handed env s candidate { s with
        fds := s.fds.set fd (.socket (address s.tcp client))
        accepted := s.accepted ++ [s.conn client]
        accepting := l }

theorem handed_client {candidate : Option Nat} {client : Nat} (l : List Nat)
    (hcand : candidate = some client) (hfind : tcpFindReadyClient s.tcp port = some client) :
    Handed env s candidate (acceptClient env { s with accepting := l } client).2 := by
  obtain ⟨hlt, hp, -⟩ := findIdx?_eq_some_iff_getElem.mp hfind
  simp only [Bool.and_eq_true, beq_iff_eq] at hp
  obtain ⟨⟨huse, -⟩, hstate⟩ := hp
  have hsock := getElem?_eq_getElem hlt
  unfold acceptClient
  split
  · exact .full l hcand hsock huse hstate
  · rename_i fd hfd
    exact .given l hcand hsock huse hstate (fdAlloc_spec hfd).2

theorem sysAccept_handed {res : Option Int × Sys} (h : sysAccept env s fd = some res) :
    Handed env s (acceptCandidate s fd) res.2 := by
  unfold sysAccept at h
  split at h
  · rename_i ptr hfd
    obtain ⟨i, hi, h⟩ := bind_eq_some_iff.mp h
    obtain ⟨sock, hsock, rfl⟩ := map_eq_some_iff.mp h
    split
    · exact .same _
    · rename_i hlisten
      split
      · rename_i client hfind
        refine handed_client _ ?_ hfind
        simp only [acceptCandidate, hfd, hi, bind_some, hsock]
        rw [if_pos (not_not.mp hlisten), hfind]
      · exact .same _
  · obtain rfl := some.inj h
    exact .same _

theorem sysAcceptResume_handed {gotClient : Bool} {res : Int × Sys}
    (h : sysAcceptResume env s ptr gotClient = some res) :
    Handed env s (resumeCandidate s ptr gotClient) res.2 := by
  obtain ⟨-, h⟩ := ite_none_left_eq_some.mp h
  split at h
  · obtain rfl := some.inj h
    exact .same _
  rename_i hgot
  obtain ⟨i, hi, h⟩ := bind_eq_some_iff.mp h
  obtain ⟨sock, hsock, rfl⟩ := map_eq_some_iff.mp h
  split
  · rename_i client hfind
    refine handed_client _ ?_ hfind
    simp only [resumeCandidate, readyClient, not_not.mp hgot, if_true, hi, bind_some, hsock]
    exact hfind
  · exact .same _

end Calls

end Alos.Socket
