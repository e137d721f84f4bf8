import Alos.KHeap.Model
import Alos.Socket.Listen

/-!
# 持ち続ける番地

descriptor と、SYN を処理している `tcp_handle_packet` は、socket の番地を持ち続ける。`tcp_grow_sockets` は表を新しい領域に
移して元の領域を解放するので、持っていた番地は表の外を指すことになる。

成り立つのは、番地を持つものがある間に表が広がらないときである。

* `handles_valid` — 表が動かなければ、持っていた番地は同じ使用中の slot を指し続ける
* `handles_stale` — 八つ目の接続で表が広がり、descriptor の番地も `tcp_handle_packet` の番地も何も指さなくなる
-/

namespace Alos.Socket

open Option

open Net (Ip Env)
open Tcp

variable {t t₁ r : TcpTable} {env : Env} {ptr i j : Nat} {old new : TcpSocket}
  {s s' : Sys} {op : Op}

/-- 番地は、使用中の slot `i` を指す。 -/
def Denotes (t : TcpTable) (ptr i : Nat) : Prop :=
  slotOf t ptr = some i ∧ ∃ sock, t.sockets[i]? = some sock ∧ sock.inUse = true

/-- 開いている descriptor は、どれも使用中の slot を指す。 -/
def Valid (s : Sys) : Prop := ∀ (fd ptr : Nat), s.fds[fd]? = some (Fd.socket ptr) →
    ∃ i, Denotes s.tcp ptr i

/--
socket を作る呼出しと、packet の到着。番地を持つものがある間は、表を移す手はない。SYN を処理する間は、`tcp_handle_packet` が
番地を持つ。
-/
def Creates (s : Sys) : Op → Prop
  | .packet env srcIp data => ¬Moves s (.packet env srcIp data)
  | .tcpListen env port => Anchored s (.tcpListen env port)
  | .tcpSocketCreate env => Anchored s (.tcpSocketCreate env)
  | .socket env domain type => Anchored s (.socket env domain type)
  | _ => False

instance (s : Sys) : (op : Op) → Decidable (Creates s op)
  | .packet _ _ _ => inferInstanceAs (Decidable (¬_))
  | .tcpListen _ _ | .tcpSocketCreate _ | .socket _ _ _ =>
    inferInstanceAs (Decidable (Anchored _ _))
  | .tcpBind _ _ | .tcpAccept _ _ | .tcpClose _ _ | .bind _ _ | .listen _ | .accept _
    _ | .acceptResume _ _ _
  | .close _ _ => inferInstanceAs (Decidable False)

/-! ## 一つの番地 -/

namespace Denotes

theorem place (h : Denotes t ptr i) (hplaced : Placed t r j new)
    (hlen : r.sockets.length = t.sockets.length) :
    Denotes r ptr i := by
  obtain ⟨hslot, sock, hsock, huse⟩ := h
  exact ⟨(slotOf_congr (hplaced.base_eq hlen) hlen).trans hslot, sock,
    (hplaced.keep hsock huse).2, huse⟩

theorem replace (h : Denotes t ptr i) (hold : t.sockets[j]? = some old)
    (huse : new.inUse = old.inUse) :
    Denotes (t.update j fun _ => new) ptr i := by
  obtain ⟨hslot, sock, hsock, hused⟩ := h
  refine ⟨slotOf_update.trans hslot, ?_⟩
  by_cases hji : j = i
  · subst hji
    obtain rfl := some.inj (hold.symm.trans hsock)
    exact ⟨new, by simp [hsock], huse.trans hused⟩
  · exact ⟨sock, (TcpTable.getElem?_update_of_ne hji).trans hsock, hused⟩

theorem close (h : Denotes t ptr i) (hold : t.sockets[j]? = some old) (hne : i ≠ j) :
    Denotes (tcpClose env t j).1 ptr i := by
  obtain ⟨hslot, sock, hsock, hused⟩ := h
  obtain ⟨new, -, -, he⟩ := close_spec env hold
  rw [he]
  exact ⟨slotOf_update.trans hslot, sock,
    (TcpTable.getElem?_update_of_ne hne.symm).trans hsock, hused⟩

theorem receive {srcIp : Ip} {data : List UInt8} (h : Denotes s.tcp ptr i)
    (hr : Received s srcIp data s')
    (hlen : s'.tcp.sockets.length = s.tcp.sockets.length) : Denotes s'.tcp ptr i := by
  cases hr with
  | same => exact h
  | connection hold _ _ hframe _ => exact h.replace hold hframe.inUse
  | syn _ _ _ hplaced _ _ => exact h.place hplaced hlen

/-- 表を指す descriptor があれば、表は広がらない。 -/
theorem length_eq {fds : List Fd} {fd : Nat} (h : Denotes t ptr i)
    (hfd : fds[fd]? = some (Fd.socket ptr))
    (hsteady : Steady t fds t₁) : t₁.sockets.length = t.sockets.length := by
  rcases hsteady with hlen | hnone
  · exact hlen
  · have hslot := hnone _ (List.mem_of_getElem? hfd)
    rw [Fd.slot, h.1] at hslot
    cases hslot

end Denotes

theorem denotes_address {sock : TcpSocket} (hsock : t.sockets[i]? = some sock)
    (huse : sock.inUse = true) :
    Denotes t (address t i) i :=
  ⟨slotOf_address (lt_of_getElem? hsock), sock, hsock, huse⟩

/-! ## 一手 -/

/-- `s` で開いていた descriptor は、`s'` でも同じ番地を持ち、同じ slot を指す。 -/
structure Later (s s' : Sys) : Prop where
  keep : ∀ (fd ptr i : Nat), s.fds[fd]? = some (Fd.socket ptr) → Denotes s.tcp ptr i →
    s'.fds[fd]? = some (Fd.socket ptr) ∧ Denotes s'.tcp ptr i
  valid : Valid s'

theorem Later.of_fds (hvalid : Valid s) (hfds : s'.fds = s.fds)
    (hkeep : ∀ (fd ptr i : Nat), s.fds[fd]? = some (Fd.socket ptr) → Denotes s.tcp ptr i →
      Denotes s'.tcp ptr i) :
    Later s s' := by
  refine ⟨fun fd ptr i hfd hi => ⟨hfds ▸ hfd, hkeep fd ptr i hfd hi⟩, fun fd ptr hfd => ?_⟩
  rw [hfds] at hfd
  obtain ⟨i, hi⟩ := hvalid fd ptr hfd
  exact ⟨i, hkeep fd ptr i hfd hi⟩

theorem Later.place (hvalid : Valid s) (hplaced : Placed s.tcp r j new)
    (hsteady : Steady s.tcp s.fds r) :
    Later s { s with tcp := r } :=
  .of_fds hvalid rfl fun _ _ _ hfd hi => hi.place hplaced (hi.length_eq hfd hsteady)

theorem Later.opened (hvalid : Valid s) (ho : Opened env s s')
    (hsteady : Steady s.tcp s.fds s'.tcp) :
    Later s s' := by
  cases ho with
  | failed => exact .of_fds hvalid rfl fun _ _ _ _ hi => hi
  | @full k r new hplaced =>
    refine .of_fds hvalid rfl fun fd ptr i hfd hi => ?_
    obtain ⟨sock, hsock, huse⟩ := hi.2
    have hplace := hi.place hplaced (hi.length_eq hfd hsteady.of_closeSlot)
    exact hplace.close hplaced.getElem?_self (hplaced.keep hsock huse).1
  | @opened k newFd r new hplaced _ _ hfree =>
    have hplace := Later.place hvalid hplaced hsteady
    refine ⟨fun fd ptr i hfd hi => ⟨?_, (hplace.keep fd ptr i hfd hi).2⟩, fun fd ptr hfd => ?_⟩
    · have hne : newFd ≠ fd := by
        rintro rfl
        cases hfree.symm.trans hfd
      rw [← hfd]
      exact List.getElem?_set_ne hne
    · by_cases hne : newFd = fd
      · subst hne
        have hself := List.getElem?_set_self (a := Fd.socket (address r k))
          (List.getElem?_eq_some_iff.mp hfree).1
        obtain rfl := Fd.socket.inj (some.inj (hfd.symm.trans hself))
        exact ⟨k, denotes_address hplaced.getElem?_self hplaced.inUse⟩
      · exact hplace.valid fd ptr ((List.getElem?_set_ne hne).symm.trans hfd)

theorem Later.step (hvalid : Valid s) (hlegal : Creates s op) (hs : step s op = some s') :
    Later s s' := by
  cases op with
  | packet env srcIp data =>
    obtain rfl := some.inj hs
    have hr := received s env srcIp data
    exact .of_fds hvalid hr.fds fun _ _ _ _ hi => hi.receive hr (length_receive hlegal)
  | tcpListen env port =>
    obtain rfl := some.inj hs
    have hsteady := hlegal.steady length_tcpListen
    rcases listen_spec env _ port with he | ⟨i, r, new, he, hplaced, -⟩
    · rw [he]
      exact .of_fds hvalid rfl fun _ _ _ _ hi => hi
    · rw [he] at hsteady ⊢
      exact .place hvalid hplaced hsteady
  | tcpSocketCreate env =>
    obtain rfl := some.inj hs
    have hsteady := hlegal.steady length_tcpSocketCreate
    rcases socketCreate_spec env _ with he | ⟨i, r, new, he, hplaced, -⟩
    · rw [he]
      exact .of_fds hvalid rfl fun _ _ _ _ hi => hi
    · rw [he] at hsteady ⊢
      exact .place hvalid hplaced hsteady
  | socket env domain type =>
    obtain rfl := some.inj hs
    exact .opened hvalid (Socket.opened env s _ type) (hlegal.steady length_sysSocket)
  | tcpBind | tcpAccept | tcpClose | bind | listen | accept | acceptResume | close =>
    exact hlegal.elim

/-! ## 実行 -/

/-- **表が動かなければ、持っていた番地は同じ使用中の slot を指し続ける。** -/
theorem handles_valid {ops : List Op} (hvalid : Valid s) (h : Run.Reach step Creates s ops s') :
    (∀ (fd ptr i : Nat), s.fds[fd]? = some (Fd.socket ptr) → Denotes s.tcp ptr i →
      s'.fds[fd]? = some (Fd.socket ptr) ∧ Denotes s'.tcp ptr i) ∧
    Valid s' ∧
    ∀ (env : Env) (srcIp : Ip) (data : List UInt8) (i : Nat), Creates s' (.packet env srcIp data) →
      tcpLookup s'.tcp srcIp (Packet.parse data) = some i →
      Denotes (s'.receive env srcIp data).tcp (address s'.tcp i) i := by
  have hlater : Later s s' := by
    refine h.invariant (P := Later s) (.of_fds hvalid rfl fun _ _ _ _ hi => hi)
      fun m op m' hm hlegal hs => ?_
    have hnext := Later.step hm.valid hlegal hs
    refine ⟨fun fd ptr i hfd hi => ?_, hnext.valid⟩
    obtain ⟨hfd', hi'⟩ := hm.keep fd ptr i hfd hi
    exact hnext.keep fd ptr i hfd' hi'
  refine ⟨hlater.keep, hlater.valid, fun env srcIp data i hlegal hlook => ?_⟩
  obtain ⟨sock, hsock⟩ := lookup_getElem? hlook
  exact (denotes_address hsock (lookup_inUse hlook hsock)).receive (received s' env _ data)
    (length_receive hlegal)

/-- gateway の、`k` 番目の port からの SYN。 -/
def synFrom (k : Nat) : List UInt8 :=
  { gateway with port := 4000 + UInt16.ofNat k, isn := 100 }.segment 80 0 0 flagSyn []

/-- 最初の表が置かれた後では、`kmalloc` は次の番地を返す。 -/
def grownEnv : Env := { Env.qemu with kmalloc := some 0x2083B0 }

/-- 1 MiB の heap は、八つの socket の表と十六の socket の表を、この二つの番地に置く。 -/
example : ((KHeap.kmalloc (KHeap.kheapInit ⟨fun _ => 0, 0, 0⟩ 0x200000 0x100000)
    (8 * socketSize)).bind
    fun r => (KHeap.kmalloc r.2 (16 * socketSize)).map fun r' => (some r.1, some r'.1)) =
      some (Env.qemu.kmalloc, grownEnv.kmalloc) := by decide +kernel

/-- server の socket を開いて待つ。 -/
def serverRun : List Op := [.socket Env.qemu 2 1, .bind 3 80, .listen 3]

/-- 七つの接続で表を埋める。 -/
def fillRun : List Op := (List.range 7).map fun k => .packet grownEnv gateway.ip (synFrom k)

/-- 表を埋めるまでは、descriptor 3 の番地は slot 0 を指す。 -/
theorem handles_valid_fill : ∃ s s', Run.Reach step (fun _ _ => True)
    (Sys.boot Env.qemu) serverRun s ∧
    Run.Reach step Creates s fillRun s' ∧ Valid s ∧ s'.fds[3]? = some (Fd.socket 0x200018) ∧
    Denotes s'.tcp 0x200018 0 ∧ Valid s' := by
  have hrun : (Run.execute step (fun _ _ => True) (Sys.boot Env.qemu) serverRun).map (fun s =>
      (s.fds, slotOf s.tcp 0x200018, (s.tcp.sockets[0]?).map (·.inUse),
        (Run.execute step Creates s fillRun).isSome)) =
      some ([.console, .console, .console, .socket 0x200018] ++ List.replicate 28 .none,
        some 0, some true,
        true) := by decide +kernel
  obtain ⟨s, hs, he⟩ := map_eq_some_iff.mp hrun
  simp only [Prod.mk.injEq, map_eq_some_iff, isSome_iff_exists] at he
  obtain ⟨hfds, hslot, hsock, s', hs'⟩ := he
  have hvalid : Valid s := by
    intro fd ptr hfd
    rw [hfds] at hfd
    have hmem := List.mem_of_getElem? hfd
    simp only [List.mem_append, List.mem_cons, List.mem_replicate, reduceCtorEq, Fd.socket.injEq,
      List.not_mem_nil,
      false_or, or_false, and_false] at hmem
    subst hmem
    exact ⟨0, hslot, hsock⟩
  have hfd : s.fds[3]? = some (Fd.socket 0x200018) := by rw [hfds]; rfl
  have hreach := Run.reach_of_execute hs'
  have hresult := handles_valid hvalid hreach
  obtain ⟨hfd', hdenotes⟩ := hresult.1 3 _ 0 hfd ⟨hslot, hsock⟩
  exact ⟨s, s', Run.reach_of_execute hs, hreach, hvalid, hfd', hdenotes, hresult.2.1⟩

/-- **八つ目の接続で表が広がると、descriptor の番地も `tcp_handle_packet` の番地も、何も指さなくなる。** -/
theorem handles_stale : ∃ s s', Run.Reach step (fun _ _ => True) (Sys.boot Env.qemu) serverRun s ∧
    s.fds[3]? = some (Fd.socket 0x200018) ∧ Denotes s.tcp 0x200018 0 ∧
    Run.Reach step (fun _ _ => True) s fillRun s' ∧
    tcpLookup s'.tcp gateway.ip (Packet.parse (synFrom 7)) = some 0 ∧ address s'.tcp 0 = 0x200018 ∧
    (s'.receive grownEnv gateway.ip (synFrom 7)).tcp.sockets.length ≤ tcpMaxSockets ∧
    (s'.receive grownEnv gateway.ip (synFrom 7)).fds[3]? = some (Fd.socket 0x200018) ∧
    ∀ i, ¬Denotes (s'.receive grownEnv gateway.ip (synFrom 7)).tcp 0x200018 i := by
  have hnone {t : TcpTable} {ptr : Nat} (h : slotOf t ptr = none) (i : Nat) : ¬Denotes t ptr i :=
    fun hi => by cases h.symm.trans hi.1
  refine ⟨_, _, Run.reach_get ?_, ?_, ⟨?_, map_eq_some_iff.mp ?_⟩, Run.reach_get ?_, ?_, ?_, ?_,
    ?_, hnone ?_⟩
  all_goals decide +kernel

end Alos.Socket
