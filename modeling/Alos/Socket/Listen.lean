import Alos.Socket.Slots
import Alos.Tcp.Stream
import Mathlib.Data.List.Basic

/-!
# LISTEN の socket と、終わった接続の slot

接続が終わると、`tcp_handle_packet` は slot を空けずに LISTEN に戻す。SYN は新しい slot を取るので、もとの LISTEN の socket も
残っていて、同じ port の LISTEN が二つになる。

成り立つのは、終わる接続に descriptor があって port に LISTEN の socket が残っておらず、`sys_listen` が CLOSED か LISTEN の
socket にだけ使われるときである。

* `listen_unique` — LISTEN は port に一つで、終わった接続の slot は descriptor が指し、数も合う
* `listen_duplicated` — RST が一つ届けば、同じ port の LISTEN が二つになる
-/

namespace Alos.Socket

open List Option
open Net (Ip Env)
open Tcp

variable {t t₁ r : TcpTable} {env : Env} {i j slot : Nat} {sock old new a b : TcpSocket}
  {port : UInt16}

/-! ## 調べること -/

/-- 同じ port で LISTEN の、使用中の socket は一つしか無い。 -/
def UniqueListen (t : TcpTable) : Prop :=
  ∀ (i j : Nat) (a b : TcpSocket), t.sockets[i]? = some a → t.sockets[j]? = some b →
    a.inUse = true → b.inUse = true →
    a.state = .listen → b.state = .listen → a.localPort = b.localPort → i = j

/-- 終わった接続の slot が使用中なら、descriptor が指している。 -/
def Released (s : Sys) : Prop :=
  ∀ (i : Nat) (sock : TcpSocket), s.tcp.sockets[i]? = some sock → sock.inUse = true →
    s.ended i = true → Refers s.tcp s.fds i

/-- `tcp_socket_count` は、使用中の slot の数である。 -/
def Counted (t : TcpTable) : Prop := t.count = (t.sockets.countP (·.inUse) : Nat)

/-! ## 表 -/

/--
同じ port を持つ二つの使用中の socket に許されること。CLOSED の socket の port は零でなければ自分だけのもので、LISTEN は
一つである。
-/
def Compatible (a b : TcpSocket) : Prop :=
  a.localPort = b.localPort →
    (a.state = .closed → a.localPort = 0) ∧ (a.state = .listen → b.state ≠ .listen)

theorem Compatible.of_port (h : a.localPort ≠ b.localPort) : Compatible a b :=
  fun he => absurd he h

structure Tidy (t : TcpTable) : Prop where
  count : Counted t
  idle : ∀ (i : Nat) (sock : TcpSocket), t.sockets[i]? = some sock → sock.inUse = false →
    ¬Live sock.state
  apart : ∀ (i j : Nat) (a b : TcpSocket), t.sockets[i]? = some a → t.sockets[j]? = some b →
    i ≠ j → a.inUse = true →
    b.inUse = true → Compatible a b

namespace Tidy

section

variable (h : Tidy t)
include h

theorem unique : UniqueListen t := by
  intro i j a b hi hj ha hb hla hlb hport
  by_contra hne
  exact (h.apart i j a b hi hj hne ha hb hport).2 hla hlb

/-- CLOSED でない socket と port を分け合う CLOSED の socket の port は、零である。 -/
theorem port_zero (hi : t.sockets[i]? = some a) (ha : a.inUse = true)
    (hopen : a.state ≠ .closed) (hj : t.sockets[j]? = some b) (hb : b.inUse = true)
    (hport : b.localPort = a.localPort) (hclosed : b.state = .closed) : b.localPort = 0 := by
  have hne : j ≠ i := by
    rintro rfl
    obtain rfl := some.inj (hi.symm.trans hj)
    exact hopen hclosed
  exact (h.apart j i b a hj hi hne hb ha hport).1 hclosed

section

variable (hold : t.sockets[i]? = some old)
include hold

theorem set (hidle : new.inUse = false → ¬Live new.state)
    (hapart : new.inUse = true → ∀ (j : Nat) (b : TcpSocket), t.sockets[j]? = some b → j ≠ i →
      b.inUse = true →
      Compatible new b ∧ Compatible b new) : Tidy { t.update i fun _ => new with
      count := t.count - (if old.inUse then 1 else 0) + (if new.inUse then 1 else 0) } := by
  have hself : (t.update i fun _ => new).sockets[i]? = some new := by simp [hold]
  refine ⟨?_, fun k sock hk hfree => ?_, fun k m a b hk hm hne ha hb => ?_⟩
  · obtain ⟨hlt, hget⟩ := List.getElem?_eq_some_iff.mp hold
    have hpos : old.inUse = true → 0 < t.sockets.countP (·.inUse) := fun hused =>
      List.countP_pos_iff.mpr ⟨old, List.mem_of_getElem? hold, hused⟩
    have hcount := h.count
    simp only [Counted, TcpTable.update, ← List.set_eq_modify, List.countP_set hlt,
      hget] at hcount ⊢
    split
    · rename_i hused
      have := hpos hused
      split <;> omega
    · split <;> omega
  · by_cases hki : i = k
    · subst hki
      obtain rfl := some.inj (hself.symm.trans hk)
      exact hidle hfree
    · exact h.idle k sock ((TcpTable.getElem?_update_of_ne hki).symm.trans hk) hfree
  · by_cases hki : i = k
    · subst hki
      obtain rfl := some.inj (hself.symm.trans hk)
      exact (hapart ha m b ((TcpTable.getElem?_update_of_ne hne).symm.trans hm) hne.symm hb).1
    · have hk' := (TcpTable.getElem?_update_of_ne hki).symm.trans hk
      by_cases hmi : i = m
      · subst hmi
        obtain rfl := some.inj (hself.symm.trans hm)
        exact (hapart hb k a hk' hne ha).2
      · exact h.apart k m a b hk' ((TcpTable.getElem?_update_of_ne hmi).symm.trans hm) hne ha hb

/-- 使用中かどうかを変えない書換え。 -/
theorem replace (huse : new.inUse = old.inUse) (hlive : Live new.state → Live old.state)
    (hapart : new.inUse = true → ∀ (j : Nat) (b : TcpSocket), t.sockets[j]? = some b →
      j ≠ i → b.inUse = true →
      Compatible new b ∧ Compatible b new) : Tidy (t.update i fun _ => new) := by
  have hset := h.set hold (fun hfree hl => h.idle i old hold (huse ▸ hfree) (hlive hl)) hapart
  rwa [huse, Int.sub_add_cancel] at hset

/-- 状態だけを変える。LISTEN にするなら、port にほかの LISTEN は無い。 -/
theorem restate (huse : new.inUse = old.inUse) (hport : new.localPort = old.localPort)
    (hlive : Live new.state → Live old.state) (hclosed : new.state = .closed → old.state = .closed)
    (hlisten : new.state = .listen → old.inUse = true → ∀ (j : Nat) (b : TcpSocket),
      t.sockets[j]? = some b → j ≠ i →
      b.inUse = true → b.localPort = old.localPort → b.state ≠ .listen) :
    Tidy (t.update i fun _ => new) := by
  refine h.replace hold huse hlive fun hnew j b hj hne hb => ?_
  have hused : old.inUse = true := huse ▸ hnew
  refine ⟨fun he => ⟨fun hc => ?_, fun hl => ?_⟩, fun he => ⟨fun hc => ?_, fun hl hl' => ?_⟩⟩
  · rw [hport]
    exact (h.apart i j old b hold hj hne.symm hused hb (hport ▸ he)).1 (hclosed hc)
  · exact hlisten hl hused j b hj hne hb (hport ▸ he.symm)
  · exact (h.apart j i b old hj hold hne hb hused (hport ▸ he)).1 hc
  · exact hlisten hl' hused j b hj hne hb (hport ▸ he) hl

theorem release (hused : old.inUse = true) (hfree : new.inUse = false)
    (hclosed : new.state = .closed) :
    Tidy { t.update i fun _ => new with count := t.count - 1 } := by
  have hidle : ¬Live new.state := by simp [Live, hclosed]
  have hset := h.set hold (fun _ => hidle) fun hnew =>
    absurd (hfree.symm.trans hnew) Bool.false_ne_true
  simpa [hused, hfree] using hset

end

/-- 表が広がっても、使用中の slot は同じである。 -/
theorem grown (hgrown : Grown t t₁) : Tidy t₁ := by
  obtain ⟨n, hn⟩ := hgrown.extra
  refine ⟨?_, fun k sock hk hfree => ?_, fun k m a b hk hm hne ha hb => ?_⟩
  · have hcount := h.count
    simp only [Counted, hgrown.count, hn, countP_append, countP_replicate] at hcount ⊢
    simpa [tcpInitSocket] using hcount
  · rw [hn] at hk
    by_cases hlt : k < t.sockets.length
    · exact h.idle k sock (by rwa [getElem?_append_left hlt] at hk) hfree
    · rw [getElem?_append_right (Nat.not_lt.mp hlt)] at hk
      rw [eq_of_mem_replicate (mem_of_getElem? hk)]
      simp [Live, tcpInitSocket]
  · exact h.apart k m a b (hgrown.of_inUse hk ha) (hgrown.of_inUse hm hb) hne ha hb

theorem place (hplaced : Placed t r i new)
    (hapart : ∀ (j : Nat) (b : TcpSocket), t.sockets[j]? = some b → b.inUse = true →
      Compatible new b ∧ Compatible b new) :
    Tidy r := by
  obtain ⟨t₁, old, hgrown, hold, hfree, rfl⟩ := hplaced.eq
  have hset := (h.grown hgrown).set hold
    (fun hnot => absurd (hnot.symm.trans hplaced.inUse) Bool.false_ne_true)
    fun _ j b hj _ hb => hapart j b (hgrown.of_inUse hj hb) hb
  simpa [install, hfree, hplaced.inUse] using hset

/-- 使用中の `a` と同じ port の、CLOSED でも LISTEN でもない socket を置く。 -/
theorem place_beside (hplaced : Placed t r i new) (ha : t.sockets[j]? = some a)
    (huse : a.inUse = true) (hopen : a.state ≠ .closed) (hport : new.localPort = a.localPort)
    (hlive : Live new.state) : Tidy r := by
  have hclosed : new.state ≠ .closed := by rcases hlive with he | he <;> simp [he]
  have hlisten : new.state ≠ .listen := by rcases hlive with he | he <;> simp [he]
  refine h.place hplaced fun k b hk hb =>
    ⟨fun _ => ⟨fun hc => absurd hc hclosed, fun hl => absurd hl hlisten⟩,
    fun he => ⟨fun hc => ?_, fun _ => hlisten⟩⟩
  exact h.port_zero ha huse hopen hk hb (he.trans hport) hc

end

end Tidy

theorem state_ne_listen (h : tcpFindListeningSocket t port = none) (hj : t.sockets[j]? = some sock)
    (huse : sock.inUse = true) (hport : sock.localPort = port) : sock.state ≠ .listen := by
  have hall := findIdx?_eq_none_iff.mp h sock (mem_of_getElem? hj)
  simpa [huse, hport] using hall

/-! ## 終わった接続 -/

/-- 終わった接続の slot は使用中で、descriptor が指す。 -/
def Kept (t : TcpTable) (fds : List Fd) (ended : Nat → Bool) : Prop :=
  ∀ i, ended i = true → (∃ sock, t.sockets[i]? = some sock ∧ sock.inUse = true) ∧ Refers t fds i

section Kept

variable {fds : List Fd} {fd : Nat} {v : Fd} {ended : Nat → Bool}

section

variable (h : Kept t fds ended)
include h

theorem Kept.move (hsteady : Steady t fds t₁)
    (hbase : t₁.sockets.length = t.sockets.length → t₁.base = t.base)
    (hkeep : ∀ (i : Nat) (sock : TcpSocket), t.sockets[i]? = some sock → sock.inUse = true →
      ∃ sock', t₁.sockets[i]? = some sock' ∧ sock'.inUse = true) : Kept t₁ fds ended := by
  intro i hi
  obtain ⟨⟨sock, hsock, huse⟩, hrefers⟩ := h i hi
  exact ⟨hkeep i sock hsock huse, hrefers.move hsteady hbase⟩

theorem Kept.place (hplaced : Placed t r i new) (hsteady : Steady t fds r) : Kept r fds ended :=
  h.move hsteady hplaced.base_eq fun _ sock hk huse => ⟨sock, (hplaced.keep hk huse).2, huse⟩

theorem Kept.replace (hold : t.sockets[i]? = some old) (huse : new.inUse = old.inUse) :
    Kept (t.update i fun _ => new) fds ended := by
  refine h.move (.inl TcpTable.length_update) (fun _ => rfl) fun k sock hk hused => ?_
  by_cases hki : i = k
  · subst hki
    obtain rfl := some.inj (hold.symm.trans hk)
    exact ⟨new, by simp [hold], huse.trans hused⟩
  · exact ⟨sock, (TcpTable.getElem?_update_of_ne hki).trans hk, hused⟩

theorem Kept.release {count : Int} :
    Kept { t.update i fun _ => new with count := count } fds (Function.update ended i false) := by
  intro k hk
  have hki : k ≠ i := by
    rintro rfl
    simp at hk
  rw [Function.update_of_ne hki] at hk
  obtain ⟨⟨sock, hsock, huse⟩, hrefers⟩ := h k hk
  exact ⟨⟨sock, (TcpTable.getElem?_update_of_ne hki.symm).trans hsock, huse⟩,
    hrefers.move (.inl TcpTable.length_update) fun _ => rfl⟩

theorem Kept.mark (hsock : t.sockets[i]? = some sock) (huse : sock.inUse = true)
    (hrefers : Refers t fds i) : Kept t fds (Function.update ended i true) := by
  intro k hk
  by_cases hki : k = i
  · subst hki
    exact ⟨⟨sock, hsock, huse⟩, hrefers⟩
  · rw [Function.update_of_ne hki] at hk
    exact h k hk

theorem Kept.setFd (hfree : fds[fd]? = some .none) : Kept t (fds.set fd v) ended :=
  fun i hi => ⟨(h i hi).1, (h i hi).2.set hfree⟩

end

end Kept

/-! ## 許される呼出し -/

/-- port に LISTEN の socket が無い。 -/
def Unheard (t : TcpTable) (i : Nat) : Prop :=
  ∀ sock ∈ t.sockets[i]?, tcpFindListeningSocket t sock.localPort = none
  deriving Decidable

/-- 数える呼出し。descriptor を作る `sys_socket` と、port を与える `sys_bind` を含む。 -/
def Listed : Op → Prop
  | .close _ _ => False
  | _ => True

/--
終わる接続には descriptor があり、その port に LISTEN は無い。`tcp_accept` が LISTEN に戻す port にも無い。`tcp_close` は
使用中の socket に、`sys_listen` は CLOSED か LISTEN の socket に使う。
-/
def Legal (s : Sys) : Op → Prop
  | .packet env srcIp data => Anchored s (.packet env srcIp data) ∧
      ∀ i ∈ endedSlot s.tcp srcIp data, Refers s.tcp s.fds i ∧ Unheard s.tcp i
  | .tcpListen env port => Anchored s (.tcpListen env port)
  | .tcpSocketCreate env => Anchored s (.tcpSocketCreate env)
  | .tcpAccept env slot => Anchored s (.tcpAccept env slot) ∧ ∀ sock ∈ s.tcp.sockets[slot]?,
      sock.state = .synRcvd ∨ sock.state = .established → Unheard s.tcp slot
  | .tcpClose _ slot => (s.tcp.sockets[slot]?).any (·.inUse) = true
  | .socket env domain type => Anchored s (.socket env domain type)
  | .listen fd => ∀ i ∈ (s.fd fd).slot s.tcp, ∀ sock ∈ s.tcp.sockets[i]?,
      sock.state = .closed ∨ sock.state = .listen
  | .tcpBind _ _ | .bind _ _ | .accept _ _ | .acceptResume _ _ _ => True
  | .close _ _ => False

instance : (op : Op) → Decidable (Listed op)
  | .close _ _ => inferInstanceAs (Decidable False)
  | .packet _ _ _ | .tcpListen _ _ | .tcpSocketCreate _ | .tcpBind _ _ | .tcpAccept _
    _ | .tcpClose _ _
  | .socket _ _ _ | .bind _ _ | .listen _ | .accept _ _ | .acceptResume _ _ _ =>
    inferInstanceAs (Decidable True)

instance (s : Sys) : (op : Op) → Decidable (Legal s op)
  | .packet _ _ _ | .tcpAccept _ _ => inferInstanceAs (Decidable (_ ∧ _))
  | .tcpListen _ _ | .tcpSocketCreate _ | .socket _ _ _ =>
    inferInstanceAs (Decidable (Anchored _ _))
  | .tcpClose _ _ => inferInstanceAs (Decidable (_ = _))
  | .listen fd => inferInstanceAs
    (Decidable (∀ i ∈ (s.fd fd).slot s.tcp, ∀ sock ∈ s.tcp.sockets[i]?, _))
  | .tcpBind _ _ | .bind _ _ | .accept _ _ | .acceptResume _ _ _ => inferInstanceAs (Decidable True)
  | .close _ _ => inferInstanceAs (Decidable False)

/-! ## 一手 -/

structure Orderly (s : Sys) : Prop where
  tidy : Tidy s.tcp
  kept : Kept s.tcp s.fds s.ended

section Steps

variable {s s' : Sys} {op : Op}

section

variable (h : Orderly s)
include h

theorem Orderly.received {srcIp : Ip} {data : List UInt8} (hr : Received s srcIp data s')
    (hsteady : Steady s.tcp s.fds s'.tcp)
    (hends : ∀ i ∈ endedSlot s.tcp srcIp data, Refers s.tcp s.fds i ∧ Unheard s.tcp i) :
    Orderly s' := by
  cases hr with
  | same => exact h
  | @connection i old new hold huse hstate hframe hended =>
    constructor
    · refine h.tidy.restate hold hframe.inUse hframe.localPort hframe.live hframe.closed ?_
      intro hlisten _ j b hj _ hb hport
      exact state_ne_listen ((hends i (hended (hframe.listen hlisten))).2 old hold) hj hb hport
    · have hkept := h.kept.replace hold hframe.inUse
      split
      · rename_i hE
        exact hkept.mark (by simp [hold]) (hframe.inUse.trans huse)
          ((hends i (hended hE)).1.move (.inl TcpTable.length_update) fun _ => rfl)
      · exact hkept
  | syn hl huse hlisten hplaced hstate hport =>
    exact ⟨h.tidy.place_beside hplaced hl huse (by simp [hlisten]) hport (.inl hstate),
      h.kept.place hplaced hsteady⟩

theorem Orderly.closeSlot (hsock : s.tcp.sockets[i]? = some sock)
    (huse : sock.inUse = true) : Orderly (s.closeSlot env i) := by
  obtain ⟨new, hfree, hclosed, he⟩ := close_spec env hsock
  simp only [Sys.closeSlot, he]
  exact ⟨h.tidy.release hsock huse hfree hclosed, h.kept.release⟩

/-- 置いたばかりの、port の無い CLOSED の socket。 -/
theorem Orderly.create (hplaced : Placed s.tcp r i new) (hclosed : new.state = .closed)
    (hport : new.localPort = 0) (hsteady : Steady s.tcp s.fds r) : Orderly { s with tcp := r } := by
  refine ⟨h.tidy.place hplaced fun j b _ _ =>
    ⟨fun _ => ⟨fun _ => hport, ?_⟩, fun he => ⟨fun _ => ?_, ?_⟩⟩,
    h.kept.place hplaced hsteady⟩
  · simp [hclosed]
  · exact he.trans hport
  · simp [hclosed]

theorem Orderly.opened (ho : Opened env s s') (hsteady : Steady s.tcp s.fds s'.tcp) :
    Orderly s' := by
  cases ho with
  | failed => exact h
  | full hplaced hclosed hport =>
    exact (h.create hplaced hclosed hport hsteady.of_closeSlot).closeSlot hplaced.getElem?_self
      hplaced.inUse
  | opened hplaced hclosed hport hfree =>
    have hmade := h.create hplaced hclosed hport hsteady
    exact ⟨hmade.tidy, hmade.kept.setFd hfree⟩

theorem Orderly.handed {candidate : Option Nat} (hh : Handed env s candidate s') : Orderly s' := by
  cases hh with
  | same => exact ⟨h.tidy, h.kept⟩
  | full l _ hsock huse _ =>
    have hrest : Orderly { s with accepting := l } := ⟨h.tidy, h.kept⟩
    exact hrest.closeSlot hsock huse
  | given l _ _ _ _ hfree => exact ⟨h.tidy, h.kept.setFd hfree⟩

theorem Orderly.tcpListen (hsteady : Steady s.tcp s.fds (Tcp.tcpListen env s.tcp port).2) :
    Orderly { s with tcp := (Tcp.tcpListen env s.tcp port).2 } := by
  rcases listen_spec env _ port with he | ⟨i, r, new, he, hplaced, hlisten, hport, hunused⟩
  · rw [he]
    exact h
  · rw [he] at hsteady ⊢
    refine ⟨h.tidy.place hplaced fun j b hj hb => ?_, h.kept.place hplaced hsteady⟩
    have hne := hunused b (mem_of_getElem? hj) hb
    exact ⟨.of_port fun he => hne (he.symm.trans hport), .of_port fun he => hne (he.trans hport)⟩

theorem Orderly.tcpBind (port : UInt16) (hlt : slot < s.tcp.sockets.length) :
    Orderly { s with tcp := (Tcp.tcpBind s.tcp slot port).2 } := by
  have hsock := getElem?_eq_getElem hlt
  rcases bind_spec with he | ⟨he, hunused⟩
  · rw [he]
    exact h
  · rw [he, update_const _ hsock]
    refine ⟨h.tidy.replace hsock rfl id fun _ j b hj hne hb => ?_, h.kept.replace hsock rfl⟩
    have hport := hunused j b hj hb hne
    exact ⟨.of_port hport.symm, .of_port hport⟩

/-- 接続を移し、元の socket を LISTEN に戻す。 -/
theorem Orderly.tcpAccept (conn : Nat → Nat)
    (hsteady : Steady s.tcp s.fds (Tcp.tcpAccept env s.tcp slot).2)
    (hunheard : ∀ sock ∈ s.tcp.sockets[slot]?, sock.state = .synRcvd ∨ sock.state = .established →
      Unheard s.tcp slot) :
    Orderly { s with tcp := (Tcp.tcpAccept env s.tcp slot).2, conn := conn } := by
  rcases accept_spec with he | ⟨sock, i, r, hsock, hlive, hplaced, he⟩
  · rw [he]
    exact ⟨h.tidy, h.kept⟩
  have huse : sock.inUse = true := by
    by_contra hfree
    exact h.tidy.idle slot sock hsock (by simpa using hfree) hlive
  have hopen : sock.state ≠ .closed := by rcases hlive with he | he <;> simp [he]
  have htidy := h.tidy.place_beside hplaced hsock huse hopen rfl hlive
  rcases he with he | ⟨new, hnew, hlisten, hport, he⟩
  · rw [he] at hsteady ⊢
    exact ⟨htidy, h.kept.place hplaced hsteady⟩
  have hslot := (hplaced.keep hsock huse).2
  rw [he] at hsteady ⊢
  refine ⟨htidy.restate hslot hnew hport (by simp [Live, hlisten]) (by simp [hlisten]) ?_,
    (h.kept.place hplaced (by simpa [Steady] using hsteady)).replace hslot hnew⟩
  intro _ _ j b hj _ hb hb'
  rcases hplaced.of_inUse hj hb with ⟨-, rfl⟩ | ⟨-, hj'⟩
  · rcases hlive with he | he <;> simp [he]
  · exact state_ne_listen (hunheard sock hsock hlive sock hsock) hj' hb hb'

/-- CLOSED の socket の port は自分だけのものなので、LISTEN にしても重ならない。 -/
theorem Orderly.restate_listen (hsock : s.tcp.sockets[i]? = some sock) (hport : sock.localPort ≠ 0)
    (hstate : sock.state = .closed ∨ sock.state = .listen) :
    Orderly { s with tcp := s.tcp.update i fun _ => { sock with state := .listen } } := by
  refine ⟨h.tidy.restate hsock rfl rfl (by simp [Live]) (by simp) ?_, h.kept.replace hsock rfl⟩
  intro _ huse j b hj hne hb hb' hlisten
  have hcompat := h.tidy.apart i j sock b hsock hj hne.symm huse hb hb'.symm
  rcases hstate with hclosed | hstate
  · exact hport (hcompat.1 hclosed)
  · exact hcompat.2 hstate hlisten

theorem Orderly.step (hlegal : Legal s op) (hs : step s op = some s') : Orderly s' := by
  cases op with
  | packet env srcIp data =>
    obtain rfl := some.inj hs
    exact h.received (Socket.received s env _ data) (hlegal.1.steady length_receive) hlegal.2
  | tcpListen env port =>
    obtain rfl := some.inj hs
    exact h.tcpListen (hlegal.steady length_tcpListen)
  | tcpSocketCreate env =>
    obtain rfl := some.inj hs
    have hsteady := hlegal.steady length_tcpSocketCreate
    rcases socketCreate_spec env _ with he | ⟨i, r, new, he, hplaced, hclosed, hport⟩
    · rw [he]
      exact h
    · rw [he] at hsteady ⊢
      exact h.create hplaced hclosed hport hsteady
  | tcpBind slot port =>
    obtain ⟨hlt, hs⟩ := ite_none_right_eq_some.mp hs
    obtain rfl := some.inj hs
    exact h.tcpBind port hlt
  | tcpAccept env slot =>
    obtain ⟨-, hs⟩ := ite_none_right_eq_some.mp hs
    obtain rfl := some.inj hs
    exact h.tcpAccept _ (hlegal.1.steady length_tcpAccept) hlegal.2
  | tcpClose env slot =>
    obtain ⟨hlt, hs⟩ := ite_none_right_eq_some.mp hs
    obtain rfl := some.inj hs
    have hsock := getElem?_eq_getElem hlt
    exact h.closeSlot hsock (by simpa [Legal, hsock] using hlegal)
  | socket env domain type =>
    obtain rfl := some.inj hs
    exact h.opened (Socket.opened env s _ type) (hlegal.steady length_sysSocket)
  | bind fd port =>
    obtain ⟨res, hres, rfl⟩ := map_eq_some_iff.mp hs
    rcases sysBind_spec hres with he | ⟨i, hi, he⟩ <;> rw [he]
    · exact h
    · exact h.tcpBind port (Fd.slot_lt hi)
  | listen fd =>
    obtain ⟨res, hres, rfl⟩ := map_eq_some_iff.mp hs
    rcases sysListen_spec hres with he | ⟨i, sock, hi, hsock, hport, he⟩ <;> rw [he]
    · exact h
    · exact h.restate_listen hsock hport (hlegal i hi sock hsock)
  | accept env fd =>
    obtain ⟨res, hres, rfl⟩ := map_eq_some_iff.mp hs
    exact h.handed (sysAccept_handed hres)
  | acceptResume env ptr gotClient =>
    obtain ⟨res, hres, rfl⟩ := map_eq_some_iff.mp hs
    exact h.handed (sysAcceptResume_handed hres)
  | close env fd => exact hlegal.elim

end

end Steps

/-! ## 実行 -/

theorem Tidy.init : Tidy (tcpInit env) := by
  have hempty : Tidy ⟨0, [], 0⟩ := ⟨rfl, by simp, by simp⟩
  simp only [tcpInit]
  cases hgrow : tcpGrowSockets env _ with
  | none => exact hempty
  | some t => exact hempty.grown (growSockets_spec hgrow).1

theorem Orderly.boot : Orderly (Sys.boot env) :=
  ⟨.init, fun _ hi => absurd hi Bool.false_ne_true⟩

/-- **許された呼出しだけなら、LISTEN は port に一つで、終わった接続の slot は descriptor が指し、数も合う。** -/
theorem listen_unique {s : Sys} {ops : List Op} (env : Env)
    (h : Run.Reach step Legal (Sys.boot env) ops s) : UniqueListen s.tcp ∧ Released s ∧
      Counted s.tcp := by
  have horderly : Orderly s :=
    h.invariant (P := Orderly) (.boot) fun _ _ _ hi hlegal hs => hi.step hlegal hs
  exact ⟨horderly.tidy.unique, fun i _ _ _ hended => (horderly.kept i hended).2,
    horderly.tidy.count⟩

/-- 起動して port 80 を開き、SYN と ACK で接続した相手が RST を送る。 -/
def resetRun : List Op :=
  [.tcpListen Env.qemu 80,
    .packet Env.qemu gateway.ip ({ gateway with isn := 100 }.segment 80 0 0 flagSyn []),
    .packet Env.qemu gateway.ip (gateway.segment 80 0 86416 flagAck []),
    .packet Env.qemu gateway.ip (gateway.segment 80 0 86416 flagRst [])]

/-- **RST が一つ届けば、同じ port の LISTEN が二つになり、終わった接続の slot が残る。** -/
theorem listen_duplicated : ∃ s, Run.Reach step (fun _ op => Listed op)
    (Sys.boot Env.qemu) resetRun s ∧
    ¬UniqueListen s.tcp ∧ ¬Released s := by
  refine Run.exists_reach_of (P := fun s =>
    ((s.tcp.sockets[0]?).map fun a => (a.inUse, a.state, a.localPort)) = some (true, .listen, 80) ∧
    ((s.tcp.sockets[1]?).map fun a => (a.inUse, a.state, a.localPort)) = some (true, .listen, 80) ∧
    s.ended 1 = true ∧ ¬Refers s.tcp s.fds 1) (by decide +kernel) fun s _ he => ?_
  simp only [map_eq_some_iff, Prod.mk.injEq] at he
  obtain ⟨⟨a, ha, hause, hastate, haport⟩, ⟨b, hb, hbuse, hbstate, hbport⟩, hended, hrefers⟩ := he
  refine ⟨fun hunique => ?_, fun hreleased => ?_⟩
  · have heq := hunique 0 1 a b ha hb hause hbuse hastate hbstate (haport.trans hbport.symm)
    cases heq
  · exact hrefers (hreleased 1 b hb hbuse hended)

/-- accept した接続が RST で終わる。LISTEN の socket はその前に閉じてある。 -/
def closedRun : List Op :=
  [.socket Env.qemu 2 1, .bind 3 80, .listen 3,
    .packet Env.qemu gateway.ip ({ gateway with isn := 100 }.segment 80 0 0 flagSyn []),
    .packet Env.qemu gateway.ip (gateway.segment 80 0 86416 flagAck []),
    .accept Env.qemu 3, .tcpClose Env.qemu 0,
    .packet Env.qemu gateway.ip (gateway.segment 80 0 86416 flagRst [])]

theorem listen_unique_closed : ∃ s, Run.Reach step Legal (Sys.boot Env.qemu) closedRun s ∧
    s.ended 1 = true ∧ s.tcp.count = 1 ∧ UniqueListen s.tcp ∧ Released s ∧ Counted s.tcp :=
  Run.exists_reach_of (P := fun s => s.ended 1 = true ∧ s.tcp.count = 1) (by decide +kernel)
    fun _ hreach ⟨hended, hcount⟩ => ⟨hended, hcount, listen_unique _ hreach⟩

end Alos.Socket
