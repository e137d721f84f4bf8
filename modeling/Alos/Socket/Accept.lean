import Alos.Socket.Handles

/-!
# accept した接続と descriptor

`tcp_find_ready_client` は、port の最初の ESTABLISHED の socket を返し、返した印を残さない。前に返した接続がまだ ESTABLISHED なら、
次の `sys_accept` は同じ socket をもう一つの descriptor に与える。

成り立つのは、`sys_accept` の見つける client をどの descriptor も指していないときである。接続に SYN の順の番号を与え、返した
番号を並べて調べる。

* `accepted_once` — 接続は高々一度返り、二つの descriptor が同じ socket を指すことはなく、閉じても他に及ばない
* `accepted_twice` — 一つの接続が二度返り、一方を閉じると他方の socket も空く
-/

namespace Alos.Socket

open Function List Option

open Net (Ip Env)
open Tcp

variable {t t' r : TcpTable} {env : Env} {ptr i j k : Nat} {sock old new : TcpSocket}
  {s s' : Sys} {op : Op}
  {fds fds' : List Fd}

/-- socket の system call と packet の到着。`sys_accept` の見つける client は、どの descriptor も指していない。 -/
def Exclusive (s : Sys) : Op → Prop
  | .packet env srcIp data => Anchored s (.packet env srcIp data)
  | .socket env domain type => Anchored s (.socket env domain type)
  | .accept _ fd => ∀ i ∈ acceptCandidate s fd, ¬Refers s.tcp s.fds i
  | .acceptResume _ ptr gotClient => ∀ i ∈ resumeCandidate s ptr gotClient, ¬Refers s.tcp s.fds i
  | .bind _ _ | .listen _ | .close _ _ => True
  | .tcpListen _ _ | .tcpSocketCreate _ | .tcpBind _ _ | .tcpAccept _ _ | .tcpClose _ _ => False

instance (s : Sys) : (op : Op) → Decidable (Exclusive s op)
  | .packet _ _ _ | .socket _ _ _ => inferInstanceAs (Decidable (Anchored _ _))
  | .accept _ fd => inferInstanceAs (Decidable (∀ i ∈ acceptCandidate s fd, ¬Refers s.tcp s.fds i))
  | .acceptResume _ ptr gotClient =>
    inferInstanceAs (Decidable (∀ i ∈ resumeCandidate s ptr gotClient, ¬Refers s.tcp s.fds i))
  | .bind _ _ | .listen _ | .close _ _ => inferInstanceAs (Decidable True)
  | .tcpListen _ _ | .tcpSocketCreate _ | .tcpBind _ _ | .tcpAccept _ _ | .tcpClose _ _ =>
    inferInstanceAs (Decidable False)

/-! ## descriptor の持ち主 -/

/-- descriptor は使用中の slot を指し、二つの descriptor が同じ番地を持つことはない。 -/
structure Owned (t : TcpTable) (fds : List Fd) : Prop where
  valid : ∀ (fd ptr : Nat), fds[fd]? = some (Fd.socket ptr) → ∃ i, Denotes t ptr i
  inj : ∀ (fd fd' ptr : Nat), fds[fd]? = some (Fd.socket ptr) → fds[fd']? = some (Fd.socket ptr) →
    fd = fd'

namespace Owned

theorem refers (hfd : fds[k]? = some (Fd.socket ptr)) (hslot : slotOf t ptr = some i) :
    Refers t fds i :=
  ⟨_, mem_of_getElem? hfd, hslot⟩

section

variable (h : Owned t fds)
include h

/-- 同じ slot を指す descriptor は、同じ番地を持つ。 -/
theorem slot_inj {fd fd' ptr' : Nat} (hfd : fds[fd]? = some (Fd.socket ptr))
    (hfd' : fds[fd']? = some (Fd.socket ptr')) (hslot : slotOf t ptr = some i)
    (hslot' : slotOf t ptr' = some i) : fd = fd' := by
  obtain ⟨rfl, -⟩ := slotOf_eq_some.mp hslot
  obtain ⟨rfl, -⟩ := slotOf_eq_some.mp hslot'
  exact h.inj fd fd' _ hfd hfd'

theorem retable
    (hkeep : ∀ (fd ptr i : Nat), fds[fd]? = some (Fd.socket ptr) → Denotes t ptr i →
      Denotes t' ptr i) :
    Owned t' fds := by
  refine ⟨fun fd ptr hfd => ?_, h.inj⟩
  obtain ⟨i, hi⟩ := h.valid fd ptr hfd
  exact ⟨i, hkeep fd ptr i hfd hi⟩

theorem place (hplaced : Placed t r k new) (hsteady : Steady t fds r) : Owned r fds :=
  h.retable fun _ _ _ hfd hi => hi.place hplaced (hi.length_eq hfd hsteady)

theorem replace (hold : t.sockets[k]? = some old) (huse : new.inUse = old.inUse) :
    Owned (t.update k fun _ => new) fds :=
  h.retable fun _ _ _ _ hi => hi.replace hold huse

/-- どの descriptor も指さない slot を閉じる。 -/
theorem close (hsock : t.sockets[k]? = some sock) (hnot : ¬Refers t fds k) :
    Owned (tcpClose env t k).1 fds := by
  refine h.retable fun fd ptr i hfd hi => hi.close hsock ?_
  rintro rfl
  exact hnot (refers hfd hi.1)

/-- 空いている descriptor に、どの descriptor も指さない使用中の slot を与える。 -/
theorem give (hsock : t.sockets[i]? = some sock) (huse : sock.inUse = true)
    (hfree : fds[k]? = some .none) (hnot : ¬Refers t fds i) :
    Owned t (fds.set k (.socket (address t i))) := by
  have hlt := (List.getElem?_eq_some_iff.mp hfree).1
  have hdenotes := denotes_address hsock huse
  have hother : ∀ fd ptr : Nat, (fds.set k (.socket (address t i)))[fd]? = some (Fd.socket ptr) →
      fd = k ∧ ptr = address t i ∨ fds[fd]? = some (Fd.socket ptr) ∧ ptr ≠ address t i := by
    intro fd ptr hfd
    by_cases hne : k = fd
    · subst hne
      rw [List.getElem?_set_self hlt] at hfd
      exact .inl ⟨rfl, (Fd.socket.inj (some.inj hfd)).symm⟩
    · rw [List.getElem?_set_ne hne] at hfd
      refine .inr ⟨hfd, ?_⟩
      rintro rfl
      exact hnot (refers hfd hdenotes.1)
  refine ⟨fun fd ptr hfd => ?_, fun fd fd' ptr hfd hfd' => ?_⟩
  · rcases hother fd ptr hfd with ⟨-, rfl⟩ | ⟨hfd, -⟩
    · exact ⟨i, hdenotes⟩
    · exact h.valid fd ptr hfd
  · rcases hother fd ptr hfd with ⟨rfl, rfl⟩ | ⟨hfd, hne⟩ <;>
      rcases hother fd' _ hfd' with ⟨rfl, he⟩ | ⟨hfd', hne'⟩
    · rfl
    · exact absurd rfl hne'
    · exact absurd he hne
    · exact h.inj fd fd' ptr hfd hfd'

/-- 取ったばかりの slot は、どの descriptor も指さない。 -/
theorem not_refers_placed (hplaced : Placed t r i new) (hsteady : Steady t fds r) :
    ¬Refers r fds i := by
  rintro ⟨v, hv, hslot⟩
  obtain ⟨fd, hfd⟩ := mem_iff_getElem?.mp hv
  obtain ⟨ptr, rfl, hslot⟩ := Fd.exists_ptr hslot
  obtain ⟨j, hj⟩ := h.valid fd ptr hfd
  obtain ⟨sock, hsock, huse⟩ := hj.2
  have hji := (hj.place hplaced (hj.length_eq hfd hsteady)).1.symm.trans hslot
  exact (hplaced.keep hsock huse).1 (some.inj hji)

theorem drop : Owned t (fds.set k .none) := by
  have hother : ∀ fd ptr : Nat, (fds.set k .none)[fd]? = some (Fd.socket ptr) →
    fds[fd]? = some (Fd.socket ptr) := by
    intro fd ptr hfd
    rw [getElem?_set] at hfd
    split at hfd
    · split at hfd <;> cases hfd
    · exact hfd
  exact ⟨fun fd ptr hfd => h.valid fd ptr (hother fd ptr hfd),
    fun fd fd' ptr hfd hfd' => h.inj fd fd' ptr (hother fd ptr hfd) (hother fd' ptr hfd')⟩

/-- descriptor を手放せば、その slot を指すものは無くなる。 -/
theorem not_refers_drop (hfd : fds[k]? = some (Fd.socket ptr)) (hslot : slotOf t ptr = some i) :
    ¬Refers t (fds.set k .none) i := by
  rintro ⟨v, hv, hvslot⟩
  obtain ⟨fd, hfd'⟩ := mem_iff_getElem?.mp hv
  rw [getElem?_set] at hfd'
  split at hfd'
  · split at hfd' <;> cases hfd'
    cases hvslot
  · rename_i hne
    obtain ⟨ptr', rfl, hslot'⟩ := Fd.exists_ptr hvslot
    exact hne (h.slot_inj hfd hfd' hslot hslot')

end

end Owned

/-! ## 接続の番号 -/

/-- slot に、接続の途中か接続している socket がある。 -/
def Connection (t : TcpTable) (i : Nat) : Prop :=
  ∃ sock, t.sockets[i]? = some sock ∧ sock.inUse = true ∧ Live sock.state

theorem Connection.of_update (h : Connection (t.update k fun _ => new) i)
    (hold : t.sockets[k]? = some old)
    (hlive : new.inUse = true → Live new.state → old.inUse = true ∧ Live old.state) :
      Connection t i := by
  obtain ⟨sock, hsock, huse, hstate⟩ := h
  by_cases hki : k = i
  · subst hki
    obtain rfl : new = sock := by simpa [hold] using hsock
    exact ⟨old, hold, hlive huse hstate⟩
  · exact ⟨sock, (TcpTable.getElem?_update_of_ne hki).symm.trans hsock, huse, hstate⟩

theorem Connection.of_placed (h : Connection r i) (hplaced : Placed t r k new) :
    i = k ∧ Live new.state ∨ i ≠ k ∧ Connection t i := by
  obtain ⟨sock, hsock, huse, hstate⟩ := h
  rcases hplaced.of_inUse hsock huse with ⟨rfl, rfl⟩ | ⟨hne, hsock⟩
  · exact .inl ⟨rfl, hstate⟩
  · exact .inr ⟨hne, sock, hsock, huse, hstate⟩

/-- 返した番号は重ならず、接続の番号も重ならない。番号が返された接続は、descriptor が指す。 -/
structure Ledger (t : TcpTable) (fds : List Fd) (conn : Nat → Nat) (started : Nat)
    (accepted : List Nat) :
    Prop where
  nodup : accepted.Nodup
  past : ∀ n ∈ accepted, n < started
  fresh : ∀ i, Connection t i → conn i < started
  inj : ∀ i j, Connection t i → Connection t j → conn i = conn j → i = j
  taken : ∀ i, Connection t i → conn i ∈ accepted → Refers t fds i

namespace Ledger

variable {conn : Nat → Nat} {started : Nat} {accepted : List Nat}

section

variable (h : Ledger t fds conn started accepted)
include h

/-- 接続が増えず、指されていた接続が指されたままの一手。 -/
theorem move (hconn : ∀ i, Connection t' i → Connection t i)
    (hrefers : ∀ i, Connection t' i → Refers t fds i → Refers t' fds' i) :
    Ledger t' fds' conn started accepted where
  nodup := h.nodup
  past := h.past
  fresh i hi := h.fresh i (hconn i hi)
  inj i j hi hj := h.inj i j (hconn i hi) (hconn j hj)
  taken i hi hmem := hrefers i hi (h.taken i (hconn i hi) hmem)

theorem replace (hold : t.sockets[k]? = some old)
    (hlive : new.inUse = true → Live new.state → old.inUse = true ∧ Live old.state) :
    Ledger (t.update k fun _ => new) fds conn started accepted :=
  h.move (fun _ hi => hi.of_update hold hlive) fun _ _ hr =>
    hr.move (.inl TcpTable.length_update) fun _ => rfl

theorem place (hplaced : Placed t r k new) (hnew : ¬Live new.state) (hsteady : Steady t fds r) :
    Ledger r fds conn started accepted := by
  refine h.move (fun i hi => ?_) fun i _ hr => hr.move hsteady hplaced.base_eq
  rcases hi.of_placed hplaced with ⟨-, hlive⟩ | ⟨-, hi⟩
  · exact absurd hlive hnew
  · exact hi

/-- SYN が新しい番号の接続を始める。 -/
theorem start (hplaced : Placed t r k new) (hsteady : Steady t fds r) :
    Ledger r fds (update conn k started) (started + 1) accepted where
  nodup := h.nodup
  past n hn := Nat.lt_succ_of_lt (h.past n hn)
  fresh i hi := by
    rcases hi.of_placed hplaced with ⟨rfl, -⟩ | ⟨hne, hi⟩
    · rw [update_self]
      exact Nat.lt_succ_self _
    · rw [update_of_ne hne]
      exact Nat.lt_succ_of_lt (h.fresh i hi)
  inj i j hi hj he := by
    rcases hi.of_placed hplaced with ⟨rfl, -⟩ | ⟨hne, hi⟩ <;>
      rcases hj.of_placed hplaced with ⟨rfl, -⟩ | ⟨hne', hj⟩
    · rfl
    · rw [update_self, update_of_ne hne'] at he
      exact absurd he (Nat.ne_of_gt (h.fresh j hj))
    · rw [update_self, update_of_ne hne] at he
      exact absurd he (Nat.ne_of_lt (h.fresh i hi))
    · rw [update_of_ne hne, update_of_ne hne'] at he
      exact h.inj i j hi hj he
  taken i hi hmem := by
    rcases hi.of_placed hplaced with ⟨rfl, -⟩ | ⟨hne, hi⟩
    · rw [update_self] at hmem
      exact absurd (h.past _ hmem) (Nat.lt_irrefl _)
    · rw [update_of_ne hne] at hmem
      exact (h.taken i hi hmem).move hsteady hplaced.base_eq

/-- どの descriptor も指さない接続を返す。 -/
theorem give (hi : Connection t i) (hfree : fds[k]? = some .none) (hnot : ¬Refers t fds i) :
    Ledger t (fds.set k (.socket (address t i))) conn started (accepted ++ [conn i]) where
  nodup := List.nodup_append.mpr ⟨h.nodup, by simp, fun n hn m hm he => by
    rw [List.mem_singleton] at hm
    exact hnot (h.taken i hi (hm ▸ he ▸ hn))⟩
  past n hn := by
    rcases List.mem_append.mp hn with hn | hn
    · exact h.past n hn
    · rw [List.mem_singleton.mp hn]
      exact h.fresh i hi
  fresh := h.fresh
  inj := h.inj
  taken j hj hmem := by
    rcases List.mem_append.mp hmem with hmem | hmem
    · exact (h.taken j hj hmem).set hfree
    · obtain rfl := h.inj j i hj hi (List.mem_singleton.mp hmem)
      obtain ⟨sock, hsock, -⟩ := hj
      have hset := List.getElem?_set_self (a := Fd.socket (address t j))
        (List.getElem?_eq_some_iff.mp hfree).1
      exact ⟨_, List.mem_of_getElem? hset, slotOf_address (lt_of_getElem? hsock)⟩

/-- slot を閉じる。ほかの slot を指していた descriptor は残る。 -/
theorem close (hsock : t.sockets[k]? = some sock)
    (hrefers : ∀ i, i ≠ k → Refers t fds i → Refers t fds' i) :
    Ledger (tcpClose env t k).1 fds' conn started accepted := by
  obtain ⟨new, hfree, -, he⟩ := close_spec env hsock
  rw [he]
  have hconn : ∀ i, Connection (t.update k fun _ => new) i → i ≠ k ∧ Connection t i := by
    intro i hi
    refine ⟨?_, hi.of_update hsock fun huse => by simp [hfree] at huse⟩
    rintro rfl
    obtain ⟨b, hb, huse, -⟩ := hi
    obtain rfl : new = b := by simpa [hsock] using hb
    rw [hfree] at huse
    cases huse
  exact h.move (fun i hi => (hconn i hi).2) fun i hi hr =>
    (hrefers i (hconn i hi).1 hr).move (.inl TcpTable.length_update) fun _ => rfl

end

end Ledger

/-! ## `sys_close` -/

section Close

variable {fd : Int}

theorem fd_eq_socket (h : s.fd fd = .socket ptr) : s.fds[fd.toNat]? = some (Fd.socket ptr) := by
  unfold Sys.fd at h
  split at h
  · cases h
  · cases hget : s.fds[fd.toNat]? with
    | none =>
      rw [hget] at h
      cases h
    | some v =>
      rw [hget] at h
      exact congrArg some h

/-- `sys_close` の後の状態。server の socket は LISTEN に戻り、ほかの socket は空く。 -/
inductive Closed (env : Env) (s : Sys) (fd : Int) : Sys → Prop
  | same : Closed env s fd s
  | server {ptr i : Nat} {sock new : TcpSocket} (hopen : 3 ≤ fd)
      (hfd : s.fds[fd.toNat]? = some (Fd.socket ptr))
      (hslot : slotOf s.tcp ptr = some i) (hsock : s.tcp.sockets[i]? = some sock)
      (huse : new.inUse = sock.inUse) (hlisten : new.state = .listen) :
      Closed env s fd { s with tcp := s.tcp.update i fun _ => new }
  | client {ptr i : Nat} {sock : TcpSocket} (hopen : 3 ≤ fd)
      (hfd : s.fds[fd.toNat]? = some (Fd.socket ptr))
      (hslot : slotOf s.tcp ptr = some i) (hsock : s.tcp.sockets[i]? = some sock) :
      Closed env s fd ((s.closeSlot env i).setFd fd.toNat .none)
  | plain (hopen : 3 ≤ fd) (hfd : ∀ ptr, s.fds[fd.toNat]? ≠ some (Fd.socket ptr)) :
    Closed env s fd (s.setFd fd.toNat .none)

theorem sysClose_closed {res : Int × Sys} (hclosing : s.serverClosing = false)
    (h : sysClose env s fd = some res) : Closed env s fd res.2 := by
  unfold sysClose at h
  split at h
  · obtain rfl := some.inj h
    exact .same
  have hopen : 3 ≤ fd := by omega
  rw [if_neg (by simp [hclosing])] at h
  split at h
  · rename_i ptr hfd
    obtain ⟨i, hslot, h⟩ := bind_eq_some_iff.mp h
    obtain ⟨sock, hsock, rfl⟩ := map_eq_some_iff.mp h
    split
    · obtain ⟨new, huse, hlisten, -, he⟩ := closeAndRelisten_spec hsock
      rw [he]
      exact .server hopen (fd_eq_socket hfd) hslot hsock huse hlisten
    · exact .client hopen (fd_eq_socket hfd) hslot hsock
  · rename_i hfd
    obtain rfl := some.inj h
    refine .plain hopen fun ptr hget => hfd ptr ?_
    rw [Sys.fd, if_neg (by omega), hget]
    rfl

end Close

/-! ## 一手 -/

structure Exact (s : Sys) : Prop where
  owned : Owned s.tcp s.fds
  ledger : Ledger s.tcp s.fds s.conn s.started s.accepted
  closing : s.serverClosing = false

namespace Exact

theorem received (h : Exact s) {srcIp : Ip} {data : List UInt8} (hr : Received s srcIp data s')
    (hsteady : Steady s.tcp s.fds s'.tcp) : Exact s' := by
  cases hr with
  | same => exact h
  | connection hold huse _ hframe _ =>
    exact ⟨h.owned.replace hold hframe.inUse,
      h.ledger.replace hold fun _ hlive => ⟨huse, hframe.live hlive⟩, h.closing⟩
  | syn _ _ _ hplaced _ _ =>
    exact ⟨h.owned.place hplaced hsteady, h.ledger.start hplaced hsteady, h.closing⟩

theorem opened (h : Exact s) (ho : Opened env s s') (hsteady : Steady s.tcp s.fds s'.tcp) :
    Exact s' := by
  cases ho with
  | failed => exact h
  | @full i r new hplaced hclosed _ =>
    have hsteady' : Steady _ _ r := hsteady.of_closeSlot
    have howned := h.owned.place hplaced hsteady'
    exact ⟨howned.close hplaced.getElem?_self (h.owned.not_refers_placed hplaced hsteady'),
      (h.ledger.place hplaced (by simp [Live, hclosed]) hsteady').close hplaced.getElem?_self
        fun _ _ => id,
      h.closing⟩
  | @opened i k r new hplaced hclosed _ hfree =>
    have howned := h.owned.place hplaced hsteady
    exact ⟨howned.give hplaced.getElem?_self hplaced.inUse hfree
      (h.owned.not_refers_placed hplaced hsteady),
      (h.ledger.place hplaced (by simp [Live, hclosed]) hsteady).move (fun _ hi => hi)
        fun _ _ hr => hr.set hfree, rfl⟩

theorem handed (h : Exact s) {candidate : Option Nat} (hh : Handed env s candidate s')
    (hnot : ∀ i ∈ candidate, ¬Refers s.tcp s.fds i) : Exact s' := by
  cases hh with
  | same => exact ⟨h.owned, h.ledger, h.closing⟩
  | full l hcand hsock _ _ =>
    exact ⟨h.owned.close hsock (hnot _ hcand), h.ledger.close hsock fun _ _ => id, h.closing⟩
  | given l hcand hsock huse hstate hfree =>
    exact ⟨h.owned.give hsock huse hfree (hnot _ hcand),
      h.ledger.give ⟨_, hsock, huse, .inr hstate⟩ hfree (hnot _ hcand), h.closing⟩

theorem closed (h : Exact s) {fd : Int} (hc : Closed env s fd s') : Exact s' := by
  cases hc with
  | same => exact h
  | server _ _ _ hsock huse hlisten =>
    exact ⟨h.owned.replace hsock huse,
      h.ledger.replace hsock fun _ hlive => by simp [Live, hlisten] at hlive, h.closing⟩
  | client _ hfd hslot hsock =>
    refine ⟨h.owned.drop.close hsock (h.owned.not_refers_drop hfd hslot),
      h.ledger.close hsock fun j hne hr => hr.drop fun v hv hvslot => ?_, h.closing⟩
    obtain rfl := some.inj (hv.symm.trans hfd)
    exact hne (some.inj (hvslot.symm.trans hslot))
  | plain _ hfd =>
    refine ⟨h.owned.drop, h.ledger.move (fun _ hi => hi) fun j _ hr => hr.drop fun v hv hvslot =>
      ?_, h.closing⟩
    obtain ⟨ptr, rfl, -⟩ := Fd.exists_ptr hvslot
    exact hfd ptr hv

theorem step (h : Exact s) (hlegal : Exclusive s op) (hs : step s op = some s') : Exact s' := by
  cases op with
  | packet env srcIp data =>
    obtain rfl := some.inj hs
    exact h.received (Socket.received s env _ data) (hlegal.steady length_receive)
  | socket env domain type =>
    obtain rfl := some.inj hs
    exact h.opened (Socket.opened env s _ type) (hlegal.steady length_sysSocket)
  | bind fd port =>
    obtain ⟨res, hres, rfl⟩ := map_eq_some_iff.mp hs
    rcases sysBind_spec hres with he | ⟨i, hi, he⟩ <;> rw [he]
    · exact h
    · have hsock := getElem?_eq_getElem (Fd.slot_lt hi)
      rcases bind_spec with he | ⟨he, -⟩ <;> rw [he]
      · exact h
      · rw [update_const _ hsock]
        exact ⟨h.owned.replace hsock rfl, h.ledger.replace hsock fun huse hlive =>
          ⟨huse, hlive⟩, h.closing⟩
  | listen fd =>
    obtain ⟨res, hres, rfl⟩ := map_eq_some_iff.mp hs
    rcases sysListen_spec hres with he | ⟨i, sock, hi, hsock, -, he⟩ <;> rw [he]
    · exact h
    · exact ⟨h.owned.replace hsock rfl,
        h.ledger.replace hsock fun _ hlive => by simp [Live] at hlive, h.closing⟩
  | accept env fd =>
    obtain ⟨res, hres, rfl⟩ := map_eq_some_iff.mp hs
    exact h.handed (sysAccept_handed hres) hlegal
  | acceptResume env ptr gotClient =>
    obtain ⟨res, hres, rfl⟩ := map_eq_some_iff.mp hs
    exact h.handed (sysAcceptResume_handed hres) hlegal
  | close env fd =>
    obtain ⟨res, hres, rfl⟩ := map_eq_some_iff.mp hs
    exact h.closed (sysClose_closed h.closing hres)
  | tcpListen | tcpSocketCreate | tcpBind | tcpAccept | tcpClose => exact hlegal.elim

theorem boot : Exact (Sys.boot env) := by
  have hfds : ∀ fd ptr : Nat, (Sys.boot env).fds[fd]? ≠ some (Fd.socket ptr) := by
    intro fd ptr hfd
    have hmem := mem_of_getElem? hfd
    simp [Sys.boot] at hmem
  have hconn : ∀ i, ¬Connection (Sys.boot env).tcp i := by
    rintro i ⟨sock, hsock, huse, -⟩
    cases (init_free hsock).symm.trans huse
  exact ⟨⟨fun fd ptr hfd => absurd hfd (hfds fd ptr), fun fd _ ptr hfd => absurd hfd (hfds fd ptr)⟩,
    ⟨nodup_nil, by simp [Sys.boot], fun i hi => absurd hi (hconn i), fun i _ hi =>
      absurd hi (hconn i),
      fun i hi => absurd hi (hconn i)⟩, rfl⟩

end Exact

/-! ## 実行 -/

/-- 開いている二つの descriptor は、同じ socket を指さない。 -/
def Distinct (s : Sys) : Prop :=
  ∀ (fd fd' ptr ptr' i : Nat), s.fds[fd]? = some (Fd.socket ptr) →
    s.fds[fd']? = some (Fd.socket ptr') →
    slotOf s.tcp ptr = some i → slotOf s.tcp ptr' = some i → fd = fd'

/-- `fd` でない descriptor は、同じ番地を持ち、指す socket も変わらない。 -/
def Untouched (fd : Int) (s s' : Sys) : Prop :=
  ∀ (other ptr i : Nat), (other : Int) ≠ fd → s.fds[other]? = some (Fd.socket ptr) →
    slotOf s.tcp ptr = some i →
    s'.fds[other]? = some (Fd.socket ptr) ∧ slotOf s'.tcp ptr = some i ∧
      s'.tcp.sockets[i]? = s.tcp.sockets[i]?

theorem Exact.untouched (h : Exact s) {fd : Int} (hc : Closed env s fd s') : Untouched fd s s' := by
  intro other ptr i hother hfd hslot
  have hset : 3 ≤ fd → fd.toNat ≠ other := fun hopen he => hother (by omega)
  -- 閉じる descriptor の slot は、`other` の slot ではない
  have hapart : 3 ≤ fd → ∀ {k ptr' : Nat}, s.fds[fd.toNat]? = some (Fd.socket ptr') →
      slotOf s.tcp ptr' = some k → k ≠ i := by
    rintro hopen k ptr' hfd' hslot' rfl
    exact hset hopen (h.owned.slot_inj hfd' hfd hslot' hslot)
  cases hc with
  | same => exact ⟨hfd, hslot, rfl⟩
  | server hopen hfd' hslot' _ _ _ =>
    exact ⟨hfd, slotOf_update.trans hslot, TcpTable.getElem?_update_of_ne
      (hapart hopen hfd' hslot')⟩
  | client hopen hfd' hslot' hsock =>
    obtain ⟨new, -, -, he⟩ := close_spec env hsock
    simp only [Sys.setFd, Sys.closeSlot, he]
    exact ⟨(getElem?_set_ne (hset hopen)).trans hfd, slotOf_update.trans hslot,
      TcpTable.getElem?_update_of_ne (hapart hopen hfd' hslot')⟩
  | plain hopen _ => exact ⟨(getElem?_set_ne (hset hopen)).trans hfd, hslot, rfl⟩

/--
**`sys_accept` の見つける client を descriptor が指していなければ、接続は高々一度返り、二つの descriptor が同じ socket を指す
ことはなく、閉じてもほかの descriptor の接続は変わらない。**
-/
theorem accepted_once {ops : List Op} (env : Env)
    (h : Run.Reach step Exclusive (Sys.boot env) ops s) :
    s.accepted.Nodup ∧ Distinct s ∧
    ∀ (env' : Env) (fd : Int) (s' : Sys), step s (.close env' fd) = some s' →
      Untouched fd s s' := by
  have hexact : Exact s :=
    h.invariant (P := Exact) (.boot) fun _ _ _ hi hlegal hs => hi.step hlegal hs
  refine ⟨hexact.ledger.nodup, fun fd fd' ptr ptr' i hfd hfd' hslot hslot' =>
    hexact.owned.slot_inj hfd hfd' hslot hslot', fun env' fd s' hs => ?_⟩
  obtain ⟨res, hres, rfl⟩ := map_eq_some_iff.mp hs
  exact hexact.untouched (sysClose_closed hexact.closing hres)

/-- server を開き、一つの接続を握手まで進める。 -/
def connectRun : List Op :=
  serverRun ++ [.packet Env.qemu gateway.ip (synFrom 0),
    .packet Env.qemu gateway.ip (gateway.segment 80 0 86416 flagAck [])]

/-- 一つ目の接続を受け取って閉じてから、二つ目の接続を受け取る。 -/
def turnsRun : List Op :=
  connectRun ++ [.accept Env.qemu 3, .close Env.qemu 4, .packet Env.qemu gateway.ip (synFrom 1),
    .packet Env.qemu gateway.ip ({ gateway with port := 4001 }.segment 80 0 86416 flagAck []),
    .accept Env.qemu 3]

theorem accepted_once_turns : ∃ s, Run.Reach step Exclusive (Sys.boot Env.qemu) turnsRun s ∧
    s.accepted = [0, 1] ∧ s.accepted.Nodup ∧ Distinct s ∧
    ∀ (env : Env) (fd : Int) (s' : Sys), step s (.close env fd) = some s' → Untouched fd s s' :=
  Run.exists_reach_of (P := fun s => s.accepted = [0, 1]) (by decide +kernel)
    fun _ hreach haccepted => ⟨haccepted, accepted_once _ hreach⟩

/-- **続けて二度 accept すると同じ接続が返り、一方を閉じると他方の socket も空く。** -/
theorem accepted_twice : ∃ s s',
    Run.Reach step (fun _ _ => True) (Sys.boot Env.qemu)
      (connectRun ++ [.accept Env.qemu 3, .accept Env.qemu 3]) s ∧
    s.accepted = [0, 0] ∧ ¬Distinct s ∧ step s (.close Env.qemu 4) = some s' ∧
      ¬Untouched 4 s s' := by
  have hdistinct {s : Sys} (hfd : s.fds[4]? = some _) (hfd' : s.fds[5]? = some _)
      (hslot : slotOf _ 0x201088 = some 1) : ¬Distinct s :=
        fun h => by cases h 4 5 _ _ 1 hfd hfd' hslot hslot
  have huntouched {s s' : Sys} (hfd : s.fds[5]? = some _) (hslot : slotOf _ 0x201088 = some 1)
      (hne : (s'.tcp.sockets[1]?).map _ ≠ (s.tcp.sockets[1]?).map (·.inUse)) : ¬Untouched 4 s s' :=
    fun h => hne (congrArg _ (h 5 _ 1 (by decide) hfd hslot).2.2)
  refine ⟨_, _, Run.reach_get ?_, ?_, hdistinct ?_ ?_ ?_, (some_get ?_).symm, huntouched ?_ ?_ ?_⟩
  all_goals decide +kernel

end Alos.Socket
