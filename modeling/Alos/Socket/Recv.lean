import Alos.Sched.Timed
import Alos.Socket.Accept

/-!
# `sys_recv` で待つ thread

`sys_recv` は、byte が無ければ `wait_queue_wait(&sock->recv_waitqueue, NULL, NULL)` で待つ。述語が NULL のとき、
`wait_queue_wait_timeout` のループの条件はいつも真で、抜けるのは `wait_result` が時間切れのときだけである。それを書くところは
無いので、起こされた thread はまた待ち、`sys_recv` は戻らない。

成り立つのは、`sys_recv` が調べたときに byte が届いているか、接続が ESTABLISHED でないときである。

* `recv_returns_iff` — 呼出しが戻るのは、調べたときに待たずに済むとき、かつそのときに限る
* `recv_blocked` — データが届いて起こされても、RST が届いても、thread は待ち続ける
-/

namespace Alos.Socket

open Function List Option

open Net (Ip Env)
open Tcp

/-! ## model -/

/-- `sys_recv` の途中。`waiting` は `wait_queue_wait` の中にいることで、偽なら次にループの条件を調べる。 -/
structure Call where
  id : Nat
  slot : Nat
  len : Int
  waiting : Bool

/--
socket と scheduler。`inside` は thread の途中の呼出しである。

呼出しには順の番号を与え、戻った呼出しの番号、値、buffer に書いた byte を `returned` に並べる。
-/
structure World where
  sys : Sys
  sched : Sched.State
  inside : Sched.Tid → Option Call
  calls : Nat
  returned : List (Nat × Int × List UInt8)

def World.start (sys : Sys) (now : UInt64) : World :=
  ⟨sys, Sched.schedulerInit now, fun _ => none, 0, []⟩

/-- slot の待ち行列。 -/
def queueOf (slot : Nat) : WaitQueue → Sched.Wq
  | .state => .event (3 * slot)
  | .recv => .event (3 * slot + 1)
  | .accept => .event (3 * slot + 2)

/-- `wait_queue_wake_all` を順に呼ぶ。 -/
def wakes : Sched.State → List Event → Option Sched.State
  | sched, [] => some sched
  | sched, .wake slot queue :: rest =>
    (Sched.waitQueueWakeAll sched (queueOf slot queue)).bind (wakes · rest)
  | sched, .ipv4 _ _ _ _ :: rest => wakes sched rest
  | sched, .arpRequest _ :: rest => wakes sched rest

namespace World

/-- 現在の thread の呼出しが戻る。 -/
def finish (w : World) (id : Nat) (n : Int) (bytes : List UInt8) : World :=
  { w with
    inside := Function.update w.inside w.sched.current none
    returned := w.returned ++ [(id, n, bytes)] }

/-- ループの条件を調べ、待つか、読んで戻る。 -/
def recvCheck (w : World) (call : Call) : Option World :=
  (w.sys.tcp.sockets[call.slot]?).map fun sock =>
    if tcpAvailable sock ≠ 0 then
      let r := tcpRecv sock call.len
      finish { w with sys := { w.sys with tcp := w.sys.tcp.update call.slot fun _ => r.2.2 } }
        call.id r.1 r.2.1
    else if sock.state ≠ .established then w.finish call.id 0 []
    else
      let r := Sched.waitQueueWaitTimeout w.sched (queueOf call.slot .recv) 0 false
      { w with
        sched := r.1
        inside := Function.update w.inside w.sched.current
          (some { call with waiting := r.2.isNone }) }

def sysRecv (w : World) (fd len : Int) : Option World :=
  let w' := { w with calls := w.calls + 1 }
  match w.sys.fd fd with
  | .socket ptr => (slotOf w.sys.tcp ptr).bind fun i => (w.sys.tcp.sockets[i]?).bind fun sock =>
      if sock.state ≠ .established then some (w'.finish w.calls 0 [])
      else w'.recvCheck ⟨w.calls, i, len, false⟩
  | _ => some (w'.finish w.calls (-1) [])

/-- 現在の thread が `wait_queue_wait` のループに戻るか、`sys_recv` のループに戻る。 -/
def resume (w : World) : Option World :=
  match w.inside w.sched.current with
  | none => none
  | some call =>
    if call.waiting then
      match (w.sched.threads w.sched.current).currentWaitQueue with
      | none => none
      | some q =>
        if (w.sched.active = true ∧ w.sched.current ≠ w.sched.idle) ∧ q.Event then
          let r := Sched.waitLoop w.sched q false
          some { w with
            sched := r.1
            inside := Function.update w.inside w.sched.current
              (some { call with waiting := r.2.isNone }) }
        else none
    else if w.sched.Outside then w.recvCheck call
    else none

end World

inductive RecvOp where
  | sched (op : Sched.Op)
  | packet (env : Env) (srcIp : Ip) (data : List UInt8)
  | recv (fd len : Int)
  | resume

/-- 別の待ちの続きである。 -/
def Foreign (w : World) : Sched.Op → Prop
  | .waitResume _ => (w.inside w.sched.current).isNone = true
  | _ => True

instance (w : World) : (op : Sched.Op) → Decidable (Foreign w op)
  | .waitResume _ => inferInstanceAs (Decidable (_ = true))
  | .start | .time _ | .create _ _ | .reaperInit | .schedule | .preempt _ | .tick | .sleep
    _ | .wait _ _ _
  | .wakeOne _ | .wakeAll _ | .inherit _ | .restore | .block _ | .timedBlock _ _ | .resume _ _
  | .wake _ _ | .kill _ _ | .exit _ =>
    inferInstanceAs (Decidable True)

def World.step (w : World) : RecvOp → Option World
  | .sched op =>
    if Foreign w op then (Sched.step w.sched op).map fun sched =>
      { w with sched := sched } else none
  | .packet env srcIp data =>
    (wakes w.sched (tcpHandlePacket env w.sys.tcp srcIp data).2).map fun sched =>
      { w with sys := w.sys.receive env srcIp data, sched := sched }
  | .recv fd len =>
    if w.sched.Outside ∧ (w.inside w.sched.current).isNone = true then w.sysRecv fd len else none
  | .resume => w.resume

/-- 待っている thread を kill せず、待ち行列を持つ表が移らない。 -/
def Calm (w : World) : RecvOp → Prop
  | .sched op => Sched.Tame w.sched op
  | .packet env srcIp data => ¬Moves w.sys (.packet env srcIp data)
  | .recv _ _ | .resume => True

instance (w : World) : (op : RecvOp) → Decidable (Calm w op)
  | .sched op => inferInstanceAs (Decidable (Sched.Tame w.sched op))
  | .packet _ _ _ => inferInstanceAs (Decidable (¬_))
  | .recv _ _ | .resume => inferInstanceAs (Decidable True)

/-! ## scheduler から見た実行 -/

variable {w w' : World} {op : RecvOp} {now : UInt64} {call : Call}

/-- scheduler の状態は、scheduler の手だけで届く。 -/
def Scheduled (now : UInt64) (w : World) : Prop :=
  ∃ ops, Run.Reach Sched.step Sched.Tame (Sched.schedulerInit now) ops w.sched

theorem wakes_reach {s₀ sched sched' : Sched.State} {ops : List Sched.Op} {events : List Event}
    (h : Run.Reach Sched.step Sched.Tame s₀ ops sched) (hw : wakes sched events = some sched') :
    ∃ ops', Run.Reach Sched.step Sched.Tame s₀ ops' sched' := by
  induction events generalizing sched ops with
  | nil =>
    obtain rfl := some.inj hw
    exact ⟨ops, h⟩
  | cons event rest ih =>
    cases event with
    | ipv4 => exact ih h hw
    | arpRequest => exact ih h hw
    | wake slot queue =>
      obtain ⟨mid, hmid, hrest⟩ := bind_eq_some_iff.mp hw
      have hstep : Sched.step sched (.wakeAll (queueOf slot queue)) = some mid := by
        rw [Sched.step, if_pos (by cases queue <;> trivial), hmid]
      have htame : Sched.Tame sched (.wakeAll (queueOf slot queue)) := trivial
      exact ih (h.snoc htame hstep) hrest

/-- 述語が NULL なら、待ちに入ったところで戻ることはない。 -/
theorem wait_blocks {s : Sched.State} {q : Sched.Wq} :
    (Sched.waitQueueWaitTimeout s q 0 false).2 = none := by
  have hresult : Sched.timedOut ≠ 0 := by decide
  simp [Sched.waitQueueWaitTimeout, Sched.waitLoop, Sched.State.modify, hresult.symm]

/-- 起こされても、また待つ。 -/
theorem Scheduled.waitLoop_blocks (h : Scheduled now w) {q : Sched.Wq} :
    (Sched.waitLoop w.sched q false).2 = none := by
  obtain ⟨ops, hreach⟩ := h
  obtain ⟨r, hinv⟩ := Sched.waitResult_inv hreach
  have hresult : (w.sched.threads _).waitResult = 0 := hinv.data
  have hne : Sched.timedOut ≠ 0 := by decide
  simp [Sched.waitLoop, hresult, hne.symm]

/-! ## 一手 -/

/-- 新しい番号の呼出しか、現在の thread の `waiting` の値が `b` の呼出しである。 -/
def Issued (w w' : World) (id : Nat) (b : Bool) : Prop :=
  id = w.calls ∧ w'.calls = w.calls + 1 ∨
    (∃ call, w.inside w.sched.current = some call ∧ call.waiting = b ∧ call.id = id) ∧
      w'.calls = w.calls

/-- 一手が呼出しにすること。待っている呼出しは、待ったままである。 -/
inductive Moved (w w' : World) : Prop
  | quiet (hinside : w'.inside = w.inside) (hreturned : w'.returned = w.returned)
    (hcalls : w'.calls = w.calls)
  | returns {id : Nat} {n : Int} {bytes : List UInt8} (hid : Issued w w' id false)
      (hinside : w'.inside = Function.update w.inside w.sched.current none)
      (hreturned : w'.returned = w.returned ++ [(id, n, bytes)])
  | waits (call : Call) {b : Bool} (hid : Issued w w' call.id b) (hwaiting : call.waiting = true)
      (hinside : w'.inside = Function.update w.inside w.sched.current (some call))
      (hreturned : w'.returned = w.returned)

/-- ループの条件を調べた後。 -/
theorem recvCheck_spec (h : w.recvCheck call = some w') :
    w'.calls = w.calls ∧
    ((w'.sched = w.sched ∧ w'.inside = update w.inside w.sched.current none ∧
        ∃ n bytes, w'.returned = w.returned ++ [(call.id, n, bytes)]) ∨
      (w'.sched = (Sched.waitQueueWaitTimeout w.sched (queueOf call.slot .recv) 0 false).1 ∧
        w'.inside = update w.inside w.sched.current (some { call with waiting := true }) ∧
        w'.returned = w.returned)) := by
  obtain ⟨sock, -, rfl⟩ := map_eq_some_iff.mp h
  split
  · exact ⟨rfl, .inl ⟨rfl, rfl, _, _, rfl⟩⟩
  · split
    · exact ⟨rfl, .inl ⟨rfl, rfl, _, _, rfl⟩⟩
    · refine ⟨rfl, .inr ⟨rfl, ?_, rfl⟩⟩
      dsimp only
      rw [wait_blocks]
      rfl

/-- 調べた後の scheduler も、scheduler の手で届く。 -/
theorem Scheduled.recvCheck {w₀ : World} (h : Scheduled now w₀) (hc : w.recvCheck call = some w')
    (hsched : w.sched = w₀.sched) (hout : w.sched.Outside) : Scheduled now w' := by
  obtain ⟨ops, hreach⟩ := h
  rcases (recvCheck_spec hc).2 with ⟨he, -⟩ | ⟨he, -⟩
  · exact ⟨ops, by rwa [he, hsched]⟩
  · have hstep : Sched.step w₀.sched (.wait (queueOf call.slot .recv) 0 false) = some w'.sched := by
      rw [he, ← hsched, Sched.step, if_pos ⟨hout, trivial⟩]
    have htame : Sched.Tame w₀.sched (.wait (queueOf call.slot .recv) 0 false) := trivial
    exact ⟨_, hreach.snoc htame hstep⟩

/-- `sys_recv` は、すぐに戻るか、ループの条件を調べる。 -/
theorem sysRecv_cases {fd len : Int} (h : w.sysRecv fd len = some w') :
    (∃ n, w' = World.finish { w with calls := w.calls + 1 } w.calls n []) ∨
    ∃ slot, World.recvCheck { w with calls := w.calls + 1 } ⟨w.calls, slot, len, false⟩ =
      some w' := by
  unfold World.sysRecv at h
  split at h
  · obtain ⟨i, -, h⟩ := bind_eq_some_iff.mp h
    obtain ⟨sock, -, h⟩ := bind_eq_some_iff.mp h
    split at h
    · exact .inl ⟨0, (some.inj h).symm⟩
    · exact .inr ⟨i, h⟩
  · exact .inl ⟨-1, (some.inj h).symm⟩

theorem resume_cases (h : w.resume = some w') : ∃ call, w.inside w.sched.current = some call ∧
    ((call.waiting = true ∧ ∃ q, Sched.step w.sched (.waitResume false) = some
      (Sched.waitLoop w.sched q false).1 ∧
        w' = { w with
          sched := (Sched.waitLoop w.sched q false).1
          inside := update w.inside w.sched.current
            (some { call with waiting := (Sched.waitLoop w.sched q false).2.isNone }) }) ∨
      (call.waiting = false ∧ w.sched.Outside ∧ w.recvCheck call = some w')) := by
  unfold World.resume at h
  split at h
  · cases h
  rename_i call hcall
  refine ⟨call, hcall, ?_⟩
  split at h
  · rename_i hwaiting
    split at h
    · cases h
    · rename_i q hq
      obtain ⟨hcond, h⟩ := ite_none_right_eq_some.mp h
      refine .inl ⟨hwaiting, q, ?_, (some.inj h).symm⟩
      rw [Sched.step]
      simp only [hq, if_pos hcond]
  · rename_i hwaiting
    obtain ⟨hout, h⟩ := ite_none_right_eq_some.mp h
    exact .inr ⟨by simpa using hwaiting, hout, h⟩

theorem Scheduled.step (h : Scheduled now w) (hcalm : Calm w op) (hs : w.step op = some w') :
    Scheduled now w' := by
  cases op with
  | sched op =>
    obtain ⟨-, hs⟩ := ite_none_right_eq_some.mp hs
    obtain ⟨sched, hsched, rfl⟩ := map_eq_some_iff.mp hs
    obtain ⟨ops, hreach⟩ := h
    exact ⟨_, hreach.snoc hcalm hsched⟩
  | packet env srcIp data =>
    obtain ⟨sched, hsched, rfl⟩ := map_eq_some_iff.mp hs
    obtain ⟨ops, hreach⟩ := h
    exact wakes_reach hreach hsched
  | recv fd len =>
    obtain ⟨⟨hout, -⟩, hs⟩ := ite_none_right_eq_some.mp hs
    rcases sysRecv_cases hs with ⟨n, rfl⟩ | ⟨slot, hc⟩
    · exact h
    · exact h.recvCheck hc rfl hout
  | resume =>
    obtain ⟨call, -, ⟨-, q, hstep, rfl⟩ | ⟨-, hout, hc⟩⟩ := resume_cases hs
    · obtain ⟨ops, hreach⟩ := h
      have htame : Sched.Tame w.sched (.waitResume false) := trivial
      exact ⟨_, hreach.snoc htame hstep⟩
    · exact h.recvCheck hc rfl hout

theorem Scheduled.moved (h : Scheduled now w) (hs : w.step op = some w') : Moved w w' := by
  cases op with
  | sched op =>
    obtain ⟨-, hs⟩ := ite_none_right_eq_some.mp hs
    obtain ⟨sched, -, rfl⟩ := map_eq_some_iff.mp hs
    exact .quiet rfl rfl rfl
  | packet env srcIp data =>
    obtain ⟨sched, -, rfl⟩ := map_eq_some_iff.mp hs
    exact .quiet rfl rfl rfl
  | recv fd len =>
    obtain ⟨-, hs⟩ := ite_none_right_eq_some.mp hs
    rcases sysRecv_cases hs with ⟨n, rfl⟩ | ⟨slot, hc⟩
    · exact .returns (.inl ⟨rfl, rfl⟩) rfl rfl
    · obtain ⟨hcalls, ⟨-, hinside, n, bytes, hreturned⟩ | ⟨-, hinside, hreturned⟩⟩ :=
        recvCheck_spec hc
      · exact .returns (.inl ⟨rfl, hcalls⟩) hinside hreturned
      · exact .waits _ (b := false) (.inl ⟨rfl, hcalls⟩) rfl hinside hreturned
  | resume =>
    obtain ⟨call, hcall, ⟨hwaiting, q, -, rfl⟩ | ⟨hwaiting, -, hc⟩⟩ := resume_cases hs
    · refine .waits { call with waiting := (Sched.waitLoop _ q _).2.isNone }
        (.inr ⟨⟨call, hcall, rfl, rfl⟩, rfl⟩) ?_ rfl rfl
      rw [h.waitLoop_blocks]
      rfl
    · obtain ⟨hcalls, ⟨-, hinside, n, bytes, hreturned⟩ | ⟨-, hinside, hreturned⟩⟩ :=
        recvCheck_spec hc
      · exact .returns (.inr ⟨⟨call, hcall, hwaiting, rfl⟩, hcalls⟩) hinside hreturned
      · exact .waits { call with waiting := true } (.inr ⟨⟨call, hcall, rfl, rfl⟩, hcalls⟩)
          rfl hinside hreturned

/-! ## 呼出しの行く末 -/

/-- 番号は `calls` より小さい。 -/
structure Numbered (w : World) : Prop where
  inside : ∀ t call, w.inside t = some call → call.id < w.calls
  returned : ∀ r ∈ w.returned, r.1 < w.calls

/-- 呼出し `c` は戻っておらず、途中なら待っている。 -/
structure Stuck (c : Nat) (w : World) : Prop where
  issued : c < w.calls
  inside : ∀ t call, w.inside t = some call → call.id = c → call.waiting = true
  returned : ∀ r ∈ w.returned, r.1 ≠ c

/-- 呼出し `c` は、`result` を返して終わった。 -/
structure Done (c : Nat) (result : Int × List UInt8) (w : World) : Prop where
  issued : c < w.calls
  inside : ∀ t call, w.inside t = some call → call.id ≠ c
  returned : ∀ r, (c, r) ∈ w.returned ↔ r = result

section Fate

variable {c id : Nat} {b : Bool} {result : Int × List UInt8}

theorem Issued.lt (h : Issued w w' id b) (hn : Numbered w) : id < w'.calls := by
  rcases h with ⟨rfl, hcalls⟩ | ⟨⟨call, hcall, -, rfl⟩, hcalls⟩ <;> rw [hcalls]
  · exact Nat.lt_succ_self _
  · exact hn.inside _ call hcall

theorem Issued.le_calls (h : Issued w w' id b) : w.calls ≤ w'.calls := by
  rcases h with ⟨-, hcalls⟩ | ⟨-, hcalls⟩ <;> omega

/-- 現在の thread の欄だけが変わる。 -/
theorem inside_cases {t u : Sched.Tid} {v : Option Call} (h : update w.inside u v t = some call) :
    v = some call ∨ w.inside t = some call := by
  by_cases htu : t = u
  · subst htu
    rw [update_self] at h
    exact .inl h
  · rw [update_of_ne htu] at h
    exact .inr h

theorem Numbered.moved (hn : Numbered w) (hm : Moved w w') : Numbered w' := by
  cases hm with
  | quiet hinside hreturned hcalls =>
    refine ⟨fun t call h => ?_, fun r hr => ?_⟩ <;> rw [hcalls]
    · exact hn.inside t call (hinside ▸ h)
    · exact hn.returned r (hreturned ▸ hr)
  | returns hid hinside hreturned =>
    refine ⟨fun t call h => ?_, fun r hr => ?_⟩
    · rw [hinside] at h
      rcases inside_cases h with he | h
      · cases he
      · exact Nat.lt_of_lt_of_le (hn.inside t call h) hid.le_calls
    · rw [hreturned] at hr
      rcases mem_append.mp hr with hr | hr
      · exact Nat.lt_of_lt_of_le (hn.returned r hr) hid.le_calls
      · rw [mem_singleton.mp hr]
        exact hid.lt hn
  | waits _ hid hwaiting hinside hreturned =>
    refine ⟨fun t call h => ?_, fun r hr => ?_⟩
    · rw [hinside] at h
      rcases inside_cases h with he | h
      · obtain rfl := some.inj he
        exact hid.lt hn
      · exact Nat.lt_of_lt_of_le (hn.inside t call h) hid.le_calls
    · exact Nat.lt_of_lt_of_le (hn.returned r (hreturned ▸ hr)) hid.le_calls

/-- 待っている呼出しは、何が起きても待ったままである。 -/
theorem Stuck.moved (h : Stuck c w) (hm : Moved w w') : Stuck c w' := by
  cases hm with
  | quiet hinside hreturned hcalls =>
    exact ⟨hcalls ▸ h.issued, hinside ▸ h.inside, hreturned ▸ h.returned⟩
  | returns hid hinside hreturned =>
    refine ⟨Nat.lt_of_lt_of_le h.issued hid.le_calls, fun t call hcall => ?_, fun r hr => ?_⟩
    · rw [hinside] at hcall
      rcases inside_cases hcall with he | hcall
      · cases he
      · exact h.inside t call hcall
    · rw [hreturned] at hr
      rcases mem_append.mp hr with hr | hr
      · exact h.returned r hr
      · rw [mem_singleton.mp hr]
        rintro rfl
        rcases hid with ⟨he, -⟩ | ⟨⟨call, hcall, hrunning, hid⟩, -⟩
        · exact Nat.ne_of_lt h.issued he
        · cases hrunning.symm.trans (h.inside _ call hcall hid)
  | waits _ hid hwaiting hinside hreturned =>
    refine ⟨Nat.lt_of_lt_of_le h.issued hid.le_calls, fun t call hcall hc =>
      ?_, hreturned ▸ h.returned⟩
    rw [hinside] at hcall
    rcases inside_cases hcall with he | hcall
    · obtain rfl := some.inj he
      exact hwaiting
    · exact h.inside t call hcall hc

theorem Done.issued_ne (h : Done c result w) (hid : Issued w w' id b) : id ≠ c := by
  rcases hid with ⟨rfl, -⟩ | ⟨⟨call, hcall, -, rfl⟩, -⟩
  · exact Nat.ne_of_gt h.issued
  · exact h.inside _ call hcall

theorem Done.moved (h : Done c result w) (hm : Moved w w') : Done c result w' := by
  cases hm with
  | quiet hinside hreturned hcalls =>
    exact ⟨hcalls ▸ h.issued, hinside ▸ h.inside, hreturned ▸ h.returned⟩
  | returns hid hinside hreturned =>
    refine ⟨Nat.lt_of_lt_of_le h.issued hid.le_calls, fun t call hcall => ?_, fun r => ?_⟩
    · rw [hinside] at hcall
      rcases inside_cases hcall with he | hcall
      · cases he
      · exact h.inside t call hcall
    · have hne := h.issued_ne hid
      rw [hreturned, mem_append, h.returned, mem_singleton]
      exact or_iff_left fun he => hne (congrArg Prod.fst he).symm
  | waits _ hid hwaiting hinside hreturned =>
    refine ⟨Nat.lt_of_lt_of_le h.issued hid.le_calls, fun t call hcall =>
      ?_, hreturned ▸ h.returned⟩
    rw [hinside] at hcall
    rcases inside_cases hcall with he | hcall
    · obtain rfl := some.inj he
      exact h.issued_ne hid
    · exact h.inside t call hcall

end Fate

/-! ## 実行 -/

/-- 調べたときに、待たずに済む。 -/
def Ready (sock : TcpSocket) : Prop := sock.state ≠ .established ∨ 0 < tcpAvailable sock

/-- 待たずに済むときに返す値と byte。ESTABLISHED なら届いた byte の先頭で、そうでなければ零である。 -/
def recvResult (sock : TcpSocket) (len : Int) : Int × List UInt8 :=
  if sock.state ≠ .established then (0, [])
  else if len ≤ 0 then (-1, [])
  else (((sock.recv.contents.take len.toNat).length : Int), sock.recv.contents.take len.toNat)

section Calls

variable {fd len : Int} {slot : Nat} {sock : TcpSocket}

theorem tcpRecv_result (hstate : sock.state = .established) :
    ((tcpRecv sock len).1, (tcpRecv sock len).2.1) = recvResult sock len := by
  rw [recvResult, if_neg (not_not.mpr hstate)]
  split
  · rename_i hlen
    rw [tcpRecv, if_pos hlen]
  · rename_i hlen
    rw [tcpRecv_readable hstate (Int.not_le.mp hlen), (Ring.contents_take _ _).1]

theorem sysRecv_eq (hslot : (w.sys.fd fd).slot w.sys.tcp = some slot)
    (hsock : w.sys.tcp.sockets[slot]? = some sock) :
    w.sysRecv fd len =
      if sock.state ≠ .established then some
        (World.finish { w with calls := w.calls + 1 } w.calls 0 [])
      else World.recvCheck { w with calls := w.calls + 1 } ⟨w.calls, slot, len, false⟩ := by
  obtain ⟨ptr, hfd, hptr⟩ := Fd.exists_ptr hslot
  simp only [World.sysRecv, hfd, hptr, bind_some, hsock]

/-- 待たずに済む呼出しは、その場で戻る。 -/
theorem sysRecv_ready (hn : Numbered w) (hslot : (w.sys.fd fd).slot w.sys.tcp = some slot)
    (hsock : w.sys.tcp.sockets[slot]? = some sock) (hready : Ready sock)
      (h : w.sysRecv fd len = some w') :
    Done w.calls (recvResult sock len) w' := by
  have hshape : w'.calls = w.calls + 1 ∧ w'.inside = update w.inside w.sched.current none ∧
      w'.returned = w.returned ++ [(w.calls, recvResult sock len)] := by
    rw [sysRecv_eq hslot hsock] at h
    split at h
    · rename_i hstate
      obtain rfl := some.inj h
      rw [recvResult, if_pos hstate]
      exact ⟨rfl, rfl, rfl⟩
    · rename_i hstate
      have hpos : tcpAvailable sock ≠ 0 := Nat.pos_iff_ne_zero.mp (hready.resolve_left hstate)
      simp only [World.recvCheck, hsock, map_some, if_pos hpos] at h
      obtain rfl := some.inj h
      rw [← tcpRecv_result (not_not.mp hstate)]
      exact ⟨rfl, rfl, rfl⟩
  obtain ⟨hcalls, hinside, hreturned⟩ := hshape
  refine ⟨by omega, fun t call hcall => ?_, fun r => ?_⟩
  · rw [hinside] at hcall
    rcases inside_cases hcall with he | hcall
    · cases he
    · exact Nat.ne_of_lt (hn.inside t call hcall)
  · rw [hreturned, mem_append, mem_singleton, Prod.mk.injEq]
    refine ⟨?_, fun he => .inr ⟨rfl, he⟩⟩
    rintro (hr | hr)
    · exact absurd (hn.returned _ hr) (Nat.lt_irrefl _)
    · exact hr.2

/-- 待つ呼出しは、戻らない。 -/
theorem sysRecv_stuck (hn : Numbered w) (hslot : (w.sys.fd fd).slot w.sys.tcp = some slot)
    (hsock : w.sys.tcp.sockets[slot]? = some sock) (hready : ¬Ready sock)
      (h : w.sysRecv fd len = some w') :
    Stuck w.calls w' := by
  obtain ⟨hstate, hzero⟩ := not_or.mp hready
  rw [sysRecv_eq hslot hsock] at h
  simp only [World.recvCheck, hsock, map_some, if_neg (not_not.mpr (Nat.eq_zero_of_not_pos hzero)),
    if_neg hstate] at h
  obtain rfl := some.inj h
  refine ⟨Nat.lt_succ_self _, fun t call hcall hid => ?_, fun r hr =>
    Nat.ne_of_lt (hn.returned r hr)⟩
  rcases inside_cases hcall with he | hcall
  · obtain rfl := some.inj he
    rw [wait_blocks]
    rfl
  · exact absurd hid (Nat.ne_of_lt (hn.inside t call hcall))

end Calls

/--
**`sys_recv` の呼出しが戻るのは、調べたときに byte が届いているか、接続が ESTABLISHED でないとき、かつそのときに限る。**

その後にどんな packet が届き、thread がどう切り替わっても変わらない。返すのは、ESTABLISHED なら届いている byte、そうで
なければ零である。
-/
theorem recv_returns_iff {sys : Sys} {ops later : List RecvOp} {w w₁ w₂ : World}
    {fd len : Int} {slot : Nat}
    {sock : TcpSocket} (h : Run.Reach World.step Calm (World.start sys now) ops w)
    (hslot : (w.sys.fd fd).slot w.sys.tcp = some slot)
      (hsock : w.sys.tcp.sockets[slot]? = some sock)
    (hcall : w.step (.recv fd len) = some w₁) (hlater : Run.Reach World.step Calm w₁ later w₂) :
    ((∃ r, (w.calls, r) ∈ w₂.returned) ↔ Ready sock) ∧
    ∀ r, (w.calls, r) ∈ w₂.returned → r = recvResult sock len := by
  have hstart : Scheduled now (World.start sys now) ∧ Numbered (World.start sys now) :=
    ⟨⟨[], .nil⟩, nofun, nofun⟩
  obtain ⟨hsched, hn⟩ := h.invariant (P := fun w => Scheduled now w ∧ Numbered w) hstart
    fun _ _ _ hi hcalm hs => ⟨hi.1.step hcalm hs, hi.2.moved (hi.1.moved hs)⟩
  have hcalm : Calm w (.recv fd len) := trivial
  have hsched₁ : Scheduled now w₁ := hsched.step hcalm hcall
  obtain ⟨-, hrecv⟩ := ite_none_right_eq_some.mp hcall
  by_cases hready : Ready sock
  · obtain ⟨-, hdone⟩ := hlater.invariant (P := fun w' => Scheduled now w' ∧ Done w.calls _ w')
      ⟨hsched₁, sysRecv_ready hn hslot hsock hready hrecv⟩
      fun _ _ _ hi hcalm hs => ⟨hi.1.step hcalm hs, hi.2.moved (hi.1.moved hs)⟩
    exact ⟨iff_of_true ⟨_, (hdone.returned _).mpr rfl⟩ hready, fun r hr => (hdone.returned r).mp hr⟩
  · obtain ⟨-, hstuck⟩ := hlater.invariant (P := fun w' => Scheduled now w' ∧ Stuck w.calls w')
      ⟨hsched₁, sysRecv_stuck hn hslot hsock hready hrecv⟩
      fun _ _ _ hi hcalm hs => ⟨hi.1.step hcalm hs, hi.2.moved (hi.1.moved hs)⟩
    refine ⟨iff_of_false ?_ hready, fun r hr => absurd rfl (hstuck.returned _ hr)⟩
    rintro ⟨r, hr⟩
    exact hstuck.returned _ hr rfl

/-- 接続を受け取って、descriptor 4 に置くまで。 -/
def clientRun : List Op := connectRun ++ [.accept Env.qemu 3]

/-- 相手の三つの byte。 -/
def greeting : RecvOp := .packet Env.qemu gateway.ip
    (gateway.segment 80 0 86416 flagAck [72, 105, 33])

theorem recv_returns_iff_greeting : ∃ sys w w₁ sock,
    Run.Reach step (fun _ _ => True) (Sys.boot Env.qemu) clientRun sys ∧
    Run.Reach World.step Calm (World.start sys 0) [.sched .start, greeting] w ∧
    w.sys.tcp.sockets[1]? = some sock ∧ w.step (.recv 4 10) = some w₁ ∧
      recvResult sock 10 = (3, [72, 105, 33]) ∧
    ((∃ r, (w.calls, r) ∈ w₁.returned) ↔ Ready sock) ∧
    ∀ r, (w.calls, r) ∈ w₁.returned → r = recvResult sock 10 := by
  refine ⟨_, _, _, _, Run.reach_get ?_, Run.reach_get ?_, (some_get ?_).symm,
    (some_get ?_).symm, ?_,
    @recv_returns_iff _ _ _ _ _ _ _ _ _ 1 _ (Run.reach_get _) ?_ (some_get _).symm
      (some_get _).symm .nil⟩
  all_goals decide +kernel

/--
**空の接続で `sys_recv` を呼んだ main は、三つの byte が届いて起こされ、CPU を得ても、また待つ。RST で接続が終わっても、
待ったままである。**
-/
theorem recv_blocked : ∃ sys w w',
    Run.Reach step (fun _ _ => True) (Sys.boot Env.qemu) clientRun sys ∧
    Run.Reach World.step (fun _ _ => True) (World.start sys 0)
      [.sched .start, .recv 4 10, greeting, .sched .schedule] w ∧
    w.sched.current = 0 ∧ ((w.sys.tcp.sockets[1]?).map tcpAvailable) = some 3 ∧
    Run.Reach World.step (fun _ _ => True) w
      [.resume, .packet Env.qemu gateway.ip (gateway.segment 80 3 86416 flagRst [])] w' ∧
    ((w'.sys.tcp.sockets[1]?).map (·.state)) = some .listen ∧
    (w'.sched.threads 0).state = .blocked ∧ (w'.sched.waitQueues (queueOf 1 .recv)).head = some 0 ∧
    w'.returned = [] := by
  refine ⟨_, _, _, Run.reach_get ?_, Run.reach_get ?_, ?_, ?_, Run.reach_get ?_, ?_⟩
  all_goals decide +kernel

end Alos.Socket
