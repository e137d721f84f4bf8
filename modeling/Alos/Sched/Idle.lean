import Alos.Sched.Consistency

/-!
# idle が選ばれるとき

idle は、ほかに走れる thread がないときのためのものである。idle のほかに IDLE priority の thread がなく、
idle が run queue で `THREAD_AGING_THRESHOLD` だけ待つことがなければ、`scheduler_pick_next` が idle を返すのは
run queue にほかの thread がないときに限る。

idle から替わるとき、idle も run queue に戻される。aging は idle を区別しないので、長く待った idle は UI の
run queue に移り、NORMAL の thread より先に選ばれる。

* `idle_only_when_empty` — 条件の下で、idle が選ばれるのはほかに thread がないときに限る
* `idle_overtakes` — aging で移った idle が、待っている thread より先に選ばれる
-/

namespace Alos.Sched

open Links

variable {s : State}
variable {timed : Prop} {r : Lists} {t : Tid}

/-- idle だけが IDLE priority であり、boost されていない。 -/
def IdleData (t : Tid) (th : Thread) : Prop :=
  (t = 1 → th.priority = .idle ∧ th.isBoosted = false) ∧ (t ≠ 1 → th.priority ≠ .idle) ∧
    (t ≠ 1 → th.basePriority ≠ .idle) ∧ schedulerNiceToPriority th.nice ≠ .idle

theorem closed_idleData : Closed IdleData := by
  refine ⟨fun t th th' h hnice hpri hbase hboost _ => ?_, fun t th h hboost => ?_⟩
  · rw [IdleData, hnice, hpri, hbase, hboost]
    exact h
  · have ht : t ≠ 1 := fun he => absurd ((h.1 he).2.symm.trans hboost) (by simp)
    exact ⟨fun he => absurd he ht, fun _ => h.2.2.2, fun _ => h.2.2.2, h.2.2.2⟩

/-- ほかの IDLE priority の thread を作らず、idle が長く待つ前に tick が来る。 -/
def IdleAlone (s : State) : Op → Prop
  | .create _ priority => priority ≠ .idle
  | .tick => s.runQueues .idle = some s.idle →
      s.ticks - (s.threads s.idle).waitStartTick < agingThreshold
  | op => Tame s op

instance (s : State) : (op : Op) → Decidable (IdleAlone s op)
  | .create _ priority => inferInstanceAs (Decidable (priority ≠ .idle))
  | .tick => inferInstanceAs (Decidable (_ → _))
  | .kill t status => inferInstanceAs (Decidable (Tame s (.kill t status)))
  | .inherit owner => inferInstanceAs (Decidable (Tame s (.inherit owner)))
  | .start | .time _ | .reaperInit | .schedule | .preempt _ | .sleep _ | .wait _ _ _
  | .waitResume _ | .wakeOne _ | .wakeAll _ | .restore | .block _ | .timedBlock _ _ | .resume _ _
  | .wake _ _ | .exit _ => inferInstanceAs (Decidable True)

/-- IDLE の run queue にあるのは idle だけである。 -/
theorem Inv.idle_queue (h : Inv timed IdleData s r) (ht : t ∈ r.run .idle) : t = s.idle := by
  have hdata := (h.settled.book.placed t (h.settled.book.exist t (.inl ⟨_, ht⟩))).data
  rw [h.settled.book.idleTid]
  by_contra hne
  exact hdata.2.1 hne (h.settled.queued.ready _ t ht).2

theorem Inv.idle_priority (h : Inv timed IdleData s r) : (s.threads s.idle).priority = .idle :=
  ((h.settled.book.placed _ h.settled.book.idle).data.1 h.settled.book.idleTid).1

/-- IDLE 以外の priority で作られた thread。 -/
theorem idleData_newThread (ht : t ≠ 1) (owner : Option Tid) {p : Priority}
    (hp : p ≠ .idle) (now : UInt64) : IdleData t (newThread owner p now) :=
  ⟨fun he => absurd he ht, fun _ => hp, fun _ => hp, nofun⟩

theorem idleAlone_inv {now : UInt64} {ops : List Op}
    (h : Run.Reach step IdleAlone (schedulerInit now) ops s) : ∃ r, Inv True IdleData s r := by
  refine run_inv closed_idleData ⟨nofun, fun _ => nofun, fun _ => nofun, nofun⟩
    ⟨fun _ => ⟨rfl, rfl⟩, fun h => absurd rfl h, fun h => absurd rfl h, nofun⟩
      (fun s r op hinv hlegal => ?_) h
  have hfresh : s.nextTid ≠ 1 := by
    have hlt := hinv.settled.book.idle
    rw [hinv.settled.book.idleTid] at hlt
    exact Nat.ne_of_gt hlt
  cases op with
  | create owner priority => exact idleData_newThread hfresh _ hlegal _
  | reaperInit =>
    exact ⟨idleData_newThread hfresh none (p := .background) nofun _,
      ⟨fun he => absurd he hfresh, fun _ => nofun, fun _ => nofun, nofun⟩⟩
  | kill t status => exact hlegal
  | inherit owner =>
    refine ⟨hlegal, fun hlt hne hcur => ?_⟩
    rw [hinv.settled.book.idleTid] at hne hcur
    have hdata := (hinv.settled.book.placed owner hlt).data
    exact ⟨fun he => absurd he hne, fun _ => hinv.data.2.1 hcur, hdata.2.2⟩
  | restore =>
    intro hne
    rw [hinv.settled.book.idleTid] at hne
    have hdata := hinv.data
    exact ⟨fun he => absurd he hne, hdata.2.2.1, hdata.2.2⟩
  | tick =>
    intro t ht hqueued _ hold
    have hdata := (hinv.settled.book.placed t ht).data
    refine ⟨fun he => ?_, fun _ => nofun, hdata.2.2⟩
    -- idle が run queue にあれば、IDLE の run queue の先頭である
    have hidle : t = s.idle := he.trans hinv.settled.book.idleTid.symm
    obtain ⟨p, hp⟩ := hqueued hidle
    have hpri := (hinv.settled.queued.ready p t hp).2
    rw [hidle, hinv.idle_priority] at hpri
    subst hpri
    cases hhead : s.runQueues _ with
    | none =>
      rw [(hinv.settled.queued.linked _).chain.eq_nil_iff.mp hhead] at hp
      cases hp
    | some u =>
      rw [hinv.idle_queue (hinv.settled.queued.head_mem hhead)] at hhead
      rw [hidle] at hold
      exact absurd (hlegal hhead) (UInt64.not_lt.mpr hold)
  | _ => trivial

/--
**idle が選ばれるのは、run queue にほかの thread がないときに限る。**

idle のほかに IDLE priority の thread を作らず、run queue にある idle が `THREAD_AGING_THRESHOLD` だけ待つ前に
tick が来るかぎり成り立つ。
-/
theorem idle_only_when_empty {now : UInt64} {ops : List Op}
    (h : Run.Reach step IdleAlone (schedulerInit now) ops s) : ∃ r : Lists,
    (∀ p, Linked s.links (s.runQueues p) (r.run p)) ∧
    ((schedulerPickNext s).1 = s.idle → ∀ p, ∀ t ∈ r.run p, t = s.idle) := by
  obtain ⟨r, hinv⟩ := idleAlone_inv h
  refine ⟨r, hinv.settled.queued.linked, fun hpick q u hu => ?_⟩
  rcases hinv.settled.queued.pick with ⟨-, hempty⟩ | ⟨p, t, rest, hrun, hhigher, hpick'⟩
  · rw [hempty] at hu
    cases hu
  rw [hpick'] at hpick
  have ht : t ∈ r.run p := by rw [hrun]; exact List.mem_cons_self
  have hpri := (hinv.settled.queued.ready p t ht).2
  rw [show t = s.idle from hpick, hinv.idle_priority] at hpri
  subst hpri
  by_cases hq : q = .idle
  · exact hinv.idle_queue (hq ▸ hu)
  · have hrank : Priority.idle.rank < q.rank := by
      cases q <;> first | exact absurd rfl hq | decide
    rw [hhigher q hrank] at hu
    cases hu

/-- 眠った main が起きるまで idle が走り、main に替わる。 -/
theorem idle_only_when_empty_main : ∃ s, Run.Reach step IdleAlone (schedulerInit 0)
      [.start, .sleep 5, .time 5, .tick, .schedule, .time 50, .tick] s ∧
    s.current = 0 ∧ (schedulerPickNext s).1 = s.idle ∧
    ∃ r : Lists, (∀ p, Linked s.links (s.runQueues p) (r.run p)) ∧
      ∀ p, ∀ t ∈ r.run p, t = s.idle := by
  refine Run.exists_reach_of (P := fun s => s.current = 0 ∧ (schedulerPickNext s).1 = s.idle)
    (by decide +kernel) fun s hreach ⟨hcur, hpick⟩ => ?_
  obtain ⟨r, hlinked, hempty⟩ := idle_only_when_empty hreach
  exact ⟨hcur, hpick, r, hlinked, hempty hpick⟩

/--
**aging で UI に移った idle が、待っている thread より先に選ばれる。**

idle は時刻 5 に run queue に戻り、時刻 105 の tick で boost される。時刻 104 に作られた NORMAL の thread 2 は
まだ待っている。
-/
theorem idle_overtakes : ∃ s, Run.Reach step Tame (schedulerInit 0)
      [.start, .sleep 5, .time 5, .tick, .schedule, .time 104, .create none .normal, .time 105,
        .tick] s ∧
    (schedulerPickNext s).1 = s.idle ∧ s.runQueues .normal = some 2 ∧ s.idle ≠ 2 :=
  Run.exists_reach (by decide +kernel)

end Alos.Sched
