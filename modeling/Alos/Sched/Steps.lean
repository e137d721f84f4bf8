import Alos.Sched.Invariant

/-!
# どの手も不変条件を保つ

手の前提は `Fits` にまとめる。待っている thread を `thread_kill` しないこと、run queue にある thread の priority を
引き上げないこと、時間を限った待ちは `timed` のときに限ること、そして新しい thread と、
boost した thread と、priority を替えた thread が欄の条件 `D` を満たすことである。

* `step_inv` — 前提を満たす一つの手は不変条件を保つ
-/

namespace Alos.Sched

open Links Function List Option

variable {timed : Prop} {D : Tid → Thread → Prop} {s s' : State} {r r' : Lists} {t : Tid}
variable {f : Thread → Thread} {rest : List Tid} {q : Wq} {p : Priority} {now : UInt64}
variable {u : Tid} {owner : Option Nat} {priority : Priority}

/-! ## 欄の書換え -/

/-- thread に関わらない欄が変わる。 -/
theorem Inv.congr (h : Inv timed D s r) (ht : s'.threads = s.threads) (hl : s'.links = s.links)
    (hn : s'.waitNext = s.waitNext) (hr : s'.runQueues = s.runQueues)
    (hs : s'.sleepQueue = s.sleepQueue) (hw : s'.waitQueues = s.waitQueues)
    (hc : s'.current = s.current) (hi : s'.idle = s.idle) (hx : s'.nextTid = s.nextTid) :
    Inv timed D s' r := by
  obtain ⟨⟨hqueued, hwaits, hbook⟩, hcur⟩ := h
  refine ⟨⟨hqueued.congr hl hr hs (fun _ _ _ => by rw [ht]; exact ⟨rfl, rfl⟩)
      (fun _ _ => by rw [ht]; exact ⟨rfl, rfl, rfl⟩),
    hwaits.congr rfl hn hw (fun _ _ _ => by rw [ht]; exact ⟨rfl, rfl⟩),
    ⟨hx ▸ hbook.exist, by rw [hc, hx]; exact hbook.current, by rw [hi, hx]; exact hbook.idle,
      hi.trans hbook.idleTid, fun u hu => ?_⟩⟩, by rw [ht, hc]; exact hcur⟩
  have hp := hbook.placed u (hx ▸ hu)
  exact hp.congr (fun hr => hc ▸ hp.running hr) hi (by rw [ht]) (fun _ hu => hu) (fun hu => hu)

namespace Inv

section

variable (h : Inv timed D s r)
include h

theorem loose : r.Loose s.current :=
  h.settled.queued.loose (by rw [h.current]; simp) (by rw [h.current]; simp)

theorem not_wait (q : Wq) : s.current ∉ r.wait q :=
  h.settled.waits.not_mem (by rw [h.current]; simp) (by rw [h.current]; simp) q

theorem data : D s.current (s.threads s.current) :=
  (h.settled.book.placed _ h.settled.book.current).data

/-- 現在の thread の、state のほかの欄を書き換える。 -/
theorem modify (hstate : (f (s.threads s.current)).state = (s.threads s.current).state)
    (hD : D s.current (f (s.threads s.current))) : Inv timed D (s.modify s.current f) r := by
  have hself : ((s.modify s.current f).threads s.current).state = .running := by
    rw [modify_self, hstate, h.current]
  refine ⟨⟨h.settled.queued.modify h.loose f, h.settled.waits.modify h.not_wait f,
    h.settled.book.update rfl rfl rfl h.settled.book.current (fun u hu => .inr hu)
      (fun u hu => modify_of_ne _ _ _ hu) (fun _ _ _ hu => hu) (fun _ _ hu => hu)
      ⟨fun _ => rfl, fun he => ?_, fun he => ?_, fun _ => .inr hself, ?_⟩⟩, hself⟩
  · exact absurd (hself.symm.trans he) (by simp)
  · exact absurd (hself.symm.trans he) (by simp)
  · rw [modify_self]
    exact hD

end

/-! ## 起こす -/

theorem awaken (hD : Closed D) (h : Inv timed D s r) (hs : r.sleep = t :: rest) :
    Inv timed D (s.awaken t) (r.awaken (s.threads t).priority t rest) := by
  have hmem : t ∈ r.sleep := by rw [hs]; exact mem_cons_self
  have hlt := h.settled.book.exist t (.inr (.inl hmem))
  refine ⟨h.settled.awaken hs (hD.keep _ _ _ (h.settled.book.placed t hlt).data rfl rfl rfl rfl
    (.inl rfl)), ?_⟩
  have hne : s.current ≠ t := fun he => h.loose.2 (he ▸ hmem)
  rw [State.awaken, enqueue_current, modify_current, enqueue_of_ne _ _ hne, modify_of_ne _ _ _ hne]
  exact h.current

theorem wakeSleeping (hD : Closed D) (h : Inv timed D s r) : ∃ s' r',
    schedulerWakeSleeping s = some s' ∧ Inv timed D s' r' := by
  obtain ⟨s', r', hs', h', -⟩ := wakeSleepingLoop_rule (P := Inv _ D)
    (fun _ _ h => h.settled.queued) (fun _ _ _ _ h hs _ => h.awaken hD hs) h h.settled.sleep_length
  exact ⟨s', r', hs', h'⟩

end Inv

/-- `f` は、欄の条件に関わる欄を変えない。 -/
theorem Settled.rouse_keep (hD : Closed D) (h : Settled timed D s r) (hw : r.wait q = t :: rest)
    (hf : ∀ th, (f th).nice = th.nice ∧ (f th).priority = th.priority ∧
      (f th).basePriority = th.basePriority ∧ (f th).isBoosted = th.isBoosted ∧
      (f th).waitResult = th.waitResult) :
    Settled timed D ((s.unwait q t).rouse t f) (r.rouse q (s.threads t).priority t rest) ∧
      ((s.unwait q t).rouse t f).current = s.current ∧
      ∀ u, (∀ q, u ∉ r.wait q) → ((s.unwait q t).rouse t f).threads u = s.threads u := by
  have hmem : t ∈ r.wait q := by rw [hw]; exact mem_cons_self
  have hdata := (h.book.placed t (h.book.exist t (.inr (.inr ⟨q, hmem⟩)))).data
  obtain ⟨hnice, hpri, hbase, hboost, hresult⟩ := hf _
  refine ⟨h.rouse hw hpri (hD.keep _ _ _ hdata hnice hpri hbase hboost (.inl hresult)), ?_,
    fun u hu => ?_⟩
  · rw [State.rouse, enqueue_current]
    rfl
  · have hne : u ≠ t := fun he => hu q (he ▸ hmem)
    rw [State.rouse, enqueue_of_ne _ _ hne, modify_of_ne _ _ _ hne]
    rfl

theorem Settled.syncWake (hD : Closed D) (h : Settled timed D s r) (q : Wq) (cancel : Bool) :
    ∃ r', Settled timed D (syncWake s q cancel) r' ∧ r'.wait = update r.wait q (r.wait q).tail ∧
      (Sched.syncWake s q cancel).current = s.current ∧
      ∀ u, (∀ q, u ∉ r.wait q) → (Sched.syncWake s q cancel).threads u = s.threads u := by
  have hhead := Chain.head_eq (h.waits.chain q)
  unfold Sched.syncWake
  cases hw : r.wait q with
  | nil =>
    rw [hhead, hw]
    exact ⟨r, h, by rw [tail_nil, ← hw, update_eq_self], rfl, fun _ _ => rfl⟩
  | cons t rest =>
    rw [hhead, hw]
    obtain ⟨hset, hcur, hkeep⟩ := h.rouse_keep hD hw
      (f := fun t => if cancel then { t with wakeTick := 0 } else t) fun th => by
        cases cancel <;> exact ⟨rfl, rfl, rfl, rfl, rfl⟩
    exact ⟨_, hset, rfl, hcur, hkeep⟩

theorem Inv.wakeOne (hD : Closed D) (h : Inv timed D s r) (hw : r.wait q = t :: rest) :
    Inv timed D (waitQueueWakeOne s q) (r.rouse q (s.threads t).priority t rest) := by
  have hhead := Chain.head_eq (h.settled.waits.chain q)
  rw [hw] at hhead
  obtain ⟨hset, hcur, hkeep⟩ := h.settled.rouse_keep hD hw
    (f := ({ · with waitingQueue := none })) fun th => ⟨rfl, rfl, rfl, rfl, rfl⟩
  simp only [waitQueueWakeOne, hhead, head?_cons]
  exact ⟨hset, by rw [hcur, hkeep _ h.not_wait]; exact h.current⟩

theorem Inv.wakeAll (hD : Closed D) (h : Inv timed D s r) (q : Wq) : ∃ s' r',
    waitQueueWakeAll s q = some s' ∧ Inv timed D s' r' :=
  wakeAllLoop_rule (P := Inv _ D) (fun _ _ h => h.settled.waits)
    (fun _ _ _ _ h hw => h.wakeOne hD hw) h h.settled.wait_length

/-! ## 待つ -/

/-- 待ち行列に加わった thread のほかは、列に前からあった。 -/
theorem Lists.mem_await (h : u ∈ r.sleep ∨ ∃ q', u ∈ (r.await q t).wait q') :
    u = t ∨ u ∈ r.sleep ∨ ∃ q', u ∈ r.wait q' := by
  rcases h with h | ⟨q', h⟩
  · exact .inr (.inl h)
  by_cases hq : q' = q
  · subst hq
    rw [Lists.await] at h
    simp only [update_self, mem_append, mem_singleton] at h
    exact h.symm.imp_right fun h => .inr ⟨q', h⟩
  · rw [Lists.await] at h
    simp only [update_of_ne hq] at h
    exact .inr (.inr ⟨q', h⟩)

section

variable (hD : Closed D) (h : Inv timed D s r)
include hD h

theorem Inv.schedule : ∃ r', Inv timed D (schedulerSchedule s) r' ∧ r'.sleep = r.sleep := by
  by_cases hactive : s.active = true
  · exact h.settled.schedule hD hactive (by rw [h.current]; simp)
  · rw [schedulerSchedule, if_pos hactive]
    exact ⟨r, h, rfl⟩

theorem Inv.sleep (hout : s.Outside) (ticks : UInt64) :
    ∃ s' r', threadSleepTicks s ticks = some s' ∧ Inv timed D s' r' ∧
      (∀ u, u ≠ s.current → (s'.threads u).wakeTick = (s.threads u).wakeTick) ∧
      (r'.sleep = r.sleep ∨ ∃ a b, r.sleep = a ++ b ∧ r'.sleep = a ++ s.current :: b ∧
        ∀ u ∈ b, ¬(s'.threads u).wakeTick ≤ (s'.threads s.current).wakeTick) := by
  unfold threadSleepTicks
  split
  · exact ⟨s, r, rfl, h, fun _ _ => rfl, .inl rfl⟩
  obtain ⟨hactive, hidle, hwaiting, -⟩ := hout
  have hqueued := h.settled.queued.modify h.loose
    ({ · with wakeTick := s.ticks + ticks, state := .sleeping })
  have hwaits := h.settled.waits.modify h.not_wait
    ({ · with wakeTick := s.ticks + ticks, state := .sleeping })
  obtain ⟨links, head, a, b, hinsert, hsplit, hgt, hqueued'⟩ := hqueued.sleepInsert h.loose
    (by rw [modify_self]) (by rw [modify_self]; exact hwaiting) h.settled.sleep_length
  simp only [hinsert, bind_eq_bind, bind_some]
  have hmem : ∀ u, u ∈ a ++ s.current :: b ↔ u = s.current ∨ u ∈ r.sleep := by
    intro u
    rw [hsplit]
    simp only [mem_append, mem_cons]
    exact or_left_comm
  have hsettled := h.settled.suspend hqueued'
    (hwaits.congr rfl rfl rfl fun _ _ _ => ⟨rfl, rfl⟩) rfl rfl rfl
    (fun u hu => update_of_ne hu _ _) rfl (fun u hu => (hmem u).mpr (.inr hu))
    (fun u hu => ?_) hidle (by simp) (by simp)
    (fun _ => .inl ((hmem _).mpr (.inl rfl)))
    (by simp only [modify_self]; exact hD.keep _ _ _ h.data rfl rfl rfl rfl (.inl rfl))
  · obtain ⟨r', h', hsleep⟩ := hsettled.schedule hD hactive (by simp)
    refine ⟨_, r', rfl, h', fun u hu => ?_, .inr ⟨a, b, hsplit, hsleep, fun u hu => ?_⟩⟩
    · rw [schedule_wakeTick]
      exact congrArg _ (update_of_ne hu _ _)
    · rw [schedule_wakeTick, schedule_wakeTick]
      exact hgt u hu
  · rcases hu with hu | hu
    · exact ((hmem u).mp hu).imp_right .inl
    · exact .inr (.inr hu)

theorem Inv.waitLoop (hactive : s.active = true) (hidle : s.current ≠ s.idle) (hq : q.Event)
    (predicate : Bool) : ∃ r', Inv timed D (waitLoop s q predicate).1 r' := by
  unfold Sched.waitLoop
  split
  · exact ⟨r, h.modify (f :=
      ({ · with timeoutTick := 0, currentWaitQueue := none, waitResult := 0 }))
      rfl (hD.keep _ _ _ h.data rfl rfl rfl rfl (.inr rfl))⟩
  have hwaits := h.settled.waits.enqueue h.not_wait hq
    (f := ({ · with state := .blocked })) fun th => ⟨.inl rfl, rfl⟩
  obtain ⟨waitNext, waitQueues, heq⟩ := Waits.waitQueueEnqueue_shape (s := s) (q := q)
    (t := s.current)
  simp only [heq] at hwaits ⊢
  have hqueued := ((h.settled.queued.modify h.loose ({ · with waitingQueue := some q })).modify
    h.loose ({ · with state := .blocked })).rewait (r.await q s.current).wait
  refine Exists.imp (fun _ => And.left)
    (Settled.schedule hD (h.settled.suspend (hqueued.congr rfl rfl rfl
    (fun _ _ _ => ⟨rfl, rfl⟩) (fun _ _ => ⟨rfl, rfl, rfl⟩)) hwaits rfl rfl rfl (fun u hu => ?_) rfl
    (fun _ hu => hu) (fun u hu => Lists.mem_await hu) hidle (by simp) (by simp)
    (fun he => absurd he (by simp)) ?_) hactive (by simp))
  · rw [modify_of_ne _ _ _ hu]
    exact update_of_ne hu _ _
  · simp only [modify_self]
    exact hD.keep _ _ _ h.data rfl rfl rfl rfl (.inl rfl)

theorem Inv.wait (hout : s.Outside) (hq : q.Event) (timeoutMs : UInt32) (predicate : Bool) :
    ∃ r', Inv timed D (waitQueueWaitTimeout s q timeoutMs predicate).1 r' := by
  have h' := h.modify (f := ({ · with
    timeoutTick := if 0 < timeoutMs then s.ticks + timeoutMs.toUInt64 else 0
    waitResult := 0
    currentWaitQueue := some q })) rfl (hD.keep _ _ _ h.data rfl rfl rfl rfl (.inr rfl))
  exact h'.waitLoop hD hout.1 hout.2.1 hq _

/-- sync の待ち行列で待つ。 -/
theorem Inv.syncWait {n : Nat} (hactive : s.active = true) (hidle : s.current ≠ s.idle)
    (hstate : (f (s.threads s.current)).state = .blocked ∨
      (f (s.threads s.current)).state = .sleeping ∧ timed)
    (hqueue : (f (s.threads s.current)).waitingQueue = some (.sync n))
    (hf : (f (s.threads s.current)).nice = (s.threads s.current).nice ∧
      (f (s.threads s.current)).priority = (s.threads s.current).priority ∧
      (f (s.threads s.current)).basePriority = (s.threads s.current).basePriority ∧
      (f (s.threads s.current)).isBoosted = (s.threads s.current).isBoosted ∧
      (f (s.threads s.current)).waitResult = (s.threads s.current).waitResult) :
    ∃ s' r', ((syncAppend (s.modify s.current f) (.sync n) s.current).map schedulerSchedule)
      = some s' ∧ Inv timed D s' r' := by
  have hqueued := h.settled.queued.modify h.loose f
  have hwaits := h.settled.waits.modify h.not_wait f
  obtain ⟨waitNext, waitQueues, happend, hwaits'⟩ := hwaits.append h.not_wait (q := .sync n)
    (fun hev => hev) h.settled.wait_length
    (by rw [modify_self]; exact ⟨hstate.imp_right And.left, hqueue⟩)
  have hself : ∀ state : ThreadState, state ≠ .blocked → state ≠ .sleeping →
      ((s.modify s.current f).threads s.current).state ≠ state := by
    intro state hb hs he
    rw [modify_self] at he
    exact hstate.elim (fun h => hb (he.symm.trans h)) fun h => hs (he.symm.trans h.1)
  have hqueued' : Queued { s.modify _ f with waitNext := waitNext, waitQueues := waitQueues }
      _ := (hqueued.rewait (r.await (.sync n) s.current).wait).congr
    rfl rfl rfl (fun _ _ _ => ⟨rfl, rfl⟩) (fun _ _ => ⟨rfl, rfl, rfl⟩)
  have hsettled := h.settled.suspend hqueued' hwaits' rfl rfl rfl
    (fun u hu => update_of_ne hu _ _) rfl (fun _ hu => hu)
    (fun u hu => Lists.mem_await hu) hidle (hself _ (by simp) (by simp))
    (hself _ (by simp) (by simp)) (fun he => .inr ⟨?_, ?_⟩) ?_
  · obtain ⟨r', h', -⟩ := hsettled.schedule hD hactive (hself _ (by simp) (by simp))
    exact ⟨_, r', by rw [happend]; rfl, h'⟩
  · simp only [modify_self] at he
    rcases hstate with hs | hs
    · exact absurd (hs.symm.trans he) (by simp)
    · exact hs.2
  · simp only [modify_self, hqueue]
    simp
  · simp only [modify_self]
    exact hD.keep _ _ _ h.data hf.1 hf.2.1 hf.2.2.1 hf.2.2.2.1 (.inl hf.2.2.2.2)

theorem Inv.resume (q : Wq) (timed' expired : Bool) :
    ∃ s' r', syncResume s q timed' expired = some s' ∧ Inv timed D s' r' := by
  have hremove : (if expired then syncRemove s q s.current else some s) = some s := by
    split
    · have hfollow := (h.settled.waits.chain q).follow h.settled.wait_length
      simp only [syncRemove, hfollow, bind_eq_bind, bind_some, h.not_wait q,
        not_false_eq_true, if_true]
    · rfl
  simp only [syncResume, hremove, map_some]
  refine ⟨_, r, rfl, h.modify ?_ ?_⟩
  · cases timed' <;> rfl
  · cases timed' <;> exact hD.keep _ _ _ h.data rfl rfl rfl rfl (.inl rfl)

end

/-! ## 終わる、止める -/

/-- 起こしても、現在の thread、idle、`g_scheduler_active` は変わらない。 -/
theorem wakeOne_fields (s : State) (q : Wq) : (waitQueueWakeOne s q).current = s.current ∧
    (waitQueueWakeOne s q).idle = s.idle ∧ (waitQueueWakeOne s q).active = s.active := by
  unfold waitQueueWakeOne
  split
  · exact ⟨rfl, rfl, rfl⟩
  · simp [State.rouse, State.unwait]

theorem syncWake_active (s : State) (q : Wq) (cancel : Bool) :
    (syncWake s q cancel).active = s.active := by
  unfold syncWake
  split
  · rfl
  · simp [State.rouse, State.unwait]

theorem Inv.exit (hD : Closed D) (h : Inv timed D s r) (hout : s.Outside) (status : Int32) :
    ∃ s' r', threadExit s status = some s' ∧ Inv timed D s' r' := by
  have h₁ := h.modify (f := ({ · with exited := true, exitStatus := status })) rfl
    (hD.keep _ _ _ h.data rfl rfl rfl rfl (.inl rfl))
  obtain ⟨s₂, r₂, hwake, h₂, hcur, hidle, hactive⟩ := wakeAllLoop_rule (q := .join _)
    (P := fun s₂ r₂ => Inv _ D s₂ r₂ ∧ s₂.current = s.current ∧ s₂.idle = s.idle ∧
      s₂.active = s.active)
    (fun _ _ h => h.1.settled.waits)
    (fun s₂ _ _ _ h hw => ⟨h.1.wakeOne hD hw, by
      obtain ⟨hc, hi, ha⟩ := wakeOne_fields s₂ (.join s.current)
      exact ⟨hc.trans h.2.1, hi.trans h.2.2.1, ha.trans h.2.2.2⟩⟩)
    ⟨h₁, rfl, rfl, rfl⟩ h₁.settled.wait_length
  have hne : s₂.current ≠ s₂.idle := by
    rw [hcur, hidle]
    exact hout.2.1
  -- zombie になっても、どの列にもない
  have hzombie : Settled _ D (s₂.modify _ ({ · with state := .zombie })) r₂ :=
    h₂.settled.suspend (h₂.settled.queued.modify h₂.loose _) (h₂.settled.waits.modify h₂.not_wait _)
      rfl rfl rfl (fun u hu => modify_of_ne _ _ _ hu) rfl (fun _ hu => hu) (fun u hu => .inr hu) hne
      (by simp) (by simp)
      (fun he => absurd he (by simp))
      (by rw [modify_self]; exact hD.keep _ _ _ h₂.data rfl rfl rfl rfl (.inl rfl))
  have hdequeue := hzombie.queued.dequeue_loose (t := s.current) (hcur ▸ h₂.loose)
  rw [hcur] at hzombie hdequeue
  simp only [threadExit, waitQueueWakeAll, hwake, bind_eq_bind, bind_some, hdequeue]
  have hstate : ((s₂.modify s.current ({ · with state := .zombie })).threads
      (s₂.modify s.current ({ · with state := .zombie })).current).state ≠ .ready := by
    rw [modify_current, hcur]
    simp
  split
  · obtain ⟨r', h', -⟩ := hzombie.schedule hD (by rw [modify_active, hactive]; exact hout.1) hstate
    exact ⟨_, r', rfl, h'⟩
  · obtain ⟨r₃, h₃, -, hcur₃, hkeep⟩ := hzombie.syncWake hD _ true
    obtain ⟨r', h', -⟩ := h₃.schedule hD
      (by rw [syncWake_active, modify_active, hactive]; exact hout.1)
      (by rw [hcur₃, hkeep _ (by exact h₂.not_wait)]; exact hstate)
    exact ⟨_, r', rfl, h'⟩

/-- state と待ち方に触れない書換え。 -/
theorem Inv.retouch (h : Inv timed D s r) (ht : t < s.nextTid)
    (hstate : (f (s.threads t)).state = (s.threads t).state)
    (hpri : (s.threads t).state = .ready → (f (s.threads t)).priority = (s.threads t).priority)
    (hwait : (f (s.threads t)).waitingQueue = (s.threads t).waitingQueue)
    (hwake : (f (s.threads t)).wakeTick = (s.threads t).wakeTick) (hD : D t (f (s.threads t))) :
    Inv timed D (s.modify t f) r := by
  refine ⟨h.settled.data ht hstate hpri hwait hwake hD, ?_⟩
  by_cases hc : s.current = t
  · subst hc
    rw [modify_current, modify_self, hstate]
    exact h.current
  · rw [modify_current, modify_of_ne _ _ _ hc]
    exact h.current

theorem Inv.kill (hD : Closed D) (h : Inv timed D s r) (ht : t < s.nextTid)
    (hb : (s.threads t).state ≠ .blocked) (hs : (s.threads t).state ≠ .sleeping) (status : Int32) :
    Inv timed D (threadKill s t status) r := by
  have hdata := (h.settled.book.placed t ht).data
  have hwaiting : ¬((s.threads t).state = .blocked ∨ (s.threads t).state = .sleeping) := by
    simp [hb, hs]
  simp only [threadKill, modify_self, if_neg hwaiting]
  exact h.retouch ht rfl (fun _ => rfl) rfl rfl (hD.keep _ _ _ hdata rfl rfl rfl rfl (.inl rfl))

/-- run queue にない owner を引き上げる。 -/
theorem Inv.inherit (h : Inv timed D s r) (ht : t < s.nextTid)
    (hready : (s.threads t).state = .ready →
      ¬(s.threads t).priority.rank < (s.threads u).priority.rank)
    (hD : D t { s.threads t with priority := (s.threads u).priority }) :
    Inv timed D (mutexApplyPriorityInheritance s t u) r := by
  unfold mutexApplyPriorityInheritance
  simp only
  split
  · rename_i hlt
    exact h.retouch ht rfl (fun hr => absurd hlt (hready hr)) rfl rfl hD
  · exact h

/-! ## 作る -/

theorem create_self (s : State) (owner : Option Nat) (priority : Priority) :
    (threadCreate s owner priority).threads s.nextTid = newThread owner priority s.ticks := by
  rw [threadCreate, enqueue_self]
  · simp only [update_self]
    rfl
  · simp [newThread]

theorem create_of_ne (hu : u ≠ s.nextTid) :
    (threadCreate s owner priority).threads u = s.threads u := by
  rw [threadCreate, enqueue_of_ne _ _ hu]
  exact update_of_ne hu _ _

theorem Inv.create (h : Inv timed D s r) (hnew : D s.nextTid (newThread owner priority s.ticks)) :
    ∃ r', Inv timed D (threadCreate s owner priority) r' := by
  have hfresh : ∀ u, r.Mem u → u ≠ s.nextTid :=
    fun u hu => Nat.ne_of_lt (h.settled.book.exist u hu)
  have hloose : r.Loose _ :=
    ⟨fun p hp => hfresh _ (.inl ⟨p, hp⟩) rfl, fun hs => hfresh _ (.inr (.inl hs)) rfl⟩
  have hcur : s.current ≠ s.nextTid := Nat.ne_of_lt h.settled.book.current
  obtain ⟨hn, hp⟩ := h.settled.queued.free _ hloose
  obtain ⟨hself, hothers⟩ : (threadCreate s _ _).threads _ = newThread _ _ _ ∧ ∀ u, u ≠ s.nextTid →
        (threadCreate s _ _).threads u = s.threads u :=
    ⟨create_self s _ _, fun u hu => create_of_ne hu⟩
  have hqueued := h.settled.queued.modify hloose fun _ => newThread owner priority s.ticks
  have hqueued' : Queued { s.modify _ (fun _ => newThread _ _ _) with
      links := s.links.clear _
      waitNext := update s.waitNext s.nextTid none
      waitQueues := update s.waitQueues (.join s.nextTid) ⟨none, none⟩
      nextTid := s.nextTid + 1 } r :=
    hqueued.congr (clear_eq hn hp) rfl rfl (fun _ _ _ => ⟨rfl, rfl⟩) (fun _ _ => ⟨rfl, rfl, rfl⟩)
  have hwait : ∀ q, s.nextTid ∉ update r.wait (.join s.nextTid) [] q := by
    intro q hq
    by_cases he : q = .join s.nextTid
    · subst he
      simp at hq
    · rw [update_of_ne he] at hq
      exact hfresh _ (.inr (.inr ⟨q, hq⟩)) rfl
  have hwaits : Waits { s.modify s.nextTid (fun _ => newThread owner priority s.ticks) with
      links := s.links.clear s.nextTid
      waitNext := update s.waitNext s.nextTid none
      waitQueues := update s.waitQueues (.join s.nextTid) ⟨none, none⟩
      nextTid := s.nextTid + 1 }
      { r with wait := update r.wait (.join s.nextTid) [] } := by
    refine ⟨fun q => ?_, fun q hq => ?_, fun q u hu => ?_⟩
    · by_cases he : q = .join s.nextTid
      · subst he
        simp [Seg]
      · simp only [update_of_ne he]
        refine (h.settled.waits.chain q).congr fun u hu => update_of_ne ?_ _ _
        exact hfresh u (.inr (.inr ⟨q, hu⟩))
    · by_cases he : q = .join s.nextTid
      · subst he
        simp
      · simp only [update_of_ne he]
        exact h.settled.waits.tail q hq
    · by_cases he : q = .join s.nextTid
      · subst he
        simp at hu
      · simp only [update_of_ne he] at hu
        simp only [modify_of_ne _ _ _ (hfresh u (.inr (.inr ⟨q, hu⟩)))]
        exact h.settled.waits.waiting q u hu
  have hadd := (hqueued'.enqueue hloose (by simp [newThread])).rewait
    (update r.wait (.join s.nextTid) [])
  have hawait := hwaits.schedulerEnqueue hwait priority
  have hpri : ((s.modify s.nextTid (fun _ => newThread owner priority s.ticks)).threads
      s.nextTid).priority = priority := by
    rw [modify_self]
    rfl
  simp only [hpri] at hadd
  have hnext : (threadCreate s owner priority).nextTid = s.nextTid + 1 := by simp [threadCreate]
  have hidle : (threadCreate s owner priority).idle = s.idle := by simp [threadCreate]
  have hcurrent : (threadCreate s owner priority).current = s.current := by simp [threadCreate]
  refine ⟨_, ⟨hadd, hawait, ⟨fun u hu => ?_, ?_, ?_, hidle.trans h.settled.book.idleTid,
    fun u hu => ?_⟩⟩, ?_⟩
  · rw [hnext]
    rcases hu with ⟨q, hu⟩ | hu | ⟨q, hu⟩
    · rcases Lists.mem_enqueue.mp hu with ⟨-, rfl⟩ | hu
      · exact Nat.lt_succ_self _
      · exact Nat.lt_succ_of_lt (h.settled.book.exist u (.inl ⟨q, hu⟩))
    · exact Nat.lt_succ_of_lt (h.settled.book.exist u (.inr (.inl hu)))
    · by_cases he : q = .join s.nextTid
      · subst he
        simp at hu
      · simp only [update_of_ne he] at hu
        exact Nat.lt_succ_of_lt (h.settled.book.exist u (.inr (.inr ⟨q, hu⟩)))
  · rw [hnext, hcurrent]
    exact Nat.lt_succ_of_lt h.settled.book.current
  · rw [hnext, hidle]
    exact Nat.lt_succ_of_lt h.settled.book.idle
  · by_cases hun : u = s.nextTid
    · subst hun
      refine ⟨?_, fun _ => .inr ?_, ?_, fun _ =>
        .inl (by rw [hself]; rfl), by rw [hself]; exact hnew⟩
      · rw [hself]
        intro he
        cases he
      · rw [hself]
        exact Lists.mem_enqueue.mpr (.inl ⟨rfl, rfl⟩)
      · rw [hself]
        intro he
        cases he
    · rw [hnext] at hu
      have hpu := h.settled.book.placed u (Nat.lt_of_le_of_ne (Nat.le_of_lt_succ hu) hun)
      exact hpu.congr (fun hr => (hpu.running hr).trans hcurrent.symm) hidle (hothers u hun)
        (fun p hp => Lists.mem_enqueue.mpr (.inr hp)) (fun hs => hs)
  · rw [hcurrent, hothers _ hcur]
    exact h.current

/-- priority が変わらなければ、run queue も変わらない。 -/
theorem setNice_same {nice : Int8} (hb : (s.threads t).isBoosted = false)
    (hp : (s.threads t).priority = p) (hn : schedulerNiceToPriority (clampNice nice) = p) :
    threadSetNice s t nice = s.modify t
      ({ · with nice := clampNice nice, priority := p, basePriority := p }) := by
  simp [threadSetNice, State.modify, hb, hp, hn]

theorem Inv.reaperInit (h : Inv timed D s r)
    (hnew : D s.nextTid (newThread none .background s.ticks))
    (hnice : D s.nextTid { newThread none .background s.ticks with nice := 10 }) :
    ∃ r', Inv timed D (reaperInit s) r' := by
  obtain ⟨r', h'⟩ : ∃ r', Inv _ D _ r' := h.create hnew
  have hself := create_self s none .background
  have hlt : s.nextTid < (threadCreate s none .background).nextTid := by
    rw [threadCreate, enqueue_nextTid]
    exact Nat.lt_succ_self _
  have hcur : (threadCreate s none .background).current ≠ s.nextTid := by
    rw [threadCreate, enqueue_current]
    exact Nat.ne_of_lt h.settled.book.current
  have heq : Sched.reaperInit s = ({ threadCreate s none _ with
      reaper := some _ }).modify _ ({ · with
        nice := 10, priority := .background, basePriority := .background }) :=
    setNice_same (by rw [hself]; rfl) (by rw [hself]; rfl) (by decide)
  have h₁ : Inv _ D { threadCreate s none _ with reaper := some s.nextTid } r' :=
    h'.congr rfl rfl rfl rfl rfl rfl rfl rfl rfl
  rw [heq]
  refine ⟨r', h₁.settled.data hlt rfl (fun _ => by rw [hself]; rfl) rfl rfl ?_, ?_⟩
  · rw [hself]
    exact hnice
  · rw [modify_current, modify_of_ne _ _ _ hcur]
    exact h₁.current

/-! ## timer -/

/-- boost した後の欄。 -/
def Thread.boosted (thread : Thread) (now : UInt64) : Thread :=
  { thread with priority := .ui, isBoosted := true, waitStartTick := now }

/-- 長く待った thread は、boost しても欄の条件を満たす。idle については、run queue にあるときに限る。 -/
def Ageable (D : Tid → Thread → Prop) (now : UInt64) (s : State) (r : Lists) : Prop :=
  ∀ t < s.nextTid, (t = s.idle → ∃ p, t ∈ r.run p) → (s.threads t).isBoosted = false →
    agingThreshold ≤ now - (s.threads t).waitStartTick → D t ((s.threads t).boosted now)

theorem Ageable.congr (hD : Closed D) (h : Ageable D now s r)
    (hidle : s'.idle = s.idle) (hnext : s'.nextTid = s.nextTid)
    (hrun : ∀ p, s.idle ∈ r'.run p → ∃ p, s.idle ∈ r.run p)
    (hth : ∀ t, (s'.threads t).isBoosted = true ∨ (s'.threads t).nice = (s.threads t).nice ∧
      (s'.threads t).basePriority = (s.threads t).basePriority ∧
      (s'.threads t).isBoosted = (s.threads t).isBoosted ∧
      (s'.threads t).waitStartTick = (s.threads t).waitStartTick ∧
      (s'.threads t).waitResult = (s.threads t).waitResult) : Ageable D now s' r' := by
  intro t ht hqueued hboost hold
  rcases hth t with hb | ⟨hnice, hbase, hb, hstart, hresult⟩
  · exact absurd (hboost.symm.trans hb) (by simp)
  rw [hnext] at ht
  rw [hb] at hboost
  rw [hstart] at hold
  refine hD.keep t _ _ (h t ht (fun he => ?_) hboost hold) hnice rfl hbase rfl (.inl hresult)
  subst he
  obtain ⟨p, hp⟩ := hqueued hidle.symm
  exact hrun p hp

/-- boost に関わる欄を変えない書換え。 -/
structure Mild (f : Thread → Thread) : Prop where
  state : ∀ th, (f th).state = th.state
  nice : ∀ th, (f th).nice = th.nice
  priority : ∀ th, (f th).priority = th.priority
  basePriority : ∀ th, (f th).basePriority = th.basePriority
  isBoosted : ∀ th, (f th).isBoosted = th.isBoosted
  waitStartTick : ∀ th, (f th).waitStartTick = th.waitStartTick
  waitResult : ∀ th, (f th).waitResult = th.waitResult

theorem Inv.mild (hD : Closed D) (h : Inv timed D s r) (hf : Mild f) :
    Inv timed D (s.modify s.current f) r :=
  h.modify (hf.state _) (hD.keep _ _ _ h.data (hf.nice _) (hf.priority _) (hf.basePriority _)
    (hf.isBoosted _)
    (.inl (hf.waitResult _)))

theorem Inv.onCurrent (hD : Closed D) (h : Inv timed D s r) (hf : Mild f) :
    Inv timed D (s.onCurrent f) r := by
  unfold State.onCurrent
  split
  · exact h.mild hD hf
  · exact h

theorem Ageable.onCurrent (hD : Closed D)
    (h : Ageable D now s r) (hf : Mild f) : Ageable D now (s.onCurrent f) r := by
  unfold State.onCurrent
  split
  · refine h.congr hD rfl rfl (fun p hp => ⟨p, hp⟩) fun t => .inr ?_
    by_cases ht : t = s.current
    · subst ht
      rw [modify_self]
      exact ⟨hf.nice _, hf.basePriority _, hf.isBoosted _, hf.waitStartTick _, hf.waitResult _⟩
    · rw [modify_of_ne _ _ _ ht]
      exact ⟨rfl, rfl, rfl, rfl, rfl⟩
  · exact h

theorem mild_decrementSlice : Mild Thread.decrementSlice := by
  constructor <;> intro th <;> unfold Thread.decrementSlice <;> split <;> rfl

theorem mild_markExpired : Mild Thread.markExpired := by
  constructor <;> intro th <;> unfold Thread.markExpired <;> split <;> rfl

theorem Inv.preempt (hD : Closed D) (h : Inv timed D s r) (ring3 : Bool) :
    ∃ s' r', schedulerPreempt s ring3 = some s' ∧ Inv timed D s' r' := by
  unfold schedulerPreempt
  split
  · exact ⟨s, r, rfl, h⟩
  obtain ⟨s₁, r₁, hs₁, h₁⟩ := h.wakeSleeping hD
  have h₂ := h₁.onCurrent hD mild_decrementSlice
  rw [hs₁, bind_some]
  generalize s₁.onCurrent _ = s₂ at h₂
  unfold preemptExpired
  simp only
  split
  · refine ⟨_, r₁, rfl, ?_⟩
    split
    · exact h₂.mild hD (by constructor <;> intro th <;> rfl)
    · exact h₂
  split
  · exact ⟨s₂, r₁, rfl, h₂⟩
  obtain ⟨found, hfound, hspec⟩ := findKernel_spec h₂.settled.queued h₂.settled.run_length
  rw [hfound]
  cases found with
  | none =>
    refine ⟨_, r₁, rfl, ?_⟩
    simp only
    split
    · exact h₂.mild hD (by constructor <;> intro th <;> rfl)
    · exact h₂
  | some next =>
    obtain ⟨⟨p, hp⟩, -⟩ := hspec next rfl
    have hpri := (h₂.settled.queued.ready p next hp).2
    obtain ⟨r', h', -⟩ := h₂.settled.switchTo (fun state => state = .running)
      (fun thread => { thread.enter _ with
        timeSliceRemaining := schedulerGetTimeSlice _, preemptPending := false })
      hD hp (by rw [h₂.current]; simp) (fun state _ => by simp) rfl
      (hD.keep _ _ _ (h₂.settled.book.placed next
        (h₂.settled.book.exist next (.inl ⟨p, hp⟩))).data rfl rfl rfl rfl (.inl rfl))
    refine ⟨_, r', rfl, ?_⟩
    simp only [preemptTo, hpri]
    exact h'

/-- 眠っているのは idle ではない。 -/
theorem Settled.sleep_ne_idle (h : Settled timed D s r) (ht : t ∈ r.sleep) : t ≠ s.idle := by
  rintro rfl
  have hidle := (h.book.placed _ h.book.idle).idle rfl
  rw [(h.queued.sleeping _ ht).2.1] at hidle
  rcases hidle with h | h <;> cases h

theorem Ageable.awaken (hD : Closed D) (hinv : Inv timed D s r)
    (h : Ageable D now s r) (hs : r.sleep = t :: rest) :
    Ageable D now (s.awaken t) (r.awaken (s.threads t).priority t rest) := by
  have hmem : t ∈ r.sleep := by rw [hs]; exact mem_cons_self
  refine h.congr hD (by simp [State.awaken]) (by simp [State.awaken]) (fun p hp => ?_) fun u =>
    .inr ?_
  · rcases Lists.mem_enqueue.mp hp with ⟨-, he⟩ | hp
    · exact absurd he.symm (hinv.settled.sleep_ne_idle hmem)
    · exact ⟨p, hp⟩
  · by_cases hu : u = t
    · subst hu
      rw [State.awaken, enqueue_self _ _ (by simp), modify_self]
      exact ⟨rfl, rfl, rfl, rfl, rfl⟩
    · rw [State.awaken, enqueue_of_ne _ _ hu, modify_of_ne _ _ _ hu]
      exact ⟨rfl, rfl, rfl, rfl, rfl⟩

theorem Ageable.boost (hD : Closed D) (h : Ageable D now s r)
    (ht : t ∈ r.run p) : Ageable D now (s.boost p now t) (r.boost p t) := by
  refine h.congr hD rfl rfl (fun q hq => ?_) fun u => ?_
  · rcases Lists.mem_enqueue.mp hq with ⟨-, he⟩ | hq
    · exact ⟨p, he ▸ ht⟩
    · exact ⟨q, Lists.mem_of_unlink hq⟩
  · by_cases hu : u = t
    · subst hu
      have heq : (s.boost p now u).threads u = (s.threads u).boosted now := update_self ..
      exact .inl (by rw [heq]; rfl)
    · have heq : (s.boost p now t).threads u = s.threads u := update_of_ne hu _ _
      rw [heq]
      exact .inr ⟨rfl, rfl, rfl, rfl, rfl⟩

theorem Inv.boost (h : Inv timed D s r) (ht : t ∈ r.run p)
    (hboost : D t ((s.threads t).boosted now)) : Inv timed D (s.boost p now t) (r.boost p t) := by
  refine ⟨h.settled.boost ht hboost, ?_⟩
  have hne : s.current ≠ t := fun he => h.loose.1 p (he ▸ ht)
  have heq : (s.boost p now t).threads _ = s.threads _ :=
    update_of_ne hne _ _
  exact heq ▸ h.current

/-- 眠っている thread を起こし、time slice を減らし、aging をする。 -/
theorem Inv.tick (hD : Closed D) (h : Inv timed D s r) (hage : Ageable D s.ticks s r) :
    ∃ s' r', schedulerTick s = some s' ∧ Inv timed D s' r' := by
  unfold schedulerTick
  split
  · exact ⟨s, r, rfl, h⟩
  have hcharge : Mild fun th => { th with cpuTicks := th.cpuTicks + 1 } := by
    constructor <;> intro th <;> rfl
  have h₀ := h.onCurrent hD hcharge
  obtain ⟨s₁, r₁, hs₁, ⟨h₁, hage₁⟩, -⟩ := wakeSleepingLoop_rule
    (P := fun s' r' => Inv _ D s' r' ∧ Ageable D _ s' r')
    (fun _ _ h => h.1.settled.queued)
    (fun _ _ _ _ h hs _ => ⟨h.1.awaken hD hs, h.2.awaken hD h.1 hs⟩)
    ⟨h₀, hage.onCurrent hD hcharge⟩ h₀.settled.sleep_length
  have h₂ := (h₁.onCurrent hD mild_decrementSlice).onCurrent hD mild_markExpired
  have hage₂ := (hage₁.onCurrent hD mild_decrementSlice).onCurrent hD mild_markExpired
  obtain ⟨s', r', hs', h', -⟩ := ageQueues_rule _
    (P := fun s' r' => Inv _ D s' r' ∧ Ageable D _ s' r')
    (fun _ _ h => h.1.settled.queued) (fun _ _ p h => h.1.settled.run_length p)
    (fun s' r' p t h ht hboost hold =>
      ⟨h.1.boost ht (h.2 t (h.1.settled.book.exist t (.inl ⟨p, ht⟩))
      (fun _ => ⟨p, ht⟩) hboost hold), h.2.boost hD ht⟩)
    Priority.aging (by decide) ⟨h₂, hage₂⟩
  refine ⟨s', r', ?_, h'⟩
  simp only [schedulerWakeSleeping, hs₁, bind_some, checkThreadTimeouts, hs']

/-! ## まとめ -/

/-- 手の前提。 -/
def Fits (timed : Prop) (D : Tid → Thread → Prop) (s : State) (r : Lists) : Op → Prop
  | .create owner priority => D s.nextTid (newThread owner priority s.ticks)
  | .reaperInit => D s.nextTid (newThread none .background s.ticks) ∧
      D s.nextTid { newThread none .background s.ticks with nice := 10 }
  | .tick => Ageable D s.ticks s r
  | .timedBlock _ _ => timed
  | .inherit owner => ((s.threads owner).state = .ready →
        ¬(s.threads owner).priority.rank < (s.threads s.current).priority.rank) ∧
      (owner < s.nextTid → owner ≠ s.idle → s.current ≠ s.idle → D owner
        { s.threads owner with priority := (s.threads s.current).priority })
  | .restore => s.current ≠ s.idle → D s.current
      { s.threads s.current with priority := (s.threads s.current).basePriority }
  | .kill t _ => (s.threads t).state ≠ .blocked ∧ (s.threads t).state ≠ .sleeping
  | _ => True

theorem inv_of_some {o : Option State} (h : ∃ s₁ r₁, o = some s₁ ∧ Inv timed D s₁ r₁)
    (hs : o = some s') : ∃ r', Inv timed D s' r' := by
  obtain ⟨s₁, r₁, hs₁, h₁⟩ := h
  obtain rfl := some.inj (hs₁.symm.trans hs)
  exact ⟨r₁, h₁⟩

/-- 一つの手は不変条件を保つ。 -/
theorem step_inv {op : Op} (hD : Closed D) (h : Inv timed D s r) (hfit : Fits timed D s r op)
    (hstep : step s op = some s') : ∃ r', Inv timed D s' r' := by
  cases op with
  | start =>
    obtain rfl := some.inj hstep
    exact ⟨r, h.congr rfl rfl rfl rfl rfl rfl rfl rfl rfl⟩
  | time now =>
    obtain ⟨-, ⟨⟩⟩ := ite_none_right_eq_some.mp hstep
    exact ⟨r, h.congr rfl rfl rfl rfl rfl rfl rfl rfl rfl⟩
  | create owner priority =>
    obtain rfl := some.inj hstep
    exact h.create hfit
  | reaperInit =>
    obtain rfl := some.inj hstep
    exact h.reaperInit hfit.1 hfit.2
  | schedule =>
    obtain rfl := some.inj hstep
    exact (h.schedule hD).imp fun _ => And.left
  | preempt ring3 =>
    exact inv_of_some (h.preempt hD _) hstep
  | tick =>
    exact inv_of_some (h.tick hD hfit) hstep
  | sleep ticks =>
    obtain ⟨hout, hstep⟩ := ite_none_right_eq_some.mp hstep
    obtain ⟨s₁, r₁, hs₁, h₁, -⟩ := h.sleep hD hout _
    exact inv_of_some ⟨s₁, r₁, hs₁, h₁⟩ hstep
  | wait q timeoutMs predicate =>
    obtain ⟨⟨hout, hq⟩, ⟨⟩⟩ := ite_none_right_eq_some.mp hstep
    exact h.wait hD hout hq _ _
  | waitResume predicate =>
    simp only [step] at hstep
    split at hstep
    · obtain ⟨⟨⟨hactive, hidle⟩, hq⟩, ⟨⟩⟩ := ite_none_right_eq_some.mp hstep
      exact h.waitLoop hD hactive hidle hq _
    · cases hstep
  | wakeOne q =>
    obtain ⟨-, ⟨⟩⟩ := ite_none_right_eq_some.mp hstep
    cases hw : r.wait q with
    | nil =>
      have hhead := (h.settled.waits.chain q).eq_nil_iff.mpr hw
      refine ⟨r, ?_⟩
      simp only [waitQueueWakeOne, hhead]
      exact h
    | cons t rest => exact ⟨_, h.wakeOne hD hw⟩
  | wakeAll q =>
    obtain ⟨-, hstep⟩ := ite_none_right_eq_some.mp hstep
    exact inv_of_some (h.wakeAll hD q) hstep
  | inherit owner =>
    obtain ⟨⟨hout, hlt, hidle⟩, ⟨⟩⟩ := ite_none_right_eq_some.mp hstep
    exact ⟨r, h.inherit hlt hfit.1 (hfit.2 hlt hidle hout.2.1)⟩
  | restore =>
    obtain ⟨hidle, ⟨⟩⟩ := ite_none_right_eq_some.mp hstep
    exact ⟨r, h.modify rfl (hfit hidle)⟩
  | block n =>
    obtain ⟨hout, hstep⟩ := ite_none_right_eq_some.mp hstep
    exact inv_of_some (h.syncWait hD hout.1 hout.2.1 (n := n)
      (f := ({ · with state := .blocked, waitingQueue := some _ })) (.inl rfl) rfl
      ⟨rfl, rfl, rfl, rfl, rfl⟩) hstep
  | timedBlock n wake =>
    obtain ⟨hout, hstep⟩ := ite_none_right_eq_some.mp hstep
    exact inv_of_some (h.syncWait hD hout.1 hout.2.1 (n := n)
      (f := ({ · with state := .sleeping, waitingQueue := some _, wakeTick := wake }))
      (.inr ⟨rfl, hfit⟩) rfl ⟨rfl, rfl, rfl, rfl, rfl⟩) hstep
  | resume timed' expired =>
    simp only [step] at hstep
    split at hstep
    · rename_i q hq
      exact inv_of_some (h.resume hD q _ _) hstep
    · cases hstep
  | wake n cancel =>
    obtain rfl := some.inj hstep
    obtain ⟨r₁, h₁, -, hcur, hkeep⟩ := h.settled.syncWake hD _ _
    exact ⟨r₁, h₁, by rw [hcur, hkeep _ h.not_wait]; exact h.current⟩
  | kill t status =>
    obtain ⟨ht, ⟨⟩⟩ := ite_none_right_eq_some.mp hstep
    exact ⟨r, h.kill hD ht hfit.1 hfit.2 _⟩
  | exit status =>
    obtain ⟨hout, hstep⟩ := ite_none_right_eq_some.mp hstep
    exact inv_of_some (h.exit hD hout _) hstep

end Alos.Sched
