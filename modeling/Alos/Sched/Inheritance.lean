import Alos.Sched.Consistency
import Alos.Sync.Mutex

/-!
# mutex の priority inheritance（`kernel/sync.c`）

`mutex_lock` は、待つ前に owner の priority を自分まで引き上げ、`mutex_unlock` は owner の priority を
`base_priority` に戻す。ねらいは、mutex を持つ thread の priority が、それを待つどの thread の priority より低く
ならないことである。

しかし、引上げは `priority` の欄を書き換えるだけで、run queue の中の thread を移さず、owner が別の mutex を待って
いてもその先へは伝わらない。戻すときはほかの mutex を見ない。また、待つ thread がいる mutex を新しく取った thread
は引き上げられない。これらを避けるかぎり、ねらいどおりになる。

mutex は thread の scheduler の上に置く。待ち行列は、scheduler の状態の `sync` の待ち行列である。aging は、ここでは
考えない。

* `inheritance_holds` — 条件の下で、owner の priority は待つ thread より低くならない
* `inheritance_broken` — READY の owner は引き上げられても移らず、二つの mutex の一方を放すと引上げが消える
-/

namespace Alos.Sched

open Links Function Option

variable {o : Tid} {res : Sync.Mutex Tid × Sync.Outcome}

/-! ## 手 -/

/-- `k` 個の mutex と scheduler。 -/
structure Contention (k : Nat) where
  sched : State
  mutexes : Fin k → Sync.Mutex Tid
  /-- `owner_original_priority`。どこからも読まれない。 -/
  original : Fin k → Priority

namespace Contention

variable {k : Nat}

def current (c : Contention k) : Tid := c.sched.current

def priority (c : Contention k) (t : Tid) : Priority := (c.sched.threads t).priority

def basePriority (c : Contention k) (t : Tid) : Priority := (c.sched.threads t).basePriority

def setPriority (c : Contention k) (t : Tid) (p : Priority) : Contention k :=
  { c with sched := c.sched.modify t ({ · with priority := p }) }

def applyPriorityInheritance (c : Contention k) (n : Fin k) (waiter : Tid) : Contention k :=
  match (c.mutexes n).owner with
  | none => c
  | some owner =>
    if (c.priority owner).rank < (c.priority waiter).rank then
      { c.setPriority owner (c.priority waiter) with
        original := if c.priority owner = c.basePriority owner
          then Function.update c.original n (c.basePriority owner) else c.original }
    else c

def restorePriority (c : Contention k) (owner : Tid) : Contention k :=
  c.setPriority owner (c.basePriority owner)

/-- `mutex_lock` のループの一周の残り。`r` は、mutex の欄の変化と、待つかどうかである。 -/
def locked (c : Contention k) (n : Fin k) (r : Sync.Mutex Tid × Sync.Outcome) :
    Option (Contention k) :=
  match r.2 with
  | .returns _ =>
    some { c with
      mutexes := Function.update c.mutexes n r.1
      original := if (c.mutexes n).owner = none
        then Function.update c.original n (c.basePriority c.current) else c.original }
  | .blocks =>
    let c' := c.applyPriorityInheritance n c.current
    (syncBlock c'.sched (.sync n)).map fun s =>
      { c' with sched := s, mutexes := Function.update c.mutexes n r.1 }

/-- 戻った thread の `waiting_queue` を消す。 -/
def resumed (c : Contention k) : Contention k :=
  { c with sched := c.sched.modify c.current ({ · with waitingQueue := none }) }

def unlocked (c : Contention k) (n : Fin k) : Contention k :=
  let r := Sync.mutexUnlock (c.mutexes n) c.current
  let mutexes := Function.update c.mutexes n r.1
  if (c.mutexes n).owner = some c.current ∧ r.1.owner = none then
    let c' := c.restorePriority c.current
    { c' with sched := syncWake c'.sched (.sync n) false, mutexes := mutexes }
  else { c with mutexes := mutexes }

end Contention

inductive ContentionOp (k : Nat) where
  /-- mutex に関わらない scheduler の手。 -/
  | env (op : Op)
  | lock (n : Fin k)
  /-- 起こされた thread が、ループの先頭に戻る。 -/
  | relock
  | unlock (n : Fin k)

/-- aging をせず、待ち行列にも触れない手。 -/
def Op.neutral : Op → Bool
  | .start | .time _ | .create _ _ | .schedule | .preempt _ | .sleep _ => true
  | _ => false

/-- 待っている mutex。 -/
def Contention.awaited {k : Nat} (c : Contention k) : Option (Fin k) :=
  match (c.sched.threads c.current).waitingQueue with
  | some (.sync n) => if h : n < k then some ⟨n, h⟩ else none
  | _ => none

def contentionStep {k : Nat} (c : Contention k) : ContentionOp k → Option (Contention k)
  | .env op => if op.neutral then (step c.sched op).map fun s => { c with sched := s } else none
  | .lock n =>
    if c.sched.Outside then c.locked n (Sync.mutexLock (c.mutexes n) c.current) else none
  | .relock =>
    match c.awaited with
    | some n =>
      if c.sched.active = true ∧ c.current ≠ c.sched.idle then
        c.resumed.locked n (Sync.mutexAcquire (c.mutexes n) c.current)
      else none
    | none => none
  | .unlock n => if c.sched.Outside then some (c.unlocked n) else none

/-- どの mutex にも owner はない。 -/
def Contention.start {k : Nat} (type : Fin k → Sync.MutexType) (now : UInt64) : Contention k :=
  ⟨schedulerInit now, fun n => Sync.mutexInit (type n), fun _ => .normal⟩

/-! ## 条件 -/

section Legal

variable {k : Nat}

/--
取るなら、待つどの thread よりも低くない。待つなら、owner より高くないか、owner は READY でなく、どの mutex も待って
いない。
-/
def Contention.Admits (c : Contention k) (n : Fin k) (r : Sync.Mutex Tid × Sync.Outcome) : Prop :=
  match r.2, (c.mutexes n).owner with
  | .returns _, none => ∀ t ∈ (c.mutexes n).waiters, (c.priority t).rank ≤
    (c.priority c.current).rank
  | .blocks, some o => (c.priority c.current).rank ≤ (c.priority o).rank ∨
      ((c.sched.threads o).state ≠ .ready ∧ ∀ m, o ∉ (c.mutexes m).waiters)
  | _, _ => True

instance (c : Contention k) (n : Fin k) (r : Sync.Mutex Tid × Sync.Outcome) :
    Decidable (c.Admits n r) :=
  match h : r.2, ho : (c.mutexes n).owner with
  | .returns _, none => decidable_of_iff (∀ t ∈ (c.mutexes n).waiters,
      (c.priority t).rank ≤ (c.priority c.current).rank) (by rw [Contention.Admits, h, ho])
  | .blocks, some o => decidable_of_iff ((c.priority c.current).rank ≤ (c.priority o).rank ∨
      ((c.sched.threads o).state ≠ .ready ∧ ∀ m, o ∉ (c.mutexes m).waiters))
      (by rw [Contention.Admits, h, ho])
  | .returns _, some _ => isTrue (by rw [Contention.Admits, h, ho]; trivial)
  | .blocks, none => isTrue (by rw [Contention.Admits, h, ho]; trivial)

/-- 放すとき、ほかに持つ mutex を待つ thread は、`base_priority` より高くない。 -/
def Orderly (c : Contention k) : ContentionOp k → Prop
  | .env _ => True
  | .lock n => c.Admits n (Sync.mutexLock (c.mutexes n) c.current)
  | .relock =>
    match c.awaited with
    | some n => c.Admits n (Sync.mutexAcquire (c.mutexes n) c.current)
    | none => True
  | .unlock n => ∀ m, m ≠ n → (c.mutexes m).owner = some c.current →
      ∀ t ∈ (c.mutexes m).waiters, (c.priority t).rank ≤ (c.basePriority c.current).rank

instance (c : Contention k) : (op : ContentionOp k) → Decidable (Orderly c op)
  | .env _ => inferInstanceAs (Decidable True)
  | .lock n => inferInstanceAs (Decidable (c.Admits n _))
  | .relock =>
    match h : c.awaited with
    | some n => decidable_of_iff (c.Admits n (Sync.mutexAcquire (c.mutexes n) c.current))
        (by rw [Orderly, h])
    | none => isTrue (by rw [Orderly, h]; trivial)
  | .unlock n => inferInstanceAs (Decidable (∀ m, m ≠ n → _ → ∀ t ∈ _, _))

end Legal

/-! ## 待ち行列に触れない関数 -/

/-- 待ち行列と thread の数が変わらない。 -/
structure Steady (s s' : State) : Prop where
  waitNext : s'.waitNext = s.waitNext
  waitQueues : s'.waitQueues = s.waitQueues
  nextTid : s'.nextTid = s.nextTid

namespace Steady

variable {s s' s'' : State} {t : Tid}

theorem refl : Steady s s := ⟨rfl, rfl, rfl⟩

theorem trans (h : Steady s s') (h' : Steady s' s'') : Steady s s'' :=
  ⟨h'.waitNext.trans h.waitNext, h'.waitQueues.trans h.waitQueues, h'.nextTid.trans h.nextTid⟩

theorem switchTo {again : ThreadState → Bool} {enter : Thread → Thread} {next : Tid} :
    Steady s (s.switchTo again enter next) := by
  have hleave : Steady s (s.leaveCurrent again) := by
    unfold State.leaveCurrent
    simp only
    split
    · exact ⟨by simp, by simp, by simp⟩
    · exact ⟨rfl, rfl, rfl⟩
  exact hleave.trans ⟨rfl, rfl, rfl⟩

theorem schedule : Steady s (schedulerSchedule s) := by
  have hpick : Steady s (schedulerPickNext s).2 := by
    unfold schedulerPickNext
    split <;> exact ⟨rfl, rfl, rfl⟩
  unfold schedulerSchedule
  split
  · exact .refl
  · simp only
    split
    · exact hpick
    · exact hpick.trans (.switchTo)

theorem wakeSleeping {fuel : Nat} (h : wakeSleepingLoop fuel s = some s') : Steady s s' := by
  induction fuel generalizing s with
  | zero =>
    obtain ⟨-, ⟨⟩⟩ := ite_none_right_eq_some.mp h
    exact .refl
  | succ fuel ih =>
    simp only [wakeSleepingLoop] at h
    split at h
    · cases h
      exact .refl
    · split at h
      · exact .trans ⟨by simp [State.awaken], by simp [State.awaken], by simp [State.awaken]⟩ (ih h)
      · cases h
        exact .refl

theorem onCurrent (f : Thread → Thread) : Steady s (s.onCurrent f) := by
  unfold State.onCurrent
  split <;> exact ⟨rfl, rfl, rfl⟩

theorem preemptTo (next : Tid) : Steady s (preemptTo s next) := by
  exact ⟨switchTo.waitNext, switchTo.waitQueues, switchTo.nextTid⟩

theorem preempt {ring3 : Bool} (h : schedulerPreempt s ring3 = some s') : Steady s s' := by
  unfold schedulerPreempt at h
  split at h
  · cases h
    exact .refl
  obtain ⟨s₁, hs₁, h⟩ := bind_eq_some_iff.mp h
  refine (wakeSleeping hs₁).trans ((onCurrent Thread.decrementSlice).trans ?_)
  unfold preemptExpired at h
  simp only at h
  split at h
  · cases h
    split <;> exact ⟨rfl, rfl, rfl⟩
  split at h
  · cases h
    exact .refl
  · obtain ⟨next, -, rfl⟩ := map_eq_some_iff.mp h
    cases next with
    | none =>
      simp only
      split <;> exact ⟨rfl, rfl, rfl⟩
    | some next => exact .preemptTo next

theorem sleep {ticks : UInt64} (h : threadSleepTicks s ticks = some s') : Steady s s' := by
  unfold threadSleepTicks at h
  split at h
  · cases h
    exact .refl
  obtain ⟨s₁, hs₁, h⟩ := bind_eq_some_iff.mp h
  obtain rfl := some.inj h
  refine .trans ?_ .schedule
  unfold sleepInsert at hs₁
  split at hs₁
  · cases hs₁
    exact ⟨rfl, rfl, rfl⟩
  · split at hs₁
    · cases hs₁
      exact ⟨rfl, rfl, rfl⟩
    · obtain ⟨prev, -, hs₁⟩ := bind_eq_some_iff.mp hs₁
      cases hs₁
      exact ⟨rfl, rfl, rfl⟩

end Steady

/-- リンクが変わらなければ、待ち行列の列も変わらない。 -/
theorem Waits.wait_eq {s s' : State} {r r' : Lists} (h : Waits s r) (h' : Waits s' r')
    (hs : Steady s s') : r'.wait = r.wait := by
  funext q
  refine (h'.chain q).unique ?_
  rw [hs.waitNext, hs.waitQueues]
  exact h.chain q

/-! ## 不変条件 -/

section Recorded

variable {timed : Prop} {D D' : Tid → Thread → Prop} {s s' : State} {r r' : Lists}

/-- 欄の条件を取り替える。 -/
theorem Inv.redata (h : Inv timed D s r) (hD : ∀ t < s.nextTid, D' t (s.threads t)) :
    Inv timed D' s r := by
  obtain ⟨⟨hqueued, hwaits, hbook⟩, hcur⟩ := h
  refine ⟨⟨hqueued, hwaits, ⟨hbook.exist, hbook.current, hbook.idle, hbook.idleTid,
    fun t ht => ?_⟩⟩, hcur⟩
  have hp := hbook.placed t ht
  exact ⟨hp.running, hp.ready, hp.sleeping, hp.idle, hD t ht⟩

/-- `s` の thread の priority は変わらず、新しい thread の priority は `base_priority` である。 -/
def Recorded (s : State) (t : Tid) (th : Thread) : Prop :=
  th.isBoosted = false ∧
  (t < s.nextTid → th.priority = (s.threads t).priority ∧
    th.basePriority = (s.threads t).basePriority) ∧
  (s.nextTid ≤ t → th.priority = th.basePriority)

theorem closed_recorded : Closed (Recorded s) := by
  refine ⟨fun t th th' h _ hpri hbase hboost _ => ?_, fun t th h hboost => ?_⟩
  · rw [Recorded, hpri, hbase, hboost]
    exact h
  · exact absurd (h.1.symm.trans hboost) (by simp)

def Unboosted (_ : Tid) (th : Thread) : Prop := th.isBoosted = false

theorem Inv.recorded (h : Inv timed Unboosted s r) : Inv timed (Recorded s) s r :=
  h.redata fun t ht => ⟨(h.settled.book.placed t ht).data, fun _ => ⟨rfl, rfl⟩,
    fun hle => absurd ht (Nat.not_lt.mpr hle)⟩

/-- `sync` の待ち行列で待つと、現在の thread が末尾に加わる。 -/
theorem Inv.syncBlock {n : Nat} (hD : Closed D) (h : Inv timed D s r) (hactive : s.active = true)
    (hidle : s.current ≠ s.idle) : ∃ s' r', syncBlock s (.sync n) = some s' ∧ Inv timed D s' r' ∧
      r'.wait = (r.await (.sync n) s.current).wait ∧ s'.nextTid = s.nextTid := by
  obtain ⟨s', r', hs', h'⟩ := h.syncWait hD hactive hidle (n := n)
    (f := ({ · with state := .blocked, waitingQueue := some _ })) (.inl rfl) rfl
    ⟨rfl, rfl, rfl, rfl, rfl⟩
  refine ⟨s', r', hs', h', ?_⟩
  obtain ⟨waitNext, waitQueues, happend, hwaits⟩ := (h.settled.waits.modify h.not_wait
    ({ · with state := .blocked, waitingQueue := some _ })).append h.not_wait (q := .sync n)
    (fun hev => hev) h.settled.wait_length (by rw [modify_self]; exact ⟨.inl rfl, rfl⟩)
  rw [happend, map_some, some.injEq] at hs'
  subst hs'
  exact ⟨hwaits.wait_eq h'.settled.waits .schedule, Steady.schedule.nextTid⟩

end Recorded

/-- owner の priority は、待つ thread より低くない。mutex を持たない thread の priority は元のままである。 -/
structure Inherits {k : Nat} (c : Contention k) (r : Lists) : Prop where
  inv : Inv True Unboosted c.sched r
  waiters : ∀ n : Fin k, r.wait (.sync n) = (c.mutexes n).waiters
  exist : ∀ n o, (c.mutexes n).owner = some o → o < c.sched.nextTid
  above : ∀ n o, (c.mutexes n).owner = some o →
    ∀ t ∈ (c.mutexes n).waiters, (c.priority t).rank ≤ (c.priority o).rank
  base : ∀ t < c.sched.nextTid, (∀ n, (c.mutexes n).owner ≠ some t) →
    c.priority t = c.basePriority t

section Steps

variable {k : Nat} {c c' : Contention k} {r r' : Lists} {n : Fin k} {s' : State} {t : Tid}

theorem setPriority_spec {p : Priority} : (c.setPriority t p).priority = update c.priority t p ∧
    (c.setPriority t p).basePriority = c.basePriority := by
  constructor
  all_goals
    funext u
    by_cases hu : u = t
    · subst hu
      simp [Contention.priority, Contention.basePriority, Contention.setPriority]
    · simp [Contention.priority, Contention.basePriority, Contention.setPriority, hu]

theorem start_inherits {type : Fin k → Sync.MutexType} {now : UInt64} :
    Inherits (.start type now) ⟨fun _ => [], [], fun _ => []⟩ where
  inv := init_inv now rfl rfl
  waiters _ := rfl
  exist _ _ := nofun
  above _ _ := nofun
  base t ht _ := by
    match t, ht with
    | 0, _ => rfl
    | 1, _ => rfl
    | t + 2, ht => exact absurd ht (Nat.not_lt.mpr (Nat.le_add_left 2 t))

namespace Inherits

theorem waiter_lt (h : Inherits c r) (ht : t ∈ (c.mutexes n).waiters) : t < c.sched.nextTid :=
  h.inv.settled.book.exist t (.inr (.inr ⟨.sync n, by rw [h.waiters]; exact ht⟩))

theorem current_not_waiter (h : Inherits c r) : c.current ∉ (c.mutexes n).waiters := by
  rw [← h.waiters]
  exact h.inv.not_wait _

/-- scheduler の手の後。priority は `c` のままである。 -/
theorem of_recorded {mutexes : Fin k → Sync.Mutex Tid} {original : Fin k → Priority}
    (hinv : Inv True (Recorded c.sched) s' r') (hnext : c.sched.nextTid ≤ s'.nextTid)
    (hwait : ∀ n : Fin k, r'.wait (.sync n) = (mutexes n).waiters)
    (hexist : ∀ n o, (mutexes n).owner = some o → o < c.sched.nextTid)
    (habove : ∀ n o, (mutexes n).owner = some o → ∀ t ∈ (mutexes n).waiters,
      t < c.sched.nextTid ∧ (c.priority t).rank ≤ (c.priority o).rank)
    (hbase : ∀ t < c.sched.nextTid, (∀ n, (mutexes n).owner ≠ some t) →
      c.priority t = c.basePriority t) : Inherits ⟨s', mutexes, original⟩ r' := by
  have hdata : ∀ t < c.sched.nextTid, (s'.threads t).priority = c.priority t ∧
      (s'.threads t).basePriority = c.basePriority t := fun t ht =>
    (hinv.settled.book.placed t (Nat.lt_of_lt_of_le ht hnext)).data.2.1 ht
  refine ⟨hinv.redata fun t ht => (hinv.settled.book.placed t ht).data.1, hwait,
    fun n o ho => Nat.lt_of_lt_of_le (hexist n o ho) hnext, fun n o ho t ht => ?_,
    fun t ht hfree => ?_⟩
  · obtain ⟨hlt, hle⟩ := habove n o ho t ht
    simp only [Contention.priority]
    rw [(hdata t hlt).1, (hdata o (hexist n o ho)).1]
    exact hle
  · simp only [Contention.priority, Contention.basePriority]
    by_cases hold : t < c.sched.nextTid
    · rw [(hdata t hold).1, (hdata t hold).2]
      exact hbase t hold hfree
    · exact (hinv.settled.book.placed t ht).data.2.2 (Nat.not_lt.mp hold)

/-- scheduler の状態だけが変わる。 -/
theorem moved (h : Inherits c r) (hinv : Inv True (Recorded c.sched) s' r')
    (hnext : c.sched.nextTid ≤ s'.nextTid)
    (hwait : ∀ n : Fin k, r'.wait (.sync n) = (c.mutexes n).waiters) :
    Inherits { c with sched := s' } r' :=
  of_recorded hinv hnext hwait h.exist (fun n o ho t ht => ⟨h.waiter_lt ht, h.above n o ho t ht⟩)
    h.base

/-- mutex に関わらない手。 -/
theorem env {op : Op} (h : Inherits c r) (hneutral : op.neutral = true)
    (hstep : step c.sched op = some s') : ∃ r', Inherits { c with sched := s' } r' := by
  have hrec := h.inv.recorded
  have hfits : Fits True (Recorded c.sched) c.sched r op := by
    cases op with
    | create owner priority =>
      exact ⟨rfl, fun hlt => absurd hlt (Nat.lt_irrefl _), fun _ => rfl⟩
    | start | time | schedule | preempt | sleep => trivial
    | _ => cases hneutral
  obtain ⟨r', hinv⟩ := step_inv closed_recorded hrec hfits hstep
  have hsteady : Steady _ s' → ∃ r', Inherits _ r' := fun hs =>
    ⟨r', h.moved hinv (Nat.le_of_eq hs.nextTid.symm) fun n => by
      rw [h.inv.settled.waits.wait_eq hinv.settled.waits hs, h.waiters]⟩
  cases op with
  | start =>
    obtain rfl := some.inj hstep
    exact hsteady ⟨rfl, rfl, rfl⟩
  | time now =>
    obtain ⟨-, ⟨⟩⟩ := ite_none_right_eq_some.mp hstep
    exact hsteady ⟨rfl, rfl, rfl⟩
  | schedule =>
    obtain rfl := some.inj hstep
    exact hsteady .schedule
  | preempt ring3 => exact hsteady (.preempt hstep)
  | sleep ticks =>
    obtain ⟨-, hstep⟩ := ite_none_right_eq_some.mp hstep
    exact hsteady (.sleep hstep)
  | create owner priority =>
    obtain rfl := some.inj hstep
    have hnext : (threadCreate c.sched owner priority).nextTid = c.sched.nextTid + 1 := by
      rw [threadCreate, enqueue_nextTid]
    refine ⟨r', h.moved hinv (by rw [hnext]; exact Nat.le_succ _) fun n => ?_⟩
    -- 新しい thread は、どの待ち行列にもない
    refine (hinv.settled.waits.chain _).unique ?_
    rw [← h.waiters]
    have hqueue : (threadCreate c.sched owner priority).waitQueues (.sync n)
        = c.sched.waitQueues (.sync n) := by
      have hne : Wq.sync n ≠ Wq.join c.sched.nextTid := by
        intro he
        cases he
      simp [threadCreate, hne]
    rw [hqueue, threadCreate, enqueue_waitNext]
    refine (h.inv.settled.waits.chain _).congr fun t ht => update_of_ne ?_ _ _
    exact Nat.ne_of_lt (h.inv.settled.book.exist t (.inr (.inr ⟨_, ht⟩)))
  | _ => cases hneutral

/-- run queue にない thread の priority を書き換える。 -/
theorem inv_setPriority (h : Inherits c r) (ht : t < c.sched.nextTid)
    (hstate : (c.sched.threads t).state ≠ .ready) {p : Priority} :
    Inv True Unboosted (c.setPriority t p).sched r := by
  exact h.inv.retouch ht (f := ({ · with priority := p })) rfl (fun hr => absurd hr hstate) rfl rfl
    (h.inv.settled.book.placed t ht).data

/-- 待つ前に owner を引き上げる。owner は、待つ thread より低くなくなる。 -/
theorem applied (h : Inherits c r) (ho : (c.mutexes n).owner = some o)
    (hlegal : (c.priority c.current).rank ≤ (c.priority o).rank ∨
      ((c.sched.threads o).state ≠ .ready ∧ ∀ m, o ∉ (c.mutexes m).waiters)) :
    ∃ c₁, c.applyPriorityInheritance n c.current = c₁ ∧ Inherits c₁ r ∧ c₁.mutexes = c.mutexes ∧
      c₁.current = c.current ∧ c₁.sched.active = c.sched.active ∧ c₁.sched.idle = c.sched.idle ∧
      (c₁.priority c.current).rank ≤ (c₁.priority o).rank := by
  refine ⟨_, rfl, ?_⟩
  simp only [Contention.applyPriorityInheritance, ho]
  split
  · rename_i hlt
    obtain ⟨hstate, hfree⟩ := hlegal.resolve_left (Nat.not_le.mpr hlt)
    have hne : c.current ≠ o := fun he => absurd hlt (by rw [he]; exact Nat.lt_irrefl _)
    obtain ⟨hpri, hbase⟩ := setPriority_spec
    have hself : (c.setPriority o (c.priority c.current)).priority o = c.priority c.current := by
      rw [hpri, update_self]
    have hothers : ∀ u, u ≠ o → (c.setPriority o _).priority u = c.priority u :=
      fun u hu => by rw [hpri, update_of_ne hu]
    refine ⟨⟨h.inv_setPriority (h.exist n o ho) hstate, h.waiters, h.exist, fun m o' ho' u hu => ?_,
      fun u hu hnone => ?_⟩, rfl, rfl, rfl, rfl, ?_⟩
    · refine Nat.le_trans (Nat.le_of_eq (congrArg _ (hothers u fun he => hfree m (he ▸ hu)))) ?_
      by_cases ho'o : o' = o
      · subst ho'o
        refine Nat.le_trans (Nat.le_trans (h.above m o' ho' u hu) (Nat.le_of_lt hlt)) ?_
        exact Nat.le_of_eq (congrArg _ hself.symm)
      · refine Nat.le_trans (h.above m o' ho' u hu) ?_
        exact Nat.le_of_eq (congrArg _ (hothers o' ho'o).symm)
    · exact (hothers u fun he => hnone n (he ▸ ho)).trans
        ((h.base u hu hnone).trans (congrFun hbase u).symm)
    · exact Nat.le_of_eq (congrArg _ ((hothers _ hne).trans hself.symm))
  · rename_i hge
    exact ⟨h, rfl, rfl, rfl, rfl, Nat.not_lt.mp hge⟩

end Inherits

/-- mutex を取ろうとした結果。 -/
inductive Attempt (m : Sync.Mutex Tid) (t : Tid) : Sync.Mutex Tid × Sync.Outcome → Prop
  | acquired : m.owner = none →
      Attempt m t ({ m with owner := some t, recursionCount := 1 }, .returns 0)
  | again {m' : Sync.Mutex Tid} {x : Int} : m.owner = some t → m'.owner = m.owner →
      m'.waiters = m.waiters → Attempt m t (m', .returns x)
  | blocked {o : Tid} : m.owner = some o →
      Attempt m t ({ m with waiters := m.waiters ++ [t] }, .blocks)

theorem attempt_acquire {m : Sync.Mutex Tid} : Attempt m t (Sync.mutexAcquire m t) := by
  unfold Sync.mutexAcquire
  split
  · exact .acquired ‹_›
  · rename_i hne
    obtain ⟨o, ho⟩ := ne_none_iff_exists'.mp hne
    exact .blocked ho

theorem attempt_lock {m : Sync.Mutex Tid} : Attempt m t (Sync.mutexLock m t) := by
  unfold Sync.mutexLock
  split
  · rename_i howner
    split
    · exact .again howner rfl rfl
    · exact .again howner rfl rfl
    · exact attempt_acquire
  · exact attempt_acquire

section

variable (h : Inherits c r)
include h

/-- mutex の待つ thread は変わらず、owner はそのままか、待つ thread より低くない thread になる。 -/
theorem Inherits.owned {m' : Sync.Mutex Tid} {original : Fin k → Priority}
    (hwaiters : m'.waiters = (c.mutexes n).waiters)
    (hnew : ∀ o, m'.owner = some o → o < c.sched.nextTid ∧
      ∀ t ∈ (c.mutexes n).waiters, (c.priority t).rank ≤ (c.priority o).rank)
    (hkeep : ∀ o, (c.mutexes n).owner = some o → m'.owner = some o) :
    Inherits { c with mutexes := update c.mutexes n m', original := original } r where
  inv := h.inv
  waiters := (forall_update_iff c.mutexes fun m m' => r.wait (.sync m) = m'.waiters).mpr
    ⟨(h.waiters n).trans hwaiters.symm, fun m _ => h.waiters m⟩
  exist := (forall_update_iff c.mutexes fun _ m' => ∀ o, m'.owner = some o →
    o < c.sched.nextTid).mpr
    ⟨fun o ho => (hnew o ho).1, fun m _ => h.exist m⟩
  above := (forall_update_iff c.mutexes fun _ m' => ∀ o, m'.owner = some o → ∀ t ∈ m'.waiters,
    (c.priority t).rank ≤ (c.priority o).rank).mpr
    ⟨fun o ho t ht => (hnew o ho).2 t (hwaiters ▸ ht), fun m _ => h.above m⟩
  base t ht hfree := by
    obtain ⟨hn, hothers⟩ := (forall_update_iff c.mutexes fun _ m' => m'.owner ≠ some t).mp hfree
    refine h.base t ht fun m hm => ?_
    by_cases hmn : m = n
    · exact hn (hkeep t (hmn ▸ hm))
    · exact hothers m hmn hm

/-- mutex の owner と待つ thread が変わらない。 -/
theorem Inherits.same_mutex {m' : Sync.Mutex Tid} {original : Fin k → Priority}
    (howner : m'.owner = (c.mutexes n).owner) (hwaiters : m'.waiters = (c.mutexes n).waiters) :
    Inherits { c with mutexes := update c.mutexes n m', original := original } r :=
  h.owned hwaiters (fun o ho => ⟨h.exist n o (howner ▸ ho), h.above n o (howner ▸ ho)⟩)
    fun _ => howner.trans

/-- 待ち行列に入って CPU を譲る。 -/
theorem Inherits.blocked (ho : (c.mutexes n).owner = some o)
    (hlegal : (c.priority c.current).rank ≤ (c.priority o).rank ∨
      ((c.sched.threads o).state ≠ .ready ∧ ∀ m, o ∉ (c.mutexes m).waiters))
    (hactive : c.sched.active = true) (hidle : c.current ≠ c.sched.idle)
    (hstep : c.locked n ({ c.mutexes n with waiters := (c.mutexes n).waiters ++ [c.current] },
      .blocks)
      = some c') : ∃ r', Inherits c' r' := by
  obtain ⟨c₁, hc₁, h₁, hmutexes, hcur, hactive₁, hidle₁, hle⟩ := h.applied ho hlegal
  simp only [Contention.locked, hc₁] at hstep
  obtain ⟨s', hs', rfl⟩ := map_eq_some_iff.mp hstep
  have hrun : c₁.sched.current ≠ c₁.sched.idle := by
    rw [hidle₁]
    exact fun he => hidle (hcur.symm.trans he)
  obtain ⟨s₂, r', hs₂, hinv, hwait, hnext⟩ := h₁.inv.recorded.syncBlock (n := n)
    closed_recorded (hactive₁.trans hactive) hrun
  obtain rfl := some.inj (hs₂.symm.trans hs')
  have hcur' : c₁.sched.current = c.current := hcur
  refine ⟨r', .of_recorded hinv (Nat.le_of_eq hnext.symm) (fun m => ?_) (fun m o' ho' => ?_)
    (fun m o' ho' t ht => ?_) (fun t ht hfree => h₁.base t ht fun m hm => ?_)⟩
  all_goals by_cases hm' : m = n
  · subst hm'
    simp [hwait, Lists.await, h₁.waiters, hmutexes, hcur']
  · have hne : Wq.sync m ≠ Wq.sync n := fun he => hm' (Fin.ext (Wq.sync.inj he))
    simp [hwait, Lists.await, hne, h₁.waiters, hmutexes, hm']
  · subst hm'
    exact h₁.exist m o' (by rw [hmutexes]; simpa using ho')
  · exact h₁.exist m o' (by rw [hmutexes]; simpa [hm'] using ho')
  · subst hm'
    simp only [update_self] at ho' ht
    obtain rfl : o = o' := some.inj (ho.symm.trans ho')
    rcases List.mem_append.mp ht with ht | ht
    · rw [← hmutexes] at ht ho
      exact ⟨h₁.waiter_lt ht, h₁.above m o ho t ht⟩
    · obtain rfl := List.mem_singleton.mp ht
      exact ⟨hcur ▸ h₁.inv.settled.book.current, hle⟩
  · simp only [update_of_ne hm'] at ho' ht
    rw [← hmutexes] at ht ho'
    exact ⟨h₁.waiter_lt ht, h₁.above m o' ho' t ht⟩
  · subst hm'
    exact hfree m (by rw [hmutexes] at hm; simpa using hm)
  · exact hfree m (by rw [hmutexes] at hm; simpa [hm'] using hm)

/-- 取れるか待つかした後も、不変条件を保つ。 -/
theorem Inherits.locked (hattempt : Attempt (c.mutexes n) c.current res) (hlegal : c.Admits n res)
    (hactive : c.sched.active = true) (hidle : c.current ≠ c.sched.idle)
    (hstep : c.locked n res = some c') : ∃ r', Inherits c' r' := by
  cases hattempt with
  | acquired hnone =>
    obtain rfl := some.inj hstep
    rw [Contention.Admits, hnone] at hlegal
    refine ⟨r, h.owned rfl (fun o ho => ?_) (by simp [hnone])⟩
    obtain rfl := some.inj ho
    exact ⟨h.inv.settled.book.current, hlegal⟩
  | again howner hsame hwaiters =>
    obtain rfl := some.inj hstep
    exact ⟨r, h.same_mutex hsame hwaiters⟩
  | blocked ho =>
    rw [Contention.Admits, ho] at hlegal
    exact h.blocked ho hlegal hactive hidle hstep

/-- mutex を放し、先頭の thread を起こす。 -/
theorem Inherits.released (howner : (c.mutexes n).owner = some c.current)
    (hlegal : ∀ m, m ≠ n → (c.mutexes m).owner = some c.current →
      ∀ t ∈ (c.mutexes m).waiters, (c.priority t).rank ≤ (c.basePriority c.current).rank) :
    ∃ r', Inherits { c.restorePriority c.current with
      sched := syncWake (c.restorePriority c.current).sched (.sync n) false
      mutexes := update c.mutexes n
        { c.mutexes n with
          owner := none, recursionCount := 0, waiters := (c.mutexes n).waiters.tail } }
      r' := by
  have hinv : Inv True _ (c.restorePriority c.current).sched r :=
    h.inv_setPriority h.inv.settled.book.current
      (show (c.sched.threads _).state ≠ .ready by rw [h.inv.current]; simp)
  obtain ⟨r', hset, hwait, hcur, hkeep⟩ :=
    hinv.recorded.settled.syncWake closed_recorded _ _
  have hinv' : Inv True _ _ r' :=
    ⟨hset, by rw [hcur, hkeep _ hinv.not_wait]; exact hinv.current⟩
  have hnext : (c.restorePriority c.current).sched.nextTid
      ≤ (syncWake (c.restorePriority c.current).sched (.sync n) false).nextTid := by
    unfold syncWake
    split
    · exact Nat.le_refl _
    · simp [State.rouse, State.unwait]
  obtain ⟨hpri, hbase⟩ := setPriority_spec
  have hothers : ∀ u, u ≠ c.current → (c.restorePriority _).priority u = c.priority u :=
    fun u hu => by rw [Contention.restorePriority, hpri, update_of_ne hu]
  have hself : (c.restorePriority c.current).priority c.current = c.basePriority c.current := by
    rw [Contention.restorePriority, hpri, update_self]
  refine ⟨r', .of_recorded hinv' hnext (fun m => ?_) (fun m o ho => ?_) (fun m o ho t ht => ?_)
    (fun t ht hfree => ?_)⟩
  · by_cases hm : m = n
    · subst hm
      simp [hwait, h.waiters]
    · have hne : Wq.sync m ≠ Wq.sync n := fun he => hm (Fin.ext (Wq.sync.inj he))
      simp [hwait, hne, h.waiters, hm]
  · by_cases hm : m = n
    · simp [hm] at ho
    · exact h.exist m o (by simpa [hm] using ho)
  · by_cases hm : m = n
    · simp [hm] at ho
    · simp only [update_of_ne hm] at ho ht
      have htc : t ≠ c.current := fun he => h.current_not_waiter (he ▸ ht)
      refine ⟨h.waiter_lt ht, ?_⟩
      rw [hothers t htc]
      by_cases hoc : o = c.current
      · rw [hoc, hself]
        exact hlegal m hm (hoc ▸ ho) t ht
      · rw [hothers o hoc]
        exact h.above m o ho t ht
  · by_cases htc : t = c.current
    · rw [htc, hself, Contention.restorePriority, hbase]
    · rw [hothers t htc, Contention.restorePriority, hbase]
      refine h.base t ht fun m hm => ?_
      have hmn : m ≠ n := by
        rintro rfl
        exact htc (some.inj (hm.symm.trans howner))
      exact hfree m (by simpa [hmn] using hm)

theorem Inherits.unlocked (hlegal : Orderly c (.unlock n)) : ∃ r', Inherits (c.unlocked n) r' := by
  unfold Contention.unlocked Sync.mutexUnlock
  by_cases howner : (c.mutexes n).owner = some c.current
  · by_cases hrec : (c.mutexes n).type = .recursive ∧ 1 < (c.mutexes n).recursionCount
    · simp only [howner, ne_eq, not_true, if_false, if_pos hrec, reduceCtorEq, and_false]
      exact ⟨r, h.same_mutex (n := n) howner.symm rfl⟩
    · simp only [howner, ne_eq, not_true, if_false, if_neg hrec, and_self, if_true]
      exact h.released howner hlegal
  · simp only [ne_eq, howner, not_false_eq_true, if_true, false_and, if_false]
    exact ⟨r, h.same_mutex (n := n) rfl rfl⟩

end

/-- `waiting_queue` のほかは変わらない。 -/
theorem resumed_thread : (c.resumed.sched.threads t).priority = (c.sched.threads t).priority ∧
    (c.resumed.sched.threads t).basePriority = (c.sched.threads t).basePriority ∧
    (c.resumed.sched.threads t).state = (c.sched.threads t).state := by
  by_cases ht : t = c.current
  · subst ht
    simp [Contention.resumed]
  · simp [Contention.resumed, ht]

theorem Inherits.resumed (h : Inherits c r) : Inherits c.resumed r where
  inv := h.inv.modify (f := ({ · with waitingQueue := none })) rfl h.inv.data
  waiters := h.waiters
  exist := h.exist
  above n o ho t ht := by
    simp only [Contention.priority, resumed_thread.1]
    exact h.above n o ho t ht
  base t ht hfree := by
    simp only [Contention.priority, Contention.basePriority, resumed_thread.1, resumed_thread.2.1]
    exact h.base t ht hfree

theorem resumed_admits (h : c.Admits n res) : c.resumed.Admits n res := by
  simp only [Contention.Admits, Contention.priority, resumed_thread.1, resumed_thread.2.2]
  exact h

/-- 条件の下で、一つの手は不変条件を保つ。 -/
theorem contentionStep_inherits {op : ContentionOp k} (h : Inherits c r) (hlegal : Orderly c op)
    (hstep : contentionStep c op = some c') : ∃ r', Inherits c' r' := by
  cases op with
  | env op =>
    obtain ⟨hneutral, hstep⟩ := ite_none_right_eq_some.mp hstep
    obtain ⟨s', hs', rfl⟩ := map_eq_some_iff.mp hstep
    exact h.env hneutral hs'
  | lock n =>
    obtain ⟨hout, hstep⟩ := ite_none_right_eq_some.mp hstep
    exact h.locked attempt_lock hlegal hout.1 hout.2.1 hstep
  | relock =>
    simp only [contentionStep] at hstep
    split at hstep
    · rename_i n hn
      obtain ⟨⟨hactive, hidle⟩, hstep⟩ := ite_none_right_eq_some.mp hstep
      rw [Orderly, hn] at hlegal
      exact h.resumed.locked attempt_acquire (resumed_admits hlegal) hactive hidle hstep
    · cases hstep
  | unlock n =>
    obtain ⟨hout, hstep⟩ := ite_none_right_eq_some.mp hstep
    obtain rfl := some.inj hstep
    exact h.unlocked hlegal

/--
**mutex を持つ thread の priority は、それを待つどの thread の priority よりも低くない。**

引き上げられる owner は READY でなく、どの mutex も待っていない。mutex を取る thread は、それを待つ thread より低くない。
放す thread がほかに持つ mutex を待つ thread は、`base_priority` より高くない。この条件の下では、mutex を持たない thread
の priority は `base_priority` であり、READY の thread は自分の priority の run queue にある。
-/
theorem inheritance_holds {type : Fin k → Sync.MutexType} {now : UInt64}
    {ops : List (ContentionOp k)}
    (h : Run.Reach contentionStep Orderly (.start type now) ops c) : ∃ r : Lists,
    (∀ p, Linked c.sched.links (c.sched.runQueues p) (r.run p)) ∧
    (∀ n : Fin k, Chain c.sched.waitNext (c.sched.waitQueues (.sync n)).head
      (c.mutexes n).waiters) ∧
    (∀ n o, (c.mutexes n).owner = some o →
      ∀ t ∈ (c.mutexes n).waiters, (c.priority t).rank ≤ (c.priority o).rank) ∧
    (∀ t < c.sched.nextTid, (∀ n, (c.mutexes n).owner ≠ some t) → c.priority t = c.basePriority t) ∧
    ∀ t < c.sched.nextTid, (c.sched.threads t).state = .ready → t ≠ c.sched.idle →
      t ∈ r.run (c.priority t) := by
  obtain ⟨r, hr⟩ := h.invariant (P := fun c => ∃ r, Inherits c r) ⟨_, start_inherits⟩
    fun _ _ _ ⟨_, hr⟩ hlegal hstep => contentionStep_inherits hr hlegal hstep
  obtain ⟨hqueued, hwaits, hbook⟩ := hr.inv.settled
  refine ⟨r, hqueued.linked, fun n => ?_, hr.above, hr.base, fun t ht hready hidle => ?_⟩
  · rw [← hr.waiters]
    exact hwaits.chain _
  · exact ((hbook.placed t ht).ready hready).resolve_left hidle

end Steps

/-- main は眠っている間に UI に引き上げられ、起きて UI の run queue に入り、mutex を放す。 -/
theorem inheritance_holds_sleep : ∃ c : Contention 1,
    Run.Reach contentionStep Orderly (.start (fun _ => .normal) 0)
      [.env .start, .lock 0, .env (.create none .ui), .env (.sleep 5), .lock 0, .env (.time 5),
        .env (.preempt false)] c ∧
    c.current = 0 ∧ (c.mutexes 0).waiters = [2] ∧
    (c.priority 2).rank ≤ (c.priority 0).rank := by
  refine Run.exists_reach_of (P := fun c => c.current = 0 ∧ (c.mutexes 0).owner = some 0 ∧
    (c.mutexes 0).waiters = [2]) (by decide +kernel) fun c hreach ⟨hcur, howner, hwaiters⟩ => ?_
  obtain ⟨r, -, -, habove, -⟩ := inheritance_holds hreach
  exact ⟨hcur, hwaiters, habove 0 0 howner 2 (by rw [hwaiters]; exact List.mem_singleton_self 2)⟩

/--
**READY の owner は、引き上げられても元の run queue に残る。二つの mutex の一方を放すと、引上げが消える。**

初めの実行では、main（thread 0）は UI に引き上げられたが NORMAL の run queue にあり、HIGH の thread 2 が走る。後の
実行では、main が mutex 1 を放した後、mutex 0 を待つ UI の thread 2 より低い。
-/
theorem inheritance_broken :
    (∃ c : Contention 1, Run.Reach contentionStep (fun _ _ => True) (.start (fun _ => .normal) 0)
        [.env .start, .lock 0, .env (.create none .high), .env (.create none .ui), .env .schedule,
          .lock 0] c ∧
      (c.sched.threads 0).state = .ready ∧ c.priority 0 = .ui ∧ c.sched.runQueues .ui = none ∧
      c.sched.runQueues .normal = some 0 ∧ c.current = 2) ∧
    ∃ c : Contention 2, Run.Reach contentionStep (fun _ _ => True) (.start (fun _ => .normal) 0)
        [.env .start, .lock 0, .lock 1, .env (.create none .ui), .env .schedule, .lock 0,
          .unlock 1] c ∧
      (c.mutexes 0).owner = some 0 ∧ (c.mutexes 0).waiters = [2] ∧ c.priority 2 = .ui ∧
      c.priority 0 = .normal :=
  ⟨Run.exists_reach (by decide +kernel), Run.exists_reach (by decide +kernel)⟩

end Alos.Sched
