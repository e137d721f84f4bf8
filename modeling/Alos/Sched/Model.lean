import Alos.Lib.Links

/-!
# scheduler（`kernel/thread.c`）

CPU は一つで、scheduler の関数は割り込みを禁じて走るので、一つの呼出しを一つの手とする。待つ関数は
`scheduler_schedule` で切れるので、切れ目までを一つの手、戻った後を次の手とする。

thread は作った順の番号で呼ぶ。`sched_next` と `sched_prev` は `links` に、`wait_queue_next` は `waitNext` に
まとめて持つ。五つの run queue と sleep queue は、どれも `links` の同じリンクでつながっている。

リンクを辿るループは、thread の数だけ回っても終わらなければ `none` を返す。
-/

namespace Alos.Sched

/-! ## 型 -/

inductive Priority where
  | idle
  | background
  | normal
  | high
  | ui
  deriving DecidableEq, Repr

def Priority.rank : Priority → Nat
  | .idle => 0
  | .background => 1
  | .normal => 2
  | .high => 3
  | .ui => 4

/-- 高い順。 -/
def Priority.descending : List Priority := [.ui, .high, .normal, .background, .idle]

/-- `THREAD_PRIORITY_UI` より低いものを、低い順に。 -/
def Priority.aging : List Priority := [.idle, .background, .normal, .high]

inductive ThreadState where
  | ready
  | running
  | blocked
  | sleeping
  | zombie
  deriving DecidableEq, Repr

abbrev Tid := Nat

/-- `wait_queue_t` の在り処。 -/
inductive Wq where
  /-- thread の `join_waiters`。 -/
  | join (t : Tid)
  /-- `wait_queue_wait` などで使う、ほかの待ち行列。 -/
  | event (n : Nat)
  /-- mutex、semaphore、rwlock、condition variable の `waiters`。 -/
  | sync (n : Nat)
  deriving DecidableEq

/-- `g_reaper_cv` の `waiters`。 -/
def Wq.reaper : Wq := .sync 0

structure WaitQueue where
  head : Option Tid
  tail : Option Tid

structure Thread where
  owner : Option Nat
  state : ThreadState
  shouldTerminate : Bool
  exited : Bool
  exitStatus : Int32
  basePriority : Priority
  priority : Priority
  timeSliceRemaining : UInt32
  nice : Int8
  isBoosted : Bool
  waitStartTick : UInt64
  cpuTicks : UInt64
  contextSwitches : UInt64
  runStartTick : UInt64
  wakeTick : UInt64
  waitingQueue : Option Wq
  timeoutTick : UInt64
  waitResult : Int32
  currentWaitQueue : Option Wq
  preemptCount : UInt32
  preemptPending : Bool

structure State where
  threads : Tid → Thread
  links : Links Tid
  waitNext : Tid → Option Tid
  runQueues : Priority → Option Tid
  sleepQueue : Option Tid
  waitQueues : Wq → WaitQueue
  current : Tid
  idle : Tid
  reaper : Option Tid
  /-- 次に作る thread。 -/
  nextTid : Tid
  active : Bool
  /-- `timer_get_ticks()`。 -/
  ticks : UInt64

/-- 一つの thread の欄を書き換える。 -/
def State.modify (s : State) (t : Tid) (f : Thread → Thread) : State :=
  { s with threads := Function.update s.threads t (f (s.threads t)) }

/-! ## priority と time slice -/

def agingThreshold : UInt64 := 100

def timeSliceDefault : UInt32 := 10

def timedOut : Int32 := -110

def priorityTimeSlice : Priority → UInt32
  | .idle => 20
  | .background => 15
  | .normal => 10
  | .high => 7
  | .ui => 5

def schedulerGetTimeSlice (thread : Thread) : UInt32 := priorityTimeSlice thread.priority

/-- `THREAD_NICE_MIN` から `THREAD_NICE_MAX` に収める。 -/
def clampNice (nice : Int8) : Int8 := if nice < -20 then -20 else if 19 < nice then 19 else nice

def schedulerNiceToPriority (nice : Int8) : Priority :=
  let nice := clampNice nice
  if nice ≤ -10 then .ui
  else if nice ≤ -5 then .high
  else if nice ≤ 4 then .normal
  else if nice ≤ 14 then .background
  else .idle

/-! ## run queue -/

/-- 先頭に加える。`scheduler_enqueue_nolock` も同じである。 -/
def schedulerEnqueue (s : State) (thread : Tid) : State :=
  if (s.threads thread).state = .running then s
  else
    let pri := (s.threads thread).priority
    { s with
      links := s.links.push (s.runQueues pri) thread
      runQueues := Function.update s.runQueues pri (some thread) }.modify thread
        ({ · with state := .ready })

def schedulerDequeue (s : State) (thread : Tid) : State :=
  let pri := (s.threads thread).priority
  { s with
    runQueues :=
      if s.links.prev thread = none ∧ s.runQueues pri = some thread then
        Function.update s.runQueues pri (s.links.next thread)
      else s.runQueues
    links := (s.links.bypass thread).clear thread }

/-- `scheduler_preempt` と aging が run queue から外すところ。 -/
def State.detach (s : State) (pri : Priority) (thread : Tid) : State :=
  { s with
    runQueues :=
      if s.links.prev thread = none then Function.update s.runQueues pri (s.links.next thread)
      else s.runQueues
    links := s.links.bypass thread }

/-- 高い priority から、空でない最初の run queue の先頭を外す。 -/
def schedulerPickNext (s : State) : Tid × State :=
  match Priority.descending.findSome? fun pri => (s.runQueues pri).map (pri, ·) with
  | some (pri, thread) =>
    let links := match s.links.next thread with
      | some n => s.links.setPrev n none
      | none => s.links
    (thread, { s with
      runQueues := Function.update s.runQueues pri (s.links.next thread)
      links := links.clear thread })
  | none => (s.idle, s)

def threadSetPriority (s : State) (thread : Tid) (priority : Priority) : State :=
  let old := (s.threads thread).priority
  let s := s.modify thread ({ · with priority := priority, basePriority := priority })
  if (s.threads thread).state = .ready ∧ old ≠ priority then
    schedulerEnqueue (schedulerDequeue s thread) thread
  else s

def threadSetNice (s : State) (thread : Tid) (nice : Int8) : State :=
  let s := s.modify thread ({ · with nice := clampNice nice })
  if (s.threads thread).isBoosted then s
  else
    let old := (s.threads thread).priority
    let new := schedulerNiceToPriority (clampNice nice)
    let s := s.modify thread ({ · with priority := new, basePriority := new })
    if (s.threads thread).state = .ready ∧ old ≠ new then
      schedulerEnqueue (schedulerDequeue s thread) thread
    else s

/-! ## thread を替える -/

/-- 走っていた時間を数える。 -/
def Thread.account (thread : Thread) (now : UInt64) : Thread :=
  if 0 < thread.runStartTick then
    { thread with cpuTicks := thread.cpuTicks + (now - thread.runStartTick) }
  else thread

/-- boost を解く。 -/
def Thread.demote (thread : Thread) : Thread :=
  if thread.isBoosted then
    { thread with
      isBoosted := false
      priority := schedulerNiceToPriority thread.nice
      basePriority := schedulerNiceToPriority thread.nice }
  else thread

/-- 次の thread に移る。 -/
def Thread.enter (thread : Thread) (now : UInt64) : Thread :=
  { thread with
    runStartTick := now
    contextSwitches := thread.contextSwitches + 1
    state := .running }

/-- 現在の thread を降ろす。`again` は、run queue に戻す state である。 -/
def State.leaveCurrent (s : State) (again : ThreadState → Bool) : State :=
  let s' := s.modify s.current fun thread => (thread.account s.ticks).demote
  if again (s'.threads s.current).state then
    schedulerEnqueue (s'.modify s.current ({ · with state := .ready, waitStartTick := s.ticks }))
      s.current
  else s'

/-- 現在の thread から `next` に移る。`enter` は、移った thread の欄の書換えである。 -/
def State.switchTo (s : State) (again : ThreadState → Bool) (enter : Thread → Thread)
    (next : Tid) : State :=
  { (s.leaveCurrent again).modify next enter with current := next }

/-- 現在の thread は、RUNNING か READY なら run queue に戻す。 -/
def schedulerSchedule (s : State) : State :=
  if ¬s.active then s
  else
    let (next, s') := schedulerPickNext s
    if next = s.current then s'
    else s'.switchTo (fun state => state = .running ∨ state = .ready) (·.enter s.ticks) next

/-- sleep queue の先頭 `thread` を起こす。 -/
def State.awaken (s : State) (thread : Tid) : State :=
  schedulerEnqueue ({ s with
    sleepQueue := s.links.next thread
    links := s.links.setNext thread none }.modify thread ({ · with state := .ready })) thread

/-- `scheduler_wake_sleeping` のループ。 -/
def wakeSleepingLoop : Nat → State → Option State
  | 0, s => if s.sleepQueue = none then some s else none
  | fuel + 1, s =>
    match s.sleepQueue with
    | none => some s
    | some thread =>
      if (s.threads thread).wakeTick ≤ s.ticks then wakeSleepingLoop fuel (s.awaken thread)
      else some s

def schedulerWakeSleeping (s : State) : Option State := wakeSleepingLoop s.nextTid s

/-- run queue を辿り、最初の kernel thread を探す。 -/
def findKernelIn (s : State) : Nat → Option Tid → Option (Option Tid)
  | _, none => some none
  | 0, some _ => none
  | fuel + 1, some t =>
    if (s.threads t).owner = none ∧ t ≠ s.current then some (some t)
    else findKernelIn s fuel (s.links.next t)

def findKernel (s : State) : List Priority → Option (Option Tid)
  | [] => some none
  | pri :: rest =>
    match findKernelIn s s.nextTid (s.runQueues pri) with
    | none => none
    | some (some t) => some (some t)
    | some none => findKernel s rest

/-- 現在の thread が idle でなければ、その欄を書き換える。 -/
def State.onCurrent (s : State) (f : Thread → Thread) : State :=
  if s.current ≠ s.idle then s.modify s.current f else s

/-- time slice を一つ減らす。 -/
def Thread.decrementSlice (thread : Thread) : Thread :=
  if 0 < thread.timeSliceRemaining then
    { thread with timeSliceRemaining := thread.timeSliceRemaining - 1 }
  else thread

/-- `scheduler_preempt` が、見つけた thread に替えるところ。現在の thread は RUNNING なら戻す。 -/
def preemptTo (s : State) (next : Tid) : State :=
  let s := s.detach (s.threads next).priority next
  let s := { s with links := s.links.clear next }
  s.switchTo (fun state => state = .running) (fun thread => { thread.enter s.ticks with
      timeSliceRemaining := schedulerGetTimeSlice thread, preemptPending := false }) next

/-- time slice が尽きていれば、ほかの kernel thread に替える。 -/
def preemptExpired (s : State) : Option State :=
  let current := s.threads s.current
  if 0 < current.preemptCount then
    some (if current.timeSliceRemaining = 0 then
      s.modify s.current ({ · with preemptPending := true }) else s)
  else if 0 < current.timeSliceRemaining ∧ s.current ≠ s.idle then some s
  else
    (findKernel s Priority.descending).map fun next =>
      match next with
      | none =>
        if current.timeSliceRemaining = 0 then
          s.modify s.current ({ · with timeSliceRemaining := timeSliceDefault })
        else s
      | some next => preemptTo s next

/-- `ring3` は、割り込まれたのが user mode であること。 -/
def schedulerPreempt (s : State) (ring3 : Bool) : Option State :=
  if ¬s.active ∨ ring3 then some s
  else (schedulerWakeSleeping s).bind fun s => preemptExpired (s.onCurrent Thread.decrementSlice)

/-! ## timer -/

/-- 長く待った thread を UI の run queue に移す。 -/
def State.boost (s : State) (pri : Priority) (now : UInt64) (thread : Tid) : State :=
  let s := (s.detach pri thread).modify thread
    ({ · with priority := .ui, isBoosted := true, waitStartTick := now })
  { s with
    links := s.links.push (s.runQueues .ui) thread
    runQueues := Function.update s.runQueues .ui (some thread) }

/-- 一つの run queue を辿る。移す前に次の thread を覚えておく。 -/
def ageQueue (pri : Priority) (now : UInt64) : Nat → State → Option Tid → Option State
  | _, s, none => some s
  | 0, _, some _ => none
  | fuel + 1, s, some thread =>
    let next := s.links.next thread
    if ¬(s.threads thread).isBoosted ∧ agingThreshold ≤ now - (s.threads thread).waitStartTick then
      ageQueue pri now fuel (s.boost pri now thread) next
    else ageQueue pri now fuel s next

def ageQueues (now : UInt64) : List Priority → State → Option State
  | [], s => some s
  | pri :: rest, s => (ageQueue pri now s.nextTid s (s.runQueues pri)).bind (ageQueues now rest)

/-- lock を取って放すだけで、何も調べない。 -/
def checkThreadTimeouts (s : State) : State := s

/-- time slice が尽きたことを記す。 -/
def Thread.markExpired (thread : Thread) : Thread :=
  if thread.timeSliceRemaining = 0 then { thread with preemptPending := true } else thread

def schedulerTick (s : State) : Option State :=
  if ¬s.active then some s
  else
    let charged := s.onCurrent fun thread => { thread with cpuTicks := thread.cpuTicks + 1 }
    (schedulerWakeSleeping charged).bind fun s' =>
      let s' := checkThreadTimeouts s'
      let s' := (s'.onCurrent Thread.decrementSlice).onCurrent Thread.markExpired
      ageQueues s.ticks Priority.aging s'

/-! ## 作る、止める -/

/-- 作った直後の thread。 -/
def newThread (owner : Option Nat) (priority : Priority) (now : UInt64) : Thread where
  owner := owner
  state := .ready
  shouldTerminate := false
  exited := false
  exitStatus := 0
  basePriority := priority
  priority := priority
  timeSliceRemaining := priorityTimeSlice priority
  nice := 0
  isBoosted := false
  waitStartTick := now
  cpuTicks := 0
  contextSwitches := 0
  runStartTick := 0
  wakeTick := 0
  waitingQueue := none
  timeoutTick := 0
  waitResult := 0
  currentWaitQueue := none
  preemptCount := 0
  preemptPending := false

/-- `thread_create`、`thread_create_in_process`、`thread_create_user`。 -/
def threadCreate (s : State) (owner : Option Nat) (priority : Priority) : State :=
  let thread := s.nextTid
  schedulerEnqueue { s with
      threads := Function.update s.threads thread (newThread owner priority s.ticks)
      links := s.links.clear thread
      waitNext := Function.update s.waitNext thread none
      waitQueues := Function.update s.waitQueues (.join thread) ⟨none, none⟩
      nextTid := s.nextTid + 1 } thread

/-- reaper は BACKGROUND で、nice は 10 である。 -/
def reaperInit (s : State) : State :=
  threadSetNice { threadCreate s none .background with reaper := some s.nextTid } s.nextTid 10

/-- main thread だけが走り、idle はどの run queue にもない。 -/
def schedulerInit (now : UInt64) : State :=
  let main := { newThread none .normal 0 with state := .running }
  let s : State := {
    threads := fun _ => main
    links := ⟨fun _ => none, fun _ => none⟩
    waitNext := fun _ => none
    runQueues := fun _ => none
    sleepQueue := none
    waitQueues := fun _ => ⟨none, none⟩
    current := 0
    idle := 1
    reaper := none
    nextTid := 1
    active := false
    ticks := now }
  schedulerDequeue (threadCreate s none .idle) 1

/-- 待っている thread は READY にして加える。待ち行列からは外さない。 -/
def threadKill (s : State) (thread : Tid) (status : Int32) : State :=
  let s := s.modify thread ({ · with shouldTerminate := true, exitStatus := status })
  if (s.threads thread).state = .blocked ∨ (s.threads thread).state = .sleeping then
    schedulerEnqueue (s.modify thread ({ · with state := .ready })) thread
  else s

/-! ## 眠る -/

/-- `wake_tick` が大きくならない間、進む。 -/
def sleepPrev (s : State) (wake : UInt64) : Nat → Tid → Option Tid
  | 0, _ => none
  | fuel + 1, prev =>
    match s.links.next prev with
    | none => some prev
    | some next =>
      if (s.threads next).wakeTick ≤ wake then sleepPrev s wake fuel next else some prev

/-- `g_sleep_queue` に `wake_tick` の順に入れる。 -/
def sleepInsert (s : State) (thread : Tid) : Option State :=
  match s.sleepQueue with
  | none =>
    some { s with links := s.links.setNext thread none, sleepQueue := some thread }
  | some first =>
    if (s.threads thread).wakeTick < (s.threads first).wakeTick then
      some { s with links := s.links.setNext thread (some first), sleepQueue := some thread }
    else do
      let prev ← sleepPrev s (s.threads thread).wakeTick s.nextTid first
      some { s with
        links := (s.links.setNext thread (s.links.next prev)).setNext prev (some thread) }

def threadSleepTicks (s : State) (ticks : UInt64) : Option State :=
  if ticks = 0 then some s
  else do
    let thread := s.current
    let s := s.modify thread ({ · with wakeTick := s.ticks + ticks, state := .sleeping })
    let s ← sleepInsert s thread
    some (schedulerSchedule s)

/-! ## 待ち行列 -/

def waitQueueEnqueue (s : State) (q : Wq) (thread : Tid) : State :=
  let queue := s.waitQueues q
  let s := s.modify thread ({ · with waitingQueue := some q })
  let waitNext := Function.update s.waitNext thread none
  match queue.tail with
  | some last =>
    { s with
      waitNext := Function.update waitNext last (some thread)
      waitQueues := Function.update s.waitQueues q ⟨queue.head, some thread⟩ }
  | none =>
    { s with
      waitNext := waitNext
      waitQueues := Function.update s.waitQueues q ⟨some thread, some thread⟩ }

/-- 先頭の thread `thread` を外す。 -/
def State.unwait (s : State) (q : Wq) (thread : Tid) : State :=
  let head := s.waitNext thread
  { s with
    waitNext := Function.update s.waitNext thread none
    waitQueues := Function.update s.waitQueues q
      ⟨head, if head = none then none else (s.waitQueues q).tail⟩ }

/-- 外した thread を READY にして加える。 -/
def State.rouse (s : State) (thread : Tid) (f : Thread → Thread) : State :=
  schedulerEnqueue (s.modify thread fun t => { f t with state := .ready }) thread

def waitQueueWakeOne (s : State) (q : Wq) : State :=
  match (s.waitQueues q).head with
  | none => s
  | some thread => (s.unwait q thread).rouse thread ({ · with waitingQueue := none })

def wakeAllLoop (q : Wq) : Nat → State → Option State
  | 0, s => if (s.waitQueues q).head = none then some s else none
  | fuel + 1, s =>
    if (s.waitQueues q).head = none then some s else wakeAllLoop q fuel (waitQueueWakeOne s q)

def waitQueueWakeAll (s : State) (q : Wq) : Option State := wakeAllLoop q s.nextTid s

/-- `wait_queue_wait_timeout` のループの終わり。true は成功を表す。 -/
def waitFinish (s : State) : State × Bool :=
  (s.modify s.current ({ · with timeoutTick := 0, currentWaitQueue := none, waitResult := 0 }),
    (s.threads s.current).waitResult = 0)

/-- ループの先頭。`predicate` が真か時間切れなら終わり、そうでなければ待つ。 -/
def waitLoop (s : State) (q : Wq) (predicate : Bool) : State × Option Bool :=
  if predicate ∨ (s.threads s.current).waitResult = timedOut then
    ((waitFinish s).1, some (waitFinish s).2)
  else
    (schedulerSchedule ((waitQueueEnqueue s q s.current).modify s.current
      ({ · with state := .blocked })), none)

/-- 返した値があれば、それとともに返す。 -/
def waitQueueWaitTimeout (s : State) (q : Wq) (timeoutMs : UInt32) (predicate : Bool) :
    State × Option Bool :=
  let timeoutTick := if 0 < timeoutMs then s.ticks + timeoutMs.toUInt64 else 0
  waitLoop (s.modify s.current
    ({ · with timeoutTick := timeoutTick, waitResult := 0, currentWaitQueue := some q }))
    q predicate

/-- 終わりまで `wait_queue_next` を辿り、末尾につなぐ（`kernel/sync.c`）。 -/
def syncAppend (s : State) (q : Wq) (thread : Tid) : Option State := do
  let queue := s.waitQueues q
  let waiters ← Links.follow s.waitNext s.nextTid queue.head
  let tail := if queue.tail = none then some thread else queue.tail
  match waiters.getLast? with
  | some last =>
    some { s with
      waitNext := Function.update (Function.update s.waitNext last (some thread)) thread none
      waitQueues := Function.update s.waitQueues q ⟨queue.head, tail⟩ }
  | none =>
    some { s with
      waitNext := Function.update s.waitNext thread none
      waitQueues := Function.update s.waitQueues q ⟨some thread, tail⟩ }

/-- `mutex_lock` が待つ前に、owner を引き上げる。run queue の中の owner は移さない。 -/
def mutexApplyPriorityInheritance (s : State) (owner waiter : Tid) : State :=
  let pri := (s.threads waiter).priority
  if (s.threads owner).priority.rank < pri.rank then s.modify owner ({ · with priority := pri })
  else s

/-- `mutex_unlock` が、owner の priority を戻す。 -/
def mutexRestorePriority (s : State) (owner : Tid) : State :=
  s.modify owner fun t => { t with priority := t.basePriority }

/-- `mutex_lock` などが待つところ。kernel thread の `condvar_wait` も同じである。 -/
def syncBlock (s : State) (q : Wq) : Option State :=
  (syncAppend (s.modify s.current ({ · with state := .blocked, waitingQueue := some q })) q
    s.current).map schedulerSchedule

/-- `sem_timedwait` と `condvar_timedwait` が待つところ。`g_sleep_queue` には入れない。 -/
def syncTimedBlock (s : State) (q : Wq) (wake : UInt64) : Option State :=
  (syncAppend (s.modify s.current
    ({ · with state := .sleeping, waitingQueue := some q, wakeTick := wake })) q
    s.current).map schedulerSchedule

/-- `mutex_unlock` や `sem_post` が一つ起こすところ。`condvar_signal` は `wake_tick` も消す。 -/
def syncWake (s : State) (q : Wq) (cancel : Bool) : State :=
  match (s.waitQueues q).head with
  | none => s
  | some thread => (s.unwait q thread).rouse thread fun t =>
      if cancel then { t with wakeTick := 0 } else t

/-- 列に残っていれば外す（`condvar_timedwait`）。 -/
def syncRemove (s : State) (q : Wq) (thread : Tid) : Option State := do
  let queue := s.waitQueues q
  let waiters ← Links.follow s.waitNext s.nextTid queue.head
  if thread ∉ waiters then some s
  else
    let next := s.waitNext thread
    let tail := if queue.tail = some thread then next else queue.tail
    match (waiters.takeWhile (· ≠ thread)).getLast? with
    | some prev =>
      some { s with
        waitNext := Function.update s.waitNext prev next
        waitQueues := Function.update s.waitQueues q ⟨queue.head, tail⟩ }
    | none => some { s with waitQueues := Function.update s.waitQueues q ⟨next, tail⟩ }

/--
待つところから戻ったところ。時間を限った待ちは `wake_tick` も消す。`condvar_timedwait` は、時間切れなら
自分を列から外す。
-/
def syncResume (s : State) (q : Wq) (timed expired : Bool) : Option State :=
  (if expired then syncRemove s q s.current else some s).map fun s =>
    s.modify s.current fun t =>
      if timed then { t with waitingQueue := none, wakeTick := 0 }
      else { t with waitingQueue := none }

/-- join を待つ thread を起こし、zombie になり、reaper を起こす。 -/
def threadExit (s : State) (status : Int32) : Option State := do
  let thread := s.current
  let s := s.modify thread ({ · with exited := true, exitStatus := status })
  let s ← waitQueueWakeAll s (.join thread)
  let s := schedulerDequeue (s.modify thread ({ · with state := .zombie })) thread
  let s := if s.reaper = some thread then s else syncWake s .reaper true
  some (schedulerSchedule s)

/-! ## 手 -/

inductive Op where
  | start
  /-- timer が進む。 -/
  | time (now : UInt64)
  | create (owner : Option Nat) (priority : Priority)
  | reaperInit
  | schedule
  | preempt (ring3 : Bool)
  | tick
  | sleep (ticks : UInt64)
  | wait (q : Wq) (timeoutMs : UInt32) (predicate : Bool)
  /-- 起こされた thread が `wait_queue_wait_timeout` のループに戻る。 -/
  | waitResume (predicate : Bool)
  | wakeOne (q : Wq)
  | wakeAll (q : Wq)
  /-- `mutex_lock` のループの、待つ前の半分。続きは `block` である。 -/
  | inherit (owner : Tid)
  /-- `mutex_unlock` の、起こす前の半分。続きは `wake` である。 -/
  | restore
  | block (n : Nat)
  | timedBlock (n : Nat) (wake : UInt64)
  /-- 起こされた thread が、待っていた関数に戻る。 -/
  | resume (timed expired : Bool)
  | wake (n : Nat) (cancel : Bool)
  | kill (t : Tid) (status : Int32)
  | exit (status : Int32)

/-- 現在の thread は idle でなく、待つ関数の途中にもいない。 -/
def State.Outside (s : State) : Prop :=
  s.active = true ∧ s.current ≠ s.idle ∧ (s.threads s.current).waitingQueue = none ∧
    (s.threads s.current).currentWaitQueue = none
  deriving Decidable

/-- `wait_queue_t` の関数で扱う待ち行列。 -/
def Wq.Event : Wq → Prop
  | .sync _ => False
  | _ => True

instance : (q : Wq) → Decidable q.Event
  | .sync _ => inferInstanceAs (Decidable False)
  | .join _ | .event _ => inferInstanceAs (Decidable True)

/-- 一つの手。idle thread は `scheduler_schedule` を繰り返すだけで、待つことも終わることもない。 -/
def step (s : State) : Op → Option State
  | .start => some { s with active := true }
  | .time now => if s.ticks ≤ now then some { s with ticks := now } else none
  | .create owner priority => some (threadCreate s owner priority)
  | .reaperInit => some (reaperInit s)
  | .schedule => some (schedulerSchedule s)
  | .preempt ring3 => schedulerPreempt s ring3
  | .tick => schedulerTick s
  | .sleep ticks => if s.Outside then threadSleepTicks s ticks else none
  | .wait q timeoutMs predicate =>
    if s.Outside ∧ q.Event then some (waitQueueWaitTimeout s q timeoutMs predicate).1 else none
  | .waitResume predicate =>
    match (s.threads s.current).currentWaitQueue with
    | some q =>
      if (s.active = true ∧ s.current ≠ s.idle) ∧ q.Event then some (waitLoop s q predicate).1
      else none
    | none => none
  | .wakeOne q => if q.Event then some (waitQueueWakeOne s q) else none
  | .wakeAll q => if q.Event then waitQueueWakeAll s q else none
  | .inherit owner =>
    if s.Outside ∧ owner < s.nextTid ∧ owner ≠ s.idle then
      some (mutexApplyPriorityInheritance s owner s.current)
    else none
  | .restore => if s.current ≠ s.idle then some (mutexRestorePriority s s.current) else none
  | .block n => if s.Outside then syncBlock s (.sync n) else none
  | .timedBlock n wake => if s.Outside then syncTimedBlock s (.sync n) wake else none
  | .resume timed expired =>
    match (s.threads s.current).waitingQueue with
    | some q => syncResume s q timed expired
    | none => none
  | .wake n cancel => some (syncWake s (.sync n) cancel)
  | .kill t status => if t < s.nextTid then some (threadKill s t status) else none
  | .exit status => if s.Outside then threadExit s status else none

end Alos.Sched
