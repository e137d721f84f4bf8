import Alos.Sched.Consistency

/-!
# `thread_join` と reaper

thread T の終わりには、三者が関わる。T は `thread_exit` で join を待つ thread を起こし、zombie の列に入る。
`thread_join` の thread は、起こされてから T の state を調べ直し、割込みを許した後で T の `exit_status` を読む。
reaper は T を列から取り、T の構造体を解放する。

reaper は join の thread を待たない。したがって、起こされた thread が読む前に T が解放されることがあり、その thread は
解放された構造体を読む。T が static な main thread であるか、join の thread がみな戻ってから解放されるなら、そうは
ならない。

割込みに分けられない区間を一つの手とする。解放された構造体から読む値は手の引数で与え、何でもよいとする。

* `join_returns_status` — 条件の下で、join は T の status を返し、解放された構造体に触れない
* `join_reads_freed` — 待っている join を残して解放すれば、次の手で解放された構造体に触れる
* `join_after_free` — そうなる実行
-/

namespace Alos.Sched

open Option

/-! ## 区間 -/

/-- T の構造体のうち、join に関わる欄。 -/
structure Target (J : Type) where
  state : ThreadState
  exited : Bool
  exitStatus : Int32
  joinWaiters : List J

/-- `thread_join` のどこにいるか。 -/
inductive Joining where
  | outside
  | waiting
  /-- 起こされて、まだ調べ直していない。 -/
  | woken
  /-- zombie であることを確かめ、まだ `exit_status` を読んでいない。 -/
  | passed
  | returned (status : Int32)
  deriving DecidableEq

/-- reaper が T の片付けをどこまで進めたか。 -/
inductive Reaping where
  | before
  | taken
  | cleaned
  | finished
  deriving DecidableEq

structure JoinSystem (J : Type) where
  target : Target J
  /-- T は `g_main_thread_struct` である。 -/
  static : Bool
  /-- T は `g_zombie_list` にある。 -/
  listed : Bool
  reaping : Reaping
  freed : Bool
  joiners : J → Joining
  /-- 解放された後の構造体に触れたことがある。 -/
  violated : Bool

inductive JoinOp (J : Type) where
  | join (j : J)
  /-- `predicate` は、解放された構造体から読む値である。 -/
  | resume (j : J) (predicate : Bool)
  /-- `status` は、解放された構造体から読む値である。 -/
  | finish (j : J) (status : Int32)
  | exit (status : Int32)
  | take
  | clean
  | free

section Functions

variable {J : Type}

/-- T の構造体に触れる。 -/
def JoinSystem.touch (s : JoinSystem J) : JoinSystem J :=
  { s with violated := s.violated || s.freed }

def Target.isThreadZombie (target : Target J) : Bool := target.state = .zombie

/-- T は走っていて、まだ誰も join していない。 -/
def JoinSystem.start (static : Bool) : JoinSystem J where
  target := ⟨.running, false, 0, []⟩
  static := static
  listed := false
  reaping := .before
  freed := false
  joiners := fun _ => .outside
  violated := false

variable [DecidableEq J]

def JoinSystem.place (s : JoinSystem J) (j : J) (place : Joining) : JoinSystem J :=
  { s with joiners := Function.update s.joiners j place }

/-- `wait_queue_wait_timeout` のループの一周。 -/
def JoinSystem.await (s : JoinSystem J) (j : J) (predicate : Bool) : JoinSystem J :=
  if predicate then s.place j .passed
  else { s with target := { s.target with joinWaiters := s.target.joinWaiters ++ [j] } }.place
    j .waiting

/-- `thread_exit`。待つ thread をみな起こし、zombie の列に入る。 -/
def JoinSystem.threadExit (s : JoinSystem J) (status : Int32) : JoinSystem J :=
  { s with
    joiners := fun j => if j ∈ s.target.joinWaiters then .woken else s.joiners j
    target := ⟨.zombie, true, status, []⟩
    listed := true }

/-- join を呼ぶのは T が終わる前である。 -/
def joinStep (s : JoinSystem J) : JoinOp J → Option (JoinSystem J)
  | .join j =>
    if s.joiners j = .outside ∧ s.target.exited = false then
      some (s.touch.await j s.target.isThreadZombie)
    else none
  | .resume j predicate =>
    if s.joiners j = .woken then
      some (s.touch.await j (if s.freed then predicate else s.target.isThreadZombie))
    else none
  | .finish j status =>
    if s.joiners j = .passed then
      some (s.touch.place j (.returned (if s.freed then status else s.target.exitStatus)))
    else none
  | .exit status => if s.target.exited = false then some (s.touch.threadExit status) else none
  | .take =>
    if s.listed ∧ s.reaping = .before then
      some { s.touch with listed := false, reaping := .taken }
    else none
  | .clean => if s.reaping = .taken then some { s.touch with reaping := .cleaned } else none
  | .free =>
    if s.reaping = .cleaned then some { s with reaping := .finished, freed := !s.static } else none

end Functions

/-! ## 不変条件 -/

variable {J : Type} {s s' : JoinSystem J} {j : J}

/-- T の構造体にもう触れない。 -/
def Joining.Over : Joining → Prop
  | .outside | .returned _ => True
  | _ => False

/-- join の thread がみな戻ってから解放する。 -/
def Patient (s : JoinSystem J) : JoinOp J → Prop
  | .free => s.static = true ∨ ∀ j, (s.joiners j).Over
  | _ => True

structure Joinable (s : JoinSystem J) : Prop where
  intact : s.violated = false
  zombie : s.target.exited = true ↔ s.target.state = .zombie
  /-- 片付けは、T が終わってから始まる。 -/
  exited : s.listed = true ∨ s.reaping ≠ .before → s.target.exited = true
  freed : s.freed = true → s.reaping = .finished ∧ ∀ j, (s.joiners j).Over
  waiters : ∀ j, s.joiners j = .waiting ↔ j ∈ s.target.joinWaiters
  empty : s.target.exited = true → s.target.joinWaiters = []
  woken : ∀ j, s.joiners j = .woken ∨ s.joiners j = .passed → s.target.exited = true
  returned : ∀ j status, s.joiners j = .returned status →
    s.target.exited = true ∧ status = s.target.exitStatus

theorem start_joinable {static : Bool} : Joinable (.start static : JoinSystem J) where
  intact := rfl
  zombie := by simp [JoinSystem.start]
  exited := by simp [JoinSystem.start]
  freed := nofun
  waiters j := by simp [JoinSystem.start]
  empty := nofun
  woken j := by simp [JoinSystem.start]
  returned j status := nofun

theorem touch_eq (hf : s.freed = false) : s.touch = s := by
  obtain ⟨target, static, listed, reaping, freed, joiners, violated⟩ := s
  obtain rfl : freed = false := hf
  simp [JoinSystem.touch]

theorem touch_violated (hf : s.freed = true) : s.touch.violated = true := by
  simp [JoinSystem.touch, hf]

namespace Joinable

theorem not_freed (h : Joinable s) (hj : ¬(s.joiners j).Over) : s.freed = false := by
  by_contra hf
  exact hj ((h.freed (by simpa using hf)).2 j)

theorem not_freed_of_reaping (h : Joinable s) (hr : s.reaping ≠ .finished) : s.freed = false := by
  by_contra hf
  exact hr (h.freed (by simpa using hf)).1

theorem alive (h : Joinable s) (he : s.target.exited = false) : s.freed = false := by
  refine h.not_freed_of_reaping fun hr => ?_
  have := h.exited (.inr (by rw [hr]; simp))
  rw [he] at this
  cases this

variable [DecidableEq J]

theorem place {place : Joining} (h : Joinable s) (hj : s.joiners j ≠ .waiting)
    (hwait : place ≠ .waiting) (hover : s.freed = true → place.Over)
    (hwoken : place = .woken ∨ place = .passed → s.target.exited = true)
    (hret : ∀ status, place = .returned status →
      s.target.exited = true ∧ status = s.target.exitStatus) : Joinable (s.place j place) where
  intact := h.intact
  zombie := h.zombie
  exited := h.exited
  freed hf := by
    refine ⟨(h.freed hf).1, fun i => ?_⟩
    by_cases hi : i = j
    · simpa [JoinSystem.place, hi] using hover hf
    · simpa [JoinSystem.place, hi] using (h.freed hf).2 i
  waiters i := by
    by_cases hi : i = j
    · subst hi
      simpa [JoinSystem.place, hwait] using mt (h.waiters i).mpr hj
    · simpa [JoinSystem.place, hi] using h.waiters i
  empty := h.empty
  woken i hw := by
    by_cases hi : i = j
    · exact hwoken (by simpa [JoinSystem.place, hi] using hw)
    · exact h.woken i (by simpa [JoinSystem.place, hi] using hw)
  returned i status hr := by
    by_cases hi : i = j
    · exact hret _ (by simpa [JoinSystem.place, hi] using hr)
    · exact h.returned i _ (by simpa [JoinSystem.place, hi] using hr)

theorem enqueue (h : Joinable s) (hj : s.joiners j = .outside) (he : s.target.exited = false) :
    Joinable (s.await j false) where
  intact := h.intact
  zombie := h.zombie
  exited := h.exited
  freed (hf : s.freed = true) := absurd (h.alive he) (by simp [hf])
  waiters i := by
    by_cases hi : i = j
    · subst hi
      simp [JoinSystem.await, JoinSystem.place]
    · simpa [JoinSystem.await, JoinSystem.place, hi] using h.waiters i
  empty hx := absurd (he.symm.trans hx) (by simp)
  woken i hw := by
    by_cases hi : i = j
    · simp [JoinSystem.await, JoinSystem.place, hi] at hw
    · exact h.woken i (by simpa [JoinSystem.await, JoinSystem.place, hi] using hw)
  returned i status hr := by
    by_cases hi : i = j
    · simp [JoinSystem.await, JoinSystem.place, hi] at hr
    · exact h.returned i _ (by simpa [JoinSystem.await, JoinSystem.place, hi] using hr)

theorem exit (h : Joinable s) (he : s.target.exited = false) {status : Int32} :
    Joinable (s.threadExit status) where
  intact := h.intact
  zombie := by simp [JoinSystem.threadExit]
  exited _ := rfl
  freed (hf : s.freed = true) := absurd (h.alive he) (by simp [hf])
  waiters i := by
    by_cases hi : i ∈ s.target.joinWaiters
    · simp [JoinSystem.threadExit, hi]
    · simpa [JoinSystem.threadExit, hi] using mt (h.waiters i).mp hi
  empty _ := rfl
  woken _ _ := rfl
  returned i status' hr := by
    -- T が終わる前に戻った join はない
    by_cases hi : i ∈ s.target.joinWaiters
    · simp [JoinSystem.threadExit, hi] at hr
    · have := (h.returned i _ (by simpa [JoinSystem.threadExit, hi] using hr)).1
      rw [he] at this
      cases this

end Joinable

variable [DecidableEq J]

theorem joinStep_joinable {op : JoinOp J} (h : Joinable s) (hlegal : Patient s op)
    (hstep : joinStep s op = some s') : Joinable s' := by
  cases op with
  | join j =>
    obtain ⟨⟨hj, he⟩, ⟨⟩⟩ := ite_none_right_eq_some.mp hstep
    have hz : s.target.isThreadZombie = false := by
      rw [Target.isThreadZombie, decide_eq_false_iff_not, ← h.zombie, he]
      simp
    rw [touch_eq (h.alive he), hz]
    exact h.enqueue hj he
  | resume j predicate =>
    obtain ⟨hj, ⟨⟩⟩ := ite_none_right_eq_some.mp hstep
    have hf : s.freed = false := h.not_freed (by rw [hj]; exact id)
    have he := h.woken j (.inl hj)
    have hz : s.target.isThreadZombie = true := decide_eq_true (h.zombie.mp he)
    rw [touch_eq hf, hz, hf]
    exact h.place (by rw [hj]; simp) (by simp) (by simp [hf]) (fun _ => he) (by simp)
  | finish j status =>
    obtain ⟨hj, ⟨⟩⟩ := ite_none_right_eq_some.mp hstep
    have hf : s.freed = false := h.not_freed (by rw [hj]; exact id)
    have he := h.woken j (.inr hj)
    rw [touch_eq hf, hf]
    refine h.place (by rw [hj]; simp) (by simp) (by simp [hf]) (by simp) fun status' hs => ?_
    exact ⟨he, (Joining.returned.inj hs).symm⟩
  | exit status =>
    obtain ⟨he, ⟨⟩⟩ := ite_none_right_eq_some.mp hstep
    rw [touch_eq (h.alive he)]
    exact h.exit he
  | take =>
    obtain ⟨⟨hl, hr⟩, ⟨⟩⟩ := ite_none_right_eq_some.mp hstep
    have hf := h.not_freed_of_reaping (by rw [hr]; simp)
    rw [touch_eq hf]
    exact ⟨h.intact, h.zombie, fun _ => h.exited (.inl hl), fun hx => absurd hf (by simpa using hx),
      h.waiters, h.empty, h.woken, h.returned⟩
  | clean =>
    obtain ⟨hr, ⟨⟩⟩ := ite_none_right_eq_some.mp hstep
    have hf := h.not_freed_of_reaping (by rw [hr]; simp)
    rw [touch_eq hf]
    exact ⟨h.intact, h.zombie, fun _ => h.exited (.inr (by rw [hr]; simp)),
      fun hx => absurd hf (by simpa using hx), h.waiters, h.empty, h.woken, h.returned⟩
  | free =>
    obtain ⟨hr, ⟨⟩⟩ := ite_none_right_eq_some.mp hstep
    refine ⟨h.intact, h.zombie, fun _ => h.exited (.inr (by rw [hr]; simp)), fun hx => ⟨rfl, ?_⟩,
      h.waiters, h.empty, h.woken, h.returned⟩
    rcases hlegal with hs | hover
    · simp [hs] at hx
    · exact hover

theorem join_joinable {static : Bool} {ops : List (JoinOp J)}
    (h : Run.Reach joinStep Patient (.start static) ops s) : Joinable s :=
  h.invariant start_joinable fun _ _ _ hs hlegal hstep => joinStep_joinable hs hlegal hstep

/--
**join の thread がみな戻ってから解放するなら、join は T の status を返し、解放された構造体に触れない。**

T が終わった後に待ち続ける thread はない。起こされた thread は、調べ直す手と読む手の二つで T の status を返す。
-/
theorem join_returns_status {static : Bool} {ops : List (JoinOp J)}
    (h : Run.Reach joinStep Patient (.start static) ops s) :
    s.violated = false ∧
    (∀ j status, s.joiners j = .returned status →
      s.target.exited = true ∧ status = s.target.exitStatus) ∧
    (∀ j, s.target.exited = true → s.joiners j ≠ .waiting) ∧
    (∀ j predicate, s.joiners j = .woken → ∃ s',
      joinStep s (.resume j predicate) = some s' ∧ s'.joiners j = .passed) ∧
    ∀ j status, s.joiners j = .passed → ∃ s',
      joinStep s (.finish j status) = some s' ∧ s'.joiners j = .returned s.target.exitStatus := by
  have hs := join_joinable h
  refine ⟨hs.intact, hs.returned, fun j he hj => ?_, fun j predicate hj =>
    ?_, fun j status hj => ?_⟩
  · have hmem := (hs.waiters j).mp hj
    rw [hs.empty he] at hmem
    cases hmem
  · have hf : s.freed = false := hs.not_freed (by rw [hj]; exact id)
    have hz : s.target.isThreadZombie = true := decide_eq_true (hs.zombie.mp (hs.woken j (.inl hj)))
    refine ⟨_, if_pos hj, ?_⟩
    rw [hz, hf]
    exact Function.update_self ..
  · have hf : s.freed = false := hs.not_freed (by rw [hj]; exact id)
    refine ⟨_, if_pos hj, ?_⟩
    rw [hf]
    exact Function.update_self ..

/-- 二つの thread が join し、みな戻ってから T が解放される。 -/
theorem join_returns_status_two : ∃ s, Run.Reach joinStep Patient (.start false)
      [.join true, .join false, .exit 7, .take, .resume false false, .clean, .finish false 0,
        .resume true false, .finish true 0, .free] s ∧
    s.freed = true ∧ s.joiners true = .returned 7 ∧ s.violated = false ∧
    s.target.exitStatus = 7 := by
  refine Run.Reach.exists_and (.cons trivial rfl <| .cons trivial rfl <| .cons trivial rfl <|
    .cons trivial rfl <| .cons trivial rfl <| .cons trivial rfl <| .cons trivial rfl <|
    .cons trivial rfl <| .cons trivial rfl <| .cons (.inr fun j => by cases j <;> trivial) rfl .nil)
    fun hreach => ?_
  obtain ⟨hintact, hreturned, -⟩ := join_returns_status hreach
  exact ⟨rfl, rfl, hintact, (hreturned true 7 rfl).2.symm⟩

/-! ## 待たずに解放する -/

/-- 待っている join を残して解放すると、その thread の次の手が、解放された構造体に触れる。 -/
theorem join_reads_freed (hfreed : s.freed = true)
    (hj : s.joiners j = .woken ∨ s.joiners j = .passed) :
    ∃ op s', joinStep s op = some s' ∧ s'.violated = true := by
  rcases hj with hj | hj
  · refine ⟨.resume j true, _, if_pos hj, ?_⟩
    simp [JoinSystem.await, JoinSystem.place, hfreed, touch_violated]
  · exact ⟨.finish j 0, _, if_pos hj, touch_violated hfreed⟩

/--
**join の thread が調べ直す前に T が解放され、join は T の status でない値を返す。**

scheduler は実際にこの順番を選ぶ。BACKGROUND の thread 4 が thread 3 を join しているとき、`thread_exit` は thread 4 を
起こしてから reaper（thread 2）を起こし、後に加えた reaper が先に走る。
-/
theorem join_after_free :
    (∃ s, Run.Reach joinStep (fun _ _ => True) (.start false : JoinSystem Unit)
        [.join (), .exit 7, .take, .clean, .free, .resume () true, .finish () 5] s ∧
      s.violated = true ∧ s.target.exitStatus = 7 ∧ s.joiners () = .returned 5) ∧
    ∃ s, Run.Reach step Tame (schedulerInit 0)
        [.start, .reaperInit, .create none .normal, .create none .background, .sleep 1000, .sleep 5,
          .wait (.join 3) 0 false, .block 0, .time 5, .tick, .schedule, .exit 7] s ∧
      s.reaper = some 2 ∧ s.current = 2 ∧ (s.threads 3).state = .zombie ∧
      (s.threads 4).state = .ready :=
  ⟨Run.exists_reach (by decide +kernel), Run.exists_reach (by decide +kernel)⟩

end Alos.Sched
