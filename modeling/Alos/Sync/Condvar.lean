import Alos.Sync.Mutex

/-!
# condition variable（`kernel/sync.c`）

`condvar_wait` と `condvar_timedwait` は、mutex を持つ thread が待ち行列に入り、mutex を放して CPU を譲る。
`condvar_signal` と `condvar_broadcast` に外された thread は、mutex を取り直して戻る。

二つの場合に、この約束は破れる。user thread の `condvar_wait` は、CPU を譲らずにループを出て mutex を取り直すので、
待ち行列につながれたまま戻る。また、`condvar_timedwait` は、起きた後の時刻で時間切れを決めるので、signal に外された
thread も、走るのが遅れれば false を返す。

割込みに分けられない区間を一つの手とし、戻った thread の返り値と、そのときの mutex と待ち行列を `returns` に記す。

* `condvar_returns` — kernel thread だけが `condvar_wait` を使い、起こされた thread が期限の前に走るなら、約束どおり戻る
* `condvar_broken` — user thread はつながれたまま戻り、遅れた thread は false を返す
-/

namespace Alos.Sync

open Function List Option

structure Condvar (T : Type) where
  waiters : List T
  signalCount : UInt32

section Functions

variable {T : Type}

def condvarInit : Condvar T := ⟨[], 0⟩

/-- 待ち行列の末尾に入る。 -/
def condvarEnqueue (cv : Condvar T) (t : T) : Condvar T := { cv with waiters := cv.waiters ++ [t] }

/-- 外した thread を返す。 -/
def condvarSignal (cv : Condvar T) : Condvar T × List T :=
  (⟨cv.waiters.tail, cv.signalCount + 1⟩, cv.waiters.take 1)

def condvarBroadcast (cv : Condvar T) : Condvar T × List T :=
  (⟨[], cv.signalCount + 1⟩, cv.waiters)

/-- 時間切れの thread が、残っていれば自分を外す。 -/
def condvarRemove [DecidableEq T] (cv : Condvar T) (t : T) : Condvar T :=
  { cv with waiters := cv.waiters.erase t }

end Functions

/-! ## 区間の交錯 -/

/-- `condvar_timedwait` の始めの時刻と待つ長さ。`condvar_wait` では `none` である。 -/
abbrev Deadline := Option (UInt64 × UInt64)

/-- 返り値。`condvar_wait` の `result` は true とする。`signaled` は、signal か broadcast に外されたことを記す。 -/
structure Ending where
  result : Bool
  signaled : Bool

/-- thread の位置。 -/
inductive Stage where
  | outside
  /-- condition variable の待ち行列にいる。 -/
  | waiting (deadline : Deadline)
  /-- signal か broadcast に外されて、まだ走っていない。 -/
  | signaled (deadline : Deadline)
  /-- mutex の待ち行列にいる。`ending` は、取れたら返す値である。 -/
  | locking (ending : Option Ending)
  /-- mutex の待ち行列から起こされて、まだ調べ直していない。 -/
  | rewoken (ending : Option Ending)

/-- 戻ったときの記録。 -/
structure Return (T : Type) where
  thread : T
  ending : Ending
  owns : Bool
  linked : Bool

structure CondSystem (T : Type) where
  mutex : Mutex T
  cv : Condvar T
  stage : T → Stage
  now : UInt64
  returns : List (Return T)

inductive CondOp (T : Type) where
  | lock (t : T)
  | unlock (t : T)
  /-- 起こされた thread が、`mutex_lock` のループの先頭に戻る。 -/
  | relock (t : T)
  | wait (t : T)
  /-- `start` は、割込みを禁じる前に読んだ時刻である。 -/
  | timedwait (t : T) (start : UInt64) (timeoutMs : UInt32)
  /-- 外された thread が走る。 -/
  | resume (t : T)
  /-- 外されていない thread が、期限の後に起こされて走る。 -/
  | expire (t : T)
  | signal
  | broadcast
  | time (now : UInt64)

/-- signal に外された。 -/
def Stage.signal : Stage → Stage
  | .waiting deadline => .signaled deadline
  | stage => stage

/-- mutex の待ち行列から外された。 -/
def Stage.rewake : Stage → Stage
  | .locking ending => .rewoken ending
  | stage => stage

section Step

variable {T : Type} [DecidableEq T]

def CondSystem.init (type : MutexType) : CondSystem T :=
  ⟨mutexInit type, condvarInit, fun _ => .outside, 0, []⟩

/-- `mutex_lock` の区間の結果を書き込む。取れたなら、`ending` を返して戻る。 -/
def CondSystem.locked (s : CondSystem T) (t : T) (ending : Option Ending) (r : Mutex T × Outcome) :
    CondSystem T :=
  match r.2 with
  | .returns _ =>
    { s with
      mutex := r.1
      stage := Function.update s.stage t .outside
      returns := ending.elim s.returns fun e =>
        ⟨t, e, r.1.owner = some t, t ∈ s.cv.waiters⟩ :: s.returns }
  | .blocks => { s with mutex := r.1, stage := Function.update s.stage t (.locking ending) }

def CondSystem.unlocked (s : CondSystem T) (t : T) : CondSystem T :=
  let r := mutexUnlock s.mutex t
  { s with
    mutex := r.1
    stage := r.2.2.elim s.stage fun w => Function.update s.stage w (s.stage w).rewake }

/-- 待ち行列に入り、mutex を放す。 -/
def CondSystem.entered (s : CondSystem T) (t : T) : CondSystem T :=
  { s with cv := condvarEnqueue s.cv t }.unlocked t

/-- 待ち行列から外す。 -/
def CondSystem.woke (s : CondSystem T) (r : Condvar T × List T) : CondSystem T :=
  { s with
    cv := r.1
    stage := fun t => if t ∈ r.2 then (s.stage t).signal else s.stage t }

/-- 走り始めた thread が、時間切れを調べ、mutex を取り直す。 -/
def CondSystem.resumed (s : CondSystem T) (t : T) (deadline : Deadline) (signaled : Bool) :
    CondSystem T :=
  match deadline with
  | none => s.locked t (some ⟨true, signaled⟩) (mutexLock s.mutex t)
  | some (start, timeout) =>
    if timeout ≤ s.now - start then
      { s with cv := condvarRemove s.cv t }.locked t (some ⟨false, signaled⟩) (mutexLock s.mutex t)
    else s.locked t (some ⟨true, signaled⟩) (mutexLock s.mutex t)

/-- 一つの区間。`user t` は、`t` が user thread であることを表す。 -/
def condStep (user : T → Bool) (s : CondSystem T) : CondOp T → Option (CondSystem T)
  | .lock t =>
    match s.stage t with
    | .outside => some (s.locked t none (mutexLock s.mutex t))
    | _ => none
  | .unlock t =>
    match s.stage t with
    | .outside => some (s.unlocked t)
    | _ => none
  | .relock t =>
    match s.stage t with
    | .rewoken ending => some (s.locked t ending (mutexAcquire s.mutex t))
    | _ => none
  | .wait t =>
    match s.stage t with
    | .outside =>
      if s.mutex.owner = some t then
        let s' := s.entered t
        some (if user t then s'.locked t (some ⟨true, false⟩) (mutexLock s'.mutex t)
          else { s' with stage := Function.update s'.stage t (.waiting none) })
      else none
    | _ => none
  | .timedwait t start timeoutMs =>
    match s.stage t with
    | .outside =>
      if s.mutex.owner = some t ∧ start ≤ s.now then
        let s' := s.entered t
        some { s' with
          stage := Function.update s'.stage t (.waiting (some (start, timeoutMs.toUInt64))) }
      else none
    | _ => none
  | .resume t =>
    match s.stage t with
    | .signaled deadline => some (s.resumed t deadline true)
    | _ => none
  | .expire t =>
    match s.stage t with
    | .waiting (some (start, timeout)) =>
      if timeout ≤ s.now - start then some (s.resumed t (some (start, timeout)) false) else none
    | _ => none
  | .signal => some (s.woke (condvarSignal s.cv))
  | .broadcast => some (s.woke (condvarBroadcast s.cv))
  | .time now => if s.now ≤ now then some { s with now := now } else none

/-- `condvar_wait` を使うのは kernel thread だけであり、外された thread は期限の前に走る。 -/
def Punctual (user : T → Bool) (s : CondSystem T) : CondOp T → Prop
  | .wait t => user t = false
  | .resume t =>
    match s.stage t with
    | .signaled (some (start, timeout)) => s.now - start < timeout
    | _ => True
  | _ => True

/-! ## 不変条件 -/

/-- 約束。戻った thread は mutex を持ち、つながれていない。外された thread は true を返す。 -/
structure Kept (s : CondSystem T) : Prop where
  ending : ∀ t e, s.stage t = .locking (some e) ∨ s.stage t = .rewoken (some e) →
    e.signaled = true → e.result = true
  returned : ∀ ret ∈ s.returns, ret.owns = true ∧ ret.linked = false ∧
    (ret.ending.signaled = true → ret.ending.result = true)

structure Prompt (s : CondSystem T) : Prop extends Kept s where
  nodup : s.cv.waiters.Nodup
  linked : ∀ t, t ∈ s.cv.waiters ↔ ∃ d, s.stage t = .waiting d
  lockNodup : s.mutex.waiters.Nodup
  queued : ∀ t, t ∈ s.mutex.waiters ↔ ∃ e, s.stage t = .locking e

variable {user : T → Bool} {s s' : CondSystem T} {t : T}

omit [DecidableEq T] in
theorem prompt_init {type : MutexType} : Prompt (.init type : CondSystem T) where
  nodup := .nil
  linked t := by simp [CondSystem.init, condvarInit]
  lockNodup := .nil
  queued t := by simp [CondSystem.init, mutexInit]
  ending t e := by simp [CondSystem.init]
  returned _ h := absurd h not_mem_nil

/-- mutex を取ろうとした結果。取れたなら owner である。 -/
theorem lock_cases {mutex : Mutex T} {r : Mutex T × Outcome}
    (hr : r = mutexLock mutex t ∨ r = mutexAcquire mutex t) :
    (∃ x, r.2 = .returns x ∧ r.1.owner = some t ∧ r.1.waiters = mutex.waiters) ∨
    (r.2 = .blocks ∧ r.1.waiters = mutex.waiters ++ [t]) := by
  have hacquire : (∃ x, (mutexAcquire mutex t).2 = .returns x ∧
      (mutexAcquire mutex t).1.owner = some t ∧ (mutexAcquire mutex t).1.waiters = mutex.waiters) ∨
      ((mutexAcquire mutex t).2 = .blocks ∧
        (mutexAcquire mutex t).1.waiters = mutex.waiters ++ [t]) := by
    unfold mutexAcquire
    split
    · exact .inl ⟨0, rfl, rfl, rfl⟩
    · exact .inr ⟨rfl, rfl⟩
  rcases hr with rfl | rfl
  · unfold mutexLock
    split
    · split
      · exact .inl ⟨0, rfl, ‹_›, rfl⟩
      · exact .inl ⟨-1, rfl, ‹_›, rfl⟩
      · exact hacquire
    · exact hacquire
  · exact hacquire

namespace Prompt

/-- `t` の位置だけが変わる。ほかの thread は、どちらの列でも出入りしない。 -/
theorem move (h : Prompt s) {stage : Stage} (hstage : s'.stage = update s.stage t stage)
    (hcv : s'.cv.waiters.Nodup) (hlock : s'.mutex.waiters.Nodup)
    (hothers : ∀ u, u ≠ t → (u ∈ s'.cv.waiters ↔ u ∈ s.cv.waiters) ∧
      (u ∈ s'.mutex.waiters ↔ u ∈ s.mutex.waiters))
    (hlinked : t ∈ s'.cv.waiters ↔ ∃ d, stage = .waiting d)
    (hqueued : t ∈ s'.mutex.waiters ↔ ∃ e, stage = .locking e)
    (hending : ∀ e, stage = .locking (some e) ∨ stage = .rewoken (some e) →
      e.signaled = true → e.result = true)
    (hreturned : ∀ ret ∈ s'.returns, ret.owns = true ∧ ret.linked = false ∧
      (ret.ending.signaled = true → ret.ending.result = true)) : Prompt s' := by
  refine ⟨⟨fun u e => ?_, hreturned⟩, hcv, fun u => ?_, hlock, fun u => ?_⟩
  all_goals
    rw [hstage]
    by_cases hu : u = t
  · subst hu
    rw [update_self]
    exact hending e
  · rw [update_of_ne hu]
    exact h.ending u e
  · subst hu
    rwa [update_self]
  · rw [update_of_ne hu, (hothers u hu).1]
    exact h.linked u
  · subst hu
    rwa [update_self]
  · rw [update_of_ne hu, (hothers u hu).2]
    exact h.queued u

/-- mutex を取り直す。待ち行列にいたなら、先に外れている。 -/
theorem locked (h : Prompt s) {cv : Condvar T} {ending : Option Ending} {r : Mutex T × Outcome}
    (hr : r = mutexLock s.mutex t ∨ r = mutexAcquire s.mutex t)
    (hcv : cv.waiters = s.cv.waiters.erase t) (hlock : t ∉ s.mutex.waiters)
    (hending : ∀ e, ending = some e → e.signaled = true → e.result = true) :
    Prompt ({ s with cv := cv }.locked t ending r) := by
  have hout : t ∉ cv.waiters := by
    rw [hcv]
    exact h.nodup.not_mem_erase
  have hnodup : cv.waiters.Nodup := by
    rw [hcv]
    exact h.nodup.erase t
  have hothers : ∀ u, u ≠ t → (u ∈ cv.waiters ↔ u ∈ s.cv.waiters) := fun u hu => by
    rw [hcv, mem_erase_of_ne hu]
  unfold CondSystem.locked
  rcases lock_cases hr with ⟨x, hx, howner, hwaiters⟩ | ⟨hx, hwaiters⟩
  · simp only [hx]
    refine h.move rfl hnodup (hwaiters ▸ h.lockNodup) (fun u hu => ⟨hothers u hu, by rw [hwaiters]⟩)
      (by simp [hout]) (by simp [hwaiters, hlock]) (by simp) fun ret hret => ?_
    cases ending with
    | none => exact h.returned ret hret
    | some e =>
      rcases mem_cons.mp hret with rfl | hret
      · exact ⟨decide_eq_true howner, decide_eq_false hout, hending e rfl⟩
      · exact h.returned ret hret
  · simp only [hx]
    have hlockNodup := h.lockNodup.append (nodup_singleton t) (disjoint_singleton.mpr hlock)
    refine h.move rfl hnodup (hwaiters ▸ hlockNodup)
      (fun u hu => ⟨hothers u hu, by simp [hwaiters, hu]⟩) (by simp [hout]) (by simp [hwaiters])
      (fun e he => ?_) h.returned
    rcases he with he | he
    · exact hending e (Stage.locking.inj he)
    · cases he

theorem unlocked (h : Prompt s) (t : T) : Prompt (s.unlocked t) := by
  unfold CondSystem.unlocked mutexUnlock
  split
  · exact h
  split
  · exact ⟨⟨h.ending, h.returned⟩, h.nodup, h.linked, h.lockNodup, h.queued⟩
  cases hw : s.mutex.waiters with
  | nil =>
    refine ⟨⟨h.ending, h.returned⟩, h.nodup, h.linked, .nil, fun u => ?_⟩
    simpa [hw] using h.queued u
  | cons w rest =>
    obtain ⟨e, he⟩ := (h.queued w).mp (by rw [hw]; exact mem_cons_self)
    have hnodup := nodup_cons.mp (hw ▸ h.lockNodup)
    have hcv : w ∉ s.cv.waiters := by simp [h.linked w, he]
    simp only [head?_cons, elim_some, he, Stage.rewake, tail_cons]
    refine h.move rfl h.nodup hnodup.2 (fun u hu => ⟨Iff.rfl, by simp [hw, hu]⟩)
      (by simp [hcv]) (by simp [hnodup.1]) (fun e' he' => ?_) h.returned
    rcases he' with he' | he'
    · cases he'
    · exact h.ending w e' (.inl (by rw [he, Stage.rewoken.inj he']))

omit [DecidableEq T] in
theorem outside_free (h : Prompt s) (ht : s.stage t = .outside) :
    t ∉ s.cv.waiters ∧ t ∉ s.mutex.waiters := by
  rw [h.linked, h.queued, ht]
  simp

theorem unlocked_stage (ht : s.stage t = .outside) : (s.unlocked t).stage t = .outside := by
  simp only [CondSystem.unlocked]
  cases (mutexUnlock _ t).2.2 with
  | none => exact ht
  | some w =>
    rw [elim_some]
    by_cases hwt : t = w
    · subst hwt
      rw [update_self, ht]
      rfl
    · rw [update_of_ne hwt, ht]

theorem waiting (h : Prompt s) (ht : s.stage t = .outside) (deadline : Deadline) :
    Prompt { s.entered t with stage := update (s.entered t).stage t (.waiting deadline) } := by
  -- 待ち行列に入ってから放すのと、放してから入るのとは同じである
  have hfree := (h.unlocked t).outside_free (unlocked_stage ht)
  have hnodup := h.nodup.append (nodup_singleton t) (disjoint_singleton.mpr hfree.1)
  refine (h.unlocked t).move rfl hnodup (h.unlocked t).lockNodup
    (fun u hu => ⟨?_, Iff.rfl⟩) ?_ ?_ (by simp) (h.unlocked t).returned
  · simp [CondSystem.entered, CondSystem.unlocked, condvarEnqueue, hu]
  · simp [CondSystem.entered, CondSystem.unlocked, condvarEnqueue]
  · simp only [reduceCtorEq, exists_false, iff_false]
    exact hfree.2

theorem woke (h : Prompt s) {r : Condvar T × List T} (hsplit : s.cv.waiters = r.2 ++ r.1.waiters) :
    Prompt (s.woke r) := by
  have hnodup := h.nodup
  rw [hsplit, nodup_append] at hnodup
  have hwoken : ∀ u ∈ r.2, ∃ d, s.stage u = .waiting d := fun u hu =>
    (h.linked u).mp (by rw [hsplit]; exact mem_append_left _ hu)
  refine ⟨⟨fun u e => ?_, h.returned⟩, hnodup.2.1, fun u => ?_, h.lockNodup, fun u => ?_⟩
  all_goals
    simp only [CondSystem.woke]
    split
  · rename_i hu
    obtain ⟨d, hd⟩ := hwoken u hu
    simp [hd, Stage.signal]
  · exact h.ending u e
  · rename_i hu
    obtain ⟨d, hd⟩ := hwoken u hu
    have hout : u ∉ r.1.waiters := fun hmem => hnodup.2.2 u hu u hmem rfl
    simp [hd, Stage.signal, hout]
  · rename_i hu
    rw [← h.linked, hsplit]
    simp [hu]
  · rename_i hu
    obtain ⟨d, hd⟩ := hwoken u hu
    simp [h.queued u, hd, Stage.signal]
  · exact h.queued u

omit [DecidableEq T] in
theorem signaled_out {d : Deadline} (h : Prompt s) (ht : s.stage t = .signaled d) :
    t ∉ s.cv.waiters ∧ t ∉ s.mutex.waiters := by
  rw [h.linked, h.queued, ht]
  simp

end Prompt

theorem condStep_prompt {op : CondOp T} (h : Prompt s) (hlegal : Punctual user s op)
    (hstep : condStep user s op = some s') : Prompt s' := by
  cases op with
  | lock t =>
    simp only [condStep] at hstep
    split at hstep
    · rename_i ht
      cases hstep
      obtain ⟨hcv, hlock⟩ := h.outside_free ht
      exact h.locked (.inl rfl) (erase_of_not_mem hcv).symm hlock (by simp)
    · cases hstep
  | unlock t =>
    simp only [condStep] at hstep
    split at hstep
    · cases hstep
      exact h.unlocked t
    · cases hstep
  | relock t =>
    simp only [condStep] at hstep
    split at hstep
    · rename_i e ht
      cases hstep
      have hcv : t ∉ s.cv.waiters := by simp [h.linked, ht]
      refine h.locked (.inr rfl) (erase_of_not_mem hcv).symm (by simp [h.queued, ht])
        fun e' he => ?_
      exact h.ending t e' (.inr (by rw [ht, he]))
    · cases hstep
  | wait t =>
    simp only [condStep] at hstep
    split at hstep
    · rename_i ht
      obtain ⟨-, ⟨⟩⟩ := ite_none_right_eq_some.mp hstep
      rw [if_neg (by rw [show user t = false from hlegal]; simp)]
      exact h.waiting ht none
    · cases hstep
  | timedwait t start timeoutMs =>
    simp only [condStep] at hstep
    split at hstep
    · rename_i ht
      obtain ⟨-, ⟨⟩⟩ := ite_none_right_eq_some.mp hstep
      exact h.waiting ht _
    · cases hstep
  | resume t =>
    simp only [condStep] at hstep
    split at hstep
    · rename_i d ht
      cases hstep
      obtain ⟨hcv, hlock⟩ := h.signaled_out ht
      simp only [Punctual, ht] at hlegal
      cases d with
      | none => exact h.locked (.inl rfl) (erase_of_not_mem hcv).symm hlock (by simp)
      | some d =>
        simp only [CondSystem.resumed]
        rw [if_neg (UInt64.not_le.mpr hlegal)]
        exact h.locked (.inl rfl) (erase_of_not_mem hcv).symm hlock (by simp)
    · cases hstep
  | expire t =>
    simp only [condStep] at hstep
    split at hstep
    · rename_i start timeout ht
      obtain ⟨hlate, ⟨⟩⟩ := ite_none_right_eq_some.mp hstep
      simp only [CondSystem.resumed]
      rw [if_pos hlate]
      exact h.locked (.inl rfl) rfl (by simp [h.queued, ht]) (by simp)
    · cases hstep
  | signal =>
    cases hstep
    refine h.woke ?_
    cases hw : s.cv.waiters <;> simp [condvarSignal, hw]
  | broadcast =>
    cases hstep
    exact h.woke (by simp [condvarBroadcast])
  | time now =>
    obtain ⟨-, ⟨⟩⟩ := ite_none_right_eq_some.mp hstep
    exact ⟨⟨h.ending, h.returned⟩, h.nodup, h.linked, h.lockNodup, h.queued⟩

/-! ## 条件を破る区間 -/

/-- 放したばかりの mutex は、すぐに取り直せる。 -/
theorem relock_returns {mutex : Mutex T} (howner : mutex.owner = some t) :
    ∃ x, (mutexLock (mutexUnlock mutex t).1 t).2 = .returns x := by
  unfold mutexUnlock
  rw [if_neg (by simp [howner])]
  split
  · rename_i htype
    simp [mutexLock, howner, htype.1]
  · simp [mutexLock, mutexAcquire]

theorem linked_broken {r : Mutex T × Outcome} {e : Ending} (hr : ∃ x, r.2 = .returns x)
    (hlinked : t ∈ s.cv.waiters) : ¬ Kept (s.locked t (some e) r) := by
  obtain ⟨x, hx⟩ := hr
  intro hkept
  have := (hkept.returned ⟨t, e, r.1.owner = some t, t ∈ s.cv.waiters⟩ (by
    simp [CondSystem.locked, hx])).2.1
  simp [hlinked] at this

/-- 外された thread が false を返すことに決まれば、約束は破れる。 -/
theorem late_broken {r : Mutex T × Outcome} : ¬ Kept (s.locked t (some ⟨false, true⟩) r) := by
  intro hkept
  cases hr : r.2 with
  | returns x =>
    have := (hkept.returned ⟨t, ⟨false, true⟩, r.1.owner = some t, t ∈ s.cv.waiters⟩ (by
      simp [CondSystem.locked, hr])).2.2 rfl
    simp at this
  | blocks =>
    have := hkept.ending t ⟨false, true⟩ (.inl (by simp [CondSystem.locked, hr])) rfl
    simp at this

/-- 条件を破る区間は、約束を破る。 -/
theorem punctual_of_kept {op : CondOp T} (hstep : condStep user s op = some s') (hkept : Kept s') :
    Punctual user s op := by
  cases op with
  | wait t =>
    simp only [condStep] at hstep
    split at hstep
    · obtain ⟨howner, ⟨⟩⟩ := ite_none_right_eq_some.mp hstep
      by_contra huser
      rw [if_pos (by simpa [Punctual] using huser)] at hkept
      refine linked_broken (relock_returns howner) ?_ hkept
      simp [CondSystem.entered, CondSystem.unlocked, condvarEnqueue]
    · cases hstep
  | resume t =>
    simp only [condStep] at hstep
    split at hstep
    · rename_i d ht
      cases hstep
      simp only [Punctual, ht]
      match d with
      | none => trivial
      | some _ =>
        by_contra hlate
        simp only [CondSystem.resumed] at hkept
        rw [if_pos (UInt64.not_lt.mp hlate)] at hkept
        exact late_broken hkept
    · cases hstep
  | _ => trivial

/--
**戻った thread は mutex を持ち、待ち行列につながれていない。signal に外された thread は true を返す。**

`condvar_wait` を使うのが kernel thread だけで、外された thread が期限の前に走るかぎり成り立ち、この条件を破る区間は
必ず約束を破る。外されて戻っていない thread は、走れるか、mutex の待ち行列にいるかのどちらかである。
-/
theorem condvar_returns {type : MutexType} {ops : List (CondOp T)}
    (h : Run.Reach (condStep user) (Punctual user) (.init type) ops s) :
    Kept s ∧
    (∀ t d, s.stage t = .signaled d → t ∉ s.cv.waiters ∧
      ∃ s', condStep user s (.resume t) = some s') ∧
    (∀ t e, s.stage t = .locking (some e) → t ∉ s.cv.waiters ∧ t ∈ s.mutex.waiters) ∧
    (∀ t e, s.stage t = .rewoken (some e) → t ∉ s.cv.waiters ∧
      ∃ s', condStep user s (.relock t) = some s') ∧
    ∀ op s', condStep user s op = some s' → (Kept s' ↔ Punctual user s op) := by
  have hs : Prompt s := h.invariant prompt_init
    fun _ _ _ hs hlegal hstep => condStep_prompt hs hlegal hstep
  refine ⟨hs.toKept, fun t d ht => ⟨(hs.signaled_out ht).1, ?_⟩, fun t e ht => ⟨?_, ?_⟩,
    fun t e ht => ⟨?_, ?_⟩, fun op s' hstep => ?_⟩
  · simp only [condStep, ht]
    exact ⟨_, rfl⟩
  · simp [hs.linked, ht]
  · exact (hs.queued t).mpr ⟨_, ht⟩
  · simp [hs.linked, ht]
  · simp only [condStep, ht]
    exact ⟨_, rfl⟩
  · exact ⟨punctual_of_kept hstep, fun hlegal => (condStep_prompt hs hlegal hstep).toKept⟩

end Step

/-- thread 0 が signal で、thread 1 が broadcast で起こされ、期限の前に戻る。 -/
theorem condvar_returns_both : ∃ s : CondSystem Nat,
    Run.Reach (condStep fun _ => false) (Punctual fun _ => false) (.init .normal)
      [.lock 0, .wait 0, .lock 1, .timedwait 1 0 10, .signal, .resume 0, .broadcast, .time 5,
        .resume 1, .unlock 0, .relock 1] s ∧
    s.returns.length = 2 ∧ Kept s :=
  Run.Reach.exists_and (.cons trivial rfl <| .cons rfl rfl <| .cons trivial rfl <|
    .cons trivial rfl <|
    .cons trivial rfl <| .cons trivial rfl <| .cons trivial rfl <| .cons trivial rfl <|
    .cons (show (5 : UInt64) - 0 < 10 by decide) rfl <| .cons trivial rfl <| .cons trivial rfl .nil)
    fun hreach => ⟨rfl, (condvar_returns hreach).1⟩

/--
**user thread は待ち行列につながれたまま戻り、signal に外されても遅れた thread は false を返す。**

初めの実行では、user thread 0 の `condvar_wait` がすぐに戻る。後の実行では、期限 10 の thread 0 が時刻 3 に外され、
時刻 10 に走る。
-/
theorem condvar_broken :
    (∃ s : CondSystem Nat, Run.Reach (condStep fun _ => true) (fun _ _ => True) (.init .normal)
        [.lock 0, .wait 0] s ∧
      ∃ ret ∈ s.returns, ret.thread = 0 ∧ ret.linked = true ∧ s.cv.waiters = [0]) ∧
    ∃ s : CondSystem Nat, Run.Reach (condStep fun _ => false) (fun _ _ => True) (.init .normal)
        [.lock 0, .timedwait 0 0 10, .time 3, .signal, .time 10, .resume 0] s ∧
      ∃ ret ∈ s.returns, ret.thread = 0 ∧ ret.ending.signaled = true ∧
        ret.ending.result = false := by
  refine ⟨⟨_, Run.reach_of_execute rfl, _, mem_singleton_self _, rfl, rfl, rfl⟩,
    _, Run.reach_of_execute rfl, _, mem_singleton_self _, rfl, rfl, rfl⟩

end Alos.Sync
