import Alos.Sched.Consistency

/-!
# sleep queue の順序

眠りに入った順の番号を状態に添えて、sleep queue が `wake_tick` の順に並び、同じ時刻なら眠りに入った順に並ぶことを
示す。`scheduler_wake_sleeping` は、時刻の来た前半をその順に run queue に加え、後半を残す。

* `sleep_queue_stable` — 眠る、起こす、CPU を譲るをどう並べても、この順序は保たれる
-/

namespace Alos.Sched

open List

variable {timed : Prop} {D : Tid → Thread → Prop} {s : State} {r : Lists}
variable {s' : State} {r' : Lists} {t : Tid}

/-! ## 起こす -/

/-- 時刻の来た `woken` を順に run queue に加え、残りを sleep queue に残した。 -/
structure Woken (s : State) (r : Lists) (woken : List Tid) (s' : State) (r' : Lists) : Prop where
  sleep : r.sleep = woken ++ r'.sleep
  due : ∀ u ∈ woken, (s.threads u).wakeTick ≤ s.ticks
  run : ∀ p, r'.run p = (woken.filter fun u => (s.threads u).priority = p).reverse ++ r.run p
  ticks : s'.ticks = s.ticks
  fields : ∀ u, (s'.threads u).wakeTick = (s.threads u).wakeTick ∧
    (s'.threads u).priority = (s.threads u).priority

theorem Woken.awaken {woken rest : List Tid} (h : Woken s r woken s' r') (hs : r'.sleep = t :: rest)
    (hle : (s'.threads t).wakeTick ≤ s'.ticks) :
    Woken s r (woken ++ [t]) (s'.awaken t) (r'.awaken (s'.threads t).priority t rest) := by
  rw [h.ticks, (h.fields t).1] at hle
  refine ⟨?_, ?_, fun p => ?_, by simp [State.awaken, h.ticks], fun u => ?_⟩
  · rw [h.sleep, hs, append_cons]
    rfl
  · simpa [or_imp, forall_and] using ⟨h.due, hle⟩
  · rw [(h.fields t).2]
    by_cases hp : p = (s.threads t).priority
    · subst hp
      simp [Lists.awaken, Lists.enqueue, h.run]
    · simp [Lists.awaken, Lists.enqueue, h.run, hp, Ne.symm hp]
  · by_cases hut : u = t
    · subst hut
      rw [State.awaken, enqueue_self _ _ (by simp), modify_self]
      exact h.fields u
    · rw [State.awaken, enqueue_of_ne _ _ hut, modify_of_ne _ _ _ hut]
      exact h.fields u

theorem Inv.wake_spec (hD : Closed D) (h : Inv timed D s r) : ∃ s' r' woken,
    schedulerWakeSleeping s = some s' ∧ Inv timed D s' r' ∧ Woken s r woken s' r' ∧
    ∀ u ∈ r'.sleep, s.ticks < (s.threads u).wakeTick := by
  obtain ⟨s', r', hs', ⟨h', woken, hwoken⟩, hlater⟩ := wakeSleepingLoop_rule
    (P := fun s' r' => Inv _ D s' r' ∧ ∃ woken, Woken s r woken s' r')
    (fun _ _ h => h.1.settled.queued)
    (fun _ _ _ _ ⟨h, _, hw⟩ hs hle => ⟨h.awaken hD hs, _, hw.awaken hs hle⟩)
    ⟨h, [], rfl, by simp, by simp, rfl, fun _ => ⟨rfl, rfl⟩⟩ h.settled.sleep_length
  refine ⟨s', r', woken, hs', h', hwoken, fun u hu => ?_⟩
  rw [← hwoken.ticks, ← (hwoken.fields u).1]
  exact UInt64.not_le.mp (hlater u hu)

/-! ## 眠りに入った順 -/

/-- `stamp` は、thread が最後に `thread_sleep_ticks` を呼んだ順の番号。 -/
structure Sleepers where
  sched : State
  arrivals : Nat
  stamp : Tid → Nat

inductive SleepOp where
  | sleep (ticks : UInt64)
  | wake (now : UInt64)
  | schedule

def Sleepers.step (S : Sleepers) : SleepOp → Option Sleepers
  | .sleep ticks =>
    if S.sched.Outside then
      (threadSleepTicks S.sched ticks).map
        (⟨·, S.arrivals + 1, Function.update S.stamp S.sched.current S.arrivals⟩)
    else none
  | .wake now =>
    if S.sched.ticks ≤ now then
      (schedulerWakeSleeping { S.sched with ticks := now }).map ({ S with sched := · })
    else none
  | .schedule => some { S with sched := schedulerSchedule S.sched }

/-- 早く起きるか、同じ時刻で先に眠った。 -/
def Sleepers.Before (S : Sleepers) (t u : Tid) : Prop :=
  (S.sched.threads t).wakeTick < (S.sched.threads u).wakeTick ∨
    ((S.sched.threads t).wakeTick = (S.sched.threads u).wakeTick ∧ S.stamp t < S.stamp u)

structure Sleepers.Ordered (S : Sleepers) (r : Lists) : Prop where
  inv : Inv True (fun _ _ => True) S.sched r
  before : r.sleep.Pairwise S.Before
  stamps : ∀ u ∈ r.sleep, S.stamp u < S.arrivals

variable {S S' : Sleepers}

theorem Sleepers.Before.congr {u : Tid} (h : S.Before t u)
    (hsame : ∀ v, v = t ∨ v = u → (S'.sched.threads v).wakeTick = (S.sched.threads v).wakeTick ∧
      S'.stamp v = S.stamp v) : S'.Before t u := by
  obtain ⟨ht, ht'⟩ := hsame t (.inl rfl)
  obtain ⟨hu, hu'⟩ := hsame u (.inr rfl)
  rw [Sleepers.Before, ht, hu, ht', hu']
  exact h

/-- 眠る thread は、起きる時刻が同じものの後に入り、番号は最も大きい。 -/
theorem Sleepers.Ordered.sleep (h : S.Ordered r) (h' : Inv True (fun _ _ => True) s' r')
    (hkeep : ∀ u, u ≠ S.sched.current → (s'.threads u).wakeTick = (S.sched.threads u).wakeTick)
    (hsleep : r'.sleep = r.sleep ∨ ∃ a b, r.sleep = a ++ b ∧ r'.sleep = a ++ S.sched.current :: b ∧
      ∀ u ∈ b, ¬(s'.threads u).wakeTick ≤ (s'.threads S.sched.current).wakeTick) :
    Sleepers.Ordered ⟨s', S.arrivals + 1, Function.update S.stamp S.sched.current S.arrivals⟩
      r' := by
  have hne : ∀ u ∈ r.sleep, u ≠ S.sched.current := fun u hu he => h.inv.loose.2 (he ▸ hu)
  have hstamp : ∀ u ∈ r.sleep, Function.update S.stamp _ S.arrivals u = S.stamp u :=
    fun u hu => Function.update_of_ne (hne u hu) _ _
  have hold : r.sleep.Pairwise (Sleepers.Before
      ⟨s', S.arrivals + 1, Function.update S.stamp S.sched.current S.arrivals⟩) := by
    refine h.before.imp_of_mem fun {t u} ht hu hb => hb.congr fun v hv => ?_
    have hmem : v ∈ r.sleep := by rcases hv with rfl | rfl <;> assumption
    exact ⟨hkeep v (hne v hmem), hstamp v hmem⟩
  have hlt : ∀ u ∈ r.sleep, Function.update S.stamp _ _ u < S.arrivals :=
    fun u hu => hstamp u hu ▸ h.stamps u hu
  rcases hsleep with hsleep | ⟨a, b, hsplit, hsleep, hb⟩
  · exact ⟨h', hsleep ▸ hold, hsleep ▸ fun u hu => Nat.lt_succ_of_lt (hlt u hu)⟩
  have hsorted := (pairwise_append.mp (hsleep ▸ h'.settled.queued.sorted)).2.2
  refine ⟨h', hsleep ▸ Queued.pairwise_insert (hsplit ▸ hold) (fun u hu => ?_)
    (fun u hu => .inl (UInt64.not_le.mp (hb u hu))), fun u hu => ?_⟩
  · refine (UInt64.lt_or_eq_of_le (hsorted u hu _ mem_cons_self)).imp_right fun he => ⟨he, ?_⟩
    simpa using hlt u (hsplit ▸ mem_append_left b hu)
  · by_cases huc : u = S.sched.current
    · simp [huc]
    · rw [hsleep] at hu
      refine Nat.lt_succ_of_lt (hlt u ?_)
      rw [hsplit]
      simpa [huc] using hu

theorem Sleepers.Ordered.step {op : SleepOp} (h : S.Ordered r) (hstep : S.step op = some S') :
    ∃ r', S'.Ordered r' := by
  obtain ⟨hinv, hbefore, hstamps⟩ := h
  cases op with
  | sleep ticks =>
    obtain ⟨hout, hmap⟩ := Option.ite_none_right_eq_some.mp hstep
    obtain ⟨s', r', hs', h', hkeep, hsleep⟩ := hinv.sleep closed_true hout _
    rw [hs'] at hmap
    obtain rfl := Option.some.inj hmap
    exact ⟨r', Sleepers.Ordered.sleep ⟨hinv, hbefore, hstamps⟩ h' hkeep hsleep⟩
  | wake now =>
    obtain ⟨-, hmap⟩ := Option.ite_none_right_eq_some.mp hstep
    have hnow : Inv True (fun _ _ => True) { S.sched with ticks := now } r :=
      hinv.congr rfl rfl rfl rfl rfl rfl rfl rfl rfl
    obtain ⟨s', r', woken, hs', h', hwoken, -⟩ := hnow.wake_spec closed_true
    rw [hs'] at hmap
    obtain rfl := Option.some.inj hmap
    have hsub : ∀ u ∈ r'.sleep, u ∈ r.sleep := fun u hu => hwoken.sleep ▸ mem_append_right _ hu
    refine ⟨r', h', ?_, fun u hu => hstamps u (hsub u hu)⟩
    rw [hwoken.sleep] at hbefore
    exact (pairwise_append.mp hbefore).2.1.imp fun hb => hb.congr fun v _ =>
      ⟨(hwoken.fields v).1, rfl⟩
  | schedule =>
    obtain rfl := Option.some.inj hstep
    obtain ⟨r', h', hsleep⟩ := hinv.schedule closed_true
    refine ⟨r', h', ?_, hsleep ▸ hstamps⟩
    rw [hsleep]
    exact hbefore.imp fun hb => hb.congr fun v _ => ⟨schedule_wakeTick, rfl⟩

/--
**sleep queue は `wake_tick` の順に並び、同じ時刻なら眠りに入った順に並ぶ。`scheduler_wake_sleeping` は、
`wake_tick` が現在の時刻以下の thread だけを、その順に一度ずつ run queue に加え、残りを残す。**
-/
theorem sleep_queue_stable {start now : UInt64} {before : List Op} {ops : List SleepOp}
    (hreach : Run.Reach step Tame (schedulerInit start) before s) (hempty : s.sleepQueue = none)
    (h : Run.Reach Sleepers.step (fun _ _ => True) ⟨s, 0, fun _ => 0⟩ ops S) :
    ∃ r, Queued S.sched r ∧ r.sleep.Pairwise S.Before ∧ ∃ s' r' woken,
      schedulerWakeSleeping { S.sched with ticks := now } = some s' ∧ Queued s' r' ∧
      Woken { S.sched with ticks := now } r woken s' r' ∧
      ∀ u ∈ r'.sleep, now < (S.sched.threads u).wakeTick := by
  obtain ⟨r₀, h₀⟩ := tame_inv hreach
  have hnil := h₀.settled.queued.chain.eq_nil_iff.mp hempty
  obtain ⟨r, hinv, hbefore, -⟩ := h.invariant (P := fun S => ∃ r, S.Ordered r)
    ⟨r₀, h₀, by simp [hnil], by simp [hnil]⟩ fun _ _ _ ⟨_, ho⟩ _ hs => ho.step hs
  have hnow : Inv True (fun _ _ => True) { S.sched with ticks := now } r :=
    hinv.congr rfl rfl rfl rfl rfl rfl rfl rfl rfl
  obtain ⟨s', r', woken, hs', h', hwoken, hlater⟩ := hnow.wake_spec closed_true
  exact ⟨r, hinv.settled.queued, hbefore, s', r', woken, hs', h'.settled.queued, hwoken, hlater⟩

/-- 三つの thread が順に眠り、二つの時刻は同じである。 -/
theorem sleep_queue_stable_three : ∃ s S, Run.Reach step Tame (schedulerInit 0)
      [.start, .create none .normal, .create none .normal] s ∧ s.sleepQueue = none ∧
    Run.Reach Sleepers.step (fun _ _ => True) ⟨s, 0, fun _ => 0⟩ [.sleep 7, .sleep 5, .sleep 7] S ∧
    S.sched.sleepQueue = some 3 ∧
    ∃ r, Queued S.sched r ∧ r.sleep.Pairwise S.Before ∧ ∃ s' r' woken,
      schedulerWakeSleeping { S.sched with ticks := 6 } = some s' ∧ Queued s' r' ∧
      Woken { S.sched with ticks := 6 } r woken s' r' ∧
      ∀ u ∈ r'.sleep, 6 < (S.sched.threads u).wakeTick := by
  refine ⟨_, _, Run.reach_get ?_, ?_, Run.reach_get ?_, ?_,
    sleep_queue_stable (Run.reach_get _) ?_ (Run.reach_get _)⟩
  all_goals decide +kernel

end Alos.Sched
