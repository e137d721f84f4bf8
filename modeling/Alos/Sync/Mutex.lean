import Alos.Lib.Run
import Alos.Lib.Words
import Mathlib.Logic.Function.Basic
import Mathlib.Data.List.Nodup

/-!
# mutex（`kernel/sync.c`）

`mutex_lock` は、割り込みを禁じた区間を一続きに実行し、`scheduler_schedule` で CPU を譲るところで切れる。
起こされた thread は、続きの区間で `owner` をもう一度調べる。そこで、thread ごとに、どの区間の前にいるかを
持つ。待ち行列の `tail` はどこでも辿られないので、`head` からの列だけを持つ。

* `mutex_safe` — 入れ子が 2³² に届かないかぎり、排他であり、`recursion_count` は入れ子の深さであり、
  起こし忘れはない
* `mutex_overflow` — 2³² 回の入れ子で `recursion_count` が一周し、二つの thread が同時に入る
-/

namespace Alos.Sync

open Function List

inductive MutexType where
  | normal
  | recursive
  | errorcheck
  deriving DecidableEq, Repr

structure Mutex (T : Type) where
  owner : Option T
  recursionCount : UInt32
  type : MutexType
  waiters : List T

/-- 区間の終わり方。値を返すか、待ち行列に入って CPU を譲る。 -/
inductive Outcome where
  | returns (r : Int)
  | blocks
  deriving DecidableEq, Repr

section Functions

variable {T : Type} [DecidableEq T]

def mutexInit (type : MutexType) : Mutex T := ⟨none, 0, type, []⟩

/-- `mutex_lock` のループの一周。 -/
def mutexAcquire (mutex : Mutex T) (current : T) : Mutex T × Outcome :=
  if mutex.owner = none then
    ({ mutex with owner := some current, recursionCount := 1 }, .returns 0)
  else ({ mutex with waiters := mutex.waiters ++ [current] }, .blocks)

def mutexLock (mutex : Mutex T) (current : T) : Mutex T × Outcome :=
  if mutex.owner = some current then
    match mutex.type with
    | .recursive => ({ mutex with recursionCount := mutex.recursionCount + 1 }, .returns 0)
    | .errorcheck => (mutex, .returns (-1))
    -- 自分を待って止まる
    | .normal => mutexAcquire mutex current
  else mutexAcquire mutex current

def mutexTrylock (mutex : Mutex T) (current : T) : Mutex T × Bool :=
  if mutex.owner = some current ∧ mutex.type = .recursive then
    ({ mutex with recursionCount := mutex.recursionCount + 1 }, true)
  else if mutex.owner = none then
    ({ mutex with owner := some current, recursionCount := 1 }, true)
  else (mutex, false)

/-- 返り値と、起こした thread。 -/
def mutexUnlock (mutex : Mutex T) (current : T) : Mutex T × Int × Option T :=
  if mutex.owner ≠ some current then (mutex, -1, none)
  else if mutex.type = .recursive ∧ 1 < mutex.recursionCount then
    ({ mutex with recursionCount := mutex.recursionCount - 1 }, 0, none)
  else
    ({ mutex with owner := none, recursionCount := 0, waiters := mutex.waiters.tail }, 0,
      mutex.waiters.head?)

end Functions

/-! ## 区間の交錯 -/

/-- thread の位置。`mutex_lock` の外にいるか、待ち行列にいるか、起こされて調べ直す前である。 -/
inductive Place (M : Type) where
  | outside
  | waiting (m : M)
  | woken (m : M)
  deriving DecidableEq

/-- mutex と thread の位置。`held m t` は、成功した lock の数から成功した unlock の数を引いたものである。 -/
structure Locks (T M : Type) where
  mutexes : M → Mutex T
  place : T → Place M
  held : M → T → Nat

inductive LockOp (T M : Type) where
  | lock (t : T) (m : M)
  /-- 起こされた thread が、ループの先頭に戻る。 -/
  | retest (t : T)
  | trylock (t : T) (m : M)
  | unlock (t : T) (m : M)

section Step

variable {T M : Type} [DecidableEq T] [DecidableEq M]

def Locks.init (type : M → MutexType) : Locks T M :=
  ⟨fun m => mutexInit (type m), fun _ => .outside, fun _ _ => 0⟩

/-- `mutex_lock` の区間の結果を書き込む。 -/
def Locks.locked (s : Locks T M) (t : T) (m : M) (r : Mutex T × Outcome) : Locks T M where
  mutexes := Function.update s.mutexes m r.1
  place := Function.update s.place t (if r.2 = .blocks then .waiting m else .outside)
  held := if r.2 = .returns 0
    then Function.update s.held m (Function.update (s.held m) t (s.held m t + 1)) else s.held

def Locks.unlocked (s : Locks T M) (t : T) (m : M) (r : Mutex T × Int × Option T) : Locks T M where
  mutexes := Function.update s.mutexes m r.1
  place := match r.2.2 with
    | none => s.place
    | some w => Function.update s.place w (.woken m)
  held := if r.2.1 = 0
    then Function.update s.held m (Function.update (s.held m) t (s.held m t - 1)) else s.held

/-- 一つの区間。待っている thread は動かない。 -/
def lockStep (s : Locks T M) : LockOp T M → Option (Locks T M)
  | .lock t m =>
    if s.place t = .outside then some (s.locked t m (mutexLock (s.mutexes m) t)) else none
  | .retest t =>
    match s.place t with
    | .woken m => some (s.locked t m (mutexAcquire (s.mutexes m) t))
    | _ => none
  | .trylock t m =>
    if s.place t = .outside then
      let r := mutexTrylock (s.mutexes m) t
      some (s.locked t m (r.1, .returns (if r.2 then 0 else -1)))
    else none
  | .unlock t m =>
    if s.place t = .outside then some (s.unlocked t m (mutexUnlock (s.mutexes m) t)) else none

/-- 入れ子の深さが 2³² に届かない。 -/
def Shallow (s : Locks T M) : LockOp T M → Prop
  | .lock t m => (s.mutexes m).owner = some t → (s.mutexes m).recursionCount.toNat + 1 < 2 ^ 32
  | .trylock t m => (s.mutexes m).owner = some t → (s.mutexes m).recursionCount.toNat + 1 < 2 ^ 32
  | _ => True

/-! ## 一つの区間にできること -/

/-- 成功した lock の後。 -/
def Locks.entered (s : Locks T M) (t : T) (m : M) (mutex : Mutex T) : Locks T M where
  mutexes := Function.update s.mutexes m mutex
  place := Function.update s.place t .outside
  held := Function.update s.held m (Function.update (s.held m) t (s.held m t + 1))

/-- 成功した unlock の後。 -/
def Locks.left (s : Locks T M) (t : T) (m : M) (mutex : Mutex T) (place : T → Place M) :
    Locks T M where
  mutexes := Function.update s.mutexes m mutex
  place := place
  held := Function.update s.held m (Function.update (s.held m) t (s.held m t - 1))

/-- thread `t` が mutex `m` について一区間を実行した。 -/
inductive Moves (s : Locks T M) (t : T) (m : M) : Locks T M → Prop
  | same : Moves s t m s
  | acquired : (s.mutexes m).owner = none →
      Moves s t m (s.entered t m { s.mutexes m with owner := some t, recursionCount := 1 })
  | deepened : (s.mutexes m).owner = some t → (s.mutexes m).type = .recursive →
      (s.mutexes m).recursionCount.toNat + 1 < 2 ^ 32 →
      Moves s t m (s.entered t m
        { s.mutexes m with recursionCount := (s.mutexes m).recursionCount + 1 })
  | blocked : (s.mutexes m).owner ≠ none →
      Moves s t m ⟨Function.update s.mutexes m
        { s.mutexes m with waiters := (s.mutexes m).waiters ++ [t] },
        Function.update s.place t (.waiting m), s.held⟩
  | reduced : (s.mutexes m).owner = some t → (s.mutexes m).type = .recursive →
      1 < (s.mutexes m).recursionCount →
      Moves s t m (s.left t m
        { s.mutexes m with recursionCount := (s.mutexes m).recursionCount - 1 } s.place)
  | released : (s.mutexes m).owner = some t →
      ¬((s.mutexes m).type = .recursive ∧ 1 < (s.mutexes m).recursionCount) →
      Moves s t m (s.left t m { s.mutexes m with
          owner := none, recursionCount := 0, waiters := (s.mutexes m).waiters.tail }
        (match (s.mutexes m).waiters.head? with
          | none => s.place
          | some w => Function.update s.place w (.woken m)))

variable {s s' : Locks T M} {t : T} {m : M}

theorem locked_failed (h : s.place t = .outside) :
    s.locked t m (s.mutexes m, .returns (-1)) = s := by
  have hplace : update s.place t .outside = s.place := by
    rw [← h, update_eq_self]
  simp [Locks.locked, hplace]

theorem moves_acquire : Moves s t m (s.locked t m (mutexAcquire (s.mutexes m) t)) := by
  unfold mutexAcquire
  split
  · exact .acquired ‹_›
  · exact .blocked ‹_›

theorem moves_lock (h : s.place t = .outside) (hs : Shallow s (.lock t m)) :
    Moves s t m (s.locked t m (mutexLock (s.mutexes m) t)) := by
  unfold mutexLock
  split
  · rename_i howner
    split
    · exact .deepened howner ‹_› (hs howner)
    · rw [locked_failed h]
      exact .same
    · exact moves_acquire
  · exact moves_acquire

theorem moves_trylock (h : s.place t = .outside) (hs : Shallow s (.trylock t m)) :
    Moves s t m (s.locked t m ((mutexTrylock (s.mutexes m) t).1,
      .returns (if (mutexTrylock (s.mutexes m) t).2 then 0 else -1))) := by
  unfold mutexTrylock
  split
  · rename_i hrec
    exact .deepened hrec.1 hrec.2 (hs hrec.1)
  · split
    · exact .acquired ‹_›
    · show Moves s t m (s.locked t m (s.mutexes m, .returns (-1)))
      rw [locked_failed h]
      exact .same

theorem moves_unlock : Moves s t m (s.unlocked t m (mutexUnlock (s.mutexes m) t)) := by
  unfold mutexUnlock
  split
  · have hsame : s.unlocked t m (s.mutexes m, -1, none) = s := by
      simp [Locks.unlocked]
    rw [hsame]
    exact .same
  · rename_i howner
    split
    · rename_i hrec
      exact .reduced (not_not.mp howner) hrec.1 hrec.2
    · exact .released (not_not.mp howner) ‹_›

/-- 一区間は、待っていない thread の一つの動きである。 -/
theorem lockStep_moves {op : LockOp T M} (h : lockStep s op = some s') (hs : Shallow s op) :
    ∃ t m, (s.place t = .outside ∨ s.place t = .woken m) ∧ Moves s t m s' := by
  cases op with
  | lock t m =>
    obtain ⟨hp, ⟨⟩⟩ := Option.ite_none_right_eq_some.mp h
    exact ⟨t, m, .inl hp, moves_lock hp hs⟩
  | retest t =>
    simp only [lockStep] at h
    split at h
    · cases h
      exact ⟨t, _, .inr ‹_›, moves_acquire⟩
    · cases h
  | trylock t m =>
    obtain ⟨hp, ⟨⟩⟩ := Option.ite_none_right_eq_some.mp h
    exact ⟨t, m, .inl hp, moves_trylock hp hs⟩
  | unlock t m =>
    obtain ⟨hp, ⟨⟩⟩ := Option.ite_none_right_eq_some.mp h
    exact ⟨t, m, .inl hp, moves_unlock⟩

/-! ## 不変条件 -/

/-- mutex `m` の不変条件。 -/
structure Exclusive (s : Locks T M) (m : M) : Prop where
  nodup : (s.mutexes m).waiters.Nodup
  mem_iff : ∀ t, t ∈ (s.mutexes m).waiters ↔ s.place t = .waiting m
  free : (s.mutexes m).owner = none → (s.mutexes m).recursionCount = 0 ∧ ∀ t, s.held m t = 0
  owned : ∀ t, (s.mutexes m).owner = some t → 0 < s.held m t ∧
    (s.mutexes m).recursionCount.toNat = s.held m t ∧ ∀ u, u ≠ t → s.held m u = 0
  single : ∀ t, (s.mutexes m).owner = some t → (s.mutexes m).type ≠ .recursive → s.held m t = 1
  pending : (s.mutexes m).owner = none → (s.mutexes m).waiters ≠ [] → ∃ t, s.place t = .woken m

/-- `n` を待つ thread は変わらず、`n` のために起こされた thread は起こされたままである。 -/
def Undisturbed (n : M) (place place' : T → Place M) : Prop :=
  (∀ t, place' t = .waiting n ↔ place t = .waiting n) ∧
    ∀ t, place t = .woken n → place' t = .woken n

omit [DecidableEq M] in
theorem undisturbed_update {n : M} {place : T → Place M} {p : Place M}
    (hwait : place t ≠ .waiting n) (hwoken : place t ≠ .woken n) (hp : p ≠ .waiting n) :
    Undisturbed n place (update place t p) := by
  constructor <;> intro u <;> by_cases hu : u = t
  · subst hu
    simp [hwait, hp]
  · rw [update_of_ne hu]
  · subst hu
    exact fun h => absurd h hwoken
  · rw [update_of_ne hu]
    exact id

omit [DecidableEq T] [DecidableEq M] in
/-- 別の mutex の区間は、`m` の不変条件に触れない。 -/
theorem Exclusive.frame (h : Exclusive s m) (hmutex : s'.mutexes m = s.mutexes m)
    (hheld : s'.held m = s.held m) (hplace : Undisturbed m s.place s'.place) : Exclusive s' m := by
  refine ⟨?_, ?_, ?_, ?_, ?_, ?_⟩ <;> rw [hmutex]
  · exact h.nodup
  · intro t
    rw [h.mem_iff, hplace.1]
  · rw [hheld]
    exact h.free
  · rw [hheld]
    exact h.owned
  · rw [hheld]
    exact h.single
  · intro h1 h2
    obtain ⟨t, ht⟩ := h.pending h1 h2
    exact ⟨t, hplace.2 t ht⟩

theorem Moves.other {n : M} (h : Moves s t m s') (hp : s.place t = .outside ∨ s.place t = .woken m)
    (hm : Exclusive s m) (hn : n ≠ m) (hs : Exclusive s n) : Exclusive s' n := by
  have hwait : s.place t ≠ .waiting n := by rcases hp with h | h <;> simp [h]
  have hwoken : s.place t ≠ .woken n := by rcases hp with h | h <;> simp [h, hn.symm]
  cases h with
  | same => exact hs
  | acquired _ | deepened _ _ _ =>
    exact hs.frame (update_of_ne hn _ _) (update_of_ne hn _ _)
      (undisturbed_update hwait hwoken (by simp))
  | blocked _ =>
    exact hs.frame (update_of_ne hn _ _) rfl (undisturbed_update hwait hwoken (by simp [hn.symm]))
  | reduced _ _ _ =>
    exact hs.frame (update_of_ne hn _ _) (update_of_ne hn _ _) ⟨fun _ => Iff.rfl, fun _ h => h⟩
  | released _ _ =>
    refine hs.frame (update_of_ne hn _ _) (update_of_ne hn _ _) ?_
    cases hw : (s.mutexes m).waiters.head? with
    | none => exact ⟨fun _ => Iff.rfl, fun _ h => h⟩
    | some w =>
      -- 起こされるのは `m` を待っていた thread である
      have hwait := (hm.mem_iff w).mp (mem_of_head? hw)
      exact undisturbed_update (by simp [hwait, hn.symm]) (by simp [hwait]) (by simp)

/-- 最後の unlock は mutex を空け、先頭の thread を起こす。 -/
theorem Exclusive.released (hs : Exclusive s m) (howner : (s.mutexes m).owner = some t)
    (hlast : ¬((s.mutexes m).type = .recursive ∧ 1 < (s.mutexes m).recursionCount)) :
    Exclusive (s.left t m { s.mutexes m with
        owner := none, recursionCount := 0, waiters := (s.mutexes m).waiters.tail }
      (match (s.mutexes m).waiters.head? with
        | none => s.place
        | some w => update s.place w (.woken m))) m := by
  obtain ⟨hpos, hcount, hother⟩ := hs.owned t howner
  -- 最後の unlock なので、入れ子の深さは 1 である
  have hone : s.held m t = 1 := by
    by_cases htype : (s.mutexes m).type = .recursive
    · have hle : ¬1 < (s.mutexes m).recursionCount := fun h => hlast ⟨htype, h⟩
      rw [UInt32.lt_iff_toNat_lt, UInt32.toNat_one] at hle
      omega
    · exact hs.single t howner htype
  have hzero : ∀ u, update (s.held m) t (s.held m t - 1) u = 0 := by
    intro u
    by_cases hu : u = t
    · subst hu
      rw [update_self, hone]
    · rw [update_of_ne hu, hother u hu]
  have hnodup := hs.nodup
  have hmem_iff := hs.mem_iff
  refine ⟨?_, ?_, ?_, ?_, ?_, ?_⟩ <;>
    simp only [Locks.left, update_self, reduceCtorEq, false_implies, implies_true]
  · exact hnodup.tail
  · intro u
    cases hw : (s.mutexes m).waiters with
    | nil =>
      show u ∈ [] ↔ s.place u = .waiting m
      rw [← hmem_iff, hw]
    | cons w rest =>
      rw [hw] at hnodup
      simp only [tail_cons, head?_cons]
      by_cases hu : u = w
      · subst hu
        simp [(nodup_cons.mp hnodup).1]
      · rw [update_of_ne hu, ← hmem_iff, hw]
        simp [hu]
  · exact fun _ => ⟨trivial, hzero⟩
  · intro _ hne
    cases hw : (s.mutexes m).waiters with
    | nil =>
      rw [hw] at hne
      exact absurd rfl hne
    | cons w rest => exact ⟨w, by simp⟩

theorem Moves.self (h : Moves s t m s') (hp : s.place t = .outside ∨ s.place t = .woken m)
    (hs : Exclusive s m) : Exclusive s' m := by
  have ht : t ∉ (s.mutexes m).waiters := by
    rw [hs.mem_iff]
    rcases hp with h | h <;> simp [h]
  have hmem : ∀ {p : Place M}, p ≠ .waiting m → ∀ u, u ∈ (s.mutexes m).waiters ↔
      update s.place t p u = .waiting m := by
    intro p h1 u
    by_cases hu : u = t
    · subst hu
      simp [ht, h1]
    · rw [update_of_ne hu, hs.mem_iff]
  cases h with
  | same => exact hs
  | acquired howner =>
    obtain ⟨-, hzero⟩ := hs.free howner
    refine ⟨?_, ?_, ?_, ?_, ?_, ?_⟩ <;>
      simp only [Locks.entered, update_self, reduceCtorEq, false_implies]
    · exact hs.nodup
    · exact hmem (by simp)
    · rintro u ⟨⟩
      refine ⟨by simp, by simp [hzero], fun u hu => ?_⟩
      rw [update_of_ne hu, hzero]
    · rintro u ⟨⟩ -
      simp [hzero]
  | deepened howner htype hlt =>
    obtain ⟨hpos, hcount, hother⟩ := hs.owned t howner
    refine ⟨?_, ?_, ?_, ?_, ?_, ?_⟩ <;>
      simp only [Locks.entered, update_self, howner, reduceCtorEq, false_implies]
    · exact hs.nodup
    · exact hmem (by simp)
    · rintro u ⟨⟩
      refine ⟨by simp, ?_, fun u hu => ?_⟩
      · rw [update_self, Words.toNat_succ hlt, hcount]
      · rw [update_of_ne hu, hother u hu]
    · exact fun u _ hne => absurd htype hne
  | blocked howner =>
    refine ⟨?_, ?_, ?_, ?_, ?_, ?_⟩ <;> simp only [update_self]
    · exact hs.nodup.append (nodup_singleton t) (disjoint_singleton.mpr ht)
    · intro u
      by_cases hu : u = t
      · subst hu
        simp
      · rw [mem_append, hs.mem_iff]
        simp [hu]
    · exact fun h => absurd h howner
    · exact hs.owned
    · exact hs.single
    · exact fun h => absurd h howner
  | reduced howner htype hlt =>
    obtain ⟨hpos, hcount, hother⟩ := hs.owned t howner
    have hlt' : 1 < s.held m t := by
      rw [← hcount]
      simpa [UInt32.lt_iff_toNat_lt] using hlt
    refine ⟨?_, ?_, ?_, ?_, ?_, ?_⟩ <;>
      simp only [Locks.left, update_self, howner, reduceCtorEq, false_implies]
    · exact hs.nodup
    · exact hs.mem_iff
    · rintro u ⟨⟩
      refine ⟨by rw [update_self]; omega, ?_, fun u hu => ?_⟩
      · rw [update_self, Words.toNat_pred (by omega), hcount]
      · rw [update_of_ne hu, hother u hu]
    · exact fun u _ hne => absurd htype hne
  | released howner hlast => exact hs.released howner hlast

/-- **一つの区間は、すべての mutex の不変条件を保つ。** -/
theorem lockStep_exclusive {op : LockOp T M} (h : lockStep s op = some s') (hl : Shallow s op)
    (hs : ∀ m, Exclusive s m) (n : M) : Exclusive s' n := by
  obtain ⟨t, m, hp, hmoves⟩ := lockStep_moves h hl
  by_cases hn : n = m
  · subst hn
    exact hmoves.self hp (hs n)
  · exact hmoves.other hp (hs m) hn (hs n)

omit [DecidableEq T] [DecidableEq M] in
theorem exclusive_init (type : M → MutexType) (m : M) :
    Exclusive (Locks.init type : Locks T M) m := by
  refine ⟨?_, ?_, ?_, ?_, ?_, ?_⟩ <;> simp [Locks.init, mutexInit]

/--
**入れ子が 2³² に届かないかぎり、mutex は排他であり、起こし忘れもない。**

lock と unlock の間にいる thread は高々一つで、`recursion_count` はその入れ子の深さである。持ち主でない
unlock は -1 を返して何も変えない。誰も持っていないのに待つ thread があれば、起こされてまだ調べ直していない
thread がある。
-/
theorem mutex_safe {type : M → MutexType} {ops : List (LockOp T M)}
    (h : Run.Reach lockStep Shallow (Locks.init type) ops s) (m : M) :
    (∀ t u, 0 < s.held m t → 0 < s.held m u → t = u) ∧
    (∀ t, (s.mutexes m).owner = some t → (s.mutexes m).recursionCount.toNat = s.held m t) ∧
    ((s.mutexes m).owner = none → (s.mutexes m).recursionCount = 0 ∧ ∀ t, s.held m t = 0) ∧
    (∀ t, (s.mutexes m).owner ≠ some t → mutexUnlock (s.mutexes m) t = (s.mutexes m, -1, none)) ∧
    ((s.mutexes m).owner = none → (s.mutexes m).waiters ≠ [] → ∃ t, s.place t = .woken m) := by
  have hs : Exclusive s m := h.invariant (P := fun s => ∀ m, Exclusive s m) (exclusive_init type)
    (fun _ _ _ hs hl hstep => lockStep_exclusive hstep hl hs) m
  refine ⟨?_, fun t ht => (hs.owned t ht).2.1, hs.free, fun t ht => if_pos ht, hs.pending⟩
  intro t u ht hu
  cases howner : (s.mutexes m).owner with
  | none =>
    have := (hs.free howner).2 t
    omega
  | some w =>
    obtain ⟨-, -, hother⟩ := hs.owned w howner
    have htw : t = w := by_contra fun hne => absurd (hother t hne) (by omega)
    have huw : u = w := by_contra fun hne => absurd (hother u hne) (by omega)
    rw [htw, huw]

end Step

/-! ## 例 -/

/-- 一つの recursive mutex と、番号を振った thread。 -/
def recursiveInit : Locks Nat Unit := Locks.init fun _ => .recursive

/-- 入れ子に二回 lock した後で、別の thread が待つ。 -/
theorem mutex_safe_nested : ∃ s : Locks Nat Unit,
    Run.Reach lockStep Shallow recursiveInit [.lock 0 (), .lock 0 (), .lock 1 ()] s ∧
    (s.mutexes ()).recursionCount = 2 ∧ (s.mutexes ()).waiters = [1] ∧
    ∀ t u, 0 < s.held () t → 0 < s.held () u → t = u :=
  Run.Reach.exists_and (.cons (fun h => by cases h) rfl (.cons (fun _ => by decide) rfl
    (.cons (fun h => by cases h) rfl .nil))) fun hreach => ⟨rfl, rfl, (mutex_safe hreach ()).1⟩

/-- `n + 1` 回の lock の後。 -/
def nested (n : Nat) : Locks Nat Unit where
  mutexes _ := ⟨some 0, UInt32.ofNat (n + 1), .recursive, []⟩
  place _ := .outside
  held _ t := if t = 0 then n + 1 else 0

theorem nested_succ {n : Nat} : lockStep (nested n) (.lock 0 ()) = some (nested (n + 1)) := by
  have hcount : UInt32.ofNat (n + 1) + 1 = UInt32.ofNat (n + 1 + 1) := by
    rw [UInt32.ofNat_add (n + 1) 1]
    rfl
  have hstep : lockStep (nested n) (.lock 0 ()) = some ((nested n).entered 0 ()
      ⟨some 0, UInt32.ofNat _ + 1, .recursive, []⟩) := rfl
  rw [hstep]
  simp only [nested, Locks.entered, Option.some.injEq, Locks.mk.injEq]
  refine ⟨?_, ?_, ?_⟩
  · funext m
    simp
  · funext t
    simp [update_apply]
  · funext m t
    by_cases ht : t = 0 <;> simp [ht]

theorem nested_reach (n : Nat) : Run.Reach lockStep (fun _ _ => True) (nested 0)
    (replicate n (.lock 0 ())) (nested n) := by
  induction n with
  | zero => exact .nil
  | succ n ih =>
    rw [replicate_succ']
    exact ih.snoc trivial nested_succ

theorem nested_zero : lockStep recursiveInit (.lock 0 ()) = some (nested 0) := by
  have hstep : lockStep recursiveInit (.lock 0 ()) = some (recursiveInit.entered 0 ()
      ⟨some 0, 1, .recursive, []⟩) := rfl
  rw [hstep]
  simp only [nested, recursiveInit, Locks.init, Locks.entered, Option.some.injEq, Locks.mk.injEq]
  refine ⟨?_, ?_, ?_⟩
  · funext m
    simp
  · funext t
    simp [update_apply]
  · funext m t
    by_cases ht : t = 0 <;> simp [ht]

/-- 数が 1 に戻っていれば、一度の unlock で mutex が空き、次の thread が入る。 -/
theorem nested_release {n : Nat} (h : UInt32.ofNat (n + 1) = 1) : ∃ s1 s2,
    lockStep (nested n) (.unlock 0 ()) = some s1 ∧ lockStep s1 (.lock 1 ()) = some s2 ∧
    s2.held () 0 = n ∧ s2.held () 1 = 1 ∧ (s2.mutexes ()).owner = some 1 ∧
    (s2.mutexes ()).recursionCount = 1 := by
  have hunlock : mutexUnlock ((nested n).mutexes ()) 0 = (⟨none, 0, .recursive, []⟩, 0, none) := by
    rw [nested, h]
    rfl
  have hstep : lockStep (nested n) (.unlock 0 ()) = some _ := rfl
  rw [hunlock] at hstep
  refine ⟨_, _, hstep, rfl, ?_, ?_, rfl, rfl⟩
  · simp [Locks.locked, Locks.unlocked, mutexLock, mutexAcquire, nested]
  · simp [Locks.locked, Locks.unlocked, mutexLock, mutexAcquire, nested]

/--
**2³² + 1 回の入れ子では、排他が破れる。**

`recursion_count` は一周して 1 に戻り、一度の unlock で mutex が空く。次に lock した thread は、まだ
2³² 回の unlock を残した thread とともに、中にいる。
-/
theorem mutex_overflow : ∃ (ops : List (LockOp Nat Unit)) (s : Locks Nat Unit),
    Run.Reach lockStep (fun _ _ => True) recursiveInit ops s ∧
    s.held () 0 = 2 ^ 32 ∧ s.held () 1 = 1 ∧ (s.mutexes ()).owner = some 1 ∧
    (s.mutexes ()).recursionCount = 1 := by
  obtain ⟨s1, s2, h1, h2, hs⟩ := nested_release (show UInt32.ofNat (2 ^ 32 + 1) = 1 by decide)
  have hreach := Run.Reach.cons trivial nested_zero (nested_reach (2 ^ 32))
  exact ⟨_, s2, (hreach.snoc trivial h1).snoc trivial h2, hs⟩

end Alos.Sync
