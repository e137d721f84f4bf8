import Alos.Lib.Run
import Alos.Lib.Words
import Mathlib.Data.Finset.Card

/-!
# semaphore（`kernel/sync.c`）

`sem_post` は数を増やし、待つ thread を一つ起こすが、その thread に数を渡すわけではない。起こされた thread は
数をもう一度調べ、先に取られていれば待ち直す。起こされてまだ調べ直していない thread の集まりを `woken` に持つ。

* `semaphore_safe` — 数が 2³¹ - 1 で post しないかぎり、数は勘定と合い、起こし忘れはない
* `semaphore_overflow` — 数が 2³¹ - 1 の semaphore に post すると、数が負になる
-/

namespace Alos.Sync

open List Option

structure Semaphore (T : Type) where
  count : Int32
  maxCount : UInt32
  waiters : List T

section Functions

variable {T : Type}

def semaphoreInit (initialCount : Int32) (maxCount : UInt32) : Semaphore T :=
  ⟨initialCount, maxCount, []⟩

/-- `sem_wait` のループの一周。取れたかどうかを返す。 -/
def semWait (sem : Semaphore T) (current : T) : Semaphore T × Bool :=
  if sem.count ≤ 0 then ({ sem with waiters := sem.waiters ++ [current] }, false)
  else ({ sem with count := sem.count - 1 }, true)

def semTrywait (sem : Semaphore T) : Semaphore T × Bool :=
  if 0 < sem.count then ({ sem with count := sem.count - 1 }, true) else (sem, false)

/-- 返り値と、起こした thread。 -/
def semPost (sem : Semaphore T) : Semaphore T × Int × Option T :=
  if 0 < sem.maxCount ∧ sem.maxCount ≤ sem.count.toUInt32 then (sem, -1, none)
  else
    ({ sem with count := sem.count + 1, waiters := sem.waiters.tail }, 0, sem.waiters.head?)

end Functions

/-! ## 区間の交錯 -/

/-- semaphore と、起こされて調べ直す前の thread。`posts` と `waits` は成功した回数である。 -/
structure SemSystem (T : Type) where
  sem : Semaphore T
  woken : Finset T
  posts : Nat
  waits : Nat

inductive SemOp (T : Type) where
  | wait (t : T)
  /-- 起こされた thread が、ループの先頭に戻る。 -/
  | retest (t : T)
  | trywait (t : T)
  | post (t : T)

section Step

variable {T : Type} [DecidableEq T]

def SemSystem.init (initialCount : Int32) (maxCount : UInt32) : SemSystem T :=
  ⟨semaphoreInit initialCount maxCount, ∅, 0, 0⟩

/-- thread は `sem_wait` の外にいる。 -/
def SemSystem.Outside (s : SemSystem T) (t : T) : Prop := t ∉ s.sem.waiters ∧ t ∉ s.woken

instance (s : SemSystem T) (t : T) : Decidable (s.Outside t) :=
  inferInstanceAs (Decidable (_ ∧ _))

/-- 取れたら数える。 -/
def SemSystem.took (s : SemSystem T) (r : Semaphore T × Bool) : SemSystem T :=
  { s with sem := r.1, waits := if r.2 then s.waits + 1 else s.waits }

/-- 一つの区間。待っている thread は動かない。 -/
def semStep (s : SemSystem T) : SemOp T → Option (SemSystem T)
  | .wait t => if s.Outside t then some (s.took (semWait s.sem t)) else none
  | .retest t =>
    if t ∈ s.woken then some { s.took (semWait s.sem t) with woken := s.woken.erase t } else none
  | .trywait t => if s.Outside t then some (s.took (semTrywait s.sem)) else none
  | .post t =>
    if s.Outside t then
      let r := semPost s.sem
      some ⟨r.1, r.2.2.elim s.woken (insert · s.woken),
        if r.2.1 = 0 then s.posts + 1 else s.posts, s.waits⟩
    else none

/-- 数が 2³¹ - 1 のときには post しない。 -/
def Headroom (s : SemSystem T) : SemOp T → Prop
  | .post _ => s.sem.count.toInt < 2 ^ 31 - 1
  | _ => True

/-! ## 不変条件 -/

/-- 初めの数が `initial`、上限が `maxCount` の semaphore の不変条件。 -/
structure Counted (initial : Int) (maxCount : UInt32) (s : SemSystem T) : Prop where
  nodup : s.sem.waiters.Nodup
  disjoint : ∀ t ∈ s.sem.waiters, t ∉ s.woken
  count : s.sem.count.toInt = initial + s.posts - s.waits
  nonneg : 0 ≤ s.sem.count.toInt
  limit : s.sem.maxCount = maxCount
  max : maxCount ≠ 0 → s.sem.count.toInt ≤ maxCount.toNat
  pending : s.sem.waiters ≠ [] → s.sem.count.toInt ≤ s.woken.card

variable {initial : Int} {maxCount : UInt32} {s s' : SemSystem T} {t : T}

section

variable (h : Counted initial maxCount s)
include h

omit [DecidableEq T] in
theorem Counted.take (hpos : 0 < s.sem.count.toInt) {woken : Finset T} (hsub : woken ⊆ s.woken)
    (hcard : s.woken.card ≤ woken.card + 1) :
    Counted initial maxCount ⟨{ s.sem with count := s.sem.count - 1 }, woken,
      s.posts, s.waits + 1⟩ := by
  have hcount := Words.toInt_pred hpos
  have hc := h.count
  have hmax := h.max
  refine ⟨h.nodup, fun t ht hw => h.disjoint t ht (hsub hw), ?_, ?_, h.limit, ?_, ?_⟩ <;>
    simp only [hcount]
  · push_cast
    omega
  · omega
  · intro h0
    have := hmax h0
    omega
  · intro hne
    have := h.pending hne
    omega

omit [DecidableEq T] in
theorem Counted.block (hzero : s.sem.count.toInt ≤ 0) (ht : t ∉ s.sem.waiters) {woken : Finset T}
    (hsub : woken ⊆ s.woken) (htw : t ∉ woken) :
    Counted initial maxCount ⟨{ s.sem with waiters := s.sem.waiters ++ [t] }, woken,
      s.posts, s.waits⟩ := by
  refine ⟨?_, ?_, h.count, h.nonneg, h.limit, h.max, fun _ => by simp only; omega⟩
  · exact h.nodup.append (nodup_singleton t) (disjoint_singleton.mpr ht)
  · intro u hu hw
    rcases mem_append.mp hu with hu | hu
    · exact h.disjoint u hu (hsub hw)
    · exact htw (mem_singleton.mp hu ▸ hw)

omit [DecidableEq T] in
theorem Counted.wait (ht : t ∉ s.sem.waiters) {woken : Finset T} (hsub : woken ⊆ s.woken)
    (hcard : s.woken.card ≤ woken.card + 1) (htw : t ∉ woken) :
    Counted initial maxCount { s.took (semWait s.sem t) with woken := woken } := by
  unfold semWait
  split
  · exact h.block (Words.le_zero_iff.mp ‹_›) ht hsub htw
  · rename_i hpos
    rw [Words.le_zero_iff] at hpos
    exact h.take (by omega) hsub hcard

theorem Counted.post (hroom : s.sem.count.toInt < 2 ^ 31 - 1)
    (hmax : ¬(0 < s.sem.maxCount ∧ s.sem.maxCount ≤ s.sem.count.toUInt32)) :
    Counted initial maxCount ⟨{ s.sem with count := s.sem.count + 1, waiters :=
      s.sem.waiters.tail },
      s.sem.waiters.head?.elim s.woken (insert · s.woken), s.posts + 1, s.waits⟩ := by
  have hcount := Words.toInt_succ hroom
  have hc := h.count
  have hnonneg := h.nonneg
  have hnodup := h.nodup
  have hdisj := h.disjoint
  refine ⟨hnodup.tail, ?_, ?_, ?_, h.limit, ?_, ?_⟩ <;> simp only [hcount]
  · intro u hu
    cases hw : s.sem.waiters with
    | nil =>
      rw [hw] at hu
      cases hu
    | cons w rest =>
      rw [hw] at hu hnodup hdisj
      simp only [head?_cons, elim_some, Finset.mem_insert, not_or]
      exact ⟨fun he => (nodup_cons.mp hnodup).1 (he ▸ hu), hdisj u (mem_cons_of_mem _ hu)⟩
  · push_cast
    omega
  · omega
  · intro h0
    rw [h.limit] at hmax
    have hlt : ¬maxCount ≤ s.sem.count.toUInt32 := fun hle =>
      hmax ⟨UInt32.pos_iff_ne_zero.mpr h0, hle⟩
    rw [UInt32.le_iff_toNat_le] at hlt
    have := Words.toNat_toUInt32 hnonneg
    omega
  · intro hne
    cases hw : s.sem.waiters with
    | nil =>
      rw [hw] at hne
      exact absurd rfl hne
    | cons w rest =>
      -- 待つ thread があったので、数は `woken` を超えていなかった
      have hpending := h.pending (by simp [hw])
      have hfresh : w ∉ s.woken := hdisj w (by simp [hw])
      simp only [head?_cons, elim_some, Finset.card_insert_of_notMem hfresh]
      push_cast
      omega

end

/-- **一つの区間は不変条件を保つ。** -/
theorem semStep_counted {op : SemOp T} (h : semStep s op = some s') (hl : Headroom s op)
    (hs : Counted initial maxCount s) : Counted initial maxCount s' := by
  cases op with
  | wait t =>
    obtain ⟨hout, ⟨⟩⟩ := ite_none_right_eq_some.mp h
    exact hs.wait hout.1 (Finset.Subset.refl _) (Nat.le_succ _) hout.2
  | retest t =>
    obtain ⟨hw, ⟨⟩⟩ := ite_none_right_eq_some.mp h
    refine hs.wait (fun ht => hs.disjoint t ht hw) (Finset.erase_subset _ _) ?_
      (Finset.notMem_erase _ _)
    rw [Finset.card_erase_add_one hw]
  | trywait t =>
    obtain ⟨hout, ⟨⟩⟩ := ite_none_right_eq_some.mp h
    unfold semTrywait
    split
    · exact hs.take (Words.pos_iff.mp ‹_›) (Finset.Subset.refl _) (Nat.le_succ _)
    · exact hs
  | post t =>
    obtain ⟨hout, ⟨⟩⟩ := ite_none_right_eq_some.mp h
    unfold semPost
    split
    · exact hs
    · exact hs.post hl ‹_›

/--
**数が 2³¹ - 1 で post しないかぎり、semaphore の数は勘定と合い、起こし忘れもない。**

終わった wait の数は、初めの数と成功した post の数の和を超えない。待つ thread があるとき、数は、起こされて
まだ調べ直していない thread の数を超えない。
-/
theorem semaphore_safe {initialCount : Int32} (h0 : 0 ≤ initialCount.toInt)
    (hmax : maxCount = 0 ∨ initialCount.toInt ≤ maxCount.toNat) {ops : List (SemOp T)}
    (h : Run.Reach semStep Headroom (SemSystem.init initialCount maxCount) ops s) :
    s.waits ≤ initialCount.toInt + s.posts ∧
    s.sem.count.toInt = initialCount.toInt + s.posts - s.waits ∧
    (maxCount ≠ 0 → 0 ≤ s.sem.count.toInt ∧ s.sem.count.toInt ≤ maxCount.toNat) ∧
    (s.sem.waiters ≠ [] → s.sem.count.toInt ≤ s.woken.card) := by
  have hinit : Counted initialCount.toInt maxCount
      (SemSystem.init initialCount maxCount : SemSystem T) := by
    refine ⟨nodup_nil, by simp [SemSystem.init, semaphoreInit], ?_, h0, rfl, ?_, ?_⟩
    · simp [SemSystem.init, semaphoreInit]
    · exact fun hne => hmax.resolve_left hne
    · exact fun hne => absurd rfl hne
  have hs : Counted _ _ s :=
    h.invariant hinit fun _ _ _ hs hl hstep => semStep_counted hstep hl hs
  have hcount := hs.count
  have hnonneg := hs.nonneg
  exact ⟨by omega, hcount, fun hne => ⟨hnonneg, hs.max hne⟩, hs.pending⟩

end Step

/-! ## 例 -/

/-- 一つ待ち、一つ post すると、起こされた thread が一つと、数が 1 である。 -/
theorem semaphore_safe_post : ∃ s : SemSystem Nat,
    Run.Reach semStep Headroom (SemSystem.init 0 1) [.wait 0, .wait 1, .post 2] s ∧
    s.sem.waiters = [1] ∧ s.woken = {0} ∧ s.sem.count = 1 ∧ s.sem.count.toInt ≤ s.woken.card := by
  refine Run.Reach.exists_and (.cons trivial rfl (.cons trivial rfl
    (.cons (show (0 : Int32).toInt < 2 ^ 31 - 1 by decide) rfl .nil))) fun hreach =>
      ⟨rfl, rfl, rfl, ?_⟩
  exact (semaphore_safe (by decide) (.inr (by decide)) hreach).2.2.2 (cons_ne_nil _ _)

/-- **数が 2³¹ - 1 の semaphore に一度 post すると、数が負になる。** -/
theorem semaphore_overflow : ∃ s : SemSystem Nat,
    Run.Reach semStep (fun _ _ => True) (SemSystem.init 2147483647 0) [.post 0] s ∧
    s.posts = 1 ∧ s.waits = 0 ∧ s.sem.count.toInt = -2147483648 :=
  ⟨_, .cons trivial rfl .nil, rfl, rfl, by decide⟩

end Alos.Sync
