import Alos.Lib.Run
import Alos.Lib.Words
import Mathlib.Data.Finset.Card
import Mathlib.Data.Multiset.AddSub

/-!
# read-write lock（`kernel/sync.c`）

読む側と書く側はそれぞれの待ち行列で待つ。`rwlock_wrlock` は入るときに `writer_wait_count` を増やし、取れたら
減らす。`RWLOCK_PREFER_WRITER` なら、書く側が待つ間は読む側も待つ。起こされた thread は条件をもう一度調べ、
先を越されていれば待ち直す。

thread が今持っている read lock と write lock を、一つを一つと数えて `reads` と `writes` に持つ。同じ thread が
read lock を重ねて取ることもある。

* `rwlock_exclusive` — 書く側は誰とも同時に入らず、`reader_count` と `writer_wait_count` は勘定と合う
* `rwlock_no_lost_wakeup` — 空いているのに待つ thread があれば、起こされて調べ直す前の thread がある
* `rwlock_counts_locks` — 一つの thread が重ねて取ると、`reader_count` は thread の数ではない
* `rwlock_wraps` — read lock が 2³² 重なると、`reader_count` が 0 に戻り、待つ writer が残る
-/

namespace Alos.Sync

open List Option

inductive RwlockPreference where
  | reader
  | writer
  deriving DecidableEq, Repr

structure Rwlock (T : Type) where
  readers : List T
  writers : List T
  readerCount : Int32
  writer : Option T
  writerWaitCount : UInt32
  preference : RwlockPreference

variable {preference : RwlockPreference}

section Functions

variable {T : Type} [DecidableEq T]

def rwlockInit (preference : RwlockPreference) : Rwlock T := ⟨[], [], 0, none, 0, preference⟩

/-- `rwlock_rdlock` のループの一周。取れたかどうかを返す。 -/
def rwlockRdlock (rwlock : Rwlock T) (current : T) : Rwlock T × Bool :=
  if rwlock.writer ≠ none ∨ (rwlock.preference = .writer ∧ 0 < rwlock.writerWaitCount) then
    ({ rwlock with readers := rwlock.readers ++ [current] }, false)
  else ({ rwlock with readerCount := rwlock.readerCount + 1 }, true)

def rwlockTryrdlock (rwlock : Rwlock T) : Rwlock T × Bool :=
  if rwlock.writer = none ∧ (rwlock.preference = .reader ∨ rwlock.writerWaitCount = 0) then
    ({ rwlock with readerCount := rwlock.readerCount + 1 }, true)
  else (rwlock, false)

/-- `rwlock_wrlock` のループの一周。 -/
def wrlockTest (rwlock : Rwlock T) (current : T) : Rwlock T × Bool :=
  if rwlock.writer ≠ none ∨ 0 < rwlock.readerCount then
    ({ rwlock with writers := rwlock.writers ++ [current] }, false)
  else
    ({ rwlock with writerWaitCount := rwlock.writerWaitCount - 1, writer := some current }, true)

def rwlockWrlock (rwlock : Rwlock T) (current : T) : Rwlock T × Bool :=
  wrlockTest { rwlock with writerWaitCount := rwlock.writerWaitCount + 1 } current

def rwlockTrywrlock (rwlock : Rwlock T) (current : T) : Rwlock T × Bool :=
  if rwlock.writer = none ∧ rwlock.readerCount = 0 then
    ({ rwlock with writer := some current }, true)
  else (rwlock, false)

/-- 待つ writer を一つ起こす。 -/
def wakeWriter (rwlock : Rwlock T) : Rwlock T × Option T :=
  ({ rwlock with writers := rwlock.writers.tail }, rwlock.writers.head?)

/-- 起こした writer を返す。 -/
def rwlockRdunlock (rwlock : Rwlock T) : Rwlock T × Option T :=
  let rwlock := { rwlock with readerCount := rwlock.readerCount - 1 }
  if rwlock.readerCount = 0 ∧ rwlock.writers ≠ [] then wakeWriter rwlock else (rwlock, none)

/-- 起こした reader と writer を返す。持ち主でなければ何もしない。 -/
def rwlockWrunlock (rwlock : Rwlock T) (current : T) : Rwlock T × List T × Option T :=
  if rwlock.writer ≠ some current then (rwlock, [], none)
  else
    let rwlock := { rwlock with writer := none }
    if rwlock.preference = .writer ∧ rwlock.writers ≠ [] then
      ((wakeWriter rwlock).1, [], (wakeWriter rwlock).2)
    else
      let woken := rwlock.readers
      let rwlock := { rwlock with readers := [] }
      if rwlock.readerCount = 0 ∧ rwlock.writers ≠ [] then
        ((wakeWriter rwlock).1, woken, (wakeWriter rwlock).2)
      else (rwlock, woken, none)

/-- ほかに reader がいるときは断る。 -/
def rwlockUpgrade (rwlock : Rwlock T) (current : T) : Rwlock T × Bool :=
  if rwlock.readerCount = 0 then (rwlock, false)
  else if rwlock.readerCount = 1 ∧ rwlock.writer = none then
    ({ rwlock with readerCount := rwlock.readerCount - 1, writer := some current }, true)
  else (rwlock, false)

/-- 起こした reader を返す。 -/
def rwlockDowngrade (rwlock : Rwlock T) (current : T) : Rwlock T × List T :=
  if rwlock.writer ≠ some current then (rwlock, [])
  else
    ({ rwlock with writer := none, readerCount := rwlock.readerCount + 1, readers := [] },
      rwlock.readers)

end Functions

/-! ## 区間の交錯 -/

/-- rwlock と、起こされて調べ直す前の thread と、今持たれている lock。 -/
structure RwSystem (T : Type) where
  lock : Rwlock T
  wokenReaders : Finset T
  wokenWriters : Finset T
  reads : Multiset T
  writes : Multiset T

inductive RwOp (T : Type) where
  | rdlock (t : T)
  /-- 起こされた reader が、ループの先頭に戻る。 -/
  | rdretest (t : T)
  | tryrdlock (t : T)
  | wrlock (t : T)
  /-- 起こされた writer が、ループの先頭に戻る。 -/
  | wrretest (t : T)
  | trywrlock (t : T)
  | rdunlock (t : T)
  | wrunlock (t : T)
  | upgrade (t : T)
  | downgrade (t : T)

section Step

variable {T : Type} [DecidableEq T]

def RwSystem.init (preference : RwlockPreference) : RwSystem T :=
  ⟨rwlockInit preference, ∅, ∅, 0, 0⟩

/-- thread は待っても起こされてもいない。 -/
def RwSystem.Outside (s : RwSystem T) (t : T) : Prop :=
  (t ∉ s.lock.readers ∧ t ∉ s.lock.writers) ∧ t ∉ s.wokenReaders ∧ t ∉ s.wokenWriters

instance RwSystem.decidableOutside (s : RwSystem T) (t : T) : Decidable (s.Outside t) :=
  inferInstanceAs (Decidable (_ ∧ _))

/-- `rwlock_rdlock` などの結果。 -/
def RwSystem.read (s : RwSystem T) (t : T) (r : Rwlock T × Bool) : RwSystem T :=
  { s with lock := r.1, reads := if r.2 then t ::ₘ s.reads else s.reads }

/-- `rwlock_wrlock` などの結果。 -/
def RwSystem.write (s : RwSystem T) (t : T) (r : Rwlock T × Bool) : RwSystem T :=
  { s with lock := r.1, writes := if r.2 then t ::ₘ s.writes else s.writes }

/-- 起こした thread を加える。 -/
def RwSystem.wake (s : RwSystem T) (readers : List T) (writer : Option T) : RwSystem T :=
  { s with
    wokenReaders := s.wokenReaders ∪ readers.toFinset
    wokenWriters := writer.elim s.wokenWriters (insert · s.wokenWriters) }

/-- 一つの区間。待っている thread は動かない。 -/
def rwStep (s : RwSystem T) : RwOp T → Option (RwSystem T)
  | .rdlock t => if s.Outside t then some (s.read t (rwlockRdlock s.lock t)) else none
  | .rdretest t =>
    if t ∈ s.wokenReaders then
      some { s.read t (rwlockRdlock s.lock t) with wokenReaders := s.wokenReaders.erase t }
    else none
  | .tryrdlock t => if s.Outside t then some (s.read t (rwlockTryrdlock s.lock)) else none
  | .wrlock t => if s.Outside t then some (s.write t (rwlockWrlock s.lock t)) else none
  | .wrretest t =>
    if t ∈ s.wokenWriters then
      some { s.write t (wrlockTest s.lock t) with wokenWriters := s.wokenWriters.erase t }
    else none
  | .trywrlock t => if s.Outside t then some (s.write t (rwlockTrywrlock s.lock t)) else none
  | .rdunlock t =>
    if s.Outside t then
      let r := rwlockRdunlock s.lock
      some { s.wake [] r.2 with lock := r.1, reads := s.reads.erase t }
    else none
  | .wrunlock t =>
    if s.Outside t then
      let r := rwlockWrunlock s.lock t
      some { s.wake r.2.1 r.2.2 with lock := r.1, writes := s.writes.erase t }
    else none
  | .upgrade t =>
    if s.Outside t then
      let r := rwlockUpgrade s.lock t
      some { s.write t r with reads := if r.2 then s.reads.erase t else s.reads }
    else none
  | .downgrade t =>
    if s.Outside t then
      let r := rwlockDowngrade s.lock t
      some { s.wake r.2 none with
        lock := r.1, reads := t ::ₘ s.reads, writes := s.writes.erase t }
    else none

/-- 放し、格上げし、格下げするのは、自分の持つ lock だけである。 -/
def Owns (s : RwSystem T) : RwOp T → Prop
  | .rdunlock t | .upgrade t => t ∈ s.reads
  | .wrunlock t | .downgrade t => t ∈ s.writes
  | _ => True

instance (s : RwSystem T) : (op : RwOp T) → Decidable (Owns s op)
  | .rdunlock t | .upgrade t => inferInstanceAs (Decidable (t ∈ s.reads))
  | .wrunlock t | .downgrade t => inferInstanceAs (Decidable (t ∈ s.writes))
  | .rdlock _ | .rdretest _ | .tryrdlock _ | .wrlock _ | .wrretest _ | .trywrlock _ =>
    inferInstanceAs (Decidable True)

/-- `reader_count` も `writer_wait_count` も端に届かない。 -/
def Roomy (s : RwSystem T) : RwOp T → Prop
  | .rdlock _ | .rdretest _ | .tryrdlock _ => s.lock.readerCount.toInt < 2 ^ 31 - 1
  | .wrlock _ => s.lock.writerWaitCount.toNat + 1 < 2 ^ 32
  | _ => True

instance (s : RwSystem T) : (op : RwOp T) → Decidable (Roomy s op)
  | .rdlock _ | .rdretest _ | .tryrdlock _ =>
    inferInstanceAs (Decidable (s.lock.readerCount.toInt < 2 ^ 31 - 1))
  | .wrlock _ => inferInstanceAs (Decidable (s.lock.writerWaitCount.toNat + 1 < 2 ^ 32))
  | .wrretest _ | .trywrlock _ | .rdunlock _ | .wrunlock _ | .upgrade _ | .downgrade _ =>
    inferInstanceAs (Decidable True)

end Step

/-! ## 不変条件 -/

section Invariant

variable {T : Type}

/-- `rwlock_wrlock` の中にいて、行列にも `wokenWriters` にもいない thread が `k` 個あるときの不変条件。 -/
structure Shared (k : Nat) (s : RwSystem T) : Prop where
  nodup : s.lock.writers.Nodup
  disjoint : ∀ t ∈ s.lock.writers, t ∉ s.wokenWriters
  count : s.lock.readerCount.toInt = s.reads.card
  writes : (s.lock.writer = none ∧ s.writes = 0) ∨
    ∃ t, s.lock.writer = some t ∧ s.writes = {t} ∧ s.reads = 0
  waiting : s.lock.writerWaitCount.toNat = s.lock.writers.length + s.wokenWriters.card + k
  readers : s.lock.writer = none → s.lock.readers ≠ [] →
    s.lock.preference = .writer ∧ 0 < s.lock.writerWaitCount

/-- 空いているのに writer が待つなら、起こされた writer がある。 -/
def WriterPending (s : RwSystem T) : Prop :=
  s.lock.writer = none → s.reads = 0 → s.lock.writers ≠ [] → s.wokenWriters.Nonempty

variable {k : Nat} {s s' : RwSystem T} {t : T}

/-! ### 読む側 -/

theorem Shared.rdlocked (h : Shared k s) (hfree : s.lock.writer = none)
    (hroom : s.lock.readerCount.toInt < 2 ^ 31 - 1) : Shared k { s with
      lock := { s.lock with readerCount := s.lock.readerCount + 1 }, reads := t ::ₘ s.reads } := by
  have hwrites := h.writes.resolve_right fun ⟨u, hu, _⟩ => by rw [hfree] at hu; cases hu
  refine ⟨h.nodup, h.disjoint, ?_, .inl hwrites, h.waiting, h.readers⟩
  rw [Words.toInt_succ hroom, h.count, Multiset.card_cons]
  rfl

theorem Shared.rdblocked (h : Shared k s) (hbusy : s.lock.writer ≠ none ∨
      (s.lock.preference = .writer ∧ 0 < s.lock.writerWaitCount)) :
    Shared k { s with lock := { s.lock with readers := s.lock.readers ++ [t] } } :=
  ⟨h.nodup, h.disjoint, h.count, h.writes, h.waiting,
    fun hfree _ => hbusy.resolve_left fun hne => hne hfree⟩

/-! ### 書く側 -/

/-- 待ち始めた writer は、行列に入るか、lock を取る。 -/
theorem Shared.wrlockTest (h : Shared 1 s) (ht : t ∉ s.lock.writers) (htw : t ∉ s.wokenWriters) :
    Shared 0 (s.write t (wrlockTest s.lock t)) ∧
      WriterPending (s.write t (wrlockTest s.lock t)) := by
  have hwaiting := h.waiting
  unfold Sync.wrlockTest
  split
  · rename_i hbusy
    refine ⟨⟨?_, ?_, h.count, h.writes, ?_, h.readers⟩, fun hfree hreads => ?_⟩
    · exact h.nodup.append (nodup_singleton t) (disjoint_singleton.mpr ht)
    · intro u hu
      rcases mem_append.mp hu with hu | hu
      · exact h.disjoint u hu
      · exact mem_singleton.mp hu ▸ htw
    · simp only [RwSystem.write, length_append, length_singleton]
      omega
    · have hcount := h.count
      have hpos := Words.pos_iff.mp (hbusy.resolve_left fun hne => hne hfree)
      have hzero : s.reads = 0 := hreads
      rw [hzero, Multiset.card_zero] at hcount
      omega
  · rename_i hfree
    have hnone : s.lock.writer = none := not_not.mp fun hne => hfree (.inl hne)
    have hreads : s.reads = 0 := by
      have hcount := h.count
      have hle : ¬0 < s.lock.readerCount := fun hlt => hfree (.inr hlt)
      rw [Words.pos_iff] at hle
      exact Multiset.card_eq_zero.mp (by omega)
    have hwrites := h.writes.resolve_right fun ⟨u, hu, _⟩ => by rw [hnone] at hu; cases hu
    refine ⟨⟨h.nodup, h.disjoint, h.count, .inr ⟨t, rfl, ?_, hreads⟩, ?_, ?_⟩, ?_⟩
    · simp [RwSystem.write, hwrites.2]
    · have hpred := Words.toNat_pred (a := s.lock.writerWaitCount) (by omega)
      simp only [RwSystem.write, hpred]
      omega
    · intro hsome
      cases hsome
    · intro hsome
      cases hsome

/-- 空いている lock に、一つの writer が入る。 -/
theorem Shared.occupy (h : Shared k s) (t : T) {n : Int32} (hcount : n.toInt = 0)
    (hfree : s.lock.writer = none) : Shared k { s with
      lock := { s.lock with readerCount := n, writer := some t }, reads := 0,
      writes := t ::ₘ s.writes } ∧ WriterPending { s with
      lock := { s.lock with readerCount := n, writer := some t }, reads := 0,
      writes := t ::ₘ s.writes } := by
  have hwrites := h.writes.resolve_right fun ⟨u, hu, _⟩ => by rw [hfree] at hu; cases hu
  refine ⟨⟨h.nodup, h.disjoint, by simpa using hcount, .inr ⟨t, rfl, ?_, rfl⟩, h.waiting, ?_⟩, ?_⟩
  · simp [hwrites.2]
  · intro hsome
    cases hsome
  · intro hsome
    cases hsome

/-! ### 関数ごとの補題 -/

section

variable (h : Shared k s) (hp : WriterPending s) (hroom : s.lock.readerCount.toInt < 2 ^ 31 - 1)
include h hp hroom

theorem Shared.rdlock : Shared k (s.read t (rwlockRdlock s.lock t)) ∧
      WriterPending (s.read t (rwlockRdlock s.lock t)) := by
  unfold rwlockRdlock
  split
  · exact ⟨h.rdblocked ‹_›, hp⟩
  · rename_i hfree
    have hnone : s.lock.writer = none := not_not.mp fun hne => hfree (.inl hne)
    exact ⟨h.rdlocked hnone hroom, fun _ hreads => absurd hreads (Multiset.cons_ne_zero)⟩

theorem Shared.tryrdlock : Shared k (s.read t (rwlockTryrdlock s.lock)) ∧
      WriterPending (s.read t (rwlockTryrdlock s.lock)) := by
  unfold rwlockTryrdlock
  split
  · rename_i hfree
    exact ⟨h.rdlocked hfree.1 hroom, fun _ hreads => absurd hreads (Multiset.cons_ne_zero)⟩
  · exact ⟨h, hp⟩

end

theorem Shared.wrlock (h : Shared 0 s) (hroom : s.lock.writerWaitCount.toNat + 1 < 2 ^ 32)
    (ht : t ∉ s.lock.writers) (htw : t ∉ s.wokenWriters) :
    Shared 0 (s.write t (rwlockWrlock s.lock t)) ∧
      WriterPending (s.write t (rwlockWrlock s.lock t)) := by
  have hsucc := Words.toNat_succ hroom
  have hwaiting := h.waiting
  have hannounced : Shared 1 { s with
      lock := { s.lock with writerWaitCount := s.lock.writerWaitCount + 1 } } := by
    refine ⟨h.nodup, h.disjoint, h.count, h.writes, ?_, fun hfree hne => ?_⟩
    · simp only [hsucc]
      omega
    · refine ⟨(h.readers hfree hne).1, ?_⟩
      rw [Words.toNat_pos, hsucc]
      omega
  exact hannounced.wrlockTest ht htw

theorem Shared.trywrlock (h : Shared k s) (hp : WriterPending s) :
    Shared k (s.write t (rwlockTrywrlock s.lock t)) ∧
      WriterPending (s.write t (rwlockTrywrlock s.lock t)) := by
  unfold rwlockTrywrlock
  split
  · rename_i hfree
    have hzero := Words.eq_zero_iff.mp hfree.2
    have hreads : s.reads = 0 := Multiset.card_eq_zero.mp (by have := h.count; omega)
    have hocc := h.occupy t hzero hfree.1
    rw [← hreads] at hocc
    exact hocc
  · exact ⟨h, hp⟩

variable [DecidableEq T]

theorem Shared.wrretest (h : Shared 0 s) (htw : t ∈ s.wokenWriters) :
    Shared 0 { s.write t (Sync.wrlockTest s.lock t) with wokenWriters := s.wokenWriters.erase t } ∧
    WriterPending { s.write t (Sync.wrlockTest s.lock t) with
      wokenWriters := s.wokenWriters.erase t } := by
  have hcard := Finset.card_erase_add_one htw
  have hwaiting := h.waiting
  have hleft : Shared 1 { s with wokenWriters := s.wokenWriters.erase t } := by
    refine ⟨h.nodup, fun u hu hw => h.disjoint u hu (Finset.mem_of_mem_erase hw), h.count, h.writes,
      ?_, h.readers⟩
    simp only
    omega
  exact hleft.wrlockTest (fun ht => h.disjoint t ht htw) (Finset.notMem_erase _ _)

section

variable (h : Shared k s)
include h

theorem Shared.wakeReaders {readers : List T} : Shared k (s.wake readers none) :=
  ⟨h.nodup, h.disjoint, h.count, h.writes, h.waiting, h.readers⟩

/-- 待つ writer を一つ起こす。 -/
theorem Shared.wakeWriter {readers : List T} : Shared k
        { s.wake readers (Sync.wakeWriter s.lock).2 with lock := (Sync.wakeWriter s.lock).1 } ∧
      WriterPending
        { s.wake readers (Sync.wakeWriter s.lock).2 with lock := (Sync.wakeWriter s.lock).1 } := by
  have hnodup := h.nodup
  have hdisj := h.disjoint
  have hwaiting := h.waiting
  simp only [Sync.wakeWriter, RwSystem.wake]
  cases hw : s.lock.writers with
  | nil =>
    rw [hw] at hwaiting
    refine ⟨⟨nodup_nil, by simp, h.count, h.writes, hwaiting, h.readers⟩, ?_⟩
    exact fun _ _ hne => absurd rfl hne
  | cons w rest =>
    rw [hw] at hnodup hdisj hwaiting
    rw [nodup_cons] at hnodup
    have hfresh : w ∉ s.wokenWriters := hdisj w mem_cons_self
    refine ⟨⟨hnodup.2, ?_, h.count, h.writes, ?_, h.readers⟩, fun _ _ _ => ⟨w, by simp⟩⟩
    · intro u hu
      simp only [head?_cons, elim_some, Finset.mem_insert, not_or]
      exact ⟨fun he => hnodup.1 (he ▸ hu), hdisj u (mem_cons_of_mem _ hu)⟩
    · simp only [head?_cons, elim_some, tail_cons, Finset.card_insert_of_notMem hfresh]
      rw [length_cons] at hwaiting
      omega

theorem Shared.rdunlock (ht : t ∈ s.reads) : Shared k { s.wake [] (rwlockRdunlock s.lock).2 with
      lock := (rwlockRdunlock s.lock).1, reads := s.reads.erase t } ∧
    WriterPending { s.wake [] (rwlockRdunlock s.lock).2 with
      lock := (rwlockRdunlock s.lock).1, reads := s.reads.erase t } := by
  have hcount := h.count
  have hcard := Multiset.card_erase_add_one ht
  have hpred := Words.toInt_pred (a := s.lock.readerCount) (by omega)
  -- reader がいるので、writer はいない
  have hfree := h.writes.resolve_right fun ⟨u, _, _, hu⟩ => by rw [hu] at ht; cases ht
  have hless : Shared k { s with
      lock := { s.lock with readerCount := s.lock.readerCount - 1 }, reads := s.reads.erase t } :=
    ⟨h.nodup, h.disjoint, by simp only [hpred]; omega, .inl hfree, h.waiting, h.readers⟩
  unfold rwlockRdunlock
  simp only
  split
  · exact hless.wakeWriter
  · rename_i hlast
    refine ⟨hless.wakeReaders, fun _ hreads hne => absurd ⟨?_, hne⟩ hlast⟩
    have hzero : s.reads.erase t = 0 := hreads
    rw [hzero, Multiset.card_zero] at hcard
    rw [Words.eq_zero_iff]
    omega

/-- writer が放した後。 -/
theorem Shared.vacate (ht : t ∈ s.writes) :
    s.lock.writer = some t ∧ s.reads = 0 ∧ s.writes.erase t = 0 := by
  obtain ⟨u, hu, hwrites, hreads⟩ := h.writes.resolve_left fun h => by rw [h.2] at ht; cases ht
  rw [hwrites, Multiset.mem_singleton] at ht
  subst ht
  exact ⟨hu, hreads, by rw [hwrites, Multiset.erase_singleton]⟩

theorem Shared.wrunlock (ht : t ∈ s.writes) :
    Shared k { s.wake (rwlockWrunlock s.lock t).2.1 (rwlockWrunlock s.lock t).2.2 with
      lock := (rwlockWrunlock s.lock t).1, writes := s.writes.erase t } ∧
    WriterPending { s.wake (rwlockWrunlock s.lock t).2.1 (rwlockWrunlock s.lock t).2.2 with
      lock := (rwlockWrunlock s.lock t).1, writes := s.writes.erase t } := by
  obtain ⟨howner, hreads, hwrites⟩ := h.vacate ht
  have hwaiting := h.waiting
  rw [hwrites]
  unfold rwlockWrunlock
  rw [if_neg (not_not.mpr howner)]
  simp only
  split
  · rename_i hwriters
    have hpos : 0 < s.lock.writerWaitCount := by
      rw [Words.toNat_pos]
      have := length_pos_iff.mpr hwriters.2
      omega
    have hfree : Shared k { s with lock := { s.lock with writer := none }, writes := 0 } :=
      ⟨h.nodup, h.disjoint, h.count, .inl ⟨rfl, rfl⟩, hwaiting, fun _ _ => ⟨hwriters.1, hpos⟩⟩
    exact hfree.wakeWriter
  · have hfree : Shared k { s with
        lock := { s.lock with writer := none, readers := [] }, writes := 0 } :=
      ⟨h.nodup, h.disjoint, h.count, .inl ⟨rfl, rfl⟩, hwaiting, fun _ hne => absurd rfl hne⟩
    split
    · exact hfree.wakeWriter
    · rename_i hlast
      refine ⟨hfree.wakeReaders, fun _ _ hne => absurd ⟨?_, hne⟩ hlast⟩
      rw [Words.eq_zero_iff, h.count, hreads]
      rfl

theorem Shared.upgrade (hp : WriterPending s) (ht : t ∈ s.reads) :
    Shared k { s.write t (rwlockUpgrade s.lock t) with
      reads := if (rwlockUpgrade s.lock t).2 then s.reads.erase t else s.reads } ∧
    WriterPending { s.write t (rwlockUpgrade s.lock t) with
      reads := if (rwlockUpgrade s.lock t).2 then s.reads.erase t else s.reads } := by
  have hcount := h.count
  unfold rwlockUpgrade
  split
  · exact ⟨h, hp⟩
  split
  · rename_i hone
    have h1 := Words.eq_one_iff.mp hone.1
    have hpred := Words.toInt_pred (a := s.lock.readerCount) (by omega)
    have hcard := Multiset.card_erase_add_one ht
    have hreads : s.reads.erase t = 0 := Multiset.card_eq_zero.mp (by omega)
    have hocc := h.occupy t (n := s.lock.readerCount - 1) (by omega) hone.2
    rw [← hreads] at hocc
    exact hocc
  · exact ⟨h, hp⟩

theorem Shared.downgrade (ht : t ∈ s.writes) :
    Shared k { s.wake (rwlockDowngrade s.lock t).2 none with
      lock := (rwlockDowngrade s.lock t).1, reads := t ::ₘ s.reads, writes := s.writes.erase t } ∧
    WriterPending { s.wake (rwlockDowngrade s.lock t).2 none with
      lock := (rwlockDowngrade s.lock t).1, reads := t ::ₘ s.reads,
      writes := s.writes.erase t } := by
  obtain ⟨howner, hreads, hwrites⟩ := h.vacate ht
  have hcount := h.count
  rw [hreads, Multiset.card_zero] at hcount
  unfold rwlockDowngrade
  rw [if_neg (not_not.mpr howner), hwrites, hreads]
  refine ⟨⟨h.nodup, h.disjoint, ?_, .inl ⟨rfl, rfl⟩, h.waiting, fun _ hne => absurd rfl hne⟩,
    fun _ (hzero : t ::ₘ 0 = 0) => absurd hzero Multiset.cons_ne_zero⟩
  simp only [Words.toInt_succ (a := s.lock.readerCount) (by omega), hcount]
  rfl

end

/-- **一つの区間は不変条件を保つ。** -/
theorem rwStep_shared {op : RwOp T} (hstep : rwStep s op = some s') (howns : Owns s op)
    (hroom : Roomy s op) (h : Shared 0 s ∧ WriterPending s) : Shared 0 s' ∧ WriterPending s' := by
  obtain ⟨h, hp⟩ := h
  cases op with
  | rdlock t =>
    obtain ⟨hout, ⟨⟩⟩ := ite_none_right_eq_some.mp hstep
    exact h.rdlock hp hroom
  | rdretest t =>
    obtain ⟨hw, ⟨⟩⟩ := ite_none_right_eq_some.mp hstep
    obtain ⟨h', hp'⟩ := h.rdlock (t := t) hp hroom
    exact ⟨⟨h'.nodup, h'.disjoint, h'.count, h'.writes, h'.waiting, h'.readers⟩, hp'⟩
  | tryrdlock t =>
    obtain ⟨hout, ⟨⟩⟩ := ite_none_right_eq_some.mp hstep
    exact h.tryrdlock hp hroom
  | wrlock t =>
    obtain ⟨hout, ⟨⟩⟩ := ite_none_right_eq_some.mp hstep
    exact h.wrlock hroom hout.1.2 hout.2.2
  | wrretest t =>
    obtain ⟨hw, ⟨⟩⟩ := ite_none_right_eq_some.mp hstep
    exact h.wrretest hw
  | trywrlock t =>
    obtain ⟨hout, ⟨⟩⟩ := ite_none_right_eq_some.mp hstep
    exact h.trywrlock hp
  | rdunlock t =>
    obtain ⟨hout, ⟨⟩⟩ := ite_none_right_eq_some.mp hstep
    exact h.rdunlock howns
  | wrunlock t =>
    obtain ⟨hout, ⟨⟩⟩ := ite_none_right_eq_some.mp hstep
    exact h.wrunlock howns
  | upgrade t =>
    obtain ⟨hout, ⟨⟩⟩ := ite_none_right_eq_some.mp hstep
    exact h.upgrade hp howns
  | downgrade t =>
    obtain ⟨hout, ⟨⟩⟩ := ite_none_right_eq_some.mp hstep
    exact h.downgrade howns

omit [DecidableEq T] in
theorem shared_init : Shared 0 (RwSystem.init preference : RwSystem T) ∧
      WriterPending (RwSystem.init preference : RwSystem T) :=
  ⟨⟨nodup_nil, by simp [RwSystem.init, rwlockInit], rfl, .inl ⟨rfl, rfl⟩, rfl,
    fun _ hne => absurd rfl hne⟩, fun _ _ hne => absurd rfl hne⟩

theorem reach_shared {ops : List (RwOp T)}
    (h : Run.Reach rwStep (fun s op => Owns s op ∧ Roomy s op) (RwSystem.init preference) ops s) :
    Shared 0 s ∧ WriterPending s :=
  h.invariant (P := fun s => Shared 0 s ∧ WriterPending s) shared_init
    fun _ _ _ hs hl hstep => rwStep_shared hstep hl.1 hl.2 hs

/-- `rwlock_wrlock` の中にいて、まだ取っていない thread。 -/
def RwSystem.insideWrlock (s : RwSystem T) : Finset T := s.lock.writers.toFinset ∪ s.wokenWriters

/--
**書く側は誰とも同時に入らず、数は勘定と合う。**

`reader_count` は持たれている read lock の数であり、`writer_wait_count` は `rwlock_wrlock` の中にいて
まだ取っていない thread の数である。
-/
theorem rwlock_exclusive {preference : RwlockPreference} {ops : List (RwOp T)}
    (h : Run.Reach rwStep (fun s op => Owns s op ∧ Roomy s op) (RwSystem.init preference) ops s) :
    s.writes.card ≤ 1 ∧ (s.writes ≠ 0 → s.reads = 0) ∧
    s.lock.readerCount.toInt = s.reads.card ∧
    s.lock.writerWaitCount.toNat = s.insideWrlock.card := by
  obtain ⟨hs, -⟩ := reach_shared h
  refine ⟨?_, ?_, hs.count, ?_⟩
  · rcases hs.writes with ⟨-, h⟩ | ⟨t, -, h, -⟩ <;> simp [h]
  · rcases hs.writes with ⟨-, h⟩ | ⟨t, -, h, hreads⟩
    · exact fun hne => absurd h hne
    · exact fun _ => hreads
  · have hdisj : Disjoint _ s.wokenWriters :=
      Finset.disjoint_left.mpr fun t ht => hs.disjoint t (mem_toFinset.mp ht)
    rw [hs.waiting, RwSystem.insideWrlock, Finset.card_union_of_disjoint hdisj,
      toFinset_card_of_nodup hs.nodup]
    rfl

/--
**空いているのに待つ thread があれば、起こされて調べ直す前の thread がある。**

読む側だけが持つときに reader が待つのは、書く側を優先し、書く側が待っているときだけである。
-/
theorem rwlock_no_lost_wakeup {preference : RwlockPreference} {ops : List (RwOp T)}
    (h : Run.Reach rwStep (fun s op => Owns s op ∧ Roomy s op) (RwSystem.init preference) ops s) :
    (s.lock.writer = none → s.lock.readerCount = 0 →
      s.lock.readers ≠ [] ∨ s.lock.writers ≠ [] → (s.wokenReaders ∪ s.wokenWriters).Nonempty) ∧
    (s.lock.writer = none → 0 < s.lock.readerCount → ∀ t ∈ s.lock.readers,
      0 < s.lock.writerWaitCount ∧ s.lock.preference = .writer) := by
  obtain ⟨hs, hp⟩ := reach_shared h
  refine ⟨fun hfree hzero hwait => ?_, fun hfree _ t ht => ?_⟩
  · have hreads : s.reads = 0 := Multiset.card_eq_zero.mp (by
      have := hs.count
      rw [Words.eq_zero_iff.mp hzero] at this
      omega)
    -- 待つ writer があれば起こされた writer があり、reader だけなら書く側が `woken` にいる
    have hwoken : s.wokenWriters.Nonempty := by
      by_cases hw : s.lock.writers = []
      · obtain ⟨-, hpos⟩ := hs.readers hfree (hwait.resolve_right fun hne => hne hw)
        rw [Words.toNat_pos, hs.waiting, hw] at hpos
        exact Finset.card_pos.mp (by simpa using hpos)
      · exact hp hfree hreads hw
    exact hwoken.mono Finset.subset_union_right
  · obtain ⟨hpref, hpos⟩ := hs.readers hfree (ne_nil_of_mem ht)
    exact ⟨hpos, hpref⟩

end Invariant

/-! ## 例 -/

/-- 書く側が放し、待っていた reader と writer のうち writer が先に起こされる。 -/
theorem rwlock_exclusive_handover : ∃ s : RwSystem Nat,
    Run.Reach rwStep (fun s op => Owns s op ∧ Roomy s op) (RwSystem.init .writer)
      [.wrlock 0, .rdlock 1, .wrlock 2, .wrunlock 0, .wrretest 2] s ∧
    s.writes = {2} ∧ s.lock.readers = [1] ∧ s.writes.card ≤ 1 ∧
    s.lock.readerCount.toInt = s.reads.card := by
  refine Run.exists_reach_of (P := fun s => s.writes = {2} ∧ s.lock.readers = [1])
    (by decide +kernel)
    fun s hreach ⟨hwrites, hreaders⟩ => ?_
  obtain ⟨hcard, -, hcount, -⟩ := rwlock_exclusive hreach
  exact ⟨hwrites, hreaders, hcard, hcount⟩

/-- **重ねて取った read lock は、一つの thread でも二つと数える。** -/
theorem rwlock_counts_locks : ∃ s : RwSystem Nat,
    Run.Reach rwStep (fun s op => Owns s op ∧ Roomy s op) (RwSystem.init .reader)
      [.rdlock 0, .rdlock 0] s ∧
    s.lock.readerCount = 2 ∧ s.reads.toFinset = {0} :=
  ⟨_, Run.reach_of_execute rfl, rfl, rfl⟩

/-- 読む側が放し、待つ writer が起こされて、まだ調べ直していない。 -/
theorem rwlock_no_lost_wakeup_rdunlock : ∃ s : RwSystem Nat,
    Run.Reach rwStep (fun s op => Owns s op ∧ Roomy s op) (RwSystem.init .reader)
      [.rdlock 0, .wrlock 1, .wrlock 2, .rdunlock 0] s ∧
    s.lock.writers = [2] ∧ (s.wokenReaders ∪ s.wokenWriters).Nonempty :=
  Run.exists_reach_of
    (P := fun s => s.lock.writers = [2] ∧ s.lock.writer = none ∧ s.lock.readerCount = 0)
    (by decide +kernel) fun _ hreach ⟨hwriters, hfree, hzero⟩ =>
      ⟨hwriters, (rwlock_no_lost_wakeup hreach).1 hfree hzero (.inr (by rw [hwriters]; simp))⟩

/-- thread 0 が `n + 1` 個の read lock を持ち、thread 1 が書こうと待つ。 -/
def stacked (n : Nat) : RwSystem Nat where
  lock := ⟨[], [1], Int32.ofNat (n + 1), none, 1, .reader⟩
  wokenReaders := ∅
  wokenWriters := ∅
  reads := Multiset.replicate (n + 1) 0
  writes := 0

theorem stacked_succ {n : Nat} : rwStep (stacked n) (.rdlock 0) = some (stacked (n + 1)) := by
  have hcount : Int32.ofNat (n + 1) + 1 = Int32.ofNat (n + 1 + 1) := by
    rw [Int32.ofNat_add (n + 1) 1]
    rfl
  have hstep : rwStep (stacked n) (.rdlock 0) = some { stacked n with
      lock := ⟨[], [1], Int32.ofNat (n + 1) + 1, none, 1, .reader⟩
      reads := 0 ::ₘ Multiset.replicate (n + 1) 0 } := rfl
  rw [hstep, hcount]
  rfl

theorem stacked_reach (n : Nat) : Run.Reach rwStep Owns (stacked 0)
    (replicate n (.rdlock 0)) (stacked n) := by
  induction n with
  | zero => exact .nil
  | succ n ih =>
    rw [replicate_succ']
    exact ih.snoc trivial stacked_succ

/--
**read lock が 2³² 重なると、起こす相手のいない writer が残る。**

`reader_count` は一周して 0 に戻る。誰も持たないように見えるが、待つ writer は起こされていない。
-/
theorem rwlock_wraps : ∃ (ops : List (RwOp Nat)) (s : RwSystem Nat),
    Run.Reach rwStep Owns (RwSystem.init .reader) ops s ∧
    s.lock.writer = none ∧ s.lock.readerCount = 0 ∧ s.lock.writers = [1] ∧
    s.wokenReaders ∪ s.wokenWriters = ∅ := by
  have hfirst : ∃ s, rwStep (RwSystem.init .reader) (.rdlock 0) = some s ∧
      rwStep s (.wrlock 1) = some _ := ⟨_, rfl, rfl⟩
  obtain ⟨s, hread, hwrite⟩ := hfirst
  have hreach := Run.Reach.cons (show Owns _ (.rdlock 0) from trivial) hread
    (.cons (show Owns s (.wrlock 1) from trivial) hwrite (stacked_reach (2 ^ 32 - 1)))
  have hzero : Int32.ofNat (2 ^ 32 - 1 + 1) = 0 := by decide
  exact ⟨_, _, hreach, rfl, hzero, rfl, rfl⟩

end Alos.Sync
