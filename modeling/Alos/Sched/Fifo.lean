import Alos.Sched.Consistency

/-!
# 同じ priority の thread の順番

`scheduler_enqueue` の注釈は、末尾に加えるので同じ priority の中では FIFO であるという。実際には
`scheduler_enqueue` も `scheduler_enqueue_nolock` も先頭に加え、`scheduler_pick_next` も先頭から外す。したがって、
先に加えた thread が先に選ばれるのは、同じ priority で待つ thread がほかにないときに限る。

加えた順番を `stamp` に記し、加える、外す、選ぶ、aging をどう並べても、どの run queue も新しい順に並ぶことを示す。
aging で移った thread は、比べる対象から除く。

* `pick_oldest_iff` — 最も先に加えた thread が選ばれるのは、ほかに待つ thread がないとき、かつそのときに限る
* `pick_overtakes` — 後に加えた thread が先に選ばれる
-/

namespace Alos.Sched

open Links Function List Option

/-- run queue と、待っている thread を加えた順番。 -/
structure Line where
  sched : State
  /-- 待っていない thread は `none` である。 -/
  stamp : Tid → Option Nat
  clock : Nat

inductive LineOp where
  | enqueue (t : Tid)
  | dequeue (t : Tid)
  | pick
  | age (now : UInt64)
  /-- 待っていない thread が走ったり待ったりして、欄が変わる。 -/
  | change (t : Tid) (thread : Thread)

def lineStep (l : Line) : LineOp → Option Line
  | .enqueue t =>
    if l.stamp t = none ∧ t < l.sched.nextTid ∧ (l.sched.threads t).state ≠ .running then
      some ⟨schedulerEnqueue l.sched t, Function.update l.stamp t (some l.clock), l.clock + 1⟩
    else none
  | .dequeue t =>
    if l.stamp t ≠ none then
      some { l with sched := schedulerDequeue l.sched t, stamp := Function.update l.stamp t none }
    else none
  | .pick =>
    let (t, s) := schedulerPickNext l.sched
    some { l with sched := s, stamp := Function.update l.stamp t none }
  | .age now => (ageQueues now Priority.aging l.sched).map fun s => { l with sched := s }
  | .change t thread =>
    if l.stamp t = none then some { l with sched := l.sched.modify t fun _ => thread } else none

/-- どの列も空である。 -/
structure Vacant (s : State) : Prop where
  links : ∀ t, s.links.next t = none ∧ s.links.prev t = none
  runQueues : ∀ p, s.runQueues p = none
  sleepQueue : s.sleepQueue = none

/-- まだ何も加えていない。 -/
def Line.start (s : State) : Line := ⟨s, fun _ => none, 0⟩

/-! ## 新しい順 -/

/-- どちらも aging で移っていなければ、`t` の方が後に加えられた。 -/
def Line.Newer (l : Line) (t u : Tid) : Prop :=
  (l.sched.threads t).isBoosted = false → (l.sched.threads u).isBoosted = false →
    ∀ m n, l.stamp t = some m → l.stamp u = some n → n < m

/-- run queue は列 `r` を表し、新しい順に並んでいる。 -/
structure Ordered (l : Line) (r : Lists) : Prop where
  queued : Queued l.sched r
  awake : r.sleep = []
  waiting : ∀ t, l.stamp t ≠ none ↔ ∃ p, t ∈ r.run p
  exist : ∀ p, ∀ t ∈ r.run p, t < l.sched.nextTid
  newest : ∀ p, (r.run p).Pairwise l.Newer
  past : ∀ t n, l.stamp t = some n → n < l.clock

variable {l : Line} {r : Lists} {s : State} {t : Tid} {p : Priority}

theorem start_ordered (h : Vacant s) : Ordered (.start s) ⟨fun _ => [], [], fun _ => []⟩ where
  queued :=
    { linked := fun p => ⟨h.runQueues p, trivial⟩
      ready := fun _ _ ht => absurd ht not_mem_nil
      chain := h.sleepQueue
      sleeping := fun _ ht => absurd ht not_mem_nil
      sorted := .nil
      free := fun t _ => h.links t }
  awake := rfl
  waiting t := by simp [Line.start]
  exist _ _ ht := absurd ht not_mem_nil
  newest _ := .nil
  past _ _ := nofun

namespace Ordered

section

variable (h : Ordered l r)
include h

theorem loose (ht : l.stamp t = none) : r.Loose t := by
  refine ⟨fun p hp => (h.waiting t).mpr ⟨p, hp⟩ ht, ?_⟩
  rw [h.awake]
  exact not_mem_nil

theorem enqueue (ht : l.stamp t = none) (hlt : t < l.sched.nextTid)
    (hstate : (l.sched.threads t).state ≠ .running) :
    Ordered ⟨schedulerEnqueue l.sched t, update l.stamp t (some l.clock), l.clock + 1⟩
      (r.enqueue (l.sched.threads t).priority t) where
  queued := h.queued.enqueue (h.loose ht) hstate
  awake := h.awake
  waiting u := by
    simp only [Lists.mem_enqueue]
    by_cases hu : u = t
    · subst hu
      simp
    · simp [hu, h.waiting u]
  exist q u hu := by
    rw [enqueue_nextTid]
    rcases Lists.mem_enqueue.mp hu with ⟨-, rfl⟩ | hu
    · exact hlt
    · exact h.exist q u hu
  newest q := by
    have hne : ∀ u ∈ r.run q, u ≠ t := fun u hu he => (h.loose ht).1 q (he ▸ hu)
    have hold : (r.run q).Pairwise (Line.Newer ⟨schedulerEnqueue l.sched t,
        update l.stamp t (some l.clock), l.clock + 1⟩) := by
      refine (h.newest q).imp_of_mem fun {u v} hu hv huv => ?_
      simpa [Line.Newer, enqueue_of_ne _ _ _, enqueue_of_ne _ _ _, hne u hu, hne v hv] using huv
    by_cases hq : q = (l.sched.threads t).priority
    · subst hq
      simp only [Lists.enqueue, update_self]
      refine pairwise_cons.mpr ⟨fun u hu _ _ m n hm hn => ?_, hold⟩
      simp only [update_self, some.injEq, update_of_ne (hne u hu)] at hm hn
      exact hm ▸ h.past u n hn
    · simp only [Lists.enqueue, update_of_ne hq]
      exact hold
  past u n hn := by
    by_cases hu : u = t
    · subst hu
      simp only [update_self, some.injEq] at hn
      exact hn ▸ Nat.lt_succ_self _
    · simp only [update_of_ne hu] at hn
      exact Nat.lt_succ_of_lt (h.past u n hn)

/-- 残った thread の順番は変わらない。 -/
theorem newest_unlink (ht : t ∈ r.run p) (l' : Line) (q : Priority)
    (hsame : ∀ u, u ≠ t → (l'.sched.threads u).isBoosted = (l.sched.threads u).isBoosted ∧
      l'.stamp u = l.stamp u) : ((r.unlink p t).run q).Pairwise l'.Newer := by
  have hout := (h.queued.loose_unlink ht).1 q
  have hsub : ((r.unlink p t).run q).Sublist (r.run q) := by
    by_cases hq : q = p
    · subst hq
      simp only [Lists.unlink, update_self]
      exact erase_sublist
    · simp only [Lists.unlink, update_of_ne hq]
      exact List.Sublist.refl _
  refine ((h.newest q).sublist hsub).imp_of_mem fun {u v} hu hv huv => ?_
  have hu := hsame u fun he => hout (he ▸ hu)
  have hv := hsame v fun he => hout (he ▸ hv)
  simpa only [Line.Newer, hu.1, hu.2, hv.1, hv.2] using huv

theorem taken (ht : t ∈ r.run p) :
    Ordered { l with sched := l.sched.taken p t, stamp := update l.stamp t none }
      (r.unlink p t) where
  queued := h.queued.unlink ht
  awake := h.awake
  waiting u := by
    by_cases hu : u = t
    · subst hu
      simpa using (h.queued.loose_unlink ht).1
    · simp [hu, Lists.mem_unlink hu, h.waiting u]
  exist q u hu := h.exist q u (Lists.mem_of_unlink hu)
  newest q := h.newest_unlink ht _ q fun u hu => ⟨rfl, update_of_ne hu _ _⟩
  past u n hn := by
    by_cases hu : u = t
    · subst hu
      simp at hn
    · simp only [update_of_ne hu] at hn
      exact h.past u n hn

theorem run_length : (r.run p).length ≤ l.sched.nextTid :=
  length_le (h.queued.linked p).chain.nodup (h.exist p)

theorem boost {now : UInt64} (ht : t ∈ r.run p) :
    Ordered { l with sched := l.sched.boost p now t } (r.boost p t) where
  queued := h.queued.boost ht
  awake := h.awake
  waiting u := by
    by_cases hu : u = t
    · subst hu
      exact ⟨fun _ => ⟨.ui, Lists.mem_enqueue.mpr (.inl ⟨rfl, rfl⟩)⟩,
        fun _ => (h.waiting u).mpr ⟨p, ht⟩⟩
    · simp [Lists.boost, Lists.mem_enqueue, hu, Lists.mem_unlink hu, h.waiting u]
  exist q u hu := by
    rcases Lists.mem_enqueue.mp hu with ⟨-, rfl⟩ | hu
    · exact h.exist p u ht
    · exact h.exist q u (Lists.mem_of_unlink hu)
  newest q := by
    have hold := h.newest_unlink ht { l with sched := l.sched.boost p now t } q fun u hu =>
      ⟨by simp [State.boost, State.modify, State.detach, hu], rfl⟩
    by_cases hq : q = .ui
    · subst hq
      -- 移った thread は、比べる対象でない
      refine pairwise_cons.mpr ⟨fun u _ hb => ?_, hold⟩
      simp [State.boost, State.modify] at hb
    · simp only [Lists.boost, Lists.enqueue, update_of_ne hq]
      exact hold
  past := h.past

theorem change (ht : l.stamp t = none) (thread : Thread) :
    Ordered { l with sched := l.sched.modify t fun _ => thread } r where
  queued := h.queued.modify (h.loose ht) fun _ => thread
  awake := h.awake
  waiting := h.waiting
  exist := h.exist
  newest q := by
    have hne : ∀ u ∈ r.run q, u ≠ t := fun u hu he => (h.loose ht).1 q (he ▸ hu)
    refine (h.newest q).imp_of_mem fun {u v} hu hv huv => ?_
    simpa only [Line.Newer, modify_of_ne _ _ _ (hne u hu), modify_of_ne _ _ _ (hne v hv)] using huv
  past := h.past

/-- 外した thread は待っていない。 -/
theorem pick : ∃ r', Ordered { l with
    sched := (schedulerPickNext l.sched).2
    stamp := update l.stamp (schedulerPickNext l.sched).1 none } r' := by
  rcases h.queued.pick with ⟨heq, hempty⟩ | ⟨p, t, rest, hrun, -, heq⟩
  · have hidle : l.stamp l.sched.idle = none := by
      by_contra hne
      obtain ⟨p, hp⟩ := (h.waiting _).mp hne
      rw [hempty] at hp
      cases hp
    refine ⟨r, ?_⟩
    rw [heq]
    simpa only [← hidle, update_eq_self] using h
  · refine ⟨r.unlink p t, ?_⟩
    rw [heq]
    exact h.taken (by rw [hrun]; exact mem_cons_self)

end

end Ordered

/-- 一つの手で、新しい順は保たれる。 -/
theorem lineStep_ordered {l' : Line} {op : LineOp} (h : Ordered l r)
    (hstep : lineStep l op = some l') : ∃ r', Ordered l' r' := by
  cases op with
  | enqueue t =>
    obtain ⟨⟨ht, hlt, hstate⟩, ⟨⟩⟩ := ite_none_right_eq_some.mp hstep
    exact ⟨_, h.enqueue ht hlt hstate⟩
  | dequeue t =>
    obtain ⟨ht, ⟨⟩⟩ := ite_none_right_eq_some.mp hstep
    obtain ⟨p, hp⟩ := (h.waiting t).mp ht
    rw [h.queued.dequeue_eq hp]
    exact ⟨_, h.taken hp⟩
  | pick =>
    obtain rfl := some.inj hstep
    exact h.pick
  | age now =>
    obtain ⟨s', r', hs', h'⟩ := ageQueues_rule now
      (P := fun s r => Ordered { l with sched := s } r) (fun _ _ h => h.queued)
      (fun _ _ p h => h.run_length) (fun _ _ _ _ h ht _ _ => h.boost ht) Priority.aging
        (by decide) h
    simp only [lineStep, hs', map_some, some.injEq] at hstep
    exact ⟨r', hstep ▸ h'⟩
  | change t thread =>
    obtain ⟨ht, ⟨⟩⟩ := ite_none_right_eq_some.mp hstep
    exact ⟨r, h.change ht _⟩

theorem line_ordered (hs : Vacant s) {ops : List LineOp}
    (h : Run.Reach lineStep (fun _ _ => True) (.start s) ops l) : ∃ r, Ordered l r :=
  h.invariant (P := fun l => ∃ r, Ordered l r) ⟨_, start_ordered hs⟩
    fun _ _ _ ⟨_, hr⟩ _ hstep => lineStep_ordered hr hstep

/-! ## 選ばれる thread -/

/-- `u` は `t` と同じ priority で待っていて、aging で移っていない。 -/
def Line.Peer (l : Line) (t u : Tid) : Prop :=
  (l.sched.threads u).priority = (l.sched.threads t).priority ∧
    (l.sched.threads u).isBoosted = false

/-- 選ばれるのは、同じ priority で最も後に加えた thread である。 -/
theorem pick_newest (h : Ordered l r) {u : Tid} {m n : Nat}
    (hpick : (schedulerPickNext l.sched).1 = t) (ht : l.stamp t = some n)
    (hb : (l.sched.threads t).isBoosted = false) (hu : l.stamp u = some m) (hpeer : l.Peer t u)
    (hne : u ≠ t) : m < n := by
  obtain ⟨q, hq⟩ := (h.waiting u).mp (by simp [hu])
  obtain ⟨p', hp'⟩ := (h.waiting t).mp (by simp [ht])
  rcases h.queued.pick with ⟨-, hempty⟩ | ⟨p, t', rest, hrun, -, heq⟩
  · rw [hempty] at hq
    cases hq
  obtain rfl : t' = t := by rw [← hpick, heq]
  have htmem : t' ∈ r.run p := by rw [hrun]; exact mem_cons_self
  obtain rfl : q = p := by
    rw [← (h.queued.ready q u hq).2, ← (h.queued.ready p t' htmem).2]
    exact hpeer.1
  rw [hrun] at hq
  have hnewest := h.newest q
  rw [hrun] at hnewest
  have hrest := (mem_cons.mp hq).resolve_left hne
  exact (pairwise_cons.mp hnewest).1 u hrest hb hpeer.2 n m ht hu

/-- 選ばれるのは、空でない最も高い run queue の先頭である。 -/
theorem Queued.pick_head {p : Priority} (h : Queued s r) (hhead : s.runQueues p = some t)
    (hhigh : ∀ q, p.rank < q.rank → s.runQueues q = none) : (schedulerPickNext s).1 = t := by
  have hmem := h.head_mem hhead
  rcases h.pick with ⟨-, hempty⟩ | ⟨q, u, rest, hrun, hhigher, heq⟩
  · rw [hempty] at hmem
    cases hmem
  have hle : p.rank ≤ q.rank := by
    by_contra hlt
    rw [hhigher p (Nat.not_le.mp hlt)] at hmem
    cases hmem
  have hge : q.rank ≤ p.rank := by
    by_contra hlt
    have hnil := (h.linked q).chain.eq_nil_iff.mp (hhigh q (Nat.not_le.mp hlt))
    rw [hrun] at hnil
    cases hnil
  obtain rfl : p = q := by
    cases p <;> cases q <;> first | rfl | simp [Priority.rank] at hle hge
  have hchain := (h.linked p).chain
  rw [hrun, hhead] at hchain
  rw [heq]
  exact (some.inj hchain.1).symm

/--
**最も先に加えた thread が選ばれるのは、同じ priority で待つ thread がほかにないとき、かつそのときに限る。**

`t` は空でない最も高い run queue の先頭である。加える、外す、選ぶ、aging をどう並べて届いた状態でもよい。
-/
theorem pick_oldest_iff (hs : Vacant s) {ops : List LineOp}
    (h : Run.Reach lineStep (fun _ _ => True) (.start s) ops l) {p : Priority} {n : Nat}
    (hhead : l.sched.runQueues p = some t)
    (hhigh : ∀ q, p.rank < q.rank → l.sched.runQueues q = none) (ht : l.stamp t = some n)
    (hb : (l.sched.threads t).isBoosted = false) :
    (schedulerPickNext l.sched).1 = t ∧ ((∀ u m, l.stamp u = some m → l.Peer t u → n ≤ m) ↔
      ∀ u, l.stamp u ≠ none → l.Peer t u → u = t) := by
  obtain ⟨r, hr⟩ := line_ordered hs h
  have hpick := hr.queued.pick_head hhead hhigh
  refine ⟨hpick, ?_, ?_⟩
  · intro holdest u hu hpeer
    obtain ⟨m, hm⟩ := ne_none_iff_exists'.mp hu
    by_contra hne
    exact absurd (pick_newest hr hpick ht hb hm hpeer hne) (Nat.not_lt.mpr (holdest u m hm hpeer))
  · intro halone u m hu hpeer
    obtain rfl := halone u (by simp [hu]) hpeer
    rw [ht] at hu
    exact Nat.le_of_eq (some.inj hu)

/-- 起動直後の、四つの NORMAL の thread。 -/
def fourThreads : State :=
  { schedulerInit 0 with threads := fun _ => newThread none .normal 0, nextTid := 4 }

theorem fourThreads_vacant : Vacant fourThreads := ⟨init_links 0, init_runQueues 0, rfl⟩

/-- NORMAL の二つより後に加えられた、HIGH の 3 が選ばれる。 -/
theorem pick_oldest_iff_high : ∃ l, Run.Reach lineStep (fun _ _ => True) (.start fourThreads)
      [.enqueue 1, .enqueue 2, .change 3 (newThread none .high 0), .enqueue 3] l ∧
    l.stamp 1 = some 0 ∧ l.stamp 2 = some 1 ∧ l.stamp 3 = some 2 ∧
    (schedulerPickNext l.sched).1 = 3 ∧ ((∀ u m, l.stamp u = some m → l.Peer 3 u → 2 ≤ m) ↔
      ∀ u, l.stamp u ≠ none → l.Peer 3 u → u = 3) :=
  (Run.reach_of_execute rfl).exists_and fun hreach => ⟨rfl, rfl, rfl,
    pick_oldest_iff fourThreads_vacant hreach (p := .high) rfl (fun
      | .ui, _ => rfl
      | .idle, hq | .background, hq | .normal, hq | .high, hq => absurd hq (by decide)) rfl rfl⟩

/-- **thread 2 が先に加えられたが、後に加えられた thread 3 が先に選ばれる。** -/
theorem pick_overtakes : ∃ l,
    Run.Reach lineStep (fun _ _ => True) (.start fourThreads) [.enqueue 2, .enqueue 3] l ∧
    l.stamp 2 = some 0 ∧ l.stamp 3 = some 1 ∧ l.Peer 2 2 ∧ l.Peer 2 3 ∧
    (schedulerPickNext l.sched).1 = 3 := by
  exact ⟨_, Run.reach_of_execute rfl, rfl, rfl, ⟨rfl, rfl⟩, ⟨rfl, rfl⟩, rfl⟩

end Alos.Sched
