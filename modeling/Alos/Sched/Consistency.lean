import Alos.Lib.Run
import Alos.Sched.Steps

/-!
# run queue と sleep queue の整合

待っている thread を `thread_kill` せず、`mutex_lock` が run queue にある owner を引き上げないかぎり、
どの時点でも、五つの run queue と sleep queue は有限の列で、
thread は高々一つの列に一度だけ現れる。run queue は双方向につながり、READY の thread は自分の priority の
run queue にある。

設計として、sleep queue は `sched_next` だけでつながり、`sched_prev` は使わない。また、idle は
`scheduler_init` の後、最初に走るまでどの run queue にもない。

* `queues_consistent` — 届くすべての状態で整合している
* `queues_inconsistent` — 待っている thread を kill すると、一つの thread が二つの列に現れる
-/

namespace Alos.Sched

open Links Function List

variable {timed : Prop} {D : Tid → Thread → Prop} {s : State}

/-! ## 初期状態 -/

section Init

variable (now : UInt64)

theorem init_links (t : Tid) : (schedulerInit now).links.next t = none ∧
    (schedulerInit now).links.prev t = none := by
  by_cases ht : t = 1 <;>
    simp [schedulerInit, threadCreate, schedulerEnqueue, schedulerDequeue, newThread, Links.push,
      Links.bypass, Links.clear, setNext, setPrev, ht]

theorem init_runQueues (p : Priority) : (schedulerInit now).runQueues p = none := by
  cases p <;>
    simp [schedulerInit, threadCreate, schedulerEnqueue, schedulerDequeue, newThread, Links.push,
      Links.clear, setNext, setPrev]

theorem init_inv (hmain : D 0 { newThread none .normal 0 with state := .running })
    (hidle : D 1 (newThread none .idle now)) :
    Inv timed D (schedulerInit now) ⟨fun _ => [], [], fun _ => []⟩ := by
  have hwait : ∀ q, (schedulerInit now).waitQueues q = ⟨none, none⟩ := by
    intro q
    by_cases hq : q = .join 1 <;> simp [schedulerInit, threadCreate, schedulerDequeue, hq]
  refine ⟨⟨⟨fun p => ⟨init_runQueues now p, trivial⟩, ?_, rfl, ?_, List.Pairwise.nil,
    fun t _ => init_links now t⟩, ⟨fun q => ?_, fun q _ => ?_, ?_⟩,
    ⟨?_, ?_, ?_, rfl, fun t ht => ?_⟩⟩, rfl⟩
  · exact fun p t ht => absurd ht not_mem_nil
  · exact fun t ht => absurd ht not_mem_nil
  · rw [hwait]
    rfl
  · rw [hwait]
    rfl
  · exact fun q t ht => absurd ht not_mem_nil
  · rintro t (⟨p, ht⟩ | ht | ⟨q, ht⟩) <;> exact absurd ht not_mem_nil
  · exact show (0 : Nat) < 2 by decide
  · exact show (1 : Nat) < 2 by decide
  · rcases t with _ | _ | t
    · refine ⟨fun _ => rfl, ?_, ?_, ?_, hmain⟩ <;> intro h <;> cases h
    · refine ⟨?_, fun _ => .inl rfl, ?_, fun _ => .inl rfl, hidle⟩ <;> intro h <;> cases h
    · exact absurd ht (Nat.not_lt.mpr (Nat.le_add_left 2 t))

end Init

/-! ## 届くすべての状態 -/

/-- 待っている thread を kill せず、run queue にある owner を引き上げない。 -/
def Tame (s : State) : Op → Prop
  | .inherit owner => (s.threads owner).state = .ready →
      ¬(s.threads owner).priority.rank < (s.threads s.current).priority.rank
  | .kill t _ => (s.threads t).state ≠ .blocked ∧ (s.threads t).state ≠ .sleeping
  | _ => True

instance (s : State) : (op : Op) → Decidable (Tame s op)
  | .inherit _ => inferInstanceAs (Decidable (_ → _))
  | .kill t _ => inferInstanceAs (Decidable
      ((s.threads t).state ≠ .blocked ∧ (s.threads t).state ≠ .sleeping))
  | .start | .time _ | .create _ _ | .reaperInit | .schedule | .preempt _ | .tick | .sleep _
  | .wait _ _ _ | .waitResume _ | .wakeOne _ | .wakeAll _ | .restore | .block _ | .timedBlock _ _
  | .resume _ _ | .wake _ _ | .exit _ => inferInstanceAs (Decidable True)

theorem closed_true : Closed fun _ _ => True :=
  ⟨fun _ _ _ _ _ _ _ _ _ => trivial, fun _ _ _ _ => trivial⟩

/-- 手の前提を満たす実行は、不変条件を保つ。 -/
theorem run_inv {legal : State → Op → Prop} {now : UInt64} {ops : List Op} (hD : Closed D)
    (hmain : D 0 { newThread none .normal 0 with state := .running })
    (hidle : D 1 (newThread none .idle now))
    (hfits : ∀ s r op, Inv timed D s r → legal s op → Fits timed D s r op)
    (h : Run.Reach step legal (schedulerInit now) ops s) : ∃ r, Inv timed D s r :=
  h.invariant (P := fun s => ∃ r, Inv _ D s r) ⟨_, init_inv now hmain hidle⟩
    fun s op _ ⟨r, hinv⟩ hlegal hstep => step_inv hD hinv (hfits s r op hinv hlegal) hstep

theorem tame_inv {now : UInt64} {ops : List Op}
    (h : Run.Reach step Tame (schedulerInit now) ops s) : ∃ r, Inv True (fun _ _ => True) s r := by
  refine run_inv closed_true trivial trivial (fun s r op _ htame => ?_) h
  cases op with
  | kill t status => exact htame
  | inherit owner => exact ⟨htame, fun _ _ _ => trivial⟩
  | restore => exact fun _ => trivial
  | tick => exact fun _ _ _ _ _ => trivial
  | reaperInit => exact ⟨trivial, trivial⟩
  | _ => trivial

/-- run queue と sleep queue の列は互いに素である。 -/
theorem Queued.nodup {r : Lists} (h : Queued s r) :
    (Priority.descending.flatMap r.run ++ r.sleep).Nodup := by
  refine nodup_append.mpr ⟨nodup_flatMap.mpr ⟨fun p _ => (h.linked p).chain.nodup, ?_⟩,
    h.chain.nodup, fun t ht u hu he => ?_⟩
  · refine List.Pairwise.imp ?_ (show Priority.descending.Nodup by decide)
    exact fun {p q} hne t hp hq => hne (h.run_unique hp hq)
  · obtain ⟨p, -, hp⟩ := mem_flatMap.mp ht
    exact h.run_not_sleep hp (he ▸ hu)

/--
**待っている thread を kill せず、run queue にある owner を引き上げないかぎり、
run queue と sleep queue は整合している。**

どの thread も、列全体を通じて高々一度しか現れない。列はどれも有限であり、run queue の `sched_prev` は
一つ前を、sleep queue の `sched_prev` は NULL を指す。READY の thread は、現在の thread と idle を除いて
自分の priority の run queue にある。
-/
theorem queues_consistent {now : UInt64} {ops : List Op}
    (h : Run.Reach step Tame (schedulerInit now) ops s) : ∃ r : Lists,
    (∀ p, Linked s.links (s.runQueues p) (r.run p)) ∧
    Chain s.links.next s.sleepQueue r.sleep ∧ (∀ t ∈ r.sleep, s.links.prev t = none) ∧
    (Priority.descending.flatMap r.run ++ r.sleep).Nodup ∧
    ∀ t < s.nextTid, (s.threads t).state = .ready → t ≠ s.current → t ≠ s.idle →
      t ∈ r.run (s.threads t).priority := by
  obtain ⟨r, ⟨hqueued, -, hbook⟩, -⟩ := tame_inv h
  exact ⟨r, hqueued.linked, hqueued.chain, fun t ht => (hqueued.sleeping t ht).1, hqueued.nodup,
    fun t ht hready _ hidle => ((hbook.placed t ht).ready hready).resolve_left hidle⟩

/-- main が眠り、新しい thread が走る。 -/
theorem queues_consistent_sleep : ∃ s, Run.Reach step Tame (schedulerInit 0)
      [.start, .create none .normal, .create none .ui, .sleep 5, .kill 2 7] s ∧
    s.sleepQueue = some 0 ∧ s.runQueues .normal = some 2 ∧ s.current = 3 ∧
    ∃ r : Lists, (∀ p, Linked s.links (s.runQueues p) (r.run p)) ∧
      (Priority.descending.flatMap r.run ++ r.sleep).Nodup := by
  refine Run.exists_reach_of
    (P := fun s => s.sleepQueue = some 0 ∧ s.runQueues .normal = some 2 ∧ s.current = 3)
    (by decide +kernel) fun s hreach ⟨hsleep, hrun, hcur⟩ => ?_
  obtain ⟨r, hlinked, -, -, hnodup, -⟩ := queues_consistent hreach
  exact ⟨hsleep, hrun, hcur, r, hlinked, hnodup⟩

/--
**待っている thread を kill すると、一つの thread が二つの列に現れる。**

main は sleep queue の先頭のまま、run queue の先頭にも加わる。また、`scheduler_init` の直後の idle は READY
であるが、どの run queue にもない。
-/
theorem queues_inconsistent :
    (((schedulerInit 0).threads 1).state = .ready ∧ (schedulerInit 0).current ≠ 1 ∧
      ∀ p, (schedulerInit 0).runQueues p = none) ∧
    ∃ s, Run.Reach step (fun _ _ => True) (schedulerInit 0)
        [.start, .create none .normal, .sleep 5, .kill 0 7] s ∧
      s.sleepQueue = some 0 ∧ s.runQueues .normal = some 0 :=
  ⟨⟨rfl, by decide, init_runQueues 0⟩, Run.exists_reach (by decide +kernel)⟩

section Move

variable {r : Lists} {t : Tid} {p new : Priority}

/-- 一つの queue にだけ `t` があるとき、そこから外すのは、どの queue からも外すことである。 -/
theorem Queued.unlink_run (h : Queued s r) (ht : t ∈ r.run p) {q : Priority} :
    (r.unlink p t).run q = (r.run q).erase t := by
  by_cases hq : q = p
  · subst hq
    exact update_self ..
  · rw [erase_of_not_mem fun hmem => hq (h.run_unique hmem ht)]
    exact update_of_ne hq _ _

theorem flatMap_perm_cons {f g : Priority → List Tid} {ps : List Priority} (hnodup : ps.Nodup)
    (hp : p ∈ ps) (hself : (f p).Perm (t :: g p)) (hother : ∀ q, q ≠ p → f q = g q) :
    (ps.flatMap f).Perm (t :: ps.flatMap g) := by
  obtain ⟨a, b, rfl⟩ := append_of_mem hp
  have hne : ∀ q ∈ a ++ b, f q = g q := fun q hq => hother q fun he =>
    (nodup_cons.mp (nodup_middle.mp hnodup)).1 (he ▸ hq)
  rw [flatMap_append, flatMap_append, flatMap_cons, flatMap_cons,
    flatMap_congr fun q hq => hne q (mem_append_left b hq),
    flatMap_congr fun q hq => hne q (mem_append_right a hq)]
  exact ((hself.append_right _).append_left _).trans perm_middle

/-- `t` だけが `new` の run queue に移り、ほかの thread は元の queue に元の順で残る。 -/
structure Lists.Moved (r r' : Lists) (t : Tid) (new : Priority) : Prop where
  perm : (Priority.descending.flatMap r'.run).Perm (Priority.descending.flatMap r.run)
  mem : t ∈ r'.run new
  others : ∀ q, (r'.run q).erase t = (r.run q).erase t
  sleep : r'.sleep = r.sleep

section

variable (h : Queued s r) (ht : t ∈ r.run p)
include h ht

theorem Queued.moved : r.Moved ((r.unlink p t).enqueue new t) t new := by
  have hout := h.loose_unlink ht
  have hmem : ∀ q, q ∈ Priority.descending := fun q => by cases q <;> decide
  have hperm : (Priority.descending.flatMap r.run).Perm
      (t :: Priority.descending.flatMap (r.unlink p t).run) := by
    refine flatMap_perm_cons (by decide) (hmem p) ?_ fun q hq => (update_of_ne hq _ _).symm
    rw [h.unlink_run ht]
    exact perm_cons_erase ht
  refine ⟨.trans (flatMap_perm_cons (by decide) (hmem new) ?_ fun q hq => ?_) hperm.symm,
    Lists.mem_enqueue.mpr (.inl ⟨rfl, rfl⟩), fun q => ?_, rfl⟩
  · exact .of_eq (update_self ..)
  · exact update_of_ne hq _ _
  · by_cases hq : q = new
    · subst hq
      simp [Lists.enqueue, h.unlink_run ht]
    · simp only [Lists.enqueue, update_of_ne hq]
      rw [erase_of_not_mem (hout.1 q), h.unlink_run ht]

/-- run queue にある thread の、state と priority のほかの欄を書き換える。 -/
theorem Queued.retouch {f : Thread → Thread}
    (hf : (f (s.threads t)).state = .ready ∧ (f (s.threads t)).priority = p) :
    Queued (s.modify t f) r := by
  refine h.congr rfl rfl rfl (fun q u hu => ?_) fun u hu => ?_
  · by_cases hut : u = t
    · subst hut
      rw [modify_self, hf.1, hf.2, (h.ready p u ht).1, (h.ready p u ht).2]
      exact ⟨rfl, rfl⟩
    · rw [modify_of_ne _ _ _ hut]
      exact ⟨rfl, rfl⟩
  · rw [modify_of_ne s t f fun he => h.run_not_sleep ht (he ▸ hu)]
    exact ⟨rfl, rfl, rfl⟩

/-- 先頭でなければ、先頭を指すポインタは動かず、priority を先に書き換えても同じことである。 -/
theorem Queued.setPriority (hhead : s.runQueues p = some t → new = p) :
    ∃ r', Queued (threadSetPriority s t new) r' ∧ r.Moved r' t new := by
  obtain ⟨hstate, hpri⟩ := h.ready p t ht
  by_cases hnew : new = p
  · subst hnew
    refine ⟨r, ?_, .refl _, ht, fun _ => rfl, rfl⟩
    rw [threadSetPriority, if_neg fun hc => hc.2 hpri]
    exact h.retouch ht ⟨hstate, rfl⟩
  · have hprev : s.links.prev t ≠ none := fun hp =>
      hnew (hhead ((h.linked p).head_of_prev ht hp))
    refine ⟨_, ?_, h.moved ht⟩
    have hq := h.requeue ht (f := ({ · with priority := new, basePriority := new })) hstate
    rw [threadSetPriority, if_pos ⟨by rw [modify_self]; exact hstate, hpri ▸ Ne.symm hnew⟩]
    simpa [schedulerDequeue, State.detach, hprev, State.modify] using hq

end

theorem runQueues_schedulerEnqueue (hne : (s.threads t).priority ≠ p) :
    (schedulerEnqueue s t).runQueues p = s.runQueues p := by
  unfold schedulerEnqueue
  split
  · rfl
  · exact update_of_ne hne.symm _ _

theorem runQueues_schedulerDequeue (hne : (s.threads t).priority ≠ p) :
    (schedulerDequeue s t).runQueues p = s.runQueues p := by
  unfold schedulerDequeue
  simp only
  split
  · exact update_of_ne hne.symm _ _
  · rfl

/-- ほかの priority の run queue の先頭を指すポインタは変わらない。 -/
theorem runQueues_threadSetPriority (hne : new ≠ p) :
    (threadSetPriority s t new).runQueues p = s.runQueues p := by
  have hpri : ((s.modify t ({ · with priority := new, basePriority := new })).threads t).priority
      ≠ p := by rwa [modify_self]
  unfold threadSetPriority
  simp only
  split
  · refine Eq.trans (runQueues_schedulerEnqueue ?_) (runQueues_schedulerDequeue hpri)
    exact hpri
  · rfl

/-- 先頭の thread に新しい priority を与えると、元の run queue の先頭にも残る。 -/
theorem Queued.head_of_moved {r' : Lists} (h' : Queued (threadSetPriority s t new) r')
    (hmoved : r.Moved r' t new) (hhead : s.runQueues p = some t) : new = p := by
  by_contra hne
  rw [← runQueues_threadSetPriority hne] at hhead
  exact hne (h'.run_unique hmoved.mem (h'.head_mem hhead))

/--
**`thread_set_priority` と、boost されていないときの `thread_set_nice` は、run queue の先頭でない thread を
新しい priority の run queue に移し、ほかの thread の列を変えない。**

先頭の thread は、priority が変わらないときに限り、この逆も成り立つ。priority を書き換えてから `scheduler_dequeue` を呼ぶので、
元の run queue の先頭を指すポインタが残るからである。
-/
theorem set_priority_moves {s' : State} (h : Queued s r) (ht : t ∈ r.run p)
    (hs' : s' = threadSetPriority s t new ∨
      ∃ nice, ¬(s.threads t).isBoosted ∧ schedulerNiceToPriority (clampNice nice) = new ∧
        s' = threadSetNice s t nice) :
    (∃ r', Queued s' r' ∧ r.Moved r' t new) ↔ (s.runQueues p = some t → new = p) := by
  obtain rfl | ⟨nice, hboost, rfl, rfl⟩ := hs'
  · exact ⟨fun ⟨_, h', hmoved⟩ => h'.head_of_moved hmoved, h.setPriority ht⟩
  · have hset : threadSetNice s t nice = threadSetPriority _ t _ :=
      if_neg (by rw [modify_self]; exact hboost)
    rw [hset]
    exact ⟨fun ⟨_, h', hmoved⟩ => h'.head_of_moved hmoved,
      (h.retouch ht (h.ready p t ht)).setPriority ht⟩

/-- 先に作った 2 は先頭でない。 -/
theorem set_priority_moves_second : ∃ s, Run.Reach step Tame (schedulerInit 0)
      [.create none .normal, .create none .normal] s ∧ s.runQueues .normal = some 3 ∧
    ∃ r r' : Lists, Queued s r ∧ 2 ∈ r.run .normal ∧
      Queued (threadSetPriority s 2 .ui) r' ∧ r.Moved r' 2 .ui := by
  refine Run.exists_reach_of
    (P := fun s => s.runQueues .normal = some 3 ∧ 2 < s.nextTid ∧ 2 ≠ s.idle ∧
      (s.threads 2).state = .ready ∧ (s.threads 2).priority = .normal)
    (by decide +kernel) fun s hreach ⟨hhead, hlt, hidle, hready, hpri⟩ => ?_
  obtain ⟨r, ⟨hqueued, -, hbook⟩, -⟩ := tame_inv hreach
  have hmem := ((hbook.placed 2 hlt).ready hready).resolve_left hidle
  rw [hpri] at hmem
  obtain ⟨r', h'⟩ := (set_priority_moves hqueued hmem (.inl rfl)).mpr (by rw [hhead]; simp)
  exact ⟨hhead, r, r', hqueued, hmem, h'⟩

/-- **先頭の thread の priority を変えると、同じ thread が二つの run queue の先頭になる。** -/
theorem set_priority_breaks : ∃ s, Run.Reach step Tame (schedulerInit 0)
      [.create none .normal, .create none .normal] s ∧
    (∃ r, Queued s r ∧ 3 ∈ r.run .normal) ∧ ¬(s.threads 3).isBoosted ∧
    ∀ s', s' = threadSetPriority s 3 .ui ∨ s' = threadSetNice s 3 (-20) →
      s'.runQueues .normal = some 3 ∧ s'.runQueues .ui = some 3 ∧ ¬∃ r', Queued s' r' := by
  refine Run.exists_reach_of (P := fun s => s.runQueues .normal = some 3 ∧
    ¬(s.threads 3).isBoosted ∧
      ∀ s' ∈ [threadSetPriority s 3 .ui, threadSetNice s 3 (-20)],
        s'.runQueues .normal = some 3 ∧ s'.runQueues .ui = some 3)
    (by decide +kernel) fun s hreach ⟨hhead, hboost, hbroken⟩ => ?_
  obtain ⟨r, ⟨hqueued, -, -⟩, -⟩ := tame_inv hreach
  refine ⟨⟨r, hqueued, hqueued.head_mem hhead⟩, hboost, fun s' hs' => ?_⟩
  obtain ⟨hnormal, hui⟩ := hbroken s' (by simpa using hs')
  refine ⟨hnormal, hui, fun ⟨r', h'⟩ => ?_⟩
  exact absurd (h'.run_unique (h'.head_mem hnormal) (h'.head_mem hui)) (by decide)

end Move

end Alos.Sched
