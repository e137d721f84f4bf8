import Alos.Sched.Model

/-!
# run queue と sleep queue

リンクの側の状態と、それが表す列 `Lists` を結ぶ。五つの run queue は双方向の列で、要素は READY で priority が
その queue のものである。sleep queue は `sched_next` だけでつながった列で、要素は SLEEPING で、`wake_tick` の
順に並ぶ。どちらにもない thread のリンクは空である。

列の要素の state が run queue と sleep queue で違い、priority が run queue どうしで違うので、列は互いに素である。

* `Queued.pick` — `scheduler_pick_next` は、最も高い空でない run queue の先頭を外す
-/

namespace Alos.Sched

open Links Function List

variable {u : Tid} {now : UInt64}

/-! ## 欄の書換え -/

section Modify

variable (s : State) (t : Tid) (f : Thread → Thread)

@[simp] theorem modify_self : (s.modify t f).threads t = f (s.threads t) := update_self ..

@[simp] theorem modify_of_ne (hu : u ≠ t) : (s.modify t f).threads u = s.threads u :=
  update_of_ne hu _ _

@[simp] theorem modify_links : (s.modify t f).links = s.links := rfl
@[simp] theorem modify_waitNext : (s.modify t f).waitNext = s.waitNext := rfl
@[simp] theorem modify_runQueues : (s.modify t f).runQueues = s.runQueues := rfl
@[simp] theorem modify_sleepQueue : (s.modify t f).sleepQueue = s.sleepQueue := rfl
@[simp] theorem modify_waitQueues : (s.modify t f).waitQueues = s.waitQueues := rfl
@[simp] theorem modify_current : (s.modify t f).current = s.current := rfl
@[simp] theorem modify_idle : (s.modify t f).idle = s.idle := rfl
@[simp] theorem modify_reaper : (s.modify t f).reaper = s.reaper := rfl
@[simp] theorem modify_nextTid : (s.modify t f).nextTid = s.nextTid := rfl
@[simp] theorem modify_active : (s.modify t f).active = s.active := rfl
@[simp] theorem modify_ticks : (s.modify t f).ticks = s.ticks := rfl

end Modify

section Enqueue

variable (s : State) (t : Tid)

@[simp] theorem enqueue_waitNext : (schedulerEnqueue s t).waitNext = s.waitNext := by
  unfold schedulerEnqueue
  split <;> rfl

@[simp] theorem enqueue_waitQueues : (schedulerEnqueue s t).waitQueues = s.waitQueues := by
  unfold schedulerEnqueue
  split <;> rfl

@[simp] theorem enqueue_current : (schedulerEnqueue s t).current = s.current := by
  unfold schedulerEnqueue
  split <;> rfl

@[simp] theorem enqueue_idle : (schedulerEnqueue s t).idle = s.idle := by
  unfold schedulerEnqueue
  split <;> rfl

@[simp] theorem enqueue_reaper : (schedulerEnqueue s t).reaper = s.reaper := by
  unfold schedulerEnqueue
  split <;> rfl

@[simp] theorem enqueue_nextTid : (schedulerEnqueue s t).nextTid = s.nextTid := by
  unfold schedulerEnqueue
  split <;> rfl

@[simp] theorem enqueue_active : (schedulerEnqueue s t).active = s.active := by
  unfold schedulerEnqueue
  split <;> rfl

@[simp] theorem enqueue_ticks : (schedulerEnqueue s t).ticks = s.ticks := by
  unfold schedulerEnqueue
  split <;> rfl

theorem enqueue_of_ne (hu : u ≠ t) : (schedulerEnqueue s t).threads u = s.threads u := by
  unfold schedulerEnqueue
  split
  · rfl
  · exact modify_of_ne _ _ _ hu

theorem enqueue_self (h : (s.threads t).state ≠ .running) :
    (schedulerEnqueue s t).threads t = { s.threads t with state := .ready } := by
  rw [schedulerEnqueue, if_neg h, modify_self]

end Enqueue

/-! ## 列 -/

/-- リンクが表す列。 -/
structure Lists where
  run : Priority → List Tid
  sleep : List Tid
  wait : Wq → List Tid

/-- run queue の先頭に加えた列。 -/
def Lists.enqueue (r : Lists) (p : Priority) (t : Tid) : Lists :=
  { r with run := Function.update r.run p (t :: r.run p) }

/-- run queue から外した列。 -/
def Lists.unlink (r : Lists) (p : Priority) (t : Tid) : Lists :=
  { r with run := Function.update r.run p ((r.run p).erase t) }

theorem Lists.mem_enqueue {r : Lists} {p q : Priority} {t : Tid} :
    u ∈ (r.enqueue p t).run q ↔ (q = p ∧ u = t) ∨ u ∈ r.run q := by
  by_cases hq : q = p
  · subst hq
    simp [Lists.enqueue]
  · simp [Lists.enqueue, hq]

theorem Lists.mem_unlink {r : Lists} {p q : Priority} {t : Tid} (hu : u ≠ t) :
    u ∈ (r.unlink p t).run q ↔ u ∈ r.run q := by
  by_cases hq : q = p
  · subst hq
    simp [Lists.unlink, mem_erase_of_ne hu]
  · simp [Lists.unlink, hq]

theorem Lists.mem_of_unlink {r : Lists} {p q : Priority} {t : Tid}
    (hu : u ∈ (r.unlink p t).run q) : u ∈ r.run q := by
  by_cases hq : q = p
  · subst hq
    exact mem_of_mem_erase (by simpa [Lists.unlink] using hu)
  · simpa [Lists.unlink, hq] using hu

/-- run queue にも sleep queue にもない。 -/
def Lists.Loose (r : Lists) (t : Tid) : Prop := (∀ p, t ∉ r.run p) ∧ t ∉ r.sleep

/-- run queue と sleep queue のリンクが列 `r` を表す。 -/
structure Queued (s : State) (r : Lists) : Prop where
  linked : ∀ p, Linked s.links (s.runQueues p) (r.run p)
  ready : ∀ p, ∀ t ∈ r.run p, (s.threads t).state = .ready ∧ (s.threads t).priority = p
  chain : Chain s.links.next s.sleepQueue r.sleep
  sleeping : ∀ t ∈ r.sleep, s.links.prev t = none ∧ (s.threads t).state = .sleeping ∧
    (s.threads t).waitingQueue = none
  sorted : r.sleep.Pairwise fun t u => (s.threads t).wakeTick ≤ (s.threads u).wakeTick
  free : ∀ t, r.Loose t → s.links.next t = none ∧ s.links.prev t = none

variable {s s' : State} {r r' : Lists} {p : Priority} {t : Tid}

namespace Queued

section

variable (h : Queued s r)
include h

theorem run_unique {q : Priority} (hp : t ∈ r.run p) (hq : t ∈ r.run q) : p = q :=
  (h.ready p t hp).2.symm.trans (h.ready q t hq).2

theorem run_not_sleep (hp : t ∈ r.run p) : t ∉ r.sleep := by
  intro hs
  have := (h.ready p t hp).1.symm.trans (h.sleeping t hs).2.1
  cases this

theorem head_mem (hh : s.runQueues p = some t) : t ∈ r.run p := by
  obtain ⟨rest, hrest, -⟩ := Chain.eq_cons (hh ▸ (h.linked p).chain)
  rw [hrest]
  exact mem_cons_self

/-- READY でも SLEEPING でもない thread は、どちらの queue にもない。 -/
theorem loose (hr : (s.threads t).state ≠ .ready) (hs : (s.threads t).state ≠ .sleeping) :
    r.Loose t :=
  ⟨fun p ht => hr (h.ready p t ht).1, fun ht => hs (h.sleeping t ht).2.1⟩

/-- 列の要素の state、priority、待ち方が変わらなければよい。 -/
theorem congr (hl : s'.links = s.links) (hq : s'.runQueues = s.runQueues)
    (hs : s'.sleepQueue = s.sleepQueue)
    (hrun : ∀ p, ∀ t ∈ r.run p, (s'.threads t).state = (s.threads t).state ∧
      (s'.threads t).priority = (s.threads t).priority)
    (hsleep : ∀ t ∈ r.sleep, (s'.threads t).state = (s.threads t).state ∧
      (s'.threads t).waitingQueue = (s.threads t).waitingQueue ∧
      (s'.threads t).wakeTick = (s.threads t).wakeTick) : Queued s' r where
  linked p := by rw [hl, hq]; exact h.linked p
  ready p t ht := by
    rw [(hrun p t ht).1, (hrun p t ht).2]
    exact h.ready p t ht
  chain := by rw [hl, hs]; exact h.chain
  sleeping t ht := by
    rw [hl, (hsleep t ht).1, (hsleep t ht).2.1]
    exact h.sleeping t ht
  sorted := by
    refine h.sorted.imp_of_mem fun {t u} ht hu hle => ?_
    rw [(hsleep t ht).2.2, (hsleep u hu).2.2]
    exact hle
  free t ht := by rw [hl]; exact h.free t ht

theorem rewait (wait : Wq → List Tid) : Queued s { r with wait := wait } :=
  ⟨h.linked, h.ready, h.chain, h.sleeping, h.sorted, h.free⟩

/-- どちらの queue にもない thread の欄は、書き換えてよい。 -/
theorem modify (ht : r.Loose t) (f : Thread → Thread) : Queued (s.modify t f) r := by
  refine h.congr rfl rfl rfl (fun p u hu => ?_) (fun u hu => ?_)
  · have hne : u ≠ t := fun he => ht.1 p (he ▸ hu)
    rw [modify_of_ne s t f hne]
    exact ⟨rfl, rfl⟩
  · have hne : u ≠ t := fun he => ht.2 (he ▸ hu)
    rw [modify_of_ne s t f hne]
    exact ⟨rfl, rfl, rfl⟩

end

/-! ### run queue -/

/-- リンクと run queue が変わり、sleep queue が変わらないとき。 -/
theorem relink (h : Queued s r) (hr : r'.sleep = r.sleep)
    (hs : s'.sleepQueue = s.sleepQueue) (ht : s'.threads = s.threads)
    (hlinked : ∀ p, Linked s'.links (s'.runQueues p) (r'.run p))
    (hready : ∀ p, ∀ t ∈ r'.run p, (s.threads t).state = .ready ∧ (s.threads t).priority = p)
    (hsame : ∀ t ∈ r.sleep, Same s.links s'.links t)
    (hfree : ∀ t, r'.Loose t → s'.links.next t = none ∧ s'.links.prev t = none) :
    Queued s' r' where
  linked := hlinked
  ready := by rw [ht]; exact hready
  chain := by
    rw [hr, hs]
    exact h.chain.congr fun t ht => (hsame t ht).1
  sleeping t hmem := by
    rw [hr] at hmem
    rw [(hsame t hmem).2, ht]
    exact h.sleeping t hmem
  sorted := by rw [hr, ht]; exact h.sorted
  free := hfree

theorem enqueue (h : Queued s r) (ht : r.Loose t) (hstate : (s.threads t).state ≠ .running) :
    Queued (schedulerEnqueue s t) (r.enqueue (s.threads t).priority t) := by
  -- state を READY にしてから、リンクを付け替えたと見る
  have hready := h.modify ht ({ · with state := .ready })
  have hhead : ∀ u, s.runQueues _ = some u →
      u ∈ r.run (s.threads t).priority := fun u hu => h.head_mem hu
  have hsame : ∀ u, u ≠ t → u ∉ r.run _ → Same s.links _ u :=
    fun u hu hmem => push_same hu fun he => hmem (hhead u he)
  rw [schedulerEnqueue, if_neg hstate]
  refine hready.relink rfl rfl rfl (fun p => ?_) (fun p u hu => ?_) (fun u hu => ?_)
    (fun u hu => ?_)
  · by_cases hp : p = (s.threads t).priority
    · subst hp
      simp only [modify_links, modify_runQueues, Lists.enqueue, update_self]
      exact (h.linked _).push (ht.1 _)
    · simp only [modify_links, modify_runQueues, Lists.enqueue, update_of_ne hp]
      refine (h.linked p).congr fun u hu => hsame u (fun he => ht.1 p (he ▸ hu)) fun hmem => ?_
      exact hp (h.run_unique hu hmem)
  · rcases Lists.mem_enqueue.mp hu with ⟨rfl, rfl⟩ | hmem
    · exact ⟨by simp, by simp⟩
    · rw [modify_of_ne s t _ fun he => ht.1 p (he ▸ hmem)]
      exact h.ready p u hmem
  · exact hsame u (fun he => ht.2 (he ▸ hu)) fun hmem => h.run_not_sleep hmem hu
  · have hut : u ≠ t := fun he => hu.1 _ (Lists.mem_enqueue.mpr (.inl ⟨rfl, he⟩))
    have hrun : ∀ p, u ∉ r.run p := fun p hmem => hu.1 p (Lists.mem_enqueue.mpr (.inr hmem))
    have hs := hsame u hut (hrun _)
    simp only [modify_links]
    rw [hs.1, hs.2]
    exact h.free u ⟨hrun, hu.2⟩

theorem unlink (h : Queued s r) (ht : t ∈ r.run p) :
    Queued { s.detach p t with links := (s.links.bypass t).clear t } (r.unlink p t) := by
  have hnb := (h.linked p).neighbours ht
  have hsame : ∀ u, u ≠ t → u ∉ r.run p → Same s.links ((s.links.bypass t).clear t) u := by
    intro u hu hmem
    have hb := bypass_same (y := u) (fun he => hmem (hnb.1 u he)) (fun he => hmem (hnb.2 u he))
    have hc := clear_same (L := s.links.bypass t) hu
    exact ⟨hc.1.trans hb.1, hc.2.trans hb.2⟩
  refine h.relink rfl rfl rfl (fun q => ?_) (fun q u hu => ?_) (fun u hu => ?_) (fun u hu => ?_)
  · by_cases hq : q = p
    · subst hq
      have hlist : (r.unlink q t).run q = (r.run q).erase t := update_self ..
      have hhead : (s.detach q t).runQueues q
          = if s.links.prev t = none then s.links.next t else s.runQueues q := by
        simp only [State.detach]
        split
        · exact update_self ..
        · rfl
      rw [hlist]
      simp only [hhead]
      refine ((h.linked q).bypass ht).congr fun u hu => clear_same fun he => ?_
      exact (h.linked q).chain.nodup.not_mem_erase (he ▸ hu)
    · have hlist : (r.unlink p t).run q = r.run q := update_of_ne hq _ _
      have hhead : (s.detach p t).runQueues q = s.runQueues q := by
        simp only [State.detach]
        split
        · exact update_of_ne hq _ _
        · rfl
      rw [hlist]
      simp only [hhead]
      refine (h.linked q).congr fun u hu => hsame u (fun he => ?_) fun hmem => ?_
      · exact hq (h.run_unique (he ▸ hu) ht)
      · exact hq (h.run_unique hu hmem)
  · exact h.ready q u (Lists.mem_of_unlink hu)
  · exact hsame u (fun he => h.run_not_sleep ht (he ▸ hu)) fun hmem => h.run_not_sleep hmem hu
  · by_cases hut : u = t
    · subst hut
      exact ⟨by simp [Links.clear, setNext, setPrev], by simp [Links.clear, setNext, setPrev]⟩
    · have hrun : ∀ q, u ∉ r.run q := fun q hmem => hu.1 q ((Lists.mem_unlink hut).mpr hmem)
      have hs := hsame u hut (hrun p)
      rw [hs.1, hs.2]
      exact h.free u ⟨hrun, hu.2⟩

/-- boost は、外して priority を上げ、加え直すことである。 -/
theorem boost_eq (hstate : (s.threads t).state = .ready) : s.boost p now t = schedulerEnqueue
      ({ s.detach p t with links := (s.links.bypass t).clear t }.modify t
        ({ · with priority := .ui, isBoosted := true, waitStartTick := now })) t := by
  have hpush : ∀ head, ((s.links.bypass t).clear t).push head t =
    (s.links.bypass t).push head t := by
    intro head
    cases head <;> simp [Links.push, Links.clear, setNext, setPrev]
  simp [State.boost, schedulerEnqueue, State.detach, State.modify, hstate, hpush]

theorem loose_unlink (h : Queued s r) (ht : t ∈ r.run p) : (r.unlink p t).Loose t := by
  refine ⟨fun q hq => ?_, h.run_not_sleep ht⟩
  obtain rfl := h.run_unique (Lists.mem_of_unlink hq) ht
  rw [Lists.unlink] at hq
  simp only [update_self] at hq
  exact (h.linked q).chain.nodup.not_mem_erase hq

/-- どちらの queue にもない thread を外しても、何も変わらない。 -/
theorem dequeue_loose (h : Queued s r) (ht : r.Loose t) : schedulerDequeue s t = s := by
  obtain ⟨hn, hp⟩ := h.free t ht
  have hhead : s.runQueues (s.threads t).priority ≠ some t := fun he => ht.1 _ (h.head_mem he)
  simp only [schedulerDequeue, bypass_eq hn hp, clear_eq hn hp, hhead, and_false, if_false]

/-- 外して欄を書き換え、加え直す。 -/
theorem requeue (h : Queued s r) (ht : t ∈ r.run p) {f : Thread → Thread}
    (hf : (f (s.threads t)).state = .ready) :
    Queued (schedulerEnqueue ({ s.detach p t with links := (s.links.bypass t).clear t }.modify t f)
      t)
      ((r.unlink p t).enqueue (f (s.threads t)).priority t) := by
  have hout := h.loose_unlink ht
  have hadd := ((h.unlink ht).modify hout f).enqueue hout
    (by rw [modify_self]; exact fun hrun => absurd (hf.symm.trans hrun) (by simp))
  rwa [modify_self] at hadd

theorem boost (h : Queued s r) (ht : t ∈ r.run p) :
    Queued (s.boost p now t) ((r.unlink p t).enqueue .ui t) := by
  rw [boost_eq (h.ready p t ht).1]
  exact h.requeue ht (h.ready p t ht).1

end Queued

/-! ### 次の thread を選ぶ -/

/-- 高い順に並んでいるので、より高いものは前にある。 -/
theorem Priority.mem_before {a b : List Priority} {q : Priority}
    (h : Priority.descending = a ++ p :: b) (hq : p.rank < q.rank) : q ∈ a := by
  have hsorted : Priority.descending.Pairwise fun p q => q.rank < p.rank := by decide
  have hmem : q ∈ a ++ p :: b := by
    rw [← h]
    cases q <;> decide
  rw [h, pairwise_append, pairwise_cons] at hsorted
  rcases mem_append.mp hmem with hmem | hmem
  · exact hmem
  · rcases mem_cons.mp hmem with rfl | hmem
    · exact absurd hq (Nat.lt_irrefl _)
    · exact absurd (hsorted.2.1.1 q hmem) (by omega)

/-- 外した後の状態。 -/
def State.taken (s : State) (p : Priority) (t : Tid) : State :=
  { s.detach p t with links := (s.links.bypass t).clear t }

theorem Queued.dequeue_eq (h : Queued s r) (ht : t ∈ r.run p) :
    schedulerDequeue s t = s.taken p t := by
  have hpri := (h.ready p t ht).2
  have hhead : (s.links.prev t = none ∧ s.runQueues p = some t) ↔ s.links.prev t = none :=
    ⟨And.left, fun hprev => ⟨hprev, (h.linked p).head_of_prev ht hprev⟩⟩
  simp only [schedulerDequeue, State.taken, State.detach, hpri, hhead]

/-- 最も高い空でない run queue の先頭を外す。なければ idle を選ぶ。 -/
theorem Queued.pick (h : Queued s r) : (schedulerPickNext s = (s.idle, s) ∧ ∀ p, r.run p = []) ∨
    ∃ p t rest, r.run p = t :: rest ∧ (∀ q : Priority, p.rank < q.rank → r.run q = []) ∧
      schedulerPickNext s = (t, s.taken p t) := by
  have hempty : ∀ p, s.runQueues p = none → r.run p = [] :=
    fun p hp => (h.linked p).chain.eq_nil_iff.mp hp
  unfold schedulerPickNext
  cases hfind : Priority.descending.findSome? fun pri => (s.runQueues pri).map _ with
  | none =>
    refine .inl ⟨rfl, fun p => hempty p ?_⟩
    have hnone := findSome?_eq_none_iff.mp hfind p (by cases p <;> decide)
    simpa using hnone
  | some pt =>
    obtain ⟨p, t⟩ := pt
    obtain ⟨a, q, b, hsplit, hq, hbefore⟩ := findSome?_eq_some_iff.mp hfind
    obtain ⟨u, hu, hpair⟩ := Option.map_eq_some_iff.mp hq
    obtain ⟨rfl, rfl⟩ := Prod.mk.inj hpair
    obtain ⟨rest, hrest, -⟩ := Chain.eq_cons (hu ▸ (h.linked q).chain)
    refine .inr ⟨q, u, rest, hrest, fun q' hq' => hempty q' ?_, ?_⟩
    · simpa using hbefore q' (Priority.mem_before hsplit hq')
    · have hprev := (hu ▸ h.linked q).head_prev
      cases hn : s.links.next u <;> simp [State.taken, State.detach, Links.bypass, hprev, hn]

/-! ### sleep queue -/

namespace Queued

/-- 先頭を sleep queue から外し、run queue に加える。 -/
theorem awaken {rest : List Tid} (h : Queued s r) (hs : r.sleep = t :: rest) :
    Queued (s.awaken t) ({ r with sleep := rest }.enqueue (s.threads t).priority t) := by
  have hchain := hs ▸ h.chain
  have hnodup := nodup_cons.mp (hs ▸ h.chain.nodup)
  have hmem : t ∈ r.sleep := by rw [hs]; exact mem_cons_self
  have hrun : ∀ p, t ∉ r.run p := fun p ht => h.run_not_sleep ht hmem
  have hsame : ∀ u, u ≠ t → Same _ (s.links.setNext t none) u :=
    fun u hu => ⟨update_of_ne hu _ _, rfl⟩
  have hout : Lists.Loose { r with sleep := rest } t := ⟨hrun, hnodup.1⟩
  have hleft : Queued { s with sleepQueue := s.links.next t, links := s.links.setNext t none }
      { r with sleep := rest } := by
    refine ⟨fun p => ?_, h.ready, ?_, fun u hu => ?_, ?_, fun u hu => ?_⟩
    · exact (h.linked p).congr fun u hu => hsame u fun he => hrun p (he ▸ hu)
    · exact hchain.2.congr fun u hu => (hsame u fun he => hnodup.1 (he ▸ hu)).1
    · exact h.sleeping u (hs ▸ mem_cons_of_mem _ hu)
    · exact (pairwise_cons.mp (hs ▸ h.sorted)).2
    · by_cases hut : u = t
      · subst hut
        exact ⟨update_self .., (h.sleeping u hmem).1⟩
      · have hloose : r.Loose u := ⟨hu.1, fun hsl => by
          rw [hs] at hsl
          exact hu.2 ((mem_cons.mp hsl).resolve_left hut)⟩
        rw [(hsame u hut).1]
        exact h.free u hloose
  have hadd := (hleft.modify hout ({ · with state := .ready })).enqueue hout (by simp)
  rwa [modify_self] at hadd

/-- 挿し込む位置の直前を見つける。 -/
theorem sleepPrev_spec (wake : UInt64) {first : Tid} {rest : List Tid} {fuel : Nat}
    (hc : Chain s.links.next (s.links.next first) rest) (hfuel : rest.length < fuel) :
    ∃ prev a b, sleepPrev s wake fuel first = some prev ∧ first :: rest = a ++ prev :: b ∧
      (∀ u ∈ a ++ [prev], u = first ∨ (s.threads u).wakeTick ≤ wake) ∧
      ∀ u, b.head? = some u → ¬(s.threads u).wakeTick ≤ wake := by
  induction rest generalizing first fuel with
  | nil =>
    obtain ⟨fuel, rfl⟩ := Nat.exists_eq_add_one.mpr (Nat.zero_lt_of_lt hfuel)
    refine ⟨first, [], [], ?_, rfl, fun u hu => .inl (by simpa using hu), fun u hu => by cases hu⟩
    simp only [sleepPrev, show s.links.next _ = none from hc]
  | cons next rest ih =>
    obtain ⟨fuel, rfl⟩ := Nat.exists_eq_add_one.mpr (Nat.zero_lt_of_lt hfuel)
    by_cases hle : (s.threads next).wakeTick ≤ wake
    · have hfuel' : rest.length < fuel := Nat.lt_of_succ_lt_succ hfuel
      obtain ⟨prev, a, b, hprev, hsplit, hbefore, hafter⟩ := ih hc.2 hfuel'
      refine ⟨prev, first :: a, b, ?_, by rw [hsplit]; rfl, fun u hu => ?_, hafter⟩
      · simp only [sleepPrev, hc.1, if_pos hle, hprev]
      · rcases mem_cons.mp hu with rfl | hu
        · exact .inl rfl
        · rcases hbefore u hu with rfl | hu
          · exact .inr hle
          · exact .inr hu
    · refine ⟨first, [], next :: rest, ?_, rfl, fun u hu => .inl (by simpa using hu), ?_⟩
      · simp only [sleepPrev, hc.1, if_neg hle]
      · rintro u ⟨⟩
        exact hle

theorem pairwise_insert {R : Tid → Tid → Prop} {a b : List Tid} (h : (a ++ b).Pairwise R)
    (ha : ∀ u ∈ a, R u t) (hb : ∀ u ∈ b, R t u) : (a ++ t :: b).Pairwise R := by
  rw [pairwise_append] at h
  refine pairwise_append.mpr ⟨h.1, pairwise_cons.mpr ⟨hb, h.2.1⟩, fun u hu v hv => ?_⟩
  rcases mem_cons.mp hv with rfl | hv
  · exact ha u hu
  · exact h.2.2 u hu v hv

section

variable (h : Queued s r) (ht : r.Loose t) (hstate : (s.threads t).state = .sleeping)
  (hwait : (s.threads t).waitingQueue = none)
include h ht hstate hwait

/-- sleep queue の途中に `t` が入った。 -/
theorem inserted {links : Links Tid} {head : Option Tid} {a b : List Tid}
    (hsplit : r.sleep = a ++ b)
    (hchain : Chain links.next head (a ++ t :: b)) (hprev : links.prev = s.links.prev)
    (hnext : ∀ u, u ≠ t → u ∉ r.sleep → links.next u = s.links.next u)
    (ha : ∀ u ∈ a, (s.threads u).wakeTick ≤ (s.threads t).wakeTick)
    (hb : ∀ u ∈ b, (s.threads t).wakeTick ≤ (s.threads u).wakeTick) :
    Queued { s with links := links, sleepQueue := head } { r with sleep := a ++ t :: b } := by
  have hmem : ∀ u, u ∈ a ++ t :: b ↔ u = t ∨ u ∈ r.sleep := by
    intro u
    rw [hsplit]
    simp only [mem_append, mem_cons]
    exact or_left_comm
  refine ⟨fun p => ?_, h.ready, hchain, fun u hu => ?_, ?_, fun u hu => ?_⟩
  · refine (h.linked p).congr fun u hu => ⟨?_, by rw [hprev]⟩
    exact hnext u (fun he => ht.1 p (he ▸ hu)) (h.run_not_sleep hu)
  · rcases (hmem u).mp hu with rfl | hu
    · exact ⟨by simp only [hprev]; exact (h.free u ht).2, hstate, hwait⟩
    · simp only [hprev]
      exact h.sleeping u hu
  · exact pairwise_insert (hsplit ▸ h.sorted) ha hb
  · have hut : u ≠ t := fun he => hu.2 ((hmem u).mpr (.inl he))
    have hus : u ∉ r.sleep := fun hs => hu.2 ((hmem u).mpr (.inr hs))
    simp only [hprev, hnext u hut hus]
    exact h.free u ⟨hu.1, hus⟩

/-- `wake_tick` が `t` 以下のものの後、`t` より大きいものの前に入れる。 -/
theorem sleepInsert (hlen : r.sleep.length ≤ s.nextTid) :
    ∃ links head a b, Sched.sleepInsert s t = some { s with links := links, sleepQueue := head } ∧
      r.sleep = a ++ b ∧ (∀ u ∈ b, ¬(s.threads u).wakeTick ≤ (s.threads t).wakeTick) ∧
      Queued { s with links := links, sleepQueue := head } { r with sleep := a ++ t :: b } := by
  have hsorted := h.sorted
  unfold Sched.sleepInsert
  cases hsleep : r.sleep with
  | nil =>
    have hqueue : s.sleepQueue = none := h.chain.eq_nil_iff.mpr hsleep
    rw [hqueue]
    refine ⟨_, _, [], [], rfl, rfl, fun u hu => absurd hu not_mem_nil, ?_⟩
    refine h.inserted ht hstate hwait hsleep ⟨rfl, update_self ..⟩ rfl
      (fun u hu _ => update_of_ne hu _ _) (fun u hu => ?_) (fun u hu => ?_)
    · exact absurd hu not_mem_nil
    · exact absurd hu not_mem_nil
  | cons first rest =>
    have hchain := hsleep ▸ h.chain
    rw [hsleep] at hsorted hlen
    rw [pairwise_cons] at hsorted
    have hqueue : s.sleepQueue = some _ := hchain.1
    have htf : t ∉ first :: rest := hsleep ▸ ht.2
    simp only [hqueue]
    split
    · rename_i hlt
      have hle : ∀ u ∈ first :: rest, (s.threads first).wakeTick ≤ (s.threads u).wakeTick := by
        intro u hu
        rcases mem_cons.mp hu with rfl | hu
        · exact UInt64.le_refl _
        · exact hsorted.1 u hu
      refine ⟨_, _, [], first :: rest, rfl, rfl, fun u hu hut => ?_, ?_⟩
      · exact absurd (UInt64.lt_of_lt_of_le hlt (hle u hu)) (UInt64.not_lt.mpr hut)
      · refine h.inserted ht hstate hwait hsleep ⟨rfl, ?_⟩ rfl
          (fun u hu _ => update_of_ne hu _ _) (fun u hu => absurd hu not_mem_nil)
          (fun u hu => UInt64.le_of_lt (UInt64.lt_of_lt_of_le hlt (hle u hu)))
        simp only [setNext, update_self]
        rw [← hqueue]
        exact hchain.congr fun u hu =>
          update_of_ne (fun he : u = t => htf (he ▸ hu)) _ _
    · rename_i hge
      obtain ⟨prev, a, b, hprev, hsplit, hbefore, hafter⟩ := sleepPrev_spec (s := s) _ hchain.2 hlen
      have hle : ∀ u ∈ a ++ [prev], (s.threads u).wakeTick ≤ (s.threads t).wakeTick := by
        intro u hu
        rcases hbefore u hu with rfl | hu
        · exact UInt64.not_lt.mp hge
        · exact hu
      have hgt : ∀ u ∈ b, ¬(s.threads u).wakeTick ≤ (s.threads t).wakeTick := by
        cases b with
        | nil => exact fun u hu => absurd hu not_mem_nil
        | cons v b =>
          intro u hu hut
          refine hafter v rfl ?_
          rcases mem_cons.mp hu with rfl | hu
          · exact hut
          · have htail := (pairwise_append.mp (hsplit ▸ hsleep ▸ h.sorted)).2.1
            have hvu := (pairwise_cons.mp (pairwise_cons.mp htail).2).1 u hu
            exact UInt64.le_trans hvu hut
      have hsleep' : r.sleep = (a ++ [prev]) ++ b := by rw [hsleep, hsplit, append_cons]
      rw [hprev]
      refine ⟨_, _, a ++ [prev], b, rfl, by rw [hsplit, append_cons], hgt, ?_⟩
      refine h.inserted ht hstate hwait hsleep' ?_ rfl (fun u hu hus => ?_) hle
        (fun u hu => UInt64.le_of_lt (UInt64.not_le.mp (hgt u hu)))
      · rw [← append_cons]
        exact Chain.insert (by rw [← hqueue, ← hsplit]; exact hchain) (hsplit ▸ htf)
      · have hup : u ≠ prev := fun he => hus (by rw [hsleep']; simp [he])
        simp only [setNext]
        rw [update_of_ne hup, update_of_ne hu]

end

end Queued

/-! ## 待ち行列 -/

/-- 待ち行列のリンクが列 `r` を表す。要素は BLOCKED か SLEEPING で、その待ち行列で待っている。 -/
structure Waits (s : State) (r : Lists) : Prop where
  chain : ∀ q, Chain s.waitNext (s.waitQueues q).head (r.wait q)
  tail : ∀ q : Wq, q.Event → (s.waitQueues q).tail = (r.wait q).getLast?
  waiting : ∀ q, ∀ t ∈ r.wait q,
    ((s.threads t).state = .blocked ∨ (s.threads t).state = .sleeping) ∧
      (s.threads t).waitingQueue = some q

/-- 待ち行列の末尾に加えた列。 -/
def Lists.await (r : Lists) (q : Wq) (t : Tid) : Lists :=
  { r with wait := Function.update r.wait q (r.wait q ++ [t]) }

namespace Waits

variable {q : Wq} {rest : List Tid}

section

variable (h : Waits s r)
include h

theorem wait_unique {q' : Wq} (hq : t ∈ r.wait q) (hq' : t ∈ r.wait q') : q = q' :=
  Option.some.inj ((h.waiting q t hq).2.symm.trans (h.waiting q' t hq').2)

/-- BLOCKED でも SLEEPING でもない thread は、待ち行列にない。 -/
theorem not_mem (hb : (s.threads t).state ≠ .blocked) (hs : (s.threads t).state ≠ .sleeping)
    (q : Wq) : t ∉ r.wait q :=
  fun ht => (h.waiting q t ht).1.elim hb hs

theorem congr (hr : r'.wait = r.wait) (hn : s'.waitNext = s.waitNext)
    (hq : s'.waitQueues = s.waitQueues)
    (ht : ∀ q, ∀ t ∈ r.wait q, (s'.threads t).state = (s.threads t).state ∧
      (s'.threads t).waitingQueue = (s.threads t).waitingQueue) : Waits s' r' where
  chain q := by rw [hr, hn, hq]; exact h.chain q
  tail q hq' := by rw [hr, hq]; exact h.tail q hq'
  waiting q t hmem := by
    rw [hr] at hmem
    rw [(ht q t hmem).1, (ht q t hmem).2]
    exact h.waiting q t hmem

theorem modify (ht : ∀ q, t ∉ r.wait q) (f : Thread → Thread) : Waits (s.modify t f) r := by
  refine h.congr rfl rfl rfl fun q u hu => ?_
  rw [modify_of_ne s t f fun he => ht q (he ▸ hu)]
  exact ⟨rfl, rfl⟩

theorem schedulerEnqueue (ht : ∀ q, t ∉ r.wait q) (p : Priority) :
    Waits (schedulerEnqueue s t) (r.enqueue p t) := by
  refine h.congr rfl (enqueue_waitNext s t) (enqueue_waitQueues s t) fun q u hu => ?_
  rw [enqueue_of_ne s t fun he => ht q (he ▸ hu)]
  exact ⟨rfl, rfl⟩

theorem awaited (ht : ∀ q, t ∉ r.wait q)
    (hchain : Chain s'.waitNext (s'.waitQueues q).head (r.wait q ++ [t]))
    (htail : q.Event → (s'.waitQueues q).tail = some t)
    (hnext : ∀ u, u ≠ t → u ∉ r.wait q → s'.waitNext u = s.waitNext u)
    (hqueues : ∀ q', q' ≠ q → s'.waitQueues q' = s.waitQueues q')
    (hthreads : ∀ u, u ≠ t → s'.threads u = s.threads u)
    (hself : ((s'.threads t).state = .blocked ∨ (s'.threads t).state = .sleeping) ∧
      (s'.threads t).waitingQueue = some q) : Waits s' (r.await q t) := by
  have hself' : (r.await q t).wait q = r.wait q ++ [t] := update_self ..
  have hother : ∀ q', q' ≠ q → (r.await q t).wait q' = r.wait q' :=
    fun q' hq' => update_of_ne hq' _ _
  refine ⟨fun q' => ?_, fun q' he => ?_, fun q' u hu => ?_⟩
  · by_cases hq : q' = q
    · subst hq
      rw [hself']
      exact hchain
    · rw [hother q' hq, hqueues q' hq]
      refine (h.chain q').congr fun u hu => hnext u (fun he => ht q' (he ▸ hu)) fun hmem => ?_
      exact hq (h.wait_unique hu hmem)
  · by_cases hq : q' = q
    · subst hq
      rw [hself', htail he, getLast?_concat]
    · rw [hother q' hq, hqueues q' hq]
      exact h.tail q' he
  · by_cases hut : u = t
    · subst hut
      by_cases hq : q' = q
      · subst hq
        exact hself
      · exact absurd (hother q' hq ▸ hu) (ht q')
    · rw [hthreads u hut]
      refine h.waiting q' u ?_
      by_cases hq : q' = q
      · subst hq
        rw [hself'] at hu
        simpa [hut] using hu
      · rwa [hother q' hq] at hu

end

theorem waitQueueEnqueue_shape : ∃ waitNext waitQueues, waitQueueEnqueue s q t =
    { s.modify t ({ · with waitingQueue := some q }) with
      waitNext := waitNext, waitQueues := waitQueues } := by
  simp only [waitQueueEnqueue]
  split
  · exact ⟨_, _, rfl⟩
  · exact ⟨_, _, rfl⟩

theorem enqueue (h : Waits s r) (ht : ∀ q, t ∉ r.wait q) (hq : q.Event) {f : Thread → Thread}
    (hf : ∀ th, ((f th).state = .blocked ∨ (f th).state = .sleeping) ∧
      (f th).waitingQueue = th.waitingQueue) :
    Waits ((waitQueueEnqueue s q t).modify t f) (r.await q t) := by
  have hthreads : (waitQueueEnqueue s q t).threads
      = (s.modify t ({ · with waitingQueue := some q })).threads := by
    obtain ⟨_, _, heq⟩ := waitQueueEnqueue_shape (s := s) (q := q) (t := t)
    rw [heq]
  have hself : (((waitQueueEnqueue s q t).modify t f).threads t)
      = f { s.threads t with waitingQueue := some q } := by
    rw [modify_self, hthreads, modify_self]
  have hother : ∀ u, u ≠ t → ((waitQueueEnqueue s q t).modify t f).threads u = s.threads u := by
    intro u hu
    rw [modify_of_ne _ _ _ hu, hthreads, modify_of_ne _ _ _ hu]
  have htail := h.tail q hq
  cases hlast : (s.waitQueues q).tail with
  | none =>
    have hnil : r.wait q = [] := getLast?_eq_none_iff.mp (htail ▸ hlast)
    refine h.awaited ht ?_ (fun _ => ?_) (fun u hu _ => ?_) (fun q' hq' => ?_) hother ?_
    · simp [waitQueueEnqueue, hlast, hnil, Seg]
    · simp [waitQueueEnqueue, hlast]
    · simp [waitQueueEnqueue, hlast, hu]
    · simp [waitQueueEnqueue, hlast, hq']
    · rw [hself, (hf _).2]
      exact ⟨(hf _).1, rfl⟩
  | some last =>
    have hmem := mem_of_getLast? (htail ▸ hlast)
    refine h.awaited ht ?_ (fun _ => ?_) (fun u hu hus => ?_) (fun q' hq' => ?_) hother ?_
    · simp only [waitQueueEnqueue, hlast, modify_waitNext, modify_waitQueues, update_self]
      exact (h.chain q).append (ht q) (htail ▸ hlast)
    · simp [waitQueueEnqueue, hlast]
    · have hul : u ≠ last := fun he => hus (he ▸ hmem)
      simp [waitQueueEnqueue, hlast, hu, hul]
    · simp [waitQueueEnqueue, hlast, hq']
    · rw [hself, (hf _).2]
      exact ⟨(hf _).1, rfl⟩

theorem append (h : Waits s r) (ht : ∀ q, t ∉ r.wait q) (hq : ¬q.Event)
    (hlen : (r.wait q).length ≤ s.nextTid)
    (hself : ((s.threads t).state = .blocked ∨ (s.threads t).state = .sleeping) ∧
      (s.threads t).waitingQueue = some q) : ∃ waitNext waitQueues,
      syncAppend s q t = some { s with waitNext := waitNext, waitQueues := waitQueues } ∧
      Waits { s with waitNext := waitNext, waitQueues := waitQueues } (r.await q t) := by
  have hfollow := (h.chain q).follow hlen
  simp only [syncAppend, hfollow, Option.bind_eq_bind, Option.bind_some]
  cases hlast : (r.wait q).getLast? with
  | none =>
    have hnil : r.wait q = [] := getLast?_eq_none_iff.mp hlast
    refine ⟨_, _, rfl, h.awaited ht ?_ (fun he => absurd he hq) (fun u hu _ => ?_)
      (fun q' hq' => ?_) (fun u hu => rfl) hself⟩
    · simp [hnil, Seg]
    · simp [hu]
    · simp [hq']
  | some last =>
    have hmem := mem_of_getLast? hlast
    have hne : last ≠ t := fun he => ht q (he ▸ hmem)
    refine ⟨_, _, rfl, h.awaited ht ?_ (fun he => absurd he hq) (fun u hu hus => ?_)
      (fun q' hq' => ?_) (fun u hu => rfl) hself⟩
    · simp only [update_self]
      rw [update_comm hne]
      exact (h.chain q).append (ht q) hlast
    · have hul : u ≠ last := fun he => hus (he ▸ hmem)
      simp [hu, hul]
    · simp [hq']

theorem unwait (h : Waits s r) (hw : r.wait q = t :: rest) :
    Waits (s.unwait q t) { r with wait := update r.wait q rest } := by
  have hchain := hw ▸ h.chain q
  have hnodup := nodup_cons.mp (hw ▸ (h.chain q).nodup)
  have hmem : t ∈ r.wait q := by rw [hw]; exact mem_cons_self
  refine ⟨fun q' => ?_, fun q' he => ?_, fun q' u hu => ?_⟩
  · by_cases hq : q' = q
    · subst hq
      simp only [State.unwait, update_self]
      exact hchain.2.congr fun u hu => update_of_ne (fun he : u = t => hnodup.1 (he ▸ hu)) _ _
    · simp only [State.unwait, update_of_ne hq]
      refine (h.chain q').congr fun u hu => update_of_ne (fun he : u = t => ?_) _ _
      exact hq (h.wait_unique (he ▸ hu) hmem)
  · by_cases hq : q' = q
    · subst hq
      have htail := h.tail q' he
      simp only [State.unwait, update_self]
      cases rest with
      | nil => simp [show s.waitNext t = none from hchain.2]
      | cons v rest =>
        rw [htail, hw, hchain.2.1, if_neg (by simp), getLast?_cons_cons]
    · simp only [State.unwait, update_of_ne hq]
      exact h.tail q' he
  · refine h.waiting q' u ?_
    by_cases hq : q' = q
    · subst hq
      rw [hw]
      exact mem_cons_of_mem _ (by simpa using hu)
    · simpa [hq] using hu

end Waits

end Alos.Sched
