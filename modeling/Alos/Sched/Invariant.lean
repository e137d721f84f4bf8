import Alos.Sched.Loops
import Mathlib.Data.List.Perm.Subperm

/-!
# scheduler の不変条件

どの thread も、その state にふさわしい場所にいる。RUNNING なのは現在の thread だけ、READY なら idle であるか
自分の priority の run queue にあり、SLEEPING なら sleep queue にあるか、時間を限って待っている（`Placed`）。
これと `Queued`、`Waits` を合わせたものが `Settled` であり、どの手もこれを保つ。

欄についての条件 `D` を加えられる。`D` は、nice、priority、boost、`wait_result` だけに依り、boost を解いても
変わらないものとする（`Closed`）。

* `step_inv` — 一つの手は不変条件を保つ
-/

namespace Alos.Sched

open Links Function List

variable {f : Thread → Thread} {p : Priority} {rest : List Tid} {again : ThreadState → Bool}
  {next : Tid}

/-! ## 不変条件 -/

/-- どれかの列にある。 -/
def Lists.Mem (r : Lists) (t : Tid) : Prop :=
  (∃ p, t ∈ r.run p) ∨ t ∈ r.sleep ∨ ∃ q, t ∈ r.wait q

/-- 欄についての条件は、boost を解いても、ほかの欄が変わっても残る。 -/
structure Closed (D : Tid → Thread → Prop) : Prop where
  keep : ∀ t th th', D t th → th'.nice = th.nice → th'.priority = th.priority →
    th'.basePriority = th.basePriority → th'.isBoosted = th.isBoosted →
      (th'.waitResult = th.waitResult ∨ th'.waitResult = 0) → D t th'
  demote : ∀ t th, D t th → th.isBoosted = true → D t { th with
    isBoosted := false
    priority := schedulerNiceToPriority th.nice
    basePriority := schedulerNiceToPriority th.nice }

/-- thread `t` は、state にふさわしい場所にいる。`timed` は、時間を限った待ちを許すこと。 -/
structure Placed (timed : Prop) (D : Tid → Thread → Prop) (s : State) (r : Lists) (t : Tid) :
    Prop where
  running : (s.threads t).state = .running → t = s.current
  ready : (s.threads t).state = .ready → t = s.idle ∨ t ∈ r.run (s.threads t).priority
  sleeping : (s.threads t).state = .sleeping →
    t ∈ r.sleep ∨ (timed ∧ (s.threads t).waitingQueue ≠ none)
  idle : t = s.idle → (s.threads t).state = .ready ∨ (s.threads t).state = .running
  data : D t (s.threads t)

structure Book (timed : Prop) (D : Tid → Thread → Prop) (s : State) (r : Lists) : Prop where
  exist : ∀ t, r.Mem t → t < s.nextTid
  current : s.current < s.nextTid
  idle : s.idle < s.nextTid
  /-- idle は `scheduler_init` が main の次に作る。 -/
  idleTid : s.idle = 1
  placed : ∀ t < s.nextTid, Placed timed D s r t

structure Settled (timed : Prop) (D : Tid → Thread → Prop) (s : State) (r : Lists) : Prop where
  queued : Queued s r
  waits : Waits s r
  book : Book timed D s r

/-- 手と手の間で成り立つ。現在の thread は RUNNING である。 -/
structure Inv (timed : Prop) (D : Tid → Thread → Prop) (s : State) (r : Lists) : Prop where
  settled : Settled timed D s r
  current : (s.threads s.current).state = .running

variable {timed : Prop} {D : Tid → Thread → Prop} {s s' : State} {r r' : Lists} {t : Tid}

theorem length_le {l : List Tid} {n : Nat} (hnodup : l.Nodup) (h : ∀ t ∈ l, t < n) :
    l.length ≤ n := by
  have hsub : l ⊆ range n := fun t ht => mem_range.mpr (h t ht)
  simpa using (subperm_of_subset hnodup hsub).length_le

namespace Settled

theorem run_length (h : Settled timed D s r) (p : Priority) : (r.run p).length ≤ s.nextTid :=
  length_le (h.queued.linked p).chain.nodup fun t ht => h.book.exist t (.inl ⟨p, ht⟩)

theorem sleep_length (h : Settled timed D s r) : r.sleep.length ≤ s.nextTid :=
  length_le h.queued.chain.nodup fun t ht => h.book.exist t (.inr (.inl ht))

theorem wait_length (h : Settled timed D s r) {q : Wq} : (r.wait q).length ≤ s.nextTid :=
  length_le (h.waits.chain q).nodup fun t ht => h.book.exist t (.inr (.inr ⟨q, ht⟩))

end Settled

/-! ## 一つの thread だけが変わる -/

theorem Placed.congr (h : Placed timed D s r t)
    (hcur : (s.threads t).state = .running → t = s'.current)
    (hidle : s'.idle = s.idle) (ht : s'.threads t = s.threads t)
    (hrun : ∀ p, t ∈ r.run p → t ∈ r'.run p) (hsleep : t ∈ r.sleep → t ∈ r'.sleep) :
    Placed timed D s' r' t where
  running := by rw [ht]; exact hcur
  ready := by
    rw [ht, hidle]
    exact fun hr => (h.ready hr).imp_right (hrun _)
  sleeping := by
    rw [ht]
    exact fun hs => (h.sleeping hs).imp_left hsleep
  idle := by rw [ht, hidle]; exact h.idle
  data := by rw [ht]; exact h.data

/-- `t` のほかの thread と、そのいる列は変わらない。 -/
theorem Book.update (h : Book timed D s r) (hcur : s'.current = s.current)
    (hidle : s'.idle = s.idle) (hnext : s'.nextTid = s.nextTid) (ht : t < s.nextTid)
    (hmem : ∀ u, r'.Mem u → u = t ∨ r.Mem u) (hothers : ∀ u, u ≠ t → s'.threads u = s.threads u)
    (hrun : ∀ p u, u ≠ t → u ∈ r.run p → u ∈ r'.run p)
    (hsleep : ∀ u, u ≠ t → u ∈ r.sleep → u ∈ r'.sleep) (hself : Placed timed D s' r' t) :
    Book timed D s' r' where
  exist u hu := by
    rw [hnext]
    rcases hmem u hu with rfl | hu
    · exact ht
    · exact h.exist u hu
  current := by rw [hcur, hnext]; exact h.current
  idle := by rw [hidle, hnext]; exact h.idle
  idleTid := hidle.trans h.idleTid
  placed u hu := by
    by_cases hut : u = t
    · exact hut ▸ hself
    · rw [hnext] at hu
      have hp := h.placed u hu
      exact hp.congr (fun hr => (hp.running hr).trans hcur.symm) hidle (hothers u hut)
        (fun p => hrun p u hut) (hsleep u hut)

namespace Settled

section

variable (h : Settled timed D s r)
include h

/-- state と待ち方に触れない書換え。run queue にある thread の priority は変えられない。 -/
theorem data (ht : t < s.nextTid) (hstate : (f (s.threads t)).state = (s.threads t).state)
    (hpri : (s.threads t).state = .ready →
      (f (s.threads t)).priority = (s.threads t).priority)
    (hwait : (f (s.threads t)).waitingQueue = (s.threads t).waitingQueue)
    (hwake : (f (s.threads t)).wakeTick = (s.threads t).wakeTick) (hD : D t (f (s.threads t))) :
    Settled timed D (s.modify t f) r := by
  have hfields : ∀ u, ((s.modify t f).threads u).state = (s.threads u).state ∧
      ((s.threads u).state = .ready →
        ((s.modify t f).threads u).priority = (s.threads u).priority) ∧
      ((s.modify t f).threads u).waitingQueue = (s.threads u).waitingQueue ∧
      ((s.modify t f).threads u).wakeTick = (s.threads u).wakeTick := by
    intro u
    by_cases hut : u = t
    · subst hut
      rw [modify_self]
      exact ⟨hstate, hpri, hwait, hwake⟩
    · rw [modify_of_ne s t f hut]
      exact ⟨rfl, fun _ => rfl, rfl, rfl⟩
  refine ⟨h.queued.congr rfl rfl rfl
      (fun p u hu => ⟨(hfields u).1, (hfields u).2.1 (h.queued.ready p u hu).1⟩)
      (fun u _ => ⟨(hfields u).1, (hfields u).2.2⟩),
    h.waits.congr rfl rfl rfl (fun q u _ => ⟨(hfields u).1, (hfields u).2.2.1⟩),
    h.book.update rfl rfl rfl ht (fun u hu => .inr hu) (fun u hu => modify_of_ne s t f hu)
      (fun _ _ _ hu => hu) (fun _ _ hu => hu) ?_⟩
  have hp := h.book.placed t ht
  refine ⟨?_, ?_, ?_, ?_, by rw [modify_self]; exact hD⟩
  · rw [(hfields t).1]
    exact hp.running
  · rw [(hfields t).1]
    intro hready
    rw [(hfields t).2.1 hready]
    exact hp.ready hready
  · rw [(hfields t).1, (hfields t).2.2.1]
    exact hp.sleeping
  · rw [(hfields t).1]
    exact hp.idle

/-- run queue に加わり、待ち行列か sleep queue から外れた thread は READY である。 -/
theorem readied (ht : t < s.nextTid)
    (hqueued : Queued s' (r'.enqueue p t)) (hwaits : Waits s' (r'.enqueue p t))
    (hcur : s'.current = s.current) (hidle : s'.idle = s.idle) (hnext : s'.nextTid = s.nextTid)
    (hothers : ∀ u, u ≠ t → s'.threads u = s.threads u) (hrun : r'.run = r.run)
    (hsleep : ∀ u, u ≠ t → (u ∈ r'.sleep ↔ u ∈ r.sleep))
    (hwait : ∀ u q, u ∈ r'.wait q → u ∈ r.wait q) (hD : D t (s'.threads t)) :
    Settled timed D s' (r'.enqueue p t) := by
  have hmem : t ∈ (r'.enqueue p t).run p := Lists.mem_enqueue.mpr (.inl ⟨rfl, rfl⟩)
  have hready := hqueued.ready p t hmem
  refine ⟨hqueued, hwaits, h.book.update hcur hidle hnext ht (fun u hu => ?_) hothers
    (fun q u _ hu => Lists.mem_enqueue.mpr (.inr (hrun ▸ hu)))
    (fun u hut hu => (hsleep u hut).mpr hu) ?_⟩
  · by_cases hut : u = t
    · exact .inl hut
    · refine .inr ?_
      rcases hu with ⟨q, hu⟩ | hu | ⟨q, hu⟩
      · rcases Lists.mem_enqueue.mp hu with ⟨-, rfl⟩ | hu
        · exact absurd rfl hut
        · exact .inl ⟨q, hrun ▸ hu⟩
      · exact .inr (.inl ((hsleep u hut).mp hu))
      · exact .inr (.inr ⟨q, hwait u q hu⟩)
  · refine ⟨?_, ?_, ?_, fun _ => .inl hready.1, hD⟩
    · rw [hready.1]
      intro he
      cases he
    · rw [hready.2]
      exact fun _ => .inr hmem
    · rw [hready.1]
      intro he
      cases he

theorem rouse {q : Wq} (hw : r.wait q = t :: rest)
    (hf : (f (s.threads t)).priority = (s.threads t).priority)
    (hD : D t { f (s.threads t) with state := .ready }) :
    Settled timed D ((s.unwait q t).rouse t f) (r.rouse q (s.threads t).priority t rest) := by
  have hmem : t ∈ r.wait q := by rw [hw]; exact mem_cons_self
  obtain ⟨hstate, hqueue⟩ := h.waits.waiting q t hmem
  have hloose : r.Loose t := by
    refine ⟨fun p ht => ?_, fun ht => ?_⟩
    · rw [(h.queued.ready p t ht).1] at hstate
      rcases hstate with h | h <;> cases h
    · rw [(h.queued.sleeping t ht).2.2] at hqueue
      cases hqueue
  have hnodup := nodup_cons.mp (hw ▸ (h.waits.chain q).nodup)
  have hout : ∀ q', t ∉ update r.wait q rest q' := by
    intro q' ht
    by_cases hq : q' = q
    · subst hq
      exact hnodup.1 (by simpa using ht)
    · exact hq (h.waits.wait_unique (by simpa [hq] using ht) hmem)
  have hunwait : Queued (s.unwait q t) r :=
    h.queued.congr rfl rfl rfl (fun _ _ _ => ⟨rfl, rfl⟩) (fun _ _ => ⟨rfl, rfl, rfl⟩)
  have hqueued := (hunwait.modify hloose fun th => { f th with state := .ready }).enqueue hloose
    (by simp)
  have hwaits := (((h.waits.unwait hw).modify hout fun th =>
    { f th with state := .ready })).schedulerEnqueue
    hout (s.threads t).priority
  have hself : ((s.unwait q t).rouse t f).threads t = { f (s.threads t) with state := .ready } := by
    rw [State.rouse, enqueue_self _ _ (by simp), modify_self]
    rfl
  rw [modify_self] at hqueued
  refine h.readied
    (h.book.exist t (.inr (.inr ⟨q, hmem⟩))) ?_ hwaits (by simp [State.rouse, State.unwait])
    (by simp [State.rouse, State.unwait]) (by simp [State.rouse, State.unwait])
    (fun u hu => ?_) rfl (fun u _ => Iff.rfl) (fun u q' hu => ?_) (by rw [hself]; exact hD)
  · have heq := hqueued.rewait (update r.wait q rest)
    simp only [hf, State.unwait] at heq
    exact heq
  · rw [State.rouse, enqueue_of_ne _ _ hu, modify_of_ne _ _ _ hu]
    rfl
  · by_cases hq : q' = q
    · subst hq
      rw [hw]
      exact mem_cons_of_mem _ (by simpa using hu)
    · simpa [hq] using hu

theorem awaken (hs : r.sleep = t :: rest) (hD : D t { s.threads t with state := .ready }) :
    Settled timed D (s.awaken t) (r.awaken (s.threads t).priority t rest) := by
  have hmem : t ∈ r.sleep := by rw [hs]; exact mem_cons_self
  have hwait : ∀ q, t ∉ r.wait q := by
    intro q ht
    have := (h.waits.waiting q t ht).2.symm.trans (h.queued.sleeping t hmem).2.2
    cases this
  have hwaits : Waits { s with sleepQueue := s.links.next t, links := s.links.setNext t none }
      { r with sleep := rest } := h.waits.congr rfl rfl rfl fun _ _ _ => ⟨rfl, rfl⟩
  have hself : (s.awaken t).threads t = { s.threads t with state := .ready } := by
    rw [State.awaken, enqueue_self _ _ (by simp), modify_self]
  refine h.readied (h.book.exist t (.inr (.inl hmem)))
    (h.queued.awaken hs) ((hwaits.modify hwait _).schedulerEnqueue hwait _)
    (by simp [State.awaken]) (by simp [State.awaken]) (by simp [State.awaken])
    (fun u hu => ?_) rfl (fun u hu => ?_) (fun u q hu => hu) (by rw [hself]; exact hD)
  · rw [State.awaken, enqueue_of_ne _ _ hu, modify_of_ne _ _ _ hu]
  · rw [hs]
    simp [hu]

/-- 長く待った thread を UI の run queue に移す。 -/
theorem boost (ht : t ∈ r.run p) {now : UInt64}
    (hD : D t { s.threads t with priority := .ui, isBoosted := true, waitStartTick := now }) :
    Settled timed D (s.boost p now t) (r.boost p t) := by
  have hothers : ∀ u, u ≠ t → (s.boost p now t).threads u = s.threads u :=
    fun u hu => update_of_ne hu _ _
  have hself : (s.boost p now t).threads t
      = { s.threads t with priority := .ui, isBoosted := true, waitStartTick := now } :=
    update_self ..
  have hready := (h.queued.ready p t ht).1
  have hui : t ∈ (r.boost p t).run .ui := Lists.mem_enqueue.mpr (.inl ⟨rfl, rfl⟩)
  have hkeep : ∀ q u, u ≠ t → (u ∈ (r.boost p t).run q ↔ u ∈ r.run q) := by
    intro q u hu
    rw [Lists.boost, Lists.mem_enqueue, Lists.mem_unlink hu]
    simp [hu]
  refine ⟨h.queued.boost ht, h.waits.congr rfl rfl rfl (fun q u hu => ?_),
    h.book.update rfl rfl rfl (h.book.exist t (.inl ⟨p, ht⟩)) (fun u hu => ?_) hothers
      (fun q u hut hu => (hkeep q u hut).mpr hu) (fun u _ hu => hu) ?_⟩
  · have hut : u ≠ t := by
      rintro rfl
      have := (h.waits.waiting q u hu).1
      rw [hready] at this
      rcases this with h | h <;> cases h
    rw [hothers u hut]
    exact ⟨rfl, rfl⟩
  · by_cases hut : u = t
    · exact .inl hut
    · exact .inr (hu.imp_left (Exists.imp fun q => (hkeep q u hut).mp))
  · refine ⟨?_, ?_, ?_, ?_, by rw [hself]; exact hD⟩
    · rw [hself, hready]
      intro he
      cases he
    · rw [hself]
      exact fun _ => .inr hui
    · rw [hself, hready]
      intro he
      cases he
    · rw [hself]
      exact fun _ => .inl hready

/-- 現在の thread が走るのをやめ、待ち行列か sleep queue に入るか、終わる。 -/
theorem suspend (hqueued : Queued s' r') (hwaits : Waits s' r') (hcur : s'.current = s.current)
    (hidle : s'.idle = s.idle) (hnext : s'.nextTid = s.nextTid)
    (hothers : ∀ u, u ≠ s.current → s'.threads u = s.threads u) (hrun : r'.run = r.run)
    (hsleep : ∀ u ∈ r.sleep, u ∈ r'.sleep) (hmem : ∀ u, u ∈ r'.sleep ∨ (∃ q, u ∈ r'.wait q) →
      u = s.current ∨ u ∈ r.sleep ∨ ∃ q, u ∈ r.wait q) (hne : s.current ≠ s.idle)
    (hready : (s'.threads s.current).state ≠ .ready)
    (hrunning : (s'.threads s.current).state ≠ .running)
    (hasleep : (s'.threads s.current).state = .sleeping →
      s.current ∈ r'.sleep ∨ (timed ∧ (s'.threads s.current).waitingQueue ≠ none))
    (hD : D s.current (s'.threads s.current)) : Settled timed D s' r' := by
  refine ⟨hqueued, hwaits, h.book.update hcur hidle hnext h.book.current (fun u hu => ?_) hothers
    (fun p u _ hu => hrun ▸ hu) (fun u _ hu => hsleep u hu)
    ⟨fun he => absurd he hrunning, fun he => absurd he hready, hasleep, fun he => ?_, hD⟩⟩
  · rcases hu with hu | hu
    · exact .inr (.inl (hrun ▸ hu))
    · exact (hmem u hu).imp_right .inr
  · exact absurd (he.trans hidle) hne

end

end Settled

/-! ## thread を替える -/

section Switch

theorem leave_fields (th : Thread) (now : UInt64) : ((th.account now).demote).state = th.state ∧
      ((th.account now).demote).waitingQueue = th.waitingQueue ∧
      ((th.account now).demote).wakeTick = th.wakeTick := by
  have hcount : (th.account now).state = th.state ∧
      (th.account now).waitingQueue = th.waitingQueue ∧
      (th.account now).wakeTick = th.wakeTick := by
    unfold Thread.account
    split <;> exact ⟨rfl, rfl, rfl⟩
  unfold Thread.demote
  split <;> exact hcount

theorem Closed.leave (hD : Closed D) {th : Thread} (h : D t th) (now : UInt64) :
    D t (th.account now).demote := by
  have hcount : D t (th.account now) := by
    unfold Thread.account
    split
    · exact hD.keep t th _ h rfl rfl rfl rfl (.inl rfl)
    · exact h
  unfold Thread.demote
  split
  · exact hD.demote t _ hcount ‹_›
  · exact hcount

theorem leaveCurrent_shape (s : State) (again : ThreadState → Bool) :
    (s.leaveCurrent again).idle = s.idle ∧ (s.leaveCurrent again).nextTid = s.nextTid ∧
      ∀ u, u ≠ s.current → (s.leaveCurrent again).threads u = s.threads u := by
  unfold State.leaveCurrent
  simp only
  split
  · refine ⟨by simp, by simp, fun u hu => ?_⟩
    rw [enqueue_of_ne _ _ hu, modify_of_ne _ _ _ hu, modify_of_ne _ _ _ hu]
  · exact ⟨rfl, rfl, fun u hu => modify_of_ne _ _ _ hu⟩

/-- RUNNING の thread は、READY にして run queue に戻す。 -/
theorem leaveCurrent_of_running (hrun : (s.threads s.current).state = .running)
    (hagain : again .running = true) :
    s.leaveCurrent again = schedulerEnqueue ((s.modify s.current
      fun thread => (thread.account s.ticks).demote).modify s.current
      ({ · with state := .ready, waitStartTick := s.ticks })) s.current := by
  unfold State.leaveCurrent
  rw [if_pos]
  rw [modify_self, (leave_fields _ _).1, hrun]
  exact hagain

/-- ほかの状態の thread は、列に戻さない。 -/
theorem leaveCurrent_of_not (hagain : ¬again (s.threads s.current).state = true) :
    s.leaveCurrent again = s.modify s.current fun thread => (thread.account s.ticks).demote := by
  unfold State.leaveCurrent
  rw [if_neg]
  rwa [modify_self, (leave_fields _ _).1]

section

variable (hD : Closed D) (hqueued : Queued s r) (hwaits : Waits s r)
  (hexist : ∀ u, r.Mem u → u < s.nextTid)
include hD hqueued hwaits hexist

section

variable (hplaced : ∀ u < s.nextTid, u ≠ next → Placed timed D s r u) (hcur : s.current < s.nextTid)
include hplaced hcur

/-- 現在の thread を降ろした後。`r` は、次に移る `next` を外した列である。 -/
theorem leaveCurrent_placed (hloose : r.Loose next) (hne : next ≠ s.current)
    (hready : (s.threads s.current).state ≠ .ready)
    (hagain : ∀ state, state ≠ .ready → (again state = true ↔ state = .running)) :
    ∃ r', (Queued (s.leaveCurrent again) r' ∧ Waits (s.leaveCurrent again) r') ∧ r'.Loose next ∧
      (r'.wait = r.wait ∧ r'.sleep = r.sleep) ∧ (∀ u, r'.Mem u → u < s.nextTid) ∧
      ∀ u < s.nextTid, u ≠ next →
        Placed timed D { s.leaveCurrent again with current := next } r' u := by
  obtain ⟨hidle, -, hothers⟩ := leaveCurrent_shape s _
  have hp := hplaced _ hcur hne.symm
  have hdata := hD.leave hp.data s.ticks
  -- 現在の thread のほかに RUNNING の thread はない
  have hother : ∀ r' : Lists, (∀ p u, u ∈ r.run p → u ∈ r'.run p) → r'.sleep = r.sleep →
      ∀ u < s.nextTid, u ≠ next → u ≠ s.current →
        Placed timed D { s.leaveCurrent again with current := next } r' u := by
    intro r' hrun hsleep u hu hun huc
    have hpu := hplaced u hu hun
    exact hpu.congr (fun hr => absurd (hpu.running hr) huc) hidle (hothers u huc)
      (fun p => hrun p u) (fun hs => hsleep ▸ hs)
  by_cases hrun : (s.threads s.current).state = .running
  · have hcl : r.Loose _ := hqueued.loose (by rw [hrun]; simp) (by rw [hrun]; simp)
    have hcw := hwaits.not_mem (t := s.current) (by rw [hrun]; simp) (by rw [hrun]; simp)
    have heq := leaveCurrent_of_running hrun ((hagain _ (by simp)).mpr rfl)
    have hqueued' := ((hqueued.modify hcl fun thread => (thread.account s.ticks).demote).modify hcl
      ({ · with state := .ready, waitStartTick := s.ticks })).enqueue hcl
      (by simp)
    rw [← heq] at hqueued'
    have hwaits' := ((hwaits.modify hcw fun thread => (thread.account s.ticks).demote).modify hcw
      ({ · with state := .ready, waitStartTick := s.ticks })).schedulerEnqueue hcw
    have hself : (s.leaveCurrent again).threads s.current
        = { ((s.threads s.current).account s.ticks).demote with
            state := .ready, waitStartTick := s.ticks } := by
      rw [heq, enqueue_self _ _ (by simp), modify_self, modify_self]
    refine ⟨_, ⟨hqueued', heq ▸ hwaits' _⟩, ?_, ⟨rfl, rfl⟩, fun u hu => ?_, fun u hu hun => ?_⟩
    · refine ⟨fun p hmem => ?_, hloose.2⟩
      rcases Lists.mem_enqueue.mp hmem with ⟨-, he⟩ | hmem
      · exact hne he
      · exact hloose.1 p hmem
    · rcases hu with ⟨p, hu⟩ | hu
      · rcases Lists.mem_enqueue.mp hu with ⟨-, rfl⟩ | hu
        · exact hcur
        · exact hexist u (.inl ⟨p, hu⟩)
      · exact hexist u (.inr hu)
    · by_cases huc : u = s.current
      · subst huc
        refine ⟨?_, fun _ => .inr ?_, ?_, fun _ => .inl (by simp only [hself]), ?_⟩
        · simp only [hself]
          intro he
          cases he
        · simp only [hself]
          exact Lists.mem_enqueue.mpr (.inl ⟨by simp, rfl⟩)
        · simp only [hself]
          intro he
          cases he
        · simp only [hself]
          exact hD.keep _ _ _ hdata rfl rfl rfl rfl (.inl rfl)
      · exact hother _ (fun p u hu => Lists.mem_enqueue.mpr (.inr hu)) rfl u hu hun huc
  · have heq := leaveCurrent_of_not (mt (hagain _ hready).mp hrun)
    have hfields : ∀ u, ((s.leaveCurrent again).threads u).state = (s.threads u).state ∧
        ((s.leaveCurrent again).threads u).waitingQueue = (s.threads u).waitingQueue ∧
        ((s.leaveCurrent again).threads u).wakeTick = (s.threads u).wakeTick := by
      intro u
      by_cases huc : u = s.current
      · subst huc
        rw [heq, modify_self]
        exact leave_fields _ _
      · rw [hothers u huc]
        exact ⟨rfl, rfl, rfl⟩
    refine ⟨r, ⟨?_, ?_⟩, hloose, ⟨rfl, rfl⟩, hexist, fun u hu hun => ?_⟩
    · refine hqueued.congr (by rw [heq]; rfl) (by rw [heq]; rfl) (by rw [heq]; rfl)
        (fun p u hu => ?_) (fun u _ => hfields u)
      have huc : u ≠ s.current := fun he => hready (he ▸ (hqueued.ready p u hu).1)
      rw [hothers u huc]
      exact ⟨rfl, rfl⟩
    · exact hwaits.congr rfl (by rw [heq]; rfl) (by rw [heq]; rfl)
        fun q u _ => ⟨(hfields u).1, (hfields u).2.1⟩
    · by_cases huc : u = s.current
      · subst huc
        obtain ⟨hstate, hqueue, -⟩ := hfields s.current
        refine ⟨?_, ?_, ?_, ?_, ?_⟩
        · simp only [hstate]
          exact fun he => absurd he hrun
        · simp only [hstate]
          exact fun he => absurd he hready
        · simp only [hstate, hqueue]
          exact hp.sleeping
        · exact fun he => absurd (hp.idle (he.trans hidle)) (by simp [hready, hrun])
        · simp only [heq, modify_self]
          exact hdata
      · exact hother r (fun _ _ hu => hu) rfl u hu hun huc

/-- `next` に移った後。`r` は、`next` を外した列である。 -/
theorem switchTo_inv {enter : Thread → Thread} (hidle : s.idle < s.nextTid) (hidleTid : s.idle = 1)
    (hnext : next < s.nextTid)
    (hloose : r.Loose next) (hwait : ∀ q, next ∉ r.wait q) (hne : next ≠ s.current)
    (hready : (s.threads s.current).state ≠ .ready)
    (hagain : ∀ state, state ≠ .ready → (again state = true ↔ state = .running))
    (henter : (enter (s.threads next)).state = .running)
      (hnextD : D next (enter (s.threads next))) :
    ∃ r', Inv timed D (s.switchTo again enter next) r' ∧ r'.sleep = r.sleep := by
  obtain ⟨r', ⟨hq, hw⟩, hl, ⟨hwait', hsleep⟩, hexist', hplaced'⟩ :=
    leaveCurrent_placed hD hqueued hwaits hexist
    hplaced hcur hloose hne hready hagain
  obtain ⟨hidle', hnextTid, hothers⟩ := leaveCurrent_shape s _
  have hself : (s.switchTo again enter next).threads next = enter (s.threads next) := by
    simp only [State.switchTo]
    rw [modify_self, hothers next hne]
  have hq' : Queued (s.switchTo _ _ next) r' :=
    (hq.modify hl enter).congr rfl rfl rfl (fun _ _ _ => ⟨rfl, rfl⟩) (fun _ _ => ⟨rfl, rfl, rfl⟩)
  have hw' : Waits (s.switchTo _ _ next) r' :=
    (hw.modify (fun q => hwait' ▸ hwait q) enter).congr rfl rfl rfl fun _ _ _ => ⟨rfl, rfl⟩
  refine ⟨r', ⟨⟨hq', hw', ⟨?_, ?_, ?_, hidle'.trans hidleTid, fun u hu => ?_⟩⟩, ?_⟩, hsleep⟩
  · exact fun u hu => hnextTid ▸ hexist' u hu
  · exact hnextTid ▸ hnext
  · exact hidle' ▸ hnextTid ▸ hidle
  · by_cases hun : u = next
    · subst hun
      refine ⟨fun _ => rfl, ?_, ?_, fun _ => .inr ?_, by rw [hself]; exact hnextD⟩
      · rw [hself, henter]
        intro he
        cases he
      · rw [hself, henter]
        intro he
        cases he
      · rw [hself, henter]
    · have hpu := hplaced' u (hnextTid ▸ hu) hun
      exact hpu.congr hpu.running rfl (modify_of_ne _ _ _ hun) (fun _ hu => hu) (fun hu => hu)
  · exact hself ▸ henter

end

end

/-- run queue の `t` を外して、`t` に移る。 -/
theorem Settled.switchTo (again : ThreadState → Bool) (enter : Thread → Thread) (hD : Closed D)
    (h : Settled timed D s r) (ht : t ∈ r.run p)
    (hready : (s.threads s.current).state ≠ .ready)
    (hagain : ∀ state, state ≠ .ready → (again state = true ↔ state = .running))
    (henter : (enter (s.threads t)).state = .running) (henterD : D t (enter (s.threads t))) :
    ∃ r', Inv timed D ((s.taken p t).switchTo again enter t) r' ∧ r'.sleep = r.sleep := by
  have hstate := (h.queued.ready p t ht).1
  have hwaits : Waits (s.taken p t) (r.unlink p t) :=
    h.waits.congr rfl rfl rfl fun _ _ _ => ⟨rfl, rfl⟩
  refine switchTo_inv (r := r.unlink p t) hD (h.queued.unlink ht) hwaits (fun u hu => ?_)
    (fun u hu hut => ?_)
    h.book.current h.book.idle h.book.idleTid (h.book.exist t (.inl ⟨p, ht⟩))
    (h.queued.loose_unlink ht)
    (h.waits.not_mem (by rw [hstate]; simp) (by rw [hstate]; simp))
    (fun he => hready (he ▸ hstate)) hready hagain henter henterD
  · exact h.book.exist u (hu.imp_left fun ⟨q, hu⟩ => ⟨q, Lists.mem_of_unlink hu⟩)
  · have hpu := h.book.placed u hu
    exact hpu.congr hpu.running rfl rfl (fun q hq => (Lists.mem_unlink hut).mpr hq) (fun hs => hs)

/-- **現在の thread が場所を移った後で `scheduler_schedule` を呼ぶと、不変条件に戻る。** -/
theorem Settled.schedule (hD : Closed D) (h : Settled timed D s r) (hactive : s.active = true)
    (hready : (s.threads s.current).state ≠ .ready) :
    ∃ r', Inv timed D (schedulerSchedule s) r' ∧ r'.sleep = r.sleep := by
  have hagain : ∀ state : ThreadState, state ≠ .ready →
      (decide (state = .running ∨ state = .ready) = true ↔ state = .running) := by
    intro state hne
    simp [hne]
  rcases h.queued.pick with ⟨hpick, hempty⟩ | ⟨p, t, rest, hrun, -, hpick⟩
  · -- run queue はすべて空で、idle に移る
    have hidle := (h.book.placed _ h.book.idle).idle rfl
    simp only [schedulerSchedule, hactive, hpick, not_true, if_false]
    split
    · rename_i he
      exact ⟨r, ⟨h, he ▸ hidle.resolve_left (he ▸ hready)⟩, rfl⟩
    rename_i hne
    have hstate : (s.threads _).state = .ready := hidle.resolve_right fun hr =>
      hne ((h.book.placed _ h.book.idle).running hr)
    refine switchTo_inv hD h.queued h.waits h.book.exist (fun u hu _ => h.book.placed u hu)
      h.book.current h.book.idle h.book.idleTid h.book.idle ⟨fun p hp => ?_, fun hs => ?_⟩
      (h.waits.not_mem (by rw [hstate]; simp) (by rw [hstate]; simp)) hne hready hagain rfl
      (hD.keep _ _ _ (h.book.placed _ h.book.idle).data rfl rfl rfl rfl (.inl rfl))
    · rw [hempty] at hp
      cases hp
    · have := hstate.symm.trans (h.queued.sleeping _ hs).2.1
      cases this
  · have ht : t ∈ r.run p := by rw [hrun]; exact mem_cons_self
    have hne : t ≠ s.current := fun he => hready (he ▸ (h.queued.ready p t ht).1)
    simp only [schedulerSchedule, hactive, hpick, not_true, if_false, if_neg hne]
    exact h.switchTo _ _ hD ht hready hagain rfl (hD.keep _ _ _
      (h.book.placed t (h.book.exist t (.inl ⟨p, ht⟩))).data rfl rfl rfl rfl (.inl rfl))

/-! ### `wake_tick` は変わらない -/

theorem modify_wakeTick (hf : ∀ th, (f th).wakeTick = th.wakeTick) {u : Tid} :
    ((s.modify t f).threads u).wakeTick = (s.threads u).wakeTick := by
  by_cases hut : u = t
  · subst hut
    rw [modify_self, hf]
  · rw [modify_of_ne _ _ _ hut]

theorem enqueue_wakeTick {u : Tid} :
    ((schedulerEnqueue s t).threads u).wakeTick = (s.threads u).wakeTick := by
  unfold schedulerEnqueue
  split
  · rfl
  · exact modify_wakeTick (by exact fun _ => rfl)

theorem schedule_wakeTick {u : Tid} :
    ((schedulerSchedule s).threads u).wakeTick = (s.threads u).wakeTick := by
  have hpick : (schedulerPickNext s).2.threads = s.threads := by
    unfold schedulerPickNext
    split <;> rfl
  have hleave : ∀ (x : State) again, ((x.leaveCurrent again).threads u).wakeTick
      = (x.threads u).wakeTick := by
    intro x again
    unfold State.leaveCurrent
    simp only
    split
    · rw [enqueue_wakeTick]
      exact (modify_wakeTick (by exact fun _ => rfl)).trans
        (modify_wakeTick (fun _ => (leave_fields _ _).2.2))
    · exact modify_wakeTick (fun _ => (leave_fields _ _).2.2)
  unfold schedulerSchedule
  split
  · rfl
  · simp only
    split
    · rw [hpick]
    · simp only [State.switchTo]
      exact (modify_wakeTick (by exact fun _ => rfl)).trans ((hleave _ _).trans (by rw [hpick]))

end Switch

end Alos.Sched
