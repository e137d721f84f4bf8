import Alos.Sched.Queues

/-!
# リンクを辿るループ

ループの本体が保つ性質は、ループ全体が保つ。列は有限なので、thread の数だけ回ればループは終わる。
-/

namespace Alos.Sched

open Links List

variable {s : State} {r : Lists} {P : State → Lists → Prop}
variable {fuel : Nat}

/-! ## 眠っている thread を起こす -/

/-- sleep queue の先頭を起こした後の列。 -/
def Lists.awaken (r : Lists) (p : Priority) (t : Tid) (rest : List Tid) : Lists :=
  { r with sleep := rest }.enqueue p t

theorem wakeSleepingLoop_rule (hP : ∀ s r, P s r → Queued s r)
    (hstep : ∀ s r t rest, P s r → r.sleep = t :: rest → (s.threads t).wakeTick ≤ s.ticks →
      P (s.awaken t) (r.awaken (s.threads t).priority t rest))
    (h : P s r) (hfuel : r.sleep.length ≤ fuel) :
    ∃ s' r', wakeSleepingLoop fuel s = some s' ∧ P s' r' ∧
      ∀ u ∈ r'.sleep, ¬(s'.threads u).wakeTick ≤ s'.ticks := by
  induction fuel generalizing s r with
  | zero =>
    have hnil : r.sleep = [] := length_eq_zero_iff.mp (Nat.le_zero.mp hfuel)
    have hqueue := (hP s r h).chain.eq_nil_iff.mpr hnil
    exact ⟨s, r, if_pos hqueue, h, fun u hu => absurd (hnil ▸ hu) not_mem_nil⟩
  | succ fuel ih =>
    have hchain := (hP s r h).chain
    have hsorted := (hP s r h).sorted
    cases hsleep : r.sleep with
    | nil =>
      have hqueue := hchain.eq_nil_iff.mpr hsleep
      refine ⟨s, r, ?_, h, fun u hu => absurd (hsleep ▸ hu) not_mem_nil⟩
      simp only [wakeSleepingLoop, hqueue]
    | cons t rest =>
      rw [hsleep] at hchain hsorted hfuel
      simp only [wakeSleepingLoop, hchain.1]
      split
      · rename_i hle
        exact ih (hstep s r t rest h hsleep hle) (Nat.le_of_succ_le_succ hfuel)
      · rename_i hgt
        refine ⟨s, r, rfl, h, fun u hu hle => hgt ?_⟩
        rcases mem_cons.mp (hsleep ▸ hu) with rfl | hu
        · exact hle
        · exact UInt64.le_trans ((pairwise_cons.mp hsorted).1 u hu) hle

/-! ## 待ち行列の thread をすべて起こす -/

/-- 待ち行列の先頭を起こした後の列。 -/
def Lists.rouse (r : Lists) (q : Wq) (p : Priority) (t : Tid) (rest : List Tid) : Lists :=
  { r with wait := Function.update r.wait q rest }.enqueue p t

theorem wakeAllLoop_rule {q : Wq} (hP : ∀ s r, P s r → Waits s r)
    (hstep : ∀ s r t rest, P s r → r.wait q = t :: rest →
      P (waitQueueWakeOne s q) (r.rouse q (s.threads t).priority t rest))
    (h : P s r) (hfuel : (r.wait q).length ≤ fuel) :
    ∃ s' r', wakeAllLoop q fuel s = some s' ∧ P s' r' := by
  induction fuel generalizing s r with
  | zero =>
    have hnil : r.wait q = [] := length_eq_zero_iff.mp (Nat.le_zero.mp hfuel)
    exact ⟨s, r, if_pos (((hP s r h).chain q).eq_nil_iff.mpr hnil), h⟩
  | succ fuel ih =>
    have hchain := (hP s r h).chain q
    cases hwait : r.wait q with
    | nil => exact ⟨s, r, if_pos (hchain.eq_nil_iff.mpr hwait), h⟩
    | cons t rest =>
      rw [hwait] at hchain hfuel
      have hnone : (s.waitQueues q).head ≠ none := by rw [hchain.1]; simp
      simp only [wakeAllLoop, if_neg hnone]
      refine ih (hstep s r t rest h hwait) ?_
      have hlist : (r.rouse q (s.threads t).priority t rest).wait q = rest :=
        Function.update_self ..
      rw [hlist]
      exact Nat.le_of_succ_le_succ hfuel

/-! ## aging -/

/-- boost した後の列。 -/
def Lists.boost (r : Lists) (p : Priority) (t : Tid) : Lists := (r.unlink p t).enqueue .ui t

/-- `done` は辿り終えて残した部分、`rest` はこれから辿る部分である。 -/
theorem ageQueue_rule {p : Priority} {now : UInt64} (hP : ∀ s r, P s r → Queued s r)
    (hstep : ∀ s r t, P s r → t ∈ r.run p → (s.threads t).isBoosted = false →
      agingThreshold ≤ now - (s.threads t).waitStartTick → P (s.boost p now t) (r.boost p t))
    (hp : p ≠ .ui) (done : List Tid) {rest : List Tid} (h : P s r) (hrun : r.run p = done ++ rest)
    (hfuel : rest.length ≤ fuel) :
    ∃ s' r', ageQueue p now fuel s rest.head? = some s' ∧ P s' r' := by
  induction rest generalizing s r done fuel with
  | nil => exact ⟨s, r, by cases fuel <;> rfl, h⟩
  | cons t rest ih =>
    cases fuel with
    | zero => exact absurd hfuel (by simp)
    | succ fuel =>
      have hlinked := hrun ▸ (hP s r h).linked p
      have hnext := Chain.next_eq hlinked.chain
      have hfuel := Nat.le_of_succ_le_succ hfuel
      simp only [ageQueue, head?_cons, hnext]
      split
      · rename_i hold
        have hmem : t ∈ r.run p := by rw [hrun]; simp
        have hdone : t ∉ done := fun ht =>
          (nodup_append.mp hlinked.chain.nodup).2.2 t ht t mem_cons_self rfl
        refine ih done (hstep s r t h hmem (by simpa using hold.1) hold.2) ?_ hfuel
        have hlist : (r.boost p t).run p = (r.run p).erase t := by
          simp [Lists.boost, Lists.enqueue, Lists.unlink, hp]
        rw [hlist, hrun, erase_append_right _ hdone, erase_cons_head]
      · exact ih _ h (by rw [hrun, append_cons]) hfuel

theorem ageQueues_rule (now : UInt64) (hP : ∀ s r, P s r → Queued s r)
    (hlen : ∀ s r p, P s r → (r.run p).length ≤ s.nextTid)
    (hstep : ∀ s r p t, P s r → t ∈ r.run p → (s.threads t).isBoosted = false →
      agingThreshold ≤ now - (s.threads t).waitStartTick → P (s.boost p now t) (r.boost p t))
    (ps : List Priority) (hps : Priority.ui ∉ ps) (h : P s r) :
    ∃ s' r', ageQueues now ps s = some s' ∧ P s' r' := by
  induction ps generalizing s r with
  | nil => exact ⟨s, r, rfl, h⟩
  | cons p ps ih =>
    have hp : p ≠ .ui := fun he => hps (he ▸ mem_cons_self)
    have hhead := Chain.head_eq ((hP s r h).linked p).chain
    obtain ⟨s₁, r₁, hs₁, h₁⟩ := ageQueue_rule hP (fun s r t => hstep s r p t) hp [] h rfl
      (hlen s r p h)
    obtain ⟨s', r', hs', h'⟩ := ih (fun hmem => hps (mem_cons_of_mem _ hmem)) h₁
    refine ⟨s', r', ?_, h'⟩
    simp only [ageQueues, hhead, hs₁, Option.bind_some, hs']

/-! ## 切り替える kernel thread を探す -/

theorem findKernelIn_spec {head : Option Tid} {l : List Tid} (h : Chain s.links.next head l)
    (hlen : l.length ≤ fuel) :
    ∃ found, findKernelIn s fuel head = some found ∧
      ∀ t, found = some t → t ∈ l ∧ t ≠ s.current := by
  induction l generalizing head fuel with
  | nil =>
    rw [show head = none from h]
    exact ⟨none, by cases fuel <;> rfl, fun t ht => by cases ht⟩
  | cons x l ih =>
    cases fuel with
    | zero => exact absurd hlen (by simp)
    | succ fuel =>
      rw [h.1]
      simp only [findKernelIn]
      split
      · rename_i hx
        refine ⟨some x, rfl, ?_⟩
        rintro t ⟨⟩
        exact ⟨mem_cons_self, hx.2⟩
      · obtain ⟨found, hfound, hspec⟩ := ih h.2 (Nat.le_of_succ_le_succ hlen)
        exact ⟨found, hfound, fun t ht =>
          ⟨mem_cons_of_mem _ (hspec t ht).1, (hspec t ht).2⟩⟩

theorem findKernel_spec (h : Queued s r) (hlen : ∀ p, (r.run p).length ≤ s.nextTid)
    {ps : List Priority} : ∃ found, findKernel s ps = some found ∧
      ∀ t, found = some t → (∃ p, t ∈ r.run p) ∧ t ≠ s.current := by
  induction ps with
  | nil => exact ⟨none, rfl, fun t ht => by cases ht⟩
  | cons p ps ih =>
    obtain ⟨found, hfound, hspec⟩ := findKernelIn_spec (h.linked p).chain (hlen p)
    cases found with
    | none =>
      simp only [findKernel, hfound]
      exact ih
    | some t =>
      refine ⟨some t, by simp only [findKernel, hfound], ?_⟩
      rintro u ⟨⟩
      exact ⟨⟨p, (hspec t rfl).1⟩, (hspec t rfl).2⟩

end Alos.Sched
