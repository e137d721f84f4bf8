import Alos.KHeap.Invariant
import Alos.Lib.Links
import Alos.Sync.Semaphore

/-!
# worker pool（`kernel/workqueue.c`）

`worker_pool_submit` は仕事を列の末尾につなぎ、lock を放してから semaphore を一つ増やす。worker は semaphore を一つ
取ってから、列の先頭を外す。列と semaphore は別の区間で変わるので、両者の数は、途中にいる thread の数だけずれる。
そのずれを、`sem_wait` を終えて取り出す前の worker（`taken`）と、つないで `sem_post` の前の thread（`owing`）の
二つの集まりで数える。

仕事の構造体は `kernel.c` の 1 MiB の heap から取る。列の長さが 32 bit の数えを溢れないのはそのためである。

* `pool_consistent` — shutdown の前に届くどの状態でも、列と数えと実行の記録は合う
-/

namespace Alos.Work

open Function List

variable {k func arg : Nat} {rest : List Nat} {bs : List BlockList.Blk}

open Links (Chain)

/-! ## 列 -/

/-- `work_item_t`。`func` と `arg` は番地である。 -/
structure WorkItem where
  func : Nat
  arg : Nat
  next : Option Nat

structure WorkQueue where
  head : Option Nat
  tail : Option Nat
  count : UInt32
  shutdown : Bool

/-- 末尾につなぐ。 -/
def WorkQueue.enqueue (queue : WorkQueue) (items : Nat → WorkItem) (item : Nat) :
    WorkQueue × (Nat → WorkItem) :=
  match queue.tail with
  | some last =>
    ({ queue with tail := some item, count := queue.count + 1 },
      Function.update items last { items last with next := some item })
  | none => ({ queue with head := some item, tail := some item, count := queue.count + 1 }, items)

/-- 先頭を外す。 -/
def WorkQueue.dequeue (queue : WorkQueue) (items : Nat → WorkItem) : Option Nat × WorkQueue :=
  match queue.head with
  | none => (none, queue)
  | some item =>
    let head := (items item).next
    (some item, { queue with
      head := head
      tail := if head = none then none else queue.tail
      count := queue.count - 1 })

def workItemSize : Nat := 24

/-! ## 区間の交錯 -/

/-- worker の居場所。`sem_wait` の中にいることは semaphore の側が持つ。 -/
inductive Stage where
  | idle
  /-- 列から外し、まだ呼んでいない。 -/
  | holding (item : Nat)
  | executing (item : Nat)
  | exited
  deriving DecidableEq

/-- 仕事を出せる居場所か。worker は、呼んだ仕事の中から出す。 -/
def Stage.submits (worker : Bool) : Stage → Bool
  | .idle => !worker
  | .executing _ => true
  | .holding _ | .exited => false

/-- 仕事の構造体が、いま誰のものか。 -/
inductive Place (T : Type) where
  | outside
  | prepared (t : T)
  | listed
  | held (t : T)
  deriving DecidableEq

/--
pool と、それを使う thread。

`place` から下は記録である。`serial item` は何番目につながれた仕事かを言い、`missed` は、`sem_wait` の後に列が空だった
worker がいたことを言う。
-/
structure Pool (T : Type) where
  queue : WorkQueue
  items : Nat → WorkItem
  running : Bool
  sem : Sync.SemSystem T
  heap : KHeap.St
  taken : Finset T
  stage : T → Stage
  prepared : T → Option Nat
  owing : Finset T
  place : Nat → Place T
  serial : Nat → Nat
  submitted : List (Nat × Nat)
  dequeued : List Nat
  calls : List (Nat × Nat × Nat)
  finished : List Nat
  missed : Bool

inductive PoolOp (T : Type) where
  | wait (t : T)
  /-- 起こされた worker が `sem_wait` のループの先頭に戻る。 -/
  | retest (t : T)
  | dequeue (t : T)
  | call (t : T)
  | free (t : T)
  | submit (t : T) (func arg : Nat)
  | enqueue (t : T)
  | post (t : T)
  | shutdown
  /-- ほかの thread が heap を使う。 -/
  | heap (op : KHeap.Op)

section Step

variable {T : Type} [DecidableEq T]

/-- `worker_pool_create` の後。 -/
def Pool.init (heap : KHeap.St) (items : Nat → WorkItem) : Pool T where
  queue := ⟨none, none, 0, false⟩
  items := items
  running := true
  sem := .init 0 0
  heap := heap
  taken := ∅
  stage _ := .idle
  prepared _ := none
  owing := ∅
  place _ := .outside
  serial _ := 0
  submitted := []
  dequeued := []
  calls := []
  finished := []
  missed := false

/-- `sem_wait(&queue->work_sem)` のループの一周。 -/
def Pool.waited (s : Pool T) (t : T) (woken : Finset T) : Pool T :=
  let r := Sync.semWait s.sem.sem t
  { s with
    sem := { s.sem.took r with woken := woken }
    taken := if r.2 then insert t s.taken else s.taken }

/-- `sem_wait` から戻った worker が、lock を取って先頭を外す。 -/
def Pool.dequeueBy (s : Pool T) (t : T) : Pool T :=
  if s.queue.shutdown then
    { s with taken := s.taken.erase t, stage := Function.update s.stage t .exited }
  else
    match s.queue.dequeue s.items with
    | (none, _) => { s with taken := s.taken.erase t, missed := true }
    | (some item, queue) =>
      { s with
        taken := s.taken.erase t
        queue := queue
        stage := Function.update s.stage t (.holding item)
        place := Function.update s.place item (.held t)
        dequeued := s.dequeued ++ [s.serial item] }

/-- `worker_pool_submit` の、構造体を取って埋めるまで。 -/
def workerPoolSubmit (s : Pool T) (t : T) (func arg : Nat) : Option (Pool T) :=
  if func = 0 then some s
  else if ¬s.running ∨ s.queue.shutdown then some s
  else
    (KHeap.kmalloc s.heap.heap workItemSize).map fun (item, heap) =>
      if item = 0 then { s with heap := ⟨heap, s.heap.live⟩ }
      else
        { s with
          heap := ⟨heap, item :: s.heap.live⟩
          items := Function.update s.items item ⟨func, arg, none⟩
          prepared := Function.update s.prepared t (some item)
          place := Function.update s.place item (.prepared t) }

/-- 埋めた構造体を列につなぐ。 -/
def Pool.enqueueBy (s : Pool T) (t : T) (item : Nat) : Pool T :=
  let (queue, items) := s.queue.enqueue s.items item
  { s with
    queue := queue
    items := items
    prepared := Function.update s.prepared t none
    owing := insert t s.owing
    place := Function.update s.place item .listed
    serial := Function.update s.serial item s.submitted.length
    submitted := s.submitted ++ [((s.items item).func, (s.items item).arg)] }

def Pool.posted (s : Pool T) (t : T) : Pool T :=
  let r := Sync.semPost s.sem.sem
  { s with
    sem := ⟨r.1, r.2.2.elim s.sem.woken (insert · s.sem.woken),
      if r.2.1 = 0 then s.sem.posts + 1 else s.sem.posts, s.sem.waits⟩
    owing := s.owing.erase t }

/-- 一つの区間。 -/
def poolStep (worker : T → Bool) (s : Pool T) : PoolOp T → Option (Pool T)
  | .wait t =>
    if worker t ∧ s.stage t = .idle ∧ t ∉ s.taken ∧ s.sem.Outside t then
      if s.queue.shutdown then some { s with stage := Function.update s.stage t .exited }
      else some (s.waited t s.sem.woken)
    else none
  | .retest t => if t ∈ s.sem.woken then some (s.waited t (s.sem.woken.erase t)) else none
  | .dequeue t => if t ∈ s.taken then some (s.dequeueBy t) else none
  | .call t =>
    match s.stage t with
    | .holding item =>
      let work := s.items item
      some { s with
        stage := Function.update s.stage t (.executing item)
        calls := if work.func = 0 then s.calls else s.calls ++
          [(s.serial item, work.func, work.arg)] }
    | _ => none
  | .free t =>
    match s.stage t with
    | .executing item =>
      if s.prepared t = none ∧ t ∉ s.owing then
        (KHeap.kfree s.heap.heap item).map fun heap =>
          { s with
            heap := ⟨heap, s.heap.live.erase item⟩
            stage := Function.update s.stage t .idle
            place := Function.update s.place item .outside
            finished := s.finished ++ [s.serial item] }
      else none
    | _ => none
  | .submit t func arg =>
    if (s.stage t).submits (worker t) ∧ s.prepared t = none ∧ t ∉ s.owing then
      workerPoolSubmit s t func arg
    else none
  | .enqueue t => (s.prepared t).map (s.enqueueBy t)
  | .post t => if t ∈ s.owing then some (s.posted t) else none
  | .shutdown => some { s with running := false, queue := { s.queue with shutdown := true } }
  | .heap op => (KHeap.step s.heap op).map fun heap => { s with heap := heap }

/-- ほかの thread は、pool の構造体に触らない。 -/
def Pool.Foreign (s : Pool T) : KHeap.Op → Prop
  | .kmalloc _ => True
  | .kfree p | .krealloc p _ | .write p _ _ => s.place p = .outside

instance (s : Pool T) : (op : KHeap.Op) → Decidable (s.Foreign op)
  | .kmalloc _ => .isTrue trivial
  | .kfree _ | .krealloc .. | .write .. => inferInstanceAs (Decidable (_ = _))

/-- shutdown の前の手。 -/
def Before (s : Pool T) : PoolOp T → Prop
  | .shutdown => False
  | .heap op => KHeap.Legal s.heap op ∧ s.Foreign op
  | _ => True

instance (s : Pool T) : (op : PoolOp T) → Decidable (Before s op)
  | .shutdown => .isFalse id
  | .heap _ => inferInstanceAs (Decidable (_ ∧ _))
  | .wait _ | .retest _ | .dequeue _ | .call _ | .free _ | .submit .. | .enqueue _ | .post _ =>
    .isTrue trivial

/-! ## 一点の書き換え -/

section Update

variable {α β ι : Type} [DecidableEq α] {f : α → β} {a b : α} {x y : β}

theorem update_eq_iff_of_ne (hx : x ≠ y) : update f a x b = y ↔ b ≠ a ∧ f b = y := by
  by_cases hba : b = a
  · simp [hba, hx]
  · simp [hba]

theorem update_eq_iff_of_ne_ne (hx : x ≠ y) (ha : f a ≠ y) : update f a x b = y ↔ f b = y := by
  rw [update_eq_iff_of_ne hx, and_iff_right_iff_imp]
  rintro hb rfl
  exact ha hb

/-- `c` の形でない値を `c i` に書き換えると、`c` の形の点が一つ増える。 -/
theorem update_eq_iff_of_injective {c : ι → β} (hc : c.Injective) (ha : ∀ j, f a ≠ c j) {i j : ι} :
    update f a (c i) b = c j ↔ b = a ∧ j = i ∨ f b = c j := by
  by_cases hba : b = a
  · simp [hba, ha, hc.eq_iff, eq_comm]
  · simp [hba]

variable {τ : Type} {g : Nat → Nat} {all done : List Nat} {P P' : τ → Nat → Prop} {u : τ} {q : Nat}

theorem exists_take (hP : ∀ t p, P' t p ↔ t = u ∧ p = q ∨ P t p) :
    (∃ t p, P' t p ∧ g p = k) ↔ k = g q ∨ ∃ t p, P t p ∧ g p = k := by
  constructor
  · rintro ⟨t, p, hp, rfl⟩
    rcases (hP t p).mp hp with ⟨-, rfl⟩ | hp
    · exact .inl rfl
    · exact .inr ⟨t, p, hp, rfl⟩
  · rintro (rfl | ⟨t, p, hp, rfl⟩)
    · exact ⟨u, q, (hP u q).mpr (.inl ⟨rfl, rfl⟩), rfl⟩
    · exact ⟨t, p, (hP t p).mpr (.inr hp), rfl⟩

/-- 仕事 `q` が手に入ると、記録が一つ増える。 -/
theorem mem_iff_take (h : ∀ k, k ∈ all ↔ k ∈ done ∨ ∃ t p, P t p ∧ g p = k)
    (hP : ∀ t p, P' t p ↔ t = u ∧ p = q ∨ P t p) (k : Nat) :
    k ∈ all ++ [g q] ↔ k ∈ done ∨ ∃ t p, P' t p ∧ g p = k := by
  rw [mem_append, mem_singleton, h, exists_take hP, or_assoc]
  exact or_congr_right or_comm

/-- 手にある仕事 `q` を終えても、記録は合う。 -/
theorem mem_iff_finish (h : ∀ k, k ∈ all ↔ k ∈ done ∨ ∃ t p, P t p ∧ g p = k)
    (hP : ∀ t p, P t p ↔ t = u ∧ p = q ∨ P' t p) (k : Nat) :
    k ∈ all ↔ k ∈ done ++ [g q] ∨ ∃ t p, P' t p ∧ g p = k := by
  rw [h, exists_take hP, mem_append, mem_singleton, or_assoc]

end Update

/-! ## 不変条件 -/

/-- 長さ `l.length` の列 `l` を持つ pool の不変条件。`start` と `size` は heap の領域である。 -/
structure Consistent (start size : Nat) (s : Pool T) (l : List Nat) : Prop where
  heap : ∃ bs, KHeap.Inv start size s.heap bs
  sem : Sync.Counted 0 0 s.sem
  chain : Chain (fun p => (s.items p).next) s.queue.head l
  tail : s.queue.tail = l.getLast?
  count : s.queue.count.toNat = l.length
  posts : s.sem.posts + s.owing.card = s.submitted.length
  waits : s.sem.waits = s.dequeued.length + s.taken.card
  order : s.dequeued ++ l.map s.serial = List.range s.submitted.length
  live : ∀ p, s.place p ≠ .outside → p ∈ s.heap.live
  listed : ∀ p, p ∈ l ↔ s.place p = .listed
  prepared : ∀ t p, s.prepared t = some p ↔ s.place p = .prepared t
  held : ∀ t p, (s.stage t = .holding p ∨ s.stage t = .executing p) ↔ s.place p = .held t
  blank : ∀ t p, s.prepared t = some p → (s.items p).func ≠ 0 ∧ (s.items p).next = none
  work : ∀ p t, s.place p = .listed ∨ s.place p = .held t → (s.items p).func ≠ 0 ∧
      s.submitted[s.serial p]? = some ((s.items p).func, (s.items p).arg)
  away : ∀ t, t ∈ s.sem.sem.waiters ∨ t ∈ s.sem.woken ∨ t ∈ s.taken → s.stage t = .idle
  inside : ∀ t ∈ s.taken, s.sem.Outside t
  unpaid : ∀ t, s.prepared t ≠ none → t ∉ s.owing
  hands : ∀ k, k ∈ s.dequeued ↔ k ∈ s.finished ∨ ∃ t p, s.place p = .held t ∧ s.serial p = k
  apart : ∀ t p, s.place p = .held t → s.serial p ∉ s.finished
  single : ∀ t u p q, s.place p = .held t → s.place q = .held u → s.serial p = s.serial q → p = q
  once : (s.calls.map Prod.fst).Nodup
  called : ∀ k, k ∈ s.calls.map Prod.fst ↔
    k ∈ s.finished ∨ ∃ t p, s.stage t = .executing p ∧ s.serial p = k
  same : ∀ c ∈ s.calls, s.submitted[c.1]? = some c.2
  alive : s.queue.shutdown = false
  found : s.missed = false

variable {start size : Nat} {s s' : Pool T} {l : List Nat} {t : T} {p : Nat}

namespace Consistent

section

omit [DecidableEq T]
variable (h : Consistent start size s l)
include h

/-- 取り出した仕事は、つないだ順に番号が並ぶ。 -/
theorem mem_dequeued : k ∈ s.dequeued ↔ k < s.dequeued.length := by
  have hinit : s.dequeued = range s.dequeued.length := by
    have htake := congrArg (take s.dequeued.length) h.order
    have hle := congrArg length h.order
    rw [length_append, length_range] at hle
    rwa [take_left, take_range, Nat.min_eq_left (by omega)] at htake
  rw [hinit, mem_range, length_range]

theorem length_submitted : s.submitted.length = s.dequeued.length + l.length := by
  have hlen := congrArg length h.order
  rw [length_append, length_map, length_range] at hlen
  exact hlen.symm

theorem length_le : KHeap.headerSize * l.length ≤ size := by
  obtain ⟨bs, hinv⟩ := h.heap
  have hsub : l ⊆ s.heap.live := fun p hp => h.live p (by rw [(h.listed p).mp hp]; simp)
  have hle := (subperm_of_subset h.chain.nodup hsub).length_le
  exact Nat.le_trans (Nat.mul_le_mul_left _ hle) hinv.length_live

theorem length_lt (hsize : size < KHeap.headerSize * (2 ^ 31 - 1)) : l.length < 2 ^ 31 - 1 :=
  Nat.lt_of_mul_lt_mul_left (Nat.lt_of_le_of_lt h.length_le hsize)

/-- 列の長さは、semaphore の数と、途中の thread の数の和である。 -/
theorem balance : (l.length : Int) = s.sem.sem.count.toInt + s.taken.card + s.owing.card := by
  have hcount := h.sem.count
  have hposts := h.posts
  have hwaits := h.waits
  have hlen := h.length_submitted
  omega

theorem foreign {op : KHeap.Op} {heap : KHeap.St} (hlegal : KHeap.Legal s.heap op)
    (hop : s.Foreign op) (hstep : KHeap.step s.heap op = some heap) :
    Consistent start size { s with heap := heap } l := by
  obtain ⟨bs, hinv⟩ := h.heap
  obtain ⟨heap', bs', hstep', hinv'⟩ := hinv.step hlegal.allowed
  rw [hstep] at hstep'
  cases hstep'
  refine { h with heap := ⟨bs', hinv'⟩, live := fun p hp => ?_ }
  have hlive := h.live p hp
  cases op with
  | kmalloc n =>
    obtain ⟨r, -, rfl⟩ := Option.map_eq_some_iff.mp hstep
    split
    · exact hlive
    · exact mem_cons_of_mem _ hlive
  | kfree q =>
    obtain ⟨r, -, rfl⟩ := Option.map_eq_some_iff.mp hstep
    exact (mem_erase_of_ne fun he : p = q => hp (by rw [he]; exact hop)).mpr hlive
  | krealloc q n =>
    have hkeep : p ∈ s.heap.live.erase q :=
      (mem_erase_of_ne fun he : p = q => hp (by rw [he]; exact hop)).mpr hlive
    obtain ⟨r, -, rfl⟩ := Option.map_eq_some_iff.mp hstep
    split
    · exact hkeep
    · split
      · exact hlive
      · exact mem_cons_of_mem _ hkeep
  | write q off v =>
    obtain rfl := Option.some.inj hstep
    exact hlive

/-- 生きている構造体の居場所が変わっても、pool の構造体は生きている。 -/
theorem live_update (hp : p ∈ s.heap.live) (x : Place T) :
    ∀ q, update s.place p x q ≠ .outside → q ∈ s.heap.live := by
  intro q hq
  by_cases hqp : q = p
  · exact hqp ▸ hp
  · rw [update_of_ne hqp] at hq
    exact h.live q hq

/-- worker の手にある仕事とその番号が変わらなければ、外した仕事の記録は合ったままである。 -/
theorem hands_congr {place : Nat → Place T} {serial : Nat → Nat}
    (hheld : ∀ q u, place q = .held u ↔ s.place q = .held u)
    (hserial : ∀ q u, s.place q = .held u → serial q = s.serial q) :
    (∀ k, k ∈ s.dequeued ↔ k ∈ s.finished ∨ ∃ u q, place q = .held u ∧ serial q = k) ∧
    (∀ u q, place q = .held u → serial q ∉ s.finished) ∧
    ∀ u v q r, place q = .held u → place r = .held v → serial q = serial r → q = r := by
  simp only [hheld]
  refine ⟨fun k => ?_, fun u q hq => ?_, fun u v q r hq hr he => ?_⟩
  · rw [h.hands]
    refine or_congr_right (exists_congr fun u => exists_congr fun q => and_congr_right fun hq => ?_)
    rw [hserial q u hq]
  · rw [hserial q u hq]
    exact h.apart u q hq
  · rw [hserial q u hq, hserial r v hr] at he
    exact h.single u v q r hq hr he

theorem ne_nil (ht : t ∈ s.taken) : l ≠ [] := by
  rintro rfl
  have hbalance := h.balance
  have hnonneg := h.sem.nonneg
  have hpos := Finset.card_pos.mpr ⟨t, ht⟩
  rw [length_nil] at hbalance
  omega

theorem enqueue_spec (hp : p ∉ l) (hnext : (s.items p).next = none) :
    (s.queue.enqueue s.items p).1.head = (l ++ [p]).head? ∧
    (s.queue.enqueue s.items p).1.tail = some p ∧
    (s.queue.enqueue s.items p).1.count = s.queue.count + 1 ∧
    (s.queue.enqueue s.items p).1.shutdown = s.queue.shutdown ∧
    Chain (fun q => ((s.queue.enqueue s.items p).2 q).next) (l ++ [p]).head? (l ++ [p]) ∧
    ∀ q, ((s.queue.enqueue s.items p).2 q).func = (s.items q).func ∧
      ((s.queue.enqueue s.items p).2 q).arg = (s.items q).arg ∧
      (q ∉ l → (s.queue.enqueue s.items p).2 q = s.items q) := by
  unfold WorkQueue.enqueue
  cases htail : s.queue.tail with
  | none =>
    have hnil : l = [] := getLast?_eq_none_iff.mp (h.tail.symm.trans htail)
    subst hnil
    exact ⟨rfl, rfl, rfl, rfl, ⟨rfl, hnext⟩, fun q => ⟨rfl, rfl, fun _ => rfl⟩⟩
  | some last =>
    have hlast : l.getLast? = some last := h.tail.symm.trans htail
    have hmem : last ∈ l := mem_of_getLast? hlast
    have hchain := h.chain.append hp hlast
    have hhead : s.queue.head = (l ++ [p]).head? := hchain.head_eq
    refine ⟨hhead, rfl, rfl, rfl, ?_, fun q => ?_⟩
    · rw [← hhead]
      refine hchain.congr fun q hq => ?_
      dsimp only
      by_cases hql : q = last
      · simp [hql]
      · rw [update_of_ne hql, update_of_ne hql]
        by_cases hqp : q = p
        · rw [hqp, update_self, hnext]
        · rw [update_of_ne hqp]
    · by_cases hql : q = last
      · subst hql
        simp [hmem]
      · simp [update_of_ne hql]

end

omit [DecidableEq T] in
/-- 先頭の仕事の番号は、これまでに外した仕事の数である。 -/
theorem serial_head (h : Consistent start size s (p :: rest)) : s.serial p = s.dequeued.length := by
  have horder := h.order
  have hget := congrArg (fun l : List Nat => l[s.dequeued.length]?) horder
  have hlen := h.length_submitted
  rw [length_cons] at hlen
  simpa [getElem?_range (show s.dequeued.length < s.submitted.length by omega)] using hget

theorem popped (h : Consistent start size s (p :: rest)) (ht : t ∈ s.taken)
    {queue : WorkQueue} (hhead : queue.head = (s.items p).next) (htail : queue.tail = rest.getLast?)
    (hcount : queue.count.toNat = rest.length) (halive : queue.shutdown = false) :
    Consistent start size { s with
        taken := s.taken.erase t
        queue := queue
        stage := update s.stage t (.holding p)
        place := update s.place p (.held t)
        dequeued := s.dequeued ++ [s.serial p] } rest := by
  have hidle := h.away t (.inr (.inr ht))
  have hout := h.inside t ht
  have hlisted : s.place p = .listed := (h.listed p).mp mem_cons_self
  have hfree : p ∉ rest := (nodup_cons.mp h.chain.nodup).1
  have hserial := h.serial_head
  have hheld : ∀ u q, update s.place p _ q = .held u ↔ q = p ∧ u = t ∨ s.place q = .held u :=
    fun u q => update_eq_iff_of_injective (fun _ _ => Place.held.inj) (by simp [hlisted])
  have hhold : ∀ u q, update s.stage t _ u = .holding q ↔ u = t ∧ q = p ∨ s.stage u = .holding q :=
    fun u q => update_eq_iff_of_injective (fun _ _ => Stage.holding.inj) (by simp [hidle])
  have hexec : ∀ u q, update s.stage t (.holding p) u = .executing q ↔ s.stage u = .executing q :=
    fun u q => update_eq_iff_of_ne_ne (by simp) (by simp [hidle])
  -- 手にある仕事は、先頭の仕事より先に外されている
  have hold : ∀ u q, s.place q = .held u → s.serial q < s.dequeued.length :=
    fun u q hq => h.mem_dequeued.mp ((h.hands _).mpr (.inr ⟨u, q, hq, rfl⟩))
  refine { h with
    chain := ?_, tail := htail, count := hcount, waits := ?_, order := ?_,
    live := h.live_update (h.live p (by simp [hlisted])) _, listed := ?_, prepared :=
      ?_, held := ?_,
    work := ?_, away := ?_, inside := ?_, hands := ?_, apart := ?_, single := ?_, called := ?_,
    alive := halive } <;> dsimp only
  · rw [hhead]
    exact h.chain.2
  · have hwaits := h.waits
    have hcard := Finset.card_erase_add_one ht
    rw [length_append, length_singleton]
    omega
  · have horder := h.order
    rwa [map_cons, append_cons] at horder
  · intro q
    rw [update_eq_iff_of_ne (by simp), ← h.listed]
    by_cases hqp : q = p
    · simp [hqp, hfree]
    · simp [hqp]
  · intro u q
    rw [update_eq_iff_of_ne_ne (by simp) (by simp [hlisted]), h.prepared]
  · intro u q
    rw [hheld, hhold, hexec, ← h.held, or_assoc, and_comm]
  · intro q u hq
    by_cases hqp : q = p
    · exact h.work q u (.inl (hqp ▸ hlisted))
    · rw [update_of_ne hqp] at hq
      exact h.work q u hq
  · intro u hu
    have hut : u ≠ t := by
      rintro rfl
      rcases hu with hu | hu | hu
      · exact hout.1 hu
      · exact hout.2 hu
      · exact Finset.notMem_erase _ _ hu
    rw [update_of_ne hut]
    exact h.away u (hu.imp_right (.imp_right Finset.mem_of_mem_erase))
  · exact fun u hu => h.inside u (Finset.mem_of_mem_erase hu)
  · exact mem_iff_take h.hands fun u q => by rw [hheld, and_comm]
  · intro u q hq
    rcases (hheld u q).mp hq with ⟨rfl, -⟩ | hq
    · intro hfin
      have := h.mem_dequeued.mp ((h.hands _).mpr (.inl hfin))
      omega
    · exact h.apart u q hq
  · intro u v q r hq hr he
    rcases (hheld u q).mp hq with ⟨hqp, -⟩ | hq <;> rcases (hheld v r).mp hr with ⟨hrp, -⟩ | hr
    · rw [hqp, hrp]
    · have hlt := hold v r hr
      rw [hqp] at he
      omega
    · have hlt := hold u q hq
      rw [hrp] at he
      omega
    · exact h.single u v q r hq hr he
  · intro k
    simp only [hexec, h.called]

section

variable (h : Consistent start size s l)
include h

/-- `sem_wait` の一周。取れたら `taken` に入り、取れなければ待つ。 -/
theorem waited (hidle : s.stage t = .idle) (htaken : t ∉ s.taken) (ht : t ∉ s.sem.sem.waiters)
    {woken : Finset T} (hsub : woken ⊆ s.sem.woken) (hcard : s.sem.woken.card ≤ woken.card + 1)
    (htw : t ∉ woken) : Consistent start size (s.waited t woken) l := by
  have hsem := h.sem.wait ht hsub hcard htw
  unfold Pool.waited
  unfold Sync.semWait at hsem ⊢
  split at hsem
  · rename_i hzero
    rw [if_pos hzero]
    refine { h with sem := hsem, away := fun u hu => ?_, inside := fun u hu => ?_ }
    · rcases hu with hu | hu | hu
      · rcases mem_append.mp hu with hu | hu
        · exact h.away u (.inl hu)
        · exact mem_singleton.mp hu ▸ hidle
      · exact h.away u (.inr (.inl (hsub hu)))
      · exact h.away u (.inr (.inr hu))
    · obtain ⟨hwait, hwoken⟩ := h.inside u hu
      refine ⟨fun hmem => ?_, fun hmem => hwoken (hsub hmem)⟩
      rcases mem_append.mp hmem with hmem | hmem
      · exact hwait hmem
      · exact htaken (mem_singleton.mp hmem ▸ hu)
  · rename_i hpos
    rw [if_neg hpos]
    refine { h with sem := hsem, waits := ?_, away := fun u hu => ?_, inside := fun u hu => ?_ }
    · have hwaits := h.waits
      simp only [Sync.SemSystem.took, if_true, Finset.card_insert_of_notMem htaken]
      omega
    · rcases hu with hu | hu | hu
      · exact h.away u (.inl hu)
      · exact h.away u (.inr (.inl (hsub hu)))
      · rcases Finset.mem_insert.mp hu with rfl | hu
        · exact hidle
        · exact h.away u (.inr (.inr hu))
    · rcases Finset.mem_insert.mp hu with rfl | hu
      · exact ⟨ht, htw⟩
      · obtain ⟨hwait, hwoken⟩ := h.inside u hu
        exact ⟨hwait, fun hmem => hwoken (hsub hmem)⟩

/-- 取った worker は、必ず先頭の仕事を外す。 -/
theorem dequeueBy (ht : t ∈ s.taken) : ∃ rest, Consistent start size (s.dequeueBy t) rest := by
  cases l with
  | nil => exact absurd rfl (h.ne_nil ht)
  | cons p rest =>
    have hcount := h.count
    rw [length_cons] at hcount
    have hnext : (s.items p).next = rest.head? := Chain.next_eq (a := []) h.chain
    refine ⟨rest, ?_⟩
    simp only [Pool.dequeueBy, h.alive, Bool.false_eq_true, if_false, WorkQueue.dequeue, h.chain.1]
    refine h.popped ht rfl ?_ ?_ rfl
    · have htail := h.tail
      simp only [hnext]
      cases rest with
      | nil => rfl
      | cons q rest => simpa using htail
    · simp only [Words.toNat_pred (show 0 < s.queue.count.toNat by omega)]
      omega

theorem call (ht : s.stage t = .holding p) : Consistent start size
      { s with
        stage := update s.stage t (.executing p)
        calls := if (s.items p).func = 0 then s.calls
          else s.calls ++ [(s.serial p, (s.items p).func, (s.items p).arg)] } l := by
  have hplace : s.place p = .held t := (h.held t p).mp (.inl ht)
  obtain ⟨hfunc, hwork⟩ := h.work p t (.inr hplace)
  have hexec : ∀ u q, update s.stage t _ u = .executing q ↔
      u = t ∧ q = p ∨ s.stage u = .executing q :=
    fun u q => update_eq_iff_of_injective (fun _ _ => Stage.executing.inj) (by simp [ht])
  have hfresh : s.serial p ∉ s.calls.map Prod.fst := by
    rw [h.called]
    rintro (hfin | ⟨u, q, hq, hk⟩)
    · exact h.apart t p hplace hfin
    · have hqu := (h.held u q).mp (.inr hq)
      obtain rfl := h.single u t q p hqu hplace hk
      obtain rfl := Place.held.inj (hqu.symm.trans hplace)
      rw [ht] at hq
      cases hq
  rw [if_neg hfunc]
  refine { h with held := ?_, away := ?_, once := ?_, called := ?_, same := ?_ } <;> dsimp only
  · intro u q
    by_cases hut : u = t
    · subst hut
      rw [← h.held, ht]
      simp
    · rw [update_of_ne hut, h.held]
  · intro u hu
    have hidle := h.away u hu
    rwa [update_of_ne]
    rintro rfl
    rw [ht] at hidle
    cases hidle
  · rw [map_append]
    exact h.once.append (nodup_singleton _) (disjoint_singleton.mpr hfresh)
  · rw [map_append]
    exact mem_iff_take h.called hexec
  · intro c hc
    rcases mem_append.mp hc with hc | hc
    · exact h.same c hc
    · rw [mem_singleton.mp hc]
      exact hwork

theorem free (ht : s.stage t = .executing p) {heap : KHeap.Heap}
    (hfree : KHeap.kfree s.heap.heap p = some heap) : Consistent start size { s with
        heap := ⟨heap, s.heap.live.erase p⟩
        stage := update s.stage t .idle
        place := update s.place p .outside
        finished := s.finished ++ [s.serial p] } l := by
  have hplace : s.place p = .held t := (h.held t p).mp (.inr ht)
  have hlive : p ∈ s.heap.live := h.live p (by rw [hplace]; simp)
  have hheld : ∀ u q, update s.place p .outside q = .held u ↔ q ≠ p ∧ s.place q = .held u :=
    fun u q => update_eq_iff_of_ne (by simp)
  -- 実行中の仕事のうち、消えるのは `p` だけである
  have hexec : ∀ u q, s.stage u = .executing q ↔
      u = t ∧ q = p ∨ update s.stage t .idle u = .executing q := by
    intro u q
    by_cases hut : u = t
    · subst hut
      simp [ht, eq_comm]
    · simp [hut]
  refine { h with
    heap := ?_, live := ?_, listed := ?_, prepared := ?_, held := ?_, work := ?_, away := ?_,
    hands := ?_, apart := ?_, single := ?_, called := ?_ } <;> dsimp only
  · obtain ⟨bs, hinv⟩ := h.heap
    obtain ⟨heap', bs', hfree', hinv'⟩ := hinv.exists_kfree hlive
    rw [hfree] at hfree'
    obtain rfl := Option.some.inj hfree'
    exact ⟨bs', hinv'⟩
  · intro q hq
    obtain ⟨hqp, he⟩ := (update_eq_iff_of_ne hq.symm).mp rfl
    exact (mem_erase_of_ne hqp).mpr (h.live q (he ▸ hq))
  · intro q
    rw [update_eq_iff_of_ne_ne (by simp) (by simp [hplace]), h.listed]
  · intro u q
    rw [update_eq_iff_of_ne_ne (by simp) (by simp [hplace]), h.prepared]
  · intro u q
    rw [hheld, ← h.held]
    by_cases hut : u = t
    · subst hut
      simp [ht, eq_comm]
    · rw [update_of_ne hut]
      refine ⟨fun hq => ⟨?_, hq⟩, And.right⟩
      rintro rfl
      exact hut (Place.held.inj (((h.held u q).mp hq).symm.trans hplace))
  · intro q u hq
    rw [update_eq_iff_of_ne (by simp), hheld] at hq
    exact h.work q u (hq.imp And.right And.right)
  · intro u hu
    by_cases hut : u = t
    · rw [hut, update_self]
    · rw [update_of_ne hut]
      exact h.away u hu
  · refine mem_iff_finish (u := t) h.hands fun u q => ?_
    by_cases hqp : q = p
    · simp [hqp, hplace, eq_comm]
    · simp [hqp]
  · intro u q hq
    obtain ⟨hqp, hq⟩ := (hheld u q).mp hq
    rw [mem_append, mem_singleton]
    rintro (hfin | hk)
    · exact h.apart u q hq hfin
    · exact hqp (h.single u t q p hq hplace hk)
  · intro u v q r hq hr
    exact h.single u v q r ((hheld u q).mp hq).2 ((hheld v r).mp hr).2
  · exact mem_iff_finish h.called hexec

theorem filled (hnone : s.prepared t = none) (ht : t ∉ s.owing) (hfunc : func ≠ 0)
    {heap : KHeap.Heap} (hinv : KHeap.Inv start size ⟨heap, p :: s.heap.live⟩ bs) :
      Consistent start size
      { s with
        heap := ⟨heap, p :: s.heap.live⟩
        items := update s.items p ⟨func, arg, none⟩
        prepared := update s.prepared t (some p)
        place := update s.place p (.prepared t) } l := by
  have hnew : p ∉ s.heap.live := (nodup_cons.mp hinv.live_nodup).1
  have hout : s.place p = .outside := by
    by_contra hne
    exact hnew (h.live p hne)
  have hlisted : ∀ q, update s.place p (.prepared t) q = .listed ↔ s.place q = .listed :=
    fun q => update_eq_iff_of_ne_ne (by simp) (by simp [hout])
  have hheld : ∀ q u, update s.place p (.prepared t) q = .held u ↔ s.place q = .held u :=
    fun q u => update_eq_iff_of_ne_ne (by simp) (by simp [hout])
  have hitem : ∀ q, s.place q ≠ .outside → update s.items p ⟨func, arg, none⟩ q = s.items q :=
    fun q hq => update_of_ne (fun he : q = p => hq (he ▸ hout)) _ _
  obtain ⟨hhands, hapart, hsingle⟩ := h.hands_congr hheld fun _ _ _ => rfl
  refine { h with
    heap := ⟨bs, hinv⟩, chain := ?_, live := ?_, listed := ?_, prepared := ?_, held :=
      ?_, blank := ?_,
    work := ?_, unpaid := ?_, hands := hhands, apart := hapart, single := hsingle } <;> dsimp only
  · refine h.chain.congr fun q hq => ?_
    rw [hitem q (by rw [(h.listed q).mp hq]; simp)]
  · intro q hq
    by_cases hqp : q = p
    · exact hqp ▸ mem_cons_self
    · rw [update_of_ne hqp] at hq
      exact mem_cons_of_mem _ (h.live q hq)
  · intro q
    rw [hlisted, h.listed]
  · intro u q
    rw [update_eq_iff_of_injective (Option.some_injective _) (by simp [hnone]),
      update_eq_iff_of_injective (fun _ _ => Place.prepared.inj) (by simp [hout]),
        h.prepared, and_comm]
  · intro u q
    rw [hheld, h.held]
  · intro u q hq
    by_cases hut : u = t
    · rw [hut, update_self] at hq
      rw [← Option.some.inj hq, update_self]
      exact ⟨hfunc, rfl⟩
    · rw [update_of_ne hut] at hq
      rw [hitem q (by rw [(h.prepared u q).mp hq]; simp)]
      exact h.blank u q hq
  · intro q u hq
    rw [hlisted, hheld] at hq
    rw [hitem q (by rcases hq with hq | hq <;> simp [hq])]
    exact h.work q u hq
  · intro u hu
    by_cases hut : u = t
    · exact hut ▸ ht
    · rw [update_of_ne hut] at hu
      exact h.unpaid u hu

theorem submit (hnone : s.prepared t = none) (ht : t ∉ s.owing)
    (hsubmit : workerPoolSubmit s t func arg = some s') : Consistent start size s' l := by
  unfold workerPoolSubmit at hsubmit
  split at hsubmit
  · exact Option.some.inj hsubmit ▸ h
  rename_i hfunc
  split at hsubmit
  · exact Option.some.inj hsubmit ▸ h
  obtain ⟨bs, hinv⟩ := h.heap
  rcases hinv.kmalloc workItemSize with ⟨-, he⟩ | ⟨q, heap, bs', -, -, he, hq, hinv', -⟩
  · simp only [he, Option.map_some, if_true] at hsubmit
    exact Option.some.inj hsubmit ▸ h
  · simp only [he, Option.map_some, if_neg hq] at hsubmit
    exact Option.some.inj hsubmit ▸ h.filled hnone ht hfunc hinv'

section

variable (hsize : size < KHeap.headerSize * (2 ^ 31 - 1))
include hsize

theorem enqueueBy (ht : s.prepared t = some p) :
    Consistent start size (s.enqueueBy t p) (l ++ [p]) := by
  have hplace : s.place p = .prepared t := (h.prepared t p).mp ht
  have hlist : p ∉ l := by
    rw [h.listed, hplace]
    simp
  obtain ⟨hfunc, hnext⟩ := h.blank t p ht
  obtain ⟨hhead, htail, hcount, hshutdown, hchain, hitems⟩ := h.enqueue_spec hlist hnext
  have howing := h.unpaid t (by simp [ht])
  have hheld : ∀ q u, update s.place p .listed q = .held u ↔ s.place q = .held u :=
    fun q u => update_eq_iff_of_ne_ne (by simp) (by simp [hplace])
  have hserial : ∀ q, s.place q ≠ .prepared t →
      update s.serial p s.submitted.length q = s.serial q :=
    fun q hq => update_of_ne (fun he : q = p => hq (he ▸ hplace)) _ _
  have hkept : ∀ q u, s.place q = .held u → update s.serial p _ q = s.serial q :=
    fun q u hq => hserial q (by rw [hq]; simp)
  have hold : ∀ {k : Nat} {w : Nat × Nat}, s.submitted[k]? = some w →
      (s.submitted ++ [((s.items p).func, (s.items p).arg)])[k]? = some w := by
    intro k w hk
    rw [List.getElem?_append_left (List.getElem?_eq_some_iff.mp hk).1]
    exact hk
  obtain ⟨hhands, hapart, hsingle⟩ := h.hands_congr hheld hkept
  unfold Pool.enqueueBy
  refine { h with
    chain := ?_, tail := ?_, count := ?_, posts := ?_, order := ?_,
    live := h.live_update (h.live p (by rw [hplace]; simp)) _, listed := ?_,
    prepared := ?_, held := ?_, blank := ?_, work := ?_, unpaid := ?_, hands :=
      hhands, apart := hapart,
    single := hsingle, called := ?_, same := fun c hc => hold (h.same c hc), alive :=
      ?_ } <;> dsimp only
  · rw [hhead]
    exact hchain
  · rw [htail, List.getLast?_concat]
  · have hbound := h.length_lt hsize
    rw [hcount, Words.toNat_succ (by rw [h.count]; omega), h.count, List.length_append,
      List.length_singleton]
  · have hposts := h.posts
    rw [Finset.card_insert_of_notMem howing, List.length_append, List.length_singleton]
    omega
  · have hmap : l.map _ = l.map _ :=
      List.map_congr_left fun q hq => hserial q (by rw [(h.listed q).mp hq]; simp)
    rw [List.map_append, hmap, List.map_singleton, update_self, ← List.append_assoc, h.order,
      List.length_append, List.length_singleton, List.range_succ]
  · intro q
    rw [List.mem_append, h.listed]
    by_cases hqp : q = p
    · simp [hqp]
    · simp [hqp]
  · intro u q
    rw [update_eq_iff_of_ne (by simp), update_eq_iff_of_ne (by simp), ← h.prepared]
    refine and_congr_left fun hq => not_congr ⟨?_, ?_⟩
    · rintro rfl
      exact Option.some.inj (hq.symm.trans ht)
    · rintro rfl
      exact Place.prepared.inj (((h.prepared u q).mp hq).symm.trans hplace)
  · intro u q
    rw [hheld, h.held]
  · intro u q hq
    have hut : u ≠ t := by
      rintro rfl
      rw [update_self] at hq
      cases hq
    rw [update_of_ne hut] at hq
    have hql : q ∉ l := by
      rw [h.listed, (h.prepared u q).mp hq]
      simp
    rw [(hitems q).2.2 hql]
    exact h.blank u q hq
  · intro q u hq
    rw [(hitems q).1, (hitems q).2.1]
    by_cases hqp : q = p
    · subst hqp
      rw [update_self, List.getElem?_concat_length]
      exact ⟨hfunc, rfl⟩
    · rw [update_of_ne hqp] at hq ⊢
      obtain ⟨hq1, hq2⟩ := h.work q u hq
      exact ⟨hq1, hold hq2⟩
  · intro u hu
    have hut : u ≠ t := by
      rintro rfl
      exact hu (update_self ..)
    rw [update_of_ne hut] at hu
    rw [Finset.mem_insert]
    rintro (he | hmem)
    · exact hut he
    · exact h.unpaid u hu hmem
  · intro k
    rw [h.called]
    refine or_congr_right (exists_congr fun u => exists_congr fun q => and_congr_right fun hq => ?_)
    rw [hkept q u ((h.held u q).mp (.inr hq))]
  · rw [hshutdown]
    exact h.alive

theorem posted (ht : t ∈ s.owing) : Consistent start size (s.posted t) l := by
  have hbound := h.length_lt hsize
  have hbalance := h.balance
  have hmax : ¬(0 < s.sem.sem.maxCount ∧ s.sem.sem.maxCount ≤ s.sem.sem.count.toUInt32) := by
    rw [h.sem.limit]
    exact fun hpos => absurd hpos.1 (by decide)
  have hsem := h.sem.post (by omega) hmax
  have hcard := Finset.card_erase_add_one ht
  have hposts := h.posts
  have hmem : ∀ u, u ∈ s.sem.sem.waiters.head?.elim s.sem.woken (insert · s.sem.woken) →
      u ∈ s.sem.sem.waiters ∨ u ∈ s.sem.woken := by
    intro u hu
    cases hw : s.sem.sem.waiters with
    | nil =>
      rw [hw] at hu
      exact .inr hu
    | cons w ws =>
      rw [hw] at hu
      rcases Finset.mem_insert.mp hu with rfl | hu
      · exact .inl mem_cons_self
      · exact .inr hu
  unfold Pool.posted Sync.semPost
  rw [if_neg hmax]
  refine { h with
    sem := hsem, posts := ?_, away := fun u hu => ?_, inside := fun u hu => ?_, unpaid := ?_ }
  · simp only [if_true]
    omega
  · rcases hu with hu | hu | hu
    · exact h.away u (.inl (mem_of_mem_tail hu))
    · exact h.away u ((hmem u hu).imp_right .inl)
    · exact h.away u (.inr (.inr hu))
  · obtain ⟨hwait, hwoken⟩ := h.inside u hu
    exact ⟨fun hu => hwait (mem_of_mem_tail hu), fun hu => (hmem u hu).elim hwait hwoken⟩
  · exact fun u hu hmem => h.unpaid u hu (Finset.mem_of_mem_erase hmem)

theorem step {worker : T → Bool} {op : PoolOp T} (hop : Before s op)
    (hstep : poolStep worker s op = some s') : ∃ l', Consistent start size s' l' := by
  cases op with
  | wait t =>
    obtain ⟨⟨-, hidle, htaken, hout⟩, hstep⟩ := Option.ite_none_right_eq_some.mp hstep
    rw [h.alive] at hstep
    obtain rfl := Option.some.inj hstep
    exact ⟨l, h.waited hidle htaken hout.1 (Finset.Subset.refl _) (Nat.le_succ _) hout.2⟩
  | retest t =>
    obtain ⟨hw, hstep⟩ := Option.ite_none_right_eq_some.mp hstep
    obtain rfl := Option.some.inj hstep
    refine ⟨l, h.waited (h.away t (.inr (.inl hw))) (fun ht => (h.inside t ht).2 hw)
      (fun ht => h.sem.disjoint t ht hw) (Finset.erase_subset _ _) ?_ (Finset.notMem_erase _ _)⟩
    rw [Finset.card_erase_add_one hw]
  | dequeue t =>
    obtain ⟨ht, hstep⟩ := Option.ite_none_right_eq_some.mp hstep
    obtain rfl := Option.some.inj hstep
    exact h.dequeueBy ht
  | call t =>
    simp only [poolStep] at hstep
    split at hstep
    · obtain rfl := Option.some.inj hstep
      exact ⟨l, h.call ‹_›⟩
    · cases hstep
  | free t =>
    simp only [poolStep] at hstep
    split at hstep
    · obtain ⟨-, hstep⟩ := Option.ite_none_right_eq_some.mp hstep
      obtain ⟨heap, hfree, rfl⟩ := Option.map_eq_some_iff.mp hstep
      exact ⟨l, h.free ‹_› hfree⟩
    · cases hstep
  | submit t func arg =>
    obtain ⟨⟨-, hnone, ht⟩, hstep⟩ := Option.ite_none_right_eq_some.mp hstep
    exact ⟨l, h.submit hnone ht hstep⟩
  | enqueue t =>
    obtain ⟨item, hitem, rfl⟩ := Option.map_eq_some_iff.mp hstep
    exact ⟨_, h.enqueueBy hsize hitem⟩
  | post t =>
    obtain ⟨ht, hstep⟩ := Option.ite_none_right_eq_some.mp hstep
    obtain rfl := Option.some.inj hstep
    exact ⟨l, h.posted hsize ht⟩
  | shutdown => exact hop.elim
  | heap op =>
    obtain ⟨heap, hheap, rfl⟩ := Option.map_eq_some_iff.mp hstep
    exact ⟨l, h.foreign hop.1 hop.2 hheap⟩

end

end

omit [DecidableEq T] in
theorem init {heap : KHeap.St} (hinv : KHeap.Inv start size heap bs)
    {items : Nat → WorkItem} : Consistent start size (Pool.init heap items : Pool T) [] where
  heap := ⟨bs, hinv⟩
  sem := ⟨nodup_nil, by simp [Pool.init, Sync.SemSystem.init, Sync.semaphoreInit], rfl,
    Int.le_refl 0,
    rfl, fun hne => absurd rfl hne, fun hne => absurd rfl hne⟩
  chain := rfl
  tail := rfl
  count := rfl
  posts := rfl
  waits := rfl
  order := rfl
  live := by simp [Pool.init]
  listed := by simp [Pool.init]
  prepared := by simp [Pool.init]
  held := by simp [Pool.init]
  blank := by simp [Pool.init]
  work := by simp [Pool.init]
  away := fun _ _ => rfl
  inside := by simp [Pool.init]
  unpaid := by simp [Pool.init]
  hands := by simp [Pool.init]
  apart := by simp [Pool.init]
  single := by simp [Pool.init]
  once := nodup_nil
  called := by simp [Pool.init]
  same := by simp [Pool.init]
  alive := rfl
  found := rfl

end Consistent

/--
**shutdown の前に届くどの状態でも、列と数えと実行の記録は合う。**

kernel の 1 MiB の heap の上で、worker と仕事を出す thread がどう交錯しても、列には `queue.count` 個の仕事があり、その
数は、semaphore の数と、`sem_wait` と取り出しの間の worker と、つないでから `sem_post` までの thread の数の和である。
`sem_wait` の後に空の列を見る worker はいない。仕事はつないだ順に外され、一つの仕事は高々一度だけ呼ばれ、済んだか、
worker の手にあるか、列にある。
-/
theorem pool_consistent (worker : T → Bool) {h : KHeap.Heap} (hstart : start ≠ 0)
    (hfit : start + 256 * 4096 < 2 ^ 64) {before : List KHeap.Op} {heap : KHeap.St}
    (hheap : Run.Reach KHeap.step KHeap.Legal (KHeap.boot h start (256 * 4096)) before heap)
    {items : Nat → WorkItem} {ops : List (PoolOp T)}
    (hreach : Run.Reach (poolStep worker) Before (Pool.init heap items) ops s) :
    ∃ l, Chain (fun p => (s.items p).next) s.queue.head l ∧
    s.queue.count.toNat = l.length ∧
    (s.queue.count.toNat : Int) = s.sem.sem.count.toInt + s.taken.card + s.owing.card ∧
    s.missed = false ∧
    s.dequeued ++ l.map s.serial = List.range s.submitted.length ∧
    (s.calls.map Prod.fst).Nodup ∧
    (∀ c ∈ s.calls, s.submitted[c.1]? = some c.2) ∧
    ∀ k < s.submitted.length, (k ∈ s.finished ∧ k ∈ s.calls.map Prod.fst) ∨
      (∃ t p, (s.stage t = .holding p ∨ s.stage t = .executing p) ∧ s.serial p = k) ∨
      k ∈ l.map s.serial := by
  obtain ⟨bs, hinv⟩ := KHeap.reach_inv hstart (by decide) hfit
    (hheap.mono fun _ _ => KHeap.Legal.allowed)
  obtain ⟨l, hl⟩ := hreach.invariant (P := fun s => ∃ l, Consistent _ _ s l) ⟨[], .init hinv⟩ (by
      rintro s op s' ⟨l, hl⟩ hop hstep
      exact hl.step (by decide) hop hstep)
  refine ⟨l, hl.chain, hl.count, hl.count ▸ hl.balance, hl.found, hl.order, hl.once, hl.same, ?_⟩
  intro k hk
  have hmem : k ∈ s.dequeued ++ l.map _ := hl.order ▸ mem_range.mpr hk
  rcases mem_append.mp hmem with hmem | hmem
  · rcases (hl.hands k).mp hmem with hfin | ⟨t, p, hp, hkp⟩
    · exact .inl ⟨hfin, (hl.called k).mpr (.inl hfin)⟩
    · exact .inr (.inl ⟨t, p, (hl.held t p).mpr hp, hkp⟩)
  · exact .inr (.inr hmem)

/-- 待っている worker 0 が、thread 1 の出した仕事を受け取って呼ぶ。 -/
theorem pool_consistent_run : ∃ s : Pool Nat,
    Run.Reach (poolStep (· == 0)) Before
      (Pool.init (KHeap.boot ⟨fun _ => 0, 0, 0⟩ 0x200000 (256 * 4096)) fun _ => ⟨0, 0, none⟩)
      [.wait 0, .submit 1 7 9, .enqueue 1, .post 1, .retest 0, .dequeue 0, .call 0] s ∧
    s.calls = [(0, 7, 9)] ∧ s.missed = false := by
  refine Run.exists_reach_of (P := fun s => s.calls = [(0, 7, 9)]) (by decide +kernel)
    fun s hreach hcalls => ?_
  obtain ⟨l, -, -, -, hfound, -⟩ := pool_consistent _ (by decide) (by decide) .nil hreach
  exact ⟨hcalls, hfound⟩

end Step

end Alos.Work
