import Alos.KHeap.Refine
import Alos.Lib.Run
import Mathlib.Data.List.Nodup

/-!
# heap はつねに領域を敷き詰める

`kheapInit` から始めて、`kmalloc`・`kfree`・`krealloc` と、割り当てた領域への書き込みを
どう並べても、メモリの中のリストは領域をちょうど敷き詰め、生きている割り当ては
使用中の block に一つずつ対応する（`reach_tiled`）。

不変量は `Inv` である。敷き詰めた列 `bs` があり、生きているポインタの列は
`used` の data の番地の並べ替えである、とだけ言う。
個々の操作が `used` に何をするかは `Alos/Lib/BlockList.lean` にあるので、
一手ごとの証明は列の並べ替えの計算になる。
-/

namespace Alos.KHeap

open Bytes BlockList List

variable {p n a : Nat} {h' h : Heap} {pre post : List Blk} {b : Blk} {live : List Nat}

/-! ## 実行 -/

/-- heap と、割り当てられてまだ解放されていないポインタ。 -/
structure St where
  heap : Heap
  live : List Nat

/-- 利用者の一手。`write` は割り当てられた領域の中への 1 byte の書き込みである。 -/
inductive Op where
  | kmalloc (size : Nat)
  | kfree (ptr : Nat)
  | krealloc (ptr size : Nat)
  | write (ptr off : Nat) (v : UInt8)

def step (s : St) : Op → Option St
  | .kmalloc n => (kmalloc s.heap n).map fun r =>
      ⟨r.2, if r.1 = 0 then s.live else r.1 :: s.live⟩
  | .kfree p => (kfree s.heap p).map fun h => ⟨h, s.live.erase p⟩
  | .krealloc p n => (krealloc s.heap p n).map fun r =>
      ⟨r.2, if n = 0 then s.live.erase p
        else if r.1 = 0 then s.live else r.1 :: s.live.erase p⟩
  | .write p off v => some ⟨{ s.heap with mem := store s.heap.mem (p + off) 1 v.toNat }, s.live⟩

variable {ops : List Op}

/-- 要求の大きさは問わない。ポインタは生きているもの、書き込みは block の中に限る。 -/
def Allowed (s : St) : Op → Prop
  | .kmalloc _ => True
  | .kfree p => p ∈ s.live
  | .krealloc p _ => p ∈ s.live
  | .write p off _ => p ∈ s.live ∧ off < (readBlock s.heap.mem (p - headerSize)).size

instance (s : St) : (op : Op) → Decidable (Allowed s op)
  | .kmalloc _ => inferInstanceAs (Decidable True)
  | .kfree p | .krealloc p _ => inferInstanceAs (Decidable (p ∈ s.live))
  | .write .. => inferInstanceAs (Decidable (_ ∧ _))

/-- 大きさは `2 ^ 64 - 8` 以下、ポインタは生きているもの、書き込みは block の中。 -/
def Legal (s : St) : Op → Prop
  | .kmalloc n => n ≤ 2 ^ 64 - 8
  | .kfree p => p ∈ s.live
  | .krealloc p n => p ∈ s.live ∧ n ≤ 2 ^ 64 - 8
  | .write p off _ => p ∈ s.live ∧ off < (readBlock s.heap.mem (p - headerSize)).size

instance (s : St) : (op : Op) → Decidable (Legal s op)
  | .kmalloc n => inferInstanceAs (Decidable (n ≤ 2 ^ 64 - 8))
  | .kfree p => inferInstanceAs (Decidable (p ∈ s.live))
  | .krealloc .. | .write .. => inferInstanceAs (Decidable (_ ∧ _))

theorem Legal.allowed {s : St} {op : Op} (h : Legal s op) : Allowed s op := by
  cases op with
  | kmalloc => trivial
  | krealloc => exact h.1
  | kfree | write => exact h

/-- 起動時の状態。 -/
def boot (h : Heap) (start size : Nat) : St := ⟨kheapInit h start size, []⟩

/-! ## 不変量 -/

/-- 使用中の block の data の番地。 -/
def ptrs (h : Heap) (bs : List Blk) : List Nat :=
  (used headerSize h.heapStart bs).map fun x => x.1 + headerSize

structure Inv (start size : Nat) (s : St) (bs : List Blk) : Prop where
  ok : HeapOk s.heap bs
  start_eq : s.heap.heapStart = start
  size_eq : s.heap.heapTotalSize = size
  live_perm : s.live.Perm (ptrs s.heap bs)
  min_size : ∀ b ∈ bs, kheapMinBlockSize ≤ b.size

variable {start size : Nat} {s : St} {bs : List Blk}

theorem ptrs_nodup : (ptrs h bs).Nodup := by
  unfold ptrs
  rw [nodup_iff_pairwise_ne, pairwise_map]
  refine (used_pairwise _ bs).imp ?_
  intro x y hxy heq
  have hh : headerSize = 24 := rfl
  omega

theorem Inv.live_nodup (inv : Inv start size s bs) : s.live.Nodup :=
  inv.live_perm.nodup_iff.mpr ptrs_nodup

/-- 生きているポインタの数は、領域の大きさで抑えられる。 -/
theorem Inv.length_live (inv : Inv start size s bs) : headerSize * s.live.length ≤ size := by
  rw [inv.live_perm.length_eq, ← inv.size_eq, ← inv.ok.total_eq, ptrs, length_map]
  exact length_used_le _ _

/-- 生きているポインタは、使用中の block のところで列を割る。 -/
theorem Inv.split_live (inv : Inv start size s bs) (hp : p ∈ s.live) :
    ∃ pre post k, bs = pre ++ ⟨k, false⟩ :: post ∧
      p = s.heap.heapStart + total headerSize pre + headerSize := by
  have hm := inv.live_perm.mem_iff.mp hp
  simp only [ptrs, mem_map] at hm
  obtain ⟨⟨x, k⟩, hx, rfl⟩ := hm
  obtain ⟨pre, post, rfl, rfl⟩ := mem_used_split hx
  exact ⟨pre, post, k, rfl, rfl⟩

theorem SameRegion.inv {bs' : List Blk}
    (hr : SameRegion s.heap h') (inv : Inv start size s bs) (ok : HeapOk h' bs')
    (hp : live.Perm (ptrs h' bs')) (hmin : ∀ b ∈ bs', kheapMinBlockSize ≤ b.size) :
    Inv start size ⟨h', live⟩ bs' where
  ok := ok
  start_eq := hr.1.trans inv.start_eq
  size_eq := hr.2.trans inv.size_eq
  live_perm := hp
  min_size := hmin

/-! ## 一手 -/

theorem le_requestSize_min (n : Nat) : kheapMinBlockSize ≤ requestSize n := by
  unfold requestSize
  split <;> omega

/-- `kmalloc` の後の使用中の block は、新しい一つを足したものである。 -/
theorem ptrs_alloc (hf : b.free = true) (hle : n ≤ b.size) (hs : h'.heapStart = h.heapStart) :
    (ptrs h' (pre ++ (carve headerSize kheapMinBlockSize n b ++ post))).Perm
      ((h.heapStart + total headerSize pre + headerSize) :: ptrs h (pre ++ b :: post)) := by
  obtain ⟨k, hk, -⟩ := used_carve _ _ _ n
  have hb : used headerSize (h.heapStart + total headerSize pre) (b :: post)
      = used headerSize (h.heapStart + total headerSize pre + (headerSize + b.size)) post := by
    simp [used_cons, hf]
  unfold ptrs
  rw [hs, used_append, used_append, used_append, hk, total_carve hle, hb]
  simp only [map_append, map_cons, singleton_append]
  exact perm_middle

/-- 新しい block は使用中の列に入り、要求を満たす大きさを持つ。 -/
theorem mem_used_alloc (h' : Heap) (pre post : List Blk) (hle : n ≤ b.size) :
    ∃ k, (h'.heapStart + total headerSize pre, k) ∈ used headerSize h'.heapStart
      (pre ++ (carve headerSize kheapMinBlockSize n b ++ post)) ∧ n ≤ k := by
  obtain ⟨k, hk, hb⟩ := used_carve _ _ _ n
  refine ⟨k, ?_, (hb hle).1⟩
  rw [used_append, used_append, hk]
  simp

/-- 割り当ての一手。失敗なら何も変わらず、成功なら `alloc` の結果になる。 -/
theorem Inv.kmalloc (inv : Inv start size s bs) (n : Nat) :
    ((n = 0 ∨ alloc headerSize kheapMinBlockSize (requestSize n) bs = none) ∧
      kmalloc s.heap n = some (0, s.heap)) ∨
    (∃ p h' bs' x k, kmalloc s.heap n = some (p, h') ∧ p ≠ 0 ∧
      Inv start size ⟨h', p :: s.live⟩ bs' ∧
      alloc headerSize kheapMinBlockSize (requestSize n) bs = some bs' ∧
      p = x + headerSize ∧ (x, k) ∈ used headerSize h'.heapStart bs' ∧ requestSize n ≤ k) := by
  have hh : headerSize = 24 := rfl
  by_cases hn : n = 0
  · subst hn
    exact Or.inl ⟨Or.inl rfl, kmalloc_zero⟩
  · rcases kmalloc_cases inv.ok hn with
      ⟨hnone, he⟩ | ⟨pre, b, post, h', rfl, hf, hle, ha, he, ok, hr, -⟩
    · exact Or.inl ⟨Or.inr hnone, he⟩
    · obtain ⟨k, hk, hkn⟩ := mem_used_alloc h' pre post hle
      refine Or.inr ⟨_, h', _, _, k, he, by omega, hr.inv inv ok ?_ ?_, ha, by rw [hr.1], hk, hkn⟩
      · exact (inv.live_perm.cons _).trans (ptrs_alloc hf hle hr.1).symm
      · have hmin := inv.min_size
        rw [forall_mem_append, forall_mem_cons] at hmin
        rw [forall_mem_append, forall_mem_append]
        exact ⟨hmin.1, le_of_mem_carve (le_requestSize_min n) hle, hmin.2.2⟩

/-- `kfree` の後の使用中の block は、解放した一つを除いたものである。 -/
theorem ptrs_free (pre post : List Blk) (k : Nat) (hs : h'.heapStart = h.heapStart) :
    (ptrs h (pre ++ ⟨k, false⟩ :: post)).Perm ((h.heapStart + total headerSize pre + headerSize) ::
        ptrs h' (BlockList.sweep headerSize maxIterations
          (pre ++ absorb headerSize ⟨k, true⟩ post))) := by
  unfold ptrs
  rw [hs, used_sweep, used_append, used_append, used_absorb _ rfl]
  simp only [used_cons, Bool.false_eq_true, if_false, if_true, nil_append, map_append,
    map_cons, singleton_append]
  exact perm_middle

/-- 解放の一手。列は `absorb` してから `sweep` したものになる。 -/
theorem Inv.kfree {k : Nat} (inv : Inv start size s (pre ++ ⟨k, false⟩ :: post)) (hp : p ∈ s.live)
    (hpe : p = s.heap.heapStart + total headerSize pre + headerSize) :
    ∃ h', kfree s.heap p = some h' ∧
      Inv start size ⟨h', s.live.erase p⟩ (BlockList.sweep headerSize maxIterations
        (pre ++ absorb headerSize ⟨k, true⟩ post)) ∧
      Kept s.heap.mem h'.mem s.heap.heapStart (pre ++ ⟨k, true⟩ :: post) := by
  obtain ⟨h', he, ok, hr, hkept⟩ := kfree_ok inv.ok
  subst hpe
  refine ⟨h', he, hr.inv inv ok ?_ (le_of_mem_sweep _ ?_), hkept⟩
  · have h1 := (perm_cons_erase hp).symm.trans (inv.live_perm.trans (ptrs_free pre post k hr.1))
    exact h1.cons_inv
  · have hmin := inv.min_size
    rw [forall_mem_append, forall_mem_cons] at hmin
    rw [forall_mem_append]
    exact ⟨hmin.1, le_of_mem_absorb hmin.2.1 hmin.2.2⟩

theorem align8_align8 (n : Nat) : align8 (align8 n) = align8 n := by
  unfold align8
  omega

theorem align8_le_requestSize (n : Nat) : align8 n ≤ requestSize n := by
  unfold requestSize
  split <;> omega

/--
`krealloc` の三通り。`kfree` になるか、何も変わらないか、
新しい block を取って写してから古い block を `kfree` するかである。
-/
theorem Inv.krealloc_cases (inv : Inv start size s bs) (hp : p ∈ s.live) (n : Nat) :
    (n = 0 ∧ krealloc s.heap p n = (KHeap.kfree s.heap p).map fun h => (0, h)) ∨
    (n ≠ 0 ∧ ∃ q, (q = 0 ∧ (readBlock s.heap.mem (p - headerSize)).size < align8 n ∨
        q = p ∧ align8 n ≤ (readBlock s.heap.mem (p - headerSize)).size) ∧
      krealloc s.heap p n = some (q, s.heap)) ∨
    (n ≠ 0 ∧ ∃ q h1 m bs1, q ≠ 0 ∧ (readBlock s.heap.mem (p - headerSize)).size < align8 n ∧
      m = copyBytes h1.mem q p (readBlock s.heap.mem (p - headerSize)).size ∧
      KHeap.kmalloc s.heap (align8 n) = some (q, h1) ∧ HeapOk h1 bs1 ∧
      Inv start size ⟨{ h1 with mem := m }, q :: s.live⟩ bs1 ∧
      alloc headerSize kheapMinBlockSize (requestSize (align8 n)) bs = some bs1 ∧
      krealloc s.heap p n = (KHeap.kfree { h1 with mem := m } p).map fun h => (q, h)) := by
  have hh : headerSize = 24 := rfl
  obtain ⟨pre, post, k, rfl, hpe⟩ := inv.split_live hp
  obtain ⟨hblk, hin, hsz, hfr⟩ := dataBlock_eq inv.ok
  have hsub : p - headerSize = s.heap.heapStart + total headerSize pre := by omega
  have hpne : ¬p = 0 := by omega
  unfold KHeap.krealloc
  by_cases hn : n = 0
  · exact Or.inl ⟨hn, by rw [if_neg hpne, if_pos hn]⟩
  right
  rw [if_neg hpne, if_neg hn, hsub]
  simp only [hpe, hblk, if_neg hin, hfr, hsz, Bool.false_eq_true, if_false]
  by_cases hle : align8 n ≤ k
  · exact Or.inl ⟨hn, _, Or.inr ⟨rfl, hle⟩, by rw [if_pos hle]⟩
  rw [if_neg hle, if_pos (show k < align8 n by omega)]
  rcases inv.kmalloc (align8 n) with ⟨-, he⟩ | ⟨q, h1, bs1, x, j, he, hq, inv1, ha, hx, hu, hj⟩
  · exact Or.inl ⟨hn, 0, Or.inl ⟨rfl, by omega⟩, by simp [he]⟩
  · -- 写す先は新しい block の data に収まる
    have hcap := align8_le_requestSize (align8 n)
    rw [align8_align8] at hcap
    have hok := inv1.ok.write hu ((agreeOff_copyBytes _ q
      (s.heap.heapStart + total headerSize pre + headerSize) k).mono (by omega) (by omega))
    exact Or.inr ⟨hn, q, h1, _, bs1, hq, by omega, rfl, he, inv1.ok, ⟨hok, inv1.start_eq,
      inv1.size_eq, inv1.live_perm, inv1.min_size⟩,
        ha, by simp only [he, Option.bind_some, if_neg hq]⟩

theorem Inv.exists_kfree (inv : Inv start size s bs) (hp : p ∈ s.live) :
    ∃ h' bs', KHeap.kfree s.heap p = some h' ∧ Inv start size ⟨h', s.live.erase p⟩ bs' := by
  obtain ⟨pre, post, k, rfl, hpe⟩ := inv.split_live hp
  obtain ⟨h', he, inv', -⟩ := inv.kfree hp hpe
  exact ⟨h', _, he, inv'⟩

/-- 新しいポインタは、まだ生きている古いポインタとは異なる。 -/
theorem Inv.erase_cons {q : Nat} (inv : Inv start size ⟨h, q :: live⟩ bs) (hp : p ∈ live) :
    (q :: live).erase p = q :: live.erase p := by
  have hne : q ≠ p := by
    rintro rfl
    exact (List.nodup_cons.mp inv.live_nodup).1 hp
  rw [List.erase_cons, if_neg (by simpa using hne)]

theorem Inv.krealloc (inv : Inv start size s bs) (hp : p ∈ s.live) (n : Nat) :
    ∃ q h' bs', krealloc s.heap p n = some (q, h') ∧
      Inv start size ⟨h', if n = 0 then s.live.erase p
        else if q = 0 then s.live else q :: s.live.erase p⟩ bs' := by
  have hp0 : ¬p = 0 := by
    obtain ⟨pre, post, k, -, rfl⟩ := inv.split_live hp
    have hh : headerSize = 24 := rfl
    omega
  rcases inv.krealloc_cases hp n with
    ⟨hn, he⟩ | ⟨hn, q, hq, he⟩ | ⟨hn, q, h1, m, bs1, hq, -, -, -, -, inv1, -, he⟩
  · obtain ⟨h', bs', hf, inv'⟩ := inv.exists_kfree hp
    exact ⟨0, h', bs', by rw [he, hf]; rfl, by rw [if_pos hn]; exact inv'⟩
  · refine ⟨q, s.heap, bs, he, ⟨inv.ok, inv.start_eq, inv.size_eq, ?_, inv.min_size⟩⟩
    rw [if_neg hn]
    rcases hq with ⟨rfl, -⟩ | ⟨rfl, -⟩
    · exact inv.live_perm
    · rw [if_neg hp0]
      exact (perm_cons_erase hp).symm.trans inv.live_perm
  · obtain ⟨h', bs', hf, inv'⟩ := inv1.exists_kfree (mem_cons_of_mem _ hp)
    refine ⟨q, h', bs', by rw [he, hf]; rfl, ?_⟩
    rw [if_neg hn, if_neg hq, ← inv1.erase_cons hp]
    exact inv'

/-- 割り当てられた data への書き込みでは、列は変わらない。 -/
theorem Inv.write (inv : Inv start size s bs) {off : Nat} (hp : p ∈ s.live)
    (hoff : off < (readBlock s.heap.mem (p - headerSize)).size) (v : UInt8) :
    Inv start size ⟨{ s.heap with mem := store s.heap.mem (p + off) 1 v.toNat }, s.live⟩ bs := by
  obtain ⟨pre, post, k, rfl, rfl⟩ := inv.split_live hp
  rw [Nat.add_sub_cancel, (dataBlock_eq inv.ok).2.2.1] at hoff
  have hu : (s.heap.heapStart + total headerSize pre, k) ∈
      used headerSize s.heap.heapStart (pre ++ ⟨k, false⟩ :: post) := by
    simp [used_append, used_cons]
  have ok := inv.ok.write hu ((agreeOff_store _ _ 1 v.toNat).mono
    (Nat.le_add_right _ off) (by simp only at hoff ⊢; omega))
  exact ⟨ok, inv.start_eq, inv.size_eq, inv.live_perm, inv.min_size⟩

/-- **許された手は必ず成功し、不変量を保つ。** -/
theorem Inv.step (inv : Inv start size s bs) {op : Op} (hl : Allowed s op) :
    ∃ s' bs', step s op = some s' ∧ Inv start size s' bs' := by
  cases op with
  | kmalloc n =>
    rcases inv.kmalloc n with ⟨-, he⟩ | ⟨p, h', bs', -, -, he, hp, inv', -⟩
    · exact ⟨_, bs, by simp only [KHeap.step, he, Option.map_some, if_true], inv⟩
    · exact ⟨_, bs', by simp only [KHeap.step, he, Option.map_some, if_neg hp], inv'⟩
  | kfree p =>
    obtain ⟨h', bs', he, inv'⟩ := inv.exists_kfree hl
    exact ⟨_, bs', by simp only [KHeap.step, he, Option.map_some], inv'⟩
  | krealloc p n =>
    obtain ⟨q, h', bs', he, inv'⟩ := inv.krealloc hl n
    exact ⟨_, bs', by simp only [KHeap.step, he, Option.map_some], inv'⟩
  | write p off v => exact ⟨_, bs, rfl, inv.write hl.1 hl.2 v⟩

/-! ## メモリの中のリスト -/

/-- `a` から `next` を `NULL` まで辿って読める block の番地と header。 -/
inductive Walk (m : Mem) : Nat → List (Nat × KHeapBlock) → Prop
  | nil : Walk m 0 []
  | cons {a : Nat} {l : List (Nat × KHeapBlock)} : a ≠ 0 → Walk m (readBlock m a).next l →
      Walk m a ((a, readBlock m a) :: l)

/-- 敷き詰めた列の番地と header。 -/
def entries (a : Nat) : List Blk → List (Nat × KHeapBlock)
  | [] => []
  | b :: bs => (a, ⟨b.size, b.free, link 0 (a + (headerSize + b.size)) bs⟩) ::
      entries (a + (headerSize + b.size)) bs

theorem walk_entries {m : Mem} (hl : Laid m 0 a bs) (ha : 0 < a) :
    Walk m (link 0 a bs) (entries a bs) := by
  induction bs generalizing a with
  | nil => exact .nil
  | cons b bs ih =>
    simp only [entries]
    rw [← hl.1]
    refine .cons (show a ≠ 0 by omega) ?_
    rw [show link 0 a _ = a from rfl, hl.1]
    exact ih hl.2 (by omega)

@[simp] theorem length_entries : (entries a bs).length = bs.length := by
  induction bs generalizing a with
  | nil => rfl
  | cons b bs ih => simp [entries, ih]

theorem sum_entries (a : Nat) (bs : List Blk) :
    ((entries a bs).map fun x => headerSize + x.2.size).sum = total headerSize bs := by
  induction bs generalizing a with
  | nil => rfl
  | cons b bs ih => simp [entries, ih]

/-- `next` は隣の block の番地か、最後なら `NULL` である。 -/
theorem next_entries (a : Nat) (bs : List Blk) (i : Nat) (hi : i < (entries a bs).length) :
    ((entries a bs).get ⟨i, hi⟩).2.next = if i + 1 < (entries a bs).length
      then ((entries a bs).get ⟨i, hi⟩).1 + headerSize + ((entries a bs).get ⟨i, hi⟩).2.size
      else 0 := by
  induction bs generalizing a i with
  | nil => simp [entries] at hi
  | cons b bs ih =>
    cases i with
    | zero =>
      cases bs with
      | nil => simp [entries, link]
      | cons c cs => simp [entries, link]; omega
    | succ i =>
      have := ih (a + (headerSize + b.size)) i (by simpa [entries] using hi)
      simpa [entries] using this

/-- 使用中の block は、空きでない要素を拾ったものである。 -/
theorem used_eq_entries (a : Nat) (bs : List Blk) : used headerSize a bs
      = ((entries a bs).filter fun x => !x.2.isFree).map fun x => (x.1, x.2.size) := by
  induction bs generalizing a with
  | nil => rfl
  | cons b bs ih =>
    rw [used_cons, ih]
    cases hf : b.free <;> simp [entries, hf]

theorem exists_blk_of_mem_entries {x : Nat × KHeapBlock}
    (hx : x ∈ entries a bs) : ∃ b ∈ bs, x.2.size = b.size ∧ x.2.isFree = b.free := by
  induction bs generalizing a with
  | nil => simp [entries] at hx
  | cons b bs ih =>
    rcases mem_cons.mp hx with rfl | hx
    · exact ⟨b, mem_cons_self, rfl, rfl⟩
    · obtain ⟨c, hc, h⟩ := ih hx
      exact ⟨c, mem_cons_of_mem _ hc, h⟩

/-! ## 主定理 -/

/-- 状態 `s` のメモリにあるリスト `l` が、大きさ `size` の領域を敷き詰めている。 -/
structure Tiled (s : St) (size : Nat) (l : List (Nat × KHeapBlock)) : Prop where
  /-- `l` は `heap_start` から `next` を辿ったものである。 -/
  walk : Walk s.heap.mem s.heap.heapStart l
  /-- `next` は block の終わりの番地、最後の block だけは `NULL`。 -/
  next_eq : ∀ (i : Nat) (hi : i < l.length), (l.get ⟨i, hi⟩).2.next =
    if i + 1 < l.length then (l.get ⟨i, hi⟩).1 + headerSize + (l.get ⟨i, hi⟩).2.size else 0
  sum_eq : (l.map fun x => headerSize + x.2.size).sum = size
  /-- 生きている割り当ては、ちょうど一つの使用中の block である。 -/
  live_one : ∀ p ∈ s.live, l.countP (fun x => !x.2.isFree && x.1 + headerSize == p) = 1
  live_nodup : s.live.Nodup
  /-- 相異なる二つの割り当ての data は重ならない。 -/
  live_disjoint : ∀ x ∈ l, ∀ y ∈ l, x.2.isFree = false → y.2.isFree = false →
    x.1 + headerSize ∈ s.live → y.1 + headerSize ∈ s.live → x.1 ≠ y.1 →
    x.1 + headerSize + x.2.size ≤ y.1 + headerSize ∨ y.1 + headerSize + y.2.size ≤ x.1 + headerSize

theorem Inv.live_one (inv : Inv start size s bs) (hp : p ∈ s.live) :
    (entries s.heap.heapStart bs).countP (fun x => !x.2.isFree && x.1 + headerSize == p) = 1 := by
  have hc : (ptrs _ bs).count p = 1 :=
    count_eq_one_of_mem ptrs_nodup (inv.live_perm.mem_iff.mp hp)
  rw [← hc, ptrs, used_eq_entries, map_map, count_eq_countP, countP_map, countP_filter]
  refine countP_congr fun x _ => ?_
  simp [and_comm]

theorem Inv.tiled (inv : Inv start size s bs) :
    Tiled s size (entries s.heap.heapStart bs) where
  walk := by
    have h := walk_entries inv.ok.laid inv.ok.pos
    rwa [inv.ok.link_eq] at h
  next_eq := next_entries _ _
  sum_eq := by rw [sum_entries, inv.ok.total_eq, inv.size_eq]
  live_one := fun _ hp => inv.live_one hp
  live_nodup := inv.live_nodup
  live_disjoint := by
    intro x hx y hy hxf hyf _ _ hne
    have mem : ∀ z ∈ entries s.heap.heapStart bs, z.2.isFree = false →
        (z.1, z.2.size) ∈ used headerSize s.heap.heapStart bs := by
      intro z hz hzf
      rw [used_eq_entries]
      exact mem_map.mpr ⟨z, mem_filter.mpr ⟨hz, by simp [hzf]⟩, rfl⟩
    have hd := used_disjoint (mem x hx hxf) (mem y hy hyf) hne
    omega

/-- 溢れない要求では、探す大きさは 8 の倍数への切り上げと最小の大きさの大きい方である。 -/
theorem requestSize_eq (hn : n ≤ 2 ^ 64 - 8) :
    requestSize n = max ((n + 7) / 8 * 8) kheapMinBlockSize := by
  unfold requestSize align8
  split <;> omega

/-- `kmalloc` が `NULL` を返すのは足りる空き block がないときだけで、heap は変わらない。 -/
theorem Inv.kmalloc_null (inv : Inv start size s bs) (hn : 0 < n)
    (he : KHeap.kmalloc s.heap n = some (0, h')) :
    (∀ x ∈ entries s.heap.heapStart bs, x.2.isFree = true → x.2.size < requestSize n) ∧
      h' = s.heap := by
  have hh : headerSize = 24 := rfl
  rcases kmalloc_cases inv.ok (show n ≠ 0 by omega) with
    ⟨hnone, he'⟩ | ⟨pre, b, post, h'', -, -, -, -, he', -, -⟩
  · rw [he] at he'
    simp only [Option.some.injEq, Prod.mk.injEq, true_and] at he'
    refine ⟨fun x hx hf => ?_, he'⟩
    obtain ⟨b, hb, hsz, hfr⟩ := exists_blk_of_mem_entries hx
    rw [hsz]
    exact alloc_none_iff.mp hnone b hb (hfr ▸ hf)
  · rw [he] at he'
    simp only [Option.some.injEq, Prod.mk.injEq] at he'
    omega

section

variable (hs : start ≠ 0) (hsz : headerSize + kheapMinBlockSize ≤ size)
  (hfit : start + size < 2 ^ 64)
include hs hsz hfit

theorem inv_boot : Inv start size (boot h start size) [⟨size - headerSize, true⟩] := by
  obtain ⟨ok, h1, h2⟩ := kheapInit_ok (h := h) hs hsz hfit
  refine ⟨ok, h1, h2, by simp [boot, ptrs, used_cons], ?_⟩
  rw [forall_mem_singleton]
  exact Nat.le_sub_of_add_le' hsz

theorem reach_inv (hr : Run.Reach step Allowed (boot h start size) ops s) :
    ∃ bs, Inv start size s bs := by
  refine hr.invariant (P := fun s => ∃ bs, Inv _ size s bs) ⟨_, inv_boot hs hsz hfit⟩ ?_
  rintro s op s' ⟨bs, inv⟩ hl hstep
  obtain ⟨s'', bs', he, inv'⟩ := inv.step hl
  rw [hstep] at he
  cases he
  exact ⟨bs', inv'⟩

end

/--
**heap はつねに領域を敷き詰める。**

`kheap_init` が受け付けた領域から始めて、どの手の列で届いた状態でも、
メモリの中のリストは領域をちょうど敷き詰め、生きている割り当ては使用中の block に一つずつ対応し、
互いに重ならない。許された手は必ず終わり、`kmalloc` が `NULL` を返すのは足りる空き block が
ないときだけで、そのときリストは変わらない。

領域が番地の空間に収まること（`hfit`）は、`heap_end` が番地として意味を持つための条件である。
`kernel.c` が渡す `pmm_alloc_blocks` の領域はこれを満たす。
-/
theorem reach_tiled {h : Heap} {ops : List Op} (hs : start ≠ 0)
    (hsz : headerSize + kheapMinBlockSize ≤ size) (hfit : start + size < 2 ^ 64)
    (hr : Run.Reach step Legal (boot h start size) ops s) :
    s.heap.heapStart = start ∧
    ∃ l, Tiled s size l ∧ (∀ op, Legal s op → ∃ s', step s op = some s') ∧
      ∀ n h', 0 < n → n ≤ 2 ^ 64 - 8 → KHeap.kmalloc s.heap n = some (0, h') →
        (∀ x ∈ l, x.2.isFree = true →
          x.2.size < max ((n + 7) / 8 * 8) kheapMinBlockSize) ∧ h' = s.heap := by
  obtain ⟨bs, inv⟩ := reach_inv hs hsz hfit (hr.mono fun _ _ => Legal.allowed)
  refine ⟨inv.start_eq, entries _ bs, inv.tiled, ?_, ?_⟩
  · intro op hl
    obtain ⟨s', -, he, -⟩ := inv.step hl.allowed
    exact ⟨s', he⟩
  · intro n h' hpos hn he
    rw [← requestSize_eq hn]
    exact inv.kmalloc_null hpos he

theorem exists_reach (op : Op) (hs : start ≠ 0) (hsz : headerSize + kheapMinBlockSize ≤ size)
    (hfit : start + size < 2 ^ 64) (hr : Run.Reach step Legal (boot h start size) ops s)
      (hl : Legal s op) :
    ∃ s', Run.Reach step Legal (boot h start size) (ops ++ [op]) s' := by
  obtain ⟨bs, inv⟩ := reach_inv hs hsz hfit (hr.mono fun _ _ => Legal.allowed)
  obtain ⟨s', -, he, -⟩ := inv.step hl.allowed
  exact ⟨s', .snoc hr hl he⟩

/-- kernel の 1 MiB の heap で二度割り当てた状態。 -/
theorem reach_tiled_kernel_heap :
    ∃ s l, Run.Reach step Legal (boot ⟨fun _ => 0, 0, 0⟩ 0x200000 (256 * 4096))
        [.kmalloc 100, .kmalloc 5000] s ∧ Tiled s (256 * 4096) l := by
  have h0 : Run.Reach step Legal (boot ⟨fun _ => 0, 0, 0⟩ 0x200000 (256 * 4096)) [] _ := .nil
  obtain ⟨s1, h1⟩ := exists_reach (.kmalloc 100) (by decide) (by decide) (by decide) h0
    (by simp [Legal])
  obtain ⟨s2, h2⟩ := exists_reach (.kmalloc 5000) (by decide) (by decide) (by decide) h1
    (by simp [Legal])
  obtain ⟨-, l, ht, -⟩ := reach_tiled (by decide) (by decide) (by decide) h2
  exact ⟨s2, l, h2, ht⟩

end Alos.KHeap
