import Alos.KHeap.Invariant

/-!
# 空き block は融合されるか

`kfree` は後ろの空き block を吸収したあと、先頭から走査して前の空き block にも吸収させる。
走査は `max_iterations`（10000）で打ち切られるので、10001 個目以降の空き block には届かない。

* `reach_coalesced` — 直前の空き block に走査が届く解放だけを行う実行では、
  空き block は決して並ばず、満たせる最大の要求は最も長い空きの区間で決まる。
  この条件は一手ごとに必要十分である。
* `kheap_adjacent_free` — kernel の 1 MiB の heap で、実際に空き block が二つ並ぶ。
-/

namespace Alos.KHeap

open Bytes BlockList List Option

variable {h : Heap} {pre post bs : List Blk} {p a k : Nat} {ops : List Op}

/-! ## リストの読み方 -/

theorem Walk.unique {m : Mem} {l l' : List (Nat × KHeapBlock)} (h : Walk m a l)
    (h' : Walk m a l') : l = l' := by
  induction h generalizing l' with
  | nil =>
    cases h' with
    | nil => rfl
    | cons ha _ => exact absurd rfl ha
  | cons ha _ ih =>
    cases h' with
    | nil => exact absurd rfl ha
    | cons _ ht => rw [ih ht]

/-- リストの block を、番地を忘れて見たもの。 -/
def blks (l : List (Nat × KHeapBlock)) : List Blk := l.map fun x => ⟨x.2.size, x.2.isFree⟩

@[simp] theorem blks_entries (a : Nat) (bs : List Blk) : blks (entries a bs) = bs := by
  induction bs generalizing a with
  | nil => rfl
  | cons b bs ih =>
    have ht := ih (a + (headerSize + b.size))
    unfold blks at ht ⊢
    simp [entries, ht]

theorem HeapOk.walk (ok : HeapOk h bs) : Walk h.mem h.heapStart (entries h.heapStart bs) := by
  have hw := walk_entries ok.laid ok.pos
  rwa [ok.link_eq] at hw

theorem entries_at (pre post : List Blk) (b : Blk) (a : Nat) :
    (entries a (pre ++ b :: post))[pre.length]? = some (a + total headerSize pre,
        ⟨b.size, b.free, link 0 (a + total headerSize pre + (headerSize + b.size)) post⟩) := by
  induction pre generalizing a with
  | nil => simp [entries]
  | cons c pre ih =>
    have := ih (a + (headerSize + c.size))
    simp only [cons_append, entries, length_cons, getElem?_cons_succ, this, total_cons]
    simp only [Nat.add_assoc]

theorem entries_split {i : Nat} {x : Nat × KHeapBlock} (h : (entries a bs)[i]? = some x) :
    ∃ pre b post, bs = pre ++ b :: post ∧ pre.length = i := by
  have hi : i < bs.length := by
    rw [← length_entries]
    exact (List.getElem?_eq_some_iff.mp h).1
  refine ⟨bs.take i, bs[i], bs.drop (i + 1), ?_, ?_⟩
  · rw [← List.drop_eq_getElem_cons, List.take_append_drop]
  · rw [List.length_take]
    omega

/-! ## 走査が届く解放 -/

/-- `p` の直前の block が空きなら、それは走査が見る先頭 10000 個の中にある。 -/
def NearFree (h : Heap) (p : Nat) : Prop :=
  ∀ l, Walk h.mem h.heapStart l → ∀ (i : Nat) (x : Nat × KHeapBlock), l[i]? = some x →
    x.2.next + headerSize = p → x.2.isFree = true → i < maxIterations

/-- 同じ列の、占める byte 数が等しい二つの先頭部分は等しい。 -/
theorem prefix_eq_of_total {xs ys xs' ys' : List Blk} (h : xs ++ ys = xs' ++ ys')
    (ht : total headerSize xs = total headerSize xs') : xs = xs' := by
  have hh : headerSize = 24 := rfl
  rcases append_eq_append_iff.mp h with ⟨as, rfl, -⟩ | ⟨as, rfl, -⟩
  · cases as with
    | nil => simp
    | cons c cs => simp only [total_append, total_cons] at ht; omega
  · cases as with
    | nil => simp
    | cons c cs => simp only [total_append, total_cons] at ht; omega

theorem nearFree_iff {b : Blk} (ok : HeapOk h (pre ++ b :: post))
    (hp : p = h.heapStart + total headerSize pre + headerSize) :
    NearFree h p ↔ ∀ x ∈ pre.getLast?, x.free = true → pre.length ≤ maxIterations := by
  have hpos := ok.pos
  constructor
  · intro hnear x hx hfree
    obtain ⟨pre', rfl⟩ : ∃ pre', pre = pre' ++ [x] := by
      refine ⟨pre.dropLast, ?_⟩
      rw [dropLast_append_getLast? x hx]
    have hat := entries_at pre' (b :: post) x h.heapStart
    have := hnear _ ok.walk pre'.length _ (by simpa using hat)
      (by rw [hp]; simp [link]; omega) hfree
    simpa using Nat.succ_le_of_lt this
  · rintro hle l hl i x hx hnext hfree
    rw [hl.unique ok.walk] at hx
    obtain ⟨pre1, y, post1, he, rfl⟩ := entries_split hx
    rw [he, entries_at] at hx
    simp only [some.injEq] at hx
    subst hx
    have hne : post1 ≠ [] := by
      rintro rfl
      simp only [link] at hnext
      omega
    obtain ⟨z, zs, rfl⟩ := exists_cons_of_ne_nil hne
    simp only [link] at hnext
    have hpre : pre = pre1 ++ [y] :=
      prefix_eq_of_total (show pre ++ b :: post = pre1 ++ [y] ++ z :: zs by simp [he])
        (by simp only [total_append, total_cons, total_nil]; omega)
    subst hpre
    have := hle y (by simp) hfree
    simp only [length_append, length_singleton] at this
    omega

/-! ## 融合された heap -/

/--
空き block が並ばず、`kmalloc` が成功するのは、揃えた要求が header ごと
最も長い空きの区間に収まるときである。
-/
def Coalesced (h : Heap) : Prop :=
  ∃ l, Walk h.mem h.heapStart l ∧ NoAdjFree (blks l) ∧ ∀ n, 0 < n → n ≤ 2 ^ 64 - 8 →
      ((∃ p h', kmalloc h n = some (p, h') ∧ p ≠ 0) ↔
        max ((n + 7) / 8 * 8) kheapMinBlockSize + headerSize ≤ largestFreeRange headerSize (blks l))

theorem coalesced_iff (ok : HeapOk h bs) : Coalesced h ↔ NoAdjFree bs := by
  have hh : headerSize = 24 := rfl
  constructor
  · rintro ⟨l, hl, hno, -⟩
    rw [hl.unique ok.walk, blks_entries] at hno
    exact hno
  intro hno
  refine ⟨_, ok.walk, by simpa using hno, ?_⟩
  intro n hn hle
  rw [blks_entries, ← requestSize_eq hle, ← alloc_isSome_iff (show 0 < headerSize by decide) hno]
  rcases kmalloc_cases ok (show n ≠ 0 by omega) with
    ⟨ha, he⟩ | ⟨pre, b, post, h', -, -, -, ha, he, -⟩
  · rw [ha, he]
    simp
  · rw [ha, he]
    refine iff_of_true ⟨_, _, rfl, ?_⟩ rfl
    omega

/-- 一手の中で行われる解放が、どれも走査の届くものである。 -/
def Near (s : St) : Op → Prop
  | .kfree p => NearFree s.heap p
  | .krealloc p n => (n = 0 → NearFree s.heap p) ∧
      (n ≠ 0 → (readBlock s.heap.mem (p - headerSize)).size < align8 n →
        ∀ q h', kmalloc s.heap (align8 n) = some (q, h') → q ≠ 0 → NearFree h' p)
  | _ => True

variable {start size : Nat} {s : St}

/-- 解放の一手が空き block を並べないのは、走査が届くときに限る。 -/
theorem Inv.kfree_noAdjFree (inv : Inv start size s bs) (hno : NoAdjFree bs) (hp : p ∈ s.live) :
    ∃ h' bs', KHeap.kfree s.heap p = some h' ∧ Inv start size ⟨h', s.live.erase p⟩ bs' ∧
      (NoAdjFree bs' ↔ NearFree s.heap p) := by
  obtain ⟨pre, post, k, rfl, hpe⟩ := inv.split_live hp
  obtain ⟨h', he, inv', -⟩ := inv.kfree hp hpe
  exact ⟨h', _, he, inv', (noAdjFree_release hno).trans (nearFree_iff inv.ok hpe).symm⟩

theorem Inv.step_noAdjFree (inv : Inv start size s bs) (hno : NoAdjFree bs) {op : Op}
    (hl : Allowed s op) (hnear : Near s op) {s' : St} (hs : KHeap.step s op = some s') :
    ∃ bs', Inv start size s' bs' ∧ NoAdjFree bs' := by
  cases op with
  | kmalloc n =>
    rcases inv.kmalloc n with ⟨-, he⟩ | ⟨p, h', bs', -, -, he, hp, inv', ha, -⟩
    · simp only [KHeap.step, he, map_some, if_true, some.injEq] at hs
      subst hs
      exact ⟨bs, inv, hno⟩
    · simp only [KHeap.step, he, map_some, if_neg hp, some.injEq] at hs
      subst hs
      exact ⟨bs', inv', noAdjFree_alloc hno ha⟩
  | kfree p =>
    obtain ⟨h', bs', he, inv', hiff⟩ := inv.kfree_noAdjFree hno hl
    simp only [KHeap.step, he, map_some, some.injEq] at hs
    subst hs
    exact ⟨bs', inv', hiff.mpr hnear⟩
  | krealloc p n =>
    rcases inv.krealloc_cases hl n with
      ⟨hn, he⟩ | ⟨hn, q, hq, he⟩ | ⟨hn, q, h1, m, bs1, hq, hlt, -, hm, ok1, inv1, ha, he⟩
    · obtain ⟨h', bs', hf, inv', hiff⟩ := inv.kfree_noAdjFree hno hl
      simp only [KHeap.step, he, hf, map_some, if_pos hn, some.injEq] at hs
      subst hs
      exact ⟨bs', inv', hiff.mpr (hnear.1 hn)⟩
    · obtain ⟨q', h', bs', he', inv'⟩ := inv.krealloc hl n
      rw [he] at he'
      obtain ⟨rfl, rfl⟩ := he'
      simp only [KHeap.step, he, map_some, some.injEq] at hs
      subst hs
      -- 列はメモリで決まるので、もとの `bs` のままである
      have hbs : bs' = bs := by
        have := inv'.ok.walk.unique inv.ok.walk
        rw [← blks_entries _ bs', this, blks_entries]
      exact ⟨bs', inv', hbs ▸ hno⟩
    · obtain ⟨h', bs', hf, inv', hiff⟩ := inv1.kfree_noAdjFree (noAdjFree_alloc hno ha)
        (mem_cons_of_mem _ hl)
      simp only [KHeap.step, he, hf, map_some, if_neg hn, if_neg hq, some.injEq] at hs
      subst hs
      rw [inv1.erase_cons hl] at inv'
      refine ⟨bs', inv', hiff.mpr ?_⟩
      -- 写したあとの heap と写す前の heap は、同じ列を持つ
      have hn1 := hnear.2 hn hlt q h1 hm hq
      obtain ⟨pre, post, k, rfl, hpe⟩ := inv1.split_live (mem_cons_of_mem _ hl)
      exact (nearFree_iff inv1.ok hpe).mpr ((nearFree_iff ok1 hpe).mp hn1)
  | write p off v =>
    simp only [KHeap.step, some.injEq] at hs
    subst hs
    exact ⟨bs, inv.write hl.1 hl.2 v, hno⟩

/-! ## 主定理 -/

theorem reach_noAdjFree (hs : start ≠ 0)
    (hsz : headerSize + kheapMinBlockSize ≤ size) (hfit : start + size < 2 ^ 64)
    (hr : Run.Reach step (fun s op => Allowed s op ∧ Near s op) (boot h start size) ops s) :
    ∃ bs, Inv start size s bs ∧ NoAdjFree bs := by
  refine hr.invariant (P := fun s => ∃ bs, Inv _ size s bs ∧ NoAdjFree bs)
    ⟨_, inv_boot hs hsz hfit, isChain_singleton _⟩ ?_
  rintro s op s' ⟨bs, inv, hno⟩ ⟨hl, hnear⟩ hstep
  exact inv.step_noAdjFree hno hl hnear hstep

/--
**走査の届く解放だけを行うかぎり、空き block は並ばない。**

届いた状態はすべて `Coalesced` である。さらに、そこからの一つの解放が `Coalesced` を保つのは、
ちょうど解放する block の直前の空き block に走査が届くときである。
-/
theorem reach_coalesced {h : Heap} {ops : List Op} (hs : start ≠ 0)
    (hsz : headerSize + kheapMinBlockSize ≤ size) (hfit : start + size < 2 ^ 64)
    (hr : Run.Reach step (fun s op => Allowed s op ∧ Near s op) (boot h start size) ops s) :
    Coalesced s.heap ∧
      ∀ p ∈ s.live, ∃ h', kfree s.heap p = some h' ∧ (Coalesced h' ↔ NearFree s.heap p) := by
  obtain ⟨bs, inv, hno⟩ := reach_noAdjFree hs hsz hfit hr
  refine ⟨(coalesced_iff inv.ok).mpr hno, ?_⟩
  intro p hp
  obtain ⟨h', bs', he, inv', hiff⟩ := inv.kfree_noAdjFree hno hp
  exact ⟨h', he, (coalesced_iff inv'.ok).trans hiff⟩

/-! ## 打ち切りの先 -/

/-- 16 byte の block を `j` 個割り当てた heap の列。 -/
def packed (size j : Nat) : List Blk :=
  List.replicate j ⟨16, false⟩ ++ [⟨size - headerSize - 40 * j, true⟩]

theorem total_replicate (j : Nat) : total headerSize (replicate j ⟨16, false⟩) = 40 * j := by
  have hh : headerSize = 24 := rfl
  induction j with
  | zero => rfl
  | succ j ih =>
    rw [replicate_succ, total_cons]
    simp only
    omega

theorem alloc_packed {j : Nat} (h : 40 * j + 104 ≤ size) :
    alloc headerSize kheapMinBlockSize (requestSize 16) (packed size j)
      = some (packed size (j + 1)) := by
  have hh : headerSize = 24 := rfl
  have hk : kheapMinBlockSize = 16 := rfl
  rw [show requestSize 16 = 16 from by decide]
  unfold packed
  rw [alloc_append (by simp) ⟨rfl, by simp only; omega⟩, carve,
    if_pos (by simp only; omega), replicate_succ', append_assoc]
  simp only [append_nil, singleton_append]
  rw [show size - headerSize - 40 * j - 16 - headerSize = size - headerSize - 40 * (j + 1) by omega]

theorem reach_packed (start size : Nat) (h : Heap) (hs : start ≠ 0) (hfit : start + size < 2 ^ 64) :
    ∀ j : Nat, 40 * j + 64 ≤ size →
      ∃ s, Run.Reach step (fun s op => Legal s op ∧ Near s op) (boot h start size)
          (replicate j (.kmalloc 16)) s ∧ Inv start size s (packed size j) := by
  have hh : headerSize = 24 := rfl
  have hk : kheapMinBlockSize = 16 := rfl
  intro j
  induction j with
  | zero =>
    intro hsz
    exact ⟨_, .nil, inv_boot hs (by omega) hfit⟩
  | succ j ih =>
    intro hsz
    obtain ⟨s, hr, inv⟩ := ih (by omega)
    have hal := alloc_packed (show 40 * j + 104 ≤ size by omega)
    rcases inv.kmalloc 16 with ⟨hnone, -⟩ | ⟨p, h', bs', -, -, he, hp, inv', ha, -⟩
    · rw [hal] at hnone
      simp at hnone
    · rw [hal] at ha
      cases ha
      rw [replicate_succ']
      exact ⟨_, .snoc hr ⟨show 16 ≤ 2 ^ 64 - 8 by omega, trivial⟩
        (by simp only [step, he, map_some, if_neg hp]), inv'⟩

/-- 列の中の使用中の block のポインタは生きている。 -/
theorem Inv.mem_live (inv : Inv start size s (pre ++ ⟨k, false⟩ :: post)) :
    s.heap.heapStart + total headerSize pre + headerSize ∈ s.live := by
  rw [inv.live_perm.mem_iff]
  exact mem_map.mpr ⟨(s.heap.heapStart + total _ pre, k), by simp [used_append, used_cons], rfl⟩

/-- 解放の一手を、列の分解とともに進める。 -/
theorem reach_kfree (hr : Run.Reach step Legal (boot h start size) ops s)
    (inv : Inv start size s (pre ++ ⟨k, false⟩ :: post))
    (hp : p = start + total headerSize pre + headerSize) :
    ∃ s', Run.Reach step Legal (boot h start size) (ops ++ [.kfree p]) s' ∧
      Inv start size s' (BlockList.sweep headerSize maxIterations
        (pre ++ absorb headerSize ⟨k, true⟩ post)) := by
  rw [← inv.start_eq] at hp
  have hm : p ∈ s.live := hp ▸ inv.mem_live
  obtain ⟨h', he, inv', -⟩ := inv.kfree hm hp
  exact ⟨_, .snoc hr hm (by simp only [step, he, map_some]), inv'⟩

theorem noAdjFree_replicate (j k : Nat) : NoAdjFree (replicate j ⟨k, false⟩) :=
  isChain_replicate_of_rel j (by simp)

/--
**1 MiB の heap で空き block が二つ並ぶ。**

16 byte の block を 10002 個割り当て、10001 個目と 10002 個目をこの順に解放する。
二度目の走査は 10000 個目までで止まり、10001 個目の空き block に届かない。
-/
theorem kheap_adjacent_free :
    ∃ s, Run.Reach step Legal (boot ⟨fun _ => 0, 0, 0⟩ 0x200000 (256 * 4096))
        (List.replicate 10002 (.kmalloc 16) ++ [.kfree (0x200000 + 40 * 10000 + 24)] ++
          [.kfree (0x200000 + 40 * 10001 + 24)]) s ∧ ¬Coalesced s.heap := by
  let rest : Blk := ⟨256 * 4096 - headerSize - 40 * 10002, true⟩
  obtain ⟨s0, hr0, inv0⟩ := reach_packed 0x200000 (256 * 4096) _
    (by decide) (by decide) 10002 (by decide)
  rw [show packed _ _ = replicate 10000 _ ++ ⟨16, false⟩ :: [⟨16, false⟩, rest] from by
      rw [packed, show 10002 = 10000 + 2 from rfl, replicate_add, append_assoc]
      rfl] at inv0
  -- 一度目の解放は誰とも隣り合わない
  obtain ⟨s1, hr1, inv1⟩ := reach_kfree (hr0.mono fun _ _ h => h.1) inv0
    (p := 0x200000 + 40 * 10000 + 24) (by rw [total_replicate]; rfl)
  have hno : NoAdjFree ((replicate 10000 ⟨16, false⟩ ++ [⟨16, true⟩]) ++
      ⟨16, false⟩ :: [rest]) := by
    rw [append_assoc, noAdjFree_append]
    refine ⟨noAdjFree_replicate _ _, by simp [NoAdjFree], ?_⟩
    intro x hx y _
    rw [eq_of_mem_replicate (mem_of_getLast? hx)]
    simp
  rw [absorb_of_head (by simp), append_cons, sweep_eq_self hno] at inv1
  -- 二度目の解放の直前の block は 10001 個目である
  obtain ⟨s2, hr2, inv2⟩ := reach_kfree hr1 inv1 (p := 0x200000 + 40 * 10001 + 24)
    (by rw [total_append, total_replicate]; rfl)
  refine ⟨s2, hr2, ?_⟩
  rw [coalesced_iff inv2.ok, noAdjFree_release hno]
  intro hle
  have := hle _ getLast?_concat rfl
  rw [length_append, length_replicate] at this
  exact absurd this (by decide)

/-- kernel の heap で、割り当てた block を解放する実行。 -/
theorem reach_coalesced_kernel_heap :
    ∃ s, Run.Reach step (fun s op => Allowed s op ∧ Near s op)
        (boot ⟨fun _ => 0, 0, 0⟩ 0x200000 (256 * 4096)) [.kmalloc 16, .kfree (0x200000 + 24)] s ∧
      Coalesced s.heap := by
  obtain ⟨s0, hr0, inv0⟩ := reach_packed 0x200000 (256 * 4096) _
    (by decide) (by decide) 1 (by decide)
  have inv1 : Inv _ _ s0 ([] ++ ⟨16, false⟩ :: [⟨256 * 4096 - headerSize - 40 * 1, true⟩]) := inv0
  have hp : 0x200000 + 24 = s0.heap.heapStart + total headerSize [] + headerSize := by
    rw [inv0.start_eq]
    rfl
  have hm : 0x200000 + 24 ∈ s0.live := hp ▸ inv1.mem_live
  obtain ⟨h', he, -⟩ := inv1.kfree hm hp
  have hstep : step s0 (.kfree (0x200000 + 24)) = some ⟨h', s0.live.erase (0x200000 + 24)⟩ := by
    simp only [step, he, map_some]
  have hl : Allowed s0 (.kfree _) ∧ Near s0 (.kfree _) :=
    ⟨hm, (nearFree_iff inv1.ok hp).mpr (by simp)⟩
  have hr1 : Run.Reach step (fun s op => Allowed s op ∧ Near s op) _ _ s0 :=
    hr0.mono fun _ _ h => ⟨h.1.allowed, h.2⟩
  have hr := hr1.snoc hl hstep
  exact ⟨_, hr, (reach_coalesced (by decide) (by decide) (by decide) hr).1⟩

end Alos.KHeap
