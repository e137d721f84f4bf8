import Alos.Ext2.Graph
import Alos.Ext2.Inodes

/-!
# 整合した image の不変量

`Consistent` が image の整合性である。割り当てられた inode から pointer で届く block は、
bitmap で使用中であり、metadata ではなく、届く道は一つしかない。

操作の途中では、memory にある inode が disk の inode より先に進んでいる。そこで `Inv` は、
inode ごとに「memory と disk を合わせた」`i_block` を `roots` として持ち、disk の方は
その一部が 0 に留まっているとする。`x` は作りかけ、または消しかけの inode で、木から外しておく。

この file は、木を変えない変化（`Calm`）だけを扱う。割り当てと、木の外の block への
書き込みがこれに当たる。
-/

namespace Alos.Ext2

open Bytes Bitmap

variable {i g : Nat} {d : Int} {flip : Mem → Mem}

/-! ## 整合性 -/

/-- metadata の置かれた block。 -/
def Metadata (G : Geom) (b : Nat) : Prop := ∃ σ : Slot, σ.Valid G ∧ σ.block G = b

/-- 使用中で、metadata でない block。 -/
def Owned (G : Geom) (m : Mem) (b : Nat) : Prop := Allocated G m .block b ∧ ¬Metadata G b

/-- 割り当てられた inode。 -/
def liveInode (G : Geom) (m : Mem) (n : Nat) : Bool :=
  decide (IsInode G n) && marked G m .inode (n - 1)

/-- disk にある image の木。 -/
def imageView (G : Geom) (m : Mem) : View := ⟨liveInode G m, rootAt G m, m⟩

/--
**整合した image。**

割り当てられた inode から、直接、間接、二重間接の pointer で届く block は、使用中で、
metadata ではなく、届く道は一つしかない。
-/
def Consistent (G : Geom) (m : Mem) : Prop := Sound G (imageView G m) (Owned G m)

/-- 操作の途中の木。`x` を外し、`i_block` は `roots` で読む。 -/
def view (G : Geom) (m : Mem) (x : Nat) (roots : Nat → Nat → Nat) : View :=
  ⟨fun n => liveInode G m n && n != x, roots, m⟩

/-- 操作の途中の不変量。 -/
structure Inv (G : Geom) (s : State) (x : Nat) (roots : Nat → Nat → Nat) : Prop where
  ready : Ready G s
  matching : Matching G s
  /-- metadata の block は使用中である。 -/
  reserved : ∀ i < G.objects .block, Metadata G (G.base .block + i) →
    marked G s.disk .block i = true
  sound : Sound G (view G s.disk x roots) (Owned G s.disk)
  /-- disk の pointer は、まだ書かれていないか、`roots` と同じである。 -/
  sub : ∀ n k, (view G s.disk x roots).live n = true → k < 14 →
    rootAt G s.disk n k = 0 ∨ rootAt G s.disk n k = roots n k

/-- inode `n` は disk の上で変わらなかった。 -/
def SameInode (G : Geom) (m m' : Mem) (n : Nat) : Prop :=
  ∀ y < inodeStructSize, inodeAt G m' n y = inodeAt G m n y

/-- group の directory の数は変わらなかった。 -/
def SameDirs (fs fs' : Fs) : Prop :=
  ∀ g, bgUsedDirsCount fs'.groupDescs g = bgUsedDirsCount fs.groupDescs g

/-- data が同じである。 -/
def SameData (G : Geom) (v v' : View) : Prop :=
  ∀ p, ∀ o < G.blockSize, dataAt G v' p o = dataAt G v p o

section Basic

variable {G : Geom} {s s' : State} {x n b : Nat} {roots : Nat → Nat → Nat} {m m' : Mem}
  {S : Nat → Prop}

theorem isInode_of_live (h : liveInode G m n = true) : IsInode G n := by
  simp only [liveInode, Bool.and_eq_true, decide_eq_true_eq] at h
  exact h.1

theorem view_live : (view G m x roots).live n = true ↔ liveInode G m n = true ∧ n ≠ x := by
  simp [view]

theorem isInode_index (h : IsInode G n) : n - 1 < G.objects .inode := by
  show n - 1 < G.inodesCount
  have := h.1
  have := h.2
  omega

theorem liveInode_congr (hmark : ∀ i < G.objects .inode,
    marked G m' .inode i = marked G m .inode i) (n : Nat) : liveInode G m' n = liveInode G m n := by
  unfold liveInode
  by_cases h : IsInode G n
  · rw [hmark _ (isInode_index h)]
  · simp [h]

theorem allocated_congr {k : Kind} (hmark : ∀ i < G.objects k, marked G m' k i = marked G m k i)
    (n : Nat) : Allocated G m' k n ↔ Allocated G m k n := by
  constructor
  · rintro ⟨i, hi, hn, h⟩
    exact ⟨i, hi, hn, by rwa [← hmark i hi]⟩
  · rintro ⟨i, hi, hn, h⟩
    exact ⟨i, hi, hn, by rwa [hmark i hi]⟩

theorem allocated_set {k : Kind} (hi : i < G.objects k)
    (hmark : ∀ j < G.objects k, marked G m' k j = (decide (j = i) || marked G m k j)) (n : Nat) :
    Allocated G m' k n ↔ Allocated G m k n ∨ n = G.base k + i := by
  constructor
  · rintro ⟨j, hj, rfl, h⟩
    rw [hmark j hj, Bool.or_eq_true, decide_eq_true_eq] at h
    rcases h with rfl | h
    · exact .inr rfl
    · exact .inl ⟨j, hj, rfl, h⟩
  · rintro (⟨j, hj, rfl, h⟩ | rfl)
    · exact ⟨j, hj, rfl, by rw [hmark j hj, h, Bool.or_true]⟩
    · exact ⟨i, hi, rfl, by rw [hmark i hi]; simp⟩

theorem allocated_clear {k : Kind}
    (hmark : ∀ j < G.objects k, marked G m' k j = (decide (j ≠ i) && marked G m k j)) (n : Nat) :
    Allocated G m' k n ↔ Allocated G m k n ∧ n ≠ G.base k + i := by
  constructor
  · rintro ⟨j, hj, rfl, h⟩
    rw [hmark j hj, Bool.and_eq_true, decide_eq_true_eq] at h
    exact ⟨⟨j, hj, rfl, h.2⟩, by omega⟩
  · rintro ⟨⟨j, hj, rfl, h⟩, hne⟩
    have hji : j ≠ i := by omega
    exact ⟨j, hj, rfl, by rw [hmark j hj, h, decide_eq_true hji]; rfl⟩

theorem Owned.lt (h : Owned G m b) : b < G.blocksCount := by
  obtain ⟨⟨i, hi, rfl, -⟩, -⟩ := h
  simp only [Geom.objects, Geom.base] at *
  omega

/-! ## block の外の変化 -/

theorem ptrAt_only (hbs : 0 < G.blockSize) (ho : OnlyBlocks G.blockSize m m' S) (hS : ¬S b)
    {j : Nat} (hj : j < G.blockSize / 4) : ptrAt G.blockSize m' b j = ptrAt G.blockSize m b j := by
  apply load_congr
  intro a h1 h2
  apply ho.apply
  rwa [(mem_block_iff hbs).mpr (show b * G.blockSize ≤ a ∧ a < b * G.blockSize + G.blockSize by
    omega)]

theorem marked_only (wf : G.Wf) (ho : OnlyBlocks G.blockSize m m' S) {k : Kind}
    (hi : i < G.objects k) (hS : ¬S (G.bitmap k (i / G.per k))) :
    marked G m' k i = marked G m k i := by
  have hbit := wf.bit_lt hi
  have hle := wf.valid_le (k := k) (g := i / G.per k)
  exact test_congr (ho.blockAt_eq hS (by omega))

theorem rootAt_only (wf : G.Wf) (ho : OnlyBlocks G.blockSize m m' S)
    (hS : ¬S ((inodeSlot G n).block G)) {k : Nat} (hk : k < 14) :
    rootAt G m' n k = rootAt G m n k :=
  iBlock_congr (fun _ hx => inodeAt_only wf ho hS hx) hk

theorem metadata_bitmap (wf : G.Wf) {k : Kind} (hi : i < G.objects k) :
    Metadata G (G.bitmap k (i / G.per k)) := by
  have := wf.bit_lt hi
  exact ⟨.bitmap k _, show 0 < G.validBits k _ by omega, rfl⟩

theorem metadata_inode (wf : G.Wf) (hn : IsInode G n) : Metadata G ((inodeSlot G n).block G) :=
  ⟨_, inodeSlot_valid wf hn, rfl⟩

/-- bit が同じなら、空きの数も合ったままである。 -/
theorem Matching.quiet (hm : Matching G s)
    (hcount : ∀ (k : Kind) g, k.pool.count s'.fs g = k.pool.count s.fs g)
    (htotal : ∀ k : Kind, k.pool.total s'.fs = k.pool.total s.fs)
    (hmark : ∀ k, ∀ i < G.objects k, marked G s'.disk k i = marked G s.disk k i) :
    Matching G s' := by
  constructor
  · intro k g hg
    rw [hcount, hm.group k g hg]
    apply zeros_congr
    intro bit hbit
    have := hmark k _ (Geom.Wf.index_lt hbit)
    simp only [marked, Geom.Wf.index_div hbit, Geom.Wf.index_mod hbit] at this
    exact this.symm
  · intro k
    rw [htotal, hm.total]
    exact Finset.sum_congr rfl fun g _ => (hcount k g).symm

end Basic

/-! ## 木を変えない変化 -/

/-- 木も、木の block の中身も変わらなかった。 -/
structure Calm (G : Geom) (x : Nat) (roots : Nat → Nat → Nat) (s s' : State) : Prop where
  inv : Inv G s' x roots
  trace_eq : ∀ p, trace G (view G s'.disk x roots) p = trace G (view G s.disk x roots) p
  live_eq : ∀ n, liveInode G s'.disk n = liveInode G s.disk n
  data_eq : ∀ b, Reachable G (view G s.disk x roots) b → ∀ o < G.blockSize,
    blockAt G.blockSize s'.disk b o = blockAt G.blockSize s.disk b o
  inodes : ∀ n, IsInode G n → SameInode G s.disk s'.disk n
  dirs : SameDirs s.fs s'.fs
  heap : ∃ n, s'.heap = fun i => s.heap (i + n)

section Calm

variable {G : Geom} {s s' s'' : State} {x n b : Nat} {roots : Nat → Nat → Nat} {S : Nat → Prop}

theorem heap_shift_trans (h1 : ∃ n, s'.heap = fun i => s.heap (i + n))
    (h2 : ∃ n, s''.heap = fun i => s'.heap (i + n)) : ∃ n, s''.heap = fun i => s.heap (i + n) := by
  obtain ⟨n1, h1⟩ := h1
  obtain ⟨n2, h2⟩ := h2
  refine ⟨n2 + n1, ?_⟩
  rw [h2, h1]
  funext i
  show s.heap _ = _
  rw [Nat.add_assoc]

theorem HeapOk.shift (h : HeapOk s) (hs : ∃ n, s'.heap = fun i => s.heap (i + n)) : HeapOk s' := by
  obtain ⟨n, hs⟩ := hs
  intro i
  rw [hs]
  exact h _

namespace Calm

theorem refl (inv : Inv G s x roots) : Calm G x roots s s :=
  ⟨inv, fun _ => rfl, fun _ => rfl, fun _ _ _ _ => rfl, fun _ _ _ _ => rfl, fun _ => rfl, ⟨0, rfl⟩⟩

theorem reachable (h : Calm G x roots s s') :
    Reachable G (view G s'.disk x roots) b ↔ Reachable G (view G s.disk x roots) b := by
  simp only [Reachable, Met, h.trace_eq]

theorem trans (h1 : Calm G x roots s s') (h2 : Calm G x roots s' s'') : Calm G x roots s s'' where
  inv := h2.inv
  trace_eq p := (h2.trace_eq p).trans (h1.trace_eq p)
  live_eq n := (h2.live_eq n).trans (h1.live_eq n)
  data_eq b hb o ho := (h2.data_eq b (h1.reachable.mpr hb) o ho).trans (h1.data_eq b hb o ho)
  inodes n hn y hy := (h2.inodes n hn y hy).trans (h1.inodes n hn y hy)
  dirs g := (h2.dirs g).trans (h1.dirs g)
  heap := heap_shift_trans h1.heap h2.heap

theorem sameData (h : Calm G x roots s s') :
    SameData G (view G s.disk x roots) (view G s'.disk x roots) :=
  fun p o ho => dataAt_congr (h.trace_eq p) fun b hb => h.data_eq b ⟨0, p, hb⟩ o ho

end Calm

section

variable (inv : Inv G s x roots)
include inv

theorem Inv.withHeap (h : Nat → Option Mem) : Inv G { s with heap := h } x roots :=
  ⟨⟨inv.ready.io, inv.ready.geom, inv.ready.wf⟩, inv.matching.withHeap h, inv.reserved, inv.sound,
    inv.sub⟩

theorem Inv.calm_heap (n : Nat) : Calm G x roots s { s with heap := fun i => s.heap (i + n) } :=
  ⟨inv.withHeap _, fun _ => rfl, fun _ => rfl, fun _ _ _ _ => rfl, fun _ _ _ _ => rfl,
    fun _ => rfl, ⟨n, rfl⟩⟩

theorem Inv.calm_next : Calm G x roots s s.next := inv.calm_heap 1

section

variable (hr : Ready G s') (hm : Matching G s') (ho : OnlyBlocks G.blockSize s.disk s'.disk S)
include hr hm ho

/-- 間接 block が変わらず、木の block が使用中のままなら、木は変わらない。 -/
theorem Inv.steady (hS : ∀ b, S b → ∀ h, ¬Met G (view G s.disk x roots) (.block (h + 1) b))
    (hinode : ∀ i < G.objects .inode, marked G s'.disk .inode i = marked G s.disk .inode i)
    (howned : ∀ b, Reachable G (view G s.disk x roots) b → Owned G s.disk b → Owned G s'.disk b)
    (hres : ∀ i < G.objects .block, Metadata G (G.base .block + i) →
      marked G s'.disk .block i = true)
    (hroot : ∀ n k, (view G s.disk x roots).live n = true → k < 14 →
      rootAt G s'.disk n k = 0 ∨ rootAt G s'.disk n k = roots n k) : Inv G s' x roots ∧
      (∀ p, trace G (view G s'.disk x roots) p = trace G (view G s.disk x roots) p) ∧
      ∀ n, liveInode G s'.disk n = liveInode G s.disk n := by
  have hlive := liveInode_congr hinode
  have hview : (view G s'.disk x roots).live = (view G s.disk x roots).live := by
    simp only [view, hlive]
  have htrace : ∀ p, trace G (view G s'.disk x roots) p = trace G (view G s.disk x roots) p := by
    refine fun p => trace_congr fun f i hf => ?_
    match f, hf with
    | .image, _ => simp only [edges, hview]
    | .inode n, _ => rfl
    | .block 0 b, _ => rfl
    | .block (h + 1) b, hf =>
      have hptr : i < G.blockSize / 4 → ptrAt _ _ b i = ptrAt _ _ b i :=
        ptrAt_only hr.wf.size_pos ho fun hb => hS b hb h hf
      by_cases hi : i < G.blockSize / 4
      · simp only [edges, view, hptr hi]
      · simp only [edges, hi, if_false]
  refine ⟨⟨hr, hm, hres, inv.sound.congr htrace howned, ?_⟩, htrace, hlive⟩
  rw [hview]
  exact hroot

/-- 木の外の block だけが変わり、inode の表は変わらなかったとき。 -/
theorem Inv.calm (hS : ∀ b, S b → ¬Reachable G (view G s.disk x roots) b)
    (hinode : ∀ i < G.objects .inode, marked G s'.disk .inode i = marked G s.disk .inode i)
    (howned : ∀ b, Reachable G (view G s.disk x roots) b → Owned G s.disk b → Owned G s'.disk b)
    (hres : ∀ i < G.objects .block, Metadata G (G.base .block + i) →
      marked G s'.disk .block i = true) (hinodes : ∀ n, IsInode G n → ¬S ((inodeSlot G n).block G))
    (hdirs : SameDirs s.fs s'.fs) (hheap : ∃ n, s'.heap = fun i => s.heap (i + n)) :
    Calm G x roots s s' := by
  have hroot : ∀ n k, (view G s.disk x roots).live n = true → k < 14 →
      rootAt G s'.disk n k = 0 ∨ rootAt G s'.disk n k = roots n k := by
    intro n k hn hk
    rw [rootAt_only hr.wf ho (hinodes n (isInode_of_live (view_live.mp hn).1)) hk]
    exact inv.sub n k hn hk
  obtain ⟨inv', htrace, hlive⟩ := inv.steady hr hm ho (fun b hb h hm => hS b hb ⟨_, hm⟩) hinode
    howned hres hroot
  exact ⟨inv', htrace, hlive, fun b hb o ho' => ho.blockAt_eq (fun h => hS b h hb) ho',
    fun n hn y hy => inodeAt_only hr.wf ho (hinodes n hn) hy, hdirs, hheap⟩

end

/-- 届く block は metadata ではない。 -/
theorem Inv.not_metadata (h : Reachable G (view G s.disk x roots) b) : ¬Metadata G b := by
  obtain ⟨_, _, hp⟩ := h
  exact (inv.sound.good hp).2

end

theorem owned_congr {m m' : Mem}
    (hmark : ∀ i < G.objects .block, marked G m' .block i = marked G m .block i) :
    Owned G m b → Owned G m' b :=
  fun h => ⟨(allocated_congr hmark b).mpr h.1, h.2⟩

/-! ## block の割り当てと解放 -/

/-- 使用中だが、木のどこからも指されていない block。 -/
structure Fresh (G : Geom) (s : State) (x : Nat) (roots : Nat → Nat → Nat) (b : Nat) : Prop where
  owned : Owned G s.disk b
  apart : ¬Reachable G (view G s.disk x roots) b

theorem Flipped.metadata {k : Kind} (h : Flipped G k g d flip s s') (hr : Ready G s)
    (hv : 0 < G.validBits k g) :
    ∃ S : Slot → Prop, OnlyBlocks G.blockSize s.disk s'.disk
      (fun b => ∃ σ : Slot, S σ ∧ σ.Valid G ∧ σ.block G = b) ∧ ∀ g j, ¬S (.inodeTable g j) := by
  have hgdt : (Slot.gdt _).Valid G :=
    lt_of_le_of_lt (Nat.div_mul_le_self _ _) (hr.wf.group_lt_of_valid hv)
  refine ⟨fun σ => ∀ g j, σ ≠ .inodeTable g j, h.only.mono ?_, fun g j h => h g j rfl⟩
  rintro b (rfl | rfl | rfl)
  · exact ⟨.bitmap k g, by simp, hv, rfl⟩
  · exact ⟨.super, by simp, trivial, rfl⟩
  · exact ⟨_, by simp, hgdt, rfl⟩

theorem sameDirs_adjust {k : Kind} {fs : Fs} : SameDirs fs (k.pool.adjust fs g d) := by
  intro g'
  apply load_store_of_disjoint
  cases k <;> simp only [Kind.pool, blockPool, inodePool, groupDescSize] <;> omega

/-- block の bitmap の反転は、木の block が使用中のままなら、木を変えない。 -/
theorem Inv.calm_flip (inv : Inv G s x roots) (hf : Flipped G .block g d flip s s')
    (hv : 0 < G.validBits .block g) (hm : Matching G s')
    (howned : ∀ b, Reachable G (view G s.disk x roots) b → Owned G s.disk b → Owned G s'.disk b)
    (hres : ∀ i < G.objects .block, Metadata G (G.base .block + i) →
      marked G s'.disk .block i = true) : Calm G x roots s s' := by
  have wf := inv.ready.wf
  obtain ⟨S, ho, htable⟩ := hf.metadata inv.ready hv
  refine inv.calm (hf.ready inv.ready) hm ho ?_ ?_ howned hres ?_ ?_ hf.heap
  · rintro b ⟨σ, -, hσ, rfl⟩ hb
    exact inv.not_metadata hb ⟨σ, hσ, rfl⟩
  · intro i hi
    rw [hf.marked_eq inv.ready hv hi, if_neg (by simp)]
  · rintro n hn ⟨σ, hσ, hv, hb⟩
    rw [wf.slot_inj σ _ hv (inodeSlot_valid wf hn) hb] at hσ
    exact htable _ _ hσ
  · rw [hf.fs]
    exact sameDirs_adjust

/-- 使用中の block に `b` が加わった。 -/
def Takes (G : Geom) (m m' : Mem) (b : Nat) : Prop :=
  ¬Allocated G m .block b ∧ ∀ b', Allocated G m' .block b' ↔ Allocated G m .block b' ∨ b' = b

/-- 割り当ては、失敗するか、どこからも指されていない block を返す。 -/
theorem Inv.allocBlock (inv : Inv G s x roots) :
    (∃ n, ext2AllocBlock s = (-1, { s with heap := fun i => s.heap (i + n) }) ∧
      (HeapOk s → blockPool.total s.fs = 0)) ∨
    ∃ (b : Nat) (s' : State), ext2AllocBlock s = ((b : Int), s') ∧ Calm G x roots s s' ∧
      Fresh G s' x roots b ∧ Takes G s.disk s'.disk b ∧
      blockPool.total s.fs = blockPool.total s'.fs + 1 := by
  rcases alloc_cases inv.ready
      ((inv.matching.room .block).readable inv.ready)
      ((inv.matching.room .block).numbered inv.ready) with
    ⟨n, h, hfail⟩ | ⟨i, s', hi, hz, h, hf, htotal⟩
  · exact .inl ⟨n, h, fun hok => inv.matching.total_eq_zero (hfail hok (inv.matching.room _))⟩
  right
  have hmark : ∀ j < G.objects .block,
      marked G s'.disk .block j = (decide (j = i) || marked G s.disk .block j) := by
    intro j hj
    rw [marked_alloc hf inv.ready hi hj]
    simp
  have hcalm : Calm G x roots s s' := by
    refine inv.calm_flip hf (by have := inv.ready.wf.bit_lt hi; omega)
      (inv.matching.alloc hf inv.ready hi hz) ?_ ?_
    · rintro b - ⟨⟨j, hj, rfl, hmj⟩, hb⟩
      exact ⟨⟨j, hj, rfl, by rw [hmark j hj, hmj, Bool.or_true]⟩, hb⟩
    · intro j hj hb
      rw [hmark j hj, inv.reserved j hj hb, Bool.or_true]
  have hfree : ¬Allocated G s.disk .block (G.base .block + i) := by
    rintro ⟨j, hj, hij, hmj⟩
    obtain rfl : i = j := by omega
    rw [hmj] at hz
    cases hz
  refine ⟨_, s', h, hcalm, ⟨⟨⟨i, hi, rfl, by rw [hmark i hi]; simp⟩, ?_⟩, ?_⟩, ⟨hfree, ?_⟩, htotal⟩
  · intro hb
    rw [inv.reserved i hi hb] at hz
    cases hz
  · rw [hcalm.reachable]
    rintro ⟨h, p, hp⟩
    exact hfree (inv.sound.good hp).1
  · exact allocated_set hi hmark

theorem Inv.freeBlock (inv : Inv G s x roots) (hb : Fresh G s x roots b) :
    (s.heap 0 = none ∧ ext2FreeBlock s b = (false, s.next)) ∨
    ∃ s', ext2FreeBlock s b = (true, s') ∧ Calm G x roots s s' ∧
      ∀ b', Allocated G s'.disk .block b' ↔ Allocated G s.disk .block b' ∧ b' ≠ b := by
  obtain ⟨⟨⟨i, hi, rfl, hone⟩, hmeta⟩, hapart⟩ := hb
  have he : ext2FreeBlock s _ = Kind.block.pool.free s i :=
    freeOf_eq (k := .block) inv.ready hi
  rw [he]
  rcases free_cases inv.ready hi with ⟨hc, h⟩ | ⟨ho, s', h, hf⟩
  · exact .inl ⟨hc.resolve_right (by simp [hone]), h⟩
  right
  have hmark : ∀ j < G.objects .block,
      marked G s'.disk .block j = (decide (j ≠ i) && marked G s.disk .block j) := by
    intro j hj
    rw [marked_free hf inv.ready hi hj]
    simp
  refine ⟨s', h, ?_, allocated_clear hmark⟩
  refine inv.calm_flip hf (by have := inv.ready.wf.bit_lt hi; omega)
    (inv.matching.free hf inv.ready hi ho) ?_ ?_
  · rintro b hreach ⟨⟨j, hj, rfl, hmj⟩, hb⟩
    have hne : j ≠ i := fun h => hapart (h ▸ hreach)
    exact ⟨⟨j, hj, rfl, by rw [hmark j hj, hmj, decide_eq_true hne]; rfl⟩, hb⟩
  · intro j hj hb
    have hne : j ≠ i := fun h => hmeta (h ▸ hb)
    rw [hmark j hj, inv.reserved j hj hb, decide_eq_true hne]
    rfl

/-! ## 書き込み -/

section

variable (inv : Inv G s x roots)
include inv

/-- metadata でない block への書き込みは、bitmap も inode の表も変えない。 -/
theorem Inv.marks_write (hb : ¬Metadata G b) (buf : Mem) (k : Kind) : ∀ i < G.objects k,
      marked G (putBlock G.blockSize s.disk b buf) k i = marked G s.disk k i := by
  intro i hi
  apply marked_only inv.ready.wf (onlyBlocks_putBlock inv.ready.wf.size_pos) hi
  rintro rfl
  exact hb (metadata_bitmap inv.ready.wf hi)

theorem Inv.roots_write (hb : ¬Metadata G b) {buf : Mem} {n k : Nat} (hn : IsInode G n)
    (hk : k < 14) : rootAt G (putBlock G.blockSize s.disk b buf) n k = rootAt G s.disk n k := by
  apply rootAt_only inv.ready.wf (onlyBlocks_putBlock inv.ready.wf.size_pos) _ hk
  rintro rfl
  exact hb (metadata_inode inv.ready.wf hn)

theorem Inv.calm_write (hb : Fresh G s x roots b) (buf : Mem) :
    Calm G x roots s { s with disk := putBlock G.blockSize s.disk b buf } := by
  have hmark := inv.marks_write hb.owned.2 buf
  refine inv.calm (inv.ready.withDisk _) (inv.matching.quiet (fun _ _ => rfl) (fun _ => rfl) hmark)
    (onlyBlocks_putBlock inv.ready.wf.size_pos) ?_ (hmark _)
    (fun b _ => owned_congr (hmark _)) ?_ ?_ (fun _ => rfl) ⟨0, rfl⟩
  · rintro _ rfl
    exact hb.apart
  · intro i hi h
    rw [show marked G _ _ i = _ from hmark _ i hi]
    exact inv.reserved i hi h
  · rintro n hn rfl
    exact hb.owned.2 (metadata_inode inv.ready.wf hn)

theorem Inv.fresh_write (hb : Fresh G s x roots b) (buf : Mem) :
    Fresh G { s with disk := putBlock G.blockSize s.disk b buf } x roots b :=
  ⟨owned_congr (inv.marks_write hb.owned.2 buf _) hb.owned,
    mt (inv.calm_write hb buf).reachable.mp hb.apart⟩

/-- group の directory の数を、memory の上で変える。 -/
theorem Inv.setUsedDirs (g v : Nat) : Inv G { s with fs := { s.fs with
      groupDescs := setBgUsedDirsCount s.fs.groupDescs g v } } x roots := by
  refine ⟨⟨inv.ready.io, (geom_setBgUsedDirsCount g v).trans inv.ready.geom, inv.ready.wf⟩,
    inv.matching.quiet ?_ (fun _ => rfl) (fun _ _ _ => rfl), inv.reserved, inv.sound, inv.sub⟩
  intro k g'
  apply load_store_of_disjoint
  cases k <;> simp only [Kind.pool, blockPool, inodePool, groupDescSize] <;> omega

theorem Inv.writeGroupDesc (hg : g < G.numGroups) :
    ∃ ok s', ext2WriteGroupDesc s g = (ok, s') ∧ Calm G x roots s s' ∧ s'.fs = s.fs ∧
      ∀ k, ∀ i < G.objects k, marked G s'.disk k i = marked G s.disk k i := by
  have wf := inv.ready.wf
  have hσ : (Slot.gdt _).Valid G :=
    lt_of_le_of_lt (Nat.div_mul_le_self _ _) hg
  obtain ⟨ok, m, h, ho, -⟩ := inv.ready.writeGroupDesc hg
  have hmark : ∀ k, ∀ i < G.objects k, marked G m k i = marked G s.disk k i := by
    intro k i hi
    apply marked_only wf ho hi
    intro hb
    have hv : 0 < G.validBits k (i / G.per k) := by have := wf.bit_lt hi; omega
    cases wf.slot_inj (.bitmap k _) _ hv hσ hb
  refine ⟨ok, _, h, ?_, rfl, hmark⟩
  refine inv.calm ⟨inv.ready.io, inv.ready.geom, wf⟩
    (inv.matching.quiet (fun _ _ => rfl) (fun _ => rfl) hmark) ho ?_ (hmark _)
    (fun b _ => owned_congr (hmark _)) ?_ ?_ (fun _ => rfl) ⟨1, rfl⟩
  · rintro b rfl hb
    exact inv.not_metadata hb ⟨_, hσ, rfl⟩
  · intro i hi h
    rw [show marked G m _ i = _ from hmark _ i hi]
    exact inv.reserved i hi h
  · intro n hn hb
    cases wf.slot_inj _ _ (inodeSlot_valid wf hn) hσ hb

end

end Calm

end Alos.Ext2
