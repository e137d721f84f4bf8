import Alos.Ext2.Mapping

/-!
# file への書き込み

`ext2_write_inode_data` のループは、一周で一つの block に書く。書いた範囲の data は src の通りになり、
ほかの data は変わらない。途中で block か heap が尽きれば、そこまでの大きさを返す。

* `writeInodeData_spec` — `ext2_write_inode_data` の仕様
-/

namespace Alos.Ext2

open Bytes Bitmap

variable {bo len off size w : Nat} {src ino1 : Mem} {s1 s2 : State} {roots1 : Nat → Nat → Nat}

/-! ## file の byte -/

/-- inode `n` の file の `pos` 番目の byte。穴は 0 である。 -/
def fileByte (G : Geom) (v : View) (n pos : Nat) : UInt8 :=
  dataAt G v (pathOf G n (pos / G.blockSize)) (pos % G.blockSize)

section Path

variable {G : Geom} {v : View} {n i j : Nat}

theorem pathOf_cases (G : Geom) (i : Nat) :
    i < 12 ∨ (12 ≤ i ∧ i < 12 + G.ptrs) ∨ 12 + G.ptrs ≤ i := by omega

theorem pathOf_head (G : Geom) (n i : Nat) : (pathOf G n i).head? = some n := by
  rcases pathOf_cases G i with h | ⟨h, h'⟩ | h
  · rw [pathOf_direct h]
    rfl
  · rw [pathOf_single h h']
    rfl
  · rw [pathOf_double h]
    rfl

theorem pathOf_inj (h : pathOf G n i = pathOf G n j) : i = j := by
  rcases pathOf_cases G i with hi | ⟨hi, hi'⟩ | hi <;>
    rcases pathOf_cases G j with hj | ⟨hj, hj'⟩ | hj
  · rw [pathOf_direct hi, pathOf_direct hj] at h
    simpa using h
  · simp [pathOf_direct hi, pathOf_single hj hj'] at h
  · simp [pathOf_direct hi, pathOf_double hj] at h
  · simp [pathOf_single hi hi', pathOf_direct hj] at h
  · rw [pathOf_single hi hi', pathOf_single hj hj'] at h
    simp only [List.cons.injEq, and_true, true_and] at h
    omega
  · simp [pathOf_single hi hi', pathOf_double hj] at h
  · simp [pathOf_double hi, pathOf_direct hj] at h
  · simp [pathOf_double hi, pathOf_single hj hj'] at h
  · rw [pathOf_double hi, pathOf_double hj] at h
    simp only [List.cons.injEq, and_true, true_and] at h
    have : i - 12 - G.ptrs = j - 12 - G.ptrs := by
      rw [← Nat.div_add_mod (i - 12 - G.ptrs) _, h.1, h.2, Nat.div_add_mod]
    omega

theorem pos_eq_of_path (h : pathOf G n (i / G.blockSize) = pathOf G n (j / G.blockSize))
    (hm : i % G.blockSize = j % G.blockSize) : i = j := by
  rw [← Nat.div_add_mod i _, pathOf_inj h, hm, Nat.div_add_mod]

end Path

/-! ## 一つの block -/

section Chunk

variable {G : Geom} {x n b : Nat} {s : State} {roots : Nat → Nat → Nat}

theorem writeChunk_eq (hr : Ready G s) (hb : b < G.blocksCount)
    (hle : bo + len ≤ G.blockSize) {srcOff : Nat} {buf : Mem} :
    ∃ new : Mem, writeChunk s b bo len src srcOff buf
        = (true, new, { s with disk := putBlock G.blockSize s.disk b new }) ∧
      ∀ o < G.blockSize, new o = if bo ≤ o ∧ o < bo + len then src (srcOff + (o - bo))
        else blockAt G.blockSize s.disk b o := by
  unfold writeChunk
  simp only [hr.size]
  by_cases hc : 0 < bo ∨ len < G.blockSize
  · simp only [if_pos hc, hr.read hb, if_true, hr.write hb]
    refine ⟨_, rfl, ?_⟩
    intro o ho
    split
    · rename_i h
      exact blit_apply_of_mem h.1 h.2
    · rw [blit_apply_of_not (by omega)]
      exact blit_block buf _ _ b ho
  · -- block 全体を書くので、先に読まない
    simp only [if_neg hc, hr.write hb]
    refine ⟨_, rfl, ?_⟩
    intro o ho
    rw [if_pos (by omega)]
    exact blit_apply_of_mem (by omega) (by omega)

/-- 木も bitmap も空きの数も変わらなかった。 -/
structure Steady (G : Geom) (x n : Nat) (roots : Nat → Nat → Nat) (s s' : State) : Prop where
  grown : Grown G x n s s' roots roots
  trace_eq : ∀ p, trace G (view G s'.disk x roots) p = trace G (view G s.disk x roots) p
  marks : ∀ k, ∀ i < G.objects k, marked G s'.disk k i = marked G s.disk k i
  fs : s'.fs = s.fs

theorem Stored.steady {ino : Mem} {ok : Bool} {s' : State} (h : Stored G x n roots ino s ok s') :
    Steady G x n roots s s' := ⟨h.grown, h.trace_eq, h.marks, h.fs⟩

theorem Steady.account {s' : State} (h : Steady G x n roots s s') :
    Account G (view G s.disk x roots) (view G s'.disk x roots) :=
  .of_same (allocated_congr (h.marks _)) h.trace_eq

/-- 一つの block への書き込みは、その範囲の data だけを変える。 -/
theorem writeChunk_spec (inv : Inv G s x roots) {p : List Nat}
    (hp : trace G (view G s.disk x roots) p = some (.block 0 b)) (hhead : p.head? = some n)
    (hle : bo + len ≤ G.blockSize) (src : Mem) (srcOff : Nat) (buf : Mem) :
    ∃ buf' s', writeChunk s b bo len src srcOff buf = (true, buf', s') ∧
      Steady G x n roots s s' ∧ ∀ q, ∀ o < G.blockSize, dataAt G (view G s'.disk x roots) q o
        = if q = p ∧ bo ≤ o ∧ o < bo + len then src (srcOff + (o - bo))
          else dataAt G (view G s.disk x roots) q o := by
  have hbo := inv.sound.good hp
  obtain ⟨new, hcall, hnew⟩ := writeChunk_eq inv.ready hbo.lt hle
  obtain ⟨hg, htr, hdata⟩ := inv.write_data hp hhead new
  refine ⟨new, _, hcall, ⟨hg, htr, inv.marks_write hbo.2 new, rfl⟩, ?_⟩
  intro q o ho
  rw [hdata q o ho]
  by_cases hq : q = p
  · subst hq
    rw [if_pos rfl, hnew o ho, dataAt_block hp]
    simp only [true_and, view]
  · rw [if_neg hq, if_neg fun h => hq h.1]

end Chunk

/-! ## 範囲の書き込み -/

/-- file の `[lo, hi)` が `src` になった。`src` の先頭は file の `base` に当たる。 -/
structure Written (G : Geom) (n lo hi base : Nat) (src : Mem) (heapOk : Prop) (v v' : View) :
    Prop where
  inside : ∀ pos, lo ≤ pos → pos < hi → fileByte G v' n pos = src (pos - base)
  present : ∀ pos, lo ≤ pos → pos < hi → trace G v' (pathOf G n (pos / G.blockSize)) ≠ none
  outside : ∀ q, ∀ o < G.blockSize, heapOk ∨ trace G v q ≠ none → (∀ pos, lo ≤ pos → pos < hi →
      ¬(q = pathOf G n (pos / G.blockSize) ∧ o = pos % G.blockSize)) →
    dataAt G v' q o = dataAt G v q o

section Written

variable {G : Geom} {n lo mid hi base : Nat} {src : Mem} {P : Prop} {v v' v'' : View}

theorem Written.empty (h : hi ≤ lo) : Written G n lo hi base src P v v :=
  ⟨fun _ h1 h2 => by omega, fun _ h1 h2 => by omega, fun _ _ _ _ _ => rfl⟩

theorem Written.trans (wf : G.Wf) (hlo : lo ≤ mid) (hhi : mid ≤ hi)
    (h1 : Written G n lo mid base src P v v') (h2 : Written G n mid hi base src P v' v'')
    (hmono : ∀ p f, trace G v p = some f → trace G v' p = some f)
    (hmono' : ∀ p f, trace G v' p = some f → trace G v'' p = some f) :
    Written G n lo hi base src P v v'' where
  inside pos hp1 hp2 := by
    by_cases hm : pos < mid
    · refine Eq.trans (h2.outside _ _ (Nat.mod_lt _ wf.size_pos) (.inr (h1.present pos hp1 hm)) ?_)
        (h1.inside pos hp1 hm)
      rintro pos' h3 h4 ⟨hp, ho⟩
      have := pos_eq_of_path hp ho
      omega
    · exact h2.inside pos (by omega) hp2
  present pos hp1 hp2 := by
    by_cases hm : pos < mid
    · obtain ⟨f, hf⟩ := Option.ne_none_iff_exists'.mp (h1.present pos hp1 hm)
      simp [hmono' _ f hf]
    · exact h2.present pos (by omega) hp2
  outside q o ho hq hne := by
    refine Eq.trans (h2.outside q o ho ?_ fun pos h3 h4 => hne pos (by omega) h4)
      (h1.outside q o ho hq fun pos h3 h4 => hne pos h3 (by omega))
    rcases hq with hq | hq
    · exact .inl hq
    · obtain ⟨f, hf⟩ := Option.ne_none_iff_exists'.mp hq
      exact .inr (by simp [hmono q f hf])

theorem Written.mono {P' : Prop} (h : Written G n lo hi base src P v v') (hP : P' → P) :
    Written G n lo hi base src P' v v' :=
  ⟨h.inside, h.present, fun q o ho hq => h.outside q o ho (hq.imp_left hP)⟩

end Written

/-! ## ループ -/

section Loop

variable {G : Geom} {x n : Nat} {s s' : State} {roots roots' : Nat → Nat → Nat} {ino ino' : Mem}

theorem iBlock_growSize (ino : Mem) (off w k : Nat) :
    iBlock (growSize ino off w) k = iBlock ino k := by
  unfold growSize
  split
  · exact load_store_of_disjoint (by omega)
  · rfl

theorem Exact.growSize (he : Exact ino roots n) (off w : Nat) :
    Exact (growSize ino off w) roots n :=
  fun k hk => (iBlock_growSize ino off w k).trans (he k hk)

theorem iSize_growSize : iSize (growSize ino off w)
    = if iSize ino < (off + w) % 2 ^ 32 then (off + w) % 2 ^ 32 else iSize ino := by
  unfold growSize iSize
  split
  · exact load_store_self (Nat.mod_lt _ (by decide))
  · rfl

theorem le_iSize_growSize (ino : Mem) (off w : Nat) (h : off + w < 2 ^ 32) :
    off + w ≤ iSize (growSize ino off w) := by
  rw [iSize_growSize]
  split <;> omega

/-- 書く範囲の block は、どれも既にある。 -/
def Allocd (G : Geom) (v : View) (n lo hi : Nat) : Prop :=
  ∀ pos, lo ≤ pos → pos < hi → trace G v (pathOf G n (pos / G.blockSize)) ≠ none

/-- `w` byte で終わったとき、書けた分の大きさの inode が disk にある。 -/
def Flushed (G : Geom) (n off : Nat) (m ino : Mem) (w : Nat) : Prop :=
  (off + w < 2 ^ 32 → off + w ≤ iSize ino) ∧ ∀ y < inodeStructSize, inodeAt G m n y = ino y

/-- ループが `w` byte 書いたところから始まって終わったときに成り立つこと。 -/
structure Progress (G : Geom) (x n off size : Nat) (src : Mem) (w : Nat) (s s' : State)
    (roots roots' : Nat → Nat → Nat) (ino ino' : Mem) (r : Option Int) : Prop where
  grown : Grown G x n s s' roots roots'
  account : Account G (view G s.disk x roots) (view G s'.disk x roots')
  exact : Exact ino' roots' n
  /-- `w'` byte まで書けた。 -/
  reached : ∃ w', w ≤ w' ∧ Written G n (off + w) (off + w') off src (HeapOk s)
      (view G s.disk x roots) (view G s'.disk x roots') ∧ (r = none → w' = max w size) ∧
    ∀ v, r = some v → w' < size ∧ v = partialResult w' ∧
      (HeapOk s → 0 < w' → Flushed G n off s'.disk ino' w')
  rest : r = none → ∀ y, y < 40 ∨ 100 ≤ y → ino' y = ino y
  direct : off + size ≤ 12 * G.blockSize → ∀ k, 12 ≤ k → roots' n k = roots n k
  /-- block が揃っていれば、何も割り当てない。 -/
  quiet : Allocd G (view G s.disk x roots) n (off + w) (off + size) → roots' = roots ∧
    (∀ p, trace G (view G s'.disk x roots') p = trace G (view G s.disk x roots) p) ∧
    (∀ k, ∀ i < G.objects k, marked G s'.disk k i = marked G s.disk k i) ∧ s'.fs = s.fs ∧
    (r = none → ino' = ino)
  /-- 最後の block のほかが揃っていて、足りない block だけの空きがあれば、最後まで書ける。 -/
  complete : HeapOk s → (∀ pos, off + w ≤ pos → pos < off + size →
      trace G (view G s.disk x roots) (pathOf G n (pos / G.blockSize)) ≠ none ∨
      (pos / G.blockSize = (off + size - 1) / G.blockSize ∧ pos / G.blockSize < G.mapLimit ∧
        G.BootReserved ∧ lacking G (view G s.disk x roots) n (pos / G.blockSize)
          ≤ blockPool.total s.fs)) → r = none
  /-- 直接 block が揃っていれば、`kmalloc` に失敗しても最後まで書ける。 -/
  fed : off + size ≤ 12 * G.blockSize →
    Allocd G (view G s.disk x roots) n (off + w) (off + size) → r = none

theorem Progress.done (inv : Inv G s x roots)
    (he : Exact ino roots n) (hw : size ≤ w) :
    Progress G x n off size src w s s roots roots ino ino none where
  grown := (Calm.refl inv).grown
  account := .refl
  exact := he
  reached := ⟨w, le_refl w, .empty (le_refl _), fun _ => (max_eq_left hw).symm,
    fun _ h => by cases h⟩
  rest _ _ _ := rfl
  direct _ _ _ := rfl
  quiet _ := ⟨rfl, fun _ => rfl, fun _ _ _ => rfl, rfl, fun _ => rfl⟩
  complete _ _ := rfl
  fed _ _ := rfl

theorem direct_index (hbs : 0 < G.blockSize) (hw : w < size) (hle : off + size ≤ 12 * G.blockSize) :
    (off + w) / G.blockSize < 12 := by
  rw [Nat.div_lt_iff_lt_mul hbs]
  omega

/-- block が得られずに終わる。inode は、書けた分だけ書き出されることもある。 -/
theorem Progress.fail {idx c : Nat}
    (hw : w < size) (hidx : (off + w) / G.blockSize = idx)
    (hg : Got G x n c s s1 roots roots1 ino ino1 (pathOf G n idx) 0 0)
    (hc : idx < G.mapLimit → c ≤ lacking G (view G s.disk x roots) n idx)
    (hdirect : idx < 12 → (trace G (view G s.disk x roots) (pathOf G n idx) ≠ none → 0 ≠ 0) ∧
      ∀ k, k ≠ idx → roots1 n k = roots n k) (hst : Steady G x n roots1 s1 s')
    (hdata : SameData G (view G s1.disk x roots1) (view G s'.disk x roots1))
      (he : Exact ino' roots1 n)
    (hflush : HeapOk s → 0 < w → Flushed G n off s'.disk ino' w) :
    Progress G x n off size src w s s' roots roots1 ino ino' (some (partialResult w)) where
  grown := hg.extended.grown.trans hst.grown
  account := hg.extended.account.trans hst.account hst.grown.trace_mono
  exact := he
  reached := by
    refine ⟨w, le_refl w, ⟨fun _ _ _ => by omega, fun _ _ _ => by omega, fun q o ho hq _ => ?_⟩,
      fun h => (by cases h), fun v h => ⟨hw, (Option.some.inj h).symm, hflush⟩⟩
    exact (hdata q o ho).trans (hg.extended.data q o ho hq)
  rest h := by cases h
  direct hle k hk := by
    have h12 := direct_index hst.grown.inv.ready.wf.size_pos hw hle
    exact (hdirect (hidx ▸ h12)).2 k (by omega)
  quiet hall := by
    have h0 := hall _ (le_refl _) (by omega)
    rw [hidx] at h0
    obtain ⟨rfl, rfl, ⟨i, rfl⟩, -⟩ := hg.idle h0
    exact ⟨rfl, hst.trace_eq, hst.marks, hst.fs, fun h => by cases h⟩
  complete hok hall := by
    exfalso
    have h0 := hall _ (le_refl _) (by omega)
    rw [hidx] at h0
    rcases h0 with h | ⟨-, hlim, hboot, h3⟩
    · exact (hg.idle h).2.2.2 hok rfl
    · exact hg.enough.found hok hboot (le_trans (hc hlim) h3) rfl
  fed hle hall := by
    have h0 := hall _ (le_refl _) (by omega)
    rw [hidx] at h0
    have h12 := direct_index hst.grown.inv.ready.wf.size_pos hw hle
    exact absurd rfl ((hdirect (hidx ▸ h12)).1 h0)

/-- 一つの block に書いた後は、その範囲だけが書き換わっている。 -/
theorem Extended.written {bi b : Nat} (hext : Extended G x n s s1 roots roots1 ino ino1)
    (hpos : bi * G.blockSize + bo = off + w) (hle : bo + len ≤ G.blockSize)
    (hp : trace G (view G s1.disk x roots1) (pathOf G n bi) = some (.block 0 b))
    (hst : Steady G x n roots1 s1 s2)
    (hdata : ∀ q, ∀ o < G.blockSize, dataAt G (view G s2.disk x roots1) q o
      = if q = pathOf G n bi ∧ bo ≤ o ∧ o < bo + len then src (w + (o - bo))
        else dataAt G (view G s1.disk x roots1) q o) :
    Written G n (off + w) (off + (w + len)) off src (HeapOk s) (view G s.disk x roots)
      (view G s2.disk x roots1) := by
  have hbs := hext.grown.inv.ready.wf.size_pos
  -- 範囲の中の位置は、block `bi` の中にある
  have hdiv : ∀ pos, off + w ≤ pos → pos < off + (w + len) → pos / G.blockSize = bi ∧
      pos % G.blockSize = bo + (pos - (off + w)) := by
    intro pos h1 h2
    have he : pos = bi * G.blockSize + (bo + (pos - (off + w))) := by omega
    have hlt : bo + (pos - (off + w)) < G.blockSize := by omega
    constructor
    · conv => lhs; rw [he]
      exact block_div hbs hlt
    · conv => lhs; rw [he, Nat.mul_comm, Nat.mul_add_mod, Nat.mod_eq_of_lt hlt]
  refine ⟨?_, ?_, ?_⟩
  · intro pos h1 h2
    obtain ⟨hd, hm⟩ := hdiv pos h1 h2
    rw [fileByte, hd, hdata _ _ (by omega), if_pos ⟨rfl, by omega, by omega⟩]
    congr 1
    omega
  · intro pos h1 h2
    rw [(hdiv pos h1 h2).1, hst.trace_eq, hp]
    simp
  · intro q o ho hq hne
    rw [hdata q o ho, if_neg]
    · exact hext.data q o ho hq
    · rintro ⟨rfl, h1, h2⟩
      have hb := hdiv (bi * G.blockSize + o) (by omega) (by omega)
      refine hne (bi * G.blockSize + o) (by omega) (by omega) ⟨by rw [hb.1], ?_⟩
      omega

/-- 一つの block に書いて、残りに進む。 -/
theorem Progress.step {bi b c : Nat} {r : Option Int}
    (hw : w < size) (hpos : bi * G.blockSize + bo = off + w) (hbo : bo < G.blockSize)
    (hlen : len = min (G.blockSize - bo) (size - w))
    (hgot : Got G x n c s s1 roots roots1 ino ino1 (pathOf G n bi) 0 b) (hb : b ≠ 0)
    (hdirect : bi < 12 → (trace G (view G s.disk x roots) (pathOf G n bi) ≠ none → b ≠ 0) ∧
      ∀ k, k ≠ bi → roots1 n k = roots n k) (hst : Steady G x n roots1 s1 s2)
    (hdata : ∀ q, ∀ o < G.blockSize, dataAt G (view G s2.disk x roots1) q o
      = if q = pathOf G n bi ∧ bo ≤ o ∧ o < bo + len then src (w + (o - bo))
        else dataAt G (view G s1.disk x roots1) q o)
    (ih : Progress G x n off size src (w + len) s2 s' roots1 roots' ino1 ino' r) :
    Progress G x n off size src w s s' roots roots' ino ino' r := by
  have hext := hgot.extended
  have wf := hext.grown.inv.ready.wf
  have hbs := wf.size_pos
  have hidx : (off + w) / G.blockSize = bi := by
    rw [← hpos]
    exact block_div hbs hbo
  have hg := hext.grown.trans hst.grown
  refine ⟨hg.trans ih.grown, ?_, ih.exact, ?_, ?_, ?_, ?_, ?_, ?_⟩
  · exact (hext.account.trans hst.account hst.grown.trace_mono).trans ih.account ih.grown.trace_mono
  · obtain ⟨w', hle, hwr, hnone, hsome⟩ := ih.reached
    refine ⟨w', by omega, ?_, fun h => by have := hnone h; omega, fun v hv => ?_⟩
    · exact (hext.written hpos (by omega) (hgot.reached hb) hst hdata).trans wf
        (by omega) (by omega)
        (hwr.mono fun hok => hok.shift hg.heap) hg.trace_mono ih.grown.trace_mono
    · obtain ⟨h1, h2, h3⟩ := hsome v hv
      exact ⟨h1, h2, fun hok => h3 (hok.shift hg.heap)⟩
  · intro hr y hy
    exact (ih.rest hr y hy).trans (hext.rest y hy)
  · intro hle k hk
    have h12 := direct_index hbs hw hle
    exact (ih.direct hle k hk).trans ((hdirect (hidx ▸ h12)).2 k (by omega))
  · intro hall
    have h0 := hall _ (le_refl _) (by omega)
    rw [hidx] at h0
    obtain ⟨rfl, rfl, ⟨i, rfl⟩, -⟩ := hgot.idle h0
    obtain ⟨h1, h2, h3, h4, h5⟩ := ih.quiet fun pos hp1 hp2 => by
      rw [hst.trace_eq]
      exact hall pos (by omega) hp2
    exact ⟨h1, fun p => (h2 p).trans (hst.trace_eq p),
      fun k i hi => (h3 k i hi).trans (hst.marks k i hi), h4.trans hst.fs, h5⟩
  · intro hok hall
    by_cases hend : size ≤ w + len
    · -- 最後の block だった
      exact ih.complete (hok.shift hg.heap) fun pos h1 h2 => by omega
    have hlt : bi < (off + size - 1) / G.blockSize := by
      have : bi + 1 ≤ (off + size - 1) / G.blockSize := by
        rw [Nat.le_div_iff_mul_le hbs, Nat.succ_mul]
        omega
      omega
    have h0 := hall _ (le_refl _) (by omega)
    rw [hidx] at h0
    have hpres := h0.resolve_right fun h => by omega
    obtain ⟨rfl, rfl, ⟨i, rfl⟩, -⟩ := hgot.idle hpres
    refine ih.complete (hok.shift hg.heap) fun pos h1 h2 => ?_
    rw [hst.trace_eq, hst.fs, lacking_congr hst.trace_eq]
    exact hall pos (by omega) h2
  · intro hle hall
    have h0 := hall _ (le_refl _) (by omega)
    rw [hidx] at h0
    obtain ⟨rfl, rfl, ⟨i, rfl⟩, -⟩ := hgot.idle h0
    refine ih.fed hle fun pos h1 h2 => ?_
    rw [hst.trace_eq]
    exact hall pos (by omega) h2

/-- **書き込みのループは、書いた範囲だけを変え、木を健全に保つ。** -/
theorem writeLoop_spec (off size : Nat) (src : Mem) : ∀ (fuel : Nat) {s : State} {ino : Mem}
    {roots : Nat → Nat → Nat} (bi bo w : Nat) (buf : Mem), Inv G s x roots →
    (view G s.disk x roots).live n = true → Exact ino roots n → size - w ≤ fuel →
    (w < size → bi * G.blockSize + bo = off + w ∧ bo < G.blockSize) →
    ∃ r ino' s' roots', writeLoop n off size src fuel s ino bi bo w buf = (r, ino', s') ∧
      Progress G x n off size src w s s' roots roots' ino ino' r := by
  intro fuel
  induction fuel with
  | zero =>
    intro s ino roots bi bo w buf inv hn he hfuel hpos
    exact ⟨none, ino, s, roots, rfl, .done inv he (by omega)⟩
  | succ fuel ih =>
    intro s ino roots bi bo w buf inv hn he hfuel hpos
    unfold writeLoop
    by_cases hw : w < size
    · obtain ⟨hpos, hbo⟩ := hpos hw
      have hidx : (off + w) / G.blockSize = bi := by
        rw [← hpos]
        exact block_div inv.ready.wf.size_pos hbo
      obtain ⟨b, ino1, s1, roots1, c, hget, hgot, hc, hdirect⟩ := getBlock_spec inv hn he bi
      have hext := hgot.extended
      have hn1 := hext.live hn
      rw [if_pos hw]
      simp only [hget]
      by_cases hb0 : b = 0
      · subst hb0
        by_cases hw0 : 0 < w
        · rw [if_pos hw0]
          have hex := hext.exact.growSize off w
          obtain ⟨ok, s2, hwrite, hst⟩ := hext.grown.inv.writeInode
            (isInode_of_live (view_live.mp hn1).1) _ (fun _ k hk => .inr (hex k hk))
          simp only [hwrite]
          exact ⟨_, _, _, _, rfl, .fail hw hidx hgot hc hdirect hst.steady hst.data hex fun hok _ =>
            ⟨le_iSize_growSize ino1 off w,
              hst.written (hst.ok_of_heap (hok.shift hext.grown.heap))⟩⟩
        · rw [if_neg hw0]
          exact ⟨_, _, _, _, rfl, .fail hw hidx hgot hc hdirect
            ⟨(Calm.refl hext.grown.inv).grown, fun _ => rfl, fun _ _ _ => rfl, rfl⟩
            (fun _ _ _ => rfl) hext.exact fun _ h => absurd h hw0⟩
      · rw [if_neg hb0]
        simp only [hext.grown.inv.ready.size]
        have hle : bo + min (G.blockSize - bo) (size - w) ≤ G.blockSize := by omega
        obtain ⟨buf', s2, hchunk, hst, hdata⟩ := writeChunk_spec hext.grown.inv (hgot.reached hb0)
          (pathOf_head G n bi) hle src w buf
        simp only [hchunk, if_true]
        have hn2 : (view G s2.disk x roots1).live n = true := by
          rw [view_live, hst.grown.live_eq]
          exact view_live.mp hn1
        obtain ⟨r, ino', s', roots', hrest, hprog⟩ := ih (bi + 1) 0
          (w + min (G.blockSize - bo) (size - w)) buf' hst.grown.inv hn2 hext.exact (by omega) (by
            rw [Nat.succ_mul]
            omega)
        exact ⟨r, ino', s', roots', hrest, hprog.step hw hpos hbo rfl hgot hb0 hdirect hst hdata⟩
    · rw [if_neg hw]
      exact ⟨none, ino, s, roots, rfl, .done inv he (by omega)⟩

end Loop

/-! ## `ext2_write_inode_data` -/

/-- 全体を書き終え、inode も書き出した。 -/
structure Completed (G : Geom) (x n off size : Nat) (src : Mem) (s s' : State)
    (roots roots' : Nat → Nat → Nat) (ino ino' : Mem) : Prop where
  written : Written G n off (off + size) off src (HeapOk s) (view G s.disk x roots)
    (view G s'.disk x roots')
  size_eq : iSize ino' = if iSize ino < (off + size) % 2 ^ 32 then (off + size) % 2 ^ 32
    else iSize ino
  /-- `i_size`、`i_blocks`、`i_block` のほかは変わらない。 -/
  rest : ∀ y, y < 4 ∨ (8 ≤ y ∧ y < 28) ∨ (32 ≤ y ∧ y < 40) ∨ 100 ≤ y → ino' y = ino y
  stored : ∀ y < inodeStructSize, inodeAt G s'.disk n y = ino' y

/-- 書き込みの結果。`r` は戻り値である。 -/
structure Outcome (G : Geom) (x n off size : Nat) (src : Mem) (s s' : State)
    (roots roots' : Nat → Nat → Nat) (ino ino' : Mem) (r : Int) : Prop where
  grown : Grown G x n s s' roots roots'
  account : Account G (view G s.disk x roots) (view G s'.disk x roots')
  exact : Exact ino' roots' n
  done : r = size → 0 < size → Completed G x n off size src s s' roots roots' ino ino'
  /-- 途中までの戻り値の分も、disk にある。 -/
  short : HeapOk s → 0 < r → r ≠ size → ∃ w : Nat, r = w ∧ Flushed G n off s'.disk ino' w ∧
    Written G n off (off + w) off src (HeapOk s) (view G s.disk x roots) (view G s'.disk x roots')
  direct : off + size ≤ 12 * G.blockSize → ∀ k, 12 ≤ k → roots' n k = roots n k
  quiet : Allocd G (view G s.disk x roots) n off (off + size) → roots' = roots ∧
    (∀ p, trace G (view G s'.disk x roots') p = trace G (view G s.disk x roots) p) ∧
    (∀ k, ∀ i < G.objects k, marked G s'.disk k i = marked G s.disk k i) ∧ s'.fs = s.fs
  complete : HeapOk s → size < 2 ^ 31 → (∀ pos, off ≤ pos → pos < off + size →
      trace G (view G s.disk x roots) (pathOf G n (pos / G.blockSize)) ≠ none ∨
      (pos / G.blockSize = (off + size - 1) / G.blockSize ∧ pos / G.blockSize < G.mapLimit ∧
        G.BootReserved ∧ lacking G (view G s.disk x roots) n (pos / G.blockSize)
          ≤ blockPool.total s.fs)) → r = size
  /-- 直接 block が揃っていれば、途中では終わらない。 -/
  fed : off + size ≤ 12 * G.blockSize → Allocd G (view G s.disk x roots) n off (off + size) →
    size < 2 ^ 31 → r = size ∨ r = -1

section Write

variable {G : Geom} {x n : Nat} {s s' : State} {roots roots' : Nat → Nat → Nat} {ino ino' : Mem}

/-- 書き終えた後の inode。 -/
def finishInode (fs : Fs) (ino : Mem) (off size : Nat) : Mem :=
  setIBlocks (growSize ino off size) (usedSectors fs (growSize ino off size))

theorem iSize_finishInode (fs : Fs) (ino : Mem) (off size : Nat) :
    iSize (finishInode fs ino off size) = if iSize ino < (off + size) % 2 ^ 32
      then (off + size) % 2 ^ 32 else iSize ino := by
  rw [← iSize_growSize]
  exact load_store_of_disjoint (by omega)

theorem Exact.finishInode (he : Exact ino roots n) (fs : Fs) (off size : Nat) :
    Exact (finishInode fs ino off size) roots n := by
  intro k hk
  rw [← he k hk, ← iBlock_growSize ino off size k]
  exact load_store_of_disjoint (by omega)

theorem finishInode_rest (fs : Fs) (ino : Mem) (off size : Nat) {y : Nat}
    (hy : y < 4 ∨ (8 ≤ y ∧ y < 28) ∨ 32 ≤ y) : finishInode fs ino off size y = ino y := by
  refine (store_apply_of_not (by omega)).trans ?_
  unfold growSize
  split
  · exact store_apply_of_not (by omega)
  · rfl

theorem partialResult_ne (hw : w < size) (hsize : size < 2 ^ 32) : partialResult w ≠ size := by
  unfold partialResult toInt32
  split
  · split <;> omega
  · omega

theorem partialResult_pos (hr : 0 < partialResult w) (hw : w < 2 ^ 32) :
    0 < w ∧ partialResult w = w := by
  unfold partialResult toInt32 at *
  split_ifs at * <;> omega

/-- **`ext2_write_inode_data` は、途中で失敗しても木を健全に保ち、全体を書けばその範囲だけを変える。** -/
theorem writeInodeData_spec (inv : Inv G s x roots) (hn : (view G s.disk x roots).live n = true)
    (he : Exact ino roots n) (off : Nat) (hsize : size < 2 ^ 32) (src : Mem) :
    ∃ r ino' s' roots', ext2WriteInodeData s ino n off size src = (r, ino', s') ∧
      Outcome G x n off size src s s' roots roots' ino ino' r := by
  have hstay : ∀ (i : Nat) (r : Int), ¬0 < r → (r = size → 0 < size → False) →
      (HeapOk s → size < 2 ^ 31 → r = size) → (r = size ∨ r = -1) →
      Outcome G x n off size src s { s with heap := fun j => s.heap (j + i) } roots roots ino ino
        r := by
    intro i r hr hdone hcomp hfed
    exact ⟨(inv.calm_heap i).grown, .refl, he, fun h h0 => (hdone h h0).elim,
      fun _ h => absurd h hr, fun _ _ _ => rfl, fun _ => ⟨rfl, fun _ => rfl, fun _ _ _ => rfl, rfl⟩,
      fun hok hlt _ => hcomp hok hlt, fun _ _ _ => hfed⟩
  unfold ext2WriteInodeData
  by_cases h0 : size = 0
  · subst h0
    exact ⟨0, ino, s, roots, rfl, hstay 0 0 (by decide) (fun _ h => absurd h (by decide))
      (fun _ _ => rfl) (.inl rfl)⟩
  rw [if_neg h0, kmalloc_eq]
  cases hheap : s.heap 0 with
  | none =>
    exact ⟨-1, ino, s.next, roots, rfl, hstay 1 (-1) (by decide) (fun h => by omega)
      (fun hok => absurd hheap hok.head_ne_none) (.inr rfl)⟩
  | some buf =>
    have hc := inv.calm_next
    have hbs := inv.ready.wf.size_pos
    obtain ⟨r, ino1, s1, roots1, hloop, hp⟩ := writeLoop_spec off size src size
      _ _ 0 buf hc.inv hn he (by omega) (fun _ =>
        ⟨by rw [Nat.mul_comm]; exact Nat.div_add_mod off _, Nat.mod_lt _ hbs⟩)
    simp only [hc.inv.ready.size, hloop]
    have hg : Grown G x n s s1 _ _ := hc.grown.trans hp.grown
    cases r with
    | some v =>
      obtain ⟨w, -, hwr, -, hsome⟩ := hp.reached
      obtain ⟨hw, rfl, hflush⟩ := hsome v rfl
      refine ⟨_, ino1, s1, roots1, rfl, hg, hp.account, hp.exact,
        fun h => absurd h (partialResult_ne hw hsize), fun hok hr _ => ?_, hp.direct, ?_, ?_, ?_⟩
      · obtain ⟨h0, he⟩ := partialResult_pos hr (lt_trans hw hsize)
        exact ⟨w, he, hflush hok.next h0, hwr.mono HeapOk.next⟩
      · intro hall
        obtain ⟨h1, h2, h3, h4, -⟩ := hp.quiet hall
        exact ⟨h1, h2, h3, h4⟩
      · intro hok _ hall
        cases hp.complete hok.next hall
      · intro hle hall
        cases hp.fed hle hall
    | none =>
      have hex := hp.exact.finishInode s1.fs off size
      have hn1 : (view G s1.disk x roots1).live n = true := by
        rw [view_live, hg.live_eq]
        exact view_live.mp hn
      obtain ⟨ok, s2, hwrite, hst⟩ := hp.grown.inv.writeInode
        (isInode_of_live (view_live.mp hn1).1) _
        (fun _ k hk => .inr (hex k hk))
      have hwrite' : ext2WriteInode s1 n (setIBlocks _ _) = (ok, s2) := hwrite
      simp only [hwrite']
      have hret : HeapOk s → size < 2 ^ 31 → (if ok then toInt32 size else -1) = (size : Int) := by
        intro hok hlt
        rw [hst.ok_of_heap (hok.shift hg.heap), if_pos rfl, toInt32_of_lt hlt]
      refine ⟨_, _, s2, roots1, rfl, hg.trans hst.grown, ?_, hex, ?_, ?_, hp.direct, ?_,
        fun hok hlt _ => hret hok hlt, fun _ _ hlt => ?_⟩
      · exact Account.trans hp.account hst.steady.account hst.grown.trace_mono
      · intro hr hpos
        cases ok with
        | false => simp at hr
        | true =>
          have hrest := hp.rest rfl
          have hsz : iSize ino1 = iSize ino := load_congr fun y _ hy => hrest y (by omega)
          refine ⟨?_, ?_, ?_, hst.written rfl⟩
          · obtain ⟨w, -, hw, hnone, -⟩ := hp.reached
            obtain rfl : w = size := (hnone rfl).trans (max_eq_right (Nat.zero_le _))
            refine (hw.mono (HeapOk.next (s := s))).trans inv.ready.wf (Nat.le_add_right _ _)
              (le_refl _) ?_
              hp.grown.trace_mono hst.grown.trace_mono
            refine ⟨fun _ h1 h2 => by omega, fun _ h1 h2 => by omega, ?_⟩
            intro q o ho _ _
            exact hst.data q o ho
          · rw [← hsz]
            exact iSize_finishInode _ ino1 off size
          · intro y hy
            exact (finishInode_rest _ ino1 off size (by omega)).trans (hrest y (by omega))
      · intro hok hr hne
        cases ok with
        | false => simp at hr
        | true =>
          exact absurd (toInt32_of_lt (by unfold toInt32 at hr; split at hr <;> omega)) hne
      · intro hall
        obtain ⟨h1, h2, h3, h4, -⟩ := hp.quiet hall
        exact ⟨h1, fun p => (hst.trace_eq p).trans (h2 p),
          fun k i hi => (hst.marks k i hi).trans (h3 k i hi), hst.fs.trans h4⟩
      · cases ok with
        | false => exact .inr rfl
        | true => exact .inl (toInt32_of_lt hlt)

end Write

end Alos.Ext2
