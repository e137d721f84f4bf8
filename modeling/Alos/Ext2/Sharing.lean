import Alos.Ext2.Directory

/-!
# 同じ inode の複数の node

`ext2_create_node` は、引くたびに inode の写しを持つ新しい node を作る。`ext2_vfs_write` は、自分の写しに
`i_size` と `i_block` を書き込み、写しごと disk に書き戻す。別の node が先に書いていれば、その大きさと pointer は失われる。

* `shared_writes_kept` — 写しの pointer が disk の通りで、大きさを縮めない書き込みだけなら、最後に書いた値が読める
* `write_flushed` — 転送が失敗しなければ、途中までの書き込みも、返した長さの分は disk にある
* `stale_node_truncates` — 古い写しの node が書くと、ほかの node が書いた data は file の外になる
-/

namespace Alos.Ext2

open Bytes Bitmap Function Option

/-! ## node を引き、書く -/

/-- 書き込みの記録。 -/
structure Write where
  off : Nat
  size : Nat
  src : Mem

/-- `pos` に最後に書かれた値。記録は新しい順に並ぶ。 -/
def lastValue : List Write → Nat → Option UInt8
  | [], _ => none
  | w :: ws, pos =>
    if w.off ≤ pos ∧ pos < w.off + w.size then some (w.src (pos - w.off)) else lastValue ws pos

/-- 一つの inode の node が、`ι` の数だけある。 -/
structure Sharing (ι : Type) where
  fs : State
  node : ι → Option Node
  log : List Write

inductive SharingOp (ι : Type) where
  | lookup (i : ι)
  | write (i : ι) (off size : Nat) (src : Mem)

section Step

variable {ι : Type} [DecidableEq ι]

def Sharing.init (s : State) : Sharing ι := ⟨s, fun _ => none, []⟩

/-- node を引くか、全体を書き終える。 -/
def sharingStep (n : Nat) (st : Sharing ι) : SharingOp ι → Option (Sharing ι)
  | .lookup i =>
    match ext2CreateNode st.fs n with
    | (some node, s) => some { st with fs := s, node := Function.update st.node i (some node) }
    | (none, _) => none
  | .write i off size src =>
    match st.node i with
    | some node =>
      match ext2VfsWrite st.fs node off size src with
      | (r, node, s) =>
        if r = size then
          some ⟨s, Function.update st.node i (some node), ⟨off, size, src⟩ :: st.log⟩
        else none
    | none => none

/-- 写しの pointer は disk の通りで、書いた後の大きさは disk の大きさより小さくならない。 -/
def UpToDate (G : Geom) (m : Mem) (n : Nat) (ino : Mem) (off size : Nat) : Prop :=
  (∀ k < 14, iBlock ino k = rootAt G m n k) ∧
    iSize (inodeAt G m n) ≤ max (iSize ino) (off + size) ∧ off + size < 2 ^ 32

instance (G : Geom) (m : Mem) (n : Nat) (ino : Mem) (off size : Nat) :
    Decidable (UpToDate G m n ino off size) := inferInstanceAs (Decidable (_ ∧ _ ∧ _))

/-- どの書き込みも、古くなっていない node からである。 -/
def Current (G : Geom) (n : Nat) (st : Sharing ι) : SharingOp ι → Prop
  | .lookup _ => True
  | .write i off size _ => ∀ node ∈ st.node i, UpToDate G st.fs.disk n node.inode off size

instance (G : Geom) (n : Nat) (st : Sharing ι) : ∀ op, Decidable (Current G n st op)
  | .lookup _ => isTrue trivial
  | .write i off size _ =>
    inferInstanceAs (Decidable (∀ node ∈ st.node i, UpToDate G st.fs.disk n node.inode off size))

/-- node を引いたか、書き終えたかのどちらかである。 -/
theorem sharingStep_cases {n : Nat} {st st' : Sharing ι} {op : SharingOp ι}
    (h : sharingStep n st op = some st') :
    (∃ i node s, op = .lookup i ∧ ext2CreateNode st.fs n = (some node, s) ∧
      st' = { st with fs := s, node := update st.node i (some node) }) ∨
    ∃ i off size src node ino s, op = .write i off size src ∧ st.node i = some node ∧
      ext2WriteInodeData st.fs node.inode node.inodeNum off size src = ((size : Int), ino, s) ∧
      st' = ⟨s, update st.node i (some { node with inode := ino }),
        ⟨off, size, src⟩ :: st.log⟩ := by
  cases op with
  | lookup i =>
    simp only [sharingStep] at h
    split at h
    · rename_i node s hcall
      cases h
      exact .inl ⟨i, node, s, rfl, hcall, rfl⟩
    · cases h
  | write i off size src =>
    simp only [sharingStep] at h
    split at h
    · rename_i node hnode
      obtain ⟨hr, ⟨⟩⟩ := ite_none_right_eq_some.mp h
      unfold ext2VfsWrite at hr ⊢
      split at hr
      · exact absurd hr (by omega)
      · rename_i hdir
        refine .inr ⟨i, off, size, src, node, _, _, rfl, hnode, ?_, by rw [if_neg hdir]⟩
        rw [← hr]
    · cases h

end Step

/-! ## 一つの書き込み -/

section Written

variable {G : Geom} {s s' : State} {n off size : Nat} {ino ino' src : Mem}

/-- `pos` の block があり、その byte は `b` である。 -/
def Holds (G : Geom) (m : Mem) (n pos : Nat) (b : UInt8) : Prop :=
  trace G (imageView G m) (pathOf G n (pos / G.blockSize)) ≠ none ∧
    fileByte G (imageView G m) n pos = b

/-- inode を書き戻したなら、操作の途中の木は、disk の木である。 -/
theorem trace_stored {roots : Nat → Nat → Nat} (he : Exact ino roots n)
    (hstored : ∀ y < inodeStructSize, inodeAt G s.disk n y = ino y) (idx : Nat) :
    trace G (imageView G s.disk) (pathOf G n idx)
      = trace G (view G s.disk 0 roots) (pathOf G n idx) := by
  obtain ⟨p, hp⟩ := List.head?_eq_some_iff.mp (pathOf_head G n idx)
  rw [hp]
  refine trace_cons_congr ?_ (fun k hk => ?_) ?_ p
  · exact view_live_zero.symm
  · exact (iBlock_congr hstored hk).trans (he k hk)
  · rfl

/-- inode を書き戻したなら、書いた値は disk にある。 -/
theorem Written.holds {roots : Nat → Nat → Nat} {hi : Nat} {P : Prop} {v : View}
    (h : Written G n off hi off src P v (view G s.disk 0 roots)) (he : Exact ino roots n)
    (hstored : ∀ y < inodeStructSize, inodeAt G s.disk n y = ino y) {pos : Nat} (h1 : off ≤ pos)
    (h2 : pos < hi) : Holds G s.disk n pos (src (pos - off)) := by
  have htrace := trace_stored he hstored
  refine ⟨by rw [htrace]; exact h.present pos h1 h2, ?_⟩
  rw [← h.inside pos h1 h2]
  exact dataAt_congr (htrace _) fun _ _ => rfl

/-- **写しの pointer が disk の通りなら、書いた値が残り、既に書かれた block の値も残る。** -/
theorem write_holds (hm : Mounted G s) (hn : liveInode G s.disk n = true)
    (hroots : ∀ k < 14, iBlock ino k = rootAt G s.disk n k) (hsize : off + size < 2 ^ 32)
    (h0 : 0 < size) (hcall : ext2WriteInodeData s ino n off size src = ((size : Int), ino', s')) :
    Mounted G s' ∧ liveInode G s'.disk n = true ∧ (∃ i, s'.heap = fun j => s.heap (j + i)) ∧
      iSize (inodeAt G s'.disk n) = max (iSize ino) (off + size) ∧
      (∀ pos, off ≤ pos → pos < off + size → Holds G s'.disk n pos (src (pos - off))) ∧
      ∀ pos b, ¬(off ≤ pos ∧ pos < off + size) → Holds G s.disk n pos b →
        Holds G s'.disk n pos b := by
  have hn' : (view G s.disk 0 (rootAt G s.disk)).live n = true := by rwa [view_live_zero]
  obtain ⟨r, ino1, s1, roots', hspec, hout⟩ :=
    writeInodeData_spec hm.inv hn' hroots off (show size < 2 ^ 32 by omega) src
  rw [hcall] at hspec
  cases hspec
  have hdone := hout.done rfl h0
  have htrace := trace_stored hout.exact hdone.stored
  refine ⟨hout.grown.inv.mounted, by rw [hout.grown.live_eq, hn], hout.grown.heap, ?_, ?_, ?_⟩
  · rw [iSize_congr hdone.stored, hdone.size_eq]
    split <;> omega
  · exact fun pos h1 h2 => hdone.written.holds hout.exact hdone.stored h1 h2
  rintro pos b hpos ⟨hpresent, hb⟩
  rw [← view_eq_imageView] at hpresent hb
  refine ⟨?_, ?_⟩
  · obtain ⟨f, hf⟩ := ne_none_iff_exists'.mp hpresent
    rw [htrace, hout.grown.trace_mono _ f hf]
    simp
  · rw [← hb]
    refine (dataAt_congr (htrace _) fun _ _ => rfl).trans ?_
    refine hdone.written.outside _ _ (Nat.mod_lt _ hm.ready.wf.size_pos) (.inr hpresent) ?_
    rintro p h1 h2 ⟨hp, ho⟩
    have := pos_eq_of_path hp ho
    omega

/-- 最初の data の block が書けない。 -/
def RefusesFirst (s : State) (ino : Mem) (off size : Nat) (src : Mem) : Prop :=
  ∀ b ino1 s1 buf, ext2GetBlock s.next ino (off / s.fs.blockSize) true = (b, ino1, s1) → b ≠ 0 →
    (writeChunk s1 b (off % s.fs.blockSize) (min (s1.fs.blockSize - off % s.fs.blockSize) size) src
      0 buf).1 = false

theorem RefusesFirst.nonpos (h : RefusesFirst s ino off size src) {r : Int}
    (hcall : ext2WriteInodeData s ino n off size src = (r, ino', s')) : r ≤ 0 := by
  unfold ext2WriteInodeData at hcall
  split at hcall
  · cases hcall
    exact le_refl 0
  rw [kmalloc_eq] at hcall
  cases hheap : s.heap 0 with
  | none =>
    rw [hheap] at hcall
    cases hcall
    decide
  | some buf =>
    -- ループの一周目で終わる
    obtain ⟨b, ino1, s1, hget⟩ : ∃ b ino1 s1, ext2GetBlock s.next ino (off / s.fs.blockSize) true
      = (b, ino1, s1) := ⟨_, _, _, rfl⟩
    have hloop : ∃ ino2 s2, writeLoop n off size src size s.next ino (off / s.fs.blockSize)
        (off % s.fs.blockSize) 0 buf = (some (-1), ino2, s2) := by
      obtain ⟨k, rfl⟩ := Nat.exists_eq_succ_of_ne_zero ‹size ≠ 0›
      rw [writeLoop, if_pos (Nat.succ_pos k), hget]
      by_cases hb : b = 0
      · exact ⟨_, _, if_pos hb⟩
      · have hfail := h b ino1 s1 buf hget hb
        simp only [if_neg hb, Nat.sub_zero, hfail]
        exact ⟨_, _, rfl⟩
    obtain ⟨ino2, s2, hloop⟩ := hloop
    have hbs : s.next.fs.blockSize = s.fs.blockSize := rfl
    rw [hheap] at hcall
    simp only [hbs, hloop] at hcall
    cases hcall
    decide

/-- 二つ目の block の書き込みだけが失敗する環境。 -/
def faultyWrite : Int × Mem × State :=
  ext2WriteInodeData { plainState with io := fun i => i ≠ 14 }
    (inodeAt wideFs.geom plainState.disk 3)
    3 0 2048 fun _ => 121

end Written

/-! ## 実行 -/

section Run

variable {ι : Type} [DecidableEq ι] {G : Geom} {n : Nat} {s₀ : State} {st st' : Sharing ι}

/-- どの node も inode `n` の node であり、書かれた値は disk にある。 -/
structure Retained (G : Geom) (n : Nat) (s₀ : State) (st : Sharing ι) : Prop where
  mounted : Mounted G st.fs
  heap : ∃ i, st.fs.heap = fun j => s₀.heap (j + i)
  live : liveInode G st.fs.disk n = true
  nodes : ∀ i node, st.node i = some node → node.inodeNum = n
  size : ∀ w ∈ st.log, 0 < w.size → w.off + w.size ≤ iSize (inodeAt G st.fs.disk n)
  holds : ∀ pos b, lastValue st.log pos = some b →
    Holds G st.fs.disk n pos b ∧ pos < iSize (inodeAt G st.fs.disk n)

theorem Retained.nodes_update (h : Retained G n s₀ st) (i : ι) {node : Node}
    (hnode : node.inodeNum = n) : ∀ j node', update st.node i (some node) j = some node' →
      node'.inodeNum = n := by
  intro j node' hj
  by_cases hji : j = i
  · subst hji
    rw [update_self] at hj
    cases hj
    exact hnode
  · rw [update_of_ne hji] at hj
    exact h.nodes j _ hj

omit [DecidableEq ι] in
theorem retained_init (hm : Mounted G s₀) (hn : liveInode G s₀.disk n = true) :
    Retained G n s₀ (.init s₀ : Sharing ι) where
  mounted := hm
  heap := ⟨0, rfl⟩
  live := hn
  nodes _ _ h := by cases h
  size _ h := absurd h List.not_mem_nil
  holds _ _ h := by cases h

theorem sharingStep_retained {op : SharingOp ι} (h : Retained G n s₀ st) (hl : Current G n st op)
    (hstep : sharingStep n st op = some st') : Retained G n s₀ st' := by
  rcases sharingStep_cases hstep with ⟨i, node, s, rfl, hcall, rfl⟩ |
    ⟨i, off, size, src, node, ino, s, rfl, hnode, hcall, rfl⟩
  · have hskip : Skips st.fs s := by
      have := createNode_skips h.mounted.ready n
      rwa [hcall] at this
    refine ⟨(hskip.inv h.mounted.inv).mounted, heap_shift_trans h.heap hskip.heap, ?_,
      h.nodes_update i (createNode_some h.mounted.ready hcall).1, ?_, ?_⟩
    all_goals rw [hskip.disk]
    · exact h.live
    · exact h.size
    · exact h.holds
  have hnum := h.nodes i node hnode
  rw [hnum] at hcall
  have hnodes := h.nodes_update i (show Node.inodeNum { node with inode := ino } = n from hnum)
  obtain ⟨hroots, hgrow, hlt⟩ := hl node hnode
  by_cases h0 : size = 0
  · -- 何も書かない
    subst h0
    cases hcall
    refine ⟨h.mounted, h.heap, h.live, hnodes, ?_, ?_⟩
    · intro w hw hpos
      rcases List.mem_cons.mp hw with rfl | hw
      · exact absurd hpos (by simp)
      · exact h.size w hw hpos
    · intro pos b hb
      refine h.holds pos b ?_
      rwa [lastValue, if_neg (by simp only; omega)] at hb
  · obtain ⟨hm, hlive, hheap, hsize, hin, hout⟩ :=
      write_holds h.mounted h.live hroots hlt (by omega) hcall
    refine ⟨hm, heap_shift_trans h.heap hheap, hlive, hnodes, ?_, ?_⟩
    · intro w hw hpos
      show w.off + w.size ≤ iSize _
      rw [hsize]
      rcases List.mem_cons.mp hw with rfl | hw
      · exact le_max_right _ _
      · exact (h.size w hw hpos).trans hgrow
    · intro pos b hb
      show Holds G _ n pos b ∧ pos < iSize _
      rw [hsize]
      simp only [lastValue] at hb
      split at hb
      · rename_i hpos
        cases hb
        exact ⟨hin pos hpos.1 hpos.2, lt_of_lt_of_le hpos.2 (le_max_right _ _)⟩
      · rename_i hpos
        obtain ⟨hold, hlt'⟩ := h.holds pos b hb
        exact ⟨hout pos b hpos hold, lt_of_lt_of_le hlt' hgrow⟩

/-- disk にある値は、新しく引いた node から読める。 -/
theorem fresh_read {s : State} (hm : Mounted G s) (hok : HeapOk s)
    (hn : liveInode G s.disk n = true)
    {lo len : Nat} (hlo : lo < 2 ^ 32) {f : Nat → UInt8}
    (hholds : ∀ i < len, Holds G s.disk n (lo + i) (f i) ∧ lo + i < iSize (inodeAt G s.disk n))
    {buffer : Mem} : ∃ node s1 new s2, ext2CreateNode s n = (some node, s1) ∧
      ext2VfsRead s1 node lo len buffer = (toInt32 len, new, s2) ∧ ∀ i < len, new i = f i := by
  obtain ⟨node, s1, hcall, hskip, -, -, hino⟩ := createNode_ok hm.ready hok (isInode_of_live hn)
  have hsize := iSize_congr hino
  have hlt : lo + len < 2 ^ 32 := by
    rcases Nat.eq_zero_or_pos len with rfl | hpos
    · exact hlo
    · have h1 := (hholds (len - 1) (by omega)).2
      have h2 : iSize (inodeAt G s.disk n) < 2 ^ 32 := load_lt _ _ 4
      omega
  have hmin : min len (iSize node.inode - lo) = len := by
    rcases Nat.eq_zero_or_pos len with rfl | hpos
    · exact Nat.zero_min _
    · have := (hholds (len - 1) (by omega)).2
      omega
  obtain ⟨new, s2, hread, -, hbytes⟩ := readInodeData_spec (hskip.inv hm.inv)
    (show (view G _ 0 _).live n = true by rwa [view_live_zero, hskip.disk])
    (fun k hk => iBlock_congr hino hk) (hok.shift hskip.heap) hlt buffer
  rw [hmin] at hread
  refine ⟨node, s1, new, s2, hcall, hread, fun i hi => ?_⟩
  obtain ⟨⟨hpresent, hb⟩, hlt'⟩ := hholds i hi
  rw [hskip.disk, view_eq_imageView] at hbytes
  rw [hbytes i fun _ _ => .of_present hpresent, if_pos ⟨hi, by omega⟩, hb]

theorem reach_retained {ops : List (SharingOp ι)} (hm : Mounted G s₀)
    (hn : liveInode G s₀.disk n = true)
    (h : Run.Reach (sharingStep n) (Current G n) (.init s₀) ops st) : Retained G n s₀ st :=
  h.invariant (retained_init hm hn) fun _ _ _ hst hl hstep => sharingStep_retained hst hl hstep

/--
**最後に書いた値が、新しく引いた node から読める。disk の大きさは、書いたどの範囲の終わりよりも小さくない。**

どの書き込みでも、node の写しの pointer が disk の通りで、書いた後の大きさが disk の大きさより小さくならないとする。
node の数と、引くのと書くのとの順は問わない。
-/
theorem shared_writes_kept {ops : List (SharingOp ι)} (hm : Mounted G s₀)
    (hn : liveInode G s₀.disk n = true)
    (h : Run.Reach (sharingStep n) (Current G n) (.init s₀) ops st) :
    (∀ w ∈ st.log, 0 < w.size → w.off + w.size ≤ iSize (inodeAt G st.fs.disk n)) ∧
    ∀ lo len buffer, lo < 2 ^ 32 → HeapOk st.fs → (∀ i < len, lastValue st.log (lo + i) ≠ none) →
      ∃ node s1 new s2, ext2CreateNode st.fs n = (some node, s1) ∧
        ext2VfsRead s1 node lo len buffer = (toInt32 len, new, s2) ∧
        ∀ i < len, lastValue st.log (lo + i) = some (new i) := by
  have hst := reach_retained hm hn h
  refine ⟨hst.size, fun lo len buffer hlo hok hwritten => ?_⟩
  have hlast : ∀ i < len, lastValue _ _ = some _ :=
    fun i hi => eq_some_getD (isSome_iff_ne_none.mpr (hwritten i hi)) 0
  obtain ⟨node, s1, new, s2, hcall, hread, hnew⟩ := fresh_read hst.mounted hok hst.live hlo
    (fun i hi => hst.holds _ _ (hlast i hi))
  exact ⟨node, s1, new, s2, hcall, hread, fun i hi => by rw [hnew i hi, ← hlast i hi]⟩

end Run

/-- 二つの node が、同じ block に交互に書く。 -/
def sharedOps : List (SharingOp Bool) :=
  [.lookup false, .lookup true, .write false 1 1 fun _ => 65, .write true 2 1 fun _ => 66]

theorem shared_writes_kept_two : ∃ st : Sharing Bool,
    Run.Reach (sharingStep 3) (Current wideFs.geom 3) (.init plainState) sharedOps st ∧
    iSize (inodeAt wideFs.geom st.fs.disk 3) = 3 ∧
    ∃ node s1 new s2, ext2CreateNode st.fs 3 = (some node, s1) ∧
      ext2VfsRead s1 node 1 2 (fun _ => 0) = (2, new, s2) ∧ new 0 = 65 ∧ new 1 = 66 := by
  refine Run.exists_reach_of (P := fun st => (∀ i < 2, lastValue st.log (1 + i) =
    some (if i = 0 then 65 else 66)) ∧ iSize (inodeAt wideFs.geom st.fs.disk 3) = 3)
      (by decide +kernel)
    fun st hreach ⟨hlast, hsize⟩ => ?_
  have hn : liveInode wideFs.geom plainState.disk 3 = true := by decide +kernel
  have hok : HeapOk st.fs := by
    obtain ⟨i, hi⟩ := (reach_retained plain_mounted hn hreach).heap
    exact fun j => ⟨_, congrFun hi j⟩
  obtain ⟨node, s1, new, s2, hnode, hread, hnew⟩ :=
    (shared_writes_kept plain_mounted hn hreach).2 1 2 (fun _ => 0) (by decide) hok
      fun i hi => by simp [hlast i hi]
  refine ⟨hsize, node, s1, new, s2, hnode, hread, ?_, ?_⟩
  · exact (some.inj ((hlast 0 (by decide)).symm.trans (hnew 0 (by decide)))).symm
  · exact (some.inj ((hlast 1 (by decide)).symm.trans (hnew 1 (by decide)))).symm

/-- 二つの node が、別の block を足す。 -/
def staleOps : List (SharingOp Bool) :=
  [.lookup false, .lookup true, .write false 2048 1 fun _ => 65, .write true 1024 1 fun _ => 66]

/--
**古い写しの node が書くと、ほかの node の書いた data が失われる。**

二つの node を引き、一方で 2048 byte 目に、他方で 1024 byte 目に書く。disk の大きさは 1025 に戻り、2048 byte 目は
読めない。
-/
theorem stale_node_truncates : Mounted wideFs.geom plainState ∧ HeapOk plainState ∧
    ∃ st : Sharing Bool,
      Run.Reach (sharingStep 3) (fun _ _ => True) (.init plainState) staleOps st ∧
    lastValue st.log 2048 = some 65 ∧ iSize (inodeAt wideFs.geom st.fs.disk 3) = 1025 ∧
    ∃ node s1, ext2CreateNode st.fs 3 = (some node, s1) ∧
      (ext2VfsRead s1 node 2048 1 fun _ => 0).1 = 0 := by
  refine ⟨plain_mounted, fun _ => ⟨_, rfl⟩, Run.exists_reach_of (P := fun st =>
    lastValue st.log 2048 = some 65 ∧ iSize (inodeAt wideFs.geom st.fs.disk 3) = 1025 ∧
    ((ext2CreateNode st.fs 3).1.map fun node =>
      (ext2VfsRead (ext2CreateNode st.fs 3).2 node 2048 1 fun _ => 0).1) = some 0)
        (by decide +kernel)
    fun st _ ⟨hlast, hsize, hval⟩ => ?_⟩
  obtain ⟨node, hnode, hread⟩ := map_eq_some_iff.mp hval
  exact ⟨hlast, hsize, node, _, Prod.ext hnode rfl, hread⟩

end Alos.Ext2
