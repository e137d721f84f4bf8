import Alos.Ext2.Creation
import Alos.Ext2.NameMap

/-!
# 名前の削除

`ext2_vfs_unlink` は、親の entry を消してから、link の数を一つ減らす。0 になれば block と inode を返す。

`ext2_vfs_mkdir` の作る directory の link の数は 2 なので、空の directory を消しても 1 が残り、
block も inode も返らない。
-/

namespace Alos.Ext2

open Bytes Bitmap Records

section Unlink

variable {G : Geom} {s s' : State} {n : Nat} {roots : Nat → Nat → Nat} {es es' : List Entry}
  {parent parent' : Node} {name : List UInt8}

section

variable (h : Unlinked s parent name 0 parent' s') (inv : Inv G s 0 roots)
  (D : Directory G s 0 roots parent.inodeNum parent.inode es)
  (hdir : parent.type &&& vfsDirectory ≠ 0)
include h inv D hdir

section

variable (hok : HeapOk s) (hname : 0 < name.length ∧ name.length < 256) (hmerge : Mergeable es name)
  (hlook : lookup (listing es) name = some n)
include hok hname hmerge hlook

/-- **成功した `unlink` は entry を消し、残った link の数で分かれる。** -/
theorem Unlinked.erased (hn : IsInode G n) :
    ∃ (target : Node) (ino' : Mem) (s3 : State) (es' : List Entry), target.inodeNum = n ∧
      target.type = ext2TypeToVfs (iMode target.inode) ∧
      (∀ y < inodeStructSize, target.inode y = inodeAt G s.disk n y) ∧ Erased name es es' ∧
      Rewritten G 0 parent.inodeNum roots s s3 parent.inode ino' es' ∧
      ((iLinksCount target.inode ≠ 1 ∧ parent' = { parent with inode := ino' } ∧
        s' = (ext2WriteInode s3 n (setILinksCount target.inode
          ((iLinksCount target.inode + 2 ^ 16 - 1) % 2 ^ 16))).2) ∨ (iLinksCount target.inode = 1 ∧
        parent' = (destroyInode s3 { parent with inode := ino' }
          { target with inode := setILinksCount target.inode 0 }).1 ∧
        s' = (destroyInode s3 { parent with inode := ino' }
          { target with inode := setILinksCount target.inode 0 }).2)) := by
  obtain ⟨target, s1, hfind, hskip, rfl, htype, hcopy⟩ := finddir_found inv D hdir hok hlook hn
  have hlt : iLinksCount target.inode < 2 ^ 16 := load_lt _ _ 2
  have hremoved : ∀ {removed : Int} {ino : Mem} {s2 s3 : State}, Skips s s2 →
      ext2RemoveDirEntry s2 parent.inode parent.inodeNum name = some (removed, ino, s3) →
      ¬removed < 0 → ∃ es', Erased name es es' ∧
        Rewritten G 0 parent.inodeNum roots s s3 parent.inode ino es' := by
    intro removed ino s2 s3 hskip2 hremove hr
    have hok2 := hok.shift hskip2.heap
    obtain ⟨es', hes, hw⟩ := removeDirEntry_spec (hskip2.inv inv) (D.skips hskip2)
      (.inr fun _ _ h => (hok2.readDirData (hskip2.inv inv) h).next) hname hmerge hremove
      (Int.not_lt.mp hr)
    exact ⟨es', hes, .of_skips hskip2 inv hw⟩
  cases h with
  | kept _ hprobe hremove hr hlinks =>
    obtain ⟨es', hes, hw⟩ := hremoved (hprobe.skips inv.ready) hremove hr
    obtain ⟨_, hfind', -⟩ := hprobe
    cases hfind.symm.trans hfind'
    exact ⟨target, _, _, es', rfl, htype, hcopy, hes, hw, .inl ⟨by omega, rfl, rfl⟩⟩
  | destroyed _ hprobe hremove hr hlinks =>
    obtain ⟨es', hes, hw⟩ := hremoved (hprobe.skips inv.ready) hremove hr
    obtain ⟨_, hfind', -⟩ := hprobe
    cases hfind.symm.trans hfind'
    exact ⟨target, _, _, es', rfl, htype, hcopy, hes, hw, .inr ⟨by omega, rfl, rfl⟩⟩

/-- link が残るなら、entry が消えて link の数が減るだけである。 -/
theorem Unlinked.keeps (hl : liveInode G s.disk n = true)
    (hne : n ≠ parent.inodeNum) (hlinks : iLinksCount (inodeAt G s.disk n) ≠ 1) :
    ∃ es', Erased name es es' ∧ Inv G s' 0 roots ∧
      Directory G s' 0 roots parent.inodeNum parent'.inode es' ∧ s'.fs = s.fs ∧
      parent'.inodeNum = parent.inodeNum ∧ parent'.type = parent.type ∧
      iLinksCount parent'.inode = iLinksCount parent.inode ∧
      (∀ y < inodeStructSize, inodeAt G s'.disk parent.inodeNum y = parent'.inode y) ∧
      ∃ i, s'.heap = fun j => s.heap (j + i) := by
  have hn := isInode_of_live hl
  obtain ⟨target, ino', s3, es', rfl, -, hcopy, hes, hw, hcase⟩ :=
    h.erased inv D hdir hok hname hmerge hlook hn
  have hcount : iLinksCount _ = iLinksCount _ :=
    iLinksCount_congr hcopy
  obtain ⟨-, rfl, rfl⟩ := hcase.resolve_right fun h => hlinks (hcount ▸ h.1)
  obtain ⟨ok, s4, hwrite, hst⟩ := hw.grown.inv.writeInode hn _ (by
      intro _ k hk
      rw [iBlock_setILinksCount]
      exact hw.grown.copy_sub (copy_sub inv hl hcopy hk))
  rw [hwrite]
  refine ⟨es', hes, hst.grown.inv, hw.directory.sameFile inv.ready.wf (hst.sameFile _),
    hst.fs.trans hw.fs, rfl, rfl, ?_, ?_, heap_shift_trans hw.grown.heap hst.grown.heap⟩
  · exact load_congr fun y _ hy => hw.rest y (by omega)
  · intro y hy
    have hp := isInode_of_live D.live_disk
    exact (hst.grown.inodes _ hne.symm hp y hy).trans (hw.stored y hy)

end

end

end Unlink

/-! ## 作ったばかりの directory -/

section Rmdir

variable {G : Geom} {s s1 s2 s3 : State} {n b : Nat} {roots roots1 : Nat → Nat → Nat}
  {es es1 : List Entry} {parent parent1 node node' : Node} {name : List UInt8}

/-- 加えた名前を消すと、その名前は一つも残らない。 -/
theorem lookup_added_erased {new ft : Nat} {es2 : List Entry} (hadd : Added G new ft name es es1)
    (h0 : new ≠ 0) (habs : lookup (listing es) name = none) (hes : Erased name es1 es2) :
    lookup (listing es2) name = none := by
  obtain ⟨e, hename, hins⟩ := hes.inserted
  have h1 := (hadd.inserted h0).countP fun d => d.name == name
  have h2 := hins.countP fun d => d.name == name
  have h3 : (listing es).countP (fun d => d.name == name) = 0 := by
    rw [List.countP_eq_zero]
    intro d hd
    simpa using lookup_eq_none.mp habs d hd
  simp only [beq_self_eq_true, if_true] at h1
  rw [hename] at h2
  simp only [beq_self_eq_true, if_true] at h2
  have h4 : (listing es2).countP (fun d => d.name == name) = 0 := by omega
  rw [List.countP_eq_zero] at h4
  rw [lookup_eq_none]
  intro d hd
  simpa using h4 d hd

/-- directory を作って消した後に残るもの。名前のほかは、何も元に戻らない。 -/
structure Leaked (G : Geom) (s s' : State) (num : Nat) (name : List UInt8) : Prop where
  blocks : blockPool.total s.fs = blockPool.total s'.fs + 1
  inodes : inodePool.total s.fs = inodePool.total s'.fs + 1
  dirs : ∃ g < G.numGroups, bgUsedDirsCount s'.fs.groupDescs g
    = (bgUsedDirsCount s.fs.groupDescs g + 1) % 2 ^ 16
  links : iLinksCount (inodeAt G s'.disk num) = (iLinksCount (inodeAt G s.disk num) + 1) % 2 ^ 16
  absent : ∀ node : Node, node.inodeNum = num → node.type = vfsDirectory →
    (∀ y < inodeStructSize, node.inode y = inodeAt G s'.disk num y) →
    found s' node name = some none

/-- 作ったばかりの directory は link を二つ持つので、消しても block と inode が残る。 -/
theorem MadeDir.leaked (h : MadeDir s parent name 0 parent1 s1) (inv : Inv G s 0 roots)
    (hs : Synced G s.disk roots) (D : Directory G s 0 roots parent.inodeNum parent.inode es)
    (hok : HeapOk s) (hname : 0 < name.length ∧ name.length < 256) (hroom : HasRoom es name)
    (habs : lookup (listing es) name = none)
    (hcopy : ∀ y < inodeStructSize, parent.inode y = inodeAt G s.disk parent.inodeNum y)
    (hskip : Skips s1 s2) (hnum : node.inodeNum = parent.inodeNum)
    (hdir : node.type &&& vfsDirectory ≠ 0)
    (hcur : ∀ y < inodeStructSize, node.inode y = inodeAt G s1.disk parent.inodeNum y)
    (hun : Unlinked s2 node name 0 node' s3) : Leaked G s s3 parent.inodeNum name := by
  have wf := inv.ready.wf
  have hp := D.live_disk
  obtain ⟨n, b, es1, roots1, hent, hadd, hlinks, hdirs, htakes⟩ :=
    h.entered inv hs D hok hname.2 (.inl hroom)
  have h0 : n ≠ 0 := by
    have := hent.isInode.1
    omega
  have hlive : liveInode G s1.disk n = true := by
    rw [hent.live_eq, decide_eq_true rfl, Bool.true_or]
  have hnew : iLinksCount (inodeAt G s1.disk n) = 2 := by
    exact iLinksCount_congr hent.written
  -- `node` は親の写しなので、同じ directory である
  have hsame : ∀ y < inodeStructSize, node.inode y = parent1.inode y := fun y hy =>
    (hcur y hy).trans (hent.stored y hy)
  have D1 : Directory G s1 0 roots1 node.inodeNum node.inode es1 := by
    rw [hnum]
    exact hent.directory.copy hsame
  obtain ⟨es2, hes, inv2, D2, hfs, -, -, hlinks2, hstored, hheap⟩ := hun.keeps (hskip.inv hent.inv)
    (D1.skips hskip) hdir ((hok.shift hent.heap).shift hskip.heap) hname
    (hadd.mergeable hroom (fun e he => D.laid.recLen_lt he) habs)
    ((lookup_inserted (hadd.inserted h0) habs name).trans (if_pos rfl))
    (by rwa [hskip.disk]) (by rw [hnum]; exact (ne_of_not_live hent.unused hp).symm)
    (by rw [hskip.disk, hnew]; decide)
  have htotal : ∀ k : Kind, k.pool.total s3.fs = k.pool.total _ := fun k => by
    rw [hfs, hskip.fs]
  refine ⟨?_, ?_, ⟨(n - 1) / G.per .inode, ?_, ?_⟩, ?_, ?_⟩
  · rw [show blockPool.total _ = _ from htotal .block]
    exact inv.matching.total_succ_of_allocated (k := .block) hent.inv.matching wf
      (htakes hroom).1 (htakes hroom).2
  · rw [show inodePool.total _ = _ from htotal .inode]
    refine inv.matching.total_succ_of_allocated (k := .inode) (n := n) hent.inv.matching wf ?_ ?_
    · rw [← live_iff_allocated, hent.unused]
      decide
    · intro m
      rw [← live_iff_allocated, ← live_iff_allocated, hent.live_eq, Bool.or_eq_true,
        decide_eq_true_eq, or_comm]
  · exact wf.group_lt (isInode_index hent.isInode)
  · rw [hfs, hskip.fs, hdirs]
  · rw [← hnum]
    calc iLinksCount _ = iLinksCount _ :=
          iLinksCount_congr hstored
      _ = iLinksCount _ := hlinks2
      _ = iLinksCount _ :=
          iLinksCount_congr hsame
      _ = (iLinksCount _ + 1) % 2 ^ 16 := hlinks
      _ = (iLinksCount _ + 1) % 2 ^ 16 := by
          rw [hnum, iLinksCount_congr hcopy]
  · intro node2 hnum2 htype2 hcopy2
    have hsame2 : ∀ y < inodeStructSize, node2.inode y = node'.inode y := fun y hy =>
      (hcopy2 y hy).trans (by rw [← hnum]; exact hstored y hy)
    have D3 : Directory G s3 0 roots1 node2.inodeNum node2.inode es2 := by
      rw [hnum2, ← hnum]
      exact D2.copy hsame2
    obtain ⟨s4, -, hfind⟩ := finddir_spec inv2 D3 (by rw [htype2]; decide)
      (((hok.shift hent.heap).shift hskip.heap).shift hheap)
    rw [found, hfind, lookup_added_erased hadd h0 habs hes]
    rfl

end Rmdir

end Alos.Ext2
