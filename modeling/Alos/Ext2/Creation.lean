import Alos.Ext2.Operations

/-!
# 名前の作成

`ext2_vfs_create` と `ext2_vfs_mkdir` は、inode を書いてから、親の directory に entry を足す。
`kmalloc` が失敗せず、足りるだけの空きがあれば、成功したときに親に名前が一つ加わる（`Created.entered`、
`MadeDir.entered`）。
-/

namespace Alos.Ext2

open Bytes Bitmap Records

section Plant

variable {G : Geom} {s s' : State} {n : Nat} {roots roots' : Nat → Nat → Nat} {ino : Mem}

variable (hp : Planted G s s' roots roots' n ino) (hs : Synced G s.disk roots)
include hp hs

/-- 新しい inode のほかは、disk に追いついたままである。 -/
theorem Planted.synced : Synced G s'.disk roots' := by
  intro m hm k hk
  by_cases hmn : m = n
  · subst hmn
    rw [← hp.exact k hk]
    exact iBlock_congr (fun y hy => (hp.written y hy).symm) hk
  · rw [hp.live_eq, decide_eq_false hmn] at hm
    rw [hp.roots_ne m hmn, hs m hm k hk]
    exact iBlock_congr (fun y hy => (hp.inodes m hmn (isInode_of_live hm) y hy).symm) hk

theorem Planted.kept {m : Nat} (hm : liveInode G s.disk m = true) : Kept G s.disk s'.disk m :=
  .of_synced hs (hp.synced hs) hm
    (hp.inodes m (ne_of_not_live hp.unused hm) (isInode_of_live hm)) (hp.file m hm)

end Plant

/-! ## 親の inode -/

/-- inode `num` を `ino` に書き換えた。木も、ほかの inode も変わらない。 -/
structure Touched (G : Geom) (num : Nat) (roots : Nat → Nat → Nat) (s s' : State) (ino : Mem) :
    Prop where
  inv : Inv G s' 0 roots
  file : ∀ m, SameFile G (view G s.disk 0 roots) (view G s'.disk 0 roots) m
  marks : ∀ k, ∀ i < G.objects k, marked G s'.disk k i = marked G s.disk k i
  inodes : ∀ m, m ≠ num → IsInode G m → SameInode G s.disk s'.disk m
  stored : ∀ y < inodeStructSize, inodeAt G s'.disk num y = ino y
  heap : ∃ i, s'.heap = fun j => s.heap (j + i)

section Touch

variable {G : Geom} {s s' : State} {n num : Nat} {roots : Nat → Nat → Nat} {ino ino' : Mem}
  {es : List Entry}

theorem Stored.touched (h : Stored G 0 num roots ino s true s') : Touched G num roots s s' ino :=
  ⟨h.grown.inv, h.sameFile, h.marks, h.grown.inodes, h.written rfl, h.grown.heap⟩

section

variable (h : Touched G num roots s s' ino)
include h

theorem Touched.live_eq : SameLive G s s' :=
  liveInode_congr (h.marks _)

theorem Touched.synced (he : Exact ino roots num)
    (hs : Synced G s.disk roots) : Synced G s'.disk roots := by
  intro m hm k hk
  by_cases hmn : m = num
  · subst hmn
    rw [← he k hk]
    exact iBlock_congr (fun y hy => (h.stored y hy).symm) hk
  · rw [h.live_eq] at hm
    rw [hs m hm k hk]
    exact iBlock_congr (fun y hy => (h.inodes m hmn (isInode_of_live hm) y hy).symm) hk

theorem Touched.kept (he : Exact ino roots num)
    (hs : Synced G s.disk roots) (hn : liveInode G s.disk n = true) (hne : n ≠ num) :
    Kept G s.disk s'.disk n :=
  .of_synced hs (h.synced he hs) hn (h.inodes n hne (isInode_of_live hn)) (h.file n)

end

/-- 大きさと pointer の同じ inode でも、同じ directory である。 -/
theorem Directory.withInode {x : Nat} (D : Directory G s x roots num ino es)
    (hsize : iSize ino' = iSize ino) (he : Exact ino' roots num) :
    Directory G s x roots num ino' es where
  live := D.live
  exact := he
  present := by
    rw [hsize]
    exact D.present
  pos := by
    rw [hsize]
    exact D.pos
  lt := by
    rw [hsize]
    exact D.lt
  laid := by
    rw [hsize]
    exact D.laid

theorem Directory.copy {x : Nat} (D : Directory G s x roots num ino es)
    (h : ∀ y < inodeStructSize, ino' y = ino y) : Directory G s x roots num ino' es :=
  D.withInode (iSize_congr h) fun k hk => (iBlock_congr h hk).trans (D.exact k hk)

theorem iSize_setILinksCount (ino : Mem) (v : Nat) : iSize (setILinksCount ino v) = iSize ino :=
  load_store_of_disjoint (by omega)

theorem iMode_setILinksCount (ino : Mem) (v : Nat) : iMode (setILinksCount ino v) = iMode ino :=
  load_store_of_disjoint (by omega)

theorem Ready.inodesPerGroup (hr : Ready G s) : s.fs.inodesPerGroup = G.per .inode :=
  congrArg (fun G' : Geom => G'.per .inode) hr.geom

/-- 親の link と、新しい directory の group の数が一つ増える。 -/
theorem linkDirectory_touched (inv : Inv G s 0 roots) (parent : Node)
    (hp : IsInode G parent.inodeNum) (he : Exact parent.inode roots parent.inodeNum)
    (hok : HeapOk s) (hn : IsInode G n) : ∃ s', linkDirectory s parent n = ({ parent with
        inode := setILinksCount parent.inode ((iLinksCount parent.inode + 1) % 2 ^ 16) }, s') ∧
      Touched G parent.inodeNum roots s s'
        (setILinksCount parent.inode ((iLinksCount parent.inode + 1) % 2 ^ 16)) ∧
      bgUsedDirsCount s'.fs.groupDescs ((n - 1) / G.per .inode)
        = (bgUsedDirsCount s.fs.groupDescs ((n - 1) / G.per .inode) + 1) % 2 ^ 16 := by
  obtain ⟨ok, s1, hw, hst⟩ := inv.writeInode hp
    (setILinksCount _ ((iLinksCount parent.inode + 1) % 2 ^ 16))
    fun _ k hk => .inr (he.setILinksCount k hk)
  obtain rfl := hst.ok_of_heap hok
  have hg : (n - 1) / G.per _ < G.numGroups := inv.ready.wf.group_lt (isInode_index hn)
  have hr1 := hst.grown.inv.ready
  rw [← hr1.inodesPerGroup] at hg ⊢
  obtain ⟨ok', s2, hw2, hc, hfs, hmarks⟩ := (hst.grown.inv.setUsedDirs _ _).writeGroupDesc hg
  have ht := hst.touched
  refine ⟨s2, ?_, ⟨hc.inv, ?_, ?_, ?_, ?_, ?_⟩, ?_⟩
  · simp only [linkDirectory, hw]
    rw [if_pos (hr1.numGroups.symm ▸ hg), hw2]
  · exact fun m => (ht.file m).trans (hc.sameFile m)
  · exact fun k i hi => (hmarks k i hi).trans (ht.marks k i hi)
  · exact fun m hne hm y hy => (hc.inodes m hm y hy).trans (ht.inodes m hne hm y hy)
  · exact fun y hy => (hc.inodes _ hp y hy).trans (ht.stored y hy)
  · exact heap_shift_trans ht.heap hc.heap
  · rw [hfs, ← hst.fs]
    exact load_store_self (Nat.mod_lt _ (by decide))

end Touch

/-! ## 成功した作成 -/

/-- 親の directory に、新しい inode `n` の entry が加わった。ほかの inode は変わらない。 -/
structure Entered (G : Geom) (s s' : State) (roots' : Nat → Nat → Nat) (parent parent' : Node)
    (n : Nat) (ino : Mem) (es' : List Entry) : Prop where
  inv : Inv G s' 0 roots'
  synced : Synced G s'.disk roots'
  directory : Directory G s' 0 roots' parent.inodeNum parent'.inode es'
  num : parent'.inodeNum = parent.inodeNum
  type : parent'.type = parent.type
  mode : iMode parent'.inode = iMode parent.inode
  stored : ∀ y < inodeStructSize, inodeAt G s'.disk parent.inodeNum y = parent'.inode y
  isInode : IsInode G n
  unused : liveInode G s.disk n = false
  live_eq : ∀ m, liveInode G s'.disk m = (decide (m = n) || liveInode G s.disk m)
  kept : ∀ m, liveInode G s.disk m = true → m ≠ parent.inodeNum → Kept G s.disk s'.disk m
  written : ∀ y < inodeStructSize, inodeAt G s'.disk n y = ino y
  heap : ∃ i, s'.heap = fun j => s.heap (j + i)

section Enter

variable {G : Geom} {s s' s3 s4 : State} {n : Nat} {roots roots' roots3 : Nat → Nat → Nat}
  {ino ino' : Mem} {es es' : List Entry} {parent parent' : Node} {name : List UInt8}

theorem Planted.entered (hp : Planted G s s3 roots roots3 n ino) (hs : Synced G s.disk roots)
    (hpar : liveInode G s.disk parent.inodeNum = true)
    (hu : Updated G 0 parent.inodeNum s3 s4 roots3 roots' parent.inode ino' es') :
    Entered G s s4 roots' parent { parent with inode := ino' } n ino es' where
  inv := hu.grown.inv
  synced := hu.synced (hp.synced hs)
  directory := hu.directory
  num := rfl
  type := rfl
  mode := load_congr fun y _ hy => hu.rest y (by omega)
  stored := hu.stored
  isInode := hp.isInode
  unused := hp.unused
  live_eq m := (hu.grown.live_eq m).trans (hp.live_eq m)
  kept m hm hne := by
    refine (hp.kept hs hm).trans (hu.kept (hp.synced hs) ?_ hne)
    rw [hp.live_eq, hm, Bool.or_true]
  written y hy := by
    have hne := (ne_of_not_live hp.unused hpar).symm
    exact (hu.grown.inodes n hne hp.isInode y hy).trans (hp.written y hy)
  heap := heap_shift_trans hp.heap hu.grown.heap

/-- 親の inode の、大きさと pointer のほかを書き換える。 -/
theorem Entered.touched (h : Entered G s s3 roots' parent parent' n ino es')
    (hpar : liveInode G s.disk parent.inodeNum = true)
    (ht : Touched G parent.inodeNum roots' s3 s4 ino') (hsize : iSize ino' = iSize parent'.inode)
    (hmode : iMode ino' = iMode parent'.inode) (he : Exact ino' roots' parent.inodeNum) :
    Entered G s s4 roots' parent { parent' with inode := ino' } n ino es' where
  inv := ht.inv
  synced := ht.synced he h.synced
  directory := (h.directory.sameFile h.inv.ready.wf (ht.file _)).withInode hsize he
  num := h.num
  type := h.type
  mode := hmode.trans h.mode
  stored := ht.stored
  isInode := h.isInode
  unused := h.unused
  live_eq m := (ht.live_eq m).trans (h.live_eq m)
  kept m hm hne := by
    refine (h.kept m hm hne).trans (ht.kept he h.synced ?_ hne)
    rw [h.live_eq, hm, Bool.or_true]
  written y hy := by
    have hne := (ne_of_not_live h.unused hpar).symm
    exact (ht.inodes n hne h.isInode y hy).trans (h.written y hy)
  heap := heap_shift_trans h.heap ht.heap

/-- block ごとに区切れるなら、名前を加えた directory も整っている。 -/
theorem Entered.wellFormed (h : Entered G s s' roots' parent parent' n ino es')
    (hdir : parent.type = vfsDirectory) (hp : Paged Entry.recLen G.blockSize es') :
    ∃ bl, bl.flatten = es' ∧ WellFormedDir G s' parent' bl := by
  obtain ⟨bl, rfl, hfull⟩ := hp
  have hD := h.directory
  have hstored := h.stored
  rw [← h.num] at hD hstored
  exact ⟨bl, rfl, hD.wellFormed h.inv.ready.wf h.synced (fun y hy => (hstored y hy).symm)
    (h.type.trans hdir) hfull⟩

/-- 新しい file の entry を足すための `kmalloc` の条件。 -/
def EntryMem (G : Geom) (s : State) (parent : Node) (es : List Entry) (name : List UInt8) : Prop :=
  ∀ i s2 s3, NewInode s parent name i s2 → ext2WriteInode s2 i.toNat newFileInode = (true, s3) →
    AddMem G s3 parent.inode es name

theorem HeapOk.entryMem (hok : HeapOk s) (inv : Inv G s 0 roots) :
    EntryMem G s parent es name := by
  intro i s2 s3 hnew hwrite
  obtain ⟨-, n, roots3, -, hplant, -⟩ :=
    (newFile_planted inv hnew hwrite).resolve_left fun h => by cases h.1
  exact (hok.shift hplant.heap).addMem hplant.inv

/-- **成功した `create` は、空の file の名前を親に加える。** -/
theorem Created.entered (h : Created s parent name 0 parent' s') (inv : Inv G s 0 roots)
    (hs : Synced G s.disk roots) (D : Directory G s 0 roots parent.inodeNum parent.inode es)
    (hmem : EntryMem G s parent es name) (hname : name.length < 256)
    (hadd : Addable G (view G s.disk 0 roots) parent.inodeNum parent.inode es name
      (blockPool.total s.fs)) :
    ∃ n es' roots', Entered G s s' roots' parent parent' n newFileInode es' ∧
      Added G n 1 name es es' ∧
      (HasRoom es name ∨ blockPool.total s.fs = 0 →
        (∀ b, Allocated G s'.disk .block b ↔ Allocated G s.disk .block b) ∧
        iSize parent'.inode = iSize parent.inode ∧
        ∀ k < 14, iBlock parent'.inode k = iBlock parent.inode k) := by
  have wf := inv.ready.wf
  have hp := D.live_disk
  cases h with
  | done hnew hwrite hcall =>
    obtain ⟨-, n, roots3, rfl, hplant, -, hblocks⟩ :=
      (newFile_planted inv hnew hwrite).resolve_left fun h => by cases h.1
    have htotal := inv.matching.total_eq_of_allocated (k := .block) hplant.inv.matching wf hblocks
    have hn : n < 2 ^ 32 :=
      lt_of_le_of_lt hplant.isInode.2 (lt_trans wf.inodes_lt (by decide))
    obtain ⟨roots4, es', hu, hes, hquiet⟩ := addDirEntry_spec hplant.inv
      (D.sameFile wf (hplant.file _ hp)) (hmem _ _ _ hnew hwrite) hn
      hname (show 1 < 256 by decide) (htotal ▸ hadd.sameFile (hplant.file _ hp)) hcall
    refine ⟨n, es', roots4, hplant.entered hs hp hu, hes, fun hroom => ?_⟩
    have hw := hquiet (htotal ▸ hroom)
    refine ⟨fun b => (allocated_congr (hw.marks _) b).trans (hblocks b), hw.size, ?_⟩
    intro k hk
    rw [D.exact k hk, hw.directory.exact k hk, hplant.roots_ne _ (ne_of_not_live hplant.unused hp)]

/-- **成功した `mkdir` は、directory の名前を親に加える。** -/
theorem MadeDir.entered (h : MadeDir s parent name 0 parent' s') (inv : Inv G s 0 roots)
    (hs : Synced G s.disk roots) (D : Directory G s 0 roots parent.inodeNum parent.inode es)
    (hok : HeapOk s) (hname : name.length < 256)
    (hadd : Addable G (view G s.disk 0 roots) parent.inodeNum parent.inode es name
      (blockPool.total s.fs - 1)) :
    ∃ n b es' roots', Entered G s s' roots' parent parent' n (newDirInode s.fs b) es' ∧
      Added G n 2 name es es' ∧
      iLinksCount parent'.inode = (iLinksCount parent.inode + 1) % 2 ^ 16 ∧
      bgUsedDirsCount s'.fs.groupDescs ((n - 1) / G.per .inode)
        = (bgUsedDirsCount s.fs.groupDescs ((n - 1) / G.per .inode) + 1) % 2 ^ 16 ∧
      (HasRoom es name → Takes G s.disk s'.disk b) := by
  have wf := inv.ready.wf
  have hp := D.live_disk
  cases h with
  | @done _ _ ino' s2 s3 s4 s5 hnew hblock hj hmake hcall =>
    obtain ⟨-, n, b, roots4, rfl, rfl, hplant, -, -, htakes, -⟩ :=
      (newDir_planted inv hnew hblock hj hmake).resolve_left fun h => by cases h.1
    have htotal : blockPool.total s.fs = blockPool.total _ + 1 :=
      inv.matching.total_succ_of_allocated (k := .block) hplant.inv.matching wf htakes.1 htakes.2
    have hn : n < 2 ^ 32 :=
      lt_of_le_of_lt hplant.isInode.2 (lt_trans wf.inodes_lt (by decide))
    rw [htotal, Nat.add_sub_cancel] at hadd
    obtain ⟨roots5, es', hu, hes, hquiet⟩ := addDirEntry_spec hplant.inv
      (D.sameFile wf (hplant.file _ hp)) ((hok.shift hplant.heap).addMem hplant.inv) hn
      hname (show 2 < 256 by decide) (hadd.sameFile (hplant.file _ hp)) hcall
    have hent := hplant.entered hs hp hu
    obtain ⟨s6, hlink, ht, hused⟩ := linkDirectory_touched hu.grown.inv
      { parent with inode := ino' } (isInode_of_live hp) hu.directory.exact
      ((hok.shift hplant.heap).shift hu.grown.heap) hplant.isInode
    rw [Int.toNat_natCast, hlink]
    refine ⟨n, b, es', roots5, ?_, hes, ?_, ?_, ?_⟩
    · exact hent.touched hp ht (iSize_setILinksCount _ _) (iMode_setILinksCount _ _)
        hu.directory.exact.setILinksCount
    · have hlinks : iLinksCount ino' = iLinksCount _ :=
        load_congr fun y _ hy => hu.rest y (by omega)
      rw [← hlinks]
      exact load_store_self (Nat.mod_lt _ (by decide))
    · rw [hused, hu.grown.dirs, hplant.dirs]
    · intro hroom
      refine ⟨htakes.1, fun b' => ?_⟩
      rw [allocated_congr (ht.marks _), allocated_congr ((hquiet (.inl hroom)).marks _), htakes.2]

end Enter

end Alos.Ext2
