import Alos.Ext2.Reading

/-!
# VFS の callback の組み立て

`ext2_vfs_*` の関数を、呼ばれる順に並んだ小さい手に分ける。

* `*_skips` — 読むだけの関数は、heap のほかに何も変えない
* `*_grown` — directory を書き換える関数は、その directory の木を伸ばすだけである
* `Created`、`MadeDir`、`Unlinked` — `create`、`mkdir`、`unlink` の終わり方
-/

namespace Alos.Ext2

open Bytes Bitmap Option

variable {node target : Node} {e : Int} {new ft : Nat} {ok : Bool}

/-! ## 読むだけの関数 -/

section Skip

variable {G : Geom} {s : State}

theorem readInode_skips (hr : Ready G s) (n : Nat) : Skips s (ext2ReadInode s n).2 := by
  unfold ext2ReadInode
  split
  · exact .refl s
  · rw [kmalloc_eq]
    cases s.heap 0 with
    | none => exact .next s
    | some buf =>
      simp only [ext2ReadBlock_sectors hr.next.io hr.next.blockSize.dvd, if_true]
      exact .next s

theorem Skips.ready {s' : State} (h : Skips s s') (hr : Ready G s) : Ready G s' := by
  obtain ⟨i, rfl⟩ := h
  exact ⟨hr.io, hr.geom, hr.wf⟩

section

variable (hr : Ready G s)
include hr

theorem createNode_skips (n : Nat) : Skips s (ext2CreateNode s n).2 := by
  unfold ext2CreateNode
  rw [kmalloc_eq]
  cases s.heap 0 with
  | none => exact .next s
  | some _ =>
    simp only [kmalloc_eq]
    cases s.next.heap 0 with
    | none => exact (Skips.next s).trans (.next _)
    | some _ =>
      have h := readInode_skips hr.next.next n
      simp only
      split
      · rename_i heq
        rw [heq] at h
        exact ((Skips.next s).trans (.next _)).trans h
      · rename_i heq
        rw [heq] at h
        exact ((Skips.next s).trans (.next _)).trans h

/-- disk から作った node は、inode の写しを持つ。 -/
theorem createNode_some {n : Nat} {s' : State}
    (h : ext2CreateNode s n = (some node, s')) : node.inodeNum = n ∧
      node.type = ext2TypeToVfs (iMode node.inode) ∧
      (IsInode G n → ∀ y < inodeStructSize, node.inode y = inodeAt G s.disk n y) := by
  unfold ext2CreateNode at h
  rw [kmalloc_eq] at h
  cases hheap : s.heap 0 with
  | none => simp [hheap] at h
  | some _ =>
    simp only [hheap, kmalloc_eq] at h
    cases hheap' : s.next.heap 0 with
    | none => simp [hheap'] at h
    | some _ =>
      simp only [hheap'] at h
      cases hread : ext2ReadInode _ n with
      | mk ino s2 =>
        rw [hread] at h
        cases ino with
        | none => cases h
        | some ino =>
          cases h
          refine ⟨rfl, rfl, fun hn => ?_⟩
          rcases hr.next.next.readInode hn with ⟨-, hread'⟩ | ⟨ino', hread', hino⟩
          · rw [hread'] at hread
            cases hread
          · rw [hread'] at hread
            cases hread
            exact hino

theorem readDirData_skips (inode : Mem) : Skips s (readDirData s inode).2 := by
  unfold readDirData
  split
  · exact .refl s
  rw [kmalloc_eq]
  cases s.heap 0 with
  | none => exact .next s
  | some buf =>
    have h := readInodeData_skips hr.next.io hr.next.blockSize.dvd
      (hr.size ▸ hr.wf.size_pos) inode 0 (iSize inode) buf
    simp only
    split
    · exact (Skips.next s).trans h
    · exact (Skips.next s).trans h

theorem finddir_skips {name : List UInt8} {found : Option Node} {s' : State}
    (h : ext2VfsFinddir s node name = some (found, s')) : Skips s s' := by
  unfold ext2VfsFinddir at h
  split at h
  · cases h
    exact .refl s
  have hskip := readDirData_skips hr node.inode
  split at h
  · rename_i heq
    rw [heq] at hskip
    cases h
    exact hskip
  rename_i d s1 heq
  rw [heq] at hskip
  obtain ⟨r, -, hr'⟩ := map_eq_some_iff.mp h
  cases r with
  | none =>
    cases hr'
    exact hskip
  | some off =>
    have hc := createNode_skips (hskip.ready hr) (deInode d off)
    simp only at hr'
    rw [hr'] at hc
    exact hskip.trans hc

/-- 見つけた node も、inode の写しを持つ。 -/
theorem finddir_some {name : List UInt8} {s' : State}
    (h : ext2VfsFinddir s node name = some (some target, s')) (hn : IsInode G target.inodeNum) :
    ∀ y < inodeStructSize, target.inode y = inodeAt G s.disk target.inodeNum y := by
  unfold ext2VfsFinddir at h
  split at h
  · cases h
  have hskip := readDirData_skips hr node.inode
  split at h
  · cases h
  rename_i d s1 heq
  rw [heq] at hskip
  have hskip : Skips s s1 := hskip
  obtain ⟨r, -, hr'⟩ := map_eq_some_iff.mp h
  cases r with
  | none => cases hr'
  | some off =>
    obtain ⟨hnum, -, hino⟩ := createNode_some (hskip.ready hr) hr'
    rw [hnum] at hn ⊢
    rw [← hskip.disk]
    exact hino hn

theorem isDirEmpty_skips {inode : Mem} {s' : State}
    (h : ext2IsDirEmpty s inode = some (e, s')) : Skips s s' := by
  unfold ext2IsDirEmpty at h
  split at h
  · cases h
    exact .refl s
  have hskip := readDirData_skips hr inode
  split at h
  · rename_i heq
    rw [heq] at hskip
    cases h
    exact hskip
  · rename_i heq
    rw [heq] at hskip
    obtain ⟨r, -, hr'⟩ := map_eq_some_iff.mp h
    cases hr'
    exact hskip

end

end Skip

/-! ## directory の書き換え -/

/-- `ext2_add_dir_entry` の最後に、directory の data を書き戻す。 -/
def writeBack (s : State) (num : Nat) (ino d : Mem) : Bool × Mem × State :=
  let (r, ino, s) := ext2WriteInodeData s ino num 0 (iSize ino) d
  (decide (0 ≤ r), ino, s)

/-- 余りがないとき、一つの block を足して entry を置く。 -/
def growDir (s : State) (num : Nat) (ino d : Mem) (new : Nat) (name : List UInt8) (ft : Nat) :
    Option (Bool × Mem × State) :=
  let (newBlock, s) := ext2AllocBlock s
  if newBlock < 0 then some (false, ino, s)
  else
    match kmalloc s with
    | (none, s) => some (false, ino, (ext2FreeBlock s newBlock.toNat).2)
    | (some buf, s) =>
      if iSize ino + s.fs.blockSize < 2 ^ 32 then
        some (writeBack s num (setISize ino (iSize ino + s.fs.blockSize))
          (extendDir s.fs buf d (iSize ino) new name ft))
      else none

/-- 読んだ data `d` に entry を置く。 -/
def placeEntry (s : State) (num : Nat) (ino d : Mem) (new : Nat) (name : List UInt8) (ft : Nat) :
    Option (Bool × Mem × State) :=
  (spaceScan d (iSize ino) (ext2DirEntrySize name.length) walkFuel 0).bind fun found =>
    match found with
    | some offset =>
      (splitEntry d (iSize ino) offset new name ft).map fun d => writeBack s num ino d
    | none => growDir s num ino d new name ft

/-- `ext2_add_dir_entry` の読む data。空の directory なら、buffer を取るだけである。 -/
def entryData (s : State) (ino : Mem) : Option Mem × State :=
  if iSize ino = 0 then kmalloc s else readDirData s ino

/-- `ext2_add_dir_entry` は、data を読んで、名前の先頭の 255 byte の entry を置く。 -/
theorem addDirEntry_eq (s : State) (ino : Mem) (num new : Nat) (name : List UInt8) (ft : Nat) :
    ext2AddDirEntry s ino num new name ft = match entryData s ino with
      | (none, s) => some (false, ino, s)
      | (some d, s) => placeEntry s num ino d new (name.take 255) ft := by
  unfold ext2AddDirEntry entryData
  by_cases h : iSize ino = 0
  · rw [if_pos h, if_pos h]
    rfl
  · rw [if_neg h, if_neg h]
    rfl

section Dir

variable {G : Geom} {s s' : State} {x n : Nat} {roots : Nat → Nat → Nat} {ino ino' : Mem}

theorem entryData_skips (hr : Ready G s) (ino : Mem) : Skips s (entryData s ino).2 := by
  unfold entryData
  split
  · exact .next s
  · exact readDirData_skips hr ino

theorem Exact.setISize (he : Exact ino roots n) (v : Nat) : Exact (setISize ino v) roots n :=
  fun k hk => (load_store_of_disjoint (by omega)).trans (he k hk)

theorem iSize_lt : iSize ino < 2 ^ 32 := load_lt _ _ _

/-- directory の data を書き戻す。 -/
theorem writeDir_grown (inv : Inv G s x roots) (hn : (view G s.disk x roots).live n = true)
    (he : Exact ino roots n) (d : Mem) : ∃ r ino' s' roots',
      ext2WriteInodeData s ino n 0 (iSize ino) d = (r, ino', s') ∧
      Grown G x n s s' roots roots' ∧ Exact ino' roots' n := by
  obtain ⟨r, ino', s', roots', h, hout⟩ := writeInodeData_spec inv hn he 0 iSize_lt d
  exact ⟨r, ino', s', roots', h, hout.grown, hout.exact⟩

theorem Skips.grown (h : Skips s s') (inv : Inv G s x roots) (n : Nat) :
    Grown G x n s s' roots roots := by
  obtain ⟨i, rfl⟩ := h
  exact (inv.calm_heap i).grown

section

variable (inv : Inv G s x roots) (hn : (view G s.disk x roots).live n = true)
  (he : Exact ino roots n)
include inv hn he

/-- entry を消しても、その directory の木が伸びるだけである。 -/
theorem removeDirEntry_grown {name : List UInt8} {r : Int}
    (h : ext2RemoveDirEntry s ino n name = some (r, ino', s')) :
    ∃ roots', Grown G x n s s' roots roots' ∧ Exact ino' roots' n := by
  have hskip := readDirData_skips inv.ready ino
  unfold ext2RemoveDirEntry at h
  split at h
  · cases h
    exact ⟨roots, (Skips.refl s).grown inv n, he⟩
  split at h
  · rename_i heq
    rw [heq] at hskip
    cases h
    exact ⟨roots, hskip.grown inv n, he⟩
  rename_i d s1 heq
  rw [heq] at hskip
  have hg := hskip.grown inv n
  obtain ⟨found, -, h⟩ := bind_eq_some_iff.mp h
  cases found with
  | none =>
    cases h
    exact ⟨roots, hg, he⟩
  | some f =>
    obtain ⟨d', -, h⟩ := map_eq_some_iff.mp h
    split at h
    · cases h
      exact ⟨roots, hg, he⟩
    · have hn1 : (view G s1.disk x roots).live n = true := by rwa [hskip.disk]
      obtain ⟨r', ino1, s2, roots1, hw, hg1, he1⟩ := writeDir_grown hg.inv hn1 he d'
      rw [hw] at h
      cases h
      exact ⟨roots1, hg.trans hg1, he1⟩

theorem writeBack_grown (d : Mem) : ∃ ok ino' s' roots',
      writeBack s n ino d = (ok, ino', s') ∧ Grown G x n s s' roots roots' ∧
      Exact ino' roots' n := by
  obtain ⟨r, ino', s', roots', h, hg, he'⟩ := writeDir_grown inv hn he d
  exact ⟨decide (0 ≤ r), ino', s', roots', by simp only [writeBack, h], hg, he'⟩

theorem growDir_grown {d : Mem} {name : List UInt8}
    (h : growDir s n ino d new name ft = some (ok, ino', s')) :
    ∃ roots', Grown G x n s s' roots roots' ∧ Exact ino' roots' n := by
  unfold growDir at h
  rcases inv.allocBlock with ⟨i, halloc, -⟩ | ⟨b, s1, halloc, hc, hb, -⟩
  · simp only [halloc] at h
    cases h
    exact ⟨roots, (inv.calm_heap i).grown, he⟩
  simp only [halloc] at h
  rw [if_neg (by omega), Int.toNat_natCast, kmalloc_eq] at h
  have hc1 := hc.trans hc.inv.calm_next
  have hb1 : Fresh G s1.next x _ b := ⟨hb.owned, hb.apart⟩
  cases hheap : s1.heap 0 with
  | none =>
    simp only [hheap] at h
    cases h
    rcases hc1.inv.freeBlock hb1 with ⟨-, hfree⟩ | ⟨s2, hfree, hc2, -⟩
    · rw [hfree]
      exact ⟨roots, (hc1.trans hc1.inv.calm_next).grown, he⟩
    · rw [hfree]
      exact ⟨roots, (hc1.trans hc2).grown, he⟩
  | some buf =>
    simp only [hheap] at h
    split at h
    · have hn1 : (view G s1.next.disk x roots).live n = true := by
        rw [view_live, hc1.live_eq]
        exact view_live.mp hn
      obtain ⟨ok', ino1, s2, roots1, hw, hg, he1⟩ := writeBack_grown hc1.inv hn1 (he.setISize _) _
      rw [hw] at h
      cases h
      exact ⟨roots1, hc1.grown.trans hg, he1⟩
    · cases h

/-- entry を足しても、その directory の木が伸びるだけである。 -/
theorem addDirEntry_grown {name : List UInt8}
    (h : ext2AddDirEntry s ino n new name ft = some (ok, ino', s')) :
    ∃ roots', Grown G x n s s' roots roots' ∧ Exact ino' roots' n := by
  rw [addDirEntry_eq] at h
  have hskip := entryData_skips inv.ready ino
  generalize entryData s ino = read at h hskip
  obtain ⟨d, s1⟩ := read
  have hskip : Skips s s1 := hskip
  have hg := hskip.grown inv n
  have hn1 : (view G s1.disk x roots).live n = true := by rwa [hskip.disk]
  cases d with
  | none =>
    cases h
    exact ⟨roots, hg, he⟩
  | some d =>
    obtain ⟨found, -, h⟩ := bind_eq_some_iff.mp h
    cases found with
    | some offset =>
      obtain ⟨d', -, h⟩ := map_eq_some_iff.mp h
      obtain ⟨ok', ino1, s2, roots1, hw, hg1, he1⟩ := writeBack_grown hg.inv hn1 he d'
      rw [hw] at h
      cases h
      exact ⟨roots1, hg.trans hg1, he1⟩
    | none =>
      obtain ⟨roots1, hg1, he1⟩ := growDir_grown hg.inv hn1 he h
      exact ⟨roots1, hg.trans hg1, he1⟩

end

end Dir

/-! ## 操作の場合分け -/

/-- inode を割り当てられずに終わる。 -/
inductive Barred (s : State) (parent : Node) (name : List UInt8) : State → Prop
  | notDir : parent.type &&& vfsDirectory = 0 → Barred s parent name s
  | existing {node : Node} {s1 : State} : ext2VfsFinddir s parent name = some (some node, s1) →
      Barred s parent name s1
  | noInode {i : Int} {s1 s2 : State} : ext2VfsFinddir s parent name = some (none, s1) →
      ext2AllocInode s1 = (i, s2) → i < 0 → Barred s parent name s2

/-- 名前はまだなく、inode `i` を割り当てた。 -/
def NewInode (s : State) (parent : Node) (name : List UInt8) (i : Int) (s2 : State) : Prop :=
  ∃ s1, ext2VfsFinddir s parent name = some (none, s1) ∧ ext2AllocInode s1 = (i, s2) ∧ ¬i < 0

/-- `ext2_vfs_create` の終わり方。 -/
inductive Created (s : State) (parent : Node) (name : List UInt8) : Int → Node → State → Prop
  | barred {s1 : State} : Barred s parent name s1 → Created s parent name (-1) parent s1
  | unwritten {i : Int} {s2 s3 : State} : NewInode s parent name i s2 →
      ext2WriteInode s2 i.toNat newFileInode = (false, s3) →
      Created s parent name (-1) parent (ext2FreeInode s3 i.toNat).2
  | notAdded {i : Int} {ino : Mem} {s2 s3 s4 : State} : NewInode s parent name i s2 →
      ext2WriteInode s2 i.toNat newFileInode = (true, s3) →
      ext2AddDirEntry s3 parent.inode parent.inodeNum i.toNat name 1 = some (false, ino, s4) →
      Created s parent name (-1) { parent with inode := ino } (ext2FreeInode s4 i.toNat).2
  | done {i : Int} {ino : Mem} {s2 s3 s4 : State} : NewInode s parent name i s2 →
      ext2WriteInode s2 i.toNat newFileInode = (true, s3) →
      ext2AddDirEntry s3 parent.inode parent.inodeNum i.toNat name 1 = some (true, ino, s4) →
      Created s parent name 0 { parent with inode := ino } s4

/-- `ext2_vfs_mkdir` の終わり方。 -/
inductive MadeDir (s : State) (parent : Node) (name : List UInt8) : Int → Node → State → Prop
  | barred {s1 : State} : Barred s parent name s1 → MadeDir s parent name (-1) parent s1
  | noBlock {i j : Int} {s2 s3 : State} : NewInode s parent name i s2 →
      ext2AllocBlock s2 = (j, s3) → j < 0 →
      MadeDir s parent name (-1) parent (ext2FreeInode s3 i.toNat).2
  | unmade {i j : Int} {s2 s3 s4 : State} : NewInode s parent name i s2 →
      ext2AllocBlock s2 = (j, s3) → ¬j < 0 →
      makeDirectory s3 i.toNat j.toNat parent.inodeNum = (false, s4) →
      MadeDir s parent name (-1) parent s4
  | notAdded {i j : Int} {ino : Mem} {s2 s3 s4 s5 : State} : NewInode s parent name i s2 →
      ext2AllocBlock s2 = (j, s3) → ¬j < 0 →
      makeDirectory s3 i.toNat j.toNat parent.inodeNum = (true, s4) →
      ext2AddDirEntry s4 parent.inode parent.inodeNum i.toNat name 2 = some (false, ino, s5) →
      MadeDir s parent name (-1) { parent with inode := ino }
        (ext2FreeInode (ext2FreeBlock s5 j.toNat).2 i.toNat).2
  | done {i j : Int} {ino : Mem} {s2 s3 s4 s5 : State} : NewInode s parent name i s2 →
      ext2AllocBlock s2 = (j, s3) → ¬j < 0 →
      makeDirectory s3 i.toNat j.toNat parent.inodeNum = (true, s4) →
      ext2AddDirEntry s4 parent.inode parent.inodeNum i.toNat name 2 = some (true, ino, s5) →
      MadeDir s parent name 0 (linkDirectory s5 { parent with inode := ino } i.toNat).1
        (linkDirectory s5 { parent with inode := ino } i.toNat).2

/-- `target` が見つかった。directory なら、空かどうかを `e` が表す。 -/
def Probed (s : State) (parent : Node) (name : List UInt8) (target : Node) (e : Int) (s2 : State) :
    Prop :=
  ∃ s1, ext2VfsFinddir s parent name = some (some target, s1) ∧
    (if target.type = vfsDirectory then ext2IsDirEmpty s1 target.inode else some (1, s1))
      = some (e, s2)

/-- `ext2_vfs_unlink` の終わり方。 -/
inductive Unlinked (s : State) (parent : Node) (name : List UInt8) : Int → Node → State → Prop
  | dots : name = [46] ∨ name = [46, 46] → Unlinked s parent name (-1) parent s
  | absent {s1 : State} : ext2VfsFinddir s parent name = some (none, s1) →
      Unlinked s parent name (-1) parent s1
  | notEmpty {target : Node} {e : Int} {s2 : State} : Probed s parent name target e s2 → e ≠ 1 →
      Unlinked s parent name (-1) parent s2
  | notRemoved {target : Node} {removed : Int} {ino : Mem} {s2 s3 : State} :
      Probed s parent name target 1 s2 →
      ext2RemoveDirEntry s2 parent.inode parent.inodeNum name = some (removed, ino, s3) →
      removed < 0 → Unlinked s parent name (-1) { parent with inode := ino } s3
  | kept {target : Node} {removed : Int} {ino : Mem} {s2 s3 : State} :
      ¬(name = [46] ∨ name = [46, 46]) → Probed s parent name target 1 s2 →
      ext2RemoveDirEntry s2 parent.inode parent.inodeNum name = some (removed, ino, s3) →
      ¬removed < 0 → (iLinksCount target.inode + 2 ^ 16 - 1) % 2 ^ 16 ≠ 0 →
      Unlinked s parent name 0 { parent with inode := ino } (ext2WriteInode s3 target.inodeNum
        (setILinksCount target.inode ((iLinksCount target.inode + 2 ^ 16 - 1) % 2 ^ 16))).2
  | destroyed {target : Node} {removed : Int} {ino : Mem} {s2 s3 : State} :
      ¬(name = [46] ∨ name = [46, 46]) → Probed s parent name target 1 s2 →
      ext2RemoveDirEntry s2 parent.inode parent.inodeNum name = some (removed, ino, s3) →
      ¬removed < 0 → (iLinksCount target.inode + 2 ^ 16 - 1) % 2 ^ 16 = 0 →
      Unlinked s parent name 0 (destroyInode s3 { parent with inode := ino }
          { target with inode := setILinksCount target.inode 0 }).1
        (destroyInode s3 { parent with inode := ino }
          { target with inode := setILinksCount target.inode 0 }).2

theorem Probed.skips {G : Geom} {s s2 : State} {parent : Node} {name : List UInt8}
    (h : Probed s parent name target e s2) (hr : Ready G s) : Skips s s2 := by
  obtain ⟨s1, hfind, h⟩ := h
  have hskip := finddir_skips hr hfind
  split at h
  · exact hskip.trans (isDirEmpty_skips (hskip.ready hr) h)
  · cases h
    exact hskip

section Cases

variable {s s' : State} {parent parent' : Node} {name : List UInt8} {r : Int}

theorem create_cases (h : ext2VfsCreate s parent name = some (r, parent', s')) :
    Created s parent name r parent' s' := by
  unfold ext2VfsCreate at h
  split at h
  · cases h
    exact .barred (.notDir ‹_›)
  obtain ⟨⟨existing, s1⟩, hfind, h⟩ := bind_eq_some_iff.mp h
  cases existing with
  | some node =>
    cases h
    exact .barred (.existing hfind)
  | none =>
    simp only [isSome_none, Bool.false_eq_true, if_false] at h
    obtain ⟨i, s2, halloc⟩ : ∃ i s2, ext2AllocInode s1 = (i, s2) := ⟨_, _, rfl⟩
    rw [halloc] at h
    split at h
    · cases h
      exact .barred (.noInode hfind halloc ‹_›)
    rename_i hi
    have hnew : NewInode s _ name i s2 := ⟨s1, hfind, halloc, hi⟩
    obtain ⟨ok, s3, hwrite⟩ : ∃ ok s3, ext2WriteInode s2 i.toNat newFileInode = (ok, s3) :=
      ⟨_, _, rfl⟩
    rw [hwrite] at h
    cases ok with
    | false =>
      cases h
      exact .unwritten hnew hwrite
    | true =>
      obtain ⟨⟨added, ino, s4⟩, hadd, h⟩ := map_eq_some_iff.mp h
      cases added with
      | false =>
        cases h
        exact .notAdded hnew hwrite hadd
      | true =>
        cases h
        exact .done hnew hwrite hadd

theorem mkdir_cases (h : ext2VfsMkdir s parent name = some (r, parent', s')) :
    MadeDir s parent name r parent' s' := by
  unfold ext2VfsMkdir at h
  split at h
  · cases h
    exact .barred (.notDir ‹_›)
  obtain ⟨⟨existing, s1⟩, hfind, h⟩ := bind_eq_some_iff.mp h
  cases existing with
  | some node =>
    cases h
    exact .barred (.existing hfind)
  | none =>
    simp only [isSome_none, Bool.false_eq_true, if_false] at h
    obtain ⟨i, s2, halloc⟩ : ∃ i s2, ext2AllocInode s1 = (i, s2) := ⟨_, _, rfl⟩
    rw [halloc] at h
    split at h
    · cases h
      exact .barred (.noInode hfind halloc ‹_›)
    rename_i hi
    have hnew : NewInode s _ name i s2 := ⟨s1, hfind, halloc, hi⟩
    obtain ⟨j, s3, hblock⟩ : ∃ j s3, ext2AllocBlock s2 = (j, s3) := ⟨_, _, rfl⟩
    rw [hblock] at h
    split at h
    · cases h
      exact .noBlock hnew hblock ‹_›
    rename_i hj
    obtain ⟨ok, s4, hmake⟩ : ∃ ok s4,
        makeDirectory s3 i.toNat j.toNat parent.inodeNum = (ok, s4) := ⟨_, _, rfl⟩
    rw [hmake] at h
    cases ok with
    | false =>
      cases h
      exact .unmade hnew hblock hj hmake
    | true =>
      obtain ⟨⟨added, ino, s5⟩, hadd, h⟩ := map_eq_some_iff.mp h
      cases added with
      | false =>
        cases h
        exact .notAdded hnew hblock hj hmake hadd
      | true =>
        cases h
        exact .done hnew hblock hj hmake hadd

theorem unlink_cases (h : ext2VfsUnlink s parent name = some (r, parent', s')) :
    Unlinked s parent name r parent' s' := by
  unfold ext2VfsUnlink at h
  split at h
  · cases h
    exact .dots ‹_›
  rename_i hdots
  obtain ⟨⟨target, s1⟩, hfind, h⟩ := bind_eq_some_iff.mp h
  cases target with
  | none =>
    cases h
    exact .absent hfind
  | some target =>
    obtain ⟨⟨e, s2⟩, hempty, h⟩ := bind_eq_some_iff.mp h
    have hprobe : Probed s _ name _ e s2 := ⟨s1, hfind, hempty⟩
    simp only at h
    split at h
    · cases h
      exact .notEmpty hprobe ‹_›
    rename_i he
    obtain rfl : e = 1 := not_not.mp he
    obtain ⟨⟨removed, ino, s3⟩, hremove, h⟩ := map_eq_some_iff.mp h
    split at h
    · cases h
      exact .notRemoved hprobe hremove ‹_›
    rename_i hr
    split at h
    · rename_i hlinks
      simp only [hlinks, Prod.mk.injEq] at h
      obtain ⟨rfl, rfl, rfl⟩ := h
      exact .destroyed hdots hprobe hremove hr hlinks
    · rename_i hlinks
      obtain ⟨rfl, rfl, rfl⟩ := h
      exact .kept hdots hprobe hremove hr hlinks

end Cases

end Alos.Ext2
