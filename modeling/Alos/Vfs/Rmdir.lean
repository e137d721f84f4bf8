import Alos.Ext2.Removal
import Alos.Vfs.Paths

/-!
# `vfs_rmdir`

`vfs_rmdir` は `vfs_unlink` であり、作ったばかりの directory を消しても、block も inode も返らない。

* `rmdir_leaks` — 成功した `ext2_vfs_mkdir` を `vfs_rmdir` で消すと、名前だけが消える
* `rmdir_not_restored` — 一つの block と一つの inode が失われる例
-/

namespace Alos.Vfs

open Bytes Ext2 Option

section Rmdir

variable {G : Geom} {s s1 s2 : State} {parent parent1 root : Node} {bl : List (List Entry)}
  {name path : List UInt8} {k : Nat} {handle : Handle} {v v' : Mount}

theorem unlink_atParent (h : vfsUnlink v path = some (0, v')) :
    atParent ext2VfsUnlink v path = some (0, v') := by
  unfold vfsUnlink at h
  split at h
  · cases h
  · split at h
    · cases h
    · exact h

/--
**作ったばかりの directory を消しても、名前のほかは何も元に戻らない。**

`path` の親は、`mkdir` をした directory の、disk に追いついた node に解決されるものとする。空きの block も
inode も一つ減ったままで、group の directory の数も、親の link の数も、一つ増えたままである。
-/
theorem rmdir_leaks (hm : Mounted G s) (hok : HeapOk s) (W : WellFormedDir G s parent bl)
    (hname : 0 < name.length ∧ name.length < 256) (hroom : HasRoom bl.flatten name)
    (habs : lookup (listing bl.flatten) name = none)
    (hmkdir : ext2VfsMkdir s parent name = some (0, parent1, s1))
    (hk : lastSlash path 0 none = some k) (hlast : path.drop (k + 1) = name)
    (hres : vfsResolvePath ⟨s1, root⟩ (parentPath path k) = some (some handle, s2))
    (hnum : (handle.node root).inodeNum = parent.inodeNum)
    (hcur : ∀ y < inodeStructSize, (handle.node root).inode y = inodeAt G s1.disk parent.inodeNum y)
    (hrmdir : vfsRmdir ⟨s1, root⟩ path = some (0, v)) : Leaked G s v.fs parent.inodeNum name := by
  have inv := hm.inv
  have D := W.directory hm.ready.wf
  have hmade := mkdir_cases hmkdir
  obtain ⟨n, b, es1, roots1, hent, -⟩ :=
    hmade.entered inv (synced_rootAt G _) D hok hname.2 (.inl hroom)
  have hskip : Skips s1 s2 := resolvePath_skips (v := ⟨s1, root⟩) hent.inv.ready hres
  obtain ⟨k', handle', s3, node, s', hk', -, hres', htype, hcall, rfl⟩ :=
    atParent_done (unlink_atParent hrmdir)
  obtain rfl : k = k' := some.inj (hk.symm.trans hk')
  obtain ⟨rfl, rfl⟩ : handle = handle' ∧ s2 = s3 := by
    simpa only [some.injEq, Prod.mk.injEq] using hres.symm.trans hres'
  rw [hlast] at hcall
  have hleak := hmade.leaked inv (synced_rootAt G _) D hok hname hroom habs W.copy hskip
    hnum (by rw [htype]; decide) hcur (unlink_cases hcall)
  cases handle <;> exact hleak

end Rmdir

/-! ## 例 -/

/-- `plainState` の root directory に `d` を作る。 -/
def plainMkdir : Int × Node × State :=
  (ext2VfsMkdir plainState (rootNode plainState) [100]).getD (0, rootNode plainState, plainState)

/-- それを `/d` で消す。 -/
def plainRmdir : Int × Mount :=
  (vfsRmdir ⟨plainMkdir.2.2, plainMkdir.2.1⟩ [slash, 100]).getD
    (0, ⟨plainState, rootNode plainState⟩)

set_option maxRecDepth 20000

theorem plainMkdir_eq : ext2VfsMkdir plainState (rootNode plainState) [100]
    = some (0, plainMkdir.2.1, plainMkdir.2.2) := by
  have hval : (ext2VfsMkdir plainState (rootNode plainState) [100]).map Prod.fst = some 0 := by
    decide +kernel
  obtain ⟨⟨r, node, s⟩, hcall, rfl⟩ := map_eq_some_iff.mp hval
  rw [plainMkdir, hcall, getD_some]

theorem plainRmdir_eq : vfsRmdir ⟨plainMkdir.2.2, plainMkdir.2.1⟩ [slash, 100]
    = some (0, plainRmdir.2) := by
  have hval : (vfsRmdir ⟨plainMkdir.2.2, plainMkdir.2.1⟩ [slash, 100]).map Prod.fst = some 0 := by
    decide +kernel
  obtain ⟨⟨r, v⟩, hcall, rfl⟩ := map_eq_some_iff.mp hval
  rw [plainRmdir, hcall, getD_some]

theorem plain_hasRoom : HasRoom plainBlocks.flatten [100] :=
  ⟨⟨3, 1000, [97], 1⟩, by decide, by decide⟩

theorem rmdir_leaks_plain : Leaked wideFs.geom plainState plainRmdir.2.fs 2 [100] := by
  have hok : HeapOk plainState := fun _ => ⟨_, rfl⟩
  have hleak : ∀ (node : Node) (s : State) (v : Mount),
      ext2VfsMkdir plainState (rootNode plainState) [100] = some (0, node, s) →
      vfsRmdir ⟨s, node⟩ [slash, 100] = some (0, v) →
        Leaked wideFs.geom plainState v.fs 2 [100] := by
    intro node s v hmkdir hrmdir
    obtain ⟨n, b, es', roots', hent, -⟩ := (mkdir_cases hmkdir).entered plain_mounted.inv
      (synced_rootAt _ _) (plain_root.directory wide_wf) hok
      (show ([100] : List _).length < 256 by decide) (.inl plain_hasRoom)
    have hres : vfsResolvePath ⟨s, node⟩ (parentPath [slash, 100] 0) = some _ := rfl
    exact rmdir_leaks plain_mounted hok plain_root (by decide) plain_hasRoom (by decide) hmkdir
      rfl rfl hres hent.num (fun y hy => (hent.stored y hy).symm) hrmdir
  exact hleak _ _ _ plainMkdir_eq plainRmdir_eq

/-- **空の directory を作って消すと、block と inode が一つずつ失われ、親の link が一つ増える。** -/
theorem rmdir_not_restored : Mounted wideFs.geom plainState ∧ HeapOk plainState ∧
    WellFormedDir wideFs.geom plainState (rootNode plainState) plainBlocks ∧
    found plainState (rootNode plainState) [100] = some none ∧
    ext2VfsMkdir plainState (rootNode plainState) [100] = some (0, plainMkdir.2.1, plainMkdir.2.2) ∧
    vfsRmdir ⟨plainMkdir.2.2, plainMkdir.2.1⟩ [slash, 100] = some (0, plainRmdir.2) ∧
    (blockPool.total plainState.fs, inodePool.total plainState.fs,
      bgUsedDirsCount plainState.fs.groupDescs 0,
      iLinksCount (inodeAt wideFs.geom plainState.disk 2)) = (56, 5, 1, 2) ∧
    (blockPool.total plainRmdir.2.fs.fs, inodePool.total plainRmdir.2.fs.fs,
      bgUsedDirsCount plainRmdir.2.fs.fs.groupDescs 0,
      iLinksCount (inodeAt wideFs.geom plainRmdir.2.fs.disk 2)) = (55, 4, 2, 3) := by
  refine ⟨plain_mounted, fun _ => ⟨_, rfl⟩, plain_root, by decide +kernel, plainMkdir_eq,
    plainRmdir_eq, by decide +kernel, ?_⟩
  decide +kernel

end Alos.Vfs
