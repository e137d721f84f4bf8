import Alos.Ext2.Creation
import Alos.Ext2.NameMap

/-!
# directory の block の敷き詰め

整った directory では、どの block も entry でちょうど敷き詰められている。名前を足すことと消すことは、
これを保つ。ただし、block の先頭の entry を消すと、前の block の最後の entry に合わされ、
block の境を越える。

* `dir_blocks_tiled` — block の先頭の entry を消さない実行では、どの block も敷き詰められている
* `remove_crosses_block` — block の先頭の entry を消すと、境を越える
-/

namespace Alos.Ext2

open Bytes Bitmap Records Run Option

/-! ## 操作 -/

/-- 一つの directory への操作。 -/
inductive DirOp where
  | mkdir (name : List UInt8)
  | add (new ft : Nat) (name : List UInt8)
  | remove (name : List UInt8)

/-- 操作の戻り値、書き換わった node、状態。 -/
def DirOp.call (s : State) (node : Node) : DirOp → Option (Int × Node × State)
  | .mkdir name => ext2VfsMkdir s node name
  | .add new ft name => (ext2AddDirEntry s node.inode node.inodeNum new name ft).map
      fun (ok, inode, s) => (if ok then 0 else -1, { node with inode }, s)
  | .remove name => (ext2RemoveDirEntry s node.inode node.inodeNum name).map
      fun (r, inode, s) => (r, { node with inode }, s)

/-- 成功した操作だけを一手とする。 -/
def dirStep (t : State × Node) (op : DirOp) : Option (State × Node) :=
  (op.call t.1 t.2).bind fun (r, node, s) => if 0 ≤ r then some (s, node) else none

/-- directory の data。 -/
def dirData (G : Geom) (t : State × Node) : Mem :=
  fileByte G (imageView G t.1.disk) t.2.inodeNum

/-- entry の余りに名前が入る。 -/
def Fitting (G : Geom) (t : State × Node) (name : List UInt8) : Prop :=
  ∃ o, spaceScan (dirData G t) (iSize t.2.inode) (ext2DirEntrySize name.length) walkFuel 0
    = some (some o)

/-- 空きの block が一つもないか、新しい block に足せる。 -/
def Spacious (G : Geom) (t : State × Node) (free : Nat) : Prop :=
  free = 0 ∨ Growable G (imageView G t.1.disk) t.2.inodeNum t.2.inode free

/-- 名前を足すときは余りか空きの block があり、消す entry は block の先頭にない。 -/
def DirLegal (G : Geom) (t : State × Node) : DirOp → Prop
  | .mkdir name => (0 < name.length ∧ name.length < 256) ∧
      (Fitting G t name ∨ Spacious G t (blockPool.total t.1.fs - 1))
  | .add new ft name => (0 < name.length ∧ name.length < 256) ∧ new < 2 ^ 32 ∧ ft < 256 ∧
      (Fitting G t name ∨ Spacious G t (blockPool.total t.1.fs))
  | .remove name => (0 < name.length ∧ name.length < 256) ∧
      ∀ o p, removeScan (dirData G t) (iSize t.2.inode) name walkFuel 0 none
        = some (some (o, some p)) → o % G.blockSize ≠ 0

/-- どの block も、`rec_len` が 4 の倍数で名前の収まる entry で、ちょうど敷き詰められている。 -/
def BlocksTiled (G : Geom) (t : State × Node) : Prop :=
  ∃ bl : List (List Entry), iSize t.2.inode = bl.length * G.blockSize ∧ ∀ j b, bl[j]? = some b →
      Tiles Entry.recLen (entryAt (dirData G t)) (j * G.blockSize) b ((j + 1) * G.blockSize) ∧
      ∀ e ∈ b, 4 ∣ e.recLen ∧ 8 + e.name.length ≤ e.recLen

section Step

variable {G : Geom} {s s₀ : State} {node node₀ : Node} {t t' : State × Node} {op : DirOp}
  {ops : List DirOp} {bl bl₀ : List (List Entry)} {name : List UInt8}

theorem WellFormedDir.length_lt (W : WellFormedDir G s node bl) : bl.flatten.length < walkFuel := by
  have := W.blocked.laid.tiles.length_le
  have := W.lt
  unfold walkFuel
  omega

/-- 見つけた余りは、どれかの entry の余りである。 -/
theorem Fitting.hasRoom (W : WellFormedDir G t.1 t.2 bl) (h : Fitting G t name) :
    HasRoom bl.flatten name := by
  obtain ⟨o, ho⟩ := h
  have hlt := W.lt
  rw [dirData, spaceScan_eq (by omega) W.blocked.laid.tiles W.blocked.laid.fits W.length_lt,
    some.injEq] at ho
  obtain ⟨pre, e, post, he, -, hroomy, -⟩ := seek_eq_some ho
  exact ⟨e, he ▸ by simp, hroomy⟩

theorem Spacious.addable {free : Nat} (W : WellFormedDir G t.1 t.2 bl)
    (h : Fitting G t name ∨ Spacious G t free) :
    Addable G (view G t.1.disk 0 (rootAt G t.1.disk)) t.2.inodeNum t.2.inode
      bl.flatten name free := by
  rw [view_eq_imageView]
  exact h.imp_left fun h => h.hasRoom W

/-- 消す entry は、directory の先頭にあるか、block の先頭にない。 -/
theorem DirLegal.inner (W : WellFormedDir G t.1 t.2 bl) (h : DirLegal G t (.remove name)) :
    ∀ pre y e post, bl.flatten = pre ++ y :: e :: post → e.has name = true →
      (∀ z ∈ pre ++ [y], z.has name = false) →
        span Entry.recLen (pre ++ [y]) % G.blockSize ≠ 0 := by
  intro pre y e post hes he hpre
  have hlt := W.lt
  refine h.2 _ (span Entry.recLen pre) ?_
  rw [dirData, removeScan_eq (by omega) W.blocked.laid.tiles W.length_lt, hes,
    seekPrev_append he hpre, Nat.zero_add, Nat.zero_add]

/-- **一つの操作は、敷き詰めを保つ。** -/
theorem dirStep_tiled (hbs : G.blockSize < 2 ^ 16) (hm : Mounted G t.1) (hok : HeapOk t.1)
    (W : WellFormedDir G t.1 t.2 bl) (hl : DirLegal G t op) (h : dirStep t op = some t') :
    Mounted G t'.1 ∧ HeapOk t'.1 ∧ ∃ bl', WellFormedDir G t'.1 t'.2 bl' := by
  obtain ⟨s, node⟩ := t
  have inv := hm.inv
  have D := W.directory hm.ready.wf
  have hs := synced_rootAt G s.disk
  obtain ⟨⟨r, node', s'⟩, hcall, h⟩ := bind_eq_some_iff.mp h
  simp only at h
  split at h
  · rename_i hr
    cases h
    cases op with
    | mkdir name =>
      have hmade := mkdir_cases hcall
      obtain rfl : r = 0 := by cases hmade <;> first | rfl | omega
      obtain ⟨n, b, es', roots', hent, hes, -⟩ := hmade.entered inv hs D hok hl.1.2
        (Spacious.addable W hl.2)
      obtain ⟨bl', -, W'⟩ := hent.wellFormed W.isDir (hes.paged W.paged)
      exact ⟨hent.inv.mounted, hok.shift hent.heap, bl', W'⟩
    | add new ft name =>
      obtain ⟨hname, hnew, hft, hadd⟩ := hl
      obtain ⟨⟨ok, ino, s1⟩, hadded, he⟩ := map_eq_some_iff.mp hcall
      cases he
      obtain rfl : ok = true := by
        cases ok
        · cases hr
        · rfl
      obtain ⟨roots', es', hu, hes, -⟩ := addDirEntry_spec inv D (hok.addMem inv) hnew
        hname.2 hft (Spacious.addable W hadd) hadded
      obtain ⟨bl', -, W'⟩ := hu.wellFormed hs W.isDir (hes.paged W.paged)
      exact ⟨hu.grown.inv.mounted, hok.shift hu.grown.heap, bl', W'⟩
    | remove name =>
      obtain ⟨⟨r', ino, s1⟩, hremoved, he⟩ := map_eq_some_iff.mp hcall
      cases he
      have hinner := hl.inner W
      obtain ⟨es', hes, hw⟩ := removeDirEntry_spec inv D
        (.inr fun _ _ h => (hok.readDirData inv h).next) hl.1 (fun pre y e post hes he hpre =>
          lt_of_le_of_lt (Paged.pair_le (hes ▸ W.paged) (hinner pre y e post hes he hpre)) hbs)
        hremoved hr
      obtain ⟨bl', -, W'⟩ := hw.updated.wellFormed hs W.isDir (hes.paged W.paged hinner)
      exact ⟨hw.grown.inv.mounted, hok.shift hw.grown.heap, bl', W'⟩
  · cases h

theorem WellFormedDir.blocksTiled (W : WellFormedDir G t.1 t.2 bl) : BlocksTiled G t := by
  refine ⟨bl, W.blocked.size_eq, ?_⟩
  intro j b hb
  have hlaid := W.blocked.laid
  refine ⟨hlaid.tiles.page W.blocked.full hb, fun e he => hlaid.fits e ?_⟩
  exact List.mem_flatten.mpr ⟨b, List.mem_of_getElem? hb, he⟩

/--
**block の先頭の entry を消さない実行では、directory のどの block も敷き詰められている。**

足すときには余りか空きの block があるものとする。ないと、書き戻しが途中で終わることがある。
-/
theorem dir_blocks_tiled (hbs : G.blockSize < 2 ^ 16) (hm : Mounted G s₀) (hok : HeapOk s₀)
    (W : WellFormedDir G s₀ node₀ bl₀)
    (hreach : Reach dirStep (DirLegal G) (s₀, node₀) ops t) : BlocksTiled G t := by
  have h := hreach.invariant
    (P := fun t => Mounted G t.1 ∧ HeapOk t.1 ∧ ∃ bl, WellFormedDir G t.1 t.2 bl) ⟨hm, hok, bl₀, W⟩
    fun _ _ _ ⟨hm, hok, _, W⟩ hl h => dirStep_tiled hbs hm hok W hl h
  obtain ⟨-, -, bl, W⟩ := h
  exact W.blocksTiled

end Step

/-! ## 例 -/

/-- `plainState` の root directory に `c` と `b` を加え、`b` を消す。 -/
def plainDirOps : List DirOp := [.mkdir [99], .add 5 1 [98], .remove [98]]

def plainMade : State × Node :=
  (dirStep (plainState, rootNode plainState) (.mkdir [99])).getD (plainState, rootNode plainState)

def plainAdded : State × Node := (dirStep plainMade (.add 5 1 [98])).getD plainMade

def plainErased : State × Node := (dirStep plainAdded (.remove [98])).getD plainAdded

set_option maxRecDepth 20000

theorem dir_blocks_tiled_plain :
    Reach dirStep (DirLegal wideFs.geom) (plainState, rootNode plainState) plainDirOps
      plainErased ∧ BlocksTiled wideFs.geom plainErased := by
  have hscan : removeScan (dirData wideFs.geom plainAdded) (iSize plainAdded.2.inode) [98] walkFuel
      0 none = some (some (48, some 36)) := by decide +kernel
  have h : Reach dirStep (DirLegal wideFs.geom) (plainState, rootNode plainState) plainDirOps
      plainErased := by
    refine .snoc (s := plainAdded) (.snoc (s := plainMade) (.snoc .nil ⟨by decide, .inl ⟨24, ?_⟩⟩
      (eq_some_getD ?_ _)) ⟨by decide, by decide, by decide, .inl ⟨36, ?_⟩⟩ (eq_some_getD ?_ _))
      ⟨by decide, fun o p h => by cases h; decide⟩ (eq_some_getD ?_ _)
    all_goals decide +kernel
  exact ⟨h, dir_blocks_tiled (by decide) plain_mounted (fun _ => ⟨_, rfl⟩) plain_root h⟩

/-- 二つめの block の先頭の entry `c` を消した状態。 -/
def crowdedErased : State × Node :=
  (dirStep (crowdedState, rootNode crowdedState) (.remove [99])).getD
    (crowdedState, rootNode crowdedState)

/--
**block の先頭の entry を消すと、前の block の最後の entry が境を越える。**

`ext2_remove_dir_entry` は、直前の entry が同じ block にあるかどうかを見ない。
-/
theorem remove_crosses_block : Mounted wideFs.geom crowdedState ∧ HeapOk crowdedState ∧
    WellFormedDir wideFs.geom crowdedState (rootNode crowdedState) crowdedBlocks ∧
    dirStep (crowdedState, rootNode crowdedState) (.remove [99]) = some crowdedErased ∧
    ¬BlocksTiled wideFs.geom crowdedErased := by
  have hval : (dirStep (crowdedState, rootNode crowdedState) (.remove [99])).map
      (fun t => (iSize t.2.inode, [0, 256, 512, 768].map (deRecLen (dirData wideFs.geom t))))
      = some (2048, [256, 256, 256, 512]) := by decide +kernel
  obtain ⟨t, hstep, ht⟩ := map_eq_some_iff.mp hval
  have herased : crowdedErased = t := by rw [crowdedErased, hstep, getD_some]
  simp only [List.map_cons, List.map_nil, Prod.mk.injEq, List.cons.injEq, and_true] at ht
  obtain ⟨hsize, h0, h1, h2, h3⟩ := ht
  rw [herased]
  refine ⟨crowded_mounted, fun _ => ⟨_, rfl⟩, crowded_root, hstep, ?_⟩
  rintro ⟨bl, hlen, hblocks⟩
  obtain ⟨b, hb⟩ : ∃ b, bl[0]? = some b := by
    cases bl with
    | nil =>
      rw [hsize] at hlen
      cases hlen
    | cons b bl => exact ⟨b, rfl⟩
  obtain ⟨htiles, -⟩ := hblocks 0 b hb
  -- 最初の block の四つめの entry は、位置 768 にあり、長さが 512 である
  have hbs : wideFs.geom.blockSize = 1024 := by decide
  rw [hbs] at htiles
  obtain ⟨-, _, htiles⟩ := htiles.next (by decide)
  rw [show Entry.recLen (entryAt (dirData wideFs.geom t) (0 * 1024)) = 256 from h0] at htiles
  obtain ⟨-, _, htiles⟩ := htiles.next (by decide)
  rw [show Entry.recLen (entryAt (dirData wideFs.geom t) (0 * 1024 + 256)) = 256 from h1] at htiles
  obtain ⟨-, _, htiles⟩ := htiles.next (by decide)
  rw [show Entry.recLen (entryAt (dirData wideFs.geom t) (0 * 1024 + 256 + 256)) = 256
    from h2] at htiles
  have hcross := (htiles.next (by decide)).1
  rw [show Entry.recLen (entryAt (dirData wideFs.geom t) (0 * 1024 + 256 + 256 + 256)) = 512
    from h3] at hcross
  exact absurd hcross (by decide)

end Alos.Ext2
