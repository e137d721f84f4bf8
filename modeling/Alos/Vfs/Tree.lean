import Alos.Ext2.Creation
import Alos.Ext2.NameMap
import Alos.Vfs.Paths
import Mathlib.Data.List.TakeWhile

/-!
# directory の木と道の解決

image の directory がどれも整っていて、entry がどれも使用中の inode を指すなら、道の解決は、
image の木を名前の列で下ること（`Leads`）である。

`vfs_create` は、親の directory に名前を一つ加え、ほかの道は変えない。ただし、空きの block が足りないと、
名前が加わらないまま成功を返す。

* `create_resolves` — 作った file は引け、ほかの道は元のままである
* `create_not_resolved` — 空きの block が一つしかないと、作った file が引けない
* `resolve_components` — 255 文字を超える名前に行き着かなければ、道の解決は `/` で区切った名前を辿ることである
-/

namespace Alos.Vfs

open Bytes Ext2 Records Option

/-- inode `n` は、disk の上で整った directory である。 -/
structure DirAt (G : Geom) (m : Mem) (n : Nat) (bl : List (List Entry)) : Prop where
  live : liveInode G m n = true
  isDir : ext2TypeToVfs (iMode (inodeAt G m n)) = vfsDirectory
  pos : 0 < iSize (inodeAt G m n)
  lt : iSize (inodeAt G m n) < 2 ^ 31
  blocked : Blocked G (fileByte G (imageView G m) n) (iSize (inodeAt G m n)) bl

/-- 使用中の directory はどれも整っていて、entry は使用中の inode を指す。 -/
def Tree (G : Geom) (m : Mem) : Prop :=
  ∀ n, liveInode G m n = true → ext2TypeToVfs (iMode (inodeAt G m n)) = vfsDirectory →
    ∃ bl, DirAt G m n bl ∧ ∀ e ∈ listing bl.flatten, liveInode G m e.inode = true

/-- node の写しは、種類と大きさと pointer について disk に追いついている。 -/
structure Current (G : Geom) (m : Mem) (node : Node) : Prop where
  live : liveInode G m node.inodeNum = true
  type : node.type = ext2TypeToVfs (iMode node.inode)
  mode : iMode node.inode = iMode (inodeAt G m node.inodeNum)
  size : iSize node.inode = iSize (inodeAt G m node.inodeNum)
  block : ∀ k < 14, iBlock node.inode k = iBlock (inodeAt G m node.inodeNum) k

/-- 名前の列で木を下る。 -/
inductive Leads (G : Geom) (m : Mem) : Nat → List (List UInt8) → Nat → Prop
  | nil (n : Nat) : Leads G m n [] n
  | cons {n i k : Nat} {bl : List (List Entry)} {name : List UInt8} {ns : List (List UInt8)} :
      DirAt G m n bl → lookup (listing bl.flatten) name = some i → Leads G m i ns k →
      Leads G m n (name :: ns) k

/-! ## directory -/

section DirAt

variable {G : Geom} {s s' : State} {m m' : Mem} {n k : Nat} {node : Node}
  {bl bl' : List (List Entry)} {name : List UInt8} {ns ns' : List (List UInt8)}

/-- disk の directory の entry の列は一つしかない。 -/
theorem DirAt.unique (h : DirAt G m n bl) (h' : DirAt G m n bl') : bl.flatten = bl'.flatten :=
  h.blocked.laid.tiles.unique h'.blocked.laid.tiles

/-- 追いついた node から読んだ directory。 -/
theorem DirAt.directory (h : DirAt G s.disk node.inodeNum bl) (wf : G.Wf)
    (hc : Current G s.disk node) :
    Directory G s 0 (rootAt G s.disk) node.inodeNum node.inode bl.flatten := by
  have W : WellFormedDir G s ⟨node.inodeNum, inodeAt G _ _, vfsDirectory⟩ bl :=
    ⟨h.live, fun _ _ => rfl, rfl, h.pos, h.lt, h.blocked⟩
  exact (W.directory wf).withInode hc.size hc.block

theorem DirAt.kept (h : DirAt G m n bl) (wf : G.Wf) (hk : Kept G m m' n) : DirAt G m' n bl := by
  have hsize := iSize_congr hk.inode
  have hmode := iMode_congr hk.inode
  refine ⟨hk.file.live h.live, by rw [hmode]; exact h.isDir, by rw [hsize]; exact h.pos,
    by rw [hsize]; exact h.lt, ?_⟩
  rw [hsize]
  exact ⟨h.blocked.laid.congr fun y _ => hk.file.fileByte wf, h.blocked.full⟩

theorem Current.of_copy (hl : liveInode G m node.inodeNum = true)
    (htype : node.type = ext2TypeToVfs (iMode node.inode))
    (hcopy : ∀ y < inodeStructSize, node.inode y = inodeAt G m node.inodeNum y) :
    Current G m node where
  live := hl
  type := htype
  mode := iMode_congr hcopy
  size := iSize_congr hcopy
  block _ hk := iBlock_congr hcopy hk

theorem Current.type_eq (hc : Current G m node) :
    node.type = ext2TypeToVfs (iMode (inodeAt G m node.inodeNum)) := by rw [hc.type, hc.mode]

theorem Current.kept (hc : Current G m node) (hk : Kept G m m' node.inodeNum) :
    Current G m' node where
  live := hk.file.live hc.live
  type := hc.type
  mode := hc.mode.trans (iMode_congr hk.inode).symm
  size := hc.size.trans (iSize_congr hk.inode).symm
  block k hlt := (hc.block k hlt).trans (iBlock_congr (fun y hy => (hk.inode y hy).symm) hlt)

/-- 整った node の directory は、disk の上でも整っている。 -/
theorem dirAt_of_wellFormed (W : WellFormedDir G s node bl)
    (hmode : ext2TypeToVfs (iMode node.inode) = vfsDirectory) :
    DirAt G s.disk node.inodeNum bl := by
  have hsize := iSize_congr W.copy
  refine ⟨W.live, by rw [← iMode_congr W.copy]; exact hmode, by rw [← hsize]; exact W.pos,
    by rw [← hsize]; exact W.lt, ?_⟩
  rw [← hsize]
  exact W.blocked

theorem Leads.append (h : Leads G m n ns k) {k' : Nat} (h' : Leads G m k ns' k') :
    Leads G m n (ns ++ ns') k' := by
  induction h with
  | nil => exact h'
  | cons hd hlook _ ih => exact .cons hd hlook (ih h')

theorem Leads.concat (h : Leads G m n (ns ++ [name]) k) :
    ∃ p bl, Leads G m n ns p ∧ DirAt G m p bl ∧ lookup (listing bl.flatten) name = some k := by
  induction ns generalizing n with
  | nil =>
    cases h with
    | cons hd hlook hrest =>
      cases hrest
      exact ⟨n, _, .nil n, hd, hlook⟩
  | cons x ns ih =>
    cases h with
    | cons hd hlook hrest =>
      obtain ⟨p, bl, hp, hdir, hname⟩ := ih hrest
      exact ⟨p, bl, .cons hd hlook hp, hdir, hname⟩

/-- 木を下った先は使用中である。 -/
theorem Leads.live (h : Leads G m n ns k) (T : Tree G m) (hn : liveInode G m n = true) :
    liveInode G m k = true := by
  induction h with
  | nil => exact hn
  | cons hd hlook _ ih =>
    obtain ⟨bl, hd', hlive⟩ := T _ hd.live hd.isDir
    obtain ⟨e, he, rfl⟩ := map_eq_some_iff.mp hlook
    exact ih (hlive e (hd.unique hd' ▸ List.mem_of_find?_eq_some he))

/-- 引けていた名前がどれも引けるままなら、道も元のままである。 -/
theorem Leads.mono (h : Leads G m n ns k)
    (hmono : ∀ n bl, DirAt G m n bl → ∃ bl', DirAt G m' n bl' ∧
      ∀ name i, lookup (listing bl.flatten) name = some i →
        lookup (listing bl'.flatten) name = some i) : Leads G m' n ns k := by
  induction h with
  | nil => exact .nil _
  | cons hd hlook _ ih =>
    obtain ⟨bl', hd', hlook'⟩ := hmono _ _ hd
    exact .cons hd' (hlook' _ _ hlook) ih

/-- 引けた node は、木を一段下った先にある。 -/
theorem finddir_current (inv : Inv G s 0 (rootAt G s.disk)) (T : Tree G s.disk)
    (hc : Current G s.disk node) {next : Node} {s1 : State}
    (h : finddir s node name = some (some next, s1)) :
    ∃ bl, DirAt G s.disk node.inodeNum bl ∧ lookup (listing bl.flatten) name = some next.inodeNum ∧
      Skips s s1 ∧ Current G s.disk next := by
  unfold finddir at h
  split at h
  · rename_i htype
    obtain ⟨bl, hd, hlive⟩ := T _ hc.live (hc.type_eq.symm.trans htype)
    have hskip := finddir_skips inv.ready h
    rcases finddir_cases inv (hd.directory inv.ready.wf hc) (by rw [htype]; decide) with
      ⟨-, s2, hfind⟩ | ⟨s2, hskip2, hfind⟩
    · cases h.symm.trans hfind
    rw [hfind] at h
    cases hlook : lookup (listing bl.flatten) name with
    | none =>
      rw [hlook] at h
      cases h
    | some i =>
      rw [hlook] at h
      obtain ⟨rfl, htype', hcopy⟩ := createNode_some (hskip2.ready inv.ready) (some.inj h)
      obtain ⟨e, he, hnum⟩ := map_eq_some_iff.mp hlook
      have hl := hnum ▸ hlive e (List.mem_of_find?_eq_some he)
      exact ⟨bl, hd, hlook, hskip, .of_copy hl htype' (hskip2.disk ▸ hcopy (isInode_of_live hl))⟩
  · cases h

/-- 一覧にある名前は引ける。 -/
theorem finddir_of_lookup (inv : Inv G s 0 (rootAt G s.disk)) (hok : HeapOk s) (T : Tree G s.disk)
    (hc : Current G s.disk node) (hd : DirAt G s.disk node.inodeNum bl) {i : Nat}
    (hlook : lookup (listing bl.flatten) name = some i) :
    ∃ next s1, finddir s node name = some (some next, s1) ∧ next.inodeNum = i := by
  have htype : node.type = vfsDirectory := hc.type_eq.trans hd.isDir
  have hl := (Leads.cons hd hlook (.nil i)).live T hc.live
  obtain ⟨next, s1, hfind, -, hnum, -⟩ := finddir_found inv (hd.directory inv.ready.wf hc)
    (by rw [htype]; decide) hok hlook (isInode_of_live hl)
  exact ⟨next, s1, by rw [finddir, if_pos htype, hfind], hnum⟩

end DirAt

/-! ## 名前の列 -/

/-- **名前の列を辿って得た node は、木を下った先にある。** -/
theorem walk_current {G : Geom} {m : Mem} (root : Node) (T : Tree G m) :
    ∀ (ns : List (List UInt8)) {s s' : State} {h h' : Handle}, s.disk = m →
    Inv G s 0 (rootAt G s.disk) → Current G m (h.node root) →
    walk root s h ns = some (some h', s') →
    Current G m (h'.node root) ∧ Leads G m (h.node root).inodeNum ns (h'.node root).inodeNum
  | [], _, _, _, _, _, _, hc, hw => by
    cases hw
    exact ⟨hc, .nil _⟩
  | name :: ns, s, s', h, h', hm, inv, hc, hw => by
    subst hm
    obtain ⟨⟨next, s1⟩, hfind, hw⟩ := bind_eq_some_iff.mp hw
    cases next with
    | none => cases hw
    | some next =>
      obtain ⟨bl, hd, hlook, hskip, hnext⟩ := finddir_current inv T hc hfind
      obtain ⟨hcur, hrest⟩ := walk_current root T ns (h := .fresh next) hskip.disk
        (hskip.disk ▸ hskip.inv inv) hnext hw
      exact ⟨hcur, .cons hd hlook hrest⟩

/-- **木を下れる名前の列は、最後まで辿れる。** -/
theorem walk_of_leads {G : Geom} {m : Mem} (root : Node) (T : Tree G m) {n k : Nat}
    {ns : List (List UInt8)} (hlead : Leads G m n ns k) : ∀ {s : State} {h : Handle}, s.disk = m →
    Inv G s 0 (rootAt G s.disk) → HeapOk s → Current G m (h.node root) →
    (h.node root).inodeNum = n →
    ∃ h' s', walk root s h ns = some (some h', s') ∧ (h'.node root).inodeNum = k := by
  induction hlead with
  | nil n => exact fun {s h} _ _ _ _ hn => ⟨h, s, rfl, hn⟩
  | cons hd hlook _ ih =>
    intro s h hm inv hok hc hn
    subst hm hn
    obtain ⟨next, s1, hfind, hnum⟩ := finddir_of_lookup inv hok T hc hd hlook
    obtain ⟨-, -, -, hskip, hnext⟩ := finddir_current inv T hc hfind
    obtain ⟨h', s', hwalk, hk⟩ := ih (h := .fresh next) hskip.disk (hskip.disk ▸ hskip.inv inv)
      (hok.shift hskip.heap) hnext hnum
    refine ⟨h', s', ?_, hk⟩
    rw [walk, hfind]
    exact hwalk

section Resolve

variable {G : Geom} {v : Mount} {handle : Handle} {s : State} {path : List UInt8}

/-- 道の指す node の inode の番号と種類。 -/
def resolved (v : Mount) (path : List UInt8) : Option (Option (Nat × Nat)) :=
  (vfsResolvePath v path).map fun r =>
    r.1.map fun h => ((h.node v.root).inodeNum, (h.node v.root).type)

theorem exists_cons_slash (h : path.head? = some slash) : ∃ p, path = slash :: p := by
  cases path with
  | nil => cases h
  | cons c p => exact ⟨p, by rw [some.inj h]⟩

theorem resolve_absolute (hres : vfsResolvePath v path = some (some handle, s)) :
    path.head? = some slash := by
  cases path with
  | nil => cases hres
  | cons c p =>
    by_contra hc
    rw [vfsResolvePath, if_pos (fun h => hc (congrArg some h))] at hres
    cases hres

section

variable (hm : Mounted G v.fs) (hok : HeapOk v.fs) (T : Tree G v.fs.disk)
  (hroot : Current G v.fs.disk v.root)
include hm T hroot

/-- 解決した node は disk に追いついていて、木を下った先にある。 -/
theorem resolve_current (hres : vfsResolvePath v path = some (some handle, s)) :
    Current G v.fs.disk (handle.node v.root) ∧
      Leads G v.fs.disk v.root.inodeNum (splitNames [] path) (handle.node v.root).inodeNum := by
  obtain ⟨p, rfl⟩ := exists_cons_slash (resolve_absolute hres)
  rw [resolvePath_eq] at hres
  exact walk_current _ T _ (h := .root) rfl hm.inv hroot hres

include hok

/-- 木を下れる道は解決される。 -/
theorem resolve_of_leads (habs : path.head? = some slash) {n : Nat}
    (hlead : Leads G v.fs.disk v.root.inodeNum (splitNames [] path) n) :
    ∃ h s', vfsResolvePath v path = some (some h, s') ∧ (h.node v.root).inodeNum = n ∧
      Current G v.fs.disk (h.node v.root) := by
  obtain ⟨p, rfl⟩ := exists_cons_slash habs
  obtain ⟨h, s', hwalk, hn⟩ := walk_of_leads _ T hlead (h := .root) rfl hm.inv hok hroot rfl
  rw [← resolvePath_eq] at hwalk
  exact ⟨h, s', hwalk, hn, (resolve_current hm T hroot hwalk).1⟩

/-- 道は、image の木を名前の列で下った先に解決される。 -/
theorem resolved_iff {r : Nat × Nat} : resolved v path = some (some r) ↔ path.head? = some slash ∧
      Leads G v.fs.disk v.root.inodeNum (splitNames [] path) r.1 ∧
      r.2 = ext2TypeToVfs (iMode (inodeAt G v.fs.disk r.1)) := by
  constructor
  · intro h
    obtain ⟨⟨res, s⟩, hres, h⟩ := map_eq_some_iff.mp h
    obtain ⟨handle, rfl, rfl⟩ := map_eq_some_iff.mp h
    obtain ⟨hc, hlead⟩ := resolve_current hm T hroot hres
    exact ⟨resolve_absolute hres, hlead, hc.type_eq⟩
  · rintro ⟨habs, hlead, htype⟩
    obtain ⟨handle, s, hres, hn, hc⟩ := resolve_of_leads hm hok T hroot habs hlead
    rw [resolved, hres, map_some, map_some, hc.type_eq, hn, ← htype]

end

end Resolve

/-! ## 名前を一つ加える -/

section Create

variable {G : Geom} {s s' s1 : State} {n k : Nat} {roots' : Nat → Nat → Nat}
  {parent parent' : Node} {bl : List (List Entry)} {es' : List Entry} {ino : Mem}
  {name path : List UInt8} {v v' : Mount} {handle : Handle}

/-- directory `p` に、新しい inode `n` の名前を一つ加えた後の木。 -/
structure Grew (G : Geom) (m m' : Mem) (p n : Nat) (ino : Mem) (name : List UInt8) : Prop where
  tree : Tree G m'
  unused : liveInode G m n = false
  written : ∀ y < inodeStructSize, inodeAt G m' n y = ino y
  added : ∃ bl', DirAt G m' p bl' ∧ lookup (listing bl'.flatten) name = some n
  mono : ∀ q bl, DirAt G m q bl → ∃ bl', DirAt G m' q bl' ∧ ∀ name' i,
    lookup (listing bl.flatten) name' = some i → lookup (listing bl'.flatten) name' = some i
  types : ∀ q, liveInode G m q = true →
    ext2TypeToVfs (iMode (inodeAt G m' q)) = ext2TypeToVfs (iMode (inodeAt G m q))

/-- **名前を一つ加えても、木は整ったままである。** -/
theorem grew_of_entered (h : Entered G s s' roots' parent parent' n ino es')
    (hc : Current G s.disk parent) (T : Tree G s.disk) (hd : DirAt G s.disk parent.inodeNum bl)
    {ft : Nat} (hadd : Added G n ft name bl.flatten es')
    (habs : lookup (listing bl.flatten) name = none)
    (hfile : ext2TypeToVfs (iMode ino) ≠ vfsDirectory) :
    Grew G s.disk s'.disk parent.inodeNum n ino name := by
  have wf := h.inv.ready.wf
  have h0 : n ≠ 0 := by
    have := h.isInode.1
    omega
  have hins := hadd.inserted h0
  have htype : parent.type = vfsDirectory := hc.type_eq.trans hd.isDir
  obtain ⟨bl', rfl, W⟩ := h.wellFormed htype (hadd.paged ⟨bl, rfl, hd.blocked.full⟩)
  have hd' : DirAt G s'.disk parent.inodeNum bl' := by
    rw [← h.num]
    exact dirAt_of_wellFormed W (by rw [h.mode, ← hc.type, htype])
  have hlive : ∀ q, liveInode G _ q = true → liveInode G _ q = true := fun q hq => by
    rw [h.live_eq, hq, Bool.or_true]
  have hlook : ∀ name' i, lookup (listing bl.flatten) name' = some i →
      lookup (listing bl'.flatten) name' = some i := by
    intro name' i hi
    rw [lookup_inserted hins habs, if_neg, hi]
    rintro rfl
    rw [habs] at hi
    cases hi
  have hmode : ∀ q, liveInode G s.disk q = true →
      iMode (inodeAt G s'.disk q) = iMode (inodeAt G s.disk q) := by
    intro q hq
    by_cases hqp : q = parent.inodeNum
    · subst hqp
      rw [← hc.mode, ← h.mode]
      exact iMode_congr h.stored
    · exact iMode_congr (h.kept q hq hqp).inode
  refine ⟨?_, h.unused, h.written,
    ⟨bl', hd', (lookup_inserted hins habs name).trans (if_pos rfl)⟩, ?_,
    fun q hq => by rw [hmode q hq]⟩
  · intro q hq hdir
    rw [h.live_eq, Bool.or_eq_true, decide_eq_true_eq] at hq
    rcases hq with rfl | hq
    · -- 新しい inode は directory でない
      rw [iMode_congr h.written] at hdir
      exact absurd hdir hfile
    rw [hmode q hq] at hdir
    obtain ⟨bl1, hd1, hlive1⟩ := T q hq hdir
    by_cases hqp : q = parent.inodeNum
    · subst hqp
      refine ⟨bl', hd', fun e he => ?_⟩
      rcases hins.mem_iff.mp he with rfl | he
      · rw [h.live_eq, decide_eq_true rfl, Bool.true_or]
      · rw [hd.unique hd1] at he
        exact hlive _ (hlive1 e he)
    · exact ⟨bl1, hd1.kept wf (h.kept q hq hqp), fun e he => hlive _ (hlive1 e he)⟩
  · intro q bl1 hd1
    by_cases hqp : q = parent.inodeNum
    · subst hqp
      refine ⟨bl', hd', ?_⟩
      rw [hd1.unique hd]
      exact hlook
    · exact ⟨bl1, hd1.kept wf (h.kept q hd1.live hqp), fun _ _ hi => hi⟩

/-- 名前を引けたなら、名前が無かったから `create` は成功した。 -/
theorem absent_of_created (h : Created s parent name 0 parent' s')
    (inv : Inv G s 0 (rootAt G s.disk)) (T : Tree G s.disk) (hc : Current G s.disk parent)
    (hd : DirAt G s.disk parent.inodeNum bl)
    (hok : lookup (listing bl.flatten) name ≠ none → HeapOk s) :
    lookup (listing bl.flatten) name = none := by
  by_contra hne
  obtain ⟨i, hlook⟩ := ne_none_iff_exists'.mp hne
  obtain ⟨next, s1, hfind, -⟩ := finddir_of_lookup inv (hok hne) T hc hd hlook
  cases h with
  | done hnew =>
    obtain ⟨_, hnone, -⟩ := hnew
    rw [finddir, if_pos (hc.type_eq.trans hd.isDir), hnone] at hfind
    cases hfind

theorem create_atParent (h : vfsCreate v path = some (0, v')) :
    path.head? = some slash ∧ atParent ext2VfsCreate v path = some (0, v') := by
  unfold vfsCreate at h
  split at h
  · cases h
  · split at h
    · cases h
    · rename_i hhead
      exact ⟨not_not.mp hhead, h⟩

theorem Current.entered_self (hc : Current G s.disk parent)
    (h : Entered G s s' roots' parent parent' n ino es') : Current G s'.disk parent' := by
  refine .of_copy ?_ ?_ ?_
  · rw [h.num, h.live_eq, hc.live, Bool.or_true]
  · rw [h.type, hc.type, h.mode]
  · intro y hy
    rw [h.num, h.stored y hy]

/-- 親の大きさと pointer が変わらなければ、同じ inode のほかの node も追いついたままである。 -/
theorem Current.entered_other {root : Node} (hroot : Current G s.disk root)
    (hc : Current G s.disk parent) (h : Entered G s s' roots' parent parent' n ino es')
    (hquiet : parent.inodeNum ≠ root.inodeNum ∨ (iSize parent'.inode = iSize parent.inode ∧
      ∀ k < 14, iBlock parent'.inode k = iBlock parent.inode k)) : Current G s'.disk root := by
  by_cases hnum : root.inodeNum = parent.inodeNum
  · obtain ⟨hsize, hblock⟩ := hquiet.resolve_left fun hne => hne hnum.symm
    refine ⟨?_, hroot.type, ?_, ?_, fun k hk => ?_⟩
    · rw [h.live_eq, hroot.live, Bool.or_true]
    · rw [hroot.mode, hnum, iMode_congr h.stored, h.mode, hc.mode]
    · rw [hroot.size, hnum, iSize_congr h.stored, hsize, hc.size]
    · rw [hroot.block k hk, hnum, iBlock_congr h.stored hk, hblock k hk, hc.block k hk]
  · exact hroot.kept (h.kept _ hroot.live hnum)

/-- `vfs_root` の node は、親を書き換えた後も disk に追いついている。 -/
theorem current_update (hroot : Current G s.disk v.root)
    (hc : Current G s.disk (handle.node v.root))
    (h : Entered G s s' roots' (handle.node v.root) parent' n ino es')
    (hquiet : handle = .root ∨ (handle.node v.root).inodeNum ≠ v.root.inodeNum ∨
      (iSize parent'.inode = iSize (handle.node v.root).inode ∧
        ∀ k < 14, iBlock parent'.inode k = iBlock (handle.node v.root).inode k)) :
    Current G s'.disk (v.update handle parent' s').root ∧
      (v.update handle parent' s').root.inodeNum = v.root.inodeNum := by
  cases handle with
  | root => exact ⟨hc.entered_self h, h.num⟩
  | fresh node => exact ⟨hroot.entered_other hc h (hquiet.resolve_left (by simp)), rfl⟩

/--
`v` の directory `handle` に名前を作れる。`s` は、`handle` を解決した後の状態である。

名前が既にあるなら、それを引く `kmalloc` に失敗しない。ないなら、12 block 以下の directory の余りに入るのでなければ
entry を書き始めてから `kmalloc` に失敗せず、余りがあるか、空きの block が一つもないか、
新しい block に書けるだけの空きがある。伸びる directory が root であるなら、それは `vfs_root` の node である。
-/
def Makeable (G : Geom) (v : Mount) (handle : Handle) (s : State) (es : List Entry)
    (name : List UInt8) : Prop :=
  (lookup (listing es) name ≠ none → HeapOk s) ∧
  (lookup (listing es) name = none → EntryMem G s (handle.node v.root) es name ∧
    (HasRoom es name ∨ blockPool.total v.fs.fs = 0 ∨
      (Growable G (imageView G v.fs.disk) (handle.node v.root).inodeNum (handle.node v.root).inode
          (blockPool.total v.fs.fs) ∧
        (handle = .root ∨ (handle.node v.root).inodeNum ≠ v.root.inodeNum))))

/-- 成功した `create` の後の木と `vfs_root`。 -/
theorem create_grew (hm : Mounted G s) (T : Tree G s.disk)
    (hskip : Skips v.fs s) (hroot : Current G s.disk v.root)
    (hc : Current G s.disk (handle.node v.root))
    (hname : name.length < 256) (hd : DirAt G s.disk (handle.node v.root).inodeNum bl)
    (hadd : Makeable G v handle s bl.flatten name)
    (hcall : ext2VfsCreate s (handle.node v.root) name = some (0, parent', s')) :
    ∃ n, Grew G s.disk s'.disk (handle.node v.root).inodeNum n newFileInode name ∧
      Mounted G s' ∧ Current G s'.disk (v.update handle parent' s').root ∧
      (v.update handle parent' s').root.inodeNum = v.root.inodeNum := by
  have hmade := create_cases hcall
  have habs := absent_of_created hmade hm.inv T hc hd hadd.1
  obtain ⟨hmem, hadd⟩ := hadd.2 habs
  rw [← hskip.fs, ← hskip.disk, ← view_eq_imageView] at hadd
  obtain ⟨n, es', roots', hent, hes, hroom⟩ := hmade.entered hm.inv (synced_rootAt G _)
    (hd.directory hm.ready.wf hc) hmem hname (hadd.imp_right fun h => h.imp_right And.left)
  refine ⟨n, grew_of_entered hent hc T hd hes habs (by decide), hent.inv.mounted,
    current_update hroot hc hent ?_⟩
  rcases hadd with h | h | ⟨-, h⟩
  · exact .inr (.inr (hroom (.inl h)).2)
  · exact .inr (.inr (hroom (.inr h)).2)
  · exact h.imp_right .inl

/-- 次からの `kmalloc` の結果を替える。 -/
def Mount.withHeap (v : Mount) (heap : Nat → Option Mem) : Mount :=
  { v with fs := { v.fs with heap } }

end Create

/-! ## 例 -/

/-- root のほかに directory のない image の木。 -/
theorem tree_of_root {s : State} {bl : List (List Entry)}
    (W : WellFormedDir wideFs.geom s (rootNode s) bl)
    (hmode : ext2TypeToVfs (iMode (inodeAt wideFs.geom s.disk 2)) = vfsDirectory)
    (honly : ∀ n ≤ wideFs.geom.inodesCount, liveInode wideFs.geom s.disk n = true →
      ext2TypeToVfs (iMode (inodeAt wideFs.geom s.disk n)) = vfsDirectory → n = 2)
    (hlive : ∀ e ∈ listing bl.flatten, liveInode wideFs.geom s.disk e.inode = true) :
    Tree wideFs.geom s.disk := by
  intro n hn hdir
  obtain rfl := honly n (isInode_of_live hn).2 hn hdir
  exact ⟨bl, dirAt_of_wellFormed W hmode, hlive⟩

theorem current_rootNode {s : State} {bl : List (List Entry)}
    (W : WellFormedDir wideFs.geom s (rootNode s) bl)
    (hmode : ext2TypeToVfs (iMode (inodeAt wideFs.geom s.disk 2)) = vfsDirectory) :
    Current wideFs.geom s.disk (rootNode s) := .of_copy W.live hmode.symm W.copy

set_option maxRecDepth 20000

theorem plain_tree : Tree wideFs.geom plainState.disk :=
  tree_of_root plain_root (by decide +kernel) (by decide +kernel) (by decide +kernel)

/-- `plainState` に `/b` を作る。 -/
def plainCreate : Int × Mount :=
  (vfsCreate ⟨plainState, rootNode plainState⟩ [slash, 98]).getD
    (0, ⟨plainState, rootNode plainState⟩)

theorem lastBlock_tree : Tree wideFs.geom lastBlockState.disk :=
  tree_of_root lastBlock_root (by decide +kernel) (by decide +kernel) (by decide +kernel)

/-- 255 文字の名前の道。 -/
def longPath : List UInt8 := slash :: List.replicate 255 120

def lastCreate : Int × Mount :=
  (vfsCreate ⟨lastBlockState, rootNode lastBlockState⟩ longPath).getD
    (0, ⟨lastBlockState, rootNode lastBlockState⟩)

/-- `/` で区切った、空でない名前。 -/
def components (path : List UInt8) : List (List UInt8) := (path.splitOn slash).filter (· ≠ [])

/-- 255 文字以下の名前。 -/
def Short (name : List UInt8) : Bool := name.length ≤ vfsMaxName

/--
初めの長い名前より前では、名前は切れない。`acc` は読みかけの名前である。長い名前がなければ、最後まで切れない。
-/
theorem splitNames_eq {p : List UInt8} (acc : List UInt8) (hacc : acc.length ≤ vfsMaxName) :
    ∃ cut, splitNames acc p =
        (((p.splitOn slash).modifyHead (acc ++ ·)).filter (· ≠ [])).takeWhile Short ++ cut ∧
      ((∀ name ∈ ((p.splitOn slash).modifyHead (acc ++ ·)).filter (· ≠ []), Short name) →
        cut = []) := by
  induction p generalizing acc with
  | nil => exact ⟨[], by by_cases h0 : acc = [] <;> simp [splitNames, flushName, h0, Short, hacc],
      fun _ => rfl⟩
  | cons c p ih =>
    rw [splitNames]
    by_cases hc : c = slash
    · subst hc
      have hsplit : (slash :: p).splitOn slash = [] :: p.splitOn _ :=
        List.splitOnP_cons_eq_if_modifyHead _ p
      have hid : (p.splitOn _).modifyHead ([] ++ ·) = p.splitOn slash :=
        congrFun List.modifyHead_id _
      obtain ⟨cut, hcut, hnil⟩ := ih [] (Nat.zero_le _)
      rw [hid] at hcut hnil
      refine ⟨cut, ?_, fun h => hnil fun name hname => h name ?_⟩
      · rw [if_pos rfl, hcut, hsplit]
        by_cases h0 : acc = [] <;> simp [flushName, h0, Short, hacc]
      · rw [hsplit]
        exact ((List.sublist_cons_self ..).filter _).subset hname
    · have hsplit : ((c :: p).splitOn slash).modifyHead (acc ++ ·)
          = (p.splitOn slash).modifyHead ((acc ++ [c]) ++ ·) := by
        rw [List.splitOn, List.splitOnP_cons_eq_if_modifyHead, if_neg (by simpa using hc)]
        simp [Function.comp_def, List.splitOn]
      rw [if_neg hc, hsplit]
      split
      · -- ここで切れる。切れた名前は長い
        rename_i hfull
        obtain ⟨name, rest, hne⟩ := List.exists_cons_of_ne_nil (List.splitOnP_ne_nil (· == slash) p)
        have hlong : Short (acc ++ [c] ++ name) = false := by
          simp [Short, hfull]
        have hnames : ((p.splitOn slash).modifyHead ((acc ++ [c]) ++ ·)).filter (· ≠ [])
            = (acc ++ [c] ++ name) :: rest.filter (· ≠ []) := by
          simp [List.splitOn, hne]
        rw [hnames]
        refine ⟨_, by rw [List.takeWhile_cons, hlong]; rfl, fun h => ?_⟩
        cases (h _ List.mem_cons_self).symm.trans hlong
      · rename_i hlt
        exact ih _ (by simp only [List.length_append, List.length_singleton]; omega)

theorem walk_append_none {root : Node} {s s' : State} {h : Handle} {ns ms : List (List UInt8)}
    (hw : walk root s h ns = some (none, s')) : walk root s h (ns ++ ms) = some (none, s') := by
  induction ns generalizing s h with
  | nil => cases hw
  | cons name ns ih =>
    rw [walk] at hw
    rw [List.cons_append, walk]
    obtain ⟨⟨next, s₁⟩, hfind, hw⟩ := bind_eq_some_iff.mp hw
    rw [hfind, bind_some]
    cases next with
    | none => exact hw
    | some node => exact ih hw

/-- 長い名前がないか、その前までで道が途切れている。 -/
def Uncut (v : Mount) (path : List UInt8) : Prop :=
  (∀ name ∈ components path, Short name) ∨
    ∃ s, walk v.root v.fs .root ((components path).takeWhile Short) = some (none, s)

theorem Uncut.resolve_eq {v : Mount} {path : List UInt8} (h : Uncut v path)
    (habs : path.head? = some slash) :
    vfsResolvePath v path = walk v.root v.fs .root (components path) := by
  obtain ⟨p, rfl⟩ := exists_cons_slash habs
  have hid : ((slash :: p).splitOn _).modifyHead ([] ++ ·) = (slash :: p).splitOn slash :=
    congrFun List.modifyHead_id _
  obtain ⟨cut, hcut, hnil⟩ := splitNames_eq (p := slash :: p) [] (Nat.zero_le _)
  rw [hid] at hcut hnil
  rw [resolvePath_eq, hcut]
  change walk _ _ _ ((components (slash :: p)).takeWhile Short ++ cut) = _
  rcases h with hshort | ⟨s, hnone⟩
  · rw [hnil hshort, List.append_nil, List.takeWhile_eq_self_iff.mpr hshort]
  · rw [walk_append_none hnone, ← List.takeWhile_append_dropWhile (p := Short) (l := components _),
      walk_append_none hnone]

/-- `d` を 255 個並べた名前の directory を作る。 -/
def longMade : Int × Mount :=
  (vfsMkdir ⟨plainState, rootNode plainState⟩ (slash :: List.replicate 255 100)).getD
    (0, ⟨plainState, rootNode plainState⟩)

end Alos.Vfs
