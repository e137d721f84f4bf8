import Alos.Ext2.Calls
import Alos.Ext2.Entries
import Alos.Ext2.Roundtrip

/-!
# directory は名前の表である

`Directory` は「inode `num` の file が、穴のない、entry の列で敷き詰められた directory である」ことを言う。
読み書きに失敗しなければ、`ext2_*` の関数はその列の上の操作である。
-/

namespace Alos.Ext2

open Bytes Bitmap Records List Option

variable {new ft : Nat}

/-! ## 変わらない file -/

/-- inode `m` の木と data は変わらなかった。 -/
structure SameFile (G : Geom) (v v' : View) (m : Nat) : Prop where
  roots : ∀ k < 14, v'.roots m k = v.roots m k
  trace : ∀ p, trace G v' (m :: p) = trace G v (m :: p)
  data : ∀ p, ∀ o < G.blockSize, dataAt G v' (m :: p) o = dataAt G v (m :: p) o

section SameFile

variable {G : Geom} {v v' v'' : View} {x x' n m : Nat} {s s' : State}
  {roots roots' : Nat → Nat → Nat}

theorem SameFile.refl : SameFile G v v m :=
  ⟨fun _ _ => rfl, fun _ => rfl, fun _ _ _ => rfl⟩

theorem SameFile.trans (h1 : SameFile G v v' m) (h2 : SameFile G v' v'' m) : SameFile G v v'' m :=
  ⟨fun k hk => (h2.roots k hk).trans (h1.roots k hk), fun p => (h2.trace p).trans (h1.trace p),
    fun p o ho => (h2.data p o ho).trans (h1.data p o ho)⟩

theorem SameFile.live (h : SameFile G v v' m) (hl : v.live m = true) : v'.live m = true := by
  rw [live_iff_trace, h.trace]
  exact trace_inode hl

theorem pathOf_cons {n i : Nat} : ∃ p, pathOf G n i = n :: p := by
  rcases pathOf_cases G i with h | ⟨h, h'⟩ | h
  · exact ⟨_, pathOf_direct h⟩
  · exact ⟨_, pathOf_single h h'⟩
  · exact ⟨_, pathOf_double h⟩

theorem SameFile.trace_path (h : SameFile G v v' m) {i : Nat} :
    Ext2.trace G v' (pathOf G m i) = Ext2.trace G v (pathOf G m i) := by
  obtain ⟨p, hp⟩ := pathOf_cons
  rw [hp, h.trace]

theorem SameFile.lacking (h : SameFile G v v' m) {i : Nat} :
    Ext2.lacking G v' m i = Ext2.lacking G v m i := by
  simp only [Ext2.lacking, gap, h.trace]

theorem SameFile.fileByte (wf : G.Wf) (h : SameFile G v v' m) {pos : Nat} :
    fileByte G v' m pos = fileByte G v m pos := by
  obtain ⟨p, hp⟩ := pathOf_cons
  rw [Ext2.fileByte, hp, h.data p _ (Nat.mod_lt _ wf.size_pos), ← hp, Ext2.fileByte]

theorem sameFile_of_eq (hroots : v'.roots = v.roots)
    (htrace : ∀ p, trace G v' p = trace G v p) (hdata : SameData G v v') : SameFile G v v' m :=
  ⟨fun k _ => congrFun (congrFun hroots m) k, fun _ => htrace _, fun _ o ho => hdata _ o ho⟩

theorem Grown.sameFile (h : Grown G x n s s' roots roots') (hm : m ≠ n) :
    SameFile G (view G s.disk x roots) (view G s'.disk x roots') m :=
  ⟨fun k _ => congrFun (h.roots_ne m hm) k, fun _ => h.trace_ne _ (by simp [hm]), fun _ o ho =>
    h.data_ne _ (by simp [hm]) o ho⟩

theorem Calm.sameFile (h : Calm G x roots s s') (m : Nat) :
    SameFile G (view G s.disk x roots) (view G s'.disk x roots) m :=
  sameFile_of_eq rfl h.trace_eq h.sameData

theorem Swapped.sameFile (h : Swapped G x x' roots s s') :
    SameFile G (view G s.disk x roots) (view G s'.disk x' roots) m :=
  sameFile_of_eq rfl h.trace_eq h.data

theorem Stored.sameFile {ino : Mem} {ok : Bool} (h : Stored G x n roots ino s ok s') (m : Nat) :
    SameFile G (view G s.disk x roots) (view G s'.disk x roots) m :=
  sameFile_of_eq rfl h.trace_eq h.data

/-- 木から外す inode が替わっても、ほかの inode は変わらない。 -/
theorem sameFile_enroll {mem : Mem} (hm : m ≠ x) (hm' : m ≠ x')
    (hroots : ∀ k < 14, roots' m k = roots m k) :
    SameFile G (view G mem x roots) (view G mem x' roots') m := by
  have htrace : ∀ p, trace G (view G mem x' roots') (m :: p)
      = trace G (view G mem x roots) (m :: p) := by
    refine trace_cons_congr ?_ hroots rfl
    simp only [view, bne_iff_ne.mpr hm, bne_iff_ne.mpr hm']
  exact ⟨hroots, htrace, fun p o _ => dataAt_congr (htrace p) fun _ _ => rfl⟩

end SameFile

/-! ## directory -/

/-- inode `num` の file は、entry の列 `es` の directory である。`ino` は memory の inode である。 -/
structure Directory (G : Geom) (s : State) (x : Nat) (roots : Nat → Nat → Nat) (num : Nat)
    (ino : Mem) (es : List Entry) : Prop where
  live : (view G s.disk x roots).live num = true
  exact : Exact ino roots num
  present : Allocd G (view G s.disk x roots) num 0 (iSize ino)
  pos : 0 < iSize ino
  lt : iSize ino < 2 ^ 31
  laid : Laid (fileByte G (view G s.disk x roots) num) (iSize ino) es

section Directory

variable {G : Geom} {s s' : State} {x x' num : Nat} {roots roots' : Nat → Nat → Nat}
  {ino ino' : Mem} {es es' : List Entry} {node : Node} {name : List UInt8}

section

variable (D : Directory G s x roots num ino es)
include D

theorem Directory.sameFile (wf : G.Wf)
    (h : SameFile G (view G s.disk x roots) (view G s'.disk x' roots') num) :
    Directory G s' x' roots' num ino es where
  live := h.live D.live
  exact k hk := by
    rw [D.exact k hk]
    exact (h.roots k hk).symm
  present pos h1 h2 := by
    rw [h.trace_path]
    exact D.present pos h1 h2
  pos := D.pos
  lt := D.lt
  laid := D.laid.congr fun y _ => h.fileByte wf

theorem Directory.skips (h : Skips s s') : Directory G s' x roots num ino es := by
  obtain ⟨i, rfl⟩ := h
  exact ⟨D.live, D.exact, D.present, D.pos, D.lt, D.laid⟩

theorem Directory.live_disk : liveInode G s.disk num = true :=
  (view_live.mp D.live).1

theorem Directory.length_lt : es.length < walkFuel := by
  have := D.laid.tiles.length_le
  have := D.lt
  unfold walkFuel
  omega

end

/-- directory の data は、buffer が取れれば読める。 -/
theorem readDirData_cases (inv : Inv G s x roots) (D : Directory G s x roots num ino es) :
    (¬HeapOk s ∧ ∃ s1, readDirData s ino = (none, s1) ∧ Skips s s1) ∨
    ∃ d s1, readDirData s ino = (some d, s1) ∧ Skips s s1 ∧ Laid d (iSize ino) es := by
  have hpos := D.pos
  have hlt := D.lt
  have hall := readDirData_skips inv.ready ino
  unfold readDirData at hall ⊢
  rw [if_neg (by omega), kmalloc_eq] at hall ⊢
  cases hbuf : s.heap 0 with
  | none => exact .inl ⟨fun hok => hok.head_ne_none hbuf, _, rfl, .next s⟩
  | some buf =>
    rw [hbuf] at hall
    rcases readInodeData_cases inv.calm_next.inv D.live D.exact
      (show 0 + iSize ino < 2 ^ 32 by omega) buf with
      ⟨hno, buf', s1, hread⟩ | ⟨d, s1, hread, hskip, hbytes⟩
    · simp only [hread] at hall ⊢
      exact .inl ⟨mt HeapOk.next hno, s1, rfl, hall⟩
    · simp only [hread, Nat.sub_zero, Nat.min_self, toInt32_of_lt hlt]
      rw [if_neg (by omega)]
      refine .inr ⟨d, s1, rfl, (Skips.next s).trans hskip, D.laid.congr fun y hy => ?_⟩
      rw [hbytes y fun _ h => .of_present (D.present _ (Nat.zero_le _) h), if_pos ⟨hy, by omega⟩,
        Nat.zero_add]
      rfl

theorem readDirData_spec (inv : Inv G s x roots) (D : Directory G s x roots num ino es)
    (hok : HeapOk s) : ∃ d s1, readDirData s ino = (some d, s1) ∧ Skips s s1 ∧
      Laid d (iSize ino) es :=
  (readDirData_cases inv D).resolve_left fun h => h.1 hok

theorem HeapOk.readDirData {d : Option Mem} {s1 : State} (hok : HeapOk s) (inv : Inv G s x roots)
    (h : readDirData s ino = (d, s1)) : HeapOk s1 := by
  have hskip := readDirData_skips inv.ready ino
  rw [h] at hskip
  exact hok.shift (Skips.heap hskip)

/-- 有効な番号の inode なら、node を作れる。 -/
theorem createNode_ok (hr : Ready G s) (hok : HeapOk s) {n : Nat} (hn : IsInode G n) :
    ∃ node s', ext2CreateNode s n = (some node, s') ∧ Skips s s' ∧ node.inodeNum = n ∧
      node.type = ext2TypeToVfs (iMode node.inode) ∧
      ∀ y < inodeStructSize, node.inode y = inodeAt G s.disk n y := by
  have hskip := createNode_skips hr n
  have hsome : ∃ node, (ext2CreateNode s n).1 = some node := by
    obtain ⟨b0, h0⟩ := hok.head
    obtain ⟨b1, h1⟩ := hok.next.head
    rw [ext2CreateNode, kmalloc_eq, h0]
    simp only [kmalloc_eq, h1]
    rcases hr.next.next.readInode hn with ⟨hnone, -⟩ | ⟨ino, hread, -⟩
    · exact absurd hnone (hok.next.next.head_ne_none)
    · rw [hread]
      exact ⟨_, rfl⟩
  obtain ⟨node, hnode⟩ := hsome
  have hcall : ext2CreateNode s n = (some node, (ext2CreateNode s n).2) := by rw [← hnode]
  obtain ⟨h1, h2, h3⟩ := createNode_some hr hcall
  exact ⟨node, _, hcall, hskip, h1, h2, h3 hn⟩

section

variable (inv : Inv G s x roots) (D : Directory G s x roots node.inodeNum node.inode es)
  (hdir : node.type &&& vfsDirectory ≠ 0) (hok : HeapOk s)
include inv D hdir

/-- 一覧から名前を引く。data が読めなければ、何も引けない。 -/
theorem finddir_cases :
    (¬HeapOk s ∧ ∃ s1, ext2VfsFinddir s node name = some (none, s1)) ∨
    ∃ s1, Skips s s1 ∧ ext2VfsFinddir s node name = some (match lookup (listing es) name with
      | none => (none, s1)
      | some i => ext2CreateNode s1 i) := by
  have hlt := D.lt
  rw [ext2VfsFinddir, if_neg hdir]
  rcases readDirData_cases inv D with ⟨hno, s1, hread, -⟩ | ⟨d, s1, hread, hskip, hl⟩
  · rw [hread]
    exact .inl ⟨hno, s1, rfl⟩
  refine .inr ⟨s1, hskip, ?_⟩
  rw [hread]
  simp only [findScan_eq (show iSize _ < 2 ^ 32 by omega) hl.tiles D.length_lt,
    map_some, ← lookup_seek hl.tiles]
  cases seek _ _ 0 es <;> rfl

include hok

/-- **`ext2_vfs_finddir` は、一覧から名前を引く。** -/
theorem finddir_spec :
    ∃ s1, Skips s s1 ∧ ext2VfsFinddir s node name = some (match lookup (listing es) name with
      | none => (none, s1)
      | some i => ext2CreateNode s1 i) :=
  (finddir_cases inv D hdir).resolve_left fun h => h.1 hok

/-- 引いた node は、disk の inode の写しを持つ。 -/
theorem finddir_found {n : Nat} (hlook : lookup (listing es) name = some n) (hn : IsInode G n) :
    ∃ target s1,
      ext2VfsFinddir s node name = some (some target, s1) ∧ Skips s s1 ∧ target.inodeNum = n ∧
      target.type = ext2TypeToVfs (iMode target.inode) ∧
      ∀ y < inodeStructSize, target.inode y = inodeAt G s.disk n y := by
  obtain ⟨s1, hskip, hfind⟩ := finddir_spec inv D hdir hok
  obtain ⟨target, s2, hnode, hskip2, hnum, htype, hcopy⟩ :=
    createNode_ok (hskip.ready inv.ready) (hok.shift hskip.heap) hn
  rw [hskip.disk] at hcopy
  refine ⟨target, s2, ?_, hskip.trans hskip2, hnum, htype, hcopy⟩
  rw [hfind, hlook]
  exact congrArg some hnode

/-- **`ext2_vfs_readdir` は、一覧の順に数え上げる。** -/
theorem readdir_spec {index : Nat} :
    ∃ s1, Skips s s1 ∧ ext2VfsReaddir s node index = some ((listing es)[index]?, s1) := by
  obtain ⟨d, s1, hread, hskip, hl⟩ := readDirData_spec inv D hok
  have hlt := D.lt
  obtain ⟨found, hscan, hfound⟩ := readdirScan_eq (show iSize _ < 2 ^ 32 by omega)
    hl.tiles D.length_lt 0 (Nat.zero_le index)
  rw [Nat.sub_zero] at hfound
  refine ⟨s1, hskip, ?_⟩
  rw [ext2VfsReaddir, if_neg hdir, hread]
  simp only [hscan, Option.map_some]
  have hdirent : direntAt d = fun o => (entryAt d o).dirent := by
    funext o
    have := deNameLen_lt d o
    rw [direntAt, Nat.min_eq_left (by omega)]
    rfl
  rw [listing, getElem?_map, ← hfound, Option.map_map, hdirent]
  rfl

end

/-! ## 書き戻し -/

/-- directory の data を書き戻した。木も bitmap も変わらない。 -/
structure Rewritten (G : Geom) (x num : Nat) (roots : Nat → Nat → Nat) (s s' : State)
    (ino ino' : Mem) (es' : List Entry) : Prop where
  grown : Grown G x num s s' roots roots
  trace_eq : ∀ p, trace G (view G s'.disk x roots) p = trace G (view G s.disk x roots) p
  marks : ∀ k, ∀ i < G.objects k, marked G s'.disk k i = marked G s.disk k i
  fs : s'.fs = s.fs
  directory : Directory G s' x roots num ino' es'
  size : iSize ino' = iSize ino
  rest : ∀ y, y < 4 ∨ (8 ≤ y ∧ y < 28) ∨ (32 ≤ y ∧ y < 40) ∨ 100 ≤ y → ino' y = ino y
  stored : ∀ y < inodeStructSize, inodeAt G s'.disk num y = ino' y

theorem heapOk_of_head {buf : Mem} (hbuf : s.heap 0 = some buf) (hok : HeapOk s.next) : HeapOk s
  | 0 => ⟨buf, hbuf⟩
  | n + 1 => hok n

/-- 書けたなら、block の buffer は取れている。 -/
theorem writeInodeData_heapOk {d : Mem} {size : Nat} {r : Int} (hpos : 0 < size)
    (hok : HeapOk s.next) (h : ext2WriteInodeData s ino num 0 size d = (r, ino', s'))
    (hr : 0 ≤ r) : HeapOk s := by
  cases hbuf : s.heap 0 with
  | none =>
    rw [ext2WriteInodeData, if_neg (Nat.ne_of_gt hpos), kmalloc_eq, hbuf] at h
    cases h
    cases hr
  | some buf => exact heapOk_of_head hbuf hok

/-- 同じ大きさの data を書き戻す。12 block 以下なら、`kmalloc` に失敗しても途中では終わらない。 -/
theorem writeDir_rewritten (inv : Inv G s x roots) (D : Directory G s x roots num ino es)
    (hok : iSize ino ≤ 12 * G.blockSize ∨ HeapOk s.next) {d : Mem} {r : Int}
    (hl : Laid d (iSize ino) es')
    (h : ext2WriteInodeData s ino num 0 (iSize ino) d = (r, ino', s')) (hr : 0 ≤ r) :
    Rewritten G x num roots s s' ino ino' es' := by
  have hlt := D.lt
  obtain ⟨r', ino1, s1, roots', hcall, hout⟩ := writeInodeData_spec inv D.live D.exact 0
    (show iSize ino < 2 ^ 32 by omega) d
  cases h.symm.trans hcall
  have hpresent : Allocd G (view G s.disk x roots) num 0 (0 + iSize ino) := by
    rw [Nat.zero_add]
    exact D.present
  obtain rfl : r = iSize ino := by
    rcases hok with hsmall | hok
    · exact (hout.fed (by omega) hpresent hlt).resolve_right (by omega)
    · exact hout.complete (writeInodeData_heapOk D.pos hok h hr) hlt fun pos h1 h2 =>
        .inl (hpresent pos h1 h2)
  obtain ⟨rfl, htrace, hmarks, hfs⟩ := hout.quiet hpresent
  have hdone := hout.done rfl D.pos
  have hsize : iSize ino' = iSize ino := by
    rw [hdone.size_eq, if_neg (by omega)]
  refine ⟨hout.grown, htrace, hmarks, hfs, ⟨?_, hout.exact, ?_, ?_, ?_, ?_⟩, hsize, hdone.rest,
    hdone.stored⟩
  · rw [view_live, hout.grown.live_eq]
    exact view_live.mp D.live
  · intro pos h1 h2
    rw [htrace]
    exact D.present pos h1 (by rwa [hsize] at h2)
  · rw [hsize]
    exact D.pos
  · rw [hsize]
    exact hlt
  · rw [hsize]
    refine hl.congr fun y hy => ?_
    rw [hdone.written.inside y (Nat.zero_le _) (by omega), Nat.sub_zero]

theorem Rewritten.of_skips {s1 : State} (h : Skips s s1) (inv : Inv G s x roots)
    (hw : Rewritten G x num roots s1 s' ino ino' es') :
    Rewritten G x num roots s s' ino ino' es' := by
  have hg := (h.grown inv num).trans hw.grown
  obtain ⟨i, rfl⟩ := h
  exact ⟨hg, hw.trace_eq, hw.marks, hw.fs, hw.directory, hw.size, hw.rest, hw.stored⟩

/-! ## entry を足す -/

/-- どれかの entry に、名前の入る余りがある。 -/
def HasRoom (es : List Entry) (name : List UInt8) : Prop :=
  ∃ e ∈ es, e.roomy (ext2DirEntrySize name.length) = true

/-- 新しい block に足すための条件。`free` は空きの数で、そのうち一つはどこにも繋がれずに失われる。 -/
structure Growable (G : Geom) (v : View) (num : Nat) (ino : Mem) (free : Nat) : Prop where
  free : lacking G v num ((iSize ino + G.blockSize - 1) / G.blockSize) < free
  boot : G.BootReserved
  limit : (iSize ino + G.blockSize - 1) / G.blockSize < G.mapLimit
  block : G.blockSize < 2 ^ 16
  size : iSize ino + G.blockSize < 2 ^ 31

theorem Growable.sameFile {v v' : View} {free : Nat} (h : Growable G v num ino free)
    (hs : SameFile G v v' num) : Growable G v' num ino free :=
  ⟨hs.lacking ▸ h.free, h.boot, h.limit, h.block, h.size⟩

/-- directory が書き換わった。ほかの inode は変わらない。 -/
structure Updated (G : Geom) (x num : Nat) (s s' : State) (roots roots' : Nat → Nat → Nat)
    (ino ino' : Mem) (es' : List Entry) : Prop where
  grown : Grown G x num s s' roots roots'
  directory : Directory G s' x roots' num ino' es'
  rest : ∀ y, y < 4 ∨ (8 ≤ y ∧ y < 28) ∨ (32 ≤ y ∧ y < 40) ∨ 100 ≤ y → ino' y = ino y
  stored : ∀ y < inodeStructSize, inodeAt G s'.disk num y = ino' y

theorem Rewritten.updated (h : Rewritten G x num roots s s' ino ino' es') :
    Updated G x num s s' roots roots ino ino' es' := ⟨h.grown, h.directory, h.rest, h.stored⟩

theorem iSize_setISize (ino : Mem) {v : Nat} (hv : v < 2 ^ 32) : iSize (setISize ino v) = v :=
  load_store_self hv

/-- 足りるだけの空きがあれば、一つの block を足して伸びた data を書ける。 -/
theorem writeDir_extended (inv : Inv G s x roots) (D : Directory G s x roots num ino es)
    (hok : HeapOk s.next)
    (hgrow : Growable G (view G s.disk x roots) num ino (blockPool.total s.fs + 1)) {d : Mem}
    {r : Int} (hl : Laid d (iSize ino + G.blockSize) es')
    (h : ext2WriteInodeData s (setISize ino (iSize ino + G.blockSize)) num 0
      (iSize ino + G.blockSize) d = (r, ino', s')) (hr : 0 ≤ r) :
    ∃ roots', Updated G x num s s' roots roots' ino ino' es' := by
  have hpos := D.pos
  have hlt := hgrow.size
  have wf := inv.ready.wf
  have hbs := wf.size_pos
  have hfree := hgrow.free
  have hisz : iSize _ = iSize ino + G.blockSize := iSize_setISize ino (by omega)
  obtain ⟨r', ino1, s1, roots', hcall, hout⟩ := writeInodeData_spec inv D.live
    (D.exact.setISize _) 0 (show iSize ino + G.blockSize < 2 ^ 32 by omega) d
  cases h.symm.trans hcall
  have hr : r = ((iSize ino + G.blockSize : Nat) : Int) := by
    refine hout.complete (writeInodeData_heapOk (by omega) hok h hr) hlt ?_
    intro pos _ h2
    rw [Nat.zero_add] at h2 ⊢
    by_cases hp : trace G (view G s.disk x roots) (pathOf G num (pos / G.blockSize)) = none
    · right
      -- 前からある byte の block はあるので、最後の block である
      have hge : iSize ino ≤ pos := by
        by_contra hlt
        exact D.present pos (Nat.zero_le _) (by omega) hp
      have hprev : (iSize ino - 1) / G.blockSize ≠ pos / G.blockSize := by
        intro he
        exact D.present _ (Nat.zero_le _) (by omega) (he ▸ hp)
      have hlast : pos / G.blockSize = (iSize ino + G.blockSize - 1) / G.blockSize := by
        rw [show iSize ino + G.blockSize - 1 = iSize ino - 1 + G.blockSize by omega,
          Nat.add_div_right _ hbs]
        have h1 : (iSize ino - 1) / G.blockSize ≤ pos / G.blockSize :=
          Nat.div_le_div_right (by omega)
        have h2 : pos / G.blockSize ≤ (iSize ino - 1 + G.blockSize) / G.blockSize :=
          Nat.div_le_div_right (by omega)
        rw [Nat.add_div_right _ hbs] at h2
        omega
      exact ⟨hlast, hlast ▸ hgrow.limit, hgrow.boot, by rw [hlast]; omega⟩
    · exact .inl hp
  have hdone := hout.done hr (by omega)
  have hisz' : iSize ino' = iSize ino + G.blockSize := by
    rw [hdone.size_eq, hisz, if_neg (by omega)]
  refine ⟨roots', hout.grown, ⟨?_, hout.exact, ?_, ?_, ?_, ?_⟩, ?_, hdone.stored⟩
  · rw [view_live, hout.grown.live_eq]
    exact view_live.mp D.live
  · intro pos h1 h2
    exact hdone.written.present pos h1 (by omega)
  · omega
  · omega
  · rw [hisz']
    refine hl.congr fun y hy => ?_
    rw [hdone.written.inside y (Nat.zero_le _) (by omega), Nat.sub_zero]
  · intro y hy
    rw [hdone.rest y hy]
    exact store_apply_of_not (by omega)

/-- entry の余りに入るか、空きの block が一つもないか、新しい block に足せる。 -/
def Addable (G : Geom) (v : View) (num : Nat) (ino : Mem) (es : List Entry) (name : List UInt8)
    (free : Nat) : Prop := HasRoom es name ∨ free = 0 ∨ Growable G v num ino free

theorem Addable.sameFile {v v' : View} {free : Nat} (h : Addable G v num ino es name free)
    (hs : SameFile G v v' num) : Addable G v' num ino es name free :=
  h.imp_right (Or.imp_right fun h => h.sameFile hs)

/-- 新しい block に書く `ext2_write_inode_data` が、block の buffer を求めた後の状態。 -/
def growStart (s : State) : Option State :=
  let (newBlock, s) := ext2AllocBlock s
  if newBlock < 0 then none
  else
    match kmalloc s with
    | (none, _) => none
    | (some _, s) => some s.next

/--
`ext2_add_dir_entry` の呼ぶ `ext2_write_inode_data` が、block の buffer を求めた後の状態。その前に失敗すれば、
書き始めない。
-/
def writeStart (s : State) (ino : Mem) (name : List UInt8) : Option State :=
  match entryData s ino with
  | (none, _) => none
  | (some d, s) =>
    (spaceScan d (iSize ino) (ext2DirEntrySize (name.take 255).length) walkFuel 0).bind fun found =>
      if found.isSome then some s.next else growStart s

theorem HeapOk.growStart {sw : State} (hok : HeapOk s) (inv : Inv G s x roots)
    (h : growStart s = some sw) : HeapOk sw := by
  unfold Ext2.growStart at h
  rcases inv.allocBlock with ⟨i, halloc, -⟩ | ⟨b, s2, halloc, hc, -⟩
  · simp only [halloc] at h
    cases h
  · simp only [halloc] at h
    rw [if_neg (by omega), kmalloc_eq] at h
    cases hbuf : s2.heap 0 with
    | none =>
      rw [hbuf] at h
      cases h
    | some buf =>
      rw [hbuf] at h
      cases h
      exact (hok.shift hc.heap).next.next

theorem HeapOk.writeStart {sw : State} (hok : HeapOk s) (inv : Inv G s x roots)
    (h : writeStart s ino name = some sw) : HeapOk sw := by
  unfold Ext2.writeStart at h
  have hskip := entryData_skips inv.ready ino
  generalize entryData s ino = read at h hskip
  obtain ⟨d, s1⟩ := read
  have hok1 := hok.shift (Skips.heap hskip)
  cases d with
  | none => cases h
  | some d =>
    obtain ⟨found, -, h⟩ := bind_eq_some_iff.mp h
    split at h
    · cases h
      exact hok1.next
    · exact hok1.growStart (Skips.inv hskip inv) h

/-- 12 block 以下の directory の余りに入れるか、書き始めてからは `kmalloc` に失敗しない。 -/
def AddMem (G : Geom) (s : State) (ino : Mem) (es : List Entry) (name : List UInt8) : Prop :=
  (HasRoom es name ∧ iSize ino ≤ 12 * G.blockSize) ∨
    ∀ sw, writeStart s ino name = some sw → HeapOk sw

theorem HeapOk.addMem (hok : HeapOk s) (inv : Inv G s x roots) : AddMem G s ino es name :=
  .inr fun _ => hok.writeStart inv

/-- 列に entry を一つ加えた列。余りに入れるか、新しい block に入れる。 -/
inductive Added (G : Geom) (new ft : Nat) (name : List UInt8) : List Entry → List Entry → Prop
  | split {pre post : List Entry} {e : Entry} :
      e.roomy (ext2DirEntrySize name.length) = true →
      Added G new ft name (pre ++ e :: post) (pre ++ { e with recLen := e.used } ::
        ⟨new, e.recLen - e.used, name, ft⟩ :: post)
  | extended {es : List Entry} : ¬HasRoom es name →
      Added G new ft name es (es ++ [⟨new, G.blockSize, name, ft⟩])

theorem Added.inserted (h : Added G new ft name es es') (h0 : new ≠ 0) :
    Inserted ⟨name, new, ext2FtypeToVfs ft⟩ (listing es) (listing es') := by
  cases h with
  | @split pre post e =>
    refine ⟨listing (pre ++ [e]), listing post, ?_, ?_⟩
    · rw [← listing_append, append_assoc]
      rfl
    · rw [listing_append, listing_setRecLen, ← singleton_append, listing_append,
        listing_append, append_assoc,
        @listing_cons_ne _ post h0]
      rfl
  | extended =>
    refine ⟨listing es, [], (append_nil _).symm, ?_⟩
    rw [listing_append, listing_cons_ne h0]
    rfl

/-- 最初に名前の合う entry の長さを直前の entry に足しても、16 bit に収まる。 -/
def Mergeable (es : List Entry) (name : List UInt8) : Prop :=
  ∀ pre y e post, es = pre ++ y :: e :: post → e.has name = true →
    (∀ z ∈ pre ++ [y], z.has name = false) → y.recLen + e.recLen < 2 ^ 16

/-- 余りに入れた entry を消すと、長さは元に戻る。 -/
theorem Added.mergeable (h : Added G new ft name es es') (hroom : HasRoom es name)
    (hlen : ∀ e ∈ es, e.recLen < 2 ^ 16) (habs : lookup (listing es) name = none) :
    Mergeable es' name := by
  cases h with
  | extended hfull => exact absurd hroom hfull
  | @split pre post e he =>
    have hnot : ∀ z ∈ pre ++ e :: post, z.has name = false := by
      rw [lookup_listing, map_eq_none_iff, find?_eq_none] at habs
      simpa using habs
    have hpre : ∀ z ∈ pre ++ [{ e with recLen := e.used }], z.has name = false := by
      intro z hz
      rcases mem_append.mp hz with hz | hz
      · exact hnot z (mem_append_left _ hz)
      · rw [mem_singleton.mp hz]
        exact hnot e (by simp)
    intro pre' y x post' hes hx hpre'
    -- 名前の合う最初の entry は一つなので、直前の entry も決まる
    have htake : ∀ {a b : List _} {z : Entry}, (∀ w ∈ a, w.has name = false) →
        z.has name = true → (a ++ z :: b).takeWhile (fun w => !w.has name) = a := by
      intro a b z ha hz
      rw [takeWhile_append_of_pos fun w hw => by simp [ha w hw],
        takeWhile_cons_of_neg (by simp [hz]), append_nil]
    have hnew : (⟨new, e.recLen - e.used, name, ft⟩ : Entry).has name = true := by
      by_contra hno
      have hx' : x ∈ pre ++ { e with recLen := e.used } :: ⟨new, e.recLen - e.used, name, ft⟩ ::
          post := by
        rw [hes]
        simp
      simp only [mem_append, mem_cons] at hx'
      have hall : x.has name = false := by
        rcases hx' with h | rfl | rfl | h
        · exact hnot x (by simp [h])
        · exact hnot e (by simp)
        · simpa using hno
        · exact hnot x (by simp [h])
      rw [hall] at hx
      cases hx
    have h1 := htake (b := post) hpre hnew
    have h2 := htake (b := post') hpre' hx
    rw [append_assoc, singleton_append] at h1 h2
    rw [hes, h2] at h1
    obtain ⟨rfl, hy⟩ := append_inj' h1 rfl
    obtain rfl := singleton_inj.mp hy
    obtain ⟨rfl, -⟩ := cons.inj (cons.inj (append_cancel_left hes)).2
    have := hlen e (by simp)
    simp only [Entry.roomy, decide_eq_true_eq] at he
    show e.used + (e.recLen - e.used) < 2 ^ 16
    omega

theorem writeBack_done {d : Mem} (h : writeBack s num ino d = (true, ino', s')) :
    ∃ r, ext2WriteInodeData s ino num 0 (iSize ino) d = (r, ino', s') ∧ 0 ≤ r := by
  obtain ⟨hr, hrest⟩ := Prod.mk.inj h
  exact ⟨_, Prod.ext rfl hrest, of_decide_eq_true hr⟩

/-- 空きの block が足りるなら、新しい block に entry を足せる。 -/
theorem growDir_spec {d : Mem} (inv : Inv G s x roots) (D : Directory G s x roots num ino es)
    (hl : Laid d (iSize ino) es) (hok : ∀ sw, growStart s = some sw → HeapOk sw)
    (hnew : new < 2 ^ 32) (hname : name.length < 256) (hft : ft < 256)
    (hadd : blockPool.total s.fs = 0 ∨
      Growable G (view G s.disk x roots) num ino (blockPool.total s.fs))
    (h : growDir s num ino d new name ft = some (true, ino', s')) :
    blockPool.total s.fs ≠ 0 ∧ ∃ roots', Updated G x num s s' roots roots' ino ino'
      (es ++ [⟨new, G.blockSize, name, ft⟩]) := by
  have hpos := D.pos
  have wf := inv.ready.wf
  unfold growDir at h
  unfold growStart at hok
  rcases inv.allocBlock with ⟨i, halloc, -⟩ | ⟨b, s2, halloc, hc, -, -, htotal⟩
  · simp only [halloc] at h
    cases h
  simp only [halloc] at h hok
  rw [if_neg (by omega), kmalloc_eq] at h hok
  cases hbuf : s2.heap 0 with
  | none =>
    rw [hbuf] at h
    cases h
  | some buf =>
    rw [hbuf] at h hok
    have hc1 := hc.trans hc.inv.calm_next
    have hfree : blockPool.total s.fs ≠ 0 := by omega
    have hgrow := hadd.resolve_left hfree
    have hsame : SameFile G (view G s.disk x roots) (view G s2.next.disk x roots) num :=
      hc1.sameFile num
    have D2 : Directory G s2.next x roots num ino es := D.sameFile wf hsame
    have hbs : s2.next.fs.blockSize = G.blockSize := hc1.inv.ready.size
    have hsize := hgrow.size
    have hl' : Laid (extendDir s2.next.fs buf d (iSize ino) new name ft) (iSize ino + G.blockSize)
        (es ++ [⟨new, G.blockSize, name, ft⟩]) := by
      have hge : 1024 ≤ G.blockSize := Nat.le_of_dvd wf.size_pos wf.dvd
      rw [← hbs] at hge ⊢
      exact hl.extend (hbs ▸ Nat.dvd_trans (by decide) wf.dvd) (hbs ▸ hgrow.block) (by omega) hnew
        hname hft
    have hgrow2 := hgrow.sameFile hsame
    rw [htotal] at hgrow2
    simp only [hbs] at h
    rw [if_pos (by omega), some.injEq] at h
    obtain ⟨r, hcall, hr⟩ := writeBack_done h
    rw [iSize_setISize ino (by omega)] at hcall
    obtain ⟨roots', hu⟩ := writeDir_extended hc1.inv D2 (hok _ rfl) hgrow2 hl' hcall hr
    exact ⟨hfree, roots', hc1.grown.trans hu.grown, hu.directory, hu.rest, hu.stored⟩

/-- **成功した `ext2_add_dir_entry` は、一覧に entry を一つ加える。** -/
theorem addDirEntry_spec (inv : Inv G s x roots) (D : Directory G s x roots num ino es)
    (hok : AddMem G s ino es name) (hnew : new < 2 ^ 32) (hname : name.length < 256)
    (hft : ft < 256)
    (hadd : Addable G (view G s.disk x roots) num ino es name (blockPool.total s.fs))
    (h : ext2AddDirEntry s ino num new name ft = some (true, ino', s')) :
    ∃ roots' es', Updated G x num s s' roots roots' ino ino' es' ∧ Added G new ft name es es' ∧
      (HasRoom es name ∨ blockPool.total s.fs = 0 → Rewritten G x num roots s s' ino ino' es') := by
  have hpos := D.pos
  have hlt := D.lt
  rw [addDirEntry_eq, entryData, if_neg (by omega)] at h
  rw [AddMem, writeStart, entryData, if_neg (by omega)] at hok
  rcases readDirData_cases inv D with ⟨-, s1, hread, -⟩ | ⟨d, s1, hread, hskip, hl⟩
  · simp only [hread] at h
    cases h
  have inv1 := hskip.inv inv
  have D1 := D.skips hskip
  have hscan : spaceScan d (iSize ino) (ext2DirEntrySize name.length) walkFuel 0 = _ :=
    spaceScan_eq (by omega) hl.tiles hl.fits D.length_lt
  simp only [hread, placeEntry, take_of_length_le (show name.length ≤ 255 by omega), hscan,
    bind_some] at h hok
  cases hseek : seek Entry.recLen (Entry.roomy (ext2DirEntrySize name.length)) 0 es with
  | some o =>
    obtain ⟨pre, e, post, rfl, rfl, he, -⟩ := seek_eq_some hseek
    obtain ⟨d', hsplit, hl'⟩ := hl.split he hnew hname hft
    rw [hseek] at h hok
    rw [Nat.zero_add] at h
    simp only [hsplit, map_some, some.injEq] at h
    obtain ⟨r, hcall, hr⟩ := writeBack_done h
    have hw := (writeDir_rewritten inv1 D1 (hok.imp And.right fun hok => hok _ rfl) hl' hcall
      hr).of_skips hskip inv
    exact ⟨roots, _, hw.updated, .split he, fun _ => hw⟩
  | none =>
    have hfull : ¬HasRoom es name := by
      rintro ⟨e, he, hr⟩
      rw [seek_eq_none.mp hseek e he] at hr
      cases hr
    rw [hseek] at h hok
    simp only [isSome_none, Bool.false_eq_true, if_false] at h hok
    obtain ⟨hfree, roots', hu⟩ := growDir_spec inv1 D1 hl
      (hok.resolve_left fun h => hfull h.1) hnew hname hft
      (by rw [hskip.fs, hskip.disk]; exact hadd.resolve_left hfull) h
    rw [hskip.fs] at hfree
    exact ⟨roots', _, ⟨(hskip.grown inv num).trans hu.grown, hu.directory, hu.rest, hu.stored⟩,
      .extended hfull, fun h => absurd h (not_or.mpr ⟨hfull, hfree⟩)⟩

/-! ## entry を消す -/

/-- 列から、最初に名前の合う entry を消した列。 -/
inductive Erased (name : List UInt8) : List Entry → List Entry → Prop
  | first {e : Entry} {post : List Entry} : e.has name = true →
      Erased name (e :: post) ({ e with inode := 0 } :: post)
  | merged {pre post : List Entry} {y e : Entry} : e.has name = true →
      (∀ z ∈ pre ++ [y], z.has name = false) →
      Erased name (pre ++ y :: e :: post) (pre ++ { y with recLen := y.recLen + e.recLen } :: post)

theorem Erased.inserted (h : Erased name es es') :
    ∃ e : Dirent, e.name = name ∧ Inserted e (listing es') (listing es) := by
  cases h with
  | @first e post he =>
    obtain ⟨h0, hname⟩ := Entry.has_iff.mp he
    refine ⟨e.dirent, hname, [], listing post, listing_cons_zero rfl, ?_⟩
    rw [listing_cons_ne h0]
    rfl
  | @merged pre post y e he hpre =>
    obtain ⟨h0, hname⟩ := Entry.has_iff.mp he
    refine ⟨e.dirent, hname, listing (pre ++ [y]), listing post, ?_, ?_⟩
    · rw [listing_append, listing_setRecLen, ← listing_append, ← listing_append, append_assoc]
      rfl
    · rw [show pre ++ y :: e :: post = (pre ++ [y]) ++ e :: post by simp, listing_append,
        listing_cons_ne h0]

/-- 見つけた entry を消すと、data は entry を消した列になる。 -/
theorem Laid.erased {d : Mem} {size o : Nat} {prev : Option Nat} (hl : Laid d size es)
    (hmerge : Mergeable es name)
    (hseek : seekPrev Entry.recLen (Entry.has name) none 0 es = some (o, prev)) :
    ∃ d' es', eraseEntry d size o prev = some d' ∧ Laid d' size es' ∧ Erased name es es' := by
  obtain ⟨pre, e, post, rfl, he, hpre, hf1, hf2⟩ := seekPrev_eq_some hseek
  rcases hf2 with ⟨rfl, hprev⟩ | ⟨pre, y, rfl, hprev⟩
  · obtain ⟨h1, h2⟩ := hl.erase
    subst hf1 hprev
    exact ⟨_, _, h1, h2, .first he⟩
  · rw [append_assoc] at hl
    obtain ⟨h1, h2⟩ := hl.merge (hmerge pre y e post (by simp) he hpre)
    simp only [span_append, span_cons, span_nil, Nat.add_zero, Nat.zero_add] at hf1 hprev
    subst hf1 hprev
    refine ⟨_, _, h1, h2, ?_⟩
    rw [append_assoc]
    exact .merged he hpre

/-- **成功した `ext2_remove_dir_entry` は、一覧から entry を一つ消す。** -/
theorem removeDirEntry_spec {r : Int} (inv : Inv G s x roots)
    (D : Directory G s x roots num ino es) (hok : iSize ino ≤ 12 * G.blockSize ∨
      ∀ d s1, readDirData s ino = (some d, s1) → HeapOk s1.next)
    (hname : 0 < name.length ∧ name.length < 256) (hmerge : Mergeable es name)
    (h : ext2RemoveDirEntry s ino num name = some (r, ino', s')) (hr : 0 ≤ r) :
    ∃ es', Erased name es es' ∧ Rewritten G x num roots s s' ino ino' es' := by
  have hlt := D.lt
  rw [ext2RemoveDirEntry, if_neg (by omega)] at h
  rcases readDirData_cases inv D with ⟨-, s1, hread, -⟩ | ⟨d, s1, hread, hskip, hl⟩
  · rw [hread] at h
    cases h
    cases hr
  have hscan : removeScan d _ name _ 0 none = _ :=
    removeScan_eq (by omega) hl.tiles D.length_lt none
  simp only [hread, hscan, bind_some] at h
  cases hseek : seekPrev _ _ none 0 es with
  | none =>
    rw [hseek] at h
    cases h
    cases hr
  | some f =>
    obtain ⟨o, prev⟩ := f
    obtain ⟨d', es', herase, hl', hes⟩ := hl.erased hmerge hseek
    simp only [hseek, herase, map_some, some.injEq] at h
    split at h
    · cases h
      cases hr
    obtain ⟨n, ino1, s2, hcall⟩ : ∃ n ino1 s2,
        ext2WriteInodeData s1 ino num 0 (iSize ino) d' = (n, ino1, s2) := ⟨_, _, _, rfl⟩
    rw [hcall] at h
    cases h
    refine ⟨es', hes, .of_skips hskip inv (writeDir_rewritten (hskip.inv inv) (D.skips hskip)
      (hok.imp_right fun hok => hok d s1 hread) hl' hcall ?_)⟩
    by_contra hn
    rw [if_pos (by omega)] at hr
    cases hr

end Directory

/-! ## 整った directory -/

/-- data の block は、どれも entry の列でちょうど敷き詰められている。 -/
structure Blocked (G : Geom) (d : Mem) (size : Nat) (bl : List (List Entry)) : Prop where
  laid : Laid d size bl.flatten
  full : ∀ b ∈ bl, span Entry.recLen b = G.blockSize

instance (G : Geom) (d : Mem) (size : Nat) (bl : List (List Entry)) :
    Decidable (Blocked G d size bl) :=
  decidable_of_iff ((Tiles Entry.recLen (entryAt d) 0 bl.flatten size ∧
      ∀ e ∈ bl.flatten, e.Fits) ∧ ∀ b ∈ bl, span Entry.recLen b = G.blockSize)
    ⟨fun h => ⟨⟨h.1.1, h.1.2⟩, h.2⟩, fun h => ⟨⟨h.laid.tiles, h.laid.fits⟩, h.full⟩⟩

/-- disk から読んだ node の指す、整った directory。 -/
structure WellFormedDir (G : Geom) (s : State) (node : Node) (bl : List (List Entry)) : Prop where
  live : liveInode G s.disk node.inodeNum = true
  copy : ∀ y < inodeStructSize, node.inode y = inodeAt G s.disk node.inodeNum y
  isDir : node.type = vfsDirectory
  pos : 0 < iSize node.inode
  lt : iSize node.inode < 2 ^ 31
  blocked : Blocked G (fileByte G (imageView G s.disk) node.inodeNum) (iSize node.inode) bl

section WellFormed

variable {G : Geom} {s : State} {d : Mem} {size : Nat} {bl : List (List Entry)} {node : Node}

theorem Blocked.size_eq (h : Blocked G d size bl) : size = bl.length * G.blockSize := by
  rw [h.laid.tiles.end_eq, Nat.zero_add, span_flatten h.full]

/-- どの block の先頭にも entry がある。 -/
theorem Blocked.entry_pos (h : Blocked G d size bl) (hbs : 0 < G.blockSize) {j : Nat}
    (hj : j < bl.length) : deRecLen d (j * G.blockSize) ≠ 0 := by
  have htiles := h.laid.tiles.page h.full (getElem?_eq_getElem hj)
  have hfull := h.full _ (getElem_mem hj)
  cases hb : bl[j] with
  | nil =>
    rw [hb, span_nil] at hfull
    omega
  | cons e b =>
    rw [hb] at htiles
    obtain ⟨he, hpos, -⟩ := htiles
    rw [show deRecLen d _ = e.recLen from congrArg Entry.recLen he]
    omega

/-- 穴は 0 なので、entry のある block に穴はない。 -/
theorem Blocked.present {v : View} {n : Nat} (wf : G.Wf) (h : Blocked G (fileByte G v n) size bl) :
    Allocd G v n 0 size := by
  intro pos _ hpos hnone
  have hbs := wf.size_pos
  have hge : 1024 ≤ G.blockSize := Nat.le_of_dvd hbs wf.dvd
  have hj : pos / G.blockSize < bl.length := by
    rw [Nat.div_lt_iff_lt_mul hbs, ← h.size_eq]
    exact hpos
  refine h.entry_pos hbs hj ?_
  have hzero : ∀ o < G.blockSize, fileByte G v n (pos / G.blockSize * G.blockSize + o) = 0 := by
    intro o ho
    rw [fileByte, block_div hbs ho, dataAt, hnone]
  unfold deRecLen
  simp only [load, Nat.add_assoc, hzero 4 (by omega), hzero (4 + 1) (by omega)]
  rfl

theorem WellFormedDir.directory (W : WellFormedDir G s node bl) (wf : G.Wf) :
    Directory G s 0 (rootAt G s.disk) node.inodeNum node.inode bl.flatten where
  live := by
    rw [view_live_zero]
    exact W.live
  exact := exact_of_disk W.copy
  present := by
    rw [view_eq_imageView]
    exact W.blocked.present wf
  pos := W.pos
  lt := W.lt
  laid := by
    rw [view_eq_imageView]
    exact W.blocked.laid

theorem WellFormedDir.isDir_ne (W : WellFormedDir G s node bl) :
    node.type &&& vfsDirectory ≠ 0 := by
  rw [W.isDir]
  decide

end WellFormed

end Alos.Ext2
