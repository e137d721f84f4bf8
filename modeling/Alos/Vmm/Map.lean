import Alos.Vmm.Translate

/-!
# `vmm_map_page` と `vmm_unmap_page` の意味

page table が共有のない木をなし、道に `PAGE_HUGE` がなく、PMM が使われていない frame を返すとき、
`vmm_map_page` はその page の変換だけを変え、`vmm_unmap_page` はその page の変換だけを消す。

* `vmm_map_unmap_translate` — 主定理
* `vmmMapPageInDir_reports` — `vmm_map_page_in_dir` の戻り値が変換と合う条件
-/

namespace Alos.Vmm

open Bytes Pmm Bitmap Radix

variable {v w l root f virt g : Nat} {m m' : Mem} {s s0 : State}

/-! ## page -/

/-- 四つの添字が等しい番地は、同じ page にある。 -/
def SamePage (v w : Nat) : Prop := ∀ l < 4, pathIndex v l = pathIndex w l

theorem pathTo_inj {k : Nat} (h : pathTo v k = pathTo w l) :
    k = l ∧ ∀ j < l, pathIndex v j = pathIndex w j := by
  have hk : k = l := by
    have := congrArg List.length h
    simpa using this
  subst hk
  refine ⟨rfl, ?_⟩
  induction k with
  | zero => omega
  | succ k ih =>
    obtain ⟨h1, h2⟩ := List.append_inj h (by simp)
    intro j hj
    by_cases hjk : j = k
    · subst hjk
      simpa [pathFin] using h2
    · exact ih h1 j (by omega)

theorem pathTo_congr (h : ∀ j < l, pathIndex v j = pathIndex w j) : pathTo v l = pathTo w l := by
  induction l with
  | zero => rfl
  | succ l ih =>
    have hl := h l (by omega)
    simp only [pathTo, pathFin, ih fun j hj => h j (by omega), hl]

/-! ## 仮定 -/

/-- PMM にとって空いている frame。 -/
def FreeFrame (p : Pmm.State) (f : Nat) : Prop :=
  ∃ b, b < p.totalBlocks ∧ test p.bitmap b = false ∧ f = blockFrame b

/-- page table は共有のない木をなし、PMM の空き frame はその table ではない。 -/
structure Tree (s : State) (root : Nat) : Prop where
  ok : Ok s
  root_frame : IsFrame root
  unshared : Unshared child (tables s.mem) root
  addressable : ∀ f, IsTable s.mem root f → physToVirt s f ≠ 0
  unused : ∀ f, FreeFrame s.pmm f → ¬IsTable s.mem root f

/-- `dir` は `root` を指し、`dir` の置かれた frame は table でも空きでもない。 -/
structure DirAt (s : State) (dir : Dir) (root : Nat) : Prop where
  ne_null : dir ≠ .null
  pml4_eq : (readDir s dir).pml4 = physToVirt s root
  apart : ∀ ptr, dir = .block ptr →
    ∃ d, IsFrame d ∧ ptr = physToVirt s d ∧ ¬IsTable s.mem root d ∧ ¬FreeFrame s.pmm d

/-- `virt` の道の PDPT と PD の entry に `PAGE_HUGE` がない。 -/
def NoHuge (m : Mem) (root virt : Nat) : Prop :=
  ∀ l f, l = 1 ∨ l = 2 → tableAt m root (pathTo virt l) = some f →
    hasFlag (slot m f (pathIndex virt l)) pageHuge = false

/-- 続けて `n` 回の `pmm_alloc_block` が成功する。 -/
def AllocsOk : Pmm.State → Nat → Prop
  | _, 0 => True
  | p, n + 1 => (pmmAllocBlock p).1 ≠ 0 ∧ AllocsOk (pmmAllocBlock p).2 n

/-- 深さ `l` の table `f` から下に、まだない table の数。`n` は残りの段数である。 -/
def missing (m : Mem) (virt : Nat) : Nat → Nat → Nat → Nat
  | 0, _, _ => 0
  | n + 1, l, f =>
    if hasFlag (slot m f (pathIndex virt l)) pagePresent then
      missing m virt n (l + 1) (frameOf (slot m f (pathIndex virt l)))
    else n + 1

/-- 道の present な entry は、次の table を指す。 -/
theorem tableAt_next (hh : NoHuge m root virt) (hl : l < 3)
    (hf : tableAt m root (pathTo virt l) = some f)
    (hp : hasFlag (slot m f (pathIndex virt l)) pagePresent = true) :
    tableAt m root (pathTo virt (l + 1)) = some (frameOf (slot m f (pathIndex virt l))) := by
  rw [tableAt_succ hf]
  refine child_of_present hl hp fun hc => ?_
  by_contra hne
  rw [hh l f (by omega) hf] at hc
  cases hc

/-! ## 木の書き換え -/

theorem Tree.isFrame (t : Tree s root) (h : IsTable s.mem root f) : IsFrame f := by
  obtain ⟨p, hp⟩ := h
  exact isFrame_of_tableAt t.root_frame hp

/-- どの table の entry も同じ読まれ方をするなら、木も同じである。 -/
theorem tableAt_same
    (h : ∀ g (i : Fin 512), IsTable m root g → SameEntry (slot m g i) (slot m' g i))
    (p : List (Fin 512)) : tableAt m' root p = tableAt m root p := by
  apply walk_congr
  intro q i r f _ hq
  exact (h f i ⟨q, hq⟩).child

theorem isTable_congr (h : ∀ p, tableAt m' root p = tableAt m root p)
    (f : Nat) : IsTable m' root f ↔ IsTable m root f := by
  exact exists_congr fun p => by rw [← tableAt, ← tableAt, h]

/-- 木を変えない書き換えの後も、仮定は成り立つ。 -/
theorem Tree.of_same (t : Tree s root)
    (h : ∀ p, tableAt m' root p = tableAt s.mem root p) : Tree { s with mem := m' } root := by
  have hiff := isTable_congr h
  refine ⟨t.ok.setMem m', t.root_frame, ?_, ?_, ?_⟩
  · intro p q f hp hq
    rw [← tableAt, h] at hp hq
    exact t.unshared p q f hp hq
  · intro f hf
    exact (physToVirt_congr (by rfl)).trans_ne (t.addressable f ((hiff f).mp hf))
  · intro f hf ht
    exact t.unused f hf ((hiff f).mp ht)

theorem sameEntry_markUser {root f i flags : Nat} (t : Tree s root) (hf : IsFrame f)
    (hi : i < 512) (g : Nat) (j : Fin 512) (hg : IsTable s.mem root g) :
    SameEntry (slot s.mem g j) (slot (markUser s.mem f i flags) g j) := by
  rw [slot_markUser hf (t.isFrame hg) hi j.isLt]
  split
  · rename_i h
    rw [h.1, h.2]
    exact sameEntry_user
  · exact .refl

section

variable (h : ∀ g (i : Fin 512), IsTable m root g → SameEntry (slot m g i) (slot m' g i))
include h

theorem samePath_of_same (v : Nat) : SamePath m m' root v := by
  intro l f _ hf
  exact h f (pathFin v l) ⟨_, hf⟩

theorem noGiant_of_same (hg : NoGiant m root v) : NoGiant m' root v := by
  intro f hf hp
  rw [tableAt_same h] at hf
  have he := h f (pathFin v 1) ⟨_, hf⟩
  simp only [pathFin, pathIndex] at he
  rw [he.present] at hp
  rw [he.huge]
  exact hg f hf hp

theorem missing_congr (hh : NoHuge m root virt) :
    ∀ n l f, l + n = 3 → tableAt m root (pathTo virt l) = some f →
      missing m' virt n l f = missing m virt n l f := by
  intro n
  induction n with
  | zero => intro l f _ _; rfl
  | succ n ih =>
    intro l f hl hf
    have he := h f (pathFin virt l) ⟨_, hf⟩
    simp only [pathFin] at he
    simp only [missing]
    rw [he.present, he.frame]
    split
    · rename_i hp
      exact ih _ _ (by omega) (tableAt_next hh (by omega) hf hp)
    · rfl

end

/-- 道の entry に `PAGE_USER` を足しても、次の table に着き、まだない table の数は変わらない。 -/
theorem Tree.mark (t : Tree s root) (hl : l < 3)
    (hf : tableAt s.mem root (pathTo virt l) = some f) (hh : NoHuge s.mem root virt)
    (hp : hasFlag (slot s.mem f (pathIndex virt l)) pagePresent = true) (flags : Nat) :
    Tree { s with mem := markUser s.mem f (pathIndex virt l) flags } root ∧
    tableAt (markUser s.mem f (pathIndex virt l) flags) root (pathTo virt (l + 1))
      = some (frameOf (slot s.mem f (pathIndex virt l))) ∧
    NoHuge (markUser s.mem f (pathIndex virt l) flags) root virt ∧
    missing (markUser s.mem f (pathIndex virt l) flags) virt (3 - (l + 1)) (l + 1)
      (frameOf (slot s.mem f (pathIndex virt l))) = missing s.mem virt (3 - l) l f := by
  have hsame := @sameEntry_markUser s root f _ flags t (t.isFrame ⟨_, hf⟩) (pathIndex_lt virt l)
  have hwalk := tableAt_same hsame
  have hnext := tableAt_next hh hl hf hp
  refine ⟨t.of_same hwalk, (hwalk _).trans hnext, ?_, ?_⟩
  · intro j g hj hg
    have hg' : tableAt s.mem root (pathTo virt j) = some g := by rw [← hwalk]; exact hg
    have he := hsame g (pathFin virt j) ⟨_, hg'⟩
    exact he.huge.trans (hh j g hj hg')
  · rw [missing_congr hsame hh _ _ _ (by omega) hnext,
      show 3 - l = 3 - (l + 1) + 1 by omega, missing, if_pos hp]

/-! ## 新しい table を繋ぐ -/

theorem freeFrame_of_take {p : Pmm.State} (hc : Counted p) {b : Nat} (hb : b < p.totalBlocks)
    (hf : test p.bitmap b = false)
    (hg : FreeFrame (incUsed (bitmapSet p b)) g) : FreeFrame p g ∧ g ≠ blockFrame b := by
  obtain ⟨-, hs, ht⟩ := take_spec hc hb hf
  obtain ⟨k, hk, hkf, rfl⟩ := hg
  rw [ht, Bool.or_eq_false_iff, decide_eq_false_iff_not] at hkf
  refine ⟨⟨k, hs.total_eq ▸ hk, hkf.2, rfl⟩, ?_⟩
  unfold blockFrame pageSize
  omega

/-- 道の先の、present でない slot に、空いていた frame を table として繋ぐ。 -/
structure Link (s : State) (root virt l f b : Nat) : Prop where
  tree : Tree s root
  depth : l < 3
  reach : tableAt s.mem root (pathTo virt l) = some f
  absent : hasFlag (slot s.mem f (pathIndex virt l)) pagePresent = false
  lt_total : b < s.pmm.totalBlocks
  free : test s.pmm.bitmap b = false

section Link

variable {s : State} {root virt l f b : Nat}

section

variable (k : Link s root virt l f b)
include k

theorem Link.freeFrame : FreeFrame s.pmm (blockFrame b) :=
  ⟨b, k.lt_total, k.free, rfl⟩

theorem Link.fresh : ¬IsTable s.mem root (blockFrame b) :=
  k.tree.unused _ k.freeFrame

theorem Link.isFrame : IsFrame (blockFrame b) :=
  isFrame_blockFrame (k.tree.ok.counted.lt_max k.lt_total)

theorem Link.isFrame_parent : IsFrame f :=
  k.tree.isFrame ⟨_, k.reach⟩

section

variable (flags : Nat)
include flags

theorem Link.slot_table {j : Nat} (hj : j < 512) (hg : IsTable s.mem root g) :
    slot (linkTable s.mem f (pathIndex virt l) (blockFrame b) flags) g j =
      if g = f ∧ j = pathIndex virt l then tableEntry (blockFrame b) flags else slot s.mem g j := by
  have hne : g ≠ blockFrame b := fun h => k.fresh (h ▸ hg)
  rw [slot_linkTable _ k.isFrame_parent k.isFrame (k.tree.isFrame hg) (pathIndex_lt virt l) hj,
    if_neg hne]

theorem Link.slot_fresh {j : Nat} (hj : j < 512) :
    slot (linkTable s.mem f (pathIndex virt l) (blockFrame b) flags) (blockFrame b) j = 0 := by
  have hne : ¬(blockFrame b = f ∧ j = pathIndex virt l) := by
    rintro ⟨h, -⟩
    exact k.fresh (h ▸ ⟨_, k.reach⟩)
  rw [slot_linkTable _ k.isFrame_parent k.isFrame k.isFrame (pathIndex_lt virt l) hj,
    if_neg hne, if_pos rfl]

/-- 道は、新しい table までのものが一つ増えるだけである。 -/
theorem Link.walk :
    (∀ q, tableAt (linkTable s.mem f (pathIndex virt l) (blockFrame b) flags) root q =
      if q = pathTo virt (l + 1) then some (blockFrame b) else tableAt s.mem root q) ∧
    Unshared child (tables (linkTable s.mem f (pathIndex virt l) (blockFrame b) flags)) root := by
  apply unshared_link k.tree.unshared k.reach
  · exact child_of_not_present k.absent
  · exact k.fresh
  · intro g j hg hne
    refine (k.slot_table _ j.isLt hg).trans (if_neg ?_)
    rintro ⟨h1, h2⟩
    exact hne ⟨h1, Fin.ext h2⟩
  · have hslot := k.slot_table flags (pathIndex_lt virt l) ⟨_, k.reach⟩
    rw [if_pos ⟨rfl, rfl⟩] at hslot
    rw [length_pathTo]
    unfold tables pathFin
    rw [hslot, child_of_present k.depth (present_tableEntry _ _), frameOf_tableEntry k.isFrame]
    intro hc
    rw [huge_tableEntry k.isFrame] at hc
    simp at hc
  · intro j
    unfold tables
    rw [k.slot_fresh _ j.isLt]
    exact child_of_not_present (hasFlag_zero _)

theorem Link.isTable
    (hg : IsTable (linkTable s.mem f (pathIndex virt l) (blockFrame b) flags) root g) :
    IsTable s.mem root g ∨ g = blockFrame b := by
  obtain ⟨q, hq⟩ := hg
  rw [← tableAt, (k.walk _).1] at hq
  split at hq
  · simp only [Option.some.injEq] at hq
    exact .inr hq.symm
  · exact .inl ⟨q, hq⟩

theorem Link.tree_link (h0 : physToVirt s (blockFrame b) ≠ 0) : Tree { s with
      pmm := incUsed (bitmapSet s.pmm b)
      mem := linkTable s.mem f (pathIndex virt l) (blockFrame b) flags } root := by
  refine ⟨k.tree.ok.grow (grow_take k.tree.ok.counted k.lt_total k.free) _, k.tree.root_frame,
    (k.walk _).2, ?_, ?_⟩
  · intro g hg
    rcases k.isTable _ hg with hg | rfl
    · exact k.tree.addressable g hg
    · exact h0
  · intro g hfree hg
    obtain ⟨hfree, hne⟩ := freeFrame_of_take k.tree.ok.counted k.lt_total k.free hfree
    rcases k.isTable _ hg with hg | hg
    · exact k.tree.unused g hfree hg
    · exact hne hg

/-- 新しい slot を通らない番地が読む entry は変わらない。 -/
theorem Link.samePath (hv : pathTo v (l + 1) ≠ pathTo virt (l + 1)) :
    SamePath s.mem (linkTable s.mem f (pathIndex virt l) (blockFrame b) flags) root v := by
  intro j g hj hg
  apply SameEntry.of_eq
  rw [k.slot_table _ (pathIndex_lt v j) ⟨_, hg⟩, if_neg]
  rintro ⟨rfl, hi⟩
  -- 同じ table に着く道は一つなので、`v` もこの slot を通ることになる
  obtain ⟨rfl, hp⟩ := pathTo_inj (k.tree.unshared _ _ _ hg k.reach)
  exact hv (by simp only [pathTo, pathFin, pathTo_congr hp, hi])

/-- 新しい slot を通る番地は、前も後も変換されない。 -/
theorem Link.none_of_prefix (hh : NoHuge s.mem root virt) (h0 : physToVirt s (blockFrame b) ≠ 0)
    (hv : pathTo v (l + 1) = pathTo virt (l + 1)) :
    translate s.mem root v = none ∧ lookup s root v = 0 ∧
    translate (linkTable s.mem f (pathIndex virt l) (blockFrame b) flags) root v = none ∧
    lookup { s with
      pmm := incUsed (bitmapSet s.pmm b)
      mem := linkTable s.mem f (pathIndex virt l) (blockFrame b) flags } root v = 0 := by
  have hl := k.depth
  obtain ⟨-, hidx⟩ := pathTo_inj hv
  have hi : pathIndex v l = pathIndex virt l := hidx l (Nat.lt_succ_self l)
  have hpre : pathTo v l = pathTo virt l := pathTo_congr fun j hj => hidx j (by omega)
  have hreach : tableAt _ root _ = some f := hpre ▸ k.reach
  have hreach' : tableAt (linkTable s.mem f (pathIndex virt l) (blockFrame b) flags) root
      (pathTo v (l + 1)) = some (blockFrame b) := by
    rw [(k.walk _).1, if_pos hv]
  have habs : hasFlag _ _ = false := hi ▸ k.absent
  have hzero := k.slot_fresh flags (pathIndex_lt v (l + 1))
  refine ⟨translate_eq_none (by omega) hreach habs,
    lookup_eq_zero (by omega) hreach k.tree.addressable habs ?_,
    translate_eq_none (by omega) hreach' (by rw [hzero, hasFlag_zero]),
    lookup_eq_zero (by omega) hreach' (k.tree_link _ h0).addressable
      (by rw [hzero, hasFlag_zero]) fun _ => by rw [hzero, hasFlag_zero]⟩
  rintro rfl
  rw [hi]
  exact hh 2 f (.inr rfl) k.reach

theorem Link.noHuge (hh : NoHuge s.mem root w) :
    NoHuge (linkTable s.mem f (pathIndex virt l) (blockFrame b) flags) root w := by
  intro j g hj hg
  rw [(k.walk _).1] at hg
  split at hg
  · simp only [Option.some.injEq] at hg
    rw [← hg, k.slot_fresh _ (pathIndex_lt w j), hasFlag_zero]
  · rw [k.slot_table _ (pathIndex_lt w j) ⟨_, hg⟩]
    split
    · exact huge_tableEntry k.isFrame _
    · exact hh j g hj hg

theorem Link.noGiant (hg : NoGiant s.mem root v) :
    NoGiant (linkTable s.mem f (pathIndex virt l) (blockFrame b) flags) root v := by
  intro g hgt hp
  rw [(k.walk _).1] at hgt
  split at hgt
  · simp only [Option.some.injEq] at hgt
    rw [← hgt, k.slot_fresh _ (pdptIndex_lt v), hasFlag_zero]
  rw [k.slot_table _ (pdptIndex_lt v) ⟨_, hgt⟩] at hp ⊢
  split at hp
  · rename_i h
    rw [if_pos h]
    exact huge_tableEntry k.isFrame _
  · rename_i h
    rw [if_neg h]
    exact hg g hgt hp

end

end

end Link

/-! ## 下降の不変条件 -/

/-- `virt` のほかの page の変換は変わっていない。 -/
def Keep (s0 s : State) (root virt : Nat) : Prop :=
  ∀ v, ¬SamePage v virt → translate s.mem root v = translate s0.mem root v ∧
    (NoGiant s0.mem root v → NoGiant s.mem root v ∧ lookup s root v = lookup s0 root v)

/-- 書き換えたのは `s0` の table と空き frame だけで、静的変数は変わっていない。 -/
structure Carried (s0 s : State) (root : Nat) : Prop where
  hhdm_eq : s.hhdmOffset = s0.hhdmOffset
  kernel_eq : s.kernelDirectory = s0.kernelDirectory
  only : OnlyIn s0.mem s.mem fun g => IsTable s0.mem root g ∨ FreeFrame s0.pmm g
  tables : ∀ g, IsTable s.mem root g → IsTable s0.mem root g ∨ FreeFrame s0.pmm g
  frees : ∀ g, FreeFrame s.pmm g → FreeFrame s0.pmm g

structure Mapping (s0 : State) (root virt l f : Nat) (s : State) : Prop where
  tree : Tree s root
  reach : tableAt s.mem root (pathTo virt l) = some f
  noHuge : NoHuge s.mem root virt
  allocs : AllocsOk s.pmm (missing s.mem virt (3 - l) l f)
  keep : Keep s0 s root virt
  carried : Carried s0 s root

theorem Mapping.existing (flags : Nat) (hl : l < 3)
    (h : Mapping s0 root virt l f s)
    (hp : hasFlag (slot s.mem f (pathIndex virt l)) pagePresent = true) :
    Mapping s0 root virt (l + 1) (frameOf (slot s.mem f (pathIndex virt l)))
      { s with mem := markUser s.mem f (pathIndex virt l) flags } := by
  have hf : IsFrame f := h.tree.isFrame ⟨_, h.reach⟩
  have hsame := @sameEntry_markUser s root f _ flags h.tree hf (pathIndex_lt virt l)
  have hwalk := tableAt_same hsame
  obtain ⟨htree, hreach, hhuge, hmissing⟩ := h.tree.mark hl h.reach h.noHuge hp _
  refine ⟨htree, hreach, hhuge, ?_, ?_, ?_⟩
  · rw [hmissing]
    exact h.allocs
  · intro v hv
    obtain ⟨h1, h2⟩ := h.keep v hv
    refine ⟨(translate_congr (samePath_of_same hsame v)).trans h1, ?_⟩
    intro hg
    obtain ⟨hg', h3⟩ := h2 hg
    have h4 := lookup_congr s { s with mem := markUser _ f _ _ } rfl (samePath_of_same hsame v) hg'
    exact ⟨noGiant_of_same hsame hg', h4.trans h3⟩
  · refine ⟨h.carried.hhdm_eq, h.carried.kernel_eq, ?_, ?_, h.carried.frees⟩
    · refine h.carried.only.trans ((onlyIn_markUser _ hf (pathIndex_lt virt l)).mono ?_)
      rintro g rfl
      exact h.carried.tables g ⟨_, h.reach⟩
    · intro g hg
      exact h.carried.tables g ((isTable_congr hwalk g).mp hg)

/-- 0 で埋めた table の下には、まだ何もない。 -/
theorem missing_of_zero {n : Nat}
    (h : slot m g (pathIndex virt l) = 0) : missing m virt n l g = n := by
  cases n with
  | zero => rfl
  | succ n => rw [missing, if_neg (by simp [h])]

theorem Mapping.created {flags b : Nat} (hl : l < 3)
    (h : Mapping s0 root virt l f s)
    (hp : hasFlag (slot s.mem f (pathIndex virt l)) pagePresent = false)
    (hb : b < s.pmm.totalBlocks) (ht : test s.pmm.bitmap b = false)
    (hal : pmmAllocBlock s.pmm = (physToVirt s (blockFrame b), incUsed (bitmapSet s.pmm b)))
    (h0 : physToVirt s (blockFrame b) ≠ 0) :
    Mapping s0 root virt (l + 1) (blockFrame b) { s with
        pmm := incUsed (bitmapSet s.pmm b)
        mem := linkTable s.mem f (pathIndex virt l) (blockFrame b) flags } := by
  have k : Link s root virt l f b := ⟨h.tree, hl, h.reach, hp, hb, ht⟩
  refine ⟨k.tree_link _ h0, ?_, k.noHuge _ h.noHuge, ?_, ?_, ?_⟩
  · exact ((k.walk _).1 _).trans (if_pos rfl)
  · have ha := h.allocs
    rw [show 3 - l = 3 - (l + 1) + 1 by omega, missing, if_neg (by simp [hp])] at ha
    simp only [missing_of_zero (k.slot_fresh _ (pathIndex_lt virt _))]
    have ha' := ha.2
    rw [hal] at ha'
    exact ha'
  · intro v hv
    obtain ⟨h1, h2⟩ := h.keep v hv
    by_cases hpre : pathTo v (l + 1) = pathTo virt (l + 1)
    · obtain ⟨n1, n2, n3, n4⟩ := k.none_of_prefix _ h.noHuge h0 hpre
      refine ⟨by rw [← h1, n1]; exact n3, ?_⟩
      intro hg
      obtain ⟨hg', h3⟩ := h2 hg
      exact ⟨k.noGiant _ hg', by rw [← h3, n2]; exact n4⟩
    · have hsp := k.samePath flags hpre
      refine ⟨(translate_congr hsp).trans h1, ?_⟩
      intro hg
      obtain ⟨hg', h3⟩ := h2 hg
      have h4 := lookup_congr s { s with
        pmm := incUsed (bitmapSet s.pmm b)
        mem := linkTable _ f _ _ _ } rfl hsp hg'
      exact ⟨k.noGiant _ hg', h4.trans h3⟩
  · refine ⟨h.carried.hhdm_eq, h.carried.kernel_eq, ?_, ?_, ?_⟩
    · refine h.carried.only.trans ((onlyIn_linkTable _ k.isFrame_parent k.isFrame
        (pathIndex_lt virt l)).mono ?_)
      rintro g (rfl | rfl)
      · exact h.carried.tables g ⟨_, h.reach⟩
      · exact .inr (h.carried.frees _ k.freeFrame)
    · intro g hg
      rcases k.isTable _ hg with hg | rfl
      · exact h.carried.tables g hg
      · exact .inr (h.carried.frees _ k.freeFrame)
    · intro g hg
      exact h.carried.frees g (freeFrame_of_take h.tree.ok.counted hb ht hg).1

/-! ## 葉 -/

section

variable (t : Tree s root) (hf : tableAt s.mem root (pathTo virt 3) = some f) (e : Nat)
include t hf e

/-- PT の entry を書き換えても、木は同じである。 -/
theorem tableAt_setLeaf (q : List (Fin 512)) :
    tableAt (setSlot s.mem f (ptIndex virt) e) root q = tableAt s.mem root q := by
  apply walk_congr
  intro q' i r g _ hq
  by_cases hg : g = f ∧ i.val = ptIndex virt
  · -- PT の深さの entry は、何も指さない
    have hlen := congrArg List.length (t.unshared q' _ g hq (hg.1 ▸ hf))
    rw [length_pathTo] at hlen
    unfold child
    rw [if_neg (by omega), if_neg (by omega)]
  · unfold tables
    rw [slot_setSlot_ne (t.isFrame ⟨_, hf⟩) (t.isFrame ⟨_, hq⟩) (ptIndex_lt virt) i.isLt hg]

theorem samePath_setLeaf (hv : ¬SamePage v virt) :
    SamePath s.mem (setSlot s.mem f (ptIndex virt) e) root v := by
  intro j g hj hg
  apply SameEntry.of_eq
  apply slot_setSlot_ne (t.isFrame ⟨_, hf⟩) (t.isFrame ⟨_, hg⟩) (ptIndex_lt virt) (pathIndex_lt v j)
  rintro ⟨rfl, hi⟩
  obtain ⟨rfl, hp⟩ := pathTo_inj (t.unshared _ _ _ hg hf)
  refine hv fun l hl => ?_
  by_cases hl3 : l = 3
  · subst hl3
    exact hi
  · exact hp l (by omega)

theorem noGiant_setLeaf (hg : NoGiant s.mem root v) :
    NoGiant (setSlot s.mem f (ptIndex virt) e) root v := by
  intro g hgt hp
  rw [tableAt_setLeaf t hf] at hgt
  have hne : ¬(g = f ∧ pdptIndex v = ptIndex virt) := by
    rintro ⟨rfl, -⟩
    have := (pathTo_inj (t.unshared _ _ _ hgt hf)).1
    omega
  rw [slot_setSlot_ne (t.isFrame ⟨_, hf⟩) (t.isFrame ⟨_, hgt⟩) (ptIndex_lt virt)
    (pdptIndex_lt v) hne] at hp ⊢
  exact hg g hgt hp

/-- PT の entry を書き換えると、その page の変換だけが変わる。 -/
theorem keep_setLeaf : Keep s { s with mem := setSlot s.mem f (ptIndex virt) e } root virt := by
  intro v hv
  have hsp := samePath_setLeaf t hf e hv
  refine ⟨translate_congr hsp, ?_⟩
  intro hg
  exact ⟨noGiant_setLeaf t hf e hg, lookup_congr s _ rfl hsp hg⟩

end

theorem Keep.trans {s1 s2 : State} (h1 : Keep s0 s1 root virt)
    (h2 : Keep s1 s2 root virt) : Keep s0 s2 root virt := by
  intro v hv
  obtain ⟨a1, a2⟩ := h1 v hv
  obtain ⟨b1, b2⟩ := h2 v hv
  refine ⟨b1.trans a1, ?_⟩
  intro hg
  obtain ⟨hg1, c1⟩ := a2 hg
  obtain ⟨hg2, c2⟩ := b2 hg1
  exact ⟨hg2, c2.trans c1⟩

theorem SamePage.pathTo (h : SamePage v w) (hl : l ≤ 4) : pathTo v l = Vmm.pathTo w l :=
  pathTo_congr fun j hj => h j (by omega)

/-- PT に書いた entry は、同じ page のどの番地からも読める。 -/
theorem read_setLeaf (t : Tree s root)
    (hf : tableAt s.mem root (pathTo virt 3) = some f) (e : Nat) (hv : SamePage v virt) :
    translate (setSlot s.mem f (ptIndex virt) e) root v =
      (if hasFlag (e % 2 ^ 64) pagePresent then some (frameOf (e % 2 ^ 64) + v % pageSize)
        else none) ∧
    lookup { s with mem := setSlot s.mem f (ptIndex virt) e } root v =
      (if hasFlag (e % 2 ^ 64) pagePresent then frameOf (e % 2 ^ 64) else 0) := by
  have hwalk := tableAt_setLeaf t hf e
  have hv3 : tableAt (setSlot s.mem f (ptIndex virt) e) root (pathTo v 3) = some f := by
    rw [hwalk, hv.pathTo (by decide), hf]
  have hi : ptIndex v = ptIndex virt := hv 3 (by decide)
  have hslot : slot (setSlot s.mem f (ptIndex virt) e) f (ptIndex v) = e % 2 ^ 64 := by
    rw [hi, slot_setSlot_self]
  refine ⟨?_, ?_⟩
  · rw [translate_of_tableAt hv3, hslot]
  · rw [lookup_of_tableAt (t.of_same hwalk).addressable hv3]
    simp only [hslot]

theorem frameOf_mod {e : Nat} : frameOf (e % 2 ^ 64) = frameOf e := by
  rw [frameOf_eq, frameOf_eq]
  omega

theorem frameOf_alignDown {phys : Nat} : frameOf (pageAlignDown phys) = frameOf phys := by
  rw [frameOf_eq, frameOf_eq]
  unfold pageAlignDown pageSize
  omega

theorem frameOf_leafEntry (phys flags : Nat) :
    frameOf (leafEntry (pageAlignDown phys) flags % 2 ^ 64) = frameOf phys := by
  have hflags : frameOf (flags &&& (0xFFF ||| pageNx)) = 0 := by
    unfold frameOf
    rw [Nat.and_assoc, show (0xFFF ||| pageNx) &&& pageFrameMask = 0 from by decide, Nat.and_zero]
  rw [frameOf_mod, leafEntry, frameOf_or_small (by decide), frameOf_or, hflags, Nat.or_zero,
    frameOf_alignDown]

theorem present_leafEntry (phys flags : Nat) :
    hasFlag (leafEntry phys flags % 2 ^ 64) pagePresent = true := by
  rw [pagePresent, hasFlag_two_pow, leafEntry]
  simp [pagePresent]

/-! ## 主定理 -/

/-- table でも空きでもない frame に置かれた directory は、変わらない。 -/
theorem Carried.readDir_eq (c : Carried s0 s root) {dir : Dir}
    (hs : s0.hhdmOffset < 2 ^ 64) (hd : DirAt s0 dir root) :
    (readDir s dir).pml4 = physToVirt s root := by
  rw [physToVirt_congr c.hhdm_eq, ← hd.pml4_eq]
  cases dir with
  | null => rfl
  | kernel => exact congrArg _ c.kernel_eq
  | block ptr =>
    obtain ⟨d, hdf, rfl, hnt, hnf⟩ := hd.apart ptr rfl
    have hslot := c.only.slot_eq hdf (show 1 < 512 by decide) fun h => h.elim hnt hnf
    rw [readDir_block hs hdf, ← physToVirt_congr c.hhdm_eq, readDir_block (c.hhdm_eq ▸ hs) hdf]
    exact hslot

/-- `vmm_map_page` の後の状態。 -/
structure Mapped (s0 : State) (root virt e : Nat) (s : State) : Prop where
  keep : Keep s0 s root virt
  carried : Carried s0 s root
  read : ∀ v, SamePage v virt → translate s.mem root v = (if hasFlag (e % 2 ^ 64) pagePresent then
      some (frameOf (e % 2 ^ 64) + v % pageSize) else none) ∧
    lookup s root v = (if hasFlag (e % 2 ^ 64) pagePresent then frameOf (e % 2 ^ 64) else 0)

theorem Mapping.setLeaf (h : Mapping s0 root virt 3 f s)
    (e : Nat) : Mapped s0 root virt e { s with mem := setSlot s.mem f (ptIndex virt) e } := by
  have hf := h.tree.isFrame ⟨_, h.reach⟩
  refine ⟨h.keep.trans (keep_setLeaf h.tree h.reach e), ?_, ?_⟩
  · refine ⟨h.carried.hhdm_eq, h.carried.kernel_eq, ?_, ?_, h.carried.frees⟩
    · refine h.carried.only.trans ((onlyIn_setSlot e hf (ptIndex_lt virt)).mono ?_)
      rintro g rfl
      exact h.carried.tables g ⟨_, h.reach⟩
    · intro g hg
      exact h.carried.tables g ((isTable_congr (tableAt_setLeaf h.tree h.reach e) g).mp hg)
  · intro v hv
    exact read_setLeaf h.tree h.reach e hv

theorem mapping_start (t : Tree s root)
    (hh : NoHuge s.mem root virt) (ha : AllocsOk s.pmm (missing s.mem virt 3 0 root)) :
    Mapping s root virt 0 root s :=
  ⟨t, rfl, hh, ha, fun _ _ => ⟨rfl, fun hg => ⟨hg, rfl⟩⟩,
    ⟨rfl, rfl, .refl, fun _ hg => .inl hg, fun _ hg => hg⟩⟩

theorem mapping_rule {root virt flags : Nat} {Q : State → Prop} :
    MapRule virt flags (Mapping s0 root virt) Q where
  existing := by
    intro l f s hl ok hf h hp
    have hnext := h.existing flags hl hp
    -- table の HHDM の番地は `NULL` ではない
    exact ⟨fun h0 => absurd h0 (h.tree.addressable _ ⟨_, tableAt_next h.noHuge hl h.reach hp⟩),
      fun _ => hnext⟩
  failed := by
    intro l f s hl ok hf h hp h0 q hq
    have ha := h.allocs
    rw [show 3 - l = 3 - (l + 1) + 1 by omega, missing, if_neg (by simp [hp])] at ha
    exact absurd h0 ha.1
  created := by
    intro l f s hl ok hf h hp b hb ht hal h0
    exact h.created hl hp hb ht hal h0

theorem vmmMapPage_mapped (phys flags : Nat) (t : Tree s root)
    (hcur : (readDir s s.currentDirectory).pml4 = physToVirt s root)
    (hh : NoHuge s.mem root virt) (ha : AllocsOk s.pmm (missing s.mem virt 3 0 root)) :
    Mapped s root virt (leafEntry (pageAlignDown phys) flags) (vmmMapPage s phys virt flags) :=
  vmmMapPage_rule mapping_rule t.ok t.root_frame hcur (mapping_start t hh ha)
    fun _ _ h => h.setLeaf _

/-! ### unmap -/

theorem passes_iff_child (t : Tree s root)
    (hh : NoHuge s.mem root virt) (hl : l < 3) (hf : tableAt s.mem root (pathTo virt l) = some f) :
    (passes s (slot s.mem f (pathIndex virt l)) = true ∧
      tableAt s.mem root (pathTo virt (l + 1)) = some (frameOf (slot s.mem f (pathIndex virt l)))) ∨
    (passes s (slot s.mem f (pathIndex virt l)) = false ∧
      hasFlag (slot s.mem f (pathIndex virt l)) pagePresent = false) := by
  cases hp : hasFlag _ _ with
  | false => exact .inr ⟨passes_of_not_present hp, rfl⟩
  | true =>
    have hnext := tableAt_next hh hl hf hp
    exact .inl ⟨passes_of_present hp (t.addressable _ ⟨_, hnext⟩), hnext⟩

/-- `vmm_unmap_page` は、PT まで辿れれば entry を消し、辿れなければ何もしない。 -/
theorem vmmUnmapPage_cases (t : Tree s root)
    (hcur : (readDir s s.currentDirectory).pml4 = physToVirt s root)
    (hh : NoHuge s.mem root virt) :
    (∃ f, tableAt s.mem root (pathTo virt 3) = some f ∧
      vmmUnmapPage s virt = { s with mem := setSlot s.mem f (ptIndex virt) 0 }) ∨
    (vmmUnmapPage s virt = s ∧ ∃ l f, l < 3 ∧ tableAt s.mem root (pathTo virt l) = some f ∧
      hasFlag (slot s.mem f (pathIndex virt l)) pagePresent = false) := by
  have hs := t.ok.hhdm_lt
  unfold vmmUnmapPage
  simp only [pml4Index_alignDown, pdptIndex_alignDown, pdIndex_alignDown, ptIndex_alignDown, hcur,
    getTable_eq_zero hs t.root_frame (pml4Index_lt virt)]
  have t0 : tableAt s.mem root (pathTo virt 0) = some root := rfl
  rcases passes_iff_child t hh (by decide) t0 with ⟨p0, t1⟩ | ⟨p0, a0⟩
  · have f1 := t.isFrame ⟨_, t1⟩
    simp only [pathIndex] at p0 t1 f1
    rw [if_neg (by simp [p0]), getTable_phys hs t.root_frame (pml4Index_lt virt), if_pos p0]
    simp only [getTable_eq_zero hs f1 (pdptIndex_lt virt)]
    rcases passes_iff_child t hh (by decide) t1 with ⟨p1, t2⟩ | ⟨p1, a1⟩
    · have f2 := t.isFrame ⟨_, t2⟩
      simp only [pathIndex] at p1 t2 f2
      rw [if_neg (by simp [p1]), getTable_phys hs f1 (pdptIndex_lt virt), if_pos p1]
      simp only [getTable_eq_zero hs f2 (pdIndex_lt virt)]
      rcases passes_iff_child t hh (by decide) t2 with ⟨p2, t3⟩ | ⟨p2, a2⟩
      · have f3 := t.isFrame ⟨_, t3⟩
        simp only [pathIndex] at p2 t3 f3
        rw [if_neg (by simp [p2]), getTable_phys hs f2 (pdIndex_lt virt), if_pos p2,
          writeEntry_phys hs 0 f3 (ptIndex_lt virt)]
        exact .inl ⟨_, t3, rfl⟩
      · refine .inr ⟨?_, 2, _, by decide, t2, a2⟩
        simp only [pathIndex] at p2
        rw [if_pos p2]
    · refine .inr ⟨?_, 1, _, by decide, t1, a1⟩
      simp only [pathIndex] at p1
      rw [if_pos p1]
  · refine .inr ⟨?_, 0, _, by decide, t0, a0⟩
    simp only [pathIndex] at p0
    rw [if_pos p0]

theorem vmmUnmapPage_mapped (t : Tree s root)
    (hcur : (readDir s s.currentDirectory).pml4 = physToVirt s root)
    (hh : NoHuge s.mem root virt) : Mapped s root virt 0 (vmmUnmapPage s virt) := by
  have hc0 : Carried s s root :=
    ⟨rfl, rfl, .refl, fun _ hg => .inl hg, fun _ hg => hg⟩
  rcases vmmUnmapPage_cases t hcur hh with ⟨f, hf, he⟩ | ⟨he, l, f, hl, hf, hp⟩
  · rw [he]
    refine ⟨keep_setLeaf t hf 0, ⟨rfl, rfl, ?_, ?_, fun _ hg => hg⟩, ?_⟩
    · refine (onlyIn_setSlot 0 (t.isFrame ⟨_, hf⟩) (ptIndex_lt virt)).mono ?_
      rintro g rfl
      exact .inl ⟨_, hf⟩
    · intro g hg
      exact .inl ((isTable_congr (tableAt_setLeaf t hf 0) g).mp hg)
    · intro v hv
      exact read_setLeaf t hf 0 hv
  · rw [he]
    refine ⟨fun v _ => ⟨rfl, fun hg => ⟨hg, rfl⟩⟩, hc0, ?_⟩
    intro v hv
    have hi : pathIndex v l = pathIndex virt l := hv l (by omega)
    have hf' : tableAt s.mem root (pathTo v l) = some f := by rw [hv.pathTo (by omega), hf]
    have hp' : hasFlag _ _ = false := hi ▸ hp
    refine ⟨translate_eq_none (by omega) hf' hp', lookup_eq_zero
      (by omega) hf' t.addressable hp' ?_⟩
    rintro rfl
    rw [hi]
    exact hh 2 f (.inr rfl) hf

/--
**`vmm_map_page` と `vmm_unmap_page` は、その page の変換だけを変える。**

写像の後、`virt` の page は `phys` の frame に変換される。消去の後は変換されない。
ほかの page の変換は、hardware のものも、1 GiB page を通らない `vmm_get_phys_addr` のものも
変わらない。
-/
theorem vmm_map_unmap_translate {s : State} {root : Nat} (phys virt flags : Nat)
    (t : Tree s root) (hd : DirAt s s.currentDirectory root) (hh : NoHuge s.mem root virt) :
    (AllocsOk s.pmm (missing s.mem virt 3 0 root) → (∀ v, SamePage v virt →
        vmmGetPhysAddr (vmmMapPage s phys virt flags) s.currentDirectory v = frameOf phys ∧
        translate (vmmMapPage s phys virt flags).mem root v = some (frameOf phys + v % pageSize)) ∧
      ∀ v, ¬SamePage v virt →
        translate (vmmMapPage s phys virt flags).mem root v = translate s.mem root v ∧
        (NoGiant s.mem root v → vmmGetPhysAddr (vmmMapPage s phys virt flags) s.currentDirectory v
            = vmmGetPhysAddr s s.currentDirectory v)) ∧
    (∀ v, SamePage v virt → vmmGetPhysAddr (vmmUnmapPage s virt) s.currentDirectory v = 0 ∧
      translate (vmmUnmapPage s virt).mem root v = none) ∧
    ∀ v, ¬SamePage v virt → translate (vmmUnmapPage s virt).mem root v = translate s.mem root v ∧
      (NoGiant s.mem root v → vmmGetPhysAddr (vmmUnmapPage s virt) s.currentDirectory v
        = vmmGetPhysAddr s s.currentDirectory v) := by
  have hs := t.ok.hhdm_lt
  -- 前後の `vmm_get_phys_addr` は、どちらも同じ根からの `lookup` である
  have hget : ∀ {e s'}, Mapped s root virt e s' → ∀ v,
      vmmGetPhysAddr s' s.currentDirectory v = lookup s' root v := by
    intro e s' m v
    exact vmmGetPhysAddr_eq (m.carried.hhdm_eq ▸ hs) hd.ne_null t.root_frame
      (m.carried.readDir_eq hs hd) v
  have hget0 := vmmGetPhysAddr_eq hs hd.ne_null t.root_frame hd.pml4_eq
  have hkeep : ∀ {e s'}, Mapped s root virt e s' → ∀ v, ¬SamePage v virt →
      translate s'.mem root v = translate s.mem root v ∧
      (NoGiant s.mem root v →
        vmmGetPhysAddr s' s.currentDirectory v = vmmGetPhysAddr s s.currentDirectory v) := by
    intro e s' m v hv
    obtain ⟨h1, h2⟩ := m.keep v hv
    refine ⟨h1, fun hg => ?_⟩
    rw [hget m, hget0]
    exact (h2 hg).2
  have mu := vmmUnmapPage_mapped t hd.pml4_eq hh
  refine ⟨fun ha => ?_, ?_, hkeep mu⟩
  · have mm := vmmMapPage_mapped phys flags t hd.pml4_eq hh ha
    refine ⟨?_, hkeep mm⟩
    intro v hv
    obtain ⟨h1, h2⟩ := mm.read v hv
    rw [if_pos (present_leafEntry _ _), frameOf_leafEntry] at h1 h2
    rw [hget mm]
    exact ⟨h2, h1⟩
  · intro v hv
    obtain ⟨h1, h2⟩ := mu.read v hv
    rw [hget mu]
    exact ⟨by simpa using h2, by simpa using h1⟩

/-- 空の PML4 を frame 1 に持ち、block 8–15 が空いている機械。 -/
def blankMachine : State where
  mem := fun _ => 0
  pmm := ⟨fun i => if i = 0 then 0xFF else 0, 16, 8, 0x10000, 0xffff800000000000⟩
  hhdmOffset := 0xffff800000000000
  kernelDirectory := ⟨0x1000, 0xffff800000001000⟩
  currentDirectory := .kernel

theorem slot_blank (f i : Nat) : slot blankMachine.mem f i = 0 := by
  simp [slot, blankMachine, load]

theorem tableAt_blank {p : List (Fin 512)}
    (h : tableAt blankMachine.mem 0x1000 p = some f) : p = [] ∧ f = 0x1000 := by
  cases p with
  | nil =>
    simp only [tableAt, walk_nil, Option.some.injEq] at h
    exact ⟨rfl, h.symm⟩
  | cons i p =>
    have hc : child 0 (tables blankMachine.mem 0x1000 i) = none := by
      rw [tables, slot_blank]
      exact child_of_not_present (hasFlag_zero _)
    rw [tableAt, walk_cons, hc] at h
    simp at h

theorem tree_blank : Tree blankMachine 0x1000 where
  ok := ⟨by decide, rfl, ⟨by decide, by decide +kernel⟩⟩
  root_frame := by decide
  unshared p q f hp hq := by rw [(tableAt_blank hp).1, (tableAt_blank hq).1]
  addressable f hf := by
    obtain ⟨p, hp⟩ := hf
    rw [(tableAt_blank hp).2]
    decide
  unused f hfree hf := by
    obtain ⟨p, hp⟩ := hf
    obtain ⟨b, -, ht, hb⟩ := hfree
    rw [(tableAt_blank hp).2] at hb
    obtain rfl : b = 1 := by unfold blockFrame pageSize at hb; omega
    exact absurd ht (by decide +kernel)

theorem noHuge_blank : NoHuge blankMachine.mem 0x1000 0x400000 := fun l f _ _ => by
  rw [slot_blank, hasFlag_zero]

theorem allocsOk_blank :
    AllocsOk blankMachine.pmm (missing blankMachine.mem 0x400000 3 0 0x1000) := by
  exact ⟨by decide +kernel, by decide +kernel, by decide +kernel, trivial⟩

/-- 空の機械で一つの page を写す。 -/
theorem vmm_map_blank :
    vmmGetPhysAddr (vmmMapPage blankMachine 0x9000 0x400000 7) .kernel 0x400123 = 0x9000 := by
  have hd : DirAt blankMachine blankMachine.currentDirectory 0x1000 :=
    ⟨by decide, by decide, fun ptr h => by simp [blankMachine] at h⟩
  have hv : SamePage 0x400123 0x400000 := by unfold SamePage; decide
  exact ((vmm_map_unmap_translate _ _ 7 tree_blank hd noHuge_blank).1 allocsOk_blank).1 _ hv |>.1

/-! ## `vmm_map_page_in_dir` の戻り値 -/

/-- PMM の空きが足りない下降の途中。 -/
structure Starved (root virt l f : Nat) (s : State) : Prop where
  tree : Tree s root
  reach : tableAt s.mem root (pathTo virt l) = some f
  noHuge : NoHuge s.mem root virt
  short : ¬AllocsOk s.pmm (missing s.mem virt (3 - l) l f)

/-- 空きが足りなければ、下降はどこかで止まり、`virt` は写らない。 -/
theorem starved_rule (root virt flags : Nat) :
    MapRule virt flags (Starved root virt) fun s => translate s.mem root virt = none where
  existing := by
    intro l f s hl ok hf h hp
    obtain ⟨htree, hreach, hhuge, hmissing⟩ := h.tree.mark hl h.reach h.noHuge hp _
    exact ⟨fun h0 => absurd h0 (h.tree.addressable _ ⟨_, tableAt_next h.noHuge hl h.reach hp⟩),
      fun _ => ⟨htree, hreach, hhuge, by rw [hmissing]; exact h.short⟩⟩
  failed := by
    intro l f s hl ok hf h hp h0 q hq
    exact translate_eq_none (by omega) h.reach hp
  created := by
    intro l f s hl ok hf h hp b hb ht hal h0
    have k : Link s root virt l f b := ⟨h.tree, hl, h.reach, hp, hb, ht⟩
    refine ⟨k.tree_link _ h0, ((k.walk _).1 _).trans (if_pos rfl), k.noHuge _ h.noHuge, ?_⟩
    intro hallocs
    apply h.short
    rw [missing_of_zero (k.slot_fresh _ (pathIndex_lt virt _))] at hallocs
    rw [show 3 - l = 3 - (l + 1) + 1 by omega, missing, if_neg (by simp [hp]), AllocsOk, hal]
    exact ⟨h0, hallocs⟩

/--
**`vmm_map_page_in_dir` の戻り値が正しいのは、足りない table をすべて割り当てられるときだけである。**

戻り値はいつも 0 である。割り当てが途中で失敗すると、`virt` は写らない。
-/
theorem vmmMapPageInDir_reports {s : State} {dir : Dir} {root : Nat} (phys virt flags : Nat)
    (t : Tree s root) (hd : DirAt s dir root) (hh : NoHuge s.mem root virt) :
    ((vmmMapPageInDir s dir phys virt flags).1 = 0 ↔
      translate (vmmMapPageInDir s dir phys virt flags).2.mem root virt
        = some (frameOf phys + virt % pageSize)) ↔
    AllocsOk s.pmm (missing s.mem virt 3 0 root) := by
  have t' : Tree { s with currentDirectory := dir } root :=
    ⟨⟨t.ok.hhdm_lt, t.ok.hhdm_eq, t.ok.counted⟩, t.root_frame, t.unshared, t.addressable, t.unused⟩
  unfold vmmMapPageInDir
  rw [if_neg hd.ne_null]
  by_cases ha : AllocsOk s.pmm (missing s.mem virt 3 0 root)
  · have hread := (vmmMapPage_mapped phys flags t' hd.pml4_eq hh ha).read virt fun _ _ => rfl
    rw [if_pos (present_leafEntry _ _), frameOf_leafEntry] at hread
    exact iff_of_true (iff_of_true rfl hread.1) ha
  · refine iff_of_false (fun h => ?_) ha
    have hnone : translate (vmmMapPage _ phys virt _).mem root virt = none :=
      vmmMapPage_rule (starved_rule root virt flags) t'.ok t'.root_frame hd.pml4_eq
        ⟨t', rfl, hh, ha⟩
        fun _ _ h => absurd trivial h.short
    rw [hnone] at h
    cases h.mp rfl

/-- 空きのない `blankMachine`。 -/
def fullMachine : State :=
    { blankMachine with pmm := ⟨fun _ => 0xFF, 16, 16, 0x10000, 0xffff800000000000⟩ }

/-- 空きがなければ、写らないのに 0 が返る。 -/
theorem vmmMapPageInDir_reports_full :
    (vmmMapPageInDir fullMachine .kernel 0x9000 0x400000 7).1 = 0 ∧
    translate (vmmMapPageInDir fullMachine .kernel 0x9000 0x400000 7).2.mem 0x1000 0x400000 =
      none := by
  decide +kernel

theorem vmmMapPageInDir_reports_blank :
    translate (vmmMapPageInDir blankMachine .kernel 0x9000 0x400000 7).2.mem 0x1000 0x400000 =
      some 0x9000 :=
  have hd : DirAt _ _ _ := ⟨by decide, by decide, fun ptr h => by cases h⟩
  ((vmmMapPageInDir_reports _ _ 7 tree_blank hd noHuge_blank).mpr allocsOk_blank).mp rfl

end Alos.Vmm
