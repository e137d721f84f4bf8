import Alos.Vmm.Directory

/-!
# 複数の directory の page table

directory はそれぞれ PML4 を持つが、PDPT から下の table は PML4 の entry を写すことで共有される。
全体は木ではなく、**根だけが枝分かれする森**である。

* `Forest` — 森の不変条件。table の深さと、directory の置かれた frame を `Ghost` に記録する

これらを呼び出しの列に繋ぐのは `Alos/Vmm/History.lean` である。
-/

namespace Alos.Vmm

open Bytes Pmm Bitmap Radix

variable {d r f k x j h : Nat}
variable {p : List (Fin 512)} {s' : State} {flags : Nat}

/-! ## 不変条件 -/

/-- 森の帳簿。 -/
structure Ghost where
  /-- kernel の PML4。 -/
  kroot : Nat
  /-- frame `d` に置かれた directory の PML4 は `r` である。 -/
  dir : Nat → Nat → Prop
  /-- frame `f` は深さ `l` の table である。 -/
  lv : Nat → Nat → Prop
  /-- PML4 の添字 `i` の先は、複数の directory に共有されてよい。 -/
  shared : Nat → Prop

/--
森の不変条件。

PDPT より下の table の親は一つで、PML4 の entry だけが同じ添字どうしで先を共有する。
PDPT に 1 GiB page があるのは、kernel の PML4 から辿れるものだけである。
-/
structure Forest (g : Ghost) (s : State) : Prop where
  ok : Ok s
  kernel : s.kernelDirectory.pml4 = physToVirt s g.kroot
  dir_frame : ∀ {d r}, g.dir d r → IsFrame d
  dir_pml4 : ∀ {d r}, g.dir d r → slot s.mem d 1 = physToVirt s r
  dir_used : ∀ {d r}, g.dir d r → ¬FreeFrame s.pmm d
  dir_apart : ∀ {d r l}, g.dir d r → ¬g.lv d l
  dir_inj : ∀ {d d' r}, g.dir d r → g.dir d' r → d = d'
  dir_kroot : ∀ {d}, ¬g.dir d g.kroot
  root_iff : ∀ {r}, g.lv r 0 ↔ r = g.kroot ∨ ∃ d, g.dir d r
  level_unique : ∀ {f k l}, g.lv f k → g.lv f l → k = l
  frame : ∀ {f l}, g.lv f l → IsFrame f
  used : ∀ {f l}, g.lv f l → ¬FreeFrame s.pmm f
  link : ∀ {f l i h}, g.lv f l → i < 512 → child l (slot s.mem f i) = some h → g.lv h (l + 1)
  parent : ∀ {f f' l i i' h}, 1 ≤ l → g.lv f l → g.lv f' l → i < 512 → i' < 512 →
    child l (slot s.mem f i) = some h → child l (slot s.mem f' i') = some h → f = f' ∧ i = i'
  share : ∀ {r r' i i' h}, g.lv r 0 → g.lv r' 0 → i < 512 → i' < 512 →
    child 0 (slot s.mem r i) = some h → child 0 (slot s.mem r' i') = some h →
    i = i' ∧ (r ≠ r' → g.shared i)
  giant : ∀ {f i}, g.lv f 1 → i < 512 → hasFlag (slot s.mem f i) pagePresent = true →
    hasFlag (slot s.mem f i) pageHuge = true →
    ∃ j < 512, child 0 (slot s.mem g.kroot j) = some f

section Forest

variable {g : Ghost} {s : State}

section

variable (F : Forest g s)
include F

theorem Forest.kroot_level : g.lv g.kroot 0 := F.root_iff.mpr (.inl rfl)

theorem Forest.dir_level (h : g.dir d r) : g.lv r 0 :=
  F.root_iff.mpr (.inr ⟨d, h⟩)

/-- 辿った先は、辿った数だけ深い table である。 -/
theorem Forest.walk {l n : Nat} (hn : g.lv n l) (h : walk child (tables s.mem) l n p = some f) :
    g.lv f (l + p.length) := by
  induction p generalizing l n with
  | nil =>
    rw [walk_nil, Option.some.injEq] at h
    rwa [← h]
  | cons i p ih =>
    rw [walk_cons, Option.bind_eq_some_iff] at h
    obtain ⟨n', hc, h⟩ := h
    have hlv := ih (F.link hn i.isLt hc) h
    rwa [List.length_cons, Nat.add_comm _ 1, ← Nat.add_assoc]

theorem Forest.tableAt (hr : g.lv r 0) (h : tableAt s.mem r p = some f) :
    g.lv f p.length := by
  have := F.walk hr h
  rwa [Nat.zero_add] at this

theorem Forest.isTable (hr : g.lv r 0) (h : IsTable s.mem r f) : ∃ l, g.lv f l := by
  obtain ⟨p, hp⟩ := h
  exact ⟨_, F.tableAt hr hp⟩

theorem Forest.dirRoot (h : g.dir d r) : DirRoot s (.block (physToVirt s d)) r :=
  .inr ⟨d, rfl, F.dir_frame h, F.dir_used h, F.dir_pml4 h⟩

theorem Forest.dirRoot_kernel : DirRoot s .kernel g.kroot :=
  .inl ⟨rfl, F.kernel⟩

end

/-! ## 四種類の書き換え -/

/-- table の読まれ方を変えない書き換えは、森を保つ。 -/
theorem Forest.same (F : Forest g s) (ok : Ok s')
    (hh : s'.hhdmOffset = s.hhdmOffset) (hk : s'.kernelDirectory = s.kernelDirectory)
    (hfree : ∀ f, FreeFrame s'.pmm f → FreeFrame s.pmm f)
    (hdir : ∀ {d r}, g.dir d r → slot s'.mem d 1 = slot s.mem d 1)
    (hslot : ∀ {f l i}, g.lv f l → l < 3 → i < 512 →
      SameEntry (slot s.mem f i) (slot s'.mem f i)) : Forest g s' := by
  have hchild : ∀ {f l i h}, g.lv f l → i < 512 → child l (slot s'.mem f i) = some h →
      child l (slot s.mem f i) = some h := by
    intro f l i h hf hi hc
    rwa [(hslot hf (child_eq_some hc).1 hi).child] at hc
  exact {
    ok := ok
    kernel := by rw [hk, F.kernel, physToVirt_congr hh]
    dir_frame := F.dir_frame
    dir_pml4 := fun hd => by rw [hdir hd, F.dir_pml4 hd, physToVirt_congr hh]
    dir_used := fun hd hf => F.dir_used hd (hfree _ hf)
    dir_apart := F.dir_apart
    dir_inj := F.dir_inj
    dir_kroot := F.dir_kroot
    root_iff := F.root_iff
    level_unique := F.level_unique
    frame := F.frame
    used := fun hf hc => F.used hf (hfree _ hc)
    link := fun hf hi hc => F.link hf hi (hchild hf hi hc)
    parent := fun hl hf hf' hi hi' hc hc' =>
      F.parent hl hf hf' hi hi' (hchild hf hi hc) (hchild hf' hi' hc')
    share := fun hr hr' hi hi' hc hc' =>
      F.share hr hr' hi hi' (hchild hr hi hc) (hchild hr' hi' hc')
    giant := by
      intro f i hf hi hp hg
      have he := hslot hf (by decide) hi
      obtain ⟨j, hj, hc⟩ := F.giant hf hi (he.present ▸ hp) (he.huge ▸ hg)
      exact ⟨j, hj, by rw [(hslot F.kroot_level (by decide) hj).child, hc]⟩ }

/-- 新しい table を一つ記録した帳簿。 -/
def Ghost.link (g : Ghost) (n l : Nat) : Ghost :=
  { g with lv := fun f k => g.lv f k ∨ f = n ∧ k = l }

/-- 空いていた frame `blockFrame b` を、深さ `l` の table `f` の present でない slot `i` に繋ぐ。 -/
structure Join (g : Ghost) (s : State) (f l i b : Nat) : Prop where
  forest : Forest g s
  depth : l < 3
  level : g.lv f l
  index : i < 512
  absent : hasFlag (slot s.mem f i) pagePresent = false
  lt_total : b < s.pmm.totalBlocks
  free : test s.pmm.bitmap b = false

section Join

variable {f l i b : Nat}

section

variable (J : Join g s f l i b)
include J

theorem Join.freeFrame : FreeFrame s.pmm (blockFrame b) :=
  ⟨b, J.lt_total, J.free, rfl⟩

theorem Join.isFrame : IsFrame (blockFrame b) :=
  isFrame_blockFrame (J.forest.ok.counted.lt_max J.lt_total)

theorem Join.fresh : ¬g.lv (blockFrame b) k :=
  fun h => J.forest.used h J.freeFrame

/-- もとの table の slot は、繋いだ slot のほかでは変わらない。 -/
theorem Join.slot_old (hx : g.lv x k) (hj : j < 512) :
    slot (linkTable s.mem f i (blockFrame b) flags) x j =
      if x = f ∧ j = i then tableEntry (blockFrame b) flags else slot s.mem x j := by
  have hne : x ≠ blockFrame b := fun h => J.fresh (h ▸ hx)
  rw [slot_linkTable _ (J.forest.frame J.level) J.isFrame (J.forest.frame hx) J.index hj,
    if_neg hne]

theorem Join.slot_new (hj : j < 512) :
    slot (linkTable s.mem f i (blockFrame b) flags) (blockFrame b) j = 0 := by
  have hne : ¬(blockFrame b = f ∧ j = i) := fun h => J.fresh (h.1 ▸ J.level)
  rw [slot_linkTable _ (J.forest.frame J.level) J.isFrame J.isFrame J.index hj, if_neg hne,
    if_pos rfl]

theorem Join.child_new (hj : j < 512) :
    child k (slot (linkTable s.mem f i (blockFrame b) flags) (blockFrame b) j) ≠ some h := by
  rw [J.slot_new hj, child_of_not_present (hasFlag_zero _)]
  simp

theorem Join.child_old (hx : g.lv x k) (hj : j < 512)
    (hc : child k (slot (linkTable s.mem f i (blockFrame b) flags) x j) = some h) :
    (x = f ∧ j = i ∧ k = l ∧ h = blockFrame b) ∨ child k (slot s.mem x j) = some h := by
  rw [J.slot_old hx hj] at hc
  split at hc
  · rename_i he
    obtain ⟨rfl, rfl⟩ := he
    obtain ⟨-, -, -, rfl⟩ := child_eq_some hc
    exact .inl ⟨rfl, rfl, J.forest.level_unique hx J.level, frameOf_tableEntry J.isFrame _⟩
  · exact .inr hc

/-- 同じ table を指す二つの slot は、どちらも繋いだ slot か、どちらももとからの slot である。 -/
theorem Join.child_pair {x' j' : Nat} (hx : g.lv x k) (hx' : g.lv x' k) (hj : j < 512)
    (hj' : j' < 512) (hc : child k (slot (linkTable s.mem f i (blockFrame b) flags) x j) = some h)
    (hc' : child k (slot (linkTable s.mem f i (blockFrame b) flags) x' j') = some h) :
    (x = x' ∧ j = j') ∨
      child k (slot s.mem x j) = some h ∧ child k (slot s.mem x' j') = some h := by
  have hnot : ∀ {y k j}, g.lv y k → j < 512 → child k _ ≠ some _ :=
    fun hy hj hc => J.fresh (J.forest.link hy hj hc)
  rcases J.child_old hx hj hc with ⟨rfl, rfl, -, rfl⟩ | hc
  · rcases J.child_old hx' hj' hc' with ⟨rfl, rfl, -, -⟩ | hc'
    · exact .inl ⟨rfl, rfl⟩
    · exact absurd hc' (hnot hx' hj')
  · rcases J.child_old hx' hj' hc' with ⟨-, -, -, rfl⟩ | hc'
    · exact absurd hc (hnot hx hj)
    · exact .inr ⟨hc, hc'⟩

/-- kernel の PML4 が PDPT を指していた slot は、繋いだ slot ではない。 -/
theorem Join.child_kroot (hj : j < 512) (hc : child 0 (slot s.mem g.kroot j) = some h) :
    child 0 (slot (linkTable s.mem f i (blockFrame b) flags) g.kroot j) = some h := by
  rw [J.slot_old J.forest.kroot_level hj, if_neg, hc]
  rintro ⟨rfl, rfl⟩
  rw [child_of_not_present J.absent] at hc
  simp at hc

theorem Join.dir_pml4 (hd : g.dir d r) :
    slot (linkTable s.mem f i (blockFrame b) flags) d 1 = physToVirt s r := by
  have h1 : ¬(d = f ∧ 1 = i) := fun h => J.forest.dir_apart hd (h.1 ▸ J.level)
  have h2 : d ≠ blockFrame b := fun h => J.forest.dir_used hd (h ▸ J.freeFrame)
  rw [slot_linkTable _ (J.forest.frame J.level) J.isFrame (J.forest.dir_frame hd) J.index
    (by decide), if_neg h1, if_neg h2, J.forest.dir_pml4 hd]

/-- 新しい table を繋いでも、森である。 -/
theorem Join.forest_link (flags : Nat) : Forest (g.link (blockFrame b) (l + 1))
      { s with
        pmm := incUsed (bitmapSet s.pmm b)
        mem := linkTable s.mem f i (blockFrame b) flags } := by
  have F := J.forest
  have hgone := fun {x} (h : FreeFrame _ x) =>
    freeFrame_of_take F.ok.counted J.lt_total J.free h
  exact {
    ok := F.ok.grow (grow_take F.ok.counted J.lt_total J.free) _
    kernel := F.kernel
    dir_frame := F.dir_frame
    dir_pml4 := J.dir_pml4
    dir_used := fun hd hc => F.dir_used hd (hgone hc).1
    dir_apart := by
      rintro d r k hd (hk | ⟨rfl, -⟩)
      · exact F.dir_apart hd hk
      · exact F.dir_used hd J.freeFrame
    dir_inj := F.dir_inj
    dir_kroot := F.dir_kroot
    root_iff := by
      intro r
      rw [show (g.link _ _).lv r 0 ↔ g.lv r 0 from
        or_iff_left fun h => absurd h.2 (by omega)]
      exact F.root_iff
    level_unique := by
      rintro x k k' (hk | ⟨rfl, rfl⟩) (hk' | ⟨hx', rfl⟩)
      · exact F.level_unique hk hk'
      · exact absurd (hx' ▸ hk) J.fresh
      · exact absurd hk' J.fresh
      · rfl
    frame := by
      rintro x k (hk | ⟨rfl, rfl⟩)
      · exact F.frame hk
      · exact J.isFrame
    used := by
      rintro x k (hk | ⟨rfl, rfl⟩) hc
      · exact F.used hk (hgone hc).1
      · exact (hgone hc).2 rfl
    link := by
      rintro x k j h (hk | ⟨rfl, rfl⟩) hj hc
      · rcases J.child_old hk hj hc with ⟨rfl, rfl, rfl, rfl⟩ | hc
        · exact .inr ⟨rfl, rfl⟩
        · exact .inl (F.link hk hj hc)
      · exact absurd hc (J.child_new hj)
    parent := by
      rintro x x' k j j' h h1 (hx | ⟨rfl, -⟩) (hx' | ⟨hx', -⟩) hj hj' hc hc'
      · rcases J.child_pair hx hx' hj hj' hc hc' with he | ⟨hc, hc'⟩
        · exact he
        · exact F.parent h1 hx hx' hj hj' hc hc'
      · subst hx'
        exact absurd hc' (J.child_new hj')
      · exact absurd hc (J.child_new hj)
      · exact absurd hc (J.child_new hj)
    share := by
      rintro x x' j j' h (hx | ⟨-, hx⟩) (hx' | ⟨-, hx'⟩) hj hj' hc hc'
      · rcases J.child_pair hx hx' hj hj' hc hc' with ⟨rfl, rfl⟩ | ⟨hc, hc'⟩
        · exact ⟨rfl, fun h => absurd rfl h⟩
        · exact F.share hx hx' hj hj' hc hc'
      all_goals omega
    giant := by
      rintro x j (hx | ⟨rfl, -⟩) hj hp hg
      · simp only [J.slot_old hx hj] at hp hg
        split at hg
        · rw [huge_tableEntry J.isFrame] at hg
          simp at hg
        · rename_i hne
          rw [if_neg hne] at hp
          obtain ⟨j', hj', hc⟩ := F.giant hx hj hp hg
          exact ⟨j', hj', J.child_kroot hj' hc⟩
      · simp only [J.slot_new hj, hasFlag_zero] at hp
        simp at hp }

end

end Join

/-- 新しい directory を一つ記録した帳簿。 -/
def Ghost.add (g : Ghost) (d r : Nat) : Ghost :=
  { g with
    dir := fun x y => g.dir x y ∨ x = d ∧ y = r
    lv := fun f k => g.lv f k ∨ f = r ∧ k = 0 }

/-- 新しい PML4 の entry は、何も指さないか、共有してよい添字でほかの PML4 と同じものを指す。 -/
def CopiesOf (g : Ghost) (m m' : Mem) (r : Nat) : Prop :=
  ∀ i h, i < 512 → child 0 (slot m' r i) = some h →
    g.shared i ∧ ∃ r0, g.lv r0 0 ∧ child 0 (slot m r0 i) = some h

/-- ほかの PML4 の entry を写した directory を加えても、森である。 -/
theorem Forest.add (F : Forest g s) (hn : NewDir s d r s')
    (hcopy : CopiesOf g s.mem s'.mem r) : Forest (g.add d r) s' := by
  have hold : ∀ {x k j}, g.lv x k → j < 512 → slot _ x j = slot _ x j :=
    fun hx hj => hn.slot_eq (F.frame hx) hj (F.used hx)
  have hdnew : ∀ {k}, ¬g.lv d k := fun h => F.used h hn.dir_free
  have hrnew : ∀ {k}, ¬g.lv r k := fun h => F.used h hn.root_free
  -- 新しい根の子は、もとの根の子でもある
  have hroot : ∀ {x j h}, (g.add d r).lv x 0 → j < 512 → child 0 (slot s'.mem x j) = some h →
      ∃ r0, g.lv r0 0 ∧ child 0 (slot s.mem r0 j) = some h ∧ (x = r0 ∨ g.shared j) := by
    rintro x j h (hx | ⟨rfl, -⟩) hj hc
    · rw [hold hx hj] at hc
      exact ⟨x, hx, hc, .inl rfl⟩
    · obtain ⟨hsh, r0, hr0, hc0⟩ := hcopy j h hj hc
      exact ⟨r0, hr0, hc0, .inr hsh⟩
  exact {
    ok := hn.ok
    kernel := by rw [hn.kernel_eq, physToVirt_congr hn.hhdm_eq]; exact F.kernel
    dir_frame := by
      rintro x y (hx | ⟨rfl, -⟩)
      · exact F.dir_frame hx
      · exact hn.dir_free.isFrame F.ok.counted
    dir_pml4 := by
      rintro x y (hx | ⟨rfl, rfl⟩)
      · rw [hn.slot_eq (F.dir_frame hx) (by decide) (F.dir_used hx), F.dir_pml4 hx,
          physToVirt_congr hn.hhdm_eq]
      · rw [hn.pml4, physToVirt_congr hn.hhdm_eq]
    dir_used := by
      rintro x y (hx | ⟨rfl, -⟩) hc
      · exact F.dir_used hx (hn.free _ hc).1
      · exact (hn.free _ hc).2.1 rfl
    dir_apart := by
      rintro x y k (hx | ⟨rfl, -⟩) (hk | ⟨he, -⟩)
      · exact F.dir_apart hx hk
      · exact F.dir_used hx (he ▸ hn.root_free)
      · exact hdnew hk
      · exact hn.ne he
    dir_inj := by
      rintro x x' y (hx | ⟨rfl, rfl⟩) (hx' | ⟨rfl, hy⟩)
      · exact F.dir_inj hx hx'
      · exact absurd (F.dir_level (hy ▸ hx)) hrnew
      · exact absurd (F.dir_level hx') hrnew
      · rfl
    dir_kroot := by
      rintro x (hx | ⟨-, hy⟩)
      · exact F.dir_kroot hx
      · exact hrnew (hy ▸ F.kroot_level)
    root_iff := by
      intro y
      constructor
      · rintro (hy | ⟨rfl, -⟩)
        · exact (F.root_iff.mp hy).imp_right fun ⟨x, hx⟩ => ⟨x, .inl hx⟩
        · exact .inr ⟨d, .inr ⟨rfl, rfl⟩⟩
      · rintro (rfl | ⟨x, hx | ⟨-, rfl⟩⟩)
        · exact .inl F.kroot_level
        · exact .inl (F.dir_level hx)
        · exact .inr ⟨rfl, rfl⟩
    level_unique := by
      rintro x k k' (hk | ⟨rfl, rfl⟩) (hk' | ⟨hx', rfl⟩)
      · exact F.level_unique hk hk'
      · exact absurd (hx' ▸ hk) hrnew
      · exact absurd hk' hrnew
      · rfl
    frame := by
      rintro x k (hk | ⟨rfl, -⟩)
      · exact F.frame hk
      · exact hn.root_free.isFrame F.ok.counted
    used := by
      rintro x k (hk | ⟨rfl, -⟩) hc
      · exact F.used hk (hn.free _ hc).1
      · exact (hn.free _ hc).2.2 rfl
    link := by
      rintro x k j h (hk | ⟨rfl, rfl⟩) hj hc
      · rw [hold hk hj] at hc
        exact .inl (F.link hk hj hc)
      · obtain ⟨-, r0, hr0, hc0⟩ := hcopy j h hj hc
        exact .inl (F.link hr0 hj hc0)
    parent := by
      rintro x x' k j j' h h1 (hx | ⟨-, hk⟩) (hx' | ⟨-, hk⟩) hj hj' hc hc'
      · rw [hold hx hj] at hc
        rw [hold hx' hj'] at hc'
        exact F.parent h1 hx hx' hj hj' hc hc'
      all_goals omega
    share := by
      intro x x' j j' h hx hx' hj hj' hc hc'
      obtain ⟨r0, hr0, hc0, h0⟩ := hroot hx hj hc
      obtain ⟨r1, hr1, hc1, h1⟩ := hroot hx' hj' hc'
      obtain ⟨rfl, hne⟩ := F.share hr0 hr1 hj hj' hc0 hc1
      refine ⟨rfl, fun hxx => ?_⟩
      rcases h0 with rfl | h0
      · rcases h1 with rfl | h1
        · exact hne hxx
        · exact h1
      · exact h0
    giant := by
      rintro x j (hx | ⟨-, hl⟩) hj hp hg
      · rw [hold hx hj] at hp hg
        obtain ⟨j', hj', hc⟩ := F.giant hx hj hp hg
        exact ⟨j', hj', (congrArg _ (hold F.kroot_level hj')).trans hc⟩
      · omega }

/-- `root` の下半分から辿れる table。 -/
def Owned (m : Mem) (root f : Nat) : Prop :=
  f = root ∨ ∃ (i : Fin 512) (p : List (Fin 512)), i.val < 256 ∧ tableAt m root (i :: p) = some f

/-- 根 `root` の下半分の先を、ほかの根は指さない。 -/
def Exclusive (g : Ghost) (m : Mem) (root : Nat) : Prop :=
  ∀ r, g.lv r 0 → r ≠ root → ∀ i < 256, ∀ j < 512, ∀ h,
    child 0 (slot m root i) = some h → child 0 (slot m r j) ≠ some h

/-- directory `d` と、その PML4 `r` の下半分の table を消した帳簿。 -/
def Ghost.remove (g : Ghost) (m : Mem) (d r : Nat) : Ghost :=
  { g with
    dir := fun x y => g.dir x y ∧ x ≠ d
    lv := fun f k => g.lv f k ∧ ¬Owned m r f }

theorem tableAt_singleton {m : Mem} {i : Fin 512} :
    Vmm.tableAt m r [i] = child 0 (slot m r i) :=
  walk_concat (p := []) walk_nil i

/-- 共有していない directory の table を指す slot は、消える table の中にしかない。 -/
theorem Forest.not_owned (F : Forest g s) (hr : g.lv r 0) (hex : Exclusive g s.mem r)
    (hx : g.lv x k) (hxo : ¬Owned s.mem r x) (hj : j < 512)
    (hc : child k (slot s.mem x j) = some h) : ¬Owned s.mem r h := by
  have hh := F.link hx hj hc
  rintro (rfl | ⟨i, p, hi, hp⟩)
  · exact absurd (F.level_unique hh hr) (by omega)
  rcases List.eq_nil_or_concat p with rfl | ⟨q, i', rfl⟩
  · -- `h` は PDPT で、`x` は別の根である
    rw [tableAt_singleton] at hp
    have hk : k + 1 = 1 := F.level_unique hh (F.link hr i.isLt hp)
    obtain rfl : k = 0 := by omega
    exact hex x hx (fun he => hxo (.inl he)) i hi j hj h hp hc
  · -- `h` の親は一つなので、`x` も消える table である
    rw [List.concat_eq_append, ← List.cons_append] at hp
    obtain ⟨y, hy, hyc⟩ := Node.of_concat hp
    have hylv := F.tableAt hr hy
    have hk : k + 1 = (i :: q).length + 1 := F.level_unique hh (F.link hylv i'.isLt hyc)
    obtain rfl : k = (i :: q).length := by omega
    obtain ⟨rfl, -⟩ := F.parent (by simp) hx hylv hj i'.isLt hc hyc
    exact hxo (.inr ⟨i, q, hi, hy⟩)

/-- 返される frame は、directory か、消える table である。 -/
theorem Forest.owned_of_freed (F : Forest g s) (hd : g.dir d r)
    (hex : Exclusive g s.mem r) (hf : FreedDir s.mem d r f) : f = d ∨ Owned s.mem r f := by
  have hr := F.dir_level hd
  have hne : g.kroot ≠ r := fun h => F.dir_kroot (h ▸ hd)
  rcases hf with rfl | rfl | ⟨i, hi, hp, hf⟩
  · exact .inl rfl
  · exact .inr (.inl rfl)
  right
  have hi' : i < 512 := by omega
  have h1 : child 0 _ = some _ :=
    child_of_present (by decide) hp fun _ => rfl
  have t1 : Vmm.tableAt s.mem r [⟨i, hi'⟩] = some (frameOf (slot s.mem r i)) := by
    rw [tableAt_singleton, h1]
  rcases hf with rfl | ⟨j, hj, hpj, hf⟩
  · exact .inr ⟨_, [], hi, t1⟩
  -- 1 GiB page のある PDPT は kernel のものなので、ここにはない
  have hgj : hasFlag (slot s.mem (frameOf (slot s.mem r i)) j) pageHuge = true → 1 = 0 := by
    intro hg
    obtain ⟨k, hk, hc⟩ := F.giant (F.link hr hi' h1) hj hpj hg
    exact absurd hc (hex _ F.kroot_level hne i hi k hk _ h1)
  have h2 := child_of_present (show 1 < 3 by decide) hpj hgj
  have t2 : Vmm.tableAt _ r _ = some _ :=
    (walk_concat t1 ⟨j, hj⟩).trans h2
  rcases hf with rfl | ⟨k, hk, hpk, hgk, rfl⟩
  · exact .inr ⟨_, [⟨j, hj⟩], hi, t2⟩
  · have h3 := child_of_present (show 2 < 3 by decide) hpk
      fun hg => absurd (hg.symm.trans hgk) (by simp)
    have t3 : Vmm.tableAt _ r _ = some _ :=
      (walk_concat t2 ⟨k, hk⟩).trans h3
    exact .inr ⟨_, [⟨j, hj⟩, ⟨k, hk⟩], hi, t3⟩

/-- 共有していない directory を消しても、森である。 -/
theorem Forest.remove (F : Forest g s) (hd : g.dir d r) (hex : Exclusive g s.mem r) :
    Forest (g.remove s.mem d r) (vmmFreeDirectory s (.block (physToVirt s d))) := by
  have hr := F.dir_level hd
  obtain ⟨q, he, hq⟩ := vmmFreeDirectory_freeing F.ok (F.dir_frame hd) (F.frame hr) (F.dir_pml4 hd)
  rw [he]
  have hfree : ∀ {f}, FreeFrame q f → FreeFrame _ f ∨ f = d ∨ Owned _ r f :=
    fun hf => (hq.only _ hf).imp_right (F.owned_of_freed hd hex)
  have howned : ∀ {f}, Owned s.mem r f → ∃ k, g.lv f k := by
    rintro f (rfl | ⟨i, p, -, hp⟩)
    · exact ⟨0, hr⟩
    · exact ⟨_, F.tableAt hr hp⟩
  have hroot : ∀ {y}, g.lv y 0 → y ≠ r → ¬Owned s.mem r y := by
    rintro y hy hne (rfl | ⟨i, p, -, hp⟩)
    · exact hne rfl
    · exact absurd (F.level_unique hy (F.tableAt hr hp)) (by simp)
  have hkr : g.kroot ≠ r := fun h => F.dir_kroot (h ▸ hd)
  exact {
    ok := ⟨F.ok.hhdm_lt, hq.layout.hhdm_eq.trans F.ok.hhdm_eq, hq.counted⟩
    kernel := F.kernel
    dir_frame := fun hx => F.dir_frame hx.1
    dir_pml4 := fun hx => F.dir_pml4 hx.1
    dir_used := by
      rintro x y ⟨hx, hne⟩ hc
      rcases hfree hc with hc | rfl | hc
      · exact F.dir_used hx hc
      · exact hne rfl
      · obtain ⟨k, hk⟩ := howned hc
        exact F.dir_apart hx hk
    dir_apart := fun hx hk => F.dir_apart hx.1 hk.1
    dir_inj := fun hx hx' => F.dir_inj hx.1 hx'.1
    dir_kroot := fun hx => F.dir_kroot hx.1
    root_iff := by
      intro y
      constructor
      · rintro ⟨hy, hyo⟩
        refine (F.root_iff.mp hy).imp_right fun ⟨x, hx⟩ => ⟨x, hx, ?_⟩
        rintro rfl
        -- 同じ frame の directory の根は一つである
        have hxy := (F.dir_pml4 hx).symm.trans (F.dir_pml4 hd)
        exact hyo (.inl (physToVirt_inj (F.frame hy) (F.frame hr) hxy))
      · rintro (rfl | ⟨x, hx, hne⟩)
        · exact ⟨F.kroot_level, hroot F.kroot_level hkr⟩
        · refine ⟨F.dir_level hx, hroot (F.dir_level hx) ?_⟩
          rintro rfl
          exact hne (F.dir_inj hx hd)
    level_unique := fun hk hl => F.level_unique hk.1 hl.1
    frame := fun hk => F.frame hk.1
    used := by
      rintro f k ⟨hk, hno⟩ hc
      rcases hfree hc with hc | rfl | hc
      · exact F.used hk hc
      · exact F.dir_apart hd hk
      · exact hno hc
    link := fun hk hj hc => ⟨F.link hk.1 hj hc, F.not_owned hr hex hk.1 hk.2 hj hc⟩
    parent := fun h1 hf hf' hi hi' hc hc' => F.parent h1 hf.1 hf'.1 hi hi' hc hc'
    share := fun hf hf' hi hi' hc hc' => F.share hf.1 hf'.1 hi hi' hc hc'
    giant := fun hf hi hp hg => F.giant hf.1 hi hp hg }

end Forest

end Alos.Vmm
