import Alos.Vmm.Forest
import Alos.Vmm.Huge

/-!
# directory を使う呼び出しの列

`vmm_create_directory`、`vmm_clone_directory`、`vmm_map_page_in_dir`、`vmm_free_directory` を
並べたどの列の後でも、page table は森（`Alos/Vmm/Forest.lean`）をなす。

* `reach_forest` — 主定理
-/

namespace Alos.Vmm

open Bytes Pmm Bitmap Radix List Option

/-! ## `vmm_map_page_in_dir` -/

section

variable {g g1 : Ghost} {s s1 : State} {root virt f l i : Nat}

/-- 道の上で present な entry は、hardware にとっても table を指す。 -/
theorem Visit.child (h : Visit s root virt l f s1)
    (hh : ¬MeetsHuge s.mem root virt) (hl : l < 3) (hf : IsFrame f)
    (hp : hasFlag (slot s1.mem f (pathIndex virt l)) pagePresent = true) :
    child l (slot s1.mem f (pathIndex virt l))
      = some (frameOf (slot s1.mem f (pathIndex virt l))) := by
  refine child_of_present hl hp fun hg => ?_
  by_cases ht : Taken s.pmm s1.pmm f
  · rcases h.new f _ hf (pathIndex_lt virt l) ht with hn | hn
    · rw [hn] at hp
      simp at hp
    · rw [hn.huge] at hg
      simp at hg
  · rcases h.old f _ hf (pathIndex_lt virt l) ht with hs | hn
    · have hat := h.here.resolve_right ht
      rw [hs.present] at hp
      rw [hs.huge] at hg
      by_contra hne
      exact hh ⟨l, f, by omega, hat, hp, hg⟩
    · rw [hn.huge] at hg
      simp at hg

/-- table の深さのほかは同じ帳簿。 -/
structure Ghost.Agree (g g' : Ghost) : Prop where
  kroot : g'.kroot = g.kroot
  dir : g'.dir = g.dir
  shared : g'.shared = g.shared

theorem Ghost.Agree.refl : g.Agree g := ⟨rfl, rfl, rfl⟩

/-- `s'` は、`g` と同じ directory を持つ森である。 -/
structure Regrown (g : Ghost) (s s' : State) (g' : Ghost) : Prop where
  agree : g.Agree g'
  forest : Forest g' s'
  hhdm_eq : s'.hhdmOffset = s.hhdmOffset

theorem Regrown.markUser (h : Regrown g s s1 g1)
    (flags : Nat) (hf : g1.lv f l) (hi : i < 512) :
    Regrown g s { s1 with mem := markUser s1.mem f i flags } g1 := by
  have F := h.forest
  refine ⟨h.agree, F.same (F.ok.setMem _) rfl rfl (fun _ h => h) ?_ ?_, h.hhdm_eq⟩
  · intro d r hd
    refine (slot_markUser (F.frame hf) (F.dir_frame hd) hi (by decide)).trans (if_neg ?_)
    rintro ⟨rfl, -⟩
    exact F.dir_apart hd hf
  · intro x k j hx _ hj
    exact sameEntry_mark (F.frame hf) (F.frame hx) hi hj

theorem Regrown.grow (h : Regrown g s s1 g1) {q : Pmm.State}
    (hq : Grow s1.pmm q) : Regrown g s { s1 with pmm := q } g1 := by
  have F := h.forest
  refine ⟨h.agree, F.same (F.ok.grow hq _) rfl rfl ?_ (fun _ => rfl)
    (fun _ _ _ => .refl), h.hhdm_eq⟩
  rintro f ⟨b, hb, ht, rfl⟩
  refine ⟨b, hq.layout.total_eq ▸ hb, ?_, rfl⟩
  by_contra hc
  rw [hq.used_mono b (by simpa using hc)] at ht
  simp at ht

/-- PT の entry の書き換えは、森を保つ。 -/
theorem Regrown.setLeaf (h : Regrown g s s1 g1)
    (e : Nat) (hf : g1.lv f 3) (hi : i < 512) :
    Regrown g s { s1 with mem := setSlot s1.mem f i e } g1 := by
  have F := h.forest
  refine ⟨h.agree, F.same (F.ok.setMem _) rfl rfl (fun _ h => h) ?_ ?_, h.hhdm_eq⟩
  · intro d r hd
    refine slot_setSlot_ne (F.frame hf) (F.dir_frame hd) hi (by decide) ?_
    rintro ⟨rfl, -⟩
    exact F.dir_apart hd hf
  · intro x k j hx hk hj
    refine .of_eq (slot_setSlot_ne (F.frame hf) (F.frame hx) hi hj ?_)
    rintro ⟨rfl, -⟩
    exact absurd (F.level_unique hx hf) (by omega)

theorem regrown_rule
    (hh : ¬MeetsHuge s.mem root virt) (flags : Nat) :
    MapRule virt flags
      (fun l f s1 => Visit s root virt l f s1 ∧ ∃ g1, Regrown g s s1 g1 ∧ g1.lv f l)
      (fun s' => ∃ g', Regrown g s s' g') where
  existing := by
    rintro l f s1 hl ok hf ⟨hv, g1, hr, hlv⟩ hp
    have hnext := hr.markUser flags hlv (pathIndex_lt virt l)
    refine ⟨fun _ => ⟨g1, hnext⟩, fun _ => ⟨hv.existing _ hh hl hf hp, g1, hnext, ?_⟩⟩
    exact hr.forest.link hlv (pathIndex_lt virt l) (hv.child hh hl hf hp)
  failed := by
    rintro l f s1 hl ok hf ⟨hv, g1, hr, hlv⟩ hp h0 q hq
    exact ⟨g1, hr.grow hq⟩
  created := by
    rintro l f s1 hl ok hf ⟨hv, g1, hr, hlv⟩ hp b hb ht _ _
    have J : Join g1 s1 f l _ b :=
      ⟨hr.forest, hl, hlv, pathIndex_lt virt l, hp, hb, ht⟩
    refine ⟨hv.created ok hf hb ht, g1.link (blockFrame b) (l + 1), ⟨?_, ?_, hr.hhdm_eq⟩, ?_⟩
    · exact ⟨hr.agree.kroot, hr.agree.dir, hr.agree.shared⟩
    · exact J.forest_link _
    · exact .inr ⟨rfl, rfl⟩

/-- `vmm_map_page_in_dir` は、directory の根を変えずに森を保つ。 -/
theorem Forest.map (F : Forest g s) {dir : Dir}
    (hdir : DirRoot s dir root) (hroot : g.lv root 0) {phys flags : Nat}
    (hh : ¬MeetsHuge s.mem root virt) :
    ∃ g', Regrown g s (vmmMapPageInDir s dir phys virt flags).2 g' := by
  have F0 : Forest g { s with currentDirectory := dir } :=
    F.same ⟨F.ok.hhdm_lt, F.ok.hhdm_eq, F.ok.counted⟩ rfl rfl (fun _ h => h) (fun _ => rfl)
      (fun _ _ _ => .refl)
  have hcur : (readDir { s with currentDirectory := dir } dir).pml4
      = physToVirt { s with currentDirectory := dir } root := by
    have h := hdir.of_same rfl rfl (fun _ h => h) (fun _ _ _ => rfl)
    exact h.readDir F.ok.hhdm_lt
  obtain ⟨g', hr⟩ := @vmmMapPage_rule _ phys _ _ _ _
    (regrown_rule (g := g) (s := { s with currentDirectory := dir }) hh _) F0.ok _
    (F.frame hroot) hcur
    ⟨visit_root F0.ok.counted, g, ⟨.refl, F0, rfl⟩, hroot⟩
    (fun _ _ ⟨_, g1, hr, hlv⟩ => ⟨g1, hr.setLeaf _ hlv (ptIndex_lt virt)⟩)
  refine ⟨g', hr.agree, ?_, ?_⟩
  · unfold vmmMapPageInDir
    rw [if_neg hdir.ne_null]
    exact hr.forest.same ⟨hr.forest.ok.hhdm_lt, hr.forest.ok.hhdm_eq, hr.forest.ok.counted⟩
      rfl rfl (fun _ h => h) (fun _ => rfl) (fun _ _ _ => .refl)
  · unfold vmmMapPageInDir
    rw [if_neg hdir.ne_null]
    exact hr.hhdm_eq

end

/-! ## 呼び出しの列 -/

/-- 機械と、生きている directory。 -/
structure Sys where
  vmm : State
  live : List Dir

inductive Op where
  | create
  | clone (src : Dir)
  | map (dir : Dir) (phys virt flags : Nat)
  | free (dir : Dir)

/-- `create` と `clone` の返した directory は、`NULL` でなければ生きている。 -/
def afterNew (s : Sys) (r : Dir × State) : Sys :=
  ⟨r.2, if r.1 = .null then s.live else r.1 :: s.live⟩

def step (s : Sys) : Op → Option Sys
  | .create => some (afterNew s (vmmCreateDirectory s.vmm))
  | .clone src => some (afterNew s (vmmCloneDirectory s.vmm src))
  | .map dir phys virt flags => some ⟨(vmmMapPageInDir s.vmm dir phys virt flags).2, s.live⟩
  | .free dir => some ⟨vmmFreeDirectory s.vmm dir, s.live.filter (· ≠ dir)⟩

/-- directory の PML4 の物理番地。 -/
def rootOf (s : State) (dir : Dir) : Nat := virtToPhys s (readDir s dir).pml4

/-- `dir` の下半分の PDPT を、kernel もほかの生きている directory も指していない。 -/
def NoShare (s : Sys) (dir : Dir) : Prop :=
  ∀ d ∈ Dir.kernel :: s.live, d ≠ dir → ∀ i < 256, ∀ j < 512, ∀ h,
    child 0 (slot s.vmm.mem (rootOf s.vmm dir) i) = some h →
    child 0 (slot s.vmm.mem (rootOf s.vmm d) j) ≠ some h

/-- 引数は生きている directory で、写像の道は huge page に当たらず、破棄は共有のないものに限る。 -/
def Legal (s : Sys) : Op → Prop
  | .create => True
  | .clone src => src ∈ Dir.kernel :: s.live
  | .map dir _ virt _ =>
    dir ∈ Dir.kernel :: s.live ∧ ¬MeetsHuge s.vmm.mem (rootOf s.vmm dir) virt
  | .free dir => dir ∈ s.live ∧ NoShare s dir

/-- 帳簿 `g` の directory が、生きている directory である。 -/
structure Tracks (g : Ghost) (s : Sys) : Prop where
  forest : Forest g s.vmm
  live_iff : ∀ D, D ∈ s.live ↔ ∃ d r, g.dir d r ∧ D = .block (physToVirt s.vmm d)

section Tracks

variable {g : Ghost} {s : Sys}

theorem DirRoot.rootOf_eq {s : State} (hs : s.hhdmOffset < 2 ^ 64) {dir : Dir} {root : Nat}
    (h : DirRoot s dir root) (hroot : IsFrame root) : rootOf s dir = root := by
  unfold rootOf
  rw [h.readDir hs, virtToPhys_physToVirt hs (Nat.lt_trans hroot.2 (by decide))]

section

variable (T : Tracks g s)
include T

/-- 生きている directory の根。 -/
theorem Tracks.root {D : Dir} (hD : D ∈ Dir.kernel :: s.live) :
    DirRoot s.vmm D (rootOf s.vmm D) ∧ g.lv (rootOf s.vmm D) 0 := by
  have F := T.forest
  have hex : ∃ r, DirRoot s.vmm D r ∧ g.lv r 0 := by
    rcases mem_cons.mp hD with rfl | hD
    · exact ⟨_, F.dirRoot_kernel, F.kroot_level⟩
    · obtain ⟨d, r, hd, rfl⟩ := (T.live_iff D).mp hD
      exact ⟨r, F.dirRoot hd, F.dir_level hd⟩
  obtain ⟨r, h1, h2⟩ := hex
  rw [h1.rootOf_eq F.ok.hhdm_lt (F.frame h2)]
  exact ⟨h1, h2⟩

theorem Tracks.rootOf_kernel : rootOf s.vmm .kernel = g.kroot :=
  T.forest.dirRoot_kernel.rootOf_eq T.forest.ok.hhdm_lt (T.forest.frame T.forest.kroot_level)

theorem Tracks.rootOf_block {d r : Nat} (hd : g.dir d r) :
    rootOf s.vmm (.block (physToVirt s.vmm d)) = r :=
  (T.forest.dirRoot hd).rootOf_eq T.forest.ok.hhdm_lt (T.forest.frame (T.forest.dir_level hd))

/-- 根が同じ directory は同じである。 -/
theorem Tracks.rootOf_inj {D E : Dir} (hD : D ∈ Dir.kernel :: s.live)
    (hE : E ∈ Dir.kernel :: s.live) (h : rootOf s.vmm D = rootOf s.vmm E) : D = E := by
  have F := T.forest
  rcases mem_cons.mp hD with rfl | hD <;> rcases mem_cons.mp hE with rfl | hE
  · rfl
  · obtain ⟨e, r, he, rfl⟩ := (T.live_iff E).mp hE
    rw [T.rootOf_kernel, T.rootOf_block he] at h
    exact absurd (h ▸ he) F.dir_kroot
  · obtain ⟨d, r, hd, rfl⟩ := (T.live_iff D).mp hD
    rw [T.rootOf_kernel, T.rootOf_block hd] at h
    exact absurd (h ▸ hd) F.dir_kroot
  · obtain ⟨d, r, hd, rfl⟩ := (T.live_iff D).mp hD
    obtain ⟨e, r', he, rfl⟩ := (T.live_iff E).mp hE
    rw [T.rootOf_block hd, T.rootOf_block he] at h
    subst h
    rw [F.dir_inj hd he]

theorem Tracks.exclusive {D : Dir} (h : NoShare s D) : Exclusive g s.vmm.mem (rootOf s.vmm D) := by
  intro r hr hne
  -- どの根も、生きている directory のものである
  have hex : ∃ E ∈ Dir.kernel :: s.live, rootOf s.vmm E = r := by
    rcases T.forest.root_iff.mp hr with rfl | ⟨e, he⟩
    · exact ⟨.kernel, mem_cons_self, T.rootOf_kernel⟩
    · exact ⟨_, mem_cons_of_mem _ ((T.live_iff _).mpr ⟨e, r, he, rfl⟩), T.rootOf_block he⟩
  obtain ⟨E, hE, rfl⟩ := hex
  exact h E hE fun he => hne (by rw [he])

/-- 失敗した `create` と `clone` は、空き frame を増やさない。 -/
theorem Tracks.shrink {q : Pmm.State} (hq : Ok { s.vmm with pmm := q })
    (hfree : ∀ f, FreeFrame q f → FreeFrame s.vmm.pmm f) :
    Tracks g ⟨{ s.vmm with pmm := q }, s.live⟩ :=
  ⟨T.forest.same hq rfl rfl hfree (fun _ => rfl) (fun _ _ _ => .refl), T.live_iff⟩

theorem Tracks.add {d r : Nat} {s' : State} (hn : NewDir s.vmm d r s')
    (hcopy : CopiesOf g s.vmm.mem s'.mem r) :
    Tracks (g.add d r) ⟨s', .block (physToVirt s.vmm d) :: s.live⟩ := by
  refine ⟨T.forest.add hn hcopy, fun D => ?_⟩
  simp only [physToVirt_congr hn.hhdm_eq]
  rw [mem_cons, T.live_iff]
  constructor
  · rintro (rfl | ⟨x, y, hx, rfl⟩)
    · exact ⟨d, r, .inr ⟨rfl, rfl⟩, rfl⟩
    · exact ⟨x, y, .inl hx, rfl⟩
  · rintro ⟨x, y, hx | ⟨rfl, rfl⟩, rfl⟩
    · exact .inr ⟨x, y, hx, rfl⟩
    · exact .inl rfl

theorem Tracks.map {D : Dir} (hD : D ∈ Dir.kernel :: s.live) {phys virt flags : Nat}
    (hh : ¬MeetsHuge s.vmm.mem (rootOf s.vmm D) virt) :
    ∃ g', g.Agree g' ∧ Tracks g' ⟨(vmmMapPageInDir s.vmm D phys virt flags).2, s.live⟩ := by
  obtain ⟨hdir, hlv⟩ := T.root hD
  obtain ⟨g', hr⟩ := T.forest.map hdir hlv hh
  refine ⟨g', hr.agree, hr.forest, fun E => ?_⟩
  simp only [physToVirt_congr hr.hhdm_eq, hr.agree.dir]
  exact T.live_iff E

theorem Tracks.free {d r : Nat} (hd : g.dir d r) (hex : Exclusive g s.vmm.mem r) :
    Tracks (g.remove s.vmm.mem d r) ⟨vmmFreeDirectory s.vmm (.block (physToVirt s.vmm d)),
      s.live.filter (· ≠ .block (physToVirt s.vmm d))⟩ := by
  have F := T.forest
  have hh := (vmmFreeDirectory_freeing F.ok (F.dir_frame hd) (F.frame (F.dir_level hd))
    (F.dir_pml4 hd)).hhdm_eq
  refine ⟨F.remove hd hex, fun D => ?_⟩
  simp only [physToVirt_congr hh]
  rw [mem_filter, T.live_iff]
  simp only [ne_eq, decide_not, Bool.not_eq_true', decide_eq_false_iff_not]
  constructor
  · rintro ⟨⟨x, y, hx, rfl⟩, hne⟩
    exact ⟨x, y, ⟨hx, fun h => hne (by rw [h])⟩, rfl⟩
  · rintro ⟨x, y, ⟨hx, hne⟩, rfl⟩
    refine ⟨⟨x, y, hx, rfl⟩, fun h => hne ?_⟩
    exact physToVirt_inj (F.dir_frame hx) (F.dir_frame hd) (Dir.block.inj h)

end

end Tracks

/-! ## 一手と列 -/

/-- 添字 `i` が `W` なら共有してよい、という約束のもとでの不変条件。 -/
def Inv (W : Nat → Prop) (kroot : Nat) (s : Sys) : Prop :=
  ∃ g, g.shared = W ∧ g.kroot = kroot ∧ Tracks g s

theorem child_zero {l : Nat} : child l 0 = none := child_of_not_present (hasFlag_zero _)

theorem copiesOf_created {g : Ghost} {s : State} (F : Forest g s) {s' : State} {r : Nat}
    (hslot : ∀ i < 512, slot s'.mem r i = createdEntry s.mem g.kroot i)
    (hW : ∀ i, i = 0 ∨ 256 ≤ i → g.shared i) : CopiesOf g s.mem s'.mem r := by
  intro i h hi hc
  rw [hslot i hi] at hc
  unfold createdEntry at hc
  split at hc
  · rename_i hcond
    exact ⟨hW i (hcond.symm.imp_left And.left), _, F.kroot_level, hc⟩
  · rw [child_zero] at hc
    simp at hc

theorem copiesOf_cloned {g : Ghost} {s : State} (F : Forest g s) {s' : State} {r root : Nat}
    (hroot : g.lv root 0) (hslot : ∀ i < 512, slot s'.mem r i = clonedEntry s.mem g.kroot root i)
    (hW : ∀ i, g.shared i) : CopiesOf g s.mem s'.mem r := by
  intro i h hi hc
  rw [hslot i hi] at hc
  unfold clonedEntry at hc
  split at hc
  · exact ⟨hW i, _, hroot, hc⟩
  · exact ⟨hW i, _, F.kroot_level, hc⟩

section Step

variable {W : Nat → Prop} {kroot : Nat} {s : Sys}

section

variable (inv : Inv W kroot s)
include inv

theorem Inv.create (hW : ∀ i, i = 0 ∨ 256 ≤ i → W i) :
    Inv W kroot (afterNew s (vmmCreateDirectory s.vmm)) := by
  obtain ⟨g, rfl, rfl, T⟩ := inv
  have F := T.forest
  rcases vmmCreateDirectory_cases F.ok (F.frame F.kroot_level) F.kernel (F.used F.kroot_level)
    with ⟨q, he, hq, hfree⟩ | ⟨d, r, s', he, hn, hslot⟩
  · rw [he]
    exact ⟨g, rfl, rfl, T.shrink hq hfree⟩
  · rw [he]
    exact ⟨g.add d r, rfl, rfl, T.add hn (copiesOf_created F hslot hW)⟩

theorem Inv.clone {src : Dir} (hsrc : src ∈ Dir.kernel :: s.live) (hW : ∀ i, W i) :
    Inv W kroot (afterNew s (vmmCloneDirectory s.vmm src)) := by
  obtain ⟨g, rfl, rfl, T⟩ := inv
  have F := T.forest
  obtain ⟨hdir, hlv⟩ := T.root hsrc
  rcases vmmCloneDirectory_cases F.ok (F.frame F.kroot_level) F.kernel (F.used F.kroot_level)
    hdir (F.frame hlv) (F.used hlv) with ⟨q, he, hq, hfree⟩ | ⟨d, r, s', he, hn, hslot⟩
  · rw [he]
    exact ⟨g, rfl, rfl, T.shrink hq hfree⟩
  · rw [he]
    exact ⟨g.add d r, rfl, rfl, T.add hn (copiesOf_cloned F hlv hslot hW)⟩

theorem Inv.map {dir : Dir} (hdir : dir ∈ Dir.kernel :: s.live) {phys virt flags : Nat}
    (hh : ¬MeetsHuge s.vmm.mem (rootOf s.vmm dir) virt) :
    Inv W kroot ⟨(vmmMapPageInDir s.vmm dir phys virt flags).2, s.live⟩ := by
  obtain ⟨g, rfl, rfl, T⟩ := inv
  obtain ⟨g', ha, T'⟩ := T.map hdir hh
  exact ⟨g', ha.shared, ha.kroot, T'⟩

theorem Inv.free {dir : Dir} (hdir : dir ∈ s.live) (hno : NoShare s dir) :
    Inv W kroot ⟨vmmFreeDirectory s.vmm dir, s.live.filter (· ≠ dir)⟩ := by
  obtain ⟨g, rfl, rfl, T⟩ := inv
  have hex := T.exclusive hno
  obtain ⟨d, r, hd, rfl⟩ := (T.live_iff dir).mp hdir
  rw [T.rootOf_block hd] at hex
  exact ⟨g.remove _ d r, rfl, rfl, T.free hd hex⟩

/-- 許された一手は不変条件を保つ。`clone` は下半分のどの添字も共有させる。 -/
theorem Inv.step {op : Op} {s' : Sys} (hl : Legal s op) (hstep : Vmm.step s op = some s')
    (hcreate : ∀ i, i = 0 ∨ 256 ≤ i → W i) (hclone : ∀ src, op = .clone src → ∀ i, W i) :
    Inv W kroot s' := by
  cases op with
  | create =>
    obtain rfl := some.inj hstep
    exact inv.create hcreate
  | clone src =>
    obtain rfl := some.inj hstep
    exact inv.clone hl (hclone src rfl)
  | map dir phys virt flags =>
    obtain rfl := some.inj hstep
    exact inv.map hl.1 hl.2
  | free dir =>
    obtain rfl := some.inj hstep
    exact inv.free hl.1 hl.2

end

end Step

/-- 起動したときの帳簿。directory は kernel のものだけである。 -/
def bootGhost (m : Mem) (kroot : Nat) (W : Nat → Prop) : Ghost where
  kroot := kroot
  dir _ _ := False
  lv f l := ∃ p, tableAt m kroot p = some f ∧ p.length = l
  shared := W

/-- kernel の page table が共有のない木なら、森である。 -/
theorem forest_boot {s : State} {kroot : Nat} (t : Tree s kroot)
    (hk : s.kernelDirectory.pml4 = physToVirt s kroot) {W : Nat → Prop} :
    Forest (bootGhost s.mem kroot W) s := by
  -- 二つの slot が同じ table を指すなら、その道は同じである
  have hsame : ∀ {p q : List _} {f f' i i' h}, tableAt s.mem kroot p = some f →
      tableAt s.mem kroot q = some f' → ∀ hi : i < 512, ∀ hi' : i' < 512,
      child p.length (slot s.mem f i) = some h → child q.length (slot s.mem f' i') = some h →
      f = f' ∧ i = i' := by
    intro p q f f' i i' h hp hq hi hi' hc hc'
    have h1 := walk_concat hp ⟨i, hi⟩
    have h2 := walk_concat hq ⟨i', hi'⟩
    rw [Nat.zero_add] at h1 h2
    obtain ⟨rfl, he⟩ := append_inj' (t.unshared _ _ h (h1.trans hc) (h2.trans hc')) rfl
    have hff : f = f' := some.inj (hp.symm.trans hq)
    exact ⟨hff, by simpa using he⟩
  exact {
    ok := t.ok
    kernel := hk
    dir_frame := False.elim
    dir_pml4 := False.elim
    dir_used := False.elim
    dir_apart := False.elim
    dir_inj := False.elim
    dir_kroot := fun h => h
    root_iff := by
      intro r
      constructor
      · rintro ⟨p, hp, hl⟩
        obtain rfl := length_eq_zero_iff.mp hl
        exact .inl (some.inj hp).symm
      · rintro (rfl | ⟨_, h⟩)
        · exact ⟨[], rfl, rfl⟩
        · exact h.elim
    level_unique := by
      rintro f k l ⟨p, hp, rfl⟩ ⟨q, hq, rfl⟩
      rw [t.unshared p q f hp hq]
    frame := by
      rintro f l ⟨p, hp, -⟩
      exact t.isFrame ⟨p, hp⟩
    used := by
      rintro f l ⟨p, hp, -⟩ hc
      exact t.unused f hc ⟨p, hp⟩
    link := by
      rintro f l i h ⟨p, hp, rfl⟩ hi hc
      have hw := walk_concat hp ⟨i, hi⟩
      rw [Nat.zero_add] at hw
      exact ⟨p ++ [(⟨i, hi⟩ : Fin 512)], hw.trans hc, by simp⟩
    parent := by
      rintro f f' l i i' h - ⟨p, hp, rfl⟩ ⟨q, hq, hl⟩ hi hi' hc hc'
      exact hsame hp hq hi hi' hc (hl ▸ hc')
    share := by
      rintro r r' i i' h ⟨p, hp, hl⟩ ⟨q, hq, hl'⟩ hi hi' hc hc'
      obtain ⟨rfl, rfl⟩ := hsame hp hq hi hi' (hl.symm ▸ hc) (hl'.symm ▸ hc')
      exact ⟨rfl, fun h => absurd rfl h⟩
    giant := by
      rintro f i ⟨p, hp, hl⟩ - - -
      obtain ⟨j, rfl⟩ := length_eq_one_iff.mp hl
      exact ⟨j, j.isLt, tableAt_singleton.symm.trans hp⟩ }

theorem inv_boot {s : State} {kroot : Nat} (t : Tree s kroot)
    (hk : s.kernelDirectory.pml4 = physToVirt s kroot) {W : Nat → Prop} : Inv W kroot ⟨s, []⟩ :=
  ⟨bootGhost _ _ W, rfl, rfl, forest_boot t hk, fun D => by simp [bootGhost]⟩

/-- **create、clone、map、free のどの列の後でも、page table は森をなす。** -/
theorem reach_forest {s₀ : State} {kroot : Nat} (t : Tree s₀ kroot)
    (hk : s₀.kernelDirectory.pml4 = physToVirt s₀ kroot) {ops : List Op} {s : Sys}
    (h : Run.Reach step Legal ⟨s₀, []⟩ ops s) : Inv (fun _ => True) kroot s :=
  h.invariant (inv_boot t hk) fun _ _ _ inv hl hs =>
    inv.step hl hs (fun _ _ => trivial) fun _ _ _ => trivial

/-- `create` と `map` だけの列。 -/
def LegalCreateMap (s : Sys) (op : Op) : Prop :=
  Legal s op ∧ (∀ src, op ≠ .clone src) ∧ ∀ dir, op ≠ .free dir

/-- create と map の列の後では、共有される添字は 0 番と上半分だけである。 -/
theorem reach_create_map {s₀ : State} {kroot : Nat} (t : Tree s₀ kroot)
    (hk : s₀.kernelDirectory.pml4 = physToVirt s₀ kroot) {ops : List Op} {s : Sys}
    (h : Run.Reach step LegalCreateMap ⟨s₀, []⟩ ops s) : Inv (fun i => i = 0 ∨ 256 ≤ i) kroot s :=
  h.invariant (inv_boot t hk) fun _ _ _ inv hl hs =>
    inv.step hl.1 hs (fun _ h => h) fun src he => absurd he (hl.2.1 src)

/-! ## 小さな機械 -/

/-- kernel の PML4 の 0 番が、frame 2 の空の PDPT を指す機械。 -/
def lowMachine : State :=
  { blankMachine with mem := setSlot (fun _ => 0) 0x1000 0 0x2003 }

theorem slot_low {f i : Nat} (hf : IsFrame f) (hi : i < 512) :
    slot lowMachine.mem f i = if f = 0x1000 ∧ i = 0 then 0x2003 else 0 := by
  have h0 := slot_blank f i
  simp only [blankMachine] at h0
  simp only [lowMachine]
  rw [slot_setSlot (by decide) hf (by decide) hi (by decide), h0]

theorem tableAt_low {p : List (Fin 512)} {f : Nat} (h : tableAt lowMachine.mem 0x1000 p = some f) :
    (p = [] ∧ f = 0x1000) ∨ (p = [0] ∧ f = 0x2000) := by
  have hroot : ∀ (i : Fin 512) e, child 0 (tables lowMachine.mem 0x1000 i) = some e →
      i = 0 ∧ e = 0x2000 := by
    intro i e he
    rw [tables, slot_low (by decide) i.isLt] at he
    split at he
    · rename_i hi
      exact ⟨Fin.ext hi.2, some.inj (he.symm.trans (by decide))⟩
    · rw [child_zero] at he
      simp at he
  rcases p with _ | ⟨i, _ | ⟨j, p⟩⟩
  · simp only [tableAt, walk_nil, some.injEq] at h
    exact .inl ⟨rfl, h.symm⟩
  · rw [tableAt_singleton] at h
    obtain ⟨rfl, rfl⟩ := hroot i f h
    exact .inr ⟨rfl, rfl⟩
  · rw [tableAt, walk_cons, bind_eq_some_iff] at h
    obtain ⟨e, he, h⟩ := h
    obtain ⟨-, rfl⟩ := hroot i e he
    have hempty : tables lowMachine.mem 0x2000 j = 0 := by
      rw [tables, slot_low (by decide) j.isLt, if_neg (by simp)]
    rw [walk_cons, hempty, child_zero] at h
    simp at h

theorem tree_low : Tree lowMachine 0x1000 where
  ok := tree_blank.ok.setMem _
  root_frame := by decide
  unshared p q f hp hq := by
    rcases tableAt_low hp with ⟨rfl, rfl⟩ | ⟨rfl, rfl⟩ <;>
      rcases tableAt_low hq with ⟨rfl, h⟩ | ⟨rfl, h⟩ <;> simp_all
  addressable f hf := by
    obtain ⟨p, hp⟩ := hf
    rcases tableAt_low hp with ⟨-, rfl⟩ | ⟨-, rfl⟩ <;> decide
  unused f hfree hf := by
    obtain ⟨p, hp⟩ := hf
    obtain ⟨b, -, ht, hb⟩ := hfree
    rcases tableAt_low hp with ⟨-, rfl⟩ | ⟨-, rfl⟩
    · obtain rfl : b = 1 := by unfold blockFrame pageSize at hb; omega
      exact absurd ht (by decide +kernel)
    · obtain rfl : b = 2 := by unfold blockFrame pageSize at hb; omega
      exact absurd ht (by decide +kernel)

/-- 空の機械で作った directory。 -/
def userDir : Dir := (vmmCreateDirectory blankMachine).1

/-- その 1 番の下に一頁を写す。 -/
def userSys : Sys :=
  ⟨(vmmMapPageInDir (vmmCreateDirectory blankMachine).2 userDir 0xe000 0x8000000000 7).2, [userDir]⟩

/-- PDPT のない道は、huge page に当たらない。 -/
theorem not_meetsHuge_of_none {m : Mem} {root virt : Nat}
    (h : tableAt m root (pathTo virt 1) = none) : ¬MeetsHuge m root virt := by
  rintro ⟨l, f, hl, hf, -⟩
  obtain ⟨f', hf'⟩ := tableAt_prefix hf (show 1 ≤ l by omega)
  rw [h] at hf'
  cases hf'

set_option maxRecDepth 100000

theorem reach_user : Run.Reach step LegalCreateMap ⟨blankMachine, []⟩
    [.create, .map userDir 0xe000 0x8000000000 7] userSys := by
  have hnull : (vmmCreateDirectory blankMachine).1 ≠ .null := by decide +kernel
  have hlive : afterNew ⟨blankMachine, []⟩ (vmmCreateDirectory blankMachine)
      = ⟨(vmmCreateDirectory blankMachine).2, [userDir]⟩ := by
    rw [afterNew, if_neg hnull]
    rfl
  refine .snoc (.snoc .nil ⟨trivial, nofun, nofun⟩ (congrArg _ hlive)) ⟨⟨?_, ?_⟩, nofun, nofun⟩ rfl
  · exact .tail _ (.head _)
  · exact not_meetsHuge_of_none (by decide +kernel)

theorem user_mapped : vmmGetPhysAddr userSys.vmm userDir 0x8000000000 = 0xe000 := by
  decide +kernel

end Alos.Vmm
