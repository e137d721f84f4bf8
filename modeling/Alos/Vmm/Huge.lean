import Alos.Vmm.Map

/-!
# `PAGE_HUGE` を辿る `vmm_map_page`

`get_or_create_table` は present な entry をいつも table を指すものとして辿る。
`vmm_get_physical` や `vmm_free_directory` と違い、`PAGE_HUGE` を見ない。
そのため道の途中に 1 GiB や 2 MiB の page があると、その data を table として書き換える。

* `vmmMapPage_onlyTables_iff` — 同じ table を持つどの機械でもそうなるのは、そのときに限る
* `giant_page_overwritten` — 1 GiB page の data が書き換わる例
-/

namespace Alos.Vmm

open Bytes Pmm Bitmap Radix

variable {s s1 : State} {root virt f l d i : Nat} {m : Mem}

/-! ## 書き換わってよい frame -/

/-- `p` では空いていて、`q` では使用中の frame。 -/
def Taken (p q : Pmm.State) (f : Nat) : Prop :=
  ∃ b, b < p.totalBlocks ∧ test p.bitmap b = false ∧ test q.bitmap b = true ∧ f = blockFrame b

/-- 書き換わったのは、`root` の木の table と、その間に取った frame だけである。 -/
def OnlyTables (s s' : State) (root : Nat) : Prop :=
  OnlyIn s.mem s'.mem fun f => IsTable s.mem root f ∨ Taken s.pmm s'.pmm f

/-- 書き換わったのは、`virt` の道の上の table と、その間に取った frame だけである。 -/
def OnlyPath (s s' : State) (root virt : Nat) : Prop :=
  OnlyIn s.mem s'.mem fun f =>
    (∃ l, tableAt s.mem root (pathTo virt l) = some f) ∨ Taken s.pmm s'.pmm f

theorem OnlyPath.onlyTables {s' : State} (h : OnlyPath s s' root virt) : OnlyTables s s' root :=
  h.mono fun _ => Or.imp_left fun ⟨_, hl⟩ => ⟨_, hl⟩

/-- `virt` の道が、PDPT か PD で huge page に当たる。 -/
def MeetsHuge (m : Mem) (root virt : Nat) : Prop :=
  ∃ l f, (l = 1 ∨ l = 2) ∧ tableAt m root (pathTo virt l) = some f ∧
    hasFlag (slot m f (pathIndex virt l)) pagePresent = true ∧
    hasFlag (slot m f (pathIndex virt l)) pageHuge = true

theorem Taken.grow {p q r : Pmm.State} (h : Taken p q f) (hg : Grow q r) : Taken p r f := by
  obtain ⟨b, hb, h1, h2, rfl⟩ := h
  exact ⟨b, hb, h1, hg.used_mono b h2, rfl⟩

/-! ## 下降の不変条件 -/

/-- この呼び出しで取った frame を table として指す entry。 -/
structure FreshEntry (p q : Pmm.State) (e : Nat) : Prop where
  huge : hasFlag e pageHuge = false
  taken : Taken p q (frameOf e)

/--
`s` から始めて深さ `l` の table `f` に着いた状態 `s1`。

`f` はもとの木の道の先か、取ったばかりの frame である。もとの frame の entry は
読まれ方が変わっていないか、取った frame を指し、取った frame の entry は
空か、取った frame を指す。
-/
structure Visit (s : State) (root virt l f : Nat) (s1 : State) : Prop where
  here : tableAt s.mem root (pathTo virt l) = some f ∨ Taken s.pmm s1.pmm f
  old : ∀ g i, IsFrame g → i < 512 → ¬Taken s.pmm s1.pmm g →
    SameEntry (slot s.mem g i) (slot s1.mem g i) ∨ FreshEntry s.pmm s1.pmm (slot s1.mem g i)
  new : ∀ g i, IsFrame g → i < 512 → Taken s.pmm s1.pmm g →
    hasFlag (slot s1.mem g i) pagePresent = false ∨ FreshEntry s.pmm s1.pmm (slot s1.mem g i)
  only : OnlyPath s s1 root virt
  grow : Grow s.pmm s1.pmm

theorem Visit.onPath (h : Visit s root virt l f s1) :
    (∃ l, tableAt s.mem root (pathTo virt l) = some f) ∨ Taken s.pmm s1.pmm f :=
  h.here.imp_left fun ht => ⟨l, ht⟩

theorem visit_root (hc : Counted s.pmm) : Visit s root virt 0 root s := by
  refine ⟨.inl rfl, fun _ _ _ _ _ => .inl (.refl), ?_, .refl, .refl hc⟩
  rintro g i _ _ ⟨b, -, h1, h2, -⟩
  rw [h1] at h2
  simp at h2

theorem SameEntry.trans {e e' e'' : Nat} (h1 : SameEntry e e') (h2 : SameEntry e' e'') :
    SameEntry e e'' :=
  ⟨h2.present.trans h1.present, h2.huge.trans h1.huge, h2.frame.trans h1.frame⟩

theorem FreshEntry.same {p q : Pmm.State} {e e' : Nat} (h : FreshEntry p q e)
    (he : SameEntry e e') : FreshEntry p q e' :=
  ⟨he.huge.trans h.huge, he.frame ▸ h.taken⟩

/-- present な entry の先は、道の次の table か、取った frame である。 -/
theorem Visit.next (h : Visit s root virt l f s1)
    (hh : ¬MeetsHuge s.mem root virt) (hl : l < 3) (hf : IsFrame f)
    (hp : hasFlag (slot s1.mem f (pathIndex virt l)) pagePresent = true) :
    tableAt s.mem root (pathTo virt (l + 1)) = some (frameOf (slot s1.mem f (pathIndex virt l))) ∨
      Taken s.pmm s1.pmm (frameOf (slot s1.mem f (pathIndex virt l))) := by
  by_cases ht : Taken s.pmm s1.pmm f
  · rcases h.new f _ hf (pathIndex_lt virt l) ht with hn | hn
    · rw [hn] at hp
      simp at hp
    · exact .inr hn.taken
  · rcases h.old f _ hf (pathIndex_lt virt l) ht with hs | hn
    · left
      have hat := h.here.resolve_right ht
      rw [tableAt_succ hat, hs.frame]
      rw [hs.present] at hp
      refine child_of_present hl hp fun hc => ?_
      by_contra hne
      exact hh ⟨l, f, by omega, hat, hp, hc⟩
    · exact .inr hn.taken

theorem sameEntry_mark {f i g j flags : Nat} (hf : IsFrame f) (hg : IsFrame g)
    (hi : i < 512) (hj : j < 512) : SameEntry (slot m g j) (slot (markUser m f i flags) g j) := by
  rw [slot_markUser hf hg hi hj]
  split
  · rename_i h
    rw [h.1, h.2]
    exact sameEntry_user
  · exact .refl

theorem Visit.existing (flags : Nat) (h : Visit s root virt l f s1)
    (hh : ¬MeetsHuge s.mem root virt) (hl : l < 3) (hf : IsFrame f)
    (hp : hasFlag (slot s1.mem f (pathIndex virt l)) pagePresent = true) :
    Visit s root virt (l + 1) (frameOf (slot s1.mem f (pathIndex virt l)))
      { s1 with mem := markUser s1.mem f (pathIndex virt l) flags } := by
  have hsame := fun {g j : Nat} (hg : IsFrame g) (hj : j < 512) =>
    @sameEntry_mark s1.mem f _ g j flags hf hg (pathIndex_lt virt l) hj
  refine ⟨h.next hh hl hf hp, ?_, ?_, ?_, h.grow⟩
  · intro g j hg hj ht
    exact (h.old g j hg hj ht).imp (fun he => he.trans (hsame hg hj)) fun he =>
      he.same (hsame hg hj)
  · intro g j hg hj ht
    exact (h.new g j hg hj ht).imp (fun he => (hsame hg hj).present.trans he) fun he =>
      he.same (hsame hg hj)
  · refine h.only.trans ((onlyIn_markUser _ hf (pathIndex_lt virt l)).mono ?_)
    rintro g rfl
    exact h.onPath

theorem Visit.created {flags b : Nat}
    (h : Visit s root virt l f s1) (ok : Ok s1) (hf : IsFrame f)
    (hb : b < s1.pmm.totalBlocks) (ht : test s1.pmm.bitmap b = false) :
    Visit s root virt (l + 1) (blockFrame b) { s1 with
        pmm := incUsed (bitmapSet s1.pmm b)
        mem := linkTable s1.mem f (pathIndex virt l) (blockFrame b) flags } := by
  have hg := isFrame_blockFrame (ok.counted.lt_max hb)
  have hgrow := grow_take ok.counted hb ht
  have hbit := (take_spec ok.counted hb ht).2.2
  -- 取った frame は、前から取っていたものと `b` だけである
  have hnew : Taken s.pmm (incUsed (bitmapSet s1.pmm b)) (blockFrame b) := by
    refine ⟨b, h.grow.layout.total_eq ▸ hb, ?_, by rw [hbit]; simp, rfl⟩
    by_contra hc
    rw [h.grow.used_mono b (by simpa using hc)] at ht
    simp at ht
  have hsplit : ∀ g, Taken s.pmm (incUsed (bitmapSet s1.pmm b)) g →
      Taken s.pmm s1.pmm g ∨ g = blockFrame b := by
    rintro g ⟨c, hc, h1, h2, rfl⟩
    rw [hbit, Bool.or_eq_true, decide_eq_true_eq] at h2
    rcases h2 with rfl | h2
    · exact .inr rfl
    · exact .inl ⟨c, hc, h1, h2, rfl⟩
  have hfresh : FreshEntry _ _ _ :=
    ⟨huge_tableEntry hg flags, by rw [frameOf_tableEntry hg]; exact hnew⟩
  have hslot := fun {x j : Nat} (hx : IsFrame x) (hj : j < 512) =>
    slot_linkTable (m := s1.mem) flags hf hg hx (pathIndex_lt virt l) hj
  refine ⟨.inr hnew, ?_, ?_, ?_, h.grow.trans hgrow⟩
  · intro x j hx hj hnt
    simp only [hslot hx hj]
    split
    · exact .inr hfresh
    · rw [if_neg (by rintro rfl; exact hnt hnew)]
      exact (h.old x j hx hj fun ht => hnt (ht.grow hgrow)).imp_right fun he =>
        ⟨he.huge, he.taken.grow hgrow⟩
  · intro x j hx hj htk
    simp only [hslot hx hj]
    split
    · exact .inr hfresh
    · split
      · exact .inl (hasFlag_zero _)
      · rename_i hxg
        exact (h.new x j hx hj ((hsplit x htk).resolve_right hxg)).imp_right fun he =>
          ⟨he.huge, he.taken.grow hgrow⟩
  · have h1 : OnlyIn _ _ fun x =>
        (∃ l, tableAt _ root _ = some x) ∨ Taken _ _ x :=
      h.only.mono fun _ hx => hx.imp_right fun ht => ht.grow hgrow
    refine h1.trans ((onlyIn_linkTable _ hf hg (pathIndex_lt virt l)).mono ?_)
    rintro x (rfl | rfl)
    · exact h.onPath.imp_right fun ht => ht.grow hgrow
    · exact .inr hnew

theorem visit_rule (hh : ¬MeetsHuge s.mem root virt) {flags : Nat} :
    MapRule virt flags (Visit s root virt) (fun s' => OnlyPath s s' root virt) where
  existing := by
    intro l f s1 hl ok hf h hp
    have hnext := h.existing flags hh hl hf hp
    exact ⟨fun _ => hnext.only, fun _ => hnext⟩
  failed := by
    intro l f s1 hl ok hf h hp h0 q hq
    exact h.only.mono fun _ hx => hx.imp_right fun ht => ht.grow hq
  created := by
    intro l f s1 hl ok hf h hp b hb ht _ _
    exact h.created ok hf hb ht

/-- 道に huge page がなければ、書き換わるのは道の上の table と新しい frame だけである。 -/
theorem onlyPath_of_noHuge (phys flags : Nat) (ok : Ok s)
    (hroot : IsFrame root) (hcur : (readDir s s.currentDirectory).pml4 = physToVirt s root)
    (hh : ¬MeetsHuge s.mem root virt) : OnlyPath s (vmmMapPage s phys virt flags) root virt := by
  apply vmmMapPage_rule (visit_rule hh) ok hroot hcur (visit_root ok.counted)
  intro f s1 _ hf h
  refine h.only.trans ((onlyIn_setSlot _ hf (ptIndex_lt virt)).mono ?_)
  rintro g rfl
  exact h.onPath

/-! ## 必要なこと -/

/-- 状態 `s` の現在の directory は `root` を指し、その木の table の中身は `m` と同じである。 -/
structure Shows (m : Mem) (root : Nat) (s : State) : Prop where
  ok : Ok s
  current : (readDir s s.currentDirectory).pml4 = physToVirt s root
  same : ∀ f i, IsTable m root f → i < 512 → slot s.mem f i = slot m f i

theorem Shows.tableAt_eq (h : Shows m root s)
    (p : List (Fin 512)) : tableAt s.mem root p = tableAt m root p :=
  tableAt_same (fun g i hg => .of_eq (h.same g i hg i.isLt)) p

theorem Shows.meetsHuge (h : Shows m root s) :
    MeetsHuge s.mem root virt → MeetsHuge m root virt := by
  rintro ⟨l, f, hl, hf, hp, hg⟩
  rw [h.tableAt_eq] at hf
  rw [h.same f _ ⟨_, hf⟩ (pathIndex_lt virt l)] at hp hg
  exact ⟨l, f, hl, hf, hp, hg⟩

/-- frame `d` の entry をすべて「present、USER でない、frame 0」にしたメモリ。 -/
def trapMem (m : Mem) (d : Nat) : Mem :=
  fun a => if pageAlignDown a = d then (if a % 8 = 0 then 1 else 0) else m a

theorem slot_trapMem_self (hd : IsFrame d) (hi : i < 512) : slot (trapMem m d) d i = 1 := by
  have h : slot (trapMem m d) d i = load (fun a => if a % 8 = 0 then 1 else 0) (d + 8 * i) 8 := by
    apply load_congr
    intro x h1 h2
    unfold IsFrame pageSize at hd
    unfold trapMem pageAlignDown pageSize
    rw [if_pos (by omega)]
  unfold IsFrame pageSize at hd
  rw [h]
  simp only [load]
  rw [if_pos (by omega), if_neg (by omega), if_neg (by omega), if_neg (by omega),
    if_neg (by omega), if_neg (by omega), if_neg (by omega), if_neg (by omega)]
  rfl

theorem slot_trapMem_ne (hf : IsFrame f) (hi : i < 512) (hne : f ≠ d) :
    slot (trapMem m d) f i = slot m f i := by
  apply load_congr
  intro x h1 h2
  unfold IsFrame pageSize at hf
  unfold trapMem pageAlignDown pageSize
  rw [if_neg (by omega)]

/-- `trapMem` と、空き block のない PMM を持つ機械。 -/
def trapMachine (m : Mem) (root d : Nat) : State where
  mem := trapMem m d
  pmm := { Pmm.State.zero with hhdmOffset := 2 ^ 63 }
  hhdmOffset := 2 ^ 63
  kernelDirectory := ⟨root, root + 2 ^ 63⟩
  currentDirectory := .kernel

theorem trapMachine_ok : Ok (trapMachine m root d) :=
  ⟨show 2 ^ 63 < 2 ^ 64 by decide, rfl, ⟨Nat.zero_le _, (Nat.count_zero _).symm⟩⟩

theorem physToVirt_trap (h : s.hhdmOffset = 2 ^ 63) (hf : IsFrame f) :
    physToVirt s f = f + 2 ^ 63 := by
  unfold IsFrame at hf
  unfold physToVirt
  omega

theorem trapMachine_shows (hroot : IsFrame root)
    (hd : ¬IsTable m root d) : Shows m root (trapMachine m root d) := by
  refine ⟨trapMachine_ok, (physToVirt_trap rfl hroot).symm, ?_⟩
  intro f i hf hi
  obtain ⟨p, hp⟩ := hf
  refine slot_trapMem_ne (isFrame_of_tableAt hroot hp) hi ?_
  rintro rfl
  exact hd ⟨p, hp⟩

/--
罠の機械での下降。`k` は huge page に当たる深さ、`d` はその先の frame である。
`d` を table として使った後は、その entry に `PAGE_USER` が立っている。
-/
structure Trapped (m : Mem) (root virt d k l f : Nat) (s : State) : Prop where
  hhdm_eq : s.hhdmOffset = 2 ^ 63
  before : l ≤ k → tableAt m root (pathTo virt l) = some f
  at_data : l = k + 1 → f = d
  after : k + 1 < l → hasFlag (slot s.mem d (pathIndex virt (k + 1))) pageUser = true
  same : ∀ g i, IsFrame g → i < 512 → SameEntry (slot (trapMem m d) g i) (slot s.mem g i)

theorem hasFlag_or_user {e : Nat} : hasFlag (e ||| (pageUser &&& pageUser)) pageUser = true := by
  rw [Nat.and_self, pageUser, hasFlag_or, show hasFlag (1 <<< 2) _ = true from by decide,
    Bool.or_true]

theorem tableAt_prefix {k : Nat} (h : tableAt m root (pathTo virt k) = some f) (hl : l ≤ k) :
    ∃ g, tableAt m root (pathTo virt l) = some g := by
  induction k generalizing f with
  | zero => exact ⟨f, by rwa [Nat.le_zero.mp hl]⟩
  | succ k ih =>
    by_cases hk : l = k + 1
    · exact ⟨f, hk ▸ h⟩
    · obtain ⟨g, hg, -⟩ := tableAt_pred h
      exact ih hg (by omega)

section Trap

variable {m : Mem} {root virt k fk : Nat}

/-- 罠の機械の table の entry は、もとの table の entry と同じ読まれ方をする。 -/
theorem Trapped.table (h : Trapped m root virt d k l f s)
    (hroot : IsFrame root) (hd : ¬IsTable m root d) (hl : l ≤ k) :
    SameEntry (slot m f (pathIndex virt l)) (slot s.mem f (pathIndex virt l)) := by
  have hat := h.before hl
  have hf := isFrame_of_tableAt hroot hat
  have hs := h.same f _ hf (pathIndex_lt virt l)
  rwa [slot_trapMem_ne hf (pathIndex_lt virt l) (by rintro rfl; exact hd ⟨_, hat⟩)] at hs

theorem Trapped.present (h : Trapped m root virt (frameOf (slot m fk (pathIndex virt k))) k l f s)
    (hroot : IsFrame root) (hd : ¬IsTable m root (frameOf (slot m fk (pathIndex virt k))))
    (hk : k = 1 ∨ k = 2) (hat : tableAt m root (pathTo virt k) = some fk)
    (hp : hasFlag (slot m fk (pathIndex virt k)) pagePresent = true) (hl : l < 3) :
    hasFlag (slot s.mem f (pathIndex virt l)) pagePresent = true := by
  by_cases hlk : l ≤ k
  · rw [(h.table hroot hd hlk).present]
    by_cases he : l = k
    · subst he
      have hb := h.before (Nat.le_refl l)
      rw [hat, Option.some.injEq] at hb
      rwa [← hb]
    · obtain ⟨g, hg⟩ := tableAt_prefix hat (show l + 1 ≤ k by omega)
      rw [tableAt_succ (h.before hlk)] at hg
      exact (child_eq_some hg).2.1
  · have hf := h.at_data (by omega)
    have hs := h.same f _ (hf ▸ isFrame_frameOf _) (pathIndex_lt virt l)
    rw [hs.present, hf, slot_trapMem_self (isFrame_frameOf _) (pathIndex_lt virt l)]
    decide

theorem Trapped.existing
    (h : Trapped m root virt (frameOf (slot m fk (pathIndex virt k))) k l f s)
    (hroot : IsFrame root) (hd : ¬IsTable m root (frameOf (slot m fk (pathIndex virt k))))
    (hk : k = 1 ∨ k = 2) (hat : tableAt m root (pathTo virt k) = some fk) (hf : IsFrame f)
    (hl : l < 3) :
    Trapped m root virt (frameOf (slot m fk (pathIndex virt k))) k (l + 1)
      (frameOf (slot s.mem f (pathIndex virt l)))
      { s with mem := markUser s.mem f (pathIndex virt l) pageUser } := by
  refine ⟨h.hhdm_eq, ?_, ?_, ?_, ?_⟩
  · intro hlk
    obtain ⟨g, hg⟩ := tableAt_prefix hat hlk
    have hc := hg
    rw [tableAt_succ (h.before (by omega))] at hc
    obtain ⟨-, -, -, rfl⟩ := child_eq_some hc
    rw [hg, (h.table hroot hd (by omega)).frame]
  · intro hlk
    obtain rfl : l = k := by omega
    have hb := h.before (Nat.le_refl l)
    rw [hat, Option.some.injEq] at hb
    rw [(h.table hroot hd (Nat.le_refl l)).frame, hb]
  · intro hlk
    obtain rfl : l = k + 1 := by omega
    have hfd := h.at_data rfl
    have hslot := @slot_markUser s.mem f _ f _ pageUser hf hf (pathIndex_lt virt (k + 1))
      (pathIndex_lt virt (k + 1))
    rw [← hfd]
    simp only [hslot]
    exact hasFlag_or_user
  · intro g i hg hi
    exact (h.same g i hg hi).trans (sameEntry_mark hf hg (pathIndex_lt virt l) hi)

/-- 罠の機械で `PAGE_USER` を付けて写すと、data だった frame の entry に `PAGE_USER` が立つ。 -/
theorem trap_user (hroot : IsFrame root)
    (hd : ¬IsTable m root (frameOf (slot m fk (pathIndex virt k)))) (hk : k = 1 ∨ k = 2)
    (hat : tableAt m root (pathTo virt k) = some fk)
    (hp : hasFlag (slot m fk (pathIndex virt k)) pagePresent = true) :
    hasFlag (slot (vmmMapPage (trapMachine m root (frameOf (slot m fk (pathIndex virt k))))
      0 virt pageUser).mem (frameOf (slot m fk (pathIndex virt k))) (pathIndex virt (k + 1)))
      pageUser = true := by
  have hrule : MapRule virt pageUser
      (Trapped m root virt (frameOf (slot m fk (pathIndex virt k))) k)
      (fun s => hasFlag (slot s.mem (frameOf (slot m fk (pathIndex virt k)))
        (pathIndex virt (k + 1))) pageUser = true) := by
    refine ⟨?_, ?_, ?_⟩
    · intro l f s hl ok hf h _
      refine ⟨fun h0 => ?_, fun _ => h.existing hroot hd hk hat hf hl⟩
      rw [physToVirt_trap h.hhdm_eq (isFrame_frameOf _)] at h0
      omega
    · intro l f s hl ok hf h hn
      rw [h.present hroot hd hk hat hp hl] at hn
      simp at hn
    · intro l f s hl ok hf h hn
      rw [h.present hroot hd hk hat hp hl] at hn
      simp at hn
  have h0 : Trapped m root virt _ k 0 root
      (trapMachine m root (frameOf (slot m fk (pathIndex virt k)))) :=
    ⟨rfl, fun _ => rfl, by omega, by omega, fun _ _ _ _ => .refl⟩
  apply vmmMapPage_rule hrule trapMachine_ok hroot (physToVirt_trap rfl hroot).symm h0
  intro f s ok hf h
  have hleaf : hasFlag (leafEntry (pageAlignDown 0) pageUser % 2 ^ 64) pageUser = true := by decide
  by_cases hw : frameOf (slot m fk (pathIndex virt k)) = f ∧ pathIndex virt (k + 1) = ptIndex virt
  · simp only [hw.1, hw.2, slot_setSlot_self]
    exact hleaf
  -- `k = 2` なら葉の table がその frame なので、ここは `k = 1` である
  have hk1 : k = 1 := by
    by_contra hne
    obtain rfl : k = 2 := by omega
    exact hw ⟨(h.at_data rfl).symm, rfl⟩
  subst hk1
  simp only [slot_setSlot_ne hf (isFrame_frameOf _) (ptIndex_lt virt) (pathIndex_lt virt 2) hw]
  exact h.after (by decide)

end Trap

/--
**`vmm_map_page` が table と新しい frame だけを書き換えるのは、道が huge page に当たらないときに限る。**

`m` は page table の中身で、それを持つすべての機械（data の中身、PMM、directory の置き場所は任意）と
すべての `phys`、`flags` について言う。当たる huge page の先頭の frame は table ではないとする。
-/
theorem vmmMapPage_onlyTables_iff {m : Mem} {root virt : Nat} (hroot : IsFrame root)
    (hdata : ∀ l f, l = 1 ∨ l = 2 → tableAt m root (pathTo virt l) = some f →
      hasFlag (slot m f (pathIndex virt l)) pagePresent = true →
      hasFlag (slot m f (pathIndex virt l)) pageHuge = true →
      ¬IsTable m root (frameOf (slot m f (pathIndex virt l)))) :
    (∀ s, Shows m root s → ∀ phys flags, OnlyTables s (vmmMapPage s phys virt flags) root) ↔
      ¬MeetsHuge m root virt := by
  constructor
  · rintro h ⟨k, fk, hk, hat, hp, hg⟩
    have hd := hdata k fk hk hat hp hg
    have hshow := trapMachine_shows hroot hd
    have honly := h _ hshow 0 pageUser
    have huser := trap_user hroot hd hk hat hp
    -- この frame は table でも取った frame でもないので、変わらないはずである
    have heq := OnlyIn.slot_eq honly (isFrame_frameOf _) (pathIndex_lt virt (k + 1)) (by
        rintro (ht | ⟨b, hb, -⟩)
        · exact hd ((isTable_congr hshow.tableAt_eq _).mp ht)
        · exact Nat.not_lt_zero b hb)
    rw [heq, show (trapMachine m root _).mem = trapMem m _ from rfl,
      slot_trapMem_self (isFrame_frameOf _) (pathIndex_lt virt _)] at huser
    exact absurd huser (by decide)
  · intro hh s hs phys flags
    exact (onlyPath_of_noHuge phys _ hs.ok hroot hs.current fun hc =>
      hh (hs.meetsHuge hc)).onlyTables

/-! ## 1 GiB page の例 -/

/-- 番地 0 からの 1 GiB を、物理の 1 GiB からの 1 GiB page で写している機械。 -/
def giantMachine : State :=
  { blankMachine with
    mem := setSlot (setSlot (fun _ => 0) 0x1000 0 0x2003) 0x2000 0 0x40000083 }

theorem slot_giant (hf : IsFrame f) (hi : i < 512) : slot giantMachine.mem f i =
      if f = 0x2000 ∧ i = 0 then 0x40000083 else if f = 0x1000 ∧ i = 0 then 0x2003 else 0 := by
  have h0 := slot_blank f i
  simp only [blankMachine] at h0
  simp only [giantMachine]
  rw [slot_setSlot (by decide) hf (by decide) hi (by decide),
    slot_setSlot (by decide) hf (by decide) hi (by decide), h0]

theorem tableAt_giant {p : List (Fin 512)}
    (h : tableAt giantMachine.mem 0x1000 p = some f) : f = 0x1000 ∨ f = 0x2000 := by
  rcases p with _ | ⟨i, _ | ⟨j, p⟩⟩
  · simp only [tableAt, walk_nil, Option.some.injEq] at h
    exact .inl h.symm
  · rw [tableAt, walk_cons, tables, slot_giant (by decide) i.isLt, if_neg (by simp)] at h
    right
    split at h
    · rw [show child 0 _ = some 0x2000 from by decide] at h
      simpa using h.symm
    · rw [child_of_not_present (hasFlag_zero _)] at h
      simp at h
  · rw [tableAt, walk_cons, tables, slot_giant (by decide) i.isLt, if_neg (by simp)] at h
    split at h
    · -- 1 GiB page の先は table ではない
      rw [show child 0 _ = some 0x2000 from by decide, Option.bind_some, walk_cons, tables,
        slot_giant (by decide) j.isLt] at h
      split at h
      · rw [show child _ _ = none from by decide] at h
        simp at h
      · rw [if_neg (by simp), child_of_not_present (hasFlag_zero _)] at h
        simp at h
    · rw [child_of_not_present (hasFlag_zero _)] at h
      simp at h

theorem giant_not_table : ¬IsTable giantMachine.mem 0x1000 0x40000000 := by
  rintro ⟨p, hp⟩
  have := tableAt_giant hp
  omega

theorem giant_shows : Shows giantMachine.mem 0x1000 giantMachine :=
  ⟨⟨by decide, rfl, tree_blank.ok.counted⟩, by decide, fun _ _ _ _ => rfl⟩

/-- 番地 0x200000 を写すと、1 GiB page の data が書き換わる。 -/
theorem giant_page_overwritten :
    Shows giantMachine.mem 0x1000 giantMachine ∧
    translate giantMachine.mem 0x1000 8 = some 0x40000008 ∧
    (vmmMapPage giantMachine 0x9000 0x200000 7).mem 0x40000008 ≠ giantMachine.mem 0x40000008 ∧
    ¬OnlyTables giantMachine (vmmMapPage giantMachine 0x9000 0x200000 7) 0x1000 := by
  have hne : (vmmMapPage giantMachine 0x9000 0x200000 7).mem 0x40000008
      ≠ giantMachine.mem 0x40000008 := by decide +kernel
  refine ⟨giant_shows, by decide +kernel, hne, ?_⟩
  intro h
  rcases h _ hne with ht | ⟨b, hb, -, -, he⟩
  · exact giant_not_table ht
  · have hb16 : b < 16 := hb
    unfold pageAlignDown blockFrame pageSize at he
    omega

/-- この機械の page table では、番地 0x200000 の道が huge page に当たる。 -/
theorem giant_onlyTables_iff :
    ¬∀ s, Shows giantMachine.mem 0x1000 s →
      ∀ phys flags, OnlyTables s (vmmMapPage s phys 0x200000 flags) 0x1000 := by
  have t1 : tableAt giantMachine.mem 0x1000 (pathTo 0x200000 1) = some 0x2000 := by
    decide +kernel
  rw [vmmMapPage_onlyTables_iff (by decide)]
  · exact not_not.mpr ⟨1, 0x2000, .inl rfl, t1, by decide +kernel, by decide +kernel⟩
  intro l f hl hf hp hg
  rcases tableAt_giant hf with rfl | rfl
  · rw [slot_giant (by decide) (pathIndex_lt _ _), if_neg (by simp)] at hg
    split at hg
    · exact absurd hg (by decide)
    · simp at hg
  · rw [slot_giant (by decide) (pathIndex_lt _ _)] at hg ⊢
    split at hg
    · rename_i h0
      rw [if_pos h0]
      exact giant_not_table
    · simp at hg

end Alos.Vmm
