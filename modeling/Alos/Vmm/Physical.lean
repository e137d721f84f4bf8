import Alos.Vmm.Directory

/-!
# 二つの検索と hardware の変換

`vmm_get_physical` は現在の directory を、`vmm_get_phys_addr` は渡された directory を辿る。どちらも番地を先に
4 KiB に揃え、PDPT の `PAGE_HUGE` を見ず、PD の `PAGE_HUGE` を `PAGE_PRESENT` より先に見る。

* `vmmGetPhysical_translates` — 二つの検索と hardware の変換
* `vmmGetPhysical_differs` — `Plain` でない道と、揃っていない番地では違う
-/

namespace Alos.Vmm

open Bytes Radix Option

variable {s : State} {root v f : Nat} {m : Mem}

/-- 戻り値は物理番地。辿れなければ 0。番地は先に 4 KiB に揃えるので、最後に足す offset はいつも 0 である。 -/
def vmmGetPhysical (s : State) (virt : Nat) : Nat :=
  let virt := pageAlignDown virt
  let pdpt := getTable s (readDir s s.currentDirectory).pml4 (pml4Index virt)
  if pdpt = 0 then 0
  else
    let pd := getTable s pdpt (pdptIndex virt)
    if pd = 0 then 0
    else
      let pde := readEntry s pd (pdIndex virt)
      if hasFlag pde pageHuge then (frameOf pde + (virt &&& 0x1FFFFF)) % 2 ^ 64
      else
        let pt := getTable s pd (pdIndex virt)
        if pt = 0 then 0
        else
          let pte := readEntry s pt (ptIndex virt)
          if hasFlag pte pagePresent then (frameOf pte + (virt &&& 0xFFF)) % 2 ^ 64 else 0

theorem alignDown_offset : pageAlignDown v &&& 0xFFF = 0 := by
  rw [show (0xFFF : Nat) = 2 ^ 12 - 1 from rfl, Nat.and_two_pow_sub_one_eq_mod]
  unfold pageAlignDown pageSize
  omega

theorem alignDown_large : pageAlignDown v &&& 0x1FFFFF = v % 2 ^ 21 / 4096 * 4096 := by
  rw [show (0x1FFFFF : Nat) = 2 ^ 21 - 1 from rfl, Nat.and_two_pow_sub_one_eq_mod]
  unfold pageAlignDown pageSize
  omega

/-- 二つの検索は、同じ directory で同じ値を返す。 -/
theorem vmmGetPhysical_eq (hd : s.currentDirectory ≠ .null) :
    vmmGetPhysical s v = vmmGetPhysAddr s s.currentDirectory v := by
  unfold vmmGetPhysical vmmGetPhysAddr
  rw [if_neg hd]
  have hframe : ∀ e, (frameOf e + (pageAlignDown v &&& 0xFFF)) % 2 ^ 64 = frameOf e := by
    intro e
    have hlt := (isFrame_frameOf e).2
    rw [alignDown_offset]
    omega
  simp only [hframe]

/-- 検索が hardware と同じに読む道。 -/
structure Plain (s : State) (root v : Nat) : Prop where
  /-- 1 GiB page がない。 -/
  noGiant : ∀ f ∈ tableAt s.mem root (pathTo v 1),
    hasFlag (slot s.mem f (pdptIndex v)) pagePresent = true →
    hasFlag (slot s.mem f (pdptIndex v)) pageHuge = false
  /-- PD の `PAGE_HUGE` は写っている 2 MiB page であり、frame は 2 MiB に揃っている。 -/
  large : ∀ f ∈ tableAt s.mem root (pathTo v 2),
    hasFlag (slot s.mem f (pdIndex v)) pageHuge = true →
    hasFlag (slot s.mem f (pdIndex v)) pagePresent = true ∧
      frameOf (slot s.mem f (pdIndex v)) % 2 ^ 21 = 0
  /-- table の HHDM の番地は `NULL` でない。 -/
  notNull : ∀ l ∈ [1, 2, 3], ∀ f ∈ tableAt s.mem root (pathTo v l), physToVirt s f ≠ 0

theorem passes_eq_present {l : Nat} (h : Plain s root v) (hl : l < 3)
    (hf : tableAt s.mem root (pathTo v l) = some f)
    (hh : hasFlag (slot s.mem f (pathIndex v l)) pagePresent = true →
      hasFlag (slot s.mem f (pathIndex v l)) pageHuge = true → l = 0) :
    passes s (slot s.mem f (pathIndex v l)) = hasFlag (slot s.mem f (pathIndex v l))
      pagePresent := by
  by_cases hp : hasFlag (slot s.mem f (pathIndex v l)) pagePresent = true
  · have hnext := (tableAt_succ hf).trans (child_of_present hl hp (hh hp))
    rw [hp, passes_of_present hp (h.notNull _ (by simp; omega) _ hnext)]
  · rw [Bool.not_eq_true] at hp
    rw [hp, passes_of_not_present hp]

/-- 変換した番地を 4 KiB に切り下げる。写っていなければ 0。 -/
def roundDown (a : Option Nat) : Nat := pageAlignDown (a.getD 0)

theorem roundDown_small (hf : IsFrame f) : roundDown (some (f + v % pageSize)) = f := by
  unfold IsFrame at hf
  unfold roundDown pageAlignDown
  simp only [getD_some, pageSize] at hf ⊢
  omega

theorem roundDown_large (hf : IsFrame f) (hlarge : f % 2 ^ 21 = 0) :
    roundDown (some (f / 2 ^ 21 * 2 ^ 21 + v % 2 ^ 21))
      = (f + (pageAlignDown v &&& 0x1FFFFF)) % 2 ^ 64 := by
  have hlt := hf.2
  rw [alignDown_large]
  unfold roundDown pageAlignDown
  simp only [getD_some, pageSize]
  omega

theorem lookup_from_pd (h : Plain s root v)
    (t2 : tableAt s.mem root (pathTo v 2) = some f) :
    (let e2 := slot s.mem f (pdIndex v)
      if hasFlag e2 pageHuge then (frameOf e2 + (pageAlignDown v &&& 0x1FFFFF)) % 2 ^ 64
      else if passes s e2 then
        let e1 := slot s.mem (frameOf e2) (ptIndex v)
        if hasFlag e1 pagePresent then frameOf e1 else 0
      else 0) =
    roundDown (let e2 := slot s.mem f (pdIndex v)
      if hasFlag e2 pagePresent then
        if hasFlag e2 pageHuge then some (frameOf e2 / 2 ^ 21 * 2 ^ 21 + v % 2 ^ 21)
        else
          let e1 := slot s.mem (frameOf e2) (ptIndex v)
          if hasFlag e1 pagePresent then some (frameOf e1 + v % pageSize) else none
      else none) := by
  dsimp only
  by_cases huge : hasFlag (slot s.mem f (pdIndex v)) pageHuge = true
  · obtain ⟨hp, hframe⟩ := h.large f t2 huge
    rw [if_pos huge, if_pos hp, if_pos huge, roundDown_large (isFrame_frameOf _) hframe]
  have hpass := passes_eq_present h (by decide) t2 fun _ hh => absurd hh huge
  simp only [pathIndex] at hpass
  rw [if_neg huge, hpass]
  split
  · split
    · exact (roundDown_small (isFrame_frameOf _)).symm
    · rfl
  · rfl

/-- `Plain` な道では、検索は hardware の変換を 4 KiB に切り下げたものである。 -/
theorem lookup_eq_translate (h : Plain s root v) :
    lookup s root v = roundDown (translate s.mem root v) := by
  have t0 : tableAt s.mem root (pathTo v 0) = some root := rfl
  have p0 := passes_eq_present h (by decide) t0 fun _ _ => rfl
  simp only [pathIndex] at p0
  unfold lookup translate
  simp only [p0]
  by_cases e4 : hasFlag (slot s.mem root (pml4Index v)) pagePresent = true
  · have t1 := (tableAt_succ t0).trans (child_of_present (by decide) e4 fun _ => rfl)
    simp only [pathIndex] at t1
    rw [if_pos e4, if_pos e4]
    generalize frameOf _ = pdpt at t1 ⊢
    have giant := h.noGiant _ t1
    have p1 := passes_eq_present h (by decide) t1 fun hp hh =>
      absurd hh (Bool.eq_false_iff.mp (giant hp))
    simp only [pathIndex] at p1
    rw [p1]
    by_cases e3 : hasFlag (slot s.mem pdpt (pdptIndex v)) pagePresent = true
    · have hno : ¬hasFlag _ _ = true := Bool.eq_false_iff.mp (giant e3)
      have t2 := (tableAt_succ t1).trans (child_of_present (by decide) e3 fun hh => absurd hh hno)
      rw [if_pos e3, if_pos e3, if_neg hno]
      exact lookup_from_pd h t2
    · rw [if_neg e3, if_neg e3]
      rfl
  · rw [if_neg e4, if_neg e4]
    rfl

/-- 変換は page の中の offset を変えない。 -/
theorem translate_offset {a : Nat} (ha : translate m root v = some a) :
    a % pageSize = v % pageSize := by
  unfold pageSize
  simp only [translate, ite_none_right_eq_some] at ha
  obtain ⟨-, -, ha⟩ := ha
  split at ha
  · obtain rfl := some.inj ha
    omega
  obtain ⟨-, ha⟩ := ite_none_right_eq_some.mp ha
  split at ha
  · obtain rfl := some.inj ha
    omega
  · obtain ⟨-, ha⟩ := ite_none_right_eq_some.mp ha
    obtain rfl := some.inj ha
    have hframe := (isFrame_frameOf (slot m (frameOf (slot m (frameOf (slot m (frameOf (slot m root
      (pml4Index v))) (pdptIndex v))) (pdIndex v))) (ptIndex v))).1
    unfold pageSize at hframe ⊢
    omega

/-- 切り下げて変わらないのは、揃った番地と、写っていない番地である。 -/
theorem roundDown_translate : roundDown (translate m root v) = (translate m root v).getD 0 ↔
    v % pageSize = 0 ∨ translate m root v = none := by
  cases ha : translate m root v with
  | none => exact iff_of_true rfl (.inr rfl)
  | some a =>
    have hoffset := translate_offset ha
    unfold roundDown pageAlignDown
    simp only [getD_some, reduceCtorEq, or_false]
    unfold pageSize at hoffset ⊢
    omega

/--
**検索が `Plain` な道で hardware の変換と一致するのは、番地が揃っているか、写っていないときに限る。**

`vmm_get_phys_addr` はどの番地でも変換を 4 KiB に切り下げたものである。`vmm_get_physical` は、写っている番地では page の中の
offset を落とす。写っていなければどちらも 0 である。
-/
theorem vmmGetPhysical_translates {s : State} (hs : s.hhdmOffset < 2 ^ 64) {root v : Nat}
    (hroot : IsFrame root) (h : Plain s root v) (hd : s.currentDirectory ≠ .null)
    (hpml4 : (readDir s s.currentDirectory).pml4 = physToVirt s root) :
    (vmmGetPhysical s v = (translate s.mem root v).getD 0 ∧
      ∀ dir, dir ≠ .null → (readDir s dir).pml4 = physToVirt s root →
        vmmGetPhysAddr s dir v = pageAlignDown ((translate s.mem root v).getD 0)) ↔
    v % pageSize = 0 ∨ translate s.mem root v = none := by
  have haddr : ∀ dir, dir ≠ .null → (readDir s dir).pml4 = physToVirt s root →
      vmmGetPhysAddr s dir v = roundDown (translate s.mem root v) := by
    intro dir hd hpml4
    rw [vmmGetPhysAddr_eq hs hd hroot hpml4, lookup_eq_translate h]
  rw [vmmGetPhysical_eq hd, haddr _ hd hpml4, roundDown_translate]
  exact and_iff_left haddr

/-- 番地 0 に 4 KiB page、1 GiB に 1 GiB page、2 MiB に `PAGE_PRESENT` のない `PAGE_HUGE` を持つ機械。 -/
def mixedMachine : State :=
  { blankMachine with
    mem := setSlot (setSlot (setSlot
      (setSlot (setSlot (setSlot (fun _ => 0) 0x1000 0 0x2003) 0x2000 0 0x3003)
      0x2000 1 0x40000083) 0x3000 0 0x4003) 0x3000 1 0x80) 0x4000 0 0x5003 }

theorem vmmGetPhysical_translates_page :
    vmmGetPhysical mixedMachine 0 = 0x5000 ∧ vmmGetPhysAddr mixedMachine .kernel 0 = 0x5000 := by
  have hplain : Plain mixedMachine 0x1000 0 :=
    ⟨by decide +kernel, by decide +kernel, by decide +kernel⟩
  obtain ⟨hphysical, haddr⟩ := (vmmGetPhysical_translates (by decide) (by decide) hplain (by decide)
    (by decide)).mpr (.inl rfl)
  exact ⟨hphysical.trans (by decide +kernel), (haddr _ (by decide) (by decide)).trans
    (by decide +kernel)⟩

/-- **`vmm_get_physical` は page 内の offset を落とし、1 GiB page を見ず、写っていない番地に値を返す。** -/
theorem vmmGetPhysical_differs :
    mixedMachine.currentDirectory = .kernel ∧
    mixedMachine.kernelDirectory.pml4 = physToVirt mixedMachine 0x1000 ∧
    translate mixedMachine.mem 0x1000 0x123 = some 0x5123 ∧
      vmmGetPhysical mixedMachine 0x123 = 0x5000 ∧
    translate mixedMachine.mem 0x1000 0x40000000 = some 0x40000000 ∧
    vmmGetPhysical mixedMachine 0x40000000 = 0 ∧
      vmmGetPhysAddr mixedMachine .kernel 0x40000000 = 0 ∧
    translate mixedMachine.mem 0x1000 0x201000 = none ∧
    vmmGetPhysical mixedMachine 0x201000 = 0x1000 ∧
      vmmGetPhysAddr mixedMachine .kernel 0x201000 = 0x1000 := by
  decide +kernel

end Alos.Vmm
