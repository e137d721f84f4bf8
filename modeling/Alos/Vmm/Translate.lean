import Alos.Lib.Radix
import Alos.Vmm.Slots

/-!
# 番地の変換

x86-64 の変換を、slot の表の上の木（`Alos.Lib.Radix`）として書く。
`vmm_get_phys_addr` は同じ木を辿るが、PDPT の `PAGE_HUGE`（1 GiB page）を見ない。

* `translate` — hardware の変換
-/

namespace Alos.Vmm

open Bytes Pmm Radix

variable {l e f root e' : Nat} {s : State}

/-! ## 木 -/

/-- 深さ `l` の entry が指す table。PDPT と PD の `PAGE_HUGE` は葉である。 -/
def child (l e : Nat) : Option Nat :=
  if l < 3 ∧ hasFlag e pagePresent = true ∧ (hasFlag e pageHuge = true → l = 0) then
    some (frameOf e)
  else none

/-- 物理メモリを、frame ごとの 512 個の slot の表として見る。 -/
def tables (m : Mem) (f : Nat) (i : Fin 512) : Nat := slot m f i

/-- `virt` の、深さ `l` での添字。 -/
def pathFin (virt l : Nat) : Fin 512 := ⟨pathIndex virt l, pathIndex_lt virt l⟩

/-- `virt` の、根から深さ `l` までの道。 -/
def pathTo (virt : Nat) : Nat → List (Fin 512)
  | 0 => []
  | l + 1 => pathTo virt l ++ [pathFin virt l]

@[simp] theorem length_pathTo {virt l : Nat} : (pathTo virt l).length = l := by
  induction l with
  | zero => rfl
  | succ l ih => simp [pathTo, ih]

/-- 道の先の table。 -/
def tableAt (m : Mem) (root : Nat) (p : List (Fin 512)) : Option Nat :=
  walk child (tables m) 0 root p

/-- `f` は `root` の木の table である。 -/
def IsTable (m : Mem) (root f : Nat) : Prop := Node child (tables m) root f

theorem child_eq_some (h : child l e = some f) :
    l < 3 ∧ hasFlag e pagePresent = true ∧ (hasFlag e pageHuge = true → l = 0) ∧ f = frameOf e := by
  unfold child at h
  split at h
  · rename_i hc
    simp only [Option.some.injEq] at h
    exact ⟨hc.1, hc.2.1, hc.2.2, h.symm⟩
  · simp at h

theorem child_of_present (hl : l < 3) (hp : hasFlag e pagePresent = true)
    (hh : hasFlag e pageHuge = true → l = 0) : child l e = some (frameOf e) :=
  if_pos ⟨hl, hp, hh⟩

theorem child_of_not_present (hp : hasFlag e pagePresent = false) : child l e = none := by
  unfold child
  rw [if_neg]
  rintro ⟨-, h, -⟩
  rw [hp] at h
  simp at h

theorem tableAt_succ {m : Mem} {root virt l f : Nat} (h : tableAt m root (pathTo virt l) = some f) :
    tableAt m root (pathTo virt (l + 1)) = child l (slot m f (pathIndex virt l)) := by
  have hc := walk_concat h (pathFin virt l)
  rw [Nat.zero_add, length_pathTo] at hc
  exact hc

theorem tableAt_pred {m : Mem} {v : Nat} (h : tableAt m root (pathTo v (l + 1)) = some f) :
    ∃ g, tableAt m root (pathTo v l) = some g ∧ child l (slot m g (pathIndex v l)) = some f := by
  obtain ⟨g, hg, hc⟩ := Node.of_concat h
  rw [length_pathTo] at hc
  exact ⟨g, hg, hc⟩

theorem isFrame_of_tableAt {m : Mem} (hroot : IsFrame root)
    {p : List (Fin 512)} (h : tableAt m root p = some f) : IsFrame f := by
  rcases List.eq_nil_or_concat p with rfl | ⟨q, i, rfl⟩
  · simp only [tableAt, walk_nil, Option.some.injEq] at h
    rwa [← h]
  · rw [List.concat_eq_append] at h
    obtain ⟨g, -, hc⟩ := Node.of_concat h
    obtain ⟨-, -, -, rfl⟩ := child_eq_some hc
    exact isFrame_frameOf _

/-! ## 同じ読まれ方をする entry -/

/-- 変換にとって同じ entry。 -/
structure SameEntry (e e' : Nat) : Prop where
  present : hasFlag e' pagePresent = hasFlag e pagePresent
  huge : hasFlag e' pageHuge = hasFlag e pageHuge
  frame : frameOf e' = frameOf e

theorem SameEntry.refl : SameEntry e e := ⟨rfl, rfl, rfl⟩

theorem SameEntry.of_eq (h : e' = e) : SameEntry e e' := h ▸ .refl

theorem sameEntry_user {e flags : Nat} : SameEntry e (e ||| (flags &&& pageUser)) :=
  ⟨present_or_user, huge_or_user, frameOf_or_user⟩

theorem SameEntry.child (h : SameEntry e e') : child l e' = child l e := by
  unfold Vmm.child
  rw [h.present, h.huge, h.frame]

/-! ## 変換 -/

/-- hardware の変換。`none` は page fault である。 -/
def translate (m : Mem) (root v : Nat) : Option Nat :=
  let e4 := slot m root (pml4Index v)
  if hasFlag e4 pagePresent then
    let e3 := slot m (frameOf e4) (pdptIndex v)
    if hasFlag e3 pagePresent then
      if hasFlag e3 pageHuge then some (frameOf e3 / 2 ^ 30 * 2 ^ 30 + v % 2 ^ 30)
      else
        let e2 := slot m (frameOf e3) (pdIndex v)
        if hasFlag e2 pagePresent then
          if hasFlag e2 pageHuge then some (frameOf e2 / 2 ^ 21 * 2 ^ 21 + v % 2 ^ 21)
          else
            let e1 := slot m (frameOf e2) (ptIndex v)
            if hasFlag e1 pagePresent then some (frameOf e1 + v % pageSize) else none
        else none
    else none
  else none

/-- `v` の道で hardware が読む entry は、`m` と `m'` で同じ読まれ方をする。 -/
def SamePath (m m' : Mem) (root v : Nat) : Prop :=
  ∀ l f, l < 4 → tableAt m root (pathTo v l) = some f →
    SameEntry (slot m f (pathIndex v l)) (slot m' f (pathIndex v l))

/-! ## 段ごとの辿り方 -/

section Resolve

variable {α : Type} {next : Nat → Nat → α ⊕ Nat} {m m' : Mem} {v k : Nat} {stop : α}

/-- 深さ `l` の table `f` から `k` 段、`next` が答えを出すまで `v` の道を辿る。 -/
def resolve (next : Nat → Nat → α ⊕ Nat) (m : Mem) (v : Nat) (stop : α) : Nat → Nat → Nat → α
  | 0, _, _ => stop
  | k + 1, l, f => (next l (slot m f (pathIndex v l))).elim id (resolve next m v stop k (l + 1))

/-- 木の通りに降りるなら、根から辿った答えは、途中の table から辿った答えである。 -/
theorem resolve_of_tableAt (h : tableAt m root (pathTo v l) = some f)
    (hnext : ∀ j g g', tableAt m root (pathTo v (j + 1)) = some g' →
      child j (slot m g (pathIndex v j)) = some g' → next j (slot m g (pathIndex v j)) = .inr g') :
    resolve next m v stop (l + k) 0 root = resolve next m v stop k l f := by
  induction l generalizing f k with
  | zero =>
    cases h
    rw [Nat.zero_add]
  | succ l ih =>
    obtain ⟨g, hg, hc⟩ := tableAt_pred h
    rw [Nat.add_right_comm, Nat.add_assoc, ih hg, resolve, hnext l g f h hc, Sum.elim_inr]

theorem resolve_congr (h : tableAt m root (pathTo v l) = some f)
    (hnext : ∀ j g, j < l + k → tableAt m root (pathTo v j) = some g →
      next j (slot m' g (pathIndex v j)) = next j (slot m g (pathIndex v j)) ∧
      ∀ g', next j (slot m g (pathIndex v j)) = .inr g' →
        child j (slot m g (pathIndex v j)) = some g') :
    resolve next m' v stop k l f = resolve next m v stop k l f := by
  induction k generalizing l f with
  | zero => rfl
  | succ k ih =>
    obtain ⟨heq, hchild⟩ := hnext l f (by omega) h
    rw [resolve, resolve, heq]
    cases hn : next l _ with
    | inl a => rfl
    | inr g =>
      exact ih ((tableAt_succ h).trans (hchild g hn)) fun j g' hj => hnext j g' (by omega)

end Resolve

/-- hardware の一段。 -/
def hardware (v l e : Nat) : Option Nat ⊕ Nat :=
  if hasFlag e pagePresent then
    if l = 3 then .inl (some (frameOf e + v % pageSize))
    else if l ≠ 0 ∧ hasFlag e pageHuge then
      .inl (some (frameOf e / 2 ^ (39 - 9 * l) * 2 ^ (39 - 9 * l) + v % 2 ^ (39 - 9 * l)))
    else .inr (frameOf e)
  else .inl none

theorem translate_eq {m : Mem} {root v : Nat} :
    translate m root v = resolve (hardware v) m v none 4 0 root := by
  simp only [translate, resolve, hardware, pathIndex]
  split_ifs <;> simp_all

/-- 辿れる番地の変換は、その table から下で決まる。 -/
theorem translate_at {m : Mem} {v k : Nat} (h : tableAt m root (pathTo v l) = some f)
    (hl : l + k = 4) :
    translate m root v = resolve (hardware v) m v none k l f := by
  rw [translate_eq, ← hl]
  refine resolve_of_tableAt h fun j g g' _ hc => ?_
  obtain ⟨hj, hp, hh, rfl⟩ := child_eq_some hc
  rw [hardware, if_pos hp, if_neg (by omega), if_neg fun hc => hc.1 (hh hc.2)]

/-- 道の途中に present でない entry があれば、変換はない。 -/
theorem translate_eq_none {m : Mem} {v : Nat} (hl : l < 4)
    (h : tableAt m root (pathTo v l) = some f)
    (hp : hasFlag (slot m f (pathIndex v l)) pagePresent = false) : translate m root v = none := by
  rw [translate_at h (show l + (3 - l + 1) = 4 by omega), resolve, hardware, if_neg (by simp [hp])]
  rfl

theorem translate_congr {m m' : Mem} {v : Nat} (h : SamePath m m' root v) :
    translate m' root v = translate m root v := by
  rw [translate_eq, translate_eq]
  refine resolve_congr rfl fun j g hj hg => ⟨?_, fun g' hn => ?_⟩
  · have he := h j g (by omega) hg
    simp only [hardware, he.present, he.huge, he.frame]
  · unfold hardware at hn
    split_ifs at hn with hp h3 hh
    cases hn
    exact child_of_present (by omega) hp fun hc => by_contra fun h0 => hh ⟨h0, hc⟩

/-- PT まで辿れる番地の変換は、PT の entry で決まる。 -/
theorem translate_of_tableAt {m : Mem} {v : Nat} (h : tableAt m root (pathTo v 3) = some f) :
    translate m root v = if hasFlag (slot m f (ptIndex v)) pagePresent then
      some (frameOf (slot m f (ptIndex v)) + v % pageSize) else none := by
  rw [translate_at h (show 3 + 1 = 4 from rfl)]
  simp only [resolve, hardware, pathIndex, if_true]
  split <;> rfl

/-! ## `vmm_get_phys_addr` -/

/-- `get_table` の NULL 検査を通る entry。 -/
def passes (s : State) (e : Nat) : Bool :=
  hasFlag e pagePresent && physToVirt s (frameOf e) != 0

/-- `vmm_get_phys_addr` を slot の上で書いたもの。PDPT の `PAGE_HUGE` は見ない。 -/
def lookup (s : State) (root v : Nat) : Nat :=
  let e4 := slot s.mem root (pml4Index v)
  if passes s e4 then
    let e3 := slot s.mem (frameOf e4) (pdptIndex v)
    if passes s e3 then
      let e2 := slot s.mem (frameOf e3) (pdIndex v)
      if hasFlag e2 pageHuge then (frameOf e2 + (pageAlignDown v &&& 0x1FFFFF)) % 2 ^ 64
      else if passes s e2 then
        let e1 := slot s.mem (frameOf e2) (ptIndex v)
        if hasFlag e1 pagePresent then frameOf e1 else 0
      else 0
    else 0
  else 0

theorem getTable_phys (hs : s.hhdmOffset < 2 ^ 64) {i : Nat} (hf : IsFrame f) (hi : i < 512) :
    getTable s (physToVirt s f) i =
      if passes s (slot s.mem f i) then physToVirt s (frameOf (slot s.mem f i)) else 0 := by
  unfold getTable passes
  rw [readEntry_phys hs hf hi]
  by_cases hp : hasFlag (slot s.mem f i) pagePresent = true
  · by_cases h0 : physToVirt s (frameOf (slot s.mem f i)) = 0 <;> simp [hp, h0]
  · simp [hp]

theorem getTable_eq_zero (hs : s.hhdmOffset < 2 ^ 64) {i : Nat} (hf : IsFrame f) (hi : i < 512) :
    getTable s (physToVirt s f) i = 0 ↔ passes s (slot s.mem f i) = false := by
  rw [getTable_phys hs hf hi]
  cases h : passes s _ with
  | false => simp
  | true =>
    unfold passes at h
    simp only [Bool.and_eq_true, bne_iff_ne] at h
    simp [h.2]

theorem vmmGetPhysAddr_eq (hs : s.hhdmOffset < 2 ^ 64) {dir : Dir} (hd : dir ≠ .null)
    (hroot : IsFrame root) (hpml4 : (readDir s dir).pml4 = physToVirt s root)
    (v : Nat) : vmmGetPhysAddr s dir v = lookup s root v := by
  unfold vmmGetPhysAddr lookup
  rw [if_neg hd]
  simp only [pml4Index_alignDown, pdptIndex_alignDown, pdIndex_alignDown, ptIndex_alignDown, hpml4]
  simp only [getTable_eq_zero hs hroot (pml4Index_lt v)]
  by_cases p4 : passes s (slot s.mem root (pml4Index v)) = true
  · have f3 := isFrame_frameOf (slot s.mem root (pml4Index v))
    rw [if_neg (by simp [p4]), if_pos p4, getTable_phys hs hroot (pml4Index_lt v), if_pos p4]
    simp only [getTable_eq_zero hs f3 (pdptIndex_lt v)]
    by_cases p3 : passes s (slot s.mem (frameOf (slot s.mem root (pml4Index v))) (pdptIndex v))
        = true
    · have f2 := isFrame_frameOf
        (slot s.mem (frameOf (slot s.mem root (pml4Index v))) (pdptIndex v))
      rw [if_neg (by simp [p3]), getTable_phys hs f3 (pdptIndex_lt v), if_pos p3,
        readEntry_phys hs f2 (pdIndex_lt v)]
      split
      · rfl
      simp only [getTable_eq_zero hs f2 (pdIndex_lt v)]
      split
      · rename_i h
        rw [if_neg (by simp [h])]
      · rename_i h
        rw [Bool.not_eq_false] at h
        rw [if_pos h, getTable_phys hs f2 (pdIndex_lt v), if_pos h,
          readEntry_phys hs (isFrame_frameOf _) (ptIndex_lt v)]
    · rw [Bool.not_eq_true] at p3
      rw [if_pos p3, if_neg (by simp [p3])]
  · rw [Bool.not_eq_true] at p4
    rw [if_pos p4, if_neg (by simp [p4])]

/-- `v` の道に 1 GiB page がない。 -/
def NoGiant (m : Mem) (root v : Nat) : Prop :=
  ∀ f, tableAt m root (pathTo v 1) = some f → hasFlag (slot m f (pdptIndex v)) pagePresent = true →
    hasFlag (slot m f (pdptIndex v)) pageHuge = false

theorem SameEntry.passes (h : SameEntry e e') {s' : State}
    (hh : s'.hhdmOffset = s.hhdmOffset) : passes s' e' = passes s e := by
  unfold Vmm.passes
  rw [h.present, h.frame, physToVirt_congr hh]

theorem present_of_passes (h : passes s e = true) : hasFlag e pagePresent = true := by
  unfold passes at h
  simp only [Bool.and_eq_true] at h
  exact h.1

theorem passes_of_present (hp : hasFlag e pagePresent = true)
    (h0 : physToVirt s (frameOf e) ≠ 0) : passes s e = true := by
  unfold passes
  simp [hp, h0]

theorem passes_of_not_present (hp : hasFlag e pagePresent = false) : passes s e = false := by
  unfold passes
  simp [hp]

/-- `vmm_get_phys_addr` の一段。 -/
def software (s : State) (v l e : Nat) : Nat ⊕ Nat :=
  if l = 3 then .inl (if hasFlag e pagePresent then frameOf e else 0)
  else if l = 2 ∧ hasFlag e pageHuge then .inl
    ((frameOf e + (pageAlignDown v &&& 0x1FFFFF)) % 2 ^ 64)
  else if passes s e then .inr (frameOf e) else .inl 0

theorem lookup_eq {root v : Nat} : lookup s root v = resolve (software s v) s.mem v 0 4 0 root := by
  simp only [lookup, resolve, software, pathIndex]
  split_ifs <;> simp_all

theorem lookup_at {v k : Nat} (hadr : ∀ g, IsTable s.mem root g → physToVirt s g ≠ 0)
    (h : tableAt s.mem root (pathTo v l) = some f) (hl : l + k = 4) :
    lookup s root v = resolve (software s v) s.mem v 0 k l f := by
  rw [lookup_eq, ← hl]
  refine resolve_of_tableAt h fun j g g' hg' hc => ?_
  obtain ⟨hj, hp, hh, rfl⟩ := child_eq_some hc
  rw [software, if_neg (by omega), if_neg fun hc => absurd (hh hc.2) (by omega),
    if_pos (passes_of_present hp (hadr _ ⟨_, hg'⟩))]

theorem lookup_eq_zero {v : Nat} (hl : l < 4) (h : tableAt s.mem root (pathTo v l) = some f)
    (hadr : ∀ g, IsTable s.mem root g → physToVirt s g ≠ 0)
    (hp : hasFlag (slot s.mem f (pathIndex v l)) pagePresent = false)
    (hh : l = 2 → hasFlag (slot s.mem f (pathIndex v l)) pageHuge = false) :
    lookup s root v = 0 := by
  rw [lookup_at hadr h (show l + (3 - l + 1) = 4 by omega), resolve, software]
  by_cases h3 : l = 3
  · simp [h3, show hasFlag _ _ = false from h3 ▸ hp]
  · rw [if_neg h3, if_neg fun hc => by simp [hh hc.1] at hc,
      if_neg (by simp [passes_of_not_present hp])]
    rfl

theorem lookup_of_tableAt {v : Nat} (hadr : ∀ g, IsTable s.mem root g → physToVirt s g ≠ 0)
    (h : tableAt s.mem root (pathTo v 3) = some f) :
    lookup s root v = if hasFlag (slot s.mem f (ptIndex v)) pagePresent then
      frameOf (slot s.mem f (ptIndex v)) else 0 :=
  lookup_at hadr h (show 3 + 1 = 4 from rfl)

theorem lookup_congr (s s' : State) {v : Nat} (hh : s'.hhdmOffset = s.hhdmOffset)
    (h : SamePath s.mem s'.mem root v) (hg : NoGiant s.mem root v) :
    lookup s' root v = lookup s root v := by
  have hsoft : software s' v = software s v := by
    funext l e
    simp only [software, SameEntry.refl.passes hh]
  rw [lookup_eq, lookup_eq, hsoft]
  refine resolve_congr rfl fun j g hj htab => ⟨?_, fun g' hn => ?_⟩
  · have he := h j g (by omega) htab
    simp only [software, he.present, he.huge, he.frame, he.passes rfl]
  unfold software at hn
  split_ifs at hn with h3 h2 hp
  cases hn
  have hp' := present_of_passes hp
  refine child_of_present (by omega) hp' fun hc => by_contra fun h0 => ?_
  obtain rfl | rfl : j = 1 ∨ j = 2 := by omega
  · simp [show hasFlag (slot _ g (pathIndex v 1)) _ = false from hg g htab hp'] at hc
  · exact h2 ⟨rfl, hc⟩

end Alos.Vmm
