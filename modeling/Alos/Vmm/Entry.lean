import Mathlib.Data.Nat.Bitwise
import Mathlib.Tactic.Common

/-!
# page table の entry（`mm/vmm.h`）

entry は 64 bit の整数で、flag と frame の番地を一つの語に詰めたものである。
ここでは `vmm.h` の定数と macro を写し、flag の読み書きが互いを壊さないことを示す。
-/

namespace Alos.Vmm

variable {f k phys : Nat}
variable {e b flags : Nat}

/-! ## 定数 -/

def pageSize : Nat := 4096

def pagePresent : Nat := 1 <<< 0

def pageRw : Nat := 1 <<< 1

def pageUser : Nat := 1 <<< 2

def pageHuge : Nat := 1 <<< 7

def pageNx : Nat := 1 <<< 63

/-- `PAGE_FRAME_MASK`。bit 12–51。 -/
def pageFrameMask : Nat := 0x000FFFFFFFFFF000

def pml4Index (vaddr : Nat) : Nat := (vaddr >>> 39) &&& 0x1FF

def pdptIndex (vaddr : Nat) : Nat := (vaddr >>> 30) &&& 0x1FF

def pdIndex (vaddr : Nat) : Nat := (vaddr >>> 21) &&& 0x1FF

def ptIndex (vaddr : Nat) : Nat := (vaddr >>> 12) &&& 0x1FF

def pageAlignDown (addr : Nat) : Nat := addr / pageSize * pageSize

/-- `entry & flag` が 0 でない。 -/
def hasFlag (e flag : Nat) : Bool := e &&& flag != 0

def frameOf (e : Nat) : Nat := e &&& pageFrameMask

/-- frame の番地。4 KiB に揃い、`PAGE_FRAME_MASK` に収まる。 -/
def IsFrame (f : Nat) : Prop := f % pageSize = 0 ∧ f < 2 ^ 52
  deriving Decidable

/-! ## index -/

theorem and_lt_512 {n : Nat} : n &&& 0x1FF < 512 :=
  Nat.lt_of_le_of_lt Nat.and_le_right (by decide)

theorem pml4Index_lt (v : Nat) : pml4Index v < 512 := and_lt_512

theorem pdptIndex_lt (v : Nat) : pdptIndex v < 512 := and_lt_512

theorem pdIndex_lt (v : Nat) : pdIndex v < 512 := and_lt_512

theorem ptIndex_lt (v : Nat) : ptIndex v < 512 := and_lt_512

theorem shiftRight_alignDown {v k : Nat} (hk : 12 ≤ k) : pageAlignDown v >>> k = v >>> k := by
  obtain ⟨j, rfl⟩ := Nat.exists_eq_add_of_le hk
  rw [Nat.shiftRight_eq_div_pow, Nat.shiftRight_eq_div_pow, Nat.pow_add, ← Nat.div_div_eq_div_mul,
    ← Nat.div_div_eq_div_mul]
  unfold pageAlignDown pageSize
  rw [Nat.mul_div_cancel _ (by decide)]

@[simp] theorem pml4Index_alignDown (v : Nat) : pml4Index (pageAlignDown v) = pml4Index v := by
  rw [pml4Index, shiftRight_alignDown (by decide), pml4Index]

@[simp] theorem pdptIndex_alignDown (v : Nat) : pdptIndex (pageAlignDown v) = pdptIndex v := by
  rw [pdptIndex, shiftRight_alignDown (by decide), pdptIndex]

@[simp] theorem pdIndex_alignDown (v : Nat) : pdIndex (pageAlignDown v) = pdIndex v := by
  rw [pdIndex, shiftRight_alignDown (by decide), pdIndex]

@[simp] theorem ptIndex_alignDown (v : Nat) : ptIndex (pageAlignDown v) = ptIndex v := by
  rw [ptIndex, shiftRight_alignDown (by decide), ptIndex]

/-! ## flag -/

theorem hasFlag_two_pow (e k : Nat) : hasFlag e (1 <<< k) = e.testBit k := by
  unfold hasFlag
  rw [Nat.one_shiftLeft, Nat.and_two_pow]
  cases e.testBit k <;> simp

@[simp] theorem hasFlag_zero (flag : Nat) : hasFlag 0 flag = false := by
  simp [hasFlag]

theorem hasFlag_or (a b k : Nat) :
    hasFlag (a ||| b) (1 <<< k) = (hasFlag a (1 <<< k) || hasFlag b (1 <<< k)) := by
  simp only [hasFlag_two_pow, Nat.testBit_or]

/-! ## frame -/

theorem testBit_frameMask : pageFrameMask.testBit k = decide (12 ≤ k ∧ k < 52) := by
  have hm : pageFrameMask = (2 ^ 40 - 1) <<< 12 := rfl
  rw [hm, Nat.testBit_shiftLeft, Nat.testBit_two_pow_sub_one, ← Bool.decide_and]
  have : (k ≥ 12 ∧ k - 12 < 40) ↔ (12 ≤ k ∧ k < 52) := by omega
  simp only [this]

theorem frameOf_eq : frameOf e = e / 2 ^ 12 % 2 ^ 40 * 2 ^ 12 := by
  apply Nat.eq_of_testBit_eq
  intro k
  rw [frameOf, Nat.testBit_and, testBit_frameMask, Nat.testBit_mul_two_pow, Nat.testBit_mod_two_pow,
    Nat.testBit_div_two_pow]
  by_cases h : 12 ≤ k
  · have h1 : k - 12 + 12 = k := by omega
    have h2 : k - 12 < 40 ↔ k < 52 := by omega
    simp [h, h1, h2, Bool.and_comm]
  · simp [h]

theorem isFrame_frameOf (e : Nat) : IsFrame (frameOf e) := by
  rw [frameOf_eq]
  unfold IsFrame pageSize
  omega

theorem frameOf_self (h : IsFrame f) : frameOf f = f := by
  rw [frameOf_eq]
  unfold IsFrame pageSize at h
  omega

theorem frameOf_small (h : e < pageSize) : frameOf e = 0 := by
  rw [frameOf_eq]
  unfold pageSize at h
  omega

theorem frameOf_or {a : Nat} : frameOf (a ||| b) = frameOf a ||| frameOf b :=
  Nat.and_or_distrib_right ..

/-- 12 bit に収まる flag を足しても、frame は変わらない。 -/
theorem frameOf_or_small (h : b < pageSize) :
    frameOf (e ||| b) = frameOf e := by
  rw [frameOf_or, frameOf_small h, Nat.or_zero]

theorem testBit_isFrame (h : IsFrame f) (hk : k < 12) : f.testBit k = false := by
  rw [← frameOf_self h, frameOf, Nat.testBit_and, testBit_frameMask]
  have : ¬(12 ≤ k ∧ k < 52) := by omega
  simp [this]

/-! ## 組み立てた entry -/

/-- `get_or_create_table` が新しい table を指すために書く entry。 -/
def tableEntry (phys flags : Nat) : Nat :=
  phys ||| pagePresent ||| pageRw ||| (flags &&& pageUser)

theorem user_lt : flags &&& pageUser < pageSize :=
  Nat.lt_of_le_of_lt Nat.and_le_right (by decide)

theorem hasFlag_user_of_ne (hk : k ≠ 2) : hasFlag (flags &&& pageUser) (1 <<< k) = false := by
  rw [hasFlag_two_pow, pageUser, Nat.one_shiftLeft, Nat.testBit_and, Nat.testBit_two_pow]
  simp [Ne.symm hk]

theorem frameOf_tableEntry (h : IsFrame phys) (flags : Nat) :
    frameOf (tableEntry phys flags) = phys := by
  unfold tableEntry
  rw [frameOf_or_small user_lt, frameOf_or_small (by decide),
    frameOf_or_small (by decide), frameOf_self h]

theorem present_tableEntry (phys flags : Nat) :
    hasFlag (tableEntry phys flags) pagePresent = true := by
  simp only [tableEntry, pagePresent, hasFlag_or]
  rw [hasFlag_two_pow (1 <<< 0) 0]
  simp

theorem huge_tableEntry (h : IsFrame phys) (flags : Nat) :
    hasFlag (tableEntry phys flags) pageHuge = false := by
  simp only [tableEntry, pageHuge, hasFlag_or]
  rw [hasFlag_user_of_ne (by decide), hasFlag_two_pow, testBit_isFrame h (by decide)]
  decide

@[simp] theorem frameOf_or_user :
    frameOf (e ||| (flags &&& pageUser)) = frameOf e :=
  frameOf_or_small user_lt

@[simp] theorem present_or_user :
    hasFlag (e ||| (flags &&& pageUser)) pagePresent = hasFlag e pagePresent := by
  rw [pagePresent, hasFlag_or, hasFlag_user_of_ne (by decide), Bool.or_false]

@[simp] theorem huge_or_user :
    hasFlag (e ||| (flags &&& pageUser)) pageHuge = hasFlag e pageHuge := by
  rw [pageHuge, hasFlag_or, hasFlag_user_of_ne (by decide), Bool.or_false]

end Alos.Vmm
