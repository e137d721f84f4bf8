import Mathlib.Algebra.Order.Ring.Int
import Mathlib.Tactic.Common

/-!
# 32 bit の数え

`int32_t` と `uint32_t` を一つずつ増減したときの値。端に届かなければ、整数の増減と一致する。
-/

namespace Alos.Words

theorem toInt_succ {a : Int32} (h : a.toInt < 2 ^ 31 - 1) : (a + 1).toInt = a.toInt + 1 := by
  have hlow := a.le_toInt
  rw [Int32.toInt_add, show (1 : Int32).toInt = 1 from rfl]
  exact Int.bmod_eq_of_le (by omega) (by omega)

theorem toInt_pred {a : Int32} (h : 0 < a.toInt) : (a - 1).toInt = a.toInt - 1 := by
  have hhigh := a.toInt_lt
  rw [Int32.toInt_sub, show (1 : Int32).toInt = 1 from rfl]
  exact Int.bmod_eq_of_le (by omega) (by omega)

/-- 負でない数は、符号なしに読み替えても変わらない。 -/
theorem toNat_toUInt32 {a : Int32} (h : 0 ≤ a.toInt) : (a.toUInt32.toNat : Int) = a.toInt := by
  have hcond := BitVec.toInt_eq_toNat_cond a.toBitVec
  rw [Int32.toInt_toBitVec, Int32.toNat_toBitVec] at hcond
  have hlt := a.toUInt32.toNat_lt
  split at hcond <;> omega

theorem pos_iff {a : Int32} : 0 < a ↔ 0 < a.toInt := Int32.lt_iff_toInt_lt

theorem le_zero_iff {a : Int32} : a ≤ 0 ↔ a.toInt ≤ 0 := Int32.le_iff_toInt_le

theorem eq_zero_iff {a : Int32} : a = 0 ↔ a.toInt = 0 := Int32.toInt_inj.symm

theorem eq_one_iff {a : Int32} : a = 1 ↔ a.toInt = 1 := Int32.toInt_inj.symm

theorem toNat_succ {a : UInt32} (h : a.toNat + 1 < 2 ^ 32) : (a + 1).toNat = a.toNat + 1 := by
  rw [UInt32.toNat_add, UInt32.toNat_one, Nat.mod_eq_of_lt h]

theorem toNat_pred {a : UInt32} (h : 0 < a.toNat) : (a - 1).toNat = a.toNat - 1 := by
  have hle : 1 ≤ a := UInt32.le_iff_toNat_le.mpr h
  rw [UInt32.toNat_sub_of_le _ _ hle, UInt32.toNat_one]

theorem toNat_pos {a : UInt32} : 0 < a ↔ 0 < a.toNat := UInt32.lt_iff_toNat_lt

end Alos.Words
