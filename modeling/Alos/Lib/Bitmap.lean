import Alos.Lib.Bytes
import Mathlib.Data.Nat.Bitwise
import Mathlib.Data.Nat.Count

/-!
# byte 列に置いた bitmap

bit `i` は byte `i / 8` の下から `i % 8` 番目にある。C の `|=`、`&= ~`、`>> … & 1` を
そのまま `UInt8` の演算で書き、読み書きの対応と、立っている bit の個数の変化を示す。
-/

namespace Alos.Bitmap

open Bytes

variable {j i n : Nat} {m m' : Mem}
variable {x : Nat} {p q : Nat → Prop}
variable {b : UInt8} {k : Nat}

/-! ## byte の中の bit -/

theorem shift_toNat (hj : j < 8) : (UInt8.ofNat j).toNat % 8 = j := by
  rw [UInt8.toNat_ofNat']
  omega

theorem bit_toNat (hj : j < 8) : ((1 : UInt8) <<< UInt8.ofNat j).toNat = 2 ^ j := by
  have hlt : 2 ^ j < 2 ^ 8 := Nat.pow_lt_pow_right (by decide) hj
  rw [UInt8.toNat_shiftLeft, shift_toNat hj, Nat.shiftLeft_eq]
  simp only [UInt8.toNat_one, Nat.one_mul]
  exact Nat.mod_eq_of_lt hlt

theorem byte_test (hj : j < 8) : ((b >>> UInt8.ofNat j) &&& 1 != 0) = b.toNat.testBit j := by
  have h : ((b >>> UInt8.ofNat j) &&& 1).toNat = 1 &&& (b.toNat >>> j) := by
    rw [UInt8.toNat_and, UInt8.toNat_shiftRight, shift_toNat hj, Nat.and_comm]
    rfl
  rw [Nat.testBit, ← h, Bool.eq_iff_iff, bne_iff_ne, bne_iff_ne, ne_eq, ← UInt8.toNat_inj]
  rfl

/-- shift せずに mask で読んでも同じ bit である。 -/
theorem byte_mask (b : UInt8) (hj : j < 8) :
    (b &&& (1 <<< UInt8.ofNat j) != 0) = b.toNat.testBit j := by
  have h : (b &&& (1 <<< UInt8.ofNat j)).toNat = b.toNat &&& 2 ^ j := by
    rw [UInt8.toNat_and, bit_toNat hj]
  rw [Bool.eq_iff_iff, bne_iff_ne, ne_eq, ← UInt8.toNat_inj, h, Nat.and_two_pow]
  cases b.toNat.testBit j <;> simp

theorem byte_or_testBit (hj : j < 8) :
    (b ||| (1 <<< UInt8.ofNat j)).toNat.testBit k = (decide (k = j) || b.toNat.testBit k) := by
  rw [UInt8.toNat_or, bit_toNat hj, Nat.testBit_or, Nat.testBit_two_pow, Bool.or_comm]
  simp [eq_comm]

theorem byte_andNot_testBit (hj : j < 8) (hk : k < 8) :
    (b &&& ~~~(1 <<< UInt8.ofNat j)).toNat.testBit k = (decide (k ≠ j) && b.toNat.testBit k) := by
  have hn : (~~~((1 : UInt8) <<< UInt8.ofNat j)).toNat = 2 ^ 8 - (2 ^ j + 1) := by
    have hs : UInt8.size = 256 := rfl
    rw [UInt8.toNat_not, bit_toNat hj]
    omega
  have hlt : 2 ^ j < 2 ^ 8 := Nat.pow_lt_pow_right (by decide) hj
  rw [UInt8.toNat_and, hn, Nat.testBit_and, Nat.testBit_two_pow_sub_succ hlt,
    Nat.testBit_two_pow, Bool.and_comm]
  simp [hk, eq_comm]

/-- 255 でない byte には、下りている bit がある。 -/
theorem byte_eq_max_iff : b = 0xFF ↔ ∀ j < 8, b.toNat.testBit j = true := by
  have hmax : ∀ j, (0xFF : UInt8).toNat.testBit j = decide _ := fun j =>
    Nat.testBit_two_pow_sub_one 8 j
  constructor
  · rintro rfl j hj
    rw [hmax, decide_eq_true hj]
  intro h
  rw [← UInt8.toNat_inj]
  apply Nat.eq_of_testBit_eq
  intro j
  rw [hmax]
  by_cases hj : j < 8
  · rw [h j hj, decide_eq_true hj]
  · have hle : 2 ^ 8 ≤ 2 ^ j := Nat.pow_le_pow_right (by decide) (by omega)
    rw [Nat.testBit_lt_two_pow (lt_of_lt_of_le b.toNat_lt hle), decide_eq_false hj]

/-! ## 列の中の bit -/

def test (m : Mem) (i : Nat) : Bool := (m (i / 8) >>> UInt8.ofNat (i % 8)) &&& 1 != 0

def set (m : Mem) (i : Nat) : Mem :=
  fun x => if x = i / 8 then m x ||| (1 <<< UInt8.ofNat (i % 8)) else m x

def clear (m : Mem) (i : Nat) : Mem :=
  fun x => if x = i / 8 then m x &&& ~~~(1 <<< UInt8.ofNat (i % 8)) else m x

theorem test_eq : test m i = (m (i / 8)).toNat.testBit (i % 8) :=
  byte_test (Nat.mod_lt _ (by decide))

theorem test_byte (m : Mem) (i : Nat) (hj : j < 8) :
    test m (i * 8 + j) = (m i).toNat.testBit j := by
  rw [test_eq, show (i * 8 + j) / 8 = i by omega, show (i * 8 + j) % 8 = j by omega]

theorem test_set (m : Mem) (i k : Nat) : test (set m i) k = (decide (k = i) || test m k) := by
  rw [test_eq, test_eq]
  unfold set
  by_cases hx : k / 8 = i / 8
  · have hk : k % 8 = i % 8 ↔ k = i := by omega
    rw [if_pos hx, byte_or_testBit (Nat.mod_lt _ (by decide))]
    simp only [hk]
  · have hk : k ≠ i := fun h => hx (by rw [h])
    rw [if_neg hx]
    simp [hk]

theorem test_clear (m : Mem) (i k : Nat) : test (clear m i) k = (decide (k ≠ i) && test m k) := by
  rw [test_eq, test_eq]
  unfold clear
  by_cases hx : k / 8 = i / 8
  · have hk : k % 8 = i % 8 ↔ k = i := by omega
    rw [if_pos hx, byte_andNot_testBit (Nat.mod_lt _ (by decide)) (Nat.mod_lt _ (by decide))]
    simp only [ne_eq, hk]
  · have hk : k ≠ i := fun h => hx (by rw [h])
    rw [if_neg hx]
    simp [hk]

@[simp] theorem test_set_self : test (set m i) i = true := by
  simp [test_set]

@[simp] theorem test_clear_self : test (clear m i) i = false := by
  simp [test_clear]

/-- bit がすべて同じ列は等しい。 -/
theorem ext_test (h : ∀ i, test m i = test m' i) : m = m' := by
  funext x
  rw [← UInt8.toNat_inj]
  apply Nat.eq_of_testBit_eq
  intro j
  by_cases hj : j < 8
  · rw [← test_byte m x hj, ← test_byte m' x hj, h]
  · have hle : 2 ^ 8 ≤ 2 ^ j := Nat.pow_le_pow_right (by decide) (by omega)
    rw [Nat.testBit_lt_two_pow (lt_of_lt_of_le (m x).toNat_lt hle),
      Nat.testBit_lt_two_pow (lt_of_lt_of_le (m' x).toNat_lt hle)]

/-- 立てた bit を下ろすと元に戻る。 -/
theorem clear_set (h : test m i = false) : clear (set m i) i = m := by
  apply ext_test
  intro k
  rw [test_clear, test_set]
  by_cases hk : k = i
  · subst hk
    simp [h]
  · simp [hk]

/-- 書き換えるのは bit の載っている byte だけである。 -/
theorem set_congr (h : m' x = m x) : set m' i x = set m i x := by
  unfold set
  rw [h]

theorem clear_congr (h : m' x = m x) : clear m' i x = clear m i x := by
  unfold clear
  rw [h]

theorem test_congr (h : m' (i / 8) = m (i / 8)) : test m' i = test m i := by
  unfold test
  rw [h]

/-! ## 立っている bit の個数 -/

/-- 一点だけ偽から真に変わった述語の個数は、一つ増える。 -/
theorem count_insert [DecidablePred p] [DecidablePred q]
    (hi : i < n) (hp : ¬p i) (hq : q i) (h : ∀ j, j ≠ i → (q j ↔ p j)) :
    Nat.count q n = Nat.count p n + 1 := by
  have heq : ∀ k, k ≤ i → Nat.count q k = Nat.count p k := by
    intro k hk
    induction k with
    | zero => simp
    | succ k ih =>
      have hkq := h k (by omega)
      simp only [Nat.count_succ, ih (by omega), hkq]
  induction n with
  | zero => omega
  | succ n ih =>
    by_cases hn : n = i
    · subst hn
      simp only [Nat.count_succ, heq n (Nat.le_refl n), if_pos hq, if_neg hp]
    · have hnq := h n hn
      simp only [Nat.count_succ, ih (by omega), hnq]
      omega

theorem count_congr [DecidablePred p] [DecidablePred q]
    (h : ∀ i < n, q i ↔ p i) : Nat.count q n = Nat.count p n := by
  induction n with
  | zero => simp
  | succ n ih =>
    have hn := h n (Nat.lt_succ_self n)
    simp only [Nat.count_succ, ih (fun i hi => h i (by omega)), hn]

/-- 下から `n` 個の bit のうち立っているものの個数。 -/
def ones (m : Mem) (n : Nat) : Nat := Nat.count (fun i => test m i = true) n

theorem ones_le (m : Mem) (n : Nat) : ones m n ≤ n := Nat.count_le _

theorem ones_set (hi : i < n) (h : test m i = false) : ones (set m i) n = ones m n + 1 := by
  apply count_insert hi (by simp [h]) (by simp)
  intro j hj
  simp [test_set, hj]

theorem ones_clear (hi : i < n) (h : test m i = true) : ones (clear m i) n + 1 = ones m n := by
  refine (count_insert hi (by simp) h ?_).symm
  intro j hj
  simp [test_clear, hj]

theorem ones_eq_self (h : ∀ i < n, test m i = true) : ones m n = n := by
  exact Nat.count_of_forall h

/-! ## 下りている bit の個数 -/

/-- 下から `n` 個の bit のうち下りているものの個数。 -/
def zeros (m : Mem) (n : Nat) : Nat := Nat.count (fun i => test m i = false) n

theorem zeros_le : zeros m n ≤ n := Nat.count_le _

theorem zeros_set (hi : i < n) (h : test m i = false) : zeros (set m i) n + 1 = zeros m n := by
  refine (count_insert hi (by simp) h ?_).symm
  intro j hj
  simp [test_set, hj]

theorem zeros_clear (hi : i < n) (h : test m i = true) : zeros (clear m i) n = zeros m n + 1 := by
  apply count_insert hi (by simp [h]) (by simp)
  intro j hj
  simp [test_clear, hj]

theorem zeros_congr (h : ∀ i < n, test m' i = test m i) : zeros m' n = zeros m n := by
  apply count_congr
  intro i hi
  rw [h i hi]

theorem exists_zero_of_zeros_pos (h : zeros m n ≠ 0) : ∃ i < n, test m i = false :=
  Nat.count_ne_iff_exists.mp h

end Alos.Bitmap
