import Mathlib.Algebra.Order.Ring.Nat
import Mathlib.Tactic.Common

/-!
# byte 列のメモリ

番地から byte への関数を**メモリ**と見る。整数は little endian で置く。

ここにあるのは、どのプログラムにも依らない三つのことだけである。

* `load` / `store` — `n` byte の整数の読み書きと、その読み戻し
* `blit` — 別のメモリからの複写（`memcpy`）
* `AgreeOff` — 「ある区間の外では変わっていない」という frame の言い方
-/

namespace Alos.Bytes

/-- 番地から byte への関数。 -/
abbrev Mem := Nat → UInt8

variable {m m' dst src : Mem} {a n v x b k lo hi : Nat}

/-! ## 整数の読み書き -/

/-- 番地 `a` から始まる `n` byte を little endian の整数として読む。 -/
def load (m : Mem) (a : Nat) : Nat → Nat
  | 0 => 0
  | n + 1 => (m a).toNat + 256 * load m (a + 1) n

/-- 番地 `a` から始まる `n` byte に `v` を little endian で置く。 -/
def store (m : Mem) (a n v : Nat) : Mem :=
  fun x => if a ≤ x ∧ x < a + n then UInt8.ofNat (v / 256 ^ (x - a)) else m x

/-- `dst` の `a` から `n` byte を、`src` の `b` からの `n` byte で置き換える。 -/
def blit (dst : Mem) (a : Nat) (src : Mem) (b n : Nat) : Mem :=
  fun x => if a ≤ x ∧ x < a + n then src (b + (x - a)) else dst x

theorem load_lt (m : Mem) (a n : Nat) : load m a n < 256 ^ n := by
  induction n generalizing a with
  | zero => simp [load]
  | succ n ih =>
    have hb : (m a).toNat < 256 := UInt8.toNat_lt_size _
    have ht := ih (a + 1)
    simp only [load, Nat.pow_succ]
    omega

theorem load_congr (h : ∀ x, a ≤ x → x < a + n → m' x = m x) : load m' a n = load m a n := by
  induction n generalizing a with
  | zero => rfl
  | succ n ih =>
    simp only [load]
    rw [h a (Nat.le_refl a) (by omega), ih (fun x h1 h2 => h x (by omega) (by omega))]

theorem load_zero : load (fun _ => 0) a n = 0 := by
  induction n generalizing a with
  | zero => rfl
  | succ n ih =>
    simp only [load, ih]
    rfl

theorem store_apply_of_not (h : x < a ∨ a + n ≤ x) : store m a n v x = m x := by
  unfold store
  rw [if_neg (by omega)]

theorem store_apply_of_mem (h1 : a ≤ x) (h2 : x < a + n) :
    store m a n v x = UInt8.ofNat (v / 256 ^ (x - a)) := by
  unfold store
  rw [if_pos ⟨h1, h2⟩]

theorem load_store_of_disjoint (h : a + n ≤ b ∨ b + k ≤ a) :
    load (store m b k v) a n = load m a n :=
  load_congr fun x h1 h2 => store_apply_of_not (by omega)

/-- 置いた整数の、`i` byte 目からの `n` byte を読むと、その桁が読める。 -/
theorem load_store_digits :
    ∀ (n i : Nat), i + n ≤ k → load (store m a k v) (a + i) n = v / 256 ^ i % 256 ^ n := by
  intro n
  induction n with
  | zero => intro i _; simp [load, Nat.mod_one]
  | succ n ih =>
    intro i hi
    simp only [load]
    rw [store_apply_of_mem (by omega) (by omega), show a + i + 1 = a + (i + 1) by omega,
      ih _ (by omega)]
    rw [Nat.pow_succ, Nat.pow_succ' , ← Nat.div_div_eq_div_mul, Nat.mod_mul]
    simp

/-- 置いた整数は読み戻せる。 -/
theorem load_store_self (h : v < 256 ^ n) : load (store m a n v) a n = v := by
  have hd := load_store_digits (m := m) (a := a) (k := n) (v := v) n 0 (by omega)
  simpa [Nat.mod_eq_of_lt h] using hd

/-- 読んだ整数の `i` 桁目は、`i` byte 目である。 -/
theorem load_digit : ∀ (n a i : Nat), i < n → load m a n / 256 ^ i % 256 = (m (a + i)).toNat := by
  intro n
  induction n with
  | zero => intro a i hi; omega
  | succ n ih =>
    intro a i hi
    have hb : (m a).toNat < 256 := UInt8.toNat_lt_size _
    simp only [load]
    cases i with
    | zero => simp only [Nat.pow_zero, Nat.div_one, Nat.add_zero]; omega
    | succ i =>
      rw [Nat.pow_succ', ← Nat.div_div_eq_div_mul, Nat.add_mul_div_left _ _ (by decide),
        Nat.div_eq_of_lt hb, Nat.zero_add, ih _ i (by omega), Nat.add_right_comm,
        Nat.add_assoc]

/-- 読んだ整数を同じところに置いても、何も変わらない。 -/
theorem store_load_self : store m a n (load m a n) = m := by
  funext x
  by_cases hx : a ≤ x ∧ x < a + n
  · rw [store_apply_of_mem hx.1 hx.2, ← UInt8.toNat_inj, UInt8.toNat_ofNat',
      load_digit n a _ (by omega), show a + (x - a) = x by omega]
  · exact store_apply_of_not (by omega)

theorem store_store_self {a n v w : Nat} : store (store m a n v) a n w = store m a n w := by
  funext x
  by_cases hx : a ≤ x ∧ x < a + n
  · rw [store_apply_of_mem hx.1 hx.2, store_apply_of_mem hx.1 hx.2]
  · rw [store_apply_of_not (by omega), store_apply_of_not (by omega), store_apply_of_not (by omega)]

theorem blit_apply_of_mem (h1 : a ≤ x) (h2 : x < a + n) :
    blit dst a src b n x = src (b + (x - a)) := by
  unfold blit
  rw [if_pos ⟨h1, h2⟩]

theorem blit_apply_of_not (h : x < a ∨ a + n ≤ x) : blit dst a src b n x = dst x := by
  unfold blit
  rw [if_neg (by omega)]

/-! ## 区間の外が変わらないこと -/

/-- `[lo, hi)` の外では `m'` は `m` と同じである。 -/
def AgreeOff (m m' : Mem) (lo hi : Nat) : Prop :=
  ∀ x, x < lo ∨ hi ≤ x → m' x = m x

theorem AgreeOff.refl (lo hi : Nat) : AgreeOff m m lo hi := fun _ _ => rfl

theorem AgreeOff.trans {m'' : Mem} (h1 : AgreeOff m m' lo hi)
    (h2 : AgreeOff m' m'' lo hi) : AgreeOff m m'' lo hi :=
  fun x hx => (h2 x hx).trans (h1 x hx)

theorem AgreeOff.mono {lo' hi' : Nat} (h : AgreeOff m m' lo hi)
    (hlo : lo' ≤ lo) (hhi : hi ≤ hi') : AgreeOff m m' lo' hi' :=
  fun x hx => h x (by omega)

theorem agreeOff_store (m : Mem) (a n v : Nat) : AgreeOff m (store m a n v) a (a + n) :=
  fun _ hx => store_apply_of_not hx

end Alos.Bytes
