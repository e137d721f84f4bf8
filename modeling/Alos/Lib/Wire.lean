import Mathlib.Algebra.Order.Ring.Nat
import Mathlib.Tactic.Common

/-!
# network byte order の整数

packet の中の整数を、byte 列の big endian の表現として読み書きする。
-/

namespace Alos.Wire

/-- `v` の下位 `n` byte を上の桁から並べる。 -/
def encode : Nat → Nat → List UInt8
  | 0, _ => []
  | n + 1, v => UInt8.ofNat (v / 256 ^ n) :: encode n v

/-- 上の桁から読む。 -/
def decode (bs : List UInt8) : Nat := bs.foldl (fun v b => 256 * v + b.toNat) 0

/-- `off` byte 目からの `n` byte の整数。 -/
def field (data : List UInt8) (off n : Nat) : Nat := decode ((data.drop off).take n)

@[simp] theorem length_encode {n v : Nat} : (encode n v).length = n := by
  induction n with
  | zero => rfl
  | succ n ih => rw [encode, List.length_cons, ih]

theorem foldl_decode (bs : List UInt8) (v : Nat) :
    bs.foldl (fun v b => 256 * v + b.toNat) v = 256 ^ bs.length * v + decode bs := by
  induction bs generalizing v with
  | nil => simp [decode]
  | cons b bs ih =>
    have htail : decode (b :: bs) = 256 ^ bs.length * b.toNat + decode bs := by
      simpa [decode] using ih _
    rw [List.foldl_cons, ih, htail, List.length_cons, Nat.pow_succ, Nat.mul_add, ← Nat.mul_assoc,
      Nat.add_assoc]

theorem decode_cons {b : UInt8} {bs : List UInt8} :
    decode (b :: bs) = 256 ^ bs.length * b.toNat + decode bs := by
  rw [decode, List.foldl_cons, foldl_decode, Nat.zero_add]

theorem decode_encode {n v : Nat} : decode (encode n v) = v % 256 ^ n := by
  induction n with
  | zero => rw [Nat.pow_zero, Nat.mod_one]; rfl
  | succ n ih =>
    rw [encode, decode_cons, ih, length_encode, UInt8.toNat_ofNat', Nat.pow_succ 256,
      Nat.mod_mul, Nat.add_comm]

end Alos.Wire
