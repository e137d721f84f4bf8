import Mathlib.Algebra.Order.Ring.Nat
import Mathlib.Data.Nat.ModEq
import Mathlib.Logic.Function.Basic
import Mathlib.Tactic.Common

/-!
# 数を持つ環状の buffer

書く位置、読む位置、入っている数を持つ環状の buffer である。三つの数の間の関係は構造体の欄に持たせるので、
合わない三つ組は作れない。入っている列 `contents` を読む側から並べると、書込みは末尾に加えることに、読出しは先頭を
取ることになる。
-/

namespace Alos

open List

structure Ring (α : Type) (cap : Nat) where
  buf : Nat → α
  /-- 次に書くところ。 -/
  head : Nat
  /-- 次に読むところ。 -/
  tail : Nat
  count : Nat
  tail_lt : tail < cap
  count_le : count ≤ cap
  head_eq : head = (tail + count) % cap

namespace Ring

variable {α : Type} {cap : Nat}

/-- 中身を読む側から並べたもの。 -/
def contents (r : Ring α cap) : List α :=
  (List.range r.count).map fun i => r.buf ((r.tail + i) % cap)

@[simp] theorem length_contents (r : Ring α cap) : r.contents.length = r.count := by simp [contents]

theorem contents_congr {r r' : Ring α cap} (hbuf : r.buf = r'.buf) (htail : r.tail = r'.tail)
    (hcount : r.count = r'.count) : r.contents = r'.contents := by
  rw [contents, contents, hbuf, htail, hcount]

/-- 最後に書いたもの。 -/
theorem getLast?_contents (r : Ring α cap) (h : 0 < r.count) :
    r.contents.getLast? = some (r.buf ((r.head + cap - 1) % cap)) := by
  have hcap := r.tail_lt
  have hslot : (r.tail + (r.count - 1)) % cap = (r.head + cap - 1) % cap := by
    rw [r.head_eq, Nat.add_sub_assoc (by omega), Nat.mod_add_mod,
      show r.tail + r.count + (cap - 1) = r.tail + (r.count - 1) + cap by omega, Nat.add_mod_right]
  rw [getLast?_eq_getElem?, length_contents, contents, getElem?_map, getElem?_range (by omega),
    Option.map_some, hslot]

/-- 三つの数を零に戻す。中身の記憶は残る。 -/
def clear (r : Ring α cap) : Ring α cap where
  buf := r.buf
  head := 0
  tail := 0
  count := 0
  tail_lt := Nat.zero_lt_of_lt r.tail_lt
  count_le := Nat.zero_le _
  head_eq := (Nat.zero_mod _).symm

/-- 一つ書く。空きが無ければ何もしない。 -/
def push (r : Ring α cap) (a : α) : Ring α cap :=
  if h : r.count < cap then
    { buf := Function.update r.buf r.head a
      head := (r.head + 1) % cap
      tail := r.tail
      count := r.count + 1
      tail_lt := r.tail_lt
      count_le := h
      head_eq := by rw [r.head_eq, Nat.mod_add_mod, Nat.add_assoc] }
  else r

/-- 一つ読んだ後。 -/
def pop (r : Ring α cap) : Ring α cap :=
  if h : 0 < r.count then
    { buf := r.buf
      head := r.head
      tail := (r.tail + 1) % cap
      count := r.count - 1
      tail_lt := Nat.mod_lt _ (Nat.zero_lt_of_lt r.tail_lt)
      count_le := (Nat.sub_le _ _).trans r.count_le
      head_eq := by
        rw [r.head_eq, Nat.mod_add_mod]
        congr 1
        omega }
  else r

section

variable (r : Ring α cap) (h : r.count < cap)
include r h

/-- 入っている位置は、次に書くところと異なる。 -/
theorem slot_ne_head {i : Nat} (hi : i < r.count) : (r.tail + i) % cap ≠ r.head := by
  intro he
  rw [r.head_eq] at he
  have hmod : Nat.ModEq cap i _ := Nat.ModEq.add_left_cancel' _ he
  have heq := hmod.eq_of_lt_of_lt (by omega) h
  omega

theorem count_push {a : α} : (r.push a).count = r.count + 1 := by
  rw [push, dif_pos h]

theorem contents_push {a : α} : (r.push a).contents = r.contents ++ [a] := by
  rw [push, dif_pos h, contents, range_succ, map_append, map_singleton]
  congr 1
  · refine map_congr_left fun i hi => ?_
    exact Function.update_of_ne (r.slot_ne_head h (mem_range.mp hi)) _ _
  · dsimp only
    rw [← r.head_eq, Function.update_self]

end

theorem contents_pop (r : Ring α cap) (h : 0 < r.count) :
    r.contents = r.buf r.tail :: r.pop.contents := by
  obtain ⟨n, hn⟩ := Nat.exists_eq_add_one_of_ne_zero (Nat.ne_of_gt h)
  rw [pop, dif_pos h, contents]
  simp only [hn, Nat.add_sub_cancel]
  rw [range_succ_eq_map, map_cons, Nat.add_zero, Nat.mod_eq_of_lt r.tail_lt, map_map]
  congr 1
  refine map_congr_left fun i _ => ?_
  simp only [Function.comp, Nat.mod_add_mod]
  rw [Nat.add_assoc, Nat.add_comm 1 i]

/-! ## ループ -/

/-- 順に書き、一杯になったら止める。 -/
def store (r : Ring α cap) : List α → Ring α cap
  | [] => r
  | a :: as => if r.count < cap then (r.push a).store as else r

/-- 空きの分だけが末尾に入る。 -/
theorem contents_store {r : Ring α cap} {as : List α} :
    (r.store as).contents = r.contents ++ as.take (cap - r.count) := by
  induction as generalizing r with
  | nil => simp [store]
  | cons a as ih =>
    rw [store]
    split
    · rename_i h
      obtain ⟨room, hroom⟩ := Nat.exists_eq_add_one_of_ne_zero (Nat.sub_ne_zero_of_lt h)
      rw [ih, r.contents_push h, r.count_push h, hroom, append_assoc,
        show cap - (r.count + 1) = room by omega]
      rfl
    · rw [Nat.sub_eq_zero_of_le (by omega), take_zero, append_nil]

/-- 高々 `n` 個を順に読む。 -/
def take (r : Ring α cap) : Nat → List α × Ring α cap
  | 0 => ([], r)
  | n + 1 =>
    if 0 < r.count then
      let rest := r.pop.take n
      (r.buf r.tail :: rest.1, rest.2)
    else ([], r)

/-- 先頭から順に出て、残りが残る。 -/
theorem contents_take (r : Ring α cap) (n : Nat) :
    (r.take n).1 = r.contents.take n ∧ (r.take n).2.contents = r.contents.drop n := by
  induction n generalizing r with
  | zero => exact ⟨rfl, rfl⟩
  | succ n ih =>
    rw [take]
    split
    · rename_i h
      rw [r.contents_pop h]
      obtain ⟨htake, hdrop⟩ := ih _
      exact ⟨congrArg _ htake, hdrop⟩
    · have hnil : r.contents = [] := by
        rw [← length_eq_zero_iff, length_contents]
        omega
      rw [hnil]
      exact ⟨rfl, rfl⟩

end Ring

end Alos
