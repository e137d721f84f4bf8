import Alos.Pmm.Invariant

/-!
# 初期化の後の空き

`init_pmm_limine` は entry を一つずつ切り、揃え、空きにしてから、最初の 1 MiB を使用中に戻す。
どの順に並んだ memory map でも、空きになるのはちょうど USABLE な entry にすっかり入っている 1 MiB 以上の
block である。

* `initPmmLimine_free_iff` — 初期化の後の bit
-/

namespace Alos.Pmm

open Bytes Bitmap List

/-- entry を順に空きにする。entry が重なっていても、一つに入っていれば空きになる。 -/
theorem freeEntries_spec {entries : List MemmapEntry} {p0 : State}
    (hfit : ∀ e ∈ entries, e.base + e.length < 2 ^ 64)
    (htot : p0.totalBlocks = min (memoryEnd entries) pmmMaxMemory / pmmBlockSize) :
    ∀ (l : List MemmapEntry) (p : State), (∀ e ∈ l, e ∈ entries) → Counted p → SameLayout p0 p →
      SameLayout p0 (l.foldl freeEntry p) ∧
      ∀ k < pmmMaxBlocks, (test (l.foldl freeEntry p).bitmap k = false ↔
        (∃ e ∈ l, InEntry e k) ∨ test p.bitmap k = false) := by
  intro l
  induction l with
  | nil =>
    intro p _ _ hs
    exact ⟨hs, fun k _ => by simp⟩
  | cons e l ih =>
    intro p hsub hc hs
    have he := hsub e mem_cons_self
    obtain ⟨hc1, hs1, hbit1⟩ := freeEntry_spec hc he (fun _ _ => hfit e he)
      (by rw [hs.total_eq, htot])
    obtain ⟨hs2, hbit2⟩ := ih _ (fun e' h => hsub e' (mem_cons_of_mem e h)) hc1 (hs.trans hs1)
    rw [foldl_cons]
    refine ⟨hs2, fun k hk => ?_⟩
    rw [hbit2 k hk, hbit1 k hk, exists_mem_cons_iff, or_assoc, or_left_comm]

/-- 領域を使用中にするループ。 -/
theorem markUsed_test {p : State} {start : Nat} {n k : Nat} (hk : k < pmmMaxBlocks) :
    test ((range n).foldl (fun p i =>
      if start + i < pmmMaxBlocks ∧ bitmapTest p (start + i) = false then
        incUsed (bitmapSet p (start + i))
      else p) p).bitmap k = (decide (start ≤ k ∧ k < start + n) || test p.bitmap k) := by
  induction n with
  | zero => simp
  | succ n ih =>
    rw [range_succ, foldl_append, foldl_cons]
    by_cases hkn : k = start + n
    · subst hkn
      rw [decide_eq_true (by omega)]
      split
      · simp [incUsed, bitmapSet, hk]
      · rename_i hno
        rw [← bitmapTest_eq hk]
        exact Bool.not_eq_false _ ▸ fun hfree => hno ⟨hk, hfree⟩
    · have hiff : (start ≤ k ∧ k < start + (n + 1)) ↔ start ≤ k ∧ k < start + n := by omega
      simp only [hiff, ← ih]
      split
      · rename_i hset
        simp [incUsed, bitmapSet, hset.1, test_set, hkn]
      · rfl

theorem pmmMarkRegionUsed_test {p : State} {base length : Nat} {k : Nat} (hk : k < pmmMaxBlocks) :
    test (pmmMarkRegionUsed p base length).bitmap k =
      (decide (base / pmmBlockSize ≤ k ∧ k < base / pmmBlockSize +
        pmmAlignUp length / pmmBlockSize) ||
        test p.bitmap k) :=
  markUsed_test hk

/--
**初期化の後に空いているのは、ちょうど USABLE な entry にすっかり入っている 1 MiB 以上の block である。**

entry は 4 GiB で切って見る。順序も重なりも問わない。
-/
theorem initPmmLimine_free_iff {memmap : Option (List MemmapEntry)} {hhdm : Nat}
    (hfit : ∀ e ∈ memmap.getD [], e.base + e.length < 2 ^ 64) :
    ∀ b < (initPmmLimine State.zero memmap hhdm).totalBlocks,
      (bitmapTest (initPmmLimine State.zero memmap hhdm) b = false ↔
        0x100000 ≤ b * pmmBlockSize ∧ ∃ e ∈ memmap.getD [], e.type = limineMemmapUsable ∧
          e.base ≤ b * pmmBlockSize ∧ (b + 1) * pmmBlockSize ≤ min
            (e.base + e.length) pmmMaxMemory) := by
  obtain ⟨hc, -, -⟩ := @initPmmLimine_spec _ hhdm fun e he _ _ => hfit e he
  intro b hb
  have hlt := hc.lt_max hb
  rw [bitmapTest_eq hlt]
  cases memmap with
  | none => exact absurd hb (Nat.not_lt_zero b)
  | some entries =>
    by_cases hne : entries = []
    · subst hne
      exact absurd hb (Nat.not_lt_zero b)
    obtain ⟨-, hbit⟩ := freeEntries_spec hfit rfl entries _ (fun _ h => h)
      (counted_allUsed entries hhdm) (.refl _)
    have hfull : test (allUsed entries hhdm).bitmap b = true := test_full hlt
    have hlow : ¬(0 / pmmBlockSize ≤ b ∧
      b < 0 / pmmBlockSize + pmmAlignUp 0x100000 / pmmBlockSize) ↔
        0x100000 ≤ b * pmmBlockSize := by
      unfold pmmAlignUp pmmBlockSize
      omega
    rw [initPmmLimine_eq hne, pmmMarkRegionUsed_test hlt, Bool.or_eq_false_iff,
      decide_eq_false_iff_not, hbit b hlt, hfull]
    simp only [hlow, Option.getD_some, InEntry, le_min_iff, end_le_max hlt, and_true, or_false,
      Bool.true_eq_false]

/-- 揃っていない entry。両端の欠けた block は使用中のままである。 -/
theorem initPmmLimine_free_iff_unaligned :
    let p := initPmmLimine State.zero (some [⟨0x101800, 0x2800, limineMemmapUsable⟩]) 0
    bitmapTest p 0x101 = true ∧ bitmapTest p 0x102 = false := by
  intro p
  have htotal : p.totalBlocks = 0x104 := by decide +kernel
  have hiff := @initPmmLimine_free_iff (some [⟨0x101800, 0x2800, limineMemmapUsable⟩]) 0 (by decide)
  constructor
  · rw [← Bool.not_eq_false, hiff _ (htotal ▸ by decide)]
    decide
  · rw [hiff _ (htotal ▸ by decide)]
    decide

end Alos.Pmm
