import Alos.Pmm.Invariant

/-!
# 最も低い空きの列を取る割り当て

`pmm_alloc_blocks` は、`count` 個並んだ空き block のうち最も低いものを取る。二つ以上は bit ごとに、
一つは byte ごとに探すので、二つの検索を別々に調べて同じ仕様に合わせる。

* `pmmAllocBlocks_lowest` — どの実行の後でも、割り当ては最も低い列を取り、解放はそれを元に戻す
* `pmmAllocBlocks_misses_tail` — 端数の byte にだけ空きがあると、一つの割り当ては失敗する
-/

namespace Alos.Pmm

open Bytes Bitmap List Option

variable {p : State} {count b i : Nat}

/-! ## 空きの列 -/

/-- `b` から `count` 個の block が、`total` 未満にあってすべて空いている。 -/
def FreeRun (p : State) (count b : Nat) : Prop :=
  b + count ≤ p.totalBlocks ∧ ∀ k, b ≤ k → k < b + count → test p.bitmap k = false

/-- 最も低い空きの列。 -/
def LowestRun (p : State) (count b : Nat) : Prop :=
  FreeRun p count b ∧ ∀ c < b, ¬FreeRun p count c

theorem LowestRun.unique {c : Nat} (hb : LowestRun p count b)
    (hc : LowestRun p count c) : b = c := by
  rcases Nat.lt_trichotomy b c with h | h | h
  · exact absurd hb.1 (hc.2 b h)
  · exact h
  · exact absurd hc.1 (hb.2 c h)

theorem freeRun_one : FreeRun p 1 b ↔ b < p.totalBlocks ∧ test p.bitmap b = false := by
  constructor
  · intro h
    exact ⟨h.1, h.2 b (Nat.le_refl b) (Nat.lt_succ_self b)⟩
  · rintro ⟨hlt, hf⟩
    refine ⟨hlt, ?_⟩
    intro k h1 h2
    rwa [show k = b by omega]

/-! ## bit ごとの検索 -/

/-- `r` から `count` 個の bit がすべて下りている。 -/
def ClearRun (p : State) (count r : Nat) : Prop :=
  ∀ k, r ≤ k → k < r + count → bitmapTest p k = false

/--
`b` まで見て `c` 個続いているとき、`b - c` より下から始まる列はない。検索はこれを保つ。
続きが途切れるのは `b` が使用中のときで、`b - c` から `b` までに始まる列はどれも `b` を含む。
-/
theorem findSequence_lowest :
    ∀ (n b c s : Nat), c < count → (c = 0 ∨ s + c = b) → (∀ r, r + c < b → ¬ClearRun p count r) →
      (∀ found, findSequence p count (range' b n) c s = some found →
        ∀ r < found, ¬ClearRun p count r) ∧
      (findSequence p count (range' b n) c s = none → ∀ r, r + count ≤ b + n →
        ¬ClearRun p count r) := by
  intro n
  induction n with
  | zero =>
    intro b c s hlt _ hnone
    exact ⟨fun found h => absurd h (by simp [findSequence]), fun _ r hr => hnone r (by omega)⟩
  | succ n ih =>
    intro b c s hlt hc hnone
    rw [range'_succ, show b + (n + 1) = b + 1 + n by omega]
    simp only [findSequence]
    by_cases hb : bitmapTest p b = false
    · have hs : (if c = 0 then b else s) + (c + 1) = b + 1 := by split <;> omega
      simp only [if_pos hb]
      by_cases hcount : count ≤ c + 1
      · simp only [if_pos hcount, some.injEq]
        exact ⟨fun found h r hr => hnone r (by omega), fun h => absurd h (some_ne_none _)⟩
      · simp only [if_neg hcount]
        exact ih _ _ _ (by omega) (.inr hs) fun r hr => hnone r (by omega)
    · simp only [if_neg hb]
      refine ih _ 0 s (by omega) (.inl rfl) fun r hr hrun => ?_
      by_cases hbelow : r + c < b
      · exact hnone r hbelow hrun
      · exact hb (hrun b (by omega) (by omega))

theorem clearRun_iff (hc : Counted p) (hle : b + count ≤ p.totalBlocks) :
    ClearRun p count b ↔ FreeRun p count b := by
  constructor
  · intro h
    refine ⟨hle, fun k h1 h2 => ?_⟩
    rw [← bitmapTest_eq (hc.lt_max (by omega))]
    exact h k h1 h2
  · intro h k h1 h2
    rw [bitmapTest_eq (hc.lt_max (by omega))]
    exact h.2 k h1 h2

/-- bit ごとの検索は、最も低い列を返すか、列がないことを言う。 -/
theorem findSequence_spec (hc : Counted p) (h0 : 0 < count) :
    (∀ b, findSequence p count (range p.totalBlocks) 0 0 = some b → LowestRun p count b) ∧
    (findSequence p count (range p.totalBlocks) 0 0 = none → ∀ b, ¬FreeRun p count b) := by
  obtain ⟨hsome, hnone⟩ := findSequence_lowest (p := p) _ 0 0 0 h0 (.inl rfl)
    fun r hr => absurd hr (by omega)
  rw [range_eq_range']
  constructor
  · intro found hfound
    obtain ⟨hle, hrun⟩ := findSequence_some _ 0 0 0 h0 (.inl rfl)
      (fun k hk => absurd hk (by omega)) hfound
    refine ⟨(clearRun_iff hc (by omega)).mp hrun, fun c hlt hfree => hsome _ hfound c hlt ?_⟩
    exact (clearRun_iff hc hfree.1).mpr hfree
  · intro hn b hfree
    exact hnone hn b (by have := hfree.1; omega) ((clearRun_iff hc hfree.1).mpr hfree)

/-! ## byte ごとの検索 -/

theorem findSome?_range_some {f : Nat → Option Nat} {n : Nat}
    (h : (range n).findSome? f = some b) : ∃ i < n, f i = some b ∧ ∀ j < i, f j = none := by
  induction n with
  | zero => simp at h
  | succ n ih =>
    rw [range_succ, findSome?_append, or_eq_some_iff] at h
    rcases h with h | ⟨hnone, h⟩
    · obtain ⟨i, hi, hfi, hbelow⟩ := ih h
      exact ⟨i, by omega, hfi, hbelow⟩
    · rw [findSome?_singleton] at h
      refine ⟨n, Nat.lt_succ_self n, h, fun j hj => ?_⟩
      exact findSome?_eq_none_iff.mp hnone j (mem_range.mpr hj)

/-- byte `i` の bit `j` を見る。 -/
def freeBit (p : State) (i j : Nat) : Option Nat :=
  if p.bitmap i &&& (1 <<< UInt8.ofNat j) == 0 then
    if i * 8 + j < p.totalBlocks then some (i * 8 + j) else none
  else none

/-- byte `i` の中を下から見る。 -/
def freeInByte (p : State) (i : Nat) : Option Nat :=
  if p.bitmap i != 0xFF then (List.range 8).findSome? (freeBit p i) else none

section

variable (hi : i * 8 + 8 ≤ p.totalBlocks)
include hi

theorem freeBit_eq {j : Nat} (hj : j < 8) :
    freeBit p i j = if test p.bitmap (i * 8 + j) = false then some (i * 8 + j) else none := by
  have hmask : (p.bitmap i &&& (1 <<< UInt8.ofNat j) == 0) = !test p.bitmap (i * 8 + j) := by
    rw [test_byte _ _ hj, ← byte_mask _ hj, bne, Bool.not_not]
  unfold freeBit
  rw [hmask, if_pos (show i * 8 + j < p.totalBlocks by omega)]
  simp only [Bool.not_eq_true']

theorem freeInByte_some (h : freeInByte p i = some b) : i * 8 ≤ b ∧ b < i * 8 + 8 ∧
    test p.bitmap b = false ∧
      ∀ k, i * 8 ≤ k → k < b → test p.bitmap k = true := by
  obtain ⟨-, hscan⟩ := ite_none_right_eq_some.mp h
  obtain ⟨j, hj, hfj, hbelow⟩ := findSome?_range_some hscan
  rw [freeBit_eq hi hj, ite_none_right_eq_some, some.injEq] at hfj
  obtain ⟨hfree, rfl⟩ := hfj
  refine ⟨by omega, by omega, hfree, fun k h1 h2 => ?_⟩
  have hk := hbelow (k - i * 8) (by omega)
  rw [freeBit_eq hi (by omega), show i * 8 + (k - i * 8) = k by omega] at hk
  simpa using hk

theorem freeInByte_none (h : freeInByte p i = none) {k : Nat} (h1 : i * 8 ≤ k)
    (h2 : k < i * 8 + 8) :
    test p.bitmap k = true := by
  have hk : i * 8 + (k - i * 8) = k := by omega
  unfold freeInByte at h
  split at h
  · have hbit := findSome?_eq_none_iff.mp h (k - i * 8) (mem_range.mpr (by omega))
    rw [freeBit_eq hi (by omega), hk] at hbit
    simpa using hbit
  · rename_i hfull
    rw [bne_iff_ne, not_not] at hfull
    have hbit := byte_eq_max_iff.mp hfull (k - i * 8) (by omega)
    rwa [← test_byte _ _ (by omega), hk] at hbit

end

theorem pmmFindFirstFree_eq (hc : Counted p) :
    pmmFindFirstFree p = (range (p.totalBlocks / 8)).findSome? (freeInByte p) := by
  have hm : pmmMaxBlocks = 2 ^ 20 := rfl
  have hs : pmmBitmapSize = 2 ^ 17 := rfl
  have hle := hc.total_le
  have hbytes : (if pmmBitmapSize < p.totalBlocks / 8 then pmmBitmapSize else p.totalBlocks / 8)
      = p.totalBlocks / 8 := if_neg (by omega)
  unfold pmmFindFirstFree
  simp only [hbytes]
  rfl

/-- byte ごとの検索は、端数の byte を除いて最も低い空きを返す。 -/
theorem pmmFindFirstFree_lowest (hc : Counted p) :
    (∀ b, pmmFindFirstFree p = some b → b < p.totalBlocks / 8 * 8 ∧ test p.bitmap b = false ∧
      ∀ k < b, test p.bitmap k = true) ∧
    (pmmFindFirstFree p = none → ∀ k < p.totalBlocks / 8 * 8, test p.bitmap k = true) := by
  rw [pmmFindFirstFree_eq hc]
  constructor
  · intro b hb
    obtain ⟨i, hi, hfi, hbelow⟩ := findSome?_range_some hb
    obtain ⟨h1, h2, hfree, hlow⟩ := freeInByte_some (by omega) hfi
    refine ⟨by omega, hfree, fun k hk => ?_⟩
    by_cases hki : i * 8 ≤ k
    · exact hlow k hki hk
    · exact freeInByte_none (by omega) (hbelow (k / 8) (by omega)) (by omega) (by omega)
  · intro hnone k hk
    have hbyte := findSome?_eq_none_iff.mp hnone (k / 8) (mem_range.mpr (by omega))
    exact freeInByte_none (by omega) hbyte (by omega) (by omega)

/-! ## 割り当て -/

/-- 空きがあるなら、端数の byte の外にもある。`total` が 8 の倍数なら必ず成り立つ。 -/
def TailNotAlone (p : State) : Prop :=
  (∃ b < p.totalBlocks, test p.bitmap b = false) → ∃ b < p.totalBlocks / 8 * 8,
    test p.bitmap b = false

theorem used_lt_of_free (hc : Counted p) (hb : b < p.totalBlocks)
    (hf : test p.bitmap b = false) : p.usedBlocks < p.totalBlocks := by
  have hset := ones_set hb hf
  have hle := ones_le (Bitmap.set p.bitmap b) p.totalBlocks
  rw [hc.used_eq]
  omega

/-- 一つの割り当て。 -/
theorem pmmAllocBlock_lowest (hc : Counted p) (htail : TailNotAlone p) :
    (∃ b, LowestRun p 1 b ∧ pmmAllocBlock p = (blockPtr p b, incUsed (bitmapSet p b))) ∨
    (∀ b, ¬FreeRun p 1 b) ∧ pmmAllocBlock p = (0, p) := by
  obtain ⟨hsome, hnone⟩ := pmmFindFirstFree_lowest hc
  unfold pmmAllocBlock
  split
  · refine .inr ⟨fun b hb => ?_, rfl⟩
    obtain ⟨hlt, hf⟩ := freeRun_one.mp hb
    have := used_lt_of_free hc hlt hf
    omega
  · split
    · rename_i hn
      refine .inr ⟨fun b hb => ?_, rfl⟩
      obtain ⟨c, hlt, hf⟩ := htail ⟨b, freeRun_one.mp hb⟩
      exact absurd hf (by rw [hnone hn c hlt]; decide)
    · rename_i b hb
      obtain ⟨hlt, hf, hbelow⟩ := hsome b hb
      refine .inl ⟨b, ⟨freeRun_one.mpr ⟨by omega, hf⟩, fun c hcb hrun => ?_⟩, rfl⟩
      exact absurd (freeRun_one.mp hrun).2 (by rw [hbelow c hcb]; decide)

/-- 一つの割り当てが返す block は、端数の byte の外にある。 -/
theorem tail_of_alloc (hc : Counted p) (h : (pmmAllocBlocks p 1).1 ≠ 0) :
    ∃ b < p.totalBlocks / 8 * 8, test p.bitmap b = false := by
  unfold pmmAllocBlocks pmmAllocBlock at h
  rw [if_neg (by decide), if_pos rfl] at h
  split at h
  · exact absurd rfl h
  · split at h
    · exact absurd rfl h
    · rename_i b hb
      obtain ⟨hlt, hf, -⟩ := (pmmFindFirstFree_lowest hc).1 b hb
      exact ⟨b, hlt, hf⟩

/-- 割り当ては最も低い列を取るか、列がなくて何も変えない。 -/
theorem pmmAllocBlocks_run (hc : Counted p) (h0 : 1 ≤ count)
    (htail : count = 1 → TailNotAlone p) :
    (∃ b q, LowestRun p count b ∧ pmmAllocBlocks p count = (blockPtr p b, q) ∧ Counted q ∧
      SameLayout p q ∧
      ∀ k, test q.bitmap k = (decide (b ≤ k ∧ k < b + count) || test p.bitmap k)) ∨
    (∀ b, ¬FreeRun p count b) ∧ pmmAllocBlocks p count = (0, p) := by
  unfold pmmAllocBlocks
  rw [if_neg (by omega)]
  split
  · rename_i h1
    subst h1
    rcases pmmAllocBlock_lowest hc (htail rfl) with ⟨b, hb, heq⟩ | hnone
    · obtain ⟨hlt, hf⟩ := freeRun_one.mp hb.1
      obtain ⟨hq, hs, ht⟩ := take_spec hc hlt hf
      refine .inl ⟨b, _, hb, heq, hq, hs, fun k => ?_⟩
      have hk : k = b ↔ b ≤ k ∧ k < b + 1 := by omega
      rw [ht]
      simp only [hk]
    · exact .inr hnone
  · rename_i h1
    obtain ⟨hsome, hnone⟩ := findSequence_spec hc (show 0 < count by omega)
    have heq : pmmFindFirstFreeSequence p count =
        findSequence p count (range p.totalBlocks) 0 0 := by
      unfold pmmFindFirstFreeSequence
      rw [if_neg (by omega), if_neg h1]
    rw [heq]
    split
    · rename_i hn
      exact .inr ⟨hnone hn, rfl⟩
    · rename_i b hb
      have hlow := hsome b hb
      obtain ⟨hq, hs, ht⟩ := takeLoop_spec hc _ hlow.1.1 hlow.1.2
      exact .inl ⟨b, _, hlow, rfl, hq, hs, ht⟩

/-- 取った列を返すと、bitmap も数も元に戻る。 -/
theorem pmmFreeBlocks_restores {q : State} (hp : Counted p) (hh : p.hhdmOffset < 2 ^ 64)
    (h0 : count ≠ 0) (hrun : FreeRun p count b) (hq : Counted q) (hs : SameLayout p q)
    (ht : ∀ k, test q.bitmap k = (decide (b ≤ k ∧ k < b + count) || test p.bitmap k))
    (hptr : blockPtr p b ≠ 0) :
    (pmmFreeBlocks q (blockPtr p b) count).bitmap = p.bitmap ∧
      (pmmFreeBlocks q (blockPtr p b) count).usedBlocks = p.usedBlocks := by
  have hblock : ptrBlock q (blockPtr p b) = b := by
    unfold ptrBlock
    rw [hs.hhdm_eq]
    exact ptrBlock_blockPtr hh (hp.lt_max (by have := hrun.1; omega))
  obtain ⟨hr, hs', ht'⟩ := pmmFreeBlocks_spec hq hptr h0 (by rw [hblock, hs.total_eq]; exact hrun.1)
  have hbits : (pmmFreeBlocks q (blockPtr p b) count).bitmap = p.bitmap := by
    apply ext_test
    intro k
    rw [ht', hblock, ht]
    by_cases hk : b ≤ k ∧ k < b + count
    · rw [hrun.2 k hk.1 hk.2]
      simp [hk]
    · simp [hk]
  refine ⟨hbits, ?_⟩
  rw [hr.used_eq, hp.used_eq, hbits, (hs.trans hs').total_eq]

/-! ## 実行 -/

/-- 数が合い、HHDM offset は 64 bit に収まる。 -/
structure Sane (p : State) : Prop where
  counted : Counted p
  hhdm_lt : p.hhdmOffset < 2 ^ 64

theorem Sane.same {q : State} (h : Sane p) (hc : Counted q) (hs : SameLayout p q) : Sane q :=
  ⟨hc, hs.hhdm_eq ▸ h.hhdm_lt⟩

theorem Sane.clearIfUsed (h : Sane p) (hb : b < p.totalBlocks) : Sane (clearIfUsed p b) := by
  obtain ⟨hc, hs, -⟩ := clearIfUsed_spec h.counted hb
  exact h.same hc hs

theorem Sane.alloc (h : Sane p) (count : Nat) : Sane (pmmAllocBlocks p count).2 := by
  rcases pmmAllocBlocks_cases h.counted with heq | ⟨b, q, heq, -, -, -, hc, hs, -⟩
  · rw [heq]
    exact h
  · rw [heq]
    exact h.same hc hs

/-- 何を返しても数は合う。返す前に bit を確かめるからである。 -/
theorem Sane.step {s s' : St} {op : Op} (h : Sane s.pmm) (hs : Pmm.step s op = some s') :
    Sane s'.pmm := by
  cases op with
  | allocBlock =>
    obtain rfl := some.inj hs
    exact h.alloc 1
  | allocBlocks count =>
    obtain rfl := some.inj hs
    exact h.alloc _
  | freeBlock ptr =>
    obtain rfl := some.inj hs
    simp only [pmmFreeBlock]
    split
    · exact h
    · exact h.clearIfUsed (by omega)
  | freeBlocks ptr count =>
    obtain rfl := some.inj hs
    simp only [pmmFreeBlocks]
    split
    · exact h
    · refine foldlRecOn _ _ h fun p hp i _ => ?_
      split
      · rename_i hlt
        exact hp.clearIfUsed hlt
      · exact hp

/--
**割り当ては最も低い空きの列を取り、解放はそれを元に戻す。**

初期化の後のどの実行（何を返す実行でもよい）で届いた状態でも成り立つ。ただし一つの割り当ては、
空きが端数の byte にしかないと失敗し、`NULL` になる番地の block は返しても戻らない。そのほかに外れることはない。
-/
theorem pmmAllocBlocks_lowest {memmap : Option (List MemmapEntry)} {hhdm : Nat}
    {ops : List Op} {s : St}
    (hfit : ∀ e ∈ memmap.getD [], e.Fits) (hh : hhdm < 2 ^ 64)
    (hr : Run.Reach step (fun _ _ => True) (boot memmap hhdm) ops s) {count : Nat}
      (h0 : 1 ≤ count) :
    ((∀ b, LowestRun s.pmm count b →
      let r := pmmAllocBlocks s.pmm count
      r.1 = blockPtr s.pmm b ∧
      (∀ k, test r.2.bitmap k = (decide (b ≤ k ∧ k < b + count) || test s.pmm.bitmap k)) ∧
      (pmmFreeBlocks r.2 r.1 count).bitmap = s.pmm.bitmap ∧
      (pmmFreeBlocks r.2 r.1 count).usedBlocks = s.pmm.usedBlocks) ∧
    ((pmmAllocBlocks s.pmm count).1 = 0 ↔ ∀ b, ¬FreeRun s.pmm count b) ∧
    ((pmmAllocBlocks s.pmm count).1 = 0 → (pmmAllocBlocks s.pmm count).2 = s.pmm)) ↔
    (count = 1 → TailNotAlone s.pmm) ∧ ∀ b, LowestRun s.pmm count b → blockPtr s.pmm b ≠ 0 := by
  have hboot : Sane (boot memmap hhdm).pmm := by
    obtain ⟨hc, hoff, -⟩ := @initPmmLimine_spec _ hhdm hfit
    exact ⟨hc, by rw [boot, hoff]; exact hh⟩
  have hsane : Sane _ := hr.invariant (P := fun s => Sane _) hboot fun _ _ _ h _ hs => h.step hs
  constructor
  · rintro ⟨hrun, hnull, -⟩
    refine ⟨fun h1 hex => ?_, fun b hb hptr => hnull.mp ((hrun b hb).1.trans hptr) b hb.1⟩
    obtain ⟨b, hb⟩ := hex
    subst h1
    exact tail_of_alloc hsane.counted fun h => hnull.mp h b (freeRun_one.mpr hb)
  rintro ⟨htail, hnull⟩
  rcases pmmAllocBlocks_run hsane.counted h0 htail with ⟨b, q, hb, heq, hq, hs, ht⟩ | ⟨hnone, heq⟩
  · have hptr := hnull b hb
    rw [heq]
    refine ⟨?_, ⟨fun h => absurd h hptr, fun h => absurd hb.1 (h b)⟩, fun h => absurd h hptr⟩
    intro c hlow
    obtain rfl := hlow.unique hb
    exact ⟨rfl, ht, pmmFreeBlocks_restores hsane.counted hsane.hhdm_lt
      (by omega) hb.1 hq hs ht hptr⟩
  · rw [heq]
    exact ⟨fun b hb => absurd hb.1 (hnone b), ⟨fun _ => hnone, fun _ => rfl⟩, fun _ => rfl⟩

/-- 1 MiB からの 64 KiB を持つ機械で、最初に取る二つ。 -/
theorem pmmAllocBlocks_lowest_small_machine :
    let s := boot (some [⟨0x100000, 0x10000, 0⟩]) 0xffff800000000000
    LowestRun s.pmm 2 256 ∧ (pmmAllocBlocks s.pmm 2).1 = 0xffff800000100000 ∧
      (pmmFreeBlocks (pmmAllocBlocks s.pmm 2).2 (pmmAllocBlocks s.pmm 2).1 2).usedBlocks
        = s.pmm.usedBlocks := by
  intro s
  obtain ⟨htotal, h256, h257, hoff⟩ : s.pmm.totalBlocks = 272 ∧ test s.pmm.bitmap 256 = false ∧
      test s.pmm.bitmap 257 = false ∧ s.pmm.hhdmOffset = 0xffff800000000000 := by decide +kernel
  have hlow : LowestRun s.pmm 2 256 := by
    refine ⟨⟨by omega, fun k h1 h2 => ?_⟩, fun c hc hrun => ?_⟩
    · obtain rfl | rfl : k = 256 ∨ k = 257 := by omega
      exacts [h256, h257]
    · have hlt : c < s.pmm.totalBlocks := by omega
      have husable := (inv_boot (by decide) (by decide)).free_usable c hlt
        (hrun.2 c (Nat.le_refl c) (by omega))
      have hge := husable.above_low
      unfold pmmBlockSize at hge
      omega
  have hptr : blockPtr s.pmm 256 = 0xffff800000100000 := by
    unfold blockPtr
    rw [hoff]
    decide
  obtain ⟨hfst, -, -, hused⟩ :=
    ((pmmAllocBlocks_lowest (by decide) (by decide) .nil (by decide)).mpr
    ⟨fun h => absurd h (by decide), fun b hb => by rw [hb.unique hlow, hptr]; decide⟩).1 256 hlow
  exact ⟨hlow, hfst.trans hptr, hused⟩

/-- **端数の byte にだけ空きがあると、一つの割り当ては失敗する。** block 256 は空いている。 -/
theorem pmmAllocBlocks_misses_tail :
    let s := boot (some [⟨0x100000, 0x1000, 0⟩]) 0xffff800000000000
    Run.Reach step (fun _ _ => True) s [] s ∧ s.pmm.totalBlocks = 257 ∧ FreeRun s.pmm 1 256 ∧
      pmmAllocBlocks s.pmm 1 = (0, s.pmm) := by
  intro s
  obtain ⟨htotal, h256, hused, hnone⟩ : s.pmm.totalBlocks = 257 ∧ test s.pmm.bitmap 256 = false ∧
      s.pmm.usedBlocks = 256 ∧ pmmFindFirstFree s.pmm = none := by decide +kernel
  refine ⟨.nil, htotal, freeRun_one.mpr ⟨by omega, h256⟩, ?_⟩
  unfold pmmAllocBlocks pmmAllocBlock
  rw [if_neg (by decide), if_pos rfl, if_neg (by omega), hnone]

end Alos.Pmm
