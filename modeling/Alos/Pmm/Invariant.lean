import Alos.Lib.Run
import Alos.Pmm.Model

/-!
# 物理メモリ管理の不変量

`pmm.c` の状態に、生きている割り当て（それぞれが持つ block の列）を添えて実行を見る。

* `reach_pmm` — 初期化からのどの実行でも、数は合い、割り当ては交わらず、
  持っている block はすべて `Usable` である
-/

namespace Alos.Pmm

open Bytes Bitmap List Option

variable {p q : State} {b count k : Nat} {e : MemmapEntry} {entries : List MemmapEntry}

/-! ## 一つの block の出し入れ -/

/-- 数えた使用中の block は、立っている bit の個数である。 -/
structure Counted (p : State) : Prop where
  total_le : p.totalBlocks ≤ pmmMaxBlocks
  used_eq : p.usedBlocks = ones p.bitmap p.totalBlocks

/-- 総数と HHDM offset は `initPmmLimine` のほかでは変わらない。 -/
structure SameLayout (p q : State) : Prop where
  total_eq : q.totalBlocks = p.totalBlocks
  hhdm_eq : q.hhdmOffset = p.hhdmOffset

theorem SameLayout.refl (p : State) : SameLayout p p := ⟨rfl, rfl⟩

theorem SameLayout.trans {r : State} (h1 : SameLayout p q) (h2 : SameLayout q r) : SameLayout p r :=
  ⟨h2.total_eq.trans h1.total_eq, h2.hhdm_eq.trans h1.hhdm_eq⟩

theorem Counted.lt_max (hc : Counted p) (hb : b < p.totalBlocks) : b < pmmMaxBlocks :=
  Nat.lt_of_lt_of_le hb hc.total_le

theorem bitmapTest_eq (hb : b < pmmMaxBlocks) : bitmapTest p b = test p.bitmap b := by
  unfold bitmapTest
  rw [if_neg (by omega)]

/-- 空いている block を取る。 -/
theorem take_spec (hc : Counted p) (hb : b < p.totalBlocks)
    (hf : test p.bitmap b = false) :
    Counted (incUsed (bitmapSet p b)) ∧ SameLayout p (incUsed (bitmapSet p b)) ∧
      ∀ k, test (incUsed (bitmapSet p b)).bitmap k = (decide (k = b) || test p.bitmap k) := by
  have hm : pmmMaxBlocks = 2 ^ 20 := rfl
  have hle := hc.total_le
  have hones := ones_set hb hf
  have hbound := ones_le (Bitmap.set p.bitmap b) p.totalBlocks
  unfold bitmapSet
  rw [if_pos (hc.lt_max hb)]
  refine ⟨⟨hle, ?_⟩, ⟨rfl, rfl⟩, test_set _ b⟩
  simp only [incUsed, hc.used_eq, hones]
  exact Nat.mod_eq_of_lt (by omega)

/-- block を返す。もともと空いていれば何も起きない。 -/
theorem clearIfUsed_spec (hc : Counted p) (hb : b < p.totalBlocks) :
    Counted (clearIfUsed p b) ∧ SameLayout p (clearIfUsed p b) ∧
      ∀ k, test (clearIfUsed p b).bitmap k = (decide (k ≠ b) && test p.bitmap k) := by
  have hm : pmmMaxBlocks = 2 ^ 20 := rfl
  have hle := hc.total_le
  have hbound := ones_le p.bitmap p.totalBlocks
  unfold clearIfUsed
  rw [bitmapTest_eq (hc.lt_max hb)]
  by_cases ht : test p.bitmap b = true
  · have hones := ones_clear hb ht
    rw [if_pos ht]
    unfold bitmapClear
    rw [if_pos (hc.lt_max hb)]
    refine ⟨⟨hle, ?_⟩, ⟨rfl, rfl⟩, test_clear _ b⟩
    simp only [decUsed, hc.used_eq]
    omega
  · rw [if_neg ht]
    refine ⟨hc, .refl p, ?_⟩
    intro k
    by_cases hk : k = b
    · subst hk
      simpa using ht
    · simp [hk]

/-! ## ループ -/

/-- 並んだ空き block を一つずつ取るループ。 -/
theorem takeLoop_spec (hc : Counted p) {start : Nat} :
    ∀ n, start + n ≤ p.totalBlocks → (∀ k, start ≤ k → k < start + n → test p.bitmap k = false) →
      let q := (range n).foldl (fun p i => incUsed (bitmapSet p (start + i))) p
      Counted q ∧ SameLayout p q ∧
        ∀ k, test q.bitmap k = (decide (start ≤ k ∧ k < start + n) || test p.bitmap k) := by
  intro n
  induction n with
  | zero =>
    intro _ _
    refine ⟨hc, .refl p, ?_⟩
    intro k
    simp
  | succ n ih =>
    intro hle hfree
    obtain ⟨hq, hs, ht⟩ := ih (by omega) (fun k h1 h2 => hfree k h1 (by omega))
    rw [range_succ, foldl_append, foldl_cons, foldl_nil]
    have hf := hfree (start + n) (by omega) (by omega)
    have hnot : ¬(start ≤ start + n ∧ start + n < start + n) := by omega
    obtain ⟨hq', hs', ht'⟩ := take_spec hq (b := start + n) (by rw [hs.total_eq]; omega)
      (by rw [ht, hf, decide_eq_false hnot]; rfl)
    refine ⟨hq', hs.trans hs', ?_⟩
    intro k
    rw [ht', ht, ← Bool.or_assoc, ← Bool.decide_or]
    have hk : (k = start + n ∨ start ≤ k ∧ k < start + n) ↔ start ≤ k ∧ k < start + (n + 1) := by
      omega
    simp only [hk]

/-- 並んだ block を一つずつ返すループ。 -/
theorem clearLoop_spec (hc : Counted p) {start : Nat} {f : State → Nat → State}
    {n : Nat} (hle : start + n ≤ p.totalBlocks)
    (hf : ∀ q i, Counted q → SameLayout p q → i < n → f q i = clearIfUsed q (start + i)) :
    let q := (range n).foldl f p
    Counted q ∧ SameLayout p q ∧
      ∀ k, test q.bitmap k = (decide (¬(start ≤ k ∧ k < start + n)) && test p.bitmap k) := by
  induction n with
  | zero =>
    refine ⟨hc, .refl p, ?_⟩
    intro k
    simp
  | succ n ih =>
    obtain ⟨hq, hs, ht⟩ := ih (by omega) (fun q i h1 h2 hi => hf q i h1 h2 (by omega))
    rw [range_succ, foldl_append, foldl_cons, foldl_nil, hf _ n hq hs (Nat.lt_succ_self n)]
    obtain ⟨hq', hs', ht'⟩ := clearIfUsed_spec hq (b := start + n) (by rw [hs.total_eq]; omega)
    refine ⟨hq', hs.trans hs', ?_⟩
    intro k
    rw [ht', ht, ← Bool.and_assoc, ← Bool.decide_and]
    have hk : (k ≠ start + n ∧ ¬(start ≤ k ∧ k < start + n)) ↔
        ¬(start ≤ k ∧ k < start + (n + 1)) := by
      omega
    simp only [hk]

/-! ## 検索 -/

theorem pmmFindFirstFree_some (h : pmmFindFirstFree p = some b) :
    b < p.totalBlocks ∧ test p.bitmap b = false := by
  obtain ⟨i, -, hi⟩ := exists_of_findSome?_eq_some h
  split at hi
  · obtain ⟨j, hj, hb⟩ := exists_of_findSome?_eq_some hi
    have hj8 : j < 8 := mem_range.mp hj
    split at hb
    · rename_i hz
      simp only [ite_none_right_eq_some, some.injEq] at hb
      obtain ⟨hlt, rfl⟩ := hb
      refine ⟨hlt, ?_⟩
      have hbit := byte_mask (p.bitmap i) hj8
      rw [beq_iff_eq] at hz
      rw [test_byte _ _ hj8, ← hbit, hz]
      rfl
    · simp at hb
  · simp at hi

/-- 見終えた `b` の直前には、空きが `c` 個続いている。 -/
theorem findSequence_some : ∀ (n b c s : Nat) {r : Nat}, c < count → (c = 0 ∨ s + c = b) →
      (∀ k, 0 < c → s ≤ k → k < b → bitmapTest p k = false) →
      findSequence p count (range' b n) c s = some r →
      r + count ≤ b + n ∧ ∀ k, r ≤ k → k < r + count → bitmapTest p k = false := by
  intro n
  induction n with
  | zero => intro b c s r _ _ _ h; simp [findSequence] at h
  | succ n ih =>
    intro b c s r hlt hc hfree h
    rw [range'_succ] at h
    simp only [findSequence] at h
    split at h
    · rename_i hb
      have hs : (if c = 0 then b else s) + (c + 1) = b + 1 := by split <;> omega
      -- ここまでの空きに `b` を加えた列
      have hrun : ∀ k, (if c = 0 then b else s) ≤ k → k < b + 1 → bitmapTest p k = false := by
        intro k h1 h2
        by_cases hkb : k = b
        · rw [hkb, hb]
        · by_cases h0 : c = 0
          · omega
          · rw [if_neg h0] at h1
            exact hfree k (by omega) h1 (by omega)
      split at h
      · simp only [some.injEq] at h
        rw [h] at hs hrun
        exact ⟨by omega, fun k h1 h2 => hrun k h1 (by omega)⟩
      · have := ih _ _ _ (by omega) (.inr hs) (fun k _ => hrun k) h
        exact ⟨by omega, this.2⟩
    · have := ih _ 0 s (by omega) (.inl rfl) (fun k h0 => absurd h0 (by omega)) h
      exact ⟨by omega, this.2⟩

theorem pmmFindFirstFreeSequence_some (hc : Counted p)
    (h : pmmFindFirstFreeSequence p count = some b) :
    b + count ≤ p.totalBlocks ∧ ∀ k, b ≤ k → k < b + count → test p.bitmap k = false := by
  unfold pmmFindFirstFreeSequence at h
  split at h
  · simp at h
  split at h
  · rename_i h1
    obtain ⟨hlt, hf⟩ := pmmFindFirstFree_some h
    subst h1
    refine ⟨hlt, ?_⟩
    intro k hk1 hk2
    rwa [show k = b by omega]
  · rw [range_eq_range'] at h
    obtain ⟨hle, hf⟩ := findSequence_some _ 0 0 0 (by omega) (.inl rfl)
      (fun k h0 => absurd h0 (by omega)) h
    refine ⟨by omega, ?_⟩
    intro k h1 h2
    rw [← bitmapTest_eq (hc.lt_max (by omega))]
    exact hf k h1 h2

/-! ## 割り当てと解放 -/

/-- block の HHDM の仮想番地。 -/
def blockPtr (p : State) (b : Nat) : Nat := (pmmBlockToAddr b + p.hhdmOffset) % 2 ^ 64

/-- 仮想番地の指す block。 -/
def ptrBlock (p : State) (ptr : Nat) : Nat :=
  pmmAddrToBlock ((ptr + 2 ^ 64 - p.hhdmOffset) % 2 ^ 64)

theorem ptrBlock_blockPtr (hh : p.hhdmOffset < 2 ^ 64)
    (hb : b < pmmMaxBlocks) : ptrBlock p (blockPtr p b) = b := by
  have hm : pmmMaxBlocks = 2 ^ 20 := rfl
  unfold ptrBlock blockPtr pmmAddrToBlock pmmBlockToAddr pmmBlockSize
  omega

theorem pmmAllocBlock_cases : pmmAllocBlock p = (0, p) ∨
    ∃ b, b < p.totalBlocks ∧ test p.bitmap b = false ∧
      pmmAllocBlock p = (blockPtr p b, incUsed (bitmapSet p b)) := by
  unfold pmmAllocBlock
  split
  · exact .inl rfl
  · split
    · exact .inl rfl
    · rename_i b hb
      obtain ⟨hlt, hf⟩ := pmmFindFirstFree_some hb
      exact .inr ⟨b, hlt, hf, rfl⟩

/-- 割り当ては、失敗して何も変えないか、並んだ空き block を取るかである。 -/
theorem pmmAllocBlocks_cases (hc : Counted p) :
    pmmAllocBlocks p count = (0, p) ∨
    ∃ b q, pmmAllocBlocks p count = (blockPtr p b, q) ∧ 0 < count ∧
      b + count ≤ p.totalBlocks ∧ (∀ k, b ≤ k → k < b + count → test p.bitmap k = false) ∧
      Counted q ∧ SameLayout p q ∧
      ∀ k, test q.bitmap k = (decide (b ≤ k ∧ k < b + count) || test p.bitmap k) := by
  unfold pmmAllocBlocks
  split
  · exact .inl rfl
  split
  · rename_i h1
    subst h1
    rcases pmmAllocBlock_cases with h | ⟨b, hlt, hf, h⟩
    · exact .inl h
    obtain ⟨hq, hs, ht⟩ := take_spec hc hlt hf
    refine .inr ⟨b, _, h, Nat.one_pos, hlt, ?_, hq, hs, ?_⟩
    · intro k h1 h2
      rwa [show k = b by omega]
    · intro k
      have hk : k = b ↔ b ≤ k ∧ k < b + 1 := by omega
      rw [ht]
      simp only [hk]
  · split
    · exact .inl rfl
    · rename_i b hb
      obtain ⟨hle, hf⟩ := pmmFindFirstFreeSequence_some hc hb
      obtain ⟨hq, hs, ht⟩ := takeLoop_spec hc _ hle hf
      exact .inr ⟨b, _, rfl, by omega, hle, hf, hq, hs, ht⟩

theorem pmmFreeBlock_spec (hc : Counted p) {ptr : Nat} (hb : ptrBlock p ptr < p.totalBlocks) :
    Counted (pmmFreeBlock p ptr) ∧ SameLayout p (pmmFreeBlock p ptr) ∧
      ∀ k, test (pmmFreeBlock p ptr).bitmap k
        = (decide (k ≠ ptrBlock p ptr) && test p.bitmap k) := by
  have he : pmmFreeBlock p ptr = clearIfUsed p (ptrBlock p ptr) := by
    exact if_neg (Nat.not_le.mpr hb)
  rw [he]
  exact clearIfUsed_spec hc hb

theorem pmmFreeBlocks_spec (hc : Counted p) {ptr : Nat} (hp : ptr ≠ 0)
    (hcount : count ≠ 0) (hb : ptrBlock p ptr + count ≤ p.totalBlocks) :
    Counted (pmmFreeBlocks p ptr count) ∧ SameLayout p (pmmFreeBlocks p ptr count) ∧
      ∀ k, test (pmmFreeBlocks p ptr count).bitmap k
        = (decide (¬(ptrBlock p ptr ≤ k ∧ k < ptrBlock p ptr + count)) && test p.bitmap k) := by
  have hm : pmmMaxBlocks = 2 ^ 20 := rfl
  have hle := hc.total_le
  unfold pmmFreeBlocks
  rw [if_neg (by simp [hp, hcount])]
  apply clearLoop_spec hc hb
  intro q i _ hs hi
  have hmod : (ptrBlock p ptr + i) % 2 ^ 64 = ptrBlock p ptr + i := Nat.mod_eq_of_lt (by omega)
  have hlt : ptrBlock p ptr + i < q.totalBlocks := by rw [hs.total_eq]; omega
  simp only [ptrBlock] at hmod hlt ⊢
  rw [hmod, if_pos hlt]

/-! ## 初期化 -/

/-- block が USABLE な entry の中にすっかり入っている。 -/
def InEntry (e : MemmapEntry) (b : Nat) : Prop :=
  e.type = limineMemmapUsable ∧ e.base ≤ b * pmmBlockSize ∧
    (b + 1) * pmmBlockSize ≤ e.base + e.length

/-- 空きにする entry の終わりは `uint64_t` に収まる。 -/
def MemmapEntry.Fits (e : MemmapEntry) : Prop :=
  e.type = limineMemmapUsable → e.base < pmmMaxMemory → e.base + e.length < 2 ^ 64
  deriving Decidable

/-- 割り当ててよい block。 -/
structure Usable (entries : List MemmapEntry) (b : Nat) : Prop where
  inEntry : ∃ e ∈ entries, InEntry e b
  above_low : 0x100000 ≤ b * pmmBlockSize
  below_max : (b + 1) * pmmBlockSize ≤ pmmMaxMemory

theorem memoryEnd_ge (he : e ∈ entries) : (e.base + e.length) % 2 ^ 64 ≤ memoryEnd entries := by
  -- 累積値は減らず、見た entry の終わりを下回らない
  have hfold : ∀ (l : List MemmapEntry) (acc : Nat), acc ≤ l.foldl (fun size entry =>
        if size < (entry.base + entry.length) % 2 ^ 64 then (entry.base + entry.length) % 2 ^ 64
        else size) acc ∧
      ∀ e ∈ l, (e.base + e.length) % 2 ^ 64 ≤ l.foldl (fun size entry =>
        if size < (entry.base + entry.length) % 2 ^ 64 then (entry.base + entry.length) % 2 ^ 64
        else size) acc := by
    intro l
    induction l with
    | nil => intro acc; simp
    | cons c l ih =>
      intro acc
      obtain ⟨h1, h2⟩ := ih (if acc < (c.base + c.length) % 2 ^ 64 then
        (c.base + c.length) % 2 ^ 64 else acc)
      refine ⟨le_trans (by split <;> omega) h1, ?_⟩
      intro e he
      rcases mem_cons.mp he with rfl | he
      · exact le_trans (by split <;> omega) h1
      · exact h2 e he
  exact (hfold _ 0).2 e he

theorem pmmMarkRegionFree_spec (hc : Counted p) {base length : Nat}
    (hle : base / pmmBlockSize + length / pmmBlockSize ≤ p.totalBlocks) :
    Counted (pmmMarkRegionFree p base length) ∧ SameLayout p (pmmMarkRegionFree p base length) ∧
      ∀ k, test (pmmMarkRegionFree p base length).bitmap k =
        (decide (¬(base / pmmBlockSize ≤ k ∧ k < base / pmmBlockSize + length / pmmBlockSize)) &&
          test p.bitmap k) := by
  apply clearLoop_spec hc hle
  intro q i hq hs hi
  have hlt : base / pmmBlockSize + i < pmmMaxBlocks := hc.lt_max (by omega)
  unfold clearIfUsed pmmAddrToBlock
  by_cases ht : bitmapTest q (base / pmmBlockSize + i) = true
  · rw [if_pos ⟨hlt, ht⟩, if_pos ht]
  · rw [if_neg (fun h => ht h.2), if_neg ht]

/-- 初期化の途中の状態。空きの bit は `total` 未満の、USABLE な entry の block だけである。 -/
structure Parsing (entries : List MemmapEntry) (p0 p : State) : Prop where
  counted : Counted p
  layout : SameLayout p0 p
  free_in : ∀ k < pmmMaxBlocks, test p.bitmap k = false →
    k < p.totalBlocks ∧ ∃ e ∈ entries, InEntry e k

/--
一つの entry を空きにする。4 GiB で切り、内側に揃えた後に残るのは、ちょうど entry にすっかり入っている
block である。
-/
theorem freeEntry_cases (hfit : e.Fits) :
    (freeEntry p e = p ∧ ∀ k, (k + 1) * pmmBlockSize ≤ pmmMaxMemory → ¬InEntry e k) ∨
    ∃ base length, freeEntry p e = pmmMarkRegionFree p base length ∧ pmmBlockSize ≤ length ∧
      ∀ k, (base / pmmBlockSize ≤ k ∧ k < base / pmmBlockSize + length / pmmBlockSize) ↔
        InEntry e k ∧ (k + 1) * pmmBlockSize ≤ pmmMaxMemory := by
  have hb : pmmBlockSize = 4096 := rfl
  have hm : pmmMaxMemory = 2 ^ 32 := rfl
  unfold freeEntry InEntry
  split
  · refine .inl ⟨rfl, fun k hk hin => ?_⟩
    rw [hb] at hk hin
    omega
  rename_i hbase
  have hup : pmmAlignUp e.base = (e.base + 4095) / 4096 * 4096 := by
    unfold pmmAlignUp pmmBlockSize
    rw [Nat.mod_eq_of_lt (by omega)]
    rfl
  split
  · rename_i ht
    have hfit := hfit ht (Nat.not_le.mp hbase)
    -- 4 GiB で切った終わり
    have hlen : ∃ l, (if pmmMaxMemory < e.base + e.length then pmmMaxMemory - e.base
        else e.length) = l ∧ e.base + l = min (e.base + e.length) pmmMaxMemory := by
      refine ⟨_, rfl, ?_⟩
      split <;> omega
    obtain ⟨l, hl, hend⟩ := hlen
    simp only [Nat.mod_eq_of_lt hfit, hl, pmmAlignDown, hup, hb, ht, true_and]
    split
    · split
      · exact .inr ⟨_, _, rfl, by assumption, fun k => by omega⟩
      · exact .inl ⟨rfl, fun k hk hin => by omega⟩
    · split
      · exact .inl ⟨rfl, fun k hk hin => by omega⟩
      · split
        · exact .inr ⟨_, _, rfl, by assumption, fun k => by omega⟩
        · exact .inl ⟨rfl, fun k hk hin => by omega⟩
  · rename_i ht
    exact .inl ⟨rfl, fun k _ hin => ht hin.1⟩

theorem end_le_max (hk : k < pmmMaxBlocks) : (k + 1) * pmmBlockSize ≤ pmmMaxMemory := by
  have hx : pmmMaxBlocks = 2 ^ 20 := rfl
  unfold pmmBlockSize pmmMaxMemory
  omega

/-- `total` は、最も高い entry の終わりを 4 GiB で切ったものである。 -/
theorem last_lt_total (he : e ∈ entries) (hfit : e.Fits) (hin : InEntry e k)
    (hk : (k + 1) * pmmBlockSize ≤ pmmMaxMemory) :
    k < min (memoryEnd entries) pmmMaxMemory / pmmBlockSize := by
  have hend := memoryEnd_ge he
  have hlast := hin.2.2
  have hbase : e.base < pmmMaxMemory := by
    have hle := hin.2.1
    unfold pmmBlockSize at hk hle
    omega
  rw [Nat.mod_eq_of_lt (hfit hin.1 hbase)] at hend
  exact (Nat.le_div_iff_mul_le (by decide)).mpr (le_min (hlast.trans hend) hk)

theorem freeEntry_spec (hc : Counted p) (he : e ∈ entries) (hfit : e.Fits)
    (htot : p.totalBlocks = min (memoryEnd entries) pmmMaxMemory / pmmBlockSize) :
    Counted (freeEntry p e) ∧ SameLayout p (freeEntry p e) ∧
      ∀ k < pmmMaxBlocks, (test (freeEntry p e).bitmap k = false ↔ InEntry e k ∨
        test p.bitmap k = false) := by
  rcases freeEntry_cases (p := p) hfit with ⟨heq, hnone⟩ | ⟨base, length, heq, hlen, hin⟩
  · rw [heq]
    refine ⟨hc, .refl p, fun k hk => ?_⟩
    have hno := hnone k (end_le_max hk)
    simp only [hno, false_or]
  -- 空きにする最後の block も `total` 未満である
  have hlast : base / pmmBlockSize + length / pmmBlockSize ≤ p.totalBlocks := by
    have hpos : 0 < length / pmmBlockSize := Nat.div_pos hlen (by decide)
    obtain ⟨h1, h2⟩ := (hin (base / pmmBlockSize + (length / pmmBlockSize - 1))).mp
      ⟨Nat.le_add_right _ _, by omega⟩
    have hlt := last_lt_total he hfit h1 h2
    omega
  obtain ⟨hq, hs, hbit⟩ := pmmMarkRegionFree_spec hc hlast
  rw [heq]
  refine ⟨hq, hs, fun k hk => ?_⟩
  rw [hbit, Bool.and_eq_false_iff, decide_eq_false_iff_not, not_not, hin,
    and_iff_left (end_le_max hk)]

theorem Parsing.freeEntry {p0 : State} (h : Parsing entries p0 p) (he : e ∈ entries) (hfit : e.Fits)
    (htot : p.totalBlocks = min (memoryEnd entries) pmmMaxMemory / pmmBlockSize) :
    Parsing entries p0 (Pmm.freeEntry p e) := by
  obtain ⟨hc, hs, hbit⟩ := freeEntry_spec h.counted he hfit htot
  refine ⟨hc, h.layout.trans hs, fun k hk hfree => ?_⟩
  rw [hs.total_eq]
  rcases (hbit k hk).mp hfree with hin | hfree
  · exact ⟨htot ▸ last_lt_total he hfit hin (end_le_max hk), e, he, hin⟩
  · exact h.free_in k hk hfree

/-- 最初の `n` 個の block を使用中にするループ。 -/
theorem Parsing.markLow {p0 : State} (h : Parsing entries p0 p) :
    ∀ n, let q := (range n).foldl (fun p i =>
        if 0 + i < pmmMaxBlocks ∧ bitmapTest p (0 + i) = false then
          incUsed (bitmapSet p (0 + i))
        else p) p
      Parsing entries p0 q ∧ ∀ k < pmmMaxBlocks, test q.bitmap k = false → n ≤ k := by
  intro n
  induction n with
  | zero => exact ⟨h, fun k _ _ => Nat.zero_le k⟩
  | succ n ih =>
    obtain ⟨hq, hlow⟩ := ih
    rw [range_succ, foldl_append, foldl_cons, foldl_nil, Nat.zero_add]
    split
    · rename_i hn
      rw [bitmapTest_eq hn.1] at hn
      obtain ⟨hlt, -⟩ := hq.free_in n hn.1 hn.2
      obtain ⟨hc, hs, ht⟩ := take_spec hq.counted hlt hn.2
      refine ⟨⟨hc, hq.layout.trans hs, ?_⟩, ?_⟩
      · intro k hk hfree
        rw [ht, Bool.or_eq_false_iff] at hfree
        rw [hs.total_eq]
        exact hq.free_in k hk hfree.2
      · intro k hk hfree
        rw [ht, Bool.or_eq_false_iff, decide_eq_false_iff_not] at hfree
        have := hlow k hk hfree.2
        omega
    · rename_i hn
      refine ⟨hq, ?_⟩
      intro k hk hfree
      have hle := hlow k hk hfree
      by_contra hlt
      obtain rfl : k = n := by omega
      exact hn ⟨hk, by rw [bitmapTest_eq hk]; exact hfree⟩

theorem test_full {m : Mem} (hk : k < pmmMaxBlocks) :
    test (fun i => if i < pmmBitmapSize then 0xFF else m i) k = true := by
  have hm : pmmMaxBlocks = 2 ^ 20 := rfl
  have hs : pmmBitmapSize = 2 ^ 17 := rfl
  rw [test_eq, if_pos (by omega)]
  exact byte_eq_max_iff.mp rfl _ (Nat.mod_lt k (by decide))

/-- memory map を読む前の状態。すべて使用中である。 -/
def allUsed (entries : List MemmapEntry) (hhdm : Nat) : State where
  bitmap := fun i => if i < pmmBitmapSize then 0xFF else 0
  totalBlocks := min (memoryEnd entries) pmmMaxMemory / pmmBlockSize
  usedBlocks := min (memoryEnd entries) pmmMaxMemory / pmmBlockSize
  memorySize := min (memoryEnd entries) pmmMaxMemory
  hhdmOffset := hhdm

theorem initPmmLimine_eq (h : entries ≠ []) (hhdm : Nat) :
    initPmmLimine State.zero (some entries) hhdm =
      pmmMarkRegionUsed (entries.foldl freeEntry (allUsed entries hhdm)) 0 0x100000 := by
  have hmin : (if pmmMaxMemory < memoryEnd entries then pmmMaxMemory else memoryEnd entries)
      = min (memoryEnd entries) pmmMaxMemory := by
    split <;> omega
  simp only [initPmmLimine, if_neg h, hmin]
  rfl

theorem counted_allUsed (entries : List MemmapEntry) (hhdm : Nat) :
    Counted (allUsed entries hhdm) := by
  have hle : min (memoryEnd entries) _ / pmmBlockSize ≤ pmmMaxBlocks :=
    Nat.div_le_div_right (Nat.min_le_right _ _)
  refine ⟨hle, ?_⟩
  exact (ones_eq_self fun i hi => test_full (Nat.lt_of_lt_of_le hi hle)).symm

/-- 初期化の直後、空きの block はすべて割り当ててよい。 -/
theorem initPmmLimine_spec {memmap : Option (List MemmapEntry)} {hhdm : Nat}
    (hfit : ∀ e ∈ memmap.getD [], e.Fits) :
    let p := initPmmLimine State.zero memmap hhdm
    Counted p ∧ p.hhdmOffset = hhdm ∧
      ∀ b < p.totalBlocks, test p.bitmap b = false → Usable (memmap.getD []) b := by
  have hz : Counted { State.zero with hhdmOffset := hhdm } :=
    ⟨Nat.zero_le _, (Nat.count_zero _).symm⟩
  have hz' : ∀ b < State.zero.totalBlocks, test State.zero.bitmap b = false →
      Usable (memmap.getD []) b := fun b hb => absurd hb (Nat.not_lt_zero b)
  cases memmap with
  | none => exact ⟨hz, rfl, hz'⟩
  | some entries =>
    by_cases hne : entries = []
    · subst hne
      exact ⟨hz, rfl, hz'⟩
    rw [initPmmLimine_eq hne]
    have h0 : Parsing entries _ _ :=
      ⟨counted_allUsed entries hhdm, .refl _, fun k hk hfree => absurd hfree (by
        rw [allUsed, test_full hk]
        decide)⟩
    have h1 := foldlRecOn _ _ h0 fun p hp e he =>
      hp.freeEntry he (hfit e he) hp.layout.total_eq
    obtain ⟨h2, hlow⟩ := h1.markLow 256
    refine ⟨h2.counted, h2.layout.hhdm_eq, fun b hb hfree => ?_⟩
    have hlt := h2.counted.lt_max hb
    obtain ⟨-, hin⟩ := h2.free_in b hlt hfree
    have hge := hlow b hlt hfree
    refine ⟨hin, ?_, end_le_max hlt⟩
    unfold pmmBlockSize
    omega

/-! ## 実行 -/

/-- 管理の状態と、生きている割り当てがそれぞれ持っている block。 -/
structure St where
  pmm : State
  live : List (List Nat)

inductive Op where
  | allocBlock
  | allocBlocks (count : Nat)
  | freeBlock (ptr : Nat)
  | freeBlocks (ptr count : Nat)
  deriving DecidableEq, Repr

/-- 返した block を、どの割り当てからも除く。 -/
def release (live : List (List Nat)) (bs : List Nat) : List (List Nat) :=
  live.map (List.filter (· ∉ bs))

/-- `count` 個の割り当ての結果。`NULL` でないポインタだけが割り当てになる。 -/
def afterAlloc (s : St) (r : Nat × State) (count : Nat) : St :=
  ⟨r.2, if r.1 = 0 then s.live else List.range' (ptrBlock s.pmm r.1) count :: s.live⟩

def step (s : St) : Op → Option St
  | .allocBlock => some (afterAlloc s (pmmAllocBlock s.pmm) 1)
  | .allocBlocks count => some (afterAlloc s (pmmAllocBlocks s.pmm count) count)
  | .freeBlock ptr => some ⟨pmmFreeBlock s.pmm ptr, release s.live [ptrBlock s.pmm ptr]⟩
  | .freeBlocks ptr count => some ⟨pmmFreeBlocks s.pmm ptr count,
      if ptr = 0 then s.live else release s.live (List.range' (ptrBlock s.pmm ptr) count)⟩

/-- 返すのは、いま持っている block だけである。 -/
def Legal (s : St) : Op → Prop
  | .allocBlock => True
  | .allocBlocks _ => True
  | .freeBlock ptr => ptrBlock s.pmm ptr ∈ s.live.flatten
  | .freeBlocks ptr count => ptr = 0 ∨
      ∀ b ∈ List.range' (ptrBlock s.pmm ptr) count, b ∈ s.live.flatten

def boot (memmap : Option (List MemmapEntry)) (hhdm : Nat) : St :=
  ⟨initPmmLimine State.zero memmap hhdm, []⟩

structure Inv (entries : List MemmapEntry) (s : St) : Prop where
  counted : Counted s.pmm
  hhdm_lt : s.pmm.hhdmOffset < 2 ^ 64
  free_usable : ∀ b < s.pmm.totalBlocks, test s.pmm.bitmap b = false → Usable entries b
  live_used : ∀ b ∈ s.live.flatten, b < s.pmm.totalBlocks ∧ test s.pmm.bitmap b = true
  live_usable : ∀ b ∈ s.live.flatten, Usable entries b
  live_nodup : s.live.flatten.Nodup

variable {s s' : St}

theorem Inv.alloc (inv : Inv entries s)
    (hle : b + count ≤ s.pmm.totalBlocks)
    (hf : ∀ k, b ≤ k → k < b + count → test s.pmm.bitmap k = false)
    (hc : Counted q) (hs : SameLayout s.pmm q)
    (ht : ∀ k, test q.bitmap k = (decide (b ≤ k ∧ k < b + count) || test s.pmm.bitmap k)) :
    Inv entries ⟨q, s.live⟩ ∧ Inv entries ⟨q, range' b count :: s.live⟩ := by
  have hlive : ∀ k ∈ s.live.flatten, k < q.totalBlocks ∧ test q.bitmap k = true := by
    intro k hk
    obtain ⟨h1, h2⟩ := inv.live_used k hk
    rw [hs.total_eq, ht, h2, Bool.or_true]
    exact ⟨h1, rfl⟩
  have hfree : ∀ k < q.totalBlocks, test q.bitmap k = false → Usable entries k := by
    intro k hk hfk
    rw [ht, Bool.or_eq_false_iff] at hfk
    exact inv.free_usable k (hs.total_eq ▸ hk) hfk.2
  have hh : q.hhdmOffset < 2 ^ 64 := hs.hhdm_eq ▸ inv.hhdm_lt
  refine ⟨⟨hc, hh, hfree, hlive, inv.live_usable, inv.live_nodup⟩, ⟨hc, hh, hfree, ?_, ?_, ?_⟩⟩
  · intro k hk
    rw [flatten_cons, mem_append, mem_range'_1] at hk
    rcases hk with ⟨h1, h2⟩ | hk
    · rw [hs.total_eq, ht, decide_eq_true ⟨h1, h2⟩]
      exact ⟨by omega, rfl⟩
    · exact hlive k hk
  · intro k hk
    rw [flatten_cons, mem_append, mem_range'_1] at hk
    rcases hk with ⟨h1, h2⟩ | hk
    · exact inv.free_usable k (by omega) (hf k h1 h2)
    · exact inv.live_usable k hk
  · rw [flatten_cons, nodup_append]
    refine ⟨nodup_range', inv.live_nodup, ?_⟩
    -- 空いていた block は、生きている block ではない
    rintro x hx y hy rfl
    rw [mem_range'_1] at hx
    have hxf := hf x hx.1 hx.2
    rw [(inv.live_used x hy).2] at hxf
    simp at hxf

theorem flatten_release {live : List (List Nat)} {bs : List Nat} :
    (release live bs).flatten = live.flatten.filter (· ∉ bs) :=
  filter_flatten.symm

theorem Inv.free (inv : Inv entries s) {bs : List Nat}
    (hbs : ∀ b ∈ bs, b ∈ s.live.flatten) (hc : Counted q) (hs : SameLayout s.pmm q)
    (ht : ∀ k, test q.bitmap k = (decide (k ∉ bs) && test s.pmm.bitmap k)) :
    Inv entries ⟨q, release s.live bs⟩ := by
  have hmem : ∀ b, b ∈ (release s.live bs).flatten → b ∈ s.live.flatten ∧ b ∉ bs := by
    intro b hb
    rw [flatten_release, mem_filter, decide_eq_true_eq] at hb
    exact hb
  refine ⟨hc, hs.hhdm_eq ▸ inv.hhdm_lt, ?_, ?_, ?_, ?_⟩
  · intro k hk hfk
    rw [ht, Bool.and_eq_false_iff, decide_eq_false_iff_not, not_not] at hfk
    rcases hfk with hk' | hfk
    · exact inv.live_usable k (hbs k hk')
    · exact inv.free_usable k (hs.total_eq ▸ hk) hfk
  · intro b hb
    obtain ⟨h1, h2⟩ := hmem b hb
    obtain ⟨h3, h4⟩ := inv.live_used b h1
    rw [hs.total_eq, ht, decide_eq_true h2, h4]
    exact ⟨h3, rfl⟩
  · intro b hb
    exact inv.live_usable b (hmem b hb).1
  · rw [flatten_release]
    exact inv.live_nodup.filter _

theorem Inv.afterAlloc (inv : Inv entries s) (count : Nat) :
    Inv entries (afterAlloc s (pmmAllocBlocks s.pmm count) count) := by
  rcases pmmAllocBlocks_cases inv.counted with h | ⟨b, q, h, hpos, hle, hf, hc, hs, ht⟩
  · rw [h]
    exact inv
  obtain ⟨h1, h2⟩ := inv.alloc hle hf hc hs ht
  have hb : b < pmmMaxBlocks := inv.counted.lt_max (by omega)
  rw [h]
  unfold Pmm.afterAlloc
  split
  · exact h1
  · rw [ptrBlock_blockPtr inv.hhdm_lt hb]
    exact h2

theorem Inv.step (inv : Inv entries s) {op : Op} (hl : Legal s op)
    (hs : Pmm.step s op = some s') : Inv entries s' := by
  cases op with
  | allocBlock =>
    simp only [Pmm.step, some.injEq] at hs
    subst hs
    exact inv.afterAlloc 1
  | allocBlocks count =>
    simp only [Pmm.step, some.injEq] at hs
    subst hs
    exact inv.afterAlloc _
  | freeBlock ptr =>
    simp only [Pmm.step, some.injEq] at hs
    subst hs
    obtain ⟨hlt, -⟩ := inv.live_used _ hl
    obtain ⟨hc, hsame, ht⟩ := pmmFreeBlock_spec inv.counted hlt
    exact inv.free (fun b hb => mem_singleton.mp hb ▸ hl) hc hsame (by simpa using ht)
  | freeBlocks ptr count =>
    simp only [Pmm.step, some.injEq] at hs
    subst hs
    by_cases h0 : ptr = 0
    · rw [if_pos h0]
      unfold pmmFreeBlocks
      rw [if_pos (.inr h0)]
      exact inv
    have hown := hl.resolve_left h0
    rw [if_neg h0]
    by_cases hcount : count = 0
    · subst hcount
      exact inv.free (by simp) inv.counted (.refl _) (by simp [pmmFreeBlocks])
    -- 最後の block が `total` 未満なので、列全体がそうである
    obtain ⟨hlt, -⟩ := inv.live_used _ (hown (ptrBlock s.pmm ptr + (count - 1))
      (mem_range'_1.mpr ⟨by omega, by omega⟩))
    obtain ⟨hc, hsame, ht⟩ := pmmFreeBlocks_spec inv.counted h0 hcount (by omega)
    refine inv.free hown hc hsame ?_
    intro k
    rw [ht]
    simp only [mem_range'_1]

theorem inv_boot {memmap : Option (List MemmapEntry)} {hhdm : Nat}
    (hfit : ∀ e ∈ memmap.getD [], e.base + e.length < 2 ^ 64) (hh : hhdm < 2 ^ 64) :
    Inv (memmap.getD []) (boot memmap hhdm) := by
  obtain ⟨hc, hoff, hfree⟩ := @initPmmLimine_spec _ hhdm fun e he _ _ => hfit e he
  exact ⟨hc, by rw [boot, hoff]; exact hh, hfree, by simp [boot], by simp [boot], by simp [boot]⟩

/--
**初期化からのどの実行でも、PMM の数え上げと割り当ては正しい。**

使用中の block の数は `total` 未満の立っている bit の個数であり、別々の割り当ては交わらず、
持っている block はすべて USABLE な entry の中、1 MiB 以上、4 GiB 未満にある。
-/
theorem reach_pmm {memmap : Option (List MemmapEntry)} {hhdm : Nat} {ops : List Op} {s : St}
    (hfit : ∀ e ∈ memmap.getD [], e.base + e.length < 2 ^ 64) (hh : hhdm < 2 ^ 64)
    (hr : Run.Reach step Legal (boot memmap hhdm) ops s) :
    s.pmm.usedBlocks = ones s.pmm.bitmap s.pmm.totalBlocks ∧
    s.live.Pairwise List.Disjoint ∧
    ∀ bs ∈ s.live, ∀ b ∈ bs,
      (∃ e ∈ memmap.getD [], e.type = limineMemmapUsable ∧ e.base ≤ b * pmmBlockSize ∧
        (b + 1) * pmmBlockSize ≤ e.base + e.length) ∧
      0x100000 ≤ b * pmmBlockSize ∧ (b + 1) * pmmBlockSize ≤ 4 * 1024 ^ 3 := by
  have inv : Inv _ s :=
    hr.invariant (inv_boot hfit hh) fun _ _ _ h hl hs => h.step hl hs
  refine ⟨inv.counted.used_eq, (nodup_flatten.mp inv.live_nodup).2, ?_⟩
  intro bs hbs b hb
  obtain ⟨hin, hlow, hmax⟩ := inv.live_usable b (mem_flatten.mpr ⟨bs, hbs, hb⟩)
  exact ⟨hin, hlow, hmax⟩

/-- 1 MiB からの 64 KiB を持つ機械で、一つと三つを取り、一つを返す実行。 -/
theorem reach_pmm_small_machine :
    ∃ s, Run.Reach step Legal (boot (some [⟨0x100000, 0x10000, 0⟩]) 0xffff800000000000)
        [.allocBlock, .allocBlocks 3, .freeBlock 0xffff800000100000] s ∧
      s.live = [[257, 258, 259], []] ∧
      s.pmm.usedBlocks = ones s.pmm.bitmap s.pmm.totalBlocks := by
  let s0 := boot (some [⟨0x100000, 0x10000, 0⟩]) 0xffff800000000000
  let s1 := afterAlloc s0 (pmmAllocBlock s0.pmm) 1
  let s2 := afterAlloc s1 (pmmAllocBlocks s1.pmm 3) 3
  have hr : Run.Reach step Legal s0 [.allocBlock, .allocBlocks 3, .freeBlock _] _ :=
    .snoc (.snoc (.snoc .nil trivial rfl) trivial rfl)
      (show ptrBlock _ 0xffff800000100000 ∈ s2.live.flatten by decide +kernel) rfl
  exact ⟨_, hr, by decide +kernel, (reach_pmm (by decide) (by decide) hr).1⟩

end Alos.Pmm
