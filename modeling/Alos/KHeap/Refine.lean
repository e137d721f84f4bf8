import Alos.KHeap.Model
import Alos.Lib.BlockList

/-!
# メモリの上の heap は block の列を実現する

`Laid m t a bs` は、番地 `a` から block の列 `bs` が header ごと隙間なく置かれ、
最後の block の `next` が `t` であることを言う。

`kheap.c` の関数はどれも、これを通して `Alos/Lib/BlockList.lean` の操作に対応する。

* `firstFit` と `splitBlock` は `alloc`
* `coalesceBlock` は `absorb`
* `kfree` の走査は `sweep`

どの補題も「書いたのはこの区間だけ」という frame を一緒に持つ。
リストがその管理するメモリの中にあるので、frame がないと隣の header を守れない。
-/

namespace Alos.KHeap

open Bytes BlockList List

variable {m m' : Mem} {a t n : Nat} {bs post : List Blk} {h : Heap}
variable {lo hi v : Nat} {pre : List Blk} {b : Blk}

/-! ## header の読み書き -/

theorem readBlock_congr
    (h : ∀ x, a ≤ x → x < a + headerSize → m' x = m x) : readBlock m' a = readBlock m a := by
  have hh : headerSize = 24 := rfl
  have hsize : load m' a 8 = load m a 8 := load_congr fun x h1 h2 => h x h1 (by omega)
  have hfree : m' _ = m _ := h (a + 8) (by omega) (by omega)
  have hnext : load m' _ 8 = load m (a + 16) 8 :=
    load_congr fun x h1 h2 => h x (by omega) (by omega)
  unfold readBlock
  rw [hsize, hfree, hnext]

theorem readBlock_agreeOff (h : AgreeOff m m' lo hi)
    (hd : a + headerSize ≤ lo ∨ hi ≤ a) : readBlock m' a = readBlock m a :=
  readBlock_congr fun x h1 h2 => h x (by omega)

theorem agreeOff_setSize : AgreeOff m (setSize m a v) a (a + headerSize) :=
  (agreeOff_store m a 8 v).mono (Nat.le_refl a) (by have : headerSize = 24 := rfl; omega)

theorem agreeOff_setFree (m : Mem) (a : Nat) (b : Bool) :
    AgreeOff m (setFree m a b) a (a + headerSize) :=
  (agreeOff_store m _ 1 _).mono (by omega) (by have : headerSize = 24 := rfl; omega)

theorem agreeOff_setNext : AgreeOff m (setNext m a v) a (a + headerSize) :=
  (agreeOff_store m _ 8 v).mono (by omega) (by have : headerSize = 24 := rfl; omega)

theorem readBlock_setSize (h : v < 2 ^ 64) :
    readBlock (setSize m a v) a = { readBlock m a with size := v } := by
  unfold readBlock setSize
  rw [load_store_self (by simpa using h), load_store_of_disjoint (by omega),
    store_apply_of_not (by omega)]

theorem readBlock_setFree (m : Mem) (a : Nat) (b : Bool) :
    readBlock (setFree m a b) a = { readBlock m a with isFree := b } := by
  unfold readBlock setFree
  rw [load_store_of_disjoint (by omega), load_store_of_disjoint (by omega),
    store_apply_of_mem (by omega) (by omega)]
  cases b <;> simp

theorem readBlock_setNext (h : v < 2 ^ 64) :
    readBlock (setNext m a v) a = { readBlock m a with next := v } := by
  unfold readBlock setNext
  rw [load_store_self (by simpa using h), load_store_of_disjoint (by omega),
    store_apply_of_not (by omega)]

/-! ## block の列の配置 -/

/-- 空なら `t`、そうでなければ先頭の番地 `a`。前の block の `next` が持つ値である。 -/
def link (t a : Nat) : List Blk → Nat
  | [] => t
  | _ :: _ => a

/-- 番地 `a` から `bs` が並び、最後の `next` が `t` である。 -/
def Laid (m : Mem) (t : Nat) : Nat → List Blk → Prop
  | _, [] => True
  | a, b :: bs =>
    readBlock m a = ⟨b.size, b.free, link t (a + (headerSize + b.size)) bs⟩ ∧
      Laid m t (a + (headerSize + b.size)) bs

theorem laid_congr (hl : Laid m t a bs)
    (h : ∀ x, a ≤ x → x < a + total headerSize bs → m' x = m x) : Laid m' t a bs := by
  induction bs generalizing a with
  | nil => trivial
  | cons b bs ih =>
    simp only [total_cons] at h
    refine ⟨?_, ih hl.2 (fun x h1 h2 => h x (by omega) (by omega))⟩
    rw [← hl.1]
    exact readBlock_congr fun x h1 h2 => h x h1 (by omega)

theorem Laid.agreeOff (hl : Laid m t a bs)
    (h : AgreeOff m m' lo hi) (hd : a + total headerSize bs ≤ lo ∨ hi ≤ a) : Laid m' t a bs :=
  laid_congr hl fun x h1 h2 => h x (by omega)

theorem laid_append {xs ys : List Blk} : Laid m t a (xs ++ ys) ↔
      Laid m (link t (a + total headerSize xs) ys) a xs ∧
        Laid m t (a + total headerSize xs) ys := by
  induction xs generalizing a with
  | nil => simp [Laid]
  | cons x xs ih =>
    have hlink : link t (a + (headerSize + x.size)) (xs ++ ys)
        = link (link t (a + (headerSize + x.size) + total headerSize xs) ys)
            (a + (headerSize + x.size)) xs := by
      cases xs with
      | nil => simp [link]
      | cons y xs => rfl
    simp only [cons_append, Laid, total_cons, ih, and_assoc, hlink]
    rw [show a + (headerSize + x.size) + total _ xs
      = a + (headerSize + x.size + total headerSize xs) by omega]

/-- 列の一部を置き換える。書き換えがその区間に収まっていれば、前後はそのまま残る。 -/
theorem laid_replace {mid' : List Blk} {mid : List Blk}
    (hl : Laid m 0 a (pre ++ (mid ++ post))) (hmid : mid ≠ []) (hmid' : mid' ≠ [])
    (ht : total headerSize mid' = total headerSize mid)
    (hag : AgreeOff m m' (a + total headerSize pre)
      (a + total headerSize pre + total headerSize mid))
    (hnew : Laid m' (link 0 (a + total headerSize pre + total headerSize mid) post)
      (a + total headerSize pre) mid') : Laid m' 0 a (pre ++ (mid' ++ post)) := by
  obtain ⟨h1, h2⟩ := laid_append.mp hl
  obtain ⟨-, h3⟩ := laid_append.mp h2
  obtain ⟨x, xs, rfl⟩ := exists_cons_of_ne_nil hmid
  obtain ⟨y, ys, rfl⟩ := exists_cons_of_ne_nil hmid'
  refine laid_append.mpr ⟨h1.agreeOff hag (Or.inl (Nat.le_refl _)), laid_append.mpr ⟨?_, ?_⟩⟩
  · rw [ht]; exact hnew
  · rw [ht]; exact h3.agreeOff hag (Or.inr (Nat.le_refl _))

/-! ## 割る・吸収する -/

/-- `splitBlock` してから使用中にすると、`carve` の結果が同じ区間に並ぶ。 -/
theorem laid_carve {sz : Nat} {f : Bool} (hr : readBlock m a = ⟨sz, f, t⟩)
    (hn : n ≤ sz) (hfit : a + (headerSize + sz) < 2 ^ 64) :
    Laid (setFree (splitBlock m a n) a false) t a (carve headerSize kheapMinBlockSize n ⟨sz, f⟩) ∧
      AgreeOff m (setFree (splitBlock m a n) a false) a (a + (headerSize + sz)) := by
  have ht : t < 2 ^ 64 := by
    have := load_lt m (a + 16) 8
    have h : (readBlock m a).next = t := by rw [hr]
    simpa [readBlock] using h ▸ this
  have hrem : (sz + 2 ^ 64 - n) % 2 ^ 64 = sz - n := by
    rw [show sz + 2 ^ 64 - n = sz - n + 2 ^ 64 by omega, Nat.add_mod_right,
      Nat.mod_eq_of_lt (by omega)]
  unfold splitBlock carve
  simp only [hr, hrem]
  by_cases hs : headerSize + kheapMinBlockSize ≤ sz - n
  · rw [if_pos hs, if_pos hs]
    have hnb : (a + headerSize + n) % 2 ^ 64 = a + (headerSize + n) := by
      omega
    rw [hnb]
    -- 新しい block の三つの書き込み
    obtain ⟨m1, hm1⟩ : ∃ m1, m1 = setFree (setSize m (a + (headerSize + n))
        (sz - n - headerSize)) (a + (headerSize + n)) true := ⟨_, rfl⟩
    have hag1 : AgreeOff m m1 (a + (headerSize + n)) (a + (headerSize + n) + headerSize) := by
      rw [hm1]; exact agreeOff_setSize.trans (agreeOff_setFree _ _ _)
    have hra : readBlock m1 a = ⟨sz, f, t⟩ := by
      rw [readBlock_agreeOff hag1 (by omega), hr]
    rw [← hm1, hra]
    obtain ⟨m2, hm2⟩ : ∃ m2, m2 = setNext m1 (a + (headerSize + n)) t := ⟨_, rfl⟩
    have hag2 : AgreeOff m m2 (a + (headerSize + n)) (a + (headerSize + n) + headerSize) := by
      rw [hm2]; exact hag1.trans agreeOff_setNext
    have hnew : readBlock m2 (a + (headerSize + n)) = ⟨sz - n - headerSize, true, t⟩ := by
      rw [hm2, readBlock_setNext ht, hm1, readBlock_setFree, readBlock_setSize (by omega)]
    rw [← hm2]
    -- もとの block の三つの書き込み
    obtain ⟨m3, hm3⟩ : ∃ m3, m3 = setFree (setNext (setSize m2 a n) a (a + (headerSize + n)))
        a false := ⟨_, rfl⟩
    have hag3 : AgreeOff m2 m3 a (a + headerSize) := by
      rw [hm3]
      exact (agreeOff_setSize.trans agreeOff_setNext).trans (agreeOff_setFree _ _ _)
    rw [← hm3]
    refine ⟨⟨?_, ?_, trivial⟩, ?_⟩
    · rw [hm3, readBlock_setFree, readBlock_setNext (by omega), readBlock_setSize (by omega)]
      rfl
    · rw [readBlock_agreeOff hag3 (by omega), hnew]
      rfl
    · exact (hag2.mono (by omega) (by omega)).trans (hag3.mono (Nat.le_refl a) (by omega))
  · rw [if_neg hs, if_neg hs]
    refine ⟨⟨?_, trivial⟩, (agreeOff_setFree _ _ _).mono (Nat.le_refl a) (by omega)⟩
    rw [readBlock_setFree, hr]
    rfl

/-- `bs` の使用中の block は、header も data も変わらない。 -/
def Kept (m m' : Mem) (a : Nat) (bs : List Blk) : Prop :=
  ∀ x k, (x, k) ∈ used headerSize a bs → ∀ y, x ≤ y → y < x + (headerSize + k) → m' y = m y

/-- 空き block の中の書き込みは、使用中の block に触れない。 -/
theorem AgreeOff.kept (hb : b.free = true)
    (h : AgreeOff m m' (a + total headerSize pre)
      (a + total headerSize pre + (headerSize + b.size))) :
    Kept m m' a (pre ++ b :: post) := by
  intro x k hu y h1 h2
  rw [used_append, used_cons, if_pos hb, mem_append] at hu
  rcases hu with hu | hu
  · have := (used_bounds hu).2
    exact h y (by omega)
  · have := (used_bounds hu).1
    exact h y (by omega)

theorem Kept.trans {m'' : Mem} (h : Kept m m' a bs) (h' : Kept m' m'' a bs) : Kept m m'' a bs :=
  fun x k hu y h1 h2 => (h' x k hu y h1 h2).trans (h x k hu y h1 h2)

section Ranged

variable {h : Heap}

/-- `coalesceBlock` は `absorb` であり、書くのは吸収した block の header だけである。 -/
theorem coalesceBlock_laid (hpos : 0 < h.heapStart)
    (hfit : h.heapStart + h.heapTotalSize < 2 ^ 64) :
    ∀ (bs : List Blk) (b : Blk) (m : Mem) (a fuel : Nat), Laid m 0 a (b :: bs) →
      h.heapStart ≤ a → a + total headerSize (b :: bs) = h.heapStart + h.heapTotalSize →
      bs.length < fuel →
      ∃ m', coalesceBlock h fuel m a = some m' ∧ Laid m' 0 a (absorb headerSize b bs) ∧
        AgreeOff m m' a (a + headerSize) := by
  have hh : headerSize = 24 := rfl
  have hend : h.heapEnd = h.heapStart + h.heapTotalSize := Nat.mod_eq_of_lt hfit
  intro bs
  induction bs with
  | nil =>
    intro b m a fuel hl hlo _ hf
    obtain ⟨fuel, rfl⟩ : ∃ k, fuel = k + 1 := ⟨fuel - 1, by omega⟩
    refine ⟨m, ?_, hl, AgreeOff.refl _ _⟩
    have hnext : (readBlock m a).next = 0 := by rw [hl.1]; rfl
    simp [coalesceBlock, hnext]
  | cons c cs ih =>
    intro b m a fuel hl hlo hto hf
    obtain ⟨fuel, rfl⟩ : ∃ k, fuel = k + 1 := ⟨fuel - 1, by omega⟩
    simp only [total_cons] at hto
    have hb := hl.1
    have hc := hl.2.1
    have hcs := hl.2.2
    have hbn : (readBlock m a).next = a + (headerSize + b.size) := by rw [hb]; rfl
    have hin : ¬((readBlock m a).next < h.heapStart ∨ h.heapEnd ≤ (readBlock m a).next) := by
      omega
    simp only [coalesceBlock, absorb]
    rw [if_neg (by omega), if_neg hin, hbn, hc]
    by_cases hfree : c.free = true
    · simp only [hfree, if_true]
      have hsum : (readBlock m a).size + (headerSize + c.size) < 2 ^ 64 := by
        rw [hb]; show b.size + (headerSize + c.size) < 2 ^ 64; omega
      obtain ⟨m1, hm1⟩ : ∃ m1, m1 = setSize m a (b.size + (headerSize + c.size)) := ⟨_, rfl⟩
      have hag1 : AgreeOff m m1 a (a + headerSize) := by rw [hm1]; exact agreeOff_setSize
      have hr1 : readBlock m1 a
          = ⟨b.size + (headerSize + c.size), b.free, a + (headerSize + b.size)⟩ := by
        rw [hm1, readBlock_setSize (by omega), hb]; rfl
      have hc1 : readBlock m1 (a + (headerSize + b.size))
          = ⟨c.size, c.free, link 0 (a + (headerSize + b.size) + (headerSize + c.size)) cs⟩ := by
        rw [readBlock_agreeOff hag1 (by omega), hc]
      have hlt : link 0 (a + (headerSize + b.size) + (headerSize + c.size)) cs < 2 ^ 64 := by
        cases cs with
        | nil => simp [link]
        | cons d ds => simp only [link, total_cons] at *; omega
      have hset : setSize m a (((readBlock m a).size + (headerSize + c.size)) % 2 ^ 64) = m1 := by
        rw [Nat.mod_eq_of_lt hsum, hm1, hb]
      rw [hset, hr1]
      rw [hc1]
      obtain ⟨m2, hm2⟩ : ∃ m2, m2 = setNext m1 a
          (link 0 (a + (headerSize + b.size) + (headerSize + c.size)) cs) := ⟨_, rfl⟩
      have hag2 : AgreeOff m m2 a (a + headerSize) := by
        rw [hm2]; exact hag1.trans agreeOff_setNext
      rw [← hm2]
      have haddr : a + (headerSize + b.size) + (headerSize + c.size)
          = a + (headerSize + (b.size + (headerSize + c.size))) := by omega
      have hl2 : Laid m2 0 a (⟨b.size + (headerSize + c.size), b.free⟩ :: cs) := by
        refine ⟨?_, ?_⟩
        · rw [hm2, readBlock_setNext hlt, hr1, haddr]
        · rw [← haddr]; exact hcs.agreeOff hag2 (by omega)
      obtain ⟨m', he, hl', hag'⟩ := ih _ m2 a fuel hl2 hlo
        (by simp only [total_cons]; omega) (by simp at hf; omega)
      exact ⟨m', he, hl', hag2.trans hag'⟩
    · simp only [hfree, if_false, Bool.false_eq_true]
      exact ⟨m, rfl, hl, AgreeOff.refl _ _⟩

theorem link_sweep : link t a (BlockList.sweep headerSize n bs) = link t a bs := by
  cases n with
  | zero => rfl
  | succ n =>
    cases bs with
    | nil => rfl
    | cons b bs =>
      simp only [BlockList.sweep]
      split
      · obtain ⟨b', bs', he, -⟩ := absorb_eq_cons _ b bs
        rw [he]
        rfl
      · rfl

/-- `kfree` の走査は `sweep` であり、使用中の block に触れない。 -/
theorem sweep_laid (hpos : 0 < h.heapStart) (hfit : h.heapStart + h.heapTotalSize < 2 ^ 64) :
    ∀ (n : Nat) (bs : List Blk) (m : Mem) (a : Nat), Laid m 0 a bs → h.heapStart ≤ a →
      a + total headerSize bs = h.heapStart + h.heapTotalSize →
      ∃ m', sweep h n m (link 0 a bs) = some m' ∧ Laid m' 0 a (BlockList.sweep headerSize n bs) ∧
        AgreeOff m m' a (a + total headerSize bs) ∧ Kept m m' a bs := by
  have hh : headerSize = 24 := rfl
  have hend : h.heapEnd = h.heapStart + h.heapTotalSize := Nat.mod_eq_of_lt hfit
  intro n
  induction n with
  | zero => intro bs m a hl _ _; exact ⟨m, rfl, hl, AgreeOff.refl _ _, fun _ _ _ _ _ _ => rfl⟩
  | succ n ih =>
    intro bs m a hl hlo hto
    cases bs with
    | nil => exact ⟨m, by simp [sweep, link], trivial, AgreeOff.refl _ _, fun _ _ _ _ _ _ => rfl⟩
    | cons b bs =>
      simp only [total_cons] at hto
      have hlen := length_le_total (show 0 < headerSize by decide) bs
      -- 残りの走査は header の後ろの番地から始まる
      have key : ∀ (m1 : Mem) (b' : Blk) (bs' : List Blk), Laid m1 0 a (b' :: bs') →
          total headerSize (b' :: bs') = total headerSize (b :: bs) →
          AgreeOff m m1 a (a + total headerSize (b :: bs)) →
          used headerSize a (b' :: bs') = used headerSize a (b :: bs) → Kept m m1 a (b :: bs) →
          ∃ m', sweep h n m1 (readBlock m1 a).next = some m' ∧
            Laid m' 0 a (b' :: BlockList.sweep headerSize n bs') ∧
            AgreeOff m m' a (a + total headerSize (b :: bs)) ∧ Kept m m' a (b :: bs) := by
        intro m1 b' bs' hl1 ht1 hag1 hu1 hk1
        simp only [total_cons] at ht1
        obtain ⟨m', he, hl', hag', hk'⟩ := ih bs' m1 _ hl1.2 (by omega) (by omega)
        refine ⟨m', by rw [hl1.1]; exact he, ⟨?_, hl'⟩, ?_, hk1.trans ?_⟩
        · rw [readBlock_agreeOff hag' (by omega), hl1.1, link_sweep]
        · exact hag1.trans (hag'.mono (by omega) (by simp only [total_cons]; omega))
        intro x k hu y h1 h2
        rw [← hu1, used_cons, mem_append] at hu
        rcases hu with hu | hu
        · split at hu
          · cases hu
          · obtain ⟨rfl, rfl⟩ := Prod.mk.inj (mem_singleton.mp hu)
            exact hag' y (by omega)
        · exact hk' x k hu y h1 h2
      have hgo : ¬(a < h.heapStart ∨ h.heapEnd ≤ a) := by omega
      have hfr : (readBlock m a).isFree = b.free := by rw [hl.1]
      rw [show link 0 a _ = a from rfl]
      simp only [sweep, BlockList.sweep]
      rw [if_neg (by omega), if_neg hgo, hfr]
      by_cases hb : b.free = true
      · simp only [hb, if_true]
        obtain ⟨m1, he1, hl1, hag1⟩ := coalesceBlock_laid hpos hfit bs b m a h.heapTotalSize hl hlo
          (by simp only [total_cons]; omega) (by omega)
        obtain ⟨b', bs', hab, -⟩ := absorb_eq_cons _ b bs
        have ht1 := total_absorb headerSize b bs
        have hu1 := used_absorb headerSize (a := a) hb bs
        rw [hab] at hl1 ht1 hu1 ⊢
        rw [he1]
        exact key m1 b' bs' hl1 ht1 (hag1.mono (Nat.le_refl a) (by simp only [total_cons]; omega))
          hu1
          (@AgreeOff.kept _ _ _ _ [] _ hb (hag1.mono (Nat.le_refl a) (by omega)))
      · simp only [hb, if_false, Bool.false_eq_true]
        exact key m b bs hl rfl (AgreeOff.refl _ _) rfl fun _ _ _ _ _ _ => rfl

end Ranged

/-! ## first fit -/

/-- 足りる空き block がなければ、最後まで辿って `NULL` になる。 -/
theorem firstFit_none : ∀ (bs : List Blk) (a fuel : Nat), Laid m 0 a bs → 0 < a →
      (∀ b ∈ bs, ¬(b.free = true ∧ n ≤ b.size)) → bs.length < fuel →
      firstFit m n fuel (link 0 a bs) = some 0 := by
  intro bs
  induction bs with
  | nil =>
    intro a fuel _ _ _ hf
    obtain ⟨fuel, rfl⟩ : ∃ k, fuel = k + 1 := ⟨fuel - 1, by omega⟩
    simp [firstFit, link]
  | cons b bs ih =>
    intro a fuel hl ha hno hf
    obtain ⟨fuel, rfl⟩ : ∃ k, fuel = k + 1 := ⟨fuel - 1, by omega⟩
    have hb := hno b mem_cons_self
    rw [show link 0 a _ = a from rfl, firstFit, if_neg (by omega), hl.1, if_neg hb]
    exact ih _ fuel hl.2 (by omega) (fun c hc => hno c (mem_cons_of_mem _ hc))
      (by simp at hf; omega)

/-- 最初に足りる空き block の番地が見つかる。 -/
theorem firstFit_some (hb : b.free = true ∧ n ≤ b.size) :
    ∀ (pre : List Blk) (a fuel : Nat), Laid m 0 a (pre ++ b :: post) → 0 < a →
      (∀ c ∈ pre, ¬(c.free = true ∧ n ≤ c.size)) → pre.length < fuel →
      firstFit m n fuel a = some (a + total headerSize pre) := by
  intro pre
  induction pre with
  | nil =>
    intro a fuel hl ha _ hf
    obtain ⟨fuel, rfl⟩ : ∃ k, fuel = k + 1 := ⟨fuel - 1, by omega⟩
    rw [firstFit, if_neg (by omega), hl.1, if_pos hb]
    rfl
  | cons c pre ih =>
    intro a fuel hl ha hno hf
    obtain ⟨fuel, rfl⟩ : ∃ k, fuel = k + 1 := ⟨fuel - 1, by omega⟩
    have hc := hno c mem_cons_self
    have hlink : link 0 (a + (headerSize + c.size)) (pre ++ b :: post)
        = a + (headerSize + c.size) := by cases pre <;> rfl
    rw [cons_append] at hl
    rw [firstFit, if_neg (by omega), hl.1, if_neg hc, hlink,
      ih _ fuel hl.2 (by omega) (fun d hd => hno d (mem_cons_of_mem _ hd)) (by simp at hf; omega)]
    simp only [total_cons]
    rw [Nat.add_assoc]

/-! ## heap 全体 -/

/-- メモリに `bs` が敷き詰められた heap。 -/
structure HeapOk (h : Heap) (bs : List Blk) : Prop where
  pos : 0 < h.heapStart
  fits : h.heapStart + h.heapTotalSize < 2 ^ 64
  ne_nil : bs ≠ []
  laid : Laid h.mem 0 h.heapStart bs
  total_eq : total headerSize bs = h.heapTotalSize

/-- 領域を変えない。 -/
def SameRegion (h h' : Heap) : Prop :=
  h'.heapStart = h.heapStart ∧ h'.heapTotalSize = h.heapTotalSize

theorem HeapOk.withMem (ok : HeapOk h bs) {bs' : List Blk}
    (hne : bs' ≠ []) (hl : Laid m 0 h.heapStart bs')
    (ht : total headerSize bs' = total headerSize bs) : HeapOk { h with mem := m } bs' where
  pos := ok.pos
  fits := ok.fits
  ne_nil := hne
  laid := hl
  total_eq := ht.trans ok.total_eq

theorem HeapOk.length_lt (ok : HeapOk h bs) : bs.length < h.heapTotalSize := by
  have hh : headerSize = 24 := rfl
  obtain ⟨b, bs, rfl⟩ := exists_cons_of_ne_nil ok.ne_nil
  have hlen := length_le_total (show 0 < headerSize by decide) bs
  have ht := ok.total_eq
  simp only [total_cons, length_cons] at ht ⊢
  omega

theorem HeapOk.link_eq (ok : HeapOk h bs) : link 0 h.heapStart bs = h.heapStart := by
  obtain ⟨b, bs, rfl⟩ := exists_cons_of_ne_nil ok.ne_nil
  rfl

/-- `kheapInit` が受け付けた領域は、一つの空き block になる。 -/
theorem kheapInit_ok {start size : Nat} (hs : start ≠ 0)
    (hsz : headerSize + kheapMinBlockSize ≤ size) (hfit : start + size < 2 ^ 64) :
    HeapOk (kheapInit h start size) [⟨size - headerSize, true⟩] ∧
      (kheapInit h start size).heapStart = start ∧
      (kheapInit h start size).heapTotalSize = size := by
  unfold kheapInit
  rw [if_neg (by omega)]
  refine ⟨⟨Nat.pos_of_ne_zero hs, hfit, by simp, ⟨?_, trivial⟩, ?_⟩, rfl, rfl⟩
  · rw [readBlock_setNext (by decide), readBlock_setFree, readBlock_setSize (by omega)]
    rfl
  · simp only [total_cons, total_nil]
    omega

theorem carve_ne_nil : carve headerSize kheapMinBlockSize n b ≠ [] := by
  unfold carve
  split <;> simp

/-- **`kmalloc` は first fit の `alloc` である。** 失敗なら状態は変わらず、使用中の block には触れない。 -/
theorem kmalloc_cases (ok : HeapOk h bs) (hn : n ≠ 0) :
    (alloc headerSize kheapMinBlockSize (requestSize n) bs = none ∧ kmalloc h n = some (0, h)) ∨
    (∃ pre b post h', bs = pre ++ b :: post ∧ b.free = true ∧ requestSize n ≤ b.size ∧
      alloc headerSize kheapMinBlockSize (requestSize n) bs
        = some (pre ++ (carve headerSize kheapMinBlockSize (requestSize n) b ++ post)) ∧
      kmalloc h n = some (h.heapStart + total headerSize pre + headerSize, h') ∧
      HeapOk h' (pre ++ (carve headerSize kheapMinBlockSize (requestSize n) b ++ post)) ∧
      SameRegion h h' ∧ Kept h.mem h'.mem h.heapStart bs) := by
  have hpos := ok.pos
  have hlen := ok.length_lt
  unfold kmalloc
  rw [if_neg (by omega)]
  cases ha : alloc _ _ _ bs with
  | none =>
    left
    have hno : ∀ b ∈ bs, ¬(b.free = true ∧ requestSize n ≤ b.size) := by
      intro b hb hc
      have := alloc_none_iff.mp ha b hb hc.1
      omega
    have hff := firstFit_none bs _ _ ok.laid hpos hno hlen
    rw [ok.link_eq] at hff
    rw [hff]
    exact ⟨rfl, rfl⟩
  | some bs' =>
    right
    obtain ⟨pre, b, post, rfl, hf, hle, hpre, rfl⟩ := alloc_some ha
    have ht := ok.total_eq
    have hfit := ok.fits
    simp only [total_append, total_cons] at ht
    simp only [length_append, length_cons] at hlen
    have hff := firstFit_some ⟨hf, hle⟩ pre _ h.heapTotalSize ok.laid hpos hpre (by omega)
    rw [hff]
    simp only [Option.map_some]
    rw [if_neg (by omega), Nat.mod_eq_of_lt (by omega)]
    obtain ⟨-, hl2⟩ := laid_append.mp ok.laid
    have hcar := laid_carve (n := requestSize n) hl2.1 hle (by omega)
    refine ⟨pre, b, post, _, rfl, hf, hle, rfl, rfl, ?_, ⟨rfl, rfl⟩, AgreeOff.kept hf hcar.2⟩
    have htc : total headerSize (carve headerSize kheapMinBlockSize (requestSize n) b)
        = total headerSize [b] := by
      rw [total_carve hle]; rfl
    refine ok.withMem (by simp [carve_ne_nil]) ?_ ?_
    · refine laid_replace ok.laid (by simp) carve_ne_nil htc ?_ ?_
      · exact hcar.2
      · simpa [Nat.add_assoc] using hcar.1
    · simp only [total_append, htc, total_cons, total_nil]
      omega

theorem kmalloc_zero : kmalloc h 0 = some (0, h) := by
  simp [kmalloc]

/-- 生きているポインタから header の番地が戻る。 -/
theorem dataBlock_eq (ok : HeapOk h (pre ++ b :: post)) :
    (h.heapStart + total headerSize pre + headerSize + 2 ^ 64 - headerSize) % 2 ^ 64
        = h.heapStart + total headerSize pre ∧ ¬(h.heapStart + total headerSize pre < h.heapStart ∨
        h.heapEnd ≤ h.heapStart + total headerSize pre) ∧
      (readBlock h.mem (h.heapStart + total headerSize pre)).size = b.size ∧
      (readBlock h.mem (h.heapStart + total headerSize pre)).isFree = b.free := by
  have hh : headerSize = 24 := rfl
  have hfit := ok.fits
  have ht := ok.total_eq
  have hend : h.heapEnd = h.heapStart + h.heapTotalSize := Nat.mod_eq_of_lt hfit
  simp only [total_append, total_cons] at ht
  obtain ⟨-, hl, -⟩ := laid_append.mp ok.laid
  refine ⟨?_, by omega, by rw [hl], by rw [hl]⟩
  rw [show h.heapStart + total _ pre + headerSize + 2 ^ 64 - headerSize
    = h.heapStart + total headerSize pre + 2 ^ 64 by omega, Nat.add_mod_right,
    Nat.mod_eq_of_lt (by omega)]

/--
**`kfree` は、空きにして後ろを吸収してから `sweep` する。**

ほかの使用中の block には触れない。
-/
theorem kfree_ok (ok : HeapOk h (pre ++ b :: post)) :
    ∃ h', kfree h (h.heapStart + total headerSize pre + headerSize) = some h' ∧
      HeapOk h' (BlockList.sweep headerSize maxIterations
        (pre ++ absorb headerSize ⟨b.size, true⟩ post)) ∧
      SameRegion h h' ∧ Kept h.mem h'.mem h.heapStart (pre ++ ⟨b.size, true⟩ :: post) := by
  have hpos := ok.pos
  have hfit := ok.fits
  have hlen := ok.length_lt
  have ht := ok.total_eq
  simp only [total_append, total_cons] at ht
  simp only [length_append, length_cons] at hlen
  obtain ⟨hblk, hin, -⟩ := dataBlock_eq ok
  unfold kfree
  rw [if_neg (by omega)]
  simp only [hblk]
  rw [if_neg hin]
  -- header の空き印を付けたところ
  obtain ⟨hl1, hl2⟩ := laid_append.mp ok.laid
  have hag0 := agreeOff_setFree h.mem (h.heapStart + total headerSize pre) true
  have hl0 : Laid (setFree h.mem (h.heapStart + total headerSize pre) true) 0
      (h.heapStart + total headerSize pre) (⟨b.size, true⟩ :: post) := by
    refine ⟨?_, hl2.2.agreeOff hag0 (by omega)⟩
    rw [readBlock_setFree, hl2.1]
  obtain ⟨m1, he1, hl1', hag1⟩ := coalesceBlock_laid hpos hfit post _ _ _
    h.heapTotalSize hl0 (by omega) (by simp only [total_cons]; omega) (by omega)
  have hag := hag0.trans hag1
  have hab := total_absorb headerSize ⟨b.size, true⟩ post
  obtain ⟨x, xs, hx, -⟩ := absorb_eq_cons _ _ post
  have hwhole : Laid m1 0 h.heapStart (pre ++ absorb headerSize ⟨b.size, true⟩ post) := by
    refine laid_append.mpr ⟨?_, hl1'⟩
    rw [hx]
    exact hl1.agreeOff hag (Or.inl (Nat.le_refl _))
  rw [he1]
  obtain ⟨m2, he2, hl2', -, hkept⟩ := sweep_laid hpos hfit maxIterations _ m1 _ hwhole
    (Nat.le_refl _) (by simp only [total_append, hab]; omega)
  have hlk : link 0 h.heapStart (pre ++ absorb headerSize ⟨b.size, true⟩ post) = h.heapStart := by
    rw [hx]
    cases pre <;> rfl
  rw [hlk] at he2
  simp only [Option.bind_some, he2, Option.map_some]
  refine ⟨_, rfl, ok.withMem ?_ hl2' ?_, ⟨rfl, rfl⟩, ?_⟩
  · intro hnil
    have := total_sweep headerSize maxIterations (pre ++ absorb headerSize ⟨b.size, true⟩ post)
    rw [hnil] at this
    simp only [total_nil, total_append, hab] at this
    omega
  · rw [total_sweep]
    simp only [total_append, hab, total_cons]
  · refine (AgreeOff.kept rfl (hag.mono (Nat.le_refl _) (by omega))).trans fun x k hu =>
      hkept x k ?_
    rwa [used_append, used_absorb _ rfl, ← used_append]

/-- 使用中の block の data だけを書き換えても、列は変わらない。 -/
theorem HeapOk.write (ok : HeapOk h bs) {x k : Nat} (hu : (x, k) ∈ used headerSize h.heapStart bs)
    (hag : AgreeOff h.mem m (x + headerSize) (x + headerSize + k)) :
    HeapOk { h with mem := m } bs := by
  obtain ⟨pre, post, rfl, rfl⟩ := mem_used_split hu
  refine ok.withMem ok.ne_nil ?_ rfl
  obtain ⟨h1, h2, h3⟩ := laid_append.mp ok.laid
  refine laid_append.mpr ⟨h1.agreeOff hag (by omega), ?_, h3.agreeOff hag (by simp only; omega)⟩
  rw [readBlock_agreeOff hag (by omega), h2]

theorem agreeOff_copyBytes (m : Mem) (dst src n : Nat) :
    AgreeOff m (copyBytes m dst src n) dst (dst + n) := by
  induction n with
  | zero => exact AgreeOff.refl _ _
  | succ n ih =>
    refine (ih.mono (Nat.le_refl dst) (by omega)).trans ?_
    exact (agreeOff_store _ _ 1 _).mono (by omega) (by omega)

end Alos.KHeap
