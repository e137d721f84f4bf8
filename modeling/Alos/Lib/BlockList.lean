import Mathlib.Data.List.Chain

/-!
# 区間を敷き詰める block の列

header の付いた block を隙間なく並べて区間を敷き詰める allocator の、抽象の側である。
block は大きさと空きかどうかだけを持ち、番地は並びから決まる。

* `carve` / `alloc` — first fit で割り当て、余りを割る
* `absorb` — 後ろに続く空き block を吸収する
* `sweep` — 先頭から高々 `n` 個の空き block について `absorb` する
* `used` — 使用中の block の番地と大きさ。これが割り当ての実体である

header の大きさ `hdr` と、割った余りに要る最小の大きさ `lo` は引数である。
-/

namespace Alos.BlockList

open List Option

/-- 大きさと空きかどうか。 -/
structure Blk where
  size : Nat
  free : Bool
  deriving DecidableEq, Repr

variable {n a x k : Nat} {b : Blk} {bs pre post bs' xs : List Blk}
variable (hdr lo : Nat)

/-- block の列が占める byte 数。 -/
def total : List Blk → Nat
  | [] => 0
  | b :: bs => hdr + b.size + total bs

/-- 使用中の block の番地と大きさ。 -/
def used (a : Nat) : List Blk → List (Nat × Nat)
  | [] => []
  | b :: bs => (if b.free then [] else [(a, b.size)]) ++ used (a + (hdr + b.size)) bs

/-- 空き block から `n` byte を切り出す。余りが小さすぎれば割らない。 -/
def carve (n : Nat) (b : Blk) : List Blk :=
  if hdr + lo ≤ b.size - n then [⟨n, false⟩, ⟨b.size - n - hdr, true⟩] else [⟨b.size, false⟩]

/-- first fit。 -/
def alloc (n : Nat) : List Blk → Option (List Blk)
  | [] => none
  | b :: bs =>
    if b.free = true ∧ n ≤ b.size then some (carve hdr lo n b ++ bs)
    else (alloc n bs).map (b :: ·)

/-- `b` が、後ろに続く空き block を吸収する。 -/
def absorb (b : Blk) : List Blk → List Blk
  | [] => [b]
  | c :: cs => if c.free then absorb ⟨b.size + (hdr + c.size), b.free⟩ cs else b :: c :: cs

/-- 先頭から高々 `n` 個の block を見て、空きなら吸収させる。 -/
def sweep : Nat → List Blk → List Blk
  | 0, bs => bs
  | _ + 1, [] => []
  | n + 1, b :: bs =>
    if b.free then
      match absorb hdr b bs with
      | [] => []
      | b' :: bs' => b' :: sweep n bs'
    else b :: sweep n bs

/-! ## 大きさ -/

variable {hdr lo}

@[simp] theorem total_nil : total hdr [] = 0 := rfl

@[simp] theorem total_cons (b : Blk) (bs : List Blk) :
    total hdr (b :: bs) = hdr + b.size + total hdr bs := rfl

@[simp] theorem total_append {xs ys : List Blk} :
    total hdr (xs ++ ys) = total hdr xs + total hdr ys := by
  induction xs with
  | nil => simp
  | cons x xs ih => simp [ih]; omega

theorem total_carve (h : n ≤ b.size) : total hdr (carve hdr lo n b) = hdr + b.size := by
  unfold carve
  split
  · simp only [total_cons, total_nil]
    omega
  · simp

theorem total_absorb (hdr : Nat) (b : Blk) (bs : List Blk) :
    total hdr (absorb hdr b bs) = hdr + b.size + total hdr bs := by
  induction bs generalizing b with
  | nil => simp [absorb]
  | cons c cs ih =>
    simp only [absorb]
    split
    · rw [ih]; simp only [total_cons]; omega
    · rfl

theorem length_le_total (h : 0 < hdr) (bs : List Blk) : bs.length ≤ total hdr bs := by
  induction bs with
  | nil => simp
  | cons b bs ih => simp only [length_cons, total_cons]; omega

/-! ## 使用中の block -/

@[simp] theorem used_nil : used hdr a [] = [] := rfl

theorem used_cons (a : Nat) (b : Blk) (bs : List Blk) : used hdr a (b :: bs)
      = (if b.free then [] else [(a, b.size)]) ++ used hdr (a + (hdr + b.size)) bs := rfl

theorem used_append {xs ys : List Blk} :
    used hdr a (xs ++ ys) = used hdr a xs ++ used hdr (a + total hdr xs) ys := by
  induction xs generalizing a with
  | nil => simp
  | cons x xs ih =>
    simp only [cons_append, used_cons, total_cons, append_assoc]
    rw [ih, show a + (hdr + x.size) + total hdr xs = a + (hdr + x.size + total hdr xs) by omega]

theorem length_used_le (a : Nat) (bs : List Blk) : hdr * (used hdr a bs).length ≤ total hdr bs := by
  induction bs generalizing a with
  | nil => simp
  | cons b bs ih =>
    have hrest := ih (a + (hdr + b.size))
    rw [used_cons, total_cons, length_append, Nat.mul_add]
    have hone : hdr * (if b.free then [] else [(a, b.size)] : List _).length ≤ hdr := by
      split <;> simp
    omega

/-- 切り出した結果、使用中になるのは先頭の一つだけである。 -/
theorem used_carve (hdr lo a n : Nat) :
    ∃ k, used hdr a (carve hdr lo n b) = [(a, k)] ∧ (n ≤ b.size → n ≤ k ∧ k ≤ b.size) := by
  unfold carve
  split
  · exact ⟨n, by simp [used_cons], fun h => ⟨Nat.le_refl n, h⟩⟩
  · exact ⟨b.size, by simp [used_cons], fun h => ⟨h, Nat.le_refl _⟩⟩

/-- 空き block が吸収しても使用中の block は変わらない。 -/
theorem used_absorb (hdr : Nat) (hb : b.free = true) (bs : List Blk) :
    used hdr a (absorb hdr b bs) = used hdr a (b :: bs) := by
  induction bs generalizing b with
  | nil => rfl
  | cons c cs ih =>
    simp only [absorb]
    split
    · rename_i hc
      rw [ih (b := ⟨b.size + (hdr + c.size), b.free⟩) hb]
      simp only [used_cons, hb, hc, if_true, nil_append]
      rw [show a + (hdr + (b.size + (hdr + c.size))) = a + (hdr + b.size) + (hdr + c.size) by omega]
    · rfl

/-- 吸収の結果の先頭は、空きかどうかを変えない。 -/
theorem absorb_eq_cons (hdr : Nat) (b : Blk) (bs : List Blk) :
    ∃ b' bs', absorb hdr b bs = b' :: bs' ∧ b'.free = b.free := by
  induction bs generalizing b with
  | nil => exact ⟨b, [], rfl, rfl⟩
  | cons c cs ih =>
    simp only [absorb]
    split
    · exact ih _
    · exact ⟨b, c :: cs, rfl, rfl⟩

theorem sweep_spec (n a : Nat) (bs : List Blk) :
    used hdr a (sweep hdr n bs) = used hdr a bs ∧ total hdr (sweep hdr n bs) = total hdr bs := by
  induction n generalizing a bs with
  | zero => exact ⟨rfl, rfl⟩
  | succ n ih =>
    cases bs with
    | nil => exact ⟨rfl, rfl⟩
    | cons b bs =>
      simp only [sweep]
      split
      · rename_i hb
        obtain ⟨b', bs', he, -⟩ := absorb_eq_cons hdr b bs
        have hu := used_absorb hdr (a := a) hb bs
        have ht := total_absorb hdr b bs
        rw [he] at hu ht ⊢
        simp only [total_cons, used_cons] at hu ht ⊢
        rw [(ih _ bs').1, (ih 0 bs').2]
        exact ⟨hu, ht⟩
      · simp only [total_cons, used_cons]
        rw [(ih _ bs).1, (ih 0 bs).2]
        exact ⟨rfl, rfl⟩

theorem used_sweep : used hdr a (sweep hdr n bs) = used hdr a bs := (sweep_spec n a bs).1

theorem total_sweep (hdr n : Nat) (bs : List Blk) :
    total hdr (sweep hdr n bs) = total hdr bs := (sweep_spec n 0 bs).2

/-! ## 大きさの下限 -/

section

variable {lo : Nat}

theorem le_of_mem_carve (hn : lo ≤ n) (hb : n ≤ b.size) : ∀ c ∈ carve hdr lo n b, lo ≤ c.size := by
  unfold carve
  split
  · simp only [mem_cons, not_mem_nil, or_false, forall_eq_or_imp, forall_eq]
    omega
  · simpa using hn.trans hb

/-- 吸収で block は小さくならない。 -/
theorem le_of_mem_absorb (hb : lo ≤ b.size) (h : ∀ c ∈ bs, lo ≤ c.size) :
    ∀ c ∈ absorb hdr b bs, lo ≤ c.size := by
  induction bs generalizing b with
  | nil => simpa [absorb] using hb
  | cons c cs ih =>
    rw [forall_mem_cons] at h
    simp only [absorb]
    split
    · exact ih (hb.trans (Nat.le_add_right ..)) h.2
    · exact forall_mem_cons.mpr ⟨hb, forall_mem_cons.mpr h⟩

theorem le_of_mem_sweep (n : Nat) (h : ∀ c ∈ bs, lo ≤ c.size) :
    ∀ c ∈ sweep hdr n bs, lo ≤ c.size := by
  induction n generalizing bs with
  | zero => exact h
  | succ n ih =>
    cases bs with
    | nil => exact h
    | cons b bs =>
      rw [forall_mem_cons] at h
      simp only [sweep]
      split
      · obtain ⟨b', bs', he, -⟩ := absorb_eq_cons hdr b bs
        have hall : ∀ c ∈ absorb hdr b bs, lo ≤ c.size := le_of_mem_absorb h.1 h.2
        rw [he] at hall ⊢
        rw [forall_mem_cons] at hall
        exact forall_mem_cons.mpr ⟨hall.1, ih hall.2⟩
      · exact forall_mem_cons.mpr ⟨h.1, ih h.2⟩

end

theorem used_bounds (h : (x, k) ∈ used hdr a bs) : a ≤ x ∧ x + (hdr + k) ≤ a + total hdr bs := by
  induction bs generalizing a with
  | nil => simp at h
  | cons b bs ih =>
    rw [used_cons, mem_append] at h
    simp only [total_cons]
    rcases h with h | h
    · split at h
      · simp at h
      · simp only [mem_singleton, Prod.mk.injEq] at h
        omega
    · have := ih h
      omega

/-- 使用中の block のところで列を割る。 -/
theorem mem_used_split (h : (x, k) ∈ used hdr a bs) :
    ∃ pre post, bs = pre ++ ⟨k, false⟩ :: post ∧ x = a + total hdr pre := by
  induction bs generalizing a with
  | nil => simp at h
  | cons b bs ih =>
    rw [used_cons, mem_append] at h
    rcases h with h | h
    · cases hf : b.free with
      | true => simp [hf] at h
      | false =>
        simp only [hf, Bool.false_eq_true, if_false, mem_singleton, Prod.mk.injEq] at h
        refine ⟨[], bs, ?_, by simp [h.1]⟩
        rw [nil_append, h.2, ← hf]
    · obtain ⟨pre, post, rfl, hx⟩ := ih h
      exact ⟨b :: pre, post, rfl, by simp only [total_cons]; omega⟩

/-- **使用中の block どうしは重ならない。** 並び順に前から後ろへ離れている。 -/
theorem used_pairwise (a : Nat) (bs : List Blk) :
    (used hdr a bs).Pairwise (fun x y => x.1 + (hdr + x.2) ≤ y.1) := by
  induction bs generalizing a with
  | nil => simp
  | cons b bs ih =>
    rw [used_cons, pairwise_append]
    refine ⟨by split <;> simp, ih _, ?_⟩
    intro x hx y hy
    split at hx
    · simp at hx
    · simp only [mem_singleton] at hx
      subst hx
      exact (used_bounds hy).1

theorem used_disjoint {y j : Nat} (hx : (x, k) ∈ used hdr a bs)
    (hy : (y, j) ∈ used hdr a bs) (hne : x ≠ y) : x + (hdr + k) ≤ y ∨ y + (hdr + j) ≤ x := by
  induction bs generalizing a with
  | nil => simp at hx
  | cons b bs ih =>
    rw [used_cons, mem_append] at hx hy
    have head : ∀ {z i : Nat}, (z, i) ∈ (if b.free then [] else [(a, b.size)]) →
        z = a ∧ i = b.size := by
      intro z i hz
      split at hz
      · simp at hz
      · simpa using hz
    rcases hx with hx | hx <;> rcases hy with hy | hy
    · exact absurd ((head hx).1.trans (head hy).1.symm) hne
    · have h1 := head hx
      have h2 := (used_bounds hy).1
      omega
    · have h1 := head hy
      have h2 := (used_bounds hx).1
      omega
    · exact ih hx hy

/-! ## 割り当て -/

/-- 割り当ての成否と結果。失敗は「足りる空き block がない」ことと同じである。 -/
theorem alloc_none_iff : alloc hdr lo n bs = none ↔ ∀ b ∈ bs, b.free = true → b.size < n := by
  induction bs with
  | nil => simp [alloc]
  | cons b bs ih =>
    simp only [alloc, mem_cons, forall_eq_or_imp]
    split
    · rename_i h
      simp only [reduceCtorEq, false_iff, not_and]
      intro hlt
      exact absurd (hlt h.1) (by omega)
    · rename_i h
      rw [map_eq_none_iff, ih]
      constructor
      · intro hr
        refine ⟨fun hf => ?_, hr⟩
        by_contra hge
        exact h ⟨hf, by omega⟩
      · exact fun hr => hr.2

/-- 足りない block を飛ばして、最初に足りる空き block から切り出す。 -/
theorem alloc_append (hpre : ∀ c ∈ pre, ¬(c.free = true ∧ n ≤ c.size))
    (hb : b.free = true ∧ n ≤ b.size) :
    alloc hdr lo n (pre ++ b :: post) = some (pre ++ (carve hdr lo n b ++ post)) := by
  induction pre with
  | nil => simp [alloc, hb]
  | cons c pre ih =>
    rw [cons_append, alloc, if_neg (hpre c mem_cons_self),
      ih fun d hd => hpre d (mem_cons_of_mem _ hd)]
    rfl

/-- 割り当てが成功したときの分解。`pre` には足りる空き block がない。 -/
theorem alloc_some (h : alloc hdr lo n bs = some bs') :
    ∃ pre b post, bs = pre ++ b :: post ∧ b.free = true ∧ n ≤ b.size ∧
      (∀ c ∈ pre, ¬(c.free = true ∧ n ≤ c.size)) ∧ bs' = pre ++ (carve hdr lo n b ++ post) := by
  induction bs generalizing bs' with
  | nil => simp [alloc] at h
  | cons b bs ih =>
    simp only [alloc] at h
    split at h
    · rename_i hb
      cases h
      exact ⟨[], b, bs, rfl, hb.1, hb.2, by simp, rfl⟩
    · rename_i hb
      obtain ⟨r, hr, he⟩ := map_eq_some_iff.mp h
      obtain ⟨pre, c, post, rfl, hf, hn, hpre, rfl⟩ := ih hr
      refine ⟨b :: pre, c, post, rfl, hf, hn, ?_, he.symm⟩
      intro d hd
      rcases mem_cons.mp hd with rfl | hd
      · exact hb
      · exact hpre d hd

/-! ## 隣り合う空き block -/

/-- 空き block が二つ並ばない。 -/
def NoAdjFree (bs : List Blk) : Prop :=
  bs.IsChain fun b c => ¬(b.free = true ∧ c.free = true)

theorem noAdjFree_append {ys : List Blk} : NoAdjFree (xs ++ ys) ↔ NoAdjFree xs ∧ NoAdjFree ys ∧
      ∀ x ∈ xs.getLast?, ∀ y ∈ ys.head?, ¬(x.free = true ∧ y.free = true) :=
  isChain_append

theorem noAdjFree_cons :
    NoAdjFree (b :: bs) ↔ (∀ c ∈ bs.head?, ¬(b.free = true ∧ c.free = true)) ∧ NoAdjFree bs :=
  isChain_cons

/-- 割り当ては空き block を並べない。余りの隣は、もとの空き block の隣だからである。 -/
theorem noAdjFree_alloc (hb : NoAdjFree bs) (h : alloc hdr lo n bs = some bs') : NoAdjFree bs' := by
  obtain ⟨pre, b, post, rfl, hf, -, -, rfl⟩ := alloc_some h
  obtain ⟨h1, h2, h3⟩ := noAdjFree_append.mp hb
  obtain ⟨h4, h5⟩ := noAdjFree_cons.mp h2
  unfold carve
  split
  · refine noAdjFree_append.mpr ⟨h1, ?_, by simp⟩
    refine noAdjFree_cons.mpr ⟨by simp, noAdjFree_cons.mpr ⟨?_, h5⟩⟩
    intro c hc hcc
    exact h4 c hc ⟨hf, hcc.2⟩
  · exact noAdjFree_append.mpr ⟨h1, noAdjFree_cons.mpr ⟨by simp, h5⟩, by simp⟩

theorem noAdjFree_absorb (b : Blk) (h : NoAdjFree bs) : NoAdjFree (absorb hdr b bs) := by
  induction bs generalizing b with
  | nil => simp [absorb, NoAdjFree]
  | cons c cs ih =>
    simp only [absorb]
    split
    · exact ih _ (noAdjFree_cons.mp h).2
    · rename_i hc
      exact noAdjFree_cons.mpr ⟨by simp [hc], h⟩

theorem absorb_of_head (h : ∀ c ∈ bs.head?, ¬c.free = true) : absorb hdr b bs = b :: bs := by
  cases bs with
  | nil => rfl
  | cons c cs =>
    have hc := h c rfl
    simp [absorb, hc]

/-- 空き block が並んでいない前半では、走査は何もせずに通り過ぎる。 -/
theorem sweep_append (hdr n : Nat) (ys : List Blk) (hx : NoAdjFree xs)
    (hj : ∀ x ∈ xs.getLast?, ∀ y ∈ ys.head?, ¬(x.free = true ∧ y.free = true)) :
    sweep hdr n (xs ++ ys) = xs ++ sweep hdr (n - xs.length) ys := by
  induction xs generalizing n with
  | nil => simp
  | cons x xs ih =>
    cases n with
    | zero => simp [sweep]
    | succ n =>
      have hxs := noAdjFree_cons.mp hx
      have hj' : ∀ z ∈ xs.getLast?, ∀ y ∈ ys.head?, ¬(z.free = true ∧ y.free = true) := by
        intro z hz y hy
        refine hj z ?_ y hy
        rw [getLast?_cons, mem_def.mp hz]
        rfl
      have htail := ih n hxs.2 hj'
      rw [cons_append, sweep]
      split
      · rename_i hfree
        have hhead : ∀ c ∈ (xs ++ ys).head?, ¬c.free = true := by
          intro c hc hcf
          cases xs with
          | nil => exact hj x (by simp) c hc ⟨hfree, hcf⟩
          | cons z zs => exact hxs.1 c hc ⟨hfree, hcf⟩
        rw [absorb_of_head hhead]
        simp [htail]
      · simp [htail]

theorem sweep_eq_self (h : NoAdjFree bs) : sweep hdr n bs = bs := by
  have := sweep_append hdr n [] h (by simp)
  cases hn : n - bs.length <;> simp [hn, sweep] at this <;> exact this

/--
**解放が空き block を並べないための条件。**

直前の block が空きのときだけ、走査がそこまで届くこと（`pre.length ≤ n`）が要る。
-/
theorem noAdjFree_release (h : NoAdjFree (pre ++ b :: post)) :
    NoAdjFree (sweep hdr n (pre ++ absorb hdr ⟨k, true⟩ post)) ↔
      ∀ x ∈ pre.getLast?, x.free = true → pre.length ≤ n := by
  obtain ⟨hpre, hbp, -⟩ := noAdjFree_append.mp h
  have hab : NoAdjFree (absorb hdr ⟨k, true⟩ post) :=
    noAdjFree_absorb _ (noAdjFree_cons.mp hbp).2
  obtain ⟨b', bs', hcons, hb'⟩ := absorb_eq_cons hdr ⟨k, true⟩ post
  rcases eq_nil_or_concat pre with rfl | ⟨pre', x, rfl⟩
  · rw [nil_append, sweep_eq_self hab]
    simp [hab]
  rw [concat_eq_append] at hpre ⊢
  by_cases hx : x.free = true
  · obtain ⟨hp1, -, hj⟩ := noAdjFree_append.mp hpre
    have hj1 : ∀ z ∈ pre'.getLast?, ∀ y ∈ (x :: absorb hdr ⟨k, true⟩ post).head?,
        ¬(z.free = true ∧ y.free = true) := by
      intro z hz y hy
      exact hj z hz y (by simpa using hy)
    rw [append_assoc, singleton_append, sweep_append hdr n _ hp1 hj1]
    simp only [getLast?_append, getLast?_singleton, some_or, mem_def,
      some.injEq, forall_eq', hx, forall_const, length_append, length_singleton]
    by_cases hle : pre'.length + 1 ≤ n
    · obtain ⟨j, hj2⟩ : ∃ j, n - pre'.length = j + 1 := ⟨n - pre'.length - 1, by omega⟩
      obtain ⟨x', xs', hxc, hx'⟩ := absorb_eq_cons hdr x _
      have hax : NoAdjFree _ := hxc ▸ noAdjFree_absorb x hab
      rw [hj2, sweep, if_pos hx, hxc]
      simp only [sweep_eq_self (noAdjFree_cons.mp hax).2]
      refine iff_of_true (noAdjFree_append.mpr ⟨hp1, hax, ?_⟩) hle
      intro z hz y hy hzy
      exact hj z hz x (by simp) ⟨hzy.1, hx⟩
    · rw [show n - pre'.length = 0 by omega]
      refine iff_of_false (fun hbad => ?_) hle
      have h2 := (noAdjFree_append.mp hbad).2.1
      rw [hcons] at h2
      exact (noAdjFree_cons.mp h2).1 b' (by simp) ⟨hx, hb'⟩
  · have hall : NoAdjFree (pre' ++ [x] ++ absorb hdr ⟨k, true⟩ post) := by
      refine noAdjFree_append.mpr ⟨hpre, hab, ?_⟩
      intro z hz y _ hzy
      simp only [getLast?_append, getLast?_singleton, some_or, mem_def, some.injEq] at hz
      exact hx (hz ▸ hzy.1)
    rw [sweep_eq_self hall]
    refine iff_of_true hall ?_
    intro z hz hzf
    simp only [getLast?_append, getLast?_singleton, some_or, mem_def, some.injEq] at hz
    exact absurd (hz ▸ hzf) hx

/-! ## 空きの区間 -/

variable (hdr) in
/-- 極大な空きの区間の長さ。`acc` は、いま続いている空きの長さである。 -/
def freeRanges (acc : Nat) : List Blk → List Nat
  | [] => if acc = 0 then [] else [acc]
  | b :: bs =>
    if b.free then freeRanges (acc + (hdr + b.size)) bs
    else (if acc = 0 then [] else [acc]) ++ freeRanges 0 bs

variable (hdr) in
/-- 最も長い空きの区間。 -/
def largestFreeRange (bs : List Blk) : Nat := (freeRanges hdr 0 bs).foldr max 0

/-- 空き block が並ばなければ、極大な空きの区間は空き block そのものである。 -/
theorem freeRanges_of_noAdjFree (hpos : 0 < hdr) (h : NoAdjFree bs) :
    freeRanges hdr 0 bs = (bs.filter fun b => b.free).map fun b => hdr + b.size := by
  induction bs with
  | nil => rfl
  | cons b bs ih =>
    obtain ⟨hh, ht⟩ := noAdjFree_cons.mp h
    cases hf : b.free with
    | false => simp [freeRanges, hf, ih ht]
    | true =>
      have hne : hdr + b.size ≠ 0 := by omega
      cases bs with
      | nil => simp only [freeRanges, hf, if_true, Nat.zero_add, if_neg hne]; simp [hf]
      | cons c cs =>
        have hc : c.free = false := by
          cases hcf : c.free with
          | false => rfl
          | true => exact absurd ⟨hf, hcf⟩ (hh c rfl)
        have ih' := ih ht
        simp only [freeRanges, hf, hc, if_true, Bool.false_eq_true, if_false, Nat.zero_add,
          if_neg hne, nil_append, singleton_append, filter_cons, map_cons]
          at ih' ⊢
        rw [ih']

theorem le_foldr_max_iff {l : List Nat} (hx : 0 < x) : x ≤ l.foldr max 0 ↔ ∃ r ∈ l, x ≤ r := by
  induction l with
  | nil => simp; omega
  | cons y l ih =>
    have hmax : x ≤ max y (l.foldr max 0) ↔ x ≤ y ∨ x ≤ l.foldr max 0 := by omega
    rw [foldr_cons, hmax, ih]
    simp

/-- **割り当てが成功するのは、最も長い空きの区間に header ごと収まるときである。** -/
theorem alloc_isSome_iff (hpos : 0 < hdr) (h : NoAdjFree bs) :
    (alloc hdr lo n bs).isSome = true ↔ n + hdr ≤ largestFreeRange hdr bs := by
  rw [largestFreeRange, le_foldr_max_iff (by omega), freeRanges_of_noAdjFree hpos h,
    isSome_iff_ne_none, ne_eq, alloc_none_iff]
  constructor
  · intro hn
    push Not at hn
    obtain ⟨b, hb, hf, hle⟩ := hn
    exact ⟨hdr + b.size, mem_map.mpr ⟨b, mem_filter.mpr ⟨hb, hf⟩, rfl⟩, by omega⟩
  · rintro ⟨r, hr, hle⟩ hall
    obtain ⟨b, hb, rfl⟩ := mem_map.mp hr
    obtain ⟨hb1, hb2⟩ := mem_filter.mp hb
    have := hall b hb1 hb2
    omega

end Alos.BlockList
