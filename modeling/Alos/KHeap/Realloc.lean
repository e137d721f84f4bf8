import Alos.KHeap.Coalescing
import Mathlib.Algebra.Order.BigOperators.Group.List

/-!
# 割り当てる大きさと `krealloc` の中身

`align8` は `2 ^ 64` で回り込むので、`2 ^ 64 - 8` を超える要求は小さい block で満たされてしまう。回り込まない要求では、
返る block は要求より小さくなく、`krealloc` は中身を運び、ほかの block に触れない。

* `kmalloc_krealloc_sizes` — どの実行の後でも、約束が守られるのは回り込まない要求に限る
* `kmalloc_wraps` — 回り込む要求では、要求より小さい block が返る
-/

namespace Alos.KHeap

open Bytes BlockList List Option

variable {p n x k : Nat} {h h' : Heap}

/-! ## 使用中の block -/

variable {start size : Nat} {s : St} {bs : List Blk}

theorem Inv.used_of_live (inv : Inv start size s bs) (hp : p ∈ s.live) : ∃ x, p = x + headerSize ∧
      (x, (readBlock s.heap.mem x).size) ∈ used headerSize s.heap.heapStart bs := by
  obtain ⟨pre, post, k, rfl, rfl⟩ := inv.split_live hp
  refine ⟨_, rfl, ?_⟩
  rw [(dataBlock_eq inv.ok).2.2.1]
  simp [used_append, used_cons]

/-- 敷き詰めたリストの中に、`p` を data とする `n` byte 以上の使用中の block がある。 -/
def HasBlock (s : St) (size p n : Nat) : Prop :=
  ∃ l, Tiled s size l ∧ p ∈ s.live ∧ ∃ x ∈ l, x.1 + headerSize = p ∧
    x.2.isFree = false ∧ n ≤ x.2.size

theorem HasBlock.mono {n' : Nat} (h : HasBlock s size p n') (hn : n ≤ n') :
    HasBlock s size p n := by
  obtain ⟨l, ht, hlive, x, hx, hxp, hfree, hsize⟩ := h
  exact ⟨l, ht, hlive, x, hx, hxp, hfree, hn.trans hsize⟩

theorem Inv.hasBlock (inv : Inv start size s bs) (hp : x + headerSize ∈ s.live)
    (hu : (x, k) ∈ used headerSize s.heap.heapStart bs) (hn : n ≤ k) :
    HasBlock s size (x + headerSize) n := by
  rw [used_eq_entries] at hu
  obtain ⟨y, hy, he⟩ := mem_map.mp hu
  obtain ⟨rfl, rfl⟩ := Prod.mk.inj he
  obtain ⟨hmem, hfree⟩ := mem_filter.mp hy
  exact ⟨_, inv.tiled, hp, y, hmem, rfl, by simpa using hfree, hn⟩

/-- `r` の block は、header も data も変わらない。 -/
def SameBlock (h h' : Heap) (r : Nat) : Prop :=
  ∀ y, r - headerSize ≤ y → y < r + (readBlock h.mem (r - headerSize)).size → h'.mem y = h.mem y

theorem sameBlock_of_used (hkept : ∀ y, x ≤ y → y < x + (headerSize + (readBlock h.mem x).size) →
    h'.mem y = h.mem y) :
    SameBlock h h' (x + headerSize) := by
  intro y h1 h2
  rw [Nat.add_sub_cancel] at h1 h2
  exact hkept y h1 (by omega)

theorem le_requestSize (hn : n ≤ 2 ^ 64 - 8) : n ≤ requestSize n := by
  rw [requestSize_eq hn]
  omega

/-! ## `kmalloc` -/

/-- `kmalloc` は、使用中の block に触れない。 -/
theorem kmalloc_used (ok : HeapOk h bs) (he : kmalloc h n = some (p, h')) :
    Kept h.mem h'.mem h.heapStart bs := by
  have hrefl : Kept _ h.mem h.heapStart bs := fun _ _ _ _ _ _ => rfl
  by_cases hn : n = 0
  · rw [hn] at he
    cases he
    exact hrefl
  · rcases kmalloc_cases ok hn with ⟨-, he'⟩ | ⟨_, _, _, _, -, -, -, -, he', -, -, hkept⟩
    · rw [he'] at he
      cases he
      exact hrefl
    · rw [he'] at he
      cases he
      exact hkept

/-- 空き block から切り出しても、使用中の block は残り、新しい block の番地にはない。 -/
theorem used_alloc {a : Nat} {pre post : List Blk} {b : Blk} (hf : b.free = true) (hle : n ≤ b.size)
    {z : Nat × Nat} (hz : z ∈ used headerSize a (pre ++ b :: post)) :
    z ∈ used headerSize a (pre ++ (carve headerSize kheapMinBlockSize n b ++ post)) ∧
      z.1 ≠ a + total headerSize pre := by
  have hh : headerSize = 24 := rfl
  obtain ⟨k, hk, -⟩ := used_carve _ _ _ n
  rw [used_append, used_cons, if_pos hf, mem_append] at hz
  rw [used_append, used_append, hk, total_carve hle, mem_append, singleton_append, mem_cons]
  rcases hz with hz | hz
  · have := (used_bounds hz).2
    exact ⟨.inl hz, by omega⟩
  · have := (used_bounds hz).1
    exact ⟨.inr (.inr hz), by omega⟩

/-- 割り当ては `NULL` か、要求を満たす block である。生きている block には触れない。 -/
theorem Inv.kmalloc_sizes (inv : Inv start size s bs) :
    ∃ q h', KHeap.kmalloc s.heap n = some (q, h') ∧ (q = 0 → h' = s.heap) ∧
      (q ≠ 0 → HasBlock ⟨h', q :: s.live⟩ size q (requestSize n)) ∧
      ∀ r ∈ s.live, SameBlock s.heap h' r := by
  rcases inv.kmalloc n with ⟨-, he⟩ | ⟨q, h', bs', x, k, he, hq, inv', -, rfl, hu, hk⟩
  · exact ⟨0, s.heap, he, fun _ => rfl, fun h => absurd rfl h, fun _ _ _ _ _ => rfl⟩
  · refine ⟨_, h', he, fun h => absurd h hq, fun _ => inv'.hasBlock (mem_cons_self ..) hu hk, ?_⟩
    intro r hr
    obtain ⟨z, rfl, hz⟩ := inv.used_of_live hr
    exact sameBlock_of_used (kmalloc_used inv.ok he _ _ hz)

/-! ## `krealloc` -/

theorem copyBytes_copied {m : Mem} {dst src : Nat} (hapart : dst + n ≤ src ∨ src + n ≤ dst) :
    ∀ i < n, copyBytes m dst src n (dst + i) = m (src + i) := by
  induction n with
  | zero => exact fun i hi => absurd hi (Nat.not_lt_zero i)
  | succ n ih =>
    intro i hi
    have hsrc := agreeOff_copyBytes m dst src n (src + n) (by omega)
    rw [copyBytes]
    by_cases hin : i = n
    · subst hin
      rw [hsrc]
      simp [store]
    · have hag := agreeOff_store (copyBytes m dst src n) (dst + n) 1
        (copyBytes m dst src n (src + n)).toNat (dst + i) (by omega)
      rw [hag]
      exact ih (by omega) i (by omega)

/-- 生きている block を解放しても、ほかの使用中の block は残り、変わらない。 -/
theorem Inv.kfree_live (inv : Inv start size s bs) (hp : p ∈ s.live) :
    ∃ h' bs', KHeap.kfree s.heap p = some h' ∧ Inv start size ⟨h', s.live.erase p⟩ bs' ∧
      ∀ x k, (x, k) ∈ used headerSize start bs → x + headerSize ≠ p →
        (x, k) ∈ used headerSize start bs' ∧
        ∀ y, x ≤ y → y < x + (headerSize + k) → h'.mem y = s.heap.mem y := by
  obtain ⟨pre, post, c, rfl, hpe⟩ := inv.split_live hp
  obtain ⟨h', he, inv', hkept⟩ := inv.kfree hp hpe
  refine ⟨h', _, he, inv', fun x k hx hne => ?_⟩
  have hstart : s.heap.heapStart = start := inv.start_eq
  have hmem : (x, k) ∈ used headerSize start (pre ++ ⟨c, true⟩ :: post) := by
    rw [used_append, mem_append]
    rw [used_append, used_cons, if_neg (by simp), singleton_append, mem_append, mem_cons] at hx
    rcases hx with hx | hx | hx
    · exact .inl hx
    · exact absurd (by rw [(Prod.mk.inj hx).1, hpe, hstart]) hne
    · exact .inr hx
  refine ⟨?_, hkept x k (hstart ▸ hmem)⟩
  rwa [used_sweep, used_append, used_absorb _ rfl, ← used_append]

theorem le_align8 (hn : n ≤ 2 ^ 64 - 8) : n ≤ align8 n := by
  unfold align8
  omega

/-- 新しい block に写してから古い block を解放する。 -/
theorem Inv.krealloc_copied (inv : Inv start size s bs) {q : Nat} (hp : p ∈ s.live) {h1 : Heap}
    {bs1 : List Blk} (hk : k = (readBlock s.heap.mem (p - headerSize)).size) (hkn : k < n)
    (he : KHeap.kmalloc s.heap n = some (q, h1))
    (inv1 : Inv start size ⟨{ h1 with mem := copyBytes h1.mem q p k }, q :: s.live⟩ bs1)
    (ha : alloc headerSize kheapMinBlockSize (requestSize n) bs = some bs1)
      (hn : n ≤ requestSize n) :
    ∃ h', KHeap.kfree { h1 with mem := copyBytes h1.mem q p k } p = some h' ∧
      HasBlock ⟨h', q :: s.live.erase p⟩ size q n ∧ (∀ i < k, h'.mem (q + i) = s.heap.mem (p + i)) ∧
      ∀ r ∈ s.live, r ≠ p → SameBlock s.heap h' r := by
  obtain rfl : s.heap.heapStart = start := inv.start_eq
  -- 新しい block
  rcases kmalloc_cases inv.ok (show n ≠ 0 by omega) with
    ⟨hnone, -⟩ | ⟨pre, b, post, h1', rfl, hfree, hle, ha', he', -, -, hkept1⟩
  · rw [hnone] at ha
    cases ha
  obtain ⟨rfl, rfl⟩ := Prod.mk.inj (some.inj (he.symm.trans he'))
  obtain rfl := some.inj (ha.symm.trans ha')
  obtain ⟨c, hx, hc⟩ := mem_used_alloc _ pre post hle
  -- 古い block
  obtain ⟨z, rfl, hz⟩ := inv.used_of_live hp
  rw [Nat.add_sub_cancel] at hk
  obtain ⟨hz1, hzx⟩ := used_alloc hfree hle hz
  have hapart := used_disjoint hx hz1 (Ne.symm hzx)
  obtain ⟨h', bs2, hf, inv2, hkept⟩ := inv1.kfree_live (mem_cons_of_mem _ hp)
  have herase := inv1.erase_cons hp
  dsimp only at herase inv2 hkept hf
  rw [herase] at inv2
  obtain ⟨hx2, hdata⟩ := hkept _ c hx (by omega)
  refine ⟨h', hf, ?_, fun i hi => ?_, fun r hr hne => ?_⟩
  · refine inv2.hasBlock (mem_cons_self ..) ?_ (show n ≤ c by omega)
    rwa [inv2.start_eq]
  · rw [hdata _ (by omega) (by omega), copyBytes_copied (by omega) i hi]
    exact hkept1 _ _ hz _ (by omega) (by omega)
  · obtain ⟨w, rfl, hw⟩ := inv.used_of_live hr
    obtain ⟨hw1, hwx⟩ := used_alloc hfree hle hw
    have haw := used_disjoint hx hw1 (Ne.symm hwx)
    refine sameBlock_of_used fun y h1 h2 => ?_
    rw [(hkept w _ hw1 hne).2 y h1 h2, agreeOff_copyBytes _ _ _ _ y (by omega)]
    exact hkept1 _ _ hw y h1 h2

/-- `krealloc` は `NULL` を返して何も変えないか、要求を満たす block に中身を運ぶ。 -/
theorem Inv.krealloc_moves (inv : Inv start size s bs) (hp : p ∈ s.live) (hn : n ≤ 2 ^ 64 - 8) :
    ∃ q h', KHeap.krealloc s.heap p n = some (q, h') ∧ (0 < n → q = 0 → h' = s.heap) ∧
      (q ≠ 0 → HasBlock ⟨h', q :: s.live.erase p⟩ size q n ∧
        ∀ i < min (readBlock s.heap.mem (p - headerSize)).size n,
          h'.mem (q + i) = s.heap.mem (p + i)) ∧
      ∀ r ∈ s.live, r ≠ p → SameBlock s.heap h' r := by
  have hle := le_align8 hn
  rcases inv.krealloc_cases hp n with ⟨h0, he⟩ | ⟨h0, q, hq, he⟩ |
    ⟨h0, q, h1, m, bs1, hq, hlt, hcopied, hm, -, inv1, ha, he⟩
  · obtain ⟨h', bs', hf, -, hkept⟩ := inv.kfree_live hp
    refine ⟨0, h', by rw [he, hf]; rfl, fun hpos => absurd h0 (by omega), fun hne =>
      absurd rfl hne, ?_⟩
    intro r hr hne
    obtain ⟨x, rfl, hx⟩ := inv.used_of_live hr
    rw [inv.start_eq] at hx
    exact sameBlock_of_used (hkept x _ hx hne).2
  · refine ⟨q, s.heap, he, fun _ _ => rfl, fun hne => ?_, fun _ _ _ _ _ _ => rfl⟩
    obtain ⟨rfl, hsize⟩ := hq.resolve_left fun h => hne h.1
    refine ⟨?_, fun i _ => rfl⟩
    obtain ⟨x, rfl, hx⟩ := inv.used_of_live hp
    have inv' : Inv _ size ⟨s.heap, (x + headerSize) :: s.live.erase _⟩ bs :=
      ⟨inv.ok, inv.start_eq, inv.size_eq, (perm_cons_erase hp).symm.trans inv.live_perm,
        inv.min_size⟩
    exact inv'.hasBlock (mem_cons_self ..) hx (hle.trans hsize)
  · have hreq := align8_le_requestSize (align8 n)
    rw [align8_align8] at hreq
    rw [hcopied] at inv1 he
    obtain ⟨h', hf, hblock, hcopy, hother⟩ :=
      inv.krealloc_copied (n := align8 n) hp rfl hlt hm inv1 ha hreq
    exact ⟨q, h', by rw [he, hf]; rfl, fun _ hz => absurd hz hq,
      fun _ => ⟨hblock.mono hle, fun i hi => hcopy i (by omega)⟩, hother⟩

/-- `n` byte の要求についての約束。`NULL` でなければ足りる block を返し、ほかの block に触れない。 -/
structure Served (s : St) (size n : Nat) : Prop where
  kmalloc : ∃ q h', KHeap.kmalloc s.heap n = some (q, h') ∧
    (q ≠ 0 → HasBlock ⟨h', q :: s.live⟩ size q n) ∧ ∀ r ∈ s.live, SameBlock s.heap h' r
  krealloc : ∀ p ∈ s.live, ∃ q h', KHeap.krealloc s.heap p n = some (q, h') ∧
    (q ≠ 0 → HasBlock ⟨h', q :: s.live.erase p⟩ size q n ∧
      ∀ i < min (readBlock s.heap.mem (p - headerSize)).size n,
        h'.mem (q + i) = s.heap.mem (p + i)) ∧
    (0 < n → q = 0 → h' = s.heap) ∧
    ∀ r ∈ s.live, r ≠ p → SameBlock s.heap h' r

theorem Inv.served (inv : Inv start size s bs) (hn : n ≤ 2 ^ 64 - 8) : Served s size n where
  kmalloc := by
    obtain ⟨q, h', he, -, hblock, hother⟩ := inv.kmalloc_sizes
    exact ⟨q, h', he, fun hq => (hblock hq).mono (le_requestSize hn), hother⟩
  krealloc p hp := by
    obtain ⟨q, h', he, hnull, hblock, hother⟩ := inv.krealloc_moves hp hn
    exact ⟨q, h', he, hblock, hnull, hother⟩

/-! ## 回り込む要求 -/

theorem HasBlock.le (h : HasBlock s size p n) : headerSize + n ≤ size := by
  obtain ⟨l, ht, -, x, hx, -, -, hn⟩ := h
  have hle := le_sum_of_mem (mem_map_of_mem (f := fun x => headerSize + x.2.size) hx)
  rw [ht.sum_eq] at hle
  omega

/-- 生きている block がなければ先頭の block は空きで、最小の要求は満たされる。 -/
theorem Inv.alloc_of_live_nil (inv : Inv start size s bs) (hl : s.live = []) :
    alloc headerSize kheapMinBlockSize kheapMinBlockSize bs ≠ none := by
  obtain ⟨b, bs', rfl⟩ := exists_cons_of_ne_nil inv.ok.ne_nil
  have hperm := inv.live_perm
  rw [hl, nil_perm, ptrs, map_eq_nil_iff, used_cons, append_eq_nil_iff] at hperm
  have hfree : b.free = true := by simpa using hperm.1
  rw [ne_eq, alloc_none_iff]
  intro hsmall
  have hlt := hsmall b (mem_cons_self ..) hfree
  have hle := inv.min_size b (mem_cons_self ..)
  omega

/-- 回り込む要求では、`krealloc` はもとの block を、`kmalloc` は最小の block を返してしまう。 -/
theorem Inv.not_served (inv : Inv start size s bs) (hn : 2 ^ 64 - 8 < n) (h64 : n < 2 ^ 64) :
    ¬Served s size n := by
  have hwrap : align8 n = 0 := by
    unfold align8
    omega
  have hsize : size < headerSize + n := by
    have hh : headerSize = 24 := rfl
    have hfits := inv.ok.fits
    have hpos := inv.ok.pos
    have heq := inv.size_eq
    omega
  intro hserved
  cases hl : s.live with
  | nil =>
    have hreq : requestSize n = kheapMinBlockSize := by
      rw [requestSize, hwrap]
      rfl
    obtain ⟨q, h', he, hblock, -⟩ := hserved.kmalloc
    rcases inv.kmalloc n with ⟨hnone, -⟩ | ⟨q', h'', -, -, -, he', hq, -⟩
    · rw [hreq] at hnone
      exact inv.alloc_of_live_nil hl (hnone.resolve_left (by omega))
    · obtain ⟨rfl, rfl⟩ := Prod.mk.inj (some.inj (he.symm.trans he'))
      exact absurd (hblock hq).le (by omega)
  | cons p live =>
    have hp : p ∈ s.live := hl ▸ mem_cons_self ..
    have hpne : p ≠ 0 := by
      obtain ⟨x, rfl, -⟩ := inv.used_of_live hp
      exact Nat.succ_ne_zero _
    obtain ⟨q, h', he, hblock, -⟩ := hserved.krealloc p hp
    rcases inv.krealloc_cases hp n with ⟨h0, -⟩ | ⟨-, q', hq, he'⟩ | ⟨-, -, -, -, -, -, hlt, -⟩
    · omega
    · obtain ⟨rfl, -⟩ := hq.resolve_left (by omega)
      obtain ⟨rfl, rfl⟩ := Prod.mk.inj (some.inj (he.symm.trans he'))
      exact absurd (hblock hpne).1.le (by omega)
    · omega

/-! ## 実行 -/

/--
**要求の約束が守られるのは、切り上げが回り込まない要求に限る。**

どの実行の後でも成り立つ。`krealloc` が `NULL` を返せば heap は何も変わらず、
どちらの関数もほかの生きている block には触れない。
-/
theorem kmalloc_krealloc_sizes {h : Heap} {ops : List Op} (hs : start ≠ 0)
    (hsz : headerSize + kheapMinBlockSize ≤ size) (hfit : start + size < 2 ^ 64)
    (hr : Run.Reach step Allowed (boot h start size) ops s) {n : Nat} (h64 : n < 2 ^ 64) :
    Served s size n ↔ n ≤ 2 ^ 64 - 8 := by
  obtain ⟨bs, inv⟩ := reach_inv hs hsz hfit hr
  refine ⟨fun hserved => ?_, fun hn => inv.served hn⟩
  by_contra hn
  exact inv.not_served (by omega) h64 hserved

/-- 4 KiB の heap で取った 32 byte を 100 byte に広げる。 -/
theorem kmalloc_krealloc_sizes_grow :
    ∃ s, Run.Reach step Allowed (boot ⟨fun _ => 0, 0, 0⟩ 0x200000 4096) [.kmalloc 32] s ∧
      0x200018 ∈ s.live ∧ ∃ q h', krealloc s.heap 0x200018 100 = some (q, h') ∧
        (q ≠ 0 → HasBlock ⟨h', q :: s.live.erase 0x200018⟩ 4096 q 100) := by
  refine Run.exists_reach_of (P := fun s => 0x200018 ∈ s.live) (by decide +kernel) fun s hr hlive =>
    ?_
  have hserved := (kmalloc_krealloc_sizes (n := 100) (by decide) (by decide) (by decide) hr
    (by decide)).mpr (by decide)
  obtain ⟨q, h', he, hblock, -⟩ := hserved.krealloc _ hlive
  exact ⟨hlive, q, h', he, fun hq => (hblock hq).1⟩

/-- **回り込む要求では、要求より小さい block が返る。** `krealloc` は同じ block を返す。 -/
theorem kmalloc_wraps :
    ∃ s h1 h2, Run.Reach step Allowed (boot ⟨fun _ => 0, 0, 0⟩ 0x200000 4096) [.kmalloc 32] s ∧
      0x200018 ∈ s.live ∧
      kmalloc s.heap (2 ^ 64 - 1) = some (0x200050, h1) ∧ (readBlock h1.mem 0x200038).size = 16 ∧
      krealloc s.heap 0x200018 (2 ^ 64 - 1) = some (0x200018, h2) ∧
        (readBlock h2.mem 0x200000).size = 32 := by
  have hrun : (Run.execute step Allowed (boot ⟨fun _ => 0, 0, 0⟩ 0x200000 4096) [.kmalloc 32]).any
      (fun s => decide (0x200018 ∈ s.live) &&
        ((kmalloc s.heap (2 ^ 64 - 1)).any fun r =>
          r.1 == 0x200050 && (readBlock r.2.mem 0x200038).size == 16) &&
        ((krealloc s.heap 0x200018 (2 ^ 64 - 1)).any fun r =>
          r.1 == 0x200018 && (readBlock r.2.mem 0x200000).size == 32)) = true := by decide +kernel
  simp only [Option.any_eq_true, Bool.and_eq_true, decide_eq_true_eq, beq_iff_eq] at hrun
  obtain ⟨s, hexec, ⟨hlive, ⟨q, h1⟩, he1, rfl, hs1⟩, ⟨q', h2⟩, he2, rfl, hs2⟩ := hrun
  exact ⟨s, h1, h2, Run.reach_of_execute hexec, hlive, he1, hs1, he2, hs2⟩

end Alos.KHeap
