import Alos.Ext2.Allocation
import Alos.Lib.Run
import Mathlib.Algebra.Order.BigOperators.Group.Finset

/-!
# 空きの数と bitmap

空きは三か所に記録される。bitmap の 0 の bit、group descriptor の数、superblock の数である。

* `alloc_in_range` — 返る番号の範囲と、解放で下りる bit
* `reach_counters` — 四つの関数をどう並べても一致は保たれ、
  返した番号が、解放される前に再び返されることはない
-/

namespace Alos.Ext2

open Bytes Bitmap Run List

/-! ## 数の一致 -/

/-- group の bitmap のうち、番号の付いた範囲の 0 の bit の数。 -/
def freeBits (G : Geom) (m : Mem) (k : Kind) (g : Nat) : Nat :=
  zeros (blockAt G.blockSize m (G.bitmap k g)) (G.validBits k g)

/-- superblock と group の空きの数が、bitmap と合っている。 -/
structure Matching (G : Geom) (s : State) : Prop where
  group : ∀ k : Kind, ∀ g < G.numGroups, k.pool.count s.fs g = freeBits G s.disk k g
  total : ∀ k : Kind, k.pool.total s.fs = ∑ g ∈ Finset.range G.numGroups, k.pool.count s.fs g

section Matching

variable {G : Geom} {k : Kind} {g : Nat} {d : Int} {flip : Mem → Mem} {s s' : State}

theorem Matching.total_eq (hm : Matching G s) :
    k.pool.total s.fs = ∑ g ∈ Finset.range G.numGroups, freeBits G s.disk k g := by
  rw [hm.total]
  exact Finset.sum_congr rfl fun g hg => hm.group k g (Finset.mem_range.mp hg)

theorem Matching.room (hm : Matching G s) (k : Kind) : Room G s k := by
  intro g hg hc
  rw [hm.group k g hg] at hc
  exact exists_zero_of_zeros_pos hc

/-- どの group にも空きがなければ、全体の空きの数も 0 である。 -/
theorem Matching.total_eq_zero (hm : Matching G s)
    (h : k.pool.total s.fs = 0 ∨ ∀ g < G.numGroups, k.pool.count s.fs g = 0) :
    k.pool.total s.fs = 0 := by
  rcases h with h | h
  · exact h
  · rw [hm.total]
    exact Finset.sum_eq_zero fun g hg => h g (Finset.mem_range.mp hg)

/-- 番号の付いた bit は、全体で物の数だけある。 -/
theorem sum_validBits_le (G : Geom) (k : Kind) (n : Nat) :
    ∑ g ∈ Finset.range n, G.validBits k g ≤ min (n * G.per k) (G.objects k) := by
  induction n with
  | zero => simp
  | succ n ih =>
    rw [Finset.sum_range_succ, Nat.succ_mul]
    have : G.validBits k n = min _ _ := rfl
    omega

/-- 一つの項だけが `d` 変わった和。 -/
theorem sum_range_shift {f f' : Nat → Nat} {n : Nat} (hg : g < n) (hself : (f' g : Int) = f g + d)
    (hne : ∀ j, j ≠ g → f' j = f j) :
    ((∑ j ∈ Finset.range n, f' j : Nat) : Int) = (∑ j ∈ Finset.range n, f j : Nat) + d := by
  have hmem := Finset.mem_range.mpr hg
  have hrest : ∑ j ∈ (Finset.range n).erase g, f' j = ∑ j ∈ (Finset.range n).erase g, f j :=
    Finset.sum_congr rfl fun j hj => hne j (Finset.ne_of_mem_erase hj)
  have h1 := Finset.add_sum_erase _ f hmem
  have h2 := Finset.add_sum_erase _ f' hmem
  omega

theorem Flipped.freeBits_ne (h : Flipped G k g d flip s s') (hr : Ready G s)
    (hv : 0 < G.validBits k g) {k' : Kind} {g' : Nat} (hne : ¬(k' = k ∧ g' = g)) :
    freeBits G s'.disk k' g' = freeBits G s.disk k' g' := by
  apply zeros_congr
  intro i hi
  have hle := hr.wf.valid_le (k := k') (g := g')
  exact test_congr (h.bitmap_ne hr hv (by omega) hne (by omega))

theorem Flipped.freeBits_self (h : Flipped G k g d flip s s') (hr : Ready G s) :
    freeBits G s'.disk k g
      = zeros (flip (blockAt G.blockSize s.disk (G.bitmap k g))) (G.validBits k g) := by
  apply zeros_congr
  intro i hi
  have hle := hr.wf.valid_le (k := k) (g := g)
  exact test_congr (h.bits _ (by omega))

/-- 一つの bit の反転は、二つの数の増減と釣り合う。 -/
theorem Matching.flipped (hm : Matching G s) (h : Flipped G k g d flip s s') (hr : Ready G s)
    (hv : 0 < G.validBits k g)
    (hd : (zeros (flip (blockAt G.blockSize s.disk (G.bitmap k g))) (G.validBits k g) : Int)
      = freeBits G s.disk k g + d) : Matching G s' := by
  have hg := hr.wf.group_lt_of_valid hv
  rw [← h.freeBits_self hr] at hd
  have hcount : k.pool.count s'.fs g = freeBits G s'.disk k g := by
    have hle : freeBits G s'.disk k g ≤ G.validBits k g := zeros_le
    have hlt := hr.wf.valid_lt (k := k) (g := g)
    rw [h.fs, count_adjust_self, hm.group k g hg]
    omega
  have hgroup : ∀ k', ∀ g' < G.numGroups, k'.pool.count s'.fs g' = freeBits G s'.disk k' g' := by
    intro k' g' hg'
    by_cases he : k' = k ∧ g' = g
    · obtain ⟨rfl, rfl⟩ := he
      exact hcount
    · rw [h.freeBits_ne hr hv he, h.fs, count_adjust_ne he, hm.group k' g' hg']
  refine ⟨hgroup, ?_⟩
  intro k'
  by_cases hk : k' = k
  · subst hk
    -- 和の変化は group の変化と同じで、32 bit に収まる
    have hsum := @sum_range_shift g d (k'.pool.count s.fs) (k'.pool.count _) _ hg
      (by rw [hcount, hd, hm.group k' g hg])
      (fun j hj => by rw [h.fs, count_adjust_ne (fun he => hj he.2)])
    have hbound : ∑ j ∈ Finset.range G.numGroups, k'.pool.count s'.fs j < 2 ^ 31 := by
      have hle : ∑ j ∈ Finset.range G.numGroups, k'.pool.count s'.fs j
          ≤ ∑ j ∈ Finset.range G.numGroups, G.validBits k' j := by
        apply Finset.sum_le_sum
        intro j hj
        rw [hgroup k' j (Finset.mem_range.mp hj)]
        exact zeros_le
      have hv := sum_validBits_le G k' G.numGroups
      have hobj : G.objects k' < 2 ^ 31 := by
        have := hr.wf.blocksCount_lt
        have := hr.wf.inodes_lt
        cases k' <;> simp only [Geom.objects] <;> omega
      omega
    have htotal := hm.total k'
    conv => lhs; rw [h.fs, total_adjust_self]
    omega
  · rw [h.fs, total_adjust_ne hk, hm.total]
    exact Finset.sum_congr rfl fun j _ => (count_adjust_ne (fun he => hk he.1)).symm

variable {i : Nat}

theorem Matching.alloc (hm : Matching G s)
    (h : Flipped G k (i / G.per k) (-1) (Bitmap.set · (i % G.per k)) s s') (hr : Ready G s)
    (hi : i < G.objects k) (hz : marked G s.disk k i = false) : Matching G s' := by
  have hbit := hr.wf.bit_lt hi
  have hzeros := zeros_set hbit hz
  refine hm.flipped h hr (by omega) ?_
  unfold freeBits
  omega

theorem Matching.free (hm : Matching G s)
    (h : Flipped G k (i / G.per k) 1 (Bitmap.clear · (i % G.per k)) s s') (hr : Ready G s)
    (hi : i < G.objects k) (ho : marked G s.disk k i = true) : Matching G s' := by
  have hbit := hr.wf.bit_lt hi
  have hzeros := zeros_clear hbit ho
  refine hm.flipped h hr (by omega) ?_
  unfold freeBits
  omega

theorem Matching.withHeap (hm : Matching G s) (h : Nat → Option Mem) :
    Matching G { s with heap := h } := ⟨hm.group, hm.total⟩

end Matching

/-! ## 実行 -/

/-- 四つの関数。 -/
def allocOf : Kind → State → Int × State
  | .block => ext2AllocBlock
  | .inode => ext2AllocInode

def freeOf : Kind → State → Nat → Bool × State
  | .block => ext2FreeBlock
  | .inode => ext2FreeInode

theorem allocOf_eq (k : Kind) (s : State) : allocOf k s = k.pool.alloc s := by
  cases k <;> rfl

theorem freeOf_eq {G : Geom} {s : State} (hr : Ready G s) {k : Kind} {i : Nat}
    (hi : i < G.objects k) : freeOf k s (G.base k + i) = k.pool.free s i := by
  have hlt := hr.wf.object_lt hi
  cases k with
  | block =>
    have hfirst : sFirstDataBlock _ = G.firstDataBlock := hr.base .block
    simp only [freeOf, ext2FreeBlock, hfirst, Geom.base, Kind.pool] at *
    rw [show (G.firstDataBlock + i + 2 ^ 32 - G.firstDataBlock) % 2 ^ 32 = i by omega]
  | inode =>
    show ext2FreeInode s (1 + i) = inodePool.free s i
    unfold ext2FreeInode
    rw [if_neg (by omega), Nat.add_sub_cancel_left]

/-- 返った番号は範囲にあって、その bit だけが立ち、解放すればその bit だけが下りる。 -/
def InRange (G : Geom) (s : State) (k : Kind) : Prop :=
  ∀ (v : Nat) s', allocOf k s = ((v : Int), s') → G.base k ≤ v ∧ v < G.base k + G.objects k ∧
    (∀ k' j, j < G.objects k' → marked G s'.disk k' j
      = (decide (k' = k ∧ G.base k + j = v) || marked G s.disk k' j)) ∧
    (s'.heap 0 ≠ none → ∃ s'', freeOf k s' v = (true, s'') ∧
      ∀ k' j, j < G.objects k' → marked G s''.disk k' j = marked G s.disk k' j)

theorem Numbered.inRange {G : Geom} {s : State} {k : Kind} (hnum : Numbered G s k) (hr : Ready G s)
    (hread : Readable G s k) : InRange G s k := by
  intro v s' hv
  rw [allocOf_eq] at hv
  rcases alloc_cases hr hread hnum with ⟨n, h, -⟩ | ⟨i, t, hi, hz, h, hf, -⟩
  · cases hv.symm.trans h
  obtain ⟨hvi, rfl⟩ := Prod.mk.inj (hv.symm.trans h)
  obtain rfl := Int.natCast_inj.mp hvi
  have hmark : ∀ k' j, j < G.objects k' → _ := fun k' j hj => marked_alloc hf hr hi hj
  simp only [Nat.add_left_cancel_iff]
  refine ⟨by omega, by omega, hmark, fun hheap => ?_⟩
  have hset : marked G s'.disk k i = true := by simp [hmark _ i hi]
  rw [freeOf_eq (hf.ready hr) hi]
  rcases free_cases (hf.ready hr) hi with ⟨h0 | h0, -⟩ | ⟨-, t, ht, hf'⟩
  · exact absurd h0 hheap
  · rw [hset] at h0
    cases h0
  · refine ⟨t, ht, fun k' j hj => ?_⟩
    rw [marked_free hf' (hf.ready hr) hi hj, hmark k' j hj]
    by_cases he : k' = k ∧ j = i
    · obtain ⟨rfl, rfl⟩ := he
      simp [hz]
    · simp [he]

/-- 番号の付かない空きを取ると、番号は範囲を越える。 -/
theorem First.unnumbered {G : Geom} {s : State} {k : Kind} {g bit : Nat} (hf : First G s k g bit)
    (hr : Ready G s) (hfirst : G.firstDataBlock ≤ 1)
    (hfit : G.numGroups * G.per .inode < 2 ^ 31) (hbit : ¬bit < G.validBits k g) :
    G.objects k ≤ g * G.per k + bit ∧ G.base k + (g * G.per k + bit) < 2 ^ 31 := by
  have hper := lt_of_lt_of_le hf.vacant.2.1 hr.searched_le
  have hlast : g * G.per k + G.per k ≤ G.numGroups * G.per k := by
    rw [← Nat.succ_mul]
    exact Nat.mul_le_mul_right _ hf.group
  unfold Geom.validBits at hbit
  refine ⟨by omega, ?_⟩
  cases k with
  | inode =>
    simp only [Geom.base]
    omega
  | block =>
    have := hr.wf.blocksCount_lt
    have := hr.wf.per_lt .block
    have : G.numGroups * G.per .block ≤ G.blocksCount + G.per .block - 1 := by
      rw [hr.wf.groups]
      exact Nat.div_mul_le_self _ _
    simp only [Geom.base]
    omega

/--
**返る番号が範囲にあるのは、最初に見つかる空きに番号が付いているか、空きがないと数えているか、
buffer が取れないとき、かつそのときに限る。**
-/
theorem alloc_in_range {G : Geom} {s : State} (hr : Ready G s) (hread : ∀ k, Readable G s k)
    (hfirst : G.firstDataBlock ≤ 1) (hfit : G.numGroups * G.per .inode < 2 ^ 31) (k : Kind) :
    InRange G s k ↔ Numbered G s k ∨ k.pool.total s.fs = 0 ∨ s.heap 0 = none ∨ s.heap 1 = none := by
  constructor
  · intro hin
    by_contra hno
    simp only [not_or] at hno
    obtain ⟨hnum, h0, hheap0, hheap1⟩ := hno
    simp only [Numbered, not_forall] at hnum
    obtain ⟨g, bit, hf, hbit⟩ := hnum
    obtain ⟨hge, hlt⟩ := hf.unnumbered hr hfirst hfit hbit
    rcases alloc_take hr (hread k) with ⟨h, -⟩ | ⟨h, -⟩ | ⟨h, -⟩ |
      ⟨-, -, g', bit', m, hf', hm, hz, h⟩
    · exact h0 h
    · exact hheap0 h
    · exact h g hf.group bit hf.vacant
    obtain ⟨rfl, rfl⟩ := hf.unique hf'
    rcases take_eq hr.next hf.group (hread k g hf.group hf.vacant.1) hm hz with
      ⟨h', -⟩ | ⟨-, m2, m3, -, -, ht⟩
    · exact hheap1 h'
    rw [toInt32_of_lt hlt] at ht
    have := (hin _ _ ((allocOf_eq k s).trans (h.trans ht))).2.1
    omega
  · rintro (h | h)
    · exact h.inRange hr (hread k)
    intro v s' hv
    rw [allocOf_eq] at hv
    rcases alloc_take hr (hread k) with ⟨-, h'⟩ | ⟨-, h'⟩ | ⟨-, h'⟩ |
      ⟨h0, hheap, g', bit', m, hf', hm, hz, h'⟩
    · cases hv.symm.trans h'
    · cases hv.symm.trans h'
    · cases hv.symm.trans h'
    rcases take_eq hr.next hf'.group (hread k _ hf'.group hf'.vacant.1) hm hz with
      ⟨-, ht⟩ | ⟨hnone, -⟩
    · cases hv.symm.trans (h'.trans ht)
    · exact absurd h (by simp only [h0, hheap, false_or]; exact hnone)

/-- 番号 `n` の物があり、割り当てられている。 -/
def Allocated (G : Geom) (m : Mem) (k : Kind) (n : Nat) : Prop :=
  ∃ i < G.objects k, n = G.base k + i ∧ marked G m k i = true

/-- 呼び出しの記録。 -/
inductive Event where
  | returned (k : Kind) (n : Nat)
  | freed (k : Kind) (n : Nat)
  deriving DecidableEq, Repr

/-- file system の状態と、成功した呼び出しの記録。 -/
structure History where
  state : State
  log : List Event

inductive Op where
  | alloc (k : Kind)
  | free (k : Kind) (n : Nat)

namespace Counters

def step (h : History) : Op → Option History
  | .alloc k =>
    let r := allocOf k h.state
    some ⟨r.2, if r.1 < 0 then h.log else h.log ++ [.returned k r.1.toNat]⟩
  | .free k n =>
    let r := freeOf k h.state n
    some ⟨r.2, if r.1 then h.log ++ [.freed k n] else h.log⟩

/-- 解放するのは、割り当てられている物だけである。 -/
def Legal (h : History) : Op → Prop
  | .alloc _ => True
  | .free k n => Allocated h.state.fs.geom h.state.disk k n

/-- 記録を読み終えたときに、番号 `n` が割り当てられているか。 -/
def held (k : Kind) (n : Nat) (init : Bool) (log : List Event) : Bool :=
  log.foldl (fun b e => if e = .returned k n then true else if e = .freed k n then false else b)
    init

theorem held_append {k : Kind} {n : Nat} {init : Bool} {l₁ l₂ : List Event} :
    held k n init (l₁ ++ l₂) = held k n (held k n init l₁) l₂ := foldl_append

/-- 解放の記録がなければ、割り当てられたままである。 -/
theorem held_of_not_freed {k : Kind} {n : Nat} {log : List Event} (h : .freed k n ∉ log) :
    held k n true log = true := by
  induction log with
  | nil => rfl
  | cons e log ih =>
    have he : e ≠ .freed k n := fun he => h (he ▸ mem_cons_self)
    have hlog : .freed k n ∉ log := fun hm => h (mem_cons_of_mem e hm)
    have hstep : held k n true (e :: log) = held k n true log := by
      show held k n (if e = .returned k n then true else if e = .freed k n then false else true) log
        = _
      rw [if_neg he, ite_self]
    rw [hstep, ih hlog]

/-- 実行の不変量。bitmap は、初めの bitmap と記録から決まる。 -/
structure Inv (G : Geom) (m₀ : Mem) (h : History) : Prop where
  ready : Ready G h.state
  matching : Matching G h.state
  marked_eq : ∀ k, ∀ i < G.objects k, marked G h.state.disk k i
    = held k (G.base k + i) (marked G m₀ k i) h.log
  /-- 返した番号は、そのとき割り当てられていなかった。 -/
  fresh : ∀ k n pre post, h.log = pre ++ .returned k n :: post →
    ∃ i < G.objects k, n = G.base k + i ∧ held k n (marked G m₀ k i) pre = false

section Inv

variable {G : Geom} {m₀ : Mem} {h h' : History}

/-- 状態が変わらなければ、記録も変わらない。 -/
theorem Inv.withHeap (inv : Inv G m₀ h) (heap : Nat → Option Mem) :
    Inv G m₀ ⟨{ h.state with heap }, h.log⟩ :=
  ⟨⟨inv.ready.io, inv.ready.geom, inv.ready.wf⟩, inv.matching.withHeap heap,
    inv.marked_eq, inv.fresh⟩

theorem held_singleton {k : Kind} {n : Nat} {init : Bool} {e : Event} : held k n init [e]
    = if e = .returned k n then true else if e = .freed k n then false else init := rfl

/-- 記録の最後に足したものは、最後にあるか、足す前からあったかである。 -/
theorem snoc_eq_split {log pre post : List Event} {e x : Event}
    (h : log ++ [e] = pre ++ x :: post) :
    (pre = log ∧ x = e) ∨ ∃ post', log = pre ++ x :: post' := by
  rcases eq_nil_or_concat post with rfl | ⟨post, y, rfl⟩
  · obtain ⟨hpre, he⟩ := append_inj' h rfl
    exact .inl ⟨hpre.symm, (cons.inj he).1.symm⟩
  · have h' : log ++ [e] = (pre ++ x :: post) ++ [y] := by simpa using h
    exact .inr ⟨post, (append_inj' h' rfl).1⟩

theorem Inv.alloc (inv : Inv G m₀ h) {k : Kind} {i : Nat} {s' : State} (hi : i < G.objects k)
    (hz : marked G h.state.disk k i = false)
    (hf : Flipped G k (i / G.per k) (-1) (Bitmap.set · (i % G.per k)) h.state s') :
    Inv G m₀ ⟨s', h.log ++ [.returned k (G.base k + i)]⟩ := by
  refine ⟨hf.ready inv.ready, inv.matching.alloc hf inv.ready hi hz, ?_, ?_⟩
  · intro k' j hj
    have he : Event.returned k (G.base k + i) = .returned k' (G.base k' + j) ↔ k' = k ∧ j = i := by
      rw [Event.returned.injEq]
      constructor
      · rintro ⟨rfl, h⟩
        exact ⟨rfl, by omega⟩
      · rintro ⟨rfl, rfl⟩
        exact ⟨rfl, rfl⟩
    simp only [held_append, held_singleton, he, reduceCtorEq, if_false, ← inv.marked_eq k' j hj]
    rw [marked_alloc hf inv.ready hi hj]
    split <;> simp [*]
  · intro k' n pre post hlog
    rcases snoc_eq_split hlog with ⟨rfl, he⟩ | ⟨post, hlog⟩
    · simp only [Event.returned.injEq] at he
      obtain ⟨rfl, rfl⟩ := he
      exact ⟨i, hi, rfl, by rw [← inv.marked_eq k' i hi, hz]⟩
    · exact inv.fresh k' n pre post hlog

theorem Inv.free (inv : Inv G m₀ h) {k : Kind} {i : Nat} {s' : State} (hi : i < G.objects k)
    (ho : marked G h.state.disk k i = true)
    (hf : Flipped G k (i / G.per k) 1 (Bitmap.clear · (i % G.per k)) h.state s') :
    Inv G m₀ ⟨s', h.log ++ [.freed k (G.base k + i)]⟩ := by
  refine ⟨hf.ready inv.ready, inv.matching.free hf inv.ready hi ho, ?_, ?_⟩
  · intro k' j hj
    have he : Event.freed k (G.base k + i) = .freed k' (G.base k' + j) ↔ k' = k ∧ j = i := by
      rw [Event.freed.injEq]
      constructor
      · rintro ⟨rfl, h⟩
        exact ⟨rfl, by omega⟩
      · rintro ⟨rfl, rfl⟩
        exact ⟨rfl, rfl⟩
    simp only [held_append, held_singleton, he, reduceCtorEq, if_false, ← inv.marked_eq k' j hj]
    rw [marked_free hf inv.ready hi hj]
    split <;> simp [*]
  · intro k' n pre post hlog
    rcases snoc_eq_split hlog with ⟨rfl, he⟩ | ⟨post, hlog⟩
    · cases he
    · exact inv.fresh k' n pre post hlog

theorem Inv.step (inv : Inv G m₀ h) {op : Op} (hl : Legal h op)
    (hs : Counters.step h op = some h') : Inv G m₀ h' := by
  cases op with
  | alloc k =>
    rcases alloc_cases inv.ready ((inv.matching.room k).readable inv.ready)
      ((inv.matching.room k).numbered inv.ready) with ⟨n, ha, -⟩ | ⟨i, s', hi, hz, ha, hf, -⟩
    · simp only [Counters.step, allocOf_eq, ha, Option.some.injEq] at hs
      subst hs
      exact inv.withHeap _
    · simp only [Counters.step, allocOf_eq, ha, Option.some.injEq] at hs
      subst hs
      exact inv.alloc hi hz hf
  | free k n =>
    rw [Legal, inv.ready.geom] at hl
    obtain ⟨i, hi, rfl, ho⟩ := hl
    rcases free_cases inv.ready hi with ⟨-, ha⟩ | ⟨-, s', ha, hf⟩
    · simp only [Counters.step, freeOf_eq inv.ready hi, ha, Option.some.injEq] at hs
      subst hs
      exact inv.withHeap _
    · simp only [Counters.step, freeOf_eq inv.ready hi, ha, Option.some.injEq] at hs
      subst hs
      exact inv.free hi ho hf

theorem reach_inv {s₀ : State} {ops : List Op} (hio : IoOk s₀) (hwf : s₀.fs.geom.Wf)
    (hm : Matching s₀.fs.geom s₀) (hreach : Reach Counters.step Legal ⟨s₀, []⟩ ops h) :
    Inv s₀.fs.geom s₀.disk h := by
  refine hreach.invariant ?_ (fun _ _ _ inv hl hs => inv.step hl hs)
  refine ⟨⟨hio, rfl, hwf⟩, hm, fun _ _ _ => rfl, ?_⟩
  intro k n pre post hlog
  simp at hlog

/--
**空きの数は bitmap と合い続け、割り当てた番号は解放されるまで再び返されない。**

`kmalloc` はいつ失敗してもよい。最後の二つは、実行の間に割り当てた番号と、
初めから割り当てられていた番号についてのものである。
-/
theorem reach_counters {s₀ : State} {ops : List Op} (hio : IoOk s₀) (hwf : s₀.fs.geom.Wf)
    (hm : Matching s₀.fs.geom s₀) (hreach : Reach Counters.step Legal ⟨s₀, []⟩ ops h) :
    (∀ k : Kind, k.pool.total h.state.fs
        = ∑ g ∈ Finset.range h.state.fs.numGroups, k.pool.count h.state.fs g ∧
      k.pool.total h.state.fs = ∑ g ∈ Finset.range h.state.fs.numGroups,
        freeBits h.state.fs.geom h.state.disk k g) ∧
    (∀ k n pre mid post, h.log = pre ++ .returned k n :: mid ++ .returned k n :: post →
      .freed k n ∈ mid) ∧
    (∀ k n pre post, h.log = pre ++ .returned k n :: post →
      Allocated s₀.fs.geom s₀.disk k n → .freed k n ∈ pre) := by
  have inv := reach_inv hio hwf hm hreach
  refine ⟨?_, ?_, ?_⟩
  · intro k
    rw [inv.ready.numGroups, inv.ready.geom]
    exact ⟨inv.matching.total k, inv.matching.total_eq⟩
  · intro k n pre mid post hlog
    by_contra hfreed
    obtain ⟨i, -, -, hheld⟩ := inv.fresh k n _ post hlog
    rw [held_append] at hheld
    have : held k n (held k n (marked s₀.fs.geom s₀.disk k i) pre) (.returned k n :: mid)
        = held k n true mid := by
      show held k n (if Event.returned k n = .returned k n then true else _) mid = _
      rw [if_pos rfl]
    rw [this, held_of_not_freed hfreed] at hheld
    cases hheld
  · intro k n pre post hlog halloc
    by_contra hfreed
    obtain ⟨i, -, hn, hheld⟩ := inv.fresh k n pre post hlog
    obtain ⟨j, -, hn', hmarked⟩ := halloc
    obtain rfl : i = j := by omega
    rw [hmarked, held_of_not_freed hfreed] at hheld
    cases hheld

end Inv

end Counters

/-! ## 小さな image -/

/-- 書いた番地のほかは 0 の列。 -/
def bytesOf (l : List (Nat × UInt8)) : Mem := fun x => (l.lookup x).getD 0

/-- 20 block、8 inode の superblock。 -/
def smallSuper : Mem :=
  bytesOf [(0, 8), (4, 20), (12, 12), (16, 5), (20, 1), (33, 0x20), (40, 8), (56, 0x53), (57, 0xEF)]

/-- bitmap は block 3 と 4、inode の表は block 5 にある。 -/
def smallDescs : Mem := bytesOf [(0, 3), (4, 4), (8, 5), (12, 12), (14, 5), (16, 1)]

/-- inode 2 は root directory で block 6 に、inode 3 は file `a` で block 7 に data を持つ。 -/
def smallBytes : List (Nat × UInt8) :=
  [ -- 二つの bitmap
    (0xC00, 0x7F), (0x1000, 0x07),
    -- inode 2: mode, size, links, i_block[0]
    (0x1481, 0x41), (0x1485, 0x04), (0x149A, 2), (0x14A8, 6),
    -- inode 3
    (0x1501, 0x81), (0x1504, 1), (0x151A, 1), (0x1528, 7),
    -- `.`、`..`、`a`
    (0x1800, 2), (0x1804, 12), (0x1806, 1), (0x1807, 2), (0x1808, 46),
    (0x180C, 2), (0x1810, 12), (0x1812, 2), (0x1813, 2), (0x1814, 46), (0x1815, 46),
    (0x1818, 3), (0x181C, 0xE8), (0x181D, 0x03), (0x181E, 1), (0x181F, 1), (0x1820, 97),
    -- `a` の中身
    (0x1C00, 120)]

def smallData : Mem := bytesOf smallBytes

def smallDisk : Mem := fun a =>
  if 0x400 ≤ a ∧ a < 0x800 then smallSuper (a - 0x400)
  else if 0x800 ≤ a ∧ a < 0xC00 then smallDescs (a - 0x800)
  else smallData a

/-- block が 1 KiB の小さな image。 -/
def smallFs : Fs where
  superblock := smallSuper
  groupDescs := smallDescs
  blockSize := 1024
  inodesPerGroup := 8
  blocksPerGroup := 8192
  numGroups := 1
  inodeSize := 128

/-- 小さな image を、何にも失敗しない環境で mount した状態。 -/
def smallState : State where
  disk := smallDisk
  fs := smallFs
  io _ := true
  heap _ := some fun _ => 0

/-- metadata の置かれる場所。 -/
def wideSlots : List Slot := [.super, .gdt 0, .bitmap .block 0, .bitmap .inode 0, .inodeTable 0 0]

/-- block が 1 KiB で、group が一つだけの、八つの inode の image。 -/
def OneGroup (G : Geom) : Prop :=
  (G.blockSize = 1024 ∧ G.inodeSize = 128 ∧ G.numGroups = 1) ∧
  (G.inodesCount = 8 ∧ G.firstDataBlock = 1 ∧ G.per .block = 8192 ∧ G.per .inode = 8) ∧
  (6 ≤ G.blocksCount ∧ G.blocksCount ≤ 8192) ∧
  (G.bitmap .block 0 = 3 ∧ G.bitmap .inode 0 = 4 ∧ G.inodeTable 0 = 5)

theorem OneGroup.slot {G : Geom} (hG : OneGroup G) {σ : Slot} (h : σ.Valid G) : σ ∈ wideSlots := by
  obtain ⟨⟨hsize, hisize, hgroups⟩, ⟨hinodes, -, hblock, hinode⟩, ⟨-, hcount⟩, -⟩ := hG
  have hvalid : ∀ k g, 0 < G.validBits k g → g = 0 := by
    intro k g h
    have hobj : G.objects k ≤ G.per k := by
      cases k <;> simp only [Geom.objects, hblock, hinode, hinodes] <;> omega
    unfold Geom.validBits at h
    by_contra hg
    have := Nat.mul_le_mul_right (G.per k) (Nat.one_le_iff_ne_zero.mpr hg)
    omega
  cases σ with
  | super => decide
  | gdt j =>
    simp only [Slot.Valid, hsize, hgroups, groupDescSize] at h
    obtain rfl : j = 0 := by omega
    decide
  | bitmap k g =>
    obtain rfl := hvalid k g h
    cases k <;> decide
  | inodeTable g j =>
    simp only [Slot.Valid, Geom.inodesPerBlock, hsize, hisize] at h
    obtain rfl := hvalid .inode g (by omega)
    simp only [Geom.validBits, hinode] at h
    obtain rfl : j = 0 := by omega
    decide

theorem OneGroup.block {G : Geom} (hG : OneGroup G) :
    wideSlots.map (·.block G) = [1, 2, 3, 4, 5] := by
  obtain ⟨⟨hsize, -⟩, -, -, hb, hi, ht⟩ := hG
  simp [wideSlots, Slot.block, hsize, hb, hi, ht]

theorem OneGroup.block_lt {G : Geom} (hG : OneGroup G) {σ : Slot} (h : σ.Valid G) :
    σ.block G < 6 := by
  have := mem_map_of_mem (f := (·.block G)) (hG.slot h)
  rw [hG.block] at this
  simp only [mem_cons, not_mem_nil, or_false] at this
  omega

theorem OneGroup.wf {G : Geom} (hG : OneGroup G) : G.Wf := by
  have hinj : (wideSlots.map (·.block G)).Nodup := by
    rw [hG.block]
    decide
  obtain ⟨⟨hsize, hisize, hgroups⟩, ⟨hinodes, -, hblock, hinode⟩, ⟨hlow, hcount⟩, -⟩ := id hG
  constructor
  case slot_lt => exact fun σ h => lt_of_lt_of_le (hG.block_lt h) hlow
  case slot_inj => exact fun σ τ h h' => inj_on_of_nodup_map hinj (hG.slot h) (hG.slot h')
  case per_pos => intro k; cases k <;> simp [hblock, hinode]
  case per_le => intro k; cases k <;> simp [hblock, hinode, hsize]
  case per_lt => intro k; cases k <;> simp [hblock, hinode]
  all_goals simp only [hsize, hisize, hgroups, hinodes, hblock, hinode, inodeStructSize]; omega

theorem small_wf : smallFs.geom.Wf := OneGroup.wf (by unfold OneGroup; decide)

set_option maxRecDepth 20000

theorem small_matching : Matching smallFs.geom smallState where
  group k g hg := by
    obtain rfl : g = 0 := Nat.lt_one_iff.mp hg
    cases k <;> decide +kernel
  total k := by cases k <;> decide +kernel

/-- 番号の付いた bit がすべて立ち、その次の bit が立っていない bitmap。 -/
def unpaddedState : State where
  disk a := if a = 0xC00 ∨ a = 0xC01 then 0xFF else if a = 0xC02 then 0x07 else smallDisk a
  fs := smallFs
  io _ := true
  heap _ := some fun _ => 0

/-- 探す範囲は番号の付いた範囲より一つ広く、`s_blocks_count` が返る。 -/
theorem alloc_in_range_unpadded : smallFs.geom.firstDataBlock = 1 ∧
    (ext2AllocBlock unpaddedState).1 = 20 ∧ smallFs.geom.blocksCount = 20 := by
  decide +kernel

theorem alloc_in_range_small : ∃ s', allocOf .block smallState = (((8 : Nat) : Int), s') ∧
    s'.heap 0 ≠ none ∧
    ∃ s'', freeOf .block s' 8 = (true, s'') ∧ ∀ k j, j < smallFs.geom.objects k →
        marked smallFs.geom s''.disk k j = marked smallFs.geom smallState.disk k j := by
  have hv : allocOf .block smallState = (((8 : Nat) : Int), (ext2AllocBlock smallState).2) :=
    Prod.ext (by decide +kernel) rfl
  have hheap : (ext2AllocBlock smallState).2.heap 0 ≠ none := by decide +kernel
  have hr : Ready smallFs.geom smallState := ⟨fun _ => rfl, rfl, small_wf⟩
  refine ⟨_, hv, hheap, ?_⟩
  exact ((alloc_in_range hr (fun k => (small_matching.room k).readable hr) (by decide)
    (by decide) .block).mpr
    (.inl ((small_matching.room .block).numbered hr)) 8 _ hv).2.2.2 hheap

namespace Counters

theorem reach_counters_small : ∃ h, Reach Counters.step Legal ⟨smallState, []⟩
      [.alloc .block, .alloc .inode, .free .block 8, .alloc .block] h ∧
    h.log = [.returned .block 8, .returned .inode 4, .freed .block 8, .returned .block 8] ∧
    blockPool.total h.state.fs
      = ∑ g ∈ Finset.range h.state.fs.numGroups, freeBits h.state.fs.geom h.state.disk .block g ∧
    blockPool.total h.state.fs = 11 := by
  have h2 : Reach Counters.step Legal ⟨smallState, []⟩ [.alloc .block, .alloc .inode] _ :=
    .snoc (.snoc .nil trivial rfl) trivial rfl
  have h3 : Reach Counters.step Legal ⟨smallState, []⟩
    [.alloc .block, .alloc .inode, .free .block 8]
      _ := .snoc h2 ⟨7, by decide +kernel, by decide +kernel, by decide +kernel⟩ rfl
  have hreach : Reach Counters.step Legal ⟨smallState, []⟩
      [.alloc .block, .alloc .inode, .free .block 8, .alloc .block] _ := .snoc h3 trivial rfl
  refine ⟨_, hreach, by decide +kernel, ?_, by decide +kernel⟩
  exact ((reach_counters (fun _ => rfl) small_wf small_matching hreach).1 .block).2

end Counters

end Alos.Ext2
