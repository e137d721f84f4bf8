import Alos.Ext2.Invariant

/-!
# 木を変える変化

`Inv` の下で、木の形や中身を変える変化を一つずつ扱う。

* `Mounted` — 操作の境目で成り立つこと。`Inv` との間を行き来できる
-/

namespace Alos.Ext2

open Bytes Bitmap

variable {j h P : Nat} {p : List Nat}

/-! ## pointer を繋ぐ -/

/-- `roots` の一か所を書き換える。 -/
def setRoot (roots : Nat → Nat → Nat) (n k b : Nat) : Nat → Nat → Nat :=
  fun n' k' => if n' = n ∧ k' = k then b else roots n' k'

@[simp] theorem setRoot_self {roots : Nat → Nat → Nat} {n k b : Nat} :
    setRoot roots n k b n k = b := if_pos ⟨rfl, rfl⟩

theorem setRoot_of_ne {roots : Nat → Nat → Nat} {n k b n' k' : Nat} (h : ¬(n' = n ∧ k' = k)) :
    setRoot roots n k b n' k' = roots n' k' := if_neg h

/-- inode `n` の木が伸びた。ほかの inode は、disk の中身も data も変わらない。 -/
structure Grown (G : Geom) (x n : Nat) (s s' : State) (roots roots' : Nat → Nat → Nat) : Prop where
  inv : Inv G s' x roots'
  live_eq : ∀ m, liveInode G s'.disk m = liveInode G s.disk m
  roots_ne : ∀ m, m ≠ n → roots' m = roots m
  roots_grow : ∀ k, roots n k = 0 ∨ roots' n k = roots n k
  trace_mono : ∀ p f, trace G (view G s.disk x roots) p = some f →
    trace G (view G s'.disk x roots') p = some f
  trace_ne : ∀ p, p.head? ≠ some n →
    trace G (view G s'.disk x roots') p = trace G (view G s.disk x roots) p
  data_ne : ∀ p, p.head? ≠ some n → ∀ o < G.blockSize,
    dataAt G (view G s'.disk x roots') p o = dataAt G (view G s.disk x roots) p o
  inodes : ∀ m, m ≠ n → IsInode G m → SameInode G s.disk s'.disk m
  dirs : SameDirs s.fs s'.fs
  heap : ∃ i, s'.heap = fun j => s.heap (j + i)

section Link

variable {G : Geom} {s s' s'' : State} {x n b k : Nat} {roots roots' roots'' : Nat → Nat → Nat}
  {m : Mem} {good : Nat → Prop}

theorem Calm.grown (h : Calm G x roots s s') : Grown G x n s s' roots roots :=
  ⟨h.inv, h.live_eq, fun _ _ => rfl, fun _ => .inr rfl,
    fun p _ hp => (h.trace_eq p).trans hp, fun p _ => h.trace_eq p, fun p _ => h.sameData p,
    fun m _ => h.inodes m, h.dirs, h.heap⟩

theorem Grown.trans (h1 : Grown G x n s s' roots roots') (h2 : Grown G x n s' s'' roots' roots'') :
    Grown G x n s s'' roots roots'' where
  inv := h2.inv
  live_eq m := (h2.live_eq m).trans (h1.live_eq m)
  roots_ne m hm := (h2.roots_ne m hm).trans (h1.roots_ne m hm)
  roots_grow k := by
    rcases h1.roots_grow k with h | h
    · exact .inl h
    · rcases h2.roots_grow k with h' | h'
      · exact .inl (h ▸ h')
      · exact .inr (h'.trans h)
  trace_mono p f hp := h2.trace_mono p f (h1.trace_mono p f hp)
  trace_ne p hp := (h2.trace_ne p hp).trans (h1.trace_ne p hp)
  data_ne p hp o ho := (h2.data_ne p hp o ho).trans (h1.data_ne p hp o ho)
  inodes m hm hi y hy := (h2.inodes m hm hi y hy).trans (h1.inodes m hm hi y hy)
  dirs g := (h2.dirs g).trans (h1.dirs g)
  heap := heap_shift_trans h1.heap h2.heap

/-- `i_block[k]` に block を繋いだ木。 -/
theorem sound_link_root (hs : Sound G (view G m x roots) good)
    (hn : (view G m x roots).live n = true) (hk : k < 14) (h0 : roots n k = 0)
    (hb : ¬Reachable G (view G m x roots) b) (hgood : good b) (hb0 : b ≠ 0)
    (hz : 0 < heightOf k → ∀ j < G.blockSize / 4, ptrAt G.blockSize m b j = 0) :
    Sound G (view G m x (setRoot roots n k b)) good ∧
      ∀ q, trace G (view G m x (setRoot roots n k b)) q =
        if q = [n, k] then some (.block (heightOf k) b) else trace G (view G m x roots) q := by
  have hw : ∀ q, trace G (view G m x (setRoot roots n k b)) q =
      if q = [n] ++ [k] then some (.block (heightOf k) b) else trace G (view G m x roots) q := by
    refine trace_link hs (trace_inode hn) ?_ (fun h => hb ⟨_, h⟩) ?_ ?_ ?_
    · simp only [edges, view, h0, target_zero, ite_self]
    · simp only [edges, view, if_pos hk, setRoot_self, target_of_ne hb0]
    · intro g j _ hne
      rcases g with _ | n' | ⟨_ | h, b'⟩
      · rfl
      · have : ¬(n' = n ∧ j = k) := by
          rintro ⟨rfl, rfl⟩
          exact hne ⟨rfl, rfl⟩
        simp only [edges, view, setRoot_of_ne this]
      · rfl
      · rfl
    · intro j
      cases hh : heightOf k with
      | zero => rfl
      | succ h =>
        by_cases hj : j < G.blockSize / 4
        · simp only [edges, view, if_pos hj, hz (by omega) j hj, target_zero]
        · simp only [edges, if_neg hj]
  refine ⟨hs.link hw ?_ fun _ _ h => h, hw⟩
  intro h b' he
  cases he
  exact ⟨hb, hgood⟩

/-- 新しい block を `i_block[k]` に繋ぐ。間接 block なら、中身は 0 でなければならない。 -/
theorem Inv.link_root (inv : Inv G s x roots) (hn : (view G s.disk x roots).live n = true)
    (hk : k < 14) (h0 : roots n k = 0) (hb : Fresh G s x roots b) (hb0 : b ≠ 0)
    (hz : 0 < heightOf k → ∀ j < G.blockSize / 4, ptrAt G.blockSize s.disk b j = 0) :
    Grown G x n s s roots (setRoot roots n k b) ∧
      ∀ q, trace G (view G s.disk x (setRoot roots n k b)) q =
        if q = [n, k] then some (.block (heightOf k) b) else trace G (view G s.disk x roots) q := by
  obtain ⟨hs, hw⟩ := sound_link_root inv.sound hn hk h0 hb.apart hb.owned hb0 hz
  have hne : ∀ p : List Nat, p.head? ≠ some n → trace G (view G s.disk x (setRoot roots n k b)) p
      = trace G (view G s.disk x roots) p := by
    intro p hp
    rw [hw, if_neg]
    rintro rfl
    exact hp rfl
  refine ⟨⟨⟨inv.ready, inv.matching, inv.reserved, hs, ?_⟩, fun _ => rfl, ?_, ?_, ?_, hne,
    fun p hp o _ => dataAt_congr (hne p hp) fun _ _ => rfl, fun _ _ _ _ _ => rfl, fun _ => rfl,
    ⟨0, rfl⟩⟩, hw⟩
  · intro n' k' hn' hk'
    rcases inv.sub n' k' hn' hk' with h | h
    · exact .inl h
    · by_cases he : n' = n ∧ k' = k
      · obtain ⟨rfl, rfl⟩ := he
        exact .inl (h.trans h0)
      · exact .inr (by rw [setRoot_of_ne he, h])
  · intro n' hn'
    funext k'
    exact setRoot_of_ne fun h => hn' h.1
  · intro k'
    by_cases he : k' = k
    · exact .inl (he ▸ h0)
    · exact .inr (setRoot_of_ne fun h => he h.2)
  · intro p f hp
    rw [hw, if_neg]
    · exact hp
    · rintro rfl
      rw [trace_root hn] at hp
      simp [edges, view, h0] at hp

theorem trace_root_none (hn : (view G m x roots).live n = true) (h0 : roots n k = 0) :
    trace G (view G m x roots) [n, k] = none := by
  rw [trace_root hn]
  simp [edges, view, h0]

theorem ptrAt_putBlock_self {buf : Mem} (hj : j < G.blockSize / 4) :
    ptrAt G.blockSize (putBlock G.blockSize m b buf) b j = load buf (4 * j) 4 := by
  rw [ptrAt, ← load_blockAt]
  apply load_congr
  intro y _ hy
  exact blockAt_putBlock_self (by omega)

section

variable (inv : Inv G s x roots) (hp : trace G (view G s.disk x roots) p = some (.block (h + 1) P))
include inv hp

/-- 間接 block は、木の data の block でも、新しい block でもない。 -/
theorem Inv.inner_ne {q : List Nat} {b' : Nat}
    (hq : trace G (view G s.disk x roots) q = some (.block 0 b')) : b' ≠ P := by
  rintro rfl
  cases inv.sound.height_eq ⟨p, hp⟩ ⟨q, hq⟩

/--
新しい block を、間接 block `P` の `j` 番目の pointer に繋ぐ。

`buf` は `P` の新しい中身で、`j` 番目のほかの pointer は元のままである。
-/
theorem Inv.link_entry {buf : Mem}
    (hj : j < G.blockSize / 4) (h0 : ptrAt G.blockSize s.disk P j = 0)
    (hb : Fresh G s x roots b) (hb0 : b ≠ 0)
    (hz : 0 < h → ∀ i < G.blockSize / 4, ptrAt G.blockSize s.disk b i = 0)
    (hself : load buf (4 * j) 4 = b)
    (hbuf : ∀ i < G.blockSize / 4, i ≠ j → load buf (4 * i) 4 = ptrAt G.blockSize s.disk P i)
    (hhead : p.head? = some n) :
    Grown G x n s { s with disk := putBlock G.blockSize s.disk P buf } roots roots ∧
      ∀ q, trace G (view G (putBlock G.blockSize s.disk P buf) x roots) q =
        if q = p ++ [j] then some (.block h b) else trace G (view G s.disk x roots) q := by
  have hPo := inv.sound.good hp
  have hmark := inv.marks_write hPo.2 buf
  have hlive := liveInode_congr (hmark _)
  have hview : (view G (putBlock G.blockSize s.disk P buf) x roots).live
      = (view G s.disk x roots).live := by
    simp only [view, hlive]
  have hbP : b ≠ P := fun he => hb.apart ⟨_, p, he ▸ hp⟩
  have hnone : edges G (view G s.disk x roots) (.block (h + 1) P) j = none := by
    simp only [edges, view, if_pos hj, h0, target_zero]
  have hw : ∀ q, trace G (view G (putBlock G.blockSize s.disk P buf) x roots) q =
      if q = p ++ [j] then some (.block h b) else trace G (view G s.disk x roots) q := by
    refine trace_link inv.sound hp hnone (fun hm => hb.apart ⟨_, hm⟩) ?_ ?_ ?_
    · simp only [edges, view, if_pos hj, ptrAt_putBlock_self hj, hself, target_of_ne hb0]
    · intro g i hg hne
      rcases g with _ | n' | ⟨_ | h', b'⟩
      · simp only [edges, hview]
      · rfl
      · rfl
      by_cases hi : i < G.blockSize / 4
      · by_cases hbP' : b' = P
        · subst hbP'
          -- 同じ間接 block の、ほかの pointer
          cases inv.sound.height_eq hg ⟨p, hp⟩
          have hij : i ≠ j := fun he => hne ⟨rfl, he⟩
          simp only [edges, view, if_pos hi, ptrAt_putBlock_self hi, hbuf i hi hij]
        · simp only [edges, view, if_pos hi, ptrAt_only inv.ready.wf.size_pos
            (onlyBlocks_putBlock inv.ready.wf.size_pos) hbP' hi]
      · simp only [edges, if_neg hi]
    · intro i
      cases h with
      | zero => rfl
      | succ h =>
        by_cases hi : i < G.blockSize / 4
        · simp only [edges, view, if_pos hi, ptrAt_only inv.ready.wf.size_pos
            (onlyBlocks_putBlock inv.ready.wf.size_pos) hbP hi,
            hz (by omega) i hi, target_zero]
        · simp only [edges, if_neg hi]
  have hne : ∀ q : List Nat, q.head? ≠ some n →
      trace G (view G (putBlock G.blockSize s.disk P buf) x roots) q
        = trace G (view G s.disk x roots) q := by
    intro q hq
    rw [hw, if_neg]
    rintro rfl
    exact hq (by rw [List.head?_append, hhead]; rfl)
  refine ⟨⟨⟨inv.ready.withDisk _, inv.matching.quiet (fun _ _ => rfl) (fun _ => rfl) hmark, ?_, ?_,
    ?_⟩, hlive, fun _ _ => rfl, fun _ => .inr rfl, ?_, hne, ?_, ?_, fun _ => rfl, ⟨0, rfl⟩⟩, hw⟩
  · intro i hi hm
    rw [show marked G _ _ i = _ from hmark _ i hi]
    exact inv.reserved i hi hm
  · refine inv.sound.link hw ?_ fun _ _ => owned_congr (hmark _)
    intro h' b' he
    cases he
    exact ⟨hb.apart, owned_congr (hmark _) hb.owned⟩
  · intro n' k' hn' hk'
    have hn'' : (view G s.disk x roots).live n' = true := by
      rw [view_live, ← hlive]
      exact view_live.mp hn'
    rw [show rootAt G _ n' k' = _ from
      inv.roots_write hPo.2 (isInode_of_live (view_live.mp hn'').1) hk']
    exact inv.sub n' k' hn'' hk'
  · intro q f hq
    rw [hw, if_neg]
    · exact hq
    · rintro rfl
      rw [trace_concat hp, hnone] at hq
      cases hq
  · intro q hq o ho
    refine dataAt_congr (hne q hq) ?_
    intro b' hb'
    exact blockAt_putBlock_ne (inv.inner_ne hp hb') ho
  · intro n' _ hn' y hy
    apply inodeAt_only inv.ready.wf (onlyBlocks_putBlock inv.ready.wf.size_pos) _ hy
    rintro rfl
    exact hPo.2 (metadata_inode inv.ready.wf hn')

end

/-- 木の data の block に書く。その道の data だけが変わる。 -/
theorem Inv.write_data (inv : Inv G s x roots)
    (hp : trace G (view G s.disk x roots) p = some (.block 0 b)) (hhead : p.head? = some n)
    (buf : Mem) : Grown G x n s { s with disk := putBlock G.blockSize s.disk b buf } roots roots ∧
      (∀ q, trace G (view G (putBlock G.blockSize s.disk b buf) x roots) q
        = trace G (view G s.disk x roots) q) ∧
      ∀ q, ∀ o < G.blockSize, dataAt G (view G (putBlock G.blockSize s.disk b buf) x roots) q o
          = if q = p then buf o else dataAt G (view G s.disk x roots) q o := by
  have hbo := inv.sound.good hp
  have hmark := inv.marks_write hbo.2 buf
  have hr : Ready G { s with disk := putBlock G.blockSize s.disk b buf } := inv.ready.withDisk _
  obtain ⟨inv', htrace, hlive⟩ := inv.steady hr
    (inv.matching.quiet (fun _ _ => rfl) (fun _ => rfl) hmark)
    (onlyBlocks_putBlock inv.ready.wf.size_pos)
    (by
      rintro _ rfl h hm
      cases inv.sound.height_eq hm ⟨p, hp⟩)
    (hmark _) (fun b _ => owned_congr (hmark _))
    (by
      intro i hi hm
      rw [show marked G _ _ i = _ from hmark _ i hi]
      exact inv.reserved i hi hm)
    (by
      intro n' k' hn' hk'
      rw [show rootAt G _ n' k' = _ from
        inv.roots_write hbo.2 (isInode_of_live (view_live.mp hn').1) hk']
      exact inv.sub n' k' hn' hk')
  have hdata : ∀ q, ∀ o < G.blockSize,
      dataAt G (view G (putBlock G.blockSize s.disk b buf) x roots) q o
        = if q = p then buf o else dataAt G (view G s.disk x roots) q o := by
    intro q o ho
    split
    · rename_i he
      subst he
      rw [dataAt_block ((htrace q).trans hp)]
      exact blockAt_putBlock_self ho
    · rename_i hne
      refine dataAt_congr (htrace q) ?_
      intro b' hb'
      apply blockAt_putBlock_ne _ ho
      rintro rfl
      exact hne (inv.sound.once hb' hp)
  refine ⟨⟨inv', hlive, fun _ _ => rfl, fun _ => .inr rfl, fun q f hq => (htrace q).trans hq,
    fun q _ => htrace q, ?_, ?_, fun _ => rfl, ⟨0, rfl⟩⟩, htrace, hdata⟩
  · intro q hq o ho
    exact (hdata q o ho).trans (if_neg fun he : q = p => hq (he ▸ hhead))
  · intro n' _ hn' y hy
    apply inodeAt_only inv.ready.wf (onlyBlocks_putBlock inv.ready.wf.size_pos) _ hy
    rintro rfl
    exact hbo.2 (metadata_inode inv.ready.wf hn')

/-! ## inode を書く -/

/-- inode `n` に `ino` を書いた結果。`ok` が偽なら、`kmalloc` に失敗して何も書かれていない。 -/
structure Stored (G : Geom) (x n : Nat) (roots : Nat → Nat → Nat) (ino : Mem) (s : State)
    (ok : Bool) (s' : State) : Prop where
  grown : Grown G x n s s' roots roots
  trace_eq : ∀ p, trace G (view G s'.disk x roots) p = trace G (view G s.disk x roots) p
  data : SameData G (view G s.disk x roots) (view G s'.disk x roots)
  fs : s'.fs = s.fs
  marks : ∀ k, ∀ i < G.objects k, marked G s'.disk k i = marked G s.disk k i
  written : ok = true → ∀ y < inodeStructSize, inodeAt G s'.disk n y = ino y
  failed : ok = false → s' = s.next ∧ s.heap 0 = none

/-- 木にある inode なら、書く pointer は 0 か `roots` の値でなければならない。 -/
theorem Inv.writeInode (inv : Inv G s x roots) (hn : IsInode G n) (ino : Mem)
    (hino : (view G s.disk x roots).live n = true → ∀ k < 14,
      iBlock ino k = 0 ∨ iBlock ino k = roots n k) :
    ∃ ok s', ext2WriteInode s n ino = (ok, s') ∧ Stored G x n roots ino s ok s' := by
  have wf := inv.ready.wf
  rcases inv.ready.writeInode hn ino with ⟨hheap, h⟩ | h
  · have hc := inv.calm_next
    exact ⟨_, _, h, hc.grown, hc.trace_eq, hc.sameData, rfl, fun _ _ _ => rfl,
      fun h => (by cases h), fun _ => ⟨rfl, hheap⟩⟩
  have ho := onlyBlocks_writeInode wf s.disk ino n
  have hσ := inodeSlot_valid wf hn
  have hmark : ∀ k, ∀ i < G.objects k,
      marked G (blit s.disk (inodeAddr G n) ino 0 inodeStructSize) k i = marked G s.disk k i := by
    intro k i hi
    apply marked_only wf ho hi
    intro hb
    have hv : 0 < G.validBits k (i / G.per k) := by have := wf.bit_lt hi; omega
    cases wf.slot_inj (.bitmap k _) _ hv hσ hb
  have hr : Ready G { s.next with disk := blit s.disk (inodeAddr G n) ino 0 inodeStructSize } :=
    ⟨inv.ready.io, inv.ready.geom, wf⟩
  obtain ⟨inv', htrace, hlive⟩ := inv.steady hr
    (inv.matching.quiet (fun _ _ => rfl) (fun _ => rfl) hmark) ho
    (by
      rintro _ rfl h hm
      exact inv.not_metadata ⟨_, hm⟩ ⟨_, hσ, rfl⟩)
    (hmark _) (fun b _ => owned_congr (hmark _))
    (by
      intro i hi h
      rw [show marked G _ _ i = _ from
        hmark _ i hi]
      exact inv.reserved i hi h)
    (by
      intro n' k hn' hk
      by_cases he : n' = n
      · subst he
        rw [rootAt, iBlock_congr (fun y hy => inodeAt_write_self _ ino n' hy) hk]
        exact hino hn' k hk
      · have hid := isInode_of_live (view_live.mp hn').1
        rw [rootAt, iBlock_congr (fun y hy => inodeAt_write_ne wf _ ino hn hid he hy) hk]
        exact inv.sub n' k hn' hk)
  have hdata : SameData G (view G s.disk x roots)
      (view G (blit s.disk (inodeAddr G n) ino 0 inodeStructSize) x roots) := by
    intro p o ho'
    refine dataAt_congr (htrace p) ?_
    intro b hb
    apply ho.blockAt_eq _ ho'
    rintro rfl
    exact inv.not_metadata ⟨_, p, hb⟩ ⟨_, hσ, rfl⟩
  exact ⟨_, _, h, ⟨inv', hlive, fun _ _ => rfl, fun _ => .inr rfl,
    fun p f hp => (htrace p).trans hp, fun p _ => htrace p, fun p _ => hdata p,
    fun m hm hid y hy => inodeAt_write_ne wf _ ino hn hid hm hy, fun _ => rfl, ⟨1, rfl⟩⟩,
    htrace, hdata, rfl, hmark, fun _ y hy => inodeAt_write_self _ ino n hy,
    fun h => by cases h⟩

theorem Stored.ok_of_heap {ino : Mem} {ok : Bool} (h : Stored G x n roots ino s ok s')
    (hok : HeapOk s) : ok = true := by
  cases ok with
  | true => rfl
  | false => exact absurd (h.failed rfl).2 hok.head_ne_none

end Link

/-! ## inode の出し入れ -/

section Inode

variable {G : Geom} {s s' : State} {x x' n b k : Nat} {roots : Nat → Nat → Nat}

theorem not_live_zero {m : Mem} : liveInode G m 0 = false := by
  simp [liveInode, IsInode]

theorem view_live_zero {m : Mem} : (view G m 0 roots).live n = liveInode G m n := by
  by_cases h0 : n = 0
  · subst h0
    simp [view, not_live_zero]
  · simp only [view, bne_iff_ne.mpr h0, Bool.and_true]

/-- inode の bitmap だけが変わり、木から外す inode は `x` から `x'` になった。木は変わらない。 -/
structure Swapped (G : Geom) (x x' : Nat) (roots : Nat → Nat → Nat) (s s' : State) : Prop where
  inv : Inv G s' x' roots
  trace_eq : ∀ p, trace G (view G s'.disk x' roots) p = trace G (view G s.disk x roots) p
  data : SameData G (view G s.disk x roots) (view G s'.disk x' roots)
  inodes : ∀ n, IsInode G n → SameInode G s.disk s'.disk n
  dirs : SameDirs s.fs s'.fs
  marks : ∀ i < G.objects .block, marked G s'.disk .block i = marked G s.disk .block i
  heap : ∃ n, s'.heap = fun i => s.heap (i + n)

/-- inode の bitmap の反転。木にある inode が変わらなければ、木は変わらない。 -/
theorem Inv.flipInode (inv : Inv G s x roots) {g : Nat} {d : Int} {flip : Mem → Mem}
    (hf : Flipped G .inode g d flip s s') (hv : 0 < G.validBits .inode g) (hm : Matching G s')
    (hlive : ∀ n, (view G s'.disk x' roots).live n = (view G s.disk x roots).live n) :
    Swapped G x x' roots s s' := by
  have wf := inv.ready.wf
  obtain ⟨S, ho, htable⟩ := hf.metadata inv.ready hv
  have hmark : ∀ i < G.objects .block, marked G s'.disk .block i = marked G s.disk .block i := by
    intro i hi
    rw [hf.marked_eq inv.ready hv hi, if_neg (by simp)]
  have htrace : ∀ p, trace G (view G s'.disk x' roots) p = trace G (view G s.disk x roots) p := by
    refine fun p => trace_congr fun f i hfm => ?_
    match f, hfm with
    | .image, _ => simp only [edges, hlive]
    | .inode n, _ => rfl
    | .block 0 b, _ => rfl
    | .block (h + 1) b, hfm =>
      have hptr : i < G.blockSize / 4 →
          ptrAt G.blockSize s'.disk b i = ptrAt G.blockSize s.disk b i := by
        apply ptrAt_only wf.size_pos ho
        rintro ⟨σ, -, hσ, rfl⟩
        exact inv.not_metadata ⟨_, hfm⟩ ⟨σ, hσ, rfl⟩
      by_cases hi : i < G.blockSize / 4
      · simp only [edges, view, hptr hi]
      · simp only [edges, hi, if_false]
  have hslot : ∀ n, IsInode G n →
      ¬∃ σ : Slot, S σ ∧ σ.Valid G ∧ σ.block G = (inodeSlot G n).block G := by
    rintro n hn ⟨σ, hσ, hv, hb⟩
    rw [wf.slot_inj σ _ hv (inodeSlot_valid wf hn) hb] at hσ
    exact htable _ _ hσ
  refine ⟨⟨hf.ready inv.ready, hm, ?_, inv.sound.congr htrace fun _ _ => owned_congr hmark, ?_⟩,
    htrace, ?_, fun n hn y hy => inodeAt_only wf ho (hslot n hn) hy, ?_, hmark, hf.heap⟩
  · intro i hi h
    rw [hmark i hi]
    exact inv.reserved i hi h
  · intro n k hn hk
    rw [hlive] at hn
    rw [rootAt_only wf ho (hslot n (isInode_of_live (view_live.mp hn).1)) hk]
    exact inv.sub n k hn hk
  · intro p o ho'
    refine dataAt_congr (htrace p) ?_
    intro b hb
    apply ho.blockAt_eq _ ho'
    rintro ⟨σ, -, hσ, rfl⟩
    exact inv.not_metadata ⟨_, p, hb⟩ ⟨σ, hσ, rfl⟩
  · rw [hf.fs]
    exact sameDirs_adjust

/-- 割り当てた inode は、まだ木の外にある。 -/
theorem Inv.allocInode (inv : Inv G s 0 roots) :
    (∃ n, ext2AllocInode s = (-1, { s with heap := fun i => s.heap (i + n) }) ∧
      (HeapOk s → inodePool.total s.fs = 0)) ∨
    ∃ (n : Nat) (s' : State), ext2AllocInode s = ((n : Int), s') ∧ Swapped G 0 n roots s s' ∧
      IsInode G n ∧ liveInode G s.disk n = false ∧
      ∀ n', liveInode G s'.disk n' = (decide (n' = n) || liveInode G s.disk n') := by
  rcases alloc_cases inv.ready
      ((inv.matching.room .inode).readable inv.ready)
      ((inv.matching.room .inode).numbered inv.ready) with
    ⟨i, h, hfail⟩ | ⟨i, s', hi, hz, h, hf, -⟩
  · exact .inl ⟨i, h, fun hok => inv.matching.total_eq_zero (hfail hok (inv.matching.room _))⟩
  right
  have hi' : i < G.inodesCount := hi
  have hidx : ∀ n, IsInode G n → (n - 1 = i ↔ n = 1 + i) := by
    intro n hn
    have := hn.1
    omega
  have hnot : liveInode G s.disk (1 + i) = false := by
    simp only [liveInode, Nat.add_sub_cancel_left, hz, Bool.and_false]
  have hlive : ∀ n, liveInode G s'.disk n = (decide (n = 1 + i) || liveInode G s.disk n) := by
    intro n
    unfold liveInode
    by_cases hn : IsInode G n
    · rw [marked_alloc hf inv.ready hi (isInode_index hn)]
      simp only [hn, decide_true, Bool.true_and, true_and, hidx n hn]
    · have hne : n ≠ 1 + i := by
        rintro rfl
        exact hn ⟨by omega, by omega⟩
      simp [hn, hne]
  refine ⟨1 + i, s', h, ?_, ⟨by omega, by omega⟩, hnot, hlive⟩
  refine inv.flipInode hf (by have := inv.ready.wf.bit_lt hi; omega)
    (inv.matching.alloc hf inv.ready hi hz) ?_
  intro n
  rw [view_live_zero]
  simp only [view, hlive]
  by_cases hn : n = 1 + i
  · subst hn
    simp [hnot]
  · rw [decide_eq_false hn, Bool.false_or, bne_iff_ne.mpr hn, Bool.and_true]

theorem Inv.freeInode (inv : Inv G s n roots) (hn : IsInode G n) :
    ((s.heap 0 = none ∨ liveInode G s.disk n = false) ∧ ext2FreeInode s n = (false, s.next)) ∨
    ∃ s', ext2FreeInode s n = (true, s') ∧ Swapped G n 0 roots s s' ∧
      ∀ n', liveInode G s'.disk n' = (decide (n' ≠ n) && liveInode G s.disk n') := by
  have hi := isInode_index hn
  have hpos := hn.1
  have he : ext2FreeInode s n = Kind.inode.pool.free s (n - 1) := by
    have := freeOf_eq (k := .inode) inv.ready hi
    rwa [show G.base _ + (n - 1) = n from by
      show 1 + (n - 1) = n
      omega] at this
  rw [he]
  rcases free_cases inv.ready hi with ⟨hc, h⟩ | ⟨ho, s', h, hf⟩
  · refine .inl ⟨hc.imp_right ?_, h⟩
    intro hz
    simp only [liveInode, hz, Bool.and_false]
  right
  have hlive : ∀ n', liveInode G s'.disk n' = (decide (n' ≠ n) && liveInode G s.disk n') := by
    intro n'
    unfold liveInode
    by_cases hn' : IsInode G n'
    · have hidx : n' - 1 = n - 1 ↔ n' = n := by
        have := hn'.1
        omega
      rw [marked_free hf inv.ready hi (isInode_index hn')]
      simp only [hn', decide_true, Bool.true_and, true_and, hidx, ne_eq]
    · simp [hn']
  refine ⟨s', h, ?_, hlive⟩
  refine inv.flipInode hf (by have := inv.ready.wf.bit_lt hi; omega)
    (inv.matching.free hf inv.ready hi ho) ?_
  intro n'
  rw [view_live_zero, hlive]
  simp only [view]
  by_cases hn' : n' = n
  · simp [hn']
  · rw [decide_eq_true hn', Bool.true_and, bne_iff_ne.mpr hn', Bool.and_true]

/-- inode を木から外す。外した inode だけが指していた block は、木の外になる。 -/
theorem Inv.exclude (inv : Inv G s 0 roots) (n : Nat) : Inv G s n roots ∧
    (liveInode G s.disk n = true → ∀ k < 14, roots n k ≠ 0 → Fresh G s n roots (roots n k)) := by
  have hsub : ∀ f i, Met G (view G s.disk 0 roots) f →
      edges G (view G s.disk n roots) f i = edges G (view G s.disk 0 roots) f i ∨
      edges G (view G s.disk n roots) f i = none := by
    intro f i _
    match f with
    | .image =>
      by_cases h : (view G s.disk n roots).live i = true
      · left
        simp only [edges, view_live_zero, h, (view_live.mp h).1]
      · right
        simp only [edges, h]
        rfl
    | .inode _ => exact .inl rfl
    | .block 0 _ => exact .inl rfl
    | .block (_ + 1) _ => exact .inl rfl
  obtain ⟨hs, hw⟩ := inv.sound.sub hsub
  refine ⟨⟨inv.ready, inv.matching, inv.reserved, hs, ?_⟩, ?_⟩
  · intro n' k hn' hk
    exact inv.sub n' k (by rw [view_live_zero]; exact (view_live.mp hn').1) hk
  intro hl k hk hb
  have hn : (view G s.disk 0 roots).live n = true := by rwa [view_live_zero]
  have hp : trace G (view G s.disk 0 roots) [n, k] = some (.block (heightOf k) (roots n k)) := by
    rw [trace_root hn]
    simp only [edges, view, if_pos hk, target_of_ne hb]
  refine ⟨inv.sound.good hp, ?_⟩
  rintro ⟨h, q, hq⟩
  obtain rfl := inv.sound.once (hw q _ hq) hp
  rcases trace_cases hq with ⟨h, -⟩ | ⟨_, h, -⟩ | ⟨n', _, _, _, _, h, -, hl'⟩
  · cases h
  · cases h
  · cases h
    exact (view_live.mp hl').2 rfl

theorem sound_link_inode {m : Mem} {good : Nat → Prop} (hs : Sound G (view G m n roots) good)
    (hl : liveInode G m n = true) :
    Sound G (view G m 0 fun n' => if n' = n then fun _ => 0 else roots n') good ∧
      ∀ q, trace G (view G m 0 fun n' => if n' = n then fun _ => 0 else roots n') q =
        if q = [n] then some (.inode n) else trace G (view G m n roots) q := by
  have hout : (view G m n roots).live n = false := by simp [view]
  have hw : ∀ q, trace G (view G m 0 fun n' => if n' = n then fun _ => 0 else roots n') q =
      if q = [] ++ [n] then some (.inode n) else trace G (view G m n roots) q := by
    refine trace_link hs trace_nil ?_ ?_ ?_ ?_ ?_
    · simp only [edges, hout]
      rfl
    · intro hm
      rw [live_of_met hm] at hout
      cases hout
    · simp only [edges, view_live_zero, hl, if_true]
    · intro g j hg hne
      rcases g with _ | n' | ⟨_ | h, b⟩
      · have hj : j ≠ n := fun h => hne ⟨rfl, h⟩
        have hview : (view G m n roots).live j = liveInode G m j := by
          simp only [view, bne_iff_ne.mpr hj, Bool.and_true]
        simp only [edges, view_live_zero, hview]
      · have hne' : n' ≠ n := by
          rintro rfl
          rw [live_of_met hg] at hout
          cases hout
        simp only [edges, view, if_neg hne']
      · rfl
      · rfl
    · intro j
      simp only [edges, view, if_true, target_zero, ite_self]
  refine ⟨hs.link hw ?_ fun _ _ h => h, hw⟩
  intro h b he
  cases he

/-- 書き終えた inode を木に入れる。`i_block` は、0 番のほかは 0 である。 -/
theorem Inv.enroll (inv : Inv G s n roots) (hl : liveInode G s.disk n = true)
    (hb : b ≠ 0 → Fresh G s n roots b)
    (hroot : ∀ k < 14, rootAt G s.disk n k = if k = 0 then b else 0) :
    ∃ roots', Inv G s 0 roots' ∧ (∀ n', n' ≠ n → roots' n' = roots n') ∧
      ∀ k, roots' n k = if k = 0 then b else 0 := by
  obtain ⟨hs, hw⟩ := sound_link_inode inv.sound hl
  have hsub : ∀ n' k, n' ≠ n → (view G s.disk 0 roots).live n' = true → k < 14 →
      rootAt G s.disk n' k = 0 ∨ rootAt G s.disk n' k = roots n' k := by
    intro n' k hne hn' hk
    rw [view_live_zero] at hn'
    exact inv.sub n' k (view_live.mpr ⟨hn', hne⟩) hk
  by_cases hb0 : b = 0
  · subst hb0
    simp only [ite_self] at hroot ⊢
    refine ⟨_, ⟨inv.ready, inv.matching, inv.reserved, hs, ?_⟩, fun n' h => if_neg h,
      fun k => by rw [if_pos rfl]⟩
    intro n' k hn' hk
    by_cases hne : n' = n
    · subst hne
      exact .inl (hroot k hk)
    · rw [if_neg hne]
      exact hsub n' k hne hn' hk
  · have hlive : (view G s.disk 0 fun n' => if n' = n then fun _ => 0 else roots n').live n
        = true := by rwa [view_live_zero]
    have hapart : ¬Reachable G (view G s.disk 0 fun n' => if n' = n then fun _ => 0 else roots n')
        b := by
      rintro ⟨h, q, hq⟩
      rw [hw] at hq
      split at hq
      · cases hq
      · exact (hb hb0).apart ⟨h, q, hq⟩
    obtain ⟨hs', -⟩ := sound_link_root hs hlive (k := 0) (by decide) (by rw [if_pos rfl]) hapart
      (hb hb0).owned hb0 (fun h => absurd h (by decide))
    refine ⟨_, ⟨inv.ready, inv.matching, inv.reserved, hs', ?_⟩, ?_, ?_⟩
    · intro n' k hn' hk
      by_cases hne : n' = n
      · subst hne
        by_cases hk0 : k = 0
        · subst hk0
          exact .inr (by rw [hroot 0 hk, setRoot_self, if_pos rfl])
        · exact .inl (by rw [hroot k hk, if_neg hk0])
      · rw [setRoot_of_ne (fun h => hne h.1), if_neg hne]
        exact hsub n' k hne hn' hk
    · intro n' hne
      funext k
      rw [setRoot_of_ne (fun h => hne h.1), if_neg hne]
    · intro k
      by_cases hk0 : k = 0
      · subst hk0
        rw [setRoot_self, if_pos rfl]
      · rw [setRoot_of_ne (fun h => hk0 h.2), if_pos rfl, if_neg hk0]

/-! ## 操作の境目 -/

/-- 整合した image を mount し、転送に失敗しない状態。空きの数は合い、metadata は使用中である。 -/
structure Mounted (G : Geom) (s : State) : Prop where
  ready : Ready G s
  matching : Matching G s
  reserved : ∀ i < G.objects .block, Metadata G (G.base .block + i) →
    marked G s.disk .block i = true
  consistent : Consistent G s.disk

theorem view_eq_imageView (m : Mem) : view G m 0 (rootAt G m) = imageView G m := by
  have hlive : (view G m 0 (rootAt G m)).live = liveInode G m := by
    funext n
    exact view_live_zero
  exact congrArg (fun live => (⟨live, rootAt G m, m⟩ : View)) hlive

theorem Mounted.inv (h : Mounted G s) : Inv G s 0 (rootAt G s.disk) :=
  ⟨h.ready, h.matching, h.reserved, (view_eq_imageView (G := G) _) ▸ h.consistent,
    fun _ _ _ _ => .inr rfl⟩

/-- disk の pointer は `roots` の一部なので、disk の image も整合している。 -/
theorem Inv.mounted (inv : Inv G s 0 roots) : Mounted G s := by
  refine ⟨inv.ready, inv.matching, inv.reserved, ?_⟩
  unfold Consistent
  rw [← view_eq_imageView]
  refine (inv.sound.sub ?_).1
  intro f i hf
  match f, hf with
  | .image, _ => exact .inl rfl
  | .inode n, hf =>
    by_cases hi : i < 14
    · rcases inv.sub n i (live_of_met hf) hi with h | h
      · right
        simp only [edges, view, h, target_zero, ite_self]
      · left
        simp only [edges, view, h]
    · left
      simp only [edges, if_neg hi]
  | .block 0 _, _ => exact .inl rfl
  | .block (_ + 1) _, _ => exact .inl rfl

end Inode

end Alos.Ext2
