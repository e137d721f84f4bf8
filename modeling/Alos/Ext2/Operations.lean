import Alos.Ext2.Synced

/-!
# 操作と整合性

`create`、`mkdir`、`write`、`unlink` を、その都度 disk から読んだ node に対して行う。

どの操作も、途中では `Inv` を保つ。作りかけの inode は木から外しておき、書き終えてから入れる。
消すときは、先に木から外してから block を返す。ただし、後始末の `ext2_free_inode` や
`ext2_write_inode` の失敗は見られないので、外したまま使用中に残ることがある。

* `reach_consistent` — 後始末で `kmalloc` に失敗しない実行では、届くどの状態の image も整合している
* `unlink_leaves_dangling` — 後始末の途中で `kmalloc` が失敗すると、整合しなくなる
-/

namespace Alos.Ext2

open Bytes Bitmap Run Option

variable {i : Int} {ok : Bool} {k : Nat} {target : Node}

/-! ## 作成 -/

section Create

variable {G : Geom} {s₀ s s' : State} {x n b : Nat} {roots : Nat → Nat → Nat}
  {parent parent' : Node} {name : List UInt8} {r : Int}

/-- 使用中の inode の集まりが変わらなかった。 -/
def SameLive (G : Geom) (s s' : State) : Prop :=
  ∀ n, liveInode G s'.disk n = liveInode G s.disk n

theorem Inv.undoInode (inv : Inv G s n roots) (hn : IsInode G n) (hl : liveInode G s.disk n = true)
    (hheap : s.heap 0 ≠ none) : Inv G (ext2FreeInode s n).2 0 roots := by
  rcases inv.freeInode hn with ⟨h | h, -⟩ | ⟨s', h, hsw, -⟩
  · exact absurd h hheap
  · rw [hl] at h
    cases h
  · rw [h]
    exact hsw.inv

theorem iBlock_newFileInode : iBlock newFileInode k = 0 := by
  unfold newFileInode setILinksCount setIMode iBlock
  rw [load_store_of_disjoint (by omega), load_store_of_disjoint (by omega)]
  exact load_zero

theorem iBlock_newDirInode (fs : Fs) (hb : b < 2 ^ 32) (k : Nat) :
    iBlock (newDirInode fs b) k = if k = 0 then b else 0 := by
  unfold newDirInode
  split
  · rename_i h
    subst h
    exact iBlock_setIBlock_self hb
  · rename_i h
    rw [iBlock_setIBlock_ne _ h]
    unfold setIBlocks setILinksCount setISize setIMode iBlock
    rw [load_store_of_disjoint (by omega), load_store_of_disjoint (by omega),
      load_store_of_disjoint (by omega), load_store_of_disjoint (by omega)]
    exact load_zero

/-- 書き終えた inode を木に入れる。 -/
theorem Stored.enroll {ino : Mem} (h : Stored G n n roots ino s true s')
    (hl : liveInode G s.disk n = true) (hb : b ≠ 0 → Fresh G s n roots b)
    (hino : ∀ k, iBlock ino k = if k = 0 then b else 0) :
    ∃ roots', Inv G s' 0 roots' ∧ (∀ n', n' ≠ n → roots' n' = roots n') ∧
      ∀ k, roots' n k = if k = 0 then b else 0 := by
  have hl' : liveInode G s'.disk n = true := by rwa [h.grown.live_eq]
  refine h.grown.inv.enroll hl' ?_ ?_
  · intro hb0
    have hf := hb hb0
    refine ⟨owned_congr (h.marks _) hf.owned, ?_⟩
    rintro ⟨i, p, hp⟩
    exact hf.apart ⟨i, p, (h.trace_eq p).symm.trans hp⟩
  · intro k hk
    rw [rootAt, iBlock_congr (h.written rfl) hk, hino]

theorem allocInode_neg (inv : Inv G s 0 roots) (h : ext2AllocInode s = (i, s'))
    (hi : i < 0) : Skips s s' := by
  rcases inv.allocInode with ⟨k, hk, -⟩ | ⟨n, s1, hn, -⟩
  · rw [hk] at h
    cases h
    exact ⟨k, rfl⟩
  · rw [hn] at h
    cases h
    omega

theorem allocInode_nonneg (inv : Inv G s 0 roots) (h : ext2AllocInode s = (i, s'))
    (hi : ¬i < 0) : ∃ n : Nat, i = n ∧ Swapped G 0 n roots s s' ∧ IsInode G n ∧
      liveInode G s.disk n = false ∧
      ∀ n', liveInode G s'.disk n' = (decide (n' = n) || liveInode G s.disk n') := by
  rcases inv.allocInode with ⟨k, hk, -⟩ | ⟨n, s1, hn, hsw⟩
  · rw [hk] at h
    cases h
    exact absurd (by decide) hi
  · rw [hn] at h
    cases h
    exact ⟨n, rfl, hsw⟩

/-- 作った inode は、親の directory ではない。 -/
theorem ne_of_not_live (hl : liveInode G s.disk n = false) {m : Nat}
    (hm : liveInode G s.disk m = true) : m ≠ n := by
  rintro rfl
  rw [hl] at hm
  cases hm

/-- 木に入れた空の inode を返す。返せなくても、木はそのままである。 -/
theorem Inv.dropInode (inv : Inv G s 0 roots) (hn : IsInode G n) :
    Inv G (ext2FreeInode s n).2 0 roots := by
  rcases (inv.exclude n).1.freeInode hn with ⟨-, h⟩ | ⟨s', h, hsw, -⟩
  · rw [h]
    exact inv.withHeap _
  · rw [h]
    exact hsw.inv

/-- 新しい inode `n` が木に入った。ほかの inode は変わらない。 -/
structure Planted (G : Geom) (s s' : State) (roots roots' : Nat → Nat → Nat) (n : Nat)
    (ino : Mem) : Prop where
  inv : Inv G s' 0 roots'
  isInode : IsInode G n
  unused : liveInode G s.disk n = false
  live_eq : ∀ m, liveInode G s'.disk m = (decide (m = n) || liveInode G s.disk m)
  file : ∀ m, liveInode G s.disk m = true →
    SameFile G (view G s.disk 0 roots) (view G s'.disk 0 roots') m
  inodes : ∀ m, m ≠ n → IsInode G m → SameInode G s.disk s'.disk m
  roots_ne : ∀ m, m ≠ n → roots' m = roots m
  written : ∀ y < inodeStructSize, inodeAt G s'.disk n y = ino y
  exact : Exact ino roots' n
  dirs : SameDirs s.fs s'.fs
  heap : ∃ i, s'.heap = fun j => s.heap (j + i)

section Plant

variable {s1 s2 s3 s4 : State} {roots' : Nat → Nat → Nat} {ino : Mem}

theorem ne_zero_of_live {m : Mem} (h : liveInode G m n = true) : n ≠ 0 := by
  have := (isInode_of_live h).1
  omega

/-- 割り当てた inode を書き、木に入れる。その間に、木の外の block に書いてもよい。 -/
theorem Stored.planted (hst : Stored G n n roots ino s3 true s4) (hsw : Swapped G 0 n roots s s2)
    (hn : IsInode G n) (hnot : liveInode G s.disk n = false)
    (hlive : ∀ n', liveInode G s2.disk n' = (decide (n' = n) || liveInode G s.disk n'))
    (hc : Calm G n roots s2 s3) (hb : b ≠ 0 → Fresh G s3 n roots b)
    (hino : ∀ k, iBlock ino k = if k = 0 then b else 0) :
    ∃ roots', Planted G s s4 roots roots' n ino := by
  have hl3 : liveInode G s3.disk n = true := by
    rw [hc.live_eq, hlive]
    simp
  obtain ⟨roots', hinv, hne, hself⟩ := hst.enroll hl3 hb hino
  refine ⟨roots', hinv, hn, hnot, ?_, ?_, ?_, hne, hst.written rfl, ?_, ?_, ?_⟩
  · intro m
    rw [hst.grown.live_eq, hc.live_eq, hlive]
  · intro m hm
    have hmn := ne_of_not_live hnot hm
    exact hsw.sameFile.trans ((hc.sameFile m).trans ((hst.sameFile m).trans
      (sameFile_enroll hmn (ne_zero_of_live hm) fun k _ => congrFun (hne m hmn) k)))
  · intro m hmn hm y hy
    exact (hst.grown.inodes m hmn hm y hy).trans ((hc.inodes m hm y hy).trans
      (hsw.inodes m hm y hy))
  · intro k _
    rw [hself, hino]
  · exact fun g => (hst.grown.dirs g).trans ((hc.dirs g).trans (hsw.dirs g))
  · exact heap_shift_trans hsw.heap (heap_shift_trans hc.heap hst.grown.heap)

theorem Planted.of_skips (hp : Planted G s1 s' roots roots' n ino) (h : Skips s s1) :
    Planted G s s' roots roots' n ino := by
  have hheap := heap_shift_trans h.heap hp.heap
  obtain ⟨i, rfl⟩ := h
  exact ⟨hp.inv, hp.isInode, hp.unused, hp.live_eq, hp.file, hp.inodes, hp.roots_ne, hp.written,
    hp.exact, hp.dirs, hheap⟩

theorem Planted.add (hp : Planted G s s3 roots roots' n ino)
    (hl : liveInode G s.disk parent.inodeNum = true)
    (he : Exact parent.inode roots parent.inodeNum) {new ft : Nat} {ino' : Mem}
    (hadd : ext2AddDirEntry s3 parent.inode parent.inodeNum new name ft = some (ok, ino', s4)) :
    ∃ roots4, Grown G 0 parent.inodeNum s3 s4 roots' roots4 ∧
      Exact ino' roots4 parent.inodeNum := by
  refine addDirEntry_grown hp.inv ?_ (fun k hk => ?_) hadd
  · rw [view_live_zero, hp.live_eq, hl, Bool.or_true]
  · rw [hp.roots_ne _ (ne_of_not_live hp.unused hl), he k hk]

theorem Barred.skips (h : Barred s parent name s') (inv : Inv G s 0 roots) : Skips s s' := by
  cases h with
  | notDir => exact .refl s
  | existing hfind => exact finddir_skips inv.ready hfind
  | noInode hfind halloc hi =>
    have hskip := finddir_skips inv.ready hfind
    exact hskip.trans (allocInode_neg (hskip.inv inv) halloc hi)

theorem NewInode.swapped (h : NewInode s parent name i s2) (inv : Inv G s 0 roots) :
    ∃ (n : Nat) (s1 : State), i = n ∧ Skips s s1 ∧ Swapped G 0 n roots s1 s2 ∧ IsInode G n ∧
      liveInode G s.disk n = false ∧
      ∀ n', liveInode G s2.disk n' = (decide (n' = n) || liveInode G s.disk n') := by
  obtain ⟨s1, hfind, halloc, hi⟩ := h
  have hskip := finddir_skips inv.ready hfind
  obtain ⟨n, rfl, hsw, hn, hnot, hlive⟩ := allocInode_nonneg (hskip.inv inv) halloc hi
  rw [hskip.disk] at hnot hlive
  exact ⟨n, s1, rfl, hskip, hsw, hn, hnot, hlive⟩

theorem NewInode.heapOk (h : NewInode s parent name i s2) (inv : Inv G s 0 roots) (hok : HeapOk s) :
    HeapOk s2 := by
  obtain ⟨n, s1, -, hskip, hsw, -⟩ := h.swapped inv
  exact (hok.shift hskip.heap).shift hsw.heap

/-- 割り当てた inode に空の file を書く。 -/
theorem newFile_planted (inv : Inv G s 0 roots) (hnew : NewInode s parent name i s2)
    (hwrite : ext2WriteInode s2 i.toNat newFileInode = (ok, s3)) :
    (ok = false ∧ s2.heap 0 = none ∧
      (s2.heap 1 ≠ none → Inv G (ext2FreeInode s3 i.toNat).2 0 roots)) ∨
    ok = true ∧ ∃ (n : Nat) (roots' : Nat → Nat → Nat), i = n ∧
      Planted G s s3 roots roots' n newFileInode ∧ (∃ j, s3.heap = fun k => s2.heap (k + j)) ∧
      ∀ b, Allocated G s3.disk .block b ↔ Allocated G s.disk .block b := by
  obtain ⟨n, s1, rfl, hskip, hsw, hn, hnot, hlive⟩ := hnew.swapped inv
  obtain ⟨ok', s3', hwrite', hst⟩ := hsw.inv.writeInode hn _ fun h =>
    absurd rfl (view_live.mp h).2
  obtain ⟨rfl, rfl⟩ := Prod.mk.inj (hwrite'.symm.trans hwrite)
  cases ok' with
  | false =>
    obtain ⟨rfl, hnone⟩ := hst.failed rfl
    refine .inl ⟨rfl, hnone, fun h1 => hst.grown.inv.undoInode hn ?_ h1⟩
    rw [hst.grown.live_eq, hlive]
    simp
  | true =>
    rw [← hskip.disk] at hnot hlive
    obtain ⟨roots', hp⟩ := hst.planted (b := 0) hsw hn hnot hlive (.refl hsw.inv)
      (fun h => absurd rfl h) (fun k => by rw [iBlock_newFileInode, ite_self])
    refine .inr ⟨rfl, n, roots', rfl, hp.of_skips hskip, hst.grown.heap, fun b => ?_⟩
    rw [allocated_congr (hst.marks _), allocated_congr hsw.marks, hskip.disk]

end Plant

/-- 書けなかった inode を返せるなら、`create` は整合性を保つ。 -/
theorem Created.inv (h : Created s parent name r parent' s') (inv : Inv G s 0 roots)
    (hp : liveInode G s.disk parent.inodeNum = true)
    (he : Exact parent.inode roots parent.inodeNum)
    (hheap : ∀ i s2, NewInode s parent name i s2 → s2.heap 0 ≠ none ∨ s2.heap 1 ≠ none) :
    ∃ roots', Inv G s' 0 roots' := by
  cases h with
  | barred hb => exact ⟨roots, (hb.skips inv).inv inv⟩
  | unwritten hnew hwrite =>
    rcases newFile_planted inv hnew hwrite with ⟨-, hnone, h⟩ | ⟨h, -⟩
    · exact ⟨roots, h ((hheap _ _ hnew).resolve_left fun h0 => h0 hnone)⟩
    · cases h
  | notAdded hnew hwrite hadd =>
    obtain ⟨-, n, roots3, rfl, hplant, -⟩ :=
      (newFile_planted inv hnew hwrite).resolve_left fun h => by cases h.1
    obtain ⟨roots4, hg, -⟩ := hplant.add hp he hadd
    exact ⟨roots4, hg.inv.dropInode hplant.isInode⟩
  | done hnew hwrite hadd =>
    obtain ⟨-, n, roots3, rfl, hplant, -⟩ :=
      (newFile_planted inv hnew hwrite).resolve_left fun h => by cases h.1
    obtain ⟨roots4, hg, -⟩ := hplant.add hp he hadd
    exact ⟨roots4, hg.inv⟩

/-! ## directory の作成 -/

/-- 木のどこからも指されていない block。使用中とは限らない。 -/
structure Loose (G : Geom) (s : State) (x : Nat) (roots : Nat → Nat → Nat) (b : Nat) : Prop where
  numbered : ∃ i < G.objects .block, b = G.base .block + i
  data : ¬Metadata G b
  apart : ¬Reachable G (view G s.disk x roots) b

theorem Fresh.loose (h : Fresh G s x roots b) : Loose G s x roots b := by
  obtain ⟨⟨⟨i, hi, hb, -⟩, hmeta⟩, hapart⟩ := h
  exact ⟨⟨i, hi, hb⟩, hmeta, hapart⟩

/-- 木の外の block を返す。返せなくても、木は変わらない。 -/
theorem Inv.releaseBlock (inv : Inv G s x roots) (hb : Loose G s x roots b) :
    Calm G x roots s (ext2FreeBlock s b).2 := by
  obtain ⟨⟨i, hi, rfl⟩, hmeta, hapart⟩ := hb
  by_cases hm : marked G s.disk .block i = true
  · rcases inv.freeBlock ⟨⟨⟨i, hi, rfl, hm⟩, hmeta⟩, hapart⟩ with ⟨-, h⟩ | ⟨s', h, hc, -⟩
    · rw [h]
      exact inv.calm_next
    · rw [h]
      exact hc
  · have he : ext2FreeBlock s _ = Kind.block.pool.free s i :=
      freeOf_eq (k := .block) inv.ready hi
    rcases free_cases inv.ready hi with ⟨-, h⟩ | ⟨ho, -⟩
    · rw [he, h]
      exact inv.calm_next
    · exact absurd ho hm

/-- 作りかけの directory の block と inode を返す。 -/
theorem Inv.undoDir (inv : Inv G s n roots) (hn : IsInode G n) (hl : liveInode G s.disk n = true)
    (hok : HeapOk s) (hb : Loose G s n roots b) :
    Inv G (ext2FreeInode (ext2FreeBlock s b).2 n).2 0 roots := by
  have hc := inv.releaseBlock hb
  exact hc.inv.undoInode hn (by rwa [hc.live_eq]) (hok.shift hc.heap).head_ne_none

/-- 割り当てた block と inode に directory を書く。 -/
theorem makeDirectory_cases (inv : Inv G s n roots) (hn : IsInode G n) (hb : Fresh G s n roots b)
    (num : Nat) : (¬HeapOk s ∧ ∃ s', makeDirectory s n b num = (false, s')) ∨
    ∃ s1 s', makeDirectory s n b num = (true, s') ∧ Calm G n roots s s1 ∧ Fresh G s1 n roots b ∧
      Stored G n n roots (newDirInode s.fs b) s1 true s' ∧
      ∀ b', Allocated G s'.disk .block b' ↔ Allocated G s.disk .block b' := by
  unfold makeDirectory
  rw [kmalloc_eq]
  have hb1 : Fresh G s.next n _ b := ⟨hb.owned, hb.apart⟩
  have inv1 := inv.calm_next.inv
  cases hheap : s.heap 0 with
  | none => exact .inl ⟨fun hok => hok.head_ne_none hheap, _, rfl⟩
  | some buf =>
    have hc2 := inv.calm_next.trans (inv1.calm_write hb1 (newDirBlock s.next.fs buf n num))
    have hb2 := inv1.fresh_write hb1 (newDirBlock s.next.fs buf n num)
    obtain ⟨ok, s3, hw, hst⟩ := hc2.inv.writeInode hn (newDirInode s.next.fs b) fun h =>
      absurd rfl (view_live.mp h).2
    simp only [inv1.ready.write hb.owned.lt, if_true, hw]
    cases ok with
    | false => exact .inl ⟨fun hok => (hok.shift hc2.heap).head_ne_none (hst.failed rfl).2, _, rfl⟩
    | true =>
      exact .inr ⟨_, s3, rfl, hc2, hb2, hst, fun b' => (allocated_congr (hst.marks _) b').trans
        (allocated_congr (inv1.marks_write hb.owned.2 _ _) b')⟩

theorem allocBlock_neg (inv : Inv G s x roots) (h : ext2AllocBlock s = (i, s'))
    (hi : i < 0) : Skips s s' := by
  rcases inv.allocBlock with ⟨k, hk, -⟩ | ⟨n, s1, hn, -⟩
  · rw [hk] at h
    cases h
    exact ⟨k, rfl⟩
  · rw [hn] at h
    cases h
    omega

theorem allocBlock_nonneg (inv : Inv G s x roots) (h : ext2AllocBlock s = (i, s'))
    (hi : ¬i < 0) : ∃ b : Nat, i = b ∧ Calm G x roots s s' ∧ Fresh G s' x roots b ∧
      Takes G s.disk s'.disk b ∧ blockPool.total s.fs = blockPool.total s'.fs + 1 := by
  rcases inv.allocBlock with ⟨k, hk, -⟩ | ⟨b, s1, hb, hc⟩
  · rw [hk] at h
    cases h
    exact absurd (by decide) hi
  · rw [hb] at h
    cases h
    exact ⟨b, rfl, hc⟩

/-- `i_block` の変わらない inode を書き戻す。 -/
theorem Exact.setILinksCount {ino : Mem} (he : Exact ino roots n) {v : Nat} :
    Exact (setILinksCount ino v) roots n :=
  fun k hk => (load_store_of_disjoint (by omega)).trans (he k hk)

/-- 親の link と group の directory の数を増やしても、木は変わらない。 -/
theorem linkDirectory_inv (inv : Inv G s 0 roots) (parent : Node) (hp : IsInode G parent.inodeNum)
    (he : Exact parent.inode roots parent.inodeNum) (n : Nat) :
    Inv G (linkDirectory s parent n).2 0 roots := by
  obtain ⟨ok, s1, hw, hst⟩ := inv.writeInode hp
    (setILinksCount _ ((iLinksCount parent.inode + 1) % 2 ^ 16))
    fun _ k hk => .inr (he.setILinksCount k hk)
  simp only [linkDirectory, hw]
  split
  · rename_i hg
    rw [hst.grown.inv.ready.numGroups] at hg
    obtain ⟨ok', s2, hw2, hc, -⟩ := (hst.grown.inv.setUsedDirs _ _).writeGroupDesc hg
    rw [hw2]
    exact hc.inv
  · exact hst.grown.inv

/-- 木から外した inode の最初の block は、木の外にある。 -/
theorem Inv.first_loose (inv : Inv G s 0 roots) (hl : liveInode G s.disk n = true)
    (hroot : roots n 0 = b) (hnum : ∃ i < G.objects .block, b = G.base .block + i)
    (hmeta : ¬Metadata G b) : Loose G s n roots b := by
  refine ⟨hnum, hmeta, ?_⟩
  by_cases hb0 : b = 0
  · exact hb0 ▸ not_reachable_zero
  · have := (inv.exclude n).2 hl 0 (by decide) (hroot ▸ hb0)
    rw [hroot] at this
    exact this.apart

/-- 割り当てた inode と block に directory を書く。block は、inode を外せば木の外になる。 -/
theorem newDir_planted (inv : Inv G s 0 roots) {j : Int} {num : Nat}
    {s2 s3 s4 : State} (hnew : NewInode s parent name i s2) (hblock : ext2AllocBlock s2 = (j, s3))
    (hj : ¬j < 0) (hmake : makeDirectory s3 i.toNat j.toNat num = (ok, s4)) :
    (ok = false ∧ ¬HeapOk s2) ∨
    ok = true ∧ ∃ (n b : Nat) (roots' : Nat → Nat → Nat), i = n ∧ j = b ∧
      Planted G s s4 roots roots' n (newDirInode s.fs b) ∧ roots' n 0 = b ∧ Fresh G s4 n roots' b ∧
      Takes G s.disk s4.disk b ∧ ∃ k, s4.heap = fun l => s2.heap (l + k) := by
  obtain ⟨n, s1, rfl, hskip, hsw, hn, hnot, hlive⟩ := hnew.swapped inv
  obtain ⟨b, rfl, hc, hb, htakes, -⟩ := allocBlock_nonneg hsw.inv hblock hj
  rcases makeDirectory_cases hc.inv hn hb num with
    ⟨hno, s4', hmake'⟩ | ⟨s3', s4', hmake', hc', hb', hst, hsame⟩
  · obtain ⟨rfl, rfl⟩ := Prod.mk.inj (hmake'.symm.trans hmake)
    exact .inl ⟨rfl, fun hok => hno (hok.shift hc.heap)⟩
  obtain ⟨rfl, rfl⟩ := Prod.mk.inj (hmake'.symm.trans hmake)
  have hfs : newDirInode s3.fs b = newDirInode s.fs b := by
    unfold newDirInode
    rw [hc.inv.ready.size, inv.ready.size]
  rw [hfs] at hst
  have hino := iBlock_newDirInode s.fs (hb.owned.lt_pow hc.inv.ready.wf)
  rw [← hskip.disk] at hnot hlive
  obtain ⟨roots', hp⟩ := hst.planted hsw hn hnot hlive (hc.trans hc') (fun _ => hb') hino
  have hroot : roots' n 0 = b := by rw [← hp.exact 0 (by decide), hino, if_pos rfl]
  have htakes' : Takes G s.disk s4'.disk b := by
    rw [← hskip.disk]
    refine ⟨mt (allocated_congr hsw.marks b).mpr htakes.1, fun b' => ?_⟩
    rw [hsame, htakes.2, allocated_congr hsw.marks]
  refine .inr ⟨rfl, n, b, roots', rfl, rfl, hp.of_skips hskip, hroot,
    ⟨⟨(htakes'.2 b).mpr (.inr rfl), hb.owned.2⟩, ?_⟩, htakes',
    heap_shift_trans hc.heap (heap_shift_trans hc'.heap hst.grown.heap)⟩
  exact (hp.inv.first_loose (by rw [hp.live_eq]; simp) hroot hb.loose.numbered hb.owned.2).apart

/-- inode を取った後で `kmalloc` に失敗しなければ、`mkdir` は整合性を保つ。 -/
theorem MadeDir.inv (h : MadeDir s parent name r parent' s') (inv : Inv G s 0 roots)
    (hp : liveInode G s.disk parent.inodeNum = true)
    (he : Exact parent.inode roots parent.inodeNum)
    (hok : ∀ i s2, NewInode s parent name i s2 → HeapOk s2) : ∃ roots', Inv G s' 0 roots' := by
  cases h with
  | barred hb => exact ⟨roots, (hb.skips inv).inv inv⟩
  | noBlock hnew hblock hj =>
    have hok := hok _ _ hnew
    obtain ⟨n, s1, rfl, hskip, hsw, hn, hnot, hlive⟩ := hnew.swapped inv
    have hskip3 := allocBlock_neg hsw.inv hblock hj
    exact ⟨roots, (hskip3.inv hsw.inv).undoInode hn (by rw [hskip3.disk, hlive]; simp)
      (hok.shift hskip3.heap).head_ne_none⟩
  | unmade hnew hblock hj hmake =>
    rcases newDir_planted inv hnew hblock hj hmake with ⟨-, h⟩ | ⟨h, -⟩
    · exact absurd (hok _ _ hnew) h
    · cases h
  | @notAdded _ _ ino _ _ _ s5 hnew hblock hj hmake hadd =>
    have hok := hok _ _ hnew
    obtain ⟨-, n, b, roots4, rfl, rfl, hplant, hroot, hfresh, -, hheap⟩ :=
      (newDir_planted inv hnew hblock hj hmake).resolve_left fun h => by cases h.1
    obtain ⟨roots5, hg, -⟩ := hplant.add hp he hadd
    have hl5 : liveInode G s5.disk n = true := by
      rw [hg.live_eq, hplant.live_eq, decide_eq_true rfl, Bool.true_or]
    have hroot5 : roots5 n 0 = b := by
      rw [hg.roots_ne n (ne_of_not_live hplant.unused hp).symm, hroot]
    exact ⟨roots5, (hg.inv.exclude n).1.undoDir hplant.isInode hl5 ((hok.shift hheap).shift hg.heap)
      (hg.inv.first_loose hl5 hroot5 hfresh.loose.numbered hfresh.owned.2)⟩
  | @done _ _ ino _ _ _ s5 hnew hblock hj hmake hadd =>
    obtain ⟨-, n, b, roots4, rfl, rfl, hplant, -⟩ :=
      (newDir_planted inv hnew hblock hj hmake).resolve_left fun h => by cases h.1
    obtain ⟨roots5, hg, he5⟩ := hplant.add hp he hadd
    exact ⟨roots5, linkDirectory_inv hg.inv { parent with inode := ino } (isInode_of_live hp) he5 _⟩

end Create

/-! ## 削除 -/

section Unlink

variable {G : Geom} {s s' : State} {x n b : Nat} {roots : Nat → Nat → Nat}
  {parent parent' : Node} {name : List UInt8} {r : Int}

theorem Loose.calm (h : Loose G s x roots b) (hc : Calm G x roots s s') : Loose G s' x roots b :=
  ⟨h.numbered, h.data, mt hc.reachable.mp h.apart⟩

/-- 木から外した inode の直接 block を返す。 -/
theorem freeInodeBlocks_calm : ∀ (ks : List Nat) {s : State} {ino : Mem}, Inv G s x roots →
    (∀ k, iBlock ino k ≠ 0 → k < 14 → Loose G s x roots (iBlock ino k)) → (∀ k ∈ ks, k < 14) →
    Calm G x roots s (ks.foldl (fun (inode, s) i => if iBlock inode i = 0 then (inode, s)
      else (setIBlock inode i 0, (ext2FreeBlock s (iBlock inode i)).2)) (ino, s)).2 := by
  intro ks
  induction ks with
  | nil =>
    intro s ino inv _ _
    exact .refl inv
  | cons k ks ih =>
    intro s ino inv hloose hks
    rw [List.foldl_cons]
    have hks' : ∀ k ∈ ks, k < 14 := fun k' hk' => hks k' (List.mem_cons_of_mem _ hk')
    simp only
    split
    · exact ih inv hloose hks'
    rename_i h0
    have hc := inv.releaseBlock (hloose k h0 (hks k List.mem_cons_self))
    refine hc.trans (ih hc.inv ?_ hks')
    intro k' hk' hlt
    by_cases hkk : k' = k
    · subst hkk
      exact absurd (iBlock_setIBlock_self (by decide)) hk'
    · rw [iBlock_setIBlock_ne ino hkk] at hk' ⊢
      exact (hloose k' hk' hlt).calm hc

/-- 見つけた inode の pointer は、木の pointer か 0 である。 -/
theorem copy_sub (inv : Inv G s 0 roots) {ino : Mem} (hl : liveInode G s.disk n = true)
    (hino : ∀ y < inodeStructSize, ino y = inodeAt G s.disk n y) (hk : k < 14) :
    iBlock ino k = 0 ∨ iBlock ino k = roots n k := by
  rw [iBlock_congr hino hk]
  exact inv.sub n k (by rwa [view_live_zero]) hk

/-- ほかの inode の木が伸びても、前に読んだ写しの pointer は木の一部である。 -/
theorem Grown.copy_sub {m : Nat} {roots' : Nat → Nat → Nat} (hg : Grown G x m s s' roots roots')
    {ino : Mem} (h : iBlock ino k = 0 ∨ iBlock ino k = roots n k) :
    iBlock ino k = 0 ∨ iBlock ino k = roots' n k := by
  rcases h with h | h
  · exact .inl h
  · by_cases hn : n = m
    · subst hn
      rcases hg.roots_grow k with h0 | h0
      · exact .inl (h.trans h0)
      · exact .inr (h.trans h0.symm)
    · exact .inr (by rw [h, hg.roots_ne n hn])

theorem iBlock_setILinksCount (ino : Mem) (v k : Nat) :
    iBlock (setILinksCount ino v) k = iBlock ino k := load_store_of_disjoint (by omega)

/-- group の directory の数を減らす。 -/
def lowerUsedDirs (s : State) (n : Nat) : State :=
  let group := (n - 1) / s.fs.inodesPerGroup
  if group < s.fs.numGroups ∧ 0 < bgUsedDirsCount s.fs.groupDescs group then
    let s := { s with fs := { s.fs with
      groupDescs := setBgUsedDirsCount s.fs.groupDescs group
        (bgUsedDirsCount s.fs.groupDescs group - 1) } }
    (ext2WriteGroupDesc s group).2
  else s

/-- `destroyInode` の最後に、group の directory の数と親の link の数を減らす。 -/
def unlinkDirectory (s : State) (parent : Node) (n : Nat) : Node × State :=
  let s := lowerUsedDirs s n
  if 0 < iLinksCount parent.inode then
    let parent := { parent with
      inode := setILinksCount parent.inode (iLinksCount parent.inode - 1) }
    (parent, (ext2WriteInode s parent.inodeNum parent.inode).2)
  else (parent, s)

theorem destroyInode_eq : destroyInode s parent target =
    let (inode, s) := ext2FreeInodeBlocks s target.inode
    let (_, s) := ext2WriteInode s target.inodeNum (setISize (setIDtime inode 1) 0)
    let (_, s) := ext2FreeInode s target.inodeNum
    if target.type = vfsDirectory then unlinkDirectory s parent target.inodeNum
    else (parent, s) := by
  simp only [destroyInode, unlinkDirectory, lowerUsedDirs]

theorem lowerUsedDirs_inv (inv : Inv G s x roots) : Inv G (lowerUsedDirs s n) x roots := by
  unfold lowerUsedDirs
  simp only
  split
  · rename_i hg
    rw [inv.ready.numGroups] at hg
    obtain ⟨ok, s2, hw, hc, -⟩ := (inv.setUsedDirs _ _).writeGroupDesc hg.1
    rw [hw]
    exact hc.inv
  · exact inv

theorem unlinkDirectory_inv (inv : Inv G s x roots) (hp : IsInode G parent.inodeNum)
    (he : Exact parent.inode roots parent.inodeNum) :
    Inv G (unlinkDirectory s parent n).2 x roots := by
  have inv1 := lowerUsedDirs_inv (n := n) inv
  unfold unlinkDirectory
  simp only
  split
  · obtain ⟨ok, s2, hw, hst⟩ := inv1.writeInode hp _ fun _ k hk => .inr (he.setILinksCount k hk)
    rw [hw]
    exact hst.grown.inv
  · exact inv1

/-- link の数が 0 になった inode を木から外し、直接 block を返して、書き直す。 -/
theorem destroyInode_freed (inv : Inv G s 0 roots) (hnum : target.inodeNum = n)
    (hl : liveInode G s.disk n = true)
    (hino : ∀ k < 14, iBlock target.inode k = 0 ∨ iBlock target.inode k = roots n k) :
    ∃ s2, (∃ i, s2.heap = fun j => s.heap (j + i)) ∧ Inv G s2 n roots ∧ SameLive G s s2 ∧
      (∀ b, Allocated G s2.disk .block b ↔
        Allocated G (ext2FreeInodeBlocks s target.inode).2.disk .block b) ∧
      destroyInode s parent target = if target.type = vfsDirectory
        then unlinkDirectory (ext2FreeInode s2 n).2 parent n else (parent,
          (ext2FreeInode s2 n).2) := by
  obtain ⟨inv1, hfresh⟩ := inv.exclude n
  have hc : Calm G n roots s (ext2FreeInodeBlocks s target.inode).2 := by
    refine freeInodeBlocks_calm _ inv1 (fun k hk hlt => ?_) (by decide)
    have hroot := (hino k hlt).resolve_left hk
    rw [hroot] at hk ⊢
    exact (hfresh hl k hlt hk).loose
  obtain ⟨ok, s2, hw, hst⟩ := hc.inv.writeInode (isInode_of_live hl)
    (setISize (setIDtime (ext2FreeInodeBlocks s target.inode).1 1) 0) fun h =>
      absurd rfl (view_live.mp h).2
  refine ⟨s2, heap_shift_trans hc.heap hst.grown.heap, hst.grown.inv,
    fun m => (hst.grown.live_eq m).trans (hc.live_eq m), allocated_congr (hst.marks _), ?_⟩
  simp only [destroyInode_eq, hnum, hw]

/-- link の数が 0 になった inode を返す。 -/
theorem destroyInode_inv (inv : Inv G s 0 roots) (hl : liveInode G s.disk target.inodeNum = true)
    (hino : ∀ k < 14, iBlock target.inode k = 0 ∨ iBlock target.inode k = roots target.inodeNum k)
    (hp : IsInode G parent.inodeNum) (he : Exact parent.inode roots parent.inodeNum)
    (hok : HeapOk s) : Inv G (destroyInode s parent target).2 0 roots := by
  obtain ⟨s2, hheap, inv2, hlive, -, heq⟩ := destroyInode_freed inv rfl hl hino
  have inv3 := inv2.undoInode (isInode_of_live hl) ((hlive _).trans hl)
    (hok.shift hheap).head_ne_none
  rw [heq]
  split
  · exact unlinkDirectory_inv inv3 hp he
  · exact inv3

/-- 名前を消し、最後の link だったので inode を返し始める状態。 -/
def Reclaims (s : State) (parent : Node) (name : List UInt8) (target : Node) (s3 : State) : Prop :=
  ∃ removed ino s2, Probed s parent name target 1 s2 ∧
    ext2RemoveDirEntry s2 parent.inode parent.inodeNum name = some (removed, ino, s3) ∧
    0 ≤ removed ∧ iLinksCount target.inode = 1

theorem Probed.removed {removed : Int} {ino : Mem} {s2 s3 : State}
    (hprobe : Probed s parent name target 1 s2) (inv : Inv G s 0 roots)
    (hp : liveInode G s.disk parent.inodeNum = true) (he : Exact parent.inode roots parent.inodeNum)
    (hremove : ext2RemoveDirEntry s2 parent.inode parent.inodeNum name = some (removed, ino, s3)) :
    ∃ roots', Grown G 0 parent.inodeNum s s3 roots roots' ∧ Exact ino roots' parent.inodeNum := by
  have hskip := hprobe.skips inv.ready
  obtain ⟨roots', hg, he'⟩ := removeDirEntry_grown (hskip.inv inv)
    (by rwa [view_live_zero, hskip.disk]) he hremove
  exact ⟨roots', (hskip.grown inv _).trans hg, he'⟩

/-- 使用中の file を消す。inode を返し始めてから `kmalloc` に失敗しなければ、整合性は保たれる。 -/
theorem Unlinked.inv (h : Unlinked s parent name r parent' s') (inv : Inv G s 0 roots)
    (hp : liveInode G s.disk parent.inodeNum = true) (he : Exact parent.inode roots parent.inodeNum)
    (hnamed : ∀ target s1, ext2VfsFinddir s parent name = some (some target, s1) →
      liveInode G s.disk target.inodeNum = true)
    (hok : ∀ target s3, Reclaims s parent name target s3 → HeapOk s3) :
    ∃ roots', Inv G s' 0 roots' := by
  cases h with
  | dots => exact ⟨roots, inv⟩
  | absent hfind => exact ⟨roots, (finddir_skips inv.ready hfind).inv inv⟩
  | notEmpty hprobe => exact ⟨roots, (hprobe.skips inv.ready).inv inv⟩
  | notRemoved hprobe hremove =>
    obtain ⟨roots', hg, -⟩ := hprobe.removed inv hp he hremove
    exact ⟨roots', hg.inv⟩
  | @kept target _ _ _ s3 _ hprobe hremove =>
    obtain ⟨roots', hg, -⟩ := hprobe.removed inv hp he hremove
    obtain ⟨_, hfind, -⟩ := hprobe
    have hl := hnamed _ _ hfind
    obtain ⟨ok, s4, hw, hst⟩ := hg.inv.writeInode (isInode_of_live hl) _ (by
        intro _ k hk
        rw [iBlock_setILinksCount]
        exact hg.copy_sub (copy_sub inv hl (finddir_some inv.ready hfind (isInode_of_live hl)) hk))
    rw [hw]
    exact ⟨roots', hst.grown.inv⟩
  | @destroyed target _ ino _ s3 _ hprobe hremove hrem hlinks =>
    obtain ⟨roots', hg, he'⟩ := hprobe.removed inv hp he hremove
    have hone : iLinksCount target.inode = 1 := by
      have : iLinksCount target.inode < 2 ^ 16 := load_lt _ _ 2
      omega
    have hok3 := hok target s3 ⟨_, _, _, hprobe, hremove, Int.not_lt.mp hrem, hone⟩
    obtain ⟨_, hfind, -⟩ := hprobe
    have hl := hnamed _ _ hfind
    refine ⟨roots', destroyInode_inv hg.inv ?_ ?_ (isInode_of_live hp) he' hok3⟩
    · rw [hg.live_eq]
      exact hl
    · intro k hk
      rw [iBlock_setILinksCount]
      exact hg.copy_sub (copy_sub inv hl (finddir_some inv.ready hfind (isInode_of_live hl)) hk)

end Unlink

/-! ## 実行 -/

/-- file system への操作。node は、操作のたびに inode の番号から作る。 -/
inductive FsOp where
  | create (dir : Nat) (name : List UInt8)
  | mkdir (dir : Nat) (name : List UInt8)
  | write (num offset size : Nat) (src : Mem)
  | unlink (dir : Nat) (name : List UInt8)

/-- 操作を受ける inode。 -/
def FsOp.inode : FsOp → Nat
  | .create dir _ => dir
  | .mkdir dir _ => dir
  | .write num _ _ _ => num
  | .unlink dir _ => dir

/-- 作ったばかりの node に対する操作。 -/
def FsOp.call (s : State) (node : Node) : FsOp → Option (Int × Node × State)
  | .create _ name => ext2VfsCreate s node name
  | .mkdir _ name => ext2VfsMkdir s node name
  | .write _ offset size src => some (ext2VfsWrite s node offset size src)
  | .unlink _ name => ext2VfsUnlink s node name

/-- node を作り、操作する。node が作れなければ、何もしない。 -/
def perform (s : State) (op : FsOp) : Option (Int × State) :=
  match ext2CreateNode s op.inode with
  | (none, s) => some (-1, s)
  | (some node, s) => (op.call s node).map fun (r, _, s) => (r, s)

/-- 一回の呼び出し。`heap` は、その間の `kmalloc` の結果である。 -/
structure Call where
  op : FsOp
  heap : Nat → Option Mem

def fsStep (s : State) (c : Call) : Option State :=
  (perform { s with heap := c.heap } c.op).map (·.2)

/-- 後始末で `kmalloc` に失敗しない。消す名前は、使用中の inode のものである。 -/
def CleanUp (G : Geom) (s : State) (node : Node) : FsOp → Prop
  | .create _ name => ∀ i s2, NewInode s node name i s2 → s2.heap 0 ≠ none ∨ s2.heap 1 ≠ none
  | .mkdir _ name => ∀ i s2, NewInode s node name i s2 → HeapOk s2
  | .write _ _ size _ => size < 2 ^ 32
  | .unlink _ name => (∀ target s1, ext2VfsFinddir s node name = some (some target, s1) →
      liveInode G s.disk target.inodeNum = true) ∧
    ∀ target s3, Reclaims s node name target s3 → HeapOk s3

/-- 使用中の inode に対する、後始末の済む操作。 -/
structure FsLegal (G : Geom) (s : State) (c : Call) : Prop where
  live : liveInode G s.disk c.op.inode = true
  cleanUp : ∀ node s1, ext2CreateNode { s with heap := c.heap } c.op.inode = (some node, s1) →
    CleanUp G s1 node c.op

section Run

variable {G : Geom} {s s' s₀ s1 : State} {c : Call} {calls : List Call} {op : FsOp} {r : Int}
  {node : Node}

/-- 作ったばかりの node は、disk の inode の写しである。 -/
theorem createNode_exact (hm : Mounted G s) (hl : liveInode G s.disk op.inode = true)
    (h : ext2CreateNode s op.inode = (some node, s1)) :
    Skips s s1 ∧ liveInode G s1.disk node.inodeNum = true ∧
      Exact node.inode (rootAt G s.disk) node.inodeNum := by
  have hskip := createNode_skips hm.ready op.inode
  rw [h] at hskip
  obtain ⟨hnum, -, hino⟩ := createNode_some hm.ready h
  refine ⟨hskip, ?_, fun k hk => ?_⟩
  · rw [hnum, show s1.disk = s.disk from Skips.disk hskip]
    exact hl
  · rw [hnum]
    exact iBlock_congr (hino (isInode_of_live hl)) hk

/-- 呼び出しの間の `kmalloc` がどれも成功するなら、後始末でも失敗しない。 -/
theorem cleanUp_of_heapOk (hm : Mounted G s) (hl : liveInode G s.disk op.inode = true)
    (hok : HeapOk s) (hsize : ∀ num off size src, op = .write num off size src → size < 2 ^ 32)
    (hnode : ext2CreateNode s op.inode = (some node, s1))
    (hnamed : ∀ dir name target s2, op = .unlink dir name →
      ext2VfsFinddir s1 node name = some (some target, s2) →
      liveInode G s1.disk target.inodeNum = true) : CleanUp G s1 node op := by
  obtain ⟨hskip, hlive, hexact⟩ := createNode_exact hm hl hnode
  have inv := hskip.inv hm.inv
  have hok1 := hok.shift hskip.heap
  cases op with
  | create dir name => exact fun i s2 h => .inl (h.heapOk inv hok1).head_ne_none
  | mkdir dir name => exact fun i s2 h => h.heapOk inv hok1
  | write num off size src => exact hsize _ _ _ _ rfl
  | unlink dir name =>
    refine ⟨fun target s2 => hnamed dir name target s2 rfl, ?_⟩
    rintro target s3 ⟨removed, ino, s2, hprobe, hremove, -⟩
    obtain ⟨roots', hg, -⟩ := hprobe.removed inv hlive hexact hremove
    exact hok1.shift hg.heap

theorem perform_mounted (hm : Mounted G s) (hl : liveInode G s.disk op.inode = true)
    (hclean : ∀ node s1, ext2CreateNode s op.inode = (some node, s1) → CleanUp G s1 node op)
    (h : perform s op = some (r, s')) : Mounted G s' := by
  unfold perform at h
  split at h
  · rename_i heq
    have hskip := createNode_skips hm.ready op.inode
    rw [heq] at hskip
    cases h
    exact (hskip.inv hm.inv).mounted
  rename_i node s1 heq
  obtain ⟨hskip, hlive, hexact⟩ := createNode_exact hm hl heq
  have inv := hskip.inv hm.inv
  have hclean := hclean node s1 heq
  obtain ⟨⟨r', node', s2⟩, hcall, he⟩ := map_eq_some_iff.mp h
  cases he
  have hinv : ∃ roots', Inv G s' 0 roots' := by
    cases op with
    | create dir name => exact (create_cases hcall).inv inv hlive hexact hclean
    | mkdir dir name => exact (mkdir_cases hcall).inv inv hlive hexact hclean
    | unlink dir name => exact (unlink_cases hcall).inv inv hlive hexact hclean.1 hclean.2
    | write num offset size src =>
      simp only [FsOp.call, ext2VfsWrite] at hcall
      split at hcall
      · cases hcall
        exact ⟨_, inv⟩
      · obtain ⟨r1, ino', s3, roots', hw, hout⟩ := writeInodeData_spec inv
          (by rwa [view_live_zero]) hexact _ hclean src
        rw [hw] at hcall
        cases hcall
        exact ⟨roots', hout.grown.inv⟩
  obtain ⟨roots', hinv⟩ := hinv
  exact hinv.mounted

theorem fsStep_mounted (hm : Mounted G s) (hl : FsLegal G s c) (h : fsStep s c = some s') :
    Mounted G s' := by
  obtain ⟨⟨r, s''⟩, hperf, rfl⟩ := map_eq_some_iff.mp h
  exact perform_mounted (hm.inv.withHeap c.heap).mounted hl.live hl.cleanUp hperf

/--
**後始末で `kmalloc` に失敗しない実行では、届くどの状態の image も整合している。**

後始末のほかでは、`kmalloc` はいつ失敗してもよい。途中で書けなかった block があっても、整合性は保たれる。
-/
theorem reach_consistent (hm : Mounted G s₀) (hreach : Reach fsStep (FsLegal G) s₀ calls s) :
    Consistent G s.disk :=
  (hreach.invariant hm fun _ _ _ hm hl h => fsStep_mounted hm hl h).consistent

end Run

/-! ## 例 -/

/-- `kmalloc` がどれも成功する呼び出し。 -/
def ample (op : FsOp) : Call := ⟨op, fun _ => some fun _ => 0⟩

/-- `plainState` に file `b` を作り、その inode 4 に 1 byte を書き、`a` を消す。 -/
def plainCalls : List Call :=
  [ample (.create 2 [98]), ample (.write 4 0 1 fun _ => 65), ample (.unlink 2 [97])]

def plainCreated : State := (fsStep plainState (ample (.create 2 [98]))).getD plainState

def plainWritten : State :=
  (fsStep plainCreated (ample (.write 4 0 1 fun _ => 65))).getD plainState

def plainRemoved : State := (fsStep plainWritten (ample (.unlink 2 [97]))).getD plainState

set_option maxRecDepth 20000

theorem reach_consistent_plain :
    Reach fsStep (FsLegal wideFs.geom) plainState plainCalls plainRemoved ∧
      Consistent wideFs.geom plainRemoved.disk := by
  have hok : ∀ s : State, HeapOk { s with heap := fun _ => some fun _ => 0 } := fun _ _ => ⟨_, rfl⟩
  have h1 : Reach fsStep (FsLegal wideFs.geom) plainState [ample (.create 2 [98])]
    plainCreated := by
    refine .snoc .nil ⟨by decide +kernel, fun node s1 hnode => ?_⟩
      (eq_some_getD (by decide +kernel) _)
    exact cleanUp_of_heapOk (plain_mounted.inv.withHeap _).mounted (by decide +kernel) (hok _)
      (fun _ _ _ _ h => by cases h) hnode (fun _ _ _ _ h => by cases h)
  have h2 : Reach fsStep (FsLegal wideFs.geom) plainState
      [ample (.create 2 [98]), ample (.write 4 0 1 fun _ => 65)] plainWritten := by
    refine .snoc h1 ⟨by decide +kernel, fun node s1 hnode => ?_⟩
      (eq_some_getD (by decide +kernel) _)
    exact show 1 < 2 ^ 32 by decide
  have hm2 := h2.invariant plain_mounted fun _ _ _ hm hl h => fsStep_mounted hm hl h
  have h3 : Reach fsStep (FsLegal wideFs.geom) plainState plainCalls plainRemoved := by
    refine .snoc h2 ⟨by decide +kernel, fun node s1 hnode => ?_⟩
      (eq_some_getD (by decide +kernel) _)
    refine cleanUp_of_heapOk (hm2.inv.withHeap _).mounted (by decide +kernel) (hok _)
      (fun _ _ _ _ h => by cases h) hnode ?_
    intro dir name target s2 h hfind
    cases h
    -- 見つかるのは、使用中の inode 3 である
    obtain ⟨hskip, -⟩ := createNode_exact (hm2.inv.withHeap _).mounted (by decide +kernel) hnode
    have hfound : ((ext2CreateNode { plainWritten with heap := fun _ => some fun _ => 0 } 2).1.bind
        fun node => (ext2VfsFinddir (ext2CreateNode { plainWritten with
          heap := fun _ => some fun _ => 0 } 2).2 node [97]).map fun r => r.1.map Node.inodeNum)
          = some (some 3) := by
      decide +kernel
    have hnode : ext2CreateNode { plainWritten with heap := fun _ => some fun _ => 0 } 2
      = (some node, s1) := hnode
    rw [hnode] at hfound
    simp only [bind_some, hfind, map_some, some.injEq] at hfound
    rw [hfound, hskip.disk]
    decide +kernel
  exact ⟨h3, reach_consistent plain_mounted h3⟩

/-- 13 回の後は `kmalloc` に失敗する呼び出し。 -/
def scarce (op : FsOp) : Call := ⟨op, fun i => if i < 13 then some (fun _ => 0) else none⟩

/-- `a` を消した後の状態。 -/
def danglingState : State := (fsStep plainState (scarce (.unlink 2 [97]))).getD plainState

/--
**後始末の途中で `kmalloc` に失敗すると、image は整合しなくなる。**

`a` の block を返した後の `ext2_write_inode` と `ext2_free_inode` が失敗する。`unlink` は成功を返すが、
inode 3 は使用中のまま、空いた block 7 を指している。
-/
theorem unlink_leaves_dangling : Mounted wideFs.geom plainState ∧
    (perform { plainState with heap := (scarce (.unlink 2 [97])).heap } (.unlink 2 [97])).map (·.1)
      = some 0 ∧
    Reach fsStep (fun s c => liveInode wideFs.geom s.disk c.op.inode = true) plainState
      [scarce (.unlink 2 [97])] danglingState ∧ ¬Consistent wideFs.geom danglingState.disk := by
  refine ⟨plain_mounted, by decide +kernel,
    .snoc .nil (by decide +kernel) (eq_some_getD (by decide +kernel) _), ?_⟩
  intro hc
  have hlive : (imageView wideFs.geom danglingState.disk).live 3 = true := by decide +kernel
  have htr : trace wideFs.geom (imageView wideFs.geom danglingState.disk) [3, 0]
      = some (.block 0 7) := by
    decide +kernel
  obtain ⟨i, hi, h7, hmark⟩ := (hc.good htr).1
  obtain rfl : i = 6 := by
    have hbase : wideFs.geom.base .block = 1 := rfl
    omega
  have hfree : marked wideFs.geom danglingState.disk .block 6 = false := by decide +kernel
  rw [hmark] at hfree
  cases hfree

end Alos.Ext2
