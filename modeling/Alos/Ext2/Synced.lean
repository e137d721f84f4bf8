import Alos.Ext2.Directory

/-!
# 操作の切れ目

操作の途中では memory の inode が先に進むが、切れ目では disk に追いついている（`Synced`）。
そのときの木は、disk の image の木である。空きの数は、使用中の物の集まりだけで決まる。
-/

namespace Alos.Ext2

open Bytes Bitmap Records

/-! ## 空きの数 -/

section Total

variable {G : Geom} {s s' : State} {k : Kind} {n : Nat} {m : Mem}

/-- 空きの数は、bit の立っていない物の数である。 -/
theorem Matching.total_count (hm : Matching G s) (wf : G.Wf) :
    k.pool.total s.fs = Nat.count (fun i => marked G s.disk k i = false) (G.objects k) := by
  have hsum : ∀ n, ∑ g ∈ Finset.range n, freeBits G s.disk k g
      = Nat.count (fun i => marked G s.disk k i = false) (min (n * G.per k) (G.objects k)) := by
    intro n
    induction n with
    | zero => simp
    | succ n ih =>
      have hvalid : G.validBits k n = min _ _ := rfl
      have hmin : min ((n + 1) * G.per k) (G.objects k)
          = min (n * G.per k) (G.objects k) + G.validBits k n := by
        rw [Nat.succ_mul]
        omega
      rw [Finset.sum_range_succ, hmin, Nat.count_add]
      congr 1
      refine count_congr fun bit hbit => ?_
      rw [Nat.min_eq_left (by omega), marked, Geom.Wf.index_div hbit, Geom.Wf.index_mod hbit]
  have hall : G.objects k ≤ G.numGroups * G.per k := by
    by_contra h
    have := wf.group_lt (show G.numGroups * G.per k < G.objects k by omega)
    rw [Nat.mul_div_cancel _ (wf.per_pos k)] at this
    omega
  rw [hm.total_eq, hsum, Nat.min_eq_right hall]

theorem allocated_base {i : Nat} (hi : i < G.objects k) :
    Allocated G m k (G.base k + i) ↔ marked G m k i = true := by
  constructor
  · rintro ⟨j, -, hij, h⟩
    obtain rfl : i = j := by omega
    exact h
  · exact fun h => ⟨i, hi, rfl, h⟩

theorem live_iff_allocated : liveInode G m n = true ↔ Allocated G m .inode n := by
  simp only [liveInode, Bool.and_eq_true, decide_eq_true_eq]
  constructor
  · rintro ⟨hn, h⟩
    have hpos := hn.1
    exact ⟨n - 1, isInode_index hn, by simp only [Geom.base]; omega, h⟩
  · rintro ⟨i, hi, rfl, h⟩
    have hi' : i < G.inodesCount := hi
    refine ⟨⟨by simp only [Geom.base]; omega, by simp only [Geom.base]; omega⟩, ?_⟩
    rwa [show G.base _ + i - 1 = i by simp only [Geom.base]; omega]

/-- 使用中の物が同じなら、空きの数も同じである。 -/
theorem Matching.total_eq_of_allocated (hm : Matching G s) (hm' : Matching G s') (wf : G.Wf)
    (h : ∀ n, Allocated G s'.disk k n ↔ Allocated G s.disk k n) :
    k.pool.total s'.fs = k.pool.total s.fs := by
  rw [hm.total_count wf, hm'.total_count wf]
  refine count_congr fun i hi => ?_
  rw [← Bool.not_eq_true, ← Bool.not_eq_true, ← allocated_base hi, ← allocated_base hi, h]

/-- 使用中の物が一つ増えると、空きは一つ減る。 -/
theorem Matching.total_succ_of_allocated (hm : Matching G s) (hm' : Matching G s') (wf : G.Wf)
    (hn : ¬Allocated G s.disk k n)
    (h : ∀ n', Allocated G s'.disk k n' ↔ Allocated G s.disk k n' ∨ n' = n) :
    k.pool.total s.fs = k.pool.total s'.fs + 1 := by
  obtain ⟨i, hi, rfl, -⟩ := (h n).mpr (.inr rfl)
  have hcount := @count_insert i _ (fun j => j < G.objects k ∧ marked G _ k j = false)
    (fun j => j < G.objects k ∧ marked G _ k j = false) _ _ hi
    (by
      rintro ⟨-, hf⟩
      rw [(allocated_base hi).mp ((h _).mpr (.inr rfl))] at hf
      cases hf)
    ⟨hi, by rw [← Bool.not_eq_true, ← allocated_base hi]; exact hn⟩
    (by
      intro j hj
      refine and_congr_right fun hlt => ?_
      rw [← Bool.not_eq_true, ← Bool.not_eq_true, ← allocated_base hlt, ← allocated_base hlt, h]
      simp [hj])
  have hbound : ∀ t : State, Nat.count (fun j => marked G t.disk k j = false) _
      = Nat.count (fun j => j < G.objects k ∧ marked G t.disk k j = false) (G.objects k) :=
    fun t => count_congr fun j hj => by simp [hj]
  rw [hm.total_count wf, hm'.total_count wf, hbound, hbound, hcount]

end Total

/-! ## disk に追いついた木 -/

/-- memory の `i_block` は、どれも disk に書かれている。 -/
def Synced (G : Geom) (m : Mem) (roots : Nat → Nat → Nat) : Prop :=
  ∀ n, liveInode G m n = true → ∀ k < 14, roots n k = rootAt G m n k

/-- inode `n` は、disk の上でも、木と data でも変わらなかった。 -/
structure Kept (G : Geom) (m m' : Mem) (n : Nat) : Prop where
  inode : SameInode G m m' n
  file : SameFile G (imageView G m) (imageView G m') n

section Synced

variable {G : Geom} {s s' : State} {m m' m'' : Mem} {n num : Nat} {roots roots' : Nat → Nat → Nat}
  {ino ino' : Mem} {es' : List Entry} {node : Node} {bl : List (List Entry)}

theorem SameFile.symm {v v' : View} (h : SameFile G v v' n) : SameFile G v' v n :=
  ⟨fun k hk => (h.roots k hk).symm, fun p => (h.trace p).symm, fun p o ho => (h.data p o ho).symm⟩

theorem Kept.trans (h1 : Kept G m m' n) (h2 : Kept G m' m'' n) : Kept G m m'' n :=
  ⟨fun y hy => (h2.inode y hy).trans (h1.inode y hy), h1.file.trans h2.file⟩

theorem synced_rootAt (G : Geom) (m : Mem) : Synced G m (rootAt G m) := fun _ _ _ _ => rfl

/-- 切れ目の木は、disk の image の木である。 -/
theorem Synced.sameFile (h : Synced G m roots) (hn : liveInode G m n = true) :
    SameFile G (view G m 0 roots) (imageView G m) n := by
  have hroots : ∀ k < 14, (imageView G m).roots n k = (view G m 0 _).roots n k :=
    fun k hk => (h n hn k hk).symm
  have htrace : ∀ p, trace G _ _ = trace G _ _ :=
    trace_cons_congr view_live_zero.symm hroots rfl
  exact ⟨hroots, htrace, fun p o _ => dataAt_congr (htrace p) fun _ _ => rfl⟩

theorem Kept.of_synced (hs : Synced G m roots) (hs' : Synced G m' roots')
    (hn : liveInode G m n = true) (hino : SameInode G m m' n)
    (hfile : SameFile G (view G m 0 roots) (view G m' 0 roots') n) : Kept G m m' n := by
  have hn' : liveInode G m' n = true := by
    rw [← view_live_zero]
    exact hfile.live (by rwa [view_live_zero])
  exact ⟨hino, (hs.sameFile hn).symm.trans (hfile.trans (hs'.sameFile hn'))⟩

/-- 切れ目の directory は、disk から読んでも整っている。 -/
theorem Directory.wellFormed (D : Directory G s 0 roots node.inodeNum node.inode bl.flatten)
    (wf : G.Wf) (hs : Synced G s.disk roots)
    (hcopy : ∀ y < inodeStructSize, node.inode y = inodeAt G s.disk node.inodeNum y)
    (hdir : node.type = vfsDirectory) (hfull : ∀ b ∈ bl, span Entry.recLen b = G.blockSize) :
    WellFormedDir G s node bl where
  live := by
    rw [← view_live_zero]
    exact D.live
  copy := hcopy
  isDir := hdir
  pos := D.pos
  lt := D.lt
  blocked := by
    have hl : liveInode G s.disk node.inodeNum = true := by
      rw [← view_live_zero]
      exact D.live
    exact ⟨D.laid.congr fun y _ => (hs.sameFile hl).fileByte wf, hfull⟩

section

variable (hu : Updated G 0 num s s' roots roots' ino ino' es') (hs : Synced G s.disk roots)
include hu hs

/-- directory の書き換えは、切れ目で終わる。 -/
theorem Updated.synced : Synced G s'.disk roots' := by
  intro n hn k hk
  by_cases hne : n = num
  · subst hne
    rw [← hu.directory.exact k hk]
    exact iBlock_congr (fun y hy => (hu.stored y hy).symm) hk
  · rw [hu.grown.live_eq] at hn
    rw [hu.grown.roots_ne n hne, hs n hn k hk]
    exact iBlock_congr (fun y hy => (hu.grown.inodes n hne (isInode_of_live hn) y hy).symm) hk

theorem Updated.kept (hn : liveInode G s.disk n = true) (hne : n ≠ num) : Kept G s.disk s'.disk n :=
  .of_synced hs (hu.synced hs) hn (hu.grown.inodes n hne (isInode_of_live hn))
    (hu.grown.sameFile hne)

end

/-- block ごとに区切れるなら、書き換えた directory も整っている。 -/
theorem Updated.wellFormed (hu : Updated G 0 node.inodeNum s s' roots roots' node.inode ino' es')
    (hs : Synced G s.disk roots) (hdir : node.type = vfsDirectory)
    (hp : Paged Entry.recLen G.blockSize es') :
    ∃ bl, bl.flatten = es' ∧ WellFormedDir G s' { node with inode := ino' } bl := by
  obtain ⟨bl, rfl, hfull⟩ := hp
  refine ⟨bl, rfl, Directory.wellFormed hu.directory hu.grown.inv.ready.wf
    (hu.synced hs) ?_ hdir hfull⟩
  exact fun y hy => (hu.stored y hy).symm

theorem WellFormedDir.paged (W : WellFormedDir G s node bl) :
    Paged Entry.recLen G.blockSize bl.flatten := ⟨bl, rfl, W.blocked.full⟩

end Synced

/-! ## block の区切り -/

section Paged

variable {G : Geom} {name : List UInt8} {es es' : List Entry} {new ft : Nat}

/-- entry を足しても、block の区切りは保たれる。 -/
theorem Added.paged (h : Added G new ft name es es') (hp : Paged Entry.recLen G.blockSize es) :
    Paged Entry.recLen G.blockSize es' := by
  cases h with
  | @split pre post e he =>
    rw [show pre ++ { e with recLen := e.used } :: ⟨new, e.recLen - e.used, name, ft⟩ :: post
      = pre ++ [{ e with recLen := e.used }, ⟨new, e.recLen - e.used, name, ft⟩] ++ post by simp]
    refine hp.replace ?_
    simp only [Entry.roomy, decide_eq_true_eq] at he
    simp only [span_cons, span_nil]
    omega
  | extended _ => exact hp.concat rfl

/-- block の先頭にない entry を消しても、block の区切りは保たれる。 -/
theorem Erased.paged (h : Erased name es es') (hp : Paged Entry.recLen G.blockSize es)
    (hinner : ∀ pre y e post, es = pre ++ y :: e :: post → e.has name = true →
      (∀ z ∈ pre ++ [y], z.has name = false) → span Entry.recLen (pre ++ [y]) % G.blockSize ≠ 0) :
    Paged Entry.recLen G.blockSize es' := by
  cases h with
  | @first e post he =>
    have hp' : Paged _ _ ([] ++ e :: post) := hp
    exact hp'.replace (m := [{ e with inode := 0 }]) (by simp)
  | @merged pre post y e he hpre =>
    exact hp.merge (hinner pre y e post rfl he hpre) rfl

end Paged

end Alos.Ext2
