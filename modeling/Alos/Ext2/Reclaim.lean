import Alos.Ext2.Removal

/-!
# 作って書いて消す

`ext2_free_inode_blocks` は直接 block だけを返す。file が 12 block より大きければ、間接 block と、その先の data の
block は、`ext2_vfs_unlink` の後も使用中のまま残る。

* `restored_iff` — 空きの block の数が元に戻るのは、12 block に収まるときだけである
* `large_file_leaks` — 一 byte でもはみ出すと、二つの block が失われる
-/

namespace Alos.Ext2

open Bytes Bitmap Records List Option

/-! ## 空きの数 -/

section Total

variable {G : Geom} {s s' : State} {k : Kind} {n : Nat}

theorem Matching.total_lt_of_allocated (hm : Matching G s) (hm' : Matching G s') (wf : G.Wf)
    (hkept : ∀ n, Allocated G s.disk k n → Allocated G s'.disk k n)
    (hn : Allocated G s'.disk k n) (hn' : ¬Allocated G s.disk k n) :
    k.pool.total s'.fs < k.pool.total s.fs := by
  obtain ⟨i, hi, rfl, hmark⟩ := hn
  rw [hm.total_count wf, hm'.total_count wf, Nat.count_eq_card_filter_range,
    Nat.count_eq_card_filter_range]
  refine Finset.card_lt_card (Finset.ssubset_iff_of_subset ?_ |>.mpr ⟨i, ?_, ?_⟩)
  · intro j hj
    simp only [Finset.mem_filter, Finset.mem_range] at hj ⊢
    refine ⟨hj.1, ?_⟩
    rw [← Bool.not_eq_true, ← allocated_base hj.1]
    intro h
    rw [(allocated_base hj.1).mp (hkept _ h)] at hj
    cases hj.2
  · simp only [Finset.mem_filter, Finset.mem_range]
    refine ⟨hi, ?_⟩
    rw [← Bool.not_eq_true, ← allocated_base hi]
    exact hn'
  · simp [hmark]

theorem allocated_zero {x : Nat} {roots : Nat → Nat → Nat} (inv : Inv G s x roots)
    (hboot : G.BootReserved) (h : Allocated G s'.disk .block 0) : Allocated G s.disk .block 0 := by
  obtain ⟨i, hi, h0, -⟩ := h
  rcases hboot with hpos | hmeta
  · have : G.base .block = G.firstDataBlock := rfl
    omega
  · exact ⟨i, hi, h0, inv.reserved i hi (by rwa [← h0])⟩

end Total

/-! ## file の block -/

/-- inode `n` の木に block `b` がある。 -/
def Holding (G : Geom) (v : View) (n b : Nat) : Prop :=
  ∃ p h, trace G v (n :: p) = some (.block h b)

section Holding

variable {G : Geom} {v : View} {s : State} {x n b : Nat} {roots : Nat → Nat → Nat}

/-- 木の block は、どれかの `i_block` の先にある。直接 block なら、それ自身である。 -/
theorem Holding.root (h : Holding G v n b) :
    ∃ k < 14, v.roots n k ≠ 0 ∧ (k < 12 → b = v.roots n k) := by
  obtain ⟨p, i, hp⟩ := h
  cases p with
  | nil =>
    rcases trace_cases hp with ⟨h, -⟩ | ⟨_, -, hf, -⟩ | ⟨_, _, _, _, _, h, -, -⟩
    · cases h
    · cases hf
    · cases h
  | cons k q =>
    have hp' : trace G v ([n, k] ++ q) = some _ := hp
    unfold trace at hp'
    rw [Radix.walk_append, bind_eq_some_iff] at hp'
    obtain ⟨f, hf, hq⟩ := hp'
    obtain ⟨-, hk, h0, rfl⟩ := trace_root_some hf
    refine ⟨k, hk, h0, fun h12 => ?_⟩
    rw [show heightOf k = 0 from Nat.sub_eq_zero_of_le (by omega)] at hq
    cases q with
    | nil =>
      cases hq
      rfl
    | cons j q => cases hq

theorem trace_root_of_ne (hn : (view G s.disk x roots).live n = true) {k : Nat} (hk : k < 14)
    (h0 : roots n k ≠ 0) :
    trace G (view G s.disk x roots) [n, k] = some (.block (heightOf k) (roots n k)) := by
  rw [trace_root hn]
  simp only [edges, view, if_pos hk, target_of_ne h0]

theorem Inv.root_inj (inv : Inv G s x roots) (hn : (view G s.disk x roots).live n = true)
    {k k' : Nat} (hk : k < 14) (hk' : k' < 14) (h0 : roots n k ≠ 0)
    (he : roots n k' = roots n k) : k' = k := by
  have h1 := trace_root_of_ne (G := G) hn hk h0
  have h2 := trace_root_of_ne (G := G) hn hk' (by rwa [he])
  rw [he] at h2
  have := inv.sound.once h2 h1
  simpa using this

end Holding

/-! ## 直接 block を返す -/

section Destroy

variable {G : Geom} {s : State} {x : Nat} {roots : Nat → Nat → Nat}

/-- 返した block だけが空く。 -/
theorem freeInodeBlocks_allocated : ∀ (ks : List Nat) {s : State} {ino : Mem}, Inv G s x roots →
    HeapOk s → ks.Nodup → (∀ k ∈ ks, iBlock ino k ≠ 0 → Fresh G s x roots (iBlock ino k)) →
    (∀ k ∈ ks, ∀ k' ∈ ks, iBlock ino k ≠ 0 → iBlock ino k' = iBlock ino k → k' = k) →
    ∀ b, Allocated G (ks.foldl (fun (inode, s) i => if iBlock inode i = 0 then (inode, s)
      else (setIBlock inode i 0, (ext2FreeBlock s (iBlock inode i)).2)) (ino, s)).2.disk .block b ↔
      Allocated G s.disk .block b ∧ ∀ k ∈ ks, iBlock ino k ≠ 0 → b ≠ iBlock ino k := by
  intro ks
  induction ks with
  | nil =>
    intro s ino _ _ _ _ _ b
    simp
  | cons k ks ih =>
    intro s ino inv hok hnodup hfresh hinj b
    obtain ⟨hk, hnodup⟩ := nodup_cons.mp hnodup
    have hfresh' : ∀ k' ∈ ks, iBlock ino k' ≠ 0 → Fresh G s x _ _ :=
      fun k' hk' => hfresh k' (mem_cons_of_mem _ hk')
    have hinj' : ∀ k₁ ∈ ks, ∀ k₂ ∈ ks, iBlock ino k₁ ≠ 0 → iBlock ino k₂ = iBlock ino k₁ →
        k₂ = k₁ := fun k₁ h₁ k₂ h₂ =>
      hinj k₁ (mem_cons_of_mem _ h₁) k₂ (mem_cons_of_mem _ h₂)
    rw [foldl_cons]
    simp only
    split
    · rename_i h0
      rw [ih inv hok hnodup hfresh' hinj' b]
      simp [h0]
    rename_i h0
    rcases inv.freeBlock (hfresh k mem_cons_self h0) with ⟨hnone, -⟩ | ⟨s1, hfree, hc, hone⟩
    · exact absurd hnone hok.head_ne_none
    have hsame : ∀ k' ∈ ks, iBlock _ k' = iBlock ino k' := fun k' hk' =>
      iBlock_setIBlock_ne ino (fun h : k' = k => hk (h ▸ hk')) 0
    rw [hfree, ih hc.inv (hok.shift hc.heap) hnodup ?_ ?_ b, hone]
    · simp only [mem_cons, forall_eq_or_imp, and_assoc]
      refine and_congr_right fun _ => and_congr ⟨fun h _ => h, fun h => h h0⟩ ?_
      exact forall₂_congr fun k' hk' => by rw [hsame k' hk']
    · intro k' hk' hne
      rw [hsame k' hk'] at hne ⊢
      obtain ⟨howned, hapart⟩ := hfresh' k' hk' hne
      refine ⟨⟨(hone _).mpr ⟨howned.1, fun he => hk ?_⟩, howned.2⟩, mt hc.reachable.mp hapart⟩
      rwa [← hinj k mem_cons_self k' (mem_cons_of_mem _ hk') h0 he]
    · intro k₁ h₁ k₂ h₂
      rw [hsame k₁ h₁, hsame k₂ h₂]
      exact hinj' k₁ h₁ k₂ h₂

/-- file の直接 block だけが空く。 -/
theorem ext2FreeInodeBlocks_allocated {n : Nat} {ino : Mem} (inv : Inv G s 0 roots) (hok : HeapOk s)
    (hl : liveInode G s.disk n = true) (hino : ∀ k < 14, iBlock ino k = roots n k) {b : Nat} :
    Allocated G (ext2FreeInodeBlocks s ino).2.disk .block b ↔
      Allocated G s.disk .block b ∧ ∀ k < 12, roots n k ≠ 0 → b ≠ roots n k := by
  have hview : (view G s.disk 0 roots).live n = true := by rwa [view_live_zero]
  obtain ⟨inv1, hfresh⟩ := inv.exclude n
  unfold ext2FreeInodeBlocks
  rw [freeInodeBlocks_allocated _ inv1 hok nodup_range]
  · refine and_congr_right fun _ => ?_
    simp only [mem_range]
    exact forall₂_congr fun k hk => by rw [hino k (by omega)]
  · intro k hk h0
    have hk := mem_range.mp hk
    rw [hino k (by omega)] at h0 ⊢
    exact hfresh hl k (by omega) h0
  · intro k hk k' hk' h0 he
    have hk := mem_range.mp hk
    have hk' := mem_range.mp hk'
    rw [hino k (by omega)] at h0 he
    rw [hino k' (by omega)] at he
    exact inv.root_inj hview (by omega) (by omega) h0 he

/-- **消した file の inode と直接 block だけが空く。** -/
theorem destroyInode_allocated {n : Nat} (inv : Inv G s 0 roots) (hok : HeapOk s)
    (parent target : Node) (hnum : target.inodeNum = n) (hl : liveInode G s.disk n = true)
    (hfile : target.type ≠ vfsDirectory) (hino : ∀ k < 14, iBlock target.inode k = roots n k) :
    Inv G (destroyInode s parent target).2 0 roots ∧
      (∀ m, liveInode G (destroyInode s parent target).2.disk m
        = (decide (m ≠ n) && liveInode G s.disk m)) ∧
      ∀ b, Allocated G (destroyInode s parent target).2.disk .block b ↔
        Allocated G s.disk .block b ∧ ∀ k < 12, roots n k ≠ 0 → b ≠ roots n k := by
  obtain ⟨s2, hheap, inv2, hlive2, hsame, heq⟩ := destroyInode_freed inv hnum hl
    fun k hk => .inr (hino k hk)
  rw [heq, if_neg hfile]
  rcases inv2.freeInode (isInode_of_live hl) with ⟨hfail, -⟩ | ⟨s3, hfree, hsw, hlive⟩
  · exfalso
    rcases hfail with h | h
    · exact (hok.shift hheap).head_ne_none h
    · rw [hlive2, hl] at h
      cases h
  · rw [hfree]
    refine ⟨hsw.inv, fun m => ?_, fun b => ?_⟩
    · show liveInode G _ m = _
      rw [hlive, hlive2]
    · show Allocated G _ _ b ↔ _
      rw [allocated_congr hsw.marks b, hsame, ext2FreeInodeBlocks_allocated inv hok hl hino]

end Destroy

/-! ## 作ったばかりの file への書き込み -/

/-- 状態 `s` で作った file `n` に、先頭から `size` byte を書き終えた。 -/
structure Filled (G : Geom) (s s' : State) (roots : Nat → Nat → Nat) (n size : Nat) : Prop where
  inv : Inv G s' 0 roots
  unused : liveInode G s.disk n = false
  live_eq : ∀ m, liveInode G s'.disk m = (decide (m = n) || liveInode G s.disk m)
  links : iLinksCount (inodeAt G s'.disk n) = 1
  file : ext2TypeToVfs (iMode (inodeAt G s'.disk n)) ≠ vfsDirectory
  stored : ∀ k < 14, rootAt G s'.disk n k = roots n k
  /-- 増えた block は、どれもこの file のものである。 -/
  blocks : ∀ b, Allocated G s'.disk .block b ↔
    Allocated G s.disk .block b ∨ Holding G (view G s'.disk 0 roots) n b
  fresh : ∀ b, Holding G (view G s'.disk 0 roots) n b → ¬Allocated G s.disk .block b
  direct : (∀ k, 12 ≤ k → k < 14 → roots n k = 0) ↔ size ≤ 12 * G.blockSize

section Fill

variable {G : Geom} {s s1 s2 s3 : State} {n size : Nat} {roots roots1 roots3 : Nat → Nat → Nat}
  {ino ino' src : Mem} {es1 : List Entry} {parent parent1 : Node}

theorem Entered.live (hent : Entered G s s1 roots1 parent parent1 n ino es1) :
    liveInode G s1.disk n = true := by
  rw [hent.live_eq, decide_eq_true rfl, Bool.true_or]

theorem Entered.roots_zero (hent : Entered G s s1 roots1 parent parent1 n newFileInode es1)
    {k : Nat}
    (hk : k < 14) : roots1 n k = 0 := by
  rw [hent.synced n hent.live k hk]
  exact (iBlock_congr hent.written hk).trans iBlock_newFileInode

section

variable (hout : Outcome G 0 n 0 size src s2 s3 roots1 roots3 ino ino' size)
include hout

theorem Outcome.fresh (hzero : ∀ k < 14, roots1 n k = 0) {b : Nat}
    (hb : Holding G (view G s3.disk 0 roots3) n b) : ¬Allocated G s2.disk .block b := by
  obtain ⟨p, h, hp⟩ := hb
  refine (hout.account.fresh b ⟨h, n :: p, hp⟩).resolve_left ?_
  rintro ⟨h', q, hq⟩
  obtain rfl := hout.grown.inv.sound.once (hout.grown.trace_mono q _ hq) hp
  obtain ⟨k, hk, h0, -⟩ := Holding.root ⟨p, h', hq⟩
  exact h0 (hzero k hk)

/-- 増えた block は、どれも書いた file のものである。 -/
theorem Outcome.allocated (inv : Inv G s2 0 roots1) (hboot : G.BootReserved) {b : Nat} :
    Allocated G s3.disk .block b ↔
      Allocated G s2.disk .block b ∨ Holding G (view G s3.disk 0 roots3) n b := by
  constructor
  · intro hb
    by_cases h0 : b = 0
    · subst h0
      exact .inl (allocated_zero inv hboot hb)
    · rcases hout.account.tight b h0 hb with hb | ⟨h, p, hp⟩
      · exact .inl hb
      · by_cases hhead : p.head? = some n
        · obtain ⟨q, rfl⟩ := head?_eq_some_iff.mp hhead
          exact .inr ⟨q, h, hp⟩
        · rw [hout.grown.trace_ne p hhead] at hp
          exact .inl (inv.sound.good hp).1
  · rintro (hb | ⟨p, h, hp⟩)
    · exact hout.account.kept b hb
    · exact (hout.grown.inv.sound.good hp).1

theorem Outcome.indirect (wf : G.Wf) (hlt : 12 * G.blockSize < size) : roots3 n 12 ≠ 0 := by
  have hpos := wf.size_pos
  have hptrs := wf.ptrs_pos
  have hpresent := (hout.done rfl (by omega)).written.present (12 * G.blockSize) (Nat.zero_le _)
    (by omega)
  rw [Nat.mul_div_cancel _ hpos, pathOf_single (le_refl 12) (by omega)] at hpresent
  obtain ⟨f, hf⟩ := ne_none_iff_exists'.mp hpresent
  obtain ⟨i, P, hP, -⟩ := trace_entry_some (p := [n, 12]) (by simp) hf
  exact (trace_root_some hP).2.2.1

end

/-- **作ったばかりの file に書くと、増えた block はどれもその file のものになる。** -/
theorem Entered.filled (hent : Entered G s s1 roots1 parent parent1 n newFileInode es1)
    (hblocks : ∀ b, Allocated G s1.disk .block b ↔ Allocated G s.disk .block b)
    (hboot : G.BootReserved) (hskip : Skips s1 s2)
    (hcopy : ∀ y < inodeStructSize, ino y = inodeAt G s1.disk n y) (hsize : size < 2 ^ 32)
    (hwrite : ext2WriteInodeData s2 ino n 0 size src = ((size : Int), ino', s3)) :
    ∃ roots3, Filled G s s3 roots3 n size ∧ Grown G 0 n s2 s3 roots1 roots3 := by
  have inv2 := hskip.inv hent.inv
  have hdisk := hskip.disk
  have hlive2 : (view G s2.disk 0 roots1).live n = true := by
    rw [view_live_zero, hdisk]
    exact hent.live
  have hnew : ∀ y < inodeStructSize, ino y = newFileInode y := fun y hy =>
    (hcopy y hy).trans (hent.written y hy)
  have hexact : Exact ino roots1 n := fun k hk => by
    rw [hent.roots_zero hk, iBlock_congr hnew hk, iBlock_newFileInode]
  obtain ⟨r, ino1, s4, roots3, hspec, hout⟩ := writeInodeData_spec inv2 hlive2 hexact 0 hsize src
  rw [hwrite] at hspec
  cases hspec
  -- 何も書かなければ、disk の inode は作ったときのままである
  have hinode : (∀ y < 28, (y < 4 ∨ 8 ≤ y) → inodeAt G s3.disk n y = newFileInode y) ∧
      ∀ k < 14, rootAt G s3.disk n k = roots3 n k := by
    by_cases h0 : size = 0
    · subst h0
      cases hwrite
      obtain ⟨rfl, -⟩ := hout.quiet fun pos _ h => absurd h (by omega)
      rw [hdisk]
      exact ⟨fun y hy _ => hent.written y (by unfold inodeStructSize; omega),
        fun k hk => (hent.synced n hent.live k hk).symm⟩
    · have hdone := hout.done rfl (by omega)
      refine ⟨fun y hy hor => ?_, fun k hk => (iBlock_congr hdone.stored hk).trans
        (hout.exact k hk)⟩
      have hlt : y < inodeStructSize := by
        unfold inodeStructSize
        omega
      rw [hdone.stored y hlt, hdone.rest y (by omega), hnew y hlt]
  have hlinks : iLinksCount _ = iLinksCount _ :=
    load_congr fun y h1 h2 => hinode.1 y (by omega) (by omega)
  have hmode : iMode _ = iMode _ :=
    load_congr fun y _ h2 => hinode.1 y (by omega) (by omega)
  refine ⟨roots3, ⟨hout.grown.inv, hent.unused, fun m => ?_, ?_, ?_, hinode.2, fun b => ?_,
    fun b hb => ?_, ?_, fun hle k hk hlt => ?_⟩, hout.grown⟩
  · rw [hout.grown.live_eq, hdisk, hent.live_eq]
  · rw [hlinks]
    decide
  · rw [hmode]
    decide
  · rw [hout.allocated inv2 hboot, hdisk, hblocks]
  · have := hout.fresh (fun k hk => hent.roots_zero hk) hb
    rwa [hdisk, hblocks] at this
  · intro hzero
    by_contra hlt
    exact hout.indirect inv2.ready.wf (by omega) (hzero 12 (le_refl _) (by decide))
  · rw [hout.direct (by omega) k hk]
    exact hent.roots_zero hlt

end Fill

/-! ## 消した後 -/

section Restore

variable {G : Geom} {s s' : State} {n size : Nat} {roots : Nat → Nat → Nat}

/-- 書いた file の直接 block だけを返すと、間接 block の先が残る。 -/
theorem Filled.restored (hf : Filled G s s' roots n size) (inv : Inv G s 0 (rootAt G s.disk))
    {s5 : State} (inv5 : Inv G s5 0 roots)
    (hlive : ∀ m, liveInode G s5.disk m = (decide (m ≠ n) && liveInode G s'.disk m))
    (hfreed : ∀ b, Allocated G s5.disk .block b ↔ Allocated G s'.disk .block b ∧
      ∀ k < 12, roots n k ≠ 0 → b ≠ roots n k) : inodePool.total s5.fs = inodePool.total s.fs ∧
      (blockPool.total s5.fs = blockPool.total s.fs ↔ size ≤ 12 * G.blockSize) := by
  have wf := inv.ready.wf
  have hview : (view G s'.disk 0 roots).live n = true := by
    rw [view_live_zero, hf.live_eq, decide_eq_true rfl, Bool.true_or]
  have hown : ∀ k < 14, roots n k ≠ 0 → Holding G _ n _ :=
    fun k hk h0 => ⟨[k], _, trace_root_of_ne hview hk h0⟩
  have hkept : ∀ b, Allocated G s.disk .block b → Allocated G s5.disk .block b := by
    intro b hb
    refine (hfreed b).mpr ⟨(hf.blocks b).mpr (.inl hb), fun k hk h0 he => ?_⟩
    exact hf.fresh _ (hown k (by omega) h0) (he ▸ hb)
  constructor
  · refine inv.matching.total_eq_of_allocated (k := .inode) inv5.matching wf fun m => ?_
    rw [← live_iff_allocated, ← live_iff_allocated, hlive, hf.live_eq]
    by_cases hmn : m = n
    · subst hmn
      simp [hf.unused]
    · simp [hmn]
  rw [← hf.direct]
  constructor
  · -- 間接 block は、使用中のまま残る
    intro htotal k hk hlt
    by_contra h0
    have hb := hown k hlt h0
    have hlt := inv.matching.total_lt_of_allocated (k := .block) inv5.matching wf hkept
      ((hfreed _).mpr ⟨(hf.blocks _).mpr (.inr hb), fun k' hk' h0' he => by
        have := hf.inv.root_inj hview (by omega) (by omega) h0' he
        omega⟩) (hf.fresh _ hb)
    exact absurd htotal (Nat.ne_of_lt hlt)
  · intro hzero
    refine inv.matching.total_eq_of_allocated (k := .block) inv5.matching wf fun b =>
      ⟨fun hb => ?_, hkept b⟩
    obtain ⟨hb, hnot⟩ := (hfreed b).mp hb
    refine ((hf.blocks b).mp hb).resolve_right fun hh => ?_
    obtain ⟨k, hk, h0, he⟩ := hh.root
    have hk12 : k < 12 := by
      by_contra hge
      exact h0 (hzero k (by omega) hk)
    exact hnot k hk12 h0 (he hk12)

/-- 書いた file を消すと、その inode と直接 block だけが空く。 -/
theorem Filled.unlinked (hf : Filled G s s' roots n size) (hn : IsInode G n) (hok : HeapOk s')
    {dir dir' : Node} {es : List Entry} {name : List UInt8} {s5 : State}
    (D : Directory G s' 0 roots dir.inodeNum dir.inode es) (hdir : dir.type &&& vfsDirectory ≠ 0)
    (hname : 0 < name.length ∧ name.length < 256) (hmerge : Mergeable es name)
    (hlook : lookup (listing es) name = some n) (hun : Unlinked s' dir name 0 dir' s5) :
    Inv G s5 0 roots ∧ (∀ m, liveInode G s5.disk m = (decide (m ≠ n) && liveInode G s'.disk m)) ∧
      ∀ b, Allocated G s5.disk .block b ↔ Allocated G s'.disk .block b ∧
        ∀ k < 12, roots n k ≠ 0 → b ≠ roots n k := by
  obtain ⟨target, ino', s4, es', hnum, htype, hcopy, -, hw, hcase⟩ :=
    hun.erased hf.inv D hdir hok hname hmerge hlook hn
  have hlinks : iLinksCount _ = 1 := (iLinksCount_congr hcopy).trans hf.links
  have hs5 := (hcase.resolve_left fun h => h.1 hlinks).2.2
  have hl : liveInode G s4.disk n = true := by
    rw [hw.grown.live_eq, hf.live_eq, decide_eq_true rfl, Bool.true_or]
  have hfile : target.type ≠ vfsDirectory := by
    rw [htype, iMode_congr hcopy]
    exact hf.file
  have hino : ∀ k < 14, iBlock (setILinksCount _ 0) k = roots n k := fun k hk => by
    rw [iBlock_setILinksCount, iBlock_congr hcopy hk]
    exact hf.stored k hk
  obtain ⟨inv5, hlive, hfreed⟩ := destroyInode_allocated hw.grown.inv (hok.shift hw.grown.heap) _
    { target with inode := setILinksCount _ 0 } hnum hl hfile hino
  rw [← hs5] at inv5 hlive hfreed
  refine ⟨inv5, fun m => ?_, fun b => ?_⟩
  · rw [hlive, hw.grown.live_eq]
  · rw [hfreed, allocated_congr (hw.marks _)]

variable {s1 s2 s3 s4 : State} {parent parent1 file file' dir dir' : Node} {src : Mem}
  {bl : List (List Entry)} {name : List UInt8}

/--
**作って、書いて、消した後、空きの inode の数は元に戻り、空きの block の数は 12 block に収まるときだけ元に戻る。**

directory には名前の入る余りがあり、名前は新しく、`kmalloc` は失敗しないとする。消すときの directory の node は、
disk の通りの写しを持てばよい。
-/
theorem restored_iff (hm : Mounted G s) (hboot : G.BootReserved) (hok : HeapOk s)
    (W : WellFormedDir G s parent bl) (hroom : HasRoom bl.flatten name)
    (habs : lookup (listing bl.flatten) name = none)
    (hname : 0 < name.length ∧ name.length < 256) (hsize : size < 2 ^ 32)
    (hcreate : ext2VfsCreate s parent name = some (0, parent1, s1))
    (hfind : ext2VfsFinddir s1 parent1 name = some (some file, s2))
    (hwrite : ext2VfsWrite s2 file 0 size src = ((size : Int), file', s3))
    (hnum : dir.inodeNum = parent.inodeNum) (hdir : dir.type = vfsDirectory)
    (hcur : ∀ y < inodeStructSize, dir.inode y = inodeAt G s3.disk parent.inodeNum y)
    (hunlink : ext2VfsUnlink s3 dir name = some (0, dir', s4)) :
    inodePool.total s4.fs = inodePool.total s.fs ∧
      (blockPool.total s4.fs = blockPool.total s.fs ↔ size ≤ 12 * G.blockSize) := by
  have wf := hm.ready.wf
  have D := W.directory wf
  -- 作る
  obtain ⟨n, es1, roots1, hent, hadd, hquiet⟩ := (create_cases hcreate).entered hm.inv
    (synced_rootAt G _) D (hok.entryMem hm.inv) hname.2 (.inl hroom)
  have hne := ne_of_not_live hent.unused W.live
  have hlook : lookup _ name = some n :=
    (lookup_inserted (hadd.inserted (Nat.ne_of_gt hent.isInode.1)) habs name).trans (if_pos rfl)
  -- 引いて書く
  obtain ⟨target, s2', hfind', hskip, rfl, -, hcopy⟩ := finddir_found hent.inv
    (show Directory G s1 0 _ _ _ es1 by
      rw [hent.num]
      exact hent.directory)
    (by rw [hent.type, W.isDir]; decide) (hok.shift hent.heap) hlook hent.isInode
  rw [hfind] at hfind'
  cases hfind'
  obtain ⟨ino', hcall⟩ : ∃ ino', ext2WriteInodeData s2 file.inode file.inodeNum 0 size src
      = ((size : Int), ino', s3) := by
    unfold ext2VfsWrite at hwrite
    split at hwrite
    · exact absurd (congrArg Prod.fst hwrite) (by omega)
    · cases hres : ext2WriteInodeData s2 _ _ 0 size src with
      | mk r p =>
        simp only [hres, Prod.mk.injEq] at hwrite
        exact ⟨p.1, by rw [← hwrite.1, ← hwrite.2.2]⟩
  obtain ⟨roots3, hf, hg⟩ := hent.filled (hquiet (.inl hroom)).1 hboot hskip hcopy hsize hcall
  -- 消す
  have hsame : ∀ y < inodeStructSize, dir.inode y = parent1.inode y := fun y hy => by
    rw [hcur y hy, hg.inodes _ hne (isInode_of_live W.live) y hy, hskip.disk]
    exact hent.stored y hy
  have D3 : Directory G s3 0 roots3 dir.inodeNum dir.inode es1 := by
    rw [hnum]
    have D2 := (hent.directory.skips hskip).sameFile wf (hg.sameFile hne)
    exact D2.copy hsame
  have hok3 := ((hok.shift hent.heap).shift hskip.heap).shift hg.heap
  obtain ⟨inv5, hlive, hfreed⟩ := hf.unlinked hent.isInode hok3 D3 (by rw [hdir]; decide) hname
    (hadd.mergeable hroom (fun e he => D.laid.recLen_lt he) habs) hlook (unlink_cases hunlink)
  exact hf.restored hm.inv inv5 hlive hfreed

end Restore

/-! ## 例 -/

/-- 作り、引き、先頭から書き、消す。三つの戻り値、作った後の親の node、書いた後と消した後の状態を返す。 -/
def reclaim (s : State) (parent : Node) (name : List UInt8) (size : Nat) (src : Mem) :
    Option ((Int × Int × Int) × Node × State × State) :=
  (ext2VfsCreate s parent name).bind fun (created, parent, s1) =>
    (ext2VfsFinddir s1 parent name).bind fun (file, s2) => file.bind fun file =>
      let (written, _, s3) := ext2VfsWrite s2 file 0 size src
      (ext2VfsUnlink s3 parent name).map fun (removed, _, s4) =>
        ((created, written, removed), parent, s3, s4)

theorem reclaim_some {s s3 s4 : State} {parent parent1 : Node} {name : List UInt8} {size : Nat}
    {src : Mem} {created written removed : Int}
    (h : reclaim s parent name size src = some ((created, written, removed), parent1, s3, s4)) :
    ∃ s1 file s2 file' dir', ext2VfsCreate s parent name = some (created, parent1, s1) ∧
      ext2VfsFinddir s1 parent1 name = some (some file, s2) ∧
      ext2VfsWrite s2 file 0 size src = (written, file', s3) ∧
      ext2VfsUnlink s3 parent1 name = some (removed, dir', s4) := by
  obtain ⟨⟨r1, p1, s1⟩, hcreate, h⟩ := bind_eq_some_iff.mp h
  obtain ⟨⟨found, s2⟩, hfind, h⟩ := bind_eq_some_iff.mp h
  obtain ⟨file, rfl, h⟩ := bind_eq_some_iff.mp h
  obtain ⟨⟨r3, dir', s4'⟩, hunlink, h⟩ := map_eq_some_iff.mp h
  simp only [Prod.mk.injEq] at h
  obtain ⟨⟨rfl, hr, rfl⟩, rfl, hs3, rfl⟩ := h
  refine ⟨s1, file, s2, _, dir', hcreate, hfind, Prod.ext hr (Prod.ext rfl hs3), ?_⟩
  rw [← hs3]
  exact hunlink

theorem plain_room : HasRoom plainBlocks.flatten [98] :=
  ⟨⟨3, 1000, [97], 1⟩, by decide, by decide⟩

set_option maxRecDepth 20000

/-- 一 byte の file なら、空きの数はどちらも元に戻る。 -/
theorem restored_iff_small : ∃ parent s3 s4,
    reclaim plainState (rootNode plainState) [98] 1 (fun _ => 65)
      = some ((0, 1, 0), parent, s3, s4) ∧
    inodePool.total s4.fs = inodePool.total plainState.fs ∧
    blockPool.total s4.fs = blockPool.total plainState.fs := by
  have hrun : ((reclaim plainState (rootNode plainState) [98] 1 fun _ => 65).map
      fun (r, parent, s3, _) => (r, parent.inodeNum, parent.type,
        decide (∀ y < inodeStructSize, parent.inode y = inodeAt wideFs.geom s3.disk 2 y)))
      = some ((0, 1, 0), 2, vfsDirectory, true) := by decide +kernel
  obtain ⟨⟨r, parent, s3, s4⟩, hcall, hval⟩ := map_eq_some_iff.mp hrun
  simp only [Prod.mk.injEq, decide_eq_true_eq] at hval
  obtain ⟨rfl, hnum, hdir, hcur⟩ := hval
  obtain ⟨s1, file, s2, file', dir', hcreate, hfind, hwrite, hunlink⟩ := reclaim_some hcall
  obtain ⟨hinodes, hblocks⟩ := restored_iff plain_mounted (.inl (by decide))
    (fun _ => ⟨_, rfl⟩) plain_root plain_room (by decide) (by decide) (by decide) hcreate hfind
    hwrite hnum hdir hcur hunlink
  exact ⟨parent, s3, s4, hcall, hinodes, hblocks.mpr (by decide)⟩

/--
**12 block から一 byte でもはみ出すと、間接 block と、その先の data の block が失われる。**

file `b` に 12289 byte を書いて消す。空きの block は 56 個から 54 個に減る。
-/
theorem large_file_leaks : Mounted wideFs.geom plainState ∧ HeapOk plainState ∧
    WellFormedDir wideFs.geom plainState (rootNode plainState) plainBlocks ∧
    HasRoom plainBlocks.flatten [98] ∧ lookup (listing plainBlocks.flatten) [98] = none ∧
    blockPool.total plainState.fs = 56 ∧ ∃ parent s3 s4,
      reclaim plainState (rootNode plainState) [98] 12289 (fun _ => 65)
        = some ((0, 12289, 0), parent, s3, s4) ∧ blockPool.total s4.fs = 54 := by
  refine ⟨plain_mounted, fun _ => ⟨_, rfl⟩, plain_root, plain_room, by decide, by decide +kernel,
    ?_⟩
  have hrun : ((reclaim plainState (rootNode plainState) [98] 12289 fun _ => 65).map
      fun (r, _, _, s4) => (r, blockPool.total s4.fs)) = some ((0, 12289, 0), 54) := by
    decide +kernel
  obtain ⟨⟨r, parent, s3, s4⟩, hcall, hval⟩ := map_eq_some_iff.mp hrun
  simp only [Prod.mk.injEq] at hval
  obtain ⟨rfl, hblocks⟩ := hval
  exact ⟨parent, s3, s4, hcall, hblocks⟩

end Alos.Ext2
