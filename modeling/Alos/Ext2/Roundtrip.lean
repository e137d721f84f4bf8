import Alos.Ext2.Reading

/-!
# 書いた data の読み出し

`ext2_write_inode_data` で書き、`ext2_read_inode_data` で読む。書く側と読む側は block の対応を
別々に計算するので、間接 block のない穴では食い違う。

* `write_read` — 間接 block が揃っていれば、書いた範囲は書いた通りに、ほかは元の通りに、
  元の大きさとの隙間は 0 に読める
* `gap_reads_boot_block` — 隙間の間接 block がないと、boot block を介して別の block が読める
-/

namespace Alos.Ext2

open Bytes Bitmap

/-! ## 揃った間接 block -/

section Linked

variable {G : Geom} {v v' : View} {n idx : Nat}

theorem trace_dropLast {p : List Nat} (h : trace G v p ≠ none) : trace G v p.dropLast ≠ none := by
  rcases p.eq_nil_or_concat with rfl | ⟨q, j, rfl⟩
  · exact h
  · rw [List.concat_eq_append] at h ⊢
    rw [List.dropLast_concat]
    exact trace_ne_none_of_append h

theorem Linked.of_present (h : trace G v (pathOf G n idx) ≠ none) : Linked G v n idx :=
  .inr (.inr (trace_dropLast h))

theorem Linked.mono (h : Linked G v n idx)
    (hmono : ∀ p f, trace G v p = some f → trace G v' p = some f) : Linked G v' n idx := by
  refine h.imp_right (Or.imp_right ?_)
  intro hne
  obtain ⟨f, hf⟩ := Option.ne_none_iff_exists'.mp hne
  simp [hmono _ f hf]

/-- 同じ間接 block の下にある。 -/
def SameParent (G : Geom) (n idx idx' : Nat) : Prop :=
  (pathOf G n idx).dropLast = (pathOf G n idx').dropLast

/-- 読み出しが穴を正しく扱う条件。`idx` の間接 block があるか、書く範囲がそれを作る。 -/
def Covered (G : Geom) (v : View) (n off size idx : Nat) : Prop :=
  Linked G v n idx ∨ ∃ pos, off ≤ pos ∧ pos < off + size ∧ SameParent G n idx (pos / G.blockSize)

end Linked

/-! ## 往復 -/

section Roundtrip

variable {G : Geom} {s s' : State} {n off size : Nat} {ino ino' src : Mem}

/-- 書いた後の隙間では、間接 block が揃っている。 -/
theorem Covered.linked {v v' : View} {idx : Nat} (h : Covered G v n off size idx)
    (hmono : ∀ p f, trace G v p = some f → trace G v' p = some f)
    (hpresent : ∀ pos, off ≤ pos → pos < off + size →
      trace G v' (pathOf G n (pos / G.blockSize)) ≠ none) : Linked G v' n idx := by
  rcases h with h | ⟨p, h1, h2, h3⟩
  · exact h.mono hmono
  · have := trace_dropLast (hpresent p h1 h2)
    rw [← h3] at this
    exact .inr (.inr this)

theorem Completed.fileByte_eq {x : Nat} {roots roots' : Nat → Nat → Nat} (wf : G.Wf)
    (h : Completed G x n off size src s s' roots roots' ino ino') (hok : HeapOk s) {pos : Nat} :
    fileByte G (view G s'.disk x roots') n pos = if off ≤ pos ∧ pos < off + size
      then src (pos - off) else fileByte G (view G s.disk x roots) n pos := by
  by_cases hr : off ≤ pos ∧ pos < off + size
  · rw [if_pos hr]
    exact h.written.inside pos hr.1 hr.2
  · rw [if_neg hr]
    refine h.written.outside _ _ (Nat.mod_lt _ wf.size_pos) (.inl hok) ?_
    rintro p h1 h2 ⟨hp, ho⟩
    have := pos_eq_of_path hp ho
    omega

theorem exact_of_disk (h : ∀ y < inodeStructSize, ino y = inodeAt G s.disk n y) :
    Exact ino (rootAt G s.disk) n := fun _ hk => iBlock_congr h hk

/--
**書き込みと読み出しの往復。**

整合した image で、`ext2_write_inode_data` が `size` を返したとする。元の file の書かないところと、
元の大きさから `off` までの隙間に間接 block が揃っていれば、書いた後のどの範囲の読み出しでも、
書いた byte は書いた通り、ほかの byte は書く前の読み出しの通り、隙間は 0 である。
-/
theorem write_read (hm : Mounted G s) (hok : HeapOk s) (hn : liveInode G s.disk n = true)
    (hino : ∀ y < inodeStructSize, ino y = inodeAt G s.disk n y)
    (hzero : ∀ pos, iSize ino ≤ pos → fileByte G (imageView G s.disk) n pos = 0)
    (hsize : off + size < 2 ^ 31)
    (hcall : ext2WriteInodeData s ino n off size src = ((size : Int), ino', s'))
    (hold : ∀ pos < iSize ino, ¬(off ≤ pos ∧ pos < off + size) →
      Linked G (imageView G s.disk) n (pos / G.blockSize))
    (hgap : ∀ pos, iSize ino ≤ pos → pos < off →
      Covered G (imageView G s.disk) n off size (pos / G.blockSize))
    {lo len : Nat} (hlo : lo + len < 2 ^ 31) (buffer : Mem) :
    ∃ old new s1 s2 r, ext2ReadInodeData s ino lo len buffer = (r, old, s1) ∧
      ext2ReadInodeData s' ino' lo len buffer
        = (((min len (iSize ino' - lo) : Nat) : Int), new, s2) ∧
      (0 < size → iSize ino' = max (iSize ino) (off + size)) ∧
      (∀ i < len, off ≤ lo + i → lo + i < off + size → new i = src (lo + i - off)) ∧
      (∀ i < len, ¬(off ≤ lo + i ∧ lo + i < off + size) → lo + i < iSize ino → new i = old i) ∧
      ∀ i < len, iSize ino ≤ lo + i → lo + i < off → lo + i < iSize ino' → new i = 0 := by
  have inv := hm.inv
  have wf := hm.ready.wf
  have he := exact_of_disk hino
  rw [← view_eq_imageView] at hzero hold hgap
  have hn' : (view G s.disk 0 (rootAt G s.disk)).live n = true := by rwa [view_live_zero]
  obtain ⟨old, s1, hread, -, hbytes⟩ := readInodeData_spec inv hn' he hok
    (show lo + len < 2 ^ 32 by omega) buffer
  by_cases h0 : size = 0
  · -- 何も書かないときは、同じ読み出しである
    subst h0
    have hsame : ext2WriteInodeData s ino n off 0 src = (0, ino, s) := rfl
    cases hcall
    refine ⟨old, old, s1, s1, _, hread, ?_, fun h => absurd h (by decide), fun i _ _ h => by omega,
      fun _ _ _ _ => rfl, fun i _ h1 _ h3 => by omega⟩
    rw [hread, toInt32_of_lt (by omega)]
  obtain ⟨r, ino1, s2, roots', hspec, hout⟩ :=
    writeInodeData_spec inv hn' he off (show size < 2 ^ 32 by omega) src
  rw [hcall] at hspec
  cases hspec
  have hdone := hout.done rfl (by omega)
  have hgrown := hout.grown
  have hn2 : (view G s'.disk 0 roots').live n = true := by
    rw [view_live_zero, hgrown.live_eq]
    exact hn
  have hnew : iSize ino' = max (iSize ino) (off + size) := by
    rw [hdone.size_eq]
    split <;> omega
  obtain ⟨new, s2, hread', -, hbytes'⟩ := readInodeData_spec hgrown.inv hn2 hout.exact
    (hok.shift hgrown.heap) (show lo + len < 2 ^ 32 by omega) buffer
  refine ⟨old, new, s1, s2, _, hread, ?_, fun _ => hnew, ?_, ?_, ?_⟩
  · rw [hread', toInt32_of_lt (by omega)]
  · intro i hi h1 h2
    rw [hbytes' i fun _ _ => .of_present (hdone.written.present _ h1 h2), if_pos ⟨hi, by omega⟩,
      hdone.fileByte_eq wf hok, if_pos ⟨h1, h2⟩]
  · intro i hi h1 h2
    rw [hbytes' i fun _ _ => (hold _ h2 h1).mono hgrown.trace_mono, if_pos ⟨hi, by omega⟩,
      hdone.fileByte_eq wf hok, if_neg h1, hbytes i fun _ _ => hold _ h2 h1, if_pos ⟨hi, h2⟩]
  · intro i hi h1 h2 h3
    rw [hbytes' i fun _ _ => (hgap _ h1 h2).linked hgrown.trace_mono hdone.written.present,
      if_pos ⟨hi, h3⟩, hdone.fileByte_eq wf hok, if_neg (by omega)]
    exact hzero _ h1

/-- file `a` の一 byte より後は 0 である。 -/
theorem plain_zero {pos : Nat} (hpos : 1 ≤ pos) :
    fileByte wideFs.geom (imageView wideFs.geom plainState.disk) 3 pos = 0 := by
  unfold fileByte dataAt
  split
  · rename_i b h
    rcases plain_trace h with ⟨hp, -⟩ | ⟨hp, rfl⟩
    · have := pathOf_head wideFs.geom 3 (pos / wideFs.geom.blockSize)
      rw [hp] at this
      cases this
    · have hidx : pos / 1024 = 0 := pathOf_inj (hp.trans (pathOf_direct (by decide)).symm)
      have hmod : pos % 1024 = pos := Nat.mod_eq_of_lt (by omega)
      have hblock : ∀ o ∈ List.range 1024, 1 ≤ o → blockAt 1024 plainState.disk 7 o = 0 := by
        decide +kernel
      show blockAt 1024 _ 7 (pos % 1024) = 0
      rw [hmod]
      exact hblock pos (List.mem_range.mpr (by omega)) hpos
  · rfl

theorem plain_write : ∃ ino' s', ext2WriteInodeData plainState
    (inodeAt wideFs.geom plainState.disk 3) 3 1 1 (fun _ => 121) = (1, ino', s') :=
  ⟨_, _, Prod.ext (show Prod.fst _ = 1 by decide +kernel) rfl⟩

/-- 二 byte 目を書くと、先頭の byte は元のままで、二 byte 目は書いた通りに読める。 -/
theorem write_read_plain : ∃ ino' s', ext2WriteInodeData plainState
      (inodeAt wideFs.geom plainState.disk 3) 3 1 1 (fun _ => 121) = (1, ino', s') ∧
    ∃ new s2, ext2ReadInodeData s' ino' 0 2 (fun _ => 0) = (2, new, s2) ∧ new 1 = 121 := by
  obtain ⟨ino', s', hcall⟩ := plain_write
  have hlinked : ∀ pos < 12288,
      Linked wideFs.geom (imageView wideFs.geom plainState.disk) 3 (pos / 1024) :=
    fun pos h => .inl (by omega)
  have hs : iSize (inodeAt wideFs.geom plainState.disk 3) = 1 := by decide +kernel
  obtain ⟨old, new, s1, s2, r, -, hread, hsize, hnew, -, -⟩ := write_read (G := wideFs.geom)
    plain_mounted (fun _ => ⟨_, rfl⟩) (by decide +kernel) (fun _ _ => rfl)
    (fun pos h => plain_zero (by omega)) (by decide) hcall
    (fun pos h _ => hlinked pos (lt_trans h (by decide)))
    (fun pos _ h => .inl (hlinked pos (lt_trans h (by decide))))
    (show 0 + 2 < 2 ^ 31 by decide) (fun _ => 0)
  have h2 : iSize ino' = 2 := by
    rw [hsize (by decide)]
    rfl
  rw [h2] at hread
  exact ⟨ino', s', hcall, new, s2, hread, hnew 1 (by decide) (by decide) (by decide)⟩

/-- `i_block[12]` のない隙間を残す書き込み。 -/
def sparseWrite : Int × Mem × State :=
  ext2WriteInodeData plainState (inodeAt wideFs.geom plainState.disk 3) 3 274432 1 fun _ => 121

/-- 隙間の byte は 0 でなく、boot block の指す block から読める。 -/
theorem gap_reads_boot_block : Mounted wideFs.geom plainState ∧ HeapOk plainState ∧
    (∀ pos, 1 ≤ pos → fileByte wideFs.geom (imageView wideFs.geom plainState.disk) 3 pos = 0) ∧
    sparseWrite.1 = 1 ∧
    (ext2ReadInodeData sparseWrite.2.2 sparseWrite.2.1 12288 1 fun _ => 0).1 = 1 ∧
    (ext2ReadInodeData sparseWrite.2.2 sparseWrite.2.1 12288 1 fun _ => 0).2.1 0 = 120 := by
  refine ⟨plain_mounted, fun _ => ⟨_, rfl⟩, fun pos h => plain_zero h, ?_⟩
  decide +kernel

end Roundtrip

end Alos.Ext2
