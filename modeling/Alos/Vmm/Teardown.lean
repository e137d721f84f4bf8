import Alos.Vmm.History

/-!
# `vmm_free_directory` の安全

`vmm_free_directory` は PML4 の下半分（0–255）の先をすべて自分のものとして返す。
しかし `vmm_create_directory` は 0 番を kernel と共有し、`vmm_clone_directory` は
下半分のすべてを複製元と共有する。

* `create_free_kernel_table` — 作ってすぐに破棄するだけで、kernel の PDPT が返る例
-/

namespace Alos.Vmm

open Bytes Pmm Bitmap Radix

/-- `dir` を破棄しても、kernel やほかの生きている directory の table は空きにならない。 -/
def FreeSafe (s : Sys) (dir : Dir) : Prop :=
  ∀ d ∈ Dir.kernel :: s.live, d ≠ dir → ∀ f, IsTable s.vmm.mem (rootOf s.vmm d) f →
    ¬FreeFrame (vmmFreeDirectory s.vmm dir).pmm f

/-- `dir` の下半分の PDPT は、PMM の管理する frame にある。 -/
def Managed (s : Sys) (dir : Dir) : Prop :=
  ∀ i < 256, hasFlag (slot s.vmm.mem (rootOf s.vmm dir) i) pagePresent = true →
    passes s.vmm (slot s.vmm.mem (rootOf s.vmm dir) i) = true ∧
    frameOf (slot s.vmm.mem (rootOf s.vmm dir) i) / pageSize < s.vmm.pmm.totalBlocks

section Tracks

variable {g : Ghost} {s : Sys}

/-- 破棄していない directory の根は、破棄した後の帳簿でも根である。 -/
theorem Tracks.root_remove (T : Tracks g s) {d r : Nat} (hd : g.dir d r)
    (hex : Exclusive g s.vmm.mem r) {E : Dir} (hE : E ∈ Dir.kernel :: s.live)
    (hne : E ≠ .block (physToVirt s.vmm d)) : (g.remove s.vmm.mem d r).lv (rootOf s.vmm E) 0 := by
  refine (T.forest.remove hd hex).root_iff.mpr ?_
  rcases List.mem_cons.mp hE with rfl | hE
  · exact .inl T.rootOf_kernel
  · obtain ⟨e, r', he, rfl⟩ := (T.live_iff E).mp hE
    rw [T.rootOf_block he]
    exact .inr ⟨e, he, fun h => hne (by rw [h])⟩

theorem freeSafe_of_noShare (T : Tracks g s) {D : Dir} (hD : D ∈ s.live) (h : NoShare s D) :
    FreeSafe s D := by
  have hex := T.exclusive h
  obtain ⟨d, r, hd, rfl⟩ := (T.live_iff D).mp hD
  rw [T.rootOf_block hd] at hex
  intro E hE hne f hf hfree
  have F := T.forest
  have F' := F.remove hd hex
  have hmem := (vmmFreeDirectory_freeing F.ok (F.dir_frame hd) (F.frame (F.dir_level hd))
    (F.dir_pml4 hd)).mem_eq
  rw [← hmem] at hf
  obtain ⟨l, hl⟩ := F'.isTable (T.root_remove hd hex hE hne) hf
  exact F'.used hl hfree

theorem noShare_of_freeSafe (T : Tracks g s) {D : Dir} (hD : D ∈ s.live) (hm : Managed s D)
    (h : FreeSafe s D) : NoShare s D := by
  obtain ⟨d, r, hd, rfl⟩ := (T.live_iff D).mp hD
  have F := T.forest
  unfold Managed at hm
  intro E hE hne i hi j hj p hp hq
  rw [T.rootOf_block hd] at hp hm
  obtain ⟨-, hpres, -, rfl⟩ := child_eq_some hp
  obtain ⟨hpass, hlt⟩ := hm i hi hpres
  have hfree := vmmFreeDirectory_returns F.ok (F.dir_frame hd) (F.frame (F.dir_level hd))
    (F.dir_pml4 hd) hi hpass hlt
  have htab : tableAt _ _ [⟨j, hj⟩] = some _ :=
    tableAt_singleton.trans hq
  exact h E hE hne _ ⟨_, htab⟩ hfree

end Tracks

/--
**`vmm_free_directory` が生きている table を返さないのは、下半分の PDPT を共有していないときである。**

create、clone、map、および共有のない directory の free をどう並べた後でも成り立つ。
PDPT が PMM の管理する frame にあるかぎり、共有していれば必ず生きている table が返る。
-/
theorem reach_free_safe {s₀ : State} {kroot : Nat} (t : Tree s₀ kroot)
    (hk : s₀.kernelDirectory.pml4 = physToVirt s₀ kroot) {ops : List Op} {s : Sys}
    (h : Run.Reach step Legal ⟨s₀, []⟩ ops s) {D : Dir} (hD : D ∈ s.live) :
    (NoShare s D → FreeSafe s D) ∧ (Managed s D → (FreeSafe s D ↔ NoShare s D)) := by
  obtain ⟨g, -, -, T⟩ := reach_forest t hk h
  exact ⟨freeSafe_of_noShare T hD, fun hm =>
    ⟨noShare_of_freeSafe T hD hm, freeSafe_of_noShare T hD⟩⟩

set_option maxRecDepth 100000

/-- 一頁を写した directory は、安全に破棄できる。 -/
theorem reach_free_safe_blank : Run.Reach step Legal ⟨blankMachine, []⟩
      [.create, .map userDir 0xe000 0x8000000000 7] userSys ∧
    vmmGetPhysAddr userSys.vmm userDir 0x8000000000 = 0xe000 ∧ FreeSafe userSys userDir := by
  have hk : blankMachine.kernelDirectory.pml4 = physToVirt blankMachine 0x1000 := by decide
  have hreach : Run.Reach step Legal ⟨blankMachine, []⟩ _ userSys :=
    reach_user.mono fun _ _ h => h.1
  refine ⟨hreach, user_mapped, (reach_free_safe tree_blank hk hreach (.head _)).1 ?_⟩
  -- 共有がありうるのは 0 番だけで、それは空である
  obtain ⟨g, hW, -, T⟩ := reach_create_map tree_blank hk reach_user
  have hzero : child 0 (slot userSys.vmm.mem (rootOf userSys.vmm userDir) 0) = none := by
    decide +kernel
  intro E hE hne i hi j hj p hp hq
  have hD : userDir ∈ Dir.kernel :: userSys.live := .tail _ (.head _)
  obtain ⟨-, hshare⟩ := T.forest.share (T.root hD).2 (T.root hE).2 (by omega) hj hp hq
  have hidx := hshare fun he => hne (T.rootOf_inj hD hE he).symm
  rw [hW] at hidx
  obtain rfl := hidx.resolve_right (by omega)
  rw [hzero] at hp
  cases hp

/-- 作ってすぐに破棄するだけで、kernel の PDPT が PMM に返る。 -/
theorem create_free_kernel_table :
    Tree lowMachine 0x1000 ∧
    ∃ s D f, Run.Reach step Legal ⟨lowMachine, []⟩ [.create] s ∧ D ∈ s.live ∧
      IsTable s.vmm.mem (rootOf s.vmm .kernel) f ∧ ¬FreeFrame s.vmm.pmm f ∧
      FreeFrame (vmmFreeDirectory s.vmm D).pmm f := by
  have hk : lowMachine.kernelDirectory.pml4 = physToVirt lowMachine 0x1000 := by decide
  have t := tree_low
  have hreach : Run.Reach step Legal ⟨lowMachine, []⟩ [.create]
      (afterNew ⟨lowMachine, []⟩ (vmmCreateDirectory lowMachine)) :=
    .snoc .nil trivial rfl
  obtain ⟨g, -, -, T⟩ := reach_forest t hk hreach
  have F := T.forest
  have hD : (vmmCreateDirectory lowMachine).1 ∈
      (afterNew ⟨lowMachine, []⟩ (vmmCreateDirectory lowMachine)).live := by
    have hnull : (vmmCreateDirectory lowMachine).1 ≠ .null := by decide +kernel
    simp [afterNew, hnull]
  have htab : IsTable (vmmCreateDirectory lowMachine).2.mem
      (rootOf (vmmCreateDirectory lowMachine).2 .kernel) 0x2000 :=
    ⟨[0], show tableAt _ _ _ = _ by decide +kernel⟩
  refine ⟨t, _, _, 0x2000, hreach, hD, htab, ?_, ?_⟩
  · obtain ⟨l, hl⟩ := F.isTable (T.root List.mem_cons_self).2 htab
    exact F.used hl
  have hslot : slot (afterNew ⟨lowMachine, []⟩ (vmmCreateDirectory lowMachine)).vmm.mem
      (rootOf (afterNew ⟨lowMachine, []⟩ (vmmCreateDirectory lowMachine)).vmm
        (vmmCreateDirectory lowMachine).1) 0 = 0x2003 := by
    decide +kernel
  have hpass : passes (afterNew ⟨lowMachine, []⟩ (vmmCreateDirectory lowMachine)).vmm 0x2003
      = true := by
    decide +kernel
  have hlt : frameOf 0x2003 / pageSize
      < (afterNew ⟨lowMachine, []⟩ (vmmCreateDirectory lowMachine)).vmm.pmm.totalBlocks := by
    decide +kernel
  obtain ⟨d, r, hd, he⟩ := (T.live_iff _).mp hD
  rw [he, T.rootOf_block hd] at hslot
  rw [← hslot] at hpass hlt
  have hret := vmmFreeDirectory_returns F.ok (F.dir_frame hd) (F.frame (F.dir_level hd))
    (F.dir_pml4 hd) (show 0 < 256 by decide) hpass hlt
  rw [← he, hslot] at hret
  exact hret

end Alos.Vmm
