import Alos.Vmm.History

/-!
# directory の間の隔離

`vmm_create_directory` は、PML4 の上半分と 0 番の entry を kernel と共有させる。
共有していない添字での `vmm_map_page_in_dir` は、ほかの directory の変換を変えない。

* `map_isolated` — 主定理
* `created_not_isolated` — 0 番の entry を共有していると、kernel の変換が変わる例
-/

namespace Alos.Vmm

open Bytes Pmm Bitmap Radix

variable {g : Ghost} {r r' virt f : Nat}

/-! ## 出会う道 -/

/-- 二つの根からの道が同じ table で出会うなら、それぞれの PML4 の entry は同じ PDPT を指す。 -/
theorem Forest.meet {s : State} (F : Forest g s) (hr : g.lv r 0)
    (hr' : g.lv r' 0) {l : Nat} {q : List (Fin 512)}
    (hp : Vmm.tableAt s.mem r (pathTo virt (l + 1)) = some f)
    (hq : Vmm.tableAt s.mem r' q = some f) :
    ∃ h j, j < 512 ∧ child 0 (slot s.mem r (pml4Index virt)) = some h ∧
      child 0 (slot s.mem r' j) = some h := by
  have hlen : q.length = l + 1 := by
    have := F.level_unique (F.tableAt hr' hq) (F.tableAt hr hp)
    rwa [length_pathTo] at this
  -- `l` について、出会った table から根に向かって遡る
  induction l generalizing f q with
  | zero =>
    obtain ⟨j, rfl⟩ := List.length_eq_one_iff.mp hlen
    rw [tableAt_singleton] at hq
    exact ⟨f, j, j.isLt, (@tableAt_succ _ _ virt 0 _ rfl).symm.trans hp, hq⟩
  | succ l ih =>
    rcases List.eq_nil_or_concat q with rfl | ⟨q, j, rfl⟩
    · simp at hlen
    rw [List.concat_eq_append] at hq hlen
    obtain ⟨y, hy, hyc⟩ := tableAt_pred hp
    obtain ⟨y', hy', hyc'⟩ := Node.of_concat hq
    have hlen' : q.length = l + 1 := by simpa using hlen
    have hylv := F.tableAt hr hy
    have hylv' := F.tableAt hr' hy'
    rw [length_pathTo] at hylv
    rw [hlen'] at hylv' hyc'
    obtain ⟨rfl, -⟩ := F.parent (by omega) hylv hylv' (pathIndex_lt virt _) j.isLt hyc hyc'
    exact ih hy hy' hlen'

/-! ## 隔離 -/

theorem Tracks.rootOf_agree {g' : Ghost} {s s' : Sys} (T : Tracks g s) (T' : Tracks g' s')
    (ha : g.Agree g') (hh : s'.vmm.hhdmOffset = s.vmm.hhdmOffset) {D : Dir}
    (hD : D ∈ Dir.kernel :: s.live) : rootOf s'.vmm D = rootOf s.vmm D := by
  rcases List.mem_cons.mp hD with rfl | hD
  · rw [T.rootOf_kernel, T'.rootOf_kernel, ha.kroot]
  · obtain ⟨d, r, hd, rfl⟩ := (T.live_iff D).mp hD
    have hd' : g'.dir d r := by rw [ha.dir]; exact hd
    rw [T.rootOf_block hd, ← physToVirt_congr hh, T'.rootOf_block hd']

/-- `virt` の PML4 の entry が同じ PDPT を指していなければ、写像はもう一方の木に触れない。 -/
theorem Forest.apart {s s' : State} (F : Forest g s) (hr : g.lv r 0) (hr' : g.lv r' 0)
    (hne : r ≠ r') (honly : OnlyPath s s' r virt)
    (hno : ∀ h j, j < 512 → child 0 (slot s.mem r (pml4Index virt)) = some h →
      child 0 (slot s.mem r' j) ≠ some h)
    {i : Nat} (hf : IsTable s.mem r' f) (hi : i < 512) : slot s'.mem f i = slot s.mem f i := by
  obtain ⟨q, hq⟩ := hf
  have hlv := F.tableAt hr' hq
  refine honly.slot_eq (F.frame hlv) hi ?_
  rintro (⟨l, hl⟩ | ⟨b, hb, hbf, -, rfl⟩)
  · cases l with
    | zero =>
      -- 写す側の根は、ほかの根の table ではない
      obtain rfl : r = f := Option.some.inj hl
      have h0 : q.length = 0 := F.level_unique hlv hr
      obtain rfl := List.length_eq_zero_iff.mp h0
      exact hne (Option.some.inj hq).symm
    | succ l =>
      obtain ⟨h, j, hj, h1, h2⟩ := F.meet hr hr' hl hq
      exact hno h j hj h1 h2
  · exact F.used hlv ⟨b, hb, hbf, rfl⟩

/--
**隔離**: 下半分の、PDPT を共有していない添字での写像は、ほかの directory の変換を変えない。

共有がありうるのは、`vmm_create_directory` の写す 0 番だけである。
`vmm_get_phys_addr` の見ない 1 GiB page を通る番地は除く。
-/
theorem map_isolated {s₀ : State} {kroot : Nat} (t : Tree s₀ kroot)
    (hk : s₀.kernelDirectory.pml4 = physToVirt s₀ kroot) {ops : List Op} {s : Sys}
    (h : Run.Reach step LegalCreateMap ⟨s₀, []⟩ ops s) {A B : Dir}
    (hA : A ∈ Dir.kernel :: s.live) (hB : B ∈ Dir.kernel :: s.live) (hne : A ≠ B)
    (phys virt flags : Nat) (hh : ¬MeetsHuge s.vmm.mem (rootOf s.vmm A) virt)
    (huser : pml4Index virt < 256)
    (hzero : pml4Index virt = 0 → ∀ p, child 0 (slot s.vmm.mem (rootOf s.vmm A) 0) = some p →
      child 0 (slot s.vmm.mem (rootOf s.vmm B) 0) ≠ some p)
    (v : Nat) (hg : NoGiant s.vmm.mem (rootOf s.vmm B) v) :
    vmmGetPhysAddr (vmmMapPageInDir s.vmm A phys virt flags).2 B v = vmmGetPhysAddr s.vmm B v := by
  obtain ⟨g, hW, -, T⟩ := reach_create_map t hk h
  have F := T.forest
  have hs := F.ok.hhdm_lt
  obtain ⟨dirA, lvA⟩ := T.root hA
  obtain ⟨dirB, lvB⟩ := T.root hB
  have hroots : rootOf _ A ≠ rootOf _ B := fun he => hne (T.rootOf_inj hA hB he)
  obtain ⟨g', hr⟩ := F.map dirA lvA hh
  obtain ⟨g', ha, T'⟩ := T.map hA hh
  -- 書き換わるのは、`A` の道の上の table と新しい frame だけである
  have hcur := (dirA.of_same rfl rfl (fun _ h => h) (fun _ _ _ => rfl)).readDir hs
  have honly : OnlyPath s.vmm (vmmMapPageInDir s.vmm A phys virt flags).2
    (rootOf s.vmm A) virt := by
    have h1 := onlyPath_of_noHuge (s := { s.vmm with currentDirectory := A }) phys flags
      ⟨hs, F.ok.hhdm_eq, F.ok.counted⟩ (F.frame lvA) hcur hh
    unfold vmmMapPageInDir
    rw [if_neg dirA.ne_null]
    exact h1
  have hno : ∀ p j, j < 512 → child 0 (slot s.vmm.mem (rootOf s.vmm A) (pml4Index virt)) = some p →
      child 0 (slot s.vmm.mem (rootOf s.vmm B) j) ≠ some p := by
    intro p j hj h1 h2
    obtain ⟨rfl, hsh⟩ := F.share lvA lvB (pml4Index_lt virt) hj h1 h2
    have hidx := hsh hroots
    rw [hW] at hidx
    have h0 : pml4Index virt = 0 := hidx.resolve_right (by omega)
    rw [h0] at h1 h2
    exact hzero h0 p h1 h2
  have hpath : SamePath s.vmm.mem (vmmMapPageInDir s.vmm A phys virt flags).2.mem
      (rootOf s.vmm B) v := by
    intro l f _ hf
    exact .of_eq (F.apart lvA lvB hroots honly hno ⟨_, hf⟩ (pathIndex_lt v l))
  obtain ⟨dirB', -⟩ := T'.root hB
  rw [T.rootOf_agree T' ha hr.hhdm_eq hB] at dirB'
  rw [vmmGetPhysAddr_eq T'.forest.ok.hhdm_lt dirB.ne_null (F.frame lvB)
      (dirB'.readDir T'.forest.ok.hhdm_lt),
    vmmGetPhysAddr_eq hs dirB.ne_null (F.frame lvB) (dirB.readDir hs)]
  exact lookup_congr _ _ hr.hhdm_eq hpath hg

set_option maxRecDepth 100000

/-- 作った directory の 0 番での写像が、kernel の変換を変える。 -/
theorem created_not_isolated :
    Tree lowMachine 0x1000 ∧
    ∃ s A, Run.Reach step LegalCreateMap ⟨lowMachine, []⟩ [.create] s ∧ A ∈ s.live ∧
      A ≠ .kernel ∧ pml4Index 0x400000 < 256 ∧
      vmmGetPhysAddr (vmmMapPageInDir s.vmm A 0xe000 0x400000 7).2 .kernel 0x400000
        ≠ vmmGetPhysAddr s.vmm .kernel 0x400000 := by
  refine ⟨tree_low, afterNew ⟨lowMachine, []⟩ (vmmCreateDirectory lowMachine),
    (vmmCreateDirectory lowMachine).1, .snoc .nil ⟨trivial, by simp, by simp⟩ rfl, ?_⟩
  decide +kernel

/-- kernel の 1 番での写像は、作った directory の同じ番地の変換を変えない。 -/
theorem map_isolated_blank :
    vmmGetPhysAddr (vmmMapPageInDir userSys.vmm .kernel 0x9000 0x8000000000 7).2 userDir
      0x8000000000 = 0xe000 := by
  have hhuge : ¬MeetsHuge userSys.vmm.mem (rootOf userSys.vmm .kernel) 0x8000000000 :=
    not_meetsHuge_of_none (by decide +kernel)
  have hgiant : NoGiant userSys.vmm.mem (rootOf userSys.vmm userDir) 0x8000000000 := by
    have hval : (tableAt userSys.vmm.mem (rootOf userSys.vmm userDir) (pathTo 0x8000000000 1)).all
        (fun f => !hasFlag (slot userSys.vmm.mem f (pdptIndex 0x8000000000)) pageHuge) = true := by
      decide +kernel
    intro f hf _
    rw [hf] at hval
    simpa using hval
  rw [map_isolated tree_blank (by decide) reach_user List.mem_cons_self (by decide +kernel)
    (by decide +kernel) 0x9000 0x8000000000 7 hhuge (by decide) (fun h => absurd h (by decide))
    0x8000000000 hgiant]
  exact user_mapped

end Alos.Vmm
