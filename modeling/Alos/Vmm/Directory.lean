import Alos.Vmm.Map

/-!
# directory の作成、複製、破棄

`vmm_create_directory`、`vmm_clone_directory`、`vmm_free_directory` を slot の上で読み直す。
-/

namespace Alos.Vmm

open Bytes Pmm Bitmap Radix List

variable {s s' : State} {dir : Dir} {root f i r d kroot : Nat} {p : Pmm.State} {S : Nat → Prop}
variable {step : State → Nat → State}

/-! ## directory の根 -/

/-- `dir` の `pml4` は frame `root` を指す。block に置かれた directory の frame は空きではない。 -/
def DirRoot (s : State) (dir : Dir) (root : Nat) : Prop :=
  (dir = .kernel ∧ s.kernelDirectory.pml4 = physToVirt s root) ∨
  ∃ d, dir = .block (physToVirt s d) ∧ IsFrame d ∧ ¬FreeFrame s.pmm d ∧
    slot s.mem d 1 = physToVirt s root

theorem DirRoot.ne_null (h : DirRoot s dir root) : dir ≠ .null := by
  rcases h with ⟨rfl, -⟩ | ⟨d, rfl, -⟩ <;> simp

theorem DirRoot.readDir (hs : s.hhdmOffset < 2 ^ 64)
    (h : DirRoot s dir root) : (readDir s dir).pml4 = physToVirt s root := by
  rcases h with ⟨rfl, h⟩ | ⟨d, rfl, hd, -, h⟩
  · exact h
  · rw [readDir_block hs hd]
    exact h

/-- 空いていない frame に書かなければ、directory の根は変わらない。 -/
theorem DirRoot.of_same (h : DirRoot s dir root)
    (hh : s'.hhdmOffset = s.hhdmOffset) (hk : s'.kernelDirectory = s.kernelDirectory)
    (hfree : ∀ f, FreeFrame s'.pmm f → FreeFrame s.pmm f)
    (hslot : ∀ d, IsFrame d → ¬FreeFrame s.pmm d → slot s'.mem d 1 = slot s.mem d 1) :
    DirRoot s' dir root := by
  rcases h with ⟨rfl, h⟩ | ⟨d, rfl, hd, hu, h⟩
  · exact .inl ⟨rfl, by rw [hk, h, physToVirt_congr hh]⟩
  · refine .inr ⟨d, by rw [physToVirt_congr hh], hd, fun hc => hu (hfree d hc), ?_⟩
    rw [hslot d hd hu, h, physToVirt_congr hh]

/-! ## entry の複写 -/

/-- `s'` は、`s` の frame `f` だけを書き換えたものである。 -/
structure WroteOnly (s s' : State) (f : Nat) : Prop where
  eq : s' = { s with mem := s'.mem }
  only : OnlyIn s.mem s'.mem (· = f)

theorem WroteOnly.refl : WroteOnly s s f := ⟨rfl, .refl⟩

section

variable (h : WroteOnly s s' f)
include h

theorem WroteOnly.hhdm_eq : s'.hhdmOffset = s.hhdmOffset := by
  rw [h.eq]

theorem WroteOnly.kernel_eq : s'.kernelDirectory = s.kernelDirectory := by
  rw [h.eq]

theorem WroteOnly.pmm_eq : s'.pmm = s.pmm := by
  rw [h.eq]

theorem WroteOnly.setSlot (hf : IsFrame f)
    (hi : i < 512) (v : Nat) : WroteOnly s { s' with mem := setSlot s'.mem f i v } f := by
  refine ⟨?_, h.only.trans (onlyIn_setSlot v hf hi)⟩
  rw [h.eq]

end

/-- `dst[i] = src[i]` のループは、その範囲の entry を写すだけである。 -/
theorem copyLoop {src dst a n : Nat} (hsrc : IsFrame src) (hdst : IsFrame dst)
    (hne : src ≠ dst) (hstep : ∀ s' i, WroteOnly s s' dst → i < 512 →
      step s' i = { s' with mem := setSlot s'.mem dst i (slot s'.mem src i) }) (hn : a + n ≤ 512) :
    WroteOnly s ((range' a n).foldl step s) dst ∧
    ∀ j < 512, slot ((range' a n).foldl step s).mem dst j =
      if a ≤ j ∧ j < a + n then slot s.mem src j else slot s.mem dst j := by
  induction n with
  | zero =>
    refine ⟨.refl, fun j _ => ?_⟩
    rw [if_neg (by omega)]
    rfl
  | succ n ih =>
    obtain ⟨hw, hj⟩ := ih (by omega)
    have hi : a + n < 512 := by omega
    rw [range'_1_concat, foldl_append, foldl_cons, foldl_nil, hstep _ _ hw hi]
    refine ⟨hw.setSlot hdst hi _, fun j hj512 => ?_⟩
    have hread := hw.only.slot_eq hsrc hi hne
    rw [slot_setSlot hdst hdst hi hj512 slot_lt, hread, hj j hj512]
    by_cases hja : j = a + n
    · rw [if_pos ⟨rfl, hja⟩, if_pos (by omega), hja]
    · rw [if_neg (fun h => hja h.2)]
      have hiff : (a ≤ j ∧ j < a + n) ↔ (a ≤ j ∧ j < a + (n + 1)) := by omega
      simp only [hiff]

/-! ## frame の返却 -/

/-- PMM が、`S` の frame を返してもらうだけで変わった。 -/
structure Freed (p q : Pmm.State) (S : Nat → Prop) : Prop where
  counted : Counted q
  layout : SameLayout p q
  mono : ∀ f, FreeFrame p f → FreeFrame q f
  only : ∀ f, FreeFrame q f → FreeFrame p f ∨ S f

theorem Freed.refl (hc : Counted p) : Freed p p S :=
  ⟨hc, .refl p, fun _ h => h, fun _ h => .inl h⟩

theorem Freed.trans {q r : Pmm.State} (h1 : Freed p q S) (h2 : Freed q r S) : Freed p r S :=
  ⟨h2.counted, h1.layout.trans h2.layout, fun f h => h2.mono f (h1.mono f h),
    fun f h => (h2.only f h).elim (h1.only f) .inr⟩

section

variable (hs : s.hhdmOffset < 2 ^ 64) (hh : p.hhdmOffset = s.hhdmOffset)
include hs hh

theorem ptrBlock_physToVirt (hf : IsFrame f) : ptrBlock p (physToVirt s f) = f / pageSize := by
  have hv := virtToPhys_physToVirt hs (Nat.lt_trans hf.2 (by decide))
  unfold virtToPhys at hv
  unfold ptrBlock pmmAddrToBlock
  rw [hh, hv]
  rfl

theorem pmmFreeBlock_freed (hc : Counted p) (hf : IsFrame f) :
    Freed p (pmmFreeBlock p (physToVirt s f)) (· = f) ∧
    (f / pageSize < p.totalBlocks → FreeFrame (pmmFreeBlock p (physToVirt s f)) f) := by
  have hb := ptrBlock_physToVirt hs hh hf
  have hframe : f = blockFrame (f / pageSize) := by
    unfold IsFrame pageSize at hf
    unfold blockFrame pageSize
    omega
  by_cases hlt : f / pageSize < p.totalBlocks
  · obtain ⟨h1, h2, h3⟩ := pmmFreeBlock_spec hc (hb ▸ hlt)
    rw [hb] at h3
    refine ⟨⟨h1, h2, ?_, ?_⟩, fun _ => ⟨_, h2.total_eq ▸ hlt, by rw [h3]; simp, hframe⟩⟩
    · rintro g ⟨k, hk, ht, rfl⟩
      exact ⟨k, h2.total_eq ▸ hk, by rw [h3, ht, Bool.and_false], rfl⟩
    · rintro g ⟨k, hk, ht, rfl⟩
      by_cases hkf : k = f / pageSize
      · exact .inr (by rw [hkf, ← hframe])
      · rw [h3] at ht
        simp only [ne_eq, hkf, not_false_eq_true, decide_true, Bool.true_and] at ht
        exact .inl ⟨k, h2.total_eq ▸ hk, ht, rfl⟩
  · have he : pmmFreeBlock p (physToVirt s f) = p := by
      exact if_pos (by rw [← hb] at hlt; exact Nat.not_lt.mp hlt)
    rw [he]
    exact ⟨.refl hc, fun h => absurd h hlt⟩

end

/-! ## 作成 -/

/-- 空いていた frame `d` と `r` に、directory とその PML4 を作った。 -/
structure NewDir (s : State) (d r : Nat) (s' : State) : Prop where
  dir_free : FreeFrame s.pmm d
  root_free : FreeFrame s.pmm r
  ne : d ≠ r
  hhdm_eq : s'.hhdmOffset = s.hhdmOffset
  kernel_eq : s'.kernelDirectory = s.kernelDirectory
  ok : Ok s'
  free : ∀ f, FreeFrame s'.pmm f → FreeFrame s.pmm f ∧ f ≠ d ∧ f ≠ r
  only : OnlyIn s.mem s'.mem fun f => f = d ∨ f = r
  pml4 : slot s'.mem d 1 = physToVirt s r

theorem FreeFrame.isFrame (hc : Counted p) (h : FreeFrame p f) : IsFrame f := by
  obtain ⟨b, hb, -, rfl⟩ := h
  exact isFrame_blockFrame (hc.lt_max hb)

/-- 二つの新しい frame のほかの slot は変わらない。 -/
theorem NewDir.slot_eq (h : NewDir s d r s')
    (hf : IsFrame f) (hi : i < 512) (hu : ¬FreeFrame s.pmm f) :
    slot s'.mem f i = slot s.mem f i := by
  refine h.only.slot_eq hf hi ?_
  rintro (rfl | rfl)
  · exact hu h.dir_free
  · exact hu h.root_free

/-- 新しい PML4 だけをさらに書き換えても、新しい directory である。 -/
theorem NewDir.wrote {s'' : State} (h : NewDir s d r s')
    (hw : WroteOnly s' s'' r) (hd : IsFrame d) : NewDir s d r s'' where
  dir_free := h.dir_free
  root_free := h.root_free
  ne := h.ne
  hhdm_eq := hw.hhdm_eq.trans h.hhdm_eq
  kernel_eq := hw.kernel_eq.trans h.kernel_eq
  ok := by
    rw [hw.eq]
    exact h.ok.setMem _
  free f hf := h.free f (hw.pmm_eq ▸ hf)
  only := h.only.trans (hw.only.mono fun _ => Or.inr)
  pml4 := by rw [hw.only.slot_eq hd (by decide) h.ne, h.pml4]

/-- 作ったばかりの PML4 の entry。上半分と、あれば 0 番を kernel から写す。 -/
def createdEntry (m : Mem) (kroot i : Nat) : Nat :=
  if 256 ≤ i ∨ i = 0 ∧ hasFlag (slot m kroot 0) pagePresent = true then slot m kroot i else 0

/-- directory の二つの field を書く。 -/
def initDir (m : Mem) (d r ptr : Nat) : Mem := setSlot (setSlot (zeroFrame m r) d 1 ptr) d 0 r

theorem writeWord_dir (hs : s.hhdmOffset < 2 ^ 64)
    (h : s'.hhdmOffset = s.hhdmOffset) (hd : IsFrame d) {v : Nat} :
    writeWord s' (physToVirt s d) v = { s' with mem := setSlot s'.mem d 0 v } := by
  have hw := writeEntry_ptr s' hs h v hd (show 0 < 512 by decide)
  unfold writeEntry at hw
  rwa [Nat.add_zero, show physToVirt s d % 2 ^ 64 = physToVirt s d from
    Nat.mod_mod _ _] at hw

theorem writeWord_dirs (hs : s.hhdmOffset < 2 ^ 64)
    (h : s'.hhdmOffset = s.hhdmOffset) (hd : IsFrame d) (hr : IsFrame r) {m : Mem}
    (hm : s'.mem = zeroFrame m r) :
    writeWord (writeWord s' ((physToVirt s d + 8) % 2 ^ 64) (physToVirt s r)) (physToVirt s d)
      (virtToPhys (writeWord s' ((physToVirt s d + 8) % 2 ^ 64) (physToVirt s r))
        (physToVirt s r)) = { s' with mem := initDir m d r (physToVirt s r) } := by
  have h1 : writeWord s' _ _ = { s' with mem := setSlot _ d 1 _ } :=
    writeEntry_ptr s' hs h (physToVirt s r) hd (show 1 < 512 by decide)
  have hv := virtToPhys_physToVirt hs (Nat.lt_trans hr.2 (by decide))
  have h2 : virtToPhys { s' with mem := setSlot s'.mem d 1 (physToVirt s r) } _
      = r := (virtToPhys_congr (by exact h) _).trans hv
  rw [h1, h2, writeWord_dir hs (by exact h) hd, hm]
  rfl

theorem newDir_init (ok : Ok s) {b c : Nat} (hb : b < s.pmm.totalBlocks)
    (hbf : test s.pmm.bitmap b = false) (hc : c < (incUsed (bitmapSet s.pmm b)).totalBlocks)
    (hcf : test (incUsed (bitmapSet s.pmm b)).bitmap c = false) :
    NewDir s (blockFrame b) (blockFrame c) { s with
        pmm := incUsed (bitmapSet (incUsed (bitmapSet s.pmm b)) c)
        mem := initDir s.mem (blockFrame b) (blockFrame c) (physToVirt s (blockFrame c)) } ∧
    ∀ i < 512, slot (initDir s.mem (blockFrame b) (blockFrame c) (physToVirt s (blockFrame c)))
      (blockFrame c) i = 0 := by
  have hg1 := grow_take ok.counted hb hbf
  have hg2 := grow_take hg1.counted hc hcf
  have hd := isFrame_blockFrame (ok.counted.lt_max hb)
  have hr := isFrame_blockFrame (hg1.counted.lt_max hc)
  obtain ⟨hrfree, hne⟩ := freeFrame_of_take ok.counted hb hbf ⟨c, hc, hcf, rfl⟩
  have hptr : physToVirt s (blockFrame c) < 2 ^ 64 := Nat.mod_lt _ (by decide)
  have hr64 : blockFrame c < 2 ^ 64 := Nat.lt_trans hr.2 (by decide)
  refine ⟨⟨⟨b, hb, hbf, rfl⟩, hrfree, hne.symm, rfl, rfl, ok.grow (hg1.trans hg2) _, ?_, ?_, ?_⟩,
    ?_⟩
  · intro f hf
    obtain ⟨hf, h2⟩ := freeFrame_of_take hg1.counted hc hcf hf
    obtain ⟨hf, h1⟩ := freeFrame_of_take ok.counted hb hbf hf
    exact ⟨hf, h1, h2⟩
  · have h1 := onlyIn_zeroFrame (m := s.mem) hr
    have h2 := onlyIn_setSlot (m := zeroFrame s.mem (blockFrame c))
      (physToVirt s (blockFrame c)) hd (show 1 < 512 by decide)
    have h3 := h2.trans (onlyIn_setSlot (blockFrame c) hd (show 0 < 512 by decide))
    exact (h1.mono fun _ => Or.inr).trans (h3.mono fun _ => Or.inl)
  · unfold initDir
    rw [slot_setSlot hd hd (by decide) (by decide) hr64, if_neg (by simp),
      slot_setSlot hd hd (by decide) (by decide) hptr, if_pos ⟨rfl, rfl⟩]
  · intro i hi
    unfold initDir
    rw [slot_setSlot hd hr (by decide) hi hr64, if_neg (fun h => hne h.1),
      slot_setSlot hd hr (by decide) hi hptr, if_neg (fun h => hne h.1),
      slot_zeroFrame hr hr hi, if_pos rfl]

/-- kernel の entry を写した後の PML4。 -/
theorem newDir_copy (ok : Ok s) (hn : NewDir s d r s')
    (hz : ∀ i < 512, slot s'.mem r i = 0) (hkf : IsFrame kroot)
    (hk : s.kernelDirectory.pml4 = physToVirt s kroot) (hku : ¬FreeFrame s.pmm kroot) :
    let s1 := (range' 256 256).foldl (fun t i =>
      writeEntry t (physToVirt s r) i (readEntry t t.kernelDirectory.pml4 i)) s'
    let s2 := if hasFlag (readEntry s1 s1.kernelDirectory.pml4 0) pagePresent then
        writeEntry s1 (physToVirt s r) 0 (readEntry s1 s1.kernelDirectory.pml4 0)
      else s1
    (NewDir s d r s2 ∧ ∀ i < 512, slot s2.mem r i = createdEntry s.mem kroot i) ∧
      WroteOnly s' s2 r := by
  intro s1 s2
  have hs := ok.hhdm_lt
  have hd := hn.dir_free.isFrame ok.counted
  have hr := hn.root_free.isFrame ok.counted
  have hne : kroot ≠ r := fun h => hku (h ▸ hn.root_free)
  have hread : ∀ t i, WroteOnly s' t r → i < 512 →
      readEntry t t.kernelDirectory.pml4 i = slot t.mem kroot i := by
    intro t i hw hi
    rw [hw.kernel_eq, hn.kernel_eq, hk, readEntry_ptr hs (hw.hhdm_eq.trans hn.hhdm_eq) hkf hi]
  have hwrite : ∀ t i v, WroteOnly s' t r → i < 512 →
      writeEntry t (physToVirt s r) i v = { t with mem := setSlot t.mem r i v } := by
    intro t i v hw hi
    exact writeEntry_ptr t hs (hw.hhdm_eq.trans hn.hhdm_eq) v hr hi
  have hstep : ∀ t i, WroteOnly s' t r → i < 512 →
      (fun t i => writeEntry t (physToVirt s r) i (readEntry t t.kernelDirectory.pml4 i)) t i
        = { t with mem := setSlot t.mem r i (slot t.mem kroot i) } := by
    intro t i ht hi
    simp only [hwrite t i _ ht hi, hread t i ht hi]
  obtain ⟨hw, hcopy⟩ := copyLoop (a := 256) (n := 256) hkf hr hne hstep (by decide)
  have hk0 : ∀ i < 512, slot s1.mem kroot i = slot s.mem kroot i := by
    intro i hi
    rw [hw.only.slot_eq hkf hi hne, hn.slot_eq hkf hi hku]
  have hs1 : ∀ i < 512, slot s1.mem r i = if 256 ≤ i then slot s.mem kroot i else 0 := by
    intro i hi
    rw [hcopy i hi, hz i hi, hn.slot_eq hkf hi hku]
    have hiff : (256 ≤ i ∧ i < 256 + 256) ↔ 256 ≤ i := by omega
    simp only [hiff]
  have hs2 : s2 = if hasFlag (slot s.mem kroot 0) pagePresent = true then
      { s1 with mem := setSlot s1.mem r 0 (slot s.mem kroot 0) } else s1 := by
    simp only [s2]
    rw [hread s1 0 hw (by decide), hk0 0 (by decide), hwrite s1 0 _ hw (by decide)]
  rw [hs2]
  by_cases hp : hasFlag (slot s.mem kroot 0) pagePresent = true
  · rw [if_pos hp]
    refine ⟨⟨hn.wrote (hw.setSlot hr (by decide) _) hd, fun i hi => ?_⟩,
      hw.setSlot hr (by decide) _⟩
    simp only [createdEntry, hp, and_true]
    rw [slot_setSlot hr hr (by decide) hi slot_lt, hs1 i hi]
    by_cases hi0 : i = 0
    · subst hi0
      simp
    · simp [hi0]
  · rw [if_neg hp]
    refine ⟨⟨hn.wrote hw hd, fun i hi => ?_⟩, hw⟩
    rw [hs1 i hi]
    simp [createdEntry, hp]

/-- directory の block だけが取れて、PML4 が取れなかった。 -/
structure HalfDir (s : State) (b : Nat) (q : Pmm.State) : Prop where
  lt_total : b < s.pmm.totalBlocks
  free : test s.pmm.bitmap b = false
  dir_eq : pmmAllocBlock s.pmm = (physToVirt s (blockFrame b), incUsed (bitmapSet s.pmm b))
  full : (pmmAllocBlock (incUsed (bitmapSet s.pmm b))).1 = 0
  grow : Grow (incUsed (bitmapSet s.pmm b)) q

/-- directory と PML4 の block を、この順に取った。 -/
structure TwoBlocks (s : State) (b c : Nat) (s' : State) : Prop where
  dir_lt : b < s.pmm.totalBlocks
  dir_free : test s.pmm.bitmap b = false
  dir_ptr : physToVirt s (blockFrame b) ≠ 0
  dir_eq : pmmAllocBlock s.pmm = (physToVirt s (blockFrame b), incUsed (bitmapSet s.pmm b))
  root_lt : c < (incUsed (bitmapSet s.pmm b)).totalBlocks
  root_free : test (incUsed (bitmapSet s.pmm b)).bitmap c = false
  root_ptr : physToVirt s (blockFrame c) ≠ 0
  root_eq : pmmAllocBlock (incUsed (bitmapSet s.pmm b)) =
    (physToVirt s (blockFrame c), incUsed (bitmapSet (incUsed (bitmapSet s.pmm b)) c))
  pmm_eq : s'.pmm = incUsed (bitmapSet (incUsed (bitmapSet s.pmm b)) c)
  current_eq : s'.currentDirectory = s.currentDirectory
  mem_eq : ∀ a, pageAlignDown a ≠ blockFrame c →
    s'.mem a = initDir s.mem (blockFrame b) (blockFrame c) (physToVirt s (blockFrame c)) a

section

variable (ok : Ok s) (hkf : IsFrame kroot) (hk : s.kernelDirectory.pml4 = physToVirt s kroot)
  (hku : ¬FreeFrame s.pmm kroot)
include ok hkf hk hku

/-- `vmm_create_directory` で起こりうることのすべて。 -/
theorem vmmCreateDirectory_steps : ((pmmAllocBlock s.pmm).1 = 0 ∧
      vmmCreateDirectory s = (.null, { s with pmm := (pmmAllocBlock s.pmm).2 })) ∨
    (∃ b q, HalfDir s b q ∧ vmmCreateDirectory s =
      (.null, { s with pmm := pmmFreeBlock q (physToVirt s (blockFrame b)) })) ∨
    ∃ b c s', TwoBlocks s b c s' ∧
      vmmCreateDirectory s = (.block (physToVirt s (blockFrame b)), s') ∧
      NewDir s (blockFrame b) (blockFrame c) s' ∧
      ∀ i < 512, slot s'.mem (blockFrame c) i = createdEntry s.mem kroot i := by
  have hs := ok.hhdm_lt
  unfold vmmCreateDirectory
  rcases pmmAllocBlock_cases with h | ⟨b, hb, hbf, h⟩
  · rw [h]
    exact .inl ⟨rfl, rfl⟩
  have hd := isFrame_blockFrame (ok.counted.lt_max hb)
  rw [blockPtr_eq ok (ok.counted.lt_max hb)] at h
  rw [h]
  simp only []
  by_cases h0 : physToVirt s (blockFrame b) = 0
  · rw [if_pos h0]
    exact .inl ⟨h0, rfl⟩
  rw [if_neg h0]
  right
  have ok1 : Ok _ :=
    ok.grow (grow_take ok.counted hb hbf) s.mem
  rcases allocTable_cases ok1 with ⟨hfull, q, hq, he⟩ | ⟨c, hc, hcf, hal, hc0, he⟩
  · -- PML4 が取れなければ、directory の block を返す
    left
    rw [he]
    exact ⟨b, q, ⟨hb, hbf, h, hfull, hq⟩, rfl⟩
  right
  obtain ⟨hn, hz⟩ := newDir_init ok hb hbf hc hcf
  obtain ⟨hcopy, hw⟩ := newDir_copy ok hn hz hkf hk hku
  have hr := isFrame_blockFrame (ok1.counted.lt_max hc)
  have hptr : physToVirt { s with pmm := incUsed (bitmapSet s.pmm b) } _
    = physToVirt s (blockFrame c) := physToVirt_congr (by rfl)
  rw [hptr] at he hc0 hal
  refine ⟨b, c, _, ⟨hb, hbf, h0, h, hc, hcf, hc0, hal, hw.pmm_eq, ?_, fun a ha => ?_⟩, ?_, hcopy⟩
  · rw [hw.eq]
  · by_contra hne
    exact ha (hw.only a hne)
  · rw [he]
    simp only [if_neg hc0]
    rw [writeWord_dirs hs (by rfl) hd hr (by rfl)]

/--
`vmm_create_directory` は、失敗して PMM だけが変わるか、新しい directory を返す。

失敗したとき、directory のために取った block は返される。
-/
theorem vmmCreateDirectory_cases :
    (∃ q, vmmCreateDirectory s = (.null, { s with pmm := q }) ∧ Ok { s with pmm := q } ∧
      ∀ f, FreeFrame q f → FreeFrame s.pmm f) ∨
    ∃ d r s', vmmCreateDirectory s = (.block (physToVirt s d), s') ∧ NewDir s d r s' ∧
      ∀ i < 512, slot s'.mem r i = createdEntry s.mem kroot i := by
  have hs := ok.hhdm_lt
  rcases vmmCreateDirectory_steps ok hkf hk hku with ⟨-, he⟩ | ⟨b, q, hhalf, he⟩ | ⟨b, c, s', -, h⟩
  · left
    refine ⟨_, he, ?_⟩
    rcases pmmAllocBlock_cases with h | ⟨b, hb, hbf, h⟩
    · rw [h]
      exact ⟨ok, fun _ hf => hf⟩
    · rw [h]
      exact ⟨ok.grow (grow_take ok.counted hb hbf) _,
        fun f hf => (freeFrame_of_take ok.counted hb hbf hf).1⟩
  · left
    have hgrow := grow_take ok.counted hhalf.lt_total hhalf.free
    have hqh : q.hhdmOffset = s.hhdmOffset :=
      (hhalf.grow.layout.hhdm_eq.trans hgrow.layout.hhdm_eq).trans ok.hhdm_eq
    obtain ⟨hfr, -⟩ := pmmFreeBlock_freed hs hqh hhalf.grow.counted
      (isFrame_blockFrame (ok.counted.lt_max hhalf.lt_total))
    refine ⟨_, he, ⟨hs, hfr.layout.hhdm_eq.trans hqh, hfr.counted⟩, fun f hf => ?_⟩
    rcases hfr.only f hf with ⟨k, hk, ht, rfl⟩ | rfl
    · have hk' : FreeFrame (incUsed (bitmapSet s.pmm b)) (blockFrame k) := by
        refine ⟨k, hhalf.grow.layout.total_eq ▸ hk, ?_, rfl⟩
        by_contra hcon
        rw [hhalf.grow.used_mono k (by simpa using hcon)] at ht
        simp at ht
      exact (freeFrame_of_take ok.counted hhalf.lt_total hhalf.free hk').1
    · exact ⟨b, hhalf.lt_total, hhalf.free, rfl⟩
  · exact .inr ⟨_, _, s', h⟩

end

/-! ## 複製 -/

/-- 複製した PML4 の entry。下半分は `root` から、上半分は kernel から写す。 -/
def clonedEntry (m : Mem) (kroot root i : Nat) : Nat :=
  if i < 256 then slot m root i else slot m kroot i

theorem vmmCloneDirectory_cases (ok : Ok s) (hkf : IsFrame kroot)
    (hk : s.kernelDirectory.pml4 = physToVirt s kroot) (hku : ¬FreeFrame s.pmm kroot)
    {src : Dir} (hsrc : DirRoot s src root) (hrf : IsFrame root) (hru : ¬FreeFrame s.pmm root) :
    (∃ q, vmmCloneDirectory s src = (.null, { s with pmm := q }) ∧ Ok { s with pmm := q } ∧
      ∀ f, FreeFrame q f → FreeFrame s.pmm f) ∨
    ∃ d r s', vmmCloneDirectory s src = (.block (physToVirt s d), s') ∧ NewDir s d r s' ∧
      ∀ i < 512, slot s'.mem r i = clonedEntry s.mem kroot root i := by
  have hs := ok.hhdm_lt
  unfold vmmCloneDirectory
  rw [if_neg hsrc.ne_null]
  rcases vmmCreateDirectory_cases ok hkf hk hku with ⟨q, he, hq, hfree⟩ | ⟨d, r, s1, he, hn, hslot⟩
  · rw [he]
    exact .inl ⟨q, by simp, hq, hfree⟩
  right
  have hd := hn.dir_free.isFrame ok.counted
  have hr := hn.root_free.isFrame ok.counted
  have hne : root ≠ r := fun h => hru (h ▸ hn.root_free)
  -- 二つの directory の根は、PML4 を書き換える間も変わらない
  have hdst : ∀ t, WroteOnly s1 t r → (readDir t (.block (physToVirt s d))).pml4
      = physToVirt s r := by
    intro t ht
    have hhd := ht.hhdm_eq.trans hn.hhdm_eq
    rw [← physToVirt_congr hhd, readDir_block (hhd ▸ hs) hd]
    exact (hn.wrote ht hd).pml4
  have hsrc' : ∀ t, WroteOnly s1 t r → (readDir t src).pml4 = physToVirt s root := by
    intro t ht
    have hnt := hn.wrote ht hd
    have hroot : DirRoot t src root := hsrc.of_same hnt.hhdm_eq hnt.kernel_eq
      (fun f hf => (hnt.free f hf).1) fun f hf hu => hnt.slot_eq hf (by decide) hu
    rw [hroot.readDir hnt.ok.hhdm_lt, physToVirt_congr hnt.hhdm_eq]
  have hstep : ∀ t i, WroteOnly s1 t r → i < 512 →
      (fun t i => writeEntry t (readDir t (.block (physToVirt s d))).pml4 i
        (readEntry t (readDir t src).pml4 i)) t i
        = { t with mem := setSlot t.mem r i (slot t.mem root i) } := by
    intro t i ht hi
    have hhd := ht.hhdm_eq.trans hn.hhdm_eq
    simp only [hdst t ht, hsrc' t ht]
    rw [writeEntry_ptr t hs hhd _ hr hi, readEntry_ptr hs hhd hrf hi]
  obtain ⟨hw, hcopy⟩ := copyLoop (a := 0) (n := 256) hrf hr hne hstep (by decide)
  refine ⟨d, r, _, ?_, hn.wrote hw hd, ?_⟩
  · rw [he, ← range_eq_range']
    rfl
  · intro i hi
    rw [hcopy i hi, hslot i hi, hn.slot_eq hrf hi hru]
    unfold clonedEntry createdEntry
    by_cases h : i < 256
    · rw [if_pos (by omega), if_pos h]
    · rw [if_neg (by omega), if_neg h, if_pos (by omega)]

/-! ## 破棄 -/

/-- `pd` の table を返すときに、PMM に渡る frame。 -/
def FreedPt (m : Mem) (pd f : Nat) : Prop :=
  ∃ k < 512, hasFlag (slot m pd k) pagePresent = true ∧ hasFlag (slot m pd k) pageHuge = false ∧
    f = frameOf (slot m pd k)

/-- `pdpt` の下で PMM に渡る frame。PDPT の `PAGE_HUGE` は見ない。 -/
def FreedPd (m : Mem) (pdpt f : Nat) : Prop :=
  ∃ j < 512, hasFlag (slot m pdpt j) pagePresent = true ∧
    (f = frameOf (slot m pdpt j) ∨ FreedPt m (frameOf (slot m pdpt j)) f)

/-- PML4 の下半分の先で PMM に渡る frame。 -/
def FreedPdpt (m : Mem) (root f : Nat) : Prop :=
  ∃ i < 256, hasFlag (slot m root i) pagePresent = true ∧
    (f = frameOf (slot m root i) ∨ FreedPd m (frameOf (slot m root i)) f)

/-- `s'` は、`s` の PMM に `S` の frame を返しただけのものである。 -/
def Freeing (s : State) (S : Nat → Prop) (s' : State) : Prop :=
  ∃ q, s' = { s with pmm := q } ∧ Freed s.pmm q S

section Freeing

variable {s s' : State} {S : Nat → Prop}

theorem Freeing.mem_eq (h : Freeing s S s') : s'.mem = s.mem := by
  obtain ⟨q, rfl, -⟩ := h
  rfl

theorem Freeing.hhdm_eq (h : Freeing s S s') : s'.hhdmOffset = s.hhdmOffset := by
  obtain ⟨q, rfl, -⟩ := h
  rfl

section

variable (h : Freeing s S s') (ok : Ok s) (hf : IsFrame f)
include h ok hf

theorem Freeing.readEntry (hi : i < 512) : readEntry s' (physToVirt s f) i = slot s.mem f i := by
  rw [readEntry_ptr ok.hhdm_lt h.hhdm_eq hf hi, h.mem_eq]

theorem Freeing.getTable (hi : i < 512) (hp : hasFlag (slot s.mem f i) pagePresent = true) :
    getTable s' (physToVirt s f) i = physToVirt s (frameOf (slot s.mem f i)) := by
  unfold Vmm.getTable
  rw [h.readEntry ok hf hi, if_pos hp, physToVirt_congr h.hhdm_eq]

theorem Freeing.freeTable (hS : S f) : Freeing s S (freeTable s' (physToVirt s f)) := by
  obtain ⟨q, rfl, hq⟩ := h
  have hqh := hq.layout.hhdm_eq.trans ok.hhdm_eq
  obtain ⟨hfr, -⟩ := pmmFreeBlock_freed ok.hhdm_lt hqh hq.counted hf
  refine ⟨_, rfl, hq.trans ⟨hfr.counted, hfr.layout, hfr.mono, fun g hg => ?_⟩⟩
  exact (hfr.only g hg).imp_right fun (h : g = f) => h ▸ hS

end

/-- 一手が返すだけなら、ループも返すだけである。 -/
theorem Freeing.foldl {l : List Nat}
    (hstep : ∀ t i, i ∈ l → Freeing s S t → Freeing s S (step t i)) (h : Freeing s S s') :
    Freeing s S (l.foldl step s') := by
  induction l generalizing s' with
  | nil => exact h
  | cons i l ih =>
    exact ih (fun t j hj => hstep t j (mem_cons_of_mem i hj)) (hstep s' i mem_cons_self h)

end Freeing

theorem freePts_freeing (ok : Ok s) {pd : Nat} (hpd : IsFrame pd)
    (hS : ∀ f, FreedPt s.mem pd f → S f) (h : Freeing s S s') :
    Freeing s S (freePts s' (physToVirt s pd)) := by
  refine Freeing.foldl (fun t k hk ht => ?_) h
  have hk := mem_range.mp hk
  simp only [ht.readEntry ok hpd hk]
  split
  · exact ht
  rename_i hp
  rw [Bool.not_eq_false] at hp
  split
  · exact ht
  · rename_i hg
    rw [ht.getTable ok hpd hk hp]
    split
    · exact ht
    · exact ht.freeTable ok (isFrame_frameOf _) (hS _ ⟨k, hk, hp, by simpa using hg, rfl⟩)

theorem freePds_freeing (ok : Ok s) {pdpt : Nat}
    (hpdpt : IsFrame pdpt) (hS : ∀ f, FreedPd s.mem pdpt f → S f) (h : Freeing s S s') :
    Freeing s S (freePds s' (physToVirt s pdpt)) := by
  refine Freeing.foldl (fun t j hj ht => ?_) h
  have hj := mem_range.mp hj
  simp only [ht.readEntry ok hpdpt hj]
  split
  · exact ht
  rename_i hp
  rw [Bool.not_eq_false] at hp
  rw [ht.getTable ok hpdpt hj hp]
  split
  · exact ht
  · have hpts := freePts_freeing ok (isFrame_frameOf _) (fun f hf => hS f ⟨j, hj, hp, .inr hf⟩) ht
    exact hpts.freeTable ok (isFrame_frameOf _) (hS _ ⟨j, hj, hp, .inl rfl⟩)

/-- `vmm_free_directory` の PML4 のループの一手。 -/
def freePdpt (s : State) (pml4 i : Nat) : State :=
  if hasFlag (readEntry s pml4 i) pagePresent = false then s
  else
    let pdpt := getTable s pml4 i
    if pdpt = 0 then s else freeTable (freePds s pdpt) pdpt

theorem freePdpt_freeing (ok : Ok s)
    (hroot : IsFrame root) (hi : i < 256) (hS : ∀ f, FreedPdpt s.mem root f → S f)
    (h : Freeing s S s') : Freeing s S (freePdpt s' (physToVirt s root) i) := by
  have hi' : i < 512 := by omega
  unfold freePdpt
  simp only [h.readEntry ok hroot hi']
  split
  · exact h
  rename_i hp
  rw [Bool.not_eq_false] at hp
  rw [h.getTable ok hroot hi' hp]
  split
  · exact h
  · have hpds := freePds_freeing ok (isFrame_frameOf _) (fun f hf => hS f ⟨i, hi, hp, .inr hf⟩) h
    exact hpds.freeTable ok (isFrame_frameOf _) (hS _ ⟨i, hi, hp, .inl rfl⟩)

/-- PMM に返りうる frame。 -/
def FreedDir (m : Mem) (d root f : Nat) : Prop := f = d ∨ f = root ∨ FreedPdpt m root f

theorem vmmFreeDirectory_eq (ok : Ok s) (hd : IsFrame d)
    (hpml4 : slot s.mem d 1 = physToVirt s root) : vmmFreeDirectory s (.block (physToVirt s d)) =
      freeTable (freeTable ((range 256).foldl
        (fun t i => freePdpt t (physToVirt s root) i) s) (physToVirt s root)) (physToVirt s d) := by
  have hdir : (readDir s (.block (physToVirt s d))).pml4 = physToVirt s root := by
    rw [readDir_block ok.hhdm_lt hd]
    exact hpml4
  unfold vmmFreeDirectory
  simp only [hdir]
  rfl

/-- **返る frame は、directory、PML4、PML4 の下半分の先の table だけである。** -/
theorem vmmFreeDirectory_freeing (ok : Ok s) (hd : IsFrame d)
    (hroot : IsFrame root) (hpml4 : slot s.mem d 1 = physToVirt s root) :
    Freeing s (FreedDir s.mem d root) (vmmFreeDirectory s (.block (physToVirt s d))) := by
  have h0 : Freeing s (FreedDir s.mem d root) s := ⟨s.pmm, rfl, .refl ok.counted⟩
  rw [vmmFreeDirectory_eq ok hd hpml4]
  have hloop : Freeing s _ _ :=
    Freeing.foldl (fun t i hi ht => freePdpt_freeing ok hroot (mem_range.mp hi)
      (fun f hf => .inr (.inr hf)) ht) h0
  exact (hloop.freeTable ok hroot (.inr (.inl rfl))).freeTable ok hd (.inl rfl)

theorem Freeing.ok (h : Freeing s S s') (ok : Ok s) : Ok s' := by
  obtain ⟨q, rfl, hq⟩ := h
  exact ⟨ok.hhdm_lt, hq.layout.hhdm_eq.trans ok.hhdm_eq, hq.counted⟩

theorem freePdpt_returns (ok : Ok s)
    (hroot : IsFrame root) (hi : i < 256) (hS : ∀ f, FreedPdpt s.mem root f → S f)
    (h : Freeing s S s') (hpass : passes s (slot s.mem root i) = true)
    (hlt : frameOf (slot s.mem root i) / pageSize < s.pmm.totalBlocks) :
    FreeFrame (freePdpt s' (physToVirt s root) i).pmm (frameOf (slot s.mem root i)) := by
  have hi' : i < 512 := by omega
  have hp := present_of_passes hpass
  have hptr : physToVirt s (frameOf (slot s.mem root i)) ≠ 0 := by
    unfold passes at hpass
    simpa [hp] using hpass
  obtain ⟨q, he, hq⟩ := freePds_freeing ok (isFrame_frameOf _)
    (fun f hf => hS f ⟨i, hi, hp, .inr hf⟩) h
  unfold freePdpt
  simp only [h.readEntry ok hroot hi', h.getTable ok hroot hi' hp]
  rw [if_neg (by simp [hp]), if_neg hptr, he]
  exact (pmmFreeBlock_freed ok.hhdm_lt (hq.layout.hhdm_eq.trans ok.hhdm_eq) hq.counted
    (isFrame_frameOf _)).2 (by rw [hq.layout.total_eq]; exact hlt)

/-- **PML4 の下半分の指す PDPT は、誰と共有していても PMM に返る。** -/
theorem vmmFreeDirectory_returns (ok : Ok s) (hd : IsFrame d)
    (hroot : IsFrame root) (hpml4 : slot s.mem d 1 = physToVirt s root) (hi : i < 256)
    (hpass : passes s (slot s.mem root i) = true)
    (hlt : frameOf (slot s.mem root i) / pageSize < s.pmm.totalBlocks) :
    FreeFrame (vmmFreeDirectory s (.block (physToVirt s d))).pmm (frameOf (slot s.mem root i)) := by
  obtain ⟨l1, l2, hl⟩ := append_of_mem (mem_range.mpr hi)
  have hmem : ∀ j, j ∈ l1 ∨ j ∈ l2 → j < 256 := by
    intro j hj
    rw [← mem_range, hl]
    rcases hj with hj | hj <;> simp [hj]
  rw [vmmFreeDirectory_eq ok hd hpml4, hl, foldl_append, foldl_cons]
  have h1 : Freeing s (FreedDir _ d root) _ :=
    Freeing.foldl (fun t j hj ht => freePdpt_freeing ok hroot (hmem j (.inl hj))
      (fun f hf => .inr (.inr hf)) ht) ⟨s.pmm, rfl, .refl ok.counted⟩
  have h2 := freePdpt_freeing ok hroot hi (fun f hf => .inr (.inr hf)) h1
  have hfree := freePdpt_returns ok hroot hi (fun f hf => .inr (.inr hf)) h1 hpass hlt
  generalize freePdpt _ _ i = t2 at h2 hfree
  -- 返した後の状態から見ると、残りのループも返すだけである
  have ok2 := h2.ok ok
  rw [← physToVirt_congr h2.hhdm_eq, ← physToVirt_congr h2.hhdm_eq]
  have h3 : Freeing t2 (FreedDir _ d root) _ :=
    Freeing.foldl (fun t j hj ht => freePdpt_freeing ok2 hroot (hmem j (.inr hj))
      (fun f hf => .inr (.inr hf)) ht) ⟨t2.pmm, rfl, .refl ok2.counted⟩
  obtain ⟨q, he, hq⟩ := (h3.freeTable ok2 hroot (.inr (.inl rfl))).freeTable ok2 hd (.inl rfl)
  rw [he]
  exact hq.mono _ hfree

end Alos.Vmm
