import Alos.Pmm.Invariant
import Alos.Vmm.Model

/-!
# table の slot

物理メモリの byte の上で書かれた `vmm.c` を、frame ごとの 512 個の slot の上で読み直す。

* `slot` / `setSlot` / `zeroFrame` — byte のメモリと slot の対応
* `Ok` — PMM と VMM の HHDM offset が等しく、PMM の数が合っている
* `vmmMapPage_rule` — `vmm_map_page` についての推論規則。各段で起こりうることを
  「あった」「作れなかった」「作った」の三つに分け、最後に葉を書く
-/

namespace Alos.Vmm

open Bytes Pmm Bitmap

variable {m m' : Mem} {f i g j b : Nat} {F : Nat → Prop} {s : State} {p : Pmm.State}
variable {phys flags virt : Nat} {s' : State} {q : Pmm.State} {P : Nat → Nat → State → Prop}
  {Q : State → Prop}

/-! ## byte と slot -/

/-- frame `f` の `i` 番目の entry。 -/
def slot (m : Mem) (f i : Nat) : Nat := load m (f + 8 * i) 8

def setSlot (m : Mem) (f i v : Nat) : Mem := store m (f + 8 * i) 8 v

def zeroFrame (m : Mem) (f : Nat) : Mem := fun a => if f ≤ a ∧ a < f + pageSize then 0 else m a

theorem slot_lt : slot m f i < 2 ^ 64 := load_lt m _ 8

theorem slot_setSlot_self {f i v : Nat} : slot (setSlot m f i v) f i = v % 2 ^ 64 := by
  have h := load_store_digits (m := m) (a := f + 8 * i) (k := 8) (v := v) 8 0 (by omega)
  simpa [slot, setSlot] using h

theorem slot_setSlot_ne {v : Nat} (hf : IsFrame f) (hg : IsFrame g)
    (hi : i < 512) (hj : j < 512) (h : ¬(g = f ∧ j = i)) :
    slot (setSlot m f i v) g j = slot m g j := by
  apply load_store_of_disjoint
  unfold IsFrame pageSize at hf hg
  by_cases hgf : g = f
  · omega
  · omega

theorem slot_setSlot {v : Nat} (hf : IsFrame f) (hg : IsFrame g)
    (hi : i < 512) (hj : j < 512) (hv : v < 2 ^ 64) :
    slot (setSlot m f i v) g j = if g = f ∧ j = i then v else slot m g j := by
  by_cases h : g = f ∧ j = i
  · rw [if_pos h, h.1, h.2, slot_setSlot_self, Nat.mod_eq_of_lt hv]
  · rw [if_neg h, slot_setSlot_ne hf hg hi hj h]

theorem slot_zeroFrame (hf : IsFrame f) (hg : IsFrame g) (hj : j < 512) :
    slot (zeroFrame m f) g j = if g = f then 0 else slot m g j := by
  unfold IsFrame pageSize at hf hg
  by_cases h : g = f
  · have hz : slot (zeroFrame m f) g j = load (fun _ => 0) (g + 8 * j) 8 := by
      apply load_congr
      intro x h1 h2
      unfold zeroFrame pageSize
      rw [if_pos (by omega)]
    rw [if_pos h, hz]
    simp [load]
  · rw [if_neg h]
    apply load_congr
    intro x h1 h2
    unfold zeroFrame pageSize
    rw [if_neg (by omega)]

/-- `m'` と `m` の違いは、`F` の frame の中だけにある。 -/
def OnlyIn (m m' : Mem) (F : Nat → Prop) : Prop := ∀ a, m' a ≠ m a → F (pageAlignDown a)

theorem OnlyIn.refl : OnlyIn m m F := fun _ h => absurd rfl h

theorem OnlyIn.trans {m'' : Mem} (h1 : OnlyIn m m' F) (h2 : OnlyIn m' m'' F) : OnlyIn m m'' F := by
  intro a ha
  by_cases h : m' a = m a
  · exact h2 a (by rwa [h])
  · exact h1 a h

theorem OnlyIn.mono {G : Nat → Prop} (h : OnlyIn m m' F) (hFG : ∀ f, F f → G f) : OnlyIn m m' G :=
  fun a ha => hFG _ (h a ha)

theorem onlyIn_setSlot (v : Nat) (hf : IsFrame f) (hi : i < 512) :
    OnlyIn m (setSlot m f i v) (· = f) := by
  intro a ha
  unfold IsFrame pageSize at hf
  unfold pageAlignDown pageSize
  by_contra hne
  exact ha (store_apply_of_not (by omega))

theorem onlyIn_zeroFrame (hf : IsFrame f) : OnlyIn m (zeroFrame m f) (· = f) := by
  intro a ha
  unfold IsFrame pageSize at hf
  unfold pageAlignDown pageSize
  by_contra hne
  apply ha
  unfold zeroFrame pageSize
  rw [if_neg (by omega)]

/-- 書き換えた frame の外の slot は変わらない。 -/
theorem OnlyIn.slot_eq (h : OnlyIn m m' F)
    (hf : IsFrame f) (hi : i < 512) (hn : ¬F f) : slot m' f i = slot m f i := by
  apply load_congr
  intro x h1 h2
  by_contra hne
  have halign : pageAlignDown x = f := by
    unfold IsFrame pageSize at hf
    unfold pageAlignDown pageSize
    omega
  exact hn (halign ▸ h x hne)

/-! ## ポインタと物理番地 -/

/-- PMM と VMM は同じ HHDM offset を使い、PMM の数は合っている。 -/
structure Ok (s : State) : Prop where
  hhdm_lt : s.hhdmOffset < 2 ^ 64
  hhdm_eq : s.pmm.hhdmOffset = s.hhdmOffset
  counted : Counted s.pmm

section

variable (hs : s.hhdmOffset < 2 ^ 64)
include hs

theorem virtToPhys_physToVirt (hp : phys < 2 ^ 64) : virtToPhys s (physToVirt s phys) = phys := by
  unfold virtToPhys physToVirt
  omega

theorem virtToPhys_index (hf : IsFrame f) (hi : i < 512) :
    virtToPhys s ((physToVirt s f + 8 * i) % 2 ^ 64) = f + 8 * i := by
  unfold IsFrame at hf
  unfold virtToPhys physToVirt
  omega

theorem readEntry_phys (hf : IsFrame f) (hi : i < 512) :
    readEntry s (physToVirt s f) i = slot s.mem f i := by
  unfold readEntry readWord slot
  rw [virtToPhys_index hs hf hi]

theorem writeEntry_phys (v : Nat) (hf : IsFrame f) (hi : i < 512) :
    writeEntry s (physToVirt s f) i v = { s with mem := setSlot s.mem f i v } := by
  unfold writeEntry writeWord setSlot
  rw [virtToPhys_index hs hf hi]

end

theorem physToVirt_inj (hf : IsFrame f) (hg : IsFrame g)
    (h : physToVirt s f = physToVirt s g) : f = g := by
  unfold physToVirt at h
  unfold IsFrame at hf hg
  omega

theorem physToVirt_congr (h : s'.hhdmOffset = s.hhdmOffset) :
    physToVirt s' phys = physToVirt s phys := by
  unfold physToVirt
  rw [h]

theorem virtToPhys_congr (h : s'.hhdmOffset = s.hhdmOffset) (virt : Nat) :
    virtToPhys s' virt = virtToPhys s virt := by
  unfold virtToPhys
  rw [h]

/-- 別の状態のポインタでも、HHDM offset が同じなら同じ slot を指す。 -/
theorem readEntry_ptr (hs : s.hhdmOffset < 2 ^ 64)
    (h : s'.hhdmOffset = s.hhdmOffset) (hf : IsFrame f) (hi : i < 512) :
    readEntry s' (physToVirt s f) i = slot s'.mem f i := by
  rw [← physToVirt_congr h, readEntry_phys (h ▸ hs) hf hi]

theorem writeEntry_ptr (s' : State) (hs : s.hhdmOffset < 2 ^ 64)
    (h : s'.hhdmOffset = s.hhdmOffset) (v : Nat) (hf : IsFrame f) (hi : i < 512) :
    writeEntry s' (physToVirt s f) i v = { s' with mem := setSlot s'.mem f i v } := by
  rw [← physToVirt_congr h, writeEntry_phys (h ▸ hs) v hf hi]

/-- directory の二つの field は、その frame の最初の二つの slot である。 -/
theorem readDir_block (hs : s.hhdmOffset < 2 ^ 64) {d : Nat} (hd : IsFrame d) :
    readDir s (.block (physToVirt s d)) = ⟨slot s.mem d 0, slot s.mem d 1⟩ := by
  have h0 : virtToPhys s (physToVirt s d) = d + 8 * 0 :=
    virtToPhys_physToVirt hs (Nat.lt_trans hd.2 (by decide))
  have h1 := virtToPhys_index hs hd (show 1 < 512 by decide)
  simp only [readDir, readWord, slot, h0]
  rw [← h1]

/-- block の番地。 -/
def blockFrame (b : Nat) : Nat := b * pageSize

theorem isFrame_blockFrame (hb : b < pmmMaxBlocks) : IsFrame (blockFrame b) := by
  have hm : pmmMaxBlocks = 2 ^ 20 := rfl
  unfold IsFrame blockFrame pageSize
  omega

theorem blockPtr_eq (ok : Ok s) (hb : b < pmmMaxBlocks) :
    blockPtr s.pmm b = physToVirt s (blockFrame b) := by
  have hm : pmmMaxBlocks = 2 ^ 20 := rfl
  unfold blockPtr physToVirt blockFrame pmmBlockToAddr pmmBlockSize pageSize
  rw [ok.hhdm_eq, Nat.mod_eq_of_lt (show b * 4096 < 2 ^ 64 by omega)]

/-! ## table の確保 -/

/-- PMM が block を取るだけで変わった。 -/
structure Grow (p q : Pmm.State) : Prop where
  counted : Counted q
  layout : SameLayout p q
  used_mono : ∀ k, test p.bitmap k = true → test q.bitmap k = true

theorem Grow.refl (hc : Counted p) : Grow p p :=
  ⟨hc, .refl p, fun _ h => h⟩

theorem Grow.trans {r : Pmm.State} (h1 : Grow p q) (h2 : Grow q r) : Grow p r :=
  ⟨h2.counted, h1.layout.trans h2.layout, fun k hk => h2.used_mono k (h1.used_mono k hk)⟩

theorem grow_take (hc : Counted p) (hb : b < p.totalBlocks)
    (hf : test p.bitmap b = false) : Grow p (incUsed (bitmapSet p b)) := by
  obtain ⟨h1, h2, h3⟩ := take_spec hc hb hf
  refine ⟨h1, h2, ?_⟩
  intro k hk
  rw [h3, hk, Bool.or_true]

theorem Ok.grow (ok : Ok s) (h : Grow s.pmm q) (m : Mem) : Ok { s with pmm := q, mem := m } :=
  ⟨ok.hhdm_lt, h.layout.hhdm_eq.trans ok.hhdm_eq, h.counted⟩

theorem Ok.setMem (ok : Ok s) (m : Mem) : Ok { s with mem := m } :=
  ⟨ok.hhdm_lt, ok.hhdm_eq, ok.counted⟩

/-- 512 個の entry に 0 を書くと、frame 全体が 0 になる。 -/
theorem zeroLoop (hs : s.hhdmOffset < 2 ^ 64) (hf : IsFrame f) :
    (List.range 512).foldl (fun s' i => writeEntry s' (physToVirt s f) i 0) s
      = { s with mem := zeroFrame s.mem f } := by
  have hloop : ∀ n, n ≤ 512 →
      (List.range n).foldl (fun s' i => writeEntry s' (physToVirt s f) i 0) s
        = { s with mem := fun a => if f ≤ a ∧ a < f + 8 * n then 0 else s.mem a } := by
    intro n
    induction n with
    | zero =>
      intro _
      have : (fun a => if f ≤ a ∧ a < f + 8 * 0 then 0 else s.mem a) = s.mem := by
        funext a
        rw [if_neg (by omega)]
      rw [this]
      rfl
    | succ n ih =>
      intro hn
      rw [List.range_succ, List.foldl_append, ih (by omega)]
      have hw := writeEntry_phys
        (s := { s with mem := fun a => if f ≤ a ∧ a < f + 8 * n then 0 else s.mem a }) hs 0 hf
        (show n < 512 by omega)
      refine hw.trans ?_
      congr 1
      funext a
      unfold setSlot store
      by_cases h : f + 8 * n ≤ a ∧ a < f + 8 * n + 8
      · rw [if_pos h, if_pos (by omega), Nat.zero_div]
        rfl
      · rw [if_neg h]
        have : (f ≤ a ∧ a < f + 8 * n) ↔ (f ≤ a ∧ a < f + 8 * (n + 1)) := by omega
        simp only [this]
  rw [hloop 512 (Nat.le_refl _)]
  rfl

/-- table の確保は、失敗して PMM だけが変わるか、空いていた frame を 0 で埋めて返すかである。 -/
theorem allocTable_cases (ok : Ok s) :
    ((pmmAllocBlock s.pmm).1 = 0 ∧ ∃ q, Grow s.pmm q ∧ allocTable s = (0, { s with pmm := q })) ∨
    ∃ b, b < s.pmm.totalBlocks ∧ test s.pmm.bitmap b = false ∧
      pmmAllocBlock s.pmm = (physToVirt s (blockFrame b), incUsed (bitmapSet s.pmm b)) ∧
      physToVirt s (blockFrame b) ≠ 0 ∧ allocTable s = (physToVirt s (blockFrame b),
        { s with pmm := incUsed (bitmapSet s.pmm b), mem := zeroFrame s.mem (blockFrame b) }) := by
  unfold allocTable
  rcases pmmAllocBlock_cases with h | ⟨b, hb, hf, h⟩
  · left
    rw [h]
    exact ⟨rfl, s.pmm, .refl ok.counted, rfl⟩
  have hmax := ok.counted.lt_max hb
  rw [h, blockPtr_eq ok hmax]
  by_cases h0 : physToVirt s (blockFrame b) = 0
  · left
    refine ⟨h0, _, grow_take ok.counted hb hf, ?_⟩
    simp only [h0, if_true]
  · right
    refine ⟨b, hb, hf, rfl, h0, ?_⟩
    simp only [if_neg h0]
    have hz := zeroLoop (s := { s with pmm := incUsed (bitmapSet s.pmm b) }) ok.hhdm_lt
      (isFrame_blockFrame hmax)
    exact congrArg _ hz

/-! ## 一段の下降 -/

/-- 既にある entry に、頼まれていれば `PAGE_USER` を足す。 -/
def markUser (m : Mem) (f i flags : Nat) : Mem :=
  if hasFlag flags pageUser then setSlot m f i (slot m f i ||| pageUser) else m

/-- 新しい table `g` を 0 で埋め、`f` の slot `i` に繋ぐ。 -/
def linkTable (m : Mem) (f i g flags : Nat) : Mem :=
  setSlot (zeroFrame m g) f i (tableEntry g flags)

theorem and_user_eq : flags &&& pageUser = if hasFlag flags pageUser then pageUser else 0 := by
  rw [pageUser, hasFlag_two_pow, Nat.one_shiftLeft, Nat.and_two_pow]
  cases flags.testBit 2 <;> simp

theorem slot_markUser (hf : IsFrame f) (hg : IsFrame g)
    (hi : i < 512) (hj : j < 512) :
    slot (markUser m f i flags) g j =
      if g = f ∧ j = i then slot m f i ||| (flags &&& pageUser) else slot m g j := by
  unfold markUser
  rw [and_user_eq]
  by_cases hu : hasFlag flags pageUser = true
  · rw [if_pos hu, if_pos hu, slot_setSlot hf hg hi hj (Nat.or_lt_two_pow slot_lt (by decide))]
  · rw [if_neg hu, if_neg hu, Nat.or_zero]
    split
    · rename_i h
      rw [h.1, h.2]
    · rfl

theorem onlyIn_markUser (flags : Nat) (hf : IsFrame f) (hi : i < 512) :
    OnlyIn m (markUser m f i flags) (· = f) := by
  unfold markUser
  split
  · exact onlyIn_setSlot _ hf hi
  · exact .refl

theorem tableEntry_lt (hg : IsFrame g) : tableEntry g flags < 2 ^ 64 := by
  have h52 : g < 2 ^ 64 := Nat.lt_trans hg.2 (by decide)
  refine Nat.or_lt_two_pow (Nat.or_lt_two_pow (Nat.or_lt_two_pow h52 (by decide)) (by decide)) ?_
  exact Nat.lt_of_le_of_lt Nat.and_le_right (by decide)

theorem slot_linkTable {h : Nat} (flags : Nat) (hf : IsFrame f) (hg : IsFrame g)
    (hh : IsFrame h) (hi : i < 512) (hj : j < 512) : slot (linkTable m f i g flags) h j =
      if h = f ∧ j = i then tableEntry g flags else if h = g then 0 else slot m h j := by
  unfold linkTable
  rw [slot_setSlot hf hh hi hj (tableEntry_lt hg), slot_zeroFrame hg hh hj]

theorem onlyIn_linkTable (flags : Nat) (hf : IsFrame f) (hg : IsFrame g)
    (hi : i < 512) : OnlyIn m (linkTable m f i g flags) (fun x => x = f ∨ x = g) :=
  ((onlyIn_zeroFrame hg).mono fun _ => Or.inr).trans ((onlyIn_setSlot _ hf hi).mono fun _ => Or.inl)

/-- 一段の下降で起こりうることのすべて。 -/
theorem getOrCreateTable_cases (ok : Ok s) (hf : IsFrame f) (hi : i < 512) :
    (hasFlag (slot s.mem f i) pagePresent = true ∧ getOrCreateTable s (physToVirt s f) i flags =
        (physToVirt s (frameOf (slot s.mem f i)), { s with mem := markUser s.mem f i flags })) ∨
    (hasFlag (slot s.mem f i) pagePresent = false ∧ (pmmAllocBlock s.pmm).1 = 0 ∧
      ∃ q, Grow s.pmm q ∧ getOrCreateTable s (physToVirt s f) i flags = (0, { s with pmm := q })) ∨
    (hasFlag (slot s.mem f i) pagePresent = false ∧
      ∃ b, b < s.pmm.totalBlocks ∧ test s.pmm.bitmap b = false ∧
        pmmAllocBlock s.pmm = (physToVirt s (blockFrame b), incUsed (bitmapSet s.pmm b)) ∧
        physToVirt s (blockFrame b) ≠ 0 ∧
        getOrCreateTable s (physToVirt s f) i flags = (physToVirt s (blockFrame b),
          { s with pmm := incUsed (bitmapSet s.pmm b),
                   mem := linkTable s.mem f i (blockFrame b) flags })) := by
  have hs := ok.hhdm_lt
  unfold getOrCreateTable
  rw [readEntry_phys hs hf hi]
  by_cases hp : hasFlag (slot s.mem f i) pagePresent = true
  · left
    refine ⟨hp, ?_⟩
    rw [if_pos hp]
    by_cases hu : hasFlag flags pageUser = true
    · have hwrite := writeEntry_phys hs (slot s.mem f i ||| pageUser) hf hi
      have hlt : slot s.mem f i ||| pageUser < 2 ^ 64 :=
        Nat.or_lt_two_pow slot_lt (by decide)
      -- `PAGE_USER` を足した entry を読み直しても、指す frame は同じである
      have hread : readEntry { s with mem := setSlot s.mem f i (slot s.mem f i ||| pageUser) }
          (physToVirt s f) i = slot s.mem f i ||| pageUser := by
        rw [readEntry_ptr hs (by rfl) hf hi, slot_setSlot_self, Nat.mod_eq_of_lt hlt]
      have hframe : frameOf (slot s.mem f i ||| pageUser) = frameOf _ :=
        frameOf_or_small (by decide)
      simp only [if_pos hu, hwrite, hread, hframe, markUser]
      exact Prod.ext (physToVirt_congr (by rfl)) rfl
    · simp only [if_neg hu, markUser, readEntry_phys hs hf hi]
  · right
    rw [if_neg hp]
    rw [Bool.not_eq_true] at hp
    rcases allocTable_cases ok with ⟨h0, q, hq, he⟩ | ⟨b, hb, ht, hal, hne, he⟩
    · left
      refine ⟨hp, h0, q, hq, ?_⟩
      rw [he]
      simp only [if_true]
    · right
      have hbf := isFrame_blockFrame (ok.counted.lt_max hb)
      have hv := virtToPhys_physToVirt hs (Nat.lt_trans hbf.2 (by decide))
      refine ⟨hp, b, hb, ht, hal, hne, ?_⟩
      rw [he]
      simp only [if_neg hne]
      rw [writeEntry_ptr _ hs (by rfl) _ hf hi, virtToPhys_congr (s := s) (by rfl), hv]
      rfl

/-! ## `vmm_map_page` の推論規則 -/

/-- `virt` の、深さ `l` での添字。 -/
def pathIndex (virt : Nat) : Nat → Nat
  | 0 => pml4Index virt
  | 1 => pdptIndex virt
  | 2 => pdIndex virt
  | _ => ptIndex virt

theorem pathIndex_lt (virt l : Nat) : pathIndex virt l < 512 := by
  unfold pathIndex
  split
  · exact pml4Index_lt virt
  · exact pdptIndex_lt virt
  · exact pdIndex_lt virt
  · exact ptIndex_lt virt

/--
一段ごとの規則。`P l f s` は「深さ `l` の table `f` に、状態 `s` で着いた」ときの不変条件、
`Q` は関数が返る状態の条件である。
-/
structure MapRule (virt flags : Nat) (P : Nat → Nat → State → Prop) (Q : State → Prop) :
    Prop where
  existing : ∀ {l f s}, l < 3 → Ok s → IsFrame f → P l f s →
    hasFlag (slot s.mem f (pathIndex virt l)) pagePresent = true →
    (physToVirt s (frameOf (slot s.mem f (pathIndex virt l))) = 0 →
      Q { s with mem := markUser s.mem f (pathIndex virt l) flags }) ∧
    (physToVirt s (frameOf (slot s.mem f (pathIndex virt l))) ≠ 0 →
      P (l + 1) (frameOf (slot s.mem f (pathIndex virt l)))
        { s with mem := markUser s.mem f (pathIndex virt l) flags })
  failed : ∀ {l f s}, l < 3 → Ok s → IsFrame f → P l f s →
    hasFlag (slot s.mem f (pathIndex virt l)) pagePresent = false →
    (pmmAllocBlock s.pmm).1 = 0 → ∀ {q}, Grow s.pmm q → Q { s with pmm := q }
  created : ∀ {l f s}, l < 3 → Ok s → IsFrame f → P l f s →
    hasFlag (slot s.mem f (pathIndex virt l)) pagePresent = false →
    ∀ {b}, b < s.pmm.totalBlocks → test s.pmm.bitmap b = false →
    pmmAllocBlock s.pmm = (physToVirt s (blockFrame b), incUsed (bitmapSet s.pmm b)) →
    physToVirt s (blockFrame b) ≠ 0 →
    P (l + 1) (blockFrame b)
      { s with pmm := incUsed (bitmapSet s.pmm b),
               mem := linkTable s.mem f (pathIndex virt l) (blockFrame b) flags }

/-- 一段の下降は、規則に従って返るか、次の table に着く。 -/
theorem MapRule.descend (rule : MapRule virt flags P Q) {l : Nat} (hl : l < 3) (ok : Ok s)
    (hf : IsFrame f) (hP : P l f s) :
    ((getOrCreateTable s (physToVirt s f) (pathIndex virt l) flags).1 = 0 ∧
      Q (getOrCreateTable s (physToVirt s f) (pathIndex virt l) flags).2) ∨
    ∃ f' s', getOrCreateTable s (physToVirt s f) (pathIndex virt l) flags
        = (physToVirt s' f', s') ∧ physToVirt s' f' ≠ 0 ∧ Ok s' ∧ IsFrame f' ∧ P (l + 1) f' s' := by
  rcases getOrCreateTable_cases ok hf (pathIndex_lt virt l) with
    ⟨hp, he⟩ | ⟨hp, h0, q, hq, he⟩ | ⟨hp, b, hb, ht, hal, hne, he⟩
  · obtain ⟨h1, h2⟩ := rule.existing hl ok hf hP hp
    rw [he]
    by_cases h0 : physToVirt s (frameOf (slot s.mem f (pathIndex virt l))) = 0
    · exact .inl ⟨h0, h1 h0⟩
    · refine .inr ⟨_, _, ?_, ?_, ok.setMem _, isFrame_frameOf _, h2 h0⟩
      · exact Prod.ext (physToVirt_congr (by rfl)).symm rfl
      · exact (physToVirt_congr (by rfl)).trans_ne h0
  · rw [he]
    exact .inl ⟨rfl, rule.failed hl ok hf hP hp h0 hq⟩
  · have hnext := rule.created hl ok hf hP hp hb ht hal hne
    have hok := ok.grow (grow_take ok.counted hb ht)
      (linkTable s.mem f (pathIndex virt l) (blockFrame b) flags)
    rw [he]
    refine .inr ⟨_, _, ?_, ?_, hok, isFrame_blockFrame (ok.counted.lt_max hb), hnext⟩
    · exact Prod.ext (physToVirt_congr (by rfl)).symm rfl
    · exact (physToVirt_congr (by rfl)).trans_ne hne

theorem vmmMapPage_rule (rule : MapRule virt flags P Q) (ok : Ok s) {root : Nat}
    (hroot : IsFrame root)
    (hcur : (readDir s s.currentDirectory).pml4 = physToVirt s root) (h0 : P 0 root s)
    (hleaf : ∀ {f s}, Ok s → IsFrame f → P 3 f s →
      Q { s with mem := setSlot s.mem f (ptIndex virt) (leafEntry (pageAlignDown phys) flags) }) :
    Q (vmmMapPage s phys virt flags) := by
  unfold vmmMapPage
  simp only [pml4Index_alignDown, pdptIndex_alignDown, pdIndex_alignDown, ptIndex_alignDown, hcur]
  rcases rule.descend (by decide) ok hroot h0 with ⟨hz, hQ⟩ | ⟨f1, s1, he1, hn1, ok1, hf1, h1⟩
  · simp only [pathIndex] at hz hQ
    rw [if_pos hz]
    exact hQ
  simp only [pathIndex] at he1
  simp only [he1, if_neg hn1]
  rcases rule.descend (by decide) ok1 hf1 h1 with ⟨hz, hQ⟩ | ⟨f2, s2, he2, hn2, ok2, hf2, h2⟩
  · simp only [pathIndex] at hz hQ
    rw [if_pos hz]
    exact hQ
  simp only [pathIndex] at he2
  simp only [he2, if_neg hn2]
  rcases rule.descend (by decide) ok2 hf2 h2 with ⟨hz, hQ⟩ | ⟨f3, s3, he3, hn3, ok3, hf3, h3⟩
  · simp only [pathIndex] at hz hQ
    rw [if_pos hz]
    exact hQ
  · simp only [pathIndex] at he3
    simp only [he3, if_neg hn3]
    rw [writeEntry_phys ok3.hhdm_lt _ hf3 (ptIndex_lt virt)]
    exact hleaf ok3 hf3 h3

end Alos.Vmm
