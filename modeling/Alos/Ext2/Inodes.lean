import Alos.Ext2.Counters

/-!
# inode の表

番号 `n` の inode の、disk での位置と読み書きである。異なる inode の 128 byte は重ならない。
-/

namespace Alos.Ext2

open Bytes

variable {x : Nat} {ino ino' : Mem}

/-! ## 位置 -/

/-- inode の置かれた block。 -/
def inodeSlot (G : Geom) (n : Nat) : Slot :=
  .inodeTable ((n - 1) / G.per .inode) ((n - 1) % G.per .inode / G.inodesPerBlock)

/-- inode の、block の中での位置。 -/
def inodeOff (G : Geom) (n : Nat) : Nat :=
  (n - 1) % G.per .inode % G.inodesPerBlock * G.inodeSize

/-- inode の disk での番地。 -/
def inodeAddr (G : Geom) (n : Nat) : Nat :=
  (inodeSlot G n).block G * G.blockSize + inodeOff G n

/-- disk にある inode。 -/
def inodeAt (G : Geom) (m : Mem) (n : Nat) : Mem := fun x => m (inodeAddr G n + x)

/-- 番号の付いた inode。 -/
def IsInode (G : Geom) (n : Nat) : Prop := 0 < n ∧ n ≤ G.inodesCount
  deriving Decidable

section Inodes

variable {G : Geom} {s : State} {m : Mem} {n n' : Nat}

/-- 一つの表の中の配置。 -/
structure Geom.Slots (G : Geom) : Prop where
  size_pos : 0 < G.blockSize
  inode_ge : inodeStructSize ≤ G.inodeSize
  inode_dvd : G.inodeSize ∣ G.blockSize
  per_pos : 0 < G.per .inode

theorem Geom.Wf.slots (wf : G.Wf) : G.Slots :=
  ⟨wf.size_pos, wf.inode_ge, wf.inode_dvd, wf.per_pos _⟩

theorem Geom.Slots.inodesPerBlock (h : G.Slots) : 0 < G.inodesPerBlock ∧
    G.inodesPerBlock * G.inodeSize = G.blockSize := by
  have hge := h.inode_ge
  have hsize : inodeStructSize = 128 := rfl
  have hle := Nat.le_of_dvd h.size_pos h.inode_dvd
  exact ⟨Nat.div_pos hle (by omega), Nat.div_mul_cancel h.inode_dvd⟩

theorem Geom.Slots.valid (h : G.Slots) (hn : IsInode G n) : (inodeSlot G n).Valid G := by
  obtain ⟨h1, h2⟩ := hn
  have hmod := Nat.mod_lt (n - 1) h.per_pos
  have hdiv := Nat.div_add_mod' (n - 1) (G.per .inode)
  refine lt_of_le_of_lt (Nat.div_mul_le_self _ _) (lt_min hmod ?_)
  show (n - 1) % G.per _ < G.inodesCount - (n - 1) / G.per _ * G.per _
  omega

theorem inodeSlot_valid (wf : G.Wf) (hn : IsInode G n) : (inodeSlot G n).Valid G :=
  wf.slots.valid hn

theorem inodeOff_le (h : G.Slots) (n : Nat) : inodeOff G n + G.inodeSize ≤ G.blockSize := by
  obtain ⟨hpos, hmul⟩ := h.inodesPerBlock
  have hlt := Nat.mod_lt ((n - 1) % G.per .inode) hpos
  calc inodeOff G n + G.inodeSize = ((n - 1) % G.per _ % G.inodesPerBlock + 1) * G.inodeSize := by
        rw [inodeOff, Nat.succ_mul]
    _ ≤ G.inodesPerBlock * G.inodeSize := Nat.mul_le_mul_right _ hlt
    _ = G.blockSize := hmul

theorem inodeOff_struct_le (h : G.Slots) (n : Nat) : inodeOff G n + inodeStructSize ≤ G.blockSize :=
  le_trans (Nat.add_le_add_left h.inode_ge _) (inodeOff_le h n)

/-- 同じ block の異なる inode は、`inode_size` 以上離れている。 -/
theorem inodeOff_apart (hn : 0 < n) (hn' : 0 < n') (hs : inodeSlot G n = inodeSlot G n')
    (hne : n ≠ n') :
    inodeOff G n + G.inodeSize ≤ inodeOff G n' ∨ inodeOff G n' + G.inodeSize ≤ inodeOff G n := by
  simp only [inodeSlot, Slot.inodeTable.injEq] at hs
  obtain ⟨hg, hj⟩ := hs
  have hr : (n - 1) % G.per .inode % G.inodesPerBlock
      ≠ (n' - 1) % G.per .inode % G.inodesPerBlock := by
    intro hmod
    apply hne
    have hidx : (n - 1) % G.per .inode = (n' - 1) % G.per .inode := by
      rw [← Nat.div_add_mod ((n - 1) % G.per _) _, hj, hmod, Nat.div_add_mod]
    have : n - 1 = n' - 1 := by
      rw [← Nat.div_add_mod (n - 1) _, hg, hidx, Nat.div_add_mod]
    omega
  unfold inodeOff
  rw [← Nat.succ_mul, ← Nat.succ_mul]
  rcases Nat.lt_or_gt_of_ne hr with h | h
  · exact .inl (Nat.mul_le_mul_right _ h)
  · exact .inr (Nat.mul_le_mul_right _ h)

theorem inodeAddr_div (wf : G.Wf) (n : Nat) (hx : x < inodeStructSize) :
    (inodeAddr G n + x) / G.blockSize = (inodeSlot G n).block G := by
  have := inodeOff_struct_le wf.slots n
  rw [inodeAddr, Nat.add_assoc]
  exact block_div wf.size_pos (by omega)

/-- 異なる inode は、block が同じなら表の同じところにあるという条件で、重ならない。 -/
theorem slots_apart (h : G.Slots) (hn : IsInode G n) (hn' : IsInode G n') (hne : n' ≠ n)
    {a a' : Nat} (hs : a' = a → inodeSlot G n' = inodeSlot G n) (hx : x < inodeStructSize) :
    a' * G.blockSize + inodeOff G n' + x < a * G.blockSize + inodeOff G n ∨
    a * G.blockSize + inodeOff G n + inodeStructSize ≤ a' * G.blockSize + inodeOff G n' + x := by
  have hge := h.inode_ge
  have hoff := inodeOff_le h n
  have hoff' := inodeOff_le h n'
  rcases Nat.lt_trichotomy a' a with hlt | rfl | hlt
  · have := Nat.mul_le_mul_right G.blockSize (show a' + 1 ≤ a from hlt)
    rw [Nat.succ_mul] at this
    omega
  · have := inodeOff_apart hn'.1 hn.1 (hs rfl) hne
    omega
  · have := Nat.mul_le_mul_right G.blockSize (show a + 1 ≤ a' from hlt)
    rw [Nat.succ_mul] at this
    omega

theorem inodeAddr_apart (wf : G.Wf) (hn : IsInode G n) (hn' : IsInode G n') (hne : n' ≠ n)
    (hx : x < inodeStructSize) :
    inodeAddr G n' + x < inodeAddr G n ∨ inodeAddr G n + inodeStructSize ≤ inodeAddr G n' + x :=
  slots_apart wf.slots hn hn' hne
    (wf.slot_inj _ _ (inodeSlot_valid wf hn') (inodeSlot_valid wf hn)) hx

/-! ## 読み書き -/

/-- 成功する読み取りは、`a` に置かれた inode の 128 byte を返す。 -/
theorem readInode_at (hio : IoOk s) (hbs : 1024 ∣ s.fs.blockSize) (hn : 0 < n) {a : Nat}
    (ha : Lands s.fs (inodeBlock s.fs n) a)
    (hoff : inodeOffset s.fs n + inodeStructSize ≤ s.fs.blockSize) :
    (s.heap 0 = none ∧ ext2ReadInode s n = (none, s.next)) ∨
    ∃ ino : Mem, ext2ReadInode s n = (some ino, s.next) ∧ ∀ x < inodeStructSize,
      ino x = s.disk (a * s.fs.blockSize + inodeOffset s.fs n + x) := by
  unfold ext2ReadInode
  rw [if_neg (by omega), kmalloc_eq]
  cases s.heap 0 with
  | none => exact .inl ⟨rfl, rfl⟩
  | some buf =>
    right
    have hread : ext2ReadBlock _ (inodeBlock s.next.fs n) buf = _ :=
      @ext2ReadBlock_ok s.next _ hio hbs a ha buf
    simp only [hread, if_true]
    refine ⟨_, rfl, ?_⟩
    intro x hx
    show blit buf 0 _ _ s.fs.blockSize (inodeOffset s.fs n + x) = _
    rw [blit_apply_of_mem (Nat.zero_le _) (by omega), Nat.sub_zero, ← Nat.add_assoc]
    rfl

theorem writeInode_at (hio : IoOk s) (hbs : 1024 ∣ s.fs.blockSize) (hn : 0 < n) {a : Nat}
    (ha : Lands s.fs (inodeBlock s.fs n) a)
    (hoff : inodeOffset s.fs n + inodeStructSize ≤ s.fs.blockSize) (ino : Mem) :
    (s.heap 0 = none ∧ ext2WriteInode s n ino = (false, s.next)) ∨
    (s.heap 0 ≠ none ∧ ext2WriteInode s n ino = (true, { s.next with
      disk := blit s.disk (a * s.fs.blockSize + inodeOffset s.fs n) ino 0 inodeStructSize })) := by
  unfold ext2WriteInode
  rw [if_neg (by omega), patchBlock_eq hio hbs ha hoff]
  cases s.heap 0 with
  | none => exact .inl ⟨rfl, rfl⟩
  | some buf => exact .inr ⟨Option.some_ne_none buf, rfl⟩

theorem inodeOffset_geom {fs : Fs} : inodeOffset fs n = inodeOff fs.geom n := rfl

theorem inodeBlock_geom {fs : Fs} :
    inodeBlock fs n = (inodeSlot fs.geom n).block fs.geom % 2 ^ 32 := rfl

section

variable (hr : Ready G s)
include hr

theorem Ready.inodeOffset_eq (n : Nat) : inodeOffset s.fs n = inodeOff G n := by
  rw [inodeOffset_geom, hr.geom]

theorem Ready.inode_le (n : Nat) : inodeOffset s.fs n + inodeStructSize ≤ s.fs.blockSize := by
  rw [hr.inodeOffset_eq, hr.size]
  exact inodeOff_struct_le hr.wf.slots n

theorem Ready.inode_lands (hn : IsInode G n) :
    Lands s.fs (inodeBlock s.fs n) ((inodeSlot G n).block G) := by
  have hlt := hr.wf.slot_lt _ (inodeSlot_valid hr.wf hn)
  have hcount := hr.wf.blocksCount_lt
  rw [inodeBlock_geom, hr.geom, Nat.mod_eq_of_lt (lt_trans (lt_trans hlt hcount) (by decide))]
  exact (hr.fits hlt).lands

theorem Ready.readInode (hn : IsInode G n) :
    (s.heap 0 = none ∧ ext2ReadInode s n = (none, s.next)) ∨
    ∃ ino : Mem, ext2ReadInode s n = (some ino, s.next) ∧
      ∀ x < inodeStructSize, ino x = inodeAt G s.disk n x := by
  have h := readInode_at hr.io hr.blockSize.dvd hn.1 (hr.inode_lands hn) (hr.inode_le n)
  rwa [hr.size, hr.inodeOffset_eq] at h

theorem Ready.writeInode (hn : IsInode G n) (ino : Mem) :
    (s.heap 0 = none ∧ ext2WriteInode s n ino = (false, s.next)) ∨
    ext2WriteInode s n ino = (true, { s.next with
      disk := blit s.disk (inodeAddr G n) ino 0 inodeStructSize }) := by
  have h := writeInode_at hr.io hr.blockSize.dvd hn.1 (hr.inode_lands hn) (hr.inode_le n) ino
  rw [hr.size, hr.inodeOffset_eq] at h
  exact h.imp_right And.right

end

/-! ## 書いた後の表 -/

theorem inodeAt_write_self (m ino : Mem) (n : Nat) (hx : x < inodeStructSize) :
    inodeAt G (blit m (inodeAddr G n) ino 0 inodeStructSize) n x = ino x := by
  unfold inodeAt
  rw [blit_apply_of_mem (by omega) (by omega), Nat.zero_add, Nat.add_sub_cancel_left]

theorem inodeAt_write_ne (wf : G.Wf) (m ino : Mem) (hn : IsInode G n) (hn' : IsInode G n')
    (hne : n' ≠ n) (hx : x < inodeStructSize) :
    inodeAt G (blit m (inodeAddr G n) ino 0 inodeStructSize) n' x = inodeAt G m n' x :=
  blit_apply_of_not (inodeAddr_apart wf hn hn' hne hx)

theorem onlyBlocks_writeInode (wf : G.Wf) (m ino : Mem) (n : Nat) :
    OnlyBlocks G.blockSize m (blit m (inodeAddr G n) ino 0 inodeStructSize)
      (· = (inodeSlot G n).block G) :=
  onlyBlocks_blit ino 0 (inodeOff_struct_le wf.slots n)

/-- inode の置かれた block の外の変化は、inode を変えない。 -/
theorem inodeAt_only {m' : Mem} {S : Nat → Prop} (wf : G.Wf)
    (ho : OnlyBlocks G.blockSize m m' S) (hS : ¬S ((inodeSlot G n).block G))
    (hx : x < inodeStructSize) : inodeAt G m' n x = inodeAt G m n x :=
  ho.apply (by rwa [inodeAddr_div wf n hx])

/-! ## 表だけの配置

表の block が LBA28 の disk の異なる block であれば、ほかの配置によらず、書いた inode が読める。 -/

/-- LBA28 の disk での block の番号。 -/
def Geom.diskBlock (G : Geom) (b : Nat) : Nat := b % (2 ^ 28 / (G.blockSize / 512))

/-- 重ならない inode の表。block の大きさは `1024 << s_log_block_size` である。 -/
structure Geom.Tables (G : Geom) : Prop where
  size : ∃ k < 22, G.blockSize = 1024 * 2 ^ k
  inode_ge : inodeStructSize ≤ G.inodeSize
  inode_dvd : G.inodeSize ∣ G.blockSize
  per_pos : 0 < G.per .inode
  disjoint : ∀ g j g' j', (Slot.inodeTable g j).Valid G → (Slot.inodeTable g' j').Valid G →
    G.diskBlock (G.inodeTable g + j) = G.diskBlock (G.inodeTable g' + j') → g = g' ∧ j = j'

/-- inode の、LBA28 の disk での番地。 -/
def slotAddr (G : Geom) (n : Nat) : Nat :=
  G.diskBlock ((inodeSlot G n).block G) * G.blockSize + inodeOff G n

/-- inode `n` を読むと `ino` の 128 byte が得られる。`kmalloc` が失敗したときだけ何も得られない。 -/
def Reads (s : State) (n : Nat) (ino : Mem) : Prop :=
  (s.heap 0 = none ∧ (ext2ReadInode s n).1 = none) ∨
    ∃ ino', (ext2ReadInode s n).1 = some ino' ∧ ∀ x < inodeStructSize, ino' x = ino x

theorem Reads.congr (h : Reads s n ino)
    (he : ∀ x < inodeStructSize, ino x = ino' x) : Reads s n ino' := by
  refine h.imp_right ?_
  rintro ⟨y, hy, hino⟩
  exact ⟨y, hy, fun x hx => (hino x hx).trans (he x hx)⟩

theorem Geom.Tables.slots (h : G.Tables) : G.Slots := by
  obtain ⟨k, -, hk⟩ := h.size
  exact ⟨by have := Nat.two_pow_pos k; omega, h.inode_ge, h.inode_dvd, h.per_pos⟩

/-- block の大きさは sector の二の冪倍なので、LBA28 の折り返しは block の境界で起こる。 -/
theorem Geom.Tables.lands (h : s.fs.geom.Tables) (n : Nat) : Lands s.fs (inodeBlock s.fs n)
    (s.fs.geom.diskBlock ((inodeSlot s.fs.geom n).block s.fs.geom)) := by
  obtain ⟨k, hlt, hk⟩ := h.size
  change s.fs.blockSize = _ at hk
  have hspb : s.fs.blockSize / 512 = 2 ^ (k + 1) := by
    omega
  have hsplit : 2 ^ 28 = 2 ^ (27 - k) * 2 ^ (k + 1) := by
    rw [← pow_add]
    congr 1
    omega
  have hdvd : 2 ^ (27 - k) ∣ 2 ^ 32 := pow_dvd_pow 2 (by omega)
  have hdisk : ∀ b, s.fs.geom.diskBlock b = b % 2 ^ (27 - k) := by
    intro b
    show b % (2 ^ 28 / (s.fs.blockSize / 512)) = _
    rw [hspb, hsplit, Nat.mul_div_cancel _ (Nat.two_pow_pos _)]
  intro i hi
  rw [hspb] at hi ⊢
  rw [hdisk, ← Nat.mod_mod_of_dvd _ hdvd, ← inodeBlock_geom, hsplit, Nat.mul_comm (2 ^ (27 - k)),
    Nat.mod_mul, Nat.mul_add_mod_self_right, Nat.mod_eq_of_lt hi, block_div (Nat.two_pow_pos _) hi,
    Nat.add_comm, Nat.mul_comm]

/--
**書いた inode は読め、ほかの inode と、構造体の後の byte は変わらない。**

`kmalloc` が失敗すれば、何も書かずに失敗する。
-/
theorem writeInode_readInode (hio : IoOk s) (ht : s.fs.geom.Tables) {i : Nat}
    (hi : IsInode s.fs.geom i) (x : Mem) :
    (s.heap 0 = none ∧ ext2WriteInode s i x = (false, s.next)) ∨
    (s.heap 0 ≠ none ∧ ∃ s', ext2WriteInode s i x = (true, s') ∧ Reads s' i x ∧
      (∀ j, IsInode s.fs.geom j → j ≠ i → ∃ y, Reads s j y ∧ Reads s' j y) ∧
      ∀ b, inodeStructSize ≤ b → b < s.fs.inodeSize →
        s'.disk (slotAddr s.fs.geom i + b) = s.disk (slotAddr s.fs.geom i + b)) := by
  have hbs : 1024 ∣ s.fs.blockSize := by
    obtain ⟨k, -, hk⟩ := ht.size
    exact ⟨2 ^ k, hk⟩
  have hoff := inodeOff_struct_le ht.slots
  -- 読めるのは、いつもその番地の 128 byte である
  have hreads : ∀ t : State, IoOk t → t.fs = s.fs → ∀ j, 0 < j →
      Reads t j fun b => t.disk (slotAddr s.fs.geom j + b) := by
    intro t hio' hfs j hj
    rcases readInode_at (s := t) hio' (hfs ▸ hbs) hj (hfs ▸ ht.lands j) (hfs ▸ hoff j) with
      ⟨h0, h⟩ | ⟨y, h, hy⟩
    · exact .inl ⟨h0, congrArg _ h⟩
    · exact .inr ⟨y, congrArg _ h, hfs ▸ hy⟩
  refine (writeInode_at hio hbs hi.1 (ht.lands i) (hoff i) x).imp_right ?_
  rintro ⟨h0, hw⟩
  have hafter := hreads
    { s.next with disk := blit s.disk (slotAddr s.fs.geom i) x 0 inodeStructSize } hio rfl
  refine ⟨h0, _, hw, (hafter i hi.1).congr fun b hb => ?_, ?_, ?_⟩
  · exact (blit_apply_of_mem (Nat.le_add_right _ _) (by omega)).trans (congrArg x (by omega))
  · intro j hj hne
    refine ⟨_, hreads s hio rfl j hj.1, (hafter j hj.1).congr fun b hb => blit_apply_of_not ?_⟩
    refine slots_apart ht.slots hi hj hne ?_ hb
    intro hdisk
    obtain ⟨hg, hb⟩ := ht.disjoint _ _ _ _ (ht.slots.valid hj) (ht.slots.valid hi) hdisk
    exact congrArg₂ Slot.inodeTable hg hb
  · intro b hb _
    exact blit_apply_of_not (.inr (Nat.add_le_add_left hb _))

/-- block 5 に八つの inode の表がある image。 -/
def tableFs : Fs where
  superblock := store (fun _ => 0) 0 4 8
  groupDescs := store (fun _ => 0) 8 4 5
  blockSize := 1024
  inodesPerGroup := 8
  blocksPerGroup := 64
  numGroups := 1
  inodeSize := 128

theorem writeInode_readInode_table : ∃ s', ext2WriteInode
    ⟨fun _ => 0, tableFs, fun _ => true, fun _ => some fun _ => 0⟩ 3 (fun _ => 7) = (true, s') ∧
    Reads s' 3 fun _ => 7 := by
  have ht : tableFs.geom.Tables := by
    refine ⟨⟨0, by decide, rfl⟩, by decide, by decide, by decide, ?_⟩
    intro g j g' j' h h' _
    change j * 8 < min 8 (8 - g * 8) at h
    change j' * 8 < min 8 (8 - g' * 8) at h'
    omega
  rcases writeInode_readInode (s := ⟨fun _ => 0, tableFs, fun _ => true, fun _ => some fun _ => 0⟩)
    (fun _ => rfl) ht (i := 3) (by decide) (fun _ => 7) with ⟨h, -⟩ | ⟨-, s', hw, hr, -⟩
  · cases h
  · exact ⟨s', hw, hr⟩

/-! ## `i_block` -/

/-- disk にある inode の `i_block[k]`。 -/
def rootAt (G : Geom) (m : Mem) (n k : Nat) : Nat := iBlock (inodeAt G m n) k

section

variable (h : ∀ y < inodeStructSize, ino' y = ino y)
include h

theorem iMode_congr :
    iMode ino' = iMode ino := load_congr fun y _ hy => h y (by unfold inodeStructSize; omega)

theorem iSize_congr :
    iSize ino' = iSize ino := load_congr fun y _ hy => h y (by unfold inodeStructSize; omega)

theorem iLinksCount_congr : iLinksCount ino' = iLinksCount ino :=
  load_congr fun y _ hy => h y (by unfold inodeStructSize; omega)

end

theorem iBlock_congr {a b : Mem} (h : ∀ x < inodeStructSize, a x = b x) {k : Nat} (hk : k < 14) :
    iBlock a k = iBlock b k := by
  apply load_congr
  intro x _ hx
  exact h x (by simp only [inodeStructSize]; omega)

end Inodes

end Alos.Ext2
