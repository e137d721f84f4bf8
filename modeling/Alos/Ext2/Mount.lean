import Alos.Ext2.Io

/-!
# mount（`fs/ext2.c` の `ext2_mount`）

superblock の値は、検査されないまま除数、shift の量、descriptor の添字になる。
そこで起こる不正な演算を `Fault` とする。

* `mountRead_safe_iff` — mount と inode の読み出しが不正な演算に至らない条件
-/

namespace Alos.Ext2

open Bytes

variable {a k r : Nat} {fs : Fs}

inductive Fault where
  | divideByZero
  | shift
  /-- `group_descs` の終わりの外。 -/
  | descriptor
  deriving DecidableEq

def udiv (a b : Nat) : Except Fault Nat := if b = 0 then .error .divideByZero else .ok (a / b)

def shl (a k : Nat) : Except Fault Nat := if k < 32 then .ok (a * 2 ^ k % 2 ^ 32) else .error .shift

def index (i len : Nat) : Except Fault Unit := if i < len then .ok () else .error .descriptor

/-- 1024 byte 目からの superblock。読めないか、magic number が違えば `none` である。 -/
def readSuperblock (s : State) : Option Mem × State :=
  match kmalloc s with
  | (none, s) => (none, s)
  | (some _, s) =>
    match kmalloc s with
    | (none, s) => (none, s)
    | (some sb, s) =>
      let (ok, sb, s) := readSectors 2 0 2 s sb
      -- 0 で埋めた構造体に写す
      let superblock := blit (fun _ => 0) 0 sb 0 1024
      if ok ∧ sMagic superblock = ext2Magic then (some superblock, s) else (none, s)

/-- superblock から計算する field と、descriptor の表の block の数。 -/
def geometry (sb : Mem) : Except Fault (Fs × Nat) := do
  let blockSize ← shl 1024 (sLogBlockSize sb)
  let numGroups ← udiv ((sBlocksCount sb + sBlocksPerGroup sb - 1) % 2 ^ 32) (sBlocksPerGroup sb)
  let inodeSize := if sRevLevel sb = 0 then 128 else sInodeSize sb
  let gdtSize := numGroups * groupDescSize % 2 ^ 32
  let gdtBlocks ← udiv ((gdtSize + blockSize - 1) % 2 ^ 32) blockSize
  return (⟨sb, fun _ => 0, blockSize, sInodesPerGroup sb, sBlocksPerGroup sb, numGroups, inodeSize⟩,
    gdtBlocks)

/-- `group_descs` に、表の block を順に読む。 -/
def readTable : Nat → Nat → State → Bool × State
  | _, 0, s => (true, s)
  | i, n + 1, s =>
    let off := i * s.fs.blockSize % 2 ^ 32
    let (ok, block, s) := ext2ReadBlock s ((gdtBlock s.fs + i) % 2 ^ 32) fun x =>
      s.fs.groupDescs (off + x)
    if ok then
      readTable (i + 1) n
        { s with fs := { s.fs with groupDescs := blit s.fs.groupDescs off block 0 s.fs.blockSize } }
    else (false, s)

/-- 成功すれば、`group_descs` の byte の数を返す。0 byte の `kmalloc` は NULL を返す。 -/
def ext2Mount (s : State) : Except Fault (Option Nat × State) :=
  match readSuperblock s with
  | (none, s) => .ok (none, s)
  | (some sb, s) => (geometry sb).map fun (fs, gdtBlocks) =>
    let size := gdtBlocks * fs.blockSize % 2 ^ 32
    match if size = 0 then (none, s) else kmalloc s with
    | (none, s) => (none, s)
    | (some groupDescs, s) =>
      let (ok, s) := readTable 0 gdtBlocks { s with fs := { fs with groupDescs := groupDescs } }
      if ok then
        let s := { s with fs := { s.fs with superblock := setSState sb ext2ErrorFs } }
        (some size, (ext2WriteSuperblock s).2)
      else (none, s)

/-- `ext2_read_inode` の除算と、長さ `len` の `group_descs` の添字。 -/
def inodeFault (fs : Fs) (len inodeNum : Nat) : Except Fault Nat := do
  let group ← udiv (inodeNum - 1) fs.inodesPerGroup
  let _ ← index group len
  let inodesPerBlock ← udiv fs.blockSize fs.inodeSize
  udiv ((inodeNum - 1) % fs.inodesPerGroup) inodesPerBlock

/-- mount して、inode を一つ読む。 -/
def mountRead (s : State) (inodeNum : Nat) : Except Fault (Option Mem × State) := do
  match ← ext2Mount s with
  | (none, s) => .ok (none, s)
  | (some size, s) =>
    if inodeNum = 0 then .ok (none, s)
    else (inodeFault s.fs (size / groupDescSize) inodeNum).map fun _ => ext2ReadInode s inodeNum

/-! ## 条件 -/

/-- disk の superblock。 -/
def superblockAt (disk : Mem) : Mem := blit (fun _ => 0) 0 disk 1024 1024

/-- `group_descs` の byte の数。 -/
def tableBytes (sb : Mem) : Nat :=
  let blockSize := 1024 * 2 ^ sLogBlockSize sb
  let numGroups := (sBlocksCount sb + sBlocksPerGroup sb - 1) % 2 ^ 32 / sBlocksPerGroup sb
  (numGroups * groupDescSize % 2 ^ 32 + blockSize - 1) % 2 ^ 32 / blockSize * blockSize % 2 ^ 32

/-- block の大きさは 32 bit に収まり、group の数え方に 0 の除数がない。 -/
def Divides (sb : Mem) : Prop := sLogBlockSize sb < 22 ∧ sBlocksPerGroup sb ≠ 0

def inodeSizeOf (sb : Mem) : Nat := if sRevLevel sb = 0 then 128 else sInodeSize sb

/-- 表が空で mount できないか、inode `n` の group には descriptor があり、block には inode が入る。 -/
def Admits (sb : Mem) (n : Nat) : Prop :=
  Divides sb ∧ (n ≠ 0 → tableBytes sb = 0 ∨ sInodesPerGroup sb ≠ 0 ∧
    (n - 1) / sInodesPerGroup sb < tableBytes sb / groupDescSize ∧
    inodeSizeOf sb ≠ 0 ∧ inodeSizeOf sb ≤ 1024 * 2 ^ sLogBlockSize sb)

/-- `fs` の大きさの field は、superblock `sb` のものである。 -/
structure Sized (sb : Mem) (fs : Fs) : Prop where
  blockSize : fs.blockSize = 1024 * 2 ^ sLogBlockSize sb
  perGroup : fs.inodesPerGroup = sInodesPerGroup sb
  inodeSize : fs.inodeSize = inodeSizeOf sb

variable {s : State} {sb : Mem} {n : Nat}

theorem readSuperblock_spec : ∃ r s', readSuperblock s = (r, s') ∧
    (∀ sb, r = some sb → sb = superblockAt s.disk ∧ sMagic sb = ext2Magic) ∧
    (IoOk s → HeapOk s → IoOk s' ∧ HeapOk s' ∧
      (sMagic (superblockAt s.disk) = ext2Magic → r ≠ none)) := by
  unfold readSuperblock
  rw [kmalloc_eq]
  cases h0 : s.heap 0 with
  | none => exact ⟨none, _, rfl, by simp, fun _ hok => absurd h0 hok.head_ne_none⟩
  | some buf =>
    simp only [kmalloc_eq]
    cases h1 : s.next.heap 0 with
    | none => exact ⟨none, _, rfl, by simp, fun _ hok => absurd h1 hok.next.head_ne_none⟩
    | some buf' =>
      obtain ⟨ok, sb, s', hread, -, -, hbuf, hok⟩ := readSectors_spec 2 2 0 s.next.next buf'
      have hcopy : ok = true → blit (fun _ => 0) 0 sb 0 1024 = superblockAt s.disk := by
        intro h
        rw [hbuf h]
        funext x
        by_cases hx : 0 ≤ x ∧ x < 0 + 1024
        · rw [superblockAt, blit_apply_of_mem hx.1 hx.2, blit_apply_of_mem hx.1 hx.2,
            blit_apply_of_mem (Nat.zero_le _) (by omega)]
          refine (@sectorByte_eq _ 2 2 _ ?_).trans ?_
          · omega
          · exact congrArg _ (by omega)
        · rw [superblockAt, blit_apply_of_not (by omega), blit_apply_of_not (by omega)]
      simp only [hread]
      by_cases h : ok = true ∧ sMagic (blit (fun _ => 0) 0 sb 0 1024) = ext2Magic
      · rw [if_pos h]
        refine ⟨_, s', rfl, fun sb' he => ?_, fun hio hheap => ?_⟩
        · cases he
          exact ⟨hcopy h.1, h.2⟩
        · rw [(hok hio).2]
          exact ⟨hio, hheap.next.next, by simp⟩
      · rw [if_neg h]
        refine ⟨none, s', rfl, by simp, fun hio hheap => ?_⟩
        obtain ⟨htrue, rfl⟩ := hok hio
        exact ⟨hio, hheap.next.next, fun hm => absurd ⟨htrue, by rwa [hcopy htrue]⟩ h⟩

theorem readTable_spec : ∀ (n i : Nat) (s : State), ∃ ok s' gd, readTable i n s = (ok, s') ∧
    s'.fs = { s.fs with groupDescs := gd } ∧ (IoOk s → ok = true) := by
  intro n
  induction n with
  | zero => exact fun i s => ⟨true, s, s.fs.groupDescs, rfl, rfl, fun _ => rfl⟩
  | succ n ih =>
    intro i s
    simp only [readTable, ext2ReadBlock]
    obtain ⟨ok, block, s1, hread, hfs, -, -, hok⟩ := readSectors_spec
      ((gdtBlock s.fs + i) % 2 ^ 32 * (s.fs.blockSize / 512) % 2 ^ 32) (s.fs.blockSize / 512) 0 s
      fun x => s.fs.groupDescs (i * s.fs.blockSize % 2 ^ 32 + x)
    simp only [hread]
    cases ok with
    | false => exact ⟨false, s1, s.fs.groupDescs, rfl, hfs, fun hio => (hok hio).1⟩
    | true =>
      obtain ⟨ok, s', gd, hrest, hfs', hok'⟩ := ih _ ⟨s1.disk, { s1.fs with
        groupDescs := blit _ _ _ 0 _ },
        s1.io, s1.heap⟩
      simp only [hfs] at hfs'
      refine ⟨ok, s', gd, hrest, hfs', fun hio => hok' ?_⟩
      rw [(hok hio).2]
      exact hio

theorem writeSectors_fs {lba : Nat} {buf : Mem} : ∀ (n i : Nat) (s : State),
    (writeSectors lba buf i n s).2.fs = s.fs := by
  intro n
  induction n with
  | zero => exact fun i s => rfl
  | succ n ih =>
    intro i s
    simp only [writeSectors, ataWriteSector]
    by_cases hio : s.io 0 = true
    · simp only [hio, if_true, ih]
    · simp only [if_neg hio, Bool.false_eq_true, if_false]

theorem bind_eq_ok {α β : Type} {x : Except Fault α} {f : α → Except Fault β} {b : β} :
    (x >>= f) = .ok b ↔ ∃ a, x = .ok a ∧ f a = .ok b := by
  cases x with
  | error e => simp [bind, Except.bind]
  | ok a => simp [bind, Except.bind]

theorem udiv_eq_ok {b q : Nat} : udiv a b = .ok q ↔ b ≠ 0 ∧ a / b = q := by
  unfold udiv
  split <;> simp_all

theorem shl_eq_ok : shl a k = .ok r ↔ k < 32 ∧ a * 2 ^ k % 2 ^ 32 = r := by
  unfold shl
  split <;> simp_all

theorem index_eq_ok {i len : Nat} {u : Unit} : index i len = .ok u ↔ i < len := by
  unfold index
  split <;> simp_all

theorem shl_blockSize : shl 1024 k = .ok r ∧ r ≠ 0 ↔ k < 22 ∧ r = 1024 * 2 ^ k := by
  rw [shl_eq_ok]
  by_cases hk : k < 22
  · have hle : 2 ^ k ≤ 2 ^ 21 := Nat.pow_le_pow_right (by decide) (by omega)
    have hpos : 0 < 2 ^ k := Nat.two_pow_pos k
    omega
  · obtain ⟨j, rfl⟩ := Nat.exists_eq_add_of_le (Nat.le_of_not_lt hk)
    have : 1024 * 2 ^ (22 + j) % 2 ^ 32 = 0 := by
      rw [Nat.pow_add, ← Nat.mul_assoc]
      exact Nat.mul_mod_right _ _
    omega

theorem geometry_eq_ok (h : geometry sb = .ok (fs, k)) :
    Divides sb ∧ k * fs.blockSize % 2 ^ 32 = tableBytes sb ∧ Sized sb fs := by
  simp only [geometry, bind_eq_ok, udiv_eq_ok] at h
  obtain ⟨bs, hbs, ng, ⟨hb, rfl⟩, k', ⟨h0, rfl⟩, he⟩ := h
  obtain ⟨hlog, rfl⟩ := shl_blockSize.mp ⟨hbs, h0⟩
  cases he
  exact ⟨⟨hlog, hb⟩, rfl, rfl, rfl, rfl⟩

theorem geometry_ok (h : Divides sb) : ∃ r, geometry sb = .ok r := by
  obtain ⟨hbs, h0⟩ := shl_blockSize.mpr ⟨h.1, rfl⟩
  simp only [geometry, bind_eq_ok, udiv_eq_ok]
  exact ⟨_, _, hbs, _, ⟨h.2, rfl⟩, _, ⟨h0, rfl⟩, rfl⟩

theorem Sized.fault_iff (h : Sized sb fs) :
    (∃ r, inodeFault fs (tableBytes sb / groupDescSize) n = .ok r) ↔ sInodesPerGroup sb ≠ 0 ∧
      (n - 1) / sInodesPerGroup sb < tableBytes sb / groupDescSize ∧
      inodeSizeOf sb ≠ 0 ∧ inodeSizeOf sb ≤ 1024 * 2 ^ sLogBlockSize sb := by
  simp only [inodeFault, bind_eq_ok, udiv_eq_ok, index_eq_ok, h.blockSize, h.perGroup, h.inodeSize]
  constructor
  · rintro ⟨-, -, ⟨hper, rfl⟩, -, hindex, -, ⟨hsize, rfl⟩, hfits, -⟩
    exact ⟨hper, hindex, hsize, (Nat.div_ne_zero_iff.mp hfits).2⟩
  · rintro ⟨hper, hindex, hsize, hfits⟩
    exact ⟨_, _, ⟨hper, rfl⟩, (), hindex, _, ⟨hsize, rfl⟩, Nat.div_ne_zero_iff.mpr ⟨hsize, hfits⟩,
      rfl⟩

/-- mount の結果は、superblock の値で決まる。 -/
theorem ext2Mount_spec (s : State) (hsb : superblockAt s.disk = sb) :
    (∃ s', ext2Mount s = .ok (none, s') ∧ (IoOk s → HeapOk s → sMagic sb = ext2Magic →
      Divides sb ∧ tableBytes sb = 0)) ∨
    sMagic sb = ext2Magic ∧ ((∃ e, ext2Mount s = .error e) ∧ ¬Divides sb ∨
      Divides sb ∧ tableBytes sb ≠ 0 ∧
        ∃ s', ext2Mount s = .ok (some (tableBytes sb), s') ∧ Sized sb s'.fs) := by
  obtain ⟨r, s1, hsuper, hsome, hok⟩ := readSuperblock_spec
  rw [hsb] at hsome hok
  unfold ext2Mount
  rw [hsuper]
  cases r with
  | none => exact .inl ⟨s1, rfl, fun hio hheap hm => absurd rfl ((hok hio hheap).2.2 hm)⟩
  | some sb' =>
    obtain ⟨rfl, hmagic⟩ := hsome sb' rfl
    simp only
    cases hg : geometry sb' with
    | error e =>
      refine .inr ⟨hmagic, .inl ⟨⟨e, rfl⟩, fun hd => ?_⟩⟩
      obtain ⟨r, hr⟩ := geometry_ok hd
      cases hg.symm.trans hr
    | ok r =>
      obtain ⟨fs, k⟩ := r
      obtain ⟨hd, htable, hsized⟩ := geometry_eq_ok hg
      simp only [Except.map, kmalloc_eq, htable]
      by_cases hempty : tableBytes sb' = 0
      · exact .inl ⟨s1, by rw [if_pos hempty], fun _ _ _ => ⟨hd, hempty⟩⟩
      rw [if_neg hempty]
      cases h0 : s1.heap 0 with
      | none => exact .inl ⟨_, rfl, fun hio hheap => absurd h0 (hok hio hheap).2.1.head_ne_none⟩
      | some gd =>
        obtain ⟨ok, s2, gd', htab, hfs, htrue⟩ := readTable_spec k 0
          { s1.next with fs := { fs with groupDescs := gd } }
        simp only [htab]
        cases ok with
        | false => exact .inl ⟨_, rfl, fun hio hheap =>
          absurd (htrue (hok hio hheap).1) (by decide)⟩
        | true =>
          refine .inr ⟨hmagic, .inr ⟨hd, hempty, _, by rw [if_pos rfl], ?_⟩⟩
          simp only [ext2WriteSuperblock, writeSectors_fs, hfs]
          exact ⟨hsized.blockSize, hsized.perGroup, hsized.inodeSize⟩

/-- **mount と inode `n` の読み出しが不正な演算に至らないのは、superblock の値が条件を満たすときだけである。** -/
theorem mountRead_safe_iff (disk : Mem) (n : Nat) :
    (∀ s : State, s.disk = disk → ∃ r, mountRead s n = .ok r) ↔
    (sMagic (superblockAt disk) = ext2Magic → Admits (superblockAt disk) n) := by
  constructor
  · intro h hmagic
    obtain ⟨r, hr⟩ := h ⟨disk, ⟨disk, disk, 0, 0, 0, 0, 0⟩, fun _ => true, fun _ => some disk⟩ rfl
    obtain ⟨m, hmount, hr⟩ := bind_eq_ok.mp hr
    rcases ext2Mount_spec ⟨disk, _, fun _ => true, fun _ => some disk⟩ rfl with
      ⟨-, -, hempty⟩ | ⟨-, ⟨⟨e, he⟩, -⟩ | ⟨hd, -, s', he, hsized⟩⟩
    · obtain ⟨hd, hzero⟩ := hempty (fun _ => rfl) (fun _ => ⟨_, rfl⟩) hmagic
      exact ⟨hd, fun _ => .inl hzero⟩
    · cases hmount.symm.trans he
    cases hmount.symm.trans he
    refine ⟨hd, fun hn => .inr (hsized.fault_iff.mp ?_)⟩
    simp only [if_neg hn] at hr
    cases hf : inodeFault _ _ n with
    | error e =>
      rw [hf] at hr
      cases hr
    | ok m => exact ⟨m, rfl⟩
  · rintro h s rfl
    unfold mountRead
    rcases ext2Mount_spec s rfl with ⟨s', he, -⟩ | ⟨hmagic, ⟨-, hno⟩ | ⟨-, hne, s', he, hsized⟩⟩
    · exact ⟨(none, s'), by rw [he]; rfl⟩
    · exact absurd (h hmagic).1 hno
    · rw [he]
      by_cases hn : n = 0
      · exact ⟨(none, s'), by rw [hn]; rfl⟩
      · obtain ⟨m, hm⟩ := hsized.fault_iff.mpr (((h hmagic).2 hn).resolve_left hne)
        refine ⟨ext2ReadInode s' n, bind_eq_ok.mpr ⟨_, rfl, ?_⟩⟩
        simp only [if_neg hn, hm]
        rfl

/-- group が一つの、空の image の superblock。 -/
def plainDisk : Mem :=
  store (store (store (store (fun _ => 0) 1028 4 8192) 1056 4 8192) 1064 4 2048) 1080 2 ext2Magic

/-- directory にある番号は検査されないので、その group に descriptor がないことがある。 -/
theorem mountRead_descriptor :
    mountRead ⟨plainDisk, ⟨plainDisk, plainDisk, 0, 0, 0, 0, 0⟩, fun _ => true,
      fun _ => some plainDisk⟩ 0xFFFFFFFF = .error .descriptor := by
  rfl

end Alos.Ext2
