import Alos.Ext2.File
import Alos.Lib.Blocks

/-!
# I/O error のない disk

どの転送も成功するとき、低水準の関数は disk の byte の書き換えそのものである。
sector ごとのループはここで消え、ここから先は block の上で考える。
-/

namespace Alos.Ext2

open Bytes

variable {s : State} {b : Nat}

/-! ## oracle -/

/-- これからの転送はすべて成功する。 -/
def IoOk (s : State) : Prop := ∀ n, s.io n = true

/-- これからの `kmalloc` はすべて成功する。 -/
def HeapOk (s : State) : Prop := ∀ n, ∃ buf, s.heap n = some buf

/-- `kmalloc` を一度呼んだ後の状態。 -/
def State.next (s : State) : State := { s with heap := fun n => s.heap (n + 1) }

theorem kmalloc_eq : kmalloc s = (s.heap 0, s.next) := rfl

theorem HeapOk.next (h : HeapOk s) : HeapOk s.next := fun n => h (n + 1)

theorem HeapOk.head (h : HeapOk s) : ∃ buf, s.heap 0 = some buf := h 0

theorem HeapOk.head_ne_none (h : HeapOk s) : s.heap 0 ≠ none :=
  Option.ne_none_iff_exists'.mpr h.head

theorem IoOk.shift (h : IoOk s) : (fun n => s.io (n + 1)) = s.io := by
  funext n
  rw [h, h]

/-! ## sector -/

theorem ataWriteSector_ok (h : IoOk s) (lba : Nat) (buf : Mem) (off : Nat) :
    ataWriteSector s lba buf off
      = (true, { s with disk := blit s.disk (sectorAddr lba) buf off 512 }) := by
  unfold ataWriteSector
  rw [h.shift, if_pos (h 0)]

/-- `lba` から続く sector の `x` 番目の byte。 -/
def sectorByte (m : Mem) (lba x : Nat) : UInt8 :=
  m (sectorAddr ((lba + x / 512) % 2 ^ 32) + x % 512)

theorem sectorByte_eq {m : Mem} {lba a x : Nat} (h : (lba + x / 512) % 2 ^ 28 = a + x / 512) :
    sectorByte m (lba % 2 ^ 32) x = m (a * 512 + x) := by
  unfold sectorByte sectorAddr
  rw [show (lba % 2 ^ 32 + x / 512) % 2 ^ 32 % 2 ^ 28 = a + x / 512 by omega,
    show (a + x / 512) * 512 + x % 512 = a * 512 + x by omega]

/-- 読み出しは field を変えず、成功すれば buffer に sector の列を置く。 -/
theorem readSectors_spec (lba : Nat) : ∀ (n i : Nat) (s : State) (buf : Mem),
    ∃ ok buf' s', readSectors lba i n s buf = (ok, buf', s') ∧ s'.fs = s.fs ∧ s'.heap = s.heap ∧
      (ok = true → buf' = blit buf (i * 512) (sectorByte s.disk lba) (i * 512) (n * 512)) ∧
      (IoOk s → ok = true ∧ s' = s) := by
  intro n
  induction n with
  | zero =>
    intro i s buf
    refine ⟨true, buf, s, rfl, rfl, rfl, fun _ => ?_, fun _ => ⟨rfl, rfl⟩⟩
    funext x
    exact (blit_apply_of_not (by omega)).symm
  | succ n ih =>
    intro i s buf
    simp only [readSectors, ataReadSector]
    by_cases hio : s.io 0 = true
    · simp only [hio, if_true]
      obtain ⟨ok, buf', s', hrest, hfs, hheap, hbuf, hok⟩ := ih _ _ _
      refine ⟨ok, buf', s', hrest, hfs, hheap, fun h => ?_, fun h => ?_⟩
      · rw [hbuf h]
        funext x
        by_cases h1 : i * 512 ≤ x ∧ x < i * 512 + 512
        · rw [blit_apply_of_not (by omega), blit_apply_of_mem h1.1 h1.2,
            blit_apply_of_mem h1.1 (by omega), sectorByte,
            show i * 512 + (x - i * 512) = x by omega, show x / 512 = i by omega,
            show x % 512 = x - i * 512 by omega]
        · by_cases h2 : (i + 1) * 512 ≤ x ∧ x < (i + 1) * 512 + n * 512
          · rw [blit_apply_of_mem h2.1 h2.2, blit_apply_of_mem (by omega) (by omega)]
            exact congrArg _ (by omega)
          · rw [blit_apply_of_not (by omega), blit_apply_of_not (by omega),
              blit_apply_of_not (by omega)]
      · rw [h.shift] at hok
        exact hok h
    · simp only [if_neg hio]
      exact ⟨false, buf, _, rfl, rfl, rfl, fun h => absurd h (by decide), fun h => absurd (h 0) hio⟩

theorem readSectors_ok (h : IoOk s) (lba n i : Nat) (buf : Mem) : readSectors lba i n s buf =
    (true, blit buf (i * 512) (sectorByte s.disk lba) (i * 512) (n * 512), s) := by
  obtain ⟨ok, buf', s', hread, -, -, hbuf, hok⟩ := readSectors_spec lba n i s buf
  obtain ⟨rfl, rfl⟩ := hok h
  rw [hread, hbuf rfl]

/-- `lba` から続く sector が、disk の sector `a` から続いていれば、書いた列もそこに続く。 -/
theorem writeSectors_ok (h : IoOk s) {lba a : Nat} {buf : Mem} :
    ∀ n i m, (∀ j, i ≤ j → j < i + n → (lba + j) % 2 ^ 28 = a + j) →
      writeSectors lba buf i n { s with disk := m } =
        (true, { s with disk := blit m ((a + i) * 512) buf (i * 512) (n * 512) }) := by
  intro n
  induction n with
  | zero =>
    intro i m _
    have hb : blit m ((a + i) * 512) buf (i * 512) (0 * 512) = m := by
      funext x
      exact blit_apply_of_not (by omega)
    rw [hb]
    rfl
  | succ n ih =>
    intro i m ha
    have haddr : sectorAddr ((lba + i) % 2 ^ 32) = (a + i) * 512 := by
      have := ha i (Nat.le_refl i) (by omega)
      unfold sectorAddr
      omega
    have hw := ataWriteSector_ok (s := { s with disk := m }) h ((lba + i) % 2 ^ 32) buf (i * 512)
    simp only [writeSectors, hw, if_true, haddr]
    rw [ih _ _ fun j h1 h2 => ha j (by omega) (by omega)]
    refine congrArg (fun m => (true, { s with disk := m })) ?_
    funext x
    by_cases h1 : (a + i) * 512 ≤ x ∧ x < (a + i) * 512 + 512
    · rw [blit_apply_of_not (by omega), blit_apply_of_mem h1.1 h1.2,
        blit_apply_of_mem h1.1 (by omega)]
    · by_cases h2 : (a + (i + 1)) * 512 ≤ x ∧ x < (a + (i + 1)) * 512 + n * 512
      · rw [blit_apply_of_mem h2.1 h2.2, blit_apply_of_mem (by omega) (by omega)]
        exact congrArg _ (by omega)
      · rw [blit_apply_of_not (by omega), blit_apply_of_not (by omega),
          blit_apply_of_not (by omega)]

/-! ## block -/

/-- block の大きさ。ext2 の block は 1024 byte の二の冪倍で、64 KiB までである。 -/
structure BlockSize (fs : Fs) : Prop where
  dvd : 1024 ∣ fs.blockSize
  pos : 0 < fs.blockSize
  le : fs.blockSize ≤ 65536

theorem sectors_mul {fs : Fs} (h : 1024 ∣ fs.blockSize) :
    fs.blockSize / 512 * 512 = fs.blockSize := by
  omega

/-- block `b` は LBA28 で届くところにある。 -/
def Fits (fs : Fs) (b : Nat) : Prop := (b + 1) * (fs.blockSize / 512) ≤ 2 ^ 28

/-- block `b` の sector は、disk の block `a` の sector である。 -/
def Lands (fs : Fs) (b a : Nat) : Prop :=
  ∀ i < fs.blockSize / 512, (b * (fs.blockSize / 512) + i) % 2 ^ 28 = a * (fs.blockSize / 512) + i

theorem Fits.lands {fs : Fs} (h : Fits fs b) : Lands fs b b := by
  intro i hi
  unfold Fits at h
  rw [Nat.succ_mul] at h
  exact Nat.mod_eq_of_lt (by omega)

theorem lands_mul {fs : Fs} (hbs : 1024 ∣ fs.blockSize) {a : Nat} :
    a * (fs.blockSize / 512) * 512 = a * fs.blockSize := by
  rw [Nat.mul_assoc, sectors_mul hbs]

section

variable (h : IoOk s) (hbs : 1024 ∣ s.fs.blockSize)
include h hbs

/-- どんな番号の block でも、読めばその番号の sector の列が得られる。 -/
theorem ext2ReadBlock_sectors (b : Nat) (buf : Mem) : ext2ReadBlock s b buf =
      (true, blit buf 0 (sectorByte s.disk (b * (s.fs.blockSize / 512) % 2 ^ 32)) 0
        s.fs.blockSize, s) := by
  simp only [ext2ReadBlock]
  rw [readSectors_ok h, sectors_mul hbs]

theorem ext2ReadBlock_ok {a : Nat} (hb : Lands s.fs b a) (buf : Mem) :
    ext2ReadBlock s b buf = (true, blit buf 0 s.disk (a * s.fs.blockSize) s.fs.blockSize, s) := by
  rw [ext2ReadBlock_sectors h hbs]
  refine congrArg (fun b => (true, b, s)) ?_
  funext x
  by_cases hx : 0 ≤ x ∧ x < 0 + s.fs.blockSize
  · rw [blit_apply_of_mem hx.1 hx.2, blit_apply_of_mem hx.1 hx.2, Nat.zero_add, Nat.sub_zero,
      sectorByte_eq (hb _ (by omega)), lands_mul hbs]
  · rw [blit_apply_of_not (by omega), blit_apply_of_not (by omega)]

theorem ext2WriteBlock_ok {a : Nat} (hb : Lands s.fs b a) (buf : Mem) :
    ext2WriteBlock s b buf = (true, { s with disk := putBlock s.fs.blockSize s.disk a buf }) := by
  have hw := @writeSectors_ok s h (b * (s.fs.blockSize / 512) % 2 ^ 32) (a * (s.fs.blockSize / 512))
    buf (s.fs.blockSize / 512) 0 s.disk (by
      intro j _ hj
      have := hb j (by omega)
      omega)
  refine hw.trans ?_
  rw [Nat.add_zero, lands_mul hbs, sectors_mul hbs]
  rfl

end

/-! ## metadata -/

theorem ext2WriteSuperblock_ok (h : IoOk s) :
    ext2WriteSuperblock s = (true, { s with disk := blit s.disk 1024 s.fs.superblock 0 1024 }) :=
  @writeSectors_ok s h 2 2 _ 2 0 _ (by omega)

/-- 一部の書き換えは、buffer が取れたときだけ起こる。 -/
theorem patchBlock_eq (h : IoOk s) (hbs : 1024 ∣ s.fs.blockSize) {a off n : Nat}
    (hb : Lands s.fs b a) (hoff : off + n ≤ s.fs.blockSize) {src : Mem} {srcOff : Nat} :
    patchBlock s b off src srcOff n = match s.heap 0 with
      | none => (false, s.next)
      | some _ => (true, { s.next with
          disk := blit s.disk (a * s.fs.blockSize + off) src srcOff n }) := by
  unfold patchBlock
  rw [kmalloc_eq]
  cases hm : s.heap 0 with
  | none => rfl
  | some buf =>
    have hr := ext2ReadBlock_ok (s := s.next) h hbs hb buf
    simp only [hr, if_true]
    rw [ext2WriteBlock_ok (s := s.next) h hbs hb]
    exact congrArg (fun m => (true, { s.next with disk := m })) (putBlock_patch hoff)

end Alos.Ext2
