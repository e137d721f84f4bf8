import Alos.Ext2.Io

/-!
# image の配置

mount してから変わらない field を `Geom` に集め、正しい image の配置を `Geom.Wf` で述べる。
metadata の block は `Slot` で名指し、その番号は互いに異なる。

`s_first_data_block` が 1 のとき、`ext2_mount` の数える group は本当の数より一つ多いことがある。
その group には番号の付いた block がないので、`validBits` は 0 になる。
-/

namespace Alos.Ext2

open Bytes

/-! ## 変わらない field -/

/-- bitmap で管理される物の種類。 -/
inductive Kind where
  | block
  | inode
  deriving DecidableEq, Repr

variable {k : Kind} {i g bit : Nat}

def Kind.pool : Kind → Pool
  | .block => blockPool
  | .inode => inodePool

/-- mount してから変わらない field。 -/
structure Geom where
  blockSize : Nat
  inodeSize : Nat
  numGroups : Nat
  blocksCount : Nat
  inodesCount : Nat
  firstDataBlock : Nat
  /-- 一つの group の bit の数。 -/
  per : Kind → Nat
  /-- group の bitmap の block。 -/
  bitmap : Kind → Nat → Nat
  /-- group の inode の表の最初の block。 -/
  inodeTable : Nat → Nat

def Fs.geom (fs : Fs) : Geom where
  blockSize := fs.blockSize
  inodeSize := fs.inodeSize
  numGroups := fs.numGroups
  blocksCount := sBlocksCount fs.superblock
  inodesCount := sInodesCount fs.superblock
  firstDataBlock := sFirstDataBlock fs.superblock
  per k := k.pool.perGroup fs
  bitmap k := k.pool.bitmap fs
  inodeTable := bgInodeTable fs.groupDescs

/-- 空きの数などを書き換えても、番号や位置の field は変わらない。 -/
theorem geom_update {fs : Fs} {gd sb : Mem} (hgd : ∀ g off, off + 4 ≤ 12 →
      load gd (groupDescSize * g + off) 4 = load fs.groupDescs (groupDescSize * g + off) 4)
    (hsb : ∀ off, off + 4 ≤ 12 ∨ 20 ≤ off → load sb off 4 = load fs.superblock off 4) :
    ({ fs with groupDescs := gd, superblock := sb } : Fs).geom = fs.geom := by
  have hbitmap : ∀ k : Kind, k.pool.bitmap { fs with groupDescs := gd, superblock := sb }
      = k.pool.bitmap fs := by
    intro k
    funext g
    cases k <;> exact hgd g _ (by decide)
  have htable : bgInodeTable gd = bgInodeTable fs.groupDescs := by
    funext g
    exact hgd g 8 (by decide)
  have hper : ∀ k : Kind, k.pool.perGroup { fs with groupDescs := gd, superblock := sb }
      = k.pool.perGroup fs := by
    intro k
    cases k <;> rfl
  simp only [Fs.geom, hbitmap, htable, hper, sBlocksCount, sInodesCount, sFirstDataBlock,
    hsb 0 (by decide), hsb 4 (by decide), hsb 20 (by decide)]

theorem geom_adjust (k : Kind) (fs : Fs) (group : Nat) (d : Int) :
    (k.pool.adjust fs group d).geom = fs.geom := by
  apply geom_update
  · intro g off h
    apply load_store_of_disjoint
    cases k <;> simp only [Kind.pool, blockPool, inodePool, groupDescSize] <;> omega
  · intro off h
    apply load_store_of_disjoint
    cases k <;> simp only [Kind.pool, blockPool, inodePool] <;> omega

theorem geom_setBgUsedDirsCount {fs : Fs} (group v : Nat) :
    ({ fs with groupDescs := setBgUsedDirsCount fs.groupDescs group v } : Fs).geom = fs.geom := by
  refine @geom_update fs _ _ ?_ (fun _ _ => rfl)
  intro g off h
  apply load_store_of_disjoint
  simp only [groupDescSize]
  omega

/-! ## 番号と bit -/

namespace Geom

variable (G : Geom)

/-- group 0 の bit 0 の番号。 -/
def base : Kind → Nat
  | .block => G.firstDataBlock
  | .inode => 1

/-- 番号の付いた物の数。 -/
def objects : Kind → Nat
  | .block => G.blocksCount - G.firstDataBlock
  | .inode => G.inodesCount

/-- group の bitmap のうち、番号の付いた bit の数。 -/
def validBits (k : Kind) (g : Nat) : Nat := min (G.per k) (G.objects k - g * G.per k)

/-- 一つの block に入る inode の数。 -/
def inodesPerBlock : Nat := G.blockSize / G.inodeSize

end Geom

/-! ## metadata の block -/

/-- metadata の block の名前。 -/
inductive Slot where
  | super
  | gdt (j : Nat)
  | bitmap (k : Kind) (g : Nat)
  | inodeTable (g j : Nat)
  deriving DecidableEq, Repr

/-- image に実際にある metadata の block。 -/
def Slot.Valid (G : Geom) : Slot → Prop
  | super => True
  | gdt j => j * (G.blockSize / groupDescSize) < G.numGroups
  | bitmap k g => 0 < G.validBits k g
  | inodeTable g j => j * G.inodesPerBlock < G.validBits .inode g

def Slot.block (G : Geom) : Slot → Nat
  | super => 1024 / G.blockSize
  | gdt j => (if G.blockSize = 1024 then 2 else 1) + j
  | bitmap k g => G.bitmap k g
  | inodeTable g j => G.inodeTable g + j

/-- 正しい image の配置。 -/
structure Geom.Wf (G : Geom) : Prop where
  dvd : 1024 ∣ G.blockSize
  size_pos : 0 < G.blockSize
  size_le : G.blockSize ≤ 65536
  inode_ge : inodeStructSize ≤ G.inodeSize
  inode_dvd : G.inodeSize ∣ G.blockSize
  per_pos : ∀ k, 0 < G.per k
  /-- group の bitmap は一つの block に収まる。 -/
  per_le : ∀ k, G.per k ≤ 8 * G.blockSize
  /-- group の数は 16 bit で数える。 -/
  per_lt : ∀ k, G.per k < 2 ^ 16
  groups : G.numGroups = (G.blocksCount + G.per .block - 1) / G.per .block
  inodes_le : G.inodesCount ≤ G.numGroups * G.per .inode
  inodes_lt : G.inodesCount < 2 ^ 31
  /-- disk 全体が LBA28 で届くところにある。 -/
  fits : G.blocksCount * (G.blockSize / 512) ≤ 2 ^ 28
  slot_lt : ∀ σ : Slot, σ.Valid G → σ.block G < G.blocksCount
  slot_inj : ∀ σ τ : Slot, σ.Valid G → τ.Valid G → σ.block G = τ.block G → σ = τ

namespace Geom.Wf

variable {G : Geom} (wf : G.Wf)

include wf

theorem group_lt (hi : i < G.objects k) : i / G.per k < G.numGroups := by
  have hpos := wf.per_pos k
  rw [Nat.div_lt_iff_lt_mul hpos]
  cases k with
  | inode => exact lt_of_lt_of_le hi wf.inodes_le
  | block =>
    have hceil : G.blocksCount ≤ G.numGroups * G.per .block := by
      have := Nat.div_add_mod (G.blocksCount + G.per .block - 1) (G.per .block)
      have := Nat.mod_lt (G.blocksCount + G.per .block - 1) hpos
      rw [wf.groups, Nat.mul_comm]
      omega
    simp only [objects] at hi
    omega

theorem bit_lt (hi : i < G.objects k) : i % G.per k < G.validBits k (i / G.per k) := by
  have hmod := Nat.mod_lt i (wf.per_pos k)
  have hdiv := Nat.div_add_mod' i (G.per k)
  unfold validBits
  omega

omit wf in
theorem index_lt (h : bit < G.validBits k g) : g * G.per k + bit < G.objects k := by
  unfold validBits at h
  omega

omit wf in
theorem index_div (h : bit < G.validBits k g) : (g * G.per k + bit) / G.per k = g :=
  block_div (by unfold validBits at h; omega) (by unfold validBits at h; omega)

omit wf in
theorem index_mod (h : bit < G.validBits k g) : (g * G.per k + bit) % G.per k = bit := by
  rw [Nat.mul_add_mod_self_right]
  exact Nat.mod_eq_of_lt (by unfold validBits at h; omega)

theorem valid_lt : G.validBits k g < 2 ^ 16 := by
  have := wf.per_lt k
  unfold validBits
  omega

theorem valid_le : G.validBits k g ≤ 8 * G.blockSize := by
  have := wf.per_le k
  unfold validBits
  omega

theorem group_lt_of_valid (h : 0 < G.validBits k g) : g < G.numGroups := by
  have := wf.group_lt (index_lt h)
  rwa [index_div h] at this

theorem blocksCount_lt : G.blocksCount < 2 ^ 28 := by
  have h2 : 2 ≤ G.blockSize / 512 := by
    have := wf.dvd
    have := wf.size_pos
    omega
  have := Nat.mul_le_mul_left G.blocksCount h2
  have := wf.fits
  omega

theorem object_lt (hi : i < G.objects k) : G.base k + i < 2 ^ 31 := by
  have := wf.blocksCount_lt
  have := wf.inodes_lt
  cases k <;> simp only [objects, base] at * <;> omega

end Geom.Wf

/-- `ext2_alloc_block` の見る bit には、番号の付いた bit がすべて入っている。 -/
theorem validBits_le_searched {fs : Fs} (wf : fs.geom.Wf) (k : Kind) (g : Nat) :
    fs.geom.validBits k g ≤ k.pool.searched fs g := by
  cases k with
  | inode => exact Nat.min_le_left _ _
  | block =>
    have hpos : 0 < fs.blocksPerGroup := wf.per_pos .block
    have hgroups : fs.numGroups
        = (sBlocksCount _ + fs.blocksPerGroup - 1) / fs.blocksPerGroup := wf.groups
    show min _ (sBlocksCount _ - sFirstDataBlock _ - g * fs.blocksPerGroup) ≤ blocksInGroup fs g
    simp only [blocksInGroup]
    split
    · rename_i hlast
      obtain ⟨rfl, hrem⟩ := hlast
      -- 最後の group では、余りがちょうど残りの block の数である
      have hdm := Nat.div_add_mod' (sBlocksCount fs.superblock) fs.blocksPerGroup
      have hmod := Nat.mod_lt (sBlocksCount fs.superblock) hpos
      have hq : fs.numGroups = sBlocksCount fs.superblock / fs.blocksPerGroup + 1 := by
        rw [hgroups, Nat.div_eq_iff hpos]
        rw [Nat.add_mul]
        omega
      rw [hq, Nat.add_sub_cancel]
      omega
    · exact Nat.min_le_left _ _

end Alos.Ext2
