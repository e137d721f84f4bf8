import Alos.Ext2.Growth
import Alos.Ext2.Dir

/-!
# 具体的な image

block が 1 KiB、64 block、8 inode の image を二つ置く。metadata は block 1 から 5 までにある。


間接 block を使わない image の整合性は、pointer の表から分かる（`consistent_of_table`）。
-/

namespace Alos.Ext2

open Bytes Bitmap List

variable {p : List Nat} {h b : Nat}

/-- 値のある計算は、その値に名前を付けて書ける。 -/
theorem eq_some_getD {α : Type} {o : Option α} (h : o.isSome = true) (d : α) :
    o = some (o.getD d) :=
  (Option.getD_of_ne_none (Option.isSome_iff_ne_none.mp h) d).symm

/-! ## 間接 block のない image -/

section Table

variable {G : Geom} {m : Mem}

section

variable (tbl : List (Nat × Nat × Nat)) (htbl : ∀ e ∈ tbl, e.2.1 < 12)
  (hroot : ∀ n, liveInode G m n = true → ∀ k < 14, rootAt G m n k = 0 ∨
  (n, k, rootAt G m n k) ∈ tbl)
include tbl htbl hroot

/-- 直接 block だけの image では、道の長さは 2 である。 -/
theorem trace_direct (hp : trace G (imageView G m) p = some (.block h b)) : ∃ n k, p = [n, k] ∧
    (n, k, b) ∈ tbl := by
  rcases trace_cases hp with ⟨-, hf⟩ | ⟨_, -, hf, -⟩ | ⟨n, k, q, _, _, rfl, -, hl⟩
  · cases hf
  · cases hf
  have hp' : trace G _ ([n, k] ++ q) = some _ := hp
  unfold trace at hp'
  rw [Radix.walk_append, Option.bind_eq_some_iff] at hp'
  obtain ⟨f, hf, hq⟩ := hp'
  obtain ⟨-, hk, h0, rfl⟩ := trace_root_some hf
  have hmem := (hroot n hl k hk).resolve_left h0
  have hlt : k < 12 := htbl _ hmem
  have hk12 : heightOf k = 0 := Nat.sub_eq_zero_of_le (by omega)
  rw [hk12] at hq
  cases q with
  | nil =>
    cases hq
    exact ⟨n, k, rfl, hmem⟩
  | cons j q => cases hq

/-- **pointer がすべて表にあり、表の block が異なり、使用中なら、image は整合している。** -/
theorem consistent_of_table (hinj : ∀ e ∈ tbl, ∀ e' ∈ tbl, e.2.2 = e'.2.2 → e = e')
    (howned : ∀ e ∈ tbl, Owned G m e.2.2) : Consistent G m where
  once h1 h2 := by
    obtain ⟨n, k, rfl, hmem⟩ := trace_direct tbl htbl hroot h1
    obtain ⟨n', k', rfl, hmem'⟩ := trace_direct tbl htbl hroot h2
    cases hinj _ hmem _ hmem' rfl
    rfl
  good h1 := by
    obtain ⟨n, k, -, hmem⟩ := trace_direct tbl htbl hroot h1
    exact howned _ hmem

end

end Table

/-! ## 64 block の geometry -/

def wideSuper : Mem :=
  bytesOf [(0, 8), (4, 64), (12, 56), (16, 5), (20, 1), (33, 0x20), (40, 8), (56, 0x53), (57, 0xEF)]

/-- bitmap は block 3 と 4、inode の表は block 5 にある。 -/
def wideDescs : Mem := bytesOf [(0, 3), (4, 4), (8, 5), (12, 56), (14, 5), (16, 1)]

def wideFs : Fs where
  superblock := wideSuper
  groupDescs := wideDescs
  blockSize := 1024
  inodesPerGroup := 8
  blocksPerGroup := 8192
  numGroups := 1
  inodeSize := 128

theorem wide_oneGroup : OneGroup wideFs.geom := by unfold OneGroup; decide

theorem wide_wf : wideFs.geom.Wf := wide_oneGroup.wf

theorem wide_metadata (h : Metadata wideFs.geom b) : b < 6 := by
  obtain ⟨σ, hσ, rfl⟩ := h
  exact wide_oneGroup.block_lt hσ

/-- superblock と descriptor を置いた disk。 -/
def imageDisk (fs : Fs) (data : Mem) : Mem := fun a =>
  if 0x400 ≤ a ∧ a < 0x800 then fs.superblock (a - 0x400)
  else if 0x800 ≤ a ∧ a < 0xC00 then fs.groupDescs (a - 0x800)
  else data a

/-- image を、何にも失敗しない環境で mount した状態。 -/
def imageState (fs : Fs) (data : Mem) : State where
  disk := imageDisk fs data
  fs := fs
  io _ := true
  heap _ := some fun _ => 0

/-- 直接 block だけの image の整合性を、有限の検査に帰着する。 -/
theorem mounted_of_table {fs : Fs} {data : Mem} (hgeom : fs.geom = wideFs.geom)
    (hcount : ∀ k ∈ [Kind.block, .inode], k.pool.count fs 0 = freeBits wideFs.geom
        (imageDisk fs data) k 0 ∧ k.pool.total fs = k.pool.count fs 0)
    (tbl : List (Nat × Nat × Nat))
    (hmark : ∀ i < 5, marked wideFs.geom (imageDisk fs data) .block i = true)
    (hroot : ∀ n ∈ range 9, ∀ k ∈ range 14, liveInode wideFs.geom (imageDisk fs data) n = true →
      rootAt wideFs.geom (imageDisk fs data) n k = 0 ∨
        (n, k, rootAt wideFs.geom (imageDisk fs data) n k) ∈ tbl)
    (htbl : ∀ e ∈ tbl, e.2.1 < 12 ∧ 6 ≤ e.2.2 ∧ e.2.2 < 64 ∧
      marked wideFs.geom (imageDisk fs data) .block (e.2.2 - 1) = true)
    (hinj : ∀ e ∈ tbl, ∀ e' ∈ tbl, e.2.2 = e'.2.2 → e = e') :
    Mounted wideFs.geom (imageState fs data) where
  ready := ⟨fun _ => rfl, hgeom, wide_wf⟩
  matching := by
    have hk : ∀ k : Kind, k ∈ [Kind.block, .inode] := fun k => by cases k <;> simp
    refine ⟨fun k g hg => ?_, fun k => ((hcount k (hk k)).2).trans (Finset.sum_range_one _).symm⟩
    obtain rfl : g = 0 := Nat.lt_one_iff.mp hg
    exact (hcount k (hk k)).1
  reserved i _ h := by
    have hlt : 1 + i < 6 := wide_metadata h
    exact hmark i (by omega)
  consistent := by
    refine consistent_of_table tbl (fun e he => (htbl e he).1) ?_ hinj ?_
    · intro n hn k hk
      have hle : n ≤ 8 := (isInode_of_live hn).2
      exact hroot n (mem_range.mpr (by omega)) k (mem_range.mpr hk) hn
    · intro e he
      obtain ⟨-, h6, h64, hmk⟩ := htbl e he
      refine ⟨⟨e.2.2 - 1, show e.2.2 - 1 < 63 by omega, ?_, hmk⟩, ?_⟩
      · show e.2.2 = 1 + (e.2.2 - 1)
        omega
      · intro h
        have := wide_metadata h
        omega

/-! ## file が一つの image -/

/-- inode 2 は root directory で block 6 に、inode 3 は file `a` で block 7 に data を持つ。 -/
def plainData : Mem :=
  -- boot block の先頭
  bytesOf ((0, 7) :: smallBytes)

def plainState : State := imageState wideFs plainData

set_option maxRecDepth 20000

theorem plain_roots : ∀ n ∈ range 9, ∀ k ∈ range 14,
    liveInode wideFs.geom plainState.disk n = true → rootAt wideFs.geom plainState.disk n k = 0 ∨
      (n, k, rootAt wideFs.geom plainState.disk n k) ∈ [(2, 0, 6), (3, 0, 7)] := by
  decide +kernel

theorem plain_mounted : Mounted wideFs.geom plainState :=
  mounted_of_table rfl (by decide +kernel) [(2, 0, 6), (3, 0, 7)] (by decide +kernel)
    plain_roots (by decide +kernel) (by decide +kernel)

/-- 道は二つの block に着くものだけである。 -/
theorem plain_trace (hp : trace wideFs.geom (imageView wideFs.geom plainState.disk) p = some
    (.block h b)) :
    p = [2, 0] ∧ b = 6 ∨ p = [3, 0] ∧ b = 7 := by
  obtain ⟨n, k, rfl, hmem⟩ := trace_direct _ (by decide)
    (fun n hn k hk => plain_roots n (mem_range.mpr (by
      have hle : n ≤ 8 := (isInode_of_live hn).2
      omega)) k (mem_range.mpr hk) hn) hp
  simp only [mem_cons, Prod.mk.injEq, not_mem_nil, or_false] at hmem
  rcases hmem with ⟨rfl, rfl, rfl⟩ | ⟨rfl, rfl, rfl⟩
  · exact .inl ⟨rfl, rfl⟩
  · exact .inr ⟨rfl, rfl⟩

/-! ## directory が一杯の image -/

/-- 空きの block が `d` 個の image の file system。 -/
def crowdedFs (d : Nat) : Fs := blockPool.adjust wideFs 0 (d - 56)

/--
root directory は block 6 と 8 を使い、どの entry にも 264 byte の余りがない。
`bitmap` は block の bitmap のうち、最初の byte より後である。
-/
def crowdedData (bitmap : List (Nat × UInt8)) : Mem :=
  bytesOf ([
    -- 二つの bitmap
    (0xC00, 0xFF), (0x1000, 0x07),
    -- inode 2: mode, size, links, i_block
    (0x1481, 0x41), (0x1485, 0x08), (0x149A, 2), (0x14A8, 6), (0x14AC, 8),
    -- inode 3
    (0x1501, 0x81), (0x1504, 1), (0x151A, 6), (0x1528, 7),
    -- `.`、`..`、`a`、`b`
    (0x1800, 2), (0x1805, 1), (0x1806, 1), (0x1807, 2), (0x1808, 46),
    (0x1900, 2), (0x1905, 1), (0x1906, 2), (0x1907, 2), (0x1908, 46), (0x1909, 46),
    (0x1A00, 3), (0x1A05, 1), (0x1A06, 1), (0x1A07, 1), (0x1A08, 97),
    (0x1B00, 3), (0x1B05, 1), (0x1B06, 1), (0x1B07, 1), (0x1B08, 98),
    -- `c`、`d`、`e`、`f`
    (0x2000, 3), (0x2005, 1), (0x2006, 1), (0x2007, 1), (0x2008, 99),
    (0x2100, 3), (0x2105, 1), (0x2106, 1), (0x2107, 1), (0x2108, 100),
    (0x2200, 3), (0x2205, 1), (0x2206, 1), (0x2207, 1), (0x2208, 101),
    (0x2300, 3), (0x2305, 1), (0x2306, 1), (0x2307, 1), (0x2308, 102),
    -- file の中身
    (0x1C00, 120)] ++ bitmap)

/-- 空きの block が 55 個の image。 -/
def crowdedState : State := imageState (crowdedFs 55) (crowdedData [])

/-- 空きの block が一つだけの image。 -/
def lastBlockState : State := imageState (crowdedFs 1) (crowdedData
  [(0xC01, 0xFF), (0xC02, 0xFF), (0xC03, 0xFF), (0xC04, 0xFF), (0xC05, 0xFF), (0xC06, 0xFF),
    (0xC07, 0x3F)])

theorem crowded_mounted : Mounted wideFs.geom crowdedState :=
  mounted_of_table (geom_adjust .block wideFs 0 _) (by decide +kernel)
    [(2, 0, 6), (2, 1, 8), (3, 0, 7)] (by decide +kernel)
    (by decide +kernel) (by decide +kernel) (by decide +kernel)

theorem lastBlock_mounted : Mounted wideFs.geom lastBlockState :=
  mounted_of_table (geom_adjust .block wideFs 0 _) (by decide +kernel)
    [(2, 0, 6), (2, 1, 8), (3, 0, 7)] (by decide +kernel)
    (by decide +kernel) (by decide +kernel) (by decide +kernel)

end Alos.Ext2
