import Alos.Lib.Bitmap

/-!
# 物理メモリ管理（`mm/pmm.c`）

4 KiB の block を一つの bit で管理する。bit が立っていれば使用中、下りていれば空きである。
`pmm_used_blocks` は立っている bit の個数を別に数えたものである。

`uint64_t` は `2 ^ 64` 未満の自然数で、算術は `% 2 ^ 64` で回り込む。
検索の戻り値 `int64_t` は、`-1` を `none` とする `Option Nat` で表す。
-/

namespace Alos.Pmm

open Bytes

/-! ## 定数と状態 -/

def pmmBlockSize : Nat := 4096

/-- `PMM_MAX_MEMORY`。4 GiB。 -/
def pmmMaxMemory : Nat := 4 * 1024 * 1024 * 1024

def pmmMaxBlocks : Nat := pmmMaxMemory / pmmBlockSize

def pmmBitmapSize : Nat := pmmMaxBlocks / 8

def pmmAlignUp (addr : Nat) : Nat := (addr + pmmBlockSize - 1) % 2 ^ 64 /
    pmmBlockSize * pmmBlockSize

def pmmAlignDown (addr : Nat) : Nat := addr / pmmBlockSize * pmmBlockSize

def pmmAddrToBlock (addr : Nat) : Nat := addr / pmmBlockSize

def pmmBlockToAddr (block : Nat) : Nat := block * pmmBlockSize % 2 ^ 64

def limineMemmapUsable : Nat := 0

structure MemmapEntry where
  base : Nat
  length : Nat
  type : Nat
  deriving DecidableEq, Repr

/-- `pmm.c` の静的変数。 -/
structure State where
  bitmap : Mem
  totalBlocks : Nat
  usedBlocks : Nat
  memorySize : Nat
  hhdmOffset : Nat

/-- 起動直後の静的変数。 -/
def State.zero : State := ⟨fun _ => 0, 0, 0, 0, 0⟩

/-! ## bitmap -/

def bitmapSet (p : State) (block : Nat) : State :=
  if block < pmmMaxBlocks then { p with bitmap := Bitmap.set p.bitmap block } else p

def bitmapClear (p : State) (block : Nat) : State :=
  if block < pmmMaxBlocks then { p with bitmap := Bitmap.clear p.bitmap block } else p

/-- 範囲外は使用中とみなす。 -/
def bitmapTest (p : State) (block : Nat) : Bool :=
  if pmmMaxBlocks ≤ block then true else Bitmap.test p.bitmap block

def incUsed (p : State) : State := { p with usedBlocks := (p.usedBlocks + 1) % 2 ^ 64 }

def decUsed (p : State) : State := { p with usedBlocks := (p.usedBlocks + 2 ^ 64 - 1) % 2 ^ 64 }

def pmmMarkRegionUsed (p : State) (baseAddr length : Nat) : State :=
  let startBlock := pmmAddrToBlock baseAddr
  let numBlocks := pmmAlignUp length / pmmBlockSize
  (List.range numBlocks).foldl (fun p i =>
    if startBlock + i < pmmMaxBlocks ∧ bitmapTest p (startBlock + i) = false then
      incUsed (bitmapSet p (startBlock + i))
    else p) p

def pmmMarkRegionFree (p : State) (baseAddr length : Nat) : State :=
  let startBlock := pmmAddrToBlock baseAddr
  let numBlocks := length / pmmBlockSize
  (List.range numBlocks).foldl (fun p i =>
    if startBlock + i < pmmMaxBlocks ∧ bitmapTest p (startBlock + i) = true then
      decUsed (bitmapClear p (startBlock + i))
    else p) p

/-- 空きのある byte を探してから、その中の bit を探す。端数の byte（`total % 8` 個）は見ない。 -/
def pmmFindFirstFree (p : State) : Option Nat :=
  let bitmapBytes := p.totalBlocks / 8
  let bitmapBytes := if pmmBitmapSize < bitmapBytes then pmmBitmapSize else bitmapBytes
  (List.range bitmapBytes).findSome? fun i =>
    if p.bitmap i != 0xFF then
      (List.range 8).findSome? fun j =>
        if p.bitmap i &&& (1 <<< UInt8.ofNat j) == 0 then
          let block := i * 8 + j
          if block < p.totalBlocks then some block else none
        else none
    else none

/-- `pmm_find_first_free_sequence` のループ。残りの block の列を見る。 -/
def findSequence (p : State) (count : Nat) : List Nat → Nat → Nat → Option Nat
  | [], _, _ => none
  | block :: rest, consecutive, startBlock =>
    if bitmapTest p block = false then
      let startBlock := if consecutive = 0 then block else startBlock
      if count ≤ consecutive + 1 then some startBlock
      else findSequence p count rest (consecutive + 1) startBlock
    else findSequence p count rest 0 startBlock

def pmmFindFirstFreeSequence (p : State) (count : Nat) : Option Nat :=
  if count = 0 then none
  else if count = 1 then pmmFindFirstFree p
  else findSequence p count (List.range p.totalBlocks) 0 0

/-! ## 公開関数 -/

/-- USABLE な entry を 4 GiB で切り、内側に揃えて空きにする。 -/
def freeEntry (p : State) (entry : MemmapEntry) : State :=
  if pmmMaxMemory ≤ entry.base then p
  else if entry.type = limineMemmapUsable then
    let base := entry.base
    let length := if pmmMaxMemory < (base + entry.length) % 2 ^ 64 then pmmMaxMemory - base
      else entry.length
    let alignedBase := pmmAlignUp base
    let release (length : Nat) : State :=
      let length := pmmAlignDown length
      if pmmBlockSize ≤ length then pmmMarkRegionFree p alignedBase length else p
    if base < alignedBase ∧ alignedBase - base < length then release (length - (alignedBase - base))
    else if base < alignedBase then p
    else release length
  else p

/-- 最も高い entry の終わり。 -/
def memoryEnd (entries : List MemmapEntry) : Nat :=
  entries.foldl (fun size entry =>
    if size < (entry.base + entry.length) % 2 ^ 64 then (entry.base + entry.length) % 2 ^ 64
    else size) 0

/-- `memmap` が `NULL` か空なら、HHDM offset のほかは変えない。 -/
def initPmmLimine (p : State) (memmap : Option (List MemmapEntry)) (hhdmOffset : Nat) : State :=
  let p := { p with hhdmOffset := hhdmOffset }
  match memmap with
  | none => p
  | some entries =>
    if entries = [] then p
    else
      let memorySize := memoryEnd entries
      let memorySize := if pmmMaxMemory < memorySize then pmmMaxMemory else memorySize
      let totalBlocks := memorySize / pmmBlockSize
      let bitmap : Mem := fun i => if i < pmmBitmapSize then 0xFF else p.bitmap i
      let p := { p with memorySize, totalBlocks, usedBlocks := totalBlocks, bitmap }
      let p := entries.foldl freeEntry p
      -- 最初の 1 MiB は決して割り当てない
      pmmMarkRegionUsed p 0 0x100000

/-- 戻り値は HHDM の仮想番地。`NULL`（0）は失敗である。 -/
def pmmAllocBlock (p : State) : Nat × State :=
  if p.totalBlocks ≤ p.usedBlocks then (0, p)
  else
    match pmmFindFirstFree p with
    | none => (0, p)
    | some block =>
      ((pmmBlockToAddr block + p.hhdmOffset) % 2 ^ 64, incUsed (bitmapSet p block))

def pmmAllocBlocks (p : State) (count : Nat) : Nat × State :=
  if count = 0 then (0, p)
  else if count = 1 then pmmAllocBlock p
  else
    match pmmFindFirstFreeSequence p count with
    | none => (0, p)
    | some startBlock =>
      ((pmmBlockToAddr startBlock + p.hhdmOffset) % 2 ^ 64,
        (List.range count).foldl (fun p i => incUsed (bitmapSet p (startBlock + i))) p)

/-- 立っている bit だけを下ろす。二重解放は数を壊さない。 -/
def clearIfUsed (p : State) (block : Nat) : State :=
  if bitmapTest p block = true then decUsed (bitmapClear p block) else p

def pmmFreeBlock (p : State) (ptr : Nat) : State :=
  let addr := (ptr + 2 ^ 64 - p.hhdmOffset) % 2 ^ 64
  let block := pmmAddrToBlock addr
  if p.totalBlocks ≤ block then p else clearIfUsed p block

def pmmFreeBlocks (p : State) (ptr count : Nat) : State :=
  if count = 0 ∨ ptr = 0 then p
  else
    let addr := (ptr + 2 ^ 64 - p.hhdmOffset) % 2 ^ 64
    let startBlock := pmmAddrToBlock addr
    (List.range count).foldl (fun p i =>
      let block := (startBlock + i) % 2 ^ 64
      if block < p.totalBlocks then clearIfUsed p block else p) p

end Alos.Pmm
