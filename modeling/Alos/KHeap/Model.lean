import Alos.Lib.Bytes

/-!
# kernel heap（`mm/kheap.c`）

block の連結リストを、それが管理するメモリの中に置く first fit の allocator である。
header は `KHeapBlock`（24 byte）で、data はその直後に続く。

ポインタと `size_t` は `2 ^ 64` 未満の自然数で、算術は `% 2 ^ 64` で回り込む。
`NULL` は 0 である。spinlock は一つの呼び出しを atomic にするだけなので現れない。
corruption を知らせる console への出力も状態に残らないので省く。

## ループ

リストを辿るループには上限がないので、`heapTotalSize` を fuel にする。
fuel が尽きた結果は `none` で、`Alos/KHeap/Refine.lean` が「壊れていない heap では尽きない」ことを示す。
`kfree` の後半の走査だけは、source 自身が `max_iterations` で打ち切る。
-/

namespace Alos.KHeap

open Bytes

/-! ## header -/

def headerSize : Nat := 24

def kheapMinBlockSize : Nat := 16

/-- block の header。`size` は offset 0、`is_free` は 8、`next` は 16 にある。 -/
structure KHeapBlock where
  size : Nat
  isFree : Bool
  next : Nat
  deriving DecidableEq, Repr

def readBlock (m : Mem) (a : Nat) : KHeapBlock :=
  { size := load m a 8, isFree := m (a + 8) != 0, next := load m (a + 16) 8 }

def setSize (m : Mem) (a v : Nat) : Mem := store m a 8 v

def setFree (m : Mem) (a : Nat) (b : Bool) : Mem := store m (a + 8) 1 b.toNat

def setNext (m : Mem) (a v : Nat) : Mem := store m (a + 16) 8 v

/-- heap の静的変数と、それが置かれているメモリ。 -/
structure Heap where
  mem : Mem
  heapStart : Nat
  heapTotalSize : Nat

def Heap.heapEnd (h : Heap) : Nat := (h.heapStart + h.heapTotalSize) % 2 ^ 64

/-! ## 内部関数 -/

def align8 (size : Nat) : Nat := (size + 7) % 2 ^ 64 / 8 * 8

/-- 余りに header と最小の data が入るときだけ、block を二つに割る。 -/
def splitBlock (m : Mem) (block size : Nat) : Mem :=
  let remaining := ((readBlock m block).size + 2 ^ 64 - size) % 2 ^ 64
  let minSplitSize := headerSize + kheapMinBlockSize
  if minSplitSize ≤ remaining then
    let newBlock := (block + headerSize + size) % 2 ^ 64
    let m := setSize m newBlock (remaining - headerSize)
    let m := setFree m newBlock true
    let m := setNext m newBlock (readBlock m block).next
    let m := setSize m block size
    setNext m block newBlock
  else m

/-- 次の block が空いているかぎり、それを吸収する。 -/
def coalesceBlock (h : Heap) : Nat → Mem → Nat → Option Mem
  | 0, _, _ => none
  | fuel + 1, m, block =>
    if block = 0 ∨ (readBlock m block).next = 0 then some m
    else if (readBlock m block).next < h.heapStart ∨ h.heapEnd ≤ (readBlock m block).next then
      -- 範囲外の next は corruption とみなし、鎖を切る
      some (setNext m block 0)
    else if (readBlock m (readBlock m block).next).isFree then
      let m := setSize m block (((readBlock m block).size +
        (headerSize + (readBlock m (readBlock m block).next).size)) % 2 ^ 64)
      let m := setNext m block (readBlock m (readBlock m block).next).next
      coalesceBlock h fuel m block
    else some m

/-! ## 公開関数 -/

/-- 小さすぎる領域と `NULL` は無視する。そうでなければ全体を一つの空き block にする。 -/
def kheapInit (h : Heap) (startAddr sizeBytes : Nat) : Heap :=
  if startAddr = 0 ∨ sizeBytes < headerSize + kheapMinBlockSize then h
  else
    let m := setSize h.mem startAddr (sizeBytes - headerSize)
    let m := setFree m startAddr true
    let m := setNext m startAddr 0
    { mem := m, heapStart := startAddr, heapTotalSize := sizeBytes }

/-- `kmalloc` の first fit。見つからなければ `NULL`（0）。 -/
def firstFit (m : Mem) (size : Nat) : Nat → Nat → Option Nat
  | 0, _ => none
  | fuel + 1, current =>
    if current = 0 then some 0
    else if (readBlock m current).isFree = true ∧ size ≤ (readBlock m current).size then
      some current
    else firstFit m size fuel (readBlock m current).next

/-- 要求を揃えた大きさ。`kmalloc` が実際に探す大きさである。 -/
def requestSize (size : Nat) : Nat :=
  if align8 size < kheapMinBlockSize then kheapMinBlockSize else align8 size

def kmalloc (h : Heap) (size : Nat) : Option (Nat × Heap) :=
  if size = 0 ∨ h.heapStart = 0 then some (0, h)
  else
    (firstFit h.mem (requestSize size) h.heapTotalSize h.heapStart).map fun current =>
      if current = 0 then (0, h)
      else
        let m := splitBlock h.mem current (requestSize size)
        let m := setFree m current false
        ((current + headerSize) % 2 ^ 64, { h with mem := m })

/-- `kfree` の後半。先頭から高々 `max_iterations` 個の block を見て、空きなら後ろを吸収する。 -/
def sweep (h : Heap) : Nat → Mem → Nat → Option Mem
  | 0, m, _ => some m
  | maxIterations + 1, m, current =>
    if current = 0 then some m
    else if current < h.heapStart ∨ h.heapEnd ≤ current then some m
    else
      (if (readBlock m current).isFree then coalesceBlock h h.heapTotalSize m current
        else some m).bind fun m =>
      sweep h maxIterations m (readBlock m current).next

/-- `kfree` の走査の打ち切り。 -/
def maxIterations : Nat := 10000

def kfree (h : Heap) (ptr : Nat) : Option Heap :=
  if ptr = 0 ∨ h.heapStart = 0 then some h
  else
    let block := (ptr + 2 ^ 64 - headerSize) % 2 ^ 64
    if block < h.heapStart ∨ h.heapEnd ≤ block then some h
    else
      (coalesceBlock h h.heapTotalSize (setFree h.mem block true) block).bind fun m =>
      (sweep h maxIterations m h.heapStart).map fun m => { h with mem := m }

/-- `krealloc` の `for (i = 0; i < n; i++) dst[i] = src[i]`。 -/
def copyBytes (m : Mem) (dst src : Nat) : Nat → Mem
  | 0 => m
  | n + 1 =>
    let m := copyBytes m dst src n
    store m (dst + n) 1 (m (src + n)).toNat

def krealloc (h : Heap) (ptr newSize : Nat) : Option (Nat × Heap) :=
  if ptr = 0 then kmalloc h newSize
  else if newSize = 0 then (kfree h ptr).map fun h => (0, h)
  else
    let block := (ptr + 2 ^ 64 - headerSize) % 2 ^ 64
    if block < h.heapStart ∨ h.heapEnd ≤ block then kmalloc h newSize
    else if (readBlock h.mem block).isFree then kmalloc h newSize
    else
      let oldSize := (readBlock h.mem block).size
      let newSize := align8 newSize
      if newSize ≤ oldSize then some (ptr, h)
      else
        (kmalloc h newSize).bind fun (newPtr, h) =>
          if newPtr = 0 then some (0, h)
          else
            let copySize := if oldSize < newSize then oldSize else newSize
            (kfree { h with mem := copyBytes h.mem newPtr ptr copySize } ptr).map
              fun h => (newPtr, h)

end Alos.KHeap
