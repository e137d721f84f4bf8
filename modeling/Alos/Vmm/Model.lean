import Alos.Pmm.Model
import Alos.Vmm.Entry

/-!
# 仮想メモリ管理（`mm/vmm.c`）

四段の page table を物理メモリの中で辿り、足りない table を PMM から取って作る。

物理メモリは番地から byte への関数で、kernel はそれを HHDM の仮想番地
（物理番地 + `hhdm_offset`）で読み書きする。ポインタは 64 bit の自然数で、`NULL` は 0 である。
`page_directory_t` は、静的な `kernel_directory` か、PMM の block に置かれたものかである。

TLB の無効化と log は状態に残らないので省く。
-/

namespace Alos.Vmm

open Bytes Pmm

/-! ## 状態 -/

structure PageDirectory where
  pml4Phys : Nat
  pml4 : Nat
  deriving DecidableEq, Repr

/-- `page_directory_t *` の値。 -/
inductive Dir where
  | null
  | kernel
  | block (ptr : Nat)
  deriving DecidableEq, Repr

/-- 物理メモリ、PMM、`vmm.c` の静的変数。 -/
structure State where
  mem : Mem
  pmm : Pmm.State
  hhdmOffset : Nat
  kernelDirectory : PageDirectory
  currentDirectory : Dir

def physToVirt (s : State) (phys : Nat) : Nat := (phys + s.hhdmOffset) % 2 ^ 64

def virtToPhys (s : State) (virt : Nat) : Nat := (virt + 2 ^ 64 - s.hhdmOffset) % 2 ^ 64

/-! ## 物理メモリの読み書き -/

def readWord (s : State) (ptr : Nat) : Nat := load s.mem (virtToPhys s ptr) 8

def writeWord (s : State) (ptr v : Nat) : State :=
  { s with mem := store s.mem (virtToPhys s ptr) 8 v }

def readEntry (s : State) (table index : Nat) : Nat := readWord s ((table + 8 * index) % 2 ^ 64)

def writeEntry (s : State) (table index v : Nat) : State :=
  writeWord s ((table + 8 * index) % 2 ^ 64) v

/-- `*dir`。`pml4_phys` は offset 0、`pml4` は 8 にある。 -/
def readDir (s : State) : Dir → PageDirectory
  | .null => ⟨0, 0⟩
  | .kernel => s.kernelDirectory
  | .block ptr => ⟨readWord s ptr, readWord s ((ptr + 8) % 2 ^ 64)⟩

/-! ## 内部関数 -/

/-- block を取り、512 個の entry を 0 にする。 -/
def allocTable (s : State) : Nat × State :=
  let (table, pmm) := pmmAllocBlock s.pmm
  let s := { s with pmm }
  if table = 0 then (0, s)
  else (table, (List.range 512).foldl (fun s i => writeEntry s table i 0) s)

def freeTable (s : State) (table : Nat) : State := { s with pmm := pmmFreeBlock s.pmm table }

/-- entry があれば、`PAGE_HUGE` でも table を指すものとして辿る。なければ table を作る。 -/
def getOrCreateTable (s : State) (table index flags : Nat) : Nat × State :=
  if hasFlag (readEntry s table index) pagePresent then
    let s := if hasFlag flags pageUser then
        writeEntry s table index (readEntry s table index ||| pageUser)
      else s
    let phys := frameOf (readEntry s table index)
    (physToVirt s phys, s)
  else
    let (newTable, s) := allocTable s
    if newTable = 0 then (0, s)
    else
      let phys := virtToPhys s newTable
      (newTable, writeEntry s table index (tableEntry phys flags))

def getTable (s : State) (table index : Nat) : Nat :=
  if hasFlag (readEntry s table index) pagePresent then
    physToVirt s (frameOf (readEntry s table index))
  else 0

/-! ## 公開関数 -/

/-- `vmm_map_page` が最後に PT に書く entry。 -/
def leafEntry (phys flags : Nat) : Nat := phys ||| (flags &&& (0xFFF ||| pageNx)) ||| pagePresent

def vmmMapPage (s : State) (phys virt flags : Nat) : State :=
  let phys := pageAlignDown phys
  let virt := pageAlignDown virt
  let pml4 := (readDir s s.currentDirectory).pml4
  let (pdpt, s) := getOrCreateTable s pml4 (pml4Index virt) flags
  if pdpt = 0 then s
  else
    let (pd, s) := getOrCreateTable s pdpt (pdptIndex virt) flags
    if pd = 0 then s
    else
      let (pt, s) := getOrCreateTable s pd (pdIndex virt) flags
      if pt = 0 then s
      else writeEntry s pt (ptIndex virt) (leafEntry phys flags)

def vmmUnmapPage (s : State) (virt : Nat) : State :=
  let virt := pageAlignDown virt
  let pml4 := (readDir s s.currentDirectory).pml4
  let pdpt := getTable s pml4 (pml4Index virt)
  if pdpt = 0 then s
  else
    let pd := getTable s pdpt (pdptIndex virt)
    if pd = 0 then s
    else
      let pt := getTable s pd (pdIndex virt)
      if pt = 0 then s
      else writeEntry s pt (ptIndex virt) 0

/-- 戻り値は page の frame。辿れなければ 0。 -/
def vmmGetPhysAddr (s : State) (dir : Dir) (virtAddr : Nat) : Nat :=
  if dir = .null then 0
  else
    let virtAddr := pageAlignDown virtAddr
    let pdpt := getTable s (readDir s dir).pml4 (pml4Index virtAddr)
    if pdpt = 0 then 0
    else
      let pd := getTable s pdpt (pdptIndex virtAddr)
      if pd = 0 then 0
      else
        let pde := readEntry s pd (pdIndex virtAddr)
        if hasFlag pde pageHuge then (frameOf pde + (virtAddr &&& 0x1FFFFF)) % 2 ^ 64
        else
          let pt := getTable s pd (pdIndex virtAddr)
          if pt = 0 then 0
          else
            let pte := readEntry s pt (ptIndex virtAddr)
            if hasFlag pte pagePresent then frameOf pte else 0

/-- 現在の directory を差し替えて `vmm_map_page` を呼び、元に戻す。失敗しても 0 を返す。 -/
def vmmMapPageInDir (s : State) (dir : Dir) (phys virt flags : Nat) : Int × State :=
  if dir = .null then (-1, s)
  else
    let saved := s.currentDirectory
    let s := vmmMapPage { s with currentDirectory := dir } phys virt flags
    (0, { s with currentDirectory := saved })

/-- 上半分（256–511）と、あれば `PML4[0]` を、kernel の PML4 から entry のまま写す。 -/
def vmmCreateDirectory (s : State) : Dir × State :=
  let (dir, pmm) := pmmAllocBlock s.pmm
  let s := { s with pmm }
  if dir = 0 then (.null, s)
  else
    let (pml4, s) := allocTable s
    if pml4 = 0 then (.null, { s with pmm := pmmFreeBlock s.pmm dir })
    else
      let s := writeWord s ((dir + 8) % 2 ^ 64) pml4
      let s := writeWord s dir (virtToPhys s pml4)
      let s := (List.range' 256 256).foldl
        (fun s i => writeEntry s pml4 i (readEntry s s.kernelDirectory.pml4 i)) s
      let s := if hasFlag (readEntry s s.kernelDirectory.pml4 0) pagePresent then
          writeEntry s pml4 0 (readEntry s s.kernelDirectory.pml4 0)
        else s
      (.block dir, s)

/-- `vmm_free_directory` の最も内側のループ。PD の指す PT を返す。 -/
def freePts (s : State) (pd : Nat) : State :=
  (List.range 512).foldl (fun s k =>
    if hasFlag (readEntry s pd k) pagePresent = false then s
    else if hasFlag (readEntry s pd k) pageHuge then s
    else
      let pt := getTable s pd k
      if pt = 0 then s else freeTable s pt) s

/-- PDPT の指す PD を、その PT とともに返す。 -/
def freePds (s : State) (pdpt : Nat) : State :=
  (List.range 512).foldl (fun s j =>
    if hasFlag (readEntry s pdpt j) pagePresent = false then s
    else
      let pd := getTable s pdpt j
      if pd = 0 then s else freeTable (freePts s pd) pd) s

def vmmFreeDirectory (s : State) (dir : Dir) : State :=
  match dir with
  | .null => s
  | .kernel => s
  | .block ptr =>
    let pml4 := (readDir s dir).pml4
    let s := (List.range 256).foldl (fun s i =>
      if hasFlag (readEntry s pml4 i) pagePresent = false then s
      else
        let pdpt := getTable s pml4 i
        if pdpt = 0 then s else freeTable (freePds s pdpt) pdpt) s
    let s := freeTable s pml4
    { s with pmm := pmmFreeBlock s.pmm ptr }

/-- 下半分（0–255）も entry のまま写す。table は共有される。 -/
def vmmCloneDirectory (s : State) (src : Dir) : Dir × State :=
  if src = .null then (.null, s)
  else
    let (dst, s) := vmmCreateDirectory s
    if dst = .null then (.null, s)
    else
      (dst, (List.range 256).foldl (fun s i =>
        writeEntry s (readDir s dst).pml4 i (readEntry s (readDir s src).pml4 i)) s)

end Alos.Vmm
