import Alos.Lib.Bytes

/-!
# ext2 の disk（`fs/ext2.c` の低水準部分）

packed な構造体は byte 列のまま持ち、field は offset で読み書きする。
構造体ごとの複写（`memcpy`）は `blit` になる。

driver の外側は二つの oracle で表す。

* `io n` — これから `n` 番目の sector の転送が成功するか（`drivers/ata.c`）
* `heap n` — これから `n` 番目の `kmalloc` の結果。`none` は `NULL`、`some b` は中身が `b` の buffer

log は状態に残らないので省く。`kfree` も oracle の側のことなので現れない。
-/

namespace Alos.Ext2

open Bytes

/-! ## 構造体 -/

/-- `ext2_superblock_t`（1024 byte）の field。 -/
def sInodesCount (sb : Mem) : Nat := load sb 0 4
def sBlocksCount (sb : Mem) : Nat := load sb 4 4
def sFirstDataBlock (sb : Mem) : Nat := load sb 20 4
def sLogBlockSize (sb : Mem) : Nat := load sb 24 4
def sBlocksPerGroup (sb : Mem) : Nat := load sb 32 4
def sInodesPerGroup (sb : Mem) : Nat := load sb 40 4
def sMagic (sb : Mem) : Nat := load sb 56 2
def sRevLevel (sb : Mem) : Nat := load sb 76 4
def sInodeSize (sb : Mem) : Nat := load sb 88 2
def setSState (sb : Mem) (v : Nat) : Mem := store sb 58 2 v

def ext2Magic : Nat := 0xEF53
def ext2ErrorFs : Nat := 2
def groupDescSize : Nat := 32

/-- `ext2_group_desc_t` の配列の field。 -/
def bgInodeTable (gd : Mem) (group : Nat) : Nat := load gd (groupDescSize * group + 8) 4
def bgUsedDirsCount (gd : Mem) (group : Nat) : Nat := load gd (groupDescSize * group + 16) 2
def setBgUsedDirsCount (gd : Mem) (group v : Nat) : Mem :=
  store gd (groupDescSize * group + 16) 2 v

def inodeStructSize : Nat := 128

/-- `ext2_inode_t` の field。 -/
def iMode (ino : Mem) : Nat := load ino 0 2
def iSize (ino : Mem) : Nat := load ino 4 4
def iLinksCount (ino : Mem) : Nat := load ino 26 2
def iBlock (ino : Mem) (k : Nat) : Nat := load ino (40 + 4 * k) 4
def setIMode (ino : Mem) (v : Nat) : Mem := store ino 0 2 v
def setISize (ino : Mem) (v : Nat) : Mem := store ino 4 4 v
def setIDtime (ino : Mem) (v : Nat) : Mem := store ino 20 4 v
def setILinksCount (ino : Mem) (v : Nat) : Mem := store ino 26 2 v
def setIBlocks (ino : Mem) (v : Nat) : Mem := store ino 28 4 v
def setIBlock (ino : Mem) (k v : Nat) : Mem := store ino (40 + 4 * k) 4 v

structure Fs where
  superblock : Mem
  groupDescs : Mem
  blockSize : Nat
  inodesPerGroup : Nat
  blocksPerGroup : Nat
  numGroups : Nat
  inodeSize : Nat

/-- disk の中身、mount された file system、二つの oracle。 -/
structure State where
  disk : Mem
  fs : Fs
  io : Nat → Bool
  heap : Nat → Option Mem

def kmalloc (s : State) : Option Mem × State :=
  (s.heap 0, { s with heap := fun n => s.heap (n + 1) })

def zeroFill (buf : Mem) (off n : Nat) : Mem := blit buf off (fun _ => 0) 0 n

/-! ## sector と block -/

/-- sector の disk での位置。`ata.c` は LBA の下位 28 bit だけを送る。 -/
def sectorAddr (lba : Nat) : Nat := lba % 2 ^ 28 * 512

/-- 一つの sector を `buf + off` に読む。 -/
def ataReadSector (s : State) (lba : Nat) (buf : Mem) (off : Nat) : Bool × Mem × State :=
  let s' := { s with io := fun n => s.io (n + 1) }
  if s.io 0 then (true, blit buf off s.disk (sectorAddr lba) 512, s') else (false, buf, s')

/-- `buf + off` を一つの sector に書く。 -/
def ataWriteSector (s : State) (lba : Nat) (buf : Mem) (off : Nat) : Bool × State :=
  let s' := { s with io := fun n => s.io (n + 1) }
  if s.io 0 then (true, { s' with disk := blit s.disk (sectorAddr lba) buf off 512 })
  else (false, s')

/-- `lba + i` から `n` 個の sector を、`buf + 512 i` から読む。失敗したところで止まる。 -/
def readSectors (lba : Nat) : Nat → Nat → State → Mem → Bool × Mem × State
  | _, 0, s, buf => (true, buf, s)
  | i, n + 1, s, buf =>
    let (ok, buf, s) := ataReadSector s ((lba + i) % 2 ^ 32) buf (i * 512)
    if ok then readSectors lba (i + 1) n s buf else (false, buf, s)

def writeSectors (lba : Nat) (buf : Mem) : Nat → Nat → State → Bool × State
  | _, 0, s => (true, s)
  | i, n + 1, s =>
    let (ok, s) := ataWriteSector s ((lba + i) % 2 ^ 32) buf (i * 512)
    if ok then writeSectors lba buf (i + 1) n s else (false, s)

def ext2ReadBlock (s : State) (blockNum : Nat) (buf : Mem) : Bool × Mem × State :=
  let sectorsPerBlock := s.fs.blockSize / 512
  readSectors (blockNum * sectorsPerBlock % 2 ^ 32) 0 sectorsPerBlock s buf

def ext2WriteBlock (s : State) (blockNum : Nat) (buf : Mem) : Bool × State :=
  let sectorsPerBlock := s.fs.blockSize / 512
  writeSectors (blockNum * sectorsPerBlock % 2 ^ 32) buf 0 sectorsPerBlock s

/-! ## metadata の読み書き -/

/-- `superblock` は 1024 byte 目から、つまり sector 2 と 3 にある。 -/
def ext2WriteSuperblock (s : State) : Bool × State := writeSectors 2 s.fs.superblock 0 2 s

/-- group descriptor の表の最初の block。 -/
def gdtBlock (fs : Fs) : Nat := if fs.blockSize = 1024 then 2 else 1

/-- block を読み、`off` からの `n` byte を書き換えて、書き戻す。 -/
def patchBlock (s : State) (blockNum off : Nat) (src : Mem) (srcOff n : Nat) : Bool × State :=
  match kmalloc s with
  | (none, s) => (false, s)
  | (some buf, s) =>
    let (ok, buf, s) := ext2ReadBlock s blockNum buf
    if ok then ext2WriteBlock s blockNum (blit buf off src srcOff n) else (false, s)

def ext2WriteGroupDesc (s : State) (group : Nat) : Bool × State :=
  if s.fs.numGroups ≤ group then (false, s)
  else
    let descsPerBlock := s.fs.blockSize / groupDescSize
    patchBlock s (gdtBlock s.fs + group / descsPerBlock) (group % descsPerBlock * groupDescSize)
      s.fs.groupDescs (groupDescSize * group) groupDescSize

/-- inode の置かれた block。`inodeNum` は 1 から数える。 -/
def inodeBlock (fs : Fs) (inodeNum : Nat) : Nat :=
  let index := (inodeNum - 1) % fs.inodesPerGroup
  let inodesPerBlock := fs.blockSize / fs.inodeSize
  (bgInodeTable fs.groupDescs ((inodeNum - 1) / fs.inodesPerGroup) + index / inodesPerBlock)
    % 2 ^ 32

/-- inode の、その block の中での位置。 -/
def inodeOffset (fs : Fs) (inodeNum : Nat) : Nat :=
  let index := (inodeNum - 1) % fs.inodesPerGroup
  let inodesPerBlock := fs.blockSize / fs.inodeSize
  index % inodesPerBlock * fs.inodeSize

/-- 成功すれば、inode の 128 byte を返す。 -/
def ext2ReadInode (s : State) (inodeNum : Nat) : Option Mem × State :=
  if inodeNum = 0 then (none, s)
  else
    match kmalloc s with
    | (none, s) => (none, s)
    | (some buf, s) =>
      let (ok, buf, s) := ext2ReadBlock s (inodeBlock s.fs inodeNum) buf
      if ok then (some fun x => buf (inodeOffset s.fs inodeNum + x), s) else (none, s)

def ext2WriteInode (s : State) (inodeNum : Nat) (inode : Mem) : Bool × State :=
  if inodeNum = 0 then (false, s)
  else patchBlock s (inodeBlock s.fs inodeNum) (inodeOffset s.fs inodeNum) inode 0 inodeStructSize

end Alos.Ext2
