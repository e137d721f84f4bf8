import Alos.Ext2.Disk
import Alos.Lib.Bitmap

/-!
# block と inode の割り当て（`fs/ext2.c`）

`ext2_alloc_block` と `ext2_alloc_inode`、`ext2_free_block` と `ext2_free_inode` は、
見る field と番号の付け方だけが違う。共通の部分を `Pool` で括る。
-/

namespace Alos.Ext2

open Bytes

/-! ## bitmap -/

/-- 一つの byte の中で最初の 0 の bit。`some none` は `max_bits` に達したことを表す。 -/
def zeroBitOfByte (b : UInt8) (byte maxBits : Nat) : Option (Option Nat) :=
  (List.range 8).findSome? fun bit =>
    if maxBits ≤ byte * 8 + bit then some none
    else if b &&& (1 <<< UInt8.ofNat bit) = 0 then some (some (byte * 8 + bit))
    else none

/-- 最初の 0 の bit。`none` は `-1` である。 -/
def findFirstZeroBit (bitmap : Mem) (size maxBits : Nat) : Option Nat :=
  ((List.range size).findSome? fun byte =>
    if bitmap byte ≠ 0xFF then zeroBitOfByte (bitmap byte) byte maxBits else none).join

/-! ## 共通の部分 -/

/-- block または inode の管理に使う field と、番号の付け方。 -/
structure Pool where
  /-- superblock の空きの数の offset（4 byte）。 -/
  sbCount : Nat
  /-- group descriptor の空きの数の offset（2 byte）。 -/
  gdCount : Nat
  /-- group descriptor の bitmap の block の offset（4 byte）。 -/
  gdBitmap : Nat
  perGroup : Fs → Nat
  /-- 探す bit の数。 -/
  searched : Fs → Nat → Nat
  /-- group 0 の bit 0 の番号。 -/
  base : Fs → Nat

def Pool.total (p : Pool) (fs : Fs) : Nat := load fs.superblock p.sbCount 4

def Pool.count (p : Pool) (fs : Fs) (group : Nat) : Nat :=
  load fs.groupDescs (groupDescSize * group + p.gdCount) 2

def Pool.bitmap (p : Pool) (fs : Fs) (group : Nat) : Nat :=
  load fs.groupDescs (groupDescSize * group + p.gdBitmap) 4

/-- group と superblock の空きの数を、ともに `d` だけ変える。 -/
def Pool.adjust (p : Pool) (fs : Fs) (group : Nat) (d : Int) : Fs :=
  { fs with
    groupDescs := store fs.groupDescs (groupDescSize * group + p.gdCount) 2
      ((p.count fs group + d) % 2 ^ 16).toNat
    superblock := store fs.superblock p.sbCount 4 ((p.total fs + d) % 2 ^ 32).toNat }

def toInt32 (n : Nat) : Int := if n % 2 ^ 32 < 2 ^ 31 then n % 2 ^ 32 else n % 2 ^ 32 - 2 ^ 32

/-- group の 0 の bit を一つ取った後、bitmap と数を書く。descriptor が書けなければ元に戻す。 -/
def Pool.take (p : Pool) (s : State) (group bit : Nat) (bitmap : Mem) : Int × State :=
  let bitmapBlock := p.bitmap s.fs group
  let bitmap := Bitmap.set bitmap bit
  let (ok, s) := ext2WriteBlock s bitmapBlock bitmap
  if ok then
    let num := group * p.perGroup s.fs + p.base s.fs + bit
    let s := { s with fs := p.adjust s.fs group (-1) }
    let (ok, s) := ext2WriteGroupDesc s group
    if ok then
      let (_, s) := ext2WriteSuperblock s
      (toInt32 num, s)
    else
      let bitmap := Bitmap.clear bitmap bit
      let (_, s) := ext2WriteBlock s bitmapBlock bitmap
      (-1, { s with fs := p.adjust s.fs group 1 })
  else (-1, s)

/-- 空きのある group を順に見る。 -/
def Pool.allocIn (p : Pool) : List Nat → State → Mem → Int × State
  | [], s, _ => (-1, s)
  | group :: groups, s, bitmap =>
    if p.count s.fs group = 0 then p.allocIn groups s bitmap
    else
      let (ok, bitmap, s) := ext2ReadBlock s (p.bitmap s.fs group) bitmap
      if ok then
        match findFirstZeroBit bitmap s.fs.blockSize (p.searched s.fs group) with
        | none => p.allocIn groups s bitmap
        | some bit => p.take s group bit bitmap
      else (-1, s)

def Pool.alloc (p : Pool) (s : State) : Int × State :=
  if p.total s.fs = 0 then (-1, s)
  else
    match kmalloc s with
    | (none, s) => (-1, s)
    | (some bitmap, s) => p.allocIn (List.range s.fs.numGroups) s bitmap

/-- 番号から `base` を引いた `adjusted` の bit を 0 に戻す。既に 0 なら失敗する。 -/
def Pool.free (p : Pool) (s : State) (adjusted : Nat) : Bool × State :=
  let group := adjusted / p.perGroup s.fs
  let bit := adjusted % p.perGroup s.fs
  if s.fs.numGroups ≤ group then (false, s)
  else
    match kmalloc s with
    | (none, s) => (false, s)
    | (some bitmap, s) =>
      let bitmapBlock := p.bitmap s.fs group
      let (ok, bitmap, s) := ext2ReadBlock s bitmapBlock bitmap
      if ok = false then (false, s)
      else if bitmap (bit / 8) &&& (1 <<< UInt8.ofNat (bit % 8)) = 0 then (false, s)
      else
        let (ok, s) := ext2WriteBlock s bitmapBlock (Bitmap.clear bitmap bit)
        if ok then
          let s := { s with fs := p.adjust s.fs group 1 }
          -- metadata が書けたかどうかは見ない
          let (_, s) := ext2WriteGroupDesc s group
          let (_, s) := ext2WriteSuperblock s
          (true, s)
        else (false, s)

/-! ## block -/

/-- 最後の group は `s_blocks_count % blocks_per_group` 個とみなす。 -/
def blocksInGroup (fs : Fs) (group : Nat) : Nat :=
  let remaining := sBlocksCount fs.superblock % fs.blocksPerGroup
  if group = fs.numGroups - 1 ∧ remaining ≠ 0 then remaining else fs.blocksPerGroup

def blockPool : Pool where
  sbCount := 12
  gdCount := 12
  gdBitmap := 0
  perGroup fs := fs.blocksPerGroup
  searched := blocksInGroup
  base fs := sFirstDataBlock fs.superblock

def ext2AllocBlock (s : State) : Int × State := blockPool.alloc s

def ext2FreeBlock (s : State) (blockNum : Nat) : Bool × State :=
  blockPool.free s ((blockNum + 2 ^ 32 - sFirstDataBlock s.fs.superblock) % 2 ^ 32)

/-! ## inode -/

def inodePool : Pool where
  sbCount := 16
  gdCount := 14
  gdBitmap := 4
  perGroup fs := fs.inodesPerGroup
  searched fs _ := fs.inodesPerGroup
  base _ := 1

def ext2AllocInode (s : State) : Int × State := inodePool.alloc s

def ext2FreeInode (s : State) (inodeNum : Nat) : Bool × State :=
  if inodeNum = 0 then (false, s) else inodePool.free s (inodeNum - 1)

end Alos.Ext2
