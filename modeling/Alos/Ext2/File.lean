import Alos.Ext2.Alloc

/-!
# file の中身（`fs/ext2.c`）

file の block から disk の block への対応は、source に二つある。

* `readMapBlock` — `ext2_read_inode_data` の中に書かれたもの
* `ext2GetBlock` — `ext2_get_block`。足りない block を割り当てもする

前者は、間接 block がない（pointer が 0 の）ときも block 0 を間接 block として読む。
-/

namespace Alos.Ext2

open Bytes

/-- 間接 block 一つに入る pointer の数。 -/
def ptrsPerBlock (fs : Fs) : Nat := fs.blockSize / 4

/-- 二重間接で届く block の数。 -/
def doubleLimit (fs : Fs) : Nat :=
  (12 + ptrsPerBlock fs + ptrsPerBlock fs * ptrsPerBlock fs) % 2 ^ 32

/-! ## 読み出し -/

/-- 読む block の番号。0 は穴である。`kmalloc` の失敗は `none` になる。 -/
def readMapBlock (s : State) (inode : Mem) (blockIndex : Nat) : Option Nat × State :=
  let ptrs := ptrsPerBlock s.fs
  if blockIndex < 12 then (some (iBlock inode blockIndex), s)
  else if blockIndex < 12 + ptrs then
    match kmalloc s with
    | (none, s) => (none, s)
    | (some indirect, s) =>
      let (ok, indirect, s) := ext2ReadBlock s (iBlock inode 12) indirect
      (some (if ok then load indirect (4 * (blockIndex - 12)) 4 else 0), s)
  else if blockIndex < doubleLimit s.fs then
    let diIndex := blockIndex - 12 - ptrs
    match kmalloc s with
    | (none, s) => (none, s)
    | (some indirect, s) =>
      let (ok, indirect, s) := ext2ReadBlock s (iBlock inode 13) indirect
      if ok then
        let (ok, indirect, s) := ext2ReadBlock s (load indirect (4 * (diIndex / ptrs)) 4) indirect
        (some (if ok then load indirect (4 * (diIndex % ptrs)) 4 else 0), s)
      else (some 0, s)
  else (some 0, s)

/-- `ext2_read_inode_data` のループ。一周で必ず進むので、fuel は `size` で足りる。 -/
def readLoop (inode : Mem) (size : Nat) :
    Nat → State → Nat → Nat → Nat → Mem → Mem → Int × Mem × State
  | 0, s, _, _, bytesRead, buffer, _ => (toInt32 bytesRead, buffer, s)
  | fuel + 1, s, blockIndex, blockOffset, bytesRead, buffer, blockBuffer =>
    if bytesRead < size then
      match readMapBlock s inode blockIndex with
      | (none, s) => (-1, buffer, s)
      | (some blockNum, s) =>
        let toCopy := min (s.fs.blockSize - blockOffset) (size - bytesRead)
        if blockNum = 0 then
          readLoop inode size fuel s (blockIndex + 1) 0 (bytesRead + toCopy)
            (zeroFill buffer bytesRead toCopy) blockBuffer
        else
          let (ok, blockBuffer, s) := ext2ReadBlock s blockNum blockBuffer
          if ok then
            readLoop inode size fuel s (blockIndex + 1) 0 (bytesRead + toCopy)
              (blit buffer bytesRead blockBuffer blockOffset toCopy) blockBuffer
          else (-1, buffer, s)
    else (toInt32 bytesRead, buffer, s)

def ext2ReadInodeData (s : State) (inode : Mem) (offset size : Nat) (buffer : Mem) :
    Int × Mem × State :=
  if iSize inode ≤ offset then (0, buffer, s)
  else
    let size := if iSize inode < (offset + size) % 2 ^ 32 then iSize inode - offset else size
    match kmalloc s with
    | (none, s) => (-1, buffer, s)
    | (some blockBuffer, s) =>
      readLoop inode size size s (offset / s.fs.blockSize) (offset % s.fs.blockSize) 0 buffer
        blockBuffer

/-! ## block の対応と割り当て -/

/-- 新しい block を割り当てて 0 で埋める。使えない番号は 0 にする。 -/
def allocZeroed (s : State) (buf : Mem) : Nat × State :=
  let (newBlock, s) := ext2AllocBlock s
  if 0 < newBlock then
    (newBlock.toNat, (ext2WriteBlock s newBlock.toNat (zeroFill buf 0 s.fs.blockSize)).2)
  else (0, s)

/-- `i_block[k]` の間接 block。なければ割り当てる。 -/
def ensureRoot (s : State) (inode : Mem) (k : Nat) (buf : Mem) (allocate : Bool) :
    Nat × Mem × State :=
  if iBlock inode k = 0 ∧ allocate = true then
    let (newBlock, s) := allocZeroed s buf
    if newBlock = 0 then (0, inode, s) else (newBlock, setIBlock inode k newBlock, s)
  else (iBlock inode k, inode, s)

/--
間接 block `parent` の `index` 番目の pointer。`buf` は `parent` の中身である。
なければ割り当て、`parent` を先に書き、新しい block を 0 で埋める。
-/
def ensureEntry (s : State) (parent index : Nat) (buf : Mem) (allocate : Bool) : Nat × State :=
  let blockNum := load buf (4 * index) 4
  if blockNum = 0 ∧ allocate = true then
    let (newBlock, s) := ext2AllocBlock s
    if 0 < newBlock then
      let (_, s) := ext2WriteBlock s parent (store buf (4 * index) 4 newBlock.toNat)
      let (_, s) := ext2WriteBlock s newBlock.toNat (zeroFill buf 0 s.fs.blockSize)
      (newBlock.toNat, s)
    else (0, s)
  else (blockNum, s)

/-- 直接 block。0 で埋める buffer が取れなくても、割り当ては成功とする。 -/
def getDirect (s : State) (inode : Mem) (blockIdx : Nat) (allocate : Bool) : Nat × Mem × State :=
  if iBlock inode blockIdx = 0 ∧ allocate = true then
    let (newBlock, s) := ext2AllocBlock s
    if 0 < newBlock then
      let inode := setIBlock inode blockIdx newBlock.toNat
      match kmalloc s with
      | (none, s) => (newBlock.toNat, inode, s)
      | (some buf, s) =>
        (newBlock.toNat, inode, (ext2WriteBlock s newBlock.toNat (zeroFill buf 0 s.fs.blockSize)).2)
    else (0, inode, s)
  else (iBlock inode blockIdx, inode, s)

def getIndirect (s : State) (inode : Mem) (index : Nat) (allocate : Bool) : Nat × Mem × State :=
  match kmalloc s with
  | (none, s) => (0, inode, s)
  | (some buf, s) =>
    let (root, inode, s) := ensureRoot s inode 12 buf allocate
    if root = 0 then (0, inode, s)
    else
      let (ok, buf, s) := ext2ReadBlock s root buf
      if ok then
        let (blockNum, s) := ensureEntry s root index buf allocate
        (blockNum, inode, s)
      else (0, inode, s)

def getDouble (s : State) (inode : Mem) (first second : Nat) (allocate : Bool) :
    Nat × Mem × State :=
  match kmalloc s with
  | (none, s) => (0, inode, s)
  | (some buf, s) =>
    let (root, inode, s) := ensureRoot s inode 13 buf allocate
    if root = 0 then (0, inode, s)
    else
      let (ok, buf, s) := ext2ReadBlock s root buf
      if ok then
        let (middle, s) := ensureEntry s root first buf allocate
        if middle = 0 then (0, inode, s)
        else
          let (ok, buf, s) := ext2ReadBlock s middle buf
          if ok then
            let (blockNum, s) := ensureEntry s middle second buf allocate
            (blockNum, inode, s)
          else (0, inode, s)
      else (0, inode, s)

/-- 三重間接は扱わない。 -/
def ext2GetBlock (s : State) (inode : Mem) (blockIdx : Nat) (allocate : Bool) :
    Nat × Mem × State :=
  let ptrs := ptrsPerBlock s.fs
  if blockIdx < 12 then getDirect s inode blockIdx allocate
  else if blockIdx < 12 + ptrs then getIndirect s inode (blockIdx - 12) allocate
  else if blockIdx < doubleLimit s.fs then
    let diIndex := blockIdx - 12 - ptrs
    getDouble s inode (diIndex / ptrs) (diIndex % ptrs) allocate
  else (0, inode, s)

/-! ## 書き込み -/

def growSize (inode : Mem) (offset bytesWritten : Nat) : Mem :=
  if iSize inode < (offset + bytesWritten) % 2 ^ 32 then
    setISize inode ((offset + bytesWritten) % 2 ^ 32)
  else inode

/-- 一つの block への書き込み。全体を書かないなら先に読む。読めなければ 0 とみなす。 -/
def writeChunk (s : State) (blockNum blockOffset toWrite : Nat) (src : Mem) (srcOff : Nat)
    (blockBuffer : Mem) : Bool × Mem × State :=
  let (blockBuffer, s) :=
    if 0 < blockOffset ∨ toWrite < s.fs.blockSize then
      let (ok, buf, s) := ext2ReadBlock s blockNum blockBuffer
      (if ok then buf else zeroFill buf 0 s.fs.blockSize, s)
    else (blockBuffer, s)
  let blockBuffer := blit blockBuffer blockOffset src srcOff toWrite
  let (ok, s) := ext2WriteBlock s blockNum blockBuffer
  (ok, blockBuffer, s)

/-- 途中で失敗したときの戻り値。 -/
def partialResult (bytesWritten : Nat) : Int :=
    if 0 < bytesWritten then toInt32 bytesWritten else -1

/-- `ext2_write_inode_data` のループ。最後まで書けたら `none` を返す。 -/
def writeLoop (inodeNum offset size : Nat) (src : Mem) :
    Nat → State → Mem → Nat → Nat → Nat → Mem → Option Int × Mem × State
  | 0, s, inode, _, _, _, _ => (none, inode, s)
  | fuel + 1, s, inode, blockIndex, blockOffset, bytesWritten, blockBuffer =>
    if bytesWritten < size then
      let (blockNum, inode, s) := ext2GetBlock s inode blockIndex true
      if blockNum = 0 then
        if 0 < bytesWritten then
          let inode := growSize inode offset bytesWritten
          (some (partialResult bytesWritten), inode, (ext2WriteInode s inodeNum inode).2)
        else (some (partialResult bytesWritten), inode, s)
      else
        let toWrite := min (s.fs.blockSize - blockOffset) (size - bytesWritten)
        let (ok, blockBuffer, s) :=
          writeChunk s blockNum blockOffset toWrite src bytesWritten blockBuffer
        if ok then
          writeLoop inodeNum offset size src fuel s inode (blockIndex + 1) 0
            (bytesWritten + toWrite) blockBuffer
        else (some (partialResult bytesWritten), inode, s)
    else (none, inode, s)

/-- `i_blocks` は、`i_size` を覆う block の数だけを数える。 -/
def usedSectors (fs : Fs) (inode : Mem) : Nat :=
  (iSize inode + fs.blockSize - 1) % 2 ^ 32 / fs.blockSize * (fs.blockSize / 512) % 2 ^ 32

/-- 戻り値、書き換わった inode、状態。 -/
def ext2WriteInodeData (s : State) (inode : Mem) (inodeNum offset size : Nat) (src : Mem) :
    Int × Mem × State :=
  if size = 0 then (0, inode, s)
  else
    match kmalloc s with
    | (none, s) => (-1, inode, s)
    | (some blockBuffer, s) =>
      match writeLoop inodeNum offset size src size s inode (offset / s.fs.blockSize)
          (offset % s.fs.blockSize) 0 blockBuffer with
      | (some result, inode, s) => (result, inode, s)
      | (none, inode, s) =>
        let inode := growSize inode offset size
        let inode := setIBlocks inode (usedSectors s.fs inode)
        let (ok, s) := ext2WriteInode s inodeNum inode
        (if ok then toInt32 size else -1, inode, s)

end Alos.Ext2
