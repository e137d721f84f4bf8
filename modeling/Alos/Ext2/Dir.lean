import Alos.Ext2.File

/-!
# directory と VFS の callback（`fs/ext2.c`）

directory の data は一度に `kmalloc` した buffer に読み、entry を `rec_len` で辿る。
`rec_len` は検査されないので、辿り方によっては止まらないことも、buffer の外に書くこともある。
その二つを `none` で表す。buffer の外を読んだときの値は `heap` の oracle が決める。

VFS node のうち、ここの関数が読むのは inode の番号、その写し、種類だけである。
-/

namespace Alos.Ext2

open Bytes

/-! ## VFS node -/

def vfsFile : Nat := 0x01
def vfsDirectory : Nat := 0x02
def vfsCharDevice : Nat := 0x03
def vfsBlockDevice : Nat := 0x04
def vfsPipe : Nat := 0x05
def vfsSymlink : Nat := 0x06

def ext2TypeToVfs (mode : Nat) : Nat :=
  if mode &&& 0xF000 = 0x8000 then vfsFile
  else if mode &&& 0xF000 = 0x4000 then vfsDirectory
  else if mode &&& 0xF000 = 0x2000 then vfsCharDevice
  else if mode &&& 0xF000 = 0x6000 then vfsBlockDevice
  else if mode &&& 0xF000 = 0xA000 then vfsSymlink
  else if mode &&& 0xF000 = 0x1000 then vfsPipe
  else vfsFile

/-- `vfs_node_t` と `ext2_node_data_t`。`inode` は disk の inode の写しである。 -/
structure Node where
  inodeNum : Nat
  inode : Mem
  type : Nat

/-- node と data の二つの領域を取り、inode を読む。 -/
def ext2CreateNode (s : State) (inodeNum : Nat) : Option Node × State :=
  match kmalloc s with
  | (none, s) => (none, s)
  | (some _, s) =>
    match kmalloc s with
    | (none, s) => (none, s)
    | (some _, s) =>
      match ext2ReadInode s inodeNum with
      | (none, s) => (none, s)
      | (some inode, s) => (some ⟨inodeNum, inode, ext2TypeToVfs (iMode inode)⟩, s)

def ext2VfsRead (s : State) (node : Node) (offset size : Nat) (buffer : Mem) : Int × Mem × State :=
  ext2ReadInodeData s node.inode offset size buffer

/-- directory には書けない。 -/
def ext2VfsWrite (s : State) (node : Node) (offset size : Nat) (src : Mem) :
    Int × Node × State :=
  if node.type = vfsDirectory then (-1, node, s)
  else
    let (result, inode, s) := ext2WriteInodeData s node.inode node.inodeNum offset size src
    (result, { node with inode }, s)

/-! ## directory の entry -/

/-- offset `o` にある `ext2_dir_entry_t` の field。 -/
def deInode (d : Mem) (o : Nat) : Nat := load d o 4
def deRecLen (d : Mem) (o : Nat) : Nat := load d (o + 4) 2
def deNameLen (d : Mem) (o : Nat) : Nat := (d (o + 6)).toNat
def deFileType (d : Mem) (o : Nat) : Nat := (d (o + 7)).toNat
def setDeInode (d : Mem) (o v : Nat) : Mem := store d o 4 v
def setDeRecLen (d : Mem) (o v : Nat) : Mem := store d (o + 4) 2 v

/-- byte の列を置く。 -/
def putBytes (d : Mem) (o : Nat) (bs : List UInt8) : Mem :=
  fun x => if o ≤ x ∧ x < o + bs.length then bs.getD (x - o) 0 else d x

/-- header と名前を置く。 -/
def putEntry (d : Mem) (o inode recLen : Nat) (name : List UInt8) (fileType : Nat) : Mem :=
  let d := setDeInode d o inode
  let d := setDeRecLen d o recLen
  let d := store d (o + 6) 1 name.length
  let d := store d (o + 7) 1 fileType
  putBytes d (o + 8) name

/-- entry の名前が `name` と同じ byte の列である。 -/
def nameMatches (d : Mem) (o : Nat) (name : List UInt8) : Bool :=
  deNameLen d o == name.length &&
    (List.range name.length).all fun i => d (o + 8 + i) == name.getD i 0

/-- 名前に要る大きさ。4 byte に揃える。 -/
def ext2DirEntrySize (nameLen : Nat) : Nat := (8 + nameLen + 3) / 4 * 4

/-- offset は 32 bit なので、これだけ回って終わらなければ終わらない。 -/
def walkFuel : Nat := 2 ^ 32

/-- directory の data 全体を新しい buffer に読む。大きさ 0 の `kmalloc` は失敗する。 -/
def readDirData (s : State) (inode : Mem) : Option Mem × State :=
  if iSize inode = 0 then (none, s)
  else
    match kmalloc s with
    | (none, s) => (none, s)
    | (some buf, s) =>
      let (n, buf, s) := ext2ReadInodeData s inode 0 (iSize inode) buf
      if n < 0 then (none, s) else (some buf, s)

/-- `ext2_vfs_finddir` のループ。名前を比べてから `rec_len` を見る。 -/
def findScan (d : Mem) (size : Nat) (name : List UInt8) : Nat → Nat → Option (Option Nat)
  | 0, _ => none
  | fuel + 1, offset =>
    if offset < size then
      if deInode d offset ≠ 0 ∧ nameMatches d offset name = true then some (some offset)
      else if deRecLen d offset = 0 then some none
      else findScan d size name fuel ((offset + deRecLen d offset) % 2 ^ 32)
    else some none

def ext2VfsFinddir (s : State) (node : Node) (name : List UInt8) : Option (Option Node × State) :=
  if node.type &&& vfsDirectory = 0 then some (none, s)
  else
    match readDirData s node.inode with
    | (none, s) => some (none, s)
    | (some d, s) =>
      (findScan d (iSize node.inode) name walkFuel 0).map fun found =>
        match found with
        | none => (none, s)
        | some offset => ext2CreateNode s (deInode d offset)

def ext2FtypeToVfs (fileType : Nat) : Nat :=
  if fileType = 1 then vfsFile
  else if fileType = 2 then vfsDirectory
  else if fileType = 3 then vfsCharDevice
  else if fileType = 4 then vfsBlockDevice
  else if fileType = 7 then vfsSymlink
  else if fileType = 5 then vfsPipe
  else vfsFile

structure Dirent where
  name : List UInt8
  inode : Nat
  type : Nat
  deriving DecidableEq, Repr

/-- `ext2_vfs_readdir` のループ。`current` は、これまでに見た使用中の entry の数である。 -/
def readdirScan (d : Mem) (size index : Nat) : Nat → Nat → Nat → Option (Option Nat)
  | 0, _, _ => none
  | fuel + 1, offset, current =>
    if offset < size then
      if deInode d offset ≠ 0 ∧ current = index then some (some offset)
      else if deRecLen d offset = 0 then some none
      else readdirScan d size index fuel ((offset + deRecLen d offset) % 2 ^ 32)
        (if deInode d offset ≠ 0 then current + 1 else current)
    else some none

/-- offset にある entry の写し。名前は `VFS_MAX_NAME` までである。 -/
def direntAt (d : Mem) (o : Nat) : Dirent where
  name := (List.range (min (deNameLen d o) 255)).map fun i => d (o + 8 + i)
  inode := deInode d o
  type := ext2FtypeToVfs (deFileType d o)

def ext2VfsReaddir (s : State) (node : Node) (index : Nat) : Option (Option Dirent × State) :=
  if node.type &&& vfsDirectory = 0 then some (none, s)
  else
    match readDirData s node.inode with
    | (none, s) => some (none, s)
    | (some d, s) =>
      (readdirScan d (iSize node.inode) index walkFuel 0 0).map fun found =>
        (found.map (direntAt d), s)

/-- `ext2_remove_dir_entry` のループ。`rec_len` を見てから名前を比べ、直前の entry も覚える。 -/
def removeScan (d : Mem) (size : Nat) (name : List UInt8) :
    Nat → Nat → Option Nat → Option (Option (Nat × Option Nat))
  | 0, _, _ => none
  | fuel + 1, offset, prev =>
    if offset < size then
      if deRecLen d offset = 0 then some none
      else if deInode d offset ≠ 0 ∧ nameMatches d offset name = true then
        some (some (offset, prev))
      else removeScan d size name fuel ((offset + deRecLen d offset) % 2 ^ 32) (some offset)
    else some none

/-- 見つけた entry を、直前の entry に合わせるか、`inode` を 0 にして消す。 -/
def eraseEntry (d : Mem) (size offset : Nat) (prev : Option Nat) : Option Mem :=
  match prev with
  | some p =>
    if p + 6 ≤ size then
      some (setDeRecLen d p ((deRecLen d p + deRecLen d offset) % 2 ^ 16))
    else none
  | none => if offset + 4 ≤ size then some (setDeInode d offset 0) else none

/-- 消した entry の inode、書き換わった directory の inode、状態。 -/
def ext2RemoveDirEntry (s : State) (dirInode : Mem) (dirInodeNum : Nat) (name : List UInt8) :
    Option (Int × Mem × State) :=
  if 255 < name.length ∨ name.length = 0 then some (-1, dirInode, s)
  else
    match readDirData s dirInode with
    | (none, s) => some (-1, dirInode, s)
    | (some d, s) =>
      (removeScan d (iSize dirInode) name walkFuel 0 none).bind fun found =>
        match found with
        | none => some (-1, dirInode, s)
        | some (offset, prev) =>
          (eraseEntry d (iSize dirInode) offset prev).map fun d' =>
            if toInt32 (deInode d offset) < 0 then (-1, dirInode, s)
            else
              let (n, dirInode, s) :=
                ext2WriteInodeData s dirInode dirInodeNum 0 (iSize dirInode) d'
              (if n < 0 then -1 else toInt32 (deInode d offset), dirInode, s)

/-- `ext2_add_dir_entry` のループ。entry の余りに `needed` byte が入る最初の offset。 -/
def spaceScan (d : Mem) (size needed : Nat) : Nat → Nat → Option (Option Nat)
  | 0, _ => none
  | fuel + 1, offset =>
    if offset < size then
      if deRecLen d offset = 0 then some none
      else if needed ≤ (deRecLen d offset + 2 ^ 32 - ext2DirEntrySize (deNameLen d offset)) % 2 ^ 32
      then some (some offset)
      else spaceScan d size needed fuel ((offset + deRecLen d offset) % 2 ^ 32)
    else some none

/-- 見つけた entry を縮め、余りに新しい entry を置く。 -/
def splitEntry (d : Mem) (size offset newInode : Nat) (name : List UInt8) (fileType : Nat) :
    Option Mem :=
  let actual := ext2DirEntrySize (deNameLen d offset)
  let free := (deRecLen d offset + 2 ^ 32 - actual) % 2 ^ 32
  if offset + actual + 8 + name.length ≤ size then
    some (putEntry (setDeRecLen d offset actual) (offset + actual) newInode (free % 2 ^ 16) name
      fileType)
  else none

/-- directory の後ろに一つの block を足した data。 -/
def extendDir (fs : Fs) (buf d : Mem) (size newInode : Nat) (name : List UInt8) (fileType : Nat) :
    Mem :=
  let buf := blit buf 0 d 0 size
  let buf := zeroFill buf size fs.blockSize
  putEntry buf size newInode (fs.blockSize % 2 ^ 16) name fileType

/-- 成否、書き換わった directory の inode、状態。 -/
def ext2AddDirEntry (s : State) (dirInode : Mem) (dirInodeNum newInode : Nat)
    (name : List UInt8) (fileType : Nat) : Option (Bool × Mem × State) :=
  let name := name.take 255
  let finish := fun (s : State) (dirInode d : Mem) =>
    let (n, dirInode, s) := ext2WriteInodeData s dirInode dirInodeNum 0 (iSize dirInode) d
    (decide (0 ≤ n), dirInode, s)
  let go := fun (s : State) (d : Mem) =>
    (spaceScan d (iSize dirInode) (ext2DirEntrySize name.length) walkFuel 0).bind fun found =>
      match found with
      | some offset =>
        (splitEntry d (iSize dirInode) offset newInode name fileType).map fun d =>
          finish s dirInode d
      | none =>
        -- ここで取った block はどこにも繋がれない
        let (newBlock, s) := ext2AllocBlock s
        if newBlock < 0 then some (false, dirInode, s)
        else
          match kmalloc s with
          | (none, s) => some (false, dirInode, (ext2FreeBlock s newBlock.toNat).2)
          | (some buf, s) =>
            if iSize dirInode + s.fs.blockSize < 2 ^ 32 then
              let d := extendDir s.fs buf d (iSize dirInode) newInode name fileType
              some (finish s (setISize dirInode (iSize dirInode + s.fs.blockSize)) d)
            else none
  if iSize dirInode = 0 then
    match kmalloc s with
    | (none, s) => some (false, dirInode, s)
    | (some d, s) => go s d
  else
    match readDirData s dirInode with
    | (none, s) => some (false, dirInode, s)
    | (some d, s) => go s d

/-! ## 作成 -/

/-- すべて 0 の inode。 -/
def zeroInode : Mem := fun _ => 0

/-- `ext2_vfs_create` の書く inode。 -/
def newFileInode : Mem := setILinksCount (setIMode zeroInode (0x8000 ||| 0o644)) 1

def ext2VfsCreate (s : State) (parent : Node) (name : List UInt8) :
    Option (Int × Node × State) :=
  if parent.type &&& vfsDirectory = 0 then some (-1, parent, s)
  else
    (ext2VfsFinddir s parent name).bind fun (existing, s) =>
      if existing.isSome then some (-1, parent, s)
      else
        let (inodeNum, s) := ext2AllocInode s
        if inodeNum < 0 then some (-1, parent, s)
        else
          let (ok, s) := ext2WriteInode s inodeNum.toNat newFileInode
          if ok then
            (ext2AddDirEntry s parent.inode parent.inodeNum inodeNum.toNat name 1).map
              fun (ok, inode, s) =>
                let parent := { parent with inode }
                if ok then (0, parent, s)
                else (-1, parent, (ext2FreeInode s inodeNum.toNat).2)
          else some (-1, parent, (ext2FreeInode s inodeNum.toNat).2)

/-- `ext2_vfs_mkdir` の書く inode。 -/
def newDirInode (fs : Fs) (block : Nat) : Mem :=
  let ino := setIMode zeroInode (0x4000 ||| 0o755)
  let ino := setISize ino fs.blockSize
  let ino := setILinksCount ino 2
  let ino := setIBlocks ino (fs.blockSize / 512)
  setIBlock ino 0 block

/-- `.` と `..` だけの directory の block。 -/
def newDirBlock (fs : Fs) (buf : Mem) (inodeNum parentNum : Nat) : Mem :=
  let buf := zeroFill buf 0 fs.blockSize
  let buf := putEntry buf 0 inodeNum 12 [46] 2
  putEntry buf 12 parentNum ((fs.blockSize - 12) % 2 ^ 16) [46, 46] 2

/-- 新しい directory の block と inode を書く。失敗したら両方を返す。 -/
def makeDirectory (s : State) (inodeNum newBlock parentNum : Nat) : Bool × State :=
  let undo := fun s => (false, (ext2FreeInode (ext2FreeBlock s newBlock).2 inodeNum).2)
  match kmalloc s with
  | (none, s) => undo s
  | (some buf, s) =>
    let (ok, s) := ext2WriteBlock s newBlock (newDirBlock s.fs buf inodeNum parentNum)
    if ok then
      let (ok, s) := ext2WriteInode s inodeNum (newDirInode s.fs newBlock)
      if ok then (true, s) else undo s
    else undo s

/-- 親の link の数と、group の directory の数を増やす。書けたかどうかは見ない。 -/
def linkDirectory (s : State) (parent : Node) (inodeNum : Nat) : Node × State :=
  let parent := { parent with
    inode := setILinksCount parent.inode ((iLinksCount parent.inode + 1) % 2 ^ 16) }
  let (_, s) := ext2WriteInode s parent.inodeNum parent.inode
  let group := (inodeNum - 1) / s.fs.inodesPerGroup
  if group < s.fs.numGroups then
    let s := { s with fs := { s.fs with
      groupDescs := setBgUsedDirsCount s.fs.groupDescs group
        ((bgUsedDirsCount s.fs.groupDescs group + 1) % 2 ^ 16) } }
    (parent, (ext2WriteGroupDesc s group).2)
  else (parent, s)

def ext2VfsMkdir (s : State) (parent : Node) (name : List UInt8) :
    Option (Int × Node × State) :=
  if parent.type &&& vfsDirectory = 0 then some (-1, parent, s)
  else
    (ext2VfsFinddir s parent name).bind fun (existing, s) =>
      if existing.isSome then some (-1, parent, s)
      else
        let (inodeNum, s) := ext2AllocInode s
        if inodeNum < 0 then some (-1, parent, s)
        else
          let (newBlock, s) := ext2AllocBlock s
          if newBlock < 0 then some (-1, parent, (ext2FreeInode s inodeNum.toNat).2)
          else
            let (ok, s) := makeDirectory s inodeNum.toNat newBlock.toNat parent.inodeNum
            if ok then
              (ext2AddDirEntry s parent.inode parent.inodeNum inodeNum.toNat name 2).map
                fun (ok, inode, s) =>
                  let parent := { parent with inode }
                  if ok then
                    let (parent, s) := linkDirectory s parent inodeNum.toNat
                    (0, parent, s)
                  else
                    (-1, parent, (ext2FreeInode (ext2FreeBlock s newBlock.toNat).2
                      inodeNum.toNat).2)
            else some (-1, parent, s)

/-! ## 削除 -/

/-- `.` と `..` のほかの entry があるか。 -/
def emptyScan (d : Mem) (size : Nat) : Nat → Nat → Option Bool
  | 0, _ => none
  | fuel + 1, offset =>
    if offset < size then
      if deRecLen d offset = 0 then some true
      else
        let isDot := deNameLen d offset = 1 ∧ d (offset + 8) = 46
        let isDotDot := deNameLen d offset = 2 ∧ d (offset + 8) = 46 ∧ d (offset + 9) = 46
        (emptyScan d size fuel ((offset + deRecLen d offset) % 2 ^ 32)).map fun rest =>
          rest && (deInode d offset == 0 || decide (isDot ∨ isDotDot))
    else some true

/-- `1` は空、`0` は空でない、`-1` は読めなかったことを表す。 -/
def ext2IsDirEmpty (s : State) (dirInode : Mem) : Option (Int × State) :=
  if iSize dirInode = 0 then some (1, s)
  else
    match readDirData s dirInode with
    | (none, s) => some (-1, s)
    | (some d, s) =>
      (emptyScan d (iSize dirInode) walkFuel 0).map fun empty => (if empty then 1 else 0, s)

/-- 直接 block だけを返す。間接 block は返さない。 -/
def ext2FreeInodeBlocks (s : State) (inode : Mem) : Mem × State :=
  (List.range 12).foldl (fun (inode, s) i =>
    if iBlock inode i = 0 then (inode, s)
    else (setIBlock inode i 0, (ext2FreeBlock s (iBlock inode i)).2)) (inode, s)

/-- link の数が 0 になった file の block と inode を返す。どれも成否を見ない。 -/
def destroyInode (s : State) (parent target : Node) : Node × State :=
  let (inode, s) := ext2FreeInodeBlocks s target.inode
  let inode := setISize (setIDtime inode 1) 0
  let (_, s) := ext2WriteInode s target.inodeNum inode
  let (_, s) := ext2FreeInode s target.inodeNum
  if target.type = vfsDirectory then
    let group := (target.inodeNum - 1) / s.fs.inodesPerGroup
    let s :=
      if group < s.fs.numGroups ∧ 0 < bgUsedDirsCount s.fs.groupDescs group then
        let s := { s with fs := { s.fs with
          groupDescs := setBgUsedDirsCount s.fs.groupDescs group
            (bgUsedDirsCount s.fs.groupDescs group - 1) } }
        (ext2WriteGroupDesc s group).2
      else s
    if 0 < iLinksCount parent.inode then
      let parent := { parent with
        inode := setILinksCount parent.inode (iLinksCount parent.inode - 1) }
      (parent, (ext2WriteInode s parent.inodeNum parent.inode).2)
    else (parent, s)
  else (parent, s)

/-- `.` と `..` は消せない。directory は空でなければ消せない。 -/
def ext2VfsUnlink (s : State) (parent : Node) (name : List UInt8) :
    Option (Int × Node × State) :=
  if name = [46] ∨ name = [46, 46] then some (-1, parent, s)
  else
    (ext2VfsFinddir s parent name).bind fun (target, s) =>
      match target with
      | none => some (-1, parent, s)
      | some target =>
        (if target.type = vfsDirectory then ext2IsDirEmpty s target.inode
          else some (1, s)).bind fun (empty, s) =>
        if empty ≠ 1 then some (-1, parent, s)
        else
          (ext2RemoveDirEntry s parent.inode parent.inodeNum name).map fun (removed, inode, s) =>
            let parent := { parent with inode }
            if removed < 0 then (-1, parent, s)
            else
              let links := (iLinksCount target.inode + 2 ^ 16 - 1) % 2 ^ 16
              let target := { target with inode := setILinksCount target.inode links }
              if links = 0 then
                let (parent, s) := destroyInode s parent target
                (0, parent, s)
              else (0, parent, (ext2WriteInode s target.inodeNum target.inode).2)

end Alos.Ext2
