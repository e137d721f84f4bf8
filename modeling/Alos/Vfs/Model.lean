import Alos.Ext2.Dir

/-!
# VFS の道の解決（`fs/vfs.c`）

道は byte の列で、終わりの NUL は含まない。`vfs_resolve_path` は `vfs_root` から始めて、`/` で区切った
部分を一つずつ `finddir` で引く。255 文字を超える部分は、255 文字ごとに切れる。

node は引くたびに作られるが、`vfs_root` は mount のときに作られた一つの node であり、directory の操作は
その写しの inode を書き換える。そこで、解決の結果は `vfs_root` そのものか、新しい node かを区別する。

file system は ext2 だけを mount しているものとする。ext2 の node は、directory のときだけ `finddir` などの
callback を持つ。
-/

namespace Alos.Vfs

open Bytes Ext2

def vfsMaxName : Nat := 255
def vfsMaxPath : Nat := 4096

def slash : UInt8 := 47

/-- file system の状態と、`vfs_root` の指す node。 -/
structure Mount where
  fs : State
  root : Node

/-- 解決した node。`vfs_root` か、新しく作られた node である。 -/
inductive Handle where
  | root
  | fresh (node : Node)

def Handle.node (root : Node) : Handle → Node
  | .root => root
  | .fresh node => node

/-- 操作が node を書き換えた後の状態。新しい node は、どこからも指されない。 -/
def Mount.update (v : Mount) (h : Handle) (node : Node) (fs : State) : Mount :=
  match h with
  | .root => ⟨fs, node⟩
  | .fresh _ => ⟨fs, v.root⟩

/-! ## 道の解決 -/

/-- 道の最初の部分と残り。`'/'` の手前か、`n` 文字で切れる。 -/
def component : Nat → List UInt8 → List UInt8 × List UInt8
  | 0, p => ([], p)
  | _ + 1, [] => ([], [])
  | n + 1, c :: p =>
    if c = slash then ([], c :: p)
    else
      let (name, rest) := component n p
      (c :: name, rest)

/-- node の `finddir` を呼ぶ。directory でなければ callback がない。 -/
def finddir (s : State) (node : Node) (name : List UInt8) : Option (Option Node × State) :=
  if node.type = vfsDirectory then ext2VfsFinddir s node name else some (none, s)

/-- `vfs_resolve_path` のループ。一周で一文字以上進む。 -/
def resolveLoop (root : Node) : Nat → State → Handle → List UInt8 → Option (Option Handle × State)
  | _, s, current, [] => some (some current, s)
  | 0, _, _, _ :: _ => none
  | fuel + 1, s, current, c :: p =>
    let (name, rest) := component vfsMaxName (c :: p)
    let rest := rest.dropWhile (· = slash)
    if name = [] then resolveLoop root fuel s current rest
    else
      (finddir s (current.node root) name).bind fun (next, s) =>
        match next with
        | none => some (none, s)
        | some node => resolveLoop root fuel s (.fresh node) rest

/-- 絶対の道だけを解決する。 -/
def vfsResolvePath (v : Mount) (path : List UInt8) : Option (Option Handle × State) :=
  match path with
  | [] => some (none, v.fs)
  | c :: p =>
    if c ≠ slash then some (none, v.fs)
    else if p = [] then some (some .root, v.fs)
    else resolveLoop v.root p.length v.fs .root p

/-! ## 親に対する操作 -/

/-- 最後の `'/'` の位置。 -/
def lastSlash : List UInt8 → Nat → Option Nat → Option Nat
  | [], _, last => last
  | c :: p, i, last => lastSlash p (i + 1) (if c = slash then some i else last)

/-- 親の道。`VFS_MAX_PATH - 1` 文字で切れる。 -/
def parentPath (path : List UInt8) (k : Nat) : List UInt8 :=
  if k = 0 then [slash] else path.take (min k (vfsMaxPath - 1))

/-- 親を解決し、その callback を最後の名前で呼ぶ。 -/
def atParent (callback : State → Node → List UInt8 → Option (Int × Node × State)) (v : Mount)
    (path : List UInt8) : Option (Int × Mount) :=
  match lastSlash path 0 none with
  | none => some (-1, v)
  | some k =>
    let name := path.drop (k + 1)
    if name = [] then some (-1, v)
    else
      (vfsResolvePath v (parentPath path k)).bind fun (parent, s) =>
        match parent with
        | none => some (-1, ⟨s, v.root⟩)
        | some h =>
          let node := h.node v.root
          -- directory の種類の bit と、callback の有無を順に見る
          if node.type &&& vfsDirectory = 0 then some (-1, ⟨s, v.root⟩)
          else if node.type ≠ vfsDirectory then some (-1, ⟨s, v.root⟩)
          else (callback s node name).map fun (r, node, s) => (r, v.update h node s)

def vfsCreate (v : Mount) (path : List UInt8) : Option (Int × Mount) :=
  if path = [] then some (-1, v)
  else if path.head? ≠ some slash then some (-1, v)
  else atParent ext2VfsCreate v path

def vfsMkdir (v : Mount) (path : List UInt8) : Option (Int × Mount) :=
  if path = [] then some (-1, v)
  else if path.head? ≠ some slash then some (-1, v)
  else atParent ext2VfsMkdir v path

/-- root は消せない。絶対の道かどうかは、親の解決で分かる。 -/
def vfsUnlink (v : Mount) (path : List UInt8) : Option (Int × Mount) :=
  if path = [] then some (-1, v)
  else if path = [slash] then some (-1, v)
  else atParent ext2VfsUnlink v path

def vfsRmdir (v : Mount) (path : List UInt8) : Option (Int × Mount) := vfsUnlink v path

end Alos.Vfs
