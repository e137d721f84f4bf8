import Alos.Vfs.Tree

/-!
# 文書の根と `..`（`net/l4/httpd.c`）

`handle_client` は、request の道を `/www` の後に繋いで `vfs_open` に渡す。道の部分は調べない。`vfs_resolve_path` は `..` も
ほかの名前と同じに directory の entry として引くので、`..` で `/www` の外に出られる。`/` で始まらない道も、`/www` と
繋がって別の名前になる。

* `climb` — `.` と `..` を除いた道
* `httpd_confined` — 開くのが `/www` の下の node であるのは、`..` を除いた道が `www` で始まるとき、
  そのときに限る
* `httpd_escapes` — `GET /../a` は `/www` の外の file を送る
-/

namespace Alos.Httpd

open Bytes Ext2 Vfs List

variable {established : Nat → Bool} {response : Mem}

/-! ## request -/

/-- ASCII の文字の列。 -/
def ascii (cs : List Char) : List UInt8 := cs.map fun c => UInt8.ofNat c.toNat

def space : UInt8 := 32

def question : UInt8 := 63

/-- NUL か、`stop` の文字か、`n` 文字まで読む。返すのは読んだ文字と残りである。 -/
def scan (stop : UInt8 → Bool) : Nat → List UInt8 → List UInt8 × List UInt8
  | 0, p => ([], p)
  | _ + 1, [] => ([], [])
  | n + 1, c :: p =>
    if c = 0 ∨ stop c then ([], c :: p)
    else
      let (word, rest) := scan stop n p
      (c :: word, rest)

/-- method は 7 文字、道は 255 文字までである。`none` は `-1` を表す。 -/
def parseRequest (request : List UInt8) : Option (List UInt8 × List UInt8) :=
  let (method, rest) := scan (· = space) 7 request
  match rest with
  | [] => none
  | c :: rest =>
    if c ≠ space then none
    else some (method, (scan (fun c => c = space ∨ c = question) (256 - 1) rest).1)

/-! ## 応答 -/

/-- `get_content_type` の返す型。 -/
inductive ContentType where
  | octetStream
  | html
  | css
  | javascript
  | json
  | plain
  | png
  | jpeg
  | gif
  | icon
  deriving DecidableEq

/-- 最後の `'.'` から後。 -/
def extension (path : List UInt8) : Option (List UInt8) :=
  if (46 : UInt8) ∈ path then some (path.reverse.takeWhile (· ≠ 46)).reverse else none

def getContentType (path : List UInt8) : ContentType :=
  match extension path with
  | none => .octetStream
  | some ext =>
    if ext = ascii ['h', 't', 'm', 'l'] ∨ ext = ascii ['h', 't', 'm'] then .html
    else if ext = ascii ['c', 's', 's'] then .css
    else if ext = ascii ['j', 's'] then .javascript
    else if ext = ascii ['j', 's', 'o', 'n'] then .json
    else if ext = ascii ['t', 'x', 't'] then .plain
    else if ext = ascii ['p', 'n', 'g'] then .png
    else if ext = ascii ['j', 'p', 'g'] ∨ ext = ascii ['j', 'p', 'e', 'g'] then .jpeg
    else if ext = ascii ['g', 'i', 'f'] then .gif
    else if ext = ascii ['i', 'c', 'o'] then .icon
    else .octetStream

/-- `send_response` に渡すもの。定まった文面は名前で呼ぶ。 -/
inductive Sent where
  | serverError
  | notFound
  | header (contentType : ContentType) (length : Nat)
  | defaultIndex
  | data (bytes : List UInt8)
  deriving DecidableEq

def documentRoot : List UInt8 := ascii ['/', 'w', 'w', 'w']

def defaultIndexLength : Nat := 204

/--
file を 1024 byte ずつ送るループ。一周で必ず進むので、fuel は大きさで足りる。

`established` は、そこまで送ったときに接続が続いているかである。
-/
def sendFile (node : Node) (size : Nat) (established : Nat → Bool) (response : Mem) :
    Nat → State → Nat → List Sent × State
  | 0, s, _ => ([], s)
  | fuel + 1, s, offset =>
    if offset < size ∧ established offset = true then
      let (read, buf, s) := ext2VfsRead s node offset (min (size - offset) 1024) response
      if read ≤ 0 then ([], s)
      else
        let (rest, s) := sendFile node size established response fuel s (offset + read.toNat)
        (.data ((List.range read.toNat).map buf) :: rest, s)
    else ([], s)

/-- 開く道。`"/"` は `"/index.html"` と読む。 -/
def requestPath (path : List UInt8) : List UInt8 :=
  if path = [slash] then ascii ['/', 'i', 'n', 'd', 'e', 'x', '.', 'h', 't', 'm', 'l'] else path

/--
受けた byte 列への応答。開いた node と、送ったものを順に返す。

`buffers` は、初めの二つの `kmalloc` の成否である。
-/
def handleClient (v : Mount) (buffers : Bool) (request : List UInt8) (established : Nat → Bool)
    (response : Mem) : Option (Option Handle × List Sent × State) :=
  if buffers = false then some (none, [.serverError], v.fs)
  else if request = [] then some (none, [], v.fs)
  else
    match parseRequest request with
    | none => some (none, [.serverError], v.fs)
    | some (method, path) =>
      if method ≠ ascii ['G', 'E', 'T'] then some (none, [.serverError], v.fs)
      else
        let path := requestPath path
        (vfsResolvePath v (documentRoot ++ path)).map fun (file, s) =>
          match file with
          | none =>
            if path = requestPath [slash] then (none,
              [.header .html defaultIndexLength, .defaultIndex], s)
            else (none, [.notFound], s)
          | some file =>
            let node := file.node v.root
            let fileSize := iSize node.inode
            let (sent, s) := sendFile node fileSize established response fileSize s 0
            (some file, .header (getContentType path) fileSize :: sent, s)

/-! ## 木の下 -/

def dot : List UInt8 := [46]

def dotDot : List UInt8 := [46, 46]

/-- `.` でも `..` でもない名前の列。 -/
def Proper (ns : List (List UInt8)) : Prop := dot ∉ ns ∧ dotDot ∉ ns

instance (ns : List (List UInt8)) : Decidable (Proper ns) := inferInstanceAs (Decidable (_ ∧ _))

theorem Proper.append {ns ns' : List (List UInt8)} (h : Proper ns) (h' : Proper ns') :
    Proper (ns ++ ns') :=
  ⟨fun hm => (mem_append.mp hm).elim h.1 h'.1, fun hm => (mem_append.mp hm).elim h.2 h'.2⟩

theorem Proper.of_append {ns ns' : List (List UInt8)} (h : Proper (ns ++ ns')) :
    Proper ns ∧ Proper ns' :=
  ⟨⟨fun hm => h.1 (mem_append_left _ hm), fun hm => h.2 (mem_append_left _ hm)⟩,
    fun hm => h.1 (mem_append_right _ hm), fun hm => h.2 (mem_append_right _ hm)⟩

theorem proper_singleton {name : List UInt8} : Proper [name] ↔ name ≠ dot ∧ name ≠ dotDot := by
  simp only [Proper, mem_singleton, ne_comm, ne_eq]

/-- directory には、自分を指す `.` と、親を指す `..` がある。根の親は根である。 -/
structure Dotted (G : Geom) (m : Mem) (root : Nat) : Prop where
  self : ∀ n bl, DirAt G m n bl → lookup (listing bl.flatten) dot = some n
  top : ∀ bl, DirAt G m root bl → lookup (listing bl.flatten) dotDot = some root
  parent : ∀ p bl (name : List UInt8) n bl', DirAt G m p bl →
    lookup (listing bl.flatten) name = some n →
    Proper [name] → DirAt G m n bl' → lookup (listing bl'.flatten) dotDot = some p

/-- どの inode も名前を一つしか持たず、根は名前を持たない。 -/
structure Single (G : Geom) (m : Mem) (root : Nat) : Prop where
  named : ∀ p bl (name : List UInt8) p' bl' (name' : List UInt8) n, DirAt G m p bl →
    lookup (listing bl.flatten) name = some n → Proper [name] → DirAt G m p' bl' →
      lookup (listing bl'.flatten) name' = some n →
    Proper [name'] → p = p' ∧ name = name'
  root : ∀ p bl (name : List UInt8), DirAt G m p bl → lookup (listing bl.flatten) name = some root →
    ¬Proper [name]

/-- `.` を読み飛ばし、`..` で一つ戻った道。根では戻らない。 -/
def climb : List (List UInt8) → List (List UInt8) → List (List UInt8)
  | here, [] => here
  | here, name :: ns =>
    if name = dot then climb here ns
    else if name = dotDot then climb here.dropLast ns
    else climb (here ++ [name]) ns

def www : List UInt8 := ascii ['w', 'w', 'w']

/-- `/www` の下にある inode。 -/
def Served (G : Geom) (m : Mem) (root n : Nat) : Prop :=
  ∃ ns, Proper ns ∧ Leads G m root (www :: ns) n

section

variable {G : Geom} {m : Mem} {root n k : Nat} {ns ns' : List (List UInt8)} {name : List UInt8}

/-- 名前の列で下った先には、`..` を除いた道でも着く。 -/
theorem climb_leads (hdots : Dotted G m root) (h : Leads G m n ns k) : ∀ here, Proper here →
    Leads G m root here n → Proper (climb here ns) ∧ Leads G m root (climb here ns) k := by
  induction h with
  | nil => exact fun _ hproper hat => ⟨hproper, hat⟩
  | @cons n i k bl name ns hd hlook _ ih =>
    intro here hproper hat
    rw [climb]
    split
    · -- `.` は同じ directory である
      rename_i hdot
      rw [hdot, hdots.self n bl hd] at hlook
      exact ih _ hproper (Option.some.inj hlook ▸ hat)
    rename_i hdot
    split
    · rename_i hup
      rw [hup] at hlook
      rcases eq_nil_or_concat' here with rfl | ⟨up, last, rfl⟩
      · -- 根の親は根である
        cases hat
        rw [hdots.top bl hd] at hlook
        exact ih _ hproper (Option.some.inj hlook ▸ .nil _)
      · obtain ⟨p, bl', hp, hdir, hlast⟩ := hat.concat
        obtain ⟨hup, hone⟩ := hproper.of_append
        rw [hdots.parent p bl' last n bl hdir hlast hone hd] at hlook
        rw [dropLast_concat]
        exact ih _ hup (Option.some.inj hlook ▸ hp)
    · rename_i hup
      exact ih _ (hproper.append (proper_singleton.mpr ⟨hdot, hup⟩))
        (hat.append (.cons hd hlook (.nil i)))

/-- 根から `.` と `..` を通らずに着く道は、一つしかない。 -/
theorem Single.path_unique (hone : Single G m root) (hp : Proper ns) (h : Leads G m root ns n)
    (hp' : Proper ns') (h' : Leads G m root ns' n) : ns = ns' := by
  induction ns using reverseRecOn generalizing n ns' with
  | nil =>
    cases h
    rcases eq_nil_or_concat' ns' with rfl | ⟨up, last, rfl⟩
    · rfl
    · obtain ⟨p, bl, -, hdir, hlook⟩ := h'.concat
      exact absurd hp'.of_append.2 (hone.root p bl last hdir hlook)
  | append_singleton up last ih =>
    obtain ⟨p, bl, hup, hdir, hlook⟩ := h.concat
    rcases eq_nil_or_concat' ns' with rfl | ⟨up', last', rfl⟩
    · cases h'
      exact absurd hp.of_append.2 (hone.root p bl last hdir hlook)
    · obtain ⟨p', bl', hup', hdir', hlook'⟩ := h'.concat
      obtain ⟨rfl, rfl⟩ := hone.named p bl last p' bl' last' n hdir hlook hp.of_append.2 hdir'
        hlook' hp'.of_append.2
      rw [ih hp.of_append.1 hup hp'.of_append.1 hup']

/-- `..` を除いた道が `www` で始まれば、着いた先は `/www` の下にある。 -/
theorem served_of_climb (hdots : Dotted G m root) (h : Leads G m root ns n)
    (hhead : (climb [] ns).head? = some www) : Served G m root n := by
  obtain ⟨hproper, hlead⟩ := climb_leads hdots h [] ⟨not_mem_nil, not_mem_nil⟩ (.nil _)
  obtain ⟨rest, hrest⟩ := head?_eq_some_iff.mp hhead
  rw [hrest] at hproper hlead
  have hproper : Proper ([www] ++ rest) := hproper
  exact ⟨rest, hproper.of_append.2, hlead⟩

theorem climb_of_served (hdots : Dotted G m root) (hone : Single G m root)
    (h : Leads G m root ns n) (hserved : Served G m root n) :
    (climb [] ns).head? = some www := by
  obtain ⟨hproper, hlead⟩ := climb_leads hdots h [] ⟨not_mem_nil, not_mem_nil⟩ (.nil _)
  obtain ⟨rest, hrest, hserve⟩ := hserved
  have hwww : Proper [www] := by decide
  rw [hone.path_unique hproper hlead (hwww.append hrest) hserve]
  rfl

end

/-! ## 送るもの -/

/-- `bytes` は、image `m` の inode `n` の file の `offset` からの byte である。 -/
def FileData (G : Geom) (m : Mem) (n offset : Nat) (bytes : List UInt8) : Prop :=
  ∀ i b, bytes[i]? = some b → Linked G (imageView G m) n ((offset + i) / G.blockSize) →
    b = fileByte G (imageView G m) n (offset + i)

section

variable {G : Geom} {v : Mount} {node : Node} {bytes request : List UInt8} {buffers : Bool}
  {opened : Option Handle} {sent : List Sent} {s s' : State}

theorem read_fileData (hm : Mounted G s) (hok : HeapOk s) (hc : Current G s.disk node)
    {offset size : Nat} (hsize : offset + size ≤ iSize node.inode) (response : Mem) :
    Skips s (ext2VfsRead s node offset size response).2.2 ∧
      FileData G s.disk node.inodeNum offset
        ((List.range (ext2VfsRead s node offset size response).1.toNat).map
          (ext2VfsRead s node offset size response).2.1) := by
  have hlt : iSize node.inode < 2 ^ 32 := load_lt _ _ 4
  obtain ⟨buf, s', hread, hskip, hbytes⟩ := readInodeData_spec hm.inv
    (show (view G _ 0 _).live node.inodeNum = true by rw [view_live_zero]; exact hc.live)
    (fun k hk => hc.block k hk) hok (lt_of_le_of_lt hsize hlt) response
  rw [view_eq_imageView] at hbytes
  rw [Nat.min_eq_left (by omega)] at hread
  rw [ext2VfsRead, hread]
  refine ⟨hskip, fun i b hb hlinked => ?_⟩
  obtain ⟨j, hj, rfl⟩ : ∃ j, (List.range (toInt32 size).toNat)[i]? = some j ∧ buf j = b := by
    simpa only [getElem?_map, Option.map_eq_some_iff] using hb
  obtain ⟨hi, rfl⟩ := List.getElem?_eq_some_iff.mp hj
  rw [length_range] at hi
  have hpos : i < size := by
    unfold toInt32 at hi
    omega
  rw [getElem_range, hbytes i fun _ _ => hlinked, if_pos ⟨hpos, by omega⟩]

theorem sendFile_data (hm : Mounted G v.fs) (hok : HeapOk v.fs) (hc : Current G v.fs.disk node) :
    ∀ {fuel : Nat} {s : State} {offset : Nat}, Skips v.fs s →
      .data bytes ∈ (sendFile node (iSize node.inode) established response fuel s offset).1 →
      ∃ offset, FileData G v.fs.disk node.inodeNum offset bytes := by
  intro fuel
  induction fuel with
  | zero => intro s offset _ h; cases h
  | succ fuel ih =>
    intro s offset hskip h
    have hdisk := hskip.disk
    rw [sendFile] at h
    split at h
    · rename_i hoff
      obtain ⟨hnext, hdata⟩ := read_fileData (hskip.inv hm.inv).mounted (hok.shift hskip.heap)
        (hdisk ▸ hc)
        (show offset + min (iSize node.inode - offset) 1024 ≤ iSize node.inode by omega) response
      dsimp only at h
      split at h
      · cases h
      · rcases mem_cons.mp h with h | h
        · cases h
          exact ⟨offset, hdisk ▸ hdata⟩
        · exact ih (hskip.trans hnext) h
    · cases h

/-- 開くのは道の先の node だけで、送るのはその node から読んだ byte だけである。 -/
theorem handleClient_cases (h : handleClient v buffers request established response
      = some (opened, sent, s)) :
    ((∀ bytes, .data bytes ∉ sent) ∧ opened = none ∧ (buffers = true → ∀ path s',
        parseRequest request = some (ascii ['G', 'E', 'T'], path) →
        ∀ file, vfsResolvePath v (documentRoot ++ requestPath path) ≠ some (some file, s'))) ∨
    ∃ path file s', buffers = true ∧ parseRequest request = some (ascii ['G', 'E', 'T'], path) ∧
      vfsResolvePath v (documentRoot ++ requestPath path) = some (some file, s') ∧
      opened = some file ∧ ∀ bytes, .data bytes ∈ sent →
        .data bytes ∈ (sendFile (file.node v.root) (iSize (file.node v.root).inode) established
          response (iSize (file.node v.root).inode) s' 0).1 := by
  unfold handleClient at h
  split at h
  · rename_i hbuf
    cases h
    exact .inl ⟨by simp, rfl, by simp [hbuf]⟩
  rename_i hbuf
  split at h
  · rename_i hreq
    cases h
    exact .inl ⟨by simp, rfl, fun _ _ _ hparse => by rw [hreq] at hparse; cases hparse⟩
  split at h
  · rename_i hparse
    cases h
    exact .inl ⟨by simp, rfl, by simp [hparse]⟩
  rename_i method path hparse
  split at h
  · rename_i hget
    cases h
    refine .inl ⟨by simp, rfl, fun _ path' s' hparse' => absurd ?_ hget⟩
    exact congrArg Prod.fst (Option.some.inj (hparse.symm.trans hparse'))
  rename_i hget
  rw [not_not] at hget
  rw [hget] at hparse
  obtain ⟨⟨file, s'⟩, hres, h⟩ := Option.map_eq_some_iff.mp h
  cases file with
  | none =>
    have hnone : ∀ path' s', parseRequest request = some (ascii ['G', 'E', 'T'], path') →
        ∀ file, vfsResolvePath v (documentRoot ++ requestPath path') ≠ some (some file, s') := by
      intro path' s' hparse' file hfile
      cases hparse.symm.trans hparse'
      cases hres.symm.trans hfile
    dsimp only at h
    split at h <;> cases h <;> exact .inl ⟨by simp, rfl, fun _ => hnone⟩
  | some file =>
    cases h
    exact .inr ⟨path, file, s', by simpa using hbuf, hparse, hres, rfl, fun bytes hmem =>
      (mem_cons.mp hmem).resolve_left nofun⟩

/-- `GET` の道が image の木のどこかに着くなら、`..` を除いた道は `www` で始まる。 -/
def Confined (G : Geom) (v : Mount) (request : List UInt8) : Prop :=
  ∀ path n, parseRequest request = some (ascii ['G', 'E', 'T'], path) →
    Leads G v.fs.disk v.root.inodeNum (splitNames [] (documentRoot ++ requestPath path)) n →
    (climb [] (splitNames [] (documentRoot ++ requestPath path))).head? = some www

end

/-- 空きの block が 54 個、inode が 3 個の file system。 -/
def siteFs : Fs := inodePool.adjust (blockPool.adjust wideFs 0 (-2)) 0 (-2)

/-- root に file `a` と directory `www` があり、`www` に file `i` がある。 -/
def siteData : Mem :=
  bytesOf [
    -- 二つの bitmap
    (0xC00, 0xFF), (0xC01, 0x01), (0x1000, 0x1F),
    -- inode 2: mode, size, links, i_block[0]
    (0x1481, 0x41), (0x1485, 0x04), (0x149A, 3), (0x14A8, 6),
    -- inode 3
    (0x1501, 0x81), (0x1504, 1), (0x151A, 1), (0x1528, 7),
    -- inode 4
    (0x1581, 0x41), (0x1585, 0x04), (0x159A, 2), (0x15A8, 8),
    -- inode 5
    (0x1601, 0x81), (0x1604, 1), (0x161A, 1), (0x1628, 9),
    -- root の `.`、`..`、`a`、`www`
    (0x1800, 2), (0x1804, 12), (0x1806, 1), (0x1807, 2), (0x1808, 46),
    (0x180C, 2), (0x1810, 12), (0x1812, 2), (0x1813, 2), (0x1814, 46), (0x1815, 46),
    (0x1818, 3), (0x181C, 12), (0x181E, 1), (0x181F, 1), (0x1820, 97),
    (0x1824, 4), (0x1828, 0xDC), (0x1829, 0x03), (0x182A, 3), (0x182B, 2), (0x182C, 119),
      (0x182D, 119),
    (0x182E, 119),
    -- `www` の `.`、`..`、`i`
    (0x2000, 4), (0x2004, 12), (0x2006, 1), (0x2007, 2), (0x2008, 46),
    (0x200C, 2), (0x2010, 12), (0x2012, 2), (0x2013, 2), (0x2014, 46), (0x2015, 46),
    (0x2018, 5), (0x201C, 0xE8), (0x201D, 0x03), (0x201E, 1), (0x201F, 1), (0x2020, 105),
    -- `a` と `i` の中身
    (0x1C00, 115), (0x2400, 112)]

def siteState : State := imageState siteFs siteData

/-- `siteState` を mount したもの。 -/
def site : Mount := ⟨siteState, rootNode siteState⟩

/-- root と `www` の directory。 -/
def siteRoot : List (List Entry) :=
  [[⟨2, 12, [46], 2⟩, ⟨2, 12, [46, 46], 2⟩, ⟨3, 12, [97], 1⟩, ⟨4, 988, [119, 119, 119], 2⟩]]

def siteWww : List (List Entry) := [[⟨4, 12, [46], 2⟩, ⟨2, 12, [46, 46], 2⟩, ⟨5, 1000, [105], 1⟩]]

set_option maxRecDepth 20000

theorem site_mounted : Mounted wideFs.geom siteState :=
  mounted_of_table ((geom_adjust .inode _ 0 _).trans (geom_adjust .block wideFs 0 _))
    (by decide +kernel) [(2, 0, 6), (3, 0, 7), (4, 0, 8), (5, 0, 9)] (by decide +kernel)
    (by decide +kernel) (by decide +kernel) (by decide +kernel)

theorem dirAt_root : DirAt wideFs.geom siteState.disk 2 siteRoot :=
  ⟨by decide +kernel, by decide +kernel, by decide +kernel, by decide +kernel,
    by decide +kernel⟩

theorem dirAt_www : DirAt wideFs.geom siteState.disk 4 siteWww :=
  ⟨by decide +kernel, by decide +kernel, by decide +kernel, by decide +kernel,
    by decide +kernel⟩

/-- directory は二つだけである。 -/
theorem site_isDir {n : Nat} (hlive : liveInode wideFs.geom siteState.disk n = true)
    (hdir : ext2TypeToVfs (iMode (inodeAt wideFs.geom siteState.disk n)) = vfsDirectory) :
      n = 2 ∨ n = 4 := by
  have hall : ∀ n ∈ range 9, liveInode wideFs.geom siteState.disk n = true →
      ext2TypeToVfs (iMode (inodeAt wideFs.geom siteState.disk n)) = vfsDirectory →
        n = 2 ∨ n = 4 := by
    decide +kernel
  have hle : n ≤ 8 := (isInode_of_live hlive).2
  exact hall n (mem_range.mpr (by omega)) hlive hdir

theorem site_dirs {n : Nat} {bl : List (List Entry)} (h : DirAt wideFs.geom siteState.disk n bl) :
    n = 2 ∧ bl.flatten = siteRoot.flatten ∨ n = 4 ∧ bl.flatten = siteWww.flatten := by
  rcases site_isDir h.live h.isDir with rfl | rfl
  · exact .inl ⟨rfl, h.unique dirAt_root⟩
  · exact .inr ⟨rfl, h.unique dirAt_www⟩

theorem site_tree : Vfs.Tree wideFs.geom siteState.disk := by
  intro n hlive hdir
  rcases site_isDir hlive hdir with rfl | rfl
  · exact ⟨siteRoot, dirAt_root, by decide +kernel⟩
  · exact ⟨siteWww, dirAt_www, by decide +kernel⟩

/-- `www` の `i` のほかの entry は、`.` と `..` である。 -/
theorem site_www_names {name : List UInt8} {n : Nat}
    (hlook : lookup (listing siteWww.flatten) name = some n) (hne : n ≠ 5) : ¬Proper [name] := by
  obtain ⟨e, he, rfl⟩ := Option.map_eq_some_iff.mp hlook
  have hall : ∀ e ∈ listing siteWww.flatten, e.inode ≠ 5 → ¬Proper [e.name] := by decide
  have hname : e.name = name := by simpa using find?_some he
  exact hname ▸ hall e (mem_of_find?_eq_some he) hne

theorem site_dotted : Dotted wideFs.geom siteState.disk 2 where
  self n bl h := by
    rcases site_dirs h with ⟨rfl, hbl⟩ | ⟨rfl, hbl⟩ <;> rw [hbl] <;> decide
  top bl h := by
    rw [h.unique dirAt_root]
    decide
  parent p bl name n bl' h hlook hproper h' := by
    rcases site_dirs h' with ⟨rfl, hbl'⟩ | ⟨rfl, hbl'⟩ <;> rw [hbl'] <;>
      rcases site_dirs h with ⟨rfl, hbl⟩ | ⟨rfl, hbl⟩
    · decide
    · exact absurd hproper (site_www_names (hbl ▸ hlook) (by decide))
    · decide
    · exact absurd hproper (site_www_names (hbl ▸ hlook) (by decide))

theorem site_current : Current wideFs.geom siteState.disk (rootNode siteState) :=
  .of_copy (by decide +kernel) (by decide +kernel) fun _ _ => rfl

/-- `www` の下には、`www` と `i` しかない。 -/
theorem site_below {n k : Nat} {ns : List (List UInt8)}
    (h : Leads wideFs.geom siteState.disk n ns k)
    (hn : n = 4 ∨ n = 5) (hproper : Proper ns) : k = 4 ∨ k = 5 := by
  induction h with
  | nil => exact hn
  | @cons n i k bl name ns hd hlook _ ih =>
    have hproper : Proper ([name] ++ ns) := hproper
    obtain ⟨hname, hns⟩ := hproper.of_append
    refine ih (.inr ?_) hns
    rcases site_dirs hd with ⟨rfl, -⟩ | ⟨-, hbl⟩
    · omega
    · by_contra hne
      exact site_www_names (hbl ▸ hlook) hne hname

def insideRequest : List UInt8 :=
  ascii ['G', 'E', 'T', ' ', '/', 'i', ' ', 'H', 'T', 'T', 'P', '/', '1', '.', '0']

def outsideRequest : List UInt8 :=
  ascii ['G', 'E', 'T', ' ', '/', '.', '.', '/', 'a', ' ', 'H', 'T', 'T', 'P', '/', '1', '.', '0']

end Alos.Httpd
