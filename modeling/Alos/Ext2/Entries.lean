import Alos.Ext2.Dir
import Alos.Lib.Records

/-!
# directory の data

directory の data を、entry の列と見る。entry は `rec_len` で data を隙間なく敷き詰める。

* `Laid` — data が entry の列で敷き詰められている
* `findScan_eq` など — `ext2_*` のループは、列の上の探索である
* `Laid.erase`、`Laid.merge`、`Laid.split`、`Laid.extend` — data の書き換えは、列の書き換えである
-/

namespace Alos.Ext2

open Bytes Records List

/-! ## entry -/

/-- `ext2_dir_entry_t` の中身。 -/
structure Entry where
  inode : Nat
  recLen : Nat
  name : List UInt8
  fileType : Nat
  deriving DecidableEq, Repr

def entryAt (d : Mem) (o : Nat) : Entry where
  inode := deInode d o
  recLen := deRecLen d o
  name := (List.range (deNameLen d o)).map fun i => d (o + 8 + i)
  fileType := deFileType d o

/-- `rec_len` は 4 の倍数で、header と名前が収まる。 -/
def Entry.Fits (e : Entry) : Prop := 4 ∣ e.recLen ∧ 8 + e.name.length ≤ e.recLen
  deriving Decidable

/-- entry が実際に使う大きさ。 -/
def Entry.used (e : Entry) : Nat := ext2DirEntrySize e.name.length

/-- 使用中で、名前が `name` である。 -/
def Entry.has (name : List UInt8) (e : Entry) : Bool := e.inode != 0 && e.name == name

theorem Entry.has_iff {name : List UInt8} {e : Entry} :
    e.has name = true ↔ e.inode ≠ 0 ∧ e.name = name := by
  simp [Entry.has]

/-- 余りに `needed` byte が入る。 -/
def Entry.roomy (needed : Nat) (e : Entry) : Bool := decide (e.used + needed ≤ e.recLen)

/-- data の先頭の `size` byte は、entry の列 `es` で敷き詰められている。 -/
structure Laid (d : Mem) (size : Nat) (es : List Entry) : Prop where
  tiles : Tiles Entry.recLen (entryAt d) 0 es size
  fits : ∀ e ∈ es, e.Fits

section Entry

variable {d d' : Mem} {o size : Nat} {e : Entry} {es pre mid mid' post : List Entry}
  {name : List UInt8}

theorem length_entryAt (d : Mem) (o : Nat) : (entryAt d o).name.length = deNameLen d o := by
  simp [entryAt]

theorem deNameLen_lt (d : Mem) (o : Nat) : deNameLen d o < 256 := UInt8.toNat_lt_size _

theorem nameMatches_iff : nameMatches d o name = true ↔ (entryAt d o).name = name := by
  unfold nameMatches
  simp only [Bool.and_eq_true, beq_iff_eq, all_eq_true, mem_range]
  constructor
  · rintro ⟨hlen, hall⟩
    apply ext_getElem
    · rw [length_entryAt, hlen]
    · intro i h1 h2
      have := hall i h2
      rw [getD_eq_getElem] at this
      simpa [entryAt] using this
  · rintro rfl
    refine ⟨(length_entryAt d o).symm, fun i hi => ?_⟩
    rw [getD_eq_getElem _ _ hi]
    simp [entryAt]

theorem has_entryAt : (entryAt d o).has name = true ↔
    deInode d o ≠ 0 ∧ nameMatches d o name = true := by
  simp only [Entry.has, Bool.and_eq_true, bne_iff_ne, beq_iff_eq, nameMatches_iff]
  rfl

/-- entry は、header と名前の byte だけで決まる。 -/
theorem entryAt_congr (h : ∀ y, o ≤ y → y < o + 8 + (entryAt d o).name.length → d' y = d y) :
    entryAt d' o = entryAt d o := by
  rw [length_entryAt] at h
  have hlen : deNameLen d' o = deNameLen d o := by
    unfold deNameLen
    rw [h _ (by omega) (by omega)]
  unfold entryAt
  congr 1
  · exact load_congr fun y h1 h2 => h y h1 (by omega)
  · exact load_congr fun y h1 h2 => h y (by omega) (by omega)
  · rw [hlen]
    apply map_congr_left
    intro i hi
    have := mem_range.mp hi
    exact h _ (by omega) (by omega)
  · unfold deFileType
    rw [h _ (by omega) (by omega)]

theorem Entry.Fits.recLen_pos (h : e.Fits) : 0 < e.recLen := by
  have := h.2
  omega

theorem Entry.used_eq (e : Entry) : e.used = (e.name.length + 11) / 4 * 4 := by
  unfold Entry.used ext2DirEntrySize
  rw [show 8 + e.name.length + 3 = e.name.length + 11 by omega]

theorem Entry.Fits.used_le (h : e.Fits) : e.used ≤ e.recLen := by
  obtain ⟨⟨c, hc⟩, hle⟩ := h
  rw [e.used_eq]
  omega

theorem Entry.le_used (e : Entry) : 8 + e.name.length ≤ e.used := by
  rw [e.used_eq]
  omega

/-- 範囲の byte が同じなら、敷き詰めも同じである。 -/
theorem tiles_frame {a b : Nat} (h : Tiles Entry.recLen (entryAt d) a es b)
    (hfits : ∀ e ∈ es, e.Fits) (hd : ∀ y, a ≤ y → y < b → d' y = d y) :
    Tiles Entry.recLen (entryAt d') a es b := by
  refine h.congr ?_
  rintro o x hx ho hle rfl
  have hf := (hfits _ hx).2
  exact entryAt_congr fun y h1 h2 => hd y (by omega) (by omega)

theorem Laid.congr (h : Laid d size es) (hd : ∀ y < size, d' y = d y) : Laid d' size es :=
  ⟨tiles_frame h.tiles h.fits fun y _ hy => hd y hy, h.fits⟩

/-- 列の一部を、同じ範囲を敷き詰める別の列に取り替える。 -/
theorem Laid.replace (h : Laid d size (pre ++ mid ++ post))
    (hmid : Tiles Entry.recLen (entryAt d') (span Entry.recLen pre) mid'
      (span Entry.recLen pre + span Entry.recLen mid)) (hfits : ∀ e ∈ mid', e.Fits)
    (hd : ∀ y, y < span Entry.recLen pre ∨ span Entry.recLen pre + span Entry.recLen mid ≤ y →
      y < size → d' y = d y) : Laid d' size (pre ++ mid' ++ post) := by
  have htiles := h.tiles
  rw [append_assoc, tiles_append, tiles_append, Nat.zero_add] at htiles
  obtain ⟨hpre, -, hpost⟩ := htiles
  have hend := hpost.end_eq
  have hspan : span Entry.recLen mid' = span Entry.recLen mid := by
    have := hmid.end_eq
    omega
  refine ⟨?_, ?_⟩
  · rw [append_assoc, tiles_append, tiles_append, Nat.zero_add, hspan]
    refine ⟨tiles_frame hpre (fun e he => h.fits e (by simp [he])) ?_, hmid,
      tiles_frame hpost (fun e he => h.fits e (by simp [he])) ?_⟩
    · intro y _ hy
      exact hd y (.inl hy) (by omega)
    · intro y hy hlt
      exact hd y (.inr hy) hlt
  · intro e he
    simp only [mem_append] at he
    rcases he with (he | he) | he
    · exact h.fits e (by simp [he])
    · exact hfits e he
    · exact h.fits e (by simp [he])

end Entry

/-! ## ループは列の上の探索である -/

section Scan

variable {d : Mem} {size : Nat} {name : List UInt8}

/-- ループについての帰納法。敷き詰められた data では、一周で entry が一つ進む。 -/
@[elab_as_elim]
theorem scan_rule (hsize : size < 2 ^ 32) {P : List Entry → Nat → Nat → Prop}
    (nil : ∀ fuel, P [] size (fuel + 1))
    (cons : ∀ es o fuel, o < size → deRecLen d o ≠ 0 →
      (o + deRecLen d o) % 2 ^ 32 = o + (entryAt d o).recLen →
      P es (o + (entryAt d o).recLen) fuel → P (entryAt d o :: es) o (fuel + 1)) :
    ∀ {es : List Entry} {o fuel : Nat}, Tiles Entry.recLen (entryAt d) o es size →
      es.length < fuel → P es o fuel
  | _, _, 0, _, hf => absurd hf (Nat.not_lt_zero _)
  | [], _, fuel + 1, h, _ => (show _ = size from h) ▸ nil fuel
  | e :: es, o, fuel + 1, ⟨he, hpos, h⟩, hf => by
    have hle := h.length_le
    subst he
    have hlen : deRecLen d o = (entryAt d o).recLen := rfl
    exact cons es o fuel (by omega) (by omega) (by rw [hlen, Nat.mod_eq_of_lt (by omega)])
      (scan_rule hsize nil cons h (by simpa using hf))

variable {es : List Entry} {o fuel : Nat}

section

variable (hsize : size < 2 ^ 32) (h : Tiles Entry.recLen (entryAt d) o es size)
include hsize h

theorem findScan_eq (hf : es.length < fuel) :
    findScan d size name fuel o = some (seek Entry.recLen (Entry.has name) o es) := by
  refine scan_rule hsize (fun fuel => ?_) (fun es o fuel hlt h0 hnext ih => ?_) h hf
  · rw [findScan, if_neg (Nat.lt_irrefl _)]
    rfl
  · rw [findScan, if_pos hlt, seek]
    by_cases hm : (entryAt d o).has name = true
    · rw [if_pos (has_entryAt.mp hm), if_pos hm]
    · rw [if_neg (mt has_entryAt.mpr hm), if_neg hm, if_neg h0, hnext, ih]

theorem removeScan_eq (hf : es.length < fuel) : ∀ prev, removeScan d size name fuel o prev
      = some (seekPrev Entry.recLen (Entry.has name) prev o es) := by
  refine scan_rule hsize (fun fuel prev => ?_) (fun es o fuel hlt h0 hnext ih prev => ?_) h hf
  · rw [removeScan, if_neg (Nat.lt_irrefl _)]
    rfl
  · rw [removeScan, if_pos hlt, if_neg h0, seekPrev]
    by_cases hm : (entryAt d o).has name = true
    · rw [if_pos (has_entryAt.mp hm), if_pos hm]
    · rw [if_neg (mt has_entryAt.mpr hm), if_neg hm, hnext, ih]

theorem spaceScan_eq {needed : Nat} (hfits : ∀ e ∈ es, e.Fits) (hf : es.length < fuel) :
    spaceScan d size needed fuel o = some (seek Entry.recLen (Entry.roomy needed) o es) := by
  revert hfits
  refine scan_rule hsize (fun fuel _ => ?_) (fun es o fuel hlt h0 hnext ih hfits => ?_) h hf
  · rw [spaceScan, if_neg (Nat.lt_irrefl _)]
    rfl
  have hused : ext2DirEntrySize (deNameLen d o) = (entryAt d o).used := by
    rw [Entry.used, length_entryAt]
  have hule := (hfits _ mem_cons_self).used_le
  have hroom : needed ≤ (deRecLen d o + 2 ^ 32 - (entryAt d o).used) % 2 ^ 32 ↔
      (entryAt d o).roomy needed = true := by
    rw [Entry.roomy, decide_eq_true_eq]
    omega
  rw [spaceScan, if_pos hlt, if_neg h0, seek, hused]
  by_cases hm : (entryAt d o).roomy needed = true
  · rw [if_pos (hroom.mpr hm), if_pos hm]
  · rw [if_neg (mt hroom.mp hm), if_neg hm, hnext, ih fun e he => hfits e (mem_cons_of_mem _ he)]

end

/-! ## 名前から inode への対応 -/

/-- 使用中の entry。 -/
def liveEntries (es : List Entry) : List Entry := es.filter fun e => e.inode != 0

theorem liveEntries_cons_zero {e : Entry} (h : e.inode = 0) :
    liveEntries (e :: es) = liveEntries es := filter_cons_of_neg (by simp [h])

theorem liveEntries_cons_ne {e : Entry} (h : e.inode ≠ 0) :
    liveEntries (e :: es) = e :: liveEntries es := filter_cons_of_pos (by simp [h])

theorem readdirScan_eq (hsize : size < 2 ^ 32) {index : Nat}
    (h : Tiles Entry.recLen (entryAt d) o es size) (hf : es.length < fuel) : ∀ current ≤ index,
    ∃ found, readdirScan d size index fuel o current = some found ∧
      found.map (entryAt d) = (liveEntries es)[index - current]? := by
  refine scan_rule hsize (fun fuel _ _ => ?_) (fun es o fuel hlt h0 hnext ih current hcur => ?_)
    h hf
  · rw [readdirScan, if_neg (Nat.lt_irrefl _)]
    exact ⟨none, rfl, rfl⟩
  rw [readdirScan, if_pos hlt, show deInode d o = (entryAt d o).inode from rfl, hnext]
  by_cases hz : (entryAt d o).inode = 0
  · rw [if_neg (fun h => h.1 hz), if_neg h0, if_neg (not_not.mpr hz), liveEntries_cons_zero hz]
    exact ih _ hcur
  rw [liveEntries_cons_ne hz]
  by_cases hidx : current = index
  · rw [if_pos ⟨hz, hidx⟩]
    refine ⟨some o, rfl, ?_⟩
    rw [hidx, Nat.sub_self]
    rfl
  · rw [if_neg (fun h => hidx h.2), if_neg h0, if_pos hz,
      show index - current = index - (current + 1) + 1 by omega]
    exact ih _ (by omega)

end Scan

/-- `readdir` の返す形の entry。 -/
def Entry.dirent (e : Entry) : Dirent := ⟨e.name, e.inode, ext2FtypeToVfs e.fileType⟩

/-- 使用中の entry の一覧。 -/
def listing (es : List Entry) : List Dirent := (liveEntries es).map Entry.dirent

/-- 一覧から名前を引く。 -/
def lookup (l : List Dirent) (name : List UInt8) : Option Nat :=
  (l.find? fun e => e.name == name).map Dirent.inode

/-- 一つの entry が加わった。 -/
def Inserted (e : Dirent) (l l' : List Dirent) : Prop := ∃ a b, l = a ++ b ∧ l' = a ++ e :: b

section Listing

variable {d : Mem} {o : Nat} {name : List UInt8} {e : Dirent} {x : Entry} {es pre post : List Entry}
  {l l' : List Dirent}

theorem listing_append {a b : List Entry} : listing (a ++ b) = listing a ++ listing b := by
  simp [listing, liveEntries]

theorem listing_cons_zero (h : x.inode = 0) : listing (x :: es) = listing es := by
  rw [listing, liveEntries_cons_zero h, listing]

theorem listing_cons_ne (h : x.inode ≠ 0) : listing (x :: es) = x.dirent :: listing es := by
  rw [listing, liveEntries_cons_ne h, listing, map_cons]

theorem listing_setRecLen (v : Nat) (es : List Entry) :
    listing ({ x with recLen := v } :: es) = listing (x :: es) := by
  by_cases h : x.inode = 0
  · rw [listing_cons_zero h]
    exact listing_cons_zero h
  · rw [listing_cons_ne h]
    exact listing_cons_ne h

/-- 一覧から引くのは、最初に名前の合う使用中の entry である。 -/
theorem lookup_listing :
    lookup (listing es) name = (es.find? (Entry.has name)).map Entry.inode := by
  induction es with
  | nil => rfl
  | cons x es ih =>
    by_cases h0 : x.inode = 0
    · rw [listing_cons_zero h0, ih, find?_cons_of_neg (by simp [Entry.has, h0])]
    · rw [listing_cons_ne h0]
      by_cases hn : x.name = name
      · rw [find?_cons_of_pos (by simp [Entry.has, h0, hn]), lookup,
          find?_cons_of_pos (by simp [Entry.dirent, hn])]
        rfl
      · rw [find?_cons_of_neg (by simp [Entry.has, hn]), ← ih, lookup,
          find?_cons_of_neg (by simp [Entry.dirent, hn]), lookup]

/-- ループの見つけた entry は、一覧から引いたものである。 -/
theorem lookup_seek {size : Nat} (h : Tiles Entry.recLen (entryAt d) o es size) :
    (seek Entry.recLen (Entry.has name) o es).map (deInode d) = lookup (listing es) name := by
  rw [lookup_listing]
  cases hseek : seek _ _ o es with
  | none =>
    have hall := seek_eq_none.mp hseek
    rw [find?_eq_none.mpr fun y hy => by simp [hall y hy]]
    rfl
  | some o' =>
    obtain ⟨pre, x, post, rfl, rfl, hx, hpre⟩ := seek_eq_some hseek
    have hread := h.read_eq
    rw [find?_append, find?_eq_none.mpr fun y hy => by simp [hpre y hy], find?_cons_of_pos hx]
    exact congrArg (fun e => some (Entry.inode e)) hread

theorem lookup_cons :
    lookup (e :: l) name = if e.name = name then some e.inode else lookup l name := by
  by_cases h : e.name = name
  · rw [if_pos h, lookup, find?_cons_of_pos (by simp [h])]
    rfl
  · rw [if_neg h, lookup, find?_cons_of_neg (by simp [h]), lookup]

theorem lookup_append {a b : List Dirent} :
    lookup (a ++ b) name = (lookup a name).or (lookup b name) := by
  rw [lookup, find?_append, Option.map_or]
  rfl

theorem lookup_eq_none : lookup l name = none ↔ ∀ e ∈ l, e.name ≠ name := by
  simp [lookup]

section

variable (h : Inserted e l l')
include h

theorem Inserted.mem_iff {f : Dirent} : f ∈ l' ↔ f = e ∨ f ∈ l := by
  obtain ⟨a, b, rfl, rfl⟩ := h
  simp only [mem_append, mem_cons]
  exact or_left_comm

theorem Inserted.countP (p : Dirent → Bool) : l'.countP p = l.countP p + if p e then 1 else 0 := by
  obtain ⟨a, b, rfl, rfl⟩ := h
  simp only [countP_append, countP_cons]
  omega

/-- ない名前を加えると、その名前だけが引けるようになる。 -/
theorem lookup_inserted (habs : lookup l e.name = none) (name : List UInt8) :
    lookup l' name = if name = e.name then some e.inode else lookup l name := by
  obtain ⟨a, b, rfl, rfl⟩ := h
  rw [lookup_append, lookup_cons]
  split
  · rename_i hn
    subst hn
    have ha : lookup a e.name = none := by
      rw [lookup_append, Option.or_eq_none_iff] at habs
      exact habs.1
    rw [ha, if_pos rfl, Option.none_or]
  · rename_i hn
    rw [if_neg fun h => hn h.symm, lookup_append]

/-- 名前が重ならなければ、一つの entry を消すと、その名前だけが引けなくなる。 -/
theorem lookup_removed (hnd : (l'.map Dirent.name).Nodup)
    (name : List UInt8) : lookup l name = if name = e.name then none else lookup l' name := by
  obtain ⟨a, b, rfl, rfl⟩ := h
  rw [map_append, map_cons, nodup_middle, nodup_cons] at hnd
  have habs : lookup (a ++ b) e.name = none := by
    rw [lookup_eq_none]
    intro f hf he
    exact hnd.1 (by rw [← map_append]; exact mem_map.mpr ⟨f, hf, he⟩)
  split
  · rename_i hn
    rw [hn, habs]
  · rename_i hn
    rw [lookup_inserted ⟨a, b, rfl, rfl⟩ habs, if_neg hn]

end

/-- 名前が重ならなければ、一覧のどの entry も、その名前で引ける。 -/
theorem lookup_of_mem (hnd : (l.map Dirent.name).Nodup) (he : e ∈ l) :
    lookup l e.name = some e.inode := by
  obtain ⟨a, b, rfl⟩ := append_of_mem he
  have hins : Inserted e _ _ := ⟨a, b, rfl, rfl⟩
  have habs := lookup_removed hins hnd e.name
  rw [if_pos rfl] at habs
  rw [lookup_inserted hins habs, if_pos rfl]

end Listing

/-! ## data の書き換え -/

section Edit

variable {d : Mem} {o size new ft : Nat} {e x y : Entry} {es pre post : List Entry}
  {name : List UInt8}

theorem recLen_lt : (entryAt d o).recLen < 2 ^ 16 := load_lt _ _ 2

theorem Laid.recLen_lt (h : Laid d size es) (he : e ∈ es) : e.recLen < 2 ^ 16 := by
  obtain ⟨pre, post, rfl⟩ := append_of_mem he
  rw [← h.tiles.read_eq]
  exact Ext2.recLen_lt

theorem entryAt_setDeInode {v : Nat} (hv : v < 2 ^ 32) :
    entryAt (setDeInode d o v) o = { entryAt d o with inode := v } := by
  have hbyte : ∀ y, o + 4 ≤ y → setDeInode d o v y = d y := fun y hy =>
    store_apply_of_not (by omega)
  have hlen : deNameLen (setDeInode d o v) o = deNameLen d o := by
    unfold deNameLen
    rw [hbyte _ (by omega)]
  unfold entryAt
  congr 1
  · exact load_store_self hv
  · exact load_store_of_disjoint (by omega)
  · rw [hlen]
    exact map_congr_left fun i _ => hbyte _ (by omega)
  · unfold deFileType
    rw [hbyte _ (by omega)]

theorem entryAt_setDeRecLen {v : Nat} (hv : v < 2 ^ 16) :
    entryAt (setDeRecLen d o v) o = { entryAt d o with recLen := v } := by
  have hbyte : ∀ y, o + 6 ≤ y → setDeRecLen d o v y = d y := fun y hy =>
    store_apply_of_not (by omega)
  have hlen : deNameLen (setDeRecLen d o v) o = deNameLen d o := by
    unfold deNameLen
    rw [hbyte _ (by omega)]
  unfold entryAt
  congr 1
  · exact load_store_of_disjoint (by omega)
  · exact load_store_self hv
  · rw [hlen]
    exact map_congr_left fun i _ => hbyte _ (by omega)
  · unfold deFileType
    rw [hbyte _ (by omega)]

theorem putBytes_apply_of_not {bs : List UInt8} {y : Nat} (h : y < o ∨ o + bs.length ≤ y) :
    putBytes d o bs y = d y := if_neg (by omega)

/-- 書いた entry は、そのまま読める。 -/
theorem entryAt_putEntry {recLen : Nat} (hnew : new < 2 ^ 32)
    (hlen : recLen < 2 ^ 16) (hname : name.length < 256) (hft : ft < 256) :
    entryAt (putEntry d o new recLen name ft) o = ⟨new, recLen, name, ft⟩ := by
  -- header の byte は、名前の byte に上書きされない
  have hhead : ∀ y, y < o + 8 → putEntry d o new recLen name ft y = store _
        _ 1 ft y := fun y hy => putBytes_apply_of_not (.inl hy)
  have h6 : deNameLen (putEntry d o new recLen name ft) o = name.length := by
    unfold deNameLen
    rw [hhead _ (by omega), store_apply_of_not (by omega), store_apply_of_mem (by omega) (by omega),
      Nat.sub_self, Nat.pow_zero, Nat.div_one, UInt8.toNat_ofNat', Nat.mod_eq_of_lt hname]
  unfold entryAt
  rw [h6]
  congr 1
  · rw [deInode, load_congr fun y _ hy => hhead y (by omega), load_store_of_disjoint (by omega),
      load_store_of_disjoint (by omega), setDeRecLen, load_store_of_disjoint (by omega)]
    exact load_store_self hnew
  · rw [deRecLen, load_congr fun y _ hy => hhead y (by omega), load_store_of_disjoint (by omega),
      load_store_of_disjoint (by omega)]
    exact load_store_self hlen
  · apply ext_getElem
    · simp
    · intro i h1 h2
      simp only [getElem_map, getElem_range, putEntry, putBytes]
      rw [if_pos (by omega), show o + 8 + i - (o + 8) = i by omega, getD_eq_getElem]
  · unfold deFileType
    rw [hhead _ (by omega), store_apply_of_mem (by omega) (by omega), Nat.sub_self, Nat.pow_zero,
      Nat.div_one, UInt8.toNat_ofNat', Nat.mod_eq_of_lt hft]

/-- entry の header と名前のほかは変わらない。 -/
theorem putEntry_apply_of_not {recLen z : Nat} (h : z < o ∨ o + 8 + name.length ≤ z) :
    putEntry d o new recLen name ft z = d z := by
  unfold putEntry setDeRecLen setDeInode
  rw [putBytes_apply_of_not (by omega), store_apply_of_not (by omega),
    store_apply_of_not (by omega), store_apply_of_not (by omega), store_apply_of_not (by omega)]

/-- 先頭の entry の `inode` を 0 にする。 -/
theorem Laid.erase (h : Laid d size (x :: post)) : eraseEntry d size 0 none
      = some (setDeInode d 0 0) ∧ Laid (setDeInode d 0 0) size ({ x with inode := 0 } :: post) := by
  have hx : entryAt d 0 = x := h.tiles.1
  have hle : 0 + span Entry.recLen [] + x.recLen ≤ size := (show Tiles _ _ _ _ _ from h.tiles).le
  have hfit := h.fits x mem_cons_self
  have hlen := hfit.2
  refine ⟨if_pos (by omega), ?_⟩
  have hl : Laid d size ([] ++ [x] ++ post) := h
  show Laid _ size ([] ++ [{ x with inode := 0 }] ++ post)
  refine hl.replace ⟨?_, ?_, ?_⟩ ?_ ?_
  · rw [span_nil, entryAt_setDeInode (by decide), hx]
  · exact hfit.recLen_pos
  · simp [Tiles]
  · intro e he
    rw [mem_singleton.mp he]
    exact hfit
  · intro z hz _
    simp only [span_nil, span_cons] at hz
    exact store_apply_of_not (by omega)

/-- entry を直前の entry に合わせる。 -/
theorem Laid.merge (h : Laid d size (pre ++ y :: x :: post)) (hlt : y.recLen + x.recLen < 2 ^ 16) :
    eraseEntry d size (span Entry.recLen pre + y.recLen) (some (span Entry.recLen pre))
      = some (setDeRecLen d (span Entry.recLen pre) (y.recLen + x.recLen)) ∧
    Laid (setDeRecLen d (span Entry.recLen pre) (y.recLen + x.recLen)) size
      (pre ++ { y with recLen := y.recLen + x.recLen } :: post) := by
  have hy : entryAt d (span Entry.recLen pre) = y := by
    have := h.tiles.read_eq
    rwa [Nat.zero_add] at this
  have hx : entryAt d (span Entry.recLen pre + y.recLen) = x := by
    have hsplit : Tiles Entry.recLen (entryAt d) 0 ((pre ++ [y]) ++ x :: post) size := by
      rw [append_assoc]
      exact h.tiles
    have := hsplit.read_eq
    rwa [Nat.zero_add, span_append] at this
  have hyfit := h.fits y (by simp)
  have hxfit := h.fits x (by simp)
  have hle := h.tiles.le
  have h8 := hyfit.2
  refine ⟨?_, ?_⟩
  · rw [eraseEntry, if_pos (by omega), show deRecLen d _ = y.recLen from congrArg Entry.recLen hy,
      show deRecLen d _ = x.recLen from congrArg Entry.recLen hx,
      Nat.mod_eq_of_lt hlt]
  have hl : Laid d size (pre ++ [y, x] ++ post) := by
    rw [append_assoc]
    exact h
  suffices hnew : Laid _ size (pre ++ [{ y with recLen := y.recLen + x.recLen }] ++ post) by
    rwa [append_assoc] at hnew
  refine hl.replace ⟨?_, ?_, ?_⟩ ?_ ?_
  · rw [entryAt_setDeRecLen hlt, hy]
  · show 0 < y.recLen + x.recLen
    omega
  · simp [Tiles]
  · intro e he
    rw [mem_singleton.mp he]
    exact ⟨Nat.dvd_add hyfit.1 hxfit.1, show 8 + y.name.length ≤ y.recLen + x.recLen by omega⟩
  · intro z hz _
    simp only [span_cons, span_nil] at hz
    exact store_apply_of_not (by omega)

/-- 余りのある entry を縮め、後ろに新しい entry を置く。 -/
theorem Laid.split (h : Laid d size (pre ++ x :: post))
    (hroom : x.roomy (ext2DirEntrySize name.length) = true) (hnew : new < 2 ^ 32)
    (hname : name.length < 256) (hft : ft < 256) :
    ∃ d', splitEntry d size (span Entry.recLen pre) new name ft = some d' ∧
      Laid d' size (pre ++ { x with recLen := x.used } :: ⟨new, x.recLen - x.used, name, ft⟩ ::
        post) := by
  have hx : entryAt d (span Entry.recLen pre) = x := by
    have := h.tiles.read_eq
    rwa [Nat.zero_add] at this
  have hlt : x.recLen < 2 ^ 16 := h.recLen_lt (by simp)
  have hle := h.tiles.le
  have hfit := h.fits x (by simp)
  have hroom : x.used + ext2DirEntrySize _ ≤ x.recLen := of_decide_eq_true hroom
  have hneed : 8 + name.length ≤ ext2DirEntrySize name.length := by
    unfold ext2DirEntrySize
    omega
  have hused := x.le_used
  have hdvd : 4 ∣ x.used := ⟨_, Nat.mul_comm _ _⟩
  have hfree : (deRecLen d (span Entry.recLen pre) + 2 ^ 32 - x.used) % 2 ^ 32
      = x.recLen - x.used := by
    rw [show deRecLen d _ = x.recLen from congrArg Entry.recLen hx]
    omega
  have hactual : ext2DirEntrySize (deNameLen d (span Entry.recLen pre)) = x.used := by
    rw [← length_entryAt, hx, Entry.used]
  refine ⟨_, by rw [splitEntry, hactual, hfree]; exact if_pos (by omega), ?_⟩
  rw [Nat.mod_eq_of_lt (by omega)]
  have hl : Laid d size (pre ++ [x] ++ post) := by
    rw [append_assoc]
    exact h
  suffices hres : Laid _ size (pre ++ [{ x with recLen := x.used },
      ⟨new, x.recLen - x.used, name, ft⟩] ++ post) by
    rwa [append_assoc] at hres
  refine hl.replace ⟨?_, ?_, ?_, ?_, ?_⟩ ?_ ?_
  · -- 縮めた entry は、後ろに置いた entry と重ならない
    have hshrunk : entryAt (setDeRecLen d (span Entry.recLen pre) x.used) (span Entry.recLen pre)
        = { x with recLen := x.used } := by
      rw [entryAt_setDeRecLen (by omega), hx]
    rw [← hshrunk]
    apply entryAt_congr
    intro z _ hz
    rw [hshrunk] at hz
    have hz : z < span Entry.recLen pre + 8 + x.name.length := hz
    exact putEntry_apply_of_not (.inl (by omega))
  · show 0 < x.used
    omega
  · exact entryAt_putEntry hnew (by omega) hname hft
  · show 0 < x.recLen - x.used
    omega
  · simp only [Tiles, span_cons, span_nil]
    omega
  · intro e he
    simp only [mem_cons, not_mem_nil, or_false] at he
    rcases he with rfl | rfl
    · exact ⟨hdvd, hused⟩
    · exact ⟨Nat.dvd_sub hfit.1 hdvd, show 8 + name.length ≤ x.recLen - x.used by omega⟩
  · intro z hz _
    simp only [span_cons, span_nil] at hz
    rw [putEntry_apply_of_not (by omega)]
    exact store_apply_of_not (by omega)

/-- 後ろに、一つの entry だけの block を足す。 -/
theorem Laid.extend (h : Laid d size es) {fs : Fs} {buf : Mem} (hdvd : 4 ∣ fs.blockSize)
    (hlt : fs.blockSize < 2 ^ 16) (hfit : 8 + name.length ≤ fs.blockSize) (hnew : new < 2 ^ 32)
    (hname : name.length < 256) (hft : ft < 256) :
    Laid (extendDir fs buf d size new name ft) (size + fs.blockSize)
      (es ++ [⟨new, fs.blockSize, name, ft⟩]) := by
  have hend : 0 + span Entry.recLen es = size := h.tiles.end_eq.symm
  refine ⟨?_, ?_⟩
  · rw [tiles_append, hend]
    refine ⟨tiles_frame h.tiles h.fits ?_, ?_, ?_, rfl⟩
    · intro y _ hy
      rw [extendDir, putEntry_apply_of_not (.inl hy), zeroFill, blit_apply_of_not (.inl hy),
        blit_apply_of_mem (Nat.zero_le _) (by omega), Nat.sub_zero, Nat.zero_add]
    · rw [extendDir, Nat.mod_eq_of_lt hlt]
      exact entryAt_putEntry hnew hlt hname hft
    · show 0 < fs.blockSize
      omega
  · intro e he
    rcases mem_append.mp he with he | he
    · exact h.fits e he
    · rw [mem_singleton.mp he]
      exact ⟨hdvd, hfit⟩

end Edit

end Alos.Ext2
