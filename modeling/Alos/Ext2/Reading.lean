import Alos.Ext2.Writing
import Alos.Ext2.Images

/-!
# file の読み出し

`ext2_read_inode_data` は、block の対応を `ext2_get_block` とは別に書いている。途中の間接 block が
揃っていれば二つは同じ block を指す。間接 block がないとき、`ext2_get_block` は穴とみなすが、
読み出しは block 0 を間接 block として読む。

* `readMapBlock_eq_iff` — 二つの対応が一致する条件
* `readInodeData_count_iff` — 返る byte の数が正しい条件
* `readInodeData_spec` — 間接 block が揃っているところでは、file の byte が読める
-/

namespace Alos.Ext2

open Bytes Bitmap

/-! ## 二つの対応 -/

/-- block `b` の `i` 番目の語。 -/
def wordAt (s : State) (b i : Nat) : Nat :=
  load (sectorByte s.disk (b * (s.fs.blockSize / 512) % 2 ^ 32)) (4 * i) 4

/-- `blockIdx` に至る間接 block がすべてある。 -/
def Chained (s : State) (inode : Mem) (blockIdx : Nat) : Prop :=
  let ptrs := ptrsPerBlock s.fs
  if blockIdx < 12 then True
  else if blockIdx < 12 + ptrs then iBlock inode 12 ≠ 0
  else if blockIdx < doubleLimit s.fs then
    iBlock inode 13 ≠ 0 ∧ wordAt s (iBlock inode 13) ((blockIdx - 12 - ptrs) / ptrs) ≠ 0
  else True

/-- 間接 block がないとき、代わりに block 0 から辿る語は 0 である。 -/
def BootZero (s : State) (inode : Mem) (blockIdx : Nat) : Prop :=
  let ptrs := ptrsPerBlock s.fs
  let first := (blockIdx - 12 - ptrs) / ptrs
  let second := (blockIdx - 12 - ptrs) % ptrs
  if blockIdx < 12 then True
  else if blockIdx < 12 + ptrs then iBlock inode 12 = 0 → wordAt s 0 (blockIdx - 12) = 0
  else if blockIdx < doubleLimit s.fs then
    (iBlock inode 13 = 0 → wordAt s (wordAt s 0 first) second = 0) ∧
    (iBlock inode 13 ≠ 0 → wordAt s (iBlock inode 13) first = 0 → wordAt s 0 second = 0)
  else True

/-- 読み出しの対応。間接 block の番号が 0 でも、そこから読む。 -/
def mapped (s : State) (inode : Mem) (blockIdx : Nat) : Nat :=
  let ptrs := ptrsPerBlock s.fs
  if blockIdx < 12 then iBlock inode blockIdx
  else if blockIdx < 12 + ptrs then wordAt s (iBlock inode 12) (blockIdx - 12)
  else if blockIdx < doubleLimit s.fs then
    wordAt s (wordAt s (iBlock inode 13) ((blockIdx - 12 - ptrs) / ptrs))
      ((blockIdx - 12 - ptrs) % ptrs)
  else 0

section Agree

variable {s : State} {inode : Mem} {blockIdx : Nat}

theorem ensureRoot_false {k : Nat} {buf : Mem} :
    ensureRoot s inode k buf false = (iBlock inode k, inode, s) :=
  if_neg fun h => by cases h.2

theorem ensureEntry_false {parent index : Nat} {buf : Mem} :
    ensureEntry s parent index buf false = (load buf (4 * index) 4, s) :=
  if_neg fun h => by cases h.2

theorem load_block {b i : Nat} (buf : Mem) (hi : i < ptrsPerBlock s.fs) :
    load (blit buf 0 (sectorByte s.disk (b * (s.fs.blockSize / 512) % 2 ^ 32)) 0 s.fs.blockSize)
      (4 * i) 4 = wordAt s b i := by
  unfold ptrsPerBlock at hi
  refine load_congr fun y _ hy => ?_
  rw [blit_apply_of_mem (Nat.zero_le _) (by omega), Nat.zero_add, Nat.sub_zero]

/-- 二重間接の添字は、どちらも間接 block に収まる。 -/
theorem index_lt_ptrs {fs : Fs} (h : ¬blockIdx < 12 + ptrsPerBlock fs)
    (h' : blockIdx < doubleLimit fs) :
    (blockIdx - 12 - ptrsPerBlock fs) / ptrsPerBlock fs < ptrsPerBlock fs ∧
      (blockIdx - 12 - ptrsPerBlock fs) % ptrsPerBlock fs < ptrsPerBlock fs := by
  have hlt : blockIdx - 12 - ptrsPerBlock fs < ptrsPerBlock fs * ptrsPerBlock fs := by
    have := lt_of_lt_of_le h' (Nat.mod_le _ _)
    omega
  have hpos : 0 < ptrsPerBlock fs := by
    by_contra h0
    simp [Nat.eq_zero_of_not_pos h0] at hlt
  exact ⟨Nat.div_lt_of_lt_mul hlt, Nat.mod_lt _ hpos⟩

section

variable (hio : IoOk s) (hbs : 1024 ∣ s.fs.blockSize) (hheap : s.heap 0 ≠ none)
include hio hbs hheap

theorem readMapBlock_fst : (readMapBlock s inode blockIdx).1 = some (mapped s inode blockIdx) := by
  obtain ⟨buf, hbuf⟩ := Option.ne_none_iff_exists'.mp hheap
  have hread := ext2ReadBlock_sectors (s := s.next) hio hbs
  have hload := fun b i (hi : i < ptrsPerBlock s.fs) buf => load_block (s := s.next) (b := b) buf hi
  unfold readMapBlock mapped
  simp only
  split
  · rfl
  split
  · simp only [kmalloc_eq, hbuf, hread, if_true]
    rw [hload _ _ (by omega)]
    rfl
  split
  · rename_i hind hdbl
    obtain ⟨hi, hj⟩ := index_lt_ptrs hind hdbl
    simp only [kmalloc_eq, hbuf, hread, if_true]
    rw [hload _ _ hi, hload _ _ hj]
    rfl
  · rfl

open Classical in
theorem getBlock_fst : (ext2GetBlock s inode blockIdx false).1
    = if Chained s inode blockIdx then mapped s inode blockIdx else 0 := by
  obtain ⟨buf, hbuf⟩ := Option.ne_none_iff_exists'.mp hheap
  have hread := ext2ReadBlock_sectors (s := s.next) hio hbs
  have hload := fun b i (hi : i < ptrsPerBlock s.fs) buf => load_block (s := s.next) (b := b) buf hi
  have hword : wordAt s.next = wordAt s := rfl
  unfold ext2GetBlock Chained mapped
  simp only
  split
  · rw [if_pos trivial, getDirect, if_neg fun h => by cases h.2]
  split
  · rw [getIndirect, kmalloc_eq, hbuf]
    simp only [ensureRoot_false, ensureEntry_false, hread, if_true]
    rw [hload _ _ (by omega), hword]
    split <;> simp [*]
  split
  · rename_i hind hdbl
    obtain ⟨hi, hj⟩ := index_lt_ptrs hind hdbl
    rw [getDouble, kmalloc_eq, hbuf]
    simp only [ensureRoot_false, ensureEntry_false, hread, if_true]
    rw [hload _ _ hi, hload _ _ hj, hword]
    split
    · simp [*]
    · split <;> simp [*]
  · rw [if_pos trivial]

/--
**読み出しが読む block が `ext2_get_block` の返す block と同じで、間接 block がなければどちらも穴とみなすのは、
間接 block の代わりに block 0 から辿る語が 0 のとき、かつそのときに限る。**
-/
theorem readMapBlock_eq_iff (inode : Mem) (blockIdx : Nat) :
    ((readMapBlock s inode blockIdx).1 = some (ext2GetBlock s inode blockIdx false).1 ∧
      (¬Chained s inode blockIdx → (readMapBlock s inode blockIdx).1 = some 0)) ↔
    BootZero s inode blockIdx := by
  rw [readMapBlock_fst hio hbs hheap, getBlock_fst hio hbs hheap]
  have hzero : BootZero s inode blockIdx ↔ Chained s inode blockIdx ∨
    mapped s inode blockIdx = 0 := by
    unfold BootZero Chained mapped
    simp only
    split
    · simp
    split
    · by_cases h : iBlock inode 12 = 0 <;> simp [h]
    split
    · by_cases h : iBlock inode 13 = 0
      · simp [h]
      · by_cases h' : wordAt s (iBlock inode 13)
          ((blockIdx - 12 - ptrsPerBlock s.fs) / ptrsPerBlock s.fs) = 0 <;> simp [h, h']
    · simp
  rw [hzero]
  by_cases hc : Chained s inode blockIdx <;> simp [hc]

end

/-- file `a` の先頭の block は、どちらの対応でも block 7 である。 -/
theorem readMapBlock_plain :
    (readMapBlock plainState (inodeAt wideFs.geom plainState.disk 3) 0).1
      = some (ext2GetBlock plainState (inodeAt wideFs.geom plainState.disk 3) 0 false).1 ∧
    (ext2GetBlock plainState (inodeAt wideFs.geom plainState.disk 3) 0 false).1 = 7 :=
  ⟨((readMapBlock_eq_iff (fun _ => rfl) (by decide) (by decide) _ 0).mpr trivial).1, rfl⟩

/-- 間接 block のない file の 12 番目の block として、読み出しは boot block の先頭の番号を読む。 -/
theorem readMapBlock_boot : iBlock (inodeAt wideFs.geom plainState.disk 3) 12 = 0 ∧
    (readMapBlock plainState (inodeAt wideFs.geom plainState.disk 3) 12).1 = some 7 ∧
    (ext2GetBlock plainState (inodeAt wideFs.geom plainState.disk 3) 12 false).1 = 0 := by
  decide +kernel

end Agree

/-! ## 読み出しは disk を変えない -/

/-- heap が進んだだけの状態。 -/
def Skips (s s' : State) : Prop := ∃ i, s' = { s with heap := fun j => s.heap (j + i) }

section Skips

variable {G : Geom} {s s' s'' : State} {x : Nat} {roots : Nat → Nat → Nat}

theorem Skips.refl (s : State) : Skips s s := ⟨0, rfl⟩

theorem Skips.next (s : State) : Skips s s.next := ⟨1, rfl⟩

theorem Skips.trans (h1 : Skips s s') (h2 : Skips s' s'') : Skips s s'' := by
  obtain ⟨i, rfl⟩ := h1
  obtain ⟨j, rfl⟩ := h2
  refine ⟨j + i, ?_⟩
  simp only [Nat.add_assoc]

section

variable (h : Skips s s')
include h

theorem Skips.heap : ∃ i, s'.heap = fun j => s.heap (j + i) := by
  obtain ⟨i, rfl⟩ := h
  exact ⟨i, rfl⟩

theorem Skips.disk : s'.disk = s.disk := by
  obtain ⟨i, rfl⟩ := h
  rfl

theorem Skips.fs : s'.fs = s.fs := by
  obtain ⟨i, rfl⟩ := h
  rfl

theorem Skips.io : s'.io = s.io := by
  obtain ⟨i, rfl⟩ := h
  rfl

theorem Skips.inv (inv : Inv G s x roots) : Inv G s' x roots := by
  obtain ⟨i, rfl⟩ := h
  exact inv.withHeap _

end

theorem readMapBlock_skips (hio : IoOk s) (hbs : 1024 ∣ s.fs.blockSize) (inode : Mem) (idx : Nat) :
    ∃ b s', readMapBlock s inode idx = (b, s') ∧ Skips s s' ∧ (HeapOk s → b ≠ none) := by
  have hio' : IoOk s.next := hio
  have hbs' : 1024 ∣ s.next.fs.blockSize := hbs
  have hfail : s.heap 0 = none → HeapOk s → (none : Option Nat) ≠ none :=
    fun h hok => absurd h hok.head_ne_none
  unfold readMapBlock
  simp only
  split
  · exact ⟨_, s, rfl, .refl s, by simp⟩
  split
  · rw [kmalloc_eq]
    cases hheap : s.heap 0 with
    | none => exact ⟨_, _, rfl, .next s, hfail hheap⟩
    | some buf =>
      simp only [ext2ReadBlock_sectors hio' hbs']
      exact ⟨_, _, rfl, .next s, by simp⟩
  · split
    · rw [kmalloc_eq]
      cases hheap : s.heap 0 with
      | none => exact ⟨_, _, rfl, .next s, hfail hheap⟩
      | some buf =>
        simp only [ext2ReadBlock_sectors hio' hbs', if_true]
        exact ⟨_, _, rfl, .next s, by simp⟩
    · exact ⟨_, s, rfl, .refl s, by simp⟩

/-- file の `pos` 番目の byte として、map された block から読まれうる値。 -/
def Fetched (s : State) (inode : Mem) (pos : Nat) (c : UInt8) : Prop :=
  ∃ s1 s2 b buf, Skips s s1 ∧ readMapBlock s1 inode (pos / s.fs.blockSize) = (some b, s2) ∧
    c = if b = 0 then 0 else (ext2ReadBlock s2 b buf).2.1 (pos % s.fs.blockSize)

/-- 読み出しのループは、どんな inode を渡されても disk を変えず、buffer の `[n, m)` だけに書く。 -/
theorem readLoop_fills (inode : Mem) (size : Nat) : ∀ (fuel : Nat) {s : State}, IoOk s →
    1024 ∣ s.fs.blockSize → ∀ (bi bo n : Nat) (buf : Mem), n ≤ size → bo < s.fs.blockSize →
    ∃ (r : Int) (m : Nat) (data : Mem) (s' : State), Skips s s' ∧ n ≤ m ∧ m ≤ size ∧
      (∀ buffer, readLoop inode size fuel s bi bo n buffer buf
        = (r, fun y => if n ≤ y ∧ y < m then data y else buffer y, s')) ∧
      (size - n ≤ fuel → (¬HeapOk s ∧ r = -1) ∨ (r = toInt32 size ∧ m = size)) ∧
      ∀ off, bi * s.fs.blockSize + bo = off + n → ∀ y, n ≤ y → y < m →
        Fetched s inode (off + y) (data y) := by
  intro fuel
  have hstay : ∀ (n : Nat) (buffer : Mem), (fun y => if n ≤ y ∧ y < n then 0 else buffer y) =
    buffer :=
    fun n buffer => funext fun y => if_neg (by omega)
  induction fuel with
  | zero =>
    intro s _ _ bi bo n buf hn _
    refine ⟨toInt32 n, n, fun _ => 0, s, .refl s, le_refl n, hn, fun buffer => ?_,
      fun h => .inr ?_, fun _ _ y _ _ => by omega⟩
    · rw [hstay]
      rfl
    · obtain rfl : n = size := by omega
      exact ⟨rfl, rfl⟩
  | succ fuel ih =>
    intro s hio hbs bi bo n buf hn hbo
    simp only [readLoop]
    by_cases hlt : n < size
    · obtain ⟨b, s1, hmap, hskip, hsome⟩ := readMapBlock_skips hio hbs inode bi
      have hio' : IoOk s1 := by
        intro i
        rw [hskip.io]
        exact hio i
      have hbs' : 1024 ∣ s1.fs.blockSize := by rwa [hskip.fs]
      simp only [if_pos hlt, hmap]
      cases b with
      | none =>
        exact ⟨-1, n, fun _ => 0, s1, hskip, le_refl n, hn, fun buffer => by rw [hstay],
          fun _ => .inl ⟨fun hok => hsome hok rfl, rfl⟩, fun _ _ y _ _ => by omega⟩
      | some b =>
        simp only [hskip.fs]
        generalize hlen : min _ (size - n) = len
        have hread := ext2ReadBlock_sectors hio' hbs' b buf
        -- 穴でも block でも、`len` byte を写して残りに進む
        have hnext : ∀ (chunk : Mem) (o : Nat) (buf1 : Mem),
            (∀ z, chunk (o + z) = if b = 0 then 0 else (ext2ReadBlock s1 b buf).2.1 (bo + z)) →
            ∃ (r : Int) (m : Nat) (data : Mem) (s' : State), Skips s s' ∧ n ≤ m ∧ m ≤ size ∧
              (∀ buffer, readLoop inode size fuel s1 (bi + 1) 0 (n + len)
                (blit buffer n chunk o len)
                buf1 = (r, fun y => if n ≤ y ∧ y < m then data y else buffer y, s')) ∧
              (size - n ≤ fuel + 1 → (¬HeapOk s ∧ r = -1) ∨ (r = toInt32 size ∧ m = size)) ∧
              ∀ off, bi * s.fs.blockSize + bo = off + n → ∀ y, n ≤ y → y < m →
                Fetched s inode (off + y) (data y) := by
          intro chunk o buf1 hchunk
          obtain ⟨r, m, data, s', hskip', hm, hmle, hrest, hall, hdata⟩ :=
            ih hio' hbs' _ 0 (n + len) buf1 (by omega) (by rw [hskip.fs]; omega)
          refine ⟨r, m, fun y => if y < n + len then chunk (o + (y - n)) else data y, s',
            hskip.trans hskip', by omega, hmle, fun buffer => ?_,
            fun hf => (hall (by omega)).imp_left
              (And.imp_left (mt fun hok => hok.shift hskip.heap)),
            fun off hpos y hy hym => ?_⟩
          · rw [hrest]
            refine congrArg (fun b => (r, b, s')) (funext fun y => ?_)
            beta_reduce
            by_cases h1 : n + len ≤ y ∧ y < m
            · rw [if_pos h1, if_pos (by omega), if_neg (by omega)]
            · rw [if_neg h1]
              by_cases h2 : n ≤ y ∧ y < n + len
              · rw [blit_apply_of_mem h2.1 h2.2, if_pos (by omega), if_pos h2.2]
              · rw [blit_apply_of_not (by omega), if_neg (by omega)]
          · beta_reduce
            by_cases h : y < n + len
            · have hin : bo + (y - n) < s.fs.blockSize := by omega
              have he : off + y = bi * s.fs.blockSize + (bo + (y - n)) := by omega
              refine ⟨s, s1, b, buf, .refl s, ?_, ?_⟩
              · rw [he, block_div (by omega) hin, hmap]
              · rw [if_pos h, hchunk, he, Nat.mul_comm, Nat.mul_add_mod, Nat.mod_eq_of_lt hin]
            · rw [if_neg h]
              obtain ⟨s2, s3, b', buf', hskip2, hrest⟩ := hdata off
                (by rw [hskip.fs, Nat.succ_mul]; omega) y (by omega) hym
              rw [hskip.fs] at hrest
              exact ⟨s2, s3, b', buf', hskip.trans hskip2, hrest⟩
        split
        · rename_i h0
          exact hnext _ _ _ fun z => (if_pos h0).symm
        · rename_i h0
          rw [hread] at hnext ⊢
          exact hnext _ _ _ fun z => (if_neg h0).symm
    · obtain rfl : n = size := by omega
      simp only [if_neg hlt]
      exact ⟨toInt32 n, n, fun _ => 0, s, .refl s, le_refl n, hn, fun buffer => by rw [hstay],
        fun _ => .inr ⟨rfl, rfl⟩, fun _ _ y _ _ => by omega⟩

section

variable (hio : IoOk s) (hbs : 1024 ∣ s.fs.blockSize) (hpos : 0 < s.fs.blockSize) (inode : Mem)
include hio hbs hpos inode

theorem readInodeData_fills (off size : Nat) : ∃ (r : Int) (m : Nat) (data : Mem) (s' : State),
    Skips s s' ∧
      (∀ buffer, ext2ReadInodeData s inode off size buffer
        = (r, fun y => if y < m then data y else buffer y, s')) ∧
      ((¬HeapOk s ∧ r = -1) ∨ (r = toInt32 m ∧ m = if iSize inode ≤ off then 0
        else if iSize inode < (off + size) % 2 ^ 32 then iSize inode - off else size)) ∧
      ∀ y < m, Fetched s inode (off + y) (data y) := by
  have hstay : ∀ buffer : Mem, (fun y => if y < 0 then 0 else buffer y) = buffer :=
    fun buffer => funext fun y => if_neg (by omega)
  simp only [ext2ReadInodeData]
  split
  · exact ⟨0, 0, fun _ => 0, s, .refl s, fun buffer => by rw [hstay], .inr ⟨rfl, rfl⟩,
      fun y hy => by omega⟩
  rw [kmalloc_eq]
  cases hheap : s.heap 0 with
  | none =>
    exact ⟨-1, 0, fun _ => 0, s.next, .next s, fun buffer => by rw [hstay],
      .inl ⟨fun hok => hok.head_ne_none hheap, rfl⟩, fun y hy => by omega⟩
  | some buf =>
    obtain ⟨r, m, data, s', hskip, -, -, hloop, hall, hdata⟩ := readLoop_fills _
      _ _ (s := s.next) hio hbs
      _ _ 0 buf (Nat.zero_le _) (Nat.mod_lt _ hpos)
    simp only [Nat.zero_le, true_and] at hloop
    refine ⟨r, m, data, s', (Skips.next s).trans hskip, hloop,
      (hall (Nat.sub_le _ _)).imp (And.imp_left (mt HeapOk.next)) fun ⟨h1, h2⟩ => ⟨h2 ▸ h1, h2⟩,
      fun y hy => ?_⟩
    · obtain ⟨s1, s2, b, buf', hskip', h⟩ := hdata off
        (by rw [Nat.mul_comm]; exact Nat.div_add_mod off _) y (Nat.zero_le y) hy
      exact ⟨s1, s2, b, buf', (Skips.next s).trans hskip', h⟩

theorem readInodeData_skips (off size : Nat) (buffer : Mem) :
    Skips s (ext2ReadInodeData s inode off size buffer).2.2 := by
  obtain ⟨r, m, data, s', hskip, h, -⟩ := readInodeData_fills hio hbs hpos _ off size
  rw [h]
  exact hskip

end

/--
**読み出しが `min size (i_size - offset)` byte だけを buffer に写し、その数を返すのは、`offset` が末尾を越えているか、
`offset + size` が 32 bit に、その数が `int` に収まるときだけである。**
-/
theorem readInodeData_count_iff (hio : IoOk s) (hok : HeapOk s) (hbs : 1024 ∣ s.fs.blockSize)
    (hpos : 0 < s.fs.blockSize) (inode : Mem) (off : Nat) {size : Nat} (hsize : size < 2 ^ 32) :
    (∃ (data : Mem) (s' : State), ∀ buffer, ext2ReadInodeData s inode off size buffer
      = (((min size (iSize inode - off) : Nat) : Int),
        fun y => if y < min size (iSize inode - off) then data y else buffer y, s')) ↔
    iSize inode ≤ off ∨ (off + size < 2 ^ 32 ∧ min size (iSize inode - off) < 2 ^ 31) := by
  have hlt : iSize inode < 2 ^ 32 := load_lt _ _ _
  obtain ⟨r, m, data, s', -, h, hall, -⟩ := readInodeData_fills hio hbs hpos _ off size
  obtain ⟨rfl, hm⟩ := hall.resolve_left fun h => h.1 hok
  constructor
  · rintro ⟨data', s'', h'⟩
    have hr := congrArg Prod.fst ((h fun _ => 0).symm.trans (h' fun _ => 0))
    simp only [toInt32] at hr
    split at hm <;> [skip; split at hm] <;> split at hr <;> omega
  · intro hc
    have hmin : m = min size (iSize inode - off) := by
      split at hm
      · omega
      · split at hm <;> omega
    refine ⟨data, s', fun buffer => ?_⟩
    rw [h, ← hmin, toInt32_of_lt (by omega)]

/-- 4 KiB の block の、何も書かれていない disk。 -/
def hollowState : State where
  disk _ := 0
  fs := ⟨fun _ => 0, fun _ => 0, 4096, 8, 8, 1, 128⟩
  io _ := true
  heap _ := some fun _ => 0

/-- 末尾の 8 byte から 32 byte を読むと、`offset + size` が溢れて 32 が返る。 -/
theorem readInodeData_overruns :
    iSize (setISize zeroInode 0xFFFFFFF8) - 0xFFFFFFF0 = 8 ∧
    (ext2ReadInodeData hollowState (setISize zeroInode 0xFFFFFFF8) 0xFFFFFFF0 32 fun _ => 1).1 =
      32 ∧
    (ext2ReadInodeData hollowState (setISize zeroInode 0xFFFFFFF8) 0xFFFFFFF0 32 fun _ => 1).2.1 8 =
      0 := by
  decide +kernel

theorem readInodeData_count_hollow : ∃ (data : Mem) (s' : State), ∀ buffer,
    ext2ReadInodeData hollowState (setISize zeroInode 5) 3 9 buffer
      = (2, fun y => if y < 2 then data y else buffer y, s') :=
  (readInodeData_count_iff (fun _ => rfl) (fun _ => ⟨_, rfl⟩) (by decide) (by decide)
    _ 3 (by decide)).mpr (.inr (by decide))

end Skips

/-! ## 読み出しの仕様 -/

/-- 道の先の block の番号。なければ 0 である。 -/
def leafAt (G : Geom) (v : View) (p : List Nat) : Nat :=
  match trace G v p with
  | some (.block _ b) => b
  | _ => 0

/-- file の `idx` 番目の block に至る間接 block がすべてある。 -/
def Linked (G : Geom) (v : View) (n idx : Nat) : Prop :=
  idx < 12 ∨ G.mapLimit ≤ idx ∨ trace G v (pathOf G n idx).dropLast ≠ none

section Read

variable {G : Geom} {x n : Nat} {s : State} {roots : Nat → Nat → Nat} {ino : Mem} {v : View}

theorem leafAt_target {p : List Nat} {h b : Nat} (hp : trace G v p = target h b) :
    leafAt G v p = b := by
  unfold leafAt
  rw [hp]
  by_cases hb : b = 0
  · rw [hb]
    rfl
  · rw [target_of_ne hb]

/-- 間接 block が揃っていれば、読み出しは道の先の block を見つける。 -/
theorem readMapBlock_spec (inv : Inv G s x roots) (hn : (view G s.disk x roots).live n = true)
    (he : Exact ino roots n) {idx : Nat}
    (hheap : 12 ≤ idx → idx < G.mapLimit → ∃ buf, s.heap 0 = some buf)
    (hl : Linked G (view G s.disk x roots) n idx) :
    ∃ s', readMapBlock s ino idx = (some (leafAt G (view G s.disk x roots) (pathOf G n idx)), s') ∧
      Skips s s' := by
  have hr := inv.ready
  simp only [readMapBlock, hr.ptrsPerBlock_eq, hr.doubleLimit_eq]
  rcases pathOf_cases G idx with h12 | ⟨h12, hind⟩ | hdbl
  · rw [if_pos h12, pathOf_direct h12]
    refine ⟨s, congrArg (fun b => (some b, s)) ?_, .refl s⟩
    rw [he idx (by omega)]
    refine (leafAt_target (h := heightOf idx) ((trace_root hn).trans ?_)).symm
    simp only [edges, view, if_pos (show idx < 14 by omega)]
  · obtain ⟨buf, hbuf⟩ := hheap h12 (lt_of_lt_of_le hind (Nat.le_add_right _ _))
    rw [if_neg (by omega), if_pos hind, kmalloc_eq, hbuf, pathOf_single h12 hind]
    have hne : trace G (view G s.disk x roots) [n, 12] ≠ none := by
      rcases hl with h | h | h
      · omega
      · unfold Geom.mapLimit at h
        omega
      · rwa [pathOf_single h12 hind] at h
    obtain ⟨f, hf⟩ := Option.ne_none_iff_exists'.mp hne
    obtain ⟨-, hk, -, rfl⟩ := trace_root_some hf
    obtain ⟨buf', hread, hptr⟩ := hr.next.readPtrs (inv.sound.good hf).lt buf
    have hj : idx - 12 < G.blockSize / 4 := show idx - 12 < G.ptrs by omega
    have hroot : iBlock ino 12 = (view G s.disk x _).roots n 12 := he 12 hk
    simp only [hroot, hread, if_true, hptr _ hj]
    refine ⟨s.next, congrArg (fun b => (some b, s.next)) ?_, .next s⟩
    refine (leafAt_target (h := 0) ((trace_concat hf _).trans ?_)).symm
    exact if_pos hj
  · rw [if_neg (by omega), if_neg (by omega), pathOf_double hdbl]
    by_cases hlim : idx < G.mapLimit
    · obtain ⟨buf, hbuf⟩ := hheap (by omega) hlim
      rw [if_pos hlim, kmalloc_eq, hbuf]
      obtain ⟨hi, hj⟩ := double_index_lt inv.ready.wf hlim
      have hne : trace G (view G s.disk x roots) [n, 13, (idx - 12 - G.ptrs) / G.ptrs] ≠ none := by
        rcases hl with h | h | h
        · omega
        · omega
        · rwa [pathOf_double hdbl] at h
      obtain ⟨g, hg⟩ := Option.ne_none_iff_exists'.mp hne
      obtain ⟨i', P, hP, -, -, rfl⟩ := trace_entry_some (p := [n, 13]) (by simp) hg
      obtain ⟨-, hk, -, hPe⟩ := trace_root_some hP
      cases hPe
      obtain ⟨buf', hread, hptr⟩ := hr.next.readPtrs (inv.sound.good hP).lt buf
      obtain ⟨buf2, hread2, hptr2⟩ := hr.next.readPtrs (inv.sound.good hg).lt buf'
      have hroot : iBlock ino 13 = (view G s.disk x _).roots n 13 := he 13 hk
      have hmid := hptr _ hi
      simp only [hroot, hread, if_true]
      rw [hmid]
      rw [show ptrAt _ (view G _ x _).disk = ptrAt _ s.next.disk from rfl] at hread2 hptr2
      simp only [hread2, if_true, hptr2 _ hj]
      refine ⟨s.next, congrArg (fun b => (some b, s.next)) ?_, .next s⟩
      refine (leafAt_target (h := 0) ((trace_concat hg _).trans ?_)).symm
      exact if_pos hj
    · rw [if_neg hlim]
      refine ⟨s, congrArg (fun b => (some b, s)) ?_, .refl s⟩
      have := trace_of_limit (n := n) (v := view G s.disk x roots) inv.ready.wf
        (Nat.le_of_not_lt hlim)
      rw [pathOf_double hdbl] at this
      simp only [leafAt, this]

/-- 間接 block を読めたなら、buffer は取れている。 -/
theorem heap_of_readMapBlock (hr : Ready G s) {idx b : Nat} {s' : State}
    (h : readMapBlock s ino idx = (some b, s')) (h12 : 12 ≤ idx) (hlim : idx < G.mapLimit) :
    ∃ buf, s.heap 0 = some buf := by
  cases hheap : s.heap 0 with
  | some buf => exact ⟨buf, rfl⟩
  | none =>
    simp only [readMapBlock, hr.doubleLimit_eq, kmalloc_eq, hheap, if_neg (not_lt.mpr h12),
      if_pos hlim, ite_self, Prod.mk.injEq] at h
    cases h.1

theorem leafAt_cases {n idx : Nat} :
    (leafAt G v (pathOf G n idx) = 0 ∧ ∀ o, dataAt G v (pathOf G n idx) o = 0) ∨
    (leafAt G v (pathOf G n idx) ≠ 0 ∧
      trace G v (pathOf G n idx) = some (.block 0 (leafAt G v (pathOf G n idx)))) := by
  cases h : trace G v _ with
  | none => exact .inl ⟨by simp only [leafAt, h], fun o => by simp only [dataAt, h]⟩
  | some f =>
    obtain ⟨b, hb, rfl⟩ := trace_pathOf h
    have : leafAt G v (pathOf G n idx) = b := by simp only [leafAt, h]
    exact .inr ⟨by rwa [this], by rw [this]⟩

section

variable (inv : Inv G s x roots) (hn : (view G s.disk x roots).live n = true)
  (he : Exact ino roots n)
include inv hn he

theorem Fetched.eq {pos : Nat} {c : UInt8}
    (hl : Linked G (view G s.disk x roots) n (pos / G.blockSize)) (h : Fetched s ino pos c) :
    c = fileByte G (view G s.disk x roots) n pos := by
  obtain ⟨s1, s2, b, buf, hskip, hmap, hc⟩ := h
  have hdisk := hskip.disk
  have inv1 := hskip.inv inv
  rw [inv.ready.size] at hmap hc
  rw [← hdisk] at hn hl
  obtain ⟨s2', hmap', hskip2⟩ := readMapBlock_spec inv1 hn he
    (heap_of_readMapBlock inv1.ready hmap) hl
  cases hmap.symm.trans hmap'
  rw [hc, fileByte, ← hdisk]
  rcases leafAt_cases with ⟨h0, hzero⟩ | ⟨h0, htr⟩
  · rw [if_pos h0, hzero]
  · rw [if_neg h0, (hskip2.inv inv1).ready.read (inv1.sound.good htr).lt,
      dataAt_block htr, hskip2.disk]
    exact blit_block _ _ _ _ (Nat.mod_lt _ inv.ready.wf.size_pos)

/-- **`ext2_read_inode_data` は、buffer が取れなければ失敗し、取れれば `i_size` までの file の byte を返す。** -/
theorem readInodeData_cases {off size : Nat} (hlt : off + size < 2 ^ 32) (buffer : Mem) :
    (¬HeapOk s ∧ ∃ buffer' s', ext2ReadInodeData s ino off size buffer = (-1, buffer', s')) ∨
    ∃ buffer' s', ext2ReadInodeData s ino off size buffer
        = (toInt32 (min size (iSize ino - off)), buffer', s') ∧ Skips s s' ∧
      ∀ y, (y < size → off + y < iSize ino →
          Linked G (view G s.disk x roots) n ((off + y) / G.blockSize)) →
        buffer' y = if y < size ∧ off + y < iSize ino
          then fileByte G (view G s.disk x roots) n (off + y) else buffer y := by
  have hr := inv.ready
  obtain ⟨r, m, data, s', hskip, hread, hall, hdata⟩ := readInodeData_fills hr.io hr.blockSize.dvd
    (hr.size ▸ hr.wf.size_pos) ino off size
  rcases hall with ⟨hno, rfl⟩ | ⟨rfl, hm⟩
  · exact .inl ⟨hno, _, s', hread buffer⟩
  have hmin : m = min size (iSize ino - off) := by
    split at hm <;> [skip; split at hm] <;> omega
  refine .inr ⟨_, s', by rw [hread, hmin], hskip, fun y hlinked => ?_⟩
  by_cases hy : y < size ∧ off + y < iSize ino
  · rw [if_pos hy, if_pos (by omega)]
    exact (hdata y (by omega)).eq inv hn he (hlinked hy.1 hy.2)
  · rw [if_neg hy, if_neg (by omega)]

theorem readInodeData_spec (hok : HeapOk s) {off size : Nat} (hlt : off + size < 2 ^ 32)
    (buffer : Mem) : ∃ buffer' s', ext2ReadInodeData s ino off size buffer
        = (toInt32 (min size (iSize ino - off)), buffer', s') ∧ Skips s s' ∧
      ∀ y, (y < size → off + y < iSize ino →
          Linked G (view G s.disk x roots) n ((off + y) / G.blockSize)) →
        buffer' y = if y < size ∧ off + y < iSize ino
          then fileByte G (view G s.disk x roots) n (off + y) else buffer y :=
  (readInodeData_cases inv hn he hlt buffer).resolve_left fun h => h.1 hok

end

end Read

end Alos.Ext2
