import Alos.Ext2.Geometry

/-!
# 割り当てと解放の仕様

I/O error のない image の上で、割り当てと解放が disk と空きの数に何をするかを述べる。
`kmalloc` はいつ失敗してもよい。失敗した割り当ては、状態を元どおりに残す。
-/

namespace Alos.Ext2

open Bytes Bitmap List

variable {b g n j : Nat} {m : Mem} {k' : Kind}
variable {x maxBits g' bit : Nat}

/-! ## image の読み書き -/

/-- 配置 `G` の image の上にあり、転送に失敗しない状態。 -/
structure Ready (G : Geom) (s : State) : Prop where
  io : IoOk s
  geom : s.fs.geom = G
  wf : G.Wf

namespace Ready

variable {G : Geom} {s : State} (hr : Ready G s)

include hr

theorem next : Ready G s.next := ⟨hr.io, hr.geom, hr.wf⟩

theorem withDisk (m : Mem) : Ready G { s with disk := m } := ⟨hr.io, hr.geom, hr.wf⟩

theorem adjust (k : Kind) (g : Nat) (d : Int) : Ready G { s with fs := k.pool.adjust s.fs g d } :=
  ⟨hr.io, (geom_adjust k s.fs g d).trans hr.geom, hr.wf⟩

theorem size : s.fs.blockSize = G.blockSize := congrArg Geom.blockSize hr.geom

theorem numGroups : s.fs.numGroups = G.numGroups := congrArg Geom.numGroups hr.geom

theorem perGroup {k : Kind} : k.pool.perGroup s.fs = G.per k :=
  congrFun (congrArg Geom.per hr.geom) k

theorem bitmap (k : Kind) (g : Nat) : k.pool.bitmap s.fs g = G.bitmap k g :=
  congrFun (congrFun (congrArg Geom.bitmap hr.geom) k) g

theorem base (k : Kind) : k.pool.base s.fs = G.base k := by
  cases k with
  | block => exact congrArg Geom.firstDataBlock hr.geom
  | inode => rfl

theorem blockSize : BlockSize s.fs :=
  ⟨hr.size ▸ hr.wf.dvd, hr.size ▸ hr.wf.size_pos, hr.size ▸ hr.wf.size_le⟩

theorem fits (hb : b < G.blocksCount) : Fits s.fs b := by
  unfold Fits
  rw [hr.size]
  exact le_trans (Nat.mul_le_mul_right _ hb) hr.wf.fits

theorem read (hb : b < G.blocksCount) (buf : Mem) : ext2ReadBlock s b buf =
    (true, blit buf 0 s.disk (b * G.blockSize) G.blockSize, s) := by
  rw [ext2ReadBlock_ok hr.io hr.blockSize.dvd (hr.fits hb).lands, hr.size]

theorem write (hb : b < G.blocksCount) {buf : Mem} :
    ext2WriteBlock s b buf = (true, { s with disk := putBlock G.blockSize s.disk b buf }) := by
  rw [ext2WriteBlock_ok hr.io hr.blockSize.dvd (hr.fits hb).lands, hr.size]

end Ready

/-- 読んだ buffer は block の中身である。 -/
theorem blit_block (buf m : Mem) (bs b : Nat) (hx : x < bs) :
    blit buf 0 m (b * bs) bs x = blockAt bs m b x := by
  rw [blit_apply_of_mem (Nat.zero_le x) (by omega)]
  rfl

/-! ## 空きの数の書き出し -/

section Counters

variable {G : Geom} {s : State}

theorem Ready.writeSuperblock (hr : Ready G s) : ∃ m,
    ext2WriteSuperblock s = (true, { s with disk := m }) ∧
    OnlyBlocks G.blockSize s.disk m (· = Slot.super.block G) := by
  refine ⟨_, ext2WriteSuperblock_ok hr.io, ?_⟩
  have hdvd := hr.wf.dvd
  have hpos := hr.wf.size_pos
  have haddr : 1024 = 1024 / G.blockSize * G.blockSize + 1024 % G.blockSize :=
    (Nat.div_add_mod' _ _).symm
  -- superblock は 1024 byte 目からの 1024 byte で、一つの block に収まる
  have hoff : 1024 % G.blockSize + 1024 ≤ G.blockSize := by
    by_cases h : G.blockSize = 1024
    · rw [h]
    · omega
  have := onlyBlocks_blit (m := s.disk) (b := 1024 / G.blockSize) s.fs.superblock 0 hoff
  rwa [← haddr] at this

theorem Ready.writeGroupDesc (hr : Ready G s) (hg : g < G.numGroups) : ∃ ok m,
    ext2WriteGroupDesc s g = (ok, { s.next with disk := m }) ∧
    OnlyBlocks G.blockSize s.disk m (· = (Slot.gdt (g / (G.blockSize / groupDescSize))).block G) ∧
    (ok = false → m = s.disk) ∧ (ok = false ↔ s.heap 0 = none) := by
  have hdvd := hr.wf.dvd
  have hpos := hr.wf.size_pos
  have hvalid : (Slot.gdt _).Valid G :=
    lt_of_le_of_lt (Nat.div_mul_le_self _ _) hg
  have hfits := hr.fits (hr.wf.slot_lt _ hvalid)
  have hoff : g % (G.blockSize / groupDescSize) * groupDescSize + groupDescSize ≤ G.blockSize := by
    have hlt := Nat.mod_lt g (show 0 < G.blockSize / groupDescSize by
      simp only [groupDescSize]; omega)
    simp only [groupDescSize] at hlt ⊢
    omega
  have hgdt : gdtBlock s.fs + g / (G.blockSize / groupDescSize)
      = (Slot.gdt (g / (G.blockSize / groupDescSize))).block G := by
    simp only [gdtBlock, Slot.block, hr.size]
  unfold ext2WriteGroupDesc
  rw [if_neg (by rw [hr.numGroups]; omega)]
  simp only [hr.size, hgdt]
  rw [patchBlock_eq hr.io hr.blockSize.dvd hfits.lands (by rwa [hr.size])]
  cases hheap : s.heap 0 with
  | none => exact ⟨false, s.disk, rfl, .refl, fun _ => rfl, by simp⟩
  | some buf =>
    refine ⟨true, _, rfl, ?_, by simp, by simp⟩
    rw [hr.size]
    exact onlyBlocks_blit _ _ hoff

end Counters

/-! ## 最初の 0 の bit -/

theorem findSome_range {α : Type} {f : Nat → Option α} {a : α} (hb : b < n)
    (hf : f b = some a) (hlow : ∀ j < b, f j = none) : (range n).findSome? f = some a := by
  rw [findSome?_eq_some_iff]
  refine ⟨range b, b, (range (n - b - 1)).map (b + 1 + ·), ?_, hf, ?_⟩
  · rw [← singleton_append, ← append_assoc, ← range_succ, ← range_add]
    congr 1
    omega
  · intro j hj
    exact hlow j (mem_range.mp hj)

/-- byte の中の最初の 0 の bit。 -/
theorem zeroBitOfByte_eq {byte : Nat} (hbyte : n / 8 = byte)
    (hn : n < maxBits) (hz : test m n = false) (hlow : ∀ j < n, test m j = true) :
    zeroBitOfByte (m byte) byte maxBits = some (some n) := by
  subst hbyte
  have hbit : ∀ j < 8, (m (n / 8) &&& (1 <<< UInt8.ofNat j) = 0) ↔
      test m (n / 8 * 8 + j) = false := by
    intro j hj
    rw [test_byte m _ hj, ← byte_mask _ hj]
    simp
  apply findSome_range (b := n % 8) (Nat.mod_lt _ (by decide))
  · have hn8 : n / 8 * 8 + n % 8 = n := by omega
    rw [if_neg (by omega), if_pos ((hbit _ (Nat.mod_lt _ (by decide))).mpr (by rwa [hn8])), hn8]
  · intro j hj
    rw [if_neg (by omega), if_neg]
    rw [hbit j (by omega), hlow _ (by omega)]
    simp

theorem findFirstZeroBit_eq {size : Nat} (hn : n < maxBits)
    (hsize : n < 8 * size) (hz : test m n = false) (hlow : ∀ j < n, test m j = true) :
    findFirstZeroBit m size maxBits = some n := by
  unfold findFirstZeroBit
  rw [findSome_range (b := n / 8) (a := some n) (by omega)]
  · rfl
  · rw [if_pos, zeroBitOfByte_eq rfl hn hz hlow]
    rw [Ne, byte_eq_max_iff]
    intro hall
    have := hall (n % 8) (Nat.mod_lt _ (by decide))
    rw [← test_eq] at this
    rw [this] at hz
    cases hz
  · intro j hj
    rw [if_neg]
    rw [not_not, byte_eq_max_iff]
    intro i hi
    rw [← test_byte m j hi]
    exact hlow _ (by omega)

/-- 範囲に 0 の bit があれば、最初のものが見つかる。 -/
theorem findFirstZeroBit_le {size : Nat} (hn : n < maxBits) (hsize : n < 8 * size)
    (hz : test m n = false) :
    ∃ j ≤ n, findFirstZeroBit m size maxBits = some j ∧ ∀ i < j, test m i = true := by
  have hex : ∃ j, test m j = false := ⟨n, hz⟩
  have hle : Nat.find hex ≤ n := Nat.find_min' hex hz
  have hlow : ∀ i < Nat.find hex, test m i = true := fun i hi => by simpa using Nat.find_min hex hi
  exact ⟨_, hle, findFirstZeroBit_eq (by omega) (by omega) (Nat.find_spec hex) hlow, hlow⟩

theorem findFirstZeroBit_some {size : Nat} (h : findFirstZeroBit m size maxBits = some n) :
    n < maxBits ∧ n < 8 * size ∧ test m n = false ∧ ∀ j < n, test m j = true := by
  have hn : n < maxBits ∧ n < 8 * size ∧ test m n = false := by
    obtain ⟨byte, hbyte, hf⟩ := exists_of_findSome?_eq_some (Option.join_eq_some_iff.mp h)
    by_cases hff : m byte = 0xFF
    · simp [hff] at hf
    rw [if_pos hff] at hf
    obtain ⟨bit, hbit, hf⟩ := exists_of_findSome?_eq_some hf
    rw [mem_range] at hbyte hbit
    by_cases hmax : maxBits ≤ byte * 8 + bit
    · simp [hmax] at hf
    by_cases hz : m byte &&& (1 <<< UInt8.ofNat bit) = 0
    · simp only [hmax, hz, if_false, if_true, Option.some.injEq] at hf
      subst hf
      exact ⟨by omega, by omega, by rw [test_byte m _ hbit, ← byte_mask _ hbit, hz]; rfl⟩
    · simp [hmax, hz] at hf
  obtain ⟨h1, h2, hz⟩ := hn
  obtain ⟨j, -, hj, hlow⟩ := findFirstZeroBit_le h1 h2 hz
  obtain rfl : n = j := by rw [h] at hj; exact Option.some.inj hj
  exact ⟨h1, h2, hz, hlow⟩

/-! ## 空きの数 -/

section

variable (p : Pool) (fs : Fs)
include p fs

theorem count_lt (g : Nat) : p.count fs g < 2 ^ 16 := load_lt _ _ 2

theorem total_lt : p.total fs < 2 ^ 32 := load_lt _ _ 4

theorem count_adjust_self (g : Nat) (d : Int) :
    p.count (p.adjust fs g d) g = ((p.count fs g + d) % 2 ^ 16).toNat :=
  load_store_self (by
    omega)

theorem total_adjust_self (g : Nat) (d : Int) :
    p.total (p.adjust fs g d) = ((p.total fs + d) % 2 ^ 32).toNat :=
  load_store_self (by
    omega)

end

theorem count_adjust_ne {k : Kind} (h : ¬(k' = k ∧ g' = g)) {fs : Fs} {d : Int} :
    k'.pool.count (k.pool.adjust fs g d) g' = k'.pool.count fs g' := by
  apply load_store_of_disjoint
  cases k <;> cases k' <;>
    simp only [Kind.pool, blockPool, inodePool, groupDescSize, true_and, reduceCtorEq] at h ⊢ <;>
    omega

theorem total_adjust_ne {k : Kind} (h : k' ≠ k) {fs : Fs} {d : Int} :
    k'.pool.total (k.pool.adjust fs g d) = k'.pool.total fs := by
  apply load_store_of_disjoint
  cases k <;> cases k' <;>
    simp only [Kind.pool, blockPool, inodePool, ne_eq, not_true_eq_false] at h ⊢ <;>
    omega

/-- `rollback` は空きの数を元に戻す。 -/
theorem adjust_undo (p : Pool) (fs : Fs) (g : Nat) : p.adjust (p.adjust fs g (-1)) g 1 = fs := by
  have hc := count_lt p fs g
  have ht := total_lt p fs
  have h1 : ((p.count (p.adjust fs g (-1)) g + 1 : Int) % 2 ^ 16).toNat = p.count fs g := by
    rw [count_adjust_self]
    omega
  have h2 : ((p.total (p.adjust fs g (-1)) + 1 : Int) % 2 ^ 32).toNat = p.total fs := by
    rw [total_adjust_self]
    omega
  have hgd : (p.adjust (p.adjust fs g (-1)) g 1).groupDescs = fs.groupDescs := by
    show store (store _ _ 2 _) _ 2
      _ = _
    rw [h1, store_store_self]
    exact store_load_self
  have hsb : (p.adjust (p.adjust fs g (-1)) g 1).superblock = fs.superblock := by
    show store (store _ _ 4 _) _ 4
      _ = _
    rw [h2, store_store_self]
    exact store_load_self
  exact congrArg₂ (fun gd sb => ({ fs with groupDescs := gd, superblock := sb } : Fs)) hgd hsb

/-! ## 一つの bit の反転 -/

/-- 種類 `k` の group `g` の bitmap を `flip` で変え、空きの数を `d` だけ変えた。 -/
structure Flipped (G : Geom) (k : Kind) (g : Nat) (d : Int) (flip : Mem → Mem) (s s' : State) :
    Prop where
  io : s'.io = s.io
  heap : ∃ n, s'.heap = fun i => s.heap (i + n)
  fs : s'.fs = k.pool.adjust s.fs g d
  bits : ∀ x < G.blockSize, blockAt G.blockSize s'.disk (G.bitmap k g) x
    = flip (blockAt G.blockSize s.disk (G.bitmap k g)) x
  only : OnlyBlocks G.blockSize s.disk s'.disk fun b => b = G.bitmap k g ∨
    b = Slot.super.block G ∨ b = (Slot.gdt (g / (G.blockSize / groupDescSize))).block G

section Flipped

variable {G : Geom} {k : Kind} {g : Nat} {d : Int} {flip : Mem → Mem} {s s' : State}

theorem Flipped.ready (h : Flipped G k g d flip s s') (hr : Ready G s) : Ready G s' := by
  refine ⟨?_, ?_, hr.wf⟩
  · intro n
    rw [h.io, hr.io]
  · rw [h.fs, geom_adjust, hr.geom]

theorem Flipped.of_next (h : Flipped G k g d flip s.next s') : Flipped G k g d flip s s' := by
  obtain ⟨n, hn⟩ := h.heap
  exact ⟨h.io, ⟨n + 1, hn⟩, h.fs, h.bits, h.only⟩

/-- bitmap を書き、group と superblock の空きの数を書き出した後の状態。 -/
theorem flipped_of_writes (hr : Ready G s) (hv : 0 < G.validBits k g) {buf : Mem}
    (hbuf : ∀ x < G.blockSize, buf x = flip (blockAt G.blockSize s.disk (G.bitmap k g)) x)
    {m' : Mem} (hm : OnlyBlocks G.blockSize (putBlock G.blockSize s.disk (G.bitmap k g) buf) m
      (· = (Slot.gdt (g / (G.blockSize / groupDescSize))).block G))
    (hm' : OnlyBlocks G.blockSize m m' (· = Slot.super.block G)) :
    Flipped G k g d flip s { s.next with disk := m', fs := k.pool.adjust s.fs g d } := by
  have hgdt : (Slot.gdt _).Valid G :=
    lt_of_le_of_lt (Nat.div_mul_le_self _ _) (hr.wf.group_lt_of_valid hv)
  have hbitmap : (Slot.bitmap k g).Valid G := hv
  refine ⟨rfl, ⟨1, rfl⟩, rfl, ?_, ?_⟩
  · intro x hx
    rw [hm'.blockAt_eq _ hx, hm.blockAt_eq _ hx, blockAt_putBlock_self hx, hbuf x hx]
    · intro h
      cases hr.wf.slot_inj _ _ hbitmap hgdt h
    · intro h
      cases hr.wf.slot_inj _ .super hbitmap trivial h
  · refine .trans (.mono (onlyBlocks_putBlock hr.wf.size_pos) ?_)
      (.trans (hm.mono ?_) (hm'.mono ?_))
    · exact fun b h => .inl h
    · exact fun b h => .inr (.inr h)
    · exact fun b h => .inr (.inl h)

end Flipped

/-! ## 割り当て -/

section Alloc

variable {G : Geom} {k : Kind} {s : State}

theorem toInt32_of_lt (h : n < 2 ^ 31) : toInt32 n = n := by
  unfold toInt32
  omega

/-- 空いている bit を取る。descriptor を書く buffer が取れなければ、元に戻して失敗する。 -/
theorem take_eq (hr : Ready G s) (hg : g < G.numGroups) (hb : G.bitmap k g < G.blocksCount)
    (hm : ∀ x < G.blockSize, m x = blockAt G.blockSize s.disk (G.bitmap k g) x)
    (hz : test m bit = false) : (s.heap 0 = none ∧ k.pool.take s g bit m = (-1, s.next)) ∨
    s.heap 0 ≠ none ∧ ∃ m2 m3,
      OnlyBlocks G.blockSize (putBlock G.blockSize s.disk (G.bitmap k g) (Bitmap.set m bit)) m2
        (· = (Slot.gdt (g / (G.blockSize / groupDescSize))).block G) ∧
      OnlyBlocks G.blockSize m2 m3 (· = Slot.super.block G) ∧
      k.pool.take s g bit m = (toInt32 (G.base k + (g * G.per k + bit)),
        { s.next with disk := m3, fs := k.pool.adjust s.fs g (-1) }) := by
  simp only [Pool.take, hr.bitmap, hr.perGroup, hr.base, hr.write hb, if_true]
  have hr1 := (hr.withDisk (putBlock G.blockSize s.disk (G.bitmap k g) (Bitmap.set m bit))).adjust
    k g (-1)
  obtain ⟨ok, m2, hdesc, honly, hfail, hheap⟩ := hr1.writeGroupDesc hg
  simp only [hdesc]
  cases ok with
  | false =>
    refine .inl ⟨hheap.mp rfl, ?_⟩
    have hr2 := hr1.next.withDisk m2
    rw [hfail rfl] at hr2 ⊢
    simp only [Bool.false_eq_true, if_false, hr2.write hb]
    rw [clear_set hz, putBlock_restore hr.wf.size_pos hm]
    show (-1, { s.next with fs := k.pool.adjust (k.pool.adjust s.fs g (-1)) g 1 }) = _
    rw [adjust_undo]
    rfl
  | true =>
    obtain ⟨m3, hsuper, honly'⟩ := (hr1.next.withDisk m2).writeSuperblock
    refine .inr ⟨fun h => (by cases hheap.mpr h), m2, m3, honly, honly', ?_⟩
    simp only [if_true, hsuper]
    rw [show g * G.per k + G.base k + bit = G.base k + (g * G.per k + bit) by omega]
    rfl

theorem take_cases (hr : Ready G s) (hbit : bit < G.validBits k g)
    (hm : ∀ x < G.blockSize, m x = blockAt G.blockSize s.disk (G.bitmap k g) x)
    (hz : test m bit = false) : (s.heap 0 = none ∧ k.pool.take s g bit m = (-1, s.next)) ∨
    ∃ s', k.pool.take s g bit m = (((G.base k + (g * G.per k + bit) : Nat) : Int), s') ∧
      Flipped G k g (-1) (Bitmap.set · bit) s s' := by
  have hv : 0 < G.validBits k g := by omega
  refine (take_eq hr (hr.wf.group_lt_of_valid hv) (hr.wf.slot_lt (.bitmap k g) hv) hm hz).imp_right
    ?_
  rintro ⟨-, m2, m3, honly, honly', h⟩
  rw [toInt32_of_lt (hr.wf.object_lt (Geom.Wf.index_lt hbit))] at h
  exact ⟨_, h, flipped_of_writes hr hv (fun x hx => set_congr (hm x hx)) honly honly'⟩

/-- 種類 `k` の `i` 番目（0 から）の物の bit。 -/
def marked (G : Geom) (m : Mem) (k : Kind) (i : Nat) : Bool :=
  test (blockAt G.blockSize m (G.bitmap k (i / G.per k))) (i % G.per k)

/-- 空きがあると数えている group には、番号の付いた空きがある。 -/
def Room (G : Geom) (s : State) (k : Kind) : Prop :=
  ∀ g < G.numGroups, k.pool.count s.fs g ≠ 0 →
    ∃ bit < G.validBits k g, test (blockAt G.blockSize s.disk (G.bitmap k g)) bit = false

/-- 空きがあると数えている group `g` の、探される範囲の `bit` が立っていない。 -/
def Vacant (G : Geom) (s : State) (k : Kind) (g bit : Nat) : Prop :=
  k.pool.count s.fs g ≠ 0 ∧ bit < k.pool.searched s.fs g ∧
    test (blockAt G.blockSize s.disk (G.bitmap k g)) bit = false

/-- 順に探して最初に見つかる空き。 -/
structure First (G : Geom) (s : State) (k : Kind) (g bit : Nat) : Prop where
  group : g < G.numGroups
  vacant : Vacant G s k g bit
  lower : ∀ j < bit, ¬Vacant G s k g j
  earlier : ∀ g' < g, ∀ j, ¬Vacant G s k g' j

theorem First.unique {g' bit' : Nat} (h : First G s k g bit) (h' : First G s k g' bit') :
    g = g' ∧ bit = bit' := by
  obtain rfl : g = g' := by
    rcases lt_trichotomy g g' with hlt | he | hlt
    · exact absurd h.vacant (h'.earlier g hlt bit)
    · exact he
    · exact absurd h'.vacant (h.earlier g' hlt bit')
  refine ⟨rfl, ?_⟩
  rcases lt_trichotomy bit bit' with hlt | he | hlt
  · exact absurd h.vacant (h'.lower bit hlt)
  · exact he
  · exact absurd h'.vacant (h.lower bit' hlt)

/-- 最初に見つかる空きには、番号が付いている。 -/
def Numbered (G : Geom) (s : State) (k : Kind) : Prop :=
  ∀ g bit, First G s k g bit → bit < G.validBits k g

/-- 空きがあると数えている group の bitmap は、disk の上にある。 -/
def Readable (G : Geom) (s : State) (k : Kind) : Prop :=
  ∀ g < G.numGroups, k.pool.count s.fs g ≠ 0 → G.bitmap k g < G.blocksCount

theorem Ready.searched_le (hr : Ready G s) : k.pool.searched s.fs g ≤ G.per k := by
  rw [← hr.perGroup]
  cases k with
  | inode => exact le_refl _
  | block =>
    have hpos : 0 < s.fs.blocksPerGroup := by
      have := hr.wf.per_pos .block
      rwa [← hr.perGroup] at this
    show blocksInGroup s.fs g ≤ s.fs.blocksPerGroup
    simp only [blocksInGroup]
    split
    · exact (Nat.mod_lt _ hpos).le
    · exact le_refl _

/-- 番号の付いた空きがあれば、探して見つかる。 -/
theorem Room.vacant (h : Room G s k) (hr : Ready G s) (hg : g < G.numGroups)
    (hc : k.pool.count s.fs g ≠ 0) : ∃ bit < G.validBits k g, Vacant G s k g bit := by
  obtain ⟨bit, hbit, hz⟩ := h g hg hc
  have hle := validBits_le_searched (hr.geom ▸ hr.wf) k g
  rw [hr.geom] at hle
  exact ⟨bit, hbit, hc, by omega, hz⟩

theorem Room.numbered (h : Room G s k) (hr : Ready G s) : Numbered G s k := by
  intro g bit hf
  obtain ⟨b, hb, hv⟩ := h.vacant hr hf.group hf.vacant.1
  by_contra hge
  exact hf.lower b (by omega) hv

theorem Room.readable (h : Room G s k) (hr : Ready G s) : Readable G s k := by
  intro g hg hc
  obtain ⟨b, hb, -⟩ := h g hg hc
  exact hr.wf.slot_lt (.bitmap k g) (show 0 < _ by omega)

/-- 読んだ buffer の bit は、disk の bitmap の bit である。 -/
theorem test_blit (h : bit < 8 * G.blockSize) (buf : Mem) :
    test (blit buf 0 s.disk (G.bitmap k g * G.blockSize) G.blockSize) bit
      = test (blockAt G.blockSize s.disk (G.bitmap k g)) bit :=
  test_congr (blit_block buf _ _ _ (by omega))

/-- 一つの group を見る。空きがなければ次に進み、あれば最初のものを取る。 -/
theorem allocIn_cons (hr : Ready G s)
    (hb : k.pool.count s.fs g ≠ 0 → G.bitmap k g < G.blocksCount) (gs : List Nat) (buf : Mem) :
    (∃ buf', (∀ j, ¬Vacant G s k g j) ∧
      k.pool.allocIn (g :: gs) s buf = k.pool.allocIn gs s buf') ∨
    ∃ bit m, Vacant G s k g bit ∧ (∀ j < bit, ¬Vacant G s k g j) ∧
      (∀ x < G.blockSize, m x = blockAt G.blockSize s.disk (G.bitmap k g) x) ∧
      test m bit = false ∧ k.pool.allocIn (g :: gs) s buf = k.pool.take s g bit m := by
  rw [Pool.allocIn]
  by_cases hc : k.pool.count s.fs g = 0
  · exact .inl ⟨buf, fun j hv => hv.1 hc, if_pos hc⟩
  have hsize : ∀ j, j < k.pool.searched s.fs g → j < 8 * G.blockSize := fun j hj =>
    lt_of_lt_of_le hj (hr.searched_le.trans (hr.wf.per_le k))
  simp only [if_neg hc, hr.bitmap, hr.read (hb hc), if_true, hr.size]
  split
  · rename_i hfind
    refine .inl ⟨_, fun j hv => ?_, rfl⟩
    obtain ⟨i, -, hi, -⟩ := findFirstZeroBit_le hv.2.1 (hsize j hv.2.1)
      ((test_blit (hsize j hv.2.1) buf).trans hv.2.2)
    rw [hfind] at hi
    cases hi
  · rename_i bit hfind
    obtain ⟨hsearched, hlt, hz, hlow⟩ := findFirstZeroBit_some hfind
    refine .inr ⟨bit, _, ⟨hc, hsearched, (test_blit hlt buf).symm.trans hz⟩, fun j hj hv => ?_,
      fun x hx => blit_block buf _ _ _ hx, hz, rfl⟩
    cases ((test_blit (by omega) buf).symm.trans (hlow j hj)).symm.trans hv.2.2

/-- group を順に探し、最初に見つけた空きを取る。 -/
theorem allocIn_cases (hr : Ready G s) : ∀ (gs : List Nat) (buf : Mem),
    (∀ g ∈ gs, k.pool.count s.fs g ≠ 0 → G.bitmap k g < G.blocksCount) →
      ((∀ g ∈ gs, ∀ j, ¬Vacant G s k g j) ∧ k.pool.allocIn gs s buf = (-1, s)) ∨
      ∃ pre g post bit m, gs = pre ++ g :: post ∧ (∀ g' ∈ pre, ∀ j, ¬Vacant G s k g' j) ∧
        Vacant G s k g bit ∧ (∀ j < bit, ¬Vacant G s k g j) ∧
        (∀ x < G.blockSize, m x = blockAt G.blockSize s.disk (G.bitmap k g) x) ∧
        test m bit = false ∧ k.pool.allocIn gs s buf = k.pool.take s g bit m := by
  intro gs
  induction gs with
  | nil => intro buf _; exact .inl ⟨by simp, rfl⟩
  | cons g gs ih =>
    intro buf hgs
    obtain ⟨hb, hgs⟩ := forall_mem_cons.mp hgs
    rcases allocIn_cons hr hb gs buf with ⟨buf', hg, h⟩ | ⟨bit, m, hrest⟩
    · rw [h]
      rcases ih buf' hgs with ⟨hz, h'⟩ | ⟨pre, g', post, bit, m, rfl, hpre, hrest⟩
      · exact .inl ⟨forall_mem_cons.mpr ⟨hg, hz⟩, h'⟩
      · exact .inr ⟨g :: pre, g', post, bit, m, rfl, forall_mem_cons.mpr ⟨hg, hpre⟩, hrest⟩
    · exact .inr ⟨[], g, gs, bit, m, rfl, by simp, hrest⟩

/-- 割り当ては、空きがないと数えているか、buffer が取れないか、空きがないか、最初の空きを取るかである。 -/
theorem alloc_take (hr : Ready G s) (hread : Readable G s k) :
    (k.pool.total s.fs = 0 ∧ k.pool.alloc s = (-1, s)) ∨
    (s.heap 0 = none ∧ k.pool.alloc s = (-1, s.next)) ∨
    ((∀ g < G.numGroups, ∀ j, ¬Vacant G s k g j) ∧ k.pool.alloc s = (-1, s.next)) ∨
    k.pool.total s.fs ≠ 0 ∧ s.heap 0 ≠ none ∧ ∃ g bit m, First G s k g bit ∧
      (∀ x < G.blockSize, m x = blockAt G.blockSize s.disk (G.bitmap k g) x) ∧
      test m bit = false ∧ k.pool.alloc s = k.pool.take s.next g bit m := by
  unfold Pool.alloc
  split
  · exact .inl ⟨‹_›, rfl⟩
  rename_i h0
  rw [kmalloc_eq]
  cases hheap : s.heap 0 with
  | none => exact .inr (.inl ⟨rfl, rfl⟩)
  | some buf =>
    have hgs : ∀ g, g ∈ range s.next.fs.numGroups ↔ g < G.numGroups := by
      intro g
      rw [mem_range, hr.next.numGroups]
    rcases allocIn_cases hr.next _ buf fun g hg => hread g ((hgs g).mp hg) with
      ⟨hz, h⟩ | ⟨pre, g, post, bit, m, he, hpre, hv, hlow, hm, hz, h⟩
    · exact .inr (.inr (.inl ⟨fun g hg => hz g ((hgs g).mpr hg), h⟩))
    have hg := (hgs g).mp (he ▸ by simp)
    refine .inr (.inr (.inr ⟨h0, by simp, g, bit, m, ⟨hg, hv, hlow, fun g' hg' => hpre g' ?_⟩, hm,
      hz, h⟩))
    -- 前の group は、並びの前にある
    have hmem := (hgs g').mpr (lt_trans hg' hg)
    have hsort := pairwise_lt_range (n := s.next.fs.numGroups)
    rw [he] at hmem hsort
    rcases mem_append.mp hmem with h | h
    · exact h
    · rcases mem_cons.mp h with rfl | h
      · omega
      · have := (pairwise_cons.mp (pairwise_append.mp hsort).2.1).1 g' h
        omega

/--
**割り当ては、何も変えずに失敗するか、空いていた一つの bit を立てる。**

失敗するのは、空きがないと数えているか、`kmalloc` が失敗したときである。
-/
theorem alloc_cases (hr : Ready G s) (hread : Readable G s k) (hnum : Numbered G s k) :
    (∃ n, k.pool.alloc s = (-1, { s with heap := fun i => s.heap (i + n) }) ∧
      (HeapOk s → Room G s k → k.pool.total s.fs = 0 ∨ ∀ g < G.numGroups,
        k.pool.count s.fs g = 0)) ∨
    ∃ i s', i < G.objects k ∧ marked G s.disk k i = false ∧
      k.pool.alloc s = (((G.base k + i : Nat) : Int), s') ∧
      Flipped G k (i / G.per k) (-1) (Bitmap.set · (i % G.per k)) s s' ∧
      k.pool.total s.fs = k.pool.total s'.fs + 1 := by
  rcases alloc_take hr hread with ⟨h0, h⟩ | ⟨hnone, h⟩ | ⟨hz, h⟩ | ⟨h0, -, g, bit, m, hf, hm, hz, h⟩
  · exact .inl ⟨0, h, fun _ _ => .inl h0⟩
  · exact .inl ⟨1, h, fun hok => absurd hnone hok.head_ne_none⟩
  · refine .inl ⟨1, h, fun _ hroom => .inr fun g hg => ?_⟩
    by_contra hc
    obtain ⟨bit, -, hv⟩ := hroom.vacant hr hg hc
    exact hz g hg bit hv
  have hbit := hnum g bit hf
  rcases take_cases hr.next hbit hm hz with ⟨hnone, ht⟩ | ⟨s', ht, hflip⟩
  · exact .inl ⟨2, h.trans ht, fun hok => absurd hnone hok.next.head_ne_none⟩
  refine .inr ⟨_, s', Geom.Wf.index_lt hbit, ?_, h.trans ht, ?_, ?_⟩
  · rw [marked, Geom.Wf.index_div hbit, Geom.Wf.index_mod hbit]
    exact hf.vacant.2.2
  · rw [Geom.Wf.index_div hbit, Geom.Wf.index_mod hbit]
    exact hflip.of_next
  · have hlt : k.pool.total s.fs < 2 ^ 32 := load_lt _ _ _
    rw [hflip.fs, total_adjust_self]
    show k.pool.total s.fs = ((k.pool.total s.fs + (-1) : Int) % 2 ^ 32).toNat + 1
    omega

/-- **解放は、何も変えずに失敗するか、立っていた一つの bit を下ろす。** -/
theorem free_cases {i : Nat} (hr : Ready G s) (hi : i < G.objects k) :
    ((s.heap 0 = none ∨ marked G s.disk k i = false) ∧ k.pool.free s i = (false, s.next)) ∨
    (marked G s.disk k i = true ∧ ∃ s', k.pool.free s i = (true, s') ∧
      Flipped G k (i / G.per k) 1 (Bitmap.clear · (i % G.per k)) s s') := by
  have hbit := hr.wf.bit_lt hi
  have hv : 0 < G.validBits k (i / G.per k) := by omega
  have hg := hr.wf.group_lt hi
  have hb : G.bitmap k _ < G.blocksCount := hr.wf.slot_lt (.bitmap k _) hv
  simp only [Pool.free, hr.perGroup, hr.numGroups]
  rw [if_neg (by omega), kmalloc_eq]
  cases hheap : s.heap 0 with
  | none => exact .inl ⟨.inl rfl, rfl⟩
  | some buf =>
    have hmask : ∀ m : Mem, (m (i % G.per k / 8) &&& (1 <<< UInt8.ofNat (i % G.per k % 8)) = 0) ↔
        test m (i % G.per k) = false := by
      intro m
      rw [test_eq, ← byte_mask _ (Nat.mod_lt _ (by decide))]
      simp
    simp only [hr.next.bitmap, hr.next.read hb, Bool.true_eq_false, if_false, hmask,
      hr.next.write hb, if_true]
    rw [test_blit (lt_of_lt_of_le hbit hr.wf.valid_le)]
    by_cases hz : marked G s.disk k i = false
    · exact .inl ⟨.inr hz, if_pos hz⟩
    refine .inr ⟨by simpa using hz, ?_⟩
    rw [if_neg (show ¬test (blockAt _ s.next.disk _)
      _ = false from hz)]
    have hr1 := (hr.next.withDisk (putBlock G.blockSize s.next.disk (G.bitmap k (i / G.per k))
      (Bitmap.clear (blit buf 0 s.next.disk (G.bitmap k (i / G.per k) * G.blockSize)
        G.blockSize) (i % G.per k)))).adjust k (i / G.per k) 1
    obtain ⟨ok, m2, hdesc, honly, -⟩ := hr1.writeGroupDesc hg
    obtain ⟨m3, hsuper, honly'⟩ := (hr1.next.withDisk m2).writeSuperblock
    simp only [hdesc, hsuper]
    refine ⟨_, rfl, ?_⟩
    exact (flipped_of_writes hr.next hv
      (fun x hx => clear_congr (blit_block buf _ _ _ hx)) honly honly').of_next

/-! ## bit の変化 -/

variable {g : Nat} {d : Int} {flip : Mem → Mem} {s' : State}

section

variable (h : Flipped G k g d flip s s') (hr : Ready G s) (hv : 0 < G.validBits k g)
include h hr hv

/-- 反転した bitmap のほかの bitmap の block は変わらない。 -/
theorem Flipped.bitmap_ne (hv' : 0 < G.validBits k' g')
    (hne : ¬(k' = k ∧ g' = g)) (hx : x < G.blockSize) :
    blockAt G.blockSize s'.disk (G.bitmap k' g') x = blockAt G.blockSize s.disk
      (G.bitmap k' g') x := by
  have hgdt : (Slot.gdt _).Valid G :=
    lt_of_le_of_lt (Nat.div_mul_le_self _ _) (hr.wf.group_lt_of_valid hv)
  apply h.only.blockAt_eq _ hx
  rintro (h | h | h)
  · have := hr.wf.slot_inj (.bitmap k' g') (.bitmap k g) hv' hv h
    simp only [Slot.bitmap.injEq] at this
    exact hne this
  · cases hr.wf.slot_inj (.bitmap k' g') .super hv' trivial h
  · cases hr.wf.slot_inj (.bitmap k' g') _ hv' hgdt h

theorem Flipped.marked_eq (hj : j < G.objects k') :
    marked G s'.disk k' j = if k' = k ∧ j / G.per k' = g then
      test (flip (blockAt G.blockSize s.disk (G.bitmap k g))) (j % G.per k')
    else marked G s.disk k' j := by
  have hbit := hr.wf.bit_lt hj
  have hle := hr.wf.valid_le (k := k') (g := j / G.per k')
  split
  · rename_i he
    obtain ⟨rfl, rfl⟩ := he
    exact test_congr (h.bits _ (by omega))
  · rename_i hne
    exact test_congr (h.bitmap_ne hr hv (by omega) hne (by omega))

end

variable {i : Nat}

/-- `flip` が一つの bit だけを変えれば、変わるのは一つの物の bit だけである。 -/
theorem marked_flip {f : Bool → Bool → Bool} (hf : ∀ b, f false b = b)
    (hflip : ∀ m j, test (flip m) j = f (decide (j = i % G.per k)) (test m j))
    (h : Flipped G k (i / G.per k) d flip s s') (hr : Ready G s) (hi : i < G.objects k)
    (hj : j < G.objects k') :
    marked G s'.disk k' j = f (decide (k' = k ∧ j = i)) (marked G s.disk k' j) := by
  rw [h.marked_eq hr (by have := hr.wf.bit_lt hi; omega) hj]
  split
  · rename_i he
    obtain ⟨rfl, hg⟩ := he
    have hij : j % G.per k' = i % G.per k' ↔ j = i :=
      ⟨fun hm => by rw [← Nat.div_add_mod j _, hg, hm, Nat.div_add_mod], fun h => by rw [h]⟩
    simp only [hflip, hij, true_and, marked, hg]
  · rename_i hne
    have : ¬(k' = k ∧ j = i) := fun he => hne ⟨he.1, by rw [he.1, he.2]⟩
    rw [decide_eq_false this, hf]

theorem marked_alloc (h : Flipped G k (i / G.per k) d (Bitmap.set · (i % G.per k)) s s')
    (hr : Ready G s) (hi : i < G.objects k) (hj : j < G.objects k') :
    marked G s'.disk k' j = (decide (k' = k ∧ j = i) || marked G s.disk k' j) :=
  marked_flip Bool.false_or (fun m j => test_set m _ j) h hr hi hj

theorem marked_free (h : Flipped G k (i / G.per k) d (Bitmap.clear · (i % G.per k)) s s')
    (hr : Ready G s) (hi : i < G.objects k) (hj : j < G.objects k') :
    marked G s'.disk k' j = (decide (¬(k' = k ∧ j = i)) && marked G s.disk k' j) := by
  rw [decide_not]
  exact marked_flip (f := fun p b => !p && b) Bool.true_and
    (fun m j => by rw [test_clear, decide_not]) h hr hi hj

end Alloc

end Alos.Ext2
