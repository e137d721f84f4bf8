import Alos.Lib.Run
import Mathlib.Algebra.Order.Ring.Nat
import Mathlib.Data.List.Perm.Lattice
import Mathlib.Data.List.Range
import Mathlib.Logic.Function.Basic

/-!
# virtqueue（`drivers/virtio/virtio_transport.c`）

driver と device が descriptor の表と二つの環を共有する。空きの descriptor は表の `next` で繋がり、環の番号は 16 bit で
回り込みながら増え、環の位置はそれを表の大きさで割った余りである。

driver の二つの関数と、device が一つを終える手を並べたどの列の後でも、descriptor は空き、device の手、読まれていない
終わりの三つに分かれ、終わった順に buffer が返る。

* `virtqueue_consistent` — 主定理
-/

namespace Alos.Virtio

open Function List

variable {next : Nat → Nat} {n i : Nat} {e : Nat × Nat} {us : List (Nat × Nat)}

/-! ## 型 -/

structure VirtqDesc where
  addr : UInt64
  len : UInt32
  flags : UInt16
  next : UInt16

structure VirtqUsedElem where
  id : UInt32
  len : UInt32

/--
`VirtQueue` と、それが指す表と環。

`availIdx` と `availRing` は `VirtqAvail`、`usedIdx` と `usedRing` は `VirtqUsed` である。
`buffers` の `NULL` は 0 である。
-/
structure VirtQueue where
  size : UInt16
  desc : Nat → VirtqDesc
  availIdx : UInt16
  availRing : Nat → UInt16
  usedIdx : UInt16
  usedRing : Nat → VirtqUsedElem
  freeHead : UInt16
  numFree : UInt16
  lastUsedIdx : UInt16
  buffers : Nat → Nat

def virtqDescFNext : UInt16 := 1

def virtqDescFWrite : UInt16 := 2

/-! ## driver -/

def linkLoop (n : Nat) : Nat → VirtqDesc :=
  (List.range n).foldl
    (fun desc i => Function.update desc i { desc i with next := UInt16.ofNat (i + 1) })
    fun _ => ⟨0, 0, 0, 0⟩

/-- 空きの鎖。最後の descriptor の `next` は 0 である。 -/
def linkDescs (queueSize : Nat) : Nat → VirtqDesc :=
  let desc := linkLoop (queueSize - 1)
  Function.update desc (queueSize - 1) { desc (queueSize - 1) with next := 0 }

/--
`maxSize` は device の言う大きさ、`queueMem` は `pmm_alloc_blocks` の、`buffers` は `kmalloc` の返す番地である。
`none` は失敗を表す。
-/
def pciSetupQueue (maxSize : UInt16) (queueMem buffers : Nat) : Option VirtQueue :=
  if maxSize = 0 then none
  else
    let queueSize := if maxSize < 256 then maxSize else 256
    if queueMem = 0 then none
    else if buffers = 0 then none
    else some {
      size := queueSize
      desc := linkDescs queueSize.toNat
      availIdx := 0
      availRing _ := 0
      usedIdx := 0
      usedRing _ := ⟨0, 0⟩
      freeHead := 0
      numFree := queueSize
      lastUsedIdx := 0
      buffers _ := 0 }

/-- 空きの先頭の descriptor に buffer を置き、avail の環に番号を入れる。 -/
def virtioQueueAddBuf (vq : VirtQueue) (buf : Nat) (len : UInt32) (deviceWritable hasNext : Bool) :
    Int × VirtQueue :=
  if buf = 0 ∨ vq.numFree = 0 then (-1, vq)
  else
    let idx := vq.freeHead.toNat
    let desc := { vq.desc idx with
      addr := UInt64.ofNat (buf % 2 ^ 32)
      len := len
      flags := (if deviceWritable then virtqDescFWrite else 0) |||
        (if hasNext ∧ 1 < vq.numFree then virtqDescFNext else 0) }
    (idx, { vq with
      desc := Function.update vq.desc idx desc
      buffers := Function.update vq.buffers idx buf
      freeHead := desc.next
      numFree := vq.numFree - 1
      availRing := Function.update vq.availRing (vq.availIdx % vq.size).toNat vq.freeHead
      availIdx := vq.availIdx + 1 })

def virtioQueueHasUsed (vq : VirtQueue) : Bool := vq.lastUsedIdx != vq.usedIdx

/-- 読まれていない最初の終わりの buffer と長さ。descriptor は空きの先頭に戻る。 -/
def virtioQueueGetUsed (vq : VirtQueue) : Nat × Option UInt32 × VirtQueue :=
  if ¬virtioQueueHasUsed vq then (0, none, vq)
  else
    let elem := vq.usedRing (vq.lastUsedIdx % vq.size).toNat
    let descIdx := elem.id.toUInt16.toNat
    (vq.buffers descIdx, some elem.len, { vq with
      buffers := Function.update vq.buffers descIdx 0
      desc := Function.update vq.desc descIdx { vq.desc descIdx with next := vq.freeHead }
      freeHead := elem.id.toUInt16
      numFree := vq.numFree + 1
      lastUsedIdx := vq.lastUsedIdx + 1 })

/-! ## device と全体 -/

/-- device が descriptor `id` を終えて、used の環に入れる。 -/
def deviceComplete (vq : VirtQueue) (id len : UInt32) : VirtQueue :=
  { vq with
    usedRing := Function.update vq.usedRing (vq.usedIdx % vq.size).toNat ⟨id, len⟩
    usedIdx := vq.usedIdx + 1 }

/--
virtqueue と記録。

入れた buffer に `added` の順の番号を与える。`flight` は device の手にある descriptor、`completed` は終わったものを、その
番号とともに並べたもので、`returned` は `virtio_queue_get_used` が返した buffer である。
-/
structure System where
  vq : VirtQueue
  added : List Nat
  flight : List (Nat × Nat)
  completed : List (Nat × Nat)
  returned : List Nat

def System.start (vq : VirtQueue) : System := ⟨vq, [], [], [], []⟩

/-- 終わったが、まだ読まれていないもの。 -/
def System.unread (s : System) : List (Nat × Nat) := s.completed.drop s.returned.length

inductive Op where
  | addBuf (buf : Nat) (len : UInt32) (deviceWritable hasNext : Bool)
  | complete (id len : UInt32)
  | getUsed

/-- device は、手にある descriptor だけを終える。 -/
def step (s : System) : Op → Option System
  | .addBuf buf len deviceWritable hasNext =>
    let r := virtioQueueAddBuf s.vq buf len deviceWritable hasNext
    some (if r.1 = -1 then { s with vq := r.2 }
      else { s with
        vq := r.2
        added := s.added ++ [buf]
        flight := s.flight ++ [(r.1.toNat, s.added.length)] })
  | .complete id len =>
    (s.flight.find? fun e => e.1 = id.toNat).map fun e =>
      { s with
        vq := deviceComplete s.vq id len
        flight := s.flight.erase e
        completed := s.completed ++ [e] }
  | .getUsed =>
    let r := virtioQueueGetUsed s.vq
    some { s with
      vq := r.2.2
      returned := if r.1 = 0 then s.returned else s.returned ++ [r.1] }

/-- buffer は `NULL` でなく、一つの descriptor だけを使う。 -/
def Legal (_ : System) : Op → Prop
  | .addBuf buf _ _ hasNext => buf ≠ 0 ∧ hasNext = false
  | _ => True

instance (s : System) : (op : Op) → Decidable (Legal s op)
  | .addBuf .. => inferInstanceAs (Decidable (_ ∧ _))
  | .complete .. | .getUsed => .isTrue trivial

/-! ## 空きの鎖 -/

/-- `i` から `next` を辿った最初の `n` 個。 -/
def chainFrom (next : Nat → Nat) : Nat → Nat → List Nat
  | 0, _ => []
  | n + 1, i => i :: chainFrom next n (next i)

@[simp] theorem length_chainFrom (next : Nat → Nat) (n i : Nat) :
    (chainFrom next n i).length = n := by
  induction n generalizing i with
  | zero => rfl
  | succ n ih => simp [chainFrom, ih]

theorem chainFrom_congr {next' : Nat → Nat} (h : ∀ j ∈ chainFrom next n i, next' j = next j) :
    chainFrom next' n i = chainFrom next n i := by
  induction n generalizing i with
  | zero => rfl
  | succ n ih =>
    rw [chainFrom, chainFrom, h i mem_cons_self]
    rw [ih fun j hj => h j (mem_cons_of_mem _ hj)]

/-- `free_head` から辿った `num_free` 個の descriptor。 -/
def VirtQueue.freeNodes (vq : VirtQueue) : List Nat :=
  chainFrom (fun i => (vq.desc i).next.toNat) vq.numFree.toNat vq.freeHead.toNat

/-- 次の番号が一つ先なら、鎖は連続する番号である。 -/
theorem chainFrom_succ (h : ∀ j, i ≤ j → j + 1 < i + n → next j = j + 1) :
    chainFrom next n i = range' i n := by
  induction n generalizing i with
  | zero => rfl
  | succ n ih =>
    rw [chainFrom, range'_succ]
    cases n with
    | zero => rfl
    | succ n =>
      rw [h i (Nat.le_refl i) (by omega), ih fun j hj hlt => h j (by omega) (by omega)]

theorem linkDescs_next {queueSize j : Nat} (hj : j + 1 < queueSize) :
    (linkDescs queueSize j).next = UInt16.ofNat (j + 1) := by
  have hloop : ∀ n, j < n → ((linkLoop n) j).next = UInt16.ofNat (j + 1) := by
    intro n hn
    induction n with
    | zero => omega
    | succ n ih =>
      rw [linkLoop, range_succ, foldl_append, foldl_cons, foldl_nil]
      by_cases hjn : j = n
      · rw [hjn, update_self]
      · rw [update_of_ne hjn]
        exact ih (by omega)
  rw [linkDescs, update_of_ne (by omega)]
  exact hloop _ (by omega)

/-! ## 二つの関数の効果 -/

/-- 空きがあれば、鎖は `free_head` から始まる。 -/
theorem VirtQueue.freeNodes_cons {vq : VirtQueue} (hfree : vq.numFree ≠ 0) :
    vq.freeNodes = vq.freeHead.toNat ::
      chainFrom (fun i => (vq.desc i).next.toNat) (vq.numFree - 1).toNat
        (vq.desc vq.freeHead.toNat).next.toNat := by
  have hpos : vq.numFree.toNat ≠ 0 := fun h => hfree (UInt16.toNat_inj.mp h)
  have hsub : (vq.numFree - 1).toNat = vq.numFree.toNat - 1 :=
    UInt16.toNat_sub_of_le _ _ (UInt16.le_iff_toNat_le.mpr (Nat.pos_of_ne_zero hpos))
  obtain ⟨n, hn⟩ := Nat.exists_eq_succ_of_ne_zero hpos
  rw [VirtQueue.freeNodes, hsub, hn]
  rfl

section
variable {vq : VirtQueue} {buf : Nat} (len : UInt32) (deviceWritable hasNext : Bool)

theorem virtioQueueAddBuf_full (hfree : vq.numFree = 0) :
    virtioQueueAddBuf vq buf len deviceWritable hasNext = (-1, vq) :=
  if_pos (.inr hfree)

theorem virtioQueueAddBuf_eq (hbuf : buf ≠ 0) (hfree : vq.numFree ≠ 0) : ∃ vq' : VirtQueue,
      virtioQueueAddBuf vq buf len deviceWritable hasNext = ((vq.freeHead.toNat : Int), vq') ∧
      vq.freeNodes = vq.freeHead.toNat :: vq'.freeNodes ∧
      vq'.buffers = update vq.buffers vq.freeHead.toNat buf ∧
      vq'.size = vq.size ∧ vq'.usedIdx = vq.usedIdx ∧ vq'.usedRing = vq.usedRing ∧
      vq'.lastUsedIdx = vq.lastUsedIdx := by
  refine ⟨_, if_neg (not_or.mpr ⟨hbuf, hfree⟩), ?_, rfl, rfl, rfl, rfl, rfl⟩
  rw [vq.freeNodes_cons hfree]
  refine congrArg _ (chainFrom_congr fun j _ => ?_).symm
  rcases eq_or_ne j vq.freeHead.toNat with rfl | hj
  · simp only [update_self]
  · simp only [update_of_ne hj]

end

/-! ## 不変条件 -/

structure Consistent (s : System) : Prop where
  size_pos : 0 < s.vq.size.toNat
  size_le : s.vq.size.toNat ≤ 256
  size_dvd : s.vq.size.toNat ∣ 2 ^ 16
  /-- descriptor は三つに分かれる。 -/
  slots : (s.vq.freeNodes ++ (s.flight ++ s.unread).map Prod.fst).Perm (List.range s.vq.size.toNat)
  serials : ((s.completed ++ s.flight).map Prod.snd).Perm (List.range s.added.length)
  buffers : ∀ e ∈ s.flight ++ s.unread, s.added[e.2]? = some (s.vq.buffers e.1)
  nonnull : ∀ buf ∈ s.added, buf ≠ 0
  used : s.vq.usedIdx = UInt16.ofNat s.completed.length
  last : s.vq.lastUsedIdx = UInt16.ofNat s.returned.length
  le : s.returned.length ≤ s.completed.length
  /-- 読まれていない終わりは、環にある。 -/
  ring : ∀ k e, s.returned.length ≤ k → s.completed[k]? = some e →
    (s.vq.usedRing (k % s.vq.size.toNat)).id.toNat = e.1
  order : s.returned.map some = (s.completed.take s.returned.length).map fun e => s.added[e.2]?

namespace Consistent

variable {s s' : System}

section

variable (h : Consistent s)
include h

theorem count : s.vq.numFree.toNat + s.flight.length + s.unread.length = s.vq.size.toNat := by
  have hlen := h.slots.length_eq
  simp only [VirtQueue.freeNodes, length_append, length_map, length_chainFrom, length_range] at hlen
  omega

theorem nodup : (s.vq.freeNodes ++ (s.flight ++ s.unread).map Prod.fst).Nodup :=
  h.slots.nodup_iff.mpr nodup_range

/-- descriptor の番号は表の中にある。 -/
theorem lt_size {d : Nat} (hd : d ∈ s.vq.freeNodes ++ (s.flight ++ s.unread).map Prod.fst) :
    d < s.vq.size.toNat :=
  mem_range.mp (h.slots.mem_iff.mp hd)

/-- 環の位置は、回り込んだ番号から決めても同じである。 -/
theorem slot_eq : (UInt16.ofNat n % s.vq.size).toNat = n % s.vq.size.toNat := by
  rw [UInt16.toNat_mod, UInt16.toNat_ofNat', Nat.mod_mod_of_dvd _ h.size_dvd]

/-- 読まれていない終わりがあることは、二つの番号が違うことから分かる。 -/
theorem hasUsed_iff : virtioQueueHasUsed s.vq = true ↔ s.returned.length < s.completed.length := by
  have hcount := h.count
  have hsize := h.size_le
  have hle := h.le
  rw [System.unread, length_drop] at hcount
  rw [virtioQueueHasUsed, bne_iff_ne, h.used, h.last, ne_eq, ← UInt16.toNat_inj,
    UInt16.toNat_ofNat',
    UInt16.toNat_ofNat']
  omega

/-- 記録の番号は、入れた buffer の数より小さい。 -/
theorem serial_lt (he : e ∈ s.completed ++ s.flight) : e.2 < s.added.length :=
  mem_range.mp (h.serials.mem_iff.mp (mem_map_of_mem he))

theorem flight_lt_size (he : e ∈ s.flight ++ s.unread) : e.1 < s.vq.size.toNat :=
  h.lt_size (mem_append_right _ (mem_map_of_mem he))

/-- device の手にある、または読まれていない descriptor は、空きの鎖にない。 -/
theorem not_mem_freeNodes (he : e ∈ s.flight ++ s.unread) : e.1 ∉ s.vq.freeNodes := fun hfree =>
  disjoint_of_nodup_append h.nodup hfree (mem_map_of_mem he)

end

/-! ### `virtio_queue_add_buf` -/

theorem addBuf (h : Consistent s) {buf : Nat} {len : UInt32} {deviceWritable hasNext : Bool}
    (hbuf : buf ≠ 0) (hs : step s (.addBuf buf len deviceWritable hasNext) = some s') :
    Consistent s' := by
  obtain rfl := Option.some.inj hs
  by_cases hfree : s.vq.numFree = 0
  · rw [virtioQueueAddBuf_full len _ _ hfree]
    exact h
  obtain ⟨vq', heq, hnodes, hbuffers, hsize, hused, hring, hlast⟩ :=
    virtioQueueAddBuf_eq len _ _ hbuf hfree
  rw [heq, if_neg (by omega)]
  have hslots := h.slots
  rw [hnodes] at hslots
  refine ⟨hsize ▸ h.size_pos, hsize ▸ h.size_le, hsize ▸ h.size_dvd, ?_, ?_, ?_, ?_, hused ▸ h.used,
    hlast ▸ h.last, h.le, ?_, ?_⟩
  · -- 先頭の descriptor は空きの鎖から device の手に移る
    refine .trans ?_ (hsize ▸ hslots)
    simp only [System.unread, List.map_append, List.map_cons, Int.toNat_natCast,
      List.append_assoc, List.cons_append, List.nil_append]
    rw [← List.append_assoc, ← List.append_assoc]
    exact List.perm_middle
  · rw [← List.append_assoc, List.map_append, List.length_append, List.length_singleton,
      List.range_succ]
    exact h.serials.append_right _
  · intro e he
    have hmem : e ∈ s.flight ++ s.unread ∨ e = (s.vq.freeHead.toNat, s.added.length) := by
      simpa [System.unread, or_comm, or_assoc, or_left_comm] using he
    rcases hmem with hmem | rfl
    · have hne : e.1 ≠ s.vq.freeHead.toNat := fun heq =>
        h.not_mem_freeNodes hmem (hnodes ▸ heq ▸ List.mem_cons_self)
      have hget := h.buffers e hmem
      rw [hbuffers, update_of_ne hne,
        List.getElem?_append_left (List.getElem?_eq_some_iff.mp hget).1]
      exact hget
    · rw [hbuffers, update_self, List.getElem?_concat_length]
  · intro b hb
    rcases List.mem_append.mp hb with hb | hb
    · exact h.nonnull b hb
    · exact List.mem_singleton.mp hb ▸ hbuf
  · intro k e hk he
    rw [hring, hsize]
    exact h.ring k e hk he
  · rw [h.order]
    refine List.map_congr_left fun e he => ?_
    rw [List.getElem?_append_left (h.serial_lt (List.mem_append_left _ (List.mem_of_mem_take he)))]

/-! ### device -/

theorem complete (h : Consistent s) {id len : UInt32} (hs : step s (.complete id len) = some s') :
    Consistent s' := by
  obtain ⟨e, hfind, rfl⟩ := Option.map_eq_some_iff.mp hs
  have he : e ∈ s.flight := List.mem_of_find?_eq_some hfind
  have hid : e.1 = id.toNat := by simpa using List.find?_some hfind
  have hperm : s.flight.Perm _ := List.perm_cons_erase he
  have hunread : (s.completed ++ [e]).drop _ = s.unread ++ [e] :=
    List.drop_append_of_le_length h.le
  -- 手にあったものは、読まれていないものの末尾に移る
  have hmoved : (s.flight.erase e ++ (s.unread ++ [e])).Perm (s.flight ++ s.unread) := by
    rw [← List.append_assoc]
    exact (List.perm_append_singleton ..).trans (hperm.symm.append_right _)
  have hroom : s.completed.length - s.returned.length < s.vq.size.toNat := by
    have hcount := h.count
    have hpos := List.length_pos_of_mem he
    rw [System.unread, List.length_drop] at hcount
    omega
  refine ⟨h.size_pos, h.size_le, h.size_dvd, ?_, ?_, ?_, h.nonnull, ?_, h.last, ?_, ?_, ?_⟩
  · rw [System.unread, hunread]
    exact ((hmoved.map _).append_left _).trans h.slots
  · refine .trans (.map _ ?_) h.serials
    rw [List.append_assoc]
    exact hperm.symm.append_left _
  · intro e' he'
    rw [System.unread, hunread] at he'
    exact h.buffers e' (hmoved.mem_iff.mp he')
  · rw [deviceComplete, h.used, List.length_append, UInt16.ofNat_add]
    rfl
  · rw [List.length_append]
    exact Nat.le_add_right_of_le h.le
  · intro k e' hk he'
    have hring : (deviceComplete s.vq id len).usedRing =
        update s.vq.usedRing (s.completed.length % s.vq.size.toNat) ⟨id, len⟩ := by
      rw [deviceComplete, h.used, h.slot_eq]
    change ((deviceComplete s.vq id len).usedRing (k % s.vq.size.toNat)).id.toNat = e'.1
    rw [hring]
    by_cases hlt : k < s.completed.length
    · have hne : k % s.vq.size.toNat ≠ s.completed.length % s.vq.size.toNat := by
        intro hmod
        have hzero := Nat.sub_mod_eq_zero_of_mod_eq hmod.symm
        rw [Nat.mod_eq_of_lt (Nat.lt_of_le_of_lt (Nat.sub_le_sub_left hk _) hroom)] at hzero
        omega
      rw [update_of_ne hne]
      exact h.ring k e' hk (by rwa [List.getElem?_append_left hlt] at he')
    · obtain rfl : k = s.completed.length := by
        have := (List.getElem?_eq_some_iff.mp he').1
        rw [List.length_append, List.length_singleton] at this
        omega
      rw [List.getElem?_concat_length] at he'
      rw [update_self, ← Option.some.inj he', hid]
  · rw [List.take_append_of_le_length h.le]
    exact h.order

/-! ### `virtio_queue_get_used` -/

/-- 読まれていない最初のものの descriptor が、環から読まれる。 -/
theorem getUsed_id (h : Consistent s) (hunread : s.unread = e :: us) :
    (s.vq.usedRing (s.vq.lastUsedIdx % s.vq.size).toNat).id.toUInt16.toNat = e.1 := by
  have hget : s.completed[s.returned.length]? = some e := by
    rw [← head?_drop, ← System.unread, hunread, head?_cons]
  have hlt : e.1 < s.vq.size.toNat :=
    h.flight_lt_size (mem_append_right _ (hunread ▸ mem_cons_self))
  have hsize := h.size_le
  rw [UInt32.toNat_toUInt16, h.last, h.slot_eq, h.ring _ e (Nat.le_refl _) hget]
  exact Nat.mod_eq_of_lt (by omega)

theorem getUsed_eq (h : Consistent s) (hunread : s.unread = e :: us) :
    ∃ (len : UInt32) (vq' : VirtQueue),
      virtioQueueGetUsed s.vq = (s.vq.buffers e.1, some len, vq') ∧
      vq'.freeNodes = e.1 :: s.vq.freeNodes ∧ vq'.buffers = update s.vq.buffers e.1 0 ∧
      vq'.size = s.vq.size ∧ vq'.usedIdx = s.vq.usedIdx ∧ vq'.usedRing = s.vq.usedRing ∧
      vq'.lastUsedIdx = s.vq.lastUsedIdx + 1 := by
  have hmem : e ∈ s.flight ++ s.unread := mem_append_right _ (hunread ▸ mem_cons_self)
  have hid := h.getUsed_id hunread
  have hhas : virtioQueueHasUsed s.vq = true := by
    rw [h.hasUsed_iff, ← Nat.sub_pos_iff_lt, ← length_drop, ← System.unread, hunread]
    exact Nat.succ_pos _
  have hfree : (s.vq.numFree + 1).toNat = s.vq.numFree.toNat + 1 := by
    have hcount := h.count
    have hsize := h.size_le
    rw [UInt16.toNat_add, UInt16.toNat_one]
    omega
  rw [virtioQueueGetUsed, if_neg (not_not.mpr hhas)]
  simp only [hid]
  refine ⟨_, _, rfl, ?_, rfl, rfl, rfl, rfl, rfl⟩
  simp only [VirtQueue.freeNodes, hfree, chainFrom, hid, update_self]
  refine congrArg _ (chainFrom_congr fun j hj => ?_)
  have hne : j ≠ e.1 := fun heq => h.not_mem_freeNodes hmem (heq ▸ hj)
  rw [update_of_ne hne]

theorem getUsed (h : Consistent s) (hs : step s .getUsed = some s') : Consistent s' := by
  obtain rfl := Option.some.inj hs
  cases hunread : s.unread with
  | nil =>
    have hhas : ¬virtioQueueHasUsed s.vq = true := by
      rw [h.hasUsed_iff, not_lt, ← drop_eq_nil_iff]
      exact hunread
    rw [virtioQueueGetUsed, if_pos hhas]
    exact h
  | cons e us =>
    obtain ⟨len, vq', heq, hnodes, hbuffers, hsize, hused, hring, hlast⟩ := h.getUsed_eq hunread
    have hmem : e ∈ s.flight ++ s.unread := mem_append_right _ (hunread ▸ mem_cons_self)
    have hget := h.buffers e hmem
    have hnonnull : s.vq.buffers e.1 ≠ 0 := h.nonnull _ (mem_of_getElem? hget)
    have hlt : s.returned.length < s.completed.length := by
      rw [← Nat.sub_pos_iff_lt, ← length_drop, ← System.unread, hunread]
      exact Nat.succ_pos _
    have hdrop : s.completed.drop (s.returned.length + 1) = us := by
      rw [← tail_drop, ← System.unread, hunread, tail_cons]
    have hnext : s.completed[s.returned.length]? = some e := by
      rw [← head?_drop, ← System.unread, hunread, head?_cons]
    have hrest : e.1 ∉ (s.flight ++ us).map Prod.fst := by
      have hnodup := h.nodup.of_append_right
      rw [hunread, (perm_middle.map _).nodup_iff] at hnodup
      exact (nodup_cons.mp hnodup).1
    rw [heq, if_neg hnonnull]
    have hlen : (s.returned ++ [s.vq.buffers e.1]).length = s.returned.length + 1 := by
      rw [length_append, length_singleton]
    refine ⟨hsize ▸ h.size_pos, hsize ▸ h.size_le, hsize ▸ h.size_dvd, ?_, h.serials, ?_, h.nonnull,
      hused ▸ h.used, ?_, ?_, ?_, ?_⟩
    · -- descriptor は空きの先頭に戻る
      refine .trans ?_ (hsize ▸ h.slots)
      rw [System.unread, hlen, hdrop, hunread, hnodes, map_append, map_append, ← append_assoc,
        ← append_assoc]
      exact perm_middle.symm
    · intro e' he'
      rw [System.unread, hlen, hdrop] at he'
      have hne : e'.1 ≠ e.1 := fun heq => hrest (heq ▸ mem_map_of_mem he')
      rw [hbuffers, update_of_ne hne]
      exact h.buffers e' (hunread ▸ perm_middle.mem_iff.mpr (mem_cons_of_mem _ he'))
    · rw [hlast, h.last, hlen, UInt16.ofNat_add]
      rfl
    · rw [hlen]
      exact hlt
    · intro k e' hk he'
      rw [hlen] at hk
      rw [hring, hsize]
      exact h.ring k e' (by omega) he'
    · rw [hlen, take_add_one, hnext, map_append, h.order]
      simp [hget]

/-! ## 主定理 -/

/-- 設定された直後は、すべての descriptor が空きである。 -/
theorem of_setup {maxSize : UInt16} {queueMem buffers : Nat} {vq : VirtQueue}
    (hsetup : pciSetupQueue maxSize queueMem buffers = some vq)
      (hpow : ∃ k, vq.size.toNat = 2 ^ k) :
    Consistent (.start vq) := by
  simp only [pciSetupQueue, Option.ite_none_left_eq_some] at hsetup
  obtain ⟨hmax, -, -, hvq⟩ := hsetup
  obtain rfl := Option.some.inj hvq
  obtain ⟨k, hk⟩ := hpow
  generalize hq : (if maxSize < 256 then maxSize else 256 : UInt16) = queueSize at hk ⊢
  change queueSize.toNat = 2 ^ k at hk
  have hle : queueSize.toNat ≤ 256 := by
    rw [← hq]
    split
    · exact Nat.le_of_lt (UInt16.lt_iff_toNat_lt.mp ‹_›)
    · exact Nat.le_refl _
  have hnodes : chainFrom (fun i => (linkDescs queueSize.toNat i).next.toNat) queueSize.toNat 0 =
      range queueSize.toNat := by
    rw [range_eq_range']
    refine chainFrom_succ fun j _ hj => ?_
    rw [linkDescs_next (by omega)]
    exact Nat.mod_eq_of_lt (by omega)
  refine ⟨?_, hle, ?_, ?_, .refl _, fun e he => ?_, fun b hb => ?_, rfl, rfl, Nat.le_refl _,
    fun k e _ he => ?_, rfl⟩
  · exact hk ▸ Nat.two_pow_pos k
  · refine hk ▸ Nat.pow_dvd_pow 2 ?_
    by_contra hlt
    have hbig : 2 ^ 16 < 2 ^ k := Nat.pow_lt_pow_right (by decide) (Nat.lt_of_not_le hlt)
    omega
  · rw [System.start, System.unread, drop_nil, append_nil, map_nil, append_nil]
    exact .of_eq hnodes
  · cases he
  · cases hb
  · cases he

theorem reach {vq : VirtQueue} {ops : List Op} (h0 : Consistent (.start vq))
    (h : Run.Reach step Legal (.start vq) ops s) : Consistent s := by
  refine h.invariant h0 fun s op s' hs hlegal hstep => ?_
  cases op with
  | addBuf buf len deviceWritable hasNext => exact hs.addBuf hlegal.1 hstep
  | complete id len => exact hs.complete hstep
  | getUsed => exact hs.getUsed hstep

/-- 失敗するのは空きがないときだけである。 -/
theorem addBuf_eq_neg_one_iff {vq : VirtQueue} {buf : Nat} {len : UInt32}
    (deviceWritable hasNext : Bool)
    (hbuf : buf ≠ 0) :
    (virtioQueueAddBuf vq buf len deviceWritable hasNext).1 = -1 ↔ vq.numFree = 0 := by
  constructor
  · intro hneg
    by_contra hfree
    obtain ⟨vq', heq, -⟩ := virtioQueueAddBuf_eq len _ _ hbuf hfree
    rw [heq] at hneg
    exact absurd hneg (by simp)
  · intro hfree
    rw [virtioQueueAddBuf_full len _ _ hfree]

/-- 次に返るのは、読まれていない最初のものに入れた buffer である。 -/
theorem getUsed_head (h : Consistent s) : (s.unread = [] ∧ (virtioQueueGetUsed s.vq).1 = 0) ∨
      ∃ e us, s.unread = e :: us ∧ s.added[e.2]? = some (virtioQueueGetUsed s.vq).1 ∧
        (virtioQueueGetUsed s.vq).1 ≠ 0 := by
  cases hunread : s.unread with
  | nil =>
    have hhas : ¬virtioQueueHasUsed s.vq = true := by
      rw [h.hasUsed_iff, not_lt, ← drop_eq_nil_iff]
      exact hunread
    exact .inl ⟨rfl, by rw [virtioQueueGetUsed, if_pos hhas]⟩
  | cons e us =>
    obtain ⟨len, vq', heq, -⟩ := h.getUsed_eq hunread
    have hget := h.buffers e (mem_append_right _ (hunread ▸ mem_cons_self))
    rw [heq]
    exact .inr ⟨e, us, rfl, hget, h.nonnull _ (mem_of_getElem? hget)⟩

end Consistent

/--
**どの順の手の後でも、descriptor は三つに分かれ、buffer は終わった順に一度ずつ返る。**

* 空きの鎖の `num_free` 個は互いに異なり、device の手にあるものとも、読まれていないものとも異なる。
* 三つの数の和は表の大きさである。
* `virtio_queue_add_buf` が失敗するのは、空きがないときである。
* 入れた buffer の番号は、終わったものと device の手にあるものに一度ずつ現れ、返った buffer は終わったものの先頭から
  その数だけを並べたものである。次に返るのは、読まれていない最初のものである。
-/
theorem virtqueue_consistent {maxSize : UInt16} {queueMem buffers : Nat} {vq : VirtQueue}
    (hsetup : pciSetupQueue maxSize queueMem buffers = some vq) (hpow : ∃ k, vq.size.toNat = 2 ^ k)
    {ops : List Op} {s : System} (h : Run.Reach step Legal (.start vq) ops s) :
    s.vq.freeNodes.length = s.vq.numFree.toNat ∧ s.vq.freeNodes.Nodup ∧
      (∀ d ∈ s.vq.freeNodes, d ∉ s.flight.map Prod.fst ∧ d ∉ s.unread.map Prod.fst) ∧
      s.vq.numFree.toNat + s.flight.length + s.unread.length = s.vq.size.toNat ∧
      (∀ buf len deviceWritable, buf ≠ 0 →
        ((virtioQueueAddBuf s.vq buf len deviceWritable false).1 = -1 ↔ s.vq.numFree = 0)) ∧
      ((s.completed ++ s.flight).map Prod.snd).Perm (List.range s.added.length) ∧
      s.returned.map some = (s.completed.take s.returned.length).map (fun e => s.added[e.2]?) ∧
      ((s.unread = [] ∧ (virtioQueueGetUsed s.vq).1 = 0) ∨
        ∃ e us, s.unread = e :: us ∧ s.added[e.2]? = some (virtioQueueGetUsed s.vq).1 ∧
          (virtioQueueGetUsed s.vq).1 ≠ 0) := by
  have hs : Consistent s := Consistent.reach (.of_setup hsetup hpow) h
  refine ⟨length_chainFrom .., hs.nodup.of_append_left, fun d hd => ⟨?_, ?_⟩,
    hs.count, ?_, hs.serials,
    hs.order, hs.getUsed_head⟩
  · intro hflight
    obtain ⟨e, he, rfl⟩ := mem_map.mp hflight
    exact hs.not_mem_freeNodes (mem_append_left _ he) hd
  · intro hunread
    obtain ⟨e, he, rfl⟩ := mem_map.mp hunread
    exact hs.not_mem_freeNodes (mem_append_right _ he) hd
  · intro buf len deviceWritable hbuf
    exact Consistent.addBuf_eq_neg_one_iff _ _ hbuf

/-- 大きさ 4 の virtqueue に二つを入れ、device が逆の順に終える。 -/
def reversedOps : List Op :=
  [.addBuf 100 4 true false, .addBuf 200 4 false false, .complete 1 4, .complete 0 4,
    .getUsed, .getUsed,
    .addBuf 300 4 true false]

theorem virtqueue_consistent_reversed :
    ∃ vq s, pciSetupQueue 4 1 1 = some vq ∧ Run.Reach step Legal (.start vq) reversedOps s ∧
      s.returned = [200, 100] ∧ s.vq.freeNodes.Nodup ∧ s.vq.numFree.toNat = 3 ∧
      s.vq.numFree.toNat + s.flight.length + s.unread.length = s.vq.size.toNat := by
  have hvq : pciSetupQueue 4 1 1 = some _ := rfl
  have hall {s : System} (hreach : Run.Reach step _ _ reversedOps s) :=
    virtqueue_consistent hvq ⟨2, by decide⟩ hreach
  refine ⟨_, _, hvq, Run.reach_get ?_, ?_, (hall (Run.reach_get _)).2.1, ?_,
    (hall (Run.reach_get _)).2.2.2.1⟩
  all_goals decide +kernel

end Alos.Virtio
