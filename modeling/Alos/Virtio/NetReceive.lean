import Alos.Virtio.Queue

/-!
# 受信の buffer（`drivers/net/virtio_net.c`）

`virtio_net_refill_rx` が 16 個までの buffer を device に渡し、`virtio_net_receive` は終わったものを読んで packet を渡し、
buffer を device に返す。ただし長さが header（10 byte）を超えないものは、返さずに次へ進む。

buffer は device の手にあるか、読まれていない終わりにあるかのどちらかで数える（`held`）。device は受信の途中のどこででも
buffer を終えうるので、受信の一回の引数に、ループの各回で device が終えるものを並べる。

* `virtioNetReceive_conserves` — どの実行の後でも、渡した buffer はすべて `held` にある
* `virtioNetReceive_loses` — 短い長さで終わった buffer は失われる
-/

namespace Alos.VirtioNet

open Virtio Function List Option

/-! ## driver -/

def virtioNetHdrSize : UInt32 := 10

def rxBufferSize : UInt32 := 2048

def rxBufferCount : Nat := 16

/--
`VirtioNetDriver` の受信の部分と `g_netif`。

`rx` は `rx_queue` とその記録、`netif` は `g_netif` が `NULL` でないこと、`handled` は
`ethernet_handle_packet_netif` に渡した packet の番地と長さである。
-/
structure Driver where
  rx : System
  rxBuffers : Nat → Nat
  packetsRx : UInt32
  netif : Bool
  netifPackets : UInt32
  netifBytes : UInt32
  handled : List (Nat × UInt32)

/-- `virtio_net_refill_rx` のループ。`alloc i` は `i` 番目の `kmalloc` の返す番地で、`NULL` は 0 である。 -/
def refillLoop (alloc : Nat → Nat) : List Nat → Driver → Driver
  | [], drv => drv
  | i :: is, drv =>
    if drv.rx.vq.numFree < 1 then drv
    else
      let buf := if drv.rxBuffers i = 0 then alloc i else drv.rxBuffers i
      let drv := { drv with rxBuffers := Function.update drv.rxBuffers i buf }
      if buf = 0 then refillLoop alloc is drv
      else if (virtioQueueAddBuf drv.rx.vq buf rxBufferSize true false).1 < 0 then drv
      else
        match Virtio.step drv.rx (.addBuf buf rxBufferSize true false) with
        | some rx => refillLoop alloc is { drv with rx }
        | none => drv

def virtioNetRefillRx (alloc : Nat → Nat) (drv : Driver) : Driver :=
  refillLoop alloc (List.range rxBufferCount) drv

/-- packet を渡し、数える。 -/
def handlePacket (drv : Driver) (pktData : Nat) (pktLen : UInt32) : Driver :=
  if 0 < pktLen ∧ drv.netif = true then
    { drv with
      handled := drv.handled ++ [(pktData, pktLen)]
      packetsRx := drv.packetsRx + 1
      netifPackets := drv.netifPackets + 1
      netifBytes := drv.netifBytes + pktLen }
  else drv

@[simp] theorem handlePacket_rx {drv : Driver} {pktData : Nat} {pktLen : UInt32} :
    (handlePacket drv pktData pktLen).rx = drv.rx := by
  unfold handlePacket
  split <;> rfl

/-- device が順に終える descriptor と長さ。 -/
abbrev Completions := List (UInt32 × UInt32)

def completeAll (completions : Completions) (rx : System) : Option System :=
  completions.foldlM (fun rx c => Virtio.step rx (.complete c.1 c.2)) rx

/-- ループの一回。`during` は、その間に device が終えるものである。短いものは返さずに次へ進む。 -/
def receiveBody (drv : Driver) (during : Completions) : Option Driver :=
  let used := virtioQueueGetUsed drv.rx.vq
  let buf := used.1
  let len := used.2.1.getD 0
  ((Virtio.step drv.rx .getUsed).bind (completeAll during)).bind fun rx =>
    let drv := { drv with rx }
    if buf = 0 ∨ len ≤ virtioNetHdrSize then some drv
    else
      let drv := handlePacket drv (buf + virtioNetHdrSize.toNat) (len - virtioNetHdrSize)
      (Virtio.step drv.rx (.addBuf buf rxBufferSize true false)).map fun rx => { drv with rx }

/--
`virtio_net_receive`。引数はループの各回について、条件を見る前と本体の間に device が終えるものである。
`none` は、その列の間にはループが終わらないことを言う。
-/
def virtioNetReceive : List (Completions × Completions) → Driver → Option Driver
  | [], drv => if virtioQueueHasUsed drv.rx.vq then none else some drv
  | (before, during) :: rest, drv =>
    (completeAll before drv.rx).bind fun rx =>
      let drv := { drv with rx }
      if virtioQueueHasUsed drv.rx.vq then (receiveBody drv during).bind (virtioNetReceive rest)
      else some drv

/-! ## 数える buffer -/

/-- device の手にある、または読まれていない buffer。 -/
def held (s : System) : List Nat := (s.flight ++ s.unread).map fun e => s.vq.buffers e.1

/-- 読まれていない終わりの長さは、header より長い。 -/
def Long (s : System) : Prop :=
  ∀ k, s.returned.length ≤ k → k < s.completed.length →
    virtioNetHdrSize < (s.vq.usedRing (k % s.vq.size.toNat)).len

/-- `posted` の buffer は、すべて `held` にある。 -/
structure Kept (posted : List Nat) (s : System) : Prop where
  consistent : Consistent s
  long : Long s
  perm : (held s).Perm posted

namespace Kept

variable {posted posted' : List Nat} {s s' : System}

section

variable (h : Kept posted s)
include h

theorem of_perm (hp : posted.Perm posted') : Kept posted' s :=
  ⟨h.consistent, h.long, h.perm.trans hp⟩

theorem addBuf {buf : Nat} {len : UInt32} (hbuf : buf ≠ 0) (hfree : s.vq.numFree ≠ 0)
    (hs : Virtio.step s (.addBuf buf len true false) = some s') :
    Kept (posted ++ [buf]) s' ∧ s'.added = s.added ++ [buf] ∧ s'.unread = s.unread := by
  have hcons := h.consistent.addBuf hbuf hs
  obtain rfl := some.inj hs
  obtain ⟨vq', heq, hnodes, hbuffers, hsize, -, hring, -⟩ :=
    virtioQueueAddBuf_eq len true _ hbuf hfree
  rw [heq, if_neg (by omega)] at hcons ⊢
  refine ⟨⟨hcons, ?_, ?_⟩, rfl, rfl⟩
  · intro k h1 h2
    rw [hring, hsize]
    exact h.long k h1 h2
  -- 新しい descriptor は空きの鎖にあったので、ほかの buffer は変わらない
  have hsame : ∀ e ∈ s.flight ++ s.unread, vq'.buffers e.1 = s.vq.buffers e.1 := by
    intro e he
    have hne : e.1 ≠ s.vq.freeHead.toNat := fun heq =>
      h.consistent.not_mem_freeNodes he (hnodes ▸ heq ▸ mem_cons_self)
    rw [hbuffers, update_of_ne hne]
  have hmoved : (s.flight ++ [(s.vq.freeHead.toNat, s.added.length)] ++ s.unread).Perm
      (s.flight ++ s.unread ++ [(s.vq.freeHead.toNat, s.added.length)]) := by
    rw [append_assoc, append_assoc]
    exact perm_append_comm.append_left _
  refine (hmoved.map _).trans ?_
  rw [map_append, map_congr_left hsame, map_singleton, hbuffers, update_self]
  exact h.perm.append_right _

theorem complete {id len : UInt32} (hlen : virtioNetHdrSize < len)
    (hs : Virtio.step s (.complete id len) = some s') :
    Kept posted s' ∧ s'.vq.numFree = s.vq.numFree := by
  have hcons := h.consistent.complete hs
  obtain ⟨e, hfind, rfl⟩ := map_eq_some_iff.mp hs
  have hmem : e ∈ s.flight := mem_of_find?_eq_some hfind
  refine ⟨⟨hcons, ?_, ?_⟩, rfl⟩
  · intro k h1 h2
    change virtioNetHdrSize < (update s.vq.usedRing _ _ (k % s.vq.size.toNat)).len
    rw [h.consistent.used, h.consistent.slot_eq]
    by_cases hk : k % s.vq.size.toNat = s.completed.length % s.vq.size.toNat
    · rw [hk, update_self]
      exact hlen
    · have hne : k ≠ s.completed.length := fun heq => hk (by rw [heq])
      rw [update_of_ne hk]
      simp only [length_append, length_singleton] at h2
      exact h.long k h1 (by omega)
  · have hunread : (s.completed ++ [e]).drop _ = s.unread ++ [e] :=
      drop_append_of_le_length h.consistent.le
    have hmoved : (s.flight.erase e ++ (s.unread ++ [e])).Perm (s.flight ++ s.unread) := by
      rw [← append_assoc]
      exact (perm_append_singleton ..).trans ((perm_cons_erase hmem).symm.append_right _)
    refine .trans ?_ h.perm
    unfold held System.unread
    rw [hunread]
    exact hmoved.map _

theorem completeAll {completions : Completions} (hlen : ∀ c ∈ completions, virtioNetHdrSize < c.2)
    (hs : VirtioNet.completeAll completions s = some s') :
    Kept posted s' ∧ s'.vq.numFree = s.vq.numFree := by
  induction completions generalizing s with
  | nil =>
    obtain rfl := some.inj hs
    exact ⟨h, rfl⟩
  | cons c completions ih =>
    obtain ⟨s1, h1, h2⟩ := bind_eq_some_iff.mp hs
    obtain ⟨hk, hfree⟩ := h.complete (hlen c mem_cons_self) h1
    obtain ⟨hk', hfree'⟩ := ih hk (fun c hc => hlen c (mem_cons_of_mem _ hc)) h2
    exact ⟨hk', hfree'.trans hfree⟩

/-- 読まれていない最初のものを読むと、その buffer だけが抜ける。 -/
theorem getUsed (hused : virtioQueueHasUsed s.vq = true) :
    ∃ buf len vq' s' rest, virtioQueueGetUsed s.vq = (buf, some len, vq') ∧ buf ≠ 0 ∧
      virtioNetHdrSize < len ∧ Virtio.step s .getUsed = some s' ∧ posted.Perm (rest ++ [buf]) ∧
      Kept rest s' ∧ s'.vq.numFree ≠ 0 ∧ s'.unread = s.unread.tail := by
  have hlt := h.consistent.hasUsed_iff.mp hused
  obtain ⟨e, us, hunread⟩ : ∃ e us, s.unread = e :: us := by
    refine exists_cons_of_ne_nil fun hnil => ?_
    rw [System.unread, drop_eq_nil_iff] at hnil
    omega
  obtain ⟨len, vq', heq, hnodes, hbuffers, hsize, -, hring, -⟩ := h.consistent.getUsed_eq hunread
  have hmem : e ∈ s.flight ++ s.unread := mem_append_right _ (hunread ▸ mem_cons_self)
  have hnonnull : s.vq.buffers e.1 ≠ 0 :=
    h.consistent.nonnull _ (mem_of_getElem? (h.consistent.buffers e hmem))
  have hlen : len = (s.vq.usedRing (s.returned.length % s.vq.size.toNat)).len := by
    have hfst := congrArg (fun r => r.2.1) heq
    simp only [virtioQueueGetUsed, if_neg (not_not.mpr hused)] at hfst
    rw [← some.inj hfst, h.consistent.last, h.consistent.slot_eq]
  have hdrop : s.completed.drop (s.returned.length + 1) = us := by
    rw [← tail_drop, ← System.unread, hunread, tail_cons]
  have hstep : Virtio.step s .getUsed = some { s with
      vq := vq', returned := s.returned ++ [s.vq.buffers e.1] } := by
    simp only [Virtio.step, heq, if_neg hnonnull]
  have hcons := h.consistent.getUsed hstep
  have hrest : e.1 ∉ (s.flight ++ us).map Prod.fst := by
    have hnodup := h.consistent.nodup.of_append_right
    rw [hunread, (perm_middle.map _).nodup_iff] at hnodup
    exact (nodup_cons.mp hnodup).1
  have hunread' : s.completed.drop (s.returned ++ [s.vq.buffers e.1]).length = us := by
    rw [length_append, length_singleton, hdrop]
  refine ⟨s.vq.buffers e.1, len, vq', _, (s.flight ++ us).map fun e =>
    s.vq.buffers e.1, heq, hnonnull,
    hlen ▸ h.long _ (Nat.le_refl _) hlt, hstep, ?_, ⟨hcons, ?_, ?_⟩,
    ?_, ?_⟩
  · refine h.perm.symm.trans ?_
    have hmoved : (s.flight ++ e :: us).Perm _ :=
      perm_middle.trans (perm_append_singleton ..).symm
    rw [held, hunread]
    exact (hmoved.map _).trans (.of_eq (by rw [map_append, map_singleton]))
  · intro k h1 h2
    rw [hring, hsize]
    simp only [length_append, length_singleton] at h1
    exact h.long k (by omega) h2
  · refine .of_eq ?_
    unfold held System.unread
    rw [hunread']
    refine map_congr_left fun e' he' => ?_
    have hne : e'.1 ≠ e.1 := fun heq => hrest (heq ▸ mem_map_of_mem he')
    rw [hbuffers, update_of_ne hne]
  · intro hzero
    have hlength : vq'.freeNodes.length = vq'.numFree.toNat := length_chainFrom ..
    rw [hnodes, show vq'.numFree = 0 from hzero] at hlength
    exact absurd hlength (Nat.succ_ne_zero _)
  · rw [System.unread, hunread', hunread, tail_cons]

end

/-- ループの一回は、長さが足りれば buffer を返す。 -/
theorem receiveBody {drv drv' : Driver} (h : Kept posted drv.rx)
    (hused : virtioQueueHasUsed drv.rx.vq = true) {during : Completions}
    (hlen : ∀ c ∈ during, virtioNetHdrSize < c.2)
      (hs : VirtioNet.receiveBody drv during = some drv') :
    Kept posted drv'.rx := by
  obtain ⟨buf, len, vq', s1, rest, heq, hbuf, hlong, hstep, hperm, h1, hfree, -⟩ := h.getUsed hused
  simp only [VirtioNet.receiveBody, heq, hstep, bind_some, getD_some] at hs
  obtain ⟨s2, hcomplete, hs⟩ := bind_eq_some_iff.mp hs
  obtain ⟨h2, hfree2⟩ := h1.completeAll hlen hcomplete
  rw [if_neg (not_or.mpr ⟨hbuf, UInt32.not_le.mpr hlong⟩)] at hs
  obtain ⟨s3, hadd, rfl⟩ := map_eq_some_iff.mp hs
  rw [handlePacket_rx] at hadd
  exact ((h2.addBuf hbuf (hfree2 ▸ hfree) hadd).1).of_perm hperm.symm

end Kept

/-- 受信の間に device が終えるものは、どれも header より長い。 -/
def LongTurns (turns : List (Completions × Completions)) : Prop :=
  ∀ turn ∈ turns, ∀ c ∈ turn.1 ++ turn.2, virtioNetHdrSize < c.2

instance (turns : List (Completions × Completions)) : Decidable (LongTurns turns) :=
  -- 語の型は有限なので、列の上の判定を名指しする
  have : DecidablePred fun turn : Completions × Completions => ∀ c ∈ turn.1 ++ turn.2,
    virtioNetHdrSize < c.2 :=
    fun turn => List.decidableBAll (fun c => virtioNetHdrSize < c.2) (turn.1 ++ turn.2)
  List.decidableBAll _ turns

theorem Kept.receive {posted : List Nat} {drv drv' : Driver}
    {turns : List (Completions × Completions)}
    (h : Kept posted drv.rx) (hlong : LongTurns turns)
      (hs : virtioNetReceive turns drv = some drv') :
    Kept posted drv'.rx := by
  induction turns generalizing drv with
  | nil =>
    obtain ⟨-, hs⟩ := ite_none_left_eq_some.mp hs
    obtain rfl := some.inj hs
    exact h
  | cons turn turns ih =>
    have hturn := hlong turn mem_cons_self
    obtain ⟨s1, hbefore, hs⟩ := bind_eq_some_iff.mp hs
    have h1 := (h.completeAll (fun c hc => hturn c (mem_append_left _ hc)) hbefore).1
    dsimp only at hs
    split at hs
    · rename_i hused
      obtain ⟨drv1, hbody, hs⟩ := bind_eq_some_iff.mp hs
      have h2 := @Kept.receiveBody _ _ drv1 h1 hused _
        (fun c hc => hturn c (mem_append_right _ hc)) hbody
      exact ih h2 (fun turn ht => hlong turn (mem_cons_of_mem _ ht)) hs
    · obtain rfl := some.inj hs
      exact h1

/-! ## 終わること -/

/-- device が何も終えなければ、一回で一つを読む。 -/
theorem Kept.receiveBody_quiet {posted : List Nat} {drv : Driver} (h : Kept posted drv.rx)
    (hused : virtioQueueHasUsed drv.rx.vq = true) :
    ∃ drv', VirtioNet.receiveBody drv [] = some drv' ∧ drv'.rx.unread = drv.rx.unread.tail := by
  obtain ⟨buf, len, vq', s1, rest, heq, hbuf, hlong, hstep, -, h1, hfree, hunread⟩ :=
    h.getUsed hused
  obtain ⟨s2, hadd⟩ : ∃ s2, Virtio.step s1 (.addBuf buf rxBufferSize true false) = some s2 :=
    ⟨_, rfl⟩
  have hquiet : VirtioNet.completeAll [] s1 = some s1 := rfl
  simp only [VirtioNet.receiveBody, heq, hstep, hquiet, bind_some, getD_some]
  rw [if_neg (not_or.mpr ⟨hbuf, UInt32.not_le.mpr hlong⟩), handlePacket_rx, hadd]
  exact ⟨_, rfl, (h1.addBuf hbuf hfree hadd).2.2.trans hunread⟩

/-- device が何も終えなければ、受信は読まれていない終わりの数だけ回って終わる。 -/
theorem Kept.receive_returns {posted : List Nat} {drv : Driver} (h : Kept posted drv.rx) {n : Nat}
    (hn : drv.rx.unread.length ≤ n) : ∃ drv', virtioNetReceive (replicate n ([], [])) drv =
      some drv' := by
  induction n generalizing drv with
  | zero =>
    have hnone : ¬virtioQueueHasUsed drv.rx.vq = true := by
      rw [h.consistent.hasUsed_iff]
      rw [System.unread, length_drop] at hn
      omega
    exact ⟨drv, if_neg hnone⟩
  | succ n ih =>
    have hbefore : VirtioNet.completeAll [] _ = some drv.rx := rfl
    rw [replicate_succ, virtioNetReceive, hbefore, bind_some]
    by_cases hused : virtioQueueHasUsed drv.rx.vq = true
    · obtain ⟨drv1, hbody, hunread⟩ := h.receiveBody_quiet hused
      have h1 := h.receiveBody hused (by simp) hbody
      obtain ⟨drv', hrest⟩ := ih h1 (by rw [hunread, length_tail]; omega)
      exact ⟨drv', by rw [if_pos hused, hbody, bind_some, hrest]⟩
    · exact ⟨_, if_neg hused⟩

/-! ## 実行 -/

/-- 渡す前の driver。 -/
def Driver.start (vq : VirtQueue) (netif : Bool) : Driver :=
    ⟨.start vq, fun _ => 0, 0, netif, 0, 0, []⟩

/-- 渡した buffer は、入れた順の記録そのものである。 -/
theorem kept_refillLoop {alloc : Nat → Nat} {is : List Nat} {drv : Driver}
    (h : Kept drv.rx.added drv.rx) :
    Kept (refillLoop alloc is drv).rx.added (refillLoop alloc is drv).rx := by
  induction is generalizing drv with
  | nil => exact h
  | cons i is ih =>
    rw [refillLoop]
    split
    · exact h
    rename_i hroom
    have hfree : drv.rx.vq.numFree ≠ 0 := fun h0 => hroom (by rw [h0]; decide)
    dsimp only
    generalize (if drv.rxBuffers i = 0 then alloc i else drv.rxBuffers i) = buf
    split
    · exact ih h
    rename_i hbuf
    split
    · exact h
    · split
      · rename_i s1 hadd
        obtain ⟨h1, hadded, -⟩ := h.addBuf hbuf hfree hadd
        exact ih (hadded ▸ h1)
      · exact h

inductive Op where
  | complete (id len : UInt32)
  | receive (turns : List (Completions × Completions))

def step (drv : Driver) : Op → Option Driver
  | .complete id len => (Virtio.step drv.rx (.complete id len)).map fun rx => { drv with rx }
  | .receive turns => virtioNetReceive turns drv

/-- device は header より長い packet だけを終える。 -/
def Legal (_ : Driver) : Op → Prop
  | .complete _ len => virtioNetHdrSize < len
  | .receive turns => LongTurns turns

instance (drv : Driver) : (op : Op) → Decidable (Legal drv op)
  | .complete .. => inferInstanceAs (Decidable (_ < _))
  | .receive turns => inferInstanceAs (Decidable (LongTurns turns))

/--
**device が header より長い packet だけを終えるなら、渡した buffer は減らない。**

どの実行の後でも、渡した buffer はすべて device の手にあるか、読まれていない終わりにある。受信の途中で device が何を終えても
よく、device が止まれば受信は終わる。
-/
theorem virtioNetReceive_conserves {maxSize : UInt16} {queueMem buffers : Nat} {vq : VirtQueue}
    (hsetup : pciSetupQueue maxSize queueMem buffers = some vq) (hpow : ∃ k, vq.size.toNat = 2 ^ k)
    {alloc : Nat → Nat} {netif : Bool} {ops : List Op} {drv : Driver}
    (h : Run.Reach step Legal (virtioNetRefillRx alloc (.start vq netif)) ops drv) :
    (held drv.rx).Perm (virtioNetRefillRx alloc (.start vq netif)).rx.added ∧
      drv.rx.flight.length + drv.rx.unread.length
        = (virtioNetRefillRx alloc (.start vq netif)).rx.added.length ∧
      ∃ n drv', step drv (.receive (List.replicate n ([], []))) = some drv' := by
  have h0 : Kept [] _ :=
    ⟨.of_setup hsetup hpow, fun k _ hk => absurd hk (Nat.not_lt_zero k), .refl _⟩
  have hkept : Kept (virtioNetRefillRx alloc (.start vq netif)).rx.added drv.rx := by
    refine h.invariant (P := fun drv => Kept _ drv.rx) (kept_refillLoop h0)
      fun drv op drv' hk hl hs => ?_
    cases op with
    | complete id len =>
      obtain ⟨s1, hcomplete, rfl⟩ := map_eq_some_iff.mp hs
      exact (hk.complete hl hcomplete).1
    | receive turns => exact hk.receive hl hs
  have hlength := hkept.perm.length_eq
  rw [held, length_map, length_append] at hlength
  exact ⟨hkept.perm, hlength, _, hkept.receive_returns (Nat.le_refl _)⟩

/-- 16 個の buffer を 2048 byte ごとに置く。 -/
def rowAlloc (i : Nat) : Nat := 0x100000 + 2048 * i

/-- 大きさ 16 の queue を持つ driver が二つの packet を受け取る。二つ目は、一つ目を読んでいる間に終わる。 -/
theorem virtioNetReceive_conserves_packets :
    ∃ vq drv, pciSetupQueue 16 1 1 = some vq ∧
      Run.Reach step Legal (virtioNetRefillRx rowAlloc (.start vq true))
        [.complete 0 100, .receive [([], [(1, 64)]), ([], [])]] drv ∧
      drv.packetsRx = 2 ∧ drv.rx.flight.length + drv.rx.unread.length
        = (virtioNetRefillRx rowAlloc (.start vq true)).rx.added.length := by
  have hvq : pciSetupQueue 16 1 1 = some _ := rfl
  refine ⟨_, _, hvq, Run.reach_get ?_, ?_,
    (virtioNetReceive_conserves hvq ⟨4, by decide⟩ (Run.reach_get _)).2.1⟩
  all_goals decide +kernel

/-- **header だけの packet が終わると、その buffer は失われる。** 16 個のうち 15 個が残る。 -/
theorem virtioNetReceive_loses :
    ∃ vq drv, pciSetupQueue 16 1 1 = some vq ∧
      Run.Reach step (fun _ _ => True) (virtioNetRefillRx rowAlloc (.start vq true))
        [.complete 0 10, .receive [([], [])]] drv ∧
      rowAlloc 0 ∈ (virtioNetRefillRx rowAlloc (.start vq true)).rx.added ∧
        rowAlloc 0 ∉ held drv.rx ∧
      drv.rx.flight.length + drv.rx.unread.length = 15 := by
  refine ⟨_, _, rfl, Run.reach_get ?_, ?_⟩
  all_goals decide +kernel

end Alos.VirtioNet
