import Alos.Ext2.Growth

/-!
# file の block の対応

`ext2_get_block` は、足りない block を割り当てながら `pathOf` の道を辿る。
途中で失敗しても木は健全で、`kmalloc` に失敗しないかぎり、どの file の data も変わらない。

* `getBlock_spec` — `ext2_get_block` の仕様
-/

namespace Alos.Ext2

open Bytes Bitmap

variable {m : Mem} {i idx : Nat}

/-! ## inode の写し -/

/-- memory の inode の `i_block` は、`roots` の通りである。 -/
def Exact (ino : Mem) (roots : Nat → Nat → Nat) (n : Nat) : Prop :=
  ∀ k < 14, iBlock ino k = roots n k

theorem iBlock_setIBlock_self {ino : Mem} {k : Nat} {v : Nat} (hv : v < 2 ^ 32) :
    iBlock (setIBlock ino k v) k = v := load_store_self hv

theorem iBlock_setIBlock_ne (ino : Mem) {k k' : Nat} (h : k' ≠ k) (v : Nat) :
    iBlock (setIBlock ino k v) k' = iBlock ino k' :=
  load_store_of_disjoint (by omega)

/--
割り当てた block の収支。

使用中の block は使用中のままで、新しく使用中になった block は木に繋がり、
新しく繋がった block は空いていたものである。
-/
structure Account (G : Geom) (v v' : View) : Prop where
  kept : ∀ b, Allocated G v.disk .block b → Allocated G v'.disk .block b
  tight : ∀ b, b ≠ 0 → Allocated G v'.disk .block b → Allocated G v.disk .block b ∨ Reachable G v' b
  fresh : ∀ b, Reachable G v' b → Reachable G v b ∨ ¬Allocated G v.disk .block b

/-- inode `n` の木が伸び、data は変わらなかった。`ino` は memory の inode である。 -/
structure Extended (G : Geom) (x n : Nat) (s s' : State) (roots roots' : Nat → Nat → Nat)
    (ino ino' : Mem) : Prop where
  grown : Grown G x n s s' roots roots'
  account : Account G (view G s.disk x roots) (view G s'.disk x roots')
  exact : Exact ino' roots' n
  /-- 割り当てた block は 0 で埋まる。埋める buffer が取れないこともある。 -/
  data : ∀ q, ∀ o < G.blockSize, HeapOk s ∨ trace G (view G s.disk x roots) q ≠ none →
    dataAt G (view G s'.disk x roots') q o = dataAt G (view G s.disk x roots) q o
  /-- `i_block` のほかは変わらない。 -/
  rest : ∀ y, y < 40 ∨ 100 ≤ y → ino' y = ino y

/-- block 0 は割り当てられない。 -/
def Geom.BootReserved (G : Geom) : Prop := 0 < G.firstDataBlock ∨ Metadata G 0

/-- 割り当てたのは高々 `c` 個で、空きが `c` 個あれば `r` は得られる。 -/
structure Enough (G : Geom) (c : Nat) (s s' : State) (r : Nat) : Prop where
  cost : blockPool.total s.fs ≤ blockPool.total s'.fs + c
  found : HeapOk s → G.BootReserved → c ≤ blockPool.total s.fs → r ≠ 0

section Extended

variable {G : Geom} {x n b k : Nat} {s s' s'' : State} {roots roots' roots'' : Nat → Nat → Nat}
  {ino ino' ino'' : Mem} {v v' v'' : View}

theorem Account.refl : Account G v v :=
  ⟨fun _ h => h, fun _ _ h => .inl h, fun _ h => .inl h⟩

theorem Account.trans (h1 : Account G v v') (h2 : Account G v' v'')
    (hmono : ∀ p f, trace G v' p = some f → trace G v'' p = some f) : Account G v v'' where
  kept b h := h2.kept b (h1.kept b h)
  tight b h0 h := by
    rcases h2.tight b h0 h with h | h
    · rcases h1.tight b h0 h with h | ⟨i, p, hp⟩
      · exact .inl h
      · exact .inr ⟨i, p, hmono p _ hp⟩
    · exact .inr h
  fresh b h := by
    rcases h2.fresh b h with h | h
    · exact h1.fresh b h
    · exact .inr fun ha => h (h1.kept b ha)

/-- 使用中の block も木も変わらなかった。 -/
theorem Account.of_same (hmark : ∀ b, Allocated G v'.disk .block b ↔ Allocated G v.disk .block b)
    (htrace : ∀ p, trace G v' p = trace G v p) : Account G v v' where
  kept b := (hmark b).mpr
  tight b _ h := .inl ((hmark b).mp h)
  fresh b h := by
    obtain ⟨i, p, hp⟩ := h
    exact .inl ⟨i, p, (htrace p).symm.trans hp⟩

theorem Account.of_link {h : Nat} {r : List Nat} (htake : Takes G v.disk v'.disk b)
    (hw : ∀ q, trace G v' q = if q = r then some (.block h b) else trace G v q) :
    Account G v v' where
  kept b' hb' := (htake.2 b').mpr (.inl hb')
  tight b' _ hb' := by
    rcases (htake.2 b').mp hb' with hb' | rfl
    · exact .inl hb'
    · exact .inr ⟨h, r, by rw [hw, if_pos rfl]⟩
  fresh b' hb' := by
    obtain ⟨i, q, hq⟩ := hb'
    rw [hw] at hq
    split at hq
    · cases hq
      exact .inr htake.1
    · exact .inl ⟨i, q, hq⟩

/-- block 0 を取ってしまったら、使われないまま残る。 -/
theorem Account.of_zero (htake : Takes G v.disk v'.disk 0)
    (htrace : ∀ p, trace G v' p = trace G v p) : Account G v v' where
  kept b hb := (htake.2 b).mpr (.inl hb)
  tight b h0 hb := .inl (((htake.2 b).mp hb).resolve_right h0)
  fresh b hb := by
    obtain ⟨i, p, hp⟩ := hb
    exact .inl ⟨i, p, (htrace p).symm.trans hp⟩

theorem Takes.congr {m' m'' : Mem} (h : Takes G m m' b)
    (hmark : ∀ i < G.objects .block, marked G m'' .block i = marked G m' .block i) :
    Takes G m m'' b :=
  ⟨h.1, fun b' => (allocated_congr hmark b').trans (h.2 b')⟩

theorem Calm.extended (h : Calm G x roots s s') (he : Exact ino roots n)
    (ha : Account G (view G s.disk x roots) (view G s'.disk x roots)) :
    Extended G x n s s' roots roots ino ino :=
  ⟨h.grown, ha, he, fun q o ho _ => h.sameData q o ho, fun _ _ => rfl⟩

theorem Inv.extended_heap (inv : Inv G s x roots) (he : Exact ino roots n) (i : Nat) :
    Extended G x n s { s with heap := fun j => s.heap (j + i) } roots roots ino ino :=
  (inv.calm_heap i).extended he (.refl)

theorem Extended.trans (h1 : Extended G x n s s' roots roots' ino ino')
    (h2 : Extended G x n s' s'' roots' roots'' ino' ino'') :
    Extended G x n s s'' roots roots'' ino ino'' where
  grown := h1.grown.trans h2.grown
  account := h1.account.trans h2.account h2.grown.trace_mono
  exact := h2.exact
  data q o ho hq := by
    refine (h2.data q o ho ?_).trans (h1.data q o ho hq)
    rcases hq with hok | hne
    · exact .inl (hok.shift h1.grown.heap)
    · obtain ⟨f, hf⟩ := Option.ne_none_iff_exists'.mp hne
      exact .inr (by rw [h1.grown.trace_mono q f hf]; simp)
  rest y hy := (h2.rest y hy).trans (h1.rest y hy)

theorem Enough.trans {c c' r r' : Nat} (h1 : Enough G c s s' r) (h2 : Enough G c' s' s'' r')
    (hheap : ∃ i, s'.heap = fun j => s.heap (j + i)) : Enough G (c + c') s s'' r' where
  cost := by
    have := h1.cost
    have := h2.cost
    omega
  found hok hboot hc := by
    have := h1.cost
    exact h2.found (hok.shift hheap) hboot (by omega)

theorem Enough.mono {c c' r : Nat} (h : Enough G c s s' r) (hc : c ≤ c') : Enough G c' s s' r where
  cost := by
    have := h.cost
    omega
  found hok hboot hle := h.found hok hboot (by omega)

/-- `p` を辿り、足りない block を割り当てて `r` に着いた。`r = 0` は失敗を表す。 -/
structure Got (G : Geom) (x n c : Nat) (s s' : State) (roots roots' : Nat → Nat → Nat)
    (ino ino' : Mem) (p : List Nat) (h r : Nat) : Prop where
  extended : Extended G x n s s' roots roots' ino ino'
  enough : Enough G c s s' r
  reached : r ≠ 0 → trace G (view G s'.disk x roots') p = some (.block h r)
  /-- 既にあれば、何も割り当てない。 -/
  idle : trace G (view G s.disk x roots) p ≠ none → roots' = roots ∧ ino' = ino ∧
    (∃ i, s' = { s with heap := fun j => s.heap (j + i) }) ∧ (HeapOk s → r ≠ 0)

/-- `p` の先がなければ 1、あれば 0 である。 -/
def gap (G : Geom) (v : View) (p : List Nat) : Nat := (trace G v p).isNone.toNat

section Got

variable {c c' h r P j : Nat} {p : List Nat}

theorem gap_of_none (h : trace G v p = none) : gap G v p = 1 := by rw [gap, h]; rfl

theorem gap_le_one : gap G v p ≤ 1 := Bool.toNat_le _

theorem Got.of_some (inv : Inv G s x roots) (he : Exact ino roots n) (hr : r ≠ 0)
    (htr : trace G (view G s.disk x roots) p = some (.block h r)) :
    Got G x n c s s roots roots ino ino p h r :=
  ⟨inv.extended_heap he 0, ⟨Nat.le_add_right _ _, fun _ _ _ => hr⟩, fun _ => htr,
    fun _ => ⟨rfl, rfl, ⟨0, rfl⟩, fun _ => hr⟩⟩

theorem Got.of_calm (hc : Calm G x roots s s') (he : Exact ino roots n)
    (ha : Account G (view G s.disk x roots) (view G s'.disk x roots)) (hen : Enough G c s s' 0)
    (hnone : trace G (view G s.disk x roots) p = none) :
    Got G x n c s s' roots roots ino ino p h 0 :=
  ⟨hc.extended he ha, hen, fun h => absurd rfl h, fun h => absurd hnone h⟩

/-- `kmalloc` に失敗したときは 0 を返す。 -/
theorem Got.of_heap_none (inv : Inv G s x roots) (he : Exact ino roots n)
    (hheap : s.heap 0 = none) :
    Got G x n c s s.next roots roots ino ino p h 0 :=
  have hno : ¬HeapOk s := fun hok => hok.head_ne_none hheap
  ⟨inv.extended_heap he 1, ⟨Nat.le_add_right _ _, fun hok => absurd hok hno⟩, fun h => absurd rfl h,
    fun _ => ⟨rfl, rfl, ⟨1, rfl⟩, fun hok => absurd hok hno⟩⟩

theorem Got.of_next (inv : Inv G s x roots) (he : Exact ino roots n)
    (hg : Got G x n c s.next s' roots roots' ino ino' p h r) :
    Got G x n c s s' roots roots' ino ino' p h r where
  extended := (inv.extended_heap he 1).trans hg.extended
  enough := ⟨hg.enough.cost, fun hok => hg.enough.found hok.next⟩
  reached := hg.reached
  idle hp := by
    obtain ⟨hroots, hino, ⟨i, rfl⟩, hok⟩ := hg.idle hp
    exact ⟨hroots, hino, ⟨i + 1, rfl⟩, fun h => hok h.next⟩

theorem trace_ne_none_of_append {q : List Nat} (h : trace G v (p ++ q) ≠ none) :
    trace G v p ≠ none := by
  intro hp
  apply h
  unfold trace at hp ⊢
  rw [Radix.walk_append, hp]
  rfl

/-- 途中で失敗すれば、その先にも着かない。 -/
theorem Got.stop (hg : Got G x n c s s' roots roots' ino ino' p k 0) (hc : c ≤ c')
    (q : List Nat) : Got G x n c' s s' roots roots' ino ino' (p ++ q) h 0 :=
  ⟨hg.extended, hg.enough.mono hc, fun h => absurd rfl h,
    fun hp => hg.idle (trace_ne_none_of_append hp)⟩

theorem Got.snoc (h1 : Got G x n c s s' roots roots' ino ino' p k P)
    (h2 : Got G x n (gap G (view G s'.disk x roots') (p ++ [j])) s' s'' roots' roots' ino' ino'
      (p ++ [j]) h r) :
    Got G x n (c + gap G (view G s.disk x roots) (p ++ [j])) s s'' roots roots' ino ino' (p ++ [j])
      h r where
  extended := h1.extended.trans h2.extended
  enough := by
    refine (h1.enough.trans h2.enough h1.extended.grown.heap).mono (Nat.add_le_add_left ?_ c)
    by_cases hp : trace G (view G s.disk x roots) (p ++ [j]) = none
    · rw [gap_of_none hp]
      exact gap_le_one
    · obtain ⟨rfl, -, ⟨i, rfl⟩, -⟩ := h1.idle (trace_ne_none_of_append hp)
      exact le_refl _
  reached := h2.reached
  idle hp := by
    obtain ⟨rfl, rfl, ⟨i, rfl⟩, -⟩ := h1.idle (trace_ne_none_of_append hp)
    obtain ⟨-, -, ⟨i', rfl⟩, hok⟩ := h2.idle hp
    exact ⟨rfl, rfl, ⟨i' + i, by simp only [Nat.add_assoc]⟩, fun h => hok (h.shift ⟨i, rfl⟩)⟩

end Got

theorem Owned.lt_pow (h : Owned G s.disk b) (wf : G.Wf) : b < 2 ^ 32 :=
  lt_trans (lt_trans h.lt wf.blocksCount_lt) (by decide)

/-- 割り当てた block は 0 番ではない。 -/
theorem Owned.ne_zero (h : Owned G s.disk b) (hboot : G.BootReserved) : b ≠ 0 := by
  rintro rfl
  obtain ⟨⟨i, -, hi, -⟩, hmeta⟩ := h
  rcases hboot with h | h
  · simp only [Geom.base] at hi
    omega
  · exact hmeta h

/-- 割り当てて 0 で埋めた block を、memory の `i_block[k]` に繋ぐ。 -/
theorem Calm.extend_root (hc : Calm G x roots s s') (htake : Takes G s.disk s'.disk b)
    (hn : (view G s.disk x roots).live n = true)
    (he : Exact ino roots n) (hk : k < 14) (h0 : iBlock ino k = 0)
    (hb : Fresh G s' x roots b) (hb0 : b ≠ 0)
    (hz : 0 < heightOf k → ∀ j < G.blockSize / 4, ptrAt G.blockSize s'.disk b j = 0)
    (hdata : HeapOk s → heightOf k = 0 → ∀ o < G.blockSize, blockAt G.blockSize s'.disk b o = 0) :
    Extended G x n s s' roots (setRoot roots n k b) ino (setIBlock ino k b) ∧
      trace G (view G s'.disk x (setRoot roots n k b)) [n, k] = some (.block (heightOf k) b) := by
  have h0' : roots n k = 0 := by rw [← he k hk, h0]
  have hn' : (view G s'.disk x roots).live n = true := by
    rw [view_live, hc.live_eq]
    exact view_live.mp hn
  obtain ⟨hg, hw⟩ := hc.inv.link_root hn' hk h0' hb hb0 hz
  have hw' : ∀ q, trace G (view G s'.disk x (setRoot roots n k b)) q =
      if q = [n, k] then some (.block (heightOf k) b) else trace G (view G s.disk x roots) q := by
    intro q
    rw [hw, hc.trace_eq]
  refine ⟨⟨hc.grown.trans hg, .of_link htake hw', ?_, ?_, ?_⟩, by rw [hw, if_pos rfl]⟩
  · intro k' hk'
    by_cases hkk : k' = k
    · subst hkk
      rw [iBlock_setIBlock_self (hb.owned.lt_pow hc.inv.ready.wf), setRoot_self]
    · rw [iBlock_setIBlock_ne _ hkk, setRoot_of_ne (fun h => hkk h.2), he k' hk']
  · intro q o ho hq
    by_cases hqr : q = [n, k]
    · -- 新しい道なので、heap が尽きていなければ 0 で埋まっている
      subst hqr
      have hok : HeapOk s := hq.resolve_right (by simp [trace_root_none hn h0'])
      have htr := hw' [n, k]
      simp only [dataAt, htr, trace_root_none hn h0']
      cases hh : heightOf k with
      | zero => exact hdata hok hh o ho
      | succ h => rfl
    · refine dataAt_congr (by rw [hw', if_neg hqr]) ?_
      intro b' hb'
      exact hc.data_eq b' ⟨0, q, hb'⟩ o ho
  · intro y hy
    exact store_apply_of_not (by omega)

/-! ## 割り当てて 0 で埋める -/

theorem zeroFill_apply {buf : Mem} (hx : x < n) : zeroFill buf 0 n x = 0 :=
  blit_apply_of_mem (Nat.zero_le x) (by omega)

theorem blockAt_zeroed (m buf : Mem) (b : Nat) {o : Nat} (ho : o < G.blockSize) :
    blockAt G.blockSize (putBlock G.blockSize m b (zeroFill buf 0 G.blockSize)) b o = 0 := by
  rw [blockAt_putBlock_self ho, zeroFill_apply ho]

theorem ptrAt_of_zero (h : ∀ o < G.blockSize, blockAt G.blockSize m b o = 0) {j : Nat}
    (hj : j < G.blockSize / 4) : ptrAt G.blockSize m b j = 0 := by
  have hz : ∀ n a, a + n ≤ G.blockSize → load (blockAt G.blockSize m b) a n = 0 := by
    intro n
    induction n with
    | zero => intro a _; rfl
    | succ n ih =>
      intro a ha
      simp only [load, h a (by omega), ih (a + 1) (by omega)]
      rfl
  exact hz 4 _ (by omega)

/-- 割り当ての結果。使える番号でなければ、木に繋がらない。 -/
theorem Inv.allocUsable (inv : Inv G s x roots) :
    (∃ (i : Int) (s' : State), ext2AllocBlock s = (i, s') ∧ ¬0 < i ∧ Calm G x roots s s' ∧
      Account G (view G s.disk x roots) (view G s'.disk x roots) ∧ Enough G 1 s s' 0) ∨
    ∃ (b : Nat) (s' : State), ext2AllocBlock s = ((b : Int), s') ∧ b ≠ 0 ∧ Calm G x roots s s' ∧
      Fresh G s' x roots b ∧ Takes G s.disk s'.disk b ∧ Enough G 1 s s' b := by
  rcases inv.allocBlock with ⟨i, h, hfull⟩ | ⟨b, s', h, hc, hb, htake, htotal⟩
  · refine .inl ⟨_, _, h, by decide, inv.calm_heap i, .refl, Nat.le_succ _, ?_⟩
    intro hok _ hle
    rw [hfull hok] at hle
    cases hle
  · by_cases hb0 : b = 0
    · subst hb0
      refine .inl ⟨_, s', h, by decide, hc, .of_zero htake hc.trace_eq, le_of_eq htotal, ?_⟩
      intro _ hboot _
      exact hb.owned.ne_zero hboot
    · exact .inr ⟨b, s', h, hb0, hc, hb, htake, le_of_eq htotal, fun _ _ _ => hb0⟩

theorem allocZeroed_spec (inv : Inv G s x roots) (buf : Mem) :
    ∃ b s', allocZeroed s buf = (b, s') ∧ Calm G x roots s s' ∧ Enough G 1 s s' b ∧
      (b = 0 → Account G (view G s.disk x roots) (view G s'.disk x roots)) ∧
      (b ≠ 0 → Fresh G s' x roots b ∧ Takes G s.disk s'.disk b ∧
        ∀ o < G.blockSize, blockAt G.blockSize s'.disk b o = 0) := by
  unfold allocZeroed
  rcases inv.allocUsable with ⟨i, s', h, hi, hc, ha, hen⟩ | ⟨b, s', h, hb0, hc, hb, htake, hen⟩
  · simp only [h, if_neg hi]
    exact ⟨0, s', rfl, hc, hen, fun _ => ha, fun h => absurd rfl h⟩
  · simp only [h]
    rw [if_pos (by omega), Int.toNat_natCast, hc.inv.ready.write hb.owned.lt, hc.inv.ready.size]
    exact ⟨b, _, rfl, hc.trans (hc.inv.calm_write hb _), ⟨hen.cost, hen.found⟩,
      fun h => absurd h hb0, fun _ => ⟨hc.inv.fresh_write hb _,
        htake.congr (hc.inv.marks_write hb.owned.2 _ _),
        fun o ho => blockAt_zeroed _ buf b ho⟩⟩

/-! ## 間接 block -/

theorem trace_exact (hn : (view G s.disk x roots).live n = true) (he : Exact ino roots n)
    (hk : k < 14) (h0 : iBlock ino k ≠ 0) :
    trace G (view G s.disk x roots) [n, k] = some (.block (heightOf k) (iBlock ino k)) := by
  rw [trace_root hn]
  simp only [edges, view, if_pos hk, ← he k hk, target_of_ne h0]

theorem ensureRoot_spec (inv : Inv G s x roots) (hn : (view G s.disk x roots).live n = true)
    (he : Exact ino roots n) (hk : k < 14) (hh : 0 < heightOf k) (buf : Mem) :
    ∃ r ino' s' roots', ensureRoot s ino k buf true = (r, ino', s') ∧
      Got G x n (gap G (view G s.disk x roots) [n, k]) s s' roots roots' ino ino' [n, k]
        (heightOf k) r := by
  unfold ensureRoot
  by_cases h0 : iBlock ino k = 0
  · have hnone : trace G _ _ = none :=
      trace_root_none hn ((he k hk).symm.trans h0)
    obtain ⟨b, s', halloc, hc, hen, hacc, hb⟩ := allocZeroed_spec inv buf
    rw [if_pos ⟨h0, rfl⟩, gap_of_none hnone]
    simp only [halloc]
    by_cases hb0 : b = 0
    · subst hb0
      exact ⟨0, ino, s', roots, rfl, .of_calm hc he (hacc rfl) hen hnone⟩
    · rw [if_neg hb0]
      obtain ⟨hf, htake, hz⟩ := hb hb0
      obtain ⟨hext, htr⟩ := hc.extend_root htake hn he hk h0 hf hb0
        (fun _ j hj => ptrAt_of_zero hz hj) (fun _ h => absurd hh (by omega))
      exact ⟨b, _, s', _, rfl, hext, hen, fun _ => htr, fun h => absurd hnone h⟩
  · rw [if_neg (fun h => h0 h.1)]
    exact ⟨_, ino, s, roots, rfl, .of_some inv he h0 (trace_exact hn he hk h0)⟩

theorem ensureEntry_spec (inv : Inv G s x roots) {p : List Nat} {h P j : Nat} {buf : Mem}
    (hp : trace G (view G s.disk x roots) p = some (.block (h + 1) P)) (hhead : p.head? = some n)
    (hj : j < G.blockSize / 4) (he : Exact ino roots n)
    (hbuf : ∀ o < G.blockSize, buf o = blockAt G.blockSize s.disk P o) :
    ∃ r s', ensureEntry s P j buf true = (r, s') ∧
      Got G x n (gap G (view G s.disk x roots) (p ++ [j])) s s' roots roots ino ino (p ++ [j])
        h r := by
  have hload : ∀ i < G.blockSize / 4, load buf (4 * i) 4 = ptrAt G.blockSize s.disk P i := by
    intro i hi
    exact load_congr fun y _ hy => hbuf y (by omega)
  unfold ensureEntry
  simp only [hload j hj]
  by_cases h0 : ptrAt G.blockSize s.disk P j = 0
  · have hnone : trace G (view G s.disk x roots) (p ++ [j]) = none := by
      rw [trace_concat hp]
      simp only [edges, view, if_pos hj, h0, target_zero]
    rw [if_pos ⟨h0, trivial⟩, gap_of_none hnone]
    rcases inv.allocUsable with
      ⟨i, s1, halloc, hi, hc, hacc, hen⟩ | ⟨b, s1, halloc, hb0, hc, hb, htake, hen⟩
    · simp only [halloc, if_neg hi]
      exact ⟨0, s1, rfl, .of_calm hc he hacc hen hnone⟩
    simp only [halloc]
    have hp1 := (hc.trace_eq p).trans hp
    have hPo := hc.inv.sound.good hp1
    have hbP : P ≠ b := fun he => hb.apart ⟨_, p, he ▸ hp1⟩
    rw [if_pos (by omega), Int.toNat_natCast, hc.inv.ready.write hPo.lt]
    rw [(hc.inv.ready.withDisk _).write hb.owned.lt, hc.inv.ready.size]
    rw [putBlock_comm inv.ready.wf.size_pos hbP]
    -- 先に 0 で埋めてから繋いだのと同じ disk になる
    have hc1 := hc.inv.calm_write hb (zeroFill buf 0 G.blockSize)
    have hc2 := hc.trans hc1
    have hb2 := hc.inv.fresh_write hb (zeroFill buf 0 G.blockSize)
    have hz := fun o ho => blockAt_zeroed (G := G) s1.disk buf b (o := o) ho
    have hp2 := (hc2.trace_eq p).trans hp
    have hptr : ∀ i < G.blockSize / 4,
        ptrAt G.blockSize (putBlock G.blockSize s1.disk b (zeroFill buf 0 G.blockSize)) P i
          = ptrAt G.blockSize s.disk P i := by
      intro i hi
      rw [ptrAt, ptrAt, ← load_blockAt, ← load_blockAt]
      apply load_congr
      intro y _ hy
      rw [blockAt_putBlock_ne hbP (by omega)]
      exact hc.data_eq P ⟨_, p, hp⟩ y (by omega)
    obtain ⟨hg, hw⟩ := hc2.inv.link_entry hp2 hj
      ((hptr j hj).trans h0) hb2 hb0 (fun _ i hi => ptrAt_of_zero hz hi)
      (load_store_self (hb.owned.lt_pow inv.ready.wf))
      (fun i hi hij => by
        rw [load_store_of_disjoint (by omega), hload i hi]
        exact (hptr i hi).symm) hhead
    have htake' := (htake.congr (hc.inv.marks_write hb.owned.2 _
      _)).congr (hc2.inv.marks_write (hc2.inv.sound.good hp2).2 (store buf (4 * j) 4 b) _)
    refine ⟨b, _, rfl, ⟨hc2.grown.trans hg, Account.of_link (h := h) (r := p ++ [j]) htake' ?_,
      he, ?_, fun _ _ => rfl⟩,
      ⟨hen.cost, hen.found⟩, ?_, fun h => absurd hnone h⟩
    · intro q
      exact (hw q).trans (by rw [hc2.trace_eq])
    · intro q o ho _
      refine Eq.trans ?_ (hc2.sameData q o ho)
      refine dataAt_link hw ((hc2.trace_eq _).trans hnone) ?_ ?_
      · intro _
        show blockAt _ (putBlock _ _ P _) b o = 0
        rw [blockAt_putBlock_ne (Ne.symm hbP) ho]
        exact hz o ho
      · intro q' b' hq'
        exact blockAt_putBlock_ne (hc2.inv.inner_ne hp2 hq') ho
    · intro _
      show trace G _ _ = _
      rw [hw, if_pos rfl]
  · rw [if_neg (fun h => h0 h.1)]
    refine ⟨_, s, rfl, .of_some inv he h0 ?_⟩
    rw [trace_concat hp]
    simp only [edges, view, if_pos hj, target_of_ne h0]

/-! ## `ext2_get_block` -/

/-- 読んだ間接 block から pointer を得て、なければ割り当てる。 -/
theorem readEntry_spec (inv : Inv G s x roots) {p : List Nat} {h P j : Nat}
    (hp : trace G (view G s.disk x roots) p = some (.block (h + 1) P)) (hhead : p.head? = some n)
    (hj : j < G.blockSize / 4) (he : Exact ino roots n) (buf : Mem) :
    ∃ buf' r s', ext2ReadBlock s P buf = (true, buf', s) ∧ ensureEntry s P j buf' true = (r, s') ∧
      Got G x n (gap G (view G s.disk x roots) (p ++ [j])) s s' roots roots ino ino (p ++ [j])
        h r := by
  obtain ⟨r, s', hens, hg⟩ := ensureEntry_spec inv hp hhead hj he
    (fun o ho => blit_block buf _ _ P ho)
  exact ⟨_, r, s', inv.ready.read (inv.sound.good hp).lt buf, hens, hg⟩

theorem getDirect_spec (inv : Inv G s x roots) (hn : (view G s.disk x roots).live n = true)
    (he : Exact ino roots n) (hk : k < 12) :
    ∃ r ino' s' roots', getDirect s ino k true = (r, ino', s') ∧
      Got G x n (gap G (view G s.disk x roots) [n, k]) s s' roots roots' ino ino' [n, k] 0 r ∧
      (trace G (view G s.disk x roots) [n, k] ≠ none → r ≠ 0) ∧
      ∀ k', k' ≠ k → roots' n k' = roots n k' := by
  have hh : heightOf k = 0 := Nat.sub_eq_zero_of_le (by omega)
  have hk' : k < 14 := by omega
  unfold getDirect
  by_cases h0 : iBlock ino k = 0
  · have hnone : trace G _ _ = none :=
      trace_root_none hn ((he k hk').symm.trans h0)
    rw [if_pos ⟨h0, rfl⟩, gap_of_none hnone]
    rcases inv.allocUsable with
      ⟨i, s1, halloc, hi, hc, hacc, hen⟩ | ⟨b, s1, halloc, hb0, hc, hb, htake, hen⟩
    · simp only [halloc, if_neg hi]
      exact ⟨0, ino, s1, roots, rfl, .of_calm hc he hacc hen hnone, fun h => absurd hnone h,
        fun _ _ => rfl⟩
    simp only [halloc]
    rw [if_pos (by omega), Int.toNat_natCast, kmalloc_eq]
    have hother : ∀ k', k' ≠ k → setRoot _ n k b n k' = roots n k' :=
      fun k' h => setRoot_of_ne fun h' => h h'.2
    have hc1 := hc.trans hc.inv.calm_next
    have hb1 : Fresh G s1.next x _ b := ⟨hb.owned, hb.apart⟩
    cases hheap : s1.heap 0 with
    | none =>
      -- 0 で埋められないまま繋ぐ
      obtain ⟨hext, htr⟩ := hc1.extend_root htake hn he hk' h0 hb1 hb0
        (fun h => absurd h (by omega))
        fun hok => absurd hheap (hok.shift hc.heap).head_ne_none
      rw [hh] at htr
      exact ⟨b, _, s1.next, _, rfl, ⟨hext, ⟨hen.cost, hen.found⟩, fun _ => htr,
        fun h => absurd hnone h⟩, fun h => absurd hnone h, hother⟩
    | some buf =>
      simp only [hc1.inv.ready.write hb.owned.lt, hc1.inv.ready.size]
      have hc2 := hc1.trans (hc1.inv.calm_write hb1 (zeroFill buf 0 G.blockSize))
      have hb2 := hc1.inv.fresh_write hb1 (zeroFill buf 0 G.blockSize)
      obtain ⟨hext, htr⟩ := hc2.extend_root
        (htake.congr (hc1.inv.marks_write hb.owned.2 _ _)) hn he hk' h0 hb2 hb0
        (fun h => absurd h (by omega)) (fun _ _ o ho => blockAt_zeroed _ buf b ho)
      rw [hh] at htr
      exact ⟨b, _, _, _, rfl, ⟨hext, ⟨hen.cost, hen.found⟩, fun _ => htr,
        fun h => absurd hnone h⟩, fun h => absurd hnone h, hother⟩
  · rw [if_neg (fun h => h0 h.1)]
    refine ⟨_, ino, s, roots, rfl, .of_some inv he h0 ?_, fun _ => h0, fun _ _ => rfl⟩
    rw [trace_exact hn he hk' h0, hh]

theorem Extended.live (h : Extended G x n s s' roots roots' ino ino')
    (hn : (view G s.disk x roots).live n = true) : (view G s'.disk x roots').live n = true := by
  rw [view_live, h.grown.live_eq]
  exact view_live.mp hn

section

variable (inv : Inv G s x roots) (hn : (view G s.disk x roots).live n = true)
  (he : Exact ino roots n)
include inv hn he

theorem getIndirect_spec {j : Nat} (hj : j < G.blockSize / 4) :
    ∃ r ino' s' roots', getIndirect s ino j true = (r, ino', s') ∧
      Got G x n (gap G (view G s.disk x roots) [n, 12] + gap G (view G s.disk x roots) [n, 12, j])
        s s' roots roots' ino ino' [n, 12, j] 0 r := by
  unfold getIndirect
  rw [kmalloc_eq]
  cases hheap : s.heap 0 with
  | none => exact ⟨0, ino, s.next, roots, rfl, .of_heap_none inv he hheap⟩
  | some buf =>
    obtain ⟨P, ino1, s1, roots1, hroot, h1⟩ :=
      ensureRoot_spec inv.calm_next.inv hn he (k := 12) (by decide) (by decide) buf
    have h1 := h1.of_next inv he
    simp only [hroot]
    by_cases hP : P = 0
    · subst hP
      exact ⟨0, ino1, s1, roots1, rfl, h1.stop (Nat.le_add_right _ _) [j]⟩
    · rw [if_neg hP]
      obtain ⟨buf1, b, s2, hread, hens, h2⟩ :=
        readEntry_spec h1.extended.grown.inv (h1.reached hP) rfl hj h1.extended.exact buf
      simp only [hread, if_true, hens]
      exact ⟨b, ino1, s2, roots1, rfl, h1.snoc h2⟩

theorem getDouble_spec {j : Nat} (hi : i < G.blockSize / 4) (hj : j < G.blockSize / 4) :
    ∃ r ino' s' roots', getDouble s ino i j true = (r, ino', s') ∧
      Got G x n (gap G (view G s.disk x roots) [n, 13] + gap G (view G s.disk x roots) [n, 13, i] +
          gap G (view G s.disk x roots) [n, 13, i, j])
        s s' roots roots' ino ino' [n, 13, i, j] 0 r := by
  unfold getDouble
  rw [kmalloc_eq]
  cases hheap : s.heap 0 with
  | none => exact ⟨0, ino, s.next, roots, rfl, .of_heap_none inv he hheap⟩
  | some buf =>
    obtain ⟨P, ino1, s1, roots1, hroot, h1⟩ :=
      ensureRoot_spec inv.calm_next.inv hn he (k := 13) (by decide) (by decide) buf
    have h1 := h1.of_next inv he
    simp only [hroot]
    by_cases hP : P = 0
    · subst hP
      exact ⟨0, ino1, s1, roots1, rfl, h1.stop (Nat.add_assoc _ _ _ ▸ Nat.le_add_right _ _) _⟩
    rw [if_neg hP]
    obtain ⟨buf1, c, s2, hread, hens, h2⟩ :=
      readEntry_spec h1.extended.grown.inv (h1.reached hP) rfl hi h1.extended.exact buf
    have h2 := h1.snoc h2
    simp only [hread, if_true, hens]
    by_cases hc : c = 0
    · subst hc
      exact ⟨0, ino1, s2, roots1, rfl, h2.stop (Nat.le_add_right _ _) [j]⟩
    · rw [if_neg hc]
      obtain ⟨buf2, b, s3, hread', hens', h3⟩ :=
        readEntry_spec h2.extended.grown.inv (h2.reached hc) rfl hj h2.extended.exact buf1
      simp only [hread', if_true, hens']
      exact ⟨b, ino1, s3, roots1, rfl, h2.snoc h3⟩

end

/-- 間接 block 一つに入る pointer の数。 -/
def Geom.ptrs (G : Geom) : Nat := G.blockSize / 4

/-- file の block のうち、対応の付くものの数。 -/
def Geom.mapLimit (G : Geom) : Nat := 12 + G.ptrs + G.ptrs * G.ptrs

/-- file の `idx` 番目の block に着く道。 -/
def pathOf (G : Geom) (n idx : Nat) : List Nat :=
  if idx < 12 then [n, idx]
  else if idx < 12 + G.ptrs then [n, 12, idx - 12]
  else [n, 13, (idx - 12 - G.ptrs) / G.ptrs, (idx - 12 - G.ptrs) % G.ptrs]

theorem pathOf_direct (h : i < 12) : pathOf G n i = [n, i] := if_pos h

theorem pathOf_single (h : 12 ≤ i) (h' : i < 12 + G.ptrs) : pathOf G n i = [n, 12, i - 12] := by
  rw [pathOf, if_neg (by omega), if_pos h']

theorem pathOf_double (h : 12 + G.ptrs ≤ i) :
    pathOf G n i = [n, 13, (i - 12 - G.ptrs) / G.ptrs, (i - 12 - G.ptrs) % G.ptrs] := by
  rw [pathOf, if_neg (by omega), if_neg (by omega)]

theorem Ready.ptrsPerBlock_eq (hr : Ready G s) : ptrsPerBlock s.fs = G.ptrs := by
  rw [ptrsPerBlock, hr.size, Geom.ptrs]

theorem Ready.doubleLimit_eq (hr : Ready G s) : doubleLimit s.fs = G.mapLimit := by
  have hle : G.ptrs ≤ 16384 := by
    have := hr.wf.size_le
    unfold Geom.ptrs
    omega
  have hsq := Nat.mul_le_mul hle hle
  unfold doubleLimit
  rw [hr.ptrsPerBlock_eq]
  exact Nat.mod_eq_of_lt (by omega)

theorem Geom.Wf.ptrs_pos (wf : G.Wf) : 0 < G.ptrs := by
  have := wf.dvd
  have := wf.size_pos
  unfold Geom.ptrs
  omega

/-- 二重間接の添字は、どちらも間接 block に収まる。 -/
theorem double_index_lt (wf : G.Wf) (h : idx < G.mapLimit) :
    (idx - 12 - G.ptrs) / G.ptrs < G.ptrs ∧ (idx - 12 - G.ptrs) % G.ptrs < G.ptrs := by
  have hpos := wf.ptrs_pos
  refine ⟨?_, Nat.mod_lt _ hpos⟩
  rw [Nat.div_lt_iff_lt_mul hpos]
  have := Nat.mul_pos hpos hpos
  unfold Geom.mapLimit at h
  omega

/-- 間接 block を読んだ buffer の pointer。 -/
theorem Ready.readPtrs (hr : Ready G s) {P : Nat} (hP : P < G.blocksCount) (buf : Mem) :
    ∃ buf', ext2ReadBlock s P buf = (true, buf', s) ∧
      ∀ j < G.blockSize / 4, load buf' (4 * j) 4 = ptrAt G.blockSize s.disk P j := by
  refine ⟨_, hr.read hP buf, ?_⟩
  intro j hj
  exact load_congr fun y _ hy => blit_block buf _ _ P (by omega)

/-- file の `idx` 番目の block に着くまでに、足りない block の数。 -/
def lacking (G : Geom) (v : View) (n idx : Nat) : Nat :=
  if idx < 12 then gap G v [n, idx]
  else if idx < 12 + G.ptrs then gap G v [n, 12] + gap G v [n, 12, idx - 12]
  else gap G v [n, 13] + gap G v [n, 13, (idx - 12 - G.ptrs) / G.ptrs] +
    gap G v [n, 13, (idx - 12 - G.ptrs) / G.ptrs, (idx - 12 - G.ptrs) % G.ptrs]

theorem lacking_congr (h : ∀ p, trace G v' p = trace G v p) :
    lacking G v' n idx = lacking G v n idx := by
  simp only [lacking, gap, h]

/-- `pathOf` の先にあるのは data の block である。 -/
theorem trace_pathOf {f : Vertex} (h : trace G v (pathOf G n idx) = some f) :
    ∃ b, b ≠ 0 ∧ f = .block 0 b := by
  unfold pathOf at h
  split at h
  · obtain ⟨-, -, h0, rfl⟩ := trace_root_some h
    exact ⟨_, h0, by rw [show heightOf idx = 0 from Nat.sub_eq_zero_of_le (by omega)]⟩
  split at h
  · obtain ⟨i, P, hP, -, h0, rfl⟩ := trace_entry_some (p := [n, 12]) (by simp) h
    obtain ⟨-, -, -, hPe⟩ := trace_root_some hP
    cases hPe
    exact ⟨_, h0, rfl⟩
  · obtain ⟨i, Q, hQ, -, h0, rfl⟩ := trace_entry_some
      (p := [n, 13, (idx - 12 - G.ptrs) / G.ptrs]) (by simp) h
    obtain ⟨i', P, hP, -, -, hQe⟩ := trace_entry_some (p := [n, 13]) (by simp) hQ
    obtain ⟨-, -, -, hPe⟩ := trace_root_some hP
    cases hPe
    cases hQe
    exact ⟨_, h0, rfl⟩

/-- 対応の付かない番号の先には何もない。 -/
theorem trace_of_limit (wf : G.Wf) (h : G.mapLimit ≤ idx) : trace G v (pathOf G n idx) = none := by
  have hge : 12 + G.ptrs ≤ idx := by
    unfold Geom.mapLimit at h
    omega
  by_contra hne
  obtain ⟨f, hf⟩ := Option.ne_none_iff_exists'.mp hne
  rw [pathOf_double hge] at hf
  obtain ⟨_, Q, hQ, -⟩ := trace_entry_some (p := [n, 13, (idx - 12 - G.ptrs) / G.ptrs]) (by simp) hf
  obtain ⟨_, P, -, hi, -⟩ := trace_entry_some (p := [n, 13]) (by simp) hQ
  have hi : (idx - 12 - G.ptrs) / G.ptrs < G.ptrs := hi
  rw [Nat.div_lt_iff_lt_mul wf.ptrs_pos] at hi
  unfold Geom.mapLimit at h
  omega

/--
**`ext2_get_block` は、木を健全に保ったまま、`pathOf` の先の data の block を返す。**

0 を返すのは、対応の付かない番号のときと、block か heap が足りないときだけである。
-/
theorem getBlock_spec (inv : Inv G s x roots) (hn : (view G s.disk x roots).live n = true)
    (he : Exact ino roots n) (idx : Nat) :
    ∃ b ino' s' roots' c, ext2GetBlock s ino idx true = (b, ino', s') ∧
      Got G x n c s s' roots roots' ino ino' (pathOf G n idx) 0 b ∧
      (idx < G.mapLimit → c ≤ lacking G (view G s.disk x roots) n idx) ∧
      (idx < 12 → (trace G (view G s.disk x roots) (pathOf G n idx) ≠ none → b ≠ 0) ∧
        ∀ k, k ≠ idx → roots' n k = roots n k) := by
  simp only [ext2GetBlock, inv.ready.ptrsPerBlock_eq, inv.ready.doubleLimit_eq]
  by_cases h12 : idx < 12
  · rw [if_pos h12, pathOf_direct h12, lacking, if_pos h12]
    obtain ⟨b, ino', s', roots', h, hg, hdirect⟩ := getDirect_spec inv hn he h12
    exact ⟨b, ino', s', roots', _, h, hg, fun _ => le_refl _, fun _ => hdirect⟩
  rw [if_neg h12]
  by_cases hind : idx < 12 + G.ptrs
  · rw [if_pos hind, pathOf_single (Nat.le_of_not_lt h12) hind, lacking, if_neg h12, if_pos hind]
    obtain ⟨b, ino', s', roots', h, hg⟩ :=
      getIndirect_spec inv hn he (j := idx - 12) (show idx - 12 < G.ptrs by omega)
    exact ⟨b, ino', s', roots', _, h, hg, fun _ => le_refl _, fun h => absurd h h12⟩
  rw [if_neg hind]
  by_cases hdbl : idx < G.mapLimit
  · rw [if_pos hdbl, pathOf_double (Nat.le_of_not_lt hind), lacking, if_neg h12, if_neg hind]
    obtain ⟨hi, hj⟩ := double_index_lt inv.ready.wf hdbl
    obtain ⟨b, ino', s', roots', h, hg⟩ := getDouble_spec inv hn he hi hj
    exact ⟨b, ino', s', roots', _, h, hg, fun _ => le_refl _, fun h => absurd h h12⟩
  · rw [if_neg hdbl]
    have hnone := trace_of_limit (n := n) (v := view G s.disk x roots) inv.ready.wf
      (Nat.le_of_not_lt hdbl)
    have hen : Enough G (blockPool.total s.fs + 1) s s 0 := ⟨by omega, fun _ _ h => by omega⟩
    exact ⟨0, ino, s, roots, _, rfl, .of_calm (.refl inv) he (.refl) hen hnone,
      fun h => absurd h hdbl, fun h => absurd h h12⟩

end Extended

end Alos.Ext2
