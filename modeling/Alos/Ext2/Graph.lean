import Alos.Ext2.Geometry
import Alos.Lib.Radix

/-!
# block の pointer の木

image 全体を一つの木と見る。根の子は割り当てられた inode、inode の子は `i_block` の指す block、
間接 block の子はその pointer の指す block である。道は番号と添字の列 `[inode, i_block, …]` になる。

* `Sound` — どの block にも着く道は高々一つで、着く block はすべて `good` である
-/

namespace Alos.Ext2

open Bytes Option

/-! ## 木 -/

inductive Vertex where
  | image
  | inode (n : Nat)
  /-- `height` は、その下にある間接 block の段数である。0 なら data の block である。 -/
  | block (height b : Nat)
  deriving DecidableEq, Repr

/-- 木の材料。考える inode、その `i_block`、disk の中身。 -/
structure View where
  live : Nat → Bool
  roots : Nat → Nat → Nat
  disk : Mem

variable {h b n i o : Nat} {f x : Vertex} {p : List Nat} {G : Geom} {v : View}

/-- 間接 block `b` の `j` 番目の pointer。 -/
def ptrAt (bs : Nat) (m : Mem) (b j : Nat) : Nat := load m (b * bs + 4 * j) 4

/-- `i_block[k]` の指す block の高さ。直接は 0、間接は 1、二重間接は 2 である。 -/
def heightOf (k : Nat) : Nat := k - 11

/-- pointer の指す頂点。0 は何も指さない。 -/
def target (h b : Nat) : Option Vertex := if b = 0 then none else some (.block h b)

/-- 三重間接（`i_block[14]`）は辿らない。 -/
def edges (G : Geom) (v : View) : Vertex → Nat → Option Vertex
  | .image, n => if v.live n then some (.inode n) else none
  | .inode n, k => if k < 14 then target (heightOf k) (v.roots n k) else none
  | .block (h + 1) b, j =>
    if j < G.blockSize / 4 then target h (ptrAt G.blockSize v.disk b j) else none
  | .block 0 _, _ => none

/-- 根から道を辿る。 -/
def trace (G : Geom) (v : View) (p : List Nat) : Option Vertex :=
  Radix.walk (fun _ e => e) (edges G v) 0 .image p

/-- 道のある頂点。 -/
def Met (G : Geom) (v : View) (f : Vertex) : Prop := ∃ p, trace G v p = some f

/-- block `b` に着く道がある。 -/
def Reachable (G : Geom) (v : View) (b : Nat) : Prop := ∃ h, Met G v (.block h b)

@[simp] theorem target_zero (h : Nat) : target h 0 = none := rfl

theorem target_of_ne (hb : b ≠ 0) : target h b = some (.block h b) := if_neg hb

theorem target_eq_some (hf : target h b = some f) : b ≠ 0 ∧ f = .block h b := by
  unfold target at hf
  split at hf
  · cases hf
  · rename_i hb
    exact ⟨hb, by cases hf; rfl⟩

section Trace

variable {G : Geom} {v v' : View} {p q : List Nat}

theorem trace_nil : trace G v [] = some .image := rfl

theorem trace_concat (h : trace G v p = some f) (i : Nat) :
    trace G v (p ++ [i]) = edges G v f i := Radix.walk_concat h i

theorem trace_inode (h : v.live n = true) : trace G v [n] = some (.inode n) := by
  have := trace_concat (G := G) (v := v) trace_nil n
  rw [List.nil_append] at this
  rw [this]
  simp [edges, h]

theorem trace_root (h : v.live n = true) {k : Nat} :
    trace G v [n, k] = edges G v (.inode n) k := trace_concat (trace_inode h) k

theorem live_iff_trace : v.live n = true ↔ trace G v [n] = some (.inode n) := by
  constructor
  · exact trace_inode
  · intro h
    by_contra hl
    simp [trace, Radix.walk_cons, edges, hl] at h

/-- 一つの inode の木は、その inode の `live` と `roots`、disk で決まる。 -/
theorem trace_cons_congr (hl : v'.live n = v.live n)
    (hr : ∀ k < 14, v'.roots n k = v.roots n k) (hd : v'.disk = v.disk) (p : List Nat) :
      trace G v' (n :: p) = trace G v (n :: p) := by
  have hblock : ∀ (l : Nat) (q : List Nat) (h b : Nat),
      Radix.walk (fun _ e => e) (edges G v') l (.block h b) q
        = Radix.walk (fun _ e => e) (edges G v) l (.block h b) q := by
    intro l q
    induction q generalizing l with
    | nil => intro h b; rfl
    | cons j q ih =>
      intro h b
      rw [Radix.walk_cons, Radix.walk_cons]
      cases h with
      | zero => rfl
      | succ h =>
        simp only [edges, hd]
        split
        · unfold target
          split
          · rfl
          · exact ih _ h _
        · rfl
  unfold trace
  rw [Radix.walk_cons, Radix.walk_cons]
  simp only [edges, hl]
  split
  · cases p with
    | nil => rfl
    | cons k q =>
      simp only [bind_some, Radix.walk_cons, edges]
      split
      · rename_i hk
        rw [hr k hk]
        unfold target
        split
        · rfl
        · exact hblock _ q _ _
      · rfl
  · rfl

/-- `i_block[k]` の先に着いたなら、その pointer は 0 でない。 -/
theorem trace_root_some {k : Nat} (h : trace G v [n, k] = some f) :
    v.live n = true ∧ k < 14 ∧ v.roots n k ≠ 0 ∧ f = .block (heightOf k) (v.roots n k) := by
  have hl : v.live n = true := by
    by_contra hl
    simp [trace, Radix.walk_cons, edges, hl] at h
  rw [trace_root hl] at h
  simp only [edges] at h
  split at h
  · rename_i hk
    obtain ⟨h0, hf⟩ := target_eq_some h
    exact ⟨hl, hk, h0, hf⟩
  · cases h

/-- block の下には block しかない。 -/
theorem walk_block (l : Nat) : ∀ (q : List Nat) (h b : Nat) {f : Vertex},
    Radix.walk (fun _ e => e) (edges G v) l (.block h b) q = some f →
    ∃ h' b', f = .block h' b' := by
  intro q
  induction q generalizing l with
  | nil =>
    intro h b f hf
    cases hf
    exact ⟨h, b, rfl⟩
  | cons j q ih =>
    intro h b f hf
    rw [Radix.walk_cons, bind_eq_some_iff] at hf
    obtain ⟨g, hg, hf⟩ := hf
    cases h with
    | zero => cases hg
    | succ h =>
      simp only [edges] at hg
      split at hg
      · obtain ⟨-, rfl⟩ := target_eq_some hg
        exact ih _ _ _ hf
      · cases hg

/-- 道の長さが、着く頂点の種類を決める。 -/
theorem trace_cases (h : trace G v p = some f) :
    (p = [] ∧ f = .image) ∨ (∃ n, p = [n] ∧ f = .inode n ∧ v.live n = true) ∨
    ∃ n k q h b, p = n :: k :: q ∧ f = .block h b ∧ v.live n = true := by
  cases p with
  | nil => exact .inl ⟨rfl, by cases h; rfl⟩
  | cons n p =>
    unfold trace at h
    rw [Radix.walk_cons] at h
    by_cases hl : v.live n = true
    · simp only [edges, hl, if_true, bind_some] at h
      cases p with
      | nil => exact .inr (.inl ⟨n, rfl, by cases h; rfl, hl⟩)
      | cons k q =>
        rw [Radix.walk_cons, bind_eq_some_iff] at h
        obtain ⟨g, hg, h⟩ := h
        simp only [edges] at hg
        split at hg
        · obtain ⟨-, rfl⟩ := target_eq_some hg
          obtain ⟨h', b, rfl⟩ := walk_block _ q _ _ h
          exact .inr (.inr ⟨n, k, q, h', b, rfl, rfl, hl⟩)
        · cases hg
    · simp [edges, hl] at h

theorem not_reachable_zero : ¬Reachable G v 0 := by
  rintro ⟨h, p, hp⟩
  rcases List.eq_nil_or_concat p with rfl | ⟨q, j, rfl⟩
  · cases hp
  rw [List.concat_eq_append, trace, Radix.walk_append, bind_eq_some_iff] at hp
  obtain ⟨g, -, hp⟩ := hp
  rw [Radix.walk_cons, bind_eq_some_iff] at hp
  obtain ⟨f, hf, hp⟩ := hp
  cases hp
  match g with
  | .image =>
    simp only [edges] at hf
    split at hf <;> cases hf
  | .inode n =>
    simp only [edges] at hf
    split at hf
    · obtain ⟨h0, he⟩ := target_eq_some hf
      exact h0 (Vertex.block.inj he).2.symm
    · cases hf
  | .block 0 b => cases hf
  | .block (i + 1) b =>
    simp only [edges] at hf
    split at hf
    · obtain ⟨h0, he⟩ := target_eq_some hf
      exact h0 (Vertex.block.inj he).2.symm
    · cases hf

/-- 間接 block の先に着いたなら、その pointer は 0 でない。 -/
theorem trace_entry_some {j : Nat} (hp : 2 ≤ p.length) (h : trace G v (p ++ [j]) = some f) :
    ∃ i P, trace G v p = some (.block (i + 1) P) ∧ j < G.blockSize / 4 ∧
      ptrAt G.blockSize v.disk P j ≠ 0 ∧ f = .block i (ptrAt G.blockSize v.disk P j) := by
  unfold trace at h
  rw [Radix.walk_append, bind_eq_some_iff] at h
  obtain ⟨g, hg, h⟩ := h
  rcases trace_cases hg with ⟨rfl, -⟩ | ⟨_, rfl, -⟩ | ⟨_, _, _, i, P, -, rfl, -⟩
  · simp at hp
  · simp at hp
  rw [Radix.walk_cons, bind_eq_some_iff] at h
  obtain ⟨g', hg', h⟩ := h
  cases h
  cases i with
  | zero => cases hg'
  | succ i =>
    simp only [edges] at hg'
    split at hg'
    · rename_i hj
      obtain ⟨h0, rfl⟩ := target_eq_some hg'
      exact ⟨i, P, hg, hj, h0, rfl⟩
    · cases hg'

theorem trace_eq_inode (h : trace G v p = some (.inode n)) : p = [n] ∧ v.live n = true := by
  rcases trace_cases h with ⟨-, hf⟩ | ⟨n', hp, hf, hl⟩ | ⟨_, _, _, _, _, -, hf, -⟩
  · cases hf
  · cases hf
    exact ⟨hp, hl⟩
  · cases hf

theorem live_of_met (h : Met G v (.inode n)) : v.live n = true := by
  obtain ⟨p, hp⟩ := h
  exact (trace_eq_inode hp).2

end Trace

/-! ## 健全な木 -/

/-- どの block にも着く道は高々一つで、着く block は `good` である。 -/
structure Sound (G : Geom) (v : View) (good : Nat → Prop) : Prop where
  once : ∀ {p q h h' b}, trace G v p = some (.block h b) → trace G v q = some (.block h' b) → p = q
  good : ∀ {p h b}, trace G v p = some (.block h b) → good b

section Sound

variable {G : Geom} {v v' : View} {good good' : Nat → Prop}

theorem Sound.unshared (hs : Sound G v good) :
    Radix.Unshared (fun _ e => e) (edges G v) .image := by
  intro p q f hp hq
  rcases trace_cases hp with ⟨rfl, rfl⟩ | ⟨n, rfl, rfl, -⟩ | ⟨_, _, _, h, b, -, rfl, -⟩
  · rcases trace_cases hq with ⟨rfl, -⟩ | ⟨_, -, hf, -⟩ | ⟨_, _, _, _, _, -, hf, -⟩
    · rfl
    · cases hf
    · cases hf
  · exact (trace_eq_inode hq).1.symm
  · exact hs.once hp hq

theorem Sound.height_eq (hs : Sound G v good) {h' : Nat} (h1 : Met G v (.block h b))
    (h2 : Met G v (.block h' b)) : h = h' := by
  obtain ⟨p, hp⟩ := h1
  obtain ⟨q, hq⟩ := h2
  obtain rfl := hs.once hp hq
  rw [hp] at hq
  cases hq
  rfl

theorem trace_congr (he : ∀ f i, Met G v f → edges G v' f i = edges G v f i) :
    trace G v' p = trace G v p := Radix.walk_eq_of_node he

section

variable (hs : Sound G v good)
include hs

/-- 木が同じなら、健全さも同じである。 -/
theorem Sound.congr (he : ∀ p, trace G v' p = trace G v p)
    (hg : ∀ b, Reachable G v b → good b → good' b) : Sound G v' good' where
  once h1 h2 := by
    rw [he] at h1 h2
    exact hs.once h1 h2
  good h1 := by
    rw [he] at h1
    exact hg _ ⟨_, _, h1⟩ (hs.good h1)

/-- pointer を消しても健全である。 -/
theorem Sound.sub (he : ∀ f i, Met G v f → edges G v' f i = edges G v f i ∨ edges G v' f i = none) :
    Sound G v' good ∧ ∀ p f, trace G v' p = some f → trace G v p = some f := by
  have hw : ∀ p f, trace G v' p = some f → trace G v p = some f := by
    intro p f hp
    refine Radix.walk_of_sub ?_ hp
    intro f i hf
    exact (he f i hf).imp_right fun h _ => h
  exact ⟨⟨fun h1 h2 => hs.once (hw _ _ h1) (hw _ _ h2), fun h1 => hs.good (hw _ _ h1)⟩, hw⟩

/-- 空いている slot に頂点を一つ繋いだときの道。 -/
theorem trace_link (hp : trace G v p = some f) (hnone : edges G v f i = none) (hx : ¬Met G v x)
    (hlink : edges G v' f i = some x)
    (hsame : ∀ g j, Met G v g → ¬(g = f ∧ j = i) → edges G v' g j = edges G v g j)
    (hempty : ∀ j, edges G v' x j = none) (q : List Nat) :
    trace G v' q = if q = p ++ [i] then some x else trace G v q :=
  (Radix.unshared_link hs.unshared hp hnone hx hsame hlink hempty).1 q

/-- **空いている slot に、どこからも指されていない block を繋いでも健全である。** -/
theorem Sound.link (hw : ∀ q, trace G v' q = if q = p ++ [i] then some x else trace G v q)
    (hx : ∀ h b, x = .block h b → ¬Reachable G v b ∧ good' b)
    (hg : ∀ b, Reachable G v b → good b → good' b) : Sound G v' good' := by
  constructor
  · intro q1 q2 h h' b h1 h2
    rw [hw] at h1 h2
    split at h1 <;> split at h2
    · rename_i e1 e2
      rw [e1, e2]
    · exact absurd ⟨h', _, h2⟩ (hx h b (some.inj h1)).1
    · exact absurd ⟨h, _, h1⟩ (hx h' b (some.inj h2)).1
    · exact hs.once h1 h2
  · intro q h b h1
    rw [hw] at h1
    split at h1
    · exact (hx h b (some.inj h1)).2
    · exact hg b ⟨h, q, h1⟩ (hs.good h1)

end

end Sound

/-! ## data -/

/-- 道の先の data の block の `o` 番目の byte。block がなければ 0 である。 -/
def dataAt (G : Geom) (v : View) (p : List Nat) (o : Nat) : UInt8 :=
  match trace G v p with
  | some (.block 0 b) => blockAt G.blockSize v.disk b o
  | _ => 0

theorem dataAt_block (h : trace G v p = some (.block 0 b)) :
    dataAt G v p o = blockAt G.blockSize v.disk b o := by
  simp only [dataAt, h]

/-- 木と、着く data の block の中身が同じなら、data も同じである。 -/
theorem dataAt_congr {v' : View} (he : trace G v' p = trace G v p)
    (hd : ∀ b, trace G v p = some (.block 0 b) →
      blockAt G.blockSize v'.disk b o = blockAt G.blockSize v.disk b o) :
    dataAt G v' p o = dataAt G v p o := by
  unfold dataAt
  rw [he]
  split
  · rename_i b hb
    exact hd b hb
  · rfl

/-- 0 で埋めた block を空いている slot に繋いでも、data は変わらない。 -/
theorem dataAt_link {v' : View} {r : List Nat}
    (hw : ∀ q, trace G v' q = if q = r then some (.block h b) else trace G v q)
    (hnone : trace G v r = none) (hzero : h = 0 → blockAt G.blockSize v'.disk b o = 0)
    (hsame : ∀ q b', trace G v q = some (.block 0 b') →
      blockAt G.blockSize v'.disk b' o = blockAt G.blockSize v.disk b' o) {q : List Nat} :
    dataAt G v' q o = dataAt G v q o := by
  by_cases hq : q = r
  · subst hq
    have h' := hw q
    simp only [dataAt, h', hnone]
    cases h with
    | zero => exact hzero rfl
    | succ h => rfl
  · refine dataAt_congr ?_ (hsame q)
    rw [hw, if_neg hq]

end Alos.Ext2
