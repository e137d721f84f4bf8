import Mathlib.Data.List.Induction
import Mathlib.Tactic.Common

/-!
# slot の表を辿る木

node はそれぞれ slot を並べた表で、slot の値が次の node を決める。
`child l e` は、深さ `l` の node の slot の値 `e` が指す node である。

* `walk` — 添字の列に沿って辿った先の node
* `Unshared` — 二つの道が同じ node に着くことはない
-/

namespace Alos.Radix

variable {ν ι ε : Type}
variable {l : Nat}

/-- 深さ `l` の node `n` から、添字の列に沿って辿る。 -/
def walk (child : Nat → ε → Option ν) (m : ν → ι → ε) : Nat → ν → List ι → Option ν
  | _, n, [] => some n
  | l, n, i :: is => (child l (m n i)).bind fun n' => walk child m (l + 1) n' is

variable {child : Nat → ε → Option ν} {m m' : ν → ι → ε} {root : ν}

@[simp] theorem walk_nil {n : ν} : walk child m l n [] = some n := rfl

theorem walk_cons {n : ν} {i : ι} {is : List ι} :
    walk child m l n (i :: is) = (child l (m n i)).bind fun n' => walk child m (l + 1) n' is :=
  rfl

theorem walk_append {n : ν} {p q : List ι} : walk child m l n (p ++ q)
      = (walk child m l n p).bind fun n' => walk child m (l + p.length) n' q := by
  induction p generalizing l n with
  | nil => rfl
  | cons i p ih =>
    rw [List.cons_append, walk_cons, walk_cons, Option.bind_assoc]
    congr 1
    funext n'
    rw [ih, List.length_cons, Nat.add_assoc, Nat.add_comm 1]

theorem walk_concat {n f : ν} {p : List ι} (h : walk child m l n p = some f) (i : ι) :
    walk child m l n (p ++ [i]) = child (l + p.length) (m f i) := by
  rw [walk_append, h, Option.bind_some, walk_cons]
  cases child _ _ <;> rfl

/-- 道の上の slot が同じ node を指すなら、行き先も同じである。 -/
theorem walk_congr {n : ν} {p : List ι}
    (h : ∀ q i r f, p = q ++ i :: r → walk child m l n q = some f →
      child (l + q.length) (m' f i) = child (l + q.length) (m f i)) :
    walk child m' l n p = walk child m l n p := by
  induction p generalizing l n with
  | nil => rfl
  | cons i p ih =>
    have h0 : child l _ = child l _ := h [] i p n rfl rfl
    rw [walk_cons, walk_cons, h0]
    cases hc : child l _ with
    | none => rfl
    | some n' =>
      apply ih
      intro q j r f hp hq
      have hw : walk child m l n (i :: q) = some f := by
        rw [walk_cons, hc]
        exact hq
      have := h _ j r f (by rw [hp]; rfl) hw
      rwa [List.length_cons, ← Nat.add_assoc, Nat.add_right_comm] at this

/-- どの node にも、着く道は高々一つである。 -/
def Unshared (child : Nat → ε → Option ν) (m : ν → ι → ε) (root : ν) : Prop :=
  ∀ p q f, walk child m 0 root p = some f → walk child m 0 root q = some f → p = q

/-- `n` に着く道がある。 -/
def Node (child : Nat → ε → Option ν) (m : ν → ι → ε) (root n : ν) : Prop :=
  ∃ p, walk child m 0 root p = some n

theorem Node.of_concat {p : List ι} {i : ι} {f : ν} (h : walk child m 0 root (p ++ [i]) = some f) :
    ∃ g, walk child m 0 root p = some g ∧ child p.length (m g i) = some f := by
  rw [walk_append, Option.bind_eq_some_iff] at h
  obtain ⟨g, hg, hf⟩ := h
  refine ⟨g, hg, ?_⟩
  rw [walk_cons, Option.bind_eq_some_iff] at hf
  obtain ⟨f', hf', he⟩ := hf
  rw [Nat.zero_add] at hf'
  rw [hf']
  exact he

/-- 木の node の slot が同じなら、行き先も同じである。 -/
theorem walk_eq_of_node (h : ∀ f i, Node child m root f → m' f i = m f i) {p : List ι} :
    walk child m' 0 root p = walk child m 0 root p := by
  apply walk_congr
  intro q i r f _ hq
  rw [h f i ⟨q, hq⟩]

/-- slot を空にするだけなら、辿れる道は元の木でも同じ node に着く。 -/
theorem walk_of_sub (h : ∀ f i, Node child m root f → m' f i = m f i ∨ ∀ l, child l (m' f i) = none)
    {p : List ι} : ∀ {f : ν}, walk child m' 0 root p = some f → walk child m 0 root p = some f := by
  induction p using List.reverseRecOn with
  | nil => exact fun hf => hf
  | append_singleton p i ih =>
    intro f hf
    obtain ⟨g, hg, hc⟩ := Node.of_concat hf
    rw [walk_concat (ih hg), Nat.zero_add]
    rcases h g i ⟨p, ih hg⟩ with he | he
    · rwa [← he]
    · rw [he] at hc
      cases hc

/--
**書き換えた slot を通らない道の行き先は変わらない。**

`m'` は、`p` の先の node の slot `i` と、木に属さない node のほかでは `m` と同じである。
-/
theorem walk_update (hu : Unshared child m root) {p : List ι} {n : ν} {i : ι}
    (hn : walk child m 0 root p = some n)
    (hm : ∀ f j, Node child m root f → ¬(f = n ∧ j = i) → m' f j = m f j)
    {q : List ι} (hq : ¬(p ++ [i]) <+: q) : walk child m' 0 root q = walk child m 0 root q := by
  apply walk_congr
  intro q' j r f hqe hf
  rw [hm f j ⟨q', hf⟩]
  rintro ⟨rfl, rfl⟩
  obtain rfl : p = q' := hu p q' f hn hf
  exact hq ⟨r, by rw [hqe]; simp⟩

/-- 新しい葉を slot に繋いでも、木は共有のない木である。新しい node の slot は何も指さない。 -/
theorem unshared_link [DecidableEq ι] (hu : Unshared child m root) {p : List ι} {n f : ν} {i : ι}
    (hn : walk child m 0 root p = some n) (hnone : child p.length (m n i) = none)
    (hf : ¬Node child m root f)
    (hm : ∀ g j, Node child m root g → ¬(g = n ∧ j = i) → m' g j = m g j)
    (hlink : child p.length (m' n i) = some f)
    (hempty : ∀ j, child (p.length + 1) (m' f j) = none) : (∀ q, walk child m' 0 root q =
      if q = p ++ [i] then some f else walk child m 0 root q) ∧ Unshared child m' root := by
  have hpw : walk child m' 0 root p = some n := by
    rw [walk_update hu hn hm, hn]
    intro h
    have hlen := h.length_le
    rw [List.length_append, List.length_singleton] at hlen
    omega
  have hw : ∀ q, walk child m' 0 root q =
      if q = p ++ [i] then some f else walk child m 0 root q := by
    intro q
    by_cases hq : (p ++ [i]) <+: q
    · obtain ⟨r, rfl⟩ := hq
      -- 新しい葉までは辿れ、その先には進めない
      have h1 : walk child m' 0 root (p ++ [i]) = some f := by
        rw [walk_concat hpw, Nat.zero_add, hlink]
      have h2 : walk child m 0 root (p ++ [i]) = none := by
        rw [walk_concat hn, Nat.zero_add, hnone]
      rw [walk_append, h1, walk_append, h2]
      cases r with
      | nil => simp
      | cons j r =>
        rw [Option.bind_some, walk_cons]
        simp [hempty]
    · rw [walk_update hu hn hm hq, if_neg]
      rintro rfl
      exact hq (List.prefix_refl _)
  refine ⟨hw, ?_⟩
  intro q1 q2 g h1 h2
  rw [hw] at h1 h2
  split at h1 <;> split at h2
  · rename_i e1 e2
    rw [e1, e2]
  · exact absurd ⟨q2, h1 ▸ h2⟩ hf
  · exact absurd ⟨q1, h2 ▸ h1⟩ hf
  · exact hu q1 q2 g h1 h2

end Alos.Radix
