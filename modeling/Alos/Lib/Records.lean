import Mathlib.Algebra.Order.Ring.Nat
import Mathlib.Tactic.Common
import Mathlib.Algebra.BigOperators.Group.List.Basic

/-!
# 可変長の record の列

`read o` は位置 `o` にある record、`len` はその長さである。次の record は、長さの分だけ先にある。
`Tiles` は「`l` が位置 `o` から `e` までを隙間なく敷き詰める」ことを言う。

* `seek` — 条件を満たす最初の record の位置
* `Paged` — 同じ大きさの頁ごとに区切れる列
-/

namespace Alos.Records

open List

variable {α : Type} (len : α → Nat)

/-- 列の長さの和。 -/
def span (l : List α) : Nat := (l.map len).sum

/-- `l` は `o` から `e` までを敷き詰める。 -/
def Tiles (read : Nat → α) : Nat → List α → Nat → Prop
  | o, [], e => o = e
  | o, x :: l, e => read o = x ∧ 0 < len x ∧ Tiles read (o + len x) l e

instance instDecidableTiles [DecidableEq α] (read : Nat → α) : ∀ (o : Nat) (l : List α) (e : Nat),
    Decidable (Tiles len read o l e)
  | o, [], e => inferInstanceAs (Decidable (o = e))
  | o, x :: l, e =>
    have := instDecidableTiles read (o + len x) l e
    inferInstanceAs (Decidable (read o = x ∧ 0 < len x ∧ Tiles len read (o + len x) l e))

/-- 条件を満たす最初の record の位置。 -/
def seek (p : α → Bool) : Nat → List α → Option Nat
  | _, [] => none
  | o, x :: l => if p x then some o else seek p (o + len x) l

/-- 条件を満たす最初の record の位置と、その直前の record の位置。 -/
def seekPrev (p : α → Bool) : Option Nat → Nat → List α → Option (Nat × Option Nat)
  | _, _, [] => none
  | prev, o, x :: l => if p x then some (o, prev) else seekPrev p (some o) (o + len x) l

variable {len} {read read' : Nat → α} {p : α → Bool} {o e : Nat} {x : α} {l l₁ l₂ : List α}

@[simp] theorem span_nil : span len [] = 0 := rfl

@[simp] theorem span_cons : span len (x :: l) = len x + span len l :=
  sum_cons

@[simp] theorem span_append : span len (l₁ ++ l₂) = span len l₁ + span len l₂ := by
  simp [span]

/-! ## 敷き詰め -/

theorem Tiles.end_eq : ∀ {l : List α} {o : Nat}, Tiles len read o l e → e = o + span len l
  | [], o, h => by simpa using h.symm
  | x :: l, o, ⟨_, _, h⟩ => by
    rw [h.end_eq, span_cons]
    omega

theorem tiles_append : ∀ {l₁ : List α} {o : Nat},
    Tiles len read o (l₁ ++ l₂) e ↔
      Tiles len read o l₁ (o + span len l₁) ∧ Tiles len read (o + span len l₁) l₂ e
  | [], o => by simp [Tiles]
  | x :: l₁, o => by
    simp only [cons_append, Tiles, span_cons, tiles_append, and_assoc, Nat.add_assoc]

theorem Tiles.read_eq (h : Tiles len read o (l₁ ++ x :: l₂) e) :
    read (o + span len l₁) = x := (tiles_append.mp h).2.1

theorem Tiles.le (h : Tiles len read o (l₁ ++ x :: l₂) e) : o + span len l₁ + len x ≤ e := by
  rw [h.end_eq, span_append, span_cons]
  omega

theorem Tiles.next (h : Tiles len read o l e) (ho : o < e) :
    o + len (read o) ≤ e ∧ ∃ l', Tiles len read (o + len (read o)) l' e := by
  cases l with
  | nil => exact absurd (show o = e from h) (by omega)
  | cons x l =>
    obtain ⟨rfl, -, h⟩ := h
    exact ⟨by have := h.end_eq; omega, l, h⟩

/-- 長さは正なので、record の数は範囲の大きさを超えない。 -/
theorem Tiles.length_le : ∀ {l : List α} {o : Nat}, Tiles len read o l e → o + l.length ≤ e
  | [], o, h => Nat.le_of_eq h
  | x :: l, o, ⟨_, hx, h⟩ => by
    have := h.length_le
    rw [length_cons]
    omega

/-- 同じ範囲を敷き詰める列は一つしかない。 -/
theorem Tiles.unique : ∀ {l l' : List α} {o : Nat}, Tiles len read o l e → Tiles len read o l' e →
    l = l'
  | [], [], _, _, _ => rfl
  | [], x :: l', o, h, h' => by
    have := h'.length_le
    rw [show o = e from h, length_cons] at this
    omega
  | x :: l, [], o, h, h' => by
    have := h.length_le
    rw [show o = e from h', length_cons] at this
    omega
  | x :: l, x' :: l', o, ⟨hx, _, h⟩, ⟨hx', _, h'⟩ => by
    obtain rfl := hx.symm.trans hx'
    rw [h.unique h']

/-- それぞれの record が同じように読めるなら、敷き詰めも同じである。 -/
theorem Tiles.congr : ∀ {l : List α} {o : Nat}, Tiles len read o l e →
    (∀ o' x, x ∈ l → o ≤ o' → o' + len x ≤ e → read o' = x → read' o' = x) →
    Tiles len read' o l e
  | [], _, h, _ => h
  | x :: l, o, ⟨hx, hpos, h⟩, hread => by
    have hle := h.length_le
    refine ⟨hread o x mem_cons_self (Nat.le_refl o) (by omega) hx, hpos, h.congr ?_⟩
    intro o' y hy ho' he
    exact hread o' y (mem_cons_of_mem _ hy) (by omega) he

/-! ## 探索 -/

theorem seek_eq_none : ∀ {l : List α} {o : Nat}, seek len p o l = none ↔ ∀ y ∈ l, p y = false
  | [], o => by simp [seek]
  | x :: l, o => by
    by_cases hx : p x = true
    · simp [seek, hx]
    · simp [seek, hx, seek_eq_none]

/-- 見つけた位置の手前には、条件を満たす record がない。 -/
theorem seek_eq_some : ∀ {l : List α} {o o' : Nat}, seek len p o l = some o' →
    ∃ l₁ x l₂, l = l₁ ++ x :: l₂ ∧ o' = o + span len l₁ ∧ p x = true ∧ ∀ y ∈ l₁, p y = false
  | [], _, _, h => by cases h
  | x :: l, o, o', h => by
    by_cases hx : p x = true
    · rw [seek, if_pos hx] at h
      cases h
      exact ⟨[], x, l, rfl, rfl, hx, by simp⟩
    · rw [seek, if_neg hx] at h
      obtain ⟨l₁, y, l₂, rfl, rfl, hy, hl₁⟩ := seek_eq_some h
      refine ⟨x :: l₁, y, l₂, rfl, by rw [span_cons, Nat.add_assoc], hy, ?_⟩
      intro z hz
      rcases mem_cons.mp hz with rfl | hz
      · simpa using hx
      · exact hl₁ z hz

/-- 直前の record は、列の先頭で見つけたのでなければ、一つ手前の record である。 -/
theorem seekPrev_eq_some : ∀ {l : List α} {prev : Option Nat} {o : Nat} {f : Nat × Option Nat},
    seekPrev len p prev o l = some f →
    ∃ l₁ x l₂, l = l₁ ++ x :: l₂ ∧ p x = true ∧ (∀ y ∈ l₁, p y = false) ∧ f.1 = o + span len l₁ ∧
      ((l₁ = [] ∧ f.2 = prev) ∨ ∃ l₀ z, l₁ = l₀ ++ [z] ∧ f.2 = some (o + span len l₀))
  | [], _, _, _, h => by cases h
  | x :: l, prev, o, f, h => by
    by_cases hx : p x = true
    · rw [seekPrev, if_pos hx] at h
      cases h
      exact ⟨[], x, l, rfl, hx, by simp, rfl, .inl ⟨rfl, rfl⟩⟩
    rw [seekPrev, if_neg hx] at h
    obtain ⟨l₁, y, l₂, rfl, hy, hl₁, hf, hprev⟩ := seekPrev_eq_some h
    refine ⟨x :: l₁, y, l₂, rfl, hy, ?_, by rw [hf, span_cons, Nat.add_assoc], .inr ?_⟩
    · intro z hz
      rcases mem_cons.mp hz with rfl | hz
      · simpa using hx
      · exact hl₁ z hz
    · rcases hprev with ⟨rfl, hf2⟩ | ⟨l₀, z, rfl, hf2⟩
      · exact ⟨[], x, rfl, hf2⟩
      · exact ⟨x :: l₀, z, rfl, by rw [hf2, span_cons, Nat.add_assoc]⟩

/-- 手前に条件を満たす record がなければ、そこで見つかる。 -/
theorem seekPrev_append {y : α} (hx : p x = true) : ∀ {l₁ : List α} {prev : Option Nat} {o : Nat},
    (∀ z ∈ l₁ ++ [y], p z = false) → seekPrev len p prev o (l₁ ++ y :: x :: l₂)
      = some (o + span len (l₁ ++ [y]), some (o + span len l₁))
  | [], _, o, h => by
    simp [seekPrev, h y (by simp), hx]
  | z :: l₁, _, o, h => by
    rw [cons_append, seekPrev, if_neg (by simp [h z (by simp)]),
      seekPrev_append hx fun z' hz' => h z' (mem_cons_of_mem _ hz'), cons_append,
      span_cons, span_cons, Nat.add_assoc, Nat.add_assoc]

/-! ## 頁 -/

/-- 列は、大きさ `c` の頁ごとに区切れる。 -/
def Paged (len : α → Nat) (c : Nat) (l : List α) : Prop :=
  ∃ pages : List (List α), l = pages.flatten ∧ ∀ b ∈ pages, span len b = c

theorem span_flatten {c : Nat} {pages : List (List α)} (h : ∀ b ∈ pages, span len b = c) :
    span len pages.flatten = pages.length * c := by
  induction pages with
  | nil => simp
  | cons b pages ih =>
    rw [flatten_cons, span_append, h b mem_cons_self,
      ih fun b' hb' => h b' (mem_cons_of_mem _ hb'), length_cons, Nat.succ_mul,
      Nat.add_comm]

/-- `j` 番の頁は、`j * c` から次の頁の先頭までを敷き詰める。 -/
theorem Tiles.page {c j : Nat} {pages : List (List α)} {b : List α}
    (h : Tiles len read 0 pages.flatten e) (hfull : ∀ b ∈ pages, span len b = c)
    (hb : pages[j]? = some b) : Tiles len read (j * c) b ((j + 1) * c) := by
  obtain ⟨hj, rfl⟩ := List.getElem?_eq_some_iff.mp hb
  rw [← List.take_append_drop j pages, ← List.getElem_cons_drop, List.flatten_append,
    List.flatten_cons, tiles_append, tiles_append] at h
  have hstart : span len (pages.take j).flatten = j * c := by
    rw [span_flatten fun b hb => hfull b (List.mem_of_mem_take hb), List.length_take,
      Nat.min_eq_left (Nat.le_of_lt hj)]
  have hpage := h.2.1
  rwa [hstart, hfull _ (List.getElem_mem hj), Nat.zero_add, ← Nat.succ_mul] at hpage

theorem exists_page : ∀ {pages : List (List α)} {l₁ : List α}, pages.flatten = l₁ ++ x :: l₂ →
    ∃ P b₁ b₂ Q, pages = P ++ (b₁ ++ x :: b₂) :: Q ∧ l₁ = P.flatten ++ b₁ ∧ l₂ = b₂ ++ Q.flatten
  | [], l₁, h => by simp at h
  | b :: pages, l₁, h => by
    rw [flatten_cons, append_eq_append_iff] at h
    rcases h with ⟨l, rfl, h⟩ | ⟨l, rfl, h⟩
    · obtain ⟨P, b₁, b₂, Q, rfl, rfl, rfl⟩ := exists_page h
      exact ⟨b :: P, b₁, b₂, Q, rfl, by simp, rfl⟩
    cases l with
    | nil =>
      have h' : pages.flatten = [] ++ x :: l₂ := h.symm
      obtain ⟨P, b₁, b₂, Q, rfl, hnil, rfl⟩ := exists_page h'
      exact ⟨(l₁ ++ []) :: P, b₁, b₂, Q, rfl, by simp [← hnil], rfl⟩
    | cons y l =>
      obtain ⟨rfl, rfl⟩ := cons.inj h
      exact ⟨[], l₁, l, pages, rfl, by simp, rfl⟩

section Paged

variable {c : Nat} {y z : α}

theorem Paged.replace {m : List α} (h : Paged len c (l₁ ++ x :: l₂)) (hm : span len m = len x) :
    Paged len c (l₁ ++ m ++ l₂) := by
  obtain ⟨pages, hl, hfull⟩ := h
  obtain ⟨P, b₁, b₂, Q, rfl, rfl, rfl⟩ := exists_page hl.symm
  refine ⟨P ++ (b₁ ++ m ++ b₂) :: Q, by simp, ?_⟩
  intro b hb
  rcases mem_append.mp hb with hb | hb
  · exact hfull b (mem_append_left _ hb)
  · rcases mem_cons.mp hb with rfl | hb
    · have := hfull (b₁ ++ x :: b₂) (by simp)
      simp only [span_append, span_cons] at this ⊢
      omega
    · exact hfull b (by simp [hb])

/-- 頁の先頭にない record は、直前の record と同じ頁にある。 -/
theorem exists_page_pair {pages : List (List α)} (hl : pages.flatten = l₁ ++ y :: x :: l₂)
    (hfull : ∀ b ∈ pages, span len b = c) (hx : span len (l₁ ++ [y]) % c ≠ 0) :
    ∃ P b₁ b₂ Q, pages = P ++ (b₁ ++ y :: x :: b₂) :: Q ∧ l₁ = P.flatten ++ b₁ ∧
      l₂ = b₂ ++ Q.flatten := by
  have hl' : pages.flatten = (l₁ ++ [y]) ++ x :: l₂ := by
    rw [hl, append_assoc]
    rfl
  obtain ⟨P, b₁, b₂, Q, rfl, hpre, rfl⟩ := exists_page hl'
  rcases eq_nil_or_concat b₁ with rfl | ⟨b₀, y', rfl⟩
  · -- 頁の先頭なら、そこまでの長さは頁の大きさの倍数である
    rw [hpre, append_nil, span_flatten fun b hb => hfull b (mem_append_left _ hb),
      Nat.mul_mod_left] at hx
    exact absurd rfl hx
  · rw [concat_eq_append] at hpre
    obtain ⟨rfl, hy⟩ := append_inj' (hpre.trans (append_assoc _ _ _).symm) rfl
    obtain rfl := singleton_inj.mp hy
    exact ⟨P, b₀, b₂, Q, by simp, rfl, rfl⟩

section

variable (h : Paged len c (l₁ ++ y :: x :: l₂)) (hx : span len (l₁ ++ [y]) % c ≠ 0)
include h hx

/-- 頁の先頭にない record を、直前の record に合わせる。 -/
theorem Paged.merge (hz : len z = len y + len x) : Paged len c (l₁ ++ z :: l₂) := by
  obtain ⟨pages, hl, hfull⟩ := h
  obtain ⟨P, b₁, b₂, Q, rfl, rfl, rfl⟩ := exists_page_pair hl.symm hfull hx
  refine ⟨P ++ (b₁ ++ z :: b₂) :: Q, by simp, ?_⟩
  intro b hb
  rcases mem_append.mp hb with hb | hb
  · exact hfull b (mem_append_left _ hb)
  · rcases mem_cons.mp hb with rfl | hb
    · have := hfull (b₁ ++ y :: x :: b₂) (by simp)
      simp only [span_append, span_cons] at this ⊢
      omega
    · exact hfull b (by simp [hb])

theorem Paged.pair_le : len y + len x ≤ c := by
  obtain ⟨pages, hl, hfull⟩ := h
  obtain ⟨P, b₁, b₂, Q, rfl, -, -⟩ := exists_page_pair hl.symm hfull hx
  have := hfull (b₁ ++ y :: x :: b₂) (by simp)
  simp only [span_append, span_cons] at this
  omega

end

theorem Paged.concat (h : Paged len c l) (hx : len x = c) : Paged len c (l ++ [x]) := by
  obtain ⟨pages, rfl, hfull⟩ := h
  refine ⟨pages ++ [[x]], by simp, ?_⟩
  intro b hb
  rcases mem_append.mp hb with hb | hb
  · exact hfull b hb
  · obtain rfl := mem_singleton.mp hb
    simpa using hx

end Paged

end Alos.Records
