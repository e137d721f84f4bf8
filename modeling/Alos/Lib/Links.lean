import Mathlib.Data.List.Nodup
import Mathlib.Logic.Function.Basic

/-!
# 要素に埋め込まれたリンクで作る列

要素が自分で `next` と `prev` を持つ連結リストである。記憶の側には列が無いので、「`head` から `next` を辿ると
列 `l` になる」ことを `Chain` で言う。双方向の列は `Linked`、後ろに加える片方向の列は `Chain` と末尾で扱う。
-/

namespace Alos

open Function List Option

/-- すべての要素の二つのリンク。 -/
structure Links (α : Type) where
  next : α → Option α
  prev : α → Option α

namespace Links

variable {α : Type}

/-! ## 辿って得られる列 -/

/-- `head` から `next` を辿ると `l` を通って `stop` に着く。 -/
def Seg (next : α → Option α) : Option α → List α → Option α → Prop
  | head, [], stop => head = stop
  | head, x :: l, stop => head = some x ∧ Seg next (next x) l stop

/-- `head` から `next` を辿った全体が `l` である。 -/
abbrev Chain (next : α → Option α) (head : Option α) (l : List α) : Prop := Seg next head l none

/-- `prev` は列の一つ前を指す。 -/
def Back (prev : α → Option α) : Option α → List α → Prop
  | _, [] => True
  | p, x :: l => prev x = p ∧ Back prev (some x) l

section Seg

variable {next next' prev prev' : α → Option α} {head stop : Option α} {l l' : List α} {x : α}

theorem Seg.congr (h : Seg next head l stop) (he : ∀ x ∈ l, next' x = next x) :
    Seg next' head l stop := by
  induction l generalizing head with
  | nil => exact h
  | cons x l ih =>
    refine ⟨h.1, ?_⟩
    rw [he x mem_cons_self]
    exact ih h.2 fun y hy => he y (mem_cons_of_mem _ hy)

theorem Back.congr {p : Option α} (h : Back prev p l) (he : ∀ x ∈ l, prev' x = prev x) :
    Back prev' p l := by
  induction l generalizing p with
  | nil => trivial
  | cons x l ih =>
    exact ⟨(he x mem_cons_self).trans h.1, ih h.2 fun y hy => he y (mem_cons_of_mem _ hy)⟩

theorem seg_append : Seg next head (l ++ l') stop ↔
    ∃ mid, Seg next head l mid ∧ Seg next mid l' stop := by
  induction l generalizing head with
  | nil =>
    constructor
    · exact fun h => ⟨head, rfl, h⟩
    · rintro ⟨mid, rfl, h⟩
      exact h
  | cons x l ih =>
    constructor
    · rintro ⟨hx, h⟩
      obtain ⟨mid, h1, h2⟩ := ih.mp h
      exact ⟨mid, ⟨hx, h1⟩, h2⟩
    · rintro ⟨mid, ⟨hx, h1⟩, h2⟩
      exact ⟨hx, ih.mpr ⟨mid, h1, h2⟩⟩

theorem Chain.unique (h : Chain next head l) (h' : Chain next head l') : l = l' := by
  induction l generalizing head l' with
  | nil =>
    cases l' with
    | nil => rfl
    | cons y l' => exact absurd ((show head = none from h).symm.trans h'.1) (by simp)
  | cons x l ih =>
    cases l' with
    | nil => exact absurd ((show head = none from h').symm.trans h.1) (by simp)
    | cons y l' =>
      have hxy : x = y := some.inj (h.1.symm.trans h'.1)
      subst hxy
      rw [ih h.2 h'.2]

/-- 終わる列は同じ要素を二度通らない。 -/
theorem Chain.nodup (h : Chain next head l) : l.Nodup := by
  induction l generalizing head with
  | nil => exact nodup_nil
  | cons x l ih =>
    refine nodup_cons.mpr ⟨fun hx => ?_, ih h.2⟩
    -- `x` からの残りが、自分より短い列と一致してしまう
    obtain ⟨a, b, rfl⟩ := append_of_mem hx
    obtain ⟨mid, -, hmid⟩ := seg_append.mp h.2
    have heq := Chain.unique h.2 hmid.2
    have := congrArg length heq
    simp only [length_append, length_cons] at this
    omega

theorem Chain.eq_nil_iff (h : Chain next head l) : head = none ↔ l = [] := by
  cases l with
  | nil => exact ⟨fun _ => rfl, fun _ => h⟩
  | cons x l => simp [h.1]

theorem Chain.eq_cons (h : Chain next (some x) l) :
    ∃ rest, l = x :: rest ∧ Chain next (next x) rest := by
  cases l with
  | nil => cases h
  | cons y rest =>
    obtain ⟨hy, hrest⟩ := h
    cases hy
    exact ⟨rest, rfl, hrest⟩

theorem Chain.head_eq (h : Chain next head l) : head = l.head? := by
  cases l with
  | nil => exact h
  | cons x l => exact h.1

theorem Chain.next_eq {a b : List α} (h : Chain next head (a ++ x :: b)) : next x = b.head? := by
  obtain ⟨mid, -, -, hrest⟩ := seg_append.mp h
  exact Chain.head_eq hrest

/-- 辿って出会う要素を並べる。`fuel` が尽きれば `none`。 -/
def follow (next : α → Option α) : Nat → Option α → Option (List α)
  | _, none => some []
  | 0, some _ => none
  | fuel + 1, some x => (follow next fuel (next x)).map (x :: ·)

theorem Chain.follow {fuel : Nat} (h : Chain next head l) (hf : l.length ≤ fuel) :
    follow next fuel head = some l := by
  induction l generalizing head fuel with
  | nil =>
    rw [show head = none from h]
    cases fuel <;> rfl
  | cons x l ih =>
    cases fuel with
    | zero => exact absurd hf (by simp)
    | succ fuel =>
      rw [h.1]
      simp only [Links.follow, ih h.2 (by simpa using hf), map_some]

end Seg

/-! ## 末尾に加える -/

section Append

variable [DecidableEq α] {next : α → Option α} {head : Option α} {l : List α} {x : α}

theorem Seg.redirect {p : α} {stop stop' : Option α} (h : Seg next head (l ++ [p]) stop)
    (hp : p ∉ l) : Seg (update next p stop') head (l ++ [p]) stop' := by
  obtain ⟨mid, h1, h2⟩ := seg_append.mp h
  refine seg_append.mpr ⟨mid, h1.congr fun y hy => ?_, h2.1, ?_⟩
  · exact update_of_ne (fun he : y = p => hp (he ▸ hy)) _ _
  · exact update_self ..

/-- 要素 `p` の次に `x` を挿し込む。 -/
theorem Chain.insert {a b : List α} {p : α} (h : Chain next head (a ++ p :: b))
    (hx : x ∉ a ++ p :: b) : Chain (update (update next x (next p)) p (some x)) head
      (a ++ p :: x :: b) := by
  have hnodup := h.nodup
  rw [nodup_append, nodup_cons] at hnodup
  obtain ⟨-, ⟨hpb, -⟩, hab⟩ := hnodup
  have hpa : p ∉ a := fun hmem => hab p hmem p mem_cons_self rfl
  have hxp : x ≠ p := fun he => hx (by simp [he])
  have hframe : ∀ y ∈ a ++ p :: b, update next x (next p) y = next y :=
    fun y hy => update_of_ne (fun he : y = x => hx (he ▸ hy)) _ _
  obtain ⟨mid, hseg, hmid, hrest⟩ := seg_append.mp h
  have hfront : Seg _ head (a ++ [p]) _ :=
    seg_append.mpr ⟨mid, hseg.congr fun y hy => hframe y (mem_append_left _ hy), hmid,
      hframe p (by simp)⟩
  rw [append_cons]
  refine seg_append.mpr ⟨some x, hfront.redirect hpa, rfl, ?_⟩
  rw [update_of_ne hxp, update_self]
  refine hrest.congr fun y hy => ?_
  rw [update_of_ne fun he : y = p => hpb (he ▸ hy)]
  exact hframe y (by simp [hy])

/-- 末尾の要素 `p` の次に `x` をつなぐ。 -/
theorem Chain.append {p : α} (h : Chain next head l) (hx : x ∉ l) (hp : l.getLast? = some p) :
    Chain (update (update next x none) p (some x)) head (l ++ [x]) := by
  obtain ⟨a, rfl⟩ := getLast?_eq_some_iff.mp hp
  obtain ⟨mid, -, -, hend⟩ := seg_append.mp h
  have hinsert := Chain.insert h hx
  rwa [show next p = none from hend, append_cons] at hinsert

end Append

/-! ## 双方向のリンク -/

section Doubly

variable [DecidableEq α]

def setNext (L : Links α) (x : α) (v : Option α) : Links α :=
  { L with next := Function.update L.next x v }

def setPrev (L : Links α) (x : α) (v : Option α) : Links α :=
  { L with prev := Function.update L.prev x v }

/-- `head` で始まる列の先頭に `x` を加える。 -/
def push (L : Links α) (head : Option α) (x : α) : Links α :=
  let L := (L.setPrev x none).setNext x head
  match head with
  | some y => L.setPrev y (some x)
  | none => L

/-- 前後の要素を互いにつなぎ、`x` を列から外す。 -/
def bypass (L : Links α) (x : α) : Links α :=
  let L := match L.prev x with
    | some p => L.setNext p (L.next x)
    | none => L
  match L.next x with
  | some n => L.setPrev n (L.prev x)
  | none => L

/-- `x` のリンクを消す。 -/
def clear (L : Links α) (x : α) : Links α := (L.setNext x none).setPrev x none

end Doubly

/-- 要素 `y` のリンクは変わらない。 -/
def Same (L L' : Links α) (y : α) : Prop := L'.next y = L.next y ∧ L'.prev y = L.prev y

/-- `head` から始まる双方向の列 `l`。 -/
structure Linked (L : Links α) (head : Option α) (l : List α) : Prop where
  chain : Chain L.next head l
  back : Back L.prev none l

variable {L L' : Links α} {head : Option α} {l : List α} {x y : α}

theorem Linked.congr (h : Linked L head l) (hs : ∀ y ∈ l, Same L L' y) : Linked L' head l :=
  ⟨h.chain.congr fun y hy => (hs y hy).1, h.back.congr fun y hy => (hs y hy).2⟩

theorem back_append {prev : α → Option α} {p : Option α} {l' : List α} :
    Back prev p (l ++ l') ↔ Back prev p l ∧ Back prev (l.getLast?.or p) l' := by
  induction l generalizing p with
  | nil => simp [Back]
  | cons x l ih =>
    have hlast : (x :: l).getLast?.or p = l.getLast?.or (some x) := by
      cases hl : l.getLast? <;> simp [getLast?_cons, hl]
    rw [cons_append, Back, Back, ih, hlast, and_assoc]

/-- 列の要素の前後は、列の要素である。 -/
theorem Linked.neighbours (h : Linked L head l) (hx : x ∈ l) :
    (∀ p, L.prev x = some p → p ∈ l) ∧ ∀ n, L.next x = some n → n ∈ l := by
  obtain ⟨a, b, rfl⟩ := append_of_mem hx
  obtain ⟨mid, -, hchain⟩ := seg_append.mp h.chain
  have hback := (back_append.mp h.back).2
  refine ⟨fun p hp => ?_, fun n hn => ?_⟩
  · rw [hback.1, or_none] at hp
    exact mem_append_left _ (mem_of_getLast? hp)
  · obtain ⟨rest, rfl, -⟩ := Chain.eq_cons (hn ▸ hchain.2)
    simp

/-- `prev` の無い要素は先頭である。 -/
theorem Linked.head_of_prev (h : Linked L head l) (hx : x ∈ l) (hp : L.prev x = none) :
    head = some x := by
  obtain ⟨a, b, rfl⟩ := append_of_mem hx
  have hback := (back_append.mp h.back).2.1
  rw [hp, or_none, eq_comm, getLast?_eq_none_iff] at hback
  subst hback
  exact h.chain.1

theorem Linked.head_prev (h : Linked L (some x) l) : L.prev x = none := by
  obtain ⟨rest, rfl, -⟩ := Chain.eq_cons h.chain
  exact h.back.1

variable [DecidableEq α]

/-! ### 先頭に加える -/

theorem push_next : (L.push head x).next = update L.next x head := by
  cases head <;> rfl

theorem push_same (hy : y ≠ x) (hh : head ≠ some y) : Same L (L.push head x) y := by
  refine ⟨by rw [push_next, update_of_ne hy], ?_⟩
  cases head with
  | none => exact update_of_ne hy _ _
  | some z =>
    have hz : y ≠ z := fun he => hh (by rw [he])
    exact (update_of_ne hz _ _).trans (update_of_ne hy _ _)

theorem Linked.push (h : Linked L head l) (hx : x ∉ l) :
    Linked (L.push head x) (some x) (x :: l) := by
  refine ⟨⟨rfl, ?_⟩, ?_⟩
  · rw [push_next, update_self]
    exact h.chain.congr fun y hy => update_of_ne (fun he : y = x => hx (he ▸ hy)) _ _
  cases l with
  | nil =>
    rw [show head = none from h.chain]
    exact ⟨update_self .., trivial⟩
  | cons z l =>
    have hzx : x ≠ z := fun he => hx (he ▸ mem_cons_self)
    have hzl : z ∉ l := (nodup_cons.mp h.chain.nodup).1
    rw [h.chain.1]
    refine ⟨?_, ?_, h.back.2.congr fun y hy => ?_⟩
    · exact (update_of_ne hzx _ _).trans (update_self ..)
    · exact update_self ..
    · have hyx : y ≠ x := fun he => hx (he ▸ mem_cons_of_mem _ hy)
      have hyz : (some z : Option α) ≠ some y := fun he => hzl (some.inj he ▸ hy)
      exact (push_same hyx hyz).2

/-! ### 途中から外す -/

theorem bypass_next : (L.bypass x).next =
    (L.prev x).elim L.next fun p => update L.next p (L.next x) := by
  unfold bypass
  cases hp : L.prev x with
  | none => cases hn : L.next x <;> simp [setPrev, hn]
  | some p =>
    simp only [elim_some]
    cases hn : (L.setNext p _).next x <;> simp [setPrev, setNext]

theorem bypass_prev : (L.bypass x).prev =
    (L.next x).elim L.prev fun n => update L.prev n (L.prev x) := by
  have hnext : ∀ p, (L.setNext p (L.next x)).next x = L.next x := by
    intro p
    by_cases hp : x = p
    · rw [hp]
      exact update_self ..
    · exact update_of_ne hp _ _
  unfold bypass
  cases hp : L.prev x with
  | none => cases hn : L.next x <;> simp [setPrev, hn, hp]
  | some p =>
    simp only [hnext]
    cases hn : L.next x <;> simp [setPrev, setNext, hp]

theorem bypass_same (hp : L.prev x ≠ some y) (hn : L.next x ≠ some y) : Same L (L.bypass x) y := by
  constructor
  · rw [bypass_next]
    cases h : L.prev x with
    | none => rfl
    | some p => exact update_of_ne (fun he : y = p => hp (by rw [h, he])) _ _
  · rw [bypass_prev]
    cases h : L.next x with
    | none => rfl
    | some n => exact update_of_ne (fun he : y = n => hn (by rw [h, he])) _ _

/-- 先頭なら次の要素が先頭になり、そうでなければ先頭は変わらない。 -/
theorem Linked.bypass (h : Linked L head l) (hx : x ∈ l) :
    Linked (L.bypass x) (if L.prev x = none then L.next x else head) (l.erase x) := by
  have hnodup := h.chain.nodup
  obtain ⟨a, b, rfl⟩ := append_of_mem hx
  rw [nodup_append] at hnodup
  obtain ⟨ha, ⟨hxb, -⟩, hab⟩ := hnodup
  have hxa : x ∉ a := fun hmem => hab x hmem x mem_cons_self rfl
  obtain ⟨mid, hseg, hmid, hrest⟩ := seg_append.mp h.chain
  obtain ⟨hback, hprev, hback'⟩ := back_append.mp h.back
  rw [or_none] at hprev
  rw [erase_append_right _ hxa, erase_cons_head]
  constructor
  · rw [bypass_next, hprev]
    rcases eq_nil_or_concat a with rfl | ⟨a', p, rfl⟩
    · simpa using hrest
    · have hpa : p ∉ a' := by
        rw [concat_eq_append, nodup_append] at ha
        exact fun hmem => ha.2.2 p hmem p (mem_singleton_self p) rfl
      have hpb : p ∉ b := fun hmem => hab p (by simp) p (mem_cons_of_mem _ hmem) rfl
      simp only [concat_eq_append, getLast?_concat, reduceCtorEq, if_false, elim_some] at hseg ⊢
      refine seg_append.mpr ⟨L.next x, hseg.redirect hpa, hrest.congr fun y hy => ?_⟩
      exact update_of_ne (fun he : y = p => hpb (he ▸ hy)) _ _
  · rw [bypass_prev]
    cases b with
    | nil =>
      rw [show L.next x = none from hrest, append_nil]
      exact hback
    | cons n b =>
      have hna : n ∉ a := fun hmem => hab n hmem n (by simp) rfl
      have hnb : n ∉ b := (nodup_cons.mp (Chain.nodup hrest)).1
      rw [hrest.1, elim_some]
      refine back_append.mpr ⟨hback.congr fun y hy => ?_, ?_, hback'.2.congr fun y hy => ?_⟩
      · exact update_of_ne (fun he : y = n => hna (he ▸ hy)) _ _
      · rw [update_self, hprev, or_none]
      · exact update_of_ne (fun he : y = n => hnb (he ▸ hy)) _ _

/-- リンクの無い要素は、外しても何も変わらない。 -/
theorem clear_eq (hn : L.next x = none) (hp : L.prev x = none) : L.clear x = L := by
  have hnext : update L.next x none = L.next := by rw [← hn, update_eq_self]
  have hprev : update L.prev x none = L.prev := by rw [← hp, update_eq_self]
  simp only [clear, setNext, setPrev, hnext, hprev]

theorem bypass_eq (hn : L.next x = none) (hp : L.prev x = none) : L.bypass x = L := by
  simp only [bypass, hp, hn]

theorem clear_same (hy : y ≠ x) : Same L (L.clear x) y :=
  ⟨update_of_ne hy _ _, update_of_ne hy _ _⟩

end Links

end Alos
