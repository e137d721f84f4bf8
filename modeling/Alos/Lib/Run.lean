import Mathlib.Tactic.Common

/-!
# 部分的な遷移系の実行

`step` は失敗しうる一手、`legal` はその手が許されるための条件である。
`Reach` は「初期状態から許された手だけを並べて届く」ことを、手の列とともに言う。
-/

namespace Alos.Run

variable {σ α : Type}

/-- `s₀` から許された手の列 `as` で `s` に届く。 -/
inductive Reach (step : σ → α → Option σ) (legal : σ → α → Prop) (s₀ : σ) :
    List α → σ → Prop
  | nil : Reach step legal s₀ [] s₀
  | snoc {as : List α} {s s' : σ} {a : α} : Reach step legal s₀ as s → legal s a →
      step s a = some s' → Reach step legal s₀ (as ++ [a]) s'

variable {step : σ → α → Option σ} {legal legal' : σ → α → Prop} {s₀ s : σ} {as : List α}

/-- 一手が保つ性質は、届くすべての状態で成り立つ。 -/
theorem Reach.invariant {P : σ → Prop} (h0 : P s₀)
    (hstep : ∀ s a s', P s → legal s a → step s a = some s' → P s')
    (h : Reach step legal s₀ as s) : P s := by
  induction h with
  | nil => exact h0
  | snoc _ hl hs ih => exact hstep _ _ _ ih hl hs

theorem Reach.cons {s₁ : σ} {a : α} (hl : legal s₀ a) (hs : step s₀ a = some s₁)
    (h : Reach step legal s₁ as s) : Reach step legal s₀ (a :: as) s := by
  induction h with
  | nil => exact .snoc .nil hl hs
  | snoc _ hleg hs' ih => exact .snoc ih hleg hs'

theorem Reach.exists_and {P : σ → Prop} (h : Reach step legal s₀ as s)
    (hP : Reach step legal s₀ as s → P s) : ∃ s, Reach step legal s₀ as s ∧ P s := ⟨s, h, hP h⟩

/-- 許された手を順に進める。 -/
def execute (step : σ → α → Option σ) (legal : σ → α → Prop) [∀ s a, Decidable (legal s a)]
    (s : σ) : List α → Option σ
  | [] => some s
  | a :: as => if legal s a then (step s a).bind (execute step legal · as) else none

theorem reach_of_execute [∀ s a, Decidable (legal s a)] {s' : σ}
    (h : execute step legal s as = some s') : Reach step legal s as s' := by
  induction as generalizing s with
  | nil =>
    obtain rfl := Option.some.inj h
    exact .nil
  | cons a as ih =>
    obtain ⟨hl, hrest⟩ := Option.ite_none_right_eq_some.mp h
    obtain ⟨s₁, hs, hrest⟩ := Option.bind_eq_some_iff.mp hrest
    exact .cons hl hs (ih hrest)

/-- 手を進めてみた先に届く。 -/
theorem reach_get [∀ s a, Decidable (legal s a)] (h : (execute step legal s as).isSome = true) :
    Reach step legal s as ((execute step legal s as).get h) :=
  reach_of_execute (Option.some_get h).symm

/-- 手を進めてみて `P` なら、`P` の状態に届く。 -/
theorem exists_reach [∀ s a, Decidable (legal s a)] {P : σ → Prop} [DecidablePred P]
    (h : (execute step legal s as).any (P ·) = true) : ∃ s', Reach step legal s as s' ∧ P s' := by
  obtain ⟨s', hs, hp⟩ := (Option.any_eq_true _ _).mp h
  exact ⟨s', reach_of_execute hs, of_decide_eq_true hp⟩

theorem exists_reach_of [∀ s a, Decidable (legal s a)] {P Q : σ → Prop} [DecidablePred P]
    (h : (execute step legal s as).any (P ·) = true)
    (hQ : ∀ s', Reach step legal s as s' → P s' → Q s') : ∃ s', Reach step legal s as s' ∧
      Q s' := by
  obtain ⟨s', hs, hp⟩ := exists_reach h
  exact ⟨s', hs, hQ s' hs hp⟩

theorem Reach.mono (hl : ∀ s a, legal s a → legal' s a) (h : Reach step legal s₀ as s) :
    Reach step legal' s₀ as s := by
  induction h with
  | nil => exact .nil
  | snoc _ hleg hs ih => exact .snoc ih (hl _ _ hleg) hs

end Alos.Run
