import Armsy.Lib.Run

/-! A quantity of the state and a mark, along a run. The steps that take it up to the mark
and those that take it below come in turns, so their numbers tell on which side it is. -/

namespace Armsy

variable {σ ε β : Type*} [LinearOrder β] (level : σ → β) (mark : β)

namespace Transition

/-- The step takes the level from below the mark up to it or above. -/
def rises (τ : Transition σ ε) : Bool := level τ.pre < mark && mark ≤ level τ.post

/-- The step takes the level below the mark. -/
def falls (τ : Transition σ ε) : Bool := level τ.post < mark && mark ≤ level τ.pre

variable {level mark} {τ : Transition σ ε}

theorem rises_iff : τ.rises level mark = true ↔ level τ.pre < mark ∧ mark ≤ level τ.post := by
  simp [rises]

variable (level mark) in
/-- One step changes the balance of rises and falls as it changes side. -/
theorem rises_falls (τ : Transition σ ε) :
    (τ.rises level mark).toNat + (if mark ≤ level τ.pre then 1 else 0) =
      (τ.falls level mark).toNat + if mark ≤ level τ.post then 1 else 0 := by
  rcases lt_or_ge (level τ.pre) mark with hpre | hpre
  · rcases lt_or_ge (level τ.post) mark with hpost | hpost
    · simp [rises, falls, hpre, hpost, hpre.not_ge, hpost.not_ge]
    · simp [rises, falls, hpre, hpost, hpre.not_ge, hpost.not_gt]
  · rcases lt_or_ge (level τ.post) mark with hpost | hpost
    · simp [rises, falls, hpre, hpost, hpre.not_gt, hpost.not_ge]
    · simp [rises, falls, hpre, hpost, hpre.not_gt, hpost.not_gt]

end Transition

variable {step : σ → ε → Option σ} {s₀ s : σ} {tr : List (Transition σ ε)}

/-- From below the mark, a run has one more rise than falls when it ends above, and as many
when it ends below. -/
theorem Run.rises_eq_falls (h : Run step s₀ tr s) :
    tr.countP (Transition.rises level mark) + (if mark ≤ level s₀ then 1 else 0) =
      tr.countP (Transition.falls level mark) + if mark ≤ level s then 1 else 0 := by
  induction h with
  | nil => rfl
  | @snoc tr s s' e _ _ ih =>
    have hstep := Transition.rises_falls level mark ⟨s, e, s'⟩
    simp only [List.countP_append, List.countP_singleton]
    simp only [Bool.toNat] at hstep
    grind

end Armsy
