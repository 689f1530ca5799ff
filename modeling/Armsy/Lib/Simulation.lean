import Armsy.Lib.Run

/-! Forward simulation. Where every step of one system is matched by a run of another, so is
every run; the relation between the two may speak of what both have done so far. -/

namespace Armsy

variable {σ ε σ' ε' : Type*} {step : σ → ε → Option σ} {step' : σ' → ε' → Option σ'}
  {s₀ s s' : σ} {t₀ : σ'} {tr tr' : List (Transition σ ε)}

theorem Run.append (h : Run step s₀ tr s) (h' : Run step s tr' s') :
    Run step s₀ (tr ++ tr') s' := by
  induction h' with
  | nil => rwa [List.append_nil]
  | snoc _ hst ih =>
    rw [← List.append_assoc]
    exact ih.snoc hst

theorem Run.simulate {R : List (Transition σ ε) → σ → List (Transition σ' ε') → σ' → Prop}
    (h0 : R [] s₀ [] t₀)
    (hs : ∀ tr s e s' tr' t, R tr s tr' t → step s e = some s' →
      ∃ tr₂ t', Run step' t tr₂ t' ∧ R (tr ++ [⟨s, e, s'⟩]) s' (tr' ++ tr₂) t')
    (h : Run step s₀ tr s) : ∃ tr' t, Run step' t₀ tr' t ∧ R tr s tr' t := by
  induction h with
  | nil => exact ⟨[], t₀, .nil, h0⟩
  | @snoc tr s s' e _ hst ih =>
    obtain ⟨tr', t, hr', hR⟩ := ih
    obtain ⟨tr₂, t', hr₂, hR'⟩ := hs tr s e s' tr' t hR hst
    exact ⟨tr' ++ tr₂, t', hr'.append hr₂, hR'⟩

end Armsy
