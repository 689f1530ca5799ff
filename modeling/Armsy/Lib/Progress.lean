import Armsy.Lib.Run

/-! Runs that get somewhere: a step that can always be taken and makes a measure smaller
leads to a goal, in no more steps than the measure says. -/

namespace Armsy

variable {σ ε : Type*} {step : σ → ε → Option σ} {s s' s₁ : σ} {e : ε}
  {tr : List (Transition σ ε)}

theorem Run.cons (hs : step s e = some s₁) (h : Run step s₁ tr s') :
    Run step s (⟨s, e, s₁⟩ :: tr) s' := by
  induction h with
  | nil => exact Run.nil.snoc hs
  | snoc _ hst ih => exact ih.snoc hst

/-- Where the steps that count make `μ` smaller, and a step makes it larger by no more than it
costs, no run has more steps that count than `μ` and the costs allow. -/
theorem Run.countP_le_of_measure {I : σ → Prop} {C : Transition σ ε → Prop} (μ : σ → ℕ)
    (counts : Transition σ ε → Bool) (cost : Transition σ ε → ℕ)
    (hs : ∀ s e s', I s → step s e = some s' → C ⟨s, e, s'⟩ →
      I s' ∧ μ s' + (counts ⟨s, e, s'⟩).toNat ≤ μ s + cost ⟨s, e, s'⟩) (hi : I s)
    (h : Run step s tr s') (hc : ∀ τ ∈ tr, C τ) :
    I s' ∧ tr.countP counts + μ s' ≤ μ s + (tr.map cost).sum := by
  induction h with
  | nil => exact ⟨hi, by simp⟩
  | @snoc tr s₁ s₂ e _ hst ih =>
    obtain ⟨hi, hle⟩ := ih fun τ hτ => hc τ (List.mem_append_left _ hτ)
    obtain ⟨hi', hlt⟩ := hs _ _ _ hi hst (hc _ (by simp))
    refine ⟨hi', ?_⟩
    have hone : [(⟨s₁, e, s₂⟩ : Transition σ ε)].countP counts =
        (counts ⟨s₁, e, s₂⟩).toNat := by
      cases hb : counts ⟨s₁, e, s₂⟩ <;> simp [hb]
    rw [List.countP_append, hone, List.map_append, List.sum_append]
    simp only [List.map_cons, List.map_nil, List.sum_cons, List.sum_nil, Nat.add_zero]
    omega

/-- Where steps with `C` keep `I` and make `μ` smaller, no run of them is longer than `μ`. -/
theorem Run.length_le_of_measure {I : σ → Prop} {C : Transition σ ε → Prop} (μ : σ → ℕ)
    (hs : ∀ s e s', I s → step s e = some s' → C ⟨s, e, s'⟩ → I s' ∧ μ s' < μ s) (hi : I s)
    (h : Run step s tr s') (hc : ∀ τ ∈ tr, C τ) : I s' ∧ tr.length + μ s' ≤ μ s := by
  obtain ⟨hi', hle⟩ := h.countP_le_of_measure μ (fun _ => true) (fun _ => 0)
    (fun s e s' hi hst hc => hs s e s' hi hst hc) hi hc
  exact ⟨hi', by simpa using hle⟩

/-- From every state with `I` a run of steps with `C` leads to the goal, when one such step
can be taken short of it and makes `μ` smaller. -/
theorem Run.exists_of_measure {I goal : σ → Prop} {C : Transition σ ε → Prop} (μ : σ → ℕ)
    (hs : ∀ s, I s → ¬ goal s →
      ∃ e s', step s e = some s' ∧ C ⟨s, e, s'⟩ ∧ I s' ∧ μ s' < μ s) (hi : I s) :
    ∃ tr s', Run step s tr s' ∧ (∀ τ ∈ tr, C τ) ∧ I s' ∧ goal s' ∧ tr.length ≤ μ s := by
  induction hn : μ s using Nat.strong_induction_on generalizing s with
  | _ n ih =>
    by_cases hg : goal s
    · exact ⟨[], s, .nil, by simp, hi, hg, Nat.zero_le _⟩
    · obtain ⟨e, s₁, hst, hc, hi₁, hlt⟩ := hs s hi hg
      obtain ⟨tr, s', hr, hcs, hi', hg', hlen⟩ := ih (μ s₁) (hn ▸ hlt) hi₁ rfl
      refine ⟨⟨s, e, s₁⟩ :: tr, s', hr.cons hst, ?_, hi', hg', ?_⟩
      · intro τ hτ
        rcases List.mem_cons.1 hτ with rfl | hτ
        · exact hc
        · exact hcs τ hτ
      · simp only [List.length_cons]
        omega

end Armsy
