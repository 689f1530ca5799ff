import Mathlib.Tactic

/-! Runs of a labelled step function. A step may refuse (`none`); a run records
every transition it took, so that a property of the whole run is a property of
the members of that list. The rules below reduce run properties to one step. -/

namespace Armsy

variable {σ ε : Type*}

/-- One step taken: the state before it, its event and the state after it. -/
structure Transition (σ ε : Type*) where
  pre : σ
  event : ε
  post : σ

/-- `Run step s₀ tr s`: the transitions `tr`, taken in order from `s₀`, lead to `s`. -/
inductive Run (step : σ → ε → Option σ) (s₀ : σ) : List (Transition σ ε) → σ → Prop
  | nil : Run step s₀ [] s₀
  | snoc {tr : List (Transition σ ε)} {s s' : σ} {e : ε} :
      Run step s₀ tr s → step s e = some s' → Run step s₀ (tr ++ [⟨s, e, s'⟩]) s'

variable {step : σ → ε → Option σ} {s₀ s : σ} {tr : List (Transition σ ε)}

/-- An invariant that every step keeps, as long as the steps meet `C`. -/
theorem Run.invariant_of {I : σ → Prop} {C : Transition σ ε → Prop} (h0 : I s₀)
    (hs : ∀ s e s', I s → step s e = some s' → C ⟨s, e, s'⟩ → I s')
    (h : Run step s₀ tr s) (hc : ∀ τ ∈ tr, C τ) : I s := by
  induction h with
  | nil => exact h0
  | snoc hr hst ih =>
    exact hs _ _ _ (ih fun τ hτ => hc τ (List.mem_append_left _ hτ)) hst (hc _ (by simp))

theorem Run.invariant {I : σ → Prop} (h0 : I s₀)
    (hs : ∀ s e s', I s → step s e = some s' → I s') (h : Run step s₀ tr s) : I s :=
  Run.invariant_of (C := fun _ => True) h0 (fun s e s' hi hst _ => hs s e s' hi hst) h
    (fun _ _ => trivial)

theorem Run.post_of_snoc {τ : Transition σ ε} (h : Run step s₀ (tr ++ [τ]) s) : τ.post = s := by
  generalize he : tr ++ [τ] = tr' at h
  cases h with
  | nil => simp at he
  | snoc _ _ =>
    obtain ⟨-, hτ⟩ := List.append_inj' he rfl
    rw [List.singleton_inj.1 hτ]

/-- Cut at one of its transitions, a run is a run up to there and a step. -/
theorem Run.upTo (h : Run step s₀ tr s) {tr₁ tr₂ : List (Transition σ ε)} {τ : Transition σ ε}
    (he : tr = tr₁ ++ τ :: tr₂) : Run step s₀ tr₁ τ.pre ∧ step τ.pre τ.event = some τ.post := by
  induction h generalizing tr₂ with
  | nil => simp at he
  | snoc hr hst ih =>
    rcases List.eq_nil_or_concat tr₂ with rfl | ⟨tr₃, τ', rfl⟩
    · obtain ⟨rfl, hτ⟩ := List.append_inj' he rfl
      obtain rfl := List.singleton_inj.1 hτ
      exact ⟨hr, hst⟩
    · rw [List.concat_eq_append, ← List.cons_append, ← List.append_assoc] at he
      exact ih (List.append_inj' he rfl).1

/-- What comes after one of its transitions is a run from the state that one leads to. -/
theorem Run.after (h : Run step s₀ tr s) {tr₁ tr₂ : List (Transition σ ε)} {τ : Transition σ ε}
    (he : tr = tr₁ ++ τ :: tr₂) : Run step τ.post tr₂ s := by
  induction h generalizing tr₂ with
  | nil => simp at he
  | snoc hr hst ih =>
    rcases List.eq_nil_or_concat tr₂ with rfl | ⟨tr₃, τ', rfl⟩
    · obtain ⟨-, hτ⟩ := List.append_inj' he rfl
      obtain rfl := List.singleton_inj.1 hτ
      exact .nil
    · rw [List.concat_eq_append, ← List.cons_append, ← List.append_assoc] at he
      obtain ⟨rfl, hτ⟩ := List.append_inj' he rfl
      obtain rfl := List.singleton_inj.1 hτ
      rw [List.concat_eq_append]
      exact (ih rfl).snoc hst

/-- Every transition of a run is a step, taken at the end of a run made of the
transitions before it. -/
theorem Run.split (h : Run step s₀ tr s) {τ : Transition σ ε} (hτ : τ ∈ tr) :
    ∃ tr₁ tr₂, tr = tr₁ ++ τ :: tr₂ ∧ Run step s₀ tr₁ τ.pre ∧ step τ.pre τ.event = some τ.post := by
  obtain ⟨tr₁, tr₂, he⟩ := List.append_of_mem hτ
  exact ⟨tr₁, tr₂, he, h.upTo he⟩

/-- Where one step has `P` exactly when it meets `C`, as far as `P` has held so
far, a run whose steps have `D` has `P` throughout exactly when all meet `C`. -/
theorem Run.forall_iff_of {I : σ → Prop} {D P C : Transition σ ε → Prop} (h0 : I s₀)
    (hiff : ∀ s e s', I s → step s e = some s' → D ⟨s, e, s'⟩ → (P ⟨s, e, s'⟩ ↔ C ⟨s, e, s'⟩))
    (hs : ∀ s e s', I s → step s e = some s' → D ⟨s, e, s'⟩ → P ⟨s, e, s'⟩ → I s')
    (h : Run step s₀ tr s) (hd : ∀ τ ∈ tr, D τ) : (∀ τ ∈ tr, P τ) ↔ ∀ τ ∈ tr, C τ := by
  induction h with
  | nil => simp
  | @snoc tr s s' e hr hst ih =>
    simp only [List.forall_mem_append, List.forall_mem_singleton] at hd ⊢
    rw [ih hd.1]
    refine and_congr_right fun hc => hiff s e s' ?_ hst hd.2
    refine Run.invariant_of (C := fun τ => D τ ∧ P τ) h0 ?_ hr ?_
    · intro s e s' hi hst hc
      exact hs s e s' hi hst hc.1 hc.2
    · intro τ hτ
      exact ⟨hd.1 τ hτ, (ih hd.1).2 hc τ hτ⟩

theorem Run.forall_iff {I : σ → Prop} {P C : Transition σ ε → Prop} (h0 : I s₀)
    (hiff : ∀ s e s', I s → step s e = some s' → (P ⟨s, e, s'⟩ ↔ C ⟨s, e, s'⟩))
    (hs : ∀ s e s', I s → step s e = some s' → P ⟨s, e, s'⟩ → I s')
    (h : Run step s₀ tr s) : (∀ τ ∈ tr, P τ) ↔ ∀ τ ∈ tr, C τ :=
  h.forall_iff_of (D := fun _ => True) h0 (fun s e s' hi hst _ => hiff s e s' hi hst)
    (fun s e s' hi hst _ => hs s e s' hi hst) fun _ _ => trivial

/-- What is false at first and comes true at the steps that meet `C`, to stay true, holds
after a run exactly when one of its steps meets `C`. -/
theorem Run.exists_iff {P : σ → Prop} {C : Transition σ ε → Prop} (h0 : ¬ P s₀)
    (hs : ∀ s e s', step s e = some s' → (P s' ↔ P s ∨ C ⟨s, e, s'⟩))
    (h : Run step s₀ tr s) : P s ↔ ∃ τ ∈ tr, C τ := by
  induction h with
  | nil => simpa using h0
  | @snoc tr s s' e hr hst ih =>
    rw [hs s e s' hst, ih]
    simp [or_and_right, exists_or]

/-- Seen through `f`, a run is a run of the steps that `g` picks out, when the
other steps cannot be seen. -/
theorem Run.project {σ' ε' : Type*} {step' : σ' → ε' → Option σ'} (f : σ → σ')
    (g : σ → ε → Option ε')
    (hstep : ∀ s e s' e', step s e = some s' → g s e = some e' → step' (f s) e' = some (f s'))
    (hrest : ∀ s e s', step s e = some s' → g s e = none → f s' = f s) (h : Run step s₀ tr s) :
    Run step' (f s₀)
      (tr.filterMap fun τ => (g τ.pre τ.event).map fun e' => ⟨f τ.pre, e', f τ.post⟩) (f s) := by
  induction h with
  | nil => exact .nil
  | @snoc tr s s' e hr hst ih =>
    rw [List.filterMap_append]
    cases hg : g s e with
    | none =>
      rw [hrest s e s' hst hg]
      simpa [hg] using ih
    | some e' => simpa [hg] using ih.snoc (hstep s e s' e' hst hg)

/-- Take the events of a list in order, for as long as the step function accepts them. -/
def follow (step : σ → ε → Option σ) : σ → List ε → Option (List (Transition σ ε) × σ)
  | s, [] => some ([], s)
  | s, e :: es =>
    match step s e with
    | none => none
    | some s' => (follow step s' es).map fun r => (⟨s, e, s'⟩ :: r.1, r.2)

theorem Run.follow {es : List ε} (h : Run step s₀ tr s) {tr' : List (Transition σ ε)} {s' : σ}
    (hf : Armsy.follow step s es = some (tr', s')) : Run step s₀ (tr ++ tr') s' := by
  induction es generalizing tr s tr' with
  | nil =>
    simp only [Armsy.follow, Option.some.injEq, Prod.mk.injEq] at hf
    obtain ⟨rfl, rfl⟩ := hf
    simpa using h
  | cons e es ih =>
    unfold Armsy.follow at hf
    split at hf
    · cases hf
    · rename_i s₁ hst
      simp only [Option.map_eq_some_iff, Prod.mk.injEq] at hf
      obtain ⟨⟨tr₂, s₂⟩, hf, rfl, rfl⟩ := hf
      simpa using ih (h.snoc hst) hf

theorem follow_events {es : List ε} (hf : follow step s es = some (tr, s₀)) :
    tr.map Transition.event = es := by
  induction es generalizing s tr with
  | nil =>
    simp only [follow, Option.some.injEq, Prod.mk.injEq] at hf
    obtain ⟨rfl, -⟩ := hf
    rfl
  | cons e es ih =>
    unfold follow at hf
    split at hf
    · cases hf
    · simp only [Option.map_eq_some_iff, Prod.mk.injEq] at hf
      obtain ⟨⟨tr₂, s₂⟩, hf, rfl, rfl⟩ := hf
      simp [ih hf]

/-- A list of events that the step function accepts is a run, and what evaluates
to true of it is true of the run. -/
theorem exists_run (step : σ → ε → Option σ) (s₀ : σ) (es : List ε)
    {P : List (Transition σ ε) → σ → Prop} [∀ tr s, Decidable (P tr s)]
    (h : (follow step s₀ es).any (fun r => decide (P r.1 r.2)) = true) :
    ∃ tr s, Run step s₀ tr s ∧ tr.map Transition.event = es ∧ P tr s := by
  rw [Option.any_eq_true] at h
  obtain ⟨⟨tr, s⟩, hf, hp⟩ := h
  exact ⟨tr, s, by simpa using Run.nil.follow hf, follow_events hf, of_decide_eq_true hp⟩

end Armsy
