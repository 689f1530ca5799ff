import Armsy.Model.ThreadLoops

/-! `t_loop_in_this_thread` against the loops that are alive. The constructor sets it and
nothing takes it back, so it keeps the first loop that its thread has ever made. -/

namespace Armsy
namespace ThreadLoops

/-- Every thread's `t_loop_in_this_thread` is its live loop, or null if it has none. -/
def Tracks (s : ThreadLoops) : Prop :=
  ∀ t p, s.loopInThisThread t = some p ↔ ⟨p, t⟩ ∈ s.live

/-- A construction ends the process exactly when another loop is alive on its thread. -/
def ExitsOnSecond (τ : Transition ThreadLoops LoopLife) : Prop :=
  ∀ t p, τ.event = .construct t p → (τ.post.exited = true ↔ ∃ l ∈ τ.pre.live, l.threadId = t)

/-- The step leaves the pointers right, and exits where it should. -/
def OnePerThread (τ : Transition ThreadLoops LoopLife) : Prop := Tracks τ.post ∧ ExitsOnSecond τ

def IsDestroy (τ : Transition ThreadLoops LoopLife) : Prop := ∃ p, τ.event = .destroy p

variable {s s' : ThreadLoops} {e : LoopLife} {t p : ℕ} {tr : List (Transition ThreadLoops LoopLife)}

/-- What a construction needs and does: another loop on the thread's record ends the
process, a free record takes the new loop. -/
theorem step_construct (hs : s.step (.construct t p) = some s') : s.exited = false ∧
    ((∃ q, s.loopInThisThread t = some q) ∧ s' = { s with exited := true } ∨
      s.loopInThisThread t = none ∧
        s' = { s with
          loopInThisThread := Function.update s.loopInThisThread t (some p)
          live := s.live ++ [⟨p, t⟩] }) := by
  simp only [step] at hs
  split_ifs at hs with hno
  simp only [Bool.or_eq_true, not_or, Bool.not_eq_true] at hno
  refine ⟨hno.1, ?_⟩
  cases hq : s.loopInThisThread t with
  | some q =>
    simp only [construct, hq, Option.some.injEq] at hs
    exact .inl ⟨⟨q, rfl⟩, hs.symm⟩
  | none =>
    simp only [construct, hq, Option.some.injEq] at hs
    exact .inr ⟨rfl, hs.symm⟩

theorem step_destroy (hs : s.step (.destroy p) = some s') :
    (∃ t, ⟨p, t⟩ ∈ s.live) ∧ s' = s.destroy p := by
  simp only [step] at hs
  split_ifs at hs with hok
  simp only [Bool.and_eq_true, occupied, List.any_eq_true, beq_iff_eq] at hok
  obtain ⟨-, l, hl, rfl⟩ := hok
  exact ⟨⟨l.threadId, hl⟩, (Option.some.inj hs).symm⟩

theorem onePerThread_construct (h : Tracks s) (hs : s.step (.construct t p) = some s') :
    OnePerThread ⟨s, .construct t p, s'⟩ := by
  obtain ⟨hex, ⟨⟨q, hq⟩, rfl⟩ | ⟨hnone, rfl⟩⟩ := step_construct hs
  · refine ⟨h, ?_⟩
    rintro _ _ ⟨⟩
    exact iff_of_true rfl ⟨⟨q, t⟩, (h t q).1 hq, rfl⟩
  · have hfree : ∀ q, ⟨q, t⟩ ∉ s.live := by
      intro q hq
      rw [(h t q).2 hq] at hnone
      cases hnone
    constructor
    · intro u q
      simp only [Function.update_apply, List.mem_append, List.mem_singleton, LiveLoop.mk.injEq]
      split_ifs with hu
      · subst hu
        simp [hfree, eq_comm]
      · simp [hu, h u q]
    · rintro _ _ ⟨⟩
      apply iff_of_false
      · simp [hex]
      · rintro ⟨l, hl, rfl⟩
        exact hfree l.self hl

/-- The loop is gone and its thread's record of it stays. -/
theorem not_tracks_destroy (h : Tracks s) (hs : s.step (.destroy p) = some s') : ¬ Tracks s' := by
  obtain ⟨⟨t, hl⟩, rfl⟩ := step_destroy hs
  intro h'
  have hmem := (h' t p).1 ((h t p).2 hl)
  simp [destroy] at hmem

/-- Over any sequence of constructions and destructions, every thread's
`t_loop_in_this_thread` is its live loop after every step, and a construction exits
exactly when another loop is alive on its thread, if and only if no loop is destroyed. -/
theorem tracks_iff (h : Run step init tr s) :
    (∀ τ ∈ tr, OnePerThread τ) ↔ ∀ τ ∈ tr, ¬ IsDestroy τ := by
  apply h.forall_iff (I := Tracks)
  · intro t p
    simp [init]
  · intro s e s' hi hs
    cases e with
    | construct t p => exact iff_of_true (onePerThread_construct hi hs) (by simp [IsDestroy])
    | destroy p =>
      exact iff_of_false (fun hone => not_tracks_destroy hi hs hone.1) (by simp [IsDestroy])
  · exact fun s e s' _ _ hone => hone.1

/-- Two loops on two threads, and a third that finds one of them alive. -/
theorem tracks_iff_second : ∃ tr s, Run step init tr s ∧
    tr.map Transition.event = [.construct 1 100, .construct 2 200, .construct 1 300] ∧
    s.exited = true ∧ ∀ τ ∈ tr, OnePerThread τ := by
  obtain ⟨tr, s, hr, he, hex⟩ := exists_run step init
    [.construct 1 100, .construct 2 200, .construct 1 300] (P := fun _ s => s.exited = true)
    (by decide)
  refine ⟨tr, s, hr, he, hex, (tracks_iff hr).2 ?_⟩
  rintro τ hτ ⟨p, hp⟩
  have hmem := List.mem_map_of_mem (f := Transition.event) hτ
  rw [he, hp] at hmem
  simp at hmem

/-- A loop made on thread 1 and destroyed there: the next one on that thread finds no other
loop alive and ends the process. -/
theorem construct_after_destroy_exits : ∃ tr s, Run step init tr s ∧
    tr.map Transition.event = [.construct 1 100, .destroy 100, .construct 1 200] ∧
    s.exited = true ∧ s.live = [] ∧ ¬ ∀ τ ∈ tr, OnePerThread τ := by
  obtain ⟨tr, s, hr, he, hex, hlive, τ, hτ, hev, hpost, hpre⟩ := exists_run step init
    [.construct 1 100, .destroy 100, .construct 1 200] (P := fun tr s =>
      s.exited = true ∧ s.live = [] ∧ ∃ τ ∈ tr, τ.event = .construct 1 200 ∧
        τ.post.exited = true ∧ τ.pre.live = []) (by decide)
  refine ⟨tr, s, hr, he, hex, hlive, ?_⟩
  intro hall
  obtain ⟨l, hl, -⟩ := ((hall τ hτ).2 1 200 hev).1 hpost
  rw [hpre] at hl
  cases hl

/-! ### What the pointer keeps instead -/

theorem loopInThisThread_step (hs : s.step e = some s') (t : ℕ) :
    (s'.loopInThisThread t).isSome = true ↔
      (s.loopInThisThread t).isSome = true ∨ ∃ p, e = .construct t p := by
  cases e with
  | construct u p =>
    obtain ⟨-, ⟨⟨q, hq⟩, rfl⟩ | ⟨hnone, rfl⟩⟩ := step_construct hs
    · simp only [LoopLife.construct.injEq]
      constructor
      · exact .inl
      · rintro (h | ⟨_, rfl, -⟩)
        · exact h
        · simp [hq]
    · by_cases hu : t = u
      · subst hu
        simp
      · simp [Function.update_of_ne hu, Ne.symm hu]
  | destroy p =>
    obtain ⟨-, rfl⟩ := step_destroy hs
    simp [destroy]

/-- The pointer of a thread is set from its first construction on. -/
theorem loopInThisThread_isSome_iff (h : Run step init tr s) (t : ℕ) :
    (s.loopInThisThread t).isSome = true ↔ ∃ τ ∈ tr, ∃ p, τ.event = .construct t p := by
  induction h with
  | nil => simp [init]
  | snoc _ hst ih => simp [loopInThisThread_step hst, ih, or_and_right, exists_or]

/-- A construction exits exactly when its thread has made a loop before, alive or not. -/
theorem construct_exits_iff (h : Run step init tr s)
    {tr₁ tr₂ : List (Transition ThreadLoops LoopLife)}
    {τ : Transition ThreadLoops LoopLife} (he : tr = tr₁ ++ τ :: tr₂)
    (hev : τ.event = .construct t p) :
    τ.post.exited = true ↔ ∃ τ' ∈ tr₁, ∃ q, τ'.event = .construct t q := by
  obtain ⟨hr, hst⟩ := h.upTo he
  rw [← loopInThisThread_isSome_iff hr, Option.isSome_iff_exists]
  rw [hev] at hst
  obtain ⟨hex, ⟨hq, hpost⟩ | ⟨hnone, hpost⟩⟩ := step_construct hst
  · rw [hpost]
    exact iff_of_true rfl hq
  · rw [hpost]
    simp [hex, hnone]

end ThreadLoops
end Armsy
