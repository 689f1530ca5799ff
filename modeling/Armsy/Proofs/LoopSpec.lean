import Armsy.Model.EventLoop

/-! What one step of the event loop can do: the condition it is taken under and
the state it leaves. Later proofs split on this and do not open `step` again. -/

namespace Armsy
namespace EventLoop

variable {α : Type*}

/-- `Took l e l'`: the step by event `e` from `l` leads to `l'`. -/
inductive Took (l : EventLoop α) : LoopEvent α → EventLoop α → Prop
  | enter : l.point = .enter → l.own = none →
      Took l .enter { l with point := .test, looping := true, quit := false }
  | leave : l.point = .test → l.quit = true →
      Took l .test { l with point := .stopped, looping := false }
  | stay : l.point = .test → l.quit = false → Took l .test { l with point := .poll }
  | poll : l.point = .poll → Took l .poll { l with point := .handle }
  | awake : l.point = .handle → l.own = none → Took l .awake { l with eventfd := 0 }
  | setCalling : l.point = .handle → l.own = none →
      Took l .setCalling { l with point := .swap, callingPendingFunctors := true }
  | swap : l.point = .swap →
      Took l .swap { l with point := .run, queue := l.queue.swap, rounds := l.rounds + 1 }
  | runNext {e : Entry α} {rest : List (Entry α)} : l.point = .run → l.own = none →
      l.queue.batch = e :: rest →
      Took l .runNext { l with queue := l.queue.pop, executed := l.executed ++ [(e, l.rounds)] }
  | clearCalling : l.point = .run → l.own = none → l.queue.batch = [] →
      Took l .clearCalling { l with point := .test, callingPendingFunctors := false }
  | ownPush {f : α} : l.atCallback = true → l.own = none →
      Took l (.ownPush f) { l.append f with own := some l.appended.length }
  | ownWake : l.own ≠ none → l.callingPendingFunctors = true →
      Took l .ownWake { l with own := none, eventfd := wakeup l.eventfd }
  | ownSkip : l.own ≠ none → l.callingPendingFunctors = false →
      Took l .ownWake { l with own := none }
  | ownQuit : l.atCallback = true → l.own = none → Took l .ownQuit { l with quit := true }
  | push {t : ℕ} {f : α} : l.callers t = .idle →
      Took l (.push t f)
        { l.append f with callers := Function.update l.callers t (.pushed l.appended.length) }
  | quit {t : ℕ} : l.callers t = .idle →
      Took l (.quit t) { l with quit := true, callers := Function.update l.callers t .quitting }
  | wakeup {t : ℕ} : l.callers t ≠ .idle →
      Took l (.wakeup t)
        { l with eventfd := wakeup l.eventfd, callers := Function.update l.callers t .idle }

theorem step_cases {l l' : EventLoop α} {e : LoopEvent α} (h : l.step e = some l') :
    Took l e l' := by
  unfold EventLoop.step at h
  cases e with
  | enter =>
    simp only [Option.ite_none_right_eq_some, Option.some.injEq] at h
    obtain ⟨⟨hpt, ho⟩, rfl⟩ := h
    exact .enter hpt ho
  | test =>
    simp only [Option.ite_none_right_eq_some, Option.some.injEq] at h
    obtain ⟨hpt, rfl⟩ := h
    split_ifs with hq
    · exact .leave hpt hq
    · exact .stay hpt (by simpa using hq)
  | poll =>
    simp only [Option.ite_none_right_eq_some, Option.some.injEq] at h
    obtain ⟨hpt, rfl⟩ := h
    exact .poll hpt
  | awake =>
    simp only [Option.ite_none_right_eq_some, Option.some.injEq] at h
    obtain ⟨⟨hpt, ho⟩, rfl⟩ := h
    exact .awake hpt ho
  | setCalling =>
    simp only [Option.ite_none_right_eq_some, Option.some.injEq] at h
    obtain ⟨⟨hpt, ho⟩, rfl⟩ := h
    exact .setCalling hpt ho
  | swap =>
    simp only [Option.ite_none_right_eq_some, Option.some.injEq] at h
    obtain ⟨hpt, rfl⟩ := h
    exact .swap hpt
  | runNext =>
    simp only [Option.ite_none_right_eq_some] at h
    obtain ⟨⟨hpt, ho⟩, h⟩ := h
    cases hb : l.queue.batch with
    | nil => simp [hb] at h
    | cons e rest =>
      simp only [hb, Option.some.injEq] at h
      subst h
      exact .runNext hpt ho hb
  | clearCalling =>
    simp only [Option.ite_none_right_eq_some, Option.some.injEq] at h
    obtain ⟨⟨hpt, ho, hb⟩, rfl⟩ := h
    exact .clearCalling hpt ho (by simpa using hb)
  | ownPush f =>
    simp only [Option.ite_none_right_eq_some, Option.some.injEq] at h
    obtain ⟨⟨hpt, ho⟩, rfl⟩ := h
    exact .ownPush hpt ho
  | ownWake =>
    simp only [Option.ite_none_right_eq_some, Option.some.injEq] at h
    obtain ⟨ho, rfl⟩ := h
    have ho := Option.isSome_iff_ne_none.1 ho
    split_ifs with hc
    · exact .ownWake ho hc
    · exact .ownSkip ho (by simpa using hc)
  | ownQuit =>
    simp only [Option.ite_none_right_eq_some, Option.some.injEq] at h
    obtain ⟨⟨hpt, ho⟩, rfl⟩ := h
    exact .ownQuit hpt ho
  | push t f =>
    simp only [Option.ite_none_right_eq_some, Option.some.injEq] at h
    obtain ⟨ht, rfl⟩ := h
    exact .push ht
  | quit t =>
    simp only [Option.ite_none_right_eq_some, Option.some.injEq] at h
    obtain ⟨ht, rfl⟩ := h
    exact .quit ht
  | wakeup t =>
    simp only [Option.ite_none_left_eq_some, Option.some.injEq] at h
    obtain ⟨ht, rfl⟩ := h
    exact .wakeup ht

variable {l l' : EventLoop α} {e : LoopEvent α}

/-- The loop is entered once. -/
theorem enter_of_step (h : l.step e = some l') (hp : l'.point = .enter) : l.point = .enter := by
  cases step_cases h with
  | poll | awake | setCalling | swap | runNext | clearCalling | enter | leave | stay =>
    simp_all
  | _ => exact hp

theorem enter_stays (h : l.step e = some l') (hp : l.point = .enter) (he : e ≠ .enter) :
    l'.point = .enter := by
  cases step_cases h with
  | enter => exact absurd rfl he
  | leave hpt | stay hpt | poll hpt | setCalling hpt | swap hpt | clearCalling hpt =>
    simp [hp] at hpt
  | _ => exact hp

theorem stopped_stays (h : l.step e = some l') (hp : l.point = .stopped) : l'.point = .stopped := by
  cases step_cases h with
  | enter hpt | leave hpt | stay hpt | poll hpt | setCalling hpt | swap hpt | clearCalling hpt =>
    simp [hp] at hpt
  | _ => exact hp

/-- What was appended stays appended. -/
theorem appended_of_step (h : l.step e = some l') : l.appended <+: l'.appended := by
  cases step_cases h with
  | ownPush | push => exact List.prefix_append _ _
  | _ => exact List.prefix_refl _

/-- The thread, other than the loop's own, that takes the step. -/
def caller : LoopEvent α → Option ℕ
  | .push t _ | .quit t | .wakeup t => some t
  | _ => none

theorem callers_of_step (h : l.step e = some l') {t : ℕ} (ht : caller e ≠ some t) :
    l'.callers t = l.callers t := by
  cases step_cases h with
  | @push u | @quit u | @wakeup u =>
    have hne : t ≠ u := fun he => ht (by rw [he]; rfl)
    simp [hne]
  | _ => rfl

end EventLoop
end Armsy
