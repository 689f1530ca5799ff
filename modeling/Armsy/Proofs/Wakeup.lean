import Armsy.Lib.Run
import Armsy.Proofs.LoopSpec

/-! No wake-up is lost: a functor that waits while the loop thread is about to
poll either has made the eventfd readable, or its caller still owes the write.
The invariant says, at every program point, who will see to a pending functor. -/

namespace Armsy
namespace EventLoop

variable {α : Type*}

/-- The caller that appended entry `n` has not done its `wakeup()` yet. -/
def Owed (l : EventLoop α) (n : ℕ) : Prop := ∃ t, l.callers t = .pushed n

structure WakeInv (l : EventLoop α) : Prop where
  calling : l.point = .swap ∨ l.point = .run → l.callingPendingFunctors = true
  own : l.own ≠ none → l.point = .handle ∨ l.point = .run
  covered : ∀ e ∈ l.queue.pending, l.Owed e.serial ∨ 0 < l.eventfd ∨ l.point = .handle ∨
    l.point = .swap ∨ (l.point = .run ∧ l.own = some e.serial)

/-- A push on the loop thread comes from a channel handler or a functor, not
from before `loop()`. -/
def PushesFromLoop (τ : Transition (EventLoop α) (LoopEvent α)) : Prop :=
  match τ.event with
  | .ownPush _ => τ.pre.point ≠ .enter
  | _ => True

theorem init_wakeInv : WakeInv (init : EventLoop α) :=
  ⟨by simp [init], by simp [init], by simp [init, BatchQueue.empty]⟩

/-- A wake-up write covers everything that is pending. -/
theorem WakeInv.wakeup {l : EventLoop α} (h : WakeInv l) (callers : ℕ → CallerPoint) :
    WakeInv { l with eventfd := EventLoop.wakeup l.eventfd, callers := callers } :=
  ⟨h.calling, h.own, fun _ _ => Or.inr (Or.inl (wakeup_pos _))⟩

theorem Owed.update {l : EventLoop α} {n t : ℕ} (h : l.Owed n) (ht : l.callers t = .idle)
    (p : CallerPoint) : ∃ u, Function.update l.callers t p u = .pushed n := by
  obtain ⟨u, hu⟩ := h
  have hne : u ≠ t := by
    rintro rfl
    rw [ht] at hu
    cases hu
  exact ⟨u, by rw [Function.update_of_ne hne, hu]⟩

/-- Between channel handlers and the swap the loop thread sees to every pending functor. -/
theorem WakeInv.of_before_swap {l : EventLoop α} (hcall : l.point = .swap →
    l.callingPendingFunctors = true) (hown : l.own ≠ none → l.point = .handle)
    (hpt : l.point = .handle ∨ l.point = .swap) : WakeInv l := by
  refine ⟨?_, fun ho => .inl (hown ho), fun e he => ?_⟩
  · rintro (hp | hp)
    · exact hcall hp
    · simp [hp] at hpt
  · rcases hpt with hp | hp
    · exact .inr (.inr (.inl hp))
    · exact .inr (.inr (.inr (.inl hp)))

/-- A functor appended by the loop thread from inside a functor is covered by the
wake-up test still due. -/
theorem WakeInv.ownPush {l : EventLoop α} (h : WakeInv l) {f : α} (ho : l.own = none)
    (hpt : l.point = .handle ∨ l.point = .run) :
    WakeInv { l.append f with own := some l.appended.length } := by
  refine ⟨h.calling, fun _ => hpt, fun e he => ?_⟩
  rcases hpt with hpt | hpt
  · simp [append, hpt]
  · simp only [append, BatchQueue.push, List.mem_append, List.mem_singleton] at he
    rcases he with he | rfl
    · rcases h.covered e he with h | h | h | h | ⟨-, h⟩
      · exact Or.inl h
      · exact Or.inr (Or.inl h)
      · simp [hpt] at h
      · simp [hpt] at h
      · rw [ho] at h
        cases h
    · simp [append, next, hpt]

theorem WakeInv.step {l l' : EventLoop α} {e : LoopEvent α} (h : WakeInv l)
    (hs : l.step e = some l') (hp : PushesFromLoop ⟨l, e, l'⟩) : WakeInv l' := by
  obtain ⟨hcall, hown, hcov⟩ := h
  cases step_cases hs with
  | enter hpt ho =>
    exact ⟨by simp, by simp [ho], fun e he => by simpa [Owed, hpt] using hcov e he⟩
  | leave hpt | stay hpt =>
    have ho : l.own = none := by
      by_contra hne
      simpa [hpt] using hown hne
    exact ⟨by simp, by simp [ho], fun e he => by simpa [Owed, hpt] using hcov e he⟩
  | poll => exact .of_before_swap (by simp) (by simp) (by simp)
  | awake hpt ho => exact .of_before_swap (by simp [hpt]) (by simp [ho]) (by simp [hpt])
  | setCalling hpt ho => exact .of_before_swap (by simp) (by simp [ho]) (by simp)
  | swap hpt => exact ⟨fun _ => hcall (Or.inl hpt), by simp, by simp [BatchQueue.swap]⟩
  | runNext | ownQuit => exact ⟨hcall, hown, hcov⟩
  | clearCalling hpt ho =>
    exact ⟨by simp, by simp [ho], fun e he => by simpa [Owed, hpt, ho] using hcov e he⟩
  | ownPush hat ho =>
    have hpt : l.point = .handle ∨ l.point = .run := by
      simpa [atCallback, show l.point ≠ .enter from hp] using hat
    exact WakeInv.ownPush ⟨hcall, hown, hcov⟩ ho hpt
  | ownWake => exact ⟨hcall, by simp, fun _ _ => Or.inr (Or.inl (wakeup_pos _))⟩
  | ownSkip ho hc =>
    -- without the flag the loop thread is still handling events, before the swap
    have hpt : l.point = .handle := (hown ho).resolve_right fun hr => by
      simp [hcall (Or.inr hr)] at hc
    exact .of_before_swap (by simp [hpt]) (by simp) (by simp [hpt])
  | @push t f ht =>
    refine ⟨hcall, hown, fun e he => ?_⟩
    simp only [append, BatchQueue.push, List.mem_append, List.mem_singleton] at he
    rcases he with he | rfl
    · exact (hcov e he).imp_left fun ho => ho.update ht _
    · exact Or.inl ⟨t, by simp [next]⟩
  | quit ht => exact ⟨hcall, hown, fun e he => (hcov e he).imp_left fun ho => ho.update ht _⟩
  | wakeup => exact WakeInv.wakeup ⟨hcall, hown, hcov⟩ _

/-- Whenever the loop thread is about to poll on an eventfd counter of 0, every
pending functor was appended by a thread that still owes its `wakeup()`. -/
theorem no_lost_wakeup {tr : List (Transition (EventLoop α) (LoopEvent α))} {l : EventLoop α}
    (h : Run EventLoop.step init tr l) (hp : ∀ τ ∈ tr, PushesFromLoop τ)
    (hpoll : l.point = .poll) (hzero : l.eventfd = 0) :
    ∀ e ∈ l.queue.pending, l.Owed e.serial := by
  have hi : WakeInv l := h.invariant_of init_wakeInv (fun _ _ _ hi hs hp => hi.step hs hp) hp
  intro e he
  simpa [hpoll, hzero] using hi.covered e he

instance (τ : Transition (EventLoop α) (LoopEvent α)) : Decidable (PushesFromLoop τ) := by
  unfold PushesFromLoop
  split <;> infer_instance

/-- Two pushes before the first poll: the one whose `wakeup()` is done makes
poll return, so the other is all that can wait on a counter of 0. -/
theorem no_lost_wakeup_owed : ∃ tr l, Run EventLoop.step (init : EventLoop ℕ) tr l ∧
    l.queue.pending ≠ [] ∧ ∀ e ∈ l.queue.pending, l.Owed e.serial := by
  obtain ⟨tr, l, hr, -, hp, hpoll, hzero, hlen⟩ := exists_run EventLoop.step
    (init : EventLoop ℕ)
    [.enter, .test, .push 0 7, .wakeup 0, .poll, .awake, .setCalling, .swap, .runNext,
      .clearCalling, .push 1 8, .test]
    (P := fun tr l => (∀ τ ∈ tr, PushesFromLoop τ) ∧ l.point = .poll ∧ l.eventfd = 0 ∧
      l.queue.pending.length = 1) (by decide)
  refine ⟨tr, l, hr, ?_, no_lost_wakeup hr hp hpoll hzero⟩
  rintro hnil
  simp [hnil] at hlen

end EventLoop
end Armsy
