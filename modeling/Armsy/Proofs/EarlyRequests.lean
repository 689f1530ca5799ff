import Armsy.Proofs.QuitDrain
import Armsy.Proofs.ThreadSpec
import Armsy.Proofs.Wakeup

/-! Requests made before `loop()` is entered. `loop()` clears `quit_` on entry, and a
push by the loop's own thread before that writes no wake-up, so the loop may go to
sleep on either. It heeds everything where neither comes before its entry. -/

namespace Armsy
namespace EventLoop

variable {α : Type*} {l l' : EventLoop α} {e : LoopEvent α}
  {tr : List (Transition (EventLoop α) (LoopEvent α))}

/-- A `quit()`, or a push by the loop's own thread, comes after the loop is entered. -/
def Late (τ : Transition (EventLoop α) (LoopEvent α)) : Prop :=
  match τ.event with
  | .ownPush _ | .ownQuit | .quit _ => τ.pre.point ≠ .enter
  | _ => True

instance (τ : Transition (EventLoop α) (LoopEvent α)) : Decidable (Late τ) := by
  obtain ⟨l, e, l'⟩ := τ
  cases e <;> dsimp only [Late] <;> infer_instance

/-- The step is the last one of a call of `quit()`. -/
def EndsQuit (τ : Transition (EventLoop α) (LoopEvent α)) : Prop :=
  match τ.event with
  | .ownQuit => True
  | .wakeup t => τ.pre.callers t = .quitting
  | _ => False

/-- A functor appended before the loop was entered is pending, and its push has returned. -/
def Forgotten (tr : List (Transition (EventLoop α) (LoopEvent α))) (l : EventLoop α) : Prop :=
  ∃ τ ∈ tr, (pusher τ.event).isSome = true ∧ τ.pre.point = .enter ∧
    l.Pending τ.pre.appended.length ∧ ¬ l.Owed τ.pre.appended.length ∧
    l.own ≠ some τ.pre.appended.length

theorem Late.pushesFromLoop {τ : Transition (EventLoop α) (LoopEvent α)} (h : Late τ) :
    PushesFromLoop τ := by
  unfold PushesFromLoop
  unfold Late at h
  split
  · rename_i f he
    rw [he] at h
    exact h
  · trivial

/-- A `quit()` in progress has been made after the loop was entered, and is remembered. -/
def QuitInv (l : EventLoop α) : Prop :=
  ∀ t, l.callers t = .quitting → l.point ≠ .enter ∧ l.quit = true

/-- A `quit()` that has returned will end the loop, and the loop will not sleep on it. -/
structure Heeded (l : EventLoop α) : Prop where
  entered : l.point ≠ .enter
  quit : l.quit = true
  awake : l.point = .poll → 0 < l.eventfd

theorem QuitInv.step (h : QuitInv l) (hs : l.step e = some l') (hl : Late ⟨l, e, l'⟩) :
    QuitInv l' := by
  intro t ht
  cases step_cases hs with
  | enter hpt => exact absurd hpt (h t ht).1
  | leave | stay | poll | setCalling | swap | clearCalling =>
    exact ⟨by simp, (h t ht).2⟩
  | awake | runNext | ownPush | ownWake | ownSkip => exact h t ht
  | ownQuit => exact ⟨(h t ht).1, rfl⟩
  | push =>
    simp only [Function.update_apply] at ht
    split_ifs at ht
    exact h t ht
  | quit => exact ⟨hl, rfl⟩
  | wakeup =>
    simp only [Function.update_apply] at ht
    split_ifs at ht
    exact h t ht

theorem Heeded.step (h : Heeded l) (hs : l.step e = some l') : Heeded l' := by
  obtain ⟨hent, hq, hawake⟩ := h
  cases step_cases hs with
  | enter hpt => exact absurd hpt hent
  | stay _ hno =>
    rw [hq] at hno
    cases hno
  | leave | poll | setCalling | swap | clearCalling => exact ⟨by simp, hq, by simp⟩
  | awake hpt => exact ⟨hent, hq, by simp [hpt]⟩
  | runNext | ownPush | ownSkip | push => exact ⟨hent, hq, hawake⟩
  | ownQuit | quit => exact ⟨hent, rfl, hawake⟩
  | ownWake | wakeup => exact ⟨hent, hq, fun _ => wakeup_pos _⟩

/-- The end of a `quit()` that came late. -/
theorem heeded_of_endsQuit (h : QuitInv l) (hs : l.step e = some l') (hl : Late ⟨l, e, l'⟩)
    (he : EndsQuit ⟨l, e, l'⟩) : Heeded l' := by
  cases step_cases hs with
  | ownQuit hat =>
    have hent : l.point ≠ .enter := hl
    refine ⟨hent, rfl, fun hpoll => ?_⟩
    simp only at hpoll
    simp [atCallback, hpoll] at hat
  | wakeup =>
    obtain ⟨hent, hq⟩ := h _ he
    exact ⟨hent, hq, fun _ => wakeup_pos _⟩
  | _ => cases he

/-- When the loop is about to poll on an eventfd counter of 0, no `quit()` has returned
and no early functor is forgotten. -/
theorem heeded_of_run (h : Run EventLoop.step init tr l) (hc : ∀ τ ∈ tr, Late τ)
    (hpoll : l.point = .poll) (hzero : l.eventfd = 0) :
    (∀ τ ∈ tr, ¬ EndsQuit τ) ∧ ¬ Forgotten tr l := by
  constructor
  · intro τ hτ hend
    obtain ⟨tr₁, tr₂, he, hr₁, hs⟩ := h.split hτ
    have hquit : QuitInv τ.pre := by
      refine hr₁.invariant_of (C := Late) (fun t ht => by cases ht)
        (fun _ _ _ hi hs hl => hi.step hs hl) fun σ hσ => hc σ ?_
      rw [he]
      exact List.mem_append_left _ hσ
    have hheed := (h.after he).invariant (heeded_of_endsQuit hquit hs (hc τ hτ) hend)
      fun _ _ _ hi hs => hi.step hs
    have := hheed.awake hpoll
    omega
  · rintro ⟨τ, hτ, -, -, ⟨x, hx, hn⟩, howed, -⟩
    have hi : WakeInv l := h.invariant_of init_wakeInv (fun _ _ _ hi hs hp => hi.step hs hp)
      fun σ hσ => (hc σ hσ).pushesFromLoop
    apply howed
    rw [← hn]
    simpa [hpoll, hzero] using hi.covered x hx

end EventLoop

namespace EventLoopThread

variable {α : Type*} {s s' : EventLoopThread α} {e : ThreadEvent α}
  {tr : List (Transition (EventLoopThread α) (ThreadEvent α))}

open EventLoop (Late EndsQuit Forgotten)

theorem caller_of_admits {le : LoopEvent α} (h : s.admits le = true) :
    EventLoop.caller le ≠ some owner := by
  cases le with
  | push t f | quit t | wakeup t =>
    simp only [admits, Bool.and_eq_true, bne_iff_ne] at h
    simpa [EventLoop.caller] using h.2
  | _ => simp [EventLoop.caller]

/-- While the destructor is inside `quit()`, the loop has it as a caller. -/
theorem quitting_step (h : s.dtor = .wakeup → s.loop.callers owner = .quitting)
    (hs : s.step e = some s') (hd : s'.dtor = .wakeup) : s'.loop.callers owner = .quitting := by
  cases step_cases hs with
  | call _ _ hl =>
    cases EventLoop.step_cases hl with
    | quit => simp
  | loop ha hl =>
    rw [EventLoop.callers_of_step hl (caller_of_admits ha)]
    exact h hd
  | exiting | load | wakeup | join | members | running | skip => cases hd
  | _ => exact h hd

theorem mem_loopTrace {τ : Transition (EventLoopThread α) (ThreadEvent α)} (le : LoopEvent α)
    (hτ : τ ∈ tr) (he : τ.pre.loopEvent τ.event = some le) :
    (⟨τ.pre.loop, le, τ.post.loop⟩ : Transition _ _) ∈ loopTrace tr :=
  List.mem_filterMap.2 ⟨τ, hτ, by simp [he]⟩

/-- When the destructor waits in `join()`, its `quit()` has returned. -/
theorem quit_ended (h : Run step init tr s) (hd : s.dtor = .join) :
    ∃ σ ∈ loopTrace tr, EndsQuit σ := by
  have hinv (tr : List (Transition (EventLoopThread α) (ThreadEvent α))) (s : EventLoopThread α)
      (h : Run step init tr s) : s.dtor = .wakeup → s.loop.callers owner = .quitting :=
    h.invariant (fun hd => by cases hd) fun _ _ _ hi hs => quitting_step hi hs
  induction h with
  | nil => cases hd
  | @snoc tr s s' e hr hst ih =>
    cases step_cases hst with
    | wakeup hp ha hl =>
      refine ⟨_, mem_loopTrace (.wakeup owner)
        (List.mem_append_right _ (List.mem_singleton_self _)) (by simp [loopEvent, hp]),
        hinv tr s hr hp⟩
    | exiting | load | call | join | members | running | skip => cases hd
    | _ =>
      obtain ⟨σ, hσ, hend⟩ := ih hd
      refine ⟨σ, ?_, hend⟩
      rw [loopTrace, List.filterMap_append]
      exact List.mem_append_left _ hσ

/-- Where every `quit()` and every push by the loop's own thread comes after `loop()` is
entered, the thread is never about to poll on an eventfd counter of 0 while a `quit()`
has returned, while a functor pushed before the entry is pending and its push has
returned, or while the destructor waits for it. -/
theorem early_requests_heeded (h : Run step init tr s) (hc : ∀ σ ∈ loopTrace tr, Late σ)
    (hpoll : s.loop.point = .poll) (hzero : s.loop.eventfd = 0) :
    (∀ σ ∈ loopTrace tr, ¬ EndsQuit σ) ∧ ¬ Forgotten (loopTrace tr) s.loop ∧ s.dtor ≠ .join := by
  obtain ⟨hquit, hforgot⟩ := EventLoop.heeded_of_run (loop_run h) hc hpoll hzero
  refine ⟨hquit, hforgot, fun hd => ?_⟩
  obtain ⟨σ, hσ, hend⟩ := quit_ended h hd
  exact hquit σ hσ hend

/-- A push from another thread before `loop()` is entered is executed in the first round. -/
theorem early_requests_heeded_push : ∃ tr s, Run step init tr s ∧
    tr.map Transition.event = launch (inLoop [.push 1 7, .wakeup 1, .enter, .test, .poll, .awake,
      .setCalling, .swap, .runNext, .clearCalling, .test]) ∧
    s.loop.point = .poll ∧ s.loop.eventfd = 0 ∧
    (∀ σ ∈ loopTrace tr, ¬ EndsQuit σ) ∧ ¬ Forgotten (loopTrace tr) s.loop ∧ s.dtor ≠ .join := by
  obtain ⟨tr, s, hr, he, hc, hpoll, hzero⟩ := exists_run step (init : EventLoopThread ℕ)
    (launch (inLoop [.push 1 7, .wakeup 1, .enter, .test, .poll, .awake, .setCalling, .swap,
      .runNext, .clearCalling, .test]))
    (P := fun tr s => (∀ σ ∈ loopTrace tr, Late σ) ∧ s.loop.point = .poll ∧ s.loop.eventfd = 0)
    (by decide)
  exact ⟨tr, s, hr, he, hpoll, hzero, early_requests_heeded hr hc hpoll hzero⟩

/-- The destructor right after `startLoop`: its `quit()` comes before `loop()` is entered
and is forgotten; it joins a thread that is about to sleep. -/
theorem early_quit_forgotten : ∃ tr s, Run step (init : EventLoopThread ℕ) tr s ∧
    tr.map Transition.event = launch (.destructor :: .destructor :: .destructor :: .destructor ::
      .destructor :: inLoop [.enter, .test, .poll, .awake, .setCalling, .swap, .clearCalling,
      .test]) ∧
    s.dtor = .join ∧ s.loop.point = .poll ∧ s.loop.eventfd = 0 :=
  exists_run _ _ _ (by decide)

/-- A functor that `init_callback_` pushes stays behind while the loop goes to sleep. -/
theorem init_push_forgotten : ∃ tr s, Run step (init : EventLoopThread ℕ) tr s ∧
    tr.map Transition.event = [.startLoop, .threadFunc, .threadFunc, .loop (.ownPush 7),
      .loop .ownWake, .threadFunc, .threadFunc, .threadFunc, .threadFunc, .threadFunc,
      .loop .enter, .loop .test] ∧
    s.loop.queue.pending.map Entry.functor = [7] ∧ s.loop.own = none ∧
    s.loop.point = .poll ∧ s.loop.eventfd = 0 :=
  exists_run _ _ _ (by decide)

end EventLoopThread
end Armsy
