import Armsy.Proofs.FunctorOrder

/-! Work queued before `quit()`. The loop tests `quit_` right after it has run a
batch, so what is appended behind that batch is executed only if the loop comes
round to another swap. It does where `quit()` finds the loop before its swap. -/

namespace Armsy
namespace EventLoop

variable {α : Type*} {l l' : EventLoop α} {e : LoopEvent α}
  {tr tr₁ : List (Transition (EventLoop α) (LoopEvent α))} {who : Option ℕ} {n : ℕ}

/-- The thread whose `pushLoopCallback` appends by the event; `none` is the loop thread. -/
def pusher : LoopEvent α → Option (Option ℕ)
  | .ownPush _ => some none
  | .push t _ => some (some t)
  | _ => none

/-- The thread whose `quit()` sets the flag by the event. -/
def quitter : LoopEvent α → Option (Option ℕ)
  | .ownQuit => some none
  | .quit t => some (some t)
  | _ => none

def Running (l : EventLoop α) : Prop := l.point ≠ .enter ∧ l.point ≠ .stopped

/-- Thread `who` has appended entry `n` to the queue of the running loop. -/
def Pushed (tr : List (Transition (EventLoop α) (LoopEvent α))) (who : Option ℕ) (n : ℕ) : Prop :=
  ∃ τ ∈ tr, pusher τ.event = some who ∧ Running τ.pre ∧ τ.pre.appended.length = n

/-- What a thread pushes to the running loop before it calls `quit()` is executed. -/
def Drained (tr : List (Transition (EventLoop α) (LoopEvent α))) (l : EventLoop α) : Prop :=
  ∀ tr₁ τ tr₂ who n, tr = tr₁ ++ τ :: tr₂ → quitter τ.event = some who → Pushed tr₁ who n →
    ∃ d ∈ l.executed, d.1.serial = n

/-- The loop is on its way to the next swap. -/
def BeforeSwap (l : EventLoop α) : Prop := l.point = .poll ∨ l.point = .handle ∨ l.point = .swap

def Pending (l : EventLoop α) (n : ℕ) : Prop := ∃ x ∈ l.queue.pending, x.serial = n

/-- A `quit()` that finds work of its thread pending finds the loop before its swap. -/
def InTime (tr : List (Transition (EventLoop α) (LoopEvent α))) : Prop :=
  ∀ tr₁ τ tr₂ who n, tr = tr₁ ++ τ :: tr₂ → quitter τ.event = some who → Pushed tr₁ who n →
    τ.pre.Pending n → τ.pre.BeforeSwap

/-! ### Serial numbers -/

/-- Entries are numbered in lock order. -/
structure Numbered (l : EventLoop α) : Prop where
  orderInv : OrderInv l
  serials : l.appended.map Entry.serial = List.range l.appended.length

theorem init_numbered : Numbered (init : EventLoop α) := ⟨init_orderInv, rfl⟩

theorem Numbered.append (f : α) (h : l.appended.map Entry.serial = List.range l.appended.length) :
    (l.append f).appended.map Entry.serial = List.range (l.append f).appended.length := by
  simp [EventLoop.append, h, List.range_succ, next]

theorem Numbered.step (h : Numbered l) (hs : l.step e = some l') : Numbered l' := by
  refine ⟨h.orderInv.step hs, ?_⟩
  cases step_cases hs with
  | ownPush | push => exact Numbered.append _ h.serials
  | _ => exact h.serials

theorem numbered_of_run (h : Run EventLoop.step init tr l) : Numbered l :=
  h.invariant init_numbered fun _ _ _ hi hs => hi.step hs

/-- An entry that is pending has not been executed. -/
theorem Numbered.not_executed (h : Numbered l) (hp : l.Pending n) :
    ¬ ∃ d ∈ l.executed, d.1.serial = n := by
  rintro ⟨d, hd, hdn⟩
  obtain ⟨x, hx, hxn⟩ := hp
  have hnd : (l.appended.map Entry.serial).Nodup := by
    rw [h.serials]
    exact List.nodup_range
  rw [← h.orderInv.order, List.map_append, List.nodup_append] at hnd
  apply hnd.2.2 d.1.serial (List.mem_map_of_mem (List.mem_map_of_mem hd)) x.serial
  · exact List.mem_map_of_mem (by simp [BatchQueue.waiting, hx])
  · rw [hdn, hxn]

theorem appends_of_step (h : l.step e = some l') (hw : pusher e = some who) :
    ∃ x ∈ l'.appended, x.serial = l.appended.length := by
  cases step_cases h with
  | @ownPush f | @push _ f => exact ⟨l.next f, List.mem_append_right _ (by simp), rfl⟩
  | _ => cases hw

/-- A pushed entry has been executed, or is in the batch, or is pending. -/
theorem Pushed.cases (h : Run EventLoop.step init tr l) (hp : Pushed tr who n) :
    (∃ d ∈ l.executed, d.1.serial = n) ∨ (∃ x ∈ l.queue.batch, x.serial = n) ∨ l.Pending n := by
  obtain ⟨τ, hτ, hw, -, rfl⟩ := hp
  obtain ⟨tr₁, tr₂, he, -, hs⟩ := h.split hτ
  obtain ⟨x, hx, hn⟩ := appends_of_step hs hw
  have hgrow := (h.after he).invariant (I := fun l => τ.post.appended <+: l.appended)
    (List.prefix_refl _) fun _ _ _ hi hs => hi.trans (appended_of_step hs)
  have hmem := hgrow.subset hx
  rw [← (numbered_of_run h).orderInv.order] at hmem
  simp only [BatchQueue.waiting, List.mem_append, List.mem_map] at hmem
  rcases hmem with ⟨d, hd, rfl⟩ | hb | hp
  · exact .inl ⟨d, hd, hn⟩
  · exact .inr (.inl ⟨x, hb, hn⟩)
  · exact .inr (.inr ⟨x, hp, hn⟩)

/-! ### From `quit()` to the end of the loop -/

/-- Entry `n` will be executed before the loop ends. -/
def Assured (l : EventLoop α) (n : ℕ) : Prop :=
  (∃ d ∈ l.executed, d.1.serial = n) ∨ (∃ x ∈ l.queue.batch, x.serial = n) ∨
    l.Pending n ∧ l.BeforeSwap

theorem Pending.append (h : l.Pending n) (f : α) : (l.append f).Pending n := by
  obtain ⟨x, hx, hn⟩ := h
  exact ⟨x, List.mem_append_left _ hx, hn⟩

theorem Assured.step (hi : OrderInv l) (h : l.Assured n) (hs : l.step e = some l') :
    l'.Assured n := by
  rcases h with hx | hb | ⟨hp, hbefore⟩
  · left
    cases step_cases hs with
    | runNext =>
      obtain ⟨d, hd, hn⟩ := hx
      exact ⟨d, List.mem_append_left _ hd, hn⟩
    | _ => exact hx
  · obtain ⟨x, hx, hn⟩ := hb
    have hrun : l.point = .run := by
      by_contra hne
      rw [hi.idle_batch hne] at hx
      cases hx
    cases step_cases hs with
    | @runNext e rest _ _ hbatch =>
      rw [hbatch, List.mem_cons] at hx
      rcases hx with rfl | hx
      · exact .inl ⟨_, List.mem_append_right _ (List.mem_singleton_self _), hn⟩
      · exact .inr (.inl ⟨x, by simpa [BatchQueue.pop, hbatch] using hx, hn⟩)
    | clearCalling _ _ hbatch =>
      rw [hbatch] at hx
      cases hx
    | swap hpt => simp [hrun] at hpt
    | _ => exact .inr (.inl ⟨x, hx, hn⟩)
  · cases step_cases hs with
    | swap => exact .inr (.inl hp)
    | ownPush | push => exact .inr (.inr ⟨hp.append _, hbefore⟩)
    | poll | setCalling => exact .inr (.inr ⟨hp, by simp [BeforeSwap]⟩)
    | awake | ownWake | ownSkip | ownQuit | quit | wakeup => exact .inr (.inr ⟨hp, hbefore⟩)
    | enter hpt | leave hpt | stay hpt | runNext hpt | clearCalling hpt =>
      simp [BeforeSwap, hpt] at hbefore

/-- Entry `n` stays pending until the loop ends, and after. -/
structure Stranded (l : EventLoop α) (n : ℕ) : Prop where
  pending : l.Pending n
  quit : l.quit = true
  point : l.point = .run ∨ l.point = .test ∨ l.point = .stopped

theorem Stranded.step (h : l.Stranded n) (hs : l.step e = some l') : l'.Stranded n := by
  obtain ⟨hp, hq, hpt⟩ := h
  cases step_cases hs with
  | leave | clearCalling => exact ⟨hp, hq, by simp⟩
  | ownPush | push => exact ⟨hp.append _, hq, hpt⟩
  | runNext | ownWake | ownSkip | wakeup => exact ⟨hp, hq, hpt⟩
  | ownQuit | quit => exact ⟨hp, rfl, hpt⟩
  | stay _ hno =>
    rw [hq] at hno
    cases hno
  | enter h | poll h | awake h | setCalling h | swap h => simp [h] at hpt

/-- `quit()` sets the flag and moves neither the loop nor its queue. -/
theorem quit_of_step (h : l.step e = some l') (hw : quitter e = some who) :
    l'.quit = true ∧ l'.point = l.point ∧ l'.queue = l.queue := by
  cases step_cases h with
  | ownQuit | quit => exact ⟨rfl, rfl, rfl⟩
  | _ => cases hw

/-- A thread that has pushed to the running loop finds it entered. -/
theorem Pushed.entered (h : Run EventLoop.step init tr l) (hp : Pushed tr who n) :
    l.point ≠ .enter := by
  obtain ⟨τ, hτ, hw, hrun, -⟩ := hp
  obtain ⟨tr₁, tr₂, he, -, hs⟩ := h.split hτ
  refine (h.after he).invariant (I := fun l => l.point ≠ .enter) ?_ ?_
  · exact fun hpost => hrun.1 (enter_of_step hs hpost)
  · exact fun _ _ _ hi hs hpost => hi (enter_of_step hs hpost)

/-- When the loop has returned, every functor that a thread pushed to it before its
`quit()` has been executed, exactly when each such `quit()` that found the functor
pending found the loop before its swap, not between the swap and the test. -/
theorem quit_drains_iff (h : Run EventLoop.step init tr l) (hstop : l.point = .stopped) :
    Drained tr l ↔ InTime tr := by
  constructor
  · intro hd tr₁ τ tr₂ who n he hq hp hpend
    by_contra hlate
    obtain ⟨hr₁, hs⟩ := h.upTo he
    obtain ⟨hquit, hpt, hqueue⟩ := quit_of_step hs hq
    have hentered := hp.entered hr₁
    have hstr : τ.post.Stranded n := by
      refine ⟨by rwa [Pending, hqueue], hquit, ?_⟩
      rw [hpt]
      unfold BeforeSwap at hlate
      cases hpoint : τ.pre.point <;> simp_all
    have hend := (h.after he).invariant (I := fun l => l.Stranded n) hstr
      fun _ _ _ hi hs => hi.step hs
    exact (numbered_of_run h).not_executed hend.pending (hd tr₁ τ tr₂ who n he hq hp)
  · intro hc tr₁ τ tr₂ who n he hq hp
    obtain ⟨hr₁, hs⟩ := h.upTo he
    have hpre : τ.pre.Assured n := by
      rcases hp.cases hr₁ with hx | hb | hpend
      · exact .inl hx
      · exact .inr (.inl hb)
      · exact .inr (.inr ⟨hpend, hc tr₁ τ tr₂ who n he hq hp hpend⟩)
    have hpost : τ.post.Assured n := hpre.step (numbered_of_run hr₁).orderInv hs
    have hend := (h.after he).invariant (I := fun l => OrderInv l ∧ l.Assured n)
      ⟨(numbered_of_run hr₁).orderInv.step hs, hpost⟩
      fun _ _ _ hi hs => ⟨hi.1.step hs, hi.2.step hi.1 hs⟩
    obtain ⟨hi, hx | ⟨x, hx, -⟩ | ⟨-, hbefore⟩⟩ := hend
    · exact hx
    · rw [hi.idle_batch (by simp [hstop])] at hx
      cases hx
    · simp [BeforeSwap, hstop] at hbefore

instance (l : EventLoop α) : Decidable l.BeforeSwap := inferInstanceAs (Decidable (_ ∨ _))

/-- The `quit()` comes while the loop is about to poll; the functor is in the next batch. -/
theorem quit_drains_iff_polling : ∃ tr l, Run EventLoop.step (init : EventLoop ℕ) tr l ∧
    tr.map Transition.event = [.enter, .test, .push 0 7, .wakeup 0, .quit 0, .wakeup 0, .poll,
      .awake, .setCalling, .swap, .runNext, .clearCalling, .test] ∧
    l.point = .stopped ∧ Drained tr l := by
  obtain ⟨tr, l, hr, he, hstop, hc⟩ := exists_run EventLoop.step (init : EventLoop ℕ)
    [.enter, .test, .push 0 7, .wakeup 0, .quit 0, .wakeup 0, .poll, .awake, .setCalling, .swap,
      .runNext, .clearCalling, .test]
    (P := fun tr l => l.point = .stopped ∧
      ∀ τ ∈ tr, (quitter τ.event).isSome = true → τ.pre.BeforeSwap) (by decide)
  refine ⟨tr, l, hr, he, hstop, (quit_drains_iff hr hstop).2 ?_⟩
  rintro tr₁ τ tr₂ who n rfl hq - -
  exact hc τ (by simp) (by rw [hq, Option.isSome_some])

/-- A push and a `quit()` between the swap and the test: the loop returns and the
functor stays in the queue. -/
theorem quit_drops_functor : ∃ tr l, Run EventLoop.step (init : EventLoop ℕ) tr l ∧
    tr.map Transition.event = [.enter, .test, .poll, .setCalling, .swap, .push 0 7, .wakeup 0,
      .quit 0, .clearCalling, .test, .wakeup 0] ∧
    l.point = .stopped ∧ l.queue.pending.map Entry.functor = [7] ∧ l.executed.length = 0 :=
  exists_run _ _ _ (by decide)

end EventLoop
end Armsy
