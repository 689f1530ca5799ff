import Armsy.Proofs.QuitDrain
import Armsy.Proofs.ThreadSpec

/-! The life of an `EventLoopThread`. The destructor reads `loop_` without the lock and
skips the join when it is null, and `startLoop` waits for a `loop_` that may have come
and gone: all is well as long as nobody else ends the loop at such a moment. -/

namespace Armsy
namespace EventLoopThread

variable {α : Type*} {s s' : EventLoopThread α} {e : ThreadEvent α}

/-- The running loop has been told to quit. -/
def Quitting (l : EventLoop α) : Prop := l.point ≠ .enter ∧ l.quit = true

instance (l : EventLoop α) : Decidable (Quitting l) := inferInstanceAs (Decidable (_ ∧ _))

/-- The destructor has not begun, or has set the flag of the loop. -/
def aside : DtorPoint → Bool
  | .idle | .wakeup | .join => true
  | _ => false

/-- A `quit()` other than the destructor's finds the loop not yet entered, or `startLoop`
returned and the destructor either not begun or past its own call; the destructor begins
when no `startLoop` is in progress and no running loop has been told to quit, unless
`threadFunc` has returned. -/
def Orderly (τ : Transition (EventLoopThread α) (ThreadEvent α)) : Prop :=
  match τ.event with
  | .loop (.quit _) | .loop .ownQuit => τ.pre.loop.point = .enter ∨
      τ.pre.start = .returned ∧ aside τ.pre.dtor = true
  | .destructor => τ.pre.dtor = .idle →
      (τ.pre.start = .idle ∨ τ.pre.start = .returned) ∧
        (Quitting τ.pre.loop → τ.pre.func = .returned)
  | _ => True

instance (τ : Transition (EventLoopThread α) (ThreadEvent α)) : Decidable (Orderly τ) := by
  unfold Orderly
  split <;> infer_instance

/-- `loop_` is set at these points. -/
def publishes : FuncPoint → Bool
  | .notify | .unlock | .loop | .relock | .clear => true
  | _ => false

/-- The loop is not entered yet. -/
def early : FuncPoint → Bool
  | .idle | .post | .construct | .init | .lock | .publish | .notify | .unlock => true
  | _ => false

/-- The loop has returned. -/
def late : FuncPoint → Bool
  | .relock | .clear | .release | .leave | .returned => true
  | _ => false

structure Inv (s : EventLoopThread α) : Prop where
  published : s.published = publishes s.func
  before : early s.func = true → s.loop.point = .enter
  after : late s.func = true → s.loop.point = .stopped
  stopped : s.loop.point = .stopped → s.loop.quit = true
  spawned : s.start = .idle ↔ s.func = .idle
  found : s.start = .read ∨ s.start = .unlock ∨ s.start = .returned →
    publishes s.func = true ∨ late s.func = true
  begun : s.dtor ≠ .idle → s.start = .idle ∨ s.start = .returned
  quitting : Quitting s.loop →
    s.start = .returned ∧ (aside s.dtor = true ∨ s.func = .returned)
  calling : ∀ p, s.dtor = .load ∨ s.dtor = .call p → s.published = true ∧ s.dtor ≠ .call false
  ended : s.dtor = .members ∨ s.dtor = .destroyed → s.func = .idle ∨ s.func = .returned

theorem init_inv : Inv (init : EventLoopThread α) := by
  constructor <;> simp [init, publishes, early, late, EventLoop.init, Quitting]

theorem quitting_of_step {l l' : EventLoop α} {le : LoopEvent α} (h : l.step le = some l')
    (hq : Quitting l') : Quitting l ∨ l.point ≠ .enter ∧ (EventLoop.quitter le).isSome = true := by
  unfold Quitting at hq ⊢
  cases EventLoop.step_cases h with
  | enter => simp at hq
  | ownQuit | quit => exact .inr ⟨hq.1, rfl⟩
  | leave hpt | stay hpt | poll hpt | setCalling hpt | swap hpt | clearCalling hpt =>
    exact .inl ⟨by simp [hpt], hq.2⟩
  | _ => exact .inl hq

/-- What the code relies on the loop for: it starts before its entry, and ends told to quit. -/
theorem stopped_of_step {l l' : EventLoop α} {le : LoopEvent α} (h : l.step le = some l')
    (hs : l.point = .stopped → l.quit = true) (hp : l'.point = .stopped) : l'.quit = true := by
  cases EventLoop.step_cases h with
  | leave _ hq => exact hq
  | ownQuit | quit => rfl
  | enter | stay | poll | setCalling | swap | clearCalling => cases hp
  | _ => exact hs hp

/-! ### One party moves -/

/-- A step of `startLoop`, once its thread is there. -/
theorem Inv.setStart (hi : Inv s) (p : StartPoint) (h0 : s.start ≠ .idle) (h1 : s.start ≠ .returned)
    (hp : p ≠ .idle) (hf : p = .read ∨ p = .unlock ∨ p = .returned →
      publishes s.func = true ∨ late s.func = true) : Inv { s with start := p } where
  published := hi.published
  before := hi.before
  after := hi.after
  stopped := hi.stopped
  spawned := iff_of_false hp fun hfunc => h0 (hi.spawned.2 hfunc)
  found := hf
  begun := fun hd => by simpa [h0, h1] using hi.begun hd
  quitting := fun hq => absurd (hi.quitting hq).1 h1
  calling := hi.calling
  ended := hi.ended

/-- `startLoop` has not found the loop yet. -/
def searching : StartPoint → Bool
  | .semWait | .lock | .test | .sleep | .waiting => true
  | _ => false

theorem Inv.search (hi : Inv s) {p q : StartPoint} (hp : s.start = p) (h : searching p = true)
    (hq : searching q = true) : Inv { s with start := q } := by
  subst hp
  refine hi.setStart q ?_ ?_ ?_ fun hf => ?_
  · intro h0
    simp [h0, searching] at h
  · intro h1
    simp [h1, searching] at h
  · rintro rfl
    cases hq
  · rcases hf with rfl | rfl | rfl <;> cases hq

/-- What every step of `threadFunc`, from `g` to `f`, has in common. -/
def Follows (g f : FuncPoint) : Prop :=
  (g ≠ .idle ∧ g ≠ .returned ∧ f ≠ .idle) ∧ (early f = true → early g = true) ∧
    (publishes g = true ∨ late g = true → publishes f = true ∨ late f = true) ∧
    (publishes g = true → publishes f = true ∨ late g = true)

instance (g f : FuncPoint) : Decidable (Follows g f) := inferInstanceAs (Decidable (_ ∧ _))

theorem Inv.quitting_of_late (hi : Inv s) (h : late s.func = true) : Quitting s.loop := by
  have hp := hi.after h
  exact ⟨by simp [hp], hi.stopped hp⟩

/-- A step of `threadFunc`. -/
theorem Inv.setFunc (hi : Inv s) {g f : FuncPoint} {b : Bool} (hg : s.func = g) (hf : Follows g f)
    (hb : b = publishes f) (ha : late f = true → late g = true ∨ s.loop.point = .stopped) :
    Inv { s with func := f, published := b } := by
  subst hg
  obtain ⟨⟨h0, h1, hidle⟩, hearly, hfound, hpub⟩ := hf
  refine ⟨hb, fun h => hi.before (hearly h), fun h => (ha h).elim hi.after id, hi.stopped,
    iff_of_false (fun hst => h0 (hi.spawned.1 hst)) hidle, fun hst => hfound (hi.found hst),
    hi.begun, ?_, ?_, ?_⟩
  · intro hq
    obtain ⟨hst, hd⟩ := hi.quitting hq
    exact ⟨hst, .inl (hd.resolve_right h1)⟩
  · intro p hd
    obtain ⟨hp, hcall⟩ := hi.calling p hd
    refine ⟨?_, hcall⟩
    rw [hi.published] at hp
    rw [hb]
    -- the thread past its loop has been told to quit, which a destructor before its call excludes
    refine (hpub hp).resolve_right fun hl => ?_
    have haside := (hi.quitting (hi.quitting_of_late hl)).2.resolve_right h1
    rcases hd with hd | hd
    · have hd : s.dtor = .load := hd
      simp [hd, aside] at haside
    · have hd : s.dtor = .call p := hd
      simp [hd, aside] at haside
  · intro hd
    rcases hi.ended hd with h | h
    · exact absurd h h0
    · exact absurd h h1

/-- A step of `threadFunc` that leaves `loop_` alone and does not follow the end of the loop. -/
theorem Inv.advance (hi : Inv s) {g f : FuncPoint} (hg : s.func = g) (hf : Follows g f)
    (hp : publishes f = publishes g) (ha : late f = true → late g = true) :
    Inv { s with func := f } :=
  hi.setFunc hg hf (by rw [hi.published, hg, hp]) fun h => .inl (ha h)

theorem Inv.returned_of_quitting (hi : Inv s) (hq : Quitting s.loop) (hd : aside s.dtor = false) :
    s.func = .returned :=
  (hi.quitting hq).2.resolve_left (by simp [hd])

/-- A step of the destructor, once begun, that leaves the loop alone. -/
theorem Inv.setDtor (hi : Inv s) (d : DtorPoint) (h0 : s.dtor ≠ .idle)
    (hq : Quitting s.loop → aside d = true ∨ s.func = .returned)
    (hcall : ∀ p, d = .load ∨ d = .call p → s.published = true ∧ d ≠ .call false)
    (hend : d = .members ∨ d = .destroyed → s.func = .idle ∨ s.func = .returned) :
    Inv { s with dtor := d } where
  published := hi.published
  before := hi.before
  after := hi.after
  stopped := hi.stopped
  spawned := hi.spawned
  found := hi.found
  begun := fun _ => hi.begun h0
  quitting := fun h => ⟨(hi.quitting h).1, hq h⟩
  calling := hcall
  ended := hend

/-- A step of the loop. -/
theorem Inv.setLoop (hi : Inv s) {l : EventLoop α} {le : LoopEvent α} (hl : s.loop.step le = some l)
    (hb : early s.func = true → l.point = .enter) (ha : late s.func = true → l.point = .stopped)
    (hq : (EventLoop.quitter le).isSome = true → s.loop.point ≠ .enter →
      s.start = .returned ∧ aside s.dtor = true) : Inv { s with loop := l } where
  published := hi.published
  before := hb
  after := ha
  stopped := stopped_of_step hl hi.stopped
  spawned := hi.spawned
  found := hi.found
  begun := hi.begun
  quitting := by
    intro h
    rcases quitting_of_step hl h with hold | ⟨hne, hw⟩
    · exact hi.quitting hold
    · obtain ⟨hst, hd⟩ := hq hw hne
      exact ⟨hst, .inl hd⟩
  calling := hi.calling
  ended := hi.ended

/-- `Thread::start` makes the thread. -/
theorem Inv.spawn (hi : Inv s) (hst : s.start = .idle) (hd : s.dtor = .idle) :
    Inv { s with start := .semWait, func := .post } where
  published := by rw [hi.published, hi.spawned.1 hst]; rfl
  before := fun _ => hi.before (by rw [hi.spawned.1 hst]; rfl)
  after := by simp [late]
  stopped := hi.stopped
  spawned := by simp
  found := by simp
  begun := fun hne => absurd hd hne
  quitting := fun hq => by simp [(hi.quitting hq).1] at hst
  calling := fun p h => by simp [hd] at h
  ended := by simp [hd]

/-- The destructor begins. -/
theorem Inv.begin (hi : Inv s) (hst : s.start = .idle ∨ s.start = .returned)
    (hq : Quitting s.loop → s.func = .returned) : Inv { s with dtor := .test } where
  published := hi.published
  before := hi.before
  after := hi.after
  stopped := hi.stopped
  spawned := hi.spawned
  found := hi.found
  begun := fun _ => hst
  quitting := fun h => ⟨(hi.quitting h).1, .inr (hq h)⟩
  calling := by simp
  ended := by simp

theorem step_inv (hi : Inv s) (h : s.step e = some s') (hc : Orderly ⟨s, e, s'⟩) : Inv s' := by
  cases step_cases h with
  | spawn hst hd => exact hi.spawn hst hd
  | semWait hp => exact hi.search hp rfl rfl
  | startLock hp => exact hi.search hp rfl rfl
  | found hp hpub =>
    refine hi.setStart .read (by simp [hp]) (by simp [hp]) (by simp) fun _ => .inl ?_
    rw [← hi.published, hpub]
  | missed hp => exact hi.search hp rfl rfl
  | sleep hp => exact hi.search hp rfl rfl
  | read hp =>
    exact hi.setStart .unlock (by simp [hp]) (by simp [hp]) (by simp)
      fun _ => hi.found (by simp [hp])
  | startUnlock hp =>
    exact hi.setStart .returned (by simp [hp]) (by simp [hp]) (by simp)
      fun _ => hi.found (by simp [hp])
  | spurious hp => exact hi.search hp rfl rfl
  | post hp => exact hi.advance hp (by decide) rfl (by decide)
  | construct hp => exact hi.advance hp (by decide) rfl (by decide)
  | init hp => exact hi.advance hp (by decide) rfl (by decide)
  | lock hp => exact hi.advance hp (by decide) rfl (by decide)
  | publish hp => exact hi.setFunc hp (by decide) rfl (by simp [late])
  | wake hp hst =>
    have hset : Inv { s with func := .unlock } := hi.advance hp (by decide) rfl (by decide)
    exact hset.search hst rfl rfl
  | notify hp => exact hi.advance hp (by decide) rfl (by decide)
  | unlock hp => exact hi.advance hp (by decide) rfl (by decide)
  | loopReturned hp hstop =>
    exact hi.setFunc hp (by decide) (by rw [hi.published, hp]; rfl) fun _ => .inr hstop
  | relock hp => exact hi.advance hp (by decide) rfl (by decide)
  | clear hp => exact hi.setFunc hp (by decide) rfl (by simp [late])
  | release hp => exact hi.advance hp (by decide) rfl (by decide)
  | leave hp => exact hi.advance hp (by decide) rfl (by decide)
  | exiting hp => exact hi.begin (hc hp).1 (hc hp).2
  | running hp hpub =>
    refine hi.setDtor .load (by simp [hp]) (fun hq => ?_) (fun _ _ => ⟨hpub, by simp⟩) (by simp)
    exact .inr (hi.returned_of_quitting hq (by rw [hp]; rfl))
  | skip hp hpub =>
    have hnot : publishes s.func = false := by rw [← hi.published, hpub]
    have hfunc : s.func = .idle ∨ s.func = .returned := by
      rcases hi.begun (by simp [hp]) with hst | hst
      · exact .inl (hi.spawned.1 hst)
      · have hl := (hi.found (.inr (.inr hst))).resolve_left (by simp [hnot])
        exact .inr (hi.returned_of_quitting (hi.quitting_of_late hl) (by rw [hp]; rfl))
    refine hi.setDtor .members (by simp [hp]) (fun hq => ?_) (by simp) fun _ => hfunc
    exact .inr (hi.returned_of_quitting hq (by rw [hp]; rfl))
  | load hp =>
    obtain ⟨hpub, -⟩ := hi.calling true (.inl hp)
    refine hi.setDtor (.call s.published) (by simp [hp]) (fun hq => ?_)
      (fun _ _ => ⟨hpub, by simp [hpub]⟩) (by simp)
    exact .inr (hi.returned_of_quitting hq (by rw [hp]; rfl))
  | call hp ha hl =>
    have hst : s.start = .returned := by
      rcases hi.begun (by simp [hp]) with hst | hst
      · rw [hi.spawned.1 hst] at ha
        cases ha
      · exact hst
    have hset := hi.setDtor .wakeup (by simp [hp]) (fun _ => .inl rfl) (by simp) (by simp)
    exact hset.setLoop hl (fun h => EventLoop.enter_stays hl (hi.before h) (by simp))
      (fun h => EventLoop.stopped_stays hl (hi.after h)) fun _ _ => ⟨hst, rfl⟩
  | wakeup hp ha hl =>
    have hset := hi.setDtor .join (by simp [hp]) (fun _ => .inl rfl) (by simp) (by simp)
    exact hset.setLoop hl (fun h => EventLoop.enter_stays hl (hi.before h) (by simp))
      (fun h => EventLoop.stopped_stays hl (hi.after h)) fun hq _ => by cases hq
  | join hp hf =>
    exact hi.setDtor .members (by simp [hp]) (fun _ => .inr hf) (by simp) fun _ => .inr hf
  | members hp =>
    have hfunc := hi.ended (.inl hp)
    refine hi.setDtor .destroyed (by simp [hp]) (fun hq => ?_) (by simp) fun _ => hfunc
    exact .inr (hi.returned_of_quitting hq (by rw [hp]; rfl))
  | @loop le l ha hl =>
    have hentry (he : early s.func = true) : le ≠ .enter := by
      rintro rfl
      have hfunc : s.func = .loop := by simpa [admits] using ha
      simp [hfunc, early] at he
    refine hi.setLoop hl (fun he => EventLoop.enter_stays hl (hi.before he) (hentry he))
      (fun ha => EventLoop.stopped_stays hl (hi.after ha)) fun hq hne => ?_
    cases le with
    | quit t => exact hc.resolve_left hne
    | ownQuit => exact hc.resolve_left hne
    | _ => cases hq

/-- Where every `quit()` and the destructor come in order, the destructor calls `quit()`
only on a loop that is there, `threadFunc` does not touch a destroyed
`EventLoopThread`, and `startLoop` does not wait for a `threadFunc` that has returned. -/
theorem life_cycle {tr : List (Transition (EventLoopThread α) (ThreadEvent α))}
    (h : Run step init tr s) (hc : ∀ τ ∈ tr, Orderly τ) :
    (∀ p, s.dtor = .call p → p = true ∧ s.func.alive = true) ∧
    (s.dtor = .members ∨ s.dtor = .destroyed → s.func.touches = false) ∧
    ¬ (s.start = .waiting ∧ s.func = .returned) := by
  have hi : Inv s := h.invariant_of init_inv (fun _ _ _ => step_inv) hc
  refine ⟨fun p hd => ?_, fun hd => ?_, ?_⟩
  · obtain ⟨hpub, hcall⟩ := hi.calling p (.inr hd)
    rw [hi.published] at hpub
    refine ⟨by simpa [hd] using hcall, ?_⟩
    cases hf : s.func <;> rw [hf] at hpub <;> first | rfl | cases hpub
  · rcases hi.ended hd with hf | hf <;> rw [hf] <;> rfl
  · rintro ⟨hst, hf⟩
    have hq := hi.quitting (hi.quitting_of_late (by rw [hf]; rfl))
    rw [hst] at hq
    cases hq.1

/-- The loop ends on a `quit()` from elsewhere; the destructor comes after `threadFunc`. -/
theorem life_cycle_over : ∃ tr s, Run step init tr s ∧
    tr.map Transition.event = launch (inLoop [.enter, .quit 1, .wakeup 1, .test] ++
      (List.replicate 5 .threadFunc ++ List.replicate 3 .destructor)) ∧
    s.dtor = .destroyed ∧
    (∀ p, s.dtor = .call p → p = true ∧ s.func.alive = true) ∧
    (s.dtor = .members ∨ s.dtor = .destroyed → s.func.touches = false) ∧
    ¬ (s.start = .waiting ∧ s.func = .returned) := by
  obtain ⟨tr, s, hr, he, hc, hd⟩ := exists_run step (init : EventLoopThread ℕ)
    (launch (inLoop [.enter, .quit 1, .wakeup 1, .test] ++
      (List.replicate 5 .threadFunc ++ List.replicate 3 .destructor)))
    (P := fun tr s => (∀ τ ∈ tr, Orderly τ) ∧ s.dtor = .destroyed) (by decide)
  exact ⟨tr, s, hr, he, hd, life_cycle hr hc⟩

/-- A `quit()` from elsewhere, once between the destructor's read of `loop_` and its call,
once just before the destructor, once while `startLoop` has not looked yet: the destructor
calls a loop that is gone, `threadFunc` is about to unlock the mutex of an object that is
gone, `startLoop` waits for ever. -/
theorem life_cycle_broken :
    (∃ tr s, Run step (init : EventLoopThread ℕ) tr s ∧
      tr.map Transition.event = launch (.loop .enter :: .destructor :: .destructor ::
        .destructor :: .loop (.quit 1) :: .loop .test :: List.replicate 5 .threadFunc) ∧
      s.dtor = .call true ∧ s.func.alive = false) ∧
    (∃ tr s, Run step (init : EventLoopThread ℕ) tr s ∧
      tr.map Transition.event = launch (.loop .enter :: .loop (.quit 1) :: .loop .test ::
        .threadFunc :: .threadFunc :: .threadFunc :: List.replicate 3 .destructor) ∧
      s.dtor = .destroyed ∧ s.func = .release) ∧
    ∃ tr s, Run step (init : EventLoopThread ℕ) tr s ∧
      tr.map Transition.event = .startLoop :: (List.replicate 7 .threadFunc ++
        (.loop .enter :: .loop (.quit 1) :: .loop .test ::
          (List.replicate 5 .threadFunc ++ List.replicate 4 .startLoop))) ∧
      s.start = .waiting ∧ s.func = .returned :=
  ⟨exists_run _ _ _ (by decide), exists_run _ _ _ (by decide), exists_run _ _ _ (by decide)⟩

end EventLoopThread
end Armsy
