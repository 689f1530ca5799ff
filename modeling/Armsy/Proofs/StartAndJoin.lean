import Armsy.Proofs.EarlyRequests
import Armsy.Proofs.NextBatch
import Armsy.Proofs.ThreadLifeCycle

/-! That `startLoop` and the destructor come back. No notification is lost, so `startLoop`
returns however the two threads take turns. The destructor joins the thread when its
`quit()` came after the loop was entered; `loop()` clears an earlier one, and then the
destructor waits until somebody else calls `quit()`. -/

namespace Armsy

namespace EventLoop

variable {α : Type*} {l l' : EventLoop α} {e : LoopEvent α}

/-- The steps from here to the test of `quit_`, but for the functors. -/
def toTest : LoopPoint → ℕ
  | .poll => 5
  | .handle => 4
  | .swap => 3
  | .run => 2
  | .test => 1
  | _ => 0

/-- The steps left to a loop that has been told to quit, at most. -/
def toLeave (l : EventLoop α) : ℕ :=
  (if l.own.isSome then 1 else 0) + l.queue.waiting.length + toTest l.point

theorem toLeave_le (l : EventLoop α) : l.toLeave ≤ l.queue.waiting.length + 6 := by
  have htest : toTest l.point ≤ 5 := by
    cases l.point <;> decide
  unfold toLeave
  split_ifs <;> omega

theorem toLeave_lt (hs : l.step e = some l') (he : e = l.ownNext) (hpt : l.point ≠ .enter)
    (hq : l.quit = true) : l'.toLeave < l.toLeave := by
  cases step_cases hs with
  | enter h => exact absurd h hpt
  | stay _ hno =>
    rw [hq] at hno
    cases hno
  | leave h => simp [toLeave, toTest, h]
  | poll h => simp [toLeave, toTest, h]
  | setCalling h => simp [toLeave, toTest, h]
  | swap h =>
    simp only [toLeave, toTest, h, BatchQueue.waiting, BatchQueue.swap]
    simp
  | clearCalling h => simp [toLeave, toTest, h]
  | runNext h ho hb =>
    have hpop := BatchQueue.waiting_pop _ hb
    simp [toLeave, h, hpop]
  | ownWake ho | ownSkip ho =>
    have hsome := Option.isSome_iff_ne_none.2 ho
    simp [toLeave, hsome]
  | _ =>
    have hown := isOwn_ownNext l
    rw [← he] at hown
    cases hown

/-- A loop that has been told to quit stays so. -/
theorem quit_stays (hs : l.step e = some l') (hpt : l.point ≠ .enter) (hq : l.quit = true) :
    l'.point ≠ .enter ∧ l'.quit = true := by
  cases step_cases hs with
  | enter h => exact absurd h hpt
  | leave | stay | poll | setCalling | swap | clearCalling => exact ⟨by simp, hq⟩
  | ownQuit | quit => exact ⟨hpt, rfl⟩
  | _ => exact ⟨hpt, hq⟩

/-- A loop that has not been told to quit since its entry, or is not entered yet, goes on. -/
theorem unheeded_stays (hs : l.step e = some l')
    (h : l.point = .enter ∨ l.quit = false ∧ l.point ≠ .stopped) (he : quitter e = none) :
    l'.point = .enter ∨ l'.quit = false ∧ l'.point ≠ .stopped := by
  cases step_cases hs with
  | enter => exact .inr ⟨rfl, by simp⟩
  | leave hp hq => simp [hp, hq] at h
  | stay hp | poll hp | setCalling hp | swap hp | clearCalling hp =>
    simp only [hp] at h
    exact .inr ⟨(h.resolve_left (by simp)).1, by simp⟩
  | ownQuit | quit => cases he
  | _ => exact h

end EventLoop

namespace EventLoopThread

variable {α : Type*} {s s' : EventLoopThread α} {e : ThreadEvent α}
  {tr tr₁ tr₂ : List (Transition (EventLoopThread α) (ThreadEvent α))}
  {τ : Transition (EventLoopThread α) (ThreadEvent α)}

/-- The steps left to `threadFunc`, and those that its notification gives `startLoop`. -/
def restOfFunc : FuncPoint → ℕ
  | .post => 15
  | .construct => 14
  | .init => 13
  | .lock => 12
  | .publish => 11
  | .notify => 10
  | .unlock => 6
  | .loop => 5
  | .relock => 4
  | .clear => 3
  | .release => 2
  | .leave => 1
  | _ => 0

/-! ### `startLoop` -/

/-- A step of `startLoop`, or of the new thread outside `loop()`. -/
def launches : ThreadEvent α → Bool
  | .startLoop | .threadFunc | .loop .ownWake => true
  | _ => false

/-- `notify_one` is still to come. -/
def beforeNotify : FuncPoint → Bool
  | .post | .construct | .init | .lock | .publish | .notify => true
  | _ => false

/-- What the mutex is for: `startLoop` goes to sleep on a `loop_` it has just seen null. -/
structure Awaited (s : EventLoopThread α) : Prop where
  inv : Inv s
  exclusive : s.func.holds = true → s.start.holds = false
  asleep : s.start = .sleep → s.published = false
  waits : s.start = .waiting → beforeNotify s.func = true

theorem init_awaited : Awaited (init : EventLoopThread α) :=
  ⟨init_inv, fun h => (by cases h), fun h => (by cases h), fun h => (by cases h)⟩

theorem Inv.not_late (hi : Inv s) (h : s.start ≠ .returned) : late s.func = false := by
  rw [← Bool.not_eq_true]
  intro hl
  exact h (hi.quitting (hi.quitting_of_late hl)).1

/-- Falling asleep, `startLoop` has the mutex, so the thread has not come to publish. -/
theorem Awaited.beforeNotify_of_sleep (h : Awaited s) (hst : s.start = .sleep) :
    beforeNotify s.func = true := by
  have hpub := h.asleep hst
  rw [h.inv.published] at hpub
  have hlate := h.inv.not_late (by simp [hst])
  have hidle : s.func ≠ .idle := by
    intro h0
    have := h.inv.spawned.2 h0
    simp [hst] at this
  cases hf : s.func with
  | idle => exact absurd hf hidle
  | post | construct | init | lock | publish | notify => rfl
  | unlock | loop => simp [hf, publishes] at hpub
  | relock | clear | release | leave | returned => simp [hf, late] at hlate

theorem Awaited.step (h : Awaited s) (hs : s.step e = some s') (hc : Orderly ⟨s, e, s'⟩) :
    Awaited s' := by
  have hi := step_inv h.inv hs hc
  have hex := h.exclusive
  have hasleep := h.asleep
  have hfree {p : StartPoint} (hp : s.start = p) (hh : p.holds = true) : s.func.holds = false := by
    rw [← Bool.not_eq_true]
    intro hf
    have := hex hf
    rw [hp, hh] at this
    cases this
  have hpast {g : FuncPoint} (hg : s.func = g) (hb : beforeNotify g = false) :
      s.start ≠ .waiting := by
    intro hst
    have := h.waits hst
    rw [hg, hb] at this
    cases this
  cases step_cases hs with
  | spawn => exact ⟨hi, by simp [FuncPoint.holds], by simp, by simp⟩
  | semWait => exact ⟨hi, fun _ => rfl, by simp, by simp⟩
  | startLock hp hf => exact ⟨hi, by simp [hf], by simp, by simp⟩
  | found hp => exact ⟨hi, by simp [hfree hp rfl], by simp, by simp⟩
  | missed hp hpub => exact ⟨hi, by simp [hfree hp rfl], fun _ => hpub, by simp⟩
  | sleep hp =>
    exact ⟨hi, fun _ => rfl, by simp, fun _ => h.beforeNotify_of_sleep hp⟩
  | read hp => exact ⟨hi, by simp [hfree hp rfl], by simp, by simp⟩
  | startUnlock hp => exact ⟨hi, fun _ => rfl, by simp, by simp⟩
  | spurious hp => exact ⟨hi, fun _ => rfl, by simp, by simp⟩
  | post hp | construct hp | init hp =>
    exact ⟨hi, by simp [FuncPoint.holds], hasleep, fun _ => rfl⟩
  | lock hp hst => exact ⟨hi, fun _ => hst, hasleep, fun _ => rfl⟩
  | publish hp =>
    have hst := hex (by rw [hp]; rfl)
    refine ⟨hi, fun _ => hst, ?_, fun _ => rfl⟩
    intro hsl
    have hsl : s.start = .sleep := hsl
    rw [hsl] at hst
    cases hst
  | wake hp hst => exact ⟨hi, fun _ => rfl, by simp, by simp⟩
  | notify hp hst =>
    exact ⟨hi, fun _ => hex (by rw [hp]; rfl), hasleep, fun hw => absurd hw hst⟩
  | unlock hp => exact ⟨hi, by simp [FuncPoint.holds], hasleep, fun hw => absurd hw (hpast hp rfl)⟩
  | loopReturned hp =>
    exact ⟨hi, by simp [FuncPoint.holds], hasleep, fun hw => absurd hw (hpast hp rfl)⟩
  | relock hp hst => exact ⟨hi, fun _ => hst, hasleep, fun hw => absurd hw (hpast hp rfl)⟩
  | clear hp =>
    exact ⟨hi, fun _ => hex (by rw [hp]; rfl), fun _ => rfl, fun hw => absurd hw (hpast hp rfl)⟩
  | release hp => exact ⟨hi, by simp [FuncPoint.holds], hasleep, fun hw => absurd hw (hpast hp rfl)⟩
  | leave hp => exact ⟨hi, by simp [FuncPoint.holds], hasleep, fun hw => absurd hw (hpast hp rfl)⟩
  | exiting | running | skip | load | call | wakeup | join | members | loop =>
    exact ⟨hi, hex, hasleep, h.waits⟩

/-- The steps left to `startLoop` until it returns or falls asleep. -/
def restOfStart : StartPoint → ℕ
  | .semWait => 5
  | .lock => 4
  | .test => 3
  | .sleep | .read => 2
  | .waiting | .unlock => 1
  | _ => 0

def launchWork (s : EventLoopThread α) : ℕ :=
  (if s.loop.own.isSome then 1 else 0) + restOfFunc s.func + restOfStart s.start

theorem launchWork_lt (hs : s.step e = some s') (he : launches e = true) (hst : s.start ≠ .idle) :
    launchWork s' < launchWork s := by
  cases step_cases hs with
  | spawn hp => exact absurd hp hst
  | semWait hp | startLock hp | found hp | missed hp | sleep hp | read hp | startUnlock hp =>
    simp [launchWork, restOfStart, hp]
  | post hp | construct hp | init hp | lock hp | publish hp | notify hp | unlock hp
  | loopReturned hp | relock hp | clear hp | release hp | leave hp =>
    simp [launchWork, restOfFunc, hp]
  | wake hp hw =>
    simp only [launchWork, restOfFunc, restOfStart, hp, hw]
    omega
  | @loop le l ha hl =>
    cases le with
    | ownWake =>
      cases EventLoop.step_cases hl with
      | ownWake ho | ownSkip ho =>
        have hsome := Option.isSome_iff_ne_none.2 ho
        simp [launchWork, hsome]
    | _ => cases he
  | _ => cases he

/-- Short of its return, `startLoop` can go on, or the thread that it waits for can. -/
theorem Awaited.exists_launch (h : Awaited s) (h0 : s.start ≠ .idle) (h1 : s.start ≠ .returned) :
    ∃ e, launches e = true ∧ ∃ s', s.step e = some s' := by
  have hfunc (hb : beforeNotify s.func = true) (hst : s.start.holds = false) :
      ∃ e, launches e = true ∧ ∃ s', s.step e = some s' := by
    cases hf : s.func with
    | init =>
      cases ho : s.loop.own with
      | none => exact ⟨.threadFunc, rfl, by simp [EventLoopThread.step, stepFunc, hf, ho]⟩
      | some n =>
        obtain ⟨l, hl⟩ : ∃ l, s.loop.step .ownWake = some l := by simp [EventLoop.step, ho]
        exact ⟨.loop .ownWake, rfl, by simp [EventLoopThread.step, admits, hf, hl]⟩
    | lock => exact ⟨.threadFunc, rfl, by simp [EventLoopThread.step, stepFunc, hf, hst]⟩
    | post | construct | publish | notify =>
      exact ⟨.threadFunc, rfl, by simp [EventLoopThread.step, stepFunc, hf]⟩
    | _ => simp [hf, beforeNotify] at hb
  cases hst : s.start with
  | idle => exact absurd hst h0
  | returned => exact absurd hst h1
  | test | sleep | read | unlock =>
    exact ⟨.startLoop, rfl, by simp [EventLoopThread.step, stepStart, hst]⟩
  | waiting => exact hfunc (h.waits hst) (by rw [hst]; rfl)
  | semWait =>
    by_cases hf : s.func = .post
    · exact hfunc (by rw [hf]; rfl) (by rw [hst]; rfl)
    · exact ⟨.startLoop, rfl, by simp [EventLoopThread.step, stepStart, hst, hf]⟩
  | lock =>
    cases hh : s.func.holds with
    | false => exact ⟨.startLoop, rfl, by simp [EventLoopThread.step, stepStart, hst, hh]⟩
    | true =>
      -- whoever has the mutex gives it back
      cases hf : s.func with
      | publish | notify | unlock | clear | release =>
        exact ⟨.threadFunc, rfl, by simp [EventLoopThread.step, stepFunc, hf]⟩
      | _ => simp [hf, FuncPoint.holds] at hh

theorem started_stays (hs : s.step e = some s') (h : s.start ≠ .idle) : s'.start ≠ .idle := by
  cases step_cases hs with
  | spawn | semWait | startLock | found | missed | sleep | read | startUnlock | spurious | wake =>
    simp
  | _ => exact h

theorem orderly_of_launches (he : launches e = true) : Orderly ⟨s, e, s'⟩ := by
  cases e with
  | startLoop | threadFunc => trivial
  | loop le =>
    cases le with
    | ownWake => trivial
    | _ => cases he
  | _ => cases he

/-- `startLoop` returns, and with the address of a loop that is there: in a run where every
`quit()` and the destructor come in order, whichever way it and the new thread take turns
from then on, with no wake-up from elsewhere, they get there within 21 steps. -/
theorem startLoop_returns (h : Run step init tr s) (hc : ∀ σ ∈ tr, Orderly σ)
    (hst : s.start ≠ .idle) :
    (s.start = .read → s.published = true ∧ s.func.alive = true) ∧
      ∀ tr' s', Run step s tr' s' → (∀ σ ∈ tr', launches σ.event = true) →
        tr'.length ≤ 21 ∧ (s'.start = .returned ∨
          ∃ e, launches e = true ∧ ∃ s'', s'.step e = some s'') := by
  have hi : Awaited s := h.invariant_of init_awaited (fun _ _ _ hi hs hc => hi.step hs hc) hc
  constructor
  · intro hread
    have hlate := hi.inv.not_late (by simp [hread])
    have hpub := (hi.inv.found (.inl hread)).resolve_right (by simp [hlate])
    refine ⟨hi.inv.published.trans hpub, ?_⟩
    cases hf : s.func <;> rw [hf] at hpub <;> first | rfl | cases hpub
  · intro tr' s' hr hown
    have hstep (s : EventLoopThread α) (e : ThreadEvent α) (s' : EventLoopThread α)
        (hi : Awaited s ∧ s.start ≠ .idle) (hs : s.step e = some s') (he : launches e = true) :
        (Awaited s' ∧ s'.start ≠ .idle) ∧ launchWork s' < launchWork s := by
      have hi' := hi.1.step hs (orderly_of_launches he)
      exact ⟨⟨hi', started_stays hs hi.2⟩, launchWork_lt hs he hi.2⟩
    obtain ⟨⟨hi', h0⟩, hlen⟩ := hr.length_le_of_measure launchWork hstep ⟨hi, hst⟩ hown
    refine ⟨?_, ?_⟩
    · have hfunc : restOfFunc s.func ≤ 15 := by cases s.func <;> decide
      have hstart : restOfStart s.start ≤ 5 := by cases s.start <;> decide
      have hwork : launchWork s ≤ 21 := by
        unfold launchWork
        split_ifs <;> omega
      omega
    · by_cases h1 : s'.start = .returned
      · exact .inl h1
      · exact .inr (hi'.exists_launch h0 h1)

/-- `startLoop` has gone to sleep before the new thread has come to its lock. -/
theorem startLoop_returns_asleep : ∃ tr s, Run step (init : EventLoopThread ℕ) tr s ∧
    tr.map Transition.event = .startLoop :: .threadFunc :: List.replicate 4 .startLoop ∧
    s.start = .waiting ∧ (s.start = .read → s.published = true ∧ s.func.alive = true) ∧
    ∀ tr' s', Run step s tr' s' → (∀ σ ∈ tr', launches σ.event = true) →
      tr'.length ≤ 21 ∧ (s'.start = .returned ∨
        ∃ e, launches e = true ∧ ∃ s'', s'.step e = some s'') := by
  obtain ⟨tr, s, hr, he, hc, hst⟩ := exists_run step (init : EventLoopThread ℕ)
    (.startLoop :: .threadFunc :: List.replicate 4 .startLoop)
    (P := fun tr s => (∀ τ ∈ tr, Orderly τ) ∧ s.start = .waiting) (by decide)
  exact ⟨tr, s, hr, he, hst, startLoop_returns hr hc (by simp [hst])⟩

/-! ### The destructor -/

/-- A step of the destructor, of `threadFunc` or of its loop, which does not poll when
nothing would wake it. -/
def Duty (σ : Transition (EventLoopThread α) (ThreadEvent α)) : Prop :=
  match σ.event with
  | .destructor | .threadFunc => True
  | .loop le => le = σ.pre.loop.ownNext ∧ (σ.pre.loop.point = .poll → 0 < σ.pre.loop.eventfd)
  | _ => False

/-- Somebody other than the destructor calls `quit()`. -/
def isQuit : ThreadEvent α → Bool
  | .loop le => (EventLoop.quitter le).isSome
  | _ => false

/-- The destructor has set the flag of a loop that heeds it. -/
structure Dismissed (s : EventLoopThread α) : Prop where
  inv : Inv s
  quitting : Quitting s.loop
  calling : s.dtor = .wakeup → s.loop.callers owner = .quitting
  awake : s.dtor = .join → s.loop.point = .poll → 0 < s.loop.eventfd
  past : s.dtor = .wakeup ∨ s.dtor = .join ∨ s.dtor = .members ∨ s.dtor = .destroyed

theorem Dismissed.step (h : Dismissed s) (hs : s.step e = some s') (hc : Orderly ⟨s, e, s'⟩) :
    Dismissed s' := by
  have hi := step_inv h.inv hs hc
  have hcall := quitting_step h.calling hs
  obtain ⟨-, ⟨hpt, hq⟩, -, hawake, hpast⟩ := h
  cases step_cases hs with
  | exiting hp | running hp | skip hp | load hp | call hp => simp [hp] at hpast
  | wakeup hp ha hl =>
    refine ⟨hi, EventLoop.quit_stays hl hpt hq, hcall, fun _ _ => ?_, by simp⟩
    cases EventLoop.step_cases hl with
    | wakeup => exact EventLoop.wakeup_pos _
  | join | members => exact ⟨hi, ⟨hpt, hq⟩, hcall, by simp, by simp⟩
  | loop ha hl =>
    refine ⟨hi, EventLoop.quit_stays hl hpt hq, hcall, fun hd => ?_, hpast⟩
    have hheed : EventLoop.Heeded s.loop := ⟨hpt, hq, hawake hd⟩
    exact (hheed.step hl).awake
  | _ => exact ⟨hi, ⟨hpt, hq⟩, hcall, hawake, hpast⟩

/-- The steps left to the destructor. -/
def restOfDtor : DtorPoint → ℕ
  | .wakeup => 3
  | .join => 2
  | .members => 1
  | _ => 0

def leaveWork (s : EventLoopThread α) : ℕ :=
  s.loop.toLeave + restOfFunc s.func + restOfDtor s.dtor

theorem Dismissed.leaveWork_lt (h : Dismissed s) (hs : s.step e = some s')
    (hd : Duty ⟨s, e, s'⟩) : leaveWork s' < leaveWork s := by
  obtain ⟨-, ⟨hpt, hq⟩, -, -, hpast⟩ := h
  cases step_cases hs with
  | exiting hp | running hp | skip hp | load hp | call hp => simp [hp] at hpast
  | wakeup hp ha hl =>
    cases EventLoop.step_cases hl with
    | wakeup => simp [leaveWork, EventLoop.toLeave, restOfDtor, hp]
  | join hp | members hp => simp [leaveWork, restOfDtor, hp]
  | post hp | construct hp | init hp | lock hp | publish hp | notify hp | unlock hp
  | loopReturned hp | relock hp | clear hp | release hp | leave hp | wake hp =>
    simp [leaveWork, restOfFunc, hp]
  | loop ha hl =>
    have hlt := EventLoop.toLeave_lt hl hd.1 hpt hq
    simp only [leaveWork]
    omega
  | _ => exact hd.elim

theorem Dismissed.leaveWork_le (h : Dismissed s) :
    leaveWork s ≤ s.loop.queue.waiting.length + 14 := by
  have hloop := s.loop.toLeave_le
  have hfunc : restOfFunc s.func ≤ 5 := by
    cases hf : s.func with
    | idle | post | construct | init | lock | publish | notify | unlock =>
      exact absurd (h.inv.before (by rw [hf]; rfl)) h.quitting.1
    | _ => decide
  have hdtor : restOfDtor s.dtor ≤ 3 := by
    cases s.dtor <;> simp [restOfDtor]
  unfold leaveWork
  omega

theorem orderly_of_duty (hd : Duty ⟨s, e, s'⟩) (h : s.dtor ≠ .idle) : Orderly ⟨s, e, s'⟩ := by
  cases e with
  | destructor => exact fun h0 => absurd h0 h
  | threadFunc => trivial
  | loop le =>
    have hown := EventLoop.isOwn_ownNext s.loop
    rw [← hd.1] at hown
    cases le with
    | quit | ownQuit => cases hown
    | _ => trivial
  | _ => exact hd.elim

/-- In `loop()` the thread goes on by itself, except to sleep on an empty eventfd. -/
theorem exists_loop_duty (hf : s.func = .loop) (hpt : s.loop.point ≠ .enter)
    (hstop : s.loop.point ≠ .stopped) (hpoll : s.loop.point = .poll → 0 < s.loop.eventfd) :
    ∃ e s', s.step e = some s' ∧ Duty ⟨s, e, s'⟩ := by
  obtain ⟨l, hl⟩ := EventLoop.exists_ownNext hstop
  have hadm : s.admits s.loop.ownNext = true := by
    have hown := EventLoop.isOwn_ownNext s.loop
    cases hn : s.loop.ownNext with
    | ownWake => simp [admits, hf, hpt]
    | enter | test | poll | setCalling | swap | runNext | clearCalling => simp [admits, hf]
    | _ => rw [hn] at hown; cases hown
  refine ⟨.loop s.loop.ownNext, { s with loop := l }, ?_, rfl, hpoll⟩
  simp [EventLoopThread.step, hadm, hl]

/-- Short of its return, the destructor or the thread it waits for can go on, unless the
thread has destroyed its loop in the middle of the destructor's `quit()`. -/
theorem Dismissed.exists_duty (h : Dismissed s) (h0 : s.dtor ≠ .destroyed)
    (h1 : ¬ (s.dtor = .wakeup ∧ s.func = .returned)) :
    ∃ e s', s.step e = some s' ∧ Duty ⟨s, e, s'⟩ := by
  obtain ⟨hi, ⟨hpt, hq⟩, hcall, hawake, hpast⟩ := h
  have hfunc (hs : ∃ s', s.stepFunc = some s') : ∃ e s', s.step e = some s' ∧ Duty ⟨s, e, s'⟩ := by
    obtain ⟨s', hs⟩ := hs
    exact ⟨.threadFunc, s', hs, trivial⟩
  have hdtor (hs : ∃ s', s.stepDtor = some s') : ∃ e s', s.step e = some s' ∧ Duty ⟨s, e, s'⟩ := by
    obtain ⟨s', hs⟩ := hs
    exact ⟨.destructor, s', hs, trivial⟩
  have hstart : s.start = .returned := (hi.quitting ⟨hpt, hq⟩).1
  cases hf : s.func with
  | idle | post | construct | init | lock | publish | notify | unlock =>
    exact absurd (hi.before (by rw [hf]; rfl)) hpt
  | loop =>
    by_cases hstop : s.loop.point = .stopped
    · apply hfunc
      simp [stepFunc, hf, hstop]
    by_cases hsleep : s.loop.point = .poll ∧ s.loop.eventfd = 0
    · -- the wake-up of the destructor's `quit()` is still due
      have hend : ¬ (s.dtor = .members ∨ s.dtor = .destroyed) := by
        intro hd
        simpa [hf] using hi.ended hd
      have hjoin : s.dtor ≠ .join := by
        intro hd
        have := hawake hd hsleep.1
        omega
      have hd : s.dtor = .wakeup := by
        rcases hpast with hd | hd | hd | hd
        · exact hd
        · exact absurd hd hjoin
        · exact absurd (.inl hd) hend
        · exact absurd hd h0
      apply hdtor
      simp [stepDtor, hd, hf, FuncPoint.alive, EventLoop.step, hcall hd]
    · apply exists_loop_duty hf hpt hstop
      intro hpoll
      have hne : s.loop.eventfd ≠ 0 := fun hz => hsleep ⟨hpoll, hz⟩
      exact Nat.pos_of_ne_zero hne
  | relock =>
    apply hfunc
    simp [stepFunc, hf, hstart, StartPoint.holds]
  | clear | release | leave =>
    apply hfunc
    simp [stepFunc, hf]
  | returned =>
    rcases hpast with hd | hd | hd | hd
    · exact absurd ⟨hd, hf⟩ h1
    · apply hdtor
      simp [stepDtor, hd, hf]
    · apply hdtor
      simp [stepDtor, hd]
    · exact absurd hd h0

/-- The destructor's `quit()` came too early: `loop()` clears the flag, or has. -/
structure Unheeded (s : EventLoopThread α) : Prop where
  waiting : s.dtor = .wakeup ∨ s.dtor = .join
  running : late s.func = false
  loop : s.loop.point = .enter ∨ s.loop.quit = false ∧ s.loop.point ≠ .stopped

theorem Unheeded.step (h : Unheeded s) (hs : s.step e = some s') (he : isQuit e = false) :
    Unheeded s' := by
  obtain ⟨hwait, hrun, hloop⟩ := h
  cases step_cases hs with
  | exiting hp | running hp | skip hp | load hp | call hp | members hp => simp [hp] at hwait
  | wakeup hp ha hl => exact ⟨.inr rfl, hrun, EventLoop.unheeded_stays hl hloop rfl⟩
  | join hp hf => simp [hf, late] at hrun
  | loopReturned hp hstop => simp [hstop] at hloop
  | relock hp | clear hp | release hp | leave hp => simp [hp, late] at hrun
  | spawn | post | construct | init | lock | publish | wake | notify | unlock =>
    exact ⟨hwait, rfl, hloop⟩
  | loop ha hl =>
    have hq : EventLoop.quitter _ = none :=
      Option.not_isSome_iff_eq_none.1 (by simpa [isQuit] using he)
    exact ⟨hwait, hrun, EventLoop.unheeded_stays hl hloop hq⟩
  | _ => exact ⟨hwait, hrun, hloop⟩

/-- The call of `quit()` in the destructor. -/
theorem called (hi : Inv s) (hs : s.step .destructor = some s') {p : Bool}
    (hp : s.dtor = .call p) : (s.loop.point ≠ .enter → Dismissed s') ∧
      (s.loop.point = .enter → Unheeded s') := by
  have hi' : Inv s' := step_inv hi hs fun h0 => by simp [hp] at h0
  cases step_cases hs with
  | call hd ha hl =>
    cases EventLoop.step_cases hl with
    | quit =>
      constructor
      · intro hent
        exact ⟨hi', ⟨hent, rfl⟩, fun _ => by simp, by simp, .inl rfl⟩
      · intro hent
        refine ⟨.inl rfl, ?_, .inl hent⟩
        rw [← Bool.not_eq_true]
        intro hlate
        have hstop := hi.after hlate
        rw [hent] at hstop
        cases hstop
  | exiting hd | running hd | skip hd | load hd | wakeup hd | join hd | members hd =>
    simp [hp] at hd

/-- What becomes of the destructor once it calls `quit()`. If the loop has been entered, it
returns, whichever way it and the thread take turns, unless the thread destroys the loop
before the wake-up of that `quit()`; if not, it does not return before another `quit()`. -/
theorem destructor_returns (h : Run step init tr s) (hc : ∀ σ ∈ tr, Orderly σ)
    (he : tr = tr₁ ++ τ :: tr₂) (hτ : τ.event = .destructor) (hcall : ∃ p, τ.pre.dtor = .call p) :
    (τ.pre.loop.point ≠ .enter → ∀ tr' s', Run step s tr' s' → (∀ σ ∈ tr', Duty σ) →
      tr'.length ≤ s.loop.queue.waiting.length + 14 ∧
        (s'.dtor = .destroyed ∨ s'.dtor = .wakeup ∧ s'.func = .returned ∨
          ∃ e s'', s'.step e = some s'' ∧ Duty ⟨s', e, s''⟩)) ∧
      (τ.pre.loop.point = .enter → (∀ σ ∈ tr₂, isQuit σ.event = false) →
        s.dtor = .wakeup ∨ s.dtor = .join) := by
  obtain ⟨hr₁, hs⟩ := h.upTo he
  have hrest := h.after he
  have hpre : Inv τ.pre := by
    apply hr₁.invariant_of init_inv fun _ _ _ => step_inv
    intro σ hσ
    exact hc σ (he ▸ List.mem_append_left _ hσ)
  rw [hτ] at hs
  obtain ⟨p, hp⟩ := hcall
  obtain ⟨hdismiss, hignore⟩ := called hpre hs hp
  constructor
  · intro hent
    have hd : Dismissed s := by
      apply hrest.invariant_of (hdismiss hent) fun _ _ _ hi hs hc => hi.step hs hc
      intro σ hσ
      exact hc σ (he ▸ by simp [hσ])
    intro tr' s' hr hown
    have hstep (s : EventLoopThread α) (e : ThreadEvent α) (s' : EventLoopThread α)
        (hi : Dismissed s) (hs : s.step e = some s') (hd : Duty ⟨s, e, s'⟩) :
        Dismissed s' ∧ leaveWork s' < leaveWork s := by
      refine ⟨hi.step hs (orderly_of_duty hd ?_), hi.leaveWork_lt hs hd⟩
      intro h0
      simpa [h0] using hi.past
    obtain ⟨hd', hlen⟩ := hr.length_le_of_measure leaveWork hstep hd hown
    refine ⟨?_, ?_⟩
    · have hwork := hd.leaveWork_le
      omega
    · by_cases h0 : s'.dtor = .destroyed
      · exact .inl h0
      by_cases h1 : s'.dtor = .wakeup ∧ s'.func = .returned
      · exact .inr (.inl h1)
      · exact .inr (.inr (hd'.exists_duty h0 h1))
  · intro hent hno
    have hu : Unheeded s :=
      hrest.invariant_of (hignore hent) (fun _ _ _ hi hs he => hi.step hs he) hno
    exact hu.waiting

/-- The loop is about to poll on a counter of 0 when the destructor sets its flag. -/
theorem destructor_returns_polling : ∃ tr₁ τ s,
    Run step (init : EventLoopThread ℕ) (tr₁ ++ [τ]) s ∧
    tr₁.map Transition.event = launch (inLoop [.enter, .test] ++ List.replicate 3 .destructor) ∧
    τ.event = .destructor ∧ s.loop.point = .poll ∧ s.loop.eventfd = 0 ∧
    ∀ tr' s', Run step s tr' s' → (∀ σ ∈ tr', Duty σ) →
      tr'.length ≤ s.loop.queue.waiting.length + 14 ∧
        (s'.dtor = .destroyed ∨ s'.dtor = .wakeup ∧ s'.func = .returned ∨
          ∃ e s'', s'.step e = some s'' ∧ Duty ⟨s', e, s''⟩) := by
  obtain ⟨tr₁, s, hr, he, hc, hd, hf, hpt, hfd, hcall⟩ :=
    exists_run step (init : EventLoopThread ℕ)
      (launch (inLoop [.enter, .test] ++ List.replicate 3 .destructor))
      (P := fun tr s => (∀ τ ∈ tr, Orderly τ) ∧ s.dtor = .call true ∧ s.func = .loop ∧
        s.loop.point = .poll ∧ s.loop.eventfd = 0 ∧ s.loop.callers owner = .idle) (by decide)
  obtain ⟨s', hs⟩ : ∃ s', s.step .destructor = some s' := by
    simp [step, stepDtor, hd, hf, FuncPoint.alive, EventLoop.step, hcall]
  have hsame : s'.loop.point = s.loop.point ∧ s'.loop.eventfd = s.loop.eventfd := by
    simp only [step, stepDtor, hd, hf, FuncPoint.alive, EventLoop.step, hcall] at hs
    cases hs
    exact ⟨rfl, rfl⟩
  have hall : ∀ τ ∈ tr₁ ++ [⟨s, .destructor, s'⟩], Orderly τ := by
    intro τ hτ
    rcases List.mem_append.1 hτ with hτ | hτ
    · exact hc τ hτ
    · obtain rfl := List.mem_singleton.1 hτ
      exact fun h0 => by simp [hd] at h0
  exact ⟨tr₁, _, s', hr.snoc hs, he, rfl, hsame.1.trans hpt, hsame.2.trans hfd,
    (destructor_returns (hr.snoc hs) hall rfl rfl ⟨true, hd⟩).1 (by simp [hpt])⟩

/-- The thread sees the flag, leaves the loop and destroys it, all before the destructor
comes to write to the eventfd of that loop. -/
theorem quit_outlives_loop : ∃ tr s, Run step (init : EventLoopThread ℕ) tr s ∧
    tr.map Transition.event = launch (.loop .enter :: List.replicate 4 .destructor ++
      .loop .test :: List.replicate 5 .threadFunc) ∧
    (∀ τ ∈ tr, Orderly τ) ∧ s.dtor = .wakeup ∧ s.func = .returned :=
  exists_run _ _ _ (by decide)

end EventLoopThread
end Armsy
