import Armsy.Model.EventLoopThread

/-! What one step of an `EventLoopThread` can do, and that the steps it takes in the
loop are steps of `EventLoop`: its runs are, seen from the loop, runs of the loop. -/

namespace Armsy
namespace EventLoopThread

variable {α : Type*}

/-- `Took s e s'`: the step by event `e` from `s` leads to `s'`. -/
inductive Took (s : EventLoopThread α) : ThreadEvent α → EventLoopThread α → Prop
  | spawn : s.start = .idle → s.dtor = .idle →
      Took s .startLoop { s with start := .semWait, func := .post }
  | semWait : s.start = .semWait → s.func ≠ .post → Took s .startLoop { s with start := .lock }
  | startLock : s.start = .lock → s.func.holds = false → Took s .startLoop { s with start := .test }
  | found : s.start = .test → s.published = true → Took s .startLoop { s with start := .read }
  | missed : s.start = .test → s.published = false → Took s .startLoop { s with start := .sleep }
  | sleep : s.start = .sleep → Took s .startLoop { s with start := .waiting }
  | read : s.start = .read → Took s .startLoop { s with start := .unlock }
  | startUnlock : s.start = .unlock → Took s .startLoop { s with start := .returned }
  | post : s.func = .post → Took s .threadFunc { s with func := .construct }
  | construct : s.func = .construct → Took s .threadFunc { s with func := .init }
  | init : s.func = .init → Took s .threadFunc { s with func := .lock }
  | lock : s.func = .lock → s.start.holds = false → Took s .threadFunc { s with func := .publish }
  | publish : s.func = .publish →
      Took s .threadFunc { s with func := .notify, published := true }
  | wake : s.func = .notify → s.start = .waiting →
      Took s .threadFunc { s with func := .unlock, start := .lock }
  | notify : s.func = .notify → s.start ≠ .waiting → Took s .threadFunc { s with func := .unlock }
  | unlock : s.func = .unlock → Took s .threadFunc { s with func := .loop }
  | loopReturned : s.func = .loop → s.loop.point = .stopped →
      Took s .threadFunc { s with func := .relock }
  | relock : s.func = .relock → s.start.holds = false → Took s .threadFunc { s with func := .clear }
  | clear : s.func = .clear → Took s .threadFunc { s with func := .release, published := false }
  | release : s.func = .release → Took s .threadFunc { s with func := .leave }
  | leave : s.func = .leave → Took s .threadFunc { s with func := .returned }
  | exiting : s.dtor = .idle → Took s .destructor { s with dtor := .test }
  | running : s.dtor = .test → s.published = true → Took s .destructor { s with dtor := .load }
  | skip : s.dtor = .test → s.published = false → Took s .destructor { s with dtor := .members }
  | load : s.dtor = .load → Took s .destructor { s with dtor := .call s.published }
  | call {l : EventLoop α} : s.dtor = .call true → s.func.alive = true →
      s.loop.step (.quit owner) = some l →
      Took s .destructor { s with loop := l, dtor := .wakeup }
  | wakeup {l : EventLoop α} : s.dtor = .wakeup → s.func.alive = true →
      s.loop.step (.wakeup owner) = some l → Took s .destructor { s with loop := l, dtor := .join }
  | join : s.dtor = .join → s.func = .returned → Took s .destructor { s with dtor := .members }
  | members : s.dtor = .members → Took s .destructor { s with dtor := .destroyed }
  | spurious : s.start = .waiting → Took s .spurious { s with start := .lock }
  | loop {e : LoopEvent α} {l : EventLoop α} : s.admits e = true → s.loop.step e = some l →
      Took s (.loop e) { s with loop := l }

variable {s s' : EventLoopThread α} {e : ThreadEvent α}

theorem stepStart_cases (h : s.stepStart = some s') : Took s .startLoop s' := by
  unfold stepStart at h
  cases hp : s.start with
  | idle =>
    simp only [hp, Option.ite_none_right_eq_some, Option.some.injEq] at h
    obtain ⟨hd, rfl⟩ := h
    exact .spawn hp hd
  | semWait =>
    simp only [hp, Option.ite_none_left_eq_some, Option.some.injEq] at h
    obtain ⟨hf, rfl⟩ := h
    exact .semWait hp hf
  | lock =>
    simp only [hp, Option.ite_none_left_eq_some, Option.some.injEq] at h
    obtain ⟨hf, rfl⟩ := h
    exact .startLock hp (by simpa using hf)
  | test =>
    simp only [hp, Option.some.injEq] at h
    subst h
    split_ifs with hpub
    · exact .found hp hpub
    · exact .missed hp (by simpa using hpub)
  | sleep =>
    simp only [hp, Option.some.injEq] at h
    exact h ▸ .sleep hp
  | read =>
    simp only [hp, Option.some.injEq] at h
    exact h ▸ .read hp
  | unlock =>
    simp only [hp, Option.some.injEq] at h
    exact h ▸ .startUnlock hp
  | waiting | returned => simp [hp] at h

theorem stepFunc_cases (h : s.stepFunc = some s') : Took s .threadFunc s' := by
  unfold stepFunc at h
  cases hp : s.func with
  | post =>
    simp only [hp, Option.some.injEq] at h
    exact h ▸ .post hp
  | construct =>
    simp only [hp, Option.some.injEq] at h
    exact h ▸ .construct hp
  | publish =>
    simp only [hp, Option.some.injEq] at h
    exact h ▸ .publish hp
  | unlock =>
    simp only [hp, Option.some.injEq] at h
    exact h ▸ .unlock hp
  | clear =>
    simp only [hp, Option.some.injEq] at h
    exact h ▸ .clear hp
  | release =>
    simp only [hp, Option.some.injEq] at h
    exact h ▸ .release hp
  | leave =>
    simp only [hp, Option.some.injEq] at h
    exact h ▸ .leave hp
  | init =>
    simp only [hp, Option.ite_none_left_eq_some, Option.some.injEq] at h
    obtain ⟨-, rfl⟩ := h
    exact .init hp
  | lock =>
    simp only [hp, Option.ite_none_left_eq_some, Option.some.injEq] at h
    obtain ⟨hs, rfl⟩ := h
    exact .lock hp (by simpa using hs)
  | notify =>
    simp only [hp, Option.some.injEq] at h
    subst h
    split_ifs with hw
    · exact .wake hp hw
    · exact .notify hp hw
  | loop =>
    simp only [hp, Option.ite_none_right_eq_some, Option.some.injEq] at h
    obtain ⟨hs, rfl⟩ := h
    exact .loopReturned hp hs
  | relock =>
    simp only [hp, Option.ite_none_left_eq_some, Option.some.injEq] at h
    obtain ⟨hs, rfl⟩ := h
    exact .relock hp (by simpa using hs)
  | idle | returned => simp [hp] at h

theorem stepDtor_cases (h : s.stepDtor = some s') : Took s .destructor s' := by
  unfold stepDtor at h
  cases hp : s.dtor with
  | idle =>
    simp only [hp, Option.some.injEq] at h
    exact h ▸ .exiting hp
  | test =>
    simp only [hp, Option.some.injEq] at h
    subst h
    split_ifs with hpub
    · exact .running hp hpub
    · exact .skip hp (by simpa using hpub)
  | load =>
    simp only [hp, Option.some.injEq] at h
    exact h ▸ .load hp
  | call loop =>
    simp only [hp, Bool.and_eq_true, Option.ite_none_right_eq_some, Option.map_eq_some_iff] at h
    obtain ⟨⟨rfl, ha⟩, l, hl, rfl⟩ := h
    exact .call hp ha hl
  | wakeup =>
    simp only [hp, Option.ite_none_right_eq_some, Option.map_eq_some_iff] at h
    obtain ⟨ha, l, hl, rfl⟩ := h
    exact .wakeup hp ha hl
  | join =>
    simp only [hp, Option.ite_none_right_eq_some, Option.some.injEq] at h
    obtain ⟨hf, rfl⟩ := h
    exact .join hp hf
  | members =>
    simp only [hp, Option.some.injEq] at h
    exact h ▸ .members hp
  | destroyed => simp [hp] at h

theorem step_cases (h : s.step e = some s') : Took s e s' := by
  unfold step at h
  cases e with
  | startLoop => exact stepStart_cases h
  | threadFunc => exact stepFunc_cases h
  | destructor => exact stepDtor_cases h
  | spurious =>
    simp only [Option.ite_none_right_eq_some, Option.some.injEq] at h
    obtain ⟨hw, rfl⟩ := h
    exact .spurious hw
  | loop e =>
    simp only [Option.ite_none_right_eq_some, Option.map_eq_some_iff] at h
    obtain ⟨ha, l, hl, rfl⟩ := h
    exact .loop ha hl

/-! ### Seen from the loop -/

theorem loop_of_step {le : LoopEvent α} (h : s.step e = some s') (he : s.loopEvent e = some le) :
    s.loop.step le = some s'.loop := by
  cases step_cases h with
  | call hp _ hl =>
    simp only [loopEvent, hp, Option.some.injEq] at he
    rwa [← he]
  | wakeup hp _ hl =>
    simp only [loopEvent, hp, Option.some.injEq] at he
    rwa [← he]
  | loop _ hl =>
    cases he
    exact hl
  | exiting hp | running hp | skip hp | load hp | join hp | members hp => simp [loopEvent, hp] at he
  | _ => cases he

theorem loop_same (h : s.step e = some s') (he : s.loopEvent e = none) : s'.loop = s.loop := by
  cases step_cases h with
  | call hp | wakeup hp => simp [loopEvent, hp] at he
  | loop => cases he
  | _ => rfl

/-- The steps of the loop in a run. -/
def loopTrace (tr : List (Transition (EventLoopThread α) (ThreadEvent α))) :
    List (Transition (EventLoop α) (LoopEvent α)) :=
  tr.filterMap fun τ => (τ.pre.loopEvent τ.event).map fun e => ⟨τ.pre.loop, e, τ.post.loop⟩

/-- A run of an `EventLoopThread` runs its loop. -/
theorem loop_run {tr : List (Transition (EventLoopThread α) (ThreadEvent α))}
    (h : Run step init tr s) : Run EventLoop.step EventLoop.init (loopTrace tr) s.loop :=
  h.project EventLoopThread.loop loopEvent (fun _ _ _ _ => loop_of_step)
    (fun _ _ _ => loop_same)

/-! ### Events of concrete runs -/

/-- `startLoop` and `threadFunc`, up to the call of `loop()`, and what comes after. -/
def launch (es : List (ThreadEvent ℕ)) : List (ThreadEvent ℕ) :=
  .startLoop :: .threadFunc :: .startLoop ::
    (List.replicate 6 .threadFunc ++ (List.replicate 4 .startLoop ++ es))

def inLoop (es : List (LoopEvent ℕ)) : List (ThreadEvent ℕ) := es.map .loop

end EventLoopThread
end Armsy
