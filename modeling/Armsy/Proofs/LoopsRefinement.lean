import Armsy.Lib.Simulation
import Armsy.Proofs.BackToPoll
import Armsy.Proofs.NextBatch

/-! Each loop of the server is an `EventLoop`. The model of the server keeps of a loop only
its queue and what its thread is inside of; what it does to them a run of `loop()` does,
polls, wake-ups and tests of `quit_` included, as long as the thread is not joined. -/

namespace Armsy
namespace Server

variable {listenAddr : InetAddress} {name : List Char} {threads : ℕ} {s s' : Server}
  {e : ServerEvent} {l : ℕ} {tr : List (Transition Server ServerEvent)} {t : LoopThread}
  {queued ran : List Task} {pushers : List (Option ℕ)} {el : EventLoop Task}
  {tr' : List (Transition (EventLoop Task) (LoopEvent Task))}

/-! ### What a run does to the queue of one loop -/

/-- The functor that the step runs on loop `l`. -/
def ranBy (s : Server) (e : ServerEvent) (l : ℕ) : List Task :=
  match e with
  | .runFunctor m _ => if m = l then (s.loops l).queue.batch.head?.toList else []
  | _ => []

/-- The thread that appends by the event, for loop `l`: its own, or another with a number;
the threads of the loops have the even ones, the users' the odd ones. -/
def callerOn (l : ℕ) : ServerEvent → Option ℕ
  | .enqueue i => some (2 * i + 1)
  | .removeConnection m | .notice m _ => if m = l then none else some (2 * m)
  | _ => if l = 0 then none else some 0

/-- The functors queued on loop `l`, in order. -/
def queuedOn (l : ℕ) (tr : List (Transition Server ServerEvent)) : List Task :=
  tr.flatMap fun τ => τ.pre.pushed τ.event l

/-- The functors that have run on loop `l`, in order. -/
def ranOn (l : ℕ) (tr : List (Transition Server ServerEvent)) : List Task :=
  tr.flatMap fun τ => τ.pre.ranBy τ.event l

/-- Who has queued them. -/
def pushersOn (l : ℕ) (tr : List (Transition Server ServerEvent)) : List (Option ℕ) :=
  tr.flatMap fun τ => (τ.pre.pushed τ.event l).map fun _ => callerOn l τ.event

/-! ### The loop that goes with it -/

/-- Who has appended what the loop has, the loop's own thread being `none`. -/
def pushersOf (tr' : List (Transition (EventLoop Task) (LoopEvent Task))) : List (Option ℕ) :=
  tr'.filterMap fun τ => EventLoop.pusher τ.event

theorem pushersOf_append (tr₁ tr₂ : List (Transition (EventLoop Task) (LoopEvent Task))) :
    pushersOf (tr₁ ++ tr₂) = pushersOf tr₁ ++ pushersOf tr₂ := List.filterMap_append ..

/-- The loop has done to its queue what has been done to that of the thread. -/
structure Mirrors (q : BatchQueue Task) (queued ran : List Task) (pushers : List (Option ℕ))
    (tr' : List (Transition (EventLoop Task) (LoopEvent Task))) (el : EventLoop Task) :
    Prop where
  pending : el.queue.pending.map Entry.functor = q.pending
  batch : el.queue.batch.map Entry.functor = q.batch
  appended : el.appended.map Entry.functor = queued
  executed : el.executed.map (fun d => d.1.functor) = ran
  pushers : pushersOf tr' = pushers
  own : el.own = none
  callers : ∀ t, el.callers t = .idle

/-- The loop stands where the thread does. -/
structure Poised (t : LoopThread) (el : EventLoop Task) : Prop where
  point : el.point = .enter ∨ el.point = .handle ∨ el.point = .run
  executing : t.queue.batch ≠ [] ∨ t.spent ≠ [] → el.point = .run
  handling : t.dispatching ≠ none → el.point = .handle
  quit : el.point = .enter ∨ el.quit = false

theorem mirrors_init : Mirrors .empty [] [] [] [] EventLoop.init := by
  constructor <;> simp [EventLoop.init, BatchQueue.empty, pushersOf]

theorem poised_init : Poised .start EventLoop.init := by
  constructor <;> simp [EventLoop.init, LoopThread.start, BatchQueue.empty]

variable {q : BatchQueue Task} {le : LoopEvent Task} {el' : EventLoop Task}

/-- The steps of `loop()` that leave the queue alone. -/
def isControl : LoopEvent Task → Bool
  | .enter | .test | .poll | .setCalling | .clearCalling => true
  | _ => false

theorem Mirrors.control (h : Mirrors q queued ran pushers tr' el) (hs : el.step le = some el')
    (he : isControl le = true) :
    Mirrors q queued ran pushers (tr' ++ [⟨el, le, el'⟩]) el' := by
  obtain ⟨hp, hb, ha, hx, hw, ho, hc⟩ := h
  have hw' : pushersOf (tr' ++ [⟨el, le, el'⟩]) = pushers := by
    rw [pushersOf_append, hw]
    cases le <;> first | exact List.append_nil _ | cases he
  cases EventLoop.step_cases hs with
  | enter | leave | stay | poll | setCalling | clearCalling =>
    exact ⟨hp, hb, ha, hx, hw', ho, hc⟩
  | _ => cases he

/-- From the test of `quit_` the loop comes back from its poll. -/
theorem Mirrors.exists_poll (h : Mirrors q queued ran pushers tr' el) (hpt : el.point = .test)
    (hq : el.quit = false) : ∃ tr₂ el', Run EventLoop.step el tr₂ el' ∧ el'.point = .handle ∧
      el'.quit = false ∧ Mirrors q queued ran pushers (tr' ++ tr₂) el' := by
  have h₁ : el.step .test = some { el with point := .poll } := by
    simp [EventLoop.step, hpt, hq]
  have h₂ : ({ el with point := .poll } : EventLoop Task).step .poll =
      some { el with point := .handle } := by
    simp [EventLoop.step]
  refine ⟨_, _, (Run.nil.snoc h₁).snoc h₂, rfl, hq, ?_⟩
  rw [List.nil_append, ← List.append_assoc]
  exact (h.control h₁ rfl).control h₂ rfl

/-- A thread that is inside of nothing comes back from its poll. -/
theorem Mirrors.exists_handle (h : Mirrors t.queue queued ran pushers tr' el) (hp : Poised t el)
    (hat : t.atPoll = true) : ∃ tr₂ el', Run EventLoop.step el tr₂ el' ∧ el'.point = .handle ∧
      el'.quit = false ∧ Mirrors t.queue queued ran pushers (tr' ++ tr₂) el' := by
  obtain ⟨-, -, hb, -⟩ := (atPoll_iff _).1 hat
  have hbatch : el.queue.batch = [] := by
    have hmap := h.batch
    rw [hb] at hmap
    exact List.map_eq_nil_iff.1 hmap
  rcases hp.point with hpt | hpt | hpt
  · have hs : el.step .enter =
        some { el with point := .test, looping := true, quit := false } := by
      simp [EventLoop.step, hpt, h.own]
    obtain ⟨tr₂, el', hr, hpt', hq', h'⟩ := (h.control hs rfl).exists_poll rfl rfl
    refine ⟨[_] ++ tr₂, el', (Run.nil.snoc hs).append hr, hpt', hq', ?_⟩
    rwa [← List.append_assoc]
  · exact ⟨[], el, .nil, hpt, hp.quit.resolve_left (by simp [hpt]), by rwa [List.append_nil]⟩
  · have hs : el.step .clearCalling =
        some { el with point := .test, callingPendingFunctors := false } := by
      simp [EventLoop.step, hpt, h.own, hbatch]
    have hq : el.quit = false := hp.quit.resolve_left (by simp [hpt])
    obtain ⟨tr₂, el', hr, hpt', hq', h'⟩ := (h.control hs rfl).exists_poll rfl hq
    refine ⟨[_] ++ tr₂, el', (Run.nil.snoc hs).append hr, hpt', hq', ?_⟩
    rwa [← List.append_assoc]

theorem Poised.atCallback (hp : Poised t el) : el.atCallback = true := by
  rcases hp.point with hpt | hpt | hpt <;> simp [EventLoop.atCallback, hpt]

/-- An append, by the loop's own thread or by another, and its wake-up. -/
theorem Mirrors.exists_push (h : Mirrors q queued ran pushers tr' el) (hp : Poised t el)
    (f : Task) (who : Option ℕ) : ∃ tr₂ el', Run EventLoop.step el tr₂ el' ∧
      Mirrors (q.push f) (queued ++ [f]) ran (pushers ++ [who]) (tr' ++ tr₂) el' ∧
      el'.point = el.point ∧ el'.quit = el.quit := by
  obtain ⟨hpend, hb, ha, hx, hw, ho, hc⟩ := h
  have hpend' : (el.append f).queue.pending.map Entry.functor = (q.push f).pending := by
    simp [EventLoop.append, BatchQueue.push, hpend, EventLoop.next]
  have ha' : (el.append f).appended.map Entry.functor = queued ++ [f] := by
    simp [EventLoop.append, ha, EventLoop.next]
  cases who with
  | none =>
    have h₁ : el.step (.ownPush f) =
        some { el.append f with own := some el.appended.length } := by
      simp [EventLoop.step, hp.atCallback, ho]
    obtain ⟨el', h₂⟩ : ∃ el', ({ el.append f with own := some el.appended.length } :
        EventLoop Task).step .ownWake = some el' := by
      simp [EventLoop.step]
    refine ⟨_, el', (Run.nil.snoc h₁).snoc h₂, ?_⟩
    cases EventLoop.step_cases h₂ with
    | ownWake | ownSkip =>
      refine ⟨⟨hpend', hb, ha', hx, ?_, rfl, hc⟩, rfl, rfl⟩
      rw [pushersOf_append, hw]
      rfl
  | some n =>
    have h₁ : el.step (.push n f) = some { el.append f with
        callers := Function.update el.callers n (.pushed el.appended.length) } := by
      simp [EventLoop.step, hc n]
    obtain ⟨el', h₂⟩ : ∃ el', ({ el.append f with
        callers := Function.update el.callers n (.pushed el.appended.length) } :
          EventLoop Task).step (.wakeup n) = some el' := by
      simp [EventLoop.step]
    refine ⟨_, el', (Run.nil.snoc h₁).snoc h₂, ?_⟩
    cases EventLoop.step_cases h₂ with
    | wakeup =>
      refine ⟨⟨hpend', hb, ha', hx, ?_, ho, ?_⟩, rfl, rfl⟩
      · rw [pushersOf_append, hw]
        rfl
      · intro m
        simp only [Function.update_apply]
        split_ifs
        · rfl
        · exact hc m

theorem moved_of_not_mover (h : mover e ≠ some l) :
    s.moved e l = s.loops l ∧ s.ranBy e l = [] := by
  refine ⟨by rw [moved_eq, if_neg h], ?_⟩
  cases e with
  | runFunctor m w =>
    have hm : m ≠ l := fun hm => h (by rw [hm]; rfl)
    simp [ranBy, hm]
  | _ => rfl

/-- `executePendingFunctors` swaps. -/
theorem Mirrors.exists_swap (h : Mirrors q queued ran pushers tr' el) (hpt : el.point = .handle)
    (hq : el.quit = false) : ∃ tr₂ el', Run EventLoop.step el tr₂ el' ∧ el'.point = .run ∧
      el'.quit = false ∧ Mirrors q.swap queued ran pushers (tr' ++ tr₂) el' := by
  have h₁ : el.step .setCalling =
      some { el with point := .swap, callingPendingFunctors := true } := by
    simp [EventLoop.step, hpt, h.own]
  have h₂ : ({ el with point := .swap, callingPendingFunctors := true } :
      EventLoop Task).step .swap = some { el with
        point := .run, callingPendingFunctors := true, queue := el.queue.swap,
        rounds := el.rounds + 1 } := by
    simp [EventLoop.step]
  obtain ⟨hp, hb, ha, hx, hw, ho, hc⟩ := h.control h₁ rfl
  refine ⟨_, _, (Run.nil.snoc h₁).snoc h₂, rfl, hq, ⟨rfl, hp, ha, hx, ?_, ho, hc⟩⟩
  rw [List.nil_append, ← List.append_assoc, pushersOf_append, hw]
  exact List.append_nil _

/-- The loop runs the next functor of its batch. -/
theorem Mirrors.exists_run (h : Mirrors q queued ran pushers tr' el) (hpt : el.point = .run)
    {f : Task} {fs : List Task} (hb : q.batch = f :: fs) : ∃ tr₂ el',
      Run EventLoop.step el tr₂ el' ∧ el'.point = .run ∧ el'.quit = el.quit ∧
      Mirrors q.pop queued (ran ++ [f]) pushers (tr' ++ tr₂) el' := by
  obtain ⟨hp, hbatch, ha, hx, hw, ho, hc⟩ := h
  rw [hb] at hbatch
  obtain ⟨x, xs, hxs, rfl, hrest⟩ := List.map_eq_cons_iff.1 hbatch
  have hs : el.step .runNext = some { el with
      queue := el.queue.pop, executed := el.executed ++ [(x, el.rounds)] } := by
    simp [EventLoop.step, hpt, ho, hxs]
  refine ⟨_, _, Run.nil.snoc hs, hpt, rfl, ⟨hp, ?_, ha, ?_, ?_, ho, hc⟩⟩
  · simp [BatchQueue.pop, hxs, hb, hrest]
  · simp [hx]
  · rw [pushersOf_append, hw]
    exact List.append_nil _

/-- What the step of the thread does to its queue, the loop does too. -/
theorem exists_moved (hm : Mirrors (s.loops l).queue queued ran pushers tr' el)
    (hp : Poised (s.loops l) el) (h : Stepped s e s') (hr : (s'.loops l).running = true) :
    ∃ tr₂ el', Run EventLoop.step el tr₂ el' ∧
      Mirrors (s.moved e l).queue queued (ran ++ s.ranBy e l) pushers (tr' ++ tr₂) el' ∧
      Poised (s.moved e l) el' := by
  by_cases hmover : mover e = some l
  · have hready := h.ready
    rw [moved_eq, if_pos hmover]
    have hmove := move_cases s e (s.loops l)
    cases hready with
    | dispatch _ hat =>
      cases hmover
      obtain ⟨tr₂, el', hrun, hpt, hq, hm'⟩ := hm.exists_handle hp hat
      obtain ⟨-, -, hb, hs⟩ := (atPoll_iff _).1 hat
      refine ⟨tr₂, el', hrun, by simpa [ranBy, move] using hm', .inr (.inl hpt), ?_, fun _ => hpt,
        .inr hq⟩
      intro hne
      simp [move, hb, hs] at hne
    | endDispatch hin =>
      cases hmover
      refine ⟨[], el, .nil, by simpa [ranBy, move] using hm, hp.point, hp.executing, ?_, hp.quit⟩
      intro hne
      exact absurd rfl hne
    | swap _ hat =>
      cases hmover
      obtain ⟨tr₁, el₁, hrun₁, hpt₁, hq₁, hm₁⟩ := hm.exists_handle hp hat
      obtain ⟨tr₂, el₂, hrun₂, hpt, hq, hm₂⟩ := hm₁.exists_swap hpt₁ hq₁
      have hd : (s.loops l).dispatching = none := ((atPoll_iff _).1 hat).2.1
      refine ⟨tr₁ ++ tr₂, el₂, hrun₁.append hrun₂, ?_, .inr (.inr hpt), fun _ => hpt,
        fun hne => absurd hd hne, .inr hq⟩
      simpa [ranBy, move] using hm₂
    | runFunctor _ hidle hd hb =>
      cases hmover
      have hpt := hp.executing (.inl (by simp [hb]))
      obtain ⟨tr₂, el', hrun, hpt', hq, hm'⟩ := hm.exists_run hpt hb
      have hq' : el'.quit = false := hq.trans (hp.quit.resolve_left (by simp [hpt]))
      refine ⟨tr₂, el', hrun, by simpa [ranBy, move, hb] using hm', .inr (.inr hpt'), fun _ => hpt',
        ?_, .inr hq'⟩
      intro hne
      simp [move, hb, hd] at hne
    | dropFunctor _ _ hb hs =>
      cases hmover
      refine ⟨[], el, .nil, by simpa [ranBy, move] using hm, hp.point, ?_, hp.handling, hp.quit⟩
      intro _
      exact hp.executing (.inr hs)
    | stop =>
      cases hmover
      rw [h.mover_loop rfl] at hr
      cases hr
    | discard _ _ hstop =>
      cases hmover
      rw [h.running_eq (by simp) l, hstop] at hr
      cases hr
    | accept | establish | endAccept | handleClose | removeConnection | endClose | erase
    | pushDestory =>
      -- only what the thread is inside of changes
      generalize s.move _ (s.loops l) = t at hmove ⊢
      cases hmove
      exact ⟨[], el, .nil, by simpa [ranBy] using hm, hp.point, hp.executing, hp.handling, hp.quit⟩
    | _ => cases hmover
  · obtain ⟨hsame, hran⟩ := moved_of_not_mover hmover
    rw [hsame, hran]
    exact ⟨[], el, .nil, by simpa using hm, hp⟩

/-- A step of the server on a loop whose thread is not joined by it. -/
theorem exists_mirror (hm : Mirrors (s.loops l).queue queued ran pushers tr' el)
    (hp : Poised (s.loops l) el) (h : Stepped s e s') (hr : (s'.loops l).running = true) :
    ∃ tr₂ el', Run EventLoop.step el tr₂ el' ∧
      Mirrors (s'.loops l).queue (queued ++ s.pushed e l) (ran ++ s.ranBy e l)
        (pushers ++ (s.pushed e l).map fun _ => callerOn l e) (tr' ++ tr₂) el' ∧
      Poised (s'.loops l) el' := by
  obtain ⟨tr₁, el₁, hrun₁, hm₁, hp₁⟩ := exists_moved hm hp h hr
  rw [h.loop]
  cases hpush : s.pushed e l with
  | nil =>
    refine ⟨tr₁, el₁, hrun₁, ?_, hp₁.point, hp₁.executing, hp₁.handling, hp₁.quit⟩
    simpa using hm₁
  | cons f fs =>
    have hnil : fs = [] := by
      have hlen := pushed_length s e l
      rw [hpush, List.length_cons] at hlen
      exact List.length_eq_zero_iff.1 (by omega)
    subst hnil
    obtain ⟨tr₂, el₂, hrun₂, hm₂, hpt, hq⟩ := hm₁.exists_push hp₁ f (callerOn l e)
    refine ⟨tr₁ ++ tr₂, el₂, hrun₁.append hrun₂, ?_, ?_⟩
    · rw [← List.append_assoc]
      exact hm₂
    · constructor
      · rw [hpt]
        exact hp₁.point
      · rw [hpt]
        exact hp₁.executing
      · rw [hpt]
        exact hp₁.handling
      · rw [hpt, hq]
        exact hp₁.quit

/-- As long as its thread is not joined, what has been done to the queue of a loop of the
server, an `EventLoop` can do: it has appended the same functors by the same threads, has
run the same ones, has the same ones waiting, and stands where the thread does. So every
functor runs once at most, and in the order they came in. -/
theorem loops_run_eventLoop (h : Run step (.init listenAddr name threads) tr s)
    (hr : (s.loops l).running = true) :
    (∃ tr' el, Run EventLoop.step EventLoop.init tr' el ∧
      Mirrors (s.loops l).queue (queuedOn l tr) (ranOn l tr) (pushersOn l tr) tr' el ∧
        Poised (s.loops l) el) ∧
      ranOn l tr ++ (s.loops l).queue.waiting = queuedOn l tr := by
  let R := fun (tr : List (Transition Server ServerEvent)) (s : Server)
      (tr' : List (Transition (EventLoop Task) (LoopEvent Task))) (el : EventLoop Task) =>
    (s.loops l).running = true →
      Mirrors (s.loops l).queue (queuedOn l tr) (ranOn l tr) (pushersOn l tr) tr' el ∧
        Poised (s.loops l) el
  have h0 : R [] (.init listenAddr name threads) [] EventLoop.init :=
    fun _ => ⟨mirrors_init, poised_init⟩
  obtain ⟨tr', el, hrun, hR⟩ := h.simulate h0 fun tr s e s' tr' el hR hs => by
    have hst := step_cases hs
    by_cases hr' : (s'.loops l).running = true
    · obtain ⟨hm, hp⟩ := hR (hst.running_of_running hr')
      obtain ⟨tr₂, el', hrun, hm', hp'⟩ := exists_mirror hm hp hst hr'
      refine ⟨tr₂, el', hrun, fun _ => ⟨?_, hp'⟩⟩
      simpa [queuedOn, ranOn, pushersOn] using hm'
    · exact ⟨[], el, .nil, fun hr => absurd hr hr'⟩
  obtain ⟨hm, hp⟩ := hR hr
  refine ⟨⟨tr', el, hrun, hm, hp⟩, ?_⟩
  have hi : EventLoop.OrderInv el :=
    hrun.invariant EventLoop.init_orderInv fun _ _ _ hi hs => hi.step hs
  rw [← hm.appended, ← hi.order, ← hm.executed]
  simp [BatchQueue.waiting, hm.batch, hm.pending]

/-- A connection is up on loop 1; its user shuts it down while the loop is at its poll. -/
def queuedShutdown : List ServerEvent :=
  [.accept 1 7, .establish, .endAccept, .swap 1, .runFunctor 1 false, .copy 0, .dropFunctor 1,
    .shutdown 0, .shutdownSet 0, .enqueue 0, .notice 1 0, .swap 1, .runFunctor 1 false]

theorem loops_run_eventLoop_queued : ∃ tr s, Run step (sample 1) tr s ∧
    tr.map Transition.event = queuedShutdown ∧
    queuedOn 1 tr = [.connEstablish 0, .shutdownInLoop 0, .callback 0] ∧
    pushersOn 1 tr = [some 0, some 1, none] ∧
    (∃ tr' el, Run EventLoop.step EventLoop.init tr' el ∧
      Mirrors (s.loops 1).queue (queuedOn 1 tr) (ranOn 1 tr) (pushersOn 1 tr) tr' el ∧
        Poised (s.loops 1) el) ∧
      ranOn 1 tr ++ (s.loops 1).queue.waiting = queuedOn 1 tr := by
  obtain ⟨tr, s, hr, he, hq, hp, hrun⟩ := exists_run step (sample 1) queuedShutdown
    (P := fun tr s => queuedOn 1 tr = [.connEstablish 0, .shutdownInLoop 0, .callback 0] ∧
      pushersOn 1 tr = [some 0, some 1, none] ∧ (s.loops 1).running = true) (by decide +kernel)
  exact ⟨tr, s, hr, he, hq, hp, loops_run_eventLoop hr hrun⟩

end Server
end Armsy
