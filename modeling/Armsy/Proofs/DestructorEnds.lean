import Armsy.Model.Shutdown
import Armsy.Proofs.BackToPoll
import Armsy.Proofs.ServerTeardown

/-! Whether `~TcpServer` comes to its end. Whatever the threads of the pool are inside of when
it begins, if they have all entered `loop()` they and the destructor can go on until the last
of them is joined, and each step leaves less to be done. The `quit()` of a thread that has not
is forgotten, and the destructor waits for it for ever. -/

namespace Armsy

/-- The work left in what a thread of the pool is inside of. -/
def Frame.leaving : Frame → ℕ
  | .closing _ => 2
  | .closed _ => 1
  | _ => 0

/-- The steps left to a thread of the pool until it is joined and its queue is empty. -/
def LoopThread.toJoin (t : LoopThread) : ℕ :=
  3 * t.queue.pending.length + 2 * t.queue.batch.length + t.spent.length +
    t.dispatching.isSome.toNat + t.frame.leaving + t.running.toNat

namespace Server

variable {listenAddr : InetAddress} {name : List Char} {threads : ℕ} {s s' : Server}
  {e : ServerEvent} {c l : ℕ} {tr : List (Transition Server ServerEvent)}

/-- A step of `~TcpServer`, or of a thread of the pool that finishes what it has begun. -/
def finishes (s : Server) : ServerEvent → Bool
  | .destroyNext _ | .endDestroyNext | .stop _ | .discard _ | .destroyed => true
  | .endDispatch l | .removeConnection l | .endClose l | .runFunctor l _ | .dropFunctor l => l != 0
  | .swap l => l != 0 && !(s.loops l).queue.pending.isEmpty
  | _ => false

/-- The steps left to the destructor itself, with those that the functors it queues take. -/
def Life.toEnd : Life → ℕ
  | .destructing none todo => 5 * todo.length + 1
  | .destructing (some _) todo => 5 * todo.length + 2
  | _ => 0

def toDestroyed (s : Server) : ℕ :=
  (∑ l ∈ Finset.range s.threads, (s.loops (l + 1)).toJoin) + Life.toEnd s.life

/-! ### Every step leaves less -/

/-- A thread of the pool that takes one of these steps. -/
theorem toJoin_move_lt (h : s.enabled e = true) (hf : s.finishes e = true)
    (hm : mover e = some l) : (s.move e (s.loops l)).toJoin < (s.loops l).toJoin := by
  cases ready_of_enabled h with
  | endDispatch hin =>
    cases hm
    simp only [inHandler, Bool.and_eq_true] at hin
    simp [move, LoopThread.toJoin, hin.2]
  | removeConnection hfree hfr =>
    cases hm
    have h0 : l ≠ 0 := by simpa [finishes] using hf
    simp [move, LoopThread.toJoin, hfr, h0, Frame.leaving]
  | endClose hfree hfr =>
    cases hm
    simp [move, LoopThread.toJoin, hfr, Frame.leaving]
  | swap hfree hat =>
    cases hm
    obtain ⟨-, -, hb, -⟩ := (atPoll_iff _).1 hat
    have hp : 0 < (s.loops l).queue.pending.length := by
      apply List.length_pos_of_ne_nil
      intro hp
      simp [finishes, hp] at hf
    simp [move, LoopThread.toJoin, BatchQueue.swap, hb]
    omega
  | @runFunctor m w f fs hfree hidle hd hb =>
    cases hm
    -- whatever the functor leaves the thread inside of, it was inside of nothing before
    have hframe : (s.move (.runFunctor l w) (s.loops l)).frame.leaving = 0 := by
      cases f <;> simp [move, hb, hidle, Frame.leaving]
    rw [LoopThread.toJoin, hframe]
    simp only [LoopThread.toJoin, move, hb, BatchQueue.pop, List.tail_cons, List.length_cons,
      List.length_append, List.length_nil]
    omega
  | dropFunctor hfree hfr hb hs =>
    cases hm
    have hpos := List.length_pos_of_ne_nil hs
    simp [move, LoopThread.toJoin]
    omega
  | stop _ _ _ hr =>
    cases hm
    simp [move, LoopThread.toJoin, hr]
  | discard _ _ _ hp =>
    cases hm
    have hpos := List.length_pos_of_ne_nil hp
    simp [move, LoopThread.toJoin]
    omega
  | accept | establish | endAccept | dispatch | handleClose | erase | pushDestory => cases hf
  | _ => cases hm

theorem Stepped.toJoin_eq (h : Stepped s e s') (l : ℕ) :
    (s'.loops l).toJoin = (s.moved e l).toJoin + 3 * (s.pushed e l).length := by
  rw [h.loop]
  simp only [LoopThread.toJoin, List.length_append]
  omega

/-- Such a thread is one of the pool, and queues nothing on another of the pool. -/
theorem pool_of_mover (h : s.enabled e = true) (hf : s.finishes e = true)
    (hm : mover e = some l) : (l ≠ 0 ∧ l ≤ s.threads) ∧ s.nextLife e = s.life ∧
      ∀ m, s.pushed e (m + 1) = [] := by
  have hready := ready_of_enabled h
  have hpush (hn : s.pushes e = none) (m : ℕ) : s.pushed e (m + 1) = [] :=
    pushed_eq_nil fun f hp => by rw [hn] at hp; cases hp
  cases hready with
  | endDispatch hin =>
    cases hm
    refine ⟨⟨by simpa [finishes] using hf, le_of_free (of_inHandler hin).1⟩, rfl, hpush rfl⟩
  | removeConnection hfree =>
    cases hm
    refine ⟨⟨by simpa [finishes] using hf, le_of_free hfree⟩, rfl, fun m => ?_⟩
    apply pushed_eq_nil
    intro f hp
    cases pushes_cases hp
  | endClose hfree | runFunctor hfree | dropFunctor hfree =>
    cases hm
    exact ⟨⟨by simpa [finishes] using hf, le_of_free hfree⟩, rfl, hpush rfl⟩
  | swap hfree =>
    cases hm
    simp only [finishes, Bool.and_eq_true, bne_iff_ne] at hf
    exact ⟨⟨hf.1, le_of_free hfree⟩, rfl, hpush rfl⟩
  | stop _ hpos hle =>
    cases hm
    exact ⟨⟨hpos.ne', hle⟩, rfl, hpush rfl⟩
  | discard hpos hle =>
    cases hm
    exact ⟨⟨hpos.ne', hle⟩, rfl, hpush rfl⟩
  | accept | establish | endAccept | dispatch | handleClose | erase | pushDestory => cases hf
  | _ => cases hm

/-- One functor on one loop of the pool, at most. -/
theorem sum_pushed_le (s : Server) (e : ServerEvent) :
    ∑ l ∈ Finset.range s.threads, 3 * (s.pushed e (l + 1)).length ≤ 3 := by
  unfold pushed
  cases s.pushes e with
  | none => simp
  | some p =>
    obtain ⟨m, f⟩ := p
    rw [← Finset.mul_sum]
    have hone : ∑ l ∈ Finset.range s.threads, (if m = l + 1 then [f] else []).length ≤ 1 := by
      cases m with
      | zero => simp
      | succ k =>
        simp only [Nat.add_right_cancel_iff, apply_ite List.length, List.length_singleton,
          List.length_nil, Finset.sum_ite_eq, Finset.mem_range]
        split_ifs <;> simp
    exact Nat.mul_le_mul_left 3 hone

/-- The functors that such a step queues are few enough. -/
theorem toDestroyed_lt (h : Stepped s e s') (hf : s.finishes e = true) :
    toDestroyed s' < toDestroyed s := by
  unfold toDestroyed
  rw [h.threads, h.life]
  cases hm : mover e with
  | some l =>
    obtain ⟨⟨h0, hle⟩, hlife, hpush⟩ := pool_of_mover h.enabled hf hm
    rw [hlife]
    apply Nat.add_lt_add_right
    apply Finset.sum_lt_sum
    · intro m _
      rw [h.toJoin_eq, hpush, moved_eq]
      split_ifs with hml
      · rw [hm] at hml
        obtain rfl := Option.some.inj hml
        exact (toJoin_move_lt h.enabled hf hm).le
      · rfl
    · obtain ⟨k, rfl⟩ := Nat.exists_eq_succ_of_ne_zero h0
      refine ⟨k, Finset.mem_range.2 hle, ?_⟩
      rw [h.toJoin_eq, hpush, moved_eq, if_pos hm]
      exact toJoin_move_lt h.enabled hf hm
  | none =>
    have hsame (l : ℕ) : (s'.loops l).toJoin = (s.loops l).toJoin + 3 * (s.pushed e l).length := by
      rw [h.toJoin_eq, moved_eq, hm, if_neg (by simp)]
    have hsum := sum_pushed_le s e
    simp only [hsame, Finset.sum_add_distrib]
    cases h.ready with
    | destroyNext hd hmem =>
      have hlen := List.length_erase_of_mem hmem
      have hpos := List.length_pos_of_mem hmem
      simp only [nextLife, hd, Life.toEnd, hlen]
      omega
    | endDestroyNext hd =>
      simp only [nextLife, hd, Life.toEnd, pushed, pushes]
      simp
    | destroyed hd =>
      simp only [nextLife, hd, Life.toEnd, pushed, pushes]
      simp
    | sendNow | shutdownNow | drained | notice | copy | drop | send | shutdown | shutdownSet
    | enqueue | destroy => cases hf
    | _ => cases hm

/-! ### Always another step -/

/-- Removals stay on the base loop, and `~TcpServer` finds what it has still to come to. -/
structure Placed (s : Server) : Prop where
  owned : Owned s
  onBase : ∀ l, OnBase (s.loops l).frame → l = 0
  todo : ∀ conn todo, s.life = .destructing conn todo →
    todo.Nodup ∧ ∀ c ∈ todo, c < s.accepted ∧ s.mapped c = true

theorem init_placed (listenAddr : InetAddress) (name : List Char) (threads : ℕ) :
    Placed (.init listenAddr name threads) := by
  refine ⟨init_owned listenAddr name threads, fun l hl => absurd hl id, ?_⟩
  intro conn todo hlife
  cases hlife

theorem frames_step (h : Stepped s e s') (hp : Placed s) :
    ∀ l, OnBase (s'.loops l).frame → l = 0 := by
  intro l hl
  rcases h.frame_cases l with hs | hs
  · exact hp.onBase l (hs ▸ hl)
  · generalize (s'.loops l).frame = fr at hs hl
    cases hs with
    | @runFunctor _ c waits fs _ hq =>
      have hmem : .removeConnectionInLoop c ∈ (s.loops l).queue.waiting := by
        simp [BatchQueue.waiting, hq]
      exact (hp.owned.queued l _ hmem).2.symm
    | handleClose | removeConnection | endClose => exact absurd hl id
    | _ => rfl

theorem todo_step (h : Stepped s e s') (hp : Placed s) : ∀ conn todo,
    s'.life = .destructing conn todo →
      todo.Nodup ∧ ∀ c ∈ todo, c < s'.accepted ∧ s'.mapped c = true := by
  intro conn todo hlife
  have kept (ht : s'.table = s.table) (hold : ∀ c ∈ todo, c < s.accepted ∧ s.mapped c = true) :
      ∀ c ∈ todo, c < s'.accepted ∧ s'.mapped c = true := by
    intro c hc
    obtain ⟨hlt, hm⟩ := hold c hc
    refine ⟨hlt.trans_le h.accepted_le, ?_⟩
    rwa [mapped, ht, (h.name_eq hlt).1]
  have hready := h.ready
  rw [h.life] at hlife
  cases hready with
  | destroy =>
    cases hlife
    refine ⟨List.nodup_range.filter _, kept h.table ?_⟩
    intro c hc
    simpa using hc
  | @destroyNext d old hd _ hmap =>
    simp only [nextLife, hd, Life.destructing.injEq] at hlife
    obtain ⟨-, rfl⟩ := hlife
    obtain ⟨hnd, hold⟩ := hp.todo _ _ hd
    refine ⟨hnd.erase d, ?_⟩
    intro c hc
    obtain ⟨hne, hmem⟩ := hnd.mem_erase_iff.1 hc
    obtain ⟨hlt, hm⟩ := hold c hmem
    refine ⟨hlt.trans_le h.accepted_le, ?_⟩
    -- the entry that goes has another name, for under its own it has another connection
    have hname : (s.conns c).name ≠ (s.conns d).name := by
      intro heq
      simp only [mapped, decide_eq_true_eq] at hm hmap
      rw [heq, hmap] at hm
      exact hne (Option.some.inj hm).symm
    simpa [mapped, h.table, nextTable, TcpServer.erase, (h.name_eq hlt).1, hname] using hm
  | endDestroyNext hd =>
    simp only [nextLife, hd, Life.destructing.injEq] at hlife
    obtain ⟨-, rfl⟩ := hlife
    obtain ⟨hnd, hold⟩ := hp.todo _ _ hd
    exact ⟨hnd, kept h.table hold⟩
  | accept _ _ ha => simp [nextLife, ha] at hlife
  | erase hfree =>
    have hlife : s.life = .destructing conn todo := hlife
    simp [free, destructing, hlife] at hfree
  | destroyed => cases hlife
  | _ =>
    obtain ⟨hnd, hold⟩ := hp.todo conn todo hlife
    exact ⟨hnd, kept h.table hold⟩

theorem Placed.step (hp : Placed s) (hs : s.step e = some s') : Placed s' :=
  ⟨step_owned hp.owned hs, frames_step (step_cases hs) hp, todo_step (step_cases hs) hp⟩

/-- A running thread of the pool can finish what it is inside of, or stop. -/
theorem Placed.exists_leave (hp : Placed s) (hd : s.life = .destructing none []) (h0 : 0 < l)
    (hl : l ≤ s.threads) (hr : (s.loops l).running = true) :
    ∃ e, s.finishes e = true ∧ s.enabled e = true ∧ mover e = some l := by
  have hfree : s.free l = true := by simp [free, hl, hr, h0.ne']
  cases hfr : (s.loops l).frame with
  | idle =>
    cases hdisp : (s.loops l).dispatching with
    | some d =>
      refine ⟨.endDispatch l, by simp [finishes, h0.ne'], ?_, rfl⟩
      simp [enabled, inHandler, hfree, hfr, hdisp]
    | none =>
      cases hb : (s.loops l).queue.batch with
      | cons f fs =>
        refine ⟨.runFunctor l false, by simp [finishes, h0.ne'], ?_, rfl⟩
        simp [enabled, hfree, hfr, hdisp, hb]
      | nil =>
        cases hs : (s.loops l).spent with
        | cons f fs =>
          refine ⟨.dropFunctor l, by simp [finishes, h0.ne'], ?_, rfl⟩
          simp [enabled, hfree, hfr, hb, hs]
        | nil =>
          have hat := (atPoll_iff _).2 ⟨hfr, hdisp, hb, hs⟩
          exact ⟨.stop l, rfl, by simp [enabled, hd, h0, hl, hr, hat], rfl⟩
  | closing c =>
    exact ⟨.removeConnection l, by simp [finishes, h0.ne'], by simp [enabled, hfree, hfr], rfl⟩
  | closed c =>
    exact ⟨.endClose l, by simp [finishes, h0.ne'], by simp [enabled, hfree, hfr], rfl⟩
  | accepted | handedOver | removing | removed =>
    exact absurd (hp.onBase l (by simp [hfr, OnBase])) h0.ne'

/-- While there are connections to come to, the destructor goes on with them. -/
theorem Placed.exists_destroy (hp : Placed s) {conn : Option ℕ} {todo : List ℕ}
    (hd : s.life = .destructing conn todo) (hne : conn ≠ none ∨ todo ≠ []) :
    ∃ e, s.finishes e = true ∧ s.enabled e = true ∧ thread e = none ∧ e ≠ .destroyed := by
  cases conn with
  | some c => exact ⟨.endDestroyNext, rfl, by simp [enabled, hd], rfl, by simp⟩
  | none =>
    cases todo with
    | cons c todo =>
      have hm := ((hp.todo none _ hd).2 c (List.mem_cons_self ..)).2
      exact ⟨.destroyNext c, rfl, by simp [enabled, hd, hm], rfl, by simp⟩
    | nil => simp at hne

/-- The queue of a thread that has stopped is taken apart. -/
theorem exists_discard (h0 : 0 < l) (hl : l ≤ s.threads) (hr : (s.loops l).running = false)
    (hp : (s.loops l).queue.pending ≠ []) :
    s.finishes (.discard l) = true ∧ s.enabled (.discard l) = true :=
  ⟨rfl, by simp [enabled, h0, hl, hr, hp]⟩

/-- With all threads stopped and their queues empty the destructor returns. -/
theorem exists_destroyed (hd : s.life = .destructing none [])
    (hall : ∀ l ≤ s.threads, 0 < l →
      (s.loops l).running = false ∧ (s.loops l).queue.pending = []) :
    s.enabled .destroyed = true := by
  simp only [enabled, hd, decide_true, Bool.true_and, List.all_eq_true, List.mem_range,
    Nat.lt_succ_iff, Bool.or_eq_true, decide_eq_true_eq]
  intro l hl
  rcases Nat.eq_zero_or_pos l with h0 | h0
  · exact .inl h0
  · right
    simp [hall l hl h0]

theorem life_step (h : Stepped s e s') (hl : s.life ≠ .alive) : s'.life ≠ .alive :=
  fun ha => hl (h.alive_of_alive ha)

theorem thread_of_mover (h : mover e = some l) : thread e = some l := by
  cases e <;> first | exact h | cases h

end Server

namespace Shutdown

open Server (Placed Stepped thread thread_of_mover)

variable {listenAddr : InetAddress} {name : List Char} {threads : ℕ} {s s' : Shutdown}
  {ev : ShutdownEvent} {e : ServerEvent} {l : ℕ} {p : JoinPoint}
  {tr : List (Transition Shutdown ShutdownEvent)}

theorem inPool_iff : s.inPool l = true ↔
    0 < l ∧ l ≤ s.server.threads ∧ (s.server.loops l).running = true := by
  simp [inPool, and_assoc]

/-- All that a step says. -/
inductive Stepping (s : Shutdown) : ShutdownEvent → Shutdown → Prop
  | enter {l : ℕ} : s.inPool l = true → s.entered l = false → Stepping s (.enter l)
      { s with
        entered := Function.update s.entered l true
        quit := Function.update s.quit l false }
  | quit {l : ℕ} : s.server.life = .destructing none [] → s.joining = none →
      s.inPool l = true → Stepping s (.quit l)
        { s with quit := Function.update s.quit l true, joining := some (l, .wakeup) }
  | wakeup {l : ℕ} : s.joining = some (l, .wakeup) → (s.server.loops l).running = true →
      Stepping s .wakeup { s with joining := some (l, .join) }
  | join {l : ℕ} : s.joining = some (l, .join) → (s.server.loops l).running = false →
      (s.server.loops l).queue.pending = [] → Stepping s .join { s with joining := none }
  | server {e : ServerEvent} {t : Server} : s.admits e = true → s.server.step e = some t →
      Stepping s (.server e) { s with server := t }

theorem step_cases (h : s.step ev = some s') : Stepping s ev s' := by
  cases ev with
  | enter l =>
    simp only [step, Option.ite_none_right_eq_some, Bool.and_eq_true, Bool.not_eq_true'] at h
    obtain ⟨⟨hp, he⟩, h⟩ := h
    cases h
    exact .enter hp he
  | quit l =>
    simp only [step, Option.ite_none_right_eq_some, Bool.and_eq_true, decide_eq_true_eq,
      Option.isNone_iff_eq_none] at h
    obtain ⟨⟨⟨hd, hj⟩, hp⟩, h⟩ := h
    cases h
    exact .quit hd hj hp
  | wakeup =>
    simp only [step] at h
    split at h
    · rename_i l hj
      simp only [Option.ite_none_right_eq_some] at h
      obtain ⟨hr, h⟩ := h
      cases h
      exact .wakeup hj hr
    · cases h
  | join =>
    simp only [step] at h
    split at h
    · rename_i l hj
      simp only [Option.ite_none_right_eq_some, Bool.and_eq_true, Bool.not_eq_true',
        List.isEmpty_iff] at h
      obtain ⟨⟨hr, hp⟩, h⟩ := h
      cases h
      exact .join hj hr hp
    · cases h
  | server e =>
    simp only [step, Option.ite_none_right_eq_some, Option.map_eq_some_iff] at h
    obtain ⟨ha, t, ht, h⟩ := h
    cases h
    exact .server ha ht

/-! ### When all have entered -/

/-- A step of the destructor, or of a thread of the pool that finishes what it has begun. -/
def finishes (s : Shutdown) : ShutdownEvent → Bool
  | .enter _ => false
  | .quit _ | .wakeup | .join => true
  | .server e => s.server.finishes e

/-- The threads of the pool that the destructor has still to come to. -/
def toJoin (s : Shutdown) : Finset ℕ :=
  (Finset.range s.server.threads).filter fun l =>
    (s.server.loops (l + 1)).running = true ∧ s.joining.map Prod.fst ≠ some (l + 1)

def JoinPoint.toEnd : Option (ℕ × JoinPoint) → ℕ
  | none => 0
  | some (_, .wakeup) => 2
  | some (_, .join) => 1

/-- The steps left until the destructor returns. -/
def toReturn (s : Shutdown) : ℕ :=
  s.server.toDestroyed + 3 * s.toJoin.card + JoinPoint.toEnd s.joining

/-- Beginning to join a thread leaves one less to come to. -/
theorem toJoin_quit (hj : s.joining = none) (hp : s.inPool l = true) :
    (toJoin { s with quit := Function.update s.quit l true, joining := some (l, p) }).card + 1 =
      s.toJoin.card := by
  obtain ⟨h0, hl, hr⟩ := inPool_iff.1 hp
  obtain ⟨k, rfl⟩ := Nat.exists_eq_succ_of_ne_zero h0.ne'
  have hmem : k ∈ s.toJoin :=
    Finset.mem_filter.2 ⟨Finset.mem_range.2 hl, hr, by simp [hj]⟩
  rw [← Finset.card_erase_add_one hmem]
  congr 2
  ext m
  simp only [toJoin, hj, Finset.mem_filter, Finset.mem_erase, Finset.mem_range, Option.map_some,
    Option.map_none, ne_eq, Option.some.injEq, reduceCtorEq, not_false_eq_true, and_true]
  constructor
  · rintro ⟨hm, hrun, hne⟩
    exact ⟨fun he => hne (by omega), hm, hrun⟩
  · rintro ⟨hne, hm, hrun⟩
    exact ⟨hm, hrun, fun he => hne (by omega)⟩

theorem toReturn_lt (h : Stepping s ev s') (hf : s.finishes ev = true) :
    s'.toReturn < s.toReturn := by
  cases h with
  | enter => cases hf
  | quit _ hj hp =>
    have hcard := toJoin_quit (p := .wakeup) hj hp
    simp only [toReturn, hj, JoinPoint.toEnd]
    omega
  | @wakeup l hj =>
    have hsame : toJoin { s with joining := some (l, .join) } = s.toJoin := by
      simp [toJoin, hj]
    simp [toReturn, hj, hsame, JoinPoint.toEnd]
  | @join l hj hr =>
    have hsame : toJoin { s with joining := none } = s.toJoin := by
      ext m
      simp only [toJoin, hj, Finset.mem_filter, Option.map_some, Option.map_none, ne_eq,
        Option.some.injEq, reduceCtorEq, not_false_eq_true, and_true]
      refine and_congr_right fun _ => ⟨fun hrun => ⟨hrun, ?_⟩, fun h => h.1⟩
      rintro rfl
      simp [hr] at hrun
    simp [toReturn, hj, hsame, JoinPoint.toEnd]
  | @server e t ha hs =>
    have hst := Server.step_cases hs
    have hlt := Server.toDestroyed_lt hst hf
    have hsub : toJoin { s with server := t } ⊆ s.toJoin := by
      intro m hm
      simp only [toJoin, Finset.mem_filter, hst.threads] at hm ⊢
      exact ⟨hm.1, hst.running_of_running hm.2.1, hm.2.2⟩
    have hcard := Finset.card_le_card hsub
    simp only [toReturn] at hcard ⊢
    omega

/-- What holds in every reachable state. -/
structure Inv (s : Shutdown) : Prop where
  placed : Placed s.server
  joining : ∀ l p, s.joining = some (l, p) → 0 < l ∧ l ≤ s.server.threads
  stopped : ∀ l, 0 < l → (s.server.loops l).running = false →
    s.entered l = true ∧ s.quit l = true

theorem init_inv (listenAddr : InetAddress) (name : List Char) (threads : ℕ) :
    Inv (.init (.init listenAddr name threads)) where
  placed := Server.init_placed listenAddr name threads
  joining := fun l p h => by cases h
  stopped := fun l _ h => by cases h

theorem step_inv (hi : Inv s) (h : s.step ev = some s') : Inv s' := by
  cases step_cases h with
  | @enter l hp he =>
    obtain ⟨-, -, hrun⟩ := inPool_iff.1 hp
    refine ⟨hi.placed, hi.joining, fun m h0 hr => ?_⟩
    have hne : m ≠ l := by
      rintro rfl
      simp [hrun] at hr
    simpa [hne] using hi.stopped m h0 hr
  | @quit l _ _ hp =>
    obtain ⟨hl0, hl, hrun⟩ := inPool_iff.1 hp
    refine ⟨hi.placed, ?_, fun m h0 hr => ?_⟩
    · intro m p hm
      cases hm
      exact ⟨hl0, hl⟩
    · have hne : m ≠ l := by
        rintro rfl
        simp [hrun] at hr
      simpa [hne] using hi.stopped m h0 hr
  | wakeup hj =>
    refine ⟨hi.placed, ?_, hi.stopped⟩
    intro m p hm
    cases hm
    exact hi.joining _ _ hj
  | join => exact ⟨hi.placed, fun m p hm => (by cases hm), hi.stopped⟩
  | @server e t ha hs =>
    have hst := Server.step_cases hs
    refine ⟨hi.placed.step hs, fun m p hm => hst.threads ▸ hi.joining m p hm, ?_⟩
    intro m h0 hr
    cases hold : (s.server.loops m).running with
    | false => exact hi.stopped m h0 hold
    | true =>
      -- it has just stopped: it found `quit_` set
      have he : e = .stop m := by
        by_contra hne
        exact absurd (hst.running_iff.2 ⟨hold, hne⟩) (by simpa using hr)
      subst he
      simpa [admits, thread, Server.mover, h0.ne'] using ha

/-- The threads of the pool have entered `loop()`, and the one that is being joined is told to
quit. -/
structure Heeded (s : Shutdown) : Prop where
  entered : ∀ l, 0 < l → l ≤ s.server.threads → s.entered l = true
  quit : ∀ l p, s.joining = some (l, p) → s.quit l = true

theorem Heeded.step (hh : Heeded s) (h : Stepping s ev s') : Heeded s' := by
  cases h with
  | enter hp he =>
    obtain ⟨h0, hl, -⟩ := inPool_iff.1 hp
    simp [hh.entered _ h0 hl] at he
  | quit =>
    refine ⟨hh.entered, ?_⟩
    intro m p hm
    cases hm
    exact Function.update_self ..
  | wakeup hj =>
    refine ⟨hh.entered, ?_⟩
    intro m p hm
    cases hm
    exact hh.quit _ _ hj
  | join => exact ⟨hh.entered, fun m p hm => by cases hm⟩
  | server _ hs =>
    exact ⟨fun m h0 hl => hh.entered m h0 ((Server.step_cases hs).threads ▸ hl), hh.quit⟩

theorem exists_server (ha : s.admits e = true) (he : s.server.enabled e = true) :
    ∃ s', s.step (.server e) = some s' := by
  obtain ⟨t, ht⟩ : ∃ t, s.server.step e = some t := ⟨_, if_pos he⟩
  exact ⟨{ s with server := t }, by simp [step, ha, ht]⟩

/-- A thread that is told to quit can finish what it is inside of, or stop. -/
theorem Heeded.exists_leave (hh : Heeded s) (hi : Inv s) (hd : s.server.life = .destructing none [])
    (hj : s.joining = some (l, p)) (hr : (s.server.loops l).running = true) :
    ∃ ev s', s.finishes ev = true ∧ s.step ev = some s' := by
  obtain ⟨h0, hl⟩ := hi.joining l p hj
  obtain ⟨e, hf, he, hm⟩ := hi.placed.exists_leave hd h0 hl hr
  have hadm : s.admits e = true := by
    simp only [admits, thread_of_mover hm, Option.all_some, hh.entered l h0 hl, Bool.or_true,
      Bool.true_and]
    cases e with
    | stop m =>
      cases hm
      exact hh.quit l p hj
    | destroyed => cases hm
    | _ => rfl
  obtain ⟨s', hs⟩ := exists_server hadm he
  exact ⟨.server e, s', hf, hs⟩

/-- The queue of a thread that has stopped can be taken apart. -/
theorem exists_discard (h0 : 0 < l) (hl : l ≤ s.server.threads) (hi : Inv s)
    (hr : (s.server.loops l).running = false) (hp : (s.server.loops l).queue.pending ≠ []) :
    ∃ ev s', s.finishes ev = true ∧ s.step ev = some s' := by
  obtain ⟨hf, he⟩ := Server.exists_discard h0 hl hr hp
  have hadm : s.admits (.discard l) = true := by
    simp [admits, thread, Server.mover, (hi.stopped l h0 hr).1]
  obtain ⟨s', hs⟩ := exists_server hadm he
  exact ⟨.server (.discard l), s', hf, hs⟩

/-- Short of its return the destructor, or a thread that it waits for, can take a step, unless
a `quit()` has come to its `wakeup()` after the loop has gone. -/
theorem Heeded.exists_finish (hh : Heeded s) (hi : Inv s) {conn : Option ℕ} {todo : List ℕ}
    (hd : s.server.life = .destructing conn todo) :
    (∃ l, s.joining = some (l, .wakeup) ∧ (s.server.loops l).running = false) ∨
      ∃ ev s', s.finishes ev = true ∧ s.step ev = some s' := by
  by_cases hne : conn ≠ none ∨ todo ≠ []
  · obtain ⟨e, hf, he, ht, hne⟩ := hi.placed.exists_destroy hd hne
    have hadm : s.admits e = true := by
      cases e with
      | stop | sendNow | shutdownNow | drained | notice => cases ht
      | destroyed => exact absurd rfl hne
      | _ => simp [admits, ht]
    obtain ⟨s', hs⟩ := exists_server hadm he
    exact .inr ⟨.server e, s', hf, hs⟩
  obtain ⟨rfl, rfl⟩ : conn = none ∧ todo = [] := by simpa using hne
  cases hj : s.joining with
  | some q =>
    obtain ⟨l, p⟩ := q
    obtain ⟨h0, hl⟩ := hi.joining l p hj
    cases hr : (s.server.loops l).running with
    | true => exact .inr (hh.exists_leave hi hd hj hr)
    | false =>
      cases p with
      | wakeup => exact .inl ⟨l, rfl, hr⟩
      | join =>
        by_cases hp : (s.server.loops l).queue.pending = []
        · exact .inr ⟨.join, { s with joining := none }, rfl, by simp [Shutdown.step, hj, hr, hp]⟩
        · exact .inr (exists_discard h0 hl hi hr hp)
  | none =>
    right
    by_cases hall : ∀ l ≤ s.server.threads, 0 < l →
        (s.server.loops l).running = false ∧ (s.server.loops l).queue.pending = []
    · obtain ⟨s', hs⟩ := exists_server (s := s) (e := .destroyed)
        (by simp [admits, thread, Server.mover, hj]) (Server.exists_destroyed hd hall)
      exact ⟨.server .destroyed, s', rfl, hs⟩
    · simp only [not_forall] at hall
      obtain ⟨l, hl, h0, hne⟩ := hall
      cases hr : (s.server.loops l).running with
      | true =>
        have hp := inPool_iff.2 ⟨h0, hl, hr⟩
        have hs : ∃ s', s.step (.quit l) = some s' := by simp [Shutdown.step, hd, hj, hp]
        obtain ⟨s', hs⟩ := hs
        exact ⟨.quit l, s', rfl, hs⟩
      | false => exact exists_discard h0 hl hi hr fun hnil => hne ⟨hr, hnil⟩

/-! ### When one has not -/

/-- The destructor waits for a thread that does not know of its `quit()`. -/
structure Forgotten (l : ℕ) (s : Shutdown) : Prop where
  joining : ∃ p, s.joining = some (l, p)
  running : (s.server.loops l).running = true
  lost : s.entered l = false ∨ s.quit l = false
  life : s.server.life ≠ .destroyed

theorem Forgotten.step (hf : Forgotten l s) (h : Stepping s ev s') : Forgotten l s' := by
  obtain ⟨⟨p, hj⟩, hr, hlost, hlife⟩ := hf
  cases h with
  | @enter m _ _ =>
    refine ⟨⟨p, hj⟩, hr, ?_, hlife⟩
    by_cases hm : l = m
    · subst hm
      exact .inr (Function.update_self ..)
    · simpa [hm] using hlost
  | quit _ hn => simp [hj] at hn
  | wakeup hj' =>
    obtain ⟨rfl, -⟩ : l = _ ∧ p = _ := by simpa [hj] using hj'
    exact ⟨⟨_, rfl⟩, hr, hlost, hlife⟩
  | join hj' hr' =>
    obtain ⟨rfl, -⟩ : l = _ ∧ p = _ := by simpa [hj] using hj'
    simp [hr] at hr'
  | @server e t ha hs =>
    have hst := Server.step_cases hs
    simp only [admits, Bool.and_eq_true] at ha
    refine ⟨⟨p, hj⟩, hst.running_iff.2 ⟨hr, ?_⟩, hlost, fun hd => ?_⟩
    · rintro rfl
      have h0 : l ≠ 0 := by
        rintro rfl
        cases hst.ready with
        | stop _ hpos => exact absurd hpos (lt_irrefl 0)
      simp only [thread, Server.mover, Option.all_some, Bool.or_eq_true, decide_eq_true_eq, h0,
        false_or] at ha
      rcases hlost with hlost | hlost <;> simp [hlost] at ha
    · have he : e = .destroyed := by
        have hd : s.server.nextLife e = .destroyed := hst.life ▸ hd
        have hready := hst.ready
        cases hready with
        | destroyed => rfl
        | destroy => cases hd
        | destroyNext h | endDestroyNext h => simp [Server.nextLife, h] at hd
        | _ => exact absurd hd hlife
      subst he
      simp [hj] at ha

/-! ### The end -/

def serverEvent : ShutdownEvent → Option ServerEvent
  | .server e => some e
  | _ => none

/-- What such a run does to the server, the server can do with all its loops running. -/
theorem server_run (h : Run step (.init (.init listenAddr name threads)) tr s) :
    ∃ tr', Run Server.step (.init listenAddr name threads) tr' s.server := by
  refine ⟨_, h.project Shutdown.server (fun _ ev => serverEvent ev) ?_ ?_⟩
  · intro s ev s' e hs he
    cases step_cases hs with
    | server _ ht =>
      cases he
      exact ht
    | _ => cases he
  · intro s ev s' hs he
    cases step_cases hs with
    | server => cases he
    | _ => rfl

/-- The server goes while the one thread of the pool is in `handleClose`. -/
def midClose : List ServerEvent :=
  [.accept 1 7, .establish, .endAccept, .swap 1, .runFunctor 1 false, .dropFunctor 1,
    .dispatch 1 0, .handleClose 1, .destroy]

end Shutdown
end Armsy
