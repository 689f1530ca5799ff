import Armsy.Model.Server
import Armsy.Proofs.ConnectionNames

/-! What one step of the server does: the queues, the stacks and the connections after
it, in terms of those before, and who counts as an owner. -/

namespace Armsy

namespace Connection

@[simp] theorem act_name (k : Connection) (a : Act) : (k.act a).name = k.name := by
  cases a <;> simp only [act] <;> split_ifs <;> rfl

@[simp] theorem act_loop (k : Connection) (a : Act) : (k.act a).loop = k.loop := by
  cases a <;> simp only [act] <;> split_ifs <;> rfl

@[simp] theorem act_connDestory_tornDownOn (k : Connection) (l : ℕ) :
    (k.act (.connDestory l)).tornDownOn = some l := by
  simp only [act]
  split_ifs <;> rfl

theorem act_tornDownOn (k : Connection) (a : Act) : (k.act a).tornDownOn = k.tornDownOn ∨
    ∃ l, a = .connDestory l ∧ (k.act a).tornDownOn = some l := by
  cases a with
  | connDestory l => exact .inr ⟨l, rfl, by simp⟩
  | sendInLoop w =>
    simp only [act]
    split_ifs <;> exact .inl rfl
  | _ => exact .inl rfl

theorem act_ne_connecting (k : Connection) (a : Act) (h : k.state ≠ .connecting) :
    (k.act a).state ≠ .connecting := by
  cases a <;> simp only [act] <;> first | (split_ifs <;> simp_all) | simp_all

end Connection

/-- The connection that a functor is about. -/
def Task.conn : Task → ℕ
  | .connEstablish c | .connDestory c | .removeConnectionInLoop c | .sendInLoop c
  | .shutdownInLoop c | .callback c => c

namespace Server

/-- All that a step from `s` by `e` to `s'` says. -/
structure Stepped (s : Server) (e : ServerEvent) (s' : Server) : Prop where
  enabled : s.enabled e = true
  table : s'.table = s.nextTable e
  life : s'.life = s.nextLife e
  threads : s'.threads = s.threads
  next : s'.next = s.nextCursor e
  accepted : s'.accepted = s.nextAccepted e
  conns : s'.conns = s.nextConns e
  loops : s'.loops = s.nextLoops e
  users : s'.users = s.nextUsers e

variable {s s' : Server} {e : ServerEvent} {c l : ℕ} {f : Task}

theorem step_cases (h : s.step e = some s') : Stepped s e s' := by
  unfold step at h
  split_ifs at h with he
  cases h
  exact ⟨he, rfl, rfl, rfl, rfl, rfl, rfl, rfl, rfl⟩

/-! ### When an event can come -/

theorem atPoll_iff (t : LoopThread) : t.atPoll = true ↔
    t.frame = .idle ∧ t.dispatching = none ∧ t.queue.batch = [] ∧ t.spent = [] := by
  simp [LoopThread.atPoll, and_assoc]

theorem of_inHandler (h : s.inHandler l = true) :
    s.free l = true ∧ (s.loops l).frame = .idle := by
  simp only [inHandler, Bool.and_eq_true, decide_eq_true_eq] at h
  exact h.1

/-- What an event finds where it comes. -/
inductive Ready (s : Server) : ServerEvent → Prop
  | accept {self fd : ℕ} : s.free 0 = true → (s.loops 0).atPoll = true → s.life = .alive →
      s.table.nextConnId < 2 ^ 31 - 1 → Ready s (.accept self fd)
  | establish {c : ℕ} : s.free 0 = true → (s.loops 0).frame = .accepted c → Ready s .establish
  | endAccept {c : ℕ} : s.free 0 = true → (s.loops 0).frame = .handedOver c → Ready s .endAccept
  | dispatch {l c : ℕ} : s.free l = true → (s.loops l).atPoll = true → c < s.accepted →
      (s.conns c).loop = l → (s.conns c).channel.state = .added → 0 < s.refCount c →
      Ready s (.dispatch l c)
  | endDispatch {l : ℕ} : s.inHandler l = true → Ready s (.endDispatch l)
  | handleClose {l c : ℕ} {guard : Bool} : s.inHandler l = true →
      (s.loops l).dispatching = some (c, guard) → 0 < s.refCount c → Ready s (.handleClose l)
  | removeConnection {l c : ℕ} : s.free l = true → (s.loops l).frame = .closing c →
      Ready s (.removeConnection l)
  | endClose {l c : ℕ} : s.free l = true → (s.loops l).frame = .closed c → Ready s (.endClose l)
  | erase {c : ℕ} {nested : Bool} : s.free 0 = true → (s.loops 0).frame = .removing c nested →
      Ready s .erase
  | pushDestory {c : ℕ} {nested : Bool} : s.free 0 = true →
      (s.loops 0).frame = .removed c nested → Ready s .pushDestory
  | swap {l : ℕ} : s.free l = true → (s.loops l).atPoll = true → Ready s (.swap l)
  | runFunctor {l : ℕ} {waits : Bool} {f : Task} {fs : List Task} : s.free l = true →
      (s.loops l).frame = .idle → (s.loops l).dispatching = none →
      (s.loops l).queue.batch = f :: fs → Ready s (.runFunctor l waits)
  | dropFunctor {l : ℕ} : s.free l = true → (s.loops l).frame = .idle →
      (s.loops l).queue.batch = [] → (s.loops l).spent ≠ [] → Ready s (.dropFunctor l)
  | sendNow {l c : ℕ} {waits : Bool} : s.free l = true → c < s.accepted → (s.conns c).loop = l →
      (s.conns c).state = .connected → 0 < s.refCount c → Ready s (.sendNow l c waits)
  | shutdownNow {l c : ℕ} : s.free l = true → c < s.accepted → (s.conns c).loop = l →
      (s.conns c).state = .connected → 0 < s.refCount c → Ready s (.shutdownNow l c)
  | drained {l c : ℕ} {guard : Bool} : s.inHandler l = true →
      (s.loops l).dispatching = some (c, guard) → (s.conns c).channel.isWriteSet = true →
      Ready s (.drained l)
  | notice {l c : ℕ} : s.free l = true → c < s.accepted → (s.conns c).loop = l →
      (s.conns c).state ≠ .connecting → 0 < s.refCount c → Ready s (.notice l c)
  | copy {c : ℕ} : s.canCopy c = true → Ready s (.copy c)
  | drop {i : ℕ} {u : User} : s.users[i]? = some u → u.point = .idle → Ready s (.drop i)
  | send {i : ℕ} {u : User} : s.users[i]? = some u → u.point = .idle → Ready s (.send i)
  | shutdown {i : ℕ} {u : User} : s.users[i]? = some u → u.point = .idle → Ready s (.shutdown i)
  | shutdownSet {i : ℕ} {u : User} : s.users[i]? = some u → u.point = .shutdown →
      Ready s (.shutdownSet i)
  | enqueue {i : ℕ} {u : User} : s.users[i]? = some u → u.point = .send ∨ u.point = .shutdownSet →
      (s.loops (s.conns u.conn).loop).running = true → Ready s (.enqueue i)
  | destroy : s.free 0 = true → s.life = .alive →
      ((s.loops 0).frame = .idle ∨ ∃ c, (s.loops 0).frame = .handedOver c ∨
        (s.loops 0).frame = .closing c ∨ (s.loops 0).frame = .closed c) → Ready s .destroy
  | destroyNext {c : ℕ} {todo : List ℕ} : s.life = .destructing none todo → c ∈ todo →
      s.mapped c = true → Ready s (.destroyNext c)
  | endDestroyNext {c : ℕ} {todo : List ℕ} : s.life = .destructing (some c) todo →
      Ready s .endDestroyNext
  | stop {l : ℕ} : s.life = .destructing none [] → 0 < l → l ≤ s.threads →
      (s.loops l).running = true → (s.loops l).atPoll = true → Ready s (.stop l)
  | discard {l : ℕ} : 0 < l → l ≤ s.threads → (s.loops l).running = false →
      (s.loops l).queue.pending ≠ [] → Ready s (.discard l)
  | destroyed : s.life = .destructing none [] →
      (∀ l ≤ s.threads, 0 < l → (s.loops l).running = false ∧ (s.loops l).queue.pending = []) →
      Ready s .destroyed

theorem ready_of_enabled (h : s.enabled e = true) : Ready s e := by
  cases e with
  | accept self fd =>
    simp only [enabled, Bool.and_eq_true, decide_eq_true_eq] at h
    exact .accept h.1.1.1 h.1.1.2 h.1.2 h.2
  | establish =>
    simp only [enabled, Bool.and_eq_true] at h
    cases hf : (s.loops 0).frame with
    | accepted c => exact .establish h.1 hf
    | _ => simp [hf] at h
  | endAccept =>
    simp only [enabled, Bool.and_eq_true] at h
    cases hf : (s.loops 0).frame with
    | handedOver c => exact .endAccept h.1 hf
    | _ => simp [hf] at h
  | dispatch l c =>
    simp only [enabled, Bool.and_eq_true, decide_eq_true_eq] at h
    exact .dispatch h.1.1.1.1.1 h.1.1.1.1.2 h.1.1.1.2 h.1.1.2 h.1.2 h.2
  | endDispatch l => exact .endDispatch h
  | handleClose l =>
    simp only [enabled, Bool.and_eq_true, Option.any_eq_true, decide_eq_true_eq] at h
    obtain ⟨hin, ⟨c, guard⟩, hd, ho⟩ := h
    exact .handleClose hin hd ho
  | removeConnection l =>
    simp only [enabled, Bool.and_eq_true] at h
    cases hf : (s.loops l).frame with
    | closing c => exact .removeConnection h.1 hf
    | _ => simp [hf] at h
  | endClose l =>
    simp only [enabled, Bool.and_eq_true] at h
    cases hf : (s.loops l).frame with
    | closed c => exact .endClose h.1 hf
    | _ => simp [hf] at h
  | erase =>
    simp only [enabled, Bool.and_eq_true] at h
    cases hf : (s.loops 0).frame with
    | removing c nested => exact .erase h.1 hf
    | _ => simp [hf] at h
  | pushDestory =>
    simp only [enabled, Bool.and_eq_true] at h
    cases hf : (s.loops 0).frame with
    | removed c nested => exact .pushDestory h.1 hf
    | _ => simp [hf] at h
  | swap l =>
    simp only [enabled, Bool.and_eq_true] at h
    exact .swap h.1 h.2
  | runFunctor l waits =>
    simp only [enabled, Bool.and_eq_true, decide_eq_true_eq, Option.isNone_iff_eq_none,
      Bool.not_eq_true', List.isEmpty_eq_false_iff] at h
    obtain ⟨f, fs, hb⟩ := List.exists_cons_of_ne_nil h.2
    exact .runFunctor h.1.1.1 h.1.1.2 h.1.2 hb
  | dropFunctor l =>
    simp only [enabled, Bool.and_eq_true, decide_eq_true_eq, Bool.not_eq_true',
      List.isEmpty_iff, List.isEmpty_eq_false_iff] at h
    exact .dropFunctor h.1.1.1 h.1.1.2 h.1.2 h.2
  | sendNow l c waits =>
    simp only [enabled, Bool.and_eq_true, decide_eq_true_eq] at h
    exact .sendNow h.1.1.1.1 h.1.1.1.2 h.1.1.2 h.1.2 h.2
  | shutdownNow l c =>
    simp only [enabled, Bool.and_eq_true, decide_eq_true_eq] at h
    exact .shutdownNow h.1.1.1.1 h.1.1.1.2 h.1.1.2 h.1.2 h.2
  | drained l =>
    simp only [enabled, Bool.and_eq_true, Option.any_eq_true] at h
    obtain ⟨hin, ⟨c, guard⟩, hd, hw⟩ := h
    exact .drained hin hd hw
  | notice l c =>
    simp only [enabled, Bool.and_eq_true, decide_eq_true_eq, bne_iff_ne] at h
    exact .notice h.1.1.1.1 h.1.1.1.2 h.1.1.2 h.1.2 h.2
  | copy c => exact .copy h
  | drop i | send i | shutdown i | shutdownSet i =>
    simp only [enabled, Option.any_eq_true, decide_eq_true_eq] at h
    obtain ⟨u, hu, hp⟩ := h
    constructor <;> assumption
  | enqueue i =>
    simp only [enabled, Option.any_eq_true, Bool.and_eq_true, Bool.or_eq_true,
      decide_eq_true_eq] at h
    obtain ⟨u, hu, hp, hr⟩ := h
    exact .enqueue hu hp hr
  | destroy =>
    simp only [enabled, Bool.and_eq_true, decide_eq_true_eq] at h
    refine .destroy h.1.1 h.1.2 ?_
    cases hf : (s.loops 0).frame with
    | idle => exact .inl rfl
    | handedOver c => exact .inr ⟨c, .inl rfl⟩
    | closing c => exact .inr ⟨c, .inr (.inl rfl)⟩
    | closed c => exact .inr ⟨c, .inr (.inr rfl)⟩
    | _ => simp [hf] at h
  | destroyNext c =>
    simp only [enabled] at h
    split at h
    · rename_i todo hd
      simp only [Bool.and_eq_true, decide_eq_true_eq] at h
      exact .destroyNext hd h.1 h.2
    · cases h
  | endDestroyNext =>
    simp only [enabled] at h
    split at h
    · rename_i c todo hd
      exact .endDestroyNext hd
    · cases h
  | stop l =>
    simp only [enabled, Bool.and_eq_true, decide_eq_true_eq] at h
    exact .stop h.1.1.1.1 h.1.1.1.2 h.1.1.2 h.1.2 h.2
  | discard l =>
    simp only [enabled, Bool.and_eq_true, decide_eq_true_eq, Bool.not_eq_true',
      List.isEmpty_eq_false_iff] at h
    exact .discard h.1.1.1 h.1.1.2 h.1.2 h.2
  | destroyed =>
    simp only [enabled, Bool.and_eq_true, decide_eq_true_eq, List.all_eq_true, List.mem_range,
      Nat.lt_succ_iff, Bool.or_eq_true, Bool.not_eq_true', List.isEmpty_iff] at h
    refine .destroyed h.1 fun l hl hpos => ?_
    exact (h.2 l hl).resolve_left hpos.ne'

theorem Stepped.ready (h : Stepped s e s') : Ready s e := ready_of_enabled h.enabled

/-! ### The threads of the loops -/

theorem moved_eq (s : Server) (e : ServerEvent) (l : ℕ) :
    s.moved e l = if mover e = some l then s.move e (s.loops l) else s.loops l := by
  unfold moved
  cases mover e with
  | none => rfl
  | some m =>
    by_cases hl : l = m
    · subst hl
      simp
    · simp [Function.update_of_ne hl, Ne.symm hl]

/-- The functors that the event appends to the queue of `l`. -/
def pushed (s : Server) (e : ServerEvent) (l : ℕ) : List Task :=
  match s.pushes e with
  | some (m, f) => if m = l then [f] else []
  | none => []

theorem mem_pushed : f ∈ s.pushed e l ↔ s.pushes e = some (l, f) := by
  unfold pushed
  cases s.pushes e with
  | none => simp
  | some r =>
    obtain ⟨m, g⟩ := r
    by_cases hm : m = l
    · simp [hm, eq_comm]
    · simp [hm]

theorem nextLoops_eq (s : Server) (e : ServerEvent) (l : ℕ) :
    s.nextLoops e l = { s.moved e l with
      queue := { (s.moved e l).queue with
        pending := (s.moved e l).queue.pending ++ s.pushed e l } } := by
  unfold nextLoops pushed
  cases s.pushes e with
  | none => simp
  | some r =>
    obtain ⟨m, g⟩ := r
    by_cases hm : l = m
    · subst hm
      simp [LoopThread.push, BatchQueue.push]
    · simp [Function.update_of_ne hm, Ne.symm hm]

namespace Stepped

theorem loop (h : Stepped s e s') (l : ℕ) : s'.loops l = { s.moved e l with
    queue := { (s.moved e l).queue with
      pending := (s.moved e l).queue.pending ++ s.pushed e l } } := by
  rw [h.loops, nextLoops_eq]

end Stepped

/-- What its own step changes on a thread; a frame may change with any of them. -/
inductive Moving (s : Server) (t : LoopThread) : ServerEvent → LoopThread → Prop
  | frame {e : ServerEvent} (fr : Frame) : Moving s t e { t with frame := fr }
  | dispatch (l c : ℕ) : Moving s t (.dispatch l c)
      { t with dispatching := some (c, (s.conns c).channel.tied) }
  | endDispatch (l : ℕ) : Moving s t (.endDispatch l) { t with dispatching := none }
  | swap (l : ℕ) : Moving s t (.swap l) { t with queue := t.queue.swap }
  | runFunctor (l : ℕ) (waits : Bool) {f : Task} {fs : List Task} (fr : Frame) :
      t.queue.batch = f :: fs → Moving s t (.runFunctor l waits)
        { t with queue := t.queue.pop, spent := t.spent ++ [f], frame := fr }
  | dropFunctor (l : ℕ) : Moving s t (.dropFunctor l) { t with spent := t.spent.tail }
  | stop (l : ℕ) : Moving s t (.stop l) { t with running := false }
  | discard (l : ℕ) : Moving s t (.discard l)
      { t with queue := { t.queue with pending := t.queue.pending.tail } }

theorem move_cases (s : Server) (e : ServerEvent) (t : LoopThread) : Moving s t e (s.move e t) := by
  cases e with
  | dispatch l c => exact .dispatch l c
  | endDispatch l => exact .endDispatch l
  | swap l => exact .swap l
  | dropFunctor l => exact .dropFunctor l
  | stop l => exact .stop l
  | discard l => exact .discard l
  | runFunctor l w =>
    simp only [move]
    split
    · exact .frame t.frame
    · rename_i f fs hb
      exact .runFunctor l w _ hb
  | establish | removeConnection l | handleClose l | erase | pushDestory =>
    simp only [move]
    split
    · exact .frame _
    · exact .frame t.frame
  | accept | endAccept | endClose => exact .frame _
  | _ => exact .frame t.frame

/-- A loop's thread stays as it is or takes its step. -/
theorem moved_cases (s : Server) (e : ServerEvent) (l : ℕ) : s.moved e l = s.loops l ∨
    mover e = some l ∧ Moving s (s.loops l) e (s.moved e l) := by
  rw [moved_eq]
  split_ifs with hm
  · exact .inr ⟨hm, move_cases s e _⟩
  · exact .inl rfl

/-- What waits in a queue after the thread's own move is part of what waited before. -/
theorem moved_waiting (s : Server) (e : ServerEvent) (l : ℕ) :
    (s.moved e l).queue.waiting.Sublist (s.loops l).queue.waiting := by
  rcases moved_cases s e l with hs | ⟨-, hs⟩
  · rw [hs]
  · generalize s.moved e l = t at hs
    cases hs with
    | runFunctor _ _ _ hb =>
      rw [BatchQueue.waiting_pop _ hb]
      exact List.sublist_cons_self ..
    | swap _ =>
      simp only [BatchQueue.waiting, BatchQueue.swap, List.append_nil]
      exact List.sublist_append_right ..
    | discard _ => exact (List.Sublist.refl _).append (List.tail_sublist _)
    | _ => exact .refl _

theorem Stepped.waiting_eq (h : Stepped s e s') (l : ℕ) :
    (s'.loops l).queue.waiting = (s.moved e l).queue.waiting ++ s.pushed e l := by
  rw [h.loop]
  simp [BatchQueue.waiting]

theorem Stepped.waiting_cases (h : Stepped s e s') (hf : f ∈ (s'.loops l).queue.waiting) :
    f ∈ (s.loops l).queue.waiting ∨ s.pushes e = some (l, f) := by
  rw [h.waiting_eq, List.mem_append] at hf
  exact hf.imp (fun hf => (moved_waiting s e l).subset hf) mem_pushed.1

/-- What waits goes on waiting, is run or is destroyed with its loop. -/
theorem Stepped.waiting_kept (h : Stepped s e s') (hf : f ∈ (s.loops l).queue.waiting) :
    f ∈ (s'.loops l).queue.waiting ∨
      (∃ waits fs, e = .runFunctor l waits ∧ (s.loops l).queue.batch = f :: fs) ∨
      e = .discard l := by
  have hready := h.ready
  rw [h.waiting_eq, List.mem_append]
  rcases moved_cases s e l with hs | ⟨hm, hs⟩
  · rw [hs]
    exact .inl (.inl hf)
  · generalize s.moved e l = t at hs
    cases hs with
    | @runFunctor m w g fs _ hb =>
      cases hm
      rw [BatchQueue.waiting_pop _ hb] at hf
      rcases List.mem_cons.1 hf with rfl | hf
      · exact .inr (.inl ⟨w, fs, rfl, hb⟩)
      · exact .inl (.inl hf)
    | swap m =>
      cases hm
      cases hready with
      | swap _ hpoll =>
        rw [BatchQueue.waiting_swap _ ((atPoll_iff _).1 hpoll).2.2.1]
        exact .inl (.inl hf)
    | discard m =>
      cases hm
      exact .inr (.inr rfl)
    | _ => exact .inl (.inl hf)

/-- What an event appends is in the queue after it. -/
theorem Stepped.waiting_of_pushes (h : Stepped s e s') (hp : s.pushes e = some (l, f)) :
    f ∈ (s'.loops l).queue.waiting := by
  rw [h.waiting_eq]
  exact List.mem_append_right _ (mem_pushed.2 hp)

theorem Stepped.spent_cases (h : Stepped s e s') (hf : f ∈ (s'.loops l).spent) :
    f ∈ (s.loops l).spent ∨
      ∃ waits fs, e = .runFunctor l waits ∧ (s.loops l).queue.batch = f :: fs := by
  rw [h.loop] at hf
  rcases moved_cases s e l with hs | ⟨hm, hs⟩
  · rw [hs] at hf
    exact .inl hf
  · generalize s.moved e l = t at hs hf
    cases hs with
    | @runFunctor m w g fs _ hb =>
      cases hm
      rcases List.mem_append.1 hf with hf | hf
      · exact .inl hf
      · rw [List.mem_singleton.1 hf]
        exact .inr ⟨w, fs, rfl, hb⟩
    | dropFunctor m => exact .inl (List.mem_of_mem_tail hf)
    | _ => exact .inl hf

/-- A functor that has run stays until it is destroyed. -/
theorem Stepped.spent_kept (h : Stepped s e s') (hf : f ∈ (s.loops l).spent) :
    f ∈ (s'.loops l).spent ∨ e = .dropFunctor l := by
  rw [h.loop]
  rcases moved_cases s e l with hs | ⟨hm, hs⟩
  · rw [hs]
    exact .inl hf
  · generalize s.moved e l = t at hs
    cases hs with
    | runFunctor _ _ _ _ => exact .inl (List.mem_append_left _ hf)
    | dropFunctor m =>
      cases hm
      exact .inr rfl
    | _ => exact .inl hf

theorem Stepped.spent_of_run {waits : Bool} {fs : List Task}
    (h : Stepped s (.runFunctor l waits) s') (hb : (s.loops l).queue.batch = f :: fs) :
    f ∈ (s'.loops l).spent := by
  rw [h.loop, moved_eq]
  simp [mover, move, hb]

theorem Stepped.running_eq (h : Stepped s e s') (hs : ∀ m, e ≠ .stop m) (l : ℕ) :
    (s'.loops l).running = (s.loops l).running := by
  rw [h.loop]
  rcases moved_cases s e l with hm | ⟨-, hm⟩
  · rw [hm]
  · generalize s.moved e l = t at hm
    cases hm with
    | stop m => exact absurd rfl (hs m)
    | _ => rfl

/-- A thread that is joined stays joined. -/
theorem Stepped.running_of_running (h : Stepped s e s') (hr : (s'.loops l).running = true) :
    (s.loops l).running = true := by
  rw [h.loop] at hr
  rcases moved_cases s e l with hm | ⟨-, hm⟩
  · rwa [hm] at hr
  · generalize s.moved e l = t at hm hr
    cases hm with
    | stop m => cases hr
    | _ => exact hr

/-- A thread runs on unless the step joins it. -/
theorem Stepped.running_iff (h : Stepped s e s') :
    (s'.loops l).running = true ↔ (s.loops l).running = true ∧ e ≠ .stop l := by
  constructor
  · intro hr
    refine ⟨h.running_of_running hr, ?_⟩
    rintro rfl
    rw [h.loop, moved_eq] at hr
    simp [mover, move] at hr
  · rintro ⟨hr, hne⟩
    rw [h.loop]
    rcases moved_cases s e l with hm | ⟨hl, hm⟩
    · rwa [hm]
    · generalize s.moved e l = t at hm
      cases hm with
      | stop m => exact absurd (congrArg ServerEvent.stop (Option.some.inj hl)) hne
      | _ => exact hr

/-- What an event makes of the frame of loop `l`. -/
inductive FrameStep (s : Server) : ServerEvent → ℕ → Frame → Prop
  | accept {self fd : ℕ} : (s.loops 0).frame = .idle →
      FrameStep s (.accept self fd) 0 (.accepted s.accepted)
  | establish {c : ℕ} : (s.loops 0).frame = .accepted c → FrameStep s .establish 0 (.handedOver c)
  | endAccept {c : ℕ} : (s.loops 0).frame = .handedOver c → FrameStep s .endAccept 0 .idle
  | handleClose {l c : ℕ} {guard : Bool} : (s.loops l).frame = .idle →
      (s.loops l).dispatching = some (c, guard) → FrameStep s (.handleClose l) l (.closing c)
  | removeConnectionNow {c : ℕ} : (s.loops 0).frame = .closing c →
      FrameStep s (.removeConnection 0) 0 (.removing c true)
  | removeConnection {l c : ℕ} : l ≠ 0 → (s.loops l).frame = .closing c →
      FrameStep s (.removeConnection l) l (.closed c)
  | endClose {l c : ℕ} : (s.loops l).frame = .closed c → FrameStep s (.endClose l) l .idle
  | erase {c : ℕ} {nested : Bool} : (s.loops 0).frame = .removing c nested →
      FrameStep s .erase 0 (.removed c nested)
  | pushDestoryNested {c : ℕ} : (s.loops 0).frame = .removed c true →
      FrameStep s .pushDestory 0 (.closed c)
  | pushDestory {c : ℕ} : (s.loops 0).frame = .removed c false → FrameStep s .pushDestory 0 .idle
  | runFunctor {l c : ℕ} {waits : Bool} {fs : List Task} : (s.loops l).frame = .idle →
      (s.loops l).queue.batch = .removeConnectionInLoop c :: fs →
      FrameStep s (.runFunctor l waits) l (.removing c false)

/-- Only a thread that is free to move changes its frame. -/
theorem free_of_frameStep (h : s.enabled e = true) {fr : Frame} (hf : FrameStep s e l fr) :
    s.free l = true := by
  cases hf with
  | handleClose =>
    cases ready_of_enabled h with
    | handleClose hin => exact (of_inHandler hin).1
  | _ =>
    cases ready_of_enabled h
    assumption

theorem Stepped.frame_cases (h : Stepped s e s') (l : ℕ) :
    (s'.loops l).frame = (s.loops l).frame ∨ FrameStep s e l (s'.loops l).frame := by
  have hready := h.ready
  rw [h.loop, moved_eq]
  simp only
  split_ifs with hm
  · cases e with
    | accept self fd =>
      cases hm
      cases hready with
      | accept _ hpoll => exact .inr (.accept ((atPoll_iff _).1 hpoll).1)
    | establish =>
      cases hm
      simp only [move]
      split
      · rename_i c hc
        exact .inr (.establish hc)
      · exact .inl rfl
    | endAccept =>
      cases hm
      cases hready with
      | endAccept _ hf => exact .inr (.endAccept hf)
    | handleClose m =>
      cases hm
      simp only [move]
      split
      · rename_i c g hc
        cases hready with
        | handleClose hin => exact .inr (.handleClose (of_inHandler hin).2 hc)
      · exact .inl rfl
    | removeConnection m =>
      cases hm
      simp only [move]
      split
      · rename_i c hc
        simp only
        split_ifs with h0
        · subst h0
          exact .inr (.removeConnectionNow hc)
        · exact .inr (.removeConnection h0 hc)
      · exact .inl rfl
    | endClose m =>
      cases hm
      cases hready with
      | endClose _ hf => exact .inr (.endClose hf)
    | erase =>
      cases hm
      simp only [move]
      split
      · rename_i c n hc
        exact .inr (.erase hc)
      · exact .inl rfl
    | pushDestory =>
      cases hm
      simp only [move]
      split
      · rename_i c n hc
        cases n with
        | false => exact .inr (.pushDestory hc)
        | true => exact .inr (.pushDestoryNested hc)
      · exact .inl rfl
    | runFunctor m w =>
      cases hm
      simp only [move]
      split
      · exact .inl rfl
      · rename_i g fs hb
        simp only
        split
        · cases hready with
          | runFunctor _ hidle => exact .inr (.runFunctor hidle hb)
        · exact .inl rfl
    | _ => exact .inl rfl
  · exact .inl rfl

/-- `handleEvent` of a connection goes on, is entered or is left. -/
theorem Stepped.dispatching_cases (h : Stepped s e s') {d : ℕ × Bool}
    (hd : (s'.loops l).dispatching = some d) : (s.loops l).dispatching = some d ∨
      e = .dispatch l d.1 ∧ d.2 = (s.conns d.1).channel.tied := by
  rw [h.loop] at hd
  rcases moved_cases s e l with hs | ⟨hm, hs⟩
  · rw [hs] at hd
    exact .inl hd
  · generalize s.moved e l = t at hs hd
    cases hs with
    | dispatch m c =>
      cases hm
      obtain rfl := Option.some.inj hd
      exact .inr ⟨rfl, rfl⟩
    | endDispatch m => cases hd
    | _ => exact .inl hd

theorem Stepped.dispatching_eq (h : Stepped s e s') (h1 : ∀ c, e ≠ .dispatch l c)
    (h2 : e ≠ .endDispatch l) : (s'.loops l).dispatching = (s.loops l).dispatching := by
  rw [h.loop]
  rcases moved_cases s e l with hs | ⟨hm, hs⟩
  · rw [hs]
  · generalize s.moved e l = t at hs
    cases hs with
    | dispatch m c =>
      cases hm
      exact absurd rfl (h1 c)
    | endDispatch m =>
      cases hm
      exact absurd rfl h2
    | _ => rfl

/-- What an event appends to which queue. -/
inductive Pushing (s : Server) : ServerEvent → ℕ → Task → Prop
  | establish {c : ℕ} : (s.loops 0).frame = .accepted c → (s.conns c).loop ≠ 0 →
      Pushing s .establish (s.conns c).loop (.connEstablish c)
  | removeConnection {l c : ℕ} : (s.loops l).frame = .closing c → l ≠ 0 →
      Pushing s (.removeConnection l) 0 (.removeConnectionInLoop c)
  | pushDestory {c : ℕ} {nested : Bool} : (s.loops 0).frame = .removed c nested →
      Pushing s .pushDestory (s.conns c).loop (.connDestory c)
  | notice {l c : ℕ} : Pushing s (.notice l c) l (.callback c)
  | send {i : ℕ} {u : User} : s.users[i]? = some u → u.point = .send →
      Pushing s (.enqueue i) (s.conns u.conn).loop (.sendInLoop u.conn)
  | shutdown {i : ℕ} {u : User} : s.users[i]? = some u → u.point ≠ .send →
      Pushing s (.enqueue i) (s.conns u.conn).loop (.shutdownInLoop u.conn)
  | destroyNext {c : ℕ} : (s.conns c).loop ≠ 0 →
      Pushing s (.destroyNext c) (s.conns c).loop (.connDestory c)

theorem pushes_cases (h : s.pushes e = some (l, f)) : Pushing s e l f := by
  cases e with
  | establish =>
    simp only [pushes] at h
    split at h
    · rename_i c hc
      split_ifs at h with h0
      cases h
      exact .establish hc h0
    · cases h
  | removeConnection m =>
    simp only [pushes] at h
    split at h
    · rename_i c hc
      split_ifs at h with h0
      cases h
      exact .removeConnection hc h0
    · cases h
  | pushDestory =>
    simp only [pushes] at h
    split at h
    · rename_i c n hc
      cases h
      exact .pushDestory hc
    · cases h
  | notice m c => cases h; exact .notice
  | enqueue i =>
    simp only [pushes, Option.map_eq_some_iff] at h
    obtain ⟨u, hu, h⟩ := h
    split_ifs at h with hp
    · cases h
      exact .send hu hp
    · cases h
      exact .shutdown hu hp
  | destroyNext c =>
    simp only [pushes] at h
    split_ifs at h with h0
    cases h
    exact .destroyNext h0
  | _ => cases h

theorem of_pushes_connEstablish (hp : s.pushes e = some (l, .connEstablish c)) :
    e = .establish ∧ (s.loops 0).frame = .accepted c ∧ l ≠ 0 := by
  generalize hf : Task.connEstablish c = f at hp
  cases pushes_cases hp with
  | establish hfr h0 =>
    cases hf
    exact ⟨rfl, hfr, h0⟩
  | _ => cases hf

/-! ### The connections -/

/-- What an event does to which connection. -/
inductive Acting (s : Server) : ServerEvent → ℕ → Act → Prop
  | establish {c : ℕ} : (s.loops 0).frame = .accepted c → (s.conns c).loop = 0 →
      Acting s .establish c .connEstablish
  | handleClose {l c : ℕ} {guard : Bool} : (s.loops l).dispatching = some (c, guard) →
      Acting s (.handleClose l) c .handleClose
  | runEstablish {l c : ℕ} {waits : Bool} {fs : List Task} :
      (s.loops l).queue.batch = .connEstablish c :: fs →
      Acting s (.runFunctor l waits) c .connEstablish
  | runDestory {l c : ℕ} {waits : Bool} {fs : List Task} :
      (s.loops l).queue.batch = .connDestory c :: fs →
      Acting s (.runFunctor l waits) c (.connDestory l)
  | runSend {l c : ℕ} {waits : Bool} {fs : List Task} :
      (s.loops l).queue.batch = .sendInLoop c :: fs →
      Acting s (.runFunctor l waits) c (.sendInLoop waits)
  | sendNow {l c : ℕ} {waits : Bool} : Acting s (.sendNow l c waits) c (.sendInLoop waits)
  | shutdownNow {l c : ℕ} : Acting s (.shutdownNow l c) c .setDisconnecting
  | drained {l c : ℕ} {guard : Bool} : (s.loops l).dispatching = some (c, guard) →
      Acting s (.drained l) c .drained
  | shutdownSet {i : ℕ} {u : User} : s.users[i]? = some u →
      Acting s (.shutdownSet i) u.conn .setDisconnecting
  | destroyNext {c : ℕ} : (s.conns c).loop = 0 → Acting s (.destroyNext c) c (.connDestory 0)

theorem acts_cases {a : Act} (h : s.acts e = some (c, a)) : Acting s e c a := by
  cases e with
  | establish =>
    simp only [acts] at h
    split at h
    · rename_i d hd
      split_ifs at h with h0
      cases h
      exact .establish hd h0
    · cases h
  | handleClose l =>
    simp only [acts, Option.map_eq_some_iff] at h
    obtain ⟨⟨d, g⟩, hd, h⟩ := h
    cases h
    exact .handleClose hd
  | runFunctor l w =>
    simp only [acts] at h
    split at h
    · rename_i d fs hb
      cases h
      exact .runEstablish hb
    · rename_i d fs hb
      cases h
      exact .runDestory hb
    · rename_i d fs hb
      cases h
      exact .runSend hb
    · cases h
  | sendNow l d w => cases h; exact .sendNow
  | shutdownNow l d => cases h; exact .shutdownNow
  | drained l =>
    simp only [acts, Option.map_eq_some_iff] at h
    obtain ⟨⟨d, g⟩, hd, h⟩ := h
    cases h
    exact .drained hd
  | shutdownSet i =>
    simp only [acts, Option.map_eq_some_iff] at h
    obtain ⟨u, hu, h⟩ := h
    cases h
    exact .shutdownSet hu
  | destroyNext d =>
    simp only [acts] at h
    split_ifs at h with h0
    cases h
    exact .destroyNext h0
  | _ => cases h

theorem nextConns_of_not_accept (c : ℕ) (hn : ∀ self fd, e ≠ .accept self fd) :
    s.nextConns e c = s.conns c ∨
      ∃ a, Acting s e c a ∧ s.nextConns e c = (s.conns c).act a := by
  unfold nextConns
  split
  · exact absurd rfl (hn _ _)
  · cases ha : s.acts e with
    | none => exact .inl rfl
    | some r =>
      obtain ⟨d, a⟩ := r
      by_cases hc : c = d
      · subst hc
        exact .inr ⟨a, acts_cases ha, by simp⟩
      · exact .inl (by simp [Function.update_of_ne hc])

/-- A connection is left alone, made or acted on. -/
theorem Stepped.conns_cases (h : Stepped s e s') (c : ℕ) : s'.conns c = s.conns c ∨
    (∃ self fd, e = .accept self fd ∧ c = s.accepted ∧
      s'.conns c = .new s.table.connName s.nextLoop self fd) ∨
    ∃ a, Acting s e c a ∧ s'.conns c = (s.conns c).act a := by
  rw [h.conns]
  cases e with
  | accept self fd =>
    by_cases hc : c = s.accepted
    · exact .inr (.inl ⟨self, fd, rfl, hc, by simp [nextConns, hc]⟩)
    · exact .inl (by simp [nextConns, Function.update_of_ne hc])
  | _ => exact (nextConns_of_not_accept c (by simp)).imp_right .inr

theorem Stepped.conns_accept {self fd : ℕ} (h : Stepped s (.accept self fd) s') :
    s'.conns s.accepted = .new s.table.connName s.nextLoop self fd := by
  rw [h.conns]
  exact Function.update_self ..

/-- The connection that an event acts on is as the act leaves it. -/
theorem Stepped.conns_of_acts (h : Stepped s e s') {a : Act} (ha : s.acts e = some (c, a)) :
    s'.conns c = (s.conns c).act a := by
  rw [h.conns]
  cases e with
  | accept self fd => cases ha
  | _ => simp [nextConns, ha]

/-- A connection that is not made by the step keeps its name and its loop. -/
theorem Stepped.name_eq_of_not_new (h : Stepped s e s') (hc : c < s'.accepted → c < s.accepted) :
    (s'.conns c).name = (s.conns c).name ∧ (s'.conns c).loop = (s.conns c).loop := by
  rcases h.conns_cases c with hs | ⟨self, fd, rfl, rfl, -⟩ | ⟨a, -, hs⟩
  · rw [hs]
    exact ⟨rfl, rfl⟩
  · rw [h.accepted] at hc
    exact absurd (hc (Nat.lt_succ_self _)) (lt_irrefl _)
  · rw [hs]
    exact ⟨Connection.act_name .., Connection.act_loop ..⟩

theorem Stepped.name_eq (h : Stepped s e s') (hc : c < s.accepted) :
    (s'.conns c).name = (s.conns c).name ∧ (s'.conns c).loop = (s.conns c).loop :=
  h.name_eq_of_not_new fun _ => hc

theorem Stepped.accepted_le (h : Stepped s e s') : s.accepted ≤ s'.accepted := by
  rw [h.accepted]
  cases e <;> simp [nextAccepted]

theorem Stepped.ne_connecting (h : Stepped s e s') (hc : c < s.accepted)
    (hs : (s.conns c).state ≠ .connecting) : (s'.conns c).state ≠ .connecting := by
  rcases h.conns_cases c with hs' | ⟨self, fd, -, rfl, -⟩ | ⟨a, -, hs'⟩
  · rwa [hs']
  · exact absurd hc (lt_irrefl _)
  · rw [hs']
    exact Connection.act_ne_connecting _ _ hs

/-- What an event makes of the table. -/
inductive TableStep (s : Server) : ServerEvent → TcpServer → Prop
  | accept {self fd : ℕ} {t : TcpServer} : s.table.newConnection s.accepted = some t →
      TableStep s (.accept self fd) t
  | erase {c : ℕ} {nested : Bool} : (s.loops 0).frame = .removing c nested →
      TableStep s .erase (s.table.erase (s.conns c).name)
  | destroyNext {c : ℕ} : TableStep s (.destroyNext c) (s.table.erase (s.conns c).name)

theorem Stepped.table_cases (h : Stepped s e s') :
    s'.table = s.table ∧ s'.accepted = s.accepted ∨ TableStep s e s'.table := by
  have hready := h.ready
  rw [h.table, h.accepted]
  cases e with
  | accept self fd =>
    cases hready with
    | accept _ _ _ hid =>
      obtain ⟨t, ht⟩ : ∃ t, s.table.newConnection s.accepted = some t := ⟨_, if_pos hid⟩
      simp only [nextTable, ht, Option.getD_some]
      exact .inr (.accept ht)
  | erase =>
    simp only [nextTable]
    split
    · rename_i c n hc
      exact .inr (.erase hc)
    · exact .inl ⟨rfl, rfl⟩
  | destroyNext c => exact .inr .destroyNext
  | _ => exact .inl ⟨rfl, rfl⟩

/-! ### The users -/

/-- What an event makes of the pointer of a user. -/
inductive UserStep (s : Server) : ServerEvent → User → Prop
  | copy {c : ℕ} : UserStep s (.copy c) ⟨c, .idle⟩
  | send {i : ℕ} {u : User} : u ∈ s.users → (s.conns u.conn).state = .connected →
      UserStep s (.send i) { u with point := .send }
  | shutdown {i : ℕ} {u : User} : u ∈ s.users → (s.conns u.conn).state = .connected →
      UserStep s (.shutdown i) { u with point := .shutdown }
  | shutdownSet {i : ℕ} {u : User} : u ∈ s.users →
      UserStep s (.shutdownSet i) { u with point := .shutdownSet }
  | enqueue {i : ℕ} {u : User} : u ∈ s.users → UserStep s (.enqueue i) { u with point := .idle }

theorem mem_setPoint {users : List User} {i : ℕ} {p : UserPoint} {u : User}
    (h : u ∈ setPoint users i p) :
    u ∈ users ∨ ∃ v, users[i]? = some v ∧ u = { v with point := p } := by
  obtain ⟨j, hj⟩ := List.mem_iff_getElem?.1 h
  simp only [setPoint, List.getElem?_modify, Option.map_eq_map, Option.map_eq_some_iff] at hj
  obtain ⟨v, hv, hj⟩ := hj
  split_ifs at hj with hij
  · subst hij
    exact .inr ⟨v, hv, hj.symm⟩
  · rw [← hj]
    exact .inl (List.mem_of_getElem? hv)

theorem Stepped.users_cases (h : Stepped s e s') {u : User} (hu : u ∈ s'.users) :
    u ∈ s.users ∨ UserStep s e u := by
  rw [h.users] at hu
  cases e with
  | copy c =>
    rcases List.mem_append.1 hu with hu | hu
    · exact .inl hu
    · rw [List.mem_singleton.1 hu]
      exact .inr .copy
  | drop i => exact .inl (List.mem_of_mem_eraseIdx hu)
  | send i =>
    simp only [nextUsers] at hu
    split_ifs at hu with hc
    · rcases mem_setPoint hu with hu | ⟨v, hv, rfl⟩
      · exact .inl hu
      · simp only [hv, Option.any_some, decide_eq_true_eq] at hc
        exact .inr (.send (List.mem_of_getElem? hv) hc)
    · exact .inl hu
  | shutdown i =>
    simp only [nextUsers] at hu
    split_ifs at hu with hc
    · rcases mem_setPoint hu with hu | ⟨v, hv, rfl⟩
      · exact .inl hu
      · simp only [hv, Option.any_some, decide_eq_true_eq] at hc
        exact .inr (.shutdown (List.mem_of_getElem? hv) hc)
    · exact .inl hu
  | shutdownSet i =>
    rcases mem_setPoint hu with hu | ⟨v, hv, rfl⟩
    · exact .inl hu
    · exact .inr (.shutdownSet (List.mem_of_getElem? hv))
  | enqueue i =>
    rcases mem_setPoint hu with hu | ⟨v, hv, rfl⟩
    · exact .inl hu
    · exact .inr (.enqueue (List.mem_of_getElem? hv))
  | _ => exact .inl hu

/-! ### Who owns a connection -/

theorem refCount_pos_of_loop (hl : l ≤ s.threads) (h : 0 < (s.loops l).refs c) :
    0 < s.refCount c := by
  have hsum : (s.loops l).refs c ≤
      ((List.range (s.threads + 1)).map fun l => (s.loops l).refs c).sum :=
    List.single_le_sum (by simp) _
      (List.mem_map.2 ⟨l, List.mem_range.2 (by omega), rfl⟩)
  unfold refCount
  omega

theorem refCount_pos_of_task (hl : l ≤ s.threads)
    (hf : f ∈ (s.loops l).queue.waiting ∨ f ∈ (s.loops l).spent) (ho : f.owns = some c) :
    0 < s.refCount c := by
  apply refCount_pos_of_loop hl
  have : 0 < ((s.loops l).queue.waiting ++ (s.loops l).spent).countP (·.owns = some c) :=
    List.countP_pos_iff.2 ⟨f, List.mem_append.2 hf, by simp [ho]⟩
  unfold LoopThread.refs
  omega

theorem refCount_pos_of_frame (hl : l ≤ s.threads) (h : 0 < (s.loops l).frame.refs c) :
    0 < s.refCount c := by
  apply refCount_pos_of_loop hl
  unfold LoopThread.refs
  omega

theorem refCount_pos_of_mapped (h : s.mapped c = true) : 0 < s.refCount c := by
  simp only [refCount, h, if_true]
  omega

theorem refCount_pos_of_user {u : User} (hu : u ∈ s.users) (hc : u.conn = c) :
    0 < s.refCount c := by
  have : 0 < s.users.countP (·.conn = c) := List.countP_pos_iff.2 ⟨u, hu, by simp [hc]⟩
  unfold refCount
  omega

/-- A server on 127.0.0.1:8080. -/
def sample (threads : ℕ) : Server := .init ⟨(127, 0, 0, 1), (31, 144)⟩ ['a'] threads

end Server
end Armsy
