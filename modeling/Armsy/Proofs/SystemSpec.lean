import Armsy.Model.System
import Armsy.Proofs.Registration

/-! What one step of the system does, and what holds in every reachable state:
the output buffer is well indexed, and nothing happens on the connection before
`connEstablish`. -/

namespace Armsy
namespace System

/-- All that a step from `s` by `e` to `s'` says. -/
structure Stepped (s : System) (e : Event) (s' : System) : Prop where
  enabled : s.enabled e = true
  exec : (s.front e).exec (s.op e) = some s'.conn
  calls : s'.calls = s.nextCalls e
  mem : s'.mem = s.nextMem e
  established : s'.established = (s.established || e == .connEstablish)
  shutdownReturned : s'.shutdownReturned = (s.shutdownReturned || s.returnsShutdown e)
  sent : s'.sent = s.sent ++ s.returnedSend e

variable {s s' : System} {e : Event}

theorem step_cases (h : s.step e = some s') : Stepped s e s' := by
  unfold step at h
  split_ifs at h with he
  simp only [Option.map_eq_some_iff] at h
  obtain ⟨c, hc, rfl⟩ := h
  exact ⟨he, hc, rfl, rfl, rfl, rfl, rfl⟩

/-! ### What comes before the operation -/

/-- The event moves the queue and nothing else of the connection. -/
theorem front_eq (s : System) (e : Event) :
    ∃ q, s.front e = { s.conn with loop := { s.conn.loop with functors := q } } := by
  have later (t : ThreadId) :
      ∃ q, s.runLater t = { s.conn with loop := { s.conn.loop with functors := q } } := by
    unfold runLater
    split
    · split_ifs
      · exact ⟨_, rfl⟩
      · exact ⟨_, rfl⟩
    · exact ⟨_, rfl⟩
  cases e with
  | sendRun t r junk => exact later t
  | shutdownRun t => exact later t
  | _ => exact ⟨_, rfl⟩

@[simp] theorem front_state (s : System) (e : Event) : (s.front e).state = s.conn.state := by
  obtain ⟨q, hq⟩ := front_eq s e
  rw [hq]

@[simp] theorem front_log (s : System) (e : Event) : (s.front e).log = s.conn.log := by
  obtain ⟨q, hq⟩ := front_eq s e
  rw [hq]

@[simp] theorem front_channel (s : System) (e : Event) : (s.front e).channel = s.conn.channel := by
  obtain ⟨q, hq⟩ := front_eq s e
  rw [hq]

@[simp] theorem front_outputBuffer (s : System) (e : Event) :
    (s.front e).outputBuffer = s.conn.outputBuffer := by
  obtain ⟨q, hq⟩ := front_eq s e
  rw [hq]

theorem front_wellIndexed (h : s.conn.outputBuffer.WellIndexed) (e : Event) :
    (s.front e).outputBuffer.WellIndexed := by
  rw [front_outputBuffer]
  exact h

@[simp] theorem front_effects (s : System) (e : Event) (o : Op) :
    (s.front e).effects o = s.conn.effects o := by
  obtain ⟨q, hq⟩ := front_eq s e
  rw [hq]
  rfl

@[simp] theorem front_wires (s : System) (e : Event) : (s.front e).wires = s.conn.wires := by
  obtain ⟨q, hq⟩ := front_eq s e
  rw [hq]
  rfl

@[simp] theorem front_rest (s : System) (e : Event) (data : List Byte) (r : WriteResult) :
    (s.front e).rest data r = s.conn.rest data r := by
  obtain ⟨q, hq⟩ := front_eq s e
  rw [hq]
  rfl

@[simp] theorem front_drains (s : System) (e : Event) (r : WriteResult) :
    (s.front e).drains r = s.conn.drains r := by
  obtain ⟨q, hq⟩ := front_eq s e
  rw [hq]
  rfl

@[simp] theorem front_writeSetAfter (s : System) (e : Event) (o : Op) :
    (s.front e).writeSetAfter o = s.conn.writeSetAfter o := by
  obtain ⟨q, hq⟩ := front_eq s e
  rw [hq]
  rfl

/-- The functor an event appends to the queue, if any. -/
def queued (s : System) : Event → List Functor
  | .sendRun t _ _ | .shutdownRun t => if t = .loop then [] else (boundFunctor (s.calls t)).toList
  | .pushDestory => [.connDestory]
  | _ => []

/-- The functor an event takes out of the queue, if any. -/
def taken (s : System) : Event → List Functor
  | .runFunctor _ _ => s.conn.loop.functors.batch.take 1
  | _ => []

/-- The functors the loop has still to run, oldest first. -/
def waiting (s : System) : List Functor := s.conn.loop.functors.waiting

theorem boundFunctor_cases {c : Call} {f : Functor} (h : boundFunctor c = some f) :
    (∃ buf snap, c = .send buf snap ∧ f = .sendInLoop buf snap) ∨
      c = .shutdownSet ∧ f = .shutdownInLoop := by
  cases c with
  | send buf snap =>
    cases h
    exact .inl ⟨buf, snap, rfl, rfl⟩
  | shutdownSet =>
    cases h
    exact .inr ⟨rfl, rfl⟩
  | _ => cases h

/-- An event appends what a call of another thread is bound to, or `connDestory`. -/
theorem queued_cases {f : Functor} (h : f ∈ s.queued e) :
    (∃ n, boundFunctor (s.calls (.other n)) = some f) ∨ e = .pushDestory ∧ f = .connDestory := by
  have bound {t : ThreadId}
      (h : f ∈ if t = .loop then [] else (boundFunctor (s.calls t)).toList) :
      ∃ n, boundFunctor (s.calls (.other n)) = some f := by
    cases t with
    | loop => cases h
    | other n => exact ⟨n, by simpa using h⟩
  cases e with
  | sendRun t r junk => exact .inl (bound h)
  | shutdownRun t => exact .inl (bound h)
  | pushDestory => exact .inr ⟨rfl, List.mem_singleton.1 h⟩
  | _ => cases h

theorem runLater_waiting (s : System) (t : ThreadId) :
    (s.runLater t).loop.functors.waiting =
      s.waiting ++ if t = .loop then [] else (boundFunctor (s.calls t)).toList := by
  unfold runLater waiting
  cases boundFunctor (s.calls t) with
  | none => simp
  | some f =>
    simp only
    split_ifs
    · simp
    · simp [TcpConnection.pushLoopCallback]

theorem front_waiting (h : s.enabled e = true) :
    s.taken e ++ (s.front e).loop.functors.waiting = s.waiting ++ s.queued e := by
  cases e with
  | sendRun t r junk => exact runLater_waiting s t
  | shutdownRun t => exact runLater_waiting s t
  | pushDestory => simp [taken, front, queued, waiting, TcpConnection.pushLoopCallback]
  | swap =>
    simp only [enabled, Bool.and_eq_true, List.isEmpty_iff] at h
    simp [taken, front, queued, waiting, BatchQueue.waiting_swap _ h.2]
  | runFunctor r junk =>
    simp only [enabled, Bool.and_eq_true, Bool.not_eq_true', List.isEmpty_eq_false_iff] at h
    obtain ⟨f, fs, hb⟩ := List.exists_cons_of_ne_nil h.2
    simp [taken, front, queued, waiting, BatchQueue.waiting_pop _ hb, hb]
  | _ => simp [taken, front, queued, waiting]

theorem op_sendRun {t : ThreadId} {r : WriteResult} {junk : List Byte}
    (h : s.enabled (.sendRun t r junk) = true) : ∃ buf snap, s.calls t = .send buf snap ∧
      s.op (.sendRun t r junk) =
        if t = .loop then .sendInLoop (s.mem.read buf) r junk else .skip := by
  simp only [enabled] at h
  split at h
  · rename_i buf snap hc
    exact ⟨buf, snap, hc, by simp [op, runNow, hc, boundFunctor, Functor.op]⟩
  · cases h

theorem op_shutdownRun {t : ThreadId} (h : s.enabled (.shutdownRun t) = true) :
    s.calls t = .shutdownSet ∧
      s.op (.shutdownRun t) = if t = .loop then .shutdownInLoop else .skip := by
  simp only [enabled, beq_iff_eq] at h
  exact ⟨h, by simp [op, runNow, h, boundFunctor, Functor.op]⟩

/-- The functor that `runFunctor` takes out, and the operation it is. -/
theorem op_runFunctor {r : WriteResult} {junk : List Byte}
    (h : s.enabled (.runFunctor r junk) = true) :
    ∃ f, s.taken (.runFunctor r junk) = [f] ∧ f ∈ s.waiting ∧
      s.op (.runFunctor r junk) = f.op s.mem r junk := by
  simp only [enabled, Bool.and_eq_true, Bool.not_eq_true', List.isEmpty_eq_false_iff] at h
  obtain ⟨f, fs, hb⟩ := List.exists_cons_of_ne_nil h.2
  exact ⟨f, by simp [taken, hb], by simp [waiting, BatchQueue.waiting, hb], by simp [op, hb]⟩

/-- The operation of an event that runs no functor. -/
def ownOp : Event → Op
  | .connEstablish => .connEstablish
  | .shutdownSet _ => .setDisconnecting
  | .handleRead r junk => .handleRead r junk
  | .handleWrite r => .handleWrite r
  | .handleClose => .handleClose
  | .handleError => .handleError
  | .connDestory => .connDestory
  | .retrieve len => .retrieve len
  | _ => .skip

/-- A step runs a functor, one that waits or one that a call is about to hand over,
or else the operation of its event. -/
theorem op_cases (s : System) (e : Event) :
    (∃ f r junk, s.op e = Functor.op f s.mem r junk ∧
      (f ∈ s.waiting ∨ ∃ t, boundFunctor (s.calls t) = some f)) ∨ s.op e = ownOp e := by
  have now (t : ThreadId) (r : WriteResult) (junk : List Byte) :
      (∃ f r' junk', s.runNow t r junk = Functor.op f s.mem r' junk' ∧
        (f ∈ s.waiting ∨ ∃ t, boundFunctor (s.calls t) = some f)) ∨
        s.runNow t r junk = .skip := by
    unfold runNow
    cases hf : boundFunctor (s.calls t) with
    | none => exact .inr rfl
    | some f =>
      simp only
      split_ifs
      · exact .inl ⟨f, r, junk, rfl, .inr ⟨t, hf⟩⟩
      · exact .inr rfl
  cases e with
  | sendRun t r junk => exact now t r junk
  | shutdownRun t => exact now t _ _
  | runFunctor r junk =>
    simp only [op]
    cases hb : s.conn.loop.functors.batch with
    | nil => exact .inr rfl
    | cons f fs => exact .inl ⟨f, r, junk, rfl, .inl (by simp [waiting, BatchQueue.waiting, hb])⟩
  | _ => exact .inr rfl

theorem eq_connEstablish_of_op (h : s.op e = .connEstablish) : e = .connEstablish := by
  rcases op_cases s e with ⟨f, r, junk, hf, -⟩ | ho
  · rw [h] at hf
    cases f <;> cases hf
  · rw [h] at ho
    cases e <;> first | rfl | cases ho

theorem silent_op (s : System) (e : Event) : (s.op e).Silent := by
  intro f h
  rcases op_cases s e with ⟨g, r, junk, hg, -⟩ | ho
  · rw [h] at hg
    cases g with
    | writeComplete => exact .inl (Op.callback.inj hg)
    | highWaterMark size => exact .inr ⟨size, Op.callback.inj hg⟩
    | _ => cases hg
  · rw [h] at ho
    cases e <;> cases ho

/-- Only the two handlers of the channel run `handleClose`. -/
theorem closes_op (h : (s.op e).closes = true) :
    e = .handleClose ∨ ∃ junk, e = .handleRead (.delivered []) junk := by
  rcases op_cases s e with ⟨g, r, junk, hg, -⟩ | ho
  · rw [hg] at h
    cases g <;> cases h
  · rw [ho] at h
    rcases Op.eq_of_closes h with hop | ⟨junk, hop⟩
    · left
      cases e <;> first | rfl | cases hop
    · right
      cases e with
      | handleRead r junk' =>
        cases hop
        exact ⟨junk, rfl⟩
      | _ => cases hop

/-- The operation that a transition ran. -/
def ran (τ : Transition System Event) : Op := τ.pre.op τ.event

/-! ### The calls of a thread -/

/-- The step that an event takes in a call of `t`, and where the call stands after it. -/
inductive CallStep (s : System) (t : ThreadId) : Event → Call → Prop
  | send {buf : Slice} : s.conn.state = .connected →
      CallStep s t (.send t buf) (.send buf (s.mem.read buf))
  | sendRun {r : WriteResult} {junk : List Byte} : CallStep s t (.sendRun t r junk) .idle
  | shutdown : s.conn.state = .connected → CallStep s t (.shutdown t) .shutdown
  | shutdownSet : CallStep s t (.shutdownSet t) .shutdownSet
  | shutdownRun : CallStep s t (.shutdownRun t) .idle

theorem nextCalls_cases (s : System) (e : Event) (t : ThreadId) :
    s.nextCalls e t = s.calls t ∨ CallStep s t e (s.nextCalls e t) := by
  have other (u : ThreadId) (c : Call) : Function.update s.calls u c t = s.calls t ∨
      t = u ∧ Function.update s.calls u c t = c := by
    by_cases htu : t = u
    · rw [htu]
      exact .inr ⟨rfl, Function.update_self ..⟩
    · exact .inl (Function.update_of_ne htu _ _)
  cases e with
  | send u buf =>
    simp only [nextCalls]
    split_ifs with hst
    · rcases other u (.send buf (s.mem.read buf)) with h | ⟨rfl, h⟩
      · exact .inl h
      · rw [h]
        exact .inr (.send hst)
    · exact .inl rfl
  | sendRun u r junk =>
    rcases other u .idle with h | ⟨rfl, h⟩
    · exact .inl h
    · rw [nextCalls, h]
      exact .inr .sendRun
  | shutdown u =>
    simp only [nextCalls]
    split_ifs with hst
    · rcases other u .shutdown with h | ⟨rfl, h⟩
      · exact .inl h
      · rw [h]
        exact .inr (.shutdown hst)
    · exact .inl rfl
  | shutdownSet u =>
    rcases other u .shutdownSet with h | ⟨rfl, h⟩
    · exact .inl h
    · rw [nextCalls, h]
      exact .inr .shutdownSet
  | shutdownRun u =>
    rcases other u .idle with h | ⟨rfl, h⟩
    · exact .inl h
    · rw [nextCalls, h]
      exact .inr .shutdownRun
  | _ => exact .inl rfl

/-! ### The connection after a step -/

namespace Stepped

theorem outcome (h : Stepped s e s') (hw : s.conn.outputBuffer.WellIndexed) :
    Outcome (s.front e) ((s.op e).stateAfter s.conn.state) (s.conn.effects (s.op e)) s'.conn := by
  have := TcpConnection.exec_outcome (front_wellIndexed hw e) h.exec
  rwa [front_state, front_effects] at this

theorem state (h : Stepped s e s') (hw : s.conn.outputBuffer.WellIndexed) :
    s'.conn.state = (s.op e).stateAfter s.conn.state := (h.outcome hw).state

theorem log (h : Stepped s e s') (hw : s.conn.outputBuffer.WellIndexed) :
    s'.conn.log = s.conn.log ++ s.conn.effects (s.op e) := by
  rw [(h.outcome hw).log, front_log]

theorem mem_log (h : Stepped s e s') (hw : s.conn.outputBuffer.WellIndexed) {f : Effect} :
    f ∈ s'.conn.log ↔ f ∈ s.conn.log ∨ f ∈ s.conn.effects (s.op e) := by
  rw [h.log hw, List.mem_append]

theorem writeSet (h : Stepped s e s') (hw : s.conn.outputBuffer.WellIndexed) :
    s'.conn.channel.isWriteSet = s.conn.writeSetAfter (s.op e) := by
  rw [TcpConnection.exec_writeSet (front_wellIndexed hw e) h.exec, front_writeSetAfter]

theorem wellIndexed (h : Stepped s e s') (hw : s.conn.outputBuffer.WellIndexed) :
    s'.conn.outputBuffer.WellIndexed :=
  TcpConnection.exec_wellIndexed (front_wellIndexed hw e) h.exec

theorem flushing (h : Stepped s e s') (hw : s.conn.outputBuffer.WellIndexed)
    (hf : s.conn.Flushing) (hc : (s.op e).closes = false) (hd : s.op e ≠ .connDestory) :
    s'.conn.Flushing := by
  refine TcpConnection.exec_flushing (front_wellIndexed hw e) ?_ h.exec hc hd
  rw [TcpConnection.Flushing, front_channel, front_outputBuffer]
  exact hf

/-- The queue after a step: what the event took out, then what waits, is what
waited and what the event and the user callbacks appended. -/
theorem waiting (h : Stepped s e s') (hw : s.conn.outputBuffer.WellIndexed) :
    ∃ fs, (∀ f ∈ fs, f.IsNotice) ∧ s.taken e ++ s'.waiting = s.waiting ++ s.queued e ++ fs := by
  have ho := h.outcome hw
  obtain ⟨fs, hfs, hp⟩ := ho.pending
  refine ⟨fs, hfs, ?_⟩
  rw [← front_waiting h.enabled, System.waiting, BatchQueue.waiting, ho.batch, hp]
  simp [BatchQueue.waiting]

/-- A functor that is no user callback is in the queue after a step exactly when
the event left it there. -/
theorem mem_waiting (h : Stepped s e s') (hw : s.conn.outputBuffer.WellIndexed) {f : Functor}
    (hf : ¬ f.IsNotice) : f ∈ s'.waiting ↔ f ∈ (s.front e).loop.functors.waiting := by
  have ho := h.outcome hw
  obtain ⟨fs, hfs, hp⟩ := ho.pending
  have hnot : f ∉ fs := fun hmem => hf (hfs f hmem)
  simp [System.waiting, BatchQueue.waiting, ho.batch, hp, hnot]

/-- Such a functor was in the queue before the step, or the event appended it. -/
theorem waiting_cases (h : Stepped s e s') (hw : s.conn.outputBuffer.WellIndexed) {f : Functor}
    (hf : ¬ f.IsNotice) (hq : f ∈ s'.waiting) : f ∈ s.waiting ∨ f ∈ s.queued e := by
  rw [h.mem_waiting hw hf] at hq
  have hmem := List.mem_append_right (s.taken e) hq
  rwa [front_waiting h.enabled, List.mem_append] at hmem

/-- A queued `sendInLoop` was queued before, or its `send()` was about to queue it. -/
theorem sendInLoop_queued (h : Stepped s e s') (hw : s.conn.outputBuffer.WellIndexed)
    {buf : Slice} {snap : List Byte} (hq : .sendInLoop buf snap ∈ s'.waiting) :
    .sendInLoop buf snap ∈ s.waiting ∨ ∃ n, s.calls (.other n) = .send buf snap := by
  rcases h.waiting_cases hw (by simp [Functor.IsNotice]) hq with hold | hnew
  · exact .inl hold
  · rcases queued_cases hnew with ⟨n, hb⟩ | ⟨-, hf⟩
    · rcases boundFunctor_cases hb with ⟨buf', snap', hc, hf⟩ | ⟨-, hf⟩
      · cases hf
        exact .inr ⟨n, hc⟩
      · cases hf
    · cases hf

/-- A call in `send()` was there before, or starts with what its payload holds now. -/
theorem send_calls (h : Stepped s e s') {t : ThreadId} {buf : Slice} {snap : List Byte}
    (hc : s'.calls t = .send buf snap) :
    s.calls t = .send buf snap ∨
      s.conn.state = .connected ∧ e = .send t buf ∧ snap = s.mem.read buf := by
  rw [h.calls] at hc
  rcases nextCalls_cases s e t with hn | hn
  · exact .inl (hn ▸ hc)
  · rw [hc] at hn
    cases hn with
    | send hst => exact .inr ⟨hst, rfl, rfl⟩

/-- `connEstablish` runs once. -/
theorem op_ne_connEstablish (h : Stepped s e s') (he : s.established = true) :
    s.op e ≠ .connEstablish := by
  intro ho
  have hen := h.enabled
  rw [eq_connEstablish_of_op ho] at hen
  simp [System.enabled, he] at hen

end Stepped

/-- A `send()` of one of the threads `among`, or one of another thread that is
queued, saw kConnected on a payload at `buf` that held `snap`, and its
`sendInLoop` has not run. -/
def Underway (s : System) (among : ThreadId → Prop) (buf : Slice) (snap : List Byte) : Prop :=
  .sendInLoop buf snap ∈ s.waiting ∨ ∃ t, among t ∧ s.calls t = .send buf snap

/-- The step does not change the bytes of a payload under way. -/
def Spares (among : ThreadId → Prop) (τ : Transition System Event) : Prop :=
  ∀ buf snap, τ.pre.Underway among buf snap →
    (τ.pre.nextMem τ.event).read buf = τ.pre.mem.read buf

def stores : Event → Bool
  | .store _ _ => true
  | _ => false

theorem spares_of_not_stores {among : ThreadId → Prop} {τ : Transition System Event}
    (h : stores τ.event = false) : Spares among τ := by
  intro buf snap _
  cases he : τ.event with
  | store p bytes => simp [he, stores] at h
  | _ => rfl

/-- A payload is under way after a step when it was before, or its call starts now. -/
theorem Stepped.underway_cases (hs : Stepped s e s') (hw : s.conn.outputBuffer.WellIndexed)
    {among : ThreadId → Prop} (ho : ∀ n, among (.other n)) {buf : Slice} {snap : List Byte}
    (h : s'.Underway among buf snap) : s.Underway among buf snap ∨
      s.conn.state = .connected ∧ s.nextMem e = s.mem ∧ snap = s.mem.read buf := by
  rcases h with hq | ⟨t, ht, hc⟩
  · rcases hs.sendInLoop_queued hw hq with hq | ⟨n, hc⟩
    · exact .inl (.inl hq)
    · exact .inl (.inr ⟨_, ho n, hc⟩)
  · rcases hs.send_calls hc with hc | ⟨hst, rfl, hsnap⟩
    · exact .inl (.inr ⟨t, ht, hc⟩)
    · exact .inr ⟨hst, rfl, hsnap⟩

/-! ### Reachable states -/

/-- What holds in every reachable state. -/
structure Sound (s : System) : Prop where
  wellIndexed : s.conn.outputBuffer.WellIndexed
  connecting : s.established = false →
    s.conn.state = .connecting ∧ (∀ t, s.calls t = .idle) ∧ s.conn.log = []
  up : s.established = true → s.conn.state ≠ .connecting

theorem init_sound (cfg : Config) (mem : Memory Byte) : (init cfg mem).Sound :=
  ⟨Buffer.new_wellIndexed _ _, fun _ => ⟨rfl, fun _ => rfl, rfl⟩, by simp [init]⟩

/-- Only `connEstablish` works on a connection that is not established. -/
theorem Sound.op_of_not_established (hi : s.Sound) (he : s.established = false)
    (h : s.enabled e = true) : e = .connEstablish ∨ s.op e = .skip ∧ s.nextCalls e = s.calls := by
  obtain ⟨hst, hcalls, -⟩ := hi.connecting he
  cases e with
  | connEstablish => exact .inl rfl
  | send t buf => right; simp [op, nextCalls, hst]
  | shutdown t => right; simp [op, nextCalls, hst]
  | sendRun t r junk => simp [enabled, hcalls] at h
  | shutdownSet t => simp [enabled, hcalls] at h
  | shutdownRun t => simp [enabled, hcalls] at h
  | pushDestory | store p bytes => right; exact ⟨rfl, rfl⟩
  | _ => simp [enabled, loopFree, he] at h

theorem Sound.established_of_op (hi : s.Sound) (he : s.enabled e = true) (h1 : s.op e ≠ .skip)
    (h2 : s.op e ≠ .connEstablish) : s.established = true := by
  by_contra hne
  rcases hi.op_of_not_established (by simpa using hne) he with rfl | ⟨hop, -⟩
  · exact h2 rfl
  · exact h1 hop

theorem Op.stateAfter_ne_connecting {st : ConnState} (h : st ≠ .connecting) (o : Op) :
    o.stateAfter st ≠ .connecting := by
  unfold Op.stateAfter
  split
  any_goals simp
  · split_ifs
    · simp
    · exact h
  · exact h

theorem step_sound (hi : s.Sound) (h : s.step e = some s') : s'.Sound := by
  have hs := step_cases h
  have hw := hi.wellIndexed
  refine ⟨hs.wellIndexed hw, ?_, ?_⟩
  · intro he
    rw [hs.established, Bool.or_eq_false_iff] at he
    rcases hi.op_of_not_established he.1 hs.enabled with rfl | ⟨hop, hcalls⟩
    · simp at he
    · obtain ⟨hst, hidle, hlog⟩ := hi.connecting he.1
      rw [hs.state hw, hs.calls, hs.log hw, hop, hcalls, hlog]
      exact ⟨hst, hidle, rfl⟩
  · intro he
    rw [hs.state hw]
    cases hest : s.established with
    | true => exact Op.stateAfter_ne_connecting (hi.up hest) _
    | false =>
      rw [hs.established, hest, Bool.false_or, beq_iff_eq] at he
      subst he
      simp [op, Op.stateAfter]

/-- The thread whose call of `send()` or `shutdown()` takes a step. -/
def caller : Event → Option ThreadId
  | .send t _ | .sendRun t _ _ | .shutdown t | .shutdownSet t | .shutdownRun t => some t
  | _ => none

theorem nextCalls_of_caller (s : System) {t : ThreadId} (h : caller e ≠ some t) :
    s.nextCalls e t = s.calls t := by
  rcases nextCalls_cases s e t with hn | hn
  · exact hn
  · generalize s.nextCalls e t = c at hn
    cases hn <;> exact absurd rfl h

/-- A thread that takes no step of a run is not inside a call. -/
theorem calls_idle {cfg : Config} {mem : Memory Byte} {tr : List (Transition System Event)}
    (h : Run step (init cfg mem) tr s) {t : ThreadId} (ht : ∀ τ ∈ tr, caller τ.event ≠ some t) :
    s.calls t = .idle := by
  refine h.invariant_of (I := fun s => s.calls t = .idle) rfl ?_ ht
  intro s e s' hi hst hne
  rw [(step_cases hst).calls, nextCalls_of_caller s hne, hi]

/-- The system once `connEstablish` has run. -/
def up (cfg : Config) (mem : Memory Byte) : System :=
  { init cfg mem with conn := TcpConnection.established cfg, established := true }

theorem step_connEstablish (cfg : Config) (mem : Memory Byte) :
    (init cfg mem).step .connEstablish = some (up cfg mem) := by
  simp [step, enabled, front, op, TcpConnection.exec, TcpConnection.connEstablish_new, init, up,
    nextCalls, nextMem, returnsShutdown, returnedSend]

theorem up_sound (cfg : Config) (mem : Memory Byte) : (up cfg mem).Sound :=
  step_sound (init_sound cfg mem) (step_connEstablish cfg mem)

theorem sound_of_run {cfg : Config} {mem : Memory Byte} {tr : List (Transition System Event)}
    (h : Run step (init cfg mem) tr s) : s.Sound :=
  h.invariant (init_sound cfg mem) fun _ _ _ => step_sound

end System
end Armsy
