import Armsy.Model.StartUp
import Armsy.Proofs.Assignment

/-! However many threads call `TcpServer::start`, the pool is filled once, the acceptor
listens once, and no connection comes before the pool has all its loops. -/

namespace Armsy

namespace EventLoopThreadPool

variable {p p' : EventLoopThreadPool} {l : PoolLoop}

/-- The pool after `i` turns of the loop in `start`. -/
def filled (p : EventLoopThreadPool) (i : ℕ) : EventLoopThreadPool :=
  startOne^[i] { p with started := true }

theorem filled_succ (p : EventLoopThreadPool) (i : ℕ) : p.filled (i + 1) = (p.filled i).startOne :=
  Function.iterate_succ_apply' startOne i _

theorem filled_eq (p : EventLoopThreadPool) (i : ℕ) :
    p.filled i =
      { p with
        started := true
        loops := p.loops ++ (List.range i).map fun j => .thread (p.loops.length + j) } := by
  induction i with
  | zero => simp [filled]
  | succ i ih =>
    rw [filled_succ, ih, startOne]
    simp [List.range_succ]

@[simp] theorem filled_threadNum (p : EventLoopThreadPool) (i : ℕ) :
    (p.filled i).threadNum = p.threadNum := by
  rw [filled_eq]

/-- The last turn leaves the pool that `start` makes. -/
theorem filled_toNat (p : EventLoopThreadPool) : p.filled p.threadNum.toNat = p.start :=
  filled_eq p _

/-- `getNextLoop` moves the cursor only. -/
theorem getNextLoop_keeps (h : p.getNextLoop = some (l, p')) :
    p'.threadNum = p.threadNum ∧ p'.loops = p.loops := by
  unfold getNextLoop at h
  split at h
  · obtain ⟨-, rfl⟩ := Prod.mk.inj (Option.some.inj h)
    exact ⟨rfl, rfl⟩
  · obtain ⟨l', -, h⟩ := Option.bind_eq_some_iff.1 h
    split at h
    · obtain ⟨-, rfl⟩ := Prod.mk.inj (Option.some.inj h)
      exact ⟨rfl, rfl⟩
    · cases h

end EventLoopThreadPool

namespace PooledServer

/-- A server that has been told its number of threads. -/
def sized (listenAddr : InetAddress) (name : List Char) (num : ℤ) : PooledServer :=
  ⟨.new listenAddr name, EventLoopThreadPool.new.setPoolSize num, []⟩

/-- The same with its pool started. -/
def opened (listenAddr : InetAddress) (name : List Char) (num : ℤ) : PooledServer :=
  ⟨.new listenAddr name, (EventLoopThreadPool.new.setPoolSize num).start, []⟩

theorem step_keeps {s s' : PooledServer} {u : Unit} (h : s.step u = some s') :
    s'.pool.threadNum = s.pool.threadNum ∧ s'.pool.loops = s.pool.loops := by
  simp only [step, newConnection, Option.bind_eq_some_iff, Option.map_eq_some_iff] at h
  obtain ⟨⟨l, p⟩, hl, server, -, rfl⟩ := h
  exact EventLoopThreadPool.getNextLoop_keeps hl

/-- An open server keeps its number of threads, and has all their loops. -/
theorem opened_run {listenAddr : InetAddress} {name : List Char} {num : ℤ} {s : PooledServer}
    {tr : List (Transition PooledServer Unit)} (h : Run step (opened listenAddr name num) tr s) :
    s.pool.threadNum = num ∧ s.pool.loops = (List.range num.toNat).map .thread := by
  refine h.invariant (I := fun s => s.pool.threadNum = num ∧
    s.pool.loops = (List.range num.toNat).map .thread) ?_ ?_
  · simp [opened, EventLoopThreadPool.start, EventLoopThreadPool.setPoolSize,
      EventLoopThreadPool.new]
  · intro s u s' hi hs
    obtain ⟨hnum, hloops⟩ := step_keeps hs
    rwa [hnum, hloops]

/-- The connections of an open server are spread over its loops. -/
theorem opened_fair {listenAddr : InetAddress} {name : List Char} {n : ℕ} {s : PooledServer}
    {tr : List (Transition PooledServer Unit)} (hpos : 0 < n) (hn : n < 2 ^ 31)
    (h : Run step (opened listenAddr name n) tr s) : Fair n s.assigned := by
  have hr : Run step (init listenAddr name n) tr s := h
  rw [(run_spec hn hr).2]
  exact turns_fair hpos _

end PooledServer

def StartEvent.isCall : StartEvent → Bool
  | .call _ => true
  | _ => false

def StartEvent.isResize : StartEvent → Bool
  | .setThreadPoolSize _ => true
  | _ => false

namespace StartUp

open PooledServer EventLoopThreadPool

variable {listenAddr : InetAddress} {name : List Char} {s s' : StartUp} {e : StartEvent}
  {t k : ℕ} {tr : List (Transition StartUp StartEvent)}

/-- The step is a `started_++`. -/
def increments (τ : Transition StartUp StartEvent) : Bool :=
  match τ.event with
  | .step t => τ.pre.calls t = .count
  | _ => false

/-- The pool when the call that fills it comes to `c`, where `p` was the pool before. -/
def poolAt (p : EventLoopThreadPool) : StartCall → EventLoopThreadPool → Prop
  | .flag, q => q = p
  | .fill i, q => i ≤ p.threadNum.toNat ∧ q = p.filled i
  | .listen, q => q = p.start
  | _, _ => False

/-- No call is past the test of `started_`; this many `listen` are queued, this many have run. -/
structure Settled (s : StartUp) (queued listens : ℕ) : Prop where
  rests : ∀ t, (s.calls t).works = false
  queued : s.queued = queued
  listens : s.listens = listens

/-- How far the start has come, after `k` increments of `started_`. -/
inductive Stage (listenAddr : InetAddress) (name : List Char) (s : StartUp) (k : ℕ) : Prop
  | before (num : ℤ) (first : k = 0) (settled : Settled s 0 0)
      (server : s.server = sized listenAddr name num)
  /-- the one call that found `started_` zero is on its way -/
  | filling (num : ℤ) (t : ℕ) (counted : 0 < k)
      (others : Settled (s.setCall t .idle) 0 0) (server : s.server.server = .new listenAddr name)
      (assigned : s.server.assigned = [])
      (pool : poolAt (EventLoopThreadPool.new.setPoolSize num) (s.calls t) s.server.pool)
  | queued (num : ℤ) (counted : 0 < k) (settled : Settled s 1 0)
      (server : s.server = opened listenAddr name num)
  | listening (num : ℤ) (counted : 0 < k) (settled : Settled s 0 1)
      (accepts : ∃ tr, Run PooledServer.step (opened listenAddr name num) tr s.server)

/-! ### One step -/

theorem setCall_calls (s : StartUp) (t : ℕ) (c : StartCall) : (s.setCall t c).calls t = c := by
  simp [setCall]

theorem setCall_calls_of_ne {u : ℕ} (s : StartUp) (c : StartCall) (h : u ≠ t) :
    (s.setCall t c).calls u = s.calls u := by
  simp [setCall, h]

theorem setCall_setCall (s : StartUp) (t : ℕ) (c c' : StartCall) :
    (s.setCall t c).setCall t c' = s.setCall t c' := by
  simp [setCall]

theorem setCall_comm {u : ℕ} (s : StartUp) (c c' : StartCall) (h : u ≠ t) :
    (s.setCall t c).setCall u c' = (s.setCall u c').setCall t c := by
  simp [setCall, Function.update_comm h]

theorem Settled.setCall {q l : ℕ} {c : StartCall} (h : Settled s q l) (hc : c.works = false) :
    Settled (s.setCall t c) q l := by
  refine ⟨?_, h.queued, h.listens⟩
  intro u
  by_cases hu : u = t
  · rw [hu, setCall_calls, hc]
  · rw [setCall_calls_of_ne s c hu]
    exact h.rests u

theorem works_of_poolAt {p q : EventLoopThreadPool} {c : StartCall} (h : poolAt p c q) :
    c.works = true := by
  cases c with
  | idle | count => exact h.elim
  | flag | fill | listen => rfl

/-- A call that has not come past the test, or is refused there, changes nothing. -/
theorem Stage.setCall {c : StartCall} (h : Stage listenAddr name s k)
    (hc : (s.calls t).works = false) (hc' : c.works = false) :
    Stage listenAddr name (s.setCall t c) k := by
  cases h with
  | before num first settled server => exact .before num first (settled.setCall hc') server
  | filling num u counted others server assigned pool =>
    have hne : u ≠ t := by
      rintro rfl
      rw [works_of_poolAt pool] at hc
      cases hc
    refine .filling num u counted ?_ server assigned ?_
    · rw [setCall_comm s c .idle hne]
      exact others.setCall hc'
    · rw [setCall_calls_of_ne s c hne]
      exact pool
  | queued num counted settled server => exact .queued num counted (settled.setCall hc') server
  | listening num counted settled accepts =>
    exact .listening num counted (settled.setCall hc') accepts

/-- The call on its way comes to its next point. -/
theorem Stage.filling_at (num : ℤ) {c : StartCall} (counted : 0 < k)
    (others : Settled (s.setCall t .idle) 0 0) (server : s.server.server = .new listenAddr name)
    (assigned : s.server.assigned = [])
    (pool : poolAt (EventLoopThreadPool.new.setPoolSize num) c s.server.pool) :
    Stage listenAddr name (s.setCall t c) k := by
  refine .filling num t counted ?_ server assigned ?_
  · rw [setCall_setCall]
    exact others
  · rw [setCall_calls]
    exact pool

/-- A second `started_++` finds another call on its way, or the start done. -/
theorem Stage.count (h : Stage listenAddr name s k) (hk : 0 < k) (b : BitVec 32) :
    Stage listenAddr name { s with started := b } (k + 1) := by
  cases h with
  | before num first => omega
  | filling num u _ others server assigned pool =>
    exact .filling num u k.succ_pos ⟨others.rests, others.queued, others.listens⟩ server assigned
      pool
  | queued num _ settled server =>
    exact .queued num k.succ_pos ⟨settled.rests, settled.queued, settled.listens⟩ server
  | listening num _ settled accepts =>
    exact .listening num k.succ_pos ⟨settled.rests, settled.queued, settled.listens⟩ accepts

/-- The first one goes through. -/
theorem Stage.first (h : Stage listenAddr name s 0) (b : BitVec 32) (t : ℕ) :
    Stage listenAddr name ({ s with started := b }.setCall t .flag) 1 := by
  cases h with
  | before num _ settled server =>
    have hrest : Settled { s with started := b } 0 0 :=
      ⟨settled.rests, settled.queued, settled.listens⟩
    have hpool : s.server.pool = EventLoopThreadPool.new.setPoolSize num := by rw [server]; rfl
    exact .filling_at num Nat.one_pos (hrest.setCall rfl) (by rw [server]; rfl)
      (by rw [server]; rfl) hpool
  | filling _ _ counted | queued _ counted | listening _ counted => omega

/-- The call that went through is the one that steps. -/
theorem Stage.work (h : Stage listenAddr name s k) (hw : (s.calls t).works = true)
    (hs : s.stepCall t = some s') : Stage listenAddr name s' k := by
  cases h with
  | before num _ settled | queued num _ settled | listening num _ settled =>
    rw [settled.rests t] at hw
    cases hw
  | filling num u counted others server assigned pool =>
    have htu : t = u := by
      by_contra hne
      have hrest := others.rests t
      rw [setCall_calls_of_ne s .idle hne, hw] at hrest
      cases hrest
    subst htu
    cases hc : s.calls t with
    | idle | count =>
      rw [hc] at hw
      cases hw
    | flag =>
      simp only [stepCall, hc, Option.some.injEq] at hs
      subst hs
      rw [hc] at pool
      refine .filling_at num counted ⟨others.rests, others.queued, others.listens⟩ server
        assigned ?_
      rw [setPool, show s.server.pool = _ from pool]
      exact ⟨Nat.zero_le _, rfl⟩
    | fill i =>
      rw [hc] at pool
      obtain ⟨hi, hpool⟩ := pool
      simp only [stepCall, hc] at hs
      split at hs
      · rename_i hlt
        obtain rfl := Option.some.inj hs
        rw [hpool, filled_threadNum] at hlt
        refine .filling_at num counted ⟨others.rests, others.queued, others.listens⟩ server assigned
          ⟨by omega, ?_⟩
        rw [setPool, hpool, ← filled_succ]
      · rename_i hge
        obtain rfl := Option.some.inj hs
        rw [hpool, filled_threadNum] at hge
        have hlast : i = (EventLoopThreadPool.new.setPoolSize num).threadNum.toNat := by omega
        refine .filling_at num counted others server assigned ?_
        rw [hpool, hlast]
        exact filled_toNat _
    | listen =>
      rw [hc] at pool
      have hserver : s.server = opened listenAddr name num := by
        rw [opened, ← server, ← assigned, ← show s.server.pool = _ from pool]
      simp only [stepCall, hc] at hs
      split at hs
      · obtain rfl := Option.some.inj hs
        refine .listening num counted ⟨others.rests, others.queued, ?_⟩ ⟨[], ?_⟩
        · exact congrArg (· + 1) others.listens
        · rw [StartUp.setCall, hserver]
          exact .nil
      · obtain rfl := Option.some.inj hs
        refine .queued num counted ⟨others.rests, ?_, others.listens⟩ hserver
        exact congrArg (· + 1) others.queued

theorem Stage.runListen (h : Stage listenAddr name s k) (hq : 0 < s.queued) :
    Stage listenAddr name { s with queued := s.queued - 1, listens := s.listens + 1 } k := by
  cases h with
  | before num _ settled | listening num _ settled =>
    have := settled.queued
    omega
  | filling num u _ others =>
    have hnone : s.queued = 0 := others.queued
    omega
  | queued num counted settled server =>
    have hone := settled.queued
    have hnone := settled.listens
    refine .listening num counted ⟨settled.rests, by simp [hone], by simp [hnone]⟩ ⟨[], ?_⟩
    rw [server]
    exact .nil

theorem Stage.accept {server : PooledServer} (h : Stage listenAddr name s k)
    (hl : 0 < s.listens) (hs : s.server.newConnection = some server) :
    Stage listenAddr name { s with server := server } k := by
  cases h with
  | before num _ settled | queued num _ settled =>
    have := settled.listens
    omega
  | filling num u _ others =>
    have hnone : s.listens = 0 := others.listens
    omega
  | listening num counted settled accepts =>
    obtain ⟨tr, hr⟩ := accepts
    exact .listening num counted ⟨settled.rests, settled.queued, settled.listens⟩
      ⟨_, hr.snoc (e := ()) hs⟩

theorem Stage.resize (h : Stage listenAddr name s 0) (num : ℤ) :
    Stage listenAddr name (s.setPool (s.server.pool.setPoolSize num)) 0 := by
  cases h with
  | before _ _ settled server =>
    refine .before num rfl ⟨settled.rests, settled.queued, settled.listens⟩ ?_
    rw [setPool, server]
    rfl
  | filling _ _ counted | queued _ counted | listening _ counted => omega

theorem stepCall_started (hc : s.calls t ≠ .count) (hs : s.stepCall t = some s') :
    s'.started = s.started := by
  unfold stepCall at hs
  split at hs
  · cases hs
  · rename_i h
    exact absurd h hc
  · obtain rfl := Option.some.inj hs
    rfl
  · split at hs <;> obtain rfl := Option.some.inj hs <;> rfl
  · split at hs <;> obtain rfl := Option.some.inj hs <;> rfl

/-! ### Runs -/

/-- `setThreadPoolSize()` is not called after `start()`. -/
def SizedFirst (tr : List (Transition StartUp StartEvent)) : Prop :=
  tr.Pairwise fun τ τ' => τ.event.isCall = true → τ'.event.isResize = false

/-- What a run comes to. -/
structure Started (listenAddr : InetAddress) (name : List Char)
    (tr : List (Transition StartUp StartEvent)) (s : StartUp) : Prop where
  started : s.started = BitVec.ofNat 32 (tr.countP increments)
  uncalled : (∀ τ ∈ tr, τ.event.isCall = false) →
    tr.countP increments = 0 ∧ ∀ t, s.calls t = .idle
  stage : Stage listenAddr name s (tr.countP increments)

theorem countP_snoc (tr : List (Transition StartUp StartEvent))
    (τ : Transition StartUp StartEvent) :
    (tr ++ [τ]).countP increments = tr.countP increments + if increments τ then 1 else 0 := by
  rw [List.countP_append, List.countP_singleton]

/-- A step that leaves `started_` alone. -/
theorem Started.other (hi : Started listenAddr name tr s) (hinc : increments ⟨s, e, s'⟩ = false)
    (hst : s'.started = s.started) (hcalls : e.isCall = false → (∀ t, s.calls t = .idle) →
      ∀ t, s'.calls t = .idle) (hstage : Stage listenAddr name s' (tr.countP increments)) :
    Started listenAddr name (tr ++ [⟨s, e, s'⟩]) s' := by
  have hcount := countP_snoc tr ⟨s, e, s'⟩
  rw [hinc, if_neg Bool.false_ne_true, Nat.add_zero] at hcount
  refine ⟨?_, ?_, ?_⟩
  · rw [hcount, hst, hi.started]
  · rw [List.forall_mem_append, List.forall_mem_singleton]
    rintro ⟨hno, hcall⟩
    obtain ⟨hzero, hidle⟩ := hi.uncalled hno
    rw [hcount]
    exact ⟨hzero, hcalls hcall hidle⟩
  · rwa [hcount]

theorem Started.increment (hi : Started listenAddr name tr s) (hc : s.calls t = .count)
    (hk : tr.countP increments < 2 ^ 32) (hs : s.step (.step t) = some s') :
    Started listenAddr name (tr ++ [⟨s, .step t, s'⟩]) s' := by
  have hinc : increments ⟨s, .step t, s'⟩ = true := by simp [increments, hc]
  have hcount := countP_snoc tr ⟨s, .step t, s'⟩
  rw [hinc, if_pos rfl] at hcount
  simp only [StartUp.step, stepCall, hc, Option.some.injEq] at hs
  subst hs
  refine ⟨?_, ?_, ?_⟩
  · rw [hcount, BitVec.ofNat_add, ← hi.started]
    rfl
  · rw [List.forall_mem_append]
    rintro ⟨hno, -⟩
    have hidle := (hi.uncalled hno).2 t
    rw [hc] at hidle
    cases hidle
  · rw [hcount]
    -- as long as the counter has not come round, only the first increment finds zero
    have hzero : s.started = 0 ↔ tr.countP increments = 0 := by
      rw [hi.started, ← BitVec.toNat_inj, BitVec.toNat_ofNat, Nat.mod_eq_of_lt hk]
      rfl
    have hstage := hi.stage
    by_cases h0 : tr.countP increments = 0
    · rw [if_pos (hzero.2 h0), h0]
      rw [h0] at hstage
      exact hstage.first _ t
    · rw [if_neg (mt hzero.1 h0)]
      refine (hstage.count (Nat.pos_of_ne_zero h0) _).setCall ?_ rfl
      exact congrArg StartCall.works hc

theorem Started.step (hi : Started listenAddr name tr s) (hs : s.step e = some s')
    (hcfg : SizedFirst (tr ++ [⟨s, e, s'⟩]))
    (hk : tr.countP increments < 2 ^ 32) : Started listenAddr name (tr ++ [⟨s, e, s'⟩]) s' := by
  cases e with
  | setThreadPoolSize num =>
    obtain rfl := Option.some.inj hs
    have hno : ∀ τ ∈ tr, τ.event.isCall = false := by
      intro τ hτ
      rw [← Bool.not_eq_true]
      intro hcall
      have hlate := (List.pairwise_append.1 hcfg).2.2 τ hτ _ (List.mem_singleton_self _) hcall
      cases hlate
    have hzero := (hi.uncalled hno).1
    refine hi.other rfl rfl (fun _ hidle => hidle) ?_
    have hstage := hi.stage
    rw [hzero] at hstage ⊢
    exact hstage.resize num
  | call t =>
    simp only [StartUp.step] at hs
    split at hs
    · rename_i hidle
      obtain rfl := Option.some.inj hs
      refine hi.other rfl rfl (fun hcall => by cases hcall) (hi.stage.setCall ?_ rfl)
      rw [hidle]
      rfl
    · cases hs
  | step t =>
    by_cases hc : s.calls t = .count
    · exact hi.increment hc hk hs
    · have hidle : s.calls t ≠ .idle := by
        intro h
        simp [StartUp.step, stepCall, h] at hs
      have hw : (s.calls t).works = true := by
        cases hct : s.calls t with
        | idle => exact absurd hct hidle
        | count => exact absurd hct hc
        | flag | fill | listen => rfl
      refine hi.other (by simp [increments, hc]) ?_ ?_ (hi.stage.work hw hs)
      · exact stepCall_started hc hs
      · exact fun _ h => absurd (h t) hidle
  | runListen =>
    simp only [StartUp.step] at hs
    split at hs
    · rename_i hen
      obtain rfl := Option.some.inj hs
      simp only [Bool.and_eq_true, decide_eq_true_eq] at hen
      exact hi.other rfl rfl (fun _ hidle => hidle) (hi.stage.runListen hen.2)
    · cases hs
  | accept =>
    simp only [StartUp.step] at hs
    split at hs
    · rename_i hen
      obtain ⟨server, hserver, rfl⟩ := Option.map_eq_some_iff.1 hs
      simp only [Bool.and_eq_true, decide_eq_true_eq] at hen
      exact hi.other rfl rfl (fun _ hidle => hidle) (hi.stage.accept hen.2 hserver)
    · cases hs

theorem init_started : Started listenAddr name [] (init listenAddr name) :=
  ⟨rfl, fun _ => ⟨rfl, fun _ => rfl⟩, .before 0 rfl ⟨fun _ => rfl, rfl, rfl⟩ rfl⟩

theorem run_started (h : Run step (init listenAddr name) tr s) (hcfg : SizedFirst tr)
    (hk : tr.countP increments < 2 ^ 32) : Started listenAddr name tr s := by
  induction h with
  | nil => exact init_started
  | @snoc tr s s' e _ hst ih =>
    rw [countP_snoc] at hk
    have hlt : tr.countP increments < 2 ^ 32 := by omega
    have hsized : SizedFirst tr := (List.pairwise_append.1 hcfg).1
    exact (ih hsized hlt).step hst hcfg hlt

/-- In any order of the calls of `start()` that any threads make and of the steps of the base
loop, at most one `Acceptor::listen` is queued or has run, and exactly one once a call has
got through the test and none is on its way. No connection comes before it has run; by then
the pool has all its loops, and from there on the server takes its connections as one whose
pool was started at once. -/
theorem starts_once (h : Run step (init listenAddr name) tr s) (hcfg : SizedFirst tr)
    (hk : tr.countP increments < 2 ^ 32) :
    s.queued + s.listens ≤ 1 ∧
      (0 < tr.countP increments → (∀ t, (s.calls t).works = false) → s.queued + s.listens = 1) ∧
      (s.listens = 0 → s.server.assigned = []) ∧
      (0 < s.listens →
        s.server.pool.loops = (List.range s.server.pool.threadNum.toNat).map .thread ∧
          ∃ tr', Run PooledServer.step (opened listenAddr name s.server.pool.threadNum) tr'
            s.server) := by
  cases (run_started h hcfg hk).stage with
  | before num first settled server =>
    refine ⟨by simp [settled.queued, settled.listens], by omega, ?_, ?_⟩
    · intro _
      rw [server]
      rfl
    · intro hl
      simp [settled.listens] at hl
  | filling num t _ others _ assigned pool =>
    have hq : s.queued = 0 := others.queued
    have hl : s.listens = 0 := others.listens
    refine ⟨by omega, ?_, fun _ => assigned, by omega⟩
    intro _ hrest
    have hworks := works_of_poolAt pool
    rw [hrest t] at hworks
    cases hworks
  | queued num _ settled server =>
    refine ⟨by simp [settled.queued, settled.listens], ?_, ?_, ?_⟩
    · simp [settled.queued, settled.listens]
    · intro _
      rw [server]
      rfl
    · intro hl
      simp [settled.listens] at hl
  | listening num _ settled accepts =>
    obtain ⟨tr', hr⟩ := accepts
    obtain ⟨hnum, hloops⟩ := opened_run hr
    refine ⟨by simp [settled.queued, settled.listens], ?_, ?_, ?_⟩
    · simp [settled.queued, settled.listens]
    · simp [settled.listens]
    · intro _
      rw [hnum]
      exact ⟨hloops, tr', hr⟩

/-- Three threads call `start()` at once, the server has two loops and takes three
connections. -/
theorem starts_once_three : ∃ tr s, Run step (init ⟨(127, 0, 0, 1), (31, 64)⟩ ['s']) tr s ∧
    s.server.assigned = [.thread 0, .thread 1, .thread 0] ∧ s.queued + s.listens ≤ 1 ∧
    s.server.pool.loops = [.thread 0, .thread 1] := by
  obtain ⟨tr, s, hr, -, hcfg, hk, hl, hnum, hassigned⟩ := exists_run step
    (init ⟨(127, 0, 0, 1), (31, 64)⟩ ['s'])
    [.setThreadPoolSize 2, .call 1, .call 0, .call 2, .step 2, .step 1, .step 2, .step 2, .step 0,
      .step 2, .step 2, .step 2, .runListen, .accept, .accept, .accept]
    (P := fun tr s => (tr.Pairwise fun τ τ' => τ.event.isCall = true → τ'.event.isResize = false) ∧
      tr.countP increments < 2 ^ 32 ∧ 0 < s.listens ∧ s.server.pool.threadNum = 2 ∧
      s.server.assigned = [.thread 0, .thread 1, .thread 0]) (by decide)
  obtain ⟨hone, -, -, hopen⟩ := starts_once hr hcfg hk
  have hloops := (hopen hl).1
  rw [hnum] at hloops
  exact ⟨tr, s, hr, hassigned, hone, hloops⟩

/-- Once the server listens, its connections are spread evenly over its loops. -/
theorem fair_after_start {n : ℕ} (h : Run step (init listenAddr name) tr s) (hcfg : SizedFirst tr)
    (hk : tr.countP increments < 2 ^ 32) (hl : 0 < s.listens)
    (hnum : s.server.pool.threadNum = n) (hpos : 0 < n) (hn : n < 2 ^ 31) :
    Fair n s.server.assigned := by
  cases (run_started h hcfg hk).stage with
  | before _ _ settled | queued _ _ settled =>
    have := settled.listens
    omega
  | filling _ t _ others =>
    have hnone : s.listens = 0 := others.listens
    omega
  | listening num _ _ accepts =>
    obtain ⟨tr', hr⟩ := accepts
    obtain rfl : num = n := (opened_run hr).1.symm.trans hnum
    exact opened_fair hpos hn hr

end StartUp
end Armsy
