import Armsy.Lib.Simulation
import Armsy.Model.Process
import Armsy.Proofs.ConnectionView

/-! A process keeps of a connection its state, its channel and the poller of its loop, and
computes them from acts. Over the runs of a whole connection, with its buffers and every
thread that calls it, this is what the connection has. -/

namespace Armsy

open Armsy.System (ran)
open Connection (view seen)

/-- A connection as a process keeps it. -/
structure KeptConnection where
  conn : Connection
  registry : Registry Source

namespace KeptConnection

/-- What a step of the process does with connection `n` when it acts on it. -/
def step (n : ℕ) (k : KeptConnection) (a : Act) : Option KeptConnection :=
  let ch := k.registry.channel (.conn n)
  ((k.registry.set (.conn n) (a.prepare ch)).calls k.conn.loop (.conn n)
    (a.calls k.conn.state ch)).map fun r => ⟨k.conn.act a, r⟩

/-- What the process has when it has accepted the connection. -/
def accepted (n l : ℕ) (name : List Char) (r : Registry Source) (cfg : Config) : KeptConnection :=
  ⟨.new name l cfg.self cfg.fd, r.set (.conn n) (.new cfg.self cfg.fd)⟩

/-- The poller of the loop and the channel. -/
def wires (n : ℕ) (k : KeptConnection) : EpollPoller × Channel :=
  (k.registry.poller k.conn.loop, k.registry.channel (.conn n))

end KeptConnection

/-- It is what the step does there: the connection that the server has after it, and the
registry after its calls. -/
theorem Process.request_acts {p : Process} {e : ServerEvent} {n : ℕ} {a : Act}
    (h : p.server.acts e = some (n, a)) :
    (p.request e).map (KeptConnection.mk (p.server.nextConns e n)) =
      KeptConnection.step n ⟨p.server.conns n, p.registry⟩ a := by
  have hreq : p.requests e = some (.conn n, a.prepare (p.registry.channel (.conn n)),
      a.calls (p.server.conns n).state (p.registry.channel (.conn n))) := by
    cases e with
    | stop | destroyed => cases h
    | _ => simp only [requests, h, Option.map_some]
  have hconn : p.server.nextConns e n = (p.server.conns n).act a := by
    cases e with
    | accept => cases h
    | _ => simp [Server.nextConns, h]
  rw [request, hreq, hconn]
  rfl

/-! ### The calls of an act -/

/-- Calls on a channel, one after the other. -/
def ChannelOp.runAll (ops : List ChannelOp) (w : EpollPoller × Channel) :
    Option (EpollPoller × Channel) :=
  ops.foldlM (fun w op => op.run w.2 w.1) w

theorem Registry.calls_runAll {ι : Type*} [DecidableEq ι] {r : Registry ι} {l : ℕ} {i : ι}
    {ops : List ChannelOp} {w : EpollPoller × Channel}
    (h : ChannelOp.runAll ops (r.poller l, r.channel i) = some w) :
    ∃ r', r.calls l i ops = some r' ∧ (r'.poller l, r'.channel i) = w := by
  induction ops generalizing r with
  | nil =>
    exact ⟨r, rfl, Option.some.inj h⟩
  | cons op ops ih =>
    simp only [ChannelOp.runAll, List.foldlM_cons, Option.bind_eq_bind,
      Option.bind_eq_some_iff] at h
    obtain ⟨q, hq, h⟩ := h
    obtain ⟨r', hr', hw⟩ := ih (r := ⟨Function.update r.poller l q.1,
      Function.update r.channel i q.2⟩) (by simpa [ChannelOp.runAll] using h)
    refine ⟨r', ?_, hw⟩
    rw [calls, List.foldlM_cons, call, hq]
    exact hr'

/-- The calls that an operation makes on the channel are those of its act; an operation that
is no act makes none. -/
theorem rewire_seen (c : TcpConnection) (o : Op) (l : ℕ) : c.rewire o =
    match seen l c o with
    | some a => ChannelOp.runAll (a.calls c.state c.channel) (c.loop.poller, a.prepare c.channel)
    | none => some c.wires := by
  cases o with
  | sendInLoop data r junk =>
    simp only [TcpConnection.rewire, seen, Act.calls, Act.prepare]
    cases hset : c.channel.isWriteSet with
    | true => simp [ChannelOp.runAll, TcpConnection.wires]
    | false =>
      cases hrest : (c.rest data r).isEmpty with
      | true => simp [ChannelOp.runAll, TcpConnection.wires]
      | false => simp [ChannelOp.runAll, ChannelOp.run]
  | handleWrite r =>
    simp only [TcpConnection.rewire, seen]
    split_ifs with hd
    · simp [ChannelOp.runAll, ChannelOp.run, Act.calls, Act.prepare]
    · rfl
  | handleRead r junk =>
    cases r with
    | delivered bytes =>
      cases bytes with
      | nil =>
        simp [TcpConnection.rewire, seen, ChannelOp.runAll, ChannelOp.run, Act.calls, Act.prepare]
      | cons x xs => rfl
    | failed e => rfl
  | connDestory =>
    simp only [TcpConnection.rewire, seen, Act.calls, Act.prepare]
    split_ifs with hcon
    · simp [ChannelOp.runAll, ChannelOp.run]
    · simp [ChannelOp.runAll, ChannelOp.run]
  | connEstablish | handleClose =>
    simp [TcpConnection.rewire, seen, ChannelOp.runAll, ChannelOp.run, Act.calls, Act.prepare]
  | setDisconnecting | shutdownInLoop | handleError | callback e | retrieve len | skip => rfl

/-! ### Steps and runs -/

section

variable {n l : ℕ} {name : List Char} {cfg : Config} {mem : Memory Byte} {c c' : TcpConnection}
  {o : Op} {a : Act} {t : Option ℕ} {s s' : System} {e : Event} {k : KeptConnection}
  {tr : List (Transition System Event)}

/-- The loop that a run has torn the connection down on. -/
def tornDown (l : ℕ) (tr : List (Transition System Event)) : Option ℕ :=
  if tr.any fun τ => ran τ = .connDestory then some l else none

/-- The act that a step of the connection is. -/
def actOf (l : ℕ) (τ : Transition System Event) : Option Act := seen l τ.pre.conn (ran τ)

theorem eq_connDestory_of_seen {m : ℕ} (h : seen l c o = some (.connDestory m)) :
    o = .connDestory := by
  unfold seen at h
  split at h
  · cases h
  · cases h
  · cases h
  · split_ifs at h
    cases h
  · cases h
  · cases h
  · rfl
  · cases h

theorem act_tornDownOn_of_seen (ha : seen l c o = some a) (t : Option ℕ) :
    ((view name l t c).act a).tornDownOn = if o = .connDestory then some l else t := by
  by_cases ho : o = .connDestory
  · subst ho
    obtain rfl : .connDestory l = a := Option.some.inj ha
    rw [if_pos rfl, Connection.act_connDestory_tornDownOn]
  · rw [if_neg ho]
    rcases Connection.act_tornDownOn (view name l t c) a with hkept | ⟨m, rfl, -⟩
    · exact hkept
    · exact absurd (eq_connDestory_of_seen ha) ho

theorem act_view (h : Teardown.Linked c.wires) (hw : c.outputBuffer.WellIndexed)
    (hs : c.exec o = some c') (ha : seen l c o = some a) (t : Option ℕ) :
    (view name l t c).act a = view name l (if o = .connDestory then some l else t) c' := by
  have hview := Connection.view_exec (l := l) h hw hs name t
  rw [ha] at hview
  obtain ⟨hstate, hchannel⟩ := hview
  have htorn : ((view name l t c).act a).tornDownOn = if o = .connDestory then some l else t :=
    act_tornDownOn_of_seen ha t
  have hname := Connection.act_name (view name l t c) a
  have hloop := Connection.act_loop (view name l t c) a
  cases hk : (view name l t c).act a with
  | mk name' loop' state' channel' tornDownOn' =>
    simp only [hk] at hstate hchannel htorn hname hloop
    rw [hstate, hchannel, htorn, hname, hloop]
    rfl

/-- The process keeps what the connection has. -/
structure Keeps (n l : ℕ) (name : List Char) (k : KeptConnection) (t : Option ℕ)
    (c : TcpConnection) : Prop where
  conn : k.conn = view name l t c
  wires : k.wires n = c.wires

theorem Keeps.exists_act (hk : Keeps n l name k t c) (h : Teardown.Linked c.wires)
    (hw : c.outputBuffer.WellIndexed) (hs : c.exec o = some c') (ha : seen l c o = some a) :
    ∃ k', k.step n a = some k' ∧
      Keeps n l name k' (if o = .connDestory then some l else t) c' := by
  have hr := TcpConnection.exec_rewire hw hs
  rw [rewire_seen c o l, ha] at hr
  have hch : k.registry.channel (.conn n) = c.channel := congrArg Prod.snd hk.wires
  have hloop : k.conn.loop = l := by rw [hk.conn]; rfl
  have hp : k.registry.poller l = c.loop.poller := by
    rw [← hloop]
    exact congrArg Prod.fst hk.wires
  have hstate : k.conn.state = c.state := by rw [hk.conn]; rfl
  have hrun : ChannelOp.runAll (a.calls c.state c.channel)
      ((k.registry.set (.conn n) (a.prepare c.channel)).poller l,
        (k.registry.set (.conn n) (a.prepare c.channel)).channel (.conn n)) = some c'.wires := by
    simpa [Registry.set, hp] using hr
  obtain ⟨r, hcalls, hwires⟩ := Registry.calls_runAll hrun
  refine ⟨⟨k.conn.act a, r⟩, ?_, ?_, ?_⟩
  · simp only [KeptConnection.step, hch, hloop, hstate, hcalls, Option.map_some]
  · rw [hk.conn]
    exact act_view h hw hs ha t
  · rw [KeptConnection.wires, Connection.act_loop, hloop]
    exact hwires

/-- An operation that is no act changes nothing that the process keeps. -/
theorem Keeps.stays (hk : Keeps n l name k t c) (h : Teardown.Linked c.wires)
    (hw : c.outputBuffer.WellIndexed) (hs : c.exec o = some c') (ha : seen l c o = none) :
    Keeps n l name k t c' := by
  have hr := TcpConnection.exec_rewire hw hs
  have hview := Connection.view_exec (l := l) h hw hs name t
  rw [rewire_seen c o l, ha] at hr
  rw [ha] at hview
  refine ⟨?_, hk.wires.trans (Option.some.inj hr)⟩
  rw [hk.conn, view, view, hview.1, hview.2]

theorem tornDown_snoc (l : ℕ) (tr : List (Transition System Event)) (τ : Transition System Event) :
    tornDown l (tr ++ [τ]) = if ran τ = .connDestory then some l else tornDown l tr := by
  by_cases hτ : ran τ = .connDestory
  · simp [tornDown, hτ]
  · simp [tornDown, hτ]

/-- The queue that an event moves is no part of what the process keeps. -/
theorem Keeps.front (hk : Keeps n l name k t s.conn) (e : Event) :
    Keeps n l name k t (s.front e) := by
  refine ⟨?_, ?_⟩
  · rw [hk.conn, view, view, System.front_state, System.front_channel]
  · rw [System.front_wires]
    exact hk.wires

theorem seen_front (l : ℕ) (s : System) (e : Event) (o : Op) :
    seen l (s.front e) o = seen l s.conn o := by
  cases o <;> simp [seen]

/-- The process follows one step, by the act that it is or by none. -/
theorem Keeps.exists_run (hk : Keeps n l name k (tornDown l tr) s.conn) (hi : Teardown.Wired s)
    (hs : s.step e = some s') :
    ∃ tr₂ k', Run (KeptConnection.step n) k tr₂ k' ∧
      tr₂.map Transition.event = (actOf l ⟨s, e, s'⟩).toList ∧
      Keeps n l name k' (tornDown l (tr ++ [⟨s, e, s'⟩])) s'.conn := by
  have hst := System.step_cases hs
  have hl : Teardown.Linked (s.front e).wires := by simpa using hi.linked
  have hw := System.front_wellIndexed hi.sound.wellIndexed e
  have hact : actOf l ⟨s, e, s'⟩ = seen l (s.front e) (s.op e) := (seen_front l s e _).symm
  have htorn : tornDown l (tr ++ [⟨s, e, s'⟩]) =
      if s.op e = .connDestory then some l else tornDown l tr := tornDown_snoc l tr ⟨s, e, s'⟩
  rw [hact, htorn]
  cases ha : seen l (s.front e) (s.op e) with
  | none =>
    have hne : s.op e ≠ .connDestory := by
      intro ho
      rw [ho] at ha
      cases ha
    rw [if_neg hne]
    exact ⟨[], k, .nil, rfl, (hk.front e).stays hl hw hst.exec ha⟩
  | some a =>
    obtain ⟨k', hk', hkept⟩ := (hk.front e).exists_act hl hw hst.exec ha
    exact ⟨[⟨k, a, k'⟩], k', Run.nil.snoc hk', rfl, hkept⟩

/-- Whatever the threads of a connection do, and whatever its writes and reads return, the
acts that the steps are lead a process to what the connection then has: its state, its
channel, what the poller of its loop knows of it, and whether it is torn down. Each act does
what a step of the process does that acts so on the connection. -/
theorem connection_refines {r : Registry Source} (h : Run System.step (System.init cfg mem) tr s)
    (hr : r.poller l = cfg.poller) :
    ∃ tr' k, Run (KeptConnection.step n) (.accepted n l name r cfg) tr' k ∧
      tr'.map Transition.event = tr.filterMap (actOf l) ∧
      k.conn = view name l (tornDown l tr) s.conn ∧
      k.registry.poller l = s.conn.loop.poller ∧ k.registry.channel (.conn n) = s.conn.channel ∧
      ∀ τ ∈ tr', ∀ (p : Process) (e : ServerEvent), p.server.conns n = τ.pre.conn →
        p.registry = τ.pre.registry → p.server.acts e = some (n, τ.event) →
        (p.request e).map (KeptConnection.mk (p.server.nextConns e n)) = some τ.post := by
  let R := fun (tr : List (Transition System Event)) (s : System)
      (tr' : List (Transition KeptConnection Act)) (k : KeptConnection) =>
    Teardown.Wired s ∧ tr'.map Transition.event = tr.filterMap (actOf l) ∧
      Keeps n l name k (tornDown l tr) s.conn
  have h0 : R [] (System.init cfg mem) [] (.accepted n l name r cfg) := by
    refine ⟨Teardown.init_wired cfg mem, rfl, rfl, ?_⟩
    simp [KeptConnection.wires, KeptConnection.accepted, Connection.new, Registry.set, hr,
      TcpConnection.wires, System.init, TcpConnection.new]
  obtain ⟨tr', k, hrun, -, hev, hk⟩ := h.simulate h0 fun tr s e s' tr' k hR hs => by
    obtain ⟨hi, hev, hk⟩ := hR
    obtain ⟨tr₂, k', hrun, hev₂, hk'⟩ := hk.exists_run hi hs
    refine ⟨tr₂, k', hrun, Teardown.step_wired hi hs, ?_, hk'⟩
    rw [List.map_append, hev, hev₂, List.filterMap_append]
    cases ha : actOf l ⟨s, e, s'⟩ <;> simp [ha]
  have hloop : k.conn.loop = l := by rw [hk.conn]; rfl
  refine ⟨tr', k, hrun, hev, hk.conn, ?_, congrArg Prod.snd hk.wires, ?_⟩
  · rw [← hloop]
    exact congrArg Prod.fst hk.wires
  · intro τ hτ p e hconn hreg hacts
    obtain ⟨_, _, -, -, hst⟩ := hrun.split hτ
    rw [Process.request_acts hacts, hconn, hreg]
    exact hst

/-- A `send()` of another thread comes in after the teardown, and asks for write events. -/
theorem connection_refines_late : ∃ tr s tr' k,
    Run System.step (System.init .sample fun _ => 0) tr s ∧
    tr.map Transition.event = Teardown.lateSend (.failed .EWOULDBLOCK) ∧
    Run (KeptConnection.step 0)
      (.accepted 0 1 ['c'] ⟨fun _ => Config.sample.poller, fun _ => .new 0 0⟩ .sample) tr' k ∧
    tr'.map Transition.event = [.connEstablish, .handleClose, .connDestory 1, .sendInLoop true] ∧
    k.registry.poller 1 = s.conn.loop.poller := by
  obtain ⟨tr, s, hr, he, hacts⟩ := exists_run System.step (System.init .sample fun _ => 0)
    (Teardown.lateSend (.failed .EWOULDBLOCK))
    (P := fun tr _ => tr.filterMap (actOf 1) =
      [.connEstablish, .handleClose, .connDestory 1, .sendInLoop true]) (by decide +kernel)
  obtain ⟨tr', k, hr', he', -, hpoller, -, -⟩ := connection_refines (n := 0) (l := 1)
    (r := ⟨fun _ => Config.sample.poller, fun _ => .new 0 0⟩) hr rfl
  exact ⟨tr, s, tr', k, hr, he, hr', he'.trans hacts, hpoller⟩

end

end Armsy
