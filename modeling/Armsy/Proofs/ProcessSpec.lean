import Armsy.Model.Process
import Armsy.Proofs.Owners
import Armsy.Proofs.RegistrySpec

/-! What a step of the process does: the server takes its own step, the channel it acts on
ends as the server's model of the connection says, and only an accept opens a channel. -/

namespace Armsy

open ChannelSet (called)

/-- The calls of an act leave the channel as the act does. -/
theorem Act.channel_eq (a : Act) (k : Connection) :
    (a.calls k.state k.channel).foldl (fun c op => called op c) (a.prepare k.channel) =
      (k.act a).channel := by
  cases a with
  | connEstablish | setDisconnecting | handleClose | drained => rfl
  | connDestory l =>
    by_cases hs : k.state = .connected
    · simp [calls, prepare, Connection.act, hs, called, Connection.request, ChannelOp.events]
    · simp [calls, prepare, Connection.act, hs, called]
  | sendInLoop w =>
    by_cases hw : (w && !k.channel.isWriteSet) = true
    · simp only [calls, Connection.act, hw, if_true]
      rfl
    · simp only [calls, Connection.act, hw]
      rfl

theorem Act.prepare_fd (a : Act) (ch : Channel) : (a.prepare ch).fd = ch.fd := by
  cases a <;> rfl

theorem Act.prepare_self (a : Act) (ch : Channel) : (a.prepare ch).self = ch.self := by
  cases a <;> rfl

theorem Act.prepare_state (a : Act) (ch : Channel) : (a.prepare ch).state = ch.state := by
  cases a <;> rfl

theorem Act.prepare_events (a : Act) (ch : Channel) : (a.prepare ch).events = ch.events := by
  cases a <;> rfl

@[simp] theorem ChannelSet.foldl_called_fd (ops : List ChannelOp) (c : Channel) :
    (ops.foldl (fun c op => called op c) c).fd = c.fd := by
  induction ops generalizing c with
  | nil => rfl
  | cons op ops ih => rw [List.foldl_cons, ih, ChannelSet.called_fd]

@[simp] theorem ChannelSet.foldl_called_self (ops : List ChannelOp) (c : Channel) :
    (ops.foldl (fun c op => called op c) c).self = c.self := by
  induction ops generalizing c with
  | nil => rfl
  | cons op ops ih => rw [List.foldl_cons, ih, ChannelSet.called_self]

/-! ### Which channels are open -/

namespace Server

variable {s s' : Server} {e : ServerEvent} {c l : ℕ} {i : Source}

@[simp] theorem isOpen_wakeup :
    s.isOpen (.wakeup l) = true ↔ l ≤ s.threads ∧ (s.loops l).running = true := by
  simp [isOpen]

@[simp] theorem isOpen_acceptor : s.isOpen .acceptor = true ↔ s.life ≠ .destroyed := by
  simp [isOpen]

@[simp] theorem isOpen_conn :
    s.isOpen (.conn c) = true ↔ c < s.accepted ∧ 0 < s.refCount c := by
  simp [isOpen]

theorem mem_sources (h : s.isOpen i = true) : i ∈ s.sources := by
  cases i with
  | wakeup l =>
    have hl := (isOpen_wakeup.1 h).1
    simp [sources]
    omega
  | acceptor => simp [sources]
  | conn c => simp [sources, (isOpen_conn.1 h).1]

theorem Stepped.destroyed_of_destroyed (h : Stepped s e s') (hd : s.life = .destroyed) :
    s'.life = .destroyed := by
  have hready := h.ready
  rw [h.life]
  cases hready with
  | destroy _ ha => simp [hd] at ha
  | destroyNext ha | endDestroyNext ha => simp [hd] at ha
  | destroyed _ => rfl
  | _ => exact hd

/-- Only an accept opens a channel. -/
theorem Stepped.isOpen_cases (h : Stepped s e s') (ho : Owned s) (hi : s'.isOpen i = true) :
    s.isOpen i = true ∨ ∃ self fd, e = .accept self fd ∧ i = .conn s.accepted := by
  cases i with
  | wakeup l =>
    obtain ⟨hl, hr⟩ := isOpen_wakeup.1 hi
    exact .inl (isOpen_wakeup.2 ⟨h.threads ▸ hl, h.running_of_running hr⟩)
  | acceptor =>
    exact .inl (isOpen_acceptor.2 fun hd => isOpen_acceptor.1 hi (h.destroyed_of_destroyed hd))
  | conn c =>
    obtain ⟨hc, hr⟩ := isOpen_conn.1 hi
    by_cases hlt : c < s.accepted
    · have hown := owner_step h ho.anchored (fun _ => hlt) (owner_iff.2 hr)
      exact .inl (isOpen_conn.2 ⟨hlt, owner_iff.1 hown⟩)
    · right
      rw [h.accepted] at hc
      cases e with
      | accept self fd =>
        refine ⟨self, fd, rfl, ?_⟩
        have : c = s.accepted := by
          have hc : c < s.accepted + 1 := hc
          omega
        rw [this]
      | _ => exact absurd hc hlt

theorem Stepped.isOpen_accept {self fd : ℕ} (h : Stepped s (.accept self fd) s') :
    s'.isOpen (.conn s.accepted) = true := by
  refine isOpen_conn.2 ⟨h.lt_accepted, ?_⟩
  refine refCount_pos_of_frame (Nat.zero_le _) ?_
  rw [h.loop, moved_eq]
  simp [mover, move, Frame.refs]

/-- The event acts on no connection that is gone. -/
def Safe (s : Server) (e : ServerEvent) : Prop := ∀ q ∈ s.acts e, 0 < s.refCount q.1

instance (s : Server) (e : ServerEvent) : Decidable (s.Safe e) :=
  inferInstanceAs (Decidable (∀ q ∈ s.acts e, 0 < s.refCount q.1))

theorem Stepped.home_eq (h : Stepped s e s') (hi : s.isOpen i = true) : s'.home i = s.home i := by
  cases i with
  | conn c => exact (h.name_eq (isOpen_conn.1 hi).1).2
  | _ => rfl

/-- An act that may reach the poller is taken while the loop of the connection is there. -/
theorem Owned.running_of_acting (ho : Owned s) (h : Stepped s e s') {a : Act}
    (ha : Acting s e c a) :
    a = .setDisconnecting ∨ (s.loops (s.conns c).loop).running = true := by
  have of_batch {l : ℕ} {f : Task} {fs : List Task} (hfree : s.free l = true)
      (hb : (s.loops l).queue.batch = f :: fs) : (s.loops (s.loopOf f)).running = true := by
    rw [(ho.queued l f (by simp [BatchQueue.waiting, hb])).2]
    exact running_of_free hfree
  have of_dispatching {l : ℕ} {d : ℕ × Bool} (hfree : s.free l = true)
      (hd : (s.loops l).dispatching = some d) :
      (s.loops (s.conns d.1).loop).running = true := by
    rw [(ho.dispatching l d hd).2]
    exact running_of_free hfree
  have hready := h.ready
  cases ha with
  | shutdownNow | shutdownSet => exact .inl rfl
  | establish _ h0 | destroyNext h0 => exact .inr (h0 ▸ ho.base)
  | handleClose hd =>
    cases hready with
    | handleClose hin => exact .inr (of_dispatching (of_inHandler hin).1 hd)
  | drained hd =>
    cases hready with
    | drained hin => exact .inr (of_dispatching (of_inHandler hin).1 hd)
  | runEstablish hb | runDestory hb | runSend hb =>
    cases hready with
    | runFunctor hfree => exact .inr (of_batch hfree hb)
  | sendNow =>
    cases hready with
    | sendNow hfree _ hl => exact .inr (hl ▸ running_of_free hfree)

end Server

/-! ### The calls of an event -/

namespace Process

open Server (Stepped isOpen_wakeup isOpen_acceptor isOpen_conn)
open Registry (Watched Mapped)

variable {p p' : Process} {s' : Server} {e : ServerEvent} {c l : ℕ} {i : Source} {ch : Channel}
  {ops : List ChannelOp}

/-- The channels that are there. -/
def live (s : Server) : Set Source := {i | s.isOpen i = true}

/-- Those of them whose loop is there. -/
def served (s : Server) : Set Source := {i ∈ live s | (s.loops (s.home i)).running = true}

/-- Which channel an event makes which calls on. -/
inductive Requesting (p : Process) : ServerEvent → Source → Channel → List ChannelOp → Prop
  | stop (l : ℕ) : Requesting p (.stop l) (.wakeup l) (p.registry.channel (.wakeup l))
      [.disableAllEvent, .remove]
  | destroyed : Requesting p .destroyed .acceptor (p.registry.channel .acceptor)
      [.disableAllEvent, .remove]
  | act {e : ServerEvent} {c : ℕ} {a : Act} : p.server.acts e = some (c, a) →
      Requesting p e (.conn c) (a.prepare (p.registry.channel (.conn c)))
        (a.calls (p.server.conns c).state (p.registry.channel (.conn c)))

theorem requests_cases (h : p.requests e = some (i, ch, ops)) : Requesting p e i ch ops := by
  unfold requests at h
  split at h
  · cases h
    exact .stop _
  · cases h
    exact .destroyed
  · obtain ⟨⟨c, a⟩, ha, h⟩ := Option.map_eq_some_iff.1 h
    cases h
    exact .act ha

theorem requests_of_acts {a : Act} (h : p.server.acts e = some (c, a)) :
    p.requests e = some (.conn c, a.prepare (p.registry.channel (.conn c)),
      a.calls (p.server.conns c).state (p.registry.channel (.conn c))) := by
  cases e with
  | stop l | destroyed => cases h
  | _ => simp [requests, h]

/-- The event acts on no connection that is gone. -/
def Safe (p : Process) : ProcessEvent → Prop
  | .server e => p.server.Safe e
  | .listen => True

instance (p : Process) : (ev : ProcessEvent) → Decidable (p.Safe ev)
  | .server e => inferInstanceAs (Decidable (p.server.Safe e))
  | .listen => .isTrue trivial

/-- No `epoll_ctl` of the event fails. -/
def Succeeds (p : Process) : ProcessEvent → Prop
  | .server e => ∀ i ch ops, p.requests e = some (i, ch, ops) →
      Registry.Succeeds (p.server.home i) i (p.registry.set i ch) ops
  | .listen => Registry.Succeeds 0 .acceptor p.registry [.enableReadEvent]

structure Inv (p : Process) : Prop where
  owned : Server.Owned p.server
  channel : ∀ c < p.server.accepted, p.registry.channel (.conn c) = (p.server.conns c).channel
  wakeup : ∀ l ≤ p.server.threads, (p.server.loops l).running = true →
    (p.registry.channel (.wakeup l)).state = .added
  distinct : Set.InjOn (fun i => (p.registry.channel i).fd) (live p.server)
  watched : Watched (served p.server) p.server.home p.registry

theorem wakeup_served (hl : l ≤ p.server.threads) (hr : (p.server.loops l).running = true) :
    Source.wakeup l ∈ served p.server :=
  ⟨isOpen_wakeup.2 ⟨hl, hr⟩, hr⟩

theorem Inv.acceptor_served (hi : Inv p) (hl : p.server.life ≠ .destroyed) :
    Source.acceptor ∈ served p.server :=
  ⟨isOpen_acceptor.2 hl, hi.owned.base⟩

/-- Where there are calls, the channel and its loop are there, and the calls begin with what
the poller knows of it. -/
theorem Inv.requesting (hi : Inv p) (hs : Stepped p.server e s') (ht : p.server.Safe e)
    (h : Requesting p e i ch ops) : ops = [] ∧ ch = p.registry.channel i ∨
      i ∈ served p.server ∧ ch.fd = (p.registry.channel i).fd ∧
        ch.entry = (p.registry.channel i).entry ∧
        ch.address = (p.registry.channel i).address := by
  cases h with
  | stop l =>
    refine .inr ⟨?_, rfl, rfl, rfl⟩
    cases hs.ready with
    | stop _ _ hl hr => exact wakeup_served hl hr
  | destroyed =>
    refine .inr ⟨?_, rfl, rfl, rfl⟩
    cases hs.ready with
    | destroyed hd => exact hi.acceptor_served (by simp [hd])
  | @act _ c a ha =>
    rcases hi.owned.running_of_acting hs (Server.acts_cases ha) with rfl | hrun
    · exact .inl ⟨rfl, rfl⟩
    · have hpos := ht (c, a) ha
      have hopen := isOpen_conn.2 ⟨hi.owned.accepted c (Server.owner_iff.2 hpos), hpos⟩
      refine .inr ⟨⟨hopen, hrun⟩, a.prepare_fd _, ?_, ?_⟩
      · simp only [Channel.entry, a.prepare_state, a.prepare_events, a.prepare_self]
      · simp only [Channel.address, a.prepare_state, a.prepare_self]

/-- The channels after the calls of an event. -/
def requested (p : Process) (e : ServerEvent) : Source → Channel :=
  match p.requests e with
  | some (i, ch, ops) =>
    Function.update p.registry.channel i (ops.foldl (fun c op => called op c) ch)
  | none => p.registry.channel

/-- The calls of an event never fail. -/
theorem Inv.request (hi : Inv p) (hs : Stepped p.server e s') (ht : p.server.Safe e) :
    p.Succeeds (.server e) ∧ ∃ r, p.request e = some r ∧
      Watched (served p.server) p.server.home r ∧
      (Mapped (served p.server) p.server.home p.registry →
        Mapped (served p.server) p.server.home r) ∧ r.channel = p.requested e := by
  unfold Process.request requested
  cases hr : p.requests e with
  | none =>
    refine ⟨?_, p.registry, rfl, hi.watched, id, rfl⟩
    rintro i ch ops heq
    simp [hr] at heq
  | some q =>
    obtain ⟨i, ch, ops⟩ := q
    have succeeds (h : Registry.Succeeds (p.server.home i) i (p.registry.set i ch) ops) :
        p.Succeeds (.server e) := by
      rintro _ _ _ heq
      rw [hr] at heq
      cases heq
      exact h
    rcases hi.requesting hs ht (requests_cases hr) with ⟨rfl, rfl⟩ | ⟨hserved, hfd, he, ha⟩
    · have hsame : p.registry.set i (p.registry.channel i) = p.registry := by
        simp [Registry.set]
      refine ⟨succeeds trivial, p.registry, ?_, hi.watched, id, by simp⟩
      exact congrArg some hsame
    · obtain ⟨hsucc, r, hcalls, hw, hm, hc⟩ := (hi.watched.set hfd he).calls hserved ops
      refine ⟨succeeds hsucc, r, hcalls, hw, fun hm' => hm (hm'.set hfd ha), ?_⟩
      simpa [Registry.set] using hc

theorem requested_of_requests (h : p.requests e = some (i, ch, ops)) : p.requested e =
    Function.update p.registry.channel i (ops.foldl (fun c op => called op c) ch) := by
  simp [requested, h]

/-- Calls change neither a descriptor nor an address. -/
theorem requested_place (p : Process) (e : ServerEvent) (i : Source) :
    (p.requested e i).fd = (p.registry.channel i).fd ∧
      (p.requested e i).self = (p.registry.channel i).self := by
  unfold requested
  cases hr : p.requests e with
  | none => exact ⟨rfl, rfl⟩
  | some q =>
    obtain ⟨j, ch, ops⟩ := q
    have hplace : ch.fd = (p.registry.channel j).fd ∧ ch.self = (p.registry.channel j).self := by
      cases requests_cases hr with
      | stop _ | destroyed => exact ⟨rfl, rfl⟩
      | @act _ _ a _ => exact ⟨a.prepare_fd _, a.prepare_self _⟩
    by_cases hi : i = j
    · subst hi
      simpa using hplace
    · simp [hi]

/-- The channel of a connection ends as the server has it. -/
theorem Inv.requested_conn (hi : Inv p) (hs : Stepped p.server e s') (hc : c < p.server.accepted) :
    p.requested e (.conn c) = (s'.conns c).channel := by
  have hch := hi.channel c hc
  cases ha : p.server.acts e with
  | some q =>
    obtain ⟨d, a⟩ := q
    rw [requested_of_requests (requests_of_acts ha)]
    by_cases hd : c = d
    · subst hd
      rw [Function.update_self, hs.conns_of_acts ha, hch]
      exact a.channel_eq _
    · have hne : Source.conn c ≠ .conn d := by simpa using hd
      rw [Function.update_of_ne hne, hch, hs.conns]
      cases e with
      | accept => cases ha
      | _ => simp [Server.nextConns, ha, Function.update_of_ne hd]
  | none =>
    have hconn : s'.conns c = p.server.conns c := by
      rw [hs.conns]
      cases e with
      | accept => simp [Server.nextConns, Function.update_of_ne hc.ne]
      | _ => simp [Server.nextConns, ha]
    have hreq : p.requested e (.conn c) = p.registry.channel (.conn c) := by
      unfold requested
      cases hr : p.requests e with
      | none => rfl
      | some q =>
        obtain ⟨j, ch, ops⟩ := q
        cases requests_cases hr with
        | stop _ | destroyed => simp
        | act ha' => simp [ha] at ha'
    rw [hreq, hconn, hch]

/-- The wakeup channel of a loop that goes on is left alone. -/
theorem requested_wakeup (hs : Stepped p.server e s') (hr : (s'.loops l).running = true) :
    p.requested e (.wakeup l) = p.registry.channel (.wakeup l) := by
  unfold requested
  cases hq : p.requests e with
  | none => rfl
  | some q =>
    obtain ⟨j, ch, ops⟩ := q
    cases requests_cases hq with
    | stop m =>
      have hne : l ≠ m := by
        rintro rfl
        rw [hs.loop, Server.moved_eq] at hr
        simp [Server.mover, Server.move] at hr
      simp [hne]
    | destroyed | act _ => simp

/-! ### A step -/

theorem step_server_cases (h : p.step (.server e) = some p') : p.admits e = true ∧
    p.server.step e = some p'.server ∧ ∃ r, p.request e = some r ∧
      p'.registry = p.opened e (joined e (r.close (p.closing p'.server))) := by
  unfold step at h
  simp only [Option.ite_none_right_eq_some, Option.bind_eq_some_iff, Option.map_eq_some_iff] at h
  obtain ⟨ha, s, hs, r, hr, rfl⟩ := h
  exact ⟨ha, hs, r, hr, rfl⟩

theorem step_listen_cases (h : p.step .listen = some p') :
    p.server.life = .alive ∧ (p.registry.channel .acceptor).state = .initialized ∧
      p'.server = p.server ∧
      p.registry.call 0 .acceptor .enableReadEvent = some p'.registry := by
  unfold step at h
  simp only [Option.ite_none_right_eq_some, Bool.and_eq_true, decide_eq_true_eq,
    Option.map_eq_some_iff] at h
  obtain ⟨⟨⟨-, hl⟩, hi⟩, r, hr, rfl⟩ := h
  exact ⟨hl, hi, rfl, hr⟩

/-- The descriptors that a step closes are those of the channels that go. -/
theorem mem_closing {fd : ℕ} : fd ∈ p.closing s' ↔
    ∃ i ∈ live p.server, i ∉ live s' ∧ (p.registry.channel i).fd = fd := by
  simp only [closing, List.mem_map, List.mem_filter, Bool.and_eq_true, Bool.not_eq_true']
  constructor
  · rintro ⟨i, ⟨-, ho, hc⟩, hfd⟩
    exact ⟨i, ho, by simp [live, hc], hfd⟩
  · rintro ⟨i, ho, hc, hfd⟩
    exact ⟨i, ⟨Server.mem_sources ho, ho, by simpa [live] using hc⟩, hfd⟩

theorem fresh_fd {self fd : ℕ} (h : p.fresh self fd = true) (hi : i ∈ live p.server) :
    (p.registry.channel i).fd ≠ fd ∧ (p.registry.channel i).self ≠ self := by
  have ho : p.server.isOpen i = true := hi
  have := List.all_eq_true.1 h i (Server.mem_sources ho)
  simpa [ho] using this

/-- After the calls and the closes of a step the pollers record what is left. -/
theorem Inv.closed (hi : Inv p) (hs : Stepped p.server e s') (ht : p.server.Safe e)
    {r : Registry Source} (hr : p.request e = some r) :
    r.channel = p.requested e ∧
      Watched (served p.server ∩ live s') s'.home (r.close (p.closing s')) := by
  obtain ⟨-, r', hr', hw, -, hc⟩ := hi.request hs ht
  obtain rfl : r' = r := by simpa [hr] using hr'.symm
  refine ⟨hc, ?_⟩
  have hfd (i : Source) : (r'.channel i).fd = (p.registry.channel i).fd := by
    rw [hc, (requested_place p e i).1]
  refine (hw.close Set.inter_subset_left ?_ ?_).rehome fun i hmem => hs.home_eq hmem.1.1
  · intro i hmem hcl
    obtain ⟨j, hj, hj', heq⟩ := mem_closing.1 hcl
    exact hj' (hi.distinct hj hmem.1.1 (heq.trans (hfd i)) ▸ hmem.2)
  · intro i hmem hmem'
    exact mem_closing.2 ⟨i, hmem.1, fun hopen => hmem' ⟨hmem, hopen⟩, (hfd i).symm⟩

/-- A channel that stays is served on unless its loop is joined. -/
theorem mem_served_step (hs : Stepped p.server e s') (hi : i ∈ live p.server) :
    i ∈ served s' ↔ i ∈ served p.server ∩ live s' ∧ e ≠ .stop (s'.home i) := by
  rw [hs.home_eq hi]
  constructor
  · rintro ⟨hi', hr⟩
    rw [hs.home_eq hi, hs.running_iff] at hr
    exact ⟨⟨⟨hi, hr.1⟩, hi'⟩, hr.2⟩
  · rintro ⟨⟨⟨-, hr⟩, hi'⟩, hne⟩
    refine ⟨hi', ?_⟩
    rw [hs.home_eq hi, hs.running_iff]
    exact ⟨hr, hne⟩

theorem served_step (hs : Stepped p.server e s') (ho : Server.Owned p.server)
    (hn : ∀ self fd, e ≠ .accept self fd) (hn' : ∀ l, e ≠ .stop l) :
    served p.server ∩ live s' = served s' := by
  ext i
  constructor
  · intro hi
    exact (mem_served_step hs hi.1.1).2 ⟨hi, hn' _⟩
  · intro hi
    rcases hs.isOpen_cases ho hi.1 with h | ⟨self, fd, he, -⟩
    · exact ((mem_served_step hs h).1 hi).1
    · exact absurd he (hn self fd)

theorem served_stop (hs : Stepped p.server (.stop l) s') (ho : Server.Owned p.server) :
    {i ∈ served p.server ∩ live s' | s'.home i ≠ l} = served s' := by
  ext i
  constructor
  · rintro ⟨hi, hne⟩
    exact (mem_served_step hs hi.1.1).2 ⟨hi, by simpa using Ne.symm hne⟩
  · intro hi
    rcases hs.isOpen_cases ho hi.1 with h | ⟨_, _, he, -⟩
    · obtain ⟨hi', hne⟩ := (mem_served_step hs h).1 hi
      exact ⟨hi', fun he => hne (congrArg _ he.symm)⟩
    · cases he

theorem served_accept {self fd : ℕ} (hs : Stepped p.server (.accept self fd) s')
    (ho : Server.Owned p.server) : Source.conn p.server.accepted ∉ served p.server ∩ live s' ∧
      insert (Source.conn p.server.accepted) (served p.server ∩ live s') = served s' := by
  have halive : p.server.life = .alive := by
    cases hs.ready with
    | accept _ _ ha => exact ha
  constructor
  · rintro ⟨⟨h, -⟩, -⟩
    exact absurd (isOpen_conn.1 h).1 (lt_irrefl _)
  · ext i
    constructor
    · rintro (rfl | hi)
      · exact ⟨hs.isOpen_accept, hs.running_iff.2 ⟨ho.alive halive _, by simp⟩⟩
      · exact (mem_served_step hs hi.1.1).2 ⟨hi, by simp⟩
    · intro hi
      rcases hs.isOpen_cases ho hi.1 with h | ⟨_, _, -, rfl⟩
      · exact .inr ((mem_served_step hs h).1 hi).1
      · exact .inl rfl

/-- A channel that comes has a descriptor of its own. -/
theorem fresh_requested {self fd : ℕ} (ha : p.admits (.accept self fd) = true)
    (hi : i ∈ live p.server) : (p.requested (.accept self fd) i).fd ≠ fd := by
  simp only [admits, Bool.and_eq_true] at ha
  rw [(requested_place p _ i).1]
  exact (fresh_fd ha.2 hi).1

theorem Inv.watched_step (hi : Inv p) (hs : Stepped p.server e s') (ht : p.server.Safe e)
    (ha : p.admits e = true) {r : Registry Source} (hr : p.request e = some r) :
    Watched (served s') s'.home (p.opened e (joined e (r.close (p.closing s')))) := by
  obtain ⟨hc, hw⟩ := hi.closed hs ht hr
  cases e with
  | accept self fd =>
    obtain ⟨hnew, heq⟩ := served_accept hs hi.owned
    rw [← heq]
    refine hw.enter hnew (fun _ _ => rfl) rfl fun j hj => ?_
    exact hc ▸ fresh_requested ha hj.1.1
  | stop l =>
    rw [← served_stop hs hi.owned]
    exact hw.release l
  | _ =>
    rw [← served_step hs hi.owned (by simp) (by simp)]
    exact hw

theorem Inv.mapped_opened (hi : Inv p) (hs : Stepped p.server e s') (ha : p.admits e = true)
    (hn : ∀ l, e ≠ .stop l) {r : Registry Source} (hc : r.channel = p.requested e)
    (hm : Mapped (served p.server ∩ live s') s'.home r) :
    Mapped (served s') s'.home (p.opened e (joined e r)) := by
  cases e with
  | accept self fd =>
    obtain ⟨hnew, heq⟩ := served_accept hs hi.owned
    rw [← heq]
    refine hm.enter hnew (fun _ _ => rfl) rfl fun j hj => ?_
    exact hc ▸ fresh_requested ha hj.1.1
  | stop l => exact absurd rfl (hn l)
  | _ =>
    rw [← served_step hs hi.owned (by simp) (by simp)]
    exact hm

@[simp] theorem joined_channel (e : ServerEvent) (r : Registry Source) :
    (joined e r).channel = r.channel := by
  cases e <;> rfl

theorem opened_channel (p : Process) (r : Registry Source) (hc : i ≠ .conn p.server.accepted) :
    (p.opened e r).channel i = r.channel i := by
  cases e with
  | accept self fd => simp [opened, Registry.set, hc]
  | _ => rfl

/-- A step of the server that acts on no connection that is gone can be taken by the
process. -/
theorem Inv.exists_step (hi : Inv p) (hs : p.server.step e = some s') (ha : p.admits e = true)
    (ht : p.server.Safe e) : ∃ p', p.step (.server e) = some p' ∧ p'.server = s' := by
  obtain ⟨-, r, hr, -⟩ := hi.request (Server.step_cases hs) ht
  exact ⟨⟨s', p.opened e (joined e (r.close (p.closing s')))⟩, by simp [step, ha, hs, hr], rfl⟩

/-- The channels after a step are those after its calls, and the one that comes. -/
theorem Inv.channel_step (hi : Inv p) (h : p.step (.server e) = some p') (ht : p.server.Safe e)
    (hc : i ≠ .conn p.server.accepted) : p'.registry.channel i = p.requested e i := by
  obtain ⟨-, hst, r, hr, hreg⟩ := step_server_cases h
  have hch : r.channel = p.requested e := (hi.closed (Server.step_cases hst) ht hr).1
  rw [hreg, opened_channel p _ hc, joined_channel, ← hch]
  rfl

theorem ne_accepted_of_live (hi : i ∈ live p.server) : i ≠ .conn p.server.accepted := by
  rintro rfl
  exact absurd (isOpen_conn.1 hi).1 (lt_irrefl _)

/-- What tells the open channels apart, and no call changes, tells them apart after a step,
if it tells the channel that comes from the others. -/
theorem Inv.injOn_step (hi : Inv p) (h : p.step (.server e) = some p') (ht : p.server.Safe e)
    (g : Channel → ℕ) (hg : Set.InjOn (fun i => g (p.registry.channel i)) (live p.server))
    (hold : ∀ i, g (p.requested e i) = g (p.registry.channel i))
    (hnew : ∀ self fd, e = .accept self fd →
      ∀ j ∈ live p.server, g (p.registry.channel j) ≠ g (.new self fd)) :
    Set.InjOn (fun i => g (p'.registry.channel i)) (live p'.server) := by
  obtain ⟨-, hst, r, -, hreg⟩ := step_server_cases h
  have hs := Server.step_cases hst
  have old (i : Source) (hio : i ∈ live p.server) :
      g (p'.registry.channel i) = g (p.registry.channel i) := by
    rw [hi.channel_step h ht (ne_accepted_of_live hio), hold]
  have fresh (self fd : ℕ) (he : e = .accept self fd) (j : Source) (hj : j ∈ live p.server) :
      g (p'.registry.channel j) ≠ g (p'.registry.channel (.conn p.server.accepted)) := by
    rw [old j hj, hreg]
    subst he
    simpa [opened, Registry.set] using hnew self fd rfl j hj
  intro i hio j hjo hij
  rcases hs.isOpen_cases hi.owned hio with hi' | ⟨self, fd, he, rfl⟩
  · rcases hs.isOpen_cases hi.owned hjo with hj' | ⟨self, fd, he, rfl⟩
    · exact hg hi' hj' (by simpa [old i hi', old j hj'] using hij)
    · exact absurd hij (fresh self fd he i hi')
  · rcases hs.isOpen_cases hi.owned hjo with hj' | ⟨_, _, -, rfl⟩
    · exact absurd hij.symm (fresh self fd he j hj')
    · rfl

/-- No two open channels have one descriptor after a step either. -/
theorem Inv.distinct_step (hi : Inv p) (h : p.step (.server e) = some p') (ht : p.server.Safe e) :
    Set.InjOn (fun i => (p'.registry.channel i).fd) (live p'.server) := by
  refine hi.injOn_step h ht Channel.fd hi.distinct (fun i => (requested_place p e i).1) ?_
  rintro self fd rfl j hj
  obtain ⟨ha, -⟩ := step_server_cases h
  simp only [admits, Bool.and_eq_true] at ha
  exact (fresh_fd ha.2 hj).1

theorem step_server_inv (hi : Inv p) (h : p.step (.server e) = some p') (ht : p.server.Safe e) :
    Inv p' := by
  obtain ⟨ha, hst, r, hr, hreg⟩ := step_server_cases h
  have hs := Server.step_cases hst
  refine ⟨Server.step_owned hi.owned hst, ?_, ?_, hi.distinct_step h ht, ?_⟩
  · intro c hc
    by_cases hlt : c < p.server.accepted
    · rw [hi.channel_step h ht (by simpa using hlt.ne), hi.requested_conn hs hlt]
    · rw [hs.accepted] at hc
      cases e with
      | accept self fd =>
        obtain rfl : c = p.server.accepted := by
          have hc : c < p.server.accepted + 1 := hc
          omega
        rw [hreg, hs.conns_accept]
        simp [opened, Registry.set, Connection.new]
      | _ => exact absurd hc hlt
  · intro l hl hrun
    rw [hi.channel_step h ht (by simp), requested_wakeup hs hrun]
    exact hi.wakeup l (hs.threads ▸ hl) (hs.running_of_running hrun)
  · rw [hreg]
    exact hi.watched_step hs ht ha hr

theorem Inv.listen_eq (hi : Inv p) (hl : p.server.life = .alive) :
    p.registry.call 0 .acceptor .enableReadEvent =
      some (p.registry.after 0 .acceptor .enableReadEvent) :=
  hi.watched.call_eq (hi.acceptor_served (by simp [hl])) _

theorem step_listen_inv (hi : Inv p) (h : p.step .listen = some p') : Inv p' := by
  obtain ⟨hl, -, hserver, hr⟩ := step_listen_cases h
  rw [hi.listen_eq hl, Option.some.injEq] at hr
  refine ⟨hserver ▸ hi.owned, ?_, ?_, ?_, ?_⟩
  · rw [hserver, ← hr]
    simpa [Registry.after] using hi.channel
  · rw [hserver, ← hr]
    simpa [Registry.after] using hi.wakeup
  · rw [hserver, ← hr, Registry.after_field Channel.fd, ChannelSet.called_fd,
      Function.update_eq_self]
    exact hi.distinct
  · rw [hserver, ← hr]
    exact hi.watched.after (hi.acceptor_served (by simp [hl])) _

theorem step_inv {ev : ProcessEvent} (hi : Inv p) (h : p.step ev = some p')
    (ht : p.Safe ev) : Inv p' := by
  cases ev with
  | server e => exact step_server_inv hi h ht
  | listen => exact step_listen_inv hi h

/-! ### The start -/

theorem start_eq (self fd : ℕ) : EpollPoller.start self fd =
    ({ channels := Function.update (fun _ => none) fd (some self)
       kernel := Function.update (fun _ => none) fd (some (kReadable, self)) },
      { Channel.new self fd with events := kReadable, state := .added }) := by
  simp [EpollPoller.start, Channel.enableReadEvent, EpollPoller.updateChannel, Channel.new,
    EpollPoller.update, EpollPoller.epollCtl, EpollPoller.empty, EpollPoller.register, kNoneEvent]

theorem init_live (k : Layout) (listenAddr : InetAddress) (name : List Char) (threads : ℕ) :
    i ∈ live (Process.init k (.init listenAddr name threads)).server ↔
      i = .acceptor ∨ ∃ l ≤ threads, i = .wakeup l := by
  cases i with
  | wakeup l => simp [live, Process.init, Server.init, LoopThread.start]
  | acceptor => simp [live, Process.init, Server.init]
  | conn c => simp [live, Process.init, Server.init]

theorem init_served (k : Layout) (listenAddr : InetAddress) (name : List Char) (threads : ℕ) :
    i ∈ served (Process.init k (.init listenAddr name threads)).server ↔
      i = .acceptor ∨ ∃ l ≤ threads, i = .wakeup l :=
  (and_iff_left rfl).trans (init_live k listenAddr name threads)

theorem init_fd (k : Layout) (s : Server) (i : Source) :
    ((Process.init k s).registry.channel i).fd = k.fd i := by
  cases i <;> simp [Process.init, start_eq, Channel.new]

theorem init_distinct (k : Layout) (s : Server) :
    Function.Injective fun i => ((Process.init k s).registry.channel i).fd := by
  intro i j hij
  exact k.fd_injective (by simpa [init_fd] using hij)

/-- At the start the pollers have the wakeup channels of their loops. -/
theorem init_holds (k : Layout) (listenAddr : InetAddress) (name : List Char) (threads : ℕ)
    {α : Type*} (g : Channel → Option α) {table : ℕ × ℕ → Option α}
    (hw : ∀ l fd, table (l, fd) = if l ≤ threads ∧ fd = k.fd (.wakeup l) then
      g ((Process.init k (.init listenAddr name threads)).registry.channel (.wakeup l)) else none)
    (ha : g (.new (k.self .acceptor) (k.fd .acceptor)) = none) :
    let p := Process.init k (.init listenAddr name threads)
    Slots.Holds (served p.server) (p.registry.key p.server.home) (fun i => g (p.registry.channel i))
      table := by
  constructor
  · intro i hi
    simp only [Registry.key, init_fd]
    rcases (init_served k listenAddr name threads).1 hi with rfl | ⟨l, hl, rfl⟩
    · have hne : k.fd .acceptor ≠ k.fd (.wakeup 0) := fun h => by cases k.fd_injective h
      rw [hw, if_neg fun h => hne h.2]
      exact ha.symm
    · rw [hw, if_pos ⟨hl, rfl⟩]
      rfl
  · rintro ⟨l, fd⟩ hv
    rw [hw, if_neg]
    rintro ⟨hl, rfl⟩
    refine hv (.wakeup l) ((init_served ..).2 (.inr ⟨l, hl, rfl⟩)) ?_
    simp only [Registry.key, init_fd]
    rfl

theorem init_watched (k : Layout) (listenAddr : InetAddress) (name : List Char) (threads : ℕ) :
    let p := Process.init k (.init listenAddr name threads)
    Watched (served p.server) p.server.home p.registry := by
  refine ⟨(init_distinct k _).injOn,
    init_holds k listenAddr name threads Channel.entry (fun l fd => ?_) rfl⟩
  by_cases hl : l ≤ threads
  · by_cases hfd : fd = k.fd (.wakeup l)
    · simp [Registry.kernel, Process.init, Server.init, start_eq, Channel.entry, hl, hfd,
        Channel.new]
    · simp [Registry.kernel, Process.init, Server.init, start_eq, hl, hfd]
  · simp [Registry.kernel, Process.init, Server.init, hl, EpollPoller.empty]

theorem init_mapped (k : Layout) (listenAddr : InetAddress) (name : List Char) (threads : ℕ) :
    let p := Process.init k (.init listenAddr name threads)
    Mapped (served p.server) p.server.home p.registry := by
  refine init_holds k listenAddr name threads Channel.address (fun l fd => ?_) rfl
  by_cases hl : l ≤ threads
  · by_cases hfd : fd = k.fd (.wakeup l)
    · simp [Registry.channels, Process.init, Server.init, start_eq, Channel.address, hl, hfd,
        Channel.new]
    · simp [Registry.channels, Process.init, Server.init, start_eq, hl, hfd]
  · simp [Registry.channels, Process.init, Server.init, hl, EpollPoller.empty]

theorem init_inv (k : Layout) (listenAddr : InetAddress) (name : List Char) (threads : ℕ) :
    Inv (.init k (.init listenAddr name threads)) where
  owned := Server.init_owned listenAddr name threads
  channel := by simp [Process.init, Server.init]
  wakeup := fun l _ _ => by simp [Process.init, start_eq]
  distinct := (init_distinct k _).injOn
  watched := init_watched k listenAddr name threads

end Process
end Armsy
