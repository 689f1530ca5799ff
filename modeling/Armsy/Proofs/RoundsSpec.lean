import Armsy.Model.Rounds
import Armsy.Proofs.DescriptorReuse

/-! What the steps between a poll and the end of its `for` leave alone: a channel that the
kernel watches stays watched, open and where it is, unless its own event is dispatched or its
loop runs functors. -/

namespace Armsy

theorem Connection.request_state {m : Mask} (hm : m ≠ kNoneEvent) (ch : Channel) :
    (request m ch).state = .added := by
  have hs : ({ ch with events := m } : Channel).isSilent = false := by
    simpa [Channel.isSilent] using hm
  simp [request, Channel.updated, hs]

/-- An act that neither closes nor tears down leaves a watched channel watched. -/
theorem Connection.act_added {k : Connection} {a : Act} (ha : k.channel.state = .added)
    (hc : a ≠ .handleClose) (hd : a ≠ .drained) (ht : ∀ l, a ≠ .connDestory l) :
    (k.act a).channel.state = .added := by
  cases a with
  | connEstablish => exact request_state (by simp [kReadable, EPOLLIN, EPOLLPRI, kNoneEvent]) _
  | sendInLoop w =>
    simp only [act]
    split_ifs
    · exact request_state (by simp [kWritable, EPOLLOUT, kNoneEvent]) _
    · exact ha
  | setDisconnecting => exact ha
  | handleClose => exact absurd rfl hc
  | drained => exact absurd rfl hd
  | connDestory l => exact absurd rfl (ht l)

namespace Process

open Server (Stepped Acting isOpen_wakeup isOpen_acceptor isOpen_conn)

variable {listenAddr : InetAddress} {name : List Char} {p p' : Process} {e : ServerEvent}
  {c l : ℕ} {i : Source}

/-- The kernel watches only channels that are open. -/
theorem Exact.live_of_added (hx : Exact listenAddr name p) (hc : c < p.server.accepted)
    (ha : (p.server.conns c).channel.state = .added) : Source.conn c ∈ live p.server := by
  have hn : (p.server.conns c).tornDownOn = none := by
    by_contra hne
    simp [hx.torn c hc hne] at ha
  exact isOpen_conn.2 ⟨hc, Ownership.refCount_pos_of_kept hx.server hc (hx.server.kept c hc hn)⟩

/-- Neither a functor of its loop nor its own dispatch is at work on a connection. -/
structure Undisturbed (s : Server) (c : ℕ) : Prop where
  batch : (s.loops (s.conns c).loop).queue.batch = []
  dispatching : ∀ g, (s.loops (s.conns c).loop).dispatching ≠ some (c, g)

theorem conn_added_step {s s' : Server} (hi : Ownership.Inv listenAddr name s)
    (h : Stepped s e s') (hc : c < s.accepted) (ha : (s.conns c).channel.state = .added)
    (hq : Undisturbed s c) : (s'.conns c).channel.state = .added := by
  rcases h.conns_cases c with hs | ⟨self, fd, -, rfl, -⟩ | ⟨a, hact, hs⟩
  · rwa [hs]
  · exact absurd hc (lt_irrefl _)
  · rw [hs]
    refine Connection.act_added ha ?_ ?_ ?_
    · rintro rfl
      cases hact with
      | handleClose hd => exact hq.dispatching _ ((hi.dispatching _ _ hd).loop ▸ hd)
    · rintro rfl
      cases hact with
      | drained hd => exact hq.dispatching _ ((hi.dispatching _ _ hd).loop ▸ hd)
    · rintro l rfl
      cases hact with
      | runDestory hb =>
        have hl : l = (s.conns c).loop := (Ownership.queued_of_batch hi hb).home
        rw [hl, hq.batch] at hb
        cases hb
      | destroyNext _ => exact Ownership.not_destroyNext hi h

/-- What a step leaves of a channel: its address, its loop and that the kernel watches it. -/
structure Stays (p p' : Process) (i : Source) : Prop where
  live : i ∈ live p'.server
  home : p'.server.home i = p.server.home i
  self : (p'.registry.channel i).self = (p.registry.channel i).self
  added : (p'.registry.channel i).state = .added

theorem Exact.stays_listen (hx : Exact listenAddr name p) (h : p.step .listen = some p')
    (hi : i ∈ live p.server) (ha : (p.registry.channel i).state = .added) : Stays p p' i := by
  obtain ⟨hl, hinit, hserver, hr⟩ := step_listen_cases h
  rw [hx.inv.listen_eq hl, Option.some.injEq] at hr
  have hne : i ≠ .acceptor := by
    rintro rfl
    simp [hinit] at ha
  have hch : p'.registry.channel i = p.registry.channel i := by
    rw [← hr]
    simp [Registry.after, hne]
  exact ⟨hserver ▸ hi, hserver ▸ rfl, by rw [hch], by rw [hch, ha]⟩

theorem Exact.stays_server (hx : Exact listenAddr name p) (h : p.step (.server e) = some p')
    (ho : Ownership.ordinary e = true) (hi : i ∈ live p.server)
    (ha : (p.registry.channel i).state = .added)
    (hq : ∀ c, i = .conn c → Undisturbed p.server c) : Stays p p' i := by
  obtain ⟨-, hst, -⟩ := step_server_cases h
  have hs := Server.step_cases hst
  have hx' : Exact listenAddr name p' := by
    apply hx.step h
    exact ho
  have hch := hx.inv.channel_step h (safe_of_ordinary hx.server hs) (ne_accepted_of_live hi)
  have hself : (p'.registry.channel i).self = (p.registry.channel i).self := by
    rw [hch, (requested_place p e i).2]
  cases i with
  | wakeup l =>
    have hl := (isOpen_wakeup.1 hi).1
    have hrun := hx'.server.running l
    refine ⟨isOpen_wakeup.2 ⟨hs.threads ▸ hl, hrun⟩, rfl, hself, ?_⟩
    exact hx'.inv.wakeup l (hs.threads ▸ hl) hrun
  | acceptor =>
    refine ⟨isOpen_acceptor.2 (by simp [hx'.server.alive]), rfl, hself, ?_⟩
    rw [hch, ← ha]
    unfold requested
    cases hq : p.requests e with
    | none => rfl
    | some q =>
      obtain ⟨j, ch, ops⟩ := q
      cases requests_cases hq with
      | stop | act _ => simp
      | destroyed =>
        have hd := hx'.server.alive
        rw [hs.life] at hd
        cases hd
  | conn c =>
    have hlt := (isOpen_conn.1 hi).1
    have hlt' : c < p'.server.accepted := hlt.trans_le hs.accepted_le
    rw [hx.inv.channel c hlt] at ha
    have hadded := conn_added_step hx.server hs hlt ha (hq c rfl)
    refine ⟨hx'.live_of_added hlt' hadded, (hs.name_eq hlt).2, hself, ?_⟩
    rwa [hx'.inv.channel c hlt']

end Process
end Armsy
