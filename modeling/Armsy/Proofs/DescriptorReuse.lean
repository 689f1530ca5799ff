import Armsy.Proofs.Ownership
import Armsy.Proofs.ProcessSpec

/-! Descriptors are closed and given out again while the loops go on. The kernel's interest
sets follow the open channels through every run that acts on no connection that is gone, so
that no `epoll_ctl` exits the process; `channels_` does when, besides, `connDestory` is the
last that happens to a connection's channel. -/

namespace Armsy
namespace Process

open Server (Stepped Acting isOpen_wakeup isOpen_acceptor isOpen_conn)
open Registry (Watched Mapped)

variable {k : Layout} {listenAddr : InetAddress} {name : List Char} {threads : ℕ}
  {p p' : Process} {s s' : Server} {e : ServerEvent} {c : ℕ}
  {tr : List (Transition Process ProcessEvent)}

theorem inv_of_run (h : Run step (.init k (.init listenAddr name threads)) tr p)
    (ht : ∀ τ ∈ tr, τ.pre.Safe τ.event) : Inv p :=
  h.invariant_of (C := fun τ => τ.pre.Safe τ.event)
    (init_inv k listenAddr name threads) (fun _ _ _ hi hst ht => step_inv hi hst ht) ht

/-- Channels at even addresses from 10 on, descriptors from 3 on. -/
def sampleLayout : Layout where
  self := fun | .acceptor => 10 | .wakeup l => 4 * l + 12 | .conn c => 4 * c + 14
  fd := fun | .acceptor => 3 | .wakeup l => 2 * l + 4 | .conn c => 2 * c + 5
  fd_injective := by
    rintro (l | _ | c) (l' | _ | c') h <;> simp at h ⊢ <;> omega
  self_injective := by
    rintro (l | _ | c) (l' | _ | c') h <;> simp at h ⊢ <;> omega

/-- In a run that acts on no connection that is gone, the open channels have descriptors of
their own, and the kernel watches for a loop that has not been joined exactly those of its
channels that are registered, each with its own events and address. -/
theorem interest_exact (h : Run step (.init k (.init listenAddr name threads)) tr p)
    (ht : ∀ τ ∈ tr, τ.pre.Safe τ.event) :
    (∀ i j, p.server.isOpen i = true → p.server.isOpen j = true →
      (p.registry.channel i).fd = (p.registry.channel j).fd → i = j) ∧
    ∀ l fd m a, (p.registry.poller l).kernel fd = some (m, a) ↔
      (p.server.loops l).running = true ∧ ∃ i, p.server.isOpen i = true ∧ p.server.home i = l ∧
        (p.registry.channel i).fd = fd ∧ (p.registry.channel i).state = .added ∧
        (p.registry.channel i).events = m ∧ (p.registry.channel i).self = a := by
  have hi := inv_of_run h ht
  refine ⟨fun i j hio hjo hfd => hi.distinct hio hjo hfd, fun l fd m a => ?_⟩
  refine (hi.watched.kernel.eq_some_iff (k := (l, fd)) (a := (m, a))).trans ?_
  simp only [Registry.key, Prod.mk.injEq, Channel.entry, Option.ite_none_right_eq_some,
    Option.some.injEq]
  constructor
  · rintro ⟨i, ⟨hio, hr⟩, ⟨rfl, hfd⟩, hs, hm, ha⟩
    exact ⟨hr, i, hio, rfl, hfd, hs, hm, ha⟩
  · rintro ⟨hr, i, hio, rfl, hfd, hs, hm, ha⟩
    exact ⟨i, ⟨hio, hr⟩, ⟨rfl, hfd⟩, hs, hm, ha⟩

/-- A `send()` of another thread is queued before the close and runs after `connDestory`: it
registers the channel again, and the last pointer is dropped while it is registered. -/
def lateSend : List ServerEvent :=
  [.accept 1 7, .establish, .endAccept, .swap 1, .runFunctor 1 false, .dropFunctor 1,
    .dispatch 1 0, .copy 0, .send 0, .handleClose 1, .removeConnection 1, .endClose 1,
    .endDispatch 1, .swap 0, .runFunctor 0 false, .erase, .pushDestory, .dropFunctor 0, .swap 1,
    .runFunctor 1 false, .dropFunctor 1, .enqueue 0, .swap 1, .runFunctor 1 true, .dropFunctor 1,
    .drop 0]

/-- The kernel has forgotten the descriptor then, and `channels_` has not. -/
theorem interest_exact_late_send : ∃ tr p,
    Run step (.init sampleLayout (.sample 1)) tr p ∧
    tr.map Transition.event = .listen :: lateSend.map .server ∧
    (p.server.isOpen (.conn 0) = false ∧ (p.registry.poller 1).channels 7 = some 1) ∧
    (∀ i j, p.server.isOpen i = true → p.server.isOpen j = true →
      (p.registry.channel i).fd = (p.registry.channel j).fd → i = j) ∧
    ∀ l fd m a, (p.registry.poller l).kernel fd = some (m, a) ↔
      (p.server.loops l).running = true ∧ ∃ i, p.server.isOpen i = true ∧ p.server.home i = l ∧
        (p.registry.channel i).fd = fd ∧ (p.registry.channel i).state = .added ∧
        (p.registry.channel i).events = m ∧ (p.registry.channel i).self = a := by
  obtain ⟨tr, p, hr, he, ht, hp⟩ := exists_run step (.init sampleLayout (.sample 1))
    (.listen :: lateSend.map .server)
    (P := fun tr p => (∀ τ ∈ tr, τ.pre.Safe τ.event) ∧
      (p.server.isOpen (.conn 0) = false ∧ (p.registry.poller 1).channels 7 = some 1))
    (by decide +kernel)
  exact ⟨tr, p, hr, he, hp, interest_exact hr ht⟩

/-- Such a run never exits: where the server can take a step no `epoll_ctl` of it fails, the
process takes the step, and the channel of every connection is then as the server has it.
`listen` registers the acceptor as well. -/
theorem step_eq_server (h : Run step (.init k (.init listenAddr name threads)) tr p)
    (ht : ∀ τ ∈ tr, τ.pre.Safe τ.event) :
    (∀ e, p.admits e = true → p.server.Safe e →
      (p.server.step e ≠ none → p.Succeeds (.server e)) ∧
      (p.step (.server e)).map server = p.server.step e ∧
      ∀ p', p.step (.server e) = some p' → ∀ c < p'.server.accepted,
        p'.registry.channel (.conn c) = (p'.server.conns c).channel) ∧
    (p.server.life = .alive → p.Succeeds .listen ∧
      (p.server.free 0 = true → (p.registry.channel .acceptor).state = .initialized →
        (p.step .listen).map server = some p.server)) := by
  have hi := inv_of_run h ht
  refine ⟨fun e ha hsafe => ⟨fun hne => ?_, ?_, ?_⟩, fun hl => ⟨?_, fun hfree hinit => ?_⟩⟩
  · obtain ⟨s', hs⟩ := Option.ne_none_iff_exists'.1 hne
    exact (hi.request (Server.step_cases hs) hsafe).1
  · cases hs : p.server.step e with
    | none => simp [step, hs]
    | some s' =>
      obtain ⟨p', hp', rfl⟩ := hi.exists_step hs ha hsafe
      simp [hp']
  · intro p' hp' c hc
    exact (step_server_inv hi hp' hsafe).channel c hc
  · exact (hi.watched.calls (hi.acceptor_served (by simp [hl])) [.enableReadEvent]).1
  · simp [step, hl, hfree, hinit, hi.listen_eq hl]

/-- The close of a registered connection takes it out of the interest set. -/
theorem step_eq_server_close : ∃ tr p,
    Run step (.init sampleLayout (.sample 1)) tr p ∧
    tr.map Transition.event = .listen :: (lateSend.take 9).map .server ∧
    (p.registry.poller 1).kernel 7 = some (kReadable, 1) ∧
    p.Succeeds (.server (.handleClose 1)) ∧
    (p.step (.server (.handleClose 1))).map server = p.server.step (.handleClose 1) ∧
    ((p.step (.server (.handleClose 1))).map fun p' => (p'.registry.poller 1).kernel 7) =
      some none := by
  obtain ⟨tr, p, hr, he, ht, hk, ha, hsafe, hs, hgone⟩ := exists_run step
    (.init sampleLayout (.sample 1)) (.listen :: (lateSend.take 9).map .server)
    (P := fun tr p => (∀ τ ∈ tr, τ.pre.Safe τ.event) ∧
      (p.registry.poller 1).kernel 7 = some (kReadable, 1) ∧ p.admits (.handleClose 1) = true ∧
      p.server.Safe (.handleClose 1) ∧ (p.server.step (.handleClose 1)).isSome = true ∧
      ((p.step (.server (.handleClose 1))).map fun p' => (p'.registry.poller 1).kernel 7) =
        some none) (by decide +kernel)
  have hnext := (step_eq_server hr ht).1 _ ha hsafe
  exact ⟨tr, p, hr, he, hk, hnext.1 (Option.isSome_iff_ne_none.1 hs), hnext.2.1, hgone⟩

/-! ### While the server lives -/

def ordinary : ProcessEvent → Bool
  | .server e => Ownership.ordinary e
  | .listen => true

/-- What a step acts on has an owner. -/
theorem safe_of_ordinary (hi : Ownership.Inv listenAddr name s) (h : Stepped s e s') :
    s.Safe e := by
  rintro ⟨c, a⟩ ha
  have hready := h.ready
  have of_batch {l : ℕ} {f : Task} {fs : List Task} (hl : s.free l = true)
      (hb : (s.loops l).queue.batch = f :: fs) (ho : f.owns = some c) : 0 < s.refCount c :=
    Server.refCount_pos_of_task (Server.le_of_free hl)
      (.inl (by simp [BatchQueue.waiting, hb])) ho
  cases Server.acts_cases ha with
  | establish hf _ =>
    exact Server.refCount_pos_of_frame (Nat.zero_le _) (by simp [hf, Frame.refs])
  | handleClose hd =>
    cases hready with
    | handleClose _ hd' hpos =>
      rw [hd, Option.some.injEq, Prod.mk.injEq] at hd'
      exact hd'.1 ▸ hpos
  | runEstablish hb | runDestory hb =>
    cases hready with
    | runFunctor hl => exact of_batch hl hb rfl
  | runSend hb => exact absurd rfl (Ownership.queued_of_batch hi hb).quiet
  | sendNow =>
    cases hready with
    | sendNow _ _ _ _ hpos => exact hpos
  | shutdownNow =>
    cases hready with
    | shutdownNow _ _ _ _ hpos => exact hpos
  | drained hd =>
    cases hready with
    | drained hin =>
      have hguard := (hi.dispatching _ _ hd).guard
      subst hguard
      exact Server.owner_iff.1 (.guard (Server.le_of_free (Server.of_inHandler hin).1) hd)
  | shutdownSet hu => exact Server.refCount_pos_of_user (List.mem_of_getElem? hu) rfl
  | destroyNext _ => exact absurd h (Ownership.not_destroyNext hi)

/-- Once `connDestory` has run on a connection, its channel is out of its poller. -/
theorem torn_step (hi : Ownership.Inv listenAddr name s) (h : Stepped s e s')
    (ht : ∀ c < s.accepted, (s.conns c).tornDownOn ≠ none →
      (s.conns c).channel.state = .initialized) :
    ∀ c < s'.accepted, (s'.conns c).tornDownOn ≠ none →
      (s'.conns c).channel.state = .initialized := by
  intro c hc hne
  rcases Ownership.lt_accepted_cases h hc with hc | ⟨⟨self, fd, rfl⟩, rfl⟩
  · rcases h.conns_cases c with hs | ⟨self, fd, -, rfl, -⟩ | ⟨a, ha, hs⟩
    · rw [hs] at hne ⊢
      exact ht c hc hne
    · exact absurd hc (lt_irrefl _)
    · have hfit := (Ownership.fits_of_acting hi h ha).2
      rw [hs] at hne ⊢
      cases a with
      | connDestory l =>
        simp only [Connection.act]
        split_ifs <;> rfl
      | setDisconnecting => exact ht c hc hne
      | connEstablish => exact absurd hfit hne
      | handleClose | drained => exact absurd hfit.1 hne
      | sendInLoop w =>
        refine absurd hfit.1 ?_
        simp only [Connection.act] at hne
        split_ifs at hne <;> exact hne
  · rw [h.conns_accept]
    rfl

/-- What holds besides while the server lives. -/
structure Exact (listenAddr : InetAddress) (name : List Char) (p : Process) : Prop where
  inv : Inv p
  server : Ownership.Inv listenAddr name p.server
  torn : ∀ c < p.server.accepted, (p.server.conns c).tornDownOn ≠ none →
    (p.server.conns c).channel.state = .initialized
  mapped : Mapped (served p.server) p.server.home p.registry

/-- No loop is joined while the server lives. -/
theorem Exact.served_eq (hx : Exact listenAddr name p) : served p.server = live p.server :=
  Set.inter_eq_left.2 fun _ _ => hx.server.running _

/-- A channel that goes in such a step has been removed from its poller. -/
theorem Exact.gone (hx : Exact listenAddr name p) (hst : p.server.step e = some s')
    (ho : Ownership.ordinary e = true) {i : Source} (hi : i ∈ live p.server)
    (hi' : i ∉ live s') : (p.requested e i).state = .initialized := by
  have hs := Server.step_cases hst
  have hserver := Ownership.step_inv hx.server hst ho
  cases i with
  | wakeup l =>
    obtain ⟨hl, -⟩ := isOpen_wakeup.1 hi
    exact absurd (isOpen_wakeup.2 ⟨hs.threads ▸ hl, hserver.running l⟩) hi'
  | acceptor => exact absurd (isOpen_acceptor.2 (by simp [hserver.alive])) hi'
  | conn c =>
    obtain ⟨hc, -⟩ := isOpen_conn.1 hi
    have hc' : c < s'.accepted := hc.trans_le hs.accepted_le
    rw [hx.inv.requested_conn hs hc]
    refine torn_step hx.server hs hx.torn c hc' fun hn => ?_
    have hpos := Ownership.refCount_pos_of_kept hserver hc' (hserver.kept c hc' hn)
    exact hi' (isOpen_conn.2 ⟨hc', hpos⟩)

theorem Exact.step (hx : Exact listenAddr name p) {ev : ProcessEvent}
    (h : p.step ev = some p') (ho : ordinary ev = true) : Exact listenAddr name p' := by
  cases ev with
  | listen =>
    obtain ⟨hl, -, hserver, hr⟩ := step_listen_cases h
    rw [hx.inv.listen_eq hl, Option.some.injEq] at hr
    refine ⟨step_listen_inv hx.inv h, hserver ▸ hx.server, hserver ▸ hx.torn, ?_⟩
    rw [hserver, ← hr]
    exact hx.mapped.after hx.inv.watched (hx.inv.acceptor_served (by simp [hl])) _
  | server e =>
    obtain ⟨ha, hst, r, hr, hreg⟩ := step_server_cases h
    have hs := Server.step_cases hst
    have ht : p.server.Safe e := safe_of_ordinary hx.server hs
    refine ⟨step_server_inv hx.inv h ht, Ownership.step_inv hx.server hst ho,
      torn_step hx.server hs hx.torn, ?_⟩
    obtain ⟨-, r', hr', -, hm, hc⟩ := hx.inv.request hs ht
    obtain rfl : r' = r := by simpa [hr] using hr'.symm
    have hclosed : Mapped (served p.server ∩ live p'.server) p'.server.home
        (r'.close (p.closing p'.server)) := by
      refine ((hm hx.mapped).close Set.inter_subset_left _ fun i hi hi' => ?_).rehome
        fun i hi => hs.home_eq hi.1.1
      rw [hc]
      exact hx.gone hst ho hi.1 fun hopen => hi' ⟨hi, hopen⟩
    rw [hreg]
    refine hx.inv.mapped_opened hs ha ?_ hc hclosed
    rintro l rfl
    exact Ownership.not_stop hx.server hs

theorem exact_of_run (h : Run Process.step (.init k (.init listenAddr name threads)) tr p)
    (ho : ∀ τ ∈ tr, ordinary τ.event = true) : Exact listenAddr name p :=
  h.invariant_of (C := fun τ => ordinary τ.event = true)
    ⟨init_inv k listenAddr name threads, Ownership.init_inv listenAddr name threads,
      by simp [Process.init, Server.init], init_mapped k listenAddr name threads⟩
    (fun _ _ _ hx hst ho => hx.step hst ho) ho

/-- While the server lives and no other thread sends, `channels_` of every loop has exactly
the open channels that are registered or silenced, and what neither table should have, it
does not have: a descriptor that is closed has been forgotten when it is given out again. -/
theorem tables_exact (h : Run Process.step (.init k (.init listenAddr name threads)) tr p)
    (ho : ∀ τ ∈ tr, ordinary τ.event = true) :
    (∀ l fd a, (p.registry.poller l).channels fd = some a ↔
      ∃ i, p.server.isOpen i = true ∧ p.server.home i = l ∧ (p.registry.channel i).fd = fd ∧
        (p.registry.channel i).state ≠ .initialized ∧ (p.registry.channel i).self = a) ∧
    (∀ fd, (∀ i, p.server.isOpen i = true → (p.registry.channel i).fd ≠ fd) → ∀ l,
      (p.registry.poller l).channels fd = none ∧ (p.registry.poller l).kernel fd = none) := by
  have hx := exact_of_run h ho
  refine ⟨fun l fd a => ?_, fun fd hfd l => ⟨?_, ?_⟩⟩
  · have hm := hx.mapped.eq_some_iff (k := (l, fd)) (a := a)
    rw [hx.served_eq] at hm
    simpa [Registry.channels, Registry.key, live, Channel.address, and_assoc] using hm
  · exact hx.mapped.vacant (l, fd) fun i hi he => hfd i hi.1 (Prod.ext_iff.1 he).2
  · exact hx.inv.watched.kernel.vacant (l, fd) fun i hi he => hfd i hi.1 (Prod.ext_iff.1 he).2

/-- A connection on descriptor 7 lives and goes, and the next one gets the descriptor. -/
def reuse : List ServerEvent :=
  Ownership.lifeCycle ++ [.accept 1 7, .establish, .endAccept, .swap 1, .runFunctor 1 false]

theorem tables_exact_reuse : ∃ tr p,
    Run Process.step (.init sampleLayout (.sample 1)) tr p ∧
    tr.map Transition.event = .listen :: reuse.map .server ∧
    (p.server.isOpen (.conn 0) = false ∧ (p.registry.channel (.conn 0)).fd = 7 ∧
      (p.registry.poller 1).kernel 7 = some (kReadable, 1)) ∧
    ∀ l fd a, (p.registry.poller l).channels fd = some a ↔
      ∃ i, p.server.isOpen i = true ∧ p.server.home i = l ∧ (p.registry.channel i).fd = fd ∧
        (p.registry.channel i).state ≠ .initialized ∧ (p.registry.channel i).self = a := by
  obtain ⟨tr, p, hr, he, ho, hp⟩ := exists_run Process.step (.init sampleLayout (.sample 1))
    (.listen :: reuse.map .server)
    (P := fun tr p => (∀ τ ∈ tr, ordinary τ.event = true) ∧
      (p.server.isOpen (.conn 0) = false ∧ (p.registry.channel (.conn 0)).fd = 7 ∧
        (p.registry.poller 1).kernel 7 = some (kReadable, 1))) (by decide +kernel)
  exact ⟨tr, p, hr, he, hp, (tables_exact hr ho).1⟩

end Process
end Armsy
