import Armsy.Proofs.RoundsSpec

/-! No pointer in `active_channels_` dangles. A poll copies the addresses of channels that
are open and registered, and nothing that runs before their turns come, handlers of other
channels, other threads, other loops, closes one of them or takes it from its poller. -/

namespace Armsy

open Server (Stepped isOpen_conn)
open Process (live Exact Stays Undisturbed)

/-- A queue that is not being worked on stays so until it is swapped. -/
theorem Server.Stepped.quiet {s s' : Server} {e : ServerEvent} {l : ℕ} (h : Stepped s e s')
    (hn : e ≠ .swap l) (hq : (s.loops l).queue.batch = [] ∧ (s.loops l).spent = []) :
    (s'.loops l).queue.batch = [] ∧ (s'.loops l).spent = [] := by
  rw [h.loop]
  rcases moved_cases s e l with hm | ⟨hmover, hm⟩
  · rw [hm]
    exact hq
  · generalize s.moved e l = t at hm
    cases hm with
    | swap m =>
      cases hmover
      exact absurd rfl hn
    | runFunctor _ _ _ hb => simp [hq.1] at hb
    | dropFunctor _ => exact ⟨hq.1, by simp [hq.2]⟩
    | _ => exact hq

namespace Process

variable {listenAddr : InetAddress} {name : List Char} {p p' : Process} {ev : ProcessEvent}
  {i : Source}

/-- A channel that is there already keeps its address. -/
theorem Exact.self_step (hx : Exact listenAddr name p) (h : p.step ev = some p')
    (hi : i ≠ .conn p.server.accepted) :
    (p'.registry.channel i).self = (p.registry.channel i).self := by
  cases ev with
  | listen =>
    obtain ⟨hl, -, -, hr⟩ := step_listen_cases h
    rw [hx.inv.listen_eq hl, Option.some.injEq] at hr
    rw [← hr]
    by_cases ha : i = .acceptor
    · subst ha
      simp [Registry.after]
    · simp [Registry.after, ha]
  | server e =>
    obtain ⟨-, hst, -⟩ := step_server_cases h
    have ht := safe_of_ordinary hx.server (Server.step_cases hst)
    rw [hx.inv.channel_step h ht hi, (requested_place p e i).2]

/-- No two open channels are at one address. -/
def Apart (p : Process) : Prop := Set.InjOn (fun i => (p.registry.channel i).self) (live p.server)

theorem apart_step (hx : Exact listenAddr name p) (hp : Apart p) (h : p.step ev = some p') :
    Apart p' := by
  cases ev with
  | listen =>
    obtain ⟨hl, -, hserver, hr⟩ := step_listen_cases h
    rw [hx.inv.listen_eq hl, Option.some.injEq] at hr
    unfold Apart
    rw [hserver, ← hr, Registry.after_field Channel.self, ChannelSet.called_self,
      Function.update_eq_self]
    exact hp
  | server e =>
    obtain ⟨ha, hst, -⟩ := step_server_cases h
    have ht := safe_of_ordinary hx.server (Server.step_cases hst)
    refine hx.inv.injOn_step h ht Channel.self hp (fun i => (requested_place p e i).2) ?_
    rintro self fd rfl j hj
    simp only [admits, Bool.and_eq_true] at ha
    exact (fresh_fd ha.2 hj).2

theorem init_apart (k : Layout) (listenAddr : InetAddress) (name : List Char) (threads : ℕ) :
    Apart (.init k (.init listenAddr name threads)) := by
  have hself (i : Source) :
      ((Process.init k (.init listenAddr name threads)).registry.channel i).self = k.self i := by
    cases i <;> simp [Process.init, start_eq, Channel.new]
  intro i _ j _ hij
  exact k.self_injective (by simpa [hself] using hij)

theorem Exact.stays (hx : Exact listenAddr name p) (h : p.step ev = some p')
    (ho : ordinary ev = true) (hi : i ∈ live p.server)
    (ha : (p.registry.channel i).state = .added)
    (hq : ∀ c, i = .conn c → Undisturbed p.server c) : Stays p p' i := by
  cases ev with
  | listen => exact hx.stays_listen h hi ha
  | server e => exact hx.stays_server h ho hi ha hq

end Process

namespace Rounds

variable {k : Layout} {listenAddr : InetAddress} {name : List Char} {threads : ℕ}
  {r r' : Rounds} {p' : Process} {ev : RoundEvent} {e : ProcessEvent} {l a c : ℕ} {as : List ℕ}
  {i : Source} {tr : List (Transition Rounds RoundEvent)}

/-- All that a step says. -/
structure Stepped (r : Rounds) (ev : RoundEvent) (r' : Rounds) : Prop where
  enabled : r.enabled ev = true
  phase : r'.phase = r.nextPhase ev
  size : r'.size = r.nextSize ev
  inner : (∃ e, r.inner ev = some e ∧ r.process.step e = some r'.process) ∨
    r.inner ev = none ∧ r'.process = r.process

theorem step_cases (h : r.step ev = some r') : Stepped r ev r' := by
  unfold step at h
  split_ifs at h with he
  split at h
  · rename_i e hin
    obtain ⟨p, hp, rfl⟩ := Option.map_eq_some_iff.1 h
    exact ⟨he, rfl, rfl, .inl ⟨e, hin, hp⟩⟩
  · rename_i hin
    cases h
    exact ⟨he, rfl, rfl, .inr ⟨hin, rfl⟩⟩

theorem exists_step (he : r.enabled ev = true)
    (hp : ∀ e, r.inner ev = some e → ∃ p', r.process.step e = some p') :
    ∃ r', r.step ev = some r' := by
  unfold step
  rw [if_pos he]
  cases hin : r.inner ev with
  | none => exact ⟨_, rfl⟩
  | some e =>
    obtain ⟨p', hp'⟩ := hp e hin
    simp [hp']

def ordinary : RoundEvent → Bool
  | .process e => Process.ordinary e
  | _ => true

theorem ordinary_inner (hin : r.inner ev = some e) (ho : ordinary ev = true) :
    Process.ordinary e = true := by
  cases ev with
  | process e' =>
    cases hin
    exact ho
  | turn l accepted =>
    simp only [inner] at hin
    split at hin
    · split at hin
      · cases hin
        rfl
      · obtain ⟨q, -, rfl⟩ := Option.map_eq_some_iff.1 hin
        rfl
      · cases hin
    · cases hin
  | execute l =>
    cases hin
    rfl
  | poll | again => cases hin

/-- The channel of a pointer in the active list of loop `l`. -/
structure At (p : Process) (l a : ℕ) (i : Source) : Prop where
  live : i ∈ live p.server
  home : p.server.home i = l
  self : (p.registry.channel i).self = a
  added : (p.registry.channel i).state = .added

structure Inv (listenAddr : InetAddress) (name : List Char) (r : Rounds) : Prop where
  process : Exact listenAddr name r.process
  apart : r.process.Apart
  quiet : ∀ l, r.phase l ≠ .executing →
    (r.process.server.loops l).queue.batch = [] ∧ (r.process.server.loops l).spent = []
  nodup : ∀ l as, r.phase l = .handling as → as.Nodup
  active : ∀ l as, r.phase l = .handling as → ∀ a ∈ as, ∃ i, At r.process l a i
  passed : ∀ l as, r.phase l = .handling as → ∀ c g,
    (r.process.server.loops l).dispatching = some (c, g) →
      (r.process.registry.channel (.conn c)).self ∉ as

/-- What waits for its turn stays through every step of the process. -/
theorem Inv.stays (hi : Inv listenAddr name r) (h : r.process.step e = some p')
    (ho : Process.ordinary e = true) (hp : r.phase l = .handling as) (ha : a ∈ as)
    (hat : At r.process l a i) : At p' l a i := by
  have hs : Stays r.process p' i := by
    refine hi.process.stays h ho hat.live hat.added ?_
    rintro c rfl
    have hl : (r.process.server.conns c).loop = l := hat.home
    refine ⟨?_, fun g hd => ?_⟩
    · rw [hl]
      exact (hi.quiet l (by simp [hp])).1
    · rw [hl] at hd
      exact hi.passed l as hp c g hd (hat.self ▸ ha)
  exact ⟨hs.live, hs.home.trans hat.home, hs.self.trans hat.self, hs.added⟩

/-- A pointer in an active list leads to its channel. -/
theorem Inv.resolve_eq (hi : Inv listenAddr name r) (hat : At r.process l a i) :
    r.resolve a = some i := by
  have hmem := Server.mem_sources hat.live
  have ho : r.process.server.isOpen i = true := hat.live
  cases hr : r.resolve a with
  | none =>
    have := List.find?_eq_none.1 hr i hmem
    simp [ho, hat.self] at this
  | some j =>
    have hj := List.find?_some hr
    simp only [Bool.and_eq_true, decide_eq_true_eq] at hj
    rw [hi.apart hj.1 hat.live (hj.2.trans hat.self.symm)]

/-! ### A step -/

/-- What a step makes of the phase of loop `l`. -/
inductive PhaseStep (r : Rounds) (l : ℕ) : RoundEvent → Phase → Prop
  | same (ev : RoundEvent) : PhaseStep r l ev (r.phase l)
  | poll {ready : List ℕ} : (r.process.server.loops l).atPoll = true → ready.Nodup →
      ready.length ≤ r.size l →
      (∀ fd ∈ ready, ((r.process.registry.poller l).kernel fd).isSome = true) →
      PhaseStep r l (.poll l ready) (.handling (r.triggerChannels l ready))
  | turn {accepted : Option (ℕ × ℕ)} {a : ℕ} {as : List ℕ} : r.phase l = .handling (a :: as) →
      PhaseStep r l (.turn l accepted) (.handling as)
  | execute : r.phase l = .handling [] → PhaseStep r l (.execute l) .executing
  | again : (r.process.server.loops l).atPoll = true → PhaseStep r l (.again l) .top

theorem Stepped.phase_cases (h : Stepped r ev r') (l : ℕ) : PhaseStep r l ev (r'.phase l) := by
  have he := h.enabled
  rw [h.phase]
  cases ev with
  | process e => exact .same _
  | poll m ready =>
    by_cases hl : l = m
    · subst hl
      simp only [Rounds.enabled, Bool.and_eq_true, decide_eq_true_eq, List.all_eq_true] at he
      simp only [nextPhase, Function.update_self]
      exact .poll he.1.1.1.1.2 he.1.1.2 he.1.2 he.2
    · simp only [nextPhase, Function.update_of_ne hl]
      exact .same _
  | turn m accepted =>
    by_cases hp : ∃ a as, r.phase m = .handling (a :: as)
    · obtain ⟨a, as, hp⟩ := hp
      by_cases hl : l = m
      · subst hl
        simp only [nextPhase, hp, Function.update_self]
        exact .turn hp
      · simp only [nextPhase, hp, Function.update_of_ne hl]
        exact .same _
    · have hsame : r.nextPhase (.turn m accepted) = r.phase := by
        simp only [nextPhase]
        split
        · rename_i a as hp'
          exact absurd ⟨a, as, hp'⟩ hp
        · rfl
      rw [hsame]
      exact .same _
  | execute m =>
    by_cases hl : l = m
    · subst hl
      simp only [Rounds.enabled, Bool.and_eq_true, decide_eq_true_eq] at he
      simp only [nextPhase, Function.update_self]
      exact .execute he.2
    · simp only [nextPhase, Function.update_of_ne hl]
      exact .same _
  | again m =>
    by_cases hl : l = m
    · subst hl
      simp only [Rounds.enabled, Bool.and_eq_true, decide_eq_true_eq] at he
      simp only [nextPhase, Function.update_self]
      exact .again he.1.2
    · simp only [nextPhase, Function.update_of_ne hl]
      exact .same _

/-- The server's part of a step, if it has one. -/
theorem Stepped.server_cases (h : Stepped r ev r') : r'.process.server = r.process.server ∨
    ∃ e, r.inner ev = some (.server e) ∧
      Server.Stepped r.process.server e r'.process.server := by
  rcases h.inner with ⟨e, hin, hst⟩ | ⟨-, hp⟩
  · cases e with
    | listen =>
      obtain ⟨-, -, hserver, -⟩ := Process.step_listen_cases hst
      exact .inl hserver
    | server e =>
      obtain ⟨-, hst, -⟩ := Process.step_server_cases hst
      exact .inr ⟨e, hin, Server.step_cases hst⟩
  · exact .inl (by rw [hp])

/-- A swap is the start of `executePendingFunctors`. -/
theorem Stepped.of_swap (h : Stepped r ev r') (hin : r.inner ev = some (.server (.swap l))) :
    ev = .execute l ∧ r'.phase l = .executing := by
  have he := h.enabled
  rw [h.phase]
  cases ev with
  | process e =>
    cases hin
    simp [Rounds.enabled, ProcessEvent.inLoop] at he
  | turn m accepted =>
    simp only [Rounds.inner] at hin
    split at hin
    · split at hin
      · cases hin
      · obtain ⟨q, -, hq⟩ := Option.map_eq_some_iff.1 hin
        cases hq
      · cases hin
    · cases hin
  | execute m =>
    cases hin
    exact ⟨rfl, by simp [nextPhase]⟩
  | poll | again => cases hin

/-- `handleEvent` of a connection is entered in its turn. -/
theorem Stepped.of_dispatch (h : Stepped r ev r')
    (hin : r.inner ev = some (.server (.dispatch l c))) : ∃ a as,
      r.phase l = .handling (a :: as) ∧ r.resolve a = some (.conn c) ∧
        r'.phase l = .handling as := by
  have he := h.enabled
  rw [h.phase]
  cases ev with
  | process e =>
    cases hin
    simp [Rounds.enabled, ProcessEvent.inLoop] at he
  | turn m accepted =>
    simp only [Rounds.inner] at hin
    split at hin
    · rename_i a as hp
      split at hin
      · rename_i d hd
        cases hin
        exact ⟨a, as, hp, hd, by simp [nextPhase, hp]⟩
      · obtain ⟨q, -, hq⟩ := Option.map_eq_some_iff.1 hin
        cases hq
      · cases hin
    · cases hin
  | execute m => cases hin
  | poll | again => cases hin

theorem quiet_step (hi : Inv listenAddr name r) (h : Stepped r ev r')
    (hne : r'.phase l ≠ .executing) : (r'.process.server.loops l).queue.batch = [] ∧
      (r'.process.server.loops l).spent = [] := by
  have hquiet : (r.process.server.loops l).queue.batch = [] ∧
      (r.process.server.loops l).spent = [] := by
    have hphase := h.phase_cases l
    generalize hp : r'.phase l = ph at hphase hne
    cases hphase with
    | same ev => exact hi.quiet l hne
    | poll hat =>
      obtain ⟨-, -, hb, hs⟩ := (Server.atPoll_iff _).1 hat
      exact ⟨hb, hs⟩
    | turn hold => exact hi.quiet l (by simp [hold])
    | execute => exact absurd rfl hne
    | again hat =>
      obtain ⟨-, -, hb, hs⟩ := (Server.atPoll_iff _).1 hat
      exact ⟨hb, hs⟩
  rcases h.server_cases with hs | ⟨e, hin, hs⟩
  · rw [hs]
    exact hquiet
  · refine hs.quiet ?_ hquiet
    rintro rfl
    exact hne (h.of_swap hin).2

/-- What the kernel reports is a channel that is open and registered. -/
theorem Inv.at_of_kernel (hi : Inv listenAddr name r) {fd : ℕ}
    (ha : a ∈ ((r.process.registry.poller l).kernel fd).map Prod.snd) :
    ∃ i, At r.process l a i ∧ (r.process.registry.channel i).fd = fd := by
  obtain ⟨⟨m, b⟩, hk, rfl⟩ := Option.map_eq_some_iff.1 ha
  obtain ⟨i, ⟨hlive, -⟩, hkey, he⟩ := hi.process.inv.watched.kernel.eq_some_iff.1
    (show r.process.registry.kernel (l, fd) = some (m, b) from hk)
  simp only [Channel.entry, Option.ite_none_right_eq_some, Option.some.injEq,
    Prod.mk.injEq] at he
  obtain ⟨hl, hfd⟩ := Prod.ext_iff.1 hkey
  exact ⟨i, ⟨hlive, hl, he.2.2, he.1⟩, hfd⟩

/-- The kernel has the address of a channel under one descriptor only. -/
theorem Inv.triggered_nodup (hi : Inv listenAddr name r) {ready : List ℕ} (hn : ready.Nodup) :
    (r.triggerChannels l ready).Nodup := by
  refine hn.filterMap fun fd fd' b hb hb' => ?_
  obtain ⟨i, hat, hfd⟩ := hi.at_of_kernel hb
  obtain ⟨j, hat', hfd'⟩ := hi.at_of_kernel hb'
  obtain rfl : i = j := hi.apart hat.live hat'.live (hat.self.trans hat'.self.symm)
  exact hfd.symm.trans hfd'

/-- What waits for its turn after a step waited before it, or has just been polled. -/
theorem Stepped.waiting_cases (h : Stepped r ev r') (hp : r'.phase l = .handling as) :
    (∃ before, r.phase l = .handling before ∧ as <:+ before) ∨
      r'.process = r.process ∧ (r.process.server.loops l).atPoll = true ∧
        ∃ ready : List ℕ, ready.Nodup ∧ as = r.triggerChannels l ready := by
  have hphase := h.phase_cases l
  rw [hp] at hphase
  generalize hph : Phase.handling as = ph at hphase
  cases hphase with
  | same ev => exact .inl ⟨as, hph.symm, List.suffix_refl as⟩
  | @poll ready hat hn =>
    cases hph
    refine .inr ⟨?_, hat, ready, hn, rfl⟩
    rcases h.inner with ⟨e, hin, -⟩ | ⟨-, hsame⟩
    · cases hin
    · exact hsame
  | @turn _ a as' hold =>
    cases hph
    exact .inl ⟨a :: as, hold, List.suffix_cons a as⟩
  | execute | again => cases hph

theorem active_step (hi : Inv listenAddr name r) (h : Stepped r ev r') (ho : ordinary ev = true)
    (hp : r'.phase l = .handling as) : as.Nodup ∧ ∀ a ∈ as, ∃ i, At r'.process l a i := by
  rcases h.waiting_cases hp with ⟨before, hold, hsuf⟩ | ⟨hsame, -, ready, hn, rfl⟩
  · refine ⟨(hi.nodup l before hold).sublist hsuf.sublist, fun a ha => ?_⟩
    have ha : a ∈ before := hsuf.subset ha
    obtain ⟨i, hat⟩ := hi.active l before hold a ha
    rcases h.inner with ⟨e, hin, hst⟩ | ⟨-, hsame⟩
    · exact ⟨i, hi.stays hst (ordinary_inner hin ho) hold ha hat⟩
    · exact ⟨i, hsame ▸ hat⟩
  · refine ⟨hi.triggered_nodup hn, fun a ha => ?_⟩
    obtain ⟨fd, -, ha⟩ := List.mem_filterMap.1 ha
    obtain ⟨i, hat, -⟩ := hi.at_of_kernel ha
    exact ⟨i, hsame ▸ hat⟩

/-- A connection whose event is being dispatched is not in the list any more. -/
theorem passed_step (hi : Inv listenAddr name r) (h : Stepped r ev r')
    (hp : r'.phase l = .handling as) {g : Bool}
    (hd : (r'.process.server.loops l).dispatching = some (c, g)) :
    (r'.process.registry.channel (.conn c)).self ∉ as := by
  have kept (hc : c < r.process.server.accepted) :
      (r'.process.registry.channel (.conn c)).self =
        (r.process.registry.channel (.conn c)).self := by
    rcases h.inner with ⟨e, hin, hst⟩ | ⟨-, hsame⟩
    · exact hi.process.self_step hst (by simpa using hc.ne)
    · rw [hsame]
  have old (hd : (r.process.server.loops l).dispatching = some (c, g)) :
      (r'.process.registry.channel (.conn c)).self ∉ as := by
    rw [kept (hi.process.server.dispatching l _ hd).established.1]
    rcases h.waiting_cases hp with ⟨before, hold, hsuf⟩ | ⟨-, hat, -⟩
    · exact fun hmem => hi.passed l before hold c g hd (hsuf.subset hmem)
    · obtain ⟨-, hnone, -⟩ := (Server.atPoll_iff _).1 hat
      simp [hnone] at hd
  rcases h.server_cases with hs | ⟨e, hin, hs⟩
  · exact old (hs ▸ hd)
  · rcases hs.dispatching_cases hd with hd | ⟨rfl, -⟩
    · exact old hd
    · obtain ⟨a, as', hold, hres, hnew⟩ := h.of_dispatch hin
      obtain rfl : as = as' := by simpa [hp] using hnew
      obtain ⟨i, hat⟩ := hi.active l _ hold a (by simp)
      obtain rfl : i = .conn c := by simpa [hi.resolve_eq hat] using hres
      have hnd := hi.nodup l _ hold
      rw [kept (isOpen_conn.1 hat.live).1, hat.self]
      exact (List.nodup_cons.1 hnd).1

theorem step_inv (hi : Inv listenAddr name r) (hst : r.step ev = some r')
    (ho : ordinary ev = true) : Inv listenAddr name r' := by
  have h := step_cases hst
  have hprocess : Exact listenAddr name r'.process ∧ r'.process.Apart := by
    rcases h.inner with ⟨e, hin, hst⟩ | ⟨-, hsame⟩
    · exact ⟨hi.process.step hst (ordinary_inner hin ho),
        Process.apart_step hi.process hi.apart hst⟩
    · rw [hsame]
      exact ⟨hi.process, hi.apart⟩
  exact
    { process := hprocess.1
      apart := hprocess.2
      quiet := fun l => quiet_step hi h
      nodup := fun l as hp => (active_step hi h ho hp).1
      active := fun l as hp => (active_step hi h ho hp).2
      passed := fun l as hp c g => passed_step hi h hp }

/-! ### Runs -/

theorem inv_of_run (h : Run step (.init (.init k (.init listenAddr name threads))) tr r)
    (ho : ∀ τ ∈ tr, ordinary τ.event = true) : Inv listenAddr name r := by
  refine h.invariant_of (C := fun τ => ordinary τ.event = true) ?_
    (fun _ _ _ hi hst ho => step_inv hi hst ho) ho
  exact
    { process := Process.exact_of_run .nil (by simp)
      apart := Process.init_apart k listenAddr name threads
      quiet := fun l _ => ⟨rfl, rfl⟩
      nodup := fun l as hp => by simp [init] at hp
      active := fun l as hp => by simp [init] at hp
      passed := fun l as hp => by simp [init] at hp }

/-- The thread of a loop can always call `handleEvent` on the next active channel. -/
theorem Inv.exists_turn (hi : Inv listenAddr name r) (hp : r.phase l = .handling (a :: as))
    (hf : r.process.server.free l = true) (hat : (r.process.server.loops l).atPoll = true) :
    ∃ r', r.step (.turn l none) = some r' := by
  obtain ⟨i, hi'⟩ := hi.active l _ hp a (by simp)
  have hres := hi.resolve_eq hi'
  have hen : r.enabled (.turn l none) = true := by
    simp only [enabled, hf, hat, hp, hres, Bool.true_and]
    cases i <;> rfl
  cases i with
  | conn c =>
    obtain ⟨hc, hpos⟩ := isOpen_conn.1 hi'.live
    have hl : (r.process.server.conns c).loop = l := hi'.home
    have hadd : (r.process.server.conns c).channel.state = .added := by
      rw [← hi.process.inv.channel c hc, hi'.added]
    have hs : r.process.server.enabled (.dispatch l c) = true := by
      simp [Server.enabled, hf, hat, hc, hl, hadd, hpos]
    obtain ⟨p', hp', -⟩ := hi.process.inv.exists_step (e := .dispatch l c)
      (by rw [Server.step, if_pos hs]) rfl (by simp [Server.Safe, Server.acts])
    exact exists_step hen fun e he => by
      obtain rfl : _ = e := by simpa [inner, hp, hres] using he
      exact ⟨p', hp'⟩
  | acceptor => exact exists_step hen (by simp [inner, hp, hres])
  | wakeup m => exact exists_step hen (by simp [inner, hp, hres])

/-- While the server lives and no other thread sends: a channel that waits in
`active_channels_` of a loop is open, of that loop and registered, nothing else lies at its
address, it waits once, and when its turn comes `handleEvent` can be called on it. -/
theorem active_channels_valid
    (h : Run step (.init (.init k (.init listenAddr name threads))) tr r)
    (ho : ∀ τ ∈ tr, ordinary τ.event = true) (hp : r.phase l = .handling as) :
    as.Nodup ∧
    (∀ a ∈ as, ∃ i, (r.process.server.isOpen i = true ∧ r.process.server.home i = l ∧
        (r.process.registry.channel i).self = a ∧
        (r.process.registry.channel i).state = .added) ∧
      ∀ j, r.process.server.isOpen j = true → (r.process.registry.channel j).self = a → j = i) ∧
    ∀ a as', as = a :: as' → r.process.server.free l = true →
      (r.process.server.loops l).atPoll = true → ∃ r', r.step (.turn l none) = some r' := by
  have hi := inv_of_run h ho
  refine ⟨hi.nodup l as hp, fun a ha => ?_, fun a as' he hf hat => ?_⟩
  · obtain ⟨i, hat⟩ := hi.active l as hp a ha
    refine ⟨i, ⟨hat.live, hat.home, hat.self, hat.added⟩, fun j hj hself => ?_⟩
    exact hi.apart hj hat.live (hself.trans hat.self.symm)
  · subst he
    exact hi.exists_turn hp hf hat

/-- Both loops go round until a connection on descriptor 7 is up, and loop 1 polls again. -/
def twoReady : List RoundEvent :=
  [.process .listen, .poll 0 [3], .turn 0 (some (1, 7)), .process (.server .establish),
    .process (.server .endAccept), .execute 0, .again 0, .poll 1 [6], .turn 1 none, .execute 1,
    .process (.server (.runFunctor 1 false)), .process (.server (.dropFunctor 1)), .again 1,
    .poll 1 [6, 7]]

theorem active_channels_valid_two_ready : ∃ tr r,
    Run step (.init (.init Process.sampleLayout (.sample 1))) tr r ∧
    tr.map Transition.event = twoReady ∧ ([16, 1] : List ℕ).Nodup ∧
    (∀ a ∈ [16, 1], ∃ i, (r.process.server.isOpen i = true ∧ r.process.server.home i = 1 ∧
        (r.process.registry.channel i).self = a ∧
        (r.process.registry.channel i).state = .added) ∧
      ∀ j, r.process.server.isOpen j = true → (r.process.registry.channel j).self = a → j = i) ∧
    ∀ a as', [16, 1] = a :: as' → r.process.server.free 1 = true →
      (r.process.server.loops 1).atPoll = true → ∃ r', r.step (.turn 1 none) = some r' := by
  obtain ⟨tr, r, hr, he, ho, hp⟩ := exists_run step
    (.init (.init Process.sampleLayout (.sample 1))) twoReady
    (P := fun tr r => (∀ τ ∈ tr, ordinary τ.event = true) ∧ r.phase 1 = .handling [16, 1])
    (by decide +kernel)
  exact ⟨tr, r, hr, he, active_channels_valid hr ho hp⟩

end Rounds
end Armsy
