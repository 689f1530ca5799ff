import Armsy.Proofs.ActiveChannels

/-! The rounds of the loops refine the server: what a run of `EventLoop::loop` on every
thread does to the connections, a run of the server does. What holds of every run of the
server so holds of the rounds, and the rounds add where a channel may be waiting. -/

namespace Armsy
namespace Rounds

open Process (live)

variable {k : Layout} {listenAddr : InetAddress} {name : List Char} {threads : ℕ}
  {s : Server} {r r' : Rounds} {ev : RoundEvent} {l a c : ℕ} {as : List ℕ}
  {tr : List (Transition Rounds RoundEvent)}

/-- The step of the server that a step of the rounds is, if it is one. -/
def serverEvent (r : Rounds) (ev : RoundEvent) : Option ServerEvent :=
  match r.inner ev with
  | some (.server e) => some e
  | _ => none

theorem serverEvent_eq_some {e : ServerEvent} :
    r.serverEvent ev = some e ↔ r.inner ev = some (.server e) := by
  unfold serverEvent
  split
  · rename_i e' hin
    simp [hin]
  · rename_i hne
    exact ⟨fun h => (by cases h), fun h => absurd h (hne e)⟩

/-- The server's side of a run of the rounds. -/
def serverSide (tr : List (Transition Rounds RoundEvent)) :
    List (Transition Server ServerEvent) :=
  tr.filterMap fun τ => (τ.pre.serverEvent τ.event).map fun e =>
    ⟨τ.pre.process.server, e, τ.post.process.server⟩

theorem refines_server (h : Run step (.init (.init k s)) tr r) :
    Run Server.step s (serverSide tr) r.process.server := by
  refine h.project (fun r => r.process.server) serverEvent ?_ ?_
  · intro r ev r' e hst hev
    have hin := serverEvent_eq_some.1 hev
    rcases (step_cases hst).inner with ⟨e', hin', hp⟩ | ⟨hnone, -⟩
    · obtain rfl : e' = .server e := by simpa [hin] using hin'.symm
      exact (Process.step_server_cases hp).2.1
    · simp [hin] at hnone
  · intro r ev r' hst hev
    rcases (step_cases hst).server_cases with hs | ⟨e, hin, -⟩
    · exact hs
    · rw [serverEvent_eq_some.2 hin] at hev
      cases hev

theorem ordinary_serverSide (ho : ∀ τ ∈ tr, ordinary τ.event = true) :
    ∀ τ ∈ serverSide tr, Ownership.ordinary τ.event = true := by
  intro τ hτ
  obtain ⟨σ, hσ, hm⟩ := List.mem_filterMap.1 hτ
  obtain ⟨e, he, rfl⟩ := Option.map_eq_some_iff.1 hm
  exact ordinary_inner (serverEvent_eq_some.1 he) (ho σ hσ)

/-- The last pointer to a connection goes only after `connDestory` has returned for it on its
own loop, not while an event of its channel is being handled, and not while its channel
waits in `active_channels_` of any loop for its event to be handled. -/
theorem last_reference_not_active
    (h : Run step (.init (.init k (.init listenAddr name threads))) tr r)
    (ho : ∀ τ ∈ tr, ordinary τ.event = true) :
    ∀ τ ∈ tr, ∀ c < τ.pre.process.server.accepted, 0 < τ.pre.process.server.refCount c →
      τ.post.process.server.refCount c = 0 →
        (τ.pre.process.server.conns c).tornDownOn =
          some (τ.pre.process.server.conns c).loop ∧
        (∀ l g, (τ.pre.process.server.loops l).dispatching ≠ some (c, g)) ∧
        ∀ l as, τ.pre.phase l = .handling as →
          (τ.pre.process.registry.channel (.conn c)).self ∉ as := by
  intro τ hτ c hc hpre hpost
  obtain ⟨tr₁, tr₂, rfl, hr, hst⟩ := h.split hτ
  have hi : Inv listenAddr name τ.pre :=
    inv_of_run hr fun σ hσ => ho σ (List.mem_append_left _ hσ)
  have hlast : (τ.pre.process.server.conns c).tornDownOn =
      some (τ.pre.process.server.conns c).loop ∧
      ∀ l g, (τ.pre.process.server.loops l).dispatching ≠ some (c, g) := by
    cases hev : τ.pre.serverEvent τ.event with
    | some e =>
      refine Ownership.last_reference (refines_server h) (ordinary_serverSide ho)
        ⟨τ.pre.process.server, e, τ.post.process.server⟩ ?_ c hc hpre hpost
      exact List.mem_filterMap.2 ⟨τ, hτ, by simp [hev]⟩
    | none =>
      rcases (step_cases hst).server_cases with hs | ⟨e, hin, -⟩
      · rw [hs] at hpost
        omega
      · simp [serverEvent_eq_some.2 hin] at hev
  refine ⟨hlast.1, hlast.2, fun l as hp hmem => ?_⟩
  obtain ⟨i, hat⟩ := hi.active l as hp _ hmem
  have hlive : Source.conn c ∈ live τ.pre.process.server := Server.isOpen_conn.2 ⟨hc, hpre⟩
  obtain rfl : i = .conn c := hi.apart hat.live hlive hat.self
  have hinit := hi.process.torn c hc (by simp [hlast.1])
  have hadded := hat.added
  rw [hi.process.inv.channel c hc, hinit] at hadded
  cases hadded

/-- The connection is closed by its peer, and both loops go round until it is let go of. -/
def letGo : List RoundEvent :=
  twoReady ++ [.turn 1 none, .turn 1 none, .process (.server (.handleClose 1)),
    .process (.server (.removeConnection 1)), .process (.server (.endClose 1)),
    .process (.server (.endDispatch 1)), .execute 1, .again 1, .poll 0 [4], .turn 0 none,
    .execute 0, .process (.server (.runFunctor 0 false)), .process (.server .erase),
    .process (.server .pushDestory), .process (.server (.dropFunctor 0)), .again 0,
    .poll 1 [6], .turn 1 none, .execute 1, .process (.server (.runFunctor 1 false)),
    .process (.server (.dropFunctor 1))]

theorem last_reference_not_active_let_go : ∃ tr r,
    Run step (.init (.init Process.sampleLayout (.sample 1))) tr r ∧
    tr.map Transition.event = letGo ∧
    (∃ τ ∈ tr, τ.pre.process.server.refCount 0 = 1 ∧ τ.post.process.server.refCount 0 = 0) ∧
    ∀ τ ∈ tr, ∀ c < τ.pre.process.server.accepted, 0 < τ.pre.process.server.refCount c →
      τ.post.process.server.refCount c = 0 →
        (τ.pre.process.server.conns c).tornDownOn =
          some (τ.pre.process.server.conns c).loop ∧
        (∀ l g, (τ.pre.process.server.loops l).dispatching ≠ some (c, g)) ∧
        ∀ l as, τ.pre.phase l = .handling as →
          (τ.pre.process.registry.channel (.conn c)).self ∉ as := by
  obtain ⟨tr, r, hr, he, ho, hp⟩ := exists_run step
    (.init (.init Process.sampleLayout (.sample 1))) letGo
    (P := fun tr _ => (∀ τ ∈ tr, ordinary τ.event = true) ∧
      ∃ τ ∈ tr, τ.pre.process.server.refCount 0 = 1 ∧ τ.post.process.server.refCount 0 = 0)
    (by decide +kernel)
  exact ⟨tr, r, hr, he, hp, last_reference_not_active hr ho⟩

/-! ### The size of `events_` -/

/-- A poll reports no more descriptors than there are channels on the loop. -/
theorem Inv.ready_length (hi : Inv listenAddr name r) {ready : List ℕ} (hn : ready.Nodup)
    (hk : ∀ fd ∈ ready, ((r.process.registry.poller l).kernel fd).isSome = true) :
    ready.length ≤ r.process.server.accepted + 2 := by
  let is : List Source :=
    .wakeup l :: .acceptor :: (List.range r.process.server.accepted).map .conn
  have hsub : ready ⊆ is.map fun i => (r.process.registry.channel i).fd := by
    intro fd hfd
    obtain ⟨q, hq⟩ := Option.isSome_iff_exists.1 (hk fd hfd)
    obtain ⟨i, hat, rfl⟩ := hi.at_of_kernel (l := l) (a := q.2) (by rw [hq]; rfl)
    refine List.mem_map_of_mem ?_
    cases i with
    | wakeup m =>
      have hm : m = l := hat.home
      simp [is, hm]
    | acceptor => simp [is]
    | conn c => simp [is, (Server.isOpen_conn.1 hat.live).1]
  have := (List.subperm_of_subset hn hsub).length_le
  simpa [is] using this

theorem Stepped.accepted_le (h : Stepped r ev r') :
    r.process.server.accepted ≤ r'.process.server.accepted := by
  rcases h.server_cases with hs | ⟨e, -, hs⟩
  · rw [hs]
  · exact hs.accepted_le

/-- A poll either fills `events_` and doubles it or leaves it as it is. -/
theorem Stepped.size_cases (h : Stepped r ev r') (l : ℕ) : r'.size l = r.size l ∨
    ∃ ready : List ℕ, ready.Nodup ∧
      (∀ fd ∈ ready, ((r.process.registry.poller l).kernel fd).isSome = true) ∧
      ready.length = r.size l ∧ r'.size l = r.size l * 2 := by
  have he := h.enabled
  rw [h.size]
  cases ev with
  | poll m ready =>
    simp only [Rounds.enabled, Bool.and_eq_true, decide_eq_true_eq, List.all_eq_true] at he
    simp only [nextSize]
    split_ifs with hfull
    · by_cases hl : l = m
      · subst hl
        exact .inr ⟨ready, he.1.1.2, he.2, hfull.2, by simp⟩
      · exact .inl (by simp [hl])
    · exact .inl rfl
  | _ => exact .inl rfl

/-- `events_` is never empty, and never more than twice as long as the channels of its loop
have ever needed. -/
theorem events_size (h : Run step (.init (.init k (.init listenAddr name threads))) tr r)
    (ho : ∀ τ ∈ tr, ordinary τ.event = true) (l : ℕ) :
    kDefaultChannelListSize ≤ r.size l ∧
      r.size l ≤ max kDefaultChannelListSize (2 * (r.process.server.accepted + 2)) := by
  induction h with
  | nil => exact ⟨le_rfl, le_max_left ..⟩
  | @snoc tr r r' ev hr hst ih =>
    obtain ⟨ho, -⟩ := List.forall_mem_append.1 ho
    obtain ⟨hlow, hhigh⟩ := ih ho
    have hs := step_cases hst
    have hacc := hs.accepted_le
    rcases hs.size_cases l with he | ⟨ready, hn, hk, hfull, he⟩
    · rw [he]
      exact ⟨hlow, by omega⟩
    · have hlen := (inv_of_run hr ho).ready_length hn hk
      rw [he]
      exact ⟨by omega, by omega⟩

theorem events_size_let_go : ∃ tr r,
    Run step (.init (.init Process.sampleLayout (.sample 1))) tr r ∧
    tr.map Transition.event = letGo ∧ kDefaultChannelListSize ≤ r.size 1 ∧
      r.size 1 ≤ max kDefaultChannelListSize (2 * (r.process.server.accepted + 2)) := by
  obtain ⟨tr, r, hr, he, ho⟩ := exists_run step
    (.init (.init Process.sampleLayout (.sample 1))) letGo
    (P := fun tr _ => ∀ τ ∈ tr, ordinary τ.event = true) (by decide +kernel)
  exact ⟨tr, r, hr, he, events_size hr ho 1⟩

end Rounds
end Armsy
