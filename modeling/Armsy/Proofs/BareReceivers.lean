import Armsy.Proofs.Owners

/-! The bare pointers. `sendInLoop` and `shutdownInLoop` are queued with a `TcpConnection*`,
removals with a `TcpServer*`, and nothing keeps the object until the functor has run. -/

namespace Armsy

/-- The connection that a functor is bound to without owning it. -/
def Task.bare : Task → Option ℕ
  | .sendInLoop c | .shutdownInLoop c => some c
  | _ => none

namespace BareReceivers

open Server (Stepped Acting Pushing FrameStep Owned)

variable {listenAddr : InetAddress} {name : List Char} {s s' : Server} {e : ServerEvent}
  {c l : ℕ} {f : Task}

inductive Receiver where
  | connection (c : ℕ)
  | server
  deriving DecidableEq, Repr

/-- What a functor is called on through a bare pointer. -/
def target : Task → Option Receiver
  | .removeConnectionInLoop _ => some .server
  | f => f.bare.map .connection

/-- The object that a step calls through a bare pointer: that of the functor it runs, or
the server when it runs a close callback or goes on in `removeConnectionInLoop`. -/
def receiver (s : Server) : ServerEvent → Option Receiver
  | .runFunctor l _ => (s.loops l).queue.batch.head?.bind target
  | .removeConnection _ | .erase | .pushDestory => some .server
  | _ => none

/-- The object has been destroyed in the course of the run. -/
def Destroyed (tr : List (Transition Server ServerEvent)) : Receiver → Prop
  | .connection c => ∃ τ ∈ tr, 0 < τ.pre.refCount c ∧ τ.post.refCount c = 0
  | .server => ∃ τ ∈ tr, τ.event = .destroyed

/-- No functor that is bound to `c` without owning it waits in a running loop. -/
def Unbound (s : Server) (c : ℕ) : Prop :=
  ∀ l ≤ s.threads, (s.loops l).running = true → ∀ f ∈ (s.loops l).queue.waiting, f.bare ≠ some c

/-- The base loop's thread is in no `handleEvent`, no removal is on its way to it, and none
of its own connections is up or registered. -/
def Quiescent (s : Server) : Prop :=
  (s.loops 0).dispatching = none ∧
    (∀ f ∈ (s.loops 0).queue.waiting, target f ≠ some .server) ∧
    ∀ c < s.accepted, (s.conns c).loop = 0 →
      (s.conns c).state ≠ .connected ∧ (s.conns c).channel.state ≠ .added

/-- The last owner of a connection goes when nothing bound to it waits; `~TcpServer`
returns when all is quiet, and no `sendInLoop` asks for write events after that. -/
structure Careful (τ : Transition Server ServerEvent) : Prop where
  release : ∀ c, 0 < τ.pre.refCount c → τ.post.refCount c = 0 → Unbound τ.pre c
  quiescent : τ.event = .destroyed → Quiescent τ.pre
  settled : τ.pre.life = .destroyed → ∀ l c, τ.event = .runFunctor l true →
    (τ.pre.loops l).queue.batch.head? = some (.sendInLoop c) →
    (τ.pre.conns c).channel.isWriteSet = true

/-- What is left of the server's work when it is gone: none. -/
structure Gone (s : Server) : Prop where
  joined : ∀ l, 0 < l → l ≤ s.threads → (s.loops l).running = false
  dispatching : (s.loops 0).dispatching = none
  frame : (s.loops 0).frame = .idle ∨ ∃ c, (s.loops 0).frame = .handedOver c
  removals : ∀ f ∈ (s.loops 0).queue.waiting, target f ≠ some .server
  conns : ∀ c < s.accepted, (s.conns c).loop = 0 →
    (s.conns c).state ≠ .connected ∧ (s.conns c).channel.state ≠ .added

/-- The thread is in `handleClose`, or in a removal that `handleClose` runs. -/
def inClose : Frame → Bool
  | .closing _ | .closed _ | .removing _ true | .removed _ true => true
  | _ => false

/-- Where the base loop's thread can be when a user destroys the server. -/
def inUserCode : Frame → Bool
  | .idle | .handedOver _ | .closing _ | .closed _ => true
  | _ => false

structure Inv (s : Server) : Prop where
  owned : Owned s
  bound : ∀ l ≤ s.threads, (s.loops l).running = true → ∀ f ∈ (s.loops l).queue.waiting,
    ∀ c, f.bare = some c → 0 < s.refCount c
  base : ∀ c, .connEstablish c ∉ (s.loops 0).queue.waiting
  closing : ∀ l, inClose (s.loops l).frame = true → (s.loops l).dispatching ≠ none
  destructing : s.destructing = true → inUserCode (s.loops 0).frame = true
  gone : s.life = .destroyed → Gone s

theorem init_inv (listenAddr : InetAddress) (name : List Char) (threads : ℕ) :
    Inv (.init listenAddr name threads) where
  owned := Server.init_owned listenAddr name threads
  bound := by simp [Server.init, LoopThread.start]
  base := by simp [Server.init, LoopThread.start]
  closing := by simp [Server.init, LoopThread.start, inClose]
  destructing := by simp [Server.init, Server.destructing]
  gone := by simp [Server.init]

/-! ### Each part of the invariant after a step -/

theorem user_of_enqueue {i : ℕ} {u : User} (h : Stepped s (.enqueue i) s')
    (hu : s.users[i]? = some u) : 0 < s'.refCount u.conn := by
  refine Server.refCount_pos_of_user (u := { u with point := .idle }) ?_ rfl
  rw [h.users]
  refine List.mem_of_getElem? (i := i) ?_
  simp [Server.nextUsers, Server.setPoint, hu]

/-- A functor bound to a bare connection is queued through a pointer of a user. -/
theorem bound_step (hi : Inv s) (h : Stepped s e s') (hc : Careful ⟨s, e, s'⟩)
    (hl : l ≤ s'.threads) (hr : (s'.loops l).running = true)
    (hf : f ∈ (s'.loops l).queue.waiting) (hb : f.bare = some c) : 0 < s'.refCount c := by
  rw [h.threads] at hl
  have hr := h.running_of_running hr
  rcases h.waiting_cases hf with hf | hp
  · have hpos := hi.bound l hl hr f hf c hb
    by_contra hz
    exact hc.release c hpos (by simpa using hz) l hl hr f hf hb
  · cases Server.pushes_cases hp with
    | send hu _ =>
      cases hb
      exact user_of_enqueue h hu
    | shutdown hu _ =>
      cases hb
      exact user_of_enqueue h hu
    | _ => cases hb

theorem base_step (hi : Inv s) (h : Stepped s e s') (c : ℕ) :
    .connEstablish c ∉ (s'.loops 0).queue.waiting := by
  intro hf
  rcases h.waiting_cases hf with hf | hp
  · exact hi.base c hf
  · exact (Server.of_pushes_connEstablish hp).2.2 rfl

theorem closing_step (hi : Inv s) (h : Stepped s e s') (hf : inClose (s'.loops l).frame = true) :
    (s'.loops l).dispatching ≠ none := by
  have hready := h.ready
  have same (hne : (s.loops l).frame ≠ .idle) :
      (s'.loops l).dispatching = (s.loops l).dispatching := by
    refine h.dispatching_eq ?_ ?_
    · rintro c rfl
      cases hready with
      | dispatch _ hpoll => exact hne ((Server.atPoll_iff _).1 hpoll).1
    · rintro rfl
      cases hready with
      | endDispatch hin => exact hne (Server.of_inHandler hin).2
  have kept (hold : inClose (s.loops l).frame = true) : (s'.loops l).dispatching ≠ none := by
    rw [same]
    · exact hi.closing l hold
    · intro hidle
      simp [hidle, inClose] at hold
  rcases h.frame_cases l with hs | hs
  · exact kept (hs ▸ hf)
  · generalize (s'.loops l).frame = fr at hs hf
    cases hs with
    | handleClose _ hd =>
      rw [h.dispatching_eq (by simp) (by simp), hd]
      simp
    | removeConnectionNow h0 | removeConnection _ h0 | pushDestoryNested h0 =>
      exact kept (by simp [h0, inClose])
    | @erase c nested h0 =>
      cases nested with
      | false => cases hf
      | true => exact kept (by simp [h0, inClose])
    | _ => cases hf

theorem destructing_step (hi : Inv s) (h : Stepped s e s') (hd : s'.destructing = true) :
    inUserCode (s'.loops 0).frame = true := by
  have hready := h.ready
  by_cases hold : s.destructing = true
  · rcases h.frame_cases 0 with hs | hs
    · rw [hs]
      exact hi.destructing hold
    · have := Server.free_of_frameStep h.enabled hs
      simp [Server.free, hold] at this
  · have he : e = .destroy := by
      simp only [Server.destructing, h.life] at hd hold
      cases hready with
      | destroy => rfl
      | destroyNext hlife | endDestroyNext hlife => simp [hlife] at hold
      | destroyed => cases hd
      | _ => exact absurd hd hold
    subst he
    have hsame : (s'.loops 0).frame = (s.loops 0).frame := by
      rw [h.loop, Server.moved_eq]
      simp [Server.mover]
    rw [hsame]
    cases hready with
    | destroy _ _ hfr => rcases hfr with hfr | ⟨d, hfr | hfr | hfr⟩ <;> simp [hfr, inUserCode]

theorem mem_of_head {q : BatchQueue Task} (h : q.batch.head? = some f) : f ∈ q.waiting :=
  List.mem_append_left _ (List.mem_of_mem_head? h)

theorem zero_of_free (hg : Gone s) (h : s.free l = true) : l = 0 := by
  simp only [Server.free, Bool.and_eq_true, decide_eq_true_eq] at h
  by_contra hne
  rw [hg.joined l (Nat.pos_of_ne_zero hne) h.1.1] at h
  cases h.1.2

/-- `~TcpServer` returns when nothing is left for the base loop to tell the server. -/
theorem gone_of_destroyed (hi : Inv s) (h : Stepped s .destroyed s')
    (hc : Careful ⟨s, .destroyed, s'⟩) : Gone s' := by
  obtain ⟨hlife, hjoined⟩ : s.life = .destructing none [] ∧ ∀ l ≤ s.threads, 0 < l →
      (s.loops l).running = false ∧ (s.loops l).queue.pending = [] := by
    cases h.ready with
    | destroyed hlife hjoined => exact ⟨hlife, hjoined⟩
  obtain ⟨hd, hrem, hconns⟩ := hc.quiescent rfl
  have hloops : s'.loops = s.loops := h.loops
  refine ⟨?_, by rw [hloops, hd], ?_, by rwa [hloops], ?_⟩
  · intro l hpos hl
    rw [h.threads] at hl
    rw [hloops]
    exact (hjoined l hl hpos).1
  · have huser := hi.destructing (by simp [Server.destructing, hlife])
    have hclose := hi.closing 0
    rw [hloops]
    cases hf : (s.loops 0).frame with
    | idle => exact .inl rfl
    | handedOver c => exact .inr ⟨c, rfl⟩
    | closing c | closed c => exact absurd hd (hclose (by simp [hf, inClose]))
    | _ => simp [hf, inUserCode] at huser
  · rw [h.accepted, h.conns]
    exact hconns

theorem gone_conns (hi : Inv s) (hg : Gone s) (hlife : s.life = .destroyed) (h : Stepped s e s')
    (hc : Careful ⟨s, e, s'⟩) (hlt : c < s.accepted) (hl : (s.conns c).loop = 0) :
    (s'.conns c).state ≠ .connected ∧ (s'.conns c).channel.state ≠ .added := by
  have hready := h.ready
  have hold := hg.conns c hlt hl
  have idle {m : ℕ} {d : ℕ × Bool} (hd : (s.loops m).dispatching = some d)
      (hf : s.free m = true) : False := by
    obtain rfl := zero_of_free hg hf
    rw [hg.dispatching] at hd
    cases hd
  rcases h.conns_cases c with hs | ⟨self, fd, -, rfl, -⟩ | ⟨a, ha, hs⟩
  · rwa [hs]
  · exact absurd hlt (lt_irrefl _)
  · rw [hs]
    cases ha with
    | establish hf _ =>
      rcases hg.frame with h0 | ⟨d, h0⟩ <;> simp [hf] at h0
    | handleClose hd =>
      cases hready with
      | handleClose hin => exact (idle hd (Server.of_inHandler hin).1).elim
    | drained hd =>
      cases hready with
      | drained hin => exact (idle hd (Server.of_inHandler hin).1).elim
    | runEstablish hb =>
      cases hready with
      | runFunctor hfree =>
        obtain rfl := zero_of_free hg hfree
        exact absurd (mem_of_head (by rw [hb]; rfl)) (hi.base c)
    | runDestory hb =>
      simp only [Connection.act]
      split_ifs with hst
      · simp
      · exact ⟨hst, by simp⟩
    | @runSend m _ w fs hb =>
      cases w with
      | false => exact ⟨by simp [Connection.act], by simpa [Connection.act] using hold.2⟩
      | true =>
        have hw := hc.settled hlife m c rfl (by rw [hb]; rfl)
        simp only at hw
        exact ⟨by simp [Connection.act, hw], by simpa [Connection.act, hw] using hold.2⟩
    | sendNow =>
      cases hready with
      | sendNow _ _ _ hst => exact absurd hst hold.1
    | shutdownNow =>
      cases hready with
      | shutdownNow _ _ _ hst => exact absurd hst hold.1
    | shutdownSet _ => exact ⟨by simp [Connection.act], hold.2⟩
    | destroyNext _ =>
      cases hready with
      | destroyNext hd => simp [hlife] at hd

theorem gone_mono (hi : Inv s) (hg : Gone s) (hlife : s.life = .destroyed) (h : Stepped s e s')
    (hc : Careful ⟨s, e, s'⟩) : Gone s' := by
  have hready := h.ready
  have hacc : s'.accepted = s.accepted := by
    rw [h.accepted]
    cases hready with
    | accept _ _ halive => simp [hlife] at halive
    | _ => rfl
  refine ⟨?_, ?_, ?_, ?_, ?_⟩
  · intro l hpos hl
    rw [h.threads] at hl
    by_contra hr
    have := h.running_of_running (by simpa using hr)
    simp [hg.joined l hpos hl] at this
  · by_contra hne
    obtain ⟨d, hd⟩ := Option.ne_none_iff_exists'.1 hne
    rcases h.dispatching_cases hd with hd | ⟨rfl, -⟩
    · rw [hg.dispatching] at hd
      cases hd
    · cases hready with
      | dispatch _ _ hlt hl hadd => exact (hg.conns d.1 hlt hl).2 hadd
  · rcases h.frame_cases 0 with hs | hs
    · rw [hs]
      exact hg.frame
    · generalize (s'.loops 0).frame = fr at hs
      cases hs with
      | endAccept _ | endClose _ | pushDestory _ => exact .inl rfl
      | accept _ =>
        cases hready with
        | accept _ _ halive => simp [hlife] at halive
      | establish _ => exact .inr ⟨_, rfl⟩
      | handleClose _ hd =>
        rw [hg.dispatching] at hd
        cases hd
      | runFunctor _ hb => exact absurd rfl (hg.removals _ (mem_of_head (by rw [hb]; rfl)))
      | removeConnection h0 _ => exact absurd rfl h0
      | removeConnectionNow h0 | erase h0 | pushDestoryNested h0 =>
        rcases hg.frame with hf | ⟨d, hf⟩ <;> simp [h0] at hf
  · intro f hf ht
    rcases h.waiting_cases hf with hf | hp
    · exact hg.removals f hf ht
    · have hp := Server.pushes_cases hp
      generalize (0 : ℕ) = l at hp
      cases hp with
      | removeConnection _ h0 =>
        cases hready with
        | removeConnection hfree => exact h0 (zero_of_free hg hfree)
      | _ => cases ht
  · intro c hlt hl
    rw [hacc] at hlt
    rw [(h.name_eq hlt).2] at hl
    exact gone_conns hi hg hlife h hc hlt hl

theorem gone_step (hi : Inv s) (h : Stepped s e s') (hc : Careful ⟨s, e, s'⟩)
    (hlife : s'.life = .destroyed) : Gone s' := by
  by_cases hold : s.life = .destroyed
  · exact gone_mono hi (hi.gone hold) hold h hc
  · have he : e = .destroyed := by
      rw [h.life] at hlife
      cases e with
      | destroyed => rfl
      | destroy => cases hlife
      | destroyNext d | endDestroyNext =>
        simp only [Server.nextLife] at hlife
        split at hlife
        · cases hlife
        · exact absurd hlife hold
      | _ => exact absurd hlife hold
    subst he
    exact gone_of_destroyed hi h hc

theorem step_inv (hi : Inv s) (hs : s.step e = some s') (hc : Careful ⟨s, e, s'⟩) : Inv s' := by
  have h := Server.step_cases hs
  exact ⟨Server.step_owned hi.owned hs, fun l hl hr f hf c hb => bound_step hi h hc hl hr hf hb,
    base_step hi h, fun l => closing_step hi h, destructing_step hi h, gone_step hi h hc⟩

/-! ### The receiver of a step -/

theorem receiver_alive (hi : Inv s) (h : s.enabled e = true) {r : Receiver}
    (hr : receiver s e = some r) :
    match r with
    | .connection c => 0 < s.refCount c
    | .server => s.life ≠ .destroyed := by
  cases e with
  | runFunctor l w =>
    simp only [receiver, Option.bind_eq_some_iff] at hr
    obtain ⟨f, hb, ht⟩ := hr
    have hfree : s.free l = true := by
      cases Server.ready_of_enabled h
      assumption
    cases r with
    | connection c =>
      have hbare : f.bare = some c := by
        cases f <;> simp_all [target, Task.bare]
      have hrun : (s.loops l).running = true := by
        simp only [Server.free, Bool.and_eq_true] at hfree
        exact hfree.1.2
      exact hi.bound l (Server.le_of_free hfree) hrun f (mem_of_head hb) c hbare
    | server =>
      intro hlife
      have hg := hi.gone hlife
      obtain rfl := zero_of_free hg hfree
      exact hg.removals f (mem_of_head hb) ht
  | removeConnection l =>
    cases hr
    intro hlife
    have hg := hi.gone hlife
    cases Server.ready_of_enabled h with
    | removeConnection hfree h0 =>
      obtain rfl := zero_of_free hg hfree
      rcases hg.frame with hf | ⟨c, hf⟩ <;> simp [hf] at h0
  | erase =>
    cases hr
    intro hlife
    cases Server.ready_of_enabled h with
    | erase _ h0 => rcases (hi.gone hlife).frame with hf | ⟨c, hf⟩ <;> simp [hf] at h0
  | pushDestory =>
    cases hr
    intro hlife
    cases Server.ready_of_enabled h with
    | pushDestory _ h0 => rcases (hi.gone hlife).frame with hf | ⟨c, hf⟩ <;> simp [hf] at h0
  | _ => cases hr

theorem destroyed_step (hlife : s.life = .destroyed) (h : s.step e = some s') :
    s'.life = .destroyed := by
  have hs := Server.step_cases h
  have hready := hs.ready
  rw [hs.life]
  cases hready with
  | destroy _ hl | destroyNext hl | endDestroyNext hl => simp [hlife] at hl
  | destroyed => rfl
  | _ => exact hlife

instance (tr : List (Transition Server ServerEvent)) (r : Receiver) :
    Decidable (Destroyed tr r) :=
  match r with
  | .connection _ => inferInstanceAs (Decidable (∃ _ ∈ tr, _))
  | .server => inferInstanceAs (Decidable (∃ _ ∈ tr, _))

instance (s : Server) (c : ℕ) : Decidable (Unbound s c) :=
  inferInstanceAs (Decidable (∀ l ≤ s.threads, _ → ∀ f ∈ _, _))

instance (s : Server) : Decidable (Quiescent s) := inferInstanceAs (Decidable (_ ∧ _ ∧ _))

/-- A user sends and drops its pointer, the peer closes, the server is destroyed, each
after what came before has run. -/
def inTurn : List ServerEvent :=
  [.accept 1 7, .establish, .endAccept, .swap 1, .runFunctor 1 false, .copy 0, .dropFunctor 1,
    .send 0, .enqueue 0, .drop 0, .swap 1, .runFunctor 1 false, .dropFunctor 1, .dispatch 1 0,
    .handleClose 1, .removeConnection 1, .endClose 1, .endDispatch 1, .swap 0,
    .runFunctor 0 false, .erase, .pushDestory, .dropFunctor 0, .swap 1, .runFunctor 1 false,
    .dropFunctor 1, .destroy, .stop 1, .destroyed]

/-- A `send()` tests `state_`, the peer closes and the connection is torn down; then the
`sendInLoop` is queued and the user drops the last pointer before it runs. -/
def lateSend : List ServerEvent :=
  [.accept 1 7, .establish, .copy 0, .endAccept, .send 0, .dispatch 0 0, .handleClose 0,
    .removeConnection 0, .erase, .pushDestory, .endClose 0, .endDispatch 0, .swap 0,
    .runFunctor 0 false, .enqueue 0, .drop 0, .dropFunctor 0, .swap 0, .runFunctor 0 false]

/-- The peer closes, and the server is destroyed before the removal has run. -/
def lateRemoval : List ServerEvent :=
  [.accept 1 7, .establish, .endAccept, .swap 1, .runFunctor 1 false, .dropFunctor 1,
    .dispatch 1 0, .handleClose 1, .removeConnection 1, .endClose 1, .endDispatch 1, .destroy,
    .destroyNext 0, .endDestroyNext, .stop 1, .discard 1, .destroyed, .swap 0,
    .runFunctor 0 false]

end BareReceivers
end Armsy
