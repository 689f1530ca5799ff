import Armsy.Model.Dispatch
import Armsy.Proofs.SystemSpec

/-! How often a connection is closed, over every sequence of polls, dispatches and
queued functors. A mask with EPOLLHUP and without EPOLLIN runs the close callback
and, in the same dispatch, the read callback, which closes again on end of stream;
and a `sendInLoop` after the close that leaves bytes registers the descriptor anew. -/

namespace Armsy
namespace Dispatcher

variable {cfg : Config} {mem : Memory Byte} {d d' : Dispatcher} {ev : DispatchEvent}
  {e : Event} {tr : List (Transition Dispatcher DispatchEvent)}

/-- The loop has just established the connection and is not in a dispatch. -/
def start (cfg : Config) (mem : Memory Byte) : Dispatcher := ⟨System.up cfg mem, [], 0, 0⟩

/-- The mask runs the close callback. -/
def hangsUp (revents : Mask) : Bool :=
  (revents &&& EPOLLHUP).test && !(revents &&& EPOLLIN).test

/-- How often `close_callback_` has been called. -/
def closes (d : Dispatcher) : ℕ := d.sys.conn.log.count .closeCallback

/-- How often the connection callback has been called in the disconnected state. -/
def notices (d : Dispatcher) : ℕ := d.sys.conn.log.count (.connCallback false)

/-- The read callback does not meet end of stream in a dispatch that has run the
close callback, and `sendInLoop` leaves no bytes once `handleClose` has run. -/
structure Meets (τ : Transition Dispatcher DispatchEvent) : Prop where
  read : ∀ w junk, τ.event = .callback w (.delivered []) junk →
    τ.pre.remaining.head? = some .read → hangsUp τ.pre.sys.conn.channel.revents = false
  send : .closeCallback ∈ τ.pre.sys.conn.log → ∀ e, τ.pre.event τ.event = some e →
    ∀ data r junk, τ.pre.sys.op e = .sendInLoop data r junk →
      τ.pre.sys.conn.rest data r = []

/-- `handleClose` has not run. -/
structure Open (d : Dispatcher) : Prop where
  closes : d.closes = 0
  attached : d.sys.conn.Attached
  removals : d.removals + d.removed = 0
  noDestory : .connDestory ∉ d.sys.waiting

/-- `handleClose` has run once, and nothing can run it again. -/
structure Closed (d : Dispatcher) : Prop where
  closes : d.closes = 1
  detached : d.sys.conn.Detached
  state : d.sys.conn.state ≠ .connected
  removals : d.removals + d.removed = 1
  noClose : .close ∉ d.remaining
  read : .read ∈ d.remaining → hangsUp d.sys.conn.channel.revents = true

structure Inv (d : Dispatcher) : Prop where
  sound : d.sys.Sound
  established : d.sys.established = true
  handlers : d.remaining <:+ Channel.handleEventWithGuard d.sys.conn.channel.revents
  notices : d.notices = d.closes
  phase : Open d ∨ Closed d

theorem start_inv (cfg : Config) (mem : Memory Byte) : Inv (start cfg mem) where
  sound := System.up_sound cfg mem
  established := rfl
  handlers := List.nil_suffix
  notices := rfl
  phase := .inl
    { closes := rfl
      attached := TcpConnection.established_attached cfg
      removals := rfl
      noDestory := by
        simp [start, System.waiting, System.up, TcpConnection.established, BatchQueue.waiting,
          BatchQueue.empty] }

/-! ### The callbacks of a mask -/

/-- The place of a callback in a dispatch. -/
def place : Channel.Handler → ℕ
  | .close => 0
  | .error => 1
  | .read => 2
  | .write => 3

theorem handlers_ordered (revents : Mask) :
    (Channel.handleEventWithGuard revents).Pairwise fun a b => place a < place b := by
  unfold Channel.handleEventWithGuard
  split_ifs <;> simp [place]

theorem hangsUp_of_close {revents : Mask}
    (h : Channel.Handler.close ∈ Channel.handleEventWithGuard revents) :
    hangsUp revents = true := by
  unfold Channel.handleEventWithGuard at h
  change _ ∈ (if hangsUp revents then [Channel.Handler.close] else []) ++ _ ++ _ ++ _ at h
  by_contra hn
  rw [if_neg hn] at h
  split_ifs at h <;> simp at h

/-- What is left of a dispatch after one of its callbacks comes later in order. -/
theorem place_lt_of_tail {revents : Mask} {h a : Channel.Handler} {hs : List Channel.Handler}
    (hsuf : h :: hs <:+ Channel.handleEventWithGuard revents) (ha : a ∈ hs) :
    place h < place a :=
  (List.pairwise_cons.1 ((handlers_ordered revents).sublist hsuf.sublist)).1 a ha

theorem handleEvent_suffix (c : Channel) (tieAlive : Bool) :
    c.handleEvent tieAlive <:+ Channel.handleEventWithGuard c.revents := by
  unfold Channel.handleEvent
  split_ifs
  · exact List.suffix_rfl
  · exact List.nil_suffix
  · exact List.suffix_rfl

/-! ### The steps -/

/-- The callbacks that are left after an event. -/
def left (d : Dispatcher) : DispatchEvent → List Channel.Handler
  | .callback _ _ _ => d.remaining.tail
  | _ => d.remaining

theorem left_suffix (d : Dispatcher) (ev : DispatchEvent) : d.left ev <:+ d.remaining := by
  unfold left
  split
  · exact List.tail_suffix _
  · exact List.suffix_rfl

/-- A step that is no poll is a step of the connection's system. -/
structure Taken (d : Dispatcher) (ev : DispatchEvent) (e : Event) (d' : Dispatcher) : Prop where
  event : d.event ev = some e
  sys : d.sys.step e = some d'.sys
  remaining : d'.remaining = d.left ev
  removals : d'.removals + d'.removed = d.removals + d.removed + d.closing e

theorem event_cases (h : d.event ev = some e) :
    (∃ w r junk h hs, ev = .callback w r junk ∧ d.remaining = h :: hs ∧ e = h.event w r junk) ∨
      (ev = .other e ∧ d.interleaves e = true) ∨
      ev = .removeConnectionInLoop ∧ 0 < d.removals ∧ e = .pushDestory := by
  cases ev with
  | poll m alive => cases h
  | callback w r junk =>
    left
    cases hrem : d.remaining with
    | nil => simp [event, hrem] at h
    | cons hd hs =>
      simp only [event, hrem, List.head?_cons, Option.map_some, Option.some.injEq] at h
      exact ⟨w, r, junk, hd, hs, rfl, rfl, h.symm⟩
  | other e' =>
    simp only [event] at h
    split_ifs at h with hin
    cases h
    exact .inr (.inl ⟨rfl, hin⟩)
  | removeConnectionInLoop =>
    simp only [event] at h
    split_ifs at h with hpos
    cases h
    exact .inr (.inr ⟨rfl, hpos, rfl⟩)

theorem closing_of_interleaves (h : d.interleaves e = true) : d.closing e = 0 := by
  unfold closing
  rw [if_neg]
  intro hc
  rcases System.closes_op hc with rfl | ⟨_, rfl⟩ <;> cases h

/-- A poll hands out callbacks; every other event is a step of the system. -/
theorem step_cases (h : d.step ev = some d') :
    (∃ revents tieAlive, registered d.sys = true ∧ d.remaining = [] ∧
      d' = { d with
        sys := setRevents d.sys revents
        remaining := (setRevents d.sys revents).conn.channel.handleEvent tieAlive }) ∨
      ∃ e, Taken d ev e d' := by
  cases ev with
  | poll revents tieAlive =>
    left
    simp only [step, Option.ite_none_right_eq_some, Bool.and_eq_true, List.isEmpty_iff,
      Option.some.injEq] at h
    obtain ⟨⟨⟨⟨-, hrem⟩, hreg⟩, -⟩, rfl⟩ := h
    exact ⟨revents, tieAlive, hreg, hrem, rfl⟩
  | callback w r junk =>
    right
    simp only [step, Option.bind_eq_some_iff, Option.map_eq_some_iff] at h
    obtain ⟨e, he, s', hs, rfl⟩ := h
    exact ⟨e, he, hs, rfl, by simp only; omega⟩
  | other e' =>
    right
    simp only [step, Option.bind_eq_some_iff, Option.map_eq_some_iff] at h
    obtain ⟨e, he, s', hs, rfl⟩ := h
    refine ⟨e, he, hs, rfl, ?_⟩
    rcases event_cases he with ⟨_, _, _, _, _, hev, -⟩ | ⟨-, hin⟩ | ⟨hev, -⟩
    · cases hev
    · simp [closing_of_interleaves hin]
    · cases hev
  | removeConnectionInLoop =>
    right
    simp only [step, Option.bind_eq_some_iff, Option.map_eq_some_iff] at h
    obtain ⟨e, he, s', hs, rfl⟩ := h
    refine ⟨e, he, hs, rfl, ?_⟩
    rcases event_cases he with ⟨_, _, _, _, _, hev, -⟩ | ⟨hev, -⟩ | ⟨-, hpos, rfl⟩
    · cases hev
    · cases hev
    · have : d.closing .pushDestory = 0 := rfl
      simp only [this]
      omega

/-- An operation calls both callbacks once if it runs `handleClose`, and else neither. -/
theorem count_effects {c : TcpConnection} {o : Op} (ho : o.Silent)
    (hd : o = .connDestory → c.state ≠ .connected) :
    (c.effects o).count .closeCallback = (if o.closes then 1 else 0) ∧
      (c.effects o).count (.connCallback false) = if o.closes then 1 else 0 := by
  cases hc : o.closes with
  | true => rcases Op.eq_of_closes hc with rfl | ⟨junk, rfl⟩ <;> simp [TcpConnection.effects]
  | false =>
    constructor
    · apply List.count_eq_zero.2
      intro h
      cases TcpConnection.logs_of_mem ho h with
      | closeCallback h => simp [hc] at h
    · apply List.count_eq_zero.2
      intro h
      cases TcpConnection.logs_of_mem ho h with
      | down h =>
        rcases h with h | ⟨hop, hst⟩
        · simp [hc] at h
        · exact hd hop hst

theorem Taken.stepped (ht : Taken d ev e d') : System.Stepped d.sys e d'.sys :=
  System.step_cases ht.sys

/-- `connDestory` is run by a queued functor only. -/
theorem Taken.connDestory (ht : Taken d ev e d') (ho : d.sys.op e = .connDestory) :
    .connDestory ∈ d.sys.waiting := by
  rcases System.op_cases d.sys e with ⟨f, r, junk, hf, hmem⟩ | hown
  · rw [ho] at hf
    cases f with
    | connDestory =>
      rcases hmem with hmem | ⟨t, hb⟩
      · exact hmem
      · rcases System.boundFunctor_cases hb with ⟨_, _, -, hf'⟩ | ⟨-, hf'⟩ <;> cases hf'
    | _ => cases hf
  · rw [ho] at hown
    have he : e = .connDestory := by
      cases e <;> first | rfl | cases hown
    subst he
    rcases event_cases ht.event with ⟨w, r, junk, hd, hs, -, -, he⟩ | ⟨-, hin⟩ | ⟨-, -, he⟩
    · cases hd <;> cases he
    · cases hin
    · cases he

theorem Taken.counts (ht : Taken d ev e d') (hi : Inv d)
    (hd : d.sys.op e = .connDestory → d.sys.conn.state ≠ .connected) :
    d'.closes = d.closes + d.closing e ∧ d'.notices = d.notices + d.closing e := by
  have hlog := ht.stepped.log hi.sound.wellIndexed
  obtain ⟨h1, h2⟩ := count_effects (System.silent_op d.sys e) hd
  unfold closes notices closing
  rw [hlog, List.count_append, List.count_append, h1, h2]
  exact ⟨rfl, rfl⟩

/-- The step runs `handleClose` out of the next callback of the dispatch. -/
theorem closing_callback (ht : Taken d ev e d') (hc : (d.sys.op e).closes = true) :
    ∃ w r junk h, ev = .callback w r junk ∧ d.remaining = h :: d'.remaining ∧
      (h = .close ∨ h = .read ∧ r = .delivered []) := by
  rcases event_cases ht.event with ⟨w, r, junk, h, hs, rfl, hrem, rfl⟩ | ⟨-, hin⟩ | ⟨-, -, rfl⟩
  · refine ⟨w, r, junk, h, rfl, ?_, ?_⟩
    · rw [ht.remaining, left, hrem]
      rfl
    · rcases System.closes_op hc with he | ⟨_, he⟩
      · cases h with
        | close => exact .inl rfl
        | _ => cases he
      · cases h with
        | read =>
          refine .inr ⟨rfl, ?_⟩
          injection he
        | _ => cases he
  · rcases System.closes_op hc with rfl | ⟨_, rfl⟩ <;> cases hin
  · cases hc

/-- A poll leaves everything but the mask and the callbacks as it was; it cannot
reach a connection that is closed. -/
theorem poll_inv (hi : Inv d) (hreg : registered d.sys = true) (revents : Mask)
    (tieAlive : Bool) : Inv { d with
      sys := setRevents d.sys revents
      remaining := (setRevents d.sys revents).conn.channel.handleEvent tieAlive } := by
  refine ⟨⟨hi.sound.wellIndexed, hi.sound.connecting, hi.sound.up⟩, hi.established,
    handleEvent_suffix _ _, hi.notices, ?_⟩
  rcases hi.phase with ⟨hc, ha, hrem, hno⟩ | ⟨-, hd, -⟩
  · exact .inl ⟨hc, ⟨ha.added, ha.reading, ha.kernel⟩, hrem, hno⟩
  · rw [registered, hd.kernel] at hreg
    cases hreg

theorem Taken.connDestory_not_waiting (ht : Taken d ev e d') (hi : Inv d) (ho : Open d) :
    .connDestory ∉ d'.sys.waiting := by
  have hs := ht.stepped
  intro hmem
  rcases hs.waiting_cases hi.sound.wellIndexed (by simp [Functor.IsNotice]) hmem with hold | hnew
  · exact ho.noDestory hold
  · rcases System.queued_cases hnew with ⟨n, hb⟩ | ⟨rfl, -⟩
    · rcases System.boundFunctor_cases hb with ⟨_, _, -, hf⟩ | ⟨-, hf⟩ <;> cases hf
    · rcases event_cases ht.event with ⟨w, r, junk, h, hs, -, -, he⟩ | ⟨-, hin⟩ | ⟨-, hpos, -⟩
      · cases h <;> cases he
      · cases hin
      · have := ho.removals
        omega

theorem Taken.handlers (ht : Taken d ev e d') (hi : Inv d)
    (hr : d'.sys.conn.channel.revents = d.sys.conn.channel.revents) :
    d'.remaining <:+ Channel.handleEventWithGuard d'.sys.conn.channel.revents := by
  rw [hr, ht.remaining]
  exact (left_suffix d ev).trans hi.handlers

/-- The first `handleClose` takes the connection out of the kernel's reach. -/
theorem open_close (hi : Inv d) (ho : Open d) (ht : Taken d ev e d')
    (hc : (d.sys.op e).closes = true) :
    Closed d' ∧ d'.sys.conn.channel.revents = d.sys.conn.channel.revents := by
  have hs := ht.stepped
  have hne : d.sys.op e ≠ .connDestory := fun hd => ho.noDestory (ht.connDestory hd)
  have hclosing : d.closing e = 1 := if_pos hc
  obtain ⟨hdet, hrev⟩ := (ho.attached.of_wires (System.front_wires d.sys e).symm).close
    (System.front_wellIndexed hi.sound.wellIndexed e) hs.exec hc
  rw [System.front_channel] at hrev
  obtain ⟨w, r, junk, h, -, hrem, hh⟩ := closing_callback ht hc
  have hsuf := hi.handlers
  rw [hrem] at hsuf
  have later {a : Channel.Handler} (ha : a ∈ d'.remaining) : place h < place a :=
    place_lt_of_tail hsuf ha
  refine ⟨⟨?_, hdet, ?_, ?_, ?_, ?_⟩, hrev⟩
  · rw [(ht.counts hi fun hd => absurd hd hne).1, ho.closes, hclosing]
  · rw [hs.state hi.sound.wellIndexed]
    intro hst
    rw [Op.connected_stateAfter_iff (ht.stepped.op_ne_connEstablish hi.established)] at hst
    simp [Op.leaves, hc] at hst
  · rw [ht.removals, ho.removals, hclosing]
  · intro hmem
    have := later hmem
    simp [place] at this
  · intro hmem
    rw [hrev]
    rcases hh with rfl | ⟨rfl, -⟩
    · exact hangsUp_of_close (hsuf.subset (List.mem_cons_self ..))
    · have := later hmem
      omega

theorem open_step (hi : Inv d) (ho : Open d) (ht : Taken d ev e d')
    (hc : (d.sys.op e).closes = false) :
    Open d' ∧ d'.sys.conn.channel.revents = d.sys.conn.channel.revents := by
  have hne : d.sys.op e ≠ .connDestory := fun hd => ho.noDestory (ht.connDestory hd)
  have hclosing : d.closing e = 0 := if_neg (by simp [hc])
  obtain ⟨hatt, hrev⟩ := (ho.attached.of_wires (System.front_wires d.sys e).symm).exec
    (System.front_wellIndexed hi.sound.wellIndexed e) ht.stepped.exec hc hne
    (ht.stepped.op_ne_connEstablish hi.established)
  rw [System.front_channel] at hrev
  refine ⟨⟨?_, hatt, ?_, ht.connDestory_not_waiting hi ho⟩, hrev⟩
  · rw [(ht.counts hi fun hd => absurd hd hne).1, ho.closes, hclosing]
  · rw [ht.removals, ho.removals, hclosing]

theorem closed_step (hi : Inv d) (ho : Closed d) (ht : Taken d ev e d')
    (hm : Meets ⟨d, ev, d'⟩) :
    Closed d' ∧ d'.sys.conn.channel.revents = d.sys.conn.channel.revents := by
  have hs := ht.stepped
  have hlog : .closeCallback ∈ d.sys.conn.log := by
    rw [← List.count_pos_iff]
    exact (ho.closes ▸ Nat.one_pos : 0 < d.closes)
  have hc : (d.sys.op e).closes = false := by
    by_contra hc
    obtain ⟨w, r, junk, h, rfl, hrem, rfl | ⟨rfl, rfl⟩⟩ :=
      closing_callback ht (by simpa using hc)
    · exact ho.noClose (by simp [hrem])
    · have hup := ho.read (by simp [hrem])
      rw [hm.read w junk rfl (by simp [hrem])] at hup
      cases hup
  have hclosing : d.closing e = 0 := if_neg (by simp [hc])
  have hne := hs.op_ne_connEstablish hi.established
  obtain ⟨hdet, hrev⟩ := (ho.detached.of_wires (System.front_wires d.sys e).symm).exec
    (System.front_wellIndexed hi.sound.wellIndexed e) hs.exec hc hne (by simpa using ho.state)
    fun data r junk hop => by
      rw [System.front_rest]
      exact hm.send hlog e ht.event data r junk hop
  rw [System.front_channel] at hrev
  have hsub : ∀ a ∈ d'.remaining, a ∈ d.remaining := by
    rw [ht.remaining]
    exact fun a ha => (left_suffix d ev).subset ha
  refine ⟨⟨?_, hdet, ?_, ?_, fun hmem => ho.noClose (hsub _ hmem), fun hmem => ?_⟩, hrev⟩
  · rw [(ht.counts hi fun _ => ho.state).1, ho.closes, hclosing]
  · rw [hs.state hi.sound.wellIndexed, ne_eq, Op.connected_stateAfter_iff hne]
    exact fun h => ho.state h.1
  · rw [ht.removals, ho.removals, hclosing]
  · rw [hrev]
    exact ho.read (hsub _ hmem)

theorem step_inv (hi : Inv d) (h : d.step ev = some d') (hm : Meets ⟨d, ev, d'⟩) : Inv d' := by
  rcases step_cases h with ⟨revents, tieAlive, hreg, -, rfl⟩ | ⟨e, ht⟩
  · exact poll_inv hi hreg revents tieAlive
  have hs := ht.stepped
  have hd : d.sys.op e = .connDestory → d.sys.conn.state ≠ .connected := by
    intro hd
    rcases hi.phase with ho | ho
    · exact absurd (ht.connDestory hd) ho.noDestory
    · exact ho.state
  have hphase : (Open d' ∨ Closed d') ∧
      d'.sys.conn.channel.revents = d.sys.conn.channel.revents := by
    rcases hi.phase with ho | ho
    · cases hc : (d.sys.op e).closes with
      | true => exact (open_close hi ho ht hc).imp_left .inr
      | false => exact (open_step hi ho ht hc).imp_left .inl
    · exact (closed_step hi ho ht hm).imp_left .inr
  refine ⟨System.step_sound hi.sound ht.sys, by simp [hs.established, hi.established],
    ht.handlers hi hphase.2, ?_, hphase.1⟩
  rw [(ht.counts hi hd).1, (ht.counts hi hd).2, hi.notices]

/-- In every run whose steps meet the condition the connection is closed at most once:
one down notification, one call of `close_callback_`, one `removeConnectionInLoop`. -/
theorem closed_at_most_once (h : Run step (start cfg mem) tr d) (hm : ∀ τ ∈ tr, Meets τ) :
    d.notices ≤ 1 ∧ d.closes ≤ 1 ∧ d.removed ≤ 1 := by
  have hi : Inv d := h.invariant_of (start_inv cfg mem) (fun _ _ _ => step_inv) hm
  rw [hi.notices]
  rcases hi.phase with ho | ho
  · have := ho.closes
    have := ho.removals
    omega
  · have := ho.closes
    have := ho.removals
    omega

/-- End of stream under EPOLLIN: one close, one removal, and `connDestory`. -/
theorem closed_at_most_once_eof : ∃ tr d, Run step (start .sample fun _ => 0) tr d ∧
    tr.map Transition.event = [.poll EPOLLIN true, .callback (.wrote 0) (.delivered []) [],
      .removeConnectionInLoop, .other .swap, .other (.runFunctor (.wrote 0) [])] ∧
    d.closes = 1 ∧ d.notices ≤ 1 ∧ d.closes ≤ 1 ∧ d.removed ≤ 1 := by
  obtain ⟨tr, d, hr, he, hc, hp⟩ := exists_run step (start .sample fun _ => 0)
    [.poll EPOLLIN true, .callback (.wrote 0) (.delivered []) [], .removeConnectionInLoop,
      .other .swap, .other (.runFunctor (.wrote 0) [])]
    (P := fun tr d => d.closes = 1 ∧
      ∀ τ ∈ tr, (τ.pre.remaining.head? = some .read →
          hangsUp τ.pre.sys.conn.channel.revents = false) ∧
        (τ.pre.event τ.event).all (fun e => !(τ.pre.sys.op e).sends) = true) (by decide +kernel)
  refine ⟨tr, d, hr, he, hc, closed_at_most_once hr fun τ hτ => ⟨fun _ _ _ => (hp τ hτ).1, ?_⟩⟩
  intro _ e hev data r junk hop
  have := (hp τ hτ).2
  rw [hev] at this
  simp [hop, Op.sends] at this

/-- EPOLLHUP alone, and then a `readv` that returns 0: closed twice, removed twice. -/
theorem hangup_closes_twice : ∃ tr d, Run step (start .sample fun _ => 0) tr d ∧
    tr.map Transition.event = [.poll EPOLLHUP true, .callback (.wrote 0) (.failed .EWOULDBLOCK) [],
      .callback (.wrote 0) (.delivered []) [], .removeConnectionInLoop, .removeConnectionInLoop] ∧
    d.notices = 2 ∧ d.closes = 2 ∧ d.removed = 2 :=
  exists_run _ _ _ (by decide +kernel)

end Dispatcher
end Armsy
