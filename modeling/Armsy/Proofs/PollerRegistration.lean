import Armsy.Proofs.PollerSpec

/-! The three records of a registration, `state_` and `events_` of the channel,
`channels_` of the poller and the kernel's interest set, agree in every state that
the calls on any number of channels lead to, and no `epoll_ctl` fails on the way. -/

namespace Armsy
namespace ChannelSet

variable {ι : Type*} {k : Sockets ι} {s s' : ChannelSet ι} {i : ι} {op : ChannelOp}

/-- The records of channel `i` agree. -/
structure Registered (s : ChannelSet ι) (i : ι) : Prop where
  added : (s.channel i).state = .added ↔ (s.poller.kernel (s.channel i).fd).isSome = true
  entry : (s.channel i).state = .added →
    s.poller.kernel (s.channel i).fd = some ((s.channel i).events, (s.channel i).self)
  exists_iff : s.poller.isChannelExist (s.channel i) = true ↔ (s.channel i).state ≠ .initialized

structure Inv (k : Sockets ι) (s : ChannelSet ι) : Prop where
  self : ∀ i, (s.channel i).self = k.self i
  fd : ∀ i, (s.channel i).fd = k.fd i
  registered : ∀ i, Registered s i

theorem init_inv (k : Sockets ι) : Inv k (init k) where
  self := fun _ => rfl
  fd := fun _ => rfl
  registered := fun i => ⟨by simp [init, Channel.new, EpollPoller.empty],
    by simp [init, Channel.new], by simp [init, Channel.new, EpollPoller.isChannelExist,
      EpollPoller.empty]⟩

/-- `channels_` after a call on a channel whose records agree. -/
def mapped (op : ChannelOp) (c : Channel) (p : EpollPoller) : ℕ → Option ℕ :=
  if op = .remove then Function.update p.channels c.fd none
  else if c.state = .initialized then Function.update p.channels c.fd (some c.self)
  else p.channels

/-- The kernel's entry for the descriptor after such a call. -/
def watched (op : ChannelOp) (c : Channel) : Option (Mask × ℕ) :=
  if op = .remove then none else { c with events := op.events c.events }.watch

/-- The channel after such a call. -/
def called (op : ChannelOp) (c : Channel) : Channel :=
  if op = .remove then { c with state := .initialized }
  else
    let c := { c with events := op.events c.events }
    { c with state := c.updated }

/-- A call on any channel writes `channels_`, makes the `epoll_ctl` that it asks for, if any,
and leaves the channel in its new state. -/
theorem run_eq_request (op : ChannelOp) (c : Channel) (p : EpollPoller) : op.run c p =
    (match op.request c with
      | some (o, c') => EpollPoller.update { p with channels := mapped op c p } o c'
      | none => some { p with channels := mapped op c p }).map (·, called op c) := by
  cases op with
  | remove =>
    refine (EpollPoller.removeChannel_eq_request p c).trans ?_
    simp only [ChannelOp.request, mapped, called]
    cases EpollPoller.removeRequest c <;> rfl
  | _ => exact EpollPoller.updateChannel_eq_request p { c with events := _ }

/-- What a call does when the kernel watches the channel exactly in its added state. -/
theorem run_eq {c : Channel} {p : EpollPoller}
    (h : c.state = .added ↔ (p.kernel c.fd).isSome = true) (op : ChannelOp) :
    op.run c p = some
      ({ channels := mapped op c p, kernel := Function.update p.kernel c.fd (watched op c) },
        called op c) := by
  cases op with
  | remove => exact EpollPoller.removeChannel_eq h
  | _ => exact EpollPoller.updateChannel_eq (c := { c with events := _ }) h

@[simp] theorem called_self (op : ChannelOp) (c : Channel) : (called op c).self = c.self := by
  unfold called
  split_ifs <;> rfl

@[simp] theorem called_fd (op : ChannelOp) (c : Channel) : (called op c).fd = c.fd := by
  unfold called
  split_ifs <;> rfl

theorem watched_eq (op : ChannelOp) (c : Channel) : watched op c =
    if (called op c).state = .added then some ((called op c).events, c.self) else none := by
  unfold watched called
  split_ifs with hr
  · simp_all
  · rfl
  · simp_all [Channel.watch, Channel.updated]
  · simp_all [Channel.watch, Channel.updated]

theorem mapped_of_ne {c : Channel} {p : EpollPoller} {fd : ℕ} (h : fd ≠ c.fd) :
    mapped op c p fd = p.channels fd := by
  unfold mapped
  split_ifs <;> simp [h]

theorem mapped_self {c : Channel} {p : EpollPoller}
    (h : p.isChannelExist c = true ↔ c.state ≠ .initialized) :
    mapped op c p c.fd = some c.self ↔ (called op c).state ≠ .initialized := by
  simp only [EpollPoller.isChannelExist, decide_eq_true_eq] at h
  unfold mapped called
  split_ifs with hr hs
  · simp
  · simp [Channel.updated_ne_initialized]
  · simp [Channel.updated_ne_initialized, h, hs]

/-- The records agree after a call. -/
theorem Registered.of_called (op : ChannelOp) {c : Channel} {p : EpollPoller}
    (h : p.isChannelExist c = true ↔ c.state ≠ .initialized) (hc : s.channel i = called op c)
    (hk : s.poller.kernel c.fd = watched op c) (hm : s.poller.channels = mapped op c p) :
    Registered s i := by
  rw [watched_eq] at hk
  refine ⟨?_, ?_, ?_⟩
  · rw [hc, called_fd, hk]
    split_ifs with hs <;> simp [hs]
  · intro hs
    rw [hc] at hs ⊢
    rw [called_fd, called_self, hk, if_pos hs]
  · rw [EpollPoller.isChannelExist, decide_eq_true_eq, hc, called_fd, called_self, hm,
      mapped_self h]

/-- They agree where nothing about the channel and its descriptor has changed. -/
theorem Registered.congr (h : Registered s i) (hc : s'.channel i = s.channel i)
    (hk : s'.poller.kernel (s.channel i).fd = s.poller.kernel (s.channel i).fd)
    (hm : s'.poller.channels (s.channel i).fd = s.poller.channels (s.channel i).fd) :
    Registered s' i := by
  obtain ⟨hadd, hent, hex⟩ := h
  refine ⟨by rw [hc, hk]; exact hadd, by rw [hc, hk]; exact hent, ?_⟩
  rw [hc, EpollPoller.isChannelExist, hm]
  exact hex

variable [DecidableEq ι]

theorem Inv.step_eq (h : Inv k s) (i : ι) (op : ChannelOp) : s.step (i, op) = some
    { poller :=
        { channels := mapped op (s.channel i) s.poller
          kernel := Function.update s.poller.kernel (s.channel i).fd (watched op (s.channel i)) }
      channel := Function.update s.channel i (called op (s.channel i)) } := by
  simp [step, run_eq (h.registered i).added op]

theorem Inv.step_channel (h : Inv k s) (hs : s.step (i, op) = some s') :
    s'.channel i = called op (s.channel i) := by
  rw [h.step_eq, Option.some.injEq] at hs
  subst hs
  exact Function.update_self ..

theorem step_inv (h : Inv k s) (hs : s.step (i, op) = some s') : Inv k s' := by
  rw [h.step_eq, Option.some.injEq] at hs
  subst hs
  have hself (j : ι) :
      (Function.update s.channel i (called op (s.channel i)) j).self = k.self j := by
    by_cases hj : j = i
    · subst hj
      simp [h.self]
    · simp [hj, h.self]
  have hfd (j : ι) : (Function.update s.channel i (called op (s.channel i)) j).fd = k.fd j := by
    by_cases hj : j = i
    · subst hj
      simp [h.fd]
    · simp [hj, h.fd]
  refine ⟨hself, hfd, fun j => ?_⟩
  by_cases hj : j = i
  · subst hj
    exact .of_called op (h.registered j).exists_iff (by simp) (by simp) rfl
  · have hne : k.fd j ≠ k.fd i := fun he => hj (k.fd_injective he)
    apply (h.registered j).congr (by simp [hj])
    · simp [h.fd, hne]
    · simp only [h.fd]
      exact mapped_of_ne (by rwa [h.fd])

/-- A call whose `epoll_ctl` does not fail does not exit. -/
theorem step_ne_none (h : ∀ o c, op.request (s.channel i) = some (o, c) →
    s.poller.epollCtl o c ≠ none) : s.step (i, op) ≠ none := by
  simp only [step, run_eq_request, ne_eq, Option.map_eq_none_iff]
  cases hr : op.request (s.channel i) with
  | none => simp
  | some r =>
    have hk : EpollPoller.epollCtl { s.poller with channels := mapped op (s.channel i) s.poller }
        r.1 r.2 ≠ none := EpollPoller.epollCtl_channels _ (h _ _ hr)
    exact EpollPoller.update_ne_none hk

/-- In every state that the calls lead to, the records of every channel agree, and
no further call makes an `epoll_ctl` that fails, or exits. -/
theorem registration_invariant {tr : List (Transition (ChannelSet ι) (ι × ChannelOp))}
    (h : Run ChannelSet.step (init k) tr s) :
    (∀ i, Registered s i) ∧ ∀ i (op : ChannelOp),
      (∀ o c, op.request (s.channel i) = some (o, c) → s.poller.epollCtl o c ≠ none) ∧
      s.step (i, op) ≠ none := by
  have hi : Inv k s := h.invariant (init_inv k) fun _ _ _ => step_inv
  refine ⟨hi.registered, fun i op => ?_⟩
  have hctl (o : EpollOp) (c : Channel) (hr : op.request (s.channel i) = some (o, c)) :
      s.poller.epollCtl o c ≠ none :=
    EpollPoller.epollCtl_ne_none (hi.registered i).added hr
  exact ⟨hctl, step_ne_none hctl⟩

/-- Two channels, a call each in turn: one is re-added after its removal. -/
theorem registration_invariant_readded : ∃ tr s,
    Run ChannelSet.step (init ⟨fun b : Bool => b.toNat, fun b => b.toNat + 3, by decide⟩) tr s ∧
    tr.map Transition.event = [(true, .enableReadEvent), (false, .disableWriteEvent),
      (true, .remove), (false, .disableAllEvent), (true, .enableWriteEvent)] ∧
    ((s.channel true).state = .added ∧ (s.poller.kernel 4) = some (kReadable ||| kWritable, 1)) ∧
    (∀ i, Registered s i) ∧ ∀ i (op : ChannelOp),
      (∀ o c, op.request (s.channel i) = some (o, c) → s.poller.epollCtl o c ≠ none) ∧
      s.step (i, op) ≠ none := by
  obtain ⟨tr, s, hr, he, hs⟩ := exists_run ChannelSet.step
    (init ⟨fun b : Bool => b.toNat, fun b => b.toNat + 3, by decide⟩)
    [(true, .enableReadEvent), (false, .disableWriteEvent), (true, .remove),
      (false, .disableAllEvent), (true, .enableWriteEvent)]
    (P := fun _ s => (s.channel true).state = .added ∧
      (s.poller.kernel 4) = some (kReadable ||| kWritable, 1)) (by decide)
  exact ⟨tr, s, hr, he, hs, registration_invariant hr⟩

end ChannelSet
end Armsy
