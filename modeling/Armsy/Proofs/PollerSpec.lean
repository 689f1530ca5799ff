import Armsy.Model.ChannelSet

/-! What `updateChannel` and `removeChannel` leave in the poller and the channel,
for a channel that the kernel watches exactly when its state is kChannelAdded:
no `epoll_ctl` fails then. -/

namespace Armsy

theorem Channel.updated_ne_initialized (c : Channel) : c.updated ≠ .initialized := by
  unfold updated
  split_ifs <;> simp

/-- What the kernel has for the descriptor after `updateChannel`. -/
def Channel.watch (c : Channel) : Option (Mask × ℕ) :=
  if c.state = .added ∧ c.isSilent = true then none else some (c.events, c.self)

namespace EpollPoller

variable {p : EpollPoller} {c : Channel}

theorem update_mod (hk : (p.kernel c.fd).isSome = true) :
    p.update .mod c = some (p.register c) := by
  simp [update, epollCtl, hk]

theorem update_del (hk : (p.kernel c.fd).isSome = true) : p.update .del c =
    some { p with kernel := Function.update p.kernel c.fd none } := by
  simp [update, epollCtl, hk]

/-- `updateChannel` is the `epoll_ctl` that it asks for, whatever the kernel says to it. -/
theorem updateChannel_eq_request (p : EpollPoller) (c : Channel) : p.updateChannel c =
    (EpollPoller.update
      { p with channels :=
          if c.state = .initialized then Function.update p.channels c.fd (some c.self)
          else p.channels }
      (updateRequest c) c).map (·, { c with state := c.updated }) := by
  unfold updateChannel updateRequest Channel.updated
  cases hs : c.state with
  | initialized | removed => simp [update, epollCtl, register]
  | added =>
    have hsame : { c with state := .added } = c := by rw [← hs]
    cases hq : c.isSilent with
    | true => simp
    | false => simp [hsame]

/-- So is `removeChannel`, where it makes one. -/
theorem removeChannel_eq_request (p : EpollPoller) (c : Channel) : p.removeChannel c =
    (match removeRequest c with
      | some o => EpollPoller.update
          { p with channels := Function.update p.channels c.fd none } o c
      | none => some { p with channels := Function.update p.channels c.fd none }).map
        (·, { c with state := .initialized }) := by
  unfold removeChannel removeRequest
  split_ifs <;> rfl

theorem updateChannel_eq (hk : c.state = .added ↔ (p.kernel c.fd).isSome = true) :
    p.updateChannel c = some
      ({ channels := if c.state = .initialized then Function.update p.channels c.fd (some c.self)
          else p.channels
         kernel := Function.update p.kernel c.fd c.watch },
        { c with state := c.updated }) := by
  have hnone (h : c.state ≠ .added) : p.kernel c.fd = none := by simpa [hk] using h
  unfold updateChannel
  cases hs : c.state with
  | initialized =>
    have hn := hnone (by simp [hs])
    simp [update, epollCtl, register, hn, Channel.updated, Channel.watch, hs]
  | removed =>
    have hn := hnone (by simp [hs])
    simp [update, epollCtl, register, hn, Channel.updated, Channel.watch, hs]
  | added =>
    have hk := hk.1 hs
    cases hq : c.isSilent with
    | true => simp [update_del hk, Channel.updated, Channel.watch, hs, hq]
    | false =>
      have hsame : c = { c with state := .added } := by rw [← hs]
      simp [update_mod hk, register, Channel.updated, Channel.watch, hs, hq, ← hsame]

theorem removeChannel_eq (hk : c.state = .added ↔ (p.kernel c.fd).isSome = true) :
    p.removeChannel c = some
      ({ channels := Function.update p.channels c.fd none
         kernel := Function.update p.kernel c.fd none },
        { c with state := .initialized }) := by
  unfold removeChannel
  by_cases hs : c.state = .added
  · simp [hs, update, epollCtl, hk.1 hs]
  · have hn : p.kernel c.fd = none := by simpa [hk] using hs
    simp [hs, ← hn]

/-- The `epoll_ctl` that a call asks for finds what it needs. -/
theorem epollCtl_ne_none (h : c.state = .added ↔ (p.kernel c.fd).isSome = true) {op : ChannelOp}
    {o : EpollOp} {c' : Channel} (hr : op.request c = some (o, c')) : p.epollCtl o c' ≠ none := by
  have update {m : Mask} (hr : some (updateRequest { c with events := m },
      { c with events := m }) = some (o, c')) : p.epollCtl o c' ≠ none := by
    cases hr
    unfold updateRequest
    cases hs : c.state with
    | initialized | removed =>
      have hn : p.kernel c.fd = none := by simpa [hs] using h
      simp [epollCtl, hn]
    | added =>
      have hk := h.1 hs
      simp only [reduceCtorEq, or_self, if_false]
      split_ifs <;> simp [epollCtl, hk]
  cases op with
  | remove =>
    simp only [ChannelOp.request, removeRequest, Option.map_eq_some_iff,
      Option.ite_none_right_eq_some, Prod.mk.injEq] at hr
    obtain ⟨_, ⟨hs, ho⟩, rfl, rfl⟩ := hr
    cases ho
    simp [epollCtl, h.1 hs]
  | _ => exact update hr

/-- `channels_` is nothing to the kernel. -/
theorem epollCtl_channels {o : EpollOp} (channels : ℕ → Option ℕ) (h : p.epollCtl o c ≠ none) :
    EpollPoller.epollCtl { p with channels := channels } o c ≠ none := by
  cases o <;> simpa [epollCtl] using h

/-- Without a failed `epoll_ctl` there is no exit. -/
theorem update_ne_none {o : EpollOp} (h : p.epollCtl o c ≠ none) : p.update o c ≠ none := by
  obtain ⟨p', hp⟩ := Option.ne_none_iff_exists'.1 h
  simp [update, hp]

end EpollPoller
end Armsy
