import Armsy.Lib.Slots
import Armsy.Model.Registry
import Armsy.Proofs.PollerRegistration

/-! What the pollers record of the channels that are open: the kernel's interest sets and
`channels_` are tables whose keys, a loop and a descriptor, are used again. -/

namespace Armsy

/-- What the kernel should have for the descriptor. -/
def Channel.entry (c : Channel) : Option (Mask × ℕ) :=
  if c.state = .added then some (c.events, c.self) else none

/-- What `channels_` should have for the descriptor. -/
def Channel.address (c : Channel) : Option ℕ :=
  if c.state = .initialized then none else some c.self

namespace Registry

open ChannelSet (called mapped watched called_fd called_self run_eq)

variable {ι : Type*} {r r' : Registry ι} {live live' : Set ι} {home home' : ι → ℕ} {i : ι}
  {l : ℕ} {op : ChannelOp} {ch : Channel}

/-- Under which keys the pollers record the channels. -/
def key (r : Registry ι) (home : ι → ℕ) (i : ι) : ℕ × ℕ := (home i, (r.channel i).fd)

def kernel (r : Registry ι) (k : ℕ × ℕ) : Option (Mask × ℕ) := (r.poller k.1).kernel k.2

def channels (r : Registry ι) (k : ℕ × ℕ) : Option ℕ := (r.poller k.1).channels k.2

/-- The kernel watches exactly those of the channels that are registered, each with its own
events and address, and no two of them have one descriptor. -/
structure Watched (live : Set ι) (home : ι → ℕ) (r : Registry ι) : Prop where
  distinct : Set.InjOn (fun i => (r.channel i).fd) live
  kernel : Slots.Holds live (r.key home) (fun i => (r.channel i).entry) r.kernel

/-- `channels_` has exactly the open channels that have been registered and not removed. -/
def Mapped (live : Set ι) (home : ι → ℕ) (r : Registry ι) : Prop :=
  Slots.Holds live (r.key home) (fun i => (r.channel i).address) r.channels

theorem Watched.key_injOn (h : Watched live home r) : Set.InjOn (r.key home) live := by
  intro i hi j hj hij
  exact h.distinct hi hj (Prod.ext_iff.1 hij).2

theorem Watched.added_iff (h : Watched live home r) (hi : i ∈ live) :
    (r.channel i).state = .added ↔
      ((r.poller (home i)).kernel (r.channel i).fd).isSome = true := by
  have he : (r.poller (home i)).kernel (r.channel i).fd = (r.channel i).entry :=
    h.kernel.entry_eq i hi
  rw [he, Channel.entry]
  split_ifs with hs <;> simp [hs]

/-! ### Channels that go -/

/-- Channels go and their descriptors are closed, with those of others that no poller has. -/
theorem Watched.close (h : Watched live home r) (hsub : live' ⊆ live) {fds : List ℕ}
    (hkept : ∀ i ∈ live', (r.channel i).fd ∉ fds)
    (hgone : ∀ i ∈ live, i ∉ live' → (r.channel i).fd ∈ fds) :
    Watched live' home (r.close fds) where
  distinct := h.distinct.mono hsub
  kernel := h.kernel.drop hsub (fun k => k.2 ∈ fds) hkept hgone

theorem release_kernel (r : Registry ι) (l : ℕ) :
    (r.release l).kernel = fun k => if k.1 = l then none else r.kernel k := by
  funext ⟨m, fd⟩
  by_cases hm : m = l
  · subst hm
    simp [kernel, release, EpollPoller.empty]
  · simp [kernel, release, hm]

/-- A poller goes, and its loop has no channels left that count. -/
theorem Watched.release (h : Watched live home r) (l : ℕ) :
    Watched {i ∈ live | home i ≠ l} home (r.release l) where
  distinct := h.distinct.mono fun _ hi => hi.1
  kernel := by
    rw [release_kernel]
    refine h.kernel.drop (fun _ hi => hi.1) (fun k => k.1 = l) (fun i hi => hi.2) ?_
    intro i hi hi'
    by_contra hne
    exact hi' ⟨hi, hne⟩

/-- Channels go that have been removed from their pollers before. -/
theorem Mapped.close (h : Mapped live home r) (hsub : live' ⊆ live) (fds : List ℕ)
    (hgone : ∀ i ∈ live, i ∉ live' → (r.channel i).state = .initialized) :
    Mapped live' home (r.close fds) :=
  Slots.Holds.retire h hsub fun i hi hi' => if_pos (hgone i hi hi')

/-- Only the loops of open channels matter. -/
theorem Watched.rehome (h : Watched live home r) (hh : ∀ j ∈ live, home' j = home j) :
    Watched live home' r :=
  ⟨h.distinct, h.kernel.congr (fun j hj => by simp [key, hh j hj]) fun _ _ => rfl⟩

theorem Mapped.rehome (h : Mapped live home r) (hh : ∀ j ∈ live, home' j = home j) :
    Mapped live home' r :=
  Slots.Holds.congr h (fun j hj => by simp [key, hh j hj]) fun _ _ => rfl

/-! ### A call -/

theorem watched_eq_entry (op : ChannelOp) (c : Channel) : watched op c = (called op c).entry := by
  rw [ChannelSet.watched_eq, Channel.entry, called_self]

theorem called_address (op : ChannelOp) (c : Channel) :
    (called op c).address = if op = .remove then none else some c.self := by
  by_cases hr : op = .remove
  · simp [called, Channel.address, hr]
  · simp [called, Channel.address, hr, Channel.updated_ne_initialized]

theorem mapped_eq {c : Channel} {p : EpollPoller} (h : p.channels c.fd = c.address) :
    mapped op c p = Function.update p.channels c.fd (called op c).address := by
  rw [called_address]
  unfold mapped
  split_ifs with hr hs
  · rfl
  · rfl
  · have hc : p.channels c.fd = some c.self := by rw [h, Channel.address, if_neg hs]
    rw [← hc, Function.update_eq_self]

variable [DecidableEq ι]

/-- The registry after a call on an open channel. -/
def after (r : Registry ι) (l : ℕ) (i : ι) (op : ChannelOp) : Registry ι where
  poller := Function.update r.poller l
    { channels := mapped op (r.channel i) (r.poller l)
      kernel := Function.update (r.poller l).kernel (r.channel i).fd (watched op (r.channel i)) }
  channel := Function.update r.channel i (called op (r.channel i))

theorem Watched.call_eq (h : Watched live home r) (hi : i ∈ live) (op : ChannelOp) :
    r.call (home i) i op = some (r.after (home i) i op) := by
  simp [call, run_eq (h.added_iff hi), after]

theorem after_key (home : ι → ℕ) (l : ℕ) (i : ι) (op : ChannelOp) :
    (r.after l i op).key home = r.key home := by
  funext j
  by_cases hj : j = i
  · subst hj
    simp [key, after]
  · simp [key, after, hj]

theorem after_kernel (l : ℕ) (i : ι) (op : ChannelOp) : (r.after l i op).kernel =
    Function.update r.kernel (l, (r.channel i).fd) (called op (r.channel i)).entry := by
  funext ⟨m, fd⟩
  by_cases hm : m = l
  · subst hm
    by_cases hfd : fd = (r.channel i).fd
    · subst hfd
      simp [kernel, after, watched_eq_entry]
    · simp [kernel, after, hfd]
  · simp [kernel, after, hm]

theorem after_channels {l : ℕ} {i : ι} (h : (r.poller l).channels (r.channel i).fd =
      (r.channel i).address) (op : ChannelOp) : (r.after l i op).channels =
    Function.update r.channels (l, (r.channel i).fd) (called op (r.channel i)).address := by
  funext ⟨m, fd⟩
  by_cases hm : m = l
  · subst hm
    by_cases hfd : fd = (r.channel i).fd
    · subst hfd
      simp [channels, after, mapped_eq h]
    · simp [channels, after, mapped_eq h, hfd]
  · simp [channels, after, hm]

theorem after_field {β : Type*} (g : Channel → β) (l : ℕ) (i : ι) (op : ChannelOp) :
    (fun j => g ((r.after l i op).channel j)) =
      Function.update (fun j => g (r.channel j)) i (g (called op (r.channel i))) := by
  funext j
  by_cases hj : j = i
  · subst hj
    simp [after]
  · simp [after, hj]

theorem Watched.after (h : Watched live home r) (hi : i ∈ live) (op : ChannelOp) :
    Watched live home (r.after (home i) i op) where
  distinct := by
    rw [after_field Channel.fd, called_fd, Function.update_eq_self]
    exact h.distinct
  kernel := by
    rw [after_key, after_kernel, after_field Channel.entry]
    exact h.kernel.write h.key_injOn hi _

theorem Mapped.after (hm : Mapped live home r) (h : Watched live home r) (hi : i ∈ live)
    (op : ChannelOp) : Mapped live home (r.after (home i) i op) := by
  have hc : (r.poller (home i)).channels (r.channel i).fd = (r.channel i).address :=
    hm.entry_eq i hi
  unfold Mapped
  rw [after_key, after_channels hc, after_field Channel.address]
  exact hm.write h.key_injOn hi _

/-- No `epoll_ctl` that the calls on channel `i` make fails, a DEL included. -/
def Succeeds (l : ℕ) (i : ι) : Registry ι → List ChannelOp → Prop
  | _, [] => True
  | r, op :: ops =>
    (∀ o c, op.request (r.channel i) = some (o, c) → (r.poller l).epollCtl o c ≠ none) ∧
      ∃ r', r.call l i op = some r' ∧ Succeeds l i r' ops

/-- Calls on an open channel never fail, and keep the tables. -/
theorem Watched.calls (h : Watched live home r) (hi : i ∈ live) (ops : List ChannelOp) :
    Succeeds (home i) i r ops ∧ ∃ r', r.calls (home i) i ops = some r' ∧ Watched live home r' ∧
      (Mapped live home r → Mapped live home r') ∧
      r'.channel = Function.update r.channel i
        (ops.foldl (fun c op => called op c) (r.channel i)) := by
  induction ops generalizing r with
  | nil => exact ⟨trivial, r, rfl, h, id, by simp⟩
  | cons op ops ih =>
    obtain ⟨hs, r', hr, hw, hm, hc⟩ := ih (h.after hi op)
    refine ⟨⟨fun o c => EpollPoller.epollCtl_ne_none (h.added_iff hi), _, h.call_eq hi op, hs⟩,
      r', ?_, hw, fun hm' => hm (hm'.after h hi op), ?_⟩
    · rw [Registry.calls, List.foldlM_cons, h.call_eq hi]
      exact hr
    · rw [hc]
      simp [Registry.after]

/-! ### Channels that change and come -/

theorem set_field {β : Type*} (g : Channel → β) (i : ι) (ch : Channel) :
    (fun j => g ((r.set i ch).channel j)) =
      Function.update (fun j => g (r.channel j)) i (g ch) := by
  funext j
  by_cases hj : j = i
  · subst hj
    simp [set]
  · simp [set, hj]

theorem set_key (home : ι → ℕ) (i : ι) (ch : Channel) :
    (r.set i ch).key home = Function.update (r.key home) i (home i, ch.fd) := by
  funext j
  by_cases hj : j = i
  · subst hj
    simp [key, set]
  · simp [key, set, hj]

/-- A channel changes in what the pollers do not see. -/
theorem Watched.set (h : Watched live home r) (hfd : ch.fd = (r.channel i).fd)
    (he : ch.entry = (r.channel i).entry) : Watched live home (r.set i ch) where
  distinct := by
    rw [set_field Channel.fd, hfd, Function.update_eq_self]
    exact h.distinct
  kernel := by
    rw [set_key, hfd, set_field Channel.entry, he, Function.update_eq_self]
    exact (Function.update_eq_self i (r.key home)).symm ▸ h.kernel

theorem Mapped.set (h : Mapped live home r) (hfd : ch.fd = (r.channel i).fd)
    (ha : ch.address = (r.channel i).address) : Mapped live home (r.set i ch) := by
  unfold Mapped
  rw [set_key, hfd, set_field Channel.address, ha, Function.update_eq_self]
  exact (Function.update_eq_self i (r.key home)).symm ▸ h

/-- A channel comes that has not been registered, with a descriptor that is not in use. -/
theorem Watched.enter (h : Watched live home r) (hi : i ∉ live)
    (hh : ∀ j ∈ live, home' j = home j) (hs : ch.state = .initialized)
    (hfd : ∀ j ∈ live, (r.channel j).fd ≠ ch.fd) :
    Watched (insert i live) home' (r.set i ch) where
  distinct := by
    have hne (j : ι) (hj : j ∈ live) : j ≠ i := fun he => hi (he ▸ hj)
    rw [Set.injOn_insert hi]
    refine ⟨?_, ?_⟩
    · intro j hj k hk hjk
      exact h.distinct hj hk (by simpa [Registry.set, hne j hj, hne k hk] using hjk)
    · rintro ⟨j, hj, he⟩
      exact hfd j hj (by simpa [Registry.set, hne j hj] using he)
  kernel := by
    have hk := (h.rehome hh).kernel
    rw [set_key, set_field Channel.entry, Channel.entry, hs]
    refine hk.enter hi fun j hj he => hfd j hj ?_
    exact (Prod.ext_iff.1 he).2

theorem Mapped.enter (h : Mapped live home r) (hi : i ∉ live)
    (hh : ∀ j ∈ live, home' j = home j) (hs : ch.state = .initialized)
    (hfd : ∀ j ∈ live, (r.channel j).fd ≠ ch.fd) :
    Mapped (insert i live) home' (r.set i ch) := by
  have hk := h.rehome hh
  unfold Mapped
  rw [set_key, set_field Channel.address, Channel.address, hs]
  refine Slots.Holds.enter hk hi fun j hj he => hfd j hj ?_
  exact (Prod.ext_iff.1 he).2

end Registry
end Armsy
