import Armsy.Proofs.PollerRegistration

/-! A channel whose mask is kNoneEvent should not be in the kernel's interest set.
`updateChannel` looks at `state_` before the mask, so a call that empties the mask
of a channel outside kChannelAdded registers it, with the empty mask. -/

namespace Armsy
namespace SilentChannel

open ChannelSet (init Inv called watched Registered)

variable {ι : Type*} {k : Sockets ι} {s s' : ChannelSet ι} {i : ι} {op : ChannelOp}

/-- A silent channel is not polled. -/
def Quiet (s : ChannelSet ι) (i : ι) : Prop :=
  (s.channel i).events = kNoneEvent → s.poller.kernel (s.channel i).fd = none

/-- A call that leaves the mask empty, other than `remove`, is made on a channel
in state kChannelAdded. -/
def Empties (τ : Transition (ChannelSet ι) (ι × ChannelOp)) : Prop :=
  τ.event.2 ≠ .remove →
    τ.event.2.events (τ.pre.channel τ.event.1).events = kNoneEvent →
      (τ.pre.channel τ.event.1).state = .added

@[simp] theorem called_events (op : ChannelOp) (c : Channel) :
    (called op c).events = op.events c.events := by
  unfold called
  split_ifs with hr
  · rw [hr]
    rfl
  · rfl

theorem isSilent_iff (c : Channel) : c.isSilent = true ↔ c.events = kNoneEvent := by
  simp [Channel.isSilent]

variable [DecidableEq ι]

/-- A call leaves its channel quiet exactly when it does not empty the mask of a
channel outside kChannelAdded. -/
theorem quiet_iff (h : Inv k s) (hs : s.step (i, op) = some s') :
    Quiet s' i ↔ Empties ⟨s, (i, op), s'⟩ := by
  rw [h.step_eq, Option.some.injEq] at hs
  subst hs
  simp only [Quiet, Empties, Function.update_self, called_events, ChannelSet.called_fd]
  by_cases hr : op = .remove
  · simp [hr, watched]
  · simp only [watched, hr, Channel.watch, isSilent_iff, if_false, ne_eq, not_false_eq_true,
      forall_true_left]
    apply imp_congr_right
    intro he
    simp [he]

/-- It leaves the other channels as they were. -/
theorem quiet_other (h : Inv k s) (hs : s.step (i, op) = some s') {j : ι} (hj : j ≠ i)
    (hq : Quiet s j) : Quiet s' j := by
  have hne : k.fd j ≠ k.fd i := fun he => hj (k.fd_injective he)
  rw [h.step_eq, Option.some.injEq] at hs
  subst hs
  simpa [Quiet, hj, h.fd, hne] using hq

/-- The same disabling call made twice in a row leaves what the first one left. -/
def Idempotent (tr : List (Transition (ChannelSet ι) (ι × ChannelOp))) : Prop :=
  ∀ tr₁ τ₁ τ₂ tr₂, tr = tr₁ ++ τ₁ :: τ₂ :: tr₂ → τ₂.event = τ₁.event →
    τ₁.event.2.disables = true → τ₂.post = τ₁.post

theorem events_events (h : op.disables = true) (m : Mask) :
    op.events (op.events m) = op.events m := by
  cases op with
  | disableReadEvent => simp [ChannelOp.events, BitVec.and_assoc]
  | disableWriteEvent => simp [ChannelOp.events, BitVec.and_assoc]
  | disableAllEvent => rfl
  | _ => cases h

theorem ne_remove_of_disables (h : op.disables = true) : op ≠ .remove := by
  rintro rfl
  cases h

/-- A call that keeps the non-empty mask of a registered channel changes nothing. -/
theorem step_same (h : Inv k s) (hr : op ≠ .remove) (hs : (s.channel i).state = .added)
    (he : op.events (s.channel i).events = (s.channel i).events)
    (hne : (s.channel i).events ≠ kNoneEvent) : s.step (i, op) = some s := by
  have hreg := h.registered i
  have hcalled : called op (s.channel i) = s.channel i := by
    have hsame : (s.channel i) = { s.channel i with state := .added } := by rw [← hs]
    simp [called, hr, he, Channel.updated, isSilent_iff, hne, ← hsame]
  have hwatched : watched op (s.channel i) = s.poller.kernel (s.channel i).fd := by
    rw [ChannelSet.watched_eq, hcalled, if_pos hs, hreg.entry hs]
  have hmapped : ChannelSet.mapped op (s.channel i) s.poller = s.poller.channels := by
    simp [ChannelSet.mapped, hr, hs]
  rw [h.step_eq, hcalled, hwatched, hmapped, Function.update_eq_self, Function.update_eq_self]

/-- Of two disabling calls in a row that both meet the condition, the second finds
a mask that is not empty, and the channel registered. -/
theorem disabled_again {s₁ s₂ : ChannelSet ι} (h : Inv k s) (hd : op.disables = true)
    (h₁ : s.step (i, op) = some s₁) (hc₁ : Empties ⟨s, (i, op), s₁⟩)
    (h₂ : s₁.step (i, op) = some s₂) (hc₂ : Empties ⟨s₁, (i, op), s₂⟩) : s₂ = s₁ := by
  have hr := ne_remove_of_disables hd
  have hi := ChannelSet.step_inv h h₁
  have hch := h.step_channel h₁
  have he : (s₁.channel i).events = op.events (s.channel i).events := by
    rw [hch, called_events]
  have hkeep : op.events (s₁.channel i).events = (s₁.channel i).events := by
    rw [he, events_events hd]
  have hstate : (s₁.channel i).state =
      if (s.channel i).state = .added ∧ (s₁.channel i).events = kNoneEvent then .removed
      else .added := by
    simp [hch, called, hr, Channel.updated, isSilent_iff]
  have hne : (s₁.channel i).events ≠ kNoneEvent := by
    intro h0
    have hadd : (s.channel i).state = .added := hc₁ hr (he ▸ h0)
    have hagain : (s₁.channel i).state = .added := hc₂ hr (hkeep.trans h0)
    rw [hstate, if_pos ⟨hadd, h0⟩] at hagain
    cases hagain
  have hst : (s₁.channel i).state = .added := by
    rw [hstate, if_neg fun hc => hne hc.2]
  have hsame := step_same hi hr hst hkeep hne
  rw [h₂, Option.some.injEq] at hsame
  exact hsame

/-- In a run of calls a silent channel is never in the interest set, and disabling
twice does what disabling once does, exactly when every call that empties a mask is
made on a channel in state kChannelAdded. -/
theorem silent_unpolled_iff {tr : List (Transition (ChannelSet ι) (ι × ChannelOp))}
    (h : Run ChannelSet.step (init k) tr s) :
    ((∀ τ ∈ tr, ∀ i, Quiet τ.post i) ∧ Idempotent tr) ↔ ∀ τ ∈ tr, Empties τ := by
  have hquiet : (∀ τ ∈ tr, ∀ i, Quiet τ.post i) ↔ ∀ τ ∈ tr, Empties τ := by
    refine h.forall_iff (I := fun s => Inv k s ∧ ∀ i, Quiet s i)
      ⟨ChannelSet.init_inv k, fun i _ => rfl⟩ ?_ ?_
    · rintro s ⟨i, op⟩ s' ⟨hi, hq⟩ hs
      rw [← quiet_iff hi hs]
      refine ⟨fun hall => hall i, fun hone j => ?_⟩
      by_cases hj : j = i
      · rwa [hj]
      · exact quiet_other hi hs hj (hq j)
    · rintro s ⟨i, op⟩ s' ⟨hi, -⟩ hs hq
      exact ⟨ChannelSet.step_inv hi hs, hq⟩
  refine ⟨fun hp => hquiet.1 hp.1, fun hc => ⟨hquiet.2 hc, ?_⟩⟩
  rintro tr₁ ⟨s₀, ⟨i, op⟩, s₁⟩ ⟨s₁', e, s₂⟩ tr₂ rfl he hd
  simp only at he hd ⊢
  subst he
  obtain ⟨hr₁, hs₁⟩ := h.upTo rfl
  rw [List.append_cons] at h
  obtain ⟨hr₂, hs₂⟩ := h.upTo rfl
  obtain rfl := hr₂.post_of_snoc
  have hi := hr₁.invariant (ChannelSet.init_inv k) fun _ _ _ => ChannelSet.step_inv
  exact disabled_again hi hd hs₁ (hc _ (by simp)) hs₂ (hc _ (by simp))

/-- `disableAllEvent` once on a registered channel. -/
theorem silent_unpolled_iff_once : ∃ tr s,
    Run ChannelSet.step (init ⟨fun _ : Unit => 0, fun _ => 3, fun _ _ _ => rfl⟩) tr s ∧
    tr.map Transition.event = [((), .enableReadEvent), ((), .disableAllEvent)] ∧
    (∀ τ ∈ tr, ∀ i, Quiet τ.post i) ∧ Idempotent tr := by
  obtain ⟨tr, s, hr, he, hc⟩ := exists_run ChannelSet.step
    (init ⟨fun _ : Unit => 0, fun _ => 3, fun _ _ _ => rfl⟩)
    [((), .enableReadEvent), ((), .disableAllEvent)]
    (P := fun tr _ => ∀ τ ∈ tr, τ.event.2 ≠ .remove →
      τ.event.2.events (τ.pre.channel τ.event.1).events = kNoneEvent →
        (τ.pre.channel τ.event.1).state = .added) (by decide)
  exact ⟨tr, s, hr, he, (silent_unpolled_iff hr).2 hc⟩

/-- `disableAllEvent` twice in a row registers the channel again, with an empty mask. -/
theorem silent_channel_registered : ∃ tr s,
    Run ChannelSet.step (init ⟨fun _ : Unit => 0, fun _ => 3, fun _ _ _ => rfl⟩) tr s ∧
    tr.map Transition.event =
      [((), .enableReadEvent), ((), .disableAllEvent), ((), .disableAllEvent)] ∧
    (s.channel ()).events = kNoneEvent ∧ s.poller.kernel 3 = some (kNoneEvent, 0) :=
  exists_run _ _ _ (by decide)

end SilentChannel
end Armsy
