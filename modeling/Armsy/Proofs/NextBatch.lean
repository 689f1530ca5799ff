import Armsy.Lib.Progress
import Armsy.Proofs.QuitDrain

/-! How long a functor waits. Whatever else is appended meanwhile, it is in the first batch
swapped out after it, so the loop thread runs it before it polls for the second time. And
a loop that has not been told to quit catches up by steps of its own thread alone. -/

namespace Armsy
namespace EventLoop

variable {α : Type*} {l l' : EventLoop α} {e : LoopEvent α}
  {tr : List (Transition (EventLoop α) (LoopEvent α))} {who : Option ℕ} {n : ℕ}

def isPoll : LoopEvent α → Bool
  | .poll => true
  | _ => false

/-- How often the loop thread has come back from `poller_->poll`. -/
def polls (tr : List (Transition (EventLoop α) (LoopEvent α))) : ℕ :=
  tr.countP fun τ => isPoll τ.event

/-! ### One batch after the other -/

/-- The entries of a batch were all appended between the swap before it and its own. -/
structure RoundInv (l : EventLoop α) : Prop where
  orderInv : OrderInv l
  executed : ∀ d ∈ l.executed, d.2 = d.1.round + 1
  batch : ∀ x ∈ l.queue.batch, x.round + 1 = l.rounds
  pending : ∀ x ∈ l.queue.pending, x.round = l.rounds

theorem init_roundInv : RoundInv (init : EventLoop α) :=
  ⟨init_orderInv, by simp [init], by simp [init, BatchQueue.empty],
    by simp [init, BatchQueue.empty]⟩

theorem pending_append (h : ∀ x ∈ l.queue.pending, x.round = l.rounds) (f : α) :
    ∀ x ∈ (l.append f).queue.pending, x.round = l.rounds := by
  intro x hx
  rcases List.mem_append.1 hx with hx | hx
  · exact h x hx
  · obtain rfl := List.mem_singleton.1 hx
    rfl

theorem RoundInv.step (h : RoundInv l) (hs : l.step e = some l') : RoundInv l' := by
  obtain ⟨ho, hexec, hbatch, hpend⟩ := h
  have ho' := ho.step hs
  cases step_cases hs with
  | swap hpt =>
    refine ⟨ho', hexec, ?_, by simp [BatchQueue.swap]⟩
    intro x hx
    rw [hpend x hx]
  | @runNext x rest _ _ hb =>
    have hx : x.round + 1 = l.rounds := hbatch x (by simp [hb])
    refine ⟨ho', ?_, fun y hy => hbatch y (List.mem_of_mem_tail hy), hpend⟩
    intro d hd
    rcases List.mem_append.1 hd with hd | hd
    · exact hexec d hd
    · obtain rfl := List.mem_singleton.1 hd
      exact hx.symm
  | ownPush | push => exact ⟨ho', hexec, hbatch, pending_append hpend _⟩
  | _ => exact ⟨ho', hexec, hbatch, hpend⟩

theorem roundInv_of_run (h : Run EventLoop.step init tr l) : RoundInv l := by
  apply h.invariant init_roundInv
  intro _ _ _ hi hs
  exact hi.step hs

/-- Once its batch has been swapped out and worked through, an entry has been executed. -/
theorem RoundInv.executed_of_round (h : RoundInv l) {x : Entry α} (hx : x ∈ l.appended)
    (hr : x.round < l.rounds) (hpt : l.point = .run → x.round + 1 < l.rounds) :
    ∃ d ∈ l.executed, d.1 = x := by
  rw [← h.orderInv.order, BatchQueue.waiting, List.mem_append, List.mem_append] at hx
  rcases hx with hx | hx | hx
  · exact List.mem_map.1 hx
  · have hrun : l.point = .run := by
      by_contra hne
      rw [h.orderInv.idle_batch hne] at hx
      cases hx
    have hb := h.batch x hx
    have hlt := hpt hrun
    omega
  · have hp := h.pending x hx
    omega

/-! ### Polls and swaps take turns -/

/-- Since there were `r` swaps, the loop thread has polled `k` times. -/
structure Paced (r k : ℕ) (l : EventLoop α) : Prop where
  le : r ≤ l.rounds
  le_succ : k ≤ l.rounds - r + 1
  beforeSwap : l.point ≠ .handle → l.point ≠ .swap → k ≤ l.rounds - r

theorem Paced.step {r k : ℕ} (h : Paced r k l) (hs : l.step e = some l') :
    Paced r (if isPoll e then k + 1 else k) l' := by
  obtain ⟨hle, hk, hb⟩ := h
  cases step_cases hs with
  | poll hpt =>
    have hk' := hb (by simp [hpt]) (by simp [hpt])
    exact ⟨hle, Nat.succ_le_succ hk', fun hne => absurd rfl hne⟩
  | swap hpt =>
    have hsub : l.rounds + 1 - r = l.rounds - r + 1 := by omega
    have hk' : k ≤ l.rounds + 1 - r := hsub ▸ hk
    exact ⟨Nat.le_succ_of_le hle, Nat.le_succ_of_le hk', fun _ _ => hk'⟩
  | setCalling => exact ⟨hle, hk, fun _ hne => absurd rfl hne⟩
  | awake hpt | ownWake hpt | ownSkip hpt => exact ⟨hle, hk, hb⟩
  | enter hpt | leave hpt | stay hpt | clearCalling hpt =>
    exact ⟨hle, hk, fun _ _ => hb (by simp [hpt]) (by simp [hpt])⟩
  | _ => exact ⟨hle, hk, hb⟩

theorem Paced.run {s : EventLoop α} {r : ℕ} (h : Run EventLoop.step s tr l)
    (h0 : Paced r 0 s) : Paced r (polls tr) l := by
  induction h with
  | nil => exact h0
  | @snoc tr l l' e _ hs ih =>
    have hp := ih.step hs
    have hcount : polls (tr ++ [⟨l, e, l'⟩]) = if isPoll e then polls tr + 1 else polls tr := by
      simp only [polls, List.countP_append, List.countP_singleton]
      split_ifs <;> rfl
    rwa [hcount]

theorem next_of_step (h : l.step e = some l') (hw : pusher e = some who) :
    l'.rounds = l.rounds ∧
      ∃ x ∈ l'.appended, x.serial = l.appended.length ∧ x.round = l.rounds := by
  cases step_cases h with
  | @ownPush f | @push _ f =>
    exact ⟨rfl, l.next f, List.mem_append_right _ (by simp), rfl, rfl⟩
  | _ => cases hw

/-- Every functor runs in the first batch that is swapped out after it was appended, so it
has been executed by the time the loop thread has polled twice since. -/
theorem executed_in_next_batch (h : Run EventLoop.step init tr l) :
    (∀ d ∈ l.executed, d.2 = d.1.round + 1) ∧
      ∀ tr₁ τ tr₂ who, tr = tr₁ ++ τ :: tr₂ → pusher τ.event = some who → 2 ≤ polls tr₂ →
        ∃ d ∈ l.executed, d.1.serial = τ.pre.appended.length := by
  have hi := roundInv_of_run h
  refine ⟨hi.executed, ?_⟩
  intro tr₁ τ tr₂ who he hw hpolls
  have hs := (h.upTo he).2
  have hrest := h.after he
  obtain ⟨hrounds, x, hx, hserial, hround⟩ := next_of_step hs hw
  have hgrow := hrest.invariant (I := fun l => τ.post.appended <+: l.appended)
    (List.prefix_refl _) fun _ _ _ hi hs => hi.trans (appended_of_step hs)
  have hpace : Paced τ.pre.rounds (polls tr₂) l :=
    Paced.run hrest ⟨hrounds.ge, Nat.zero_le _, fun _ _ => Nat.zero_le _⟩
  have hle := hpace.le
  have hk := hpace.le_succ
  obtain ⟨d, hd, rfl⟩ := hi.executed_of_round (hgrow.subset hx) (by omega) fun hrun => by
    have hk' := hpace.beforeSwap (by simp [hrun]) (by simp [hrun])
    omega
  exact ⟨d, hd, hserial⟩

/-- A functor that is pushed by a functor waits for the rest of the round and all of the
next. -/
theorem executed_in_next_batch_nested : ∃ tr₁ τ tr₂ l,
    Run EventLoop.step (init : EventLoop ℕ) (tr₁ ++ τ :: tr₂) l ∧ pusher τ.event = some none ∧
    polls tr₂ = 2 ∧ l.executed.map (fun d => (d.1.functor, d.1.round, d.2)) =
      [(7, 0, 1), (8, 1, 2)] ∧ ∃ d ∈ l.executed, d.1.serial = τ.pre.appended.length := by
  obtain ⟨tr, l, hr, he, hexec⟩ := exists_run EventLoop.step (init : EventLoop ℕ)
    ([.enter, .test, .push 0 7, .poll, .setCalling, .swap, .runNext] ++
      .ownPush 8 :: [.ownWake, .clearCalling, .test, .poll, .setCalling, .swap, .push 1 9,
        .runNext, .clearCalling, .test, .poll])
    (P := fun _ l => l.executed.map (fun d => (d.1.functor, d.1.round, d.2)) =
      [(7, 0, 1), (8, 1, 2)]) (by decide)
  obtain ⟨tr₁, tr', rfl, -, htr⟩ := List.map_eq_append_iff.1 he
  obtain ⟨τ, tr₂, rfl, hτ, htr⟩ := List.map_eq_cons_iff.1 htr
  have hw : pusher τ.event = some none := by rw [hτ]; rfl
  have hpolls : polls tr₂ = 2 := by
    change tr₂.countP (isPoll ∘ Transition.event) = 2
    rw [← List.countP_map, htr]
    rfl
  exact ⟨tr₁, τ, tr₂, l, hr, hw, hpolls, hexec,
    (executed_in_next_batch hr).2 tr₁ τ tr₂ none rfl hw hpolls.ge⟩

/-! ### Catching up -/

/-- The loop will poll again before it returns. -/
structure Going (l : EventLoop α) : Prop where
  point : l.point ≠ .stopped
  quit : l.point = .enter ∨ l.quit = false

/-- What the loop thread does next if no handler and no functor asks for anything. -/
def ownNext (l : EventLoop α) : LoopEvent α :=
  if l.own.isSome then .ownWake
  else match l.point with
    | .enter => .enter
    | .test => .test
    | .poll => .poll
    | .handle => .setCalling
    | .swap => .swap
    | .run => if l.queue.batch.isEmpty then .clearCalling else .runNext
    | .stopped => .test

/-- The steps of `loop()` itself, and the wake-up test of a push that has begun. -/
def isOwn : LoopEvent α → Bool
  | .enter | .test | .poll | .setCalling | .swap | .runNext | .clearCalling | .ownWake => true
  | _ => false

theorem isOwn_ownNext (l : EventLoop α) : isOwn l.ownNext = true := by
  unfold ownNext
  split_ifs
  · rfl
  · cases l.point <;> rfl
  · cases l.point <;> rfl

/-- The loop thread always has a step of its own to take, until the loop has returned. -/
theorem exists_ownNext (h : l.point ≠ .stopped) : ∃ l', l.step l.ownNext = some l' := by
  cases ho : l.own with
  | some n => exact ⟨_, by simp [ownNext, EventLoop.step, ho]; rfl⟩
  | none =>
    cases hpt : l.point with
    | run =>
      cases hb : l.queue.batch with
      | nil => simp [ownNext, EventLoop.step, ho, hpt, hb]
      | cons x rest => simp [ownNext, EventLoop.step, ho, hpt, hb]
    | stopped => exact absurd hpt h
    | _ => simp [ownNext, EventLoop.step, ho, hpt]

/-- The steps from here until the next batch has been swapped out. -/
def toSwap : LoopPoint → ℕ
  | .enter => 5
  | .test => 4
  | .poll => 3
  | .handle => 2
  | .swap => 1
  | .run => 5
  | .stopped => 0

/-- The steps left until nothing waits any more. -/
def lag (l : EventLoop α) : ℕ :=
  (if l.own.isSome then 1 else 0) + l.queue.waiting.length +
    if l.point = .run ∧ l.queue.pending = [] then 0 else toSwap l.point

theorem lag_le (l : EventLoop α) : l.lag ≤ l.queue.waiting.length + 6 := by
  have hswap : toSwap l.point ≤ 5 := by
    cases l.point <;> decide
  unfold lag
  split_ifs <;> omega

/-- What the loop thread's own steps keep while something waits. -/
structure Busy (appended : List (Entry α)) (l : EventLoop α) : Prop where
  orderInv : OrderInv l
  going : Going l
  appended : l.appended = appended

variable {appended : List (Entry α)}

/-- While something waits, each of its own steps brings the loop thread nearer to the end. -/
theorem Busy.step (h : Busy appended l) (hw : l.queue.waiting ≠ []) (hs : l.step e = some l')
    (he : e = l.ownNext) : Busy appended l' ∧ l'.lag < l.lag := by
  have hord := h.orderInv.step hs
  have hquit := h.going.quit
  cases step_cases hs with
  | enter hpt ho =>
    exact ⟨⟨hord, ⟨by simp, .inr rfl⟩, h.appended⟩, by simp [lag, hpt, toSwap]⟩
  | leave hpt hq => simp [hpt, hq] at hquit
  | stay hpt hq => exact ⟨⟨hord, ⟨by simp, .inr hq⟩, h.appended⟩, by simp [lag, hpt, toSwap]⟩
  | poll hpt | setCalling hpt =>
    have hq : l.quit = false := hquit.resolve_left (by simp [hpt])
    exact ⟨⟨hord, ⟨by simp, .inr hq⟩, h.appended⟩, by simp [lag, hpt, toSwap]⟩
  | swap hpt =>
    -- everything that waits goes into the batch
    have hq : l.quit = false := hquit.resolve_left (by simp [hpt])
    have hwait := BatchQueue.waiting_swap _ (h.orderInv.idle_batch (by simp [hpt]))
    have hp : l.queue.swap.pending = [] := rfl
    exact ⟨⟨hord, ⟨by simp, .inr hq⟩, h.appended⟩, by simp [lag, hpt, hwait, hp, toSwap]⟩
  | runNext hpt ho hb =>
    have hpop := BatchQueue.waiting_pop _ hb
    have hp : l.queue.pop.pending = l.queue.pending := rfl
    refine ⟨⟨hord, ⟨h.going.point, hquit⟩, h.appended⟩, ?_⟩
    simp only [lag, hpt, hpop, hp, List.length_cons]
    omega
  | clearCalling hpt ho hb =>
    have hq : l.quit = false := hquit.resolve_left (by simp [hpt])
    have hp : l.queue.pending ≠ [] := by simpa [BatchQueue.waiting, hb] using hw
    exact ⟨⟨hord, ⟨by simp, .inr hq⟩, h.appended⟩, by simp [lag, hpt, hp, toSwap]⟩
  | ownWake ho | ownSkip ho =>
    have hsome := Option.isSome_iff_ne_none.2 ho
    exact ⟨⟨hord, ⟨h.going.point, hquit⟩, h.appended⟩, by simp [lag, hsome]⟩
  | _ =>
    have hown := isOwn_ownNext l
    rw [← he] at hown
    cases hown

/-- A loop that is not told to quit catches up: from every state that the threads lead to,
the loop thread executes all that has been appended by steps of its own. -/
theorem caught_up (h : Run EventLoop.step init tr l) (hg : Going l) :
    ∃ tr' l', Run EventLoop.step l tr' l' ∧ (∀ τ ∈ tr', τ.event = τ.pre.ownNext) ∧
      l'.executed.map Prod.fst = l.appended ∧ tr'.length ≤ l.queue.waiting.length + 6 := by
  have hi : OrderInv l := h.invariant init_orderInv fun _ _ _ hi hs => hi.step hs
  have hs (s : EventLoop α) (hb : Busy l.appended s) (hw : ¬ s.queue.waiting = []) :
      ∃ e s', s.step e = some s' ∧ e = s.ownNext ∧ Busy l.appended s' ∧ s'.lag < s.lag := by
    obtain ⟨s', hst⟩ := exists_ownNext hb.going.point
    obtain ⟨hb', hlt⟩ := hb.step hw hst rfl
    exact ⟨_, s', hst, rfl, hb', hlt⟩
  obtain ⟨tr', l', hr, hown, hb, hdone, hlen⟩ := Run.exists_of_measure
    (C := fun τ : Transition (EventLoop α) (LoopEvent α) => τ.event = τ.pre.ownNext)
    lag hs (s := l) ⟨hi, hg, rfl⟩
  have hord := hb.orderInv.order
  rw [hdone, List.append_nil, hb.appended] at hord
  exact ⟨tr', l', hr, hown, hord, hlen.trans (lag_le l)⟩

/-- One functor waits in the batch that runs, one behind it. -/
theorem caught_up_mid_batch : ∃ tr l, Run EventLoop.step (init : EventLoop ℕ) tr l ∧
    tr.map Transition.event = [.enter, .test, .push 0 7, .push 1 8, .poll, .setCalling, .swap,
      .runNext, .ownPush 9] ∧ l.queue.waiting.length = 2 ∧
    ∃ tr' l', Run EventLoop.step l tr' l' ∧ (∀ τ ∈ tr', τ.event = τ.pre.ownNext) ∧
      l'.executed.map Prod.fst = l.appended ∧ tr'.length ≤ l.queue.waiting.length + 6 := by
  obtain ⟨tr, l, hr, he, hpt, hq, hw⟩ := exists_run EventLoop.step (init : EventLoop ℕ)
    [.enter, .test, .push 0 7, .push 1 8, .poll, .setCalling, .swap, .runNext, .ownPush 9]
    (P := fun _ l => l.point ≠ .stopped ∧ l.quit = false ∧ l.queue.waiting.length = 2) (by decide)
  exact ⟨tr, l, hr, he, hw, caught_up hr ⟨hpt, .inr hq⟩⟩

end EventLoop
end Armsy
