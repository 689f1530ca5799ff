import Armsy.Lib.Run
import Armsy.Proofs.LoopSpec

/-! The functor queue loses, repeats and reorders nothing: what was executed,
then the rest of the running batch, then what is pending, is what was appended,
in lock order. A functor pushed while a batch runs belongs to a later batch. -/

namespace Armsy
namespace EventLoop

variable {α : Type*}

structure OrderInv (l : EventLoop α) : Prop where
  idle_batch : l.point ≠ .run → l.queue.batch = []
  order : l.executed.map Prod.fst ++ l.queue.waiting = l.appended
  later : ∀ d ∈ l.executed, d.1.round < d.2
  batch_round : ∀ e ∈ l.queue.batch, e.round < l.rounds
  pending_round : ∀ e ∈ l.queue.pending, e.round ≤ l.rounds

theorem init_orderInv : OrderInv (init : EventLoop α) := by
  constructor <;> simp [init, BatchQueue.empty, BatchQueue.waiting]

/-- An append, by whichever thread, comes last in lock order. -/
theorem OrderInv.append {l : EventLoop α} (h : OrderInv l) (f : α) : OrderInv (l.append f) := by
  refine ⟨h.idle_batch, ?_, h.later, h.batch_round, ?_⟩
  · simp only [EventLoop.append, BatchQueue.waiting_push, ← h.order, List.append_assoc]
  · intro e he
    simp only [EventLoop.append, BatchQueue.push, List.mem_append, List.mem_singleton] at he
    rcases he with he | rfl
    · exact h.pending_round e he
    · exact le_rfl

theorem OrderInv.step {l l' : EventLoop α} {e : LoopEvent α} (h : OrderInv l)
    (hs : l.step e = some l') : OrderInv l' := by
  obtain ⟨hidle, hord, hlater, hbatch, hpend⟩ := h
  cases step_cases hs with
  | enter hpt | leave hpt | stay hpt | poll hpt | setCalling hpt =>
    exact ⟨fun _ => hidle (by simp [hpt]), hord, hlater, hbatch, hpend⟩
  | swap hpt =>
    have hnil : l.queue.batch = [] := hidle (by simp [hpt])
    refine ⟨by simp, ?_, hlater, ?_, by simp [BatchQueue.swap]⟩
    · simpa only [BatchQueue.waiting_swap _ hnil] using hord
    · -- what was pending is the new batch, one round later
      exact fun e he => Nat.lt_succ_of_le (hpend e he)
  | @runNext e rest hpt _ hb =>
    refine ⟨fun hne => absurd hpt hne, ?_, ?_, ?_, hpend⟩
    · simp only [List.map_append, List.map_cons, List.map_nil, List.append_assoc,
        List.singleton_append, ← hord]
      rw [BatchQueue.waiting_pop _ hb]
    · intro d hd
      rcases List.mem_append.1 hd with hd | hd
      · exact hlater d hd
      · obtain rfl := List.mem_singleton.1 hd
        exact hbatch e (by simp [hb])
    · exact fun x hx => hbatch x (List.mem_of_mem_tail hx)
  | clearCalling _ _ hb => exact ⟨fun _ => hb, hord, hlater, hbatch, hpend⟩
  | ownPush | push =>
    obtain ⟨h1, h2, h3, h4, h5⟩ := OrderInv.append ⟨hidle, hord, hlater, hbatch, hpend⟩ _
    exact ⟨h1, h2, h3, h4, h5⟩
  | _ => exact ⟨hidle, hord, hlater, hbatch, hpend⟩

/-- In every reachable state the executed functors, the rest of the batch and
the pending ones are together the appended ones, in lock order; and a functor
appended after `round` swaps runs in a batch numbered above `round`. -/
theorem functors_once_in_order {tr : List (Transition (EventLoop α) (LoopEvent α))}
    {l : EventLoop α} (h : Run EventLoop.step init tr l) :
    l.executed.map Prod.fst ++ l.queue.batch ++ l.queue.pending = l.appended ∧
      ∀ d ∈ l.executed, d.1.round < d.2 := by
  have hi : OrderInv l := h.invariant init_orderInv fun _ _ _ hi hs => hi.step hs
  refine ⟨?_, hi.later⟩
  rw [List.append_assoc]
  exact hi.order

/-- A functor pushed by the first functor of a batch waits behind the batch. -/
theorem functors_once_in_order_nested : ∃ tr l, Run EventLoop.step (init : EventLoop ℕ) tr l ∧
    l.executed.map (fun d => d.1.functor) = [7] ∧
    l.executed.map Prod.fst ++ l.queue.batch ++ l.queue.pending = l.appended ∧
      ∀ d ∈ l.executed, d.1.round < d.2 := by
  obtain ⟨tr, l, hr, -, hx⟩ := exists_run EventLoop.step (init : EventLoop ℕ)
    [.enter, .test, .push 0 7, .push 1 8, .poll, .setCalling, .swap, .runNext, .ownPush 9]
    (P := fun _ l => l.executed.map (fun d => d.1.functor) = [7]) (by decide)
  exact ⟨tr, l, hr, hx, functors_once_in_order hr⟩

end EventLoop
end Armsy
