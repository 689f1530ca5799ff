import Armsy.Proofs.Owners

/-! What `~TcpServer` leaves behind. It takes every connection out of the table, and each
thread of the pool is joined and its queue taken apart, so that nothing but users and the
base loop's own thread has a pointer when it returns. -/

namespace Armsy
namespace Server

variable {listenAddr : InetAddress} {name : List Char} {threads : ℕ} {s s' : Server}
  {e : ServerEvent} {c l : ℕ} {tr : List (Transition Server ServerEvent)}

/-- A thread that is joined is not inside of anything. -/
structure Settled (t : LoopThread) : Prop where
  batch : t.queue.batch = []
  spent : t.spent = []
  dispatching : t.dispatching = none
  frame : t.frame = .idle

/-- Only a thread that can take a step moves; a joined one has its queue taken apart. -/
theorem running_of_mover (h : s.enabled e = true) (hm : mover e = some l) :
    (s.loops l).running = true ∨ e = .discard l := by
  cases ready_of_enabled h with
  | discard _ _ _ _ =>
    cases hm
    exact .inr rfl
  | stop _ _ _ hr =>
    cases hm
    exact .inl hr
  | endDispatch hin | handleClose hin =>
    cases hm
    exact .inl (running_of_free (of_inHandler hin).1)
  | accept hf | establish hf | endAccept hf | dispatch hf | removeConnection hf | endClose hf
  | erase hf | pushDestory hf | swap hf | runFunctor hf | dropFunctor hf =>
    cases hm
    exact .inl (running_of_free hf)
  | _ => cases hm

/-- A joined thread stays settled. -/
theorem settled_step (h : Stepped s e s')
    (hs : ∀ l, (s.loops l).running = false → Settled (s.loops l)) :
    ∀ l, (s'.loops l).running = false → Settled (s'.loops l) := by
  intro l hr
  rw [h.loop] at hr ⊢
  rw [moved_eq] at hr ⊢
  split_ifs at hr ⊢ with hm
  · rcases running_of_mover h.enabled hm with hrun | rfl
    · -- the thread has just been joined
      generalize ht : s.move e (s.loops l) = t at hr ⊢
      have hmove := move_cases s e (s.loops l)
      rw [ht] at hmove
      cases hmove with
      | stop m =>
        cases hm
        cases h.ready with
        | stop _ _ _ _ hat =>
          obtain ⟨hf, hd, hb, hsp⟩ := (atPoll_iff _).1 hat
          exact ⟨hb, hsp, hd, hf⟩
      | _ => simp [hrun] at hr
    · obtain ⟨hb, hsp, hd, hf⟩ := hs l hr
      exact ⟨hb, hsp, hd, hf⟩
  · obtain ⟨hb, hsp, hd, hf⟩ := hs l hr
    exact ⟨hb, hsp, hd, hf⟩

/-- In `~TcpServer` the table has only what the destructor has still to come to. -/
def Remaining (s : Server) : Prop :=
  ∀ conn todo, s.life = .destructing conn todo → ∀ c, s.mapped c = true → c ∈ todo

theorem remaining_step (ho : Owned s) (h : Stepped s e s') (hr : Remaining s) : Remaining s' := by
  intro conn todo hlife c hm
  have accepted_old (hn : ∀ self fd, e ≠ .accept self fd) : c < s'.accepted → c < s.accepted := by
    rw [h.accepted]
    cases e with
    | accept self fd => exact absurd rfl (hn self fd)
    | _ => exact id
  have mapped_old (hn : ∀ self fd, e ≠ .accept self fd) : s.mapped c = true :=
    h.mapped_cases (accepted_old hn) hm
  have hready := h.ready
  rw [h.life] at hlife
  cases hready with
  | accept _ _ ha => simp [nextLife, ha] at hlife
  | destroy =>
    cases hlife
    have hold := mapped_old (by simp)
    have hc := ho.accepted c (.table hold)
    simpa [hold] using hc
  | @destroyNext d old hd _ _ =>
    simp only [nextLife, hd, Life.destructing.injEq] at hlife
    obtain ⟨-, rfl⟩ := hlife
    have hne : c ≠ d := by
      rintro rfl
      have hname : (s'.conns c).name = (s.conns c).name :=
        (h.name_eq_of_not_new (accepted_old (by simp))).1
      simp [mapped, h.table, nextTable, TcpServer.erase, hname] at hm
    exact (List.mem_erase_of_ne hne).2 (hr none old hd c (mapped_old (by simp)))
  | @endDestroyNext d old hd =>
    simp only [nextLife, hd, Life.destructing.injEq] at hlife
    obtain ⟨-, rfl⟩ := hlife
    exact hr _ _ hd c (mapped_old (by simp))
  | destroyed => cases hlife
  | _ => exact hr conn todo hlife c (mapped_old (by simp))

theorem Settled.refs_eq {t : LoopThread} (h : Settled t) (hp : t.queue.pending = []) (c : ℕ) :
    t.refs c = 0 := by
  simp [LoopThread.refs, BatchQueue.waiting, h.batch, h.spent, h.dispatching, h.frame, hp,
    Frame.refs]

/-- When all other threads are joined and their queues empty, and nothing is mapped. -/
theorem refCount_of_settled (hm : s.mapped c = false)
    (hs : ∀ l ≤ s.threads, 0 < l → Settled (s.loops l) ∧ (s.loops l).queue.pending = [])
    (hl : ∀ d todo, s.life ≠ .destructing (some d) todo) :
    s.refCount c = (s.loops 0).refs c + s.users.countP (·.conn = c) := by
  have hzero : (((List.range s.threads).map Nat.succ).map fun l => (s.loops l).refs c).sum = 0 := by
    apply List.sum_eq_zero
    intro n hn
    simp only [List.mem_map, List.mem_range] at hn
    obtain ⟨_, ⟨l, hlt, rfl⟩, rfl⟩ := hn
    obtain ⟨hset, hpend⟩ := hs l.succ hlt (Nat.succ_pos l)
    exact hset.refs_eq hpend c
  have hloops : ((List.range (s.threads + 1)).map fun l => (s.loops l).refs c).sum =
      (s.loops 0).refs c := by
    rw [List.range_succ_eq_map, List.map_cons, List.sum_cons, hzero, Nat.add_zero]
  unfold refCount
  simp only [hm, hloops, Bool.false_eq_true, if_false, Nat.zero_add]
  exact Nat.add_zero _

/-- Whatever the order of steps: when `~TcpServer` returns, a connection is owned by users
and by what the base loop's thread holds, its queue included, and by nothing else. -/
theorem released_by_destructor (h : Run step (.init listenAddr name threads) tr s) :
    ∀ τ ∈ tr, τ.event = .destroyed → ∀ c, τ.post.mapped c = false ∧
      (∀ l ≤ τ.post.threads, 0 < l → (τ.post.loops l).running = false) ∧
      τ.post.refCount c = (τ.post.loops 0).refs c + τ.post.users.countP (·.conn = c) := by
  intro τ hτ he c
  obtain ⟨tr₁, tr₂, -, hr, hst⟩ := h.split hτ
  have hinv : Owned τ.pre ∧ Remaining τ.pre ∧
      ∀ l, (τ.pre.loops l).running = false → Settled (τ.pre.loops l) := by
    refine hr.invariant (I := fun s => Owned s ∧ Remaining s ∧
      ∀ l, (s.loops l).running = false → Settled (s.loops l))
      ⟨init_owned listenAddr name threads, ?_, ?_⟩ ?_
    · intro conn todo hlife
      cases hlife
    · intro l hl
      cases hl
    · rintro s e s' ⟨ho, hrem, hset⟩ hst
      have hs := step_cases hst
      exact ⟨step_owned ho hst, remaining_step ho hs hrem, settled_step hs hset⟩
  obtain ⟨ho, hrem, hset⟩ := hinv
  rw [he] at hst
  have hs := step_cases hst
  cases hs.ready with
  | destroyed hd hjoined =>
    have hrun (l : ℕ) (hl : l ≤ τ.post.threads) (hpos : 0 < l) :
        (τ.post.loops l).running = false := by
      rw [hs.running_eq (by simp)]
      exact (hjoined l (hs.threads ▸ hl) hpos).1
    have hm : τ.post.mapped c = false := by
      by_contra hne
      have hold : τ.pre.mapped c = true :=
        hs.mapped_cases (by rw [hs.accepted]; exact id) (by simpa using hne)
      exact absurd (hrem none [] hd c hold) (List.not_mem_nil)
    refine ⟨hm, hrun, refCount_of_settled hm (fun l hl hpos => ⟨?_, ?_⟩) fun d todo hl => ?_⟩
    · exact settled_step hs hset l (hrun l hl hpos)
    · have hp := (hjoined l (hs.threads ▸ hl) hpos).2
      rw [hs.loop, moved_eq]
      simpa [mover, pushed, pushes] using hp
    · rw [hs.life] at hl
      cases hl

/-- The server goes while a connection is up and a user has a pointer to it; its loop is
joined before it has come to the `connDestory`. -/
def outlived : List ServerEvent :=
  [.accept 1 7, .establish, .endAccept, .swap 1, .runFunctor 1 false, .copy 0, .dropFunctor 1,
    .destroy, .destroyNext 0, .endDestroyNext, .stop 1, .discard 1, .destroyed]

theorem released_by_destructor_outlived : ∃ tr s, Run step (sample 1) tr s ∧
    tr.map Transition.event = outlived ∧ (∃ τ ∈ tr, τ.event = .destroyed ∧ τ.post.refCount 0 = 1) ∧
    ∀ τ ∈ tr, τ.event = .destroyed → ∀ c, τ.post.mapped c = false ∧
      (∀ l ≤ τ.post.threads, 0 < l → (τ.post.loops l).running = false) ∧
      τ.post.refCount c = (τ.post.loops 0).refs c + τ.post.users.countP (·.conn = c) := by
  obtain ⟨tr, s, hr, he, hp⟩ := exists_run step (sample 1) outlived
    (P := fun tr _ => ∃ τ ∈ tr, τ.event = .destroyed ∧ τ.post.refCount 0 = 1) (by decide +kernel)
  exact ⟨tr, s, hr, he, hp, released_by_destructor hr⟩

end Server
end Armsy
