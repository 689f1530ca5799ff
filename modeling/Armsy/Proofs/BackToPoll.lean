import Armsy.Lib.Progress
import Armsy.Proofs.ActiveChannels

/-! A loop's thread never gets stuck. From every state that the rounds lead to, whatever the
other threads do, the thread of a loop can take a next step until it is back at its poll: each
makes the work that is left of the round smaller, and what others queue is paid for. -/

namespace Armsy

/-- The work left in what a thread is inside of, where a functor pushed to the thread's own
queue counts `push`. -/
def Frame.work (push : ℕ) : Frame → ℕ
  | .idle => 0
  | .handedOver _ | .closed _ => 1
  | .accepted _ => 2
  | .removed _ _ => push + 2
  | .removing _ _ => push + 3
  | .closing _ => push + 4

/-- The work left until the thread polls again. A functor may begin a removal; what is pushed
while functors run is for the next round. -/
def LoopThread.work (t : LoopThread) (ph : Phase) : ℕ :=
  (if t.dispatching.isSome then 1 else 0) +
    match ph with
    | .top => 0
    | .handling active =>
      t.frame.work 5 + 2 * active.length + 5 * t.queue.pending.length + 2
    | .executing => t.frame.work 0 + 5 * t.queue.batch.length + t.spent.length + 1

/-- A thread that leaves something it is inside of, and pushes at most `n` functors to its own
queue on the way. -/
theorem LoopThread.work_lt {t t' : LoopThread} {ph : Phase} {n : ℕ} (hp : ph ≠ .top)
    (hd : t'.dispatching = t.dispatching) (hb : t'.queue.batch = t.queue.batch)
    (hs : t'.spent = t.spent) (hq : t'.queue.pending.length ≤ t.queue.pending.length + n)
    (hf : ∀ push, t'.frame.work push + push * n < t.frame.work push) :
    t'.work ph < t.work ph := by
  have h0 := hf 0
  have h5 := hf 5
  cases ph with
  | top => exact absurd rfl hp
  | handling active =>
    simp only [work, hd]
    omega
  | executing =>
    simp only [work, hd, hb, hs]
    omega

namespace Server

variable {s s' : Server} {e : ServerEvent} {l : ℕ}

/-- The frames that only the base loop's thread is ever in. -/
def OnBase : Frame → Prop
  | .accepted _ | .handedOver _ | .removing _ _ | .removed _ _ => True
  | .idle | .closing _ | .closed _ => False

theorem onBase_step {listenAddr : InetAddress} {name : List Char}
    (hi : Ownership.Inv listenAddr name s) (h : Stepped s e s')
    (hb : ∀ l, OnBase (s.loops l).frame → l = 0) : ∀ l, OnBase (s'.loops l).frame → l = 0 := by
  intro l hl
  rcases h.frame_cases l with hs | hs
  · exact hb l (hs ▸ hl)
  · generalize (s'.loops l).frame = fr at hs hl
    cases hs with
    | runFunctor _ hq => exact (Ownership.queued_of_batch hi hq).home
    | handleClose | removeConnection | endClose => exact absurd hl id
    | _ => rfl

theorem free_of_le {listenAddr : InetAddress} {name : List Char}
    (hi : Ownership.Inv listenAddr name s) (hl : l ≤ s.threads) : s.free l = true := by
  simp [free, hl, hi.running l, destructing, hi.alive]

/-- The thread that takes a step, after it. -/
theorem Stepped.mover_loop (h : Stepped s e s') (hm : mover e = some l) :
    s'.loops l = { s.move e (s.loops l) with
      queue := { (s.move e (s.loops l)).queue with
        pending := (s.move e (s.loops l)).queue.pending ++ s.pushed e l } } := by
  rw [h.loop, moved_eq, if_pos hm]

theorem pushed_length (s : Server) (e : ServerEvent) (l : ℕ) : (s.pushed e l).length ≤ 1 := by
  unfold pushed
  split
  · split_ifs <;> simp
  · simp

theorem pushed_eq_nil (h : ∀ f, s.pushes e ≠ some (l, f)) : s.pushed e l = [] :=
  List.eq_nil_iff_forall_not_mem.2 fun f hf => h f (mem_pushed.1 hf)

end Server

namespace Rounds

open Server (OnBase)

variable {k : Layout} {listenAddr : InetAddress} {name : List Char} {threads : ℕ}
  {r r' : Rounds} {e : ServerEvent} {l : ℕ} {tr : List (Transition Rounds RoundEvent)}

/-- What the thread of loop `l` does next when no handler and no callback does anything. -/
def next (r : Rounds) (l : ℕ) : RoundEvent :=
  match (r.process.server.loops l).frame with
  | .accepted _ => .process (.server .establish)
  | .handedOver _ => .process (.server .endAccept)
  | .closing _ => .process (.server (.removeConnection l))
  | .closed _ => .process (.server (.endClose l))
  | .removing _ _ => .process (.server .erase)
  | .removed _ _ => .process (.server .pushDestory)
  | .idle =>
    if (r.process.server.loops l).dispatching.isSome then .process (.server (.endDispatch l))
    else
      match r.phase l with
      | .top => .poll l []
      | .handling [] => .execute l
      | .handling _ => .turn l none
      | .executing =>
        if !(r.process.server.loops l).queue.batch.isEmpty then
          .process (.server (.runFunctor l false))
        else if !(r.process.server.loops l).spent.isEmpty then
          .process (.server (.dropFunctor l))
        else .again l

def work (r : Rounds) (l : ℕ) : ℕ := (r.process.server.loops l).work (r.phase l)

/-- A step of the server inside a round, when it is enabled. -/
theorem Inv.exists_server (hi : Inv listenAddr name r) (he : r.process.server.enabled e = true)
    (hn : r.enabled (.process (.server e)) = true)
    (ha : r.process.admits e = true) : ∃ r', r.step (.process (.server e)) = some r' ∧
      Server.Stepped r.process.server e r'.process.server ∧ r'.phase = r.phase := by
  have hst : ∃ s', r.process.server.step e = some s' := by simp [Server.step, he]
  obtain ⟨s', hst⟩ := hst
  have hs := Server.step_cases hst
  have hsafe := Process.safe_of_ordinary hi.process.server hs
  obtain ⟨p', hp', rfl⟩ := hi.process.inv.exists_step hst ha hsafe
  exact ⟨⟨p', r.phase, r.size⟩, by simp [step, hn, inner, hp', nextPhase, nextSize], hs, rfl⟩

/-- A step of the thread's own that leaves less work. -/
theorem Inv.advance (hi : Inv listenAddr name r) (he : r.process.server.enabled e = true)
    (hn : r.enabled (.process (.server e)) = true) (ha : r.process.admits e = true)
    (hlt : ∀ s', Server.Stepped r.process.server e s' →
      (s'.loops l).work (r.phase l) < r.work l) :
    ∃ r', r.step (.process (.server e)) = some r' ∧ r'.work l < r.work l := by
  obtain ⟨r', hr', hs, hph⟩ := hi.exists_server he hn ha
  refine ⟨r', hr', ?_⟩
  rw [work, hph]
  exact hlt _ hs

/-- A step that takes the thread from one frame to the next. -/
theorem Inv.advance_frame (hi : Inv listenAddr name r) {n : ℕ} (hp : r.phase l ≠ .top)
    (he : r.process.server.enabled e = true) (hn : r.enabled (.process (.server e)) = true)
    (ha : r.process.admits e = true) (hm : Server.mover e = some l)
    (hmove : ∃ fr, r.process.server.move e (r.process.server.loops l) =
      { r.process.server.loops l with frame := fr } ∧
      ∀ push, fr.work push + push * n < (r.process.server.loops l).frame.work push)
    (hpush : (r.process.server.pushed e l).length ≤ n) :
    ∃ r', r.step (.process (.server e)) = some r' ∧ r'.work l < r.work l := by
  obtain ⟨fr, hmove, hfr⟩ := hmove
  refine hi.advance he hn ha fun s' hs => ?_
  rw [hs.mover_loop hm, hmove]
  refine LoopThread.work_lt (t := r.process.server.loops l) hp rfl rfl rfl ?_ hfr
  simpa using hpush

/-- What a thread is inside of can always be left. -/
theorem Inv.leave_frame (hi : Inv listenAddr name r)
    (hb : ∀ l, OnBase (r.process.server.loops l).frame → l = 0)
    (hl : l ≤ r.process.server.threads) (hp : r.phase l ≠ .top)
    (hf : (r.process.server.loops l).frame ≠ .idle) :
    ∃ r', r.step (r.next l) = some r' ∧ r'.work l < r.work l := by
  have hfree := Server.free_of_le hi.process.server hl
  unfold next
  cases hfr : (r.process.server.loops l).frame with
  | idle => exact absurd hfr hf
  | accepted c =>
    obtain rfl := hb l (by simp [hfr, OnBase])
    refine hi.advance_frame (n := 0) hp (by simp [Server.enabled, hfree, hfr]) rfl rfl rfl
      ⟨.handedOver c, by simp [Server.move, hfr], by simp [hfr, Frame.work]⟩ ?_
    rw [Server.pushed_eq_nil fun f hf => ?_]
    · rfl
    · simp only [Server.pushes, hfr] at hf
      split_ifs at hf with h0
      exact h0 (Prod.ext_iff.1 (Option.some.inj hf)).1
  | handedOver c =>
    obtain rfl := hb l (by simp [hfr, OnBase])
    exact hi.advance_frame (n := 0) hp (by simp [Server.enabled, hfree, hfr]) rfl rfl rfl
      ⟨.idle, by simp [Server.move], by simp [hfr, Frame.work]⟩
      (by simp [Server.pushed, Server.pushes])
  | closing c =>
    refine hi.advance_frame (n := 0) hp (by simp [Server.enabled, hfree, hfr]) rfl rfl rfl
      ⟨if l = 0 then .removing c true else .closed c, by simp [Server.move, hfr], ?_⟩ ?_
    · intro push
      rw [hfr]
      split_ifs <;> simp only [Frame.work] <;> omega
    · rw [Server.pushed_eq_nil fun f hf => ?_]
      · rfl
      · simp only [Server.pushes, hfr] at hf
        split_ifs at hf with h0
        exact h0 (Prod.ext_iff.1 (Option.some.inj hf)).1.symm
  | closed c =>
    exact hi.advance_frame (n := 0) hp (by simp [Server.enabled, hfree, hfr]) rfl rfl rfl
      ⟨.idle, by simp [Server.move], by simp [hfr, Frame.work]⟩
      (by simp [Server.pushed, Server.pushes])
  | removing c nested =>
    obtain rfl := hb l (by simp [hfr, OnBase])
    exact hi.advance_frame (n := 0) hp (by simp [Server.enabled, hfree, hfr]) rfl rfl rfl
      ⟨.removed c nested, by simp [Server.move, hfr], by simp [hfr, Frame.work]⟩
      (by simp [Server.pushed, Server.pushes])
  | removed c nested =>
    obtain rfl := hb l (by simp [hfr, OnBase])
    refine hi.advance_frame (n := 1) hp (by simp [Server.enabled, hfree, hfr]) rfl rfl rfl
      ⟨if nested then .closed c else .idle, by simp [Server.move, hfr], ?_⟩
      (Server.pushed_length ..)
    intro push
    rw [hfr]
    split_ifs <;> simp only [Frame.work] <;> omega

/-- `executePendingFunctors` runs what it has swapped out, destroys it and returns. -/
theorem Inv.go_on_executing (hi : Inv listenAddr name r) (hl : l ≤ r.process.server.threads)
    (hp : r.phase l = .executing) (hf : (r.process.server.loops l).frame = .idle)
    (hd : (r.process.server.loops l).dispatching = none) :
    ∃ r', r.step (r.next l) = some r' ∧ r'.work l < r.work l := by
  have hfree := Server.free_of_le hi.process.server hl
  simp only [next, hf, hd, hp, Option.isSome_none, Bool.false_eq_true, if_false]
  cases hb : (r.process.server.loops l).queue.batch with
  | cons f fs =>
    refine hi.advance (by simp [Server.enabled, hfree, hf, hd, hb]) rfl rfl fun s' hs => ?_
    rw [hs.mover_loop rfl, Server.pushed_eq_nil (by simp [Server.pushes]), hp]
    -- of all functors only a removal leaves the thread inside of something
    cases f with
    | removeConnectionInLoop c =>
      simp [work, LoopThread.work, Server.move, hb, hf, hp, hd, BatchQueue.pop, Frame.work]
      omega
    | _ =>
      simp [work, LoopThread.work, Server.move, hb, hf, hp, hd, BatchQueue.pop, Frame.work]
      omega
  | nil =>
    cases hs : (r.process.server.loops l).spent with
    | cons f fs =>
      refine hi.advance (by simp [Server.enabled, hfree, hf, hb, hs]) rfl rfl fun s' hst => ?_
      rw [hst.mover_loop rfl, Server.pushed_eq_nil (by simp [Server.pushes]), hp]
      simp [work, LoopThread.work, Server.move, hb, hf, hp, hd, hs]
    | nil =>
      have hat : (r.process.server.loops l).atPoll = true :=
        (Server.atPoll_iff _).2 ⟨hf, hd, hb, hs⟩
      have hen : r.enabled (.again l) = true := by simp [enabled, hfree, hat, hp]
      obtain ⟨r', hst⟩ := exists_step hen (by simp [inner])
      have h := step_cases hst
      refine ⟨r', hst, ?_⟩
      have hsame : r'.process = r.process := by
        rcases h.inner with ⟨e, hin, -⟩ | ⟨-, hsame⟩
        · cases hin
        · exact hsame
      simp [work, LoopThread.work, h.phase, nextPhase, hsame, hp, hd]

/-- The `for` takes the next channel, or is done. -/
theorem Inv.go_on_handling (hi : Inv listenAddr name r) (hl : l ≤ r.process.server.threads)
    {active : List ℕ} (hp : r.phase l = .handling active)
    (hf : (r.process.server.loops l).frame = .idle)
    (hd : (r.process.server.loops l).dispatching = none) :
    ∃ r', r.step (r.next l) = some r' ∧ r'.work l < r.work l := by
  have hfree := Server.free_of_le hi.process.server hl
  obtain ⟨hb, hs⟩ := hi.quiet l (by simp [hp])
  have hat : (r.process.server.loops l).atPoll = true :=
    (Server.atPoll_iff _).2 ⟨hf, hd, hb, hs⟩
  simp only [next, hf, hd, hp, Option.isSome_none, Bool.false_eq_true, if_false]
  cases active with
  | nil =>
    have hswap : r.process.server.enabled (.swap l) = true := by
      simp [Server.enabled, hfree, hat]
    obtain ⟨p', hp', -⟩ := hi.process.inv.exists_step (e := .swap l)
      (by rw [Server.step, if_pos hswap]) rfl (by simp [Server.Safe, Server.acts])
    have hen : r.enabled (.execute l) = true := by simp [enabled, hfree, hat, hp]
    obtain ⟨r', hst⟩ := exists_step hen fun e he => by
      cases he
      exact ⟨p', hp'⟩
    have h := step_cases hst
    refine ⟨r', hst, ?_⟩
    rcases h.inner with ⟨e, hin, hproc⟩ | ⟨hin, -⟩
    · cases hin
      have hserver := Server.step_cases (Process.step_server_cases hproc).2.1
      rw [work, hserver.mover_loop rfl, Server.pushed_eq_nil (by simp [Server.pushes]), h.phase]
      simp [work, LoopThread.work, nextPhase, Server.move, BatchQueue.swap, hp, hd, hf, hs,
        Frame.work]
    · cases hin
  | cons a as =>
    obtain ⟨r', hst⟩ := hi.exists_turn hp hfree hat
    have h := step_cases hst
    refine ⟨r', hst, ?_⟩
    have hphase : r'.phase l = .handling as := by simp [h.phase, nextPhase, hp]
    rcases h.server_cases with hsame | ⟨e, hin, hserver⟩
    · simp [work, LoopThread.work, hphase, hsame, hp, hd]
    · have he : ∃ c, e = .dispatch l c := by
        simp only [inner, hp] at hin
        split at hin
        · rename_i c hc
          cases hin
          exact ⟨c, rfl⟩
        · cases hin
        · cases hin
      obtain ⟨c, rfl⟩ := he
      rw [work, hserver.mover_loop rfl, Server.pushed_eq_nil (by simp [Server.pushes]), hphase]
      simp only [work, LoopThread.work, Server.move, hp, hd, List.length_cons,
        List.append_nil, Option.isSome_some, Option.isSome_none, if_true, Bool.false_eq_true,
        if_false]
      omega

/-- Short of its poll a thread can take its next step, and has less work left then. -/
theorem Inv.next_step (hi : Inv listenAddr name r)
    (hb : ∀ l, OnBase (r.process.server.loops l).frame → l = 0)
    (hl : l ≤ r.process.server.threads) (hp : r.phase l ≠ .top) :
    ∃ r', r.step (r.next l) = some r' ∧ r'.work l < r.work l := by
  by_cases hf : (r.process.server.loops l).frame = .idle
  · cases hd : (r.process.server.loops l).dispatching with
    | some d =>
      have hfree := Server.free_of_le hi.process.server hl
      simp only [next, hf, hd, Option.isSome_some, if_true]
      refine hi.advance (by simp [Server.enabled, Server.inHandler, hfree, hf, hd]) rfl rfl
        fun s' hs => ?_
      rw [hs.mover_loop rfl, Server.pushed_eq_nil (by simp [Server.pushes])]
      cases hph : r.phase l with
      | top => exact absurd hph hp
      | handling active | executing => simp [work, LoopThread.work, Server.move, hph, hd]
    | none =>
      cases hph : r.phase l with
      | top => exact absurd hph hp
      | handling active => exact hi.go_on_handling hl hph hf hd
      | executing => exact hi.go_on_executing hl hph hf hd
  · exact hi.leave_frame hb hl hp hf

/-- What holds in every state that the rounds lead to. -/
structure Going (listenAddr : InetAddress) (name : List Char) (r : Rounds) : Prop where
  inv : Inv listenAddr name r
  onBase : ∀ l, OnBase (r.process.server.loops l).frame → l = 0

theorem Going.step {ev : RoundEvent} (hg : Going listenAddr name r) (hst : r.step ev = some r')
    (ho : ordinary ev = true) : Going listenAddr name r' := by
  refine ⟨step_inv hg.inv hst ho, ?_⟩
  rcases (step_cases hst).server_cases with hs | ⟨e, -, hs⟩
  · rw [hs]
    exact hg.onBase
  · exact Server.onBase_step hg.inv.process.server hs hg.onBase

theorem going_of_run (h : Run Rounds.step (.init (.init k (.init listenAddr name threads))) tr r)
    (ho : ∀ τ ∈ tr, ordinary τ.event = true) : Going listenAddr name r := by
  apply h.invariant_of (C := fun τ => ordinary τ.event = true) _
    (fun _ _ _ hg hst ho => hg.step hst ho) ho
  refine ⟨inv_of_run .nil (by simp), fun l hl => ?_⟩
  exact absurd hl id

theorem threads_step {ev : RoundEvent} (hst : r.step ev = some r') :
    r'.process.server.threads = r.process.server.threads := by
  rcases (step_cases hst).server_cases with hs | ⟨e, -, hs⟩
  · rw [hs]
  · exact hs.threads

/-- The event takes the thread of loop `l` on in its round. -/
def moves (l : ℕ) : RoundEvent → Bool
  | .process (.server e) => Server.mover e = some l
  | .process .listen => false
  | .poll m _ | .turn m _ | .execute m | .again m => m = l

/-- The functors that a step which is not the thread's own appends to its queue. -/
def queuedByOthers (l : ℕ) (τ : Transition Rounds RoundEvent) : ℕ :=
  if moves l τ.event then 0
  else
    match τ.pre.inner τ.event with
    | some (.server e) => (τ.pre.process.server.pushed e l).length
    | _ => 0

theorem moves_next (hg : Going listenAddr name r) (l : ℕ) : moves l (r.next l) = true := by
  unfold next
  cases hf : (r.process.server.loops l).frame with
  | idle =>
    simp only
    split_ifs
    · simp [moves, Server.mover]
    all_goals split <;> simp [moves, Server.mover]
  | closing c | closed c => simp [moves, Server.mover]
  | _ =>
    obtain rfl := hg.onBase l (by simp [hf, OnBase])
    simp [moves, Server.mover]

theorem Stepped.phase_of_not_moves {ev : RoundEvent} (h : Stepped r ev r')
    (hm : moves l ev = false) : r'.phase l = r.phase l := by
  have hphase := h.phase_cases l
  generalize r'.phase l = ph at hphase
  cases hphase with
  | same => rfl
  | poll | turn | execute | again => simp [moves] at hm

/-- A step of another thread is no step of this one inside the process either. -/
theorem Inv.mover_of_not_moves (hi : Inv listenAddr name r) {ev : RoundEvent}
    (hm : moves l ev = false) (hin : r.inner ev = some (.server e)) :
    Server.mover e ≠ some l := by
  cases ev with
  | process e' =>
    cases hin
    simpa [moves] using hm
  | turn m accepted =>
    have hne : m ≠ l := by simpa [moves] using hm
    simp only [inner] at hin
    split at hin
    · rename_i a as hp
      split at hin
      · cases hin
        simpa [Server.mover] using hne
      · -- only the base loop has the acceptor among its channels
        rename_i hres
        obtain ⟨⟨self, fd⟩, -, he⟩ := Option.map_eq_some_iff.1 hin
        cases he
        obtain ⟨i, hat⟩ := hi.active m _ hp a (by simp)
        obtain rfl : i = .acceptor := by simpa [hi.resolve_eq hat] using hres
        have h0 : 0 = m := hat.home
        simpa [Server.mover, h0] using hne
      · cases hin
    · cases hin
  | execute m =>
    cases hin
    simpa [moves, Server.mover] using hm
  | poll | again => cases hin

theorem LoopThread.work_push (t : LoopThread) (ph : Phase) (fs : List Task) :
    LoopThread.work { t with queue := { t.queue with pending := t.queue.pending ++ fs } } ph ≤
      t.work ph + 5 * fs.length := by
  cases ph <;> simp only [LoopThread.work, List.length_append] <;> omega

/-- A step of another thread makes no more work than it queues. -/
theorem Inv.work_of_not_moves (hi : Inv listenAddr name r) {ev : RoundEvent}
    (hst : r.step ev = some r') (hm : moves l ev = false) :
    r'.work l ≤ r.work l + 5 * queuedByOthers l ⟨r, ev, r'⟩ := by
  have h := step_cases hst
  rw [work, h.phase_of_not_moves hm]
  rcases h.server_cases with hs | ⟨e, hin, hs⟩
  · rw [hs]
    exact Nat.le_add_right ..
  · have hq : queuedByOthers l ⟨r, ev, r'⟩ = (r.process.server.pushed e l).length := by
      simp [queuedByOthers, hm, hin]
    rw [hq, hs.loop, Server.moved_eq, if_neg (hi.mover_of_not_moves hm hin)]
    exact LoopThread.work_push ..

/-- While the server lives and no other thread sends: from every state that the rounds lead
to, whatever the other threads do, the thread of a loop whose handlers begin no further close
gets back to its poll. Until then its next step can always be taken, and it takes no more of
them than there is work left of its round and in what others queue meanwhile. -/
theorem back_to_poll (h : Run Rounds.step (.init (.init k (.init listenAddr name threads))) tr r)
    (ho : ∀ τ ∈ tr, ordinary τ.event = true) (hl : l ≤ r.process.server.threads) :
    ∀ tr' r', Run Rounds.step r tr' r' → (∀ τ ∈ tr', ordinary τ.event = true ∧
      (moves l τ.event = true → τ.pre.phase l ≠ .top ∧ τ.event = τ.pre.next l)) →
    tr'.countP (fun τ => moves l τ.event) ≤ r.work l + 5 * (tr'.map (queuedByOthers l)).sum ∧
      (r'.phase l ≠ .top →
        moves l (r'.next l) = true ∧ ∃ r'', r'.step (r'.next l) = some r'') := by
  intro tr' r' hr hc
  have hstep (s : Rounds) (ev : RoundEvent) (s' : Rounds)
      (hi : Going listenAddr name s ∧ l ≤ s.process.server.threads) (hst : s.step ev = some s')
      (hc : ordinary ev = true ∧ (moves l ev = true → s.phase l ≠ .top ∧ ev = s.next l)) :
      (Going listenAddr name s' ∧ l ≤ s'.process.server.threads) ∧
        s'.work l + (moves l ev).toNat ≤ s.work l + 5 * queuedByOthers l ⟨s, ev, s'⟩ := by
    refine ⟨⟨hi.1.step hst hc.1, (threads_step hst).symm ▸ hi.2⟩, ?_⟩
    cases hm : moves l ev with
    | false => simpa using hi.1.inv.work_of_not_moves hst hm
    | true =>
      obtain ⟨hp, rfl⟩ := hc.2 hm
      obtain ⟨s'', hst', hlt⟩ := hi.1.inv.next_step hi.1.onBase hi.2 hp
      obtain rfl : s'' = s' := Option.some.inj (hst'.symm.trans hst)
      simp only [Bool.toNat_true]
      omega
  obtain ⟨⟨hg, hl'⟩, hle⟩ := hr.countP_le_of_measure (fun r : Rounds => r.work l)
    (fun τ => moves l τ.event) (fun τ => 5 * queuedByOthers l τ) hstep ⟨going_of_run h ho, hl⟩ hc
  rw [List.sum_map_mul_left] at hle
  refine ⟨by omega, fun hp => ⟨moves_next hg l, ?_⟩⟩
  obtain ⟨r'', hst, -⟩ := hg.inv.next_step hg.onBase hl' hp
  exact ⟨r'', hst⟩

/-- Loop 1 has polled two channels and a connection is being closed in the first dispatch. -/
def midRound : List RoundEvent :=
  twoReady ++ [.turn 1 none, .turn 1 none, .process (.server (.handleClose 1))]

theorem back_to_poll_mid_round : ∃ tr r,
    Run Rounds.step (.init (.init Process.sampleLayout (.sample 1))) tr r ∧
    tr.map Transition.event = midRound ∧
    (r.process.server.loops 1).frame = .closing 0 ∧ r.work 1 = 12 ∧
    ∀ tr' r', Run Rounds.step r tr' r' → (∀ τ ∈ tr', ordinary τ.event = true ∧
      (moves 1 τ.event = true → τ.pre.phase 1 ≠ .top ∧ τ.event = τ.pre.next 1)) →
    tr'.countP (fun τ => moves 1 τ.event) ≤ r.work 1 + 5 * (tr'.map (queuedByOthers 1)).sum ∧
      (r'.phase 1 ≠ .top →
        moves 1 (r'.next 1) = true ∧ ∃ r'', r'.step (r'.next 1) = some r'') := by
  obtain ⟨tr, r, hr, he, ho, hl, hf, hw⟩ := exists_run Rounds.step
    (.init (.init Process.sampleLayout (.sample 1))) midRound
    (P := fun tr r => (∀ τ ∈ tr, ordinary τ.event = true) ∧ 1 ≤ r.process.server.threads ∧
      (r.process.server.loops 1).frame = .closing 0 ∧ r.work 1 = 12) (by decide +kernel)
  exact ⟨tr, r, hr, he, hf, hw, back_to_poll hr ho hl⟩

end Rounds
end Armsy
