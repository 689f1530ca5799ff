import Armsy.Proofs.ServerSpec

/-! The owners of a connection. A pointer is only ever copied from one there is, so that
a connection which has lost its last owner stays without. -/

namespace Armsy
namespace Server

variable {s s' : Server} {e : ServerEvent} {c l : ℕ} {f : Task}

inductive Owner (s : Server) (c : ℕ) : Prop
  | table : s.mapped c = true → Owner s c
  | functor {l : ℕ} {f : Task} : l ≤ s.threads →
      f ∈ (s.loops l).queue.waiting ∨ f ∈ (s.loops l).spent → f.owns = some c → Owner s c
  | guard {l : ℕ} : l ≤ s.threads → (s.loops l).dispatching = some (c, true) → Owner s c
  | frame {l : ℕ} : l ≤ s.threads → 0 < (s.loops l).frame.refs c → Owner s c
  | user {u : User} : u ∈ s.users → u.conn = c → Owner s c
  | destructor {todo : List ℕ} : s.life = .destructing (some c) todo → Owner s c

theorem refs_eq_zero {t : LoopThread} (hf : ∀ f ∈ t.queue.waiting ++ t.spent, f.owns ≠ some c)
    (hd : t.dispatching ≠ some (c, true)) (hr : t.frame.refs c = 0) : t.refs c = 0 := by
  rw [LoopThread.refs, if_neg hd, hr, List.countP_eq_zero.2]
  intro f hmem
  simpa using hf f hmem

theorem owner_iff : Owner s c ↔ 0 < s.refCount c := by
  constructor
  · rintro (hm | ⟨hl, hf, ho⟩ | ⟨hl, hd⟩ | ⟨hl, hr⟩ | ⟨hu, hc⟩ | hlife)
    · exact refCount_pos_of_mapped hm
    · exact refCount_pos_of_task hl hf ho
    · refine refCount_pos_of_loop hl ?_
      simp [LoopThread.refs, hd]
    · exact refCount_pos_of_frame hl hr
    · exact refCount_pos_of_user hu hc
    · simp [refCount, hlife]
  · intro h
    by_contra hno
    have hm : s.mapped c = false := by simpa using fun hm => hno (.table hm)
    have hu : s.users.countP (·.conn = c) = 0 :=
      List.countP_eq_zero.2 fun u hu => by simpa using fun hc => hno (.user hu hc)
    have hloops : ((List.range (s.threads + 1)).map fun l => (s.loops l).refs c).sum = 0 := by
      refine List.sum_eq_zero fun n hn => ?_
      obtain ⟨l, hl, rfl⟩ := List.mem_map.1 hn
      have hl : l ≤ s.threads := by simpa [Nat.lt_succ_iff] using hl
      refine refs_eq_zero ?_ (fun hd => hno (.guard hl hd)) ?_
      · intro f hf ho
        exact hno (.functor hl (List.mem_append.1 hf) ho)
      · by_contra hr
        exact hno (.frame hl (Nat.pos_of_ne_zero hr))
    simp only [refCount, hm, hu, hloops, Bool.false_eq_true, if_false, Nat.zero_add] at h
    split at h
    · rename_i d todo hlife
      split_ifs at h with hd
      · exact hno (.destructor (hd ▸ hlife))
      · exact absurd h (lt_irrefl _)
    · exact absurd h (lt_irrefl _)

/-- A `removeConnectionInLoop` that the batch runs is kept by the functor it came from. -/
def Anchored (s : Server) : Prop := ∀ l c,
  (s.loops l).frame = .removing c false ∨ (s.loops l).frame = .removed c false →
    .removeConnectionInLoop c ∈ (s.loops l).spent

theorem init_anchored (listenAddr : InetAddress) (name : List Char) (threads : ℕ) :
    Anchored (init listenAddr name threads) := by
  simp [Anchored, init, LoopThread.start]

theorem Stepped.anchored (h : Stepped s e s') (ha : Anchored s) : Anchored s' := by
  intro l c hf
  have hready := h.ready
  have kept (hf : (s.loops l).frame = .removing c false ∨ (s.loops l).frame = .removed c false) :
      .removeConnectionInLoop c ∈ (s'.loops l).spent := by
    rcases h.spent_kept (ha l c hf) with hs | rfl
    · exact hs
    -- functors are destroyed only on a thread that is in nothing else
    · cases hready with
      | dropFunctor _ hidle => simp [hidle] at hf
  rcases h.frame_cases l with hs | hs
  · rw [hs] at hf
    exact kept hf
  · generalize (s'.loops l).frame = fr at hs hf
    cases hs with
    | erase h0 =>
      obtain ⟨rfl, rfl⟩ : _ = c ∧ _ = false := by simpa using hf
      exact kept (.inl h0)
    | runFunctor _ hb =>
      obtain rfl : _ = c := by simpa using hf
      exact h.spent_of_run hb
    | _ => simp at hf

theorem le_of_free (h : s.free l = true) : l ≤ s.threads := by
  simp only [free, Bool.and_eq_true, decide_eq_true_eq] at h
  exact h.1.1

theorem running_of_free (h : s.free l = true) : (s.loops l).running = true := by
  simp only [free, Bool.and_eq_true] at h
  exact h.1.2

theorem Stepped.lt_accepted {self fd : ℕ} (h : Stepped s (.accept self fd) s') :
    s.accepted < s'.accepted := by
  rw [h.accepted]
  exact Nat.lt_succ_self _

/-- The entry of a connection appears only when it is accepted. -/
theorem Stepped.mapped_cases (h : Stepped s e s') (hc : c < s'.accepted → c < s.accepted)
    (hm : s'.mapped c = true) : s.mapped c = true := by
  simp only [mapped, decide_eq_true_eq, (h.name_eq_of_not_new hc).1] at hm ⊢
  have erased {n : List Char}
      (hm : (s.table.erase n).connections (s.conns c).name = some c) :
      s.table.connections (s.conns c).name = some c := by
    by_cases hn : (s.conns c).name = n
    · subst hn
      simp [TcpServer.erase] at hm
    · exact (Function.update_of_ne hn ..).symm.trans hm
  rcases h.table_cases with ⟨ht, -⟩ | ht
  · rwa [ht] at hm
  · generalize s'.table = t at ht hm
    cases ht with
    | accept ht =>
      obtain ⟨-, rfl⟩ := TcpServer.newConnection_cases ht
      by_cases hn : (s.conns c).name = s.table.connName
      · simp only [hn, Function.update_self, Option.some.injEq] at hm
        subst hm
        exact absurd (hc (h.lt_accepted)) (lt_irrefl _)
      · exact (Function.update_of_ne hn ..).symm.trans hm
    | erase _ => exact erased hm
    | destroyNext => exact erased hm

/-- A functor that owns a connection is bound by code that has a pointer to it. -/
theorem owner_of_pushing (h : Stepped s e s') (ha : Anchored s) (hp : Pushing s e l f)
    (ho : f.owns = some c) : Owner s c := by
  have hready := h.ready
  cases hp with
  | establish hf _ =>
    cases ho
    exact .frame (Nat.zero_le _) (by simp [hf, Frame.refs])
  | removeConnection hf _ =>
    cases ho
    cases hready with
    | removeConnection hfree => exact .frame (le_of_free hfree) (by simp [hf, Frame.refs])
  | @pushDestory _ nested hf =>
    cases ho
    cases nested with
    | false => exact .functor (Nat.zero_le _) (.inr (ha 0 _ (.inr hf))) rfl
    | true => exact .frame (Nat.zero_le _) (by simp [hf, Frame.refs])
  | notice =>
    cases ho
    cases hready with
    | notice _ _ _ _ hc => exact owner_iff.2 hc
  | send _ _ | shutdown _ _ => cases ho
  | destroyNext _ =>
    cases ho
    cases hready with
    | destroyNext _ _ hm => exact .table hm

theorem of_ite_pos {p : Prop} [Decidable p] {n : ℕ} (h : 0 < if p then n else 0) : p := by
  by_contra hp
  simp [hp] at h

/-- So is a local pointer. -/
theorem owner_of_frameStep (h : Stepped s e s') {fr : Frame} (hl : l ≤ s.threads)
    (hf : FrameStep s e l fr) (hc : c < s'.accepted → c < s.accepted) (hr : 0 < fr.refs c) :
    Owner s c := by
  have hready := h.ready
  cases hf with
  | accept _ =>
    obtain rfl := of_ite_pos hr
    exact absurd (hc h.lt_accepted) (lt_irrefl _)
  | establish h0 | removeConnection _ h0 | pushDestoryNested h0 =>
    obtain rfl := of_ite_pos hr
    exact .frame hl (by simp [h0, Frame.refs])
  | removeConnectionNow h0 =>
    obtain ⟨rfl, -⟩ := of_ite_pos hr
    exact .frame hl (by simp [h0, Frame.refs])
  | handleClose _ hd =>
    cases hready with
    | handleClose _ hd' hpos =>
      rw [hd, Option.some.injEq, Prod.mk.injEq] at hd'
      obtain ⟨rfl, -⟩ := hd'
      obtain rfl := of_ite_pos hr
      exact owner_iff.2 hpos
  | erase h0 => exact .frame hl (by simpa [h0, Frame.refs] using hr)
  | endAccept _ | endClose _ | pushDestory _ => exact absurd hr (lt_irrefl _)
  | runFunctor _ _ => simp [Frame.refs] at hr

theorem owner_of_canCopy (h : s.canCopy c = true) : Owner s c := by
  simp only [canCopy, LoopThread.passes, Bool.or_eq_true, Bool.and_eq_true, List.any_eq_true,
    decide_eq_true_eq, List.mem_range, Nat.lt_succ_iff] at h
  rcases h with (⟨u, hu, hc⟩ | ⟨l, hl, (hf | hd) | ⟨f, hf, hc⟩⟩) | ⟨-, hf | hlife⟩
  · exact .user hu hc
  · exact .frame hl (by simp [hf, Frame.refs])
  · exact .guard hl hd
  · refine .functor hl (.inr hf) ?_
    rcases hc with (rfl | rfl) | rfl <;> rfl
  · exact .frame (Nat.zero_le _) (by simp [hf, Frame.refs])
  · split at hlife
    · rename_i d todo hd
      simp only [decide_eq_true_eq] at hlife
      subst hlife
      exact .destructor hd
    · cases hlife

/-- A connection that is not made by the step has an owner after it only when it had one
before. -/
theorem owner_step (h : Stepped s e s') (ha : Anchored s) (hc : c < s'.accepted → c < s.accepted)
    (ho : Owner s' c) : Owner s c := by
  have hready := h.ready
  cases ho with
  | table hm => exact .table (h.mapped_cases hc hm)
  | @functor l f hl hf ho =>
    rw [h.threads] at hl
    rcases hf with hf | hf
    · rcases h.waiting_cases hf with hf | hp
      · exact .functor hl (.inl hf) ho
      · exact owner_of_pushing h ha (pushes_cases hp) ho
    · rcases h.spent_cases hf with hf | ⟨waits, fs, rfl, hb⟩
      · exact .functor hl (.inr hf) ho
      · exact .functor hl (.inl (by simp [BatchQueue.waiting, hb])) ho
  | @guard l hl hd =>
    rw [h.threads] at hl
    rcases h.dispatching_cases hd with hd | ⟨rfl, -⟩
    · exact .guard hl hd
    · cases hready with
      | dispatch _ _ _ _ _ hc => exact owner_iff.2 hc
  | @frame l hl hr =>
    rw [h.threads] at hl
    rcases h.frame_cases l with hs | hs
    · exact .frame hl (hs ▸ hr)
    · exact owner_of_frameStep h hl hs hc hr
  | @user u hu hc =>
    rcases h.users_cases hu with hu | hu
    · exact .user hu hc
    · cases hu with
      | copy =>
        subst hc
        exact owner_of_canCopy h.enabled
      | send hv _ | shutdown hv _ | shutdownSet hv | enqueue hv => exact .user hv hc
  | @destructor todo hlife =>
    rw [h.life] at hlife
    cases e with
    | destroyNext d =>
      cases hready with
      | destroyNext hd _ hm =>
        simp only [nextLife, hd, Life.destructing.injEq, Option.some.injEq] at hlife
        exact .table (hlife.1 ▸ hm)
    | endDestroyNext =>
      simp only [nextLife] at hlife
      split at hlife
      · cases hlife
      · rename_i hd
        exact .destructor hlife
    | destroy | destroyed => cases hlife
    | _ => exact .destructor hlife

/-! ### What holds in every reachable state -/

/-- The loop whose queue a functor goes to. -/
def loopOf (s : Server) : Task → ℕ
  | .removeConnectionInLoop _ => 0
  | f => (s.conns f.conn).loop

/-- Only accepted connections have owners; functors and dispatches are on the loops of their
connections, and no loop is joined before `~TcpServer`. -/
structure Owned (s : Server) : Prop where
  anchored : Anchored s
  accepted : ∀ c, Owner s c → c < s.accepted
  queued : ∀ l, ∀ f ∈ (s.loops l).queue.waiting, f.conn < s.accepted ∧ s.loopOf f = l
  dispatching : ∀ l d, (s.loops l).dispatching = some d →
    d.1 < s.accepted ∧ (s.conns d.1).loop = l
  base : (s.loops 0).running = true
  alive : s.life = .alive → ∀ l, (s.loops l).running = true

theorem init_owned (listenAddr : InetAddress) (name : List Char) (threads : ℕ) :
    Owned (init listenAddr name threads) where
  anchored := init_anchored listenAddr name threads
  accepted := by
    rintro c (hm | ⟨-, hf, -⟩ | ⟨-, hd⟩ | ⟨-, hr⟩ | ⟨hu, -⟩ | hlife)
    · simp [mapped, init, TcpServer.new] at hm
    · simp [init, LoopThread.start] at hf
    · simp [init, LoopThread.start] at hd
    · simp [init, LoopThread.start, Frame.refs] at hr
    · simp [init] at hu
    · simp [init] at hlife
  queued := by simp [init, LoopThread.start]
  dispatching := by simp [init, LoopThread.start]
  base := rfl
  alive := fun _ _ => rfl

/-- A functor goes to the loop of its connection, which has an owner then. -/
theorem Owned.pushing (hi : Owned s) (h : Stepped s e s') (hp : Pushing s e l f) :
    f.conn < s.accepted ∧ s.loopOf f = l := by
  have owned (ho : f.owns = some f.conn) : f.conn < s.accepted :=
    hi.accepted _ (owner_of_pushing h hi.anchored hp ho)
  have hready := h.ready
  cases hp with
  | establish | removeConnection | pushDestory | destroyNext => exact ⟨owned rfl, rfl⟩
  | notice =>
    cases hready with
    | notice _ _ hl => exact ⟨owned rfl, hl⟩
  | send hu | shutdown hu => exact ⟨hi.accepted _ (.user (List.mem_of_getElem? hu) rfl), rfl⟩

theorem Stepped.loopOf_eq (h : Stepped s e s') (hf : f.conn < s.accepted) :
    s'.loopOf f = s.loopOf f := by
  cases f with
  | removeConnectionInLoop c => rfl
  | _ => exact (h.name_eq hf).2

theorem Owned.queued_step (hi : Owned s) (h : Stepped s e s')
    (hf : f ∈ (s'.loops l).queue.waiting) : f.conn < s'.accepted ∧ s'.loopOf f = l := by
  obtain ⟨hc, hl⟩ : f.conn < s.accepted ∧ s.loopOf f = l := by
    rcases h.waiting_cases hf with hf | hp
    · exact hi.queued l f hf
    · exact hi.pushing h (pushes_cases hp)
  exact ⟨hc.trans_le h.accepted_le, (h.loopOf_eq hc).trans hl⟩

theorem Owned.dispatching_step (hi : Owned s) (h : Stepped s e s') {d : ℕ × Bool}
    (hd : (s'.loops l).dispatching = some d) :
    d.1 < s'.accepted ∧ (s'.conns d.1).loop = l := by
  have hready := h.ready
  obtain ⟨hc, hl⟩ : d.1 < s.accepted ∧ (s.conns d.1).loop = l := by
    rcases h.dispatching_cases hd with hd | ⟨rfl, -⟩
    · exact hi.dispatching l d hd
    · cases hready with
      | dispatch _ _ hc hl => exact ⟨hc, hl⟩
  exact ⟨hc.trans_le h.accepted_le, (h.name_eq hc).2.trans hl⟩

theorem Stepped.alive_of_alive (h : Stepped s e s') (ha : s'.life = .alive) : s.life = .alive := by
  have hready := h.ready
  rw [h.life] at ha
  cases hready with
  | destroy | destroyed => cases ha
  | destroyNext hd | endDestroyNext hd => simp [nextLife, hd] at ha
  | _ => exact ha

theorem step_owned (hi : Owned s) (hs : s.step e = some s') : Owned s' := by
  have h := step_cases hs
  refine ⟨h.anchored hi.anchored, ?_, fun l f => hi.queued_step h,
    fun l d => hi.dispatching_step h, ?_, ?_⟩
  · intro c ho
    by_contra hc
    have hold := hi.accepted c (owner_step h hi.anchored (fun hlt => absurd hlt hc) ho)
    exact hc (hold.trans_le h.accepted_le)
  · refine h.running_iff.2 ⟨hi.base, ?_⟩
    rintro rfl
    cases h.ready with
    | stop _ hpos => exact absurd hpos (lt_irrefl 0)
  · intro ha l
    have ha := h.alive_of_alive ha
    refine h.running_iff.2 ⟨hi.alive ha l, ?_⟩
    rintro rfl
    cases h.ready with
    | stop hd => simp [ha] at hd

/-- A connection that has lost its last owner stays without. -/
theorem refCount_zero_of_run {tr : List (Transition Server ServerEvent)} (hi : Owned s)
    (h : Run step s tr s') (hc : c < s.accepted) (hz : s.refCount c = 0) : s'.refCount c = 0 := by
  refine (h.invariant (I := fun s => Owned s ∧ c < s.accepted ∧ s.refCount c = 0) ⟨hi, hc, hz⟩
    ?_).2.2
  rintro s e s' ⟨hi, hc, hz⟩ hst
  have hs := step_cases hst
  refine ⟨step_owned hi hst, hc.trans_le hs.accepted_le, ?_⟩
  by_contra hne
  have hpos := owner_iff.1
    (owner_step hs hi.anchored (fun _ => hc) (owner_iff.2 (Nat.pos_of_ne_zero hne)))
  omega

end Server
end Armsy
