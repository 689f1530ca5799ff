import Armsy.Proofs.SystemSpec

/-! Whether a requested `shutdown()` is carried out, on a connection that is not
torn down. The request lives in `state_` alone while output drains, and every
`sendInLoop` overwrites that; and a `shutdown()` that finds kDisconnected does
nothing at all. -/

namespace Armsy
namespace HalfClose

open Armsy.System (ran)

variable {cfg : Config} {mem : Memory Byte} {s s' : System} {e : Event}
  {tr : List (Transition System Event)}

/-- The step does not tear the connection down. -/
def StaysOpen (τ : Transition System Event) : Bool := !(ran τ).closes && ran τ != .connDestory

/-- SHUT_WR has been issued. -/
def Issued (s : System) : Prop := .shutdownWrite ∈ s.conn.log

/-- A `shutdown()` has set kDisconnecting and its `shutdownInLoop` has not run. -/
def Outstanding (s : System) : Prop :=
  (∃ t, s.calls t = .shutdownSet) ∨ .shutdownInLoop ∈ s.waiting

/-- Output is waiting, with write interest, and SHUT_WR comes after it. -/
structure Draining (s : System) : Prop where
  unread : s.conn.outputBuffer.unread ≠ []
  writeSet : s.conn.channel.isWriteSet = true
  disconnecting : s.conn.state = .disconnecting

/-- A `shutdown()` that has returned, and whose queued work has run, was carried
out or will be when the output has drained. -/
def Kept (s : System) : Prop :=
  s.shutdownReturned = true → ¬ Outstanding s → Issued s ∨ Draining s

/-- Some `shutdownInLoop` is still to run after the event. -/
def LeavesOutstanding (s : System) (e : Event) : Prop :=
  (∃ t, s.nextCalls e t = .shutdownSet) ∨ .shutdownInLoop ∈ (s.front e).loop.functors.waiting

/-- The test of `state_` in `shutdown()`. -/
def tests : Event → Bool
  | .shutdown _ => true
  | _ => false

/-- `shutdown()` does not find kDisconnected, `shutdownInLoop` does not leave its work
to a state that is not kDisconnecting, and `sendInLoop` does not run after a request. -/
structure Careful (τ : Transition System Event) : Prop where
  test : tests τ.event = true → τ.pre.conn.state ≠ .disconnected
  shutdownInLoop : ran τ = .shutdownInLoop → τ.pre.conn.channel.isWriteSet = true →
    τ.pre.conn.state = .disconnecting
  send : (ran τ).sends = true → τ.pre.shutdownReturned = false

/-- The step is careful, unless SHUT_WR is out or another `shutdownInLoop` is to run. -/
def Meets (τ : Transition System Event) : Prop :=
  Issued τ.pre ∨ LeavesOutstanding τ.pre τ.event ∨ Careful τ

theorem careful_iff (τ : Transition System Event) : Careful τ ↔
    (tests τ.event = true → τ.pre.conn.state ≠ .disconnected) ∧
      (ran τ = .shutdownInLoop → τ.pre.conn.channel.isWriteSet = true →
        τ.pre.conn.state = .disconnecting) ∧
      ((ran τ).sends = true → τ.pre.shutdownReturned = false) :=
  ⟨fun ⟨h1, h2, h3⟩ => ⟨h1, h2, h3⟩, fun ⟨h1, h2, h3⟩ => ⟨h1, h2, h3⟩⟩

instance (τ : Transition System Event) : Decidable (Careful τ) :=
  decidable_of_iff' _ (careful_iff τ)

structure Inv (s : System) : Prop where
  sound : s.Sound
  established : s.established = true
  flushing : s.conn.Flushing
  kept : Kept s
  /-- kDisconnecting comes from a `shutdown()` that has returned or is on its way -/
  requested : s.conn.state = .disconnecting →
    s.shutdownReturned = true ∨ ∃ t, s.calls t = .shutdownSet
  inLoop : s.calls .loop = .shutdownSet → s.conn.state = .disconnecting
  queued : .shutdownInLoop ∈ s.waiting → s.shutdownReturned = true

theorem up_inv (cfg : Config) (mem : Memory Byte) : Inv (System.up cfg mem) where
  sound := System.up_sound cfg mem
  established := rfl
  flushing := TcpConnection.established_flushing cfg
  kept := by simp [Kept, System.up, System.init]
  requested := by simp [System.up, TcpConnection.established]
  inLoop := by simp [System.up, System.init]
  queued := by
    simp [System.waiting, System.up, TcpConnection.established, BatchQueue.waiting,
      BatchQueue.empty]

/-! ### Calls in progress -/

/-- A call past its `setState(kDisconnecting)` stays there until it runs or queues
`shutdownInLoop`. -/
theorem nextCalls_of_shutdownSet {t : ThreadId} (h : s.calls t = .shutdownSet)
    (he : s.enabled e = true) : s.nextCalls e t = .shutdownSet ∨ e = .shutdownRun t := by
  rcases System.nextCalls_cases s e t with hn | hn
  · exact .inl (hn.trans h)
  · generalize s.nextCalls e t = c at hn
    cases hn with
    | send | shutdown => simp [System.enabled, System.free, h] at he
    | sendRun | shutdownSet => simp [System.enabled, h] at he
    | shutdownRun => exact .inr rfl

/-- If no `shutdownInLoop` is left and the event ran none, none was outstanding. -/
theorem not_outstanding (he : s.enabled e = true) (hl : ¬ LeavesOutstanding s e)
    (hop : s.op e ≠ .shutdownInLoop) : ¬ Outstanding s := by
  have hw := System.front_waiting he
  rintro (⟨t, ht⟩ | hmem)
  · rcases nextCalls_of_shutdownSet ht he with hn | rfl
    · exact hl (.inl ⟨t, hn⟩)
    · obtain ⟨-, ho⟩ := System.op_shutdownRun he
      by_cases hloop : t = .loop
      · exact hop (by rw [ho, if_pos hloop])
      · refine hl (.inr ?_)
        simp only [System.taken, System.queued, if_neg hloop, ht, System.boundFunctor,
          List.nil_append] at hw
        simp [hw]
  · have hmem' : .shutdownInLoop ∈ s.taken e ++ (s.front e).loop.functors.waiting := by
      rw [hw]
      exact List.mem_append_left _ hmem
    rcases List.mem_append.1 hmem' with ht | hf
    · cases e with
      | runFunctor r junk =>
        obtain ⟨f, htake, -, ho⟩ := System.op_runFunctor he
        rw [htake, List.mem_singleton] at ht
        rw [ho, ← ht] at hop
        exact hop rfl
      | _ => simp [System.taken] at ht
    · exact hl (.inr hf)

/-! ### One step -/

theorem op_shutdownInLoop (he : s.enabled e = true) (ho : s.op e = .shutdownInLoop) :
    (∃ t, e = .shutdownRun t) ∨ .shutdownInLoop ∈ s.waiting := by
  cases e with
  | shutdownRun t => exact .inl ⟨t, rfl⟩
  | sendRun t r junk =>
    obtain ⟨buf, snap, -, ho'⟩ := System.op_sendRun he
    rw [ho'] at ho
    split_ifs at ho
  | runFunctor r junk =>
    obtain ⟨f, -, hf, ho'⟩ := System.op_runFunctor he
    rw [ho'] at ho
    cases f with
    | shutdownInLoop => exact .inr hf
    | _ => cases ho
  | _ => cases ho

/-- A call of `shutdown()` returns at once, or after it ran or queued `shutdownInLoop`. -/
theorem returnsShutdown_cases (he : s.enabled e = true) (hr : s.returnsShutdown e = true) :
    (∃ t, e = .shutdown t ∧ s.conn.state ≠ .connected) ∨ s.op e = .shutdownInLoop ∨
      LeavesOutstanding s e := by
  cases e with
  | shutdown t => exact .inl ⟨t, rfl, by simpa [System.returnsShutdown] using hr⟩
  | shutdownRun t =>
    right
    obtain ⟨hc, ho⟩ := System.op_shutdownRun he
    by_cases hloop : t = .loop
    · exact .inl (by rw [ho, if_pos hloop])
    · have hw := System.front_waiting he
      simp only [System.taken, System.queued, if_neg hloop, hc, System.boundFunctor,
        List.nil_append] at hw
      exact .inr (.inr (by simp [hw]))
  | _ => cases hr

theorem op_setDisconnecting (h : s.op e = .setDisconnecting) : ∃ t, e = .shutdownSet t := by
  rcases System.op_cases s e with ⟨f, r, junk, hf, -⟩ | ho
  · rw [h] at hf
    cases f <;> cases hf
  · rw [h] at ho
    cases e with
    | shutdownSet t => exact ⟨t, rfl⟩
    | _ => cases ho

/-- What is draining goes on draining, or SHUT_WR is issued. -/
theorem draining_step (hi : Inv s) (hs : System.Stepped s e s') (hd : Draining s)
    (hopen : StaysOpen ⟨s, e, s'⟩ = true) (hsend : (s.op e).sends = false) :
    Issued s' ∨ Draining s' := by
  have hw := hi.sound.wellIndexed
  simp only [StaysOpen, ran, Bool.and_eq_true, Bool.not_eq_true', bne_iff_ne] at hopen
  have hstate : s'.conn.state = .disconnecting := by
    rw [hs.state hw, hd.disconnecting]
    have hne := hs.op_ne_connEstablish hi.established
    revert hopen hsend hne
    generalize s.op e = o
    intro hopen hsend hne
    unfold Op.stateAfter
    split <;> simp_all [Op.sends, Op.closes]
  by_cases hdr : ∃ r, s.op e = .handleWrite r ∧ s.conn.drains r = true
  · obtain ⟨r, ho, hdr⟩ := hdr
    refine .inl ((hs.mem_log hw).2 (.inr ?_))
    simp [ho, TcpConnection.effects, hd.writeSet, hdr, hd.disconnecting]
  · have hset : s'.conn.channel.isWriteSet = true := by
      rw [hs.writeSet hw]
      unfold TcpConnection.writeSetAfter
      split
      · simp [hd.writeSet]
      · rename_i r ho
        have : s.conn.drains r = false := by simpa using fun h => hdr ⟨r, ho, h⟩
        simp [hd.writeSet, this]
      · rename_i ho
        exact absurd ho hopen.2
      · simp [hd.writeSet, hopen.1]
    exact .inr ⟨(hs.flushing hw hi.flushing hopen.1 hopen.2).1 hset, hset, hstate⟩

/-- `shutdownInLoop` issues SHUT_WR or leaves it to the drain. -/
theorem shutdownInLoop_step (hi : Inv s) (hs : System.Stepped s e s')
    (ho : s.op e = .shutdownInLoop) (hissued : ¬ Issued s) : Issued s' ∨ Draining s' ↔
      (s.conn.channel.isWriteSet = true → s.conn.state = .disconnecting) := by
  have hw := hi.sound.wellIndexed
  have hstate : s'.conn.state = s.conn.state := by rw [hs.state hw, ho]; rfl
  have hset : s'.conn.channel.isWriteSet = s.conn.channel.isWriteSet := by
    rw [hs.writeSet hw, ho]
    simp [TcpConnection.writeSetAfter, Op.closes]
  have hflush := hs.flushing hw hi.flushing (by simp [ho, Op.closes]) (by simp [ho])
  have hlog : Issued s' ↔ s.conn.channel.isWriteSet = false := by
    rw [Issued, hs.mem_log hw, ho]
    unfold Issued at hissued
    simp [hissued, TcpConnection.effects]
  cases hwr : s.conn.channel.isWriteSet with
  | false => exact iff_of_true (.inl (hlog.2 hwr)) (by simp)
  | true =>
    rw [hlog, hwr]
    simp only [Bool.true_eq_false, false_or, forall_const]
    rw [← hstate]
    constructor
    · intro hd
      exact hd.disconnecting
    · intro hd
      exact ⟨hflush.1 (by rw [hset, hwr]), by rw [hset, hwr], hd⟩

/-- `sendInLoop` issues no SHUT_WR and leaves nothing to the drain. -/
theorem sends_step (hi : Inv s) (hs : System.Stepped s e s') (ho : (s.op e).sends = true)
    (hissued : ¬ Issued s) : ¬ (Issued s' ∨ Draining s') := by
  have hw := hi.sound.wellIndexed
  obtain ⟨data, r, junk, hop⟩ : ∃ data r junk, s.op e = .sendInLoop data r junk := by
    cases hop : s.op e with
    | sendInLoop data r junk => exact ⟨data, r, junk, rfl⟩
    | _ => simp [hop, Op.sends] at ho
  rintro (hlog | hdrain)
  · rcases (hs.mem_log hw).1 hlog with hold | hnew
    · exact hissued hold
    · cases TcpConnection.logs_of_mem (System.silent_op s e) hnew with
      | shutdownInLoop ho' => rw [ho'] at ho; cases ho
      | drained ho' => rw [ho'] at ho; cases ho
  · have := hdrain.disconnecting
    rw [hs.state hw, hop] at this
    cases this

theorem outstanding_iff (hw : s.conn.outputBuffer.WellIndexed) (hs : System.Stepped s e s') :
    Outstanding s' ↔ LeavesOutstanding s e := by
  rw [Outstanding, LeavesOutstanding, hs.calls, hs.mem_waiting hw (by simp [Functor.IsNotice])]

/-- With no `shutdownInLoop` left to run, a request is kept when it is carried out. -/
theorem kept_iff_of_none_left (hw : s.conn.outputBuffer.WellIndexed) (hs : System.Stepped s e s')
    (hleft : ¬ LeavesOutstanding s e) :
    Kept s' ↔ (s'.shutdownReturned = true → Issued s' ∨ Draining s') := by
  simp [Kept, outstanding_iff hw hs, hleft]

/-- A step that runs no `shutdownInLoop` and leaves none returns from `shutdown()`
only where its test fails. -/
theorem returned_iff (hs : System.Stepped s e s') (hleft : ¬ LeavesOutstanding s e)
    (hrun : s.op e ≠ .shutdownInLoop) : s'.shutdownReturned = true ↔
      s.shutdownReturned = true ∨ ∃ t, e = .shutdown t ∧ s.conn.state ≠ .connected := by
  rw [hs.shutdownReturned, Bool.or_eq_true]
  apply or_congr_right
  constructor
  · intro hr
    exact (returnsShutdown_cases hs.enabled hr).resolve_right (not_or.2 ⟨hrun, hleft⟩)
  · rintro ⟨t, rfl, hne⟩
    simpa [System.returnsShutdown] using hne

theorem returned_of_shutdownInLoop (hi : Inv s) (hs : System.Stepped s e s')
    (hrun : s.op e = .shutdownInLoop) : s'.shutdownReturned = true := by
  rw [hs.shutdownReturned, Bool.or_eq_true]
  rcases op_shutdownInLoop hs.enabled hrun with ⟨t, rfl⟩ | hq
  · exact .inr rfl
  · exact .inl (hi.queued hq)

theorem tests_iff : tests e = true ↔ ∃ t, e = .shutdown t := by
  cases e <;> simp [tests]

/-- The test in `shutdown()` keeps older requests; its own is lost if it finds kDisconnected. -/
theorem kept_of_test {t : ThreadId} (hi : Inv s) (hs : System.Stepped s (.shutdown t) s')
    (hissued : ¬ Issued s) (hno : ¬ Outstanding s) :
    (s.shutdownReturned = true ∨ s.conn.state ≠ .connected → Issued s' ∨ Draining s') ↔
      s.conn.state ≠ .disconnected := by
  obtain hconn : s.conn = s'.conn := Option.some.inj hs.exec
  have hsame : Issued s' ∨ Draining s' ↔ Draining s := by
    have hd : Draining s' ↔ Draining s := by
      constructor
      · rintro ⟨h1, h2, h3⟩
        exact ⟨hconn ▸ h1, hconn ▸ h2, hconn ▸ h3⟩
      · rintro ⟨h1, h2, h3⟩
        exact ⟨hconn ▸ h1, hconn ▸ h2, hconn ▸ h3⟩
    unfold Issued at hissued ⊢
    rw [← hconn, or_iff_right hissued, hd]
  have hdrain : s.shutdownReturned = true → Draining s := fun hr =>
    (hi.kept hr hno).resolve_left hissued
  rw [hsame]
  cases hst : s.conn.state with
  | connecting => exact absurd hst (hi.sound.up hi.established)
  | connected => simpa using hdrain
  | disconnecting =>
    have hr : s.shutdownReturned = true :=
      (hi.requested hst).resolve_right fun hset => hno (.inl hset)
    simp [hdrain hr]
  | disconnected =>
    have hnd : ¬ Draining s := fun hd => by simpa [hst] using hd.disconnecting
    simp [hnd]

/-- One step keeps the request exactly when it meets the condition. -/
theorem kept_iff (hi : Inv s) (h : s.step e = some s') (hopen : StaysOpen ⟨s, e, s'⟩ = true) :
    Kept s' ↔ Meets ⟨s, e, s'⟩ := by
  have hs := System.step_cases h
  have hw := hi.sound.wellIndexed
  by_cases hissued : Issued s
  · exact iff_of_true (fun _ _ => .inl ((hs.mem_log hw).2 (.inl hissued))) (.inl hissued)
  by_cases hleft : LeavesOutstanding s e
  · exact iff_of_true (fun _ hno => absurd ((outstanding_iff hw hs).2 hleft) hno)
      (.inr (.inl hleft))
  simp only [kept_iff_of_none_left hw hs hleft, Meets, hissued, hleft, false_or, careful_iff, ran,
    tests_iff]
  by_cases hrun : s.op e = .shutdownInLoop
  · have hne (t : ThreadId) : e ≠ .shutdown t := by
      rintro rfl
      cases hrun
    rw [shutdownInLoop_step hi hs hrun hissued]
    simp [returned_of_shutdownInLoop hi hs hrun, hrun, hne, Op.sends]
  rw [returned_iff hs hleft hrun]
  by_cases hsend : (s.op e).sends = true
  · have hne (t : ThreadId) : e ≠ .shutdown t := by
      rintro rfl
      cases hsend
    simp [sends_step hi hs hsend hissued, hrun, hsend, hne]
  have hno := not_outstanding hs.enabled hleft hrun
  by_cases hcall : ∃ t, e = .shutdown t
  · obtain ⟨t, rfl⟩ := hcall
    simpa [hrun, hsend] using kept_of_test hi hs hissued hno
  · -- any other step lets what is draining drain
    have hne (t : ThreadId) : e ≠ .shutdown t := fun he => hcall ⟨t, he⟩
    have hgo : s.shutdownReturned = true → Issued s' ∨ Draining s' := fun hr =>
      draining_step hi hs ((hi.kept hr hno).resolve_left hissued) hopen (by simpa using hsend)
    simpa [hrun, hsend, hne] using hgo

/-- A functor comes into the queue from a call past its update, or is `connDestory`. -/
theorem shutdownRun_of_queued (he : s.enabled e = true) (hq : .shutdownInLoop ∈ s.queued e) :
    ∃ t, e = .shutdownRun t := by
  cases e with
  | sendRun t r junk =>
    obtain ⟨buf, snap, hc, -⟩ := System.op_sendRun he
    simp only [System.queued] at hq
    split_ifs at hq with hloop
    · simp at hq
    · simp [hc, System.boundFunctor] at hq
  | shutdownRun t => exact ⟨t, rfl⟩
  | _ => simp [System.queued] at hq

/-- While the loop thread is past `setState` in `shutdown()`, nothing else of it runs. -/
theorem op_of_loop_busy (hest : s.established = true) (h : s.calls .loop = .shutdownSet)
    (he : s.enabled e = true) :
    e = .shutdownRun .loop ∨ s.op e = .skip ∨ s.op e = .setDisconnecting := by
  cases e with
  | sendRun t r junk =>
    obtain ⟨buf, snap, hc, ho⟩ := System.op_sendRun he
    rw [ho]
    split_ifs with hloop
    · rw [hloop, h] at hc
      cases hc
    · exact .inr (.inl rfl)
  | shutdownRun t =>
    rw [(System.op_shutdownRun he).2]
    split_ifs with hloop
    · exact .inl (by rw [hloop])
    · exact .inr (.inl rfl)
  | connEstablish => simp [System.enabled, hest] at he
  | shutdownSet t => exact .inr (.inr rfl)
  | send | shutdown | pushDestory | swap | store => exact .inr (.inl rfl)
  | _ => simp [System.enabled, System.loopFree, h] at he

theorem shutdownSet_of_nextCalls {t : ThreadId} (h : s.nextCalls e t = .shutdownSet)
    (hc : s.calls t ≠ .shutdownSet) : e = .shutdownSet t := by
  rcases System.nextCalls_cases s e t with hn | hn
  · exact absurd (hn ▸ h) hc
  · rw [h] at hn
    cases hn
    rfl

theorem returned_mono (hs : System.Stepped s e s') (hr : s.shutdownReturned = true) :
    s'.shutdownReturned = true := by
  simp [hs.shutdownReturned, hr]

/-- kDisconnecting is set by a call that goes on to run or queue `shutdownInLoop`. -/
theorem requested_step (hi : Inv s) (hs : System.Stepped s e s')
    (hst : s'.conn.state = .disconnecting) :
    s'.shutdownReturned = true ∨ ∃ t, s'.calls t = .shutdownSet := by
  rw [hs.calls]
  by_cases hset : s.op e = .setDisconnecting
  · obtain ⟨t, rfl⟩ := op_setDisconnecting hset
    exact .inr ⟨t, by simp [System.nextCalls]⟩
  · have hpre : s.conn.state = .disconnecting := by
      rw [hs.state hi.sound.wellIndexed] at hst
      exact Op.disconnecting_of_stateAfter hst hset
    rcases hi.requested hpre with hr | ⟨t, ht⟩
    · exact .inl (returned_mono hs hr)
    · rcases nextCalls_of_shutdownSet ht hs.enabled with hn | rfl
      · exact .inr ⟨t, hn⟩
      · exact .inl (by simp [hs.shutdownReturned, System.returnsShutdown])

theorem inLoop_step (hi : Inv s) (hs : System.Stepped s e s')
    (hcall : s'.calls .loop = .shutdownSet) : s'.conn.state = .disconnecting := by
  rw [hs.calls] at hcall
  rw [hs.state hi.sound.wellIndexed]
  by_cases hbusy : s.calls .loop = .shutdownSet
  · rcases op_of_loop_busy hi.established hbusy hs.enabled with rfl | ho | ho
    · simp [System.nextCalls] at hcall
    · rw [ho]
      exact hi.inLoop hbusy
    · rw [ho]
      rfl
  · rw [shutdownSet_of_nextCalls hcall hbusy]
    rfl

theorem queued_step (hi : Inv s) (hs : System.Stepped s e s')
    (hq : .shutdownInLoop ∈ s'.waiting) : s'.shutdownReturned = true := by
  rcases hs.waiting_cases hi.sound.wellIndexed (by simp [Functor.IsNotice]) hq with hold | hnew
  · exact returned_mono hs (hi.queued hold)
  · obtain ⟨t, rfl⟩ := shutdownRun_of_queued hs.enabled hnew
    simp [hs.shutdownReturned, System.returnsShutdown]

theorem step_inv (hi : Inv s) (h : s.step e = some s') (hopen : StaysOpen ⟨s, e, s'⟩ = true)
    (hk : Kept s') : Inv s' := by
  have hs := System.step_cases h
  simp only [StaysOpen, ran, Bool.and_eq_true, Bool.not_eq_true', bne_iff_ne] at hopen
  exact ⟨System.step_sound hi.sound h, by simp [hs.established, hi.established],
    hs.flushing hi.sound.wellIndexed hi.flushing hopen.1 hopen.2, hk, requested_step hi hs,
    inLoop_step hi hs, queued_step hi hs⟩

/-- On a connection that is not torn down, a `shutdown()` that has returned is
never forgotten exactly when every step meets the condition. -/
theorem shutdown_kept_iff (h : Run System.step (System.up cfg mem) tr s)
    (hopen : ∀ τ ∈ tr, StaysOpen τ = true) : (∀ τ ∈ tr, Kept τ.post) ↔ ∀ τ ∈ tr, Meets τ :=
  h.forall_iff_of (D := fun τ => StaysOpen τ = true) (up_inv cfg mem)
    (fun _ _ _ hi hst ho => kept_iff hi hst ho) (fun _ _ _ hi hst ho hk => step_inv hi hst ho hk)
    hopen

/-- The loop thread shuts down an idle connection. -/
theorem shutdown_kept_iff_idle : ∃ tr s, Run System.step (System.up .sample fun _ => 0) tr s ∧
    tr.map Transition.event = [.shutdown .loop, .shutdownSet .loop, .shutdownRun .loop] ∧
    ∀ τ ∈ tr, Kept τ.post := by
  obtain ⟨tr, s, hr, he, hopen, hc⟩ := exists_run System.step
    (System.up .sample fun _ => 0)
    [.shutdown .loop, .shutdownSet .loop, .shutdownRun .loop]
    (P := fun tr _ => (∀ τ ∈ tr, StaysOpen τ = true) ∧ ∀ τ ∈ tr, Careful τ) (by decide)
  exact ⟨tr, s, hr, he, (shutdown_kept_iff hr hopen).2 fun τ hτ => .inr (.inr (hc τ hτ))⟩

/-- Without a `setState(kDisconnecting)` in the run no call is past it. -/
theorem calls_ne_shutdownSet (h : Run System.step (System.up cfg mem) tr s)
    (hn : ∀ τ ∈ tr, ran τ ≠ .setDisconnecting) (t : ThreadId) : s.calls t ≠ .shutdownSet := by
  refine h.invariant_of (I := fun s => ∀ t, s.calls t ≠ .shutdownSet) (fun t => by
    simp [System.up, System.init]) ?_ hn t
  intro s e s' hi hst hne t hset
  rw [(System.step_cases hst).calls] at hset
  rw [shutdownSet_of_nextCalls hset (hi t)] at hne
  exact hne rfl

instance (s : System) : Decidable (Issued s) := inferInstanceAs (Decidable (_ ∈ _))

/-- One byte is sent; the `shutdown()` after it finds kDisconnected and returns. -/
theorem shutdown_forgotten : ∃ tr s, Run System.step (System.up .sample fun _ => 0) tr s ∧
    tr.map Transition.event = [.send .loop ⟨0, 1⟩, .sendRun .loop (.wrote 1) [], .shutdown .loop] ∧
    (∀ τ ∈ tr, StaysOpen τ = true) ∧ s.conn.outputBuffer.unread = [] ∧ ¬ Kept s := by
  obtain ⟨tr, s, hr, he, hopen, hn, hret, hunread, hissued, hq⟩ := exists_run System.step
    (System.up .sample fun _ => 0)
    [.send .loop ⟨0, 1⟩, .sendRun .loop (.wrote 1) [], .shutdown .loop]
    (P := fun tr s => (∀ τ ∈ tr, StaysOpen τ = true) ∧ (∀ τ ∈ tr, ran τ ≠ .setDisconnecting) ∧
      s.shutdownReturned = true ∧ s.conn.outputBuffer.unread = [] ∧ ¬ Issued s ∧
      .shutdownInLoop ∉ s.waiting) (by decide)
  refine ⟨tr, s, hr, he, hopen, hunread, ?_⟩
  intro hk
  have hno : ¬ Outstanding s := by
    rintro (⟨t, ht⟩ | hmem)
    · exact calls_ne_shutdownSet hr hn t ht
    · exact hq hmem
  rcases hk hret hno with h | h
  · exact hissued h
  · exact h.unread hunread

end HalfClose
end Armsy
