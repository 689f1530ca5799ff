import Armsy.Proofs.HalfClose

/-! The order of data and half-close, over any number of threads. A `send()` of
another thread waits in the queue while a `shutdown()` of the loop thread runs
at once, and nothing stops the `sendInLoop` after it. Where no `send()` is on
its way when SHUT_WR goes out, all data has gone out before it and none follows. -/

namespace Armsy
namespace WriteOrder

open Armsy.System (ran)
open HalfClose (Issued Outstanding)
open TcpConnection (accepted handed payload)

variable {cfg : Config} {mem : Memory Byte} {s s' : System} {e : Event}
  {tr : List (Transition System Event)}

/-- The effect is a `::write` or follows from one. -/
def touches : Effect → Bool
  | .write _ _ | .giveUp _ => true
  | _ => false

/-- No `::write` is issued after SHUT_WR. -/
def Ordered (log : List Effect) : Prop :=
  log.Pairwise fun a b => a = .shutdownWrite → touches b = false

/-- The payloads that `sendInLoop` was run with. -/
def entered (log : List Effect) : List (List Byte) :=
  log.filterMap fun
    | .sendInLoop data => some data
    | _ => none

/-- The payloads that queued calls of `send()` were made with. -/
def snaps (fs : List Functor) : List (List Byte) :=
  fs.filterMap fun
    | .sendInLoop _ snap => some snap
    | _ => none

def Any (_ : ThreadId) : Prop := True

/-- When the step issues SHUT_WR no `send()` is under way, and `shutdownInLoop`
leaves no output behind; no `put` loses bytes, no `::write` refuses them for good,
and no store changes a payload. -/
structure Clean (τ : Transition System Event) : Prop where
  alone : .shutdownWrite ∈ τ.pre.conn.effects (ran τ) →
    ∀ buf snap, ¬ τ.pre.Underway Any buf snap
  flushed : ran τ = .shutdownInLoop → τ.pre.conn.channel.isWriteSet = false →
    τ.pre.conn.outputBuffer.unread = []
  put : ∀ data r junk, ran τ = .sendInLoop data r junk →
    ¬ τ.pre.conn.outputBuffer.LosesOn data.length
  write : τ.pre.conn.writesDirectly = true → ∀ data e junk,
    ran τ = .sendInLoop data (.failed e) junk → TcpConnection.faultError e = false
  store : System.Spares Any τ

/-- After SHUT_WR there is nothing to write and nobody to send. -/
structure Closed (s : System) : Prop where
  alone : ∀ buf snap, ¬ s.Underway Any buf snap
  writeSet : s.conn.channel.isWriteSet = false
  unread : s.conn.outputBuffer.unread = []
  state : s.conn.state ≠ .connected

structure Inv (s : System) : Prop where
  sound : s.Sound
  ordered : Ordered s.conn.log
  closed : Issued s → Closed s
  noGiveUp : ∀ data, .giveUp data ∉ s.conn.log
  asked : Outstanding s → s.established = true ∧ s.conn.state ≠ .connected
  stream : s.conn.log.flatMap handed ++ s.conn.outputBuffer.unread = (entered s.conn.log).flatten
  sent : (s.sent : Multiset (List Byte)) = ↑(entered s.conn.log) + ↑(snaps s.waiting)
  held : ∀ buf snap, s.Underway Any buf snap → s.mem.read buf = snap

theorem init_inv (cfg : Config) (mem : Memory Byte) : Inv (System.init cfg mem) where
  sound := System.init_sound cfg mem
  ordered := List.Pairwise.nil
  closed := by simp [Issued, System.init, TcpConnection.new]
  noGiveUp := by simp [System.init, TcpConnection.new]
  asked := by
    rintro (⟨t, ht⟩ | hq)
    · cases ht
    · simp [System.waiting, System.init, TcpConnection.new] at hq
  stream := by simp [System.init, TcpConnection.new, entered]
  sent := by simp [System.init, TcpConnection.new, entered, snaps, System.waiting]
  held := by
    rintro buf snap (hq | ⟨t, -, hc⟩)
    · simp [System.waiting, System.init, TcpConnection.new] at hq
    · cases hc

/-! ### The effects of one operation -/

section
variable {c : TcpConnection} {o : Op}

theorem touches_effects (hs : o.Silent) {f : Effect} (h : f ∈ c.effects o) (ht : touches f = true) :
    o.sends = true ∨ c.channel.isWriteSet = true := by
  cases TcpConnection.logs_of_mem hs h with
  | write ho => exact ho
  | giveUp _ ho =>
    rw [ho]
    exact .inl rfl
  | _ => cases ht

/-- Within one operation SHUT_WR comes last. -/
theorem effects_ordered (c : TcpConnection) (o : Op) : Ordered (c.effects o) := by
  unfold Ordered
  cases o with
  | sendInLoop data r junk =>
    simp only [TcpConnection.effects, TcpConnection.attemptEffects]
    cases r with
    | wrote n => split_ifs <;> simp
    | failed e => simp only; split_ifs <;> simp
  | handleWrite r => simp only [TcpConnection.effects]; split_ifs <;> simp
  | shutdownInLoop => simp only [TcpConnection.effects]; split_ifs <;> simp
  | connDestory => simp only [TcpConnection.effects]; split_ifs <;> simp
  | handleRead r junk =>
    cases r with
    | delivered bytes => cases bytes <;> simp [TcpConnection.effects]
    | failed e => simp [TcpConnection.effects]
  | _ => simp [TcpConnection.effects]

theorem entered_sendInLoop (c : TcpConnection) (data junk : List Byte) (r : WriteResult) :
    entered (c.effects (.sendInLoop data r junk)) = [data] := by
  simp only [TcpConnection.effects, TcpConnection.attemptEffects, entered]
  cases r <;> split_ifs <;> simp

theorem entered_effects (hs : o.Silent) (ho : o.sends = false) : entered (c.effects o) = [] := by
  rw [entered, List.filterMap_eq_nil_iff]
  intro f hf
  cases TcpConnection.logs_of_mem hs hf with
  | sendInLoop h =>
    rw [h] at ho
    cases ho
  | _ => rfl

theorem payload_of_not_sends (ho : o.sends = false) : payload o = [] := by
  cases o <;> first | rfl | cases ho

end

/-! ### One step -/

/-- The `sendInLoop` that a step runs is of a payload under way. -/
theorem op_sends (he : s.enabled e = true) (ho : (s.op e).sends = true) :
    ∃ buf snap r junk, s.Underway Any buf snap ∧ s.op e = .sendInLoop (s.mem.read buf) r junk ∧
      s.returnedSend e ++ snaps (s.taken e) = [snap] ∧ snaps (s.queued e) = [] := by
  cases e with
  | sendRun t r junk =>
    obtain ⟨buf, snap, hc, hop⟩ := System.op_sendRun he
    rw [hop] at ho
    split_ifs at ho with hloop
    · refine ⟨buf, snap, r, junk, .inr ⟨t, trivial, hc⟩, by rw [hop, if_pos hloop], ?_, ?_⟩
      · simp [System.returnedSend, hc, System.taken, snaps]
      · simp [System.queued, hloop, snaps]
    · cases ho
  | shutdownRun t =>
    rw [(System.op_shutdownRun he).2] at ho
    split_ifs at ho <;> cases ho
  | runFunctor r junk =>
    obtain ⟨f, ht, hmem, hop⟩ := System.op_runFunctor he
    rw [hop] at ho
    cases f with
    | sendInLoop buf snap =>
      refine ⟨buf, snap, r, junk, .inl hmem, hop, ?_, ?_⟩
      · simp [System.returnedSend, ht, snaps]
      · simp [System.queued, snaps]
    | _ => cases ho
  | _ => cases ho

/-- A step that runs no `sendInLoop` returns from `send()` as it queues the payload. -/
theorem returnedSend_eq (he : s.enabled e = true) (ho : (s.op e).sends = false) :
    s.returnedSend e ++ snaps (s.taken e) = snaps (s.queued e) := by
  cases e with
  | sendRun t r junk =>
    obtain ⟨buf, snap, hc, hop⟩ := System.op_sendRun he
    rw [hop] at ho
    split_ifs at ho with hloop
    · cases ho
    · simp [System.returnedSend, hc, System.taken, System.queued, hloop, System.boundFunctor, snaps]
  | shutdownRun t =>
    obtain ⟨hc, -⟩ := System.op_shutdownRun he
    simp only [System.returnedSend, System.taken, System.queued, hc, System.boundFunctor]
    split_ifs <;> simp [snaps]
  | runFunctor r junk =>
    obtain ⟨f, ht, -, hop⟩ := System.op_runFunctor he
    rw [hop] at ho
    cases f with
    | sendInLoop buf snap => cases ho
    | _ => simp [System.returnedSend, ht, System.queued, snaps]
  | _ => simp [System.returnedSend, System.taken, System.queued, snaps]

theorem ordered_step (hi : Inv s) (hs : System.Stepped s e s') : Ordered s'.conn.log := by
  have hw := hi.sound.wellIndexed
  rw [Ordered, hs.log hw, List.pairwise_append]
  refine ⟨hi.ordered, effects_ordered _ _, ?_⟩
  rintro a ha b hb rfl
  have hclosed := hi.closed ha
  by_contra htouch
  rcases touches_effects (System.silent_op s e) hb (by simpa using htouch) with ho | hset
  · obtain ⟨buf, snap, -, -, hu, -⟩ := op_sends hs.enabled ho
    exact hclosed.alone buf snap hu
  · rw [hclosed.writeSet] at hset
    cases hset

/-- Once established and past kConnected, a connection does not return to it. -/
theorem state_step (hi : s.Sound) (hs : System.Stepped s e s') (he : s.established = true)
    (hst : s.conn.state ≠ .connected) : s'.conn.state ≠ .connected := by
  intro hc
  rw [hs.state hi.wellIndexed, Op.connected_stateAfter_iff (hs.op_ne_connEstablish he)] at hc
  exact hst hc.1

theorem asked_step (hi : Inv s) (hs : System.Stepped s e s') (h : Outstanding s') :
    s'.established = true ∧ s'.conn.state ≠ .connected := by
  have hw := hi.sound.wellIndexed
  have keep (ho : Outstanding s) : s'.established = true ∧ s'.conn.state ≠ .connected := by
    obtain ⟨he, hst⟩ := hi.asked ho
    exact ⟨by simp [hs.established, he], state_step hi.sound hs he hst⟩
  rcases h with ⟨t, ht⟩ | hq
  · rw [hs.calls] at ht
    by_cases hc : s.calls t = .shutdownSet
    · exact keep (.inl ⟨t, hc⟩)
    · obtain rfl := HalfClose.shutdownSet_of_nextCalls ht hc
      have he := hi.sound.established_of_op hs.enabled (by simp [System.op]) (by simp [System.op])
      refine ⟨by simp [hs.established, he], ?_⟩
      rw [hs.state hw]
      simp [System.op, Op.stateAfter]
  · rcases hs.waiting_cases hw (by simp [Functor.IsNotice]) hq with hold | hnew
    · exact keep (.inr hold)
    · obtain ⟨t, rfl⟩ := HalfClose.shutdownRun_of_queued hs.enabled hnew
      exact keep (.inl ⟨t, (System.op_shutdownRun hs.enabled).1⟩)

/-- With nobody sending and past kConnected, nobody starts to send. -/
theorem alone_step (hi : Inv s) (hs : System.Stepped s e s')
    (ha : ∀ buf snap, ¬ s.Underway Any buf snap) (hst : s.conn.state ≠ .connected) :
    ∀ buf snap, ¬ s'.Underway Any buf snap := by
  intro buf snap hu
  rcases hs.underway_cases hi.sound.wellIndexed (fun _ => trivial) hu with hold | ⟨hc, -⟩
  · exact ha buf snap hold
  · exact hst hc

/-- SHUT_WR goes out on an established connection that is past kConnected. -/
theorem issues_state (hi : Inv s) (hs : System.Stepped s e s')
    (h : .shutdownWrite ∈ s.conn.effects (s.op e)) :
    s.established = true ∧ s.conn.state ≠ .connected := by
  cases TcpConnection.logs_of_mem (System.silent_op s e) h with
  | shutdownInLoop hop =>
    apply hi.asked
    rcases HalfClose.op_shutdownInLoop hs.enabled hop with ⟨t, rfl⟩ | hq
    · exact .inl ⟨t, (System.op_shutdownRun hs.enabled).1⟩
    · exact .inr hq
  | drained hop hset hdr hst =>
    refine ⟨hi.sound.established_of_op hs.enabled (by simp [hop]) (by simp [hop]), ?_⟩
    rw [hst]
    simp

theorem established_of_issued (hi : s.Sound) (h : Issued s) : s.established = true := by
  by_contra hne
  have := (hi.connecting (by simpa using hne)).2.2
  rw [Issued, this] at h
  cases h

theorem closed_step (hi : Inv s) (hs : System.Stepped s e s') (hc : Closed s)
    (hest : s.established = true) : Closed s' := by
  have hw := hi.sound.wellIndexed
  have hnot : (s.op e).sends = false := by
    by_contra ho
    obtain ⟨buf, snap, -, -, hu, -⟩ := op_sends hs.enabled (by simpa using ho)
    exact hc.alone buf snap hu
  refine ⟨alone_step hi hs hc.alone hc.state, ?_, ?_, state_step hi.sound hs hest hc.state⟩
  · rw [hs.writeSet hw]
    unfold TcpConnection.writeSetAfter
    split
    · rename_i data r junk hop
      simp [hop, Op.sends] at hnot
    all_goals simp [hc.writeSet]
  · have hstream := TcpConnection.exec_stream (System.front_wellIndexed hw e) hs.exec
      (fun f hf => by rcases System.silent_op s e f hf with rfl | ⟨_, rfl⟩ <;> rfl)
      (fun data r junk hop => by simp [hop, Op.sends] at hnot)
    rw [System.front_outputBuffer, hc.unread, payload_of_not_sends hnot] at hstream
    exact (List.append_eq_nil_iff.1 hstream).2

/-- A step that issues SHUT_WR closes, if it is clean. -/
theorem closed_of_issues (hi : Inv s) (hs : System.Stepped s e s') (hcl : Clean ⟨s, e, s'⟩)
    (h : .shutdownWrite ∈ s.conn.effects (s.op e)) : Closed s' := by
  have hw := hi.sound.wellIndexed
  obtain ⟨hest, hst⟩ := issues_state hi hs h
  have hempty : s'.conn.channel.isWriteSet = false ∧ s'.conn.outputBuffer.unread = [] := by
    rw [hs.writeSet hw]
    cases TcpConnection.logs_of_mem (System.silent_op s e) h with
    | shutdownInLoop hop hset =>
      rw [TcpConnection.exec_outputBuffer hs.exec (by simp [hop]) (by simp [hop]),
        System.front_outputBuffer]
      exact ⟨by simp [hop, TcpConnection.writeSetAfter, hset], hcl.flushed hop hset⟩
    | drained hop hset hdr =>
      have hx := hs.exec
      rw [hop] at hx
      refine ⟨by simp [hop, TcpConnection.writeSetAfter, hdr], ?_⟩
      exact TcpConnection.unread_of_drains (System.front_wellIndexed hw e) hx
        (by rwa [System.front_channel]) (by rwa [System.front_drains])
  exact ⟨alone_step hi hs (hcl.alone h) hst, hempty.1, hempty.2, state_step hi.sound hs hest hst⟩

theorem noGiveUp_step (hi : Inv s) (hs : System.Stepped s e s') (hcl : Clean ⟨s, e, s'⟩)
    (data : List Byte) : .giveUp data ∉ s'.conn.log := by
  intro hmem
  rcases (hs.mem_log hi.sound.wellIndexed).1 hmem with hold | hnew
  · exact hi.noGiveUp data hold
  · cases TcpConnection.logs_of_mem (System.silent_op s e) hnew with
    | giveUp hd hop hf =>
      rw [hcl.write hd _ _ _ hop] at hf
      cases hf

theorem stream_step (hi : Inv s) (hs : System.Stepped s e s') (hcl : Clean ⟨s, e, s'⟩) :
    s'.conn.log.flatMap handed ++ s'.conn.outputBuffer.unread =
      (entered s'.conn.log).flatten := by
  have hw := hi.sound.wellIndexed
  have hstream := TcpConnection.exec_stream (System.front_wellIndexed hw e) hs.exec
    (fun f hf => by rcases System.silent_op s e f hf with rfl | ⟨_, rfl⟩ <;> rfl)
    (fun data r junk hop => by
      rw [System.front_outputBuffer]
      exact hcl.put data r junk hop)
  rw [System.front_effects, System.front_outputBuffer] at hstream
  have hent : (entered (s.conn.effects (s.op e))).flatten = payload (s.op e) := by
    by_cases ho : (s.op e).sends = true
    · obtain ⟨_, _, r, junk, -, hop, -⟩ := op_sends hs.enabled ho
      simp [hop, entered_sendInLoop, payload]
    · rw [Bool.not_eq_true] at ho
      rw [entered_effects (System.silent_op s e) ho, payload_of_not_sends ho, List.flatten_nil]
  have hsplit : entered s'.conn.log = entered s.conn.log ++ entered (s.conn.effects (s.op e)) := by
    rw [hs.log hw, entered, List.filterMap_append]
    rfl
  rw [hsplit, List.flatten_append, ← hi.stream, hent, hs.log hw, List.flatMap_append,
    List.append_assoc, hstream, List.append_assoc]

theorem sent_step (hi : Inv s) (hs : System.Stepped s e s') :
    (s'.sent : Multiset (List Byte)) = ↑(entered s'.conn.log) + ↑(snaps s'.waiting) := by
  have hw := hi.sound.wellIndexed
  have hent : (entered s'.conn.log : Multiset (List Byte)) =
      ↑(entered s.conn.log) + ↑(entered (s.conn.effects (s.op e))) := by
    rw [hs.log hw, entered, List.filterMap_append]
    rfl
  have hwait : (snaps (s.taken e) : Multiset (List Byte)) + ↑(snaps s'.waiting) =
      ↑(snaps s.waiting) + ↑(snaps (s.queued e)) := by
    obtain ⟨fs, hfs, hq⟩ := hs.waiting hw
    have hnone : snaps fs = [] := by
      rw [snaps, List.filterMap_eq_nil_iff]
      intro f hf
      have := hfs f hf
      cases f <;> first | rfl | cases this
    have := congrArg snaps hq
    simp only [snaps, List.filterMap_append] at this hnone
    rw [hnone, List.append_nil] at this
    simp only [snaps, Multiset.coe_add]
    rw [this]
  have hmove : (s.returnedSend e : Multiset (List Byte)) + ↑(snaps (s.taken e)) =
      ↑(entered (s.conn.effects (s.op e))) + ↑(snaps (s.queued e)) := by
    rw [Multiset.coe_add, Multiset.coe_add, Multiset.coe_eq_coe]
    by_cases ho : (s.op e).sends = true
    · obtain ⟨buf, snap, r, junk, hu, hop, hone, hnil⟩ := op_sends hs.enabled ho
      rw [hone, hnil, hop, entered_sendInLoop, hi.held buf snap hu]
      rfl
    · rw [Bool.not_eq_true] at ho
      rw [returnedSend_eq hs.enabled ho, entered_effects (System.silent_op s e) ho]
      rfl
  have hsent : (s'.sent : Multiset (List Byte)) = ↑s.sent + ↑(s.returnedSend e) := by
    rw [hs.sent]
    rfl
  -- what the event takes out of the queue is on both sides
  apply add_right_cancel (b := (snaps (s.taken e) : Multiset (List Byte)))
  calc (s'.sent : Multiset (List Byte)) + ↑(snaps (s.taken e))
      = ↑s.sent + (↑(s.returnedSend e) + ↑(snaps (s.taken e))) := by rw [hsent, add_assoc]
    _ = ↑(entered s.conn.log) + ↑(snaps s.waiting) +
          (↑(entered (s.conn.effects (s.op e))) + ↑(snaps (s.queued e))) := by rw [hi.sent, hmove]
    _ = ↑(entered s.conn.log) + ↑(entered (s.conn.effects (s.op e))) +
          (↑(snaps s.waiting) + ↑(snaps (s.queued e))) := by abel
    _ = ↑(entered s'.conn.log) + (↑(snaps (s.taken e)) + ↑(snaps s'.waiting)) := by
      rw [hent, hwait]
    _ = ↑(entered s'.conn.log) + ↑(snaps s'.waiting) + ↑(snaps (s.taken e)) := by abel

theorem held_step (hi : Inv s) (hs : System.Stepped s e s') (hcl : Clean ⟨s, e, s'⟩)
    {buf : Slice} {snap : List Byte} (hu : s'.Underway Any buf snap) :
    s'.mem.read buf = snap := by
  rw [hs.mem]
  rcases hs.underway_cases hi.sound.wellIndexed (fun _ => trivial) hu with hold | ⟨-, hmem, rfl⟩
  · exact (hcl.store buf snap hold).trans (hi.held buf snap hold)
  · rw [hmem]

theorem closed_or_issues (hi : Inv s) (hs : System.Stepped s e s') (hcl : Clean ⟨s, e, s'⟩)
    (hissued : Issued s') : Closed s' := by
  rcases (hs.mem_log hi.sound.wellIndexed).1 hissued with hold | hnew
  · exact closed_step hi hs (hi.closed hold) (established_of_issued hi.sound hold)
  · exact closed_of_issues hi hs hcl hnew

theorem step_inv (hi : Inv s) (h : s.step e = some s') (hcl : Clean ⟨s, e, s'⟩) : Inv s' := by
  have hs := System.step_cases h
  exact ⟨System.step_sound hi.sound h, ordered_step hi hs, closed_or_issues hi hs hcl,
    noGiveUp_step hi hs hcl, asked_step hi hs, stream_step hi hs hcl, sent_step hi hs,
    fun _ _ => held_step hi hs hcl⟩

/-- In every run of clean steps no `::write` follows SHUT_WR, and when SHUT_WR is
out, the kernel has accepted the payloads of all returned calls of `send()` that saw
kConnected, each once and whole. -/
theorem data_before_half_close (h : Run System.step (System.init cfg mem) tr s)
    (hcl : ∀ τ ∈ tr, Clean τ) :
    Ordered s.conn.log ∧ (Issued s → s.sent.Perm (entered s.conn.log) ∧
      accepted s.conn.log = (entered s.conn.log).flatten) := by
  have hi : Inv s := h.invariant_of (init_inv cfg mem) (fun _ _ _ => step_inv) hcl
  refine ⟨hi.ordered, ?_⟩
  intro hissued
  have hc := hi.closed hissued
  have hnone : snaps s.waiting = [] := by
    rw [snaps, List.filterMap_eq_nil_iff]
    intro f hf
    cases f with
    | sendInLoop buf snap => exact absurd (.inl hf) (hc.alone buf snap)
    | _ => rfl
  have hsent := hi.sent
  have hstream := hi.stream
  rw [hnone, Multiset.coe_nil, add_zero, Multiset.coe_eq_coe] at hsent
  rw [hc.unread, List.append_nil, ← TcpConnection.accepted_eq_handed hi.noGiveUp] at hstream
  exact ⟨hsent, hstream⟩

/-- The operation is a `sendInLoop` whose `::write` fails for good. -/
def refuses : Op → Bool
  | .sendInLoop _ (.failed e) _ => TcpConnection.faultError e
  | _ => false

/-- The output buffer stays empty: nothing for `put` to lose, nothing left behind. -/
theorem clean_of_unread_nil (hi : s.Sound) (hu : s.conn.outputBuffer.unread = [])
    (hn : System.stores e = false) (hf : refuses (s.op e) = false)
    (ha : .shutdownWrite ∈ s.conn.effects (s.op e) → ∀ buf snap, ¬ s.Underway Any buf snap) :
    Clean ⟨s, e, s'⟩ where
  alone := ha
  flushed := fun _ _ => hu
  put := fun _ _ _ _ => Buffer.not_losesOn_of_unread_nil hi.wellIndexed hu _
  write := by
    intro _ data err junk hop
    rw [ran] at hop
    rwa [hop] at hf
  store := System.spares_of_not_stores hn

/-- Another thread is past the test in `shutdown()` while the loop thread sends; the
byte goes out before SHUT_WR. -/
theorem data_before_half_close_one : ∃ tr s,
    Run System.step (System.init .sample fun _ => 0) tr s ∧
    tr.map Transition.event = [.connEstablish, .shutdown (.other 0), .send .loop ⟨0, 1⟩,
      .sendRun .loop (.wrote 1) [], .shutdownSet (.other 0), .shutdownRun (.other 0), .swap,
      .runFunctor (.wrote 0) []] ∧
    Ordered s.conn.log ∧ s.sent.Perm (entered s.conn.log) ∧
      accepted s.conn.log = (entered s.conn.log).flatten := by
  obtain ⟨tr, s, hr, he, hissued, hp⟩ := exists_run System.step
    (System.init .sample fun _ => 0)
    [.connEstablish, .shutdown (.other 0), .send .loop ⟨0, 1⟩, .sendRun .loop (.wrote 1) [],
      .shutdownSet (.other 0), .shutdownRun (.other 0), .swap, .runFunctor (.wrote 0) []]
    (P := fun tr s => Issued s ∧ ∀ τ ∈ tr, τ.pre.conn.outputBuffer.unread = [] ∧
      refuses (ran τ) = false ∧ (Effect.shutdownWrite ∈ τ.pre.conn.effects (ran τ) →
        snaps τ.pre.waiting = [] ∧
        ∀ t ∈ [ThreadId.loop, ThreadId.other 0], τ.pre.calls t = .idle)) (by decide)
  have hev : ∀ τ ∈ tr, System.stores τ.event = false ∧
      System.caller τ.event ∈ [none, some ThreadId.loop, some (ThreadId.other 0)] := by
    have hes : ∀ e ∈ tr.map Transition.event, System.stores e = false ∧
        System.caller e ∈ [none, some ThreadId.loop, some (ThreadId.other 0)] := by
      rw [he]
      decide
    exact fun τ hτ => hes τ.event (List.mem_map_of_mem hτ)
  have hcl : ∀ τ ∈ tr, Clean τ := by
    intro τ hτ
    obtain ⟨hu, hf, hsd⟩ := hp τ hτ
    have hn := (hev τ hτ).1
    obtain ⟨tr₁, tr₂, rfl, hr₁, -⟩ := hr.split hτ
    apply clean_of_unread_nil (System.sound_of_run hr₁) hu hn hf
    intro h buf snap
    obtain ⟨hq, hidle⟩ := hsd h
    rintro (hmem | ⟨t, -, hc⟩)
    · have : snap ∈ snaps τ.pre.waiting := List.mem_filterMap.2 ⟨_, hmem, rfl⟩
      simp [hq] at this
    · have hcalls : τ.pre.calls t = .idle := by
        by_cases ht : t ∈ [ThreadId.loop, ThreadId.other 0]
        · exact hidle t ht
        · refine System.calls_idle hr₁ fun σ hσ hcaller => ht ?_
          have := (hev σ (List.mem_append_left _ hσ)).2
          rw [hcaller] at this
          simpa using this
      rw [hcalls] at hc
      cases hc
  obtain ⟨hord, hdata⟩ := data_before_half_close hr hcl
  exact ⟨tr, s, hr, he, hord, hdata hissued⟩

instance (log : List Effect) : Decidable (Ordered log) :=
  inferInstanceAs (Decidable (log.Pairwise _))

/-- A `send()` of another thread has returned before the loop thread calls
`shutdown()`; its byte is written after SHUT_WR. -/
theorem write_after_half_close : ∃ tr s,
    Run System.step (System.init .sample fun _ => 0) tr s ∧
    tr.map Transition.event = [.connEstablish, .send (.other 0) ⟨0, 1⟩,
      .sendRun (.other 0) (.wrote 0) [], .shutdown .loop, .shutdownSet .loop, .shutdownRun .loop,
      .swap, .runFunctor (.wrote 1) []] ∧
    s.conn.log = [.connCallback true, .shutdownWrite, .sendInLoop [0], .write [0] (.wrote 1)] ∧
    ¬ Ordered s.conn.log :=
  exists_run _ _ _ (by decide)

end WriteOrder
end Armsy
