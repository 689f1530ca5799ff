import Armsy.Proofs.OutboundStream

/-! The output of a connection in numbers, over every run of its operations before a
close: the bytes the kernel took and those still unread add up to what `sendInLoop` was
given, EPOLLOUT is asked for while there are any unread, and the write-complete callback
is queued when there are none. -/

namespace Armsy
namespace OutputAccounting

open TcpConnection

/-- An operation on an established connection that does not close it; no `::write` of
`sendInLoop` fails with EPIPE or ECONNRESET. -/
def Permitted : Op → Bool
  | .sendInLoop _ (.failed e) _ => !faultError e
  | .handleRead (.delivered []) _ => false
  | .connEstablish | .handleClose | .connDestory | .callback _ => false
  | _ => true

/-- How many write-complete callbacks have been queued. -/
def notices (c : TcpConnection) : ℕ := c.loop.functors.pending.count .writeComplete

/-- The operation leaves no byte outstanding by a `::write` of its own. -/
def completes (c : TcpConnection) : Op → Bool
  | .sendInLoop data (.wrote n) _ => c.writesDirectly && data.length - n = 0
  | .handleWrite r => c.channel.isWriteSet && c.drains r
  | _ => false

/-- `c'` has `k` more write-complete callbacks queued than `c`, and the same one set. -/
structure Queues (c : TcpConnection) (k : ℕ) (c' : TcpConnection) : Prop where
  notices : notices c' = notices c + k
  callback : c'.writeCompleteCallback = c.writeCompleteCallback

/-- A write-complete callback is queued only where no byte is left to be written, and a
`handleWrite` that empties the buffer queues exactly one. -/
structure Notifies (τ : Transition TcpConnection Op) : Prop where
  nothingLeft : notices τ.post ≠ notices τ.pre → τ.post.outputBuffer.readableBytes = 0
  once : ∀ r, τ.event = .handleWrite r → τ.pre.outputBuffer.readableBytes ≠ 0 →
    τ.post.outputBuffer.readableBytes = 0 → notices τ.post = notices τ.pre + 1

/-- How many bytes the `sendInLoop`s of a run were given. -/
def passed (tr : List (Transition TcpConnection Op)) : ℕ :=
  (tr.map fun τ => (payload τ.event).length).sum

variable {c c₁ c' : TcpConnection} {data junk : List Byte} {j k : ℕ}

/-! ### What is queued -/

namespace Queues

theorem refl (c : TcpConnection) : Queues c 0 c := ⟨rfl, rfl⟩

theorem trans (h : Queues c j c₁) (h' : Queues c₁ k c') : Queues c (j + k) c' :=
  ⟨by rw [h'.notices, h.notices, Nat.add_assoc], h'.callback.trans h.callback⟩

theorem of_same (h : Queues c k c₁) (hl : c'.loop.functors = c₁.loop.functors)
    (hc : c'.writeCompleteCallback = c₁.writeCompleteCallback) : Queues c k c' :=
  ⟨by rw [OutputAccounting.notices, hl]; exact h.notices, hc.trans h.callback⟩

theorem onChannel (h : Queues c k c₁)
    {f : Channel → EpollPoller → Option (EpollPoller × Channel)} (hf : c₁.onChannel f = some c') :
    Queues c k c' := by
  obtain ⟨_, _, -, rfl⟩ := onChannel_eq hf
  exact h.of_same rfl rfl

theorem shutdown (h : Queues c k c₁) : Queues c k c₁.shutdownInLoop := by
  unfold shutdownInLoop
  split_ifs
  · exact h
  · exact h.of_same rfl rfl

theorem push (h : Queues c k c₁) : Queues c (k + 1) (c₁.pushLoopCallback .writeComplete) := by
  refine ⟨?_, h.callback⟩
  rw [← Nat.add_assoc, ← h.notices]
  simp [OutputAccounting.notices, pushLoopCallback, BatchQueue.push]

theorem pushIf (h : Queues c k c₁) (p : Prop) [Decidable p] :
    Queues c (k + if p then 1 else 0)
      (if p then c₁.pushLoopCallback .writeComplete else c₁) := by
  split_ifs
  · exact h.push
  · exact h

end Queues

theorem queues_noteHighWater (c : TcpConnection) (n : ℕ) : Queues c 0 (c.noteHighWater n) := by
  simp only [noteHighWater]
  split_ifs
  · exact ⟨by simp [notices, pushLoopCallback, BatchQueue.push], rfl⟩
  · exact .refl c

theorem queues_appendRest {rest : List Byte} (h : c.appendRest rest junk = some c') :
    Queues c 0 c' := by
  simp only [appendRest, Option.bind_eq_some_iff] at h
  obtain ⟨b, -, h⟩ := h
  have hn : Queues c 0 { c.noteHighWater rest.length with outputBuffer := b } :=
    (queues_noteHighWater c rest.length).of_same rfl rfl
  unfold requestWrite at h
  split_ifs at h
  · cases h
    exact hn
  · exact hn.onChannel h

/-- How many write-complete callbacks the operation queues. -/
def queued (c : TcpConnection) (o : Op) : ℕ :=
  if completes c o && c.writeCompleteCallback then 1 else 0

theorem queues_attemptWrite (junk : List Byte) {r : WriteResult} {a : Attempt}
    (h : c.attemptWrite data r = some a) :
    Queues c (queued c (.sendInLoop data r junk)) a.conn := by
  have he : Queues c 0 (c.emit (.write data r)) := (Queues.refl c).of_same rfl rfl
  unfold attemptWrite at h
  split_ifs at h with hd hfit
  · cases r with
    | wrote n =>
      by_cases hall : data.length - n = 0 ∧
          (c.emit (.write data (.wrote n))).writeCompleteCallback = true
      · have hk : queued c (.sendInLoop data (.wrote n) junk) = 0 + 1 := by
          simpa [queued, completes, hd, TcpConnection.emit] using hall
        simp only [if_pos hall, Option.some.injEq] at h
        subst h
        rw [hk]
        exact he.push
      · have hk : queued c (.sendInLoop data (.wrote n) junk) = 0 := by
          simpa [queued, completes, hd, TcpConnection.emit] using hall
        simp only [if_neg hall, Option.some.injEq] at h
        subst h
        rw [hk]
        exact he
    | failed e =>
      have h0 : queued c (.sendInLoop data (.failed e) junk) = 0 := by simp [queued, completes]
      rw [h0]
      simp only at h
      split_ifs at h <;> cases h
      · exact he.of_same rfl rfl
      · exact he
  · cases h
    have h0 : queued c (.sendInLoop data r junk) = 0 := by
      cases r <;> simp [queued, completes, hd]
    rw [h0]
    exact .refl c

theorem queues_sendInLoop {r : WriteResult} (hs : c.sendInLoop data r junk = some c') :
    Queues c (queued c (.sendInLoop data r junk)) c' := by
  simp only [sendInLoop, Option.bind_eq_some_iff] at hs
  obtain ⟨a, ha, hs⟩ := hs
  have hq : Queues c (queued c (.sendInLoop data r junk)) a.conn := by
    have h0 : Queues c 0 ((c.setState .disconnected).emit (.sendInLoop data)) :=
      (Queues.refl c).of_same rfl rfl
    have h1 := h0.trans (queues_attemptWrite junk ha)
    rw [Nat.zero_add] at h1
    exact h1
  split_ifs at hs
  · exact hq.trans (queues_appendRest hs)
  · cases hs
    exact hq

theorem queues_drained (hs : c.drained = some c') :
    Queues c (if c.writeCompleteCallback then 1 else 0) c' := by
  simp only [drained, Option.map_eq_some_iff] at hs
  obtain ⟨d, hd, rfl⟩ := hs
  have hq : Queues c 0 d := (Queues.refl c).onChannel hd
  rw [← hq.callback]
  have hn := hq.pushIf (d.writeCompleteCallback = true)
  rw [Nat.zero_add] at hn
  generalize (if d.writeCompleteCallback = true then d.pushLoopCallback .writeComplete else d) = d'
    at hn ⊢
  by_cases hst : d'.state = .disconnecting
  · rw [if_pos hst]
    exact hn.shutdown
  · rw [if_neg hst]
    exact hn

theorem queues_handleWrite (h : c.outputBuffer.WellIndexed) {r : WriteResult}
    (hs : c.handleWrite r = some c') : Queues c (queued c (.handleWrite r)) c' := by
  cases hw : c.channel.isWriteSet with
  | false =>
    obtain rfl : c = c' := by simpa [handleWrite, hw] using hs
    simpa [queued, completes, hw] using Queues.refl c
  | true =>
    obtain ⟨-, ⟨hdr, hs⟩ | ⟨hdr, rfl⟩⟩ := handleWrite_cases h hw hs
    · have hq : Queues c 0 (c.written r) := (Queues.refl c).of_same rfl rfl
      have hd := hq.trans (queues_drained hs)
      simpa [queued, completes, hw, hdr, hq.callback] using hd
    · have hq : Queues c 0 (c.written r) := (Queues.refl c).of_same rfl rfl
      simpa [queued, completes, hdr] using hq

theorem queues_handleRead {r : ReadResult} (hp : Permitted (.handleRead r junk) = true)
    (hs : c.handleRead r junk = some c') : Queues c 0 c' := by
  simp only [handleRead, Option.bind_eq_some_iff] at hs
  obtain ⟨b, -, hs⟩ := hs
  cases r with
  | delivered bytes =>
    cases bytes with
    | nil => cases hp
    | cons x xs =>
      simp only [List.length_cons, gt_iff_lt, Nat.zero_lt_succ, if_true, Option.some.injEq] at hs
      subst hs
      exact (Queues.refl c).of_same rfl rfl
  | failed e =>
    cases hs
    exact (Queues.refl c).of_same rfl rfl

theorem exec_queues (h : c.outputBuffer.WellIndexed) {o : Op} (hp : Permitted o = true)
    (hs : c.exec o = some c') : Queues c (queued c o) c' := by
  cases o with
  | sendInLoop data r junk => exact queues_sendInLoop hs
  | handleWrite r => exact queues_handleWrite h hs
  | handleRead r junk => exact queues_handleRead hp hs
  | shutdownInLoop =>
    cases hs
    exact (Queues.refl c).shutdown
  | setDisconnecting | handleError | retrieve | skip =>
    cases hs
    exact (Queues.refl c).of_same rfl rfl
  | _ => cases hp

/-! ### The bytes -/

/-- The payload of `sendInLoop` is what the kernel took of it and what goes to the buffer. -/
theorem accepted_sendInLoop {r : WriteResult} (hp : Permitted (.sendInLoop data r junk) = true) :
    accepted (c.effects (.sendInLoop data r junk)) ++ c.rest data r = data := by
  apply OutboundStream.accepted_sendInLoop
  cases r with
  | wrote n => rfl
  | failed e => exact hp

/-- An operation moves bytes from unread to accepted, and adds those it was given. -/
theorem exec_length (h : c.outputBuffer.WellIndexed) {o : Op} (hp : Permitted o = true)
    (hs : c.exec o = some c') :
    (accepted (c.effects o)).length + c'.outputBuffer.unread.length =
      c.outputBuffer.unread.length + (payload o).length := by
  cases o with
  | sendInLoop data r junk =>
    obtain ⟨-, -, -, -, kept, hu, hlen, -⟩ := sendInLoop_spec h hs
    have hall := congrArg List.length (accepted_sendInLoop (c := c) hp)
    rw [List.length_append] at hall
    rw [hu, List.length_append, hlen, payload]
    omega
  | handleWrite r =>
    have hall := congrArg List.length (OutboundStream.accepted_handleWrite h hs)
    rw [List.length_append] at hall
    simpa [payload] using hall
  | handleRead r junk =>
    rw [exec_outputBuffer hs (by simp) (by simp)]
    cases r with
    | delivered bytes => cases bytes <;> simp [effects, accepted, payload]
    | failed e => simp [effects, accepted, payload]
  | shutdownInLoop =>
    rw [exec_outputBuffer hs (by simp) (by simp)]
    simp only [effects, payload]
    split_ifs <;> simp [accepted]
  | setDisconnecting | handleError | retrieve | skip =>
    rw [exec_outputBuffer hs (by simp) (by simp)]
    simp [effects, accepted, payload]
  | _ => cases hp

/-- Nothing is left unread after an operation that queues the write-complete callback. -/
theorem unread_of_completes (h : c.outputBuffer.WellIndexed) {o : Op} (hs : c.exec o = some c')
    (hc : completes c o = true) : c'.outputBuffer.unread = [] := by
  cases o with
  | sendInLoop data r junk =>
    cases r with
    | failed e => cases hc
    | wrote n =>
      simp only [completes, Bool.and_eq_true, decide_eq_true_eq] at hc
      obtain ⟨-, -, -, -, kept, hu, hlen, -⟩ := sendInLoop_spec h hs
      rw [(writesDirectly_unread h hc.1).2, List.length_nil, List.length_eq_zero_iff] at hlen
      rw [hu, hlen, rest, if_pos hc.1, List.nil_append]
      exact List.drop_eq_nil_of_le (by omega)
  | handleWrite r =>
    simp only [completes, Bool.and_eq_true] at hc
    exact unread_of_drains h hs hc.1 hc.2
  | _ => cases hc

/-- A `handleWrite` empties the buffer only by a `::write` that takes all of it. -/
theorem completes_of_emptied (h : c.outputBuffer.WellIndexed) {r : WriteResult}
    (hs : c.handleWrite r = some c') (hne : c.outputBuffer.unread ≠ [])
    (he : c'.outputBuffer.unread = []) : completes c (.handleWrite r) = true := by
  obtain ⟨-, -, -, -, hu⟩ := handleWrite_spec h hs
  rw [he] at hu
  cases hw : c.channel.isWriteSet with
  | false => exact absurd (by simpa [hw] using hu.symm) hne
  | true =>
    cases r with
    | failed e => exact absurd (by simpa [hw] using hu.symm) hne
    | wrote n =>
      simp only [hw] at hu
      have hpos : 0 < n := by
        rcases Nat.eq_zero_or_pos n with rfl | hpos
        · exact absurd hu.symm hne
        · exact hpos
      simp only [completes, hw, Bool.true_and]
      exact (drains_iff h n).2 ⟨hpos, hu.symm⟩

/-! ### Runs -/

/-- After `sendInLoop`s of `m` bytes in all, with the write-complete callback set or not. -/
structure Inv (m : ℕ) (callback : Bool) (c : TcpConnection) : Prop where
  wellIndexed : c.outputBuffer.WellIndexed
  flushing : c.Flushing
  length : (accepted c.log).length + c.outputBuffer.unread.length = m
  callback : c.writeCompleteCallback = callback

theorem established_inv (cfg : Config) : Inv 0 cfg.writeCompleteCallback (established cfg) :=
  ⟨Buffer.new_wellIndexed _ _, established_flushing cfg, by simp [established, accepted, new], rfl⟩

variable {m : ℕ} {callback : Bool} {o : Op} {cfg : Config}
  {tr : List (Transition TcpConnection Op)}

theorem not_closes (hp : Permitted o = true) : o.closes = false := by
  cases o with
  | handleRead r junk =>
    cases r with
    | delivered bytes =>
      cases bytes with
      | nil => cases hp
      | cons x xs => rfl
    | failed e => rfl
  | handleClose => cases hp
  | _ => rfl

theorem exec_inv (hi : Inv m callback c) (hp : Permitted o = true) (hs : c.exec o = some c') :
    Inv (m + (payload o).length) callback c' := by
  have h := hi.wellIndexed
  have ho := exec_outcome h hs
  have hlen := exec_length h hp hs
  have hacc : accepted c'.log = accepted c.log ++ accepted (c.effects o) := by
    rw [ho.log, accepted, accepted, accepted, List.flatMap_append]
  refine ⟨exec_wellIndexed h hs, ?_, ?_, (exec_queues h hp hs).callback.trans hi.callback⟩
  · apply exec_flushing h hi.flushing hs (not_closes hp)
    rintro rfl
    cases hp
  · have hm := hi.length
    rw [hacc, List.length_append]
    omega

theorem exec_notifies (hi : Inv m true c) (hp : Permitted o = true) (hs : c.exec o = some c') :
    Notifies ⟨c, o, c'⟩ := by
  have h := hi.wellIndexed
  have h' := exec_wellIndexed h hs
  have hq := (exec_queues h hp hs).notices
  rw [queued, hi.callback, Bool.and_true] at hq
  constructor
  · intro hne
    have hc : completes c o = true := by
      by_contra hno
      rw [if_neg hno] at hq
      exact hne hq
    exact h'.unread_eq_nil.1 (unread_of_completes h hs hc)
  · rintro r rfl hne he
    have hc := completes_of_emptied h hs (fun hu => hne (h.unread_eq_nil.1 hu))
      (h'.unread_eq_nil.2 he)
    rwa [if_pos hc] at hq

theorem run_inv (h : Run exec (established cfg) tr c) (hp : ∀ τ ∈ tr, Permitted τ.event = true) :
    Inv (passed tr) cfg.writeCompleteCallback c := by
  induction h with
  | nil => exact established_inv cfg
  | @snoc tr s s' e _ hs ih =>
    have hi := ih fun τ hτ => hp τ (List.mem_append_left _ hτ)
    have hpass : passed (tr ++ [⟨s, e, s'⟩]) = passed tr + (payload e).length := by
      simp [passed]
    rw [hpass]
    exact exec_inv hi (hp ⟨s, e, s'⟩ (by simp)) hs

/-- In every state reached before a close, the bytes that `::write` accepted and the bytes
in the output buffer are those that `sendInLoop` was given, and write interest is set
exactly while the buffer is not empty. A write-complete callback that is set is queued
only with nothing left to write, and once by each `handleWrite` that empties the buffer. -/
theorem output_accounted (h : Run exec (established cfg) tr c)
    (hp : ∀ τ ∈ tr, Permitted τ.event = true) :
    (accepted c.log).length + c.outputBuffer.readableBytes = passed tr ∧
      (c.channel.isWriteSet = true ↔ c.outputBuffer.readableBytes ≠ 0) ∧
      (cfg.writeCompleteCallback = true → ∀ τ ∈ tr, Notifies τ) := by
  have hi := run_inv h hp
  refine ⟨?_, ?_, ?_⟩
  · rw [← hi.wellIndexed.unread_length]
    exact hi.length
  · exact hi.flushing.trans (not_congr hi.wellIndexed.unread_eq_nil)
  · intro hcb τ hτ
    obtain ⟨tr₁, tr₂, rfl, hr, hst⟩ := h.split hτ
    have hpre := run_inv hr fun τ' hτ' => hp τ' (List.mem_append_left _ hτ')
    rw [hcb] at hpre
    exact exec_notifies hpre (hp τ hτ) hst

/-- A short write, a write that would block, an empty payload behind the rest, and the
`handleWrite` that gets it out. -/
theorem output_accounted_drained : ∃ tr c,
    Run exec (established { Config.sample with writeCompleteCallback := true }) tr c ∧
    tr.map Transition.event = [.sendInLoop [1, 2, 3] (.wrote 1) [],
      .sendInLoop [4] (.failed .EWOULDBLOCK) [], .sendInLoop [] (.wrote 0) [],
      .handleWrite (.failed .EWOULDBLOCK), .handleWrite (.wrote 3)] ∧
    (passed tr = 4 ∧ c.outputBuffer.readableBytes = 0 ∧ c.channel.isWriteSet = false ∧
      c.loop.functors.pending = [.writeComplete]) ∧
    (accepted c.log).length + c.outputBuffer.readableBytes = 4 ∧ ∀ τ ∈ tr, Notifies τ := by
  obtain ⟨tr, c, hr, he, hend, hp⟩ := exists_run exec
    (established { Config.sample with writeCompleteCallback := true })
    [.sendInLoop [1, 2, 3] (.wrote 1) [], .sendInLoop [4] (.failed .EWOULDBLOCK) [],
      .sendInLoop [] (.wrote 0) [], .handleWrite (.failed .EWOULDBLOCK), .handleWrite (.wrote 3)]
    (P := fun tr c => (passed tr = 4 ∧ c.outputBuffer.readableBytes = 0 ∧
      c.channel.isWriteSet = false ∧ c.loop.functors.pending = [.writeComplete]) ∧
      ∀ τ ∈ tr, Permitted τ.event = true) (by decide +kernel)
  obtain ⟨hlen, -, hn⟩ := output_accounted hr hp
  exact ⟨tr, c, hr, he, hend, hlen.trans hend.1, hn rfl⟩

end OutputAccounting
end Armsy
