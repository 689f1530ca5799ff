import Armsy.Lib.Crossing
import Armsy.Proofs.SystemSpec

/-! The high-water callback, in every interleaving of the threads of one connection. It is
queued by the `sendInLoop`s that take the output buffer from below the mark up to it or
above, each with the level that it leaves; nothing else queues it and no queued one is lost. -/

namespace Armsy
namespace HighWater

open TcpConnection Armsy.System

/-- The level that a queued high-water callback reports. -/
def queuedSize : Functor → Option ℕ
  | .highWaterMark size => some size
  | _ => none

/-- The level that a high-water callback has reported. -/
def reportedSize : Effect → Option ℕ
  | .highWaterMarkCallback size => some size
  | _ => none

/-- The levels reported so far and those still to be, oldest first. -/
def reports (s : System) : List ℕ :=
  s.conn.log.filterMap reportedSize ++ s.waiting.filterMap queuedSize

def level (s : System) : ℕ := s.conn.outputBuffer.readableBytes

def rises (mark : ℕ) (τ : Transition System Event) : Bool := τ.rises level mark
def falls (mark : ℕ) (τ : Transition System Event) : Bool := τ.falls level mark

/-- The level that a step has to report, if any. -/
def report (mark : ℕ) (τ : Transition System Event) : Option ℕ :=
  if rises mark τ then some (level τ.post) else none

/-! ### One operation -/

/-- From `c` to `c'` high-water callbacks with `sizes` were queued. -/
structure Queues (c : TcpConnection) (sizes : List ℕ) (c' : TcpConnection) : Prop where
  waiting : c'.loop.functors.waiting.filterMap queuedSize =
    c.loop.functors.waiting.filterMap queuedSize ++ sizes
  callback : c'.highwaterMarkCallback = c.highwaterMarkCallback
  mark : c'.highWaterMark = c.highWaterMark

namespace Queues

variable {c c₁ c' : TcpConnection} {sizes sizes' : List ℕ}

theorem refl (c : TcpConnection) : Queues c [] c := ⟨by simp, rfl, rfl⟩

theorem trans (h : Queues c sizes c₁) (h' : Queues c₁ sizes' c') :
    Queues c (sizes ++ sizes') c' :=
  ⟨by rw [h'.waiting, h.waiting, List.append_assoc], h'.callback.trans h.callback,
    h'.mark.trans h.mark⟩

theorem of_same (h : Queues c sizes c₁) (hl : c'.loop.functors = c₁.loop.functors)
    (hc : c'.highwaterMarkCallback = c₁.highwaterMarkCallback)
    (hm : c'.highWaterMark = c₁.highWaterMark) : Queues c sizes c' :=
  ⟨by rw [hl]; exact h.waiting, hc.trans h.callback, hm.trans h.mark⟩

theorem onChannel (h : Queues c sizes c₁)
    {f : Channel → EpollPoller → Option (EpollPoller × Channel)} (hf : c₁.onChannel f = some c') :
    Queues c sizes c' := by
  obtain ⟨_, _, -, rfl⟩ := onChannel_eq hf
  exact h.of_same rfl rfl rfl

theorem emit (h : Queues c sizes c₁) (e : Effect) : Queues c sizes (c₁.emit e) :=
  h.of_same rfl rfl rfl

theorem setState (h : Queues c sizes c₁) (st : ConnState) : Queues c sizes (c₁.setState st) :=
  h.of_same rfl rfl rfl

theorem push (h : Queues c sizes c₁) (f : Functor) :
    Queues c (sizes ++ (queuedSize f).toList) (c₁.pushLoopCallback f) := by
  refine ⟨?_, h.callback, h.mark⟩
  simp only [pushLoopCallback, BatchQueue.waiting_push, List.filterMap_append, h.waiting,
    List.append_assoc]
  cases f <;> rfl

theorem pushWriteComplete (h : Queues c sizes c₁) (p : Prop) [Decidable p] :
    Queues c sizes (if p then c₁.pushLoopCallback .writeComplete else c₁) := by
  split_ifs
  · simpa [queuedSize] using h.push .writeComplete
  · exact h

theorem shutdown (h : Queues c sizes c₁) : Queues c sizes c₁.shutdownInLoop := by
  unfold shutdownInLoop
  split_ifs
  · exact h
  · exact h.emit _

end Queues

variable {c c' : TcpConnection} {data junk : List Byte} {r : WriteResult} {r' : ReadResult}

/-- `sendInLoop` crosses the mark with the bytes that it puts into the buffer. -/
def crossing (c : TcpConnection) (remained : ℕ) : List ℕ :=
  let inBuffer := c.outputBuffer.readableBytes
  if inBuffer < c.highWaterMark ∧ c.highWaterMark ≤ inBuffer + remained then
    [inBuffer + remained]
  else []

theorem queues_noteHighWater (hcb : c.highwaterMarkCallback = true) (n : ℕ) :
    Queues c (crossing c n) (c.noteHighWater n) := by
  by_cases hc : c.outputBuffer.readableBytes < c.highWaterMark ∧
      c.highWaterMark ≤ c.outputBuffer.readableBytes + n
  · have hnote : c.noteHighWater n =
        c.pushLoopCallback (.highWaterMark (c.outputBuffer.readableBytes + n)) := by
      simp [noteHighWater, hc.1, hc.2, hcb]
    rw [hnote, crossing, if_pos hc]
    exact (Queues.refl c).push (.highWaterMark (c.outputBuffer.readableBytes + n))
  · have hnote : c.noteHighWater n = c := by
      rw [noteHighWater, if_neg]
      exact fun h => hc ⟨h.2.1, h.1⟩
    rw [hnote, crossing, if_neg hc]
    exact .refl c

theorem queues_appendRest {rest : List Byte} (hcb : c.highwaterMarkCallback = true)
    (h : c.appendRest rest junk = some c') : Queues c (crossing c rest.length) c' := by
  simp only [appendRest, Option.bind_eq_some_iff] at h
  obtain ⟨b, -, h⟩ := h
  have hn : Queues c (crossing c rest.length)
      { c.noteHighWater rest.length with outputBuffer := b } :=
    (queues_noteHighWater hcb rest.length).of_same rfl rfl rfl
  unfold requestWrite at h
  split_ifs at h
  · cases h
    exact hn
  · exact hn.onChannel h

theorem queues_attemptWrite {a : Attempt} (h : c.attemptWrite data r = some a) :
    Queues c [] a.conn := by
  have he : Queues c [] (c.emit (.write data r)) := (Queues.refl c).emit _
  unfold attemptWrite at h
  split_ifs at h
  · cases r with
    | wrote n =>
      cases h
      exact he.pushWriteComplete _
    | failed e =>
      simp only at h
      split_ifs at h <;> cases h
      · exact he.emit _
      · exact he
  · cases h
    exact .refl c

theorem queues_sendInLoop (hcb : c.highwaterMarkCallback = true)
    (hs : c.sendInLoop data r junk = some c') :
    Queues c (crossing c (c.rest data r).length) c' := by
  simp only [sendInLoop, Option.bind_eq_some_iff] at hs
  obtain ⟨a, ha, hs⟩ := hs
  have hatt := attemptWrite_spec ha
  have hrest : c.rest data r = _ := hatt.rest
  have hq : Queues c [] a.conn :=
    (((Queues.refl c).setState .disconnected).emit (.sendInLoop data)).trans
      (queues_attemptWrite ha)
  split_ifs at hs with hcond
  · have hf : a.faultError = false := by
      simp only [Bool.and_eq_true, Bool.not_eq_true'] at hcond
      exact hcond.1
    rw [hf, if_neg Bool.false_ne_true] at hrest
    have happ := hq.trans (queues_appendRest (hq.callback.trans hcb) hs)
    have hsame : crossing a.conn = crossing c := by
      funext n
      rw [crossing, crossing, hq.mark, hatt.outputBuffer]
      rfl
    rwa [List.nil_append, hsame, ← hrest] at happ
  · cases hs
    have hnil : c.rest data r = [] := hatt.rest_eq_nil_iff.2 (by simpa using hcond)
    have hcross : crossing c 0 = [] := by
      rw [crossing, if_neg]
      omega
    rw [hnil, List.length_nil, hcross]
    exact hq

theorem queues_handleWrite (h : c.outputBuffer.WellIndexed) (hs : c.handleWrite r = some c') :
    Queues c [] c' := by
  cases hw : c.channel.isWriteSet with
  | false =>
    obtain rfl : c = c' := by simpa [handleWrite, hw] using hs
    exact .refl c
  | true =>
    have hq : Queues c [] (c.written r) := (Queues.refl c).of_same rfl rfl rfl
    obtain ⟨-, ⟨-, hs⟩ | ⟨-, rfl⟩⟩ := handleWrite_cases h hw hs
    · simp only [drained, Option.map_eq_some_iff] at hs
      obtain ⟨d, hd, rfl⟩ := hs
      have hn := (hq.onChannel hd).pushWriteComplete (d.writeCompleteCallback = true)
      generalize (if d.writeCompleteCallback = true then d.pushLoopCallback .writeComplete
        else d) = d' at hn ⊢
      split_ifs
      · exact hn.shutdown
      · exact hn
    · exact hq

theorem queues_handleClose (hs : c.handleClose = some c') : Queues c [] c' := by
  simp only [handleClose, Option.map_eq_some_iff] at hs
  obtain ⟨d, hd, rfl⟩ := hs
  exact ((((Queues.refl c).setState .disconnected).onChannel hd).emit _).emit _

theorem queues_handleRead (hs : c.handleRead r' junk = some c') : Queues c [] c' := by
  simp only [handleRead, Option.bind_eq_some_iff] at hs
  obtain ⟨b, -, hs⟩ := hs
  have hq : Queues c [] ({ c with inputBuffer := b }.emit (.readv r')) :=
    (Queues.refl c).of_same rfl rfl rfl
  cases r' with
  | delivered bytes =>
    simp only at hs
    split_ifs at hs
    · cases hs
      exact hq.emit _
    · exact hq.trans (queues_handleClose hs)
  | failed e =>
    cases hs
    exact hq

theorem queues_connDestory (hs : c.connDestory = some c') : Queues c [] c' := by
  unfold connDestory at hs
  split_ifs at hs
  · simp only [Option.bind_eq_some_iff] at hs
    obtain ⟨d, hd, hs⟩ := hs
    exact ((((Queues.refl c).setState .disconnected).onChannel hd).emit _).onChannel hs
  · exact (Queues.refl c).onChannel hs

theorem queues_connEstablish (hs : c.connEstablish = some c') : Queues c [] c' := by
  simp only [connEstablish, Option.map_eq_some_iff] at hs
  obtain ⟨d, hd, rfl⟩ := hs
  have hq : Queues c [] { c.setState .connected with channel := c.channel.tie } :=
    (Queues.refl c).of_same rfl rfl rfl
  exact (hq.onChannel hd).emit _

theorem readable_sendInLoop (h : c.outputBuffer.WellIndexed)
    (hs : c.sendInLoop data r junk = some c') : c'.outputBuffer.readableBytes =
      c.outputBuffer.readableBytes + (c.rest data r).length := by
  obtain ⟨-, h', -, -, kept, hu, hlen, -⟩ := sendInLoop_spec h hs
  rw [← h.unread_length, ← h'.unread_length, hu, List.length_append, hlen]

/-- Only `sendInLoop` puts bytes into the output buffer. -/
theorem readable_le (h : c.outputBuffer.WellIndexed) {o : Op} (ho : o.sends = false)
    (hs : c.exec o = some c') :
    c'.outputBuffer.readableBytes ≤ c.outputBuffer.readableBytes := by
  have h' := exec_wellIndexed h hs
  rw [← h.unread_length, ← h'.unread_length]
  cases o with
  | sendInLoop => cases ho
  | handleWrite r =>
    obtain ⟨-, -, -, -, hu⟩ := handleWrite_spec h hs
    rw [hu]
    split
    · simp
    · exact le_rfl
  | _ => rw [exec_outputBuffer hs (by simp) (by simp)]

theorem queues_of_not_sends (h : c.outputBuffer.WellIndexed) {o : Op} (ho : o.sends = false)
    (hs : c.exec o = some c') : Queues c [] c' := by
  cases o with
  | sendInLoop => cases ho
  | connEstablish => exact queues_connEstablish hs
  | handleRead r junk => exact queues_handleRead hs
  | handleWrite r => exact queues_handleWrite h hs
  | handleClose => exact queues_handleClose hs
  | connDestory => exact queues_connDestory hs
  | shutdownInLoop =>
    cases hs
    exact (Queues.refl c).shutdown
  | setDisconnecting | handleError | callback | retrieve | skip =>
    cases hs
    exact (Queues.refl c).of_same rfl rfl rfl

/-- An operation queues a high-water callback exactly when it takes the level up to the
mark, and with the level that it leaves. -/
theorem exec_queues (h : c.outputBuffer.WellIndexed) (hcb : c.highwaterMarkCallback = true)
    {o : Op} (hs : c.exec o = some c') :
    Queues c (if c.outputBuffer.readableBytes < c.highWaterMark ∧
        c.highWaterMark ≤ c'.outputBuffer.readableBytes then [c'.outputBuffer.readableBytes]
      else []) c' := by
  cases ho : o.sends with
  | true =>
    cases o with
    | sendInLoop data r junk =>
      rw [readable_sendInLoop h hs]
      exact queues_sendInLoop hcb hs
    | _ => cases ho
  | false =>
    have hle := readable_le h ho hs
    rw [if_neg (by omega)]
    exact queues_of_not_sends h ho hs

/-! ### One step of the threads -/

theorem effects_reported (c : TcpConnection) (o : Op) :
    (c.effects o).filterMap reportedSize =
      match o with
      | .callback e => (reportedSize e).toList
      | _ => [] := by
  have attempt (data : List Byte) (r : WriteResult) :
      (c.attemptEffects data r).filterMap reportedSize = [] := by
    cases r with
    | wrote n =>
      simp only [attemptEffects]
      split_ifs <;> rfl
    | failed e =>
      simp only [attemptEffects]
      split_ifs <;> rfl
  cases o with
  | sendInLoop data r junk => exact attempt data r
  | handleRead r junk =>
    cases r with
    | delivered bytes => cases bytes <;> rfl
    | failed e => rfl
  | shutdownInLoop | handleWrite | connDestory =>
    simp only [effects]
    split_ifs <;> rfl
  | callback e => cases e <;> rfl
  | _ => rfl

variable {s s' : System} {e : Event} {tr : List (Transition System Event)} {cfg : Config}
  {mem : Memory Byte}

/-- The callback that a step runs is the one that it takes out of the queue. -/
theorem taken_reported (h : s.enabled e = true) (c : TcpConnection) :
    (c.effects (s.op e)).filterMap reportedSize = (s.taken e).filterMap queuedSize := by
  rw [effects_reported]
  cases e with
  | runFunctor r junk =>
    obtain ⟨f, htaken, -, hop⟩ := op_runFunctor h
    rw [htaken, hop]
    cases f <;> rfl
  | sendRun t r junk =>
    obtain ⟨buf, snap, -, hop⟩ := op_sendRun h
    rw [hop]
    split_ifs <;> rfl
  | shutdownRun t =>
    obtain ⟨-, hop⟩ := op_shutdownRun h
    rw [hop]
    split_ifs <;> rfl
  | _ => rfl

/-- No thread but the loop's own queues a high-water callback. -/
theorem queued_reported (s : System) (e : Event) : (s.queued e).filterMap queuedSize = [] := by
  rw [List.filterMap_eq_nil_iff]
  intro f hf
  rcases queued_cases hf with ⟨n, hb⟩ | ⟨-, rfl⟩
  · rcases boundFunctor_cases hb with ⟨buf, snap, -, rfl⟩ | ⟨-, rfl⟩
    · rfl
    · rfl
  · rfl

/-- After runs from a connection with the callback set and this mark. -/
structure Inv (mark : ℕ) (s : System) : Prop where
  wellIndexed : s.conn.outputBuffer.WellIndexed
  callback : s.conn.highwaterMarkCallback = true
  mark : s.conn.highWaterMark = mark

variable {mark : ℕ}

theorem step_reports (hi : Inv mark s) (h : s.step e = some s') :
    Inv mark s' ∧ reports s' = reports s ++ (report mark ⟨s, e, s'⟩).toList := by
  have hs := step_cases h
  have hw := hi.wellIndexed
  have hfront : (s.front e).highwaterMarkCallback = true ∧ (s.front e).highWaterMark = mark := by
    obtain ⟨q, hq⟩ := front_eq s e
    rw [hq]
    exact ⟨hi.callback, hi.mark⟩
  have hq := exec_queues (front_wellIndexed hw e) hfront.1 hs.exec
  refine ⟨⟨hs.wellIndexed hw, hq.callback.trans hfront.1, hq.mark.trans hfront.2⟩, ?_⟩
  have hlog := congrArg (List.filterMap reportedSize) (hs.log hw)
  rw [List.filterMap_append, taken_reported hs.enabled] at hlog
  have hfw := congrArg (List.filterMap queuedSize) (front_waiting hs.enabled)
  rw [List.filterMap_append, List.filterMap_append, queued_reported, List.append_nil] at hfw
  have hwait := hq.waiting
  rw [front_outputBuffer, hfront.2] at hwait
  rw [reports, hlog, System.waiting, hwait, reports, ← hfw]
  simp only [List.append_assoc, report, rises, Transition.rises_iff, level]
  congr 3
  split_ifs <;> rfl

/-! ### Runs -/

/-- `high_water_mark_`, which nothing sets after the constructor. -/
def kHighWaterMark : ℕ := 64 * 1024 * 1024

theorem run_reports (h : Run System.step (System.init cfg mem) tr s)
    (hcb : cfg.highwaterMarkCallback = true) :
    Inv kHighWaterMark s ∧ reports s = tr.filterMap (report kHighWaterMark) := by
  induction h with
  | nil => exact ⟨⟨Buffer.new_wellIndexed _ _, hcb, rfl⟩, rfl⟩
  | @snoc tr s s' e _ hst ih =>
    obtain ⟨hi, hr⟩ := ih
    obtain ⟨hi', hr'⟩ := step_reports hi hst
    refine ⟨hi', ?_⟩
    rw [hr', hr, List.filterMap_append]
    cases hrep : report kHighWaterMark ⟨s, e, s'⟩ <;> simp [hrep]

/-- Over every interleaving: the levels that the high-water callbacks have reported, then
those in the queue, are the levels at which the output buffer came up to the mark, in order.
There is one for each time it fell below again, and one more while it is above. -/
theorem high_water_exact (h : Run System.step (System.init cfg mem) tr s)
    (hcb : cfg.highwaterMarkCallback = true) :
    reports s = tr.filterMap (report kHighWaterMark) ∧
      (reports s).length = tr.countP (falls kHighWaterMark) +
        if kHighWaterMark ≤ level s then 1 else 0 := by
  obtain ⟨-, hr⟩ := run_reports h hcb
  refine ⟨hr, ?_⟩
  have hcross := h.rises_eq_falls level kHighWaterMark
  have hzero : ¬ kHighWaterMark ≤ level (System.init cfg mem) := by
    have h0 : level (System.init cfg mem) = 0 := rfl
    rw [h0, kHighWaterMark]
    omega
  rw [if_neg hzero, Nat.add_zero] at hcross
  have hlen : (tr.filterMap (report kHighWaterMark)).length = tr.countP (rises kHighWaterMark) := by
    rw [List.length_filterMap_eq_countP]
    apply List.countP_congr
    intro τ _
    simp only [report]
    split_ifs with hτ <;> simp [hτ]
  rw [hr, hlen]
  exact hcross

/-- A payload of which `::write` takes nothing goes to the buffer of a new connection. -/
theorem exists_blocked_send (cfg : Config) {data : List Byte} (hne : data ≠ []) :
    ∃ c, (TcpConnection.established cfg).sendInLoop data (.failed .EWOULDBLOCK) [] = some c ∧
      c.outputBuffer.readableBytes = data.length := by
  have hwell : (TcpConnection.established cfg).outputBuffer.WellIndexed :=
    Buffer.new_wellIndexed Buffer.kInitialSize cfg.outputJunk
  obtain ⟨b, -, hput, -⟩ := hwell.put_spec data []
  let c := ((TcpConnection.established cfg).setState .disconnected).emit (.sendInLoop data)
  have hw : c.channel.isWriteSet = false := by
    rw [isWriteSet_eq]
    exact (getLsbD_or_kReadable kNoneEvent).trans (by simp [kNoneEvent])
  have hd : c.writesDirectly = true := by
    simp only [writesDirectly, Bool.and_eq_true, Bool.not_eq_true', beq_iff_eq]
    exact ⟨hw, rfl⟩
  have ha : c.attemptWrite data (.failed .EWOULDBLOCK) =
      some ⟨c.emit (.write data (.failed .EWOULDBLOCK)), 0, false⟩ := by
    rw [attemptWrite, if_pos hd]
    rfl
  have hs : (TcpConnection.established cfg).sendInLoop data (.failed .EWOULDBLOCK) [] =
      (c.emit (.write data (.failed .EWOULDBLOCK))).appendRest data [] := by
    change (c.attemptWrite data _).bind _ = _
    rw [ha]
    simp [List.length_pos_iff.2 hne]
  have request (d : TcpConnection) (hch : d.channel = c.channel)
      (hp : d.loop.poller = c.loop.poller) :
      ∃ d', { d with outputBuffer := b }.requestWrite = some d' := by
    simp only [requestWrite, hch, hw]
    simp [TcpConnection.onChannel, hp, c, Channel.enableWriteEvent, EpollPoller.updateChannel,
      TcpConnection.established, setState, TcpConnection.emit, Channel.isSilent, kNoneEvent,
      kReadable, kWritable, EPOLLIN, EPOLLPRI, EPOLLOUT, EpollPoller.update, EpollPoller.epollCtl,
      Channel.new, EpollPoller.register]
  have hsome :
      ∃ c', (c.emit (.write data (.failed .EWOULDBLOCK))).appendRest data [] = some c' := by
    have hput' : (c.emit (.write data (.failed .EWOULDBLOCK))).outputBuffer.put data [] = some b :=
      hput
    rw [appendRest]
    simp only [noteHighWater_outputBuffer, hput', Option.bind_some]
    apply request <;>
    · unfold noteHighWater
      dsimp only
      split_ifs <;> rfl
  obtain ⟨c', hc'⟩ := hsome
  refine ⟨c', hs.trans hc', ?_⟩
  have hlevel := readable_sendInLoop hwell (hs.trans hc')
  have hrest : (TcpConnection.established cfg).rest data (.failed .EWOULDBLOCK) = data := by
    have hd' : (TcpConnection.established cfg).writesDirectly = true := hd
    rw [rest, if_pos hd']
    rfl
  rw [hlevel, hrest]
  exact Nat.zero_add _

/-- `send()` on the loop thread goes on with `sendInLoop`. -/
theorem step_sendRun {buf : Slice} {snap : List Byte} (hcall : s.calls .loop = .send buf snap)
    (hc : s.conn.sendInLoop (s.mem.read buf) r junk = some c) :
    ∃ s', s.step (.sendRun .loop r junk) = some s' ∧ s'.conn = c := by
  simp [System.step, enabled, hcall, front, runLater, boundFunctor, op, runNow, Functor.op, exec,
    hc]

/-- A payload of exactly the mark, and a socket that takes nothing of it. -/
theorem high_water_exact_blocked : ∃ tr s,
    Run System.step (System.init { Config.sample with highwaterMarkCallback := true } fun _ => 0)
      tr s ∧ level s = kHighWaterMark ∧ reports s = tr.filterMap (report kHighWaterMark) ∧
    (reports s).length = tr.countP (falls kHighWaterMark) +
      if kHighWaterMark ≤ level s then 1 else 0 := by
  let cfg := { Config.sample with highwaterMarkCallback := true }
  let buf : Slice := ⟨0, kHighWaterMark⟩
  let s : System := { up cfg (fun _ => 0) with
    calls := Function.update (fun _ => .idle) .loop (.send buf (Memory.read (fun _ => 0) buf)) }
  have hlen : (s.mem.read buf).length = kHighWaterMark := by
    rw [Memory.read, List.length_map, List.length_range]
  have hne : s.mem.read buf ≠ [] := by
    apply List.ne_nil_of_length_pos
    rw [hlen, kHighWaterMark]
    omega
  obtain ⟨c, hc, hlevel⟩ := exists_blocked_send cfg hne
  have hcall : s.calls .loop = .send buf (s.mem.read buf) := rfl
  obtain ⟨s', hst, rfl⟩ := step_sendRun hcall hc
  have hup := Run.nil.snoc (step_connEstablish cfg fun _ => 0)
  have hsend : (up cfg fun _ => 0).step (.send .loop buf) = some s := rfl
  have hr := (hup.snoc hsend).snoc hst
  exact ⟨_, s', hr, hlevel.trans hlen, high_water_exact hr rfl⟩

end HighWater
end Armsy
