import Armsy.Proofs.BufferSpec
import Armsy.Model.TcpConnection

/-! What each operation does to a connection: the state it leaves, what it
appends to the log and to the loop's queue, the unread output and the write
interest. Later proofs cite these and do not open an operation again. -/

namespace Armsy

/-! ### The channel and the poller -/

/-- The poller writes the state of a channel and nothing else of it. -/
theorem EpollPoller.updateChannel_channel {p p' : EpollPoller} {c c' : Channel}
    (h : p.updateChannel c = some (p', c')) : ∃ st, c' = { c with state := st } := by
  unfold updateChannel at h
  split_ifs at h <;> simp only [Option.map_eq_some_iff, Prod.mk.injEq] at h <;>
    obtain ⟨_, _, _, rfl⟩ := h <;> exact ⟨_, rfl⟩

theorem EpollPoller.removeChannel_channel {p p' : EpollPoller} {c c' : Channel}
    (h : p.removeChannel c = some (p', c')) : ∃ st, c' = { c with state := st } := by
  unfold removeChannel at h
  simp only [Option.map_eq_some_iff, Prod.mk.injEq] at h
  obtain ⟨_, _, _, rfl⟩ := h
  exact ⟨_, rfl⟩

theorem TcpConnection.onChannel_eq {c c' : TcpConnection}
    {f : Channel → EpollPoller → Option (EpollPoller × Channel)} (h : c.onChannel f = some c') :
    ∃ p ch, f c.channel c.loop.poller = some (p, ch) ∧
      c' = { c with channel := ch, loop := { c.loop with poller := p } } := by
  simp only [onChannel, Option.map_eq_some_iff] at h
  obtain ⟨⟨p, ch⟩, hf, rfl⟩ := h
  exact ⟨p, ch, hf, rfl⟩

/-! ### The state, the log and the queue -/

/-- A user callback that an operation may queue. -/
def Functor.IsNotice : Functor → Prop
  | .writeComplete | .highWaterMark _ => True
  | _ => False

/-- From `c` to `c'`: the state is now `st`, the log has grown by `es`, and only
user callbacks were queued. -/
structure Outcome (c : TcpConnection) (st : ConnState) (es : List Effect) (c' : TcpConnection) :
    Prop where
  state : c'.state = st
  log : c'.log = c.log ++ es
  batch : c'.loop.functors.batch = c.loop.functors.batch
  pending : ∃ fs, (∀ f ∈ fs, f.IsNotice) ∧
    c'.loop.functors.pending = c.loop.functors.pending ++ fs

namespace Outcome

variable {c c₁ c' : TcpConnection} {st st' : ConnState} {es es' : List Effect}

theorem refl (c : TcpConnection) : Outcome c c.state [] c :=
  ⟨rfl, by simp, rfl, [], by simp, by simp⟩

theorem trans (h : Outcome c st es c₁) (h' : Outcome c₁ st' es' c') :
    Outcome c st' (es ++ es') c' := by
  obtain ⟨fs, hfs, hp⟩ := h.pending
  obtain ⟨fs', hfs', hp'⟩ := h'.pending
  refine ⟨h'.state, by rw [h'.log, h.log, List.append_assoc], h'.batch.trans h.batch, fs ++ fs', ?_,
    by rw [hp', hp, List.append_assoc]⟩
  intro f hf
  exact (List.mem_append.1 hf).elim (hfs f) (hfs' f)

theorem emit (h : Outcome c st es c₁) (e : Effect) : Outcome c st (es ++ [e]) (c₁.emit e) :=
  ⟨h.state, by simp [TcpConnection.emit, h.log], h.batch, h.pending⟩

theorem setState (h : Outcome c st es c₁) (st' : ConnState) : Outcome c st' es (c₁.setState st') :=
  ⟨rfl, h.log, h.batch, h.pending⟩

theorem push (h : Outcome c st es c₁) {f : Functor} (hf : f.IsNotice) :
    Outcome c st es (c₁.pushLoopCallback f) := by
  obtain ⟨fs, hfs, hp⟩ := h.pending
  refine ⟨h.state, h.log, h.batch, fs ++ [f], ?_, ?_⟩
  · intro g hg
    rcases List.mem_append.1 hg with hg | hg
    · exact hfs g hg
    · rw [List.mem_singleton.1 hg]
      exact hf
  · simp [TcpConnection.pushLoopCallback, BatchQueue.push, hp]

/-- A call on the channel changes none of the three. -/
theorem onChannel (h : Outcome c st es c₁)
    {f : Channel → EpollPoller → Option (EpollPoller × Channel)} (hf : c₁.onChannel f = some c') :
    Outcome c st es c' := by
  obtain ⟨_, _, -, rfl⟩ := TcpConnection.onChannel_eq hf
  exact ⟨h.state, h.log, h.batch, h.pending⟩

end Outcome

/-- A callback that the operation is has nothing to do with the socket. -/
def Op.Silent (o : Op) : Prop := ∀ f, o = .callback f →
  f = .writeCompleteCallback ∨ ∃ size, f = .highWaterMarkCallback size

/-- The operation is `sendInLoop`. -/
def Op.sends : Op → Bool
  | .sendInLoop _ _ _ => true
  | _ => false

def Op.stateAfter (st : ConnState) : Op → ConnState
  | .connEstablish => .connected
  | .sendInLoop _ _ _ => .disconnected
  | .setDisconnecting => .disconnecting
  | .handleClose | .handleRead (.delivered []) _ => .disconnected
  | .connDestory => if st = .connected then .disconnected else st
  | _ => st

/-- The operation leaves `state_` at something else than kConnected. -/
def Op.leaves (o : Op) : Bool := o.sends || o == .setDisconnecting || o.closes || o == .connDestory

theorem Op.eq_of_closes {o : Op} (h : o.closes = true) :
    o = .handleClose ∨ ∃ junk, o = .handleRead (.delivered []) junk := by
  cases o with
  | handleClose => exact .inl rfl
  | handleRead r junk =>
    cases r with
    | delivered bytes =>
      cases bytes with
      | nil => exact .inr ⟨junk, rfl⟩
      | cons x xs => cases h
    | failed e => cases h
  | _ => cases h

theorem Op.connected_stateAfter_iff {st : ConnState} {o : Op} (ho : o ≠ .connEstablish) :
    o.stateAfter st = .connected ↔ st = .connected ∧ o.leaves = false := by
  cases o with
  | connEstablish => exact absurd rfl ho
  | handleRead r junk =>
    cases r with
    | delivered bytes => cases bytes <;> simp [stateAfter, leaves, closes, sends]
    | failed e => simp [stateAfter, leaves, closes, sends]
  | connDestory => cases st <;> simp [stateAfter, leaves]
  | _ => simp [stateAfter, leaves, closes, sends]

theorem Op.disconnecting_of_stateAfter {st : ConnState} {o : Op}
    (h : o.stateAfter st = .disconnecting) (ho : o ≠ .setDisconnecting) : st = .disconnecting := by
  cases o with
  | setDisconnecting => exact absurd rfl ho
  | connEstablish | sendInLoop | handleClose => cases h
  | handleRead r junk =>
    cases r with
    | delivered bytes =>
      cases bytes with
      | nil => cases h
      | cons x xs => exact h
    | failed e => exact h
  | connDestory =>
    simp only [stateAfter] at h
    split_ifs at h
    exact h
  | _ => exact h

/-- A connection on descriptor 7 of an empty poller. -/
def Config.sample : Config where
  self := 1
  fd := 7
  poller := ⟨fun _ => none, fun _ => none⟩
  writeCompleteCallback := false
  highwaterMarkCallback := false
  inputJunk := []
  outputJunk := []
  unregistered := rfl
  unmapped := rfl

namespace TcpConnection

/-- `handleWrite` empties the output buffer. -/
def drains (c : TcpConnection) : WriteResult → Bool
  | .wrote n => n > 0 && (c.outputBuffer.pushState n).readableBytes == 0
  | .failed _ => false

/-- The log entries of the direct `::write` in `sendInLoop`. -/
def attemptEffects (c : TcpConnection) (data : List Byte) (r : WriteResult) : List Effect :=
  if c.writesDirectly then .write data r ::
    match r with
    | .wrote _ => []
    | .failed e => if faultError e then [.giveUp data] else []
  else []

/-- The effects of an operation, in order. -/
def effects (c : TcpConnection) : Op → List Effect
  | .connEstablish => [.connCallback true]
  | .sendInLoop data r _ => .sendInLoop data :: c.attemptEffects data r
  | .shutdownInLoop => if c.channel.isWriteSet then [] else [.shutdownWrite]
  | .handleClose => [.connCallback false, .closeCallback]
  | .handleRead (.delivered []) _ =>
    [.readv (.delivered []), .connCallback false, .closeCallback]
  | .handleRead (.delivered (x :: xs)) _ => [.readv (.delivered (x :: xs)), .msgCallback]
  | .handleRead (.failed e) _ => [.readv (.failed e)]
  | .handleWrite r =>
    if c.channel.isWriteSet then .write c.outputBuffer.unread r ::
      if c.drains r && c.state == .disconnecting then [.shutdownWrite] else []
    else []
  | .connDestory => if c.state = .connected then [.connCallback false] else []
  | .callback e => [e]
  | .setDisconnecting | .handleError | .retrieve _ | .skip => []

variable {c c' : TcpConnection}

theorem isWriteSet_of_disableWriteEvent (h : c.onChannel Channel.disableWriteEvent = some c') :
    c'.channel.isWriteSet = false := by
  obtain ⟨p, ch, hf, rfl⟩ := onChannel_eq h
  obtain ⟨st, rfl⟩ := EpollPoller.updateChannel_channel hf
  rw [isWriteSet_eq, getLsbD_and_not_kWritable]

theorem isWriteSet_of_enableWriteEvent (h : c.onChannel Channel.enableWriteEvent = some c') :
    c'.channel.isWriteSet = true := by
  obtain ⟨p, ch, hf, rfl⟩ := onChannel_eq h
  obtain ⟨st, rfl⟩ := EpollPoller.updateChannel_channel hf
  rw [isWriteSet_eq, getLsbD_or_kWritable]

theorem isWriteSet_of_disableAllEvent (h : c.onChannel Channel.disableAllEvent = some c') :
    c'.channel.isWriteSet = false := by
  obtain ⟨p, ch, hf, rfl⟩ := onChannel_eq h
  obtain ⟨st, rfl⟩ := EpollPoller.updateChannel_channel hf
  rw [isWriteSet_eq]
  simp [kNoneEvent]

theorem isWriteSet_of_remove (h : c.onChannel Channel.remove = some c') :
    c'.channel.isWriteSet = c.channel.isWriteSet := by
  obtain ⟨p, ch, hf, rfl⟩ := onChannel_eq h
  obtain ⟨st, rfl⟩ := EpollPoller.removeChannel_channel hf
  rw [isWriteSet_eq, isWriteSet_eq]

theorem isWriteSet_of_enableReadEvent (h : c.onChannel Channel.enableReadEvent = some c') :
    c'.channel.isWriteSet = c.channel.isWriteSet := by
  obtain ⟨p, ch, hf, rfl⟩ := onChannel_eq h
  obtain ⟨st, rfl⟩ := EpollPoller.updateChannel_channel hf
  rw [isWriteSet_eq, isWriteSet_eq, getLsbD_or_kReadable]

theorem onChannel_outputBuffer {f : Channel → EpollPoller → Option (EpollPoller × Channel)}
    (h : c.onChannel f = some c') : c'.outputBuffer = c.outputBuffer := by
  obtain ⟨_, _, -, rfl⟩ := onChannel_eq h
  rfl

/-! ### The two halves of `sendInLoop` -/

theorem noteHighWater_outcome (c : TcpConnection) (n : ℕ) :
    Outcome c c.state [] (c.noteHighWater n) := by
  simp only [noteHighWater]
  split_ifs
  · exact (Outcome.refl c).push trivial
  · exact .refl c

@[simp] theorem noteHighWater_outputBuffer (c : TcpConnection) (n : ℕ) :
    (c.noteHighWater n).outputBuffer = c.outputBuffer := by
  simp only [noteHighWater]
  split_ifs <;> rfl

/-- The rest is appended to the output buffer and write interest is set. -/
theorem appendRest_spec {rest junk : List Byte} (h : c.appendRest rest junk = some c') :
    Outcome c c.state [] c' ∧ c.outputBuffer.put rest junk = some c'.outputBuffer ∧
      c'.channel.isWriteSet = true := by
  simp only [appendRest, noteHighWater_outputBuffer, Option.bind_eq_some_iff] at h
  obtain ⟨b, hb, h⟩ := h
  have ho : Outcome c c.state [] { c.noteHighWater rest.length with outputBuffer := b } := by
    obtain ⟨h1, h2, h3, h4⟩ := noteHighWater_outcome c rest.length
    exact ⟨h1, h2, h3, h4⟩
  unfold requestWrite at h
  split_ifs at h with hw
  · cases h
    exact ⟨ho, hb, hw⟩
  · exact ⟨ho.onChannel h, by rw [hb, onChannel_outputBuffer h], isWriteSet_of_enableWriteEvent h⟩

/-- The bytes of `data` that `::write` did not take and that are not given up. -/
def rest (c : TcpConnection) (data : List Byte) (r : WriteResult) : List Byte :=
  if c.writesDirectly then
    match r with
    | .wrote n => data.drop n
    | .failed e => if faultError e then [] else data
  else data

/-- What the first half of `sendInLoop` leaves behind. -/
structure Attempted (c : TcpConnection) (data : List Byte) (r : WriteResult) (a : Attempt) :
    Prop where
  outcome : Outcome c c.state (c.attemptEffects data r) a.conn
  channel : a.conn.channel = c.channel
  poller : a.conn.loop.poller = c.loop.poller
  outputBuffer : a.conn.outputBuffer = c.outputBuffer
  rest : c.rest data r = if a.faultError then [] else data.drop a.wroteLen
  fits : c.writesDirectly = true → r.fits data.length = true

theorem attemptWrite_spec {data : List Byte} {r : WriteResult} {a : Attempt}
    (h : c.attemptWrite data r = some a) : c.Attempted data r a := by
  unfold attemptWrite at h
  split_ifs at h with hd hfit
  · have ho : Outcome c c.state [.write data r] (c.emit (.write data r)) :=
      (Outcome.refl c).emit (.write data r)
    cases r with
    | wrote n =>
      simp only [Option.some.injEq] at h
      subst h
      refine ⟨?_, ?_, ?_, ?_, by simp [rest, hd], fun _ => hfit⟩
      · rw [attemptEffects, if_pos hd]
        dsimp only
        split_ifs
        · exact ho.push trivial
        · exact ho
      all_goals
        dsimp only
        split_ifs <;> rfl
    | failed e =>
      by_cases hf : faultError e = true
      · simp only [if_pos hf, Option.some.injEq] at h
        subst h
        refine ⟨?_, rfl, rfl, rfl, by simp [rest, hd, hf], fun _ => hfit⟩
        simp only [attemptEffects, if_pos hd, if_pos hf]
        exact ho.emit (.giveUp data)
      · simp only [if_neg hf, Option.some.injEq] at h
        subst h
        refine ⟨?_, rfl, rfl, rfl, by simp [rest, hd, hf], fun _ => hfit⟩
        simp only [attemptEffects, if_pos hd, if_neg hf]
        exact ho
  · cases h
    refine ⟨?_, rfl, rfl, rfl, by simp [rest, hd], fun h => absurd h hd⟩
    simpa only [attemptEffects, if_neg hd] using Outcome.refl c

theorem Attempted.rest_eq_nil_iff {data : List Byte} {r : WriteResult} {a : Attempt}
    (h : c.Attempted data r a) :
    c.rest data r = [] ↔ (!a.faultError && data.length - a.wroteLen > 0) = false := by
  rw [h.rest]
  cases a.faultError with
  | true => simp
  | false => simp [List.drop_eq_nil_iff]

/-- The two ways on from the direct write: nothing is left, or the rest goes to the
buffer. -/
theorem sendInLoop_cases {data junk : List Byte} {r : WriteResult}
    (hs : c.sendInLoop data r junk = some c') :
    ∃ a, (c.setState .disconnected |>.emit (.sendInLoop data)).Attempted data r a ∧
      (c.rest data r = [] ∧ c' = a.conn ∨
        c.rest data r ≠ [] ∧ a.conn.appendRest (c.rest data r) junk = some c') := by
  simp only [sendInLoop, Option.bind_eq_some_iff] at hs
  obtain ⟨a, ha, hs⟩ := hs
  have hatt := attemptWrite_spec ha
  have hnil : c.rest data r = [] ↔ _ := hatt.rest_eq_nil_iff
  have hrest : c.rest data r = _ := hatt.rest
  refine ⟨a, hatt, ?_⟩
  split_ifs at hs with hcond
  · right
    have hf : a.faultError = false := by
      simp only [Bool.and_eq_true, Bool.not_eq_true'] at hcond
      exact hcond.1
    rw [hf, if_neg Bool.false_ne_true] at hrest
    refine ⟨?_, hrest ▸ hs⟩
    intro h
    rw [hnil.1 h] at hcond
    cases hcond
  · cases hs
    exact .inl ⟨hnil.2 (by simpa using hcond), rfl⟩

theorem writesDirectly_unread (h : c.outputBuffer.WellIndexed) (hd : c.writesDirectly = true) :
    c.channel.isWriteSet = false ∧ c.outputBuffer.unread = [] := by
  simpa [writesDirectly, h.unread_eq_nil] using hd

/-- After a direct write there is nothing older to lose; else all of `data` is put. -/
theorem losesOn_rest (h : c.outputBuffer.WellIndexed) (data : List Byte) (r : WriteResult) :
    c.outputBuffer.LosesOn (c.rest data r).length ↔ c.outputBuffer.LosesOn data.length := by
  by_cases hd : c.writesDirectly = true
  · have hnot := Buffer.not_losesOn_of_unread_nil h (writesDirectly_unread h hd).2
    exact iff_of_false (hnot _) (hnot _)
  · simp only [rest, if_neg hd]

/-- `sendInLoop` keeps `rest` behind the unread output, asks for EPOLLOUT if there
is any rest, and disturbs older output only where `put` does. -/
theorem sendInLoop_spec (h : c.outputBuffer.WellIndexed) {data junk : List Byte} {r : WriteResult}
    (hs : c.sendInLoop data r junk = some c') :
    Outcome c .disconnected (c.effects (.sendInLoop data r junk)) c' ∧
      c'.outputBuffer.WellIndexed ∧
      c'.channel.isWriteSet = (c.channel.isWriteSet || !(c.rest data r).isEmpty) ∧
      (c.writesDirectly = true → r.fits data.length = true) ∧
      ∃ kept, c'.outputBuffer.unread = kept ++ c.rest data r ∧
        kept.length = c.outputBuffer.unread.length ∧
        (kept = c.outputBuffer.unread ↔ ¬ c.outputBuffer.LosesOn data.length) := by
  obtain ⟨a, hatt, hs⟩ := sendInLoop_cases hs
  have ho : Outcome c .disconnected (c.effects (.sendInLoop data r junk)) a.conn :=
    (((Outcome.refl c).setState .disconnected).emit (.sendInLoop data)).trans hatt.outcome
  have hch : a.conn.channel = c.channel := hatt.channel
  have hout : a.conn.outputBuffer = c.outputBuffer := hatt.outputBuffer
  have hfit : c.writesDirectly = true → r.fits data.length = true := hatt.fits
  rw [← losesOn_rest h data r]
  rcases hs with ⟨hnil, rfl⟩ | ⟨hne, hs⟩
  · rw [hout, hch, hnil]
    refine ⟨ho, h, by simp, hfit, c.outputBuffer.unread, by simp, rfl, iff_of_true rfl ?_⟩
    simp [Buffer.LosesOn, Buffer.Reallocates]
  · obtain ⟨hoc, hput, hw⟩ := appendRest_spec hs
    rw [hout] at hput
    obtain ⟨b, kept, hput', hw', hu, hlen, hkept⟩ := h.put_spec (c.rest data r) junk
    obtain rfl : c'.outputBuffer = b := Option.some.inj (hput.symm.trans hput')
    have hoc' := ho.trans hoc
    rw [List.append_nil] at hoc'
    refine ⟨⟨hoc'.state.trans ho.state, hoc'.log, hoc'.batch, hoc'.pending⟩, hw', ?_, hfit, kept,
      hu, hlen, hkept⟩
    simp [hw, hne]

theorem shutdownInLoop_outcome (c : TcpConnection) :
    Outcome c c.state (c.effects .shutdownInLoop) c.shutdownInLoop := by
  simp only [shutdownInLoop, effects]
  split_ifs
  · exact .refl c
  · exact (Outcome.refl c).emit _

@[simp] theorem shutdownInLoop_channel (c : TcpConnection) :
    c.shutdownInLoop.channel = c.channel := by
  unfold shutdownInLoop
  split_ifs <;> rfl

@[simp] theorem shutdownInLoop_outputBuffer (c : TcpConnection) :
    c.shutdownInLoop.outputBuffer = c.outputBuffer := by
  unfold shutdownInLoop
  split_ifs <;> rfl

/-- After draining, write interest is off and a half-close in waiting is carried out. -/
theorem drained_spec (hs : c.drained = some c') :
    Outcome c c.state (if c.state == .disconnecting then [.shutdownWrite] else []) c' ∧
      c'.outputBuffer = c.outputBuffer ∧ c'.channel.isWriteSet = false := by
  simp only [drained, Option.map_eq_some_iff] at hs
  obtain ⟨d, hd, rfl⟩ := hs
  have ho : Outcome c c.state [] d := (Outcome.refl c).onChannel hd
  have hw := isWriteSet_of_disableWriteEvent hd
  have hb := onChannel_outputBuffer hd
  have hn : ∃ d', Outcome c c.state [] d' ∧ d'.channel = d.channel ∧
      d'.outputBuffer = d.outputBuffer ∧
      d' = if d.writeCompleteCallback then d.pushLoopCallback .writeComplete else d := by
    refine ⟨_, ?_, ?_, ?_, rfl⟩ <;> split_ifs
    · exact ho.push trivial
    · exact ho
    all_goals rfl
  obtain ⟨d', ho', hch', hb', hd'⟩ := hn
  rw [← hd', ho'.state]
  by_cases hst : c.state = .disconnecting
  · simp only [hst, BEq.rfl, if_true]
    have hs' := shutdownInLoop_outcome d'
    rw [ho'.state, effects, hch', hw] at hs'
    refine ⟨?_, by simp [hb', hb], by simp [hch', hw]⟩
    simpa [hst] using ho'.trans hs'
  · simp only [if_neg hst]
    exact ⟨by simpa [hst] using ho', by rw [hb', hb], by rw [hch', hw]⟩

/-- The connection after the `::write` of `handleWrite`. -/
def written (c : TcpConnection) (r : WriteResult) : TcpConnection :=
  { c.emit (.write c.outputBuffer.unread r) with
    outputBuffer :=
      match r with
      | .wrote n => if n > 0 then c.outputBuffer.pushState n else c.outputBuffer
      | .failed _ => c.outputBuffer }

theorem written_outcome (c : TcpConnection) (r : WriteResult) :
    Outcome c c.state [.write c.outputBuffer.unread r] (c.written r) := by
  obtain ⟨h1, h2, h3, h4⟩ := (Outcome.refl c).emit (.write c.outputBuffer.unread r)
  exact ⟨h1, h2, h3, h4⟩

theorem written_wellIndexed (h : c.outputBuffer.WellIndexed) (r : WriteResult) :
    (c.written r).outputBuffer.WellIndexed := by
  cases r with
  | wrote n =>
    simp only [written]
    split_ifs
    · exact h.pushState n
    · exact h
  | failed e => exact h

theorem written_unread (h : c.outputBuffer.WellIndexed) (r : WriteResult) :
    (c.written r).outputBuffer.unread =
      match r with
      | .wrote n => c.outputBuffer.unread.drop n
      | .failed _ => c.outputBuffer.unread := by
  cases r with
  | wrote n =>
    simp only [written]
    split_ifs with hn
    · exact h.pushState_unread n
    · obtain rfl : n = 0 := by omega
      rfl
  | failed e => rfl

/-- With write interest, `handleWrite` writes, and then notices a drained buffer. -/
theorem handleWrite_cases (h : c.outputBuffer.WellIndexed) (hw : c.channel.isWriteSet = true)
    {r : WriteResult} (hs : c.handleWrite r = some c') :
    r.fits c.outputBuffer.unread.length = true ∧
      (c.drains r = true ∧ (c.written r).drained = some c' ∨
        c.drains r = false ∧ c' = c.written r) := by
  simp only [handleWrite, if_pos hw, h.write_eq, Option.bind_some] at hs
  split_ifs at hs with hfit
  refine ⟨hfit, ?_⟩
  cases r with
  | failed e =>
    cases hs
    exact .inr ⟨rfl, rfl⟩
  | wrote n =>
    simp only at hs
    split_ifs at hs with hn hdr
    · left
      refine ⟨by simpa [drains, hn, TcpConnection.emit] using hdr, ?_⟩
      simp only [written, if_pos hn]
      exact hs
    · cases hs
      right
      refine ⟨by simpa [drains, hn, TcpConnection.emit] using hdr, ?_⟩
      simp [written, hn, TcpConnection.emit]
    · cases hs
      right
      exact ⟨by simp [drains, hn], by simp [written, hn, TcpConnection.emit]⟩

theorem handleWrite_spec (h : c.outputBuffer.WellIndexed) {r : WriteResult}
    (hs : c.handleWrite r = some c') :
    Outcome c c.state (c.effects (.handleWrite r)) c' ∧ c'.outputBuffer.WellIndexed ∧
      c'.channel.isWriteSet = (c.channel.isWriteSet && !c.drains r) ∧
      (c.channel.isWriteSet = true → r.fits c.outputBuffer.unread.length = true) ∧
      c'.outputBuffer.unread =
        match c.channel.isWriteSet, r with
        | true, .wrote n => c.outputBuffer.unread.drop n
        | _, _ => c.outputBuffer.unread := by
  cases hw : c.channel.isWriteSet with
  | false =>
    obtain rfl : c = c' := by simpa [handleWrite, hw] using hs
    exact ⟨by simpa [effects, hw] using Outcome.refl c, h, by simp [hw], by simp, rfl⟩
  | true =>
    have ho := written_outcome c r
    have hwi := written_wellIndexed h r
    have hu := written_unread h r
    have hcw : (c.written r).channel = c.channel := rfl
    obtain ⟨hfit, ⟨hdr, hs⟩ | ⟨hdr, rfl⟩⟩ := handleWrite_cases h hw hs
    · obtain ⟨hod, hb, hwd⟩ := drained_spec hs
      refine ⟨?_, by rwa [hb], by simp [hwd, hdr], fun _ => hfit, ?_⟩
      · simpa [effects, hw, hdr, ho.state] using ho.trans hod
      · rw [hb, hu]
        cases r <;> rfl
    · refine ⟨by simpa [effects, hw, hdr] using ho, hwi, by simp [hcw, hw, hdr], fun _ => hfit, ?_⟩
      rw [hu]
      cases r <;> rfl

theorem handleClose_spec (hs : c.handleClose = some c') :
    Outcome c .disconnected (c.effects .handleClose) c' ∧ c'.outputBuffer = c.outputBuffer ∧
      c'.channel.isWriteSet = false := by
  simp only [handleClose, Option.map_eq_some_iff] at hs
  obtain ⟨d, hd, rfl⟩ := hs
  have ho := ((Outcome.refl c).setState .disconnected).onChannel hd
  have hb : d.outputBuffer = c.outputBuffer := (onChannel_outputBuffer hd :)
  have hf : d.isConnected = false := by simp [isConnected, ho.state]
  refine ⟨?_, hb, (isWriteSet_of_disableAllEvent hd :)⟩
  simpa [hf, effects] using (ho.emit (.connCallback d.isConnected)).emit .closeCallback

theorem handleRead_spec {r : ReadResult} {junk : List Byte} (hs : c.handleRead r junk = some c') :
    Outcome c ((Op.handleRead r junk).stateAfter c.state) (c.effects (.handleRead r junk)) c' ∧
      c'.outputBuffer = c.outputBuffer ∧
      c'.channel.isWriteSet = (c.channel.isWriteSet && !(Op.handleRead r junk).closes) := by
  simp only [handleRead, Option.bind_eq_some_iff] at hs
  obtain ⟨b, -, hs⟩ := hs
  have ho : Outcome c c.state [.readv r] ({ c with inputBuffer := b }.emit (.readv r)) := by
    obtain ⟨h1, h2, h3, h4⟩ := (Outcome.refl c).emit (.readv r)
    exact ⟨h1, h2, h3, h4⟩
  cases r with
  | delivered bytes =>
    cases bytes with
    | nil =>
      simp only [List.length_nil, gt_iff_lt, lt_self_iff_false, if_false] at hs
      obtain ⟨hoc, hb, hw⟩ := handleClose_spec hs
      refine ⟨?_, hb, by simp [hw, Op.closes]⟩
      exact ho.trans hoc
    | cons x xs =>
      simp only [List.length_cons, gt_iff_lt, Nat.zero_lt_succ, if_true, Option.some.injEq] at hs
      subst hs
      exact ⟨ho.emit _, rfl, by simp [Op.closes, TcpConnection.emit]⟩
  | failed e =>
    cases hs
    exact ⟨ho, rfl, by simp [Op.closes, TcpConnection.emit, handleError]⟩

theorem connDestory_spec (hs : c.connDestory = some c') :
    Outcome c (Op.connDestory.stateAfter c.state) (c.effects .connDestory) c' ∧
      c'.outputBuffer = c.outputBuffer ∧
      c'.channel.isWriteSet = (c.channel.isWriteSet && c.state != .connected) := by
  unfold connDestory at hs
  split_ifs at hs with hst
  · simp only [Option.bind_eq_some_iff] at hs
    obtain ⟨d, hd, hs⟩ := hs
    have ho := ((Outcome.refl c).setState .disconnected).onChannel hd
    have hb : d.outputBuffer = c.outputBuffer := (onChannel_outputBuffer hd :)
    have hf : d.isConnected = false := by simp [isConnected, ho.state]
    refine ⟨?_, ?_, ?_⟩
    · simpa [hf, effects, hst, Op.stateAfter] using
        (ho.emit (.connCallback d.isConnected)).onChannel hs
    · rw [onChannel_outputBuffer hs]
      exact hb
    · rw [isWriteSet_of_remove hs]
      simpa [hst, TcpConnection.emit] using isWriteSet_of_disableAllEvent hd
  · refine ⟨?_, onChannel_outputBuffer hs, by rw [isWriteSet_of_remove hs]; simp [hst]⟩
    simpa [effects, hst, Op.stateAfter] using (Outcome.refl c).onChannel hs

theorem connEstablish_spec (hs : c.connEstablish = some c') :
    Outcome c .connected [.connCallback true] c' ∧ c'.outputBuffer = c.outputBuffer ∧
      c'.channel.isWriteSet = c.channel.isWriteSet := by
  simp only [connEstablish, Option.map_eq_some_iff] at hs
  obtain ⟨d, hd, rfl⟩ := hs
  have htie : Outcome c .connected [] { c.setState .connected with channel := c.channel.tie } :=
    ⟨rfl, by simp [setState], rfl, [], by simp, by simp [setState]⟩
  have ho : Outcome c .connected [] d := htie.onChannel hd
  have ht : d.isConnected = true := by simp [isConnected, ho.state]
  have hb : d.outputBuffer = c.outputBuffer := (onChannel_outputBuffer hd :)
  have hw : d.channel.isWriteSet = c.channel.isWriteSet := (isWriteSet_of_enableReadEvent hd :)
  exact ⟨by simpa [ht] using ho.emit (.connCallback d.isConnected), hb, hw⟩

/-- What `connEstablish` makes of a new connection. -/
def established (cfg : Config) : TcpConnection :=
  { new cfg with
    state := .connected
    channel :=
      { Channel.new cfg.self cfg.fd with
        events := kNoneEvent ||| kReadable
        state := .added
        tied := true }
    loop :=
      { poller :=
          { channels := Function.update cfg.poller.channels cfg.fd (some cfg.self)
            kernel := Function.update cfg.poller.kernel cfg.fd
              (some (kNoneEvent ||| kReadable, cfg.self)) }
        functors := .empty }
    log := [.connCallback true] }

theorem connEstablish_new (cfg : Config) : (new cfg).connEstablish = some (established cfg) := by
  simp [connEstablish, new, established, setState, TcpConnection.onChannel, Channel.enableReadEvent,
    Channel.tie, Channel.new, EpollPoller.updateChannel, EpollPoller.update, EpollPoller.epollCtl,
    EpollPoller.register, cfg.unregistered, TcpConnection.emit, isConnected]

/-! ### The output stream -/

/-- The bytes that one effect is done with: the kernel took them, or refused them for good. -/
def handed : Effect → List Byte
  | .write data (.wrote n) => data.take n
  | .giveUp data => data
  | _ => []

/-- The bytes the kernel has accepted. -/
def accepted (log : List Effect) : List Byte :=
  log.flatMap fun e =>
    match e with
    | .write data (.wrote n) => data.take n
    | _ => []

/-- Where none were refused for good, the kernel took them all. -/
theorem accepted_eq_handed {es : List Effect} (h : ∀ data, .giveUp data ∉ es) :
    accepted es = es.flatMap handed := by
  unfold accepted
  apply List.flatMap_congr
  intro e he
  cases e with
  | giveUp data => exact absurd he (h data)
  | write data r => cases r <;> rfl
  | _ => rfl

/-- `sendInLoop` hands over a prefix of its payload and keeps the rest. -/
theorem handed_sendInLoop (c : TcpConnection) (data junk : List Byte) (r : WriteResult) :
    (c.effects (.sendInLoop data r junk)).flatMap handed ++ c.rest data r = data := by
  by_cases hd : c.writesDirectly = true
  · cases r with
    | wrote n => simp [effects, attemptEffects, rest, hd, handed]
    | failed e =>
      by_cases hf : faultError e = true
      · simp [effects, attemptEffects, rest, hd, hf, handed]
      · simp [effects, attemptEffects, rest, hd, hf, handed]
  · simp [effects, attemptEffects, rest, hd, handed]

/-- `handleWrite` hands over a prefix of the unread output. -/
theorem handed_handleWrite (h : c.outputBuffer.WellIndexed) {r : WriteResult}
    (hs : c.handleWrite r = some c') :
    (c.effects (.handleWrite r)).flatMap handed ++ c'.outputBuffer.unread =
      c.outputBuffer.unread := by
  obtain ⟨-, -, -, -, hu⟩ := handleWrite_spec h hs
  rw [hu]
  cases hw : c.channel.isWriteSet with
  | false => simp [effects, hw]
  | true =>
    cases r with
    | wrote n => simp only [effects, hw, if_true]; split_ifs <;> simp [handed]
    | failed e => simp [effects, hw, drains, handed]

/-! ### Every operation at once -/

/-- Why an operation logs an entry. -/
inductive Logs (c : TcpConnection) (o : Op) : Effect → Prop
  | sendInLoop {data junk : List Byte} {r : WriteResult} :
      o = .sendInLoop data r junk → Logs c o (.sendInLoop data)
  | write {data : List Byte} {r : WriteResult} :
      o.sends = true ∨ c.channel.isWriteSet = true → Logs c o (.write data r)
  | giveUp {data junk : List Byte} {e : Errno} : c.writesDirectly = true →
      o = .sendInLoop data (.failed e) junk → faultError e = true → Logs c o (.giveUp data)
  | shutdownInLoop : o = .shutdownInLoop → c.channel.isWriteSet = false → Logs c o .shutdownWrite
  | drained {r : WriteResult} : o = .handleWrite r → c.channel.isWriteSet = true →
      c.drains r = true → c.state = .disconnecting → Logs c o .shutdownWrite
  | readv {r : ReadResult} : Logs c o (.readv r)
  | up : Logs c o (.connCallback true)
  | down : o.closes = true ∨ o = .connDestory ∧ c.state = .connected →
      Logs c o (.connCallback false)
  | msgCallback : Logs c o .msgCallback
  | closeCallback : o.closes = true → Logs c o .closeCallback
  | writeComplete : Logs c o .writeCompleteCallback
  | highWaterMark {size : ℕ} : Logs c o (.highWaterMarkCallback size)

theorem logs_of_mem_sendInLoop {data junk : List Byte} {r : WriteResult} {f : Effect}
    (h : f ∈ c.effects (.sendInLoop data r junk)) : Logs c (.sendInLoop data r junk) f := by
  simp only [effects, attemptEffects, List.mem_cons] at h
  rcases h with rfl | h
  · exact .sendInLoop rfl
  · split_ifs at h with hd
    · rcases List.mem_cons.1 h with rfl | h
      · exact .write (.inl rfl)
      · cases r with
        | wrote n => cases h
        | failed e =>
          simp only at h
          split_ifs at h with hf
          · obtain rfl := List.mem_singleton.1 h
            exact .giveUp hd rfl hf
          · cases h
    · cases h

/-- The entries of an operation and their reasons; later proofs ask for these. -/
theorem logs_of_mem {o : Op} (ho : o.Silent) {f : Effect} (h : f ∈ c.effects o) : Logs c o f := by
  cases o with
  | connEstablish =>
    obtain rfl := List.mem_singleton.1 h
    exact .up
  | sendInLoop data r junk => exact logs_of_mem_sendInLoop h
  | shutdownInLoop =>
    simp only [effects] at h
    split_ifs at h with hw
    · cases h
    · obtain rfl := List.mem_singleton.1 h
      exact .shutdownInLoop rfl (by simpa using hw)
  | handleWrite r =>
    simp only [effects] at h
    split_ifs at h with hw hd
    · simp only [Bool.and_eq_true, beq_iff_eq] at hd
      rcases List.mem_cons.1 h with rfl | h
      · exact .write (.inr hw)
      · obtain rfl := List.mem_singleton.1 h
        exact .drained rfl hw hd.1 hd.2
    · obtain rfl := List.mem_singleton.1 h
      exact .write (.inr hw)
    · cases h
  | handleRead r junk =>
    cases r with
    | delivered bytes =>
      cases bytes with
      | nil =>
        simp only [effects, List.mem_cons, List.not_mem_nil, or_false] at h
        rcases h with rfl | rfl | rfl
        · exact .readv
        · exact .down (.inl rfl)
        · exact .closeCallback rfl
      | cons x xs =>
        simp only [effects, List.mem_cons, List.not_mem_nil, or_false] at h
        rcases h with rfl | rfl
        · exact .readv
        · exact .msgCallback
    | failed e =>
      obtain rfl := List.mem_singleton.1 h
      exact .readv
  | handleClose =>
    simp only [effects, List.mem_cons, List.not_mem_nil, or_false] at h
    rcases h with rfl | rfl
    · exact .down (.inl rfl)
    · exact .closeCallback rfl
  | connDestory =>
    simp only [effects] at h
    split_ifs at h with hst
    · obtain rfl := List.mem_singleton.1 h
      exact .down (.inr ⟨rfl, hst⟩)
    · cases h
  | callback f' =>
    obtain rfl := List.mem_singleton.1 h
    rcases ho _ rfl with rfl | ⟨size, rfl⟩
    · exact .writeComplete
    · exact .highWaterMark
  | _ => cases h

/-- State, log and queue after any operation. -/
theorem exec_outcome (h : c.outputBuffer.WellIndexed) {op : Op} (hs : c.exec op = some c') :
    Outcome c (op.stateAfter c.state) (c.effects op) c' := by
  cases op with
  | connEstablish => exact (connEstablish_spec hs).1
  | sendInLoop data r junk => exact (sendInLoop_spec h hs).1
  | shutdownInLoop => cases hs; exact shutdownInLoop_outcome c
  | setDisconnecting => cases hs; exact (Outcome.refl c).setState _
  | handleRead r junk => exact (handleRead_spec hs).1
  | handleWrite r => exact (handleWrite_spec h hs).1
  | handleClose => exact (handleClose_spec hs).1
  | handleError => cases hs; exact .refl c
  | connDestory => exact (connDestory_spec hs).1
  | callback e => cases hs; exact (Outcome.refl c).emit e
  | retrieve len =>
    cases hs
    exact ⟨rfl, by simp [retrieve, effects], rfl, [], by simp, by simp [retrieve]⟩
  | skip => cases hs; exact .refl c

/-- Only `sendInLoop` and `handleWrite` touch the output buffer. -/
theorem exec_outputBuffer {op : Op} (hs : c.exec op = some c')
    (h1 : ∀ data r junk, op ≠ .sendInLoop data r junk) (h2 : ∀ r, op ≠ .handleWrite r) :
    c'.outputBuffer = c.outputBuffer := by
  cases op with
  | connEstablish => exact (connEstablish_spec hs).2.1
  | sendInLoop data r junk => exact absurd rfl (h1 data r junk)
  | shutdownInLoop => cases hs; exact shutdownInLoop_outputBuffer c
  | handleRead r junk => exact (handleRead_spec hs).2.1
  | handleWrite r => exact absurd rfl (h2 r)
  | handleClose => exact (handleClose_spec hs).2.1
  | connDestory => exact (connDestory_spec hs).2.1
  | setDisconnecting | handleError | callback | retrieve | skip => cases hs; rfl

theorem exec_wellIndexed (h : c.outputBuffer.WellIndexed) {op : Op} (hs : c.exec op = some c') :
    c'.outputBuffer.WellIndexed := by
  cases op with
  | sendInLoop data r junk => exact (sendInLoop_spec h hs).2.1
  | handleWrite r => exact (handleWrite_spec h hs).2.1
  | _ =>
    rw [exec_outputBuffer hs (by simp) (by simp)]
    exact h

/-- Write interest after any operation. -/
def writeSetAfter (c : TcpConnection) : Op → Bool
  | .sendInLoop data r _ => c.channel.isWriteSet || !(c.rest data r).isEmpty
  | .handleWrite r => c.channel.isWriteSet && !c.drains r
  | .connDestory => c.channel.isWriteSet && c.state != .connected
  | op => c.channel.isWriteSet && !op.closes

theorem exec_writeSet (h : c.outputBuffer.WellIndexed) {op : Op} (hs : c.exec op = some c') :
    c'.channel.isWriteSet = c.writeSetAfter op := by
  cases op with
  | connEstablish => simpa [writeSetAfter, Op.closes] using (connEstablish_spec hs).2.2
  | sendInLoop data r junk => exact (sendInLoop_spec h hs).2.2.1
  | shutdownInLoop => cases hs; simp [writeSetAfter, Op.closes]
  | handleRead r junk => exact (handleRead_spec hs).2.2
  | handleWrite r => exact (handleWrite_spec h hs).2.2.1
  | handleClose => simpa [writeSetAfter, Op.closes] using (handleClose_spec hs).2.2
  | connDestory => exact (connDestory_spec hs).2.2
  | setDisconnecting | handleError | callback | retrieve | skip =>
    cases hs
    simp [writeSetAfter, Op.closes, setState, handleError, TcpConnection.emit, retrieve]

/-- EPOLLOUT is asked for exactly while there is output to write. -/
def Flushing (c : TcpConnection) : Prop := c.channel.isWriteSet = true ↔ c.outputBuffer.unread ≠ []

theorem established_flushing (cfg : Config) : (established cfg).Flushing := by
  have hw : (established cfg).channel.isWriteSet = false := by
    rw [isWriteSet_eq]
    exact (getLsbD_or_kReadable kNoneEvent).trans (by simp [kNoneEvent])
  rw [Flushing, hw]
  simp [established, new]

theorem drains_iff (h : c.outputBuffer.WellIndexed) (n : ℕ) :
    c.drains (.wrote n) = true ↔ 0 < n ∧ c.outputBuffer.unread.drop n = [] := by
  rw [← h.pushState_unread n, (h.pushState n).unread_eq_nil]
  simp [drains]

theorem unread_of_drains (h : c.outputBuffer.WellIndexed) {r : WriteResult}
    (hs : c.handleWrite r = some c') (hw : c.channel.isWriteSet = true) (hd : c.drains r = true) :
    c'.outputBuffer.unread = [] := by
  obtain ⟨-, -, -, -, hu⟩ := handleWrite_spec h hs
  cases r with
  | failed e => cases hd
  | wrote n =>
    rw [hu, hw]
    exact ((drains_iff h n).1 hd).2

theorem handleWrite_flushing (h : c.outputBuffer.WellIndexed) (hf : c.Flushing) {r : WriteResult}
    (hs : c.handleWrite r = some c') : c'.Flushing := by
  obtain ⟨-, -, hw, -, hu⟩ := handleWrite_spec h hs
  unfold Flushing at hf ⊢
  rw [hw, hu]
  cases hset : c.channel.isWriteSet with
  | false => simpa [hset] using hf
  | true =>
    have hne : c.outputBuffer.unread ≠ [] := hf.1 hset
    cases r with
    | failed e => simpa [drains] using hne
    | wrote n =>
      have hd := drains_iff h n
      rcases Nat.eq_zero_or_pos n with rfl | hn
      · simpa [drains] using hne
      · simp only [hn, true_and] at hd
        simp [← hd]

theorem sendInLoop_flushing (h : c.outputBuffer.WellIndexed) (hf : c.Flushing)
    {data junk : List Byte} {r : WriteResult} (hs : c.sendInLoop data r junk = some c') :
    c'.Flushing := by
  obtain ⟨-, -, hw, -, kept, hu, hlen, -⟩ := sendInLoop_spec h hs
  have hk : kept = [] ↔ c.outputBuffer.unread = [] := by
    rw [← List.length_eq_zero_iff, hlen, List.length_eq_zero_iff]
  unfold Flushing at hf ⊢
  rw [hw, hu, Bool.or_eq_true, hf, ne_eq, ← hk]
  cases c.rest data r <;> simp

/-- Only a teardown stops a connection from flushing its output. -/
theorem exec_flushing (h : c.outputBuffer.WellIndexed) (hf : c.Flushing) {op : Op}
    (hs : c.exec op = some c') (hc : op.closes = false) (hd : op ≠ .connDestory) : c'.Flushing := by
  cases op with
  | sendInLoop data r junk => exact sendInLoop_flushing h hf hs
  | handleWrite r => exact handleWrite_flushing h hf hs
  | connDestory => exact absurd rfl hd
  | _ =>
    rw [Flushing, exec_writeSet h hs, exec_outputBuffer hs (by simp) (by simp)]
    simpa [writeSetAfter, hc, Flushing] using hf

/-- What the operation adds to the output stream. -/
def payload : Op → List Byte
  | .sendInLoop data _ _ => data
  | _ => []

theorem sendInLoop_stream (h : c.outputBuffer.WellIndexed) {data junk : List Byte}
    {r : WriteResult} (hs : c.sendInLoop data r junk = some c')
    (hput : ¬ c.outputBuffer.LosesOn data.length) :
    (c.effects (.sendInLoop data r junk)).flatMap handed ++ c'.outputBuffer.unread =
      c.outputBuffer.unread ++ data := by
  obtain ⟨-, -, -, -, kept, hu, -, hk⟩ := sendInLoop_spec h hs
  have hall := handed_sendInLoop c data junk r
  rw [hu, hk.2 hput]
  by_cases hd : c.writesDirectly = true
  · rw [(writesDirectly_unread h hd).2, List.nil_append, List.nil_append, hall]
  · have hnone : (c.effects (.sendInLoop data r junk)).flatMap handed = [] := by
      simp [effects, attemptEffects, hd, handed]
    rw [hnone, List.nil_append] at hall ⊢
    rw [hall]

/-- What an operation hands to the kernel and what it leaves unread are what was
unread and its payload, unless `put` loses bytes. -/
theorem exec_stream (h : c.outputBuffer.WellIndexed) {op : Op} (hs : c.exec op = some c')
    (hcb : ∀ f, op = .callback f → handed f = [])
    (hput : ∀ data r junk, op = .sendInLoop data r junk → ¬ c.outputBuffer.LosesOn data.length) :
    (c.effects op).flatMap handed ++ c'.outputBuffer.unread =
      c.outputBuffer.unread ++ payload op := by
  cases op with
  | sendInLoop data r junk => exact sendInLoop_stream h hs (hput _ _ _ rfl)
  | handleWrite r => simpa [payload] using handed_handleWrite h hs
  | handleRead r junk =>
    rw [exec_outputBuffer hs (by simp) (by simp)]
    cases r with
    | delivered bytes => cases bytes <;> simp [effects, handed, payload]
    | failed e => simp [effects, handed, payload]
  | shutdownInLoop =>
    rw [exec_outputBuffer hs (by simp) (by simp)]
    simp only [effects, payload]
    split_ifs <;> simp [handed]
  | connDestory =>
    rw [exec_outputBuffer hs (by simp) (by simp)]
    simp only [effects, payload]
    split_ifs <;> simp [handed]
  | callback f =>
    rw [exec_outputBuffer hs (by simp) (by simp)]
    simp [effects, payload, hcb f rfl]
  | _ =>
    rw [exec_outputBuffer hs (by simp) (by simp)]
    simp [effects, handed, payload]

end TcpConnection
end Armsy
