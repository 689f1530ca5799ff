import Armsy.Proofs.ConnectionSpec
import Armsy.Proofs.PollerSpec

/-! The channel of a connection and the kernel's interest set: which operations
touch them, and that a connection stays registered for reading until it closes,
and unregistered after that as long as nothing asks for EPOLLOUT again. -/

namespace Armsy

namespace TcpConnection

/-- The poller and the channel of a connection. -/
def wires (c : TcpConnection) : EpollPoller × Channel := (c.loop.poller, c.channel)

variable {c c' : TcpConnection}

@[simp] theorem wires_pushLoopCallback (c : TcpConnection) (f : Functor) :
    (c.pushLoopCallback f).wires = c.wires := rfl

@[simp] theorem wires_noteHighWater (c : TcpConnection) (n : ℕ) :
    (c.noteHighWater n).wires = c.wires := by
  simp only [noteHighWater]
  split_ifs <;> rfl

@[simp] theorem wires_shutdownInLoop (c : TcpConnection) : c.shutdownInLoop.wires = c.wires := by
  unfold shutdownInLoop
  split_ifs <;> rfl

theorem onChannel_wires {f : Channel → EpollPoller → Option (EpollPoller × Channel)}
    (h : c.onChannel f = some c') : f c.channel c.loop.poller = some c'.wires := by
  obtain ⟨p, ch, hf, rfl⟩ := onChannel_eq h
  exact hf

/-- What an operation does to the poller and the channel. -/
def rewire (c : TcpConnection) : Op → Option (EpollPoller × Channel)
  | .connEstablish => c.channel.tie.enableReadEvent c.loop.poller
  | .sendInLoop data r _ =>
    if c.channel.isWriteSet || (c.rest data r).isEmpty then some c.wires
    else c.channel.enableWriteEvent c.loop.poller
  | .handleWrite r =>
    if c.channel.isWriteSet && c.drains r then c.channel.disableWriteEvent c.loop.poller
    else some c.wires
  | .handleClose | .handleRead (.delivered []) _ => c.channel.disableAllEvent c.loop.poller
  | .connDestory =>
    if c.state = .connected then
      (c.channel.disableAllEvent c.loop.poller).bind fun w => w.2.remove w.1
    else c.channel.remove c.loop.poller
  | _ => some c.wires

theorem appendRest_wires {rest junk : List Byte} (h : c.appendRest rest junk = some c') :
    (if c.channel.isWriteSet then some c.wires else c.channel.enableWriteEvent c.loop.poller) =
      some c'.wires := by
  simp only [appendRest, Option.bind_eq_some_iff] at h
  obtain ⟨b, -, h⟩ := h
  have hw := wires_noteHighWater c rest.length
  have hch : (c.noteHighWater rest.length).channel = c.channel := congrArg Prod.snd hw
  have hpoll : (c.noteHighWater rest.length).loop.poller = c.loop.poller := congrArg Prod.fst hw
  simp only [requestWrite, hch] at h
  split_ifs at h ⊢
  · cases h
    simp only [wires, hpoll]
  · have hf := onChannel_wires h
    simp only [hpoll] at hf
    exact hf

theorem sendInLoop_rewire {data junk : List Byte} {r : WriteResult}
    (hs : c.sendInLoop data r junk = some c') :
    c.rewire (.sendInLoop data r junk) = some c'.wires := by
  obtain ⟨a, hatt, hs⟩ := sendInLoop_cases hs
  have hch : a.conn.channel = c.channel := hatt.channel
  have hpoll : a.conn.loop.poller = c.loop.poller := hatt.poller
  have hwires : a.conn.wires = c.wires := Prod.ext hpoll hch
  simp only [rewire]
  rcases hs with ⟨hnil, rfl⟩ | ⟨hne, hs⟩
  · simp [hnil, hwires]
  · have hw := appendRest_wires hs
    rw [hch, hpoll, hwires] at hw
    simpa [hne] using hw

theorem drained_wires (hs : c.drained = some c') :
    c.channel.disableWriteEvent c.loop.poller = some c'.wires := by
  simp only [drained, Option.map_eq_some_iff] at hs
  obtain ⟨d, hd, rfl⟩ := hs
  refine (onChannel_wires hd).trans ?_
  split_ifs <;> simp

theorem handleWrite_rewire (h : c.outputBuffer.WellIndexed) {r : WriteResult}
    (hs : c.handleWrite r = some c') : c.rewire (.handleWrite r) = some c'.wires := by
  simp only [rewire]
  cases hw : c.channel.isWriteSet with
  | false =>
    obtain rfl : c = c' := by simpa [handleWrite, hw] using hs
    rfl
  | true =>
    have hwires : (c.written r).wires = c.wires := rfl
    obtain ⟨-, ⟨hdr, hs⟩ | ⟨hdr, rfl⟩⟩ := handleWrite_cases h hw hs
    · rw [hdr, ← drained_wires hs]
      rfl
    · simp [hdr, hwires]

theorem handleClose_rewire (hs : c.handleClose = some c') :
    c.rewire .handleClose = some c'.wires := by
  simp only [handleClose, Option.map_eq_some_iff] at hs
  obtain ⟨d, hd, rfl⟩ := hs
  exact (onChannel_wires hd :)

theorem handleRead_rewire {r : ReadResult} {junk : List Byte} (hs : c.handleRead r junk = some c') :
    c.rewire (.handleRead r junk) = some c'.wires := by
  simp only [handleRead, Option.bind_eq_some_iff] at hs
  obtain ⟨b, -, hs⟩ := hs
  cases r with
  | delivered bytes =>
    cases bytes with
    | nil =>
      simp only [List.length_nil, gt_iff_lt, lt_self_iff_false, if_false] at hs
      exact (handleClose_rewire hs :)
    | cons x xs =>
      simp only [List.length_cons, gt_iff_lt, Nat.zero_lt_succ, if_true, Option.some.injEq] at hs
      subst hs
      rfl
  | failed e =>
    cases hs
    rfl

theorem connDestory_rewire (hs : c.connDestory = some c') :
    c.rewire .connDestory = some c'.wires := by
  unfold connDestory at hs
  simp only [rewire]
  split_ifs at hs ⊢ with hst
  · simp only [Option.bind_eq_some_iff] at hs
    obtain ⟨d, hd, hs⟩ := hs
    have hall : c.channel.disableAllEvent c.loop.poller = some d.wires :=
      (onChannel_wires hd :)
    rw [hall]
    exact (onChannel_wires hs :)
  · exact onChannel_wires hs

theorem exec_rewire (h : c.outputBuffer.WellIndexed) {op : Op} (hs : c.exec op = some c') :
    c.rewire op = some c'.wires := by
  cases op with
  | connEstablish =>
    simp only [exec, connEstablish, Option.map_eq_some_iff] at hs
    obtain ⟨d, hd, rfl⟩ := hs
    exact (onChannel_wires hd :)
  | sendInLoop data r junk => exact sendInLoop_rewire hs
  | shutdownInLoop => cases hs; simp [rewire]
  | handleRead r junk => exact handleRead_rewire hs
  | handleWrite r => exact handleWrite_rewire h hs
  | handleClose => exact handleClose_rewire hs
  | connDestory => exact connDestory_rewire hs
  | _ => cases hs; rfl

/-! ### Registered, and not -/

/-- The kernel watches the descriptor for the channel, and for reading at least. -/
structure Attached (c : TcpConnection) : Prop where
  added : c.channel.state = .added
  reading : c.channel.events.getLsbD 0 = true
  kernel : (c.loop.poller.kernel c.channel.fd).isSome = true

/-- The kernel does not watch the descriptor, and nothing waits for EPOLLOUT. -/
structure Detached (c : TcpConnection) : Prop where
  added : c.channel.state ≠ .added
  writeSet : c.channel.isWriteSet = false
  kernel : c.loop.poller.kernel c.channel.fd = none

theorem wires_inj (h : c.wires = c'.wires) : c.channel = c'.channel ∧
    c.loop.poller = c'.loop.poller := ⟨congrArg Prod.snd h, congrArg Prod.fst h⟩

theorem Attached.of_wires (ha : c.Attached) (h : c.wires = c'.wires) : c'.Attached := by
  obtain ⟨hch, hp⟩ := wires_inj h
  exact ⟨hch ▸ ha.added, hch ▸ ha.reading, by rw [← hch, ← hp]; exact ha.kernel⟩

theorem Detached.of_wires (hd : c.Detached) (h : c.wires = c'.wires) : c'.Detached := by
  obtain ⟨hch, hp⟩ := wires_inj h
  exact ⟨hch ▸ hd.added, hch ▸ hd.writeSet, by rw [← hch, ← hp]; exact hd.kernel⟩

theorem Attached.watched (ha : c.Attached) (events : Mask) :
    ({ c.channel with events := events } : Channel).state = .added ↔
      (c.loop.poller.kernel ({ c.channel with events := events } : Channel).fd).isSome = true :=
  iff_of_true ha.added ha.kernel

/-- A change of the mask that keeps EPOLLIN is an EPOLL_CTL_MOD. -/
theorem Attached.update (ha : c.Attached) {events : Mask} (hr : events.getLsbD 0 = true)
    (h : c.loop.poller.updateChannel { c.channel with events := events } = some c'.wires) :
    c'.Attached ∧ c'.channel.revents = c.channel.revents := by
  have hne : ({ c.channel with events := events } : Channel).isSilent = false := by
    rw [Channel.isSilent, beq_eq_false_iff_ne]
    intro h0
    simp only at h0
    rw [h0] at hr
    simp [kNoneEvent] at hr
  rw [EpollPoller.updateChannel_eq (ha.watched events), Option.some.injEq] at h
  have hch := congrArg Prod.snd h
  have hp := congrArg Prod.fst h
  simp only [wires] at hch hp
  refine ⟨⟨?_, ?_, ?_⟩, ?_⟩
  · simp [← hch, Channel.updated, hne]
  · rw [← hch]
    exact hr
  · simp [← hch, ← hp, Channel.watch, hne]
  · rw [← hch]

/-- A registered connection stays registered until it is torn down. -/
theorem Attached.exec (ha : c.Attached) (h : c.outputBuffer.WellIndexed) {op : Op}
    (hs : c.exec op = some c') (hc : op.closes = false) (hd : op ≠ .connDestory)
    (he : op ≠ .connEstablish) : c'.Attached ∧ c'.channel.revents = c.channel.revents := by
  have hw := exec_rewire h hs
  have same (h : some c.wires = some c'.wires) :
      c'.Attached ∧ c'.channel.revents = c.channel.revents := by
    have h := Option.some.inj h
    exact ⟨ha.of_wires h, by rw [(wires_inj h).1]⟩
  cases op with
  | sendInLoop data r junk =>
    simp only [rewire] at hw
    split_ifs at hw
    · exact same hw
    · exact ha.update (by simp [ha.reading]) hw
  | handleWrite r =>
    simp only [rewire] at hw
    split_ifs at hw
    · exact ha.update (by simp [ha.reading, kWritable, EPOLLOUT]) hw
    · exact same hw
  | handleRead r junk =>
    cases r with
    | delivered bytes =>
      cases bytes with
      | nil => cases hc
      | cons x xs => exact same hw
    | failed e => exact same hw
  | connEstablish => exact absurd rfl he
  | connDestory => exact absurd rfl hd
  | handleClose => cases hc
  | _ => exact same hw

/-- `handleClose` takes a registered connection out of the kernel's interest set. -/
theorem Attached.close (ha : c.Attached) (h : c.outputBuffer.WellIndexed) {op : Op}
    (hs : c.exec op = some c') (hc : op.closes = true) :
    c'.Detached ∧ c'.channel.revents = c.channel.revents := by
  have hw : c.channel.disableAllEvent c.loop.poller = some c'.wires := by
    have hw := exec_rewire h hs
    rcases Op.eq_of_closes hc with rfl | ⟨junk, rfl⟩
    · exact hw
    · exact hw
  rw [Channel.disableAllEvent, EpollPoller.updateChannel_eq (ha.watched kNoneEvent),
    Option.some.injEq] at hw
  have hch := congrArg Prod.snd hw
  have hp := congrArg Prod.fst hw
  simp only [wires] at hch hp
  refine ⟨⟨?_, ?_, ?_⟩, ?_⟩
  · simp [← hch, Channel.updated, Channel.isSilent, ha.added]
  · simp [← hch, isWriteSet_eq, kNoneEvent]
  · simp [← hch, ← hp, Channel.watch, Channel.isSilent, ha.added]
  · simp [← hch]

/-- After that it stays out, unless `sendInLoop` has bytes to leave for EPOLLOUT. -/
theorem Detached.exec (hd : c.Detached) (h : c.outputBuffer.WellIndexed) {op : Op}
    (hs : c.exec op = some c') (hc : op.closes = false) (he : op ≠ .connEstablish)
    (hst : c.state ≠ .connected)
    (hrest : ∀ data r junk, op = .sendInLoop data r junk → c.rest data r = []) :
    c'.Detached ∧ c'.channel.revents = c.channel.revents := by
  have hw := exec_rewire h hs
  have same (h : some c.wires = some c'.wires) :
      c'.Detached ∧ c'.channel.revents = c.channel.revents := by
    have h := Option.some.inj h
    exact ⟨hd.of_wires h, by rw [(wires_inj h).1]⟩
  cases op with
  | sendInLoop data r junk =>
    simp only [rewire, hrest data r junk rfl, List.isEmpty_nil, Bool.or_true, if_true] at hw
    exact same hw
  | handleWrite r =>
    simp only [rewire, hd.writeSet, Bool.false_and, Bool.false_eq_true, if_false] at hw
    exact same hw
  | handleRead r junk =>
    cases r with
    | delivered bytes =>
      cases bytes with
      | nil => cases hc
      | cons x xs => exact same hw
    | failed e => exact same hw
  | connDestory =>
    have hunlinked : c.channel.state = .added ↔
        (c.loop.poller.kernel c.channel.fd).isSome = true :=
      iff_of_false hd.added (by simp [hd.kernel])
    simp only [rewire, if_neg hst, Channel.remove, EpollPoller.removeChannel_eq hunlinked,
      Option.some.injEq] at hw
    have hch := congrArg Prod.snd hw
    have hp := congrArg Prod.fst hw
    simp only [wires] at hch hp
    refine ⟨⟨?_, ?_, ?_⟩, ?_⟩
    · simp [← hch]
    · rw [← hch]
      exact hd.writeSet
    · simp [← hch, ← hp]
    · simp [← hch]
  | connEstablish => exact absurd rfl he
  | handleClose => cases hc
  | _ => exact same hw

theorem established_attached (cfg : Config) : (established cfg).Attached where
  added := rfl
  reading := by simp [established, kReadable, EPOLLIN, EPOLLPRI, kNoneEvent]
  kernel := by simp [established, Channel.new]

end TcpConnection
end Armsy
