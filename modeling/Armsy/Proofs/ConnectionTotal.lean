import Armsy.Proofs.Teardown

/-! No operation of a connection exits the process or leaves the storage of its output
buffer, as long as the kernel watches the channel exactly when its state is kChannelAdded
and a `::write` takes no more than it is given. Only `handleRead` touches the input buffer. -/

namespace Armsy
namespace TcpConnection

open Teardown (Linked linked_updateChannel)

variable {c c' : TcpConnection} {data junk : List Byte} {r : WriteResult}

/-! ### The input buffer -/

theorem onChannel_inputBuffer {f : Channel → EpollPoller → Option (EpollPoller × Channel)}
    (h : c.onChannel f = some c') : c'.inputBuffer = c.inputBuffer := by
  obtain ⟨_, _, -, rfl⟩ := onChannel_eq h
  rfl

theorem attemptWrite_inputBuffer {a : Attempt} (h : c.attemptWrite data r = some a) :
    a.conn.inputBuffer = c.inputBuffer := by
  unfold attemptWrite at h
  split_ifs at h
  · cases r with
    | wrote n =>
      cases h
      dsimp only
      split_ifs <;> rfl
    | failed e =>
      simp only at h
      split_ifs at h <;> cases h <;> rfl
  · cases h
    rfl

theorem appendRest_inputBuffer {rest : List Byte} (h : c.appendRest rest junk = some c') :
    c'.inputBuffer = c.inputBuffer := by
  simp only [appendRest, Option.bind_eq_some_iff] at h
  obtain ⟨b, -, h⟩ := h
  have hn : (c.noteHighWater rest.length).inputBuffer = c.inputBuffer := by
    simp only [noteHighWater]
    split_ifs <;> rfl
  rw [← hn]
  unfold requestWrite at h
  split_ifs at h
  · cases h
    rfl
  · exact (onChannel_inputBuffer h :)

theorem sendInLoop_inputBuffer (hs : c.sendInLoop data r junk = some c') :
    c'.inputBuffer = c.inputBuffer := by
  simp only [sendInLoop, Option.bind_eq_some_iff] at hs
  obtain ⟨a, ha, hs⟩ := hs
  have hconn : a.conn.inputBuffer = c.inputBuffer := (attemptWrite_inputBuffer ha :)
  split_ifs at hs
  · exact (appendRest_inputBuffer hs).trans hconn
  · cases hs
    exact hconn

theorem drained_inputBuffer (hs : c.drained = some c') : c'.inputBuffer = c.inputBuffer := by
  simp only [drained, Option.map_eq_some_iff] at hs
  obtain ⟨d, hd, rfl⟩ := hs
  rw [← onChannel_inputBuffer hd]
  unfold shutdownInLoop
  split_ifs <;> rfl

theorem handleWrite_inputBuffer (h : c.outputBuffer.WellIndexed) (hs : c.handleWrite r = some c') :
    c'.inputBuffer = c.inputBuffer := by
  cases hw : c.channel.isWriteSet with
  | false =>
    obtain rfl : c = c' := by simpa [handleWrite, hw] using hs
    rfl
  | true =>
    obtain ⟨-, ⟨-, hs⟩ | ⟨-, rfl⟩⟩ := handleWrite_cases h hw hs
    · exact (drained_inputBuffer hs :)
    · rfl

theorem handleClose_inputBuffer (hs : c.handleClose = some c') :
    c'.inputBuffer = c.inputBuffer := by
  simp only [handleClose, Option.map_eq_some_iff] at hs
  obtain ⟨d, hd, rfl⟩ := hs
  have hb : d.inputBuffer = c.inputBuffer := (onChannel_inputBuffer hd :)
  exact hb

theorem connDestory_inputBuffer (hs : c.connDestory = some c') :
    c'.inputBuffer = c.inputBuffer := by
  unfold connDestory at hs
  split_ifs at hs
  · simp only [Option.bind_eq_some_iff] at hs
    obtain ⟨d, hd, hs⟩ := hs
    have hb : d.inputBuffer = c.inputBuffer := (onChannel_inputBuffer hd :)
    have hb' : c'.inputBuffer = d.inputBuffer := (onChannel_inputBuffer hs :)
    exact hb'.trans hb
  · exact onChannel_inputBuffer hs

/-! ### Every operation returns -/

theorem exists_onChannel (hl : Linked c.wires) {m : Mask}
    {f : Channel → EpollPoller → Option (EpollPoller × Channel)}
    (hf : f c.channel c.loop.poller = c.loop.poller.updateChannel { c.channel with events := m }) :
    ∃ c', c.onChannel f = some c' := by
  have hl' : Linked (c.loop.poller, { c.channel with events := m }) := hl
  rw [onChannel, hf, EpollPoller.updateChannel_eq hl', Option.map_some]
  exact ⟨_, rfl⟩

theorem exists_remove (hl : Linked c.wires) : ∃ c', c.onChannel Channel.remove = some c' := by
  have hl' : Linked (c.loop.poller, c.channel) := hl
  rw [onChannel, Channel.remove, EpollPoller.removeChannel_eq hl', Option.map_some]
  exact ⟨_, rfl⟩

theorem exists_attemptWrite (hfit : c.writesDirectly = true → r.fits data.length = true) :
    ∃ a, c.attemptWrite data r = some a := by
  unfold attemptWrite
  by_cases hd : c.writesDirectly = true
  · rw [if_pos hd, if_pos (hfit hd)]
    cases r with
    | wrote n => exact ⟨_, rfl⟩
    | failed e =>
      dsimp only
      split_ifs
      · exact ⟨_, rfl⟩
      · exact ⟨_, rfl⟩
  · rw [if_neg hd]
    exact ⟨_, rfl⟩

theorem exists_appendRest (hl : Linked c.wires) (h : c.outputBuffer.WellIndexed)
    (rest junk : List Byte) : ∃ c', c.appendRest rest junk = some c' := by
  obtain ⟨b, -, hput, -⟩ := h.put_spec rest junk
  simp only [appendRest, noteHighWater_outputBuffer, hput, Option.bind_some, requestWrite]
  split_ifs
  · exact ⟨_, rfl⟩
  · apply exists_onChannel _ rfl
    have hw : Linked (c.noteHighWater rest.length).wires := by rwa [wires_noteHighWater]
    exact hw

theorem exists_sendInLoop (hl : Linked c.wires) (h : c.outputBuffer.WellIndexed)
    (hfit : c.writesDirectly = true → r.fits data.length = true) :
    ∃ c', c.sendInLoop data r junk = some c' := by
  obtain ⟨a, ha⟩ := exists_attemptWrite
    (c := (c.setState .disconnected).emit (.sendInLoop data)) hfit
  have hatt := attemptWrite_spec ha
  simp only [sendInLoop, ha, Option.bind_some]
  split_ifs
  · apply exists_appendRest
    · have hw : a.conn.wires = c.wires := Prod.ext hatt.poller hatt.channel
      rwa [hw]
    · rw [hatt.outputBuffer]
      exact h
  · exact ⟨_, rfl⟩

theorem exists_handleWrite (hl : Linked c.wires) (h : c.outputBuffer.WellIndexed)
    (hfit : c.channel.isWriteSet = true → r.fits c.outputBuffer.readableBytes = true) :
    ∃ c', c.handleWrite r = some c' := by
  unfold handleWrite
  split_ifs with hw
  · have hlen := hfit hw
    rw [← h.unread_length] at hlen
    simp only [h.write_eq, Option.bind_some, hlen, if_true]
    cases r with
    | failed e => exact ⟨_, rfl⟩
    | wrote n =>
      dsimp only
      split_ifs
      · simp only [drained, Option.map_eq_some_iff]
        obtain ⟨d, hd⟩ := exists_onChannel (f := Channel.disableWriteEvent)
          (c := { c.emit (.write c.outputBuffer.unread (.wrote n)) with
            outputBuffer := c.outputBuffer.pushState n }) hl rfl
        exact ⟨_, d, hd, rfl⟩
      · exact ⟨_, rfl⟩
      · exact ⟨_, rfl⟩
  · exact ⟨_, rfl⟩

theorem exists_handleClose (hl : Linked c.wires) : ∃ c', c.handleClose = some c' := by
  obtain ⟨d, hd⟩ := exists_onChannel (c := c.setState .disconnected) hl
    (f := Channel.disableAllEvent) rfl
  simp only [handleClose, hd, Option.map_some]
  exact ⟨_, rfl⟩

theorem exists_handleRead (hl : Linked c.wires) {r : ReadResult} {b : Buffer}
    (hb : c.inputBuffer.read r junk = some b) : ∃ c', c.handleRead r junk = some c' := by
  simp only [handleRead, hb, Option.bind_some]
  cases r with
  | delivered bytes =>
    dsimp only
    split_ifs
    · exact ⟨_, rfl⟩
    · exact exists_handleClose hl
  | failed e => exact ⟨_, rfl⟩

theorem exists_connDestory (hl : Linked c.wires) : ∃ c', c.connDestory = some c' := by
  unfold connDestory
  split_ifs
  · obtain ⟨d, hd⟩ := exists_onChannel (c := c.setState .disconnected) hl
      (f := Channel.disableAllEvent) rfl
    rw [hd, Option.bind_some]
    apply exists_remove
    have hc : Linked (c.loop.poller, c.channel) := hl
    exact linked_updateChannel hc _ (onChannel_wires hd)
  · exact exists_remove hl

end TcpConnection
end Armsy
