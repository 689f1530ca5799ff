import Armsy.Proofs.ServerSpec
import Armsy.Proofs.Teardown

/-! What the server sees of a connection: every operation of `TcpConnection` changes its
state and its channel the way the acts of the server's connections do. -/

namespace Armsy
namespace Connection

open Teardown (Linked linked_updateChannel)

variable {c c' : TcpConnection} {o : Op} {l : ℕ}

/-- The server's view of a connection on loop `l`. -/
def view (name : List Char) (l : ℕ) (tornDownOn : Option ℕ) (c : TcpConnection) : Connection :=
  ⟨name, l, c.state, c.channel, tornDownOn⟩

/-- The act that an operation on the thread of loop `l` is. -/
def seen (l : ℕ) (c : TcpConnection) : Op → Option Act
  | .connEstablish => some .connEstablish
  | .sendInLoop data r _ => some (.sendInLoop !(c.rest data r).isEmpty)
  | .setDisconnecting => some .setDisconnecting
  | .handleWrite r => if c.channel.isWriteSet && c.drains r then some .drained else none
  | .handleClose | .handleRead (.delivered []) _ => some .handleClose
  | .connDestory => some (.connDestory l)
  | _ => none

theorem channel_of_updateChannel {p : EpollPoller} {ch : Channel} {w : EpollPoller × Channel}
    (h : Linked (p, ch)) (m : Mask) (hu : p.updateChannel { ch with events := m } = some w) :
    w.2 = request m ch := by
  have hl : Linked (p, { ch with events := m }) := h
  rw [EpollPoller.updateChannel_eq hl, Option.some.injEq] at hu
  rw [← hu]
  rfl

theorem channel_of_removeChannel {p : EpollPoller} {ch : Channel} {w : EpollPoller × Channel}
    (h : Linked (p, ch)) (hr : p.removeChannel ch = some w) :
    w.2 = { ch with state := .initialized } := by
  rw [EpollPoller.removeChannel_eq h, Option.some.injEq] at hr
  rw [← hr]

/-- An operation that the server takes no note of changes neither state nor channel; any
other changes them as its act does. -/
theorem view_exec (h : Linked c.wires) (hw : c.outputBuffer.WellIndexed) (hs : c.exec o = some c')
    (name : List Char) (t : Option ℕ) :
    match seen l c o with
    | some a => ((view name l t c).act a).state = c'.state ∧
        ((view name l t c).act a).channel = c'.channel
    | none => c.state = c'.state ∧ c.channel = c'.channel := by
  have hst := (TcpConnection.exec_outcome hw hs).state
  have hr := TcpConnection.exec_rewire hw hs
  cases o with
  | connEstablish =>
    have ht : Linked (c.loop.poller, c.channel.tie) := h
    exact ⟨hst.symm, (channel_of_updateChannel ht _ hr).symm⟩
  | sendInLoop data r junk =>
    simp only [seen, act, view, TcpConnection.rewire] at hr ⊢
    cases hset : c.channel.isWriteSet || (c.rest data r).isEmpty with
    | true =>
      rw [hset, if_pos rfl, Option.some.injEq] at hr
      have hno : (!(c.rest data r).isEmpty && !c.channel.isWriteSet) = false := by
        cases hset' : c.channel.isWriteSet <;> simp_all
      simp only [hno, Bool.false_eq_true, if_false]
      exact ⟨hst.symm, congrArg Prod.snd hr⟩
    | false =>
      rw [hset] at hr
      have hyes : (!(c.rest data r).isEmpty && !c.channel.isWriteSet) = true := by
        simp only [Bool.or_eq_false_iff] at hset
        simp [hset]
      simp only [hyes, if_true]
      exact ⟨hst.symm, (channel_of_updateChannel h _ hr).symm⟩
  | handleWrite r =>
    simp only [seen, TcpConnection.rewire] at hr ⊢
    split_ifs at hr ⊢ with hd
    · exact ⟨hst.symm, (channel_of_updateChannel h _ hr).symm⟩
    · exact ⟨hst.symm, congrArg Prod.snd (Option.some.inj hr)⟩
  | handleClose => exact ⟨hst.symm, (channel_of_updateChannel h _ hr).symm⟩
  | handleRead r junk =>
    cases r with
    | delivered bytes =>
      cases bytes with
      | nil => exact ⟨hst.symm, (channel_of_updateChannel h _ hr).symm⟩
      | cons x xs => exact ⟨hst.symm, congrArg Prod.snd (Option.some.inj hr)⟩
    | failed e => exact ⟨hst.symm, congrArg Prod.snd (Option.some.inj hr)⟩
  | connDestory =>
    simp only [seen, act, TcpConnection.rewire] at hr ⊢
    by_cases hcon : c.state = .connected
    · simp only [hcon, if_true, Option.bind_eq_some_iff] at hr
      obtain ⟨w, hw', hr⟩ := hr
      have hch := channel_of_removeChannel (linked_updateChannel h _ hw') hr
      rw [channel_of_updateChannel h _ hw'] at hch
      rw [if_pos (show (view name l t c).state = .connected from hcon)]
      exact ⟨by rw [hst, hcon]; rfl, hch.symm⟩
    · rw [if_neg hcon] at hr
      rw [if_neg (show (view name l t c).state ≠ .connected from hcon)]
      refine ⟨?_, (channel_of_removeChannel h hr).symm⟩
      rw [hst, Op.stateAfter, if_neg hcon]
      rfl
  | setDisconnecting | shutdownInLoop | handleError | callback e | retrieve len | skip =>
    exact ⟨hst.symm, congrArg Prod.snd (Option.some.inj hr)⟩

end Connection
end Armsy
