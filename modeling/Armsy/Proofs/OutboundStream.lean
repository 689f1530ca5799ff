import Armsy.Lib.Run
import Armsy.Proofs.ConnectionSpec

/-! `send` on the loop thread, between dispatches of the channel, before any
close or shutdown. Only the first payload ever enters the output stream:
`sendInLoop` leaves `state_` at kDisconnected, and `send` then does nothing. -/

namespace Armsy
namespace OutboundStream

open TcpConnection

/-- A call of `send`, or what a dispatch of the channel calls. -/
inductive Event where
  | send (data : List Byte) (r : WriteResult) (junk : List Byte)
  | handleWrite (r : WriteResult)
  | handleRead (r : ReadResult) (junk : List Byte)
  deriving DecidableEq

def step (c : TcpConnection) : Event → Option TcpConnection
  | .send data r junk => c.send data r junk
  | .handleWrite r => c.handleWrite r
  | .handleRead r junk => c.handleRead r junk

/-- The payloads passed to `send`, in call order. -/
def payloads (tr : List (Transition TcpConnection Event)) : List (List Byte) :=
  tr.flatMap fun τ =>
    match τ.event with
    | .send data _ _ => [data]
    | _ => []

/-- No write fails with EPIPE or ECONNRESET, and the peer has not closed. -/
def Event.permitted : Event → Bool
  | .send _ (.failed e) _ | .handleWrite (.failed e) => !faultError e
  | .handleRead (.delivered []) _ => false
  | _ => true

theorem accepted_sendInLoop {c : TcpConnection} {data junk : List Byte} {r : WriteResult}
    (hp : (Event.send data r junk).permitted = true) :
    accepted (c.effects (.sendInLoop data r junk)) ++ c.rest data r = data := by
  rw [accepted_eq_handed, handed_sendInLoop]
  intro d
  simp only [effects, attemptEffects]
  cases r with
  | wrote n => split_ifs <;> simp
  | failed e =>
    have hf : faultError e = false := by simpa [Event.permitted] using hp
    split_ifs <;> simp [hf]

theorem accepted_handleWrite {c c' : TcpConnection} (h : c.outputBuffer.WellIndexed)
    {r : WriteResult} (hs : c.handleWrite r = some c') :
    accepted (c.effects (.handleWrite r)) ++ c'.outputBuffer.unread = c.outputBuffer.unread := by
  rw [accepted_eq_handed, handed_handleWrite h hs]
  intro d
  simp only [effects]
  split_ifs <;> simp

/-- After the payloads `ps`: `send` is still open exactly when there was none, and
the stream is the first of them. -/
structure Inv (ps : List (List Byte)) (c : TcpConnection) : Prop where
  wellIndexed : c.outputBuffer.WellIndexed
  connected : c.state = .connected ↔ ps = []
  stream : accepted c.log ++ c.outputBuffer.unread = ps.headD []

theorem established_inv (cfg : Config) : Inv [] (established cfg) :=
  ⟨Buffer.new_wellIndexed _ _, iff_of_true rfl rfl, by simp [established, accepted, new]⟩

variable {ps : List (List Byte)} {c c' : TcpConnection}

theorem send_inv (hi : Inv ps c) {data junk : List Byte} {r : WriteResult}
    (hp : (Event.send data r junk).permitted = true) (hs : c.send data r junk = some c') :
    Inv (ps ++ [data]) c' := by
  obtain ⟨hw, hst, hstream⟩ := hi
  unfold TcpConnection.send at hs
  split_ifs at hs with hc
  · obtain ⟨ho, hw', -, -, kept, hu, hlen, -⟩ := sendInLoop_spec hw hs
    rw [hst.1 hc] at hstream
    obtain ⟨hacc, hun⟩ := List.append_eq_nil_iff.1 hstream
    rw [hun, List.length_nil, List.length_eq_zero_iff] at hlen
    refine ⟨hw', by simp [ho.state], ?_⟩
    have hlog : accepted c'.log = accepted (c.effects (.sendInLoop data r junk)) := by
      rw [ho.log, accepted, List.flatMap_append]
      exact congrArg (· ++ _) hacc
    rw [hlog, hu, hlen, List.nil_append, accepted_sendInLoop hp, hst.1 hc]
    rfl
  · cases hs
    have hne : ps ≠ [] := fun h => hc (hst.2 h)
    refine ⟨hw, by simp [hc], ?_⟩
    rw [hstream]
    cases ps with
    | nil => exact absurd rfl hne
    | cons p ps => rfl

theorem handleWrite_inv (hi : Inv ps c) {r : WriteResult} (hs : c.handleWrite r = some c') :
    Inv ps c' := by
  obtain ⟨hw, hst, hstream⟩ := hi
  obtain ⟨ho, hw', -⟩ := handleWrite_spec hw hs
  refine ⟨hw', by rw [ho.state, hst], ?_⟩
  rw [← hstream, ho.log, ← accepted_handleWrite hw hs, ← List.append_assoc]
  simp [accepted]

theorem handleRead_inv (hi : Inv ps c) {r : ReadResult} {junk : List Byte}
    (hp : (Event.handleRead r junk).permitted = true) (hs : c.handleRead r junk = some c') :
    Inv ps c' := by
  obtain ⟨hw, hst, hstream⟩ := hi
  obtain ⟨ho, hb, -⟩ := handleRead_spec hs
  have hstate : c'.state = c.state ∧ accepted c'.log = accepted c.log := by
    cases r with
    | delivered bytes =>
      cases bytes with
      | nil => simp [Event.permitted] at hp
      | cons x xs => exact ⟨ho.state, by simp [ho.log, effects, accepted]⟩
    | failed e => exact ⟨ho.state, by simp [ho.log, effects, accepted]⟩
  exact ⟨by rwa [hb], by rw [hstate.1, hst], by rw [hstate.2, hb, hstream]⟩

theorem payloads_snoc (tr : List (Transition TcpConnection Event))
    (τ : Transition TcpConnection Event) : payloads (tr ++ [τ]) = payloads tr ++ payloads [τ] := by
  simp [payloads]

theorem run_inv {cfg : Config} {tr : List (Transition TcpConnection Event)}
    (h : Run step (established cfg) tr c) (hp : ∀ τ ∈ tr, τ.event.permitted = true) :
    Inv (payloads tr) c := by
  induction h with
  | nil => exact established_inv cfg
  | @snoc tr s s' e hr hs ih =>
    have hi := ih fun τ hτ => hp τ (List.mem_append_left _ hτ)
    have hpe : e.permitted = true := hp ⟨s, e, s'⟩ (by simp)
    rw [payloads_snoc]
    cases e with
    | send data r junk => simpa [payloads] using send_inv hi hpe hs
    | handleWrite r => simpa [payloads] using handleWrite_inv hi hs
    | handleRead r junk => simpa [payloads] using handleRead_inv hi hpe hs

/-- The accepted bytes and the unread output make up the payloads of all the
`send()` calls exactly when no call after the first has a byte to send. -/
theorem outbound_stream_iff {cfg : Config} {tr : List (Transition TcpConnection Event)}
    (h : Run step (established cfg) tr c) (hp : ∀ τ ∈ tr, τ.event.permitted = true) :
    accepted c.log ++ c.outputBuffer.unread = (payloads tr).flatten ↔
      (payloads tr).tail.flatten = [] := by
  rw [(run_inv h hp).stream]
  cases payloads tr with
  | nil => simp
  | cons p ps => simp [List.flatten_cons]

/-- Two bytes that the kernel takes at once, an EPOLLOUT, and an empty payload. -/
theorem outbound_stream_iff_one : ∃ tr c, Run step (established .sample) tr c ∧
    payloads tr = [[1, 2], []] ∧ accepted c.log ++ c.outputBuffer.unread = [1, 2] := by
  obtain ⟨tr, c, hr, -, hps, hp⟩ := exists_run step (established .sample)
    [.send [1, 2] (.wrote 2) [], .handleWrite (.wrote 0), .send [] (.wrote 0) []]
    (P := fun tr _ => payloads tr = [[1, 2], []] ∧ ∀ τ ∈ tr, τ.event.permitted = true) (by decide)
  refine ⟨tr, c, hr, hps, ?_⟩
  rw [(outbound_stream_iff hr hp).2 (by simp [hps]), hps]
  rfl

/-- The kernel takes the first payload whole; the second never gets anywhere. -/
theorem second_send_dropped : ∃ tr c, Run step (established .sample) tr c ∧
    tr.map Transition.event = [.send [1] (.wrote 1) [], .send [2] (.wrote 1) []] ∧
    accepted c.log ++ c.outputBuffer.unread = [1] ∧ (payloads tr).flatten = [1, 2] :=
  exists_run _ _ _ (by decide)

end OutboundStream
end Armsy
