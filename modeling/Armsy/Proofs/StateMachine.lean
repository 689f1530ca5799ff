import Armsy.Proofs.SystemSpec

/-! The order of the values of `state_`, over every interleaving of the loop
with other threads. Two steps break it: `sendInLoop`, which assigns
kDisconnected, and the `setState(kDisconnecting)` of a `shutdown()` whose test
of `state_` is out of date. -/

namespace Armsy
namespace StateMachine

/-- The states that may follow a state. -/
def next : ConnState → List ConnState
  | .connecting => [.connected]
  | .connected => [.disconnecting, .disconnected]
  | .disconnecting => [.disconnected]
  | .disconnected => []

/-- `state_` stays, or moves to a state that may follow. -/
def Forward (st st' : ConnState) : Prop := st' = st ∨ st' ∈ next st

instance (st st' : ConnState) : Decidable (Forward st st') := inferInstanceAs (Decidable (_ ∨ _))

/-- An operation that sends or writes. -/
def writes : Op → Bool
  | .sendInLoop _ _ _ | .handleWrite _ => true
  | _ => false

/-- A step of `send()`, or one whose operation sends or writes. -/
def Sends (τ : Transition System Event) : Bool :=
  match τ.event with
  | .send _ _ | .sendRun _ _ _ => true
  | e => writes (τ.pre.op e)

/-- The law, for one step. -/
def Lawful (τ : Transition System Event) : Prop :=
  Forward τ.pre.conn.state τ.post.conn.state ∧
    (Sends τ = true → τ.post.conn.state = τ.pre.conn.state)

/-- The step does not run `sendInLoop` before kDisconnected, nor set kDisconnecting
after it. -/
def Meets (τ : Transition System Event) : Prop :=
  ((System.ran τ).sends = true → τ.pre.conn.state = .disconnected) ∧
    (System.ran τ = .setDisconnecting → τ.pre.conn.state ≠ .disconnected)

instance (τ : Transition System Event) : Decidable (Lawful τ) :=
  inferInstanceAs (Decidable (_ ∧ _))

instance (τ : Transition System Event) : Decidable (Meets τ) :=
  inferInstanceAs (Decidable (_ ∧ _))

/-- What `send()` runs is `sendInLoop` or nothing. -/
theorem op_of_sends {τ : Transition System Event} (he : τ.pre.enabled τ.event = true)
    (h : Sends τ = true) : writes (System.ran τ) = true ∨ System.ran τ = .skip := by
  unfold System.ran
  unfold Sends at h
  cases hev : τ.event with
  | send t buf => exact .inr rfl
  | sendRun t r junk =>
    rw [hev] at he
    obtain ⟨buf, snap, -, hop⟩ := System.op_sendRun he
    rw [hop]
    split_ifs
    · exact .inl rfl
    · exact .inr rfl
  | _ =>
    rw [hev] at h
    exact .inl h

/-- The law for one operation on an established connection. -/
theorem stateAfter_iff {st : ConnState} {o : Op} (hst : st ≠ .connecting)
    (ho : o ≠ .connEstablish) :
    (Forward st (o.stateAfter st) ∧ (writes o = true → o.stateAfter st = st)) ↔
      (o.sends = true → st = .disconnected) ∧
        (o = .setDisconnecting → st ≠ .disconnected) := by
  cases o with
  | connEstablish => exact absurd rfl ho
  | sendInLoop data r junk => cases st <;> simp_all [Op.stateAfter, Forward, next, writes, Op.sends]
  | setDisconnecting => cases st <;> simp_all [Op.stateAfter, Forward, next, writes, Op.sends]
  | handleClose => cases st <;> simp_all [Op.stateAfter, Forward, next, writes, Op.sends]
  | connDestory => cases st <;> simp_all [Op.stateAfter, Forward, next, writes, Op.sends]
  | handleRead r junk =>
    cases r with
    | delivered bytes =>
      cases bytes with
      | nil => cases st <;> simp_all [Op.stateAfter, Forward, next, writes, Op.sends]
      | cons x xs => simp [Op.stateAfter, Forward, Op.sends]
    | failed e => simp [Op.stateAfter, Forward, Op.sends]
  | _ => simp [Op.stateAfter, Forward, Op.sends]

/-- The law for one step from a reachable state. -/
theorem lawful_iff {s s' : System} {e : Event} (hi : s.Sound) (h : s.step e = some s') :
    Lawful ⟨s, e, s'⟩ ↔ Meets ⟨s, e, s'⟩ := by
  have hs := System.step_cases h
  have hst := hs.state hi.wellIndexed
  have hsends : (Sends ⟨s, e, s'⟩ = true → s'.conn.state = s.conn.state) ↔
      (writes (s.op e) = true → s'.conn.state = s.conn.state) := by
    constructor
    · intro hk hw
      apply hk
      unfold Sends
      split
      · rfl
      · rfl
      · exact hw
    · intro hk hsnd
      rcases op_of_sends hs.enabled hsnd with hw | hskip
      · exact hk hw
      · rw [hst, show s.op e = .skip from hskip]
        rfl
  simp only [Lawful, Meets, hsends, System.ran]
  rw [hst]
  cases hest : s.established with
  | false =>
    obtain ⟨hc, -, -⟩ := hi.connecting hest
    rcases hi.op_of_not_established hest hs.enabled with rfl | ⟨hop, -⟩
    · simp [hc, System.op, Op.stateAfter, Forward, next, writes, Op.sends]
    · simp [hop, Op.stateAfter, Forward, writes, Op.sends]
  | true => exact stateAfter_iff (hi.up hest) (hs.op_ne_connEstablish hest)

/-- In every interleaving, `state_` only moves forward and no sending or writing
step moves it, exactly when no `sendInLoop` runs before kDisconnected and no
`shutdown()` sets kDisconnecting after it. -/
theorem state_forward_iff {cfg : Config} {mem : Memory Byte} {tr : List (Transition System Event)}
    {s : System} (h : Run System.step (System.init cfg mem) tr s) :
    (∀ τ ∈ tr, Lawful τ) ↔ ∀ τ ∈ tr, Meets τ :=
  h.forall_iff (System.init_sound cfg mem) (fun _ _ _ => lawful_iff)
    (fun _ _ _ hi hst _ => System.step_sound hi hst)

/-- Up, an EPOLLOUT with nothing to write, a close and its `connDestory`. -/
theorem state_forward_iff_closed : ∃ tr s, Run System.step (System.init .sample fun _ => 0) tr s ∧
    tr.map Transition.event = [.connEstablish, .handleWrite (.wrote 0), .handleClose,
      .connDestory] ∧ ∀ τ ∈ tr, Lawful τ := by
  obtain ⟨tr, s, hr, he, hm⟩ := exists_run System.step
    (System.init .sample fun _ => 0)
    [.connEstablish, .handleWrite (.wrote 0), .handleClose, .connDestory]
    (P := fun tr _ => ∀ τ ∈ tr, Meets τ) (by decide)
  exact ⟨tr, s, hr, he, (state_forward_iff hr).2 hm⟩

/-- Another thread is past the test in `shutdown()` when the loop sends: the
connection goes to kDisconnected, and from there to kDisconnecting. -/
theorem send_leaves_disconnected :
    ∃ tr s, Run System.step (System.init .sample fun _ => 0) tr s ∧
      tr.map Transition.event = [.connEstablish, .shutdown (.other 0), .send .loop ⟨0, 1⟩,
        .sendRun .loop (.wrote 1) [], .shutdownSet (.other 0)] ∧
      tr.map (·.post.conn.state) = [.connected, .connected, .connected, .disconnected,
        .disconnecting] ∧ ¬ ∀ τ ∈ tr, Lawful τ :=
  exists_run _ _ _ (by decide)

end StateMachine
end Armsy
