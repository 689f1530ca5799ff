import Armsy.Proofs.SystemSpec

/-! A `send()` from another thread queues the address of its payload, not the
bytes: `sendInLoop` reads them when the loop gets to it. It sends what the
payload held at the call as long as nobody stores over it until then. -/

namespace Armsy
namespace Snapshot

variable {cfg : Config} {mem : Memory Byte} {s s' : System} {e : Event}
  {tr : List (Transition System Event)} {buf : Slice} {snap : List Byte}

/-- A thread that is not the loop's. -/
def Outside (t : ThreadId) : Prop := t ≠ .loop

/-- The queued `sendInLoop` that a step ran did to the connection what `sendInLoop`
of the payload at the call does, and so would each one still to run. -/
structure Faithful (τ : Transition System Event) : Prop where
  ran : ∀ r junk buf snap, τ.event = .runFunctor r junk →
    τ.pre.taken τ.event = [.sendInLoop buf snap] →
    (τ.pre.front τ.event).sendInLoop snap r junk = some τ.post.conn
  waiting : ∀ buf snap, τ.post.Underway Outside buf snap → ∀ r junk,
    (Functor.sendInLoop buf snap).op τ.post.mem r junk = .sendInLoop snap r junk

/-- Every payload under way still holds what it held at the call. -/
structure Inv (s : System) : Prop where
  sound : s.Sound
  held : ∀ buf snap, s.Underway Outside buf snap → s.mem.read buf = snap

theorem init_inv (cfg : Config) (mem : Memory Byte) : Inv (System.init cfg mem) := by
  refine ⟨System.init_sound cfg mem, ?_⟩
  rintro buf snap (hq | ⟨t, -, hc⟩)
  · simp [System.waiting, System.init, TcpConnection.new] at hq
  · cases hc

/-- A store moves no call and no functor. -/
theorem underway_store (hs : System.Stepped s e s') (hne : s.nextMem e ≠ s.mem) :
    s'.Underway Outside buf snap ↔ s.Underway Outside buf snap := by
  cases e with
  | store p bytes =>
    have hconn : s.conn = s'.conn := Option.some.inj hs.exec
    rw [System.Underway, System.Underway, System.waiting, System.waiting, ← hconn, hs.calls]
    rfl
  | _ => exact absurd rfl hne

/-- What a queued `sendInLoop` does while its payload still holds `snap`. -/
theorem run_eq (hi : Inv s) (hs : System.Stepped s e s') {r : WriteResult} {junk : List Byte}
    (he : e = .runFunctor r junk) (ht : s.taken e = [.sendInLoop buf snap]) :
    (s.front e).sendInLoop snap r junk = some s'.conn := by
  subst he
  obtain ⟨f, hf, hmem, hop⟩ := System.op_runFunctor hs.enabled
  rw [hf, List.cons.injEq] at ht
  rw [ht.1] at hop hmem
  have hx := hs.exec
  rw [hop, Functor.op, hi.held buf snap (.inl hmem)] at hx
  exact hx

theorem faithful_iff (hi : Inv s) (h : s.step e = some s') :
    Faithful ⟨s, e, s'⟩ ↔ System.Spares Outside ⟨s, e, s'⟩ := by
  have hs := System.step_cases h
  constructor
  · intro hf buf snap hu
    by_cases hmem : s.nextMem e = s.mem
    · simp only [hmem]
    · have hop := hf.waiting buf snap ((underway_store hs hmem).2 hu) (.wrote 0) []
      rw [Functor.op, Op.sendInLoop.injEq] at hop
      simp only [hs.mem] at hop
      rw [hop.1, hi.held buf snap hu]
  · intro hsp
    refine ⟨fun r junk buf snap he ht => run_eq hi hs he ht, ?_⟩
    intro buf snap hu r junk
    simp only [Functor.op, hs.mem]
    rcases hs.underway_cases hi.sound.wellIndexed (fun _ => by simp [Outside]) hu with
      hold | ⟨-, hmem, rfl⟩
    · rw [hsp buf snap hold, hi.held buf snap hold]
    · rw [hmem]

theorem step_inv (hi : Inv s) (h : s.step e = some s') (hf : Faithful ⟨s, e, s'⟩) : Inv s' := by
  refine ⟨System.step_sound hi.sound h, ?_⟩
  intro buf snap hu
  have hop := hf.waiting buf snap hu (.wrote 0) []
  rw [Functor.op, Op.sendInLoop.injEq] at hop
  exact hop.1

/-- In every run without a store that changes a payload under way, the queued `sendInLoop`s
send what their payloads held at the calls of `send()`. A run with such a store, even one
that is undone before the loop gets there, has a state in which one of them would not. -/
theorem payload_snapshot_iff (h : Run System.step (System.init cfg mem) tr s) :
    (∀ τ ∈ tr, Faithful τ) ↔ ∀ τ ∈ tr, System.Spares Outside τ :=
  h.forall_iff (init_inv cfg mem) (fun _ _ _ => faithful_iff) fun _ _ _ => step_inv

/-- One byte from another thread, left alone until the loop has sent it. -/
theorem payload_snapshot_iff_kept : ∃ tr s,
    Run System.step (System.init .sample fun _ => 0) tr s ∧
    tr.map Transition.event = [.connEstablish, .send (.other 0) ⟨0, 1⟩,
      .sendRun (.other 0) (.wrote 0) [], .swap, .runFunctor (.wrote 1) []] ∧
    ∀ τ ∈ tr, Faithful τ := by
  obtain ⟨tr, s, hr, he, hn⟩ := exists_run System.step
    (System.init .sample fun _ => 0)
    [.connEstablish, .send (.other 0) ⟨0, 1⟩, .sendRun (.other 0) (.wrote 0) [], .swap,
      .runFunctor (.wrote 1) []]
    (P := fun tr _ => ∀ τ ∈ tr, System.stores τ.event = false) (by decide)
  refine ⟨tr, s, hr, he, (payload_snapshot_iff hr).2 fun τ hτ => ?_⟩
  exact System.spares_of_not_stores (hn τ hτ)

/-- The caller stores a 7 over its payload of one 0 before the loop gets to it. -/
theorem overwritten_payload_sent : ∃ tr s,
    Run System.step (System.init .sample fun _ => 0) tr s ∧
    tr.map Transition.event = [.connEstablish, .send (.other 0) ⟨0, 1⟩,
      .sendRun (.other 0) (.wrote 0) [], .store 0 [7], .swap, .runFunctor (.wrote 1) []] ∧
    s.conn.log = [.connCallback true, .sendInLoop [7], .write [7] (.wrote 1)] ∧
    ¬ ∀ τ ∈ tr, Faithful τ := by
  obtain ⟨tr, s, hr, he, hlog, τ, hτ, heτ, ht, hne⟩ := exists_run System.step
    (System.init .sample fun _ => 0)
    [.connEstablish, .send (.other 0) ⟨0, 1⟩, .sendRun (.other 0) (.wrote 0) [],
      .store 0 [7], .swap, .runFunctor (.wrote 1) []]
    (P := fun tr s => s.conn.log = [.connCallback true, .sendInLoop [7], .write [7] (.wrote 1)] ∧
      ∃ τ ∈ tr, τ.event = .runFunctor (.wrote 1) [] ∧
        τ.pre.taken τ.event = [.sendInLoop ⟨0, 1⟩ [0]] ∧
        ((τ.pre.front τ.event).sendInLoop [0] (.wrote 1) []).map (·.log) ≠ some τ.post.conn.log)
    (by decide)
  refine ⟨tr, s, hr, he, hlog, fun hf => hne ?_⟩
  rw [(hf τ hτ).ran _ _ _ _ heτ ht]
  rfl

end Snapshot
end Armsy
