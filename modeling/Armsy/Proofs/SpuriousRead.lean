import Armsy.Model.Dispatch
import Armsy.Proofs.Teardown

/-! A dispatch for a mask without EPOLLIN and EPOLLPRI. The test before the read callback,
`revents_ & EPOLLIN | EPOLLPRI`, holds of every mask, so that a connection that is alive
reads whatever the event was. -/

namespace Armsy
namespace TcpConnection

open Teardown (remasks rewire_of_remasks rewire_of_not_remasks)

/-- From `c` to `c'`: no `::readv` and no message callback, the input buffer as it was, and
a close only if the mask has EPOLLHUP. -/
structure ReadsNothing (c : TcpConnection) (revents : Mask) (c' : TcpConnection) : Prop where
  log : ∃ es, c'.log = c.log ++ es ∧ (∀ r, .readv r ∉ es) ∧ .msgCallback ∉ es ∧
    (.closeCallback ∈ es → (revents &&& EPOLLHUP).test = true)
  inputBuffer : c'.inputBuffer = c.inputBuffer

variable {c c' : TcpConnection} {revents : Mask} {w : WriteResult} {r : ReadResult}
  {junk : List Byte}

/-! ### The tie of an established connection -/

theorem rewire_tied {o : Op} (ho : o ≠ .connEstablish) {p : EpollPoller} {ch : Channel}
    (h : c.rewire o = some (p, ch)) : ch.tied = c.channel.tied := by
  cases hm : remasks c o with
  | true =>
    obtain ⟨m, hm⟩ := rewire_of_remasks hm
    rw [hm] at h
    obtain ⟨st, rfl⟩ := EpollPoller.updateChannel_channel h
    rfl
  | false =>
    by_cases hd : o = .connDestory
    · subst hd
      simp only [rewire] at h
      split_ifs at h
      · rw [Option.bind_eq_some_iff] at h
        obtain ⟨⟨p₁, ch₁⟩, hall, h⟩ := h
        obtain ⟨st₁, rfl⟩ := EpollPoller.updateChannel_channel hall
        obtain ⟨st, rfl⟩ := EpollPoller.removeChannel_channel h
        rfl
      · obtain ⟨st, rfl⟩ := EpollPoller.removeChannel_channel h
        rfl
    · rw [rewire_of_not_remasks hm hd ho] at h
      cases h
      rfl

/-- `connEstablish` ties the channel, and no other operation changes the tie. -/
theorem exec_tied (h : c.outputBuffer.WellIndexed) {o : Op} (hs : c.exec o = some c')
    (ht : c.channel.tied = true ∨ o = .connEstablish) : c'.channel.tied = true := by
  have hw := exec_rewire h hs
  by_cases ho : o = .connEstablish
  · subst ho
    obtain ⟨st, hst⟩ := EpollPoller.updateChannel_channel hw
    exact congrArg Channel.tied hst
  · exact (rewire_tied ho hw).trans (ht.resolve_right ho)

/-! ### The callbacks of a dispatch -/

theorem read_mem_handlers (revents : Mask) :
    Channel.Handler.read ∈ Channel.handleEventWithGuard revents := by
  simp [Channel.handleEventWithGuard, read_guard]

theorem readv_mem_effects (c : TcpConnection) (r : ReadResult) (junk : List Byte) :
    .readv r ∈ c.effects (.handleRead r junk) := by
  cases r with
  | delivered bytes => cases bytes <;> simp [effects]
  | failed e => simp [effects]

/-- The callbacks of a dispatch append to the log, and the read callback its `::readv`. -/
theorem callbacks_log {hs : List Channel.Handler} (h : c.outputBuffer.WellIndexed)
    (hf : hs.foldlM (fun c a => c.exec (a.op w r junk)) c = some c') :
    ∃ es, c'.log = c.log ++ es ∧ (.read ∈ hs → .readv r ∈ es) := by
  induction hs generalizing c with
  | nil =>
    cases hf
    exact ⟨[], by simp, by simp⟩
  | cons a hs ih =>
    rw [List.foldlM_cons, Option.bind_eq_bind, Option.bind_eq_some_iff] at hf
    obtain ⟨c₁, ha, hf⟩ := hf
    have hlog := (exec_outcome h ha).log
    obtain ⟨es, hes, hread⟩ := ih (exec_wellIndexed h ha) hf
    refine ⟨c.effects (a.op w r junk) ++ es, by rw [hes, hlog, List.append_assoc], ?_⟩
    intro hmem
    rcases List.mem_cons.1 hmem with rfl | hmem
    · exact List.mem_append_left _ (readv_mem_effects c r junk)
    · exact List.mem_append_right _ (hread hmem)

/-- A dispatch on a live connection reads; one whose tie is gone does nothing. -/
theorem readsNothing_iff (h : c.outputBuffer.WellIndexed) (ht : c.channel.tied = true)
    {alive : Bool} (hd : c.handleEvent revents alive w r junk = some c') :
    ReadsNothing c revents c' ↔ alive = false := by
  simp only [handleEvent, Channel.handleEvent, if_pos ht] at hd
  cases alive with
  | false =>
    simp only [Bool.false_eq_true, if_false, List.foldlM_nil] at hd
    cases hd
    exact iff_of_true ⟨⟨[], by simp, by simp, by simp, by simp⟩, rfl⟩ rfl
  | true =>
    rw [if_pos rfl] at hd
    obtain ⟨es, hes, hread⟩ :=
      callbacks_log (c := { c with channel := { c.channel with revents := revents } }) h hd
    refine iff_of_false ?_ (by simp)
    rintro ⟨⟨es', hes', hno, -, -⟩, -⟩
    obtain rfl : es = es' := List.append_cancel_left (hes.symm.trans hes')
    exact hno r (hread (read_mem_handlers revents))

end TcpConnection

namespace System

open TcpConnection (ReadsNothing)

variable {cfg : Config} {mem : Memory Byte} {s : System} {tr : List (Transition System Event)}

theorem tied_of_run (h : Run step (init cfg mem) tr s) (he : s.established = true) :
    s.conn.channel.tied = true := by
  have hi : s.Sound ∧ (s.established = true → s.conn.channel.tied = true) := by
    refine h.invariant (I := fun s => s.Sound ∧ (s.established = true → s.conn.channel.tied = true))
      ⟨init_sound cfg mem, by simp [init]⟩ ?_
    rintro s e s' ⟨hi, ht⟩ hst
    have hs := step_cases hst
    refine ⟨step_sound hi hst, ?_⟩
    intro he'
    apply TcpConnection.exec_tied (front_wellIndexed hi.wellIndexed e) hs.exec
    rw [front_channel]
    rw [hs.established, Bool.or_eq_true, beq_iff_eq] at he'
    rcases he' with he' | rfl
    · exact .inl (ht he')
    · exact .inr rfl
  exact hi.2 he

/-- In every reachable state of an established connection, for every event mask and
whatever `::write` and `::readv` return: a dispatch leaves the input alone and closes only
on EPOLLHUP exactly when the connection is gone and `tie_` cannot be locked. -/
theorem dispatch_readsNothing_iff (h : Run step (init cfg mem) tr s) (he : s.established = true)
    {revents : Mask} {alive : Bool} {w : WriteResult} {r : ReadResult} {junk : List Byte}
    {c : TcpConnection} (hd : s.conn.handleEvent revents alive w r junk = some c) :
    ReadsNothing s.conn revents c ↔ alive = false :=
  TcpConnection.readsNothing_iff (sound_of_run h).wellIndexed (tied_of_run h he) hd

/-- A write-only event that finds the connection destroyed. -/
theorem dispatch_readsNothing_iff_gone : ∃ tr s c,
    Run step (init .sample fun _ => 0) tr s ∧ tr.map Transition.event = [.connEstablish] ∧
    s.conn.handleEvent EPOLLOUT false (.wrote 0) (.delivered [5]) [] = some c ∧
    ReadsNothing s.conn EPOLLOUT c := by
  obtain ⟨tr, s, hr, he, hes⟩ := exists_run step (init .sample fun _ => 0) [.connEstablish]
    (P := fun _ s => s.established = true ∧
      (s.conn.handleEvent EPOLLOUT false (.wrote 0) (.delivered [5]) []).isSome = true)
    (by decide +kernel)
  obtain ⟨c, hc⟩ := Option.isSome_iff_exists.1 hes.2
  exact ⟨tr, s, c, hr, he, hc, (dispatch_readsNothing_iff hr hes.1 hc).2 rfl⟩

/-- The connection has just been established. A write-only event on which `::readv` delivers
a byte puts it into the input buffer and invokes the message callback; an error-only event
on which it meets end of stream closes the connection. -/
theorem dispatch_reads : ∃ tr s c₁ c₂,
    Run step (init .sample fun _ => 0) tr s ∧ tr.map Transition.event = [.connEstablish] ∧
    s.conn.handleEvent EPOLLOUT true (.wrote 0) (.delivered [5]) [] = some c₁ ∧
    s.conn.inputBuffer.unread = [] ∧ c₁.inputBuffer.unread = [5] ∧ .msgCallback ∈ c₁.log ∧
    s.conn.handleEvent EPOLLERR true (.wrote 0) (.delivered []) [] = some c₂ ∧
    .closeCallback ∉ s.conn.log ∧ .closeCallback ∈ c₂.log ∧
    ¬ ReadsNothing s.conn EPOLLOUT c₁ ∧ ¬ ReadsNothing s.conn EPOLLERR c₂ := by
  obtain ⟨tr, s, hr, he, hu, hlog, h₁, h₂⟩ := exists_run step (init .sample fun _ => 0)
    [.connEstablish] (P := fun _ s => s.conn.inputBuffer.unread = [] ∧
      s.conn.log = [.connCallback true] ∧
      (s.conn.handleEvent EPOLLOUT true (.wrote 0) (.delivered [5]) []).map
        (fun c => (c.inputBuffer.unread, c.log)) =
          some ([5], [.connCallback true, .readv (.delivered [5]), .msgCallback]) ∧
      (s.conn.handleEvent EPOLLERR true (.wrote 0) (.delivered []) []).map TcpConnection.log =
        some [.connCallback true, .readv (.delivered []), .connCallback false, .closeCallback])
    (by decide +kernel)
  obtain ⟨c₁, hc₁, hv₁⟩ := Option.map_eq_some_iff.1 h₁
  obtain ⟨c₂, hc₂, hv₂⟩ := Option.map_eq_some_iff.1 h₂
  obtain ⟨hu₁, hlog₁⟩ := Prod.mk.inj hv₁
  refine ⟨tr, s, c₁, c₂, hr, he, hc₁, hu, hu₁, by simp [hlog₁], hc₂, by simp [hlog],
    by simp [hv₂], ?_, ?_⟩
  · intro hno
    rw [hno.inputBuffer, hu] at hu₁
    cases hu₁
  · rintro ⟨⟨es, hes, hread, -, -⟩, -⟩
    rw [hv₂, hlog, List.singleton_append, List.cons.injEq] at hes
    exact hread (.delivered []) (by simp [← hes.2])

end System
end Armsy
