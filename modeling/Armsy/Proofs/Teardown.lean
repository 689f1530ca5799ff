import Armsy.Proofs.PollerSpec
import Armsy.Proofs.SystemSpec

/-! Teardown. `connDestory` takes the channel out of the poller and the kernel, but
leaves it in state kChannelInitialized, where `updateChannel` adds it again: a later
call that changes the mask undoes the teardown, and nothing else does. -/

namespace Armsy
namespace Teardown

open Armsy.System (ran)

variable {cfg : Config} {mem : Memory Byte} {s s' : System} {e : Event}
  {c c' : TcpConnection} {o : Op}

/-- The kernel watches the channel exactly when its state is kChannelAdded. -/
def Linked (w : EpollPoller × Channel) : Prop :=
  w.2.state = .added ↔ (w.1.kernel w.2.fd).isSome = true

/-- The channel is out of the poller and out of the kernel's interest set. -/
def Gone (s : System) : Prop :=
  s.conn.loop.poller.channels s.conn.channel.fd = none ∧
    s.conn.loop.poller.kernel s.conn.channel.fd = none

/-- The operation changes the mask of the channel, and hands it to the poller. -/
def remasks (c : TcpConnection) : Op → Bool
  | .sendInLoop data r _ => !c.channel.isWriteSet && !(c.rest data r).isEmpty
  | .handleWrite r => c.channel.isWriteSet && c.drains r
  | .handleClose | .handleRead (.delivered []) _ => true
  | _ => false

/-- The step runs no such operation. -/
def Settled (τ : Transition System Event) : Prop := remasks τ.pre.conn (ran τ) = false

/-! ### The poller and the channel -/

/-- A channel that `removeChannel` has left behind. -/
structure Torn (w : EpollPoller × Channel) : Prop where
  state : w.2.state = .initialized
  channels : w.1.channels w.2.fd = none
  kernel : w.1.kernel w.2.fd = none

theorem Torn.linked {w : EpollPoller × Channel} (h : Torn w) : Linked w := by
  simp [Linked, h.state, h.kernel]

section
variable {p : EpollPoller} {ch : Channel} {w : EpollPoller × Channel}

theorem linked_updateChannel (h : Linked (p, ch)) (m : Mask)
    (hu : p.updateChannel { ch with events := m } = some w) : Linked w := by
  have hl : Linked (p, { ch with events := m }) := h
  rw [EpollPoller.updateChannel_eq hl, Option.some.injEq] at hu
  subst hu
  simp only [Linked, Function.update_self, Channel.updated, Channel.watch]
  split_ifs <;> simp

theorem torn_removeChannel (h : Linked (p, ch)) (hr : p.removeChannel ch = some w) : Torn w := by
  rw [EpollPoller.removeChannel_eq h, Option.some.injEq] at hr
  subst hr
  exact ⟨rfl, Function.update_self .., Function.update_self ..⟩

/-- `updateChannel` adds a removed channel again. -/
theorem kernel_updateChannel (h : Torn (p, ch)) (m : Mask)
    (hu : p.updateChannel { ch with events := m } = some w) : w.1.kernel w.2.fd ≠ none := by
  have hl : Linked (p, { ch with events := m }) := h.linked
  rw [EpollPoller.updateChannel_eq hl, Option.some.injEq] at hu
  subst hu
  have hs : ch.state = .initialized := h.state
  simp [Channel.watch, hs]

end

/-! ### One operation -/

/-- What an operation that leaves the mask alone does to the poller and the channel. -/
theorem rewire_of_not_remasks (h : remasks c o = false) (hd : o ≠ .connDestory)
    (he : o ≠ .connEstablish) : c.rewire o = some c.wires := by
  cases o with
  | sendInLoop data r junk =>
    have hw : (c.channel.isWriteSet || (c.rest data r).isEmpty) = true := by
      cases hset : c.channel.isWriteSet <;> simp_all [remasks]
    simp [TcpConnection.rewire, hw]
  | handleWrite r =>
    simp only [remasks] at h
    simp [TcpConnection.rewire, h]
  | handleRead r junk =>
    cases r with
    | delivered bytes =>
      cases bytes with
      | nil => cases h
      | cons x xs => rfl
    | failed e => rfl
  | handleClose => cases h
  | connDestory => exact absurd rfl hd
  | connEstablish => exact absurd rfl he
  | _ => rfl

/-- What an operation that changes the mask does to them. -/
theorem rewire_of_remasks (h : remasks c o = true) :
    ∃ m, c.rewire o = c.loop.poller.updateChannel { c.channel with events := m } := by
  cases o with
  | sendInLoop data r junk =>
    simp only [remasks, Bool.and_eq_true, Bool.not_eq_true'] at h
    exact ⟨_, by simp [TcpConnection.rewire, h.1, h.2]; rfl⟩
  | handleWrite r =>
    simp only [remasks] at h
    exact ⟨_, by simp [TcpConnection.rewire, h]; rfl⟩
  | handleRead r junk =>
    cases r with
    | delivered bytes =>
      cases bytes with
      | nil => exact ⟨_, rfl⟩
      | cons x xs => cases h
    | failed e => cases h
  | handleClose => exact ⟨_, rfl⟩
  | _ => cases h

theorem torn_connDestory (h : Linked c.wires)
    (hs : c.rewire .connDestory = some c'.wires) : Torn c'.wires := by
  simp only [TcpConnection.rewire] at hs
  split_ifs at hs
  · simp only [Option.bind_eq_some_iff] at hs
    obtain ⟨w, hw, hr⟩ := hs
    exact torn_removeChannel (linked_updateChannel h _ hw) hr
  · exact torn_removeChannel h hs

theorem linked_exec (h : Linked c.wires) (hw : c.outputBuffer.WellIndexed)
    (hs : c.exec o = some c') : Linked c'.wires := by
  have hr := TcpConnection.exec_rewire hw hs
  cases hm : remasks c o with
  | true =>
    obtain ⟨m, hm⟩ := rewire_of_remasks hm
    rw [hm] at hr
    exact linked_updateChannel h m hr
  | false =>
    by_cases hd : o = .connDestory
    · subst hd
      exact (torn_connDestory h hr).linked
    · by_cases he : o = .connEstablish
      · subst he
        have ht : Linked (c.loop.poller, c.channel.tie) := h
        exact linked_updateChannel ht _ hr
      · rw [rewire_of_not_remasks hm hd he, Option.some.injEq] at hr
        rwa [← hr]

/-- After the teardown, an operation brings the channel back or leaves it torn down. -/
theorem exec_of_torn (h : Torn c.wires) (hw : c.outputBuffer.WellIndexed)
    (he : o ≠ .connEstablish) (hs : c.exec o = some c') :
    if remasks c o then c'.wires.1.kernel c'.wires.2.fd ≠ none else Torn c'.wires := by
  have hr := TcpConnection.exec_rewire hw hs
  split_ifs with hm
  · obtain ⟨m, hm⟩ := rewire_of_remasks hm
    rw [hm] at hr
    exact kernel_updateChannel h m hr
  · by_cases hd : o = .connDestory
    · subst hd
      exact torn_connDestory h.linked hr
    · rw [rewire_of_not_remasks (by simpa using hm) hd he, Option.some.injEq] at hr
      rwa [← hr]

/-! ### One step -/

theorem gone_of_torn (h : Torn s.conn.wires) : Gone s := ⟨h.channels, h.kernel⟩

@[simp] theorem remasks_front (s : System) (e : Event) (o : Op) :
    remasks (s.front e) o = remasks s.conn o := by
  cases o <;> simp [remasks]

/-- What holds as long as the connection is not torn down. -/
structure Wired (s : System) : Prop where
  sound : s.Sound
  linked : Linked s.conn.wires

theorem init_wired (cfg : Config) (mem : Memory Byte) : Wired (System.init cfg mem) where
  sound := System.init_sound cfg mem
  linked := by
    simp [Linked, TcpConnection.wires, System.init, TcpConnection.new, Channel.new,
      cfg.unregistered]

theorem step_wired (hi : Wired s) (h : s.step e = some s') : Wired s' where
  sound := System.step_sound hi.sound h
  linked := by
    have hs := System.step_cases h
    have hl : Linked (s.front e).wires := by simpa using hi.linked
    exact linked_exec hl (System.front_wellIndexed hi.sound.wellIndexed e) hs.exec

/-- What holds from the teardown on, as long as no step undoes it. -/
structure Final (s : System) : Prop where
  sound : s.Sound
  established : s.established = true
  torn : Torn s.conn.wires

theorem final_of_connDestory (hi : Wired s) (h : s.step e = some s')
    (ho : s.op e = .connDestory) : Final s' := by
  have hs := System.step_cases h
  have hest := hi.sound.established_of_op hs.enabled (by simp [ho]) (by simp [ho])
  refine ⟨System.step_sound hi.sound h, by simp [hs.established, hest], ?_⟩
  have hl : Linked (s.front e).wires := by simpa using hi.linked
  refine torn_connDestory hl (TcpConnection.exec_rewire ?_ (ho ▸ hs.exec))
  exact System.front_wellIndexed hi.sound.wellIndexed e

theorem final_step (hi : Final s) (h : s.step e = some s') :
    if remasks s.conn (s.op e) then ¬ Gone s' else Final s' := by
  have hs := System.step_cases h
  have ht : Torn (s.front e).wires := by simpa using hi.torn
  have hx := exec_of_torn ht (System.front_wellIndexed hi.sound.wellIndexed e)
    (hs.op_ne_connEstablish hi.established) hs.exec
  rw [remasks_front] at hx
  split_ifs at hx ⊢ with hm
  · intro hg
    exact hx hg.2
  · exact ⟨System.step_sound hi.sound h, by simp [hs.established, hi.established], hx⟩

theorem gone_iff (hi : Final s) (h : s.step e = some s') :
    Gone s' ↔ Settled ⟨s, e, s'⟩ := by
  have hx := final_step hi h
  simp only [Settled, ran]
  cases hm : remasks s.conn (s.op e) with
  | true =>
    rw [hm, if_pos rfl] at hx
    simp [hx]
  | false =>
    rw [hm] at hx
    simp [gone_of_torn hx.torn]

/-- `connDestory` takes the channel out, and it stays out exactly as long as no
later operation changes its mask. -/
theorem teardown_final_iff {tr₁ tr₂ : List (Transition System Event)}
    {τ₀ : Transition System Event}
    (h : Run System.step (System.init cfg mem) (tr₁ ++ τ₀ :: tr₂) s)
    (ho : ran τ₀ = .connDestory) :
    Gone τ₀.post ∧ ((∀ τ ∈ tr₂, Gone τ.post) ↔ ∀ τ ∈ tr₂, Settled τ) := by
  obtain ⟨h₀, hd⟩ := h.upTo rfl
  have hi := h₀.invariant (init_wired cfg mem) fun _ _ _ => step_wired
  have hf := final_of_connDestory hi hd ho
  refine ⟨gone_of_torn hf.torn, ?_⟩
  refine (h.after rfl).forall_iff hf (fun s e s' hi hst => gone_iff hi hst) ?_
  intro s e s' hi hst hg
  have hset : remasks s.conn (s.op e) = false := (gone_iff hi hst).1 hg
  have hx := final_step hi hst
  simpa [hset] using hx

instance (s : System) : Decidable (Gone s) := inferInstanceAs (Decidable (_ ∧ _))

instance (τ : Transition System Event) : Decidable (Settled τ) :=
  inferInstanceAs (Decidable (_ = _))

/-- The peer closes while a `send()` of another thread is under way; its `sendInLoop`
is queued behind `connDestory`. -/
def lateSend (r : WriteResult) : List Event :=
  [.connEstablish, .send (.other 0) ⟨0, 1⟩, .handleClose, .pushDestory, .swap,
    .runFunctor (.wrote 0) [], .sendRun (.other 0) (.wrote 0) [], .swap, .runFunctor r []]

/-- The late `sendInLoop` writes all it has. -/
theorem teardown_final_iff_written : ∃ tr₁ τ₀ tr₂ s,
    Run System.step (System.init .sample fun _ => 0) (tr₁ ++ τ₀ :: tr₂) s ∧
    (tr₁ ++ τ₀ :: tr₂).map Transition.event = lateSend (.wrote 1) ∧
    Gone τ₀.post ∧ ∀ τ ∈ tr₂, Gone τ.post := by
  obtain ⟨tr, s, hr, he, hd, hc⟩ := exists_run System.step (System.init .sample fun _ => 0)
    (lateSend (.wrote 1))
    (P := fun tr _ => tr[5]?.map ran = some .connDestory ∧ ∀ τ ∈ tr.drop 6, Settled τ)
    (by decide)
  obtain ⟨τ₀, hτ, ho⟩ := Option.map_eq_some_iff.1 hd
  obtain ⟨hlen, rfl⟩ := List.getElem?_eq_some_iff.1 hτ
  have hcut : tr = tr.take 5 ++ tr[5] :: tr.drop 6 := by
    rw [← List.drop_eq_getElem_cons, List.take_append_drop]
  rw [hcut] at hr he
  have hf := teardown_final_iff hr ho
  exact ⟨_, _, _, s, hr, he, hf.1, hf.2.2 hc⟩

/-- The late `sendInLoop` would block, and asks for write events. -/
theorem teardown_undone : ∃ tr s, Run System.step (System.init .sample fun _ => 0) tr s ∧
    tr.map Transition.event = lateSend (.failed .EWOULDBLOCK) ∧
    tr[5]?.map ran = some .connDestory ∧ s.conn.loop.poller.channels s.conn.channel.fd ≠ none ∧
    s.conn.loop.poller.kernel s.conn.channel.fd ≠ none :=
  exists_run _ _ _ (by decide +kernel)

end Teardown
end Armsy
