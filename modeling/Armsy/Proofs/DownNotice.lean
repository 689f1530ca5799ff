import Armsy.Proofs.SystemSpec
import Mathlib.Data.List.TakeWhile

/-! Whether a connection that goes away has told its user so. `handleClose`
always does; `connDestory` does only from kConnected, which a `sendInLoop` or
a `shutdown()` has left for good. -/

namespace Armsy
namespace DownNotice

open Armsy.System (ran)

variable {cfg : Config} {mem : Memory Byte} {s s' : System} {e : Event}
  {tr : List (Transition System Event)}

/-- The connection callback has been called with `isConnected()` false. -/
def Notified (s : System) : Prop := .connCallback false ∈ s.conn.log

/-- The step runs `connDestory`. -/
def destroys (τ : Transition System Event) : Bool := ran τ == .connDestory

/-- The step runs `handleClose`, by itself or out of `handleRead`. -/
def closes (τ : Transition System Event) : Bool := (ran τ).closes

/-- The step runs `sendInLoop` or sets kDisconnecting. -/
def disturbs (τ : Transition System Event) : Bool := (ran τ).sends || ran τ == .setDisconnecting

theorem leaves_eq (τ : Transition System Event) :
    (ran τ).leaves = (disturbs τ || closes τ || destroys τ) := rfl

/-- The steps before the first `connDestory`. -/
def beforeDestory (tr : List (Transition System Event)) : List (Transition System Event) :=
  tr.takeWhile fun τ => !destroys τ

theorem notified_effects_iff {c : TcpConnection} {o : Op} (ho : o.Silent) :
    .connCallback false ∈ c.effects o ↔
      o.closes = true ∨ o = .connDestory ∧ c.state = .connected := by
  constructor
  · intro h
    cases TcpConnection.logs_of_mem ho h with
    | down hd => exact hd
  · rintro (hc | ⟨rfl, hst⟩)
    · rcases Op.eq_of_closes hc with rfl | ⟨junk, rfl⟩ <;> simp [TcpConnection.effects]
    · simp [TcpConnection.effects, hst]

theorem step_notified (hi : s.Sound) (h : s.step e = some s') :
    Notified s' ↔ Notified s ∨ closes ⟨s, e, s'⟩ = true ∨
      destroys ⟨s, e, s'⟩ = true ∧ s.conn.state = .connected := by
  have hs := System.step_cases h
  rw [Notified, hs.mem_log hi.wellIndexed, notified_effects_iff (System.silent_op s e)]
  simp [Notified, closes, destroys, ran]

theorem step_connected (hi : s.Sound) (h : s.step e = some s') :
    (s'.established = true → s'.conn.state = .connected) ↔
      (s.established = true → s.conn.state = .connected) ∧ (s.op e).leaves = false := by
  have hs := System.step_cases h
  rw [hs.state hi.wellIndexed, hs.established]
  cases hest : s.established with
  | false =>
    rcases hi.op_of_not_established hest hs.enabled with rfl | ⟨hop, -⟩
    · simp [System.op, Op.stateAfter, Op.leaves, Op.sends, Op.closes]
    · have he : (e == .connEstablish) = false := by
        rw [beq_eq_false_iff_ne]
        rintro rfl
        cases hop
      simp [hop, he, Op.leaves, Op.sends, Op.closes]
  | true => simp [Op.connected_stateAfter_iff (hs.op_ne_connEstablish hest)]

/-- What the run so far says about the state: it has notified when it closed or
destroyed from kConnected, and it is at kConnected when nothing has left that. -/
theorem run_history (h : Run System.step (System.init cfg mem) tr s) :
    (Notified s ↔ ∃ τ ∈ tr, closes τ = true ∨ destroys τ = true ∧ τ.pre.conn.state = .connected) ∧
      ((s.established = true → s.conn.state = .connected) ↔ ∀ τ ∈ tr, (ran τ).leaves = false) := by
  induction h with
  | nil => simp [Notified, System.init, TcpConnection.new]
  | @snoc tr s s' e hr hst ih =>
    have hi := System.sound_of_run hr
    rw [step_notified hi hst, step_connected hi hst, ih.1, ih.2]
    constructor
    · simp [or_and_right, exists_or]
    · simp [ran, forall_and, or_imp]

/-- A `connDestory` finds kConnected exactly when no earlier step has left it. -/
theorem connected_iff_of_destroys (h : Run System.step (System.init cfg mem) tr s)
    (hst : s.step e = some s') (hd : s.op e = .connDestory) :
    s.conn.state = .connected ↔ ∀ τ ∈ tr, (ran τ).leaves = false := by
  rw [← (run_history h).2]
  have hs := System.step_cases hst
  have hest : s.established = true :=
    (System.sound_of_run h).established_of_op hs.enabled (by simp [hd]) (by simp [hd])
  simp [hest]

theorem destroys_of_mem_beforeDestory {τ : Transition System Event} (h : τ ∈ beforeDestory tr) :
    destroys τ = false := by
  simpa using List.mem_takeWhile_imp h

theorem beforeDestory_eq {tr₁ tr₂ : List (Transition System Event)} {τ : Transition System Event}
    (h : ∀ τ ∈ tr₁, destroys τ = false) (hd : destroys τ = true) :
    beforeDestory (tr₁ ++ τ :: tr₂) = tr₁ := by
  unfold beforeDestory
  rw [List.takeWhile_append_of_pos (by simpa using h), List.takeWhile_cons_of_neg (by simp [hd]),
    List.append_nil]

/-- A run with a `connDestory` in it starts with the steps before the first one. -/
theorem exists_first_destory (h : ∃ τ ∈ tr, destroys τ = true) :
    ∃ τ tr₂, tr = beforeDestory tr ++ τ :: tr₂ ∧ destroys τ = true := by
  have happ := List.takeWhile_append_dropWhile (p := fun τ => !destroys τ) (l := tr)
  cases hdrop : tr.dropWhile (fun τ => !destroys τ) with
  | nil =>
    obtain ⟨τ, hτ, hd⟩ := h
    simpa [hd] using List.dropWhile_eq_nil_iff.1 hdrop τ hτ
  | cons τ tr₂ =>
    rw [hdrop] at happ
    refine ⟨τ, tr₂, happ.symm, ?_⟩
    have hhead := List.head?_dropWhile_not (fun τ => !destroys τ) tr
    simpa [hdrop] using hhead

/-- Some `connDestory` finds kConnected exactly when nothing before the first one
has left it. -/
theorem destroys_connected_iff (h : Run System.step (System.init cfg mem) tr s)
    (hd : ∃ τ ∈ tr, destroys τ = true) :
    (∃ τ ∈ tr, destroys τ = true ∧ τ.pre.conn.state = .connected) ↔
      ∀ τ ∈ beforeDestory tr, (ran τ).leaves = false := by
  constructor
  · rintro ⟨τ, hτ, hdτ, hconn⟩
    obtain ⟨tr₁, tr₂, rfl, hr, hst⟩ := h.split hτ
    have hstay := (connected_iff_of_destroys hr hst (beq_iff_eq.1 hdτ)).1 hconn
    rw [beforeDestory_eq _ hdτ]
    · exact hstay
    · intro τ' hτ'
      have := hstay τ' hτ'
      rw [leaves_eq, Bool.or_eq_false_iff] at this
      exact this.2
  · intro hstay
    obtain ⟨τ, tr₂, he, hdτ⟩ := exists_first_destory hd
    obtain ⟨hr, hst⟩ := h.upTo he
    refine ⟨τ, by rw [he]; simp, hdτ, ?_⟩
    exact (connected_iff_of_destroys hr hst (beq_iff_eq.1 hdτ)).2 hstay

/-- When a `connDestory` returns, the user has been notified exactly when
`handleClose` has run, or when neither a `sendInLoop` nor a `shutdown()` got in
before the first `connDestory`. -/
theorem down_notice_iff (h : Run System.step (System.init cfg mem) tr s)
    (hd : tr.getLast?.any destroys = true) :
    Notified s ↔ (∃ τ ∈ tr, closes τ = true) ∨ ∀ τ ∈ beforeDestory tr, disturbs τ = false := by
  obtain ⟨last, hlast, hdlast⟩ := (Option.any_eq_true _ _).1 hd
  have hkey := destroys_connected_iff h ⟨last, List.mem_of_getLast? hlast, hdlast⟩
  rw [(run_history h).1]
  constructor
  · rintro ⟨τ, hτ, hc | hdc⟩
    · exact .inl ⟨τ, hτ, hc⟩
    · right
      intro τ' hτ'
      have := hkey.1 ⟨τ, hτ, hdc⟩ τ' hτ'
      rw [leaves_eq, Bool.or_eq_false_iff, Bool.or_eq_false_iff] at this
      exact this.1.1
  · intro hcond
    by_cases hclosed : ∃ τ ∈ tr, closes τ = true
    · obtain ⟨τ, hτ, hc⟩ := hclosed
      exact ⟨τ, hτ, .inl hc⟩
    · -- with no close, what precedes the first connDestory leaves kConnected alone
      obtain ⟨τ, hτ, hdc⟩ := hkey.2 fun τ hτ => by
        have hmem : τ ∈ tr := (List.takeWhile_sublist _).subset hτ
        have hopen : closes τ = false := by simpa using fun hc => hclosed ⟨τ, hmem, hc⟩
        rw [leaves_eq, hcond.resolve_left hclosed τ hτ, hopen, destroys_of_mem_beforeDestory hτ]
        rfl
      exact ⟨τ, hτ, .inr hdc⟩

/-- Nothing was sent, so the `connDestory` of the server's destructor notifies. -/
theorem down_notice_iff_quiet : ∃ tr s, Run System.step (System.init .sample fun _ => 0) tr s ∧
    tr.map Transition.event = [.connEstablish, .handleWrite (.wrote 0), .connDestory] ∧
    Notified s := by
  obtain ⟨tr, s, hr, he, hd, hq⟩ := exists_run System.step
    (System.init .sample fun _ => 0)
    [.connEstablish, .handleWrite (.wrote 0), .connDestory]
    (P := fun tr _ => tr.getLast?.any destroys = true ∧
      ∀ τ ∈ beforeDestory tr, disturbs τ = false) (by decide)
  exact ⟨tr, s, hr, he, (down_notice_iff hr hd).2 (.inr hq)⟩

instance (s : System) : Decidable (Notified s) := inferInstanceAs (Decidable (_ ∈ _))

/-- One byte was sent, and the destructor takes the connection away in silence. -/
theorem destroyed_in_silence : ∃ tr s, Run System.step (System.init .sample fun _ => 0) tr s ∧
    tr.map Transition.event = [.connEstablish, .send .loop ⟨0, 1⟩, .sendRun .loop (.wrote 1) [],
      .connDestory] ∧ tr.getLast?.any destroys = true ∧ ¬ Notified s :=
  exists_run _ _ _ (by decide)

end DownNotice
end Armsy
