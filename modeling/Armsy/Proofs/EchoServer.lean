import Armsy.Model.EchoServer
import Armsy.Proofs.ConnectionTotal
import Armsy.Proofs.IndexSafety
import Mathlib.Data.List.TakeWhile

/-! What an echo connection sends back. `send` leaves `state_` at kDisconnected, so of all
the messages only the first is answered; every one of them is taken out of the input buffer.
That keeps the indices of the buffer at 0 between reads, so no read overtakes them. -/

namespace Armsy
namespace EchoServer

open TcpConnection
open Teardown (Linked linked_exec)

/-- The bytes that a step reads from the socket, unless there are none. -/
def received : EchoEvent → Option (List Byte)
  | .handleRead (.delivered (x :: xs)) _ _ _ => some (x :: xs)
  | _ => none

/-- The messages that a run receives, one for each `::readv` that delivers any. -/
def messages (tr : List (Transition TcpConnection EchoEvent)) : List (List Byte) :=
  tr.filterMap fun τ => received τ.event

/-- The step closes the connection. -/
def closes : EchoEvent → Bool
  | .handleRead (.delivered []) _ _ _ | .handleClose | .connDestory => true
  | _ => false

def isOpen (tr : List (Transition TcpConnection EchoEvent)) : Bool :=
  tr.all fun τ => !closes τ.event

/-- The messages that are received before the connection is closed. -/
def heard (tr : List (Transition TcpConnection EchoEvent)) : List (List Byte) :=
  messages (tr.takeWhile fun τ => !closes τ.event)

/-! ### The input buffer -/

/-- Nothing is unread, and the next read starts at the front. -/
structure Emptied (b : Buffer) : Prop where
  read : b.readIndex = 0
  write : b.writeIndex = 0

variable {b b' : Buffer} {bytes junk : List Byte}

theorem Emptied.wellIndexed (h : Emptied b) : b.WellIndexed :=
  ⟨by rw [h.read, h.write], by rw [h.write]; exact Nat.zero_le _⟩

theorem Emptied.unread (h : Emptied b) : b.unread = [] := by
  simp [Buffer.unread, h.read, h.write]

/-- A read that returns stays within the two segments. -/
theorem fits_of_read (hs : b.read (.delivered bytes) junk = some b') :
    bytes.length ≤ ReadAppend.segments b := by
  by_contra hlt
  have hlt : (if b.writableBytes < Buffer.kExtraSize then b.writableBytes + Buffer.kExtraSize
      else b.writableBytes) < bytes.length := by simpa [ReadAppend.segments] using hlt
  simp [Buffer.read, hlt] at hs

/-- A read into an emptied buffer leaves the indices in order, whatever its capacity. -/
theorem Emptied.exists_read (h : Emptied b) (hfit : bytes.length ≤ ReadAppend.segments b)
    (junk : List Byte) : ∃ b', b.read (.delivered bytes) junk = some b' ∧ b'.WellIndexed := by
  apply (IndexSafety.read_safe_iff junk h.wellIndexed hfit).2
  intro _
  exact .inl (h.read ▸ Nat.zero_le _)

/-- If the vector has no capacity beyond `size()`, the bytes are all there. -/
theorem Emptied.read_unread (h : Emptied b) (hsize : b.buffer.size = b.buffer.capacity)
    (hs : b.read (.delivered bytes) junk = some b') : b'.unread = bytes := by
  have hi : ReadAppend.Inv b := ⟨h.wellIndexed, fun _ => h.read⟩
  have hfit := fits_of_read hs
  have happ : ReadAppend.Appends ⟨some b, .read (.delivered bytes) junk,
      b.read (.delivered bytes) junk⟩ := by
    apply (ReadAppend.appends_iff hi (by simpa [ReadAppend.admits] using hfit)).1.2
    intro _ hb _
    cases hb
    exact hsize
  obtain ⟨b₀, b₁, hb₀, hb₁, -, hu⟩ := happ
  obtain rfl : b = b₀ := Option.some.inj hb₀
  obtain rfl : b' = b₁ := Option.some.inj (hs.symm.trans hb₁)
  rw [hu, h.unread, List.nil_append]

/-- `getAll` returns what is unread and empties the buffer. -/
theorem getAll_eq (h : b.WellIndexed) :
    ∃ b', b.getAll = some (b.unread, b') ∧ Emptied b' := by
  refine ⟨b.pushState b.readableBytes, ?_, ?_⟩
  · rw [Buffer.getAll, h.get_eq le_rfl, ← h.unread_length, List.take_length]
  · rw [Buffer.pushState, if_neg (lt_irrefl _)]
    exact ⟨rfl, rfl⟩

/-! ### One step -/

/-- The connection with `bytes` read and taken out of its input buffer, before it answers. -/
def took (c : TcpConnection) (b : Buffer) (bytes : List Byte) : TcpConnection :=
  { c with inputBuffer := b, log := c.log ++ [.readv (.delivered bytes), .msgCallback] }

variable {c c' : TcpConnection} {x : Byte} {xs outJunk : List Byte} {w : WriteResult} {o : Op}
  {e : EchoEvent} {tr : List (Transition TcpConnection EchoEvent)} {cfg : Config}

theorem handleRead_message (h : Emptied c.inputBuffer)
    (hs : handleRead c (.delivered (x :: xs)) junk w outJunk = some c') :
    ∃ b b', c.inputBuffer.read (.delivered (x :: xs)) junk = some b ∧ Emptied b' ∧
      (took c b' (x :: xs)).send b.unread w outJunk = some c' := by
  simp only [handleRead, TcpConnection.handleRead, Option.bind_eq_some_iff] at hs
  obtain ⟨d, ⟨b, hb, hd⟩, hs⟩ := hs
  simp only [List.length_cons, gt_iff_lt, Nat.zero_lt_succ, if_true, Option.some.injEq] at hd
  subst hd
  obtain ⟨b₁, hb₁, hwell⟩ := h.exists_read (fits_of_read hb) junk
  obtain rfl : b = b₁ := Option.some.inj (hb.symm.trans hb₁)
  obtain ⟨b', hall, hempty⟩ := getAll_eq hwell
  refine ⟨b, b', hb, hempty, ?_⟩
  simp only [onMessage, TcpConnection.emit, hall, Option.bind_some] at hs
  simpa [took] using hs

/-- The operation that a step is when no message comes in. -/
def quietOp : EchoEvent → Op
  | .handleRead r junk _ _ => .handleRead r junk
  | .handleWrite r => .handleWrite r
  | .handleClose => .handleClose
  | .handleError => .handleError
  | .connDestory => .connDestory

theorem step_quiet (hr : received e = none) (hs : step c e = some c') :
    c.exec (quietOp e) = some c' := by
  cases e with
  | handleRead r junk w outJunk =>
    cases r with
    | delivered bytes =>
      cases bytes with
      | nil => simpa [step, handleRead, quietOp, exec] using hs
      | cons x xs => cases hr
    | failed e => simpa [step, handleRead, quietOp, exec] using hs
  | _ => exact hs

theorem quiet_state {st : ConnState} (hr : received e = none) :
    (quietOp e).stateAfter st = .connected ↔ st = .connected ∧ closes e = false := by
  cases e with
  | handleRead r junk w outJunk =>
    cases r with
    | delivered bytes =>
      cases bytes with
      | nil => simp [quietOp, Op.stateAfter, closes]
      | cons x xs => cases hr
    | failed e => simp [quietOp, Op.stateAfter, closes]
  | connDestory => cases st <;> simp [quietOp, Op.stateAfter, closes]
  | _ => simp [quietOp, Op.stateAfter, closes]

/-- End of stream finds the buffer emptied and leaves it so. -/
theorem Emptied.read_nil (h : Emptied b) (hs : b.read (.delivered []) junk = some b') :
    Emptied b' := by
  rw [ReadAppend.read_eq junk h.wellIndexed (fits_of_read hs), if_pos (by simp),
    Option.some.injEq] at hs
  subst hs
  exact ⟨h.read, h.write⟩

/-- What is no message leaves the input buffer alone, unless it is the end of the stream. -/
theorem quiet_input (h : Emptied c.inputBuffer) (hw : c.outputBuffer.WellIndexed)
    (hr : received e = none) (hs : c.exec (quietOp e) = some c') :
    Emptied c'.inputBuffer ∧ (closes e = false → c'.inputBuffer = c.inputBuffer) := by
  cases e with
  | handleRead r junk w outJunk =>
    simp only [quietOp, exec, TcpConnection.handleRead, Option.bind_eq_some_iff] at hs
    obtain ⟨b, hb, hs⟩ := hs
    cases r with
    | delivered bytes =>
      cases bytes with
      | nil =>
        have hsame : c'.inputBuffer = b := (handleClose_inputBuffer hs :)
        rw [hsame]
        exact ⟨h.read_nil hb, fun hc => by cases hc⟩
      | cons x xs => cases hr
    | failed e =>
      cases hb
      cases hs
      exact ⟨h, fun _ => rfl⟩
  | handleWrite r =>
    have hsame := handleWrite_inputBuffer hw hs
    exact ⟨hsame ▸ h, fun _ => hsame⟩
  | handleClose =>
    have hsame := handleClose_inputBuffer hs
    exact ⟨hsame ▸ h, fun _ => hsame⟩
  | handleError =>
    cases hs
    exact ⟨h, fun _ => rfl⟩
  | connDestory =>
    have hsame := connDestory_inputBuffer hs
    exact ⟨hsame ▸ h, fun _ => hsame⟩

/-- It passes no byte to `sendInLoop`. -/
theorem quiet_stream (hw : c.outputBuffer.WellIndexed) (hs : c.exec (quietOp e) = some c') :
    c'.log.flatMap handed ++ c'.outputBuffer.unread =
      c.log.flatMap handed ++ c.outputBuffer.unread := by
  have hall := exec_stream hw hs (by cases e <;> simp [quietOp]) (by cases e <;> simp [quietOp])
  have hpay : payload (quietOp e) = [] := by cases e <;> rfl
  rw [hpay, List.append_nil] at hall
  rw [(exec_outcome hw hs).log, List.flatMap_append, List.append_assoc, hall]

/-- While the connection is up and nothing has been heard, a message goes out whole. -/
theorem answered (hw : c.outputBuffer.WellIndexed) {data : List Byte}
    (hnone : c.log.flatMap handed ++ c.outputBuffer.unread = [])
    (hs : c.sendInLoop data w outJunk = some c') :
    c'.log.flatMap handed ++ c'.outputBuffer.unread = data := by
  obtain ⟨ho, -, -, -, kept, hu, hlen, -⟩ := sendInLoop_spec hw hs
  obtain ⟨hlog, hun⟩ := List.append_eq_nil_iff.1 hnone
  rw [hun, List.length_nil, List.length_eq_zero_iff] at hlen
  rw [ho.log, List.flatMap_append, hlog, List.nil_append, hu, hlen, List.nil_append]
  exact handed_sendInLoop c data outJunk w

/-- The input buffer is emptied between steps, and the kernel watches the channel exactly
when its state is kChannelAdded. -/
structure Sound (c : TcpConnection) : Prop where
  wellIndexed : c.outputBuffer.WellIndexed
  emptied : Emptied c.inputBuffer
  linked : Linked c.wires

theorem established_sound (cfg : Config) : Sound (established cfg) where
  wellIndexed := Buffer.new_wellIndexed _ _
  emptied := ⟨rfl, rfl⟩
  linked := by simp [Linked, wires, established, Channel.new]

theorem took_sound (h : Sound c) (hb : Emptied b) (bytes : List Byte) :
    Sound (took c b bytes) := ⟨h.wellIndexed, hb, h.linked⟩

theorem send_sound (h : Sound c) {data : List Byte} (hs : c.send data w outJunk = some c') :
    Sound c' := by
  unfold TcpConnection.send at hs
  split_ifs at hs
  · have hex : c.exec (.sendInLoop data w outJunk) = some c' := hs
    have hsame := sendInLoop_inputBuffer hs
    exact ⟨exec_wellIndexed h.wellIndexed hex, hsame ▸ h.emptied,
      linked_exec h.linked h.wellIndexed hex⟩
  · cases hs
    exact h

theorem cases_received (e : EchoEvent) : received e = none ∨
    ∃ x xs junk w outJunk, e = .handleRead (.delivered (x :: xs)) junk w outJunk := by
  cases e with
  | handleRead r junk w outJunk =>
    cases r with
    | delivered bytes =>
      cases bytes with
      | nil => exact .inl rfl
      | cons x xs => exact .inr ⟨x, xs, junk, w, outJunk, rfl⟩
    | failed e => exact .inl rfl
  | _ => exact .inl rfl

theorem step_sound (h : Sound c) (hs : step c e = some c') : Sound c' := by
  have hw := h.wellIndexed
  rcases cases_received e with hr | ⟨x, xs, junk, w, outJunk, rfl⟩
  · have hex := step_quiet hr hs
    exact ⟨exec_wellIndexed hw hex, (quiet_input h.emptied hw hr hex).1,
      linked_exec h.linked hw hex⟩
  · obtain ⟨b, b', -, hempty, hsend⟩ := handleRead_message h.emptied hs
    exact send_sound (took_sound h hempty _) hsend

/-! ### Runs -/

theorem isOpen_snoc (tr : List (Transition TcpConnection EchoEvent))
    (τ : Transition TcpConnection EchoEvent) :
    isOpen (tr ++ [τ]) = (isOpen tr && !closes τ.event) := by
  simp [isOpen]

theorem received_of_closes (h : closes e = true) : received e = none := by
  cases e with
  | handleRead r junk w outJunk =>
    cases r with
    | delivered bytes =>
      cases bytes with
      | nil => rfl
      | cons x xs => cases h
    | failed e => cases h
  | _ => rfl

/-- A step adds to what is heard what it receives, while the connection is open. -/
theorem heard_snoc (tr : List (Transition TcpConnection EchoEvent))
    (τ : Transition TcpConnection EchoEvent) : heard (tr ++ [τ]) =
      if isOpen tr then heard tr ++ (received τ.event).toList else heard tr := by
  have hlast : messages ([τ].takeWhile fun τ => !closes τ.event) = (received τ.event).toList := by
    cases hc : closes τ.event with
    | true => simp [messages, hc, received_of_closes hc]
    | false => cases hr : received τ.event <;> simp [messages, hc, hr]
  cases ho : isOpen tr with
  | true =>
    have hall : ∀ τ ∈ tr, (!closes τ.event) = true := List.all_eq_true.1 ho
    have hself : (tr.takeWhile fun τ => !closes τ.event) = tr :=
      List.takeWhile_eq_self_iff.2 hall
    rw [heard, List.takeWhile_append_of_pos hall, heard, hself, messages, List.filterMap_append]
    exact congrArg (messages tr ++ ·) hlast
  | false =>
    have hlen : (tr.takeWhile fun τ => !closes τ.event).length ≠ tr.length := by
      intro hlen
      have hself := (List.takeWhile_prefix (l := tr) fun τ => !closes τ.event).eq_of_length hlen
      have hall : isOpen tr = true := by
        rw [isOpen, ← hself]
        exact List.all_takeWhile
      simp [ho] at hall
    rw [heard, List.takeWhile_append, if_neg hlen]
    rfl

/-- After the steps of `tr`. `send` is open until the first message or the close. -/
structure Inv (tr : List (Transition TcpConnection EchoEvent)) (c : TcpConnection) : Prop where
  sound : Sound c
  fresh : isOpen tr = true → heard tr = [] →
    c.inputBuffer.buffer.size = c.inputBuffer.buffer.capacity
  connected : c.state = .connected ↔ isOpen tr = true ∧ heard tr = []
  stream : c.log.flatMap handed ++ c.outputBuffer.unread = (heard tr).headD []

theorem established_inv (hj : cfg.inputJunk = []) : Inv [] (established cfg) where
  sound := established_sound cfg
  fresh := by simp [established, new, Buffer.new, Vec.ofSize, Vec.capacity, hj]
  connected := by simp [established, isOpen, heard, messages]
  stream := by simp [established, new, heard, messages, handed]

theorem step_inv_quiet (hi : Inv tr c) (hr : received e = none) (hs : step c e = some c') :
    Inv (tr ++ [⟨c, e, c'⟩]) c' := by
  have hw := hi.sound.wellIndexed
  have hex := step_quiet hr hs
  have hsame := (quiet_input hi.sound.emptied hw hr hex).2
  have hheard : heard (tr ++ [⟨c, e, c'⟩]) = heard tr := by
    rw [heard_snoc]
    simp [hr]
  have hopen : isOpen (tr ++ [⟨c, e, c'⟩]) = true ↔ isOpen tr = true ∧ closes e = false := by
    rw [isOpen_snoc]
    simp
  refine ⟨step_sound hi.sound hs, ?_, ?_, ?_⟩
  · intro ho hnone
    obtain ⟨ho, hc⟩ := hopen.1 ho
    rw [hsame hc]
    exact hi.fresh ho (hheard ▸ hnone)
  · rw [(exec_outcome hw hex).state, quiet_state hr, hi.connected, hopen, hheard]
    tauto
  · rw [quiet_stream hw hex, hi.stream, hheard]

theorem step_inv_message (hi : Inv tr c)
    (hs : handleRead c (.delivered (x :: xs)) junk w outJunk = some c') :
    Inv (tr ++ [⟨c, .handleRead (.delivered (x :: xs)) junk w outJunk, c'⟩]) c' := by
  obtain ⟨b, b', hb, hempty, hsend⟩ := handleRead_message hi.sound.emptied hs
  have hsound := took_sound hi.sound hempty (x :: xs)
  have hheard : heard (tr ++ [⟨c, .handleRead (.delivered (x :: xs)) junk w outJunk, c'⟩]) =
      if isOpen tr then heard tr ++ [x :: xs] else heard tr := heard_snoc tr _
  have hopen : isOpen (tr ++ [⟨c, .handleRead (.delivered (x :: xs)) junk w outJunk, c'⟩]) =
      isOpen tr := by simp [isOpen_snoc, closes]
  have hlog : (took c b' (x :: xs)).log.flatMap handed = c.log.flatMap handed := by
    simp [took, handed]
  have hsound' := send_sound hsound hsend
  -- from now on something has been heard, if the connection is open
  have hlate :
      ¬ (isOpen (tr ++ [⟨c, .handleRead (.delivered (x :: xs)) junk w outJunk, c'⟩]) = true ∧
        heard (tr ++ [⟨c, .handleRead (.delivered (x :: xs)) junk w outJunk, c'⟩]) = []) := by
    rintro ⟨ho, hnone⟩
    rw [hopen] at ho
    rw [hheard, ho, if_pos rfl] at hnone
    simp at hnone
  refine ⟨hsound', fun ho hnone => absurd ⟨ho, hnone⟩ hlate, ?_, ?_⟩
  · refine iff_of_false ?_ hlate
    unfold TcpConnection.send at hsend
    split_ifs at hsend with hst
    · have hex : (took c b' (x :: xs)).exec (.sendInLoop b.unread w outJunk) = some c' := hsend
      rw [(exec_outcome hsound.wellIndexed hex).state]
      simp [Op.stateAfter]
    · cases hsend
      exact hst
  · rw [hheard]
    unfold TcpConnection.send at hsend
    split_ifs at hsend with hst
    · obtain ⟨ho, hnone⟩ := hi.connected.1 hst
      have hdata : b.unread = x :: xs := hi.sound.emptied.read_unread (hi.fresh ho hnone) hb
      have hstream := hi.stream
      rw [hnone, ← hlog] at hstream
      rw [answered hsound.wellIndexed hstream hsend, hdata, ho, if_pos rfl, hnone]
      rfl
    · -- a message was heard before, or the connection is closed
      have hno : ¬ (isOpen tr = true ∧ heard tr = []) := fun h => hst (hi.connected.2 h)
      cases hsend
      rw [hlog]
      change c.log.flatMap handed ++ c.outputBuffer.unread = _
      rw [hi.stream]
      split_ifs with ho
      · cases hh : heard tr with
        | nil => exact absurd ⟨ho, hh⟩ hno
        | cons p ps => rfl
      · rfl

theorem run_inv (h : Run step (established cfg) tr c) (hj : cfg.inputJunk = []) : Inv tr c := by
  induction h with
  | nil => exact established_inv hj
  | @snoc tr s s' e _ hs ih =>
    rcases cases_received e with hr | ⟨x, xs, junk, w, outJunk, rfl⟩
    · exact step_inv_quiet ih hr hs
    · exact step_inv_message ih hs

theorem ne_nil_of_mem_messages {msg : List Byte} (h : msg ∈ messages tr) : msg ≠ [] := by
  obtain ⟨τ, -, hτ⟩ := List.mem_filterMap.1 h
  rcases cases_received τ.event with hr | ⟨x, xs, junk, w, outJunk, he⟩
  · rw [hr] at hτ
    cases hτ
  · rw [he] at hτ
    cases hτ
    exact List.cons_ne_nil x xs

/-- The first of some non-empty messages is all of them when there is no second. -/
theorem headD_eq_flatten {msgs : List (List Byte)} (h : ∀ msg ∈ msgs, msg ≠ []) :
    msgs.headD [] = msgs.flatten ↔ msgs.length ≤ 1 := by
  cases msgs with
  | nil => simp
  | cons p ps =>
    cases ps with
    | nil => simp
    | cons q qs =>
      have hq := h q (by simp)
      simp [hq]

/-- An echo connection answers the first message that it gets while it is open, byte for
byte, and nothing else: the bytes that the kernel took or refused for good and those still
in the output buffer are that message. Every message is consumed. So over a connection that
is not closed the echo is faithful exactly when at most one message came. -/
theorem echoes_first_message (h : Run step (established cfg) tr c) (hj : cfg.inputJunk = []) :
    c.log.flatMap handed ++ c.outputBuffer.unread = (heard tr).headD [] ∧
      c.inputBuffer.unread = [] ∧
      (isOpen tr = true →
        (c.log.flatMap handed ++ c.outputBuffer.unread = (messages tr).flatten ↔
          (messages tr).length ≤ 1)) := by
  have hi := run_inv h hj
  refine ⟨hi.stream, hi.sound.emptied.unread, ?_⟩
  intro ho
  have hself : heard tr = messages tr := by
    have hall : ∀ τ ∈ tr, (!closes τ.event) = true := List.all_eq_true.1 ho
    have htake : (tr.takeWhile fun τ => !closes τ.event) = tr :=
      List.takeWhile_eq_self_iff.2 hall
    rw [heard, htake]
  rw [hi.stream, hself]
  exact headD_eq_flatten fun msg => ne_nil_of_mem_messages

/-- A message that the socket takes one byte of, a second one, and a write event between. -/
theorem echoes_first_message_two : ∃ tr c, Run step (established .sample) tr c ∧
    messages tr = [[1, 2, 3], [4]] ∧
    c.log.flatMap handed ++ c.outputBuffer.unread = [1, 2, 3] ∧ c.inputBuffer.unread = [] := by
  obtain ⟨tr, c, hr, -, hm, hh⟩ := exists_run step (established .sample)
    [.handleRead (.delivered [1, 2, 3]) [] (.wrote 1) [], .handleWrite (.wrote 1),
      .handleRead (.delivered [4]) [] (.wrote 1) []]
    (P := fun tr _ => messages tr = [[1, 2, 3], [4]] ∧ heard tr = [[1, 2, 3], [4]])
    (by decide +kernel)
  obtain ⟨hstream, hin, -⟩ := echoes_first_message hr rfl
  rw [hh] at hstream
  exact ⟨tr, c, hr, hm, hstream, hin⟩

/-! ### Every step can be taken -/

/-- What `::readv` and `::write` can return in a step. -/
def admits (c : TcpConnection) : EchoEvent → Bool
  | .handleRead (.delivered bytes) junk w _ =>
    bytes.length ≤ ReadAppend.segments c.inputBuffer &&
      (c.inputBuffer.read (.delivered bytes) junk).all fun b => w.fits b.readableBytes
  | .handleWrite r => !c.channel.isWriteSet || r.fits c.outputBuffer.readableBytes
  | _ => true

theorem exists_send (h : Sound c) {data : List Byte} (hfit : w.fits data.length = true) :
    ∃ c', c.send data w outJunk = some c' := by
  unfold TcpConnection.send
  split_ifs
  · exact exists_sendInLoop h.linked h.wellIndexed fun _ => hfit
  · exact ⟨c, rfl⟩

theorem Sound.exists_step (h : Sound c) (ha : admits c e = true) : ∃ c', step c e = some c' := by
  cases e with
  | handleRead r junk w outJunk =>
    cases r with
    | failed e =>
      simp [step, handleRead, TcpConnection.handleRead, Buffer.read]
    | delivered bytes =>
      simp only [admits, Bool.and_eq_true, decide_eq_true_eq] at ha
      obtain ⟨b, hb, hwell⟩ := h.emptied.exists_read ha.1 junk
      cases bytes with
      | nil =>
        obtain ⟨c', hc'⟩ := exists_handleRead h.linked hb
        exact ⟨c', by simp [step, handleRead, hc']⟩
      | cons x xs =>
        have hfit := ha.2
        rw [hb] at hfit
        obtain ⟨b', hall, hempty⟩ := getAll_eq hwell
        have hfits : w.fits b.unread.length = true := by
          rw [hwell.unread_length]
          simpa using hfit
        obtain ⟨c', hc'⟩ : ∃ c', TcpConnection.send _ b.unread w outJunk = some c' :=
          exists_send (took_sound h hempty (x :: xs)) hfits
        refine ⟨c', ?_⟩
        simp only [step, handleRead, TcpConnection.handleRead, hb, Option.bind_some,
          List.length_cons, gt_iff_lt, Nat.zero_lt_succ, if_true, onMessage, TcpConnection.emit,
          hall]
        simpa [took] using hc'
  | handleWrite r =>
    apply exists_handleWrite h.linked h.wellIndexed
    intro hw
    simpa [admits, hw] using ha
  | handleClose => exact exists_handleClose h.linked
  | handleError => exact ⟨_, rfl⟩
  | connDestory => exact exists_connDestory h.linked

/-- In every reachable state of an echo connection, whatever capacity its vectors have, and
whatever the calls of the next step return: the step stays inside the storage of both
buffers and no `epoll_ctl` in it fails. -/
theorem never_stuck (h : Run step (established cfg) tr c) (ha : admits c e = true) :
    ∃ c', step c e = some c' := by
  have hi : Sound c := h.invariant (established_sound cfg) fun _ _ _ hi hs => step_sound hi hs
  exact hi.exists_step ha

/-- A message that waits for EPOLLOUT, a hang-up, and another message in the same dispatch. -/
theorem never_stuck_closed : ∃ tr c, Run step (established .sample) tr c ∧
    tr.map Transition.event = [.handleRead (.delivered [1, 2, 3]) [] (.failed .EWOULDBLOCK) [],
      .handleClose] ∧
    ∃ c', step c (.handleRead (.delivered [4]) [] (.wrote 1) []) = some c' := by
  obtain ⟨tr, c, hr, he, ha⟩ := exists_run step (established .sample)
    [.handleRead (.delivered [1, 2, 3]) [] (.failed .EWOULDBLOCK) [], .handleClose]
    (P := fun _ c => admits c (.handleRead (.delivered [4]) [] (.wrote 1) []) = true)
    (by decide +kernel)
  exact ⟨tr, c, hr, he, never_stuck hr ha⟩

end EchoServer
end Armsy
