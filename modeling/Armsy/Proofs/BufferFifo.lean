import Armsy.Lib.Fifo
import Armsy.Lib.Run
import Armsy.Proofs.BufferSpec

/-! `Buffer` against the abstract queue, over every sequence of `put`,
`pushState`, `get` and `getAll`. The two agree in every state up to the first
`put` that reallocates over unread bytes past `size()`, and not after it. -/

namespace Armsy
namespace BufferFifo

/-- One call on the buffer; `junk` is the storage a reallocation finds past the new size. -/
inductive Call where
  | put (data junk : List Byte)
  | pushState (len : ℕ)
  | get (len : ℕ)
  | getAll
  deriving DecidableEq

/-- The buffer, the abstract queue given the same calls, and what the last call returned. -/
structure Audit where
  buf : Buffer
  queue : Fifo Byte
  got : List Byte

def Audit.new (initSize : ℕ) (junk : List Byte) : Audit := ⟨Buffer.new initSize junk, .empty, []⟩

def step (a : Audit) : Call → Option Audit
  | .put data junk => (a.buf.put data junk).map fun b => ⟨b, a.queue.enter data, []⟩
  | .pushState len => some ⟨a.buf.pushState len, a.queue.remove len, []⟩
  | .get len =>
    if len ≤ a.buf.readableBytes then
      (a.buf.get len).map fun r => ⟨r.2, a.queue.remove len, r.1⟩
    else none
  | .getAll => a.buf.getAll.map fun r => ⟨r.2, a.queue.remove a.buf.readableBytes, r.1⟩

/-- What the abstract queue answers to a call. -/
def answer (q : Fifo Byte) : Call → List Byte
  | .get len => q.content.take len
  | .getAll => q.content
  | _ => []

/-- After the call the buffer holds what the abstract queue holds, and it
returned what the abstract queue answers. -/
def Agrees (τ : Transition Audit Call) : Prop :=
  τ.post.buf.unread = τ.post.queue.content ∧ τ.post.got = answer τ.pre.queue τ.event

/-- The call is no `put` that loses unread bytes. -/
def Keeps (τ : Transition Audit Call) : Prop :=
  match τ.event with
  | .put data _ => ¬ τ.pre.buf.LosesOn data.length
  | _ => True

structure Inv (a : Audit) : Prop where
  wellIndexed : a.buf.WellIndexed
  unread_eq : a.buf.unread = a.queue.content

theorem new_inv (initSize : ℕ) (junk : List Byte) : Inv (Audit.new initSize junk) :=
  ⟨Buffer.new_wellIndexed _ _, Buffer.new_unread _ _⟩

/-- One call: it agrees with the abstract queue exactly when it keeps the bytes. -/
theorem agrees_iff {a a' : Audit} {c : Call} (h : Inv a) (hs : step a c = some a') :
    a'.buf.WellIndexed ∧ (Agrees ⟨a, c, a'⟩ ↔ Keeps ⟨a, c, a'⟩) := by
  obtain ⟨hw, hu⟩ := h
  cases c with
  | put data junk =>
    obtain ⟨b', kept, hput, hw', hb', -, hk⟩ := hw.put_spec data junk
    simp only [step, hput, Option.map_some, Option.some.injEq] at hs
    subst hs
    refine ⟨hw', ?_⟩
    simp only [Agrees, answer, Keeps, hb', Fifo.content_enter, and_true, List.append_left_inj]
    rw [← hu, hk]
  | pushState len =>
    simp only [step, Option.some.injEq] at hs
    subst hs
    refine ⟨hw.pushState len, ?_⟩
    simp [Agrees, answer, Keeps, hw.pushState_unread, hu]
  | get len =>
    simp only [step] at hs
    split_ifs at hs with hl
    simp only [hw.get_eq hl, Option.map_some, Option.some.injEq] at hs
    subst hs
    refine ⟨hw.pushState len, ?_⟩
    simp [Agrees, answer, Keeps, hw.pushState_unread, hu]
  | getAll =>
    simp only [step, Buffer.getAll, hw.get_eq le_rfl, Option.map_some, Option.some.injEq] at hs
    subst hs
    refine ⟨hw.pushState _, ?_⟩
    have hall : a.queue.content.take a.buf.readableBytes = a.queue.content := by
      rw [← hu, ← hw.unread_length, List.take_length]
    simp [Agrees, answer, Keeps, hw.pushState_unread, hu, hall]

/-- In a run from any fresh buffer, `Buffer` is a first-in first-out byte queue
throughout exactly when no `put` reallocates over a non-zero unread byte that
is stored at or past `size()`. -/
theorem buffer_fifo_iff (initSize : ℕ) (junk : List Byte) {tr : List (Transition Audit Call)}
    {a : Audit} (h : Run step (Audit.new initSize junk) tr a) :
    (∀ τ ∈ tr, Agrees τ) ↔ ∀ τ ∈ tr, Keeps τ := by
  apply h.forall_iff (I := Inv) (new_inv _ _)
  · intro s e s' hi hst
    exact (agrees_iff hi hst).2
  · intro s e s' hi hst hp
    exact ⟨(agrees_iff hi hst).1, hp.1⟩

instance (τ : Transition Audit Call) : Decidable (Agrees τ) :=
  inferInstanceAs (Decidable (_ ∧ _))

instance (τ : Transition Audit Call) : Decidable (Keeps τ) := by
  unfold Keeps
  split <;> infer_instance

/-- Two bytes in, one out, through a growth that loses nothing. -/
theorem buffer_fifo_iff_grown : ∃ tr a, Run step (Audit.new 1 []) tr a ∧ a.got = [1] ∧
    ∀ τ ∈ tr, Agrees τ := by
  obtain ⟨tr, a, hr, -, hg, hk⟩ := exists_run step (Audit.new 1 [])
    [.put [1, 2] [], .get 1] (P := fun tr a => a.got = [1] ∧ ∀ τ ∈ tr, Keeps τ) (by decide)
  exact ⟨tr, a, hr, hg, (buffer_fifo_iff 1 [] hr).2 hk⟩

/-- With the growth of libstdc++: 3 bytes into a buffer of 2 give capacity 4,
the next byte is stored past `size()`, and the growth after it drops that byte. -/
theorem buffer_loses_byte : ∃ tr a, Run step (Audit.new 2 []) tr a ∧
    tr.map Transition.event = [.put [1, 2, 3] [0], .put [4] [], .put [5] [0]] ∧
    a.queue.content = [1, 2, 3, 4, 5] ∧ a.buf.unread = [1, 2, 3, 0, 5] ∧
    ¬ ∀ τ ∈ tr, Agrees τ :=
  exists_run _ _ _ (by decide)

end BufferFifo
end Armsy
