import Armsy.Proofs.ReadAppend

/-! The indices of a buffer over every history of calls. A read that overflows sets
`write_index_` to `size()`, which can lie behind `read_index_`. -/

namespace Armsy
namespace IndexSafety

inductive Call where
  | put (data junk : List Byte)
  | pushState (len : ℕ)
  | get (len : ℕ)
  | getAll
  | read (r : ReadResult) (junk : List Byte)
  deriving DecidableEq

/-- One call on a buffer. The state is `none` after undefined behaviour. -/
def step : Option Buffer → Call → Option (Option Buffer)
  | none, _ => none
  | some b, .put data junk => some (b.put data junk)
  | some b, .pushState len => some (some (b.pushState len))
  | some b, .get len => if len ≤ b.readableBytes then some ((b.get len).map Prod.snd) else none
  | some b, .getAll => some (b.getAll.map Prod.snd)
  | some b, .read r junk => if ReadAppend.admits b r then some (b.read r junk) else none

/-- The indices are in order and inside the storage, and neither subtraction wraps. -/
structure InBounds (b : Buffer) : Prop where
  read_le : b.readIndex ≤ b.writeIndex
  write_le : b.writeIndex ≤ b.buffer.capacity
  readable : b.readableBytes + b.readIndex = b.writeIndex
  writable : b.writableBytes + b.writeIndex = b.buffer.capacity

/-- The call touches no storage outside the allocation and leaves the indices in bounds. -/
def Safe (τ : Transition (Option Buffer) Call) : Prop := ∃ b, τ.post = some b ∧ InBounds b

/-- `put` of `m` bytes at `size()` ends at or past `read_index_`, or has to grow the vector. -/
def Catches (b : Buffer) (m : ℕ) : Prop :=
  b.readIndex ≤ b.buffer.size ∨
    (m ≤ b.buffer.capacity - b.buffer.size ∧ b.readIndex ≤ b.buffer.size + m) ∨
    b.buffer.capacity - b.buffer.size + b.readIndex < m

/-- The call is no read whose overflow stays behind `read_index_`. -/
def StaysAhead (τ : Transition (Option Buffer) Call) : Prop :=
  match τ.event with
  | .read (.delivered bytes) _ => ∀ b ∈ τ.pre, b.writableBytes < bytes.length →
      Catches b (bytes.length - b.writableBytes)
  | _ => True

instance (b : Buffer) : Decidable (InBounds b) :=
  decidable_of_iff (b.readIndex ≤ b.writeIndex ∧ b.writeIndex ≤ b.buffer.capacity ∧
      b.readableBytes + b.readIndex = b.writeIndex ∧
      b.writableBytes + b.writeIndex = b.buffer.capacity)
    ⟨fun h => ⟨h.1, h.2.1, h.2.2.1, h.2.2.2⟩,
      fun h => ⟨h.read_le, h.write_le, h.readable, h.writable⟩⟩

instance (τ : Transition (Option Buffer) Call) : Decidable (Safe τ) :=
  decidable_of_iff (τ.post.any (fun b => decide (InBounds b)) = true) (by
    simp [Safe, Option.any_eq_true])

instance (b : Buffer) (m : ℕ) : Decidable (Catches b m) := inferInstanceAs (Decidable (_ ∨ _ ∨ _))

instance (τ : Transition (Option Buffer) Call) : Decidable (StaysAhead τ) := by
  unfold StaysAhead
  split <;> infer_instance

/-- What holds of the buffer, as long as it is one. -/
def Sound (s : Option Buffer) : Prop := ∀ b, s = some b → b.WellIndexed

variable {b b' : Buffer} {data bytes junk : List Byte}

theorem inBounds_iff : InBounds b ↔ b.WellIndexed := by
  constructor
  · intro h
    exact ⟨h.read_le, h.write_le⟩
  · intro h
    have hr := h.read_le
    have hw := h.write_le
    refine ⟨hr, hw, ?_, ?_⟩
    · rw [h.readableBytes_eq]
      omega
    · rw [h.writableBytes_eq]
      omega

theorem safe_some {s : Option Buffer} {c : Call} (h : b.WellIndexed) : Safe ⟨s, c, some b⟩ :=
  ⟨b, rfl, inBounds_iff.2 h⟩

theorem le_resize_capacity (v : Vec) (n : ℕ) (junk : List Byte) :
    n ≤ (v.resize n junk).capacity := by
  have hsize : (v.resize n junk).size = n := by
    unfold Vec.resize
    split_ifs <;> rfl
  have hle := (v.resize n junk).size_le
  rwa [hsize] at hle

/-- Once there is room, `put` stays inside the storage, and the indices are in order
if the bytes end at or past the read index. -/
theorem put_of_room {b₁ : Buffer} (hc : b.checkBuffer data.length junk = some b₁)
    (hfit : b₁.writeIndex + data.length ≤ b₁.buffer.capacity) :
    ∃ b', b.put data junk = some b' ∧
      (b'.WellIndexed ↔ b₁.readIndex ≤ b₁.writeIndex + data.length) := by
  refine ⟨{ b₁ with
            buffer := { b₁.buffer with
              store := overwrite b₁.buffer.store b₁.writeIndex data
              size_le := b₁.buffer.size_le.trans (le_overwrite_length _ _ _) }
            writeIndex := b₁.writeIndex + data.length }, ?_, ?_⟩
  · rw [Buffer.put, hc, Option.bind_some, Vec.copyIn, if_pos hfit, Option.map_some]
  · constructor
    · exact fun h => h.read_le
    · intro h
      refine ⟨h, ?_⟩
      simp only [Vec.capacity]
      rw [overwrite_length _ _ _ hfit]
      exact hfit

/-- `put` on a buffer whose write index has fallen behind its read index. -/
theorem put_behind (hlt : b.writeIndex < b.readIndex) (hr : b.readIndex ≤ b.buffer.capacity)
    (data junk : List Byte) :
    (∃ b', b.put data junk = some b' ∧ b'.WellIndexed) ↔
      (data.length ≤ b.buffer.capacity - b.writeIndex ∧
        b.readIndex ≤ b.writeIndex + data.length) ∨
      b.buffer.capacity - b.writeIndex + b.readIndex < data.length := by
  have hwb : b.writableBytes = b.buffer.capacity - b.writeIndex := sizeSub_of_le (by omega)
  rcases Nat.lt_or_ge (b.buffer.capacity - b.writeIndex) data.length with hroom | hroom
  · have hcheck : b.checkBuffer data.length junk = b.makeSpace data.length junk :=
      if_pos (hwb ▸ hroom)
    by_cases hgrow : b.buffer.capacity - b.writeIndex + b.readIndex < data.length
    · have hmake : b.makeSpace data.length junk =
          some { b with buffer := b.buffer.resize (b.writeIndex + data.length) junk } :=
        if_pos (by simpa [hwb, Buffer.prependableBytes, Buffer.kCheapPrepend] using hgrow)
      obtain ⟨b', hput, hwell⟩ := put_of_room (hcheck.trans hmake) (le_resize_capacity _ _ _)
      refine iff_of_true ⟨b', hput, hwell.2 ?_⟩ (.inr hgrow)
      simp only
      omega
    · -- the unread bytes would have to move, and `std::copy` gets its ends the wrong way round
      have hmake : b.makeSpace data.length junk = none := by
        rw [Buffer.makeSpace, if_neg, if_neg (by omega)]
        simpa [hwb, Buffer.prependableBytes, Buffer.kCheapPrepend] using hgrow
      apply iff_of_false
      · rintro ⟨b', hput, -⟩
        rw [Buffer.put, hcheck, hmake] at hput
        cases hput
      · omega
  · have hcheck : b.checkBuffer data.length junk = some b := if_neg (by omega)
    obtain ⟨b', hput, hwell⟩ := put_of_room hcheck (by omega)
    have hiff : (∃ b', b.put data junk = some b' ∧ b'.WellIndexed) ↔
        b.readIndex ≤ b.writeIndex + data.length := by
      rw [← hwell, hput]
      simp
    rw [hiff]
    omega

/-- A read is safe exactly when the bytes that overflow catch up with the read index. -/
theorem read_safe_iff (junk : List Byte) (h : b.WellIndexed)
    (hfit : bytes.length ≤ ReadAppend.segments b) :
    (∃ b', b.read (.delivered bytes) junk = some b' ∧ b'.WellIndexed) ↔
      (b.writableBytes < bytes.length → Catches b (bytes.length - b.writableBytes)) := by
  have hr := h.read_le
  have hw := h.write_le
  have hs := b.buffer.size_le
  rw [ReadAppend.read_eq junk h hfit]
  split_ifs with hn
  · refine iff_of_true ⟨_, rfl, ?_⟩ fun hlt => absurd hlt (by omega)
    rw [h.writableBytes_eq] at hn
    refine ⟨by simp only; omega, ?_⟩
    simp only [ReadAppend.fill_capacity h]
    omega
  · rw [not_le] at hn
    simp only [hn, true_imp_iff]
    rcases Nat.lt_or_ge b.buffer.size b.readIndex with hlt | hle
    · have hput := put_behind (b := { b with
          buffer := ReadAppend.fill b bytes
          writeIndex := b.buffer.size }) hlt (by
        simp only [ReadAppend.fill_capacity h]
        omega) (bytes.drop b.writableBytes) junk
      simp only [ReadAppend.fill_capacity h, List.length_drop] at hput
      rw [hput, Catches]
      omega
    · have hwell : Buffer.WellIndexed
          { b with buffer := ReadAppend.fill b bytes, writeIndex := b.buffer.size } := by
        refine ⟨hle, ?_⟩
        simp only [ReadAppend.fill_capacity h]
        exact hs
      obtain ⟨b', -, hput, hb', -⟩ := hwell.put_spec (bytes.drop b.writableBytes) junk
      exact iff_of_true ⟨b', hput, hb'⟩ (.inl hle)

theorem step_iff {s s' : Option Buffer} {c : Call} (h : Sound s) (hs : step s c = some s') :
    Safe ⟨s, c, s'⟩ ↔ StaysAhead ⟨s, c, s'⟩ := by
  cases s with
  | none => cases c <;> cases hs
  | some b =>
    have hb := h b rfl
    cases c with
    | put data junk =>
      obtain ⟨b', -, hput, hb', -⟩ := hb.put_spec data junk
      obtain rfl : b.put data junk = s' := by simpa [step] using hs
      rw [hput]
      exact iff_of_true (safe_some hb') trivial
    | pushState len =>
      obtain rfl : some (b.pushState len) = s' := by simpa [step] using hs
      exact iff_of_true (safe_some (hb.pushState len)) trivial
    | get len =>
      simp only [step, Option.ite_none_right_eq_some, Option.some.injEq] at hs
      obtain ⟨hl, rfl⟩ := hs
      rw [hb.get_eq hl]
      exact iff_of_true (safe_some (hb.pushState len)) trivial
    | getAll =>
      obtain rfl : b.getAll.map Prod.snd = s' := by simpa [step] using hs
      rw [Buffer.getAll, hb.get_eq le_rfl]
      exact iff_of_true (safe_some (hb.pushState _)) trivial
    | read r junk =>
      simp only [step, Option.ite_none_right_eq_some, Option.some.injEq] at hs
      obtain ⟨hfit, rfl⟩ := hs
      cases r with
      | failed e => exact iff_of_true (safe_some hb) trivial
      | delivered bytes =>
        have hread := read_safe_iff junk hb (by simpa [ReadAppend.admits] using hfit)
        simp only [Safe, StaysAhead, inBounds_iff, Option.mem_def, Option.some.injEq,
          forall_eq']
        exact hread

/-- In every history of a buffer, every call stays inside the storage and leaves
`read_index_ <= write_index_ <= capacity()`, so that neither subtraction wraps, exactly
when no read overflows into bytes that end behind `read_index_`. -/
theorem indices_safe_iff {n : ℕ} {junk : List Byte} {tr : List (Transition (Option Buffer) Call)}
    {s : Option Buffer} (h : Run step (some (Buffer.new n junk)) tr s) :
    (∀ τ ∈ tr, Safe τ) ↔ ∀ τ ∈ tr, StaysAhead τ := by
  apply h.forall_iff (I := Sound)
  · rintro b hb
    cases hb
    exact Buffer.new_wellIndexed n junk
  · exact fun s c s' hi hs => step_iff hi hs
  · rintro s c s' - - ⟨b', hb', hin⟩ b hb
    obtain rfl : b' = b := Option.some.inj (hb'.symm.trans hb)
    exact inBounds_iff.1 hin

/-- A growth, a put into slack, a partial consumption and a read that overflows by enough
bytes to grow the vector again. -/
theorem indices_safe_iff_grown : ∃ tr s, Run step (some (Buffer.new 4 [])) tr s ∧
    tr.map Transition.event = [.put [1, 2, 3, 4, 5] [0, 0, 0], .put [6, 7, 8] [], .pushState 7,
      .read (.delivered (List.replicate 11 9)) [], .getAll] ∧
    ∀ τ ∈ tr, Safe τ := by
  obtain ⟨tr, s, hr, he, hj⟩ := exists_run step (some (Buffer.new 4 []))
    [.put [1, 2, 3, 4, 5] [0, 0, 0], .put [6, 7, 8] [], .pushState 7,
      .read (.delivered (List.replicate 11 9)) [], .getAll]
    (P := fun tr _ => ∀ τ ∈ tr, StaysAhead τ) (by decide)
  exact ⟨tr, s, hr, he, (indices_safe_iff hr).2 hj⟩

/-- With the growth of libstdc++: 5 bytes into a buffer of 4 give size 5 and capacity 8,
3 more fill the capacity, 7 are consumed, and a read of one byte moves `write_index_`
back to 6, behind `read_index_` at 7. `readableBytes()` wraps, and `getAll()` asks for
that many bytes. -/
theorem read_index_overtakes : ∃ tr s, Run step (some (Buffer.new 4 [])) tr s ∧
    tr.map Transition.event = [.put [1, 2, 3, 4, 5] [0, 0, 0], .put [6, 7, 8] [], .pushState 7,
      .read (.delivered [9]) []] ∧
    s.map (fun b => (b.readIndex, b.writeIndex, b.readableBytes)) = some (7, 6, 2 ^ 64 - 1) ∧
    (s.bind Buffer.getAll).isNone = true ∧ ¬ ∀ τ ∈ tr, Safe τ :=
  exists_run _ _ _ (by decide)

end IndexSafety
end Armsy
