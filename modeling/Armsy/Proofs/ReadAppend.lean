import Armsy.Lib.Run
import Armsy.Proofs.BufferSpec

/-! `Buffer::read` over every history of a buffer. The first segment of the scatter
read reaches up to `capacity()`, the overflow continues at `size()`: the two parts
join where these are equal, and nowhere else. -/

namespace Armsy
namespace ReadAppend

inductive Call where
  | put (data junk : List Byte)
  | pushState (len : ℕ)
  | get (len : ℕ)
  | read (r : ReadResult) (junk : List Byte)
  deriving DecidableEq

/-- The total length of the segments that `read` passes to `::readv`. -/
def segments (b : Buffer) : ℕ :=
  if b.writableBytes < Buffer.kExtraSize then b.writableBytes + Buffer.kExtraSize
  else b.writableBytes

/-- What `::readv` can return. -/
def admits (b : Buffer) : ReadResult → Bool
  | .delivered bytes => bytes.length ≤ segments b
  | .failed _ => true

/-- One call on a buffer. The state is `none` after undefined behaviour. -/
def step : Option Buffer → Call → Option (Option Buffer)
  | none, _ => none
  | some b, .put data junk => some (b.put data junk)
  | some b, .pushState len => some (some (b.pushState len))
  | some b, .get len => some ((b.get len).map Prod.snd)
  | some b, .read r junk => if admits b r then some (b.read r junk) else none

/-- The readable bytes after a read are those before it, then the delivered ones. -/
def Appended (b b' : Buffer) : ReadResult → Prop
  | .delivered bytes => b'.WellIndexed ∧ b'.unread = b.unread ++ bytes
  | .failed _ => b' = b

def Appends (τ : Transition (Option Buffer) Call) : Prop :=
  match τ.event with
  | .read r _ => ∃ b b', τ.pre = some b ∧ τ.post = some b' ∧ Appended b b' r
  | _ => True

/-- A read that overflows the first segment finds no capacity beyond `size()`. -/
def Joins (τ : Transition (Option Buffer) Call) : Prop :=
  match τ.event with
  | .read (.delivered bytes) _ => ∀ b ∈ τ.pre, b.writableBytes < bytes.length →
      b.buffer.size = b.buffer.capacity
  | _ => True

instance (τ : Transition (Option Buffer) Call) : Decidable (Joins τ) := by
  unfold Joins
  split <;> infer_instance

structure Inv (b : Buffer) : Prop where
  wellIndexed : b.WellIndexed
  empty : b.readIndex = b.writeIndex → b.readIndex = 0

theorem new_inv (n : ℕ) (junk : List Byte) : Inv (Buffer.new n junk) :=
  ⟨Buffer.new_wellIndexed _ _, fun _ => rfl⟩

variable {b b' : Buffer} {data bytes junk : List Byte}

theorem Inv.pushState (h : Inv b) (len : ℕ) : Inv (b.pushState len) := by
  refine ⟨h.wellIndexed.pushState len, ?_⟩
  unfold Buffer.pushState
  split_ifs with hl
  · rw [h.wellIndexed.readableBytes_eq] at hl
    simp only
    omega
  · simp [Buffer.kCheapPrepend]

theorem makeSpace_indices {len : ℕ} (h : b.makeSpace len junk = some b') :
    b'.readIndex = b.readIndex ∧ b'.writeIndex = b.writeIndex ∨
      b'.readIndex = 0 ∧ b'.writeIndex = b.writeIndex - b.readIndex := by
  unfold Buffer.makeSpace at h
  split_ifs at h with hgrow hle
  · cases h
    exact .inl ⟨rfl, rfl⟩
  · simp only [Option.map_eq_some_iff] at h
    obtain ⟨v, -, rfl⟩ := h
    refine .inr ⟨rfl, ?_⟩
    simp [Buffer.kCheapPrepend, Buffer.readableBytes, sizeSub_of_le hle.1]

/-- Where `put` leaves the indices. -/
theorem put_indices (h : b.put data junk = some b') :
    b'.readIndex = b.readIndex ∧ b'.writeIndex = b.writeIndex + data.length ∨
      b'.readIndex = 0 ∧ b'.writeIndex = b.writeIndex - b.readIndex + data.length := by
  simp only [Buffer.put, Option.bind_eq_some_iff, Option.map_eq_some_iff] at h
  obtain ⟨b₁, hcheck, v, -, rfl⟩ := h
  have hb₁ : b₁.readIndex = b.readIndex ∧ b₁.writeIndex = b.writeIndex ∨
      b₁.readIndex = 0 ∧ b₁.writeIndex = b.writeIndex - b.readIndex := by
    unfold Buffer.checkBuffer at hcheck
    split_ifs at hcheck
    · exact makeSpace_indices hcheck
    · cases hcheck
      exact .inl ⟨rfl, rfl⟩
  simp only
  omega

theorem Inv.put (h : Inv b) (hp : b.put data junk = some b') : Inv b' := by
  obtain ⟨b₁, -, hput, hw, -⟩ := h.wellIndexed.put_spec data junk
  obtain rfl : b₁ = b' := by rwa [hput, Option.some.injEq] at hp
  have hr := h.wellIndexed.read_le
  have he := h.empty
  have hi := put_indices hput
  refine ⟨hw, ?_⟩
  omega

/-- `put` never makes more than its own bytes readable on top of those between the indices. -/
theorem put_length (h : b.put data junk = some b') :
    b'.unread.length ≤ b.writeIndex - b.readIndex + data.length := by
  have hi := put_indices h
  have hl : b'.unread.length ≤ b'.writeIndex - b'.readIndex := by
    simp only [Buffer.unread, window, List.length_drop, List.length_take]
    omega
  omega

/-- The bytes that go to the first segment, in place. -/
def fill (b : Buffer) (bytes : List Byte) : Vec where
  store := overwrite b.buffer.store b.writeIndex (bytes.take b.writableBytes)
  size := b.buffer.size
  size_le := b.buffer.size_le.trans (le_overwrite_length _ _ _)

theorem fill_fits (h : b.WellIndexed) (bytes : List Byte) :
    b.writeIndex + (bytes.take b.writableBytes).length ≤ b.buffer.store.length := by
  have hw := h.write_le
  rw [h.writableBytes_eq, List.length_take]
  simp only [Vec.capacity] at hw ⊢
  omega

theorem fill_capacity (h : b.WellIndexed) (bytes : List Byte) :
    (fill b bytes).capacity = b.buffer.capacity :=
  overwrite_length _ _ _ (fill_fits h bytes)

theorem fill_window (h : b.WellIndexed) (bytes : List Byte) :
    window (fill b bytes).store b.readIndex
        (b.writeIndex + (bytes.take b.writableBytes).length) =
      b.unread ++ bytes.take b.writableBytes :=
  window_overwrite _ _ h.read_le (fill_fits h bytes)

/-- `read` splits at the end of the first segment. -/
theorem read_eq (junk : List Byte) (h : b.WellIndexed) (hfit : bytes.length ≤ segments b) :
    b.read (.delivered bytes) junk =
      if bytes.length ≤ b.writableBytes then
        some { b with buffer := fill b bytes, writeIndex := b.writeIndex + bytes.length }
      else
        Buffer.put { b with buffer := fill b bytes, writeIndex := b.buffer.size }
          (bytes.drop b.writableBytes) junk := by
  have hcopy : b.buffer.copyIn b.writeIndex (bytes.take b.writableBytes) = some (fill b bytes) :=
    if_pos (fill_fits h bytes)
  unfold Buffer.read
  simp only
  rw [if_neg (by simpa [segments] using hfit), hcopy]
  rfl

/-- A read that ends inside the first segment. -/
theorem read_short (h : Inv b) (hn : bytes.length ≤ b.writableBytes) :
    Inv { b with buffer := fill b bytes, writeIndex := b.writeIndex + bytes.length } ∧
      Appended b { b with buffer := fill b bytes, writeIndex := b.writeIndex + bytes.length }
        (.delivered bytes) := by
  have hw := h.wellIndexed.write_le
  have hr := h.wellIndexed.read_le
  have he := h.empty
  have htake : bytes.take b.writableBytes = bytes := List.take_of_length_le hn
  have hunread := fill_window h.wellIndexed bytes
  rw [htake] at hunread
  have hwell : Buffer.WellIndexed
      { b with buffer := fill b bytes, writeIndex := b.writeIndex + bytes.length } := by
    rw [h.wellIndexed.writableBytes_eq] at hn
    refine ⟨by simp only; omega, ?_⟩
    simp only [fill_capacity h.wellIndexed]
    omega
  exact ⟨⟨hwell, by simp only; omega⟩, hwell, hunread⟩

/-- A read that overflows into a vector without capacity beyond `size()`. -/
theorem read_joins (junk : List Byte) (h : Inv b) (hn : b.writableBytes < bytes.length)
    (hsize : b.buffer.size = b.buffer.capacity) :
    ∃ b', Buffer.put { b with buffer := fill b bytes, writeIndex := b.buffer.size }
      (bytes.drop b.writableBytes) junk = some b' ∧ Inv b' ∧ Appended b b' (.delivered bytes) := by
  have hw := h.wellIndexed.write_le
  have hr := h.wellIndexed.read_le
  have hlen : (bytes.take b.writableBytes).length = b.writableBytes := by
    rw [List.length_take]
    omega
  have hend : b.writeIndex + (bytes.take b.writableBytes).length = b.buffer.size := by
    rw [hlen, h.wellIndexed.writableBytes_eq, hsize]
    omega
  have hunread := fill_window h.wellIndexed bytes
  rw [hend] at hunread
  have hfull : Inv { b with buffer := fill b bytes, writeIndex := b.buffer.size } := by
    have he := h.empty
    refine ⟨⟨by simp only; omega, ?_⟩, by simp only; omega⟩
    simp only [fill_capacity h.wellIndexed]
    omega
  obtain ⟨b', kept, hput, hw', hb', -, hk⟩ :=
    hfull.wellIndexed.put_spec (bytes.drop b.writableBytes) junk
  -- nothing lies past size(), so `put` has nothing to lose
  have hslack :
      Buffer.slack { b with buffer := fill b bytes, writeIndex := b.buffer.size } = [] := by
    rw [← List.length_eq_zero_iff, Buffer.slack, window_length _ _ _ hfull.wellIndexed.write_le]
    simp only [fill]
    omega
  have hkept := hk.2 (by simp [Buffer.LosesOn, hslack])
  refine ⟨b', hput, hfull.put hput, hw', ?_⟩
  rw [hb', hkept]
  change window (fill b bytes).store b.readIndex b.buffer.size ++ _ = _
  rw [hunread, List.append_assoc, List.take_append_drop]

/-- A read that overflows into a vector with capacity beyond `size()` loses what it
stored there. -/
theorem read_gap (h : Inv b) (hn : b.writableBytes < bytes.length)
    (hsize : b.buffer.size ≠ b.buffer.capacity)
    (hput : Buffer.put { b with buffer := fill b bytes, writeIndex := b.buffer.size }
      (bytes.drop b.writableBytes) junk = some b') : b'.unread ≠ b.unread ++ bytes := by
  intro hu
  have hw := h.wellIndexed.write_le
  have hr := h.wellIndexed.read_le
  have he := h.empty
  have hs := b.buffer.size_le
  have hlen := put_length hput
  simp only [hu, List.length_append, List.length_drop, h.wellIndexed.unread_length,
    h.wellIndexed.readableBytes_eq] at hlen
  rw [h.wellIndexed.writableBytes_eq] at hlen hn
  simp only [Vec.capacity] at *
  omega

/-- A read appends what it was given exactly when its two parts join. -/
theorem appends_iff (h : Inv b) {r : ReadResult} (hfit : admits b r = true) :
    (Appends ⟨some b, .read r junk, b.read r junk⟩ ↔ Joins ⟨some b, .read r junk, b.read r junk⟩) ∧
      (Joins ⟨some b, .read r junk, b.read r junk⟩ → ∀ b', b.read r junk = some b' → Inv b') := by
  cases r with
  | failed e =>
    refine ⟨iff_of_true ⟨b, b, rfl, rfl, rfl⟩ trivial, ?_⟩
    rintro - b' hb'
    cases hb'
    exact h
  | delivered bytes =>
    have hread := read_eq junk h.wellIndexed (by simpa [admits] using hfit)
    simp only [Appends, Joins, Option.mem_def, Option.some.injEq]
    rw [hread]
    split_ifs with hn
    · obtain ⟨hi, happ⟩ := read_short h hn
      refine ⟨iff_of_true ⟨b, _, rfl, rfl, happ⟩ ?_, ?_⟩
      · rintro _ rfl hlt
        omega
      · rintro - b' hb'
        cases hb'
        exact hi
    · rw [not_le] at hn
      by_cases hsize : b.buffer.size = b.buffer.capacity
      · obtain ⟨b', hput, hi, happ⟩ := read_joins junk h hn hsize
        rw [hput]
        refine ⟨iff_of_true ⟨b, b', rfl, rfl, happ⟩ ?_, ?_⟩
        · rintro _ rfl -
          exact hsize
        · rintro - _ hb'
          cases hb'
          exact hi
      · have hnot : ¬ ∀ b₁, b = b₁ → b₁.writableBytes < bytes.length →
            b₁.buffer.size = b₁.buffer.capacity := fun hall => hsize (hall b rfl hn)
        refine ⟨iff_of_false ?_ hnot, fun hj => absurd hj hnot⟩
        rintro ⟨_, b', rfl, hput, -, hu⟩
        exact read_gap h hn hsize hput hu

/-- What holds of the buffer, as long as it is one. -/
def Sound (s : Option Buffer) : Prop := ∀ b, s = some b → Inv b

theorem step_iff {s s' : Option Buffer} {c : Call} (h : Sound s) (hs : step s c = some s') :
    (Appends ⟨s, c, s'⟩ ↔ Joins ⟨s, c, s'⟩) ∧ (Joins ⟨s, c, s'⟩ → Sound s') := by
  cases s with
  | none => cases c <;> cases hs
  | some b =>
    have hb := h b rfl
    cases c with
    | put data junk =>
      obtain rfl : b.put data junk = s' := by simpa [step] using hs
      exact ⟨Iff.rfl, fun _ b' hb' => hb.put hb'⟩
    | pushState len =>
      obtain rfl : some (b.pushState len) = s' := by simpa [step] using hs
      refine ⟨Iff.rfl, ?_⟩
      rintro - b' hb'
      cases hb'
      exact hb.pushState len
    | get len =>
      obtain rfl : (b.get len).map Prod.snd = s' := by simpa [step] using hs
      refine ⟨Iff.rfl, ?_⟩
      rintro - b' hb'
      simp only [Buffer.get, Option.map_eq_some_iff, Option.ite_none_right_eq_some,
        Option.some.injEq] at hb'
      obtain ⟨_, ⟨-, rfl⟩, rfl⟩ := hb'
      exact hb.pushState len
    | read r junk =>
      simp only [step, Option.ite_none_right_eq_some, Option.some.injEq] at hs
      obtain ⟨hfit, rfl⟩ := hs
      exact appends_iff hb hfit

/-- Every read of a history appends exactly the bytes it was delivered, and leaves the
buffer alone when it fails, exactly when each read that overflows the first segment
finds no capacity beyond `size()`. -/
theorem read_appends_iff {n : ℕ} {junk : List Byte} {tr : List (Transition (Option Buffer) Call)}
    {s : Option Buffer} (h : Run step (some (Buffer.new n junk)) tr s) :
    (∀ τ ∈ tr, Appends τ) ↔ ∀ τ ∈ tr, Joins τ := by
  apply h.forall_iff (I := Sound)
  · rintro b hb
    cases hb
    exact new_inv n junk
  · exact fun s c s' hi hs => (step_iff hi hs).1
  · exact fun s c s' hi hs hp => (step_iff hi hs).2 ((step_iff hi hs).1.1 hp)

/-- A read that fills the buffer it was built with and spills over, then a failed one. -/
theorem read_appends_iff_full : ∃ tr s, Run step (some (Buffer.new 2 [])) tr s ∧
    tr.map Transition.event =
      [.read (.delivered [1, 2, 3]) [], .read (.failed .EWOULDBLOCK) []] ∧
    ∀ τ ∈ tr, Appends τ := by
  obtain ⟨tr, s, hr, he, hj⟩ := exists_run step (some (Buffer.new 2 []))
    [.read (.delivered [1, 2, 3]) [], .read (.failed .EWOULDBLOCK) []]
    (P := fun tr _ => ∀ τ ∈ tr, Joins τ) (by decide)
  exact ⟨tr, s, hr, he, (read_appends_iff hr).2 hj⟩

/-- A `put` grows the vector to a size of 3 and a capacity of 4; of the next three
bytes read, the first goes to the cell past `size()` and is lost. -/
theorem read_drops_byte : ∃ tr s, Run step (some (Buffer.new 2 [])) tr s ∧
    tr.map Transition.event = [.put [1, 2, 3] [0], .read (.delivered [4, 5, 6]) []] ∧
    tr.map (fun τ => τ.post.map Buffer.unread) = [some [1, 2, 3], some [1, 2, 3, 5, 6]] :=
  exists_run _ _ _ (by decide)

end ReadAppend
end Armsy
