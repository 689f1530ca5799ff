import Armsy.Model.Buffer

/-! What each `Buffer` operation does to the unread bytes, for a buffer whose
indices are in order. Only `put` can damage them: when it reallocates, the
unread bytes stored at or past `size()` come back as zeros. -/

namespace Armsy
namespace Buffer

/-- The indices are in order and inside the allocated storage. -/
structure WellIndexed (b : Buffer) : Prop where
  read_le : b.readIndex ≤ b.writeIndex
  write_le : b.writeIndex ≤ b.buffer.capacity

/-- `put` of `len` bytes finds no room even after moving the unread bytes to the front. -/
def Reallocates (b : Buffer) (len : ℕ) : Prop :=
  b.writableBytes < len ∧ b.writableBytes + b.prependableBytes < len + kCheapPrepend

/-- The unread bytes stored at or past `size()`. -/
def slack (b : Buffer) : List Byte :=
  window b.buffer.store (max b.buffer.size b.readIndex) b.writeIndex

/-- `put` of `len` bytes reallocates while an unread byte other than zero is
stored at or past `size()`. -/
def LosesOn (b : Buffer) (len : ℕ) : Prop := b.Reallocates len ∧ ∃ x ∈ b.slack, x ≠ 0

instance (b : Buffer) (len : ℕ) : Decidable (b.Reallocates len) :=
  inferInstanceAs (Decidable (_ ∧ _))

instance (b : Buffer) (len : ℕ) : Decidable (b.LosesOn len) :=
  inferInstanceAs (Decidable (_ ∧ _))

theorem new_wellIndexed (n : ℕ) (junk : List Byte) : (new n junk).WellIndexed :=
  ⟨le_rfl, Nat.zero_le _⟩

@[simp] theorem new_unread (n : ℕ) (junk : List Byte) : (new n junk).unread = [] := by
  simp [new, unread]

variable {b : Buffer}

theorem WellIndexed.readableBytes_eq (h : b.WellIndexed) :
    b.readableBytes = b.writeIndex - b.readIndex := sizeSub_of_le h.read_le

theorem WellIndexed.writableBytes_eq (h : b.WellIndexed) :
    b.writableBytes = b.buffer.capacity - b.writeIndex := sizeSub_of_le h.write_le

theorem WellIndexed.unread_length (h : b.WellIndexed) : b.unread.length = b.readableBytes := by
  rw [h.readableBytes_eq, unread, window_length _ _ _ h.write_le]

theorem WellIndexed.unread_eq_nil (h : b.WellIndexed) : b.unread = [] ↔ b.readableBytes = 0 := by
  rw [← h.unread_length, List.length_eq_zero_iff]

theorem WellIndexed.pushState (h : b.WellIndexed) (len : ℕ) : (b.pushState len).WellIndexed := by
  have hw := h.write_le
  unfold Buffer.pushState
  split_ifs with hl
  · rw [h.readableBytes_eq] at hl
    exact ⟨by simp only; omega, hw⟩
  · exact ⟨le_rfl, Nat.zero_le _⟩

theorem WellIndexed.pushState_unread (h : b.WellIndexed) (len : ℕ) :
    (b.pushState len).unread = b.unread.drop len := by
  have hlen := h.unread_length
  unfold Buffer.pushState
  split_ifs with hl
  · simp only [unread, window_drop]
  · rw [List.drop_eq_nil_of_le (by omega)]
    simp [unread]

/-- `get` of at most `readableBytes()` bytes stays inside the storage. -/
theorem WellIndexed.get_eq (h : b.WellIndexed) {len : ℕ} (hl : len ≤ b.readableBytes) :
    b.get len = some (b.unread.take len, b.pushState len) := by
  have hr := h.read_le
  have hw := h.write_le
  rw [h.readableBytes_eq] at hl
  rw [get, if_pos (by omega), unread, window_take _ _ _ _ (by omega)]

theorem WellIndexed.write_eq (h : b.WellIndexed) : b.write = some b.unread := by
  have hr := h.read_le
  have hw := h.write_le
  have he : b.readIndex + (b.writeIndex - b.readIndex) = b.writeIndex := by omega
  rw [write, h.readableBytes_eq, he, if_pos hw, unread]

/-- A reallocation zeroes what lies between the old `size()` and the new one. -/
theorem window_resized (store junk : List Byte) {size n i j : ℕ} (hs : size ≤ store.length)
    (hi : size ≤ i) (hij : i ≤ j) (hj : j ≤ n) :
    window (store.take size ++ List.replicate (n - size) 0 ++ junk) i j =
      List.replicate (j - i) 0 := by
  have hl : (store.take size).length = size := by simp; omega
  have h1 : (store.take size ++ List.replicate (n - size) (0 : Byte) ++ junk).take j =
      store.take size ++ List.replicate (j - size) 0 := by
    rw [List.take_append_of_le_length (by simp; omega), List.take_append, hl, List.take_take,
      List.take_replicate, Nat.min_eq_right (by omega : size ≤ j),
      Nat.min_eq_left (by omega : j - size ≤ n - size)]
  rw [window, h1, List.drop_append, hl, List.drop_eq_nil_of_le (by omega), List.nil_append,
    List.drop_replicate]
  congr 1
  omega

/-- The unread window survives a reallocation exactly when what lies past `size()` is zero. -/
theorem WellIndexed.resized_unread (h : b.WellIndexed) {n : ℕ} (hn : b.writeIndex ≤ n)
    (junk : List Byte) :
    window (b.buffer.store.take b.buffer.size ++ List.replicate (n - b.buffer.size) 0 ++ junk)
        b.readIndex b.writeIndex = b.unread ↔ ∀ x ∈ b.slack, x = 0 := by
  have hr := h.read_le
  have hw := h.write_le
  have hs := b.buffer.size_le
  simp only [Vec.capacity] at hw
  rcases Nat.lt_or_ge b.buffer.size b.writeIndex with hlt | hge
  · rcases Nat.lt_or_ge b.readIndex b.buffer.size with hrs | hrs
    · -- size() falls inside the unread bytes: the part below it is kept
      have hlow : window (b.buffer.store.take b.buffer.size ++
          List.replicate (n - b.buffer.size) 0 ++ junk) b.readIndex b.buffer.size =
            window b.buffer.store b.readIndex b.buffer.size := by
        rw [List.append_assoc, window_append_left _ _ (by simp; omega), window_take_store _ le_rfl]
      have hlen : b.writeIndex ≤ (b.buffer.store.take b.buffer.size ++
          List.replicate (n - b.buffer.size) 0 ++ junk).length := by
        simp only [List.length_append, List.length_take, List.length_replicate]
        omega
      rw [slack, Nat.max_eq_left hrs.le, unread, ← window_append _ hrs.le hlt.le hlen,
        ← window_append b.buffer.store hrs.le hlt.le hw, hlow, List.append_cancel_left_eq,
        window_resized _ _ hs le_rfl hlt.le hn, eq_comm, List.eq_replicate_iff,
        window_length _ _ _ hw]
      simp
    · rw [slack, Nat.max_eq_right hrs, unread, window_resized _ _ hs hrs hr hn, eq_comm,
        List.eq_replicate_iff, window_length _ _ _ hw]
      simp
  · have hl : (b.buffer.store.take b.buffer.size).length = b.buffer.size := by simp; omega
    have hnil : b.slack = [] := by
      rw [← List.length_eq_zero_iff, slack, window_length _ _ _ hw]
      omega
    rw [List.append_assoc, window_append_left _ _ (by omega), window_take_store _ hge, hnil]
    simp [unread]

/-- `b₁` is `b` with room for `len` bytes: as many bytes are unread as before, and
they are the same bytes exactly when making the room lost none. -/
structure MakesRoom (b : Buffer) (len : ℕ) (b₁ : Buffer) : Prop where
  wellIndexed : b₁.WellIndexed
  room : b₁.writeIndex + len ≤ b₁.buffer.capacity
  length : b₁.unread.length = b.unread.length
  kept : b₁.unread = b.unread ↔ ¬ b.LosesOn len

/-- The branch of `makeSpace` that reallocates. -/
theorem WellIndexed.resize_makesRoom (h : b.WellIndexed) {len : ℕ} (hre : b.Reallocates len)
    (junk : List Byte) :
    b.MakesRoom len { b with buffer := b.buffer.resize (b.writeIndex + len) junk } := by
  have hw := h.write_le
  have hs := b.buffer.size_le
  have hroom := hre.1
  rw [h.writableBytes_eq] at hroom
  have hcap : ¬ b.writeIndex + len ≤ b.buffer.capacity := by omega
  have hsize : b.buffer.size ≤ b.writeIndex + len := by
    simp only [Vec.capacity] at hcap
    omega
  have hlen : b.writeIndex + len ≤ (b.buffer.store.take b.buffer.size ++
      List.replicate (b.writeIndex + len - b.buffer.size) 0 ++ junk).length := by
    simp only [List.length_append, List.length_take, List.length_replicate]
    omega
  constructor
  all_goals simp only [Vec.resize, dif_neg hcap]
  · exact ⟨h.read_le, (Nat.le_add_right _ _).trans hlen⟩
  · exact hlen
  · simp only [unread]
    rw [window_length _ _ _ ((Nat.le_add_right _ _).trans hlen), window_length _ _ _ hw]
  · refine (h.resized_unread (Nat.le_add_right _ len) junk).trans ?_
    simp [LosesOn, hre]

/-- The unread bytes moved to the front of the storage. -/
def moved (b : Buffer) : Buffer where
  buffer :=
    { b.buffer with
      store := overwrite b.buffer.store kCheapPrepend b.unread
      size_le := b.buffer.size_le.trans (le_overwrite_length _ _ _) }
  readIndex := kCheapPrepend
  writeIndex := kCheapPrepend + b.readableBytes

theorem WellIndexed.unread_fits (h : b.WellIndexed) :
    kCheapPrepend + b.unread.length ≤ b.buffer.store.length := by
  have hw := h.write_le
  simp only [h.unread_length, h.readableBytes_eq, kCheapPrepend, Vec.capacity] at hw ⊢
  omega

theorem WellIndexed.moved_capacity (h : b.WellIndexed) :
    b.moved.buffer.capacity = b.buffer.capacity :=
  overwrite_length _ _ _ h.unread_fits

theorem WellIndexed.moved_unread (h : b.WellIndexed) : b.moved.unread = b.unread := by
  have hend : b.moved.writeIndex = kCheapPrepend + b.unread.length := by
    rw [h.unread_length]
    rfl
  calc b.moved.unread
      = window (overwrite b.buffer.store kCheapPrepend b.unread) kCheapPrepend
          (kCheapPrepend + b.unread.length) := by
        rw [unread, hend]
        rfl
    _ = b.unread := by
        rw [window_overwrite _ _ le_rfl h.unread_fits, window_self, List.nil_append]

/-- The branch of `makeSpace` that moves: enough room once the unread bytes start
at the front. -/
theorem WellIndexed.moved_makesRoom (h : b.WellIndexed) {len : ℕ}
    (hfit : ¬ b.writableBytes + b.prependableBytes < len + kCheapPrepend) :
    b.MakesRoom len b.moved := by
  have hr := h.read_le
  have hw := h.write_le
  rw [h.writableBytes_eq] at hfit
  have hend : b.moved.writeIndex = b.writeIndex - b.readIndex := by
    simp only [moved, kCheapPrepend, h.readableBytes_eq]
    omega
  refine ⟨⟨Nat.le_add_right _ _, ?_⟩, ?_, congrArg List.length h.moved_unread, ?_⟩
  · rw [h.moved_capacity, hend]
    omega
  · rw [h.moved_capacity, hend]
    simp only [prependableBytes, kCheapPrepend] at hfit
    omega
  · apply iff_of_true h.moved_unread
    rintro ⟨hre, -⟩
    exact hfit (h.writableBytes_eq ▸ hre.2)

theorem WellIndexed.makeSpace_move (h : b.WellIndexed) {len : ℕ} (junk : List Byte)
    (hfit : ¬ b.writableBytes + b.prependableBytes < len + kCheapPrepend) :
    b.makeSpace len junk = some b.moved := by
  have hcopy : b.buffer.copyIn kCheapPrepend b.unread = some b.moved.buffer :=
    if_pos h.unread_fits
  rw [makeSpace, if_neg hfit, if_pos ⟨h.read_le, h.write_le⟩]
  change (b.buffer.copyIn kCheapPrepend b.unread).map _ = _
  rw [hcopy]
  rfl

/-- `checkBuffer` makes room, whatever branch it takes. -/
theorem WellIndexed.checkBuffer_spec (h : b.WellIndexed) (len : ℕ) (junk : List Byte) :
    ∃ b₁, b.checkBuffer len junk = some b₁ ∧ b.MakesRoom len b₁ := by
  unfold checkBuffer
  split_ifs with hroom
  · by_cases hgrow : b.writableBytes + b.prependableBytes < len + kCheapPrepend
    · exact ⟨_, by rw [makeSpace, if_pos hgrow], h.resize_makesRoom ⟨hroom, hgrow⟩ junk⟩
    · exact ⟨_, h.makeSpace_move junk hgrow, h.moved_makesRoom hgrow⟩
  · have hw := h.write_le
    refine ⟨b, rfl, h, ?_, rfl, iff_of_true rfl fun hl => hroom hl.1.1⟩
    rw [h.writableBytes_eq] at hroom
    omega

/-- `put` appends its bytes to what `checkBuffer` left unread. -/
theorem WellIndexed.put_spec (h : b.WellIndexed) (data junk : List Byte) :
    ∃ b' kept, b.put data junk = some b' ∧ b'.WellIndexed ∧ b'.unread = kept ++ data ∧
      kept.length = b.unread.length ∧ (kept = b.unread ↔ ¬ b.LosesOn data.length) := by
  obtain ⟨b₁, hcheck, ⟨h₁, hfit, hlen, hkept⟩⟩ := h.checkBuffer_spec data.length junk
  have hr := h₁.read_le
  refine ⟨{ b₁ with
            buffer := { b₁.buffer with
              store := overwrite b₁.buffer.store b₁.writeIndex data
              size_le := b₁.buffer.size_le.trans (le_overwrite_length _ _ _) }
            writeIndex := b₁.writeIndex + data.length }, b₁.unread, ?_, ?_, ?_, hlen, hkept⟩
  · rw [put, hcheck, Option.bind_some, Vec.copyIn, if_pos hfit, Option.map_some]
  · refine ⟨by simp only; omega, ?_⟩
    simp only [Vec.capacity]
    rw [overwrite_length _ _ _ hfit]
    exact hfit
  · exact window_overwrite _ _ hr hfit

/-- A buffer with nothing unread has nothing to lose. -/
theorem not_losesOn_of_unread_nil (h : b.WellIndexed) (hu : b.unread = []) (len : ℕ) :
    ¬ b.LosesOn len := by
  have hl := h.unread_length
  rw [hu, h.readableBytes_eq, List.length_nil] at hl
  have hle := h.read_le
  have hnil : b.slack = [] := by
    rw [← List.length_eq_zero_iff, slack, window_length _ _ _ h.write_le]
    omega
  simp [LosesOn, hnil]

end Buffer
end Armsy
