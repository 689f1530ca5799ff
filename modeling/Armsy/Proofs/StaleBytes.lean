import Armsy.Proofs.ReadAppend

/-! `get` on two buffers that hold the same unread bytes over different histories of
`put`, `get` and `pushState`. `pushState` bounds its length by `readableBytes()`; the
string that `get` builds before it does not. -/

namespace Armsy
namespace StaleBytes

/-- The call is no `read`. -/
def InMemory : ReadAppend.Call → Prop
  | .read _ _ => False
  | _ => True

/-- The call leaves nothing stored at or past `size()`. -/
def WithinSize (τ : Transition (Option Buffer) ReadAppend.Call) : Prop :=
  ∀ b ∈ τ.post, b.writeIndex ≤ b.buffer.size

/-- `get(len)` returns the same string on both buffers, the first
`min(len, readableBytes())` unread bytes, and leaves both with the same unread bytes. -/
def AgreeOn (b₁ b₂ : Buffer) (len : ℕ) : Prop :=
  ∃ r₁ r₂, b₁.get len = some r₁ ∧ b₂.get len = some r₂ ∧ r₁.1 = r₂.1 ∧
    r₁.1 = b₁.unread.take (min len b₁.readableBytes) ∧ r₁.2.unread = r₂.2.unread

instance (c : ReadAppend.Call) : Decidable (InMemory c) := by
  cases c <;> dsimp only [InMemory] <;> infer_instance

instance (τ : Transition (Option Buffer) ReadAppend.Call) : Decidable (WithinSize τ) :=
  inferInstanceAs (Decidable (∀ b ∈ τ.post, _))

variable {b b₁ b₂ : Buffer}

/-- The indices stay in order over every history without a `read`. -/
theorem wellIndexed_of_run {n : ℕ} {junk : List Byte}
    {tr : List (Transition (Option Buffer) ReadAppend.Call)}
    (h : Run ReadAppend.step (some (Buffer.new n junk)) tr (some b))
    (hm : ∀ τ ∈ tr, InMemory τ.event) : b.WellIndexed := by
  have hsound : ReadAppend.Sound (some b) := by
    refine Run.invariant_of (C := fun τ => InMemory τ.event) ?_ ?_ h hm
    · rintro _ hb
      cases hb
      exact ReadAppend.new_inv n junk
    · intro s c s' hi hs hc
      apply (ReadAppend.step_iff hi hs).2
      cases c with
      | read r junk => exact hc.elim
      | _ => trivial
  exact (hsound b rfl).wellIndexed

/-- Whatever `get` returns has the length it was asked for. -/
theorem get_length {len : ℕ} {r : List Byte × Buffer} (hg : b.get len = some r) :
    r.1.length = len := by
  unfold Buffer.get at hg
  split_ifs at hg with hfit
  cases hg
  rw [window_length _ _ _ hfit]
  omega

theorem agreeOn_of_le (h₁ : b₁.WellIndexed) (h₂ : b₂.WellIndexed) (hu : b₁.unread = b₂.unread)
    {len : ℕ} (hl : len ≤ b₁.readableBytes) : AgreeOn b₁ b₂ len := by
  have hread : b₂.readableBytes = b₁.readableBytes := by
    rw [← h₁.unread_length, hu, h₂.unread_length]
  refine ⟨_, _, h₁.get_eq hl, h₂.get_eq (hread ▸ hl), by rw [hu], ?_, ?_⟩
  · rw [Nat.min_eq_left hl]
  · rw [h₁.pushState_unread, h₂.pushState_unread, hu]

/-- For two buffers with the same unread bytes, after any histories of `put`, `get` and
`pushState`, `get(len)` returns the same unread bytes and leaves the same behind exactly
when `len` is at most `readableBytes()`. -/
theorem get_agrees_iff {n₁ n₂ : ℕ} {junk₁ junk₂ : List Byte}
    {tr₁ tr₂ : List (Transition (Option Buffer) ReadAppend.Call)}
    (hr₁ : Run ReadAppend.step (some (Buffer.new n₁ junk₁)) tr₁ (some b₁))
    (hr₂ : Run ReadAppend.step (some (Buffer.new n₂ junk₂)) tr₂ (some b₂))
    (hm₁ : ∀ τ ∈ tr₁, InMemory τ.event) (hm₂ : ∀ τ ∈ tr₂, InMemory τ.event)
    (hu : b₁.unread = b₂.unread) (len : ℕ) : AgreeOn b₁ b₂ len ↔ len ≤ b₁.readableBytes := by
  have h₁ := wellIndexed_of_run hr₁ hm₁
  have h₂ := wellIndexed_of_run hr₂ hm₂
  constructor
  · rintro ⟨r₁, r₂, hg, -, -, htake, -⟩
    have hlen := congrArg List.length htake
    rw [get_length hg, List.length_take, h₁.unread_length] at hlen
    omega
  · exact agreeOn_of_le h₁ h₂ hu

/-- The second buffer has had two more bytes in and out than the first. -/
theorem get_agrees_iff_consumed : ∃ b₁ b₂ tr₁ tr₂,
    Run ReadAppend.step (some (Buffer.new 4 [])) tr₁ (some b₁) ∧
    Run ReadAppend.step (some (Buffer.new 4 [])) tr₂ (some b₂) ∧
    tr₁.map Transition.event = [.put [5, 6] []] ∧
    tr₂.map Transition.event = [.put [1, 2, 5, 6] [], .get 2] ∧ AgreeOn b₁ b₂ 1 := by
  obtain ⟨tr₁, s₁, hr₁, he₁, hs₁, hm₁⟩ := exists_run ReadAppend.step (some (Buffer.new 4 []))
    [.put [5, 6] []] (P := fun tr s =>
      s.map (fun b => (b.unread, b.readableBytes)) = some ([5, 6], 2) ∧
        ∀ τ ∈ tr, InMemory τ.event) (by decide)
  obtain ⟨tr₂, s₂, hr₂, he₂, hs₂, hm₂⟩ := exists_run ReadAppend.step (some (Buffer.new 4 []))
    [.put [1, 2, 5, 6] [], .get 2] (P := fun tr s => s.map Buffer.unread = some [5, 6] ∧
      ∀ τ ∈ tr, InMemory τ.event) (by decide)
  obtain ⟨b₁, rfl, hu₁⟩ := Option.map_eq_some_iff.1 hs₁
  obtain ⟨b₂, rfl, hu₂⟩ := Option.map_eq_some_iff.1 hs₂
  obtain ⟨hu₁, hn₁⟩ := Prod.mk.inj hu₁
  refine ⟨b₁, b₂, tr₁, tr₂, hr₁, hr₂, he₁, he₂, ?_⟩
  exact (get_agrees_iff hr₁ hr₂ hm₁ hm₂ (hu₁.trans hu₂.symm) 1).2 (by omega)

/-- The first buffer has consumed `[1, 2, 3]` before it is given `[5]`, the second is given
`[5]` at once: no byte is stored past `size()`, both have one unread byte, and `get(2)`
returns a byte of the earlier message from the first and a zero from the second. -/
theorem get_returns_stale : ∃ b₁ b₂ tr₁ tr₂,
    Run ReadAppend.step (some (Buffer.new 4 [])) tr₁ (some b₁) ∧
    Run ReadAppend.step (some (Buffer.new 4 [])) tr₂ (some b₂) ∧
    tr₁.map Transition.event = [.put [1, 2, 3] [], .pushState 3, .put [5] []] ∧
    tr₂.map Transition.event = [.put [5] []] ∧
    (∀ τ ∈ tr₁, InMemory τ.event ∧ WithinSize τ) ∧ (∀ τ ∈ tr₂, InMemory τ.event ∧ WithinSize τ) ∧
    b₁.unread = [5] ∧ b₂.unread = [5] ∧
    (b₁.get 2).map Prod.fst = some [5, 2] ∧ (b₂.get 2).map Prod.fst = some [5, 0] ∧
    ¬ AgreeOn b₁ b₂ 2 := by
  obtain ⟨tr₁, s₁, hr₁, he₁, hs₁, hm₁⟩ := exists_run ReadAppend.step (some (Buffer.new 4 []))
    [.put [1, 2, 3] [], .pushState 3, .put [5] []] (P := fun tr s =>
      s.map (fun b => (b.unread, (b.get 2).map Prod.fst)) = some ([5], some [5, 2]) ∧
        ∀ τ ∈ tr, InMemory τ.event ∧ WithinSize τ) (by decide)
  obtain ⟨tr₂, s₂, hr₂, he₂, hs₂, hm₂⟩ := exists_run ReadAppend.step (some (Buffer.new 4 []))
    [.put [5] []] (P := fun tr s =>
      s.map (fun b => (b.unread, (b.get 2).map Prod.fst)) = some ([5], some [5, 0]) ∧
        ∀ τ ∈ tr, InMemory τ.event ∧ WithinSize τ) (by decide)
  obtain ⟨b₁, rfl, hb₁⟩ := Option.map_eq_some_iff.1 hs₁
  obtain ⟨b₂, rfl, hb₂⟩ := Option.map_eq_some_iff.1 hs₂
  obtain ⟨hu₁, hg₁⟩ := Prod.mk.inj hb₁
  obtain ⟨hu₂, hg₂⟩ := Prod.mk.inj hb₂
  refine ⟨b₁, b₂, tr₁, tr₂, hr₁, hr₂, he₁, he₂, hm₁, hm₂, hu₁, hu₂, hg₁, hg₂, ?_⟩
  rintro ⟨r₁, r₂, hr₁, hr₂, heq, -, -⟩
  rw [hr₁, Option.map_some, Option.some.injEq] at hg₁
  rw [hr₂, Option.map_some, Option.some.injEq] at hg₂
  rw [hg₁, hg₂] at heq
  exact absurd heq (by decide)

end StaleBytes
end Armsy
