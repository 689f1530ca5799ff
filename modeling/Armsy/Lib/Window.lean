import Mathlib.Tactic

/-! Contiguous storage as a list: the cells between two offsets, and a block of
cells written over it at an offset. -/

namespace Armsy

variable {α : Type*}

/-- The cells of `xs` from offset `i` up to, and without, offset `j`. -/
def window (xs : List α) (i j : ℕ) : List α := (xs.take j).drop i

/-- `xs` with `ys` written over it from offset `i` on. -/
def overwrite (xs : List α) (i : ℕ) (ys : List α) : List α :=
  xs.take i ++ ys ++ xs.drop (i + ys.length)

theorem window_length (xs : List α) (i j : ℕ) (h : j ≤ xs.length) :
    (window xs i j).length = j - i := by
  simp [window, Nat.min_eq_left h]

@[simp] theorem window_self (xs : List α) (i : ℕ) : window xs i i = [] := by
  simp [window]

theorem window_drop (xs : List α) (i j k : ℕ) : (window xs i j).drop k = window xs (i + k) j := by
  simp [window, List.drop_drop]

theorem window_take (xs : List α) (i j k : ℕ) (h : i + k ≤ j) :
    (window xs i j).take k = window xs i (i + k) := by
  simp only [window, List.take_drop, List.take_take]
  rw [Nat.min_eq_left h]

theorem window_append (xs : List α) {i j k : ℕ} (hij : i ≤ j) (hjk : j ≤ k) (hk : k ≤ xs.length) :
    window xs i j ++ window xs j k = window xs i k := by
  have hl : j - i = (window xs i j).length := (window_length xs i j (by omega)).symm
  have h1 : (window xs i k).take (j - i) = window xs i j := by
    rw [window_take xs i k (j - i) (by omega), Nat.add_sub_cancel' hij]
  have h2 : (window xs i k).drop (j - i) = window xs j k := by
    rw [window_drop, Nat.add_sub_cancel' hij]
  rw [← h1, ← h2, List.take_append_drop]

/-- A window that ends inside the first list does not see the second. -/
theorem window_append_left (xs ys : List α) {i j : ℕ} (h : j ≤ xs.length) :
    window (xs ++ ys) i j = window xs i j := by
  simp only [window, List.take_append_of_le_length h]

theorem window_take_store (xs : List α) {i j n : ℕ} (h : j ≤ n) :
    window (xs.take n) i j = window xs i j := by
  simp only [window, List.take_take, Nat.min_eq_left h]

theorem overwrite_length (xs : List α) (i : ℕ) (ys : List α) (h : i + ys.length ≤ xs.length) :
    (overwrite xs i ys).length = xs.length := by
  simp only [overwrite, List.length_append, List.length_take, List.length_drop]
  omega

theorem le_overwrite_length (xs : List α) (i : ℕ) (ys : List α) :
    xs.length ≤ (overwrite xs i ys).length := by
  simp only [overwrite, List.length_append, List.length_take, List.length_drop]
  omega

/-- A block written at the end of a window extends the window by that block. -/
theorem window_overwrite (xs : List α) {i j : ℕ} (ys : List α) (hij : i ≤ j)
    (hj : j + ys.length ≤ xs.length) :
    window (overwrite xs j ys) i (j + ys.length) = window xs i j ++ ys := by
  have hl : (xs.take j).length = j := by simp; omega
  have ht : (overwrite xs j ys).take (j + ys.length) = xs.take j ++ ys := by
    unfold overwrite
    apply List.take_left'
    simp [hl]
  rw [window, ht, List.drop_append_of_le_length (by omega), window]

end Armsy
