import Mathlib.Data.Int.CardIntervalMod
import Mathlib.Data.List.Rotate
import Mathlib.Tactic

/-! Round robin: a cursor that hands out the elements of a list one after the other and
starts over at the end. A full turn from any position is a permutation of the list, and
any number of turns is shared out as evenly as it can be. -/

namespace Armsy

variable {α : Type*}

/-- The `k` elements handed out from position `i` on. -/
def turns (xs : List α) (i k : ℕ) : List α :=
  (List.range k).filterMap fun j => xs[(i + j) % xs.length]?

@[simp] theorem turns_zero (xs : List α) (i : ℕ) : turns xs i 0 = [] := rfl

theorem turns_succ (xs : List α) (i k : ℕ) :
    turns xs i (k + 1) = turns xs i k ++ xs[(i + k) % xs.length]?.toList := by
  rw [turns, List.range_succ, List.filterMap_append]
  congr 1

variable {xs : List α}

theorem mem_of_mem_turns {i k : ℕ} {x : α} (h : x ∈ turns xs i k) : x ∈ xs := by
  simp only [turns, List.mem_filterMap] at h
  obtain ⟨j, -, hj⟩ := h
  exact List.mem_of_getElem? hj

theorem turns_eq_map (h : 0 < xs.length) (i k : ℕ) :
    turns xs i k = (List.range k).map fun j => xs.get ⟨(i + j) % xs.length, Nat.mod_lt _ h⟩ := by
  rw [turns, ← List.filterMap_eq_map]
  apply List.filterMap_congr
  intro j hj
  simp [Nat.mod_lt _ h]

theorem turns_length (h : 0 < xs.length) (i k : ℕ) : (turns xs i k).length = k := by
  rw [turns_eq_map h, List.length_map, List.length_range]

/-- One full turn is the list, rotated to the cursor. -/
theorem turns_full (xs : List α) (i : ℕ) : turns xs i xs.length = xs.rotate i := by
  rcases Nat.eq_zero_or_pos xs.length with hz | hpos
  · rw [List.length_eq_zero_iff.1 hz]
    simp
  · rw [turns_eq_map hpos]
    apply List.ext_getElem
    · simp
    · intro j hj hj'
      simp [List.getElem_rotate, Nat.add_comm]

theorem turns_perm (xs : List α) (i : ℕ) : (turns xs i xs.length).Perm xs := by
  rw [turns_full]
  exact List.rotate_perm xs i

/-- How often an element is handed out is how often the cursor comes by. -/
theorem turns_count_eq [DecidableEq α] (hx : xs.Nodup) {j : ℕ} (hj : j < xs.length) (k : ℕ) :
    (turns xs 0 k).count xs[j] = Nat.count (· ≡ j [MOD xs.length]) k := by
  have hpos : 0 < xs.length := by omega
  induction k with
  | zero => simp
  | succ k ih =>
    have hk := Nat.mod_lt k hpos
    have hsame : xs[k % xs.length] = xs[j] ↔ k ≡ j [MOD xs.length] := by
      rw [hx.getElem_inj_iff, Nat.ModEq, Nat.mod_eq_of_lt hj]
    rw [turns_succ, Nat.zero_add, List.getElem?_eq_getElem hk, Option.toList_some,
      List.count_append, ih, Nat.count_succ, List.count_singleton]
    simp only [beq_iff_eq, hsame]

/-- Of `k` turns from the start, every element gets `k / n`, and the first `k % n` elements
get one more. -/
theorem turns_count [DecidableEq α] (hx : xs.Nodup) {j : ℕ} (hj : j < xs.length) (k : ℕ) :
    (turns xs 0 k).count xs[j] = k / xs.length + if j < k % xs.length then 1 else 0 := by
  rw [turns_count_eq hx hj, Nat.count_modEq_card k (by omega), Nat.mod_eq_of_lt hj]

end Armsy
