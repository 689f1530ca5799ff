import Mathlib.Tactic

/-! The abstract first-in first-out queue: everything that ever entered it, and
how much of that has been taken out again. What it holds is the rest. -/

namespace Armsy

variable {α : Type*}

structure Fifo (α : Type*) where
  entered : List α
  taken : ℕ
  taken_le : taken ≤ entered.length

namespace Fifo

def empty : Fifo α := ⟨[], 0, le_rfl⟩

def content (q : Fifo α) : List α := q.entered.drop q.taken

def enter (q : Fifo α) (xs : List α) : Fifo α where
  entered := q.entered ++ xs
  taken := q.taken
  taken_le := by
    rw [List.length_append]
    exact q.taken_le.trans (Nat.le_add_right _ _)

/-- Take out the `n` oldest elements, or all of them when there are fewer. -/
def remove (q : Fifo α) (n : ℕ) : Fifo α where
  entered := q.entered
  taken := q.taken + min n q.content.length
  taken_le := by
    have := q.taken_le
    simp only [content, List.length_drop]
    omega

@[simp] theorem content_enter (q : Fifo α) (xs : List α) :
    (q.enter xs).content = q.content ++ xs := by
  simp only [content, enter, List.drop_append_of_le_length q.taken_le]

@[simp] theorem content_remove (q : Fifo α) (n : ℕ) : (q.remove n).content = q.content.drop n := by
  have h : (q.remove n).content = q.content.drop (min n q.content.length) := by
    simp only [content, remove, List.drop_drop]
  rw [h]
  rcases Nat.le_total n q.content.length with hn | hn
  · rw [Nat.min_eq_left hn]
  · rw [Nat.min_eq_right hn, List.drop_length, List.drop_eq_nil_of_le hn]

end Fifo
end Armsy
