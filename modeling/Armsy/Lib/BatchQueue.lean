import Mathlib.Tactic

/-! A queue whose consumer takes everything out at once and then works through
that batch while new elements keep arriving behind it. -/

namespace Armsy

variable {α : Type*}

structure BatchQueue (α : Type*) where
  pending : List α
  batch : List α

namespace BatchQueue

def empty : BatchQueue α := ⟨[], []⟩

def push (q : BatchQueue α) (a : α) : BatchQueue α := { q with pending := q.pending ++ [a] }

/-- The consumer's new batch is everything pending; what it held before is dropped. -/
def swap (q : BatchQueue α) : BatchQueue α := ⟨[], q.pending⟩

def pop (q : BatchQueue α) : BatchQueue α := { q with batch := q.batch.tail }

/-- What is still to be worked through, oldest first. -/
def waiting (q : BatchQueue α) : List α := q.batch ++ q.pending

@[simp] theorem waiting_empty : (empty : BatchQueue α).waiting = [] := rfl

@[simp] theorem waiting_push (q : BatchQueue α) (a : α) :
    (q.push a).waiting = q.waiting ++ [a] := by
  simp [waiting, push]

theorem waiting_swap (q : BatchQueue α) (h : q.batch = []) : q.swap.waiting = q.waiting := by
  simp [waiting, swap, h]

theorem waiting_pop (q : BatchQueue α) {a : α} {rest : List α} (h : q.batch = a :: rest) :
    q.waiting = a :: q.pop.waiting := by
  simp [waiting, pop, h]

end BatchQueue
end Armsy
