import Armsy.Lib.RoundRobin
import Armsy.Model.EventLoopThreadPool

/-! What `getNextLoop` hands out: the loops of the pool round robin, the base loop alone
when the pool has no threads. -/

namespace Armsy
namespace EventLoopThreadPool

/-- The loops that a pool of `n` threads hands out. -/
def handedOut (n : ℕ) : List PoolLoop :=
  if n = 0 then [.base] else (List.range n).map .thread

/-- The pool of `n` threads after `c` calls of `getNextLoop`. -/
structure At (n c : ℕ) (p : EventLoopThreadPool) : Prop where
  loops : p.loops = (List.range n).map .thread
  next : 0 < n → p.next = (c % n : ℕ)

variable {n c : ℕ} {p : EventLoopThreadPool}

theorem handedOut_pos (h : 0 < n) : handedOut n = (List.range n).map .thread := by
  rw [handedOut, if_neg h.ne']

theorem handedOut_length (n : ℕ) : (handedOut n).length = max n 1 := by
  unfold handedOut
  split_ifs with h
  · simp [h]
  · simp
    omega

theorem handedOut_nodup (n : ℕ) : (handedOut n).Nodup := by
  unfold handedOut
  split_ifs
  · simp
  · refine (List.nodup_range).map ?_
    intro i j h
    exact PoolLoop.thread.inj h

theorem ofSize_at (n : ℕ) : At n 0 (ofSize n) := by
  constructor
  · simp [ofSize, start, setPoolSize, new]
  · simp [ofSize, start, setPoolSize, new]

/-- The cursor fits an `int`, so neither conversion changes it. -/
theorem sizeOfInt_natCast {i : ℕ} (h : i < 2 ^ 64) : sizeOfInt i = i := by
  unfold sizeOfInt
  omega

theorem intOfSize_of_lt {i : ℕ} (h : i < 2 ^ 31) : intOfSize i = i := by
  unfold intOfSize
  rw [Int.bmod_eq_of_le] <;> omega

/-- One call: it stays inside `loops_`, and moves the cursor one further. -/
theorem getNextLoop_spec (hn : n < 2 ^ 31) (h : At n c p) :
    ∃ l p', p.getNextLoop = some (l, p') ∧
      (handedOut n)[c % (handedOut n).length]? = some l ∧ At n (c + 1) p' := by
  rcases Nat.eq_zero_or_pos n with rfl | hpos
  · have hnil : p.loops = [] := by simpa using h.loops
    refine ⟨.base, p, ?_, by simp [handedOut, Nat.mod_one], ⟨h.loops, by simp⟩⟩
    simp [getNextLoop, hnil]
  · have hlen : p.loops.length = n := by simp [h.loops]
    have hc : c % n < n := Nat.mod_lt c hpos
    have hnext : p.next = (c % n : ℕ) := h.next hpos
    have hne : p.loops.isEmpty = false := by
      rw [List.isEmpty_eq_false_iff, ← List.length_pos_iff]
      omega
    have hget : p.loops[sizeOfInt p.next]? = some (.thread (c % n)) := by
      rw [hnext, sizeOfInt_natCast (by omega), h.loops]
      simp [hc]
    refine ⟨.thread (c % n),
      { p with next := intOfSize (sizeOfInt (p.next + 1) % p.loops.length) }, ?_, ?_, h.loops, ?_⟩
    · rw [getNextLoop, hne, if_neg Bool.false_ne_true, hget, Option.bind_some, if_pos]
      omega
    · rw [handedOut_pos hpos]
      simp [hc]
    · intro _
      have hsucc : sizeOfInt (p.next + 1) = c % n + 1 := by
        rw [hnext]
        exact sizeOfInt_natCast (i := c % n + 1) (by omega)
      have hmod : (c % n + 1) % n < n := Nat.mod_lt _ hpos
      simp only [hsucc, hlen]
      rw [intOfSize_of_lt (by omega), Nat.mod_add_mod]

/-- Any number of calls hands out as many turns round the pool. -/
theorem getNextLoops_spec (hn : n < 2 ^ 31) (h : At n c p) (k : ℕ) :
    ∃ p', p.getNextLoops k = some (turns (handedOut n) c k, p') ∧ At n (c + k) p' := by
  induction k with
  | zero => exact ⟨p, rfl, h⟩
  | succ k ih =>
    obtain ⟨p₁, hk, h₁⟩ := ih
    obtain ⟨l, p₂, hl, hget, h₂⟩ := getNextLoop_spec hn h₁
    refine ⟨p₂, ?_, h₂⟩
    rw [getNextLoops, hk, Option.bind_some, hl, turns_succ, hget]
    rfl

end EventLoopThreadPool
end Armsy
