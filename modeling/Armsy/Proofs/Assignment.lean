import Armsy.Proofs.PoolSpec
import Armsy.Proofs.ServerSpec

/-! The loops that connections are assigned to, against the loops the pool reports, and
how evenly `newConnection` spreads connections over them. -/

namespace Armsy
namespace EventLoopThreadPool

variable {n c : ℕ} {p : EventLoopThreadPool}

/-- The next `max(n, 1)` loops that `getNextLoop` hands out are those of `getAllLoops`. -/
def ViewsAgree (n : ℕ) (p : EventLoopThreadPool) : Prop :=
  ∃ ls p', p.getNextLoops (max n 1) = some (ls, p') ∧ ls.Perm p.getAllLoops

/-- `getAllLoops` has its two branches the wrong way round. -/
theorem getAllLoops_eq (h : At n c p) : p.getAllLoops = if n = 0 then [] else [.base] := by
  by_cases hn : n = 0
  · have hnil : p.loops = [] := by simp [h.loops, hn]
    simp [getAllLoops, hnil, hn]
  · have hne : p.loops ≠ [] := by simp [h.loops, hn]
    simp [getAllLoops, hne, hn]

/-- A full turn from any position of the cursor hands out every loop once. -/
theorem handedOut_perm (hn : n < 2 ^ 31) (h : At n c p) :
    ∃ ls p', p.getNextLoops (max n 1) = some (ls, p') ∧ ls.Perm (handedOut n) := by
  obtain ⟨p', hls, -⟩ := getNextLoops_spec hn h (max n 1)
  refine ⟨_, p', hls, ?_⟩
  have hperm := turns_perm (handedOut n) c
  rwa [handedOut_length] at hperm

theorem handedOut_not_perm (h : At n c p) : ¬ (handedOut n).Perm p.getAllLoops := by
  rw [getAllLoops_eq h]
  intro hp
  by_cases h0 : n = 0
  · rw [if_pos h0] at hp
    have hlen := hp.length_eq
    rw [handedOut_length] at hlen
    simp at hlen
  · rw [if_neg h0, List.perm_singleton] at hp
    have hmem : PoolLoop.base ∈ handedOut n := by simp [hp]
    rw [handedOut, if_neg h0] at hmem
    simp at hmem

/-- For every pool size and after any number of earlier calls, the next `max(n, 1)` loops
are a permutation of the loops of the pool, and never one of `getAllLoops()`. -/
theorem views_disagree {n : ℕ} (hn : n < 2 ^ 31) (m : ℕ) :
    ∃ earlier p, (ofSize n).getNextLoops m = some (earlier, p) ∧ ¬ ViewsAgree n p ∧
      ∃ ls p', p.getNextLoops (max n 1) = some (ls, p') ∧ ls.Perm (handedOut n) := by
  obtain ⟨p, hp, hat⟩ := getNextLoops_spec hn (ofSize_at n) m
  obtain ⟨ls, p', hls, hperm⟩ := handedOut_perm hn hat
  refine ⟨_, p, hp, ?_, ls, p', hls, hperm⟩
  rintro ⟨ls', p'', hls', hall⟩
  rw [hls, Option.some.injEq, Prod.mk.injEq] at hls'
  obtain ⟨rfl, -⟩ := hls'
  exact handedOut_not_perm hat (hperm.symm.trans hall)

theorem views_disagree_three : ∃ earlier p, (ofSize 3).getNextLoops 4 = some (earlier, p) ∧
    ¬ ViewsAgree 3 p ∧
    ∃ ls p', p.getNextLoops (max 3 1) = some (ls, p') ∧ ls.Perm (handedOut 3) :=
  views_disagree (by norm_num) 4

/-- With two threads `getNextLoop` hands out their loops and `getAllLoops` reports the base
loop; with none it hands out the base loop, and `getAllLoops` reports no loop at all. -/
theorem getAllLoops_inverted :
    ((ofSize 2).getNextLoops 2).map Prod.fst = some [.thread 0, .thread 1] ∧
    (ofSize 2).getAllLoops = [.base] ∧
    ((ofSize 0).getNextLoops 1).map Prod.fst = some [.base] ∧ (ofSize 0).getAllLoops = [] ∧
    ¬ ViewsAgree 2 (ofSize 2) := by
  have htwo : ((ofSize 2).getNextLoops 2).map Prod.fst = some [.thread 0, .thread 1] := by decide
  have hall : (ofSize 2).getAllLoops = [.base] := by decide
  refine ⟨htwo, hall, by decide, by decide, ?_⟩
  rintro ⟨ls, p', hls, hperm⟩
  have hls' : (ofSize 2).getNextLoops 2 = some (ls, p') := hls
  have hfst : ls = [.thread 0, .thread 1] := by simpa [hls'] using htwo
  rw [hall, hfst] at hperm
  exact absurd hperm (by decide)

end EventLoopThreadPool

namespace PooledServer

open EventLoopThreadPool

/-- Connections shared out over the loops of `n` threads: each loop has the quotient of
their number by `n`, rounded down or up, and no two differ by more than one. -/
structure Fair (n : ℕ) (ls : List PoolLoop) : Prop where
  onPool : ∀ l ∈ ls, ∃ i < n, l = .thread i
  floor : ∀ i < n, ls.length / n ≤ ls.count (.thread i)
  ceil : ∀ i < n, ls.count (.thread i) ≤ (ls.length + n - 1) / n
  even : ∀ i < n, ∀ j < n, ls.count (.thread i) ≤ ls.count (.thread j) + 1

variable {n k : ℕ} {listenAddr : InetAddress} {name : List Char} {s : PooledServer}
  {tr : List (Transition PooledServer Unit)}

theorem turns_handedOut_count {i : ℕ} (hi : i < n) (k : ℕ) :
    (turns (handedOut n) 0 k).count (.thread i) = k / n + if i < k % n then 1 else 0 := by
  have hpos : 0 < n := by omega
  have hlen : (handedOut n).length = n := by
    rw [handedOut_length]
    omega
  have hi' : i < (handedOut n).length := by omega
  have hget : (handedOut n)[i] = .thread i := by simp [handedOut_pos hpos]
  rw [← hget, turns_count (handedOut_nodup n) hi', hlen]

theorem turns_fair (hn : 0 < n) (k : ℕ) : Fair n (turns (handedOut n) 0 k) := by
  have hlen : (turns (handedOut n) 0 k).length = k := by
    apply turns_length
    rw [handedOut_length]
    omega
  constructor
  · intro l hl
    have hmem := mem_of_mem_turns hl
    rw [handedOut_pos hn, List.mem_map] at hmem
    obtain ⟨i, hi, rfl⟩ := hmem
    exact ⟨i, List.mem_range.1 hi, rfl⟩
  · intro i hi
    rw [turns_handedOut_count hi, hlen]
    omega
  · intro i hi
    rw [turns_handedOut_count hi, hlen]
    split_ifs with h
    · rw [Nat.le_div_iff_mul_le hn, Nat.add_mul, one_mul]
      have hk := Nat.div_add_mod' k n
      omega
    · exact Nat.div_le_div_right (by omega)
  · intro i hi j hj
    rw [turns_handedOut_count hi, turns_handedOut_count hj]
    split_ifs <;> omega

/-- Every connection takes the next loop of the pool. -/
theorem run_spec (hn : n < 2 ^ 31) (h : Run step (init listenAddr name n) tr s) :
    At n tr.length s.pool ∧ s.assigned = turns (handedOut n) 0 tr.length := by
  induction h with
  | nil => exact ⟨ofSize_at n, rfl⟩
  | @snoc tr s s' e _ hst ih =>
    obtain ⟨hat, hassigned⟩ := ih
    obtain ⟨l, p', hl, hget, hat'⟩ := getNextLoop_spec hn hat
    simp only [step, newConnection, hl, Option.bind_some, Option.map_eq_some_iff] at hst
    obtain ⟨server, -, rfl⟩ := hst
    rw [List.length_append, List.length_singleton]
    refine ⟨hat', ?_⟩
    rw [turns_succ, ← hassigned, Nat.zero_add, hget]
    rfl

/-- After any number of calls of `newConnection`, `getNextLoop` stays inside `loops_`, and
the connections are shared out evenly over the threads of the pool; without threads all
are on the base loop. -/
theorem newConnection_fair (hn : n < 2 ^ 31) (h : Run step (init listenAddr name n) tr s) :
    s.assigned.length = tr.length ∧ s.pool.getNextLoop.isSome = true ∧
      (0 < n → Fair n s.assigned) ∧ (n = 0 → ∀ l ∈ s.assigned, l = .base) := by
  obtain ⟨hat, hassigned⟩ := run_spec hn h
  obtain ⟨l, p', hl, -, -⟩ := getNextLoop_spec hn hat
  rw [hassigned, hl]
  refine ⟨?_, rfl, fun hpos => turns_fair hpos _, ?_⟩
  · apply turns_length
    rw [handedOut_length]
    omega
  · rintro rfl l hl
    have hmem := mem_of_mem_turns hl
    simpa [handedOut] using hmem

/-- Five connections on three threads. -/
theorem newConnection_fair_three : ∃ tr s,
    Run step (init ⟨(127, 0, 0, 1), (31, 64)⟩ ['s'] 3) tr s ∧
    tr.map Transition.event = [(), (), (), (), ()] ∧
    s.assigned = [.thread 0, .thread 1, .thread 2, .thread 0, .thread 1] ∧
    Fair 3 s.assigned := by
  obtain ⟨tr, s, hr, he, hs⟩ := exists_run step (init ⟨(127, 0, 0, 1), (31, 64)⟩ ['s'] 3)
    [(), (), (), (), ()]
    (P := fun _ s => s.assigned = [.thread 0, .thread 1, .thread 2, .thread 0, .thread 1])
    (by decide)
  exact ⟨tr, s, hr, he, hs, (newConnection_fair (by norm_num) hr).2.2.1 (by norm_num)⟩

end PooledServer

/-! ### Over the runs of a whole server -/

namespace Server

open EventLoopThreadPool

/-- The loop that a server numbers `l`. -/
def poolLoop : ℕ → PoolLoop
  | 0 => .base
  | l + 1 => .thread l

/-- The loops of the connections accepted so far, oldest first. -/
def assigned (s : Server) : List PoolLoop :=
  (List.range s.accepted).map fun c => poolLoop (s.conns c).loop

/-- The server's cursor is that of a pool of `n` threads, and the loops it has given to
its connections are those that the pool hands out. -/
structure DrawsFrom (n : ℕ) (s : Server) : Prop where
  threads : s.threads = n
  next : 0 < n → s.next = s.accepted % n
  assigned : s.assigned = turns (handedOut n) 0 s.accepted

variable {n : ℕ} {s s' : Server} {e : ServerEvent}

/-- A step leaves the connections it finds on their loops. -/
theorem assigned_kept (h : Stepped s e s') :
    ((List.range s.accepted).map fun c => poolLoop (s'.conns c).loop) = s.assigned := by
  apply List.map_congr_left
  intro c hc
  rw [(h.name_eq (List.mem_range.1 hc)).2]

/-- `nextLoop` is the loop that the pool hands out at the server's cursor. -/
theorem handedOut_nextLoop (h : DrawsFrom n s) :
    (handedOut n)[s.accepted % (handedOut n).length]? = some (poolLoop s.nextLoop) := by
  rcases Nat.eq_zero_or_pos n with rfl | hpos
  · simp [handedOut, nextLoop, h.threads, poolLoop, Nat.mod_one]
  · have hlt : s.accepted % n < n := Nat.mod_lt _ hpos
    have hlen : (handedOut n).length = n := by
      rw [handedOut_length]
      omega
    rw [hlen, handedOut_pos hpos, nextLoop, h.threads, if_neg hpos.ne', h.next hpos]
    simp [hlt, poolLoop]

theorem assigned_accept {self fd : ℕ} (h : Stepped s (.accept self fd) s') :
    s'.assigned = s.assigned ++ [poolLoop s.nextLoop] := by
  have hacc : s'.accepted = s.accepted + 1 := h.accepted
  rw [assigned, hacc, List.range_succ, List.map_append, assigned_kept h, List.map_singleton,
    h.conns_accept]
  rfl

theorem drawsFrom_step (hi : DrawsFrom n s) (hs : s.step e = some s') : DrawsFrom n s' := by
  have h := step_cases hs
  by_cases ha : ∃ self fd, e = .accept self fd
  · obtain ⟨self, fd, rfl⟩ := ha
    have hacc : s'.accepted = s.accepted + 1 := h.accepted
    refine ⟨h.threads.trans hi.threads, ?_, ?_⟩
    · intro hpos
      rw [h.next, nextCursor, hi.threads, if_neg hpos.ne', hi.next hpos, hacc, Nat.mod_add_mod]
    · rw [assigned_accept h, hi.assigned, hacc, turns_succ, Nat.zero_add, handedOut_nextLoop hi]
      rfl
  · have hacc : s'.accepted = s.accepted ∧ s'.next = s.next := by
      rw [h.accepted, h.next]
      cases e with
      | accept self fd => exact absurd ⟨self, fd, rfl⟩ ha
      | _ => exact ⟨rfl, rfl⟩
    refine ⟨h.threads.trans hi.threads, ?_, ?_⟩
    · rw [hacc.1, hacc.2]
      exact hi.next
    · rw [assigned, hacc.1, assigned_kept h]
      exact hi.assigned

/-- Whatever else a server does in between, it spreads its connections over the loops as
`getNextLoop` hands them out. -/
theorem assigned_eq_getNextLoops {listenAddr : InetAddress} {name : List Char}
    {tr : List (Transition Server ServerEvent)} (hn : n < 2 ^ 31)
    (h : Run step (init listenAddr name n) tr s) :
    ∃ p, (ofSize n).getNextLoops s.accepted = some (s.assigned, p) ∧
      (0 < n → PooledServer.Fair n s.assigned) := by
  have hd : DrawsFrom n s := by
    refine Run.invariant ⟨rfl, by simp [init], rfl⟩ ?_ h
    exact fun s e s' hi hs => drawsFrom_step hi hs
  obtain ⟨p, hp, -⟩ := getNextLoops_spec hn (ofSize_at n) s.accepted
  rw [hd.assigned]
  exact ⟨p, hp, fun hpos => PooledServer.turns_fair hpos _⟩

end Server
end Armsy
