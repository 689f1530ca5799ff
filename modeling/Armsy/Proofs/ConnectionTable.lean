import Armsy.Proofs.ConnectionNames

/-! The connection table through any run of accepts and removals: it has an entry for
exactly the connections whose removal has not run, each under a name of its own. -/

namespace Armsy
namespace ConnectionTable

open TcpServer (fullName fullName_injective Named)

variable {listenAddr : InetAddress} {name : List Char} {s s' : ConnectionTable} {e : TableEvent}
  {tr : List (Transition ConnectionTable TableEvent)}

/-- The connection whose `removeConnectionInLoop` an event runs. -/
def removes (s : ConnectionTable) : TableEvent → Option ℕ
  | .removeConnectionNow c => some c
  | .removeConnectionInLoop i => s.queued[i]?
  | _ => none

/-- The step takes no entry away but that of the connection it removes. -/
def Keeps (τ : Transition ConnectionTable TableEvent) : Prop :=
  ∀ n c, τ.pre.server.connections n = some c → removes τ.pre τ.event ≠ some c →
    τ.post.server.connections n = some c

structure Inv (listenAddr : InetAddress) (name : List Char) (s : ConnectionTable) : Prop where
  named : Named listenAddr name s.server
  counter : s.server.nextConnId = s.names.length + 1
  names : s.names = (List.range s.names.length).map fun c => fullName listenAddr name (c + 1)
  removed : ∀ c ∈ s.removed, c < s.names.length
  table : ∀ n c, s.server.connections n = some c ↔
    c < s.names.length ∧ fullName listenAddr name (c + 1) = n ∧ c ∉ s.removed

theorem init_inv (listenAddr : InetAddress) (name : List Char) :
    Inv listenAddr name (init listenAddr name) where
  named := TcpServer.new_named listenAddr name
  counter := rfl
  names := rfl
  removed := by simp [init]
  table := by simp [init, TcpServer.new]

theorem Inv.getElem? (hi : Inv listenAddr name s) (c : ℕ) (n : List Char) :
    s.names[c]? = some n ↔ c < s.names.length ∧ fullName listenAddr name (c + 1) = n := by
  rw [hi.names]
  simp [List.getElem?_eq_some_iff]

/-- The name of the next connection is in use for none. -/
theorem Inv.fresh (hi : Inv listenAddr name s) : s.server.connections s.server.connName = none := by
  by_contra hne
  obtain ⟨c, hc⟩ := Option.ne_none_iff_exists'.1 hne
  obtain ⟨hlt, hn, -⟩ := (hi.table _ _).1 hc
  rw [hi.named.connName, hi.counter] at hn
  have := fullName_injective listenAddr name hn
  omega

theorem Inv.requeue (hi : Inv listenAddr name s) (q : List ℕ) :
    Inv listenAddr name { s with queued := q } :=
  ⟨hi.named, hi.counter, hi.names, hi.removed, hi.table⟩

/-! ### One step -/

theorem newConnection_inv (hi : Inv listenAddr name s)
    (h : s.step .newConnection = some s') : Inv listenAddr name s' := by
  simp only [step, Option.map_eq_some_iff] at h
  obtain ⟨server, hs, rfl⟩ := h
  have hname : s.server.connName = fullName listenAddr name (s.names.length + 1) := by
    rw [hi.named.connName, hi.counter]
  have hnamed := hi.named.newConnection hs
  obtain ⟨-, rfl⟩ := TcpServer.newConnection_cases hs
  refine ⟨hnamed, by simp [hi.counter], ?_, ?_, ?_⟩
  · simp only [List.length_append, List.length_singleton, List.range_succ, List.map_append,
      List.map_singleton, hname]
    rw [← hi.names]
  · intro c hc
    simpa using (hi.removed c hc).trans (Nat.lt_succ_self _)
  · intro n c
    simp only [List.length_append, List.length_singleton]
    by_cases hn : n = s.server.connName
    · subst hn
      rw [Function.update_self, Option.some.injEq, hname]
      constructor
      · rintro rfl
        exact ⟨by omega, rfl, fun hc => absurd (hi.removed _ hc) (by omega)⟩
      · intro h
        have := fullName_injective listenAddr name h.2.1
        omega
    · rw [Function.update_of_ne hn, hi.table]
      refine and_congr_left ?_
      rintro ⟨rfl, -⟩
      have : c ≠ s.names.length := by
        rintro rfl
        exact hn hname.symm
      omega

theorem removeConnectionInLoop_inv {c : ℕ} (hi : Inv listenAddr name s)
    (h : s.removeConnectionInLoop c = some s') : Inv listenAddr name s' := by
  simp only [removeConnectionInLoop, Option.map_eq_some_iff] at h
  obtain ⟨n, hn, rfl⟩ := h
  obtain ⟨hlt, rfl⟩ := (hi.getElem? c n).1 hn
  refine ⟨hi.named.erase _, hi.counter, hi.names, ?_, ?_⟩
  · intro d hd
    rcases List.mem_cons.1 hd with rfl | hd
    · exact hlt
    · exact hi.removed d hd
  · intro m d
    simp only [TcpServer.erase, List.mem_cons, not_or]
    by_cases hm : m = fullName listenAddr name (c + 1)
    · subst hm
      rw [Function.update_self]
      refine iff_of_false (by simp) ?_
      rintro ⟨-, hd, hne, -⟩
      exact hne (Nat.succ_injective (fullName_injective listenAddr name hd))
    · rw [Function.update_of_ne hm, hi.table]
      have hne (hd : fullName listenAddr name (d + 1) = m) : d ≠ c := by
        rintro rfl
        exact hm hd.symm
      tauto

theorem step_inv (hi : Inv listenAddr name s) (h : s.step e = some s') :
    Inv listenAddr name s' := by
  cases e with
  | newConnection => exact newConnection_inv hi h
  | removeConnection c =>
    simp only [step] at h
    split_ifs at h
    cases h
    exact hi.requeue _
  | removeConnectionNow c => exact removeConnectionInLoop_inv hi h
  | removeConnectionInLoop i =>
    simp only [step, Option.bind_eq_some_iff] at h
    obtain ⟨c, -, h⟩ := h
    exact removeConnectionInLoop_inv (hi.requeue _) h

theorem removeConnectionInLoop_keeps {c d : ℕ} {n : List Char} (hi : Inv listenAddr name s)
    (h : s.removeConnectionInLoop c = some s') (hn : s.server.connections n = some d)
    (hne : c ≠ d) : s'.server.connections n = some d := by
  simp only [removeConnectionInLoop, Option.map_eq_some_iff] at h
  obtain ⟨m, hm, rfl⟩ := h
  obtain ⟨-, rfl⟩ := (hi.getElem? c m).1 hm
  obtain ⟨-, rfl, -⟩ := (hi.table n d).1 hn
  have hname : fullName listenAddr name (d + 1) ≠ fullName listenAddr name (c + 1) := by
    intro heq
    exact hne (Nat.succ_injective (fullName_injective listenAddr name heq)).symm
  exact (Function.update_of_ne hname ..).trans hn

theorem step_keeps (hi : Inv listenAddr name s) (h : s.step e = some s') : Keeps ⟨s, e, s'⟩ := by
  intro n d hn hne
  cases e with
  | newConnection =>
    simp only [step, Option.map_eq_some_iff] at h
    obtain ⟨server, hs, rfl⟩ := h
    obtain ⟨-, rfl⟩ := TcpServer.newConnection_cases hs
    have hname : n ≠ s.server.connName := by
      rintro rfl
      simp [hi.fresh] at hn
    exact (Function.update_of_ne hname ..).trans hn
  | removeConnection c =>
    simp only [step] at h
    split_ifs at h
    cases h
    exact hn
  | removeConnectionNow c =>
    exact removeConnectionInLoop_keeps hi h hn fun hc => hne (congrArg some hc)
  | removeConnectionInLoop i =>
    simp only [step, Option.bind_eq_some_iff] at h
    obtain ⟨c, hc, h⟩ := h
    refine removeConnectionInLoop_keeps (hi.requeue _) h hn ?_
    rintro rfl
    exact hne hc

/-! ### Runs -/

theorem removeConnectionInLoop_names {c : ℕ} (h : s.removeConnectionInLoop c = some s') :
    s'.names = s.names := by
  simp only [removeConnectionInLoop, Option.map_eq_some_iff] at h
  obtain ⟨-, -, rfl⟩ := h
  rfl

theorem removeConnectionInLoop_removed {c : ℕ} (h : s.removeConnectionInLoop c = some s') :
    s'.removed = c :: s.removed := by
  simp only [removeConnectionInLoop, Option.map_eq_some_iff] at h
  obtain ⟨-, -, rfl⟩ := h
  rfl

theorem step_removed (h : s.step e = some s') (c : ℕ) :
    c ∈ s'.removed ↔ c ∈ s.removed ∨ removes s e = some c := by
  cases e with
  | newConnection =>
    simp only [step, Option.map_eq_some_iff] at h
    obtain ⟨server, -, rfl⟩ := h
    simp [removes]
  | removeConnection d =>
    simp only [step] at h
    split_ifs at h
    cases h
    simp [removes]
  | removeConnectionNow d =>
    rw [removeConnectionInLoop_removed h]
    simp [removes, eq_comm, or_comm]
  | removeConnectionInLoop i =>
    simp only [step, Option.bind_eq_some_iff] at h
    obtain ⟨d, hd, h⟩ := h
    rw [removeConnectionInLoop_removed h]
    simp [removes, hd, eq_comm, or_comm]

/-- The removals a state counts are those of the run's own events. -/
theorem removed_iff (h : Run step (init listenAddr name) tr s) (c : ℕ) :
    c ∈ s.removed ↔ ∃ τ ∈ tr, removes τ.pre τ.event = some c :=
  h.exists_iff (P := fun s => c ∈ s.removed) (by simp [init]) fun _ _ _ hst => step_removed hst c

theorem step_names_length (h : s.step e = some s') :
    s'.names.length = s.names.length + if e = .newConnection then 1 else 0 := by
  cases e with
  | newConnection =>
    simp only [step, Option.map_eq_some_iff] at h
    obtain ⟨server, -, rfl⟩ := h
    simp
  | removeConnection d =>
    simp only [step] at h
    split_ifs at h
    cases h
    simp
  | removeConnectionNow d => simp [removeConnectionInLoop_names h]
  | removeConnectionInLoop i =>
    simp only [step, Option.bind_eq_some_iff] at h
    obtain ⟨d, -, h⟩ := h
    simp [removeConnectionInLoop_names h]

/-- Every accept of the run has left a name. -/
theorem names_length (h : Run step (init listenAddr name) tr s) :
    s.names.length = tr.countP (fun τ => τ.event = .newConnection) := by
  induction h with
  | nil => rfl
  | snoc _ hst ih =>
    rw [step_names_length hst, ih, List.countP_append, List.countP_singleton]
    simp

/-- In every run each accept has a name, the names are printed in full and pairwise distinct,
the table maps exactly the names of the connections that no event of the run removes, each to
its own connection, and no step takes away the entry of a connection that it does not remove. -/
theorem connection_table_exact (h : Run step (init listenAddr name) tr s) :
    s.names.length = tr.countP (fun τ => τ.event = .newConnection) ∧
    (∀ c n, s.names[c]? = some n → n = fullName listenAddr name (c + 1)) ∧ s.names.Nodup ∧
    (∀ n c, s.server.connections n = some c ↔
      s.names[c]? = some n ∧ ∀ τ ∈ tr, removes τ.pre τ.event ≠ some c) ∧
    ∀ τ ∈ tr, Keeps τ := by
  have hi := h.invariant (init_inv listenAddr name) fun _ _ _ => step_inv
  refine ⟨names_length h, fun c n hn => ((hi.getElem? c n).1 hn).2.symm, ?_, ?_, ?_⟩
  · rw [hi.names]
    refine List.Nodup.map ?_ List.nodup_range
    exact (fullName_injective listenAddr name).comp Nat.succ_injective
  · intro n c
    rw [hi.table, hi.getElem?, and_assoc, removed_iff h]
    simp only [not_exists, not_and, ne_eq]
  · intro τ hτ
    obtain ⟨tr₁, tr₂, -, hr, hst⟩ := h.split hτ
    exact step_keeps (hr.invariant (init_inv listenAddr name) fun _ _ _ => step_inv) hst

/-- Two accepts, a connection closed twice, and an accept between its two removals: its
entry is gone, those of the two others stand. -/
theorem connection_table_exact_twice : ∃ tr s,
    Run step (init ⟨(127, 0, 0, 1), (31, 144)⟩ ['a']) tr s ∧
    tr.map Transition.event = [.newConnection, .newConnection, .removeConnection 0,
      .removeConnection 0, .removeConnectionInLoop 1, .newConnection,
      .removeConnectionInLoop 0] ∧
    (s.names = ["a-127.0.0.1:8080#1".toList, "a-127.0.0.1:8080#2".toList,
        "a-127.0.0.1:8080#3".toList] ∧
      s.names.map s.server.connections = [none, some 1, some 2]) ∧
    s.names.Nodup ∧
    (∀ n c, s.server.connections n = some c ↔
      s.names[c]? = some n ∧ ∀ τ ∈ tr, removes τ.pre τ.event ≠ some c) ∧
    ∀ τ ∈ tr, Keeps τ := by
  obtain ⟨tr, s, hr, he, hs⟩ := exists_run step (init ⟨(127, 0, 0, 1), (31, 144)⟩ ['a'])
    [.newConnection, .newConnection, .removeConnection 0, .removeConnection 0,
      .removeConnectionInLoop 1, .newConnection, .removeConnectionInLoop 0]
    (P := fun _ s => s.names = ["a-127.0.0.1:8080#1".toList, "a-127.0.0.1:8080#2".toList,
        "a-127.0.0.1:8080#3".toList] ∧
      s.names.map s.server.connections = [none, some 1, some 2]) (by decide)
  exact ⟨tr, s, hr, he, hs, (connection_table_exact hr).2.2⟩

/-- The first connection of a server on 127.0.0.1:8080. -/
example : (TcpServer.new ⟨(127, 0, 0, 1), (31, 144)⟩ "echo".toList).connName =
    "echo-127.0.0.1:8080#1".toList := by decide

end ConnectionTable
end Armsy
