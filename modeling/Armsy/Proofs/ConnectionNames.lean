import Armsy.Model.TcpServer

/-! The names of the connections of one server, and the table under them. No name is
cut off by the buffer it is printed into, so that names differ as the counter does. -/

namespace Armsy

/-! ### Formatted names -/

theorem decimal_injective : Function.Injective decimal := by
  intro m n h
  rw [← Nat.ofDigitChars_ten_toDigits (n := m), ← Nat.ofDigitChars_ten_toDigits (n := n)]
  exact congrArg (Nat.ofDigitChars 10 · 0) h

theorem length_decimal {n k : ℕ} (hk : 0 < k) (h : n < 10 ^ k) : (decimal n).length ≤ k :=
  (Nat.length_toDigits_le_iff (by norm_num) hk).2 h

theorem length_decimal_byte (b : Byte) : (decimal b.toNat).length ≤ 3 :=
  length_decimal (by norm_num) (b.toNat_lt.trans (by norm_num))

theorem ntohs_lt (p : Byte × Byte) : ntohs p < 2 ^ 16 := by
  have h₁ := p.1.toNat_lt
  have h₂ := p.2.toNat_lt
  unfold ntohs
  omega

theorem InetAddress.length_getIpAndPort (a : InetAddress) : a.getIpAndPort.length ≤ 21 := by
  have h₁ := length_decimal_byte a.sinAddr.1
  have h₂ := length_decimal_byte a.sinAddr.2.1
  have h₃ := length_decimal_byte a.sinAddr.2.2.1
  have h₄ := length_decimal_byte a.sinAddr.2.2.2
  have hp : (decimal (ntohs a.sinPort)).length ≤ 5 :=
    length_decimal (by norm_num) ((ntohs_lt _).trans (by norm_num))
  simp only [getIpAndPort, inetNtop, List.length_append, List.length_cons]
  omega

namespace TcpServer

variable {s s' : TcpServer} {c : ℕ} {listenAddr : InetAddress} {name : List Char}

/-- The name of the connection with the number `id`, as it is meant. -/
def fullName (listenAddr : InetAddress) (name : List Char) (id : ℕ) : List Char :=
  name ++ ('-' :: listenAddr.getIpAndPort ++ '#' :: decimal id)

theorem fullName_injective (listenAddr : InetAddress) (name : List Char) :
    Function.Injective (fullName listenAddr name) := by
  intro m n h
  simp only [fullName, List.append_cancel_left_eq, List.cons.injEq, true_and] at h
  exact decimal_injective h

/-- What the server is, whatever its table holds. -/
structure Named (listenAddr : InetAddress) (name : List Char) (s : TcpServer) : Prop where
  ipPort : s.ipPort = listenAddr.getIpAndPort
  name : s.name = name
  counter : s.nextConnId ≤ 2 ^ 31 - 1

theorem new_named (listenAddr : InetAddress) (name : List Char) :
    Named listenAddr name (new listenAddr name) := ⟨rfl, rfl, by norm_num [new]⟩

/-- The longest name is 33 characters longer than the server's. -/
theorem Named.connName (h : Named listenAddr name s) :
    s.connName = fullName listenAddr name s.nextConnId := by
  have hip := listenAddr.length_getIpAndPort
  have hid : (decimal s.nextConnId).length ≤ 10 :=
    length_decimal (by norm_num) (h.counter.trans_lt (by norm_num))
  rw [TcpServer.connName, fullName, h.name, h.ipPort, snprintf, List.take_of_length_le]
  simp only [List.length_append, List.length_cons]
  omega

theorem newConnection_cases (h : s.newConnection c = some s') :
    s.nextConnId < 2 ^ 31 - 1 ∧ s' = { s with
      nextConnId := s.nextConnId + 1
      connections := Function.update s.connections s.connName (some c) } := by
  unfold newConnection at h
  split_ifs at h with hlt
  exact ⟨hlt, (Option.some.inj h).symm⟩

theorem Named.newConnection (hn : Named listenAddr name s) (h : s.newConnection c = some s') :
    Named listenAddr name s' := by
  obtain ⟨hlt, rfl⟩ := newConnection_cases h
  exact ⟨hn.ipPort, hn.name, hlt⟩

theorem Named.erase (hn : Named listenAddr name s) (n : List Char) :
    Named listenAddr name (s.erase n) := ⟨hn.ipPort, hn.name, hn.counter⟩

end TcpServer
end Armsy
