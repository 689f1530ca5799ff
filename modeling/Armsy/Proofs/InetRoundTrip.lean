import Armsy.Model.InetAddress
import Armsy.Proofs.ConnectionNames
import Mathlib.Data.List.TakeWhile

/-! What `InetAddress` prints it reads back. A printed part has no zero in front, so
`inet_addr` takes none of them for octal, and the text of an address has only one reading. -/

namespace Armsy

variable {rest : List Char} {n : ℕ}

/-! ### Decimal numerals -/

theorem isDigit_of_mem_decimal {c : Char} (h : c ∈ decimal n) : c.isDigit = true :=
  Nat.isDigit_of_mem_toDigits (by norm_num) (by norm_num) h

/-- A numeral has no zero in front, but for 0 itself. -/
theorem decimal_cases (n : ℕ) : n = 0 ∧ decimal n = ['0'] ∨
    ∃ c s, decimal n = c :: s ∧ c ≠ '0' := by
  induction n using Nat.strong_induction_on with
  | _ n ih =>
    rcases lt_or_ge n 10 with hlt | hge
    · interval_cases n
      · exact .inl ⟨rfl, rfl⟩
      all_goals exact .inr ⟨_, [], rfl, by decide⟩
    · right
      have hdiv : n / 10 ≠ 0 := by omega
      obtain ⟨h0, -⟩ | ⟨c, s, hs, hc⟩ := ih (n / 10) (by omega)
      · exact absurd h0 hdiv
      · refine ⟨c, s ++ [(n % 10).digitChar], ?_, hc⟩
        have hstep : decimal n = decimal (n / 10) ++ [(n % 10).digitChar] :=
          Nat.toDigits_of_base_le (by norm_num) hge
        rw [hstep, hs, List.cons_append]

theorem foldl_digits (s : List Char) (h : ∀ c ∈ s, c.isDigit = true) (m : ℕ) :
    s.foldl (fun n c => 10 * n + digitValue c) m = Nat.ofDigitChars 10 s m := by
  induction s generalizing m with
  | nil => rfl
  | cons c s ih =>
    have hc : digitValue c = c.toNat - '0'.toNat := by simp [digitValue, h c]
    rw [List.foldl_cons, Nat.ofDigitChars_cons, hc]
    exact ih (fun d hd => h d (List.mem_cons_of_mem _ hd)) _

/-- The rest begins with nothing that could belong to a number. -/
def Ends (rest : List Char) : Prop :=
  ∀ c ∈ rest.head?, c.isDigit = false ∧ c ≠ 'x' ∧ c ≠ 'X'

theorem ends_nil : Ends [] := by
  simp [Ends]

theorem ends_dot (s : List Char) : Ends ('.' :: s) := by
  intro c hc
  cases hc
  decide

theorem numeral_append {base : ℕ} {isDigit : Char → Bool} {s : List Char}
    (hs : ∀ c ∈ s, isDigit c = true) (hrest : ∀ c ∈ rest.head?, isDigit c = false) :
    numeral base isDigit (s ++ rest) =
      (s.foldl (fun n c => base * n + digitValue c) 0, rest) := by
  have htake : (s ++ rest).takeWhile isDigit = s := by
    rw [List.takeWhile_append_of_pos hs]
    cases rest with
    | nil => simp
    | cons c r => simp [hrest c rfl]
  have hdrop : (s ++ rest).dropWhile isDigit = rest := by
    rw [List.dropWhile_append_of_pos hs]
    cases rest with
    | nil => rfl
    | cons c r => simp [hrest c rfl]
  rw [numeral, htake, hdrop]

theorem isDigit_of_isOctalDigit {c : Char} (h : isOctalDigit c = true) : c.isDigit = true := by
  simp only [isOctalDigit, Bool.and_eq_true, decide_eq_true_eq] at h
  simp only [Char.isDigit, Bool.and_eq_true, decide_eq_true_eq]
  have h79 : '7' ≤ '9' := by decide
  exact ⟨h.1, Char.le_trans h.2 h79⟩

/-- A zero alone, which is octal. -/
theorem strtoul_zero (h : Ends rest) : strtoul ('0' :: rest) = (0, rest) := by
  have hoctal : numeral 8 isOctalDigit ('0' :: rest) = (0, rest) := by
    apply numeral_append (s := ['0'])
    · intro c hc
      rw [List.mem_singleton.1 hc]
      rfl
    · intro c hc
      rw [← Bool.not_eq_true]
      intro hoct
      have := isDigit_of_isOctalDigit hoct
      simp [(h c hc).1] at this
  unfold strtoul
  split
  · rename_i x c s heq
    cases heq
    have hx := h x rfl
    simpa [hx.2.1, hx.2.2] using hoctal
  · rename_i s _ heq
    cases heq
    exact hoctal
  · rename_i hne
    exact absurd rfl (hne rest)

theorem strtoul_decimal (h : Ends rest) (n : ℕ) : strtoul (decimal n ++ rest) = (n, rest) := by
  rcases decimal_cases n with ⟨rfl, h0⟩ | ⟨c, s, hs, hc⟩
  · rw [h0]
    exact strtoul_zero h
  · have hdec : numeral 10 Char.isDigit (decimal n ++ rest) = (n, rest) := by
      rw [numeral_append (fun c => isDigit_of_mem_decimal) fun c hc => (h c hc).1,
        foldl_digits _ fun c => isDigit_of_mem_decimal]
      rw [decimal, Nat.ofDigitChars_ten_toDigits]
    rw [hs] at hdec ⊢
    unfold strtoul
    split
    · rename_i heq
      exact absurd (List.cons.inj heq).1 hc
    · rename_i heq
      exact absurd (List.cons.inj heq).1 hc
    · exact hdec

/-! ### Addresses -/

theorem head_decimal (n : ℕ) (rest : List Char) :
    (decimal n ++ rest).head?.any Char.isDigit = true := by
  cases hs : decimal n with
  | nil => exact absurd hs Nat.toDigits_ne_nil
  | cons c s =>
    have hc : c.isDigit = true := isDigit_of_mem_decimal (n := n) (by simp [hs])
    simp [hc]

/-- A part with a dot behind it. -/
theorem inetAton_part {dots : ℕ} (hn : n ≤ 255) (rest : List Char) :
    inetAton (dots + 1) (decimal n ++ '.' :: rest) =
      (inetAton dots rest).map (n * 256 ^ (dots + 1) + ·) := by
  rw [inetAton, if_pos (head_decimal n _), strtoul_decimal (ends_dot rest)]
  exact if_pos hn

theorem inetAton_last (hn : n ≤ 255) : inetAton 0 (decimal n) = some n := by
  have hhead := head_decimal n []
  have hread := strtoul_decimal ends_nil n
  rw [List.append_nil] at hhead hread
  rw [inetAton, if_pos hhead, hread]
  simpa [lastPart] using Nat.lt_succ_of_le hn

theorem inetAton_inetNtop (a : Byte × Byte × Byte × Byte) :
    inetAton 3 (inetNtop a) =
      some (a.1.toNat * 256 ^ 3 +
        (a.2.1.toNat * 256 ^ 2 + (a.2.2.1.toNat * 256 + a.2.2.2.toNat))) := by
  have hbyte (b : Byte) : b.toNat ≤ 255 := Nat.lt_succ_iff.1 b.toNat_lt
  simp only [inetNtop, List.append_assoc, List.cons_append]
  rw [inetAton_part (hbyte _), inetAton_part (hbyte _), inetAton_part (hbyte _),
    inetAton_last (hbyte _)]
  simp

/-- `inet_addr` undoes `inet_ntop`. -/
theorem inetAddr_inetNtop (a : Byte × Byte × Byte × Byte) : inetAddr (inetNtop a) = a := by
  obtain ⟨b₁, b₂, b₃, b₄⟩ := a
  have h₁ := b₁.toNat_lt
  have h₂ := b₂.toNat_lt
  have h₃ := b₃.toNat_lt
  have h₄ := b₄.toNat_lt
  rw [inetAddr, inetAton_inetNtop, Option.getD_some, htonl]
  simp only [Prod.mk.injEq, ← UInt8.toNat_inj, UInt8.toNat_ofNat']
  omega

theorem inetNtop_chars {a : Byte × Byte × Byte × Byte} {c : Char} (h : c ∈ inetNtop a) :
    c = '.' ∨ c.isDigit = true := by
  simp only [inetNtop, List.append_assoc, List.cons_append, List.mem_append, List.mem_cons] at h
  rcases h with h | rfl | h | rfl | h | rfl | h
  · exact .inr (isDigit_of_mem_decimal h)
  · exact .inl rfl
  · exact .inr (isDigit_of_mem_decimal h)
  · exact .inl rfl
  · exact .inr (isDigit_of_mem_decimal h)
  · exact .inl rfl
  · exact .inr (isDigit_of_mem_decimal h)

theorem ntohs_htons (port : UInt16) : ntohs (htons port) = port.toNat := by
  have h := port.toNat_lt
  simp only [ntohs, htons, UInt8.toNat_ofNat', UInt16.toNat_toUInt8]
  omega

theorem ntohs_injective : Function.Injective ntohs := by
  rintro ⟨p₁, p₂⟩ ⟨q₁, q₂⟩ h
  have hp := p₂.toNat_lt
  have hq := q₂.toNat_lt
  simp only [ntohs] at h
  simp only [Prod.mk.injEq, ← UInt8.toNat_inj]
  omega

namespace InetAddress

theorem new_getters (a : InetAddress) : new a.getShortIntPort a.getNumberAndDotIp = a := by
  obtain ⟨addr, port⟩ := a
  have hip : (inetNtop addr).takeWhile (· ≠ '\x00') = inetNtop addr := by
    rw [List.takeWhile_eq_self_iff]
    intro c hc
    rcases inetNtop_chars hc with rfl | hd
    · decide
    · rw [decide_eq_true_eq]
      rintro rfl
      cases hd
  have hport : htons (UInt16.ofNat (ntohs port)) = port := by
    apply ntohs_injective
    rw [ntohs_htons, UInt16.toNat_ofNat', Nat.mod_eq_of_lt (ntohs_lt port)]
  simp only [new, getNumberAndDotIp, getShortIntPort, hport]
  rw [hip, inetAddr_inetNtop]

theorem getIpAndPort_injective : Function.Injective getIpAndPort := by
  intro a b h
  have hcolon (a : Byte × Byte × Byte × Byte) : ':' ∉ inetNtop a := by
    intro hc
    rcases inetNtop_chars hc with hc | hc <;> cases hc
  have hport (b : InetAddress) : ':' ∉ decimal (ntohs b.sinPort) := by
    intro hc
    cases isDigit_of_mem_decimal hc
  obtain ⟨hip, -, hdec⟩ :=
    (List.append_cons_inj_of_notMem (hcolon _) (hport _)).1 h
  have haddr : a.sinAddr = b.sinAddr := by
    rw [← inetAddr_inetNtop a.sinAddr, hip, inetAddr_inetNtop]
  have hp : a.sinPort = b.sinPort := ntohs_injective (decimal_injective hdec)
  cases a
  cases b
  cases haddr
  cases hp
  rfl

/-- `InetAddress` loses nothing between a `sockaddr_in` and its text: the constructor undoes
the getters, which undo it on the port, and no two addresses print the same. -/
theorem text_round_trip : (∀ a : InetAddress, new a.getShortIntPort a.getNumberAndDotIp = a) ∧
    (∀ port ip, (new port ip).getShortIntPort = port) ∧ Function.Injective getIpAndPort := by
  refine ⟨new_getters, ?_, getIpAndPort_injective⟩
  intro port ip
  simp only [new, getShortIntPort, ntohs_htons, UInt16.ofNat_toNat]

end InetAddress
end Armsy
