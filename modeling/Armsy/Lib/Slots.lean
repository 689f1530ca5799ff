import Mathlib.Data.Set.Function
import Mathlib.Tactic

/-! A table whose keys are used again: owners come and go, each has a key, and a key that
its owner has given back may be given to a later one. -/

namespace Armsy
namespace Slots

variable {ι κ α : Type*} {live live' : Set ι} {key key' : ι → κ} {entry entry' : ι → Option α}
  {table : κ → Option α} {i : ι} {k : κ} {a : α}

/-- The table has the entry of every live owner under its key, and nothing else. -/
structure Holds (live : Set ι) (key : ι → κ) (entry : ι → Option α) (table : κ → Option α) :
    Prop where
  entry_eq : ∀ i ∈ live, table (key i) = entry i
  vacant : ∀ k, (∀ i ∈ live, key i ≠ k) → table k = none

theorem Holds.eq_some_iff (h : Holds live key entry table) :
    table k = some a ↔ ∃ i ∈ live, key i = k ∧ entry i = some a := by
  constructor
  · intro ht
    by_contra hne
    push Not at hne
    by_cases hk : ∃ i ∈ live, key i = k
    · obtain ⟨i, hi, rfl⟩ := hk
      exact hne i hi rfl (h.entry_eq i hi ▸ ht)
    · push Not at hk
      rw [h.vacant k hk] at ht
      cases ht
  · rintro ⟨i, hi, rfl, he⟩
    rw [h.entry_eq i hi, he]

/-- Nothing that the table depends on has changed for a live owner. -/
theorem Holds.congr (h : Holds live key entry table) (hk : ∀ i ∈ live, key' i = key i)
    (he : ∀ i ∈ live, entry' i = entry i) : Holds live key' entry' table where
  entry_eq := fun i hi => by rw [hk i hi, he i hi, h.entry_eq i hi]
  vacant := fun k hv => h.vacant k fun i hi => hk i hi ▸ hv i hi

/-- A live owner writes its entry. -/
theorem Holds.write [DecidableEq ι] [DecidableEq κ] (h : Holds live key entry table)
    (hinj : Set.InjOn key live) (hi : i ∈ live) (x : Option α) :
    Holds live key (Function.update entry i x) (Function.update table (key i) x) where
  entry_eq := fun j hj => by
    by_cases hji : j = i
    · subst hji
      simp
    · have hne : key j ≠ key i := fun hk => hji (hinj hj hi hk)
      simp [hji, hne, h.entry_eq j hj]
  vacant := fun k hv => by
    rw [Function.update_of_ne (hv i hi).symm]
    exact h.vacant k hv

/-- Owners that have nothing in the table go. -/
theorem Holds.retire (h : Holds live key entry table) (hsub : live' ⊆ live)
    (hgone : ∀ i ∈ live, i ∉ live' → entry i = none) : Holds live' key entry table where
  entry_eq := fun i hi => h.entry_eq i (hsub hi)
  vacant := fun k hv => by
    by_cases hk : ∃ i ∈ live, key i = k
    · obtain ⟨i, hi, rfl⟩ := hk
      rw [h.entry_eq i hi]
      exact hgone i hi fun hi' => hv i hi' rfl
    · push Not at hk
      exact h.vacant k hk

/-- Owners go, and the table drops what it has under some keys that only they may have. -/
theorem Holds.drop (h : Holds live key entry table) (hsub : live' ⊆ live) (gone : κ → Prop)
    [DecidablePred gone] (hkept : ∀ i ∈ live', ¬ gone (key i))
    (hgone : ∀ i ∈ live, i ∉ live' → gone (key i)) :
    Holds live' key entry fun k => if gone k then none else table k where
  entry_eq := fun i hi => by rw [if_neg (hkept i hi), h.entry_eq i (hsub hi)]
  vacant := fun k hv => by
    split_ifs with hg
    · rfl
    · refine h.vacant k fun i hi hk => ?_
      by_cases hi' : i ∈ live'
      · exact hv i hi' hk
      · exact hg (hk ▸ hgone i hi hi')

/-- An owner comes with a key that no live one has, and nothing in the table. -/
theorem Holds.enter [DecidableEq ι] (h : Holds live key entry table) (hi : i ∉ live)
    (hk : ∀ j ∈ live, key j ≠ k) :
    Holds (insert i live) (Function.update key i k) (Function.update entry i none) table where
  entry_eq := fun j hj => by
    rcases Set.mem_insert_iff.1 hj with rfl | hj
    · simp [h.vacant k hk]
    · have hne : j ≠ i := fun he => hi (he ▸ hj)
      simp [hne, h.entry_eq j hj]
  vacant := fun k' hv => by
    refine h.vacant k' fun j hj => ?_
    have hne : j ≠ i := fun he => hi (he ▸ hj)
    simpa [hne] using hv j (Set.mem_insert_of_mem i hj)

end Slots
end Armsy
