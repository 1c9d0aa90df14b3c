import Mathlib

/-!
# Covering by intervals

Half-open intervals of naturals, given by base and length. That a list of them
covers an interval is a finite condition: the first point is inside, and wherever
one of them ends another one goes on.
-/
namespace Gemiboot.Intervals

/-- The points of some of the intervals. -/
def union (rs : List (ℕ × ℕ)) : Set ℕ := {x | ∃ r ∈ rs, r.1 ≤ x ∧ x < r.1+r.2}

instance (rs : List (ℕ × ℕ)) (x : ℕ) : Decidable (x ∈ union rs) :=
  inferInstanceAs (Decidable (∃ r ∈ rs, r.1 ≤ x ∧ x < r.1+r.2))

/-- Nothing is missing from `a` to `b`. -/
structure NoGap (rs : List (ℕ × ℕ)) (a b : ℕ) : Prop where
  first : a < b → a ∈ union rs
  ends : ∀ r ∈ rs, a < r.1+r.2 → r.1+r.2 < b → r.1+r.2 ∈ union rs

theorem NoGap.mem {rs : List (ℕ × ℕ)} {a b x : ℕ} (h : NoGap rs a b) (hx : a ≤ x) :
    x < b → x ∈ union rs := by
  induction x,hx using Nat.le_induction with
  | base => exact h.first
  | succ x hax ih =>
      intro hlt
      obtain ⟨r,hr,h₁,h₂⟩ := ih (by omega)
      by_cases he : x+1 = r.1+r.2
      · rw [he]
        exact h.ends r hr (by omega) (by omega)
      · exact ⟨r,hr,by omega,by omega⟩

theorem noGap_iff {rs : List (ℕ × ℕ)} {a b : ℕ} :
    NoGap rs a b ↔ Set.Ico a b ⊆ union rs := by
  constructor
  · exact fun h x hx => h.mem hx.1 hx.2
  · intro h
    exact ⟨fun hab => h ⟨le_rfl,hab⟩,fun r _ h₁ h₂ => h ⟨h₁.le,h₂⟩⟩

end Gemiboot.Intervals
