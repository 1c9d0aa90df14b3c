import Mathlib.Order.Basic

/-!
# The last writer

Writers are numbered, and each sets the places it covers. After the first `n` of
them a place holds what the last one that covers it has put there, and a place
that none of them covers holds what it held at the start.
-/
namespace Gemiboot.LastWriter

variable {α β : Type*}

/-- Writer `i` is the last of the first `n` to cover `x`. -/
structure IsLast (covers : ℕ → α → Prop) (n : ℕ) (x : α) (i : ℕ) : Prop where
  below : i < n
  hits : covers i x
  final : ∀ j, i < j → j < n → ¬covers j x

/-- The contents `f` after the first `n` writers, from `init`. -/
structure GivenByLast (covers : ℕ → α → Prop) (value : ℕ → α → β) (init : α → β) (n : ℕ)
    (f : α → β) : Prop where
  covered : ∀ x i, IsLast covers n x i → f x = value i x
  uncovered : ∀ x, (∀ i < n, ¬covers i x) → f x = init x

variable {covers : ℕ → α → Prop} {value : ℕ → α → β} {init f g : α → β} {n : ℕ}

theorem IsLast.eq_of_covers {x : α} {i : ℕ} (h : IsLast covers (n+1) x i) (hx : covers n x) :
    i = n := by
  rcases Nat.lt_succ_iff_lt_or_eq.mp h.below with hlt | he
  · exact absurd hx (h.final n hlt n.lt_succ_self)
  · exact he

theorem IsLast.of_succ {x : α} {i : ℕ} (h : IsLast covers (n+1) x i) (hx : ¬covers n x) :
    IsLast covers n x i := by
  have hne : i ≠ n := by
    intro he
    subst he
    exact hx h.hits
  have hlt : i < n := Nat.lt_of_le_of_ne (Nat.le_of_lt_succ h.below) hne
  exact ⟨hlt,h.hits,fun j hij hj => h.final j hij (Nat.lt_succ_of_lt hj)⟩

theorem givenByLast_zero : GivenByLast covers value init 0 init :=
  ⟨fun _ _ h => absurd h.below (Nat.not_lt_zero _),fun _ _ => rfl⟩

/-- One more writer, which sets what it covers and nothing else. -/
theorem GivenByLast.succ (h : GivenByLast covers value init n f)
    (hin : ∀ x, covers n x → g x = value n x) (hout : ∀ x, ¬covers n x → g x = f x) :
    GivenByLast covers value init (n+1) g := by
  constructor
  · intro x i hi
    by_cases hx : covers n x
    · rw [hi.eq_of_covers hx]
      exact hin x hx
    · rw [hout x hx]
      exact h.covered x i (hi.of_succ hx)
  · intro x hx
    rw [hout x (hx n n.lt_succ_self)]
    exact h.uncovered x fun i hi => hx i (Nat.lt_succ_of_lt hi)

end Gemiboot.LastWriter
