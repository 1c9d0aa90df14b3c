import Mathlib.Computability.StateTransition

/-!
# One machine after another

A machine that stops hands over to the next one, and a run of the pair is a run of
the first, the handover, and a run of the second. A state counts as a halt when it has
no successor or is its own; a run has one halt at most.
-/
namespace Gemiboot.Succession
open StateTransition

variable {α β : Type}

/-- `f`, and `g` from where `f` stops. -/
def follow (f : α → Option α) (enter : α → β) (g : β → Option β) : α ⊕ β → Option (α ⊕ β)
  | .inl a => some (((f a).map .inl).getD (.inr (enter a)))
  | .inr b => (g b).map .inr

section Follow
variable {f : α → Option α} {enter : α → β} {g : β → Option β}

theorem follow_inl {a a' : α} (h : a' ∈ f a) : .inl a' ∈ follow f enter g (.inl a) := by
  rw [follow,Option.mem_def.mp h]
  rfl

theorem follow_enter {a : α} (h : f a = none) : .inr (enter a) ∈ follow f enter g (.inl a) := by
  rw [follow,h]
  rfl

theorem follow_inr {b b' : β} (h : b' ∈ g b) : .inr b' ∈ follow f enter g (.inr b) := by
  rw [follow,Option.mem_def.mp h]
  rfl

theorem reaches_inl {a a' : α} (h : Reaches f a a') :
    Reaches (follow f enter g) (.inl a) (.inl a') := by
  induction h with
  | refl => exact .refl
  | tail _ hs ih => exact ih.tail (follow_inl hs)

theorem reaches_inr {b b' : β} (h : Reaches g b b') :
    Reaches (follow f enter g) (.inr b) (.inr b') := by
  induction h with
  | refl => exact .refl
  | tail _ hs ih => exact ih.tail (follow_inr hs)

/-- A run of the pair from runs of its two machines. -/
theorem reaches_enter {a a' : α} {b' : β} (h : Reaches f a a') (hend : f a' = none)
    (hnext : Reaches g (enter a') b') : Reaches (follow f enter g) (.inl a) (.inr b') :=
  ((reaches_inl h).tail (follow_enter hend)).trans (reaches_inr hnext)

end Follow

/-! ### Halts -/

variable {f : α → Option α}

/-- There is nothing after this state but itself. -/
def Halted (f : α → Option α) (a : α) : Prop := ∀ c ∈ f a, c = a

theorem Halted.reaches {a c : α} (h : Halted f a) (hr : Reaches f a c) : c = a := by
  induction hr with
  | refl => rfl
  | tail _ hs ih =>
      rw [ih] at hs
      exact h _ hs

theorem Halted.unique {a c d : α} (hc : Halted f c) (hd : Halted f d) (hac : Reaches f a c)
    (had : Reaches f a d) : d = c := by
  rcases reaches_total hac had with hcd | hdc
  · exact hc.reaches hcd
  · exact (hd.reaches hdc).symm

theorem Halted.inl {enter : α → β} {g : β → Option β} {a : α} (h : f a = some a) :
    Halted (follow f enter g) (.inl a) := by
  intro c hc
  rw [follow,h] at hc
  exact (Option.some.inj hc).symm

theorem Halted.inr {enter : α → β} {g : β → Option β} {b : β} (h : Halted g b) :
    Halted (follow f enter g) (.inr b) := by
  intro c hc
  obtain ⟨b',hb',rfl⟩ := Option.map_eq_some_iff.mp (Option.mem_def.mp hc)
  rw [h b' hb']

/-- What holds of one halt of a run holds of all. -/
theorem forall_halted {a c : α} {P : α → Prop} (hr : Reaches f a c) (hc : Halted f c) (hP : P c) :
    ∀ d, Reaches f a d → Halted f d → P d := by
  intro d hd hhalt
  rw [hc.unique hhalt hr hd]
  exact hP

/-! ### Countdowns -/

/-- Where every stretch of a run either is done or leaves one less, the run comes to
one that is done or to none left. -/
theorem reaches_countdown {P : ℕ → α → Prop} {Done : α → Prop}
    (h : ∀ n a, P (n+1) a → ∃ c, Reaches f a c ∧ (Done c ∨ P n c)) {n : ℕ} {a : α} (ha : P n a) :
    ∃ c, Reaches f a c ∧ (Done c ∨ P 0 c) := by
  induction n generalizing a with
  | zero => exact ⟨a,.refl,.inr ha⟩
  | succ n ih =>
      obtain ⟨c,hc,hdone | hleft⟩ := h n a ha
      · exact ⟨c,hc,.inl hdone⟩
      · obtain ⟨d,hr,hd⟩ := ih hleft
        exact ⟨d,hc.trans hr,hd⟩

end Gemiboot.Succession
