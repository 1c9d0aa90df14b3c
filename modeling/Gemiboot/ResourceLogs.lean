import Mathlib

/-!
# Logs of resources

A log tells when resources are obtained, used and given back. A ledger follows it
with the resources that are held and those that have ever been obtained, and stops at
the first event that breaks the rules: a resource obtained twice, or one used or given
back that is not held. A log that is followed to an empty hand gives every resource
back exactly once.
-/
namespace Gemiboot.ResourceLogs

variable {ρ : Type*} [DecidableEq ρ]

inductive Event (ρ : Type*) where
  | acquire (r : ρ)
  | use (r : ρ)
  | release (r : ρ)
  deriving DecidableEq

structure Ledger (ρ : Type*) where
  held : List ρ
  past : List ρ

def Ledger.step (t : Ledger ρ) : Event ρ → Option (Ledger ρ)
  | .acquire r => if r ∈ t.past then none else some ⟨r::t.held,r::t.past⟩
  | .use r => if r ∈ t.held then some t else none
  | .release r => if r ∈ t.held then some ⟨t.held.erase r,t.past⟩ else none

/-- The log keeps the rules, and `t` is the ledger after it. -/
def Follows (log : List (Event ρ)) (t : Ledger ρ) : Prop :=
  log.foldlM Ledger.step ⟨[],[]⟩ = some t

section Steps
variable {log : List (Event ρ)} {t t' : Ledger ρ} {e : Event ρ} {r : ρ}

theorem Ledger.step_acquire : t.step (.acquire r) = some t' ↔
    r ∉ t.past ∧ t' = ⟨r::t.held,r::t.past⟩ := by
  change (if r ∈ t.past then none else some _) = some t' ↔ _
  split_ifs with hr
  · simp [hr]
  · simp [hr,eq_comm]

theorem Ledger.step_use : t.step (.use r) = some t' ↔ r ∈ t.held ∧ t' = t := by
  change (if r ∈ t.held then some t else none) = some t' ↔ _
  split_ifs with hr
  · simp [hr,eq_comm]
  · simp [hr]

theorem Ledger.step_release : t.step (.release r) = some t' ↔
    r ∈ t.held ∧ t' = ⟨t.held.erase r,t.past⟩ := by
  change (if r ∈ t.held then some _ else none) = some t' ↔ _
  split_ifs with hr
  · simp [hr,eq_comm]
  · simp [hr]

theorem follows_concat : Follows (log++[e]) t' ↔ ∃ t, Follows log t ∧ t.step e = some t' := by
  unfold Follows
  rw [List.foldlM_append]
  constructor
  · intro h
    rcases Option.bind_eq_some_iff.mp h with ⟨t,ht,he⟩
    refine ⟨t,ht,?_⟩
    simpa using he
  · rintro ⟨t,ht,he⟩
    apply Option.bind_eq_some_iff.mpr
    refine ⟨t,ht,?_⟩
    simpa using he

theorem Follows.acquire (h : Follows log t) (hr : r ∉ t.past) :
    Follows (log++[Event.acquire r]) ⟨r::t.held,r::t.past⟩ :=
  follows_concat.mpr ⟨t,h,Ledger.step_acquire.mpr ⟨hr,rfl⟩⟩

theorem Follows.use (h : Follows log t) (hr : r ∈ t.held) : Follows (log++[Event.use r]) t :=
  follows_concat.mpr ⟨t,h,Ledger.step_use.mpr ⟨hr,rfl⟩⟩

theorem Follows.release (h : Follows log t) (hr : r ∈ t.held) :
    Follows (log++[Event.release r]) ⟨t.held.erase r,t.past⟩ :=
  follows_concat.mpr ⟨t,h,Ledger.step_release.mpr ⟨hr,rfl⟩⟩

/-- What is held has been obtained, and once. -/
structure Ledger.Valid (t : Ledger ρ) : Prop where
  nodup : t.held.Nodup
  obtained : ∀ r ∈ t.held, r ∈ t.past

theorem Ledger.Valid.step (h : t.Valid) (he : t.step e = some t') : t'.Valid := by
  cases e with
  | acquire r =>
      rcases Ledger.step_acquire.mp he with ⟨hr,rfl⟩
      refine ⟨List.nodup_cons.mpr ⟨fun hh => hr (h.obtained r hh),h.nodup⟩,?_⟩
      intro x hx
      rcases List.mem_cons.mp hx with rfl | hx
      · exact List.mem_cons_self
      · exact List.mem_cons_of_mem r (h.obtained x hx)
  | use r =>
      rcases Ledger.step_use.mp he with ⟨-,rfl⟩
      exact h
  | release r =>
      rcases Ledger.step_release.mp he with ⟨-,rfl⟩
      exact ⟨h.nodup.erase r,fun x hx => h.obtained x (List.mem_of_mem_erase hx)⟩

/-- What holds of the empty ledger and is kept by every step holds after every log. -/
theorem Follows.run {motive : List (Event ρ) → Ledger ρ → Prop} (h : Follows log t)
    (nil : motive [] ⟨[],[]⟩)
    (step : ∀ log t e t', Follows log t → motive log t → t.step e = some t' →
      motive (log++[e]) t') : motive log t := by
  induction log using List.reverseRecOn generalizing t with
  | nil =>
      cases h
      exact nil
  | append_singleton log e ih =>
      rcases follows_concat.mp h with ⟨t₀,h₀,he⟩
      exact step log t₀ e t h₀ (ih h₀) he

theorem Follows.valid (h : Follows log t) : t.Valid := by
  apply h.run (motive := fun _ t => t.Valid)
  · exact ⟨List.nodup_nil,fun x hx => absurd hx List.not_mem_nil⟩
  · intro log t e t' _ hv he
    exact hv.step he

theorem Follows.acquired_iff (h : Follows log t) : .acquire r ∈ log ↔ r ∈ t.past := by
  apply h.run (motive := fun log t => .acquire r ∈ log ↔ r ∈ t.past)
  · exact iff_of_false List.not_mem_nil List.not_mem_nil
  · intro log t e t' _ ih he
    rw [List.mem_append,List.mem_singleton,ih]
    cases e with
    | acquire x =>
        rcases Ledger.step_acquire.mp he with ⟨-,rfl⟩
        rw [List.mem_cons,Event.acquire.injEq,or_comm]
    | use x =>
        rcases Ledger.step_use.mp he with ⟨-,rfl⟩
        simp
    | release x =>
        rcases Ledger.step_release.mp he with ⟨-,rfl⟩
        simp

/-- Each resource that was obtained is held or has been given back, and not both. -/
theorem Follows.count_release (h : Follows log t) :
    log.count (.release r)+t.held.count r = if r ∈ t.past then 1 else 0 := by
  apply h.run (motive := fun log t =>
    log.count (.release r)+t.held.count r = if r ∈ t.past then 1 else 0)
  · rfl
  · intro log t e t' hlog ih he
    rw [List.count_append]
    cases e with
    | acquire x =>
        rcases Ledger.step_acquire.mp he with ⟨hx,rfl⟩
        have hheld : x ∉ t.held := fun hh => hx (hlog.valid.obtained x hh)
        have hnone : [Event.acquire x].count (.release r) = 0 :=
          List.count_eq_zero.mpr (by simp)
        rw [hnone,Nat.add_zero]
        by_cases hrx : r = x
        · subst hrx
          rw [if_neg hx,List.count_eq_zero.mpr hheld] at ih
          rw [List.count_cons_self,List.count_eq_zero.mpr hheld,if_pos List.mem_cons_self]
          omega
        · rw [List.count_cons_of_ne (Ne.symm hrx)]
          simp only [List.mem_cons,hrx,false_or]
          exact ih
    | use x =>
        rcases Ledger.step_use.mp he with ⟨-,rfl⟩
        simpa using ih
    | release x =>
        rcases Ledger.step_release.mp he with ⟨hx,rfl⟩
        change _+(t.held.erase x).count r = if r ∈ t.past then 1 else 0
        rw [← ih]
        by_cases hrx : r = x
        · subst hrx
          have hpos := List.count_pos_iff.mpr hx
          rw [List.count_erase_self,List.count_singleton_self]
          omega
        · have hnone : [Event.release x].count (.release r) = 0 :=
            List.count_eq_zero.mpr (by simpa using hrx)
          rw [hnone,List.count_erase_of_ne hrx,Nat.add_zero]

theorem follows_append {log' : List (Event ρ)} (h : Follows (log++log') t') :
    ∃ t, Follows log t := by
  unfold Follows at h ⊢
  rw [List.foldlM_append] at h
  rcases Option.bind_eq_some_iff.mp h with ⟨t,ht,-⟩
  exact ⟨t,ht⟩

/-- A resource that has been given back is not obtained again. -/
theorem not_held_after {before after : List (Event ρ)}
    (h : Follows (before++.release r::after) t) : r ∈ t.past ∧ r ∉ t.held := by
  induction after using List.reverseRecOn generalizing t with
  | nil =>
      rcases follows_concat.mp h with ⟨t₀,h₀,he⟩
      rcases Ledger.step_release.mp he with ⟨hr,rfl⟩
      exact ⟨h₀.valid.obtained r hr,fun hh => (h₀.valid.nodup.mem_erase_iff.mp hh).1 rfl⟩
  | append_singleton after e ih =>
      rw [← List.cons_append,← List.append_assoc] at h
      rcases follows_concat.mp h with ⟨t₀,h₀,he⟩
      rcases ih h₀ with ⟨hpast,hheld⟩
      cases e with
      | acquire x =>
          rcases Ledger.step_acquire.mp he with ⟨hx,rfl⟩
          refine ⟨List.mem_cons_of_mem x hpast,fun hh => ?_⟩
          rcases List.mem_cons.mp hh with rfl | hh
          · exact hx hpast
          · exact hheld hh
      | use x =>
          rcases Ledger.step_use.mp he with ⟨-,rfl⟩
          exact ⟨hpast,hheld⟩
      | release x =>
          rcases Ledger.step_release.mp he with ⟨-,rfl⟩
          exact ⟨hpast,fun hh => hheld (List.mem_of_mem_erase hh)⟩

end Steps

/-! ### What a log that keeps the rules does -/

/-- Nothing is used or given back again once it has been given back. -/
def Safe (log : List (Event ρ)) : Prop :=
  ∀ before after r, log = before++.release r::after → .use r ∉ after ∧ .release r ∉ after

/-- Besides, what has been obtained is given back exactly once. -/
structure Settled (log : List (Event ρ)) : Prop where
  safe : Safe log
  once : ∀ r, .acquire r ∈ log → log.count (.release r) = 1

theorem Follows.safe {log : List (Event ρ)} {t : Ledger ρ} (h : Follows log t) : Safe log := by
  rintro before after r rfl
  have hlast : ∀ e : Event ρ, (∀ t₀ t₁ : Ledger ρ, r ∉ t₀.held → t₀.step e ≠ some t₁) →
      e ∉ after := by
    intro e he hmem
    rcases List.append_of_mem hmem with ⟨l₁,l₂,rfl⟩
    have hsplit : before++Event.release r::(l₁++e::l₂) =
        before++Event.release r::l₁++[e]++l₂ := by simp
    rw [hsplit] at h
    rcases follows_append h with ⟨t₁,h₁⟩
    rcases follows_concat.mp h₁ with ⟨t₀,h₀,hstep⟩
    exact he t₀ t₁ (not_held_after h₀).2 hstep
  constructor
  · apply hlast
    intro t₀ t₁ hr hstep
    exact hr (Ledger.step_use.mp hstep).1
  · apply hlast
    intro t₀ t₁ hr hstep
    exact hr (Ledger.step_release.mp hstep).1

theorem Follows.settled {log : List (Event ρ)} {past : List ρ} (h : Follows log ⟨[],past⟩) :
    Settled log := by
  refine ⟨h.safe,fun r hr => ?_⟩
  have hcount := h.count_release (r := r)
  rw [if_pos (h.acquired_iff.mp hr)] at hcount
  exact hcount

end Gemiboot.ResourceLogs
