import Gemiboot.PciScan

/-!
# Which functions the scan reaches

The scan asks function 0 of every slot of every bus, and the other seven only
behind a function 0 with the multi-function bit. It writes neither vendor IDs nor
header types, so the functions whose BARs it walks are those that were present
when it started.
-/
namespace Gemiboot.PciRemap
open ByteMemory

/-- Function 0 of the same device. -/
def PciFunction.first (f : PciFunction) : PciFunction := ⟨f.bus,f.slot,0⟩

def MultiFunction (r : Registers) (f : PciFunction) : Prop :=
  ¬Absent r f.first ∧ pciRead32 r f.first 0x0C>>>16 &&& 0x80 ≠ 0

/-- The function answers; functions 1 to 7 exist only in a multi-function device. -/
def Present (r : Registers) (f : PciFunction) : Prop :=
  ¬Absent r f ∧ (f.func ≠ 0 → MultiFunction r f)

/-- The functions whose BARs `scanFuncs` walks, in its order. -/
def reachedFuncs (hw : Hardware) (fbBase : ℕ) (bus : Fin 256) (slot : Fin 32) :
    List (Fin 8) → Scan → List PciFunction
  | [],_ => []
  | func::rest,s =>
      let f := ⟨bus,slot,func⟩
      if Absent s.regs f then
        if func = 0 then [] else reachedFuncs hw fbBase bus slot rest s
      else
        let s := scanBars hw fbBase f 6 0 s
        if SingleFunction s.regs f then [f] else f::reachedFuncs hw fbBase bus slot rest s

/-- The scan together with the functions it has reached. -/
structure Reach where
  scan : Scan
  funcs : List PciFunction

def Reach.slot (hw : Hardware) (fbBase : ℕ) (bus : Fin 256) (t : Reach) (slot : Fin 32) : Reach :=
  ⟨scanFuncs hw fbBase bus slot (List.finRange 8) t.scan,
    t.funcs++reachedFuncs hw fbBase bus slot (List.finRange 8) t.scan⟩

def Reach.bus (hw : Hardware) (fbBase : ℕ) (t : Reach) (bus : Fin 256) : Reach :=
  (List.finRange 32).foldl (Reach.slot hw fbBase bus) t

def pciRemapReach (hw : Hardware) (r : Registers) (fbBase : ℕ) : Reach :=
  (List.finRange 256).foldl (Reach.bus hw fbBase) ⟨⟨r,0xE0000000,fbBase,[],[]⟩,[]⟩

variable {hw : Hardware} {fbBase : ℕ}

theorem slots_scan (bus : Fin 256) (slots : List (Fin 32)) (t : Reach) :
    (slots.foldl (Reach.slot hw fbBase bus) t).scan =
      slots.foldl (fun s slot => scanFuncs hw fbBase bus slot (List.finRange 8) s) t.scan := by
  induction slots generalizing t with
  | nil => rfl
  | cons slot slots ih =>
      rw [List.foldl_cons,ih]
      rfl

theorem buses_scan (buses : List (Fin 256)) (t : Reach) :
    (buses.foldl (Reach.bus hw fbBase) t).scan = buses.foldl (fun s bus =>
      (List.finRange 32).foldl (fun s slot =>
        scanFuncs hw fbBase bus slot (List.finRange 8) s) s) t.scan := by
  induction buses generalizing t with
  | nil => rfl
  | cons bus buses ih => rw [List.foldl_cons,List.foldl_cons,ih,Reach.bus,slots_scan]

/-- The scan is the one that `pciRemapAbove4gBars` makes. -/
theorem pciRemapReach_scan (hw : Hardware) (r : Registers) (fbBase : ℕ) :
    (pciRemapReach hw r fbBase).scan = pciRemapAbove4gBars hw r fbBase := by
  rw [pciRemapReach,pciRemapAbove4gBars,buses_scan]

/-! ### The registers it goes by -/

/-- Vendor IDs and header types are as in `r`. -/
def SameIds (r r' : Registers) : Prop :=
  ∀ f, pciRead32 r' f 0x00 = pciRead32 r f 0x00 ∧ pciRead32 r' f 0x0C = pciRead32 r f 0x0C

/-- Walking the BARs of a function leaves every vendor ID and header type alone. -/
theorem SameIds.scanBars {r : Registers} {s : Scan} (h : SameIds r s.regs) (hw : Hardware)
    (fbBase : ℕ) (f : PciFunction) :
    SameIds r (scanBars hw fbBase f 6 0 s).regs := by
  intro f'
  have hids : ∀ c ∈ barWalk s.regs f 6 0, ¬c.Touches f' 0x00 ∧ ¬c.Touches f' 0x0C :=
    fun c hc => Candidate.not_touches_ids (barWalk_mem hc).2.2 f'
  rw [scanBars_eq,pciRead32_foldl fun c hc => (hids c hc).1,
    pciRead32_foldl fun c hc => (hids c hc).2]
  exact h f'

/-- One device: the functions reached, and the step of the invariant. -/
theorem SameIds.scanFuncs {r : Registers} {s : Scan} (h : SameIds r s.regs) (hw : Hardware)
    (fbBase : ℕ) (bus : Fin 256) (slot : Fin 32) (fs : List (Fin 8)) :
    SameIds r (scanFuncs hw fbBase bus slot fs s).regs ∧
      reachedFuncs hw fbBase bus slot fs s = visitedFuncs r bus slot fs := by
  induction fs generalizing s with
  | nil => exact ⟨h,rfl⟩
  | cons func fs ih =>
      have hnext := h.scanBars hw fbBase ⟨bus,slot,func⟩
      have habs : Absent s.regs ⟨bus,slot,func⟩ ↔ Absent r ⟨bus,slot,func⟩ := by
        rw [Absent,Absent,(h _).1]
      have hsingle : SingleFunction
          (PciRemap.scanBars hw fbBase ⟨bus,slot,func⟩ 6 0 s).regs ⟨bus,slot,func⟩ ↔
            SingleFunction r ⟨bus,slot,func⟩ := by
        rw [SingleFunction,SingleFunction,(hnext _).2]
      rw [PciRemap.scanFuncs,reachedFuncs,visitedFuncs]
      dsimp only
      by_cases ha : Absent r ⟨bus,slot,func⟩
      · rw [if_pos (habs.mpr ha),if_pos (habs.mpr ha),if_pos ha]
        by_cases h₀ : func = 0
        · rw [if_pos h₀,if_pos h₀,if_pos h₀]
          exact ⟨h,rfl⟩
        · rw [if_neg h₀,if_neg h₀,if_neg h₀]
          exact ih h
      · rw [if_neg (habs.not.mpr ha),if_neg (habs.not.mpr ha),if_neg ha]
        by_cases hs : SingleFunction r ⟨bus,slot,func⟩
        · rw [if_pos (hsingle.mpr hs),if_pos (hsingle.mpr hs),if_pos hs]
          exact ⟨hnext,rfl⟩
        · obtain ⟨hrest,hfuncs⟩ := ih hnext
          rw [if_neg (hsingle.not.mpr hs),if_neg (hsingle.not.mpr hs),if_neg hs,hfuncs]
          exact ⟨hrest,rfl⟩

/-! ### The whole scan -/

section Collect
variable {σ ι γ : Type*}

/-- A fold that collects what each item gives, while an invariant holds. -/
theorem foldl_collect (got : σ → List γ) {P : σ → Prop} {step : σ → ι → σ} {out : ι → List γ}
    (h : ∀ t i, P t → P (step t i) ∧ got (step t i) = got t++out i) (l : List ι) {t : σ}
    (ht : P t) : P (l.foldl step t) ∧ got (l.foldl step t) = got t++l.flatMap out := by
  induction l generalizing t with
  | nil => exact ⟨ht,(List.append_nil _).symm⟩
  | cons i l ih =>
      obtain ⟨hp,hgot⟩ := h t i ht
      obtain ⟨hp',hgot'⟩ := ih hp
      rw [List.foldl_cons,List.flatMap_cons,hgot',hgot,List.append_assoc]
      exact ⟨hp',rfl⟩

end Collect

theorem pciRemapReach_funcs (hw : Hardware) (r : Registers) (fbBase : ℕ) :
    (pciRemapReach hw r fbBase).funcs = (List.finRange 256).flatMap fun bus =>
      (List.finRange 32).flatMap fun slot => visitedFuncs r bus slot (List.finRange 8) := by
  have hslot : ∀ bus (t : Reach) slot, SameIds r t.scan.regs →
      SameIds r (t.slot hw fbBase bus slot).scan.regs ∧ (t.slot hw fbBase bus slot).funcs =
        t.funcs++visitedFuncs r bus slot (List.finRange 8) := by
    intro bus t slot ht
    obtain ⟨hs,hfuncs⟩ := ht.scanFuncs hw fbBase bus slot (List.finRange 8)
    rw [Reach.slot,hfuncs]
    exact ⟨hs,rfl⟩
  have hbus : ∀ (t : Reach) bus, SameIds r t.scan.regs → SameIds r (t.bus hw fbBase bus).scan.regs ∧
      (t.bus hw fbBase bus).funcs = t.funcs++(List.finRange 32).flatMap fun slot =>
        visitedFuncs r bus slot (List.finRange 8) := by
    intro t bus ht
    exact foldl_collect Reach.funcs (hslot bus) (List.finRange 32) ht
  have hstart : SameIds r (Reach.mk ⟨r,0xE0000000,fbBase,[],[]⟩ []).scan.regs :=
    fun _ => ⟨rfl,rfl⟩
  rw [pciRemapReach,(foldl_collect Reach.funcs hbus (List.finRange 256) hstart).2]
  exact List.nil_append _

/-- Past function 0 a device is asked function by function. -/
theorem mem_visitedFuncs_rest {r : Registers} (f : PciFunction) {fs : List (Fin 8)}
    (h : 0 ∉ fs) : f ∈ visitedFuncs r f.bus f.slot fs ↔ f.func ∈ fs ∧ ¬Absent r f := by
  induction fs with
  | nil => simp [visitedFuncs]
  | cons func fs ih =>
      obtain ⟨hne,hrest⟩ := List.ne_and_not_mem_of_not_mem_cons h
      have hmulti : ¬SingleFunction r ⟨f.bus,f.slot,func⟩ := fun hs => hne hs.1.symm
      have hhead : f.func = func ↔ f = ⟨f.bus,f.slot,func⟩ := by
        cases f
        simp
      rw [visitedFuncs,List.mem_cons,hhead]
      by_cases ha : Absent r ⟨f.bus,f.slot,func⟩
      · have hself : f = ⟨f.bus,f.slot,func⟩ → Absent r f := fun he => he ▸ ha
        rw [if_pos ha,if_neg hne.symm,ih hrest]
        tauto
      · have hself : f = ⟨f.bus,f.slot,func⟩ → ¬Absent r f := fun he => he ▸ ha
        rw [if_neg ha,if_neg hmulti,List.mem_cons,ih hrest]
        tauto

/-- One device: function 0 decides whether the others are asked. -/
theorem mem_visitedFuncs (r : Registers) (f : PciFunction) :
    f ∈ visitedFuncs r f.bus f.slot (List.finRange 8) ↔ Present r f := by
  have hlist : List.finRange 8 = 0::[1,2,3,4,5,6,7] := by decide
  have hrest : (0 : Fin 8) ∉ ([1,2,3,4,5,6,7] : List (Fin 8)) := by decide
  have hmem : ∀ x : Fin 8, x ∈ ([1,2,3,4,5,6,7] : List (Fin 8)) ↔ x ≠ 0 := by decide
  have hfirst : f.func = 0 ↔ f = f.first := by
    cases f
    simp [PciFunction.first]
  have habs : f = f.first → (Absent r f ↔ Absent r f.first) := fun he => by rw [← he]
  have hsingle : SingleFunction r f.first ↔ pciRead32 r f.first 0x0C>>>16 &&& 0x80 = 0 :=
    and_iff_right rfl
  rw [hlist,visitedFuncs]
  change f ∈ (if Absent r f.first then if (0 : Fin 8) = 0 then [] else _
    else if SingleFunction r f.first then [f.first] else f.first::_) ↔ _
  rw [Present,MultiFunction,ne_eq,ne_eq,hfirst,← hsingle]
  by_cases ha : Absent r f.first
  · rw [if_pos ha,if_pos rfl]
    have hno := List.not_mem_nil (a := f)
    tauto
  · rw [if_neg ha]
    by_cases hs : SingleFunction r f.first
    · rw [if_pos hs,List.mem_singleton]
      tauto
    · rw [if_neg hs,List.mem_cons,mem_visitedFuncs_rest f hrest,hmem,ne_eq,hfirst]
      tauto

/-- The scan reaches the functions that are present. -/
theorem pciRemapReach_iff (hw : Hardware) (r : Registers) (fbBase : ℕ) (f : PciFunction) :
    f ∈ (pciRemapReach hw r fbBase).funcs ↔ Present r f := by
  rw [pciRemapReach_funcs]
  constructor
  · intro h
    obtain ⟨bus,-,h⟩ := List.mem_flatMap.mp h
    obtain ⟨slot,-,h⟩ := List.mem_flatMap.mp h
    obtain ⟨rfl,rfl,-⟩ := visitedFuncs_mem h
    exact (mem_visitedFuncs r f).mp h
  · intro h
    refine List.mem_flatMap.mpr ⟨f.bus,List.mem_finRange _,?_⟩
    refine List.mem_flatMap.mpr ⟨f.slot,List.mem_finRange _,?_⟩
    exact (mem_visitedFuncs r f).mpr h

end Gemiboot.PciRemap
