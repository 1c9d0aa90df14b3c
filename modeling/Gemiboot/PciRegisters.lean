import Gemiboot.PciScan

/-!
# Which registers the scan writes

A type 1 function has two BARs; its other four dwords hold bus numbers and
windows. The scan walks over all six in every function and goes by their low bits,
so it keeps to BARs exactly when no such dword looks like a 64-bit BAR in use.
-/
namespace Gemiboot.PciRemap
open ByteMemory

def headerType (r : Registers) (f : PciFunction) : ℕ := pciRead32 r f 0x0C>>>16 &&& 0x7F

/-- The number of base address registers, by header type. -/
def barCount : ℕ → ℕ
  | 0 => 6
  | 1 => 2
  | _ => 0

def IsBaseRegister (r : Registers) (f : PciFunction) (o : ℕ) : Prop :=
  ∃ i < barCount (headerType r f), o = barOff i

/-- A write to this register is in the log. -/
def Scan.Wrote (s : Scan) (f : PciFunction) (o : ℕ) : Prop :=
  ∃ w ∈ s.writes, w.fn = f ∧ w.offset = o

def Scan.Relocated (s : Scan) (f : PciFunction) (bar : ℕ) : Prop :=
  ∃ x ∈ s.relocated, x.fn = f ∧ x.bar = bar

/-- Every register written is a BAR, or the command register of a function one of
whose BARs was relocated; past its two BARs no register of a bridge is. -/
structure WritesBars (r : Registers) (s : Scan) : Prop where
  bars : ∀ f o, s.Wrote f o → IsBaseRegister r f o ∨
    o = 0x04 ∧ ∃ bar, s.Relocated f bar ∧ IsBaseRegister r f (barOff bar)
  bridges : ∀ f o, s.Wrote f o → headerType r f = 1 → o < 0x18

/-- Each dword pair taken for a 64-bit BAR above 4 GiB is one. -/
def OnlyBars (r : Registers) : Prop :=
  ∀ c ∈ candidates r, c.bar+1 < barCount (headerType r c.fn)

/-! ### The log -/

variable {hw : Hardware} {fbBase : ℕ}

theorem wrote_relocate (s : Scan) (c : Candidate) (f : PciFunction) (o : ℕ) :
    (relocate hw fbBase s c).Wrote f o ↔
      f = c.fn ∧ (o = 0x04 ∨ o = barOff c.bar ∨ o = barOff c.bar+4) ∨ s.Wrote f o := by
  have hlog : ∃ v₁ v₂ v₃, (relocate hw fbBase s c).writes =
      ⟨c.fn,0x04,v₁⟩::⟨c.fn,barOff c.bar+4,0⟩::⟨c.fn,barOff c.bar,v₂⟩::
        ⟨c.fn,barOff c.bar,0xFFFFFFFF⟩::⟨c.fn,0x04,v₃⟩::s.writes := ⟨_,_,_,rfl⟩
  obtain ⟨v₁,v₂,v₃,hlog⟩ := hlog
  simp only [Scan.Wrote,hlog,List.exists_mem_cons_iff]
  constructor
  · rintro (⟨rfl,rfl⟩ | ⟨rfl,rfl⟩ | ⟨rfl,rfl⟩ | ⟨rfl,rfl⟩ | ⟨rfl,rfl⟩ | h)
    · exact .inl ⟨rfl,.inl rfl⟩
    · exact .inl ⟨rfl,.inr (.inr rfl)⟩
    · exact .inl ⟨rfl,.inr (.inl rfl)⟩
    · exact .inl ⟨rfl,.inr (.inl rfl)⟩
    · exact .inl ⟨rfl,.inl rfl⟩
    · exact .inr h
  · rintro (⟨rfl,rfl | rfl | rfl⟩ | h)
    · exact .inl ⟨rfl,rfl⟩
    · exact .inr (.inr (.inl ⟨rfl,rfl⟩))
    · exact .inr (.inl ⟨rfl,rfl⟩)
    · exact .inr (.inr (.inr (.inr (.inr h))))

theorem wrote_foldl (cs : List Candidate) (s : Scan) (f : PciFunction) (o : ℕ) :
    (cs.foldl (relocate hw fbBase) s).Wrote f o ↔
      (∃ c ∈ cs, f = c.fn ∧ (o = 0x04 ∨ o = barOff c.bar ∨ o = barOff c.bar+4)) ∨
        s.Wrote f o := by
  induction cs generalizing s with
  | nil => simp
  | cons c cs ih =>
      rw [List.foldl_cons,ih,wrote_relocate,List.exists_mem_cons_iff,or_left_comm,← or_assoc]

theorem relocated_foldl (cs : List Candidate) (s : Scan) (f : PciFunction) (bar : ℕ) :
    (cs.foldl (relocate hw fbBase) s).Relocated f bar ↔ ⟨f,bar⟩ ∈ cs ∨ s.Relocated f bar := by
  induction cs generalizing s with
  | nil => simp
  | cons c cs ih =>
      have hlog : (relocate hw fbBase s c).Relocated f bar ↔
          (⟨f,bar⟩ : Candidate) = c ∨ s.Relocated f bar := by
        have hcons : ∃ t, (relocate hw fbBase s c).relocated = ⟨c.fn,c.bar,t⟩::s.relocated :=
          ⟨_,rfl⟩
        obtain ⟨t,hcons⟩ := hcons
        simp only [Scan.Relocated,hcons,List.exists_mem_cons_iff]
        rw [show (c.fn = f ∧ c.bar = bar) ↔ (⟨f,bar⟩ : Candidate) = c by
          cases c; simp [eq_comm]]
      rw [List.foldl_cons,ih,hlog,List.mem_cons,or_left_comm,← or_assoc]

theorem wrote_iff (r : Registers) (f : PciFunction) (o : ℕ) :
    (pciRemapAbove4gBars hw r fbBase).Wrote f o ↔
      ∃ c ∈ candidates r, f = c.fn ∧ (o = 0x04 ∨ o = barOff c.bar ∨ o = barOff c.bar+4) := by
  rw [pciRemap_eq,wrote_foldl]
  simp [Scan.Wrote]

theorem relocated_iff (r : Registers) (f : PciFunction) (bar : ℕ) :
    (pciRemapAbove4gBars hw r fbBase).Relocated f bar ↔ ⟨f,bar⟩ ∈ candidates r := by
  rw [pciRemap_eq,relocated_foldl]
  simp [Scan.Relocated]

/-! ### BARs only -/

theorem isBaseRegister_barOff {r : Registers} {f : PciFunction} {i : ℕ} :
    IsBaseRegister r f (barOff i) ↔ i < barCount (headerType r f) := by
  constructor
  · rintro ⟨j,hj,he⟩
    rw [barOff,barOff] at he
    omega
  · intro hi
    exact ⟨i,hi,rfl⟩

/-- A second dword that is no BAR gives the candidate away. -/
theorem onlyBars_of_writesBars {r : Registers}
    (h : WritesBars r (pciRemapAbove4gBars hw r fbBase)) : OnlyBars r := by
  intro c hc
  have hw₁ : (pciRemapAbove4gBars hw r fbBase).Wrote c.fn (barOff (c.bar+1)) :=
    (wrote_iff r _ _).mpr ⟨c,hc,rfl,.inr (.inr (barOff_succ c.bar).symm)⟩
  rcases h.bars _ _ hw₁ with hb | ⟨hb,-⟩
  · exact isBaseRegister_barOff.mp hb
  · rw [barOff] at hb
    omega

theorem writesBars_of_onlyBars {r : Registers} (h : OnlyBars r) :
    WritesBars r (pciRemapAbove4gBars hw r fbBase) := by
  constructor
  · intro f o hf
    obtain ⟨c,hc,rfl,ho⟩ := (wrote_iff r f o).mp hf
    have hbar := h c hc
    rcases ho with rfl | rfl | rfl
    · exact .inr ⟨rfl,c.bar,(relocated_iff r _ _).mpr hc,isBaseRegister_barOff.mpr (by omega)⟩
    · exact .inl (isBaseRegister_barOff.mpr (by omega))
    · rw [barOff_succ]
      exact .inl (isBaseRegister_barOff.mpr hbar)
  · intro f o hf ht
    obtain ⟨c,hc,rfl,ho⟩ := (wrote_iff r f o).mp hf
    have hbar := h c hc
    have htwo : barCount 1 = 2 := rfl
    rw [ht,htwo] at hbar
    rw [barOff] at ho
    omega

/-- The scan keeps to base address registers, and spares the bus numbers and
windows of bridges, exactly when nothing else looks like a BAR above 4 GiB. -/
theorem writesBars_iff (hw : Hardware) (r : Registers) (fbBase : ℕ) :
    WritesBars r (pciRemapAbove4gBars hw r fbBase) ↔ OnlyBars r :=
  ⟨onlyBars_of_writesBars,writesBars_of_onlyBars⟩

/-! ### A bridge -/

def bridge : PciFunction := ⟨4,0,0⟩

/-- A PCI-to-PCI bridge on bus 4: primary bus 4, secondary and subordinate bus 5,
I/O window 0x1000. -/
def bridgeRegisters : Registers := fun a =>
  if a = configAddress bridge 0x00 then 0x00011B36
  else if a = configAddress bridge 0x04 then 0x00000007
  else if a = configAddress bridge 0x0C then 0x00010000
  else if a = configAddress bridge 0x18 then 0x00050504
  else if a = configAddress bridge 0x1C then 0x00001010
  else if a = configAddress bridge 0x10 ∨ a = configAddress bridge 0x14 ∨
    a = configAddress bridge 0x20 ∨ a = configAddress bridge 0x24 then 0
  else 0xFFFFFFFF

/-- The bus-number register ends in binary 0100 and is taken for a 64-bit BAR. -/
theorem bridgeRegisters_not_writesBars :
    ¬WritesBars bridgeRegisters (pciRemapAbove4gBars (fun _ _ v => v) bridgeRegisters 0) := by
  intro h
  have hc : (⟨bridge,2⟩ : Candidate) ∈ candidates bridgeRegisters := by
    refine List.mem_flatMap.mpr ⟨4,List.mem_finRange 4,?_⟩
    refine List.mem_flatMap.mpr ⟨0,List.mem_finRange 0,?_⟩
    refine List.mem_flatMap.mpr ⟨bridge,?_,?_⟩
    · decide +kernel
    · decide +kernel
  have hbar := onlyBars_of_writesBars h _ hc
  revert hbar
  decide +kernel

end Gemiboot.PciRemap
