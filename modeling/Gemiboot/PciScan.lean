import Gemiboot.ByteMemory

/-!
# The scan for BARs above 4 GiB

`pci_remap_above_4g_bars` of the 64-bit loader over all configuration registers.
How a register takes a write is a parameter: it may depend on the register, its
value and the value written. Which BARs the scan relocates is decided by the
registers it starts from, so the whole scan is one fold over a list of them.
-/
namespace Gemiboot.PciRemap
open ByteMemory

structure PciFunction where
  bus : Fin 256
  slot : Fin 32
  func : Fin 8
  deriving DecidableEq

instance buses_neZero : NeZero 256 := ⟨by decide⟩
instance slots_neZero : NeZero 32 := ⟨by decide⟩
instance funcs_neZero : NeZero 8 := ⟨by decide⟩

/-- The dword written to port CF8. -/
def configAddress (f : PciFunction) (offset : ℕ) : ℕ :=
  1<<<31 ||| f.bus.val<<<16 ||| f.slot.val<<<11 ||| f.func.val<<<8 ||| (offset &&& 0xFC)

/-- Configuration space, by that dword. -/
abbrev Registers := ℕ → ℕ

/-- The value of a register after a write: its address, its value, the value written. -/
abbrev Hardware := ℕ → ℕ → ℕ → ℕ

def pciRead32 (r : Registers) (f : PciFunction) (offset : ℕ) : ℕ := u32 (r (configAddress f offset))

structure Write where
  fn : PciFunction
  offset : ℕ
  val : ℕ

structure Relocation where
  fn : PciFunction
  bar : ℕ
  targetBase : ℕ

structure Scan where
  regs : Registers
  next32bitBase : ℕ
  newFbBase : ℕ
  /-- Ghost: every write, the latest first. -/
  writes : List Write
  /-- Ghost: every window given out, the latest first. -/
  relocated : List Relocation

def pciWrite32 (hw : Hardware) (f : PciFunction) (offset val : ℕ) (s : Scan) : Scan :=
  let a := configAddress f offset
  {s with regs := Function.update s.regs a (hw a (s.regs a) val), writes := ⟨f,offset,val⟩::s.writes}

/-- `(bar_high << 32) | (bar_low & ~0xF)`. -/
def barAddr (barLow barHigh : ℕ) : ℕ := barHigh<<<32 ||| barLow.ldiff 0xF

/-- A memory BAR of the 64-bit type, other than in the last dword. -/
def IsWide (barLow bar : ℕ) : Prop :=
  barLow &&& 0x01 = 0 ∧ barLow>>>1 &&& 0x03 = 0x02 ∧ bar+1 < 6

def Above4g (barLow barHigh : ℕ) : Prop := barHigh ≠ 0 ∨ barAddr barLow barHigh > 0xFFFFFFFF

instance (barLow bar : ℕ) : Decidable (IsWide barLow bar) := inferInstanceAs (Decidable (_ ∧ _))

instance (barLow barHigh : ℕ) : Decidable (Above4g barLow barHigh) :=
  inferInstanceAs (Decidable (_ ∨ _))

/-- `bar_len` from what the low dword reads after all ones were written to it. -/
def barLen (probe : ℕ) : ℕ :=
  let len := u32 (4294967295-probe.ldiff 0xF+1)
  if len = 0 ∨ len > 0x20000000 then 0x10000000 else len

/-- `(next_32bit_base - bar_len) & ~(bar_len - 1)`. -/
def nextBase (next len : ℕ) : ℕ := (u32 (next+4294967296-len)).ldiff (len-1)

def u64 (n : ℕ) : ℕ := n % 18446744073709551616

def barOff (bar : ℕ) : ℕ := 0x10+bar*4

/-- One BAR: decoding off, probe, allocate, reprogram, decoding on. -/
def relocateBar (hw : Hardware) (fbBase : ℕ) (f : PciFunction) (bar barLow barHigh : ℕ) (s : Scan) :
    Scan :=
  let addr := barAddr barLow barHigh
  let cmd := pciRead32 s.regs f 0x04
  let s := pciWrite32 hw f 0x04 (cmd.ldiff 0x02) s
  let s := pciWrite32 hw f (barOff bar) 0xFFFFFFFF s
  let len := barLen (pciRead32 s.regs f (barOff bar))
  let targetBase := nextBase s.next32bitBase len
  let s := pciWrite32 hw f (barOff bar) (targetBase ||| (barLow &&& 0x0F)) s
  let s := pciWrite32 hw f (barOff bar+4) 0 s
  let s := pciWrite32 hw f 0x04 (cmd ||| 0x06) s
  {s with
    next32bitBase := targetBase
    newFbBase := if addr ≠ 0 ∧ fbBase ≥ addr ∧ fbBase < u64 (addr+len) then
      u64 (targetBase+(fbBase-addr)) else s.newFbBase
    relocated := ⟨f,bar,targetBase⟩::s.relocated}

/-- The loop over the six dwords; a 64-bit BAR takes two of them. -/
def scanBars (hw : Hardware) (fbBase : ℕ) (f : PciFunction) : ℕ → ℕ → Scan → Scan
  | 0,_,s => s
  | fuel+1,bar,s =>
      if bar < 6 then
        let barLow := pciRead32 s.regs f (barOff bar)
        if IsWide barLow bar then
          let barHigh := pciRead32 s.regs f (barOff bar+4)
          if Above4g barLow barHigh then
            scanBars hw fbBase f fuel (bar+2) (relocateBar hw fbBase f bar barLow barHigh s)
          else scanBars hw fbBase f fuel (bar+2) s
        else scanBars hw fbBase f fuel (bar+1) s
      else s

/-- No function answers at this address. -/
def Absent (r : Registers) (f : PciFunction) : Prop :=
  pciRead32 r f 0x00 &&& 0xFFFF = 0xFFFF ∨ pciRead32 r f 0x00 &&& 0xFFFF = 0x0000

instance (r : Registers) (f : PciFunction) : Decidable (Absent r f) :=
  inferInstanceAs (Decidable (_ ∨ _))

/-- Function 0 of a device without the multi-function bit. -/
def SingleFunction (r : Registers) (f : PciFunction) : Prop :=
  f.func = 0 ∧ pciRead32 r f 0x0C>>>16 &&& 0x80 = 0

instance (r : Registers) (f : PciFunction) : Decidable (SingleFunction r f) :=
  inferInstanceAs (Decidable (_ ∧ _))

def scanFuncs (hw : Hardware) (fbBase : ℕ) (bus : Fin 256) (slot : Fin 32) :
    List (Fin 8) → Scan → Scan
  | [],s => s
  | func::rest,s =>
      let f := ⟨bus,slot,func⟩
      if Absent s.regs f then
        if func = 0 then s else scanFuncs hw fbBase bus slot rest s
      else
        let s := scanBars hw fbBase f 6 0 s
        if SingleFunction s.regs f then s else scanFuncs hw fbBase bus slot rest s

/-- The whole scan; `newFbBase` is what it returns. -/
def pciRemapAbove4gBars (hw : Hardware) (r : Registers) (fbBase : ℕ) : Scan :=
  (List.finRange 256).foldl (fun s bus =>
    (List.finRange 32).foldl (fun s slot =>
      scanFuncs hw fbBase bus slot (List.finRange 8) s) s) ⟨r,0xE0000000,fbBase,[],[]⟩

/-! ### Addresses -/

theorem configAddress_eq (f : PciFunction) (offset : ℕ) : configAddress f offset =
    2147483648+(f.bus.val*65536+(f.slot.val*2048+(f.func.val*256+(offset &&& 0xFC)))) := by
  have h₀ : offset &&& 0xFC ≤ 0xFC := Nat.and_le_right
  have h₁ := f.func.isLt
  have h₂ := f.slot.isLt
  have h₃ := f.bus.isLt
  have hs : ∀ a i b, b < 2^i → a<<<i ||| b = a*2^i+b := by
    intro a i b hb
    rw [← Nat.shiftLeft_add_eq_or_of_lt hb,Nat.shiftLeft_eq]
  simp only [configAddress,Nat.or_assoc]
  rw [hs _ 8 _ (by omega),hs _ 11 _ (by omega),hs _ 16 _ (by omega),hs _ 31 _ (by omega)]
  omega

/-- Different registers have different addresses. -/
theorem configAddress_inj {f f' : PciFunction} {o o' : ℕ} :
    configAddress f o = configAddress f' o' ↔ f = f' ∧ o &&& 0xFC = o' &&& 0xFC := by
  constructor
  · intro h
    rw [configAddress_eq,configAddress_eq] at h
    have h₀ : o &&& 0xFC ≤ 0xFC := Nat.and_le_right
    have h₀' : o' &&& 0xFC ≤ 0xFC := Nat.and_le_right
    obtain ⟨bus,slot,func⟩ := f
    obtain ⟨bus',slot',func'⟩ := f'
    have h₁ := func.isLt
    have h₁' := func'.isLt
    have h₂ := slot.isLt
    have h₂' := slot'.isLt
    dsimp only at h
    have hb : bus = bus' := Fin.ext (by omega)
    have hsl : slot = slot' := Fin.ext (by omega)
    have hf : func = func' := Fin.ext (by omega)
    subst hb hsl hf
    exact ⟨rfl,by omega⟩
  · rintro ⟨rfl,h⟩
    rw [configAddress,configAddress,h]

theorem and_dword {o : ℕ} (h : o < 256) (h4 : o%4 = 0) : o &&& 0xFC = o := by
  have hall : ∀ k < 64, 4*k &&& 0xFC = 4*k := by decide
  have := hall (o/4) (by omega)
  rwa [show 4*(o/4) = o by omega] at this

/-! ### What is relocated -/

/-- The low dword of a BAR that the scan relocates. -/
structure Candidate where
  fn : PciFunction
  bar : ℕ
  deriving DecidableEq

/-- The loop over the dwords, without its effect. -/
def barWalk (r : Registers) (f : PciFunction) : ℕ → ℕ → List Candidate
  | 0,_ => []
  | fuel+1,bar =>
      if bar < 6 then
        if IsWide (pciRead32 r f (barOff bar)) bar then
          if Above4g (pciRead32 r f (barOff bar)) (pciRead32 r f (barOff bar+4)) then
            ⟨f,bar⟩::barWalk r f fuel (bar+2)
          else barWalk r f fuel (bar+2)
        else barWalk r f fuel (bar+1)
      else []

/-- The functions of a device that the scan looks at. -/
def visitedFuncs (r : Registers) (bus : Fin 256) (slot : Fin 32) : List (Fin 8) → List PciFunction
  | [] => []
  | func::rest =>
      if Absent r ⟨bus,slot,func⟩ then
        if func = 0 then [] else visitedFuncs r bus slot rest
      else if SingleFunction r ⟨bus,slot,func⟩ then [⟨bus,slot,func⟩]
      else ⟨bus,slot,func⟩::visitedFuncs r bus slot rest

def functionCandidates (r : Registers) (f : PciFunction) : List Candidate := barWalk r f 6 0

def deviceCandidates (r : Registers) (bus : Fin 256) (slot : Fin 32) : List Candidate :=
  (visitedFuncs r bus slot (List.finRange 8)).flatMap (functionCandidates r)

def busCandidates (r : Registers) (bus : Fin 256) : List Candidate :=
  (List.finRange 32).flatMap (deviceCandidates r bus)

/-- Every BAR the scan relocates, in its order. -/
def candidates (r : Registers) : List Candidate := (List.finRange 256).flatMap (busCandidates r)

def relocate (hw : Hardware) (fbBase : ℕ) (s : Scan) (c : Candidate) : Scan :=
  relocateBar hw fbBase c.fn c.bar (pciRead32 s.regs c.fn (barOff c.bar))
    (pciRead32 s.regs c.fn (barOff c.bar+4)) s

/-! ### What a relocation leaves alone -/

variable {hw : Hardware} {fbBase : ℕ}

theorem pciRead32_write {f f' : PciFunction} {o o' val : ℕ} {s : Scan}
    (h : f' = f → o' &&& 0xFC ≠ o &&& 0xFC) :
    pciRead32 (pciWrite32 hw f o val s).regs f' o' = pciRead32 s.regs f' o' := by
  have hne : configAddress f' o' ≠ configAddress f o := by
    intro he
    obtain ⟨hf,ho⟩ := configAddress_inj.mp he
    exact h hf ho
  rw [pciRead32,pciWrite32,pciRead32]
  dsimp only
  rw [Function.update_of_ne hne]

/-- The registers a relocation writes. -/
def Candidate.Touches (c : Candidate) (f : PciFunction) (o : ℕ) : Prop :=
  f = c.fn ∧ (o &&& 0xFC = 0x04 ∨ o &&& 0xFC = barOff c.bar &&& 0xFC ∨
    o &&& 0xFC = barOff c.bar+4 &&& 0xFC)

theorem pciRead32_relocate {s : Scan} {c : Candidate} {f : PciFunction} {o : ℕ}
    (h : ¬c.Touches f o) : pciRead32 (relocate hw fbBase s c).regs f o = pciRead32 s.regs f o := by
  have h₀ : f = c.fn → o &&& 0xFC ≠ 0x04 &&& 0xFC := fun hf ho => h ⟨hf,.inl ho⟩
  have h₁ : f = c.fn → o &&& 0xFC ≠ barOff c.bar &&& 0xFC := fun hf ho => h ⟨hf,.inr (.inl ho)⟩
  have h₂ : f = c.fn → o &&& 0xFC ≠ barOff c.bar+4 &&& 0xFC :=
    fun hf ho => h ⟨hf,.inr (.inr ho)⟩
  rw [relocate,relocateBar]
  simp only [pciRead32_write h₀,pciRead32_write h₁,pciRead32_write h₂]

theorem pciRead32_foldl {cs : List Candidate} {s : Scan} {f : PciFunction} {o : ℕ}
    (h : ∀ c ∈ cs, ¬c.Touches f o) :
    pciRead32 (cs.foldl (relocate hw fbBase) s).regs f o = pciRead32 s.regs f o := by
  induction cs generalizing s with
  | nil => rfl
  | cons c cs ih =>
      rw [List.foldl_cons,ih fun c' hc => h c' (.tail c hc),pciRead32_relocate (h c (.head cs))]

/-! ### The scan as a fold -/

theorem barOff_and {i : ℕ} (h : i < 6) : barOff i &&& 0xFC = barOff i :=
  and_dword (by rw [barOff]; omega) (by rw [barOff]; omega)

theorem barOff_succ (i : ℕ) : barOff i+4 = barOff (i+1) := by
  rw [barOff,barOff]
  omega

theorem barWalk_mem {r : Registers} {f : PciFunction} {fuel bar : ℕ} {c : Candidate}
    (h : c ∈ barWalk r f fuel bar) : c.fn = f ∧ bar ≤ c.bar ∧ c.bar+1 < 6 := by
  induction fuel generalizing bar with
  | zero => cases h
  | succ fuel ih =>
      rw [barWalk] at h
      split_ifs at h with h₁ h₂ h₃
      · rcases List.mem_cons.mp h with rfl | h
        · exact ⟨rfl,le_rfl,h₂.2.2⟩
        · obtain ⟨hf,hb,hc⟩ := ih h
          exact ⟨hf,by omega,hc⟩
      · obtain ⟨hf,hb,hc⟩ := ih h
        exact ⟨hf,by omega,hc⟩
      · obtain ⟨hf,hb,hc⟩ := ih h
        exact ⟨hf,by omega,hc⟩
      · cases h

/-- The walk looks at the dwords from its position on. -/
theorem barWalk_congr {r r' : Registers} {f : PciFunction} {fuel bar : ℕ}
    (h : ∀ i, bar ≤ i → i < 6 → pciRead32 r' f (barOff i) = pciRead32 r f (barOff i)) :
    barWalk r' f fuel bar = barWalk r f fuel bar := by
  induction fuel generalizing bar with
  | zero => rfl
  | succ fuel ih =>
      rw [barWalk,barWalk]
      by_cases hlt : bar < 6
      · rw [if_pos hlt,if_pos hlt,h bar le_rfl hlt,
          ih fun i hi => h i (by omega),ih fun i hi => h i (by omega)]
        by_cases hw : IsWide (pciRead32 r f (barOff bar)) bar
        · rw [if_pos hw,if_pos hw,barOff_succ,h (bar+1) (by omega) hw.2.2]
        · rw [if_neg hw,if_neg hw]
      · rw [if_neg hlt,if_neg hlt]

theorem scanBars_eq (f : PciFunction) (fuel bar : ℕ) (s : Scan) :
    scanBars hw fbBase f fuel bar s = (barWalk s.regs f fuel bar).foldl (relocate hw fbBase) s := by
  induction fuel generalizing bar s with
  | zero => rfl
  | succ fuel ih =>
      rw [scanBars,barWalk]
      by_cases hlt : bar < 6
      · simp only [if_pos hlt]
        by_cases hw₁ : IsWide (pciRead32 s.regs f (barOff bar)) bar
        · simp only [if_pos hw₁]
          by_cases ha : Above4g (pciRead32 s.regs f (barOff bar)) (pciRead32 s.regs f (barOff bar+4))
          · simp only [if_pos ha,List.foldl_cons]
            have hstep : relocateBar hw fbBase f bar (pciRead32 s.regs f (barOff bar))
                (pciRead32 s.regs f (barOff bar+4)) s = relocate hw fbBase s ⟨f,bar⟩ := rfl
            rw [hstep,ih]
            congr 1
            -- the two dwords just written are behind the walk
            apply barWalk_congr
            intro i hi hi6
            apply pciRead32_relocate
            rintro ⟨-,ht⟩
            have hbar := hw₁.2.2
            rw [barOff_and hi6,barOff_succ,barOff_and hlt,barOff_and hbar] at ht
            simp only [barOff] at ht
            omega
          · simp only [if_neg ha,ih]
        · simp only [if_neg hw₁,ih]
      · simp only [if_neg hlt,List.foldl_nil]

/-- Two states of configuration space in which a function reads the same. -/
def SameFunction (r r' : Registers) (f : PciFunction) : Prop :=
  ∀ o, pciRead32 r' f o = pciRead32 r f o

theorem functionCandidates_congr {r r' : Registers} {f : PciFunction} (h : SameFunction r r' f) :
    functionCandidates r' f = functionCandidates r f :=
  barWalk_congr fun i _ _ => h (barOff i)

theorem visitedFuncs_congr {r r' : Registers} {bus : Fin 256} {slot : Fin 32} {fs : List (Fin 8)}
    (h : ∀ func ∈ fs, SameFunction r r' ⟨bus,slot,func⟩) :
    visitedFuncs r' bus slot fs = visitedFuncs r bus slot fs := by
  induction fs with
  | nil => rfl
  | cons func fs ih =>
      have hf := h func (.head fs)
      have ha : Absent r' ⟨bus,slot,func⟩ ↔ Absent r ⟨bus,slot,func⟩ := by
        rw [Absent,Absent,hf 0x00]
      have hs : SingleFunction r' ⟨bus,slot,func⟩ ↔ SingleFunction r ⟨bus,slot,func⟩ := by
        rw [SingleFunction,SingleFunction,hf 0x0C]
      rw [visitedFuncs,visitedFuncs,ih fun x hx => h x (.tail func hx)]
      simp only [ha,hs]

theorem visitedFuncs_mem {r : Registers} {bus : Fin 256} {slot : Fin 32} {fs : List (Fin 8)}
    {f : PciFunction} (h : f ∈ visitedFuncs r bus slot fs) :
    f.bus = bus ∧ f.slot = slot ∧ f.func ∈ fs := by
  induction fs with
  | nil => cases h
  | cons func fs ih =>
      rw [visitedFuncs] at h
      split_ifs at h with h₁ h₂ h₃
      · cases h
      · obtain ⟨hb,hs,hf⟩ := ih h
        exact ⟨hb,hs,.tail func hf⟩
      · obtain rfl := List.mem_singleton.mp h
        exact ⟨rfl,rfl,.head fs⟩
      · rcases List.mem_cons.mp h with rfl | h
        · exact ⟨rfl,rfl,.head fs⟩
        · obtain ⟨hb,hs,hf⟩ := ih h
          exact ⟨hb,hs,.tail func hf⟩

/-- Relocating BARs of other functions changes nothing of this one. -/
theorem sameFunction_foldl {cs : List Candidate} {s : Scan} {f : PciFunction}
    (h : ∀ c ∈ cs, c.fn ≠ f) : SameFunction s.regs (cs.foldl (relocate hw fbBase) s).regs f := by
  intro o
  apply pciRead32_foldl
  rintro c hc ⟨hf,-⟩
  exact h c hc hf.symm

/-- Vendor IDs and header types are never touched. -/
theorem Candidate.not_touches_ids {c : Candidate} (hc : c.bar+1 < 6) (f : PciFunction) :
    ¬c.Touches f 0x00 ∧ ¬c.Touches f 0x0C := by
  have h₀ : 0x00 &&& 0xFC = 0x00 := by decide
  have h₁ : 0x0C &&& 0xFC = 0x0C := by decide
  have hlow := barOff_and (show c.bar < 6 by omega)
  have hhigh := barOff_and hc
  constructor
  · intro h
    have ht := h.2
    rw [h₀,barOff_succ,hlow,hhigh] at ht
    simp only [barOff] at ht
    omega
  · intro h
    have ht := h.2
    rw [h₁,barOff_succ,hlow,hhigh] at ht
    simp only [barOff] at ht
    omega

theorem singleFunction_foldl {f : PciFunction} {fuel bar : ℕ} {s : Scan} :
    SingleFunction ((barWalk s.regs f fuel bar).foldl (relocate hw fbBase) s).regs f ↔
      SingleFunction s.regs f := by
  rw [SingleFunction,SingleFunction,pciRead32_foldl]
  exact fun c hc => (Candidate.not_touches_ids (barWalk_mem hc).2.2 f).2

theorem scanFuncs_eq (bus : Fin 256) (slot : Fin 32) {fs : List (Fin 8)} (hn : fs.Nodup)
    (s : Scan) : scanFuncs hw fbBase bus slot fs s =
      ((visitedFuncs s.regs bus slot fs).flatMap (functionCandidates s.regs)).foldl
        (relocate hw fbBase) s := by
  induction fs generalizing s with
  | nil => rfl
  | cons func fs ih =>
      obtain ⟨hnot,hn⟩ := List.nodup_cons.mp hn
      rw [scanFuncs,visitedFuncs]
      dsimp only
      by_cases ha : Absent s.regs ⟨bus,slot,func⟩
      · rw [if_pos ha,if_pos ha]
        by_cases h₀ : func = 0
        · rw [if_pos h₀,if_pos h₀]
          rfl
        · rw [if_neg h₀,if_neg h₀,ih hn]
      · rw [if_neg ha,if_neg ha,scanBars_eq]
        by_cases hs : SingleFunction s.regs ⟨bus,slot,func⟩
        · rw [if_pos (singleFunction_foldl.mpr hs),if_pos hs,List.flatMap_singleton]
          rfl
        · rw [if_neg (singleFunction_foldl.not.mpr hs),if_neg hs,List.flatMap_cons,
            List.foldl_append,ih hn]
          have hsame : ∀ x ∈ fs, SameFunction s.regs
              ((functionCandidates s.regs ⟨bus,slot,func⟩).foldl (relocate hw fbBase) s).regs
              ⟨bus,slot,x⟩ := by
            intro x hx
            apply sameFunction_foldl
            intro c hc he
            have hfn := (barWalk_mem hc).1
            rw [he] at hfn
            injection hfn with _ _ hfn
            exact hnot (hfn ▸ hx)
          have hcand : (visitedFuncs s.regs bus slot fs).flatMap (functionCandidates
              ((functionCandidates s.regs ⟨bus,slot,func⟩).foldl (relocate hw fbBase) s).regs) =
              (visitedFuncs s.regs bus slot fs).flatMap (functionCandidates s.regs) := by
            apply List.flatMap_congr
            rintro ⟨b,sl,x⟩ hf
            obtain ⟨rfl,rfl,hx⟩ := visitedFuncs_mem hf
            exact functionCandidates_congr (hsame x hx)
          rw [← hcand,← visitedFuncs_congr hsame]
          rfl

section Passes
variable {σ ι γ : Type*}

/-- Passes over items whose own work the passes before leave alone are one fold
over all the work there was at the start. -/
theorem foldl_passes (act : σ → γ → σ) (work : σ → ι → List γ) {l : List ι} (hn : l.Nodup)
    (h : ∀ s i j, i ≠ j → work ((work s i).foldl act s) j = work s j) (s : σ) :
    l.foldl (fun s i => (work s i).foldl act s) s = (l.flatMap (work s)).foldl act s := by
  induction l generalizing s with
  | nil => rfl
  | cons i l ih =>
      obtain ⟨hi,hn⟩ := List.nodup_cons.mp hn
      rw [List.foldl_cons,ih hn,List.flatMap_cons,List.foldl_append]
      congr 1
      apply List.flatMap_congr
      intro j hj
      exact h s i j fun he => hi (he ▸ hj)

end Passes

theorem deviceCandidates_mem {r : Registers} {bus : Fin 256} {slot : Fin 32} {c : Candidate}
    (h : c ∈ deviceCandidates r bus slot) : c.fn.bus = bus ∧ c.fn.slot = slot ∧ c.bar+1 < 6 := by
  obtain ⟨f,hf,hc⟩ := List.mem_flatMap.mp h
  obtain ⟨rfl,-,hbar⟩ := barWalk_mem hc
  obtain ⟨hb,hs,-⟩ := visitedFuncs_mem hf
  exact ⟨hb,hs,hbar⟩

theorem deviceCandidates_congr {r r' : Registers} {bus : Fin 256} {slot : Fin 32}
    (h : ∀ func, SameFunction r r' ⟨bus,slot,func⟩) :
    deviceCandidates r' bus slot = deviceCandidates r bus slot := by
  rw [deviceCandidates,deviceCandidates,visitedFuncs_congr fun func _ => h func]
  apply List.flatMap_congr
  rintro ⟨b,sl,x⟩ hf
  obtain ⟨rfl,rfl,-⟩ := visitedFuncs_mem hf
  exact functionCandidates_congr (h x)

theorem busCandidates_mem {r : Registers} {bus : Fin 256} {c : Candidate}
    (h : c ∈ busCandidates r bus) : c.fn.bus = bus ∧ c.bar+1 < 6 := by
  obtain ⟨slot,-,hc⟩ := List.mem_flatMap.mp h
  obtain ⟨hb,-,hbar⟩ := deviceCandidates_mem hc
  exact ⟨hb,hbar⟩

/-- What the walk takes passes both tests. -/
theorem barWalk_taken {r : Registers} {f : PciFunction} {fuel bar : ℕ} {c : Candidate}
    (h : c ∈ barWalk r f fuel bar) : IsWide (pciRead32 r f (barOff c.bar)) c.bar ∧
      Above4g (pciRead32 r f (barOff c.bar)) (pciRead32 r f (barOff c.bar+4)) := by
  induction fuel generalizing bar with
  | zero => cases h
  | succ fuel ih =>
      rw [barWalk] at h
      split_ifs at h with h₁ h₂ h₃
      · rcases List.mem_cons.mp h with rfl | h
        · exact ⟨h₂,h₃⟩
        · exact ih h
      · exact ih h
      · exact ih h
      · cases h

theorem candidates_isWide {r : Registers} {c : Candidate} (h : c ∈ candidates r) :
    IsWide (pciRead32 r c.fn (barOff c.bar)) c.bar := by
  obtain ⟨bus,-,h⟩ := List.mem_flatMap.mp h
  obtain ⟨slot,-,h⟩ := List.mem_flatMap.mp h
  obtain ⟨f,-,h⟩ := List.mem_flatMap.mp h
  obtain rfl := (barWalk_mem h).1
  exact (barWalk_taken h).1

theorem candidates_bar {r : Registers} {c : Candidate} (h : c ∈ candidates r) : c.bar+1 < 6 := by
  obtain ⟨bus,-,hc⟩ := List.mem_flatMap.mp h
  exact (busCandidates_mem hc).2

theorem scanSlot_eq (bus : Fin 256) (slot : Fin 32) (s : Scan) :
    scanFuncs hw fbBase bus slot (List.finRange 8) s =
      (deviceCandidates s.regs bus slot).foldl (relocate hw fbBase) s :=
  scanFuncs_eq bus slot (List.nodup_finRange 8) s

theorem scanBus_eq (bus : Fin 256) (s : Scan) :
    (List.finRange 32).foldl (fun s slot => scanFuncs hw fbBase bus slot (List.finRange 8) s) s =
      (busCandidates s.regs bus).foldl (relocate hw fbBase) s := by
  have hpass := foldl_passes (relocate hw fbBase) (fun s slot => deviceCandidates s.regs bus slot)
    (List.nodup_finRange 32)
  simp only [scanSlot_eq]
  rw [hpass,busCandidates]
  intro s i j hij
  apply deviceCandidates_congr
  intro func
  apply sameFunction_foldl
  intro c hc he
  have hs := (deviceCandidates_mem hc).2.1
  rw [he] at hs
  exact hij hs.symm

/-- The scan relocates the candidates of the registers it starts from. -/
theorem pciRemap_eq (hw : Hardware) (r : Registers) (fbBase : ℕ) :
    pciRemapAbove4gBars hw r fbBase =
      (candidates r).foldl (relocate hw fbBase) ⟨r,0xE0000000,fbBase,[],[]⟩ := by
  have hpass := foldl_passes (relocate hw fbBase) (fun s bus => busCandidates s.regs bus)
    (List.nodup_finRange 256)
  rw [pciRemapAbove4gBars,candidates]
  simp only [scanBus_eq]
  rw [hpass]
  intro s i j hij
  apply List.flatMap_congr
  intro slot _
  apply deviceCandidates_congr
  intro func
  apply sameFunction_foldl
  intro c hc he
  have hb := (busCandidates_mem hc).1
  rw [he] at hb
  exact hij hb.symm

/-! ### No BAR twice -/

/-- Lists that can be told apart by a key of their members have no common one. -/
theorem nodup_flatMap_of_key {ι γ : Type*} {l : List ι} {f : ι → List γ} (key : γ → ι)
    (hl : l.Nodup) (hf : ∀ i ∈ l, (f i).Nodup) (hk : ∀ i ∈ l, ∀ c ∈ f i, key c = i) :
    (l.flatMap f).Nodup := by
  refine List.nodup_flatMap.mpr ⟨hf,hl.imp_of_mem ?_⟩
  intro i j hi hj hij c hci hcj
  exact hij ((hk i hi c hci).symm.trans (hk j hj c hcj))

theorem barWalk_nodup (r : Registers) (f : PciFunction) (fuel bar : ℕ) :
    (barWalk r f fuel bar).Nodup := by
  induction fuel generalizing bar with
  | zero => exact .nil
  | succ fuel ih =>
      rw [barWalk]
      split_ifs
      · refine List.nodup_cons.mpr ⟨fun hc => ?_,ih _⟩
        have hle : bar+2 ≤ bar := (barWalk_mem hc).2.1
        omega
      · exact ih _
      · exact ih _
      · exact .nil

theorem visitedFuncs_nodup (r : Registers) (bus : Fin 256) (slot : Fin 32) {fs : List (Fin 8)}
    (hn : fs.Nodup) : (visitedFuncs r bus slot fs).Nodup := by
  induction fs with
  | nil => exact .nil
  | cons func fs ih =>
      obtain ⟨hnot,hn⟩ := List.nodup_cons.mp hn
      rw [visitedFuncs]
      split_ifs
      · exact .nil
      · exact ih hn
      · exact List.nodup_singleton _
      · exact List.nodup_cons.mpr ⟨fun hf => hnot (visitedFuncs_mem hf).2.2,ih hn⟩

theorem candidates_nodup (r : Registers) : (candidates r).Nodup := by
  apply nodup_flatMap_of_key (fun c : Candidate => c.fn.bus) (List.nodup_finRange 256)
  · intro bus _
    apply nodup_flatMap_of_key (fun c : Candidate => c.fn.slot) (List.nodup_finRange 32)
    · intro slot _
      apply nodup_flatMap_of_key (fun c : Candidate => c.fn)
        (visitedFuncs_nodup r bus slot (List.nodup_finRange 8))
      · exact fun f _ => barWalk_nodup r f 6 0
      · exact fun f _ c hc => (barWalk_mem hc).1
    · exact fun slot _ c hc => (deviceCandidates_mem hc).2.1
  · exact fun bus _ c hc => (busCandidates_mem hc).1

end Gemiboot.PciRemap
