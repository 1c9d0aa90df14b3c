import Gemiboot.Uefi64Handover
import Gemiboot.UefiInformation

/-!
# The boot information through the handover

What the end of `efi_main` does to memory, in both loaders: the pages of the trampoline,
one or many conversions of the memory map and the address of a framebuffer that was
moved. The structure told before comes through, with the map added.
-/
namespace Gemiboot.UefiHandoverMemory
open ByteMemory MultibootMap BootInformation UefiInformation UefiMemoryMap StateTransition
open UefiFileSearch (EfiStatus)
open GopModes (ModeInfo)

/-! ### The conversion of the memory map -/

/-- Memory with the map added to the structure. -/
structure Converted (m m' : Memory) : Prop where
  frame : ∀ x, ¬Written 120 x → m' x = m x
  flags : mbi m' flagsOff = mbi m flagsOff ||| (multibootInfoMemMap ||| multibootInfoMemory)

theorem convertLoop_above (buf : Memory) (descSize left i : ℕ) {c : Conversion} {x : ℕ}
    (hx : multibootInfoAddr ≤ x) :
    (convertLoop buf descSize left i c).mem x = c.mem x := by
  have hinfo : multibootInfoAddr = 610304 := rfl
  have hbuf : mmapBufferAddr = 32768 := rfl
  induction left generalizing i c with
  | zero => rfl
  | succ left ih =>
      unfold convertLoop
      split_ifs with hn
      · rw [ih]
        exact storeEntry_outside (.inr (by omega))
      · rfl

/-- The structure is marked whatever was in it. -/
theorem convertMemoryMap_flags {buf m m' : Memory} {mmapSize descSize : ℕ}
    (h : convertMemoryMap buf mmapSize descSize m = some m') : mbi m' flagsOff =
      mbi m flagsOff ||| (multibootInfoMemMap ||| multibootInfoMemory) := by
  unfold convertMemoryMap at h
  split_ifs at h
  obtain rfl := Option.some.inj h
  have hkeep : mbi (convertLoop buf descSize (mmapSize/descSize) 0 ⟨0,0,m⟩).mem flagsOff =
      mbi m flagsOff :=
    load_congr fun i _ => convertLoop_above _ _ _ _ ((Nat.le_add_right _ _).trans
      (Nat.le_add_right _ i))
  generalize convertLoop buf descSize (mmapSize/descSize) 0 ⟨0,0,m⟩ = c at hkeep
  have hcount : ∀ v, mbi (store 4 c.mem mmapBufferAddr v) flagsOff = mbi c.mem flagsOff :=
    fun v => load_store_outside (.inr (by decide))
  change mbi (addFlag (setMbi (setMbi (addFlag (setMbi (setMbi (store 4 c.mem mmapBufferAddr
    c.entryCount) mmapAddrOff _) mmapLengthOff _) multibootInfoMemMap) memLowerOff _) memUpperOff
    _) multibootInfoMemory) flagsOff = _
  rw [mbi_addFlag_flags _ (by decide),mbi_setMbi_of_ne (.inr (by decide)),
    mbi_setMbi_of_ne (.inr (by decide)),mbi_addFlag_flags _ (by decide),
    mbi_setMbi_of_ne (.inr (by decide)),mbi_setMbi_of_ne (.inr (by decide)),hcount,hkeep,
    Nat.or_assoc]

theorem convertMemoryMap_converted (buf : Memory) (mmapSize : ℕ) {descSize : ℕ} (m : Memory)
    (hd : descSize ≠ 0) : ∃ m', convertMemoryMap buf mmapSize descSize m = some m' ∧
      Describes (UefiMemoryMap.converted buf mmapSize descSize) m' ∧ Converted m m' := by
  obtain ⟨m',hm,hdesc,hframe⟩ := convertMemoryMap_some buf mmapSize m hd
  refine ⟨m',hm,hdesc,fun x hx => hframe x fun hw => hx ?_,convertMemoryMap_flags hm⟩
  have hn := converted_length buf mmapSize descSize
  rw [Written] at hw ⊢
  omega

/-! ### What the kernel is told -/

/-- The structure at the jump; `fbAddr` is where the framebuffer is by then. -/
abbrev Informs (name : List UInt8) (rsdp : ℕ) (display : Option (UInt64 × ModeInfo))
    (fbAddr : ℕ) (m : Memory) : Prop :=
  Tells name (toldFlags rsdp display ||| (multibootInfoMemMap ||| multibootInfoMemory))
    (u32 rsdp) {displayInfo display with addr := fbAddr} m

section Info
variable {name : List UInt8} {rsdp : ℕ} {display : Option (UInt64 × ModeInfo)} {m m' : Memory}

/-- The structure, the gap behind it and the name. -/
def InInfo (name : List UInt8) (x : ℕ) : Prop :=
  multibootInfoAddr ≤ x ∧ x ≤ nameAddr+name.length

theorem framebufferAt_congr (h : ∀ k, 88 ≤ k → k < 116 →
    m' (multibootInfoAddr+k) = m (multibootInfoAddr+k)) : framebufferAt m' = framebufferAt m := by
  have hload : ∀ v off, 88 ≤ off → off+v ≤ 116 →
      load v m' (multibootInfoAddr+off) = load v m (multibootInfoAddr+off) := by
    intro v off h₁ h₂
    apply load_congr
    intro i hi
    rw [Nat.add_assoc]
    exact h _ (by omega) (by omega)
  have hcolors : ((List.range 6).map fun i => mbiByte m' (framebufferRedFieldPositionOff+i)) =
      (List.range 6).map fun i => mbiByte m (framebufferRedFieldPositionOff+i) := by
    apply List.map_congr_left
    intro i hi
    have hlt := List.mem_range.mp hi
    exact hload 1 _ (by rw [framebufferRedFieldPositionOff]; omega)
      (by rw [framebufferRedFieldPositionOff]; omega)
  simp only [framebufferAt,hcolors]
  simp only [mbi,mbiByte]
  rw [hload 4 framebufferAddrLowOff (by decide) (by decide),
    hload 4 framebufferAddrHiOff (by decide) (by decide),
    hload 4 framebufferWidthOff (by decide) (by decide),
    hload 4 framebufferHeightOff (by decide) (by decide),
    hload 4 framebufferPitchOff (by decide) (by decide),
    hload 1 framebufferBppOff (by decide) (by decide),
    hload 1 framebufferTypeOff (by decide) (by decide)]

theorem mbi_congr {off : ℕ} (h : ∀ k, off ≤ k → k < off+4 →
    m' (multibootInfoAddr+k) = m (multibootInfoAddr+k)) : mbi m' off = mbi m off := by
  apply load_congr
  intro i hi
  rw [Nat.add_assoc]
  exact h _ (by omega) (by omega)

theorem tells_congr {flags config : ℕ} {d : FramebufferInfo} (h : Tells name flags config d m)
    (hm : ∀ x, InInfo name x → m' x = m x) : Tells name flags config d m' := by
  have hname := nameAddr_eq
  have hin : ∀ k < 116, m' (multibootInfoAddr+k) = m (multibootInfoAddr+k) := by
    intro k hk
    apply hm
    rw [InInfo]
    omega
  have hfield : ∀ off, off+4 ≤ 116 → mbi m' off = mbi m off :=
    fun off hoff => mbi_congr fun k h₁ h₂ => hin k (by omega)
  constructor
  · rw [hfield _ (by decide),h.flags]
  · rw [hfield _ (by decide),h.bootDevice]
  · rw [hfield _ (by decide),h.loaderName]
  · intro i hi
    rw [hm _ ⟨by omega,by omega⟩]
    exact h.name i hi
  · rw [hfield _ (by decide),h.configTable]
  · rw [framebufferAt_congr fun k _ hk => hin k hk,h.framebuffer]
  · intro k hk
    rw [hin k (by omega),h.rest k hk]

theorem displayInfo_base (display : Option (UInt64 × ModeInfo)) :
    {displayInfo display with addr := displayBase display} = displayInfo display := by
  cases display <;> rfl

/-- The conversion adds the two flags of the map. -/
theorem informs_of_told (h : Told name rsdp display m) (hc : Converted m m') :
    Informs name rsdp display (displayBase display) m' := by
  have hname := nameAddr_eq
  have hinfo : multibootInfoAddr = 610304 := rfl
  have hbuf : mmapBufferAddr = 32768 := rfl
  have hlength : mmapLengthOff = 44 := rfl
  have hkeep : ∀ k, 12 ≤ k ∧ k < 44 ∨ 52 ≤ k →
      m' (multibootInfoAddr+k) = m (multibootInfoAddr+k) := by
    intro k hk
    apply hc.frame
    rw [Written]
    omega
  have hfield : ∀ off, 12 ≤ off ∧ off+4 ≤ 44 ∨ 52 ≤ off → mbi m' off = mbi m off :=
    fun off hoff => mbi_congr fun k h₁ h₂ => hkeep k (by omega)
  constructor
  · rw [hc.flags,h.flags]
  · rw [hfield _ (.inl (by decide)),h.bootDevice]
  · rw [hfield _ (.inr (by decide)),h.loaderName]
  · intro i hi
    have hx := hkeep (256+i) (.inr (by omega))
    rw [← Nat.add_assoc,← hname] at hx
    rw [hx]
    exact h.name i hi
  · rw [hfield _ (.inr (by decide)),h.configTable]
  · rw [framebufferAt_congr fun k hk _ => hkeep k (.inr (by omega)),h.framebuffer,
      displayInfo_base]
  · intro k hk
    rw [hkeep k (by omega),h.rest k hk]

/-- `efi_main` with another address of the framebuffer. -/
def setAddress (newFb : ℕ) (m : Memory) : Memory :=
  setMbi (setMbi m framebufferAddrLowOff (u32 newFb)) framebufferAddrHiOff (u32 (newFb>>>32))

theorem framebufferAt_setAddress {newFb : ℕ} (h : newFb < 18446744073709551616) (m : Memory) :
    framebufferAt (setAddress newFb m) = {framebufferAt m with addr := newFb} := by
  have hhalves := halves h
  have hlow := u32_lt newFb
  have hhigh := u32_lt (newFb>>>32)
  have hcolors : ((List.range 6).map fun i => mbiByte (setAddress newFb m)
      (framebufferRedFieldPositionOff+i)) =
      (List.range 6).map fun i => mbiByte m (framebufferRedFieldPositionOff+i) := by
    apply List.map_congr_left
    intro i _
    simp only [mbiByte,setAddress,setMbi,multibootInfoAddr,framebufferAddrLowOff,
      framebufferAddrHiOff,framebufferRedFieldPositionOff]
    simp (disch := omega) only [load_store_outside]
  simp only [framebufferAt,hcolors]
  simp only [mbi,mbiByte,setAddress,setMbi,multibootInfoAddr,framebufferAddrLowOff,
    framebufferAddrHiOff,framebufferWidthOff,framebufferHeightOff,framebufferPitchOff,
    framebufferBppOff,framebufferTypeOff]
  simp (disch := omega) only [load_store_outside,load_store_of_lt,hhalves]

theorem informs_moved {fbAddr newFb : ℕ} (h : Informs name rsdp display fbAddr m)
    (hlt : newFb < 18446744073709551616) :
    Informs name rsdp display newFb (setAddress newFb m) := by
  have hname := nameAddr_eq
  have hkeep : ∀ x, x < multibootInfoAddr+88 ∨ multibootInfoAddr+96 ≤ x →
      setAddress newFb m x = m x := by
    intro x hx
    rw [setAddress,setMbi_outside (by rw [framebufferAddrHiOff]; omega),
      setMbi_outside (by rw [framebufferAddrLowOff]; omega)]
  have hfield : ∀ off, off+4 ≤ 88 → mbi (setAddress newFb m) off = mbi m off :=
    fun off hoff => mbi_congr fun k h₁ h₂ => hkeep _ (.inl (by omega))
  constructor
  · rw [hfield _ (by decide),h.flags]
  · rw [hfield _ (by decide),h.bootDevice]
  · rw [hfield _ (by decide),h.loaderName]
  · intro i hi
    rw [hkeep _ (.inr (by omega))]
    exact h.name i hi
  · rw [hfield _ (by decide),h.configTable]
  · rw [framebufferAt_setAddress hlt,h.framebuffer]
  · intro k hk
    rw [hkeep _ (.inl (by omega)),h.rest k hk]

end Info

/-! ### The 64-bit handover -/

section Handover64
open UefiHandover PciRemap
variable {fw : Efi64.Firmware} {img : Efi64.Image} {hw : Hardware} {mem : Memory}
  {regs : Registers} {gFbBase : ℕ}

/-- What the copies of the trampoline and the GDT at `t` write. -/
def InPages (img : Efi64.Image) (t x : ℕ) : Prop :=
  t ≤ x ∧ x < t+img.trampSize ∨ t+0x800 ≤ x ∧ x < t+0x800+img.gdtSize

/-- Nothing has changed but the pages that were granted, and the copies are there. -/
structure OnlyPages (fw : Efi64.Firmware) (img : Efi64.Image) (m m' : Memory) : Prop where
  outside : ∀ x, (∀ t, fw.granted = some t → ¬InPages img t x) → m' x = m x
  code : ∀ t, fw.granted = some t → img.trampSize ≤ 0x800 →
    ∀ i < img.trampSize, m' (t+i) = img.trampoline i
  gdt : ∀ t, fw.granted = some t → ∀ i < img.gdtSize, m' (t+0x800+i) = img.gdtTable i

/-- The framebuffer that the scan leaves, in the variable and in the structure. -/
structure Moved (newFb gFbBase : ℕ) (m : Memory) (s : Efi64.State) : Prop where
  base : s.gFbBase = newFb
  mem : s.mem = if newFb ≠ gFbBase then setAddress newFb m else m

/-- What is known of memory at each point of the run. -/
def Inv64 (fw : Efi64.Firmware) (img : Efi64.Image) (hw : Hardware) (mem : Memory)
    (regs : Registers) (gFbBase : ℕ) (s : Efi64.State) : Prop :=
  match s.label with
  | .allocateAddress => s.mem = mem ∧ s.regs = regs ∧ s.gFbBase = gFbBase
  | .allocateMaxAddress =>
      fw.allocateAddress.1 ≠ true ∧ s.mem = mem ∧ s.regs = regs ∧ s.gFbBase = gFbBase
  | .copyTrampoline =>
      fw.granted = some s.trampPhys ∧ s.mem = mem ∧ s.regs = regs ∧ s.gFbBase = gFbBase
  | .getMap | .exitBoot | .convert =>
      OnlyPages fw img mem s.mem ∧ s.regs = regs ∧ s.gFbBase = gFbBase
  | .remap => (∃ m, OnlyPages fw img mem m ∧ Converted m s.mem) ∧ s.regs = regs ∧
      s.gFbBase = gFbBase
  | .jump => ∃ m m', OnlyPages fw img mem m ∧ Converted m m' ∧
      Moved (pciRemapAbove4gBars hw regs gFbBase).newFbBase gFbBase m' s
  | .fault => True

theorem onlyPages_copy {t : ℕ} (h : fw.granted = some t) :
    OnlyPages fw img mem (blit (blit mem t img.trampSize img.trampoline) (t+0x800) img.gdtSize
      img.gdtTable) := by
  constructor
  · intro x hx
    have hout := hx t h
    rw [InPages] at hout
    rw [blit_outside (by omega),blit_outside (by omega)]
  · intro t' ht hsize i hi
    obtain rfl := Option.some.inj (h.symm.trans ht)
    rw [blit_outside (by omega),blit_at hi]
  · intro t' ht i hi
    obtain rfl := Option.some.inj (h.symm.trans ht)
    exact blit_at hi

theorem start_inv64 (buf : Memory) :
    Inv64 fw img hw mem regs gFbBase (Efi64.start buf mem regs gFbBase) := ⟨rfl,rfl,rfl⟩

/-- The first allocation goes on to the copy or to the second one. -/
theorem allocateAddress_inv64 {s : Efi64.State} (hl : s.label = .allocateAddress)
    (h : Inv64 fw img hw mem regs gFbBase s) :
    Inv64 fw img hw mem regs gFbBase (s.allocate fw.allocateAddress .allocateMaxAddress) := by
  rw [Inv64,hl] at h
  by_cases hok : fw.allocateAddress.1 = true
  · rw [Efi64.allocate_granted hok]
    exact ⟨if_pos hok,h⟩
  · rw [Efi64.allocate_denied hok]
    exact ⟨hok,h⟩

theorem allocateMaxAddress_inv64 {s : Efi64.State} (hl : s.label = .allocateMaxAddress)
    (h : Inv64 fw img hw mem regs gFbBase s) : Inv64 fw img hw mem regs gFbBase
      ({s with trampPhys := 0xFFFFFFFF}.allocate fw.allocateMaxAddress .getMap) := by
  rw [Inv64,hl] at h
  by_cases hok : fw.allocateMaxAddress.1 = true
  · rw [Efi64.allocate_granted hok]
    refine ⟨?_,h.2⟩
    rw [Efi64.Firmware.granted,if_neg h.1,if_pos hok]
  · have hnone : fw.granted = none := by
      rw [Efi64.Firmware.granted,if_neg h.1,if_neg hok]
    rw [Efi64.allocate_denied hok]
    refine ⟨⟨fun x _ => congrFun h.2.1 x,fun t ht => ?_,fun t ht => ?_⟩,h.2.2⟩
    · rw [hnone] at ht
      cases ht
    · rw [hnone] at ht
      cases ht

theorem copyTrampoline_inv64 {s : Efi64.State} (hl : s.label = .copyTrampoline)
    (h : Inv64 fw img hw mem regs gFbBase s) :
    Inv64 fw img hw mem regs gFbBase (s.copyTrampoline img) := by
  rw [Inv64,hl] at h
  obtain ⟨hg,rfl,hrest⟩ := h
  exact ⟨onlyPages_copy hg,hrest⟩

theorem getMap_inv64 {s : Efi64.State} (hl : s.label = .getMap)
    (h : Inv64 fw img hw mem regs gFbBase s) : Inv64 fw img hw mem regs gFbBase (s.getMap fw) := by
  rw [Inv64,hl] at h
  by_cases hr : s.retry < 10
  · by_cases hok : (fw.getMemoryMap s.retry).success = true
    · rw [Efi64.getMap_success hr hok]
      exact h
    · rw [Efi64.getMap_failure hr hok]
      exact h
  · rw [Efi64.State.getMap,if_neg hr]
    exact h

theorem exitBoot_inv64 {s : Efi64.State} (hl : s.label = .exitBoot)
    (h : Inv64 fw img hw mem regs gFbBase s) :
    Inv64 fw img hw mem regs gFbBase (s.exitBoot fw) := by
  rw [Inv64,hl] at h
  rw [Efi64.State.exitBoot]
  dsimp only
  split_ifs
  · exact h
  · exact h

theorem convert_inv64 {s : Efi64.State} (hl : s.label = .convert)
    (h : Inv64 fw img hw mem regs gFbBase s) : Inv64 fw img hw mem regs gFbBase s.convert := by
  rw [Inv64,hl] at h
  rw [Efi64.State.convert]
  by_cases hd : s.descSize = 0
  · have hnone : convertMemoryMap s.buf s.mmapSize s.descSize s.mem = none := by
      rw [convertMemoryMap,if_pos hd]
    rw [hnone]
    trivial
  · obtain ⟨m',hm,-,hc⟩ := convertMemoryMap_converted s.buf s.mmapSize s.mem hd
    dsimp only
    rw [hm]
    exact ⟨⟨s.mem,h.1,hc⟩,h.2⟩

theorem moveFramebuffer_moved (scan : Scan) (s : Efi64.State) :
    Moved scan.newFbBase s.gFbBase s.mem (s.moveFramebuffer scan) := by
  generalize hn : scan.newFbBase = newFb
  rw [Efi64.State.moveFramebuffer]
  dsimp only
  rw [hn]
  by_cases hne : newFb = s.gFbBase
  · rw [if_neg (not_not.mpr hne)]
    exact ⟨hne.symm,(if_neg (not_not.mpr hne)).symm⟩
  · rw [if_pos hne]
    exact ⟨rfl,(if_pos hne).symm⟩

theorem remap_inv64 {s : Efi64.State} (hl : s.label = .remap)
    (h : Inv64 fw img hw mem regs gFbBase s) :
    Inv64 fw img hw mem regs gFbBase (s.remap hw) := by
  rw [Inv64,hl] at h
  obtain ⟨⟨m,hm,hc⟩,rfl,rfl⟩ := h
  rw [Inv64,(Efi64.remap_fields hw s).1]
  exact ⟨m,s.mem,hm,hc,moveFramebuffer_moved _ s⟩

theorem step_inv64 {s s' : Efi64.State} (h : Inv64 fw img hw mem regs gFbBase s)
    (hs : s' ∈ Efi64.step fw img hw s) : Inv64 fw img hw mem regs gFbBase s' := by
  rw [Efi64.step] at hs
  cases hl : s.label with
  | allocateAddress =>
      rw [hl] at hs
      obtain rfl := Option.some.inj hs
      exact allocateAddress_inv64 hl h
  | allocateMaxAddress =>
      rw [hl] at hs
      obtain rfl := Option.some.inj hs
      exact allocateMaxAddress_inv64 hl h
  | copyTrampoline =>
      rw [hl] at hs
      obtain rfl := Option.some.inj hs
      exact copyTrampoline_inv64 hl h
  | getMap =>
      rw [hl] at hs
      obtain rfl := Option.some.inj hs
      exact getMap_inv64 hl h
  | exitBoot =>
      rw [hl] at hs
      obtain rfl := Option.some.inj hs
      exact exitBoot_inv64 hl h
  | convert =>
      rw [hl] at hs
      obtain rfl := Option.some.inj hs
      exact convert_inv64 hl h
  | remap =>
      rw [hl] at hs
      obtain rfl := Option.some.inj hs
      exact remap_inv64 hl h
  | jump =>
      rw [hl] at hs
      cases hs
  | fault =>
      rw [hl] at hs
      cases hs

theorem reaches_inv64 {buf : Memory} {s : Efi64.State}
    (h : Reaches (Efi64.step fw img hw) (Efi64.start buf mem regs gFbBase) s) :
    Inv64 fw img hw mem regs gFbBase s := by
  induction h with
  | refl => exact start_inv64 buf
  | tail _ hstep ih => exact step_inv64 ih hstep

/-! ### At the jump -/

/-- The moved framebuffer is the one that is described. -/
theorem Moved.informs {name : List UInt8} {rsdp newFb : ℕ}
    {display : Option (UInt64 × ModeInfo)} {m : Memory} {s : Efi64.State}
    (h : Moved newFb (displayBase display) m s)
    (hi : Informs name rsdp display (displayBase display) m)
    (hlt : newFb < 18446744073709551616) : Informs name rsdp display s.gFbBase s.mem := by
  rw [h.base,h.mem]
  by_cases hne : newFb = displayBase display
  · rw [if_neg (not_not.mpr hne),hne]
    exact hi
  · rw [if_pos hne]
    exact informs_moved hi hlt

/-- What the conversion and the scan may write: the map with its counter, and the
structure. -/
def InMap (x : ℕ) : Prop := mmapBufferAddr ≤ x ∧ x < mmapBufferAddr+4+24*120

theorem Converted.outside {m m' : Memory} (h : Converted m m') {x : ℕ} (hmap : ¬InMap x)
    (hx : x < multibootInfoAddr ∨ multibootInfoAddr+116 ≤ x) : m' x = m x := by
  have hlength : mmapLengthOff = 44 := rfl
  apply h.frame
  rw [InMap] at hmap
  rw [Written]
  omega

theorem Moved.outside {newFb gFbBase x : ℕ} {m m' : Memory} {s : Efi64.State}
    (h : Moved newFb gFbBase m' s) (hc : Converted m m') (hmap : ¬InMap x)
    (hx : x < multibootInfoAddr ∨ multibootInfoAddr+116 ≤ x) : s.mem x = m x := by
  have hlow : framebufferAddrLowOff = 88 := rfl
  have hhigh : framebufferAddrHiOff = 92 := rfl
  have hset : setAddress newFb m' x = m' x := by
    rw [setAddress,setMbi_outside (by omega),setMbi_outside (by omega)]
  rw [h.mem]
  split_ifs
  · rw [hset,hc.outside hmap hx]
  · rw [hc.outside hmap hx]

theorem displayBase_lt (display : Option (UInt64 × ModeInfo)) :
    displayBase display < 18446744073709551616 := by
  cases display with
  | none => decide
  | some d => exact d.1.toNat_lt

/-! ### The framebuffer after the scan -/

theorem relocate_base {fbBase : ℕ} (s : Scan) (c : Candidate) :
    (relocate hw fbBase s c).newFbBase = s.newFbBase ∨
      fbBase ≠ 0 ∧ (relocate hw fbBase s c).newFbBase < 18446744073709551616 := by
  unfold relocate relocateBar
  dsimp only
  split_ifs with h
  · exact .inr ⟨by omega,Nat.mod_lt _ (by decide)⟩
  · exact .inl rfl

/-- The address keeps 64 bits, and no BAR is taken for that of a missing framebuffer. -/
theorem newFbBase_spec (hw : Hardware) (regs : Registers) {fbBase : ℕ}
    (h : fbBase < 18446744073709551616) :
    (pciRemapAbove4gBars hw regs fbBase).newFbBase < 18446744073709551616 ∧
      (fbBase = 0 → (pciRemapAbove4gBars hw regs fbBase).newFbBase = 0) := by
  have hfold : ∀ (cs : List Candidate) (s : Scan), s.newFbBase < 18446744073709551616 →
      (fbBase = 0 → s.newFbBase = 0) →
      (cs.foldl (relocate hw fbBase) s).newFbBase < 18446744073709551616 ∧
        (fbBase = 0 → (cs.foldl (relocate hw fbBase) s).newFbBase = 0) := by
    intro cs
    induction cs with
    | nil => exact fun s hs hz => ⟨hs,hz⟩
    | cons c cs ih =>
        intro s hs hz
        rw [List.foldl_cons]
        rcases relocate_base s c with he | ⟨hne,hlt⟩
        · exact ih _ (he ▸ hs) fun h0 => he.trans (hz h0)
        · exact ih _ hlt fun h0 => absurd h0 hne
  rw [pciRemap_eq]
  exact hfold _ _ h id

end Handover64

/-! ### The 32-bit handover -/

section Handover32
open UefiHandover
variable {fw : UefiHandover.Firmware} {mem : Memory} {s : Efi32.State}

/-- Both calls of an attempt succeed. -/
def Exits32 (fw : UefiHandover.Firmware) (i : ℕ) : Prop :=
  (fw.getMemoryMap i).success = true ∧ fw.exitBootServices i = true

/-- However many maps have been converted, the structure is that of one conversion. -/
structure Inv32 (mem : Memory) (s : Efi32.State) : Prop where
  frame : ∀ x, ¬Written 120 x → s.mem x = mem x
  flags : mbi s.mem flagsOff = mbi mem flagsOff ∨
    mbi s.mem flagsOff = mbi mem flagsOff ||| (multibootInfoMemMap ||| multibootInfoMemory)

theorem Inv32.converted (h : Inv32 mem s) {m' : Memory} (hc : Converted s.mem m') :
    Converted mem m' := by
  refine ⟨fun x hx => (hc.frame x hx).trans (h.frame x hx),hc.flags.trans ?_⟩
  rcases h.flags with hf | hf
  · rw [hf]
  · rw [hf,Nat.or_assoc,Nat.or_self]

theorem getMap32_walks (hok : (fw.getMemoryMap s.attempt).success = true)
    (hd : (fw.getMemoryMap s.attempt).descSize ≠ 0) : (s.getMap fw).label = .exitBoot ∧
      (s.getMap fw).attempt = s.attempt ∧
      HandedOver (fw.getMemoryMap s.attempt) (s.getMap fw).mem ∧
      Converted s.mem (s.getMap fw).mem := by
  obtain ⟨m',hm,hdesc,hc⟩ := convertMemoryMap_converted (fw.getMemoryMap s.attempt).buf
    (fw.getMemoryMap s.attempt).mmapSize s.mem hd
  rw [Efi32.State.getMap]
  dsimp only
  rw [if_pos hok,hm]
  exact ⟨rfl,rfl,handedOver_of_describes hdesc,hc⟩

theorem getMap32_fails (hok : (fw.getMemoryMap s.attempt).success ≠ true) :
    (s.getMap fw).label = .getMap ∧ (s.getMap fw).attempt = s.attempt+1 ∧
      (s.getMap fw).mem = s.mem := by
  rw [Efi32.State.getMap]
  dsimp only
  rw [if_neg hok]
  exact ⟨rfl,rfl,rfl⟩

theorem Inv32.getMap (h : Inv32 mem s) (hd : (fw.getMemoryMap s.attempt).success = true →
    (fw.getMemoryMap s.attempt).descSize ≠ 0) : Inv32 mem (s.getMap fw) := by
  by_cases hok : (fw.getMemoryMap s.attempt).success = true
  · have hc := h.converted (getMap32_walks hok (hd hok)).2.2.2
    exact ⟨hc.frame,.inr hc.flags⟩
  · have hm := (getMap32_fails hok).2.2
    exact ⟨by rw [hm]; exact h.frame,by rw [hm]; exact h.flags⟩

theorem exitBoot32_mem (fw : UefiHandover.Firmware) (s : Efi32.State) :
    (s.exitBoot fw).mem = s.mem := by
  rw [Efi32.State.exitBoot]
  dsimp only
  split_ifs <;> rfl

theorem step_getMap32 (hl : s.label = .getMap) : Efi32.step fw s = some (s.getMap fw) := by
  rw [Efi32.step,hl]

theorem step_exitBoot32 (hl : s.label = .exitBoot) : Efi32.step fw s = some (s.exitBoot fw) := by
  rw [Efi32.step,hl]

/-- One attempt that fails at either call. -/
theorem attempt32_fails {s₀ : Efi32.State} (hr : Reaches (Efi32.step fw) s₀ s)
    (h : Inv32 mem s) (hl : s.label = .getMap) (hx : ¬Exits32 fw s.attempt)
    (hd : (fw.getMemoryMap s.attempt).success = true →
      (fw.getMemoryMap s.attempt).descSize ≠ 0) :
    ∃ s', Reaches (Efi32.step fw) s₀ s' ∧ Inv32 mem s' ∧ s'.label = .getMap ∧
      s'.attempt = s.attempt+1 := by
  have hget : Reaches (Efi32.step fw) s₀ (s.getMap fw) := hr.tail (step_getMap32 hl)
  have hinv := h.getMap hd
  by_cases hok : (fw.getMemoryMap s.attempt).success = true
  · obtain ⟨hl',ha,-,-⟩ := getMap32_walks hok (hd hok)
    have hexit : Reaches (Efi32.step fw) s₀ ((s.getMap fw).exitBoot fw) :=
      hget.tail (step_exitBoot32 hl')
    have hno : fw.exitBootServices (s.getMap fw).attempt ≠ true := by
      rw [ha]
      exact fun hyes => hx ⟨hok,hyes⟩
    have hmem := exitBoot32_mem fw (s.getMap fw)
    have hlabel : ((s.getMap fw).exitBoot fw).label = .getMap ∧
        ((s.getMap fw).exitBoot fw).attempt = s.attempt+1 := by
      rw [Efi32.State.exitBoot]
      dsimp only
      rw [if_neg hno,ha]
      exact ⟨rfl,rfl⟩
    exact ⟨_,hexit,⟨by rw [hmem]; exact hinv.frame,by rw [hmem]; exact hinv.flags⟩,hlabel⟩
  · obtain ⟨hl',ha,-⟩ := getMap32_fails hok
    exact ⟨_,hget,hinv,hl',ha⟩

/-- The attempt that succeeds is the last one. -/
theorem attempt32_exits {s₀ : Efi32.State} (hr : Reaches (Efi32.step fw) s₀ s)
    (h : Inv32 mem s) (hl : s.label = .getMap) (hx : Exits32 fw s.attempt)
    (hd : (fw.getMemoryMap s.attempt).descSize ≠ 0) :
    ∃ e, Reaches (Efi32.step fw) s₀ e ∧ e.label = .jump ∧ Converted mem e.mem ∧
      HandedOver (fw.getMemoryMap s.attempt) e.mem := by
  have hget : Reaches (Efi32.step fw) s₀ (s.getMap fw) := hr.tail (step_getMap32 hl)
  obtain ⟨hl',ha,hover,hc⟩ := getMap32_walks hx.1 hd
  have hexit : Reaches (Efi32.step fw) s₀ ((s.getMap fw).exitBoot fw) :=
    hget.tail (step_exitBoot32 hl')
  have hmem := exitBoot32_mem fw (s.getMap fw)
  refine ⟨_,hexit,?_,by rw [hmem]; exact h.converted hc,by rw [hmem]; exact hover⟩
  rw [Efi32.State.exitBoot]
  dsimp only
  rw [if_pos (by rw [ha]; exact hx.2)]

theorem attempts32 (buf mem : Memory) {n : ℕ} (hx : ∀ j < n, ¬Exits32 fw j)
    (hd : ∀ j < n, (fw.getMemoryMap j).success = true → (fw.getMemoryMap j).descSize ≠ 0) :
    ∃ s, Reaches (Efi32.step fw) (Efi32.start buf mem) s ∧ Inv32 mem s ∧ s.label = .getMap ∧
      s.attempt = n := by
  induction n with
  | zero =>
      exact ⟨_,.refl,⟨fun _ _ => rfl,.inl rfl⟩,rfl,rfl⟩
  | succ n ih =>
      obtain ⟨s,hr,hi,hl,ha⟩ := ih (fun j hj => hx j (by omega)) fun j hj => hd j (by omega)
      have hfail := attempt32_fails hr hi hl (by rw [ha]; exact hx n (by omega))
        (by rw [ha]; exact hd n (by omega))
      rwa [ha] at hfail

end Handover32

end Gemiboot.UefiHandoverMemory
