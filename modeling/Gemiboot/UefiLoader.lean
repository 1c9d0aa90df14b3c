import Gemiboot.ElfOutcome
import Gemiboot.KernelMemory
import Gemiboot.SerialPort
import Gemiboot.UefiHandoverMemory

/-!
# The UEFI loaders as a whole

`efi_main` of `efi64.c` and `efi32.c` from the first store to the jump: the boot
information, the search for the kernel, the ELF loader and the handover. The messages, the
pause of the 32-bit loader and the pages the 64-bit one asks for the kernel, whose status
it does not look at, leave memory as it is and are not part of the run.
-/
namespace Gemiboot.UefiLoader
open ByteMemory MultibootMap BiosMemoryMap BootInformation ElfLoad UefiInformation
open KernelMemory KernelSearch StateTransition UefiHandoverMemory UefiMemoryMap
open UefiFileSearch (EfiStatus)
open GopModes (Gop ModeInfo)

/-- `4 * 1024 * 1024`, the size of the buffer for the file. -/
def kernelTempSize : ℕ := 4*1024*1024

/-- Where the two endless loops stand, and what the handover starts from. -/
inductive Outcome where
  | noKernel
  | refused
  | loaded (entryPoint : ℕ) (mem : Memory)

/-- The kernel is read and loaded; nothing comes of a search that goes on and on. -/
def loadKernel {σ : Type} (w : ℕ) (f : Firmware σ) (fuel image : ℕ) (s : World σ) :
    Option Outcome :=
  match readKernelFile f true kernelTempAddr kernelTempSize fuel image s with
  | (none,_) => none
  | (some status,s) =>
      if status ≠ .success ∨ s.outSize = 0 then some .noKernel
      else
        (elf32Load w s.mem kernelTempAddr s.outSize).map fun r =>
          if r.1 = 0 then .refused else .loaded r.1 r.2.mem

/-! ### Up to the handover -/

def space64 : ℕ := 18446744073709551616

def loaderName64 : List UInt8 := SerialPort.asciiText "gemiboot 1.0 (UEFI 64-bit)"
def loaderName32 : List UInt8 := SerialPort.asciiText "gemiboot 1.0 (UEFI 32-bit)"

/-- `efi_main` up to the pages for the trampoline, with `g_fb_base`. -/
def efiMain {σ : Type} (w : ℕ) (name : List UInt8) (st : SystemTable)
    (locate : EfiStatus × Option Gop) (f : Firmware σ) (fuel image : ℕ) (fw : σ) (m : Memory) :
    ℕ × Option Outcome :=
  let p := prepareInfo w name st locate m
  (p.1.globals.fb.base,loadKernel w f fuel image (KernelHandles.start fw p.2 0))

section Load
variable {σ : Type} {f : Firmware σ} {w fuel image : ℕ} {s wd : World σ} {file : Memory}

/-- The search ends with this file in the buffer. -/
structure Finds (f : Firmware σ) (fuel image : ℕ) (s : World σ) (file : Memory)
    (wd : World σ) : Prop where
  search : readKernelFile f true kernelTempAddr kernelTempSize fuel image s = (some .success,wd)
  size : wd.outSize ≠ 0
  data : ∀ k < wd.outSize, wd.mem (kernelTempAddr+k) = file k

theorem Finds.outside (h : Finds f fuel image s file wd) (hf : ReadsInto f)
    (hs : s.outSize ≤ kernelTempSize) :
    (∀ x < kernelTempAddr, wd.mem x = s.mem x) ∧ wd.outSize ≤ kernelTempSize := by
  have hout := readKernelFile_outside hf kernelTempAddr kernelTempSize fuel image hs
  rw [h.search] at hout
  exact ⟨fun x hx => hout.1 x (.inl hx),hout.2⟩

/-- What is found is loaded if it is a kernel, and otherwise refused. -/
theorem loadKernel_finds (h : Finds f fuel image s file wd) (hw : space32 ≤ w)
    (hstored : wd.outSize ≤ kernelTempSize)
    (hclear : ValidHeader file kernelTempAddr wd.outSize →
      FileClear file kernelTempAddr wd.outSize 0x100000) :
    (Bootable file kernelTempAddr wd.outSize → ∃ loaded,
      loadKernel w f fuel image s = some (.loaded (eEntry file) loaded) ∧
        LoadedFile file wd.mem loaded) ∧
      (¬Bootable file kernelTempAddr wd.outSize →
        loadKernel w f fuel image s = some .refused) := by
  have hst : kernelTempAddr+wd.outSize ≤ space32 := by
    have htemp : kernelTempAddr = 0x200000 := rfl
    have hsize : kernelTempSize = 4194304 := rfl
    have hspace : space32 = 4294967296 := rfl
    omega
  have hblit : blit wd.mem kernelTempAddr wd.outSize file = wd.mem :=
    (blit_congr h.data).symm.trans (MemoryRoutines.blit_same _ _ _)
  obtain ⟨r,hr,hyes,hno⟩ := elf32Load_file hw hst hclear wd.mem
  rw [hblit] at hr hyes
  have hgo : ¬((EfiStatus.success ≠ .success) ∨ wd.outSize = 0) := by
    rintro (hne | hz)
    · exact hne rfl
    · exact h.size hz
  have hload : loadKernel w f fuel image s =
      some (if r.1 = 0 then .refused else .loaded r.1 r.2.mem) := by
    unfold loadKernel
    rw [h.search]
    dsimp only
    rw [if_neg hgo,hr]
    rfl
  rw [hload]
  constructor
  · intro hb
    obtain ⟨hentry,hloaded⟩ := hyes hb
    rw [if_neg (by rw [hentry]; exact hb.entry),hentry]
    exact ⟨_,rfl,hloaded⟩
  · intro hb
    rw [if_pos (hno hb)]

/-- The structure comes through the search and the load. -/
theorem Finds.told {name : List UInt8} {st : SystemTable} {locate : EfiStatus × Option Gop}
    {fw : σ} {m loaded : Memory} (hn : name.length < 256)
    (h : Finds f fuel image (KernelHandles.start fw (prepareInfo w name st locate m).2 0) file wd)
    (hf : ReadsInto f) (hw : space32 ≤ w)
    (hclear : FileClear file kernelTempAddr wd.outSize 0x100000)
    (hb : Bootable file kernelTempAddr wd.outSize) (hl : LoadedFile file wd.mem loaded) :
    ∃ display, Shows locate display ∧
      (prepareInfo w name st locate m).1.globals.fb.base = displayBase display%w ∧
      Told name (findAcpiRsdp st) display loaded := by
  have hinfo : multibootInfoAddr+multibootInfoSize ≤ space32 := by decide
  obtain ⟨display,hs,hbase,htold⟩ := prepareInfo_told (hinfo.trans hw) name st locate m
  refine ⟨display,hs,hbase,tells_congr htold fun x hx => ?_⟩
  have hlow : x < 0x100000 := by
    have hname : nameAddr = 610560 := rfl
    have hx' := hx.2
    omega
  have htemp : kernelTempAddr = 0x200000 := rfl
  rw [hl.low hclear hb hlow,(h.outside hf (Nat.zero_le _)).1 x (by omega)]
  rfl

end Load

/-! ### Both loaders -/

section Main
open UefiHandover PciRemap
variable {σ : Type} {f : Firmware σ} {fuel image : ℕ} {fw₀ : σ} {m file : Memory}
  {st : SystemTable} {locate : EfiStatus × Option Gop} {wd : World σ}

/-- What the kernel needs: the structure with the name, the memory map and itself. -/
def Needed (name : List UInt8) (file : Memory) (x : ℕ) : Prop :=
  InInfo name x ∨ InMap x ∨ ∃ i < ePhnum file, (segment file i).Covers x

/-- The pages of the trampoline are not needed for anything else. -/
def PagesApart (fw : Efi64.Firmware) (img : Efi64.Image) (file : Memory) : Prop :=
  ∀ t, fw.granted = some t → ∀ x, InPages img t x → ¬Needed loaderName64 file x

/-- What the kernel finds: the structure, the map of one response and its segments. -/
structure Delivers (name : List UInt8) (st : SystemTable)
    (display : Option (UInt64 × ModeInfo)) (fbAddr : ℕ) (r : MapResponse)
    (file loaded mem : Memory) : Prop where
  informs : ∃ rsdp, IsRsdp st rsdp ∧ Informs name rsdp display fbAddr mem
  map : HandedOver r mem
  segments : ∀ i < ePhnum file, ∀ x, (segment file i).Covers x → mem x = loaded x

/-- The jump of the 64-bit loader, with the map of the first attempt that succeeds. -/
structure AtJump64 (st : SystemTable) (locate : EfiStatus × Option Gop) (fw : Efi64.Firmware)
    (img : Efi64.Image) (hw : Hardware) (regs : Registers) (file loaded : Memory)
    (s : Efi64.State) : Prop where
  label : s.label = .jump
  granted : fw.granted = some s.gTrampPhys
  code : img.trampSize ≤ 0x800 → ∀ i < img.trampSize, s.mem (s.gTrampPhys+i) = img.trampoline i
  gdt : ∀ i < img.gdtSize, s.mem (s.gTrampPhys+0x800+i) = img.gdtTable i
  delivers : ∃ display i, Shows locate display ∧
    s.gFbBase = (pciRemapAbove4gBars hw regs (displayBase display)).newFbBase ∧
    i < 10 ∧ fw.Exits i ∧ (∀ j < i, ¬fw.Exits j) ∧
    Delivers loaderName64 st display s.gFbBase (fw.getMemoryMap i) file loaded s.mem

/-- Any jump the run comes to. -/
theorem atJump64_of_reaches {fw : Efi64.Firmware} {img : Efi64.Image} {hw : Hardware}
    {regs : Registers} {buf loaded : Memory} {display : Option (UInt64 × ModeInfo)}
    {s : Efi64.State} {i : ℕ} (hs : Shows locate display)
    (ht : Told loaderName64 (findAcpiRsdp st) display loaded)
    (hclear : FileClear file kernelTempAddr wd.outSize 0x100000)
    (hb : Bootable file kernelTempAddr wd.outSize) (hp : PagesApart fw img file)
    (hr : Reaches (Efi64.step fw img hw) (Efi64.start buf loaded regs (displayBase display)) s)
    (hj : s.label = .jump) (hg : fw.granted = some s.gTrampPhys)
    (hi : i < 10 ∧ fw.Exits i ∧ ∀ j < i, ¬fw.Exits j)
    (hmap : HandedOver (fw.getMemoryMap i) s.mem) :
    AtJump64 st locate fw img hw regs file loaded s := by
  have hinfo : multibootInfoAddr = 610304 := rfl
  have hname : nameAddr = 610560 := rfl
  have hinv := reaches_inv64 hr
  rw [Inv64,hj] at hinv
  obtain ⟨m₁,m₂,hpages,hconv,hmoved⟩ := hinv
  have hlt := (newFbBase_spec hw regs (displayBase_lt display)).1
  have ht₁ : Told loaderName64 (findAcpiRsdp st) display m₁ :=
    tells_congr ht fun x hx => hpages.outside x fun t htg hin => hp t htg x hin (.inl hx)
  -- neither the map nor the structure lies in the pages
  have hstays : ∀ x, InPages img s.gTrampPhys x → s.mem x = m₁ x := by
    intro x hx
    have happart := hp _ hg x hx
    refine hmoved.outside hconv (fun hin => happart (.inr (.inl hin))) ?_
    by_contra hin
    exact happart (.inl ⟨by omega,by omega⟩)
  refine ⟨hj,hg,fun hsize k hk => ?_,fun k hk => ?_,
    display,i,hs,hmoved.base,hi.1,hi.2.1,hi.2.2,?_⟩
  · rw [hstays _ (.inl ⟨by omega,by omega⟩)]
    exact hpages.code _ hg hsize k hk
  · rw [hstays _ (.inr ⟨by omega,by omega⟩)]
    exact hpages.gdt _ hg k hk
  · refine ⟨⟨_,findAcpiRsdp_spec st,hmoved.informs (informs_of_told ht₁ hconv) hlt⟩,hmap,
      fun n hn x hx => ?_⟩
    have hbuf : mmapBufferAddr = 32768 := rfl
    have habove := (hclear.apart n hn (hb.contained n hn).header x hx).1
    rw [hmoved.outside hconv (by rw [InMap]; omega) (by omega)]
    exact hpages.outside x fun t htg hin => hp t htg x hin (.inr (.inr ⟨n,hn,hx⟩))

/-- The 64-bit loader comes to its jump with every kernel it finds. -/
theorem efi64_reaches (hf : ReadsInto f)
    (hfinds : Finds f fuel image
      (KernelHandles.start fw₀ (prepareInfo space64 loaderName64 st locate m).2 0) file wd)
    (hclear : FileClear file kernelTempAddr wd.outSize 0x100000)
    (hb : Bootable file kernelTempAddr wd.outSize) {fw : Efi64.Firmware} (hfw : fw.Cooperates)
    {img : Efi64.Image} (hp : PagesApart fw img file) (hw : Hardware) (regs : Registers)
    (buf : Memory) : ∃ gFbBase loaded e,
      efiMain space64 loaderName64 st locate f fuel image fw₀ m =
        (gFbBase,some (.loaded (eEntry file) loaded)) ∧
      LoadedFile file wd.mem loaded ∧
      Reaches (Efi64.step fw img hw) (Efi64.start buf loaded regs gFbBase) e ∧
      AtJump64 st locate fw img hw regs file loaded e := by
  have hspace : space32 ≤ space64 := by decide
  obtain ⟨hyes,-⟩ := loadKernel_finds hfinds hspace (hfinds.outside hf (Nat.zero_le _)).2
    fun _ => hclear
  obtain ⟨loaded,hload,hfile⟩ := hyes hb
  obtain ⟨display,hs,hbase,ht⟩ := hfinds.told (by decide) hf hspace hclear hb hfile
  rw [space64,Nat.mod_eq_of_lt (displayBase_lt display)] at hbase
  obtain ⟨hpages,i,hi,hx,hfirst,hd,-⟩ := hfw
  obtain ⟨t,hgranted⟩ := (Efi64.Firmware.granted_some fw).mpr hpages
  obtain ⟨s,es,hr,hl,h₁,h₂,h₃,-,hcopied,-⟩ :=
    Efi64.reaches_convert_exits img hw buf loaded regs (displayBase display) hi hx hfirst
  obtain ⟨e,he,hj,-,htramp,hover⟩ := Efi64.reaches_jump hr hl (h₃ ▸ hd)
  have hg : fw.granted = some e.gTrampPhys := by
    rw [htramp,(hcopied.granted t hgranted).1,hgranted]
  refine ⟨displayBase display,loaded,e,?_,hfile,he,?_⟩
  · exact Prod.ext hbase hload
  · exact atJump64_of_reaches hs ht hclear hb hp he hj hg ⟨hi,hx,hfirst⟩ (hover _ h₁ h₂ h₃)

/-- The jump of the 32-bit loader. -/
structure AtJump32 (st : SystemTable) (locate : EfiStatus × Option Gop)
    (fw : UefiHandover.Firmware) (file loaded : Memory) (s : Efi32.State) : Prop where
  label : s.label = .jump
  delivers : ∃ display i, Shows locate display ∧ Exits32 fw i ∧ (∀ j < i, ¬Exits32 fw j) ∧
    Delivers loaderName32 st display (displayBase display) (fw.getMemoryMap i) file loaded s.mem

/-- The 32-bit loader does as soon as an attempt to leave the firmware succeeds, provided
that every map fetched before can be walked. -/
theorem efi32_reaches (hf : ReadsInto f)
    (hfinds : Finds f fuel image
      (KernelHandles.start fw₀ (prepareInfo space32 loaderName32 st locate m).2 0) file wd)
    (hclear : FileClear file kernelTempAddr wd.outSize 0x100000)
    (hb : Bootable file kernelTempAddr wd.outSize) {fw : UefiHandover.Firmware}
    (hexits : ∃ i, Exits32 fw i)
    (hwalks : ∀ i, (fw.getMemoryMap i).success = true → (fw.getMemoryMap i).descSize ≠ 0)
    (buf : Memory) : ∃ loaded e,
      (efiMain space32 loaderName32 st locate f fuel image fw₀ m).2 =
        some (.loaded (eEntry file) loaded) ∧
      LoadedFile file wd.mem loaded ∧
      Reaches (Efi32.step fw) (Efi32.start buf loaded) e ∧
      AtJump32 st locate fw file loaded e := by
  obtain ⟨hyes,-⟩ := loadKernel_finds hfinds le_rfl (hfinds.outside hf (Nat.zero_le _)).2
    fun _ => hclear
  obtain ⟨loaded,hload,hfile⟩ := hyes hb
  obtain ⟨display,hs,-,ht⟩ := hfinds.told (by decide) hf le_rfl hclear hb hfile
  classical
  have hx := Nat.find_spec hexits
  have hfirst : ∀ j < Nat.find hexits, ¬Exits32 fw j := fun j hj => Nat.find_min hexits hj
  obtain ⟨s,hr,hi,hl,ha⟩ := attempts32 buf loaded hfirst fun j _ => hwalks j
  rw [← ha] at hx hfirst
  obtain ⟨e,he,hj,hc,hover⟩ := attempt32_exits hr hi hl hx (hwalks _ hx.1)
  refine ⟨loaded,e,hload,hfile,he,hj,display,_,hs,hx,hfirst,
    ⟨_,findAcpiRsdp_spec st,informs_of_told ht hc⟩,hover,fun n hn x hx => ?_⟩
  have hinfo : multibootInfoAddr = 610304 := rfl
  have hbuf : mmapBufferAddr = 32768 := rfl
  have habove := (hclear.apart n hn (hb.contained n hn).header x hx).1
  exact hc.outside (by rw [InMap]; omega) (by omega)

/-- Neither loader starts anything else. -/
theorem efiMain_refuses {w : ℕ} {name : List UInt8} (hw : space32 ≤ w) (hf : ReadsInto f)
    (hfinds : Finds f fuel image
      (KernelHandles.start fw₀ (prepareInfo w name st locate m).2 0) file wd)
    (hclear : ValidHeader file kernelTempAddr wd.outSize →
      FileClear file kernelTempAddr wd.outSize 0x100000)
    (hb : ¬Bootable file kernelTempAddr wd.outSize) :
    (efiMain w name st locate f fuel image fw₀ m).2 = some .refused :=
  (loadKernel_finds hfinds hw (hfinds.outside hf (Nat.zero_le _)).2 hclear).2 hb

end Main

end Gemiboot.UefiLoader
