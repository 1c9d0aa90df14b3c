import Gemiboot.KernelEntry
import Gemiboot.UefiLoader

/-!
# From the UEFI firmware to the kernel

The runs of `efi_main` and of the assembler code behind them as one: whatever the compiled
code calls `jump_to_32bit_kernel` or `load_gdt_and_jump` with, the processor enters the
kernel in its state, and the kernel finds in memory what the loader has put there.
-/
namespace Gemiboot.UefiKernelEntry
open ByteMemory MultibootMap ElfLoad UefiInformation KernelMemory KernelSearch Processor
open StateTransition UefiHandover UefiHandoverMemory UefiMemoryMap UefiLoader KernelEntry
open PciRemap (Hardware Registers)
open UefiFileSearch (EfiStatus)
open GopModes (Gop ModeInfo)
open BiosLoader (multibootBootloaderMagic)

/-! ### What is delivered stays -/

section Delivery
variable {name : List UInt8} {st : SystemTable} {display : Option (UInt64 × ModeInfo)}
  {fbAddr : ℕ} {r : MapResponse} {file loaded m m' : Memory}

/-- The map is in its buffer and in two fields of the structure. -/
theorem handedOver_inMap (h : HandedOver r m) (hmap : ∀ x, InMap x → m' x = m x)
    (hinfo : ∀ x, InInfo name x → m' x = m x) : HandedOver r m' := by
  have hname : nameAddr = 610560 := rfl
  have hmbi : multibootInfoAddr = 610304 := rfl
  have hbuf : mmapBufferAddr = 32768 := rfl
  have hfield : ∀ off, off+4 ≤ 116 → mbi m' off = mbi m off := fun off hoff =>
    load_congr fun i hi => hinfo _ ⟨by omega,by omega⟩
  have haddr := hfield mmapAddrOff (by decide)
  have hlength := hfield mmapLengthOff (by decide)
  have hhanded : handedMap m' = handedMap m := by
    rw [handedMap,haddr,hlength,handedMap,h.addr,h.length]
    apply entriesAt_congr
    intro i hi
    apply hmap
    rw [InMap]
    omega
  refine ⟨?_,haddr.trans h.addr,hlength.trans h.length,by rw [hhanded]; exact h.records⟩
  rw [← h.count]
  apply load_congr
  intro i hi
  apply hmap
  rw [InMap]
  omega

theorem delivers_congr (h : Delivers name st display fbAddr r file loaded m)
    (hm : ∀ x, Needed name file x → m' x = m x) :
    Delivers name st display fbAddr r file loaded m' := by
  have hinfo : ∀ x, InInfo name x → m' x = m x := fun x hx => hm x (.inl hx)
  obtain ⟨rsdp,hrsdp,htells⟩ := h.informs
  constructor
  · exact ⟨rsdp,hrsdp,tells_congr htells hinfo⟩
  · exact handedOver_inMap h.map (fun x hx => hm x (.inr (.inl hx))) hinfo
  · intro i hi x hx
    rw [hm x (.inr (.inr ⟨i,hi,hx⟩))]
    exact h.segments i hi x hx

/-- The two doublewords that the trampoline pushes are not in the way. -/
theorem needed_apart {image size : ℕ} (hclear : FileClear file image size 0x100000)
    (hb : Bootable file image size) {x : ℕ} (hx : Needed name file x) :
    x < 0x7FFE8 ∨ 0x7FFF0 ≤ x := by
  rcases hx with hinfo | hmap | ⟨i,hi,hcov⟩
  · have hmbi : multibootInfoAddr = 610304 := rfl
    have hge := hinfo.1
    omega
  · have hbuf : mmapBufferAddr = 32768 := rfl
    have hlt := hmap.2
    omega
  · have hge := (hclear.apart i hi (hb.contained i hi).header x hcov).1
    omega

end Delivery

section Entry
variable {σ : Type} {f : KernelSearch.Firmware σ} {fuel image : ℕ} {fw₀ : σ} {m file : Memory}
  {st : SystemTable} {locate : EfiStatus × Option Gop} {wd : World σ}

/-! ### The 64-bit loader -/

/-- The parts of `bootx64.S` that are copied. -/
def trampolineImage (trampoline : Memory) (trampSize : ℕ) : UefiHandover.Efi64.Image :=
  ⟨trampoline,trampSize,fun i => KernelEntry.Efi64.gdtTable.getD i 0,40⟩

/-- `AllocatePages` with nothing above 0xFFFFFFFF asked for. -/
def PagesBelow (fw : UefiHandover.Efi64.Firmware) : Prop :=
  ∀ t, fw.granted = some t → t%4096 = 0 ∧ t+4096 ≤ 4294967296

/-- The call of `jump_to_32bit_kernel` with the memory of the loader; its stack is neither
in the page of the trampoline nor where something for the kernel is. -/
structure Called64 (file mem : Memory) (t : ℕ) (m : Machine) : Prop
    extends KernelEntry.Efi64.LongMode m where
  entryPoint : m.cx = eEntry file
  trampPhys : load 8 m.mem (m.sp+48) = t
  sp : 16 ≤ m.sp
  page : m.sp ≤ t ∨ t+4096 ≤ m.sp-16
  stack : ∀ x, m.sp-16 ≤ x → x < m.sp → ¬Needed loaderName64 file x
  mem : ∀ x, Needed loaderName64 file x ∨ t ≤ x ∧ x < t+4096 → m.mem x = mem x

/-- The kernel is entered, and finds what it was promised. -/
structure Enters64 (st : SystemTable) (locate : EfiStatus × Option Gop)
    (fw : UefiHandover.Efi64.Firmware) (trampoline : Memory) (trampSize : ℕ) (hw : Hardware)
    (regs : Registers) (file loaded : Memory) (e : UefiHandover.Efi64.State) (m : Machine) :
    Prop where
  state : KernelState (eEntry file) multibootInfoAddr m
  trampoline : ∀ i < trampSize, m.mem (e.gTrampPhys+i) = trampoline i
  delivers : ∃ display i, Shows locate display ∧
    e.gFbBase = (PciRemap.pciRemapAbove4gBars hw regs (displayBase display)).newFbBase ∧
    i < 10 ∧ fw.Exits i ∧ (∀ j < i, ¬fw.Exits j) ∧
    Delivers loaderName64 st display e.gFbBase (fw.getMemoryMap i) file loaded m.mem

theorem eEntry_lt (file : Memory) : eEntry file < 4294967296 := load_lt 4 file _

/-- From any such call. -/
theorem enters64_of_called {fw : UefiHandover.Efi64.Firmware} {trampoline : Memory}
    {trampSize : ℕ} {hw : Hardware} {regs : Registers} {loaded : Memory}
    {e : UefiHandover.Efi64.State} {m₁ : Machine} {size : ℕ}
    (hclear : FileClear file kernelTempAddr size 0x100000)
    (hb : Bootable file kernelTempAddr size) (hsize : trampSize ≤ 0x800) (hbelow : PagesBelow fw)
    (hj : AtJump64 st locate fw (trampolineImage trampoline trampSize) hw regs file loaded e)
    (hm : Called64 file e.mem e.gTrampPhys m₁) : ∃ m₂,
      (KernelEntry.Efi64.jumpTo32bitKernel m₁ >>= KernelEntry.Efi64.leaveLongMode e.gTrampPhys >>=
        KernelEntry.Efi64.enterKernel) = some m₂ ∧
      Enters64 st locate fw trampoline trampSize hw regs file loaded e m₂ := by
  obtain ⟨haligned,hlt⟩ := hbelow _ hj.granted
  have hsp := hm.sp
  have hpage := hm.page
  have hgdt : HoldsTable m₁.mem (e.gTrampPhys+0x800) KernelEntry.Efi64.gdtTable := by
    intro i hi
    change i < 40 at hi
    rw [hm.mem _ (.inr ⟨by omega,by omega⟩)]
    exact hj.gdt i hi
  have hplaced : KernelEntry.Efi64.Placed e.gTrampPhys m₁ :=
    ⟨haligned,hlt,hsp,hpage,hm.trampPhys,hgdt⟩
  obtain ⟨m₂,hrun,hstate,-,-,-,-,hmem⟩ :=
    KernelEntry.Efi64.jumpTo32bitKernel_kernelState hm.toLongMode hplaced
  rw [hm.entryPoint,u32_of_lt (eEntry_lt file)] at hstate
  refine ⟨m₂,hrun,hstate,fun i hi => ?_,?_⟩
  · -- 0x7FFE8 is in the last bytes of its page
    rw [hmem _ (by omega) (by omega),hm.mem _ (.inr ⟨by omega,by omega⟩)]
    exact hj.code hsize i hi
  · obtain ⟨display,i,hs,hbase,hi,hx,hfirst,hd⟩ := hj.delivers
    refine ⟨display,i,hs,hbase,hi,hx,hfirst,delivers_congr hd fun x hneed => ?_⟩
    have hout : x < m₁.sp-16 ∨ m₁.sp ≤ x := by
      by_contra hin
      exact hm.stack x (by omega) (by omega) hneed
    rw [hmem x hout (needed_apart hclear hb hneed),hm.mem x (.inl hneed)]

/-- The 64-bit loader from its first instruction to the kernel's: every file that the
search finds is started if it is a kernel, in 32-bit protected mode and with everything it
was promised in memory, and otherwise refused. -/
theorem efi64_enters (hf : ReadsInto f)
    (hfinds : Finds f fuel image
      (KernelHandles.start fw₀ (prepareInfo space64 loaderName64 st locate m).2 0) file wd)
    (hclear : ValidHeader file kernelTempAddr wd.outSize →
      FileClear file kernelTempAddr wd.outSize 0x100000)
    {fw : UefiHandover.Efi64.Firmware} (hfw : fw.Cooperates) (hbelow : PagesBelow fw)
    {trampoline : Memory} {trampSize : ℕ} (hsize : trampSize ≤ 0x800)
    (hp : PagesApart fw (trampolineImage trampoline trampSize) file) (hw : Hardware)
    (regs : Registers) (buf : Memory) :
    (Bootable file kernelTempAddr wd.outSize → ∃ gFbBase loaded e,
      efiMain space64 loaderName64 st locate f fuel image fw₀ m =
        (gFbBase,some (.loaded (eEntry file) loaded)) ∧
      LoadedFile file wd.mem loaded ∧
      Reaches (UefiHandover.Efi64.step fw (trampolineImage trampoline trampSize) hw)
        (UefiHandover.Efi64.start buf loaded regs gFbBase) e ∧
      e.label = .jump ∧ fw.granted = some e.gTrampPhys ∧
      ∀ m₁, Called64 file e.mem e.gTrampPhys m₁ → ∃ m₂,
        (KernelEntry.Efi64.jumpTo32bitKernel m₁ >>=
          KernelEntry.Efi64.leaveLongMode e.gTrampPhys >>=
          KernelEntry.Efi64.enterKernel) = some m₂ ∧
        Enters64 st locate fw trampoline trampSize hw regs file loaded e m₂) ∧
    (¬Bootable file kernelTempAddr wd.outSize →
      (efiMain space64 loaderName64 st locate f fuel image fw₀ m).2 = some .refused) := by
  refine ⟨fun hb => ?_,efiMain_refuses (by decide) hf hfinds hclear⟩
  have hclear' := hclear hb.header
  obtain ⟨gFbBase,loaded,e,hrun,hfile,hr,hj⟩ :=
    efi64_reaches hf hfinds hclear' hb hfw hp hw regs buf
  exact ⟨gFbBase,loaded,e,hrun,hfile,hr,hj.label,hj.granted,
    fun m₁ => enters64_of_called hclear' hb hsize hbelow hj⟩

/-! ### A small kernel -/

/-- Volumes with a kernel of one segment. -/
def kernelVolume : KernelSearch.Firmware Unit :=
  {KernelHandles.lateVolume with
    readFile := fun _ _ m dst max => ⟨.success,min max 85,blit m dst (min max 85) smallFile,()⟩}

theorem kernelVolume_readsInto : ReadsInto kernelVolume := by
  constructor
  · intro fw file m dst max x hx
    exact blit_outside (by omega)
  · intro fw file m dst max _
    exact Nat.min_le_left max 85

theorem kernelVolume_finds (s : World Unit) : Finds kernelVolume 1 1 s smallFile
    (readKernelFile kernelVolume true kernelTempAddr kernelTempSize 1 1 s).2 := by
  have hsize : (readKernelFile kernelVolume true kernelTempAddr kernelTempSize 1 1 s).2.outSize =
      min kernelTempSize 85 := rfl
  have hmin : min kernelTempSize 85 = 85 := by decide
  have hmem : (readKernelFile kernelVolume true kernelTempAddr kernelTempSize 1 1 s).2.mem =
      blit s.mem kernelTempAddr (min kernelTempSize 85) smallFile := rfl
  refine ⟨rfl,?_,fun k hk => ?_⟩
  · rw [hsize,hmin]
    decide
  · rw [hsize] at hk
    rw [hmem,blit_at hk]

theorem kernelVolume_size (s : World Unit) : (readKernelFile kernelVolume true kernelTempAddr
    kernelTempSize 1 1 s).2.outSize = 85 := by
  have hmin : min kernelTempSize 85 = 85 := by decide
  exact hmin

/-- The older tables are listed first. -/
def bothTables : SystemTable :=
  ⟨2,some fun i => if i = 0 then ⟨acpi10Guid,0xF0000⟩ else ⟨acpi20Guid,0x7FFE0014⟩⟩

def vgaDisplay : EfiStatus × Option Gop :=
  (.success,some (GopModes.singleMode GopModes.vgaRgb 0xC0000000))

/-- The second attempt to leave this firmware succeeds. -/
def secondTry : UefiHandover.Efi64.Firmware :=
  {UefiHandover.Efi32.slowFirmware with
    allocateAddress := (true,0x20000), allocateMaxAddress := (false,0)}

theorem secondTry_cooperates : secondTry.Cooperates := by
  refine ⟨.inl rfl,1,by decide,⟨rfl,rfl⟩,fun j hj hx => ?_,by decide,by decide⟩
  obtain rfl : j = 0 := by omega
  have hno : secondTry.exitBootServices 0 = false := rfl
  rw [hx.2] at hno
  cases hno

theorem secondTry_granted {t : ℕ} (h : secondTry.granted = some t) : t = 0x20000 :=
  (Option.some.inj h).symm

theorem secondTry_below : PagesBelow secondTry := by
  intro t ht
  obtain rfl := secondTry_granted ht
  exact ⟨by decide,by decide⟩

/-- Nothing for the kernel is between the map and the structure. -/
theorem needed_smallFile {name : List UInt8} {x : ℕ} (hx : Needed name smallFile x) :
    x < 0x20000 ∨ 0x95000 ≤ x := by
  rcases hx with hinfo | hmap | ⟨i,hi,hcov⟩
  · exact .inr hinfo.1
  · have hbuf : mmapBufferAddr = 32768 := rfl
    have hlt := hmap.2
    omega
  · have hge := (smallFile_clear.apart i hi (smallFile_bootable.contained i hi).header x hcov).1
    omega

theorem secondTry_apart :
    PagesApart secondTry (trampolineImage (fun _ => 0x90) 0x100) smallFile := by
  intro t ht x hx hneed
  obtain rfl := secondTry_granted ht
  have hout := needed_smallFile hneed
  have hsize : (trampolineImage (fun _ => 0x90) 0x100).trampSize = 0x100 ∧
      (trampolineImage (fun _ => 0x90) 0x100).gdtSize = 40 := ⟨rfl,rfl⟩
  rw [InPages] at hx
  omega

/-- The caller's stack at 448 KiB, with the page of the trampoline as the last argument. -/
def callingMachine (mem : Memory) : Machine :=
  {KernelEntry.Efi64.longMachine with
    cx := eEntry smallFile, mem := store 8 mem 0x70030 0x20000}

theorem callingMachine_called (mem : Memory) :
    Called64 smallFile mem 0x20000 (callingMachine mem) := by
  have hlong : KernelEntry.Efi64.LongMode KernelEntry.Efi64.longMachine :=
    ⟨by decide,by decide,by decide,rfl⟩
  refine ⟨⟨hlong.pe,hlong.pg,hlong.lme,rfl⟩,rfl,?_,?_,.inr ?_,fun x h₁ h₂ hneed => ?_,
    fun x hx => ?_⟩
  · exact load_store_of_lt _ _ (by decide)
  · exact (by decide : 16 ≤ 0x70000)
  · exact (by decide : 0x20000+4096 ≤ 0x70000-16)
  · have hsp : (callingMachine mem).sp = 0x70000 := rfl
    have hout := needed_smallFile hneed
    omega
  · have hout : x < 0x70030 ∨ 0x70030+8 ≤ x := by
      rcases hx with hneed | hpage
      · have hneed' := needed_smallFile hneed
        omega
      · omega
    exact blit_outside hout

theorem efi64_enters_kernelVolume : ∃ gFbBase loaded e m₂,
    efiMain space64 loaderName64 bothTables vgaDisplay kernelVolume 1 1 () (fun _ => 0) =
        (gFbBase,some (.loaded (eEntry smallFile) loaded)) ∧
      (KernelEntry.Efi64.jumpTo32bitKernel (callingMachine e.mem) >>=
        KernelEntry.Efi64.leaveLongMode 0x20000 >>= KernelEntry.Efi64.enterKernel) = some m₂ ∧
      Enters64 bothTables vgaDisplay secondTry (fun _ => 0x90) 0x100 (fun _ old _ => old)
        (fun _ => 0) smallFile loaded e m₂ := by
  have hsize := kernelVolume_size
    (KernelHandles.start () (prepareInfo space64 loaderName64 bothTables vgaDisplay fun _ => 0).2 0)
  have hmain := efi64_enters kernelVolume_readsInto (kernelVolume_finds _)
    (by rw [hsize]; exact fun _ => smallFile_clear) secondTry_cooperates secondTry_below
    (by decide) secondTry_apart (fun _ old _ => old) (fun _ => 0) fun _ => 0
  rw [hsize] at hmain
  obtain ⟨gFbBase,loaded,e,hrun,-,-,-,hgranted,hcalls⟩ := hmain.1 smallFile_bootable
  rw [secondTry_granted hgranted] at hcalls
  obtain ⟨m₂,henter,hstate⟩ := hcalls _ (callingMachine_called e.mem)
  exact ⟨gFbBase,loaded,e,m₂,hrun,henter,hstate⟩

/-! ### The 32-bit loader -/

/-- The call of `load_gdt_and_jump`, with the tables of the image and the memory of the
loader. -/
structure Called32 (img : KernelEntry.Efi32.Image) (file mem : Memory) (m : Machine) : Prop
    extends KernelEntry.Efi32.FlatFirmware m where
  loaded : KernelEntry.Efi32.Loaded img m.mem
  arguments : JumpArguments (eEntry file) multibootBootloaderMagic multibootInfoAddr m
  mem : ∀ x, Needed loaderName32 file x → m.mem x = mem x

/-- The 32-bit loader from its first instruction to the kernel's: every file that the search
finds and that is a kernel is started with everything it was promised in memory, in its
state exactly if the firmware had paging off, and any other file is refused. -/
theorem efi32_enters (hf : ReadsInto f)
    (hfinds : Finds f fuel image
      (KernelHandles.start fw₀ (prepareInfo space32 loaderName32 st locate m).2 0) file wd)
    (hclear : ValidHeader file kernelTempAddr wd.outSize →
      FileClear file kernelTempAddr wd.outSize 0x100000)
    {fw : UefiHandover.Firmware} (hexits : ∃ i, Exits32 fw i)
    (hwalks : ∀ i, (fw.getMemoryMap i).success = true → (fw.getMemoryMap i).descSize ≠ 0)
    (buf : Memory) :
    (Bootable file kernelTempAddr wd.outSize → ∃ loaded e,
      (efiMain space32 loaderName32 st locate f fuel image fw₀ m).2 =
        some (.loaded (eEntry file) loaded) ∧
      LoadedFile file wd.mem loaded ∧
      Reaches (UefiHandover.Efi32.step fw) (UefiHandover.Efi32.start buf loaded) e ∧
      e.label = .jump ∧
      ∀ img m₁, Called32 img file e.mem m₁ → ∃ m₂,
        KernelEntry.Efi32.loadGdtAndJump img m₁ = some m₂ ∧ m₂.ip = eEntry file ∧
        (KernelState (eEntry file) multibootInfoAddr m₂ ↔ m₁.pg = false) ∧
        ∃ display i, Shows locate display ∧ Exits32 fw i ∧ (∀ j < i, ¬Exits32 fw j) ∧
          Delivers loaderName32 st display (displayBase display) (fw.getMemoryMap i) file loaded
            m₂.mem) ∧
    (¬Bootable file kernelTempAddr wd.outSize →
      (efiMain space32 loaderName32 st locate f fuel image fw₀ m).2 = some .refused) := by
  refine ⟨fun hb => ?_,efiMain_refuses le_rfl hf hfinds hclear⟩
  obtain ⟨loaded,e,hrun,hfile,hr,hj⟩ :=
    efi32_reaches hf hfinds (hclear hb.header) hb hexits hwalks buf
  refine ⟨loaded,e,hrun,hfile,hr,hj.label,fun img m₁ hm => ?_⟩
  obtain ⟨m₂,henter,hstate,hip,-,-,hmem⟩ :=
    KernelEntry.Efi32.loadGdtAndJump_kernelState_iff hm.toFlatFirmware hm.loaded hm.arguments
  obtain ⟨display,i,hs,hx,hfirst,hd⟩ := hj.delivers
  refine ⟨m₂,henter,hip,hstate,display,i,hs,hx,hfirst,delivers_congr hd fun x hneed => ?_⟩
  rw [hmem]
  exact hm.mem x hneed

/-- The tables one page above the caller's stack. -/
def pushingImage : KernelEntry.Efi32.Image where
  gdtp := 0x21000
  gdt := 0x21010
  idt := 0x21028
  jumped := 0x22000
  gdtp_lt := by decide
  idt_lt := by decide
  jumped_lt := by decide

/-- Both pages, with the arguments for a kernel at 1 MiB. -/
def pushedPages : Memory := fun i =>
  if i < 0x1000 then KernelEntry.Efi32.callStack.getD i 0
  else ([23,0,0x10,0x10,0x02,0]++List.replicate 10 0++KernelEntry.Efi32.gdtBytes).getD (i-0x1000) 0

def pushingMachine (mem : Memory) : Machine :=
  {KernelEntry.Efi32.pagingMachine with sp := 0x20000, mem := blit mem 0x20000 0x1100 pushedPages}

theorem load_pushedPages (mem : Memory) {w k : ℕ} (h : k+w ≤ 0x1100) :
    load w (pushingMachine mem).mem (0x20000+k) = load w pushedPages k := by
  apply load_congr
  intro i hi
  rw [Nat.add_assoc]
  exact blit_at (by omega)

theorem pushingMachine_called (mem : Memory) :
    Called32 pushingImage smallFile mem (pushingMachine mem) := by
  have hentry : eEntry smallFile = 0x100000 := by decide +kernel
  have hflat : KernelEntry.Efi32.FlatFirmware KernelEntry.Efi32.pagingMachine :=
    ⟨by decide,by decide,rfl,by decide,⟨rfl,rfl⟩,⟨rfl,rfl⟩⟩
  have hload {w k v : ℕ} (h : k+w ≤ 0x1100) (hv : load w pushedPages k = v) :
      load w (pushingMachine mem).mem (0x20000+k) = v := (load_pushedPages mem h).trans hv
  refine ⟨⟨hflat.pe,hflat.lme,hflat.csBig,hflat.csLimit,hflat.ds,hflat.ss⟩,?_,?_,fun x hx => ?_⟩
  · refine ⟨?_,?_,fun i hi => ?_,?_,?_⟩
    · exact hload (k := 0x1000) (by decide) (by decide)
    · exact hload (k := 0x1002) (by decide) (by decide)
    · have hbytes : HoldsTable pushedPages 0x1010 KernelEntry.Efi32.gdtBytes := by decide
      change i < 24 at hi
      rw [← hbytes i hi]
      exact (congrArg _ (Nat.add_assoc 0x20000 0x1010 i)).trans (blit_at (by omega))
    · exact hload (k := 0x1028) (by decide) (by decide)
    · exact hload (k := 0x102A) (by decide) (by decide)
  · rw [hentry]
    refine ⟨(by decide : 0x20000+16 ≤ 4294967296),?_,?_,?_⟩
    · exact hload (k := 4) (by decide) (by decide)
    · exact hload (k := 8) (by decide) (by decide)
    · exact hload (k := 12) (by decide) (by decide)
  · have hout := needed_smallFile hx
    exact blit_outside (by omega)

theorem efi32_enters_kernelVolume : ∃ loaded e m₂,
    (efiMain space32 loaderName32 bothTables vgaDisplay kernelVolume 1 1 () fun _ => 0).2 =
        some (.loaded (eEntry smallFile) loaded) ∧
      Reaches (UefiHandover.Efi32.step UefiHandover.Efi32.slowFirmware)
        (UefiHandover.Efi32.start (fun _ => 0) loaded) e ∧
      KernelEntry.Efi32.loadGdtAndJump pushingImage (pushingMachine e.mem) = some m₂ ∧
      m₂.ip = eEntry smallFile ∧ ∃ display i, Shows vgaDisplay display ∧
        Delivers loaderName32 bothTables display (displayBase display)
          (UefiHandover.Efi32.slowFirmware.getMemoryMap i) smallFile loaded m₂.mem := by
  have hsize := kernelVolume_size
    (KernelHandles.start () (prepareInfo space32 loaderName32 bothTables vgaDisplay fun _ => 0).2 0)
  have hmain := efi32_enters kernelVolume_readsInto (kernelVolume_finds _)
    (by rw [hsize]; exact fun _ => smallFile_clear)
    (show ∃ i, Exits32 UefiHandover.Efi32.slowFirmware i from ⟨1,rfl,rfl⟩)
    (fun _ _ => (by decide : 40 ≠ 0)) fun _ => 0
  rw [hsize] at hmain
  obtain ⟨loaded,e,hrun,-,hr,-,hcalls⟩ := hmain.1 smallFile_bootable
  obtain ⟨m₂,henter,hip,-,display,i,hs,-,-,hd⟩ := hcalls _ _ (pushingMachine_called e.mem)
  exact ⟨loaded,e,m₂,hrun,hr,henter,hip,display,i,hs,hd⟩

end Entry

end Gemiboot.UefiKernelEntry
