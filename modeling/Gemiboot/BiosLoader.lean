import Gemiboot.BootInformation
import Gemiboot.BootRoundTrip
import Gemiboot.CmosClock
import Gemiboot.ElfOutcome
import Gemiboot.FatSearch
import Gemiboot.HexConsole
import Gemiboot.NameForms

/-!
# The BIOS loader

`bios_loader_main` as a whole, from the partition table to the jump: what it finds on the
disk, what it does to memory and what it prints. The drive is a partial map of sectors,
and the buffers that the drivers use on the way (the bounce buffer and the stack) are not
part of the memory here.
-/
namespace Gemiboot.BiosLoader
open ByteMemory ShortNames FatReader ElfLoad MultibootMap BiosMemoryMap BootInformation
open SerialPort HexConsole CmosClock BootRoundTrip
open Mkdisk (gemiosName)

def multibootBootloaderMagic : ℕ := 0x2BADB002

/-- The loader stops at a `hlt`, at a division by zero, or leaves through
`multiboot_jump`. -/
inductive Outcome where
  | halted
  | divideError
  | jumped (entryPoint magic mbiAddr : ℕ) (mem : Memory)

structure Run where
  /-- The characters passed to `serial_putc`, without those of the disk driver. -/
  message : List UInt8
  outcome : Outcome

/-- `serial_puts` of a literal. -/
def puts (s : String) : List UInt8 := expandNewlines (asciiText s)

def bannerText : List UInt8 :=
  puts "\n=======================================================\n"++
    puts " GEMIBOOT - Multiboot x86 Boot Loader for GEMIOS (BIOS)\n"++
    puts "=======================================================\n"

/-- Both spellings, the second only if the first is not found. -/
def findKernel (fuel : ℕ) (fs : FatFs) (read : Disk) : Option Search :=
  match fatFindFile fuel fs read kernelQuery with
  | some .failed => fatFindFile fuel fs read gemiosName
  | r => r

section
variable (fuel : ℕ) (buf : Vector UInt8 12) (bootLoaderName : ℕ) (read : Disk) (cmos : Cmos)

/-- From `elf32_load` on; `message` has been printed before. -/
def startKernel (message : List UInt8) (fileSize : ℕ) (m : Memory) : Option Run := do
  let message := message++puts "[GEMIBOOT] Parsing ELF32 and loading sections...\n"
  let (entryPoint,s) ← elf32Load space32 m kernelTempAddr fileSize
  if entryPoint = 0 then
    some ⟨message++puts "[GEMIBOOT] ERROR: Failed to parse and load ELF32 kernel!\n",.halted⟩
  else
    let hex ← serialPutHex entryPoint
    let (pause,_) ← pauseSeconds fuel buf 5 cmos
    some ⟨message++puts "[GEMIBOOT] Kernel entry point: "++hex++puts "\n"++pause++
        puts "[GEMIBOOT] Multiboot information prepared. Jumping to GEMIOS kernel...\n\n",
      .jumped entryPoint multibootBootloaderMagic multibootInfoAddr
        (prepareBootInfo bootLoaderName s.mem)⟩

/-- From `fat_read_file` on. -/
def loadKernel (message : List UInt8) (fs : FatFs) (firstClus fileSize : ℕ) (m : Memory) :
    Option Run := do
  let size ← serialPutDec fuel buf fileSize
  let message := message++puts "[GEMIBOOT] Found gemios.elf, size: "++size++
    puts " bytes. Loading into memory...\n"
  match ← fatReadFile fuel fs read firstClus fileSize m kernelTempAddr with
  | none =>
      some ⟨message++puts "[GEMIBOOT] ERROR: Failed to read gemios.elf into memory!\n",.halted⟩
  | some l => startKernel fuel buf bootLoaderName cmos message fileSize l.mem

/-- From the search on. -/
def searchKernel (message : List UInt8) (fs : FatFs) (m : Memory) : Option Run := do
  let message := message++puts "[GEMIBOOT] Searching for gemios.elf...\n"
  match ← findKernel fuel fs read with
  | .failed => some ⟨message++puts "[GEMIBOOT] ERROR: gemios.elf not found on disk!\n",.halted⟩
  | .found firstClus fileSize =>
      loadKernel fuel buf bootLoaderName read cmos message fs firstClus fileSize m

/-- The result is `none` out of fuel. -/
def biosLoaderMain (m : Memory) : Option Run := do
  let partLba := findActivePartitionLba read
  let lba ← serialPutDec fuel buf partLba
  let message := bannerText++puts "[GEMIBOOT] Found active partition at LBA: "++lba++puts "\n"
  match fatInit read partLba with
  | .failed => some ⟨message++
      puts "[GEMIBOOT] ERROR: Failed to initialize FAT filesystem!\n",.halted⟩
  | .divisionByZero => some ⟨message,.divideError⟩
  | .ready fs => searchKernel fuel buf bootLoaderName read cmos message fs m

end

/-! ### The search -/

/-- The second spelling asks for the same short name, so it never finds what the first
has not. -/
theorem findKernel_eq (fuel : ℕ) (fs : FatFs) (read : Disk) :
    findKernel fuel fs read = fatFindFile fuel fs read kernelQuery := by
  have hname : format83Name gemiosName (fun _ => 0) = format83Name kernelQuery fun _ => 0 :=
    format83Name_caseless (by decide) ⟨by decide,by decide⟩ (by decide) _
  have hsame : fatFindFile fuel fs read gemiosName = fatFindFile fuel fs read kernelQuery := by
    rw [fatFindFile,fatFindFile,hname]
  unfold findKernel
  cases h : fatFindFile fuel fs read kernelQuery with
  | none => rfl
  | some r =>
      cases r with
      | found c s => rfl
      | failed => exact hsame.trans h

theorem findActivePartitionLba_lt (read : Disk) : findActivePartitionLba read < 4294967296 := by
  have hl : ∀ m a, load 4 m a < 4294967296 := fun m a => load_lt 4 m a
  unfold findActivePartitionLba
  cases read 0 with
  | none => decide
  | some mbr =>
      dsimp only
      split
      · exact hl _ _
      · split_ifs
        · exact hl _ _
        · decide

/-- The size of a file is what its entry says. -/
theorem size_of_answers {fs : FatFs} (hspc : 0 < fs.secPerClus) {read : Disk}
    {filename : CString} {c s : ℕ} (h : Answers fs read filename (.found c s)) :
    s < 4294967296 := by
  obtain ⟨n,hn,-⟩ := (answers_iff hspc read filename _).mp h
  rw [slotVerdict] at hn
  cases hbuf : rootBuf fs read (n/16) with
  | none =>
      rw [hbuf] at hn
      cases hn
  | some buf =>
      rw [hbuf] at hn
      dsimp only [entryVerdict] at hn
      split_ifs at hn <;> cases hn
      exact load_lt 4 _ _

/-! ### The load -/

/-- What the kernel finds when it is started: itself, and the information about the
machine where EBX says. -/
structure HandsOver (file : Memory) (size : ℕ) (m : Memory) (es : List MmapEntry)
    (display : FramebufferInfo) (name : ℕ) (entryPoint magic mbiAddr : ℕ) (mem : Memory) :
    Prop where
  entry : entryPoint = eEntry file
  magic : magic = multibootBootloaderMagic
  mbi : mbiAddr = multibootInfoAddr
  informs : Informs es display name mem
  segments : ∃ loaded, LoadedFile file (blit m kernelTempAddr size file) loaded ∧
    ∀ x, 0x100000 ≤ x → mem x = loaded x

/-- Everything `bios_loader_main` writes after the load lies below 1 MiB. -/
theorem prepareBootInfo_outside (name : ℕ) {m : Memory} {x : ℕ} (hx : 0x100000 ≤ x) :
    prepareBootInfo name m x = m x := by
  have haddr : multibootInfoAddr = 0x95000 := rfl
  have hbuf : mmapBufferAddr = 0x8000 := rfl
  obtain ⟨length,m',he,hm'⟩ := prepareMemoryMap_eq m
  rw [prepareBootInfo_eq,prepareFramebuffer_outside (by omega),nameLoader_outside (by omega),he]
  have hx' : x = multibootInfoAddr+(x-0x95000) := by omega
  rw [hx',finish_rest (by omega),← hx',hm' x (by omega)]
  apply fill_outside
  right
  simp only [multibootInfoSize]
  omega

section Load
variable {fuel : ℕ} {buf : Vector UInt8 12} {name : ℕ} {read : Disk} {cmos : Cmos} {d : ℕ}
  {rs : List Response} {a b c : VbeMode} {m₁ m : Memory}

/-- Low memory as `io16.S` has left it, and a clock chip that answers. -/
structure Prepared (fuel name : ℕ) (cmos : Cmos) (d : ℕ) (rs : List Response)
    (a b c : VbeMode) (m₁ m : Memory) : Prop where
  digits : 10 < fuel
  clock : Settles cmos.register d
  polls : d < fuel
  informs : ∀ m₂, (∀ x, 0x8000 ≤ x → x < 0x901A → m₂ x = initVideoMode a b c m₁ x) →
    Informs (toldMap rs) (toldDisplay (activeMode a b c)) name (prepareBootInfo name m₂)
  low : ∀ x, 0x8000 ≤ x → x < 0x901A → m x = initVideoMode a b c m₁ x

/-- With the file in the buffer, the loader jumps exactly if the file is bootable. -/
theorem startKernel_spec (hp : Prepared fuel name cmos d rs a b c m₁ m) {file : Memory}
    {size : ℕ} (hst : kernelTempAddr+size ≤ space32)
    (h : ValidHeader file kernelTempAddr size → FileClear file kernelTempAddr size 0x100000)
    (message : List UInt8) :
    ∃ run, startKernel fuel buf name cmos message size (blit m kernelTempAddr size file) =
        some run ∧
      (Bootable file kernelTempAddr size → ∃ mem,
        run.outcome = .jumped (eEntry file) multibootBootloaderMagic multibootInfoAddr mem ∧
          HandsOver file size m (toldMap rs) (toldDisplay (activeMode a b c)) name (eEntry file)
            multibootBootloaderMagic multibootInfoAddr mem) ∧
      (¬Bootable file kernelTempAddr size → run.outcome = .halted) := by
  obtain ⟨r,hr,hyes,hno⟩ := elf32Load_file le_rfl hst h m
  obtain ⟨cmos',hpause⟩ := pauseSeconds_settles hp.clock hp.polls hp.digits buf
    (show 5 < 4294967296 by norm_num) cmos rfl
  unfold startKernel
  rw [hr]
  simp only [Option.bind_eq_bind,Option.bind_some]
  by_cases hboot : Bootable file kernelTempAddr size
  · obtain ⟨hentry,hload⟩ := hyes hboot
    rw [if_neg (by rw [hentry]; exact hboot.entry),serialPutHex_eq]
    simp only [Option.bind_some,hpause]
    refine ⟨_,rfl,fun _ => ⟨_,by rw [← hentry],?_⟩,fun hnot => absurd hboot hnot⟩
    refine ⟨rfl,rfl,rfl,?_,r.2.mem,hload,fun x hx => prepareBootInfo_outside name hx⟩
    apply hp.informs
    intro x h₁ h₂
    have htemp : kernelTempAddr = 0x200000 := rfl
    rw [hload.low (h hboot.header) hboot (by omega),blit_outside (by omega),hp.low x h₁ h₂]
  · rw [if_pos (hno hboot)]
    exact ⟨_,rfl,fun hyes => absurd hyes hboot,fun _ => rfl⟩

/-- What is printed once the partition has been mounted. -/
def mountedText (read : Disk) : List UInt8 :=
  bannerText++puts "[GEMIBOOT] Found active partition at LBA: "++
    DecimalText.decimal (findActivePartitionLba read)++puts "\n"

theorem biosLoaderMain_ready (hf : 10 < fuel) {fs : FatFs}
    (h : fatInit read (findActivePartitionLba read) = .ready fs) :
    biosLoaderMain fuel buf name read cmos m =
      searchKernel fuel buf name read cmos (mountedText read) fs m := by
  unfold biosLoaderMain
  simp only [serialPutDec_spec buf (findActivePartitionLba_lt read) hf,Option.bind_eq_bind,
    Option.bind_some,h]
  rfl

theorem loadKernel_read (hf : 10 < fuel) {fs : FatFs} {first size : ℕ} (hs : size < 4294967296)
    (message : List UInt8) :
    (∀ l, fatReadFile fuel fs read first size m kernelTempAddr = some (some l) →
      ∃ message', loadKernel fuel buf name read cmos message fs first size m =
        startKernel fuel buf name cmos message' size l.mem) ∧
    (fatReadFile fuel fs read first size m kernelTempAddr = some none →
      ∃ message', loadKernel fuel buf name read cmos message fs first size m =
        some ⟨message',.halted⟩) := by
  unfold loadKernel
  rw [serialPutDec_spec buf hs hf]
  simp only [Option.bind_eq_bind,Option.bind_some]
  constructor
  · intro l hl
    rw [hl]
    exact ⟨_,rfl⟩
  · intro hnone
    rw [hnone]
    exact ⟨_,rfl⟩

end Load

/-! ### Exactly when the kernel is started -/

/-- The search has found a file, all its sectors can be read, and it is a kernel. -/
def Boots (fs : FatFs) (read : Disk) (r : Search) : Prop :=
  ∃ first size, r = .found first size ∧ (∀ j < fileSectors size, Supplied fs read first j) ∧
    Bootable (chainContents fs read first) kernelTempAddr size

/-- On a volume that is mounted and searched, with a kernel that would go above 1 MiB, the
loader jumps if and only if the file found can be read and is a kernel; otherwise it
halts. When it jumps, the kernel is in place and is told the truth about the machine as far
as the firmware has told it. -/
theorem biosLoaderMain_boots_iff {read : Disk} {fs : FatFs}
    (hinit : fatInit read (findActivePartitionLba read) = .ready fs) {r : Search}
    (hfind : Answers fs read kernelQuery r)
    (hroom : ∀ first size, r = .found first size → kernelTempAddr+size ≤ space32)
    (hclear : ∀ first size, r = .found first size →
      ValidHeader (chainContents fs read first) kernelTempAddr size →
        FileClear (chainContents fs read first) kernelTempAddr size 0x100000)
    {cmos : Cmos} {d : ℕ} (hclock : Settles cmos.register d) {rs : List Response}
    (hrs : ∃ r ∈ rs, r.Stops) (a b c : VbeMode) (m₀ : Memory) {name : ℕ}
    (hname : name < 4294967296) (buf : Vector UInt8 12) :
    ∃ m₁, getE820MemoryMap rs m₀ = some m₁ ∧
      ∀ m, (∀ x, 0x8000 ≤ x → x < 0x901A → m x = initVideoMode a b c m₁ x) →
        ∃ enough, ∀ fuel, enough ≤ fuel →
          ∃ run, biosLoaderMain fuel buf name read cmos m = some run ∧
            ((∃ e g addr mem, run.outcome = .jumped e g addr mem) ↔ Boots fs read r) ∧
            (¬Boots fs read r → run.outcome = .halted) ∧
            ∀ first size, r = .found first size →
              ∀ e g addr mem, run.outcome = .jumped e g addr mem →
                HandsOver (chainContents fs read first) size m (toldMap rs)
                  (toldDisplay (activeMode a b c)) name e g addr mem := by
  obtain ⟨m₁,hm₁,hinf⟩ := prepareBootInfo_informs hrs a b c m₀ hname
  refine ⟨m₁,hm₁,fun m hm => ?_⟩
  obtain ⟨n,hn⟩ := hfind
  have hspc := secPerClus_pos hinit
  cases r with
  | failed =>
      refine ⟨max n 11,fun fuel hfuel => ?_⟩
      rw [biosLoaderMain_ready (by omega) hinit,searchKernel,findKernel_eq,hn fuel (by omega)]
      have hnot : ¬Boots fs read .failed := by
        rintro ⟨first,size,hr,-⟩
        cases hr
      refine ⟨_,rfl,⟨?_,fun h => absurd h hnot⟩,fun _ => rfl,?_⟩
      · rintro ⟨e,g,addr,mem,h⟩
        cases h
      · intro first size hr
        cases hr
  | found first size =>
      have hsize := size_of_answers hspc ⟨n,hn⟩
      refine ⟨max (max n 11) (max (fileSectors size+1) (d+1)),fun fuel hfuel => ?_⟩
      have hprep : Prepared fuel name cmos d rs a b c m₁ m :=
        ⟨by omega,hclock,by omega,hinf,hm⟩
      rw [biosLoaderMain_ready hprep.digits hinit,searchKernel,findKernel_eq,hn fuel (by omega)]
      obtain ⟨hload,hfail⟩ := loadKernel_read
        (m := m) hprep.digits hsize
        (mountedText read++puts "[GEMIBOOT] Searching for gemios.elf...\n")
      obtain ⟨res,hres,hcases⟩ := @fatReadFileRun_cases fs read first size kernelTempAddr m hspc
        fuel (by omega)
      rcases hcases with ⟨rfl,hall⟩ | ⟨i,rfl,j,hj,hnot⟩
      · obtain ⟨message,hl⟩ := hload _ (by rw [fatReadFile,hres]; rfl)
        rw [afterSectors_mem] at hl
        obtain ⟨run,hrun,hyes,hno⟩ := startKernel_spec hprep
          (hroom first size rfl) (hclear first size rfl) message
        have hiff : Boots fs read (.found first size) ↔
            Bootable (chainContents fs read first) kernelTempAddr size := by
          constructor
          · rintro ⟨first',size',hr,-,hb⟩
            cases hr
            exact hb
          · exact fun hb => ⟨first,size,rfl,hall,hb⟩
        refine ⟨run,hl.trans hrun,?_,fun hb => hno fun hb' => hb (hiff.mpr hb'),?_⟩
        · rw [hiff]
          constructor
          · rintro ⟨e,g,addr,mem,h⟩
            by_contra hb
            rw [hno hb] at h
            cases h
          · intro hb
            obtain ⟨mem,h,-⟩ := hyes hb
            exact ⟨_,_,_,_,h⟩
        · intro first' size' hr e g addr mem h
          cases hr
          by_cases hb : Bootable (chainContents fs read first) kernelTempAddr size
          · obtain ⟨mem',h',hover⟩ := hyes hb
            rw [h'] at h
            cases h
            exact hover
          · rw [hno hb] at h
            cases h
      · obtain ⟨message,hl⟩ := hfail (by rw [fatReadFile,hres]; rfl)
        have hnb : ¬Boots fs read (.found first size) := by
          rintro ⟨first',size',hr,hall,-⟩
          cases hr
          exact hnot (hall j hj)
        refine ⟨_,hl,⟨?_,fun h => absurd h hnb⟩,fun _ => rfl,?_⟩
        · rintro ⟨e,g,addr,mem,h⟩
          cases h
        · intro first' size' _ e g addr mem h
          cases h

/-! ### The image of the builder -/

/-- Every image that `mkdisk` finishes with a kernel for this place boots: the loader
reads its own partition, finds the kernel that was put there, and starts it with the
segments of that file in memory. -/
theorem image_boots {inp : Mkdisk.Inputs} (hfit : Mkdisk.FitImage inp)
    (hboot : Bootable inp.kernel.data kernelTempAddr inp.kernel.size)
    (hclear : FileClear inp.kernel.data kernelTempAddr inp.kernel.size 0x100000)
    {cmos : Cmos} {d : ℕ} (hclock : Settles cmos.register d) {rs : List Response}
    (hrs : ∃ r ∈ rs, r.Stops) (a b c : VbeMode) (m₀ : Memory) {name : ℕ}
    (hname : name < 4294967296) (buf : Vector UInt8 12) :
    ∃ m₁, getE820MemoryMap rs m₀ = some m₁ ∧
      ∀ m, (∀ x, 0x8000 ≤ x → x < 0x901A → m x = initVideoMode a b c m₁ x) →
        ∃ enough, ∀ fuel, enough ≤ fuel → ∃ message mem,
          biosLoaderMain fuel buf name (imageRead (Mkdisk.main inp).disk) cmos m =
            some ⟨message,.jumped (eEntry inp.kernel.data) multibootBootloaderMagic
              multibootInfoAddr mem⟩ ∧
          HandsOver inp.kernel.data inp.kernel.size m (toldMap rs)
            (toldDisplay (activeMode a b c)) name (eEntry inp.kernel.data)
            multibootBootloaderMagic multibootInfoAddr mem := by
  obtain ⟨m₁,hm₁,hinf⟩ := prepareBootInfo_informs hrs a b c m₀ hname
  refine ⟨m₁,hm₁,fun m hm => ?_⟩
  obtain ⟨hpart,hinit,first,n,hn⟩ := kernel_roundTrip hfit
  have hsize : inp.kernel.size < 4294967296 := by
    have hst := hclear.stored
    have htemp : kernelTempAddr = 0x200000 := rfl
    simp only [space32] at hst
    omega
  refine ⟨max n (max 11 (d+1)),fun fuel hfuel => ?_⟩
  obtain ⟨hfind,hread⟩ := hn fuel (by omega)
  have hprep : Prepared fuel name cmos d rs a b c m₁ m :=
    ⟨by omega,hclock,by omega,hinf,hm⟩
  obtain ⟨l,hl,hmem⟩ := hread m kernelTempAddr
  rw [← hpart] at hinit
  rw [biosLoaderMain_ready hprep.digits hinit,searchKernel,findKernel_eq,hfind]
  obtain ⟨message,hrun⟩ := (loadKernel_read
    hprep.digits hsize
    (mountedText (imageRead (Mkdisk.main inp).disk)++
      puts "[GEMIBOOT] Searching for gemios.elf...\n")).1 l hl
  rw [hmem] at hrun
  obtain ⟨run,hstart,hyes,-⟩ := startKernel_spec hprep hclear.stored
    (fun _ => hclear) message
  obtain ⟨mem,hout,hover⟩ := hyes hboot
  obtain ⟨message',outcome⟩ := run
  dsimp only at hout
  rw [hout] at hstart
  exact ⟨message',mem,hrun.trans hstart,hover⟩

/-! ### Two disks that boot -/

/-- A disk with one active partition, a FAT16 volume whose only file is a kernel of 85
bytes. -/
def kernelDisk : Disk := fun lba => some fun i =>
  if lba = 0 then if i = 446 then 0x80 else if i = 454 then 1 else 0
  else if lba = 1 then
    if i = 12 then 2 else if i = 13 then 1 else if i = 14 then 1 else if i = 16 then 1
    else if i = 17 then 16 else if i = 20 then 0x20 else if i = 22 then 32 else 0
  else if lba = 34 then
    ([0x47,0x45,0x4D,0x49,0x4F,0x53,0x20,0x20,0x45,0x4C,0x46,0x20,0,0,0,0,0,0,0,0,0,0,0,0,0,0,2,0,
      85,0,0,0]).getD i 0
  else if lba = 35 then smallFile i
  else 0

def kernelDiskFs : FatFs := ⟨1,512,1,1,1,32,34,16,35,8192,8158,0,16⟩

theorem kernelDisk_answers : Answers kernelDiskFs kernelDisk kernelQuery (.found 2 85) := by
  refine ⟨0,fun fuel _ => ?_⟩
  rw [fatFindFile,if_neg (by decide)]
  decide +kernel

theorem kernelDisk_bootable :
    Bootable (chainContents kernelDiskFs kernelDisk 2) kernelTempAddr 85 := by
  refine ⟨⟨?_,?_,?_,?_,?_,?_⟩,fun i hi => ?_,?_⟩
  any_goals decide +kernel
  have hn : ePhnum (chainContents kernelDiskFs kernelDisk 2) = 1 := by decide +kernel
  obtain rfl : i = 0 := by omega
  exact ⟨by decide +kernel,fun _ => by decide +kernel⟩

theorem biosLoaderMain_boots_iff_kernelDisk :
    ∃ m₁, getE820MemoryMap [reservedResponse 0] (fun _ => 0) = some m₁ ∧
      ∃ enough, ∀ fuel, enough ≤ fuel → ∃ run e g addr mem,
        biosLoaderMain fuel (Vector.replicate 12 0) 0x12000 kernelDisk ⟨quietRegister,0,0⟩
          (initVideoMode noVideo noVideo noVideo m₁) = some run ∧
        run.outcome = .jumped e g addr mem := by
  have hinit : fatInit kernelDisk (findActivePartitionLba kernelDisk) = .ready kernelDiskFs := by
    decide +kernel
  have hfound : ∀ first size, Search.found 2 85 = .found first size → first = 2 ∧ size = 85 := by
    intro first size h
    cases h
    exact ⟨rfl,rfl⟩
  obtain ⟨m₁,hm₁,hall⟩ := biosLoaderMain_boots_iff hinit kernelDisk_answers
    (fun first size h => by rw [(hfound first size h).2]; decide)
    (fun first size h _ => by
      rw [(hfound first size h).1,(hfound first size h).2]
      apply fileClear_of_single <;> decide +kernel)
    (show Settles (Cmos.mk quietRegister 0 0).register _ from quietRegister_runs.settles)
    ⟨reservedResponse 0,.head _,fun _ => rfl⟩ noVideo noVideo noVideo (fun _ => 0)
    (show 0x12000 < 4294967296 by norm_num) (Vector.replicate 12 0)
  obtain ⟨enough,hrun⟩ := hall _ fun x _ _ => rfl
  refine ⟨m₁,hm₁,enough,fun fuel hfuel => ?_⟩
  obtain ⟨run,hr,hiff,-,-⟩ := hrun fuel hfuel
  obtain ⟨e,g,addr,mem,h⟩ := hiff.mpr
    ⟨2,85,rfl,by decide +kernel,kernelDisk_bootable⟩
  exact ⟨run,e,g,addr,mem,hr,h⟩

/-- The builder's inputs with that kernel and nothing else. -/
def smallInputs : Mkdisk.Inputs :=
  ⟨Mkdisk.emptyFile,Mkdisk.emptyFile,Mkdisk.emptyFile,Mkdisk.emptyFile,Mkdisk.emptyFile,
    ⟨smallFile,85,by norm_num⟩⟩

theorem image_boots_small :
    ∃ m₁, getE820MemoryMap [reservedResponse 0] (fun _ => 0) = some m₁ ∧
      ∃ enough, ∀ fuel, enough ≤ fuel → ∃ message mem,
        biosLoaderMain fuel (Vector.replicate 12 0) 0x12000
          (imageRead (Mkdisk.main smallInputs).disk) ⟨quietRegister,0,0⟩
          (initVideoMode noVideo noVideo noVideo m₁) =
        some ⟨message,.jumped 0x100000 multibootBootloaderMagic multibootInfoAddr mem⟩ := by
  obtain ⟨m₁,hm₁,hall⟩ := image_boots (show Mkdisk.FitImage smallInputs by decide)
    smallFile_bootable smallFile_clear
    (show Settles (Cmos.mk quietRegister 0 0).register _ from quietRegister_runs.settles)
    ⟨reservedResponse 0,.head _,fun _ => rfl⟩ noVideo noVideo noVideo (fun _ => 0)
    (show 0x12000 < 4294967296 by norm_num) (Vector.replicate 12 0)
  obtain ⟨enough,hrun⟩ := hall _ fun x _ _ => rfl
  refine ⟨m₁,hm₁,enough,fun fuel hfuel => ?_⟩
  obtain ⟨message,mem,h,-⟩ := hrun fuel hfuel
  have hentry : eEntry smallInputs.kernel.data = 0x100000 := by decide +kernel
  rw [hentry] at h
  exact ⟨message,mem,h⟩

end Gemiboot.BiosLoader
