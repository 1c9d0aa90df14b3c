import Mathlib.Logic.Relation
import Gemiboot.A20Gate
import Gemiboot.BiosLoader
import Gemiboot.RealModeThunk

/-!
# The machine the kernel is entered on

What the Multiboot specification says about the processor at the kernel's entry, on the three
ways there: `multiboot_jump` of `io32.S` after any number of disk reads, the trampoline of
`bootx64.S`, which leaves long mode, and `load_gdt_and_jump` of `bootia32.S`.
-/
namespace Gemiboot.KernelEntry
open ByteMemory Processor Machine ProtectedMode RealModeThunk
open BiosLoader (multibootBootloaderMagic)
open DiskThunk (Outcome)

/-- Flat segments of 32 bits, no paging, no interrupts, and the registers. -/
structure KernelState (entry mbi : ℕ) (m : Machine) : Prop extends Flat m where
  ip : m.ip = entry
  ax : m.ax = multibootBootloaderMagic
  bx : m.bx = mbi

/-! ### The BIOS loader -/

/-- Compiled code does not touch the system registers, the segments or the tables. -/
structure Keeps (L : Layout) (m m' : Machine) : Prop where
  cr0 : m'.cr0 = m.cr0
  cs : m'.cs = m.cs
  ds : m'.ds = m.ds
  es : m'.es = m.es
  fs : m'.fs = m.fs
  gs : m'.gs = m.gs
  ss : m'.ss = m.ss
  gdtr : m'.gdtr = m.gdtr
  idtr : m'.idtr = m.idtr
  interrupts : m'.interrupts = m.interrupts
  tables : ∀ x, L.gdtp ≤ x → x < L.gdtp+68 → m'.mem x = m.mem x

/-- The C code goes on, or reads from the disk. -/
inductive Step (L : Layout) (disk : Memory) : Machine → Machine → Prop
  | code {m m' : Machine} : Keeps L m m' → Step L disk m m'
  | read {m m' : Machine} {bios : Bios} {outcome : ℕ → Outcome} {lba : UInt32}
      {sectors segment offset : UInt16} : Edd disk outcome bios → Registers32 m →
      StackFits m.sp → Arguments m lba sectors segment offset →
      BufferFits (DiskThunk.dapPacket lba sectors segment offset) →
      biosDiskReadRaw L bios 3 m = some m' → Step L disk m m'

theorem Keeps.protected {L : Layout} {m m' : Machine} (h : Keeps L m m')
    (hp : Protected L m) : Protected L m' := by
  refine ⟨⟨?_,?_,h.cs.trans hp.cs,h.ds.trans hp.ds,h.es.trans hp.es,h.fs.trans hp.fs,
    h.gs.trans hp.gs,h.ss.trans hp.ss,h.interrupts.trans hp.interrupts⟩,
    ⟨hp.loaded.congr h.tables,h.gdtr.trans hp.gdtr⟩,h.idtr.trans hp.idtr⟩
  · exact (congrArg (Nat.testBit · 0) h.cr0).trans hp.pe
  · exact (congrArg (Nat.testBit · 31) h.cr0).trans hp.pg

theorem Step.protected {L : Layout} {disk : Memory} {m m' : Machine}
    (h : Step L disk m m') (hp : Protected L m) : Protected L m' := by
  cases h with
  | code hk => exact hk.protected hp
  | read hedd hreg hstack hargs hbuf hrun =>
      obtain ⟨m'',hrun',hprot,_⟩ :=
        biosDiskReadRaw_refines hedd hp hreg hstack hargs hbuf (le_refl 3)
      rw [hrun,Option.some.injEq] at hrun'
      exact hrun' ▸ hprot

/-- The flat protected mode is an invariant of every run of the loader. -/
theorem run_protected {L : Layout} {disk : Memory} {m m' : Machine}
    (h : Relation.ReflTransGen (Step L disk) m m') (hp : Protected L m) :
    Protected L m' := by
  induction h with
  | refl => exact hp
  | tail _ hstep ih => exact hstep.protected ih

/-- The arguments of `multiboot_jump`. -/
structure JumpArguments (entry magic mbi : ℕ) (m : Machine) : Prop where
  sp : m.sp+16 ≤ 4294967296
  entry : load 4 m.mem (m.sp+4) = entry
  magic : load 4 m.mem (m.sp+8) = magic
  mbi : load 4 m.mem (m.sp+12) = mbi

theorem multibootJump_kernelState {m : Machine} {entry mbi : ℕ} (h : Flat m)
    (hargs : JumpArguments entry multibootBootloaderMagic mbi m) :
    ∃ m', multibootJump m = some m' ∧ KernelState entry mbi m' ∧ m'.mem = m.mem := by
  have hsp := hargs.sp
  have hentry := read_flat h.ss 4 (show m.sp+4+4 ≤ 4294967296 by omega) (by omega)
  have hmagic := read_flat h.ss 4 (show m.sp+8+4 ≤ 4294967296 by omega) (by omega)
  have hmbi := read_flat h.ss 4 (show m.sp+12+4 ≤ 4294967296 by omega) (by omega)
  rw [hargs.entry] at hentry
  rw [hargs.magic] at hmagic
  rw [hargs.mbi] at hmbi
  refine ⟨{ m with
    dx := entry, ax := multibootBootloaderMagic, bx := mbi, interrupts := false, ip := entry },
    ?_,⟨⟨h.pe,h.pg,h.cs,h.ds,h.es,h.fs,h.gs,h.ss,rfl⟩,rfl,rfl,rfl⟩,rfl⟩
  unfold multibootJump
  simp only [Option.bind_eq_bind]
  rw [hentry,Option.bind_some,hmagic,Option.bind_some,hmbi,Option.bind_some]

/-- From the end of `second_stage` to the kernel: the code is called in flat protected mode
with nothing of the image on its stack, and however often it reads from the disk, the jump
leaves the machine as the kernel expects it. -/
theorem secondStage_kernelState {L : Layout} {disk : Memory} {m : Machine} {entry mbi : ℕ}
    (hr : Real m) (hl : Loaded L m.mem) :
    ∃ m₁, enterProtected L m = some m₁ ∧ Protected L m₁ ∧ m₁.ip = L.biosLoaderMain ∧
      m₁.sp = 0x7FFEC ∧ load 4 m₁.mem m₁.sp = L.haltLoop ∧
      ∀ m₂, Relation.ReflTransGen (Step L disk) m₁ m₂ →
        JumpArguments entry multibootBootloaderMagic mbi m₂ →
        ∃ m₃, multibootJump m₂ = some m₃ ∧ KernelState entry mbi m₃ ∧ m₃.mem = m₂.mem := by
  obtain ⟨m₁,hrun,hprot,hip,hsp,hreturn,_⟩ := enterProtected_protected hr hl
  refine ⟨m₁,hrun,hprot,hip,hsp,hreturn,fun m₂ hsteps hargs => ?_⟩
  exact multibootJump_kernelState (run_protected hsteps hprot).toFlat hargs

/-- The loader has pushed the arguments of a kernel at 1 MiB. -/
theorem secondStage_kernelState_sample : ∃ m₁ m₂ m₃,
    enterProtected sampleLayout realMachine = some m₁ ∧
    Relation.ReflTransGen (Step sampleLayout fun _ => 0) m₁ m₂ ∧ multibootJump m₂ = some m₃ ∧
      KernelState 0x100000 0x95000 m₃ := by
  obtain ⟨m₁,hrun,_,_,_,_,hjump⟩ := secondStage_kernelState (L := sampleLayout)
    (m := realMachine)
    ⟨by decide,rfl,rfl⟩ sampleImage_loaded
  set args := store 4 (store 4 (store 4 m₁.mem 0x7FFE0 0x100000) 0x7FFE4
    multibootBootloaderMagic) 0x7FFE8 0x95000
  have hstep : Step sampleLayout (fun _ => 0) m₁ {m₁ with sp := 0x7FFDC, mem := args} := by
    refine .code ⟨rfl,rfl,rfl,rfl,rfl,rfl,rfl,rfl,rfl,rfl,fun x _ hx => ?_⟩
    have hlt : x < 0x7FFE0 := lt_trans hx (by decide)
    exact (blit_outside (.inl (by omega))).trans
      ((blit_outside (.inl (by omega))).trans (blit_outside (.inl hlt)))
  have hmbi : load 4 args 0x7FFE8 = 0x95000 := load_store_of_lt _ _ (by decide)
  have hmagic : load 4 args 0x7FFE4 = multibootBootloaderMagic := by
    rw [load_store_outside (by decide)]
    exact load_store_of_lt _ _ (by decide)
  have hentry : load 4 args 0x7FFE0 = 0x100000 := by
    rw [load_store_outside (by decide),load_store_outside (by decide)]
    exact load_store_of_lt _ _ (by decide)
  have hargs : JumpArguments 0x100000 multibootBootloaderMagic 0x95000
      {m₁ with sp := 0x7FFDC, mem := args} :=
    ⟨show 0x7FFDC+16 ≤ 4294967296 by decide,hentry,hmagic,hmbi⟩
  obtain ⟨m₃,hkernel,hstate,_⟩ := hjump _ (.single hstep) hargs
  exact ⟨m₁,_,m₃,hrun,.single hstep,hkernel,hstate⟩

/-! ### The fast A20 gate, as both UEFI loaders open it -/

/-- `inb $0x92, %al` and, where bit 1 is clear, `outb %al, $0x92`. -/
def fastA20 (m : Machine) : Machine :=
  let m := {m with ax := setLow 1 m.ax m.port92.toNat}
  if m.port92 &&& 0x02 ≠ 0 then m
  else
    let al := (m.port92 ||| 0x02) &&& 0xFE
    {m with ax := setLow 1 m.ax al.toNat, port92 := al}

/-- The gate is open, and the reset line was not pulled. -/
theorem fastA20_eq (m : Machine) : ∃ ax port92, fastA20 m = {m with ax := ax, port92 := port92} ∧
    port92 &&& 2 ≠ 0 ∧ (port92 = m.port92 ∨ port92 &&& 1 = 0) := by
  by_cases h : m.port92 &&& 0x02 = 0
  · obtain ⟨hset,hlow⟩ := A20Gate.port92_value m.port92
    exact ⟨_,_,if_neg (not_not.mpr h),hset,.inr hlow⟩
  · exact ⟨_,m.port92,if_pos h,h,.inl rfl⟩

/-! ### The 64-bit loader -/

namespace Efi64

/-- `gdt_table`. -/
def gdtTable : List UInt8 :=
  [0,0,0,0,0,0,0,0,
   0xFF,0xFF,0,0,0,0x9A,0xCF,0,
   0xFF,0xFF,0,0,0,0x92,0xCF,0,
   0xFF,0xFF,0,0,0,0x9A,0xAF,0,
   0xFF,0xFF,0,0,0,0x92,0xAF,0]

/-- `jump_to_32bit_kernel`, up to the far return. -/
def jumpTo32bitKernel (m : Machine) : Option Machine := do
  let m ← m.fetch 64 (m.cs.base+m.ip)
  let m := {m with interrupts := false}
  let m := {m with si := u32 m.cx}
  let m := {m with bx := u32 m.r8}
  let m := {m with r15 := load 8 m.mem (m.sp+48)}
  let m := {m with sp := m.sp-16}
  let m := {m with mem := store 2 m.mem m.sp (40-1)}
  let m := {m with ax := m.r15+0x800}
  let m := {m with mem := store 8 m.mem (m.sp+2) m.ax}
  let m := m.lgdt64 m.sp
  let m := {m with sp := m.sp+16}
  let m := m.push64 0x08
  let m := m.push64 m.r15
  m.farReturn64

/-- Steps 1 to 4 from `trampoline_32_start` on, at the address where it was copied. -/
def leaveLongMode (trampPhys : ℕ) (m : Machine) : Option Machine := do
  let m ← m.fetch 32 trampPhys
  let m := {m with ax := m.cr0}
  let m := {m with ax := m.ax &&& 0x7FFFFFFF}
  let m ← m.setCr0 m.ax
  let m := {m with cx := 0xC0000080}
  let m := {m with ax := u32 m.efer, dx := m.efer/4294967296}
  let m := {m with ax := m.ax &&& 0xFFFFFEFF}
  let m ← m.setEfer (m.dx*4294967296+m.ax)
  let m := {m with ax := setLow 2 m.ax 0x10}
  m.loadData 0x10

/-- Steps 5 to 10. -/
def enterKernel (m : Machine) : Option Machine := do
  let m := {m with sp := 0x0007FFF0}
  let m := {m with bp := m.sp}
  let m ← m.push 4 0
  let m ← m.push 4 0
  let m ← m.lidt m.ss m.sp
  let m := {m with sp := m.sp+8}
  let m := fastA20 m
  let m ← m.push 4 0
  let (eflags,m) ← m.pop 4
  let m := {m with interrupts := eflags.testBit 9}
  let m := {m with ax := 0x2BADB002}
  let m := {m with bx := 0x00095000}
  some {m with ip := m.si}

/-- 64-bit mode, as UEFI runs its applications. -/
structure LongMode (m : Machine) : Prop where
  pe : m.pe = true
  pg : m.pg = true
  lme : m.efer.testBit 8 = true
  cs : m.cs.long = true

theorem LongMode.bits {m : Machine} (h : LongMode m) : m.bits = 64 := by
  rw [Machine.bits,lma,h.lme,h.pg,h.cs]
  rfl

/-- The page of the trampoline, with the GDT in its middle, and a stack somewhere else. -/
structure Placed (trampPhys : ℕ) (m : Machine) : Prop where
  aligned : trampPhys%4096 = 0
  below : trampPhys+4096 ≤ 4294967296
  sp : 16 ≤ m.sp
  stack : m.sp ≤ trampPhys ∨ trampPhys+4096 ≤ m.sp-16
  argument : load 8 m.mem (m.sp+48) = trampPhys
  gdt : HoldsTable m.mem (trampPhys+0x800) gdtTable

/-- What is in memory at the far return, with the operand of LGDT below it overwritten. -/
def returnMemory (sp trampPhys : ℕ) (mem : Memory) : Memory :=
  let mem := store 8 (store 2 mem (sp-16) 39) (sp-16+2) (trampPhys+0x800)
  store 8 (store 8 mem (sp-8) 0x08) (sp-16) trampPhys

theorem returnMemory_outside {sp trampPhys x : ℕ} {mem : Memory} (hsp : 16 ≤ sp)
    (h : x < sp-16 ∨ sp ≤ x) : returnMemory sp trampPhys mem x = mem x := by
  unfold returnMemory store
  rw [blit_outside (by omega),blit_outside (by omega),blit_outside (by omega),
    blit_outside (by omega)]

/-- Up to the far return, which leaves 64-bit mode for the trampoline's page. -/
theorem jumpTo32bitKernel_eq {trampPhys : ℕ} {m : Machine} (hm : LongMode m)
    (hp : Placed trampPhys m) : jumpTo32bitKernel m = some { m with
      interrupts := false, si := u32 m.cx, bx := u32 m.r8, r15 := trampPhys
      ax := trampPhys+0x800, gdtr := ⟨trampPhys+0x800,39⟩, cs := codeSegment
      ip := trampPhys, mem := returnMemory m.sp trampPhys m.mem } := by
  have hsp := hp.sp
  have hbelow := hp.below
  have hstack := hp.stack
  have hfetch : m.fetch 64 (m.cs.base+m.ip) = some m := if_pos ⟨hm.bits,rfl,.inr rfl⟩
  -- the operand of LGDT
  set pushed := store 8 (store 2 m.mem (m.sp-16) 39) (m.sp-16+2) (trampPhys+0x800)
  have hlimit : load 2 pushed (m.sp-16) = 39 := by
    rw [load_store_outside (by omega)]
    exact load_store_of_lt _ _ (by decide)
  have hbase : load 8 pushed (m.sp-16+2) = trampPhys+0x800 :=
    load_store_of_lt _ _ (show _ < 256^8 by omega)
  have hgdt : HoldsTable (returnMemory m.sp trampPhys m.mem) (trampPhys+0x800) gdtTable :=
    hp.gdt.congr fun i hi => by
      change i < 40 at hi
      exact returnMemory_outside hsp (by omega)
  have hip : load 8 (returnMemory m.sp trampPhys m.mem) (m.sp-16) = trampPhys :=
    load_store_of_lt _ _ (show _ < 256^8 by omega)
  have hcs : load 8 (returnMemory m.sp trampPhys m.mem) (m.sp-16+8) = 0x08 := by
    rw [returnMemory,load_store_outside (by omega),show m.sp-16+8 = m.sp-8 by omega]
    exact load_store_of_lt _ _ (by decide)
  set m₁ : Machine := { m with
    interrupts := false, si := u32 m.cx, bx := u32 m.r8, r15 := trampPhys
    ax := trampPhys+0x800, gdtr := ⟨trampPhys+0x800,39⟩
    mem := returnMemory m.sp trampPhys m.mem }
  have hlookup : m₁.lookup 0x08 = some codeSegment :=
    @lookup_table m₁ _ _ gdtTable hgdt rfl (by decide)
  have hoff : trampPhys ≤ codeSegment.limit := by
    change _ ≤ 4294967295
    omega
  have hjump := farJump_protected (m := m₁) hm.pe hlookup (by decide) hoff
  unfold jumpTo32bitKernel
  simp only [Option.bind_eq_bind]
  rw [hfetch,Option.bind_some]
  have hcancel : m.sp-16+16 = m.sp := Nat.sub_add_cancel hsp
  have hsub : m.sp-8-8 = m.sp-16 := Nat.sub_sub m.sp 8 8
  simp only [farReturn64,push64,lgdt64,hp.argument,hcancel,hsub]
  change farJump (load 8 (returnMemory m.sp trampPhys m.mem) (m.sp-16+8)%65536)
    (load 8 (returnMemory m.sp trampPhys m.mem) (m.sp-16))
    {m₁ with gdtr := ⟨load 8 pushed (m.sp-16+2),load 2 pushed (m.sp-16)⟩} = _
  rw [hip,hcs,hlimit,hbase]
  exact hjump

theorem pg_and (n : ℕ) : (n &&& 0x7FFFFFFF).testBit 31 = false := by
  rw [Nat.testBit_and,show Nat.testBit 0x7FFFFFFF 31 = false by decide,Bool.and_false]

theorem pe_and (n : ℕ) : (n &&& 0x7FFFFFFF).testBit 0 = n.testBit 0 := by
  rw [Nat.testBit_and,show Nat.testBit 0x7FFFFFFF 0 = true by decide,Bool.and_true]

/-- LME is bit 8 of the low half. -/
theorem lme_and (high low : ℕ) :
    (high*4294967296+(u32 low &&& 0xFFFFFEFF)).testBit 8 = false := by
  have hlt : u32 low &&& 0xFFFFFEFF < 2^32 := Nat.and_lt_two_pow _ (by decide)
  rw [Nat.mul_comm,show (4294967296 : ℕ) = 2^32 by decide,Nat.testBit_two_pow_mul_add _ hlt,
    if_pos (by decide),Nat.testBit_and,show Nat.testBit 0xFFFFFEFF 8 = false by decide,
    Bool.and_false]

/-- The first two doublewords of the 32-bit stack. -/
def nullIdt (mem : Memory) : Memory := store 4 (store 4 mem 0x7FFEC 0) 0x7FFE8 0

theorem nullIdt_zero (mem : Memory) {x : ℕ} (h₁ : 0x7FFE8 ≤ x) (h₂ : x < 0x7FFF0) :
    nullIdt mem x = 0 := by
  have hbyte (i : ℕ) : byteOf 0 i = 0 := by
    rw [byteOf,Nat.zero_div]
    rfl
  by_cases hx : x < 0x7FFEC
  · exact (blit_inside h₁ hx).trans (hbyte _)
  · refine (blit_outside (.inr (by omega))).trans ?_
    exact (blit_inside (by omega) h₂).trans (hbyte _)

theorem leaveLongMode_eq {trampPhys : ℕ} {m : Machine} (hpe : m.pe = true)
    (hcs : m.cs = codeSegment) (hip : m.ip = trampPhys) (hgdtr : m.gdtr = ⟨trampPhys+0x800,39⟩)
    (hgdt : HoldsTable m.mem (trampPhys+0x800) gdtTable) (hlt : trampPhys < 4294967296) :
    ∃ ax dx efer, efer.testBit 8 = false ∧ leaveLongMode trampPhys m = some { m with
      ax := ax, cx := 0xC0000080, dx := dx, efer := efer, cr0 := m.cr0 &&& 0x7FFFFFFF
      ds := dataSegment, es := dataSegment, fs := dataSegment, gs := dataSegment
      ss := dataSegment } := by
  have hbits : m.bits = 32 := by
    rw [Machine.bits,hcs]
    simp [codeSegment]
  have hfetch : m.fetch 32 trampPhys = some m := by
    apply fetch_eq hbits
    · rw [hcs,hip]
      exact Nat.zero_add _
    · rw [hcs,hip]
      change _ ≤ 4294967295
      omega
  set m₁ : Machine := {m with ax := m.cr0 &&& 0x7FFFFFFF}
  have hbits₁ : m₁.bits ≠ 64 := fun h => absurd (hbits.symm.trans h) (by decide)
  have hcr0 : m₁.setCr0 m₁.ax = some {m₁ with cr0 := m.cr0 &&& 0x7FFFFFFF} :=
    setCr0_eq (pg_and m.cr0) hbits₁
  set m₂ : Machine := { m₁ with
    cr0 := m.cr0 &&& 0x7FFFFFFF, cx := 0xC0000080, ax := u32 m.efer &&& 0xFFFFFEFF
    dx := m.efer/4294967296 }
  have hpe₂ : m₂.pe = true := (pe_and m.cr0).trans hpe
  have hefer := setEfer_eq (m := m₂) (m₂.dx*4294967296+m₂.ax) (pg_and m.cr0)
  set m₃ : Machine := { m₂ with
    efer := m₂.dx*4294967296+m₂.ax, ax := setLow 2 m₂.ax 0x10 }
  have hdata := loadData_protected (m := m₃) (s := dataSegment) hpe₂
    (lookup_table hgdt hgdtr (by decide)) (by decide)
  refine ⟨m₃.ax,m₃.dx,m₃.efer,lme_and (m.efer/4294967296) m.efer,?_⟩
  unfold leaveLongMode
  simp only [Option.bind_eq_bind]
  rw [hfetch,Option.bind_some]
  change (m₁.setCr0 m₁.ax).bind _ = _
  rw [hcr0,Option.bind_some]
  change (m₂.setEfer (m₂.dx*4294967296+m₂.ax)).bind _ = _
  rw [hefer,Option.bind_some]
  exact hdata

/-- With the stack below 0x7FFF0 for the null IDT and for the flags. -/
theorem enterKernel_kernelState {m : Machine} (hpe : m.pe = true) (hpg : m.pg = false)
    (hcs : m.cs = codeSegment) (hds : m.ds = dataSegment) (hes : m.es = dataSegment)
    (hfs : m.fs = dataSegment) (hgs : m.gs = dataSegment) (hss : m.ss = dataSegment) :
    ∃ m', enterKernel m = some m' ∧ KernelState m.si 0x95000 m' ∧ m'.idtr = ⟨0,0⟩ ∧
      m'.efer = m.efer ∧ m'.port92 &&& 2 ≠ 0 ∧
      (m'.port92 = m.port92 ∨ m'.port92 &&& 1 = 0) ∧
      ∀ x, x < 0x7FFE8 ∨ 0x7FFF0 ≤ x → m'.mem x = m.mem x := by
  set m₁ : Machine := {m with sp := 0x0007FFF0, bp := 0x0007FFF0}
  set m₂ : Machine := {m₁ with sp := 0x7FFEC, mem := store 4 m.mem 0x7FFEC 0}
  have hpush₁ : m₁.push 4 0 = some m₂ := push_flat (m := m₁) hss 0
    (show 4 ≤ 0x7FFF0 by decide) (show 0x7FFF0 < 4294967296 by decide)
  set m₃ : Machine := {m₂ with sp := 0x7FFE8, mem := nullIdt m.mem}
  have hpush₂ : m₂.push 4 0 = some m₃ := push_flat (m := m₂) hss 0
    (show 4 ≤ 0x7FFEC by decide) (show 0x7FFEC < 4294967296 by decide)
  have hidt : m₃.lidt m₃.ss m₃.sp = some {m₃ with idtr := ⟨0,0⟩} := by
    have hlimit : m₃.ss.limit = 4294967295 := congrArg Segment.limit hss
    have hbase : m₃.ss.base = 0 := congrArg Segment.base hss
    have hzero (w a : ℕ) (h₁ : 0x7FFE8 ≤ a) (h₂ : a+w ≤ 0x7FFF0) :
        load w (nullIdt m.mem) a = 0 :=
      load_zero fun i hi => nullIdt_zero m.mem (by omega) (by omega)
    have hsp : m₃.sp = 0x7FFE8 := rfl
    rw [lidt_eq m₃ (by omega) (by omega),hbase,hsp,Nat.zero_add]
    change some {m₃ with idtr := ⟨load 4 (nullIdt m.mem) _,load 2 (nullIdt m.mem) _⟩} = _
    rw [hzero 4 _ (by decide) (by decide),hzero 2 _ (by decide) (by decide)]
  set m₄ : Machine := {m₃ with idtr := ⟨0,0⟩, sp := 0x7FFF0}
  obtain ⟨ax,port92,hfast,hopen,hreset⟩ := fastA20_eq m₄
  set m₅ : Machine := {m₄ with ax := ax, port92 := port92}
  set m₆ : Machine := {m₅ with sp := 0x7FFEC, mem := store 4 m₅.mem 0x7FFEC 0}
  have hpush₃ : m₅.push 4 0 = some m₆ := push_flat (m := m₅) hss 0
    (show 4 ≤ 0x7FFF0 by decide) (show 0x7FFF0 < 4294967296 by decide)
  have heflags : load 4 m₆.mem 0x7FFEC = 0 := load_store_of_lt _ _ (by decide)
  have hpop : m₆.pop 4 = some (0,{m₆ with sp := 0x7FFF0}) := by
    rw [← heflags]
    exact pop_flat (m := m₆) hss (show 0x7FFEC+4 < 4294967296 by decide)
  have hif : Nat.testBit 0 9 = false := Nat.zero_testBit 9
  have hrun : enterKernel m = some { m₆ with
      sp := 0x7FFF0, interrupts := false, ax := 0x2BADB002, bx := 0x95000, ip := m.si } := by
    unfold enterKernel
    simp only [Option.bind_eq_bind]
    change (m₁.push 4 0).bind _ = _
    rw [hpush₁,Option.bind_some,hpush₂,Option.bind_some,hidt,Option.bind_some]
    change ((fastA20 m₄).push 4 0).bind _ = _
    rw [hfast,hpush₃,Option.bind_some,hpop,Option.bind_some]
    simp only [hif]
    rfl
  refine ⟨_,hrun,⟨⟨hpe,hpg,hcs,hds,hes,hfs,hgs,hss,rfl⟩,rfl,rfl,rfl⟩,rfl,rfl,hopen,hreset,?_⟩
  intro x hx
  have hlow : x < 0x7FFEC ∨ 0x7FFEC+4 ≤ x := by omega
  refine (blit_outside hlow).trans ?_
  exact (blit_outside (by omega)).trans (blit_outside hlow)

/-- From the call of `jump_to_32bit_kernel` to the kernel: long mode is left without a fault,
the GDT in the trampoline's page is found on both sides, and only the two stacks are
written to. What the kernel gets in EBX is the trampoline's own constant. -/
theorem jumpTo32bitKernel_kernelState {trampPhys : ℕ} {m : Machine} (hm : LongMode m)
    (hp : Placed trampPhys m) : ∃ m',
      (jumpTo32bitKernel m >>= leaveLongMode trampPhys >>= enterKernel) = some m' ∧
      KernelState (u32 m.cx) 0x95000 m' ∧ m'.idtr = ⟨0,0⟩ ∧ m'.efer.testBit 8 = false ∧
      m'.port92 &&& 2 ≠ 0 ∧ (m'.port92 = m.port92 ∨ m'.port92 &&& 1 = 0) ∧
      ∀ x, x < m.sp-16 ∨ m.sp ≤ x → x < 0x7FFE8 ∨ 0x7FFF0 ≤ x → m'.mem x = m.mem x := by
  have hsp := hp.sp
  have hstack := hp.stack
  have hbelow := hp.below
  have hjump := jumpTo32bitKernel_eq hm hp
  set m₁ : Machine := { m with
    interrupts := false, si := u32 m.cx, bx := u32 m.r8, r15 := trampPhys
    ax := trampPhys+0x800, gdtr := ⟨trampPhys+0x800,39⟩, cs := codeSegment
    ip := trampPhys, mem := returnMemory m.sp trampPhys m.mem }
  have hgdt : HoldsTable m₁.mem (trampPhys+0x800) gdtTable := hp.gdt.congr fun i hi => by
    change i < 40 at hi
    exact returnMemory_outside hsp (by omega)
  obtain ⟨ax,dx,efer,hlme,hleave⟩ :=
    leaveLongMode_eq (m := m₁) hm.pe rfl rfl rfl hgdt (show trampPhys < 4294967296 by omega)
  set m₂ : Machine := { m₁ with
    ax := ax, cx := 0xC0000080, dx := dx, efer := efer, cr0 := m₁.cr0 &&& 0x7FFFFFFF
    ds := dataSegment, es := dataSegment, fs := dataSegment, gs := dataSegment
    ss := dataSegment }
  obtain ⟨m₃,henter,hstate,hidtr,hefer,hopen,hreset,hmem⟩ :=
    enterKernel_kernelState (m := m₂) ((pe_and m.cr0).trans hm.pe) (pg_and m.cr0) rfl rfl rfl
      rfl rfl rfl
  refine ⟨m₃,?_,hstate,hidtr,?_,hopen,hreset,fun x h₁ h₂ => ?_⟩
  · simp only [Option.bind_eq_bind]
    rw [hjump,Option.bind_some,hleave,Option.bind_some,henter]
  · rw [hefer]
    exact hlme
  · exact (hmem x h₂).trans (returnMemory_outside hsp h₁)

/-- The trampoline at 128 KiB, the stack at 448 KiB. -/
def longMachine : Machine := { realMachine with
  cx := 0x100000, r8 := 0x95000, sp := 0x70000, cs := ⟨0x38,0,0xFFFFFFFF,0x9B,false,true⟩
  cr0 := 0x80000001, efer := 0x500
  mem := fun x => if x < 0x30000 then gdtTable.getD (x-0x20800) 0
    else if x = 0x70032 then 2 else 0 }

end Efi64

/-! ### The 32-bit loader -/

namespace Efi32

/-- Where the relocated image has its tables and the label after the far jump. -/
structure Image where
  gdtp : ℕ
  gdt : ℕ
  idt : ℕ
  jumped : ℕ
  gdtp_lt : gdtp+6 ≤ 4294967296
  idt_lt : idt+6 ≤ 4294967296
  jumped_lt : jumped < 4294967296

/-- `gdt`. -/
def gdtBytes : List UInt8 :=
  [0,0,0,0,0,0,0,0,
   0xFF,0xFF,0,0,0,0b10011010,0b11001111,0,
   0xFF,0xFF,0,0,0,0b10010010,0b11001111,0]

/-- `load_gdt_and_jump`. -/
def loadGdtAndJump (img : Image) (m : Machine) : Option Machine := do
  let m ← m.fetch 32 (m.cs.base+m.ip)
  let m := {m with interrupts := false}
  let dx ← m.read 4 m.ss (m.sp+4)
  let ax ← m.read 4 m.ss (m.sp+8)
  let bx ← m.read 4 m.ss (m.sp+12)
  let m := {m with dx := dx, ax := ax, bx := bx}
  let m ← m.lgdt m.ds img.gdtp
  let m ← m.lidt m.ds img.idt
  let m := {m with cx := setLow 2 m.cx 0x10}
  let m ← m.loadData 0x10
  let m := {m with sp := 0x0007FFF0}
  let m := {m with bp := m.sp}
  let m ← m.farJump 0x08 img.jumped
  let m ← m.fetch 32 img.jumped
  let m := fastA20 m
  let m := {m with ax := 0x2BADB002}
  some {m with ip := m.dx}

/-- Protected mode with flat segments, as UEFI runs its 32-bit applications; the firmware
may have paging on. -/
structure FlatFirmware (m : Machine) : Prop where
  pe : m.pe = true
  lme : m.efer.testBit 8 = false
  csBig : m.cs.big = true
  csLimit : m.ip ≤ m.cs.limit
  ds : m.ds.base = 0 ∧ m.ds.limit = 0xFFFFFFFF
  ss : m.ss.base = 0 ∧ m.ss.limit = 0xFFFFFFFF

/-- The tables of the image. -/
structure Loaded (img : Image) (mem : Memory) : Prop where
  gdtpLimit : load 2 mem img.gdtp = 24-1
  gdtpBase : load 4 mem (img.gdtp+2) = img.gdt
  gdt : HoldsTable mem img.gdt gdtBytes
  idtLimit : load 2 mem img.idt = 0
  idtBase : load 4 mem (img.idt+2) = 0

theorem read_firmware {m : Machine} (h : FlatFirmware m) {off : ℕ}
    (hoff : off+4 ≤ 4294967296) : m.read 4 m.ss off = some (load 4 m.mem off) := by
  obtain ⟨hbase,hlimit⟩ := h.ss
  rw [read_eq m (by omega) (by omega),hbase,Nat.zero_add]

/-- The kernel is entered with everything set but for paging, which stays as the firmware
had it. -/
theorem loadGdtAndJump_kernelState_iff {img : Image} {m : Machine} {entry magic mbi : ℕ}
    (h : FlatFirmware m) (hl : Loaded img m.mem) (hargs : JumpArguments entry magic mbi m) :
    ∃ m', loadGdtAndJump img m = some m' ∧ (KernelState entry mbi m' ↔ m.pg = false) ∧
      m'.ip = entry ∧ m'.idtr = ⟨0,0⟩ ∧ m'.port92 &&& 2 ≠ 0 ∧ m'.mem = m.mem := by
  have hsp := hargs.sp
  have hbits (m' : Machine) (hefer : m'.efer = m.efer) (hbig : m'.cs.big = true) :
      m'.bits = 32 := by
    rw [Machine.bits,lma,hefer,h.lme,hbig]
    rfl
  have hfetch : m.fetch 32 (m.cs.base+m.ip) = some m := fetch_eq (hbits m rfl h.csBig) rfl h.csLimit
  have hdx := read_firmware h (show m.sp+4+4 ≤ 4294967296 by omega)
  have hax := read_firmware h (show m.sp+8+4 ≤ 4294967296 by omega)
  have hbx := read_firmware h (show m.sp+12+4 ≤ 4294967296 by omega)
  rw [hargs.entry] at hdx
  rw [hargs.magic] at hax
  rw [hargs.mbi] at hbx
  set m₁ : Machine := {m with interrupts := false, dx := entry, ax := magic, bx := mbi}
  have hlgdt : m₁.lgdt m₁.ds img.gdtp = some {m₁ with gdtr := ⟨img.gdt,23⟩} := by
    obtain ⟨hbase,hlimit⟩ : m₁.ds.base = 0 ∧ m₁.ds.limit = 0xFFFFFFFF := h.ds
    have hlt := img.gdtp_lt
    rw [lgdt_eq m₁ (by omega) (by omega),hbase,Nat.zero_add,hl.gdtpLimit,hl.gdtpBase]
  set m₂ : Machine := {m₁ with gdtr := ⟨img.gdt,23⟩}
  have hlidt : m₂.lidt m₂.ds img.idt = some {m₂ with idtr := ⟨0,0⟩} := by
    obtain ⟨hbase,hlimit⟩ : m₂.ds.base = 0 ∧ m₂.ds.limit = 0xFFFFFFFF := h.ds
    have hlt := img.idt_lt
    rw [lidt_eq m₂ (by omega) (by omega),hbase,Nat.zero_add,hl.idtLimit,hl.idtBase]
  set m₃ : Machine := {m₂ with idtr := ⟨0,0⟩, cx := setLow 2 m.cx 0x10}
  have hdata := loadData_protected (m := m₃) (s := dataSegment) h.pe
    (@lookup_table m₃ _ _ gdtBytes hl.gdt rfl (by decide)) (by decide)
  set m₄ : Machine := { m₃ with
    ds := dataSegment, es := dataSegment, fs := dataSegment, gs := dataSegment
    ss := dataSegment, sp := 0x0007FFF0, bp := 0x0007FFF0 }
  have hlt := img.jumped_lt
  have hoff : img.jumped ≤ codeSegment.limit := by
    change _ ≤ 4294967295
    omega
  have hlookup : m₄.lookup 0x08 = some codeSegment :=
    @lookup_table m₄ _ _ gdtBytes hl.gdt rfl (by decide)
  have hjump := farJump_protected (m := m₄) h.pe hlookup (by decide) hoff
  set m₅ : Machine := {m₄ with cs := codeSegment, ip := img.jumped}
  have hland : m₅.fetch 32 img.jumped = some m₅ :=
    fetch_eq (hbits m₅ rfl rfl) (Nat.zero_add img.jumped) hoff
  obtain ⟨ax,port92,hfast,hopen,-⟩ := fastA20_eq m₅
  have hrun : loadGdtAndJump img m = some { m₅ with
      ax := 0x2BADB002, port92 := port92, ip := entry } := by
    unfold loadGdtAndJump
    simp only [Option.bind_eq_bind]
    rw [hfetch,Option.bind_some]
    change (m.read 4 m.ss (m.sp+4)).bind _ = _
    rw [hdx,Option.bind_some]
    change (m.read 4 m.ss (m.sp+8)).bind _ = _
    rw [hax,Option.bind_some]
    change (m.read 4 m.ss (m.sp+12)).bind _ = _
    rw [hbx,Option.bind_some]
    change (m₁.lgdt m₁.ds img.gdtp).bind _ = _
    rw [hlgdt,Option.bind_some,hlidt,Option.bind_some,hdata,Option.bind_some]
    change (m₄.farJump 0x08 img.jumped).bind _ = _
    rw [hjump,Option.bind_some,hland,Option.bind_some,hfast]
  refine ⟨_,hrun,⟨fun hk => hk.pg,fun hpg => ?_⟩,rfl,rfl,hopen,rfl⟩
  exact ⟨⟨h.pe,hpg,rfl,rfl,rfl,rfl,rfl,rfl,rfl⟩,rfl,rfl,rfl⟩

def sampleImage : Image where
  gdtp := 0x1000
  gdt := 0x1010
  idt := 0x1028
  jumped := 0x900
  gdtp_lt := by decide
  idt_lt := by decide
  jumped_lt := by decide

/-- The return address and the arguments, on the firmware's stack at 64 KiB. -/
def callStack : List UInt8 :=
  [0,0,0,0,0,0,0x10,0,0x02,0xB0,0xAD,0x2B,0,0x50,0x09,0]

/-- Firmware that has paging on. -/
def pagingMachine : Machine := { realMachine with
  sp := 0x10000, cs := codeSegment, ds := dataSegment, ss := dataSegment, cr0 := 0x80000001
  mem := fun x => if x < 0x8000 then
      ([23,0,0x10,0x10,0,0]++List.replicate 10 0++gdtBytes).getD (x-0x1000) 0
    else callStack.getD (x-0x10000) 0 }

theorem loadGdtAndJump_kernelState_iff_paging : ∃ m',
    loadGdtAndJump sampleImage pagingMachine = some m' ∧ m'.ip = 0x100000 ∧
      ¬KernelState 0x100000 0x95000 m' := by
  have h : FlatFirmware pagingMachine :=
    ⟨by decide,by decide,rfl,by decide,⟨rfl,rfl⟩,⟨rfl,rfl⟩⟩
  have hl : Loaded sampleImage pagingMachine.mem :=
    ⟨by decide,by decide,by decide,by decide,by decide⟩
  have hargs : JumpArguments 0x100000 0x2BADB002 0x95000 pagingMachine :=
    ⟨by decide,by decide,by decide,by decide⟩
  obtain ⟨m',hrun,hstate,hip,_⟩ := loadGdtAndJump_kernelState_iff h hl hargs
  exact ⟨m',hrun,hip,fun hk => absurd (hstate.mp hk) (by decide)⟩

end Efi32

end Gemiboot.KernelEntry
