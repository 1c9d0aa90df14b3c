import Gemiboot.Processor

/-!
# Into protected mode

The end of `second_stage` in `io16.S`, and `protected32` and `multiboot_jump` of `io32.S`.
The 16-bit code is linked from 0xFE00 on and runs at 1000:0000, so that `label+STROFF-_start`
is an offset in its segment. The tables and variables stand one after the other, which
leaves one address of theirs to the linker.
-/
namespace Gemiboot.ProtectedMode
open ByteMemory Processor Machine

/-! ### The image -/

/-- START_ADDRESS. -/
def startAddress : ℕ := 0x10000

/-- SIZE_16BIT_CODE of `include/defs.h`, which the build uses. -/
def size16BitCode : ℕ := 2048

/-- `_start`, where `io.ld` begins. -/
def start : ℕ := startAddress-512

/-- `label+STROFF-_start`. -/
def off16 (label : ℕ) : ℕ := label-512-start

/-- Where the linker put the labels. -/
structure Layout where
  gdtp : ℕ
  thunk16Real : ℕ
  protected32 : ℕ
  haltLoop : ℕ
  thunkPm32Return : ℕ
  biosLoaderMain : ℕ
  gdtp_ge : startAddress ≤ gdtp
  gdtp_thunk : gdtp+405 < thunk16Real
  /-- `.org _start+SIZE_16BIT_CODE-1+512`. -/
  thunk_lt : thunk16Real < startAddress+size16BitCode
  protected32_ge : startAddress+size16BitCode ≤ protected32
  protected32_lt : protected32 < 0x70000
  haltLoop_lt : haltLoop < 0x70000
  return_ge : startAddress+size16BitCode ≤ thunkPm32Return
  return_lt : thunkPm32Return < 0x70000

namespace Layout
variable (L : Layout)

def gdt : ℕ := L.gdtp+16
def idt : ℕ := L.gdt+40
def rmIdtr : ℕ := L.idt+6

/-- `dap_packet` and `dap_size`. -/
def dapPacket : ℕ := L.gdtp+80
def biosDriveId : ℕ := L.dapPacket+16
def savedEsp32 : ℕ := L.biosDriveId+1

/-- Behind the palette and the mode information. -/
def biosInt13Thunk16 : ℕ := L.savedEsp32+4+48+256
def biosInt13Thunk16Offset : ℕ := off16 L.biosInt13Thunk16

theorem gdt_eq : L.gdt = L.gdtp+16 := rfl
theorem idt_eq : L.idt = L.gdtp+56 := rfl
theorem rmIdtr_eq : L.rmIdtr = L.gdtp+62 := rfl
theorem biosDriveId_eq : L.biosDriveId = L.gdtp+96 := rfl
theorem savedEsp32_eq : L.savedEsp32 = L.gdtp+97 := rfl
theorem biosInt13Thunk16_eq : L.biosInt13Thunk16 = L.gdtp+405 := rfl

end Layout

theorem off16_eq (label : ℕ) : off16 label = label-0x10000 := by
  unfold off16 start startAddress
  omega

def gdtBytes : List UInt8 :=
  [0,0,0,0,0,0,0,0,
   0xFF,0xFF,0,0,0,0b10011010,0b11001111,0,
   0xFF,0xFF,0,0,0,0b10010010,0b11001111,0,
   0xFF,0xFF,0,0,1,0b10011010,0b00000000,0,
   0xFF,0xFF,0,0,1,0b10010010,0b00000000,0]

/-- The tables of the image are in memory. -/
structure Loaded (L : Layout) (mem : Memory) : Prop where
  gdtpLimit : load 2 mem L.gdtp = 40-1
  gdtpBase : load 4 mem (L.gdtp+2) = L.gdt-start+startAddress-512
  gdt : HoldsTable mem L.gdt gdtBytes
  idtLimit : load 2 mem L.idt = 0
  idtBase : load 4 mem (L.idt+2) = 0
  rmIdtrLimit : load 2 mem L.rmIdtr = 0x03FF
  rmIdtrBase : load 4 mem (L.rmIdtr+2) = 0

theorem Loaded.congr {L : Layout} {mem mem' : Memory} (h : Loaded L mem)
    (heq : ∀ x, L.gdtp ≤ x → x < L.gdtp+68 → mem' x = mem x) : Loaded L mem' := by
  have hload (w : ℕ) {a : ℕ} (h₁ : L.gdtp ≤ a) (h₂ : a+w ≤ L.gdtp+68) :
      load w mem' a = load w mem a := load_congr fun i hi => heq (a+i) (by omega) (by omega)
  have hgdt := L.gdt_eq
  have hidt := L.idt_eq
  have hrm := L.rmIdtr_eq
  constructor
  · exact (hload 2 (by omega) (by omega)).trans h.gdtpLimit
  · exact (hload 4 (by omega) (by omega)).trans h.gdtpBase
  · refine h.gdt.congr fun i hi => ?_
    change i < 40 at hi
    exact heq _ (by omega) (by omega)
  · exact (hload 2 (by omega) (by omega)).trans h.idtLimit
  · exact (hload 4 (by omega) (by omega)).trans h.idtBase
  · exact (hload 2 (by omega) (by omega)).trans h.rmIdtrLimit
  · exact (hload 4 (by omega) (by omega)).trans h.rmIdtrBase

/-! ### The segments -/

def codeSegment : Segment := ⟨0x08,0,0xFFFFFFFF,0b10011010,true,false⟩
def dataSegment : Segment := ⟨0x10,0,0xFFFFFFFF,0b10010010,true,false⟩
def code16Segment : Segment := ⟨0x18,0x10000,0xFFFF,0b10011010,false,false⟩
def data16Segment : Segment := ⟨0x20,0x10000,0xFFFF,0b10010010,false,false⟩

/-- GDTR is as `lgdtl` leaves it. -/
structure GdtLoaded (L : Layout) (m : Machine) : Prop where
  loaded : Loaded L m.mem
  gdtr : m.gdtr = ⟨L.gdt,39⟩

theorem GdtLoaded.lookup_code {L : Layout} {m : Machine} (h : GdtLoaded L m) :
    m.lookup 0x08 = some codeSegment :=
  lookup_table h.loaded.gdt h.gdtr (by decide)

theorem GdtLoaded.lookup_data {L : Layout} {m : Machine} (h : GdtLoaded L m) :
    m.lookup 0x10 = some dataSegment :=
  lookup_table h.loaded.gdt h.gdtr (by decide)

theorem GdtLoaded.lookup_code16 {L : Layout} {m : Machine} (h : GdtLoaded L m) :
    m.lookup 0x18 = some code16Segment :=
  lookup_table h.loaded.gdt h.gdtr (by decide)

theorem GdtLoaded.lookup_data16 {L : Layout} {m : Machine} (h : GdtLoaded L m) :
    m.lookup 0x20 = some data16Segment :=
  lookup_table h.loaded.gdt h.gdtr (by decide)

/-! ### The code -/

/-- From `protected32` to the call of `bios_loader_main`. -/
def protected32 (L : Layout) (m : Machine) : Option Machine := do
  let m ← m.fetch 32 L.protected32
  let m := {m with ax := setLow 2 m.ax 0x10}
  let m ← m.loadData 0x10
  let m := {m with sp := 0x0007FFF0}
  let m := {m with bp := m.sp}
  let m ← m.push 4 0
  let (eflags,m) ← m.pop 4
  let m := {m with interrupts := eflags.testBit 9}
  let m ← m.push 4 L.haltLoop
  some {m with ip := L.biosLoaderMain}

/-- The tables, CR0.PE and the far jump, from 16-bit code. -/
def switchProtected (L : Layout) (target : ℕ) (m : Machine) : Option Machine := do
  let m := {m with interrupts := false}
  let m ← m.lgdt m.ds (off16 L.gdtp)
  let m ← m.lidt m.ds (off16 L.idt)
  let m := {m with ax := m.cr0}
  let m := {m with ax := m.ax ||| 1}
  let m ← m.setCr0 m.ax
  m.farJump 0x08 target

/-- From step 4 of `second_stage` on. -/
def enterProtected (L : Layout) (m : Machine) : Option Machine := do
  let m ← switchProtected L L.protected32 m
  protected32 L m

def multibootJump (m : Machine) : Option Machine := do
  let dx ← m.read 4 m.ss (m.sp+4)
  let ax ← m.read 4 m.ss (m.sp+8)
  let bx ← m.read 4 m.ss (m.sp+12)
  some {m with dx := dx, ax := ax, bx := bx, interrupts := false, ip := dx}

/-! ### The switch -/

/-- 32-bit protected mode with flat segments, without paging, without interrupts. -/
structure Flat (m : Machine) : Prop where
  pe : m.pe = true
  pg : m.pg = false
  cs : m.cs = codeSegment
  ds : m.ds = dataSegment
  es : m.es = dataSegment
  fs : m.fs = dataSegment
  gs : m.gs = dataSegment
  ss : m.ss = dataSegment
  interrupts : m.interrupts = false

/-- What the C code runs in. -/
structure Protected (L : Layout) (m : Machine) : Prop extends Flat m, GdtLoaded L m where
  idtr : m.idtr = ⟨0,0⟩

/-- Real mode as `second_stage` sets it up: the limit is that of the processor's reset, or
of a 16-bit descriptor. -/
structure Real (m : Machine) : Prop where
  pg : m.pg = false
  dsBase : m.ds.base = 0x10000
  dsLimit : m.ds.limit = 0xFFFF

theorem pe_or (n : ℕ) : (n ||| 1).testBit 0 = true := by
  rw [Nat.testBit_or]
  simp

theorem pg_or (n : ℕ) : (n ||| 1).testBit 31 = n.testBit 31 := by
  rw [Nat.testBit_or,show Nat.testBit 1 31 = false by decide,Bool.or_false]

theorem Layout.off16_add (L : Layout) {label : ℕ} (h : L.gdtp ≤ label) :
    0x10000+off16 label = label := by
  have hge := L.gdtp_ge
  rw [off16_eq]
  unfold startAddress at hge
  omega

/-- The tables are where the 16-bit code looks for them. -/
theorem Layout.off16_table (L : Layout) {s : Segment} (hbase : s.base = 0x10000)
    (hlimit : s.limit = 0xFFFF) {label : ℕ} (h₁ : L.gdtp ≤ label) (h₂ : label ≤ L.gdtp+62) :
    off16 label+6 ≤ s.limit+1 ∧ s.base+off16 label < 4294967296 := by
  have hadd := L.off16_add h₁
  have hlt := L.thunk_lt
  have hthunk := L.gdtp_thunk
  unfold startAddress size16BitCode at hlt
  omega

theorem lgdt_gdtp {L : Layout} {m : Machine} {s : Segment} (hbase : s.base = 0x10000)
    (hlimit : s.limit = 0xFFFF) (h : Loaded L m.mem) :
    m.lgdt s (off16 L.gdtp) = some {m with gdtr := ⟨L.gdt,39⟩} := by
  have hroom := L.off16_table hbase hlimit (le_refl L.gdtp) (by omega)
  have hgdt : L.gdt-start+startAddress-512 = L.gdt := by
    have hge := L.gdtp_ge
    have heq := L.gdt_eq
    unfold start startAddress at *
    omega
  rw [lgdt_eq m hroom.1 hroom.2,hbase,L.off16_add (le_refl _),h.gdtpBase,h.gdtpLimit,hgdt]

theorem lidt_idt {L : Layout} {m : Machine} {s : Segment} (hbase : s.base = 0x10000)
    (hlimit : s.limit = 0xFFFF) (h : Loaded L m.mem) :
    m.lidt s (off16 L.idt) = some {m with idtr := ⟨0,0⟩} := by
  have heq := L.idt_eq
  have hroom := L.off16_table hbase hlimit (show L.gdtp ≤ L.idt by omega) (by omega)
  rw [lidt_eq m hroom.1 hroom.2,hbase,L.off16_add (by omega),h.idtBase,h.idtLimit]

theorem lidt_rmIdtr {L : Layout} {m : Machine} {s : Segment} (hbase : s.base = 0x10000)
    (hlimit : s.limit = 0xFFFF) (h : Loaded L m.mem) :
    m.lidt s (off16 L.rmIdtr) = some {m with idtr := ⟨0,0x03FF⟩} := by
  have heq := L.rmIdtr_eq
  have hroom := L.off16_table hbase hlimit (show L.gdtp ≤ L.rmIdtr by omega) (by omega)
  rw [lidt_eq m hroom.1 hroom.2,hbase,L.off16_add (by omega),h.rmIdtrBase,h.rmIdtrLimit]

theorem switchProtected_eq {L : Layout} {m : Machine} {target : ℕ} (hr : Real m)
    (h : Loaded L m.mem) (htarget : target < 0x70000) :
    switchProtected L target m = some { m with
      interrupts := false, gdtr := ⟨L.gdt,39⟩, idtr := ⟨0,0⟩, ax := m.cr0 ||| 1
      cr0 := m.cr0 ||| 1, cs := codeSegment, ip := target } := by
  set m₁ : Machine := {m with interrupts := false}
  have hgdt : m₁.lgdt m₁.ds (off16 L.gdtp) = some {m₁ with gdtr := ⟨L.gdt,39⟩} :=
    lgdt_gdtp hr.dsBase hr.dsLimit h
  set m₂ : Machine := {m₁ with gdtr := ⟨L.gdt,39⟩}
  have hidt : m₂.lidt m₂.ds (off16 L.idt) = some {m₂ with idtr := ⟨0,0⟩} :=
    lidt_idt hr.dsBase hr.dsLimit h
  set m₃ : Machine := {m₂ with idtr := ⟨0,0⟩, ax := m.cr0 ||| 1}
  have hcr0 : m₃.setCr0 m₃.ax = some {m₃ with cr0 := m.cr0 ||| 1} :=
    setCr0_eq ((pg_or m.cr0).trans hr.pg) (bits_ne_64 hr.pg)
  set m₄ : Machine := {m₃ with cr0 := m.cr0 ||| 1}
  have hlookup : m₄.lookup 0x08 = some codeSegment :=
    (show GdtLoaded L m₄ from ⟨h,rfl⟩).lookup_code
  have hoff : target ≤ codeSegment.limit := by
    change _ ≤ 4294967295
    omega
  have hjump : m₄.farJump 0x08 target = some {m₄ with cs := codeSegment, ip := target} :=
    farJump_protected (pe_or m.cr0) hlookup (by decide) hoff
  unfold switchProtected
  simp only [Option.bind_eq_bind]
  rw [hgdt,Option.bind_some,hidt,Option.bind_some,hcr0,Option.bind_some,hjump]

section FlatStack
variable {m : Machine} (hss : m.ss = dataSegment)
include hss

theorem stackSize_flat : m.stackSize = 4294967296 := by
  rw [stackSize,hss]
  rfl

theorem push_flat (v : ℕ) (hlow : 4 ≤ m.sp) (hsp : m.sp < 4294967296) :
    m.push 4 v = some {m with sp := m.sp-4, mem := store 4 m.mem (m.sp-4) v} := by
  have hmod : m.sp%m.stackSize = m.sp := by rw [stackSize_flat hss,Nat.mod_eq_of_lt hsp]
  have hlimit : m.ss.limit = 4294967295 := by rw [hss]; rfl
  have hbase : m.ss.base = 0 := by rw [hss]; rfl
  rw [push_eq m v (by decide) (by omega) (by omega) (by omega),hmod,hbase,Nat.zero_add]

theorem pop_flat (hsp : m.sp+4 < 4294967296) :
    m.pop 4 = some (load 4 m.mem m.sp,{m with sp := m.sp+4}) := by
  have hsize := stackSize_flat hss
  have hmod : m.sp%m.stackSize = m.sp := by rw [hsize,Nat.mod_eq_of_lt (by omega)]
  have hlimit : m.ss.limit = 4294967295 := by rw [hss]; rfl
  have hbase : m.ss.base = 0 := by rw [hss]; rfl
  rw [pop_eq m (by omega) (by omega) (by omega),hmod,hbase,Nat.zero_add]

/-- A word of the stack, or any other one, as all the segments are the same. -/
theorem read_flat {off : ℕ} (w : ℕ) (hoff : off+w ≤ 4294967296) (hlt : off < 4294967296) :
    m.read w m.ss off = some (load w m.mem off) := by
  have hlimit : m.ss.limit = 4294967295 := by rw [hss]; rfl
  have hbase : m.ss.base = 0 := by rw [hss]; rfl
  rw [read_eq m (by omega) (by omega),hbase,Nat.zero_add]

end FlatStack

theorem fetch_flat {m : Machine} {a : ℕ} (hpg : m.pg = false) (hcs : m.cs = codeSegment)
    (hip : m.ip = a) (ha : a < 4294967296) : m.fetch 32 a = some m := by
  apply fetch_eq
  · rw [bits_of_not_pg hpg,hcs]
    rfl
  · rw [hcs,hip]
    exact Nat.zero_add a
  · rw [hcs,hip]
    change a ≤ 4294967295
    omega

theorem protected32_eq {L : Layout} {m : Machine} (hpe : m.pe = true) (hpg : m.pg = false)
    (hcs : m.cs = codeSegment) (hip : m.ip = L.protected32) (hg : GdtLoaded L m) :
    protected32 L m = some { m with
      ax := setLow 2 m.ax 0x10, ds := dataSegment, es := dataSegment, fs := dataSegment
      gs := dataSegment, ss := dataSegment, sp := 0x7FFEC, bp := 0x7FFF0, interrupts := false
      ip := L.biosLoaderMain
      mem := store 4 (store 4 m.mem 0x7FFEC 0) 0x7FFEC L.haltLoop } := by
  have hlt := L.protected32_lt
  have hfetch : m.fetch 32 L.protected32 = some m := fetch_flat hpg hcs hip (by omega)
  set m₁ : Machine := {m with ax := setLow 2 m.ax 0x10}
  have hdata := loadData_protected (m := m₁) hpe
    (show GdtLoaded L m₁ from ⟨hg.loaded,hg.gdtr⟩).lookup_data (by decide)
  set m₂ : Machine := { m₁ with
    ds := dataSegment, es := dataSegment, fs := dataSegment, gs := dataSegment
    ss := dataSegment }
  set m₃ : Machine := {m₂ with sp := 0x0007FFF0, bp := 0x0007FFF0}
  set m₄ : Machine := {m₃ with sp := 0x7FFEC, mem := store 4 m.mem 0x7FFEC 0}
  have hpush : m₃.push 4 0 = some m₄ := 
    push_flat (m := m₃) rfl 0 (show 4 ≤ 0x7FFF0 by decide)
      (show 0x7FFF0 < 4294967296 by decide)
  have heflags : load 4 m₄.mem 0x7FFEC = 0 := load_store_of_lt _ _ (by decide)
  have hpop : m₄.pop 4 = some (0,{m₄ with sp := 0x7FFF0}) := by
    rw [← heflags]
    exact pop_flat (m := m₄) rfl (show 0x7FFEC+4 < 4294967296 by decide)
  set m₅ : Machine := {m₄ with sp := 0x7FFF0, interrupts := false}
  have hcall : m₅.push 4 L.haltLoop =
      some {m₅ with sp := 0x7FFEC, mem := store 4 m₅.mem 0x7FFEC L.haltLoop} :=
    push_flat (m := m₅) rfl L.haltLoop (show 4 ≤ 0x7FFF0 by decide)
      (show 0x7FFF0 < 4294967296 by decide)
  have hif : Nat.testBit 0 9 = false := Nat.zero_testBit 9
  unfold protected32
  simp only [Option.bind_eq_bind]
  rw [hfetch,Option.bind_some,hdata,Option.bind_some,hpush,Option.bind_some,hpop,
    Option.bind_some]
  simp only [hif]
  rw [hcall,Option.bind_some]

/-- The C code is called in flat protected mode, on a stack where nothing of the image is,
and the tables are as they were assembled. -/
theorem enterProtected_protected {L : Layout} {m : Machine} (hr : Real m)
    (h : Loaded L m.mem) : ∃ m', enterProtected L m = some m' ∧ Protected L m' ∧
      m'.ip = L.biosLoaderMain ∧ m'.sp = 0x7FFEC ∧ load 4 m'.mem m'.sp = L.haltLoop ∧
      ∀ x, x < 0x7FFEC ∨ 0x7FFF0 ≤ x → m'.mem x = m.mem x := by
  rw [enterProtected,switchProtected_eq hr h L.protected32_lt,Option.bind_eq_bind,
    Option.bind_some]
  set m₁ : Machine := { m with
    interrupts := false, gdtr := ⟨L.gdt,39⟩, idtr := ⟨0,0⟩, ax := m.cr0 ||| 1
    cr0 := m.cr0 ||| 1, cs := codeSegment, ip := L.protected32 }
  have hpe : m₁.pe = true := pe_or m.cr0
  have hpg : m₁.pg = false := (pg_or m.cr0).trans hr.pg
  rw [protected32_eq hpe hpg rfl rfl ⟨h,rfl⟩]
  have hframe (x : ℕ) (hx : x < 0x7FFEC ∨ 0x7FFF0 ≤ x) :
      store 4 (store 4 m.mem 0x7FFEC 0) 0x7FFEC L.haltLoop x = m.mem x :=
    (blit_outside hx).trans (blit_outside hx)
  have hloaded : Loaded L (store 4 (store 4 m.mem 0x7FFEC 0) 0x7FFEC L.haltLoop) := by
    refine h.congr fun x _ hx => hframe x (.inl ?_)
    have h₁ := L.gdtp_thunk
    have h₂ := L.thunk_lt
    unfold startAddress size16BitCode at h₂
    omega
  have hreturn : L.haltLoop < 256^4 := by
    have := L.haltLoop_lt
    omega
  refine ⟨_,rfl,?_,rfl,rfl,load_store_of_lt _ _ hreturn,hframe⟩
  exact ⟨⟨hpe,hpg,rfl,rfl,rfl,rfl,rfl,rfl,rfl⟩,⟨hloaded,rfl⟩,rfl⟩

/-! The image with the labels where its instructions put them, of which only those of the C
code depend on the compiler, and a machine in real mode. -/

def sampleLayout : Layout where
  gdtp := 0x10270
  thunk16Real := 0x10414
  protected32 := 0x10800
  haltLoop := 0x1081D
  thunkPm32Return := 0x10880
  biosLoaderMain := 0x10900
  gdtp_ge := by decide
  gdtp_thunk := by decide
  thunk_lt := by decide
  protected32_ge := by decide
  protected32_lt := by decide
  haltLoop_lt := by decide
  return_ge := by decide
  return_lt := by decide

def sampleTables : List UInt8 :=
  [39,0,0x80,0x02,0x01,0]++List.replicate 10 0++gdtBytes++List.replicate 6 0++
    [0xFF,0x03,0,0,0,0]

def sampleImage : Memory :=
  fun x => if 0x10270 ≤ x then sampleTables.getD (x-0x10270) 0 else 0

theorem sampleImage_loaded : Loaded sampleLayout sampleImage := by
  constructor <;> decide

def realSegment : Segment := ⟨0x1000,0x10000,0xFFFF,0b10010011,false,false⟩

def realMachine : Machine where
  ax := 0
  bx := 0
  cx := 0
  dx := 0x80
  si := 0
  di := 0
  bp := 0
  sp := 0x7C00
  r8 := 0
  r15 := 0
  ip := 0
  interrupts := true
  cs := realSegment
  ds := realSegment
  es := realSegment
  fs := realSegment
  gs := realSegment
  ss := {realSegment with selector := 0, base := 0}
  gdtr := ⟨0,0⟩
  idtr := ⟨0,0x03FF⟩
  cr0 := 0x10
  efer := 0
  port92 := 0
  mem := sampleImage

end Gemiboot.ProtectedMode
