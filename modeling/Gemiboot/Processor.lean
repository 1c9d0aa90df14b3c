import Gemiboot.ByteMemory

/-!
# Modes of the x86 processor

The part of the processor that a boot loader sets up: segment registers with the
descriptor each was loaded from, the descriptor tables, CR0 and EFER. What the processor
does not allow gives `none`. The width of the instructions and of the stack comes from the
descriptors, in real mode from the ones loaded last. Addresses are physical, so where there
is paging it maps what is used onto itself. Privilege levels other than 0, and the accessed
bit of a descriptor, are left out.
-/
namespace Gemiboot.Processor
open ByteMemory

/-! ### Segments -/

/-- A segment register with its hidden part. -/
structure Segment where
  selector : ℕ
  base : ℕ
  limit : ℕ
  access : ℕ
  big : Bool
  long : Bool
  deriving DecidableEq

/-- Present, at level 0, and not of the system. -/
def Segment.Code (s : Segment) : Prop := s.access/8 = 19

def Segment.WritableData (s : Segment) : Prop := s.access/8 = 18 ∧ s.access/2%4 = 1

instance Segment.decidableCode (s : Segment) : Decidable s.Code :=
  inferInstanceAs (Decidable (_ = _))

instance Segment.decidableWritableData (s : Segment) : Decidable s.WritableData :=
  inferInstanceAs (Decidable (_ ∧ _))

/-- The 8 bytes of a descriptor. -/
def descriptor (mem : Memory) (a selector : ℕ) : Segment :=
  let flags := (mem (a+6)).toNat
  let limit := load 2 mem a+65536*(flags%16)
  { selector := selector
    base := load 3 mem (a+2)+16777216*(mem (a+7)).toNat
    limit := if flags/128%2 = 1 then 4096*limit+4095 else limit
    access := (mem (a+5)).toNat
    big := flags/64%2 = 1
    long := flags/32%2 = 1 }

theorem descriptor_congr {mem mem' : Memory} {a a' : ℕ} (selector : ℕ)
    (h : ∀ i < 8, mem (a+i) = mem' (a'+i)) :
    descriptor mem a selector = descriptor mem' a' selector := by
  have hlimit : load 2 mem a = load 2 mem' a' := load_congr fun i hi => h i (by omega)
  have hbase : load 3 mem (a+2) = load 3 mem' (a'+2) := by
    apply load_congr
    intro i hi
    simpa only [Nat.add_assoc] using h (2+i) (by omega)
  simp only [descriptor,hlimit,hbase,h 5 (by decide),h 6 (by decide),h 7 (by decide)]

/-- The table's bytes are in memory. -/
def HoldsTable (mem : Memory) (a : ℕ) (bytes : List UInt8) : Prop :=
  ∀ i < bytes.length, mem (a+i) = bytes.getD i 0

instance HoldsTable.decidable (mem : Memory) (a : ℕ) (bytes : List UInt8) :
    Decidable (HoldsTable mem a bytes) :=
  inferInstanceAs (Decidable (∀ i < bytes.length, mem (a+i) = bytes.getD i 0))

theorem HoldsTable.congr {mem mem' : Memory} {a : ℕ} {bytes : List UInt8}
    (h : HoldsTable mem a bytes) (heq : ∀ i < bytes.length, mem' (a+i) = mem (a+i)) :
    HoldsTable mem' a bytes := fun i hi => (heq i hi).trans (h i hi)

theorem HoldsTable.descriptor {mem : Memory} {a : ℕ} {bytes : List UInt8}
    (h : HoldsTable mem a bytes) {selector : ℕ} (hs : selector+8 ≤ bytes.length) :
    descriptor mem (a+selector) selector =
      Processor.descriptor (fun i => bytes.getD i 0) selector selector := by
  apply descriptor_congr
  intro i hi
  rw [Nat.add_assoc]
  exact h (selector+i) (by omega)

/-- GDTR and IDTR. -/
structure Table where
  base : ℕ
  limit : ℕ
  deriving DecidableEq

/-! ### The machine -/

/-- Writes the low `w` bytes of a register. -/
def setLow (w old v : ℕ) : ℕ := old/256^w*256^w+v

theorem setLow_mod (w old : ℕ) {v : ℕ} (h : v < 256^w) : setLow w old v%256^w = v := by
  rw [setLow,Nat.mul_add_mod_self_right,Nat.mod_eq_of_lt h]

/-- A general register is as wide as the mode it was written in. -/
structure Machine where
  ax : ℕ
  bx : ℕ
  cx : ℕ
  dx : ℕ
  si : ℕ
  di : ℕ
  bp : ℕ
  sp : ℕ
  r8 : ℕ
  r15 : ℕ
  ip : ℕ
  interrupts : Bool
  cs : Segment
  ds : Segment
  es : Segment
  fs : Segment
  gs : Segment
  ss : Segment
  gdtr : Table
  idtr : Table
  cr0 : ℕ
  efer : ℕ
  port92 : UInt8
  mem : Memory

namespace Machine

/-- CR0.PE. -/
def pe (m : Machine) : Bool := m.cr0.testBit 0

/-- CR0.PG. -/
def pg (m : Machine) : Bool := m.cr0.testBit 31

/-- IA32_EFER.LMA, which is LME while there is paging. -/
def lma (m : Machine) : Bool := m.efer.testBit 8 && m.pg

/-- The width of the code that is executed. -/
def bits (m : Machine) : ℕ :=
  if m.lma && m.cs.long then 64 else if m.cs.big then 32 else 16

/-- The next instruction is the one at this address, and is of this width. -/
def fetch (bits a : ℕ) (m : Machine) : Option Machine :=
  if m.bits = bits ∧ m.cs.base+m.ip = a ∧ (m.ip ≤ m.cs.limit ∨ bits = 64) then some m else none

/-! #### Memory -/

def address (s : Segment) (off w : ℕ) : Option ℕ :=
  if off+w ≤ s.limit+1 then some (u32 (s.base+off)) else none

def read (w : ℕ) (s : Segment) (off : ℕ) (m : Machine) : Option ℕ :=
  (address s off w).map (load w m.mem)

def write (w : ℕ) (s : Segment) (off v : ℕ) (m : Machine) : Option Machine :=
  (address s off w).map fun a => {m with mem := store w m.mem a v}

/-- How many values the stack pointer has. -/
def stackSize (m : Machine) : ℕ := if m.ss.big then 4294967296 else 65536

/-- Sets the part of the stack pointer that the stack uses. -/
def setSp (v : ℕ) (m : Machine) : Machine :=
  {m with sp := m.sp/m.stackSize*m.stackSize+v%m.stackSize}

def push (w v : ℕ) (m : Machine) : Option Machine :=
  let m := m.setSp (m.sp%m.stackSize+m.stackSize-w)
  m.write w m.ss (m.sp%m.stackSize) v

def pop (w : ℕ) (m : Machine) : Option (ℕ × Machine) :=
  (m.read w m.ss (m.sp%m.stackSize)).map fun v => (v,m.setSp (m.sp%m.stackSize+w))

/-! #### Segment registers -/

/-- The descriptor for a selector of the GDT at level 0. -/
def lookup (selector : ℕ) (m : Machine) : Option Segment :=
  if 8 ≤ selector ∧ selector%8 = 0 ∧ selector+7 ≤ m.gdtr.limit then
    some (descriptor m.mem (m.gdtr.base+selector) selector)
  else none

/-- What a data segment register holds after it is loaded. -/
def segment (selector : ℕ) (old : Segment) (m : Machine) : Option Segment :=
  if m.pe then
    (m.lookup selector).bind fun s => if s.WritableData then some s else none
  else some {old with selector := selector, base := 16*selector}

def loadDs (selector : ℕ) (m : Machine) : Option Machine :=
  (m.segment selector m.ds).map fun s => {m with ds := s}

def loadEs (selector : ℕ) (m : Machine) : Option Machine :=
  (m.segment selector m.es).map fun s => {m with es := s}

def loadFs (selector : ℕ) (m : Machine) : Option Machine :=
  (m.segment selector m.fs).map fun s => {m with fs := s}

def loadGs (selector : ℕ) (m : Machine) : Option Machine :=
  (m.segment selector m.gs).map fun s => {m with gs := s}

def loadSs (selector : ℕ) (m : Machine) : Option Machine :=
  (m.segment selector m.ss).map fun s => {m with ss := s}

/-- The five data segment registers, the stack last. -/
def loadData (selector : ℕ) (m : Machine) : Option Machine := do
  let m ← m.loadDs selector
  let m ← m.loadEs selector
  let m ← m.loadFs selector
  let m ← m.loadGs selector
  m.loadSs selector

/-- A far jump, and the end of a far return. -/
def farJump (selector off : ℕ) (m : Machine) : Option Machine :=
  if m.pe then
    (m.lookup selector).bind fun s =>
      if s.Code ∧ off ≤ s.limit then some {m with cs := s, ip := off} else none
  else if off ≤ m.cs.limit then
    some {m with cs := {m.cs with selector := selector, base := 16*selector}, ip := off}
  else none

/-! #### System registers -/

/-- Paging needs protection, and 64-bit code needs paging. -/
def setCr0 (v : ℕ) (m : Machine) : Option Machine :=
  if v.testBit 31 && !v.testBit 0 || m.bits = 64 && !v.testBit 31 then none
  else some {m with cr0 := v}

/-- IA32_EFER.LME may not change while there is paging. -/
def setEfer (v : ℕ) (m : Machine) : Option Machine :=
  if m.pg && v.testBit 8 != m.efer.testBit 8 then none else some {m with efer := v}

/-- The operand of LGDT and LIDT in 16-bit and 32-bit code. -/
def table (s : Segment) (off : ℕ) (m : Machine) : Option Table :=
  (address s off 6).map fun a => ⟨load 4 m.mem (a+2),load 2 m.mem a⟩

def lgdt (s : Segment) (off : ℕ) (m : Machine) : Option Machine :=
  (m.table s off).map fun t => {m with gdtr := t}

def lidt (s : Segment) (off : ℕ) (m : Machine) : Option Machine :=
  (m.table s off).map fun t => {m with idtr := t}

/-! #### 64-bit code -/

/-- The operand of LGDT has a base of 8 bytes. -/
def lgdt64 (a : ℕ) (m : Machine) : Machine :=
  {m with gdtr := ⟨load 8 m.mem (a+2),load 2 m.mem a⟩}

def push64 (v : ℕ) (m : Machine) : Machine :=
  {m with sp := m.sp-8, mem := store 8 m.mem (m.sp-8) v}

def farReturn64 (m : Machine) : Option Machine :=
  {m with sp := m.sp+16}.farJump (load 8 m.mem (m.sp+8)%65536) (load 8 m.mem m.sp)

/-! ### What the instructions do -/

theorem address_eq {s : Segment} {off w : ℕ} (h : off+w ≤ s.limit+1)
    (hb : s.base+off < 4294967296) : address s off w = some (s.base+off) := by
  rw [address,if_pos h,u32_of_lt hb]

theorem read_eq {s : Segment} {off w : ℕ} (m : Machine) (h : off+w ≤ s.limit+1)
    (hb : s.base+off < 4294967296) : m.read w s off = some (load w m.mem (s.base+off)) := by
  rw [read,address_eq h hb]
  rfl

theorem write_eq {s : Segment} {off w : ℕ} (m : Machine) (v : ℕ) (h : off+w ≤ s.limit+1)
    (hb : s.base+off < 4294967296) :
    m.write w s off v = some {m with mem := store w m.mem (s.base+off) v} := by
  rw [write,address_eq h hb]
  rfl

theorem stackSize_pos (m : Machine) : 0 < m.stackSize := by
  unfold stackSize
  split <;> decide

/-- A push that does not wrap around. -/
theorem push_eq {w : ℕ} (m : Machine) (v : ℕ) (hw : 0 < w) (hlow : w ≤ m.sp%m.stackSize)
    (hlimit : m.sp%m.stackSize ≤ m.ss.limit+1)
    (hb : m.ss.base+m.sp%m.stackSize ≤ 4294967296) :
    m.push w v = some { m with
      sp := m.sp-w, mem := store w m.mem (m.ss.base+(m.sp%m.stackSize-w)) v } := by
  have hpos := m.stackSize_pos
  have hlt := Nat.mod_lt m.sp hpos
  have hnew : (m.sp%m.stackSize+m.stackSize-w)%m.stackSize = m.sp%m.stackSize-w := by
    rw [show m.sp%m.stackSize+m.stackSize-w = m.sp%m.stackSize-w+m.stackSize by omega,
      Nat.add_mod_right,Nat.mod_eq_of_lt (by omega)]
  have hsp : m.sp/m.stackSize*m.stackSize+(m.sp%m.stackSize-w) = m.sp-w := by
    have := Nat.div_add_mod' m.sp m.stackSize
    omega
  have hset : m.setSp (m.sp%m.stackSize+m.stackSize-w) = {m with sp := m.sp-w} := by
    rw [setSp,hnew,hsp]
  have hmod : (m.sp-w)%m.stackSize = m.sp%m.stackSize-w := by
    rw [← hsp,Nat.mul_add_mod_self_right,Nat.mod_eq_of_lt (by omega)]
  rw [push,hset]
  change write w m.ss ((m.sp-w)%m.stackSize) v {m with sp := m.sp-w} = _
  rw [hmod,write_eq _ _ (by omega) (by omega)]

theorem pop_eq {w : ℕ} (m : Machine) (hw : m.sp%m.stackSize+w < m.stackSize)
    (hlimit : m.sp%m.stackSize+w ≤ m.ss.limit+1)
    (hb : m.ss.base+m.sp%m.stackSize < 4294967296) :
    m.pop w = some (load w m.mem (m.ss.base+m.sp%m.stackSize),{m with sp := m.sp+w}) := by
  have hsp : m.sp/m.stackSize*m.stackSize+(m.sp%m.stackSize+w) = m.sp+w := by
    have := Nat.div_add_mod' m.sp m.stackSize
    omega
  rw [pop,read_eq m hlimit hb,Option.map_some,setSp,Nat.mod_eq_of_lt hw,hsp]

/-- The descriptors of a table that GDTR describes. -/
theorem lookup_table {m : Machine} {a selector : ℕ} {bytes : List UInt8}
    (h : HoldsTable m.mem a bytes) (hg : m.gdtr = ⟨a,bytes.length-1⟩)
    (hs : 8 ≤ selector ∧ selector%8 = 0 ∧ selector+8 ≤ bytes.length) :
    m.lookup selector =
      some (descriptor (fun i => bytes.getD i 0) selector selector) := by
  have hlimit : selector+7 ≤ m.gdtr.limit := by
    rw [hg]
    change selector+7 ≤ bytes.length-1
    omega
  rw [lookup,if_pos ⟨hs.1,hs.2.1,hlimit⟩,hg,h.descriptor hs.2.2]

theorem segment_protected {m : Machine} {selector : ℕ} {s : Segment} (old : Segment)
    (hpe : m.pe = true) (h : m.lookup selector = some s) (hs : s.WritableData) :
    m.segment selector old = some s := by
  rw [segment,if_pos hpe,h,Option.bind_some,if_pos hs]

theorem loadData_protected {m : Machine} {selector : ℕ} {s : Segment} (hpe : m.pe = true)
    (h : m.lookup selector = some s) (hs : s.WritableData) :
    m.loadData selector = some {m with ds := s, es := s, fs := s, gs := s, ss := s} := by
  have hds := segment_protected m.ds hpe h hs
  have hes : ({m with ds := s} : Machine).segment selector m.es = some s :=
    segment_protected m.es hpe h hs
  have hfs : ({m with ds := s, es := s} : Machine).segment selector m.fs = some s :=
    segment_protected m.fs hpe h hs
  have hgs : ({m with ds := s, es := s, fs := s} : Machine).segment selector m.gs = some s :=
    segment_protected m.gs hpe h hs
  have hss : ({m with ds := s, es := s, fs := s, gs := s} : Machine).segment selector m.ss =
      some s := segment_protected m.ss hpe h hs
  simp [loadData,loadDs,loadEs,loadFs,loadGs,loadSs,hds,hes,hfs,hgs,hss]

theorem segment_real {m : Machine} (selector : ℕ) (old : Segment) (hpe : m.pe = false) :
    m.segment selector old = some {old with selector := selector, base := 16*selector} := by
  rw [segment,if_neg (by simp [hpe])]

theorem farJump_protected {m : Machine} {selector off : ℕ} {s : Segment} (hpe : m.pe = true)
    (h : m.lookup selector = some s) (hs : s.Code) (hoff : off ≤ s.limit) :
    m.farJump selector off = some {m with cs := s, ip := off} := by
  rw [farJump,if_pos hpe,h,Option.bind_some,if_pos ⟨hs,hoff⟩]

theorem farJump_real {m : Machine} {selector off : ℕ} (hpe : m.pe = false)
    (hoff : off ≤ m.cs.limit) : m.farJump selector off = some {m with
      cs := {m.cs with selector := selector, base := 16*selector}, ip := off} := by
  rw [farJump,if_neg (by simp [hpe]),if_pos hoff]

theorem fetch_eq {m : Machine} {bits a : ℕ} (hbits : m.bits = bits) (ha : m.cs.base+m.ip = a)
    (hlimit : m.ip ≤ m.cs.limit) : m.fetch bits a = some m := by
  rw [fetch,if_pos ⟨hbits,ha,.inl hlimit⟩]

theorem setCr0_eq {m : Machine} {v : ℕ} (hpg : v.testBit 31 = false) (hbits : m.bits ≠ 64) :
    m.setCr0 v = some {m with cr0 := v} := by
  rw [setCr0,if_neg (by simp [hpg,hbits])]

theorem table_eq {s : Segment} {off : ℕ} (m : Machine) (h : off+6 ≤ s.limit+1)
    (hb : s.base+off < 4294967296) :
    m.table s off = some ⟨load 4 m.mem (s.base+off+2),load 2 m.mem (s.base+off)⟩ := by
  rw [table,address_eq h hb]
  rfl

theorem lgdt_eq {s : Segment} {off : ℕ} (m : Machine) (h : off+6 ≤ s.limit+1)
    (hb : s.base+off < 4294967296) : m.lgdt s off = some { m with
      gdtr := ⟨load 4 m.mem (s.base+off+2),load 2 m.mem (s.base+off)⟩ } := by
  rw [lgdt,table_eq m h hb]
  rfl

theorem lidt_eq {s : Segment} {off : ℕ} (m : Machine) (h : off+6 ≤ s.limit+1)
    (hb : s.base+off < 4294967296) : m.lidt s off = some { m with
      idtr := ⟨load 4 m.mem (s.base+off+2),load 2 m.mem (s.base+off)⟩ } := by
  rw [lidt,table_eq m h hb]
  rfl

theorem setEfer_eq {m : Machine} (v : ℕ) (hpg : m.pg = false) :
    m.setEfer v = some {m with efer := v} := by
  rw [setEfer,if_neg (by simp [hpg])]

/-- Without paging there is no 64-bit code. -/
theorem bits_of_not_pg {m : Machine} (h : m.pg = false) :
    m.bits = if m.cs.big then 32 else 16 := by
  rw [bits,lma,h,Bool.and_false,Bool.false_and,if_neg Bool.false_ne_true]

theorem bits_ne_64 {m : Machine} (h : m.pg = false) : m.bits ≠ 64 := by
  rw [bits_of_not_pg h]
  split <;> decide

end Machine

end Gemiboot.Processor
