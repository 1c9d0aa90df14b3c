import Gemiboot.DiskThunk
import Gemiboot.ProtectedMode

/-!
# The thunk to the BIOS

`bios_disk_read_raw` of `io32.S` and `bios_int13_thunk16` of `io16.S` on the processor: from
flat protected mode over 16-bit segments to real mode, up to three calls of INT 13h, and back.
The BIOS answers as in `DiskThunk`, and may use the stack, everything below it and the memory
from 512 KiB to 1 MiB. Its calls are numbered: attempt `i` makes the call `2*i`, and the reset
after it is `2*i+1`.
-/
namespace Gemiboot.RealModeThunk
open ByteMemory Processor Machine ProtectedMode
open DiskThunk (Outcome Thunk extendedRead)
open StageOneLoad (LbaPacket)

/-! ### The code -/

/-- What `int $0x13` does: the carry flag and the machine. -/
abbrev Bios := ℕ → Machine → Bool × Machine

/-- In real mode, and through the vectors of the BIOS. -/
def int13 (bios : Bios) (i : ℕ) (m : Machine) : Option (Bool × Machine) :=
  if m.pe = false ∧ m.idtr.base = 0 ∧ 4*0x13+3 ≤ m.idtr.limit then some (bios i m) else none

def setAh (v : ℕ) (m : Machine) : Machine := {m with ax := m.ax/65536*65536+256*v+m.ax%256}

/-- `movb bios_drive_id+STROFF-_start, %dl`. -/
def loadDrive (L : Layout) (m : Machine) : Option Machine := do
  let dl ← m.read 1 m.ds (off16 L.biosDriveId)
  some {m with dx := setLow 1 m.dx dl}

/-- The call of an attempt, with CX on the stack meanwhile. -/
def attempt (L : Layout) (bios : Bios) (i : ℕ) (m : Machine) : Option (Bool × Machine) := do
  let m ← m.push 2 m.cx
  let m ← loadDrive L m
  let m := {m with si := setLow 2 m.si (off16 L.dapPacket)}
  let (carry,m) ← int13 bios (2*i) (setAh 0x42 m)
  let (cx,m) ← m.pop 2
  some (carry,{m with cx := setLow 2 m.cx cx})

/-- The reset after it, and CX as `loop` leaves it. -/
def resetDrive (L : Layout) (bios : Bios) (i : ℕ) (m : Machine) : Option Machine := do
  let m ← loadDrive L m
  let (_,m) ← int13 bios (2*i+1) {m with ax := setLow 2 m.ax 0}
  some {m with cx := setLow 2 m.cx ((m.cx%65536+65535)%65536)}

/-- `try_thunk_int13`, up to the result in EBX. -/
def tryThunkInt13 (L : Layout) (bios : Bios) : ℕ → ℕ → Machine → Option Machine
  | 0,_,_ => none
  | fuel+1,i,m => do
      let (carry,m) ← attempt L bios i m
      if carry then
        let m ← resetDrive L bios i m
        if m.cx%65536 ≠ 0 then tryThunkInt13 L bios fuel (i+1) m
        else some {m with bx := 1}
      else some {m with bx := 0}

def thunkReturnPm32 (L : Layout) (m : Machine) : Option Machine :=
  switchProtected L L.thunkPm32Return m

/-- `thunk16_real`, up to the first attempt. -/
def thunk16Real (L : Layout) (m : Machine) : Option Machine := do
  let m ← m.fetch 16 L.thunk16Real
  let m := {m with ax := setLow 2 m.ax m.cs.selector}
  let m ← m.loadDs (m.ax%65536)
  let m ← m.loadEs (m.ax%65536)
  let m ← m.loadFs (m.ax%65536)
  let m ← m.loadGs (m.ax%65536)
  let m := {m with ax := setLow 2 m.ax 0}
  let m ← m.loadSs (m.ax%65536)
  let m := {m with sp := setLow 2 m.sp 0x7C00}
  let m ← m.lidt m.ds (off16 L.rmIdtr)
  let m ← loadDrive L m
  let m := if m.dx%256 ≥ 0x80 then m else {m with dx := setLow 1 m.dx 0x80}
  some {m with
    si := setLow 2 m.si (off16 L.dapPacket), cx := setLow 2 m.cx 3, interrupts := true}

/-- Up to the far jump to real mode. -/
def biosInt13Thunk16 (L : Layout) (m : Machine) : Option Machine := do
  let m ← m.fetch 16 L.biosInt13Thunk16
  let m := {m with ax := m.cr0}
  let m := {m with ax := m.ax &&& 0xFFFFFFFE}
  let m ← m.setCr0 m.ax
  m.farJump 0x1000 (off16 L.thunk16Real)

def thunkPm32Return (L : Layout) (m : Machine) : Option Machine := do
  let m ← m.fetch 32 L.thunkPm32Return
  let m := {m with ax := setLow 2 m.ax 0x10}
  let m ← m.loadData 0x10
  let esp ← m.read 4 m.ds L.savedEsp32
  let m := {m with sp := esp}
  let m := {m with ax := m.bx}
  let (bp,m) ← m.pop 4
  let (di,m) ← m.pop 4
  let (si,m) ← m.pop 4
  let (bx,m) ← m.pop 4
  let (ip,m) ← m.pop 4
  some {m with bp := bp, di := di, si := si, bx := bx, ip := ip}

/-- The first four instructions of `bios_disk_read_raw`. -/
def pushSaved (m : Machine) : Option Machine := do
  let m ← m.push 4 m.bx
  let m ← m.push 4 m.si
  let m ← m.push 4 m.di
  m.push 4 m.bp

/-- From `dap_size` to `dap_offset`. -/
def fillPacket (L : Layout) (m : Machine) : Option Machine := do
  let m ← m.write 1 m.ds L.dapPacket 0x10
  let m ← m.write 1 m.ds (L.dapPacket+1) 0x00
  let ax ← m.read 4 m.ss (m.sp+20)
  let m ← m.write 4 m.ds (L.dapPacket+8) ax
  let m ← m.write 4 m.ds (L.dapPacket+12) 0
  let ax ← m.read 4 m.ss (m.sp+24)
  let m ← m.write 2 m.ds (L.dapPacket+2) ax
  let ax ← m.read 4 m.ss (m.sp+28)
  let m ← m.write 2 m.ds (L.dapPacket+6) ax
  let ax ← m.read 4 m.ss (m.sp+32)
  let m ← m.write 2 m.ds (L.dapPacket+4) ax
  some {m with ax := ax}

/-- To the 16-bit segments. -/
def enter16 (L : Layout) (m : Machine) : Option Machine := do
  let m ← m.write 4 m.ds L.savedEsp32 m.sp
  let m := {m with interrupts := false}
  let m := {m with ax := setLow 2 m.ax 0x20}
  let m ← m.loadData 0x20
  m.farJump 0x18 L.biosInt13Thunk16Offset

def biosDiskReadRaw (L : Layout) (bios : Bios) (fuel : ℕ) (m : Machine) : Option Machine := do
  let m ← pushSaved m
  let m ← fillPacket L m
  let m ← enter16 L m
  let m ← biosInt13Thunk16 L m
  let m ← thunk16Real L m
  let m ← tryThunkInt13 L bios fuel 0 m
  let m ← thunkReturnPm32 L m
  thunkPm32Return L m

/-! ### The packet and the saved registers -/

/-- The packet of INT 13h/42h in memory. -/
structure PacketAt (a : ℕ) (p : LbaPacket) (mem : Memory) : Prop where
  size : load 1 mem a = p.size
  reserved : load 1 mem (a+1) = p.reserved
  sectors : load 2 mem (a+2) = p.sectors
  offset : load 2 mem (a+4) = p.offset
  segment : load 2 mem (a+6) = p.segment
  lba : load 4 mem (a+8) = p.lba
  padding : load 4 mem (a+12) = p.padding

theorem PacketAt.congr {a : ℕ} {p : LbaPacket} {mem mem' : Memory} (h : PacketAt a p mem)
    (heq : ∀ x, a ≤ x → x < a+16 → mem' x = mem x) : PacketAt a p mem' := by
  have hload (w : ℕ) {b : ℕ} (h₁ : a ≤ b) (h₂ : b+w ≤ a+16) : load w mem' b = load w mem b :=
    load_congr fun i hi => heq (b+i) (by omega) (by omega)
  constructor
  · exact (hload 1 (by omega) (by omega)).trans h.size
  · exact (hload 1 (by omega) (by omega)).trans h.reserved
  · exact (hload 2 (by omega) (by omega)).trans h.sectors
  · exact (hload 2 (by omega) (by omega)).trans h.offset
  · exact (hload 2 (by omega) (by omega)).trans h.segment
  · exact (hload 4 (by omega) (by omega)).trans h.lba
  · exact (hload 4 (by omega) (by omega)).trans h.padding

/-- The memory after `fillPacket`, for the doublewords of the stack. -/
def packetMemory (a lba sectors segment offset : ℕ) (mem : Memory) : Memory :=
  let mem := store 1 (store 1 mem a 0x10) (a+1) 0
  let mem := store 4 (store 4 mem (a+8) lba) (a+12) 0
  store 2 (store 2 (store 2 mem (a+2) sectors) (a+6) segment) (a+4) offset

theorem packetMemory_outside {a lba sectors segment offset x : ℕ} {mem : Memory}
    (h : x < a ∨ a+16 ≤ x) : packetMemory a lba sectors segment offset mem x = mem x := by
  unfold packetMemory store
  rw [blit_outside (by omega),blit_outside (by omega),blit_outside (by omega),
    blit_outside (by omega),blit_outside (by omega),blit_outside (by omega),
    blit_outside (by omega)]

theorem packetMemory_packetAt (a : ℕ) (mem : Memory) {lba : ℕ} (sectors segment offset : ℕ)
    (hlba : lba < 4294967296) : PacketAt a
      ⟨0x10,0,sectors%65536,offset%65536,segment%65536,lba,0⟩
      (packetMemory a lba sectors segment offset mem) := by
  unfold packetMemory
  constructor
  · rw [load_store_outside (by omega),load_store_outside (by omega),
      load_store_outside (by omega),load_store_outside (by omega),
      load_store_outside (by omega),load_store_outside (by omega)]
    exact load_store 1 _ _ _
  · rw [load_store_outside (by omega),load_store_outside (by omega),
      load_store_outside (by omega),load_store_outside (by omega),
      load_store_outside (by omega)]
    exact load_store 1 _ _ _
  · rw [load_store_outside (by omega),load_store_outside (by omega)]
    exact load_store 2 _ _ _
  · exact load_store 2 _ _ _
  · rw [load_store_outside (by omega)]
    exact load_store 2 _ _ _
  · rw [load_store_outside (by omega),load_store_outside (by omega),
      load_store_outside (by omega),load_store_outside (by omega)]
    exact load_store_of_lt _ _ hlba
  · rw [load_store_outside (by omega),load_store_outside (by omega),
      load_store_outside (by omega)]
    exact load_store 4 _ _ _

/-- What `bios_disk_read_raw` pushes, below this address. -/
def savedMemory (sp bx si di bp : ℕ) (mem : Memory) : Memory :=
  store 4 (store 4 (store 4 (store 4 mem (sp-4) bx) (sp-8) si) (sp-12) di) (sp-16) bp

theorem savedMemory_outside {sp bx si di bp x : ℕ} {mem : Memory} (hsp : 16 ≤ sp)
    (h : x < sp-16 ∨ sp ≤ x) : savedMemory sp bx si di bp mem x = mem x := by
  unfold savedMemory store
  rw [blit_outside (by omega),blit_outside (by omega),blit_outside (by omega),
    blit_outside (by omega)]

/-- The registers that a function must leave as they were, on the stack. -/
structure SavedAt (sp : ℕ) (m : Machine) (mem : Memory) : Prop where
  bx : load 4 mem (sp-4) = m.bx
  si : load 4 mem (sp-8) = m.si
  di : load 4 mem (sp-12) = m.di
  bp : load 4 mem (sp-16) = m.bp

theorem SavedAt.congr {sp : ℕ} {m : Machine} {mem mem' : Memory} (h : SavedAt sp m mem)
    (hsp : 16 ≤ sp) (heq : ∀ x, sp-16 ≤ x → x < sp → mem' x = mem x) : SavedAt sp m mem' := by
  have hload {b : ℕ} (h₁ : sp-16 ≤ b) (h₂ : b+4 ≤ sp) : load 4 mem' b = load 4 mem b :=
    load_congr fun i hi => heq (b+i) (by omega) (by omega)
  constructor
  · exact (hload (by omega) (by omega)).trans h.bx
  · exact (hload (by omega) (by omega)).trans h.si
  · exact (hload (by omega) (by omega)).trans h.di
  · exact (hload (by omega) (by omega)).trans h.bp

/-- The registers that are saved are 32 bits wide. -/
structure Registers32 (m : Machine) : Prop where
  bx : m.bx < 4294967296
  si : m.si < 4294967296
  di : m.di < 4294967296
  bp : m.bp < 4294967296

theorem savedMemory_savedAt {m : Machine} (mem : Memory) (h : Registers32 m) (hsp : 16 ≤ m.sp) :
    SavedAt m.sp m (savedMemory m.sp m.bx m.si m.di m.bp mem) := by
  unfold savedMemory
  constructor
  · rw [load_store_outside (by omega),load_store_outside (by omega),
      load_store_outside (by omega)]
    exact load_store_of_lt _ _ h.bx
  · rw [load_store_outside (by omega),load_store_outside (by omega)]
    exact load_store_of_lt _ _ h.si
  · rw [load_store_outside (by omega)]
    exact load_store_of_lt _ _ h.di
  · exact load_store_of_lt _ _ h.bp

/-! ### To real mode -/

theorem pushSaved_eq {m : Machine} (hss : m.ss = dataSegment) (hsp : 16 ≤ m.sp)
    (hlt : m.sp < 4294967296) : pushSaved m = some { m with
      sp := m.sp-16, mem := savedMemory m.sp m.bx m.si m.di m.bp m.mem } := by
  have hbx := push_flat hss m.bx (by omega) hlt
  set m₁ : Machine := {m with sp := m.sp-4, mem := store 4 m.mem (m.sp-4) m.bx}
  have hsi := push_flat (m := m₁) hss m.si (show 4 ≤ m.sp-4 by omega)
    (show m.sp-4 < 4294967296 by omega)
  set m₂ : Machine := {m₁ with sp := m₁.sp-4, mem := store 4 m₁.mem (m₁.sp-4) m.si}
  have hdi := push_flat (m := m₂) hss m.di (show 4 ≤ m.sp-4-4 by omega)
    (show m.sp-4-4 < 4294967296 by omega)
  set m₃ : Machine := {m₂ with sp := m₂.sp-4, mem := store 4 m₂.mem (m₂.sp-4) m.di}
  have hbp := push_flat (m := m₃) hss m.bp (show 4 ≤ m.sp-4-4-4 by omega)
    (show m.sp-4-4-4 < 4294967296 by omega)
  unfold pushSaved
  simp only [Option.bind_eq_bind]
  rw [hbx,Option.bind_some]
  change (push 4 m.si m₁).bind _ = _
  rw [hsi,Option.bind_some]
  change (push 4 m.di m₂).bind _ = _
  rw [hdi,Option.bind_some]
  change push 4 m.bp m₃ = _
  rw [hbp]
  simp only [m₃,m₂,m₁,Nat.sub_sub,Nat.reduceAdd,savedMemory]

section FlatMemory
variable {α : Type} {m : Machine} {mem : Memory} (w off : ℕ)
  (hoff : off+w ≤ 4294967296) (hlt : off < 4294967296)
include hoff hlt

theorem bind_write_flat (hds : m.ds = dataSegment) (v : ℕ) (f : Machine → Option α) :
    (write w m.ds off v {m with mem := mem}).bind f = f {m with mem := store w mem off v} := by
  have hlimit : m.ds.limit = 4294967295 := by rw [hds]; rfl
  have hbase : m.ds.base = 0 := by rw [hds]; rfl
  rw [write_eq _ _ (by omega) (by omega),hbase,Nat.zero_add,Option.bind_some]

theorem bind_read_flat (hss : m.ss = dataSegment) (f : ℕ → Option α) :
    (read w m.ss off {m with mem := mem}).bind f = f (load w mem off) := by
  rw [read_flat (m := {m with mem := mem}) hss w hoff hlt,Option.bind_some]

end FlatMemory

/-- The stack is not where the packet is. -/
theorem fillPacket_eq {L : Layout} {m : Machine} (hds : m.ds = dataSegment)
    (hss : m.ss = dataSegment) (hsp : 0x70000 ≤ m.sp ∧ m.sp+36 ≤ 0x80000) :
    fillPacket L m = some { m with
      ax := load 4 m.mem (m.sp+32)
      mem := packetMemory L.dapPacket (load 4 m.mem (m.sp+20)) (load 4 m.mem (m.sp+24))
        (load 4 m.mem (m.sp+28)) (load 4 m.mem (m.sp+32)) m.mem } := by
  have hdap : L.dapPacket+16 ≤ 0x70000 := by
    have h₁ := L.gdtp_thunk
    have h₂ := L.thunk_lt
    unfold Layout.dapPacket
    unfold startAddress size16BitCode at h₂
    omega
  -- no read of an argument sees what has been written so far
  have harg {mem : Memory} {k : ℕ} (hk : 20 ≤ k ∧ k ≤ 32)
      (hmem : ∀ x, L.dapPacket+16 ≤ x → mem x = m.mem x) :
      load 4 mem (m.sp+k) = load 4 m.mem (m.sp+k) :=
    load_congr fun i hi => hmem (m.sp+k+i) (by omega)
  have hstore {mem : Memory} {w a v : ℕ} (ho : a+w ≤ L.dapPacket+16)
      (hmem : ∀ x, L.dapPacket+16 ≤ x → mem x = m.mem x) :
      ∀ x, L.dapPacket+16 ≤ x → store w mem a v x = m.mem x := fun x hx =>
    (blit_outside (by omega)).trans (hmem x hx)
  have hmem₁ := hstore (w := 1) (v := 0x00) (a := L.dapPacket+1) (by omega)
    (hstore (w := 1) (v := 0x10) (a := L.dapPacket) (by omega) fun _ _ => rfl)
  refine (bind_write_flat 1 L.dapPacket (by omega) (by omega) hds 0x10 _).trans ?_
  refine (bind_write_flat 1 (L.dapPacket+1) (by omega) (by omega) hds 0x00 _).trans ?_
  refine (bind_read_flat 4 (m.sp+20) (by omega) (by omega) hss _).trans ?_
  refine (bind_write_flat 4 (L.dapPacket+8) (by omega) (by omega) hds _ _).trans ?_
  refine (bind_write_flat 4 (L.dapPacket+12) (by omega) (by omega) hds 0 _).trans ?_
  refine (bind_read_flat 4 (m.sp+24) (by omega) (by omega) hss _).trans ?_
  refine (bind_write_flat 2 (L.dapPacket+2) (by omega) (by omega) hds _ _).trans ?_
  refine (bind_read_flat 4 (m.sp+28) (by omega) (by omega) hss _).trans ?_
  refine (bind_write_flat 2 (L.dapPacket+6) (by omega) (by omega) hds _ _).trans ?_
  refine (bind_read_flat 4 (m.sp+32) (by omega) (by omega) hss _).trans ?_
  refine (bind_write_flat 2 (L.dapPacket+4) (by omega) (by omega) hds _ _).trans ?_
  rw [harg (k := 20) (by omega) hmem₁]
  have hmem₂ {v : ℕ} := hstore (w := 4) (v := 0) (a := L.dapPacket+12) (by omega)
    (hstore (w := 4) (v := v) (a := L.dapPacket+8) (by omega) hmem₁)
  rw [harg (k := 24) (by omega) hmem₂]
  have hmem₃ {u v : ℕ} := hstore (w := 2) (v := u) (a := L.dapPacket+2) (by omega)
    (hmem₂ (v := v))
  rw [harg (k := 28) (by omega) hmem₃]
  have hmem₄ {t u v : ℕ} := hstore (w := 2) (v := t) (a := L.dapPacket+6) (by omega)
    (hmem₃ (u := u) (v := v))
  rw [harg (k := 32) (by omega) hmem₄]
  rfl

theorem Layout_bounds (L : Layout) : 0x10000 ≤ L.gdtp ∧ L.gdtp+405 < L.thunk16Real ∧
    L.thunk16Real < 0x10800 := ⟨L.gdtp_ge,L.gdtp_thunk,L.thunk_lt⟩

theorem enter16_eq {L : Layout} {m : Machine} (hpe : m.pe = true) (hds : m.ds = dataSegment)
    (hg : GdtLoaded L m) : enter16 L m = some { m with
      mem := store 4 m.mem L.savedEsp32 m.sp, interrupts := false, ax := setLow 2 m.ax 0x20
      ds := data16Segment, es := data16Segment, fs := data16Segment, gs := data16Segment
      ss := data16Segment, cs := code16Segment, ip := L.biosInt13Thunk16Offset } := by
  have hb := Layout_bounds L
  have hsaved := L.savedEsp32_eq
  have hloaded : Loaded L (store 4 m.mem L.savedEsp32 m.sp) :=
    hg.loaded.congr fun x _ hx => blit_outside (by omega)
  set m₁ : Machine := { m with
    mem := store 4 m.mem L.savedEsp32 m.sp, interrupts := false, ax := setLow 2 m.ax 0x20 }
  have hg₁ : GdtLoaded L m₁ := ⟨hloaded,hg.gdtr⟩
  have hdata := loadData_protected (m := m₁) hpe hg₁.lookup_data16 (by decide)
  set m₂ : Machine := { m₁ with
    ds := data16Segment, es := data16Segment, fs := data16Segment, gs := data16Segment
    ss := data16Segment }
  have hg₂ : GdtLoaded L m₂ := ⟨hloaded,hg.gdtr⟩
  have hoff : L.biosInt13Thunk16Offset ≤ code16Segment.limit := by
    have heq := L.biosInt13Thunk16_eq
    change off16 L.biosInt13Thunk16 ≤ 65535
    rw [off16_eq]
    omega
  have hjump := farJump_protected (m := m₂) hpe hg₂.lookup_code16 (by decide) hoff
  refine (bind_write_flat (m := m) 4 L.savedEsp32 (by omega) (by omega) hds m.sp _).trans ?_
  change (m₁.loadData 0x20).bind _ = _
  rw [hdata,Option.bind_some]
  exact hjump

/-! The segments of real mode, with the limits and the width of the 16-bit descriptors. -/

def realCode : Segment := {code16Segment with selector := 0x1000, base := 16*0x1000}
def realData : Segment := {data16Segment with selector := 0x1000, base := 16*0x1000}
def realStack : Segment := {data16Segment with selector := 0, base := 16*0}

theorem pe_and (n : ℕ) : (n &&& 0xFFFFFFFE).testBit 0 = false := by
  rw [Nat.testBit_and,show Nat.testBit 0xFFFFFFFE 0 = false by decide,Bool.and_false]

theorem pg_and (n : ℕ) : (n &&& 0xFFFFFFFE).testBit 31 = n.testBit 31 := by
  rw [Nat.testBit_and,show Nat.testBit 0xFFFFFFFE 31 = true by decide,Bool.and_true]

theorem fetch_real {m : Machine} {L : Layout} {label : ℕ} (hpg : m.pg = false)
    (hcs : m.cs = code16Segment ∨ m.cs = realCode) (hip : m.ip = off16 label)
    (hlabel : L.gdtp ≤ label ∧ label < 0x10800) : m.fetch 16 label = some m := by
  have hadd := L.off16_add hlabel.1
  have hfields : m.cs.big = false ∧ m.cs.base = 0x10000 ∧ m.cs.limit = 0xFFFF := by
    cases hcs with
    | inl h => exact h ▸ ⟨rfl,rfl,rfl⟩
    | inr h => exact h ▸ ⟨rfl,rfl,rfl⟩
  apply fetch_eq
  · rw [bits_of_not_pg hpg,hfields.1]
    rfl
  · rw [hfields.2.1,hip,hadd]
  · rw [hfields.2.2,hip]
    omega

theorem biosInt13Thunk16_eq {L : Layout} {m : Machine} (hpg : m.pg = false)
    (hcs : m.cs = code16Segment) (hip : m.ip = L.biosInt13Thunk16Offset) :
    biosInt13Thunk16 L m = some { m with
      ax := m.cr0 &&& 0xFFFFFFFE, cr0 := m.cr0 &&& 0xFFFFFFFE, cs := realCode
      ip := off16 L.thunk16Real } := by
  have hb := Layout_bounds L
  have heq := L.biosInt13Thunk16_eq
  have hfetch : m.fetch 16 L.biosInt13Thunk16 = some m :=
    fetch_real (L := L) hpg (.inl hcs) hip (by omega)
  set m₁ : Machine := {m with ax := m.cr0 &&& 0xFFFFFFFE}
  have hpg₁ : (m.cr0 &&& 0xFFFFFFFE).testBit 31 = false := (pg_and m.cr0).trans hpg
  have hcr0 : m₁.setCr0 m₁.ax = _ := setCr0_eq hpg₁ (bits_ne_64 hpg)
  set m₂ : Machine := {m₁ with cr0 := m₁.ax}
  have hoff : off16 L.thunk16Real ≤ m₂.cs.limit := by
    change _ ≤ m.cs.limit
    rw [hcs,off16_eq]
    change _ ≤ 65535
    omega
  have hjump := @farJump_real m₂ 0x1000 _ (pe_and m.cr0) hoff
  unfold biosInt13Thunk16
  simp only [Option.bind_eq_bind]
  rw [hfetch,Option.bind_some]
  change (m₁.setCr0 m₁.ax).bind _ = _
  rw [hcr0,Option.bind_some]
  refine hjump.trans ?_
  change some {m₂ with cs := {m.cs with selector := 0x1000, base := 16*0x1000}, ip := _} = _
  rw [hcs]
  rfl

/-- Real mode as the attempts find it and leave it. -/
structure InReal (m : Machine) : Prop where
  pe : m.pe = false
  pg : m.pg = false
  cs : m.cs = realCode
  ds : m.ds = realData
  ss : m.ss = realStack
  idtr : m.idtr = ⟨0,0x03FF⟩
  sp : m.sp%65536 = 0x7C00

theorem loadDrive_eq {L : Layout} {m : Machine} (hds : m.ds = realData) :
    loadDrive L m = some {m with dx := setLow 1 m.dx (load 1 m.mem L.biosDriveId)} := by
  have hb := Layout_bounds L
  have heq := L.biosDriveId_eq
  have hadd := L.off16_add (show L.gdtp ≤ L.biosDriveId by omega)
  have hlimit : m.ds.limit = 0xFFFF := by rw [hds]; rfl
  have hbase : m.ds.base = 0x10000 := by rw [hds]; rfl
  rw [loadDrive,Option.bind_eq_bind,read_eq m (by omega) (by omega),Option.bind_some,hbase,hadd]

theorem segment_data16 {m : Machine} {old : Segment} {selector : ℕ} (hpe : m.pe = false)
    (hs : selector = 0x1000) (h : old = data16Segment) :
    m.segment selector old = some realData := by
  rw [segment_real _ _ hpe,hs,h]
  rfl

/-- The registers are reloaded one after the other. -/
theorem loadSegments_real {m : Machine} {α : Type} (hpe : m.pe = false)
    (hds : m.ds = data16Segment) (hes : m.es = data16Segment) (hfs : m.fs = data16Segment)
    (hgs : m.gs = data16Segment) (hax : m.ax%65536 = 0x1000) (f : Machine → Option α) :
    ((m.loadDs (m.ax%65536)).bind fun m => (m.loadEs (m.ax%65536)).bind fun m =>
      (m.loadFs (m.ax%65536)).bind fun m => (m.loadGs (m.ax%65536)).bind f) =
    f {m with ds := realData, es := realData, fs := realData, gs := realData} := by
  have h₁ : m.loadDs (m.ax%65536) = some {m with ds := realData} := by
    rw [loadDs,segment_data16 hpe hax hds,Option.map_some]
  set m₁ : Machine := {m with ds := realData}
  have h₂ : m₁.loadEs (m₁.ax%65536) = some {m₁ with es := realData} := by
    rw [loadEs,segment_data16 (m := m₁) hpe hax hes,Option.map_some]
  set m₂ : Machine := {m₁ with es := realData}
  have h₃ : m₂.loadFs (m₂.ax%65536) = some {m₂ with fs := realData} := by
    rw [loadFs,segment_data16 (m := m₂) hpe hax hfs,Option.map_some]
  set m₃ : Machine := {m₂ with fs := realData}
  have h₄ : m₃.loadGs (m₃.ax%65536) = some {m₃ with gs := realData} := by
    rw [loadGs,segment_data16 (m := m₃) hpe hax hgs,Option.map_some]
  rw [h₁,Option.bind_some,h₂,Option.bind_some,h₃,Option.bind_some,h₄,Option.bind_some]

theorem thunk16Real_eq {L : Layout} {m : Machine} (hpe : m.pe = false) (hpg : m.pg = false)
    (hcs : m.cs = realCode) (hip : m.ip = off16 L.thunk16Real) (hds : m.ds = data16Segment)
    (hes : m.es = data16Segment) (hfs : m.fs = data16Segment) (hgs : m.gs = data16Segment)
    (hss : m.ss = data16Segment) (hl : Loaded L m.mem) :
    ∃ m', thunk16Real L m = some m' ∧ InReal m' ∧ m'.mem = m.mem ∧ m'.cx%65536 = 3 := by
  have hb := Layout_bounds L
  have hfetch : m.fetch 16 L.thunk16Real = some m :=
    fetch_real (L := L) hpg (.inr hcs) hip (by omega)
  set m₁ : Machine := {m with ax := setLow 2 m.ax m.cs.selector}
  have hax : m₁.ax%65536 = 0x1000 := by
    have hsel : m.cs.selector = 0x1000 := by rw [hcs]; rfl
    change setLow 2 m.ax m.cs.selector%256^2 = _
    rw [hsel]
    exact setLow_mod 2 _ (by decide)
  set m₂ : Machine := { m₁ with
    ds := realData, es := realData, fs := realData, gs := realData, ax := setLow 2 m₁.ax 0 }
  have hstack : m₂.loadSs (m₂.ax%65536) = some {m₂ with ss := realStack} := by
    have hzero : m₂.ax%65536 = 0 := setLow_mod 2 m₁.ax (by decide)
    have hss₂ : m₂.ss = data16Segment := hss
    rw [loadSs,segment_real (m := m₂) _ _ hpe,hzero,hss₂]
    rfl
  set m₃ : Machine := {m₂ with ss := realStack, sp := setLow 2 m.sp 0x7C00}
  have hidt : m₃.lidt m₃.ds (off16 L.rmIdtr) = some {m₃ with idtr := ⟨0,0x03FF⟩} :=
    lidt_rmIdtr rfl rfl hl
  set m₄ : Machine := {m₃ with idtr := ⟨0,0x03FF⟩}
  have hdrive := loadDrive_eq (L := L) (m := m₄) rfl
  set m₅ : Machine := {m₄ with dx := setLow 1 m₄.dx (load 1 m₄.mem L.biosDriveId)}
  have hdx : ∃ dx, (if m₅.dx%256 ≥ 0x80 then m₅ else {m₅ with dx := setLow 1 m₅.dx 0x80}) =
      {m₅ with dx := dx} := by
    by_cases h : m₅.dx%256 ≥ 0x80
    · exact ⟨m₅.dx,if_pos h⟩
    · exact ⟨_,if_neg h⟩
  obtain ⟨dx,hdx⟩ := hdx
  have hrun : thunk16Real L m = some { m₅ with
      dx := dx, si := setLow 2 m₅.si (off16 L.dapPacket), cx := setLow 2 m₅.cx 3
      interrupts := true } := by
    unfold thunk16Real
    simp only [Option.bind_eq_bind]
    rw [hfetch,Option.bind_some,loadSegments_real (m := m₁) hpe hds hes hfs hgs hax]
    change (m₂.loadSs (m₂.ax%65536)).bind _ = _
    rw [hstack,Option.bind_some]
    change (m₃.lidt m₃.ds (off16 L.rmIdtr)).bind _ = _
    rw [hidt,Option.bind_some,hdrive,Option.bind_some,hdx]
  exact ⟨_,hrun,⟨hpe,hpg,hcs,rfl,rfl,rfl,setLow_mod 2 m.sp (by decide)⟩,rfl,
    setLow_mod 2 m.cx (by decide)⟩

/-! ### Back to protected mode -/

theorem bind_pop_flat {m : Machine} {α : Type} (hss : m.ss = dataSegment)
    (hsp : m.sp+4 < 4294967296) (f : ℕ × Machine → Option α) :
    (m.pop 4).bind f = f (load 4 m.mem m.sp,{m with sp := m.sp+4}) := by
  rw [pop_flat hss hsp,Option.bind_some]

theorem thunkPm32Return_eq {L : Layout} {m : Machine} {n : ℕ} (hpe : m.pe = true)
    (hpg : m.pg = false) (hcs : m.cs = codeSegment) (hip : m.ip = L.thunkPm32Return)
    (hg : GdtLoaded L m) (hesp : load 4 m.mem L.savedEsp32 = n) (hn : n+20 < 4294967296) :
    thunkPm32Return L m = some { m with
      ax := m.bx, ds := dataSegment, es := dataSegment, fs := dataSegment, gs := dataSegment
      ss := dataSegment, bp := load 4 m.mem n, di := load 4 m.mem (n+4)
      si := load 4 m.mem (n+8), bx := load 4 m.mem (n+12), ip := load 4 m.mem (n+16)
      sp := n+20 } := by
  have hb := Layout_bounds L
  have hlt := L.return_lt
  have hsaved := L.savedEsp32_eq
  have hfetch : m.fetch 32 L.thunkPm32Return = some m := fetch_flat hpg hcs hip (by omega)
  set m₁ : Machine := {m with ax := setLow 2 m.ax 0x10}
  have hg₁ : GdtLoaded L m₁ := ⟨hg.loaded,hg.gdtr⟩
  have hdata := loadData_protected (m := m₁) hpe hg₁.lookup_data (by decide)
  set m₂ : Machine := { m₁ with
    ds := dataSegment, es := dataSegment, fs := dataSegment, gs := dataSegment
    ss := dataSegment }
  have hread : m₂.read 4 m₂.ds L.savedEsp32 = some n := by
    rw [← hesp]
    exact read_flat (m := m₂) rfl 4 (by omega) (by omega)
  unfold thunkPm32Return
  simp only [Option.bind_eq_bind]
  rw [hfetch,Option.bind_some,hdata,Option.bind_some]
  change (m₂.read 4 m₂.ds L.savedEsp32).bind _ = _
  rw [hread,Option.bind_some]
  set m₃ : Machine := {m₂ with sp := n, ax := m.bx}
  refine (bind_pop_flat (m := m₃) rfl (show n+4 < _ by omega) _).trans ?_
  refine (bind_pop_flat (m := {m₃ with sp := n+4}) rfl (show n+4+4 < _ by omega) _).trans ?_
  refine (bind_pop_flat (m := {m₃ with sp := n+8}) rfl (show n+8+4 < _ by omega) _).trans ?_
  refine (bind_pop_flat (m := {m₃ with sp := n+12}) rfl (show n+12+4 < _ by omega) _).trans ?_
  exact bind_pop_flat (m := {m₃ with sp := n+16}) rfl (show n+16+4 < _ by omega) _

/-! ### The attempts -/

/-- What a call may change: the memory below the stack, and that from 512 KiB to 1 MiB. -/
def BiosArea (m : Machine) (x : ℕ) : Prop :=
  x < m.ss.base+m.sp%65536 ∨ 0x80000 ≤ x ∧ x < 0x100000

/-- A call comes back to its caller. -/
structure Returns (m m' : Machine) : Prop where
  cr0 : m'.cr0 = m.cr0
  cs : m'.cs = m.cs
  ds : m'.ds = m.ds
  ss : m'.ss = m.ss
  idtr : m'.idtr = m.idtr
  sp : m'.sp = m.sp

/-- The two functions of INT 13h that are used. The extended read leaves the number of
blocks in the packet, and the reset leaves CX as it was. -/
structure Edd (disk : Memory) (outcome : ℕ → Outcome) (bios : Bios) : Prop where
  read : ∀ i m p a, m.ax/256%256 = 0x42 → a = m.ds.base+m.si%65536 → PacketAt a p m.mem →
    (bios (2*i) m).1 = (extendedRead disk (outcome i) p m.mem).carry ∧
    Returns m (bios (2*i) m).2 ∧
    load 2 (bios (2*i) m).2.mem (a+2) = (extendedRead disk (outcome i) p m.mem).sectors ∧
    ∀ x, ¬BiosArea m x → x < a+2 ∨ a+4 ≤ x →
      (bios (2*i) m).2.mem x = (extendedRead disk (outcome i) p m.mem).mem x
  reset : ∀ i m, m.ax/256%256 = 0 →
    Returns m (bios (2*i+1) m).2 ∧ (bios (2*i+1) m).2.cx = m.cx ∧
    ∀ x, ¬BiosArea m x → (bios (2*i+1) m).2.mem x = m.mem x

/-- What the thunk and the BIOS use besides the buffer: the real-mode stack and what is
below it, the memory of the BIOS, the saved registers, the packet and `saved_esp32`. -/
def Scratch (L : Layout) (sp x : ℕ) : Prop :=
  x < 0x7C00 ∨ (0x80000 ≤ x ∧ x < 0x100000) ∨ (sp-16 ≤ x ∧ x < sp) ∨
    (L.dapPacket ≤ x ∧ x < L.dapPacket+16) ∨ (L.savedEsp32 ≤ x ∧ x < L.savedEsp32+4)

/-- The buffer is between the 16-bit code and the stack. -/
def BufferFits (p : LbaPacket) : Prop :=
  0x10800 ≤ 16*p.segment+p.offset ∧ 16*p.segment+p.offset+512*p.sectors ≤ 0x70000

/-- The stack is the one of `protected32`. -/
def StackFits (sp : ℕ) : Prop := 0x70010 ≤ sp ∧ sp+20 ≤ 0x80000

/-- The machine between two attempts, with the state of the model of `DiskThunk`. -/
structure Simulates (L : Layout) (m₀ : Machine) (s : Thunk) (m : Machine) : Prop
    extends InReal m where
  loaded : Loaded L m.mem
  packet : PacketAt L.dapPacket s.dap m.mem
  saved : SavedAt m₀.sp m₀ m.mem
  esp : load 4 m.mem L.savedEsp32 = m₀.sp-16
  agree : ∀ x, ¬Scratch L m₀.sp x → m.mem x = s.mem x

section Attempts
variable {disk : Memory} {outcome : ℕ → Outcome} {bios : Bios} {L : Layout} {m₀ m : Machine}
  {s : Thunk} {i : ℕ}

theorem extendedRead_mem (o : Outcome) (p : LbaPacket) (mem : Memory) :
    (extendedRead disk o p mem).mem = StageOneLoad.transfer disk
      {p with sectors := (extendedRead disk o p mem).sectors} mem := by
  cases o with
  | success => rfl
  | failure _ => rfl

theorem extendedRead_le (disk : Memory) (o : Outcome) (p : LbaPacket) (mem : Memory) :
    (extendedRead disk o p mem).sectors ≤ p.sectors := by
  cases o with
  | success => exact le_refl _
  | failure _ => exact Nat.min_le_right _ _

/-- What it says does not depend on the memory. -/
theorem extendedRead_congr (o : Outcome) (p : LbaPacket) (mem mem' : Memory) :
    (extendedRead disk o p mem).carry = (extendedRead disk o p mem').carry ∧
      (extendedRead disk o p mem).sectors = (extendedRead disk o p mem').sectors := by
  cases o with
  | success => exact ⟨rfl,rfl⟩
  | failure _ => exact ⟨rfl,rfl⟩

theorem extendedRead_outside (disk : Memory) (o : Outcome) {p : LbaPacket} (mem : Memory)
    {x : ℕ} (hp : BufferFits p) (hx : x < 0x10800 ∨ 0x70000 ≤ x) :
    (extendedRead disk o p mem).mem x = mem x := by
  have hle := extendedRead_le disk o p mem
  unfold BufferFits at hp
  rw [extendedRead_mem,StageOneLoad.transfer]
  refine blit_outside ?_
  change x < 16*p.segment+p.offset ∨
    16*p.segment+p.offset+512*(extendedRead disk o p mem).sectors ≤ x
  omega

theorem extendedRead_agree {o : Outcome} {p : LbaPacket} {mem mem' : Memory} {x : ℕ}
    (h : mem x = mem' x) :
    (extendedRead disk o p mem).mem x = (extendedRead disk o p mem').mem x := by
  rw [extendedRead_mem,extendedRead_mem,(extendedRead_congr o p mem mem').2]
  unfold StageOneLoad.transfer blit
  rw [h]

/-- The machine at the call of an attempt. -/
def calling (L : Layout) (m : Machine) : Machine :=
  setAh 0x42 { m with
    sp := m.sp-2, mem := store 2 m.mem 0x7BFE m.cx
    dx := setLow 1 m.dx (load 1 (store 2 m.mem 0x7BFE m.cx) L.biosDriveId)
    si := setLow 2 m.si (off16 L.dapPacket) }

theorem attempt_eq (h : InReal m) (hret : Returns (calling L m) (bios (2*i) (calling L m)).2) :
    attempt L bios i m = some ((bios (2*i) (calling L m)).1,
      { (bios (2*i) (calling L m)).2 with
        sp := m.sp
        cx := setLow 2 (bios (2*i) (calling L m)).2.cx
          (load 2 (bios (2*i) (calling L m)).2.mem 0x7BFE) }) := by
  have hsize : m.stackSize = 65536 := by
    rw [stackSize,h.ss]
    rfl
  have hlimit : m.ss.limit = 65535 := by rw [h.ss]; rfl
  have hbase : m.ss.base = 0 := by rw [h.ss]; rfl
  have hmod : m.sp%m.stackSize = 0x7C00 := by
    rw [hsize]
    exact h.sp
  have hpush : m.push 2 m.cx =
      some {m with sp := m.sp-2, mem := store 2 m.mem 0x7BFE m.cx} := by
    rw [push_eq m m.cx (by decide) (by omega) (by omega) (by omega),hmod,hbase]
  set m₁ : Machine := {m with sp := m.sp-2, mem := store 2 m.mem 0x7BFE m.cx}
  have hdrive := loadDrive_eq (L := L) (m := m₁) h.ds
  have hcall : int13 bios (2*i) (calling L m) = some (bios (2*i) (calling L m)) :=
    if_pos ⟨h.pe,congrArg Table.base h.idtr,by
      change 4*0x13+3 ≤ m.idtr.limit
      rw [h.idtr]
      decide⟩
  set m₂ := (bios (2*i) (calling L m)).2
  have hss₂ : m₂.ss = realStack := hret.ss.trans h.ss
  have hsp₂ : m₂.sp = m.sp-2 := hret.sp
  have hsize₂ : m₂.stackSize = 65536 := by
    rw [stackSize,hss₂]
    rfl
  have hlimit₂ : m₂.ss.limit = 65535 := by rw [hss₂]; rfl
  have hbase₂ : m₂.ss.base = 0 := by rw [hss₂]; rfl
  have hmod₂ : m₂.sp%m₂.stackSize = 0x7BFE := by
    have := h.sp
    rw [hsize₂,hsp₂]
    omega
  have hsp : 2 ≤ m.sp := by
    have := h.sp
    omega
  have hpop : m₂.pop 2 = some (load 2 m₂.mem 0x7BFE,{m₂ with sp := m.sp}) := by
    rw [pop_eq m₂ (by omega) (by omega) (by omega),hmod₂,hbase₂,hsp₂,Nat.zero_add,
      Nat.sub_add_cancel hsp]
  unfold attempt
  simp only [Option.bind_eq_bind]
  rw [hpush,Option.bind_some,hdrive,Option.bind_some]
  change (int13 bios (2*i) (calling L m)).bind _ = _
  rw [hcall,Option.bind_some]
  change (m₂.pop 2).bind _ = _
  rw [hpop,Option.bind_some]

/-- Where the image's tables and variables are, and the frame. -/
theorem Layout_places (L : Layout) : L.dapPacket = L.gdtp+80 ∧ L.savedEsp32 = L.gdtp+97 ∧
    L.biosDriveId = L.gdtp+96 ∧ 0x10000 ≤ L.gdtp ∧ L.gdtp+405 < 0x10800 := by
  have hb := Layout_bounds L
  exact ⟨rfl,rfl,rfl,hb.1,by omega⟩

/-- A call that changes only what it may keeps what the thunk relies on. -/
theorem Simulates.keep {mem : Memory} {s' : Thunk} (h : Simulates L m₀ s m)
    (hstack : StackFits m₀.sp) {m' : Machine} (hreal : InReal m') (hmem : m'.mem = mem)
    (hpacket : PacketAt L.dapPacket s'.dap mem)
    (hkeep : ∀ x, 0x7C00 ≤ x → x < 0x80000 → x < 0x10800 ∨ 0x70000 ≤ x →
      x < L.dapPacket ∨ L.dapPacket+16 ≤ x → mem x = m.mem x)
    (hagree : ∀ x, ¬Scratch L m₀.sp x → mem x = s'.mem x) : Simulates L m₀ s' m' := by
  have hp := Layout_places L
  unfold StackFits at hstack
  subst hmem
  refine ⟨hreal,?_,hpacket,?_,?_,hagree⟩
  · exact h.loaded.congr fun x h₁ h₂ =>
      hkeep x (by omega) (by omega) (.inl (by omega)) (.inl (by omega))
  · exact h.saved.congr (by omega) fun x h₁ h₂ =>
      hkeep x (by omega) (by omega) (.inr (by omega)) (.inr (by omega))
  · rw [← h.esp]
    exact load_congr fun i hi =>
      hkeep _ (by omega) (by omega) (.inl (by omega)) (.inr (by omega))

/-- An attempt is one read of the model. -/
theorem attempt_simulates (hedd : Edd disk outcome bios) (h : Simulates L m₀ s m)
    (hstack : StackFits m₀.sp) (hbuf : BufferFits s.dap) :
    ∃ m', attempt L bios i m = some ((extendedRead disk (outcome i) s.dap s.mem).carry,m') ∧
      m'.cx%65536 = m.cx%65536 ∧
      Simulates L m₀ { s with
        dap := {s.dap with sectors := (extendedRead disk (outcome i) s.dap s.mem).sectors}
        mem := (extendedRead disk (outcome i) s.dap s.mem).mem } m' := by
  have hp := Layout_places L
  have hstack' := hstack
  unfold StackFits at hstack'
  set c := calling L m with hc
  have hcmem (x : ℕ) (hx : x < 0x7BFE ∨ 0x7C00 ≤ x) : c.mem x = m.mem x := blit_outside hx
  have hah : c.ax/256%256 = 0x42 := by
    change (m.ax/65536*65536+256*0x42+m.ax%256)/256%256 = 0x42
    omega
  have hdap : L.dapPacket = c.ds.base+c.si%65536 := by
    have hbase : c.ds.base = 0x10000 := congrArg Segment.base h.ds
    have hsi : c.si%65536 = off16 L.dapPacket := setLow_mod 2 m.si (by rw [off16_eq]; omega)
    rw [hbase,hsi,L.off16_add (by omega)]
  have hpacket : PacketAt L.dapPacket s.dap c.mem :=
    h.packet.congr fun x h₁ _ => hcmem x (by omega)
  have harea (x : ℕ) : BiosArea c x ↔ x < 0x7BFE ∨ 0x80000 ≤ x ∧ x < 0x100000 := by
    have hbase : c.ss.base = 0 := congrArg Segment.base h.ss
    have hsp : c.sp%65536 = 0x7BFE := by
      have := h.sp
      change (m.sp-2)%65536 = _
      omega
    rw [BiosArea,hbase,hsp,Nat.zero_add]
  obtain ⟨hcarry,hret,hsectors,hmem⟩ := hedd.read i c s.dap L.dapPacket hah hdap hpacket
  set b := (bios (2*i) c).2
  obtain ⟨hcarry',hsectors'⟩ := extendedRead_congr (outcome i) s.dap c.mem s.mem
  -- outside its own memory the call has only read the disk
  have hread (x : ℕ) (hx : ¬BiosArea c x) (hd : x < L.dapPacket+2 ∨ L.dapPacket+4 ≤ x) :
      b.mem x = (extendedRead disk (outcome i) s.dap c.mem).mem x := hmem x hx hd
  have hkeep (x : ℕ) (h₁ : 0x7BFE ≤ x) (h₂ : x < 0x80000) (h₃ : x < 0x10800 ∨ 0x70000 ≤ x)
      (hd : x < L.dapPacket+2 ∨ L.dapPacket+4 ≤ x) : b.mem x = c.mem x := by
    rw [hread x (by rw [harea]; omega) hd,extendedRead_outside _ _ _ hbuf h₃]
  have hcx : load 2 b.mem 0x7BFE = m.cx%65536 := by
    rw [load_congr fun k hk => hkeep (0x7BFE+k) (by omega) (by omega) (by omega) (by omega)]
    exact load_store 2 m.mem 0x7BFE m.cx
  have hattempt := attempt_eq (i := i) h.toInReal hret
  rw [hcarry,hcarry'] at hattempt
  refine ⟨_,hattempt,?_,?_⟩
  · change setLow 2 b.cx (load 2 b.mem 0x7BFE)%65536 = _
    rw [hcx]
    exact setLow_mod 2 _ (Nat.mod_lt _ (by decide))
  · have hreal : InReal { b with sp := m.sp, cx := setLow 2 b.cx (load 2 b.mem 0x7BFE) } := by
      refine ⟨?_,?_,hret.cs.trans h.cs,hret.ds.trans h.ds,hret.ss.trans h.ss,
        hret.idtr.trans h.idtr,h.sp⟩
      · exact (congrArg (Nat.testBit · 0) hret.cr0).trans h.pe
      · exact (congrArg (Nat.testBit · 31) hret.cr0).trans h.pg
    refine h.keep hstack hreal rfl ?_ ?_ ?_
    · have hload (w a : ℕ) (h₁ : L.dapPacket ≤ a) (h₂ : a+w ≤ L.dapPacket+16)
          (hd : a+w ≤ L.dapPacket+2 ∨ L.dapPacket+4 ≤ a) :
          load w b.mem a = load w c.mem a :=
        load_congr fun k hk => hkeep (a+k) (by omega) (by omega) (by omega) (by omega)
      constructor
      · exact (hload 1 _ (by omega) (by omega) (by omega)).trans hpacket.size
      · exact (hload 1 _ (by omega) (by omega) (by omega)).trans hpacket.reserved
      · exact hsectors.trans hsectors'
      · exact (hload 2 _ (by omega) (by omega) (by omega)).trans hpacket.offset
      · exact (hload 2 _ (by omega) (by omega) (by omega)).trans hpacket.segment
      · exact (hload 4 _ (by omega) (by omega) (by omega)).trans hpacket.lba
      · exact (hload 4 _ (by omega) (by omega) (by omega)).trans hpacket.padding
    · intro x h₁ h₂ h₃ h₄
      exact (hkeep x (by omega) h₂ h₃ (by omega)).trans (hcmem x (by omega))
    · intro x hx
      have hx' := hx
      unfold Scratch at hx'
      refine (hread x (by rw [harea]; omega) (by omega)).trans ?_
      exact extendedRead_agree ((hcmem x (by omega)).trans (h.agree x hx))

/-- The reset changes nothing but CX. -/
theorem resetDrive_simulates (hedd : Edd disk outcome bios) (h : Simulates L m₀ s m)
    (hstack : StackFits m₀.sp) : ∃ m', resetDrive L bios i m = some m' ∧
      m'.cx%65536 = (m.cx%65536+65535)%65536 ∧ Simulates L m₀ s m' := by
  have hp := Layout_places L
  have hdrive := loadDrive_eq (L := L) h.ds
  set c : Machine := { m with
    dx := setLow 1 m.dx (load 1 m.mem L.biosDriveId), ax := setLow 2 m.ax 0 }
  have hah : c.ax/256%256 = 0 := by
    have hlow : c.ax%65536 = 0 := setLow_mod 2 m.ax (by decide)
    omega
  have hcall : int13 bios (2*i+1) c = some (bios (2*i+1) c) :=
    if_pos ⟨h.pe,congrArg Table.base h.idtr,by
      change 4*0x13+3 ≤ m.idtr.limit
      rw [h.idtr]
      decide⟩
  have harea (x : ℕ) : BiosArea c x ↔ x < 0x7C00 ∨ 0x80000 ≤ x ∧ x < 0x100000 := by
    have hbase : c.ss.base = 0 := congrArg Segment.base h.ss
    have hsp : c.sp%65536 = 0x7C00 := h.sp
    rw [BiosArea,hbase,hsp,Nat.zero_add]
  obtain ⟨hret,hcx,hmem⟩ := hedd.reset i c hah
  set b := (bios (2*i+1) c).2
  have hkeep (x : ℕ) (h₁ : 0x7C00 ≤ x) (h₂ : x < 0x80000 ∨ 0x100000 ≤ x) :
      b.mem x = m.mem x := hmem x (by rw [harea]; omega)
  have hrun : resetDrive L bios i m =
      some {b with cx := setLow 2 b.cx ((b.cx%65536+65535)%65536)} := by
    unfold resetDrive
    simp only [Option.bind_eq_bind]
    rw [hdrive,Option.bind_some]
    change (int13 bios (2*i+1) c).bind _ = _
    rw [hcall,Option.bind_some]
  refine ⟨_,hrun,?_,?_⟩
  · change setLow 2 b.cx ((b.cx%65536+65535)%65536)%65536 = _
    rw [hcx]
    exact setLow_mod 2 _ (Nat.mod_lt _ (by decide))
  · have hreal : InReal {b with cx := setLow 2 b.cx ((b.cx%65536+65535)%65536)} := by
      refine ⟨?_,?_,hret.cs.trans h.cs,hret.ds.trans h.ds,hret.ss.trans h.ss,
        hret.idtr.trans h.idtr,?_⟩
      · exact (congrArg (Nat.testBit · 0) hret.cr0).trans h.pe
      · exact (congrArg (Nat.testBit · 31) hret.cr0).trans h.pg
      · exact (congrArg (· % 65536) hret.sp).trans h.sp
    refine h.keep hstack hreal rfl ?_ ?_ ?_
    · exact h.packet.congr fun x h₁ h₂ => hkeep x (by omega) (.inl (by omega))
    · exact fun x h₁ h₂ _ _ => hkeep x h₁ (.inl h₂)
    · intro x hx
      have hx' := hx
      unfold Scratch at hx'
      exact (hkeep x (by omega) (by omega)).trans (h.agree x hx)

theorem tryThunkInt13_outside {cx x : ℕ} (hbuf : BufferFits s.dap)
    (hx : x < 0x10800 ∨ 0x70000 ≤ x) :
    (DiskThunk.tryThunkInt13 disk outcome cx i s).mem x = s.mem x := by
  induction cx generalizing i s with
  | zero => rfl
  | succ cx ih =>
      unfold DiskThunk.tryThunkInt13
      have hmem := extendedRead_outside disk (outcome i) s.mem hbuf hx
      set r := extendedRead disk (outcome i) s.dap s.mem
      have hle : r.sectors ≤ s.dap.sectors := extendedRead_le disk (outcome i) s.dap s.mem
      cases hr : r.carry with
      | false => simpa [hr] using hmem
      | true =>
          simp only [hr,if_true]
          refine (ih ?_).trans hmem
          unfold BufferFits at *
          change _ ∧ 16*s.dap.segment+s.dap.offset+512*r.sectors ≤ 0x70000
          exact ⟨hbuf.1,by omega⟩

/-- The result is no part of the simulation. -/
theorem Simulates.result (h : Simulates L m₀ s m) (bx ebx : ℕ) :
    Simulates L m₀ {s with ebx := ebx} {m with bx := bx} :=
  ⟨⟨h.pe,h.pg,h.cs,h.ds,h.ss,h.idtr,h.sp⟩,h.loaded,h.packet,h.saved,h.esp,h.agree⟩

theorem tryThunkInt13_success {fuel : ℕ} {a : Machine}
    (h : attempt L bios i m = some (false,a)) :
    tryThunkInt13 L bios (fuel+1) i m = some {a with bx := 0} := by
  rw [tryThunkInt13,h]
  rfl

theorem tryThunkInt13_failure (fuel : ℕ) {a b : Machine}
    (h : attempt L bios i m = some (true,a)) (hreset : resetDrive L bios i a = some b) :
    tryThunkInt13 L bios (fuel+1) i m =
      if b.cx%65536 ≠ 0 then tryThunkInt13 L bios fuel (i+1) b else some {b with bx := 1} := by
  rw [tryThunkInt13,h,Option.bind_eq_bind,Option.bind_some]
  dsimp only
  rw [if_pos rfl,hreset,Option.bind_eq_bind,Option.bind_some]

/-- The attempts that CX still allows. -/
theorem tryThunkInt13_simulates (hedd : Edd disk outcome bios) (hstack : StackFits m₀.sp)
    {cx fuel : ℕ} (hcx : m.cx%65536 = cx+1) (hfuel : cx < fuel) (h : Simulates L m₀ s m)
    (hbuf : BufferFits s.dap) : ∃ m', tryThunkInt13 L bios fuel i m = some m' ∧
      m'.bx = (DiskThunk.tryThunkInt13 disk outcome (cx+1) i s).ebx ∧
      Simulates L m₀ (DiskThunk.tryThunkInt13 disk outcome (cx+1) i s) m' := by
  induction fuel generalizing cx i m s with
  | zero => omega
  | succ fuel ih =>
      obtain ⟨a,hattempt,hacx,ha⟩ := attempt_simulates (i := i) hedd h hstack hbuf
      set r := extendedRead disk (outcome i) s.dap s.mem
      set s' : Thunk := {s with dap := {s.dap with sectors := r.sectors}, mem := r.mem}
      have hmodel : DiskThunk.tryThunkInt13 disk outcome (cx+1) i s =
          if r.carry then DiskThunk.tryThunkInt13 disk outcome cx (i+1) s'
          else {s' with ebx := 0} := rfl
      cases hr : r.carry with
      | false =>
          rw [hr] at hattempt
          rw [hmodel,hr,if_neg Bool.false_ne_true]
          exact ⟨_,tryThunkInt13_success hattempt,rfl,ha.result 0 0⟩
      | true =>
          obtain ⟨b,hreset,hbcx,hb⟩ := resetDrive_simulates (i := i) hedd ha hstack
          rw [hr] at hattempt
          have hrun := tryThunkInt13_failure fuel hattempt hreset
          have hleft : b.cx%65536 = cx := by
            have hlt := Nat.mod_lt m.cx (show 0 < 65536 by decide)
            rw [hbcx,hacx]
            omega
          rw [hmodel,hr,if_pos rfl,hrun,hleft]
          cases cx with
          | zero => exact ⟨_,rfl,rfl,hb.result 1 1⟩
          | succ cx =>
              have hle : r.sectors ≤ s.dap.sectors := extendedRead_le disk (outcome i) s.dap s.mem
              have hbuf' : BufferFits s'.dap := by
                unfold BufferFits at *
                change _ ∧ 16*s.dap.segment+s.dap.offset+512*r.sectors ≤ 0x70000
                exact ⟨hbuf.1,by omega⟩
              rw [if_pos (Nat.succ_ne_zero cx)]
              exact ih hleft (by omega) hb hbuf'

end Attempts

/-! ### The whole call -/

/-- The arguments of the call on the stack; the upper halves of the last three are not
looked at. -/
structure Arguments (m : Machine) (lba : UInt32) (sectors segment offset : UInt16) : Prop where
  lba : load 4 m.mem (m.sp+4) = lba.toNat
  sectors : load 4 m.mem (m.sp+8)%65536 = sectors.toNat
  segment : load 4 m.mem (m.sp+12)%65536 = segment.toNat
  offset : load 4 m.mem (m.sp+16)%65536 = offset.toNat

/-- A function has returned to its caller. -/
structure Returned (m m' : Machine) : Prop where
  ip : m'.ip = load 4 m.mem m.sp
  sp : m'.sp = m.sp+4
  bx : m'.bx = m.bx
  si : m'.si = m.si
  di : m'.di = m.di
  bp : m'.bp = m.bp

section Call
variable {L : Layout} {disk : Memory} {outcome : ℕ → Outcome} {bios : Bios} {m : Machine}
  {lba : UInt32} {sectors segment offset : UInt16}

/-- From the call to the first attempt. -/
theorem reaches_attempts (hp : Protected L m) (hreg : Registers32 m) (hstack : StackFits m.sp)
    (hargs : Arguments m lba sectors segment offset) :
    ∃ m', (pushSaved m >>= fillPacket L >>= enter16 L >>= biosInt13Thunk16 L >>=
        thunk16Real L) = some m' ∧ m'.cx%65536 = 3 ∧
      Simulates L m ⟨0,DiskThunk.dapPacket lba sectors segment offset,m.mem⟩ m' := by
  have hpl := Layout_places L
  have hst := hstack
  unfold StackFits at hst
  have hpush := pushSaved_eq hp.ss (by omega) (by omega)
  set m₁ : Machine := { m with
    sp := m.sp-16, mem := savedMemory m.sp m.bx m.si m.di m.bp m.mem } with hm₁
  have hmem₁ (x : ℕ) (hx : x < m.sp-16 ∨ m.sp ≤ x) : m₁.mem x = m.mem x :=
    savedMemory_outside (by omega) hx
  have hfill := fillPacket_eq (L := L) (m := m₁) hp.ds hp.ss
    (show 0x70000 ≤ m.sp-16 ∧ m.sp-16+36 ≤ 0x80000 by omega)
  have harg (k : ℕ) : load 4 m₁.mem (m₁.sp+(k+16)) = load 4 m.mem (m.sp+k) := by
    rw [show m₁.sp+(k+16) = m.sp+k by change m.sp-16+(k+16) = _; omega]
    exact load_congr fun i _ => hmem₁ _ (by omega)
  rw [harg 4,harg 8,harg 12,harg 16] at hfill
  set p := packetMemory L.dapPacket (load 4 m.mem (m.sp+4)) (load 4 m.mem (m.sp+8))
    (load 4 m.mem (m.sp+12)) (load 4 m.mem (m.sp+16)) m₁.mem
  set m₂ : Machine := {m₁ with ax := load 4 m.mem (m.sp+16), mem := p}
  have hmem₂ (x : ℕ) (hx : x < L.dapPacket ∨ L.dapPacket+16 ≤ x) : m₂.mem x = m₁.mem x :=
    packetMemory_outside hx
  have hl₂ : Loaded L m₂.mem := hp.loaded.congr fun x h₁ h₂ =>
    (hmem₂ x (by omega)).trans (hmem₁ x (by omega))
  have henter := enter16_eq (m := m₂) hp.pe hp.ds ⟨hl₂,hp.gdtr⟩
  set m₃ : Machine := { m₂ with
    mem := store 4 m₂.mem L.savedEsp32 m₂.sp, interrupts := false, ax := setLow 2 m₂.ax 0x20
    ds := data16Segment, es := data16Segment, fs := data16Segment, gs := data16Segment
    ss := data16Segment, cs := code16Segment, ip := L.biosInt13Thunk16Offset }
  have hmem₃ (x : ℕ) (hx : x < L.savedEsp32 ∨ L.savedEsp32+4 ≤ x) : m₃.mem x = m₂.mem x :=
    blit_outside hx
  have hl₃ : Loaded L m₃.mem := hl₂.congr fun x _ h₂ => hmem₃ x (by omega)
  have hthunk := biosInt13Thunk16_eq (L := L) (m := m₃) hp.pg rfl rfl
  set m₄ : Machine := { m₃ with
    ax := m₃.cr0 &&& 0xFFFFFFFE, cr0 := m₃.cr0 &&& 0xFFFFFFFE, cs := realCode
    ip := off16 L.thunk16Real }
  have hpg₄ : m₄.pg = false := (pg_and m.cr0).trans hp.pg
  obtain ⟨m₅,hreal,hin,hmem₅,hcx⟩ := thunk16Real_eq (L := L) (m := m₄) (pe_and m.cr0) hpg₄ rfl
    rfl rfl rfl rfl rfl rfl hl₃
  have hmem (x : ℕ) : m₅.mem x = m₃.mem x := congrFun hmem₅ x
  refine ⟨m₅,?_,hcx,hin,?_,?_,?_,?_,?_⟩
  · simp only [Option.bind_eq_bind]
    rw [hpush,Option.bind_some,hfill,Option.bind_some,henter,Option.bind_some,hthunk,
      Option.bind_some,hreal]
  · exact hl₃.congr fun x _ _ => hmem x
  · have hpacket := packetMemory_packetAt L.dapPacket m₁.mem (load 4 m.mem (m.sp+8))
      (load 4 m.mem (m.sp+12)) (load 4 m.mem (m.sp+16)) (load_lt 4 m.mem (m.sp+4))
    have hvalues : (⟨0x10,0,load 4 m.mem (m.sp+8)%65536,load 4 m.mem (m.sp+16)%65536,
        load 4 m.mem (m.sp+12)%65536,load 4 m.mem (m.sp+4),0⟩ : LbaPacket) =
        DiskThunk.dapPacket lba sectors segment offset := by
      rw [hargs.sectors,hargs.segment,hargs.offset,hargs.lba]
      rfl
    rw [hvalues] at hpacket
    exact hpacket.congr fun x h₁ h₂ => (hmem x).trans (hmem₃ x (by omega))
  · refine (savedMemory_savedAt m.mem hreg (by omega)).congr (by omega) fun x h₁ h₂ => ?_
    rw [hmem,hmem₃ x (by omega),hmem₂ x (by omega)]
  · rw [load_congr fun i _ => hmem (L.savedEsp32+i)]
    exact load_store_of_lt _ _ (show m.sp-16 < 256^4 by omega)
  · intro x hx
    unfold Scratch at hx
    rw [hmem,hmem₃ x (by omega),hmem₂ x (by omega),hmem₁ x (by omega)]

/-- From the last attempt to the return. -/
theorem returns_of_attempts {s : Thunk} {m' : Machine} (hstack : StackFits m.sp)
    (h : Simulates L m s m') (hret : load 4 m'.mem m.sp = load 4 m.mem m.sp) :
    ∃ m'', (thunkReturnPm32 L m' >>= thunkPm32Return L) = some m'' ∧ Protected L m'' ∧
      Returned m m'' ∧ m''.ax = m'.bx ∧ m''.mem = m'.mem := by
  unfold StackFits at hstack
  have hr : Real m' := ⟨h.pg,by rw [h.ds]; rfl,by rw [h.ds]; rfl⟩
  have hswitch := switchProtected_eq hr h.loaded L.return_lt
  set m₁ : Machine := { m' with
    interrupts := false, gdtr := ⟨L.gdt,39⟩, idtr := ⟨0,0⟩, ax := m'.cr0 ||| 1
    cr0 := m'.cr0 ||| 1, cs := codeSegment, ip := L.thunkPm32Return }
  have hpe : m₁.pe = true := pe_or m'.cr0
  have hpg : m₁.pg = false := (pg_or m'.cr0).trans h.pg
  have hback := thunkPm32Return_eq (m := m₁) (n := m.sp-16) hpe hpg rfl rfl ⟨h.loaded,rfl⟩
    h.esp (by omega)
  rw [thunkReturnPm32,hswitch,Option.bind_eq_bind,Option.bind_some,hback]
  refine ⟨_,rfl,⟨⟨hpe,hpg,rfl,rfl,rfl,rfl,rfl,rfl,rfl⟩,⟨h.loaded,rfl⟩,rfl⟩,?_,rfl,rfl⟩
  have hsaved := h.saved
  constructor
  · change load 4 m'.mem (m.sp-16+16) = _
    rw [Nat.sub_add_cancel (by omega),hret]
  · change m.sp-16+20 = m.sp+4
    omega
  · change load 4 m'.mem (m.sp-16+12) = _
    rw [show m.sp-16+12 = m.sp-4 by omega,hsaved.bx]
  · change load 4 m'.mem (m.sp-16+8) = _
    rw [show m.sp-16+8 = m.sp-8 by omega,hsaved.si]
  · change load 4 m'.mem (m.sp-16+4) = _
    rw [show m.sp-16+4 = m.sp-12 by omega,hsaved.di]
  · exact hsaved.bp

/-- The call returns to its caller in flat protected mode with its registers, and with the
result and the memory of the model, whatever the BIOS does to the other registers, and
however it uses its memory. -/
theorem biosDiskReadRaw_refines (hedd : Edd disk outcome bios) (hp : Protected L m)
    (hreg : Registers32 m) (hstack : StackFits m.sp)
    (hargs : Arguments m lba sectors segment offset)
    (hbuf : BufferFits (DiskThunk.dapPacket lba sectors segment offset)) {fuel : ℕ}
    (hfuel : 3 ≤ fuel) : ∃ m', biosDiskReadRaw L bios fuel m = some m' ∧ Protected L m' ∧
      Returned m m' ∧
      m'.ax = (DiskThunk.biosDiskReadRaw disk outcome lba sectors segment offset m.mem).1 ∧
      ∀ x, ¬Scratch L m.sp x → m'.mem x =
        (DiskThunk.biosDiskReadRaw disk outcome lba sectors segment offset m.mem).2 x := by
  obtain ⟨m₁,hrun₁,hcx,hsim₁⟩ := reaches_attempts hp hreg hstack hargs
  obtain ⟨m₂,hrun₂,hbx,hsim₂⟩ := tryThunkInt13_simulates (i := 0) hedd hstack hcx
    (show 2 < fuel by omega) hsim₁ hbuf
  have hreturn : load 4 m₂.mem m.sp = load 4 m.mem m.sp := by
    have hp' := Layout_places L
    have hst := hstack
    unfold StackFits at hst
    refine load_congr fun k hk => ?_
    have hout : ¬Scratch L m.sp (m.sp+k) := by
      unfold Scratch
      omega
    exact (hsim₂.agree _ hout).trans (tryThunkInt13_outside hbuf (.inr (by omega)))
  obtain ⟨m₃,hrun₃,hprot,hret,hax,hmem⟩ := returns_of_attempts hstack hsim₂ hreturn
  have hcall : biosDiskReadRaw L bios fuel m =
      (pushSaved m >>= fillPacket L >>= enter16 L >>= biosInt13Thunk16 L >>= thunk16Real L) >>=
        fun m => tryThunkInt13 L bios fuel 0 m >>= fun m =>
          thunkReturnPm32 L m >>= thunkPm32Return L := by
    simp only [biosDiskReadRaw,bind_assoc]
  refine ⟨m₃,?_,hprot,hret,hax.trans hbx,fun x hx => ?_⟩
  · rw [Option.bind_eq_bind] at hrun₃
    rw [hcall,hrun₁,Option.bind_eq_bind,Option.bind_some,hrun₂,Option.bind_some,hrun₃]
  · rw [hmem]
    exact hsim₂.agree x hx

end Call

/-! A BIOS that does just this, and a call from C for two sectors. -/

def packetOf (a : ℕ) (mem : Memory) : LbaPacket :=
  ⟨load 1 mem a,load 1 mem (a+1),load 2 mem (a+2),load 2 mem (a+4),load 2 mem (a+6),
    load 4 mem (a+8),load 4 mem (a+12)⟩

theorem PacketAt.eq_packetOf {a : ℕ} {p : LbaPacket} {mem : Memory} (h : PacketAt a p mem) :
    p = packetOf a mem := by
  obtain ⟨h₁,h₂,h₃,h₄,h₅,h₆,h₇⟩ := h
  cases p
  simp only [packetOf,h₁,h₂,h₃,h₄,h₅,h₆,h₇]

def eddBios (disk : Memory) (outcome : ℕ → Outcome) : Bios := fun n m =>
  if m.ax/256%256 = 0x42 then
    let a := m.ds.base+m.si%65536
    let r := extendedRead disk (outcome (n/2)) (packetOf a m.mem) m.mem
    (r.carry,{m with mem := store 2 r.mem (a+2) r.sectors})
  else (false,m)

theorem eddBios_edd (disk : Memory) (outcome : ℕ → Outcome) :
    Edd disk outcome (eddBios disk outcome) := by
  constructor
  · intro i m p a hah ha hpacket
    have hp := hpacket.eq_packetOf
    have hsectors : p.sectors < 65536 := hpacket.sectors ▸ load_lt 2 m.mem (a+2)
    have hle := extendedRead_le disk (outcome i) p m.mem
    have hi : 2*i/2 = i := Nat.mul_div_cancel_left i (by decide)
    subst hp
    set r := extendedRead disk (outcome i) (packetOf a m.mem) m.mem
    have hrun : eddBios disk outcome (2*i) m =
        (r.carry,{m with mem := store 2 r.mem (a+2) r.sectors}) := by
      rw [eddBios,if_pos hah,hi,← ha]
    rw [hrun]
    refine ⟨rfl,⟨rfl,rfl,rfl,rfl,rfl,rfl⟩,load_store_of_lt _ _ (by omega),fun x _ hx => ?_⟩
    exact blit_outside (by omega)
  · intro i m hah
    have hrun : eddBios disk outcome (2*i+1) m = (false,m) := by
      rw [eddBios,if_neg (by rw [hah]; decide)]
    rw [hrun]
    exact ⟨⟨rfl,rfl,rfl,rfl,rfl,rfl⟩,rfl,fun _ _ => rfl⟩

/-- The return address and the arguments. -/
def callStack : List UInt8 :=
  [0x34,0x06,0x01,0,0x01,0x08,0,0,2,0,0,0,0,0x20,0,0,0,0,0,0]

def callMachine : Machine := { realMachine with
  bx := 1, si := 2, di := 3, bp := 0x7FFE0, sp := 0x7FF00, interrupts := false
  cs := codeSegment, ds := dataSegment, es := dataSegment, fs := dataSegment
  gs := dataSegment, ss := dataSegment, gdtr := ⟨0x10280,39⟩, idtr := ⟨0,0⟩, cr0 := 0x11
  mem := fun x => if x < 0x7FF00 then sampleImage x else callStack.getD (x-0x7FF00) 0 }

theorem callMachine_protected : Protected sampleLayout callMachine := by
  have hl : Loaded sampleLayout callMachine.mem :=
    sampleImage_loaded.congr fun x _ hx => if_pos (lt_trans hx (by decide))
  exact ⟨⟨by decide,by decide,rfl,rfl,rfl,rfl,rfl,rfl,rfl⟩,⟨hl,rfl⟩,rfl⟩

end Gemiboot.RealModeThunk
