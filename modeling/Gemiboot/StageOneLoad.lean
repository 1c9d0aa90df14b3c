import Gemiboot.ByteMemory

/-!
# Stage 1 of IO.SYS

The first sector of IO.SYS (`bios/io16.S`, up to the signature) loads the rest of
the file with INT 13h and jumps to it. The machine below has a label of the code
for each of its states. The BIOS is a parameter with a state of its own: whether a
read fails, and what it stores, is its choice. The variables of the sector live at
0x7C00, below everything a transfer writes, and are kept as fields.
-/
namespace Gemiboot.StageOneLoad
open ByteMemory StateTransition

def u16 (n : ℕ) : ℕ := n % 65536

/-- The INT 13h/42h packet. `padding` is the upper half of a 64-bit LBA. -/
structure LbaPacket where
  size : ℕ
  reserved : ℕ
  sectors : ℕ
  offset : ℕ
  segment : ℕ
  lba : ℕ
  padding : ℕ

/-- What INT 13h/42h leaves: the block count of the packet is written back. -/
structure ReadResult (σ : Type) where
  carry : Bool
  bios : σ
  sectors : ℕ
  mem : Memory

structure Bios (σ : Type) where
  extendedRead : σ → UInt8 → LbaPacket → Memory → ReadResult σ
  resetDisk : σ → UInt8 → σ

inductive Label where
  | selfLoad | tryRead | cantRead | haltReal | readDone | loadFinished
  deriving DecidableEq

structure Stage (σ : Type) where
  label : Label
  cx : ℕ
  packet : LbaPacket
  iosysSector : ℕ
  iosysCount : ℕ
  biosDriveId : UInt8
  screen : List Char
  bios : σ
  mem : Memory

variable {σ : Type}

/-- At `self_load`, with the drive from DL and the LBA from EBX. The packet still
has its assembled values. -/
def start (dl : UInt8) (ebx : ℕ) (bios : σ) (mem : Memory) : Stage σ where
  label := .selfLoad
  cx := 0
  packet := ⟨0x10,0,1,0x7C00,0,0,0⟩
  iosysSector := u32 (ebx+1)
  iosysCount := 12
  biosDriveId := dl
  screen := []
  bios := bios
  mem := mem

def Stage.selfLoad (s : Stage σ) : Stage σ :=
  {s with label := .tryRead, packet := ⟨0x10,0,64,0,0x1000,s.iosysSector,0⟩, cx := 3}

/-- A failed read is followed by a reset of the disk and `loop try_read`. -/
def Stage.tryRead (b : Bios σ) (s : Stage σ) : Stage σ :=
  let r := b.extendedRead s.bios s.biosDriveId s.packet s.mem
  let s := {s with bios := r.bios, packet := {s.packet with sectors := r.sectors}, mem := r.mem}
  if r.carry then
    let s := {s with bios := b.resetDisk s.bios s.biosDriveId, cx := u16 (s.cx+65535)}
    if s.cx ≠ 0 then {s with label := .tryRead} else {s with label := .cantRead}
  else {s with label := .readDone}

/-- The segment moves on by 64 sectors and so does `iosys_sector`; the LBA in the
packet is not set again. -/
def Stage.readDone (s : Stage σ) : Stage σ :=
  let s := {s with
    packet := {s.packet with segment := u16 (s.packet.segment+512/16*64)}
    iosysSector := u32 (s.iosysSector+64)
    iosysCount := u32 (s.iosysCount+4294967295)}
  if s.iosysCount = 0 then {s with label := .loadFinished}
  else {s with label := .tryRead, cx := 3}

/-- From one label to the next; `load_finished` leaves the sector. -/
def step (b : Bios σ) (s : Stage σ) : Option (Stage σ) :=
  match s.label with
  | .selfLoad => some s.selfLoad
  | .tryRead => some (s.tryRead b)
  | .cantRead => some {s with label := .haltReal, screen := s.screen++['#']}
  | .haltReal => some s
  | .readDone => some s.readDone
  | .loadFinished => none

/-! ### What the BIOS promises -/

/-- The packet's sectors at the packet's segment and offset. -/
def transfer (disk : Memory) (p : LbaPacket) (mem : Memory) : Memory :=
  blit mem (16*p.segment+p.offset) (512*p.sectors) fun t =>
    disk (512*(p.lba+4294967296*p.padding)+t)

/-- A read at this state succeeds and transfers what the packet says. -/
def Transfers (b : Bios σ) (disk : Memory) (s : Stage σ) : Prop :=
  let r := b.extendedRead s.bios s.biosDriveId s.packet s.mem
  r.carry = false ∧ r.sectors = s.packet.sectors ∧ r.mem = transfer disk s.packet s.mem

/-- Every read of the run does. -/
def ReadsTransfer (b : Bios σ) (disk : Memory) (s₀ : Stage σ) : Prop :=
  ∀ s, Reaches (step b) s₀ s → s.label = .tryRead → Transfers b disk s

/-! ### The loop -/

/-- The first `n` sectors at 1000:0000 are those that a run from this LBA loads. -/
def Filled (disk : Memory) (lba n : ℕ) (mem : Memory) : Prop :=
  ∀ k < n, ∀ t < 512, mem (0x10000+512*k+t) = disk (512*(lba+k%64)+t)

/-- About to read chunk `i`: its segment, the first LBA, and the chunks before it. -/
structure AtChunk (disk : Memory) (lba i : ℕ) (s : Stage σ) : Prop where
  label : s.label = .tryRead
  packet : s.packet = ⟨0x10,0,64,0,0x1000+0x800*i,lba,0⟩
  left : s.iosysCount = 12-i
  filled : Filled disk lba (64*i) s.mem

/-- One chunk more, always the same 64 sectors of the disk. -/
theorem filled_transfer {disk mem : Memory} {lba i : ℕ} (h : Filled disk lba (64*i) mem) :
    Filled disk lba (64*(i+1)) (transfer disk ⟨0x10,0,64,0,0x1000+0x800*i,lba,0⟩ mem) := by
  intro k hk t ht
  rw [transfer]
  dsimp only
  by_cases hlt : k < 64*i
  · rw [blit_outside (by omega)]
    exact h k hlt t ht
  · rw [blit_inside (by omega) (by omega)]
    congr 1
    omega

theorem atChunk_zero (dl : UInt8) (ebx : ℕ) (bios : σ) (disk mem : Memory) :
    AtChunk disk (u32 (ebx+1)) 0 (start dl ebx bios mem).selfLoad :=
  ⟨rfl,rfl,rfl,fun k hk => absurd hk (Nat.not_lt_zero k)⟩

/-- A read that transfers leads to `read_done` with one chunk more. -/
theorem AtChunk.read {b : Bios σ} {disk : Memory} {lba i : ℕ} {s : Stage σ}
    (h : AtChunk disk lba i s) (ht : Transfers b disk s) :
    (s.tryRead b).label = .readDone ∧ (s.tryRead b).packet = s.packet ∧
      (s.tryRead b).iosysCount = s.iosysCount ∧
      Filled disk lba (64*(i+1)) (s.tryRead b).mem := by
  obtain ⟨hc,hn,hm⟩ := ht
  have hf := filled_transfer h.filled
  rw [← h.packet,← hm] at hf
  rw [Stage.tryRead]
  simp only [hc,Bool.false_eq_true,if_false,hn,true_and]
  exact hf

theorem readDone_next {disk : Memory} {lba i : ℕ} {s : Stage σ} (hi : i < 11)
    (hp : s.packet = ⟨0x10,0,64,0,0x1000+0x800*i,lba,0⟩) (hl : s.iosysCount = 12-i)
    (hf : Filled disk lba (64*(i+1)) s.mem) : AtChunk disk lba (i+1) s.readDone := by
  have hn : u32 (s.iosysCount+4294967295) = 12-(i+1) := by
    rw [hl,u32]
    omega
  have hs : u16 (0x1000+0x800*i+512/16*64) = 0x1000+0x800*(i+1) := by
    rw [u16]
    omega
  have h₀ : ¬12-(i+1) = 0 := by omega
  rw [Stage.readDone]
  simp only [hn,hp,hs,if_neg h₀]
  exact ⟨rfl,rfl,rfl,hf⟩

theorem readDone_last {s : Stage σ} (hl : s.iosysCount = 1) :
    s.readDone.label = .loadFinished ∧ s.readDone.mem = s.mem := by
  have hn : u32 (s.iosysCount+4294967295) = 0 := by
    rw [hl]
    decide
  rw [Stage.readDone]
  simp only [hn,if_true,and_self]

section Run
variable {b : Bios σ} {disk : Memory} {dl : UInt8} {ebx : ℕ} {bios : σ} {mem : Memory}

/-- The two steps of a chunk. -/
theorem reaches_readDone {s : Stage σ} {i : ℕ} (h : ReadsTransfer b disk (start dl ebx bios mem))
    (hr : Reaches (step b) (start dl ebx bios mem) s) (hs : AtChunk disk (u32 (ebx+1)) i s) :
    Reaches (step b) (start dl ebx bios mem) (s.tryRead b).readDone := by
  have hread := hs.read (h s hr hs.label)
  have h₁ : s.tryRead b ∈ step b s := by
    rw [step,hs.label]
    rfl
  have h₂ : (s.tryRead b).readDone ∈ step b (s.tryRead b) := by
    rw [step,hread.1]
    rfl
  exact (hr.tail h₁).tail h₂

theorem reaches_chunk (h : ReadsTransfer b disk (start dl ebx bios mem)) {i : ℕ} (hi : i < 12) :
    ∃ s, Reaches (step b) (start dl ebx bios mem) s ∧ AtChunk disk (u32 (ebx+1)) i s := by
  induction i with
  | zero => exact ⟨_,.single rfl,atChunk_zero dl ebx bios disk mem⟩
  | succ i ih =>
      obtain ⟨s,hr,hs⟩ := ih (by omega)
      obtain ⟨-,hp,hl,hf⟩ := hs.read (h s hr hs.label)
      exact ⟨_,reaches_readDone h hr hs,
        readDone_next (by omega) (hp.trans hs.packet) (hl.trans hs.left) hf⟩

/-- The run ends at `load_finished` with twelve copies of the first chunk. -/
theorem reaches_loadFinished (h : ReadsTransfer b disk (start dl ebx bios mem)) :
    ∃ s, Reaches (step b) (start dl ebx bios mem) s ∧ s.label = .loadFinished ∧
      Filled disk (u32 (ebx+1)) 768 s.mem := by
  obtain ⟨s,hr,hs⟩ := reaches_chunk h (i := 11) (by decide)
  obtain ⟨-,-,hl,hf⟩ := hs.read (h s hr hs.label)
  obtain ⟨hlabel,hmem⟩ := readDone_last (s := s.tryRead b) (hl.trans hs.left)
  refine ⟨_,reaches_readDone h hr hs,hlabel,?_⟩
  rw [hmem]
  exact hf

/-- Every state of the run that is at `load_finished` is that one. -/
theorem filled_of_loadFinished (h : ReadsTransfer b disk (start dl ebx bios mem)) {s : Stage σ}
    (hr : Reaches (step b) (start dl ebx bios mem) s) (hs : s.label = .loadFinished) :
    Filled disk (u32 (ebx+1)) 768 s.mem := by
  obtain ⟨s',hr',hs',hf⟩ := reaches_loadFinished h
  have hstop : ∀ s : Stage σ, s.label = .loadFinished → step b s = none := by
    intro s hs
    rw [step,hs]
  have hend : s = s' :=
    Part.mem_unique (mem_eval.mpr ⟨hr,hstop s hs⟩) (mem_eval.mpr ⟨hr',hstop s' hs'⟩)
  rwa [hend]

/-- IO.SYS after its first sector, in one piece from 1000:0000. -/
def Contiguous (disk : Memory) (ebx : ℕ) (mem : Memory) : Prop :=
  ∀ k < 768, ∀ t < 512, mem (0x10000+512*k+t) = disk (512*(ebx+1+k)+t)

/-- After its first sector, IO.SYS repeats the same 64 sectors, those from the LBA
that `addl $1` gives in 32 bits. -/
def Repeats (disk : Memory) (ebx : ℕ) : Prop :=
  ∀ k < 768, ∀ t < 512, disk (512*(ebx+1+k)+t) = disk (512*(u32 (ebx+1)+k%64)+t)

theorem loadFinished_contiguous_iff (h : ReadsTransfer b disk (start dl ebx bios mem)) :
    (∃ s, Reaches (step b) (start dl ebx bios mem) s ∧ s.label = .loadFinished) ∧
      ((∀ s, Reaches (step b) (start dl ebx bios mem) s → s.label = .loadFinished →
        Contiguous disk ebx s.mem) ↔ Repeats disk ebx) := by
  obtain ⟨s,hr,hs,hf⟩ := reaches_loadFinished h
  refine ⟨⟨s,hr,hs⟩,?_,?_⟩
  · intro hc k hk t ht
    rw [← hc s hr hs k hk t ht,hf k hk t ht]
  · intro hrep s hr hs k hk t ht
    rw [hrep k hk t ht,filled_of_loadFinished h hr hs k hk t ht]

end Run

/-! ### A disk with numbered sectors -/

/-- Every byte of a sector is the low byte of its number. -/
def numberedDisk : Memory := fun x => UInt8.ofNat (x/512)

/-- A BIOS that never fails. -/
def reliableBios (disk : Memory) : Bios Unit where
  extendedRead _ _ p mem := ⟨false,(),p.sectors,transfer disk p mem⟩
  resetDisk _ _ := ()

theorem reliableBios_transfers (disk : Memory) (s₀ : Stage Unit) :
    ReadsTransfer (reliableBios disk) disk s₀ := fun _ _ _ => ⟨rfl,rfl,rfl⟩

theorem loadFinished_contiguous_iff_numberedDisk :
    let s₀ := start 0x80 2050 () fun _ => 0
    (∃ s, Reaches (step (reliableBios numberedDisk)) s₀ s ∧ s.label = .loadFinished) ∧
      ((∀ s, Reaches (step (reliableBios numberedDisk)) s₀ s → s.label = .loadFinished →
        Contiguous numberedDisk 2050 s.mem) ↔ Repeats numberedDisk 2050) :=
  loadFinished_contiguous_iff (reliableBios_transfers numberedDisk _)

/-- Where sector 2115 should be, sector 2051 is loaded again. -/
theorem numberedDisk_not_contiguous :
    let s₀ := start 0x80 2050 () fun _ => 0
    ReadsTransfer (reliableBios numberedDisk) numberedDisk s₀ ∧
      ∃ s, Reaches (step (reliableBios numberedDisk)) s₀ s ∧ s.label = .loadFinished ∧
        ¬Contiguous numberedDisk 2050 s.mem := by
  intro s₀
  have h := reliableBios_transfers numberedDisk s₀
  obtain ⟨s,hr,hs,hf⟩ := reaches_loadFinished h
  refine ⟨h,s,hr,hs,fun hc => ?_⟩
  have he := (hf 64 (by decide) 0 (by decide)).symm.trans (hc 64 (by decide) 0 (by decide))
  revert he
  decide

end Gemiboot.StageOneLoad
