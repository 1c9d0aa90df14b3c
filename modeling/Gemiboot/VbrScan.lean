import Gemiboot.StageOneLoad

/-!
# The sector scan of the volume boot record

After it has moved itself to 0x600, `bios/vbr.S` reads one sector after another to
0x7C00 until one carries both marks of IO.SYS, and jumps to it with the LBA in EBX.
The loop has no bound of its own. The BIOS, its packet and its transfers are those of
stage 1; the variables of the record lie below the sector it reads and are fields.
-/
namespace Gemiboot.VbrScan
open ByteMemory StateTransition
open StageOneLoad (Bios LbaPacket transfer u16)

inductive Label where
  | afterVbrReloc | readIoSysLoop | tryReadIosys | cantReadIosys | hangVbr
  | iosysSecReadOk | checkNextSec | iosysFound | ioSys
  deriving DecidableEq

structure Vbr (σ : Type) where
  label : Label
  ebx : ℕ
  cx : ℕ
  edx : ℕ
  packet : LbaPacket
  biosDriveId : UInt8
  partitionLba : ℕ
  iosysLba : ℕ
  screen : List Char
  bios : σ
  mem : Memory

variable {σ : Type}

/-- At `after_vbr_reloc`, with the drive from DL and the partition's LBA from EBX saved. -/
def start (dl : UInt8) (ebx : ℕ) (bios : σ) (mem : Memory) : Vbr σ where
  label := .afterVbrReloc
  ebx := ebx
  cx := 0
  edx := dl.toNat
  packet := ⟨0x10,0,1,0x7C00,0,0,0⟩
  biosDriveId := dl
  partitionLba := ebx
  iosysLba := 2050
  screen := []
  bios := bios
  mem := mem

def Vbr.afterVbrReloc (s : Vbr σ) : Vbr σ :=
  let ebx := u32 (s.partitionLba+2)
  {s with label := .readIoSysLoop, ebx := ebx, iosysLba := ebx}

def Vbr.readIoSysLoop (s : Vbr σ) : Vbr σ :=
  {s with label := .tryReadIosys, packet := ⟨0x10,0,1,0x7C00,0,s.iosysLba,0⟩, cx := 3}

/-- A failed read is followed by a reset of the disk and `loop try_read_iosys`. -/
def Vbr.tryReadIosys (b : Bios σ) (s : Vbr σ) : Vbr σ :=
  let r := b.extendedRead s.bios s.biosDriveId s.packet s.mem
  let s := {s with bios := r.bios, packet := {s.packet with sectors := r.sectors}, mem := r.mem}
  if r.carry then
    let s := {s with bios := b.resetDisk s.bios s.biosDriveId, cx := u16 (s.cx+65535)}
    if s.cx ≠ 0 then {s with label := .tryReadIosys} else {s with label := .cantReadIosys}
  else {s with label := .iosysSecReadOk}

/-- The signature at 0x7DFE first, then "gemi" at 0x7C03. -/
def Vbr.iosysSecReadOk (s : Vbr σ) : Vbr σ :=
  if load 2 s.mem 0x7DFE ≠ 0xAA55 then {s with label := .checkNextSec}
  else if load 4 s.mem 0x7C03 = 0x696D6567 then {s with label := .iosysFound}
  else {s with label := .checkNextSec}

def Vbr.checkNextSec (s : Vbr σ) : Vbr σ :=
  {s with label := .readIoSysLoop, iosysLba := u32 (s.iosysLba+1)}

def Vbr.iosysFound (s : Vbr σ) : Vbr σ :=
  {s with label := .ioSys, ebx := s.iosysLba, edx := s.biosDriveId.toNat}

/-- From one label to the next; `ioSys` is the jump to 0x7C00. -/
def step (b : Bios σ) (s : Vbr σ) : Option (Vbr σ) :=
  match s.label with
  | .afterVbrReloc => some s.afterVbrReloc
  | .readIoSysLoop => some s.readIoSysLoop
  | .tryReadIosys => some (s.tryReadIosys b)
  | .cantReadIosys => some {s with label := .hangVbr, screen := s.screen++['#']}
  | .hangVbr => some s
  | .iosysSecReadOk => some s.iosysSecReadOk
  | .checkNextSec => some s.checkNextSec
  | .iosysFound => some s.iosysFound
  | .ioSys => none

/-! ### What the scan looks for -/

/-- The sector at this LBA carries both marks. -/
def Marked (disk : Memory) (lba : ℕ) : Prop :=
  load 2 disk (512*lba+510) = 0xAA55 ∧ load 4 disk (512*lba+3) = 0x696D6567

instance (disk : Memory) (lba : ℕ) : Decidable (Marked disk lba) :=
  inferInstanceAs (Decidable (_ ∧ _))

/-- Every read of the run succeeds and transfers what the packet says. -/
def ReadsSucceed (b : Bios σ) (disk : Memory) (s₀ : Vbr σ) : Prop :=
  ∀ s, Reaches (step b) s₀ s → s.label = .tryReadIosys →
    let r := b.extendedRead s.bios s.biosDriveId s.packet s.mem
    r.carry = false ∧ r.mem = transfer disk s.packet s.mem

/-- The sector of the disk at 0x7C00. -/
def Loaded (disk : Memory) (lba : ℕ) (mem : Memory) : Prop :=
  ∀ t < 512, mem (0x7C00+t) = disk (512*lba+t)

theorem Loaded.marks {disk mem : Memory} {lba : ℕ} (h : Loaded disk lba mem) :
    load 2 mem 0x7DFE = load 2 disk (512*lba+510) ∧
      load 4 mem 0x7C03 = load 4 disk (512*lba+3) := by
  constructor
  · apply load_congr
    intro i hi
    have hi' := h (510+i) (by omega)
    rwa [← Nat.add_assoc,← Nat.add_assoc] at hi'
  · apply load_congr
    intro i hi
    have hi' := h (3+i) (by omega)
    rwa [← Nat.add_assoc,← Nat.add_assoc] at hi'

theorem loaded_transfer (disk mem : Memory) (lba : ℕ) :
    Loaded disk lba (transfer disk ⟨0x10,0,1,0x7C00,0,lba,0⟩ mem) := by
  intro t ht
  have ha : 16*0+0x7C00+t = 0x7C00+t := by rw [Nat.mul_zero,Nat.zero_add]
  rw [transfer,← ha,blit_at (by omega)]
  simp only [Nat.mul_zero,Nat.add_zero]

/-! ### One sector -/

/-- About to read this sector. -/
structure AtSector (dl : UInt8) (lba : ℕ) (s : Vbr σ) : Prop where
  label : s.label = .readIoSysLoop
  next : s.iosysLba = lba
  drive : s.biosDriveId = dl

/-- The sector has been read and is about to be checked. -/
structure HasSector (dl : UInt8) (disk : Memory) (lba : ℕ) (s : Vbr σ) : Prop where
  label : s.label = .iosysSecReadOk
  next : s.iosysLba = lba
  drive : s.biosDriveId = dl
  loaded : Loaded disk lba s.mem

theorem HasSector.passed {dl : UInt8} {disk : Memory} {lba : ℕ} {s : Vbr σ}
    (h : HasSector dl disk lba s) (hm : ¬Marked disk lba) :
    s.iosysSecReadOk = {s with label := .checkNextSec} := by
  obtain ⟨h₂,h₄⟩ := h.loaded.marks
  unfold Vbr.iosysSecReadOk
  rw [h₂,h₄]
  split_ifs with h₁ h₃
  · rfl
  · exact absurd ⟨not_not.mp h₁,h₃⟩ hm
  · rfl

theorem HasSector.found {dl : UInt8} {disk : Memory} {lba : ℕ} {s : Vbr σ}
    (h : HasSector dl disk lba s) (hm : Marked disk lba) :
    s.iosysSecReadOk = {s with label := .iosysFound} := by
  obtain ⟨h₂,h₄⟩ := h.loaded.marks
  unfold Vbr.iosysSecReadOk
  rw [h₂,h₄,if_neg (not_not.mpr hm.1),if_pos hm.2]

section Run
variable {b : Bios σ} {disk : Memory} {s₀ : Vbr σ} {dl : UInt8} {lba : ℕ}

/-- The two steps of a read. -/
theorem reaches_hasSector (h : ReadsSucceed b disk s₀) {s : Vbr σ} (hr : Reaches (step b) s₀ s)
    (hs : AtSector dl lba s) : ∃ t, Reaches (step b) s₀ t ∧ HasSector dl disk lba t := by
  have h₁ : s.readIoSysLoop ∈ step b s := by
    rw [step,hs.label]
    rfl
  have h₂ : s.readIoSysLoop.tryReadIosys b ∈ step b s.readIoSysLoop := rfl
  have hr₁ := hr.tail h₁
  obtain ⟨hc,hm⟩ := h s.readIoSysLoop hr₁ rfl
  have hp : s.readIoSysLoop.packet = ⟨0x10,0,1,0x7C00,0,lba,0⟩ := by
    rw [← hs.next]
    rfl
  have hloaded := loaded_transfer disk s.readIoSysLoop.mem lba
  rw [← hp,← hm] at hloaded
  have hdrive := hs.drive
  have hlba := hs.next
  refine ⟨_,hr₁.tail h₂,?_,?_,?_,?_⟩ <;> rw [Vbr.tryReadIosys] <;>
    simp only [hc,Bool.false_eq_true,if_false]
  · exact hlba
  · exact hdrive
  · exact hloaded

/-- An unmarked sector is passed over. -/
theorem reaches_next (h : ReadsSucceed b disk s₀) {s : Vbr σ} (hr : Reaches (step b) s₀ s)
    (hs : AtSector dl lba s) (hm : ¬Marked disk lba) (hl : lba+1 < 4294967296) :
    ∃ t, Reaches (step b) s₀ t ∧ AtSector dl (lba+1) t := by
  obtain ⟨t,ht,hsec⟩ := reaches_hasSector h hr hs
  have h₁ : t.iosysSecReadOk ∈ step b t := by
    rw [step,hsec.label]
    rfl
  rw [hsec.passed hm] at h₁
  have h₂ : Vbr.checkNextSec {t with label := .checkNextSec} ∈
      step b {t with label := .checkNextSec} := rfl
  refine ⟨_,(ht.tail h₁).tail h₂,rfl,?_,hsec.drive⟩
  change u32 (t.iosysLba+1) = lba+1
  rw [hsec.next,u32_of_lt hl]

/-- A marked sector ends the run. -/
theorem eval_marked (h : ReadsSucceed b disk s₀) {s : Vbr σ} (hr : Reaches (step b) s₀ s)
    (hs : AtSector dl lba s) (hm : Marked disk lba) :
    ∃ t ∈ eval (step b) s₀, t.label = .ioSys ∧ t.ebx = lba ∧ t.edx = dl.toNat ∧
      Loaded disk lba t.mem := by
  obtain ⟨t,ht,hsec⟩ := reaches_hasSector h hr hs
  have h₁ : t.iosysSecReadOk ∈ step b t := by
    rw [step,hsec.label]
    rfl
  rw [hsec.found hm] at h₁
  have h₂ : Vbr.iosysFound {t with label := .iosysFound} ∈
      step b {t with label := .iosysFound} := rfl
  refine ⟨_,mem_eval.mpr ⟨(ht.tail h₁).tail h₂,rfl⟩,rfl,hsec.next,?_,hsec.loaded⟩
  change t.biosDriveId.toNat = dl.toNat
  rw [hsec.drive]

end Run

/-! ### The scan -/

variable {b : Bios σ} {disk : Memory} {dl : UInt8} {ebx : ℕ} {bios : σ} {mem : Memory}

/-- The scan comes to every sector that has no marked one before it. -/
theorem reaches_atSector (h : ReadsSucceed b disk (start dl ebx bios mem)) {n : ℕ}
    (hl : ebx+2+n < 4294967296) (hskip : ∀ k < n, ¬Marked disk (ebx+2+k)) :
    ∃ s, Reaches (step b) (start dl ebx bios mem) s ∧ AtSector dl (ebx+2+n) s := by
  induction n with
  | zero =>
      refine ⟨_,.single rfl,rfl,?_,rfl⟩
      change u32 (ebx+2) = ebx+2
      exact u32_of_lt (by omega)
  | succ n ih =>
      obtain ⟨s,hr,hs⟩ := ih (by omega) fun k hk => hskip k (by omega)
      exact reaches_next h hr hs (hskip n (by omega)) (by omega)

/-- The scan stops at the first marked sector from partition LBA + 2 on. -/
theorem eval_first (h : ReadsSucceed b disk (start dl ebx bios mem)) {lba : ℕ}
    (hfirst : IsLeast {k | ebx+2 ≤ k ∧ Marked disk k} lba) (hl : lba < 4294967296) :
    ∃ s ∈ eval (step b) (start dl ebx bios mem), s.label = .ioSys ∧ s.ebx = lba ∧
      s.edx = dl.toNat ∧ Loaded disk lba s.mem := by
  obtain ⟨⟨hle,hm⟩,hleast⟩ := hfirst
  have hn : ebx+2+(lba-(ebx+2)) = lba := Nat.add_sub_cancel' hle
  obtain ⟨s,hr,hs⟩ := reaches_atSector h (n := lba-(ebx+2)) (by omega) fun k hk hmk => by
    have := hleast ⟨Nat.le_add_right _ k,hmk⟩
    omega
  rw [hn] at hs
  exact eval_marked h hr hs hm

end Gemiboot.VbrScan
