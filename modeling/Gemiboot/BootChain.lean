import Gemiboot.BootRoundTrip
import Gemiboot.MbrSelect
import Gemiboot.Succession
import Gemiboot.VbrIoSys

/-!
# From the master boot record to the second stage

The three boot sectors as one machine: `bios/mbr.S` ends with a jump to the sector of
the partition it has put in its place, `bios/vbr.S` with a jump to the first sector of
IO.SYS, and that one with a jump to 1000:0000. The drive goes on in DL and an LBA in
EBX. A read may fail at any time; what the sectors rely on is that one that does not
fail transfers what its packet says, and that one that fails keeps to its buffer and
leaves the count of the packet alone.
-/
namespace Gemiboot.BootChain
open ByteMemory Mkdisk StateTransition Succession
open StageOneLoad (Stage transfer Filled u16)
open MbrSelect (Mbr MbrBios Selected startLba)
open VbrScan (Vbr Marked Loaded IoSysMarked HoldsFile ioSysLba)

variable {σ : Type}

abbrev Chain (σ : Type) := Mbr σ ⊕ Vbr σ ⊕ Stage σ

/-- From the jump of the MBR to `after_vbr_reloc`. -/
def enterVbr (s : Mbr σ) : Vbr σ :=
  VbrScan.start (UInt8.ofNat s.edx) s.ebx s.bios
    (blit s.mem 0x600 512 fun i => s.mem (0x7C00+i))

/-- From the jump of the VBR to `self_load`. -/
def enterIoSys (s : Vbr σ) : Stage σ :=
  StageOneLoad.start (UInt8.ofNat s.edx) s.ebx s.bios s.mem

def step (b : MbrBios σ) : Chain σ → Option (Chain σ) :=
  follow (MbrSelect.step b) (fun s => .inl (enterVbr s))
    (follow (VbrScan.step b.toBios) enterIoSys (StageOneLoad.step b.toBios))

/-- At `norm_cs` of the MBR. -/
def start (dl : UInt8) (bios : σ) (mem : Memory) : Chain σ := .inl (MbrSelect.start dl bios mem)

/-! ### The drive -/

/-- What a read of this drive does. -/
structure Honest (b : MbrBios σ) (dl : UInt8) (disk : Memory) : Prop where
  count : ∀ bios p mem, (b.extendedRead bios dl p mem).sectors = p.sectors
  transferred : ∀ bios p mem, (b.extendedRead bios dl p mem).carry = false →
    (b.extendedRead bios dl p mem).mem = transfer disk p mem
  buffer : ∀ bios p mem, (b.extendedRead bios dl p mem).carry = true →
    ∀ x < 16*p.segment+p.offset, (b.extendedRead bios dl p mem).mem x = mem x

def ReadFails (b : MbrBios σ) (dl : UInt8) : Prop :=
  ∃ bios p mem, (b.extendedRead bios dl p mem).carry = true

/-- The extended disk services answer as the MBR wants. -/
def Extended (b : MbrBios σ) (dl : UInt8) (bios : σ) : Prop :=
  (b.checkExtensions bios dl).carry = false ∧ (b.checkExtensions bios dl).bx = 0xAA55 ∧
    (b.checkExtensions bios dl).cx &&& 1 ≠ 0

/-- The selected partition, and the first sector behind its boot sectors that has both
marks. -/
structure Bootable (disk : Memory) (part lba : ℕ) : Prop where
  record : load 2 disk 510 = 0xAA55
  selected : ∃ i, Selected disk i ∧ startLba disk i = part
  volume : load 2 disk (512*part+510) = 0xAA55
  first : IsLeast {k | part+2 ≤ k ∧ Marked disk k} lba
  small : lba+1 < 4294967296

theorem u16_countdown {n : ℕ} (h : n < 3) : u16 (n+1+65535) = n := by
  unfold u16
  omega

variable {b : MbrBios σ} {dl : UInt8} {disk : Memory}

/-! ### The master boot record -/

/-- With `n` attempts left to read the first sector of the partition. -/
structure MbrAttempt (b : MbrBios σ) (dl : UInt8) (part n : ℕ) (s : Mbr σ) : Prop where
  label : s.label = if n = 0 then .cantReadVbr else .tryReadVbr
  left : s.cx = n
  few : n ≤ 3
  packet : s.packet = ⟨0x10,0,1,0x7C00,0,part,0⟩
  saved : s.savedPartLba = part
  drive : s.biosDriveId = dl
  screen : s.screen = []
  failed : n < 3 → ReadFails b dl

structure MbrRead (dl : UInt8) (disk : Memory) (part : ℕ) (s : Mbr σ) : Prop where
  label : s.label = .readVbrOk
  saved : s.savedPartLba = part
  drive : s.biosDriveId = dl
  loaded : Loaded disk part s.mem

theorem tryReadVbr_attempt (hb : Honest b dl disk) {part n : ℕ} {s : Mbr σ}
    (h : MbrAttempt b dl part (n+1) s) :
    MbrRead dl disk part (s.tryReadVbr b) ∨ MbrAttempt b dl part n (s.tryReadVbr b) := by
  have hn : n < 3 := h.few
  have hcount := hb.count s.bios s.packet s.mem
  have hloaded := hb.transferred s.bios s.packet s.mem
  rw [Mbr.tryReadVbr,h.left,h.drive,u16_countdown hn]
  cases hc : (b.extendedRead s.bios dl s.packet s.mem).carry with
  | false =>
      left
      simp only [Bool.false_eq_true,if_false]
      refine ⟨rfl,h.saved,rfl,?_⟩
      change Loaded disk part (b.extendedRead s.bios dl s.packet s.mem).mem
      rw [hloaded hc,h.packet]
      exact VbrScan.loaded_transfer disk s.mem part
  | true =>
      right
      have hpacket : ({s.packet with sectors :=
          (b.extendedRead s.bios dl s.packet s.mem).sectors} : StageOneLoad.LbaPacket) =
            ⟨0x10,0,1,0x7C00,0,part,0⟩ := by
        rw [hcount,h.packet]
      have hfails : ReadFails b dl := ⟨_,_,_,hc⟩
      simp only [if_true,hpacket]
      split_ifs with hleft
      · exact ⟨(if_neg hleft).symm,rfl,by omega,rfl,h.saved,rfl,h.screen,fun _ => hfails⟩
      · have hz : n = 0 := not_not.mp hleft
        exact ⟨(if_pos hz).symm,rfl,by omega,rfl,h.saved,rfl,h.screen,fun _ => hfails⟩

/-- How the record ends when it does not reach the volume. -/
def MbrHung (b : MbrBios σ) (dl : UInt8) (bios : σ) (s : Mbr σ) : Prop :=
  s.label = .hangMbr ∧
    (s.screen = ['@'] ∧ ¬Extended b dl bios ∨ s.screen = ['#'] ∧ ReadFails b dl)

/-- From the first attempt on. -/
theorem reaches_mbrRead (hb : Honest b dl disk) {part : ℕ} {bios : σ} {s : Mbr σ}
    (h : MbrAttempt b dl part 3 s) :
    ∃ t, Reaches (MbrSelect.step b) s t ∧ (MbrRead dl disk part t ∨ MbrHung b dl bios t) := by
  have hattempt : ∀ n s, MbrAttempt b dl part (n+1) s →
      ∃ t, Reaches (MbrSelect.step b) s t ∧ (MbrRead dl disk part t ∨ MbrAttempt b dl part n t) := by
    intro n s hs
    refine ⟨s.tryReadVbr b,.single ?_,tryReadVbr_attempt hb hs⟩
    rw [MbrSelect.step,hs.label]
    rfl
  obtain ⟨t,hr,hread | hlost⟩ := reaches_countdown hattempt h
  · exact ⟨t,hr,.inl hread⟩
  · have hlabel : t.label = .cantReadVbr := hlost.label
    have hs : {t with label := .hangMbr, screen := t.screen++['#']} ∈ MbrSelect.step b t := by
      rw [MbrSelect.step,hlabel]
      rfl
    refine ⟨_,hr.tail hs,.inr ⟨rfl,.inr ⟨?_,hlost.failed (by decide)⟩⟩⟩
    change t.screen++['#'] = ['#']
    rw [hlost.screen]
    rfl

/-- Looking at the table with `n` entries left. -/
structure MbrScan (dl : UInt8) (n : ℕ) (s : Mbr σ) : Prop where
  label : s.label = .findLoop
  left : s.cx = n
  pos : 0 < n ∧ n ≤ 4
  packet : ∃ lba, s.packet = ⟨0x10,0,1,0x7C00,0,lba,0⟩
  drive : s.biosDriveId = dl
  screen : s.screen = []

structure MbrChosen (dl : UInt8) (s : Mbr σ) : Prop where
  label : s.label = .foundActive
  packet : ∃ lba, s.packet = ⟨0x10,0,1,0x7C00,0,lba,0⟩
  drive : s.biosDriveId = dl
  screen : s.screen = []

theorem findLoop_scan {n : ℕ} {s : Mbr σ} (h : MbrScan dl (n+1) s) :
    MbrChosen dl s.findLoop ∨ MbrScan dl n s.findLoop := by
  have hcx : u16 (s.cx+65535) = n := by
    have hn := h.pos.2
    rw [h.left,u16]
    omega
  unfold Mbr.findLoop
  rw [hcx]
  dsimp only
  split_ifs with hactive hleft
  · exact .inl ⟨rfl,h.packet,h.drive,h.screen⟩
  · exact .inr ⟨rfl,rfl,⟨by omega,by have := h.pos.2; omega⟩,h.packet,h.drive,h.screen⟩
  · exact .inl ⟨rfl,h.packet,h.drive,h.screen⟩

theorem reaches_mbrChosen {n : ℕ} {s : Mbr σ} (h : MbrScan dl n s) :
    ∃ t, Reaches (MbrSelect.step b) s t ∧ MbrChosen dl t := by
  have hscan : ∀ n s, MbrScan dl (n+1) s →
      ∃ t, Reaches (MbrSelect.step b) s t ∧ (MbrChosen dl t ∨ MbrScan dl n t) := by
    intro n s hs
    refine ⟨s.findLoop,.single ?_,findLoop_scan hs⟩
    rw [MbrSelect.step,hs.label]
    rfl
  obtain ⟨t,hr,hchosen | hnone⟩ := reaches_countdown hscan h
  · exact ⟨t,hr,hchosen⟩
  · exact absurd hnone.pos.1 (lt_irrefl 0)

theorem afterReloc_extended {s : Mbr σ} (h : Extended b s.biosDriveId s.bios) :
    (s.afterReloc b).label = .findActivePart ∧ (s.afterReloc b).packet = s.packet ∧
      (s.afterReloc b).biosDriveId = s.biosDriveId ∧ (s.afterReloc b).screen = s.screen := by
  obtain ⟨hc,hbx,hcx⟩ := h
  unfold Mbr.afterReloc
  dsimp only
  split_ifs with h₁ h₂
  · exact absurd h₁ (by rw [hc]; decide)
  · exact absurd hbx h₂
  · exact ⟨rfl,rfl,rfl,rfl⟩

theorem afterReloc_refused {s : Mbr σ} (h : ¬Extended b s.biosDriveId s.bios) :
    (s.afterReloc b).label = .noLba ∧ (s.afterReloc b).screen = s.screen := by
  unfold Mbr.afterReloc
  dsimp only
  split_ifs with h₁ h₂ h₃
  · exact ⟨rfl,rfl⟩
  · exact ⟨rfl,rfl⟩
  · exact ⟨rfl,rfl⟩
  · exact absurd ⟨Bool.eq_false_of_not_eq_true h₁,not_not.mp h₂,h₃⟩ h

/-- From `norm_cs` past the check of the extended services. -/
theorem reaches_mbrScan {bios : σ} {mem : Memory} (hm : ∀ i < 512, mem (0x7C00+i) = disk i)
    (hsign : load 2 disk 510 = 0xAA55) :
    ∃ t, Reaches (MbrSelect.step b) (MbrSelect.start dl bios mem) t ∧
      (MbrScan dl 4 t ∨ t.label = .hangMbr ∧ t.screen = ['@'] ∧ ¬Extended b dl bios) := by
  have hsig : load 2 mem (0x7C00+510) = 0xAA55 := by
    rw [← hsign]
    exact load_congr fun i hi => by rw [Nat.add_assoc]; exact hm (510+i) (by omega)
  set s₀ : Mbr σ := MbrSelect.start dl bios mem
  set s₁ : Mbr σ :=
    {s₀ with label := .afterReloc, mem := blit s₀.mem 0x600 512 fun i => s₀.mem (0x7C00+i)}
  have h₁ : s₁ ∈ MbrSelect.step b s₀ := by
    change some s₀.normCs = some _
    rw [Mbr.normCs,if_neg (by change ¬load 2 mem (0x7C00+510) ≠ 0xAA55; exact not_not.mpr hsig)]
  have hr₁ : Reaches (MbrSelect.step b) s₀ s₁ := .single h₁
  have hr₂ : Reaches (MbrSelect.step b) s₀ (s₁.afterReloc b) := hr₁.tail rfl
  by_cases he : Extended b dl bios
  · obtain ⟨hlabel,hpacket,hdrive,hscreen⟩ := afterReloc_extended (b := b) (s := s₁) he
    have h₃ : (s₁.afterReloc b).findActivePart ∈ MbrSelect.step b (s₁.afterReloc b) := by
      rw [MbrSelect.step,hlabel]
      rfl
    exact ⟨_,hr₂.tail h₃,.inl ⟨rfl,rfl,⟨by decide,by decide⟩,⟨0,hpacket⟩,hdrive,hscreen⟩⟩
  · obtain ⟨hlabel,hscreen⟩ := afterReloc_refused (b := b) (s := s₁) he
    have h₃ : {s₁.afterReloc b with label := .hangMbr, screen := (s₁.afterReloc b).screen++['@']} ∈
        MbrSelect.step b (s₁.afterReloc b) := by
      rw [MbrSelect.step,hlabel]
      rfl
    refine ⟨_,hr₂.tail h₃,.inr ⟨rfl,?_,he⟩⟩
    change (s₁.afterReloc b).screen++['@'] = ['@']
    rw [hscreen]
    rfl

/-- At most one entry is selected. -/
theorem selected_unique {mbr : Memory} {i j : ℕ} (hi : Selected mbr i) (hj : Selected mbr j) :
    i = j := by
  rcases hi with ⟨hi₄,hia,hib⟩ | ⟨rfl,hin⟩ <;> rcases hj with ⟨hj₄,hja,hjb⟩ | ⟨rfl,hjn⟩
  · exact le_antisymm (not_lt.mp fun h => hib j h hja) (not_lt.mp fun h => hjb i h hia)
  · exact absurd hia (hjn i hi₄)
  · exact absurd hja (hin j hj₄)
  · rfl

/-- The record passes on the partition it was given, or hangs. -/
theorem reaches_volume (hb : Honest b dl disk) {part lba : ℕ} (hd : Bootable disk part lba)
    {bios : σ} {mem : Memory} (hm : ∀ i < 512, mem (0x7C00+i) = disk i) :
    ∃ t, Reaches (MbrSelect.step b) (MbrSelect.start dl bios mem) t ∧
      ((t.label = .vbr ∧ t.ebx = part ∧ t.edx = dl.toNat) ∨ MbrHung b dl bios t) := by
  obtain ⟨s,hrs,hscan | ⟨hlabel,hmark⟩⟩ :=
    reaches_mbrScan (b := b) hm hd.record
  swap
  · exact ⟨s,hrs,.inr ⟨hlabel,.inl hmark⟩⟩
  obtain ⟨c,hrc,hchosen⟩ := reaches_mbrChosen (b := b) hscan
  have hr := hrs.trans hrc
  have hinv := MbrSelect.reaches_atLabel hr hm
  unfold MbrSelect.AtLabel at hinv
  rw [hchosen.label] at hinv
  obtain ⟨hreloc,i,hi,hsi⟩ := hinv
  obtain ⟨j,hj,hpart⟩ := hd.selected
  rw [selected_unique hj hi] at hpart
  have hentry : load 4 c.mem (c.si+8) = part := by
    rw [← hpart,hsi]
    apply load_congr
    intro t ht
    have hlt := hi.lt
    rw [show 0x600+MbrSelect.partitionTable+16*i+8+t =
      0x600+(MbrSelect.partitionTable+16*i+8+t) by omega]
    apply hreloc
    unfold MbrSelect.partitionTable
    omega
  have hstep : c.foundActive ∈ MbrSelect.step b c := by
    rw [MbrSelect.step,hchosen.label]
    rfl
  obtain ⟨old,hpacket⟩ := hchosen.packet
  have hattempt : MbrAttempt b dl part 3 c.foundActive := by
    refine ⟨rfl,rfl,le_refl 3,?_,hentry,hchosen.drive,hchosen.screen,fun h => absurd h (lt_irrefl 3)⟩
    unfold Mbr.foundActive
    rw [hpacket,hentry]
  obtain ⟨t,hrt,hread | hhung⟩ := reaches_mbrRead hb hattempt
  swap
  · exact ⟨t,(hr.tail hstep).trans hrt,.inr hhung⟩
  have hsig : load 2 t.mem 0x7DFE = 0xAA55 := hread.loaded.marks.1.trans hd.volume
  have hlast : {t with label := .vbr, ebx := t.savedPartLba, edx := t.biosDriveId.toNat} ∈
      MbrSelect.step b t := by
    rw [MbrSelect.step,hread.label]
    change some t.readVbrOk = some _
    rw [Mbr.readVbrOk,if_neg (not_not.mpr hsig)]
  refine ⟨_,((hr.tail hstep).trans hrt).tail hlast,.inl ⟨rfl,hread.saved,?_⟩⟩
  change t.biosDriveId.toNat = dl.toNat
  rw [hread.drive]

/-! ### The volume boot record -/

/-- With `n` attempts left to read this sector. -/
structure VbrAttempt (b : MbrBios σ) (dl : UInt8) (lba n : ℕ) (s : Vbr σ) : Prop where
  label : s.label = if n = 0 then .cantReadIosys else .tryReadIosys
  left : s.cx = n
  few : n ≤ 3
  packet : s.packet = ⟨0x10,0,1,0x7C00,0,lba,0⟩
  next : s.iosysLba = lba
  drive : s.biosDriveId = dl
  screen : s.screen = []
  failed : n < 3 → ReadFails b dl

structure VbrRead (dl : UInt8) (disk : Memory) (lba : ℕ) (s : Vbr σ) : Prop where
  sector : VbrScan.HasSector dl disk lba s
  screen : s.screen = []

theorem tryReadIosys_attempt (hb : Honest b dl disk) {lba n : ℕ} {s : Vbr σ}
    (h : VbrAttempt b dl lba (n+1) s) :
    VbrRead dl disk lba (s.tryReadIosys b.toBios) ∨
      VbrAttempt b dl lba n (s.tryReadIosys b.toBios) := by
  have hn : n < 3 := h.few
  have hcount := hb.count s.bios s.packet s.mem
  have hloaded := hb.transferred s.bios s.packet s.mem
  rw [Vbr.tryReadIosys,h.left,h.drive,u16_countdown hn]
  cases hc : (b.extendedRead s.bios dl s.packet s.mem).carry with
  | false =>
      left
      simp only [Bool.false_eq_true,if_false]
      refine ⟨⟨rfl,h.next,rfl,?_⟩,h.screen⟩
      change Loaded disk lba (b.extendedRead s.bios dl s.packet s.mem).mem
      rw [hloaded hc,h.packet]
      exact VbrScan.loaded_transfer disk s.mem lba
  | true =>
      right
      have hpacket : ({s.packet with sectors :=
          (b.extendedRead s.bios dl s.packet s.mem).sectors} : StageOneLoad.LbaPacket) =
            ⟨0x10,0,1,0x7C00,0,lba,0⟩ := by
        rw [hcount,h.packet]
      have hfails : ReadFails b dl := ⟨_,_,_,hc⟩
      simp only [if_true,hpacket]
      split_ifs with hleft
      · exact ⟨(if_neg hleft).symm,rfl,by omega,rfl,h.next,rfl,h.screen,fun _ => hfails⟩
      · have hz : n = 0 := not_not.mp hleft
        exact ⟨(if_pos hz).symm,rfl,by omega,rfl,h.next,rfl,h.screen,fun _ => hfails⟩

def VbrHung (b : MbrBios σ) (dl : UInt8) (s : Vbr σ) : Prop :=
  s.label = .hangVbr ∧ s.screen = ['#'] ∧ ReadFails b dl

/-- About to read this sector, with nothing on the screen. -/
structure VbrAt (dl : UInt8) (lba : ℕ) (s : Vbr σ) : Prop where
  sector : VbrScan.AtSector dl lba s
  screen : s.screen = []

/-- Up to three attempts at one sector. -/
theorem reaches_vbrRead (hb : Honest b dl disk) {lba : ℕ} {s : Vbr σ} (h : VbrAt dl lba s) :
    ∃ t, Reaches (VbrScan.step b.toBios) s t ∧ (VbrRead dl disk lba t ∨ VbrHung b dl t) := by
  have hstart : s.readIoSysLoop ∈ VbrScan.step b.toBios s := by
    rw [VbrScan.step,h.sector.label]
    rfl
  have hfirst : VbrAttempt b dl lba 3 s.readIoSysLoop := by
    refine ⟨rfl,rfl,le_refl 3,?_,h.sector.next,h.sector.drive,h.screen,
      fun h => absurd h (lt_irrefl 3)⟩
    rw [← h.sector.next]
    rfl
  have hattempt : ∀ n s, VbrAttempt b dl lba (n+1) s → ∃ t,
      Reaches (VbrScan.step b.toBios) s t ∧ (VbrRead dl disk lba t ∨ VbrAttempt b dl lba n t) := by
    intro n s hs
    refine ⟨s.tryReadIosys b.toBios,.single ?_,tryReadIosys_attempt hb hs⟩
    rw [VbrScan.step,hs.label]
    rfl
  obtain ⟨t,hr,hread | hlost⟩ := reaches_countdown hattempt hfirst
  · exact ⟨t,.head hstart hr,.inl hread⟩
  · have hlabel : t.label = .cantReadIosys := hlost.label
    have hs : {t with label := .hangVbr, screen := t.screen++['#']} ∈
        VbrScan.step b.toBios t := by
      rw [VbrScan.step,hlabel]
      rfl
    have hr' : Reaches (VbrScan.step b.toBios) s t := .head hstart hr
    refine ⟨_,hr'.tail hs,.inr ⟨rfl,?_,hlost.failed (by decide)⟩⟩
    change t.screen++['#'] = ['#']
    rw [hlost.screen]
    rfl

/-- A sector without both marks is passed over. -/
theorem reaches_vbrNext (hb : Honest b dl disk) {lba : ℕ} {s : Vbr σ} (h : VbrAt dl lba s)
    (hm : ¬Marked disk lba) (hl : lba+1 < 4294967296) :
    ∃ t, Reaches (VbrScan.step b.toBios) s t ∧ (VbrAt dl (lba+1) t ∨ VbrHung b dl t) := by
  obtain ⟨t,hr,hread | hhung⟩ := reaches_vbrRead hb h
  swap
  · exact ⟨t,hr,.inr hhung⟩
  have h₁ : t.iosysSecReadOk ∈ VbrScan.step b.toBios t := by
    rw [VbrScan.step,hread.sector.label]
    rfl
  rw [hread.sector.passed hm] at h₁
  have h₂ : Vbr.checkNextSec {t with label := .checkNextSec} ∈
      VbrScan.step b.toBios {t with label := .checkNextSec} := rfl
  refine ⟨_,(hr.tail h₁).tail h₂,.inl ⟨⟨rfl,?_,hread.sector.drive⟩,hread.screen⟩⟩
  change u32 (t.iosysLba+1) = lba+1
  rw [hread.sector.next,u32_of_lt hl]

/-- `n` sectors before the marked one. -/
def VbrBefore (dl : UInt8) (part lba n : ℕ) (s : Vbr σ) : Prop :=
  n ≤ lba-(part+2) ∧ VbrAt dl (lba-n) s

/-- The scan comes to the first sector with both marks and passes it on, or hangs. -/
theorem reaches_ioSys (hb : Honest b dl disk) {part lba : ℕ} (hd : Bootable disk part lba)
    (bios : σ) (mem : Memory) :
    ∃ t, Reaches (VbrScan.step b.toBios) (VbrScan.start dl part bios mem) t ∧
      ((t.label = .ioSys ∧ t.ebx = lba ∧ t.edx = dl.toNat) ∨ VbrHung b dl t) := by
  obtain ⟨⟨hle,hmark⟩,hleast⟩ := hd.first
  have hsmall := hd.small
  have hscan : ∀ n s, VbrBefore dl part lba (n+1) s → ∃ t,
      Reaches (VbrScan.step b.toBios) s t ∧ (VbrHung b dl t ∨ VbrBefore dl part lba n t) := by
    intro n s hs
    have hn := hs.1
    have hm : ¬Marked disk (lba-(n+1)) := by
      intro hm
      have hmin := hleast ⟨(by omega : part+2 ≤ lba-(n+1)),hm⟩
      omega
    obtain ⟨t,hr,hnext | hhung⟩ := reaches_vbrNext hb hs.2 hm (by omega)
    · rw [show lba-(n+1)+1 = lba-n by omega] at hnext
      exact ⟨t,hr,.inr ⟨by omega,hnext⟩⟩
    · exact ⟨t,hr,.inl hhung⟩
  have hstart : (VbrScan.start dl part bios mem).afterVbrReloc ∈
      VbrScan.step b.toBios (VbrScan.start dl part bios mem) := rfl
  have hfirst : VbrBefore dl part lba (lba-(part+2))
      (VbrScan.start dl part bios mem).afterVbrReloc := by
    refine ⟨le_refl _,⟨rfl,?_,rfl⟩,rfl⟩
    change u32 (part+2) = _
    rw [u32_of_lt (by omega)]
    omega
  obtain ⟨s,hrs,hend⟩ := reaches_countdown hscan hfirst
  have hr : Reaches (VbrScan.step b.toBios) (VbrScan.start dl part bios mem) s :=
    .head hstart hrs
  rcases hend with hhung | ⟨-,hat⟩
  · exact ⟨s,hr,.inr hhung⟩
  obtain ⟨t,hrt,hread | hhung⟩ := reaches_vbrRead hb hat
  swap
  · exact ⟨t,hr.trans hrt,.inr hhung⟩
  have h₁ : t.iosysSecReadOk ∈ VbrScan.step b.toBios t := by
    rw [VbrScan.step,hread.sector.label]
    rfl
  rw [hread.sector.found hmark] at h₁
  have h₂ : Vbr.iosysFound {t with label := .iosysFound} ∈
      VbrScan.step b.toBios {t with label := .iosysFound} := rfl
  refine ⟨_,((hr.trans hrt).tail h₁).tail h₂,.inl ⟨rfl,hread.sector.next,?_⟩⟩
  change t.biosDriveId.toNat = dl.toNat
  rw [hread.sector.drive]

/-! ### Stage 1 -/

/-- With `n` attempts left to read chunk `i`. -/
structure StageAttempt (b : MbrBios σ) (dl : UInt8) (disk : Memory) (lba i n : ℕ)
    (s : Stage σ) : Prop where
  label : s.label = if n = 0 then .cantRead else .tryRead
  left : s.cx = n
  few : n ≤ 3
  packet : s.packet = ⟨0x10,0,64,0,0x1000+0x800*i,lba,0⟩
  chunks : s.iosysCount = 12-i
  drive : s.biosDriveId = dl
  screen : s.screen = []
  filled : Filled disk lba (64*i) s.mem
  failed : n < 3 → ReadFails b dl

structure StageRead (dl : UInt8) (disk : Memory) (lba i : ℕ) (s : Stage σ) : Prop where
  label : s.label = .readDone
  packet : s.packet = ⟨0x10,0,64,0,0x1000+0x800*i,lba,0⟩
  chunks : s.iosysCount = 12-i
  drive : s.biosDriveId = dl
  screen : s.screen = []
  filled : Filled disk lba (64*(i+1)) s.mem

theorem tryRead_attempt (hb : Honest b dl disk) {lba i n : ℕ} {s : Stage σ}
    (h : StageAttempt b dl disk lba i (n+1) s) :
    StageRead dl disk lba i (s.tryRead b.toBios) ∨
      StageAttempt b dl disk lba i n (s.tryRead b.toBios) := by
  have hn : n < 3 := h.few
  have hcount := hb.count s.bios s.packet s.mem
  have hloaded := hb.transferred s.bios s.packet s.mem
  have hbuffer := hb.buffer s.bios s.packet s.mem
  have hpacket : ({s.packet with sectors :=
      (b.extendedRead s.bios dl s.packet s.mem).sectors} : StageOneLoad.LbaPacket) =
        ⟨0x10,0,64,0,0x1000+0x800*i,lba,0⟩ := by
    rw [hcount,h.packet]
  rw [Stage.tryRead,h.left,h.drive,u16_countdown hn]
  cases hc : (b.extendedRead s.bios dl s.packet s.mem).carry with
  | false =>
      left
      simp only [Bool.false_eq_true,if_false,hpacket]
      refine ⟨rfl,rfl,h.chunks,rfl,h.screen,?_⟩
      change Filled disk lba (64*(i+1)) (b.extendedRead s.bios dl s.packet s.mem).mem
      rw [hloaded hc,h.packet]
      exact StageOneLoad.filled_transfer h.filled
  | true =>
      right
      have hfails : ReadFails b dl := ⟨_,_,_,hc⟩
      -- the chunks before lie below the buffer
      have hfilled : Filled disk lba (64*i) (b.extendedRead s.bios dl s.packet s.mem).mem := by
        intro k hk t ht
        rw [hbuffer hc,h.filled k hk t ht]
        rw [h.packet]
        dsimp only
        omega
      simp only [if_true,hpacket]
      split_ifs with hleft
      · exact ⟨(if_neg hleft).symm,rfl,by omega,rfl,h.chunks,rfl,h.screen,hfilled,fun _ => hfails⟩
      · have hz : n = 0 := not_not.mp hleft
        exact ⟨(if_pos hz).symm,rfl,by omega,rfl,h.chunks,rfl,h.screen,hfilled,fun _ => hfails⟩

def StageHung (b : MbrBios σ) (dl : UInt8) (s : Stage σ) : Prop :=
  s.label = .haltReal ∧ s.screen = ['#'] ∧ ReadFails b dl

theorem reaches_stageRead (hb : Honest b dl disk) {lba i : ℕ} {s : Stage σ}
    (h : StageAttempt b dl disk lba i 3 s) :
    ∃ t, Reaches (StageOneLoad.step b.toBios) s t ∧
      (StageRead dl disk lba i t ∨ StageHung b dl t) := by
  have hattempt : ∀ n s, StageAttempt b dl disk lba i (n+1) s → ∃ t,
      Reaches (StageOneLoad.step b.toBios) s t ∧
        (StageRead dl disk lba i t ∨ StageAttempt b dl disk lba i n t) := by
    intro n s hs
    refine ⟨s.tryRead b.toBios,.single ?_,tryRead_attempt hb hs⟩
    rw [StageOneLoad.step,hs.label]
    rfl
  obtain ⟨t,hr,hread | hlost⟩ := reaches_countdown hattempt h
  · exact ⟨t,hr,.inl hread⟩
  · have hlabel : t.label = .cantRead := hlost.label
    have hs : {t with label := .haltReal, screen := t.screen++['#']} ∈
        StageOneLoad.step b.toBios t := by
      rw [StageOneLoad.step,hlabel]
      rfl
    refine ⟨_,hr.tail hs,.inr ⟨rfl,?_,hlost.failed (by decide)⟩⟩
    change t.screen++['#'] = ['#']
    rw [hlost.screen]
    rfl

/-- At the jump to 1000:0000, with the twelve chunks behind it. -/
structure Loads (dl : UInt8) (disk : Memory) (lba : ℕ) (s : Stage σ) : Prop where
  label : s.label = .loadFinished
  drive : s.biosDriveId = dl
  filled : Filled disk (lba+1) 768 s.mem

/-- With `n` chunks left. -/
def ChunksLeft (b : MbrBios σ) (dl : UInt8) (disk : Memory) (lba : ℕ) : ℕ → Stage σ → Prop
  | 0,s => Loads dl disk lba s
  | n+1,s => n < 12 ∧ StageAttempt b dl disk (lba+1) (11-n) 3 s

theorem readDone_drive (s : Stage σ) : s.readDone.biosDriveId = s.biosDriveId := by
  rw [Stage.readDone,apply_ite Stage.biosDriveId,ite_self]

theorem readDone_screen (s : Stage σ) : s.readDone.screen = s.screen := by
  rw [Stage.readDone,apply_ite Stage.screen,ite_self]

theorem readDone_cx {s : Stage σ} {n : ℕ} (hn : u32 (s.iosysCount+4294967295) = n+1) :
    s.readDone.cx = 3 := by
  rw [Stage.readDone]
  simp only [hn,Nat.add_one_ne_zero,if_false]

theorem readDone_chunksLeft {lba n : ℕ} {s : Stage σ} (hn : n < 12)
    (h : StageRead dl disk (lba+1) (11-n) s) : ChunksLeft b dl disk lba n s.readDone := by
  have hchunks := h.chunks
  have hfilled := h.filled
  cases n with
  | zero =>
      obtain ⟨hlabel,hmem⟩ := StageOneLoad.readDone_last (s := s) (by omega)
      refine ⟨hlabel,(readDone_drive s).trans h.drive,?_⟩
      rw [hmem]
      exact hfilled
  | succ n =>
      have hi : 11-(n+1)+1 = 11-n := by omega
      obtain ⟨hlabel,hpacket,hleft,hdata⟩ := StageOneLoad.readDone_next (by omega) h.packet hchunks
        hfilled
      rw [hi] at hpacket hleft hdata
      have hcount : u32 (s.iosysCount+4294967295) = n+1 := by
        rw [hchunks,u32]
        omega
      exact ⟨by omega,hlabel,readDone_cx hcount,le_refl 3,hpacket,hleft,
        (readDone_drive s).trans h.drive,(readDone_screen s).trans h.screen,hdata,
        fun h => absurd h (lt_irrefl 3)⟩

/-- The sector loads its twelve chunks, or halts. -/
theorem reaches_loads (hb : Honest b dl disk) {lba : ℕ} (hsmall : lba+1 < 4294967296) (bios : σ)
    (mem : Memory) :
    ∃ t, Reaches (StageOneLoad.step b.toBios) (StageOneLoad.start dl lba bios mem) t ∧
      (Loads dl disk lba t ∨ StageHung b dl t) := by
  have hchunk : ∀ n s, ChunksLeft b dl disk lba (n+1) s → ∃ t,
      Reaches (StageOneLoad.step b.toBios) s t ∧
        (StageHung b dl t ∨ ChunksLeft b dl disk lba n t) := by
    intro n s hs
    obtain ⟨t,hr,hread | hhung⟩ := reaches_stageRead hb hs.2
    · have hstep : t.readDone ∈ StageOneLoad.step b.toBios t := by
        rw [StageOneLoad.step,hread.label]
        rfl
      exact ⟨_,hr.tail hstep,.inr (readDone_chunksLeft hs.1 hread)⟩
    · exact ⟨t,hr,.inl hhung⟩
  have hstart : (StageOneLoad.start dl lba bios mem).selfLoad ∈
      StageOneLoad.step b.toBios (StageOneLoad.start dl lba bios mem) := rfl
  have hfirst : ChunksLeft b dl disk lba 12 (StageOneLoad.start dl lba bios mem).selfLoad := by
    obtain ⟨hlabel,hpacket,hleft,hdata⟩ := StageOneLoad.atChunk_zero dl lba bios disk mem
    rw [u32_of_lt hsmall] at hpacket hdata
    exact ⟨by decide,hlabel,rfl,le_refl 3,hpacket,hleft,rfl,rfl,hdata,
      fun h => absurd h (lt_irrefl 3)⟩
  obtain ⟨t,hr,hhung | hloads⟩ := reaches_countdown hchunk hfirst
  · exact ⟨t,.head hstart hr,.inr hhung⟩
  · exact ⟨t,.head hstart hr,.inl hloads⟩

/-! ### The chain -/

/-- Where a run may end: at the second stage or at a mark on the screen. -/
def Outcome (b : MbrBios σ) (dl : UInt8) (bios : σ) (Good : Stage σ → Prop) : Chain σ → Prop
  | .inl s => MbrHung b dl bios s
  | .inr (.inl s) => VbrHung b dl s
  | .inr (.inr s) => s.label = .loadFinished ∧ s.biosDriveId = dl ∧ Good s ∨ StageHung b dl s

theorem reaches_outcome (hb : Honest b dl disk) {part lba : ℕ} (hd : Bootable disk part lba)
    {bios : σ} {mem : Memory} (hm : ∀ i < 512, mem (0x7C00+i) = disk i) :
    ∃ s, Reaches (step b) (start dl bios mem) s ∧ Halted (step b) s ∧
      Outcome b dl bios (fun s => Filled disk (lba+1) 768 s.mem) s := by
  have hdl : UInt8.ofNat dl.toNat = dl := UInt8.ofNat_toNat
  obtain ⟨s,hrs,⟨hlabel,hebx,hedx⟩ | hhung⟩ := reaches_volume hb hd hm
  swap
  · refine ⟨.inl s,reaches_inl hrs,.inl ?_,hhung⟩
    rw [MbrSelect.step,hhung.1]
  have hend : MbrSelect.step b s = none := by
    rw [MbrSelect.step,hlabel]
  obtain ⟨v,hrv,hfound⟩ := reaches_ioSys hb hd s.bios
    (blit s.mem 0x600 512 fun i => s.mem (0x7C00+i))
  have henter : enterVbr s = VbrScan.start dl part s.bios
      (blit s.mem 0x600 512 fun i => s.mem (0x7C00+i)) := by
    rw [enterVbr,hebx,hedx,hdl]
  rw [← henter] at hrv
  rcases hfound with ⟨hlabel,hebx,hedx⟩ | hhung
  swap
  · refine ⟨.inr (.inl v),reaches_enter hrs hend (reaches_inl hrv),.inr (.inl ?_),hhung⟩
    rw [VbrScan.step,hhung.1]
  have hend' : VbrScan.step b.toBios v = none := by
    rw [VbrScan.step,hlabel]
  obtain ⟨t,hrt,hloads⟩ := reaches_loads hb hd.small v.bios v.mem
  have henter' : enterIoSys v = StageOneLoad.start dl lba v.bios v.mem := by
    rw [enterIoSys,hebx,hedx,hdl]
  rw [← henter'] at hrt
  refine ⟨.inr (.inr t),reaches_enter hrs hend (reaches_enter hrv hend' hrt),.inr (.inr ?_),?_⟩
  · intro c hc
    rcases hloads with hloads | hhung
    · rw [StageOneLoad.step,hloads.label] at hc
      cases hc
    · rw [StageOneLoad.step,hhung.1] at hc
      exact (Option.some.inj hc).symm
  · rcases hloads with hloads | hhung
    · exact .inl ⟨hloads.label,hloads.drive,hloads.filled⟩
    · exact .inr hhung

/-! ### Images of the builder -/

/-- The twelve chunks hold the sectors of IO.SYS behind the first, the same 64 again
and again, and so all of an IO.SYS of at most 65 sectors. -/
structure HoldsIoSys (f : HostFile) (s : Stage σ) : Prop where
  chunks : ∀ i < 0x60000, 512+i%0x8000 < f.size → s.mem (0x10000+i) = f.data (512+i%0x8000)
  whole : f.size ≤ 512*65 → ∀ i, 512+i < f.size → s.mem (0x10000+i) = f.data (512+i)

theorem filled_holdsIoSys {lba : ℕ} {f : HostFile} {s : Stage σ}
    (h : Filled disk (lba+1) 768 s.mem) (hf : HoldsFile disk lba f) : HoldsIoSys f s := by
  have hchunks : ∀ i < 0x60000, 512+i%0x8000 < f.size →
      s.mem (0x10000+i) = f.data (512+i%0x8000) := by
    intro i hi hin
    have hbyte := h (i/512) (by omega) (i%512) (by omega)
    rw [show 0x10000+512*(i/512)+i%512 = 0x10000+i by omega,
      show 512*(lba+1+i/512%64)+i%512 = 512*lba+(512+i%0x8000) by omega] at hbyte
    rw [hbyte,hf _ hin]
  refine ⟨hchunks,fun hsmall i hi => ?_⟩
  have hfirst : i%0x8000 = i := Nat.mod_eq_of_lt (by omega)
  have hbyte := hchunks i (by omega) (by omega)
  rwa [hfirst] at hbyte

section Image
variable {inp : Inputs}

theorem main_mbr (h : FitImage inp) {x : ℕ} (hx : x < 512) :
    (main inp).disk x = writeMbr inp.mbr (fun _ => 0) x := by
  have ho : bootSectors inp.mbr inp.vbr x = writeMbr inp.mbr (fun _ => 0) x :=
    bootSectors_outside (by omega) (by omega)
  rw [main_reserved h (by omega),← ho]
  split_ifs
  · exact blit_outside (by omega)
  · rfl

theorem main_startLba (h : FitImage inp) : startLba (main inp).disk 0 = 2048 := by
  have hload : startLba (main inp).disk 0 = load 4 (writeMbr inp.mbr fun _ => 0) 454 :=
    load_congr fun i hi => main_mbr h (by unfold MbrSelect.partitionTable; omega)
  rw [hload]
  rfl

theorem load_signature {m : Memory} {a : ℕ} (h₀ : m a = 0x55) (h₁ : m (a+1) = 0xAA) :
    load 2 m a = 0xAA55 := by
  rw [load,load,load,h₀,h₁]
  decide

theorem main_recordSignature (h : FitImage inp) : load 2 (main inp).disk 510 = 0xAA55 :=
  load_signature ((main_mbr h (by decide)).trans rfl) ((main_mbr h (by decide)).trans rfl)

theorem main_volumeSignature (h : FitImage inp) :
    load 2 (main inp).disk (512*2048+510) = 0xAA55 :=
  load_signature ((main_sectors h (i := 510) (by decide)).1.trans rfl)
    ((main_sectors h (i := 511) (by decide)).1.trans rfl)

theorem image_bootable (h : FitImage inp) (hio : IoSysMarked inp.ioSys) :
    Bootable (main inp).disk 2048 (ioSysLba inp) where
  record := main_recordSignature h
  selected := ⟨0,.inl ⟨by decide,(main_mbr h (by decide)).trans rfl,
    fun j hj => absurd hj (Nat.not_lt_zero j)⟩,main_startLba h⟩
  volume := main_volumeSignature h
  first := VbrScan.main_first h hio
  small := by
    unfold ioSysLba
    split_ifs <;> omega

/-- A run over a finished image ends, and wherever it ends it has either started the
second stage with IO.SYS in memory and the drive in DL, or it shows why not. -/
theorem chain_boots {b : MbrBios σ} {dl : UInt8} {bios : σ} {mem : Memory} (h : FitImage inp)
    (hio : IoSysMarked inp.ioSys) (hb : Honest b dl (main inp).disk)
    (hm : ∀ i < 512, mem (0x7C00+i) = (main inp).disk i) :
    (∃ s, Reaches (step b) (start dl bios mem) s ∧ Halted (step b) s) ∧
      ∀ s, Reaches (step b) (start dl bios mem) s → Halted (step b) s →
        Outcome b dl bios (HoldsIoSys inp.ioSys) s := by
  obtain ⟨s,hr,hhalt,hout⟩ := reaches_outcome hb (image_bootable h hio) hm
  refine ⟨⟨s,hr,hhalt⟩,forall_halted hr hhalt ?_⟩
  rcases s with s | s | s
  · exact hout
  · exact hout
  · rcases hout with ⟨hlabel,hdrive,hfilled⟩ | hhung
    · exact .inl ⟨hlabel,hdrive,filled_holdsIoSys hfilled (VbrScan.main_holdsIoSys h)⟩
    · exact .inr hhung

/-- Two reads of three fail. -/
def flakyBios (disk : Memory) : MbrBios ℕ where
  extendedRead n _ p mem :=
    if n%3 = 2 then ⟨false,n+1,p.sectors,transfer disk p mem⟩ else ⟨true,n+1,p.sectors,mem⟩
  resetDisk n _ := n
  checkExtensions n _ := ⟨false,0xAA55,1,n⟩

theorem flakyBios_honest (disk : Memory) (dl : UInt8) : Honest (flakyBios disk) dl disk where
  count n p mem := by
    simp only [flakyBios]
    split_ifs
    · rfl
    · rfl
  transferred n p mem := by
    simp only [flakyBios]
    split_ifs
    · exact fun _ => rfl
    · exact fun h => absurd h (by decide)
  buffer n p mem := by
    simp only [flakyBios]
    split_ifs
    · exact fun h => absurd h (by decide)
    · exact fun _ _ _ => rfl

theorem chain_boots_flaky :
    let b := flakyBios (main VbrScan.largeIoSys).disk
    let s₀ := start 0x80 0 fun x => (main VbrScan.largeIoSys).disk (x-0x7C00)
    (∃ s, Reaches (step b) s₀ s ∧ Halted (step b) s) ∧
      ∀ s, Reaches (step b) s₀ s → Halted (step b) s →
        Outcome b 0x80 0 (HoldsIoSys VbrScan.largeIoSys.ioSys) s :=
  chain_boots (by decide) ⟨by decide,by decide,by decide⟩ (flakyBios_honest _ _) fun i _ => by
    rw [Nat.add_sub_cancel_left]

end Image

/-! ### A count that is written back -/

/-- A drive that delivers nothing, with the count of each packet set to what it has
delivered, as the extended services do. -/
structure Dead (b : MbrBios σ) (dl : UInt8) : Prop where
  fails : ∀ bios p mem, p.sectors ≠ 0 → (b.extendedRead bios dl p mem).carry = true ∧
    (b.extendedRead bios dl p mem).sectors = 0
  empty : ∀ bios p mem, p.sectors = 0 → (b.extendedRead bios dl p mem).carry = false
  untouched : ∀ bios p mem, (b.extendedRead bios dl p mem).mem = mem

/-- With the record still where the BIOS put it. -/
def InPlace (dl : UInt8) (mbr : Memory) (s : Mbr σ) : Prop :=
  s.biosDriveId = dl ∧ ∀ i < 512, s.mem (0x7C00+i) = mbr i

theorem tryReadVbr_kept (hb : Dead b dl) {mbr : Memory} {s : Mbr σ} (h : InPlace dl mbr s) :
    InPlace dl mbr (s.tryReadVbr b) := by
  obtain ⟨hdrive,hmem⟩ := h
  have hread : ∀ i < 512, (b.extendedRead s.bios s.biosDriveId s.packet s.mem).mem (0x7C00+i) =
      mbr i := by
    intro i hi
    rw [hdrive,hb.untouched,hmem i hi]
  unfold Mbr.tryReadVbr
  dsimp only
  split_ifs
  · exact ⟨hdrive,hread⟩
  · exact ⟨hdrive,hread⟩
  · exact ⟨hdrive,hread⟩

theorem step_inPlace (hb : Dead b dl) {mbr : Memory} {s s' : Mbr σ}
    (hs : s' ∈ MbrSelect.step b s) (h : InPlace dl mbr s) : InPlace dl mbr s' := by
  unfold MbrSelect.step at hs
  cases hl : s.label with
  | normCs =>
      rw [hl] at hs
      cases hs
      unfold Mbr.normCs
      split_ifs
      · exact h
      · have hout : ∀ i, blit s.mem 0x600 512 (fun i => s.mem (0x7C00+i)) (0x7C00+i) =
            s.mem (0x7C00+i) := fun i => blit_outside (by omega)
        exact ⟨h.1,fun i hi => (hout i).trans (h.2 i hi)⟩
  | afterReloc =>
      rw [hl] at hs
      cases hs
      unfold Mbr.afterReloc
      dsimp only
      split_ifs
      · exact h
      · exact h
      · exact h
      · exact h
  | findLoop =>
      rw [hl] at hs
      cases hs
      unfold Mbr.findLoop
      dsimp only
      split_ifs
      · exact h
      · exact h
      · exact h
  | tryReadVbr =>
      rw [hl] at hs
      cases hs
      exact tryReadVbr_kept hb h
  | readVbrOk =>
      rw [hl] at hs
      cases hs
      unfold Mbr.readVbrOk
      split_ifs
      · exact h
      · exact h
  | vbr =>
      rw [hl] at hs
      cases hs
  | findActivePart =>
      rw [hl] at hs
      cases hs
      exact h
  | foundActive =>
      rw [hl] at hs
      cases hs
      exact h
  | cantReadVbr =>
      rw [hl] at hs
      cases hs
      exact h
  | hangMbr =>
      rw [hl] at hs
      cases hs
      exact h
  | noLba =>
      rw [hl] at hs
      cases hs
      exact h
  | badSign =>
      rw [hl] at hs
      cases hs
      exact h

theorem reaches_inPlace (hb : Dead b dl) {mbr : Memory} {s s' : Mbr σ}
    (hr : Reaches (MbrSelect.step b) s s') (h : InPlace dl mbr s) : InPlace dl mbr s' := by
  induction hr with
  | refl => exact h
  | tail _ hs ih => exact step_inPlace hb hs ih

/-- The second attempt asks for what the first has left in the packet, which is nothing. -/
theorem dead_attempts (hb : Dead b dl) {s : Mbr σ} (hlabel : s.label = .tryReadVbr)
    (hcx : s.cx = 3) (hdrive : s.biosDriveId = dl) (hpacket : s.packet.sectors ≠ 0) :
    ∃ t, Reaches (MbrSelect.step b) s t ∧ t.label = .readVbrOk := by
  obtain ⟨hcarry,hcount⟩ := hb.fails s.bios s.packet s.mem hpacket
  set t := s.tryReadVbr b with ht
  have hfirst : t.label = .tryReadVbr ∧ t.packet.sectors = 0 ∧ t.biosDriveId = dl := by
    rw [ht,Mbr.tryReadVbr,hdrive,hcx]
    simp only [hcarry,if_true]
    exact ⟨rfl,hcount,rfl⟩
  have hstep : t ∈ MbrSelect.step b s := by
    rw [MbrSelect.step,hlabel]
    rfl
  have hstep' : t.tryReadVbr b ∈ MbrSelect.step b t := by
    rw [MbrSelect.step,hfirst.1]
    rfl
  have hr : Reaches (MbrSelect.step b) s t := .single hstep
  refine ⟨t.tryReadVbr b,hr.tail hstep',?_⟩
  have hempty := hb.empty t.bios t.packet t.mem hfirst.2.1
  rw [Mbr.tryReadVbr,hfirst.2.2]
  simp only [hempty,Bool.false_eq_true,if_false]

/-- From such a drive the record loads nothing, takes its own signature for that of the
volume and jumps to itself. -/
theorem dead_reenters {bios : σ} {mem : Memory} (hb : Dead b dl) (he : Extended b dl bios)
    (hsign : load 2 mem 0x7DFE = 0xAA55) :
    ∃ s ∈ eval (MbrSelect.step b) (MbrSelect.start dl bios mem), s.label = .vbr ∧
      s.edx = dl.toNat ∧ ∀ i < 512, s.mem (0x7C00+i) = mem (0x7C00+i) := by
  have hsig : load 2 (fun i => mem (0x7C00+i)) 510 = 0xAA55 := hsign
  obtain ⟨s,hrs,hscan | ⟨-,-,hno⟩⟩ := reaches_mbrScan (b := b)
    (fun _ _ => rfl) hsig
  swap
  · exact absurd he hno
  obtain ⟨c,hrc,hchosen⟩ := reaches_mbrChosen (b := b) hscan
  have hstep : c.foundActive ∈ MbrSelect.step b c := by
    rw [MbrSelect.step,hchosen.label]
    rfl
  obtain ⟨old,hpacket⟩ := hchosen.packet
  have hsectors : c.foundActive.packet.sectors ≠ 0 := by
    change c.packet.sectors ≠ 0
    rw [hpacket]
    exact Nat.one_ne_zero
  obtain ⟨t,hrt,hlabel⟩ := dead_attempts hb (s := c.foundActive) rfl rfl hchosen.drive hsectors
  have hr := ((hrs.trans hrc).tail hstep).trans hrt
  obtain ⟨hdrive,hmem⟩ := reaches_inPlace hb hr
    ⟨rfl,fun _ _ => rfl⟩
  have hsign' : load 2 t.mem 0x7DFE = 0xAA55 := by
    rw [← hsign]
    apply load_congr
    intro i hi
    rw [show 0x7DFE+i = 0x7C00+(510+i) by omega]
    exact hmem (510+i) (by omega)
  have hlast : {t with label := .vbr, ebx := t.savedPartLba, edx := t.biosDriveId.toNat} ∈
      MbrSelect.step b t := by
    rw [MbrSelect.step,hlabel]
    change some t.readVbrOk = some _
    rw [Mbr.readVbrOk,if_neg (not_not.mpr hsign')]
  refine ⟨_,mem_eval.mpr ⟨hr.tail hlast,rfl⟩,rfl,?_,hmem⟩
  change t.biosDriveId.toNat = dl.toNat
  rw [hdrive]

def deadBios : MbrBios Unit where
  extendedRead _ _ p mem := ⟨decide (p.sectors ≠ 0),(),0,mem⟩
  resetDisk _ _ := ()
  checkExtensions _ _ := ⟨false,0xAA55,1,()⟩

theorem dead_reenters_deadBios :
    let mem := store 2 (fun _ => 0) 0x7DFE 0xAA55
    ∃ s ∈ eval (MbrSelect.step deadBios) (MbrSelect.start 0x80 () mem), s.label = .vbr ∧
      s.edx = 128 ∧ ∀ i < 512, s.mem (0x7C00+i) = mem (0x7C00+i) :=
  dead_reenters
    ⟨fun _ _ _ h => ⟨decide_eq_true h,rfl⟩,fun _ _ _ h => decide_eq_false (not_not.mpr h),
      fun _ _ _ => rfl⟩
    ⟨rfl,rfl,by decide⟩ (by decide)

end Gemiboot.BootChain
