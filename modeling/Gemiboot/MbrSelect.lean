import Gemiboot.StageOneLoad
import Gemiboot.FatReader

/-!
# The partition the master boot record selects

`bios/mbr.S` moves itself to 0x600, looks for an active entry of its partition table,
loads the first sector of that partition and jumps to it with the LBA in EBX. The
32-bit loader later reads the table again. The BIOS, its packet and its transfers are
those of stage 1; the variables of the record are fields.
-/
namespace Gemiboot.MbrSelect
open ByteMemory StateTransition
open StageOneLoad (Bios LbaPacket u16)
open FatReader (Disk findActivePartitionLba)

/-- What INT 13h/41h leaves in the carry flag, BX and CX. -/
structure ExtensionCheck (σ : Type) where
  carry : Bool
  bx : ℕ
  cx : ℕ
  bios : σ

structure MbrBios (σ : Type) extends Bios σ where
  checkExtensions : σ → UInt8 → ExtensionCheck σ

inductive Label where
  | normCs | afterReloc | findActivePart | findLoop | foundActive | tryReadVbr
  | cantReadVbr | hangMbr | noLba | badSign | readVbrOk | vbr
  deriving DecidableEq

structure Mbr (σ : Type) where
  label : Label
  si : ℕ
  cx : ℕ
  ebx : ℕ
  edx : ℕ
  packet : LbaPacket
  biosDriveId : UInt8
  savedPartLba : ℕ
  screen : List Char
  bios : σ
  mem : Memory

variable {σ : Type}

/-- Offset of the table in the sector. -/
def partitionTable : ℕ := 446

/-- At `norm_cs`, with the drive from DL and the sector at 0x7C00. -/
def start (dl : UInt8) (bios : σ) (mem : Memory) : Mbr σ where
  label := .normCs
  si := 0
  cx := 0
  ebx := 0
  edx := dl.toNat
  packet := ⟨0x10,0,1,0x7C00,0,0,0⟩
  biosDriveId := dl
  savedPartLba := 2048
  screen := []
  bios := bios
  mem := mem

/-- The signature is checked before the record is copied. -/
def Mbr.normCs (s : Mbr σ) : Mbr σ :=
  if load 2 s.mem (0x7C00+510) ≠ 0xAA55 then {s with label := .badSign}
  else {s with label := .afterReloc, mem := blit s.mem 0x600 512 fun i => s.mem (0x7C00+i)}

def Mbr.afterReloc (b : MbrBios σ) (s : Mbr σ) : Mbr σ :=
  let r := b.checkExtensions s.bios s.biosDriveId
  let s := {s with bios := r.bios, ebx := r.bx, cx := r.cx}
  if r.carry then {s with label := .noLba}
  else if r.bx ≠ 0xAA55 then {s with label := .noLba}
  else if r.cx &&& 1 = 0 then {s with label := .noLba}
  else {s with label := .findActivePart}

def Mbr.findActivePart (s : Mbr σ) : Mbr σ :=
  {s with label := .findLoop, si := 0x600+partitionTable, cx := 4}

/-- Behind the loop `si` is set back to the first entry. -/
def Mbr.findLoop (s : Mbr σ) : Mbr σ :=
  if s.mem s.si = 0x80 then {s with label := .foundActive}
  else
    let s := {s with si := u16 (s.si+16), cx := u16 (s.cx+65535)}
    if s.cx ≠ 0 then {s with label := .findLoop}
    else {s with label := .foundActive, si := 0x600+partitionTable}

def Mbr.foundActive (s : Mbr σ) : Mbr σ :=
  let eax := load 4 s.mem (s.si+8)
  {s with label := .tryReadVbr, packet := {s.packet with lba := eax}, savedPartLba := eax, cx := 3}

/-- A failed read is followed by a reset of the disk and `loop try_read_vbr`. -/
def Mbr.tryReadVbr (b : MbrBios σ) (s : Mbr σ) : Mbr σ :=
  let r := b.extendedRead s.bios s.biosDriveId s.packet s.mem
  let s := {s with bios := r.bios, packet := {s.packet with sectors := r.sectors}, mem := r.mem}
  if r.carry then
    let s := {s with bios := b.resetDisk s.bios s.biosDriveId, cx := u16 (s.cx+65535)}
    if s.cx ≠ 0 then {s with label := .tryReadVbr} else {s with label := .cantReadVbr}
  else {s with label := .readVbrOk}

def Mbr.readVbrOk (s : Mbr σ) : Mbr σ :=
  if load 2 s.mem 0x7DFE ≠ 0xAA55 then {s with label := .badSign}
  else {s with label := .vbr, ebx := s.savedPartLba, edx := s.biosDriveId.toNat}

/-- From one label to the next; `vbr` is the jump to 0x7C00. -/
def step (b : MbrBios σ) (s : Mbr σ) : Option (Mbr σ) :=
  match s.label with
  | .normCs => some s.normCs
  | .afterReloc => some (s.afterReloc b)
  | .findActivePart => some s.findActivePart
  | .findLoop => some s.findLoop
  | .foundActive => some s.foundActive
  | .tryReadVbr => some (s.tryReadVbr b)
  | .cantReadVbr => some {s with label := .hangMbr, screen := s.screen++['#']}
  | .hangMbr => some s
  | .noLba => some {s with label := .hangMbr, screen := s.screen++['@']}
  | .badSign => some {s with label := .hangMbr, screen := s.screen++['(']}
  | .readVbrOk => some s.readVbrOk
  | .vbr => none

/-! ### The partition table -/

def Active (mbr : Memory) (i : ℕ) : Prop := mbr (partitionTable+16*i) = 0x80

instance (mbr : Memory) (i : ℕ) : Decidable (Active mbr i) := inferInstanceAs (Decidable (_ = _))

def startLba (mbr : Memory) (i : ℕ) : ℕ := load 4 mbr (partitionTable+16*i+8)

/-- The first active entry, or the first entry when none is active. -/
def Selected (mbr : Memory) (i : ℕ) : Prop :=
  (i < 4 ∧ Active mbr i ∧ ∀ j < i, ¬Active mbr j) ∨ (i = 0 ∧ ∀ j < 4, ¬Active mbr j)

/-- The 32-bit loader skips active entries that start at 0 and has a default. -/
theorem findActivePartitionLba_selected {read : Disk} {mbr : Memory} (hread : read 0 = some mbr)
    {i : ℕ} (hi : Selected mbr i) (hne : startLba mbr i ≠ 0) :
    findActivePartitionLba read = startLba mbr i := by
  unfold findActivePartitionLba
  rw [hread]
  dsimp only
  cases hi with
  | inl hactive =>
      have hfind : (List.range 4).find? (fun i => mbr (446+16*i) = 0x80 ∧
          load 4 mbr (446+16*i+8) ≠ 0) = some i := by
        rw [List.find?_range_eq_some]
        refine ⟨?_,List.mem_range.mpr hactive.1,fun j hj => ?_⟩
        · exact decide_eq_true ⟨hactive.2.1,hne⟩
        · rw [Bool.not_eq_true',decide_eq_false_iff_not]
          exact fun h => hactive.2.2 j hj h.1
      rw [hfind]
      rfl
  | inr hnone =>
      have hfind : (List.range 4).find? (fun i => mbr (446+16*i) = 0x80 ∧
          load 4 mbr (446+16*i+8) ≠ 0) = none := by
        rw [List.find?_range_eq_none]
        intro j hj
        rw [Bool.not_eq_true',decide_eq_false_iff_not]
        exact fun h => hnone.2 j hj h.1
      rw [hfind]
      rw [hnone.1] at hne ⊢
      exact if_pos hne

/-! ### The run -/

/-- The record at 0x600. -/
def Relocated (mbr mem : Memory) : Prop := ∀ i < 512, mem (0x600+i) = mbr i

/-- What holds at each label of a run that starts with this record at 0x7C00. -/
def AtLabel (mbr : Memory) (s : Mbr σ) : Prop :=
  match s.label with
  | .normCs => ∀ i < 512, s.mem (0x7C00+i) = mbr i
  | .afterReloc => Relocated mbr s.mem
  | .findActivePart => Relocated mbr s.mem
  | .findLoop => Relocated mbr s.mem ∧
      ∃ k < 4, s.si = 0x600+partitionTable+16*k ∧ s.cx = 4-k ∧ ∀ j < k, ¬Active mbr j
  | .foundActive => Relocated mbr s.mem ∧
      ∃ i, Selected mbr i ∧ s.si = 0x600+partitionTable+16*i
  | .tryReadVbr => ∃ i, Selected mbr i ∧ s.savedPartLba = startLba mbr i
  | .readVbrOk => ∃ i, Selected mbr i ∧ s.savedPartLba = startLba mbr i
  | .vbr => ∃ i, Selected mbr i ∧ s.ebx = startLba mbr i
  | _ => True

theorem Selected.lt {mbr : Memory} {i : ℕ} (h : Selected mbr i) : i < 4 := by
  cases h with
  | inl hactive => exact hactive.1
  | inr hnone => omega

theorem normCs_atLabel {mbr : Memory} {s : Mbr σ} (h : ∀ i < 512, s.mem (0x7C00+i) = mbr i) :
    AtLabel mbr s.normCs := by
  unfold Mbr.normCs
  split_ifs with hsign
  · trivial
  · change Relocated mbr (blit s.mem 0x600 512 fun i => s.mem (0x7C00+i))
    intro i hi
    rw [blit_at hi,h i hi]

/-- One entry of the table. -/
theorem findLoop_atLabel {mbr : Memory} {s : Mbr σ} (hm : Relocated mbr s.mem) {k : ℕ}
    (hk : k < 4) (hsi : s.si = 0x600+partitionTable+16*k) (hcx : s.cx = 4-k)
    (hno : ∀ j < k, ¬Active mbr j) : AtLabel mbr s.findLoop := by
  have hbyte : s.mem s.si = mbr (partitionTable+16*k) := by
    rw [hsi,Nat.add_assoc]
    apply hm
    unfold partitionTable
    omega
  unfold Mbr.findLoop
  rw [hbyte]
  have hcount : u16 (s.cx+65535) = 3-k := by
    rw [hcx,u16]
    omega
  have hnext : u16 (s.si+16) = 0x600+partitionTable+16*(k+1) := by
    rw [hsi,u16]
    unfold partitionTable
    omega
  by_cases hactive : mbr (partitionTable+16*k) = 0x80
  · rw [if_pos hactive]
    exact ⟨hm,k,.inl ⟨hk,hactive,hno⟩,hsi⟩
  · have hno' : ∀ j < k+1, ¬Active mbr j := by
      intro j hj
      rcases Nat.lt_succ_iff_lt_or_eq.mp hj with hlt | rfl
      · exact hno j hlt
      · exact hactive
    rw [if_neg hactive,hcount]
    dsimp only
    split_ifs with hleft
    · exact ⟨hm,k+1,by omega,hnext,by change 3-k = _; omega,hno'⟩
    · have hlast : k+1 = 4 := by omega
      rw [hlast] at hno'
      exact ⟨hm,0,.inr ⟨rfl,hno'⟩,rfl⟩

theorem foundActive_atLabel {mbr : Memory} {s : Mbr σ} (hm : Relocated mbr s.mem) {i : ℕ}
    (hi : Selected mbr i) (hsi : s.si = 0x600+partitionTable+16*i) :
    AtLabel mbr s.foundActive := by
  refine ⟨i,hi,?_⟩
  change load 4 s.mem (s.si+8) = startLba mbr i
  have hlt := hi.lt
  rw [hsi]
  apply load_congr
  intro t ht
  rw [show 0x600+partitionTable+16*i+8+t = 0x600+(partitionTable+16*i+8+t) by omega]
  apply hm
  unfold partitionTable
  omega

/-- A read changes neither the selection nor what is passed on. -/
theorem tryReadVbr_atLabel {b : MbrBios σ} {mbr : Memory} {s : Mbr σ}
    (h : ∃ i, Selected mbr i ∧ s.savedPartLba = startLba mbr i) :
    AtLabel mbr (s.tryReadVbr b) := by
  have hcases : ∀ (c d : Prop) [Decidable c] [Decidable d] (x y z : Mbr σ), AtLabel mbr x →
      AtLabel mbr y → AtLabel mbr z →
        AtLabel mbr (if c then if d then x else y else z) := by
    intro c d _ _ x y z hx hy hz
    split_ifs
    · exact hx
    · exact hy
    · exact hz
  exact hcases _ _ _ _ _ h trivial h

theorem step_atLabel {b : MbrBios σ} {mbr : Memory} {s s' : Mbr σ} (hs : s' ∈ step b s)
    (h : AtLabel mbr s) : AtLabel mbr s' := by
  unfold AtLabel at h
  unfold step at hs
  cases hl : s.label with
  | normCs =>
      rw [hl] at h hs
      cases hs
      exact normCs_atLabel h
  | afterReloc =>
      rw [hl] at h hs
      cases hs
      unfold Mbr.afterReloc
      dsimp only
      split_ifs
      · trivial
      · trivial
      · trivial
      · exact h
  | findActivePart =>
      rw [hl] at h hs
      cases hs
      exact ⟨h,0,by decide,rfl,rfl,fun j hj => absurd hj (Nat.not_lt_zero j)⟩
  | findLoop =>
      rw [hl] at h hs
      cases hs
      obtain ⟨hm,k,hk,hsi,hcx,hno⟩ := h
      exact findLoop_atLabel hm hk hsi hcx hno
  | foundActive =>
      rw [hl] at h hs
      cases hs
      obtain ⟨hm,i,hi,hsi⟩ := h
      exact foundActive_atLabel hm hi hsi
  | tryReadVbr =>
      rw [hl] at h hs
      cases hs
      exact tryReadVbr_atLabel h
  | readVbrOk =>
      rw [hl] at h hs
      cases hs
      unfold Mbr.readVbrOk
      split_ifs
      · trivial
      · exact h
  | vbr =>
      rw [hl] at hs
      cases hs
  | cantReadVbr =>
      rw [hl] at hs
      cases hs
      trivial
  | hangMbr =>
      rw [hl] at hs
      cases hs
      unfold AtLabel
      rw [hl]
      trivial
  | noLba =>
      rw [hl] at hs
      cases hs
      trivial
  | badSign =>
      rw [hl] at hs
      cases hs
      trivial

theorem reaches_atLabel {b : MbrBios σ} {mbr : Memory} {s s' : Mbr σ}
    (hr : Reaches (step b) s s') (h : AtLabel mbr s) : AtLabel mbr s' := by
  induction hr with
  | refl => exact h
  | tail _ hs ih => exact step_atLabel hs ih

/-- What the record passes on in EBX, unless it is 0, is what the 32-bit loader finds in
the same sector. -/
theorem findActivePartitionLba_ebx (b : MbrBios σ) (dl : UInt8) (bios : σ) (mem mbr : Memory)
    (read : Disk) (hmem : ∀ i < 512, mem (0x7C00+i) = mbr i) (hread : read 0 = some mbr)
    (s : Mbr σ) (hs : Reaches (step b) (start dl bios mem) s) (hl : s.label = .vbr)
    (hne : s.ebx ≠ 0) :
    findActivePartitionLba read = s.ebx ∧ ∃ i, Selected mbr i ∧ s.ebx = startLba mbr i := by
  have hinv : AtLabel mbr s := reaches_atLabel hs hmem
  unfold AtLabel at hinv
  rw [hl] at hinv
  obtain ⟨i,hi,hebx⟩ := hinv
  rw [hebx] at hne ⊢
  exact ⟨findActivePartitionLba_selected hread hi hne,i,hi,rfl⟩

theorem reaches_of_iterate {α : Type} {f : α → Option α} {a c : α} (n : ℕ)
    (h : (fun o => o.bind f)^[n] (some a) = some c) : Reaches f a c := by
  induction n generalizing c with
  | zero =>
      cases h
      exact .refl
  | succ n ih =>
      rw [Function.iterate_succ_apply'] at h
      obtain ⟨d,hd,hstep⟩ := Option.bind_eq_some_iff.mp h
      exact (ih hd).tail hstep

/-- The third entry is active and starts at 4096. -/
def thirdActive : Memory := fun i =>
  if i = 478 then 0x80 else if i = 487 then 0x10 else if i = 455 then 8
  else if i = 510 then 0x55 else if i = 511 then 0xAA else 0

/-- Every read succeeds and leaves a signature. -/
def willingBios : MbrBios Unit where
  extendedRead := fun _ _ p m => ⟨false,(),p.sectors,store 2 m 0x7DFE 0xAA55⟩
  resetDisk := fun _ _ => ()
  checkExtensions := fun _ _ => ⟨false,0xAA55,1,()⟩

theorem findActivePartitionLba_ebx_third :
    findActivePartitionLba (fun lba => if lba = 0 then some thirdActive else none) = 4096 := by
  let s₀ : Mbr Unit := start 0x80 () fun x => thirdActive (x-0x7C00)
  have hrun : ((fun o => o.bind (step willingBios))^[9] (some s₀)).any
      (fun s => s.label = .vbr ∧ s.ebx = 4096) = true := by decide +kernel
  rw [Option.any_eq_true] at hrun
  obtain ⟨s,hs,hend⟩ := hrun
  have hebx := of_decide_eq_true hend
  have h := findActivePartitionLba_ebx willingBios 0x80 () (fun x => thirdActive (x-0x7C00))
    thirdActive (fun lba => if lba = 0 then some thirdActive else none)
    (fun i _ => by rw [Nat.add_sub_cancel_left]) rfl s (reaches_of_iterate 9 hs) hebx.1
    (by rw [hebx.2]; decide)
  exact h.1.trans hebx.2

end Gemiboot.MbrSelect
