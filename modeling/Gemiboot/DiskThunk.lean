import Gemiboot.StageOneLoad

/-!
# Raw disk reads from protected mode

`bios_disk_read_raw` of `io32.S` fills in the packet and its thunk in `io16.S` makes
up to three attempts with it. The BIOS is a sequence of outcomes, of which only the
EDD interface is used: a call that fails has transferred some of the blocks and left
their number in the packet. The packet is not part of the buffer.
-/
namespace Gemiboot.DiskThunk
open ByteMemory StageOneLoad

/-- What one INT 13h/42h does; it cannot transfer more blocks than the packet says. -/
inductive Outcome where
  | success
  | failure (blocks : ℕ)
  deriving DecidableEq

def Outcome.Fails : Outcome → Prop
  | .success => False
  | .failure _ => True

instance (o : Outcome) : Decidable o.Fails := by
  cases o with
  | success => exact isFalse id
  | failure _ => exact isTrue trivial

def extendedRead (disk : Memory) (o : Outcome) (p : LbaPacket) (mem : Memory) :
    ReadResult Unit :=
  match o with
  | .success => ⟨false,(),p.sectors,transfer disk p mem⟩
  | .failure blocks =>
      let p := {p with sectors := min blocks p.sectors}
      ⟨true,(),p.sectors,transfer disk p mem⟩

structure Thunk where
  ebx : ℕ
  dap : LbaPacket
  mem : Memory

/-- `try_thunk_int13` with what is left in CX, for the outcomes from `i` on. A failure
resets the drive and tries again with the same packet. -/
def tryThunkInt13 (disk : Memory) (outcome : ℕ → Outcome) : ℕ → ℕ → Thunk → Thunk
  | 0,_,s => {s with ebx := 1}
  | cx+1,i,s =>
      let r := extendedRead disk (outcome i) s.dap s.mem
      let s := {s with dap := {s.dap with sectors := r.sectors}, mem := r.mem}
      if r.carry then tryThunkInt13 disk outcome cx (i+1) s
      else {s with ebx := 0}

/-- The packet for a read. -/
def dapPacket (lba : UInt32) (sectors segment offset : UInt16) : LbaPacket :=
  ⟨0x10,0,sectors.toNat,offset.toNat,segment.toNat,lba.toNat,0⟩

/-- The value in EAX and the memory. -/
def biosDiskReadRaw (disk : Memory) (outcome : ℕ → Outcome) (lba : UInt32)
    (sectors segment offset : UInt16) (mem : Memory) : ℕ × Memory :=
  let s := tryThunkInt13 disk outcome 3 0 ⟨0,dapPacket lba sectors segment offset,mem⟩
  (s.ebx,s.mem)

/-! ### Blocks in the buffer -/

/-- The packet's blocks are in its buffer. -/
def Held (disk : Memory) (p : LbaPacket) (mem : Memory) : Prop :=
  ∀ t < 512*p.sectors,
    mem (16*p.segment+p.offset+t) = disk (512*(p.lba+4294967296*p.padding)+t)

theorem held_transfer (disk : Memory) (p : LbaPacket) (mem : Memory) :
    Held disk p (transfer disk p mem) := by
  intro t ht
  exact blit_at ht

theorem transfer_of_held {disk : Memory} {p : LbaPacket} {mem : Memory} (h : Held disk p mem) :
    transfer disk p mem = mem := by
  funext x
  unfold transfer
  by_cases hx : 16*p.segment+p.offset ≤ x ∧ x < 16*p.segment+p.offset+512*p.sectors
  · rw [blit_inside hx.1 hx.2,← h _ (by omega)]
    congr 1
    omega
  · exact blit_outside (by omega)

theorem Held.mono {disk : Memory} {p : LbaPacket} {mem : Memory} (h : Held disk p mem)
    (blocks : ℕ) : Held disk {p with sectors := min blocks p.sectors} mem := by
  intro t ht
  have hle : min blocks p.sectors ≤ p.sectors := Nat.min_le_right _ _
  exact h t (lt_of_lt_of_le ht (Nat.mul_le_mul_left 512 hle))

/-- More blocks are there exactly when the ones that were not transferred were there
before. -/
theorem held_transfer_iff {disk : Memory} {p : LbaPacket} {mem : Memory} {blocks : ℕ} :
    Held disk p (transfer disk {p with sectors := min blocks p.sectors} mem) ↔
      ∀ t, 512*min blocks p.sectors ≤ t → t < 512*p.sectors →
        mem (16*p.segment+p.offset+t) = disk (512*(p.lba+4294967296*p.padding)+t) := by
  constructor
  · intro h t h₁ h₂
    rw [← h t h₂]
    unfold transfer
    exact (blit_outside (.inr (Nat.add_le_add_left h₁ _))).symm
  · intro h t ht
    by_cases hlt : t < 512*min blocks p.sectors
    · exact held_transfer disk {p with sectors := min blocks p.sectors} mem t hlt
    · rw [← h t (by omega) ht]
      unfold transfer
      exact blit_outside (.inr (Nat.add_le_add_left (Nat.le_of_not_lt hlt) _))

/-! ### The attempts -/

variable {disk : Memory} {outcome : ℕ → Outcome}

/-- Later attempts only repeat blocks of the first. -/
theorem tryThunkInt13_held {cx i : ℕ} {s : Thunk} (h : Held disk s.dap s.mem) :
    (tryThunkInt13 disk outcome cx i s).mem = s.mem := by
  induction cx generalizing i s with
  | zero => rfl
  | succ cx ih =>
      unfold tryThunkInt13 extendedRead
      cases outcome i with
      | success => exact transfer_of_held h
      | failure blocks =>
          have hkeep := transfer_of_held (h.mono blocks)
          simp only [if_true,hkeep]
          exact ih (h.mono blocks)

theorem tryThunkInt13_ebx (cx i : ℕ) (s : Thunk) :
    (tryThunkInt13 disk outcome cx i s).ebx ≠ 0 ↔ ∀ j < cx, (outcome (i+j)).Fails := by
  induction cx generalizing i s with
  | zero => simp [tryThunkInt13]
  | succ cx ih =>
      have hsplit : (∀ j < cx+1, (outcome (i+j)).Fails) ↔
          (outcome i).Fails ∧ ∀ j < cx, (outcome (i+1+j)).Fails := by
        rw [Nat.forall_lt_succ_left]
        simp only [Nat.add_zero,Nat.add_assoc,Nat.add_comm 1]
      rw [hsplit]
      unfold tryThunkInt13 extendedRead
      cases outcome i with
      | success => simp [Outcome.Fails]
      | failure blocks => simp [Outcome.Fails,ih]

theorem tryThunkInt13_success {cx i : ℕ} {s : Thunk} (h : outcome i = .success) :
    (tryThunkInt13 disk outcome (cx+1) i s).mem = transfer disk s.dap s.mem := by
  unfold tryThunkInt13 extendedRead
  rw [h]
  rfl

theorem tryThunkInt13_failure {cx i blocks : ℕ} {s : Thunk} (h : outcome i = .failure blocks) :
    (tryThunkInt13 disk outcome (cx+1) i s).mem =
      transfer disk {s.dap with sectors := min blocks s.dap.sectors} s.mem := by
  unfold tryThunkInt13 extendedRead
  rw [h]
  exact tryThunkInt13_held (held_transfer disk {s.dap with sectors := min blocks s.dap.sectors}
    s.mem)

/-! ### The result -/

/-- The sectors are in the buffer. -/
def Delivered (disk : Memory) (lba : UInt32) (sectors segment offset : UInt16) (mem : Memory) :
    Prop :=
  ∀ t < 512*sectors.toNat, mem (16*segment.toNat+offset.toNat+t) = disk (512*lba.toNat+t)

/-- A result of 0 means that the data was read, and any other one that it could not
be. -/
structure Reliable (disk : Memory) (outcome : ℕ → Outcome) (lba : UInt32)
    (sectors segment offset : UInt16) (mem : Memory) : Prop where
  delivered : (biosDiskReadRaw disk outcome lba sectors segment offset mem).1 = 0 →
    Delivered disk lba sectors segment offset
      (biosDiskReadRaw disk outcome lba sectors segment offset mem).2
  failed : (biosDiskReadRaw disk outcome lba sectors segment offset mem).1 ≠ 0 ↔
    ∀ i < 3, (outcome i).Fails

/-- When the first attempt fails, either the others do too or the sectors behind the
blocks that it has transferred were in the buffer before. -/
def NoShortRetry (disk : Memory) (outcome : ℕ → Outcome) (lba : UInt32)
    (sectors segment offset : UInt16) (mem : Memory) : Prop :=
  ∀ blocks, outcome 0 = .failure blocks → (∀ i < 3, (outcome i).Fails) ∨
    ∀ t, 512*min blocks sectors.toNat ≤ t → t < 512*sectors.toNat →
      mem (16*segment.toNat+offset.toNat+t) = disk (512*lba.toNat+t)

section Result
variable {lba : UInt32} {sectors segment offset : UInt16} {mem : Memory}

theorem held_dapPacket : Held disk (dapPacket lba sectors segment offset) mem ↔
    Delivered disk lba sectors segment offset mem := by
  unfold Held Delivered dapPacket
  simp only [Nat.mul_zero,Nat.add_zero]

theorem biosDiskReadRaw_failed :
    (biosDiskReadRaw disk outcome lba sectors segment offset mem).1 ≠ 0 ↔
      ∀ i < 3, (outcome i).Fails := by
  have h := @tryThunkInt13_ebx disk outcome 3 0 ⟨0,dapPacket lba sectors segment offset,mem⟩
  simp only [Nat.zero_add] at h
  exact h

/-- The data is there after a success at once, and after a failure exactly when
nothing was missing behind the blocks it transferred. -/
theorem delivered_success (h : outcome 0 = .success) :
    Delivered disk lba sectors segment offset
      (biosDiskReadRaw disk outcome lba sectors segment offset mem).2 := by
  rw [← held_dapPacket]
  change Held disk _ (tryThunkInt13 disk outcome (2+1) 0 _).mem
  rw [tryThunkInt13_success h]
  exact held_transfer disk _ mem

theorem delivered_failure {blocks : ℕ} (h : outcome 0 = .failure blocks) :
    Delivered disk lba sectors segment offset
        (biosDiskReadRaw disk outcome lba sectors segment offset mem).2 ↔
      ∀ t, 512*min blocks sectors.toNat ≤ t → t < 512*sectors.toNat →
        mem (16*segment.toNat+offset.toNat+t) = disk (512*lba.toNat+t) := by
  rw [← held_dapPacket]
  change Held disk _ (tryThunkInt13 disk outcome (2+1) 0 _).mem ↔ _
  rw [tryThunkInt13_failure h,held_transfer_iff]
  unfold dapPacket
  simp only [Nat.mul_zero,Nat.add_zero]

end Result

/-- The result can be relied upon exactly when there is no short retry. -/
theorem reliable_iff (disk : Memory) (outcome : ℕ → Outcome) (lba : UInt32)
    (sectors segment offset : UInt16) (mem : Memory) :
    Reliable disk outcome lba sectors segment offset mem ↔
      NoShortRetry disk outcome lba sectors segment offset mem := by
  constructor
  · intro h blocks ho
    by_cases hf : ∀ i < 3, (outcome i).Fails
    · exact .inl hf
    · refine .inr ((delivered_failure ho).mp (h.delivered ?_))
      by_contra hz
      exact hf (h.failed.mp hz)
  · intro h
    refine ⟨fun hz => ?_,biosDiskReadRaw_failed⟩
    cases ho : outcome 0 with
    | success => exact delivered_success ho
    | failure blocks =>
        cases h blocks ho with
        | inl hf => exact absurd hz (biosDiskReadRaw_failed.mpr hf)
        | inr hheld => exact (delivered_failure ho).mpr hheld

/-- One of two blocks is transferred, and then the next attempt succeeds. -/
def mediaError : ℕ → Outcome := fun i => if i = 0 then .failure 1 else .success

/-- The result is 0 and the second sector is missing. -/
theorem mediaError_short :
    let r := biosDiskReadRaw numberedDisk mediaError 2049 2 0x2000 0 fun _ => 0
    r.1 = 0 ∧ ¬Delivered numberedDisk 2049 2 0x2000 0 r.2 := by
  intro r
  have hz : r.1 = 0 := by
    by_contra hne
    have hf := biosDiskReadRaw_failed.mp hne
    revert hf
    decide
  refine ⟨hz,fun hd => ?_⟩
  have ho : mediaError 0 = .failure 1 := rfl
  have hmissing := (delivered_failure ho).mp hd 512 (by decide) (by decide)
  revert hmissing
  decide

end Gemiboot.DiskThunk
