import Gemiboot.FatReader

/-!
# The geometry that is accepted

`fat_init` derives the regions of a volume from nine fields of the boot sector in
32-bit arithmetic. It checks the sector size and nothing else.
-/
namespace Gemiboot.FatReader
open ByteMemory

/-! ### What a descriptor should satisfy -/

/-- The sectors in front of the first cluster. -/
def FatFs.overhead (fs : FatFs) : ℕ :=
  fs.rsvdSecCnt+fs.numFats*fs.fatSize+(fs.rootEntCnt*32+(fs.bytesPerSec-1))/fs.bytesPerSec

/-- The sectors of a cluster, from its LBA on. -/
def clusterRange (fs : FatFs) (cluster : ℕ) : Set ℕ :=
  Set.Ico (clusterToLba fs cluster) (clusterToLba fs cluster+fs.secPerClus)

def IsCluster (fs : FatFs) (cluster : ℕ) : Prop := 2 ≤ cluster ∧ cluster ≤ fs.totalClusters+1

structure UsableGeometry (fs : FatFs) : Prop where
  secPerClus : 1 ≤ fs.secPerClus
  fits : fs.overhead ≤ fs.totalSectors
  clusters : fs.totalClusters = (fs.totalSectors-fs.overhead)/fs.secPerClus
  type : fs.fatType =
    if fs.totalClusters < 4085 then 12 else if fs.totalClusters < 65525 then 16 else 32
  inside : ∀ c, IsCluster fs c → fs.partLba ≤ clusterToLba fs c ∧
    clusterToLba fs c+fs.secPerClus ≤ fs.partLba+fs.totalSectors
  apart : ∀ c c', IsCluster fs c → IsCluster fs c' → c ≠ c' →
    Disjoint (clusterRange fs c) (clusterRange fs c')

/-- No division by zero, no subtraction below zero, and what is accepted is usable. -/
structure SafeInit (read : Disk) (partLba : UInt32) : Prop where
  divides : fatInit read partLba.toNat ≠ .divisionByZero
  subtracts : ∀ bpb, read partLba.toNat = some bpb → load 2 bpb 11 = sectorSize →
    u32 (describe bpb partLba.toNat).overhead ≤ (describe bpb partLba.toNat).totalSectors
  usable : ∀ fs, fatInit read partLba.toNat = .ready fs → UsableGeometry fs

/-! ### The boot sector -/

namespace Bpb

def secPerClus (bpb : Memory) : ℕ := load 1 bpb 13
def totalSectors (bpb : Memory) : ℕ :=
  if load 2 bpb 19 ≠ 0 then load 2 bpb 19 else load 4 bpb 32
def fatSize (bpb : Memory) : ℕ := if load 2 bpb 22 ≠ 0 then load 2 bpb 22 else load 4 bpb 36

/-- Reserved sectors, FATs and root directory, without 32-bit wrap. -/
def overhead (bpb : Memory) : ℕ :=
  load 2 bpb 14+load 1 bpb 16*fatSize bpb+(load 2 bpb 17*32+511)/512

def clusters (bpb : Memory) : ℕ := (totalSectors bpb-overhead bpb)/secPerClus bpb

/-- The first cluster is there, and the last one starts below 2^32. -/
structure Sound (bpb : Memory) (partLba : ℕ) : Prop where
  secPerClus : secPerClus bpb ≠ 0
  fits : overhead bpb ≤ totalSectors bpb
  last : clusters bpb = 0 ∨
    partLba+overhead bpb+(clusters bpb-1)*Bpb.secPerClus bpb < 4294967296

end Bpb

section Describe
variable {bpb : Memory} {p : ℕ}

theorem describe_overhead (hb : load 2 bpb 11 = sectorSize) :
    (describe bpb p).overhead = Bpb.overhead bpb := by
  unfold FatFs.overhead describe Bpb.overhead Bpb.fatSize
  simp only [hb,sectorSize]

theorem totalSectors_lt (bpb : Memory) : Bpb.totalSectors bpb < 4294967296 := by
  have h₂ := load_lt 2 bpb 19
  have h₄ := load_lt 4 bpb 32
  unfold Bpb.totalSectors
  split_ifs <;> omega

theorem describe_dataSec (hb : load 2 bpb 11 = sectorSize) :
    (describe bpb p).dataSec = u32 (p+Bpb.overhead bpb) := by
  change u32 (u32 (p+load 2 bpb 14+u32 (load 1 bpb 16*Bpb.fatSize bpb))+
    (load 2 bpb 17*32+(load 2 bpb 11-1))/load 2 bpb 11) = _
  rw [hb]
  change u32 (u32 (p+load 2 bpb 14+u32 (load 1 bpb 16*Bpb.fatSize bpb))+
    (load 2 bpb 17*32+511)/512) = _
  unfold Bpb.overhead
  generalize load 1 bpb 16*Bpb.fatSize bpb = fats
  simp only [u32]
  omega

/-- When the overhead fits, the cluster count is right. -/
theorem describe_totalClusters (hb : load 2 bpb 11 = sectorSize)
    (hfits : Bpb.overhead bpb ≤ Bpb.totalSectors bpb) :
    (describe bpb p).totalClusters = Bpb.clusters bpb := by
  have ht := totalSectors_lt bpb
  change u32 (Bpb.totalSectors bpb+(4294967296-u32 (load 2 bpb 14+
    u32 (load 1 bpb 16*Bpb.fatSize bpb)+(load 2 bpb 17*32+(load 2 bpb 11-1))/load 2 bpb 11)))/
      Bpb.secPerClus bpb = _
  rw [hb]
  change u32 (Bpb.totalSectors bpb+(4294967296-u32 (load 2 bpb 14+
    u32 (load 1 bpb 16*Bpb.fatSize bpb)+(load 2 bpb 17*32+511)/512)))/Bpb.secPerClus bpb = _
  unfold Bpb.clusters
  unfold Bpb.overhead at hfits ⊢
  congr 1
  generalize load 1 bpb 16*Bpb.fatSize bpb = fats at hfits ⊢
  generalize Bpb.totalSectors bpb = total at ht hfits ⊢
  simp only [u32]
  omega

/-- The first sector of cluster `i+2`. -/
theorem clusterToLba_describe (hb : load 2 bpb 11 = sectorSize)
    (hfits : Bpb.overhead bpb ≤ Bpb.totalSectors bpb) {i : ℕ} (hi : i < Bpb.clusters bpb) :
    clusterToLba (describe bpb p) (i+2) =
        u32 (p+Bpb.overhead bpb+i*Bpb.secPerClus bpb) ∧
      Bpb.overhead bpb+i*Bpb.secPerClus bpb+Bpb.secPerClus bpb ≤ Bpb.totalSectors bpb := by
  have ht := totalSectors_lt bpb
  have hle : i*Bpb.secPerClus bpb+Bpb.secPerClus bpb ≤
      Bpb.totalSectors bpb-Bpb.overhead bpb := by
    calc i*Bpb.secPerClus bpb+Bpb.secPerClus bpb = (i+1)*Bpb.secPerClus bpb := by ring
      _ ≤ Bpb.clusters bpb*Bpb.secPerClus bpb := Nat.mul_le_mul_right _ hi
      _ ≤ Bpb.totalSectors bpb-Bpb.overhead bpb := Nat.div_mul_le_self _ _
  have hlt : i < 4294967296 := by
    have hdiv : Bpb.clusters bpb ≤ Bpb.totalSectors bpb-Bpb.overhead bpb := Nat.div_le_self _ _
    omega
  have hindex : u32 (i+2+4294967294) = i := by
    rw [u32]
    omega
  refine ⟨?_,by omega⟩
  unfold clusterToLba
  rw [describe_dataSec hb,hindex]
  change u32 (u32 (p+Bpb.overhead bpb)+u32 (i*Bpb.secPerClus bpb)) = _
  generalize i*Bpb.secPerClus bpb = x
  simp only [u32]
  omega

theorem exists_index {c n : ℕ} (h : 2 ≤ c ∧ c ≤ n+1) : ∃ i < n, c = i+2 := ⟨c-2,by omega,by omega⟩

theorem describe_usable (hb : load 2 bpb 11 = sectorSize) (h : Bpb.Sound bpb p) :
    UsableGeometry (describe bpb p) := by
  have hclusters := describe_totalClusters (p := p) hb h.fits
  have hlba : ∀ i < Bpb.clusters bpb,
      clusterToLba (describe bpb p) (i+2) = p+Bpb.overhead bpb+i*Bpb.secPerClus bpb ∧
        Bpb.overhead bpb+i*Bpb.secPerClus bpb+Bpb.secPerClus bpb ≤ Bpb.totalSectors bpb := by
    intro i hi
    obtain ⟨hl,hend⟩ := clusterToLba_describe (p := p) hb h.fits hi
    refine ⟨?_,hend⟩
    rw [hl]
    apply u32_of_lt
    cases h.last with
    | inl hz => omega
    | inr hlast =>
        have hmono : i*Bpb.secPerClus bpb ≤ (Bpb.clusters bpb-1)*Bpb.secPerClus bpb :=
          Nat.mul_le_mul_right _ (by omega)
        omega
  constructor
  · exact Nat.pos_of_ne_zero h.secPerClus
  · rw [describe_overhead hb]
    exact h.fits
  · rw [hclusters,describe_overhead hb]
    rfl
  · rfl
  · intro c hc
    unfold IsCluster at hc
    rw [hclusters] at hc
    obtain ⟨i,hi,rfl⟩ := exists_index hc
    obtain ⟨hl,hend⟩ := hlba i hi
    change p ≤ _ ∧ _+Bpb.secPerClus bpb ≤ p+Bpb.totalSectors bpb
    omega
  · intro c c' hc hc' hne
    unfold IsCluster at hc hc'
    rw [hclusters] at hc hc'
    obtain ⟨i,hi,rfl⟩ := exists_index hc
    obtain ⟨i',hi',rfl⟩ := exists_index hc'
    unfold clusterRange
    rw [(hlba i hi).1,(hlba i' hi').1]
    change Disjoint (Set.Ico _ (_+Bpb.secPerClus bpb)) (Set.Ico _ (_+Bpb.secPerClus bpb))
    have hstep : ∀ {a b : ℕ}, a < b →
        a*Bpb.secPerClus bpb+Bpb.secPerClus bpb ≤ b*Bpb.secPerClus bpb := by
      intro a b hab
      calc a*Bpb.secPerClus bpb+Bpb.secPerClus bpb = (a+1)*Bpb.secPerClus bpb := by ring
        _ ≤ b*Bpb.secPerClus bpb := Nat.mul_le_mul_right _ hab
    rw [Set.Ico_disjoint_Ico]
    rcases Nat.lt_or_gt_of_ne (show i ≠ i' by omega) with hlt | hlt
    · have := hstep hlt
      omega
    · have := hstep hlt
      omega

/-- A cluster that starts at 2^32 or later comes out below the volume. -/
theorem sound_of_usable (hb : load 2 bpb 11 = sectorSize) (hp : p < 4294967296)
    (hspc : load 1 bpb 13 ≠ 0) (h : UsableGeometry (describe bpb p)) : Bpb.Sound bpb p := by
  have hfits : Bpb.overhead bpb ≤ Bpb.totalSectors bpb := by
    rw [← describe_overhead (p := p) hb]
    exact h.fits
  refine ⟨hspc,hfits,?_⟩
  by_contra hno
  obtain ⟨hpos,hwrap⟩ := not_or.mp hno
  have ht := totalSectors_lt bpb
  have hlast : Bpb.clusters bpb-1 < Bpb.clusters bpb := by omega
  obtain ⟨hl,hend⟩ := clusterToLba_describe (p := p) hb hfits hlast
  have hc : IsCluster (describe bpb p) (Bpb.clusters bpb-1+2) := by
    unfold IsCluster
    rw [describe_totalClusters hb hfits]
    omega
  have hin := (h.inside _ hc).1
  rw [hl] at hin
  change p ≤ _ at hin
  generalize (Bpb.clusters bpb-1)*Bpb.secPerClus bpb = x at *
  rw [u32] at hin
  have hspc' : 0 < Bpb.secPerClus bpb := Nat.pos_of_ne_zero hspc
  omega

end Describe

/-- What is accepted is usable exactly for the sound boot sectors. -/
theorem safeInit_iff (read : Disk) (partLba : UInt32) : SafeInit read partLba ↔
    ∀ bpb, read partLba.toNat = some bpb → load 2 bpb 11 = sectorSize →
      Bpb.Sound bpb partLba.toNat := by
  have hp : partLba.toNat < 4294967296 := partLba.toNat_lt
  constructor
  · intro h bpb hread hb
    have hspc : load 1 bpb 13 ≠ 0 := by
      intro hz
      apply h.divides
      unfold fatInit
      simp only [hread,hb,hz,ne_eq,not_true_eq_false,if_false,if_true]
    have hinit : fatInit read partLba.toNat = .ready (describe bpb partLba.toNat) := by
      unfold fatInit
      simp only [hread,hb,ne_eq,not_true_eq_false,if_false,if_neg hspc]
    exact sound_of_usable hb hp hspc (h.usable _ hinit)
  · intro h
    constructor
    · intro hdiv
      unfold fatInit at hdiv
      cases hread : read partLba.toNat with
      | none =>
          rw [hread] at hdiv
          cases hdiv
      | some bpb =>
          rw [hread] at hdiv
          dsimp only at hdiv
          split_ifs at hdiv with h₁ h₂
          exact (h bpb hread (not_not.mp h₁)).secPerClus h₂
    · intro bpb hread hb
      rw [describe_overhead hb]
      exact (u32_le _).trans (h bpb hread hb).fits
    · intro fs hfs
      obtain ⟨bpb,hread,hb,-,rfl⟩ := fatInit_ready hfs
      exact describe_usable hb (h bpb hread hb)

/-- 512-byte sectors, and every other field zero. -/
def blankBootSector : Memory := fun i => if i = 12 then 2 else 0

/-- `sec_per_clus` is zero, and it is divided by. -/
theorem blankBootSector_divides :
    fatInit (fun _ => some blankBootSector) 2048 = .divisionByZero ∧
      ¬SafeInit (fun _ => some blankBootSector) 2048 := by
  have hdiv : fatInit (fun _ => some blankBootSector) 2048 = .divisionByZero := by decide +kernel
  exact ⟨hdiv,fun h => h.divides hdiv⟩

end Gemiboot.FatReader
