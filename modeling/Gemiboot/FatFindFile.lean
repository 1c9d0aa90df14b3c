import Gemiboot.FatReadFile
import Gemiboot.Walks

/-!
# Searching the root directory

When `fat_find_file` ends. The root directory of FAT12 and FAT16 is an area of fixed
size; on FAT32 it is a cluster chain that is followed without a bound.
-/
namespace Gemiboot.FatReader
open ByteMemory ShortNames Walks

/-- The search goes on behind this cluster of the root directory: it is one, all of
its sectors can be read, and no entry is the end or the file. -/
def Passes (fs : FatFs) (read : Disk) (target : Memory) (cluster : ℕ) : Prop :=
  Live fs cluster ∧
    scanSectors read target (clusterToLba fs cluster) fs.secPerClus 0 = none

instance (fs : FatFs) (read : Disk) (target : Memory) (cluster : ℕ) :
    Decidable (Passes fs read target cluster) :=
  inferInstanceAs (Decidable (_ ∧ _))

/-- With enough fuel there is an answer. -/
def SearchEnds (fs : FatFs) (read : Disk) (filename : CString) : Prop :=
  ∃ enough, ∀ fuel, enough ≤ fuel → fatFindFile fuel fs read filename ≠ none

theorem scanChain_none {fs : FatFs} {read : Disk} {target : Memory} {fuel c : ℕ} :
    scanChain fs read target fuel c = none ↔
      ∀ k < fuel, Passes fs read target ((fatGetNextCluster fs read)^[k] c) := by
  induction fuel generalizing c with
  | zero => exact ⟨fun _ k hk => absurd hk (Nat.not_lt_zero k),fun _ => rfl⟩
  | succ fuel ih =>
      rw [Nat.forall_lt_succ_left]
      simp only [Function.iterate_succ_apply,Function.iterate_zero_apply]
      rw [← ih,scanChain]
      by_cases hlive : Live fs c
      · rw [if_pos (live_iff.mp hlive)]
        unfold Passes
        cases scanSectors read target (clusterToLba fs c) fs.secPerClus 0 with
        | none => simp [hlive]
        | some r => simp
      · rw [if_neg fun h => hlive (live_iff.mpr h)]
        simp [Passes,hlive]

/-- Only finitely many clusters are not end marks. -/
theorem passes_finite {fs : FatFs} (h : fs.fatType = 32) (read : Disk) (target : Memory) :
    {c | Passes fs read target c}.Finite := by
  apply (Set.finite_Iio 0x0FFFFFF8).subset
  intro c hc
  have hlt := hc.1.2
  unfold entryBits at hlt
  rw [if_pos h] at hlt
  exact Nat.lt_sub_of_add_lt hlt

theorem searchEnds_of_fixedRoot {fs : FatFs} (h : fs.fatType ≠ 32) (read : Disk)
    (filename : CString) : SearchEnds fs read filename := by
  refine ⟨0,fun fuel _ => ?_⟩
  unfold fatFindFile
  simp only [if_neg h]
  exact Option.some_ne_none _

theorem searchEnds_chain {fs : FatFs} (h : fs.fatType = 32) {read : Disk} {filename : CString} :
    SearchEnds fs read filename ↔
      ¬Returns (fatGetNextCluster fs read)
        (Passes fs read (format83Name filename fun _ => 0)) fs.rootClus := by
  have hrun : ∀ fuel, fatFindFile fuel fs read filename =
      scanChain fs read (format83Name filename fun _ => 0) fuel fs.rootClus := by
    intro fuel
    unfold fatFindFile
    exact if_pos h
  rw [← forever_iff_returns (passes_finite h read _)]
  constructor
  · intro hends hall
    obtain ⟨enough,henough⟩ := hends
    apply henough enough le_rfl
    rw [hrun,scanChain_none]
    exact fun k _ => hall k
  · intro hno
    obtain ⟨n,hn⟩ := not_forall.mp hno
    refine ⟨n+1,fun fuel hfuel hnone => ?_⟩
    rw [hrun,scanChain_none] at hnone
    exact hn (hnone n (by omega))

/-- The search ends exactly when a FAT32 root chain does not come back to a cluster
before one that stops the search. -/
theorem searchEnds_iff (fs : FatFs) (read : Disk) (filename : CString) :
    SearchEnds fs read filename ↔ fs.fatType ≠ 32 ∨
      ¬Returns (fatGetNextCluster fs read)
        (Passes fs read (format83Name filename fun _ => 0)) fs.rootClus := by
  by_cases h : fs.fatType = 32
  · rw [searchEnds_chain h,or_iff_right (not_not_intro h)]
  · exact ⟨fun _ => .inl h,fun _ => searchEnds_of_fixedRoot h read filename⟩

/-- A FAT32 volume where every entry of the table is 2, and all of the root directory
has been deleted. -/
def loopingVolume : Disk := fun lba => some fun i =>
  if lba = 0 then
    if i = 12 then 2 else if i = 13 then 1 else if i = 14 then 1 else if i = 16 then 1
    else if i = 34 then 2 else if i = 37 then 4 else if i = 44 then 2 else 0
  else if lba ≤ 1024 then if i%4 = 0 then 2 else 0
  else 0xE5

/-- The root directory is searched over and over. -/
theorem loopingVolume_no_end : ∃ fs, fatInit loopingVolume 0 = .ready fs ∧
    0 < fs.secPerClus ∧ ¬SearchEnds fs loopingVolume ⟨[0x61],by simp⟩ := by
  have hinit : fatInit loopingVolume 0 =
      .ready ⟨0,512,1,1,1,1024,1025,0,1025,131072,130047,2,32⟩ := by decide +kernel
  refine ⟨_,hinit,by decide,fun h => ?_⟩
  apply (searchEnds_chain rfl).mp h
  refine ⟨0,1,by decide,by decide +kernel,fun k hk => ?_⟩
  obtain rfl : k = 0 := by omega
  constructor <;> decide +kernel

end Gemiboot.FatReader
