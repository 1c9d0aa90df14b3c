import Gemiboot.FatReadFile
import Gemiboot.FirstHits

/-!
# The root directory as one sequence of entries

`fat_find_file` has a loop for the fixed root area and loops for the clusters of a
FAT32 root. Both ask the entries one after the other: entry `n` is in slot `n % 16` of
sector `n / 16` of the directory, and the first entry that decides is the answer.
-/
namespace Gemiboot.FatReader
open ByteMemory ShortNames FirstHits

/-- The call as its caller sees it: the result, and the two output parameters, which
may be NULL. -/
structure FindResult where
  code : ℤ
  firstCluster : Option ℕ
  fileSize : Option ℕ
  deriving DecidableEq

def Search.store (firstCluster fileSize : Option ℕ) : Search → FindResult
  | .found c s => ⟨0,firstCluster.map fun _ => c,fileSize.map fun _ => s⟩
  | .failed => ⟨-1,firstCluster,fileSize⟩

/-- The search comes to this answer. -/
def Answers (fs : FatFs) (read : Disk) (filename : CString) (r : Search) : Prop :=
  ∃ enough, ∀ fuel, enough ≤ fuel → fatFindFile fuel fs read filename = some r

/-- The name that is compared with the entries. -/
def target83 (filename : CString) : Memory := format83Name filename fun _ => 0

def rootAreaSectors (fs : FatFs) : ℕ := (fs.rootEntCnt*32+(fs.bytesPerSec-1))/fs.bytesPerSec

/-- Where sector `k` of the root directory lies, if there is one. -/
def rootSector (fs : FatFs) (read : Disk) (k : ℕ) : Option ℕ :=
  if fs.fatType = 32 then
    if Live fs (clusterAt fs read fs.rootClus (k/fs.secPerClus)) then
      some (sectorLba fs read fs.rootClus k)
    else none
  else if k < rootAreaSectors fs then some (u32 (fs.rootDirSec+k)) else none

def rootBuf (fs : FatFs) (read : Disk) (k : ℕ) : Option Memory :=
  (rootSector fs read k).bind read

/-- The end of the directory, and a sector that cannot be read, end the search. -/
def sectorVerdict (fs : FatFs) (read : Disk) (target : Memory) (k : ℕ) : Option Search :=
  match rootBuf fs read k with
  | none => some .failed
  | some buf => scanSector target buf 16 0

def slotVerdict (fs : FatFs) (read : Disk) (target : Memory) (n : ℕ) : Option Search :=
  match rootBuf fs read (n/16) with
  | none => some .failed
  | some buf => entryVerdict target buf (32*(n%16))

section Levels
variable {fs : FatFs} {read : Disk} {target : Memory}

/-- A sector asks its sixteen slots. -/
theorem sectorVerdict_eq (k : ℕ) : sectorVerdict fs read target k =
    (List.range' (16*k) 16).findSome? (slotVerdict fs read target) := by
  have hslot : ∀ e, 0 ≤ e → e < 0+16 → slotVerdict fs read target (16*k+e) =
      match rootBuf fs read k with
      | none => some .failed
      | some buf => entryVerdict target buf (32*e) := by
    intro e _ he
    unfold slotVerdict
    rw [show (16*k+e)/16 = k by omega,show (16*k+e)%16 = e by omega]
  rw [findSome?_range'_shift,findSome?_range'_congr hslot]
  unfold sectorVerdict
  cases rootBuf fs read k with
  | none => rfl
  | some buf => exact scanSector_eq target buf 16 0

/-- The loop over the sectors from `lba` on. -/
theorem scanSectors_findSome (lba n s : ℕ) : scanSectors read target lba n s =
    (List.range' s n).findSome? fun t =>
      match read (u32 (lba+t)) with
      | none => some .failed
      | some buf => scanSector target buf 16 0 := by
  induction n generalizing s with
  | zero => rfl
  | succ n ih =>
      rw [scanSectors,List.range'_succ,List.findSome?_cons]
      cases read (u32 (lba+s)) with
      | none => rfl
      | some buf =>
          rw [show sectorSize/32 = 16 by rfl]
          dsimp only
          cases scanSector target buf 16 0 with
          | none => exact ih (s+1)
          | some r => rfl

/-- A cluster of a FAT32 root asks its sectors; behind the chain the search is over. -/
def clusterVerdict (fs : FatFs) (read : Disk) (target : Memory) (j : ℕ) : Option Search :=
  if Live fs (clusterAt fs read fs.rootClus j) then
    scanSectors read target (clusterToLba fs (clusterAt fs read fs.rootClus j)) fs.secPerClus 0
  else some .failed

theorem clusterVerdict_eq (h32 : fs.fatType = 32) (hspc : 0 < fs.secPerClus) (j : ℕ) :
    clusterVerdict fs read target j = (List.range' (fs.secPerClus*j) fs.secPerClus).findSome?
      (sectorVerdict fs read target) := by
  have hindex : ∀ t, 0 ≤ t → t < 0+fs.secPerClus → (fs.secPerClus*j+t)/fs.secPerClus = j := by
    intro t _ ht
    rw [Nat.mul_add_div hspc,Nat.div_eq_of_lt (by omega),Nat.add_zero]
  rw [findSome?_range'_shift]
  unfold clusterVerdict
  by_cases hlive : Live fs (clusterAt fs read fs.rootClus j)
  · rw [if_pos hlive,scanSectors_findSome]
    apply findSome?_range'_congr
    intro t h₁ h₂
    have hlba := @sectorLba_add fs read fs.rootClus j t hlive (by omega)
    unfold sectorVerdict rootBuf rootSector
    rw [if_pos h32,hindex t h₁ h₂,if_pos hlive,Nat.mul_comm,hlba,Nat.zero_add]
    rfl
  · rw [if_neg hlive]
    symm
    apply findSome?_range'_const hspc
    intro t h₁ h₂
    unfold sectorVerdict rootBuf rootSector
    rw [if_pos h32,hindex t h₁ h₂,if_neg hlive]
    rfl

theorem scanChain_eq (fuel j : ℕ) : scanChain fs read target fuel (clusterAt fs read fs.rootClus j) =
    (List.range' j fuel).findSome? (clusterVerdict fs read target) := by
  induction fuel generalizing j with
  | zero => rfl
  | succ fuel ih =>
      rw [scanChain,List.range'_succ,List.findSome?_cons]
      unfold clusterVerdict
      by_cases hlive : Live fs (clusterAt fs read fs.rootClus j)
      · rw [if_pos (live_iff.mp hlive),if_pos hlive,clusterAt_succ hlive]
        cases scanSectors read target (clusterToLba fs (clusterAt fs read fs.rootClus j))
          fs.secPerClus 0 with
        | none => exact ih (j+1)
        | some r => rfl
      · rw [if_neg fun h => hlive (live_iff.mpr h),if_neg hlive]

/-- The fixed root area ends behind its last sector. -/
theorem rootArea_eq (h32 : fs.fatType ≠ 32) {r : Search} :
    (scanSectors read target fs.rootDirSec (rootAreaSectors fs) 0).getD .failed = r ↔
      ∃ k, FirstHit (sectorVerdict fs read target) k r := by
  have hsectors : scanSectors read target fs.rootDirSec (rootAreaSectors fs) 0 =
      (List.range' 0 (rootAreaSectors fs)).findSome? (sectorVerdict fs read target) := by
    rw [scanSectors_findSome]
    apply findSome?_range'_congr
    intro t _ ht
    unfold sectorVerdict rootBuf rootSector
    rw [if_neg h32,if_pos (by omega)]
    rfl
  rw [hsectors]
  cases hscan : (List.range' 0 (rootAreaSectors fs)).findSome? (sectorVerdict fs read target) with
  | some r' =>
      obtain ⟨i,-,hi⟩ := findSome?_range_some.mp hscan
      exact hi.eq_iff
  | none =>
      have hend : FirstHit (sectorVerdict fs read target) (rootAreaSectors fs) .failed := by
        constructor
        · unfold sectorVerdict rootBuf rootSector
          rw [if_neg h32,if_neg (Nat.lt_irrefl _)]
          rfl
        · intro j hj
          exact findSome?_range'_none.mp hscan j (Nat.zero_le j) (by omega)
      exact hend.eq_iff

theorem answers_chain (h32 : fs.fatType = 32) (filename : CString) (r : Search) :
    Answers fs read filename r ↔
      ∃ j, FirstHit (clusterVerdict fs read (target83 filename)) j r := by
  have hrun : ∀ fuel, fatFindFile fuel fs read filename =
      (List.range' 0 fuel).findSome? (clusterVerdict fs read (target83 filename)) := by
    intro fuel
    unfold fatFindFile
    rw [if_pos h32]
    exact scanChain_eq fuel 0
  constructor
  · intro h
    obtain ⟨enough,henough⟩ := h
    have hans := henough enough le_rfl
    rw [hrun] at hans
    obtain ⟨j,-,hj⟩ := findSome?_range_some.mp hans
    exact ⟨j,hj⟩
  · intro h
    obtain ⟨j,hj⟩ := h
    refine ⟨j+1,fun fuel hfuel => ?_⟩
    rw [hrun]
    exact findSome?_range_some.mpr ⟨j,hfuel,hj⟩

theorem answers_area (h32 : fs.fatType ≠ 32) (filename : CString) (r : Search) :
    Answers fs read filename r ↔
      ∃ k, FirstHit (sectorVerdict fs read (target83 filename)) k r := by
  have hrun : ∀ fuel, fatFindFile fuel fs read filename =
      some ((scanSectors read (target83 filename) fs.rootDirSec (rootAreaSectors fs) 0).getD
        .failed) := by
    intro fuel
    unfold fatFindFile
    exact if_neg h32
  rw [← rootArea_eq h32]
  unfold Answers
  simp only [hrun,Option.some.injEq]
  exact ⟨fun h => h.elim fun enough h => h enough le_rfl,fun h => ⟨0,fun _ _ => h⟩⟩

end Levels

/-- The answer is that of the first entry that decides. -/
theorem answers_iff {fs : FatFs} (hspc : 0 < fs.secPerClus) (read : Disk) (filename : CString)
    (r : Search) : Answers fs read filename r ↔
      ∃ n, FirstHit (slotVerdict fs read (target83 filename)) n r := by
  rw [← exists_firstHit_blocks (by decide) sectorVerdict_eq]
  by_cases h32 : fs.fatType = 32
  · rw [answers_chain h32,← exists_firstHit_blocks hspc (clusterVerdict_eq h32 hspc)]
  · exact answers_area h32 filename r

end Gemiboot.FatReader
