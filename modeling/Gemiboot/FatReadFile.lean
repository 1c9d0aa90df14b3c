import Gemiboot.FatReader

/-!
# Reading a file

`fat_read_file` on an arbitrary disk, whose table may be cyclic, cut short or
unreadable. The chain and its sectors are those of the table and the data area, which
the code's lookups compute. The two loops are counted in sectors of the file: sector
`j` belongs to cluster `j / sec_per_clus` of the chain.
-/
namespace Gemiboot.FatReader
open ByteMemory

/-! ### The table and the data area -/

/-- The bits of an entry that count. -/
def entryBits (fs : FatFs) : ℕ :=
  if fs.fatType = 32 then 28 else if fs.fatType = 16 then 16 else 12

/-- A chain goes on at this number: 0 and 1 are no clusters, and the eight largest numbers
are end marks. -/
def Live (fs : FatFs) (cluster : ℕ) : Prop := 2 ≤ cluster ∧ cluster+8 < 2^entryBits fs

instance (fs : FatFs) (cluster : ℕ) : Decidable (Live fs cluster) :=
  inferInstanceAs (Decidable (_ ∧ _))

/-- The entry of a cluster, if its sector can be read. The entries follow one another in the
table, 4 or 2 bytes each; packed entries are not looked up. -/
def tableEntry (fs : FatFs) (read : Disk) (cluster : ℕ) : Option ℕ :=
  if fs.fatType = 32 then
    (read (u32 (fs.partLba+fs.rsvdSecCnt+4*cluster/fs.bytesPerSec))).map fun buf =>
      load 4 buf (4*cluster%fs.bytesPerSec)%2^28
  else if fs.fatType = 16 then
    (read (u32 (fs.partLba+fs.rsvdSecCnt+2*cluster/fs.bytesPerSec))).map fun buf =>
      load 2 buf (2*cluster%fs.bytesPerSec)
  else none

/-- The end mark that stands for an entry without a value. -/
def lastMark (fs : FatFs) : ℕ := if fs.fatType = 16 then 0xFFFF else 0x0FFFFFFF

/-- Following the table; an unreadable entry counts as an end mark. -/
def clusterAt (fs : FatFs) (read : Disk) (first : ℕ) : ℕ → ℕ
  | 0 => first
  | k+1 => (tableEntry fs read (clusterAt fs read first k)).getD (lastMark fs)

/-- Sector `s` of a cluster. The data area starts with cluster 2. -/
def clusterSector (fs : FatFs) (cluster s : ℕ) : ℕ :=
  u32 (fs.dataSec+(cluster-2)*fs.secPerClus+s)

/-- Where sector `j` of the chain lies. -/
def sectorLba (fs : FatFs) (read : Disk) (first j : ℕ) : ℕ :=
  clusterSector fs (clusterAt fs read first (j/fs.secPerClus)) (j%fs.secPerClus)

/-- The chain has a sector `j`, and it can be read. -/
def Supplied (fs : FatFs) (read : Disk) (first j : ℕ) : Prop :=
  Live fs (clusterAt fs read first (j/fs.secPerClus)) ∧
    (read (sectorLba fs read first j)).isSome = true

instance (fs : FatFs) (read : Disk) (first j : ℕ) : Decidable (Supplied fs read first j) :=
  inferInstanceAs (Decidable (_ ∧ _))

/-- The bytes of the chain, one cluster after the other. -/
def chainContents (fs : FatFs) (read : Disk) (first : ℕ) : Memory := fun i =>
  ((read (sectorLba fs read first (i/512))).getD fun _ => 0) (i%512)

def fileSectors (fileSize : ℕ) : ℕ := (fileSize+511)/512

/-- The loop variables at a return. -/
def atReturn : Except ReadLoop ReadLoop → ReadLoop
  | .ok l => l
  | .error l => l

/-! ### The code computes them -/

section Lookup
variable {fs : FatFs} {read : Disk} {c : ℕ}

/-- The condition of the loops. -/
theorem live_iff : Live fs c ↔ (!isEndOfClusterChain fs c) = true ∧ c ≥ 2 := by
  unfold Live isEndOfClusterChain entryBits
  split_ifs <;> simp <;> omega

theorem Live.lt (h : Live fs c) : c < 2^28 := by
  have hlt := h.2
  unfold entryBits at hlt
  split_ifs at hlt <;> omega

theorem not_live_lastMark (fs : FatFs) : ¬Live fs (lastMark fs) := by
  unfold Live lastMark entryBits
  split_ifs <;> omega

theorem fatGetNextCluster_eq (h : Live fs c) :
    fatGetNextCluster fs read c = (tableEntry fs read c).getD (lastMark fs) := by
  have hlt := h.lt
  unfold fatGetNextCluster fatEntry tableEntry lastMark
  rw [Nat.mul_comm 4,Nat.mul_comm 2,u32_of_lt (show c*4 < 4294967296 by omega),
    u32_of_lt (show c*2 < 4294967296 by omega)]
  split_ifs with h32 h16 h16
  · omega
  · dsimp only
    cases read (u32 (fs.partLba+fs.rsvdSecCnt+c*4/fs.bytesPerSec)) with
    | none => exact Nat.and_self _
    | some buf => exact Nat.and_two_pow_sub_one_eq_mod _ 28
  · dsimp only
    cases read (u32 (fs.partLba+fs.rsvdSecCnt+c*2/fs.bytesPerSec)) <;> rfl
  · rfl

/-- The step of a walk. -/
theorem clusterAt_succ {first k : ℕ} (h : Live fs (clusterAt fs read first k)) :
    fatGetNextCluster fs read (clusterAt fs read first k) = clusterAt fs read first (k+1) :=
  fatGetNextCluster_eq h

theorem clusterToLba_add (h : Live fs c) (s : ℕ) :
    u32 (clusterToLba fs c+s) = clusterSector fs c s := by
  have hlt := h.lt
  have h₂ := h.1
  have hindex : u32 (c+4294967294) = c-2 := by
    rw [u32]
    omega
  unfold clusterToLba clusterSector
  rw [hindex]
  generalize (c-2)*fs.secPerClus = x
  simp only [u32]
  omega

end Lookup

/-! ### The loops -/

section Loops
variable {fs : FatFs} {read : Disk} {first size dest : ℕ} {mem : Memory}

/-- The loop variables after `j` sectors. -/
def afterSectors (src mem : Memory) (dest size j : ℕ) : ReadLoop :=
  ⟨blit mem dest (min size (512*j)) src,dest+min size (512*j),size-min size (512*j)⟩

theorem afterSectors_wants (src mem : Memory) (dest size j : ℕ) :
    (afterSectors src mem dest size j).bytesRemaining > 0 ↔ j < fileSectors size := by
  change size-min size (512*j) > 0 ↔ j < (size+511)/512
  omega

/-- Behind the last sector nothing changes. -/
theorem afterSectors_saturated {src : Memory} {j k : ℕ} (hj : fileSectors size ≤ j)
    (hk : fileSectors size ≤ k) :
    afterSectors src mem dest size j = afterSectors src mem dest size k := by
  unfold fileSectors at hj hk
  unfold afterSectors
  rw [Nat.min_eq_left (show size ≤ 512*j by omega),Nat.min_eq_left (show size ≤ 512*k by omega)]

/-- Copying one sector. -/
theorem afterSectors_succ {src buf : Memory} {j : ℕ} (hb : ∀ i < 512, buf i = src (512*j+i)) :
    let l := afterSectors src mem dest size j
    let copyLen := if l.bytesRemaining > sectorSize then sectorSize else l.bytesRemaining
    ReadLoop.mk (blit l.mem l.dest copyLen buf) (l.dest+copyLen) (l.bytesRemaining-copyLen) =
      afterSectors src mem dest size (j+1) := by
  intro l copyLen
  have hcopy : copyLen = min (size-min size (512*j)) 512 := by
    change (if size-min size (512*j) > 512 then 512 else size-min size (512*j)) = _
    split_ifs <;> omega
  have hsum : min size (512*j)+copyLen = min size (512*(j+1)) := by omega
  change ReadLoop.mk (blit (blit mem dest (min size (512*j)) src) (dest+min size (512*j)) copyLen
    buf) (dest+min size (512*j)+copyLen) (size-min size (512*j)-copyLen) = _
  rw [blit_append,Nat.add_assoc,hsum,Nat.sub_sub,hsum]
  · rfl
  · intro i hi
    rw [hb i (by omega)]
    congr 1
    omega

/-- The sector loop goes through, or stops at the first sector that cannot be read. -/
theorem readSectors_spec {lba : ℕ} (n s j : ℕ)
    (hlba : ∀ t < n, u32 (lba+(s+t)) = sectorLba fs read first (j+t)) :
    (readSectors read lba n s (afterSectors (chainContents fs read first) mem dest size j) =
        .ok (afterSectors (chainContents fs read first) mem dest size (j+n)) ∧
      ∀ t < n, j+t < fileSectors size → (read (sectorLba fs read first (j+t))).isSome = true) ∨
    ∃ t < n, j+t < fileSectors size ∧ read (sectorLba fs read first (j+t)) = none ∧
      readSectors read lba n s (afterSectors (chainContents fs read first) mem dest size j) =
        .error (afterSectors (chainContents fs read first) mem dest size (j+t)) := by
  induction n generalizing s j with
  | zero => exact .inl ⟨rfl,fun t ht => absurd ht (Nat.not_lt_zero t)⟩
  | succ n ih =>
      have hwants := afterSectors_wants (chainContents fs read first) mem dest size j
      by_cases hpos : j < fileSectors size
      · have hfirst := hlba 0 (Nat.succ_pos n)
        simp only [Nat.add_zero] at hfirst
        unfold readSectors
        simp only [if_pos (hwants.mpr hpos),hfirst]
        cases hread : read (sectorLba fs read first j) with
        | none => exact .inr ⟨0,Nat.succ_pos n,hpos,hread,rfl⟩
        | some buf =>
            have hb : ∀ i < 512, buf i = chainContents fs read first (512*j+i) := by
              intro i hi
              unfold chainContents
              have hd : (512*j+i)/512 = j := by omega
              have hm : (512*j+i)%512 = i := by omega
              rw [hd,hm,hread]
              rfl
            have hnext := ih (s+1) (j+1) fun t ht => by
              have h := hlba (t+1) (by omega)
              rwa [show s+(t+1) = s+1+t by omega,show j+(t+1) = j+1+t by omega] at h
            dsimp only
            rw [afterSectors_succ hb,show j+(n+1) = j+1+n by omega]
            cases hnext with
            | inl hok =>
                refine .inl ⟨hok.1,fun t ht hlt => ?_⟩
                cases t with
                | zero =>
                    rw [Nat.add_zero,hread]
                    rfl
                | succ t =>
                    rw [show j+(t+1) = j+1+t by omega]
                    exact hok.2 t (by omega) (by omega)
            | inr hbad =>
                obtain ⟨t,ht,hlt,hnone,herr⟩ := hbad
                refine .inr ⟨t+1,by omega,by omega,?_,?_⟩
                · rw [show j+(t+1) = j+1+t by omega]
                  exact hnone
                · rw [show j+(t+1) = j+1+t by omega]
                  exact herr
      · unfold readSectors
        rw [if_neg fun hrem => hpos (hwants.mp hrem),
          afterSectors_saturated (k := j+(n+1)) (not_lt.mp hpos) (by omega)]
        exact .inl ⟨rfl,fun t _ hlt => absurd hlt (by omega)⟩

theorem readChain_done {fuel k : ℕ} (h : fileSectors size ≤ k*fs.secPerClus) (c : ℕ) :
    readChain fs read (fuel+1) c
        (afterSectors (chainContents fs read first) mem dest size (k*fs.secPerClus)) =
      some (.ok (afterSectors (chainContents fs read first) mem dest size (fileSectors size))) := by
  have hrem := (afterSectors_wants (chainContents fs read first) mem dest size
    (k*fs.secPerClus)).not.mpr (not_lt.mpr h)
  unfold readChain
  rw [if_neg (fun hgo => hrem hgo.1),if_pos (Nat.eq_zero_of_not_pos hrem),
    afterSectors_saturated h le_rfl]

theorem sectorLba_add {k t : ℕ} (hlive : Live fs (clusterAt fs read first k))
    (ht : t < fs.secPerClus) : sectorLba fs read first (k*fs.secPerClus+t) =
      u32 (clusterToLba fs (clusterAt fs read first k)+(0+t)) := by
  have hdiv : (k*fs.secPerClus+t)/fs.secPerClus = k := by
    rw [Nat.mul_comm,Nat.mul_add_div (by omega),Nat.div_eq_of_lt ht,Nat.add_zero]
  have hmod : (k*fs.secPerClus+t)%fs.secPerClus = t := by
    rw [Nat.mul_comm,Nat.mul_add_mod,Nat.mod_eq_of_lt ht]
  unfold sectorLba
  rw [hdiv,hmod,Nat.zero_add,clusterToLba_add hlive]

/-- The cluster loop delivers the file, or stops at a sector that is not supplied. -/
theorem readChain_spec (hspc : 0 < fs.secPerClus) (fuel k : ℕ)
    (hf : fileSectors size ≤ fuel+k*fs.secPerClus) :
    ∃ r, readChain fs read (fuel+1) (clusterAt fs read first k)
        (afterSectors (chainContents fs read first) mem dest size (k*fs.secPerClus)) = some r ∧
      ((r = .ok (afterSectors (chainContents fs read first) mem dest size (fileSectors size)) ∧
          ∀ j, k*fs.secPerClus ≤ j → j < fileSectors size → Supplied fs read first j) ∨
        ∃ i, r = .error (afterSectors (chainContents fs read first) mem dest size i) ∧
          ∃ j < fileSectors size, ¬Supplied fs read first j) := by
  induction fuel generalizing k with
  | zero =>
      refine ⟨_,readChain_done (by omega) _,.inl ⟨rfl,fun j h₁ h₂ => ?_⟩⟩
      omega
  | succ fuel ih =>
      by_cases hle : fileSectors size ≤ k*fs.secPerClus
      · refine ⟨_,readChain_done hle _,.inl ⟨rfl,fun j h₁ h₂ => ?_⟩⟩
        omega
      · have hlt : k*fs.secPerClus < fileSectors size := Nat.lt_of_not_le hle
        have hrem := (afterSectors_wants (chainContents fs read first) mem dest size
          (k*fs.secPerClus)).mpr hlt
        have hindex : k*fs.secPerClus/fs.secPerClus = k := Nat.mul_div_cancel _ hspc
        unfold readChain
        by_cases hlive : Live fs (clusterAt fs read first k)
        · rw [if_pos ⟨hrem,live_iff.mp hlive⟩,clusterAt_succ hlive]
          have hsectors := @readSectors_spec fs read first size dest mem _
            fs.secPerClus 0 (k*fs.secPerClus) fun t ht => (sectorLba_add hlive ht).symm
          cases hsectors with
          | inl hok =>
              have hnext := ih (k+1) (by rw [Nat.add_mul]; omega)
              rw [hok.1]
              rw [Nat.add_mul,Nat.one_mul] at hnext
              obtain ⟨r,hr,hcases⟩ := hnext
              refine ⟨r,hr,?_⟩
              cases hcases with
              | inr hbad => exact .inr hbad
              | inl hgood =>
                  refine .inl ⟨hgood.1,fun j h₁ h₂ => ?_⟩
                  by_cases hj : j < k*fs.secPerClus+fs.secPerClus
                  · obtain ⟨t,rfl⟩ := Nat.exists_eq_add_of_le h₁
                    refine ⟨?_,hok.2 t (by omega) h₂⟩
                    rwa [Nat.mul_comm,Nat.mul_add_div hspc,Nat.div_eq_of_lt (by omega),
                      Nat.add_zero]
                  · exact hgood.2 j (by omega) h₂
          | inr hbad =>
              obtain ⟨t,ht,hj,hnone,herr⟩ := hbad
              rw [herr]
              refine ⟨_,rfl,.inr ⟨_,rfl,_,hj,fun hs => ?_⟩⟩
              rw [Supplied,hnone] at hs
              cases hs.2
        · rw [if_neg (fun h => hlive (live_iff.mpr h.2)),if_neg (by omega)]
          refine ⟨_,rfl,.inr ⟨_,rfl,_,hlt,fun hs => ?_⟩⟩
          rw [Supplied,hindex] at hs
          exact hlive hs.1

/-- The two ways in which the call ends. -/
theorem fatReadFileRun_cases (hspc : 0 < fs.secPerClus) {fuel : ℕ} (hfuel : fileSectors size < fuel) :
    ∃ r, fatReadFileRun fuel fs read first size mem dest = some r ∧
      ((r = .ok (afterSectors (chainContents fs read first) mem dest size (fileSectors size)) ∧
          ∀ j < fileSectors size, Supplied fs read first j) ∨
        ∃ i, r = .error (afterSectors (chainContents fs read first) mem dest size i) ∧
          ∃ j < fileSectors size, ¬Supplied fs read first j) := by
  have hstart : ReadLoop.mk mem dest size =
      afterSectors (chainContents fs read first) mem dest size (0*fs.secPerClus) := by
    unfold afterSectors
    rw [Nat.zero_mul,Nat.mul_zero,Nat.min_zero,blit_zero]
    rfl
  obtain ⟨n,rfl⟩ : ∃ n, fuel = n+1 := ⟨fuel-1,by omega⟩
  obtain ⟨r,hr,hcases⟩ := @readChain_spec fs read first size dest mem hspc n 0 (by omega)
  rw [← hstart] at hr
  refine ⟨r,hr,?_⟩
  cases hcases with
  | inl hgood => exact .inl ⟨hgood.1,fun j hj => hgood.2 j (by omega) hj⟩
  | inr hbad => exact .inr hbad

/-- The memory when all sectors are in place. -/
theorem afterSectors_mem (src : Memory) :
    (afterSectors src mem dest size (fileSectors size)).mem = blit mem dest size src := by
  have hsize : min size (512*fileSectors size) = size := by
    unfold fileSectors
    omega
  unfold afterSectors
  rw [hsize]

end Loops

/-- The call ends. It succeeds exactly when the chain supplies all sectors of the file,
and then the file is in place; in any case nothing else is written. -/
theorem fatReadFile_spec {boot : Disk} {partLba : ℕ} {fs : FatFs}
    (h : fatInit boot partLba = .ready fs) (read : Disk) (first size : ℕ) (mem : Memory)
    (dest : ℕ) :
    ∃ enough, ∀ fuel, enough ≤ fuel →
      ∃ r, fatReadFileRun fuel fs read first size mem dest = some r ∧
        ((∃ l, r = .ok l) ↔ ∀ j < fileSectors size, Supplied fs read first j) ∧
        (∀ l, r = .ok l → l.mem = blit mem dest size (chainContents fs read first)) ∧
        ∀ x, x < dest ∨ dest+size ≤ x → (atReturn r).mem x = mem x := by
  refine ⟨fileSectors size+1,fun fuel hfuel => ?_⟩
  obtain ⟨r,hr,hcases⟩ :=
    @fatReadFileRun_cases fs read first size dest mem (secPerClus_pos h) fuel hfuel
  refine ⟨r,hr,?_⟩
  have hframe : ∀ i x, x < dest ∨ dest+size ≤ x →
      (afterSectors (chainContents fs read first) mem dest size i).mem x = mem x := by
    intro i x hx
    have hle : min size (512*i) ≤ size := Nat.min_le_left _ _
    exact blit_outside (by omega)
  cases hcases with
  | inl hgood =>
      obtain ⟨rfl,hall⟩ := hgood
      refine ⟨⟨fun _ => hall,fun _ => ⟨_,rfl⟩⟩,?_,hframe _⟩
      intro l hl
      cases hl
      exact afterSectors_mem _
  | inr hbad =>
      obtain ⟨i,rfl,j,hj,hnot⟩ := hbad
      refine ⟨⟨fun hok => ?_,fun hall => absurd (hall j hj) hnot⟩,(fun l hl => nomatch hl),hframe i⟩
      obtain ⟨l,hl⟩ := hok
      cases hl

/-- A FAT16 volume of 8192 sectors with one file, in the clusters 2 and 3. -/
def smallVolume : Disk := fun lba => some fun i =>
  if lba = 0 then
    if i = 12 then 2 else if i = 13 then 1 else if i = 14 then 1 else if i = 16 then 1
    else if i = 20 then 0x20 else if i = 22 then 32 else 0
  else if lba = 1 then if i = 4 then 3 else if i = 6 then 0xFF else if i = 7 then 0xFF else 0
  else UInt8.ofNat lba

theorem fatReadFile_spec_smallVolume : ∃ fs, fatInit smallVolume 0 = .ready fs ∧ fs.fatType = 16 ∧
    ∃ enough, ∀ fuel, enough ≤ fuel → ∃ l,
      fatReadFileRun fuel fs smallVolume 2 600 (fun _ => 0) 0x200000 = some (.ok l) ∧
        l.mem = blit (fun _ => 0) 0x200000 600 (chainContents fs smallVolume 2) := by
  have hinit : fatInit smallVolume 0 =
      .ready ⟨0,512,1,1,1,32,33,0,33,8192,8159,0,16⟩ := by decide +kernel
  refine ⟨_,hinit,rfl,?_⟩
  obtain ⟨enough,h⟩ := fatReadFile_spec hinit smallVolume 2 600 (fun _ => 0) 0x200000
  refine ⟨enough,fun fuel hfuel => ?_⟩
  obtain ⟨r,hr,hok,hmem,-⟩ := h fuel hfuel
  obtain ⟨l,rfl⟩ := hok.mpr (by decide +kernel)
  exact ⟨l,hr,hmem l rfl⟩

end Gemiboot.FatReader
