import Gemiboot.FatSearch

/-!
# The directory search as a linear search

The root directory is a list of sectors with 16 entries each. Some sectors of the disk
cannot be read; the walk to an entry needs the sectors of the directory up to it and,
on FAT32, the sectors of the table between the clusters.
-/
namespace Gemiboot.FatReader
open ByteMemory ShortNames FirstHits

/-- A disk whose sectors can all be read. -/
def whole (content : ℕ → Memory) : Disk := fun lba => some (content lba)

/-- The same disk where only some sectors can be read. -/
def faulty (content : ℕ → Memory) (readable : ℕ → Bool) : Disk := fun lba =>
  if readable lba then some (content lba) else none

/-- These are the sectors of the root directory in order. -/
def RootIs (fs : FatFs) (content : ℕ → Memory) (sectors : List ℕ) : Prop :=
  ∀ k ≤ sectors.length, rootSector fs (whole content) k = sectors[k]?

/-- The 32 bytes of entry `n`. -/
def rootEntry (content : ℕ → Memory) (sectors : List ℕ) (n : ℕ) : Memory := fun i =>
  content (sectors.getD (n/16) 0) (32*(n%16)+i)

/-- Not deleted, no volume label and no part of a long name, and the name is this one. -/
def Names (target entry : Memory) : Prop :=
  entry 0 ≠ 0xE5 ∧ entry 11 &&& 0x08 = 0 ∧ ∀ i < 11, entry i = target i

/-- The first entry with the name, before the end mark. -/
structure FirstNamed (target : Memory) (entry : ℕ → Memory) (n : ℕ) : Prop where
  names : Names target (entry n)
  notEnd : entry n 0 ≠ 0x00
  before : ∀ k < n, entry k 0 ≠ 0x00 ∧ ¬Names target (entry k)

/-- The sector of the table with the entry of a cluster. -/
def tableSector (fs : FatFs) (cluster : ℕ) : ℕ :=
  u32 (fs.partLba+fs.rsvdSecCnt+4*cluster/512)

def lookups (fs : FatFs) (content : ℕ → Memory) (j : ℕ) : List ℕ :=
  if fs.fatType = 32 then
    (List.range j).map fun i => tableSector fs (clusterAt fs (whole content) fs.rootClus i)
  else []

/-- The sectors that are read before entry `n` is looked at. -/
def required (fs : FatFs) (content : ℕ → Memory) (sectors : List ℕ) (n : ℕ) : List ℕ :=
  sectors.take (n/16+1)++lookups fs content (n/16/fs.secPerClus)

/-! ### One entry -/

theorem entryVerdict_shift (target buf : Memory) (a : ℕ) :
    entryVerdict target buf a = entryVerdict target (fun i => buf (a+i)) 0 := by
  have hload : ∀ w k, load w buf (a+k) = load w (fun i => buf (a+i)) (0+k) := by
    intro w k
    apply load_congr
    intro i _
    congr 1
    omega
  unfold entryVerdict
  simp only [hload,Nat.zero_add,Nat.add_zero]

section Verdict
variable {target e : Memory}

theorem entryVerdict_end (h : e 0 = 0x00) : entryVerdict target e 0 = some .failed := if_pos h

theorem entryVerdict_names (h : e 0 ≠ 0x00) (hn : Names target e) : entryVerdict target e 0 =
    some (.found (load 2 e 20 <<< 16 ||| load 2 e 26) (load 4 e 28)) := by
  have hskip : ¬(e 0 = 0xE5 ∨ e (0+11) &&& 0x08 ≠ 0) :=
    not_or.mpr ⟨hn.1,not_not.mpr (by simpa using hn.2.1)⟩
  have hname : ∀ i < 11, e (0+i) = target i := by simpa using hn.2.2
  unfold entryVerdict
  rw [if_neg h,if_neg hskip,if_pos hname]

theorem entryVerdict_other (h : e 0 ≠ 0x00) (hn : ¬Names target e) :
    entryVerdict target e 0 = none := by
  unfold entryVerdict
  rw [if_neg h]
  split_ifs with hskip hname
  · rfl
  · refine absurd ⟨?_,?_,?_⟩ hn
    · exact fun hd => hskip (.inl hd)
    · simpa using not_not.mp (fun hv => hskip (.inr hv))
    · simpa using hname
  · rfl

end Verdict

/-! ### The sectors that can be reached -/

section Reach
variable {fs : FatFs} {content : ℕ → Memory} {readable : ℕ → Bool} {sectors : List ℕ}

theorem tableEntry_readable (hbps : fs.bytesPerSec = 512) (h32 : fs.fatType = 32) {c : ℕ}
    (h : readable (tableSector fs c) = true) :
    tableEntry fs (faulty content readable) c = tableEntry fs (whole content) c := by
  have hread : faulty content readable (tableSector fs c) = whole content (tableSector fs c) :=
    if_pos h
  unfold tableSector at hread
  unfold tableEntry
  rw [if_pos h32,if_pos h32,hbps,hread]

/-- A failed lookup is an end mark. -/
theorem tableEntry_unreadable (hbps : fs.bytesPerSec = 512) (h32 : fs.fatType = 32) {c : ℕ}
    (h : ¬readable (tableSector fs c) = true) :
    ¬Live fs ((tableEntry fs (faulty content readable) c).getD (lastMark fs)) := by
  have hread : faulty content readable (tableSector fs c) = none := if_neg h
  have hnone : tableEntry fs (faulty content readable) c = none := by
    unfold tableSector at hread
    unfold tableEntry
    rw [if_pos h32,hbps,hread]
    rfl
  rw [hnone]
  exact not_live_lastMark fs

theorem clusterAt_faulty (hbps : fs.bytesPerSec = 512) (h32 : fs.fatType = 32) {j : ℕ}
    (h : ∀ i < j,
      readable (tableSector fs (clusterAt fs (whole content) fs.rootClus i)) = true) :
    clusterAt fs (faulty content readable) fs.rootClus j =
      clusterAt fs (whole content) fs.rootClus j := by
  induction j with
  | zero => rfl
  | succ j ih =>
      rw [clusterAt,clusterAt,ih fun i hi => h i (by omega),
        tableEntry_readable hbps h32 (h j (Nat.lt_succ_self j))]

/-- The lookups in front of sector `k` of the directory can be made. -/
def LookedUp (fs : FatFs) (content : ℕ → Memory) (readable : ℕ → Bool) (j : ℕ) : Prop :=
  ∀ lba ∈ lookups fs content j, readable lba = true

theorem lookedUp_chain (h32 : fs.fatType = 32) {j : ℕ} : LookedUp fs content readable j ↔
    ∀ i < j, readable (tableSector fs (clusterAt fs (whole content) fs.rootClus i)) = true := by
  unfold LookedUp lookups
  rw [if_pos h32,List.forall_mem_map]
  simp only [List.mem_range]

theorem rootSector_faulty (hbps : fs.bytesPerSec = 512) {k : ℕ}
    (h : LookedUp fs content readable (k/fs.secPerClus)) :
    rootSector fs (faulty content readable) k = rootSector fs (whole content) k := by
  unfold rootSector sectorLba
  by_cases h32 : fs.fatType = 32
  · rw [clusterAt_faulty hbps h32 ((lookedUp_chain h32).mp h)]
  · rw [if_neg h32,if_neg h32]

/-- Behind a lookup that fails the directory is at its end. -/
theorem rootSector_cut (hbps : fs.bytesPerSec = 512) {j k : ℕ} (hk : k/fs.secPerClus = j+1)
    (h : LookedUp fs content readable j) (hcut : ¬LookedUp fs content readable (j+1)) :
    rootSector fs (faulty content readable) k = none := by
  by_cases h32 : fs.fatType = 32
  · rw [lookedUp_chain h32] at h hcut
    have hlast : ¬readable (tableSector fs (clusterAt fs (whole content) fs.rootClus j)) = true := by
      intro hj
      apply hcut
      intro i hi
      rcases Nat.lt_succ_iff_lt_or_eq.mp hi with hlt | rfl
      · exact h i hlt
      · exact hj
    unfold rootSector
    rw [if_pos h32,hk,clusterAt,clusterAt_faulty hbps h32 h,
      if_neg (tableEntry_unreadable hbps h32 hlast)]
  · refine absurd (fun lba hlba => ?_) hcut
    unfold lookups at hlba
    rw [if_neg h32] at hlba
    exact absurd hlba List.not_mem_nil

/-- Sector `k` is there, and everything that is read up to it can be read. -/
structure Reachable (fs : FatFs) (content : ℕ → Memory) (readable : ℕ → Bool) (sectors : List ℕ)
    (k : ℕ) : Prop where
  inside : k < sectors.length
  sectors : ∀ i ≤ k, readable (sectors.getD i 0) = true
  table : LookedUp fs content readable (k/fs.secPerClus)

theorem Reachable.mono {i k : ℕ} (h : Reachable fs content readable sectors k) (hi : i ≤ k) :
    Reachable fs content readable sectors i := by
  refine ⟨by have := h.inside; omega,fun t ht => h.sectors t (by omega),fun lba hlba => ?_⟩
  apply h.table
  have hdiv : i/fs.secPerClus ≤ k/fs.secPerClus := Nat.div_le_div_right hi
  unfold lookups at hlba ⊢
  split_ifs at hlba ⊢ with h32
  · rw [List.mem_map] at hlba ⊢
    obtain ⟨t,ht,heq⟩ := hlba
    exact ⟨t,List.mem_range.mpr ((List.mem_range.mp ht).trans_le hdiv),heq⟩
  · exact hlba

theorem reachable_iff {n : ℕ} : Reachable fs content readable sectors (n/16) ↔
    n < 16*sectors.length ∧ ∀ lba ∈ required fs content sectors n, readable lba = true := by
  have htake : n/16 < sectors.length → ((∀ lba ∈ sectors.take (n/16+1), readable lba = true) ↔
      ∀ i ≤ n/16, readable (sectors.getD i 0) = true) := by
    intro hin
    have hlen : (sectors.take (n/16+1)).length = n/16+1 := by
      rw [List.length_take]
      omega
    rw [List.forall_mem_iff_getElem]
    constructor
    · intro h i hi
      have hget := h i (by omega)
      rwa [List.getElem_take,← List.getD_eq_getElem _ 0] at hget
    · intro h i hi
      rw [List.getElem_take,← List.getD_eq_getElem _ 0]
      exact h i (by omega)
  unfold required
  rw [List.forall_mem_append]
  constructor
  · intro h
    exact ⟨by have := h.inside; omega,(htake h.inside).mpr h.sectors,h.table⟩
  · intro h
    have hin : n/16 < sectors.length := by omega
    exact ⟨hin,(htake hin).mp h.2.1,h.2.2⟩

theorem rootBuf_reachable (hbps : fs.bytesPerSec = 512) (hroot : RootIs fs content sectors) {k : ℕ}
    (h : Reachable fs content readable sectors k) :
    rootBuf fs (faulty content readable) k = some (content (sectors.getD k 0)) := by
  have hget : sectors[k]? = some (sectors.getD k 0) := by
    rw [List.getD_eq_getElem?_getD,List.getElem?_eq_getElem h.inside]
    rfl
  unfold rootBuf
  rw [rootSector_faulty hbps h.table,hroot k h.inside.le,hget]
  change faulty content readable (sectors.getD k 0) = _
  rw [faulty,if_pos (h.sectors k le_rfl)]

/-- In the first cluster nothing is looked up. -/
theorem lookedUp_zero : LookedUp fs content readable 0 := by
  intro lba hlba
  unfold lookups at hlba
  split_ifs at hlba
  · exact absurd hlba List.not_mem_nil
  · exact absurd hlba List.not_mem_nil

/-- The lookup behind sector `k` fails: there is no sector `k+1`. -/
theorem rootBuf_cut (hbps : fs.bytesPerSec = 512) {k : ℕ}
    (h : LookedUp fs content readable (k/fs.secPerClus))
    (hcut : ¬LookedUp fs content readable ((k+1)/fs.secPerClus)) :
    rootBuf fs (faulty content readable) (k+1) = none := by
  unfold rootBuf
  by_cases hstep : (k+1)/fs.secPerClus = k/fs.secPerClus+1
  · rw [hstep] at hcut
    rw [rootSector_cut hbps hstep h hcut]
    rfl
  · have hsame : (k+1)/fs.secPerClus = k/fs.secPerClus := by
      have hdiv : (k+1)/fs.secPerClus = _ := Nat.succ_div
      split_ifs at hdiv
      · exact absurd hdiv hstep
      · exact hdiv
    rw [hsame] at hcut
    exact absurd h hcut

/-- Sector `k` cannot be read, or the directory has ended before it. -/
theorem rootBuf_unreadable (hbps : fs.bytesPerSec = 512) (hroot : RootIs fs content sectors)
    {k : ℕ} (hle : k ≤ sectors.length) (htable : LookedUp fs content readable (k/fs.secPerClus))
    (hbad : k < sectors.length → ¬readable (sectors.getD k 0) = true) :
    rootBuf fs (faulty content readable) k = none := by
  unfold rootBuf
  rw [rootSector_faulty hbps htable,hroot k hle]
  by_cases hin : k < sectors.length
  · have hget : sectors[k]? = some (sectors.getD k 0) := by
      rw [List.getD_eq_getElem?_getD,List.getElem?_eq_getElem hin]
      rfl
    rw [hget]
    change faulty content readable (sectors.getD k 0) = none
    rw [faulty,if_neg (hbad hin)]
  · rw [List.getElem?_eq_none (Nat.le_of_not_lt hin)]
    rfl

/-- At the first sector that cannot be reached the search fails. -/
theorem rootBuf_unreachable (hbps : fs.bytesPerSec = 512) (hroot : RootIs fs content sectors)
    {k : ℕ} (hbefore : ∀ i < k, Reachable fs content readable sectors i)
    (h : ¬Reachable fs content readable sectors k) :
    rootBuf fs (faulty content readable) k = none := by
  by_cases htable : LookedUp fs content readable (k/fs.secPerClus)
  · have hle : k ≤ sectors.length := by
      cases k with
      | zero => exact Nat.zero_le _
      | succ k => exact (hbefore k (Nat.lt_succ_self k)).inside
    apply rootBuf_unreadable hbps hroot hle htable
    intro hin hk
    apply h
    refine ⟨hin,fun i hi => ?_,htable⟩
    rcases Nat.eq_or_lt_of_le hi with rfl | hlt
    · exact hk
    · exact (hbefore i hlt).sectors i le_rfl
  · cases k with
    | zero =>
        rw [Nat.zero_div] at htable
        exact absurd lookedUp_zero htable
    | succ k => exact rootBuf_cut hbps (hbefore k (Nat.lt_succ_self k)).table htable

/-- What the code makes of a reachable entry. -/
theorem slotVerdict_reachable (hbps : fs.bytesPerSec = 512) (hroot : RootIs fs content sectors)
    (target : Memory) {n : ℕ} (h : Reachable fs content readable sectors (n/16)) :
    slotVerdict fs (faulty content readable) target n =
      entryVerdict target (rootEntry content sectors n) 0 := by
  unfold slotVerdict
  rw [rootBuf_reachable hbps hroot h]
  exact entryVerdict_shift target _ _

theorem slotVerdict_unreachable (hbps : fs.bytesPerSec = 512) (hroot : RootIs fs content sectors)
    (target : Memory) {k : ℕ} (hbefore : ∀ i < k, Reachable fs content readable sectors i)
    (h : ¬Reachable fs content readable sectors k) :
    slotVerdict fs (faulty content readable) target (16*k) = some .failed := by
  unfold slotVerdict
  rw [Nat.mul_div_cancel_left k (by decide),rootBuf_unreachable hbps hroot hbefore h]

end Reach

/-! ### The search -/

/-- The call with its output parameters. -/
def fatFindFileCall (fuel : ℕ) (fs : FatFs) (read : Disk) (filename : CString)
    (firstCluster fileSize : Option ℕ) : Option FindResult :=
  (fatFindFile fuel fs read filename).map (Search.store firstCluster fileSize)

/-- The first entry with the name, when every sector up to it can be read. -/
structure Finds (fs : FatFs) (content : ℕ → Memory) (readable : ℕ → Bool) (sectors : List ℕ)
    (filename : CString) (n : ℕ) : Prop where
  inside : n < 16*sectors.length
  first : FirstNamed (target83 filename) (rootEntry content sectors) n
  reads : ∀ lba ∈ required fs content sectors n, readable lba = true

section Search
variable {fs : FatFs} {content : ℕ → Memory} {readable : ℕ → Bool} {sectors : List ℕ}
  {filename : CString}

theorem firstHit_found (hbps : fs.bytesPerSec = 512) (hroot : RootIs fs content sectors) {n : ℕ}
    (h : Finds fs content readable sectors filename n) :
    let e := rootEntry content sectors n
    FirstHit (slotVerdict fs (faulty content readable) (target83 filename)) n
      (.found (load 2 e 20 <<< 16 ||| load 2 e 26) (load 4 e 28)) := by
  intro e
  have hreach := reachable_iff.mpr ⟨h.inside,h.reads⟩
  constructor
  · rw [slotVerdict_reachable hbps hroot _ hreach]
    exact entryVerdict_names h.first.notEnd h.first.names
  · intro j hj
    have hj' := h.first.before j hj
    rw [slotVerdict_reachable hbps hroot _ (hreach.mono (Nat.div_le_div_right hj.le))]
    exact entryVerdict_other hj'.1 hj'.2

/-- Without such an entry the search fails: at the end mark, or at the first sector
that cannot be reached. -/
theorem firstHit_failed (hbps : fs.bytesPerSec = 512) (hroot : RootIs fs content sectors)
    (h : ¬∃ n, Finds fs content readable sectors filename n) :
    ∃ n, FirstHit (slotVerdict fs (faulty content readable) (target83 filename)) n .failed := by
  classical
  have hstop : ∃ k, ¬Reachable fs content readable sectors k :=
    ⟨sectors.length,fun hr => Nat.lt_irrefl _ hr.inside⟩
  have hbefore : ∀ i < Nat.find hstop, Reachable fs content readable sectors i :=
    fun i hi => not_not.mp (Nat.find_min hstop hi)
  have hreach : ∀ m < 16*Nat.find hstop, Reachable fs content readable sectors (m/16) :=
    fun m hm => hbefore _ (by omega)
  by_cases hend : ∃ m, m < 16*Nat.find hstop ∧
      (rootEntry content sectors m 0 = 0x00 ∨
        Names (target83 filename) (rootEntry content sectors m))
  · have hm := Nat.find_spec hend
    have hfirst : ∀ j < Nat.find hend, rootEntry content sectors j 0 ≠ 0x00 ∧
        ¬Names (target83 filename) (rootEntry content sectors j) := by
      intro j hj
      have hno := Nat.find_min hend hj
      have hlt : j < 16*Nat.find hstop := hj.trans hm.1
      exact ⟨fun hz => hno ⟨hlt,.inl hz⟩,fun hn => hno ⟨hlt,.inr hn⟩⟩
    refine ⟨Nat.find hend,?_,fun j hj => ?_⟩
    · rw [slotVerdict_reachable hbps hroot _ (hreach _ hm.1)]
      apply entryVerdict_end
      by_contra hne
      have hr := reachable_iff.mp (hreach _ hm.1)
      exact h ⟨_,hr.1,⟨hm.2.resolve_left hne,hne,hfirst⟩,hr.2⟩
    · rw [slotVerdict_reachable hbps hroot _ (hreach j (hj.trans hm.1))]
      exact entryVerdict_other (hfirst j hj).1 (hfirst j hj).2
  · refine ⟨16*Nat.find hstop,?_,fun j hj => ?_⟩
    · exact slotVerdict_unreachable hbps hroot _ hbefore (Nat.find_spec hstop)
    · rw [slotVerdict_reachable hbps hroot _ (hreach j hj)]
      have hno := not_exists.mp hend j
      exact entryVerdict_other (fun hz => hno ⟨hj,.inl hz⟩) fun hn => hno ⟨hj,.inr hn⟩

end Search

/-- A linear search: the first entry with the name before the end mark is found when
everything up to it can be read, and otherwise the outputs stay as they are. -/
theorem fatFindFile_linear {fs : FatFs} (hbps : fs.bytesPerSec = 512) (hspc : 0 < fs.secPerClus)
    (content : ℕ → Memory) (readable : ℕ → Bool) (sectors : List ℕ)
    (hroot : RootIs fs content sectors) (filename : CString) (firstCluster fileSize : Option ℕ) :
    (∀ n, Finds fs content readable sectors filename n →
      ∃ enough, ∀ fuel, enough ≤ fuel →
        fatFindFileCall fuel fs (faulty content readable) filename firstCluster fileSize =
          some ⟨0,
            firstCluster.map fun _ => load 2 (rootEntry content sectors n) 20 <<< 16 |||
              load 2 (rootEntry content sectors n) 26,
            fileSize.map fun _ => load 4 (rootEntry content sectors n) 28⟩) ∧
    ((¬∃ n, Finds fs content readable sectors filename n) →
      ∃ enough, ∀ fuel, enough ≤ fuel →
        fatFindFileCall fuel fs (faulty content readable) filename firstCluster fileSize =
          some ⟨-1,firstCluster,fileSize⟩) := by
  have hcall : ∀ r, (∃ n, FirstHit (slotVerdict fs (faulty content readable)
      (target83 filename)) n r) → ∃ enough, ∀ fuel, enough ≤ fuel →
        fatFindFileCall fuel fs (faulty content readable) filename firstCluster fileSize =
          some (r.store firstCluster fileSize) := by
    intro r hr
    obtain ⟨enough,henough⟩ := (answers_iff hspc _ filename r).mpr hr
    refine ⟨enough,fun fuel hfuel => ?_⟩
    unfold fatFindFileCall
    rw [henough fuel hfuel]
    rfl
  constructor
  · intro n hn
    exact hcall _ ⟨n,firstHit_found hbps hroot hn⟩
  · intro hno
    exact hcall _ (firstHit_failed hbps hroot hno)

/-- A FAT16 volume with 16 root entries in sector 33. -/
def areaVolume : FatFs := ⟨0,512,1,1,1,32,33,16,34,8192,8158,0,16⟩

/-- A deleted entry, and then the file A in cluster 5 with 9 bytes. -/
def areaContent : ℕ → Memory := fun _ i =>
  if i < 32 then 0xE5 else if i = 32 then 0x41 else if i < 43 then 0x20
  else if i = 58 then 5 else if i = 60 then 9 else 0

theorem fatFindFile_linear_area : ∃ enough, ∀ fuel, enough ≤ fuel →
    fatFindFileCall fuel areaVolume (faulty areaContent fun lba => lba = 33) ⟨[0x61],by simp⟩
      (some 0) (some 0) = some ⟨0,some 5,some 9⟩ := by
  have hroot : RootIs areaVolume areaContent [33] := by
    unfold RootIs
    decide +kernel
  have hfirst : FirstNamed (target83 ⟨[0x61],by simp⟩) (rootEntry areaContent [33]) 1 := by
    constructor
    · unfold Names
      decide +kernel
    · decide +kernel
    · unfold Names
      decide +kernel
  exact (fatFindFile_linear rfl (by decide) areaContent (fun lba => lba = 33) [33] hroot
    ⟨[0x61],by simp⟩ (some 0) (some 0)).1 1 ⟨by decide,hfirst,by decide +kernel⟩

end Gemiboot.FatReader
