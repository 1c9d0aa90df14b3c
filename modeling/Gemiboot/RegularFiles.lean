import Gemiboot.DirectorySearch

/-!
# Files and directories of one name

`fat_find_file` skips deleted entries and volume labels, but not subdirectories, which
the search of the UEFI loaders leaves out.
-/
namespace Gemiboot.FatReader
open ByteMemory ShortNames FirstHits

/-- The 32 bytes of slot `n` of the root directory, if it can be read. -/
def rootSlot (fs : FatFs) (read : Disk) (n : ℕ) : Option Memory :=
  (rootBuf fs read (n/16)).map fun buf i => buf (32*(n%16)+i)

def IsDirectory (entry : Memory) : Prop := entry 11 &&& 0x10 ≠ 0

instance (entry : Memory) : Decidable (IsDirectory entry) := inferInstanceAs (Decidable (_ ≠ _))

/-- Neither a volume label nor a subdirectory. -/
def IsRegular (entry : Memory) : Prop := entry 11 &&& 0x08 = 0 ∧ ¬IsDirectory entry

/-- What a slot decides for a search that leaves out subdirectories. -/
def fileVerdict (fs : FatFs) (read : Disk) (target : Memory) (n : ℕ) : Option Search :=
  match rootSlot fs read n with
  | none => some .failed
  | some e => if e 0 ≠ 0x00 ∧ IsDirectory e then none else entryVerdict target e 0

/-- What is reported is a regular file, and the first one with the name is reported. -/
structure LoadsRegular (fs : FatFs) (read : Disk) (filename : CString) : Prop where
  regular : ∀ c s, Answers fs read filename (.found c s) →
    ∃ n e, FirstHit (slotVerdict fs read (target83 filename)) n (.found c s) ∧
      rootSlot fs read n = some e ∧ IsRegular e
  first : ∀ n c s, FirstHit (fileVerdict fs read (target83 filename)) n (.found c s) →
    Answers fs read filename (.found c s) ∧
      FirstHit (slotVerdict fs read (target83 filename)) n (.found c s)

/-- The first live entry with the name is a subdirectory. -/
structure DirectoryFirst (fs : FatFs) (read : Disk) (target : Memory) (n : ℕ) : Prop where
  directory : ∃ e, rootSlot fs read n = some e ∧ e 0 ≠ 0x00 ∧ Names target e ∧ IsDirectory e
  before : ∀ j < n, ∃ e, rootSlot fs read j = some e ∧ e 0 ≠ 0x00 ∧ ¬Names target e

section Slots
variable {fs : FatFs} {read : Disk} {target : Memory}

theorem slotVerdict_slot (n : ℕ) : slotVerdict fs read target n =
    match rootSlot fs read n with
    | none => some .failed
    | some e => entryVerdict target e 0 := by
  unfold slotVerdict rootSlot
  cases rootBuf fs read (n/16) with
  | none => rfl
  | some buf => exact entryVerdict_shift target buf _

theorem slotVerdict_none {n : ℕ} : slotVerdict fs read target n = none ↔
    ∃ e, rootSlot fs read n = some e ∧ e 0 ≠ 0x00 ∧ ¬Names target e := by
  rw [slotVerdict_slot]
  cases rootSlot fs read n with
  | none => simp
  | some e =>
      simp only [Option.some.injEq,exists_eq_left']
      by_cases hend : e 0 = 0x00
      · simp [entryVerdict_end hend,hend]
      · by_cases hn : Names target e
        · simp [entryVerdict_names hend hn,hn]
        · simp [entryVerdict_other hend hn,hn,hend]

theorem slotVerdict_found {n c s : ℕ} (h : slotVerdict fs read target n = some (.found c s)) :
    ∃ e, rootSlot fs read n = some e ∧ e 0 ≠ 0x00 ∧ Names target e := by
  rw [slotVerdict_slot] at h
  cases hslot : rootSlot fs read n with
  | none =>
      rw [hslot] at h
      cases h
  | some e =>
      rw [hslot] at h
      dsimp only at h
      refine ⟨e,rfl,?_,?_⟩
      · intro hend
        rw [entryVerdict_end hend] at h
        cases h
      · by_contra hn
        by_cases hend : e 0 = 0x00
        · rw [entryVerdict_end hend] at h
          cases h
        · rw [entryVerdict_other hend hn] at h
          cases h

/-- A slot that decides in one search and not in the other is a subdirectory with the name. -/
theorem directory_of_disagree {n : ℕ} {r : Search} (hs : slotVerdict fs read target n = some r)
    (hf : fileVerdict fs read target n = none) :
    ∃ e, rootSlot fs read n = some e ∧ e 0 ≠ 0x00 ∧ Names target e ∧ IsDirectory e := by
  rw [slotVerdict_slot] at hs
  unfold fileVerdict at hf
  cases hslot : rootSlot fs read n with
  | none =>
      rw [hslot] at hf
      cases hf
  | some e =>
      rw [hslot] at hs hf
      dsimp only at hs hf
      rw [hs] at hf
      split_ifs at hf with hdir
      refine ⟨e,rfl,hdir.1,?_,hdir.2⟩
      by_contra hn
      rw [entryVerdict_other hdir.1 hn] at hs
      cases hs

end Slots

/-- Where both searches take a slot for the name, they report the same. -/
theorem slotVerdict_of_fileVerdict {fs : FatFs} {read : Disk} {target : Memory} {n c s : ℕ}
    (h : fileVerdict fs read target n = some (.found c s)) :
    slotVerdict fs read target n = some (.found c s) := by
  rw [slotVerdict_slot]
  unfold fileVerdict at h
  cases hslot : rootSlot fs read n with
  | none =>
      rw [hslot] at h
      exact h
  | some e =>
      rw [hslot] at h
      dsimp only at h ⊢
      split_ifs at h with hdir
      exact h

/-- A subdirectory that comes first is what the search reports. -/
theorem LoadsRegular.clear {fs : FatFs} (hspc : 0 < fs.secPerClus) {read : Disk}
    {filename : CString} (h : LoadsRegular fs read filename) :
    ¬∃ n, DirectoryFirst fs read (target83 filename) n := by
  intro hdir
  obtain ⟨n,⟨e,hslot,hend,hn,hattr⟩,hbefore⟩ := hdir
  have hhit : FirstHit (slotVerdict fs read (target83 filename)) n
      (.found (load 2 e 20 <<< 16 ||| load 2 e 26) (load 4 e 28)) := by
    constructor
    · rw [slotVerdict_slot,hslot]
      exact entryVerdict_names hend hn
    · exact fun j hj => slotVerdict_none.mpr (hbefore j hj)
  obtain ⟨n',e',hhit',hslot',hregular⟩ :=
    h.regular _ _ ((answers_iff hspc read filename _).mpr ⟨n,hhit⟩)
  obtain ⟨rfl,-⟩ := hhit.unique hhit'
  rw [hslot] at hslot'
  cases hslot'
  exact hregular.2 hattr

/-- Without one, a slot passed over for the file is passed over by the search. -/
theorem slotVerdict_before {fs : FatFs} {read : Disk} {target : Memory}
    (hno : ¬∃ n, DirectoryFirst fs read target n) {n : ℕ}
    (hfile : ∀ j < n, fileVerdict fs read target j = none) :
    ∀ j < n, slotVerdict fs read target j = none := by
  intro j
  induction j using Nat.strong_induction_on with
  | _ j ih =>
      intro hj
      cases hs : slotVerdict fs read target j with
      | none => rfl
      | some r =>
          refine absurd ⟨j,?_,fun i hi => ?_⟩ hno
          · exact directory_of_disagree hs (hfile j hj)
          · exact slotVerdict_none.mp (ih i hi (hi.trans hj))

/-- Regular files are what is loaded exactly when no subdirectory takes the name first. -/
theorem loadsRegular_iff {fs : FatFs} (hspc : 0 < fs.secPerClus) (read : Disk)
    (filename : CString) :
    LoadsRegular fs read filename ↔ ¬∃ n, DirectoryFirst fs read (target83 filename) n := by
  constructor
  · exact fun h => h.clear hspc
  · intro hno
    constructor
    · intro c s hans
      obtain ⟨n,hhit⟩ := (answers_iff hspc read filename _).mp hans
      obtain ⟨e,hslot,hend,hn⟩ := slotVerdict_found hhit.1
      refine ⟨n,e,hhit,hslot,hn.2.1,fun hattr => hno ⟨n,⟨e,hslot,hend,hn,hattr⟩,?_⟩⟩
      exact fun j hj => slotVerdict_none.mp (hhit.2 j hj)
    · intro n c s hfile
      have hhit : FirstHit (slotVerdict fs read (target83 filename)) n (.found c s) :=
        ⟨slotVerdict_of_fileVerdict hfile.1,slotVerdict_before hno hfile.2⟩
      exact ⟨(answers_iff hspc read filename _).mpr ⟨n,hhit⟩,hhit⟩

/-- The name A, in the volume that has one file. -/
theorem loadsRegular_iff_area :
    LoadsRegular areaVolume (faulty areaContent fun lba => lba = 33) ⟨[0x61],by simp⟩ := by
  have hname : Names (target83 ⟨[0x61],by simp⟩) fun i => areaContent 33 (32+i) := by
    unfold Names
    decide +kernel
  have hslot : rootSlot areaVolume (faulty areaContent fun lba => lba = 33) 1 =
      some fun i => areaContent 33 (32+i) := rfl
  apply (loadsRegular_iff (by decide) _ _).mpr
  intro h
  obtain ⟨n,⟨e,he,-,hn,hdir⟩,hbefore⟩ := h
  rcases Nat.lt_trichotomy n 1 with hlt | rfl | hgt
  · obtain rfl : n = 0 := by omega
    obtain rfl := Option.some.inj he
    exact hn.1 rfl
  · rw [hslot] at he
    obtain rfl := Option.some.inj he
    exact hdir (by decide +kernel)
  · obtain ⟨e',he',-,hn'⟩ := hbefore 1 hgt
    rw [hslot] at he'
    obtain rfl := Option.some.inj he'
    exact hn' hname

/-- The directory A in cluster 3, and then the file A in cluster 5 with 9 bytes. -/
def shadowedContent : ℕ → Memory := fun _ i =>
  if i%32 = 0 ∧ i < 64 then 0x41 else if i%32 < 11 ∧ i < 64 then 0x20
  else if i = 11 then 0x10 else if i = 26 then 3
  else if i = 58 then 5 else if i = 60 then 9 else 0

/-- The directory is reported, and the file would have been there. -/
theorem shadowedContent_directory :
    (∀ fuel, fatFindFile fuel areaVolume (whole shadowedContent) ⟨[0x61],by simp⟩ =
      some (.found 3 0)) ∧
      ¬LoadsRegular areaVolume (whole shadowedContent) ⟨[0x61],by simp⟩ := by
  have hrun : ∀ fuel, fatFindFile fuel areaVolume (whole shadowedContent) ⟨[0x61],by simp⟩ =
      some (.found 3 0) := by
    intro fuel
    change fatFindFile 0 areaVolume (whole shadowedContent) ⟨[0x61],by simp⟩ = _
    decide +kernel
  have hfile : FirstHit (fileVerdict areaVolume (whole shadowedContent)
      (target83 ⟨[0x61],by simp⟩)) 1 (.found 5 9) := by
    unfold FirstHit
    decide +kernel
  refine ⟨hrun,fun h => ?_⟩
  obtain ⟨enough,henough⟩ := (h.first 1 5 9 hfile).1
  have hfound := henough enough le_rfl
  rw [hrun] at hfound
  cases hfound

end Gemiboot.FatReader
