import Gemiboot.AllocationTable

/-!
# What the builder loses without saying so

The builder hands back a cluster number and nothing else: `add_dir_entry` has an
error result that neither caller reads, the allocator has none, and the rounding
of a size to clusters wraps. Nothing is lost or misplaced in a run in which every
call finds a free slot and enough clusters and no name looks deleted; a single
call with a size next to 2^32 is lost.
-/
namespace Gemiboot.Mkdisk
open ByteMemory ShortNames LinkedChains

/-- The only report a caller could get: zero and one number no cluster. -/
def Reported (os : List Object) : Prop := ∃ o ∈ os, o.first < 2

/-- Nothing was written past the disk or past a table, every file's bytes are
in its chain, and every object is listed in its parent. -/
structure Intact (os : List Object) (g : Globals) : Prop where
  sectors : ∀ s ∈ g.sectors, s < totalSectors
  entries : ∀ c ∈ g.entries, fatStart ≤ fat1Sec c ∧ fat1Sec c < fatStart+fatSize ∧
    fatStart+fatSize ≤ fat2Sec c ∧ fat2Sec c < dataStart
  stored : ∀ o ∈ os, ∀ data size, o.kind = .file data size →
    ∃ l, FatChain g.disk o.first l ∧ size ≤ 2048*l.length ∧
      ∀ d, data = some d → ∀ j < size, chainByte g.disk l j = d j
  listed : ∀ o ∈ os, ∃ k < 64, HoldsEntry g.disk (slotOffset o.parentClus k) o.listing.name
    o.listing.attr o.listing.clus o.listing.size

theorem Tiled.parent {os : List Object} {n : ℕ} (h : Tiled os n) {o : Object} (ho : o ∈ os) :
    o.parentClus ∈ directories os := by
  induction os generalizing n with
  | nil => simp at ho
  | cons p os ih =>
      have hsub : o.parentClus ∈ directories os → o.parentClus ∈ directories (p::os) := by
        intro hd
        rw [directories]
        split_ifs
        · exact List.mem_cons_of_mem _ hd
        · exact hd
      rcases List.mem_cons.mp ho with rfl | ho
      · exact hsub h.2.1
      · exact hsub (ih h.2.2 ho)

theorem listing_mem {os : List Object} {o : Object} (ho : o ∈ os) :
    o.listing ∈ listings os o.parentClus := by
  induction os with
  | nil => simp at ho
  | cons p os ih =>
      rw [listings]
      rcases List.mem_cons.mp ho with rfl | ho
      · rw [if_pos rfl]
        exact List.mem_append_right _ (List.mem_singleton.mpr rfl)
      · exact List.mem_append_left _ (List.mem_append_left _ (ih ho))

theorem Object.listing_name (o : Object) : o.listing.name = o.name := by
  rcases o.kind.cases with ⟨data,size,hk⟩ | hk <;> simp only [Object.listing,hk]

theorem listings_live {os : List Object} (h : ∀ o ∈ os, Live o.name) (d : ℕ) :
    ∀ e ∈ listings os d, Live e.name := by
  induction os with
  | nil => simp [listings]
  | cons o os ih =>
      have hdots : ∀ e ∈ o.dots, Live e.name := by
        intro e he
        simp only [Object.dots,List.mem_cons,List.not_mem_nil,or_false] at he
        rcases he with rfl | rfl <;> simp [Live,dotName,dotDotName,dot]
      intro e he
      simp only [listings,List.mem_append] at he
      rcases he with (he | he) | he
      · exact ih (fun p hp => h p (List.mem_cons_of_mem _ hp)) e he
      · split_ifs at he
        · exact hdots e he
        · simp at he
      · split_ifs at he
        · rw [List.mem_singleton.mp he,Object.listing_name]
          exact h o List.mem_cons_self
        · simp at he

theorem run_calls {cs : List Call} {v v' : Volume} (h : v.run cs = some v') :
    v'.objects.map Object.toCall = cs.reverse++v.objects.map Object.toCall := by
  induction cs generalizing v with
  | nil =>
      obtain rfl := Option.some.inj h
      rfl
  | cons c cs ih =>
      rw [Volume.run] at h
      split_ifs at h with ha
      rw [ih h,List.reverse_cons,List.append_assoc]
      rfl

theorem run_live {cs : List Call} {v : Volume} (h : emptyVolume.run cs = some v)
    (hl : ∀ c ∈ cs, Live c.name) : ∀ o ∈ v.objects, Live o.name := by
  intro o ho
  have hc := List.mem_map_of_mem (f := Object.toCall) ho
  rw [run_calls h] at hc
  refine hl o.toCall ?_
  simpa [emptyVolume] using hc

/-! ### Representation rules loss out -/

theorem formatted_sectors (mbr vbr ioSys : HostFile) :
    ∀ s ∈ (formatted mbr vbr ioSys).sectors, s < totalSectors := by
  have hl : ∀ s ∈ (layOut mbr vbr ioSys).sectors, s < totalSectors := by
    unfold layOut
    split_ifs <;> dsimp only <;> decide
  intro s hs
  simp only [formatted,fat32SetFatEntry,List.mem_cons] at hs
  rcases hs with rfl | rfl | rfl | rfl | rfl | rfl | hs
  all_goals first | exact hl s hs | decide

theorem formatted_entries (mbr vbr ioSys : HostFile) :
    (formatted mbr vbr ioSys).entries = [rootClus,1,0] := by
  simp only [formatted,fat32SetFatEntry,layOut]
  split_ifs <;> rfl

theorem Represents.holds {g₀ g : Globals} {v : Volume} (h : Represents g₀ v g)
    (hl : ∀ o ∈ v.objects, Live o.name) {o : Object} (ho : o ∈ v.objects) :
    ∃ k < 64, HoldsEntry g.disk (slotOffset o.parentClus k) o.listing.name o.listing.attr
      o.listing.clus o.listing.size := by
  obtain ⟨i,hi,he⟩ := List.getElem_of_mem (listing_mem ho)
  have hh := (h.listed _ (v.tiled.parent ho)).held (listings_live hl _) i hi
  rw [he] at hh
  exact ⟨i,hi.trans_le (h.room _),hh⟩

theorem Represents.fileByte {g₀ g : Globals} {v : Volume} (h : Represents g₀ v g) {o : Object}
    (ho : o ∈ v.objects) {data : Option Memory} {size : ℕ} (hk : o.kind = .file data size)
    {j : ℕ} (hj : j < 2048*o.kind.clusters) :
    chainByte g.disk o.chain j = fileBytes data size j := by
  have := (v.tiled.bounds ho).1
  rw [chainByte_eq (by omega) hj,h.allocated.files o ho data size hk j hj]

theorem Represents.intact {mbr vbr ioSys : HostFile} {g : Globals} {v : Volume}
    (h : Represents (formatted mbr vbr ioSys) v g) (hl : ∀ o ∈ v.objects, Live o.name) :
    Intact v.objects g := by
  have hlim : v.next ≤ 130044 := h.allocated.limit
  refine ⟨?_,?_,?_,fun o ho => h.holds hl ho⟩
  · intro s hs
    rcases h.allocated.visits.sectors s hs with hs | hs
    · exact formatted_sectors mbr vbr ioSys s hs
    · exact hs.2
  · intro c hc
    have hc' : c < fatEntries := by
      unfold fatEntries
      rcases h.allocated.visits.entries c hc with hc | hc
      · rw [formatted_entries] at hc
        simp only [rootClus,List.mem_cons,List.not_mem_nil,or_false] at hc
        omega
      · omega
    exact fatSec_bounds hc'
  · intro o ho data size hk
    have hcl : o.kind.clusters = max 1 ((size+2047)/2048) := by rw [hk]; rfl
    refine ⟨o.chain,h.chained ho,?_,?_⟩
    · rw [Object.chain_length]
      omega
    · rintro d rfl j hj
      rw [h.fileByte ho hk (by omega),fileBytes,if_pos hj]

/-- Every state of a run that stays within its bounds and uses no name that
looks deleted is intact. -/
theorem run_intact (mbr vbr : HostFile) {ioSys : HostFile} (hio : ioCopyInside ioSys)
    {cs : List Call} (hf : Fits cs) (hl : ∀ c ∈ cs, Live c.name) :
    let g₀ := formatted mbr vbr ioSys
    ∀ pre post, cs = pre++post → Intact (created [] pre g₀) (performAll pre g₀) := by
  rintro g₀ pre post rfl
  obtain ⟨v,hv⟩ := Option.isSome_iff_exists.mp hf
  obtain ⟨u,hu,-⟩ := run_append hv
  have hos : created [] pre g₀ = u.objects := created_eq (formatted_represents mbr vbr hio) hu
  have hul : ∀ o ∈ u.objects, Live o.name :=
    run_live hu fun c hc => hl c (List.mem_append_left _ hc)
  rw [hos]
  exact (run_represents mbr vbr hio hu).intact hul

instance (name : CString) : Decidable (Live name) := inferInstanceAs (Decidable (_ ≠ _))

theorem run_intact_nested : Intact
    (created [] nestedCalls (formatted emptyFile emptyFile emptyFile))
    (performAll nestedCalls (formatted emptyFile emptyFile emptyFile)) :=
  run_intact emptyFile emptyFile (by decide) (show Fits nestedCalls by decide) (by decide)
    nestedCalls [] rfl

/-! ### A size that wraps -/

theorem oversizedCall_nonzero : ∀ c ∈ ([0x41] : List UInt8), c ≠ 0 := by simp

/-- One file of 2^32 - 1 bytes. -/
def oversizedCall : Call := ⟨rootClus,⟨[0x41],oversizedCall_nonzero⟩,.file (some fun _ => 7) 4294967295⟩

/-- The rounded size wraps to no cluster at all, so one is used, the other bytes
are dropped, and the caller gets the number of that cluster. -/
theorem oversized_lost :
    let g₀ := formatted emptyFile emptyFile emptyFile
    ¬(Reported (created [] [oversizedCall] g₀) ∨
      Intact (created [] [oversizedCall] g₀) (performAll [oversizedCall] g₀)) := by
  intro g₀
  have hnum : numClusters 4294967295 = 1 := by decide
  have hnext : g₀.nextFreeClus = 3 := formatted_next _ _ _
  obtain ⟨hfirst,hs⟩ := writeClusters_spec (some fun _ => 7) (show 2 ≤ g₀.nextFreeClus by omega)
    (show g₀.nextFreeClus+numClusters 4294967295 ≤ clusterLimit by rw [hnext,hnum]; decide)
  rw [hnext] at hfirst
  rw [hnext,hnum] at hs
  have hperf : oversizedCall.perform g₀ =
      writeFileData rootClus ⟨[0x41],by simp⟩ (some fun _ => 7) 4294967295 g₀ := rfl
  have hcall : oversizedCall.perform g₀ = (3,addListing rootClus ⟨⟨[0x41],by simp⟩,attrArchive,3,
      4294967295⟩ (fat32SetFatEntry
        (writeClusters (some fun _ => 7) 1 0 ⟨0,0,0,4294967295⟩ g₀).1.prevClus endOfChain
        (writeClusters (some fun _ => 7) 1 0 ⟨0,0,0,4294967295⟩ g₀).2)) := by
    rw [hperf,writeFileData_eq]
    simp only [hnum] at hfirst ⊢
    simp only [hfirst]
  have hcreated : created [] [oversizedCall] g₀ = [⟨oversizedCall,3⟩] := by
    rw [created,created,hcall]
  rw [hcreated]
  rintro (⟨o,ho,h₂⟩ | hi)
  · rw [List.mem_singleton.mp ho] at h₂
    exact absurd h₂ (by decide)
  · obtain ⟨l,hl,hsize,-⟩ := hi.stored _ (List.mem_singleton.mpr rfl) _ _ rfl
    have hlast : entry false (performAll [oversizedCall] g₀).disk 3 = endOfChain := by
      rw [performAll,performAll,hcall]
      rw [entry_onlyCluster (addListing_only (by decide) (by decide) _ _).1 false (by decide),
        hs.entry false 3 (by decide)]
      decide
    rw [Chain.unique hl (.last hlast)] at hsize
    simp at hsize

end Gemiboot.Mkdisk
