import Gemiboot.ElfSemantics

/-!
# Loading a kernel file

The outcome of `elf32_load` on a file that has been read to memory, told in terms of the
file: whether it is a kernel the loader accepts, where its segments go and what they hold
afterwards. Both loaders use it on the buffer they read `gemios.elf` to.
-/
namespace Gemiboot.ElfLoad
open ByteMemory LastWriter

/-- A file that is accepted: the header is valid, every program header and every file
range lies in it, and the entry point is not the value that stands for an error. -/
structure Bootable (img : Memory) (image size : ℕ) : Prop where
  header : ValidHeader img image size
  contained : ∀ i < ePhnum img, Contained img i size
  entry : eEntry img ≠ 0

/-- No sum over the program headers of the file wraps 32 bits, and its segments stay
above `low` and apart from the file. -/
structure FileClear (img : Memory) (image size low : ℕ) : Prop where
  stored : image+size ≤ space32
  headers : ∀ i < ePhnum img, headerOffset img i+phdrSize < space32
  files : ∀ i < ePhnum img, headerOffset img i+phdrSize ≤ size → (segment img i).Loads →
    (segment img i).pOffset+(segment img i).pFilesz < space32
  destinations : ∀ i < ePhnum img, headerOffset img i+phdrSize ≤ size →
    (segment img i).Loads → (segment img i).pPaddr+(segment img i).span ≤ space32
  apart : ∀ i < ePhnum img, headerOffset img i+phdrSize ≤ size →
    ∀ x, (segment img i).Covers x → low ≤ x ∧ (x < image ∨ image+size ≤ x)

variable {w : ℕ} {m : Memory} {image size : ℕ}

/-! ### In memory -/

/-- An acceptable image is loaded whole. -/
theorem elf32Load_whole (hw : space32 ≤ w) (h : Clear w m image size)
    (hv : ValidHeader (view w m image) image size)
    (hc : ∀ i < ePhnum (view w m image), Contained (view w m image) i size) :
    ∃ r, elf32Load w m image size = some r ∧ r.1 = eEntry (view w m image) ∧
      LoadedBelow (view w m image) m (ePhnum (view w m image)) r.2.mem := by
  obtain ⟨r,hr⟩ := elf32Load_total w m image size
  obtain ⟨s,hs,hb⟩ := reached_loaded hw h (elf32Validate_iff.mpr hv) le_rfl hc
  have hm := hb.sameImage h le_rfl hc
  have hend : EndsAt w image size (ePhnum (view w m image),s)
      (eEntry (view w s.mem image),(s.read 44 2).read 24 4) :=
    .inl ⟨Nat.le_of_eq (hm.phnum hv.whole),rfl⟩
  have hres := result_of_reached hs hend hr
  subst hres
  exact ⟨_,hr,hm.entry hv.whole,hb⟩

/-- Any other image is refused, at the latest at the first header outside it. -/
theorem elf32Load_refused (hw : space32 ≤ w)
    (h : ValidHeader (view w m image) image size → Clear w m image size)
    (hn : ¬(ValidHeader (view w m image) image size ∧
      ∀ i < ePhnum (view w m image), Contained (view w m image) i size)) :
    ∃ r, elf32Load w m image size = some r ∧ r.1 = 0 := by
  obtain ⟨r,hr⟩ := elf32Load_total w m image size
  refine ⟨r,hr,?_⟩
  by_cases hv : ValidHeader (view w m image) image size
  · have hclear := h hv
    have hex : ∃ n, n < ePhnum (view w m image) ∧ ¬Contained (view w m image) n size := by
      by_contra hall
      refine hn ⟨hv,fun i hi => ?_⟩
      by_contra hc
      exact hall ⟨i,hi,hc⟩
    obtain ⟨n,⟨hlt,hout⟩,hleast⟩ : ∃ n, (n < ePhnum (view w m image) ∧
        ¬Contained (view w m image) n size) ∧ ∀ i < n, Contained (view w m image) i size := by
      classical
      refine ⟨Nat.find hex,Nat.find_spec hex,fun i hi => ?_⟩
      by_contra hc
      exact Nat.find_min hex hi ⟨hi.trans (Nat.find_spec hex).1,hc⟩
    obtain ⟨s,hs,hb⟩ := reached_loaded hw hclear (elf32Validate_iff.mpr hv) (Nat.le_of_lt hlt)
      hleast
    have hm := hb.sameImage hclear (Nat.le_of_lt hlt) hleast
    obtain ⟨s',herr,-⟩ := loadHeader_outside hw hclear hv.whole hlt hout (s := s.read 44 2) hm
    have hend : EndsAt w image size (n,s) (0,s') := by
      refine .inr ⟨?_,herr,rfl⟩
      rw [hm.phnum hv.whole]
      exact hlt
    rw [result_of_reached hs hend hr]
  · have hinvalid : elf32Validate w m image size ≠ 0 := fun he => hv (elf32Validate_iff.mp he)
    rw [elf32Load,if_pos hinvalid] at hr
    obtain rfl := Option.some.inj hr
    rfl

/-! ### From the file -/

section File
variable {img file : Memory} (h : ∀ k < size, img k = file k)
include h

theorem load_file {k off : ℕ} (hle : off+k ≤ size) : load k img off = load k file off :=
  load_congr fun i hi => h (off+i) (by omega)

theorem headerOffset_file (h52 : ehdrSize ≤ size) (i : ℕ) :
    headerOffset img i = headerOffset file i := by
  simp only [ehdrSize] at h52
  rw [headerOffset,headerOffset,ePhoff,ePhoff,ePhentsize,ePhentsize,load_file h (by omega),
    load_file h (by omega)]

theorem ePhnum_file (h52 : ehdrSize ≤ size) : ePhnum img = ePhnum file := by
  simp only [ehdrSize] at h52
  exact load_file h (by omega)

theorem eEntry_file (h52 : ehdrSize ≤ size) : eEntry img = eEntry file := by
  simp only [ehdrSize] at h52
  exact load_file h (by omega)

theorem segment_file (h52 : ehdrSize ≤ size) {i : ℕ}
    (hi : headerOffset file i+phdrSize ≤ size) : segment img i = segment file i := by
  simp only [phdrSize] at hi
  rw [segment,segment,headerOffset_file h h52]
  simp (disch := omega) only [phdrAt,load_file h]

theorem validHeader_file : ValidHeader img image size ↔ ValidHeader file image size := by
  constructor
  · intro hv
    have h52 : 52 ≤ size := hv.whole
    have hb : ∀ k < 20, img k = file k := fun k hk => h k (by omega)
    refine ⟨hv.present,hv.whole,?_,?_,?_,?_⟩
    · rw [← hb 0 (by decide),← hb 1 (by decide),← hb 2 (by decide),← hb 3 (by decide)]
      exact hv.magic
    · rw [← hb 4 (by decide),← hb 5 (by decide)]
      exact hv.format
    · rw [← load_file h (by omega),← load_file h (by omega)]
      exact hv.target
    · rw [ePhoff,ePhnum,← load_file h (by omega),← load_file h (by omega)]
      exact hv.table
  · intro hv
    have h52 : 52 ≤ size := hv.whole
    have hb : ∀ k < 20, img k = file k := fun k hk => h k (by omega)
    refine ⟨hv.present,hv.whole,?_,?_,?_,?_⟩
    · rw [hb 0 (by decide),hb 1 (by decide),hb 2 (by decide),hb 3 (by decide)]
      exact hv.magic
    · rw [hb 4 (by decide),hb 5 (by decide)]
      exact hv.format
    · rw [load_file h (by omega),load_file h (by omega)]
      exact hv.target
    · rw [ePhoff,ePhnum,load_file h (by omega),load_file h (by omega)]
      exact hv.table

end File

/-- The bytes of the file at the buffer. -/
theorem view_blit (hst : image+size ≤ w) (m file : Memory) :
    ∀ k < size, view w (blit m image size file) image k = file k := by
  intro k hk
  rw [view_of_lt hst _ hk]
  exact blit_at hk

theorem FileClear.clear {file : Memory} {low : ℕ} (h : FileClear file image size low)
    (hw : space32 ≤ w) (h52 : ehdrSize ≤ size) (m : Memory) :
    Clear w (blit m image size file) image size := by
  have hst : image+size ≤ w := h.stored.trans hw
  have hv := view_blit hst m file
  have hn := ePhnum_file hv h52
  have ho := headerOffset_file hv h52
  constructor
  · exact hst
  · intro i hi
    rw [ho]
    exact h.headers i (hn ▸ hi)
  · intro i hi hin
    rw [ho] at hin
    rw [segment_file hv h52 hin]
    exact h.files i (hn ▸ hi) hin
  · intro i hi hin
    rw [ho] at hin
    rw [segment_file hv h52 hin]
    exact h.destinations i (hn ▸ hi) hin
  · intro i hi hin
    rw [ho] at hin
    rw [segment_file hv h52 hin]
    exact fun x hx => (h.apart i (hn ▸ hi) hin x hx).2

/-- Memory after the load: every address has its byte of the last segment over it, and
an address under no segment is as it was. -/
def LoadedFile (file m mem : Memory) : Prop :=
  GivenByLast (fun i => (segment file i).Covers)
    (fun i x => (segment file i).byte file (x-(segment file i).pPaddr)) m (ePhnum file) mem

/-- The load of a file in the buffer succeeds on acceptable files and on no others. -/
theorem elf32Load_file {file : Memory} {low : ℕ} (hw : space32 ≤ w)
    (hstored : image+size ≤ space32)
    (h : ValidHeader file image size → FileClear file image size low) (m : Memory) :
    ∃ r, elf32Load w (blit m image size file) image size = some r ∧
      (Bootable file image size → r.1 = eEntry file ∧
        LoadedFile file (blit m image size file) r.2.mem) ∧
      (¬Bootable file image size → r.1 = 0) := by
  have hst : image+size ≤ w := hstored.trans hw
  have hv := view_blit hst m file
  by_cases hgood : ValidHeader file image size ∧ ∀ i < ePhnum file, Contained file i size
  · obtain ⟨hvalid,hcont⟩ := hgood
    have h52 := hvalid.whole
    have hn := ePhnum_file hv h52
    obtain ⟨r,hr,hentry,hload⟩ := elf32Load_whole hw ((h hvalid).clear hw h52 m)
      ((validHeader_file hv).mpr hvalid) fun i hi =>
        (contained_congr h52 hv i).mpr (hcont i (hn ▸ hi))
    rw [eEntry_file hv h52] at hentry
    refine ⟨r,hr,fun hboot => ⟨hentry,?_⟩,fun hnot => ?_⟩
    · rw [LoadedBelow,hn] at hload
      have hseg : ∀ i < ePhnum file, segment (view w (blit m image size file) image) i =
          segment file i := fun i hi => segment_file hv h52 (hcont i hi).header
      have hlast : ∀ x i, IsLast (fun i => (segment file i).Covers) (ePhnum file) x i →
          IsLast (fun i => (segment (view w (blit m image size file) image) i).Covers)
            (ePhnum file) x i := by
        intro x i hi
        refine ⟨hi.below,?_,fun j hij hj => ?_⟩
        · rw [hseg i hi.below]
          exact hi.hits
        · rw [hseg j hj]
          exact hi.final j hij hj
      constructor
      · intro x i hi
        rw [hload.covered x i (hlast x i hi),hseg i hi.below]
        have hx := hi.hits
        unfold Phdr.byte
        split_ifs with ht
        · have hin : (segment file i).pOffset+(segment file i).pFilesz ≤ size :=
            (hcont i hi.below).segment ⟨hx.1,show 0 < (segment file i).pFilesz by omega⟩
          exact hv _ (by omega)
        · rfl
      · intro x hx
        apply hload.uncovered x
        intro i hi
        rw [hseg i hi]
        exact hx i hi
    · rw [hentry]
      by_contra hne
      exact hnot ⟨hvalid,hcont,hne⟩
  · have hnot : ¬(ValidHeader (view w (blit m image size file) image) image size ∧
        ∀ i < ePhnum (view w (blit m image size file) image),
          Contained (view w (blit m image size file) image) i size) := by
      rintro ⟨hvalid,hcont⟩
      have h52 := hvalid.whole
      refine hgood ⟨(validHeader_file hv).mp hvalid,fun i hi => ?_⟩
      exact (contained_congr h52 hv i).mp (hcont i ((ePhnum_file hv h52).symm ▸ hi))
    obtain ⟨r,hr,hz⟩ := elf32Load_refused hw (fun hvalid =>
      (h ((validHeader_file hv).mp hvalid)).clear hw hvalid.whole m) hnot
    exact ⟨r,hr,fun hboot => absurd ⟨hboot.header,hboot.contained⟩ hgood,fun _ => hz⟩

/-- No segment of the file reaches below `low`. -/
theorem LoadedFile.low {file mem : Memory} {low : ℕ} (h : LoadedFile file m mem)
    (hc : FileClear file image size low)
    (hb : Bootable file image size) {x : ℕ} (hx : x < low) : mem x = m x := by
  apply GivenByLast.uncovered h x
  intro i hi hcov
  have := (hc.apart i hi (hb.contained i hi).header x hcov).1
  omega

/-! ### A small file -/

theorem fileClear_of_single {file : Memory} {low : ℕ} (hn : ePhnum file = 1)
    (stored : image+size ≤ space32) (header : headerOffset file 0+phdrSize < space32)
    (range : (segment file 0).pOffset+(segment file 0).pFilesz < space32)
    (above : low ≤ (segment file 0).pPaddr)
    (below : (segment file 0).pPaddr+(segment file 0).span ≤ image) :
    FileClear file image size low := by
  have hfirst : ∀ i < ePhnum file, i = 0 := fun i hi => by omega
  refine ⟨stored,?_,?_,?_,?_⟩
  · intro i hi
    rwa [hfirst i hi]
  · intro i hi _ _
    rwa [hfirst i hi]
  · intro i hi _ _
    rw [hfirst i hi]
    omega
  · intro i hi _ x hx
    rw [hfirst i hi] at hx
    exact ⟨above.trans hx.2.1,.inl (hx.2.2.trans_le below)⟩

/-- The file that `smallKernel` has been read from. -/
def smallFile : Memory := fun k => smallKernel (kernelTempAddr+k)

theorem smallFile_clear : FileClear smallFile kernelTempAddr 85 0x100000 := by
  apply fileClear_of_single <;> decide +kernel

theorem smallFile_bootable : Bootable smallFile kernelTempAddr 85 := by
  refine ⟨⟨?_,?_,?_,?_,?_,?_⟩,fun i hi => ?_,?_⟩
  any_goals decide +kernel
  have hn : ePhnum smallFile = 1 := by decide +kernel
  obtain rfl : i = 0 := by omega
  exact ⟨by decide +kernel,fun _ => by decide +kernel⟩

end Gemiboot.ElfLoad
