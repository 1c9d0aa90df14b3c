import Gemiboot.ElfReads
import Gemiboot.ElfPlacement
import Gemiboot.LastWriter

/-!
# The loader implements ELF loading

As long as no sum wraps and no destination touches the image, the loop reads the
image it was given in every pass. The passes then are a sequence of writers, one
for each program header, and memory is what the last writer of each address has
left there. A header or a file range outside the image ends the run before it has
written anything of that header.
-/
namespace Gemiboot.ElfLoad
open ByteMemory MemoryRoutines LastWriter

def Phdr.Covers (p : Phdr) (x : ℕ) : Prop := p.Loads ∧ p.pPaddr ≤ x ∧ x < p.pPaddr+p.span

/-- A 32-bit little-endian executable for the 386 with a program header table. -/
structure ValidHeader (img : Memory) (image size : ℕ) : Prop where
  present : image ≠ 0
  whole : ehdrSize ≤ size
  magic : img 0 = 0x7F ∧ img 1 = 0x45 ∧ img 2 = 0x4C ∧ img 3 = 0x46
  format : img 4 = 1 ∧ img 5 = 1
  target : load 2 img 16 = 2 ∧ load 2 img 18 = 3
  table : ePhoff img ≠ 0 ∧ ePhnum img ≠ 0

/-- The image is in memory, no offset or address the loader computes wraps 32 bits,
and no byte of a PT_LOAD destination lies in the image. -/
structure Clear (w : ℕ) (m : Memory) (image size : ℕ) : Prop where
  stored : image+size ≤ w
  headers : ∀ i < ePhnum (view w m image), headerOffset (view w m image) i+phdrSize < space32
  files : ∀ i < ePhnum (view w m image), headerOffset (view w m image) i+phdrSize ≤ size →
    (segment (view w m image) i).Loads →
      (segment (view w m image) i).pOffset+(segment (view w m image) i).pFilesz < space32
  destinations : ∀ i < ePhnum (view w m image),
    headerOffset (view w m image) i+phdrSize ≤ size → (segment (view w m image) i).Loads →
      (segment (view w m image) i).pPaddr+(segment (view w m image) i).span ≤ space32
  apart : ∀ i < ePhnum (view w m image), headerOffset (view w m image) i+phdrSize ≤ size →
    ∀ x, (segment (view w m image) i).Covers x → x < image ∨ image+size ≤ x

/-- Memory after the PT_LOAD headers below `n`, in index order: every address has
its byte of the last of them that covers it. -/
def LoadedBelow (img m : Memory) (n : ℕ) (mem : Memory) : Prop :=
  GivenByLast (fun i => (segment img i).Covers)
    (fun i x => (segment img i).byte img (x-(segment img i).pPaddr)) m n mem

/-- The run comes to every header up to `n` with the ones before it loaded, and
ends there. -/
structure StopsAt (w : ℕ) (m : Memory) (image size n : ℕ) (r : ℕ × LoadState) : Prop where
  passes : ∀ i ≤ n, ∃ s, Reached w m image size (i,s) ∧ LoadedBelow (view w m image) m i s.mem
  memory : LoadedBelow (view w m image) m n r.2.mem

/-- ELF loading: the whole image, or everything before the first header that does
not lie in it. -/
structure LoadsElf (w : ℕ) (m : Memory) (image size : ℕ) (r : ℕ × LoadState) : Prop where
  whole : ValidHeader (view w m image) image size →
    (∀ i < ePhnum (view w m image), Contained (view w m image) i size) →
      r.1 = eEntry (view w m image) ∧ StopsAt w m image size (ePhnum (view w m image)) r
  cut : ValidHeader (view w m image) image size → ∀ n < ePhnum (view w m image),
    (∀ i < n, Contained (view w m image) i size) → ¬Contained (view w m image) n size →
      r.1 = 0 ∧ StopsAt w m image size n r
  invalid : ¬ValidHeader (view w m image) image size → r.1 = 0 ∧ r.2.mem = m

theorem elf32Validate_iff {w : ℕ} {m : Memory} {image size : ℕ} :
    elf32Validate w m image size = 0 ↔ ValidHeader (view w m image) image size := by
  unfold elf32Validate
  dsimp only
  constructor
  · intro h
    split_ifs at h with h₁ h₂ h₃ h₄
    simp only [not_or,not_not,Nat.not_lt] at h₁ h₂ h₃ h₄
    exact ⟨h₁.1,h₁.2,h₂,⟨h₃.1,h₃.2.1⟩,h₃.2.2,h₄⟩
  · intro h
    have h₁ := h.whole
    obtain ⟨a₀,a₁,a₂,a₃⟩ := h.magic
    obtain ⟨b₀,b₁⟩ := h.format
    obtain ⟨c₀,c₁⟩ := h.target
    obtain ⟨d₀,d₁⟩ := h.table
    simp [h.present,Nat.not_lt.mpr h₁,a₀,a₁,a₂,a₃,b₀,b₁,c₀,c₁,d₀,d₁]

variable {w : ℕ} {m : Memory} {image size : ℕ}

/-! ### One segment -/

/-- Writing the destination of segment `n` is one more writer. -/
theorem LoadedBelow.write {img mem : Memory} {n : ℕ} (h : LoadedBelow img m n mem)
    (hl : (segment img n).Loads) : LoadedBelow img m (n+1)
      (blit mem (segment img n).pPaddr (segment img n).span ((segment img n).byte img)) := by
  apply GivenByLast.succ h
  · intro x hx
    exact blit_inside hx.2.1 hx.2.2
  · intro x hx
    apply blit_outside
    by_contra hin
    exact hx ⟨hl,by omega,by omega⟩

theorem LoadedBelow.skip {img mem : Memory} {n : ℕ} (h : LoadedBelow img m n mem)
    (hl : ¬(segment img n).Loads) : LoadedBelow img m (n+1) mem :=
  GivenByLast.succ h (fun _ hx => absurd hx.1 hl) fun _ _ => rfl

/-! ### The image in every pass -/

/-- `mem` holds the image as it was given. -/
def SameImage (w : ℕ) (m : Memory) (image size : ℕ) (mem : Memory) : Prop :=
  ∀ k < size, view w mem image k = view w m image k

/-- No writer below `i` covers a byte of the image. -/
theorem LoadedBelow.sameImage (h : Clear w m image size)
    {i : ℕ} (hi : i ≤ ePhnum (view w m image))
    (hc : ∀ j < i, Contained (view w m image) j size) {mem : Memory}
    (hm : LoadedBelow (view w m image) m i mem) : SameImage w m image size mem := by
  intro k hk
  rw [view_of_lt h.stored mem hk,view_of_lt h.stored m hk]
  apply hm.uncovered
  intro j hj hx
  rcases h.apart j (by omega) (hc j hj).header _ hx with hlt | hle <;> omega

theorem SameImage.load {mem : Memory} (h : SameImage w m image size mem) {k off : ℕ}
    (hle : off+k ≤ size) : load k (view w mem image) off = load k (view w m image) off :=
  load_congr fun i hi => h (off+i) (by omega)

theorem SameImage.phnum {mem : Memory} (h : SameImage w m image size mem)
    (hs : ehdrSize ≤ size) : ePhnum (view w mem image) = ePhnum (view w m image) :=
  h.load (Nat.le_trans (by decide) hs)

theorem SameImage.entry {mem : Memory} (h : SameImage w m image size mem)
    (hs : ehdrSize ≤ size) : eEntry (view w mem image) = eEntry (view w m image) :=
  h.load (Nat.le_trans (by decide) hs)

/-- Without wraps the offset is the one the file gives. -/
theorem SameImage.phdrOffset {mem : Memory} (h : SameImage w m image size mem)
    (hs : ehdrSize ≤ size) {i : ℕ} (hi : i < ePhnum (view w m image))
    (hfit : headerOffset (view w m image) i+phdrSize < space32) :
    phdrOffset (view w mem image) i = headerOffset (view w m image) i := by
  have h₁ : ePhoff (view w mem image) = ePhoff (view w m image) :=
    h.load (Nat.le_trans (by decide) hs)
  have h₂ : ePhentsize (view w mem image) = ePhentsize (view w m image) :=
    h.load (Nat.le_trans (by decide) hs)
  have h₃ := headerOffset_eq hi
  have hlt : headerOffset (view w m image) i < space32 := by omega
  rw [ElfLoad.phdrOffset] at h₃ ⊢
  rw [h₁,h₂,h₃]
  exact u32_of_lt hlt

theorem SameImage.phdrAt {mem : Memory} (h : SameImage w m image size mem) {off : ℕ}
    (hle : off+phdrSize ≤ size) :
    phdrAt (view w mem image) off = phdrAt (view w m image) off := by
  apply phdrAt_congr
  intro k _ hk
  exact h k (by omega)

/-- A destination apart from the image leaves it as it is. -/
theorem SameImage.blit {mem src : Memory} (h : SameImage w m image size mem)
    (hst : image+size ≤ w) {a n : ℕ} (ha : ∀ x, a ≤ x → x < a+n → x < image ∨ image+size ≤ x) :
    SameImage w m image size (blit mem a n src) := by
  intro k hk
  have hkept := h k hk
  rw [view_of_lt hst _ hk] at hkept ⊢
  rw [blit_outside,hkept]
  by_contra hin
  rcases ha (image+k) (by omega) (by omega) with hlt | hle <;> omega

/-! ### One pass -/

section
variable (hw : space32 ≤ w) (h : Clear w m image size)
include hw h

/-- The BSS step reads the header as the image has it, and completes the segment. -/
theorem clearBss_writes {i : ℕ} (hi : i < ePhnum (view w m image))
    (hhead : headerOffset (view w m image) i+phdrSize ≤ size)
    (hl : (segment (view w m image) i).Loads) {mem : Memory}
    (hm : SameImage w m image size mem) {s : LoadState} :
    let p := segment (view w m image) i
    s.mem = blit mem p.pPaddr p.pFilesz (fun t => view w m image (p.pOffset+t)) →
    (clearBss w image (headerOffset (view w m image) i) s).mem =
      blit mem p.pPaddr p.span (p.byte (view w m image)) := by
  intro p hs
  have hfile : p.pFilesz ≤ p.span := Nat.le_max_left _ _
  have hdest : p.pPaddr+p.span ≤ space32 := h.destinations i hi hhead hl
  have hsame : SameImage w m image size s.mem := by
    rw [hs]
    apply hm.blit h.stored
    intro x h₁ h₂
    have hx : p.Covers x := ⟨hl,h₁,by omega⟩
    exact h.apart i hi hhead x hx
  have hp : phdrAt (view w s.mem image) (headerOffset (view w m image) i) = p :=
    hsame.phdrAt hhead
  exact clearBss_blit (congrArg Phdr.pPaddr hp) (congrArg Phdr.pFilesz hp)
    (congrArg Phdr.pMemsz hp) (hdest.trans hw) hs

/-- The copy of a file range inside the image, which no byte of it overwrites. -/
theorem memcpy_writes {i : ℕ} (hi : i < ePhnum (view w m image))
    (hc : Contained (view w m image) i size) (hl : (segment (view w m image) i).Loads)
    (hpos : 0 < (segment (view w m image) i).pFilesz) {mem : Memory}
    (hm : SameImage w m image size mem) :
    let p := segment (view w m image) i
    memcpy w mem p.pPaddr ((image+p.pOffset)%w) p.pFilesz =
      blit mem p.pPaddr p.pFilesz (fun t => view w m image (p.pOffset+t)) := by
  intro p
  have hrange : p.pOffset+p.pFilesz ≤ size := hc.segment ⟨hl,hpos⟩
  have hfile : p.pFilesz ≤ p.span := Nat.le_max_left _ _
  have hdest : p.pPaddr+p.span ≤ space32 := h.destinations i hi hc.header hl
  have hst := h.stored
  have hpos' : 0 < p.pFilesz := hpos
  rw [Nat.mod_eq_of_lt (show image+p.pOffset < w by omega)]
  apply memcpy_eq_blit
  · omega
  · omega
  · intro t ht
    have hk := hm (p.pOffset+t) (by omega)
    rw [view_of_lt hst mem (by omega),← Nat.add_assoc] at hk
    exact hk
  · intro t ht u hu he
    have hx : p.Covers (p.pPaddr+u) := ⟨hl,by omega,by omega⟩
    rcases h.apart i hi hc.header _ hx with hlt | hle <;> omega

/-- A header inside the image is one more writer. -/
theorem loadHeader_contained (h52 : ehdrSize ≤ size) {i : ℕ} (hi : i < ePhnum (view w m image))
    (hc : Contained (view w m image) i size) {s : LoadState}
    (hm : SameImage w m image size s.mem) (hb : LoadedBelow (view w m image) m i s.mem) :
    ∃ s', loadHeader w image size i s = .ok s' ∧
      LoadedBelow (view w m image) m (i+1) s'.mem := by
  have hhead := hc.header
  have hoff := hm.phdrOffset h52 hi (h.headers i hi)
  have hseg : phdrAt (view w s.mem image) (headerOffset (view w m image) i) =
    segment (view w m image) i := hm.phdrAt hhead
  have h₁ : ¬(headerOffset (view w m image) i+phdrSize)%w > size := by
    have := Nat.mod_le (headerOffset (view w m image) i+phdrSize) w
    omega
  obtain ⟨s',hok,hmem⟩ := loadHeader_ok hoff (Phdr.alike_of_eq hseg) h₁ (fun hcopies => hc.segment hcopies)
    (fun hl hpos => memcpy_writes hw h hi hc hl hpos hm)
    (fun hl s' => clearBss_writes hw h hi hhead hl hm (s := s'))
  refine ⟨s',hok,?_⟩
  rw [hmem]
  by_cases hl : (segment (view w m image) i).Loads
  · rw [if_pos hl]
    exact hb.write hl
  · rw [if_neg hl]
    exact hb.skip hl

/-- A header or a file range outside the image is refused before anything is written. -/
theorem loadHeader_outside (h52 : ehdrSize ≤ size) {i : ℕ} (hi : i < ePhnum (view w m image))
    (hc : ¬Contained (view w m image) i size) {s : LoadState}
    (hm : SameImage w m image size s.mem) :
    ∃ s', loadHeader w image size i s = .error s' ∧ s'.mem = s.mem := by
  have hfit := h.headers i hi
  have hoff := hm.phdrOffset h52 hi hfit
  have hmod : (headerOffset (view w m image) i+phdrSize)%w =
    headerOffset (view w m image) i+phdrSize := Nat.mod_eq_of_lt (by omega)
  unfold loadHeader
  simp only [hoff,hmod]
  by_cases hhead : headerOffset (view w m image) i+phdrSize > size
  · rw [if_pos hhead]
    exact ⟨_,rfl,rfl⟩
  · -- the header is inside, so it is a segment whose file range is not
    have hle : headerOffset (view w m image) i+phdrSize ≤ size := Nat.le_of_not_lt hhead
    have hseg : phdrAt (view w s.mem image) (headerOffset (view w m image) i) =
      segment (view w m image) i := hm.phdrAt hle
    have hout : (segment (view w m image) i).Copies ∧
        size < (segment (view w m image) i).pOffset+(segment (view w m image) i).pFilesz := by
      by_contra hne
      refine hc ⟨hle,fun hcopies => ?_⟩
      by_contra hbig
      exact hne ⟨hcopies,Nat.lt_of_not_le hbig⟩
    have hsum := h.files i hi hle hout.1.1
    rw [if_neg hhead]
    simp only [hseg]
    rw [if_pos hout.1.1,if_pos hout.1.2,u32_of_lt hsum,if_pos hout.2]
    exact ⟨_,rfl,rfl⟩

/-! ### Whole runs -/

/-- Step and run: with the headers below `i` inside, the run comes to header `i`. -/
theorem reached_loaded (hv : elf32Validate w m image size = 0) {i : ℕ}
    (hi : i ≤ ePhnum (view w m image)) (hc : ∀ j < i, Contained (view w m image) j size) :
    ∃ s, Reached w m image size (i,s) ∧ LoadedBelow (view w m image) m i s.mem := by
  have h52 := (elf32Validate_size hv).2
  induction i with
  | zero => exact ⟨⟨m,headerReads⟩,⟨hv,.refl⟩,givenByLast_zero⟩
  | succ i ih =>
      obtain ⟨s,hs,hb⟩ := ih (by omega) fun j hj => hc j (by omega)
      have hm := hb.sameImage h (by omega) fun j hj => hc j (by omega)
      obtain ⟨s',hok,hb'⟩ := loadHeader_contained hw h h52 hi (hc i (by omega))
        (s := s.read 44 2) hm hb
      refine ⟨s',⟨hv,hs.2.tail ⟨?_,hok,rfl⟩⟩,hb'⟩
      change i < ePhnum (view w s.mem image)
      rw [hm.phnum h52]
      omega

end

/-- Without a wrap and apart from the image, `elf32_load` is ELF loading. -/
theorem elf32Load_loadsElf (hw : space32 ≤ w)
    (h : ValidHeader (view w m image) image size → Clear w m image size) :
    ∃ r, elf32Load w m image size = some r ∧ LoadsElf w m image size r := by
  obtain ⟨r,hr⟩ := elf32Load_total w m image size
  refine ⟨r,hr,?_,?_,?_⟩
  · intro hvalid hc
    have hclear := h hvalid
    have hv := elf32Validate_iff.mpr hvalid
    obtain ⟨s,hs,hb⟩ := reached_loaded hw hclear hv le_rfl hc
    have hm := hb.sameImage hclear le_rfl hc
    have hend : EndsAt w image size (ePhnum (view w m image),s)
        (eEntry (view w s.mem image),(s.read 44 2).read 24 4) :=
      .inl ⟨Nat.le_of_eq (hm.phnum hvalid.whole),rfl⟩
    have hres := result_of_reached hs hend hr
    subst hres
    refine ⟨hm.entry hvalid.whole,?_,hb⟩
    intro i hi
    exact reached_loaded hw hclear hv hi fun j hj => hc j (by omega)
  · intro hvalid n hn hc hout
    have hclear := h hvalid
    have hv := elf32Validate_iff.mpr hvalid
    obtain ⟨s,hs,hb⟩ := reached_loaded hw hclear hv (Nat.le_of_lt hn) hc
    have hm := hb.sameImage hclear (Nat.le_of_lt hn) hc
    obtain ⟨s',herr,hmem⟩ := loadHeader_outside hw hclear hvalid.whole hn hout
      (s := s.read 44 2) hm
    have hlt : n < ePhnum (view w s.mem image) := by
      rw [hm.phnum hvalid.whole]
      exact hn
    have hend : EndsAt w image size (n,s) (0,s') := .inr ⟨hlt,herr,rfl⟩
    have hres := result_of_reached hs hend hr
    subst hres
    refine ⟨rfl,?_,?_⟩
    · intro i hi
      exact reached_loaded hw hclear hv (by omega) fun j hj => hc j (by omega)
    · dsimp only
      rw [hmem]
      exact hb
  · intro hinvalid
    have hv : elf32Validate w m image size ≠ 0 := fun hv => hinvalid (elf32Validate_iff.mp hv)
    rw [elf32Load,if_pos hv] at hr
    obtain rfl := Option.some.inj hr
    exact ⟨rfl,rfl⟩

/-- The last two bytes of the second segment fall on the first two of the first. -/
def overlappingKernel : Memory := twoSegments [4,0,0x10,0]

theorem overlappingKernel_clear : Clear space32 overlappingKernel kernelTempAddr 121 := by
  have hbelow : ∀ i < ePhnum (view space32 overlappingKernel kernelTempAddr),
      (segment (view space32 overlappingKernel kernelTempAddr) i).pPaddr+
        (segment (view space32 overlappingKernel kernelTempAddr) i).span ≤ kernelTempAddr := by
    decide +kernel
  constructor
  · decide
  · decide +kernel
  · decide +kernel
  · decide +kernel
  · intro i hi _ x hx
    exact .inl (hx.2.2.trans_le (hbelow i hi))

theorem elf32Load_loadsElf_overlappingKernel : ∃ r,
    elf32Load space32 overlappingKernel kernelTempAddr 121 = some r ∧
      LoadsElf space32 overlappingKernel kernelTempAddr 121 r :=
  elf32Load_loadsElf le_rfl fun _ => overlappingKernel_clear

end Gemiboot.ElfLoad
