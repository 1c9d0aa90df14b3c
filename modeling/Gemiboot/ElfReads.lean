import Gemiboot.ElfPlacement

/-!
# What the ELF loader reads

In the 32-bit build both range checks of `elf32_load` add two values from the
file in 32 bits. As long as no segment is placed over a header of the image, the
reads stay inside the image, and an image with a range outside it is refused,
exactly when no sum that matters wraps: a wrapped sum is small and passes a check
that the range itself would have failed.
-/
namespace Gemiboot.ElfLoad
open ByteMemory MemoryRoutines

/-- Every byte read, at an offset computed by 32-bit pointer arithmetic. -/
def Inside (size : ℕ) (reads : List (ℕ × ℕ)) : Prop :=
  ∀ x ∈ reads, ∀ k < x.2, u32 (x.1+k) < size

structure Contained (img : Memory) (i size : ℕ) : Prop where
  header : headerOffset img i+phdrSize ≤ size
  segment : (phdrAt img (headerOffset img i)).Copies →
    (phdrAt img (headerOffset img i)).pOffset+(phdrAt img (headerOffset img i)).pFilesz ≤ size

/-- The end of the header is representable, and so is the end of a segment
unless the wrapped end is refused after all. -/
structure SumsFit (img : Memory) (i size : ℕ) : Prop where
  header : phdrOffset img i+phdrSize < space32
  segment : phdrOffset img i+phdrSize ≤ size → (phdrAt img (phdrOffset img i)).Copies →
    let p := phdrAt img (phdrOffset img i)
    p.pOffset+p.pFilesz < space32 ∨ size < u32 (p.pOffset+p.pFilesz)

/-- Header `i`, where the loop looks for it, and what its segment copies lie in
the image. -/
structure InImage (img : Memory) (i size : ℕ) : Prop where
  header : phdrOffset img i+phdrSize ≤ size
  segment : (phdrAt img (phdrOffset img i)).Copies →
    (phdrAt img (phdrOffset img i)).pOffset+(phdrAt img (phdrOffset img i)).pFilesz ≤ size

/-- One of the two checks of a pass fails. -/
def Refused (img : Memory) (i size : ℕ) : Prop :=
  let p := phdrAt img (phdrOffset img i)
  size < u32 (phdrOffset img i+phdrSize) ∨ p.Copies ∧ size < u32 (p.pOffset+p.pFilesz)

/-! ### Ranges -/

theorem inside_range {off len size : ℕ} (ho : off < space32) (hs : size < space32) :
    Inside size [(off,len)] ↔ len = 0 ∨ off+len ≤ size := by
  have hw : space32 = 4294967296 := rfl
  constructor
  · intro h
    by_contra hne
    have hne' : 0 < len ∧ size < off+len := by omega
    by_cases hend : off+len ≤ space32
    · have hl := h (off,len) (by simp) (len-1) (by dsimp only; omega)
      rw [u32_of_lt (by dsimp only; omega)] at hl
      dsimp only at hl
      omega
    · -- the range runs through the last byte of the address space
      have hl := h (off,len) (by simp) (4294967295-off) (by dsimp only; omega)
      rw [u32_of_lt (by dsimp only; omega)] at hl
      dsimp only at hl
      omega
  · intro h x hx k hk
    obtain rfl := List.mem_singleton.mp hx
    dsimp only at hk ⊢
    rw [u32_of_lt (by omega)]
    omega

theorem inside_append {size : ℕ} {l l' : List (ℕ × ℕ)} :
    Inside size (l++l') ↔ Inside size l ∧ Inside size l' := by
  simp only [Inside,List.mem_append]
  constructor
  · intro h
    exact ⟨fun x hx => h x (.inl hx),fun x hx => h x (.inr hx)⟩
  · rintro ⟨h,h'⟩ x (hx | hx)
    · exact h x hx
    · exact h' x hx

theorem inside_cons {size : ℕ} {x : ℕ × ℕ} {l : List (ℕ × ℕ)} :
    Inside size (x::l) ↔ Inside size [x] ∧ Inside size l := by
  rw [← List.singleton_append,inside_append]

theorem phdrOffset_lt (img : Memory) (i : ℕ) : phdrOffset img i < space32 := u32_lt _

/-! ### One pass -/

def outcome : Except LoadState LoadState → LoadState
  | .error s => s
  | .ok s => s

/-- The ranges one pass reads, the latest first. -/
def passReads (img : Memory) (i size : ℕ) : List (ℕ × ℕ) :=
  let off := phdrOffset img i
  let p := phdrAt img off
  if size < u32 (off+phdrSize) then [(42,2),(28,4)]
  else if p.Copies ∧ size < u32 (p.pOffset+p.pFilesz) then [(off,phdrSize),(42,2),(28,4)]
  else if p.Copies then
    [(off,phdrSize),(p.pOffset,p.pFilesz),(off,phdrSize),(42,2),(28,4)]
  else if p.pType = ptLoad then [(off,phdrSize),(off,phdrSize),(42,2),(28,4)]
  else [(off,phdrSize),(42,2),(28,4)]

theorem clearBss_reads (w image off : ℕ) (s : LoadState) :
    (clearBss w image off s).reads = (off,phdrSize)::s.reads := by
  unfold clearBss
  dsimp only
  split_ifs <;> rfl

theorem loadHeader_reads (image size i : ℕ) (s : LoadState) :
    (outcome (loadHeader space32 image size i s)).reads =
      passReads (view space32 s.mem image) i size++s.reads := by
  have hw : ∀ n, n%space32 = u32 n := fun _ => rfl
  unfold loadHeader passReads
  simp only [hw,Phdr.Copies,gt_iff_lt]
  generalize phdrOffset (view space32 s.mem image) i = off
  generalize phdrAt (view space32 s.mem image) off = p
  by_cases h₁ : size < u32 (off+phdrSize)
  · simp only [if_pos h₁,outcome,LoadState.read,List.cons_append,List.nil_append]
  by_cases h₂ : p.pType = ptLoad
  · by_cases h₃ : 0 < p.pFilesz
    · by_cases h₄ : size < u32 (p.pOffset+p.pFilesz)
      · simp only [if_neg h₁,h₂,h₃,h₄,and_self,if_true,outcome,LoadState.read,List.cons_append,
          List.nil_append]
      · simp only [if_neg h₁,h₂,h₃,h₄,and_self,and_false,if_true,if_false,outcome,clearBss_reads,
          LoadState.read,List.cons_append,List.nil_append]
    · simp only [if_neg h₁,h₂,h₃,and_false,false_and,if_true,if_false,outcome,clearBss_reads,
        LoadState.read,List.cons_append,List.nil_append]
  · simp only [if_neg h₁,h₂,false_and,if_false,outcome,LoadState.read,List.cons_append,
      List.nil_append]

theorem loadHeader_refused (image size i : ℕ) (s : LoadState) :
    (∃ s', loadHeader space32 image size i s = .error s') ↔
      Refused (view space32 s.mem image) i size := by
  have hw : ∀ n, n%space32 = u32 n := fun _ => rfl
  unfold loadHeader Refused
  simp only [hw,Phdr.Copies,gt_iff_lt]
  split_ifs <;> simp_all

section Pass
variable {img : Memory} {i size : ℕ}

theorem inside_fields (h₅₂ : ehdrSize ≤ size) (hs : size < space32) :
    Inside size [(42,2),(28,4)] := by
  have h52 : 52 ≤ size := h₅₂
  have hw : space32 = 4294967296 := rfl
  rw [inside_cons,inside_range (by omega) hs,inside_range (by omega) hs]
  omega

theorem inside_header (hs : size < space32) :
    Inside size [(phdrOffset img i,phdrSize)] ↔ phdrOffset img i+phdrSize ≤ size := by
  rw [inside_range (phdrOffset_lt img i) hs]
  simp only [phdrSize]
  omega

theorem inside_segment {p : Phdr} (hp : p.pOffset < space32) (hs : size < space32)
    (hc : p.Copies) : Inside size [(p.pOffset,p.pFilesz)] ↔ p.pOffset+p.pFilesz ≤ size := by
  have hpos := hc.2
  rw [inside_range hp hs]
  omega

/-- The reads of one pass stay inside exactly when its sums fit. -/
theorem inside_passReads (h₅₂ : ehdrSize ≤ size) (hs : size < space32) :
    Inside size (passReads img i size) ↔ SumsFit img i size := by
  have h52 : 52 ≤ size := h₅₂
  have hw : space32 = 4294967296 := rfl
  have hoff := phdrOffset_lt img i
  have hfields := inside_fields h₅₂ hs
  have hhead := @inside_header img i size hs
  generalize hp : phdrAt img (phdrOffset img i) = p
  have hpo : p.pOffset < space32 := by
    rw [← hp]
    exact load_lt 4 img _
  have hsum : p.pFilesz < space32 := by
    rw [← hp]
    exact load_lt 4 img _
  unfold passReads
  simp only [hp]
  constructor
  · intro h
    constructor
    · -- a wrapped end is below 32 and passes the check
      by_contra hbig
      have hu : u32 (phdrOffset img i+phdrSize) ≤ size := by
        simp only [u32,phdrSize] at *
        omega
      rw [if_neg (by omega)] at h
      have hh : Inside size [(phdrOffset img i,phdrSize)] := by
        split_ifs at h <;> exact (inside_cons.mp h).1
      rw [hhead] at hh
      omega
    · intro hin hc
      simp only [hp] at hc ⊢
      by_contra hbig
      rw [if_neg (by rw [u32_of_lt (by omega)]; omega),if_neg (by rintro ⟨-,hlt⟩; omega),
        if_pos hc] at h
      have hh := (inside_cons.mp (inside_cons.mp h).2).1
      rw [inside_segment hpo hs hc] at hh
      omega
  · rintro ⟨hh,hseg'⟩
    simp only [hp] at hseg'
    split_ifs with h₁ h₂ h₃ h₄
    · exact hfields
    all_goals rw [u32_of_lt (by omega)] at h₁
    · exact inside_cons.mpr ⟨hhead.mpr (by omega),hfields⟩
    · have hle : p.pOffset+p.pFilesz ≤ size := by
        rcases hseg' (by omega) h₃ with hlt | hlt
        · by_contra hbig
          exact h₂ ⟨h₃,by rw [u32_of_lt (by omega)]; omega⟩
        · exact absurd ⟨h₃,hlt⟩ h₂
      have hseg := (inside_segment hpo hs h₃).mpr hle
      exact inside_cons.mpr ⟨hhead.mpr (by omega),inside_cons.mpr ⟨hseg,
        inside_cons.mpr ⟨hhead.mpr (by omega),hfields⟩⟩⟩
    · exact inside_cons.mpr ⟨hhead.mpr (by omega),
        inside_cons.mpr ⟨hhead.mpr (by omega),hfields⟩⟩
    · exact inside_cons.mpr ⟨hhead.mpr (by omega),hfields⟩

end Pass

/-! ### Runs -/

variable {m : Memory} {image size : ℕ}

theorem Pass.reads {a b : ℕ × LoadState} (h : Pass space32 image size a b) :
    b.2.reads = passReads (view space32 a.2.mem image) a.1 size++(44,2)::a.2.reads := by
  have hr := loadHeader_reads image size a.1 (a.2.read 44 2)
  rw [h.2.1] at hr
  exact hr

theorem reads_mono {a b : ℕ × LoadState}
    (h : Relation.ReflTransGen (Pass space32 image size) a b) : a.2.reads ⊆ b.2.reads := by
  induction h with
  | refl => exact List.Subset.refl _
  | tail _ hp ih =>
      rw [hp.reads]
      exact List.Subset.trans ih
        (List.subset_append_of_subset_right _ (List.subset_cons_self _ _))

theorem EndsAt.reads {a r : ℕ × LoadState} (h : EndsAt space32 image size a r) :
    a.2.reads ⊆ r.2.reads := by
  rcases h with ⟨-,rfl⟩ | ⟨-,he,-⟩
  · intro x hx
    exact List.mem_cons_of_mem _ (List.mem_cons_of_mem _ hx)
  · have hr := loadHeader_reads image size a.1 (a.2.read 44 2)
    rw [he] at hr
    intro x hx
    have : x ∈ (outcome (.error r.2)).reads := by
      rw [hr]
      exact List.mem_append_right _ (List.mem_cons_of_mem _ hx)
    exact this

/-- The reads of every pass are reads of the whole load. -/
theorem passReads_subset {a b r : ℕ × LoadState} (hr : EndsAt space32 image size b r)
    (hab : Relation.ReflTransGen (Pass space32 image size) a b)
    (hi : a.1 < ePhnum (view space32 a.2.mem image)) :
    passReads (view space32 a.2.mem image) a.1 size ⊆ r.2.reads := by
  rcases Relation.ReflTransGen.cases_head hab with rfl | ⟨c,hp,hc⟩
  · rcases hr with ⟨hn,-⟩ | ⟨-,he,-⟩
    · omega
    · have hreads := loadHeader_reads image size a.1 (a.2.read 44 2)
      rw [he] at hreads
      intro x hx
      have : x ∈ (outcome (.error r.2)).reads := by
        rw [hreads]
        exact List.mem_append_left _ hx
      exact this
  · have hsub := List.Subset.trans (reads_mono hc) hr.reads
    rw [hp.reads] at hsub
    exact List.Subset.trans (List.subset_append_left _ _) hsub

/-- Without wraps a header or segment outside the image is refused. -/
theorem refused_of_not_inImage {img : Memory} {i size : ℕ} (hf : SumsFit img i size)
    (hc : ¬InImage img i size) : Refused img i size := by
  have hh := hf.header
  by_contra hr
  have hle : phdrOffset img i+phdrSize ≤ size := by
    by_contra hbig
    exact hr (.inl (by rw [u32_of_lt hh]; omega))
  refine hc ⟨hle,fun hcopies => ?_⟩
  by_contra hbig
  rcases hf.segment hle hcopies with hlt | hlt
  · exact hr (.inr ⟨hcopies,by rw [u32_of_lt hlt]; omega⟩)
  · exact hr (.inr ⟨hcopies,hlt⟩)

theorem inside_headerReads (h₅₂ : ehdrSize ≤ size) (hs : size < space32) :
    Inside size headerReads := by
  have h52 : 52 ≤ size := h₅₂
  have hw : space32 = 4294967296 := rfl
  unfold headerReads
  simp only [inside_cons (l := _::_)]
  refine ⟨?_,?_,?_,?_,?_⟩ <;> exact (inside_range (by omega) hs).mpr (by omega)

theorem inside_field {off len : ℕ} (h₅₂ : ehdrSize ≤ size) (hs : size < space32)
    (h : off+len ≤ 52) : Inside size [(off,len)] := by
  have h52 : 52 ≤ size := h₅₂
  have hw : space32 = 4294967296 := rfl
  exact (inside_range (by omega) hs).mpr (by omega)

/-- Step and run: while the sums fit, everything read so far is inside. -/
theorem Reached.inside {a : ℕ × LoadState} (ha : Reached space32 m image size a)
    (hs : size < space32)
    (hf : ∀ i s, Reached space32 m image size (i,s) → i < ePhnum (view space32 s.mem image) →
      SumsFit (view space32 s.mem image) i size) : Inside size a.2.reads := by
  obtain ⟨hv,hrun⟩ := ha
  have h₅₂ := (elf32Validate_size hv).2
  induction hrun with
  | refl => exact inside_headerReads h₅₂ hs
  | @tail b c hab hp ih =>
      rw [hp.reads,inside_append,inside_cons]
      exact ⟨(inside_passReads h₅₂ hs).mpr (hf b.1 b.2 ⟨hv,hab⟩ hp.1),
        inside_field h₅₂ hs (by omega),ih⟩

/-! ### The headers in every pass -/

/-- The program header the loop finds for index `i`. -/
def foundHeader (img : Memory) (i : ℕ) : Phdr := phdrAt img (phdrOffset img i)

/-- Offset `k` is in a field of the ELF header, or of a program header from `i` on
that the loop comes to, that decides what is read and what the load returns. -/
def HeaderByte (img : Memory) (size i k : ℕ) : Prop :=
  24 ≤ k ∧ k < 32 ∨ 42 ≤ k ∧ k < 46 ∨
  ∃ j, i ≤ j ∧ j < ePhnum img ∧ (∀ l < j, InImage img l size) ∧
    phdrOffset img j+phdrSize ≤ size ∧ (foundHeader img j).Uses (phdrOffset img j) k

/-- No segment the loop comes to is placed over a header still to be read. -/
def OffHeaders (m : Memory) (image size : ℕ) : Prop :=
  ∀ i < ePhnum (view space32 m image), (∀ j ≤ i, InImage (view space32 m image) j size) →
    (foundHeader (view space32 m image) i).Loads →
      ∀ t < (foundHeader (view space32 m image) i).span,
        ∀ k, HeaderByte (view space32 m image) size i k →
          ((foundHeader (view space32 m image) i).pPaddr+t)%space32 ≠ (image+k)%space32

/-- The invariant of the loop: the headers from `i` on are as they were given. -/
def HeadersKept (m : Memory) (image size i : ℕ) (mem : Memory) : Prop :=
  ∀ k, HeaderByte (view space32 m image) size i k →
    view space32 mem image k = view space32 m image k

theorem HeaderByte.mono {img : Memory} {i k : ℕ} (h : HeaderByte img size (i+1) k) :
    HeaderByte img size i k := by
  rcases h with h | h | ⟨j,hij,h⟩
  · exact .inl h
  · exact .inr (.inl h)
  · exact .inr (.inr ⟨j,by omega,h⟩)

namespace HeadersKept
variable {i : ℕ} {mem : Memory}

theorem phnum (h : HeadersKept m image size i mem) :
    ePhnum (view space32 mem image) = ePhnum (view space32 m image) :=
  load_congr fun k hk => h (44+k) (.inr (.inl (by omega)))

theorem entry (h : HeadersKept m image size i mem) :
    eEntry (view space32 mem image) = eEntry (view space32 m image) :=
  load_congr fun k hk => h (24+k) (.inl (by omega))

theorem offset (h : HeadersKept m image size i mem) (j : ℕ) :
    phdrOffset (view space32 mem image) j = phdrOffset (view space32 m image) j := by
  have h₁ : ePhoff (view space32 mem image) = ePhoff (view space32 m image) :=
    load_congr fun k hk => h (28+k) (.inl (by omega))
  have h₂ : ePhentsize (view space32 mem image) = ePhentsize (view space32 m image) :=
    load_congr fun k hk => h (42+k) (.inr (.inl (by omega)))
  rw [phdrOffset,phdrOffset,h₁,h₂]

section
variable (h : HeadersKept m image size i mem) (hi : i < ePhnum (view space32 m image))
  (hin : ∀ j < i, InImage (view space32 m image) j size)
include h hi hin

theorem alike (hhead : phdrOffset (view space32 m image) i+phdrSize ≤ size) :
    (foundHeader (view space32 m image) i).Alike
      (phdrAt (view space32 mem image) (phdrOffset (view space32 m image) i)) :=
  alike_of_uses fun k hk => h k (.inr (.inr ⟨i,le_rfl,hi,hin,hhead,hk⟩))

theorem sumsFit : SumsFit (view space32 mem image) i size ↔
    SumsFit (view space32 m image) i size := by
  have hoff := h.offset i
  constructor
  · rintro ⟨hh,hseg⟩
    rw [hoff] at hh hseg
    refine ⟨hh,fun hle hc => ?_⟩
    have ha := h.alike hi hin hle
    have hs := hseg hle (ha.copies.mpr hc)
    dsimp only at hs ⊢
    rwa [ha.offset hc,(ha.sizes hc.1).2.1] at hs
  · rintro ⟨hh,hseg⟩
    refine ⟨hoff ▸ hh,fun hle hc => ?_⟩
    rw [hoff] at hle hc ⊢
    have ha := h.alike hi hin hle
    have hc' := ha.copies.mp hc
    dsimp only
    rw [ha.offset hc',(ha.sizes hc'.1).2.1]
    exact hseg hle hc'

theorem inImage : InImage (view space32 mem image) i size ↔
    InImage (view space32 m image) i size := by
  have hoff := h.offset i
  constructor
  · rintro ⟨hh,hseg⟩
    rw [hoff] at hh hseg
    have ha := h.alike hi hin hh
    refine ⟨hh,fun hc => ?_⟩
    have hs := hseg (ha.copies.mpr hc)
    rwa [ha.offset hc,(ha.sizes hc.1).2.1] at hs
  · rintro ⟨hh,hseg⟩
    have ha := h.alike hi hin hh
    refine ⟨hoff ▸ hh,fun hc => ?_⟩
    rw [hoff] at hc ⊢
    have hc' := ha.copies.mp hc
    rw [ha.offset hc',(ha.sizes hc'.1).2.1]
    exact hseg hc'

end

/-- The BSS step reads the sizes of the given header and keeps the headers. -/
theorem clearBss {s : LoadState} (h : HeadersKept m image size i s.mem)
    (ho : OffHeaders m image size) (hi : i < ePhnum (view space32 m image))
    (hin : ∀ j ≤ i, InImage (view space32 m image) j size)
    (hl : (foundHeader (view space32 m image) i).Loads) :
    HeadersKept m image size i
      (clearBss space32 image (phdrOffset (view space32 m image) i) s).mem := by
  have ha := h.alike hi (fun j hj => hin j (by omega)) (hin i le_rfl).header
  obtain ⟨haddr,hfile,hmem⟩ := ha.sizes hl
  unfold ElfLoad.clearBss
  simp only [haddr,hfile,hmem]
  split_ifs with hbss
  · intro k hk
    rw [← h k hk,view,view]
    apply memset_outside
    intro t ht
    have hoff := ho i hi hin hl ((foundHeader (view space32 m image) i).pFilesz+t)
      (lt_max_of_lt_right (by omega)) k hk
    rwa [Nat.mod_add_mod,Nat.add_assoc]
  · exact h

/-- Step: a pass over a header that lies in the image goes on, with the rest kept. -/
theorem pass {s : LoadState} (h : HeadersKept m image size i s.mem)
    (ho : OffHeaders m image size) (hi : i < ePhnum (view space32 m image))
    (hin : ∀ j ≤ i, InImage (view space32 m image) j size) :
    ∃ s', loadHeader space32 image size i s = .ok s' ∧
      HeadersKept m image size (i+1) s'.mem := by
  have hbelow : ∀ j < i, InImage (view space32 m image) j size := fun j hj => hin j (by omega)
  have hhead := (hin i le_rfl).header
  have ha := h.alike hi hbelow hhead
  suffices hkept : ∃ s', loadHeader space32 image size i s = .ok s' ∧
      HeadersKept m image size i s'.mem by
    obtain ⟨s',hok,hk⟩ := hkept
    exact ⟨s',hok,fun k hb => hk k hb.mono⟩
  have h₁ : ¬(phdrOffset (view space32 m image) i+phdrSize)%space32 > size := by
    have := Nat.mod_le (phdrOffset (view space32 m image) i+phdrSize) space32
    omega
  unfold loadHeader
  simp only [h.offset i,if_neg h₁,ha.type]
  by_cases hl : (foundHeader (view space32 m image) i).Loads
  · have ht : (foundHeader (view space32 m image) i).pType = ptLoad := hl
    obtain ⟨haddr,hfile,-⟩ := ha.sizes hl
    rw [if_pos ht,hfile]
    by_cases hpos : (foundHeader (view space32 m image) i).pFilesz > 0
    · have hsum : ¬u32 ((foundHeader (view space32 m image) i).pOffset+
          (foundHeader (view space32 m image) i).pFilesz) > size :=
        Nat.not_lt.mpr ((u32_le _).trans ((hin i le_rfl).segment ⟨hl,hpos⟩))
      rw [if_pos hpos,haddr,ha.offset ⟨hl,hpos⟩,if_neg hsum]
      refine ⟨_,rfl,clearBss ?_ ho hi hin hl⟩
      intro k hk
      rw [← h k hk,view,view]
      exact memcpy_outside fun t ht => ho i hi hin hl t (lt_max_of_lt_left ht) k hk
    · rw [if_neg hpos]
      exact ⟨_,rfl,clearBss h ho hi hin hl⟩
  · have ht : ¬(foundHeader (view space32 m image) i).pType = ptLoad := hl
    rw [if_neg ht]
    exact ⟨_,rfl,h⟩

end HeadersKept

/-- Run: the loop comes to the first header that does not lie in the image, or past
the last one. -/
theorem reached_inImage (ho : OffHeaders m image size)
    (hv : elf32Validate space32 m image size = 0) {i : ℕ}
    (hi : i ≤ ePhnum (view space32 m image))
    (hin : ∀ j < i, InImage (view space32 m image) j size) :
    ∃ s, Reached space32 m image size (i,s) ∧ HeadersKept m image size i s.mem := by
  induction i with
  | zero => exact ⟨⟨m,headerReads⟩,⟨hv,.refl⟩,fun _ _ => rfl⟩
  | succ i ih =>
      obtain ⟨s,hs,hk⟩ := ih (by omega) fun j hj => hin j (by omega)
      obtain ⟨s',hok,hk'⟩ := HeadersKept.pass (s := s.read 44 2) hk ho (by omega)
        fun j hj => hin j (by omega)
      refine ⟨s',⟨hv,hs.2.tail ⟨?_,hok,rfl⟩⟩,hk'⟩
      change i < ePhnum (view space32 s.mem image)
      rw [hk.phnum]
      omega

/-- Up to the first header outside the image no sum wraps that a check relies on;
and no offset of the table wraps if every header is found in the image and the entry
point is not zero. -/
structure SumsSafe (img : Memory) (size : ℕ) : Prop where
  fit : ∀ i < ePhnum img, (∀ j < i, InImage img j size) → SumsFit img i size
  offsets : (∀ i < ePhnum img, InImage img i size) → eEntry img ≠ 0 →
    ∀ i < ePhnum img, headerOffset img i < space32

/-- While the sums fit, the loop comes to no other headers. -/
theorem Reached.headersKept {a : ℕ × LoadState} (ha : Reached space32 m image size a)
    (ho : OffHeaders m image size) (hsafe : SumsSafe (view space32 m image) size) :
    (∀ j < a.1, InImage (view space32 m image) j size) ∧
      HeadersKept m image size a.1 a.2.mem := by
  obtain ⟨hv,hrun⟩ := ha
  induction hrun with
  | refl => exact ⟨fun j hj => absurd hj (Nat.not_lt_zero j),fun _ _ => rfl⟩
  | @tail b c hab hp ih =>
      obtain ⟨hin,hk⟩ := ih
      have hi : b.1 < ePhnum (view space32 m image) := hk.phnum ▸ hp.1
      have hfit := (hk.sumsFit hi hin).mpr (hsafe.fit b.1 hi hin)
      -- the pass went on, so the header it found lies in the image
      have hhere : InImage (view space32 m image) b.1 size := by
        rw [← hk.inImage hi hin]
        by_contra hout
        obtain ⟨s',herr⟩ := (loadHeader_refused image size b.1 (b.2.read 44 2)).mpr
          (refused_of_not_inImage hfit hout)
        have hok := hp.2.1
        rw [herr] at hok
        cases hok
      have hall : ∀ j ≤ b.1, InImage (view space32 m image) j size := by
        intro j hj
        rcases Nat.lt_or_eq_of_le hj with hlt | rfl
        · exact hin j hlt
        · exact hhere
      obtain ⟨s',hok,hk'⟩ := HeadersKept.pass (s := b.2.read 44 2) hk ho hi hall
      obtain rfl : (b.1+1,s') = c := pass_rightUnique space32 image size ⟨hp.1,hok,rfl⟩ hp
      exact ⟨fun j hj => hall j (Nat.le_of_lt_succ hj),hk'⟩

/-! ### The image as it was given -/

theorem contained_congr {img img' : Memory} (h₅₂ : ehdrSize ≤ size)
    (h : ∀ k < size, img' k = img k) (i : ℕ) : Contained img' i size ↔ Contained img i size := by
  have h52 : 52 ≤ size := h₅₂
  have hl : ∀ w k, k+w ≤ size → load w img' k = load w img k := by
    intro w k hk
    exact load_congr fun j hj => h (k+j) (by omega)
  have hoff : headerOffset img' i = headerOffset img i := by
    rw [headerOffset,headerOffset,ePhoff,ePhoff,ePhentsize,ePhentsize,hl 4 28 (by omega),
      hl 2 42 (by omega)]
  have hp : headerOffset img i+phdrSize ≤ size →
      phdrAt img' (headerOffset img i) = phdrAt img (headerOffset img i) := by
    intro hle
    simp only [phdrSize] at hle
    simp (disch := omega) only [phdrAt,hl]
  constructor
  · rintro ⟨hh,hseg⟩
    rw [hoff] at hh hseg
    rw [hp hh] at hseg
    exact ⟨hh,hseg⟩
  · rintro ⟨hh,hseg⟩
    refine ⟨hoff ▸ hh,?_⟩
    rw [hoff,hp hh]
    exact hseg

/-- Unless its offset wraps, a header is where the file says it is. -/
theorem contained_iff_inImage {img : Memory} {i : ℕ} (hi : i < ePhnum img)
    (hw : headerOffset img i < space32) : Contained img i size ↔ InImage img i size := by
  have hoff : phdrOffset img i = headerOffset img i := by
    rw [headerOffset_eq hi,u32_of_lt hw]
  constructor
  · rintro ⟨hh,hseg⟩
    rw [← hoff] at hh hseg
    exact ⟨hh,hseg⟩
  · rintro ⟨hh,hseg⟩
    rw [hoff] at hh hseg
    exact ⟨hh,hseg⟩

/-- Every read is inside the image, and an image with a header or a segment that
does not lie in it makes the load fail. -/
structure ReadsContained (m : Memory) (image size : ℕ) (r : ℕ × LoadState) : Prop where
  inside : Inside size r.2.reads
  refused : ∀ i < ePhnum (view space32 m image), ¬Contained (view space32 m image) i size →
    r.1 = 0

/-- The reads of a whole run whose sums fit. -/
theorem inside_of_fit {r : ℕ × LoadState} (hv : elf32Validate space32 m image size = 0)
    (hs : size < space32) (hr : elf32Load space32 m image size = some r)
    (hf : ∀ i s, Reached space32 m image size (i,s) → i < ePhnum (view space32 s.mem image) →
      SumsFit (view space32 s.mem image) i size) : Inside size r.2.reads := by
  have h₅₂ := (elf32Validate_size hv).2
  obtain ⟨⟨i,s⟩,ha,he⟩ := elf32Load_ends hv hr
  have hin := ha.inside hs hf
  rcases he with ⟨-,rfl⟩ | ⟨hi,he,-⟩
  · exact inside_cons.mpr ⟨inside_field h₅₂ hs (by omega),
      inside_cons.mpr ⟨inside_field h₅₂ hs (by omega),hin⟩⟩
  · have hreads := loadHeader_reads image size i (s.read 44 2)
    rw [he] at hreads
    have hr₂ : r.2.reads = passReads (view space32 s.mem image) i size++(44,2)::s.reads :=
      hreads
    rw [hr₂,inside_append,inside_cons]
    exact ⟨(inside_passReads h₅₂ hs).mpr (hf i s ha hi),inside_field h₅₂ hs (by omega),hin⟩

theorem sumsSafe_of_contained {r : ℕ × LoadState} (ho : OffHeaders m image size)
    (hv : elf32Validate space32 m image size = 0) (hs : size < space32)
    (hr : elf32Load space32 m image size = some r) (hc : ReadsContained m image size r) :
    SumsSafe (view space32 m image) size := by
  constructor
  · intro i hi hin
    obtain ⟨s,ha,hk⟩ := reached_inImage ho hv (Nat.le_of_lt hi) hin
    obtain ⟨b,hb,he⟩ := elf32Load_ends hv hr
    have hsub := passReads_subset he (he.reached hb.2 ha.2) (hk.phnum.symm ▸ hi)
    rw [← hk.sumsFit hi hin,← inside_passReads (elf32Validate_size hv).2 hs]
    exact fun x hx => hc.inside x (hsub hx)
  · intro hin hne i hi
    by_contra hw
    obtain ⟨s,ha,hk⟩ := reached_inImage ho hv le_rfl hin
    have hend : EndsAt space32 image size (ePhnum (view space32 m image),s)
        (eEntry (view space32 s.mem image),(s.read 44 2).read 24 4) :=
      .inl ⟨Nat.le_of_eq hk.phnum,rfl⟩
    have hz : r.1 = 0 := by
      refine hc.refused i hi fun hcon => ?_
      have := hcon.header
      omega
    rw [result_of_reached ha hend hr,hk.entry] at hz
    exact hne hz

theorem contained_of_sumsSafe {r : ℕ × LoadState} (ho : OffHeaders m image size)
    (hv : elf32Validate space32 m image size = 0) (hs : size < space32)
    (hr : elf32Load space32 m image size = some r)
    (hsafe : SumsSafe (view space32 m image) size) : ReadsContained m image size r := by
  constructor
  · refine inside_of_fit hv hs hr fun i s ha hi => ?_
    obtain ⟨hin,hk⟩ := ha.headersKept ho hsafe
    dsimp only at hin hk
    rw [hk.phnum] at hi
    exact (hk.sumsFit hi hin).mpr (hsafe.fit i hi hin)
  · intro i hi hcon
    obtain ⟨⟨j,t⟩,ha,he⟩ := elf32Load_ends hv hr
    rcases he with ⟨hn,rfl⟩ | ⟨-,-,hz⟩
    · obtain ⟨hin,hk⟩ := ha.headersKept ho hsafe
      dsimp only at hin hk hn ⊢
      rw [hk.phnum] at hn
      rw [hk.entry]
      by_contra hne
      have hall : ∀ l < ePhnum (view space32 m image), InImage (view space32 m image) l size :=
        fun l hl => hin l (by omega)
      exact hcon ((contained_iff_inImage hi (hsafe.offsets hall hne i hi)).mpr (hall i hi))
    · exact hz

/-- An image that fails the validation is read no further than its header. -/
theorem contained_of_invalid {r : ℕ × LoadState} (hv : elf32Validate space32 m image size ≠ 0)
    (hs : size < space32) (hr : elf32Load space32 m image size = some r) :
    ReadsContained m image size r := by
  rw [elf32Load,if_pos hv] at hr
  obtain rfl := Option.some.inj hr
  refine ⟨?_,fun _ _ _ => rfl⟩
  dsimp only
  split_ifs with hsmall
  · intro x hx
    simp at hx
  · exact inside_headerReads (by omega) hs

/-- Without segments over the headers the sums decide. -/
theorem contained_iff_sumsSafe (hs : size < space32)
    (ho : elf32Validate space32 m image size = 0 → OffHeaders m image size) :
    (∃ r, elf32Load space32 m image size = some r ∧ ReadsContained m image size r) ↔
      (elf32Validate space32 m image size = 0 → SumsSafe (view space32 m image) size) := by
  constructor
  · rintro ⟨r,hr,hc⟩ hv
    exact sumsSafe_of_contained (ho hv) hv hs hr hc
  · intro hsafe
    obtain ⟨r,hr⟩ := elf32Load_total space32 m image size
    refine ⟨r,hr,?_⟩
    by_cases hv : elf32Validate space32 m image size = 0
    · exact contained_of_sumsSafe (ho hv) hv hs hr (hsafe hv)
    · exact contained_of_invalid hv hs hr

/-- The reads are contained if no segment is placed over a header still to be read and
no sum wraps that a check relies on; where no segment is, exactly then. -/
theorem elf32Load_reads_iff (hs : size < space32) :
    ((elf32Validate space32 m image size = 0 →
        OffHeaders m image size ∧ SumsSafe (view space32 m image) size) →
      ∃ r, elf32Load space32 m image size = some r ∧ ReadsContained m image size r) ∧
    ((elf32Validate space32 m image size = 0 → OffHeaders m image size) →
      ((∃ r, elf32Load space32 m image size = some r ∧ ReadsContained m image size r) ↔
        (elf32Validate space32 m image size = 0 → SumsSafe (view space32 m image) size))) :=
  ⟨fun h => (contained_iff_sumsSafe hs fun hv => (h hv).1).mpr fun hv => (h hv).2,
    contained_iff_sumsSafe hs⟩

theorem splitKernel_offHeaders : OffHeaders splitKernel kernelTempAddr 121 := by
  have hn : ePhnum (view space32 splitKernel kernelTempAddr) = 2 := by decide +kernel
  have hend : ∀ i < 2, (foundHeader (view space32 splitKernel kernelTempAddr) i).pPaddr+
      (foundHeader (view space32 splitKernel kernelTempAddr) i).span ≤ kernelTempAddr+3 := by
    decide +kernel
  have hfrom : ∀ j < 2, 52 ≤ phdrOffset (view space32 splitKernel kernelTempAddr) j := by
    decide +kernel
  intro i hi _ _ t ht k hk
  rw [hn] at hi
  have hi₀ := hend i hi
  have hw : space32 = 4294967296 := rfl
  have ha : kernelTempAddr = 2097152 := rfl
  have hk₂₄ : 24 ≤ k ∧ k < 121 := by
    rcases hk with hk | hk | ⟨j,-,hj,-,hhead,hk⟩
    · omega
    · omega
    · have hj₀ := hfrom j (by omega)
      simp only [Phdr.Uses] at hk
      simp only [phdrSize] at hhead
      omega
  rw [Nat.mod_eq_of_lt (by omega),Nat.mod_eq_of_lt (by omega)]
  omega

theorem splitKernel_sumsSafe : SumsSafe (view space32 splitKernel kernelTempAddr) 121 := by
  have hfit : ∀ i < ePhnum (view space32 splitKernel kernelTempAddr),
      phdrOffset (view space32 splitKernel kernelTempAddr) i+phdrSize < space32 ∧
      (foundHeader (view space32 splitKernel kernelTempAddr) i).pOffset+
        (foundHeader (view space32 splitKernel kernelTempAddr) i).pFilesz < space32 := by
    decide +kernel
  constructor
  · intro i hi _
    exact ⟨(hfit i hi).1,fun _ _ => .inl (hfit i hi).2⟩
  · intro _ _
    decide +kernel

/-- Its first segment ends inside the image, where no header is. -/
theorem elf32Load_reads_iff_splitKernel :
    ∃ r, elf32Load space32 splitKernel kernelTempAddr 121 = some r ∧
      ReadsContained splitKernel kernelTempAddr 121 r :=
  (elf32Load_reads_iff (by decide)).1 fun _ => ⟨splitKernel_offHeaders,splitKernel_sumsSafe⟩

/-- Two headers of which the first clears the `p_filesz` of the second, whose segment
is not in the image. -/
def clearedHeader : Memory := fun x =>
  if x < kernelTempAddr then 0 else
  ([0x7F,0x45,0x4C,0x46,1,1,1,0,0,0,0,0,0,0,0,0,2,0,3,0,1,0,0,0,0,0,0x10,0,0x34,0,0,0,0,0,0,0,0,0,
    0,0,0x34,0,0x20,0,2,0,0,0,0,0,0,0,1,0,0,0,0,0,0,0,0,0,0,0,0x64,0,0x20,0,0,0,0,0,4,0,0,0,
    6,0,0,0,0,0x10,0,0,1,0,0,0,0,0x10,0,0,0,0,0x30,0,0,0,0x30,0,0x64,0,0,0,0,0,0,0,
    5,0,0,0,0,0x10,0,0]).getD (x-kernelTempAddr) 0

/-- A segment over a header hides what is not contained from the checks. -/
example : (elf32Load space32 clearedHeader kernelTempAddr 116).map (fun r => r.1) =
    some 0x100000 ∧
    (segment (view space32 clearedHeader kernelTempAddr) 1).pOffset+
      (segment (view space32 clearedHeader kernelTempAddr) 1).pFilesz = 4196 := by
  decide +kernel

/-- A bare ELF header at 2 MiB whose only program header is 16 bytes before 4 GiB. -/
def wrappedHeader : Memory := fun x =>
  [0x7F,0x45,0x4C,0x46,1,1,1,0,0,0,0,0,0,0,0,0,2,0,3,0,1,0,0,0,0,0,16,0,0xF0,0xFF,0xFF,0xFF,
    0,0,0,0,0,0,0,0,52,0,32,0,1,0,0,0,0,0,0,0].getD (x-0x200000) 0

/-- `e_phoff + 32` wraps to 16, and the 16 bytes before the image are read. -/
theorem wrappedHeader_reads_outside : ¬∃ r, elf32Load space32 wrappedHeader 0x200000 52 = some r ∧
    ReadsContained wrappedHeader 0x200000 52 r := by
  rintro ⟨r,hr,hc⟩
  have hreads : (elf32Load space32 wrappedHeader 0x200000 52).map (fun r => r.2.reads) =
      some ([(24,4),(44,2),(0xFFFFFFF0,32),(42,2),(28,4),(44,2)]++headerReads) := by
    decide +kernel
  rw [hr] at hreads
  have hlist : r.2.reads = _ := Option.some.inj hreads
  have hmem : (0xFFFFFFF0,32) ∈ r.2.reads := by
    rw [hlist]
    decide
  exact absurd (hc.inside _ hmem 0 (by decide)) (by decide)

end Gemiboot.ElfLoad
