import Gemiboot.ElfLoad

/-!
# Where the ELF loader puts segments

The image is loaded from the memory it is loaded into. Each segment arrives
intact, and the original entry point is returned, as long as no byte a segment
puts over the image changes one that is still to be read: a field of the ELF
header, a later program header or file range, and while a segment is copied the
rest of its own range and header.
-/
namespace Gemiboot.ElfLoad
open ByteMemory MemoryRoutines

/-- `KERNEL_LOAD_TEMP_ADDR`, and `KERNEL_TEMP_ADDR` in the UEFI builds. -/
def kernelTempAddr : ℕ := 0x00200000

def segment (img : Memory) (i : ℕ) : Phdr := phdrAt img (headerOffset img i)

def Phdr.Loads (p : Phdr) : Prop := p.pType = ptLoad

instance (p : Phdr) : Decidable p.Loads := inferInstanceAs (Decidable (_ = _))

/-- Byte `t` of a segment in memory: from the file, then zero. -/
def Phdr.byte (p : Phdr) (img : Memory) : Memory := fun t =>
  if t < p.pFilesz then img (p.pOffset+t) else 0

/-- A valid image in memory whose headers and file ranges lie inside it and whose
PT_LOAD destinations are disjoint and do not wrap. -/
structure Loadable (w : ℕ) (m : Memory) (image size : ℕ) : Prop where
  valid : elf32Validate w m image size = 0
  stored : image+size ≤ w
  small : size < space32
  headers : ∀ i < ePhnum (view w m image), headerOffset (view w m image) i+phdrSize ≤ size
  files : ∀ i < ePhnum (view w m image), (segment (view w m image) i).Copies →
    (segment (view w m image) i).pOffset+(segment (view w m image) i).pFilesz ≤ size
  fits : ∀ i < ePhnum (view w m image), (segment (view w m image) i).Loads →
    (segment (view w m image) i).pFilesz ≤ (segment (view w m image) i).pMemsz ∧
      (segment (view w m image) i).pPaddr+(segment (view w m image) i).pMemsz ≤ space32
  disjoint : ∀ i < ePhnum (view w m image), ∀ j < ePhnum (view w m image), i ≠ j →
    (segment (view w m image) i).Loads → (segment (view w m image) j).Loads →
    ∀ t < (segment (view w m image) i).pMemsz, ∀ u < (segment (view w m image) j).pMemsz,
      (segment (view w m image) i).pPaddr+t ≠ (segment (view w m image) j).pPaddr+u

/-- Offset `k` is in a field of the program header at `off` that the loader uses:
its type, the address and sizes of a PT_LOAD segment, the offset of one that copies. -/
def Phdr.Uses (p : Phdr) (off k : ℕ) : Prop :=
  off ≤ k ∧ k < off+4 ∨ p.Loads ∧ off+12 ≤ k ∧ k < off+24 ∨ p.Copies ∧ off+4 ≤ k ∧ k < off+8

/-- What the loop reads of the image from pass `i` on. -/
def Needed (img : Memory) (i k : ℕ) : Prop :=
  24 ≤ k ∧ k < 28 ∨ 44 ≤ k ∧ k < 46 ∨
  i < ePhnum img ∧ (28 ≤ k ∧ k < 32 ∨ 42 ≤ k ∧ k < 44) ∨
  ∃ j, i ≤ j ∧ j < ePhnum img ∧ ((segment img j).Uses (headerOffset img j) k ∨
    (segment img j).Copies ∧ (segment img j).pOffset ≤ k ∧
      k < (segment img j).pOffset+(segment img j).pFilesz)

/-- What is still read of the image once byte `t` of segment `i` is in place; the
address and sizes in its own header are read again between copy and BSS. -/
def StillRead (img : Memory) (i t k : ℕ) : Prop :=
  Needed img (i+1) k ∨
  t < (segment img i).pFilesz ∧ (headerOffset img i+12 ≤ k ∧ k < headerOffset img i+24 ∨
    (segment img i).pOffset+t < k ∧ k < (segment img i).pOffset+(segment img i).pFilesz)

/-- Where a segment falls on an image byte still to be read, it puts the byte
that is already there. -/
def Harmless (w : ℕ) (m : Memory) (image : ℕ) : Prop :=
  ∀ i < ePhnum (view w m image), (segment (view w m image) i).Loads →
    ∀ t < (segment (view w m image) i).pMemsz, ∀ k,
      (segment (view w m image) i).pPaddr+t = image+k → StillRead (view w m image) i t k →
        (segment (view w m image) i).byte (view w m image) t = view w m image k

/-! ### Fields -/

theorem phdrAt_congr {img img' : Memory} {off : ℕ}
    (h : ∀ k, off ≤ k → k < off+phdrSize → img' k = img k) :
    phdrAt img' off = phdrAt img off := by
  have hl : ∀ j, j+4 ≤ phdrSize → load 4 img' (off+j) = load 4 img (off+j) :=
    fun j hj => load_congr fun i hi => h (off+j+i) (by omega) (by omega)
  unfold phdrAt
  rw [show load 4 img' off = load 4 img off from hl 0 (by decide),hl 4 (by decide),
    hl 12 (by decide),hl 16 (by decide),hl 20 (by decide)]

/-- Two headers that load the same. -/
structure Phdr.Alike (p q : Phdr) : Prop where
  type : q.pType = p.pType
  sizes : p.Loads → q.pPaddr = p.pPaddr ∧ q.pFilesz = p.pFilesz ∧ q.pMemsz = p.pMemsz
  offset : p.Copies → q.pOffset = p.pOffset

theorem Phdr.alike_of_eq {p q : Phdr} (h : q = p) : p.Alike q := by
  subst h
  exact ⟨rfl,fun _ => ⟨rfl,rfl,rfl⟩,fun _ => rfl⟩

theorem Phdr.Alike.copies {p q : Phdr} (h : p.Alike q) : q.Copies ↔ p.Copies := by
  unfold Phdr.Copies
  rw [h.type]
  constructor
  · rintro ⟨ht,hf⟩
    exact ⟨ht,(h.sizes ht).2.1 ▸ hf⟩
  · rintro ⟨ht,hf⟩
    exact ⟨ht,(h.sizes ht).2.1.symm ▸ hf⟩

/-- The part of the header that the BSS step reads again. -/
theorem bssFields_congr {img img' : Memory} {off : ℕ}
    (h : ∀ k, off+12 ≤ k → k < off+24 → img' k = img k) :
    (phdrAt img' off).pPaddr = (phdrAt img off).pPaddr ∧
      (phdrAt img' off).pFilesz = (phdrAt img off).pFilesz ∧
      (phdrAt img' off).pMemsz = (phdrAt img off).pMemsz := by
  refine ⟨?_,?_,?_⟩
  · exact load_congr fun i hi => h (off+12+i) (by omega) (by omega)
  · exact load_congr fun i hi => h (off+16+i) (by omega) (by omega)
  · exact load_congr fun i hi => h (off+20+i) (by omega) (by omega)

variable {w : ℕ} {m : Memory} {image size : ℕ}

theorem view_of_lt (hst : image+size ≤ w) (m : Memory) {k : ℕ} (hk : k < size) :
    view w m image k = m (image+k) := by
  rw [view,Nat.mod_eq_of_lt (by omega)]

/-- The used fields of a program header determine what it loads. -/
theorem alike_of_uses {img img' : Memory} {off : ℕ}
    (h : ∀ k, (phdrAt img off).Uses off k → img' k = img k) :
    (phdrAt img off).Alike (phdrAt img' off) := by
  constructor
  · exact load_congr fun i hi => h (off+i) (.inl (by omega))
  · intro hl
    exact bssFields_congr fun k h₁ h₂ => h k (.inr (.inl ⟨hl,h₁,h₂⟩))
  · intro hc
    exact load_congr fun i hi => h (off+4+i) (.inr (.inr ⟨hc,by omega,by omega⟩))

/-- Everything still needed lies in the image. -/
theorem Loadable.needed_lt (h : Loadable w m image size) {i k : ℕ}
    (hk : Needed (view w m image) i k) : k < size := by
  have h52 : 52 ≤ size := (elf32Validate_size h.valid).2
  rcases hk with hk | hk | ⟨-,hk⟩ | ⟨j,-,hj,hk | ⟨hc,hk⟩⟩
  · omega
  · omega
  · omega
  · have := h.headers j hj
    simp only [Phdr.Uses,phdrSize] at hk this
    omega
  · have := h.files j hj hc
    omega

theorem Needed.mono {img : Memory} {i k : ℕ} (hi : i < ePhnum img) (h : Needed img (i+1) k) :
    Needed img i k := by
  rcases h with h | h | ⟨-,h⟩ | ⟨j,hij,hj,h⟩
  · exact .inl h
  · exact .inr (.inl h)
  · exact .inr (.inr (.inl ⟨hi,h⟩))
  · exact .inr (.inr (.inr ⟨j,by omega,hj,h⟩))

/-! ### One segment -/

/-- Before pass `i`: what is needed is unchanged, and what was loaded is in place. -/
structure Placing (w : ℕ) (m : Memory) (image i : ℕ) (mem : Memory) : Prop where
  kept : ∀ k, Needed (view w m image) i k → view w mem image k = view w m image k
  placed : ∀ j < i, j < ePhnum (view w m image) → (segment (view w m image) j).Loads →
    ∀ t < (segment (view w m image) j).pMemsz,
      mem ((segment (view w m image) j).pPaddr+t) =
        (segment (view w m image) j).byte (view w m image) t

/-- File bytes then zeros are one block. -/
theorem fill_blit {p : Phdr} (img mem : Memory) (h : p.pFilesz ≤ p.pMemsz) :
    fill (blit mem p.pPaddr p.pFilesz fun t => img (p.pOffset+t)) (p.pPaddr+p.pFilesz)
      (p.pMemsz-p.pFilesz) 0 = blit mem p.pPaddr p.pMemsz (p.byte img) := by
  have hfile : blit mem p.pPaddr p.pFilesz (fun t => img (p.pOffset+t)) =
      blit mem p.pPaddr p.pFilesz (p.byte img) := by
    apply blit_congr
    intro t ht
    rw [Phdr.byte,if_pos ht]
  rw [hfile,fill,blit_append,Nat.add_sub_cancel' h]
  intro t _
  rw [Phdr.byte,if_neg (by omega)]

/-- The length of the destination: a small `p_memsz` does not cut the copy short. -/
def Phdr.span (p : Phdr) : ℕ := max p.pFilesz p.pMemsz

/-- A copy and a BSS that together write the whole destination. -/
theorem blit_span {p : Phdr} {img mem mem' : Memory} :
    mem' = blit mem p.pPaddr p.pFilesz (fun t => img (p.pOffset+t)) →
    (if p.pMemsz > p.pFilesz then fill mem' (p.pPaddr+p.pFilesz) (p.pMemsz-p.pFilesz) 0
      else mem') = blit mem p.pPaddr p.span (p.byte img) := by
  intro h
  subst h
  by_cases hbss : p.pMemsz > p.pFilesz
  · have hspan : p.span = p.pMemsz := max_eq_right (Nat.le_of_lt hbss)
    rw [if_pos hbss,fill_blit img mem (Nat.le_of_lt hbss),hspan]
  · have hspan : p.span = p.pFilesz := max_eq_left (Nat.le_of_not_lt hbss)
    rw [if_neg hbss,hspan]
    apply blit_congr
    intro t ht
    rw [Phdr.byte,if_pos ht]

/-- The BSS step after the copy, when it finds the sizes and the address in place. -/
theorem clearBss_blit {p : Phdr} {img mem : Memory} {off : ℕ} {s : LoadState}
    (ha : (phdrAt (view w s.mem image) off).pPaddr = p.pPaddr)
    (hf : (phdrAt (view w s.mem image) off).pFilesz = p.pFilesz)
    (hm : (phdrAt (view w s.mem image) off).pMemsz = p.pMemsz) (hend : p.pPaddr+p.span ≤ w)
    (hs : s.mem = blit mem p.pPaddr p.pFilesz fun t => img (p.pOffset+t)) :
    (clearBss w image off s).mem = blit mem p.pPaddr p.span (p.byte img) := by
  have hmem : p.pMemsz ≤ p.span := Nat.le_max_right _ _
  rw [← blit_span hs,clearBss]
  simp only [ha,hf,hm]
  by_cases hbss : p.pMemsz > p.pFilesz
  · rw [if_pos hbss,if_pos hbss]
    dsimp only
    rw [Nat.mod_eq_of_lt (show p.pPaddr+p.pFilesz < w by omega)]
    exact memset_eq_fill (by omega)
  · rw [if_neg hbss,if_neg hbss]
    rfl

/-- The copy of a segment's file range, read from where it is being loaded. -/
theorem copy_segment (h : Loadable w m image size) (hw : space32 ≤ w) (hh : Harmless w m image)
    {i : ℕ} (hi : i < ePhnum (view w m image)) {mem : Memory} (hp : Placing w m image i mem)
    (hl : (segment (view w m image) i).Loads) (hpos : 0 < (segment (view w m image) i).pFilesz) :
    let p := segment (view w m image) i
    memcpy w mem p.pPaddr ((image+p.pOffset)%w) p.pFilesz =
      blit mem p.pPaddr p.pFilesz fun t => view w m image (p.pOffset+t) := by
  intro p
  have hc : p.Copies := ⟨hl,hpos⟩
  have hfile : p.pOffset+p.pFilesz ≤ size := h.files i hi hc
  have hfit : p.pFilesz ≤ p.pMemsz ∧ p.pPaddr+p.pMemsz ≤ space32 := h.fits i hi hl
  have hst := h.stored
  have hpos' : 0 < p.pFilesz := hpos
  rw [Nat.mod_eq_of_lt (show image+p.pOffset < w by omega)]
  apply memcpy_eq_blit
  · omega
  · omega
  · intro t ht
    have hn : Needed (view w m image) i (p.pOffset+t) :=
      .inr (.inr (.inr ⟨i,le_rfl,hi,.inr ⟨hc,show p.pOffset ≤ p.pOffset+t by omega,
        show p.pOffset+t < p.pOffset+p.pFilesz by omega⟩⟩))
    have hk := hp.kept _ hn
    rw [view_of_lt hst mem (by omega)] at hk
    rw [← hk,Nat.add_assoc]
  · intro t ht u hu he
    have hb := hh i hi hl u (show u < p.pMemsz by omega) (p.pOffset+t)
      (show p.pPaddr+u = image+(p.pOffset+t) by omega)
      (.inr ⟨show u < p.pFilesz by omega,.inr ⟨show p.pOffset+u < p.pOffset+t by omega,
        show p.pOffset+t < p.pOffset+p.pFilesz by omega⟩⟩)
    have hbyte : p.byte (view w m image) u = view w m image (p.pOffset+u) :=
      if_pos (by omega)
    rw [← hbyte]
    exact hb

/-- Writing a whole segment keeps what later passes need. -/
theorem Placing.next (h : Loadable w m image size) (hh : Harmless w m image) {i : ℕ}
    (hi : i < ePhnum (view w m image)) {mem : Memory} (hp : Placing w m image i mem)
    (hl : (segment (view w m image) i).Loads) :
    let p := segment (view w m image) i
    Placing w m image (i+1) (blit mem p.pPaddr p.pMemsz (p.byte (view w m image))) := by
  intro p
  constructor
  · intro k hk
    have hks := h.needed_lt hk
    have hkept := hp.kept k (hk.mono hi)
    rw [view_of_lt h.stored _ hks] at hkept ⊢
    by_cases hx : p.pPaddr ≤ image+k ∧ image+k < p.pPaddr+p.pMemsz
    · rw [blit_inside hx.1 hx.2]
      exact hh i hi hl _ (show image+k-p.pPaddr < p.pMemsz by omega) k
        (show p.pPaddr+(image+k-p.pPaddr) = image+k by omega) (.inl hk)
    · rw [blit_outside (by omega),hkept]
  · intro j hj hjn hjl t ht
    by_cases he : j = i
    · subst he
      exact blit_at ht
    · rw [blit_outside,hp.placed j (by omega) hjn hjl t ht]
      have hd := h.disjoint j hjn i hi he hjl hl t ht
      by_contra hin
      exact hd _ (show (segment (view w m image) j).pPaddr+t-p.pPaddr < p.pMemsz by omega)
        (show (segment (view w m image) j).pPaddr+t =
          p.pPaddr+((segment (view w m image) j).pPaddr+t-p.pPaddr) by omega)

theorem Placing.skip {i : ℕ} {mem : Memory} (hi : i < ePhnum (view w m image))
    (hp : Placing w m image i mem) (hl : ¬(segment (view w m image) i).Loads) :
    Placing w m image (i+1) mem := by
  refine ⟨fun k hk => hp.kept k (hk.mono hi),?_⟩
  intro j hj hjn hjl t ht
  by_cases he : j = i
  · subst he
    exact absurd hjl hl
  · exact hp.placed j (by omega) hjn hjl t ht

/-! ### One pass -/

/-- The fields of the ELF header the loop reads again before pass `i`. -/
theorem Placing.phnum {i : ℕ} {mem : Memory} (hp : Placing w m image i mem) :
    ePhnum (view w mem image) = ePhnum (view w m image) :=
  load_congr fun k hk => hp.kept (44+k) (.inr (.inl (by omega)))

theorem Placing.entry {i : ℕ} {mem : Memory} (hp : Placing w m image i mem) :
    eEntry (view w mem image) = eEntry (view w m image) :=
  load_congr fun k hk => hp.kept (24+k) (.inl (by omega))

theorem Placing.header (h : Loadable w m image size) {i : ℕ}
    (hi : i < ePhnum (view w m image)) {mem : Memory} (hp : Placing w m image i mem) :
    phdrOffset (view w mem image) i = headerOffset (view w m image) i ∧
      (segment (view w m image) i).Alike
        (phdrAt (view w mem image) (headerOffset (view w m image) i)) := by
  have hsmall := h.small
  have hhead := h.headers i hi
  have hoff : phdrOffset (view w mem image) i = phdrOffset (view w m image) i := by
    have h₁ : ePhoff (view w mem image) = ePhoff (view w m image) :=
      load_congr fun k hk => hp.kept (28+k) (.inr (.inr (.inl ⟨hi,by omega⟩)))
    have h₂ : ePhentsize (view w mem image) = ePhentsize (view w m image) :=
      load_congr fun k hk => hp.kept (42+k) (.inr (.inr (.inl ⟨hi,by omega⟩)))
    rw [phdrOffset,phdrOffset,h₁,h₂]
  constructor
  · rw [hoff,headerOffset_eq hi]
    exact u32_of_lt (show headerOffset (view w m image) i < space32 by omega)
  · exact alike_of_uses fun k hk => hp.kept k (.inr (.inr (.inr ⟨i,le_rfl,hi,.inl hk⟩)))

/-- The BSS step after the copy: its header fields have survived the copy. -/
theorem clearBss_segment (h : Loadable w m image size) (hw : space32 ≤ w)
    (hh : Harmless w m image) {i : ℕ} (hi : i < ePhnum (view w m image)) {s : LoadState}
    {mem : Memory} (hp : Placing w m image i mem) (hl : (segment (view w m image) i).Loads) :
    let p := segment (view w m image) i
    s.mem = blit mem p.pPaddr p.pFilesz (fun t => view w m image (p.pOffset+t)) →
    (clearBss w image (headerOffset (view w m image) i) s).mem =
      blit mem p.pPaddr p.pMemsz (p.byte (view w m image)) := by
  intro p hs
  have hfit : p.pFilesz ≤ p.pMemsz ∧ p.pPaddr+p.pMemsz ≤ space32 := h.fits i hi hl
  have hhead : headerOffset (view w m image) i+32 ≤ size := h.headers i hi
  have hagain : ∀ k, headerOffset (view w m image) i+12 ≤ k →
      k < headerOffset (view w m image) i+24 → view w s.mem image k = view w m image k := by
    intro k h₁ h₂
    have hn : Needed (view w m image) i k :=
      .inr (.inr (.inr ⟨i,le_rfl,hi,.inl (.inr (.inl ⟨hl,h₁,h₂⟩))⟩))
    have hkept := hp.kept k hn
    rw [view_of_lt h.stored _ (show k < size by omega)] at hkept ⊢
    rw [hs]
    by_cases hx : p.pPaddr ≤ image+k ∧ image+k < p.pPaddr+p.pFilesz
    · rw [blit_inside hx.1 hx.2]
      have hb := hh i hi hl _ (show image+k-p.pPaddr < p.pMemsz by omega) k
        (show p.pPaddr+(image+k-p.pPaddr) = image+k by omega)
        (.inr ⟨show image+k-p.pPaddr < p.pFilesz by omega,.inl ⟨h₁,h₂⟩⟩)
      have hbyte : p.byte (view w m image) (image+k-p.pPaddr) =
          view w m image (p.pOffset+(image+k-p.pPaddr)) := if_pos (by omega)
      rw [← hbyte]
      exact hb
    · rw [blit_outside (by omega),hkept]
  obtain ⟨ha,hf,hm⟩ := bssFields_congr hagain
  have hspan : p.span = p.pMemsz := max_eq_right hfit.1
  rw [← hspan]
  exact clearBss_blit ha hf hm (by omega) hs

/-- A pass whose checks succeed, from what its copy and its BSS do. -/
theorem loadHeader_ok {i off : ℕ} {p : Phdr} {s : LoadState} {src mem' : Memory}
    (hoff : phdrOffset (view w s.mem image) i = off)
    (hp : p.Alike (phdrAt (view w s.mem image) off))
    (hhead : ¬(off+phdrSize)%w > size) (hrange : p.Copies → p.pOffset+p.pFilesz ≤ size)
    (hcopy : p.Loads → 0 < p.pFilesz → memcpy w s.mem p.pPaddr ((image+p.pOffset)%w) p.pFilesz =
      blit s.mem p.pPaddr p.pFilesz src)
    (hbss : p.Loads → ∀ s' : LoadState, s'.mem = blit s.mem p.pPaddr p.pFilesz src →
      (clearBss w image off s').mem = mem') :
    ∃ s', loadHeader w image size i s = .ok s' ∧
      s'.mem = if p.Loads then mem' else s.mem := by
  unfold loadHeader
  simp only [hoff,if_neg hhead,hp.type]
  by_cases hl : p.Loads
  · have ht : p.pType = ptLoad := hl
    obtain ⟨ha,hf,-⟩ := hp.sizes hl
    rw [if_pos ht,if_pos hl,hf]
    by_cases hpos : p.pFilesz > 0
    · have hsum : ¬u32 (p.pOffset+p.pFilesz) > size := by
        have := u32_le (p.pOffset+p.pFilesz)
        have := hrange ⟨hl,hpos⟩
        omega
      rw [if_pos hpos,ha,hp.offset ⟨hl,hpos⟩,if_neg hsum]
      exact ⟨_,rfl,hbss hl _ (hcopy hl hpos)⟩
    · have hz : p.pFilesz = 0 := by omega
      rw [if_neg hpos]
      exact ⟨_,rfl,hbss hl _ (by rw [hz,blit_zero]; rfl)⟩
  · have ht : ¬p.pType = ptLoad := hl
    rw [if_neg ht,if_neg hl]
    exact ⟨_,rfl,rfl⟩

/-- One pass of the loop places its segment. -/
theorem loadHeader_places (h : Loadable w m image size) (hw : space32 ≤ w)
    (hh : Harmless w m image) {i : ℕ} (hi : i < ePhnum (view w m image)) {s : LoadState}
    (hp : Placing w m image i s.mem) :
    ∃ s', loadHeader w image size i s = .ok s' ∧ Placing w m image (i+1) s'.mem := by
  obtain ⟨hoff,hseg⟩ := hp.header h hi
  have hhead : headerOffset (view w m image) i+phdrSize ≤ size := h.headers i hi
  have h₁ : ¬(headerOffset (view w m image) i+phdrSize)%w > size := by
    have := Nat.mod_le (headerOffset (view w m image) i+phdrSize) w
    omega
  obtain ⟨s',hok,hmem⟩ := loadHeader_ok hoff hseg h₁ (h.files i hi)
    (copy_segment h hw hh hi hp)
    (fun hl s' => clearBss_segment h hw hh hi hp hl (s := s'))
  refine ⟨s',hok,?_⟩
  rw [hmem]
  by_cases hl : (segment (view w m image) i).Loads
  · rw [if_pos hl]
    exact hp.next h hh hi hl
  · rw [if_neg hl]
    exact hp.skip hi hl

/-! ### The whole load -/

theorem loadLoop_places (h : Loadable w m image size) (hw : space32 ≤ w)
    (hh : Harmless w m image) (fuel : ℕ) {i : ℕ} (hi : i ≤ ePhnum (view w m image))
    (hf : ePhnum (view w m image) < i+fuel) {s : LoadState} (hp : Placing w m image i s.mem) :
    ∃ s', loadLoop w image size fuel i s = some (eEntry (view w m image),s') ∧
      Placing w m image (ePhnum (view w m image)) s'.mem := by
  induction fuel generalizing i s with
  | zero => omega
  | succ fuel ih =>
      rw [loadLoop]
      simp only [hp.phnum,hp.entry]
      by_cases hlt : i < ePhnum (view w m image)
      · obtain ⟨s',hs',hp'⟩ := loadHeader_places h hw hh hlt (s := s.read 44 2) hp
        rw [if_pos hlt,hs']
        exact ih hlt (by omega) hp'
      · obtain rfl : i = ePhnum (view w m image) := by omega
        rw [if_neg hlt]
        exact ⟨_,rfl,hp⟩

/-- The load returns the entry point of the image and leaves every segment in
place, its file bytes as the image had them and the rest zero. -/
structure Loaded (w : ℕ) (m : Memory) (image : ℕ) (r : ℕ × LoadState) : Prop where
  entry : r.1 = eEntry (view w m image)
  file : ∀ i < ePhnum (view w m image), (segment (view w m image) i).Loads →
    ∀ t < (segment (view w m image) i).pFilesz,
      r.2.mem ((segment (view w m image) i).pPaddr+t) =
        view w m image ((segment (view w m image) i).pOffset+t)
  bss : ∀ i < ePhnum (view w m image), (segment (view w m image) i).Loads →
    ∀ t < (segment (view w m image) i).pMemsz, (segment (view w m image) i).pFilesz ≤ t →
      r.2.mem ((segment (view w m image) i).pPaddr+t) = 0

theorem elf32Load_places (hw : space32 ≤ w) (h : Loadable w m kernelTempAddr size)
    (hh : Harmless w m kernelTempAddr) :
    ∃ r, elf32Load w m kernelTempAddr size = some r ∧ Loaded w m kernelTempAddr r := by
  have hstart : Placing w m kernelTempAddr 0 (LoadState.mk m headerReads).mem :=
    ⟨fun _ _ => rfl,fun j hj => absurd hj (Nat.not_lt_zero j)⟩
  have hn := ePhnum_lt (view w m kernelTempAddr)
  obtain ⟨s,hs,hp⟩ := loadLoop_places h hw hh 65536 (Nat.zero_le _) (by omega) hstart
  refine ⟨(eEntry (view w m kernelTempAddr),s),?_,rfl,?_,?_⟩
  · rw [elf32Load,if_neg (by simp [h.valid]),hs]
  · intro i hi hl t ht
    rw [hp.placed i hi hi hl t (ht.trans_le (h.fits i hi hl).1)]
    exact if_pos ht
  · intro i hi hl t ht hft
    rw [hp.placed i hi hi hl t ht]
    exact if_neg (by omega)

/-! ### Some kernels -/

/-- An image with one byte of code linked at 1 MiB, whose `p_memsz` has these
four bytes. -/
def oneByteKernel (memsz : List UInt8) : Memory := fun x =>
  if x < kernelTempAddr then 0 else
  ([0x7F,0x45,0x4C,0x46,1,1,1,0,0,0,0,0,0,0,0,0,2,0,3,0,1,0,0,0,0,0,0x10,0,0x34,0,0,0,0,0,0,0,0,0,
    0,0,0x34,0,0x20,0,1,0,0,0,0,0,0,0,1,0,0,0,0x54,0,0,0,0,0,0x10,0,0,0,0x10,0,1,0,0,0]++memsz++
    [7,0,0,0,0,0x10,0,0,0xF4]).getD (x-kernelTempAddr) 0

/-- Code and one byte of BSS. -/
def smallKernel : Memory := oneByteKernel [2,0,0,0]

/-- An image of two segments. The second is linked at 1 MiB and takes six bytes,
two of them from the file; the first takes five, three of them from the file, at
an address with these four bytes. -/
def twoSegments (paddr : List UInt8) : Memory := fun x =>
  if x < kernelTempAddr then 0 else
  ([0x7F,0x45,0x4C,0x46,1,1,1,0,0,0,0,0,0,0,0,0,2,0,3,0,1,0,0,0,0,0,0x10,0,0x34,0,0,0,0,0,0,0,0,0,
    0,0,0x34,0,0x20,0,2,0,0,0,0,0,0,0,1,0,0,0,0x74,0,0,0,0,0,0,0]++paddr++
    [3,0,0,0,5,0,0,0,6,0,0,0,0,0x10,0,0,1,0,0,0,0x77,0,0,0,0,0,0x10,0,0,0,0x10,0,2,0,0,0,6,0,0,0,
      5,0,0,0,0,0x10,0,0,0xB0,0x02,0xC3,0xEB,0xFE]).getD (x-kernelTempAddr) 0

/-- With one program header no two segments can meet. -/
theorem loadable_of_single {w size : ℕ} {m : Memory} {image : ℕ}
    (hn : ePhnum (view w m image) = 1) (valid : elf32Validate w m image size = 0)
    (stored : image+size ≤ w) (small : size < space32)
    (headers : headerOffset (view w m image) 0+phdrSize ≤ size)
    (files : (segment (view w m image) 0).pOffset+(segment (view w m image) 0).pFilesz ≤ size)
    (fits : (segment (view w m image) 0).pFilesz ≤ (segment (view w m image) 0).pMemsz ∧
      (segment (view w m image) 0).pPaddr+(segment (view w m image) 0).pMemsz ≤ space32) :
    Loadable w m image size := by
  have hfirst : ∀ i < ePhnum (view w m image), i = 0 := fun i hi => by omega
  refine ⟨valid,stored,small,?_,?_,?_,?_⟩
  · intro i hi
    rwa [hfirst i hi]
  · intro i hi _
    rwa [hfirst i hi]
  · intro i hi _
    rwa [hfirst i hi]
  · intro i hi j hj hij
    exact absurd ((hfirst i hi).trans (hfirst j hj).symm) hij

/-- The first segment begins two bytes below 2 MiB and ends in the magic number,
which nothing reads after the validation. -/
def splitKernel : Memory := twoSegments [0xFE,0xFF,0x1F,0]

theorem splitKernel_loadable : Loadable space32 splitKernel kernelTempAddr 121 := by
  have hapart : ∀ i < ePhnum (view space32 splitKernel kernelTempAddr),
      ∀ j < ePhnum (view space32 splitKernel kernelTempAddr), i ≠ j →
      let p := segment (view space32 splitKernel kernelTempAddr) i
      let q := segment (view space32 splitKernel kernelTempAddr) j
      p.pPaddr+p.pMemsz ≤ q.pPaddr ∨ q.pPaddr+q.pMemsz ≤ p.pPaddr := by
    decide +kernel
  constructor
  case disjoint =>
    intro i hi j hj hij _ _ t ht u hu
    have hij := hapart i hi j hj hij
    omega
  all_goals decide +kernel

theorem splitKernel_harmless : Harmless space32 splitKernel kernelTempAddr := by
  have hn : ePhnum (view space32 splitKernel kernelTempAddr) = 2 := by decide +kernel
  have hfrom : ∀ i < 2, 52 ≤ headerOffset (view space32 splitKernel kernelTempAddr) i ∧
      52 ≤ (segment (view space32 splitKernel kernelTempAddr) i).pOffset := by decide +kernel
  have hend : ∀ i < 2, (segment (view space32 splitKernel kernelTempAddr) i).pPaddr+
      (segment (view space32 splitKernel kernelTempAddr) i).pMemsz ≤ kernelTempAddr+3 := by
    decide +kernel
  intro i hi _ t ht k hx hk
  rw [hn] at hi
  have hk₃ : k < 3 := by
    have := hend i hi
    omega
  have hi₀ := hfrom i hi
  exfalso
  rcases hk with (hk | hk | ⟨-,hk⟩ | ⟨j,-,hj,hk | ⟨-,hk⟩⟩) | ⟨-,hk⟩
  · omega
  · omega
  · omega
  · have hj₀ := hfrom j (by omega)
    simp only [Phdr.Uses] at hk
    omega
  · have hj₀ := hfrom j (by omega)
    omega
  · omega

theorem elf32Load_places_splitKernel : ∃ r,
    elf32Load space32 splitKernel kernelTempAddr 121 = some r ∧
      Loaded space32 splitKernel kernelTempAddr r :=
  elf32Load_places le_rfl splitKernel_loadable splitKernel_harmless

/-- Code and a BSS that ends 256 bytes past 2 MiB, over the ELF header. -/
def bssOverImage : Memory := oneByteKernel [0,1,0x10,0]

/-- The BSS clears `e_entry` before it is returned. -/
theorem bssOverImage_not_loaded : Loadable space32 bssOverImage kernelTempAddr 85 ∧
    ¬∃ r, elf32Load space32 bssOverImage kernelTempAddr 85 = some r ∧
      Loaded space32 bssOverImage kernelTempAddr r := by
  have hload : Loadable space32 bssOverImage kernelTempAddr 85 := by
    apply loadable_of_single <;> decide +kernel
  refine ⟨hload,?_⟩
  rintro ⟨r,hr,hl⟩
  have hentry : eEntry (view space32 bssOverImage kernelTempAddr) = 0x100000 := by
    decide +kernel
  have hpaddr : (segment (view space32 bssOverImage kernelTempAddr) 0).pPaddr = 0x100000 := by
    decide +kernel
  -- wherever the run ends, the entry field has been cleared by then
  have hzero : ∀ k, 24 ≤ k → k < 28 → r.2.mem (kernelTempAddr+k) = 0 := by
    intro k h₁ h₂
    have hb := hl.bss 0 (by decide +kernel) (by decide +kernel) (0x100000+k)
      (show 0x100000+k < 0x100100 by omega) (show 1 ≤ 0x100000+k by omega)
    rw [hpaddr,← Nat.add_assoc] at hb
    have ha : kernelTempAddr = 0x100000+0x100000 := by decide
    rwa [ha]
  obtain ⟨a,-,he⟩ := elf32Load_ends hload.valid hr
  have hz : r.1 = 0 := by
    rcases he with ⟨-,rfl⟩ | ⟨-,-,hz⟩
    · refine load_zero fun i hi => ?_
      have hk := hzero (24+i) (by omega) (by omega)
      rw [view_of_lt hload.stored _ (by omega)]
      exact hk
    · exact hz
  rw [hl.entry,hentry] at hz
  exact absurd hz (by decide)

end Gemiboot.ElfLoad
