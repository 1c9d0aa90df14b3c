import Gemiboot.MemoryRoutines

/-!
# The ELF loader

`common/elf.c` on one flat memory of `w` bytes, where `w` is also the modulus of
`size_t`: 2^32 in the BIOS build and 2^64 in the UEFI build. The image lies in
the memory the loader writes, so the header and the program headers are read
again wherever the C code follows a pointer into the image. A ghost field records
every range of the image that is read.
-/
namespace Gemiboot.ElfLoad
open ByteMemory MemoryRoutines

/-- The bytes at a pointer, as offsets from it. -/
def view (w : ℕ) (m : Memory) (base : ℕ) : Memory := fun k => m ((base+k)%w)

def eEntry (img : Memory) : ℕ := load 4 img 24
def ePhoff (img : Memory) : ℕ := load 4 img 28
def ePhentsize (img : Memory) : ℕ := load 2 img 42
def ePhnum (img : Memory) : ℕ := load 2 img 44

def ehdrSize : ℕ := 52
def phdrSize : ℕ := 32
def ptLoad : ℕ := 1

/-- The fields of `Elf32_Phdr` that the loader uses. -/
structure Phdr where
  pType : ℕ
  pOffset : ℕ
  pPaddr : ℕ
  pFilesz : ℕ
  pMemsz : ℕ

def phdrAt (img : Memory) (off : ℕ) : Phdr :=
  ⟨load 4 img off,load 4 img (off+4),load 4 img (off+12),load 4 img (off+16),load 4 img (off+20)⟩

def elf32Validate (w : ℕ) (m : Memory) (image size : ℕ) : ℤ :=
  if image = 0 ∨ size < ehdrSize then -1
  else
    let img := view w m image
    if img 0 ≠ 0x7F ∨ img 1 ≠ 0x45 ∨ img 2 ≠ 0x4C ∨ img 3 ≠ 0x46 then -1
    else if img 4 ≠ 1 ∨ img 5 ≠ 1 ∨ load 2 img 16 ≠ 2 ∨ load 2 img 18 ≠ 3 then -1
    else if ePhoff img = 0 ∨ ePhnum img = 0 then -1
    else 0

structure LoadState where
  mem : Memory
  /-- Ghost: the ranges of the image read so far, as offset and length. -/
  reads : List (ℕ × ℕ)

def LoadState.read (s : LoadState) (off len : ℕ) : LoadState :=
  {s with reads := (off,len)::s.reads}

/-- Everything `elf32_validate` may look at; it stops early on a mismatch. -/
def headerReads : List (ℕ × ℕ) := [(0,6),(16,2),(18,2),(28,4),(44,2)]

/-- `(uint32_t)(i * e_phentsize)` added to `e_phoff` in 32 bits. -/
def phdrOffset (img : Memory) (i : ℕ) : ℕ := u32 (ePhoff img+u32 (i*ePhentsize img))

/-- The BSS part: the copy before it may have changed the program header. -/
def clearBss (w image off : ℕ) (s : LoadState) : LoadState :=
  let p := phdrAt (view w s.mem image) off
  if p.pMemsz > p.pFilesz then
    {s.read off phdrSize with
      mem := memset w s.mem ((p.pPaddr+p.pFilesz)%w) 0 (p.pMemsz-p.pFilesz)}
  else s.read off phdrSize

/-- One pass of the loop; an error is `return 0`. -/
def loadHeader (w image size i : ℕ) (s : LoadState) : Except LoadState LoadState :=
  let img := view w s.mem image
  let off := phdrOffset img i
  let s := (s.read 28 4).read 42 2
  if (off+phdrSize)%w > size then .error s
  else
    let p := phdrAt img off
    let s := s.read off phdrSize
    if p.pType = ptLoad then
      if p.pFilesz > 0 then
        if u32 (p.pOffset+p.pFilesz) > size then .error s
        else
          .ok (clearBss w image off {s.read p.pOffset p.pFilesz with
            mem := memcpy w s.mem p.pPaddr ((image+p.pOffset)%w) p.pFilesz})
      else .ok (clearBss w image off s)
    else .ok s

/-- The loop over the program headers. `e_phnum` is read before every pass; the
16-bit counter stays below it and never wraps. -/
def loadLoop (w image size : ℕ) : ℕ → ℕ → LoadState → Option (ℕ × LoadState)
  | 0,_,_ => none
  | fuel+1,i,s =>
      let img := view w s.mem image
      if i < ePhnum img then
        match loadHeader w image size i (s.read 44 2) with
        | .error s => some (0,s)
        | .ok s => loadLoop w image size fuel (i+1) s
      else some (eEntry img,(s.read 44 2).read 24 4)

/-- `elf32_load`; 65536 passes are always enough. -/
def elf32Load (w : ℕ) (m : Memory) (image size : ℕ) : Option (ℕ × LoadState) :=
  if elf32Validate w m image size ≠ 0 then
    some (0,⟨m,if image = 0 ∨ size < ehdrSize then [] else headerReads⟩)
  else loadLoop w image size 65536 0 ⟨m,headerReads⟩

/-- The address space of the 32-bit build. -/
def space32 : ℕ := 4294967296

/-- Where the file says program header `i` is. -/
def headerOffset (img : Memory) (i : ℕ) : ℕ := ePhoff img+i*ePhentsize img

/-- A PT_LOAD segment that takes bytes from the file. -/
def Phdr.Copies (p : Phdr) : Prop := p.pType = ptLoad ∧ 0 < p.pFilesz

instance (p : Phdr) : Decidable p.Copies := inferInstanceAs (Decidable (_ ∧ _))

theorem ePhnum_lt (img : Memory) : ePhnum img < 65536 := load_lt 2 img 44

theorem headerOffset_eq {img : Memory} {i : ℕ} (hi : i < ePhnum img) :
    phdrOffset img i = u32 (headerOffset img i) := by
  have hn := ePhnum_lt img
  have he : ePhentsize img < 65536 := load_lt 2 img 42
  have hmul : i*ePhentsize img ≤ 65535*65535 := Nat.mul_le_mul (by omega) (by omega)
  rw [phdrOffset,headerOffset,u32_of_lt (n := i*ePhentsize img) (by omega)]

/-! ### The loop as a run of states -/

/-- A pass that goes on to the next program header. -/
def Pass (w image size : ℕ) (a b : ℕ × LoadState) : Prop :=
  a.1 < ePhnum (view w a.2.mem image) ∧
    loadHeader w image size a.1 (a.2.read 44 2) = .ok b.2 ∧ b.1 = a.1+1

/-- The states at the head of the loop. -/
def Reached (w : ℕ) (m : Memory) (image size : ℕ) (a : ℕ × LoadState) : Prop :=
  elf32Validate w m image size = 0 ∧
    Relation.ReflTransGen (Pass w image size) (0,⟨m,headerReads⟩) a

theorem loadLoop_total {w image size : ℕ} (fuel i : ℕ) (s : LoadState) (hi : i < 65536)
    (hf : 65536 ≤ i+fuel) : ∃ r, loadLoop w image size fuel i s = some r := by
  induction fuel generalizing i s with
  | zero => omega
  | succ fuel ih =>
      have hn := ePhnum_lt (view w s.mem image)
      rw [loadLoop]
      by_cases h : i < ePhnum (view w s.mem image)
      · rw [if_pos h]
        cases loadHeader w image size i (s.read 44 2) with
        | error s' => exact ⟨_,rfl⟩
        | ok s' => exact ih (i+1) s' (by omega) (by omega)
      · rw [if_neg h]
        exact ⟨_,rfl⟩

theorem elf32Load_total (w : ℕ) (m : Memory) (image size : ℕ) :
    ∃ r, elf32Load w m image size = some r := by
  rw [elf32Load]
  by_cases h : elf32Validate w m image size ≠ 0
  · rw [if_pos h]
    exact ⟨_,rfl⟩
  · rw [if_neg h]
    exact loadLoop_total 65536 0 _ (by decide) (by decide)

/-- Where a run ends: past the last header, or at one that is refused. -/
def EndsAt (w image size : ℕ) (a : ℕ × LoadState) (r : ℕ × LoadState) : Prop :=
  (ePhnum (view w a.2.mem image) ≤ a.1 ∧
    r = (eEntry (view w a.2.mem image),(a.2.read 44 2).read 24 4)) ∨
  (a.1 < ePhnum (view w a.2.mem image) ∧
    loadHeader w image size a.1 (a.2.read 44 2) = .error r.2 ∧ r.1 = 0)

theorem loadLoop_ends {w image size fuel i : ℕ} {s : LoadState} {r : ℕ × LoadState}
    (h : loadLoop w image size fuel i s = some r) :
    ∃ a, Relation.ReflTransGen (Pass w image size) (i,s) a ∧ EndsAt w image size a r := by
  induction fuel generalizing i s with
  | zero => cases h
  | succ fuel ih =>
      rw [loadLoop] at h
      by_cases hi : i < ePhnum (view w s.mem image)
      · rw [if_pos hi] at h
        cases hl : loadHeader w image size i (s.read 44 2) with
        | error s' =>
            rw [hl] at h
            obtain rfl := Option.some.inj h
            exact ⟨(i,s),.refl,.inr ⟨hi,hl,rfl⟩⟩
        | ok s' =>
            rw [hl] at h
            obtain ⟨a,hr,ha⟩ := ih h
            exact ⟨a,.head ⟨hi,hl,rfl⟩ hr,ha⟩
      · rw [if_neg hi] at h
        obtain rfl := Option.some.inj h
        exact ⟨(i,s),.refl,.inl ⟨Nat.le_of_not_lt hi,rfl⟩⟩

theorem pass_rightUnique (w image size : ℕ) : Relator.RightUnique (Pass w image size) := by
  rintro a b c ⟨-,hb,hb'⟩ ⟨-,hc,hc'⟩
  rw [hb] at hc
  injection hc with hbc
  exact Prod.ext (hb'.trans hc'.symm) hbc

theorem EndsAt.not_pass {w image size : ℕ} {a r : ℕ × LoadState} (h : EndsAt w image size a r)
    (b : ℕ × LoadState) : ¬Pass w image size a b := by
  rintro ⟨hi,hl,-⟩
  rcases h with ⟨hn,-⟩ | ⟨-,he,-⟩
  · omega
  · rw [he] at hl
    cases hl

/-- A state that ends the run is reached from every state of the run. -/
theorem EndsAt.reached {w image size : ℕ} {a b c r : ℕ × LoadState} (hr : EndsAt w image size b r)
    (hb : Relation.ReflTransGen (Pass w image size) a b)
    (hc : Relation.ReflTransGen (Pass w image size) a c) :
    Relation.ReflTransGen (Pass w image size) c b := by
  rcases Relation.ReflTransGen.total_of_right_unique (pass_rightUnique w image size) hb hc with
    h | h
  · rcases Relation.ReflTransGen.cases_head h with rfl | ⟨d,hd,-⟩
    · exact .refl
    · exact absurd hd (hr.not_pass d)
  · exact h

/-- The result of a load whose header is valid, as the end of its run. -/
theorem elf32Load_ends {w image size : ℕ} {m : Memory} {r : ℕ × LoadState}
    (hv : elf32Validate w m image size = 0) (h : elf32Load w m image size = some r) :
    ∃ a, Reached w m image size a ∧ EndsAt w image size a r := by
  rw [elf32Load,if_neg (by simp [hv])] at h
  obtain ⟨a,ha,he⟩ := loadLoop_ends h
  exact ⟨a,⟨hv,ha⟩,he⟩

theorem EndsAt.eq {w image size : ℕ} {a r r' : ℕ × LoadState} (h : EndsAt w image size a r)
    (h' : EndsAt w image size a r') : r = r' := by
  rcases h with ⟨hn,he⟩ | ⟨hi,hl,hz⟩
  · rcases h' with ⟨-,he'⟩ | ⟨hi,-,-⟩
    · rw [he,he']
    · exact absurd hi (Nat.not_lt.mpr hn)
  · rcases h' with ⟨hn,-⟩ | ⟨-,hl',hz'⟩
    · exact absurd hi (Nat.not_lt.mpr hn)
    · rw [hl] at hl'
      exact Prod.ext (hz.trans hz'.symm) (Except.error.inj hl')

/-- A reached state that ends the run gives the result of the load. -/
theorem result_of_reached {w image size : ℕ} {m : Memory} {a r r' : ℕ × LoadState}
    (ha : Reached w m image size a) (he : EndsAt w image size a r)
    (hr : elf32Load w m image size = some r') : r' = r := by
  obtain ⟨b,hb,hbe⟩ := elf32Load_ends ha.1 hr
  have hab := he.reached ha.2 hb.2
  have hba := hbe.reached hb.2 ha.2
  have heq : a = b := by
    rcases Relation.ReflTransGen.cases_head hba with heq | ⟨c,hp,-⟩
    · exact heq
    · exact absurd hp (he.not_pass c)
  subst heq
  exact hbe.eq he

theorem elf32Validate_size {w image size : ℕ} {m : Memory}
    (h : elf32Validate w m image size = 0) : image ≠ 0 ∧ ehdrSize ≤ size := by
  rw [elf32Validate] at h
  by_cases hs : image = 0 ∨ size < ehdrSize
  · rw [if_pos hs] at h
    cases h
  · exact ⟨fun hi => hs (.inl hi),by omega⟩

end Gemiboot.ElfLoad
