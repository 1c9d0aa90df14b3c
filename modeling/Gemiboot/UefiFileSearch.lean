import Gemiboot.UefiNames

/-!
# Finding the kernel on a file system

`try_open_file_on_fs` of both UEFI loaders, from an opened volume on. Eight paths are
tried, and then the root directory is listed into a buffer of 512 bytes. The firmware
is a parameter with a state of its own; a file handle is known by the path it was
opened with, and a failed Open leaves `file` NULL.
-/
namespace Gemiboot.UefiFileSearch
open ByteMemory ShortNames UefiNames

inductive EfiStatus where
  | success
  | error (code : ℕ)
  deriving DecidableEq

def bufferTooSmall : EfiStatus := .error 5
def notFound : EfiStatus := .error 14

def fileDirectory : ℕ := 0x10

/-- What the loader uses of an EFI_FILE_INFO. -/
structure FileInfo where
  fileAttribute : ℕ
  fileName : Utf16String

/-- The fields in front of the name take 80 bytes; the name has a terminator. -/
def FileInfo.size (info : FileInfo) : ℕ := 80+2*(info.fileName.units.length+1)

structure File where
  path : Utf16String
  deriving DecidableEq

structure VolumeResult (σ : Type) where
  status : EfiStatus
  hasRoot : Bool
  fw : σ

/-- After `root->Read`: the size in and out of the call, and the record in the buffer. -/
structure ListResult (σ : Type) where
  status : EfiStatus
  bufSize : ℕ
  buf : FileInfo
  fw : σ

structure ReadResult (σ : Type) where
  status : EfiStatus
  readBytes : ℕ
  mem : Memory
  fw : σ

structure Firmware (σ : Type) where
  openVolume : σ → VolumeResult σ
  openFile : σ → Utf16String → Option File × σ
  setPosition : σ → ℕ → σ
  readRoot : σ → ℕ → ListResult σ
  readFile : σ → File → Memory → ℕ → ℕ → ReadResult σ
  closeFile : σ → File → σ
  closeRoot : σ → σ

variable {σ : Type}

/-! ### The search -/

theorem upperName_nonzero :
    ∀ c ∈ ([0x47,0x45,0x4D,0x49,0x4F,0x53,0x2E,0x45,0x4C,0x46] : List UInt8), c ≠ 0 := by simp

theorem lowerName_nonzero :
    ∀ c ∈ ([0x67,0x65,0x6D,0x69,0x6F,0x73,0x2E,0x65,0x6C,0x66] : List UInt8), c ≠ 0 := by simp

def upperName : CString :=
  ⟨[0x47,0x45,0x4D,0x49,0x4F,0x53,0x2E,0x45,0x4C,0x46],upperName_nonzero⟩
def lowerName : CString :=
  ⟨[0x67,0x65,0x6D,0x69,0x6F,0x73,0x2E,0x65,0x6C,0x66],lowerName_nonzero⟩

/-- A directory in front of a file name. -/
def pathIn (dir : CString) (name : CString) : Utf16String where
  units := (dir.chars++name.chars).map UInt8.toUInt16
  nonzero := by
    intro x hx
    obtain ⟨c,hc,rfl⟩ := List.mem_map.mp hx
    have hne : c ≠ 0 := (List.mem_append.mp hc).elim (dir.nonzero c) (name.nonzero c)
    intro h0
    apply hne
    rw [← UInt8.toNat_inj,← UInt8.toNat_toUInt16,h0]
    rfl

def here : CString := ⟨[],by simp⟩
def rootDir : CString := ⟨[0x5C],by simp⟩
def bootDir : CString := ⟨[0x45,0x46,0x49,0x5C,0x42,0x4F,0x4F,0x54,0x5C],by simp⟩
def rootBootDir : CString := ⟨[0x5C,0x45,0x46,0x49,0x5C,0x42,0x4F,0x4F,0x54,0x5C],by simp⟩

def paths : List Utf16String :=
  [pathIn here upperName,pathIn rootDir upperName,pathIn here lowerName,pathIn rootDir lowerName,
    pathIn bootDir upperName,pathIn bootDir lowerName,pathIn rootBootDir upperName,
    pathIn rootBootDir lowerName]

def openDirect (f : Firmware σ) : List Utf16String → σ → Option File × σ
  | [],fw => (none,fw)
  | p::ps,fw =>
      match f.openFile fw p with
      | (some file,fw) => (some file,fw)
      | (none,fw) => openDirect f ps fw

/-- No directory, and the name passes one of the two comparisons. -/
def Candidate (info : FileInfo) : Prop :=
  info.fileAttribute &&& fileDirectory = 0 ∧
    (utf16CaseEquals info.fileName.cell lowerName = some true ∨
      utf16CaseEquals info.fileName.cell upperName = some true)

instance (info : FileInfo) : Decidable (Candidate info) := inferInstanceAs (Decidable (_ ∧ _))

/-- The listing loop; any status but success leaves it. -/
def listRoot (f : Firmware σ) : ℕ → σ → Option (Option File × σ)
  | 0,_ => none
  | fuel+1,fw =>
      let r := f.readRoot fw 512
      if r.status ≠ .success ∨ r.bufSize = 0 then some (none,r.fw)
      else if Candidate r.buf then
        match f.openFile r.fw r.buf.fileName with
        | (some file,fw) => some (some file,fw)
        | (none,fw) => listRoot f fuel fw
      else listRoot f fuel r.fw

/-- The result of the call, with the file that was read. -/
structure TryOpen (σ : Type) where
  status : EfiStatus
  file : Option File
  outSize : ℕ
  mem : Memory
  fw : σ

def readKernel (f : Firmware σ) (file : File) (fw : σ) (mem : Memory)
    (destBuf maxSize outSize : ℕ) : TryOpen σ :=
  let r := f.readFile fw file mem destBuf maxSize
  ⟨r.status,some file,if r.status = .success then r.readBytes else outSize,r.mem,
    f.closeRoot (f.closeFile r.fw file)⟩

def tryOpenFileOnFs (f : Firmware σ) (fuel : ℕ) (fw : σ) (mem : Memory)
    (destBuf maxSize outSize : ℕ) : Option (TryOpen σ) :=
  let v := f.openVolume fw
  if v.status ≠ .success ∨ v.hasRoot = false then some ⟨v.status,none,outSize,mem,v.fw⟩
  else
    match openDirect f paths v.fw with
    | (some file,fw) => some (readKernel f file fw mem destBuf maxSize outSize)
    | (none,fw) =>
        (listRoot f fuel (f.setPosition fw 0)).map fun
          | (some file,fw) => readKernel f file fw mem destBuf maxSize outSize
          | (none,fw) => ⟨notFound,none,outSize,mem,f.closeRoot fw⟩

/-! ### What the firmware promises -/

/-- The root directory has these entries, and these names can be opened in it. -/
structure Lists (f : Firmware σ) (position : σ → ℕ) (entries : List FileInfo)
    (opens : Utf16String → Bool) : Prop where
  opening : ∀ fw p, ∃ fw', f.openFile fw p = (if opens p then some ⟨p⟩ else none,fw') ∧
    position fw' = position fw
  rewind : ∀ fw, position (f.setPosition fw 0) = 0
  next : ∀ fw size e, entries[position fw]? = some e → e.size ≤ size →
    let r := f.readRoot fw size
    r.status = .success ∧ r.bufSize = e.size ∧ r.buf = e ∧ position r.fw = position fw+1
  short : ∀ fw size e, entries[position fw]? = some e → size < e.size →
    let r := f.readRoot fw size
    r.status = bufferTooSmall ∧ position r.fw = position fw
  finish : ∀ fw size, entries[position fw]? = none →
    let r := f.readRoot fw size
    r.status = .success ∧ r.bufSize = 0

/-! ### The listing as a search in a list -/

/-- The name that is opened: the first candidate that opens, unless a record that does
not fit comes before it. -/
def scan (opens : Utf16String → Bool) : List FileInfo → Option Utf16String
  | [] => none
  | e::es =>
      if 512 < e.size then none
      else if Candidate e ∧ opens e.fileName = true then some e.fileName
      else scan opens es

variable {f : Firmware σ} {position : σ → ℕ} {entries : List FileInfo}
  {opens : Utf16String → Bool}

/-- A record that does not fit ends the listing. -/
theorem listRoot_long (h : Lists f position entries opens) {fuel : ℕ} {fw : σ} {e : FileInfo}
    (hget : entries[position fw]? = some e) (hlong : 512 < e.size) :
    ∃ fw', listRoot f (fuel+1) fw = some (none,fw') := by
  have hshort := h.short fw 512 e hget hlong
  rw [listRoot]
  dsimp only at hshort ⊢
  rw [if_pos (.inl (by rw [hshort.1]; decide))]
  exact ⟨_,rfl⟩

/-- One pass over a record that fits. -/
theorem listRoot_fits (h : Lists f position entries opens) (fuel : ℕ) {fw : σ} {e : FileInfo}
    (hget : entries[position fw]? = some e) (hfit : e.size ≤ 512) :
    ∃ fw', position fw' = position fw+1 ∧ listRoot f (fuel+1) fw =
      if Candidate e ∧ opens e.fileName = true then some (some ⟨e.fileName⟩,fw')
      else listRoot f fuel fw' := by
  obtain ⟨hstatus,hsize,hbuf,hpos⟩ := h.next fw 512 e hget hfit
  have hgo : ¬((f.readRoot fw 512).status ≠ .success ∨ (f.readRoot fw 512).bufSize = 0) := by
    rw [hstatus,hsize]
    simp [FileInfo.size]
  rw [listRoot,if_neg hgo,hbuf]
  by_cases hc : Candidate e
  · obtain ⟨fw',hopen,hpos'⟩ := h.opening (f.readRoot fw 512).fw e.fileName
    refine ⟨fw',hpos'.trans hpos,?_⟩
    rw [if_pos hc,hopen]
    by_cases ho : opens e.fileName = true
    · rw [if_pos ho,if_pos ⟨hc,ho⟩]
    · rw [if_neg ho,if_neg fun hand => ho hand.2]
  · refine ⟨(f.readRoot fw 512).fw,hpos,?_⟩
    rw [if_neg hc,if_neg fun hand => hc hand.1]

theorem listRoot_eq (h : Lists f position entries opens) {fuel : ℕ} {fw : σ}
    {rest : List FileInfo} (hrest : entries.drop (position fw) = rest) (hfuel : rest.length < fuel) :
    ∃ fw', listRoot f fuel fw = some ((scan opens rest).map File.mk,fw') := by
  induction fuel generalizing fw rest with
  | zero => exact absurd hfuel (Nat.not_lt_zero _)
  | succ fuel ih =>
      cases rest with
      | nil =>
          have hnone : entries[position fw]? = none := by
            rw [List.getElem?_eq_none_iff]
            exact List.drop_eq_nil_iff.mp hrest
          have hend := h.finish fw 512 hnone
          rw [listRoot]
          dsimp only at hend ⊢
          rw [if_pos (.inr hend.2)]
          exact ⟨_,rfl⟩
      | cons e rest =>
          have hget : entries[position fw]? = some e := by
            rw [← List.head?_drop,hrest]
            rfl
          rw [scan]
          by_cases hlong : 512 < e.size
          · rw [if_pos hlong]
            exact listRoot_long h hget hlong
          · have htail : entries.drop (position fw+1) = rest := by
              rw [← List.tail_drop,hrest]
              rfl
            obtain ⟨fw',hpos,hpass⟩ := listRoot_fits h fuel hget (Nat.le_of_not_lt hlong)
            rw [if_neg hlong,hpass]
            by_cases hopen : Candidate e ∧ opens e.fileName = true
            · rw [if_pos hopen,if_pos hopen]
              exact ⟨fw',rfl⟩
            · rw [if_neg hopen,if_neg hopen]
              exact ih (by rw [hpos,htail]) (Nat.lt_of_succ_lt_succ hfuel)

theorem openDirect_none (h : Lists f position entries opens) {ps : List Utf16String}
    (hps : ∀ p ∈ ps, opens p = false) (fw : σ) : ∃ fw', openDirect f ps fw = (none,fw') := by
  induction ps generalizing fw with
  | nil => exact ⟨fw,rfl⟩
  | cons p ps ih =>
      rw [List.forall_mem_cons] at hps
      obtain ⟨fw',hopen,-⟩ := h.opening fw p
      rw [hps.1] at hopen
      rw [openDirect,hopen]
      exact ih hps.2 fw'

/-- An entry that the listing goes past. -/
def Passed (opens : Utf16String → Bool) (e : FileInfo) : Prop :=
  e.size ≤ 512 ∧ ¬(Candidate e ∧ opens e.fileName = true)

theorem scan_eq_some {l : List FileInfo} {name : Utf16String} (h : scan opens l = some name) :
    ∃ before e after, l = before++e::after ∧ (∀ e' ∈ before, Passed opens e') ∧
      Candidate e ∧ opens e.fileName = true ∧ e.fileName = name := by
  induction l with
  | nil => cases h
  | cons e l ih =>
      rw [scan] at h
      split_ifs at h with hlong hc
      · exact ⟨[],e,l,rfl,by simp,hc.1,hc.2,Option.some.inj h⟩
      · obtain ⟨before,e',after,rfl,hpass,he'⟩ := ih h
        refine ⟨e::before,e',after,rfl,?_,he'⟩
        rw [List.forall_mem_cons]
        exact ⟨⟨Nat.le_of_not_lt hlong,hc⟩,hpass⟩

/-! ### The kernel -/

/-- A file whose name is gemios.elf up to the case of letters. -/
def IsKernel (e : FileInfo) : Prop :=
  e.fileAttribute &&& fileDirectory = 0 ∧ SameText e.fileName lowerName

/-- A file whose name has the right low bytes only. -/
def Mistaken (e : FileInfo) : Prop :=
  e.fileAttribute &&& fileDirectory = 0 ∧ SameLowBytes e.fileName lowerName ∧
    ∃ x ∈ e.fileName.units, 0xFF < x

theorem candidate_iff (e : FileInfo) : Candidate e ↔ IsKernel e ∨ Mistaken e := by
  have heq : ∀ a : CString, utf16CaseEquals e.fileName.cell a = some true ↔
      SameLowBytes e.fileName a := by
    intro a
    obtain ⟨r,hr,hiff⟩ := utf16CaseEquals_eq e.fileName a
    rw [hr,Option.some.injEq,hiff]
  have hcase : upperName.chars.map toUpper = lowerName.chars.map toUpper := by decide +kernel
  unfold Candidate IsKernel Mistaken
  rw [heq,heq,sameLowBytes_caseless hcase,or_self,sameText_iff]
  have hle : (∀ x ∈ e.fileName.units, x ≤ 0xFF) ↔ ¬∃ x ∈ e.fileName.units, 0xFF < x := by
    simp only [not_exists,not_and,UInt16.not_lt]
  rw [hle]
  tauto

theorem IsKernel.fits {e : FileInfo} (h : IsKernel e) : e.size ≤ 512 := by
  have hlen : e.fileName.units.length = lowerName.chars.length := h.2.length_eq
  have hten : lowerName.chars.length = 10 := rfl
  unfold FileInfo.size
  omega

/-- With enough fuel the call reads a file of the root directory that is a kernel. -/
def ReadsKernel (f : Firmware σ) (entries : List FileInfo) (opens : Utf16String → Bool) (fw : σ)
    (mem : Memory) (destBuf maxSize outSize : ℕ) : Prop :=
  ∃ enough, ∀ fuel, enough ≤ fuel → ∃ e ∈ entries, IsKernel e ∧ opens e.fileName = true ∧
    ∃ fw', tryOpenFileOnFs f fuel fw mem destBuf maxSize outSize =
      some (readKernel f ⟨e.fileName⟩ fw' mem destBuf maxSize outSize)

/-- A kernel that opens, where each entry before it has a record that fits, and none of
them is a mistaken one that opens. -/
def InReach (entries : List FileInfo) (opens : Utf16String → Bool) : Prop :=
  ∃ before e after, entries = before++e::after ∧ IsKernel e ∧ opens e.fileName = true ∧
    ∀ e' ∈ before, e'.size ≤ 512 ∧ ¬(Mistaken e' ∧ opens e'.fileName = true)

theorem scan_inReach {l : List FileInfo} (h : InReach l opens) :
    ∃ e ∈ l, IsKernel e ∧ opens e.fileName = true ∧ scan opens l = some e.fileName := by
  obtain ⟨before,e,after,rfl,hkernel,hopens,hclear⟩ := h
  induction before with
  | nil =>
      have hcand := (candidate_iff e).mpr (.inl hkernel)
      refine ⟨e,List.mem_cons_self,hkernel,hopens,?_⟩
      rw [List.nil_append,scan,if_neg (Nat.not_lt.mpr hkernel.fits),if_pos ⟨hcand,hopens⟩]
  | cons d before ih =>
      rw [List.forall_mem_cons] at hclear
      rw [List.cons_append,scan,if_neg (Nat.not_lt.mpr hclear.1.1)]
      by_cases hd : Candidate d ∧ opens d.fileName = true
      · have hk := ((candidate_iff d).mp hd.1).resolve_right fun hm => hclear.1.2 ⟨hm,hd.2⟩
        exact ⟨d,List.mem_cons_self,hk,hd.2,if_pos hd⟩
      · obtain ⟨e',he',hk⟩ := ih hclear.2
        rw [if_neg hd]
        exact ⟨e',List.mem_cons_of_mem d he',hk⟩

/-- The call on a volume where no direct path opens. -/
theorem tryOpenFileOnFs_eq (h : Lists f position entries opens) {fw : σ}
    (hvol : (f.openVolume fw).status = .success ∧ (f.openVolume fw).hasRoot = true)
    (hpaths : ∀ p ∈ paths, opens p = false) (mem : Memory) (destBuf maxSize outSize : ℕ) {fuel : ℕ}
    (hfuel : entries.length < fuel) : ∃ fw',
      tryOpenFileOnFs f fuel fw mem destBuf maxSize outSize =
        some (match scan opens entries with
          | some name => readKernel f ⟨name⟩ fw' mem destBuf maxSize outSize
          | none => ⟨notFound,none,outSize,mem,f.closeRoot fw'⟩) := by
  have hgo : ¬((f.openVolume fw).status ≠ .success ∨ (f.openVolume fw).hasRoot = false) := by
    rw [hvol.1,hvol.2]
    simp
  unfold tryOpenFileOnFs
  dsimp only
  rw [if_neg hgo]
  obtain ⟨fw₁,hdirect⟩ := openDirect_none h hpaths (f.openVolume fw).fw
  have hstart : entries.drop (position (f.setPosition fw₁ 0)) = entries := by
    rw [h.rewind,List.drop_zero]
  obtain ⟨fw₂,hlist⟩ := listRoot_eq h hstart hfuel
  rw [hdirect]
  dsimp only
  rw [hlist]
  refine ⟨fw₂,?_⟩
  cases scan opens entries <;> rfl

/-- The listing finds the kernel exactly when nothing before it stops or misleads it. -/
theorem readsKernel_iff (f : Firmware σ) (position : σ → ℕ) (entries : List FileInfo)
    (opens : Utf16String → Bool) (h : Lists f position entries opens) (fw : σ)
    (hvol : (f.openVolume fw).status = .success ∧ (f.openVolume fw).hasRoot = true)
    (hpaths : ∀ p ∈ paths, opens p = false) (mem : Memory) (destBuf maxSize outSize : ℕ) :
    ReadsKernel f entries opens fw mem destBuf maxSize outSize ↔ InReach entries opens := by
  have hrun := @tryOpenFileOnFs_eq σ f position entries opens h fw hvol hpaths mem destBuf maxSize
    outSize
  constructor
  · intro hreads
    obtain ⟨enough,henough⟩ := hreads
    obtain ⟨e,-,hkernel,-,fw₁,hread⟩ :=
      henough (max enough (entries.length+1)) (Nat.le_max_left _ _)
    obtain ⟨fw₂,heq⟩ := hrun (Nat.lt_of_lt_of_le (Nat.lt_succ_self _) (Nat.le_max_right enough _))
    rw [heq,Option.some.injEq] at hread
    have hfile := congrArg TryOpen.file hread
    cases hscan : scan opens entries with
    | none =>
        rw [hscan] at hfile
        cases hfile
    | some name =>
        rw [hscan] at hfile
        have hname : name = e.fileName := by
          have hpath := congrArg File.path (Option.some.inj hfile)
          exact hpath
        obtain ⟨before,e',after,hsplit,hpass,hcand,hopens,hname'⟩ := scan_eq_some hscan
        refine ⟨before,e',after,hsplit,⟨hcand.1,?_⟩,hopens,fun d hd => ⟨(hpass d hd).1,?_⟩⟩
        · rw [hname',hname]
          exact hkernel.2
        · exact fun hm => (hpass d hd).2 ⟨(candidate_iff d).mpr (.inr hm.1),hm.2⟩
  · intro hreach
    obtain ⟨e,he,hkernel,hopens,hscan⟩ := scan_inReach hreach
    refine ⟨entries.length+1,fun fuel hfuel => ⟨e,he,hkernel,hopens,?_⟩⟩
    obtain ⟨fw',heq⟩ := hrun hfuel
    rw [hscan] at heq
    exact ⟨fw',heq⟩

/-! ### A directory -/

/-- A volume whose root directory has these entries; its state is the position. -/
def listing (entries : List FileInfo) (opens : Utf16String → Bool) : Firmware ℕ where
  openVolume := fun n => ⟨.success,true,n⟩
  openFile := fun n p => (if opens p then some ⟨p⟩ else none,n)
  setPosition := fun _ _ => 0
  readRoot := fun n size =>
    match entries[n]? with
    | none => ⟨.success,0,⟨0,⟨[],by simp⟩⟩,n⟩
    | some e => if e.size ≤ size then ⟨.success,e.size,e,n+1⟩ else ⟨bufferTooSmall,e.size,e,n⟩
  readFile := fun n _ m _ _ => ⟨.success,0,m,n⟩
  closeFile := fun n _ => n
  closeRoot := id

theorem listing_lists (entries : List FileInfo) (opens : Utf16String → Bool) :
    Lists (listing entries opens) id entries opens := by
  constructor
  · exact fun n p => ⟨n,rfl,rfl⟩
  · exact fun _ => rfl
  · intro n size e he hsize
    simp only [listing,id_eq] at he ⊢
    rw [he]
    simp [hsize]
  · intro n size e he hsize
    simp only [listing,id_eq] at he ⊢
    rw [he]
    simp [Nat.not_le.mpr hsize]
  · intro n size he
    simp only [listing,id_eq] at he ⊢
    rw [he]
    simp

/-- "Gemios.elf", which can be opened by this spelling only. -/
def mixedName : Utf16String :=
  ⟨[0x47,0x65,0x6D,0x69,0x6F,0x73,0x2E,0x65,0x6C,0x66],by simp⟩

def kernelFile : FileInfo := ⟨0x20,mixedName⟩

def opensMixed (p : Utf16String) : Bool := p = mixedName

/-- A name of 216 characters, which a long FAT name can have. -/
def longFile : FileInfo where
  fileAttribute := 0x20
  fileName := ⟨List.replicate 216 0x61,fun x hx => by rw [List.eq_of_mem_replicate hx]; decide⟩

theorem readsKernel_iff_mixed :
    ReadsKernel (listing [kernelFile] opensMixed) [kernelFile] opensMixed 0 (fun _ => 0) 0x1000 4096
      0 := by
  have hpaths : ∀ p ∈ paths, opensMixed p = false := by decide +kernel
  have hkernel : IsKernel kernelFile ∧ opensMixed kernelFile.fileName = true := by
    unfold IsKernel
    decide +kernel
  apply (readsKernel_iff _ id [kernelFile] opensMixed (listing_lists _ _) 0 ⟨rfl,rfl⟩ hpaths
    (fun _ => 0) 0x1000 4096 0).mpr
  exact ⟨[],kernelFile,[],rfl,hkernel.1,hkernel.2,by simp⟩

/-- Behind the long name the kernel is not found. -/
theorem longFile_hides_kernel :
    let f := listing [longFile,kernelFile] opensMixed
    Lists f id [longFile,kernelFile] opensMixed ∧ (∀ p ∈ paths, opensMixed p = false) ∧
      IsKernel kernelFile ∧ opensMixed kernelFile.fileName = true ∧
      (∀ fuel, 2 < fuel → ∃ fw, tryOpenFileOnFs f fuel 0 (fun _ => 0) 0x1000 4096 0 =
        some ⟨notFound,none,0,fun _ => 0,fw⟩) ∧
      ¬ReadsKernel f [longFile,kernelFile] opensMixed 0 (fun _ => 0) 0x1000 4096 0 := by
  intro f
  have hlists : Lists f id [longFile,kernelFile] opensMixed := listing_lists _ _
  have hpaths : ∀ p ∈ paths, opensMixed p = false := by decide +kernel
  have hkernel : IsKernel kernelFile ∧ opensMixed kernelFile.fileName = true := by
    unfold IsKernel
    decide +kernel
  have hscan : scan opensMixed [longFile,kernelFile] = none := by
    have hlong : 512 < longFile.size := by decide +kernel
    rw [scan,if_pos hlong]
  have hrun : ∀ fuel, 2 < fuel → ∃ fw, tryOpenFileOnFs f fuel 0 (fun _ => 0) 0x1000 4096 0 =
      some ⟨notFound,none,0,fun _ => 0,fw⟩ := by
    intro fuel hfuel
    obtain ⟨fw,hfw⟩ := tryOpenFileOnFs_eq hlists ⟨rfl,rfl⟩ hpaths (fun _ => 0) 0x1000 4096 0 hfuel
    rw [hscan] at hfw
    exact ⟨_,hfw⟩
  refine ⟨hlists,hpaths,hkernel.1,hkernel.2,hrun,?_⟩
  intro hreads
  obtain ⟨enough,henough⟩ := hreads
  obtain ⟨e,-,-,-,fw₁,hread⟩ := henough (enough+3) (Nat.le_add_right _ _)
  obtain ⟨fw₂,hfail⟩ := hrun (enough+3) (by omega)
  rw [hfail] at hread
  cases congrArg TryOpen.file (Option.some.inj hread)

end Gemiboot.UefiFileSearch
