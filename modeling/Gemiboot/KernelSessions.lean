import Gemiboot.KernelHandles

/-!
# One volume, with and without pointers

The search of a volume that knows a file by its path describes the search with pointers
when the firmware is honest. What the first takes for the state of the firmware is a
session: the world of the second together with its variables `root` and `file`.
-/
namespace Gemiboot.KernelSessions
open ByteMemory KernelHandles KernelSearch UefiNames
open UefiFileSearch hiding Firmware openDirect listRoot readKernel tryOpenFileOnFs

structure Session (σ : Type) where
  world : World σ
  root : Pointer
  file : Pointer

variable {σ : Type}

/-- The volume `fs` as the firmware of the search by paths. -/
def session (f : Firmware σ) (fs : ℕ) : UefiFileSearch.Firmware (Session σ) where
  openVolume := fun s =>
    let (status,root,w) := openVolumeCall f s.world fs null
    ⟨status,root.addr ≠ 0,⟨w,root,null⟩⟩
  openFile := fun s path =>
    let (status,file,w) := openFileCall f s.world s.root path s.file
    (if status = .success ∧ file.addr ≠ 0 then some ⟨path⟩ else none,⟨w,s.root,file⟩)
  setPosition := fun s position => {s with world := setPositionCall f s.world s.root position}
  readRoot := fun s size =>
    let (r,w) := readDirectoryCall f s.world s.root size
    ⟨r.status,r.bufSize,r.buf,{s with world := w}⟩
  readFile := fun s _ mem destBuf maxSize =>
    let (r,w) := readFileCall f {s.world with mem := mem} s.file destBuf maxSize
    ⟨r.status,r.readBytes,r.mem,{s with world := w}⟩
  closeFile := fun s _ => {s with world := closeCall f s.world s.file}
  closeRoot := fun s => {s with world := closeCall f s.world s.root}

section Operations
variable (f : Firmware σ) (fs : ℕ) (w : World σ) (root file : Pointer)

theorem openVolume_session (s : Session σ) : (session f fs).openVolume s =
    ⟨(openVolumeCall f s.world fs null).1,(openVolumeCall f s.world fs null).2.1.addr ≠ 0,
      (openVolumeCall f s.world fs null).2.2,(openVolumeCall f s.world fs null).2.1,null⟩ := rfl

theorem setPosition_session (position : ℕ) : (session f fs).setPosition ⟨w,root,file⟩ position =
    ⟨setPositionCall f w root position,root,file⟩ := rfl

theorem readRoot_session (size : ℕ) : (session f fs).readRoot ⟨w,root,file⟩ size =
    ⟨(readDirectoryCall f w root size).1.status,(readDirectoryCall f w root size).1.bufSize,
      (readDirectoryCall f w root size).1.buf,(readDirectoryCall f w root size).2,root,file⟩ := rfl

theorem closeRoot_session : (session f fs).closeRoot ⟨w,root,file⟩ =
    ⟨closeCall f w root,root,file⟩ := rfl

end Operations

/-- The two outcomes of an attempt to open the kernel agree, and nothing was read. -/
structure Agrees (w : World σ) (root : Pointer) (o : Option File × Session σ)
    (r : Pointer × World σ) : Prop where
  session : o.2 = ⟨r.2,root,r.1⟩
  null : o.1 = none ↔ r.1.addr = 0
  mem : r.2.mem = w.mem
  outSize : r.2.outSize = w.outSize

section Agreement
variable {f : Firmware σ} {fs : ℕ} {w w' : World σ} {root file : Pointer}

/-- What agrees after a call that leaves the caller's data alone. -/
theorem Agrees.after {o : Option File × Session σ} {r : Pointer × World σ}
    (h : Agrees w' root o r) (hmem : w'.mem = w.mem) (hout : w'.outSize = w.outSize) :
    Agrees w root o r :=
  ⟨h.session,h.null,h.mem.trans hmem,h.outSize.trans hout⟩

/-- One Open: the variable stays null or holds the file. -/
theorem openFile_agrees (hf : Honest f) (hfile : file.addr = 0) (path : Utf16String) :
    Agrees w root ((session f fs).openFile ⟨w,root,file⟩ path)
      (openFileCall f w root path file).2 ∧
      (((session f fs).openFile ⟨w,root,file⟩ path).1 ≠ none ↔
        (openFileCall f w root path file).1 = .success ∧
          (openFileCall f w root path file).2.1.addr ≠ 0) := by
  have hv := hf.file w.fw root.addr path file.addr
  simp only [session,openFileCall]
  by_cases hs : (f.openFile w.fw root.addr path file.addr).status = .success
  · have hopen := hv.1 hs
    simp only [if_pos hs]
    rw [if_pos ⟨hs,hopen⟩]
    exact ⟨⟨rfl,iff_of_false (Option.some_ne_none _) hopen,rfl,rfl⟩,
      iff_of_true (Option.some_ne_none _) ⟨hs,hopen⟩⟩
  · have hnull := (hv.2 hs).trans hfile
    simp only [if_neg hs]
    rw [if_neg fun hand => hs hand.1]
    exact ⟨⟨rfl,iff_of_true rfl hnull,rfl,rfl⟩,
      iff_of_false (fun hne => hne rfl) fun hand => hs hand.1⟩

theorem openDirect_agrees (hf : Honest f) (ps : List Utf16String) (hfile : file.addr = 0) :
    Agrees w root (UefiFileSearch.openDirect (session f fs) ps ⟨w,root,file⟩)
      (openDirect f root ps file w) := by
  induction ps generalizing file w with
  | nil => exact ⟨rfl,iff_of_true rfl hfile,rfl,rfl⟩
  | cons p ps ih =>
      rcases @openFile_agrees σ f fs w root file hf hfile p with ⟨hagree,hhit⟩
      unfold openDirect UefiFileSearch.openDirect
      cases ho : (session f fs).openFile ⟨w,root,file⟩ p with
      | mk o s =>
          rw [ho] at hagree hhit
          rcases hagree with ⟨rfl,hnull,hmem,hout⟩
          cases o with
          | none =>
              simp only [if_neg fun hand => hhit.mpr hand rfl]
              exact (ih (hnull.mp rfl)).after hmem hout
          | some file' =>
              simp only [if_pos (hhit.mp (Option.some_ne_none _))]
              exact ⟨rfl,hnull,hmem,hout⟩

theorem listRoot_agrees (hf : Honest f) (n : ℕ) (hfile : file.addr = 0) :
    UefiFileSearch.listRoot (session f fs) n ⟨w,root,file⟩ = none ∧
        (listRoot f root n file w).1 = none ∨
      ∃ o p, UefiFileSearch.listRoot (session f fs) n ⟨w,root,file⟩ = some o ∧
        (listRoot f root n file w).1 = some p ∧
        Agrees w root o (p,(listRoot f root n file w).2) := by
  induction n generalizing file w with
  | zero => exact .inl ⟨rfl,rfl⟩
  | succ n ih =>
      unfold listRoot UefiFileSearch.listRoot
      rw [readRoot_session]
      by_cases hend : (readDirectoryCall f w root 512).1.status ≠ .success ∨
          (readDirectoryCall f w root 512).1.bufSize = 0
      · simp only [if_pos hend]
        exact .inr ⟨_,file,rfl,rfl,rfl,iff_of_true rfl hfile,rfl,rfl⟩
      · simp only [if_neg hend]
        by_cases hc : Candidate (readDirectoryCall f w root 512).1.buf
        · simp only [if_pos hc]
          rcases @openFile_agrees σ f fs (readDirectoryCall f w root 512).2 root file hf hfile
            (readDirectoryCall f w root 512).1.buf.fileName with ⟨hagree,hhit⟩
          cases ho : (session f fs).openFile ⟨(readDirectoryCall f w root 512).2,root,file⟩
              (readDirectoryCall f w root 512).1.buf.fileName with
          | mk o s =>
              rw [ho] at hagree hhit
              rcases hagree with ⟨rfl,hnull,hmem,hout⟩
              cases o with
              | none =>
                  simp only [if_neg fun hand => hhit.mpr hand rfl]
                  rcases ih (hnull.mp rfl) with hrun | ⟨o,p,hpath,hptr,hagree⟩
                  · exact .inl hrun
                  · exact .inr ⟨o,p,hpath,hptr,hagree.after hmem hout⟩
              | some file' =>
                  simp only [if_pos (hhit.mp (Option.some_ne_none _))]
                  exact .inr ⟨_,_,rfl,rfl,rfl,hnull,hmem,hout⟩
        · simp only [if_neg hc]
          rcases @ih (readDirectoryCall f w root 512).2 file hfile with
            hrun | ⟨o,p,hpath,hptr,hagree⟩
          · exact .inl hrun
          · exact .inr ⟨o,p,hpath,hptr,hagree.after rfl rfl⟩

/-- What a search by paths returns, as the search with pointers returns it. -/
def result (t : TryOpen (Session σ)) : Option EfiStatus × World σ :=
  (some t.status,{ t.fw.world with outSize := t.outSize, mem := t.mem })

theorem readKernel_session (w' : World σ) (hmem : w'.mem = w.mem) (hout : w'.outSize = w.outSize)
    (opened : File) (destBuf maxSize : ℕ) :
    readKernel f true destBuf maxSize root file w' =
      result (UefiFileSearch.readKernel (session f fs) opened ⟨w',root,file⟩ w.mem destBuf maxSize
        w.outSize) := by
  have hworld : {w' with mem := w.mem} = w' := by rw [← hmem]
  unfold readKernel UefiFileSearch.readKernel result
  simp only [session,hworld,and_true]
  by_cases hs : (readFileCall f w' file destBuf maxSize).1.status = .success
  · simp only [if_pos hs]
    rfl
  · simp only [if_neg hs,← hout]
    rfl

theorem openVolumeCall_same (f : Firmware σ) (w : World σ) (fs : ℕ) (root : Pointer) :
    (openVolumeCall f w fs root).2.2.mem = w.mem ∧
      (openVolumeCall f w fs root).2.2.outSize = w.outSize := by
  unfold openVolumeCall
  by_cases hs : (f.openVolume w.fw fs root.addr).status = .success
  · simp only [if_pos hs,and_self]
  · simp only [if_neg hs,and_self]

/-- Whatever an honest firmware does, both searches of a volume return the same, with the
same world behind them, or neither has returned. -/
theorem tryOpenFileOnFs_session (hf : Honest f) (hfs : fs ≠ 0) (s : Session σ)
    (destBuf maxSize fuel : ℕ) :
    match UefiFileSearch.tryOpenFileOnFs (session f fs) fuel s s.world.mem destBuf maxSize
      s.world.outSize with
    | some t => tryOpenFileOnFs f true destBuf maxSize fuel fs s.world = result t
    | none => (tryOpenFileOnFs f true destBuf maxSize fuel fs s.world).1 = none := by
  rcases openVolumeCall_same f s.world fs null with ⟨hmem,hout⟩
  unfold tryOpenFileOnFs UefiFileSearch.tryOpenFileOnFs
  rw [if_neg hfs]
  simp only [openVolume_session,ne_eq,decide_eq_false_iff_not,not_not]
  generalize openVolumeCall f s.world fs null = r at hmem hout ⊢
  rcases r with ⟨status,root,w⟩
  by_cases hstop : ¬status = .success ∨ root.addr = 0
  · simp only [if_pos hstop]
    unfold result
    rw [← hmem,← hout]
  · simp only [if_neg hstop]
    unfold searchVolume
    have hdirect := @openDirect_agrees σ f fs w root null hf paths rfl
    cases ho : UefiFileSearch.openDirect (session f fs) paths ⟨w,root,null⟩ with
    | mk o s₁ =>
        rw [ho] at hdirect
        rcases hdirect with ⟨rfl,hnull,hmem₁,hout₁⟩
        cases o with
        | some opened =>
            simp only [if_neg (mt hnull.mpr (Option.some_ne_none _))]
            exact readKernel_session _ (hmem₁.trans hmem) (hout₁.trans hout) opened destBuf maxSize
        | none =>
            simp only [if_pos (hnull.mp rfl)]
            have hlist := @listRoot_agrees σ f fs
              (setPositionCall f (openDirect f root paths null w).2 root 0) root
              (openDirect f root paths null w).1 hf fuel (hnull.mp rfl)
            rcases hlist with ⟨hpath,hptr⟩ | ⟨⟨o,s₂⟩,p,hpath,hptr,hagree⟩
            · rw [setPosition_session,hpath]
              rw [show listRoot f root fuel _ _ = (none,_) from Prod.ext hptr rfl]
              rfl
            · rw [setPosition_session,hpath]
              rw [show listRoot f root fuel _ _ = (some p,_) from Prod.ext hptr rfl]
              rcases hagree with ⟨rfl,hp,hmem₂,hout₂⟩
              have hmem' := (hmem₂.trans hmem₁).trans hmem
              have hout' := (hout₂.trans hout₁).trans hout
              cases o with
              | some opened =>
                  simp only [if_neg (mt hp.mpr (Option.some_ne_none _)),Option.map_some]
                  exact readKernel_session _ hmem' hout' opened destBuf maxSize
              | none =>
                  simp only [if_pos (hp.mp rfl),Option.map_some,closeRoot_session]
                  unfold result
                  rw [← hmem',← hout']
                  rfl

/-- A kernel that the listing reaches is read from whatever state the listing leaves. -/
theorem tryOpenFileOnFs_reads (hf : Honest f) (hfs : fs ≠ 0) {position : Session σ → ℕ}
    {entries : List FileInfo} {opens : Utf16String → Bool}
    (h : Lists (session f fs) position entries opens) {s : Session σ}
    (hvol : ((session f fs).openVolume s).status = .success ∧
      ((session f fs).openVolume s).hasRoot = true)
    (hpaths : ∀ p ∈ paths, opens p = false) (hreach : InReach entries opens)
    (destBuf maxSize : ℕ) {fuel : ℕ} (hfuel : entries.length < fuel) :
    ∃ s' : Session σ,
      let r := f.readFile s'.world.fw s'.file.addr s.world.mem destBuf maxSize
      (tryOpenFileOnFs f true destBuf maxSize fuel fs s.world).1 = some r.status ∧
        (tryOpenFileOnFs f true destBuf maxSize fuel fs s.world).2.mem = r.mem := by
  have hrun := tryOpenFileOnFs_session hf hfs s destBuf maxSize fuel
  rcases scan_inReach hreach with ⟨e,-,-,-,hscan⟩
  rcases tryOpenFileOnFs_eq h hvol hpaths s.world.mem destBuf maxSize s.world.outSize hfuel with
    ⟨s',hread⟩
  rw [hscan] at hread
  rw [hread] at hrun
  refine ⟨s',?_,?_⟩
  · rw [hrun]
    rfl
  · rw [hrun]
    rfl

end Agreement

end Gemiboot.KernelSessions
