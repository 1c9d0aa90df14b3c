import Gemiboot.KernelSessions

/-!
# The kernel search and memory

Of all the calls of the search only `Read` on the kernel file writes to memory. A property
of the memory and of `*out_size` that every such call keeps is kept by the search.
-/
namespace Gemiboot.KernelMemory
open ByteMemory KernelSearch
open UefiFileSearch (EfiStatus paths)

/-- `Read` writes no more than it is asked for, and nothing else. -/
structure ReadsInto {σ : Type} (f : Firmware σ) : Prop where
  outside : ∀ fw file m dst max x, x < dst ∨ dst+max ≤ x →
    (f.readFile fw file m dst max).mem x = m x
  count : ∀ fw file m dst max, (f.readFile fw file m dst max).status = .success →
    (f.readFile fw file m dst max).readBytes ≤ max

/-- A property of the memory and of `*out_size` that every `Read` of the kernel keeps. -/
structure Invariant {σ : Type} (f : Firmware σ) (destBuf maxSize : ℕ)
    (I : Memory → ℕ → Prop) : Prop where
  data : ∀ fw file m n, I m n → I (f.readFile fw file m destBuf maxSize).mem n
  count : ∀ fw file m n, I m n → (f.readFile fw file m destBuf maxSize).status = .success →
    I (f.readFile fw file m destBuf maxSize).mem (f.readFile fw file m destBuf maxSize).readBytes

section Search
variable {σ : Type} {f : Firmware σ} {destBuf maxSize fuel : ℕ} {I : Memory → ℕ → Prop}
  {w : World σ} {root file : Pointer}

/-- A part of the search that neither reads nor sets the size. -/
def Same (w w' : World σ) : Prop := w'.mem = w.mem ∧ w'.outSize = w.outSize

theorem Same.trans {w w' w'' : World σ} (h : Same w w') (h' : Same w' w'') : Same w w'' :=
  ⟨h'.1.trans h.1,h'.2.trans h.2⟩

def Kept (I : Memory → ℕ → Prop) (w : World σ) : Prop := I w.mem w.outSize

theorem Same.kept {w w' : World σ} (h : Same w w') (hk : Kept I w) : Kept I w' := by
  rw [Kept,h.1,h.2]
  exact hk

theorem openFileCall_same (f : Firmware σ) (w : World σ) (root : Pointer)
    (path : UefiNames.Utf16String) (file : Pointer) :
    Same w (openFileCall f w root path file).2.2 := by
  unfold openFileCall
  by_cases hs : (f.openFile w.fw root.addr path file.addr).status = .success
  · simp only [if_pos hs]
    exact ⟨rfl,rfl⟩
  · simp only [if_neg hs]
    exact ⟨rfl,rfl⟩

theorem openDirect_same (f : Firmware σ) (root : Pointer) (ps : List UefiNames.Utf16String)
    (file : Pointer) (w : World σ) : Same w (openDirect f root ps file w).2 := by
  induction ps generalizing file w with
  | nil => exact ⟨rfl,rfl⟩
  | cons p ps ih =>
      have hopen := openFileCall_same f w root p file
      unfold openDirect
      dsimp only
      split_ifs
      · exact hopen
      · exact hopen.trans (ih _ _)

theorem listRoot_same (f : Firmware σ) (root : Pointer) (n : ℕ) (file : Pointer) (w : World σ) :
    Same w (listRoot f root n file w).2 := by
  induction n generalizing file w with
  | zero => exact ⟨rfl,rfl⟩
  | succ n ih =>
      have hread : Same w (readDirectoryCall f w root 512).2 := ⟨rfl,rfl⟩
      have hopen := fun path file => hread.trans
        (openFileCall_same f (readDirectoryCall f w root 512).2 root path file)
      unfold listRoot
      dsimp only
      split_ifs
      · exact hread
      · exact hopen _ _
      · exact (hopen _ _).trans (ih _ _)
      · exact hread.trans (ih _ _)

theorem readKernel_kept (hi : Invariant f destBuf maxSize I) (h : Kept I w) :
    Kept I (readKernel f true destBuf maxSize root file w).2 := by
  unfold readKernel
  by_cases hs : (readFileCall f w file destBuf maxSize).1.status = .success
  · simp only [hs,and_self,if_true]
    exact hi.count w.fw file.addr w.mem w.outSize h hs
  · simp only [hs,false_and,if_false]
    exact hi.data w.fw file.addr w.mem w.outSize h

theorem searchVolume_kept (hi : Invariant f destBuf maxSize I) (h : Kept I w) :
    Kept I (searchVolume f true destBuf maxSize fuel root w).2 := by
  have hdirect := (openDirect_same f root paths null w).kept h
  unfold searchVolume
  dsimp only
  split_ifs
  · have hlist := listRoot_same f root fuel (openDirect f root paths null w).1
      (setPositionCall f (openDirect f root paths null w).2 root 0)
    have hkept : Kept I (listRoot f root fuel (openDirect f root paths null w).1
        (setPositionCall f (openDirect f root paths null w).2 root 0)).2 := hlist.kept hdirect
    cases hr : listRoot f root fuel (openDirect f root paths null w).1
        (setPositionCall f (openDirect f root paths null w).2 root 0) with
    | mk found w' =>
        rw [hr] at hkept
        cases found with
        | none => exact hkept
        | some file =>
            dsimp only
            split_ifs
            · exact hkept
            · exact readKernel_kept hi hkept
  · exact readKernel_kept hi hdirect

theorem tryOpenFileOnFs_kept (hi : Invariant f destBuf maxSize I) (fuel fs : ℕ) (h : Kept I w) :
    Kept I (tryOpenFileOnFs f true destBuf maxSize fuel fs w).2 := by
  have hopen : Kept I (openVolumeCall f w fs null).2.2 :=
    Same.kept (KernelSessions.openVolumeCall_same f w fs null) h
  unfold tryOpenFileOnFs
  dsimp only
  split_ifs
  · exact h
  · exact hopen
  · exact searchVolume_kept hi hopen

theorem orElse_kept {r : Option EfiStatus × World σ}
    {next : World σ → Option EfiStatus × World σ} (h : Kept I r.2)
    (hn : ∀ w, Kept I w → Kept I (next w).2) : Kept I (orElse r next).2 := by
  rcases r with ⟨status,w⟩
  cases status with
  | none => exact h
  | some status =>
      cases status with
      | success => exact h
      | error code => exact hn w h

theorem tryHandles_kept (hi : Invariant f destBuf maxSize I) (handles : Pointer) (n h : ℕ)
    (hw : Kept I w) : Kept I (tryHandles f true destBuf maxSize fuel handles n h w).2 := by
  induction n generalizing h w with
  | zero => exact hw
  | succ n ih =>
      unfold tryHandles
      dsimp only
      split_ifs
      · have htry := tryOpenFileOnFs_kept hi fuel (handleProtocolCall f
            (handleAtCall f w handles h).2 (handleAtCall f w handles h).1 .simpleFileSystem 0).2.1
          (show Kept I (handleProtocolCall f (handleAtCall f w handles h).2
            (handleAtCall f w handles h).1 .simpleFileSystem 0).2.2 from hw)
        generalize tryOpenFileOnFs f true destBuf maxSize fuel _ _ = r at htry
        rcases r with ⟨status,w'⟩
        cases status with
        | none => exact htry
        | some status =>
            cases status with
            | success => exact htry
            | error code => exact ih (h+1) htry
      · exact ih (h+1) hw

theorem tryAllVolumes_kept (hi : Invariant f destBuf maxSize I) (h : Kept I w) :
    Kept I (tryAllVolumes f true destBuf maxSize fuel w).2 := by
  have hlocate : Kept I (locateHandleBufferCall f w 0 null).2.2.2 := by
    unfold locateHandleBufferCall
    by_cases hs : (f.locateHandleBuffer w.fw .simpleFileSystem 0 null.addr).status = .success
    · simp only [if_pos hs]
      exact h
    · simp only [if_neg hs]
      exact h
  unfold tryAllVolumes
  dsimp only
  split_ifs
  · exact tryHandles_kept hi _ _ _ hlocate
  · exact hlocate

theorem tryBootVolume_kept (hi : Invariant f destBuf maxSize I) (image : ℕ) (h : Kept I w) :
    Kept I (tryBootVolume f true destBuf maxSize fuel image w).2.2 := by
  unfold tryBootVolume
  dsimp only
  split_ifs
  · exact tryOpenFileOnFs_kept hi _ _ h
  · exact h
  · exact h

theorem tryDefaultVolume_kept (hi : Invariant f destBuf maxSize I) (fs : ℕ) (h : Kept I w) :
    Kept I (tryDefaultVolume f true destBuf maxSize fuel fs w).2 := by
  unfold tryDefaultVolume
  dsimp only
  split_ifs
  · exact tryOpenFileOnFs_kept hi _ _ h
  · exact h

/-- The rule for properties of the memory that the search leaves behind. -/
theorem readKernelFile_kept (hi : Invariant f destBuf maxSize I) (image : ℕ) (h : Kept I w) :
    Kept I (readKernelFile f true destBuf maxSize fuel image w).2 := by
  unfold readKernelFile
  dsimp only
  apply orElse_kept
  · apply orElse_kept
    · exact tryBootVolume_kept hi image h
    · exact fun w hw => tryDefaultVolume_kept hi _ hw
  · exact fun w hw => tryAllVolumes_kept hi hw

/-- The search fills at most the buffer. -/
theorem readKernelFile_outside (hf : ReadsInto f) (destBuf maxSize fuel image : ℕ)
    (h : w.outSize ≤ maxSize) :
    (∀ x, x < destBuf ∨ destBuf+maxSize ≤ x →
      (readKernelFile f true destBuf maxSize fuel image w).2.mem x = w.mem x) ∧
      (readKernelFile f true destBuf maxSize fuel image w).2.outSize ≤ maxSize := by
  have hi : Invariant f destBuf maxSize fun m n =>
      (∀ x, x < destBuf ∨ destBuf+maxSize ≤ x → m x = w.mem x) ∧ n ≤ maxSize := by
    constructor
    · intro fw file m n hm
      exact ⟨fun x hx => (hf.outside fw file m _ _ x hx).trans (hm.1 x hx),hm.2⟩
    · intro fw file m n hm hs
      exact ⟨fun x hx => (hf.outside fw file m _ _ x hx).trans (hm.1 x hx),
        hf.count fw file m _ _ hs⟩
  exact readKernelFile_kept hi image ⟨fun _ _ => rfl,h⟩

end Search

end Gemiboot.KernelMemory
