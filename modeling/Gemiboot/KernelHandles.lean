import Gemiboot.KernelSearch

/-!
# Handle discipline of the kernel search

What each call does to the handles in hand is a rule about a world that holds them; the
search is then followed from call to call. Firmware is honest when a failed call leaves
its output pointer as it was and a successful one stores a pointer that is not null.
Only calls that return handles need to be.
-/
namespace Gemiboot.KernelHandles
open ByteMemory KernelSearch ResourceLogs UefiNames
open UefiFileSearch hiding Firmware openDirect listRoot readKernel tryOpenFileOnFs

inductive Resource where
  | file (handle : Pointer)
  | buffer (handles : Pointer)
  deriving DecidableEq

def Resource.serial : Resource → ℕ
  | .file p => p.serial
  | .buffer p => p.serial

/-- What a call does to handles, and to the handle buffer. -/
def events : Call → List (Event Resource)
  | .openVolume root => [.acquire (.file root)]
  | .openFile root _ file => [.use (.file root),.acquire (.file file)]
  | .openFailed root _ => [.use (.file root)]
  | .setPosition root => [.use (.file root)]
  | .readDirectory root => [.use (.file root)]
  | .readFile file _ _ _ _ _ => [.use (.file file)]
  | .close file => [.release (.file file)]
  | .locateHandleBuffer handles => [.acquire (.buffer handles)]
  | .handleAt handles => [.use (.buffer handles)]
  | .freePool handles => [.release (.buffer handles)]

def trace (log : List Call) : List (Event Resource) := log.flatMap events

structure Honest {σ : Type} (f : Firmware σ) : Prop where
  volume : ∀ fw fs out,
    ((f.openVolume fw fs out).status = .success → (f.openVolume fw fs out).out ≠ 0) ∧
      ((f.openVolume fw fs out).status ≠ .success → (f.openVolume fw fs out).out = out)
  file : ∀ fw root path out,
    ((f.openFile fw root path out).status = .success → (f.openFile fw root path out).out ≠ 0) ∧
      ((f.openFile fw root path out).status ≠ .success →
        (f.openFile fw root path out).out = out)
  handles : ∀ fw guid n out,
    ((f.locateHandleBuffer fw guid n out).status = .success →
      (f.locateHandleBuffer fw guid n out).handles ≠ 0 ∧
        0 < (f.locateHandleBuffer fw guid n out).numHandles) ∧
      ((f.locateHandleBuffer fw guid n out).status ≠ .success →
        (f.locateHandleBuffer fw guid n out).handles = out)

/-- The log keeps the rules so far, and the world has these handles in hand. -/
def Holds {σ : Type} (held : List Resource) (w : World σ) : Prop :=
  ∃ past, Follows (trace w.log) ⟨held,past⟩ ∧ ∀ r ∈ past, r.serial < w.next

section Rules
variable {σ : Type} {held : List Resource} {w w' : World σ} {c : Call} {r : Resource}

theorem trace_append (log : List Call) (c : Call) : trace (log++[c]) = trace log++events c := by
  rw [trace,List.flatMap_append,List.flatMap_cons,List.flatMap_nil,List.append_nil,trace]

theorem Holds.same (h : Holds held w) (hlog : w'.log = w.log) (hnext : w'.next = w.next) :
    Holds held w' := by
  rcases h with ⟨past,hf,hp⟩
  exact ⟨past,by rwa [hlog],by rwa [hnext]⟩

theorem Holds.use (h : Holds held w) (hlog : w'.log = w.log++[c]) (hnext : w'.next = w.next)
    (hc : events c = [.use r]) (hr : r ∈ held) : Holds held w' := by
  rcases h with ⟨past,hf,hp⟩
  refine ⟨past,?_,by rwa [hnext]⟩
  rw [hlog,trace_append,hc]
  exact hf.use hr

theorem Holds.release (h : Holds held w) (hlog : w'.log = w.log++[c]) (hnext : w'.next = w.next)
    (hc : events c = [.release r]) (hr : r ∈ held) : Holds (held.erase r) w' := by
  rcases h with ⟨past,hf,hp⟩
  refine ⟨past,?_,by rwa [hnext]⟩
  rw [hlog,trace_append,hc]
  exact hf.release hr

/-- The number of a new handle has not been given out. -/
theorem fresh_resource {past : List Resource} {n : ℕ} (hp : ∀ x ∈ past, x.serial < n)
    (hr : r.serial = n) : r ∉ past ∧ ∀ x ∈ r::past, x.serial < n+1 := by
  constructor
  · intro hmem
    have hlt := hp r hmem
    omega
  · intro x hx
    rcases List.mem_cons.mp hx with rfl | hx
    · omega
    · exact Nat.lt_succ_of_lt (hp x hx)

theorem Holds.acquire (h : Holds held w) (hlog : w'.log = w.log++[c])
    (hnext : w'.next = w.next+1) (hc : events c = [.acquire r]) (hr : r.serial = w.next) :
    Holds (r::held) w' := by
  rcases h with ⟨past,hf,hp⟩
  rcases fresh_resource hp hr with ⟨hnew,hp'⟩
  refine ⟨r::past,?_,?_⟩
  · rw [hlog,trace_append,hc]
    exact hf.acquire hnew
  · rwa [hnext]

end Rules

/-! ### What the search is for -/

/-- A known path, or a name that the listing takes for the kernel's. -/
def KernelPath (path : Utf16String) : Prop :=
  path ∈ paths ∨ ∃ info, Candidate info ∧ info.fileName = path

def Opened (log : List Call) (file : Pointer) : Prop :=
  ∃ root path, Call.openFile root path file ∈ log ∧ KernelPath path

def IsRead : Call → Prop
  | .readFile _ _ _ _ _ _ => True
  | _ => False

/-- The last read of the run succeeded, on a kernel file, and its count and its data are
what the caller gets. -/
def Delivered {σ : Type} (f : Firmware σ) (outSizeSet : Bool) (destBuf maxSize : ℕ)
    (w : World σ) : Prop :=
  ∃ before after file fw mem,
    let r := f.readFile fw file.addr mem destBuf maxSize
    w.log = before++.readFile file destBuf maxSize r.status r.readBytes r.mem::after ∧
      (∀ c ∈ after, ¬IsRead c) ∧ Opened before file ∧ r.status = .success ∧
      (outSizeSet = true → w.outSize = r.readBytes) ∧ w.mem = r.mem

/-- A part of the search that began with `held` in hand ends with it, or has not ended. -/
def Ended {σ : Type} (f : Firmware σ) (outSizeSet : Bool) (destBuf maxSize : ℕ)
    (held : List Resource) (r : Option EfiStatus × World σ) : Prop :=
  match r.1 with
  | none => ∃ held', Holds held' r.2
  | some status =>
      Holds held r.2 ∧ (status = .success → Delivered f outSizeSet destBuf maxSize r.2)

section Run
variable {σ : Type} {f : Firmware σ} {outSizeSet : Bool} {destBuf maxSize fuel : ℕ}
  {held : List Resource} {w : World σ} {root file : Pointer}

/-- A call that does not read leaves the delivery as it is. -/
theorem Delivered.call {w' : World σ} {c : Call} (h : Delivered f outSizeSet destBuf maxSize w)
    (hlog : w'.log = w.log++[c]) (hc : ¬IsRead c) (hout : w'.outSize = w.outSize)
    (hmem : w'.mem = w.mem) : Delivered f outSizeSet destBuf maxSize w' := by
  rcases h with ⟨before,after,file,fw,mem,hsplit,hafter,hopened,hstatus,hsize,hdata⟩
  refine ⟨before,after++[c],file,fw,mem,?_,?_,hopened,hstatus,?_,hmem.trans hdata⟩
  · rw [hlog,hsplit,List.append_assoc,List.cons_append]
  · intro x hx
    rcases List.mem_append.mp hx with hx | hx
    · exact hafter x hx
    · rwa [List.mem_singleton.mp hx]
  · rwa [hout]

theorem freePoolCall_spec (f : Firmware σ) {handles : Pointer}
    (h : Holds (.buffer handles::held) w) : Holds held (freePoolCall f w handles) := by
  rw [← List.erase_cons_head (.buffer handles) held]
  exact h.release rfl rfl rfl List.mem_cons_self

theorem Ended.orElse {r : Option EfiStatus × World σ}
    {next : World σ → Option EfiStatus × World σ}
    (h : Ended f outSizeSet destBuf maxSize held r)
    (hnext : ∀ w, Holds held w → Ended f outSizeSet destBuf maxSize held (next w)) :
    Ended f outSizeSet destBuf maxSize held (orElse r next) := by
  rcases r with ⟨_ | _ | code,w⟩
  · exact h
  · exact h
  · exact hnext w h.1

theorem Ended.afterHandle {handles : Pointer} {r : Option EfiStatus × World σ}
    {next : World σ → Option EfiStatus × World σ}
    (h : Ended f outSizeSet destBuf maxSize (.buffer handles::held) r)
    (hnext : ∀ w, Holds (.buffer handles::held) w →
      Ended f outSizeSet destBuf maxSize held (next w)) :
    Ended f outSizeSet destBuf maxSize held (afterHandle f handles r next) := by
  rcases r with ⟨_ | _ | code,w⟩
  · exact h
  · exact ⟨freePoolCall_spec f h.1,fun _ => (h.2 rfl).call rfl id rfl rfl⟩
  · exact hnext w h.1

/-- The world before the call. -/
def start (fw : σ) (mem : Memory) (outSize : ℕ) : World σ := ⟨fw,mem,outSize,0,[]⟩

/-- Every directory listing comes to an end: `left` bounds what there is still to list,
a record takes some of it away and an Open adds nothing. -/
structure ListingsEnd (f : Firmware σ) (left : σ → ℕ) (bound : ℕ) : Prop where
  bounded : ∀ fw, left fw < bound
  record : ∀ fw root size, (f.readDirectory fw root size).status = .success →
    (f.readDirectory fw root size).bufSize ≠ 0 → left (f.readDirectory fw root size).fw < left fw
  opening : ∀ fw root path out, left (f.openFile fw root path out).fw ≤ left fw

theorem openFileCall_fw (root : Pointer) (path : Utf16String) (file : Pointer) :
    (openFileCall f w root path file).2.2.fw =
      (f.openFile w.fw root.addr path file.addr).fw := by
  unfold openFileCall
  simp only
  split_ifs <;> rfl

theorem listRoot_returns {left : σ → ℕ} {bound : ℕ} (h : ListingsEnd f left bound)
    {n : ℕ} (hn : left w.fw < n) : (listRoot f root n file w).1 ≠ none := by
  induction n generalizing file w with
  | zero => exact absurd hn (Nat.not_lt_zero _)
  | succ n ih =>
      unfold listRoot
      by_cases hend : (readDirectoryCall f w root 512).1.status ≠ .success ∨
          (readDirectoryCall f w root 512).1.bufSize = 0
      · simp only [if_pos hend]
        exact Option.some_ne_none _
      · have hless : left (readDirectoryCall f w root 512).2.fw < left w.fw :=
          h.record w.fw root.addr 512 (not_not.mp fun hne => hend (.inl hne))
            fun hz => hend (.inr hz)
        simp only [if_neg hend]
        split_ifs with hc hs
        · exact Option.some_ne_none _
        · apply ih
          have hopen := h.opening (readDirectoryCall f w root 512).2.fw root.addr
            (readDirectoryCall f w root 512).1.buf.fileName file.addr
          rw [openFileCall_fw]
          omega
        · apply ih
          omega

theorem readKernel_returns : (readKernel f outSizeSet destBuf maxSize root file w).1 ≠ none := by
  unfold readKernel
  simp only
  split_ifs
  · exact Option.some_ne_none _
  · exact Option.some_ne_none _

theorem searchVolume_returns {left : σ → ℕ} {bound : ℕ} (h : ListingsEnd f left bound)
    (hfuel : bound ≤ fuel) : (searchVolume f outSizeSet destBuf maxSize fuel root w).1 ≠ none := by
  unfold searchVolume
  by_cases hnull : (openDirect f root paths null w).1.addr = 0
  · simp only [if_pos hnull]
    have hlist := @listRoot_returns σ f
      (setPositionCall f (openDirect f root paths null w).2 root 0) root
      (openDirect f root paths null w).1 left bound h fuel
      ((h.bounded _).trans_le hfuel)
    cases hr : listRoot f root fuel (openDirect f root paths null w).1
        (setPositionCall f (openDirect f root paths null w).2 root 0) with
    | mk file w' =>
        cases file with
        | none =>
            rw [hr] at hlist
            exact absurd rfl hlist
        | some file =>
            simp only
            split_ifs
            · exact Option.some_ne_none _
            · exact readKernel_returns
  · simp only [if_neg hnull]
    exact readKernel_returns

theorem tryOpenFileOnFs_returns {left : σ → ℕ} {bound : ℕ} (h : ListingsEnd f left bound)
    (hfuel : bound ≤ fuel) (fs : ℕ) :
    (tryOpenFileOnFs f outSizeSet destBuf maxSize fuel fs w).1 ≠ none := by
  unfold tryOpenFileOnFs
  simp only
  split_ifs
  · exact Option.some_ne_none _
  · exact Option.some_ne_none _
  · exact searchVolume_returns h hfuel

theorem orElse_returns {r : Option EfiStatus × World σ}
    {next : World σ → Option EfiStatus × World σ} (h : r.1 ≠ none)
    (hnext : ∀ w, (next w).1 ≠ none) : (orElse r next).1 ≠ none := by
  rcases r with ⟨_ | _ | code,w⟩
  · exact h
  · exact h
  · exact hnext w

theorem afterHandle_returns {handles : Pointer} {r : Option EfiStatus × World σ}
    {next : World σ → Option EfiStatus × World σ} (h : r.1 ≠ none)
    (hnext : ∀ w, (next w).1 ≠ none) : (afterHandle f handles r next).1 ≠ none := by
  rcases r with ⟨_ | _ | code,w⟩
  · exact h
  · exact Option.some_ne_none _
  · exact hnext w

theorem tryHandles_returns {left : σ → ℕ} {bound : ℕ} (h : ListingsEnd f left bound)
    (hfuel : bound ≤ fuel) (handles : Pointer) (n i : ℕ) :
    (tryHandles f outSizeSet destBuf maxSize fuel handles n i w).1 ≠ none := by
  induction n generalizing i w with
  | zero => exact Option.some_ne_none _
  | succ n ih =>
      unfold tryHandles
      simp only
      split_ifs
      · apply afterHandle_returns
        · exact tryOpenFileOnFs_returns h hfuel _
        · intro w
          exact ih (i+1)
      · exact ih (i+1)

theorem tryBootVolume_returns {left : σ → ℕ} {bound : ℕ} (h : ListingsEnd f left bound)
    (hfuel : bound ≤ fuel) (image : ℕ) :
    (tryBootVolume f outSizeSet destBuf maxSize fuel image w).1 ≠ none := by
  unfold tryBootVolume
  simp only
  split_ifs
  · exact tryOpenFileOnFs_returns h hfuel _
  · exact Option.some_ne_none _
  · exact Option.some_ne_none _

theorem tryDefaultVolume_returns {left : σ → ℕ} {bound : ℕ} (h : ListingsEnd f left bound)
    (hfuel : bound ≤ fuel) (fs : ℕ) :
    (tryDefaultVolume f outSizeSet destBuf maxSize fuel fs w).1 ≠ none := by
  unfold tryDefaultVolume
  simp only
  split_ifs
  · exact tryOpenFileOnFs_returns h hfuel _
  · exact Option.some_ne_none _

theorem tryAllVolumes_returns {left : σ → ℕ} {bound : ℕ} (h : ListingsEnd f left bound)
    (hfuel : bound ≤ fuel) :
    (tryAllVolumes f outSizeSet destBuf maxSize fuel w).1 ≠ none := by
  unfold tryAllVolumes
  simp only
  split_ifs
  · exact tryHandles_returns h hfuel _ _ 0
  · exact Option.some_ne_none _

/-- If every listing ends, so does the search, and with more fuel than any listing takes
it has a status. -/
theorem readKernelFile_returns {left : σ → ℕ} {bound : ℕ} (h : ListingsEnd f left bound)
    (hfuel : bound ≤ fuel) (image : ℕ) :
    (readKernelFile f outSizeSet destBuf maxSize fuel image w).1 ≠ none := by
  have hboot := @tryBootVolume_returns σ f outSizeSet destBuf maxSize fuel w left bound h hfuel
    image
  apply orElse_returns
  · apply orElse_returns
    · exact hboot
    · intro w
      exact tryDefaultVolume_returns h hfuel _
  · intro w
    exact tryAllVolumes_returns h hfuel

end Run

theorem emptyName_nonzero : ∀ c ∈ ([] : List UInt16), c ≠ 0 := by simp

/-- Only LocateHandleBuffer finds file systems, two of them; the kernel is on both, and
its contents are three bytes. -/
def lateVolume : Firmware Unit where
  handleProtocol := fun _ handle guid out =>
    match guid with
    | .loadedImage => ⟨.error 3,out,()⟩
    | .simpleFileSystem => ⟨.success,handle+1,()⟩
  locateProtocol := fun _ _ out => ⟨notFound,out,()⟩
  locateHandleBuffer := fun _ _ _ _ => ⟨.success,2,0x1000,()⟩
  handleAt := fun _ _ h => 0x2000+h
  deviceHandle := fun _ _ => 0
  freePool := fun _ _ => ()
  openVolume := fun _ _ _ => ⟨.success,0x3000,()⟩
  openFile := fun _ _ _ _ => ⟨.success,0x4000,()⟩
  setPosition := fun _ _ _ => ()
  readDirectory := fun _ _ _ => ⟨.success,0,⟨0,⟨[],emptyName_nonzero⟩⟩,()⟩
  readFile := fun _ _ mem dest _ => ⟨.success,3,blit mem dest 3 fun _ => 0x7F,()⟩
  close := fun _ _ => ()

end Gemiboot.KernelHandles
