import Gemiboot.ResourceLogs
import Gemiboot.UefiFileSearch

/-!
# The kernel search and its handles

`try_open_file_on_fs` and `read_kernel_file`, the same in `efi64.c` and `efi32.c`, with
the pointers they pass to the firmware. Every call that has an output pointer answers
with a status and with what it left there. Ghosts tell apart the handles that different
calls returned, even at one address, and log the calls they are passed to. A run that
is still listing a directory when its fuel ends has no status yet.
-/
namespace Gemiboot.KernelSearch
open ByteMemory ResourceLogs UefiFileSearch UefiNames

def invalidParameter : EfiStatus := .error 2

/-- A pointer variable, with the number of the successful call that stored it. -/
structure Pointer where
  addr : ℕ
  serial : ℕ
  deriving DecidableEq

def null : Pointer := ⟨0,0⟩

inductive Guid where
  | loadedImage
  | simpleFileSystem
  deriving DecidableEq

/-- A status and the output pointer after the call. -/
structure Reply (σ : Type) where
  status : EfiStatus
  out : ℕ
  fw : σ

structure HandlesReply (σ : Type) where
  status : EfiStatus
  numHandles : ℕ
  handles : ℕ
  fw : σ

/-- The calls, with the output pointer before the call as their last argument. -/
structure Firmware (σ : Type) where
  handleProtocol : σ → ℕ → Guid → ℕ → Reply σ
  locateProtocol : σ → Guid → ℕ → Reply σ
  locateHandleBuffer : σ → Guid → ℕ → ℕ → HandlesReply σ
  /-- `handles[h]`. -/
  handleAt : σ → ℕ → ℕ → ℕ
  /-- `loaded_img->DeviceHandle`. -/
  deviceHandle : σ → ℕ → ℕ
  freePool : σ → ℕ → σ
  openVolume : σ → ℕ → ℕ → Reply σ
  openFile : σ → ℕ → Utf16String → ℕ → Reply σ
  setPosition : σ → ℕ → ℕ → σ
  readDirectory : σ → ℕ → ℕ → ListResult σ
  readFile : σ → ℕ → Memory → ℕ → ℕ → ReadResult σ
  close : σ → ℕ → σ

/-- A call that was passed a handle or returned one. -/
inductive Call where
  | openVolume (root : Pointer)
  | openFile (root : Pointer) (path : Utf16String) (file : Pointer)
  | openFailed (root : Pointer) (path : Utf16String)
  | setPosition (root : Pointer)
  | readDirectory (root : Pointer)
  | readFile (file : Pointer) (destBuf maxSize : ℕ) (status : EfiStatus) (readBytes : ℕ)
      (mem : Memory)
  | close (file : Pointer)
  | locateHandleBuffer (handles : Pointer)
  | handleAt (handles : Pointer)
  | freePool (handles : Pointer)

structure World (σ : Type) where
  fw : σ
  mem : Memory
  /-- `*out_size`. -/
  outSize : ℕ
  /-- Ghost: the number of the next successful call. -/
  next : ℕ
  /-- Ghost: the calls about handles, in order. -/
  log : List Call

section Calls
variable {σ : Type} (f : Firmware σ) (w : World σ)

/-- The status, the pointer variable and the world after the call. -/
def handleProtocolCall (handle : ℕ) (guid : Guid) (out : ℕ) : EfiStatus × ℕ × World σ :=
  let r := f.handleProtocol w.fw handle guid out
  (r.status,r.out,{w with fw := r.fw})

def locateProtocolCall (guid : Guid) (out : ℕ) : EfiStatus × ℕ × World σ :=
  let r := f.locateProtocol w.fw guid out
  (r.status,r.out,{w with fw := r.fw})

def openVolumeCall (fs : ℕ) (root : Pointer) : EfiStatus × Pointer × World σ :=
  let r := f.openVolume w.fw fs root.addr
  if r.status = .success then
    (r.status,⟨r.out,w.next⟩,{ w with
      fw := r.fw, next := w.next+1, log := w.log++[.openVolume ⟨r.out,w.next⟩] })
  else (r.status,⟨r.out,root.serial⟩,{w with fw := r.fw})

def openFileCall (root : Pointer) (path : Utf16String) (file : Pointer) :
    EfiStatus × Pointer × World σ :=
  let r := f.openFile w.fw root.addr path file.addr
  if r.status = .success then
    (r.status,⟨r.out,w.next⟩,{ w with
      fw := r.fw, next := w.next+1, log := w.log++[.openFile root path ⟨r.out,w.next⟩] })
  else (r.status,⟨r.out,file.serial⟩,{ w with
    fw := r.fw, log := w.log++[.openFailed root path] })

def setPositionCall (root : Pointer) (position : ℕ) : World σ :=
  { w with fw := f.setPosition w.fw root.addr position, log := w.log++[.setPosition root] }

def readDirectoryCall (root : Pointer) (size : ℕ) : ListResult σ × World σ :=
  let r := f.readDirectory w.fw root.addr size
  (r,{w with fw := r.fw, log := w.log++[.readDirectory root]})

def readFileCall (file : Pointer) (destBuf maxSize : ℕ) : ReadResult σ × World σ :=
  let r := f.readFile w.fw file.addr w.mem destBuf maxSize
  (r,{ w with
    fw := r.fw, mem := r.mem
    log := w.log++[.readFile file destBuf maxSize r.status r.readBytes r.mem] })

def closeCall (file : Pointer) : World σ :=
  {w with fw := f.close w.fw file.addr, log := w.log++[.close file]}

/-- The status, `num_handles`, `handles` and the world after the call. -/
def locateHandleBufferCall (numHandles : ℕ) (handles : Pointer) :
    EfiStatus × ℕ × Pointer × World σ :=
  let r := f.locateHandleBuffer w.fw .simpleFileSystem numHandles handles.addr
  if r.status = .success then
    (r.status,r.numHandles,⟨r.handles,w.next⟩,{ w with
      fw := r.fw, next := w.next+1, log := w.log++[.locateHandleBuffer ⟨r.handles,w.next⟩] })
  else (r.status,r.numHandles,⟨r.handles,handles.serial⟩,{w with fw := r.fw})

def handleAtCall (handles : Pointer) (h : ℕ) : ℕ × World σ :=
  (f.handleAt w.fw handles.addr h,{w with log := w.log++[.handleAt handles]})

def freePoolCall (handles : Pointer) : World σ :=
  {w with fw := f.freePool w.fw handles.addr, log := w.log++[.freePool handles]}

end Calls

section Search
variable {σ : Type} (f : Firmware σ) (outSizeSet : Bool) (destBuf maxSize fuel : ℕ)

/-- The loop over the known paths. -/
def openDirect (root : Pointer) : List Utf16String → Pointer → World σ → Pointer × World σ
  | [],file,w => (file,w)
  | p::ps,file,w =>
      let (status,file,w) := openFileCall f w root p file
      if status = .success ∧ file.addr ≠ 0 then (file,w) else openDirect root ps file w

/-- The loop over the root directory; no pointer when the fuel has run out. -/
def listRoot (root : Pointer) : ℕ → Pointer → World σ → Option Pointer × World σ
  | 0,_,w => (none,w)
  | n+1,file,w =>
      let (r,w) := readDirectoryCall f w root 512
      if r.status ≠ .success ∨ r.bufSize = 0 then (some file,w)
      else if Candidate r.buf then
        let (status,file,w) := openFileCall f w root r.buf.fileName file
        if status = .success ∧ file.addr ≠ 0 then (some file,w) else listRoot root n file w
      else listRoot root n file w

/-- From the first `Read` of the kernel on; `outSizeSet` says that `out_size` is not NULL. -/
def readKernel (root file : Pointer) (w : World σ) : Option EfiStatus × World σ :=
  let (r,w) := readFileCall f w file destBuf maxSize
  let w := closeCall f w file
  let w := closeCall f w root
  if r.status = .success ∧ outSizeSet = true then
    (some r.status,{w with outSize := r.readBytes})
  else (some r.status,w)

/-- The two ways to open the kernel on a volume, and the read. -/
def searchVolume (root : Pointer) (w : World σ) : Option EfiStatus × World σ :=
  let (file,w) := openDirect f root paths null w
  if file.addr = 0 then
    match listRoot f root fuel file (setPositionCall f w root 0) with
    | (none,w) => (none,w)
    | (some file,w) =>
        if file.addr = 0 then (some notFound,closeCall f w root)
        else readKernel f outSizeSet destBuf maxSize root file w
  else readKernel f outSizeSet destBuf maxSize root file w

def tryOpenFileOnFs (fs : ℕ) (w : World σ) : Option EfiStatus × World σ :=
  if fs = 0 then (some invalidParameter,w)
  else
    let (status,root,w) := openVolumeCall f w fs null
    if status ≠ .success ∨ root.addr = 0 then (some status,w)
    else searchVolume f outSizeSet destBuf maxSize fuel root w

/-- `if (status == EFI_SUCCESS) return EFI_SUCCESS;` after an attempt, or what follows. -/
def orElse (r : Option EfiStatus × World σ) (next : World σ → Option EfiStatus × World σ) :
    Option EfiStatus × World σ :=
  match r with
  | (some (.error _),w) => next w
  | r => r

/-- The first volume; `fs` is returned as it is left for the second. No attempt at all is
an error like a failed one. -/
def tryBootVolume (image : ℕ) (w : World σ) : Option EfiStatus × ℕ × World σ :=
  let (status,loadedImg,w) := handleProtocolCall f w image .loadedImage 0
  if status = .success ∧ loadedImg ≠ 0 ∧ f.deviceHandle w.fw loadedImg ≠ 0 then
    let (status,fs,w) :=
      handleProtocolCall f w (f.deviceHandle w.fw loadedImg) .simpleFileSystem 0
    if status = .success ∧ fs ≠ 0 then
      let (status,w) := tryOpenFileOnFs f outSizeSet destBuf maxSize fuel fs w
      (status,fs,w)
    else (some notFound,fs,w)
  else (some notFound,0,w)

def tryDefaultVolume (fs : ℕ) (w : World σ) : Option EfiStatus × World σ :=
  let (status,fs,w) := locateProtocolCall f w .simpleFileSystem fs
  if status = .success ∧ fs ≠ 0 then tryOpenFileOnFs f outSizeSet destBuf maxSize fuel fs w
  else (some notFound,w)

/-- The end of one pass over the handles: a success frees the buffer. -/
def afterHandle (handles : Pointer) (r : Option EfiStatus × World σ)
    (next : World σ → Option EfiStatus × World σ) : Option EfiStatus × World σ :=
  match r with
  | (some .success,w) => (some .success,freePoolCall f w handles)
  | r => orElse r next

/-- The loop over the handles from `h` on, and the FreePool behind it. -/
def tryHandles (handles : Pointer) : ℕ → ℕ → World σ → Option EfiStatus × World σ
  | 0,_,w => (some notFound,freePoolCall f w handles)
  | n+1,h,w =>
      let (handle,w) := handleAtCall f w handles h
      let (status,fs,w) := handleProtocolCall f w handle .simpleFileSystem 0
      if status = .success ∧ fs ≠ 0 then
        afterHandle f handles (tryOpenFileOnFs f outSizeSet destBuf maxSize fuel fs w)
          (tryHandles handles n (h+1))
      else tryHandles handles n (h+1) w

def tryAllVolumes (w : World σ) : Option EfiStatus × World σ :=
  let (status,numHandles,handles,w) := locateHandleBufferCall f w 0 null
  if status = .success ∧ handles.addr ≠ 0 ∧ numHandles > 0 then
    tryHandles f outSizeSet destBuf maxSize fuel handles numHandles 0 w
  else (some notFound,w)

def readKernelFile (image : ℕ) (w : World σ) : Option EfiStatus × World σ :=
  let (status,fs,w) := tryBootVolume f outSizeSet destBuf maxSize fuel image w
  orElse (orElse (status,w) (tryDefaultVolume f outSizeSet destBuf maxSize fuel fs))
    (tryAllVolumes f outSizeSet destBuf maxSize fuel)

end Search

end Gemiboot.KernelSearch
