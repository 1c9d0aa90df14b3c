import Gemiboot.ShortNames

/-!
# The image builder

`tools/mkdisk.c` over one flat disk buffer. The globals that main assigns once,
before anything reads them, are constants here; the disk buffer and the cluster
counter are threaded through every function. Two ghost fields remember every
sector number given to `get_sector` and every FAT entry set, so that statements
about where the tool writes need no second semantics. All `uint32_t` arithmetic
is reduced modulo 2^32, and nothing checks a sector against the end of the disk,
because the tool does not.
-/
namespace Gemiboot.Mkdisk
open ByteMemory ShortNames

def sectorSize : ℕ := 512
def totalSectors : ℕ := 256*1024*1024/sectorSize
def partitionStartLba : ℕ := 2048
def partitionSectors : ℕ := totalSectors-partitionStartLba
def secPerClus : ℕ := 4
def rsvdSecCnt : ℕ := 32
def numFats : ℕ := 2
def rootClus : ℕ := 2
def attrDirectory : ℕ := 0x10
def attrArchive : ℕ := 0x20

/-- `g_fat_start`, `g_fat_size` and `g_data_start` as main computes them. -/
def fatStart : ℕ := partitionStartLba+rsvdSecCnt
def fatSize : ℕ := ((partitionSectors-rsvdSecCnt)/secPerClus*4+sectorSize-1)/sectorSize
def dataStart : ℕ := fatStart+numFats*fatSize

def endOfChain : ℕ := 0x0FFFFFFF

structure Globals where
  disk : Memory
  nextFreeClus : ℕ
  /-- Ghost: every argument of `get_sector`, the latest first. -/
  sectors : List ℕ
  /-- Ghost: every cluster number given to `fat32_set_fat_entry`. -/
  entries : List ℕ

/-- The offset of a sector in the disk buffer; the product is 32 bits wide. -/
def getSector (lba : ℕ) : ℕ := u32 (lba*sectorSize)

def Globals.visit (g : Globals) (lba : ℕ) : Globals := {g with sectors := lba::g.sectors}

def fat1Sec (cluster : ℕ) : ℕ := u32 (fatStart+u32 (cluster*4)/sectorSize)
def fat2Sec (cluster : ℕ) : ℕ := u32 (fatStart+fatSize+u32 (cluster*4)/sectorSize)
def entOffset (cluster : ℕ) : ℕ := u32 (cluster*4)%sectorSize

def fat32SetFatEntry (cluster value : ℕ) (g : Globals) : Globals :=
  let m := store 4 g.disk (getSector (fat1Sec cluster)+entOffset cluster) (value &&& 0x0FFFFFFF)
  { g with
    disk := store 4 m (getSector (fat2Sec cluster)+entOffset cluster) (value &&& 0x0FFFFFFF)
    sectors := fat2Sec cluster::fat1Sec cluster::g.sectors
    entries := cluster::g.entries }

/-- `cluster - 2` is an unsigned subtraction. -/
def clusterToLba (cluster : ℕ) : ℕ := u32 (dataStart+u32 (u32 (cluster+4294967294)*secPerClus))

def allocateCluster (g : Globals) : ℕ × Globals :=
  let clus := g.nextFreeClus
  let g₁ := fat32SetFatEntry clus endOfChain {g with nextFreeClus := u32 (clus+1)}
  let g₂ := g₁.visit (clusterToLba clus)
  (clus,{g₂ with disk := fill g₂.disk (getSector (clusterToLba clus)) (secPerClus*sectorSize) 0})

/-! ### Directory entries -/

/-- The fields `add_dir_entry` assigns, in its order; the times it leaves alone
(creation and access) keep the bytes of the slot. -/
def writeDirEntry (m : Memory) (a : ℕ) (name : CString) (attr firstClus size : ℕ) : Memory :=
  let r := format83 name (fun _ => 0) (fun _ => 0)
  let m := blit m a 8 r.1
  let m := blit m (a+8) 3 r.2
  let m := store 1 m (a+11) attr
  let m := store 2 m (a+20) (firstClus >>> 16)
  let m := store 2 m (a+26) (firstClus &&& 0xFFFF)
  let m := store 4 m (a+28) size
  let m := store 2 m (a+24) 0x5821
  store 2 m (a+22) 0x6000

/-- A slot is taken when its first name byte is neither unused nor deleted. -/
def slotFree (b : UInt8) : Bool := b == 0x00 || b == 0xE5

/-- The two loops over the sectors of one cluster and the 16 entries of a
sector. The enclosing `while (1)` ends in a `break`, so only `dir_clus` itself
is searched and a directory never grows. -/
def addDirEntryFrom (clusLba : ℕ) (name : CString) (attr firstClus size : ℕ) :
    ℕ → ℕ → Globals → ℤ × Globals
  | 0,_,g => (-1,g)
  | n+1,s,g =>
      let lba := u32 (clusLba+s)
      let g := g.visit lba
      match (List.range (sectorSize/32)).find? fun e => slotFree (g.disk (getSector lba+32*e)) with
      | some e =>
          (0,{g with disk := writeDirEntry g.disk (getSector lba+32*e) name attr firstClus size})
      | none => addDirEntryFrom clusLba name attr firstClus size n (s+1) g

def addDirEntry (dirClus : ℕ) (name : CString) (attr firstClus size : ℕ) (g : Globals) :
    ℤ × Globals :=
  addDirEntryFrom (clusterToLba dirClus) name attr firstClus size secPerClus 0 g

def dotName : CString := ⟨[dot],by simp [dot]⟩
def dotDotName : CString := ⟨[dot,dot],by simp [dot]⟩

/-- Neither caller of `add_dir_entry` looks at its result. -/
def createDirectory (parentClus : ℕ) (name : CString) (g : Globals) : ℕ × Globals :=
  let a := allocateCluster g
  let g₁ := (addDirEntry parentClus name attrDirectory a.1 0 a.2).2
  let g₂ := (addDirEntry a.1 dotName attrDirectory a.1 0 g₁).2
  let up := if parentClus = rootClus then 0 else parentClus
  (a.1,(addDirEntry a.1 dotDotName attrDirectory up 0 g₂).2)

/-! ### File data -/

/-- The locals of the loop in `write_file_data`; `src` is an index into `data`. -/
structure FileLoop where
  firstClus : ℕ
  prevClus : ℕ
  src : ℕ
  remaining : ℕ

/-- `num_clusters`, with the rounding done in 32 bits. -/
def numClusters (size : ℕ) : ℕ :=
  let n := u32 (size+secPerClus*sectorSize-1)/(secPerClus*sectorSize)
  if n = 0 then 1 else n

/-- `if (copy_bytes > 0 && src)`; a null `data` pointer is `none`. -/
def copyCluster (data : Option Memory) (clus : ℕ) (l : FileLoop) (g : Globals) :
    FileLoop × Globals :=
  let copyBytes := if l.remaining > secPerClus*sectorSize then secPerClus*sectorSize else l.remaining
  match data with
  | none => (l,g)
  | some d =>
      if copyBytes > 0 then
        let g := g.visit (clusterToLba clus)
        ({l with src := l.src+copyBytes, remaining := l.remaining-copyBytes},
          {g with disk := blit g.disk (getSector (clusterToLba clus)) copyBytes fun i => d (l.src+i)})
      else (l,g)

def writeClusters (data : Option Memory) : ℕ → ℕ → FileLoop → Globals → FileLoop × Globals
  | 0,_,l,g => (l,g)
  | n+1,i,l,g =>
      let a := allocateCluster g
      let l₁ := if i = 0 then {l with firstClus := a.1} else l
      let g₁ := if i = 0 then a.2 else fat32SetFatEntry l.prevClus a.1 a.2
      let c := copyCluster data a.1 l₁ g₁
      writeClusters data n (i+1) {c.1 with prevClus := a.1} c.2

def writeFileData (parentClus : ℕ) (name : CString) (data : Option Memory) (size : ℕ)
    (g : Globals) : ℕ × Globals :=
  let w := writeClusters data (numClusters size) 0 ⟨0,0,0,size⟩ g
  let g₁ := fat32SetFatEntry w.1.prevClus endOfChain w.2
  (w.1.firstClus,(addDirEntry parentClus name attrArchive w.1.firstClus size g₁).2)

/-! ### main -/

/-- A host file as `read_host_file` returns it: its bytes and a 32-bit size. -/
structure HostFile where
  data : Memory
  size : ℕ
  size_lt : size < 4294967296

def bytes (l : List UInt8) : Memory := fun i => l.getD i 0

/-- Boot code, disk signature and a partition table with one active entry. -/
def writeMbr (mbr : HostFile) (m : Memory) : Memory :=
  let m := blit m 0 (if mbr.size < 440 then mbr.size else 440) mbr.data
  let m := store 4 m 440 0x544F4F42
  let m := store 2 m 444 0x0000
  let m := store 2 m 510 0xAA55
  let m := store 1 m 446 0x80
  let m := blit m 447 3 (bytes [32,33,0])
  let m := store 1 m 450 0x0C
  let m := blit m 451 3 (bytes [254,0xFF,0xFF])
  let m := store 4 m 454 partitionStartLba
  store 4 m 458 partitionSectors

/-- The boot sector at offset `a`: vbr code with the BPB fields assigned over it.
`ext_flags`, `fs_ver` and the reserved bytes stay as the vbr file has them. -/
def writeBpb (vbr : HostFile) (a : ℕ) (m : Memory) : Memory :=
  let m := blit m a (if vbr.size < sectorSize then vbr.size else sectorSize) vbr.data
  let m := blit m (a+3) 8 (bytes [0x47,0x45,0x4D,0x49,0x42,0x4F,0x4F,0x54])
  let m := store 2 m (a+11) sectorSize
  let m := store 1 m (a+13) secPerClus
  let m := store 2 m (a+14) rsvdSecCnt
  let m := store 1 m (a+16) numFats
  let m := store 2 m (a+17) 0
  let m := store 2 m (a+19) 0
  let m := store 1 m (a+21) 0xF8
  let m := store 2 m (a+22) 0
  let m := store 2 m (a+24) 63
  let m := store 2 m (a+26) 255
  let m := store 4 m (a+28) partitionStartLba
  let m := store 4 m (a+32) partitionSectors
  let m := store 4 m (a+36) fatSize
  let m := store 4 m (a+44) rootClus
  let m := store 2 m (a+48) 1
  let m := store 2 m (a+50) 6
  let m := store 1 m (a+64) 0x80
  let m := store 1 m (a+66) 0x29
  let m := store 4 m (a+67) 0x12345678
  let m := blit m (a+71) 11 (bytes [0x47,0x45,0x4D,0x49,0x42,0x4F,0x4F,0x54,0x20,0x20,0x20])
  let m := blit m (a+82) 8 (bytes [0x46,0x41,0x54,0x33,0x32,0x20,0x20,0x20])
  store 2 m (a+510) 0xAA55

def writeFsInfo (a : ℕ) (m : Memory) : Memory :=
  let m := store 4 m a 0x41615252
  let m := store 4 m (a+484) 0x61417272
  let m := store 4 m (a+488) 0xFFFFFFFF
  let m := store 4 m (a+492) 0xFFFFFFFF
  store 4 m (a+508) 0xAA550000

def copySector (src dest : ℕ) (m : Memory) : Memory :=
  blit m (getSector dest) sectorSize fun i => m (getSector src+i)

def ioSecCount (ioSys : HostFile) : ℕ := u32 (ioSys.size+sectorSize-1)/sectorSize

/-- The test that guards the copy of IO.SYS into the reserved sectors. -/
def ioCopyWritten (ioSys : HostFile) : Prop := u32 (2+ioSecCount ioSys) < rsvdSecCnt

instance (ioSys : HostFile) : Decidable (ioCopyWritten ioSys) :=
  inferInstanceAs (Decidable (_ < _))

/-- MBR, boot sector, FSInfo, the two backups and the reserved IO.SYS copy,
written in this order into a zeroed buffer. -/
def layOut (mbr vbr ioSys : HostFile) : Globals :=
  let m := writeMbr mbr fun _ => 0
  let m := writeBpb vbr (getSector partitionStartLba) m
  let m := writeFsInfo (getSector (partitionStartLba+1)) m
  let m := copySector partitionStartLba (partitionStartLba+6) m
  let m := copySector (partitionStartLba+1) (partitionStartLba+7) m
  let visited := [partitionStartLba+1,partitionStartLba+7,partitionStartLba,partitionStartLba+6,
    partitionStartLba+1,partitionStartLba,partitionStartLba]
  if ioCopyWritten ioSys then
    ⟨blit m (getSector (partitionStartLba+2)) ioSys.size ioSys.data,3,
      (partitionStartLba+2)::visited,[]⟩
  else ⟨m,3,visited,[]⟩

/-- The formatted image main populates: the layout with FAT entries 0 to 2 set. -/
def formatted (mbr vbr ioSys : HostFile) : Globals :=
  let g := fat32SetFatEntry 0 0x0FFFFFF8 (layOut mbr vbr ioSys)
  let g := fat32SetFatEntry 1 0x0FFFFFFF g
  fat32SetFatEntry rootClus 0x0FFFFFFF g

def ioSysName : CString := ⟨[0x49,0x4F,0x2E,0x53,0x59,0x53],by simp⟩
def gemiosName : CString :=
  ⟨[0x47,0x45,0x4D,0x49,0x4F,0x53,0x2E,0x45,0x4C,0x46],by simp⟩
def efiName : CString := ⟨[0x45,0x46,0x49],by simp⟩
def bootName : CString := ⟨[0x42,0x4F,0x4F,0x54],by simp⟩
def bootIa32Name : CString :=
  ⟨[0x42,0x4F,0x4F,0x54,0x49,0x41,0x33,0x32,0x2E,0x45,0x46,0x49],by simp⟩
def bootX64Name : CString :=
  ⟨[0x42,0x4F,0x4F,0x54,0x58,0x36,0x34,0x2E,0x45,0x46,0x49],by simp⟩

structure Inputs where
  mbr : HostFile
  vbr : HostFile
  ioSys : HostFile
  ia32 : HostFile
  x64 : HostFile
  kernel : HostFile

/-- Everything main does to the disk buffer before it is written out. -/
def main (inp : Inputs) : Globals :=
  let g := formatted inp.mbr inp.vbr inp.ioSys
  let g := (writeFileData rootClus ioSysName (some inp.ioSys.data) inp.ioSys.size g).2
  let g := (writeFileData rootClus gemiosName (some inp.kernel.data) inp.kernel.size g).2
  let efi := createDirectory rootClus efiName g
  let boot := createDirectory efi.1 bootName efi.2
  let g := (writeFileData boot.1 bootIa32Name (some inp.ia32.data) inp.ia32.size boot.2).2
  (writeFileData boot.1 bootX64Name (some inp.x64.data) inp.x64.size g).2

end Gemiboot.Mkdisk
