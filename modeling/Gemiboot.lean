import Gemiboot.MkdiskMain
import Gemiboot.MkdiskLoss
import Gemiboot.BootRoundTrip
import Gemiboot.ElfSemantics
import Gemiboot.DiskThunk
import Gemiboot.FatGeometry
import Gemiboot.FatFindFile
import Gemiboot.RegularFiles
import Gemiboot.Fat12Files
import Gemiboot.FatRequests
import Gemiboot.PciFramebuffer
import Gemiboot.Uefi64Handover
import Gemiboot.VbrIoSys
import Gemiboot.GopTerminal
import Gemiboot.MemorySummary
import Gemiboot.NameForms
import Gemiboot.MbrSelect
import Gemiboot.UefiFileSearch
import Gemiboot.UefiConsole
import Gemiboot.ChunkedReads
import Gemiboot.GopModes
import Gemiboot.KernelSessions
import Gemiboot.HexConsole
import Gemiboot.BiosLoader
import Gemiboot.A20Gate
import Gemiboot.KernelEntry
import Gemiboot.BootChain
import Gemiboot.DirectoryTree
import Gemiboot.DiskStack
import Gemiboot.StringRoutines
import Gemiboot.KernelMemory
import Gemiboot.UefiInformation
import Gemiboot.UefiHandoverMemory
import Gemiboot.UefiKernelEntry
