import OrionBios.Transition.Runs
import OrionBios.Machine.Memory
import OrionBios.Machine.LinkedList
import OrionBios.Heap.Model
import OrionBios.Heap.Lists
import OrionBios.Heap.Shape
import OrionBios.Heap.Cells
import OrionBios.Heap.Represents
import OrionBios.Heap.Compaction
import OrionBios.Heap.Refinement
import OrionBios.Heap.Conservation
import OrionBios.Heap.Coverage
import OrionBios.Heap.Exclusivity
import OrionBios.Heap.FreeList
import OrionBios.Vfs.Shell
import OrionBios.Vfs.DescriptorTable
import OrionBios.Buffers.Ring
import OrionBios.Receiver.W5100
import OrionBios.Receiver.Model
import OrionBios.Receiver.Sender
import OrionBios.Receiver.StateMachine
import OrionBios.Receiver.Transfer
import OrionBios.Receiver.Counters
import OrionBios.PicoIde.Firmware
import OrionBios.PicoIde.Taskfile
import OrionBios.PicoIde.DataPath
import OrionBios.PicoIde.Ledger
import OrionBios.PicoIde.Phases
import OrionBios.PicoIde.Commands
import OrionBios.PicoIde.Isolation
import OrionBios.PicoIde.Status
import OrionBios.PicoIde.Session
import OrionBios.PicoIde.Transfer
import OrionBios.Transition.Held
import OrionBios.PowerControl.Model
import OrionBios.PowerControl.Passes
import OrionBios.PowerControl.FailSafe
import OrionBios.PowerControl.Qualification
import OrionBios.FatDescriptor.FatFs
import OrionBios.FatDescriptor.Model
import OrionBios.FatDescriptor.Coherence
import OrionBios.Libc.Strings
import OrionBios.Vfs.Descriptors
import OrionBios.Vfs.Lifecycle
import OrionBios.Receiver.Progress
import OrionBios.PicoIde.Identify
import OrionBios.Machine.Program
import OrionBios.Disks.Device
import OrionBios.Disks.Driver
import OrionBios.Disks.Volumes
import OrionBios.Disks.Statuses
import OrionBios.Disks.Sectors
import OrionBios.Disks.MideWrite
import OrionBios.Disks.PicoideWrite
import OrionBios.Disks.MultiSector
import OrionBios.Disks.Selection
import OrionBios.Disks.Honesty
import OrionBios.Disks.Reading
import OrionBios.Disks.Accesses
import OrionBios.Disks.Confinement
import OrionBios.Disks.Steady
import OrionBios.Disks.Contents
import OrionBios.Disks.Drives
import OrionBios.Disks.Crosstalk
import OrionBios.Graphics.Bus
import OrionBios.Graphics.Screen
import OrionBios.Graphics.Primitives
import OrionBios.Graphics.Bounds
import OrionBios.Graphics.Parameters
import OrionBios.Graphics.Safety
import OrionBios.Graphics.Terminal
import OrionBios.Keyboard.RingBuffer
import OrionBios.Timers.Model
import OrionBios.Timers.Firing
import OrionBios.BusModes.Drive
import OrionBios.BusModes.Agreement
import OrionBios.Loader.Model
import OrionBios.Loader.Slots
import OrionBios.Loader.Confinement
import OrionBios.Loader.Image
import OrionBios.Loader.Path
import OrionBios.Loader.Independence
import OrionBios.Dhcp.Client
import OrionBios.Dhcp.Exchange
import OrionBios.Dhcp.Confirmation
import OrionBios.Burner.Program
import OrionBios.Burner.Eeprom
import OrionBios.Burner.PageLoad
import OrionBios.Burner.Burning
import OrionBios.Burner.ReadBack
import OrionBios.Burner.Safety
import OrionBios.Crc.ShiftRegister
import OrionBios.Crc.Crc32
import OrionBios.PicoIde.SdDriver
import OrionBios.PicoIde.Capacity
import OrionBios.PicoIde.Identification
import OrionBios.PicoIde.Addressing
import OrionBios.PicoIde.OnCard
import OrionBios.PicoIde.InPlace
import OrionBios.Vfs.AtomicOpen
import OrionBios.FatDescriptor.OpenModes
import OrionBios.Seek.Model
import OrionBios.Seek.Arithmetic
import OrionBios.Libc.Stores
import OrionBios.Vfs.ProgramName
import OrionBios.Commands.BiosShell
import OrionBios.Commands.Bounds
import OrionBios.Vfs.Scanning
import OrionBios.Vfs.Grammar
import OrionBios.Vfs.Examined
import OrionBios.Vfs.LayoutScan
import OrionBios.Vfs.LineCalls
import OrionBios.Vfs.Redirection
import OrionBios.LineEditor.Model
import OrionBios.LineEditor.Reference
import OrionBios.LineEditor.Refinement
import OrionBios.Commands.Tokenizer
import OrionBios.Elf.Model
import OrionBios.Elf.Image
import OrionBios.Elf.Loading
import OrionBios.Elf.Faithful
import OrionBios.Commands.CopyFile
import OrionBios.Libc.Strtoul
import OrionBios.Commands.WriteMemory
import OrionBios.UsbKeyboard.Keymaps
import OrionBios.UsbKeyboard.Decoder
import OrionBios.UsbKeyboard.Reports
import OrionBios.UsbKeyboard.Parser
import OrionBios.UsbKeyboard.Frames
import OrionBios.Graphics.Painting
import OrionBios.Graphics.FastLine
import OrionBios.Graphics.DigitalLine
import OrionBios.Buffers.Overlap
import OrionBios.Graphics.DmaCopy
import OrionBios.FileServer.Registers
import OrionBios.FileServer.Reception
import OrionBios.PowerControl.Debounce
import OrionBios.Machine.DataRegisters
import OrionBios.Libc.Division
import OrionBios.Libc.Digits
import OrionBios.Libc.Numerals
import OrionBios.Libc.Printf
import OrionBios.Libc.FormatAgreement
import OrionBios.Libc.ZeroPadding
import OrionBios.Libc.Scanf
import OrionBios.Libc.ScanRoundTrip
import OrionBios.Libc.StrtoulEnd
import OrionBios.Libc.StrtoulStandard
import OrionBios.Libc.Strntoumax
import OrionBios.Dhcp.Options
import OrionBios.Dhcp.Reception
import OrionBios.Dhcp.Packet
import OrionBios.Libc.Multiplication
import OrionBios.Libc.Memmove
import OrionBios.Libc.BoundedCopies
import OrionBios.Libc.Comparison
import OrionBios.Libc.Substring
import OrionBios.Libc.Tokens
import OrionBios.Libc.Conversions
import OrionBios.Libc.Utoa
import OrionBios.Libc.Itoa
import OrionBios.Buffers.Ownership
import OrionBios.FileServer.Memory
import OrionBios.FileServer.Ownership
import OrionBios.Machine.Scheduled
import OrionBios.SectorPath.Board
import OrionBios.SectorPath.Request
import OrionBios.SectorPath.Asking
import OrionBios.SectorPath.Moving
import OrionBios.SectorPath.Buffers
import OrionBios.SectorPath.Promise
import OrionBios.SectorPath.Completion
import OrionBios.SectorPath.RoundTrip
import OrionBios.SectorPath.Alike
import OrionBios.SectorPath.Store
import OrionBios.SectorPath.Progress
import OrionBios.SectorPath.Volume
import OrionBios.Sorting.Segments
import OrionBios.Sorting.Qsort
import OrionBios.Sorting.Partition
import OrionBios.Sorting.Sorted
import OrionBios.TwoWire.Parties
import OrionBios.TwoWire.Master
import OrionBios.TwoWire.Clock
import OrionBios.TwoWire.Calls
import OrionBios.TwoWire.Runs
import OrionBios.TinyBasic.Text
import OrionBios.TinyBasic.Evaluator
import OrionBios.TinyBasic.Safety
import OrionBios.TinyBasic.Expressions
import OrionBios.TinyBasic.Evaluation
import OrionBios.TinyBasic.Meaning
import OrionBios.TinyBasic.Writing
import OrionBios.Machine.OrderedMap
import OrionBios.TinyBasic.Lines
import OrionBios.TinyBasic.Program
import OrionBios.TinyBasic.Editing
import OrionBios.TinyBasic.Sessions
