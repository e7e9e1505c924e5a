import Toyix.Library.Outcome
import Toyix.Library.Words
import Toyix.Library.Bytes
import Toyix.Library.Links
import Toyix.Library.Transition
import Toyix.Library.Bitmap
import Toyix.Library.Tables
import Toyix.Library.Ledger
import Toyix.Library.Paged
import Toyix.Library.Gate
import Toyix.Library.Chains
import Toyix.Heap.Allocator
import Toyix.Heap.Blocks
import Toyix.Heap.Operations
import Toyix.Heap.Growth
import Toyix.Heap.Contract
import Toyix.Heap.Clients
import Toyix.Heap.DoubleFree
import Toyix.Heap.Interleaving
import Toyix.Paging.Frames
import Toyix.Paging.MemoryMap
import Toyix.Paging.FrameContract
import Toyix.Paging.FirstFit
import Toyix.Paging.Kernel
import Toyix.Paging.Spaces
import Toyix.Paging.Entries
import Toyix.Paging.Ownership
import Toyix.Paging.Moves
import Toyix.Paging.HeapPages
import Toyix.Paging.Balance
import Toyix.Paging.Growth
import Toyix.Paging.Accounts
import Toyix.Paging.Mapping
import Toyix.Paging.Directories
import Toyix.Paging.Teardown
import Toyix.Paging.Destruction
import Toyix.Paging.KernelMaps
import Toyix.Paging.Boot
import Toyix.Paging.UserPages
import Toyix.Paging.System
import Toyix.Paging.Isolation
import Toyix.Paging.Lifecycle
import Toyix.Paging.Bookkeeping
import Toyix.Paging.Sharing
import Toyix.Paging.UserMemory
import Toyix.Paging.UserAccess
import Toyix.Paging.Guards
import Toyix.Sync.Waiting
import Toyix.Sync.Exclusion
import Toyix.Processes.Table
import Toyix.Processes.Listing
import Toyix.Processes.Collection
import Toyix.Processes.Effects
import Toyix.Processes.Holding
import Toyix.Processes.Lifetime
import Toyix.Processes.Delivery
import Toyix.Library.Cyclic
import Toyix.Input.Keyboard
import Toyix.User.Shell
import Toyix.User.Output
import Toyix.Library.Handles
import Toyix.Files.Vfs
import Toyix.Files.Slots
import Toyix.Files.Lifecycle
import Toyix.Paging.KernelLaw
import Toyix.Paging.Regions
import Toyix.Library.Parts
import Toyix.Library.Views
import Toyix.Paging.UserBytes
import Toyix.Loader.Elf32
import Toyix.Loader.Initial
import Toyix.Loader.Filling
import Toyix.Loader.Load
import Toyix.Loader.MemoryImage
import Toyix.Loader.Rejection
import Toyix.Loader.Safety
import Toyix.Loader.Arguments
import Toyix.Loader.Stale
import Toyix.Library.Cursor
import Toyix.Library.Strings
import Toyix.Input.Modifiers
import Toyix.Input.Terminal
import Toyix.Drivers.VgaText
import Toyix.Files.Position
import Toyix.Syscalls.UserStrings
import Toyix.Loader.ArgumentVector
import Toyix.Syscalls.Kernel
import Toyix.Syscalls.Reading
import Toyix.Paging.UsableMemory
import Toyix.Paging.HeapGrowth
import Toyix.Text.Numbers
import Toyix.Text.Tokens
