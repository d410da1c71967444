import Mgcore.Base
import Mgcore.Lib.Run
import Mgcore.Lib.Chain
import Mgcore.Lib.Memory
import Mgcore.Lib.Buffer
import Mgcore.Lib.Ring
import Mgcore.Lib.Fifo
import Mgcore.Lib.Bits
import Mgcore.Lib.Bytes
import Mgcore.Lib.Reading
import Mgcore.Lib.EndAround
import Mgcore.Lib.Bitmap
import Mgcore.Lib.SlotMap
import Mgcore.Lib.Numeral
import Mgcore.Lib.Split
import Mgcore.Lib.Visits
import Mgcore.Text.Format
import Mgcore.Text.Braces
import Mgcore.Text.Bounded
import Mgcore.Text.Reads
import Mgcore.Text.Copying
import Mgcore.Task.Model
import Mgcore.Task.Invariant
import Mgcore.Task.RoundRobin
import Mgcore.Task.Termination
import Mgcore.Task.Syscalls
import Mgcore.Task.Layout
import Mgcore.Task.Reporting
import Mgcore.Task.Calls
import Mgcore.Task.Waiting
import Mgcore.Task.Footprint
import Mgcore.Sched.Model
import Mgcore.Sched.Sleep
import Mgcore.Pmm.Model
import Mgcore.Pmm.Accounting
import Mgcore.Pmm.Runs
import Mgcore.Pmm.Clients
import Mgcore.Pmm.Available
import Mgcore.Pmm.Walk
import Mgcore.Sched.MemoryGuard
import Mgcore.Tmpfs.Model
import Mgcore.Tmpfs.Steps
import Mgcore.Tmpfs.Tree
import Mgcore.Tmpfs.Runs
import Mgcore.Tmpfs.Storage
import Mgcore.Tmpfs.Contents
import Mgcore.Tmpfs.Names
import Mgcore.Tmpfs.Namespace
import Mgcore.Tmpfs.Components
import Mgcore.Tmpfs.Creation
import Mgcore.Tmpfs.Growth
import Mgcore.Tmpfs.Populate
import Mgcore.Console.Input
import Mgcore.Console.Queue
import Mgcore.Console.Screen
import Mgcore.Console.Cells
import Mgcore.Console.View
import Mgcore.Console.Scrollback
import Mgcore.Cli.Shell
import Mgcore.Cli.Dispatch
import Mgcore.Cli.Echo
import Mgcore.Console.Printf
import Mgcore.Console.Keyboard
import Mgcore.Cli.Editor
import Mgcore.Cli.Bounds
import Mgcore.Cli.History
import Mgcore.Fs.Model
import Mgcore.Fs.Paths
import Mgcore.Fs.Calls
import Mgcore.Fs.Boot
import Mgcore.Fs.Directories
import Mgcore.Fs.Bounds
import Mgcore.Fs.Sequential
import Mgcore.Fs.Identity
import Mgcore.Fs.Elf
import Mgcore.Heap.Blocks
import Mgcore.Fs.Table
import Mgcore.Net.Model
import Mgcore.Net.Bounds
import Mgcore.Net.Decode
import Mgcore.Net.Dhcp
import Mgcore.Net.Arp
import Mgcore.Net.ArpCache
import Mgcore.Net.Effects
import Mgcore.Net.Ping
import Mgcore.Net.Receive
import Mgcore.Net.Delivery
import Mgcore.Net.Polling
import Mgcore.Net.Options
import Mgcore.Net.Checksum
import Mgcore.Net.Udp
import Mgcore.Net.Address
import Mgcore.Cli.Swap
import Mgcore.Cli.Meminfo
import Mgcore.Initramfs.Model
import Mgcore.Initramfs.Entries
import Mgcore.Fs.Kernel
import Mgcore.Fs.WorkingDirectory
import Mgcore.Fs.Splitting
import Mgcore.Fs.Failures
import Mgcore.Fs.Devices
import Mgcore.Initramfs.Format
import Mgcore.Initramfs.Framing
import Mgcore.Initramfs.Reads
import Mgcore.Initramfs.Unpack
import Mgcore.Initramfs.Paths
import Mgcore.Initramfs.Mount
import Mgcore.Fs.Seeking
import Mgcore.Fs.Probe
import Mgcore.Fs.Execve
import Mgcore.Boot.Paging
import Mgcore.Boot.Supply
import Mgcore.Task.Fairness
import Mgcore.Console.Colors
import Mgcore.Console.Mouse
import Mgcore.Interrupt.Dispatch
import Mgcore.Syscall.Entry
import Mgcore.Net.Transmit
import Mgcore.Net.Resolve
import Mgcore.Syscall.Isolation
import Mgcore.Net.Session
import Mgcore.Console.Interrupted
import Mgcore.Net.Adapters
import Mgcore.Net.Startup
