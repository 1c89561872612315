import Rexus.Lib.FirstFit
import Rexus.Lib.Bitmap
import Rexus.Lib.Run
import Rexus.Lib.While
import Rexus.Lib.Linked
import Rexus.Lib.AlignedWord
import Rexus.Lib.CountedList
import Rexus.Lib.Bytes
import Rexus.Lib.StableOrder
import Rexus.Lib.OnesComplement
import Rexus.Lib.Pieces
import Rexus.Lib.RingBuffer
import Rexus.Mem.Pmm
import Rexus.Mem.PmmClient
import Rexus.Mem.PmmCounter
import Rexus.Mem.PmmInit
import Rexus.Mem.PmmInitCount
import Rexus.Mem.Vmm
import Rexus.Mem.VmmMapping
import Rexus.Mem.VmmClone
import Rexus.Mem.VmmCloneSpec
import Rexus.Mem.VmmCloneOrder
import Rexus.Proc.Process
import Rexus.Proc.Walk
import Rexus.Proc.Owned
import Rexus.Proc.Sched
import Rexus.Proc.Create
import Rexus.Proc.SchedStep
import Rexus.Proc.Records
import Rexus.Proc.SchedRun
import Rexus.Net.Packet
import Rexus.Net.Interface
import Rexus.Net.Route
import Rexus.Net.Tcp
import Rexus.Net.Udp
import Rexus.Net.Sockets
import Rexus.Net.TcpStream
import Rexus.Net.TcpSend
import Rexus.Net.TcpReceive
import Rexus.Net.Checksum
import Rexus.Net.UdpReceive
import Rexus.Net.UdpMessages
import Rexus.Net.Ipv4Header
import Rexus.Net.Reassembly
import Rexus.Net.ReassemblyRun
import Rexus.Net.Fragment
import Rexus.Net.Ipv4Send
import Rexus.Net.UdpSend
import Rexus.Net.PacketMemory
import Rexus.Drivers.E1000
import Rexus.Drivers.Keyboard
import Rexus.Drivers.Can
import Rexus.Drivers.Rings
import Rexus.Lib.TextPage
import Rexus.Drivers.Vga
import Rexus.Lib.CString
import Rexus.Drivers.Console
import Rexus.Drivers.ConsoleHistory
import Rexus.Drivers.ConsoleEcho
import Rexus.Drivers.ConsoleLines
import Rexus.Drivers.Typing
import Rexus.Net.RoundTrip
import Rexus.Net.Ipv4Receive
import Rexus.Net.DriverData
import Rexus.Drivers.E1000Transmit
import Rexus.Drivers.E1000Receive
import Rexus.Drivers.E1000Cleanup
import Rexus.Net.WireReceive
import Rexus.Proc.Pair
import Rexus.Proc.Blocked
import Rexus.Proc.Terminated
import Rexus.Proc.Sleep
import Rexus.Proc.CreateUndo
import Rexus.Lib.BitField
import Rexus.Drivers.CanFilters
import Rexus.Drivers.CanMailbox
import Rexus.Lib.Crc
import Rexus.Net.Ethernet
import Rexus.Arch.Isr
import Rexus.Mem.PmmFind
import Rexus.Proc.Selection
import Rexus.Net.FragmentLaws
import Rexus.Net.ReassemblyMemory
import Rexus.Net.ChecksumLoops
import Rexus.Lib.WordSum
import Rexus.Net.Corruption
import Rexus.Lib.Options
import Rexus.Net.TcpOptions
import Rexus.Mem.VmmIdentity
import Rexus.Mem.PmmMap
import Rexus.Drivers.KeyboardModifiers
import Rexus.Lib.Numeral
import Rexus.Drivers.Printf
import Rexus.Drivers.Putint
import Rexus.Arch.Timer
import Rexus.Net.Broadcast
import Rexus.Arch.Gdt
import Rexus.Drivers.Commands
import Rexus.Core.KernelCommands
import Rexus.Lib.Words
import Rexus.Core.Shell
import Rexus.Lib.WordStack
import Rexus.Arch.Stubs
import Rexus.Arch.Dispatch
import Rexus.Arch.Pic
import Rexus.Lib.RoundRobin
import Rexus.Mem.AddressSpaces
import Rexus.Proc.Fairness
import Rexus.Proc.Context
import Rexus.Proc.Threads
import Rexus.Lib.Scanf
import Rexus.Net.AddressText
import Rexus.Net.Frames
import Rexus.Lib.Scrollback
import Rexus.Drivers.VgaScreen
