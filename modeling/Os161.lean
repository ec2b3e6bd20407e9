import Os161.Basic
import Os161.Lib.Machine
import Os161.Lib.Simulation
import Os161.Lib.Ring
import Os161.Lib.KernM
import Os161.Lib.ByteFile
import Os161.Lib.Queues
import Os161.Lib.Bytes
import Os161.Lib.DList
import Os161.Lib.Tokens
import Os161.Lib.ByteSwap
import Os161.Lib.Digits
import Os161.Lib.Chain
import Os161.Lib.Blocks
import Os161.Libc.String
import Os161.Libc.Printf
import Os161.Libc.Strtok
import Os161.Klib.Bitmap
import Os161.Klib.Queue
import Os161.Klib.Array
import Os161.Klib.Bswap
import Os161.Millicode.Longlong
import Os161.Millicode.Muldi3
import Os161.Millicode.Qdivrem
import Os161.Millicode.Divdi3
import Os161.Proc.Table
import Os161.Synch.Lock
import Os161.Synch.Traffic
import Os161.Synch.Sem
import Os161.Vm.Coremap
import Os161.Vm.Kmalloc
import Os161.Vm.Subpage
import Os161.Vm.Pages
import Os161.Vm.HeapInv
import Os161.Vm.HeapFree
import Os161.Vm.Frames
import Os161.Vm.Kheap
import Os161.Vm.Addrspace
import Os161.Vm.Fault
import Os161.Vm.Copyinout
import Os161.Syscall.Loadelf
import Os161.Syscall.Execv
import Os161.Sfs.Fs
import Os161.Sfs.Io
import Os161.Klib.Uio
import Os161.Sfs.Read
import Os161.Sfs.Write
import Os161.Sfs.Truncate
import Os161.Sfs.Vnode
import Os161.Sfs.Dir
import Os161.Sfs.Lookup
import Os161.Sfs.Consistent
import Os161.Sfs.Link
import Os161.Sfs.Mount
import Os161.Sbin.Mksfs
import Os161.Sbin.Sfsck
import Os161.Sbin.Fresh
import Os161.Sbin.Bmap
import Os161.Vfs.Knowndevs
import Os161.Vfs.Vfslookup
import Os161.Libc.Malloc
import Os161.Thread.Sched
import Os161.Thread.Threadlist
import Os161.Thread.Migration
import Os161.Thread.Spl
import Os161.Dev.Console
import Os161.Startup.Menu
