import Yaeos.Machine.Run
import Yaeos.Bitmap.Basic
import Yaeos.Buddy.Basic
import Yaeos.Buddy.Block
import Yaeos.Buddy.Coalesce
import Yaeos.Buddy.PageSet
import Yaeos.Mm.Basic
import Yaeos.Mm.Calls
import Yaeos.Mm.Run
import Yaeos.Rbtree.Delete
import Yaeos.Rbtree.Run
import Yaeos.VmSpace.Run
import Yaeos.Platform.MemRegions
import Yaeos.I686.Rights
import Yaeos.Kheap.Windows
import Yaeos.Kheap.Mapping
import Yaeos.Kmm.Run
import Yaeos.Cbuffer.Run
import Yaeos.Kvstore.Run
import Yaeos.Resources.Run
import Yaeos.Pool.Run
import Yaeos.VmSpace.Gap
import Yaeos.VmSpace.NewArea
import Yaeos.Cstd.Count
import Yaeos.Dev.Run
import Yaeos.Dev.Kdev
import Yaeos.Cstd.Field
import Yaeos.Cstd.Syntax
import Yaeos.Cstd.Numbers
import Yaeos.Cstd.Arguments
import Yaeos.Kmm.Bytes
import Yaeos.Kmm.Order
import Yaeos.Kmm.Geometry
import Yaeos.Kmm.Lifetimes
import Yaeos.Kmalloc.Run
import Yaeos.Rbtree.Iterate
import Yaeos.Rbtree.Rounds
import Yaeos.Rbtree.Build
import Yaeos.Rbtree.Packed
import Yaeos.Rbtree.Release
import Yaeos.Rbtree.Builds
import Yaeos.I686.Intr
import Yaeos.Machine.Simulation
import Yaeos.Machine.Numeral
import Yaeos.Machine.Emission
import Yaeos.Buddy.Bounds
import Yaeos.Buddy.Init
import Yaeos.Bitmap.Run
import Yaeos.Mm.Layout
import Yaeos.Mm.States
import Yaeos.Kheap.Space
import Yaeos.Kheap.Bookkeeping
import Yaeos.Kmm.Plain
import Yaeos.VmSpace.Occupy
import Yaeos.Kheap.Growth
import Yaeos.Kheap.Unwind
import Yaeos.Kheap.Reentry
import Yaeos.Dev.Bound
import Yaeos.Dev.Unmap
import Yaeos.Dev.Cover
import Yaeos.Platform.Register
import Yaeos.Linear.Run
import Yaeos.Mm.Addr
import Yaeos.Platform.Zones
import Yaeos.Platform.Entries
import Yaeos.Cstd.Memory
import Yaeos.Video.Lines
import Yaeos.I686.Exceptions
import Yaeos.Slist.Heap
import Yaeos.I686.Lines
import Yaeos.I686.Delivery
import Yaeos.I686.Boot
import Yaeos.I686.PageFault
import Yaeos.I686.Frames
import Yaeos.Platform.MemoryBoot
import Yaeos.Modules.Run
import Yaeos.Console.Screen
