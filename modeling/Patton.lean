import Patton.Library.Bracketing
import Patton.ThreadSquad.SpanningTree
import Patton.ThreadSquad.Traversals
import Patton.ThreadSquad.TransformReduce
import Patton.ThreadSquad.ScheduleIndependence
import Patton.ThreadSquad.Waiting
import Patton.ThreadSquad.Lifetime
import Patton.Memory.CheckedArithmetic
import Patton.Memory.Alignment
import Patton.Memory.Masks
import Patton.Memory.AlignedAllocatorAdaptor
import Patton.Memory.PageAlloc
import Patton.Memory.PageFree
import Patton.Memory.Allocators
import Patton.Memory.UniquePtr
import Patton.Memory.Heap
import Patton.Buffer.Layout
import Patton.Buffer.Ownership
import Patton.Buffer.Iterators
import Patton.CpuInfo.Publication
import Patton.CpuInfo.CoreIds
import Patton.CpuInfo.Pinning
import Patton.CpuInfo.Parameters
import Patton.CpuInfo.HardwareSizes
import Patton.Memory.AddressSpace
