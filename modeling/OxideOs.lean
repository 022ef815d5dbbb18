import OxideOs.Container.Seccomp
import OxideOs.Container.UserNs
import OxideOs.Ipc.MsgQueue
import OxideOs.Ipc.Segments
import OxideOs.Mm.Buddy.Conserve
import OxideOs.Mm.FreeRegion
import OxideOs.Mm.Heap.Runs
import OxideOs.Mm.Paging.Refine
import OxideOs.Mm.Slab.Conserve
import OxideOs.Mm.Slab.Runs
import OxideOs.Mm.VmaRefine
import OxideOs.Net.ConnTrack
import OxideOs.Net.Tcp.Acks
import OxideOs.Net.Tcp.Safety
import OxideOs.Oxidefs.Recovery
import OxideOs.Proc.Counts
import OxideOs.Proc.Failures
import OxideOs.Proc.FutexCalls
import OxideOs.Proc.FutexWakeups
import OxideOs.Sched.Affinity
import OxideOs.Sched.Children
import OxideOs.Sched.Consistency
import OxideOs.Sched.Dead
import OxideOs.Signal.Sigreturn
import OxideOs.Signal.Transparent
import OxideOs.Syscall.Protect
import OxideOs.Tls.Stream
import OxideOs.Tty.LockFreeRing
import OxideOs.Vfs.Epoll
import OxideOs.Vfs.FlockRuns
import OxideOs.Vfs.MemFile
import OxideOs.Vfs.Mount
import OxideOs.Vfs.Pipe
import OxideOs.Waitqueue.Waiters
