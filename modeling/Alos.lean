import Alos.Pmm.FirstFit
import Alos.Pmm.FreeSet
import Alos.Vmm.Isolation
import Alos.Vmm.Teardown
import Alos.Ext2.Sharing
import Alos.Ext2.Tiling
import Alos.Ext2.Reclaim
import Alos.Vfs.Rmdir
import Alos.Sync.Condvar
import Alos.Sync.RwLock
import Alos.Sched.Idle
import Alos.Sched.Fifo
import Alos.Sched.Join
import Alos.Sched.Inheritance
import Alos.Work.Pool
import Alos.Tcp.Delivery
import Alos.Tcp.Acks
import Alos.Socket.Recv
import Alos.Virtio.NetReceive
import Alos.Net.Output
import Alos.Vmm.Physical
import Alos.Httpd.Serve
import Alos.KHeap.Realloc
import Alos.Net.Dhcp
import Alos.Ext2.Mount
import Alos.Config.History
import Alos.Sched.Sleep
import Alos.Socket.Opening
import Alos.Tcp.Buffer
