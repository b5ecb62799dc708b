import Kernel31.Page.Static
import Kernel31.Lock.Spinlock
import Kernel31.Buddy.Lifo
import Kernel31.Buddy.NodeSets
import Kernel31.Paging.DestroyRuns
import Kernel31.Elf.RoundTrip
import Kernel31.Elf.Bounds
import Kernel31.Dtb.Release
import Kernel31.Dtb.RoundTrip
import Kernel31.Dtb.Alias
import Kernel31.Mcache.CacheRuns
import Kernel31.Mcache.Stale
import Kernel31.Mcache.Counted
import Kernel31.Mcache.Alignment
import Kernel31.Mcache.Retired
import Kernel31.Sched.Overtaking
import Kernel31.Trap.Sleep
import Kernel31.Trap.Strap
import Kernel31.Sched.Release
import Kernel31.Trap.Isolation
import Kernel31.Crypto.Reseed
import Kernel31.Crypto.Cbc
import Kernel31.Crypto.Hmac
import Kernel31.Rand.Reseed
import Kernel31.Vfs.Users
import Kernel31.Vfs.Handles
import Kernel31.Vfs.LogReads
import Kernel31.Vfs.LogLimit
import Kernel31.Vfs.Offsets
import Kernel31.Boot.Coverage
