import RespOS.Fs.AdvisoryLocks
import RespOS.Fs.Console
import RespOS.Fs.Ext4.DeferredTimes
import RespOS.Fs.Ext4.RawMetadata
import RespOS.Fs.SizeLimit
import RespOS.Fs.MmapReservation
import RespOS.Fs.Pipe.NamedFifo
import RespOS.Fs.Pipe.Waiters
import RespOS.Fs.Ppoll
import RespOS.Fs.Traversal
import RespOS.Ipc.ShmAccess
import RespOS.Ipc.ShmLifetime
import RespOS.Mm.AddressSelection
import RespOS.Mm.Exhaustion
import RespOS.Mm.MovedPages
import RespOS.Mm.Residency
import RespOS.Mm.UserCopy
import RespOS.Mm.WriteSeal
import RespOS.Mutex.Sleep
import RespOS.Net.Datagrams
import RespOS.Net.Handshake
import RespOS.Net.MessageBuffers
import RespOS.Signal.Frame
import RespOS.Signal.Itimers
import RespOS.Signal.Permission
import RespOS.Signal.PosixTimers
import RespOS.Task.Clone
import RespOS.Task.Credentials
import RespOS.Task.Futex.Wait
import RespOS.Task.GroupExit
import RespOS.Task.KernelStack
import RespOS.Task.ReadyQueues
import RespOS.Task.Session
