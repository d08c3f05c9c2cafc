import QnxTutorial.Checksum.Iov
import QnxTutorial.Checksum.IovAnswer
import QnxTutorial.Checksum.IovService
import QnxTutorial.Checksum.Leftovers
import QnxTutorial.Checksum.Overflow
import QnxTutorial.Condvar.Throughput
import QnxTutorial.Condvar.Wakeup
import QnxTutorial.CondvarQueue.Bursts
import QnxTutorial.CondvarQueue.Drain
import QnxTutorial.CondvarQueue.Fifo
import QnxTutorial.CondvarQueue.Operations
import QnxTutorial.CondvarQueue.Wakeup
import QnxTutorial.EventServer.ClientCount
import QnxTutorial.ExampleDevice.Replies
import QnxTutorial.ExampleDevice.Versions
import QnxTutorial.IntSimple.Agree
import QnxTutorial.MutexRecovery.Recovery
import QnxTutorial.MutexSync.Counters
import QnxTutorial.MutexSync.Finish
import QnxTutorial.NoMutex.LostUpdates
import QnxTutorial.NoMutex.Serial
import QnxTutorial.NonblockPulseRec.Bursts
import QnxTutorial.Prodcons.Signal
import QnxTutorial.Prodcons.Throughput
import QnxTutorial.Reuse
import QnxTutorial.ShmemPosix.Broadcast
import QnxTutorial.ShmemPosix.Names
import QnxTutorial.ShmemPosix.Pointer
import QnxTutorial.ShmemPosix.Throughput
import QnxTutorial.ShmemQnx.Exchange
import QnxTutorial.ShmemQnx.Ownership
import QnxTutorial.ShmemQnx.ReceiveBuffer
import QnxTutorial.ShmemQnx.RefusedGet
import QnxTutorial.ShmemQnx.Service
import QnxTutorial.SpawnExample.Wait
