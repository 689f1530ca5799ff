import Armsy.Model.Poller
import Armsy.Proofs.BufferFifo
import Armsy.Proofs.Wakeup
import Armsy.Proofs.FunctorOrder
import Armsy.Proofs.OutboundStream
import Armsy.Proofs.StateMachine
import Armsy.Proofs.CloseOnce
import Armsy.Proofs.DownNotice
import Armsy.Proofs.HalfClose
import Armsy.Proofs.WriteOrder
import Armsy.Proofs.Snapshot
import Armsy.Proofs.QuitDrain
import Armsy.Proofs.EarlyRequests
import Armsy.Proofs.PollerRegistration
import Armsy.Proofs.SilentChannel
import Armsy.Proofs.Teardown
import Armsy.Proofs.ConnectionView
import Armsy.Proofs.ConnectionTable
import Armsy.Proofs.Ownership
import Armsy.Proofs.BareReceivers
import Armsy.Proofs.ThreadLifeCycle
import Armsy.Proofs.ReadAppend
import Armsy.Proofs.IndexSafety
import Armsy.Proofs.StaleBytes
import Armsy.Proofs.Assignment
import Armsy.Proofs.OutputAccounting
import Armsy.Proofs.SpuriousRead
import Armsy.Proofs.LoopPerThread
import Armsy.Proofs.RoundsRefinement
import Armsy.Proofs.BackToPoll
import Armsy.Proofs.ServerTeardown
import Armsy.Proofs.LoopsRefinement
import Armsy.Proofs.ConnectionRefinement
import Armsy.Proofs.DestructorEnds
import Armsy.Proofs.NextBatch
import Armsy.Proofs.StartAndJoin
import Armsy.Proofs.StartOnce
import Armsy.Proofs.InetRoundTrip
import Armsy.Proofs.EchoServer
import Armsy.Proofs.HighWater
import Armsy.Proofs.ConnectionTotal
