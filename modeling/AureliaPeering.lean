import AureliaPeering.Session.Restart
import AureliaPeering.Net.AtMostOnce
import AureliaPeering.Net.SendSuccess
import AureliaPeering.Callis.ByteStream
import AureliaPeering.Ring.Transfer
import AureliaPeering.Blob.SenderFlush
import AureliaPeering.Blob.BufferAccounting
import AureliaPeering.Blob.ReceiverEof
import AureliaPeering.Blob.ErrorFrames
import AureliaPeering.Peer.Stranded
import AureliaPeering.Callis.ReaderExit
import AureliaPeering.Blob.CompletionNotice
import AureliaPeering.Config.Interop
import AureliaPeering.Ring.SealWait
import AureliaPeering.Peer.Dialing
import AureliaPeering.Peer.CallisLimit
import AureliaPeering.Peer.Redial
import AureliaPeering.Peer.EarlyChunk
import AureliaPeering.Blob.CallisHandshake
import AureliaPeering.Blob.RingReservations
import AureliaPeering.Store.DeadlineIndex
import AureliaPeering.Store.Sweep
import AureliaPeering.Store.StaleCompletions
import AureliaPeering.Store.Capacity
import AureliaPeering.Session.Closing
import AureliaPeering.Callis.DrainExact
import AureliaPeering.Callis.DrainSections
import AureliaPeering.Ring.Terminal
import AureliaPeering.Ring.InboundHistory
import AureliaPeering.Auth.CallbackRendezvous
import AureliaPeering.Auth.Signatures
import AureliaPeering.Peer.AdmissionGate
import AureliaPeering.Observability.ErrorHistory
import AureliaPeering.Store.StaleKeys
