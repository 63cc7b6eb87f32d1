import MercuryRelay.Authorization.Provenance
import MercuryRelay.Authorization.Offers
import MercuryRelay.Authorization.Availability
import MercuryRelay.Authorization.Compaction
import MercuryRelay.Authorization.StateFile
import MercuryRelay.Lease.Reattachment
import MercuryRelay.Lease.Duplicates
import MercuryRelay.Lease.Tenure
import MercuryRelay.Lease.Ring
import MercuryRelay.Lease.Idempotence
import MercuryRelay.Lease.Ownership
import MercuryRelay.Framing.Reassembler
import MercuryRelay.Framing.Intake
import MercuryRelay.Lease.Confinement
import MercuryRelay.Lease.ReadResults
import MercuryRelay.Lease.Transport
import MercuryRelay.Python.JsonWrite
import MercuryRelay.Recovery.File
import MercuryRelay.Recovery.Bindings
import MercuryRelay.Recovery.Truncation
import MercuryRelay.Recovery.Scopes
import MercuryRelay.Recovery.Marks
import MercuryRelay.Admission.Envelope
import MercuryRelay.Routing.Token
import MercuryRelay.Shutdown
import MercuryRelay.Runtime
import MercuryRelay.Connector.Publication
import MercuryRelay.Connector.Budget
import MercuryRelay.Reads.Transcript
import MercuryRelay.Journal.Loading
import MercuryRelay.Folders.Returned
import MercuryRelay.DuplexSocket
import MercuryRelay.Push.PreviewSize
import MercuryRelay.Push.Once
import MercuryRelay.Push.AssociatedData
import MercuryRelay.Routing.MachineId
import MercuryRelay.Routing.Spelling
import MercuryRelay.Decoders
import MercuryRelay.Push.Cut
