import HelixKit.Lib.History
import HelixKit.Lib.Duplex
import HelixKit.Stream.FlowControl
import HelixKit.Stream.HalfClose
import HelixKit.Stream.TsRegistry
import HelixKit.Stream.Signals
import HelixKit.Stream.SlotReuse
import HelixKit.Stream.FailedWrite
import HelixKit.Stream.ClosedReader
import HelixKit.Stream.Deadlock
import HelixKit.Authd.OfflineLogin
import HelixKit.Authd.Enrollment
import HelixKit.Pkg.Ownership
import HelixKit.Pkg.Catalog
import HelixKit.Pkg.Depends
import HelixKit.Pkg.Conffiles
import HelixKit.Esp32.Ota
import HelixKit.Esp32.Sweeps
import HelixKit.Ipc.Returns
import HelixKit.Ipc.Registration
import HelixKit.Ipc.Services
import HelixKit.Ipc.Frames
import HelixKit.Backend.GatewayRouter
import HelixKit.Helixd.SpoolKept
import HelixKit.Esp32.FileCommits
import HelixKit.Backend.WorkflowReplay
import HelixKit.Esp32.Certificates
import HelixKit.Esp32.ServiceEndpoint
import HelixKit.Esp32.SerialFrames
import HelixKit.Protocol.SerialClient
import HelixKit.Backend.EnrollmentIndexes
import HelixKit.Authd.CredentialStore
import HelixKit.Backend.OfflineAgreement
import HelixKit.Backend.EventIngestion
import HelixKit.Backend.DataPlane
import HelixKit.Backend.FsUploads
import HelixKit.Backend.FsRequests
import HelixKit.Backend.ReleaseTargets
import HelixKit.Backend.ReleaseRecords
import HelixKit.Runtime.Convergence
import HelixKit.Runtime.Gates
import HelixKit.Authproto.Conn
import HelixKit.Backend.EventWriter
import HelixKit.Stream.Codecs
import HelixKit.Esp32.MessageTransports
import HelixKit.SshAuth.PamHelix
import HelixKit.Backend.ReleaseScopes
import HelixKit.Backend.BuildRuns
import HelixKit.Backend.BlobStore
import HelixKit.Protocol.GeneratedTypes
import HelixKit.Esp32.Provisioning
import HelixKit.Esp32.StreamReassembly
import HelixKit.Files.Transfers
import HelixKit.Pkg.Containment
import HelixKit.Pkg.Hooks
import HelixKit.Pkg.Interrupted
import HelixKit.Runtime.ReadBack
import HelixKit.Runtime.Restarts
import HelixKit.Ipc.ReconnectDelays
import HelixKit.Ipc.Closing
import HelixKit.Helixd.SpoolBound
import HelixKit.Shared.ConfigLayers
import HelixKit.Authd.CredentialText
import HelixKit.Esp32.OtaReplies
import HelixKit.Esp32.SessionIds
import HelixKit.Esp32.Evictions
import HelixKit.Esp32.Queries
import HelixKit.Esp32.Packets
import HelixKit.Esp32.FileTransfers
import HelixKit.Authd.Session
import HelixKit.Protocol.Requests
import HelixKit.Protocol.JsonObjects
import HelixKit.Backend.StorageKeys
import HelixKit.Protocol.SchemaOrder
import HelixKit.Report.Layouts
import HelixKit.Pkg.Versions
import HelixKit.Backend.AiUsage
import HelixKit.Esp32.ConsoleBridge
import HelixKit.Protocol.PythonRuntime
import HelixKit.Runtime.ConfigSections
import HelixKit.Ldap.Search
import HelixKit.Stream.TsBacklog
