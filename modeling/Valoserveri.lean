import Valoserveri.Library.FixedStore
import Valoserveri.Library.EraseLoop
import Valoserveri.Library.ExceptRun
import Valoserveri.Library.DirtyFlag
import Valoserveri.Library.Broadcast
import Valoserveri.Library.Segments
import Valoserveri.Library.Registry
import Valoserveri.Library.Lines
import Valoserveri.Machine
import Valoserveri.Config
import Valoserveri.Ini
import Valoserveri.ConfFile
import Valoserveri.DMXController
import Valoserveri.LightPacket
import Valoserveri.Clients
import Valoserveri.LightingTab
import Valoserveri.PacketFormat
import Valoserveri.Rig
import Valoserveri.Json
import Valoserveri.Serveri
import Valoserveri.Run
import Valoserveri.StartUp
import Valoserveri.Reachable
import Valoserveri.Trace
import Valoserveri.PollSet
import Valoserveri.MonitorPage
import Valoserveri.MonitorDom
import Valoserveri.MonitorSocket
import Valoserveri.Proofs.LightPacketProofs
import Valoserveri.Proofs.RoundTripProofs
import Valoserveri.Proofs.RecordProofs
import Valoserveri.Proofs.DMXControllerProofs
import Valoserveri.Proofs.FrameProofs
import Valoserveri.Proofs.InterferenceProofs
import Valoserveri.Proofs.JsonProofs
import Valoserveri.Proofs.ReadObjectProofs
import Valoserveri.Proofs.StateProofs
import Valoserveri.Proofs.AgreementProofs
import Valoserveri.Proofs.ConfigProofs
import Valoserveri.Proofs.StartCodeProofs
import Valoserveri.Proofs.GetListProofs
import Valoserveri.Proofs.TagProofs
import Valoserveri.Proofs.DeliveryProofs
import Valoserveri.Proofs.RepeatProofs
import Valoserveri.Proofs.RunProofs
import Valoserveri.Proofs.ScanProofs
import Valoserveri.Proofs.EarlyExitProofs
import Valoserveri.Proofs.OutputProofs
import Valoserveri.Proofs.PollSetProofs
import Valoserveri.Proofs.HaltProofs
import Valoserveri.Proofs.MonitorProofs
import Valoserveri.Proofs.CompletionProofs
import Valoserveri.Proofs.MonitorPageProofs
import Valoserveri.Proofs.IniProofs
import Valoserveri.Proofs.ConfFileProofs
import Valoserveri.Proofs.RigFileProofs
import Valoserveri.Proofs.AnyFileProofs
import Valoserveri.Proofs.TraceProofs
import Valoserveri.Proofs.StreamProofs
import Valoserveri.Proofs.MonitorDomProofs
import Valoserveri.Proofs.MonitorSocketProofs
import Valoserveri.Proofs.ClientProofs
import Valoserveri.Proofs.SessionProofs
import Valoserveri.Proofs.LightingTabProofs
import Valoserveri.Proofs.StartUpProofs
