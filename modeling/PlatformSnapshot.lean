import PlatformSnapshot.Main
import PlatformSnapshot.Files.Tree
import PlatformSnapshot.Snapshot.Json
import PlatformSnapshot.Proofs.Snapshot.Consistency
import PlatformSnapshot.Proofs.Snapshot.MachineFiles
import PlatformSnapshot.Proofs.CommandLine.Agreement
import PlatformSnapshot.Proofs.IdList.Canonical
import PlatformSnapshot.Proofs.Memory.Discovery
import PlatformSnapshot.Proofs.Snapshot.Footprint
import PlatformSnapshot.Proofs.Number.Nearest
import PlatformSnapshot.Proofs.Snapshot.Report
import PlatformSnapshot.Proofs.Exposition.Reading
import PlatformSnapshot.Proofs.Exposition.Families
import PlatformSnapshot.Proofs.Exposition.Snapshot
import PlatformSnapshot.Proofs.Exposition.Refusal
import PlatformSnapshot.Proofs.Exposition.Labels
import PlatformSnapshot.Proofs.Exposition.Order
import PlatformSnapshot.Proofs.Json.Quoted
import PlatformSnapshot.Proofs.Json.Reading
import PlatformSnapshot.Proofs.Json.Decode
import PlatformSnapshot.Proofs.Timestamp
import PlatformSnapshot.Proofs.Snapshot.Json
import PlatformSnapshot.Proofs.Processor.Descriptor
import PlatformSnapshot.Proofs.Snapshot.Blame
import PlatformSnapshot.Proofs.CommandLine.Precedence
import PlatformSnapshot.Proofs.Processor.BusyLines
import PlatformSnapshot.Proofs.Processor.Model
import PlatformSnapshot.Proofs.Processor.Splitting
import PlatformSnapshot.Proofs.Processor.Arrangement
import PlatformSnapshot.Proofs.Processor.Overriding
import PlatformSnapshot.Proofs.Memory.UsedLines
import PlatformSnapshot.Proofs.Memory.NodeLines
import PlatformSnapshot.Proofs.ResourceControl
import PlatformSnapshot.Proofs.Settings.RoundTrip
