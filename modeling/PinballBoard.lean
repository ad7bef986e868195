import PinballBoard.Main
import PinballBoard.Platform.Json
import PinballBoard.Simulator.Rehearsal
import PinballBoard.Simulator.Script
import PinballBoard.Proofs.Link.Attribution
import PinballBoard.Proofs.Link.Conservation
import PinballBoard.Proofs.Link.Cap
import PinballBoard.Proofs.Link.Idle
import PinballBoard.Proofs.Link.Origin
import PinballBoard.Proofs.Link.Failure
import PinballBoard.Proofs.Link.Matching
import PinballBoard.Proofs.Link.Smooth
import PinballBoard.Proofs.Link.Progress
import PinballBoard.Proofs.Link.Parting
import PinballBoard.Proofs.Link.Written
import PinballBoard.Proofs.Link.Share
import PinballBoard.Proofs.Text.Numeral
import PinballBoard.Proofs.Platform.Handshake
import PinballBoard.Proofs.Platform.Watch
import PinballBoard.Proofs.Platform.Polling
import PinballBoard.Proofs.Platform.Snapshot
import PinballBoard.Proofs.Platform.Suspension
import PinballBoard.Proofs.Platform.Shutdown
import PinballBoard.Proofs.Platform.Record
import PinballBoard.Proofs.Platform.AllOrNothing
import PinballBoard.Proofs.Platform.Coils
import PinballBoard.Proofs.Platform.Configuration
import PinballBoard.Proofs.Platform.Suppression
import PinballBoard.Proofs.Platform.Fault
import PinballBoard.Proofs.Platform.HostAndBoard
import PinballBoard.Proofs.Platform.Mirror
import PinballBoard.Proofs.Platform.Calm
import PinballBoard.Proofs.Platform.Progress
import PinballBoard.Proofs.Platform.Launch
import PinballBoard.Proofs.Platform.Rate
import PinballBoard.Proofs.Simulator.Serve
import PinballBoard.Proofs.Simulator.Line
import PinballBoard.Proofs.Simulator.Compliance
import PinballBoard.Proofs.Simulator.Rehearsal
import PinballBoard.Proofs.Simulator.Promptness
import PinballBoard.Proofs.Program.OneShot
import PinballBoard.Proofs.Program.Plan
import PinballBoard.Proofs.Program.CommandRun
import PinballBoard.Proofs.Program.Fairness
import PinballBoard.Proofs.Program.Completion
import PinballBoard.Proofs.Program.Rehearsal
import PinballBoard.Proofs.Settings.Document
