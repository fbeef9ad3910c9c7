import NibbleComputer.InstructionSet
import NibbleComputer.Machine.Operation
import NibbleComputer.Main
import NibbleComputer.Proofs.Assembly.Appending
import NibbleComputer.Proofs.Assembly.Execution
import NibbleComputer.Proofs.Assembly.Faults
import NibbleComputer.Proofs.Assembly.Names
import NibbleComputer.Proofs.Assembly.Tokens
import NibbleComputer.Proofs.CommandLine.Assembling
import NibbleComputer.Proofs.CommandLine.Outputs
import NibbleComputer.Proofs.CommandLine.Running
import NibbleComputer.Proofs.Control.Canonical
import NibbleComputer.Proofs.Control.Timing
import NibbleComputer.Proofs.Image.Grammar
import NibbleComputer.Proofs.Image.RoundTrip
import NibbleComputer.Proofs.Json.RoundTrip
import NibbleComputer.Proofs.Listing.Checked
import NibbleComputer.Proofs.Listing.Execution
import NibbleComputer.Proofs.Listing.Reassembly
import NibbleComputer.Proofs.Listing.Tiling
import NibbleComputer.Proofs.Machine.Clock
import NibbleComputer.Proofs.Machine.Coherence
import NibbleComputer.Proofs.Machine.Drivers
import NibbleComputer.Proofs.Machine.Frame
import NibbleComputer.Proofs.Machine.Hidden
import NibbleComputer.Proofs.Machine.Messages
import NibbleComputer.Proofs.Machine.Outputs
import NibbleComputer.Proofs.Machine.Reports
import NibbleComputer.Proofs.Machine.Reset
import NibbleComputer.Proofs.Machine.Rounds
import NibbleComputer.Proofs.Machine.Runs
import NibbleComputer.Proofs.Machine.Termination
import NibbleComputer.Proofs.Machine.Unread
import NibbleComputer.Proofs.Memory.Updates
import NibbleComputer.Proofs.Programs.Fibonacci
import NibbleComputer.Proofs.Snapshot.RoundTrip
