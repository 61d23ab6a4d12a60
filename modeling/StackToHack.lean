import StackToHack.CommandLine.Disk
import StackToHack.Main
import StackToHack.Proofs.Faults
import StackToHack.Proofs.Grammar
import StackToHack.Proofs.Machine.Assembler
import StackToHack.Proofs.Machine.Call
import StackToHack.Proofs.Machine.Listing
import StackToHack.Proofs.Numbering
import StackToHack.Proofs.Scope
import StackToHack.Proofs.StackMachine.Blocks
import StackToHack.Proofs.StackMachine.Simulation
import StackToHack.Proofs.Frames
import StackToHack.Proofs.Spelling
import StackToHack.Proofs.RoundTrip
import StackToHack.Proofs.Compound
import StackToHack.Proofs.Occurrence
import StackToHack.Proofs.Meeting
import StackToHack.Proofs.Additions
import StackToHack.Proofs.Renumbering
import StackToHack.Proofs.Neighbours
import StackToHack.Proofs.Comments
import StackToHack.Proofs.Echo
import StackToHack.Proofs.AssemblyText
import StackToHack.Proofs.ByteOrder
import StackToHack.Proofs.CommandLine.Directory
import StackToHack.Proofs.CommandLine.Answer
import StackToHack.Proofs.CommandLine.Arguments
import StackToHack.Proofs.CommandLine.Output
import StackToHack.Proofs.CommandLine.Statics
import StackToHack.Proofs.CommandLine.Program
import StackToHack.Proofs.Machine.Entry
import StackToHack.Proofs.Machine.SignedOrder
import StackToHack.Proofs.Concatenation
import StackToHack.Proofs.LoadedNumbers
import StackToHack.Proofs.Layout
import StackToHack.Proofs.Log
import StackToHack.Proofs.Unreadable
import StackToHack.Proofs.CommandLine.DefaultOutput
