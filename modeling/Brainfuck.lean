import Brainfuck.FileTree
import Brainfuck.InfiniteTape
import Brainfuck.Main
import Brainfuck.Structured
import Brainfuck.Proofs.Depth
import Brainfuck.Proofs.Pairing
import Brainfuck.Proofs.Balance
import Brainfuck.Proofs.Turns
import Brainfuck.Proofs.Layout
import Brainfuck.Proofs.Simulation
import Brainfuck.Proofs.Calls
import Brainfuck.Proofs.Advance
import Brainfuck.Proofs.Lockstep
import Brainfuck.Proofs.Rehearsal
import Brainfuck.Proofs.Permanence
import Brainfuck.Proofs.WellFormed
import Brainfuck.Proofs.Integers
import Brainfuck.Proofs.Room
import Brainfuck.Proofs.Output
import Brainfuck.Proofs.Table
import Brainfuck.Proofs.Pairs
import Brainfuck.Proofs.Strictness
import Brainfuck.Proofs.Checking
import Brainfuck.Proofs.Streams
import Brainfuck.Proofs.Waiting
import Brainfuck.Proofs.Running
import Brainfuck.Proofs.Blame
import Brainfuck.Proofs.Comments
import Brainfuck.Proofs.Hooks
import Brainfuck.Proofs.LostOutput
import Brainfuck.Proofs.StepLimit
import Brainfuck.Proofs.Cancellation
import Brainfuck.Proofs.Numerals
import Brainfuck.Proofs.Priority
import Brainfuck.Proofs.Causes
import Brainfuck.Proofs.Shadows
import Brainfuck.Proofs.Interleaving
import Brainfuck.Proofs.Census
import Brainfuck.Proofs.Growth
import Brainfuck.Proofs.Failure
import Brainfuck.Proofs.Lines
import Brainfuck.Proofs.Assignments
import Brainfuck.Proofs.Enclosure
import Brainfuck.Proofs.Colour
import Brainfuck.Proofs.Window
import Brainfuck.Proofs.Edits
import Brainfuck.Proofs.RoundTrip
import Brainfuck.Proofs.Laps
import Brainfuck.Proofs.Input
import Brainfuck.Proofs.Products
