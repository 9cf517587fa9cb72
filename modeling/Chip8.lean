import Chip8.Config.Reader
import Chip8.Debug.Codec
import Chip8.Debug.Host
import Chip8.Scheduler.Budget
import Chip8.Scheduler.Stops
import Chip8.Scheduler.Watched
import Chip8.Proofs.Execution
import Chip8.Proofs.Resumption
import Chip8.Proofs.History
import Chip8.Proofs.Completion
import Chip8.Proofs.Slicing
import Chip8.Proofs.HookCalls
import Chip8.Proofs.DebuggedRun
import Chip8.Proofs.Isolation
import Chip8.Proofs.Effect
import Chip8.Proofs.Course
import Chip8.Proofs.Bounds
import Chip8.Proofs.Calls
import Chip8.Proofs.Session
import Chip8.Proofs.Parking
import Chip8.Proofs.Loads
import Chip8.Proofs.Draws
import Chip8.Proofs.Interference
import Chip8.Proofs.Countdown
import Chip8.Proofs.Decimal
import Chip8.Proofs.Quotation
import Chip8.Proofs.Spacing
import Chip8.Proofs.Layout
import Chip8.Proofs.ConfigText
import Chip8.Proofs.PlainObject
import Chip8.Proofs.TraceText
import Chip8.Proofs.Faults
import Chip8.Proofs.Messages
import Chip8.Proofs.BudgetSlices
import Chip8.Proofs.Holding
import Chip8.Proofs.Logging
import Chip8.Proofs.CallTrace
import Chip8.Proofs.Flips
import Chip8.Proofs.SpriteDraw
import Chip8.Proofs.Footprint
import Chip8.Proofs.Exits
import Chip8.Proofs.HandSteps
import Chip8.Proofs.FlagLaw
import Chip8.Proofs.ForwardPrograms
import Chip8.Proofs.TraceRing
import Chip8.Proofs.TraceFidelity
import Chip8.Proofs.KeyProblems
import Chip8.Proofs.LitCells
import Chip8.Proofs.ControlFlow
import Chip8.Proofs.DrawBalance
import Chip8.Proofs.TextDump
import Chip8.Proofs.DebuggerStates
