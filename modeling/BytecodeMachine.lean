import BytecodeMachine.Code.Sweep
import BytecodeMachine.Scheduler
import BytecodeMachine.Proofs.Code.Encoding
import BytecodeMachine.Proofs.Code.Numbers
import BytecodeMachine.Proofs.Code.Sweep
import BytecodeMachine.Proofs.Frame.Wide
import BytecodeMachine.Proofs.Frame.Failure
import BytecodeMachine.Proofs.Frame.Retry
import BytecodeMachine.Proofs.Frame.ReturnAddress
import BytecodeMachine.Proofs.Frame.CursorDiscipline
import BytecodeMachine.Proofs.Frame.LocalAccess
import BytecodeMachine.Proofs.Frame.Increment
import BytecodeMachine.Proofs.Frame.Provenance
import BytecodeMachine.Proofs.Heap.History
import BytecodeMachine.Proofs.Heap.Store
import BytecodeMachine.Proofs.Thread.Turn
import BytecodeMachine.Proofs.Thread.Splitting
import BytecodeMachine.Proofs.Thread.Quantum
import BytecodeMachine.Proofs.Thread.Reports
import BytecodeMachine.Proofs.Scheduler.Reachable
import BytecodeMachine.Proofs.Scheduler.Deadlock
import BytecodeMachine.Proofs.Scheduler.LockOrder
import BytecodeMachine.Proofs.Scheduler.WaitCycle
import BytecodeMachine.Proofs.Scheduler.Termination
import BytecodeMachine.Proofs.Scheduler.Independence
import BytecodeMachine.Proofs.Scheduler.Quantum
import BytecodeMachine.Proofs.Scheduler.Turns
import BytecodeMachine.Proofs.Scheduler.Failure
import BytecodeMachine.Proofs.Scheduler.Ledger
import BytecodeMachine.Proofs.OperandStack.Slotwise
import BytecodeMachine.Proofs.OperandStack.Refusals
import BytecodeMachine.Proofs.OperandStack.Calls
import BytecodeMachine.Proofs.Locals.Layout
import BytecodeMachine.Proofs.Locals.Arguments
