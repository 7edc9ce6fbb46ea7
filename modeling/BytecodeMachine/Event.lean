/-
This file holds the events that the machine reports while it works. An event is
kept as data; its level and its line of text are computed from it, and only for
the events that somebody asks for.
-/

import BytecodeMachine.Fault
import BytecodeMachine.Locals.Slot

namespace BytecodeMachine

/-! ### Levels -/

/-- How severe an event is, the most severe level first. -/
inductive Level
  | error
  | warn
  | info
  | debug
  | trace
deriving DecidableEq

namespace Level

/-- The place of a level, counted from the most severe one. -/
def rank : Level → Nat
  | error => 1
  | warn => 2
  | info => 3
  | debug => 4
  | trace => 5

/-- The word that opens a line of the level. -/
def text : Level → String
  | error => "ERROR"
  | warn => "WARN"
  | info => "INFO"
  | debug => "DEBUG"
  | trace => "TRACE"

end Level

/-! ### Events -/

/-- Something the machine reports. -/
inductive Event
  /-- The operand stack changed to these values, top first. -/
  | stackChanged (values : List Value)
  /-- The local variables changed to these slots. -/
  | localsChanged (slots : List Slot)
  /-- A thread is about to execute the instruction at an offset. -/
  | executing (thread : ThreadId) (instruction : Instruction) (offset : Nat)
  /-- A thread entered a monitor and now holds it this many times. -/
  | monitorEntered (thread : ThreadId) (className : String) (reference : ObjectRef) (entries : Nat)
  /-- A thread found a monitor held by another one. -/
  | monitorContended (thread : ThreadId) (className : String) (reference : ObjectRef)
    (owner : ThreadId)
  /-- A thread left a monitor that it still holds this many times. -/
  | monitorExited (thread : ThreadId) (className : String) (reference : ObjectRef) (entries : Nat)
  /-- A thread gave a monitor up. -/
  | monitorReleased (thread : ThreadId) (className : String) (reference : ObjectRef)
  /-- A thread came to the end of a frame and has this many left. -/
  | frameLeft (thread : ThreadId) (depth : Nat)
  /-- A thread was started. -/
  | threadSpawned (thread : ThreadId)
  /-- A thread came to its end. -/
  | threadTerminated (thread : ThreadId)
  /-- A fault ended the turn of a thread. -/
  | threadAborted (thread : ThreadId) (fault : Fault)
  /-- No thread completed an instruction in a round. -/
  | noProgress (blocked : List ThreadId)
deriving DecidableEq

namespace Event

/-- The level of an event. -/
def level : Event → Level
  | stackChanged _ | localsChanged _ | executing .. => .trace
  | monitorEntered .. | monitorContended .. | monitorExited .. | monitorReleased .. | frameLeft ..
  | threadSpawned _ | threadTerminated _ => .debug
  | threadAborted .. => .error
  | noProgress _ => .warn

/-- The text of an event; an operand stack is written from bottom to top. -/
def text : Event → String
  | stackChanged values => "--- value stack --- " ++ bracketed (values.reverse.map Value.text)
  | localsChanged slots => "--- local variables --- " ++ bracketed (slots.map Slot.text)
  | executing thread instruction offset =>
    thread.text ++ " exec " ++ instruction.text ++ " at " ++ toString offset
  | monitorEntered thread className reference entries =>
    thread.text ++ " entered monitor of " ++ className ++ reference.text ++ " (count " ++
      toString entries ++ ")"
  | monitorContended thread className reference owner =>
    thread.text ++ " contends for monitor of " ++ className ++ reference.text ++ " held by " ++
      owner.text
  | monitorExited thread className reference entries =>
    thread.text ++ " exited monitor of " ++ className ++ reference.text ++ " (count " ++
      toString entries ++ ")"
  | monitorReleased thread className reference =>
    thread.text ++ " released monitor of " ++ className ++ reference.text
  | frameLeft thread depth => thread.text ++ " left a frame, depth " ++ toString depth
  | threadSpawned thread => "spawned " ++ thread.text
  | threadTerminated thread => thread.text ++ " terminated"
  | threadAborted thread fault => thread.text ++ " aborted: " ++ fault.message
  | noProgress blocked =>
    "no thread can make progress, blocked: " ++ bracketed (blocked.map ThreadId.entryText)

/-- The line of an event. -/
def line (event : Event) : String :=
  event.level.text ++ " " ++ event.text

/-- The lines of those events that are at least as severe as a level, in order. -/
def lines (threshold : Level) (events : List Event) : List String :=
  (events.filter fun event => event.level.rank ≤ threshold.rank).map line

end Event

end BytecodeMachine
