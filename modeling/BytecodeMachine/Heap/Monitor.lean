/-
This file holds the monitors with which threads lock objects. A monitor exists
only while its object is locked: the first entry makes it, every further entry
of its owner is counted, and the exit that brings the count to zero removes it.
-/

import BytecodeMachine.Action

namespace BytecodeMachine

/-- The lock on an object: the thread that holds it and how often it has entered. -/
structure Monitor where
  owner : ThreadId
  entries : Nat
deriving DecidableEq

/-- The answer to a thread that wants to enter a monitor. -/
inductive Entry
  /-- The thread holds the monitor and has entered it this many times. -/
  | acquired (entries : Nat)
  /-- Another thread holds the monitor. -/
  | contended (owner : ThreadId)
deriving DecidableEq

namespace Monitor

/-- A monitor counts its entries in 32 bits. -/
def entryLimit : Nat :=
  UInt32.size - 1

/-- Lets a thread enter, unless another thread holds the monitor. -/
def enter (thread : ThreadId) : Action (Option Monitor) Entry := do
  match ← get with
  | none =>
    set (some (⟨thread, 1⟩ : Monitor))
    return .acquired 1
  | some monitor =>
    if monitor.owner = thread then
      if monitor.entries < entryLimit then
        set (some { monitor with entries := monitor.entries + 1 })
        return .acquired (monitor.entries + 1)
      else Action.fail (.entryCountOverflow thread)
    else return .contended monitor.owner

/-- Lets a thread leave the monitor once and answers how many of its entries remain. -/
def exit (thread : ThreadId) : Action (Option Monitor) Nat := do
  match ← get with
  | none => Action.fail (.exitUnlocked thread)
  | some monitor =>
    if monitor.owner = thread then
      let remaining := monitor.entries - 1
      set (if remaining = 0 then none else some { monitor with entries := remaining })
      return remaining
    else Action.fail (.exitNotOwner thread monitor.owner)

theorem run_enter_none (thread : ThreadId) :
    (enter thread).run none = ⟨.ok (.acquired 1), some ⟨thread, 1⟩, []⟩ := rfl

theorem run_enter_some (thread : ThreadId) (monitor : Monitor) :
    (enter thread).run (some monitor) =
      if monitor.owner = thread then
        if monitor.entries < entryLimit then
          ⟨.ok (.acquired (monitor.entries + 1)),
            some { monitor with entries := monitor.entries + 1 }, []⟩
        else ⟨.error (.entryCountOverflow thread), some monitor, []⟩
      else ⟨.ok (.contended monitor.owner), some monitor, []⟩ := by
  by_cases own : monitor.owner = thread
  · by_cases room : monitor.entries < entryLimit <;>
      simp [enter, Action.run_bind, Except.map, own, room]
  · simp [enter, Action.run_bind, own]

theorem run_exit_none (thread : ThreadId) :
    (exit thread).run none = ⟨.error (.exitUnlocked thread), none, []⟩ := rfl

theorem run_exit_some (thread : ThreadId) (monitor : Monitor) :
    (exit thread).run (some monitor) =
      if monitor.owner = thread then
        ⟨.ok (monitor.entries - 1),
          if monitor.entries - 1 = 0 then none
          else some { monitor with entries := monitor.entries - 1 }, []⟩
      else ⟨.error (.exitNotOwner thread monitor.owner), some monitor, []⟩ := by
  by_cases own : monitor.owner = thread <;> simp [exit, Action.run_bind, Except.map, own]

end Monitor

end BytecodeMachine
