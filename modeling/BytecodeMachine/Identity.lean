/-
This file holds the names by which the machine knows its threads and its
objects. A thread is known by a number, an object by its place in the heap.
-/

namespace BytecodeMachine

/-- A thread is known by its number. -/
structure ThreadId where
  number : UInt32
deriving DecidableEq

/-- A thread is called `Thread-` followed by its number. -/
def ThreadId.text (thread : ThreadId) : String :=
  "Thread-" ++ toString thread.number.toNat

/-- Inside a list of threads a thread is written with the name of its type. -/
def ThreadId.entryText (thread : ThreadId) : String :=
  "ThreadId(" ++ toString thread.number.toNat ++ ")"

/-- An object is known by its index in the heap; the reference may dangle. -/
structure ObjectRef where
  index : UInt32
deriving DecidableEq

/-- A reference is written as an at sign and the index. -/
def ObjectRef.text (reference : ObjectRef) : String :=
  "@" ++ toString reference.index.toNat

end BytecodeMachine
