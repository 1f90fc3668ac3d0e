import PlanArchive.Failure

/-!
# Streams

A source yields its octets and may then fail. A sink takes octets as long as it has room, some with
each call; a write that does not fit fills the room that is left and fails. A flush may fail as well.
-/

namespace PlanArchive

structure StreamFault where
  /-- The octets are at fault, and not the stream. -/
  isInvalidData : Bool
  text : String

def Failure.ofStream (context : String) (fault : StreamFault) : Failure :=
  if fault.isInvalidData then .charset (.other (context ++ ": " ++ fault.text))
  else .stream (context ++ ": " ++ fault.text)

structure Source where
  content : Bytes
  fault : Option StreamFault := none

def Source.read (source : Source) : Except Failure Bytes :=
  match source.fault with
  | some fault => .error (.ofStream "Failed to read XML" fault)
  | none => .ok source.content

/-- `limit` is how many octets the sink takes in all, and the fault beyond. Behind the first octet a
call takes no more than its `portion`, given what was taken before and how much more is on offer. -/
structure Sink where
  taken : Bytes := []
  limit : Option (Nat × StreamFault) := none
  flushFault : Option StreamFault := none
  portion : Bytes → Nat → Nat := fun _ offered => offered

namespace Sink

/-- One call: takes the first octet and so many more, or fails where there is no room. -/
def offer (sink : Sink) (first : UInt8) (more : Bytes) : Sink × Except StreamFault Nat :=
  let take (n : Nat) := ({ sink with taken := sink.taken ++ first :: more.take n }, .ok n)
  let portion := min (sink.portion sink.taken more.length) more.length
  match sink.limit with
  | none => take portion
  | some (limit, fault) =>
    match limit - sink.taken.length with
    | 0 => (sink, .error fault)
    | room + 1 => take (min portion room)

/-- Calls until everything is taken. -/
def writeAll (sink : Sink) : Bytes → Sink × Except StreamFault Unit
  | [] => (sink, .ok ())
  | first :: more =>
    match sink.offer first more with
    | (sink, .error fault) => (sink, .error fault)
    | (sink, .ok n) => writeAll sink (more.drop n)
termination_by bytes => bytes.length

/-- What all calls come to. -/
def write (sink : Sink) (bytes : Bytes) : Sink × Except StreamFault Unit :=
  match sink.limit with
  | none => ({ sink with taken := sink.taken ++ bytes }, .ok ())
  | some (limit, fault) =>
    let room := limit - sink.taken.length
    if bytes.length ≤ room then ({ sink with taken := sink.taken ++ bytes }, .ok ())
    else ({ sink with taken := sink.taken ++ bytes.take room }, .error fault)

def flush (sink : Sink) : Except StreamFault Unit :=
  match sink.flushFault with
  | some fault => .error fault
  | none => .ok ()

/-- Writes one complete output, or nothing if there is none. -/
def save (sink : Sink) (output : Except Failure Bytes) : Sink × Except Failure Unit :=
  match output with
  | .error failure => (sink, .error failure)
  | .ok bytes =>
    match sink.write bytes with
    | (sink, .error fault) => (sink, .error (.ofStream "Failed to write XML" fault))
    | (sink, .ok ()) =>
      match sink.flush with
      | .error fault => (sink, .error (.ofStream "Failed to write XML" fault))
      | .ok () => (sink, .ok ())

/-- Writes outputs one after another, up to the first failure. -/
def saveAll (sink : Sink) : List (Except Failure Bytes) → Sink × Except Failure Unit
  | [] => (sink, .ok ())
  | output :: rest =>
    match sink.save output with
    | (sink, .error failure) => (sink, .error failure)
    | (sink, .ok ()) => saveAll sink rest

end Sink

end PlanArchive
