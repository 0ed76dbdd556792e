import JvmCoverage.Field.Basic
/-!
# Sinks

A `Sink` takes the bytes of a report. It may have a capacity, and then it takes what still fits of
a field and refuses the rest; and it may refuse to be flushed. `Sink.writeAll` writes fields up to
the first that fails. Whatever happens, the sink keeps the bytes that reached it.
-/

set_option autoImplicit false
set_option relaxedAutoImplicit false

namespace JvmCoverage

/-- Where the bytes of a report go. -/
structure Sink where
  /-- The most bytes that the sink takes; without it there is no limit. -/
  capacity : Option Nat := none
  refusesFlush : Bool := false
  written : ByteArray := .empty
  deriving Inhabited

namespace Sink

/-- Takes the bytes that fit; it is an error when some do not. -/
def accept (sink : Sink) (bytes : List UInt8) : Sink × Except Failure Unit :=
  match sink.capacity with
  | none => ({ sink with written := sink.written ++ bytes.toByteArray }, .ok ())
  | some capacity =>
    let room := capacity - sink.written.size
    ({ sink with written := sink.written ++ (bytes.take room).toByteArray },
      if bytes.length ≤ room then .ok () else .error (.field .sinkFull))

/-- Writes one field. A field without encoded form leaves the sink as it is. -/
def write (sink : Sink) (field : Field) : Sink × Except Failure Unit :=
  match field.encode with
  | .ok bytes => sink.accept bytes
  | .error fault => (sink, .error (.field fault))

/-- Writes fields in order until one fails. -/
def writeAll (sink : Sink) : List Field → Sink × Except Failure Unit
  | [] => (sink, .ok ())
  | field :: rest =>
    match sink.write field with
    | (sink, .ok ()) => sink.writeAll rest
    | (sink, .error error) => (sink, .error error)

def flush (sink : Sink) : Except Failure Unit :=
  if sink.refusesFlush then .error (.storage .flushRefused) else .ok ()

end Sink

end JvmCoverage
