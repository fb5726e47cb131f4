import Watershed.Fault

/-!
# Sinks

A sink takes the output of a simulation byte by byte. One with a capacity takes exactly so many
bytes and refuses the next one, so a text may be cut inside a character.
-/

set_option autoImplicit false

namespace Watershed

/-- How many bytes a sink takes, and what it says when it refuses one. -/
structure Sink.Limit where
  capacity : Nat
  refusal : String
deriving DecidableEq

/-- Where output goes, with the bytes taken so far. -/
structure Sink where
  taken : ByteArray
  limit : Option Sink.Limit

namespace Sink

/-- A sink that has taken nothing and never refuses. -/
def unlimited : Sink :=
  ⟨ByteArray.empty, none⟩

/-- A sink that has taken nothing and takes a limited number of bytes. -/
def limited (limit : Limit) : Sink :=
  ⟨ByteArray.empty, some limit⟩

/-- Writes a text, on behalf of a line. If the sink refuses a byte of it, the bytes before are
taken all the same. -/
def write : Sink → (text : String) → (line : Nat) → Sink × Option Fault
  | ⟨taken, none⟩, text, _ => (⟨taken ++ text.toUTF8, none⟩, none)
  | ⟨taken, some limit⟩, text, line =>
    let bytes := taken ++ text.toUTF8
    if bytes.size ≤ limit.capacity then (⟨bytes, some limit⟩, none)
    else (⟨bytes.extract 0 limit.capacity, some limit⟩, some (.refusedOutput limit.refusal line))

end Sink

end Watershed
