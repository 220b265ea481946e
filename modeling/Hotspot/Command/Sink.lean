import Hotspot.Error
import Hotspot.Highlight.Writer
import Hotspot.Text.Utf8

/-!
A place that output is written to and that may run full. It takes bytes until
there is no room for another one, so what it holds is always a beginning of
what was written.
-/

namespace Hotspot

structure Sink where
  /-- The number of bytes that still fit, or no bound. -/
  room : Option Nat
  failsToFlush : Bool
  accepted : List UInt8
deriving DecidableEq

namespace Sink

def diskFull : FileFault := .other "disk full"
def flushFailed : FileFault := .other "flush failed"

/-- Takes as much of a text as fits. -/
def write (s : Sink) (text : String) : Except FileFault Unit × Sink :=
  let bytes := Text.encode text
  match s.room with
  | none => (.ok (), { s with accepted := s.accepted ++ bytes })
  | some room =>
    let taken := bytes.take room
    let s := { s with room := some (room - taken.length), accepted := s.accepted ++ taken }
    (if room < bytes.length then .error diskFull else .ok (), s)

def flush (s : Sink) : Except FileFault Unit :=
  if s.failsToFlush then .error flushFailed else .ok ()

/-- Writes results one after the other and flushes, up to the first fault. -/
def writeAll (format : OutputFormat) : List FileHighlights → Sink → Except FileFault Unit × Sink
  | [], s => (s.flush, s)
  | result :: results, s =>
    match s.write (result.write format) with
    | (.ok (), s) => writeAll format results s
    | (.error fault, s) => (.error fault, s)

end Sink

end Hotspot
