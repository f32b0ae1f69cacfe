import Stencil.Sink
import Stencil.WriteError

/-! Sinks that can refuse: a formatter with room for so many bytes, a stream that takes
bytes in portions, and a sink that refuses a stretch of what it is offered. -/

namespace Stencil

/-- Accepted text, and the room left for more; no number means without limit. -/
structure Room where
  text : String := ""
  left : Option Nat := none

def fits (size : Nat) : Option Nat → Bool
  | none => true
  | some left => size ≤ left

/-- Refuses a whole text that is longer than the room left. -/
def Sink.formatter : Sink Room WriteError where
  append s room :=
    if fits s.utf8ByteSize room.left then
      .done { text := room.text ++ s, left := room.left.map (· - s.utf8ByteSize) }
    else .failed .format room

/-- How a stream takes bytes: at most `portion` at a time, what it reports when it can take
none, and what goes wrong when it is flushed. -/
structure Stream where
  portion : Option Nat := none
  full : SystemFault := .brokenPipe
  flushFault : Option SystemFault := none

/-- Bytes taken, and the room left for more. -/
structure ByteRoom where
  bytes : List UInt8 := []
  left : Option Nat := none

def atMost (n : Nat) : Option Nat → Nat
  | none => n
  | some bound => min n bound

theorem atMost_le (n : Nat) (bound : Option Nat) : atMost n bound ≤ n := by
  cases bound with
  | none => exact Nat.le_refl n
  | some b => exact Nat.min_le_left n b

/-- Hands over the bytes portion by portion, until all are taken or none is. -/
def Stream.takeAll (stream : Stream) (bytes : List UInt8) (room : ByteRoom) :
    Outcome WriteError ByteRoom :=
  if bytes.isEmpty then .done room
  else
    let taken := atMost (atMost bytes.length stream.portion) room.left
    if taken = 0 then .failed (.system stream.full) room
    else stream.takeAll (bytes.drop taken)
      { bytes := room.bytes ++ bytes.take taken, left := room.left.map (· - taken) }
termination_by bytes.length
decreasing_by
  have : atMost (atMost bytes.length stream.portion) room.left ≤ bytes.length :=
    Nat.le_trans (atMost_le _ _) (atMost_le _ _)
  simp only [List.length_drop]
  omega

def Sink.stream (stream : Stream) : Sink ByteRoom WriteError where
  append s room := stream.takeAll s.toUTF8.toList room

/-- Flushes the stream, and gives back what it has taken. -/
def Stream.close (stream : Stream) (room : ByteRoom) : Outcome WriteError ByteRoom :=
  match stream.flushFault with
  | none => .done room
  | some fault => .failed (.system fault) room

/-- Accepted text, and the number of texts offered so far. -/
structure Tally where
  text : String := ""
  offered : Nat := 0

/-- Accepts `first` texts, refuses the next `refused`, or all of them, and accepts
again. -/
def Sink.interrupted (first : Nat) (refused : Option Nat) : Sink Tally WriteError where
  append s tally :=
    if tally.offered < first || !fits (tally.offered + 1 - first) refused then
      .done { text := tally.text ++ s, offered := tally.offered + 1 }
    else .failed (.system .other) { tally with offered := tally.offered + 1 }

end Stencil
