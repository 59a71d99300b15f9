-- SUMMARY: Destinations of bytes that may refuse what they are asked to take, and writing pieces until a refusal.
import DocLint.Text.Utf8

/-! # Sinks

A sink is asked to take pieces of text, one after another. For each request it
decides how many bytes it takes, so it may stop inside a character. A sink that takes
fewer than it is asked to has refused the request, and who asks goes no further. The
sink itself is free to take something again later.

A sink is a stream as its user gets to know it. A stream that is not open for writing
answers like one that takes everything, so it is one that does.
-/

namespace DocLint

namespace Sink

/-- A request that a sink has answered. -/
structure Request where
  /-- The bytes that it was asked to take. -/
  asked : Bytes
  /-- How many bytes it had room for. -/
  room : Nat
  deriving DecidableEq, Repr

namespace Request

/-- The bytes that were taken. -/
def taken (r : Request) : Bytes :=
  r.asked.take r.room

/-- Not everything was taken. -/
def isRefused (r : Request) : Bool :=
  r.room < r.asked.length

end Request

end Sink

/-- A destination of bytes. -/
structure Sink where
  /-- The requests so far, the latest one first. -/
  log : List Sink.Request := []
  /-- How many bytes there is room for, given the requests so far and what is asked. -/
  room : List Sink.Request → Bytes → Nat
  /-- The text of the error that a refusal is reported with. -/
  refusal : String

namespace Sink

/-- All the bytes that have been taken. -/
def bytes (sink : Sink) : Bytes :=
  sink.log.reverse.flatMap Request.taken

/-- The text of what has been taken. -/
def taken (sink : Sink) : String :=
  String.ofList (Text.Utf8.lossy sink.bytes)

/-- Some request was refused. -/
def hasRefused (sink : Sink) : Bool :=
  sink.log.any Request.isRefused

-- ---------------------------------------------------------------------------
-- Kinds of sinks
-- ---------------------------------------------------------------------------

def unlimited : Sink where
  room _ piece := piece.length
  refusal := ""

def closed (refusal : String) : Sink where
  room _ _ := 0
  refusal := refusal

def newline : UInt8 := 0x0A

/-- How many bytes there are up to the end of the `n`-th line. -/
def lineRoom : Nat → Bytes → Nat
  | 0, _ => 0
  | _ + 1, [] => 0
  | n + 1, b :: rest => 1 + lineRoom (if b = newline then n else n + 1) rest

/-- Takes the given number of complete lines and nothing after them. -/
def lines (limit : Nat) (refusal : String) : Sink where
  room log piece := lineRoom (limit - (log.flatMap Request.taken).count newline) piece
  refusal := refusal

-- ---------------------------------------------------------------------------
-- Writing
-- ---------------------------------------------------------------------------

/-- Asks a sink to take a piece, and says whether it took all of it. -/
def write (sink : Sink) (piece : String) : Sink × Bool :=
  let asked := Text.Utf8.encode piece.toList
  let request : Request := ⟨asked, sink.room sink.log asked⟩
  ({ sink with log := request :: sink.log }, !request.isRefused)

/-- Asks a sink to take pieces until it refuses one, and says whether it took all of
    them. -/
def writeAll (sink : Sink) : List String → Sink × Bool
  | [] => (sink, true)
  | piece :: rest =>
    match sink.write piece with
    | (sink, true) => sink.writeAll rest
    | (sink, false) => (sink, false)

/-- Goes on writing to a sink, unless it has not taken everything so far. -/
def writeOn : Sink × Bool → List String → Sink × Bool
  | (sink, true), pieces => sink.writeAll pieces
  | (sink, false), _ => (sink, false)

end Sink

end DocLint
