import HaxeBackend.Json.Writer

/-!
# Source maps

A source map tells for generated lines which line of which source they come from.  In its written form there is a
`;` for each generated line that ends, and a segment of four numbers for a mapped line: the column, the source, the
line and the source column, the middle two relative to the segment before.  Numbers are written in base 64 with the
sign in the lowest bit, five bits to a digit, least significant first, and a sixth bit on all digits but the last.
-/

namespace HaxeBackend.Target

/-- A generated line, counted from zero, with a source by its position and a line counted from one. -/
structure MapEntry where
  generated : Nat
  source : Nat
  line : Nat
  deriving DecidableEq, Repr

structure SourceMap where
  file : String
  sources : List String
  /-- In the order of recording, at most one for each generated line. -/
  entries : List MapEntry := []
  deriving DecidableEq, Repr

/-! ### Numbers in base 64 -/

def digits64 : List Char :=
  "ABCDEFGHIJKLMNOPQRSTUVWXYZabcdefghijklmnopqrstuvwxyz0123456789+/".toList

def digit64 (n : Nat) : Char := digits64.getD n 'A'

/-- The digits of a number, five bits each. -/
def groups64 (n : Nat) : List Char :=
  if n < 32 then [digit64 n] else digit64 (32 + n % 32) :: groups64 (n / 32)

/-- A signed number. -/
def encodeVlq (value : Int) : List Char :=
  groups64 (if value < 0 then 2 * value.natAbs + 1 else 2 * value.natAbs)

namespace SourceMap

/-- Records an entry; the first one of each generated line counts. -/
def record (m : SourceMap) (e : MapEntry) : SourceMap :=
  if m.entries.any fun old => old.generated == e.generated then m
  else { m with entries := m.entries ++ [e] }

def isEmpty (m : SourceMap) : Bool := m.entries.isEmpty

/-- The written line of an entry, counted from zero. -/
def lineIndex (e : MapEntry) : Nat := e.line - 1

/-- The segment of an entry behind another one. -/
def segment (source line : Nat) (e : MapEntry) : List Char :=
  encodeVlq 0 ++ encodeVlq ((e.source : Int) - source) ++ encodeVlq ((lineIndex e : Int) - line) ++ encodeVlq 0

/-- The segments of entries in the order of their lines, after `current` lines, a segment with this source and line
being the last. -/
def segments (current source line : Nat) : List MapEntry → List Char
  | [] => []
  | e :: rest =>
    List.replicate (e.generated - current) ';' ++ segment source line e ++
      segments e.generated e.source (lineIndex e) rest

/-- The `mappings` text. -/
def mappings (m : SourceMap) : String :=
  String.ofList (segments 0 0 0 (m.entries.mergeSort fun a b => a.generated ≤ b.generated))

/-- The map as a JSON text. -/
def json (m : SourceMap) : String :=
  (Json.record
    [("version", .int 3), ("file", .text m.file), ("sources", .array (m.sources.map .text)),
      ("names", .array []), ("mappings", .text m.mappings)]).render

end SourceMap

end HaxeBackend.Target
