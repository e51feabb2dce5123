import TraceTypes.Checkpoint.Segment
import TraceTypes.Checkpoint.Varint
/-!
# The byte form of headers and records

A record is its tag, its own id and its other fields in order. Numbers are
variable-length. An optional id is written as its successor, with zero for
none; any other optional value has a byte in front that says whether it is
there. A string is the number of its UTF-8 bytes and the bytes. A header is a
marker byte, the kind, the generation and the flushpoint byte.
-/

namespace TraceTypes.Checkpoint

/-- The byte that opens a segment. No record begins with it. -/
def segmentMarker : UInt8 := 0xC7

/-- One byte for a truth value. -/
def flag (b : Bool) : UInt8 := if b then 1 else 0

/-- An optional id: zero for none, else the successor. -/
def optionalId : Option TraceId → List UInt8
  | none => varint 0
  | some id => varint (id + 1)

/-- A string: its length in bytes, then its UTF-8 bytes. -/
def string (s : String) : List UInt8 := varint s.utf8ByteSize ++ s.toUTF8.data.toList

/-- An optional value with a presence byte. -/
def optional {α : Type} (encode : α → List UInt8) : Option α → List UInt8
  | none => [flag false]
  | some v => flag true :: encode v

/-- The bytes of a segment header. -/
def encodeHeader (h : Header) : List UInt8 :=
  segmentMarker :: UInt8.ofNat h.kind.code :: (varint h.generation ++ [flag h.flushpoint])

/-- The bytes of a record's fields behind its id. -/
def encodeFields : Record → List UInt8
  | .symbol _ text => string text
  | .classLoader _ name typeName => optionalId name ++ varint typeName
  | .module _ name version location => varint name ++ optionalId version ++ optionalId location
  | .package _ name owner exported => varint name ++ optionalId owner ++ [flag exported]
  | .cls _ name loader package superclass element modifiers hidden unloading =>
    varint name ++ varint loader ++ optionalId package ++ optionalId superclass
      ++ optionalId element ++ varint modifiers ++ [flag hidden + 2 * flag unloading]
  | .method _ holder name descriptor modifiers hidden =>
    varint holder ++ varint name ++ varint descriptor ++ varint modifiers ++ [flag hidden]
  | .thread _ name osThreadId managedThreadId =>
    varint name ++ varint osThreadId ++ optional varint managedThreadId
  | .unloadedClass _ name loader loaderName =>
    string name ++ optionalId loader ++ optional string loaderName
  | .leakClass _ name loaderName => string name ++ string loaderName

/-- The bytes of a record. -/
def encodeRecord (r : Record) : List UInt8 :=
  UInt8.ofNat r.tag :: (varint r.id ++ encodeFields r)

end TraceTypes.Checkpoint
