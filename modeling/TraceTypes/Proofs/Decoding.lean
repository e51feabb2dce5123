import TraceTypes.Proofs.LawfulSink
/-!
# Reading a stream back

Nothing in a stream says how long a record is, or how many records a segment
has. A reader can tell all the same: what stands next is decided by the bytes
read so far, so headers and records can be taken off the front one by one.

* `Decoder`, `Reads` — a decoder reads a value from some bytes if it takes just
  these bytes off the front, whatever comes behind them;
* `reads_varint`, `reads_string`, `reads_fields`, `reads_item` — there is a
  decoder for each part of the byte form, up to the header or record that
  stands next;
* `encodeStream_decodable` — the streams of the library can be read back, so two
  streams with the same bytes are the same.
-/

namespace TraceTypes.Checkpoint

/-! ## Decoders -/

/-- A decoder takes a value off the front of the bytes, or fails. -/
abbrev Decoder := StateT (List UInt8) Option

/-- The decoder reads the value from these bytes, and leaves what is behind them. -/
def Reads {α : Type} (d : Decoder α) (bytes : List UInt8) (v : α) : Prop :=
  ∀ rest, d (bytes ++ rest) = some (v, rest)

namespace Reads

variable {α β : Type} {d : Decoder α} {f : α → Decoder β} {bytes bytes' : List UInt8} {v v' : α}
  {u : β}

theorem pure (v : α) : Reads (pure v) [] v := fun _ => rfl

theorem bind (h : Reads d bytes v) (h' : Reads (f v) bytes' u) :
    Reads (d >>= f) (bytes ++ bytes') u := by
  intro rest
  show (d (bytes ++ bytes' ++ rest)).bind _ = _
  rw [List.append_assoc, h]
  exact h' rest

/-- The last thing that is read, before the value is built. -/
theorem last (h : Reads d bytes v) (h' : Reads (f v) [] u) : Reads (d >>= f) bytes u := by
  have := h.bind h'
  rwa [List.append_nil] at this

/-- What one decoder reads from the front is settled by the bytes. -/
theorem unique {s s' : List UInt8} (h : Reads d bytes v) (h' : Reads d bytes' v')
    (heq : bytes ++ s = bytes' ++ s') : v = v' ∧ s = s' := by
  have hs := h s
  rw [heq, h' s', Option.some.injEq, Prod.mk.injEq] at hs
  exact ⟨hs.1.symm, hs.2.symm⟩

end Reads

/-! ## Numbers, texts and options -/

/-- Read a byte. -/
def readByte : Decoder UInt8
  | [] => none
  | x :: rest => some (x, rest)

/-- Read a variable-length number. -/
def readVarint : Decoder Nat
  | [] => none
  | x :: rest =>
    if x.toNat < 128 then some (x.toNat, rest)
    else (readVarint rest).map fun p => (x.toNat - 128 + 128 * p.1, p.2)

/-- Read so many bytes. -/
def readBytes (n : Nat) : Decoder (List UInt8) := fun bytes =>
  if n ≤ bytes.length then some (bytes.take n, bytes.drop n) else none

/-- Read an optional id. -/
def readOptionalId : Decoder (Option TraceId) := do
  match ← readVarint with
  | 0 => pure none
  | id + 1 => pure (some id)

/-- Read a truth value. -/
def readFlag : Decoder Bool := do
  match ← readByte with
  | 0 => pure false
  | 1 => pure true
  | _ => failure

/-- Read two truth values that share a byte. -/
def readFlags : Decoder (Bool × Bool) := do
  match ← readByte with
  | 0 => pure (false, false)
  | 1 => pure (true, false)
  | 2 => pure (false, true)
  | 3 => pure (true, true)
  | _ => failure

/-- Read a string. -/
def readString : Decoder String := do
  let bytes ← readBytes (← readVarint)
  match String.fromUTF8? ⟨bytes.toArray⟩ with
  | some s => pure s
  | none => failure

/-- Read an optional value behind its presence byte. -/
def readOptional {α : Type} (d : Decoder α) : Decoder (Option α) := do
  match ← readFlag with
  | false => pure none
  | true =>
    let v ← d
    pure (some v)

theorem reads_byte (x : UInt8) : Reads readByte [x] x := fun _ => rfl

theorem reads_varint (n : Nat) : Reads readVarint (varint n) n := by
  induction n using Nat.strongRecOn with
  | ind n ih =>
      intro rest
      rw [varint]
      split
      · rename_i hn
        have hbyte : (UInt8.ofNat n).toNat = n := by
          rw [UInt8.toNat_ofNat']
          omega
        show readVarint (UInt8.ofNat n :: rest) = _
        rw [readVarint, hbyte, if_pos hn]
      · rename_i hn
        -- the low digit is marked, and the other digits are a smaller number
        have hbyte : (UInt8.ofNat (n % 128 + 128)).toNat = n % 128 + 128 := by
          rw [UInt8.toNat_ofNat']
          omega
        show readVarint (UInt8.ofNat (n % 128 + 128) :: (varint (n / 128) ++ rest)) = _
        rw [readVarint, hbyte, if_neg (by omega), ih (n / 128) (by omega)]
        show some (n % 128 + 128 - 128 + 128 * (n / 128), rest) = some (n, rest)
        rw [Nat.add_sub_cancel, Nat.mod_add_div]

theorem reads_bytes (bytes : List UInt8) : Reads (readBytes bytes.length) bytes bytes := by
  intro rest
  rw [readBytes, if_pos (by simp), List.take_left, List.drop_left]

theorem reads_optionalId : ∀ id, Reads readOptionalId (optionalId id) id
  | none => (reads_varint 0).last (.pure none)
  | some id => (reads_varint (id + 1)).last (.pure (some id))

theorem reads_flag : ∀ b, Reads readFlag [flag b] b
  | false => (reads_byte 0).last (.pure false)
  | true => (reads_byte 1).last (.pure true)

theorem reads_flags : ∀ a b, Reads readFlags [flag a + 2 * flag b] (a, b)
  | false, false => (reads_byte 0).last (.pure (false, false))
  | true, false => (reads_byte 1).last (.pure (true, false))
  | false, true => (reads_byte 2).last (.pure (false, true))
  | true, true => (reads_byte 3).last (.pure (true, true))

theorem fromUTF8?_toUTF8 (s : String) : String.fromUTF8? s.toUTF8 = some s := by
  rw [String.fromUTF8?, String.toUTF8_eq_toByteArray, dif_pos s.isValidUTF8]
  rfl

theorem reads_string (s : String) : Reads readString (string s) s := by
  have hlength : s.utf8ByteSize = s.toUTF8.data.toList.length := by simp
  have hbytes := reads_bytes s.toUTF8.data.toList
  rw [← hlength] at hbytes
  refine (reads_varint _).bind (hbytes.last ?_)
  have htext : String.fromUTF8? ⟨s.toUTF8.data.toList.toArray⟩ = some s := fromUTF8?_toUTF8 s
  rw [htext]
  exact .pure s

theorem reads_optional {α : Type} {d : Decoder α} {encode : α → List UInt8}
    (h : ∀ v, Reads d (encode v) v) : ∀ v, Reads (readOptional d) (optional encode v) v
  | none => (reads_flag false).last (.pure none)
  | some v => (reads_flag true).bind ((h v).last (.pure (some v)))

/-! ## Headers and records -/

/-- Read the kind of a segment. -/
def readKind : Decoder SegmentKind := do
  match ← readByte with
  | 0 => pure .typeSet
  | 1 => pure .classUnload
  | 2 => pure .leakProfiler
  | _ => failure

/-- Read a header behind its marker byte. -/
def readHeaderFields : Decoder Header := do
  let kind ← readKind
  let generation ← readVarint
  let flushpoint ← readFlag
  pure ⟨kind, generation, flushpoint⟩

/-- Read the fields behind the tag and the id of a record. -/
def readFields (tag : UInt8) (id : TraceId) : Decoder Record :=
  match tag with
  | 1 => do
    let text ← readString
    pure (.symbol id text)
  | 2 => do
    let name ← readOptionalId
    let typeName ← readVarint
    pure (.classLoader id name typeName)
  | 3 => do
    let name ← readVarint
    let version ← readOptionalId
    let location ← readOptionalId
    pure (.module id name version location)
  | 4 => do
    let name ← readVarint
    let owner ← readOptionalId
    let exported ← readFlag
    pure (.package id name owner exported)
  | 5 => do
    let name ← readVarint
    let loader ← readVarint
    let package ← readOptionalId
    let superclass ← readOptionalId
    let element ← readOptionalId
    let modifiers ← readVarint
    let flags ← readFlags
    pure (.cls id name loader package superclass element modifiers flags.1 flags.2)
  | 6 => do
    let holder ← readVarint
    let name ← readVarint
    let descriptor ← readVarint
    let modifiers ← readVarint
    let hidden ← readFlag
    pure (.method id holder name descriptor modifiers hidden)
  | 7 => do
    let name ← readVarint
    let osThreadId ← readVarint
    let managedThreadId ← readOptional readVarint
    pure (.thread id name osThreadId managedThreadId)
  | 8 => do
    let name ← readString
    let loader ← readOptionalId
    let loaderName ← readOptional readString
    pure (.unloadedClass id name loader loaderName)
  | 9 => do
    let name ← readString
    let loaderName ← readString
    pure (.leakClass id name loaderName)
  | _ => failure

/-- What stands in a stream: the header that opens a segment, or a record. -/
abbrev Item := Header ⊕ Record

/-- The bytes of an item. -/
def encodeItem : Item → List UInt8
  | .inl h => encodeHeader h
  | .inr r => encodeRecord r

/-- Read the item that stands next; its first byte says which of the two it is. -/
def readItem : Decoder Item := do
  let first ← readByte
  if first = segmentMarker then
    let h ← readHeaderFields
    pure (.inl h)
  else
    let id ← readVarint
    let r ← readFields first id
    pure (.inr r)

theorem reads_kind : ∀ k : SegmentKind, Reads readKind [UInt8.ofNat k.code] k
  | .typeSet => (reads_byte 0).last (.pure _)
  | .classUnload => (reads_byte 1).last (.pure _)
  | .leakProfiler => (reads_byte 2).last (.pure _)

/-- The fields of a record can be read once its tag and id are known. -/
theorem reads_fields (r : Record) :
    Reads (readFields (UInt8.ofNat r.tag) r.id) (encodeFields r) r := by
  cases r with
  | symbol id text => exact (reads_string text).last (.pure _)
  | classLoader id name typeName =>
      exact (reads_optionalId name).bind ((reads_varint typeName).last (.pure _))
  | module id name version location =>
      show Reads _ (varint name ++ optionalId version ++ optionalId location) _
      rw [List.append_assoc]
      exact (reads_varint name).bind
        ((reads_optionalId version).bind ((reads_optionalId location).last (.pure _)))
  | package id name owner exported =>
      show Reads _ (varint name ++ optionalId owner ++ [flag exported]) _
      rw [List.append_assoc]
      exact (reads_varint name).bind
        ((reads_optionalId owner).bind ((reads_flag exported).last (.pure _)))
  | cls id name loader package superclass element modifiers hidden unloading =>
      show Reads _ (varint name ++ varint loader ++ optionalId package ++ optionalId superclass
        ++ optionalId element ++ varint modifiers ++ [flag hidden + 2 * flag unloading]) _
      simp only [List.append_assoc]
      exact (reads_varint name).bind ((reads_varint loader).bind ((reads_optionalId package).bind
        ((reads_optionalId superclass).bind ((reads_optionalId element).bind
          ((reads_varint modifiers).bind ((reads_flags hidden unloading).last (.pure _)))))))
  | method id holder name descriptor modifiers hidden =>
      show Reads _ (varint holder ++ varint name ++ varint descriptor ++ varint modifiers
        ++ [flag hidden]) _
      simp only [List.append_assoc]
      exact (reads_varint holder).bind ((reads_varint name).bind ((reads_varint descriptor).bind
        ((reads_varint modifiers).bind ((reads_flag hidden).last (.pure _)))))
  | thread id name osThreadId managedThreadId =>
      show Reads _ (varint name ++ varint osThreadId ++ optional varint managedThreadId) _
      rw [List.append_assoc]
      exact (reads_varint name).bind ((reads_varint osThreadId).bind
        ((reads_optional reads_varint managedThreadId).last (.pure _)))
  | unloadedClass id name loader loaderName =>
      show Reads _ (string name ++ optionalId loader ++ optional string loaderName) _
      rw [List.append_assoc]
      exact (reads_string name).bind ((reads_optionalId loader).bind
        ((reads_optional reads_string loaderName).last (.pure _)))
  | leakClass id name loaderName =>
      exact (reads_string name).bind ((reads_string loaderName).last (.pure _))

/-- No record begins with the marker of a segment. -/
theorem tag_ne_segmentMarker (r : Record) : UInt8.ofNat r.tag ≠ segmentMarker := by
  cases r <;> exact of_decide_eq_true rfl

/-- What stands next in a stream can be read, be it a header or a record. -/
theorem reads_item : ∀ x : Item, Reads readItem (encodeItem x) x
  | .inl h => by
      refine Reads.bind (reads_byte segmentMarker) ?_
      rw [if_pos rfl]
      refine Reads.last (v := h) ?_ (.pure _)
      exact (reads_kind h.kind).bind
        ((reads_varint h.generation).bind ((reads_flag h.flushpoint).last (.pure h)))
  | .inr r => by
      refine Reads.bind (reads_byte (UInt8.ofNat r.tag)) ?_
      rw [if_neg (tag_ne_segmentMarker r)]
      exact (reads_varint r.id).bind ((reads_fields r).last (.pure _))

/-! ## Streams -/

/-- The items of a stream of segments. -/
def items (l : List Transcript) : List Item := l.flatMap fun x => .inl x.1 :: x.2.map .inr

/-- The bytes of a stream of segments: each header, and the records behind it. -/
def encodeStream (l : List Transcript) : List UInt8 :=
  l.flatMap fun x => encodeHeader x.1 ++ x.2.flatMap encodeRecord

/-- Read items until the bytes end. Each has to take at least a byte. -/
def readItems (bytes : List UInt8) : Option (List Item) :=
  match bytes with
  | [] => some []
  | first :: behind =>
    match readItem (first :: behind) with
    | none => none
    | some (x, rest) =>
      if rest.length ≤ behind.length then (readItems rest).map (x :: ·) else none
  termination_by bytes.length

/-- Split items into segments, which their headers open. The records in front of the first header
are left over. -/
def split : List Item → List Record × List Transcript
  | [] => ([], [])
  | .inl h :: rest => ([], (h, (split rest).1) :: (split rest).2)
  | .inr r :: rest => (r :: (split rest).1, (split rest).2)

/-- Read a stream of segments. -/
def decodeStream (bytes : List UInt8) : Option (List Transcript) :=
  match (readItems bytes).map split with
  | some ([], l) => some l
  | _ => none

theorem encodeItem_ne_nil : ∀ x : Item, encodeItem x ≠ []
  | .inl _ | .inr _ => List.cons_ne_nil _ _

theorem readItems_encode (l : List Item) : readItems (l.flatMap encodeItem) = some l := by
  induction l with
  | nil => rw [List.flatMap_nil, readItems]
  | cons x rest ih =>
      rw [List.flatMap_cons]
      have hread := reads_item x (rest.flatMap encodeItem)
      cases hbytes : encodeItem x with
      | nil => exact absurd hbytes (encodeItem_ne_nil x)
      | cons first behind =>
          rw [hbytes] at hread
          rw [List.cons_append] at hread ⊢
          rw [readItems, hread]
          dsimp only
          rw [if_pos (by simp), ih]
          rfl

theorem split_append_records (l : List Record) (rest : List Item) :
    split (l.map Sum.inr ++ rest) = (l ++ (split rest).1, (split rest).2) := by
  induction l with
  | nil => rfl
  | cons r l ih => rw [List.map_cons, List.cons_append, split, ih]; rfl

theorem split_items (l : List Transcript) : split (items l) = ([], l) := by
  induction l with
  | nil => rfl
  | cons x rest ih =>
      show split (.inl x.1 :: (x.2.map Sum.inr ++ items rest)) = _
      rw [split, split_append_records, ih, List.append_nil]

theorem encodeStream_eq (l : List Transcript) :
    encodeStream l = (items l).flatMap encodeItem := by
  unfold encodeStream items
  rw [List.flatMap_assoc]
  congr 1
  funext x
  rw [List.flatMap_cons, List.flatMap_map]
  rfl

theorem decodeStream_encodeStream (l : List Transcript) :
    decodeStream (encodeStream l) = some l := by
  rw [decodeStream, encodeStream_eq, readItems_encode, Option.map_some, split_items]

end TraceTypes.Checkpoint

/-! ## What a segment log holds -/

namespace TraceTypes

open Checkpoint

/-- The bytes of the segment are those of its header and records. -/
def Segment.Encoded (s : Segment) : Prop :=
  s.bytes = encodeHeader s.header ++ s.records.flatMap encodeRecord

namespace SegmentLog

/-- A log that started empty and has taken calls since, whatever came of them. -/
inductive Taken : SegmentLog → Prop
  | create (limit : Option Nat) : Taken { limit := limit }
  | openSegment {w : SegmentLog} (h : Header) :
      Taken w → Taken (endState (SegmentLog.openSegment h w))
  | append {w : SegmentLog} (r : Record) : Taken w → Taken (endState (SegmentLog.append r w))
  | commit {w : SegmentLog} : Taken w → Taken (endState (SegmentLog.commit w))
  | discard {w : SegmentLog} : Taken w → Taken w.discard
  | clear {w : SegmentLog} : Taken w → Taken w.clear
  | relimit {w : SegmentLog} (limit : Option Nat) : Taken w → Taken { w with limit := limit }

/-- The bytes of all committed segments, oldest first. -/
def bytes (w : SegmentLog) : List UInt8 := w.segments.flatMap Segment.bytes

/-- The bytes of a log are always those of its headers and records. -/
theorem Taken.encoded {w : SegmentLog} (h : w.Taken) :
    (∀ s ∈ w.segments, s.Encoded) ∧ ∀ s, w.pending = some s → s.Encoded := by
  have hnone {P : Segment → Prop} : ∀ s, none = some s → P s := by
    intro s hs
    cases hs
  induction h with
  | create => exact ⟨fun _ hs => absurd hs List.not_mem_nil, hnone⟩
  | @openSegment w h _ ih =>
      cases hcall : SegmentLog.openSegment h w with
      | error e w' =>
          rw [eq_of_openSegment_error hcall]
          exact ih
      | ok u w' =>
          obtain ⟨-, -, rfl⟩ := openSegment_ok_iff.mp hcall
          refine ⟨ih.1, ?_⟩
          intro s hs
          cases hs
          exact (List.append_nil _).symm
  | @append w r _ ih =>
      cases hcall : SegmentLog.append r w with
      | error e w' =>
          rw [eq_of_append_error hcall]
          exact ih
      | ok n w' =>
          obtain ⟨p, hp, -, -, rfl⟩ := append_ok_iff.mp hcall
          refine ⟨ih.1, ?_⟩
          intro s hs
          cases hs
          have hbytes : p.bytes = encodeHeader p.header ++ p.records.flatMap encodeRecord :=
            ih.2 p hp
          show p.bytes ++ encodeRecord r = encodeHeader p.header ++ (p.records ++ [r]).flatMap _
          rw [hbytes, List.flatMap_append, List.flatMap_singleton, List.append_assoc]
  | @commit w _ ih =>
      cases hcall : SegmentLog.commit w with
      | error e w' =>
          rw [eq_of_commit_error hcall]
          exact ih
      | ok n w' =>
          obtain ⟨p, hp, -, rfl⟩ := commit_ok_iff.mp hcall
          refine ⟨?_, hnone⟩
          intro s hs
          rcases List.mem_append.mp hs with hs | hs
          · exact ih.1 s hs
          · rw [List.mem_singleton.mp hs]
            exact ih.2 p hp
  | discard _ ih => exact ⟨ih.1, hnone⟩
  | clear _ ih => exact ⟨fun _ hs => absurd hs List.not_mem_nil, ih.2⟩
  | relimit _ _ ih => exact ih

/-- So the bytes of a log are the stream of its committed segments. -/
theorem Taken.bytes_eq {w : SegmentLog} (h : w.Taken) : w.bytes = encodeStream (committed w) := by
  show w.segments.flatMap _ = (w.segments.map fun s => (s.header, s.records)).flatMap _
  rw [List.flatMap_map, List.flatMap_def, List.flatMap_def, List.map_congr_left h.encoded.1]

end SegmentLog

/-! ## The byte form is lossless -/

/-- Streams of segments can be read back from their bytes: two streams with the same bytes are the
same, a record's bytes are no prefix of another record's, a header cannot be mistaken for a record,
and what a log has committed is what is read from its bytes. This holds for all record types, texts
and ids. -/
theorem encodeStream_decodable :
    (∀ l l', encodeStream l = encodeStream l' → l = l') ∧
    (∀ r r' s s', encodeRecord r ++ s = encodeRecord r' ++ s' → r = r' ∧ s = s') ∧
    (∀ h r s s', encodeHeader h ++ s ≠ encodeRecord r ++ s') ∧
    (∀ l, decodeStream (encodeStream l) = some l) ∧
    (∀ w : SegmentLog, w.Taken → decodeStream w.bytes = some (committed w)) := by
  refine ⟨?_, ?_, ?_, decodeStream_encodeStream, ?_⟩
  · intro l l' heq
    have h := decodeStream_encodeStream l
    rw [heq, decodeStream_encodeStream l', Option.some.injEq] at h
    exact h.symm
  · intro r r' s s' heq
    obtain ⟨hitem, hs⟩ := (reads_item (.inr r)).unique (reads_item (.inr r')) heq
    exact ⟨Sum.inr.inj hitem, hs⟩
  · intro h r s s' heq
    have hitem := ((reads_item (.inl h)).unique (reads_item (.inr r)) heq).1
    cases hitem
  · intro w hw
    rw [hw.bytes_eq, decodeStream_encodeStream]

/-- A log with a segment of two records, one of them with an optional id of zero. -/
def sampleStored : SegmentLog :=
  endState (SegmentLog.commit
    (endState (SegmentLog.append (.classLoader 300 (some 0) 7)
      (endState (SegmentLog.append (.symbol 7 "L")
        (endState (SegmentLog.openSegment ⟨.typeSet, 2, false⟩ {})))))))

theorem encodeStream_decodable_sample :
    sampleStored.bytes = [0xC7, 0, 2, 0, 1, 7, 1, 76, 2, 172, 2, 1, 7] ∧
    decodeStream [0xC7, 0, 2, 0, 1, 7, 1, 76, 2, 172, 2, 1, 7] =
      some [(⟨.typeSet, 2, false⟩, [.symbol 7 "L", .classLoader 300 (some 0) 7])] := by
  have hbytes : sampleStored.bytes = [0xC7, 0, 2, 0, 1, 7, 1, 76, 2, 172, 2, 1, 7] := by
    decide +kernel
  have htaken : sampleStored.Taken :=
    .commit (.append _ (.append _ (.openSegment _ (.create none))))
  refine ⟨hbytes, ?_⟩
  rw [← hbytes]
  exact encodeStream_decodable.2.2.2.2 sampleStored htaken

end TraceTypes
