import Handover.Attr.Lengths
import Handover.Graph.Record
import Handover.Storage.Encoding
import Handover.Tensor.Arrangement

/-!
# Stored weights

The weights of a graph are stored one after the other (`Graph.pack`), each row by row however it
stands in memory, and a manifest gives the offset, the size and the encoding of each. Floating-point
weights may be stored in another floating-point encoding than their own (`storageEncoding`), and
`loadWeight` brings a weight back to the type and the shape of its tensor.
-/

set_option autoImplicit false
set_option relaxedAutoImplicit false

namespace Handover

/-- The encoding of the elements of a tensor as they stand in memory. -/
def Strided.encoding (data : Strided) : Encoding :=
  { Encoding.ofElementType data.tensor.elementType with highestFirst := data.isReversed }

/-- The encoding in which elements are stored when a storage type is asked for. Only floating-point
elements change their own encoding, and only to one of floating-point numbers. -/
def storageEncoding (own : Encoding) (storage : Option String) : Result Encoding :=
  match storage with
  | none => .ok own
  | some name =>
    if !own.isReal then .ok own
    else do
      let stored ← Encoding.named name
      if stored.isReal then return stored
      else complains (.storageNotReal name)

/-! ### Packing -/

section Packing

/-- One weight as it is stored: the name of its constant, its place and its encoding. -/
structure ManifestEntry where
  name : String
  offset : Nat
  size : Nat
  encoding : Encoding
deriving DecidableEq, Repr

/-- Weights packed one after the other: the manifest and the bytes of each. -/
structure Packed where
  manifest : List ManifestEntry := []
  blobs : List (List UInt8) := []
  length : Nat := 0

/-- The packed weights with another one at the end. -/
def Packed.push (packed : Packed) (name : String) (encoding : Encoding) (bytes : List UInt8) :
    Packed where
  manifest := packed.manifest ++ [⟨name, packed.length, bytes.length, encoding⟩]
  blobs := packed.blobs ++ [bytes]
  length := packed.length + bytes.length

/-- The packed weights with a constant at the end, if its data is at hand. -/
def Packed.pushConstant (graph : Graph) (storage : Option String) (packed : Packed)
    (name : String) : Result Packed := do
  match (← graph.tensor name).buffer with
  | none => return packed
  | some buffer =>
    let encoding ← storageEncoding buffer.encoding storage
    return packed.push name encoding (buffer.tensor.toList.flatMap encoding.encode)

/-- The weights of the constants of a graph, in order. -/
def Graph.pack (graph : Graph) (storage : Option String) : Result Packed :=
  graph.constants.foldlM (Packed.pushConstant graph storage) {}

/-- An entry of the manifest as a record. -/
def ManifestEntry.toRecord (entry : ManifestEntry) : Attr :=
  .record [("offset", .int entry.offset), ("size", .int entry.size),
    ("dtype", .text entry.encoding.name)]

/-- A manifest as a record, in which a later entry of a name replaces an earlier one. -/
def manifestRecord (manifest : List ManifestEntry) : Attr :=
  .record (OrderedMap.ofList (manifest.map fun entry ↦ (entry.name, entry.toRecord))).entries

end Packing

/-! ### Unpacking -/

section Unpacking

/-- The bytes of the elements that are stored from an offset on: of a given number of them, or of
all that follow when the number is negative, which must then be whole. -/
def elementsAt (size : Nat) (bytes : List UInt8) (offset count : Int) :
    Result (List (List UInt8)) :=
  if offset < 0 ∨ (bytes.length : Int) < offset then fails .weightsOutOfRange
  else
    let rest := bytes.drop offset.toNat
    if count < 0 then
      if rest.length % size ≠ 0 then fails .weightsOutOfRange
      else .ok (Encoding.parts size (rest.length / size) rest)
    else if (rest.length : Int) < count * (size : Int) then fails .weightsOutOfRange
    else .ok (Encoding.parts size count.toNat rest)

/-- The number of elements of some bytes each that a size in bytes holds. A fraction of a byte makes
it a fraction too. -/
def elementCount (size : Attr) (byteCount : Nat) : Result (Option Int) :=
  match size with
  | .int _ | .bool _ | .real _ =>
    if byteCount = 0 then fails .divisionByZero
    else
      match size with
      | .real _ => .ok none
      | size => do return some (Int.fdiv (← size.asInteger) byteCount)
  | _ => fails .wrongKind

/-- An integer that fits 64 bits. -/
def requireHeld (number : Int) : Result Int :=
  if ElementType.int64.holds number then .ok number else fails .numberOutOfRange

/-- The shape of a tensor whose elements are stored in some bytes each. -/
def loadedShape (count byteCount : Nat) (lengths : List Int) : Result (List Nat) :=
  match Shape.resolve? count lengths with
  | some shape => if Shape.fits byteCount shape then .ok shape else fails .shapeMismatch
  | none => fails .shapeMismatch

/-- The element type of a tensor that is loaded, and whether its highest byte comes first. -/
def loadedType (name : String) (shape : List Nat) : Result (ElementType × Bool) := do
  let encoding ← Encoding.named name
  match encoding.kind with
  | .element t =>
    if Shape.fits t.byteCount shape then return (t, encoding.highestFirst)
    else fails .shapeMismatch
  | _ => fails .unknownElementType

/-- The weight of a tensor that an entry of a manifest describes, which stands row by row. -/
def loadWeight (info : TensorInfo) (entry : Attr) (bytes : List UInt8) : Result Strided := do
  let fields ← entry.fields
  let stored ← Encoding.ofAttr ((fields.find? "dtype").getD (.text info.elementType))
  let byteCount := stored.kind.byteCount
  let count? ← elementCount (← entry.entry "size") byteCount
  let offset ← entry.entry "offset"
  let count ←
    match count? with
    | some count => requireHeld count
    | none => fails .wrongKind
  let offset ← requireHeld (← offset.asInteger)
  if stored.kind = .reference then fails .weightsOutOfRange
  let elements ← elementsAt byteCount bytes offset count
  let lengths ← Attr.itemLengths info.shape
  let shape ← loadedShape elements.length byteCount lengths
  let (target, highestFirst) ← loadedType info.elementType shape
  let words ← elements.mapM (stored.decode target)
  match Tensor.ofElements? target shape words with
  | some tensor => return { Strided.ofTensor tensor with highestFirst }
  | none => fails .shapeMismatch

end Unpacking

end Handover
