import Handover.Document.Reader
import Handover.Document.Writer
import Handover.Storage.Files
import Handover.Storage.Weights

/-!
# Stored graphs

A graph is stored in two files: a document with its record and a manifest of its weights, and a file
with the weights one after the other (`Graph.save`). `Graph.load` reads the document and brings each
weight that the manifest describes to its tensor. A weight file is written only when there are
weights, and a value that cannot be written leaves the document cut short.
-/

set_option autoImplicit false
set_option relaxedAutoImplicit false

namespace Handover

/-- The directory in which a graph is saved. The document is written first and may be cut short, and
then the weights are not written. -/
def Graph.save (graph : Graph) (files : Files) (stem : String) (storage : Option String) :
    Files × Result Unit :=
  match graph.pack storage with
  | .error err => (files, .error err)
  | .ok packed =>
    match Files.pathAt stem ".json" >>= Files.nameOf with
    | .error err => (files, .error err)
    | .ok documentName =>
      let record := .record (graph.recordFields ++ [("weights", manifestRecord packed.manifest)])
      let written := Document.writeDocument record
      let withDocument := files.insert documentName (.text (String.ofList written.text))
      match written.stopped with
      | some err => (withDocument, .error err)
      | none =>
        if packed.blobs.isEmpty then (withDocument, .ok ())
        else
          match Files.pathAt stem ".weights" >>= Files.nameOf with
          | .error err => (withDocument, .error err)
          | .ok weightsName =>
            (withDocument.insert weightsName (.bytes packed.blobs.flatten), .ok ())

/-- The graph with the weight of one entry of a manifest; an entry of no tensor of the graph does
not count. -/
def Graph.loadEntry (bytes : List UInt8) (graph : Graph) (entry : String × Attr) : Result Graph :=
  match graph.tensors.find? entry.1 with
  | none => .ok graph
  | some info => do
    let buffer ← loadWeight info entry.2 bytes
    return { graph with
      tensors := graph.tensors.insert entry.1 { info with buffer := some buffer } }

/-- The flaw of a call that reads a document with a flaw. -/
def documentFlaw : Document.Flaw → Flaw
  | .malformed => .malformedDocument
  | .integerTooLong => .integerTooLong
  | .tooDeep => .nestedTooDeep

/-- The value that a stored document writes. -/
def readStored (content : Content) : Result Attr :=
  match content.toText? with
  | none => fails .malformedText
  | some text =>
    match Document.readDocument text with
    | .ok value => .ok value
    | .error flaw => fails (documentFlaw flaw)

/-- The graph saved in a directory. Without a weight file its constants have no data. -/
def Graph.load (files : Files) (stem : String) : Result Graph := do
  let documentName ← Files.nameOf (← Files.pathAt stem ".json")
  let record ← readStored (← files.read documentName)
  let graph ← Graph.ofRecord record
  let weightsName ← Files.nameOf (← Files.pathAt stem ".weights")
  let manifest := ((← record.fields).find? "weights").getD (.record [])
  match files.find? weightsName with
  | none => return graph
  | some weights =>
    if manifest.isTrue then
      (← manifest.fields).entries.foldlM (Graph.loadEntry weights.toBytes) graph
    else return graph

end Handover
