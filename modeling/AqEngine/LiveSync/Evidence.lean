import AqEngine.Broker.Types
import AqEngine.LiveSync.Fills
import AqEngine.Lib.OrderedTable
import AqEngine.Lib.Utf8

namespace AqEngine.LiveSync

open Lib Fallible Broker

def executionEvidenceVersion : UInt16 := 2
def executionEvidenceChunkBytes : Nat := 32 * 1024
def executionEvidenceTransferBytes : Nat := 1152 * 1024
def executionEvidenceMaxChunks : Nat := 37

structure ExecutionEvidencePartialClose where
  (orderId side : String)
  (quantity entryPrice filledPrice : Option F64)
  deriving DecidableEq

structure ExecutionEvidenceState where
  insightId : String
  parentId : Option String := none
  isSplitInsight : Bool := false
  (symbol strategyLabel state side : String)
  (entryOrderId closeOrderId : Option String := none)
  (intendedQuantity entryFilledQuantity partialClosedQuantity entryPrice : Option F64 := none)
  (closePrice brokerRealizedPnl commission swap : Option F64 := none)
  positionAccounting : Option PositionCloseAccounting := none
  (orderType orderClass : String)
  (limitPrice stopPrice : Option F64 := none)
  (takeProfitLevels stopLossLevels : Option (List F64) := none)
  trailingStopPrice : Option F64 := none
  createdAtUs : Int
  (filledAtUs closedAtUs : Option Int := none)
  partialCloses : List ExecutionEvidencePartialClose := []
  invalidNumericFields : Nat := 0
  deriving DecidableEq

structure ExecutionEvidenceRecord where
  (sequence checkpointRevision : UInt64)
  (observedAtUs recordedAtUs : Int)
  state : ExecutionEvidenceState
  deriving DecidableEq

structure ExecutionEvidenceObservation where
  executionEpoch : UInt64
  record : ExecutionEvidenceRecord
  deriving DecidableEq

structure ExecutionEvidenceFeedPage where
  schemaVersion : UInt16
  (sourceId strategyId accountId : String)
  (afterSequence throughSequence nextSequence : UInt64)
  hasMore : Bool
  observations : List ExecutionEvidenceObservation
  generatedAtUs : Int
  coverage : String
  recoveryComplete : Option Bool
  valuationBasis : String
  deriving DecidableEq

structure ChunkEnvelope where
  (sourceId strategyId accountId : String)
  (afterSequence nextSequence : UInt64)
  transferId : String
  count : Nat
  deriving DecidableEq

structure ExecutionEvidenceChunk extends ChunkEnvelope where
  schemaVersion : UInt16
  index : Nat
  body : String
  deriving DecidableEq

namespace ExecutionEvidenceState

def numbers (s : ExecutionEvidenceState) : List F64 :=
  [s.intendedQuantity, s.entryFilledQuantity, s.partialClosedQuantity, s.entryPrice, s.closePrice,
    s.brokerRealizedPnl, s.commission, s.swap, s.limitPrice, s.stopPrice,
    s.trailingStopPrice].filterMap id ++
  s.takeProfitLevels.getD [] ++ s.stopLossLevels.getD [] ++
  s.partialCloses.flatMap fun close =>
    [close.quantity, close.entryPrice, close.filledPrice].filterMap id

def accountingNumbers (s : ExecutionEvidenceState) : List F64 :=
  s.positionAccounting.elim [] fun a => [a.netPnl, a.commission, a.swap]

end ExecutionEvidenceState

/-- Every double value of the page but those of an accounting is a number that
JSON can write. -/
def ExecutionEvidenceFeedPage.isFinite (page : ExecutionEvidenceFeedPage) : Bool :=
  page.observations.all fun o => o.record.state.numbers.all F64.isFinite

def ExecutionEvidenceFeedPage.isWritable (page : ExecutionEvidenceFeedPage) : Bool :=
  page.isFinite && page.observations.all fun o => o.record.state.accountingNumbers.all F64.isFinite

/-- JSON and SHA-256. JSON writes `null` for an infinity or a nan and reads
none of them; a page without them is read as it was written. -/
structure EvidenceCodec where
  toJson : ExecutionEvidenceFeedPage → Option String
  fromJson : String → Option ExecutionEvidenceFeedPage
  digest : String → Fin 32 → UInt8
  toJson_ne : ∀ page text, toJson page = some text → text ≠ ""
  fromJson_toJson : ∀ page text, toJson page = some text → page.isWritable = true →
    fromJson text = some page
  fromJson_isWritable : ∀ text page, fromJson text = some page → page.isWritable = true

namespace ExecutionEvidenceFeedPage

def checkAccounting (s : ExecutionEvidenceState) : Except String Unit :=
  match s.positionAccounting with
  | none => .ok ()
  | some accounting =>
    match accounting.validate with
    | .error error => .error error.message
    | .ok _ =>
      refuseIf (s.state ≠ "Closed" ∨ !s.entryOrderId.any accounting.ownsOrder)
        "position accounting must belong to a closed insight"

variable (page : ExecutionEvidenceFeedPage)

def outOfScope : Prop :=
  page.schemaVersion ≠ executionEvidenceVersion ∨ page.observations = [] ∨
    128 < page.observations.length ∨ page.sourceId = "" ∨ 128 < page.sourceId.utf8ByteSize ∨
    page.strategyId = "" ∨ 256 < page.strategyId.utf8ByteSize ∨ page.accountId = "" ∨
    256 < page.accountId.utf8ByteSize ∨ page.nextSequence ≤ page.afterSequence ∨
    page.throughSequence < page.nextSequence ∨ i64Max < page.throughSequence ∨
    (page.hasMore = true ∧ page.nextSequence = page.throughSequence) ∨
    (page.hasMore = false ∧ page.nextSequence ≠ page.throughSequence)

instance : Decidable page.outOfScope := by
  unfold outOfScope
  infer_instance

def checkObservations : UInt64 → List ExecutionEvidenceObservation → Except String UInt64
  | previous, [] => .ok previous
  | previous, observation :: rest => do
    let record := observation.record
    refuseIf (observation.executionEpoch = 0 ∨ i64Max < observation.executionEpoch ∨
        record.sequence ≤ previous ∨ page.nextSequence < record.sequence ∨
        record.checkpointRevision = 0 ∨ record.state.insightId = "")
      "invalid execution evidence observation ordering"
    checkAccounting record.state
    checkObservations record.sequence rest

end ExecutionEvidenceFeedPage

def hexDigit (n : UInt8) : Char :=
  if n < 10 then Char.ofNat (48 + n.toNat) else Char.ofNat (87 + n.toNat)

def hexText (bytes : List UInt8) : String :=
  String.ofList (bytes.flatMap fun byte : UInt8 => [hexDigit (byte >>> 4), hexDigit (byte &&& 15)])

def isLowerHex (c : Char) : Bool := c.isDigit || ('a' ≤ c && c ≤ 'f')

namespace EvidenceCodec

variable (codec : EvidenceCodec) (page : ExecutionEvidenceFeedPage)

def encodedPage : Except String String := do
  refuseIf page.outOfScope "invalid execution evidence transfer scope or boundary"
  let previous ← page.checkObservations page.afterSequence page.observations
  refuseIf (previous ≠ page.nextSequence) "incomplete execution evidence transfer"
  match codec.toJson page with
  | none => .error "execution evidence serialization failed"
  | some json => do
    refuseIf (executionEvidenceTransferBytes < json.utf8ByteSize)
      "execution evidence transfer exceeds byte limit"
    .ok json

def checksum (text : String) : String := hexText (List.ofFn (codec.digest text))

def envelope (json : String) (count : Nat) : ChunkEnvelope where
  sourceId := page.sourceId
  strategyId := page.strategyId
  accountId := page.accountId
  afterSequence := page.afterSequence
  nextSequence := page.nextSequence
  transferId := codec.checksum json
  count := count

def chunk (json : String) (count index : Nat) (body : String) :
    ExecutionEvidenceChunk :=
  { codec.envelope page json count with schemaVersion := page.schemaVersion, index, body }

/-- The chunks of a page. There is no result when the loop would cut within
a character or would not end. -/
def executionEvidenceChunks : Option (Except String (List ExecutionEvidenceChunk)) :=
  match codec.encodedPage page with
  | .error error => some (.error error)
  | .ok json =>
    (Utf8.cut json.toList executionEvidenceChunkBytes json.utf8ByteSize 0).map fun bodies =>
      if executionEvidenceMaxChunks < bodies.length then .error "too many evidence chunks"
      else .ok (bodies.mapIdx fun index body =>
        codec.chunk page json bodies.length index (String.ofList body))

end EvidenceCodec

namespace ExecutionEvidenceChunk

def malformed (chunk : ExecutionEvidenceChunk) : Prop :=
  chunk.schemaVersion ≠ executionEvidenceVersion ∨ chunk.sourceId = "" ∨
    128 < chunk.sourceId.utf8ByteSize ∨ chunk.strategyId = "" ∨
    256 < chunk.strategyId.utf8ByteSize ∨ chunk.accountId = "" ∨
    256 < chunk.accountId.utf8ByteSize ∨ chunk.nextSequence ≤ chunk.afterSequence ∨
    i64Max < chunk.nextSequence ∨ chunk.count = 0 ∨ executionEvidenceMaxChunks < chunk.count ∨
    chunk.count ≤ chunk.index ∨ chunk.body = "" ∨
    executionEvidenceChunkBytes < chunk.body.utf8ByteSize ∨ chunk.transferId.utf8ByteSize ≠ 64 ∨
    chunk.transferId.toList.all isLowerHex = false

instance (chunk : ExecutionEvidenceChunk) : Decidable chunk.malformed := by
  unfold malformed
  infer_instance

def validate (chunk : ExecutionEvidenceChunk) : Except String Unit :=
  refuseIf chunk.malformed "invalid execution evidence chunk"

end ExecutionEvidenceChunk

structure ReceivedParts where
  parts : Table Nat String := ∅
  bytes : Nat := 0

namespace ReceivedParts

/-- The bytes after a chunk. An exact duplicate is not counted again. -/
def count (received : ReceivedParts) (chunk : ExecutionEvidenceChunk) : Except String Nat :=
  match received.parts.lookup chunk.index with
  | some previous =>
    if previous ≠ chunk.body then .error "conflicting execution evidence chunk"
    else .ok received.bytes
  | none => .ok (received.bytes + chunk.body.utf8ByteSize)

def add (first : ChunkEnvelope) (received : ReceivedParts) (chunk : ExecutionEvidenceChunk) :
    Except String ReceivedParts := do
  chunk.validate
  refuseIf (chunk.toChunkEnvelope ≠ first) "mixed execution evidence transfer"
  let bytes ← received.count chunk
  refuseIf (executionEvidenceTransferBytes < bytes) "execution evidence transfer exceeds byte limit"
  .ok ⟨received.parts.insert chunk.index chunk.body, bytes⟩

end ReceivedParts

def ExecutionEvidenceFeedPage.scope (page : ExecutionEvidenceFeedPage) :
    String × String × String × UInt64 × UInt64 :=
  (page.sourceId, page.strategyId, page.accountId, page.afterSequence, page.nextSequence)

def ChunkEnvelope.scope (envelope : ChunkEnvelope) : String × String × String × UInt64 × UInt64 :=
  (envelope.sourceId, envelope.strategyId, envelope.accountId, envelope.afterSequence,
    envelope.nextSequence)

namespace EvidenceCodec

variable (codec : EvidenceCodec)

def readPage (first : ChunkEnvelope) (json : String) : Except String ExecutionEvidenceFeedPage := do
  refuseIf (codec.checksum json ≠ first.transferId) "execution evidence checksum mismatch"
  match codec.fromJson json with
  | none => .error "invalid execution evidence JSON"
  | some page => do
    let _ ← codec.encodedPage page
    refuseIf (page.scope ≠ first.scope) "execution evidence envelope mismatch"
    .ok page

def assembleExecutionEvidence (chunks : List ExecutionEvidenceChunk) :
    Except String ExecutionEvidenceFeedPage :=
  match chunks with
  | [] => .error "missing execution evidence transfer"
  | chunk :: _ => do
    let first := chunk.toChunkEnvelope
    refuseIf (executionEvidenceMaxChunks * 2 < chunks.length) "too many evidence chunks"
    let received ← chunks.foldlM (ReceivedParts.add first) {}
    refuseIf (received.parts.entries.length ≠ first.count) "incomplete execution evidence transfer"
    codec.readPage first (String.join received.parts.inOrder)

end EvidenceCodec

end AqEngine.LiveSync
