import AqEngine.Lib.F64
import AqEngine.Lib.Fallible
import AqEngine.Lib.Segments
import AqEngine.Lib.Text
import Mathlib.Data.List.Sort

namespace AqEngine.LiveSync

open Lib Fallible List

def i64Max : UInt64 := 9223372036854775807

def executionFillVersion : UInt16 := 1
def executionFillPageVersion : UInt16 := 2
def executionPositionCheckPageVersion : UInt16 := 3
def executionFillTransferRows : Nat := 32
def positionQuantityDefinition : String := "aqe-owned-position-quantity-1"

inductive ExecutionFillSide where
  | buy | sell
  deriving DecidableEq, Repr

inductive ExecutionFillEffect where
  | entry | exit | reversal | unknown
  deriving DecidableEq, Repr

structure ExecutionFillCash where
  currency : String
  (grossPnl commission carry : Option F64)
  deriving DecidableEq

/-- An executed delta, never a cumulative snapshot of an order. -/
structure ExecutionFill where
  version : UInt16
  (provider fillId orderId : String)
  positionId : Option String
  symbol : String
  side : ExecutionFillSide
  effect : ExecutionFillEffect
  (quantity price : F64)
  (occurredAtUs asOfUs : Int)
  cash : Option ExecutionFillCash
  accountNotional : Option F64
  deriving DecidableEq

structure ExecutionFillInput where
  insightId : Option String
  fill : ExecutionFill
  deriving DecidableEq

inductive ExecutionFillInvalidationReason where
  | brokerCancelled | brokerDeleted
  deriving DecidableEq, Repr

structure ExecutionFillInvalidation where
  (provider fillId orderId : String)
  positionId : Option String
  symbol : String
  side : ExecutionFillSide
  effect : ExecutionFillEffect
  (occurredAtUs asOfUs : Int)
  reason : ExecutionFillInvalidationReason
  deriving DecidableEq

structure ExecutionFillRecord where
  (sequence executionEpoch : UInt64)
  recordedAtUs : Int
  observation : ExecutionFillInput
  invalidation : Option ExecutionFillInvalidation
  deriving DecidableEq

structure PositionQuantitySnapshot where
  (positionId symbol : String)
  quantity : F64
  side : Option ExecutionFillSide
  asOfUs : Int
  deriving DecidableEq

structure PositionQuantityCheck where
  definitionVersion : String
  snapshot : PositionQuantitySnapshot
  ledgerQuantity : Option F64
  ledgerSide : Option ExecutionFillSide
  matched : Bool
  deriving DecidableEq

structure PositionQuantityObservation where
  (provider positionId symbol insightId : String)
  ledgerSequence : UInt64
  asOfUs : Int
  check : Option PositionQuantityCheck
  deriving DecidableEq

structure PositionQuantityRecord where
  (sequence executionEpoch : UInt64)
  recordedAtUs : Int
  observation : PositionQuantityObservation
  deriving DecidableEq

structure ExecutionFillPage where
  version : UInt16
  (sourceId strategyId accountId : String)
  (afterSequence throughSequence nextSequence : UInt64)
  hasMore : Bool
  records : List ExecutionFillRecord
  positionChecks : List PositionQuantityRecord
  generatedAtUs : Int
  (coverage valuationBasis : String)
  recoveryComplete : Option Bool
  deriving DecidableEq

/-- The characters with the Unicode property Cc. -/
def isControl (c : Char) : Bool := c.toNat ≤ 0x1f || (0x7f ≤ c.toNat && c.toNat ≤ 0x9f)

def identity (value : String) (limit : Nat) : Bool :=
  !isBlank value && decide (value.utf8ByteSize ≤ limit) && !value.toList.any isControl

namespace ExecutionFillCash

def net (cash : ExecutionFillCash) : Option F64 := do
  let net := (← cash.grossPnl) - (← cash.commission) + (← cash.carry)
  if net.isFinite then some net else none

def validate (cash : ExecutionFillCash) : Except String Unit :=
  refuseIf (!identity cash.currency 32 ||
      ([cash.grossPnl, cash.commission, cash.carry].filterMap id).any (fun n => !n.isFinite) ||
      (cash.grossPnl.isSome && cash.commission.isSome && cash.carry.isSome && cash.net.isNone))
    "invalid execution fill cash values"

end ExecutionFillCash

/-- The identities that a fill and its invalidation check alike. -/
def identified (provider fillId orderId : String) (positionId : Option String) (symbol : String) :
    Bool :=
  [provider, fillId, orderId].all (identity · 128) && identity symbol 256 &&
    positionId.all (identity · 128)

namespace ExecutionFill

def validate (fill : ExecutionFill) : Except String Unit := do
  refuseIf (fill.version ≠ executionFillVersion) "unsupported execution fill version"
  refuseIf (!identified fill.provider fill.fillId fill.orderId fill.positionId fill.symbol)
    "invalid execution fill identity"
  refuseIf (fill.occurredAtUs ≤ 0 ∨ fill.asOfUs < fill.occurredAtUs)
    "invalid execution fill chronology"
  refuseIf (!fill.quantity.isFinite || decide (fill.quantity ≤ 0) || !fill.price.isFinite ||
      fill.accountNotional.any (fun n => !n.isFinite || decide (n < 0)))
    "invalid execution fill quantity/price/notional"
  match fill.cash with
  | some cash => cash.validate
  | none =>
    refuseIf fill.accountNotional.isSome "execution fill notional requires a declared currency"

end ExecutionFill

def ExecutionFillInput.validate (input : ExecutionFillInput) : Except String Unit := do
  input.fill.validate
  refuseIf (input.insightId.any fun id => !identity id 128) "invalid execution fill owner"

namespace ExecutionFillInvalidation

def validate (v : ExecutionFillInvalidation) : Except String Unit :=
  refuseIf (!identified v.provider v.fillId v.orderId v.positionId v.symbol ||
      decide (v.occurredAtUs ≤ 0) || decide (v.asOfUs < v.occurredAtUs))
    "invalid execution fill invalidation"

def matchesFill (v : ExecutionFillInvalidation) (fill : ExecutionFill) : Bool :=
  v.provider == fill.provider && v.fillId == fill.fillId && v.orderId == fill.orderId &&
    v.positionId == fill.positionId && v.symbol == fill.symbol && v.side == fill.side &&
    v.effect == fill.effect

end ExecutionFillInvalidation

def ExecutionFillRecord.validate (record : ExecutionFillRecord) : Except String Unit := do
  record.observation.validate
  match record.invalidation with
  | none => .ok ()
  | some v => do
    v.validate
    refuseIf (!v.matchesFill record.observation.fill ||
        decide (v.asOfUs ≤ record.observation.fill.asOfUs))
      "invalidation does not supersede its original fill"

namespace PositionQuantityCheck

def agrees (c : PositionQuantityCheck) : Bool :=
  c.ledgerQuantity.any fun q =>
    c.ledgerSide == c.snapshot.side && decide ((q - c.snapshot.quantity).abs ≤
        F64.max q.abs c.snapshot.quantity.abs * F64.finite (1 / 10 ^ 9))

def validate (c : PositionQuantityCheck) (o : PositionQuantityObservation) :
    Except String Unit := do
  let s := c.snapshot
  refuseIf (c.definitionVersion != positionQuantityDefinition || s.positionId != o.positionId ||
      s.symbol != o.symbol || s.asOfUs != o.asOfUs || !s.quantity.isFinite ||
      decide (s.quantity < 0) || (s.quantity == 0) != s.side.isNone ||
      c.ledgerQuantity.any (fun q => !q.isFinite || decide (q < 0)) ||
      c.ledgerQuantity.any (fun q => decide (0 < q)) != c.ledgerSide.isSome)
    "invalid position quantity comparison"
  refuseIf (c.agrees ≠ c.matched) "inconsistent position quantity result"

end PositionQuantityCheck

def PositionQuantityRecord.validate (record : PositionQuantityRecord) : Except String Unit := do
  let o := record.observation
  refuseIf (record.sequence = 0 ∨ i64Max < record.sequence ∨ record.executionEpoch = 0 ∨
      i64Max < record.executionEpoch ∨ record.recordedAtUs ≤ 0 ∨ o.asOfUs ≤ 0 ∨
      o.ledgerSequence = 0 ∨ record.sequence ≤ o.ledgerSequence ∨
      identity o.provider 128 = false ∨ identity o.positionId 128 = false ∨
      identity o.symbol 256 = false ∨ identity o.insightId 128 = false)
    "invalid position quantity record scope"
  match o.check with
  | none => .ok ()
  | some c => c.validate o

namespace ExecutionFillPage

variable (page : ExecutionFillPage)

def versionKnown : Bool :=
  [executionFillVersion, executionFillPageVersion, executionPositionCheckPageVersion].contains
    page.version

def rows : Nat := page.records.length + page.positionChecks.length

def wellScoped : Bool :=
  page.versionKnown && identity page.sourceId 128 && identity page.strategyId 256 &&
    identity page.accountId 256 && identity page.coverage 256 &&
    identity page.valuationBasis 256 && decide (0 < page.generatedAtUs) &&
    !(page.records.isEmpty && page.positionChecks.isEmpty) &&
    decide (page.rows ≤ executionFillTransferRows) &&
    !(!page.positionChecks.isEmpty && decide (page.version < executionPositionCheckPageVersion)) &&
    decide (page.afterSequence < page.nextSequence) &&
    decide (page.nextSequence ≤ page.throughSequence) &&
    decide (page.throughSequence ≤ i64Max) &&
    page.hasMore == decide (page.nextSequence < page.throughSequence)

def checkRecords : UInt64 → List ExecutionFillRecord → Except String (List UInt64)
  | _, [] => .ok []
  | previous, record :: rest => do
    refuseIf (record.sequence ≤ previous ∨ page.nextSequence < record.sequence ∨
        record.executionEpoch = 0 ∨ i64Max < record.executionEpoch ∨ record.recordedAtUs ≤ 0)
      "invalid execution fill record ordering"
    record.validate
    refuseIf (record.invalidation.isSome ∧ page.version < executionFillPageVersion)
      "execution fill invalidation requires page version 2"
    let sequences ← checkRecords record.sequence rest
    .ok (record.sequence :: sequences)

def checkPositions : UInt64 → List PositionQuantityRecord → Except String (List UInt64)
  | _, [] => .ok []
  | previous, record :: rest => do
    record.validate
    refuseIf (record.sequence ≤ previous ∨ page.nextSequence < record.sequence)
      "invalid position quantity record ordering"
    let sequences ← checkPositions record.sequence rest
    .ok (record.sequence :: sequences)

/-- The sum wraps like the machine's. -/
def expected (i : Nat) : UInt64 := page.afterSequence + UInt64.ofNat i + 1

end ExecutionFillPage

def sortSequences (sequences : List UInt64) : List UInt64 := sequences.insertionSort (· ≤ ·)

def validateExecutionFillPage (page : ExecutionFillPage) : Except String Unit := do
  refuseIf (page.wellScoped = false) "invalid execution fill page scope/boundary"
  let fills ← page.checkRecords page.afterSequence page.records
  let checks ← page.checkPositions page.afterSequence page.positionChecks
  let sequences := sortSequences (fills ++ checks)
  refuseIf (sequences.zipIdx.any (fun entry => entry.1 != page.expected entry.2) ||
      sequences.getLast? != some page.nextSequence)
    "incomplete execution fill page"

section

variable {page : ExecutionFillPage} {previous : UInt64} {found : List UInt64}

theorem ExecutionFillPage.checkRecords_ok {records : List ExecutionFillRecord}
    (h : page.checkRecords previous records = .ok found) :
    found = records.map (·.sequence) ∧ (previous :: found).IsChain (· < ·) := by
  induction records generalizing previous found with
  | nil =>
    cases h
    exact ⟨rfl, isChain_singleton previous⟩
  | cons _ _ ih =>
    obtain ⟨ho, h⟩ := refuseIf_bind_eq_ok.1 h
    obtain ⟨-, -, h⟩ := bind_eq_ok.1 h
    obtain ⟨-, h⟩ := refuseIf_bind_eq_ok.1 h
    obtain ⟨tail, ht, h⟩ := bind_eq_ok.1 h
    cases h
    obtain ⟨rfl, hc⟩ := ih ht
    refine ⟨rfl, isChain_cons_cons.2 ⟨?_, hc⟩⟩
    exact UInt64.not_le.1 fun hle => ho (.inl hle)

theorem ExecutionFillPage.checkPositions_ok {records : List PositionQuantityRecord}
    (h : page.checkPositions previous records = .ok found) :
    found = records.map (·.sequence) ∧ (previous :: found).IsChain (· < ·) := by
  induction records generalizing previous found with
  | nil =>
    cases h
    exact ⟨rfl, isChain_singleton previous⟩
  | cons _ _ ih =>
    obtain ⟨-, -, h⟩ := bind_eq_ok.1 h
    obtain ⟨ho, h⟩ := refuseIf_bind_eq_ok.1 h
    obtain ⟨tail, ht, h⟩ := bind_eq_ok.1 h
    cases h
    obtain ⟨rfl, hc⟩ := ih ht
    refine ⟨rfl, isChain_cons_cons.2 ⟨?_, hc⟩⟩
    exact UInt64.not_le.1 fun hle => ho (.inl hle)

namespace ExecutionFillPage

def sequences (page : ExecutionFillPage) : List UInt64 :=
  page.records.map (·.sequence) ++ page.positionChecks.map (·.sequence)

/-- The same in the order of the source's journal. -/
def stream (page : ExecutionFillPage) : List Nat := (sortSequences page.sequences).map UInt64.toNat

/-- What an accepted page holds. No sum of the last check leaves 64 bits. -/
structure Exact (page : ExecutionFillPage) : Prop where
  fills : (page.records.map (·.sequence)).Pairwise (· < ·)
  checks : (page.positionChecks.map (·.sequence)).Pairwise (· < ·)
  increasing : page.afterSequence.toNat < page.nextSequence.toNat
  noOverflow : ∀ i < page.rows, page.afterSequence.toNat + i + 1 < 2 ^ 64
  exact : page.stream = Lib.segment page.afterSequence.toNat page.nextSequence.toNat

theorem stream_perm : page.stream.Perm (page.sequences.map UInt64.toNat) :=
  (perm_insertionSort _ _).map _

theorem wellScoped_boundary (h : page.wellScoped = true) :
    page.rows ≤ 32 ∧ page.afterSequence.toNat < page.nextSequence.toNat ∧
      page.nextSequence.toNat < 2 ^ 63 := by
  simp only [wellScoped, Bool.and_eq_true, decide_eq_true_eq] at h
  obtain ⟨⟨⟨⟨⟨⟨-, hr⟩, -⟩, ha⟩, hn⟩, ht⟩, -⟩ := h
  have hm : page.nextSequence.toNat ≤ i64Max.toNat :=
    UInt64.le_iff_toNat_le.1 (UInt64.le_trans hn ht)
  exact ⟨hr, UInt64.lt_iff_toNat_lt.1 ha, Nat.lt_succ_of_le hm⟩

theorem toNat_expected {i : Nat} (h : page.afterSequence.toNat + i + 1 < 2 ^ 64) :
    (page.expected i).toNat = page.afterSequence.toNat + i + 1 := by
  have hi : i < 2 ^ 64 := by omega
  have ho : (1 : UInt64).toNat = 1 := rfl
  rw [expected, UInt64.toNat_add, UInt64.toNat_add, UInt64.toNat_ofNat_of_lt' hi]
  omega

end ExecutionFillPage

open ExecutionFillPage

/-- The last check: position `i` of the sorted sequences holds the `i`-th
number after the start, and the last one is the end of the page. -/
theorem stream_of_complete (hs : page.wellScoped = true) (hr : found.length ≤ page.rows)
    (h : ¬ (found.zipIdx.any (fun entry => entry.1 != page.expected entry.2) ||
      found.getLast? != some page.nextSequence) = true) :
    found.map UInt64.toNat = Lib.segment page.afterSequence.toNat page.nextSequence.toNat := by
  obtain ⟨hb, hst, hma⟩ := wellScoped_boundary hs
  rw [Bool.or_eq_true, not_or] at h
  obtain ⟨hent, hl⟩ := h
  have hg : ∀ i (hi : i < found.length), found[i].toNat = page.afterSequence.toNat + i + 1 := by
    intro i hi
    have hm : (found[i], i) ∈ found.zipIdx :=
      mem_zipIdx_iff_getElem?.2 (getElem?_eq_getElem hi)
    have hen : found[i] = page.expected i := by
      by_contra hne
      exact hent (any_eq_true.2 ⟨_, hm, by simpa using hne⟩)
    rw [hen]
    exact toNat_expected (by omega)
  have he : found.getLast? = some page.nextSequence := by simpa using hl
  have hne : found ≠ [] := by
    rintro rfl
    cases he
  rw [getLast?_eq_some_getLast hne, Option.some.injEq] at he
  have hpos : 0 < found.length := length_pos_of_ne_nil hne
  have hc := hg (found.length - 1) (by omega)
  rw [← getLast_eq_getElem hne, he] at hc
  apply eq_segment_of_getElem
  · rw [length_map]
    omega
  · intro i hi
    rw [getElem_map]
    exact hg i (by simpa using hi)

theorem exact_of_validate (h : validateExecutionFillPage page = .ok ()) : page.Exact := by
  obtain ⟨hsc, h⟩ := refuseIf_bind_eq_ok.1 h
  obtain ⟨fills, hfill, h⟩ := bind_eq_ok.1 h
  obtain ⟨checks, hc, h⟩ := bind_eq_ok.1 h
  obtain ⟨rfl, hf⟩ := checkRecords_ok hfill
  obtain ⟨rfl, hch⟩ := checkPositions_ok hc
  have hw : page.wellScoped = true := by simpa using hsc
  obtain ⟨hr, hst, hm⟩ := wellScoped_boundary hw
  have hs {l : List UInt64} (hl : (page.afterSequence :: l).IsChain (· < ·)) :
      l.Pairwise (· < ·) := (isChain_iff_pairwise.1 hl).tail
  exact {
    fills := hs hf
    checks := hs hch
    increasing := hst
    noOverflow := fun i _ => by omega
    exact := stream_of_complete hw (by simp [sortSequences, rows, ExecutionFillPage.sequences])
      (refuseIf_eq_ok.1 h) }

/-- A chain of accepted pages delivers the interval it covers, each sequence
once and in order, however the interval was split into pages. -/
theorem fill_pages_exact {first : ExecutionFillPage} {rest : List ExecutionFillPage}
    (hvalid : ∀ page ∈ first :: rest, validateExecutionFillPage page = .ok ())
    (hchain : (first :: rest).IsChain fun page next => next.afterSequence = page.nextSequence) :
    let last := (first :: rest).getLast (cons_ne_nil first rest)
    (∀ page ∈ first :: rest, page.Exact) ∧
    (first :: rest).flatMap stream = Lib.segment first.afterSequence.toNat last.nextSequence.toNat ∧
    ∀ n, ((first :: rest).flatMap fun page => page.sequences.map UInt64.toNat).count n =
      if first.afterSequence.toNat < n ∧ n ≤ last.nextSequence.toNat then 1 else 0 := by
  intro last
  have hex : ∀ page ∈ first :: rest, page.Exact := fun page hpa =>
    exact_of_validate (hvalid page hpa)
  have hst : (first :: rest).flatMap stream =
      Lib.segment first.afterSequence.toNat last.nextSequence.toNat := by
    have hmap : (first :: rest).flatMap stream = (first :: rest).flatMap fun page =>
        Lib.segment page.afterSequence.toNat page.nextSequence.toNat :=
      flatMap_congr fun page hpa => (hex page hpa).exact
    rw [hmap]
    exact (flatMap_segment (fun page => page.afterSequence.toNat)
      (fun page => page.nextSequence.toNat) first rest
      (fun page hpa => (hex page hpa).increasing.le)
      (hchain.imp fun _ _ h => congrArg UInt64.toNat h)).1
  refine ⟨hex, hst, fun n => ?_⟩
  have hpe : ((first :: rest).flatMap fun page => page.sequences.map UInt64.toNat).Perm
      ((first :: rest).flatMap stream) :=
    List.Perm.flatMap_left _ fun page _ => stream_perm.symm
  rw [hpe.count_eq, hst, (nodup_segment _ _).count]
  simp

def sampleRecord (sequence : UInt64) : ExecutionFillRecord where
  sequence
  executionEpoch := 1
  recordedAtUs := 300
  observation :=
    { insightId := some "insight"
      fill :=
        { version := 1, provider := "generic-deals-v1", fillId := "deal", orderId := "order"
          positionId := none, symbol := "FUTURE", side := .buy, effect := .entry, quantity := 2
          price := 10, occurredAtUs := 100, asOfUs := 200, cash := none, accountNotional := none } }
  invalidation := none

def sampleCheck (sequence : UInt64) : PositionQuantityRecord where
  sequence
  executionEpoch := 1
  recordedAtUs := 300
  observation :=
    { provider := "generic-provider", positionId := "position", symbol := "GENERIC"
      insightId := "insight", ledgerSequence := sequence - 1, asOfUs := 200
      check := some
        { definitionVersion := positionQuantityDefinition
          snapshot :=
            { positionId := "position", symbol := "GENERIC", quantity := 2, side := some .buy
              asOfUs := 200 }
          ledgerQuantity := some 2, ledgerSide := some .buy, matched := true } }

def samplePage (after next : UInt64) (records : List ExecutionFillRecord)
    (checks : List PositionQuantityRecord) : ExecutionFillPage where
  version := 3
  sourceId := "source"
  strategyId := "generic"
  accountId := "account"
  afterSequence := after
  throughSequence := 4
  nextSequence := next
  hasMore := next < 4
  records
  positionChecks := checks
  generatedAtUs := 300
  coverage := "owned_position"
  valuationBasis := "broker_cash"
  recoveryComplete := none

theorem fill_pages_exact_two :
    let first := samplePage 0 3 [sampleRecord 1, sampleRecord 3] [sampleCheck 2]
    let second := samplePage 3 4 [sampleRecord 4] []
    (∀ page ∈ [first, second], validateExecutionFillPage page = .ok ()) ∧
      [first, second].flatMap stream = Lib.segment 0 4 := by
  intro first second
  have hvalid : ∀ page ∈ [first, second], validateExecutionFillPage page = .ok () := by
    decide +kernel
  have hch : [first, second].IsChain fun page next => next.afterSequence = page.nextSequence :=
    isChain_pair.2 rfl
  exact ⟨hvalid, (fill_pages_exact hvalid hch).2.1⟩

end

end AqEngine.LiveSync
