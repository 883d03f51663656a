import AqEngine.Journal.FillExport
import AqEngine.Lib.Paging

namespace AqEngine.Broker

open Lib Fallible

inductive Value where
  | null
  | integer (v : Int)
  | real (bits : UInt64)
  | text (s : String)
  | blob (bytes : List UInt8)
  deriving DecidableEq

def leBytes (n : Nat) : List UInt8 := (List.range 8).map fun i => UInt8.ofNat (n / 256 ^ i)

namespace Value

def size : Value → Nat
  | .text s => s.utf8ByteSize
  | .blob bytes => bytes.length
  | _ => 8

/-- A value as it is fed to the digest: a tag, and the length where it varies. -/
def digestBytes : Value → List UInt8
  | .null => [0]
  | .integer v => 1 :: leBytes (v % 2 ^ 64).toNat
  | .real bits => 2 :: leBytes bits.toNat
  | .text s => 3 :: leBytes s.utf8ByteSize ++ s.toUTF8.toList
  | .blob bytes => 4 :: leBytes bytes.length ++ bytes

end Value

/-- The tables of the optional history, in the order in which they are copied. -/
inductive HistoryTable where
  | fillHistoryClocks | fillExport | fills | fillHeads | fillInvalidated | positionChecks
  | positionMarks | positionMarkHeads | positionMarkExport | analyticsCapture
  deriving DecidableEq

namespace HistoryTable

def all : List HistoryTable :=
  [.fillHistoryClocks, .fillExport, .fills, .fillHeads, .fillInvalidated, .positionChecks,
    .positionMarks, .positionMarkHeads, .positionMarkExport, .analyticsCapture]

def schema : HistoryTable → List String
  | .fillHistoryClocks => ["clock_json", "first_sequence"]
  | .fillExport =>
    ["singleton", "cursor", "last_transfer_id", "pending_transfer_id", "pending_next",
      "pending_json"]
  | .fills => ["sequence", "execution_epoch", "recorded_at_us", "observation_json"]
  | .fillHeads => ["provider", "fill_id", "sequence", "as_of_us"]
  | .fillInvalidated => ["provider", "fill_id", "body"]
  | .positionChecks =>
    ["provider", "position_id", "insight_id", "execution_epoch", "ledger_sequence", "as_of_us",
      "check_json"]
  | .positionMarks => ["sequence", "execution_epoch", "recorded_at_us", "body"]
  | .positionMarkHeads =>
    ["fill_provider", "position_id", "sample_minute_us", "source_as_of_us", "is_open"]
  | .positionMarkExport =>
    ["singleton", "cursor", "last_transfer_id", "pending_transfer_id", "pending_next",
      "pending_json"]
  | .analyticsCapture =>
    ["singleton", "version", "generation", "paused", "started_at_us", "last_blocked_at_us",
      "execution_epoch", "resumed_at_us"]

/-- What the only row of a table starts with; empty for a table of many rows. -/
def singleton : HistoryTable → List (String × Value)
  | .fillExport => [("singleton", .integer 1), ("cursor", .integer 0)]
  | .positionMarkExport => [("singleton", .integer 1), ("cursor", .integer 0)]
  | .analyticsCapture =>
    [("singleton", .integer 1), ("version", .integer 1), ("generation", .integer 0),
      ("paused", .integer 0)]
  | _ => []

def added : HistoryTable → List String
  | .analyticsCapture => ["handoff_receipt"]
  | _ => []

end HistoryTable

structure TableImage where
  columns : List String
  rows : Table Int (List Value) := ∅

namespace TableImage

def rowSize (row : List Value) : Nat := 8 + (row.map Value.size).sum

/-- `INSERT ... ON CONFLICT(singleton) DO NOTHING`. -/
def seed (image : TableImage) (values : List (String × Value)) : TableImage :=
  if values = [] ∨ (image.rows.lookup 1).isSome then image
  else
    { image with
      rows := image.rows.insert 1 (image.columns.map fun name => (values.lookup name).getD .null) }

/-- `ALTER TABLE ... ADD COLUMN`, unless the column is there. -/
def addColumns (image : TableImage) (names : List String) : TableImage :=
  names.foldl (fun image name =>
    if name ∈ image.columns then image
    else ⟨image.columns ++ [name], image.rows.mapRows (· ++ [.null])⟩) image

def digestBytes (image : TableImage) : List UInt8 :=
  (image.rows.after 0).flatMap fun e =>
    (Value.integer e.1).digestBytes ++ e.2.flatMap Value.digestBytes

end TableImage

/-- What a database has under the name of a table. After the move the old
database has a view there, which an older program cannot read. -/
inductive Slot where
  | missing
  | stored (image : TableImage)
  | moved

namespace Slot

def create (t : HistoryTable) : Slot → Slot
  | .missing => .stored ⟨t.schema, ∅⟩
  | slot => slot

def seed (t : HistoryTable) : Slot → Slot
  | .stored image => .stored (image.seed t.singleton)
  | slot => slot

def addColumns (t : HistoryTable) : Slot → Slot
  | .stored image => .stored (image.addColumns t.added)
  | slot => slot

def columns : Slot → Except BrokerCommandError (List String)
  | .missing => .error (journalError "missing legacy cloud history table")
  | .moved => .ok ["cloud_history_moved"]
  | .stored image => do
    refuseIf (image.columns = []) (journalError "missing legacy cloud history table")
    refuseIf (image.columns.any fun name =>
        name.isEmpty || !name.toList.all fun c => c.isAlphanum || c == '_')
      (journalError "unsupported cloud history column name")
    .ok image.columns

def rows : Slot → Table Int (List Value)
  | .stored image => image.rows
  | _ => ∅

/-- A statement on the rows of a table fails where there is no such table. -/
def mapRows (f : Table Int (List Value) → Table Int (List Value)) : Slot → Slot
  | .stored image => .stored { image with rows := f image.rows }
  | slot => slot

def digest (sha256 : List UInt8 → List UInt8) (slot : Slot) :
    Except BrokerCommandError (List UInt8) := do
  let _ ← slot.columns
  match slot with
  | .stored image => .ok (sha256 image.digestBytes)
  | _ => .ok (sha256 [])

end Slot

structure PhysicalCaptureLimit where
  (physicalLimitBytes operationalHeadroomBytes : Nat)
  deriving DecidableEq

def minOperationalHeadroomBytes : Nat := 8 * 1024 * 1024

def PhysicalCaptureLimit.validate (limit : PhysicalCaptureLimit) :
    Except BrokerCommandError PhysicalCaptureLimit :=
  if 2 ^ 63 ≤ limit.physicalLimitBytes ∨
      limit.operationalHeadroomBytes < minOperationalHeadroomBytes ∨
      limit.physicalLimitBytes ≤ limit.operationalHeadroomBytes then
    .error (journalError "invalid physical capture partition")
  else .ok limit

inductive LocationState where
  | copying | ready
  deriving DecidableEq

/-- The row of the old database that says where the history is. -/
structure Location where
  version : Nat
  state : LocationState
  limit : PhysicalCaptureLimit
  deriving DecidableEq

structure HistoryIdentity where
  (strategyId accountId sourceId : String)
  deriving DecidableEq

structure CopyProgress where
  cursor : Int
  complete : Bool
  deriving DecidableEq

structure HistoryStore where
  identity : Option HistoryIdentity := none
  progress : HistoryTable → Option CopyProgress := fun _ => none
  tables : HistoryTable → Slot := fun _ => .missing

/-- Both files. The table of the location can be there without its row. -/
structure HistoryFiles where
  location : Option (Option Location) := none
  source : HistoryTable → Slot
  target : Option HistoryStore := none

inductive HistoryOwner where
  | source | target
  deriving DecidableEq

/-- The statements that bring the capture policy's table up to date. -/
inductive Upgrade where
  | create | seed | addColumns
  deriving DecidableEq

def Upgrade.apply : Upgrade → Slot → Slot
  | .create => Slot.create .analyticsCapture
  | .seed => Slot.seed .analyticsCapture
  | .addColumns => Slot.addColumns .analyticsCapture

/-- Where a migration is. From each point to the next at most one change of
one file becomes durable. -/
inductive MigrationPoint where
  | prepare | mark | createFile | identify
  | upgrade (u : Upgrade)
  | install
  | copy (t : HistoryTable) (rest : List HistoryTable)
  | verify | choose | finished
  deriving DecidableEq

def Upgrade.next : Upgrade → MigrationPoint
  | .create => .upgrade .seed
  | .seed => .upgrade .addColumns
  | .addColumns => .install

def MigrationPoint.copyFrom : List HistoryTable → MigrationPoint
  | [] => .verify
  | t :: rest => .copy t rest

def copyPageRows : Nat := 16

def copyRowBytes : Nat := 512 * 1024 + 8192

def commitOperational (limit : PhysicalCaptureLimit) (projected : Nat) :
    Except BrokerCommandError Unit :=
  refuseIf (limit.physicalLimitBytes < projected) .capturePaused

namespace HistoryStore

/-- The metadata transaction: the identity and all tables. -/
def installed (st : HistoryStore) (scope : HistoryIdentity) : HistoryStore :=
  { st with
    identity := some (st.identity.getD scope)
    tables := fun t => (((st.tables t).create t).seed t).addColumns t }

def progressOf (st : HistoryStore) (t : HistoryTable) : CopyProgress :=
  (st.progress t).getD ⟨0, false⟩

/-- A page of a table and the progress that goes with it. No other unique key
than the row id can clash: all rows come from one table. -/
def copied (st : HistoryStore) (t : HistoryTable) (names : List String)
    (page : List (Sigma fun _ : Int => List Value)) : HistoryStore :=
  { st with
    tables := Function.update st.tables t (.stored ⟨names, Table.fill (st.tables t).rows page⟩)
    progress := Function.update st.progress t
      (some ⟨Table.lastKey (st.progressOf t).cursor page, page.length < copyPageRows⟩) }

end HistoryStore

namespace HistoryFiles

variable (d : HistoryFiles)

def hasLocation : Bool := d.location.isSome

/-- The file that owns the history, as the old database says. -/
def owner : HistoryOwner :=
  match d.location with
  | some (some row) => if row.state = .ready then .target else .source
  | _ => .source

def sourceRows (t : HistoryTable) : Table Int (List Value) := (d.source t).rows

def upgrade (u : Upgrade) : HistoryFiles :=
  { d with
    source := Function.update d.source .analyticsCapture (u.apply (d.source .analyticsCapture)) }

def copyPage (st : HistoryStore) (limit : PhysicalCaptureLimit)
    (projected : Nat) (t : HistoryTable) (rest : List HistoryTable) (names : List String) :
    Except BrokerCommandError (HistoryFiles × MigrationPoint) :=
  if (st.progressOf t).complete then .ok (d, .copyFrom rest)
  else do
    let page := (d.sourceRows t).page copyPageRows (st.progressOf t).cursor
    refuseIf (∃ e ∈ page, copyRowBytes < TableImage.rowSize e.2)
      (journalError "legacy cloud history row exceeds migration bound")
    commitOperational limit projected
    .ok ({ d with target := some (st.copied t names page) },
      if page.length < copyPageRows then .copyFrom rest else .copy t rest)

def copyTable (st : HistoryStore) (limit : PhysicalCaptureLimit)
    (projected : Nat) (t : HistoryTable) (rest : List HistoryTable) :
    Except BrokerCommandError (HistoryFiles × MigrationPoint) := do
  let names ← (d.source t).columns
  let found ← (st.tables t).columns
  refuseIf (found ≠ names) (journalError "unsupported legacy cloud history schema")
  refuseIf (∃ e ∈ (d.sourceRows t).entries, e.1 ≤ 0)
    (journalError "unsupported legacy cloud history row identity")
  d.copyPage st limit projected t rest names

def digestsAgree (sha256 : List UInt8 → List UInt8) (d : HistoryFiles) (st : HistoryStore)
    (t : HistoryTable) : Except BrokerCommandError Unit := do
  let old ← (d.source t).digest sha256
  let new ← (st.tables t).digest sha256
  refuseIf (old ≠ new)
    (journalError "cloud history migration verification failed; legacy source retained")

def chosen : HistoryFiles :=
  { d with
    source := fun _ => .moved
    location := d.location.map fun row => row.map fun l =>
      if l.version = 1 ∧ l.state = .copying then { l with state := .ready } else l }

def migrateStep (scope : HistoryIdentity) (sha256 : List UInt8 → List UInt8)
    (limit : PhysicalCaptureLimit) (projected : Nat) (d : HistoryFiles) :
    MigrationPoint → Except BrokerCommandError (HistoryFiles × MigrationPoint)
  | .prepare => do
    refuseIf (d.hasLocation = false ∧ d.target.isSome)
      (journalError "unowned cloud history destination already exists")
    .ok ({ d with location := some (d.location.getD none) }, .mark)
  | .mark =>
    .ok ({ d with location := some (some ((d.location.getD none).getD ⟨1, .copying, limit⟩)) },
      .createFile)
  | .createFile => .ok ({ d with target := some (d.target.getD {}) }, .identify)
  | .identify => do
    refuseIf (((d.target.bind (·.identity)).getD scope) ≠ scope)
      (journalError "cloud history identity mismatch")
    .ok (d, .upgrade .create)
  | .upgrade u => .ok (d.upgrade u, u.next)
  | .install => do
    commitOperational limit projected
    .ok ({ d with target := d.target.map (·.installed scope) }, .copyFrom HistoryTable.all)
  | .copy t rest =>
    match d.target with
    | none => .error (journalError "missing cloud history store")
    | some st => d.copyTable st limit projected t rest
  | .verify =>
    match d.target with
    | none => .error (journalError "missing cloud history store")
    | some st => do
      HistoryTable.all.forM (d.digestsAgree sha256 st)
      .ok (d, .choose)
  | .choose => .ok (d.chosen, .finished)
  | .finished => .ok (d, .finished)

end HistoryFiles

/-- The process that owns both files: none, one that moves the history, or one
that records to the file its connection is for. -/
inductive Journal where
  | closed
  | migrating (limit : PhysicalCaptureLimit) (point : MigrationPoint)
  | recording (owner : HistoryOwner)
  deriving DecidableEq

structure CloudHistory where
  files : HistoryFiles
  journal : Journal := .closed

namespace CloudHistory

variable (scope : HistoryIdentity) (sha256 : List UInt8 → List UInt8) (s : CloudHistory)

def advance (commit : Commit) (projected : Nat) : CloudHistory :=
  match s.journal with
  | .migrating limit point =>
    match s.files.migrateStep scope sha256 limit projected point with
    | .error _ => { s with journal := .closed }
    | .ok (files, next) =>
      -- a failed or unreported commit ends the process with an error
      match commit with
      | .lost _ => { s with journal := .closed }
      | .unreported _ => ⟨files, .closed⟩
      | .reported => ⟨files, if next = .finished then .recording .target else .migrating limit next⟩
  | _ => s

def withLegacySchema (source : HistoryTable → Slot) (t : HistoryTable) : Slot :=
  if t = .analyticsCapture then source t else ((source t).create t).seed t

def resumed (files : HistoryFiles) (capacity : Option PhysicalCaptureLimit) (row : Location) :
    Except BrokerCommandError Journal := do
  refuseIf (row.version ≠ 1) (journalError "unsupported cloud history location version")
  let limit ← (capacity.getD row.limit).validate
  match row.state with
  | .copying => .ok (.migrating limit .prepare)
  | .ready =>
    match files.target with
    | none => .error (journalError "cloud history must be a regular, non-symlink file")
    | some st =>
      match st.identity with
      | none => .error (journalError "missing cloud history identity")
      | some identity => do
        refuseIf (identity ≠ scope) (journalError "cloud history identity mismatch")
        .ok (.recording .target)

def reopen (capacity : Option PhysicalCaptureLimit) : CloudHistory :=
  match s.files.location with
  | none => ⟨{ s.files with source := withLegacySchema s.files.source }, .recording .source⟩
  | some none => { s with journal := .recording .source }
  | some (some row) =>
    { s with journal := ((resumed scope s.files capacity row).toOption).getD .closed }

def separate (limit : PhysicalCaptureLimit) : CloudHistory :=
  match limit.validate with
  | .error _ => { s with journal := .closed }
  | .ok limit =>
    match s.journal with
    | .recording .source => { s with journal := .migrating limit .prepare }
    | .recording .target =>
      { s with
        files := { s.files with
          location := s.files.location.map fun row => row.map fun l =>
            if l.state = .ready then { l with limit := limit } else l } }
    | _ => s

def change (t : HistoryTable) (f : Table Int (List Value) → Table Int (List Value)) :
    CloudHistory :=
  match s.journal with
  | .recording .source =>
    { s with
      files := { s.files with
        source := Function.update s.files.source t ((s.files.source t).mapRows f) } }
  | .recording .target =>
    { s with
      files := { s.files with
        target := s.files.target.map fun st =>
          { st with tables := Function.update st.tables t ((st.tables t).mapRows f) } } }
  | _ => s

end CloudHistory

end AqEngine.Broker
