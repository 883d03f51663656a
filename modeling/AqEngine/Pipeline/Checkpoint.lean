import AqEngine.Lib.Json
import AqEngine.Pipeline.Turn
import Mathlib.Data.Finset.Sort
import Mathlib.Data.String.Basic

namespace AqEngine.Insights.PipeContinuationCheckpoint

def place (state : InsightState) (index : Nat) :
    Option PipeContinuationCheckpoint → PipeContinuationCheckpoint
  | none => .innermost state index
  | some nested => .outer state index nested

def state : PipeContinuationCheckpoint → InsightState
  | .innermost state _ => state
  | .outer state _ _ => state

def index : PipeContinuationCheckpoint → Nat
  | .innermost _ index => index
  | .outer _ index _ => index

def nested : PipeContinuationCheckpoint → Option PipeContinuationCheckpoint
  | .innermost _ _ => none
  | .outer _ _ nested => some nested

end AqEngine.Insights.PipeContinuationCheckpoint

namespace AqEngine.Pipeline

open Lib Insights List

def stateName : InsightState → String
  | .new => "New"
  | .executed => "Executed"
  | .filled => "Filled"
  | .closed => "Closed"
  | .cancelled => "Cancelled"
  | .rejected => "Rejected"

def InsightPipeScope.name : InsightPipeScope → String
  | .parentOnly => "ParentOnly"
  | .childOnly => "ChildOnly"
  | .both => "Both"

def orderedJson : Option (Finset String) → Json
  | none => .null
  | some values => .array (values.sort.map .string)

def wrappedLayout (config : PipeConfig) (inner : String) : String :=
  (Json.array [.string inner, .string (stateName config.targetState), .bool config.allowStateChange,
    orderedJson config.allowedAssets, orderedJson config.allowedAlphas,
    .string config.insightScope.name]).toString

mutual

def Pipe.innerLayout : Pipe → String
  | .leaf _ name version _ => name ++ "@" ++ version
  | .composite _ kind _ pipes =>
    (Json.array [.string kind.name, .string "1.0", .array ((layouts pipes).map .string)]).toString

def layouts : List Pipe → List String
  | [] => []
  | pipe :: pipes => wrappedLayout pipe.config pipe.innerLayout :: layouts pipes

end

def Pipe.recoveryLayout (pipe : Pipe) : String := wrappedLayout pipe.config pipe.innerLayout

mutual

def Pipe.executionCheckpoint (id : Uuid) : Pipe → Option PipeContinuationCheckpoint
  | .leaf _ _ _ _ => none
  | .composite _ _ resumed pipes =>
    match resumed.lookup id with
    | none => none
    | some (state, index) =>
      (checkpointAt id index pipes).map (PipeContinuationCheckpoint.place state index)

def checkpointAt (id : Uuid) : Nat → List Pipe → Option (Option PipeContinuationCheckpoint)
  | _, [] => none
  | 0, pipe :: _ => some (pipe.executionCheckpoint id)
  | index + 1, _ :: pipes => checkpointAt id index pipes

end

def InsightPipeline.executionCheckpoint (p : InsightPipeline) (id : Uuid) :
    Option InsightPipelineCheckpoint := do
  let resume ← p.deferred.lookup id
  let pipes ← p.pipeline.lookup resume.state
  let nested ← checkpointAt id resume.index pipes
  some ⟨resume.state, resume.index, resume.dependency, layouts pipes, nested⟩

mutual

/-- The inner places are restored first, so a refusal changes nothing. -/
def Pipe.restoreExecutionCheckpoint (id : Uuid) :
    Pipe → Option PipeContinuationCheckpoint → Except String Pipe
  | .leaf config name version controlsExpiration, none =>
    .ok (.leaf config name version controlsExpiration)
  | .leaf _ _ _ _, some _ => .error "pipe does not support this saved continuation"
  | .composite config kind resumed pipes, none =>
    .ok (.composite config kind (resumed.erase id) pipes)
  | .composite config kind resumed pipes, some checkpoint =>
    (restoreAt id checkpoint.index pipes checkpoint.nested
      "saved composite pipe index is out of range").map fun pipes =>
        .composite config kind (resumed.insert id (checkpoint.state, checkpoint.index)) pipes

def restoreAt (id : Uuid) : Nat → List Pipe → Option PipeContinuationCheckpoint → String →
    Except String (List Pipe)
  | _, [], _, missing => .error missing
  | 0, pipe :: pipes, checkpoint, _ =>
    (pipe.restoreExecutionCheckpoint id checkpoint).map (· :: pipes)
  | index + 1, pipe :: pipes, checkpoint, missing =>
    (restoreAt id index pipes checkpoint missing).map (pipe :: ·)

end

/-- The pipeline afterwards, and the refusal if there was one. -/
def InsightPipeline.restoreExecutionCheckpoint (p : InsightPipeline) (id : Uuid)
    (checkpoint : InsightPipelineCheckpoint) : InsightPipeline × Except String Unit :=
  match p.pipeline.lookup checkpoint.state with
  | none => (p, .error "saved pipeline state no longer exists")
  | some pipes =>
    if layouts pipes ≠ checkpoint.layout then
      (p, .error "pipeline layout changed since execution checkpoint")
    else match restoreAt id checkpoint.index pipes checkpoint.nested
        "saved pipeline index is out of range" with
    | .error reason => (p, .error reason)
    | .ok pipes =>
      (⟨p.pipeline.insert checkpoint.state pipes,
        p.deferred.insert id ⟨checkpoint.state, checkpoint.index, checkpoint.dependency⟩⟩, .ok ())

mutual

/-- The pipe as it was built, without the places of any insight. -/
def Pipe.bare : Pipe → Pipe
  | .leaf config name version controlsExpiration => .leaf config name version controlsExpiration
  | .composite config kind _ pipes => .composite config kind ∅ (bareAll pipes)

def bareAll : List Pipe → List Pipe
  | [] => []
  | pipe :: pipes => pipe.bare :: bareAll pipes

end

mutual

/-- The label of a leaf can be told apart: its version has no `@`, and it
does not look like the text of an array. -/
def Pipe.plain : Pipe → Bool
  | .leaf _ name version _ => !version.toList.contains '@' && name.toList.head? != some '['
  | .composite _ _ _ pipes => plainAll pipes

def plainAll : List Pipe → Bool
  | [] => true
  | pipe :: pipes => pipe.plain && plainAll pipes

end

mutual

/-- The code of a leaf is known by its name and version. -/
def Pipe.coded (controls : String → String → Bool) : Pipe → Bool
  | .leaf _ name version controlsExpiration => controlsExpiration == controls name version
  | .composite _ _ _ pipes => codedAll controls pipes

def codedAll (controls : String → String → Bool) : List Pipe → Bool
  | [] => true
  | pipe :: pipes => pipe.coded controls && codedAll controls pipes

end

theorem stateName_injective : Function.Injective stateName := by
  intro a b h
  cases a <;> cases b <;> first | rfl | exact absurd h (by decide)

theorem scopeName_injective : Function.Injective InsightPipeScope.name := by
  intro a b h
  cases a <;> cases b <;> first | rfl | exact absurd h (by decide)

theorem map_string_injective : Function.Injective (List.map Json.string) :=
  map_injective_iff.2 fun _ _ h => Json.string.inj h

theorem orderedJson_injective : Function.Injective orderedJson := by
  intro a b h
  match a, b with
  | none, none => rfl
  | none, some _ | some _, none => cases h
  | some a, some b =>
    have hso : a.sort = b.sort := map_string_injective (Json.array.inj h)
    have hs := congrArg List.toFinset hso
    rw [Finset.sort_toFinset, Finset.sort_toFinset] at hs
    rw [hs]

theorem wrappedLayout_injective {config config' : PipeConfig} {inner inner' : String}
    (h : wrappedLayout config inner = wrappedLayout config' inner') :
    config = config' ∧ inner = inner' := by
  have hi := Json.array.inj (Json.toString_injective h)
  simp only [List.cons.injEq, Json.string.injEq, Json.bool.injEq, and_true] at hi
  obtain ⟨hin, hst, hc, has, ha, hs⟩ := hi
  refine ⟨?_, hin⟩
  cases config
  cases config'
  rw [PipeConfig.mk.injEq]
  exact ⟨stateName_injective hst, hc, orderedJson_injective has,
    orderedJson_injective ha, scopeName_injective hs⟩

theorem split_at_last {α : Type} {mark : α} {a a' b b' : List α} (hb : mark ∉ b) (hb' : mark ∉ b')
    (h : a ++ mark :: b = a' ++ mark :: b') : a = a' ∧ b = b' := by
  obtain ⟨c, ha, hc⟩ | ⟨c, ha, hc⟩ := append_eq_append_iff.1 h
  · cases c with
    | nil =>
      rw [append_nil] at ha
      exact ⟨ha.symm, tail_eq_of_cons_eq hc⟩
    | cons _ c =>
      have hm : mark ∈ b := by
        rw [tail_eq_of_cons_eq hc]
        exact mem_append_right _ mem_cons_self
      exact absurd hm hb
  · cases c with
    | nil =>
      rw [append_nil] at ha
      exact ⟨ha, (tail_eq_of_cons_eq hc).symm⟩
    | cons _ c =>
      have hm : mark ∈ b' := by
        rw [tail_eq_of_cons_eq hc]
        exact mem_append_right _ mem_cons_self
      exact absurd hm hb'

theorem kindName_injective : Function.Injective CompositeKind.name := by
  intro a b h
  cases a <;> cases b <;> first | rfl | exact absurd h (by decide)

variable (controls : String → String → Bool)

/-- What two pipes have to have in common for their layouts to be compared. -/
def SameBuild (pipe : Pipe) : Prop :=
  ∀ other : Pipe, pipe.plain = true → other.plain = true → pipe.coded controls = true →
    other.coded controls = true → pipe.config = other.config →
    pipe.innerLayout = other.innerLayout → pipe.bare = other.bare

def SameBuilds (pipes : List Pipe) : Prop :=
  ∀ others : List Pipe, plainAll pipes = true → plainAll others = true →
    codedAll controls pipes = true → codedAll controls others = true →
    layouts pipes = layouts others → bareAll pipes = bareAll others

theorem toList_label (name version : String) :
    (name ++ "@" ++ version).toList = name.toList ++ '@' :: version.toList := by
  simp [String.toList_append]

theorem label_ne_array {name version : String} {items : List Json}
    (h : name.toList.head? ≠ some '[') : name ++ "@" ++ version ≠ (Json.array items).toString := by
  intro heq
  have hl := congrArg String.toList heq
  rw [toList_label, Json.toString, String.toList_ofList, Json.text] at hl
  cases hn : name.toList with
  | nil =>
    rw [hn] at hl
    exact absurd (head_eq_of_cons_eq hl) (by decide)
  | cons =>
    rw [hn] at hl h
    exact h (congrArg some (head_eq_of_cons_eq hl))

theorem sameBuild_leaf (config : PipeConfig) (name version : String) (controlsExpiration : Bool) :
    SameBuild controls (.leaf config name version controlsExpiration) := by
  intro other hp hp' hc hc' hco hl
  cases other with
  | leaf =>
    simp only [Pipe.plain, Bool.and_eq_true, Bool.not_eq_true', contains_eq_mem,
      decide_eq_false_iff_not] at hp hp'
    simp only [Pipe.coded, beq_iff_eq] at hc hc'
    have hli := congrArg String.toList hl
    simp only [Pipe.innerLayout, toList_label] at hli
    obtain ⟨hn, hv⟩ := split_at_last hp.1 hp'.1 hli
    have hn := String.toList_injective hn
    have hv := String.toList_injective hv
    subst hn
    subst hv
    simp only [Pipe.config] at hco
    rw [hco, hc, hc']
  | composite =>
    simp only [Pipe.plain, Bool.and_eq_true, bne_iff_ne] at hp
    rw [Pipe.innerLayout, Pipe.innerLayout] at hl
    exact absurd hl (label_ne_array hp.2)

theorem sameBuild_composite (config : PipeConfig)
    (kind : CompositeKind) (resumed : Table Uuid (InsightState × Nat)) (pipes : List Pipe)
    (ih : SameBuilds controls pipes) :
    SameBuild controls (.composite config kind resumed pipes) := by
  intro other hp hp' hc hc' hco hl
  cases other with
  | leaf =>
    simp only [Pipe.plain, Bool.and_eq_true, bne_iff_ne] at hp'
    rw [Pipe.innerLayout, Pipe.innerLayout] at hl
    exact absurd hl.symm (label_ne_array hp'.2)
  | composite _ _ _ others =>
    rw [Pipe.innerLayout, Pipe.innerLayout] at hl
    have hi := Json.array.inj (Json.toString_injective hl)
    simp only [List.cons.injEq, Json.string.injEq, Json.array.injEq, and_true, true_and] at hi
    rw [Pipe.plain] at hp hp'
    rw [Pipe.coded] at hc hc'
    have hpi := ih others hp hp' hc hc' (map_string_injective hi.2)
    have hkind := kindName_injective hi.1
    simp only [Pipe.config] at hco
    rw [Pipe.bare, Pipe.bare, hco, hkind, hpi]

theorem sameBuilds_cons (pipe : Pipe) (pipes : List Pipe)
    (hpi : SameBuild controls pipe) (hpip : SameBuilds controls pipes) :
    SameBuilds controls (pipe :: pipes) := by
  intro others hp hp' hc hc' hl
  cases others with
  | nil => simp [layouts] at hl
  | cons other others =>
    simp only [layouts, List.cons.injEq] at hl
    simp only [plainAll, Bool.and_eq_true] at hp hp'
    simp only [codedAll, Bool.and_eq_true] at hc hc'
    obtain ⟨hco, hi⟩ := wrappedLayout_injective hl.1
    rw [bareAll, bareAll, hpi other hp.1 hp'.1 hc.1 hc'.1 hco hi,
      hpip others hp.2 hp'.2 hc.2 hc'.2 hl.2]

theorem bareAll_of_layouts (pipes : List Pipe) : SameBuilds controls pipes := by
  refine @Pipe.rec_1 (SameBuild controls) (SameBuilds controls) (sameBuild_leaf controls)
    (sameBuild_composite controls) ?_ (sameBuilds_cons controls) pipes
  intro others _ _ _ _ hl
  cases others with
  | nil => rfl
  | cons _ others => simp [layouts] at hl

mutual

theorem innerLayout_bare : ∀ pipe : Pipe,
    pipe.bare.innerLayout = pipe.innerLayout ∧ pipe.bare.config = pipe.config
  | .leaf _ _ _ _ => ⟨rfl, rfl⟩
  | .composite _ _ _ pipes => by
    rw [Pipe.bare, Pipe.innerLayout, Pipe.innerLayout, layouts_bareAll pipes]
    exact ⟨rfl, rfl⟩

theorem layouts_bareAll : ∀ pipes : List Pipe, layouts (bareAll pipes) = layouts pipes
  | [] => rfl
  | pipe :: pipes => by
    rw [bareAll, layouts, layouts, (innerLayout_bare pipe).1, (innerLayout_bare pipe).2,
      layouts_bareAll pipes]

end

end AqEngine.Pipeline
