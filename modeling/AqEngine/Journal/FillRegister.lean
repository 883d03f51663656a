import AqEngine.Journal.Fills
import AqEngine.Lib.Newest

namespace AqEngine.Broker

open Lib LiveSync

inductive FillEntry where
  | observation (input : ExecutionFillInput)
  | invalidation (v : ExecutionFillInvalidation)
  deriving DecidableEq

namespace FillEntry

def key : FillEntry → FillKey
  | .observation input => input.fill.key
  | .invalidation v => v.key

def asOfUs : FillEntry → Int
  | .observation input => input.fill.asOfUs
  | .invalidation v => v.asOfUs

def facts : FillEntry → Option ExecutionFill
  | .observation input => some input.fill.facts
  | .invalidation _ => none

end FillEntry

def ExecutionFillBatch.entries (batch : ExecutionFillBatch) : List FillEntry :=
  batch.rows.map .observation ++ batch.invalidations.map .invalidation

def SavedFill.input : SavedFill → Option ExecutionFillInput
  | .positionCheck _ => none
  | .invalidated old _ | .observation old => some old

structure Shown where
  asOfUs : Int
  epoch : Nat
  saved : SavedFill

structure FillRegister where
  shown : Option Shown
  removal : Option ExecutionFillInvalidation

namespace FillRegister

variable {r r' : FillRegister} {epoch : Nat} {input : ExecutionFillInput}
  {v : ExecutionFillInvalidation} {entries : List FillEntry}

def active (r : FillRegister) : Option ExecutionFillInput :=
  r.shown.bind fun shown =>
    match shown.saved with
    | .observation input => some input
    | .positionCheck _ | .invalidated _ _ => none

/-- What an observation does to its fill, in a batch that starts fills in the
epoch `epoch`. -/
inductive Observes (epoch : Nat) (input : ExecutionFillInput) : FillRegister → FillRegister → Prop
  | hidden {shown v} (hv : input.fill.asOfUs ≤ v.asOfUs) :
      Observes epoch input ⟨shown, some v⟩ ⟨shown, some v⟩
  | stale {shown removal} (hv : ∀ v ∈ removal, v.asOfUs < input.fill.asOfUs)
      (h : input.fill.asOfUs < shown.asOfUs) :
      Observes epoch input ⟨some shown, removal⟩ ⟨some shown, none⟩
  | refreshed {t e old removal} (hv : ∀ v ∈ removal, v.asOfUs < input.fill.asOfUs)
      (h : t ≤ input.fill.asOfUs) (hfacts : old.fill.facts = input.fill.facts)
      (howner : old.insightId = (input.ownedBy old.insightId).insightId) :
      Observes epoch input ⟨some ⟨t, e, .observation old⟩, removal⟩
        ⟨some ⟨input.fill.asOfUs, e, .observation old⟩, none⟩
  | started {removal} (hv : ∀ v ∈ removal, v.asOfUs < input.fill.asOfUs) :
      Observes epoch input ⟨none, removal⟩
        ⟨some ⟨input.fill.asOfUs, epoch, .observation input⟩, none⟩
  | revised {shown old removal} (hv : ∀ v ∈ removal, v.asOfUs < input.fill.asOfUs)
      (h : shown.asOfUs < input.fill.asOfUs) (hold : shown.saved.input = some old)
      (howner : old.insightId.isSome → old.insightId = (input.ownedBy old.insightId).insightId) :
      Observes epoch input ⟨some shown, removal⟩
        ⟨some ⟨input.fill.asOfUs, shown.epoch, .observation (input.ownedBy old.insightId)⟩, none⟩

inductive Removes (v : ExecutionFillInvalidation) : FillRegister → FillRegister → Prop
  | repeated {shown old} (h : v.asOfUs ≤ old.asOfUs) :
      Removes v ⟨shown, some old⟩ ⟨shown, some old⟩
  | stale {shown removal} (h : v.asOfUs < shown.asOfUs)
      (hold : ∀ old ∈ removal, old.asOfUs < v.asOfUs) :
      Removes v ⟨some shown, removal⟩ ⟨some shown, removal⟩
  | unseen {removal} (hold : ∀ old ∈ removal, old.asOfUs < v.asOfUs) :
      Removes v ⟨none, removal⟩ ⟨none, some v⟩
  | removed {t e old removal} (hold : ∀ old ∈ removal, old.asOfUs < v.asOfUs)
      (h : t < v.asOfUs) :
      Removes v ⟨some ⟨t, e, .observation old⟩, removal⟩
        ⟨some ⟨v.asOfUs, e, .invalidated old v⟩, some v⟩
  | again {t e old first removal} (hold : ∀ old ∈ removal, old.asOfUs < v.asOfUs)
      (h : t ≤ v.asOfUs) :
      Removes v ⟨some ⟨t, e, .invalidated old first⟩, removal⟩
        ⟨some ⟨v.asOfUs, e, .invalidated old first⟩, some v⟩

def Takes (epoch : Nat) : FillEntry → FillRegister → FillRegister → Prop
  | .observation input => Observes epoch input
  | .invalidation v => Removes v

variable {e : FillEntry}

theorem Takes.origin {shown' : Shown} {new : ExecutionFillInput} (h : Takes epoch e r r')
    (hs : r'.shown = some shown') (hn : shown'.saved.input = some new) :
    (shown'.epoch = epoch ∧ e = .observation new) ∨
    ∃ shown old, r.shown = some shown ∧ shown'.epoch = shown.epoch ∧ shown.saved.input = some old ∧
      (new = old ∨ ∃ input, e = .observation input ∧ new = input.ownedBy old.insightId) := by
  cases e with
  | observation input =>
    cases h with
    | hidden => exact .inr ⟨shown', new, hs, rfl, hn, .inl rfl⟩
    | stale =>
      cases hs
      exact .inr ⟨shown', new, rfl, rfl, hn, .inl rfl⟩
    | refreshed =>
      cases hs
      exact .inr ⟨_, new, rfl, rfl, hn, .inl rfl⟩
    | started =>
      cases hs
      cases hn
      exact .inl ⟨rfl, rfl⟩
    | revised _ _ hold =>
      cases hs
      cases hn
      exact .inr ⟨_, _, rfl, rfl, hold, .inr ⟨input, rfl, rfl⟩⟩
  | invalidation v =>
    cases h with
    | repeated | stale => exact .inr ⟨shown', new, hs, rfl, hn, .inl rfl⟩
    | unseen => cases hs
    | removed | again =>
      cases hs
      exact .inr ⟨_, new, rfl, rfl, hn, .inl rfl⟩

/-- The register agrees with the entry it took last. -/
inductive Reflects : FillRegister → Option FillEntry → Prop
  | unseen : Reflects ⟨none, none⟩ none
  | active {last old e} (h : old.fill.facts = last.fill.facts) :
      Reflects ⟨some ⟨last.fill.asOfUs, e, .observation old⟩, none⟩ (some (.observation last))
  | fenced {last} : Reflects ⟨none, some last⟩ (some (.invalidation last))
  | removed {last e old first} :
      Reflects ⟨some ⟨last.asOfUs, e, .invalidated old first⟩, some last⟩
        (some (.invalidation last))

theorem Reflects.active_facts {x : Option FillEntry} (h : r.Reflects x) :
    r.active.map (·.fill.facts) = x.bind FillEntry.facts := by
  cases h with
  | unseen | fenced | removed => rfl
  | active h => exact congrArg some h

theorem Observes.holds (ho : Observes epoch input r r')
    (h : Holds FillEntry.asOfUs r.Reflects entries) :
    Holds FillEntry.asOfUs r'.Reflects (entries ++ [.observation input]) := by
  cases ho with
  | hidden hv =>
    refine h.skip nofun fun e he => ?_
    cases he with
    | fenced | removed => exact hv
  | @stale _ removal hv hlt =>
    cases removal with
    | none =>
      refine h.skip nofun fun e he => ?_
      cases he with
      | active => exact hlt.le
    | some v =>
      -- A removal has the time of the head it removed.
      cases h with
      | nothing _ hR => cases hR
      | newest e _ hR =>
        cases hR with
        | removed => exact absurd (hv v rfl) (not_lt.2 hlt.le)
  | refreshed hv hle hfacts =>
    refine h.take (fun e he => ?_) (.active hfacts)
    cases he with
    | active => exact hle
  | @started removal hv =>
    refine h.take (fun e he => ?_) (.active rfl)
    cases he with
    | fenced => exact (hv _ rfl).le
  | revised hv hlt =>
    refine h.take (fun e he => ?_) (.active rfl)
    cases he with
    | active | removed => exact hlt.le

theorem Removes.holds (hr : Removes v r r') (h : Holds FillEntry.asOfUs r.Reflects entries) :
    Holds FillEntry.asOfUs r'.Reflects (entries ++ [.invalidation v]) := by
  cases hr with
  | repeated hle =>
    refine h.skip nofun fun e he => ?_
    cases he with
    | fenced | removed => exact hle
  | stale hlt =>
    refine h.skip nofun fun e he => ?_
    cases he with
    | active | removed => exact hlt.le
  | unseen hold =>
    refine h.take (fun e he => ?_) .fenced
    cases he with
    | fenced => exact (hold _ rfl).le
  | removed _ hlt =>
    refine h.take (fun e he => ?_) .removed
    cases he with
    | active => exact hlt.le
  | again _ hle =>
    refine h.take (fun e he => ?_) .removed
    cases he with
    | removed => exact hle

theorem Takes.holds (ht : Takes epoch e r r') (h : Holds FillEntry.asOfUs r.Reflects entries) :
    Holds FillEntry.asOfUs r'.Reflects (entries ++ [e]) := by
  cases e with
  | observation => exact Observes.holds ht h
  | invalidation v => exact Removes.holds ht h

end FillRegister

end AqEngine.Broker
