import Broadcaster.PythonValues
import Broadcaster.ScheduleService
import Broadcaster.UnitOfWork
import Mathlib.Data.List.Perm.Subperm

/-!
# Results of the account workers

`process_wa_results` and `process_max_results` pop up to a hundred documents
and write the whole batch in one session with one commit. A lookup by primary
key first flushes the session, unless the row is in its identity map. The tables
are parameters: what a key finds, and which new rows the database rejects.
-/

namespace Broadcaster
namespace SendResults

open Python ScheduleService

/-- A row of `send_logs`, with the values as they stood in the document. -/
structure SendLog where
  userId : Json
  scheduleId : Json
  adId : Json
  groupId : Json
  taskId : Json
  status : Json
  errorMessage : Json
  messengerType : String
  adTitle : Json
  adText : Json
  adImages : Json
  groupName : Json
  deriving DecidableEq

/-- What a result does to `last_error` and `error_at` of its group. -/
structure GroupError where
  group : ℕ
  lastError : Json
  errorAt : Option Instant
  deriving DecidableEq

inductive DbError
  | statementRejected | pendingRollback
  deriving DecidableEq

structure Tables where
  /-- The images of the ad; a value that is no integer is refused before it is sent. -/
  getAd : Json → Except DbError (Option (List String))
  getGroup : Json → Except DbError (Option ℕ)
  rejects : SendLog → Bool

def get (fields : List (String × Json)) (key : String) : Json := (fields.lookup key).getD .null

/-- The original S3 keys of the ad, when it still exists and has any. -/
def chooseImages (fields : List (String × Json)) : Option (List String) → Json
  | some (image::images) => Json.ofStrings (image::images)
  | _ => get fields "ad_images"

/-- The row of a document; `none` is a `KeyError`. -/
def sendLog (messengerType : String) (fields : List (String × Json)) (adImages : Json) :
    Option SendLog :=
  (fields.lookup "user_id").bind fun userId => (fields.lookup "status").map fun status =>
    { userId := userId
      scheduleId := get fields "schedule_id"
      adId := get fields "ad_id"
      groupId := get fields "group_id"
      taskId := get fields "task_id"
      status := status
      errorMessage := get fields "error_message"
      messengerType := messengerType
      adTitle := get fields "ad_title"
      adText := get fields "ad_text"
      adImages := adImages
      groupName := get fields "group_name" }

/-- A session in the middle of a batch; `lookups` numbers its calls of `session.get`. -/
structure Writer where
  session : Session SendLog
  groups : List GroupError
  lookups : ℕ

def Writer.start : Writer := ⟨.empty SendLog,[],0⟩

/-- What a call needs besides the documents. `inIdentityMap` tells which of its lookups find their
row in the session. -/
structure Environment where
  tables : Tables
  messengerType : String
  now : Instant
  inIdentityMap : ℕ → Bool

variable (env : Environment)

def sessionGet {α : Type} (w : Writer) (lookup : Json → Except DbError (Option α)) (key : Json) :
    Writer × Except DbError (Option α) :=
  if env.inIdentityMap w.lookups then ({ w with lookups := w.lookups+1 },lookup key)
  else
    let session := w.session.flush env.tables.rejects
    ({ w with session := session, lookups := w.lookups+1 },
      if session.broken then .error .pendingRollback else lookup key)

def adImages (w : Writer) (fields : List (String × Json)) : Writer × Except DbError Json :=
  if (get fields "ad_id").truthy then
    let (w,ad) := sessionGet env w env.tables.getAd (get fields "ad_id")
    (w,ad.map (chooseImages fields))
  else (w,.ok (get fields "ad_images"))

/-- The end of the `try` block; the row has been added and stays in the session also if the lookup
of the group raises. -/
def updateGroup (w : Writer) (fields : List (String × Json)) : Writer :=
  if (get fields "group_id").truthy then
    match sessionGet env w env.tables.getGroup (get fields "group_id") with
    | (w,.ok (some group)) =>
      if (get fields "no_retry").truthy then
        { w with groups := w.groups ++ [⟨group,get fields "error_message",some env.now⟩] }
      else if get fields "status" = .str "ok" then
        { w with groups := w.groups ++ [⟨group,.null,none⟩] }
      else w
    | (w,_) => w
  else w

/-- One round of the loop. The `except` branch calls `result.get` too, so that a document that is
not an object ends the batch: `none`. -/
def writeResult (w : Writer) : Json → Option Writer
  | .obj fields =>
    match adImages env w fields with
    | (w,.error _) => some w
    | (w,.ok images) =>
      match sendLog env.messengerType fields images with
      | none => some w
      | some row => some (updateGroup env { w with session := w.session.add row } fields)
  | _ => none

def writeResults (w : Writer) : List Json → Option Writer
  | [] => some w
  | doc::docs => (writeResult env w doc).bind fun w => writeResults w docs

/-- `_process_results_async`: the rows of `send_logs` that are committed. -/
def processResultsAsync (docs : List Json) : List SendLog :=
  match writeResults env .start docs with
  | none => []
  | some w => w.session.commit env.tables.rejects

/-- What `lpop` returned: an empty string, bytes for which `json.loads` raises a `JSONDecodeError`, bytes for
which it raises something else (an integer of more than 4300 digits, a nesting that is too deep, no UTF-8), or
a document. -/
inductive Raw
  | empty
  | invalid
  | raising
  | json (doc : Json)
  deriving DecidableEq

/-- What the popping loop has read when it ends, whether an exception has ended it, and what is left in
Redis. -/
structure Popped where
  docs : List Json
  raised : Bool
  left : List Raw
  deriving DecidableEq

def popResults : ℕ → List Raw → Popped
  | 0, raws => ⟨[],false,raws⟩
  | _+1, [] => ⟨[],false,[]⟩
  | _+1, .empty::raws => ⟨[],false,raws⟩
  | n+1, .invalid::raws => popResults n raws
  | _+1, .raising::raws => ⟨[],true,raws⟩
  | n+1, .json doc::raws => { popResults n raws with docs := doc::(popResults n raws).docs }

/-- One run of the task on the queue of results. The outer `except` has nothing to write. -/
def processResults (raws : List Raw) : List SendLog × List Raw :=
  let popped := popResults 100 raws
  (if popped.raised then [] else processResultsAsync env popped.docs,popped.left)

def processWaResults (tables : Tables) (now : Instant) (inIdentityMap : ℕ → Bool) :
    List Raw → List SendLog × List Raw :=
  processResults ⟨tables,"wa",now,inIdentityMap⟩

def processMaxResults (tables : Tables) (now : Instant) (inIdentityMap : ℕ → Bool) :
    List Raw → List SendLog × List Raw :=
  processResults ⟨tables,"max",now,inIdentityMap⟩

def storedImages (tables : Tables) (fields : List (String × Json)) : Except DbError Json :=
  if (get fields "ad_id").truthy then
    (tables.getAd (get fields "ad_id")).map (chooseImages fields)
  else .ok (get fields "ad_images")

def addedRow (tables : Tables) (messengerType : String) : Json → Option SendLog
  | .obj fields => (storedImages tables fields).toOption.bind (sendLog messengerType fields)
  | _ => none

def isObject : Json → Bool
  | .obj _ => true
  | _ => false

def rejected (tables : Tables) (messengerType : String) (doc : Json) : Bool :=
  (addedRow tables messengerType doc).any tables.rejects

variable {env} {w : Writer} {fields : List (String × Json)} {rows : List SendLog}

theorem sessionGet_holds {α : Type} (h : w.session.Holds env.tables.rejects rows)
    (lookup : Json → Except DbError (Option α)) (key : Json) :
    (sessionGet env w lookup key).1.session.Holds env.tables.rejects rows ∧
    ((sessionGet env w lookup key).2 = lookup key ∨
      (sessionGet env w lookup key).1.session.broken = true) := by
  unfold sessionGet
  split
  · exact ⟨h,.inl rfl⟩
  · refine ⟨h.flush,?_⟩
    by_cases hb : (w.session.flush env.tables.rejects).broken = true
    · exact .inr hb
    · exact .inl (if_neg hb)

theorem updateGroup_holds (h : w.session.Holds env.tables.rejects rows) :
    (updateGroup env w fields).session.Holds env.tables.rejects rows := by
  unfold updateGroup
  split
  · have hget := (sessionGet_holds h env.tables.getGroup (get fields "group_id")).1
    split
    · rename_i heq
      rw [heq] at hget
      split
      · exact hget
      · split <;> exact hget
    · rename_i heq
      rw [heq] at hget
      exact hget
  · exact h

theorem adImages_holds (h : w.session.Holds env.tables.rejects rows) (fields : List (String × Json)) :
    (adImages env w fields).1.session.Holds env.tables.rejects rows ∧
    ((adImages env w fields).2 = storedImages env.tables fields ∨
      (adImages env w fields).1.session.broken = true) := by
  unfold adImages storedImages
  split
  · obtain ⟨hholds,hvalue⟩ := sessionGet_holds h env.tables.getAd (get fields "ad_id")
    refine ⟨hholds,?_⟩
    rcases hvalue with hvalue | hbroken
    · exact .inl (congrArg (Except.map (chooseImages fields)) hvalue)
    · exact .inr hbroken
  · exact ⟨h,.inl rfl⟩

theorem writeResult_holds {w' : Writer} {doc : Json} (h : w.session.Holds env.tables.rejects rows)
    (hw : writeResult env w doc = some w') :
    w'.session.Holds env.tables.rejects (rows ++ (addedRow env.tables env.messengerType doc).toList) := by
  cases doc with
  | obj fields =>
    obtain ⟨himages,hvalue⟩ := adImages_holds h fields
    simp only [writeResult] at hw
    simp only [addedRow]
    cases ha : adImages env w fields with
    | mk w₁ result =>
      rw [ha] at himages hvalue hw
      cases result with
      | error e =>
        have hw' : w₁ = w' := Option.some.inj hw
        subst hw'
        rcases hvalue with hvalue | hbroken
        · rw [← hvalue]
          simpa [Except.toOption] using himages
        · exact himages.ignore hbroken _
      | ok images =>
        cases hrow : sendLog env.messengerType fields images with
        | none =>
          simp only [hrow,Option.some.injEq] at hw
          subst hw
          rcases hvalue with hvalue | hbroken
          · rw [← hvalue]
            simpa [Except.toOption,hrow] using himages
          · exact himages.ignore hbroken _
        | some row =>
          simp only [hrow,Option.some.injEq] at hw
          subst hw
          rcases hvalue with hvalue | hbroken
          · rw [← hvalue]
            have hadd := himages.add row
            simpa [Except.toOption,hrow] using updateGroup_holds
              (w := { w₁ with session := w₁.session.add row }) hadd
          · have hadd := (himages.add_of_broken hbroken row).ignore hbroken
            exact updateGroup_holds (w := { w₁ with session := w₁.session.add row }) (hadd _)
  | null | bool | int | float | str | arr => cases hw

theorem writeResult_isSome (env : Environment) (w : Writer) (doc : Json) :
    (writeResult env w doc).isSome = isObject doc := by
  cases doc with
  | obj fields =>
    simp only [writeResult,isObject]
    cases adImages env w fields with
    | mk w₁ result =>
      cases result with
      | error e => rfl
      | ok images => cases hrow : sendLog env.messengerType fields images <;> simp [hrow]
  | null | bool | int | float | str | arr => rfl

theorem writeResults_holds {w' : Writer} {docs : List Json} (h : w.session.Holds env.tables.rejects rows)
    (hw : writeResults env w docs = some w') :
    w'.session.Holds env.tables.rejects
      (rows ++ docs.filterMap (addedRow env.tables env.messengerType)) := by
  induction docs generalizing w rows with
  | nil =>
    have he : w = w' := Option.some.inj hw
    subst he
    simpa using h
  | cons doc docs ih =>
    obtain ⟨w₁,hdoc,hdocs⟩ := Option.bind_eq_some_iff.mp hw
    have hrun := ih (writeResult_holds h hdoc) hdocs
    cases hrow : addedRow env.tables env.messengerType doc <;> simpa [hrow] using hrun

theorem writeResults_isSome (env : Environment) (w : Writer) (docs : List Json) :
    (writeResults env w docs).isSome = docs.all isObject := by
  induction docs generalizing w with
  | nil => rfl
  | cons doc docs ih =>
    have hdoc := writeResult_isSome env w doc
    cases hw : writeResult env w doc with
    | none => simp_all [writeResults]
    | some w₁ => simp_all [writeResults]

/-- No document of the batch ends the loop, and none has a row that is rejected. -/
def allSound (tables : Tables) (messengerType : String) (docs : List Json) : Bool :=
  docs.all fun doc => isObject doc && !rejected tables messengerType doc

theorem any_rejected (tables : Tables) (messengerType : String) (docs : List Json) :
    (docs.filterMap (addedRow tables messengerType)).any tables.rejects =
      docs.any (rejected tables messengerType) := by
  induction docs with
  | nil => rfl
  | cons doc docs ih =>
    cases hrow : addedRow tables messengerType doc with
    | none => simp [hrow,ih,rejected]
    | some row => simp [hrow,ih,rejected]

theorem allSound_eq (tables : Tables) (messengerType : String) (docs : List Json) :
    allSound tables messengerType docs =
      (docs.all isObject && !docs.any (rejected tables messengerType)) := by
  induction docs with
  | nil => rfl
  | cons doc docs ih =>
    have hcons : allSound tables messengerType (doc::docs) =
        (isObject doc && !rejected tables messengerType doc && allSound tables messengerType docs) := rfl
    rw [hcons,ih,List.all_cons,List.any_cons]
    generalize docs.all isObject = objects
    generalize docs.any (rejected tables messengerType) = bad
    cases isObject doc <;> cases rejected tables messengerType doc <;> cases objects <;>
      cases bad <;> rfl

theorem processResultsAsync_eq (docs : List Json) :
    processResultsAsync env docs =
      if allSound env.tables env.messengerType docs then
        docs.filterMap (addedRow env.tables env.messengerType)
      else [] := by
  have hsome := writeResults_isSome env .start docs
  have hsound := allSound_eq env.tables env.messengerType docs
  unfold processResultsAsync
  cases hw : writeResults env .start docs with
  | none =>
    have hobject : docs.all isObject = false := by simpa [hw] using hsome.symm
    rw [hobject,Bool.false_and] at hsound
    simp [hsound]
  | some w =>
    have hobject : docs.all isObject = true := by simpa [hw] using hsome.symm
    have hempty : Writer.start.session.Holds env.tables.rejects [] := Session.holds_empty
    have hcommit := (writeResults_holds hempty hw).commit
    rw [List.nil_append,any_rejected] at hcommit
    rw [hobject,Bool.true_and] at hsound
    rw [hsound]
    cases hany : docs.any (rejected env.tables env.messengerType) <;> simpa [hany] using hcommit

/-- Every document of the batch that would be written if it were popped alone is written. The two
runs need not find the same rows in their sessions. -/
def Isolates (tables : Tables) (messengerType : String) (now now' : Instant)
    (inIdentityMap inIdentityMap' : ℕ → Bool) (raws : List Raw) : Prop :=
  ((popResults 100 raws).docs.flatMap fun doc =>
      (processResults ⟨tables,messengerType,now',inIdentityMap'⟩ [.json doc]).1).Subperm
    (processResults ⟨tables,messengerType,now,inIdentityMap⟩ raws).1

/-- The loop that pops has come to its end, and the batch consists of objects whose rows are accepted; or no
row of the batch would be accepted. -/
def BatchCondition (tables : Tables) (messengerType : String) (raws : List Raw) : Prop :=
  ((popResults 100 raws).raised = false ∧ ∀ doc ∈ (popResults 100 raws).docs,
      isObject doc = true ∧ rejected tables messengerType doc = false) ∨
    ∀ doc ∈ (popResults 100 raws).docs, ∀ row, addedRow tables messengerType doc = some row →
      tables.rejects row = true

theorem allSound_iff {tables : Tables} {messengerType : String} {docs : List Json} :
    allSound tables messengerType docs = true ↔
      ∀ doc ∈ docs, isObject doc = true ∧ rejected tables messengerType doc = false := by
  simp [allSound]

theorem isObject_of_addedRow {tables : Tables} {messengerType : String} {doc : Json} {row : SendLog}
    (h : addedRow tables messengerType doc = some row) : isObject doc = true := by
  cases doc with
  | obj fields => rfl
  | null | bool | int | float | str | arr => cases h

theorem alone_eq (doc : Json) : (processResults env [.json doc]).1 =
    ((addedRow env.tables env.messengerType doc).filter fun row => !env.tables.rejects row).toList := by
  have hpop : popResults 100 [.json doc] = ⟨[doc],false,[]⟩ := rfl
  simp only [processResults,hpop,processResultsAsync_eq,Bool.false_eq_true,if_false]
  cases hrow : addedRow env.tables env.messengerType doc with
  | none => simp [hrow]
  | some row =>
    have hobject := isObject_of_addedRow hrow
    cases hrej : env.tables.rejects row <;> simp [allSound,rejected,hrow,hobject,hrej,Option.filter]

theorem flatMap_alone {docs : List Json} (h : allSound env.tables env.messengerType docs = true) :
    (docs.flatMap fun doc => (processResults env [.json doc]).1) =
      docs.filterMap (addedRow env.tables env.messengerType) := by
  induction docs with
  | nil => rfl
  | cons doc docs ih =>
    have hall := allSound_iff.mp h
    have hdoc := (hall doc (List.mem_cons_self ..)).2
    have hdocs := ih (allSound_iff.mpr fun d hd => hall d (List.mem_cons_of_mem _ hd))
    rw [List.flatMap_cons,hdocs,alone_eq]
    cases hrow : addedRow env.tables env.messengerType doc with
    | none => simp [hrow]
    | some row =>
      have hacc : env.tables.rejects row = false := by simpa [rejected,hrow] using hdoc
      simp [hrow,hacc,Option.filter]

theorem isolates_iff (tables : Tables) (messengerType : String) (now now' : Instant)
    (inIdentityMap inIdentityMap' : ℕ → Bool) (raws : List Raw) :
    Isolates tables messengerType now now' inIdentityMap inIdentityMap' raws ↔
      BatchCondition tables messengerType raws := by
  have hbatch : (processResults ⟨tables,messengerType,now,inIdentityMap⟩ raws).1 =
      if (popResults 100 raws).raised = false ∧ allSound tables messengerType (popResults 100 raws).docs = true then
        (popResults 100 raws).docs.filterMap (addedRow tables messengerType)
      else [] := by
    simp only [processResults,processResultsAsync_eq]
    cases (popResults 100 raws).raised <;> simp
  unfold Isolates BatchCondition
  rw [hbatch,← allSound_iff]
  generalize (popResults 100 raws).docs = docs
  by_cases hsound : (popResults 100 raws).raised = false ∧ allSound tables messengerType docs = true
  · have halone : (docs.flatMap fun doc =>
          (processResults ⟨tables,messengerType,now',inIdentityMap'⟩ [.json doc]).1) =
        docs.filterMap (addedRow tables messengerType) := flatMap_alone hsound.2
    rw [halone,if_pos hsound]
    exact ⟨fun _ => .inl hsound,fun _ => List.Subperm.refl _⟩
  · rw [if_neg hsound,List.subperm_nil,List.flatMap_eq_nil_iff]
    simp only [alone_eq,Option.toList_eq_nil_iff,Option.filter_eq_none_iff]
    constructor
    · intro h
      refine .inr ?_
      intro doc hdoc row hrow
      simpa using h doc hdoc row hrow
    · intro h doc hdoc row hrow
      simpa using (h.resolve_left hsound) doc hdoc row hrow

/-- For the results of either messenger, whatever the tables hold. -/
theorem bad_result_costs_only_itself (tables : Tables) (now now' : Instant)
    (inIdentityMap inIdentityMap' : ℕ → Bool) (raws : List Raw) :
    (((popResults 100 raws).docs.flatMap fun doc =>
          (processWaResults tables now' inIdentityMap' [.json doc]).1).Subperm
        (processWaResults tables now inIdentityMap raws).1 ↔ BatchCondition tables "wa" raws) ∧
    (((popResults 100 raws).docs.flatMap fun doc =>
          (processMaxResults tables now' inIdentityMap' [.json doc]).1).Subperm
        (processMaxResults tables now inIdentityMap raws).1 ↔ BatchCondition tables "max" raws) :=
  ⟨isolates_iff tables "wa" now now' inIdentityMap inIdentityMap' raws,
    isolates_iff tables "max" now now' inIdentityMap inIdentityMap' raws⟩

def acceptAll : Tables := ⟨fun _ => .ok none,fun _ => .ok none,fun _ => false⟩

def sent : Json := .obj [("user_id",.int 1),("status",.str "ok")]

theorem not_isolates_sent {messengerType : String} {raws : List Raw}
    (hdocs : sent ∈ (popResults 100 raws).docs)
    (hbad : (popResults 100 raws).raised = true ∨ .int 5 ∈ (popResults 100 raws).docs) :
    ¬ Isolates acceptAll messengerType 0 0 (fun _ => false) (fun _ => false) raws := by
  rw [isolates_iff]
  rintro (⟨hread,hsound⟩ | hrejected)
  · rcases hbad with hraised | hnumber
    · rw [hraised] at hread
      cases hread
    · exact absurd (hsound (.int 5) hnumber).1 (by decide)
  · exact absurd (hrejected sent hdocs _ rfl) Bool.false_ne_true

/-- A number that is no object costs the document before it, and so does one that is too long to be read. -/
theorem number_costs_the_batch :
    (¬ Isolates acceptAll "wa" 0 0 (fun _ => false) (fun _ => false) [.json sent,.json (.int 5)] ∧
      ¬ Isolates acceptAll "wa" 0 0 (fun _ => false) (fun _ => false) [.json sent,.raising]) ∧
    ¬ Isolates acceptAll "max" 0 0 (fun _ => false) (fun _ => false) [.json sent,.json (.int 5)] ∧
    ¬ Isolates acceptAll "max" 0 0 (fun _ => false) (fun _ => false) [.json sent,.raising] := by
  have hnumber : ∀ messengerType, ¬ Isolates acceptAll messengerType 0 0 (fun _ => false) (fun _ => false)
      [.json sent,.json (.int 5)] := fun _ => not_isolates_sent (by decide) (.inr (by decide))
  have hraising : ∀ messengerType, ¬ Isolates acceptAll messengerType 0 0 (fun _ => false) (fun _ => false)
      [.json sent,.raising] := fun _ => not_isolates_sent (by decide) (.inl (by decide))
  exact ⟨⟨hnumber "wa",hraising "wa"⟩,hnumber "max",hraising "max"⟩

end SendResults
end Broadcaster
