import Broadcaster.ScheduleSystem

/-!
# The resync of the groups of an account

`apply_group_resync` brings the rows of an account in line with the answer of
its messenger. The answer is foreign data: any JSON value, of which the elements
that name no group are passed over.
-/

namespace Broadcaster
namespace GroupResync

open Python ScheduleService
open ScheduleSystem (GroupResyncResult externalIdMax nameMax emptyResponseMessage malformedResponseMessage)

structure GroupRow where
  userId : ℕ
  accountId : ℕ
  messengerType : String
  groupExternalId : String
  name : String
  isActive : Bool
  lastError : Option String
  errorAt : Option Instant
  missingSince : Option Instant
  deriving DecidableEq

structure Account where
  id : ℕ
  userId : ℕ
  lastSyncedAt : Option Instant
  lastSyncResult : Option GroupResyncResult
  deriving DecidableEq

structure State where
  groups : Store GroupRow
  schedules : Store Schedule
  account : Account

/-- `str(value)`; `repr` is the text of a float, a list or a dictionary. -/
def str (repr : Json → String) : Json → String
  | .null => "None"
  | .bool b => if b then "True" else "False"
  | .int n => toString n
  | .str s => s
  | value => repr value

def get (fields : List (String × Json)) (key : String) : Json := (fields.lookup key).getD .null

/-- `name[:_NAME_MAX]` -/
def cut (name : String) : String := String.ofList (name.toList.take nameMax)

def groupsOf (groups : Store GroupRow) (accountId : ℕ) : List (ℕ × GroupRow) :=
  groups.select fun group => group.accountId = accountId

def existingGroup (existing : List (ℕ × GroupRow)) (externalId : String) : Option (ℕ × GroupRow) :=
  existing.find? fun r => r.2.groupExternalId = externalId

def newGroup (account : Account) (messengerType externalId name : String) : GroupRow where
  userId := account.userId
  accountId := account.id
  messengerType := messengerType
  groupExternalId := externalId
  name := name
  isActive := true
  lastError := none
  errorAt := none
  missingSince := none

structure Resync where
  groups : Store GroupRow
  seen : List String
  created : ℕ
  renamed : ℕ

def resyncItem (repr : Json → String) (account : Account) (messengerType : String)
    (existing : List (ℕ × GroupRow)) (r : Resync) : Json → Resync
  | .obj fields =>
    if get fields "id" = .null then r
    else
      let externalId := str repr (get fields "id")
      if externalIdMax < externalId.length then r
      else if r.seen.contains externalId then r
      else
        let raw := get fields "name"
        let name := cut (if raw.truthy then str repr raw else externalId)
        match existingGroup existing externalId with
        | none =>
          { groups := r.groups.insert (newGroup account messengerType externalId name)
            seen := externalId::r.seen
            created := r.created+1
            renamed := r.renamed }
        | some (i,group) =>
          { groups := r.groups.update i fun g => { g with name := name, missingSince := none }
            seen := externalId::r.seen
            created := r.created
            renamed := if group.name ≠ name then r.renamed+1 else r.renamed }
  | _ => r

def applyGroupResync (repr : Json → String) (s : State) (fetched : Json) (messengerType : String)
    (allowFullWipe : Bool) (now : Instant) : State × GroupResyncResult :=
  match fetched with
  | .arr items =>
    let existing := groupsOf s.groups s.account.id
    let r := items.foldl (resyncItem repr s.account messengerType existing) ⟨s.groups,[],0,0⟩
    if !existing.isEmpty && r.seen.isEmpty && !allowFullWipe then
      let result : GroupResyncResult := ⟨0,0,0,0,some emptyResponseMessage⟩
      ({ s with groups := r.groups, account := { s.account with lastSyncResult := some result } },result)
    else
      let missing := existing.filter fun g => !r.seen.contains g.2.groupExternalId
      let result : GroupResyncResult := ⟨r.seen.length,r.created,r.renamed,missing.length,none⟩
      ({ s with
        groups := r.groups.rewrite fun i g =>
          some (if (missing.map Prod.fst).contains i && g.missingSince.isNone then
            { g with missingSince := some now } else g)
        account := { s.account with lastSyncedAt := some now, lastSyncResult := some result } },result)
  | _ =>
    let result : GroupResyncResult := ⟨0,0,0,0,some malformedResponseMessage⟩
    ({ s with account := { s.account with lastSyncResult := some result } },result)

/-- The id and the name of an element, when it names a group. -/
def usable (repr : Json → String) : Json → Option (String × String)
  | .obj fields =>
    if get fields "id" = .null then none
    else
      let externalId := str repr (get fields "id")
      let raw := get fields "name"
      if externalIdMax < externalId.length then none
      else some (externalId,cut (if raw.truthy then str repr raw else externalId))
  | _ => none

/-- What the answer says of groups, with repetitions. -/
def answer (repr : Json → String) (items : List Json) : List (String × String) := items.filterMap (usable repr)

def usableIds (repr : Json → String) (items : List Json) : List String := (answer repr items).map Prod.fst

def Known (groups : Store GroupRow) (accountId : ℕ) (externalId : String) : Prop :=
  ∃ i g, groups.row i = some g ∧ g.accountId = accountId ∧ g.groupExternalId = externalId

/-- `uq_groups_account_external`, for one account -/
def DistinctIds (groups : Store GroupRow) (accountId : ℕ) : Prop :=
  ∀ i j g h, groups.row i = some g → groups.row j = some h → g.accountId = accountId → h.accountId = accountId →
    g.groupExternalId = h.groupExternalId → i = j

section Loop

variable {repr : Json → String} {account : Account} {messengerType : String} {existing : List (ℕ × GroupRow)}

def visit (account : Account) (messengerType : String) (existing : List (ℕ × GroupRow)) (r : Resync)
    (p : String × String) : Resync :=
  if r.seen.contains p.1 then r
  else
    match existingGroup existing p.1 with
    | none => ⟨r.groups.insert (newGroup account messengerType p.1 p.2),p.1::r.seen,r.created+1,r.renamed⟩
    | some (i,group) =>
      ⟨r.groups.update i fun g => { g with name := p.2, missingSince := none },p.1::r.seen,r.created,
        if group.name ≠ p.2 then r.renamed+1 else r.renamed⟩

theorem resyncItem_eq (r : Resync) (item : Json) :
    resyncItem repr account messengerType existing r item =
      match usable repr item with
      | some p => visit account messengerType existing r p
      | none => r := by
  cases item with
  | obj fields =>
    simp only [resyncItem,usable,visit]
    split
    · rfl
    · split
      · rfl
      · rfl
  | _ => rfl

theorem foldl_resyncItem (items : List Json) (r : Resync) :
    items.foldl (resyncItem repr account messengerType existing) r =
      (answer repr items).foldl (visit account messengerType existing) r := by
  rw [answer,List.foldl_filterMap]
  apply List.foldl_ext
  intro r item _
  rw [resyncItem_eq]
  cases usable repr item with
  | none => rfl
  | some p => rfl

end Loop

section Rows

variable {groups : Store GroupRow} {a i : ℕ} {g : GroupRow} {externalId : String}

theorem mem_groupsOf : (i,g) ∈ groupsOf groups a ↔ groups.row i = some g ∧ g.accountId = a := by
  rw [groupsOf,Store.mem_select,decide_eq_true_iff]

theorem existingGroup_eq_none :
    existingGroup (groupsOf groups a) externalId = none ↔ ¬ Known groups a externalId := by
  unfold existingGroup
  rw [List.find?_eq_none]
  constructor
  · rintro h ⟨i,g,hg,ha,hid⟩
    exact h (i,g) (mem_groupsOf.mpr ⟨hg,ha⟩) (by simp [hid])
  · rintro h ⟨i,g⟩ hmem hid
    obtain ⟨hg,ha⟩ := mem_groupsOf.mp hmem
    exact h ⟨i,g,hg,ha,of_decide_eq_true hid⟩

theorem row_of_existingGroup (h : existingGroup (groupsOf groups a) externalId = some (i,g)) :
    groups.row i = some g ∧ g.accountId = a ∧ g.groupExternalId = externalId := by
  unfold existingGroup at h
  obtain ⟨hg,ha⟩ := mem_groupsOf.mp (List.mem_of_find?_eq_some h)
  have hid := List.find?_some (p := fun r : ℕ × GroupRow => decide (r.2.groupExternalId = externalId)) h
  exact ⟨hg,ha,of_decide_eq_true hid⟩

theorem DistinctIds.rewrite {f : ℕ → GroupRow → Option GroupRow} (h : DistinctIds groups a)
    (hf : ∀ i g g', f i g = some g' → g'.accountId = g.accountId ∧ g'.groupExternalId = g.groupExternalId) :
    DistinctIds (groups.rewrite f) a := by
  intro i j g' k' hg' hk' ha hb hid
  rw [Store.row_rewrite] at hg' hk'
  obtain ⟨g,hg,hfg⟩ := Option.bind_eq_some_iff.mp hg'
  obtain ⟨k,hk,hfk⟩ := Option.bind_eq_some_iff.mp hk'
  obtain ⟨hga,hgid⟩ := hf i g g' hfg
  obtain ⟨hka,hkid⟩ := hf j k k' hfk
  exact h i j g k hg hk (hga.symm.trans ha) (hka.symm.trans hb) (hgid.symm.trans (hid.trans hkid))

end Rows

end GroupResync
end Broadcaster
