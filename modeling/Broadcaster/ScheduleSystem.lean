import Broadcaster.SchedulePages
import Broadcaster.PlannerRun
import Mathlib.Logic.Relation

/-!
# The operations that touch a schedule

Everything that creates, changes or deletes a schedule or what it refers to:
the users' requests for schedules, ads, accounts and groups, the resync of the
groups of an account, and the planner. Each is a transaction of its own; one
that raises leaves the database as it was. Foreign keys cascade: an ad takes its
schedules with it, an account its groups.
-/

namespace Broadcaster
namespace ScheduleSystem

open Python ScheduleService ScheduleRules Scheduling ScheduleRoutes SchedulePages

def detachSchedulesFromAccount (schedules : Store Schedule) (accountId : ℕ) : Store Schedule :=
  schedules.updateWhere (fun s => s.accountId = some accountId)
    fun s => { s.paused with accountId := none }

def accountFor (db : Database) (userId : ℕ) (accountId : ℤ) : Option (ℕ × MessengerAccount) :=
  ((db.accounts.find accountId).filter fun account => account.userId = userId).map
    (accountId.toNat,·)

def deleteAccount (db : Database) (userId : ℕ) (accountId : ℤ) : Database :=
  match accountFor db userId accountId with
  | none => db
  | some (i,_) =>
    { db with
      schedules := detachSchedulesFromAccount db.schedules i
      accounts := db.accounts.deleteWhere fun j _ => j = i
      groups := db.groups.deleteWhere fun _ group => group.accountId = i }

def removeGroupIds (db : Database) (userId : ℕ) (deleted : List ℤ) : Store Schedule :=
  db.schedules.updateWhere (fun s => db.ownsAd userId s.adId) fun s =>
    { s with groupIds := s.groupIds.filter fun g => !deleted.contains g }

def groupFor (db : Database) (userId : ℕ) (accountId groupId : ℤ) : Option (ℕ × Group) :=
  if idInColumn accountId && idInColumn groupId then
    ((db.groups.find groupId).filter fun group =>
      group.userId = userId && (group.accountId : ℤ) = accountId).map (groupId.toNat,·)
  else none

def accountGroupsDelete (db : Database) (userId : ℕ) (accountId groupId : ℤ) : Database :=
  match groupFor db userId accountId groupId with
  | none => db
  | some (i,_) =>
    { db with
      schedules := removeGroupIds db userId [(i : ℤ)]
      groups := db.groups.deleteWhere fun j _ => j = i }

def externalIdMax : ℕ := 255

def nameMax : ℕ := 255

/-- An element of the messenger's answer; `none` where the key is missing. -/
structure FetchedGroup where
  id : Option String
  name : Option String

structure GroupResyncResult where
  found : ℕ
  created : ℕ
  renamed : ℕ
  missing : ℕ
  error : Option String
  deriving DecidableEq

def emptyResponseMessage : String := "мессенджер вернул пустой состав групп — пометки не ставились"

def malformedResponseMessage : String :=
  "мессенджер вернул состав групп не списком — синхронизация не выполнена"

structure Resync where
  groups : Store Group
  seen : List String
  created : ℕ
  renamed : ℕ

def groupsOf (groups : Store Group) (accountId : ℕ) : List (ℕ × Group) :=
  groups.select fun group => group.accountId = accountId

def existingGroup (existing : List (ℕ × Group)) (externalId : String) : Option (ℕ × Group) :=
  existing.find? fun r => r.2.groupExternalId = externalId

/-- `none` is an element that is no mapping. -/
def resyncItem (accountId : ℕ) (account : MessengerAccount) (existing : List (ℕ × Group)) (r : Resync) :
    Option FetchedGroup → Resync
  | none => r
  | some item =>
    match item.id with
    | none => r
    | some externalId =>
      if externalIdMax < externalId.length || r.seen.contains externalId then r
      else
        let raw := if item.name.any (· ≠ "") then item.name.getD "" else externalId
        let name := String.ofList (raw.toList.take nameMax)
        match existingGroup existing externalId with
        | none =>
          { r with
            groups := r.groups.insert ⟨account.userId,accountId,externalId,name,true,none⟩
            seen := externalId::r.seen
            created := r.created+1 }
        | some (i,group) =>
          { r with
            groups := r.groups.update i fun g => { g with name := name, missingSince := none }
            seen := externalId::r.seen
            renamed := if group.name ≠ name then r.renamed+1 else r.renamed }

/-- `fetched` is `none` when the answer is no list. -/
def applyGroupResync (groups : Store Group) (accountId : ℕ) (account : MessengerAccount)
    (fetched : Option (List (Option FetchedGroup))) (allowFullWipe : Bool) (now : Instant) :
    Store Group × GroupResyncResult :=
  match fetched with
  | none => (groups,⟨0,0,0,0,some malformedResponseMessage⟩)
  | some items =>
    let existing := groupsOf groups accountId
    let r := items.foldl (resyncItem accountId account existing) ⟨groups,[],0,0⟩
    if !existing.isEmpty && r.seen.isEmpty && !allowFullWipe then
      (r.groups,⟨0,0,0,0,some emptyResponseMessage⟩)
    else
      let missing := existing.filter fun g => !r.seen.contains g.2.groupExternalId
      (r.groups.rewrite fun i g =>
          some (if (missing.map Prod.fst).contains i && g.missingSince.isNone then
            { g with missingSince := some now } else g),
        ⟨r.seen.length,r.created,r.renamed,missing.length,none⟩)

def resyncAccount (db : Database) (accountId : ℕ) (fetched : Option (List (Option FetchedGroup)))
    (allowFullWipe : Bool) (now : Instant) : Database :=
  match db.accounts.row accountId with
  | none => db
  | some account =>
    { db with groups := (applyGroupResync db.groups accountId account fetched allowFullWipe now).1 }

def adFor (db : Database) (userId : ℕ) (adId : ℤ) : Option (ℕ × Ad) :=
  if idInColumn adId then
    ((db.ads.find adId).filter fun ad => ad.userId = userId).map (adId.toNat,·)
  else none

def deleteAd (db : Database) (userId : ℕ) (adId : ℤ) : Database :=
  match adFor db userId adId with
  | none => db
  | some (i,_) =>
    { db with
      ads := db.ads.deleteWhere fun j _ => j = i
      schedules := db.schedules.deleteWhere fun _ s => s.adId = i }

/-- The editor of ads writes everything but the owner. -/
def saveAd (db : Database) (userId : ℕ) (adId : ℤ) (title text : String) (images : List String)
    (status : String) : Database :=
  match adFor db userId adId with
  | none => db
  | some (i,_) =>
    { db with
      ads := db.ads.update i fun ad =>
        { ad with title := title, text := text, images := images, status := status } }

inductive Operation
  | registerUser (timezone : String)
  | createAd (userId : ℕ) (title text : String) (images : List String) (status : String)
  | saveAd (userId : ℕ) (adId : ℤ) (title text : String) (images : List String) (status : String)
  | deleteAd (userId : ℕ) (adId : ℤ)
  | createAccount (userId : ℕ) (type : String)
  | accountStatus (accountId : ℕ) (status : String)
  | deleteAccount (userId : ℕ) (accountId : ℤ)
  | resync (accountId : ℕ) (fetched : Option (List (Option FetchedGroup))) (allowFullWipe : Bool)
  | deleteGroup (userId : ℕ) (accountId groupId : ℤ)
  | createSchedule (userId : ℕ) (data : CreateScheduleRequest)
  | updateSchedule (userId : ℕ) (scheduleId : ℤ) (data : UpdateScheduleRequest)
  | toggleSchedule (userId : ℕ) (scheduleId : ℤ)
  | deleteSchedule (userId : ℕ) (scheduleId : ℤ)
  | schedulesCreate (userId : ℕ) (form : ScheduleForm)
  | schedulesUpdate (userId : ℕ) (scheduleId : ℤ) (form : ScheduleForm)
  | schedulesToggle (userId : ℕ) (scheduleId : ℤ)
  | schedulesDelete (userId : ℕ) (sameOrigin : Bool) (scheduleId : ℤ)
  | checkSchedules (checkLimit : ℕ → Bool × String) (due : List (ℕ × Schedule))

/-- An exception rolls back. -/
def committed {α : Type} (db : Database) : Except PyError (Database × α) → Database
  | .ok r => r.1
  | .error _ => db

def perform (env : Environment) (db : Database) (now : Instant) : Operation → Database
  | .registerUser timezone => { db with users := db.users.insert ⟨false,timezone⟩ }
  | .createAd userId title text images status =>
    { db with ads := db.ads.insert ⟨userId,title,text,images,status⟩ }
  | .saveAd userId adId title text images status =>
    ScheduleSystem.saveAd db userId adId title text images status
  | .deleteAd userId adId => ScheduleSystem.deleteAd db userId adId
  | .createAccount userId type =>
    { db with accounts := db.accounts.insert ⟨userId,type,"disconnected"⟩ }
  | .accountStatus accountId status =>
    { db with accounts := db.accounts.update accountId fun account => { account with status := status } }
  | .deleteAccount userId accountId => ScheduleSystem.deleteAccount db userId accountId
  | .resync accountId fetched allowFullWipe => resyncAccount db accountId fetched allowFullWipe now
  | .deleteGroup userId accountId groupId => accountGroupsDelete db userId accountId groupId
  | .createSchedule userId data => committed db (ScheduleRoutes.createSchedule env db userId data now)
  | .updateSchedule userId scheduleId data =>
    committed db (ScheduleRoutes.updateSchedule env db userId scheduleId data now)
  | .toggleSchedule userId scheduleId =>
    committed db (ScheduleRoutes.toggleSchedule env db userId scheduleId now)
  | .deleteSchedule userId scheduleId => (ScheduleRoutes.deleteSchedule db userId scheduleId).1
  | .schedulesCreate userId form => committed db (SchedulePages.schedulesCreate env db userId form now)
  | .schedulesUpdate userId scheduleId form =>
    committed db (SchedulePages.schedulesUpdate env db userId scheduleId form now)
  | .schedulesToggle userId scheduleId =>
    committed db (SchedulePages.schedulesToggle env db userId scheduleId now)
  | .schedulesDelete userId sameOrigin scheduleId =>
    (SchedulePages.schedulesDelete db userId sameOrigin scheduleId).1
  | .checkSchedules checkLimit due =>
    -- `due` is an answer that the selection cannot give: there is no such run
    if Selects db.schedules now due then
      match Scheduling.checkSchedules env (worldOf db checkLimit) db.schedules now due with
      | .ok r => { db with schedules := r.1 }
      | .error _ => db
    else db

def Step (env : Environment) (C : Database → Instant → Operation → Prop) (db db' : Database) : Prop :=
  ∃ now op, C db now op ∧ db' = perform env db now op

def Reaches (env : Environment) (C : Database → Instant → Operation → Prop) :
    Database → Database → Prop :=
  Relation.ReflTransGen (Step env C)

def anyOperation : Database → Instant → Operation → Prop := fun _ _ _ => True

theorem Reaches.invariant {env : Environment} {C : Database → Instant → Operation → Prop}
    {I : Database → Prop} {a b : Database} (h : Reaches env C a b)
    (hstep : ∀ db now op, I db → C db now op → I (perform env db now op)) (ha : I a) : I b := by
  induction h with
  | refl => exact ha
  | tail _ hs ih =>
    obtain ⟨now,op,hc,he⟩ := hs
    rw [he]
    exact hstep _ now op ih hc

end ScheduleSystem
end Broadcaster
