import Broadcaster.GroupResync

/-!
# The resync that the scheduler sees

The scheduling tables keep of a group what a schedule depends on. The resync of
whole rows, seen through these columns, is the resync of the scheduling tables
with the ids and the names that the answer spells out.
-/

namespace Broadcaster

namespace Store

variable {Row Row' : Type} {s : Store Row}

/-- The table with some columns only. -/
def map (f : Row → Row') (s : Store Row) : Store Row' where
  size := s.size
  row := fun i => (s.row i).map f
  fresh := by
    intro i hi
    rw [s.fresh i hi]
    rfl

theorem map_insert (f : Row → Row') (r : Row) : (s.insert r).map f = (s.map f).insert (f r) := by
  refine ext_row rfl ?_
  funext i
  by_cases hi : i = s.size
  · simp [map,insert,hi]
  · simp [map,insert,hi]

theorem map_rewrite {f : Row → Row'} {g : ℕ → Row → Option Row} {g' : ℕ → Row' → Option Row'}
    (h : ∀ i r, (g i r).map f = g' i (f r)) : (s.rewrite g).map f = (s.map f).rewrite g' := by
  refine ext_row rfl ?_
  funext i
  cases hr : s.row i with
  | none => simp [map,rewrite,hr]
  | some r => simp [map,rewrite,hr,h]

theorem map_rows (f : Row → Row') : (s.map f).rows = s.rows.map fun r => (r.1,f r.2) := by
  simp only [rows,map,List.map_filterMap]
  apply List.filterMap_congr
  intro i _
  cases s.row i with
  | none => rfl
  | some r => rfl

theorem map_select {f : Row → Row'} {p : Row → Bool} {p' : Row' → Bool} (h : ∀ r, p' (f r) = p r) :
    (s.map f).select p' = (s.select p).map fun r => (r.1,f r.2) := by
  rw [select,select,map_rows,List.filter_map]
  congr 1
  apply List.filter_congr
  intro r _
  exact h r.2

end Store

namespace GroupResync

open Python ScheduleService
open ScheduleSystem (FetchedGroup GroupResyncResult)

/-- The columns that the scheduler reads. -/
def GroupRow.forget (g : GroupRow) : Group :=
  ⟨g.userId,g.accountId,g.groupExternalId,g.name,g.isActive,g.missingSince⟩

def forgetRow (r : ℕ × GroupRow) : ℕ × Group := (r.1,r.2.forget)

def Resync.forget (r : Resync) : ScheduleSystem.Resync :=
  ⟨r.groups.map GroupRow.forget,r.seen,r.created,r.renamed⟩

/-- The id and the name that an element spells out. -/
def fetchedGroup (repr : Json → String) : Json → Option FetchedGroup
  | .obj fields =>
    some
      { id := if get fields "id" = .null then none else some (str repr (get fields "id"))
        name := if (get fields "name").truthy then some (str repr (get fields "name")) else none }
  | _ => none

def fetchedGroups (repr : Json → String) : Json → Option (List (Option FetchedGroup))
  | .arr items => some (items.map (fetchedGroup repr))
  | _ => none

section Forget

variable {repr : Json → String} {account : Account} {owner : MessengerAccount} {messengerType : String}

theorem toString_ne_empty (n : ℤ) : toString n ≠ "" := by
  cases n with
  | ofNat m => exact Nat.repr_ne_empty
  | negSucc m =>
    intro he
    have hlength := congrArg String.length he
    simp [toString,Int.repr] at hlength

theorem str_ne_empty (hrepr : ∀ v, repr v ≠ "") {v : Json} (h : v.truthy = true) : str repr v ≠ "" := by
  cases v with
  | null => cases h
  | bool b =>
    cases b with
    | false => cases h
    | true =>
      show "True" ≠ ""
      decide
  | int n => exact toString_ne_empty n
  | str s => simpa [Json.truthy,str] using h
  | float q => exact hrepr _
  | arr xs => exact hrepr _
  | obj fields => exact hrepr _

theorem forget_groupsOf (groups : Store GroupRow) (accountId : ℕ) :
    ScheduleSystem.groupsOf (groups.map GroupRow.forget) accountId =
      (groupsOf groups accountId).map forgetRow := Store.map_select fun _ => rfl

theorem forget_existingGroup (existing : List (ℕ × GroupRow)) (externalId : String) :
    ScheduleSystem.existingGroup (existing.map forgetRow) externalId =
      (existingGroup existing externalId).map forgetRow := List.find?_map ..

theorem forget_resyncItem (hrepr : ∀ v, repr v ≠ "") (howner : owner.userId = account.userId)
    (existing : List (ℕ × GroupRow)) (r : Resync) (item : Json) :
    (resyncItem repr account messengerType existing r item).forget =
      ScheduleSystem.resyncItem account.id owner (existing.map forgetRow) r.forget
        (fetchedGroup repr item) := by
  cases item with
  | obj fields =>
    by_cases hid : get fields "id" = .null
    · simp [resyncItem,ScheduleSystem.resyncItem,fetchedGroup,hid]
    · have hraw : (if (get fields "name").truthy then str repr (get fields "name")
          else str repr (get fields "id")) =
          if (if (get fields "name").truthy then some (str repr (get fields "name")) else none).any (· ≠ "") then
            (if (get fields "name").truthy then some (str repr (get fields "name")) else none).getD ""
          else str repr (get fields "id") := by
        cases hname : (get fields "name").truthy with
        | false => rfl
        | true => simp [str_ne_empty hrepr hname]
      by_cases hlong : ScheduleSystem.externalIdMax < (str repr (get fields "id")).length
      · simp [resyncItem,ScheduleSystem.resyncItem,fetchedGroup,hid,hlong]
      · by_cases hseen : r.seen.contains (str repr (get fields "id")) = true
        · have hstop : (decide (ScheduleSystem.externalIdMax < (str repr (get fields "id")).length) ||
              r.forget.seen.contains (str repr (get fields "id"))) = true :=
            Bool.or_eq_true_iff.mpr (.inr hseen)
          simp only [resyncItem,ScheduleSystem.resyncItem,fetchedGroup,if_neg hid,if_neg hlong,if_pos hseen,
            if_pos hstop]
        · have hgo : ¬ (decide (ScheduleSystem.externalIdMax < (str repr (get fields "id")).length) ||
              r.forget.seen.contains (str repr (get fields "id"))) = true := by
            rw [Bool.or_eq_true_iff,decide_eq_true_iff,not_or]
            exact ⟨hlong,hseen⟩
          simp only [resyncItem,ScheduleSystem.resyncItem,fetchedGroup,if_neg hid,if_neg hlong,if_neg hseen,
            if_neg hgo,← hraw,forget_existingGroup]
          cases existingGroup existing (str repr (get fields "id")) with
          | none =>
            simp only [Option.map_none,Resync.forget,Store.map_insert,howner]
            rfl
          | some found =>
            have hupdate : ∀ name : String, (r.groups.update found.1
                fun g => { g with name := name, missingSince := none }).map GroupRow.forget =
                  (r.groups.map GroupRow.forget).update found.1
                    fun g => { g with name := name, missingSince := none } := by
              intro name
              refine Store.map_rewrite ?_
              intro i g
              split <;> rfl
            simp only [Option.map_some,Resync.forget,hupdate]
            rfl
  | _ => rfl

variable (messengerType) in
theorem forget_foldl (hrepr : ∀ v, repr v ≠ "") (howner : owner.userId = account.userId)
    (existing : List (ℕ × GroupRow)) (items : List Json) (r : Resync) :
    (items.foldl (resyncItem repr account messengerType existing) r).forget =
      (items.map (fetchedGroup repr)).foldl
        (ScheduleSystem.resyncItem account.id owner (existing.map forgetRow)) r.forget := by
  induction items generalizing r with
  | nil => rfl
  | cons item items ih =>
    rw [List.foldl_cons,List.map_cons,List.foldl_cons,ih,forget_resyncItem hrepr howner]

/-- The resync of the scheduling tables is the resync of whole rows, less the columns that no schedule depends on. -/
theorem forget_applyGroupResync (hrepr : ∀ v, repr v ≠ "") (s : State) (howner : owner.userId = s.account.userId)
    (fetched : Json) (allowFullWipe : Bool) (now : Instant) :
    ScheduleSystem.applyGroupResync (s.groups.map GroupRow.forget) s.account.id owner (fetchedGroups repr fetched)
        allowFullWipe now =
      ((applyGroupResync repr s fetched messengerType allowFullWipe now).1.groups.map GroupRow.forget,
        (applyGroupResync repr s fetched messengerType allowFullWipe now).2) := by
  cases fetched with
  | arr items =>
    have hloop := forget_foldl messengerType hrepr howner (groupsOf s.groups s.account.id) items
      ⟨s.groups,[],0,0⟩
    have hmarks : ∀ (r : Resync) (ids : List ℕ), (r.groups.rewrite fun i g =>
        some (if ids.contains i && g.missingSince.isNone then
          { g with missingSince := some now } else g)).map GroupRow.forget =
        (r.groups.map GroupRow.forget).rewrite fun i g =>
          some (if ids.contains i && g.missingSince.isNone then { g with missingSince := some now } else g) := by
      intro r ids
      refine Store.map_rewrite ?_
      intro i g
      have hmissing : g.forget.missingSince = g.missingSince := rfl
      rw [hmissing]
      split <;> rfl
    simp only [fetchedGroups,ScheduleSystem.applyGroupResync,applyGroupResync,forget_groupsOf]
    rw [show (⟨s.groups.map GroupRow.forget,[],0,0⟩ : ScheduleSystem.Resync) =
      Resync.forget ⟨s.groups,[],0,0⟩ from rfl,← hloop]
    generalize items.foldl (resyncItem repr s.account messengerType (groupsOf s.groups s.account.id))
      ⟨s.groups,[],0,0⟩ = r
    have hempty : ((groupsOf s.groups s.account.id).map forgetRow).isEmpty =
        (groupsOf s.groups s.account.id).isEmpty := List.isEmpty_map
    by_cases hfuse : (!(groupsOf s.groups s.account.id).isEmpty && r.seen.isEmpty && !allowFullWipe) = true
    · rw [if_pos hfuse,if_pos (by rw [hempty]; exact hfuse)]
      rfl
    · rw [if_neg hfuse,if_neg (by rw [hempty]; exact hfuse)]
      have hmissing : ((groupsOf s.groups s.account.id).map forgetRow).filter
          (fun g => !r.forget.seen.contains g.2.groupExternalId) =
          ((groupsOf s.groups s.account.id).filter fun g => !r.seen.contains g.2.groupExternalId).map
            forgetRow := List.filter_map
      have hids : (((groupsOf s.groups s.account.id).map forgetRow).filter
          fun g => !r.forget.seen.contains g.2.groupExternalId).map Prod.fst =
          ((groupsOf s.groups s.account.id).filter fun g => !r.seen.contains g.2.groupExternalId).map Prod.fst := by
        rw [hmissing,List.map_map]
        rfl
      have hlength : (((groupsOf s.groups s.account.id).map forgetRow).filter
          fun g => !r.forget.seen.contains g.2.groupExternalId).length =
          ((groupsOf s.groups s.account.id).filter fun g => !r.seen.contains g.2.groupExternalId).length := by
        rw [hmissing,List.length_map]
      rw [hids,hlength,hmarks]
      rfl
  | _ => rfl

end Forget

end GroupResync
end Broadcaster
