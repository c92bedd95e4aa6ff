import Broadcaster.FirstOccurrences
import Broadcaster.GroupMerge
import Broadcaster.PythonValues

/-!
# Schedules that refer to copies of a group

`_remap_schedule_group_ids` and `upgrade` of revision 0015. The ids that a
schedule lists are looked up in the map of the rows that are going to be deleted,
and integers that meet there are kept once. A driver returns a JSON column as its
text or as the decoded value, and the revision accepts both.
-/

namespace Broadcaster
namespace ScheduleRemap

open FirstOccurrences GroupMerge Python TableStatements

inductive Dialect
  | sqlite | postgresql

/-- A row of `schedules` with `others` for the columns that the revision neither reads nor writes. -/
structure ScheduleRow (Columns : Type) where
  /-- the text of the JSON column; `none` is `NULL` -/
  groupIds : Option String
  others : Columns

variable {C D : Type} (loads : String → Option Json) (dumps : Json → String)

/-- `row.group_ids`: the text, or the value that the codec has read from it. A column of type `json` holds no
text that cannot be read. -/
def fetch : Dialect → String → Json
  | .sqlite, text => .str text
  | .postgresql, text => (loads text).getD .null

/-- A text is read, and what is not a list is passed over. -/
def idsOf (raw : Json) : Option (List Json) :=
  match (match raw with | .str text => loads text | value => some value) with
  | some (.arr ids) => some ids
  | _ => none

/-- The list that the revision finds in a row, `WHERE group_ids IS NOT NULL`. -/
def listed (dialect : Dialect) (r : ScheduleRow D) : Option (List Json) :=
  r.groupIds.bind fun text => idsOf loads (fetch loads dialect text)

/-- `isinstance(value, int)`, with the number that the value is equal to -/
def intValue : Json → Option ℤ
  | .int n => some n
  | .bool b => some (if b then 1 else 0)
  | _ => none

def getInt (mapping : Dict ℕ ℕ) : ℤ → Option ℕ
  | .ofNat n => mapping.get n
  | .negSucc _ => none

/-- `mapping.get(group_id, group_id) if isinstance(group_id, int) else group_id` -/
def newId (mapping : Dict ℕ ℕ) (groupId : Json) : Json :=
  match intValue groupId with
  | some n => (getInt mapping n).elim groupId fun keep => .int keep
  | none => groupId

/-- The loop over `ids`: what it appends to `moved`. -/
def moveIds (mapping : Dict ℕ ℕ) : List ℤ → List Json → List Json
  | _, [] => []
  | seen, groupId::ids =>
    match intValue (newId mapping groupId) with
    | some n =>
      if n ∈ seen then moveIds mapping seen ids
      else newId mapping groupId::moveIds mapping (n::seen) ids
    | none => newId mapping groupId::moveIds mapping seen ids

def remapRow (dialect : Dialect) (mapping : Dict ℕ ℕ) (r : ScheduleRow D) : ScheduleRow D :=
  match listed loads dialect r with
  | some ids =>
    -- an entry differs only where one id took the place of another
    let moved := moveIds mapping [] ids
    if moved ≠ ids then { r with groupIds := some (dumps (.arr moved)) } else r
  | none => r

def remapScheduleGroupIds (dialect : Dialect) (mapping : Dict ℕ ℕ) (schedules : Store (ScheduleRow D)) :
    Store (ScheduleRow D) :=
  if mapping.entries.isEmpty then schedules
  else schedules.rewrite fun _ r => some (remapRow loads dumps dialect mapping r)

/-- `upgrade`, with what it may leave in the two tables. -/
inductive Upgrades (dialect : Dialect) (groups : Store (GroupRow C)) (schedules : Store (ScheduleRow D)) :
    Store (GroupRow C) → Store (ScheduleRow D) → Prop
  | upgrade {merged groups' : Store (GroupRow C)} (hfolds : Folds groups merged groups') :
      Upgrades dialect groups schedules groups'
        (remapScheduleGroupIds loads dumps dialect (mapping merged) schedules)

/-- The id of the row that stays for row `n`. -/
def survivor (groups : Store (GroupRow C)) (n : ℤ) : ℤ :=
  ((groups.find n).bind fun r => minId groups r.pair).elim n fun keep => keep

def replaced (groups : Store (GroupRow C)) : Json → Json
  | .int n => .int (survivor groups n)
  | value => value

def Removed (groups groups' : Store (GroupRow C)) (n : ℤ) : Prop :=
  (groups.find n).isSome = true ∧ groups'.find n = none

/-- An integer of the list is the id of a row of the group. -/
def Target (groups : Store (GroupRow C)) (ids : List Json) (pair : ℕ × String) : Prop :=
  ∃ n r, .int n ∈ ids ∧ groups.find n = some r ∧ r.pair = pair

structure Merged (groups groups' : Store (GroupRow C)) : Prop where
  left : ∀ i, (groups'.row i).isSome = true ↔ ∃ r, groups.row i = some r ∧ Keeper groups r.pair i
  one_left : ∀ i r, groups.row i = some r → ∃ k q, groups'.row k = some q ∧ q.pair = r.pair
  only_one : ∀ i j r q, groups'.row i = some r → groups'.row j = some q → r.pair = q.pair → i = j
  same_row : ∀ i q, groups'.row i = some q → ∃ r, groups.row i = some r ∧ q.pair = r.pair ∧ q.others = r.others
  inactive : ∀ i q, groups'.row i = some q →
    (q.isActive = false ↔ ∃ j p, groups.row j = some p ∧ p.pair = q.pair ∧ p.isActive = false)
  missing : ∀ i q m, groups'.row i = some q → (q.missingSince = some m ↔ Earliest groups q.pair m)
  alone : ∀ i r, groups.row i = some r → (∀ j q, groups.row j = some q → q.pair = r.pair → j = i) →
    groups'.row i = some r

structure MovedList (groups groups' : Store (GroupRow C)) (xs ys : List Json) : Prop where
  no_removed : ∀ n, .int n ∈ ys → ¬Removed groups groups' n
  targets : ∀ pair, Target groups' ys pair ↔ Target groups xs pair
  not_integers : ys.filter (fun v => (intValue v).isNone) = xs.filter fun v => (intValue v).isNone
  nothing_lost : (∀ n, .int n ∈ xs → ¬Removed groups groups' n) → ys = xs ∨ ys = firstOccurrences intValue xs

structure Remapped (dialect : Dialect) (groups groups' : Store (GroupRow C))
    (schedules schedules' : Store (ScheduleRow D)) : Prop where
  no_new : ∀ i, schedules.row i = none → schedules'.row i = none
  no_list : ∀ i r, schedules.row i = some r → listed loads dialect r = none → schedules'.row i = some r
  list : ∀ i r xs, schedules.row i = some r → listed loads dialect r = some xs →
    ∃ r' ys, schedules'.row i = some r' ∧ r'.others = r.others ∧ listed loads dialect r' = some ys ∧
      MovedList groups groups' xs ys ∧
      -- a list that is written anew has its integers once, each where it first stands
      (r' ≠ r → ys = firstOccurrences intValue (xs.map (replaced groups)) ∧ (ys.filterMap intValue).Nodup)

/-- `json.loads(json.dumps(ids)) == ids` for the lists that may be written. -/
def RoundTrips (dialect : Dialect) (groups : Store (GroupRow C)) (schedules : Store (ScheduleRow D)) : Prop :=
  ∀ i r xs, schedules.row i = some r → listed loads dialect r = some xs →
    loads (dumps (.arr (firstOccurrences intValue (xs.map (replaced groups))))) =
      some (.arr (firstOccurrences intValue (xs.map (replaced groups))))

section Groups

variable {groups merged groups' : Store (GroupRow C)} {n : ℤ} {i k : ℕ} {r : GroupRow C}

theorem groups_merged (h : Folds groups merged groups') : Merged groups groups' where
  left := by
    intro i
    rw [Option.isSome_iff_exists]
    constructor
    · rintro ⟨q,hq⟩
      obtain ⟨r,hr,hk,_⟩ := (row_folded h).mp hq
      exact ⟨r,hr,hk⟩
    · rintro ⟨r,hr,hk⟩
      exact ⟨_,(row_folded h).mpr ⟨r,hr,hk,rfl⟩⟩
  one_left := by
    intro i r hr
    obtain ⟨k,hk⟩ := exists_keeper hr
    obtain ⟨q,hq,hpair⟩ := hk.member
    refine ⟨k,_,(row_folded h).mpr ⟨q,hq,hpair ▸ hk,rfl⟩,?_⟩
    rw [merged_pair,hpair]
  only_one := by
    intro i j r q hr hq hpair
    obtain ⟨r₀,_,hk,rfl⟩ := (row_folded h).mp hr
    obtain ⟨q₀,_,hk',rfl⟩ := (row_folded h).mp hq
    rw [merged_pair,merged_pair] at hpair
    exact hk.unique (hpair ▸ hk')
  same_row := by
    intro i q hq
    obtain ⟨r,hr,_,rfl⟩ := (row_folded h).mp hq
    exact ⟨r,hr,merged_pair groups i r,merged_others groups i r⟩
  inactive := by
    intro i q hq
    obtain ⟨r,hr,hk,rfl⟩ := (row_folded h).mp hq
    rw [merged_pair]
    exact merged_inactive_iff hr hk
  missing := by
    intro i q m hq
    obtain ⟨r,hr,hk,rfl⟩ := (row_folded h).mp hq
    rw [merged_pair]
    exact merged_missingSince hr hk
  alone := by
    intro i r hr halone
    have hk : Keeper groups r.pair i :=
      ⟨⟨r,hr,rfl⟩,fun j q hq hpair => (halone j q hq hpair).ge⟩
    exact (row_folded h).mpr ⟨r,hr,hk,(merged_alone hr halone).symm⟩

theorem survivor_of_none (h : groups.find n = none) : survivor groups n = n := by
  simp [survivor,h]

theorem survivor_of_keeper (hr : groups.find n = some r) (hk : Keeper groups r.pair k) :
    survivor groups n = k := by
  simp [survivor,hr,minId_eq_some.mpr hk]

theorem survivor_spec (h : Folds groups merged groups') (hr : groups.find n = some r) :
    ∃ (k : ℕ) (q : GroupRow C), survivor groups n = k ∧ groups'.row k = some q ∧ q.pair = r.pair := by
  obtain ⟨i,_,hi⟩ := Store.find_eq_some hr
  obtain ⟨k,hk⟩ := exists_keeper hi
  obtain ⟨q,hq,hpair⟩ := hk.member
  refine ⟨k,_,survivor_of_keeper hr hk,(row_folded h).mpr ⟨q,hq,hpair ▸ hk,rfl⟩,?_⟩
  rw [merged_pair,hpair]

/-- The map sends a row that is going to be deleted to the one that stays, and no other. -/
theorem getInt_mapping (h : Folds groups merged groups') (n : ℤ) :
    (getInt (mapping merged) n).elim n (fun keep => (keep : ℤ)) = survivor groups n := by
  have hsame := sameGroups_merged h
  cases n with
  | negSucc n => rfl
  | ofNat n =>
    cases hr : groups.row n with
    | none =>
      have hnone : (mapping merged).get n = none := get_mapping_eq_none fun q k hq _ => by
        rw [row_merged h n,hr] at hq
        cases hq
      rw [survivor_of_none (show groups.find (Int.ofNat n) = none from hr),getInt,hnone]
      rfl
    | some r =>
      obtain ⟨k,hk⟩ := exists_keeper hr
      obtain ⟨r',hr',hpair⟩ := hsame.row hr
      have hk' : Keeper merged r'.pair k := hpair ▸ hsame.keeper hk
      rw [survivor_of_keeper (show groups.find (Int.ofNat n) = some r from hr) hk,getInt]
      by_cases hne : n = k
      · have hnone : (mapping merged).get n = none := get_mapping_eq_none fun q j hq hj => by
          rw [hr'] at hq
          cases hq
          exact hne.trans (hk'.unique hj)
        rw [hnone,hne]
        rfl
      · rw [get_mapping.mpr ⟨r',hr',hk',hne⟩]
        rfl

theorem movedList_of_mem {xs ys : List Json} (h : Folds groups merged groups')
    (hints : ∀ n, .int n ∈ ys ↔ ∃ m, .int m ∈ xs ∧ survivor groups m = n)
    (hothers : ys.filter (fun v => (intValue v).isNone) = xs.filter fun v => (intValue v).isNone)
    (hlost : (∀ n, .int n ∈ xs → ¬Removed groups groups' n) → ys = xs ∨ ys = firstOccurrences intValue xs) :
    MovedList groups groups' xs ys where
  no_removed := by
    rintro n hn ⟨hsome,hnone⟩
    obtain ⟨m,_,rfl⟩ := (hints n).mp hn
    cases hm : groups.find m with
    | none =>
      rw [survivor_of_none hm,hm] at hsome
      cases hsome
    | some r =>
      obtain ⟨k,q,hk,hq,_⟩ := survivor_spec h hm
      rw [hk,Store.find_natCast,hq] at hnone
      cases hnone
  targets := by
    intro pair
    constructor
    · rintro ⟨n,q,hn,hq,hpair⟩
      obtain ⟨m,hm,rfl⟩ := (hints n).mp hn
      cases hr : groups.find m with
      | none =>
        rw [survivor_of_none hr] at hq
        obtain ⟨i,rfl,hi⟩ := Store.find_eq_some hq
        obtain ⟨r,hr',_⟩ := (row_folded h).mp hi
        rw [Store.find_natCast,hr'] at hr
        cases hr
      | some r =>
        obtain ⟨k,p,hk,hp,hpp⟩ := survivor_spec h hr
        rw [hk,Store.find_natCast,hp] at hq
        cases hq
        exact ⟨m,r,hm,hr,hpp.symm.trans hpair⟩
    · rintro ⟨m,r,hm,hr,hpair⟩
      obtain ⟨k,q,hk,hq,hqp⟩ := survivor_spec h hr
      refine ⟨k,q,(hints k).mpr ⟨m,hm,hk⟩,?_,hqp.trans hpair⟩
      rw [Store.find_natCast,hq]
  not_integers := hothers
  nothing_lost := hlost

end Groups

section Lists

variable {loads dumps} {groups merged groups' : Store (GroupRow C)} {dialect : Dialect}
  {schedules : Store (ScheduleRow D)} {r : ScheduleRow D} {xs : List Json} {v : Json} {n : ℤ}

theorem moveIds_eq_firsts (m : Dict ℕ ℕ) (seen : List ℤ) (ids : List Json) :
    moveIds m seen ids = firsts intValue seen (ids.map (newId m)) := by
  induction ids generalizing seen with
  | nil => rfl
  | cons groupId ids ih =>
    rw [List.map_cons]
    unfold moveIds firsts
    cases intValue (newId m groupId) with
    | none => simp only [ih]
    | some n =>
      simp only
      split
      · exact ih seen
      · rw [ih]

theorem newId_mapping (h : Folds groups merged groups') (hv : ∀ b, v ≠ .bool b) :
    newId (mapping merged) v = replaced groups v := by
  cases v with
  | bool b => exact absurd rfl (hv b)
  | int n =>
    rw [replaced,← getInt_mapping h n]
    simp only [newId,intValue]
    cases getInt (mapping merged) n <;> rfl
  | _ => rfl

theorem intValue_replaced_isNone (groups : Store (GroupRow C)) (v : Json) :
    (intValue (replaced groups v)).isNone = (intValue v).isNone := by
  cases v <;> rfl

theorem replaced_of_isNone (h : (intValue v).isNone = true) : replaced groups v = v := by
  cases v with
  | int n => cases h
  | _ => rfl

theorem filter_replaced (groups : Store (GroupRow C)) (xs : List Json) :
    (xs.map (replaced groups)).filter (fun v => (intValue v).isNone) =
      xs.filter fun v => (intValue v).isNone := by
  induction xs with
  | nil => rfl
  | cons v xs ih =>
    rw [List.map_cons,List.filter_cons,List.filter_cons,intValue_replaced_isNone,ih]
    split
    · rename_i hnone
      rw [replaced_of_isNone hnone]
    · rfl

theorem intValue_eq_some (hv : ∀ b, v ≠ .bool b) : intValue v = some n ↔ v = .int n := by
  cases v with
  | bool b => exact absurd rfl (hv b)
  | int m => simp [intValue]
  | _ => simp [intValue]

theorem replaced_ne_bool (hv : ∀ b, v ≠ .bool b) : ∀ b, replaced groups v ≠ .bool b := by
  intro b
  cases v with
  | bool c => exact absurd rfl (hv c)
  | _ => simp [replaced]

theorem mem_int (hbool : ∀ b, .bool b ∉ xs) : .int n ∈ xs ↔ n ∈ xs.filterMap intValue := by
  rw [List.mem_filterMap]
  constructor
  · exact fun h => ⟨_,h,rfl⟩
  · rintro ⟨v,hv,hn⟩
    rwa [← (intValue_eq_some fun b hb => hbool b (hb ▸ hv)).mp hn]

theorem mem_replaced :
    .int n ∈ xs.map (replaced groups) ↔ ∃ m, .int m ∈ xs ∧ survivor groups m = n := by
  rw [List.mem_map]
  constructor
  · rintro ⟨v,hv,hn⟩
    cases v with
    | int m => exact ⟨m,hv,by simpa [replaced] using hn⟩
    | _ => cases hn
  · rintro ⟨m,hm,rfl⟩
    exact ⟨.int m,hm,rfl⟩

theorem map_replaced_ne_bool (groups : Store (GroupRow C)) (hbool : ∀ b, .bool b ∉ xs) :
    ∀ b, .bool b ∉ xs.map (replaced groups) := by
  intro b hmem
  obtain ⟨v,hv,hb⟩ := List.mem_map.mp hmem
  exact replaced_ne_bool (fun c hc => hbool c (hc ▸ hv)) b hb

theorem survivor_of_not_removed (h : Folds groups merged groups') (hn : ¬Removed groups groups' n) :
    survivor groups n = n := by
  cases hr : groups.find n with
  | none => exact survivor_of_none hr
  | some r =>
    obtain ⟨i,rfl,hi⟩ := Store.find_eq_some hr
    obtain ⟨k,hk⟩ := exists_keeper hi
    cases hrow : groups'.row i with
    | none => exact absurd ⟨by rw [hr]; rfl,hrow⟩ hn
    | some q =>
      obtain ⟨r',hr',hkeeper,_⟩ := (row_folded h).mp hrow
      rw [hi] at hr'
      cases hr'
      exact survivor_of_keeper hr hkeeper

theorem map_replaced_of_not_removed (h : Folds groups merged groups')
    (hkept : ∀ n, .int n ∈ xs → ¬Removed groups groups' n) : xs.map (replaced groups) = xs := by
  refine (List.map_congr_left fun v hv => ?_).trans (List.map_id xs)
  cases v with
  | int n => rw [replaced,survivor_of_not_removed h (hkept n hv),id]
  | _ => rfl

theorem moved_list (h : Folds groups merged groups') (hbool : ∀ b, .bool b ∉ xs) :
    MovedList groups groups' xs (firsts intValue [] (xs.map (replaced groups))) := by
  have hmap := map_replaced_ne_bool groups hbool
  have hfirsts : ∀ b, .bool b ∉ firsts intValue [] (xs.map (replaced groups)) :=
    fun b hb => hmap b ((firsts_sublist _ _).subset hb)
  refine movedList_of_mem h ?_ ?_ ?_
  · intro n
    rw [mem_int hfirsts,mem_keys_firsts,← mem_int hmap,mem_replaced]
    exact and_iff_left (by simp)
  · rw [filter_firsts,filter_replaced]
  · intro hkept
    rw [map_replaced_of_not_removed h hkept]
    exact Or.inr (firsts_eq_firstOccurrences intValue xs)

theorem unmoved_list (h : Folds groups merged groups') (hempty : (mapping merged).entries = [])
    (xs : List Json) : MovedList groups groups' xs xs := by
  have hself : ∀ n, survivor groups n = n := by
    intro n
    have hnone : getInt (mapping merged) n = none := by
      cases n with
      | negSucc n => rfl
      | ofNat n => simp [getInt,Dict.get,hempty]
    rw [← getInt_mapping h n,hnone]
    rfl
  refine movedList_of_mem h (fun n => ?_) rfl fun _ => Or.inl rfl
  simp only [hself,exists_eq_right]

theorem moveIds_mapping (h : Folds groups merged groups') (hbool : ∀ b, .bool b ∉ xs) :
    moveIds (mapping merged) [] xs = firsts intValue [] (xs.map (replaced groups)) := by
  have hmap : xs.map (newId (mapping merged)) = xs.map (replaced groups) :=
    List.map_congr_left fun v hv => newId_mapping h fun b hb => hbool b (hb ▸ hv)
  rw [moveIds_eq_firsts,hmap]

theorem listed_written {others : D} (h : loads (dumps (.arr xs)) = some (.arr xs)) :
    listed loads dialect ⟨some (dumps (.arr xs)),others⟩ = some xs := by
  cases dialect with
  | sqlite => simp [listed,fetch,idsOf,h]
  | postgresql => simp [listed,fetch,idsOf,h]

variable {schedules' : Store (ScheduleRow D)}

theorem schedules_remapped (hround : RoundTrips loads dumps dialect groups schedules)
    (hbool : ∀ i r xs, schedules.row i = some r → listed loads dialect r = some xs → ∀ b, .bool b ∉ xs)
    (h : Folds groups merged groups') :
    Remapped loads dialect groups groups' schedules
      (remapScheduleGroupIds loads dumps dialect (mapping merged) schedules) := by
  unfold remapScheduleGroupIds
  split
  · rename_i hempty
    rw [List.isEmpty_iff] at hempty
    refine ⟨fun _ hr => hr,fun _ _ hr _ => hr,fun i r xs hr hlisted => ?_⟩
    exact ⟨r,xs,hr,rfl,hlisted,unmoved_list h hempty xs,fun hne => absurd rfl hne⟩
  · refine ⟨?_,?_,?_⟩
    · intro i hr
      rw [Store.row_rewrite,hr]
      rfl
    · intro i r hr hlisted
      rw [Store.row_rewrite,hr,Option.bind_some,remapRow,hlisted]
    · intro i r xs hr hlisted
      have hmoved := moveIds_mapping h (hbool i r xs hr hlisted)
      have hlist := moved_list h (hbool i r xs hr hlisted)
      rw [firsts_eq_firstOccurrences] at hmoved hlist
      rw [Store.row_rewrite,hr,Option.bind_some,remapRow,hlisted]
      simp only [hmoved]
      split
      · refine ⟨_,_,rfl,rfl,listed_written (hround i r xs hr hlisted),hlist,fun _ => ⟨rfl,?_⟩⟩
        rw [← firsts_eq_firstOccurrences]
        exact keys_firsts_nodup _ _
      · rename_i hsame
        rw [not_not] at hsame
        rw [hsame] at hlist
        exact ⟨r,xs,rfl,rfl,hlisted,hlist,fun hne => absurd rfl hne⟩

/-- Folding the copies loses neither a decision about a group nor a target of a schedule. -/
theorem upgrade_folds (hround : RoundTrips loads dumps dialect groups schedules)
    (hbool : ∀ i r xs, schedules.row i = some r → listed loads dialect r = some xs → ∀ b, .bool b ∉ xs)
    (h : Upgrades loads dumps dialect groups schedules groups' schedules') :
    Merged groups groups' ∧ Remapped loads dialect groups groups' schedules schedules' := by
  obtain ⟨hfolds⟩ := h
  exact ⟨groups_merged hfolds,schedules_remapped hround hbool hfolds⟩

end Lists

/-- Two rows of chat 5 of account 4, the second of them put out, and a row of chat 6. -/
def copiesOfChat : Store (GroupRow Unit) :=
  (((Store.empty _).insert ⟨4,"6",true,none,()⟩).insert ⟨4,"5",true,some 9,()⟩).insert ⟨4,"5",false,some 3,()⟩

def loadsFew (text : String) : Option Json :=
  if text = "[2, 0, \"x\", 1]" then some (.arr [.int 2,.int 0,.str "x",.int 1])
  else if text = "[1, 0, \"x\"]" then some (.arr [.int 1,.int 0,.str "x"])
  else if text = "[2]" then some (.arr [.int 2])
  else if text = "[1]" then some (.arr [.int 1])
  else if text = "\"[2]\"" then some (.str "[2]")
  else none

def dumpsFew (value : Json) : String :=
  if value = .arr [.int 1] then "[1]" else "[1, 0, \"x\"]"

def folded : Store (GroupRow Unit) :=
  snapshot mergeMissingSince (snapshot mergeIsActive copiesOfChat)

theorem folds_copiesOfChat : Folds copiesOfChat folded (snapshot dropDuplicates folded) :=
  ⟨⟨_,.atOnce,.atOnce⟩,.atOnce⟩

def listsCopies : Store (ScheduleRow Unit) := (Store.empty _).insert ⟨some "[2, 0, \"x\", 1]",()⟩

theorem upgrade_folds_copies : Merged copiesOfChat (snapshot dropDuplicates folded) ∧
    Remapped loadsFew .postgresql copiesOfChat (snapshot dropDuplicates folded) listsCopies
      (remapScheduleGroupIds loadsFew dumpsFew .postgresql (mapping folded) listsCopies) := by
  have hrow : ∀ i r, listsCopies.row i = some r → r = ⟨some "[2, 0, \"x\", 1]",()⟩ := by
    intro i r hr
    rcases Store.row_insert.mp hr with ⟨_,hr⟩ | hr
    · exact hr
    · cases hr
  have hlist : ∀ i r xs, listsCopies.row i = some r → listed loadsFew .postgresql r = some xs →
      xs = [.int 2,.int 0,.str "x",.int 1] := by
    intro i r xs hr hlisted
    rw [hrow i r hr] at hlisted
    exact (Option.some.inj hlisted).symm
  refine upgrade_folds (fun i r xs hr hlisted => ?_) (fun i r xs hr hlisted => ?_) (.upgrade folds_copiesOfChat)
  · rw [hlist i r xs hr hlisted]
    rfl
  · rw [hlist i r xs hr hlisted]
    simp

/-- The list that a column holds as a JSON value. -/
def jsonList (r : ScheduleRow D) : List Json :=
  match r.groupIds.bind loadsFew with
  | some (.arr xs) => xs
  | _ => []

def holdsString : Store (ScheduleRow Unit) := (Store.empty _).insert ⟨some "\"[2]\"",()⟩

/-- A string that PostgreSQL's driver has decoded is read once more and becomes a list. -/
theorem string_becomes_list : ¬∀ (dialect : Dialect) (groups groups' : Store (GroupRow Unit))
    (schedules schedules' : Store (ScheduleRow Unit)),
    (∀ i r b, schedules.row i = some r → .bool b ∉ jsonList r) →
    Upgrades loadsFew dumpsFew dialect groups schedules groups' schedules' →
    ∀ i r r', schedules.row i = some r → schedules'.row i = some r' →
      ∀ pair, Target groups' (jsonList r') pair ↔ Target groups (jsonList r) pair := by
  intro hall
  have hbool : ∀ i r b, holdsString.row i = some r → .bool b ∉ jsonList r := by
    intro i r b hr
    rcases Store.row_insert.mp hr with ⟨_,rfl⟩ | hr
    · exact List.not_mem_nil
    · cases hr
  have hrow : (remapScheduleGroupIds loadsFew dumpsFew .postgresql (mapping folded) holdsString).row 0 =
      some ⟨some "[1]",()⟩ := by
    rfl
  have htarget := (hall .postgresql _ _ _ _ hbool (.upgrade folds_copiesOfChat) 0 _ _ rfl hrow (4,"5")).mp
    ⟨1,⟨4,"5",false,some 3,()⟩,by simp [jsonList,loadsFew],rfl,rfl⟩
  obtain ⟨n,r,hmem,_⟩ := htarget
  cases hmem

end ScheduleRemap
end Broadcaster
