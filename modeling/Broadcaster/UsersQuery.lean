import Broadcaster.AccessAxis
import Broadcaster.LogSearch
import Broadcaster.OffsetPages
import Broadcaster.SqlLike

/-!
# The users of the administrator

`app/application/admin/users_query.py`. The search text becomes a pattern for
`LIKE`, the two axes become clauses, and the count and the page are two queries
under the same conditions. A page number that is out of range is moved into it.
-/

namespace Broadcaster
namespace UsersQuery

open Calendar SchedulePages SqlLike
open AccessAxis (Tables)
open LogSearch (replaceChar)

def usersPageSize : ℕ := 50

/-- `lower()` of the database, character by character: what has a meaning in a pattern is the lower case of
itself and of nothing else. -/
structure LowerCase where
  lower : Char → Char
  special : ∀ m ∈ ['%','_','\\'], ∀ c, lower c = m ↔ c = m

def LowerCase.text (l : LowerCase) (s : String) : List Char := s.toList.map l.lower

theorem toLower_val (c : Char) : c.toLower.val.toNat =
    if 65 ≤ c.val.toNat ∧ c.val.toNat ≤ 90 then c.val.toNat+32 else c.val.toNat := by
  have hupper : c.val ≥ 'A'.val ∧ c.val ≤ 'Z'.val ↔ 65 ≤ c.val.toNat ∧ c.val.toNat ≤ 90 := by
    rw [ge_iff_le,UInt32.le_iff_toNat_le,UInt32.le_iff_toNat_le]
    rfl
  unfold Char.toLower
  by_cases h : c.val ≥ 'A'.val ∧ c.val ≤ 'Z'.val
  · have hdistance : ('a'.val - 'A'.val).toNat = 32 := rfl
    have hrange := hupper.mp h
    rw [dif_pos h,if_pos hrange,UInt32.toNat_add,hdistance]
    omega
  · rw [dif_neg h,if_neg (mt hupper.mpr h)]

theorem toLower_eq_iff {c m : Char} (hupper : ¬(65 ≤ m.val.toNat ∧ m.val.toNat ≤ 90))
    (hlower : ¬(97 ≤ m.val.toNat ∧ m.val.toNat ≤ 122)) : c.toLower = m ↔ c = m := by
  rw [Char.ext_iff,Char.ext_iff,UInt32.ext_iff,UInt32.ext_iff,toLower_val]
  split
  all_goals omega

def LowerCase.ascii : LowerCase where
  lower := Char.toLower
  special := by
    intro m hm c
    simp only [List.mem_cons,List.not_mem_nil,or_false] at hm
    rcases hm with rfl | rfl | rfl
    all_goals exact toLower_eq_iff (by decide) (by decide)

/-- The tables, and two columns more of `users`. -/
structure UsersDb where
  tables : Tables
  name : ℕ → String
  email : ℕ → String

variable (l : LowerCase) (db : UsersDb) (search access state : Option String) (now : DateTime)

/-- `(search or "").strip()` -/
def searchText : String := strip (search.getD "")

/-- The backslash is escaped first. -/
def escapeText (text : String) : String :=
  replaceChar '_' "\\_" (replaceChar '%' "\\%" (replaceChar '\\' "\\\\" text))

/-- The condition of the search; a pattern that is an error fails the query. -/
def searchClause : Option (ℕ → Bool) :=
  let text := searchText search
  if text = "" then some fun _ => true
  else
    (tokens '\\' (l.text ("%" ++ escapeText text ++ "%"))).map fun pattern user =>
      fits pattern (l.text (db.name user)) || fits pattern (l.text (db.email user))

def stateClause : Option (ℕ → Bool) :=
  match state.getD "" with
  | "active" => some fun user => (db.tables.users.row user).any fun u => !u.isBlocked
  | "blocked" => some fun user => (db.tables.users.row user).any fun u => u.isBlocked
  | _ => none

/-- A condition that may be missing. -/
def restrict (clause : Option (ℕ → Bool)) (users : List ℕ) : List ℕ :=
  match clause with
  | some p => users.filter p
  | none => users

/-- `apply_user_filters`: the ids of the selected users, `ORDER BY id` -/
def applyUserFilters : Option (List ℕ) :=
  (searchClause l db search).map fun p =>
    restrict (stateClause db state)
      (restrict ((Tables.accessAxisClause access now).map fun clause => clause db.tables)
        (db.tables.userIds.filter p))

def countUsers : Option ℕ := (applyUserFilters l db search access state now).map List.length

structure UsersPage where
  users : List ℕ
  total : ℕ
  page : ℤ
  pages : ℤ
  pageSize : ℕ

def usersPage (page : ℤ) : Option UsersPage := do
  let total ← countUsers l db search access state now
  let pages := max 1 (-(-(total : ℤ)/usersPageSize))
  let page := min (max page 1) pages
  let users ← applyUserFilters l db search access state now
  return ⟨(users.drop ((page-1)*usersPageSize).toNat).take usersPageSize,total,page,pages,usersPageSize⟩

/-- The user is one of those asked for; an unknown value of an axis asks for nothing. -/
structure Wanted (user : ℕ) : Prop where
  row : (db.tables.users.row user).isSome = true
  comped : access = some "comped" → db.tables.comped user = true
  open_ : access = some "open" → db.tables.liveByTerm now user = true ∧ db.tables.comped user = false
  expired : access = some "expired" → db.tables.accessOpen now user = false
  active : state = some "active" → ∃ u, db.tables.users.row user = some u ∧ u.isBlocked = false
  blocked : state = some "blocked" → ∃ u, db.tables.users.row user = some u ∧ u.isBlocked = true
  /-- the lower-cased name or address contains the lower-cased text; every one contains the empty text -/
  found : l.text (searchText search) <:+: l.text (db.name user) ∨
    l.text (searchText search) <:+: l.text (db.email user)

variable {l db search access state now} {user : ℕ} {text : String} {users : List ℕ}

theorem escapeText_eq (text : String) : (escapeText text).toList = text.toList.flatMap (escaped '\\') := by
  unfold escapeText
  rw [LogSearch.toList_replaceChar,LogSearch.toList_replaceChar,LogSearch.toList_replaceChar,
    List.flatMap_assoc,List.flatMap_assoc]
  congr 1
  funext c
  unfold escaped isSpecial
  by_cases hslash : c = '\\'
  · subst hslash
    rfl
  by_cases hpercent : c = '%'
  · subst hpercent
    rfl
  by_cases hunderscore : c = '_'
  · subst hunderscore
    rfl
  · simp [hslash,hpercent,hunderscore]

theorem isSpecial_lower (l : LowerCase) (c : Char) : isSpecial '\\' (l.lower c) = isSpecial '\\' c := by
  unfold isSpecial
  rw [Bool.eq_iff_iff]
  simp only [Bool.or_eq_true,decide_eq_true_eq]
  rw [l.special '\\' (by simp),l.special '%' (by simp),l.special '_' (by simp)]

/-- Escaping and lower case do not meet. -/
theorem map_lower_escaped (l : LowerCase) (c : Char) :
    (escaped '\\' c).map l.lower = escaped '\\' (l.lower c) := by
  unfold escaped
  rw [isSpecial_lower]
  split
  · rw [List.map_cons,List.map_singleton,(l.special '\\' (by simp) '\\').mpr rfl]
  · rfl

theorem pattern_eq (l : LowerCase) (text : String) : l.text ("%" ++ escapeText text ++ "%") =
    '%'::((l.text text).flatMap (escaped '\\') ++ ['%']) := by
  have hpercent : l.lower '%' = '%' := (l.special '%' (by simp) '%').mpr rfl
  have hmiddle : (text.toList.flatMap (escaped '\\')).map l.lower = (l.text text).flatMap (escaped '\\') := by
    rw [List.map_flatMap,LowerCase.text,List.flatMap_map]
    simp only [map_lower_escaped]
  have hsplit : ("%" ++ escapeText text ++ "%").toList = '%'::((escapeText text).toList ++ ['%']) := by
    simp
  rw [LowerCase.text,hsplit,List.map_cons,List.map_append,escapeText_eq,hmiddle,List.map_singleton,hpercent]

theorem searchClause_spec (l : LowerCase) (db : UsersDb) (search : Option String) :
    ∃ p, searchClause l db search = some p ∧ ∀ user, p user = true ↔
      l.text (searchText search) <:+: l.text (db.name user) ∨
        l.text (searchText search) <:+: l.text (db.email user) := by
  unfold searchClause
  simp only
  split
  · rename_i hempty
    refine ⟨_,rfl,fun user => ?_⟩
    rw [hempty]
    exact iff_of_true rfl (Or.inl (List.nil_infix))
  · obtain ⟨pattern,hpattern,hfits⟩ := tokens_contains '\\' (by decide) (l.text (searchText search))
    refine ⟨_,by rw [pattern_eq,hpattern]; rfl,fun user => ?_⟩
    rw [Bool.or_eq_true,hfits,hfits]

theorem mem_restrict {clause : Option (ℕ → Bool)} :
    user ∈ restrict clause users ↔ user ∈ users ∧ ∀ p, clause = some p → p user = true := by
  cases clause with
  | none => simp [restrict]
  | some p => simp [restrict]

theorem restrict_sublist (clause : Option (ℕ → Bool)) (users : List ℕ) : (restrict clause users).Sublist users := by
  cases clause with
  | none => exact List.Sublist.refl _
  | some p => exact List.filter_sublist

theorem access_iff : (∀ p, (Tables.accessAxisClause access now).map (fun clause => clause db.tables) = some p →
      p user = true) ↔
    (access = some "comped" → db.tables.comped user = true) ∧
      (access = some "open" → db.tables.liveByTerm now user = true ∧ db.tables.comped user = false) ∧
      (access = some "expired" → db.tables.accessOpen now user = false) := by
  cases access with
  | none => simp [Tables.accessAxisClause]
  | some value =>
    unfold Tables.accessAxisClause
    rw [Option.getD_some]
    split
    · simp
    · simp
    · simp
    · rename_i hcomped hopen hexpired
      refine iff_of_true (fun p hp => by cases hp) ⟨fun h => ?_,fun h => ?_,fun h => ?_⟩
      · exact absurd (Option.some.inj h) hcomped
      · exact absurd (Option.some.inj h) hopen
      · exact absurd (Option.some.inj h) hexpired

theorem state_iff : (∀ p, stateClause db state = some p → p user = true) ↔
    (state = some "active" → ∃ u, db.tables.users.row user = some u ∧ u.isBlocked = false) ∧
      (state = some "blocked" → ∃ u, db.tables.users.row user = some u ∧ u.isBlocked = true) := by
  cases state with
  | none => simp [stateClause]
  | some value =>
    unfold stateClause
    rw [Option.getD_some]
    split
    · simp [Option.any_eq_true]
    · simp [Option.any_eq_true]
    · rename_i hactive hblocked
      refine iff_of_true (fun p hp => by cases hp) ⟨fun h => ?_,fun h => ?_⟩
      · exact absurd (Option.some.inj h) hactive
      · exact absurd (Option.some.inj h) hblocked

theorem userIds_sorted (db : Tables) : db.userIds.Pairwise (· < ·) := by
  rw [Tables.userIds,Store.rows_ids]
  exact List.pairwise_lt_range.filter _

theorem applyUserFilters_spec (l : LowerCase) (db : UsersDb) (search access state : Option String)
    (now : DateTime) : ∃ users, applyUserFilters l db search access state now = some users ∧
      users.Pairwise (· < ·) ∧ ∀ user, user ∈ users ↔ Wanted l db search access state now user := by
  obtain ⟨p,hp,hfound⟩ := searchClause_spec l db search
  refine ⟨_,by rw [applyUserFilters,hp]; rfl,?_,fun user => ?_⟩
  · have hsub := (restrict_sublist (stateClause db state) _).trans
      ((restrict_sublist ((Tables.accessAxisClause access now).map fun clause => clause db.tables) _).trans
        (List.filter_sublist (p := p) (l := db.tables.userIds)))
    exact (userIds_sorted db.tables).sublist hsub
  · rw [mem_restrict,mem_restrict,List.mem_filter,Tables.mem_userIds,hfound,access_iff,state_iff]
    constructor
    · rintro ⟨⟨⟨hrow,htext⟩,hcomped,hopen,hexpired⟩,hactive,hblocked⟩
      exact ⟨hrow,hcomped,hopen,hexpired,hactive,hblocked,htext⟩
    · rintro ⟨hrow,hcomped,hopen,hexpired,hactive,hblocked,htext⟩
      exact ⟨⟨⟨hrow,htext⟩,hcomped,hopen,hexpired⟩,hactive,hblocked⟩

theorem pages_eq (total : ℕ) : max 1 (-(-(total : ℤ)/usersPageSize)) = (max 1 ((total+49)/50) : ℕ) := by
  unfold usersPageSize
  omega

theorem usersPage_eq (husers : applyUserFilters l db search access state now = some users) (page : ℤ) :
    usersPage l db search access state now page =
      let pages : ℕ := max 1 ((users.length+49)/50)
      let p := min (max page 1) pages
      some ⟨(users.drop ((p-1)*usersPageSize).toNat).take usersPageSize,users.length,p,pages,usersPageSize⟩ := by
  simp only [usersPage,countUsers,husers,Option.map_some,Option.bind_eq_bind,Option.bind_some,pages_eq]
  rfl

/-- The pages from the first to the last, one after the other, are the users asked for in the order of their
ids; `total` is their number; every page number is moved into the range, and one within it is kept. -/
theorem pages_exact (l : LowerCase) (db : UsersDb) (search access state : Option String) (now : DateTime) :
    ∃ (users : List ℕ) (pages : ℕ), users.Pairwise (· < ·) ∧
      (∀ user, user ∈ users ↔ Wanted l db search access state now user) ∧
      ((List.range pages).flatMap fun k : ℕ =>
        ((usersPage l db search access state now (k+1)).map UsersPage.users).getD []) = users ∧
      ∀ page : ℤ, ∃ p, usersPage l db search access state now page = some p ∧ p.total = users.length ∧
        p.pages = pages ∧ 1 ≤ p.page ∧ p.page ≤ pages ∧ (1 ≤ page → page ≤ pages → p.page = page) := by
  obtain ⟨users,husers,hsorted,hwanted⟩ := applyUserFilters_spec l db search access state now
  refine ⟨users,max 1 ((users.length+49)/50),hsorted,hwanted,?_,fun page => ?_⟩
  · have hpage : ∀ k ∈ List.range (max 1 ((users.length+49)/50)),
        ((usersPage l db search access state now (k+1)).map UsersPage.users).getD [] =
          (users.drop (k*usersPageSize)).take usersPageSize := by
      intro k hk
      have hlt := List.mem_range.mp hk
      have hkept : min (max ((k : ℤ)+1) 1) (max 1 ((users.length+49)/50) : ℕ) = k+1 := by
        omega
      have hoffset : (((k : ℤ)+1-1)*usersPageSize).toNat = k*usersPageSize := by
        unfold usersPageSize
        omega
      rw [usersPage_eq husers]
      simp only [hkept,hoffset,Option.map_some,Option.getD_some]
    rw [List.flatMap_congr hpage,OffsetPages.flatMap_pages]
    refine List.take_of_length_le ?_
    unfold usersPageSize
    omega
  · refine ⟨_,usersPage_eq husers page,rfl,rfl,?_,?_,?_⟩
    · simp only
      omega
    · simp only
      omega
    · intro hfirst hlast
      simp only
      omega

end UsersQuery
end Broadcaster
