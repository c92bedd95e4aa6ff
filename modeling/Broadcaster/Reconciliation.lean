import Broadcaster.GroupResync
import Mathlib.Data.List.Dedup

/-!
# The resync as a reconciliation

The loop over the answer keeps one invariant: every row that was there is as the
names seen so far make it, and the rows that are new are the named groups that
the account did not have. The passes behind the loop mark what was not seen.
-/

namespace Broadcaster
namespace GroupResync

open Python ScheduleService
open ScheduleSystem (GroupResyncResult emptyResponseMessage)

/-- What becomes of a row when its group has been seen under a name. -/
def visited (names : String → Option String) (g : GroupRow) : GroupRow :=
  match names g.groupExternalId with
  | some name => { g with name := name, missingSince := none }
  | none => g

@[simp] theorem visited_accountId (names : String → Option String) (g : GroupRow) :
    (visited names g).accountId = g.accountId := by
  unfold visited
  split <;> rfl

@[simp] theorem visited_groupExternalId (names : String → Option String) (g : GroupRow) :
    (visited names g).groupExternalId = g.groupExternalId := by
  unfold visited
  split <;> rfl

theorem visited_of_none {names : String → Option String} {g : GroupRow}
    (h : names g.groupExternalId = none) : visited names g = g := by
  rw [visited,h]

def isNew (groups : Store GroupRow) (accountId : ℕ) (externalId : String) : Bool :=
  (existingGroup (groupsOf groups accountId) externalId).isNone

theorem isNew_iff {groups : Store GroupRow} {a : ℕ} {id : String} :
    isNew groups a id = true ↔ ¬ Known groups a id := by
  rw [isNew,Option.isNone_iff_eq_none,existingGroup_eq_none]

/-- The table in the middle of the loop; `names` are the groups seen so far under their first names. -/
structure Visited (account : Account) (messengerType : String) (groups : Store GroupRow)
    (names : String → Option String) (r : Resync) : Prop where
  seen : ∀ id, id ∈ r.seen ↔ (names id).isSome = true
  nodup : r.seen.Nodup
  size : groups.size ≤ r.groups.size
  old : ∀ i g, groups.row i = some g →
    r.groups.row i = some (if g.accountId = account.id then visited names g else g)
  fresh : ∀ i g, groups.row i = none → r.groups.row i = some g → ∃ id name, names id = some name ∧
    ¬ Known groups account.id id ∧ g = newGroup account messengerType id name
  stored : ∀ id name, names id = some name → ¬ Known groups account.id id → ∃ i, groups.row i = none ∧
    r.groups.row i = some (newGroup account messengerType id name)
  distinct : DistinctIds r.groups account.id
  created : r.created = (r.seen.filter (isNew groups account.id)).length
  unrenamed : (∀ i g name, groups.row i = some g → g.accountId = account.id →
    names g.groupExternalId = some name → g.name = name) → r.renamed = 0

section Loop

variable {account : Account} {messengerType : String} {groups : Store GroupRow}
  {names : String → Option String} {r : Resync} {p : String × String}

variable (messengerType) in
theorem Visited.start (hdistinct : DistinctIds groups account.id) :
    Visited account messengerType groups (fun _ => none) ⟨groups,[],0,0⟩ where
  seen := by simp
  nodup := List.nodup_nil
  size := le_refl _
  old := by
    intro i g hg
    rw [visited_of_none rfl,ite_self]
    exact hg
  fresh := by
    intro i g hnone hg
    rw [hnone] at hg
    cases hg
  stored := by
    intro id name h
    cases h
  distinct := hdistinct
  created := rfl
  unrenamed := fun _ => rfl

theorem names_of_unseen (h : names p.1 = none) :
    (fun id => (names id).or ([p].lookup id)) = Function.update names p.1 (some p.2) := by
  obtain ⟨key,value⟩ := p
  funext id
  by_cases hid : id = key
  · rw [hid] at *
    rw [show names key = none from h,Option.none_or,List.lookup_cons_self,Function.update_self]
  · have hne : (id == key) = false := by simpa using hid
    rw [List.lookup_cons,hne,Function.update_of_ne hid]
    exact Option.or_none

theorem names_of_seen (h : (names p.1).isSome = true) :
    (fun id => (names id).or ([p].lookup id)) = names := by
  obtain ⟨key,value⟩ := p
  funext id
  by_cases hid : id = key
  · obtain ⟨name,hname⟩ := Option.isSome_iff_exists.mp h
    rw [hid,show names key = some name from hname,Option.some_or]
  · have hne : (id == key) = false := by simpa using hid
    rw [List.lookup_cons,hne]
    exact Option.or_none

theorem visited_update_of_ne {g : GroupRow} {name : Option String} (h : g.groupExternalId ≠ p.1) :
    visited (Function.update names p.1 name) g = visited names g := by
  unfold visited
  rw [Function.update_of_ne h]

theorem update_eq_some {id name : String} (h : Function.update names p.1 (some p.2) id = some name) :
    (id = p.1 ∧ name = p.2) ∨ (id ≠ p.1 ∧ names id = some name) := by
  by_cases hid : id = p.1
  · rw [hid,Function.update_self] at h
    exact .inl ⟨hid,(Option.some.inj h).symm⟩
  · rw [Function.update_of_ne hid] at h
    exact .inr ⟨hid,h⟩

/-- A name that was seen stays, whatever the group of this turn is called. -/
theorem update_of_unseen (hunseen : names p.1 = none) {id name : String} (h : names id = some name) :
    Function.update names p.1 (some p.2) id = some name := by
  have hne : id ≠ p.1 := by
    intro hid
    rw [hid,hunseen] at h
    cases h
  rw [Function.update_of_ne hne]
  exact h

theorem mem_cons_seen (h : Visited account messengerType groups names r) (id : String) :
    id ∈ p.1::r.seen ↔ (Function.update names p.1 (some p.2) id).isSome = true := by
  rw [List.mem_cons,h.seen]
  by_cases hid : id = p.1
  · simp [hid]
  · simp [hid]

theorem nodup_cons_seen (h : Visited account messengerType groups names r) (hunseen : names p.1 = none) :
    (p.1::r.seen).Nodup := by
  refine List.nodup_cons.mpr ⟨?_,h.nodup⟩
  rw [h.seen,hunseen]
  decide

theorem Visited.unknown (h : Visited account messengerType groups names r) (hunseen : names p.1 = none)
    (hnew : ¬ Known groups account.id p.1) : ¬ Known r.groups account.id p.1 := by
  rintro ⟨i,g,hg,ha,hid⟩
  cases hold : groups.row i with
  | some g₀ =>
    rw [h.old i g₀ hold] at hg
    have he := Option.some.inj hg
    by_cases ha₀ : g₀.accountId = account.id
    · rw [if_pos ha₀] at he
      rw [← he,visited_groupExternalId] at hid
      exact hnew ⟨i,g₀,hold,ha₀,hid⟩
    · rw [if_neg ha₀] at he
      rw [he] at ha₀
      exact ha₀ ha
  | none =>
    obtain ⟨id,name,hname,_,he⟩ := h.fresh i g hold hg
    have hid' : id = p.1 := by
      rw [he] at hid
      exact hid
    rw [hid',hunseen] at hname
    cases hname

theorem Visited.insert (h : Visited account messengerType groups names r) (hunseen : names p.1 = none)
    (hnew : ¬ Known groups account.id p.1) :
    Visited account messengerType groups (Function.update names p.1 (some p.2))
      ⟨r.groups.insert (newGroup account messengerType p.1 p.2),p.1::r.seen,r.created+1,r.renamed⟩ where
  seen := mem_cons_seen h
  nodup := nodup_cons_seen h hunseen
  size := le_trans h.size (Nat.le_succ _)
  old := by
    intro i g hg
    refine Store.row_insert.mpr (.inr ?_)
    rw [h.old i g hg]
    by_cases ha : g.accountId = account.id
    · have hne : g.groupExternalId ≠ p.1 := fun hid => hnew ⟨i,g,hg,ha,hid⟩
      rw [if_pos ha,if_pos ha,visited_update_of_ne hne]
    · rw [if_neg ha,if_neg ha]
  fresh := by
    intro i g hnone hg
    rcases Store.row_insert.mp hg with ⟨_,rfl⟩ | hold
    · exact ⟨p.1,p.2,Function.update_self _ _ _,hnew,rfl⟩
    · obtain ⟨id,name,hname,hunknown,he⟩ := h.fresh i g hnone hold
      exact ⟨id,name,update_of_unseen hunseen hname,hunknown,he⟩
  stored := by
    intro id name hname hunknown
    rcases update_eq_some hname with ⟨rfl,rfl⟩ | ⟨_,hname⟩
    · exact ⟨r.groups.size,groups.fresh _ h.size,Store.row_insert.mpr (.inl ⟨rfl,rfl⟩)⟩
    · obtain ⟨i,hnone,hrow⟩ := h.stored id name hname hunknown
      exact ⟨i,hnone,Store.row_insert.mpr (.inr hrow)⟩
  distinct := by
    have hfree := h.unknown hunseen hnew
    intro i j g k hg hk ha hb hid
    rcases Store.row_insert.mp hg with ⟨hi,rfl⟩ | hg
    · rcases Store.row_insert.mp hk with ⟨hj,_⟩ | hk
      · rw [hi,hj]
      · exact absurd ⟨j,k,hk,hb,hid.symm⟩ hfree
    · rcases Store.row_insert.mp hk with ⟨_,rfl⟩ | hk
      · exact absurd ⟨i,g,hg,ha,hid⟩ hfree
      · exact h.distinct i j g k hg hk ha hb hid
  created := by
    rw [List.filter_cons_of_pos (isNew_iff.mpr hnew),List.length_cons,h.created]
  unrenamed := by
    intro hsame
    exact h.unrenamed fun i g name hg ha hname => hsame i g name hg ha (update_of_unseen hunseen hname)

theorem ne_of_row {i i₀ : ℕ} {g₀ : GroupRow} (hg₀ : groups.row i₀ = some g₀) (hnone : groups.row i = none) :
    i ≠ i₀ := by
  rintro rfl
  rw [hg₀] at hnone
  cases hnone

theorem Visited.update (h : Visited account messengerType groups names r) (hunseen : names p.1 = none)
    (hdistinct : DistinctIds groups account.id) {i₀ : ℕ} {g₀ : GroupRow}
    (hg₀ : groups.row i₀ = some g₀) (ha₀ : g₀.accountId = account.id) (hid₀ : g₀.groupExternalId = p.1) :
    Visited account messengerType groups (Function.update names p.1 (some p.2))
      ⟨r.groups.update i₀ fun g => { g with name := p.2, missingSince := none },p.1::r.seen,r.created,
        if g₀.name ≠ p.2 then r.renamed+1 else r.renamed⟩ where
  seen := mem_cons_seen h
  nodup := nodup_cons_seen h hunseen
  size := h.size
  old := by
    intro i g hg
    by_cases hi : i = i₀
    · have he : g = g₀ := by
        rw [hi,hg₀] at hg
        exact (Option.some.inj hg).symm
      have hrow := h.old i₀ g₀ hg₀
      rw [if_pos ha₀,visited_of_none (by rw [hid₀]; exact hunseen)] at hrow
      rw [hi,he,if_pos ha₀,Store.row_update_self hrow,visited,hid₀,Function.update_self]
    · rw [Store.row_update_of_ne hi,h.old i g hg]
      by_cases ha : g.accountId = account.id
      · have hne : g.groupExternalId ≠ p.1 := by
          intro hid
          exact hi (hdistinct i i₀ g g₀ hg hg₀ ha ha₀ (hid.trans hid₀.symm))
        rw [if_pos ha,if_pos ha,visited_update_of_ne hne]
      · rw [if_neg ha,if_neg ha]
  fresh := by
    intro i g hnone hg
    rw [Store.row_update_of_ne (ne_of_row hg₀ hnone)] at hg
    obtain ⟨id,name,hname,hunknown,he⟩ := h.fresh i g hnone hg
    exact ⟨id,name,update_of_unseen hunseen hname,hunknown,he⟩
  stored := by
    intro id name hname hunknown
    rcases update_eq_some hname with ⟨rfl,_⟩ | ⟨_,hname⟩
    · exact absurd ⟨i₀,g₀,hg₀,ha₀,hid₀⟩ hunknown
    · obtain ⟨i,hnone,hrow⟩ := h.stored id name hname hunknown
      exact ⟨i,hnone,by rw [Store.row_update_of_ne (ne_of_row hg₀ hnone)]; exact hrow⟩
  distinct := by
    refine h.distinct.rewrite ?_
    intro i g g' hf
    have he := Option.some.inj hf
    rw [← he]
    split
    · exact ⟨rfl,rfl⟩
    · exact ⟨rfl,rfl⟩
  created := by
    have hold : ¬ isNew groups account.id p.1 = true := fun hnew => isNew_iff.mp hnew ⟨i₀,g₀,hg₀,ha₀,hid₀⟩
    rw [List.filter_cons_of_neg hold]
    exact h.created
  unrenamed := by
    intro hsame
    have hname : g₀.name = p.2 := hsame i₀ g₀ p.2 hg₀ ha₀ (by rw [hid₀,Function.update_self])
    rw [if_neg (not_not_intro hname)]
    exact h.unrenamed fun i g name hg ha hn => hsame i g name hg ha (update_of_unseen hunseen hn)

theorem Visited.visit (h : Visited account messengerType groups names r)
    (hdistinct : DistinctIds groups account.id) (p : String × String) :
    Visited account messengerType groups (fun id => (names id).or ([p].lookup id))
      (visit account messengerType (groupsOf groups account.id) r p) := by
  unfold GroupResync.visit
  by_cases hseen : p.1 ∈ r.seen
  · rw [if_pos (by simpa using hseen),names_of_seen ((h.seen p.1).mp hseen)]
    exact h
  · have hunseen : names p.1 = none := by
      have hnot := fun hsome => hseen ((h.seen p.1).mpr hsome)
      simpa using hnot
    rw [if_neg (by simpa using hseen),names_of_unseen hunseen]
    cases hexisting : existingGroup (groupsOf groups account.id) p.1 with
    | none => exact h.insert hunseen (existingGroup_eq_none.mp hexisting)
    | some found =>
      obtain ⟨hg₀,ha₀,hid₀⟩ := row_of_existingGroup (i := found.1) (g := found.2) hexisting
      exact h.update hunseen hdistinct hg₀ ha₀ hid₀

theorem Visited.foldl (h : Visited account messengerType groups names r)
    (hdistinct : DistinctIds groups account.id) (ps : List (String × String)) :
    Visited account messengerType groups (fun id => (names id).or (ps.lookup id))
      (ps.foldl (GroupResync.visit account messengerType (groupsOf groups account.id)) r) := by
  induction ps generalizing names r with
  | nil => simpa using h
  | cons p ps ih =>
    have hrest := ih (h.visit hdistinct p)
    have hnames : (fun id => ((names id).or ([p].lookup id)).or (ps.lookup id)) =
        fun id => (names id).or ((p::ps).lookup id) := by
      funext id
      rw [Option.or_assoc,← List.lookup_append,List.singleton_append]
    rw [hnames] at hrest
    exact hrest

end Loop

def loopEnd (repr : Json → String) (s : State) (items : List Json) (messengerType : String) : Resync :=
  items.foldl (resyncItem repr s.account messengerType (groupsOf s.groups s.account.id)) ⟨s.groups,[],0,0⟩

def idsOf (groups : Store GroupRow) (accountId : ℕ) : List String :=
  (groupsOf groups accountId).map fun r => r.2.groupExternalId

/-- The empty-answer fuse lets the answer pass. -/
def Passes (repr : Json → String) (s : State) (items : List Json) (allowFullWipe : Bool) : Prop :=
  (∃ id, Known s.groups s.account.id id) → allowFullWipe = false → usableIds repr items ≠ []

section Marks

variable {repr : Json → String} {s : State} {items : List Json} {messengerType : String} {allowFullWipe : Bool}
  {now : Instant} {a i : ℕ} {g : GroupRow} {id : String} {groups : Store GroupRow}

theorem mem_idsOf : id ∈ idsOf groups a ↔ Known groups a id := by
  unfold idsOf
  rw [List.mem_map]
  constructor
  · rintro ⟨⟨i,g⟩,hmem,hid⟩
    obtain ⟨hg,ha⟩ := mem_groupsOf.mp hmem
    exact ⟨i,g,hg,ha,hid⟩
  · rintro ⟨i,g,hg,ha,hid⟩
    exact ⟨(i,g),mem_groupsOf.mpr ⟨hg,ha⟩,hid⟩

theorem idsOf_nodup (hdistinct : DistinctIds groups a) : (idsOf groups a).Nodup := by
  have hids : ((groupsOf groups a).map Prod.fst).Nodup := groups.select_ids_nodup _
  have hrows : (groupsOf groups a).Nodup := List.Nodup.of_map _ hids
  refine List.Nodup.map_on ?_ hrows
  rintro ⟨i,g⟩ hg ⟨j,k⟩ hk hid
  obtain ⟨hgi,ha⟩ := mem_groupsOf.mp hg
  obtain ⟨hkj,hb⟩ := mem_groupsOf.mp hk
  have hij : i = j := hdistinct i j g k hgi hkj ha hb hid
  rw [hij,hkj] at hgi
  rw [hij,Option.some.inj hgi]

theorem distinctIds_of_nodup (h : (idsOf groups a).Nodup) : DistinctIds groups a := by
  intro i j g k hg hk ha hb hid
  have hrow := List.inj_on_of_nodup_map h (mem_groupsOf.mpr ⟨hg,ha⟩) (mem_groupsOf.mpr ⟨hk,hb⟩) hid
  exact congrArg Prod.fst hrow

theorem mem_usableIds : id ∈ usableIds repr items ↔ ((answer repr items).lookup id).isSome = true := by
  rw [usableIds,List.mem_map,List.lookup_isSome_iff]
  constructor
  · rintro ⟨p,hp,he⟩
    exact ⟨p,hp,by simp [he]⟩
  · rintro ⟨p,hp,he⟩
    exact ⟨p,hp,(eq_of_beq he).symm⟩

theorem usable_of_lookup {name : String} (h : (answer repr items).lookup id = some name) :
    id ∈ usableIds repr items := by
  rw [mem_usableIds,h]
  rfl

theorem lookup_of_notMem (h : id ∉ usableIds repr items) : (answer repr items).lookup id = none := by
  rw [mem_usableIds] at h
  exact Option.not_isSome_iff_eq_none.mp h

variable (repr items messengerType) in
theorem visited_loopEnd (hdistinct : DistinctIds s.groups s.account.id) :
    Visited s.account messengerType s.groups (fun id => (answer repr items).lookup id)
      (loopEnd repr s items messengerType) := by
  have h := (Visited.start messengerType hdistinct).foldl hdistinct (answer repr items)
  rw [loopEnd,foldl_resyncItem]
  simpa only [Option.none_or] using h

def distinctUsable (repr : Json → String) (items : List Json) : List String := (usableIds repr items).dedup

theorem mem_distinctUsable : id ∈ distinctUsable repr items ↔ id ∈ usableIds repr items := List.mem_dedup

theorem distinctUsable_nodup : (distinctUsable repr items).Nodup := List.nodup_dedup _

variable (repr items messengerType) in
theorem seen_perm (hdistinct : DistinctIds s.groups s.account.id) :
    (loopEnd repr s items messengerType).seen.Perm (distinctUsable repr items) := by
  have h := visited_loopEnd repr items messengerType hdistinct
  refine (List.perm_ext_iff_of_nodup h.nodup distinctUsable_nodup).mpr ?_
  intro id
  rw [h.seen,← mem_usableIds,mem_distinctUsable]

def lostIds (repr : Json → String) (groups : Store GroupRow) (accountId : ℕ) (items : List Json) : List String :=
  (idsOf groups accountId).filter fun id => !(usableIds repr items).contains id

/-- Both sides of the pass count the groups that are known and in the answer. -/
theorem length_known (hdistinct : DistinctIds groups a) :
    (distinctUsable repr items).length+(lostIds repr groups a items).length =
      (idsOf groups a).length+((distinctUsable repr items).filter (isNew groups a)).length := by
  have hcommon : ((distinctUsable repr items).filter fun id => !isNew groups a id).Perm
      ((idsOf groups a).filter fun id => (usableIds repr items).contains id) := by
    refine (List.perm_ext_iff_of_nodup (distinctUsable_nodup.filter _) ((idsOf_nodup hdistinct).filter _)).mpr ?_
    intro id
    have hnew : (!isNew groups a id) = true ↔ Known groups a id := by
      rw [Bool.not_eq_true',Bool.eq_false_iff,ne_eq,isNew_iff,not_not]
    rw [List.mem_filter,List.mem_filter,hnew,mem_distinctUsable,mem_idsOf,List.contains_iff_mem]
    exact and_comm
  have hanswer := List.length_eq_length_filter_add (l := distinctUsable repr items) (isNew groups a)
  have hrows := List.length_eq_length_filter_add (l := idsOf groups a) fun id => (usableIds repr items).contains id
  have hlength := hcommon.length_eq
  unfold lostIds
  omega

def unseen (s : State) (r : Resync) : List (ℕ × GroupRow) :=
  (groupsOf s.groups s.account.id).filter fun g => !r.seen.contains g.2.groupExternalId

variable (repr items messengerType) in
theorem length_unseen (hdistinct : DistinctIds s.groups s.account.id) :
    (unseen s (loopEnd repr s items messengerType)).length = (lostIds repr s.groups s.account.id items).length := by
  have h := visited_loopEnd repr items messengerType hdistinct
  have hseen : ∀ id, (loopEnd repr s items messengerType).seen.contains id = (usableIds repr items).contains id := by
    intro id
    rw [Bool.eq_iff_iff,List.contains_iff_mem,List.contains_iff_mem,h.seen,mem_usableIds]
  rw [unseen,lostIds,idsOf,List.filter_map,List.length_map]
  congr 1
  apply List.filter_congr
  intro r _
  rw [hseen]
  rfl

/-- The marks that the last loop puts. -/
def marked (s : State) (r : Resync) (now : Instant) : Store GroupRow :=
  r.groups.rewrite fun i g =>
    some (if ((unseen s r).map Prod.fst).contains i && g.missingSince.isNone then
      { g with missingSince := some now } else g)

/-- The result of an answer that passes the fuse. -/
def syncedResult (repr : Json → String) (s : State) (items : List Json) (messengerType : String) :
    GroupResyncResult where
  found := (distinctUsable repr items).length
  created := ((distinctUsable repr items).filter (isNew s.groups s.account.id)).length
  renamed := (loopEnd repr s items messengerType).renamed
  missing := (lostIds repr s.groups s.account.id items).length
  error := none

def synced (repr : Json → String) (s : State) (items : List Json) (messengerType : String) (now : Instant) :
    State where
  groups := marked s (loopEnd repr s items messengerType) now
  schedules := s.schedules
  account :=
    { s.account with
      lastSyncedAt := some now
      lastSyncResult := some (syncedResult repr s items messengerType) }

variable (messengerType now) in
theorem applyGroupResync_passes (hdistinct : DistinctIds s.groups s.account.id)
    (hpass : Passes repr s items allowFullWipe) :
    applyGroupResync repr s (.arr items) messengerType allowFullWipe now =
      (synced repr s items messengerType now,syncedResult repr s items messengerType) := by
  have h := visited_loopEnd repr items messengerType hdistinct
  have hfuse : ¬ (!(groupsOf s.groups s.account.id).isEmpty && (loopEnd repr s items messengerType).seen.isEmpty &&
      !allowFullWipe) = true := by
    simp only [Bool.and_eq_true,Bool.not_eq_true',List.isEmpty_eq_false_iff,List.isEmpty_iff]
    rintro ⟨⟨hexisting,hseen⟩,hallow⟩
    obtain ⟨⟨i,g⟩,hmem⟩ := List.exists_mem_of_ne_nil _ hexisting
    obtain ⟨hg,ha⟩ := mem_groupsOf.mp hmem
    refine hpass ⟨_,i,g,hg,ha,rfl⟩ hallow (List.eq_nil_iff_forall_not_mem.mpr fun id hid => ?_)
    rw [mem_usableIds,← h.seen,hseen] at hid
    cases hid
  have hperm := seen_perm repr items messengerType hdistinct
  have hresult : syncedResult repr s items messengerType =
      ⟨(loopEnd repr s items messengerType).seen.length,(loopEnd repr s items messengerType).created,
        (loopEnd repr s items messengerType).renamed,(unseen s (loopEnd repr s items messengerType)).length,none⟩ := by
    rw [syncedResult,← hperm.length_eq,← (hperm.filter (isNew s.groups s.account.id)).length_eq,← h.created,
      ← length_unseen repr items messengerType hdistinct]
  rw [synced,hresult]
  exact if_neg hfuse

theorem contains_unseen {r : Resync} : ((unseen s r).map Prod.fst).contains i = true ↔
    ∃ g, s.groups.row i = some g ∧ g.accountId = s.account.id ∧ g.groupExternalId ∉ r.seen := by
  rw [List.contains_iff_mem,List.mem_map]
  constructor
  · rintro ⟨⟨j,g⟩,hmem,rfl⟩
    obtain ⟨hrow,hseen⟩ := List.mem_filter.mp hmem
    obtain ⟨hg,ha⟩ := mem_groupsOf.mp hrow
    exact ⟨g,hg,ha,by simpa using hseen⟩
  · rintro ⟨g,hg,ha,hseen⟩
    exact ⟨(i,g),List.mem_filter.mpr ⟨mem_groupsOf.mpr ⟨hg,ha⟩,by simpa using hseen⟩,rfl⟩

theorem not_contains_unseen {r : Resync} (hnone : s.groups.row i = none) :
    ¬ ((unseen s r).map Prod.fst).contains i = true := by
  rw [contains_unseen]
  rintro ⟨g,hg,_⟩
  rw [hnone] at hg
  cases hg

variable (now) in
theorem marked_of_not_unseen {r : Resync} (h : ¬ ((unseen s r).map Prod.fst).contains i = true)
    (hrow : r.groups.row i = some g) : (marked s r now).row i = some g := by
  have hfalse : ((unseen s r).map Prod.fst).contains i = false := Bool.eq_false_iff.mpr h
  rw [marked,Store.row_rewrite,hrow,Option.bind_some,hfalse,Bool.false_and]
  rfl

theorem marked_of_unseen {r : Resync} (h : ((unseen s r).map Prod.fst).contains i = true)
    (hrow : r.groups.row i = some g) :
    (marked s r now).row i = some { g with missingSince := some (g.missingSince.getD now) } := by
  rw [marked,Store.row_rewrite,hrow,Option.bind_some,h,Bool.true_and]
  cases hm : g.missingSince with
  | none => rfl
  | some t =>
    rw [Option.isNone_some,if_neg Bool.false_ne_true,Option.getD_some,← hm]

/-- The rows of the account, the answer and the rows that come of both. -/
structure Reconciled (repr : Json → String) (items : List Json) (messengerType : String) (now : Instant)
    (account : Account) (before after : Store GroupRow) : Prop where
  others : ∀ i g, before.row i = some g → g.accountId ≠ account.id → after.row i = some g
  returned : ∀ i g name, before.row i = some g → g.accountId = account.id →
    (answer repr items).lookup g.groupExternalId = some name →
    after.row i = some { g with name := name, missingSince := none }
  missing : ∀ i g, before.row i = some g → g.accountId = account.id →
    g.groupExternalId ∉ usableIds repr items →
    after.row i = some { g with missingSince := some (g.missingSince.getD now) }
  created : ∀ i g, before.row i = none → after.row i = some g → ∃ id name,
    (answer repr items).lookup id = some name ∧ ¬ Known before account.id id ∧
      g = newGroup account messengerType id name
  stored : ∀ id, id ∈ usableIds repr items → Known after account.id id
  distinct : DistinctIds after account.id

variable (repr items messengerType now) in
theorem reconciled_loopEnd (hdistinct : DistinctIds s.groups s.account.id) :
    Reconciled repr items messengerType now s.account s.groups
      (marked s (loopEnd repr s items messengerType) now) := by
  have h := visited_loopEnd repr items messengerType hdistinct
  have hkept : ∀ i g, s.groups.row i = some g →
      (g.accountId = s.account.id → g.groupExternalId ∈ usableIds repr items) →
      (marked s (loopEnd repr s items messengerType) now).row i =
        (loopEnd repr s items messengerType).groups.row i := by
    intro i g hg hmem
    rw [h.old i g hg]
    refine marked_of_not_unseen now ?_ (h.old i g hg)
    rw [contains_unseen]
    rintro ⟨g',hg',ha,hseen⟩
    rw [hg] at hg'
    rw [← Option.some.inj hg'] at ha hseen
    rw [h.seen,← mem_usableIds] at hseen
    exact hseen (hmem ha)
  refine ⟨?_,?_,?_,?_,?_,?_⟩
  · intro i g hg ha
    rw [hkept i g hg fun h => absurd h ha,h.old i g hg,if_neg ha]
  · intro i g name hg ha hname
    rw [hkept i g hg fun _ => usable_of_lookup hname,h.old i g hg,if_pos ha,visited,hname]
  · intro i g hg ha hmem
    have hrow := h.old i g hg
    rw [if_pos ha,visited_of_none (lookup_of_notMem hmem)] at hrow
    refine marked_of_unseen (contains_unseen.mpr ⟨g,hg,ha,?_⟩) hrow
    rw [h.seen,← mem_usableIds]
    exact hmem
  · intro i g hnone hg
    obtain ⟨g',hg',_⟩ := Option.bind_eq_some_iff.mp hg
    have hsame := marked_of_not_unseen now (not_contains_unseen hnone) hg'
    rw [hg] at hsame
    rw [Option.some.inj hsame]
    exact h.fresh i g' hnone hg'
  · intro id hid
    obtain ⟨name,hname⟩ := Option.isSome_iff_exists.mp (mem_usableIds.mp hid)
    by_cases hknown : Known s.groups s.account.id id
    · obtain ⟨i,g,hg,ha,rfl⟩ := hknown
      have hrow := hkept i g hg fun _ => hid
      rw [h.old i g hg,if_pos ha] at hrow
      exact ⟨i,_,hrow,by rw [visited_accountId,ha],visited_groupExternalId _ _⟩
    · obtain ⟨i,hnone,hrow⟩ := h.stored id name hname hknown
      exact ⟨i,_,marked_of_not_unseen now (not_contains_unseen hnone) hrow,rfl,rfl⟩
  · refine h.distinct.rewrite ?_
    intro i g g' hf
    have he := Option.some.inj hf
    rw [← he]
    split
    · exact ⟨rfl,rfl⟩
    · exact ⟨rfl,rfl⟩

section Facts

variable {account : Account} {before after : Store GroupRow}

/-- A row of the account after the synchronisation has the name of the answer and no mark, or it is an old row
that the answer does not have, with a mark. -/
theorem Reconciled.row_cases (h : Reconciled repr items messengerType now account before after)
    (hg : after.row i = some g) (ha : g.accountId = account.id) :
    (∃ name, (answer repr items).lookup g.groupExternalId = some name ∧ g.name = name ∧ g.missingSince = none) ∨
      (g.groupExternalId ∉ usableIds repr items ∧ (∃ t, g.missingSince = some t) ∧
        Known before account.id g.groupExternalId) := by
  cases hold : before.row i with
  | none =>
    obtain ⟨id,name,hname,_,rfl⟩ := h.created i g hold hg
    exact .inl ⟨name,hname,rfl,rfl⟩
  | some g₀ =>
    by_cases ha₀ : g₀.accountId = account.id
    · by_cases hmem : g₀.groupExternalId ∈ usableIds repr items
      · obtain ⟨name,hname⟩ := Option.isSome_iff_exists.mp (mem_usableIds.mp hmem)
        have hrow := h.returned i g₀ name hold ha₀ hname
        rw [hg] at hrow
        rw [Option.some.inj hrow]
        exact .inl ⟨name,hname,rfl,rfl⟩
      · have hrow := h.missing i g₀ hold ha₀ hmem
        rw [hg] at hrow
        rw [Option.some.inj hrow]
        exact .inr ⟨hmem,⟨_,rfl⟩,i,g₀,hold,ha₀,rfl⟩
    · have hrow := h.others i g₀ hold ha₀
      rw [hg] at hrow
      rw [Option.some.inj hrow] at ha
      exact absurd ha ha₀

theorem Reconciled.known_iff (h : Reconciled repr items messengerType now account before after) :
    Known after account.id id ↔ Known before account.id id ∨ id ∈ usableIds repr items := by
  constructor
  · rintro ⟨i,g,hg,ha,rfl⟩
    rcases h.row_cases hg ha with ⟨name,hname,_⟩ | ⟨_,_,hknown⟩
    · exact .inr (usable_of_lookup hname)
    · exact .inl hknown
  · rintro (⟨i,g,hg,ha,rfl⟩ | hmem)
    · by_cases hmem : g.groupExternalId ∈ usableIds repr items
      · exact h.stored _ hmem
      · exact ⟨i,_,h.missing i g hg ha hmem,ha,rfl⟩
    · exact h.stored id hmem

theorem Reconciled.marked_iff (h : Reconciled repr items messengerType now account before after)
    (hg : after.row i = some g) (ha : g.accountId = account.id) :
    g.missingSince.isSome = true ↔ g.groupExternalId ∉ usableIds repr items := by
  rcases h.row_cases hg ha with ⟨name,hname,_,hmark⟩ | ⟨hmem,⟨t,hmark⟩,_⟩
  · rw [hmark]
    exact iff_of_false Bool.false_ne_true (not_not_intro (usable_of_lookup hname))
  · rw [hmark]
    exact iff_of_true rfl hmem

theorem Reconciled.again {later : Instant} {account' : Account} {after' : Store GroupRow}
    (h : Reconciled repr items messengerType now account before after)
    (h' : Reconciled repr items messengerType later account' after after') (hid : account'.id = account.id) (i : ℕ) :
    after'.row i = after.row i := by
  cases hrow : after.row i with
  | none =>
    cases hrow' : after'.row i with
    | none => rfl
    | some g =>
      obtain ⟨id,name,hname,hunknown,_⟩ := h'.created i g hrow hrow'
      rw [hid] at hunknown
      exact absurd (h.stored id (usable_of_lookup hname)) hunknown
  | some g =>
    by_cases ha : g.accountId = account.id
    · rcases h.row_cases hrow ha with ⟨name,hname,he,hmark⟩ | ⟨hmem,⟨t,hmark⟩,_⟩
      · rw [h'.returned i g name hrow (ha.trans hid.symm) hname,← he,← hmark]
      · rw [h'.missing i g hrow (ha.trans hid.symm) hmem,hmark,Option.getD_some,← hmark]
    · exact h'.others i g hrow fun ha' => ha (ha'.trans hid)

end Facts

structure Faithful (repr : Json → String) (items : List Json) (messengerType : String) (allowFullWipe : Bool)
    (now : Instant) (before after : State) (result : GroupResyncResult) : Prop where
  rows : Reconciled repr items messengerType now before.account before.groups after.groups
  ids : ∀ id, Known after.groups before.account.id id ↔
    Known before.groups before.account.id id ∨ id ∈ usableIds repr items
  marks : ∀ i g, after.groups.row i = some g → g.accountId = before.account.id →
    (g.missingSince.isSome = true ↔ g.groupExternalId ∉ usableIds repr items)
  found : result.found = (distinctUsable repr items).length
  total : result.found+result.missing = (groupsOf before.groups before.account.id).length+result.created
  schedules : after.schedules = before.schedules
  account : after.account =
    { before.account with lastSyncedAt := some now, lastSyncResult := some result }
  again : ∀ later, (applyGroupResync repr after (.arr items) messengerType allowFullWipe later).2 =
    ⟨result.found,0,0,result.missing,none⟩
  againRows : ∀ later i,
    (applyGroupResync repr after (.arr items) messengerType allowFullWipe later).1.groups.row i =
      after.groups.row i

theorem lostIds_perm {account : Account} {before after : Store GroupRow}
    (h : Reconciled repr items messengerType now account before after) (hdistinct : DistinctIds before account.id) :
    (lostIds repr after account.id items).Perm (lostIds repr before account.id items) := by
  refine (List.perm_ext_iff_of_nodup ((idsOf_nodup h.distinct).filter _) ((idsOf_nodup hdistinct).filter _)).mpr ?_
  intro id
  rw [List.mem_filter,List.mem_filter,mem_idsOf,mem_idsOf,h.known_iff,Bool.not_eq_true',Bool.eq_false_iff,ne_eq,
    List.contains_iff_mem,or_and_right]
  exact or_iff_left fun hmem => hmem.2 hmem.1

/-- A second synchronisation with the same answer finds everything in place. -/
theorem syncedResult_again (hdistinct : DistinctIds s.groups s.account.id) :
    syncedResult repr (synced repr s items messengerType now) items messengerType =
      ⟨(distinctUsable repr items).length,0,0,(lostIds repr s.groups s.account.id items).length,none⟩ := by
  have hrows := reconciled_loopEnd repr items messengerType now hdistinct
  have hcreated : (distinctUsable repr items).filter
      (isNew (synced repr s items messengerType now).groups s.account.id) = [] := by
    rw [List.filter_eq_nil_iff]
    intro id hid hnew
    exact isNew_iff.mp hnew (hrows.stored id (mem_distinctUsable.mp hid))
  have hrenamed : (loopEnd repr (synced repr s items messengerType now) items messengerType).renamed = 0 := by
    refine (visited_loopEnd (s := synced repr s items messengerType now) repr items messengerType hrows.distinct).unrenamed ?_
    intro i g name hg ha hname
    rcases hrows.row_cases hg ha with ⟨name',hname',he,_⟩ | ⟨hmem,_⟩
    · rw [hname] at hname'
      rw [he,Option.some.inj hname']
    · rw [lookup_of_notMem hmem] at hname
      cases hname
  have hlost := (lostIds_perm hrows hdistinct).length_eq
  rw [syncedResult,hrenamed]
  congr 1
  exact congrArg List.length hcreated

end Marks

/-- The resync is a reconciliation of the rows of the account with the usable elements of the answer. -/
theorem resync_reconciles {repr : Json → String} {s : State} {items : List Json} (messengerType : String)
    {allowFullWipe : Bool} (now : Instant) (hdistinct : DistinctIds s.groups s.account.id)
    (hpass : Passes repr s items allowFullWipe) :
    Faithful repr items messengerType allowFullWipe now s
      (applyGroupResync repr s (.arr items) messengerType allowFullWipe now).1
      (applyGroupResync repr s (.arr items) messengerType allowFullWipe now).2 := by
  have hrows := reconciled_loopEnd repr items messengerType now hdistinct
  -- the second synchronisation passes the fuse as well
  have hpass' : Passes repr (synced repr s items messengerType now) items allowFullWipe := by
    rintro ⟨id,hknown⟩ hallow
    rcases hrows.known_iff.mp hknown with hknown | hmem
    · exact hpass ⟨id,hknown⟩ hallow
    · exact List.ne_nil_of_mem hmem
  have hsecond := fun later => applyGroupResync_passes (s := synced repr s items messengerType now)
    messengerType later hrows.distinct hpass'
  rw [applyGroupResync_passes messengerType now hdistinct hpass]
  refine ⟨hrows,fun id => hrows.known_iff,fun i g hg ha => hrows.marked_iff hg ha,rfl,?_,rfl,rfl,?_,?_⟩
  · have hlength : (idsOf s.groups s.account.id).length = (groupsOf s.groups s.account.id).length :=
      List.length_map _
    rw [← hlength]
    exact length_known hdistinct
  · intro later
    rw [hsecond]
    exact syncedResult_again hdistinct
  · intro later i
    rw [hsecond]
    have hrows' := reconciled_loopEnd (s := synced repr s items messengerType now) repr items messengerType later
      hrows.distinct
    exact hrows.again hrows' rfl i

def office : State where
  groups :=
    ((Store.empty GroupRow).insert ⟨1,1,"wa","a","Sales",true,none,none,none⟩
      |>.insert ⟨1,1,"wa","b","Support",false,some "forbidden",some 3,none⟩
      |>.insert ⟨2,2,"wa","a","Other",true,none,none,none⟩)
  schedules := .empty Schedule
  account := ⟨1,1,none,none⟩

def officeAnswer : List Json :=
  [.obj [("id",.str "a"),("name",.str "Sales 2")],.obj [("id",.str "a")],.obj [("id",.int 7),("name",.null)],
   .null,.obj [("name",.str "nobody")]]

theorem resync_reconciles_office :
    (applyGroupResync (fun _ => "") office (.arr officeAnswer) "wa" false 9).2 = ⟨2,1,1,1,none⟩ ∧
      Faithful (fun _ => "") officeAnswer "wa" false 9 office
        (applyGroupResync (fun _ => "") office (.arr officeAnswer) "wa" false 9).1
        (applyGroupResync (fun _ => "") office (.arr officeAnswer) "wa" false 9).2 :=
  ⟨by decide,resync_reconciles "wa" 9 (distinctIds_of_nodup (by decide)) fun _ _ => by decide⟩

end GroupResync
end Broadcaster
