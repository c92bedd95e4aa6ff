import Broadcaster.KeysetPages
import Broadcaster.Models
import Mathlib.Logic.Relation

/-!
# The page with the groups of an account

The page shows the first rows and a sentinel that asks for the next ones when it
is revealed. A row can be switched and deleted. Any number of requests is on the
way, they are answered and their answers are applied in any order, and other
sessions change the groups meanwhile.
-/

namespace Broadcaster
namespace GroupsPage

open KeysetPages

def pageSize : ℕ := 30

/-- What is fixed while the page is open. `ilike` compares a name with the term that is looked for. -/
structure Site where
  userId : ℕ
  accountId : ℕ
  search : Option String
  ilike : String → String → Bool

/-- A row of the document: the id in the attribute and the group as it was shown. -/
abbrev Shown := ℕ × Group

inductive Request
  | toggle (groupId : ℕ) (isActive : Bool)
  | delete (groupId : ℕ)
  deriving DecidableEq

inductive Answer
  | row (groupId : ℕ) (group : Group)
  | deleted (groupId : ℕ)
  deriving DecidableEq

inductive Edit
  | sent (r : Request) | answered (a : Answer)
  deriving DecidableEq

inductive Portion
  | idle | sent (afterId : ℕ) | answered (rows : List Shown) (nextAfterId : Option ℕ)

/-- `removed` are the ids that an answer has removed from the document. -/
structure State where
  rows : List Shown
  sentinel : Option ℕ
  portion : Portion
  edits : List Edit
  removed : List ℕ
  groups : Store Group

section Handlers

variable (site : Site)

def owned (groupId : ℕ) (groups : Store Group) : Option Group :=
  (groups.row groupId).filter fun g => g.userId = site.userId ∧ g.accountId = site.accountId

/-- `_build_groups_query` -/
def listing (groups : Store Group) : List Shown :=
  groups.select fun g => g.userId = site.userId ∧ g.accountId = site.accountId ∧
    site.search.all (site.ilike g.name)

/-- The rows and the sentinel of `GET /accounts/{account_id}/groups` -/
def accountGroupsPage (groups : Store Group) : List Shown × Option ℕ := page Prod.fst (listing site groups) none pageSize

def accountGroupsPartial (groups : Store Group) (afterId limit : ℕ) : List Shown × Option ℕ :=
  page Prod.fst (listing site groups) (some afterId) limit

/-- `POST /accounts/{account_id}/groups/{group_id}/toggle`; without an answer the browser leaves the page. -/
def accountGroupsToggle (groups : Store Group) (groupId : ℕ) (isActive : Bool) : Store Group × Option Answer :=
  match owned site groupId groups with
  | none => (groups,none)
  | some group =>
    (groups.update groupId fun g => { g with isActive := isActive },
      some (.row groupId { group with isActive := isActive }))

def accountGroupsDelete (groups : Store Group) (groupId : ℕ) : Store Group × Option Answer :=
  let groups :=
    match owned site groupId groups with
    | none => groups
    | some _ => groups.deleteWhere fun i _ => i = groupId
  (groups,if listing site groups = [] then none else some (.deleted groupId))

def serve (groups : Store Group) : Request → Store Group × Option Answer
  | .toggle groupId isActive => accountGroupsToggle site groups groupId isActive
  | .delete groupId => accountGroupsDelete site groups groupId

/-- What the answer changes in the document; a node that is not there is not missed. -/
def applyAnswer (s : State) : Answer → State
  | .row groupId group => { s with rows := s.rows.map fun row => if row.1 = groupId then (groupId,group) else row }
  | .deleted groupId =>
    { s with rows := s.rows.filter (fun row => row.1 ≠ groupId), removed := groupId::s.removed }

def Request.groupId : Request → ℕ
  | .toggle groupId _ => groupId
  | .delete groupId => groupId

inductive Event
  | reveal
  | servePortion
  | applyPortion
  | click (r : Request)
  | serveEdit (n : ℕ)
  | applyEdit (n : ℕ)
  | others (groups : Store Group)

/-- One event; where there is none, it cannot happen or the browser leaves the page. -/
inductive Step (s : State) : Event → State → Prop
  | reveal (afterId : ℕ) (hsentinel : s.sentinel = some afterId) (hidle : s.portion = .idle) :
      Step s .reveal { s with portion := .sent afterId }
  | servePortion (afterId : ℕ) (hsent : s.portion = .sent afterId) : Step s .servePortion
      { s with
        portion := .answered (accountGroupsPartial site s.groups afterId pageSize).1
          (accountGroupsPartial site s.groups afterId pageSize).2 }
  | applyPortion (rows : List Shown) (next : Option ℕ) (hanswered : s.portion = .answered rows next) :
      Step s .applyPortion { s with rows := s.rows ++ rows, sentinel := next, portion := .idle }
  | click (r : Request) (hshown : r.groupId ∈ s.rows.map Prod.fst) :
      Step s (.click r) { s with edits := s.edits ++ [.sent r] }
  | serveEdit (n : ℕ) (r : Request) (a : Answer) (hsent : s.edits[n]? = some (.sent r))
      (hanswer : (serve site s.groups r).2 = some a) : Step s (.serveEdit n)
      { s with groups := (serve site s.groups r).1, edits := s.edits.set n (.answered a) }
  | applyEdit (n : ℕ) (a : Answer) (hanswered : s.edits[n]? = some (.answered a)) :
      Step s (.applyEdit n) { applyAnswer s a with edits := s.edits.eraseIdx n }
  | others (groups : Store Group) : Step s (.others groups) { s with groups := groups }

structure Opened (s : State) : Prop where
  shown : (s.rows,s.sentinel) = accountGroupsPage site s.groups
  portion : s.portion = .idle
  edits : s.edits = []
  removed : s.removed = []

def Reaches (P : State → Prop) : State → State → Prop :=
  Relation.ReflTransGen fun s s' => P s' ∧ ∃ e, Step site s e s'

def IsListed (id : ℕ) (s : State) : Prop := id ∈ (listing site s.groups).map Prod.fst

end Handlers

section Facts

variable {site : Site} {s s' : State} {groups : Store Group} {id : ℕ}

theorem ordered_select (groups : Store Group) (p : Group → Bool) : Ordered Prod.fst (groups.select p) := by
  have hrows : Ordered Prod.fst groups.rows := by
    refine List.pairwise_map.mp ?_
    rw [Store.rows_ids]
    exact List.Pairwise.filter _ List.pairwise_lt_range
  exact hrows.filter _

theorem portion_next (groups : Store Group) (afterId : ℕ) : KeysetPages.Portion Prod.fst (listing site groups)
    (some afterId) (accountGroupsPartial site groups afterId pageSize).1
    (accountGroupsPartial site groups afterId pageSize).2 :=
  portion_page (ordered_select groups _) (by decide)

theorem portion_first (groups : Store Group) : KeysetPages.Portion Prod.fst (listing site groups) none
    (accountGroupsPage site groups).1 (accountGroupsPage site groups).2 :=
  portion_page (ordered_select groups _) (by decide)

theorem listed_iff : id ∈ (listing site groups).map Prod.fst ↔ ∃ g, groups.row id = some g ∧
    g.userId = site.userId ∧ g.accountId = site.accountId ∧ site.search.all (site.ilike g.name) = true := by
  unfold listing
  simp only [List.mem_map,Prod.exists,exists_and_right,exists_eq_right,Store.mem_select,decide_eq_true_eq]

theorem not_listed_of_deleted (h : id ∈ (listing site groups).map Prod.fst) :
    id ∉ (listing site (accountGroupsDelete site groups id).1).map Prod.fst := by
  obtain ⟨g,hrow,huser,haccount,_⟩ := listed_iff.mp h
  have howned : owned site id groups = some g := by
    unfold owned
    rw [hrow,Option.filter_some,if_pos (decide_eq_true ⟨huser,haccount⟩)]
  intro hlisted
  obtain ⟨g',hrow',_⟩ := listed_iff.mp hlisted
  unfold accountGroupsDelete at hrow'
  rw [howned] at hrow'
  dsimp only at hrow'
  rw [Store.row_deleteWhere] at hrow'
  exact absurd hrow'.2 (by simp)

inductive AnswerTo : Request → Answer → Prop
  | row (groupId : ℕ) (isActive : Bool) (group : Group) : AnswerTo (.toggle groupId isActive) (.row groupId group)
  | deleted (groupId : ℕ) : AnswerTo (.delete groupId) (.deleted groupId)

theorem answer_of_serve {r : Request} {a : Answer} (h : (serve site groups r).2 = some a) : AnswerTo r a := by
  cases r with
  | toggle groupId isActive =>
    have h : (accountGroupsToggle site groups groupId isActive).2 = some a := h
    unfold accountGroupsToggle at h
    cases howned : owned site groupId groups with
    | none =>
      rw [howned] at h
      cases h
    | some group =>
      rw [howned] at h
      cases Option.some.inj h
      exact .row groupId isActive _
  | delete groupId =>
    have h : (accountGroupsDelete site groups groupId).2 = some a := h
    unfold accountGroupsDelete at h
    dsimp only at h
    split_ifs at h
    cases Option.some.inj h
    exact .deleted groupId

def Edit.groupId : Edit → ℕ
  | .sent r => r.groupId
  | .answered (.row groupId _) => groupId
  | .answered (.deleted groupId) => groupId

def Passed (s : State) (id : ℕ) : Prop := ∀ c, s.sentinel = some c → id ≤ c

structure Sound (s : State) : Prop where
  listed : Listed (s.rows.map Prod.fst) s.sentinel
  removed : ∀ id ∈ s.removed, id ∉ s.rows.map Prod.fst ∧ Passed s id
  edits : ∀ e ∈ s.edits, Passed s e.groupId
  sent : ∀ afterId, s.portion = .sent afterId → s.sentinel = some afterId
  answered : ∀ rows next, s.portion = .answered rows next → ∃ afterId, s.sentinel = some afterId ∧
    ∃ table, KeysetPages.Portion Prod.fst table (some afterId) rows next

theorem map_fst_ite (rows : List Shown) (groupId : ℕ) (group : Group) :
    (rows.map fun row => if row.1 = groupId then (groupId,group) else row).map Prod.fst = rows.map Prod.fst := by
  rw [List.map_map]
  refine List.map_congr_left fun row _ => ?_
  simp only [Function.comp_apply]
  split_ifs with h
  · exact h.symm
  · rfl

theorem mem_filter_ne {rows : List Shown} {groupId : ℕ} :
    id ∈ (rows.filter fun row => row.1 ≠ groupId).map Prod.fst ↔ id ∈ rows.map Prod.fst ∧ id ≠ groupId := by
  simp only [List.mem_map,List.mem_filter,decide_eq_true_eq]
  constructor
  · rintro ⟨row,⟨hrow,hne⟩,rfl⟩
    exact ⟨⟨row,hrow,rfl⟩,hne⟩
  · rintro ⟨⟨row,hrow,rfl⟩,hne⟩
    exact ⟨row,⟨hrow,hne⟩,rfl⟩

theorem Sound.serveEdit (h : Sound s) {n : ℕ} {r : Request} {a : Answer} (hsent : s.edits[n]? = some (.sent r))
    (hanswer : (serve site s.groups r).2 = some a) (groups : Store Group) :
    Sound { s with groups := groups, edits := s.edits.set n (.answered a) } where
  listed := h.listed
  removed := h.removed
  edits := by
    intro e he
    rcases List.mem_or_eq_of_mem_set he with hold | rfl
    · exact h.edits e hold
    · have hgroup : (Edit.answered a).groupId = (Edit.sent r).groupId := by
        cases answer_of_serve hanswer <;> rfl
      rw [hgroup]
      exact h.edits _ (List.mem_of_getElem? hsent)
  sent := h.sent
  answered := h.answered

theorem Sound.applyEdit (h : Sound s) {n : ℕ} {a : Answer} (hanswered : s.edits[n]? = some (.answered a)) :
    Sound { applyAnswer s a with edits := s.edits.eraseIdx n } := by
  have hedits : ∀ e ∈ s.edits.eraseIdx n, Passed s e.groupId := fun e he => h.edits e (List.mem_of_mem_eraseIdx he)
  cases a with
  | row groupId group =>
    have hids := map_fst_ite s.rows groupId group
    refine ⟨?_,?_,hedits,h.sent,h.answered⟩
    · dsimp only [applyAnswer]
      rw [hids]
      exact h.listed
    · dsimp only [applyAnswer]
      rw [hids]
      exact h.removed
  | deleted groupId =>
    refine ⟨h.listed.sublist (List.Sublist.map _ List.filter_sublist),?_,hedits,h.sent,h.answered⟩
    intro id hid
    dsimp only [applyAnswer] at hid ⊢
    rw [mem_filter_ne]
    rcases List.mem_cons.mp hid with rfl | hid
    · exact ⟨fun hmem => hmem.2 rfl,h.edits _ (List.mem_of_getElem? hanswered)⟩
    · obtain ⟨hnot,hpassed⟩ := h.removed id hid
      exact ⟨fun hmem => hnot hmem.1,hpassed⟩

theorem Sound.step {e : Event} (h : Sound s) (hs : Step site s e s') : Sound s' := by
  cases hs with
  | reveal afterId hsentinel hidle =>
    refine ⟨h.listed,h.removed,h.edits,?_,fun rows next hp => by cases hp⟩
    rintro afterId' hsent
    cases hsent
    exact hsentinel
  | servePortion afterId hsent =>
    refine ⟨h.listed,h.removed,h.edits,fun afterId' hp => (by cases hp),?_⟩
    rintro rows next hp
    cases hp
    exact ⟨afterId,h.sent afterId hsent,listing site s.groups,portion_next s.groups afterId⟩
  | applyPortion rows next hanswered =>
    obtain ⟨afterId,hsentinel,table,hp⟩ := h.answered rows next hanswered
    have hlisted := h.listed
    rw [hsentinel] at hlisted
    have hpassed : ∀ id, Passed s id → id ≤ afterId ∧ ∀ c, next = some c → id ≤ c := by
      intro id hid
      have hle := hid afterId hsentinel
      exact ⟨hle,fun c hc => hle.trans (le_of_lt (hp.forward afterId c rfl hc))⟩
    refine ⟨?_,?_,fun e he => (hpassed _ (h.edits e he)).2,fun afterId' hp' => (by cases hp'),
      fun rows' next' hp' => by cases hp'⟩
    · dsimp only
      rw [List.map_append]
      exact hlisted.append hp
    · intro id hid
      obtain ⟨hnot,hid⟩ := h.removed id hid
      refine ⟨?_,(hpassed id hid).2⟩
      dsimp only
      rw [List.map_append,List.mem_append,not_or]
      refine ⟨hnot,fun hmem => ?_⟩
      obtain ⟨row,hrow,rfl⟩ := List.mem_map.mp hmem
      exact absurd (hpassed _ hid).1 (not_le_of_gt (hp.behind row hrow afterId rfl))
  | click r hshown =>
    refine ⟨h.listed,h.removed,?_,h.sent,h.answered⟩
    refine List.forall_mem_append.mpr ⟨h.edits,List.forall_mem_singleton.mpr ?_⟩
    exact fun c hc => h.listed.upTo c hc _ hshown
  | serveEdit n r a hsent hanswer => exact h.serveEdit hsent hanswer _
  | applyEdit n a hanswered => exact h.applyEdit hanswered
  | others groups => exact ⟨h.listed,h.removed,h.edits,h.sent,h.answered⟩

theorem Opened.sound (h : Opened site s) : Sound s := by
  have hp := @portion_first site s.groups
  obtain ⟨hrows,hsentinel⟩ := Prod.ext_iff.mp h.shown
  dsimp only at hrows hsentinel
  rw [← hrows,← hsentinel] at hp
  refine ⟨hp.listed,?_,?_,?_,?_⟩
  · rw [h.removed]
    simp
  · rw [h.edits]
    simp
  · intro afterId hsent
    rw [h.portion] at hsent
    cases hsent
  · intro rows next hanswered
    rw [h.portion] at hanswered
    cases hanswered

/-- A group that stays in the listing is shown or behind the sentinel, and nothing is going to remove it. -/
structure Kept (s : State) (id : ℕ) : Prop where
  covered : Covered (s.rows.map Prod.fst) s.sentinel id
  undeleted : Edit.answered (.deleted id) ∉ s.edits
  answered : ∀ rows next afterId, s.portion = .answered rows next → s.sentinel = some afterId → afterId < id →
    (∀ c, next = some c → id ≤ c) → id ∈ rows.map Prod.fst

theorem Kept.step {e : Event} (h : Kept s id) (hsound : Sound s) (hs : Step site s e s') (hbefore : IsListed site id s)
    (hafter : IsListed site id s') : Kept s' id := by
  cases hs with
  | reveal afterId hsentinel hidle =>
    exact ⟨h.covered,h.undeleted,fun rows next afterId' hp => by cases hp⟩
  | servePortion afterId hsent =>
    refine ⟨h.covered,h.undeleted,?_⟩
    rintro rows next afterId' hp hsentinel hlt hnext
    cases hp
    have heq : afterId' = afterId := Option.some.inj (hsentinel.symm.trans (hsound.sent afterId hsent))
    obtain ⟨row,hrow,rfl⟩ := List.mem_map.mp hbefore
    refine List.mem_map_of_mem ((portion_next s.groups afterId).whole row hrow ?_ hnext)
    rintro c hc
    cases hc
    exact heq ▸ hlt
  | applyPortion rows next hanswered =>
    obtain ⟨afterId,hsentinel,table,hp⟩ := hsound.answered rows next hanswered
    refine ⟨?_,h.undeleted,fun rows next afterId' hp => by cases hp⟩
    intro hnext
    dsimp only at hnext ⊢
    rw [List.map_append,List.mem_append]
    by_cases hle : id ≤ afterId
    · refine .inl (h.covered ?_)
      intro c hc
      rw [hsentinel] at hc
      cases hc
      exact hle
    · exact .inr (h.answered rows next afterId hanswered hsentinel (Nat.lt_of_not_le hle) hnext)
  | click r hshown =>
    refine ⟨h.covered,?_,h.answered⟩
    rw [List.mem_append,not_or]
    exact ⟨h.undeleted,by simp⟩
  | serveEdit n r a hsent hanswer =>
    refine ⟨h.covered,?_,h.answered⟩
    intro hmem
    rcases List.mem_or_eq_of_mem_set hmem with hold | heq
    · exact h.undeleted hold
    · -- the group would have left the listing
      cases heq
      cases answer_of_serve hanswer
      exact not_listed_of_deleted hbefore hafter
  | applyEdit n a hanswered =>
    have hundeleted : Edit.answered (.deleted id) ∉ s.edits.eraseIdx n :=
      fun hmem => h.undeleted (List.mem_of_mem_eraseIdx hmem)
    cases a with
    | row groupId group =>
      refine ⟨?_,hundeleted,h.answered⟩
      dsimp only [applyAnswer]
      rw [map_fst_ite]
      exact h.covered
    | deleted groupId =>
      refine ⟨?_,hundeleted,h.answered⟩
      intro hnext
      dsimp only [applyAnswer] at hnext ⊢
      rw [mem_filter_ne]
      refine ⟨h.covered hnext,?_⟩
      rintro rfl
      exact h.undeleted (List.mem_of_getElem? hanswered)
  | others groups => exact ⟨h.covered,h.undeleted,h.answered⟩

theorem Opened.kept (h : Opened site s) (hlisted : IsListed site id s) : Kept s id := by
  have hp := @portion_first site s.groups
  obtain ⟨hrows,hsentinel⟩ := Prod.ext_iff.mp h.shown
  dsimp only at hrows hsentinel
  rw [← hrows,← hsentinel] at hp
  refine ⟨hp.covered hlisted,?_,?_⟩
  · rw [h.edits]
    simp
  · intro rows next afterId hanswered
    rw [h.portion] at hanswered
    cases hanswered

end Facts

section Runs

variable {site : Site} {a b : State} {P : State → Prop} {id : ℕ}

theorem sound_of_steps (ha : Opened site a) (h : Reaches site P a b) : Sound b := by
  induction h with
  | refl => exact ha.sound
  | tail _ hs ih =>
    obtain ⟨_,e,hs⟩ := hs
    exact ih.step hs

theorem kept_of_reaches (ha : Opened site a) (hlisted : IsListed site id a) (h : Reaches site (IsListed site id) a b) :
    Kept b id ∧ IsListed site id b := by
  induction h with
  | refl => exact ⟨ha.kept hlisted,hlisted⟩
  | tail hr hs ih =>
    obtain ⟨hafter,e,hs⟩ := hs
    exact ⟨ih.1.step (sound_of_steps ha hr) hs ih.2 hafter,hafter⟩

end Runs

/-- The ids of the rows are those of an ordered list without repetitions, and what has been removed does not come
back. A group that is in the listing all the time is shown, unless it is behind the sentinel. -/
structure Faithful (site : Site) (a b : State) : Prop where
  ordered : (b.rows.map Prod.fst).Pairwise (· < ·)
  removed : ∀ id ∈ b.removed, id ∉ b.rows.map Prod.fst
  whole : ∀ id, IsListed site id a → Reaches site (IsListed site id) a b → Passed b id → id ∈ b.rows.map Prod.fst

theorem groups_page_is_faithful (site : Site) (a b : State) (ha : Opened site a)
    (h : Reaches site (fun _ => True) a b) : Faithful site a b where
  ordered := (sound_of_steps ha h).listed.ordered
  removed := fun id hid => ((sound_of_steps ha h).removed id hid).1
  whole := fun _ hlisted hr hpassed => (kept_of_reaches ha hlisted hr).1.covered hpassed

def groupOfOne (name : String) : Group := ⟨1,1,name,name,true,none⟩

def siteOfOne : Site := ⟨1,1,none,fun _ _ => true⟩

def manyGroups : Store Group := (Store.empty Group).insertAll ((List.range 31).map fun n => groupOfOne (toString n))

def opened : State where
  rows := (accountGroupsPage siteOfOne manyGroups).1
  sentinel := (accountGroupsPage siteOfOne manyGroups).2
  portion := .idle
  edits := []
  removed := []
  groups := manyGroups

/-- The last row is deleted while the portion behind it is on its way. -/
theorem groups_page_is_faithful_deleted : ∃ b, Faithful siteOfOne opened b ∧ b.sentinel = none ∧ b.removed = [29] ∧
    b.rows.map Prod.fst = List.range 29 ++ [30] := by
  have hsentinel : opened.sentinel = some 29 := by decide +kernel
  have hshown : 29 ∈ opened.rows.map Prod.fst := by decide +kernel
  have hanswer : (serve siteOfOne opened.groups (.delete 29)).2 = some (.deleted 29) := by decide +kernel
  have hreveal : Reaches siteOfOne (fun _ => True) opened _ := .single ⟨trivial,_,.reveal 29 hsentinel rfl⟩
  have hserved := hreveal.tail ⟨trivial,_,.servePortion 29 rfl⟩
  have hclicked := hserved.tail ⟨trivial,_,.click (.delete 29) hshown⟩
  have hdeleted := hclicked.tail ⟨trivial,_,.serveEdit 0 (.delete 29) (.deleted 29) rfl hanswer⟩
  have hremoved := hdeleted.tail ⟨trivial,_,.applyEdit 0 (.deleted 29) rfl⟩
  have happlied := hremoved.tail ⟨trivial,_,.applyPortion _ _ rfl⟩
  refine ⟨_,groups_page_is_faithful siteOfOne opened _ ⟨rfl,rfl,rfl,rfl⟩ happlied,?_,rfl,?_⟩ <;> decide +kernel

end GroupsPage
end Broadcaster
