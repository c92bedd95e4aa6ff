import Broadcaster.ScheduleOwnership

/-!
# Deleting groups while schedules are edited

`account_groups_delete` takes the id of its group out of every schedule of the
user and deletes the group, in one transaction; the requests that update the
schedules of the user run between its statements. The rows of `schedules` and
`groups` are under READ COMMITTED. None of these requests writes another table,
so the rest of the data is fixed. A session writes its rows in any order.
-/

namespace Broadcaster
namespace GroupDeletion

open Python ScheduleService ScheduleRules Scheduling ScheduleRoutes Interleaving
open ScheduleMachine (Operation writeRow writeRow_eq_ok modify_hasId_slot modify_hasId_slot_of_ne
  oneSchedule office monday)

/-- The two tables, and a record of the run that no statement reads: the groups whose deletion has been
committed, and the ids that committed updates have taken out of their schedules. -/
structure Db where
  schedules : Table Schedule
  groups : Table Group
  deleted : List ℕ
  removed : List (ℕ × ℤ)

inductive Write
  | row (l : Loaded)
  | group

inductive Pc
  | accountGroupsDelete (accountId groupId : ℤ)
  /- the group is found -/
  | removeGroupIds (group : ℕ)
  | flush (group : ℕ) (left : List Write)
  /- an update of one schedule -/
  | edit (op : Operation) (schedule : ℕ)
  /- the row is loaded; the groups are read next -/
  | check (op : Operation) (schedule : ℕ) (s : Schedule)
  | write (l : Loaded)
  | commit (l : Loaded)
  /- the session is closed without a commit -/
  | closing
  | finished

structure Input where
  now : Instant
  pick : ℕ

/-- What a transaction sees of a table. -/
def seen {Row : Type} (t : Table Row) (tx : ℕ) : Store Row where
  size := t.size
  row := t.view tx
  fresh := by
    intro i hi
    cases hv : t.view tx i with
    | none => rfl
    | some r => exact absurd (Table.view_lt hv) (by omega)

def without (deleted : List ℤ) (s : Schedule) : Schedule :=
  { s with groupIds := s.groupIds.filter fun g => !deleted.contains g }

def removals (group : ℕ) (rows : List (ℕ × Schedule)) : List Loaded :=
  (rows.map fun r => (⟨r.1,r.2,without [(group : ℤ)] r.2⟩ : Loaded)).filter Loaded.changed

def lostIds (l : Loaded) : List (ℕ × ℤ) :=
  (l.loaded.groupIds.filter fun g => !l.current.groupIds.contains g).map (l.id,·)

namespace Db

def commitDeletion (db : Db) (tx group : ℕ) : Db where
  schedules := db.schedules.commit tx
  groups := db.groups.commit tx
  deleted := group::db.deleted
  removed := db.removed

def commitUpdate (db : Db) (tx : ℕ) (l : Loaded) : Db :=
  { db with schedules := db.schedules.commit tx, removed := db.removed ++ lostIds l }

def rollback (db : Db) (tx : ℕ) : Db :=
  { db with schedules := db.schedules.rollback tx, groups := db.groups.rollback tx }

def setSchedules (db : Db) (t : Table Schedule) : Db := { db with schedules := t }

def setGroups (db : Db) (t : Table Group) : Db := { db with groups := t }

end Db

section Machine

variable (env : Environment) (userId : ℕ) (data : Database)

def step (db : Db) (tx : ℕ) (pc : Pc) (inp : Input) : Option (Db × Pc) :=
  match pc with
  | .accountGroupsDelete accountId groupId =>
    match ScheduleSystem.groupFor { data with groups := seen db.groups tx } userId accountId groupId with
    | none => some (db,.finished)
    | some (group,_) => some (db,.removeGroupIds group)
  | .removeGroupIds group =>
    let rows := db.schedules.select tx fun _ s => data.ownsAd userId s.adId
    some (db,.flush group ((removals group rows).map .row ++ [.group]))
  | .flush group left =>
    if left.isEmpty then some (db.commitDeletion tx group,.finished)
    else
      left[inp.pick]?.bind fun w =>
        match w with
        | .row l =>
          (writeRow db.schedules tx l).map fun result =>
            match result with
            | .error _ => (db,.closing)
            | .ok t => (db.setSchedules t,.flush group (left.eraseIdx inp.pick))
        | .group =>
          (db.groups.modify tx (fun i _ => i = group) fun _ => none).map fun t =>
            (db.setGroups t,.flush group (left.eraseIdx inp.pick))
  | .edit op schedule =>
    match db.schedules.view tx schedule with
    | none => some (db,.finished)
    | some s =>
      if data.ownsAd op.userId s.adId then some (db,.check op schedule s) else some (db,.finished)
  | .check op schedule s =>
    match op.decide env { data with groups := seen db.groups tx } inp.now s with
    | .commit new => some (db,.write ⟨schedule,s,new⟩)
    | .refuse _ => some (db,.finished)
    | .raise _ => some (db,.finished)
  | .write l =>
    (writeRow db.schedules tx l).map fun result =>
      match result with
      | .error _ => (db,.closing)
      | .ok t => (db.setSchedules t,.commit l)
  | .commit l => some (db.commitUpdate tx l,.finished)
  | .closing => some (db.rollback tx,.finished)
  | .finished => none

def machine : Machine Db Pc Input := ⟨step env userId data⟩

end Machine

def Pc.isStart (userId : ℕ) : Pc → Bool
  | accountGroupsDelete _ _ | finished => true
  | edit op _ => op.userId = userId
  | _ => false

def Pc.Deletes (x : ℤ) : Pc → Prop
  | accountGroupsDelete _ groupId => groupId = x
  | removeGroupIds group | flush group _ => (group : ℤ) = x
  | _ => False

structure Initial (userId : ℕ) (c : Config Db Pc) : Prop where
  schedules : ∀ i, (c.db.schedules.slot i).draft = none
  groups : ∀ i, (c.db.groups.slot i).draft = none
  deleted : c.db.deleted = []
  removed : c.db.removed = []
  starts : ∀ i, (c.pc i).isStart userId = true
  different : ∀ i j x, (c.pc i).Deletes x → (c.pc j).Deletes x → i = j

def Pc.Flushes (x : ℤ) : Pc → Prop
  | flush group _ => (group : ℤ) = x
  | _ => False

def Pc.Awaits (x : ℤ) (i : ℕ) : Pc → Prop
  | flush group left => (group : ℤ) = x ∧ ∃ l, .row l ∈ left ∧ l.id = i
  | _ => False

def PassedBy (c : Config Db Pc) (x : ℤ) (i : ℕ) : Prop :=
  (∃ g ∈ c.db.deleted, (g : ℤ) = x) ∨ ∃ j, (c.pc j).Flushes x ∧ ¬ (c.pc j).Awaits x i

/-- An `UPDATE` of `group_ids` overwrites no id that its session has not read, and brings no group into
a schedule that the deletion of the group has passed by. -/
def HarmlessWrite (c : Config Db Pc) (tx : ℕ) (l : Loaded) : Prop :=
  l.loaded.groupIds ≠ l.current.groupIds →
    (∀ s ∈ c.db.schedules.view tx l.id, ∀ x ∈ s.groupIds, x ∈ l.loaded.groupIds ∨ x ∈ l.current.groupIds) ∧
    ∀ x ∈ l.current.groupIds, ¬ PassedBy c x l.id

/-- Every `UPDATE` is as above, and no deletion reads the schedules while an uncommitted update has put
its group into one of them. -/
def keepsGroupIds (c : Config Db Pc) (m : Move Input) : Prop :=
  match c.pc m.1 with
  | .removeGroupIds group => ∀ i o s, (c.db.schedules.slot i).draft = some (o,some s) →
      (group : ℤ) ∈ s.groupIds → ∃ s', c.db.schedules.committed i = some s' ∧ (group : ℤ) ∈ s'.groupIds
  | .flush _ left => ∀ l, left[m.2.pick]? = some (.row l) → HarmlessWrite c m.1 l
  | .write l => HarmlessWrite c m.1 l
  | _ => True

variable {env : Environment} {userId tx : ℕ} {data : Database} {db db' : Db} {pc pc' : Pc} {inp : Input}

inductive Transition (env : Environment) (userId : ℕ) (data : Database) (db : Db) (tx : ℕ) (inp : Input) :
    Pc → Db → Pc → Prop
  | found {accountId groupId : ℤ} {group : ℕ} {row : Group}
      (h : ScheduleSystem.groupFor { data with groups := seen db.groups tx } userId accountId groupId =
        some (group,row)) :
      Transition env userId data db tx inp (.accountGroupsDelete accountId groupId) db (.removeGroupIds group)
  | select {group : ℕ} : Transition env userId data db tx inp (.removeGroupIds group) db
      (.flush group ((removals group
        (db.schedules.select tx fun _ s => data.ownsAd userId s.adId)).map .row ++ [.group]))
  | flushRow {group : ℕ} {left : List Write} {l : Loaded} {t : Table Schedule}
      (hpick : left[inp.pick]? = some (.row l)) (h : writeRow db.schedules tx l = some (.ok t)) :
      Transition env userId data db tx inp (.flush group left) (db.setSchedules t)
        (.flush group (left.eraseIdx inp.pick))
  | flushGroup {group : ℕ} {left : List Write} {t : Table Group}
      (hpick : left[inp.pick]? = some .group)
      (h : db.groups.modify tx (fun i _ => i = group) (fun _ => none) = some t) :
      Transition env userId data db tx inp (.flush group left) (db.setGroups t)
        (.flush group (left.eraseIdx inp.pick))
  | commitDeletion {group : ℕ} :
      Transition env userId data db tx inp (.flush group []) (db.commitDeletion tx group) .finished
  | load {op : Operation} {i : ℕ} {s : Schedule} (hv : db.schedules.view tx i = some s)
      (howns : data.ownsAd op.userId s.adId = true) :
      Transition env userId data db tx inp (.edit op i) db (.check op i s)
  | decide {op : Operation} {i : ℕ} {s new : Schedule}
      (h : op.decide env { data with groups := seen db.groups tx } inp.now s = .commit new) :
      Transition env userId data db tx inp (.check op i s) db (.write ⟨i,s,new⟩)
  | write {l : Loaded} {t : Table Schedule} (h : writeRow db.schedules tx l = some (.ok t)) :
      Transition env userId data db tx inp (.write l) (db.setSchedules t) (.commit l)
  | commitUpdate {l : Loaded} :
      Transition env userId data db tx inp (.commit l) (db.commitUpdate tx l) .finished
  /- an exception of the flush -/
  | fail {pc : Pc} (h : (∃ group left, pc = .flush group left) ∨ ∃ l, pc = .write l) :
      Transition env userId data db tx inp pc db .closing
  | rollback : Transition env userId data db tx inp .closing (db.rollback tx) .finished
  /- nothing to do -/
  | stop {pc : Pc} (h : (∃ accountId groupId, pc = .accountGroupsDelete accountId groupId) ∨
      (∃ op i, pc = .edit op i) ∨ ∃ op i s, pc = .check op i s) :
      Transition env userId data db tx inp pc db .finished

theorem transition_of_step (h : step env userId data db tx pc inp = some (db',pc')) :
    Transition env userId data db tx inp pc db' pc' := by
  cases pc with
  | accountGroupsDelete accountId groupId =>
    simp only [step] at h
    split at h
    · cases h
      exact .stop (.inl ⟨_,_,rfl⟩)
    · rename_i hfound
      cases h
      exact .found hfound
  | removeGroupIds group =>
    cases h
    exact .select
  | flush group left =>
    simp only [step] at h
    split at h
    · rename_i hleft
      have hnil : left = [] := by simpa using hleft
      subst hnil
      cases h
      exact .commitDeletion
    · obtain ⟨w,hpick,h⟩ := Option.bind_eq_some_iff.mp h
      cases w with
      | row l =>
        obtain ⟨result,hw,he⟩ := Option.map_eq_some_iff.mp h
        split at he
        · cases he
          exact .fail (.inl ⟨_,_,rfl⟩)
        · cases he
          exact .flushRow hpick hw
      | group =>
        obtain ⟨t,ht,he⟩ := Option.map_eq_some_iff.mp h
        cases he
        exact .flushGroup hpick ht
  | edit op i =>
    simp only [step] at h
    split at h
    · cases h
      exact .stop (.inr (.inl ⟨_,_,rfl⟩))
    · rename_i s hv
      split at h
      · rename_i howns
        cases h
        exact .load hv howns
      · cases h
        exact .stop (.inr (.inl ⟨_,_,rfl⟩))
  | check op i s =>
    simp only [step] at h
    split at h
    · rename_i new hd
      cases h
      exact .decide hd
    · cases h
      exact .stop (.inr (.inr ⟨_,_,_,rfl⟩))
    · cases h
      exact .stop (.inr (.inr ⟨_,_,_,rfl⟩))
  | write l =>
    obtain ⟨result,hw,he⟩ := Option.map_eq_some_iff.mp h
    split at he
    · cases he
      exact .fail (.inr ⟨_,rfl⟩)
    · cases he
      exact .write hw
  | commit l =>
    cases h
    exact .commitUpdate
  | closing =>
    cases h
    exact .rollback
  | finished => cases h

def Pc.holds : Pc → Bool
  | flush _ _ | commit _ | closing => true
  | _ => false

variable {t t' : Table Schedule} {l : Loaded} {i o : ℕ} {v : Option Schedule}

theorem wrote_cases (h : writeRow t tx l = some (.ok t')) : (l.loaded = l.current ∧ t' = t) ∨
    ∃ stored, t.view tx l.id = some stored ∧ t.free tx l.id = true ∧
      t'.slot l.id = ⟨t.committed l.id,some (tx,some (l.merge stored))⟩ ∧
      ∀ j, j ≠ l.id → t'.slot j = t.slot j := by
  rcases writeRow_eq_ok h with ⟨hchanged,ht⟩ | ⟨stored,_,hv,_,hm⟩
  · exact .inl ⟨by simpa [Loaded.changed] using hchanged,ht⟩
  · have hfree := (Table.modify_eq_some.mp hm).1 l.id stored hv (by simp [ScheduleMachine.hasId])
    have hslot := modify_hasId_slot (f := fun s => some (l.merge s)) hm hv
    exact .inr ⟨stored,hv,hfree,hslot,fun j hj => modify_hasId_slot_of_ne hm hj⟩

theorem wrote_committed (h : writeRow t tx l = some (.ok t')) (i : ℕ) :
    t'.committed i = t.committed i := by
  rcases wrote_cases h with ⟨_,rfl⟩ | ⟨stored,_,_,hslot,hother⟩
  · rfl
  · by_cases hi : i = l.id
    · subst hi
      simp [Table.committed,hslot]
    · simp [Table.committed,hother i hi]

theorem wrote_draft (h : writeRow t tx l = some (.ok t')) (hd : (t'.slot i).draft = some (o,v)) :
    (t.slot i).draft = some (o,v) ∨ (i = l.id ∧ o = tx ∧
      ∃ stored, t.view tx l.id = some stored ∧ t.free tx l.id = true ∧ v = some (l.merge stored)) := by
  rcases wrote_cases h with ⟨_,rfl⟩ | ⟨stored,hv,hfree,hslot,hother⟩
  · exact .inl hd
  · by_cases hi : i = l.id
    · subst hi
      rw [hslot] at hd
      cases hd
      exact .inr ⟨rfl,rfl,stored,hv,hfree,rfl⟩
    · rw [hother i hi] at hd
      exact .inl hd

theorem Transition.draft (h : Transition env userId data db tx inp pc db' pc')
    (hd : (db'.schedules.slot i).draft = some (o,v)) :
    ((db.schedules.slot i).draft = some (o,v) ∧ (o = tx → pc.holds = true → pc'.holds = true)) ∨
      (o = tx ∧ pc'.holds = true) := by
  cases h with
  | found _ => exact .inl ⟨hd,fun _ hp => by cases hp⟩
  | select => exact .inl ⟨hd,fun _ _ => rfl⟩
  | flushRow _ hw =>
    rcases wrote_draft hw hd with hd | ⟨_,ho,_⟩
    · exact .inl ⟨hd,fun _ _ => rfl⟩
    · exact .inr ⟨ho,rfl⟩
  | flushGroup _ _ => exact .inl ⟨hd,fun _ _ => rfl⟩
  | commitDeletion => exact .inl ⟨(Table.commit_draft hd).1,fun ho => absurd ho (Table.commit_draft hd).2⟩
  | load _ _ => exact .inl ⟨hd,fun _ hp => by cases hp⟩
  | decide _ => exact .inl ⟨hd,fun _ hp => by cases hp⟩
  | write hw =>
    rcases wrote_draft hw hd with hd | ⟨_,ho,_⟩
    · exact .inl ⟨hd,fun _ _ => rfl⟩
    · exact .inr ⟨ho,rfl⟩
  | commitUpdate => exact .inl ⟨(Table.commit_draft hd).1,fun ho => absurd ho (Table.commit_draft hd).2⟩
  | fail _ => exact .inl ⟨hd,fun _ _ => rfl⟩
  | rollback => exact .inl ⟨(Table.rollback_draft hd).1,fun ho => absurd ho (Table.rollback_draft hd).2⟩
  | stop hpc =>
    refine .inl ⟨hd,fun _ hp => ?_⟩
    rcases hpc with ⟨_,_,rfl⟩ | ⟨_,_,rfl⟩ | ⟨_,_,_,rfl⟩ <;> cases hp

theorem groupFor_id {accountId groupId : ℤ} {group : ℕ} {row : Group}
    (h : ScheduleSystem.groupFor data userId accountId groupId = some (group,row)) :
    (group : ℤ) = groupId ∧ data.groups.row group = some row := by
  unfold ScheduleSystem.groupFor at h
  split at h
  · obtain ⟨row',hfilter,hpair⟩ := Option.map_eq_some_iff.mp h
    obtain ⟨hfind,_⟩ := Option.filter_eq_some_iff.mp hfilter
    obtain ⟨n,rfl,hrow⟩ := Store.find_eq_some hfind
    simp only [Int.toNat_natCast,Prod.mk.injEq] at hpair
    obtain ⟨rfl,rfl⟩ := hpair
    exact ⟨rfl,hrow⟩
  · cases h

theorem Transition.deletes {x : ℤ} (h : Transition env userId data db tx inp pc db' pc')
    (hx : pc'.Deletes x) : pc.Deletes x := by
  cases h with
  | found hfound => exact (groupFor_id hfound).1.symm.trans hx
  | select => exact hx
  | flushRow _ _ => exact hx
  | flushGroup _ _ => exact hx
  | commitDeletion => exact absurd hx id
  | load _ _ => exact absurd hx id
  | decide _ => exact absurd hx id
  | write _ => exact absurd hx id
  | commitUpdate => exact absurd hx id
  | fail _ => exact absurd hx id
  | rollback => exact absurd hx id
  | stop _ => exact absurd hx id

theorem Transition.deleted {g : ℕ} (h : Transition env userId data db tx inp pc db' pc')
    (hg : g ∈ db'.deleted) :
    g ∈ db.deleted ∨ (pc = .flush g [] ∧ pc' = .finished ∧ db' = db.commitDeletion tx g) := by
  cases h with
  | commitDeletion =>
    rcases List.mem_cons.mp hg with rfl | hg
    · exact .inr ⟨rfl,rfl,rfl⟩
    · exact .inl hg
  | found _ => exact .inl hg
  | select => exact .inl hg
  | flushRow _ _ => exact .inl hg
  | flushGroup _ _ => exact .inl hg
  | load _ _ => exact .inl hg
  | decide _ => exact .inl hg
  | write _ => exact .inl hg
  | commitUpdate => exact .inl hg
  | fail _ => exact .inl hg
  | rollback => exact .inl hg
  | stop _ => exact .inl hg

/-- One process for each group, none for a deleted one, and only writing sessions hold rows. -/
structure Apart (c : Config Db Pc) : Prop where
  different : ∀ i j x, (c.pc i).Deletes x → (c.pc j).Deletes x → i = j
  gone : ∀ g ∈ c.db.deleted, ∀ j, ¬ (c.pc j).Deletes g
  held : ∀ i o v, (c.db.schedules.slot i).draft = some (o,v) → (c.pc o).holds = true

theorem deletes_update {c : Config Db Pc} {m : Move Input} {x : ℤ} {j : ℕ}
    (h : Transition env userId data c.db m.1 m.2 (c.pc m.1) db' pc')
    (hj : (Function.update c.pc m.1 pc' j).Deletes x) : (c.pc j).Deletes x := by
  by_cases hjm : j = m.1
  · subst hjm
    rw [Function.update_self] at hj
    exact h.deletes hj
  · rw [Function.update_of_ne hjm] at hj
    exact hj

theorem Apart.next {c c' : Config Db Pc} {m : Move Input} (hc : Apart c)
    (h : next (machine env userId data) c m = some c') : Apart c' := by
  obtain ⟨db,pc,hs,rfl⟩ := next_eq_some.mp h
  have ht := transition_of_step hs
  refine ⟨fun i j x hi hj => ?_,fun g hg j hj => ?_,fun i o v hd => ?_⟩
  · exact hc.different i j x (deletes_update ht hi) (deletes_update ht hj)
  · rcases ht.deleted hg with hold | ⟨hpc,rfl,_⟩
    · exact hc.gone g hold j (deletes_update ht hj)
    · have hsame : j = m.1 := by
        refine hc.different j m.1 g (deletes_update ht hj) ?_
        rw [hpc]
        rfl
      subst hsame
      simp only [Function.update_self] at hj
      exact hj
  · rcases ht.draft hd with ⟨hbefore,hgoes⟩ | ⟨rfl,hholds⟩
    · have hheld := hc.held i o v hbefore
      by_cases hom : o = m.1
      · subst hom
        simpa only [Function.update_self] using hgoes rfl hheld
      · simpa only [Function.update_of_ne hom] using hheld
    · simpa only [Function.update_self] using hholds

theorem Apart.view {c : Config Db Pc} (hc : Apart c) (h : (c.pc tx).holds = false) (i : ℕ) :
    c.db.schedules.view tx i = c.db.schedules.committed i := by
  refine Table.view_of_holder_ne fun hholder => ?_
  obtain ⟨v,hd⟩ := Table.holder_eq_some.mp hholder
  rw [hc.held i tx v hd] at h
  cases h

theorem Transition.committed (h : Transition env userId data db tx inp pc db' pc') (i : ℕ) :
    db'.schedules.committed i = db.schedules.committed i ∨
      (pc' = .finished ∧ ((∃ g, pc = .flush g [] ∧ db' = db.commitDeletion tx g) ∨
        ∃ l, pc = .commit l ∧ db' = db.commitUpdate tx l) ∧
        ∃ v, (db.schedules.slot i).draft = some (tx,v) ∧ db'.schedules.committed i = v) := by
  have hcommit : (db.schedules.commit tx).committed i = db.schedules.committed i ∨
      ∃ v, (db.schedules.slot i).draft = some (tx,v) ∧ (db.schedules.commit tx).committed i = v := by
    rw [Table.commit_committed]
    by_cases hh : db.schedules.holder i = some tx
    · obtain ⟨v,hd⟩ := Table.holder_eq_some.mp hh
      exact .inr ⟨v,hd,Table.view_of_draft hd⟩
    · exact .inl (Table.view_of_holder_ne hh)
  cases h with
  | commitDeletion => exact hcommit.imp_right fun hd => ⟨rfl,.inl ⟨_,rfl,rfl⟩,hd⟩
  | commitUpdate => exact hcommit.imp_right fun hd => ⟨rfl,.inr ⟨_,rfl,rfl⟩,hd⟩
  | flushRow _ hw => exact .inl (wrote_committed hw i)
  | write hw => exact .inl (wrote_committed hw i)
  | rollback => exact .inl (Table.rollback_committed i)
  | found _ | select | flushGroup _ _ | load _ _ | decide _ | fail _ | stop _ => exact .inl rfl

def OwnedRow (userId : ℕ) (data : Database) (t : Table Schedule) (i : ℕ) : Prop :=
  ∃ s, t.committed i = some s ∧ data.ownsAd userId s.adId = true

def Pc.WorksOn (i : ℕ) (s : Schedule) : Pc → Prop
  | check _ j s' => j = i ∧ s' = s
  | write l => l.id = i ∧ l.current = s
  | flush _ left => ∃ l, .row l ∈ left ∧ l.id = i ∧ l.current = s
  | _ => False

def Pc.OfUser (userId : ℕ) : Pc → Prop
  | edit op _ | check op _ _ => op.userId = userId
  | _ => True

structure Owned (userId : ℕ) (data : Database) (c : Config Db Pc) : Prop where
  requests : ∀ j, (c.pc j).OfUser userId
  works : ∀ j i s, (c.pc j).WorksOn i s →
    data.ownsAd userId s.adId = true ∧ OwnedRow userId data c.db.schedules i
  drafts : ∀ i o v, (c.db.schedules.slot i).draft = some (o,v) → ∃ s, v = some s ∧
    data.ownsAd userId s.adId = true ∧ OwnedRow userId data c.db.schedules i

theorem decide_owns {op : Operation} {groups : Store Group} {now : Instant} {s new : Schedule}
    (h : op.decide env { data with groups := groups } now s = .commit new)
    (howns : data.ownsAd op.userId s.adId = true) : data.ownsAd op.userId new.adId = true := by
  cases op with
  | update user request =>
    unfold Operation.decide updateDecision at h
    simp only at h
    split at h
    · cases h
    · rw [(ScheduleSystem.settle_sameTargets h).ad]
      exact howns
  | toggle user =>
    rw [(ScheduleSystem.toggle_sameTargets h).ad]
    exact howns
  | pageUpdate user profile form =>
    unfold Operation.decide SchedulePages.updateDecision at h
    simp only at h
    split at h
    · cases h
    · cases h
    · rename_i hverdict
      rw [(ScheduleSystem.settle_sameTargets h).ad]
      have hform := (ScheduleSystem.verdict_ok hverdict).1
      obtain ⟨n,hn,ad,hrow,huser⟩ := ScheduleSystem.ownsAd_iff.mp hform
      refine ScheduleSystem.ownsAd_iff.mpr ⟨n,?_,ad,hrow,huser⟩
      simp [SchedulePages.assignForm,hn]
  | pageToggle user =>
    rw [(ScheduleSystem.toggle_sameTargets h).ad]
    exact howns

theorem mem_removals {g : ℕ} {rows : List (ℕ × Schedule)} (h : l ∈ removals g rows) :
    ∃ s, (l.id,s) ∈ rows ∧ l.loaded = s ∧ l.current = without [(g : ℤ)] s ∧ l.loaded ≠ l.current := by
  obtain ⟨hmap,hchanged⟩ := List.mem_filter.mp h
  obtain ⟨⟨i,s⟩,hrow,rfl⟩ := List.mem_map.mp hmap
  exact ⟨s,hrow,rfl,rfl,by simpa [Loaded.changed] using hchanged⟩

theorem mem_row_left {g : ℕ} {rows : List (ℕ × Schedule)} :
    .row l ∈ (removals g rows).map Write.row ++ [.group] ↔ l ∈ removals g rows := by
  simp

theorem mem_eraseIdx {left : List Write} {w : Write} {k : ℕ} (h : w ∈ left.eraseIdx k) : w ∈ left :=
  List.mem_of_mem_eraseIdx h

theorem merge_adId (l : Loaded) (s : Schedule) :
    (l.merge s).adId = s.adId ∨ (l.merge s).adId = l.current.adId := by
  unfold Loaded.merge
  simp only
  split
  · exact .inl rfl
  · exact .inr rfl

theorem merge_owns {s : Schedule} (hs : data.ownsAd userId s.adId = true)
    (hl : data.ownsAd userId l.current.adId = true) : data.ownsAd userId (l.merge s).adId = true := by
  rcases merge_adId l s with he | he
  · rw [he]
    exact hs
  · rw [he]
    exact hl

theorem Transition.ofUser (h : Transition env userId data db tx inp pc db' pc')
    (hpc : pc.OfUser userId) : pc'.OfUser userId := by
  cases h with
  | load _ _ => exact hpc
  | found _ | select | flushRow _ _ | flushGroup _ _ | commitDeletion | decide _ | write _ | commitUpdate
  | fail _ | rollback | stop _ => trivial

theorem Transition.worksOn {s : Schedule} (h : Transition env userId data db tx inp pc db' pc')
    (hview : pc.holds = false → ∀ i, db.schedules.view tx i = db.schedules.committed i)
    (huser : pc.OfUser userId) (hworks : ∀ i s, pc.WorksOn i s →
      data.ownsAd userId s.adId = true ∧ OwnedRow userId data db.schedules i)
    (hs : pc'.WorksOn i s) :
    data.ownsAd userId s.adId = true ∧ OwnedRow userId data db.schedules i := by
  cases h with
  | select =>
    obtain ⟨l,hl,rfl,rfl⟩ := hs
    obtain ⟨s,hrow,hloaded,hcurrent,_⟩ := mem_removals (mem_row_left.mp hl)
    obtain ⟨hv,howns⟩ := Table.mem_select.mp hrow
    rw [hview rfl] at hv
    rw [hcurrent]
    exact ⟨howns,s,hv,howns⟩
  | load hv howns =>
    obtain ⟨rfl,rfl⟩ := hs
    rw [hview rfl] at hv
    rw [show userId = _ from huser.symm]
    exact ⟨howns,_,hv,howns⟩
  | decide hdecide =>
    obtain ⟨rfl,rfl⟩ := hs
    obtain ⟨howns,hrow⟩ := hworks _ _ ⟨rfl,rfl⟩
    have huser' : _ = userId := huser
    rw [← huser'] at howns
    have hnew := decide_owns hdecide howns
    rw [huser'] at hnew
    exact ⟨hnew,hrow⟩
  | flushRow _ _ =>
    obtain ⟨l,hl,hi,hcurrent⟩ := hs
    exact hworks _ _ ⟨l,mem_eraseIdx hl,hi,hcurrent⟩
  | flushGroup _ _ =>
    obtain ⟨l,hl,hi,hcurrent⟩ := hs
    exact hworks _ _ ⟨l,mem_eraseIdx hl,hi,hcurrent⟩
  | found _ | commitDeletion | write _ | commitUpdate | fail _ | rollback | stop _ =>
    exact absurd hs id

theorem Transition.newDraft (h : Transition env userId data db tx inp pc db' pc')
    (hd : (db'.schedules.slot i).draft = some (o,v)) : (db.schedules.slot i).draft = some (o,v) ∨
      (o = tx ∧ ∃ l stored, l.id = i ∧ pc.WorksOn i l.current ∧ db.schedules.view tx i = some stored ∧
        db.schedules.free tx i = true ∧ v = some (l.merge stored) ∧
        ((∃ g left, pc = .flush g left ∧ pc' = .flush g (left.eraseIdx inp.pick) ∧
          left[inp.pick]? = some (.row l)) ∨ (pc = .write l ∧ pc' = .commit l))) := by
  cases h with
  | flushRow hpick hw =>
    rcases wrote_draft hw hd with hd | ⟨rfl,rfl,stored,hv,hfree,rfl⟩
    · exact .inl hd
    · exact .inr ⟨rfl,_,stored,rfl,⟨_,List.mem_of_getElem? hpick,rfl,rfl⟩,hv,hfree,rfl,
        .inl ⟨_,_,rfl,rfl,hpick⟩⟩
  | write hw =>
    rcases wrote_draft hw hd with hd | ⟨rfl,rfl,stored,hv,hfree,rfl⟩
    · exact .inl hd
    · exact .inr ⟨rfl,_,stored,rfl,⟨rfl,rfl⟩,hv,hfree,rfl,.inr ⟨rfl,rfl⟩⟩
  | commitDeletion => exact .inl (Table.commit_draft hd).1
  | commitUpdate => exact .inl (Table.commit_draft hd).1
  | rollback => exact .inl (Table.rollback_draft hd).1
  | found _ | select | flushGroup _ _ | load _ _ | decide _ | fail _ | stop _ => exact .inl hd

theorem Owned.view {c : Config Db Pc} {s : Schedule} (hc : Owned userId data c)
    (hrow : OwnedRow userId data c.db.schedules i) (hv : c.db.schedules.view tx i = some s) :
    data.ownsAd userId s.adId = true := by
  by_cases hh : c.db.schedules.holder i = some tx
  · obtain ⟨v,hd⟩ := Table.holder_eq_some.mp hh
    obtain ⟨s',rfl,howns,_⟩ := hc.drafts i tx v hd
    rw [Table.view_of_draft hd] at hv
    rw [← Option.some.inj hv]
    exact howns
  · obtain ⟨s',hs',howns⟩ := hrow
    rw [Table.view_of_holder_ne hh,hs'] at hv
    rw [← Option.some.inj hv]
    exact howns

theorem Owned.next {c c' : Config Db Pc} {m : Move Input} (hc : Owned userId data c) (ha : Apart c)
    (h : next (machine env userId data) c m = some c') : Owned userId data c' := by
  obtain ⟨db,pc,hs,rfl⟩ := next_eq_some.mp h
  have ht := transition_of_step hs
  have hrow : ∀ i, OwnedRow userId data c.db.schedules i → OwnedRow userId data db.schedules i := by
    intro i hi
    rcases ht.committed i with hsame | ⟨_,_,v,hd,hv⟩
    · unfold OwnedRow
      rw [hsame]
      exact hi
    · obtain ⟨s,rfl,howns,_⟩ := hc.drafts i m.1 v hd
      exact ⟨s,hv,howns⟩
  refine ⟨fun j => ?_,fun j i s hj => ?_,fun i o v hd => ?_⟩
  · by_cases hjm : j = m.1
    · subst hjm
      simpa only [Function.update_self] using ht.ofUser (hc.requests _)
    · simpa only [Function.update_of_ne hjm] using hc.requests j
  · have hbefore : data.ownsAd userId s.adId = true ∧ OwnedRow userId data c.db.schedules i := by
      by_cases hjm : j = m.1
      · subst hjm
        simp only [Function.update_self] at hj
        exact ht.worksOn ha.view (hc.requests _) (hc.works _) hj
      · simp only [Function.update_of_ne hjm] at hj
        exact hc.works j i s hj
    exact ⟨hbefore.1,hrow i hbefore.2⟩
  · rcases ht.newDraft hd with hd | ⟨_,l,stored,rfl,hworks,hv,_,rfl,_⟩
    · obtain ⟨s,hs,howns,hi⟩ := hc.drafts i o v hd
      exact ⟨s,hs,howns,hrow i hi⟩
    · obtain ⟨howns,hi⟩ := hc.works m.1 _ _ hworks
      exact ⟨l.merge stored,rfl,merge_owns (hc.view hi hv) howns,hrow _ hi⟩

/-- A deletion of the group has at least read the schedules. -/
def Started (c : Config Db Pc) (x : ℤ) : Prop :=
  (∃ g ∈ c.db.deleted, (g : ℤ) = x) ∨ ∃ j, (c.pc j).Flushes x

def Pending (c : Config Db Pc) (x : ℤ) (i : ℕ) : Prop := ∃ j, (c.pc j).Awaits x i

def Taking (c : Config Db Pc) (x : ℤ) (i : ℕ) : Prop :=
  ∃ j s, (c.pc j).Flushes x ∧ (c.db.schedules.slot i).draft = some (j,some s) ∧ x ∉ s.groupIds

theorem pending_of_not_passedBy {c : Config Db Pc} {x : ℤ} (h : Started c x) (hp : ¬ PassedBy c x i) :
    Pending c x i := by
  rcases h with hdeleted | ⟨j,hj⟩
  · exact absurd (.inl hdeleted) hp
  · by_contra hpending
    exact hp (.inr ⟨j,hj,fun hawaits => hpending ⟨j,hawaits⟩⟩)

structure Removes (g : ℕ) (l : Loaded) : Prop where
  current : l.current = without [(g : ℤ)] l.loaded
  changed : l.loaded ≠ l.current

theorem mem_without {g : ℕ} {s : Schedule} {x : ℤ} :
    x ∈ (without [(g : ℤ)] s).groupIds ↔ x ∈ s.groupIds ∧ x ≠ g := by
  simp [without]

theorem without_eq_self {g : ℕ} {s : Schedule} (h : (g : ℤ) ∉ s.groupIds) : without [(g : ℤ)] s = s := by
  have hfilter : (s.groupIds.filter fun x => !([(g : ℤ)].contains x)) = s.groupIds := by
    refine List.filter_eq_self.mpr fun x hx => ?_
    have hne : x ≠ g := fun he => h (he ▸ hx)
    simp [hne]
  unfold without
  rw [hfilter]

theorem Removes.notMem {g : ℕ} (h : Removes g l) : (g : ℤ) ∉ l.current.groupIds := by
  rw [h.current]
  intro hmem
  exact (mem_without.mp hmem).2 rfl

theorem Removes.mem {g : ℕ} (h : Removes g l) : (g : ℤ) ∈ l.loaded.groupIds := by
  by_contra hnot
  exact h.changed ((without_eq_self hnot).symm.trans h.current.symm)

theorem Removes.groupIds {g : ℕ} (h : Removes g l) : l.loaded.groupIds ≠ l.current.groupIds := by
  intro he
  exact h.notMem (he ▸ h.mem)

theorem merge_groupIds_of_ne (h : l.loaded.groupIds ≠ l.current.groupIds) (s : Schedule) :
    (l.merge s).groupIds = l.current.groupIds := if_neg h

theorem merge_groupIds_of_eq (h : l.loaded.groupIds = l.current.groupIds) (s : Schedule) :
    (l.merge s).groupIds = s.groupIds := if_pos h

/-- Under the condition, where a deletion has read the schedules, its id is in none of them, or it is
about to take it out. -/
structure Clean (userId : ℕ) (data : Database) (c : Config Db Pc) : Prop where
  rows : ∀ j g left l, c.pc j = .flush g left → .row l ∈ left → Removes g l
  committed : ∀ x, Started c x → ∀ i s, c.db.schedules.committed i = some s →
    data.ownsAd userId s.adId = true → x ∈ s.groupIds → Pending c x i ∨ Taking c x i
  drafts : ∀ x, Started c x → ∀ i o s, (c.db.schedules.slot i).draft = some (o,some s) →
    x ∈ s.groupIds → Pending c x i

theorem deletes_of_flushes {x : ℤ} (h : pc.Flushes x) : pc.Deletes x := by
  cases pc with
  | flush group left => exact h
  | _ => exact absurd h id

theorem flushes_of_awaits {x : ℤ} (h : pc.Awaits x i) : pc.Flushes x := by
  cases pc with
  | flush group left => exact h.1
  | _ => exact absurd h id

theorem awaits_of_removals {g : ℕ} {rows : List (ℕ × Schedule)} {s : Schedule} (hrow : (i,s) ∈ rows)
    (hs : (g : ℤ) ∈ s.groupIds) :
    (Pc.flush g ((removals g rows).map .row ++ [.group])).Awaits (g : ℤ) i := by
  refine ⟨rfl,⟨i,s,without [(g : ℤ)] s⟩,mem_row_left.mpr (List.mem_filter.mpr ⟨?_,?_⟩),rfl⟩
  · exact List.mem_map.mpr ⟨(i,s),hrow,rfl⟩
  · have hne : s ≠ without [(g : ℤ)] s := by
      intro he
      rw [he] at hs
      exact (mem_without.mp hs).2 rfl
    simpa [Loaded.changed] using hne

theorem Transition.flushes {x : ℤ} (h : Transition env userId data db tx inp pc db' pc')
    (hx : pc'.Flushes x) : pc.Flushes x ∨ ∃ g : ℕ, pc = .removeGroupIds g ∧ (g : ℤ) = x ∧ db' = db ∧
      pc' = .flush g ((removals g
        (db.schedules.select tx fun _ s => data.ownsAd userId s.adId)).map .row ++ [.group]) := by
  cases h with
  | select => exact .inr ⟨_,rfl,hx,rfl,rfl⟩
  | flushRow _ _ => exact .inl hx
  | flushGroup _ _ => exact .inl hx
  | found _ | commitDeletion | load _ _ | decide _ | write _ | commitUpdate | fail _ | rollback | stop _ =>
    exact absurd hx id

theorem Transition.awaits {x : ℤ} (h : Transition env userId data db tx inp pc db' pc')
    (hx : pc.Awaits x i) : pc'.Awaits x i ∨ (∃ g left l, pc = .flush g left ∧ .row l ∈ left ∧ l.id = i ∧
      (g : ℤ) = x ∧ pc'.Flushes x ∧ writeRow db.schedules tx l = some (.ok db'.schedules)) ∨
      (pc' = .closing ∧ db' = db) := by
  cases h with
  | flushRow hpick hw =>
    rename_i group left l t
    obtain ⟨hg,l',hl',hi⟩ := hx
    obtain ⟨k,hk⟩ := List.getElem?_of_mem hl'
    by_cases hkp : k = inp.pick
    · rw [hkp,hpick] at hk
      cases hk
      exact .inr (.inl ⟨group,left,l,rfl,List.mem_of_getElem? hpick,hi,hg,hg,hw⟩)
    · exact .inl ⟨hg,l',List.mem_eraseIdx_iff_getElem?.mpr ⟨k,hkp,hk⟩,hi⟩
  | flushGroup hpick _ =>
    obtain ⟨hg,l',hl',hi⟩ := hx
    obtain ⟨k,hk⟩ := List.getElem?_of_mem hl'
    have hkp : k ≠ inp.pick := by
      rintro rfl
      rw [hpick] at hk
      cases hk
    exact .inl ⟨hg,l',List.mem_eraseIdx_iff_getElem?.mpr ⟨k,hkp,hk⟩,hi⟩
  | commitDeletion =>
    obtain ⟨_,l,hl,_⟩ := hx
    cases hl
  | fail _ => exact .inr (.inr ⟨rfl,rfl⟩)
  | stop hpc => rcases hpc with ⟨_,_,rfl⟩ | ⟨_,_,rfl⟩ | ⟨_,_,_,rfl⟩ <;> exact absurd hx id
  | found _ | select | load _ _ | decide _ | write _ | commitUpdate | rollback => exact absurd hx id

theorem Transition.foreign (h : Transition env userId data db tx inp pc db' pc') (hne : o ≠ tx)
    (hd : (db.schedules.slot i).draft = some (o,v)) : (db'.schedules.slot i).draft = some (o,v) := by
  have hholder : db.schedules.holder i ≠ some tx := by
    intro hh
    obtain ⟨v',hd'⟩ := Table.holder_eq_some.mp hh
    rw [hd'] at hd
    cases hd
    exact hne rfl
  have hwrote : ∀ l t, writeRow db.schedules tx l = some (.ok t) → (t.slot i).draft = some (o,v) := by
    intro l t hw
    rcases wrote_cases hw with ⟨_,rfl⟩ | ⟨_,_,hfree,_,hother⟩
    · exact hd
    · by_cases hi : i = l.id
      · subst hi
        rcases Table.free_iff.mp hfree with hnone | hown
        · rw [Table.holder,hd] at hnone
          cases hnone
        · exact absurd hown hholder
      · rw [hother i hi]
        exact hd
  cases h with
  | flushRow _ hw => exact hwrote _ _ hw
  | write hw => exact hwrote _ _ hw
  | commitDeletion =>
    show ((db.schedules.commit tx).slot i).draft = _
    rw [Table.commit_slot_of_ne hholder]
    exact hd
  | commitUpdate =>
    show ((db.schedules.commit tx).slot i).draft = _
    rw [Table.commit_slot_of_ne hholder]
    exact hd
  | rollback =>
    show ((db.schedules.rollback tx).slot i).draft = _
    rw [Table.rollback_slot_of_ne hholder]
    exact hd
  | found _ | select | flushGroup _ _ | load _ _ | decide _ | fail _ | stop _ => exact hd

theorem Transition.taking {x : ℤ} {s : Schedule} (h : Transition env userId data db tx inp pc db' pc')
    (hx : pc.Flushes x) (hrows : ∀ g left l, pc = .flush g left → .row l ∈ left → Removes g l)
    (hd : (db.schedules.slot i).draft = some (tx,some s)) (hs : x ∉ s.groupIds) :
    (pc'.Flushes x ∧ ∃ s', (db'.schedules.slot i).draft = some (tx,some s') ∧ x ∉ s'.groupIds) ∨
      (∃ s', db'.schedules.committed i = some s' ∧ x ∉ s'.groupIds) ∨ (pc' = .closing ∧ db' = db) := by
  cases h with
  | flushRow hpick hw =>
    rename_i group left l t
    refine .inl ⟨hx,?_⟩
    have hremoves := hrows group left l rfl (List.mem_of_getElem? hpick)
    rcases wrote_cases hw with ⟨hsame,_⟩ | ⟨stored,_,_,hslot,hother⟩
    · exact absurd hsame hremoves.changed
    · by_cases hi : i = l.id
      · subst hi
        refine ⟨l.merge stored,congrArg Slot.draft hslot,?_⟩
        have hgroup : (group : ℤ) = x := hx
        rw [merge_groupIds_of_ne hremoves.groupIds,← hgroup]
        exact hremoves.notMem
      · exact ⟨s,(congrArg Slot.draft (hother i hi)).trans hd,hs⟩
  | flushGroup _ _ => exact .inl ⟨hx,s,hd,hs⟩
  | commitDeletion =>
    refine .inr (.inl ⟨s,?_,hs⟩)
    exact (Table.commit_committed i).trans (Table.view_of_draft hd)
  | fail _ => exact .inr (.inr ⟨rfl,rfl⟩)
  | stop hpc => rcases hpc with ⟨_,_,rfl⟩ | ⟨_,_,rfl⟩ | ⟨_,_,_,rfl⟩ <;> exact absurd hx id
  | found _ | select | load _ _ | decide _ | write _ | commitUpdate | rollback => exact absurd hx id

section Move

variable {c : Config Db Pc} {m : Move Input} {x : ℤ}

theorem started_next (ht : Transition env userId data c.db m.1 m.2 (c.pc m.1) db pc)
    (hx : Started ⟨db,Function.update c.pc m.1 pc⟩ x) : Started c x ∨
      ∃ g : ℕ, c.pc m.1 = .removeGroupIds g ∧ (g : ℤ) = x ∧ db = c.db ∧ pc = .flush g ((removals g
        (c.db.schedules.select m.1 fun _ s => data.ownsAd userId s.adId)).map .row ++ [.group]) := by
  rcases hx with ⟨g,hg,hx⟩ | ⟨j,hj⟩
  · rcases ht.deleted hg with hold | ⟨hpc,_⟩
    · exact .inl (.inl ⟨g,hold,hx⟩)
    · exact .inl (.inr ⟨m.1,by rw [hpc]; exact hx⟩)
  · by_cases hjm : j = m.1
    · subst hjm
      simp only [Function.update_self] at hj
      rcases ht.flushes hj with hold | hselect
      · exact .inl (.inr ⟨m.1,hold⟩)
      · exact .inr hselect
    · simp only [Function.update_of_ne hjm] at hj
      exact .inl (.inr ⟨j,hj⟩)

theorem not_started_of_closing (ha : Apart c) (hpc : (c.pc m.1).Flushes x) :
    ¬ Started ⟨c.db,Function.update c.pc m.1 .closing⟩ x := by
  rintro (⟨g,hg,rfl⟩ | ⟨j,hj⟩)
  · exact ha.gone g hg m.1 (deletes_of_flushes hpc)
  · by_cases hjm : j = m.1
    · subst hjm
      simp only [Function.update_self] at hj
      exact hj
    · simp only [Function.update_of_ne hjm] at hj
      exact hjm (ha.different j m.1 x (deletes_of_flushes hj) (deletes_of_flushes hpc))

theorem pending_next (ha : Apart c)
    (hrows : ∀ j g left l, c.pc j = .flush g left → .row l ∈ left → Removes g l)
    (ht : Transition env userId data c.db m.1 m.2 (c.pc m.1) db pc)
    (hx : Started ⟨db,Function.update c.pc m.1 pc⟩ x) (hp : Pending c x i) :
    Pending ⟨db,Function.update c.pc m.1 pc⟩ x i ∨
      (pc.Flushes x ∧ ∃ s, (db.schedules.slot i).draft = some (m.1,some s) ∧ x ∉ s.groupIds) := by
  obtain ⟨j,hj⟩ := hp
  by_cases hjm : j = m.1
  · subst hjm
    rcases ht.awaits hj with hawaits | ⟨g,left,l,hpc,hl,rfl,rfl,hflushes,hw⟩ | ⟨rfl,rfl⟩
    · exact .inl ⟨m.1,by simpa only [Function.update_self] using hawaits⟩
    · have hremoves := hrows m.1 g left l hpc hl
      rcases wrote_cases hw with ⟨hsame,_⟩ | ⟨stored,_,_,hslot,_⟩
      · exact absurd hsame hremoves.changed
      · refine .inr ⟨hflushes,l.merge stored,by rw [hslot],?_⟩
        rw [merge_groupIds_of_ne hremoves.groupIds]
        exact hremoves.notMem
    · exact absurd hx (not_started_of_closing ha (flushes_of_awaits hj))
  · exact .inl ⟨j,by simpa only [Function.update_of_ne hjm] using hj⟩

theorem taking_next (ha : Apart c)
    (hrows : ∀ j g left l, c.pc j = .flush g left → .row l ∈ left → Removes g l)
    (ht : Transition env userId data c.db m.1 m.2 (c.pc m.1) db pc)
    (hx : Started ⟨db,Function.update c.pc m.1 pc⟩ x) (htaking : Taking c x i) :
    Taking ⟨db,Function.update c.pc m.1 pc⟩ x i ∨ ∃ s, db.schedules.committed i = some s ∧ x ∉ s.groupIds := by
  obtain ⟨j,s,hj,hd,hs⟩ := htaking
  by_cases hjm : j = m.1
  · subst hjm
    rcases ht.taking hj (hrows m.1) hd hs with ⟨hflushes,s',hd',hs'⟩ | hcommitted | ⟨rfl,rfl⟩
    · exact .inl ⟨m.1,s',by simpa only [Function.update_self] using hflushes,hd',hs'⟩
    · exact .inr hcommitted
    · exact absurd hx (not_started_of_closing ha hj)
  · exact .inl ⟨j,s,by simpa only [Function.update_of_ne hjm] using hj,ht.foreign hjm hd,hs⟩

end Move

theorem Clean.rows_next {c : Config Db Pc} {m : Move Input} (hc : Clean userId data c)
    (ht : Transition env userId data c.db m.1 m.2 (c.pc m.1) db pc) (j g : ℕ) (left : List Write)
    (l : Loaded) (hj : Function.update c.pc m.1 pc j = .flush g left) (hl : .row l ∈ left) :
    Removes g l := by
  by_cases hjm : j = m.1
  · subst hjm
    simp only [Function.update_self] at hj
    subst hj
    generalize hpc : c.pc m.1 = before at ht
    cases ht with
    | select =>
      obtain ⟨s,_,hloaded,hcurrent,hchanged⟩ := mem_removals (mem_row_left.mp hl)
      exact ⟨hloaded ▸ hcurrent,hchanged⟩
    | flushRow _ _ => exact hc.rows m.1 g _ l hpc (mem_eraseIdx hl)
    | flushGroup _ _ => exact hc.rows m.1 g _ l hpc (mem_eraseIdx hl)
  · simp only [Function.update_of_ne hjm] at hj
    exact hc.rows j g left l hj hl

theorem clean_select {c : Config Db Pc} {m : Move Input} {g : ℕ} {s : Schedule} (ha : Apart c)
    (hpc : c.pc m.1 = .removeGroupIds g) (hs : c.db.schedules.committed i = some s)
    (howns : data.ownsAd userId s.adId = true) (hmem : (g : ℤ) ∈ s.groupIds) :
    Pending ⟨c.db,Function.update c.pc m.1 (.flush g ((removals g
      (c.db.schedules.select m.1 fun _ s => data.ownsAd userId s.adId)).map .row ++ [.group]))⟩ (g : ℤ) i := by
  have hview : c.db.schedules.view m.1 i = some s := by
    rw [ha.view (by rw [hpc]; rfl)]
    exact hs
  refine ⟨m.1,?_⟩
  simp only [Function.update_self]
  exact awaits_of_removals (Table.mem_select.mpr ⟨hview,howns⟩) hmem

/-- The id of a group whose deletion has read the schedules is written only where it will be taken out. -/
theorem clean_write {c : Config Db Pc} {m : Move Input} {x : ℤ} {stored : Schedule}
    (hc : Clean userId data c) (ha : Apart c) (ho : Owned userId data c) (hg : keepsGroupIds c m)
    (hstarted : Started c x) (hv : c.db.schedules.view m.1 l.id = some stored)
    (hfree : c.db.schedules.free m.1 l.id = true)
    (hpc : (∃ g left, c.pc m.1 = .flush g left ∧ left[m.2.pick]? = some (.row l)) ∨ c.pc m.1 = .write l)
    (hmem : x ∈ (l.merge stored).groupIds) : Pending c x l.id := by
  unfold keepsGroupIds at hg
  by_cases hids : l.loaded.groupIds = l.current.groupIds
  · -- the column is left out, which only an update does
    rcases hpc with ⟨g,left,hpc,hpick⟩ | hpc
    · exact absurd hids (hc.rows m.1 g left l hpc (List.mem_of_getElem? hpick)).groupIds
    · rw [merge_groupIds_of_eq hids] at hmem
      rw [ha.view (by rw [hpc]; rfl)] at hv
      obtain ⟨_,s,hs,howns⟩ := ho.works m.1 l.id l.current (by rw [hpc]; exact ⟨rfl,rfl⟩)
      rw [hv] at hs
      cases hs
      rcases hc.committed x hstarted l.id stored hv howns hmem with hpending | ⟨j,s,hj,hd,_⟩
      · exact hpending
      · have hholder : c.db.schedules.holder l.id = some j := Table.holder_eq_some.mpr ⟨_,hd⟩
        rcases Table.free_iff.mp hfree with hnone | hown
        · rw [hholder] at hnone
          cases hnone
        · rw [hholder] at hown
          cases hown
          rw [hpc] at hj
          exact absurd hj id
  · rw [merge_groupIds_of_ne hids] at hmem
    have hharmless : HarmlessWrite c m.1 l := by
      rcases hpc with ⟨g,left,hpc,hpick⟩ | hpc
      · rw [hpc] at hg
        exact hg l hpick
      · rw [hpc] at hg
        exact hg
    exact pending_of_not_passedBy hstarted ((hharmless hids).2 x hmem)

theorem Clean.next {c c' : Config Db Pc} {m : Move Input} (hc : Clean userId data c) (ha : Apart c)
    (ho : Owned userId data c) (hg : keepsGroupIds c m)
    (h : next (machine env userId data) c m = some c') : Clean userId data c' := by
  obtain ⟨db,pc,hs,rfl⟩ := next_eq_some.mp h
  have ht := transition_of_step hs
  refine ⟨hc.rows_next ht,fun x hx i s hi howns hmem => ?_,fun x hx i o s hd hmem => ?_⟩
  · rcases started_next ht hx with hstarted | ⟨g,hpc,rfl,rfl,rfl⟩
    · rcases ht.committed i with hsame | ⟨hfinished,_,v,hdraft,hv⟩
      · rw [hsame] at hi
        rcases hc.committed x hstarted i s hi howns hmem with hpending | htaking
        · rcases pending_next ha hc.rows ht hx hpending with hpending | ⟨hflushes,s',hd',hs'⟩
          · exact .inl hpending
          · exact .inr ⟨m.1,s',by simpa only [Function.update_self] using hflushes,hd',hs'⟩
        · rcases taking_next ha hc.rows ht hx htaking with htaking | ⟨s',hs',hnot⟩
          · exact .inr htaking
          · rw [hsame,hi] at hs'
            cases hs'
            exact absurd hmem hnot
      · rw [hv] at hi
        subst hi
        have hpending := hc.drafts x hstarted i m.1 s hdraft hmem
        rcases pending_next ha hc.rows ht hx hpending with hpending | ⟨hflushes,_⟩
        · exact .inl hpending
        · rw [hfinished] at hflushes
          exact absurd hflushes id
    · exact .inl (clean_select ha hpc hi howns hmem)
  · rcases started_next ht hx with hstarted | ⟨g,hpc,rfl,rfl,rfl⟩
    · have hgoes : Pending c x i → Pending ⟨db,Function.update c.pc m.1 pc⟩ x i := by
        intro hpending
        rcases pending_next ha hc.rows ht hx hpending with hpending | ⟨_,s',hd',hs'⟩
        · exact hpending
        · have he : some (m.1,some s') = some (o,some s) := hd'.symm.trans hd
          cases he
          exact absurd hmem hs'
      rcases ht.newDraft hd with hold | ⟨rfl,l,stored,rfl,_,hv,hfree,hmerge,hpcs⟩
      · exact hgoes (hc.drafts x hstarted i o s hold hmem)
      · cases hmerge
        refine hgoes (clean_write hc ha ho hg hstarted hv hfree ?_ hmem)
        exact hpcs.imp (fun ⟨g,left,hpc,_,hpick⟩ => ⟨g,left,hpc,hpick⟩) And.left
    · unfold keepsGroupIds at hg
      rw [hpc] at hg
      obtain ⟨s',hs',hmem'⟩ := hg i o s hd hmem
      obtain ⟨_,_,_,s₀,hs₀,howns⟩ := ho.drafts i o _ hd
      rw [hs'] at hs₀
      cases hs₀
      exact clean_select ha hpc hs' howns hmem'

def Pc.TakesOut (x : ℤ) (i : ℕ) : Pc → Prop
  | flush g _ => (g : ℤ) = x
  | commit l => (i,x) ∈ lostIds l
  | closing => True
  | _ => False

/-- Under the condition a draft has all ids of the committed row but those that its session takes out. -/
def Accounted (c : Config Db Pc) : Prop :=
  ∀ i o s s', (c.db.schedules.slot i).draft = some (o,some s') → c.db.schedules.committed i = some s →
    ∀ x ∈ s.groupIds, x ∈ s'.groupIds ∨ (c.pc o).TakesOut x i

theorem mem_lostIds {x : ℤ} (hx : x ∈ l.loaded.groupIds) (hnot : x ∉ l.current.groupIds) :
    (l.id,x) ∈ lostIds l :=
  List.mem_map.mpr ⟨x,List.mem_filter.mpr ⟨hx,by simpa using hnot⟩,rfl⟩

theorem Removes.eq_of_lost {g : ℕ} {x : ℤ} (h : Removes g l) (hx : x ∈ l.loaded.groupIds)
    (hnot : x ∉ l.current.groupIds) : (g : ℤ) = x := by
  by_contra hne
  rw [h.current] at hnot
  exact hnot (mem_without.mpr ⟨hx,fun he => hne he.symm⟩)

theorem Transition.takesOut {x : ℤ} (h : Transition env userId data db tx inp pc db' pc')
    (hx : pc.TakesOut x i) (hholds : pc'.holds = true) : pc'.TakesOut x i := by
  cases h with
  | flushRow _ _ => exact hx
  | flushGroup _ _ => exact hx
  | fail _ => trivial
  | commitDeletion => cases hholds
  | commitUpdate => cases hholds
  | rollback => cases hholds
  | stop _ => cases hholds
  | found _ | select | load _ _ | decide _ | write _ => exact absurd hx id

theorem accounted_write {c : Config Db Pc} {m : Move Input} {x : ℤ} {stored : Schedule}
    (hrows : ∀ j g left l, c.pc j = .flush g left → .row l ∈ left → Removes g l)
    (hg : keepsGroupIds c m) (hv : c.db.schedules.view m.1 l.id = some stored)
    (hpc : (∃ g left, c.pc m.1 = .flush g left ∧ pc = .flush g (left.eraseIdx m.2.pick) ∧
      left[m.2.pick]? = some (.row l)) ∨ (c.pc m.1 = .write l ∧ pc = .commit l))
    (hx : x ∈ stored.groupIds) : x ∈ (l.merge stored).groupIds ∨ pc.TakesOut x l.id := by
  unfold keepsGroupIds at hg
  by_cases hids : l.loaded.groupIds = l.current.groupIds
  · rw [merge_groupIds_of_eq hids]
    exact .inl hx
  · rw [merge_groupIds_of_ne hids]
    by_cases hcurrent : x ∈ l.current.groupIds
    · exact .inl hcurrent
    · right
      rcases hpc with ⟨g,left,hpc,rfl,hpick⟩ | ⟨hpc,rfl⟩
      · rw [hpc] at hg
        have hloaded := ((hg l hpick hids).1 stored hv x hx).resolve_right hcurrent
        exact (hrows m.1 g left l hpc (List.mem_of_getElem? hpick)).eq_of_lost hloaded hcurrent
      · rw [hpc] at hg
        have hloaded := ((hg hids).1 stored hv x hx).resolve_right hcurrent
        exact mem_lostIds hloaded hcurrent

theorem committed_of_draft {c : Config Db Pc} {m : Move Input} (ha : Apart c)
    (ht : Transition env userId data c.db m.1 m.2 (c.pc m.1) db pc)
    (hd : (db.schedules.slot i).draft = some (o,v)) :
    db.schedules.committed i = c.db.schedules.committed i := by
  rcases ht.committed i with hsame | ⟨hfinished,_,v',hd',_⟩
  · exact hsame
  · rcases ht.draft hd with ⟨hbefore,hgoes⟩ | ⟨_,hholds⟩
    · rw [hd'] at hbefore
      cases hbefore
      have hholds := hgoes rfl (ha.held i m.1 _ hd')
      rw [hfinished] at hholds
      cases hholds
    · rw [hfinished] at hholds
      cases hholds

theorem Accounted.next {c c' : Config Db Pc} {m : Move Input} (hc : Accounted c) (ha : Apart c)
    (hclean : Clean userId data c) (hg : keepsGroupIds c m)
    (h : next (machine env userId data) c m = some c') : Accounted c' := by
  obtain ⟨db,pc,hs,rfl⟩ := next_eq_some.mp h
  have ht := transition_of_step hs
  intro i o s s' hd hcommitted x hx
  rw [committed_of_draft ha ht hd] at hcommitted
  -- what the mover has accounted for before, it accounts for as long as it holds rows
  have hgoes : pc.holds = true → (c.pc m.1).TakesOut x i → pc.TakesOut x i :=
    fun hholds htakes => ht.takesOut htakes hholds
  rcases ht.newDraft hd with hold | ⟨rfl,l,stored,rfl,_,hv,_,hmerge,hpcs⟩
  · refine (hc i o s s' hold hcommitted x hx).imp_right fun htakes => ?_
    by_cases hom : o = m.1
    · subst hom
      simp only [Function.update_self]
      rcases ht.draft hd with ⟨_,hkeeps⟩ | ⟨_,hholds⟩
      · exact hgoes (hkeeps rfl (ha.held i m.1 _ hold)) htakes
      · exact hgoes hholds htakes
    · simpa only [Function.update_of_ne hom] using htakes
  · cases hmerge
    simp only [Function.update_self]
    have hholds : pc.holds = true := by
      rcases hpcs with ⟨_,_,_,rfl,_⟩ | ⟨_,rfl⟩ <;> rfl
    have hstored : x ∈ stored.groupIds ∨ (c.pc m.1).TakesOut x l.id := by
      by_cases hh : c.db.schedules.holder l.id = some m.1
      · obtain ⟨v,hdraft⟩ := Table.holder_eq_some.mp hh
        rw [Table.view_of_draft hdraft] at hv
        subst hv
        exact hc l.id m.1 s stored hdraft hcommitted x hx
      · rw [Table.view_of_holder_ne hh,hcommitted] at hv
        cases hv
        exact .inl hx
    rcases hstored with hstored | htakes
    · exact accounted_write hclean.rows hg hv hpcs hstored
    · exact .inr (hgoes hholds htakes)

/-- The id is still in the schedule, its group is deleted, or an update since the `n`-th removal has taken
it out. -/
def Kept (c : Config Db Pc) (n i : ℕ) (x : ℤ) : Prop :=
  (∃ s, c.db.schedules.committed i = some s ∧ x ∈ s.groupIds) ∨ (∃ g ∈ c.db.deleted, (g : ℤ) = x) ∨
    (i,x) ∈ c.db.removed.drop n

theorem Transition.records (h : Transition env userId data db tx inp pc db' pc') :
    (∀ g ∈ db.deleted, g ∈ db'.deleted) ∧ ∃ more, db'.removed = db.removed ++ more := by
  cases h with
  | commitDeletion => exact ⟨fun g hg => List.mem_cons_of_mem _ hg,[],(List.append_nil _).symm⟩
  | commitUpdate => exact ⟨fun g hg => hg,_,rfl⟩
  | found _ | select | flushRow _ _ | flushGroup _ _ | load _ _ | decide _ | write _ | fail _ | rollback
  | stop _ => exact ⟨fun g hg => hg,[],(List.append_nil _).symm⟩

theorem Kept.next {c c' : Config Db Pc} {m : Move Input} {n : ℕ} {x : ℤ} (hc : Kept c n i x)
    (hn : n ≤ c.db.removed.length) (hacc : Accounted c) (ho : Owned userId data c)
    (h : next (machine env userId data) c m = some c') : Kept c' n i x := by
  obtain ⟨db,pc,hs,rfl⟩ := next_eq_some.mp h
  have ht := transition_of_step hs
  obtain ⟨hdeleted,more,hremoved⟩ := ht.records
  rcases hc with ⟨s,hcommitted,hx⟩ | ⟨g,hg,hx⟩ | hgone
  · rcases ht.committed i with hsame | ⟨_,hcommit,v,hd,hv⟩
    · exact .inl ⟨s,hsame.trans hcommitted,hx⟩
    · obtain ⟨s',rfl,_⟩ := ho.drafts i m.1 v hd
      rcases hacc i m.1 s s' hd hcommitted x hx with hmem | htakes
      · exact .inl ⟨s',hv,hmem⟩
      · rcases hcommit with ⟨g,hpc,rfl⟩ | ⟨l,hpc,rfl⟩
        · rw [hpc] at htakes
          exact .inr (.inl ⟨g,List.mem_cons_self,htakes⟩)
        · rw [hpc] at htakes
          refine .inr (.inr ?_)
          show (i,x) ∈ (c.db.removed ++ lostIds l).drop n
          rw [List.drop_append_of_le_length hn]
          exact List.mem_append_right _ htakes
  · exact .inr (.inl ⟨g,hdeleted g hg,hx⟩)
  · refine .inr (.inr ?_)
    show (i,x) ∈ db.removed.drop n
    rw [hremoved,List.drop_append_of_le_length hn]
    exact List.mem_append_left _ hgone

def Pc.Found (g : ℕ) : Pc → Prop
  | removeGroupIds group | flush group _ => group = g
  | _ => False

def Pc.Drops (g : ℕ) : Pc → Prop
  | flush group _ => group = g
  | closing => True
  | _ => False

structure Wiped (a c : Config Db Pc) : Prop where
  existed : ∀ j g, (c.pc j).Found g → a.db.groups.committed g ≠ none
  drafts : ∀ g o v, (c.db.groups.slot g).draft = some (o,v) → v = none ∧ (c.pc o).Drops g
  dropped : ∀ j g left, c.pc j = .flush g left → .group ∉ left →
    (c.db.groups.slot g).draft = some (j,none)
  deleted : ∀ g ∈ c.db.deleted, a.db.groups.committed g ≠ none ∧ c.db.groups.committed g = none
  others : ∀ g, c.db.groups.committed g = a.db.groups.committed g ∨ g ∈ c.db.deleted

section Groups

variable {g : ℕ} {u : Option Group}

theorem Transition.found_or (h : Transition env userId data db tx inp pc db' pc') (hg : pc'.Found g) :
    pc.Found g ∨ (pc.Deletes (g : ℤ) ∧ ¬ pc.Drops g ∧ ∃ row, db.groups.view tx g = some row) := by
  cases h with
  | found hfound =>
    cases hg
    obtain ⟨hid,hrow⟩ := groupFor_id hfound
    exact .inr ⟨hid.symm,id,_,hrow⟩
  | select => exact .inl hg
  | flushRow _ _ => exact .inl hg
  | flushGroup _ _ => exact .inl hg
  | commitDeletion | load _ _ | decide _ | write _ | commitUpdate | fail _ | rollback | stop _ =>
    exact absurd hg id

theorem Transition.drops (h : Transition env userId data db tx inp pc db' pc') (hg : pc.Drops g) :
    pc'.Drops g ∨ db'.groups = db.groups.commit tx ∨ db'.groups = db.groups.rollback tx := by
  cases h with
  | flushRow _ _ => exact .inl hg
  | flushGroup _ _ => exact .inl hg
  | commitDeletion => exact .inr (.inl rfl)
  | fail _ => exact .inl trivial
  | rollback => exact .inr (.inr rfl)
  | stop hpc => rcases hpc with ⟨_,_,rfl⟩ | ⟨_,_,rfl⟩ | ⟨_,_,_,rfl⟩ <;> exact absurd hg id
  | found _ | select | load _ _ | decide _ | write _ | commitUpdate => exact absurd hg id

theorem Transition.groupDraft (h : Transition env userId data db tx inp pc db' pc')
    (hd : (db'.groups.slot g).draft = some (o,u)) : (db.groups.slot g).draft = some (o,u) ∨
      (o = tx ∧ u = none ∧ pc'.Drops g) := by
  cases h with
  | flushGroup _ hm =>
    rcases Table.modify_slot_cases hm g with hsame | ⟨r,_,hp,_,hslot⟩
    · exact .inl ((congrArg Slot.draft hsame).symm.trans hd)
    · have he : some (tx,none) = some (o,u) := (congrArg Slot.draft hslot).symm.trans hd
      cases he
      exact .inr ⟨rfl,rfl,(of_decide_eq_true hp).symm⟩
  | commitDeletion => exact .inl (Table.commit_draft hd).1
  | rollback => exact .inl (Table.rollback_draft hd).1
  | found _ | select | flushRow _ _ | load _ _ | decide _ | write _ | commitUpdate | fail _ | stop _ =>
    exact .inl hd

theorem Transition.groupCommitted (h : Transition env userId data db tx inp pc db' pc') (g : ℕ) :
    db'.groups.committed g = db.groups.committed g ∨
      ∃ u, (db.groups.slot g).draft = some (tx,u) ∧ db'.groups.committed g = u ∧
        ∃ group, pc = .flush group [] ∧ db' = db.commitDeletion tx group := by
  cases h with
  | flushGroup _ hm => exact .inl (Table.modify_committed hm g)
  | commitDeletion =>
    by_cases hh : db.groups.holder g = some tx
    · obtain ⟨u,hd⟩ := Table.holder_eq_some.mp hh
      exact .inr ⟨u,hd,(Table.commit_committed g).trans (Table.view_of_draft hd),_,rfl,rfl⟩
    · exact .inl ((Table.commit_committed g).trans (Table.view_of_holder_ne hh))
  | rollback => exact .inl (Table.rollback_committed g)
  | found _ | select | flushRow _ _ | load _ _ | decide _ | write _ | commitUpdate | fail _ | stop _ =>
    exact .inl rfl

theorem Transition.groupForeign (h : Transition env userId data db tx inp pc db' pc') (hne : o ≠ tx)
    (hd : (db.groups.slot g).draft = some (o,u)) : (db'.groups.slot g).draft = some (o,u) := by
  have hholder : db.groups.holder g = some o := Table.holder_eq_some.mpr ⟨u,hd⟩
  have hother : db.groups.holder g ≠ some tx := by
    rw [hholder]
    exact fun he => hne (Option.some.inj he)
  cases h with
  | flushGroup _ hm => exact (congrArg Slot.draft (Table.modify_slot_of_held hm hholder hne)).trans hd
  | commitDeletion => exact (congrArg Slot.draft (Table.commit_slot_of_ne hother)).trans hd
  | rollback => exact (congrArg Slot.draft (Table.rollback_slot_of_ne hother)).trans hd
  | found _ | select | flushRow _ _ | load _ _ | decide _ | write _ | commitUpdate | fail _ | stop _ =>
    exact hd

theorem Transition.dropped {left' : List Write}
    (h : Transition env userId data db tx inp pc db' (.flush g left')) (hnot : .group ∉ left') :
    ∃ left, pc = .flush g left ∧ ((.group ∉ left ∧ db'.groups = db.groups) ∨
      db.groups.modify tx (fun i _ => i = g) (fun _ => none) = some db'.groups) := by
  cases h with
  | select => exact absurd (List.mem_append_right _ List.mem_cons_self) hnot
  | flushRow hpick _ =>
    refine ⟨_,rfl,.inl ⟨fun hmem => hnot ?_,rfl⟩⟩
    obtain ⟨k,hk⟩ := List.getElem?_of_mem hmem
    have hkp : k ≠ inp.pick := by
      rintro rfl
      rw [hpick] at hk
      cases hk
    exact List.mem_eraseIdx_iff_getElem?.mpr ⟨k,hkp,hk⟩
  | flushGroup _ hm => exact ⟨_,rfl,.inr hm⟩

theorem draft_of_modify {t t' : Table Group} (hm : t.modify tx (fun i _ => i = g) (fun _ => none) = some t')
    (hd : ∀ u, (t.slot g).draft = some (tx,u) → u = none) (hrow : t.committed g ≠ none) :
    (t'.slot g).draft = some (tx,none) := by
  cases hv : t.view tx g with
  | some r => exact congrArg Slot.draft (Table.modify_slot_selected hm hv (decide_eq_true rfl))
  | none =>
    have hsame := Table.modify_slot_other hm (i := g) (fun r hr => by rw [hv] at hr; cases hr)
    by_cases hh : t.holder g = some tx
    · obtain ⟨u,hdraft⟩ := Table.holder_eq_some.mp hh
      rw [hsame,hdraft,hd u hdraft]
    · rw [Table.view_of_holder_ne hh] at hv
      exact absurd hv hrow

end Groups

section WipedMove

variable {a c : Config Db Pc} {m : Move Input} {g : ℕ}

theorem Wiped.existed_next (hc : Wiped a c) (ha : Apart c)
    (ht : Transition env userId data c.db m.1 m.2 (c.pc m.1) db pc) (hg : pc.Found g) :
    a.db.groups.committed g ≠ none := by
  rcases ht.found_or hg with hfound | ⟨hdeletes,hdrops,row,hview⟩
  · exact hc.existed m.1 g hfound
  · have hholder : c.db.groups.holder g ≠ some m.1 := by
      intro hh
      obtain ⟨u,hd⟩ := Table.holder_eq_some.mp hh
      exact hdrops (hc.drafts g m.1 u hd).2
    rw [Table.view_of_holder_ne hholder] at hview
    rcases hc.others g with hsame | hg
    · rw [← hsame,hview]
      exact Option.some_ne_none row
    · exact absurd hdeletes (ha.gone g hg m.1)

theorem Wiped.drops_next {u : Option Group} (hc : Wiped a c)
    (ht : Transition env userId data c.db m.1 m.2 (c.pc m.1) db pc)
    (hold : (c.db.groups.slot g).draft = some (m.1,u)) (hd : (db.groups.slot g).draft = some (m.1,u)) :
    pc.Drops g := by
  rcases ht.drops (hc.drafts g m.1 u hold).2 with hdrops | hcommit | hrollback
  · exact hdrops
  · rw [hcommit] at hd
    exact absurd rfl (Table.commit_draft hd).2
  · rw [hrollback] at hd
    exact absurd rfl (Table.rollback_draft hd).2

theorem Wiped.dropped_next {left : List Write} (hc : Wiped a c) (ha : Apart c)
    (ht : Transition env userId data c.db m.1 m.2 (c.pc m.1) db (.flush g left)) (hnot : .group ∉ left) :
    (db.groups.slot g).draft = some (m.1,none) := by
  obtain ⟨before,hpc,⟨hbefore,hsame⟩ | hm⟩ := ht.dropped hnot
  · rw [hsame]
    exact hc.dropped m.1 g before hpc hbefore
  · refine draft_of_modify hm (fun u hd => (hc.drafts g m.1 u hd).1) ?_
    rcases hc.others g with hsame | hg
    · rw [hsame]
      exact hc.existed m.1 g (by rw [hpc]; rfl)
    · exact absurd (show (c.pc m.1).Deletes g by rw [hpc]; rfl) (ha.gone g hg m.1)

theorem Wiped.deleted_next (hc : Wiped a c)
    (ht : Transition env userId data c.db m.1 m.2 (c.pc m.1) db pc) (hg : g ∈ db.deleted) :
    a.db.groups.committed g ≠ none ∧ db.groups.committed g = none := by
  rcases ht.deleted hg with hold | ⟨hpc,_,rfl⟩
  · obtain ⟨hexisted,hnone⟩ := hc.deleted g hold
    refine ⟨hexisted,?_⟩
    rcases ht.groupCommitted g with hsame | ⟨u,hd,hu,_⟩
    · exact hsame.trans hnone
    · exact hu.trans (hc.drafts g m.1 u hd).1
  · refine ⟨hc.existed m.1 g (by rw [hpc]; rfl),?_⟩
    have hdraft := hc.dropped m.1 g [] hpc List.not_mem_nil
    exact (Table.commit_committed g).trans (Table.view_of_draft hdraft)

theorem Wiped.others_next (hc : Wiped a c)
    (ht : Transition env userId data c.db m.1 m.2 (c.pc m.1) db pc) (g : ℕ) :
    db.groups.committed g = a.db.groups.committed g ∨ g ∈ db.deleted := by
  rcases ht.groupCommitted g with hsame | ⟨u,hd,hu,group,hpc,rfl⟩
  · rcases hc.others g with hbefore | hg
    · exact .inl (hsame.trans hbefore)
    · exact .inr (ht.records.1 g hg)
  · have hdrops := (hc.drafts g m.1 u hd).2
    rw [hpc] at hdrops
    exact .inr (hdrops ▸ List.mem_cons_self)

end WipedMove

theorem Wiped.next {a c c' : Config Db Pc} {m : Move Input} (hc : Wiped a c) (ha : Apart c)
    (h : next (machine env userId data) c m = some c') : Wiped a c' := by
  obtain ⟨db,pc,hs,rfl⟩ := next_eq_some.mp h
  have ht := transition_of_step hs
  refine ⟨fun j g hj => ?_,fun g o u hd => ?_,fun j g left hj hnot => ?_,fun g hg => hc.deleted_next ht hg,
    hc.others_next ht⟩
  · by_cases hjm : j = m.1
    · subst hjm
      simp only [Function.update_self] at hj
      exact hc.existed_next ha ht hj
    · simp only [Function.update_of_ne hjm] at hj
      exact hc.existed j g hj
  · rcases ht.groupDraft hd with hold | ⟨rfl,hnone,hdrops⟩
    · refine ⟨(hc.drafts g o u hold).1,?_⟩
      by_cases hom : o = m.1
      · subst hom
        simpa only [Function.update_self] using hc.drops_next ht hold hd
      · simpa only [Function.update_of_ne hom] using (hc.drafts g o u hold).2
    · exact ⟨hnone,by simpa only [Function.update_self] using hdrops⟩
  · by_cases hjm : j = m.1
    · subst hjm
      simp only [Function.update_self] at hj
      subst hj
      exact hc.dropped_next ha ht hnot
    · simp only [Function.update_of_ne hjm] at hj
      exact ht.groupForeign hjm (hc.dropped j g left hj hnot)

structure Safe (userId : ℕ) (data : Database) (a c : Config Db Pc) : Prop where
  apart : Apart c
  owned : Owned userId data c
  clean : Clean userId data c
  accounted : Accounted c
  wiped : Wiped a c

theorem Safe.next {a c c' : Config Db Pc} {m : Move Input} (hc : Safe userId data a c)
    (hg : keepsGroupIds c m) (h : next (machine env userId data) c m = some c') :
    Safe userId data a c' where
  apart := hc.apart.next h
  owned := hc.owned.next hc.apart h
  clean := hc.clean.next hc.apart hc.owned hg h
  accounted := hc.accounted.next hc.apart hc.clean hg h
  wiped := hc.wiped.next hc.apart h

section Start

variable {a : Config Db Pc}

theorem Initial.start (ha : Initial userId a) (j : ℕ) :
    (∃ accountId groupId, a.pc j = .accountGroupsDelete accountId groupId) ∨
      (∃ op i, a.pc j = .edit op i ∧ op.userId = userId) ∨ a.pc j = .finished := by
  have hj := ha.starts j
  cases hpc : a.pc j <;> rw [hpc] at hj <;> try cases hj
  · exact .inl ⟨_,_,rfl⟩
  · exact .inr (.inl ⟨_,_,rfl,of_decide_eq_true hj⟩)
  · exact .inr (.inr rfl)

theorem Initial.not_flush (ha : Initial userId a) (j g : ℕ) (left : List Write) :
    a.pc j ≠ .flush g left := by
  intro hpc
  rcases ha.start j with ⟨_,_,h⟩ | ⟨_,_,h,_⟩ | h <;> rw [hpc] at h <;> cases h

theorem Initial.not_started (ha : Initial userId a) (x : ℤ) : ¬ Started a x := by
  rintro (⟨g,hg,_⟩ | ⟨j,hj⟩)
  · rw [ha.deleted] at hg
    cases hg
  · rcases ha.start j with ⟨_,_,h⟩ | ⟨_,_,h,_⟩ | h <;> rw [h] at hj <;> exact hj

theorem Initial.no_draft (ha : Initial userId a) {v : Option Schedule}
    (hd : (a.db.schedules.slot i).draft = some (o,v)) : False := by
  rw [ha.schedules i] at hd
  cases hd

theorem Initial.apart (ha : Initial userId a) : Apart a := by
  refine ⟨ha.different,fun g hg => ?_,fun i o v hd => (ha.no_draft hd).elim⟩
  rw [ha.deleted] at hg
  cases hg

theorem Initial.owned (ha : Initial userId a) : Owned userId data a := by
  refine ⟨fun j => ?_,fun j i s hj => ?_,fun i o v hd => (ha.no_draft hd).elim⟩
  · rcases ha.start j with ⟨_,_,h⟩ | ⟨_,_,h,huser⟩ | h <;> rw [h]
    · trivial
    · exact huser
    · trivial
  · rcases ha.start j with ⟨_,_,h⟩ | ⟨_,_,h,_⟩ | h <;> rw [h] at hj <;> exact absurd hj id

theorem Initial.wiped (ha : Initial userId a) : Wiped a a := by
  refine ⟨fun j g hj => ?_,fun g o v hd => ?_,fun j g left hpc => absurd hpc (ha.not_flush j g left),
    fun g hg => ?_,fun g => .inl rfl⟩
  · rcases ha.start j with ⟨_,_,h⟩ | ⟨_,_,h,_⟩ | h <;> rw [h] at hj <;> exact absurd hj id
  · rw [ha.groups g] at hd
    cases hd
  · rw [ha.deleted] at hg
    cases hg

theorem Initial.safe (ha : Initial userId a) : Safe userId data a a where
  apart := ha.apart
  owned := ha.owned
  clean := ⟨fun j g left _ hpc => absurd hpc (ha.not_flush j g left),
    fun x hx => absurd hx (ha.not_started x),fun x hx => absurd hx (ha.not_started x)⟩
  accounted := fun _ _ _ _ hd => (ha.no_draft hd).elim
  wiped := ha.wiped

end Start

theorem Safe.of_reaches {a b c : Config Db Pc} (hb : Safe userId data a b)
    (h : Reaches (machine env userId data) keepsGroupIds b c) : Safe userId data a c :=
  h.invariant (fun _ _ _ hc hg hm => hc.next hg hm) hb

theorem Safe.no_dangling {a c : Config Db Pc} {g : ℕ} {s : Schedule} (hc : Safe userId data a c)
    (hexisted : a.db.groups.committed g ≠ none) (hgone : c.db.groups.committed g = none)
    (hs : c.db.schedules.committed i = some s) (howns : data.ownsAd userId s.adId = true) :
    (g : ℤ) ∉ s.groupIds := by
  intro hmem
  have hg : g ∈ c.db.deleted := by
    rcases hc.wiped.others g with hsame | hg
    · rw [hsame] at hgone
      exact absurd hgone hexisted
    · exact hg
  have hnobody : ∀ j, ¬ (c.pc j).Flushes (g : ℤ) := fun j hj => hc.apart.gone g hg j (deletes_of_flushes hj)
  rcases hc.clean.committed g (.inl ⟨g,hg,rfl⟩) i s hs howns hmem with ⟨j,hj⟩ | ⟨j,_,hj,_⟩
  · exact hnobody j (flushes_of_awaits hj)
  · exact hnobody j hj

/-- Under the condition no schedule of the user contains the id of a deleted group, and an id that has
disappeared from a schedule belongs to a deleted group or was taken out by an update since. -/
theorem groupIds_after_deletions (env : Environment) (userId : ℕ) (data : Database) {a b c : Config Db Pc}
    (ha : Initial userId a) (hab : Reaches (machine env userId data) keepsGroupIds a b)
    (hbc : Reaches (machine env userId data) keepsGroupIds b c) :
    (∀ g i s, a.db.groups.committed g ≠ none → c.db.groups.committed g = none →
      c.db.schedules.committed i = some s → data.ownsAd userId s.adId = true → (g : ℤ) ∉ s.groupIds) ∧
    ∀ i s x, b.db.schedules.committed i = some s → x ∈ s.groupIds →
      (∃ s', c.db.schedules.committed i = some s' ∧ x ∈ s'.groupIds) ∨
      (∃ g : ℕ, (g : ℤ) = x ∧ a.db.groups.committed g ≠ none ∧ c.db.groups.committed g = none) ∨
      (i,x) ∈ c.db.removed.drop b.db.removed.length := by
  have hb : Safe userId data a b := ha.safe.of_reaches hab
  have hc := hb.of_reaches hbc
  refine ⟨fun g i s hexisted hgone hs howns => hc.no_dangling hexisted hgone hs howns,
    fun i s x hs hx => ?_⟩
  have hkept : Kept c b.db.removed.length i x := by
    refine (hbc.invariant (I := fun d => Safe userId data a d ∧ b.db.removed.length ≤ d.db.removed.length ∧
      Kept d b.db.removed.length i x) ?_ ⟨hb,le_refl _,.inl ⟨s,hs,hx⟩⟩).2.2
    rintro d m d' ⟨hd,hn,hkept⟩ hg hm
    refine ⟨hd.next hg hm,?_,hkept.next hn hd.accounted hd.owned hm⟩
    obtain ⟨db,pc,hstep,rfl⟩ := next_eq_some.mp hm
    obtain ⟨_,more,hmore⟩ := (transition_of_step hstep).records
    simp only [hmore,List.length_append]
    omega
  rcases hkept with hthere | ⟨g,hg,hx⟩ | hremoved
  · exact .inl hthere
  · exact .inr (.inl ⟨g,hx,hc.wiped.deleted g hg⟩)
  · exact .inr (.inr hremoved)

def threeGroups : Schedule := { (mondays []).paused with groupIds := [1,2,3] }

def fourGroups : Table Group where
  size := 4
  slot := fun i => if i < 4 then ⟨some ⟨1,1,"chat","group",true,none⟩,none⟩ else Slot.empty Group
  fresh := by
    intro i hi
    rw [if_neg (by omega)]

def requests (pcs : List Pc) : Config Db Pc :=
  ⟨⟨oneSchedule threeGroups,fourGroups,[],[]⟩,fun i => pcs.getD i .finished⟩

def moveOf (i : ℕ) : Move Input := (i,⟨monday,0⟩)

def keepSecond : Operation := .update 1 ⟨some [2],none,none,none⟩

def deletionsAndUpdate : List Pc :=
  [.accountGroupsDelete 1 1,.edit keepSecond 0,.accountGroupsDelete 1 2]

def twoDeletions : List Pc := [.accountGroupsDelete 1 1,.accountGroupsDelete 1 2]

theorem requests_initial (pcs : List Pc) (hstart : pcs.all (Pc.isStart 1) = true)
    (hdifferent : ∀ i j x, (pcs.getD i .finished).Deletes x → (pcs.getD j .finished).Deletes x → i = j) :
    Initial 1 (requests pcs) := by
  refine ⟨fun i => ?_,fun i => ?_,rfl,rfl,fun i => ?_,hdifferent⟩
  · unfold requests oneSchedule
    simp only
    split <;> rfl
  · unfold requests fourGroups
    simp only
    split <;> rfl
  · show (pcs.getD i .finished).isStart 1 = true
    rw [List.getD_eq_getElem?_getD]
    cases hi : pcs[i]? with
    | none => rfl
    | some pc => exact List.all_eq_true.mp hstart pc (List.mem_of_getElem? hi)

theorem deletionsAndUpdate_initial : Initial 1 (requests deletionsAndUpdate) := by
  refine requests_initial _ (by decide) fun i j x hi hj => ?_
  rcases i with _ | _ | _ | i <;> rcases j with _ | _ | _ | j <;>
    simp_all [deletionsAndUpdate,Pc.Deletes]
  all_goals omega

theorem twoDeletions_initial : Initial 1 (requests twoDeletions) := by
  refine requests_initial _ (by decide) fun i j x hi hj => ?_
  rcases i with _ | _ | i <;> rcases j with _ | _ | j <;>
    simp_all [twoDeletions,Pc.Deletes]
  all_goals omega

/-- `HarmlessWrite` with regard to the first three processes, where no group has been deleted yet or its
id is not written. -/
def harmlessAmong (c : Config Db Pc) (tx : ℕ) (l : Loaded) : Bool :=
  ((c.db.schedules.view tx l.id).all fun s => s.groupIds.all l.loaded.groupIds.contains) &&
  l.current.groupIds.all fun x => (c.db.deleted.all fun g => (g : ℤ) ≠ x) &&
    (List.range 3).all fun j =>
      match c.pc j with
      | .flush g _ => (g : ℤ) ≠ x
      | _ => true

/-- `keepsGroupIds` with regard to the first three processes, where a deletion reads when nothing is
uncommitted. -/
def keepsAmong (c : Config Db Pc) (m : Move Input) : Bool :=
  match c.pc m.1 with
  | .removeGroupIds _ => (List.range c.db.schedules.size).all fun i => (c.db.schedules.slot i).draft.isNone
  | .flush _ left =>
    match left[m.2.pick]? with
    | some (.row l) => harmlessAmong c m.1 l
    | _ => true
  | .write l => harmlessAmong c m.1 l
  | _ => true

theorem harmlessWrite_of_among {c : Config Db Pc} (hothers : ∀ j, 3 ≤ j → c.pc j = .finished)
    (h : harmlessAmong c tx l = true) : HarmlessWrite c tx l := by
  unfold harmlessAmong at h
  obtain ⟨hstored,hpassed⟩ := (Bool.and_eq_true ..).mp h
  refine fun _ => ⟨fun s hs x hx => .inl ?_,fun x hx hpassedBy => ?_⟩
  · have hv : c.db.schedules.view tx l.id = some s := hs
    rw [hv] at hstored
    exact List.contains_iff_mem.mp (List.all_eq_true.mp hstored x hx)
  · obtain ⟨hdeleted,hflush⟩ := (Bool.and_eq_true ..).mp (List.all_eq_true.mp hpassed x hx)
    rcases hpassedBy with ⟨g,hg,hgx⟩ | ⟨j,hj,_⟩
    · exact of_decide_eq_true (List.all_eq_true.mp hdeleted g hg) hgx
    · have hlt : j < 3 := by
        by_contra hge
        rw [hothers j (by omega)] at hj
        exact hj
      have hpc := List.all_eq_true.mp hflush j (List.mem_range.mpr hlt)
      cases hcase : c.pc j with
      | flush g left =>
        rw [hcase] at hj hpc
        exact of_decide_eq_true hpc hj
      | _ =>
        rw [hcase] at hj
        exact hj

theorem keepsGroupIds_of_among (c : Config Db Pc) (m : Move Input)
    (hothers : ∀ j, 3 ≤ j → c.pc j = .finished) (h : keepsAmong c m = true) : keepsGroupIds c m := by
  unfold keepsAmong at h
  unfold keepsGroupIds
  cases hpc : c.pc m.1 with
  | removeGroupIds g =>
    rw [hpc] at h
    intro i o s hd
    have hnone := List.all_eq_true.mp h i (List.mem_range.mpr (Table.draft_lt hd))
    rw [hd] at hnone
    cases hnone
  | flush g left =>
    rw [hpc] at h
    intro l hpick
    simp only [hpick] at h
    exact harmlessWrite_of_among hothers h
  | write l =>
    rw [hpc] at h
    exact harmlessWrite_of_among hothers h
  | _ => trivial

/-- The deletions and the update one after the other: the first and the second group are deleted, the
update has taken out the third. -/
theorem groupIds_after_deletions_run : ∃ c : Config Db Pc,
    (∀ s, c.db.schedules.committed 0 = some s → (1 : ℤ) ∉ s.groupIds ∧ (2 : ℤ) ∉ s.groupIds) ∧
    (0,(3 : ℤ)) ∈ c.db.removed := by
  have hended : ∀ j, 3 ≤ j → (requests deletionsAndUpdate).pc j = .finished := by
    intro j hj
    show deletionsAndUpdate.getD j .finished = .finished
    rw [List.getD_eq_getElem?_getD,List.getElem?_eq_none (show deletionsAndUpdate.length ≤ j from hj)]
    rfl
  have hrun : (exec (machine Scheduling.utc 1 office) (fun c m => keepsAmong c m = true)
      (requests deletionsAndUpdate) ([0,0,0,0,0,1,1,1,1,2,2,2,2,2].map moveOf)).any
        (fun c => (c.db.schedules.committed 0).any (fun s => s.adId = 1 && s.groupIds = []) &&
          (c.db.groups.committed 1).isNone && (c.db.groups.committed 2).isNone &&
          (c.db.groups.committed 3).isSome) = true := by
    decide
  obtain ⟨c,hreach,hend⟩ := reaches_of_check (fun _ _ _ => rfl) keepsGroupIds_of_among hended hrun
  simp only [Bool.and_eq_true,Option.any_eq_true,Option.isNone_iff_eq_none,decide_eq_true_eq] at hend
  obtain ⟨⟨⟨⟨s,hs,had,hids⟩,hone⟩,htwo⟩,hthree⟩ := hend
  obtain ⟨hdangling,hkept⟩ := groupIds_after_deletions Scheduling.utc 1 office deletionsAndUpdate_initial
    (Reaches.refl _) hreach
  refine ⟨c,fun s' hs' => ?_,?_⟩
  · rw [hs] at hs'
    cases hs'
    have howns : office.ownsAd 1 s.adId = true := by
      rw [had]
      decide
    exact ⟨hdangling 1 0 s (by decide) hone hs howns,hdangling 2 0 s (by decide) htwo hs howns⟩
  · rcases hkept 0 threeGroups 3 rfl (by decide) with ⟨s',hs',hmem⟩ | ⟨g,hg,_,hgone⟩ | hremoved
    · rw [hs] at hs'
      cases hs'
      rw [hids] at hmem
      cases hmem
    · have hid : g = 3 := by omega
      rw [hid] at hgone
      rw [hgone] at hthree
      cases hthree
    · exact hremoved

def Pc.isFinished : Pc → Bool
  | finished => true
  | _ => false

theorem Pc.eq_finished (h : pc.isFinished = true) : pc = .finished := by
  cases pc <;> first
    | rfl
    | cases h

/-- Both deletions read the schedule before the first one writes it; the second writes the id of the first
group back. -/
theorem deleted_group_comes_back : ¬ ∀ (env : Environment) (userId : ℕ) (data : Database)
    (a b c : Config Db Pc), Initial userId a → Reaches (machine env userId data) anyMove a b →
    Reaches (machine env userId data) anyMove b c → (∀ i, c.pc i = .finished) →
    (∀ g i s, a.db.groups.committed g ≠ none → c.db.groups.committed g = none →
      c.db.schedules.committed i = some s → data.ownsAd userId s.adId = true → (g : ℤ) ∉ s.groupIds) ∧
    ∀ i s x, b.db.schedules.committed i = some s → x ∈ s.groupIds →
      (∃ s', c.db.schedules.committed i = some s' ∧ x ∈ s'.groupIds) ∨
      (∃ g : ℕ, (g : ℤ) = x ∧ a.db.groups.committed g ≠ none ∧ c.db.groups.committed g = none) ∨
      (i,x) ∈ c.db.removed.drop b.db.removed.length := by
  intro hall
  have hended : ∀ j, 2 ≤ j → (requests twoDeletions).pc j = .finished := by
    intro j hj
    show twoDeletions.getD j .finished = .finished
    rw [List.getD_eq_getElem?_getD,List.getElem?_eq_none (show twoDeletions.length ≤ j from hj)]
    rfl
  have hrun : (exec (machine Scheduling.utc 1 office) (fun c m => (fun _ _ => true : Config Db Pc →
      Move Input → Bool) c m = true) (requests twoDeletions) ([0,1,0,1,0,0,0,1,1,1].map moveOf)).any
        (fun c => (c.db.schedules.committed 0).any (fun s => s.adId = 1 && s.groupIds.contains 1) &&
          (c.db.groups.committed 1).isNone && (c.pc 0).isFinished && (c.pc 1).isFinished) = true := by
    decide
  obtain ⟨c,hreach,hothers,hend⟩ := reaches_of_check_ended (G := anyMove) (fun _ _ _ => rfl)
    (fun _ _ _ _ => trivial) hended hrun
  simp only [Bool.and_eq_true,Option.any_eq_true,Option.isNone_iff_eq_none,decide_eq_true_eq] at hend
  obtain ⟨⟨⟨⟨s,hs,had,hids⟩,hone⟩,hfirst⟩,hsecond⟩ := hend
  have hfinished : ∀ i, c.pc i = .finished := by
    intro i
    rcases i with _ | _ | i
    · exact Pc.eq_finished hfirst
    · exact Pc.eq_finished hsecond
    · exact hothers (i+2) (by omega)
  have howns : office.ownsAd 1 s.adId = true := by
    rw [had]
    decide
  exact (hall _ _ _ _ _ _ twoDeletions_initial (Reaches.refl _) hreach hfinished).1 1 0 s (by decide) hone hs
    howns (List.contains_iff_mem.mp hids)

end GroupDeletion
end Broadcaster
