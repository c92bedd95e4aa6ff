import Broadcaster.ScheduleEdits

/-!
# Overlapping planner runs

A run selects a schedule, builds its tasks, moves its next run, commits and
dispatches. While it is between its selection and its commit the schedule is
still due, so another run may select it too; and in an hour that a clock shows
twice the next run may be the one that was due. Where neither happens, each
value of `next_run_at` is answered by one run only.
-/

namespace Broadcaster
namespace ScheduleMachine

open Python ScheduleService Scheduling Interleaving

/-- No selected row is in the hands of a run that has not ended its transaction. -/
def selectsUnread (c : Config Db Pc) (m : Move Input) : Prop :=
  match c.pc m.1 with
  | .checkSchedules => ∀ row ∈ dueRows c.db m.1 m.2.now, c.db.reader row.1 = none
  | _ => True

instance (m : Move Input) (c : Config Db Pc) : Decidable (selectsUnread c m) := by
  unfold selectsUnread
  split <;> infer_instance

/-- The next run that a planner run assigns at `now` lies after the one that the schedule is due for. -/
def movesOn (env : Environment) (now : Instant) (s : Schedule) : Prop :=
  ∀ u ∈ s.nextRunAt, ∀ v ∈ nextRun env now s, u < v

/-- Outside of the hours that a clock shows twice the next run of a due schedule moves on. -/
theorem movesOn_of_forwardAt {env : Environment} {now : Instant} {s : Schedule} (hdue : isDue now s = true)
    (hforward : ∀ tz, env.zoneInfo s.timezone = .ok tz → tz.ForwardAt now) : movesOn env now s := by
  intro u hu v hv
  have hle : u ≤ now := by
    unfold isDue at hdue
    rw [Option.mem_def.mp hu] at hdue
    simpa using (Bool.and_eq_true_iff.mp hdue).2
  have hok : nextRunOf env s now = .ok (some v) := by
    rw [Option.mem_def,nextRun] at hv
    cases hn : nextRunOf env s now with
    | error e => simp [hn,Except.toOption] at hv
    | ok t =>
      rw [hn] at hv
      obtain rfl : t = some v := hv
      rfl
  exact lt_of_le_of_lt hle (lt_computeNextRunAt hforward hok)

def selectsMoving (env : Environment) (c : Config Db Pc) (m : Move Input) : Prop :=
  match c.pc m.1 with
  | .checkSchedules => ∀ row ∈ dueRows c.db m.1 m.2.now, movesOn env m.2.now row.2
  | _ => True

instance (env : Environment) (m : Move Input) (c : Config Db Pc) : Decidable (selectsMoving env c m) := by
  unfold selectsMoving movesOn
  split <;> infer_instance

def selectsOnce (env : Environment) (c : Config Db Pc) (m : Move Input) : Prop :=
  selectsUnread c m ∧ selectsMoving env c m

instance (env : Environment) (m : Move Input) (c : Config Db Pc) : Decidable (selectsOnce env c m) :=
  inferInstanceAs (Decidable (_ ∧ _))

def Advances (l : Loaded) : Prop :=
  ∃ u, l.loaded.nextRunAt = some u ∧ ∀ v, l.current.nextRunAt = some v → u < v

theorem Advances.changed {l : Loaded} (h : Advances l) : l.changed = true := by
  obtain ⟨u,hu,hlt⟩ := h
  have hne : l.loaded ≠ l.current := by
    intro he
    rw [he] at hu
    exact lt_irrefl u (hlt u hu)
  simpa [Loaded.changed] using hne

/-- Every committed batch belongs to a slot that its schedule has left behind. -/
structure Served (db : Db) : Prop where
  unique : ∀ d ∈ db.claims, ∀ e ∈ db.claims, d.schedule = e.schedule → d.slot = e.slot →
    d.process = e.process
  passed : ∀ d ∈ db.claims, ∀ s, db.schedules.MayBe d.schedule s → ∀ v, s.nextRunAt = some v →
    d.slot < v
  held : ∀ i o v, (db.schedules.slot i).draft = some (o,v) → db.reader i = some o
  logged : ∀ d ∈ db.dispatched, d ∈ db.claims

/-- The slot of a loaded row before and after its `UPDATE`. -/
def slotOf (tx : ℕ) (l : Loaded) (written : Prop) [Decidable written] : Slot Schedule :=
  ⟨some l.loaded,if written then some (tx,some l.current) else none⟩

structure Underway (db : Db) (tx : ℕ) (loaded left : List Loaded) (batches : List Dispatch) : Prop where
  reader : ∀ l ∈ loaded, db.reader l.id = some tx
  slot : ∀ l ∈ loaded, db.schedules.slot l.id = slotOf tx l (l ∉ left)
  advances : ∀ l ∈ loaded, Advances l
  left : ∀ l ∈ left, l ∈ loaded
  ids : ∀ l ∈ loaded, ∀ m ∈ loaded, l.id = m.id → l = m
  batches : ∀ d ∈ batches, d.process = tx ∧ ∃ l ∈ loaded, l.id = d.schedule ∧
    l.loaded.nextRunAt = some d.slot

def PlannerAt (db : Db) (tx : ℕ) : Pc → Prop
  | .checkSchedules | .closing | .finished => True
  | .flush loaded left batches => Underway db tx loaded left batches
  | .dispatch batches => ∀ d ∈ batches, d ∈ db.claims
  | .edit _ _ | .detach _ => False

section Transition

variable {env : Environment} {db db' : Db} {tx : ℕ} {pc pc' : Pc} {inp : Input}

theorem mem_batchesOf {due : List (ℕ × Schedule)} {tasks : List DispatchTask} {d : Dispatch}
    (h : d ∈ batchesOf tx due tasks) : d.process = tx ∧
    ∃ s, (d.schedule,s) ∈ due ∧ s.nextRunAt = some d.slot := by
  obtain ⟨hmem,_⟩ := List.mem_filter.mp h
  obtain ⟨⟨i,s⟩,hrow,hd⟩ := List.mem_filterMap.mp hmem
  obtain ⟨slot,hslot,he⟩ := Option.map_eq_some_iff.mp hd
  rw [← he]
  exact ⟨rfl,s,hrow,hslot⟩

theorem notMem_ids {rows : List (ℕ × Schedule)} {i o : ℕ} (h : db.reader i = some o)
    (hnone : ∀ row ∈ rows, db.reader row.1 = none) : i ∉ rows.map Prod.fst := by
  intro hmem
  obtain ⟨row,hrow,he⟩ := List.mem_map.mp hmem
  have hfree := hnone row hrow
  rw [he,h] at hfree
  cases hfree

theorem underway_select {c : Collected} (hj : Served db)
    (hg : ∀ row ∈ dueRows db tx inp.now, db.reader row.1 = none)
    (hmoves : ∀ row ∈ dueRows db tx inp.now, movesOn env inp.now row.2)
    (hc : collect env inp.world inp.now (dueRows db tx inp.now) = .ok c) :
    Underway (db.load tx ((dueRows db tx inp.now).map Prod.fst)) tx c.rows c.rows
      (batchesOf tx (dueRows db tx inp.now) c.tasks) := by
  obtain ⟨hall,_,hrows⟩ := collect_eq_ok hc
  rw [hrows]
  have hloaded : ∀ l ∈ (dueRows db tx inp.now).map (assigned env inp.now), ∃ i s,
      (i,s) ∈ dueRows db tx inp.now ∧ l = assigned env inp.now (i,s) := by
    intro l hl
    obtain ⟨⟨i,s⟩,hmem,he⟩ := List.mem_map.mp hl
    exact ⟨i,s,hmem,he.symm⟩
  refine ⟨?_,?_,?_,fun l hl => hl,?_,?_⟩
  · intro l hl
    obtain ⟨i,s,hmem,rfl⟩ := hloaded l hl
    have hid : (assigned env inp.now (i,s)).id ∈ (dueRows db tx inp.now).map Prod.fst :=
      List.mem_map_of_mem hmem
    exact Db.load_of_mem db tx hid
  · intro l hl
    obtain ⟨i,s,hmem,rfl⟩ := hloaded l hl
    have hfree : (db.schedules.slot i).draft = none := by
      cases hd : (db.schedules.slot i).draft with
      | none => rfl
      | some d =>
        have hreader := hj.held i d.1 d.2 hd
        rw [hg (i,s) hmem] at hreader
        cases hreader
    have hview := (mem_dueRows hmem).1
    have hholder : db.schedules.holder i ≠ some tx := by simp [Table.holder,hfree]
    rw [Table.view_of_holder_ne hholder] at hview
    rw [slotOf,if_neg (not_not.mpr hl)]
    show db.schedules.slot i = ⟨some s,none⟩
    rw [← hfree,← hview]
    rfl
  · intro l hl
    obtain ⟨i,s,hmem,rfl⟩ := hloaded l hl
    obtain ⟨_,_,u,hu,_⟩ := mem_dueRows hmem
    exact ⟨u,hu,hmoves (i,s) hmem u hu⟩
  · intro l hl m hm hid
    obtain ⟨i,s,hmem,rfl⟩ := hloaded l hl
    obtain ⟨j,r,hmem',rfl⟩ := hloaded m hm
    have hij : i = j := hid
    subst hij
    have hview := (mem_dueRows hmem).1
    rw [(mem_dueRows hmem').1] at hview
    rw [Option.some.inj hview]
  · intro d hd
    obtain ⟨hprocess,s,hmem,hslot⟩ := mem_batchesOf hd
    exact ⟨hprocess,assigned env inp.now (d.schedule,s),List.mem_map_of_mem hmem,rfl,hslot⟩

theorem Underway.write {loaded left : List Loaded} {batches : List Dispatch} {l : Loaded}
    {t : Table Schedule} (hu : Underway db tx loaded left batches) (hl : l ∈ left)
    (hw : writeRow db.schedules tx l = some (.ok t)) :
    t.slot l.id = ⟨some l.loaded,some (tx,some l.current)⟩ ∧
      ∀ j, j ≠ l.id → t.slot j = db.schedules.slot j := by
  have hmem := hu.left l hl
  have hslot := hu.slot l hmem
  rw [slotOf,if_neg (not_not.mpr hl)] at hslot
  rcases writeRow_eq_ok hw with ⟨hsame,_⟩ | ⟨stored,_,hv,_,hm⟩
  · rw [(hu.advances l hmem).changed] at hsame
    cases hsame
  · have hholder : db.schedules.holder l.id ≠ some tx := by simp [Table.holder,hslot]
    have hcommitted : db.schedules.committed l.id = some l.loaded := by rw [Table.committed,hslot]
    have hstored : stored = l.loaded := by
      rw [Table.view_of_holder_ne hholder,hcommitted] at hv
      exact (Option.some.inj hv).symm
    rw [hstored] at hv
    have hwritten := modify_hasId_slot hm hv
    rw [hcommitted,Loaded.merge_loaded] at hwritten
    exact ⟨hwritten,fun j hj => modify_hasId_slot_of_ne hm hj⟩

theorem mayBe_slotOf {t : Table Schedule} {l : Loaded} {written : Prop} [Decidable written]
    {s : Schedule} (h : t.slot l.id = slotOf tx l written) (hs : t.MayBe l.id s) :
    s = l.loaded ∨ s = l.current := by
  unfold slotOf at h
  rcases hs with hc | ⟨o,hd⟩
  · rw [Table.committed,h] at hc
    exact .inl (Option.some.inj hc).symm
  · rw [h] at hd
    split at hd
    · have he := (Prod.mk.inj (Option.some.inj hd)).2
      exact .inr (Option.some.inj he).symm
    · cases hd

theorem mayBe_loaded {t : Table Schedule} {l : Loaded} {written : Prop} [Decidable written]
    (h : t.slot l.id = slotOf tx l written) : t.MayBe l.id l.loaded := by
  refine .inl ?_
  rw [Table.committed,h]
  rfl

theorem held_release {t : Table Schedule} (hj : Served db)
    (ht : ∀ i, t.slot i = db.schedules.slot i ∨ (t.slot i).draft = none)
    (hown : ∀ i, db.schedules.holder i = some tx → (t.slot i).draft = none) :
    ∀ i o v, (t.slot i).draft = some (o,v) → db.release tx i = some o := by
  intro i o v hd
  rcases ht i with hsame | hnone
  · have hne : o ≠ tx := by
      intro he
      have hholder : db.schedules.holder i = some tx := by
        rw [Table.holder,← hsame,hd,he]
        rfl
      rw [hown i hholder] at hd
      cases hd
    rw [hsame] at hd
    have hreader := hj.held i o v hd
    unfold Db.release
    rw [if_neg (by rw [hreader]; simpa using hne)]
    exact hreader
  · rw [hnone] at hd
    cases hd

theorem slot_commit_cases (t : Table Schedule) (tx i : ℕ) :
    (t.commit tx).slot i = t.slot i ∨ ((t.commit tx).slot i).draft = none := by
  by_cases h : t.holder i = some tx
  · exact .inr (by rw [Table.commit_slot_of_holder h])
  · exact .inl (Table.commit_slot_of_ne h)

theorem slot_rollback_cases (t : Table Schedule) (tx i : ℕ) :
    (t.rollback tx).slot i = t.slot i ∨ ((t.rollback tx).slot i).draft = none := by
  by_cases h : t.holder i = some tx
  · exact .inr (by rw [Table.rollback_slot_of_holder h])
  · exact .inl (Table.rollback_slot_of_ne h)

/-- The commit of a run answers slots that no run has answered before. -/
theorem Served.commit {loaded : List Loaded} {batches : List Dispatch} (hj : Served db)
    (hu : Underway db tx loaded [] batches) : Served (db.commit tx batches) := by
  have hnew : ∀ d ∈ batches, ∀ e ∈ db.claims, e.schedule = d.schedule → e.slot < d.slot := by
    intro d hd e he hsame
    obtain ⟨_,l,hl,hid,hslot⟩ := hu.batches d hd
    have hversion := mayBe_loaded (hu.slot l hl)
    rw [hid,← hsame] at hversion
    exact hj.passed e he l.loaded hversion d.slot hslot
  refine ⟨?_,?_,?_,?_⟩
  · intro d hd e he hsame hslot
    rcases List.mem_append.mp hd with hd | hd
    · rcases List.mem_append.mp he with he | he
      · exact hj.unique d hd e he hsame hslot
      · exact absurd hslot (ne_of_lt (hnew e he d hd hsame))
    · rcases List.mem_append.mp he with he | he
      · exact absurd hslot.symm (ne_of_lt (hnew d hd e he hsame.symm))
      · exact (hu.batches d hd).1.trans (hu.batches e he).1.symm
  · intro d hd s hs v hv
    rcases List.mem_append.mp hd with hd | hd
    · exact hj.passed d hd s (Table.mayBe_commit hs) v hv
    · obtain ⟨_,l,hl,hid,hslot⟩ := hu.batches d hd
      have hwritten := hu.slot l hl
      rw [slotOf,if_pos List.not_mem_nil] at hwritten
      have hholder : db.schedules.holder l.id = some tx := by
        rw [Table.holder,hwritten]
        rfl
      have hview : db.schedules.view tx l.id = some l.current :=
        Table.view_of_draft (by rw [hwritten])
      have hcommitted := Table.commit_slot_of_holder hholder
      rw [hview] at hcommitted
      have hcurrent : s = l.current := by
        have hversion : (db.schedules.commit tx).MayBe l.id s := by
          rw [hid]
          exact hs
        rcases hversion with hc | ⟨o,hdraft⟩
        · rw [Table.committed,hcommitted] at hc
          exact (Option.some.inj hc).symm
        · rw [hcommitted] at hdraft
          cases hdraft
      obtain ⟨u,hload,hlt⟩ := hu.advances l hl
      rw [hload] at hslot
      rw [← Option.some.inj hslot]
      rw [hcurrent] at hv
      exact hlt v hv
  · refine held_release hj (slot_commit_cases db.schedules tx) ?_
    intro i hholder
    exact congrArg Slot.draft (Table.commit_slot_of_holder hholder)
  · intro d hd
    exact List.mem_append_left _ (hj.logged d hd)

theorem Served.rollback (hj : Served db) (tx : ℕ) : Served (db.rollback tx) := by
  refine ⟨hj.unique,?_,?_,hj.logged⟩
  · intro d hd s hs
    exact hj.passed d hd s (Table.mayBe_rollback hs)
  · refine held_release hj (slot_rollback_cases db.schedules tx) ?_
    intro i hholder
    exact congrArg Slot.draft (Table.rollback_slot_of_holder hholder)

theorem Served.write {loaded left : List Loaded} {batches : List Dispatch} {l : Loaded}
    {t : Table Schedule} (hj : Served db) (hu : Underway db tx loaded left batches) (hl : l ∈ left)
    (hw : writeRow db.schedules tx l = some (.ok t)) : Served (db.setSchedules t) := by
  obtain ⟨hself,hothers⟩ := hu.write hl hw
  have hmem := hu.left l hl
  refine ⟨hj.unique,?_,?_,hj.logged⟩
  · intro d hd s hs v hv
    by_cases hid : d.schedule = l.id
    · have hversion : t.MayBe l.id s := by
        rw [← hid]
        exact hs
      have hslot : t.slot l.id = slotOf tx l True := by
        rw [hself,slotOf,if_pos trivial]
      have hold : db.schedules.MayBe d.schedule l.loaded := by
        rw [hid]
        exact mayBe_loaded (hu.slot l hmem)
      rcases mayBe_slotOf hslot hversion with rfl | rfl
      · exact hj.passed d hd _ hold v hv
      · obtain ⟨u,hload,hlt⟩ := hu.advances l hmem
        exact lt_trans (hj.passed d hd _ hold u hload) (hlt v hv)
    · exact hj.passed d hd s (Table.mayBe_of_slot_eq (hothers d.schedule hid) hs) v hv
  · intro i o v hd
    have hdraft : (t.slot i).draft = some (o,v) := hd
    by_cases hid : i = l.id
    · rw [hid,hself] at hdraft
      have ho : tx = o := (Prod.mk.inj (Option.some.inj hdraft)).1
      rw [hid,← ho]
      exact hu.reader l hmem
    · rw [hothers i hid] at hdraft
      exact hj.held i o v hdraft

theorem Underway.step {loaded left : List Loaded} {batches : List Dispatch} {l : Loaded}
    {t : Table Schedule} (hu : Underway db tx loaded left batches) (hl : l ∈ left)
    (hw : writeRow db.schedules tx l = some (.ok t)) :
    Underway (db.setSchedules t) tx loaded (left.filter fun m => m.id ≠ l.id) batches := by
  obtain ⟨hself,hothers⟩ := hu.write hl hw
  refine ⟨hu.reader,?_,hu.advances,fun m hm => hu.left m (List.mem_of_mem_filter hm),hu.ids,hu.batches⟩
  intro m hm
  show t.slot m.id = _
  by_cases hid : m.id = l.id
  · have he := hu.ids m hm l (hu.left l hl) hid
    rw [he,hself,slotOf,if_pos (by simp)]
  · rw [hothers m.id hid,hu.slot m hm]
    simp only [slotOf,List.mem_filter,hid,ne_eq,not_false_eq_true,decide_true,and_true]

theorem untouched_transition (h : Transition env db tx inp pc db' pc') (hj : Served db)
    (hp : PlannerAt db tx pc)
    (hg : pc = .checkSchedules → ∀ row ∈ dueRows db tx inp.now, db.reader row.1 = none) :
    (∀ i o, db.reader i = some o → o ≠ tx →
      db'.reader i = some o ∧ db'.schedules.slot i = db.schedules.slot i) ∧
      ∀ d ∈ db.claims, d ∈ db'.claims := by
  have hholder : ∀ i o, db.reader i = some o → o ≠ tx → db.schedules.holder i ≠ some tx := by
    intro i o hreader hne hheld
    obtain ⟨v,hv⟩ := Table.holder_eq_some.mp hheld
    rw [hj.held i tx v hv] at hreader
    exact hne (Option.some.inj hreader).symm
  have hrelease : ∀ i o, db.reader i = some o → o ≠ tx → db.release tx i = some o := by
    intro i o hreader hne
    unfold Db.release
    rw [if_neg (by rw [hreader]; simpa using hne)]
    exact hreader
  cases h with
  | stop _ => exact ⟨fun i o hreader _ => ⟨hreader,rfl⟩,fun d hd => hd⟩
  | select hc =>
    refine ⟨?_,fun d hd => hd⟩
    intro i o hreader _
    have hnotMem := notMem_ids hreader (hg rfl)
    exact ⟨(Db.load_of_notMem db tx hnotMem).trans hreader,rfl⟩
  | load _ _ => exact hp.elim
  | detach _ => exact hp.elim
  | commit _ =>
    refine ⟨?_,fun d hd => List.mem_append_left _ hd⟩
    intro i o hreader hne
    exact ⟨hrelease i o hreader hne,Table.commit_slot_of_ne (hholder i o hreader hne)⟩
  | @write loaded left batches l t hl _ hw =>
    refine ⟨?_,fun d hd => hd⟩
    intro i o hreader hne
    have hu : Underway db tx loaded left batches := hp
    refine ⟨hreader,(hu.write hl hw).2 i ?_⟩
    intro hid
    rw [hid,hu.reader l (hu.left l hl)] at hreader
    exact hne (Option.some.inj hreader).symm
  | log => exact ⟨fun i o hreader _ => ⟨hreader,rfl⟩,fun d hd => hd⟩
  | rollback =>
    refine ⟨?_,fun d hd => hd⟩
    intro i o hreader hne
    exact ⟨hrelease i o hreader hne,Table.rollback_slot_of_ne (hholder i o hreader hne)⟩

theorem served_transition (h : Transition env db tx inp pc db' pc') (hj : Served db) (hp : PlannerAt db tx pc)
    (hg : pc = .checkSchedules → ∀ row ∈ dueRows db tx inp.now, db.reader row.1 = none)
    (hmoves : pc = .checkSchedules → ∀ row ∈ dueRows db tx inp.now, movesOn env inp.now row.2) :
    Served db' ∧ PlannerAt db' tx pc' := by
  cases h with
  | stop hpc =>
    rcases hpc with rfl | rfl
    · exact ⟨hj,trivial⟩
    · exact ⟨hj,trivial⟩
  | select hc =>
    refine ⟨⟨hj.unique,hj.passed,?_,hj.logged⟩,underway_select hj (hg rfl) (hmoves rfl) hc⟩
    intro i o v hd
    have hreader := hj.held i o v hd
    have hnotMem := notMem_ids hreader (hg rfl)
    exact (Db.load_of_notMem db tx hnotMem).trans hreader
  | load _ _ => exact hp.elim
  | detach _ => exact hp.elim
  | @commit loaded batches pc' hpc =>
    refine ⟨hj.commit hp,?_⟩
    rcases hpc with rfl | ⟨_,rfl⟩
    · intro d hd
      exact List.mem_append_right _ hd
    · trivial
  | write hl _ hw => exact ⟨hj.write hp hl hw,Underway.step hp hl hw⟩
  | @log batches =>
    refine ⟨⟨hj.unique,hj.passed,hj.held,?_⟩,trivial⟩
    intro d hd
    rcases List.mem_append.mp hd with hd | hd
    · exact hj.logged d hd
    · exact hp d hd
  | rollback => exact ⟨hj.rollback tx,trivial⟩

theorem plannerAt_frame {j : ℕ} {pcj : Pc} (hp : PlannerAt db j pcj) (hne : j ≠ tx)
    (hrows : ∀ i o, db.reader i = some o → o ≠ tx →
      db'.reader i = some o ∧ db'.schedules.slot i = db.schedules.slot i)
    (hclaims : ∀ d ∈ db.claims, d ∈ db'.claims) : PlannerAt db' j pcj := by
  cases pcj with
  | flush loaded left batches =>
    have hu : Underway db j loaded left batches := hp
    have hsame : ∀ l ∈ loaded, db'.reader l.id = some j ∧
        db'.schedules.slot l.id = db.schedules.slot l.id := by
      intro l hl
      exact hrows l.id j (hu.reader l hl) hne
    refine ⟨fun l hl => (hsame l hl).1,?_,hu.advances,hu.left,hu.ids,hu.batches⟩
    intro l hl
    rw [(hsame l hl).2]
    exact hu.slot l hl
  | dispatch batches =>
    intro d hd
    exact hclaims d (hp d hd)
  | edit op i => exact hp.elim
  | detach account => exact hp.elim
  | checkSchedules => trivial
  | closing => trivial
  | finished => trivial

end Transition

/-- Any number of planner runs, interleaved in any way: if no row is selected while another run
has it in hand, and every selected schedule moves on, the tasks of a slot are dispatched by one run only.
A due schedule moves on unless its clock shows an hour for the second time. -/
theorem dispatched_once {env : Environment} {a b : Config Db Pc} (hq : Quiet a)
    (hplanners : ∀ i, a.pc i = .checkSchedules ∨ a.pc i = .finished)
    (h : Reaches (machine env) (selectsOnce env) a b) :
    (∀ d ∈ b.db.dispatched, ∀ e ∈ b.db.dispatched, d.schedule = e.schedule → d.slot = e.slot →
      d.process = e.process) ∧
    ∀ now s, isDue now s = true → (∀ tz, env.zoneInfo s.timezone = .ok tz → tz.ForwardAt now) →
      movesOn env now s := by
  have hstart : Asserted Served PlannerAt a := by
    refine ⟨⟨?_,?_,?_,?_⟩,?_⟩
    · simp [hq.claims]
    · simp [hq.claims]
    · intro i o v hd
      rw [hq.drafts i] at hd
      cases hd
    · simp [hq.dispatched]
    · intro i
      rcases hplanners i with hi | hi
      · rw [hi]
        trivial
      · rw [hi]
        trivial
  have hguard : ∀ (c : Config Db Pc) (i : ℕ) (inp : Input), selectsOnce env c (i,inp) →
      c.pc i = .checkSchedules → ∀ row ∈ dueRows c.db i inp.now,
        c.db.reader row.1 = none ∧ movesOn env inp.now row.2 := by
    intro c i inp hg hpc row hrow
    simp only [selectsOnce,selectsUnread,selectsMoving,hpc] at hg
    exact ⟨hg.1 row hrow,hg.2 row hrow⟩
  have hend : Asserted Served PlannerAt b := by
    refine asserted_of_reaches ?_ ?_ h hstart
    · intro c i inp db pc hc hg hs
      exact served_transition (transition_of_step hs) hc.store (hc.process i)
        (fun hpc row hrow => (hguard c i inp hg hpc row hrow).1)
        fun hpc row hrow => (hguard c i inp hg hpc row hrow).2
    · intro c i inp db pc j hc hg hs hne
      obtain ⟨hrows,hclaims⟩ := untouched_transition (transition_of_step hs) hc.store (hc.process i)
        fun hpc row hrow => (hguard c i inp hg hpc row hrow).1
      exact plannerAt_frame (hc.process j) hne hrows hclaims
  refine ⟨?_,fun now s => movesOn_of_forwardAt⟩
  intro d hd e he hsame hslot
  exact hend.store.unique d (hend.store.logged d hd) e (hend.store.logged e he) hsame hslot

def twoPlanners : List Pc := [.checkSchedules,.checkSchedules]

theorem planners_processes : ∀ i, (processes twoPlanners).pc i = .checkSchedules ∨
    (processes twoPlanners).pc i = .finished := by
  intro i
  match i with
  | 0 => exact .inl rfl
  | 1 => exact .inl rfl
  | _+2 => exact .inr rfl

theorem forwardAt_utc (now : Instant) : ∀ tz, utc.zoneInfo dueSchedule.timezone = .ok tz → tz.ForwardAt now := by
  intro tz h
  rw [← Except.ok.inj h]
  exact forwardAt_fixed 0 now

/-- Two runs, the second of which begins when the first has committed. -/
theorem dispatched_once_in_turn : movesOn utc monday dueSchedule ∧
    ∃ b, Reaches (machine utc) (selectsOnce utc) (processes twoPlanners) b ∧
    b.db.dispatched.length = 1 ∧
    (∀ d ∈ b.db.dispatched, ∀ e ∈ b.db.dispatched, d.schedule = e.schedule → d.slot = e.slot →
      d.process = e.process) := by
  have hrun : (exec (machine utc) (selectsOnce utc) (processes twoPlanners) ([0,0,0,1,0].map moveOf)).any
      (fun b => decide (b.db.dispatched.length = 1)) = true := by decide
  obtain ⟨b,hb,hend⟩ := reaches_of_any hrun
  obtain ⟨honce,hmoves⟩ := dispatched_once (quiet_processes twoPlanners (by decide)) planners_processes hb
  exact ⟨hmoves monday dueSchedule (by decide) (forwardAt_utc monday),b,hb,by simpa using hend,honce⟩

def DispatchesTwice (env : Environment) (G : Config Db Pc → Move Input → Prop) : Prop :=
  ∃ b, Quiet (processes twoPlanners) ∧
    (∀ i, (processes twoPlanners).pc i = .checkSchedules ∨
      (processes twoPlanners).pc i = .finished) ∧
    Reaches (machine env) G (processes twoPlanners) b ∧
    ∃ d ∈ b.db.dispatched, ∃ e ∈ b.db.dispatched, d.schedule = e.schedule ∧ d.slot = e.slot ∧
      d.tasks ≠ [] ∧ d.tasks = e.tasks ∧ d.process ≠ e.process

theorem dispatchesTwice_of_exec {env : Environment} {G : Config Db Pc → Move Input → Prop}
    [∀ c m, Decidable (G c m)] (ms : List (Move Input))
    (h : (exec (machine env) G (processes twoPlanners) ms).any
      (fun b => b.db.dispatched.any fun d => b.db.dispatched.any fun e =>
        d.schedule = e.schedule && d.slot = e.slot && d.tasks ≠ [] && d.tasks = e.tasks &&
          d.process ≠ e.process) = true) : DispatchesTwice env G := by
  obtain ⟨b,hb,hend⟩ := reaches_of_any h
  simp only [List.any_eq_true,Bool.and_eq_true,decide_eq_true_eq] at hend
  obtain ⟨d,hd,e,he,⟨⟨⟨hsame,hslot⟩,hne⟩,htasks⟩,hprocess⟩ := hend
  have hq := quiet_processes twoPlanners (by decide)
  exact ⟨b,hq,planners_processes,hb,d,hd,e,he,hsame,hslot,hne,htasks,hprocess⟩

/-- Two runs that both select before either commits dispatch the same slot twice. -/
theorem overlapping_runs_dispatch_twice : DispatchesTwice utc anyMove :=
  dispatchesTwice_of_exec ([0,1,0,0,0,1,1,1].map moveOf) (by decide)

/-- A clock that is set back by an hour, half an hour after the slot. -/
def setBack : Environment :=
  let change := monday+1800000000
  ⟨fun _ => .ok
    { fromUtc := fun u => if u < change then u else u-3600000000
      toUtc := fun wall => if wall < change then wall else wall+3600000000 },""⟩

def lateMoveOf (i : ℕ) : Move Input := (i,⟨monday+2700000000,office,fun _ => (true,""),0⟩)

/-- In the repeated hour two runs in turn dispatch the same slot twice. -/
theorem repeated_hour_dispatches_twice : DispatchesTwice setBack selectsUnread :=
  dispatchesTwice_of_exec ([0,0,0,0,1,1,1,1].map lateMoveOf) (by decide)

end ScheduleMachine
end Broadcaster
