import Broadcaster.BrokenSchedule
import Broadcaster.ScheduleStep

/-!
# Planner runs against edits

Every session computes a next run that fits the values which it has read. Its
`UPDATE` leaves out the columns that it has not changed, and these need not
hold those values any more. The next runs fit as long as they do.
-/

namespace Broadcaster
namespace ScheduleMachine

open Python ScheduleService ScheduleRules Scheduling ScheduleRoutes Interleaving

/-- Active with a slot of its own values, or paused without a next run. -/
structure Sound (env : Environment) (s : Schedule) : Prop where
  running : s.isActive = true → ∃ t, s.nextRunAt = some t ∧ slots env s t
  paused : s.isActive = false → s.nextRunAt = none

/-- Sound once the database has checked it. -/
structure Pending (env : Environment) (s : Schedule) : Prop where
  running : s.isActive = true → ∀ t, s.nextRunAt = some t → slots env s t
  paused : s.isActive = false → s.nextRunAt = none

section Decisions

variable {env : Environment} {now : Instant} {s s' : Schedule}

theorem Sound.pending (h : Sound env s) : Pending env s := by
  refine ⟨?_,h.paused⟩
  intro hactive t ht
  obtain ⟨u,hu,hslot⟩ := h.running hactive
  rw [hu] at ht
  rw [← Option.some.inj ht]
  exact hslot

theorem Pending.sound (h : Pending env s) (hchecked : s.unchecked = false) : Sound env s := by
  refine ⟨?_,h.paused⟩
  intro hactive
  cases hn : s.nextRunAt with
  | none => simp [Schedule.unchecked,hactive,hn] at hchecked
  | some t => exact ⟨t,rfl,h.running hactive t hn⟩

theorem sound_paused (s : Schedule) : Sound env s.paused :=
  ⟨fun h => (Bool.false_ne_true h).elim,fun _ => rfl⟩

theorem sound_detached (s : Schedule) : Sound env (detached s) :=
  ⟨fun h => (Bool.false_ne_true h).elim,fun _ => rfl⟩

theorem slots_nextRunOrNone {t : Instant} (h : nextRunOrNone env.zoneInfo s now = .ok (some t)) :
    slots env s t := isRunOf_computeNextRunAt (nextRunOrNone_eq_some h)

theorem settle_sound {r : Response} (h : settle env now r s = .commit s') : Sound env s' := by
  unfold settle at h
  split at h
  · have he := Decision.commit.inj h
    rw [← he]
    exact sound_paused s
  · split at h
    · rename_i hactive
      split at h
      · cases h
      · cases h
      · rename_i t ht
        have he := Decision.commit.inj h
        rw [← he]
        refine ⟨fun _ => ⟨t,rfl,slots_nextRunOrNone ht⟩,?_⟩
        intro hpaused
        have hclash : true = false := hactive.symm.trans hpaused
        cases hclash
    · rename_i hpaused
      have he := Decision.commit.inj h
      rw [← he]
      exact ⟨fun hactive => absurd hactive hpaused,fun _ => rfl⟩

theorem toggle_sound {r r' : Response} (h : toggle env now r r' s = .commit s') : Sound env s' := by
  unfold toggle at h
  split at h
  · have he := Decision.commit.inj h
    rw [← he]
    exact sound_paused s
  · split at h
    · cases h
    · split at h
      · cases h
      · cases h
      · rename_i t ht
        have he := Decision.commit.inj h
        rw [← he]
        exact ⟨fun _ => ⟨t,rfl,slots_nextRunOrNone ht⟩,fun hpaused => (Bool.noConfusion hpaused)⟩

theorem Operation.decide_sound {op : Operation} {data : Database}
    (h : op.decide env data now s = .commit s') : Sound env s' := by
  cases op with
  | update userId request =>
    unfold Operation.decide updateDecision at h
    simp only at h
    split at h
    · cases h
    · exact settle_sound h
  | toggle userId => exact toggle_sound h
  | pageUpdate userId profile form =>
    unfold Operation.decide SchedulePages.updateDecision at h
    simp only at h
    split at h
    · cases h
    · cases h
    · exact settle_sound h
  | pageToggle userId => exact toggle_sound h

theorem pending_assigned {i : ℕ} (hactive : s.isActive = true)
    (h : ∃ t, nextRunOf env s now = .ok t) : Pending env (assigned env now (i,s)).current := by
  obtain ⟨t,ht⟩ := h
  refine ⟨?_,?_⟩
  · intro _ u hu
    have he : t = some u := by
      have hcolumn : nextRun env now s = some u := hu
      rw [nextRun_of_ok ht] at hcolumn
      exact hcolumn
    rw [he] at ht
    exact isRunOf_computeNextRunAt ht
  · intro hpaused
    have hclash : true = false := hactive.symm.trans hpaused
    cases hclash

end Decisions

/-- The columns that the `UPDATE` leaves out are still as they were loaded. -/
def unmoved (l : Loaded) (stored : Schedule) : Bool :=
  (l.loaded.daysOfWeek ≠ l.current.daysOfWeek || stored.daysOfWeek = l.loaded.daysOfWeek) &&
  (l.loaded.timesOfDay ≠ l.current.timesOfDay || stored.timesOfDay = l.loaded.timesOfDay) &&
  (l.loaded.timezone ≠ l.current.timezone || stored.timezone = l.loaded.timezone) &&
  (l.loaded.isActive ≠ l.current.isActive || stored.isActive = l.loaded.isActive) &&
  (l.loaded.nextRunAt ≠ l.current.nextRunAt || stored.nextRunAt = l.loaded.nextRunAt)

def writesUnmoved (c : Config Db Pc) (m : Move Input) : Prop :=
  match c.pc m.1 with
  | .flush _ left _ => ∀ l ∈ left, l.id = m.2.pick → l.changed = true →
      (c.db.schedules.view m.1 l.id).all (unmoved l) = true
  | _ => True

instance (c : Config Db Pc) (m : Move Input) : Decidable (writesUnmoved c m) := by
  unfold writesUnmoved
  split <;> infer_instance

theorem column_of_unmoved {α : Type} [DecidableEq α] {a b c : α}
    (h : (decide (a ≠ b) || decide (c = a)) = true) : (if a = b then c else b) = b := by
  by_cases hab : a = b
  · have hca : c = a := by simpa [hab] using h
    rw [if_pos hab,hca,hab]
  · rw [if_neg hab]

theorem pending_merge {env : Environment} {l : Loaded} {stored : Schedule}
    (hu : unmoved l stored = true) (h : Pending env l.current) : Pending env (l.merge stored) := by
  unfold unmoved at hu
  simp only [Bool.and_eq_true] at hu
  obtain ⟨⟨⟨⟨hdays,htimes⟩,hzone⟩,hactive⟩,hnext⟩ := hu
  have hd : (l.merge stored).daysOfWeek = l.current.daysOfWeek := column_of_unmoved hdays
  have ht : (l.merge stored).timesOfDay = l.current.timesOfDay := column_of_unmoved htimes
  have hz : (l.merge stored).timezone = l.current.timezone := column_of_unmoved hzone
  have ha : (l.merge stored).isActive = l.current.isActive := column_of_unmoved hactive
  have hn : (l.merge stored).nextRunAt = l.current.nextRunAt := column_of_unmoved hnext
  have hslots : slots env (l.merge stored) = slots env l.current := by
    unfold slots
    rw [hd,ht,hz]
  exact ⟨by rw [ha,hn,hslots]; exact h.running,by rw [ha,hn]; exact h.paused⟩

def SoundTable (env : Environment) (t : Table Schedule) : Prop :=
  ∀ i s, t.MayBe i s → Sound env s

/-- The rows that a session has still to write are sound, but for the check. -/
def PendingSession (env : Environment) : Pc → Prop
  | .flush _ left _ => ∀ l ∈ left, Pending env l.current
  | _ => True

theorem sound_transition {env : Environment} {db db' : Db} {tx : ℕ} {pc pc' : Pc} {inp : Input}
    (h : Transition env db tx inp pc db' pc') (ht : SoundTable env db.schedules)
    (hp : PendingSession env pc)
    (hg : ∀ loaded left batches, pc = .flush loaded left batches → ∀ l ∈ left, l.id = inp.pick →
      l.changed = true → (db.schedules.view tx l.id).all (unmoved l) = true) :
    SoundTable env db'.schedules ∧ PendingSession env pc' := by
  cases h with
  | stop hpc =>
    rcases hpc with rfl | rfl
    · exact ⟨ht,trivial⟩
    · exact ⟨ht,trivial⟩
  | select hc =>
    refine ⟨ht,?_⟩
    obtain ⟨hall,_,hrows⟩ := collect_eq_ok hc
    intro l hl
    rw [hrows] at hl
    obtain ⟨⟨i,s⟩,hmem,rfl⟩ := List.mem_map.mp hl
    exact pending_assigned (mem_dueRows hmem).2.1 (hall (i,s) hmem)
  | load hv hd =>
    refine ⟨ht,?_⟩
    intro l hl
    rw [List.mem_singleton.mp hl]
    exact (Operation.decide_sound hd).pending
  | detach hm =>
    refine ⟨?_,fun l hl => by cases hl⟩
    intro i s hs
    rcases Table.mayBe_modify hm hs with hold | ⟨r,_,_,he⟩
    · exact ht i s hold
    · rw [← Option.some.inj he]
      exact sound_detached r
  | commit hpc =>
    refine ⟨fun i s hs => ht i s (Table.mayBe_commit hs),?_⟩
    rcases hpc with rfl | ⟨_,rfl⟩
    · trivial
    · trivial
  | @write loaded left batches l t hl hpick hw =>
    refine ⟨?_,fun m hm => hp m (List.mem_of_mem_filter hm)⟩
    rcases writeRow_eq_ok hw with ⟨_,rfl⟩ | ⟨stored,hchanged,hv,hchecked,hm⟩
    · exact ht
    · intro i s hs
      rcases Table.mayBe_modify hm hs with hold | ⟨r,hr,hid,he⟩
      · exact ht i s hold
      · have hi : i = l.id := by simpa [hasId] using hid
        rw [hi,hv] at hr
        have hstored : stored = r := Option.some.inj hr
        have hu := hg loaded left batches rfl l hl hpick hchanged
        rw [hv] at hu
        have hunmoved : unmoved l stored = true := by simpa using hu
        rw [← Option.some.inj he,← hstored]
        exact (pending_merge hunmoved (hp l hl)).sound hchecked
  | log => exact ⟨ht,trivial⟩
  | rollback => exact ⟨fun i s hs => ht i s (Table.mayBe_rollback hs),trivial⟩

/-- In a run that writes only `unmoved` rows every committed row is sound. -/
theorem sound_of_reaches {env : Environment} {a b : Config Db Pc} (hq : Quiet a)
    (hsound : ∀ i s, a.db.schedules.committed i = some s → Sound env s)
    (h : Reaches (machine env) writesUnmoved a b) :
    ∀ i s, b.db.schedules.committed i = some s → Sound env s := by
  have hstart : Asserted (fun db : Db => SoundTable env db.schedules)
      (fun _ _ pc => PendingSession env pc) a := by
    refine ⟨?_,?_⟩
    · rintro i s (hs | ⟨o,hd⟩)
      · exact hsound i s hs
      · rw [hq.drafts i] at hd
        cases hd
    · intro i
      have hpc := hq.starts i
      cases hpci : a.pc i with
      | flush loaded left batches =>
        rw [hpci] at hpc
        cases hpc
      | _ => trivial
  have hend := asserted_of_reaches ?_ ?_ h hstart
  · intro i s hs
    exact hend.store i s (.inl hs)
  · intro c i inp db pc hc hg hs
    refine sound_transition (transition_of_step hs) hc.store (hc.process i) ?_
    intro loaded left batches hpc l hl hpick hchanged
    unfold writesUnmoved at hg
    simp only [hpc] at hg
    exact hg l hl hpick hchanged
  · intro c i inp db pc j hc _ _ _
    exact hc.process j

/-! The planner and the owner of a schedule that is due on a Monday at nine. -/

def ownedTwice {Row : Type} (r : Row) : Store Row := ((Store.empty Row).insert r).insert r

def office : Database where
  users := ownedTwice ⟨false,"UTC"⟩
  ads := ownedTwice ⟨1,"title","text",[],"published"⟩
  accounts := ownedTwice ⟨1,"tg_user","active"⟩
  groups := ownedTwice ⟨1,1,"chat","group",true,none⟩
  schedules := .empty _

def monday : Instant := 32400000000

def dueSchedule : Schedule := (mondays ["09:00"]).withNextRun (some monday)

def oneSchedule (s : Schedule) : Table Schedule where
  size := 1
  slot := fun i => if i = 0 then ⟨some s,none⟩ else Slot.empty Schedule
  fresh := by
    intro i hi
    rw [if_neg (by omega)]

def processes (pcs : List Pc) : Config Db Pc :=
  ⟨⟨oneSchedule dueSchedule,fun _ => none,[],[]⟩,fun i => pcs.getD i .finished⟩

def moveOf (i : ℕ) : Move Input := (i,⟨monday,office,fun _ => (true,""),0⟩)

def plannerAndPause : List Pc := [.checkSchedules,.edit (.toggle 1) 0]

theorem quiet_processes (pcs : List Pc) (h : pcs.all Pc.isStart = true) : Quiet (processes pcs) := by
  refine ⟨?_,fun _ => rfl,rfl,rfl,?_⟩
  · intro i
    show ((oneSchedule dueSchedule).slot i).draft = none
    unfold oneSchedule
    simp only
    split <;> rfl
  · intro i
    show (pcs.getD i .finished).isStart = true
    rw [List.getD_eq_getElem?_getD]
    cases hi : pcs[i]? with
    | none => rfl
    | some pc => exact List.all_eq_true.mp h pc (List.mem_of_getElem? hi)

theorem sound_dueSchedule : Sound utc dueSchedule :=
  ⟨fun _ => ⟨monday,rfl,Zone.fixed 0,_,_,monday,rfl,rfl,rfl,⟨0,monday,by decide,by decide,by decide⟩,
    by decide⟩,fun h => by cases h⟩

theorem sound_processes (pcs : List Pc) :
    ∀ i s, (processes pcs).db.schedules.committed i = some s → Sound utc s := by
  intro i s hs
  have hrow : (oneSchedule dueSchedule).committed i = some s := hs
  unfold oneSchedule Table.committed at hrow
  simp only at hrow
  split at hrow
  · rw [← Option.some.inj hrow]
    exact sound_dueSchedule
  · cases hrow

/-- A pause after a planner run, one after the other. -/
theorem sound_of_reaches_pause : ∃ b, Reaches (machine utc) writesUnmoved
    (processes plannerAndPause) b ∧
    b.db.schedules.committed 0 = some dueSchedule.paused ∧
      (∀ i s, b.db.schedules.committed i = some s → Sound utc s) := by
  have hrun : (exec (machine utc) writesUnmoved (processes plannerAndPause)
      ([0,0,0,0,1,1,1].map moveOf)).any
        (fun b => decide (b.db.schedules.committed 0 = some dueSchedule.paused)) = true := by decide +kernel
  obtain ⟨b,hb,hend⟩ := reaches_of_any hrun
  have hq := quiet_processes plannerAndPause (by decide)
  exact ⟨b,hb,by simpa using hend,sound_of_reaches hq (sound_processes _) hb⟩

/-- The planner selects, the owner pauses, the planner writes: the paused schedule gets a next
run back. -/
theorem planner_undoes_pause : ∃ b, Quiet (processes plannerAndPause) ∧
    (∀ i s, (processes plannerAndPause).db.schedules.committed i = some s → Sound utc s) ∧
    Reaches (machine utc) anyMove (processes plannerAndPause) b ∧
    (b.pc 0).isFinished = true ∧ (b.pc 1).isFinished = true ∧
    ∃ s, b.db.schedules.committed 0 = some s ∧ s.isActive = false ∧ s.nextRunAt ≠ none := by
  have hrun : (exec (machine utc) anyMove (processes plannerAndPause)
      ([0,1,1,1,0,0,0].map moveOf)).any
        (fun b => (b.pc 0).isFinished && (b.pc 1).isFinished &&
          (b.db.schedules.committed 0).any fun s => !s.isActive && s.nextRunAt.isSome) = true := by
    decide +kernel
  obtain ⟨b,hb,hend⟩ := reaches_of_any hrun
  simp only [Bool.and_eq_true,Option.any_eq_true] at hend
  obtain ⟨⟨h0,h1⟩,s,hs,hactive,hnext⟩ := hend
  have hq := quiet_processes plannerAndPause (by decide)
  refine ⟨b,hq,sound_processes _,hb,h0,h1,s,hs,by simpa using hactive,?_⟩
  intro hnone
  rw [hnone] at hnext
  cases hnext

end ScheduleMachine
end Broadcaster
