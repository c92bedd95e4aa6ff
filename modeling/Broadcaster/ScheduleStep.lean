import Broadcaster.PlannerRun
import Broadcaster.ScheduleMachine

/-!
# What one move can do

Everything that is proved about runs of the machine goes through `Transition`.
-/

namespace Broadcaster
namespace ScheduleMachine

open Python ScheduleService ScheduleRules Scheduling ScheduleRoutes Interleaving

def Input.world (inp : Input) : World := worldOf inp.data inp.checkLimit

/-- The moves of process `tx`, by the statement that they carry out. -/
inductive Transition (env : Environment) (db : Db) (tx : ℕ) (inp : Input) : Pc → Db → Pc → Prop
  /- nothing to do, or an exception -/
  | stop {pc pc' : Pc} (h : pc' = .closing ∨ pc' = .finished) : Transition env db tx inp pc db pc'
  | select {c : Collected} (h : collect env inp.world inp.now (dueRows db tx inp.now) = .ok c) :
      Transition env db tx inp .checkSchedules (db.load tx ((dueRows db tx inp.now).map Prod.fst))
        (.flush c.rows c.rows (batchesOf tx (dueRows db tx inp.now) c.tasks))
  | load {op : Operation} {i : ℕ} {s new : Schedule} (hv : db.schedules.view tx i = some s)
      (h : op.decide env inp.data inp.now s = .commit new) :
      Transition env db tx inp (.edit op i) (db.load tx [i]) (.flush [⟨i,s,new⟩] [⟨i,s,new⟩] [])
  | detach {account : ℕ} {t : Table Schedule}
      (h : db.schedules.modify tx (isOfAccount account) (fun s => some (detached s)) = some t) :
      Transition env db tx inp (.detach account) (db.setSchedules t) (.flush [] [] [])
  | commit {loaded : List Loaded} {batches : List Dispatch} {pc' : Pc}
      (h : pc' = .dispatch batches ∨ (batches = [] ∧ pc' = .finished)) :
      Transition env db tx inp (.flush loaded [] batches) (db.commit tx batches) pc'
  | write {loaded left : List Loaded} {batches : List Dispatch} {l : Loaded} {t : Table Schedule}
      (hl : l ∈ left) (hpick : l.id = inp.pick) (h : writeRow db.schedules tx l = some (.ok t)) :
      Transition env db tx inp (.flush loaded left batches) (db.setSchedules t)
        (.flush loaded (left.filter fun m => m.id ≠ l.id) batches)
  | log {batches : List Dispatch} :
      Transition env db tx inp (.dispatch batches) (db.log batches) .finished
  | rollback : Transition env db tx inp .closing (db.rollback tx) .finished

theorem transition_of_step {env : Environment} {db db' : Db} {tx : ℕ} {pc pc' : Pc} {inp : Input}
    (h : step env db tx pc inp = some (db',pc')) : Transition env db tx inp pc db' pc' := by
  cases pc with
  | checkSchedules =>
    simp only [step] at h
    split at h
    · obtain ⟨rfl,rfl⟩ := Prod.mk.inj (Option.some.inj h)
      exact .stop (.inr rfl)
    · split at h
      · obtain ⟨rfl,rfl⟩ := Prod.mk.inj (Option.some.inj h)
        exact .stop (.inl rfl)
      · rename_i hc
        obtain ⟨rfl,rfl⟩ := Prod.mk.inj (Option.some.inj h)
        exact .select hc
  | edit op i =>
    simp only [step] at h
    split at h
    · obtain ⟨rfl,rfl⟩ := Prod.mk.inj (Option.some.inj h)
      exact .stop (.inl rfl)
    · rename_i s hv
      split at h
      · split at h
        · rename_i new hd
          obtain ⟨rfl,rfl⟩ := Prod.mk.inj (Option.some.inj h)
          exact .load hv hd
        · obtain ⟨rfl,rfl⟩ := Prod.mk.inj (Option.some.inj h)
          exact .stop (.inl rfl)
        · obtain ⟨rfl,rfl⟩ := Prod.mk.inj (Option.some.inj h)
          exact .stop (.inl rfl)
      · obtain ⟨rfl,rfl⟩ := Prod.mk.inj (Option.some.inj h)
        exact .stop (.inl rfl)
  | detach account =>
    obtain ⟨t,ht,he⟩ := Option.map_eq_some_iff.mp h
    obtain ⟨rfl,rfl⟩ := Prod.mk.inj he
    exact .detach ht
  | flush loaded left batches =>
    simp only [step] at h
    split at h
    · rename_i hleft
      obtain ⟨rfl,rfl⟩ := Prod.mk.inj (Option.some.inj h)
      have hnil : left = [] := by simpa using hleft
      subst hnil
      refine .commit ?_
      cases batches with
      | nil => exact .inr ⟨rfl,rfl⟩
      | cons d ds => exact .inl rfl
    · obtain ⟨l,hfind,h⟩ := Option.bind_eq_some_iff.mp h
      obtain ⟨result,hw,he⟩ := Option.map_eq_some_iff.mp h
      have hpick : l.id = inp.pick := by simpa using List.find?_some hfind
      split at he
      · obtain ⟨rfl,rfl⟩ := Prod.mk.inj he
        exact .stop (.inl rfl)
      · obtain ⟨rfl,rfl⟩ := Prod.mk.inj he
        exact .write (List.mem_of_find?_eq_some hfind) hpick hw
  | dispatch batches =>
    obtain ⟨rfl,rfl⟩ := Prod.mk.inj (Option.some.inj h)
    exact .log
  | closing =>
    obtain ⟨rfl,rfl⟩ := Prod.mk.inj (Option.some.inj h)
    exact .rollback
  | finished => cases h

/-- A write that succeeds: there was nothing to write, or the row was found and passed the check. -/
theorem writeRow_eq_ok {t t' : Table Schedule} {tx : ℕ} {l : Loaded}
    (h : writeRow t tx l = some (.ok t')) : (l.changed = false ∧ t' = t) ∨
    ∃ stored, l.changed = true ∧ t.view tx l.id = some stored ∧ (l.merge stored).unchecked = false ∧
      t.modify tx (hasId l.id) (fun s => some (l.merge s)) = some t' := by
  unfold writeRow at h
  split at h
  · rename_i hchanged
    split at h
    · cases h
    · rename_i stored hv
      obtain ⟨t'',hm,he⟩ := Option.map_eq_some_iff.mp h
      split at he
      · cases he
      · rename_i hchecked
        have ht : t'' = t' := Except.ok.inj he
        rw [ht] at hm
        exact .inr ⟨stored,hchanged,hv,by simpa using hchecked,hm⟩
  · rename_i hsame
    have ht : t = t' := Except.ok.inj (Option.some.inj h)
    exact .inl ⟨by simpa using hsame,ht.symm⟩

theorem modify_hasId_slot_of_ne {t t' : Table Schedule} {tx i j : ℕ} {f : Schedule → Option Schedule}
    (h : t.modify tx (hasId i) f = some t') (hne : j ≠ i) : t'.slot j = t.slot j := by
  apply Table.modify_slot_other h
  intro r _
  simp [hasId,hne]

theorem modify_hasId_slot {t t' : Table Schedule} {tx i : ℕ} {r : Schedule}
    {f : Schedule → Option Schedule} (h : t.modify tx (hasId i) f = some t')
    (hv : t.view tx i = some r) : t'.slot i = ⟨t.committed i,some (tx,f r)⟩ :=
  Table.modify_slot_selected h hv (by simp [hasId])

theorem mem_dueRows {db : Db} {tx : ℕ} {now : Instant} {i : ℕ} {s : Schedule}
    (h : (i,s) ∈ dueRows db tx now) : db.schedules.view tx i = some s ∧ s.isActive = true ∧
      ∃ t, s.nextRunAt = some t ∧ t ≤ now := by
  obtain ⟨hv,hdue⟩ := Table.mem_select.mp h
  exact ⟨hv,isActive_of_isDue hdue⟩

end ScheduleMachine
end Broadcaster
