import Broadcaster.Reconciliation

/-!
# The fuse against degenerate answers

An answer without a single group that was known before is to be taken for a
failure of the messenger. The guard asks something else: whether any group has
been seen. One new group is enough to have all known ones marked.
-/

namespace Broadcaster
namespace GroupResync

open Python ScheduleService
open ScheduleSystem (emptyResponseMessage)

/-- No group is marked, the time of the last synchronisation stays, the error is recorded. -/
structure FuseHolds (before after : State) : Prop where
  marks : ∀ i g, before.groups.row i = some g →
    ∃ g', after.groups.row i = some g' ∧ g'.missingSince = g.missingSince
  lastSyncedAt : after.account.lastSyncedAt = before.account.lastSyncedAt
  error : ∃ result, after.account.lastSyncResult = some result ∧ result.error = some emptyResponseMessage

section Fuse

variable {repr : Json → String} {s : State} {items : List Json} {messengerType : String} {now : Instant}

theorem mem_seen_foldl {account : Account} {existing : List (ℕ × GroupRow)} {id : String}
    (ps : List (String × String)) (r : Resync) (h : id ∈ r.seen ∨ id ∈ ps.map Prod.fst) :
    id ∈ (ps.foldl (visit account messengerType existing) r).seen := by
  induction ps generalizing r with
  | nil => exact h.resolve_right List.not_mem_nil
  | cons p ps ih =>
    refine ih _ ?_
    have hvisit : id ∈ r.seen ∨ id = p.1 → id ∈ (visit account messengerType existing r p).seen := by
      intro h
      unfold visit
      split
      · rename_i hseen
        rcases h with h | rfl
        · exact h
        · exact List.contains_iff_mem.mp hseen
      · split
        · exact List.mem_cons.mpr h.symm
        · exact List.mem_cons.mpr h.symm
    rw [List.map_cons,List.mem_cons] at h
    rcases h with h | h | h
    · exact .inl (hvisit (.inl h))
    · exact .inl (hvisit (.inr h))
    · exact .inr h

variable (s messengerType) in
theorem loopEnd_of_nil (h : usableIds repr items = []) :
    loopEnd repr s items messengerType = ⟨s.groups,[],0,0⟩ := by
  have hnil : answer repr items = [] := List.map_eq_nil_iff.mp h
  rw [loopEnd,foldl_resyncItem,hnil]
  rfl

theorem seen_loopEnd (h : usableIds repr items ≠ []) : (loopEnd repr s items messengerType).seen ≠ [] := by
  obtain ⟨id,hid⟩ := List.exists_mem_of_ne_nil _ h
  rw [loopEnd,foldl_resyncItem]
  exact List.ne_nil_of_mem (mem_seen_foldl _ _ (.inr hid))

theorem fuse_of_nil (hknown : ∃ id, Known s.groups s.account.id id) (h : usableIds repr items = []) :
    FuseHolds s (applyGroupResync repr s (.arr items) messengerType false now).1 := by
  obtain ⟨_,i,g,hg,ha,_⟩ := hknown
  have hexisting : (groupsOf s.groups s.account.id).isEmpty = false :=
    List.isEmpty_eq_false_iff.mpr (List.ne_nil_of_mem (mem_groupsOf.mpr ⟨hg,ha⟩))
  have hblown : applyGroupResync repr s (.arr items) messengerType false now =
      ({ s with account := { s.account with lastSyncResult := some ⟨0,0,0,0,some emptyResponseMessage⟩ } },
        ⟨0,0,0,0,some emptyResponseMessage⟩) := by
    have hend := loopEnd_of_nil s messengerType h
    rw [loopEnd] at hend
    simp only [applyGroupResync,hend,hexisting,List.isEmpty_nil,Bool.not_false,Bool.and_self,if_true]
  rw [hblown]
  exact ⟨fun i g hg => ⟨g,hg,rfl⟩,rfl,_,rfl,rfl⟩

variable (s messengerType now) in
theorem error_of_usable (h : usableIds repr items ≠ []) : ∃ result,
    (applyGroupResync repr s (.arr items) messengerType false now).1.account.lastSyncResult = some result ∧
      result.error = none := by
  have hseen : (loopEnd repr s items messengerType).seen.isEmpty = false :=
    List.isEmpty_eq_false_iff.mpr (seen_loopEnd h)
  rw [loopEnd] at hseen
  simp only [applyGroupResync,hseen,Bool.and_false,Bool.false_and,Bool.false_eq_true,if_false]
  exact ⟨_,rfl,rfl⟩

end Fuse

/-- Of the answers that hold none of the known groups the fuse stops those without a usable element; every other
one marks all groups of the account. -/
theorem fuse_holds_iff {repr : Json → String} {s : State} {items : List Json} (messengerType : String) (now : Instant)
    (hknown : ∃ id, Known s.groups s.account.id id)
    (hnone : ∀ id ∈ usableIds repr items, ¬ Known s.groups s.account.id id) :
    (FuseHolds s (applyGroupResync repr s (.arr items) messengerType false now).1 ↔ usableIds repr items = []) ∧
    (DistinctIds s.groups s.account.id → usableIds repr items ≠ [] →
      ∀ i g, s.groups.row i = some g → g.accountId = s.account.id → ∃ g',
      (applyGroupResync repr s (.arr items) messengerType false now).1.groups.row i = some g' ∧
        g'.missingSince.isSome = true) := by
  refine ⟨⟨?_,fuse_of_nil hknown⟩,?_⟩
  · intro hholds
    by_contra hne
    obtain ⟨result,hresult,herror⟩ := hholds.error
    obtain ⟨result',hresult',hnone'⟩ := error_of_usable s messengerType now hne
    rw [hresult] at hresult'
    rw [Option.some.inj hresult',hnone'] at herror
    cases herror
  · intro hdistinct hne i g hg ha
    have hmissing : g.groupExternalId ∉ usableIds repr items := fun hmem => hnone _ hmem ⟨i,g,hg,ha,rfl⟩
    have hpass : Passes repr s items false := fun _ _ => hne
    rw [applyGroupResync_passes messengerType now hdistinct hpass]
    exact ⟨_,(reconciled_loopEnd repr items messengerType now hdistinct).missing i g hg ha hmissing,rfl⟩

/-- Null, a number and a dictionary without an id. -/
theorem fuse_holds_iff_garbage : FuseHolds office
    (applyGroupResync (fun _ => "") office (.arr [.null,.int 3,.obj [("name",.str "Sales")]]) "wa" false 9).1 := by
  have hids : usableIds (fun _ => "") [.null,.int 3,.obj [("name",.str "Sales")]] = [] := by decide
  refine (fuse_holds_iff "wa" 9 ⟨"a",0,_,rfl,rfl,rfl⟩ ?_).1.mpr hids
  rw [hids]
  exact fun id hid => absurd hid List.not_mem_nil

/-- One new group, and none of the known ones. -/
theorem fuse_new_group : ¬ ∀ (repr : Json → String) (s : State) (items : List Json) (messengerType : String)
    (now : Instant), DistinctIds s.groups s.account.id → (∃ id, Known s.groups s.account.id id) →
    (∀ id ∈ usableIds repr items, ¬ Known s.groups s.account.id id) →
    FuseHolds s (applyGroupResync repr s (.arr items) messengerType false now).1 := by
  intro hall
  have hids : usableIds (fun _ => "") [.obj [("id",.str "new")]] = ["new"] := by decide
  have hholds := hall (fun _ => "") office [.obj [("id",.str "new")]] "wa" 9 (distinctIds_of_nodup (by decide))
    ⟨"a",0,_,rfl,rfl,rfl⟩ ?_
  · have hrow : (applyGroupResync (fun _ => "") office (.arr [.obj [("id",.str "new")]])
        "wa" false 9).1.account.lastSyncedAt = some 9 := by decide
    rw [hholds.lastSyncedAt] at hrow
    cases hrow
  · rw [hids]
    intro id hid
    rw [List.mem_singleton.mp hid,← mem_idsOf]
    decide

end GroupResync
end Broadcaster
