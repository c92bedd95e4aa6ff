import Broadcaster.RepeatedDelivery
import Broadcaster.TaskConservation

/-!
# The life of a task

A worker tries a task until it publishes a result. Each attempt may send
messages, also one that fails and is made again. Here `send` is one attempt of
either worker: what it sends and its error.
-/

namespace Broadcaster
namespace AccountWorker

variable {O M : Type} (m : Messenger) (send : Task → O → List M × Option String)

/-- What the attempts send, and the result; `none` as long as the task is to be tried again. -/
def life (t : Task) : List (ℤ × O) → List M × Option SendResult
  | [] => ([],none)
  | (now,o)::rest =>
    match afterSend m t now (send t o).2 with
    | .publish r => ((send t o).1,some r)
    | .retry t' => ((send t o).1 ++ (life t' rest).1,(life t' rest).2)
    | _ => ((send t o).1,none)

structure EndsInFailure (t : Task) (attempts : List (ℤ × O)) : Prop where
  failed : ∀ r, (life m send t attempts).2 = some r → r.status = .fail
  ended : m.maxRetries < attempts.countP (fun a => !rateLimited m (send t a.2).2) →
    (life m send t attempts).2 ≠ none

variable {m send} {t : Task} {o : O} {now : ℤ} {attempts : List (ℤ × O)}

theorem afterSend_failed (m : Messenger) (t : Task) (now : ℤ) (message : String) :
    (∃ r, afterSend m t now (some message) = .publish r ∧ r.status = .fail) ∨
      ∃ t', afterSend m t now (some message) = .retry t' ∧ t'.data = t.data ∧
        (rateLimited m (some message) = true ∧ t'.retries = t.retries ∨
          t.retries < m.maxRetries ∧ t'.retries = t.retries+1) := by
  rcases afterSend_cases t now message with ⟨_,hpc⟩ | ⟨hretry,hwait,_,hpc⟩ | ⟨_,hlt,_,hpc⟩
  · exact .inl ⟨_,hpc,rfl⟩
  · have hlimited : rateLimited m (some message) = true := by
      simp [rateLimited,hretry,hwait]
    exact .inr ⟨_,hpc,rfl,.inl ⟨hlimited,rfl⟩⟩
  · exact .inr ⟨_,hpc,rfl,.inr ⟨hlt,rfl⟩⟩

theorem life_of_sent (m : Messenger) (now : ℤ) (h : (send t o).2 = none) (rest : List (ℤ × O)) :
    ∃ r, life m send t ((now,o)::rest) = ((send t o).1,some r) ∧ r.status = .ok := by
  refine ⟨result m t .ok none false now,?_,rfl⟩
  simp only [life,h,afterSend]

section Attempts

/-- An attempt reads nothing but the fields that a retry keeps. -/
def ReadsData (send : Task → O → List M × Option String) : Prop :=
  ∀ t t' o, t'.data = t.data → send t' o = send t o

/-- What an attempt sends and how it ends is the same for the task and its retries. -/
theorem mem_life (hsend : ReadsData send) {message : M} (h : message ∈ (life m send t attempts).1) :
    ∃ a ∈ attempts, message ∈ (send t a.2).1 := by
  induction attempts generalizing t with
  | nil => cases h
  | cons a rest ih =>
    obtain ⟨now,o⟩ := a
    cases herror : (send t o).2 with
    | none =>
      obtain ⟨r,hlife,_⟩ := life_of_sent m now herror rest
      rw [hlife] at h
      exact ⟨(now,o),List.mem_cons_self,h⟩
    | some error =>
      rcases afterSend_failed m t now error with ⟨r,hr,_⟩ | ⟨t',ht',hdata,_⟩
      · simp only [life,herror,hr] at h
        exact ⟨(now,o),List.mem_cons_self,h⟩
      · simp only [life,herror,ht',List.mem_append] at h
        rcases h with h | h
        · exact ⟨(now,o),List.mem_cons_self,h⟩
        · obtain ⟨a,ha,hmem⟩ := ih h
          rw [hsend t t' a.2 hdata] at hmem
          exact ⟨a,List.mem_cons_of_mem _ ha,hmem⟩

theorem life_failed (hsend : ReadsData send) (hall : ∀ a ∈ attempts, (send t a.2).2 ≠ none) {r : SendResult}
    (h : (life m send t attempts).2 = some r) : r.status = .fail := by
  induction attempts generalizing t with
  | nil => cases h
  | cons a rest ih =>
    obtain ⟨now,o⟩ := a
    obtain ⟨hfirst,hrest⟩ := List.forall_mem_cons.mp hall
    obtain ⟨error,herror⟩ := Option.ne_none_iff_exists'.mp hfirst
    rcases afterSend_failed m t now error with ⟨q,hq,hfail⟩ | ⟨t',ht',hdata,_⟩
    · simp only [life,herror,hq,Option.some.injEq] at h
      rw [← h]
      exact hfail
    · simp only [life,herror,ht'] at h
      refine ih ?_ h
      intro a ha
      rw [hsend t t' a.2 hdata]
      exact hrest a ha

theorem life_ended (hsend : ReadsData send) (hretries : t.retries ≤ m.maxRetries)
    (h : m.maxRetries < t.retries + attempts.countP fun a => !rateLimited m (send t a.2).2) :
    (life m send t attempts).2 ≠ none := by
  induction attempts generalizing t with
  | nil =>
    rw [List.countP_nil] at h
    omega
  | cons a rest ih =>
    obtain ⟨now,o⟩ := a
    cases herror : (send t o).2 with
    | none =>
      obtain ⟨r,hlife,_⟩ := life_of_sent m now herror rest
      rw [hlife]
      exact Option.some_ne_none r
    | some error =>
      rcases afterSend_failed m t now error with ⟨r,hr,_⟩ | ⟨t',ht',hdata,hcount⟩
      · simp only [life,herror,hr]
        exact Option.some_ne_none r
      · simp only [life,herror,ht']
        have hsame : (fun a : ℤ × O => !rateLimited m (send t' a.2).2) =
            fun a => !rateLimited m (send t a.2).2 := by
          funext a
          rw [hsend t t' a.2 hdata]
        rw [List.countP_cons] at h
        rcases hcount with ⟨hwait,hkept⟩ | ⟨hlt,hmore⟩
        · refine ih (by omega) ?_
          rw [hsame,hkept]
          simpa [herror,hwait] using h
        · refine ih (by omega) ?_
          rw [hsame,hmore]
          split at h <;> omega

theorem endsInFailure (hsend : ReadsData send) (hfresh : t.retries = 0)
    (hall : ∀ a ∈ attempts, (send t a.2).2 ≠ none) : EndsInFailure m send t attempts := by
  refine ⟨fun r hr => life_failed hsend hall hr,fun hcount => life_ended hsend (by omega) ?_⟩
  rw [hfresh,Nat.zero_add]
  exact hcount

end Attempts

end AccountWorker
end Broadcaster
