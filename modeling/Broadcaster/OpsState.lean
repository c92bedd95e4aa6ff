import Broadcaster.PythonValues
import Mathlib.Data.Nat.Notation

/-!
# Reading the queues of the workers

The queue of an account is a list of byte strings, one JSON object for each
task. `loads` stands for `json.loads`: it knows infinite numbers and NaN, and
gives up on what is nested too deeply with an error that is no `ValueError`.
-/

namespace Broadcaster
namespace OpsState

/-- What `json.loads` returns. The fields of an object are those of the dictionary. -/
inductive Value
  | null
  | bool (b : Bool)
  | int (n : ℤ)
  | float (q : ℚ)
  | infinity (negative : Bool)
  | nan
  | str (s : String)
  | arr (xs : List Value)
  | obj (fields : List (String × Value))

inductive LoadError
  | typeError | valueError | recursionError
  deriving DecidableEq

abbrev Body := List (String × Value)

abbrev Loads (Raw : Type) := Raw → Except LoadError Value

def Body.get (body : Body) (field : String) : Option Value := List.lookup field body

/-- `body.get("task_id")`, where it is a string; nothing else equals the id of a request. -/
def Body.taskId (body : Body) : Option String :=
  match body.get "task_id" with
  | some (.str s) => some s
  | _ => none

section

variable {Raw : Type} (loads : Loads Raw)

/-- `_decode_task`: garbage is no task; only these two errors are caught. -/
def decodeTask (raw : Raw) : Except LoadError (Option Body) :=
  match loads raw with
  | .ok (.obj fields) => .ok (some fields)
  | .ok _ => .ok none
  | .error .typeError | .error .valueError => .ok none
  | .error .recursionError => .error .recursionError

/-- `_read_raw`: `LLEN` and `LRANGE 0 limit-1`, together; the limit is positive. -/
def readRaw (queue : List Raw) (limit : ℕ) : ℕ × List Raw := (queue.length,queue.take limit)

/-- The first element whose body has the id. -/
def findTask (taskId : String) : List Raw → Except LoadError (Option Raw)
  | [] => .ok none
  | raw::raws =>
    match decodeTask loads raw with
    | .error e => .error e
    | .ok none => findTask taskId raws
    | .ok (some body) => if body.taskId = some taskId then .ok (some raw) else findTask taskId raws

def taskIdOf (raw : Raw) : Option String :=
  match decodeTask loads raw with
  | .ok (some body) => body.taskId
  | _ => none

structure QueuePage where
  tasks : List Body
  total : ℕ
  unreadable : ℕ

/-- `queue_page` with Redis at hand; an element that is no task is counted. -/
def queuePage (queue : List Raw) (limit : ℕ) : Except LoadError QueuePage := do
  let reply := readRaw queue limit
  let bodies ← reply.2.mapM (decodeTask loads)
  return ⟨bodies.filterMap id,reply.1,bodies.countP Option.isNone⟩

def queueRowCap : ℕ := 50

def queueReadLimit : ℕ := queueRowCap+1

end

section Found

variable {Raw : Type} {loads : Loads Raw} {taskId : String} {raw : Raw} {raws : List Raw}

theorem findTask_cons_ne {r : Raw} {found : Option Raw} (h : findTask loads taskId (r::raws) = .ok found)
    (hne : taskIdOf loads r ≠ some taskId) : findTask loads taskId raws = .ok found := by
  unfold findTask at h
  unfold taskIdOf at hne
  cases hr : decodeTask loads r with
  | error e => simp [hr] at h
  | ok body =>
    cases body with
    | none => simpa [hr] using h
    | some body =>
      have hbody : body.taskId ≠ some taskId := by
        simpa [hr] using hne
      simpa [hr,hbody] using h

theorem findTask_cons_eq {r : Raw} (h : taskIdOf loads r = some taskId) :
    findTask loads taskId (r::raws) = .ok (some r) := by
  unfold taskIdOf at h
  unfold findTask
  cases hr : decodeTask loads r with
  | error e => simp [hr] at h
  | ok body =>
    cases body with
    | none => simp [hr] at h
    | some body =>
      have hbody : body.taskId = some taskId := by
        simpa [hr] using h
      simp [hbody]

theorem findTask_some (h : findTask loads taskId raws = .ok (some raw)) :
    raw ∈ raws ∧ taskIdOf loads raw = some taskId := by
  induction raws with
  | nil => cases h
  | cons r raws ih =>
    by_cases hr : taskIdOf loads r = some taskId
    · have hraw : r = raw := by
        simpa [findTask_cons_eq hr] using h
      subst hraw
      exact ⟨List.mem_cons_self,hr⟩
    · obtain ⟨hmem,hid⟩ := ih (findTask_cons_ne h hr)
      exact ⟨List.mem_cons_of_mem r hmem,hid⟩

theorem findTask_none (h : findTask loads taskId raws = .ok none) :
    ∀ r ∈ raws, taskIdOf loads r ≠ some taskId := by
  induction raws with
  | nil => simp
  | cons r raws ih =>
    have hr : taskIdOf loads r ≠ some taskId := by
      intro hr
      simp [findTask_cons_eq hr] at h
    exact List.forall_mem_cons.mpr ⟨hr,ih (findTask_cons_ne h hr)⟩

def bodyOf (loads : Loads Raw) (raw : Raw) : Option Body :=
  match decodeTask loads raw with
  | .ok body => body
  | .error _ => none

def Decodes (loads : Loads Raw) (raw : Raw) : Prop := ∀ e, decodeTask loads raw ≠ .error e

theorem decodeTask_of_decodes (h : Decodes loads raw) : decodeTask loads raw = .ok (bodyOf loads raw) := by
  unfold bodyOf
  cases hr : decodeTask loads raw with
  | error e => exact absurd hr (h e)
  | ok body => rfl

theorem mapM_decodeTask {bodies : List (Option Body)} :
    raws.mapM (decodeTask loads) = .ok bodies ↔ (∀ r ∈ raws, Decodes loads r) ∧ bodies = raws.map (bodyOf loads) := by
  rw [Python.mapM_eq_ok]
  constructor
  · intro h
    induction h with
    | nil => simp
    | @cons r body raws bodies hr _ ih =>
      obtain ⟨hall,rfl⟩ := ih
      have hdecodes : Decodes loads r := by
        intro e he
        rw [hr] at he
        cases he
      refine ⟨List.forall_mem_cons.mpr ⟨hdecodes,hall⟩,?_⟩
      rw [List.map_cons,← Except.ok.inj (hr.symm.trans (decodeTask_of_decodes hdecodes))]
  · rintro ⟨hall,rfl⟩
    rw [List.forall₂_map_right_iff,List.forall₂_same]
    exact fun r hr => decodeTask_of_decodes (hall r hr)

theorem queuePage_eq_ok {queue : List Raw} {limit : ℕ} {page : QueuePage} : queuePage loads queue limit = .ok page ↔
    (∀ r ∈ queue.take limit, Decodes loads r) ∧
      page = ⟨(queue.take limit).filterMap (bodyOf loads),queue.length,
        (queue.take limit).countP fun r => (bodyOf loads r).isNone⟩ := by
  have hpage : ∀ bodies : List (Option Body), bodies = (queue.take limit).map (bodyOf loads) →
      (⟨bodies.filterMap id,queue.length,bodies.countP Option.isNone⟩ : QueuePage) =
        ⟨(queue.take limit).filterMap (bodyOf loads),queue.length,
          (queue.take limit).countP fun r => (bodyOf loads r).isNone⟩ := by
    rintro bodies rfl
    rw [List.filterMap_map,List.countP_map]
    rfl
  unfold queuePage readRaw
  cases hbodies : (queue.take limit).mapM (decodeTask loads) with
  | error e =>
    have hnot : ¬∀ r ∈ queue.take limit, Decodes loads r := by
      intro hall
      rw [mapM_decodeTask.mpr ⟨hall,rfl⟩] at hbodies
      cases hbodies
    simp [hbodies,bind,Except.bind,hnot]
  | ok bodies =>
    obtain ⟨hall,heq⟩ := mapM_decodeTask.mp hbodies
    simp only [hbodies,bind,Except.bind,pure,Except.pure,Except.ok.injEq,hpage bodies heq]
    exact ⟨fun h => ⟨hall,h.symm⟩,fun h => h.2.symm⟩

end Found

end OpsState
end Broadcaster
