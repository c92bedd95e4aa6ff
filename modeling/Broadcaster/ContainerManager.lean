import Mathlib.Data.Int.Notation
import Mathlib.Data.List.Nodup
import Mathlib.Logic.Function.Basic

/-!
# The containers of the account workers

`manage_wa_containers` and `manage_max_containers` go through the accounts with
work, inside one `try`. A Docker call for an account may raise; what it has done
to the container by then is part of the failure. Everything else succeeds.
-/

namespace Broadcaster
namespace ContainerManager

inductive Messenger
  | wa | max
  deriving DecidableEq

inductive ContainerStatus
  | created | running | paused | restarting | exited | dead
  deriving DecidableEq

/-- `NotFound`, `APIError` with status 409, any other `APIError`, and what is no `APIError`. -/
inductive DockerError
  | notFound | conflict | apiError | other
  deriving DecidableEq

def DockerError.isApiError (e : DockerError) : Bool := e ≠ .other

/-- The Docker calls for one account, in the order in which the code can make them. -/
inductive Site
  /-- `ensure_container_for_pending_work` -/
  | pendingGet
  /-- `stop_container` -/
  | stopGet | stop | stopRemove
  /-- `start_container` -/
  | get | remove | run
  | cleanup
  deriving DecidableEq

structure Failure where
  error : DockerError
  /-- what the container is like afterwards -/
  leaves : Option ContainerStatus

/-- The containers by account, and the calls that fail. -/
structure World where
  containers : ℕ → Option ContainerStatus
  failures : ℕ → Site → Option Failure

/-- What a function has done to Docker, and what it returns or raises. -/
abbrev Outcome (α : Type) := World × Except DockerError α

namespace World

def set (w : World) (account : ℕ) (c : Option ContainerStatus) : World :=
  { w with containers := Function.update w.containers account c }

def call {α : Type} (w : World) (account : ℕ) (site : Site) (answer : Outcome α) : Outcome α :=
  match w.failures account site with
  | some f => (w.set account f.leaves,.error f.error)
  | none => answer

/-- `client.containers.get(name)` -/
def get (w : World) (account : ℕ) (site : Site) : Outcome ContainerStatus :=
  w.call account site (w,match w.containers account with
    | some c => .ok c
    | none => .error .notFound)

def act (w : World) (account : ℕ) (site : Site) (c : Option ContainerStatus) : Outcome Unit :=
  w.call account site (if (w.containers account).isSome then (w.set account c,.ok ()) else (w,.error .notFound))

/-- `client.containers.run(name=name, detach=True, ...)` -/
def run (w : World) (account : ℕ) : Outcome Unit :=
  w.call account .run (if (w.containers account).isSome then (w,.error .conflict)
    else (w.set account (some .running),.ok ()))

end World

def containerPrefix : Messenger → String
  | .wa => "wa-worker-"
  | .max => "max-worker-"

def defaultPort : ℕ := 3000

def getContainerName (m : Messenger) (account : ℕ) : String := containerPrefix m ++ toString account

def containerEndpoint (containerName : String) : String :=
  "http://" ++ containerName ++ ":" ++ toString defaultPort

def endpointOf (m : Messenger) (account : ℕ) : String := containerEndpoint (getContainerName m account)

/-- The second half of `start_container`; only the one for MAX looks at the status of the error. -/
def runContainer (m : Messenger) (w : World) (account : ℕ) : Outcome (Option String) :=
  match w.run account with
  | (w,.ok _) => (w,.ok (some (endpointOf m account)))
  | (w,.error e) =>
    if e.isApiError then
      (w,.ok (if m = .max ∧ e = .conflict then some (endpointOf m account) else none))
    else (w,.error e)

def startContainer (m : Messenger) (w : World) (account : ℕ) : Outcome (Option String) :=
  match w.get account .get with
  | (w,.ok status) =>
    if status = .running then (w,.ok (some (endpointOf m account)))
    else
      match w.act account .remove none with
      | (w,.ok _) | (w,.error .notFound) => runContainer m w account
      | (w,.error e) => (w,.error e)
  | (w,.error .notFound) => runContainer m w account
  | (w,.error e) => (w,.error e)

/-- How an exception inside `stop_container` ends it. -/
def stopFailed (e : DockerError) : Except DockerError Bool :=
  if e = .notFound then .ok true else if e.isApiError then .ok false else .error e

def stopContainer (w : World) (account : ℕ) : Outcome Bool :=
  match w.get account .stopGet with
  | (w,.error e) => (w,stopFailed e)
  | (w,.ok _) =>
    match w.act account .stop (some .exited) with
    | (w,.error e) => (w,stopFailed e)
    | (w,.ok _) =>
      match w.act account .stopRemove none with
      | (w,.error e) => (w,stopFailed e)
      | (w,.ok _) => (w,.ok true)

def maxHeartbeatStaleSec : ℤ := 90

/-- `none` when the key holds no number. -/
def hasFreshHeartbeat (heartbeat : Option ℤ) (nowMs : ℤ) : Bool :=
  heartbeat.any fun t => 0 ≤ nowMs-t && nowMs-t ≤ maxHeartbeatStaleSec*1000

structure Env where
  queueLen : ℕ → ℕ
  heartbeat : ℕ → Option ℤ
  nowMs : ℕ → ℤ

variable (env : Env)

def ensureContainerForPendingWork (w : World) (account : ℕ) : Outcome (Option String) :=
  match w.get account .pendingGet with
  | (w,.error .notFound) => startContainer .max w account
  | (w,.error e) => (w,.error e)
  | (w,.ok status) =>
    if status ≠ .running then startContainer .max w account
    else if hasFreshHeartbeat (env.heartbeat account) (env.nowMs account) then
      (w,.ok (some (endpointOf .max account)))
    else
      match stopContainer w account with
      | (w,.error e) => (w,.error e)
      | (w,.ok false) => (w,.ok none)
      | (w,.ok true) => startContainer .max w account

/-- Seconds that an endpoint is kept. -/
def endpointTtl : ℕ := 420

inductive Command
  | setEndpoint (account : ℕ) (endpoint : String) (ex : ℕ)
  | deleteEndpoint (account : ℕ)
  | srem (account : ℕ)
  deriving DecidableEq

def Command.account : Command → ℕ
  | .setEndpoint account _ _ | .deleteEndpoint account | .srem account => account

structure State where
  world : World
  active : List ℕ
  commands : List Command

def State.write (s : State) (c : Command) : State where
  world := s.world
  active := match c with
    | .srem account => s.active.filter fun a => a ≠ account
    | _ => s.active
  commands := s.commands ++ [c]

def ensure (m : Messenger) (w : World) (account : ℕ) : Outcome (Option String) :=
  match m with
  | .wa => startContainer .wa w account
  | .max => ensureContainerForPendingWork env w account

/-- The body of the loop, and whether an exception leaves it. -/
def manageAccount (m : Messenger) (s : State) (account : ℕ) : State × Bool :=
  if 0 < env.queueLen account then
    match ensure env m s.world account with
    | (w,.ok (some endpoint)) =>
      (State.write { s with world := w } (.setEndpoint account endpoint endpointTtl),false)
    | (w,.ok none) =>
      match m with
      | .wa => ({ s with world := w },false)
      | .max => (State.write { s with world := w } (.deleteEndpoint account),false)
    | (w,.error _) => ({ s with world := w },true)
  else ((s.write (.srem account)).write (.deleteEndpoint account),false)

/-- `c.remove()` on the exited containers that Docker lists; the first exception that is no `APIError` ends
the task. -/
def cleanupExitedContainers (w : World) : List ℕ → World
  | [] => w
  | account::rest =>
    if w.containers account = some .exited then
      match w.act account .cleanup none with
      | (w,.error .other) => w
      | (w,_) => cleanupExitedContainers w rest
    else cleanupExitedContainers w rest

/-- The loop over the accounts, and after it the cleanup of the containers that are listed. -/
def manageAccounts (m : Messenger) (listed : List ℕ) (s : State) : List ℕ → State
  | [] => { s with world := cleanupExitedContainers s.world listed }
  | account::rest =>
    match manageAccount env m s account with
    | (s,true) => s
    | (s,false) => manageAccounts m listed s rest

/-- One run of the task; `active` are the members of the set in the order of the iteration. -/
def manageContainers (m : Messenger) (listed : List ℕ) (w : World) (active : List ℕ) : State :=
  manageAccounts env m listed ⟨w,active,[]⟩ active

def World.Healthy (w : World) (account : ℕ) : Prop := ∀ site, w.failures account site = none

def Served (m : Messenger) (account : ℕ) (s : State) : Prop :=
  if 0 < env.queueLen account then
    s.world.containers account = some .running ∧
      .setEndpoint account (endpointOf m account) endpointTtl ∈ s.commands
  else account ∉ s.active ∧ .srem account ∈ s.commands

/-- An exception leaves `start_container`: the `get` or the `remove` fails otherwise than by `NotFound`, or
the `run` fails otherwise than by an `APIError`, in the order in which these calls are made. -/
def startEscapes (failures : Site → Option Failure) (c : Option ContainerStatus) : Bool :=
  let runEscapes := (failures .run).any fun f => f.error = .other
  match failures .get with
  | some f => f.error ≠ .notFound || runEscapes
  | none =>
    match c with
    | none => runEscapes
    | some status => status ≠ .running &&
      match failures .remove with
      | some f => f.error ≠ .notFound || runEscapes
      | none => runEscapes

/-- The same for the replacement of a container without a heartbeat: the first failure on the way to its
removal is no `APIError`, or the new start fails. -/
def replaceEscapes (failures : Site → Option Failure) : Bool :=
  match [Site.stopGet,.stop,.stopRemove].findSome? failures with
  | none => startEscapes failures none
  | some f => f.error = .other || (f.error = .notFound && startEscapes failures f.leaves)

def pendingEscapes (failures : Site → Option Failure) (c : Option ContainerStatus) (fresh : Bool) : Bool :=
  match failures .pendingGet with
  | some f => f.error ≠ .notFound || startEscapes failures f.leaves
  | none => if c = some .running then !fresh && replaceEscapes failures else startEscapes failures c

/-- An exception that is made by the calls for the account leaves the loop. -/
def escapes (m : Messenger) (w : World) (account : ℕ) : Bool :=
  0 < env.queueLen account &&
    match m with
    | .wa => startEscapes (w.failures account) (w.containers account)
    | .max => pendingEscapes (w.failures account) (w.containers account)
      (hasFreshHeartbeat (env.heartbeat account) (env.nowMs account))

def raised {α : Type} (r : Outcome α) : Bool :=
  match r.2 with
  | .ok _ => false
  | .error _ => true

variable {env} {m : Messenger} {w w' : World} {account b : ℕ}

section Calls

variable {site : Site} {f : Failure} {c c' : Option ContainerStatus} {status : ContainerStatus}

@[simp] theorem set_failures (w : World) (account : ℕ) (c : Option ContainerStatus) :
    (w.set account c).failures = w.failures := rfl

@[simp] theorem set_containers (w : World) (account : ℕ) (c : Option ContainerStatus) :
    (w.set account c).containers account = c := by simp [World.set]

@[simp] theorem set_set (w : World) (account : ℕ) (c c' : Option ContainerStatus) :
    (w.set account c).set account c' = w.set account c' := by simp [World.set]

theorem get_failed (h : w.failures account site = some f) :
    w.get account site = (w.set account f.leaves,.error f.error) := by
  simp only [World.get,World.call,h]

theorem get_found (h : w.failures account site = none) (hc : w.containers account = some status) :
    w.get account site = (w,.ok status) := by
  simp only [World.get,World.call,h,hc]

theorem get_absent (h : w.failures account site = none) (hc : w.containers account = none) :
    w.get account site = (w,.error .notFound) := by
  simp only [World.get,World.call,h,hc]

theorem act_failed (h : w.failures account site = some f) :
    w.act account site c = (w.set account f.leaves,.error f.error) := by
  simp only [World.act,World.call,h]

theorem act_done (h : w.failures account site = none) (hc : w.containers account = some status) :
    w.act account site c = (w.set account c,.ok ()) := by
  simp only [World.act,World.call,h,hc,Option.isSome_some,if_true]

theorem run_started (h : w.failures account .run = none) (hc : w.containers account = none) :
    w.run account = (w.set account (some .running),.ok ()) := by
  simp only [World.run,World.call,h,hc,Option.isSome_none,Bool.false_eq_true,if_false]

end Calls

theorem raised_run (m : Messenger) (w : World) (account : ℕ) : raised (runContainer m w account) =
    (w.failures account .run).any fun f => f.error = .other := by
  unfold runContainer World.run World.call
  cases w.failures account .run with
  | some f =>
    obtain ⟨e,leaves⟩ := f
    cases e <;> rfl
  | none => cases w.containers account <;> rfl

theorem raised_start (m : Messenger) (w : World) (account : ℕ) : raised (startContainer m w account) =
    startEscapes (w.failures account) (w.containers account) := by
  cases hget : w.failures account .get with
  | some f =>
    obtain ⟨e,leaves⟩ := f
    simp only [startContainer,startEscapes,get_failed hget,hget]
    cases e with
    | notFound => simp [raised_run]
    | _ => rfl
  | none =>
    cases hc : w.containers account with
    | none =>
      simp only [startContainer,startEscapes,get_absent hget hc,hget]
      exact raised_run m w account
    | some status =>
      by_cases hrunning : status = .running
      · simp [startContainer,startEscapes,get_found hget hc,hget,hrunning,raised]
      · simp only [startContainer,startEscapes,get_found hget hc,hget,if_neg hrunning]
        cases hremove : w.failures account .remove with
        | some f =>
          obtain ⟨e,leaves⟩ := f
          rw [act_failed hremove]
          cases e with
          | notFound => simp [hrunning,raised_run]
          | _ => simp [hrunning,raised]
        | none =>
          rw [act_done hremove hc]
          simp [hrunning,raised_run]

/-- `stop_container` on a container that is there: what the first failure does to it. -/
theorem stopContainer_eq {status : ContainerStatus} (hc : w.containers account = some status) :
    stopContainer w account =
      match [Site.stopGet,.stop,.stopRemove].findSome? (w.failures account) with
      | some f => (w.set account f.leaves,stopFailed f.error)
      | none => (w.set account none,.ok true) := by
  unfold stopContainer
  cases hget : w.failures account .stopGet with
  | some f => simp only [get_failed hget,List.findSome?_cons,hget]
  | none =>
    simp only [get_found hget hc,List.findSome?_cons,hget]
    cases hstop : w.failures account .stop with
    | some f => simp only [act_failed hstop]
    | none =>
      have hexited : (w.set account (some .exited)).containers account = some .exited := set_containers w _ _
      simp only [act_done hstop hc]
      cases hremove : w.failures account .stopRemove with
      | some f => simp only [act_failed (w := w.set account (some .exited)) hremove,set_set]
      | none => simp only [act_done (w := w.set account (some .exited)) hremove hexited,set_set,List.findSome?_nil]

theorem raised_replace (w : World) (account : ℕ) (hc : w.containers account = some .running) :
    raised (match stopContainer w account with
      | (w,.error e) => (w,.error e)
      | (w,.ok false) => (w,.ok none)
      | (w,.ok true) => startContainer .max w account) = replaceEscapes (w.failures account) := by
  rw [stopContainer_eq hc,replaceEscapes]
  cases [Site.stopGet,.stop,.stopRemove].findSome? (w.failures account) with
  | none => simp [raised_start]
  | some f =>
    obtain ⟨e,leaves⟩ := f
    cases e with
    | notFound => simp [stopFailed,raised_start]
    | _ => rfl

theorem raised_ensurePending (w : World) (account : ℕ) :
    raised (ensureContainerForPendingWork env w account) = pendingEscapes (w.failures account)
      (w.containers account) (hasFreshHeartbeat (env.heartbeat account) (env.nowMs account)) := by
  unfold ensureContainerForPendingWork
  cases hget : w.failures account .pendingGet with
  | some f =>
    obtain ⟨e,leaves⟩ := f
    simp only [pendingEscapes,get_failed hget,hget]
    cases e with
    | notFound => simp [raised_start]
    | _ => rfl
  | none =>
    simp only [pendingEscapes,hget]
    cases hc : w.containers account with
    | none => simp [get_absent hget hc,raised_start,hc]
    | some status =>
      simp only [get_found hget hc,Option.some.injEq]
      by_cases hrunning : status = .running
      · subst hrunning
        simp only [ne_eq,not_true_eq_false,if_false,if_true]
        cases hasFreshHeartbeat (env.heartbeat account) (env.nowMs account) with
        | true => rfl
        | false =>
          simp only [Bool.false_eq_true,if_false,Bool.not_false,Bool.true_and]
          exact raised_replace w account hc
      · simp only [ne_eq,hrunning,not_false_eq_true,if_true,if_false]
        rw [raised_start,hc]

theorem raised_ensure (m : Messenger) (w : World) (account : ℕ) :
    (decide (0 < env.queueLen account) && raised (ensure env m w account)) = escapes env m w account := by
  cases m with
  | wa => rw [ensure,raised_start,escapes]
  | max => rw [ensure,raised_ensurePending,escapes]

/-- Nothing but the container of the account has changed. -/
structure Only (account : ℕ) (w w' : World) : Prop where
  failures : w'.failures = w.failures
  containers : ∀ b, b ≠ account → w'.containers b = w.containers b

theorem Only.refl (account : ℕ) (w : World) : Only account w w := ⟨rfl,fun _ _ => rfl⟩

theorem Only.trans {w₁ w₂ w₃ : World} (h : Only account w₁ w₂) (h' : Only account w₂ w₃) :
    Only account w₁ w₃ :=
  ⟨h'.failures.trans h.failures,fun b hb => (h'.containers b hb).trans (h.containers b hb)⟩

theorem only_set (w : World) (account : ℕ) (c : Option ContainerStatus) : Only account w (w.set account c) :=
  ⟨rfl,fun _ hb => Function.update_of_ne hb _ _⟩

theorem only_call {α : Type} {site : Site} {answer : Outcome α} (h : Only account w answer.1) :
    Only account w (w.call account site answer).1 := by
  unfold World.call
  split
  · exact only_set w account _
  · exact h

theorem only_get (w : World) (account : ℕ) (site : Site) : Only account w (w.get account site).1 :=
  only_call (Only.refl account w)

theorem only_act (w : World) (account : ℕ) (site : Site) (c : Option ContainerStatus) :
    Only account w (w.act account site c).1 := by
  refine only_call ?_
  split
  · exact only_set w account c
  · exact Only.refl account w

theorem only_run (w : World) (account : ℕ) : Only account w (w.run account).1 := by
  refine only_call ?_
  split
  · exact Only.refl account w
  · exact only_set w account _

theorem only_runContainer (m : Messenger) : Only account w (runContainer m w account).1 := by
  have hrun := only_run w account
  unfold runContainer
  split
  · rename_i heq
    rwa [heq] at hrun
  · rename_i heq
    rw [heq] at hrun
    split <;> exact hrun

theorem only_startContainer (m : Messenger) : Only account w (startContainer m w account).1 := by
  have hget := only_get w account .get
  unfold startContainer
  split
  · rename_i w₁ status heq
    rw [heq] at hget
    split
    · exact hget
    · have hact := only_act w₁ account .remove none
      split
      · rename_i heq
        rw [heq] at hact
        exact (hget.trans hact).trans (only_runContainer m)
      · rename_i heq
        rw [heq] at hact
        exact (hget.trans hact).trans (only_runContainer m)
      · rename_i heq
        rw [heq] at hact
        exact hget.trans hact
  · rename_i heq
    rw [heq] at hget
    exact hget.trans (only_runContainer m)
  · rename_i heq
    rwa [heq] at hget

theorem only_stopContainer (w : World) (account : ℕ) : Only account w (stopContainer w account).1 := by
  have hget := only_get w account .stopGet
  unfold stopContainer
  split
  · rename_i heq
    rwa [heq] at hget
  · rename_i w₁ _ heq
    rw [heq] at hget
    have hstop := only_act w₁ account .stop (some .exited)
    split
    · rename_i heq
      rw [heq] at hstop
      exact hget.trans hstop
    · rename_i w₂ _ heq
      rw [heq] at hstop
      have hremove := only_act w₂ account .stopRemove none
      split <;> rename_i heq <;> rw [heq] at hremove <;> exact (hget.trans hstop).trans hremove

theorem only_ensure (env : Env) (w : World) (account : ℕ) (m : Messenger) : Only account w (ensure env m w account).1 := by
  cases m with
  | wa => exact only_startContainer .wa
  | max =>
    have hget := only_get w account .pendingGet
    simp only [ensure,ensureContainerForPendingWork]
    split
    · rename_i heq
      rw [heq] at hget
      exact hget.trans (only_startContainer .max)
    · rename_i heq
      rwa [heq] at hget
    · rename_i w₁ status heq
      rw [heq] at hget
      split
      · exact hget.trans (only_startContainer .max)
      · split
        · exact hget
        · have hstop := only_stopContainer w₁ account
          split <;> rename_i heq <;> rw [heq] at hstop
          · exact hget.trans hstop
          · exact hget.trans hstop
          · exact (hget.trans hstop).trans (only_startContainer .max)

structure Untouched (b : ℕ) (s s' : State) : Prop where
  failures : s'.world.failures = s.world.failures
  container : s'.world.containers b = s.world.containers b
  active : b ∈ s'.active ↔ b ∈ s.active
  commands : ∀ c : Command, c.account = b → (c ∈ s'.commands ↔ c ∈ s.commands)

theorem Untouched.trans {s₁ s₂ s₃ : State} (h : Untouched b s₁ s₂) (h' : Untouched b s₂ s₃) :
    Untouched b s₁ s₃ :=
  ⟨h'.failures.trans h.failures,h'.container.trans h.container,h'.active.trans h.active,
    fun c hc => (h'.commands c hc).trans (h.commands c hc)⟩

theorem untouched_only {s : State} (h : Only account s.world w) (hb : b ≠ account) :
    Untouched b s { s with world := w } :=
  ⟨h.failures,h.containers b hb,Iff.rfl,fun _ _ => Iff.rfl⟩

theorem untouched_write (s : State) (c : Command) (hb : b ≠ c.account) : Untouched b s (s.write c) := by
  refine ⟨rfl,rfl,?_,fun d hd => ?_⟩
  · cases c with
    | srem account =>
      have hne : b ≠ account := hb
      simp [State.write,hne]
    | setEndpoint account endpoint ex => exact Iff.rfl
    | deleteEndpoint account => exact Iff.rfl
  · have hne : d ≠ c := by
      rintro rfl
      exact hb hd.symm
    simp [State.write,hne]

theorem untouched_manageAccount (env : Env) (m : Messenger) (s : State) (hb : b ≠ account) :
    Untouched b s (manageAccount env m s account).1 := by
  unfold manageAccount
  split
  · have honly := only_ensure env s.world account m
    split
    · rename_i w' endpoint heq
      rw [heq] at honly
      have hwrite := untouched_write { s with world := w' } (.setEndpoint account endpoint endpointTtl) hb
      exact (untouched_only honly hb).trans hwrite
    · rename_i w' heq
      rw [heq] at honly
      split
      · exact untouched_only honly hb
      · have hwrite := untouched_write { s with world := w' } (.deleteEndpoint account) hb
        exact (untouched_only honly hb).trans hwrite
    · rename_i heq
      rw [heq] at honly
      exact untouched_only honly hb
  · have hsrem := untouched_write s (.srem account) hb
    exact hsrem.trans (untouched_write (s.write (.srem account)) (.deleteEndpoint account) hb)

theorem runContainer_healthy (m : Messenger) (h : w.Healthy account) (hc : w.containers account = none) :
    runContainer m w account = (w.set account (some .running),.ok (some (endpointOf m account))) := by
  simp only [runContainer,run_started (h .run) hc]

theorem startContainer_healthy (m : Messenger) (h : w.Healthy account) :
    ∃ w', startContainer m w account = (w',.ok (some (endpointOf m account))) ∧
      w'.containers account = some .running := by
  cases hc : w.containers account with
  | none =>
    refine ⟨w.set account (some .running),?_,set_containers w account _⟩
    simp only [startContainer,get_absent (h .get) hc,runContainer_healthy m h hc]
  | some status =>
    by_cases hrunning : status = .running
    · exact ⟨w,by simp only [startContainer,get_found (h .get) hc,hrunning,if_true],by rw [hc,hrunning]⟩
    · have hremoved : (w.set account none).Healthy account := h
      refine ⟨w.set account (some .running),?_,set_containers w account _⟩
      simp only [startContainer,get_found (h .get) hc,if_neg hrunning,act_done (h .remove) hc,
        runContainer_healthy m hremoved (set_containers w account none),set_set]

theorem ensure_healthy (env : Env) (m : Messenger) (h : w.Healthy account) :
    ∃ w', ensure env m w account = (w',.ok (some (endpointOf m account))) ∧
      w'.containers account = some .running := by
  cases m with
  | wa => exact startContainer_healthy .wa h
  | max =>
    simp only [ensure,ensureContainerForPendingWork]
    cases hc : w.containers account with
    | none =>
      rw [get_absent (h .pendingGet) hc]
      exact startContainer_healthy .max h
    | some status =>
      rw [get_found (h .pendingGet) hc]
      by_cases hrunning : status = .running
      · subst hrunning
        simp only [ne_eq,not_true_eq_false,if_false]
        split
        · exact ⟨w,rfl,hc⟩
        · have hnone : [Site.stopGet,.stop,.stopRemove].findSome? (w.failures account) = none := by
            simp [h .stopGet,h .stop,h .stopRemove]
          rw [stopContainer_eq hc,hnone]
          have hremoved : (w.set account none).Healthy account := h
          exact startContainer_healthy .max hremoved
      · simp only [ne_eq,hrunning,not_false_eq_true,if_true]
        exact startContainer_healthy .max h

theorem manageAccount_healthy (env : Env) (m : Messenger) {s : State} (h : s.world.Healthy account) :
    (manageAccount env m s account).2 = false ∧ Served env m account (manageAccount env m s account).1 := by
  unfold Served manageAccount
  by_cases hq : 0 < env.queueLen account
  · obtain ⟨w',hensure,hrunning⟩ := ensure_healthy env m h
    simp only [if_pos hq,hensure,State.write,hrunning,List.mem_append,List.mem_singleton,or_true,and_self]
  · simp [if_neg hq,State.write]

theorem manageAccount_escapes (env : Env) (m : Messenger) (s : State) (account : ℕ) :
    (manageAccount env m s account).2 = escapes env m s.world account := by
  rw [← raised_ensure]
  unfold manageAccount raised
  by_cases hq : 0 < env.queueLen account
  · simp only [if_pos hq,decide_eq_true hq,Bool.true_and]
    split
    · rename_i heq
      rw [heq]
    · rename_i heq
      rw [heq]
      cases m <;> rfl
    · rename_i heq
      rw [heq]
  · simp [hq]

theorem untouched_healthy {s s' : State} (h : Untouched account s s') (hs : s.world.Healthy account) :
    s'.world.Healthy account := by
  intro site
  rw [h.failures]
  exact hs site

theorem untouched_escapes {s s' : State} (h : Untouched account s s') :
    escapes env m s'.world account = escapes env m s.world account := by
  unfold escapes
  rw [h.failures,h.container]

theorem untouched_served {s s' : State} (h : Untouched account s s') (hs : Served env m account s) :
    Served env m account s' := by
  unfold Served at hs ⊢
  split
  · rename_i hq
    rw [if_pos hq] at hs
    exact ⟨by rw [h.container]; exact hs.1,(h.commands _ rfl).mpr hs.2⟩
  · rename_i hq
    rw [if_neg hq] at hs
    exact ⟨fun hactive => hs.1 (h.active.mp hactive),(h.commands _ rfl).mpr hs.2⟩

theorem cleanup_running (listed : List ℕ) (hc : w.containers account = some .running) :
    (cleanupExitedContainers w listed).containers account = some .running := by
  induction listed generalizing w with
  | nil => exact hc
  | cons b rest ih =>
    unfold cleanupExitedContainers
    split
    · rename_i hexited
      have hne : account ≠ b := by
        rintro rfl
        rw [hc] at hexited
        cases hexited
      have hact := only_act w b .cleanup none
      split <;> rename_i heq <;> rw [heq] at hact
      · rw [hact.containers account hne,hc]
      · exact ih (by rw [hact.containers account hne,hc])
    · exact ih hc

theorem served_cleanup {s : State} (listed : List ℕ) (hs : Served env m account s) :
    Served env m account { s with world := cleanupExitedContainers s.world listed } := by
  unfold Served at hs ⊢
  split
  · rename_i hq
    rw [if_pos hq] at hs
    exact ⟨cleanup_running listed hs.1,hs.2⟩
  · rename_i hq
    rwa [if_neg hq] at hs

theorem served_manageAccounts (listed accounts : List ℕ) {s : State} (haccount : account ∉ accounts)
    (hs : Served env m account s) : Served env m account (manageAccounts env m listed s accounts) := by
  induction accounts generalizing s with
  | nil => exact served_cleanup listed hs
  | cons b rest ih =>
    obtain ⟨hb,hrest⟩ := List.ne_and_not_mem_of_not_mem_cons haccount
    have hframe := untouched_manageAccount env m s hb
    unfold manageAccounts
    split <;> rename_i heq <;> rw [heq] at hframe
    · exact untouched_served hframe hs
    · exact ih hrest (untouched_served hframe hs)

/-- The loop reaches a healthy account when no exception leaves it before. -/
theorem served_of_reached (listed : List ℕ) {accounts : List ℕ} (hnodup : accounts.Nodup) {s : State}
    (hmem : account ∈ accounts) (h : s.world.Healthy account)
    (hreached : ∀ pre b post, accounts = pre ++ b::post → escapes env m s.world b = true →
      account ∉ post) : Served env m account (manageAccounts env m listed s accounts) := by
  induction accounts generalizing s with
  | nil => cases hmem
  | cons b rest ih =>
    obtain ⟨hb,hrest⟩ := List.nodup_cons.mp hnodup
    unfold manageAccounts
    by_cases hab : account = b
    · subst hab
      obtain ⟨hquiet,hserved⟩ := manageAccount_healthy env m h
      split
      · rename_i heq
        rw [heq] at hquiet
        cases hquiet
      · rename_i heq
        rw [heq] at hserved
        exact served_manageAccounts listed rest hb hserved
    · have hmem : account ∈ rest := (List.mem_cons.mp hmem).resolve_left hab
      have hframe := untouched_manageAccount env m s hab
      have hescapes := manageAccount_escapes env m s b
      split
      · rename_i heq
        rw [heq] at hescapes
        exact absurd hmem (hreached [] b rest rfl hescapes.symm)
      · rename_i s' heq
        rw [heq] at hframe
        refine ih hrest hmem (untouched_healthy hframe h) fun pre c post hsplit hc => ?_
        have hcb : c ≠ b := by
          rintro rfl
          exact hb (by rw [hsplit]; simp)
        have hcframe := untouched_manageAccount env m s hcb
        rw [heq] at hcframe
        rw [untouched_escapes hcframe] at hc
        exact hreached (b::pre) c post (by rw [hsplit]; rfl) hc

/-- Nothing is done for the accounts after one at which an exception leaves the loop. -/
theorem commands_of_escaped (env : Env) (m : Messenger) (listed : List ℕ) {pre post : List ℕ} {s : State}
    (hnodup : (pre ++ b::post).Nodup) (hescapes : escapes env m s.world b = true) (hmem : account ∈ post)
    (c : Command) (hc : c.account = account) :
    c ∈ (manageAccounts env m listed s (pre ++ b::post)).commands ↔ c ∈ s.commands := by
  induction pre generalizing s with
  | nil =>
    have hab : account ≠ b := by
      rintro rfl
      exact (List.nodup_cons.mp hnodup).1 hmem
    have hframe := untouched_manageAccount env m s hab
    have hraised := manageAccount_escapes env m s b
    rw [hescapes] at hraised
    simp only [List.nil_append,manageAccounts]
    split
    · rename_i heq
      rw [heq] at hframe
      exact hframe.commands c hc
    · rename_i heq
      rw [heq] at hraised
      cases hraised
  | cons d pre ih =>
    obtain ⟨hd,hnodup⟩ := List.nodup_cons.mp hnodup
    have had : account ≠ d := by
      rintro rfl
      exact hd (by simp [hmem])
    have hbd : b ≠ d := by
      rintro rfl
      exact hd (by simp)
    have hframe := untouched_manageAccount env m s had
    have hbframe := untouched_manageAccount env m s hbd
    simp only [List.cons_append,manageAccounts]
    split
    · rename_i heq
      rw [heq] at hframe
      exact hframe.commands c hc
    · rename_i heq
      rw [heq] at hframe hbframe
      rw [ih hnodup (by rw [untouched_escapes hbframe]; exact hescapes)]
      exact hframe.commands c hc

/-- A run serves every healthy account exactly when no healthy account comes after one whose failing call
leaves the loop. -/
theorem others_served_iff (env : Env) (m : Messenger) (listed : List ℕ) (w : World) (active : List ℕ)
    (hnodup : active.Nodup) :
    (∀ account ∈ active, w.Healthy account →
      Served env m account (manageContainers env m listed w active)) ↔
    ∀ pre b post, active = pre ++ b::post → escapes env m w b = true →
      ∀ account ∈ post, ¬ w.Healthy account := by
  constructor
  · intro hall pre b post hsplit hescapes account hmem hhealthy
    have hserved := hall account (by rw [hsplit]; simp [hmem]) hhealthy
    subst hsplit
    have hcommands := commands_of_escaped env m listed (s := ⟨w,pre ++ b::post,[]⟩) hnodup
      hescapes hmem
    unfold Served at hserved
    split at hserved
    · exact absurd ((hcommands _ rfl).mp hserved.2) List.not_mem_nil
    · exact absurd ((hcommands _ rfl).mp hserved.2) List.not_mem_nil
  · intro hcond account hmem hhealthy
    exact served_of_reached listed hnodup hmem hhealthy fun pre b post hsplit hescapes hpost =>
      hcond pre b post hsplit hescapes account hpost hhealthy

def someWork : Env where
  queueLen := fun account => if account = 3 then 0 else 5
  heartbeat := fun _ => none
  nowMs := fun _ => 0

def brokenAt (site : Site) : World where
  containers := fun _ => none
  failures := fun account s => if account = 1 ∧ s = site then some ⟨.apiError,none⟩ else none

theorem brokenAt_healthy (site : Site) {account : ℕ} (h : account ≠ 1) : (brokenAt site).Healthy account := by
  intro s
  simp [brokenAt,h]

/-- The `run` of account 1 fails, which is caught. -/
theorem others_served_iff_run : Served someWork .wa 2 (manageContainers someWork .wa [] (brokenAt .run) [1,2,3]) ∧
    Served someWork .wa 3 (manageContainers someWork .wa [] (brokenAt .run) [1,2,3]) := by
  have hquiet : ∀ b ∈ [1,2,3], escapes someWork .wa (brokenAt .run) b = false := by decide
  have hserved := (others_served_iff someWork .wa [] (brokenAt .run) [1,2,3] (by decide)).mpr
    fun pre b post hsplit hescapes => by
      have hb : b ∈ [1,2,3] := by
        rw [hsplit]
        simp
      rw [hquiet b hb] at hescapes
      cases hescapes
  exact ⟨hserved 2 (by decide) (brokenAt_healthy .run (by decide)),
    hserved 3 (by decide) (brokenAt_healthy .run (by decide))⟩

/-- The `get` of account 1 fails, which is not caught. -/
theorem broken_account_stops_others : ¬ ∀ (env : Env) (m : Messenger) (listed : List ℕ) (w : World)
    (active : List ℕ), active.Nodup → ∀ account ∈ active, w.Healthy account →
    Served env m account (manageContainers env m listed w active) := by
  intro hall
  have hserved := hall someWork .wa [] (brokenAt .get) [1,2,3] (by decide) 3 (by decide)
    (brokenAt_healthy .get (by decide))
  have hactive : 3 ∈ (manageContainers someWork .wa [] (brokenAt .get) [1,2,3]).active := by decide
  exact hserved.1 hactive

end ContainerManager
end Broadcaster
