import Broadcaster.Interleaving
import Broadcaster.TaskConservation

/-!
# The queues of the accounts and who looks after them

`dispatch_send_tasks` fills the queue of an account and adds the account to the
active set. `manage_wa_containers` and `manage_max_containers` walk through that
set: they start a worker for a queue that is not empty, and take an account with
an empty queue out of the set. The worker itself never touches the set.
-/

namespace Broadcaster
namespace QueueManager

open AccountWorker Interleaving

/-- What the two managers do differently. -/
structure Manager where
  messenger : Messenger
  /-- `ensure_container_for_pending_work` replaces a worker without a fresh heartbeat. -/
  ensures : Bool

def manageWaContainers (idleShutdownSec : ℤ) : Manager := ⟨waWorker idleShutdownSec,false⟩

def manageMaxContainers (idleShutdownSec : ℤ) (rateLimitPerMinute : ℕ) : Manager :=
  ⟨maxWorker idleShutdownSec rateLimitPerMinute,true⟩

/-- The queue of an account is that of its worker, which is `exited` when no container runs. -/
structure Db where
  account : ℕ → Worker
  active : List ℕ

inductive Pc
  /-- the pipeline of `dispatch_send_tasks` -/
  | dispatch (batch : List (ℕ × List Task))
  /-- `smembers` -/
  | pass
  /-- `llen` of the first of these accounts -/
  | accounts (rest : List ℕ)
  | counted (n queueLen : ℕ) (rest : List ℕ)
  | stop (n : ℕ) (rest : List ℕ)
  | stopping (n : ℕ) (rest : List ℕ)
  | start (n : ℕ) (rest : List ℕ)
  | done
  | worker (n : ℕ)

structure Inp where
  now : ℤ
  ok : Bool
  freshHeartbeat : Bool
  error : Option String
  delivered : Bool
  /-- The worker process ends, if it is shutting down. -/
  exit : Bool

namespace Db

def setWorker (db : Db) (n : ℕ) (w : Worker) : Db := { db with account := Function.update db.account n w }

def queue (db : Db) (n : ℕ) : List Task := (db.account n).queue

def running (db : Db) (n : ℕ) : Bool := (db.account n).pc ≠ .exited

def sadd (db : Db) (n : ℕ) : Db :=
  { db with active := if n ∈ db.active then db.active else db.active ++ [n] }

def srem (db : Db) (n : ℕ) : Db := { db with active := db.active.filter fun k => k ≠ n }

/-- The `rpush` commands of one account and its `sadd`. -/
def dispatchAccount (db : Db) (entry : ℕ × List Task) : Db :=
  (db.setWorker entry.1 { db.account entry.1 with
    queue := db.queue entry.1 ++ entry.2 }).sadd entry.1

def dispatch (db : Db) (batch : List (ℕ × List Task)) : Db := batch.foldl dispatchAccount db

/-- A container that starts on what is in the queue. -/
def startWorker (db : Db) (n : ℕ) (now : ℤ) : Db := db.setWorker n { db.account n with
  pc := .blpop
  timestamps := []
  lastTaskTime := now
  consumerRunning := true
  shuttingDown := false }

def signalWorker (db : Db) (n : ℕ) : Db :=
  if (db.account n).shuttingDown then db else db.setWorker n (db.account n).beginShutdown

/-- A container that is shutting down and does not end in time. -/
def killWorker (db : Db) (n : ℕ) : Db :=
  if (db.account n).shuttingDown then db.setWorker n { db.account n with pc := .exited } else db

end Db

variable (M : Manager)

def workerMove (w : Worker) (inp : Inp) : Option Worker :=
  if inp.exit then next M.messenger w .exit
  else next M.messenger w (.consumer ⟨inp.now,.ok,inp.error,inp.delivered⟩)

def step (db : Db) (pc : Pc) (inp : Inp) : Option (Db × Pc) :=
  match pc with
  | .dispatch batch => some (db.dispatch batch,.done)
  | .pass => some (db,if inp.ok then .accounts db.active else .done)
  | .accounts [] => some (db,.done)
  | .accounts (n::rest) => some (db,if inp.ok then .counted n (db.queue n).length rest else .done)
  | .counted n queueLen rest =>
    if !inp.ok then some (db,.done)
    else if 0 < queueLen then
      if M.ensures && db.running n then
        some (db,if inp.freshHeartbeat then .accounts rest else .stop n rest)
      else some (db,.start n rest)
    else some (db.srem n,.accounts rest)
  | .stop n rest =>
    if inp.ok then some (if db.running n then db.signalWorker n else db,.stopping n rest)
    else some (db,.accounts rest)
  | .stopping n rest => some (db.killWorker n,if inp.ok then .start n rest else .accounts rest)
  | .start n rest =>
    some (if !db.running n && inp.ok then db.startWorker n inp.now else db,.accounts rest)
  | .done => none
  | .worker n => (workerMove M (db.account n) inp).map fun w => (db.setWorker n w,.worker n)

def machine : Machine Db Pc Inp where
  step := fun db _ pc inp => step M db pc inp

def Pc.managing : Pc → Bool
  | .accounts _ | .counted .. | .stop .. | .stopping .. | .start .. => true
  | .dispatch _ | .pass | .done | .worker _ => false

/-- Dispatches and passes that have not begun, and the containers of the accounts. -/
def Pc.initial : Pc → Bool
  | .dispatch _ | .pass | .done | .worker _ => true
  | .accounts _ | .counted .. | .stop .. | .stopping .. | .start .. => false

structure Initial (c : Config Db Pc) : Prop where
  queue : ∀ n, c.db.queue n = []
  stopped : ∀ n, c.db.running n = false
  processes : ∀ i, (c.pc i).initial = true

/-- A worker that goes on until its queue is empty. -/
def serving (w : Worker) : Bool :=
  w.pc ≠ .stopped && w.pc ≠ .exited && w.consumerRunning && !w.shuttingDown

/-- A task in the queue or in the hands of the consumer. -/
def pending (w : Worker) : Bool := !w.queue.isEmpty || !w.pc.hands.isEmpty

/-- An account leaves the set when nothing of it is pending or a worker serves it, and a worker of an
account with pending tasks is stopped only while the account is in the set. -/
def looksTwice (c : Config Db Pc) (move : Move Inp) : Prop :=
  match c.pc move.1 with
  | .counted n queueLen _ => move.2.ok = true → queueLen = 0 →
    pending (c.db.account n) = false ∨ serving (c.db.account n) = true
  | .stop n _ => move.2.ok = true → c.db.running n = true →
    n ∈ c.db.active ∨ pending (c.db.account n) = false
  | _ => True

instance (c : Config Db Pc) (move : Move Inp) : Decidable (looksTwice c move) := by
  unfold looksTwice
  split <;> infer_instance

def Attended (db : Db) (n : ℕ) : Prop :=
  pending (db.account n) = true → n ∈ db.active ∨ serving (db.account n) = true

variable {M : Manager} {db : Db} {w w' : Worker} {n : ℕ} {inp : Inp}

theorem pending_iff : pending w = true ↔ w.queue ≠ [] ∨ w.pc.hands ≠ [] := by
  simp [pending]

theorem pending_again (w : Worker) : pending w.again = !w.queue.isEmpty := by
  unfold pending
  rw [again_hands,again_queue]
  simp

theorem serving_of_flags (h : serving w = true) (hrunning : w'.consumerRunning = w.consumerRunning)
    (hshutting : w'.shuttingDown = w.shuttingDown) (hpc : w'.pc ≠ .stopped ∧ w'.pc ≠ .exited) :
    serving w' = true := by
  simp only [serving,Bool.and_eq_true,decide_eq_true_eq] at h ⊢
  rw [hrunning,hshutting]
  exact ⟨⟨hpc,h.1.2⟩,h.2⟩

theorem serving_again (h : serving w = true) : serving w.again = true := by
  have hrunning : w.consumerRunning = true := by
    simp only [serving,Bool.and_eq_true] at h
    exact h.1.2
  exact serving_of_flags h rfl rfl (by simp [Worker.again,hrunning])

theorem afterSend_pc (m : Messenger) (t : Task) (now : ℤ) (error : Option String) :
    afterSend m t now error ≠ .stopped ∧ afterSend m t now error ≠ .exited := by
  have hhands := afterSend_hands (m := m) t now error
  constructor <;> intro he <;> rw [he] at hhands <;> cases hhands

theorem consume_pending {m : Messenger} {input : Input} (hredis : input.redis = .ok)
    (h : consume m w input = some w') (hpending : pending w' = true) :
    pending w = true ∧ (serving w = true → serving w' = true) := by
  cases consumed_of_consume hredis h with
  | idle hpc hqueue =>
    simp [pending,Worker.idleShutdown,Worker.beginShutdown,hqueue,Pc.hands] at hpending
  | again hpc =>
    rw [pending_again] at hpending
    exact ⟨pending_iff.mpr (.inl (by simpa using hpending)),serving_again⟩
  | taken hpc hqueue hnext =>
    refine ⟨pending_iff.mpr (.inl (by simp [hqueue])),fun hserving => ?_⟩
    exact serving_of_flags hserving rfl rfl (by rcases hnext with rfl | rfl <;> simp)
  | requeued hpc =>
    refine ⟨pending_iff.mpr (.inr (by simp [hpc,Pc.hands])),fun hserving => ?_⟩
    apply serving_again
    exact serving_of_flags hserving rfl rfl (by simp [Worker.push,hpc])
  | limited timestamps hpc hnext =>
    refine ⟨pending_iff.mpr (.inr (by simp [hpc,Pc.hands])),fun hserving => ?_⟩
    exact serving_of_flags hserving rfl rfl (by rcases hnext with rfl | rfl <;> simp)
  | @sent t hpc =>
    refine ⟨pending_iff.mpr (.inr (by simp [hpc,Pc.hands])),fun hserving => ?_⟩
    exact serving_of_flags hserving rfl rfl (afterSend_pc m t _ _)
  | published hpc =>
    refine ⟨pending_iff.mpr (.inr (by simp [hpc,Pc.hands])),fun hserving => ?_⟩
    exact serving_of_flags hserving rfl rfl (by simp)
  | retried hpc =>
    refine ⟨pending_iff.mpr (.inr (by simp [hpc,Pc.hands])),fun hserving => ?_⟩
    exact serving_of_flags hserving rfl rfl (by simp)

theorem workerMove_pending (h : workerMove M w inp = some w') (hpending : pending w' = true) :
    pending w = true ∧ (serving w = true → serving w' = true) := by
  unfold workerMove at h
  split at h
  · simp only [AccountWorker.next] at h
    split at h
    · rename_i hexit
      cases h
      refine ⟨?_,fun hserving => ?_⟩
      · rw [pending_iff] at hpending ⊢
        exact hpending.imp id (fun he => absurd rfl he)
      · simp only [serving,Bool.and_eq_true] at hserving hexit
        simp [hexit.1] at hserving
    · cases h
  · exact consume_pending rfl h hpending

theorem setWorker_account (db : Db) (n k : ℕ) (w : Worker) :
    (db.setWorker n w).account k = if k = n then w else db.account k := by
  unfold Db.setWorker
  simp only
  split
  · rename_i he
    rw [he,Function.update_self]
  · rename_i hne
    rw [Function.update_of_ne hne]

theorem attended_setWorker (h : ∀ k, Attended db k)
    (hn : pending w = true → n ∈ db.active ∨ serving w = true) (k : ℕ) : Attended (db.setWorker n w) k := by
  unfold Attended
  rw [setWorker_account]
  split
  · rename_i he
    rw [he]
    exact hn
  · exact h k

theorem mem_sadd (db : Db) (n : ℕ) : n ∈ (db.sadd n).active := by
  unfold Db.sadd
  simp only
  split
  · assumption
  · exact List.mem_append_right _ (List.mem_singleton_self _)

theorem mem_sadd_of_mem {k : ℕ} (h : k ∈ db.active) : k ∈ (db.sadd n).active := by
  unfold Db.sadd
  simp only
  split
  · exact h
  · exact List.mem_append_left _ h

theorem attended_dispatchAccount (h : ∀ k, Attended db k) (entry : ℕ × List Task) (k : ℕ) :
    Attended (db.dispatchAccount entry) k := by
  by_cases hk : k = entry.1
  · exact fun _ => .inl (hk ▸ mem_sadd _ _)
  · intro hpending
    have hsame : (db.dispatchAccount entry).account k = db.account k := by
      unfold Db.dispatchAccount Db.sadd
      rw [setWorker_account,if_neg hk]
    rw [hsame] at hpending ⊢
    exact (h k hpending).imp mem_sadd_of_mem id

theorem attended_dispatch (batch : List (ℕ × List Task)) (h : ∀ k, Attended db k) (k : ℕ) :
    Attended (db.dispatch batch) k := by
  induction batch generalizing db with
  | nil => exact h k
  | cons entry batch ih => exact ih (attended_dispatchAccount h entry)

theorem attended_srem (h : ∀ k, Attended db k)
    (hn : pending (db.account n) = false ∨ serving (db.account n) = true) (k : ℕ) :
    Attended (db.srem n) k := by
  intro hpending
  by_cases hk : k = n
  · subst hk
    rcases hn with hn | hn
    · rw [show (db.srem k).account k = db.account k from rfl,hn] at hpending
      cases hpending
    · exact .inr hn
  · refine (h k hpending).imp (fun hmem => ?_) id
    exact List.mem_filter.mpr ⟨hmem,by simpa using hk⟩

theorem attended_startWorker (h : ∀ k, Attended db k) (now : ℤ) (k : ℕ) :
    Attended (db.startWorker n now) k :=
  attended_setWorker h (fun _ => .inr rfl) k

theorem attended_signalWorker (h : ∀ k, Attended db k)
    (hn : n ∈ db.active ∨ pending (db.account n) = false) (k : ℕ) : Attended (db.signalWorker n) k := by
  unfold Db.signalWorker
  split
  · exact h k
  · refine attended_setWorker h (fun hpending => ?_) k
    rcases hn with hn | hn
    · exact .inl hn
    · have hsame : pending (db.account n).beginShutdown = pending (db.account n) := rfl
      rw [hsame,hn] at hpending
      cases hpending

theorem attended_killWorker (h : ∀ k, Attended db k) (k : ℕ) : Attended (db.killWorker n) k := by
  unfold Db.killWorker
  split
  · rename_i hshutting
    refine attended_setWorker h (fun hpending => ?_) k
    have hbefore : pending (db.account n) = true := by
      rw [pending_iff] at hpending ⊢
      exact hpending.imp id (fun he => absurd rfl he)
    refine (h n hbefore).imp id (fun hserving => ?_)
    simp [serving,hshutting] at hserving
  · exact h k

theorem attended_step {c : Config Db Pc} {move : Move Inp} {db : Db} {pc : Pc} (hg : looksTwice c move)
    (hs : step M c.db (c.pc move.1) move.2 = some (db,pc)) (h : ∀ k, Attended c.db k) (k : ℕ) :
    Attended db k := by
  unfold looksTwice at hg
  cases hpc : c.pc move.1 with
  | dispatch batch =>
    simp only [hpc,step,Option.some.injEq,Prod.mk.injEq] at hs
    exact hs.1 ▸ attended_dispatch batch h k
  | pass =>
    simp only [hpc,step,Option.some.injEq,Prod.mk.injEq] at hs
    exact hs.1 ▸ h k
  | accounts rest =>
    cases rest <;> simp only [hpc,step,Option.some.injEq,Prod.mk.injEq] at hs <;> exact hs.1 ▸ h k
  | counted n queueLen rest =>
    rw [hpc] at hg
    simp only [hpc,step] at hs
    cases hok : move.2.ok with
    | false =>
      simp only [hok,Bool.not_false,if_true,Option.some.injEq,Prod.mk.injEq] at hs
      exact hs.1 ▸ h k
    | true =>
      simp only [hok,Bool.not_true,Bool.false_eq_true,if_false] at hs
      split at hs
      · split at hs <;> simp only [Option.some.injEq,Prod.mk.injEq] at hs <;> exact hs.1 ▸ h k
      · rename_i hlen
        simp only [Option.some.injEq,Prod.mk.injEq] at hs
        exact hs.1 ▸ attended_srem h (hg hok (by omega)) k
  | stop n rest =>
    rw [hpc] at hg
    simp only [hpc,step] at hs
    split at hs
    · rename_i hok
      simp only [Option.some.injEq,Prod.mk.injEq] at hs
      rw [← hs.1]
      split
      · rename_i hrunning
        exact attended_signalWorker h (hg hok hrunning) k
      · exact h k
    · simp only [Option.some.injEq,Prod.mk.injEq] at hs
      exact hs.1 ▸ h k
  | stopping n rest =>
    simp only [hpc,step,Option.some.injEq,Prod.mk.injEq] at hs
    exact hs.1 ▸ attended_killWorker h k
  | start n rest =>
    simp only [hpc,step,Option.some.injEq,Prod.mk.injEq] at hs
    rw [← hs.1]
    split
    · exact attended_startWorker h _ k
    · exact h k
  | done =>
    simp [hpc,step] at hs
  | worker n =>
    simp only [hpc,step,Option.map_eq_some_iff,Prod.mk.injEq] at hs
    obtain ⟨w,hw,rfl,rfl⟩ := hs
    refine attended_setWorker h (fun hpending => ?_) k
    obtain ⟨hbefore,hserving⟩ := workerMove_pending hw hpending
    exact (h n hbefore).imp id hserving

theorem attended_of_reaches {c c' : Config Db Pc} (h : Reaches (machine M) looksTwice c c')
    (hc : ∀ k, Attended c.db k) : ∀ k, Attended c'.db k := by
  apply h.invariant (I := fun c => ∀ k, Attended c.db k)
  · intro a move b ha hg hm
    obtain ⟨db,pc,hs,rfl⟩ := next_eq_some.mp hm
    exact attended_step hg hs ha
  · exact hc

theorem Initial.attended {c : Config Db Pc} (hc : Initial c) (k : ℕ) : Attended c.db k := by
  intro hpending
  rw [pending_iff] at hpending
  have hexited : (c.db.account k).pc = .exited := by
    simpa [Db.running] using hc.stopped k
  rcases hpending with hqueue | hhands
  · exact absurd (hc.queue k) hqueue
  · rw [hexited] at hhands
    exact absurd rfl hhands

def stoppedWorker : Worker where
  queue := []
  results := []
  pc := .exited
  timestamps := []
  lastTaskTime := 0
  consumerRunning := false
  shuttingDown := true
  attempts := []

def input (now : ℤ) (exit : Bool) : Inp where
  now := now
  ok := true
  freshHeartbeat := true
  error := none
  delivered := false
  exit := exit

def twoDispatches : Config Db Pc where
  db := ⟨fun _ => stoppedWorker,[]⟩
  pc := fun i =>
    if i = 0 then .dispatch [(1,[sampleTask 1])]
    else if i = 1 then .pass
    else if i = 2 then .dispatch [(1,[sampleTask 2])]
    else if i = 3 then .pass
    else if i = 4 then .worker 1
    else .done

theorem twoDispatches_ended (i : ℕ) (hi : 5 ≤ i) : twoDispatches.pc i = .done := by
  simp only [twoDispatches]
  rw [if_neg (by omega),if_neg (by omega),if_neg (by omega),if_neg (by omega),if_neg (by omega)]

theorem twoDispatches_initial : Initial twoDispatches := by
  refine ⟨fun _ => rfl,fun _ => rfl,fun i => ?_⟩
  by_cases hi : i < 5
  · have hall : ∀ i < 5, (twoDispatches.pc i).initial = true := by
      decide
    exact hall i hi
  · rw [twoDispatches_ended i (by omega)]
    rfl

def firstTask : List (Move Inp) :=
  [(0,input 0 false),(1,input 0 false),(1,input 0 false),(1,input 0 false),(1,input 0 false),
    (1,input 0 false),(4,input 0 false),(4,input 0 false),(4,input 0 false),(4,input 0 false),
    (4,input 0 false),(4,input 300000 false),(4,input 300000 true)]

def secondPass : List (Move Inp) :=
  [(3,input 300000 false),(3,input 300000 false),(2,input 300000 false),(3,input 300000 false),
    (3,input 300000 false)]

/-- A queue that is not empty belongs to an account of the active set or has a running worker. -/
theorem no_queue_forgotten (M : Manager) (c c' : Config Db Pc) (hc : Initial c)
    (h : Reaches (machine M) looksTwice c c') (n : ℕ) (hqueue : c'.db.queue n ≠ []) :
    n ∈ c'.db.active ∨ c'.db.running n = true := by
  have hpending : pending (c'.db.account n) = true := pending_iff.mpr (.inl hqueue)
  refine (attended_of_reaches h hc.attended n hpending).imp id (fun hserving => ?_)
  simp only [serving,Bool.and_eq_true] at hserving
  exact hserving.1.1.2

theorem no_queue_forgotten_dispatch : ∃ c', Reaches (machine (manageWaContainers 300)) looksTwice
    twoDispatches c' ∧ c'.db.queue 1 ≠ [] ∧ (1 ∈ c'.db.active ∨ c'.db.running 1 = true) := by
  obtain ⟨c',hreach,hqueue⟩ := reaches_of_any (by decide : (exec (machine (manageWaContainers 300))
    looksTwice twoDispatches (firstTask ++ [(2,input 300000 false)])).any
      (fun c => !(c.db.queue 1).isEmpty) = true)
  have hne : c'.db.queue 1 ≠ [] := by
    simpa using hqueue
  exact ⟨c',hreach,hne,no_queue_forgotten (manageWaContainers 300) twoDispatches c'
    twoDispatches_initial hreach 1 hne⟩

def forgotten (c : Config Db Pc) : Bool :=
  (List.range 5).all (fun i => !(c.pc i).managing) &&
    (!(c.db.queue 1).isEmpty && !decide (1 ∈ c.db.active) && !c.db.running 1)

/-- The second pass counts the queue before the second dispatch and removes the account after it. -/
theorem queue_forgotten : ¬ ∀ (M : Manager) (c c' : Config Db Pc), Initial c →
    Reaches (machine M) anyMove c c' → (∀ i, (c'.pc i).managing = false) →
    ∀ n, c'.db.queue n ≠ [] → n ∈ c'.db.active ∨ c'.db.running n = true := by
  intro hall
  have hrun : (exec (machine (manageWaContainers 300)) (fun _ _ => true = true) twoDispatches
      (firstTask ++ secondPass)).any forgotten = true := by
    decide
  obtain ⟨c',hreach,hended,hend⟩ := reaches_of_check_ended (G := anyMove) (fun _ _ _ => rfl)
    (fun _ _ _ _ => trivial) twoDispatches_ended hrun
  unfold forgotten at hend
  rw [Bool.and_eq_true,List.all_eq_true] at hend
  obtain ⟨hpasses,hforgotten⟩ := hend
  have hidle : ∀ i, (c'.pc i).managing = false := by
    intro i
    by_cases hi : i < 5
    · simpa using hpasses i (List.mem_range.mpr hi)
    · rw [hended i (by omega)]
      rfl
  simp only [Bool.and_eq_true,Bool.not_eq_true',decide_eq_false_iff_not,List.isEmpty_eq_false_iff] at hforgotten
  rcases hall _ _ _ twoDispatches_initial hreach hidle 1 hforgotten.1.1 with h | h
  · exact hforgotten.1.2 h
  · rw [hforgotten.2] at h
    cases h

end QueueManager
end Broadcaster
