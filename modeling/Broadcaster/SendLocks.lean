import Broadcaster.PromiseChain
import Broadcaster.RepeatedDelivery
import Mathlib.Algebra.GroupWithZero.Nat
import Mathlib.Algebra.Order.BigOperators.Group.List
import Mathlib.Algebra.Order.Group.Nat

/-!
# Sends that wait for each other

A send of one process, of the bridge or of one worker, does its work in two
sections, that of the session inside that of the chat. A section ends when its
work is done and also when the work has thrown, so a send may stop after any of
its messages. The bridge keeps one chain of promises for each session; a worker
has one session and one chain. The chains live in the memory of their process.
-/

namespace Broadcaster
namespace SendLocks

open PromiseChain

/-- The sends that ever arrive: their chats, their sessions and the messages that each would send. -/
structure Sends (Group Session Message : Type) where
  group : ℕ → Group
  session : ℕ → Session
  plan : ℕ → List Message

structure State (Group Session Message : Type) where
  groupLocks : Lock Group
  sendLocks : Lock Session
  /-- what `sock.sendMessage` has been called with, in this order -/
  sent : List (ℕ × Message)

inductive Event
  | arrive
  /-- the section of the chat starts, and calls `withSessionLock` at once -/
  | enterGroup
  | enterSession
  | sendMessage
  /-- the work is done or has thrown -/
  | leaveSession
  | leaveGroup
  /-- the callbacks given to `finally` -/
  | releaseSession
  | releaseGroup
  deriving DecidableEq

abbrev Move := ℕ × Event

variable {Group Session Message : Type}

def State.new : State Group Session Message := ⟨Lock.new,Lock.new,[]⟩

def State.of (s : State Group Session Message) (i : ℕ) : List (ℕ × Message) := s.sent.filter fun w => w.1 = i

variable [DecidableEq Group] [DecidableEq Session] (c : Sends Group Session Message)

def step (s : State Group Session Message) (m : Move) : Option (State Group Session Message) :=
  let i := m.1
  match m.2 with
  | .arrive => (s.groupLocks.enter c.group i).map fun l => { s with groupLocks := l }
  | .enterGroup => (s.groupLocks.start i).bind fun g =>
      (s.sendLocks.enter c.session i).map fun l => { s with groupLocks := g, sendLocks := l }
  | .enterSession => (s.sendLocks.start i).map fun l => { s with sendLocks := l }
  | .sendMessage =>
    if s.sendLocks.phase i = .running then
      (c.plan i)[(s.of i).length]?.map fun message => { s with sent := s.sent++[(i,message)] }
    else none
  | .leaveSession => (s.sendLocks.settle i).map fun l => { s with sendLocks := l }
  | .leaveGroup =>
    if (s.sendLocks.phase i).isSettled then (s.groupLocks.settle i).map fun l => { s with groupLocks := l }
    else none
  | .releaseSession => (s.sendLocks.clean c.session i).map fun l => { s with sendLocks := l }
  | .releaseGroup => (s.groupLocks.clean c.group i).map fun l => { s with groupLocks := l }

def exec (s : State Group Session Message) : List Move → Option (State Group Session Message)
  | [] => some s
  | m::ms => (step c s m).bind fun s' => exec s' ms

/-- `POST /api/sessions/:id/send`; the images are `image_urls || image_paths || []`. -/
structure SendRequest where
  sessionId : String
  groupId : String
  text : String
  images : List String

/-- The task with which a worker does the same work. -/
def SendRequest.task (r : SendRequest) : AccountWorker.Task where
  data := ⟨.null,.null,.null,.null,.null,.null,.null,.str r.text,.arr (r.images.map .str),.null,.str r.groupId⟩
  retryCount := none
  delayUntil := none

/-- The sends of the bridge, and what they meet. -/
def ofRequests (request : ℕ → SendRequest) (o : ℕ → AccountWorker.Outcomes) :
    Sends String String AccountWorker.Message where
  group i := (request i).groupId
  session i := (request i).sessionId
  plan i := (AccountWorker.sendMessage (request i).task (o i)).1

variable {c} {s s' : State Group Session Message} {i : ℕ}

structure Sound (c : Sends Group Session Message) (s : State Group Session Message) : Prop where
  groups : s.groupLocks.Sound c.group
  sessions : s.sendLocks.Sound c.session
  inner : ∀ i, (s.groupLocks.phase i).hasStarted = true ↔ s.sendLocks.phase i ≠ .absent
  outer : ∀ i, (s.groupLocks.phase i).isSettled = true → (s.sendLocks.phase i).isSettled = true
  working : ∀ w ∈ s.sent, (s.sendLocks.phase w.1).hasStarted = true
  chats : s.groupLocks.InTurns c.group s.sent
  accounts : s.sendLocks.InTurns c.session s.sent
  planned : ∀ i, (s.of i).map Prod.snd <+: c.plan i

namespace Sound

theorem new (c : Sends Group Session Message) : Sound c State.new where
  groups := .new _
  sessions := .new _
  inner i := by simp [State.new,Lock.new,Phase.hasStarted]
  outer i h := by simp [State.new,Lock.new,Phase.isSettled] at h
  working w h := absurd h List.not_mem_nil
  chats := Lock.inTurns_nil _ _
  accounts := Lock.inTurns_nil _ _
  planned i := List.nil_prefix

theorem withSession (h : Sound c s) {l : Lock Session} {n : ℕ} (hl : l.Sound c.session)
    (hlog : l.log = s.sendLocks.log) (hadv : Lock.Advances s.sendLocks l i n) (hn : n ≠ 0) :
    Sound c { s with sendLocks := l } where
  groups := h.groups
  sessions := hl
  inner j := by
    rw [h.inner j,ne_eq,ne_eq,not_iff_not,Phase.eq_absent_iff,Phase.eq_absent_iff]
    dsimp only
    obtain ⟨hold,hnew,hother⟩ := hadv
    by_cases hj : j = i
    · subst hj
      omega
    · rw [hother j hj]
  outer j hj := by
    have hold := (Phase.isSettled_iff _).mp (h.outer j hj)
    exact (Phase.isSettled_iff _).mpr (hold.trans (hadv.rank_le j))
  working w hw := by
    have hold := (Phase.hasStarted_iff _).mp (h.working w hw)
    exact (Phase.hasStarted_iff _).mpr (hold.trans (hadv.rank_le w.1))
  chats := h.chats
  accounts := h.accounts.congr hlog
  planned := h.planned

theorem withGroup (h : Sound c s) {l : Lock Group} {n : ℕ} (hl : l.Sound c.group)
    (hlog : l.log = s.groupLocks.log) (hadv : Lock.Advances s.groupLocks l i n) (hn : 2 ≤ n)
    (hi : (s.sendLocks.phase i).isSettled = true) : Sound c { s with groupLocks := l } where
  groups := hl
  sessions := h.sessions
  inner j := by
    rw [← h.inner j,Phase.hasStarted_iff,Phase.hasStarted_iff]
    dsimp only
    obtain ⟨hold,hnew,hother⟩ := hadv
    by_cases hj : j = i
    · subst hj
      omega
    · rw [hother j hj]
  outer j hj := by
    by_cases hji : j = i
    · rwa [hji]
    · rw [hadv.2.2 j hji] at hj
      exact h.outer j hj
  working := h.working
  chats := h.chats.congr hlog
  accounts := h.accounts
  planned := h.planned

theorem nothing_sent (h : Sound c s) (hi : (s.sendLocks.phase i).hasStarted = false) : ∀ w ∈ s.sent, w.1 ≠ i := by
  rintro w hw rfl
  rw [h.working w hw] at hi
  cases hi

theorem arrive (h : Sound c s) {l : Lock Group} (henter : s.groupLocks.enter c.group i = some l) :
    Sound c { s with groupLocks := l } := by
  obtain ⟨hold,hnew,hother⟩ := Lock.advances_enter henter
  have habsent : s.sendLocks.phase i = .absent := by
    by_contra hne
    have := (Phase.hasStarted_iff _).mp ((h.inner i).mpr hne)
    omega
  refine ⟨h.groups.enter henter,h.sessions,?_,?_,h.working,?_,h.accounts,h.planned⟩
  · intro j
    by_cases hj : j = i
    · subst hj
      rw [Phase.hasStarted_iff,hnew,habsent]
      simp
    · simpa only [hother j hj] using h.inner j
  · intro j hj
    by_cases hji : j = i
    · subst hji
      rw [Phase.isSettled_iff,hnew] at hj
      omega
    · simp only [hother j hji] at hj
      exact h.outer j hj
  · obtain ⟨_,rfl⟩ := Lock.enter_eq_some.mp henter
    exact h.chats.enter Lock.entered_log (h.nothing_sent (by rw [habsent]; rfl))

theorem enterGroup (h : Sound c s) {g : Lock Group} {l : Lock Session} (hstart : s.groupLocks.start i = some g)
    (henter : s.sendLocks.enter c.session i = some l) :
    Sound c { s with groupLocks := g, sendLocks := l } := by
  obtain ⟨gold,gnew,gother⟩ := Lock.advances_start hstart
  obtain ⟨lold,lnew,lother⟩ := Lock.advances_enter henter
  have hidle : (s.sendLocks.phase i).hasStarted = false := by
    rw [Bool.eq_false_iff,ne_eq,Phase.hasStarted_iff]
    omega
  refine ⟨h.groups.start hstart,h.sessions.enter henter,?_,?_,?_,h.chats.congr (Lock.log_start hstart),?_,
    h.planned⟩
  · intro j
    by_cases hj : j = i
    · subst hj
      rw [Phase.hasStarted_iff,ne_eq,Phase.eq_absent_iff]
      dsimp only
      omega
    · simpa only [gother j hj,lother j hj] using h.inner j
  · intro j hj
    by_cases hji : j = i
    · subst hji
      rw [Phase.isSettled_iff] at hj
      dsimp only at hj
      omega
    · simp only [gother j hji] at hj
      simpa only [lother j hji] using h.outer j hj
  · intro w hw
    simpa only [lother w.1 (h.nothing_sent hidle w hw)] using h.working w hw
  · obtain ⟨_,rfl⟩ := Lock.enter_eq_some.mp henter
    exact h.accounts.enter Lock.entered_log (h.nothing_sent hidle)

theorem group_running (h : Sound c s) (hi : s.sendLocks.phase i = .running) : s.groupLocks.phase i = .running := by
  have hstarted := (Phase.hasStarted_iff _).mp ((h.inner i).mpr (by simp [hi]))
  have hopen : ¬3 ≤ (s.groupLocks.phase i).rank := by
    intro hsettled
    have := h.outer i ((Phase.isSettled_iff _).mpr hsettled)
    rw [hi] at this
    cases this
  rw [Phase.eq_running_iff]
  omega

omit [DecidableEq Group] [DecidableEq Session] in
theorem of_append (s : State Group Session Message) (i j : ℕ) (message : Message) :
    ({ s with sent := s.sent++[(i,message)] } : State Group Session Message).of j =
      s.of j++if i = j then [(i,message)] else [] := by
  unfold State.of
  rw [List.filter_append]
  split <;> rename_i h <;> simp [h]

theorem sendMessage (h : Sound c s) (hi : s.sendLocks.phase i = .running) {message : Message}
    (hnext : (c.plan i)[(s.of i).length]? = some message) :
    Sound c { s with sent := s.sent++[(i,message)] } where
  groups := h.groups
  sessions := h.sessions
  inner := h.inner
  outer := h.outer
  working w hw := by
    rcases List.mem_append.mp hw with hw | hw
    · exact h.working w hw
    · rw [List.mem_singleton.mp hw,hi]
      rfl
  chats := by
    refine h.chats.append h.groups (h.group_running hi) ?_ message
    intro w hw
    rw [h.inner]
    intro habsent
    have := h.working w hw
    rw [habsent] at this
    cases this
  accounts := h.accounts.append h.sessions hi h.working message
  planned j := by
    rw [of_append]
    split
    · rename_i hij
      subst hij
      obtain ⟨rest,hrest⟩ := h.planned i
      rw [← hrest,List.getElem?_append_right (by simp)] at hnext
      cases rest with
      | nil => simp at hnext
      | cons x xs =>
        have hx : x = message := by simpa using hnext
        exact ⟨xs,by rw [← hrest,hx]; simp⟩
    · simpa using h.planned j

theorem step (h : Sound c s) {m : Move} (hstep : SendLocks.step c s m = some s') : Sound c s' := by
  obtain ⟨i,e⟩ := m
  cases e with
  | arrive =>
    obtain ⟨l,hl,rfl⟩ := Option.map_eq_some_iff.mp hstep
    exact h.arrive hl
  | enterGroup =>
    obtain ⟨g,hg,hstep⟩ := Option.bind_eq_some_iff.mp hstep
    obtain ⟨l,hl,rfl⟩ := Option.map_eq_some_iff.mp hstep
    exact h.enterGroup hg hl
  | enterSession =>
    obtain ⟨l,hl,rfl⟩ := Option.map_eq_some_iff.mp hstep
    exact h.withSession (h.sessions.start hl) (Lock.log_start hl) (Lock.advances_start hl) (by omega)
  | sendMessage =>
    simp only [SendLocks.step] at hstep
    split at hstep
    · rename_i hrunning
      obtain ⟨message,hnext,rfl⟩ := Option.map_eq_some_iff.mp hstep
      exact h.sendMessage hrunning hnext
    · cases hstep
  | leaveSession =>
    obtain ⟨l,hl,rfl⟩ := Option.map_eq_some_iff.mp hstep
    exact h.withSession (h.sessions.settle hl) (Lock.log_settle hl) (Lock.advances_settle hl) (by omega)
  | leaveGroup =>
    simp only [SendLocks.step] at hstep
    split at hstep
    · rename_i hsettled
      obtain ⟨l,hl,rfl⟩ := Option.map_eq_some_iff.mp hstep
      exact h.withGroup (h.groups.settle hl) (Lock.log_settle hl) (Lock.advances_settle hl) (by omega) hsettled
    · cases hstep
  | releaseSession =>
    obtain ⟨l,hl,rfl⟩ := Option.map_eq_some_iff.mp hstep
    exact h.withSession (h.sessions.clean hl) (Lock.log_clean hl) (Lock.advances_clean hl) (by omega)
  | releaseGroup =>
    obtain ⟨l,hl,rfl⟩ := Option.map_eq_some_iff.mp hstep
    have hsettled : (s.groupLocks.phase i).isSettled = true := by
      rw [Phase.isSettled_iff,(Lock.advances_clean hl).1]
    exact h.withGroup (h.groups.clean hl) (Lock.log_clean hl) (Lock.advances_clean hl) (by omega)
      (h.outer i hsettled)

theorem exec (h : Sound c s) {ms : List Move} (hrun : SendLocks.exec c s ms = some s') : Sound c s' := by
  induction ms generalizing s with
  | nil => exact Option.some.inj hrun ▸ h
  | cons m ms ih =>
    obtain ⟨a,ha,hrun⟩ := Option.bind_eq_some_iff.mp hrun
    exact ih (h.step ha) hrun

end Sound

/-- The sends in the order in which they arrived. -/
def arrivals (ms : List Move) : List ℕ := (ms.filter fun m => m.2 = .arrive).map Prod.fst

theorem log_step {m : Move} (hstep : step c s m = some s') :
    s'.groupLocks.log = s.groupLocks.log++arrivals [m] := by
  obtain ⟨i,e⟩ := m
  cases e with
  | arrive =>
    obtain ⟨l,hl,rfl⟩ := Option.map_eq_some_iff.mp hstep
    obtain ⟨_,rfl⟩ := Lock.enter_eq_some.mp hl
    rfl
  | enterGroup =>
    obtain ⟨g,hg,hstep⟩ := Option.bind_eq_some_iff.mp hstep
    obtain ⟨l,hl,rfl⟩ := Option.map_eq_some_iff.mp hstep
    exact (Lock.log_start hg).trans (List.append_nil _).symm
  | sendMessage =>
    simp only [step] at hstep
    split at hstep
    · obtain ⟨message,_,rfl⟩ := Option.map_eq_some_iff.mp hstep
      exact (List.append_nil _).symm
    · cases hstep
  | leaveGroup =>
    simp only [step] at hstep
    split at hstep
    · obtain ⟨l,hl,rfl⟩ := Option.map_eq_some_iff.mp hstep
      exact (Lock.log_settle hl).trans (List.append_nil _).symm
    · cases hstep
  | releaseGroup =>
    obtain ⟨l,hl,rfl⟩ := Option.map_eq_some_iff.mp hstep
    exact (Lock.log_clean hl).trans (List.append_nil _).symm
  | enterSession =>
    obtain ⟨l,hl,rfl⟩ := Option.map_eq_some_iff.mp hstep
    exact (List.append_nil _).symm
  | leaveSession =>
    obtain ⟨l,hl,rfl⟩ := Option.map_eq_some_iff.mp hstep
    exact (List.append_nil _).symm
  | releaseSession =>
    obtain ⟨l,hl,rfl⟩ := Option.map_eq_some_iff.mp hstep
    exact (List.append_nil _).symm

theorem log_exec {ms : List Move} (hrun : exec c s ms = some s') :
    s'.groupLocks.log = s.groupLocks.log++arrivals ms := by
  induction ms generalizing s with
  | nil =>
    obtain rfl := Option.some.inj hrun
    exact (List.append_nil _).symm
  | cons m ms ih =>
    obtain ⟨a,ha,hrun⟩ := Option.bind_eq_some_iff.mp hrun
    have hm : arrivals (m::ms) = arrivals [m]++arrivals ms := by
      rw [arrivals,List.filter_cons]
      split <;> rename_i h <;> simp [arrivals,h]
    rw [ih hrun,log_step ha,hm,List.append_assoc]

/-- Within a process a chat gets one send after the other, in the order in which they arrived, and so does a session
in the order of its line; a send has sent the first of its messages. -/
theorem sends_do_not_mix {ms : List Move} (hrun : exec c State.new ms = some s) :
    (∀ g, s.sent.filter (fun w => c.group w.1 = g) =
      ((arrivals ms).filter fun i => c.group i = g).flatMap s.of) ∧
    (∀ k, s.sent.filter (fun w => c.session w.1 = k) =
      (s.sendLocks.log.filter fun i => c.session i = k).flatMap s.of) ∧
    ∀ i, (s.of i).map Prod.snd <+: c.plan i := by
  have hsound := (Sound.new c).exec hrun
  have hlog : s.groupLocks.log = arrivals ms := log_exec hrun
  exact ⟨hlog ▸ hsound.chats,hsound.accounts,hsound.planned⟩

def State.left (c : Sends Group Session Message) (s : State Group Session Message) (i : ℕ) : ℕ :=
  (4-(s.groupLocks.phase i).rank)+(4-(s.sendLocks.phase i).rank)+((c.plan i).length-(s.of i).length)

def State.work (c : Sends Group Session Message) (s : State Group Session Message) : ℕ :=
  (s.groupLocks.log.map (s.left c)).sum

/-- Two sessions of the bridge send an album to one chat. -/
def twoSends : Sends String String AccountWorker.Message :=
  ofRequests (fun i => ⟨if i = 0 then "s0" else "s1","g@g.us","text",["https://s3/1.jpg","https://s3/2.jpg"]⟩)
    fun _ => ⟨true,fun _ => ⟨none,false,none⟩,fun _ => .sent,.sent⟩

/-- The first send stops after two messages, while the second already waits. -/
def twoMoves : List Move :=
  [(0,.arrive),(0,.enterGroup),(1,.arrive),(0,.enterSession),(0,.sendMessage),(0,.sendMessage),(0,.leaveSession),
    (0,.leaveGroup),(1,.enterGroup),(0,.releaseGroup),(1,.enterSession),(1,.sendMessage),(0,.releaseSession)]

theorem twoSends_run : ∃ s, exec twoSends State.new twoMoves = some s ∧
    s.sent = [(0,.image 0 false),(0,.image 1 false),(1,.image 0 false)] ∧ s.work twoSends = 7 := by
  have hsome : (exec twoSends State.new twoMoves).isSome = true := by decide
  obtain ⟨s,hs⟩ := Option.isSome_iff_exists.mp hsome
  have hsent : (exec twoSends State.new twoMoves).map State.sent =
      some [(0,.image 0 false),(0,.image 1 false),(1,.image 0 false)] := by decide
  have hwork : (exec twoSends State.new twoMoves).map (State.work twoSends) = some 7 := by decide
  rw [hs] at hsent hwork
  exact ⟨s,hs,Option.some.inj hsent,Option.some.inj hwork⟩

/-- Of two sends to one chat the second has begun after the end of the first. -/
theorem sends_do_not_mix_two : ∃ s, exec twoSends State.new twoMoves = some s ∧
    ((∀ g, s.sent.filter (fun w => twoSends.group w.1 = g) =
      ((arrivals twoMoves).filter fun i => twoSends.group i = g).flatMap s.of) ∧
    (∀ k, s.sent.filter (fun w => twoSends.session w.1 = k) =
      (s.sendLocks.log.filter fun i => twoSends.session i = k).flatMap s.of) ∧
    ∀ i, (s.of i).map Prod.snd <+: twoSends.plan i) ∧ s.sent.length = 3 := by
  obtain ⟨s,hs,hsent,_⟩ := twoSends_run
  exact ⟨s,hs,sends_do_not_mix hs,by rw [hsent]; rfl⟩

structure Uses (c : Sends Group Session Message) (s s' : State Group Session Message) (i : ℕ) : Prop where
  own : s'.left c i < s.left c i
  others : ∀ j, j ≠ i → s'.left c j = s.left c j

omit [DecidableEq Group] [DecidableEq Session] in
theorem uses_withSession {l : Lock Session} {n : ℕ} (hadv : Lock.Advances s.sendLocks l i n) (hn : n < 4) :
    Uses c s { s with sendLocks := l } i := by
  obtain ⟨hold,hnew,hother⟩ := hadv
  refine ⟨?_,fun j hj => ?_⟩
  · simp only [State.left,State.of,hold,hnew]
    omega
  · simp only [State.left,State.of,hother j hj]

omit [DecidableEq Group] [DecidableEq Session] in
theorem uses_withGroup {l : Lock Group} {n : ℕ} (hadv : Lock.Advances s.groupLocks l i n) (hn : n < 4) :
    Uses c s { s with groupLocks := l } i := by
  obtain ⟨hold,hnew,hother⟩ := hadv
  refine ⟨?_,fun j hj => ?_⟩
  · simp only [State.left,State.of,hold,hnew]
    omega
  · simp only [State.left,State.of,hother j hj]

omit [DecidableEq Group] [DecidableEq Session] in
theorem Uses.trans {s'' : State Group Session Message} (h : Uses c s s' i) (h' : Uses c s' s'' i) :
    Uses c s s'' i := ⟨h'.own.trans h.own,fun j hj => (h'.others j hj).trans (h.others j hj)⟩

theorem uses_step {m : Move} (hm : m.2 ≠ .arrive) (hstep : step c s m = some s') : Uses c s s' m.1 := by
  obtain ⟨i,e⟩ := m
  cases e with
  | arrive => exact absurd rfl hm
  | enterGroup =>
    obtain ⟨g,hg,hstep⟩ := Option.bind_eq_some_iff.mp hstep
    obtain ⟨l,hl,rfl⟩ := Option.map_eq_some_iff.mp hstep
    have hfirst : Uses c s { s with groupLocks := g } i := uses_withGroup (Lock.advances_start hg) (by omega)
    exact hfirst.trans (uses_withSession (Lock.advances_enter hl) (by omega))
  | enterSession =>
    obtain ⟨l,hl,rfl⟩ := Option.map_eq_some_iff.mp hstep
    exact uses_withSession (Lock.advances_start hl) (by omega)
  | sendMessage =>
    simp only [step] at hstep
    split at hstep
    · obtain ⟨message,hnext,rfl⟩ := Option.map_eq_some_iff.mp hstep
      obtain ⟨hlt,_⟩ := List.getElem?_eq_some_iff.mp hnext
      refine ⟨?_,fun j hj => ?_⟩
      · simp only [State.left,Sound.of_append,if_true,List.length_append,List.length_singleton]
        omega
      · simp only [State.left,Sound.of_append,if_neg hj.symm,List.append_nil]
    · cases hstep
  | leaveSession =>
    obtain ⟨l,hl,rfl⟩ := Option.map_eq_some_iff.mp hstep
    exact uses_withSession (Lock.advances_settle hl) (by omega)
  | leaveGroup =>
    simp only [step] at hstep
    split at hstep
    · obtain ⟨l,hl,rfl⟩ := Option.map_eq_some_iff.mp hstep
      exact uses_withGroup (Lock.advances_settle hl) (by omega)
    · cases hstep
  | releaseSession =>
    obtain ⟨l,hl,rfl⟩ := Option.map_eq_some_iff.mp hstep
    exact uses_withSession (Lock.advances_clean hl) (by omega)
  | releaseGroup =>
    obtain ⟨l,hl,rfl⟩ := Option.map_eq_some_iff.mp hstep
    exact uses_withGroup (Lock.advances_clean hl) (by omega)

namespace Sound

theorem mem_log (h : Sound c s) {m : Move} (hm : m.2 ≠ .arrive) (hstep : SendLocks.step c s m = some s') :
    m.1 ∈ s.groupLocks.log := by
  by_contra hnot
  have hgroup : s.groupLocks.phase m.1 = .absent := by simpa [h.groups.entered] using hnot
  have hsession : s.sendLocks.phase m.1 = .absent := by
    by_contra hne
    have hstarted := (h.inner m.1).mpr hne
    rw [hgroup] at hstarted
    cases hstarted
  obtain ⟨i,e⟩ := m
  have hnone : SendLocks.step c s (i,e) = none := by
    cases e with
    | arrive => exact absurd rfl hm
    | _ => simp [SendLocks.step,Lock.start,Lock.settle,Lock.clean,Phase.isSettled,hgroup,hsession]
  rw [hnone] at hstep
  cases hstep

theorem work_step (h : Sound c s) {m : Move} (hm : m.2 ≠ .arrive) (hstep : SendLocks.step c s m = some s') :
    s'.work c < s.work c := by
  obtain ⟨hown,hothers⟩ := uses_step hm hstep
  have hlog : s'.groupLocks.log = s.groupLocks.log := by
    rw [log_step hstep,arrivals,List.filter_cons_of_neg (by simpa using hm)]
    simp
  unfold State.work
  rw [← hlog]
  refine List.sum_lt_sum _ _ (fun j _ => ?_) ⟨m.1,hlog ▸ h.mem_log hm hstep,hown⟩
  by_cases hj : j = m.1
  · subst hj
    exact hown.le
  · exact (hothers j hj).le

theorem length_le_work (h : Sound c s) {ms : List Move} (hms : ∀ m ∈ ms, m.2 ≠ .arrive)
    (hrun : SendLocks.exec c s ms = some s') : ms.length ≤ s.work c := by
  induction ms generalizing s with
  | nil => exact Nat.zero_le _
  | cons m ms ih =>
    obtain ⟨a,ha,hrun⟩ := Option.bind_eq_some_iff.mp hrun
    obtain ⟨hm,hms⟩ := List.forall_mem_cons.mp hms
    have hless := h.work_step hm ha
    have hrest := ih (h.step ha) hms hrun
    rw [List.length_cons]
    omega

def Stuck (c : Sends Group Session Message) (s : State Group Session Message) : Prop :=
  ∀ m : Move, m.2 ≠ .arrive → SendLocks.step c s m = none

theorem session_settled (h : Sound c s) (hstuck : Stuck c s) (hi : i ∈ s.sendLocks.log) :
    (s.sendLocks.phase i).isSettled = true := by
  by_contra hnot
  obtain ⟨j,_,hj | hj⟩ := h.sessions.some_turn hi (by simpa using hnot)
  · have hnone := hstuck (j,.leaveSession) (by simp)
    simp [SendLocks.step,Lock.settle,hj] at hnone
  · have hnone := hstuck (j,.enterSession) (by simp)
    obtain ⟨l,hl⟩ := Option.isSome_iff_exists.mp hj
    simp [SendLocks.step,hl] at hnone

theorem group_settled (h : Sound c s) (hstuck : Stuck c s) (hi : i ∈ s.groupLocks.log) :
    (s.groupLocks.phase i).isSettled = true := by
  by_contra hnot
  obtain ⟨j,_,hj | hj⟩ := h.groups.some_turn hi (by simpa using hnot)
  · have hsession : s.sendLocks.phase j ≠ .absent := (h.inner j).mp (by simp [hj,Phase.hasStarted])
    have hsettled := h.session_settled hstuck ((h.sessions.entered j).mpr hsession)
    have hnone := hstuck (j,.leaveGroup) (by simp)
    simp [SendLocks.step,Lock.settle,hj,hsettled] at hnone
  · obtain ⟨g,hg⟩ := Option.isSome_iff_exists.mp hj
    have habsent : s.sendLocks.phase j = .absent := by
      by_contra hne
      have hstarted := (Phase.hasStarted_iff _).mp ((h.inner j).mpr hne)
      have := (Lock.advances_start hg).1
      omega
    have hnone := hstuck (j,.enterGroup) (by simp)
    simp [SendLocks.step,hg,Lock.enter,habsent] at hnone

theorem cleaned (h : Sound c s) (hstuck : Stuck c s) :
    (∀ j ∈ s.groupLocks.log, s.groupLocks.phase j = .cleaned) ∧
      ∀ j ∈ s.sendLocks.log, s.sendLocks.phase j = .cleaned := by
  constructor
  · intro j hj
    have hsettled := h.group_settled hstuck hj
    cases hphase : s.groupLocks.phase j with
    | cleaned => rfl
    | settled =>
      have hnone := hstuck (j,.releaseGroup) (by simp)
      simp [SendLocks.step,Lock.clean,hphase] at hnone
    | absent => simp [hphase,Phase.isSettled] at hsettled
    | waiting prev => simp [hphase,Phase.isSettled] at hsettled
    | running => simp [hphase,Phase.isSettled] at hsettled
  · intro j hj
    have hsettled := h.session_settled hstuck hj
    cases hphase : s.sendLocks.phase j with
    | cleaned => rfl
    | settled =>
      have hnone := hstuck (j,.releaseSession) (by simp)
      simp [SendLocks.step,Lock.clean,hphase] at hnone
    | absent => simp [hphase,Phase.isSettled] at hsettled
    | waiting prev => simp [hphase,Phase.isSettled] at hsettled
    | running => simp [hphase,Phase.isSettled] at hsettled

end Sound

/-- The sends that have arrived need a bounded number of steps, and when no step is left all of them have gone through
both sections and both tables are empty: nothing waits for ever and nothing is kept. -/
theorem sends_end {ms : List Move} (hrun : exec c State.new ms = some s) :
    (∀ ms' s', exec c s ms' = some s' → (∀ m ∈ ms', m.2 ≠ .arrive) → ms'.length ≤ s.work c) ∧
    ((∀ m : Move, m.2 ≠ .arrive → step c s m = none) →
      (∀ i ∈ arrivals ms, s.groupLocks.phase i = .cleaned ∧ s.sendLocks.phase i = .cleaned) ∧
      (∀ g, s.groupLocks.tail g = none) ∧ ∀ k, s.sendLocks.tail k = none) := by
  have hsound := (Sound.new c).exec hrun
  refine ⟨fun ms' s' hrun' hms' => hsound.length_le_work hms' hrun',fun hstuck => ?_⟩
  obtain ⟨hgroups,hsessions⟩ := hsound.cleaned hstuck
  refine ⟨?_,hsound.groups.tail_eq_none hgroups,hsound.sessions.tail_eq_none hsessions⟩
  intro i hi
  have hlog : s.groupLocks.log = arrivals ms := log_exec hrun
  have hgroup := hgroups i (hlog ▸ hi)
  have hsession : s.sendLocks.phase i ≠ .absent := (hsound.inner i).mp (by simp [hgroup,Phase.hasStarted])
  exact ⟨hgroup,hsessions i ((hsound.sessions.entered i).mpr hsession)⟩

/-- The second of the two sends still has seven steps to go, and no run needs more. -/
theorem sends_end_two : ∃ s, exec twoSends State.new twoMoves = some s ∧
    ((∀ ms' s', exec twoSends s ms' = some s' → (∀ m ∈ ms', m.2 ≠ .arrive) → ms'.length ≤ 7) ∧
    ((∀ m : Move, m.2 ≠ .arrive → step twoSends s m = none) →
      (∀ i ∈ arrivals twoMoves, s.groupLocks.phase i = .cleaned ∧ s.sendLocks.phase i = .cleaned) ∧
      (∀ g, s.groupLocks.tail g = none) ∧ ∀ k, s.sendLocks.tail k = none)) := by
  obtain ⟨s,hs,_,hwork⟩ := twoSends_run
  obtain ⟨hbound,hend⟩ := sends_end hs
  rw [hwork] at hbound
  exact ⟨s,hs,hbound,hend⟩

end SendLocks
end Broadcaster
