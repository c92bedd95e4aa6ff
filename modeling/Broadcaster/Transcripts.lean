import Mathlib.Init

/-!
# Programs that call a server

A program makes calls one after another, and the answer to a call may depend on
all the calls before it. `Leaves p Q` says of every server and every past what a
run of `p` adds to the transcript and returns or raises. The rules follow the
constructions that programs are made of, so that a statement about a program is
proved by one rule for each of its lines.
-/

namespace Broadcaster
namespace Transcripts

variable {Call : Type} {Value : Call → Type} {Error α β : Type}

abbrev Entry (Value : Call → Type) (Error : Type) := (c : Call) × Except Error (Value c)

abbrev Transcript (Value : Call → Type) (Error : Type) := List (Entry Value Error)

abbrev Server (Value : Call → Type) (Error : Type) := Transcript Value Error → (c : Call) → Except Error (Value c)

/-- What a program returns or raises, and the transcript after it. -/
def Program (Value : Call → Type) (Error α : Type) :=
  Server Value Error → Transcript Value Error → Except Error α × Transcript Value Error

namespace Program

def call (c : Call) : Program Value Error (Value c) := fun server past =>
  (server past c,past++[⟨c,server past c⟩])

def raise (e : Error) : Program Value Error α := fun _ past => (.error e,past)

/-- `try p except e: handler(e)` -/
def handle (p : Program Value Error α) (handler : Error → Program Value Error α) : Program Value Error α :=
  fun server past =>
    match p server past with
    | (.ok a,t) => (.ok a,t)
    | (.error e,t) => handler e server t

/-- `try p finally q`; what `q` raises takes the place of what `p` has returned or raised. -/
def lastly (p : Program Value Error α) (q : Program Value Error Unit) : Program Value Error α :=
  fun server past =>
    let (result,t) := p server past
    match q server t with
    | (.ok _,t') => (result,t')
    | (.error e,t') => (.error e,t')

instance : Monad (Program Value Error) where
  pure a := fun _ past => (.ok a,past)
  bind p f := fun server past =>
    match p server past with
    | (.ok a,t) => f a server t
    | (.error e,t) => (.error e,t)

/-- `[g(i) for i in ..]` -/
def each {ι : Type} (g : ι → Program Value Error α) : List ι → Program Value Error (List α)
  | [] => pure []
  | i::is => do
    let a ← g i
    let as ← each g is
    pure (a::as)

end Program

/-- In every run, `Q` holds of what the run adds to the transcript and of its result. -/
def Leaves (p : Program Value Error α) (Q : Transcript Value Error → Except Error α → Prop) : Prop :=
  ∀ server past, ∃ t, (p server past).2 = past++t ∧ Q t (p server past).1

variable {p : Program Value Error α} {f : α → Program Value Error β} {q : Program Value Error Unit}
  {handler : Error → Program Value Error α} {P : Transcript Value Error → Except Error α → Prop}
  {Q : Transcript Value Error → Except Error β → Prop}

theorem leaves_pure {a : α} (h : P [] (.ok a)) : Leaves (pure a : Program Value Error α) P :=
  fun _ past => ⟨[],(List.append_nil past).symm,h⟩

theorem leaves_raise {e : Error} (h : P [] (.error e)) : Leaves (Program.raise e : Program Value Error α) P :=
  fun _ past => ⟨[],(List.append_nil past).symm,h⟩

theorem leaves_call {c : Call} {P : Transcript Value Error → Except Error (Value c) → Prop}
    (h : ∀ answer, P [⟨c,answer⟩] answer) : Leaves (Program.call c) P :=
  fun server past => ⟨_,rfl,h (server past c)⟩

theorem Leaves.mono {P' : Transcript Value Error → Except Error α → Prop} (h : Leaves p P)
    (himp : ∀ t r, P t r → P' t r) : Leaves p P' := by
  intro server past
  obtain ⟨t,ht,hp⟩ := h server past
  exact ⟨t,ht,himp t _ hp⟩

theorem Leaves.bind (h : Leaves p P) (herror : ∀ t e, P t (.error e) → Q t (.error e))
    (hok : ∀ t a, P t (.ok a) → Leaves (f a) fun t' r => Q (t++t') r) : Leaves (p >>= f) Q := by
  intro server past
  obtain ⟨t,ht,hp⟩ := h server past
  change ∃ t', (match p server past with | (.ok a,t) => f a server t | (.error e,t) => (.error e,t)).2 = past++t' ∧
    Q t' (match p server past with | (.ok a,t) => f a server t | (.error e,t) => (.error e,t)).1
  generalize p server past = result at ht hp ⊢
  obtain ⟨r,past'⟩ := result
  subst ht
  cases r with
  | error e => exact ⟨t,rfl,herror t e hp⟩
  | ok a =>
    obtain ⟨t',ht',hq⟩ := hok t a hp server (past++t)
    exact ⟨t++t',ht'.trans (List.append_assoc past t t'),hq⟩

theorem Leaves.map {g : α → β} (h : Leaves p P) (himp : ∀ t r, P t r → Q t (r.map g)) : Leaves (g <$> p) Q := by
  have hbind : Leaves (p >>= fun a => pure (g a)) Q := by
    refine h.bind (fun t e ht => himp t _ ht) fun t a ht => leaves_pure ?_
    rw [List.append_nil]
    exact himp t _ ht
  exact hbind

theorem Leaves.handle {P' : Transcript Value Error → Except Error α → Prop} (h : Leaves p P)
    (hok : ∀ t a, P t (.ok a) → P' t (.ok a))
    (herror : ∀ t e, P t (.error e) → Leaves (handler e) fun t' r => P' (t++t') r) :
    Leaves (p.handle handler) P' := by
  intro server past
  obtain ⟨t,ht,hp⟩ := h server past
  unfold Program.handle
  generalize p server past = result at ht hp ⊢
  obtain ⟨r,past'⟩ := result
  subst ht
  cases r with
  | ok a => exact ⟨t,rfl,hok t a hp⟩
  | error e =>
    obtain ⟨t',ht',hq⟩ := herror t e hp server (past++t)
    exact ⟨t++t',ht'.trans (List.append_assoc past t t'),hq⟩

theorem Leaves.lastly {T : Transcript Value Error → Prop} {P' : Transcript Value Error → Except Error α → Prop}
    (h : Leaves p P) (hq : Leaves q fun t r => T t ∧ r = .ok ()) (himp : ∀ t r t', P t r → T t' → P' (t++t') r) :
    Leaves (p.lastly q) P' := by
  intro server past
  obtain ⟨t,ht,hp⟩ := h server past
  unfold Program.lastly
  generalize p server past = result at ht hp ⊢
  obtain ⟨r,past'⟩ := result
  subst ht
  obtain ⟨t',ht',hT,hok⟩ := hq server (past++t)
  dsimp only
  generalize q server (past++t) = last at ht' hok ⊢
  obtain ⟨r',past'⟩ := last
  subst ht' hok
  exact ⟨t++t',List.append_assoc past t t',himp t r t' hp hT⟩

theorem leaves_each {ι : Type} {g : ι → Program Value Error α} {T : Entry Value Error → Prop}
    (h : ∀ i, Leaves (g i) fun t _ => ∀ e ∈ t, T e) (is : List ι) :
    Leaves (Program.each g is) fun t _ => ∀ e ∈ t, T e := by
  induction is with
  | nil => exact leaves_pure (by simp)
  | cons i is ih =>
    refine (h i).bind (fun t e ht => ht) fun t a ht => ?_
    refine ih.bind (fun t' e ht' => ?_) fun t' as ht' => leaves_pure ?_
    · exact List.forall_mem_append.mpr ⟨ht,ht'⟩
    · rw [List.append_nil]
      exact List.forall_mem_append.mpr ⟨ht,ht'⟩

end Transcripts
end Broadcaster
