import Broadcaster.RequestIdentity
import Broadcaster.ScheduleService
import Broadcaster.UploadKeys
import Mathlib.Logic.Relation

/-!
# Who stands behind a session

Every way in which the application gives out a token of access, with the
requests of any number of parties one after another. A party presents tokens
that it has been given, or something that the server has not signed. What
happens to the accounts in between is not known.
-/

namespace Broadcaster
namespace Sessions

open Python RequestIdentity ScheduleService

/-- The columns of `users` that a session rests on. -/
structure Account where
  email : String
  passwordHash : String
  isBlocked : Bool
  deriving DecidableEq

structure Settings where
  adminEmail : String
  accessTokenExpireMinutes : ℕ

/-- What a token of access says. -/
structure Grant where
  sub : ℕ
  act : Option ℕ
  exp : Instant
  deriving DecidableEq

/-- `jwt.encode` and `jwt.decode` with the key of the settings, the latter before it looks at the time. -/
structure Signature where
  encode : Grant → String
  decode : String → Option Grant
  decode_encode : ∀ g, decode (encode g) = some g
  decode_empty : decode "" = none

def Grant.claims (g : Grant) : Claims :=
  ⟨some (toString g.sub),g.act.map fun actor => .obj [("sub",.str (toString actor))]⟩

def Signature.jwt (sig : Signature) (now : Instant) : Jwt where
  decode token := ((sig.decode token).filter fun g => now ≤ g.exp).map Grant.claims
  decode_empty := by simp [sig.decode_empty]

/-- The entries of the journal that name an administrator, and what stands behind every session. -/
inductive Entry
  | authenticated (party userId : ℕ) (time : Instant)
  | impersonationStart (party adminId targetId : ℕ) (time : Instant)
  | impersonationStop (party adminId targetId : ℕ) (time : Instant)
  | adminAction (party adminId : ℕ) (time : Instant)
  deriving DecidableEq

/-- The journal is kept with the newest entry first. -/
structure State where
  now : Instant
  users : Store Account
  held : ℕ → List String
  journal : List Entry

def accessExpireMinutes : ℕ := 1440

def impersonationExpireMinutes : ℕ := 60

section Handlers

variable (settings : Settings) (sig : Signature)

def State.jwt (s : State) : Jwt := sig.jwt s.now

def State.lasting (s : State) (minutes : ℕ) : Instant := s.now+minutes*minuteMicros

def State.give (s : State) (party : ℕ) (g : Grant) : State :=
  { s with held := fun p => if p = party then sig.encode g::s.held p else s.held p }

def State.record (s : State) (e : Entry) : State := { s with journal := e::s.journal }

def get (users : Store Account) (id : ℤ) : Option (ℕ × Account) := (users.find id).map (id.toNat,·)

def emailIsAdmin (email : String) : Bool := if settings.adminEmail = "" then false else email = settings.adminEmail

/-- `get_current_user`: the header, and without one the cookie. -/
def getCurrentUser (s : State) (request : Request) : Except HttpException (ℕ × Account) :=
  match (request.authorization.bind bearer).or request.accessToken with
  | none => .error notAuthenticated
  | some token =>
    match decodeAccessToken (s.jwt sig) token with
    | none => .error invalidToken
    | some payload =>
      match get s.users payload.sub with
      | none => .error userNotFound
      | some user => if user.2.isBlocked then .error ⟨403,"Account is blocked"⟩ else .ok user

def requireAdmin (s : State) (request : Request) : Except HttpException (ℕ × Account) :=
  match presentedActor (s.jwt sig) request none with
  | some actingId =>
    match get s.users actingId with
    | none => .error userNotFound
    | some actor =>
      if actor.2.isBlocked || !emailIsAdmin settings actor.2.email then .error ⟨403,"Admin access required"⟩
      else .ok actor
  | none =>
    match getCurrentUser sig s request with
    | .error e => .error e
    | .ok user => if emailIsAdmin settings user.2.email then .ok user else .error ⟨403,"Admin access required"⟩

/-- An e-mail is unique. -/
def userByEmail (users : Store Account) (email : String) : Option (ℕ × Account) :=
  (users.select fun user => user.email = email).head?

/-- `POST /login` and `POST /api/auth/login` -/
def login (verifyPassword : String → String → Bool) (s : State) (party : ℕ) (email password : String)
    (minutes : ℕ) : State :=
  match userByEmail s.users email with
  | none => s
  | some (id,user) =>
    if verifyPassword password user.passwordHash ∧ user.isBlocked = false then
      (s.record (.authenticated party id s.now)).give sig party ⟨id,none,s.lasting minutes⟩
    else s

/-- `POST /register/complete` with a confirmed e-mail -/
def registerComplete (hashPassword : String → String) (s : State) (party : ℕ) (email password : String) : State :=
  match userByEmail s.users email with
  | some _ => s
  | none =>
    if password.length < 6 then s
    else
      (({ s with users := s.users.insert ⟨email,hashPassword password,false⟩ }).record
        (.authenticated party s.users.size s.now)).give sig party ⟨s.users.size,none,s.lasting accessExpireMinutes⟩

/-- `POST /admin/users/{user_id}/impersonate`: the dependencies run before the handler. -/
def adminImpersonate (s : State) (party : ℕ) (request : Request) (sameOrigin : Bool) (userId : ℕ) : State :=
  match requireAdmin settings sig s request with
  | .error _ => s
  | .ok (adminId,_) =>
    match presentedActor (s.jwt sig) request none with
    | some _ => s
    | none =>
      if sameOrigin = false ∨ s.users.row userId = none ∨ userId = adminId then s
      else (s.record (.impersonationStart party adminId userId s.now)).give sig party
        ⟨userId,some adminId,s.lasting impersonationExpireMinutes⟩

/-- `POST /impersonation/stop` -/
def stopImpersonation (s : State) (party : ℕ) (request : Request) (sameOrigin : Bool) : State :=
  let payload := (request.accessToken.filter (· ≠ "")).bind (decodeAccessToken (s.jwt sig))
  match actorId payload with
  | none => s
  | some adminId =>
    match get s.users adminId with
    | none => s
    | some (adminId,admin) =>
      if sameOrigin = false ∨ admin.isBlocked then s
      else (s.record (.impersonationStop party adminId (payload.elim 0 fun p => p.sub.toNat) s.now)).give sig party
        ⟨adminId,none,s.lasting accessExpireMinutes⟩

/-- Any other action of the section of administrators -/
def adminAction (s : State) (party : ℕ) (request : Request) : State :=
  match requireAdmin settings sig s request with
  | .error _ => s
  | .ok (adminId,_) => s.record (.adminAction party adminId s.now)

/-- What a request carries has been given to its party, or has not been signed. -/
def State.Presents (s : State) (party : ℕ) (request : Request) (credentials : Option String) : Prop :=
  ∀ token ∈ credentials.toList ++ (request.authorization.bind bearer).toList ++ request.accessToken.toList,
    token ∈ s.held party ∨ sig.decode token = none

def idMax : ℕ := 2147483647

def InColumn (users : Store Account) : Prop := users.size ≤ idMax+1

end Handlers

/-- `edit` is whatever happens to the accounts. -/
inductive Event
  | wait (elapsed : ℕ)
  | edit (users : Store Account)
  | login (party : ℕ) (email password : String)
  | apiLogin (party : ℕ) (email password : String)
  | registerComplete (party : ℕ) (email password : String)
  | adminImpersonate (party : ℕ) (request : Request) (sameOrigin : Bool) (userId : ℕ)
  | stopImpersonation (party : ℕ) (request : Request) (sameOrigin : Bool)
  | adminAction (party : ℕ) (request : Request)

section Runs

variable (settings : Settings) (sig : Signature) (verifyPassword : String → String → Bool)
  (hashPassword : String → String)

inductive Step (s : State) : Event → State → Prop
  | wait (elapsed : ℕ) : Step s (.wait elapsed) { s with now := s.now+elapsed }
  | edit (users : Store Account) (h : InColumn users) : Step s (.edit users) { s with users := users }
  | login (party : ℕ) (email password : String) :
      Step s (.login party email password) (login sig verifyPassword s party email password accessExpireMinutes)
  | apiLogin (party : ℕ) (email password : String) : Step s (.apiLogin party email password)
      (login sig verifyPassword s party email password settings.accessTokenExpireMinutes)
  | registerComplete (party : ℕ) (email password : String) (h : s.users.size ≤ idMax) :
      Step s (.registerComplete party email password) (registerComplete sig hashPassword s party email password)
  | adminImpersonate (party : ℕ) (request : Request) (sameOrigin : Bool) (userId : ℕ)
      (h : s.Presents sig party request none) : Step s (.adminImpersonate party request sameOrigin userId)
      (adminImpersonate settings sig s party request sameOrigin userId)
  | stopImpersonation (party : ℕ) (request : Request) (sameOrigin : Bool) (h : s.Presents sig party request none) :
      Step s (.stopImpersonation party request sameOrigin) (stopImpersonation sig s party request sameOrigin)
  | adminAction (party : ℕ) (request : Request) (h : s.Presents sig party request none) :
      Step s (.adminAction party request) (adminAction settings sig s party request)

structure Initial (s : State) : Prop where
  held : ∀ party, s.held party = []
  journal : s.journal = []
  inColumn : InColumn s.users

def Reaches : State → State → Prop :=
  Relation.ReflTransGen fun s s' => ∃ e, Step settings sig verifyPassword hashPassword s e s'

end Runs

theorem decimal_of_isDigit {c : Char} (h : c.isDigit = true) : decimal c = some (c.toNat-48) := by
  have hrange : 48 ≤ c.toNat ∧ c.toNat < 48+10 := by
    simp only [Char.isDigit,Bool.and_eq_true,decide_eq_true_eq,UInt32.le_iff_toNat_le] at h
    exact ⟨h.1,Nat.lt_succ_of_le h.2⟩
  unfold decimal decimalZeros
  rw [List.findSome?_cons_of_isSome] <;> simp [hrange]

theorem decimalDigits_of_isDigit {cs : List Char} (h : ∀ c ∈ cs, c.isDigit = true) {digit : Bool}
    (hne : digit = true ∨ cs ≠ []) : decimalDigits digit cs = some (cs.map fun c => c.toNat-48) := by
  induction cs generalizing digit with
  | nil =>
    have hdigit : digit = true := hne.resolve_right fun hn => hn rfl
    simp [decimalDigits,hdigit]
  | cons c cs ih =>
    have hc := h c List.mem_cons_self
    have hunder : c ≠ '_' := by
      rintro rfl
      exact absurd hc (by decide)
    have hrest : decimalDigits true cs = some (cs.map fun c => c.toNat-48) :=
      ih (fun c hc => h c (List.mem_cons_of_mem _ hc)) (.inl rfl)
    simp [decimalDigits,hunder,decimal_of_isDigit hc,hrest]

theorem stripChars_of_isDigit {cs : List Char} (h : ∀ c ∈ cs, c.isDigit = true) : stripChars intSpaces cs = cs := by
  have hspace : ∀ c ∈ cs, intSpaces.contains c = false :=
    fun c hc => not_space_of_decimal (decimal_of_isDigit (h c hc))
  have hdrop : ∀ ds : List Char, (∀ c ∈ ds, intSpaces.contains c = false) → ds.dropWhile intSpaces.contains = ds := by
    intro ds hds
    cases ds with
    | nil => rfl
    | cons d ds => rw [List.dropWhile_cons_of_neg (by rw [hds d List.mem_cons_self]; decide)]
  unfold stripChars
  rw [hdrop cs hspace,hdrop cs.reverse fun c hc => hspace c (List.mem_reverse.mp hc),List.reverse_reverse]

theorem int_toString {n : ℕ} (h : n ≤ idMax) : int (toString n).toList = some (n : ℤ) := by
  have hdigits : ∀ c ∈ (toString n).toList, c.isDigit = true := fun c hc => UploadKeys.isDigit_of_mem_toString hc
  have hne : (toString n).toList ≠ [] := by
    rw [UploadKeys.toList_toString]
    exact Nat.toDigits_ne_nil
  have hlength : (toString n).toList.length ≤ maxStrDigits := by
    rw [UploadKeys.toList_toString]
    refine Nat.le_trans ((Nat.length_toDigits_le_iff (by decide) (by decide : 0 < 10)).mpr ?_) (by decide)
    exact Nat.lt_of_le_of_lt h (by decide)
  have hunsigned : unsigned (toString n).toList = some n := by
    unfold unsigned
    rw [decimalDigits_of_isDigit hdigits (.inr hne),Option.bind_some,List.length_map,if_pos hlength,List.foldl_map]
    congr 1
    have hvalue := Nat.ofDigitChars_ten_toDigits (n := n)
    rw [Nat.ofDigitChars_eq_foldl,← UploadKeys.toList_toString] at hvalue
    exact hvalue
  unfold int
  rw [stripChars_of_isDigit hdigits]
  split
  · rename_i ds hds
    exact absurd (hdigits '-' (hds ▸ List.mem_cons_self)) (by decide)
  · rename_i ds hds
    exact absurd (hdigits '+' (hds ▸ List.mem_cons_self)) (by decide)
  · rw [hunsigned]
    rfl

structure Grant.Fits (g : Grant) : Prop where
  sub : g.sub ≤ idMax
  act : ∀ actor, g.act = some actor → actor ≤ idMax

def Grant.person (g : Grant) : ℕ := g.act.getD g.sub

/-- The administrator that the entry names, and the party that has acted as him. -/
def Entry.admin : Entry → Option (ℕ × ℕ)
  | .authenticated _ _ _ => none
  | .impersonationStart party adminId _ _ => some (party,adminId)
  | .impersonationStop party adminId _ _ => some (party,adminId)
  | .adminAction party adminId _ => some (party,adminId)

def Authenticated (journal : List Entry) (party person : ℕ) : Prop := ∃ time, .authenticated party person time ∈ journal

/-- Whoever is named as an administrator has proved before to be him. -/
def Honest : List Entry → Prop
  | [] => True
  | e::earlier => (∀ party adminId, e.admin = some (party,adminId) → Authenticated earlier party adminId) ∧
      Honest earlier

/-- What a token of a party has been given for, and how long it is in force. -/
inductive Founded (limit : ℕ) (journal : List Entry) (party : ℕ) (g : Grant) : Prop
  | plain (time : Instant) (hact : g.act = none) (hentry : .authenticated party g.sub time ∈ journal ∨
      ∃ target, .impersonationStop party g.sub target time ∈ journal) (hexp : g.exp ≤ time+limit*minuteMicros)
  | impersonating (actor : ℕ) (time : Instant) (hact : g.act = some actor)
      (hentry : .impersonationStart party actor g.sub time ∈ journal) (hne : g.sub ≠ actor)
      (hexp : g.exp = time+impersonationExpireMinutes*minuteMicros)

structure Sound (limit : ℕ) (sig : Signature) (s : State) : Prop where
  inColumn : InColumn s.users
  honest : Honest s.journal
  founded : ∀ party, ∀ token ∈ s.held party, ∀ g, sig.decode token = some g →
    Founded limit s.journal party g ∧ g.Fits

section Facts

variable {settings : Settings} {sig : Signature} {verifyPassword : String → String → Bool}
  {hashPassword : String → String} {limit party : ℕ} {s s' : State} {request : Request}
  {credentials : Option String} {journal : List Entry} {g : Grant} {e : Entry}

theorem Founded.mono (h : Founded limit journal party g) : Founded limit (e::journal) party g := by
  cases h with
  | plain time hact hentry hexp =>
    refine .plain time hact ?_ hexp
    rcases hentry with hentry | ⟨target,hentry⟩
    · exact .inl (List.mem_cons_of_mem _ hentry)
    · exact .inr ⟨target,List.mem_cons_of_mem _ hentry⟩
  | impersonating actor time hact hentry hne hexp =>
    exact .impersonating actor time hact (List.mem_cons_of_mem _ hentry) hne hexp

theorem Honest.authenticated (h : Honest journal) (he : e ∈ journal) {adminId : ℕ}
    (hadmin : e.admin = some (party,adminId)) : Authenticated journal party adminId := by
  induction journal with
  | nil => cases he
  | cons e' earlier ih =>
    have hearlier : Authenticated earlier party adminId := by
      rcases List.mem_cons.mp he with rfl | he
      · exact h.1 party adminId hadmin
      · exact ih h.2 he
    obtain ⟨time,htime⟩ := hearlier
    exact ⟨time,List.mem_cons_of_mem _ htime⟩

theorem Founded.authenticated (h : Founded limit journal party g) (hj : Honest journal) :
    Authenticated journal party g.person := by
  unfold Grant.person
  cases h with
  | plain time hact hentry hexp =>
    rw [hact]
    rcases hentry with hentry | ⟨target,hentry⟩
    · exact ⟨time,hentry⟩
    · exact hj.authenticated hentry rfl
  | impersonating actor time hact hentry hne hexp =>
    rw [hact]
    exact hj.authenticated hentry rfl

theorem readActor_claims {actor : ℕ} (h : actor ≤ idMax) :
    readActor (.obj [("sub",.str (toString actor))]) = some (actor : ℤ) := by
  have hraw : rawActor (.obj [("sub",.str (toString actor))]) = .str (toString actor) := rfl
  unfold readActor
  rw [hraw,Json.toInt,int_toString h]
  rfl

theorem decodeAccessToken_jwt {token : String} {now : Instant} {payload : Payload}
    (hfits : ∀ g, sig.decode token = some g → g.Fits)
    (h : decodeAccessToken (sig.jwt now) token = some payload) :
    ∃ g, sig.decode token = some g ∧ now ≤ g.exp ∧ payload = ⟨g.sub,g.act.map Nat.cast⟩ := by
  unfold decodeAccessToken at h
  obtain ⟨claims,hclaims,h⟩ := Option.bind_eq_some_iff.mp h
  obtain ⟨g,hg,rfl⟩ := Option.map_eq_some_iff.mp hclaims
  obtain ⟨hdecode,hexp⟩ := Option.filter_eq_some_iff.mp hg
  have hg := hfits g hdecode
  refine ⟨g,hdecode,of_decide_eq_true hexp,?_⟩
  simp only [Grant.claims,Option.bind_some,int_toString hg.sub,Option.map_some,Option.some.injEq] at h
  rw [← h]
  congr 1
  cases hact : g.act with
  | none => rfl
  | some actor => exact readActor_claims (hg.act actor hact)

structure Shown (sig : Signature) (limit : ℕ) (s : State) (party : ℕ) (payload : Payload) (g : Grant) : Prop where
  founded : Founded limit s.journal party g
  fits : g.Fits
  inForce : s.now ≤ g.exp
  payload : payload = ⟨g.sub,g.act.map Nat.cast⟩

theorem Sound.shown (h : Sound limit sig s) (hp : s.Presents sig party request credentials) {token : String}
    (htoken : token ∈ credentials.toList ++ (request.authorization.bind bearer).toList ++ request.accessToken.toList)
    {payload : Payload} (hd : decodeAccessToken (s.jwt sig) token = some payload) :
    ∃ g, Shown sig limit s party payload g := by
  rcases hp token htoken with hheld | hnone
  · obtain ⟨g,hdecode,hexp,hpayload⟩ := decodeAccessToken_jwt (fun g hg => (h.founded party token hheld g hg).2) hd
    obtain ⟨hfounded,hfits⟩ := h.founded party token hheld g hdecode
    exact ⟨g,hfounded,hfits,hexp,hpayload⟩
  · obtain ⟨g,hdecode,_⟩ := decodeAccessToken_jwt (fun g hg => by rw [hnone] at hg; cases hg) hd
    rw [hnone] at hdecode
    cases hdecode

theorem mem_of_presented {token : String} (h : token ∈ presentedTokens request credentials) :
    token ∈ credentials.toList ++ (request.authorization.bind bearer).toList ++ request.accessToken.toList := by
  simp only [presentedTokens,mem_addToken] at h
  simp only [List.mem_append]
  rcases h with (h | h) | h
  · exact .inl (.inl h)
  · exact .inl (.inr (by simp [h]))
  · exact .inr (by rw [(Option.filter_eq_some_iff.mp h).1]; simp)

theorem Shown.person_eq {payload : Payload} (h : Shown sig limit s party payload g) :
    payload.actingPerson = (g.person : ℤ) := by
  rw [h.payload]
  unfold Payload.actingPerson Grant.person
  cases g.act <;> rfl

theorem get_eq_some {users : Store Account} {id : ℤ} {user : ℕ × Account} (h : get users id = some user) :
    id = (user.1 : ℤ) ∧ users.row user.1 = some user.2 := by
  obtain ⟨account,hfind,rfl⟩ := Option.map_eq_some_iff.mp h
  obtain ⟨i,rfl,hrow⟩ := Store.find_eq_some hfind
  exact ⟨rfl,hrow⟩

theorem emailIsAdmin_eq {email : String} (h : emailIsAdmin settings email = true) :
    settings.adminEmail ≠ "" ∧ email = settings.adminEmail := by
  unfold emailIsAdmin at h
  split_ifs at h with hempty
  exact ⟨hempty,of_decide_eq_true h⟩

structure Admin (settings : Settings) (s : State) (admin : ℕ × Account) : Prop where
  row : s.users.row admin.1 = some admin.2
  inForce : admin.2.isBlocked = false
  configured : settings.adminEmail ≠ ""
  email : admin.2.email = settings.adminEmail

theorem getCurrentUser_eq_ok {user : ℕ × Account} (h : getCurrentUser sig s request = .ok user) :
    ∃ token payload, (request.authorization.bind bearer).or request.accessToken = some token ∧
      decodeAccessToken (s.jwt sig) token = some payload ∧ get s.users payload.sub = some user ∧
      user.2.isBlocked = false := by
  unfold getCurrentUser at h
  split at h
  · cases h
  · rename_i token htoken
    split at h
    · cases h
    · rename_i payload hpayload
      split at h
      · cases h
      · rename_i found hget
        split_ifs at h with hblocked
        cases h
        exact ⟨token,payload,htoken,hpayload,hget,Bool.eq_false_iff.mpr hblocked⟩

theorem mem_presentedTokens_of_or {token : String} (hne : token ≠ "")
    (h : (request.authorization.bind bearer).or request.accessToken = some token) :
    token ∈ presentedTokens request none := by
  simp only [presentedTokens,mem_addToken]
  rcases Option.or_eq_some_iff.mp h with hheader | ⟨_,hcookie⟩
  · exact .inl (.inr hheader)
  · exact .inr (by simp [hcookie,hne])

theorem Sound.requireAdmin (h : Sound limit sig s) (hp : s.Presents sig party request none) {admin : ℕ × Account}
    (ha : requireAdmin settings sig s request = .ok admin) : Admin settings s admin ∧
      ∃ payload g, Shown sig limit s party payload g ∧ g.person = admin.1 := by
  unfold Sessions.requireAdmin at ha
  split at ha
  · rename_i actingId hactor
    split at ha
    · cases ha
    · rename_i actor hget
      split_ifs at ha with hrefused
      cases ha
      rw [Bool.or_eq_true,not_or,Bool.not_eq_true,Bool.not_eq_true',Bool.not_eq_false] at hrefused
      obtain ⟨hconfigured,hemail⟩ := emailIsAdmin_eq hrefused.2
      obtain ⟨hid,hrow⟩ := get_eq_some hget
      refine ⟨⟨hrow,hrefused.1,hconfigured,hemail⟩,?_⟩
      obtain ⟨token,htoken,hfound⟩ := List.exists_of_findSome?_eq_some hactor
      obtain ⟨payload,hpayload,hact⟩ := Option.bind_eq_some_iff.mp hfound
      obtain ⟨g,hg⟩ := h.shown hp (mem_of_presented htoken) hpayload
      refine ⟨payload,g,hg,?_⟩
      have hperson := hg.person_eq
      rw [actingPerson_of_actor hact,hid] at hperson
      exact (Nat.cast_injective hperson).symm
  · rename_i hactor
    split at ha
    · cases ha
    · rename_i user huser
      split_ifs at ha with hadmin
      cases ha
      obtain ⟨hconfigured,hemail⟩ := emailIsAdmin_eq hadmin
      obtain ⟨token,payload,htoken,hpayload,hget,hblocked⟩ := getCurrentUser_eq_ok huser
      obtain ⟨hid,hrow⟩ := get_eq_some hget
      refine ⟨⟨hrow,hblocked,hconfigured,hemail⟩,?_⟩
      have hne : token ≠ "" := by
        rintro rfl
        simp at hpayload
      have hmem := mem_presentedTokens_of_or hne htoken
      obtain ⟨g,hg⟩ := h.shown hp (mem_of_presented hmem) hpayload
      refine ⟨payload,g,hg,?_⟩
      have hact : payload.act = none := by
        have hnone := presentedActor_eq_none.mp hactor token hmem
        rwa [hpayload] at hnone
      have hperson := hg.person_eq
      rw [actingPerson_of_subject hact,hid] at hperson
      exact (Nat.cast_injective hperson).symm

theorem Sound.issue (h : Sound limit sig s) {users : Store Account} (hcolumn : InColumn users)
    (hadmin : ∀ party adminId, e.admin = some (party,adminId) → Authenticated s.journal party adminId)
    (hfounded : Founded limit (e::s.journal) party g) (hfits : g.Fits) :
    Sound limit sig ((({ s with users := users } : State).record e).give sig party g) where
  inColumn := hcolumn
  honest := ⟨hadmin,h.honest⟩
  founded := by
    have hold : ∀ p, ∀ token ∈ s.held p, ∀ g', sig.decode token = some g' →
        Founded limit (e::s.journal) p g' ∧ g'.Fits := by
      intro p token htoken g' hg'
      obtain ⟨hf,hfits'⟩ := h.founded p token htoken g' hg'
      exact ⟨hf.mono,hfits'⟩
    intro p token htoken g' hg'
    simp only [State.give,State.record] at htoken ⊢
    split_ifs at htoken with hparty
    · rcases List.mem_cons.mp htoken with rfl | htoken
      · rw [sig.decode_encode] at hg'
        cases hg'
        exact ⟨hparty ▸ hfounded,hfits⟩
      · exact hold p token htoken g' hg'
    · exact hold p token htoken g' hg'

theorem lasting_le {minutes : ℕ} (h : minutes ≤ limit) : s.lasting minutes ≤ s.now+limit*minuteMicros :=
  Int.add_le_add_left (Int.mul_le_mul_of_nonneg_right (Int.ofNat_le.mpr h) (by decide)) s.now

theorem Sound.row_le (h : Sound limit sig s) {id : ℕ} {account : Account} (hrow : s.users.row id = some account) :
    id ≤ idMax := by
  have hlt := Store.row_lt hrow
  have hcolumn := h.inColumn
  unfold InColumn at hcolumn
  omega

theorem Sound.login (h : Sound limit sig s) {email password : String} {minutes : ℕ} (hminutes : minutes ≤ limit) :
    Sound limit sig (login sig verifyPassword s party email password minutes) := by
  unfold Sessions.login
  split
  · exact h
  · rename_i id user huser
    split_ifs with hlogin
    · have hrow : s.users.row id = some user := by
        have hmem : (id,user) ∈ s.users.select fun user => user.email = email := List.mem_of_head? huser
        exact (Store.mem_select.mp hmem).1
      exact h.issue h.inColumn (fun p a ha => by cases ha)
        (.plain s.now rfl (.inl List.mem_cons_self) (lasting_le hminutes)) ⟨h.row_le hrow,fun a ha => by cases ha⟩
    · exact h

theorem Sound.registerComplete (h : Sound limit sig s) {email password : String} (hsize : s.users.size ≤ idMax)
    (hlimit : accessExpireMinutes ≤ limit) :
    Sound limit sig (registerComplete sig hashPassword s party email password) := by
  unfold Sessions.registerComplete
  split
  · exact h
  · split_ifs with hshort
    · exact h
    · exact h.issue (Nat.succ_le_succ hsize) (fun p a ha => by cases ha)
        (.plain s.now rfl (.inl List.mem_cons_self) (lasting_le hlimit)) ⟨hsize,fun a ha => by cases ha⟩

theorem Sound.adminImpersonate (h : Sound limit sig s) (hp : s.Presents sig party request none) {sameOrigin : Bool}
    {userId : ℕ} : Sound limit sig (adminImpersonate settings sig s party request sameOrigin userId) := by
  unfold Sessions.adminImpersonate
  split
  · exact h
  · rename_i adminId admin hrequire
    split
    · exact h
    · split_ifs with hrefused
      · exact h
      · rw [not_or,not_or] at hrefused
        obtain ⟨hadmin,payload,g,hg,hperson⟩ := h.requireAdmin hp hrequire
        obtain ⟨target,htarget⟩ := Option.ne_none_iff_exists'.mp hrefused.2.1
        refine h.issue h.inColumn ?_
          (.impersonating adminId s.now rfl List.mem_cons_self hrefused.2.2 rfl) ⟨h.row_le htarget,?_⟩
        · intro p a ha
          cases ha
          have hauth := hg.founded.authenticated h.honest
          rwa [hperson] at hauth
        · intro a ha
          cases ha
          exact h.row_le hadmin.row

theorem Sound.stopImpersonation (h : Sound limit sig s) (hp : s.Presents sig party request none) {sameOrigin : Bool}
    (hlimit : accessExpireMinutes ≤ limit) :
    Sound limit sig (stopImpersonation sig s party request sameOrigin) := by
  unfold Sessions.stopImpersonation
  dsimp only
  split
  · exact h
  · rename_i actor hactor
    split
    · exact h
    · rename_i adminId admin hget
      split_ifs with hrefused
      · exact h
      · obtain ⟨hid,hrow⟩ := get_eq_some hget
        obtain ⟨payload,hpayload,hact⟩ := Option.bind_eq_some_iff.mp hactor
        obtain ⟨token,htoken,hdecode⟩ := Option.bind_eq_some_iff.mp hpayload
        have hcookie := (Option.filter_eq_some_iff.mp htoken).1
        obtain ⟨g,hg⟩ := h.shown hp (List.mem_append_right _ (by simp [hcookie])) hdecode
        refine h.issue h.inColumn ?_ (.plain s.now rfl (.inr ⟨_,List.mem_cons_self⟩) (lasting_le hlimit))
          ⟨h.row_le hrow,fun a ha => by cases ha⟩
        intro p a ha
        cases ha
        have hauth := hg.founded.authenticated h.honest
        have hperson := hg.person_eq
        rw [actingPerson_of_actor hact,hid] at hperson
        rwa [← Nat.cast_injective hperson] at hauth

theorem Sound.adminAction (h : Sound limit sig s) (hp : s.Presents sig party request none) :
    Sound limit sig (adminAction settings sig s party request) := by
  unfold Sessions.adminAction
  split
  · exact h
  · rename_i adminId admin hrequire
    obtain ⟨_,payload,g,hg,hperson⟩ := h.requireAdmin hp hrequire
    refine ⟨h.inColumn,⟨?_,h.honest⟩,fun p token htoken g' hg' => ?_⟩
    · intro p a ha
      cases ha
      have hauth := hg.founded.authenticated h.honest
      rwa [hperson] at hauth
    · obtain ⟨hf,hfits⟩ := h.founded p token htoken g' hg'
      exact ⟨hf.mono,hfits⟩

/-- The longest time for which a plain token is given out -/
def Settings.longest (settings : Settings) : ℕ := max accessExpireMinutes settings.accessTokenExpireMinutes

theorem Sound.step (h : Sound settings.longest sig s) {event : Event}
    (hs : Step settings sig verifyPassword hashPassword s event s') : Sound settings.longest sig s' := by
  have haccess : accessExpireMinutes ≤ settings.longest := Nat.le_max_left _ _
  cases hs with
  | wait elapsed => exact ⟨h.inColumn,h.honest,h.founded⟩
  | edit users hcolumn => exact ⟨hcolumn,h.honest,h.founded⟩
  | login party email password => exact h.login haccess
  | apiLogin party email password => exact h.login (Nat.le_max_right _ _)
  | registerComplete party email password hsize => exact h.registerComplete hsize haccess
  | adminImpersonate party request sameOrigin userId hp => exact h.adminImpersonate hp
  | stopImpersonation party request sameOrigin hp => exact h.stopImpersonation hp haccess
  | adminAction party request hp => exact h.adminAction hp

theorem Initial.sound (h : Initial s) : Sound limit sig s where
  inColumn := h.inColumn
  honest := by
    rw [h.journal]
    trivial
  founded := by
    intro party token htoken
    rw [h.held party] at htoken
    cases htoken

theorem sound_of_run (hi : Initial s) (hr : Reaches settings sig verifyPassword hashPassword s s') :
    Sound settings.longest sig s' := by
  induction hr with
  | refl => exact hi.sound
  | tail _ hs ih =>
    obtain ⟨event,hs⟩ := hs
    exact ih.step hs

/-- The party has lately proved to be this person, or it is an administrator who has lately entered his account. -/
inductive StandsBehind (limit : ℕ) (s : State) (party userId : ℕ) : Prop
  | self (time : Instant) (hauth : Authenticated s.journal party userId)
      (hentry : .authenticated party userId time ∈ s.journal ∨
        ∃ target, .impersonationStop party userId target time ∈ s.journal)
      (htime : s.now ≤ time+limit*minuteMicros)
  | admin (adminId : ℕ) (time : Instant) (hauth : Authenticated s.journal party adminId) (hne : userId ≠ adminId)
      (hentry : .impersonationStart party adminId userId time ∈ s.journal)
      (htime : s.now ≤ time+impersonationExpireMinutes*minuteMicros)

theorem Shown.standsBehind {payload : Payload} (h : Shown sig limit s party payload g) (hj : Honest s.journal) :
    StandsBehind limit s party g.sub := by
  have hperson := h.founded.authenticated hj
  unfold Grant.person at hperson
  have hnow := h.inForce
  cases h.founded with
  | plain time hact hentry hexp =>
    rw [hact] at hperson
    exact .self time hperson hentry (Int.le_trans hnow hexp)
  | impersonating actor time hact hentry hne hexp =>
    rw [hact] at hperson
    exact .admin actor time hperson hne hentry (hexp ▸ hnow)

theorem State.Presents.without (hp : s.Presents sig party request credentials) : s.Presents sig party request none :=
  fun token htoken => hp token (by
    simp only [Option.toList_none,List.nil_append,List.mem_append] at htoken ⊢
    exact htoken.elim (fun h => .inl (.inr h)) .inr)

/-- Routes, pages and the section of administrators let a party in only as somebody whom it has proved to be, or
as somebody whose account it has entered as an administrator. -/
structure LetIn (settings : Settings) (sig : Signature) (s : State) (party : ℕ) (request : Request)
    (credentials : Option String) : Prop where
  route : ∀ userId, getCurrentUserId (s.jwt sig) request credentials = .ok userId →
    ∃ id : ℕ, userId = id ∧ StandsBehind settings.longest s party id
  page : ∀ users pageUser, getUserFromCookie (s.jwt sig) users request = some pageUser →
    ∃ id : ℕ, pageUser.id = id ∧ StandsBehind settings.longest s party id
  admin : ∀ admin, requireAdmin settings sig s request = .ok admin →
    Admin settings s admin ∧ Authenticated s.journal party admin.1

end Facts

section Authority

variable (settings : Settings) (sig : Signature) (verifyPassword : String → String → Bool)
  (hashPassword : String → String)

/-- The journal names as an administrator only somebody whom the party has proved to be before. -/
theorem nobody_acts_as_somebody_else (s s' : State) (hi : Initial s)
    (hr : Reaches settings sig verifyPassword hashPassword s s') :
    Honest s'.journal ∧ ∀ party request credentials, s'.Presents sig party request credentials →
      LetIn settings sig s' party request credentials := by
  have hs := sound_of_run hi hr
  refine ⟨hs.honest,fun party request credentials hp => ⟨fun userId huser => ?_,fun users pageUser hpage => ?_,
    fun admin hadmin => ?_⟩⟩
  · obtain ⟨token,payload,htoken,hdecode,rfl⟩ := getCurrentUserId_eq_ok.mp huser
    have hmem : token ∈ credentials.toList ++ (request.authorization.bind bearer).toList ++
        request.accessToken.toList := by
      unfold routeToken at htoken
      cases credentials with
      | some token' =>
        cases htoken
        simp
      | none => simp [htoken]
    obtain ⟨g,hg⟩ := hs.shown hp hmem hdecode
    exact ⟨g.sub,by rw [hg.payload],hg.standsBehind hs.honest⟩
  · obtain ⟨token,payload,hcookie,hdecode,hid⟩ : ∃ token payload, request.accessToken = some token ∧
        decodeAccessToken (s'.jwt sig) token = some payload ∧ pageUser.id = payload.sub := by
      unfold getUserFromCookie at hpage
      split at hpage
      · cases hpage
      · rename_i token hcookie
        split_ifs at hpage
        split at hpage
        · cases hpage
        · rename_i payload hdecode
          split at hpage
          · cases hpage
          · dsimp only at hpage
            split_ifs at hpage
            cases hpage
            exact ⟨token,payload,hcookie,hdecode,rfl⟩
    obtain ⟨g,hg⟩ := hs.shown hp (List.mem_append_right _ (by simp [hcookie])) hdecode
    exact ⟨g.sub,by rw [hid,hg.payload],hg.standsBehind hs.honest⟩
  · obtain ⟨hrow,payload,g,hg,hperson⟩ := hs.requireAdmin hp.without hadmin
    exact ⟨hrow,hperson ▸ hg.founded.authenticated hs.honest⟩

end Authority

def number (n : ℕ) : List Char := Nat.toDigits 10 n ++ ['/']

def readNumber (cs : List Char) : ℕ × List Char :=
  (Nat.ofDigitChars 10 (cs.takeWhile Char.isDigit) 0,(cs.dropWhile Char.isDigit).drop 1)

theorem readNumber_number (n : ℕ) (cs : List Char) : readNumber (number n ++ cs) = (n,cs) := by
  have hdigits : ∀ c ∈ Nat.toDigits 10 n, c.isDigit = true :=
    fun c hc => Nat.isDigit_of_mem_toDigits (by decide) (by decide) hc
  have hslash : ('/' : Char).isDigit = false := by decide
  unfold readNumber number
  rw [List.append_assoc,List.takeWhile_append_of_pos hdigits,List.dropWhile_append_of_pos hdigits]
  simp [hslash,Nat.ofDigitChars_ten_toDigits]

def plainText : Signature where
  encode g := String.ofList (number g.sub ++ (number (g.act.elim 0 Nat.succ) ++
    (number g.exp.toNat ++ (number (-g.exp).toNat ++ []))))
  decode token :=
    if token = "" then none
    else
      let (sub,cs) := readNumber token.toList
      let (act,cs) := readNumber cs
      let (pos,cs) := readNumber cs
      let (neg,_) := readNumber cs
      some ⟨sub,if act = 0 then none else some (act-1),pos-neg⟩
  decode_encode := by
    intro g
    rw [if_neg]
    · simp only [String.toList_ofList,readNumber_number]
      have hexp : (g.exp.toNat : ℤ)-((-g.exp).toNat : ℤ) = g.exp := by omega
      rw [hexp]
      obtain ⟨sub,act,exp⟩ := g
      cases act <;> simp
    · intro h
      have hlist := congrArg String.toList h
      simp [number] at hlist
  decode_empty := rfl

def adminOfSite : Settings := ⟨"admin@example.org",1440⟩

def twoAccounts : State where
  now := 0
  users := ((Store.empty Account).insert ⟨"admin@example.org","secret",false⟩).insert ⟨"user@example.org","own",false⟩
  held := fun _ => []
  journal := []

def cookie (g : Grant) : Request := ⟨none,some (plainText.encode g)⟩

def ownGrant : Grant := ⟨0,none,86400000000⟩

def userGrant : Grant := ⟨1,some 0,3600000000⟩

def sameText (password hash : String) : Bool := password = hash

def entered : State :=
  adminImpersonate adminOfSite plainText
    (login plainText sameText twoAccounts 5 "admin@example.org" "secret" accessExpireMinutes) 5 (cookie ownGrant) true 1

theorem entered_journal : entered.journal = [.impersonationStart 5 0 1 0,.authenticated 5 0 0] := by
  decide +kernel

theorem entered_held : entered.held 5 = [plainText.encode userGrant,plainText.encode ownGrant] := by
  decide +kernel

theorem nobody_acts_as_somebody_else_user : getCurrentUserId (entered.jwt plainText) (cookie userGrant) none = .ok 1 ∧
    StandsBehind 1440 entered 5 1 ∧ entered.journal = [.impersonationStart 5 0 1 0,.authenticated 5 0 0] := by
  have hown : (login plainText sameText twoAccounts 5 "admin@example.org" "secret" accessExpireMinutes).held 5 =
      [plainText.encode ownGrant] := by
    decide +kernel
  have hreaches : Reaches adminOfSite plainText sameText id twoAccounts entered := by
    refine .tail (.single ⟨_,.login 5 "admin@example.org" "secret"⟩)
      ⟨_,.adminImpersonate 5 (cookie ownGrant) true 1 ?_⟩
    intro token htoken
    rw [hown]
    have htoken : token = plainText.encode ownGrant := by simpa [cookie] using htoken
    exact .inl (htoken ▸ List.mem_cons_self)
  have hpresents : entered.Presents plainText 5 (cookie userGrant) none := by
    intro token htoken
    rw [entered_held]
    have htoken : token = plainText.encode userGrant := by simpa [cookie] using htoken
    exact .inl (htoken ▸ List.mem_cons_self)
  have hletIn := (nobody_acts_as_somebody_else adminOfSite plainText sameText id twoAccounts entered
    ⟨fun _ => rfl,rfl,Nat.le_of_ble_eq_true rfl⟩ hreaches).2 5 (cookie userGrant) none hpresents
  have huser : getCurrentUserId (entered.jwt plainText) (cookie userGrant) none = .ok 1 := by
    decide +kernel
  obtain ⟨userId,hid,hbehind⟩ := hletIn.route 1 huser
  have hone : userId = 1 := by omega
  exact ⟨huser,hone ▸ hbehind,entered_journal⟩

end Sessions
end Broadcaster
