import Broadcaster.Models

/-!
# Who a request comes from

A token names a subject and, when an administrator acts for somebody else, an
actor. A request may present one token in the `Authorization` header and
another in the cookie. JSON routes authenticate through
`get_current_user_id_active`, pages through `get_user_from_cookie`. The check of
signatures and expiry is the parameter `jwt`.
-/

namespace Broadcaster
namespace RequestIdentity

open Python

/-- What `jwt.decode` returns; it accepts no `sub` that is not a string. -/
structure Claims where
  sub : Option String
  act : Option Json
  deriving DecidableEq

/-- `jwt.decode` with the key of the settings; `none` is a `JWTError`. -/
structure Jwt where
  decode : String → Option Claims
  decode_empty : decode "" = none

/-- A payload after `decode_access_token`: `act` is kept as `{"sub": actor}` or popped. -/
structure Payload where
  sub : ℤ
  act : Option ℤ
  deriving DecidableEq

structure Request where
  authorization : Option String
  accessToken : Option String
  deriving DecidableEq

structure HttpException where
  statusCode : ℕ
  detail : String
  deriving DecidableEq

def notAuthenticated : HttpException := ⟨401,"Not authenticated"⟩

def invalidToken : HttpException := ⟨401,"Invalid token"⟩

def userNotFound : HttpException := ⟨401,"User not found"⟩

def blockedDetail : String :=
  "Учётная запись заблокирована. Разделы продукта закрыты до снятия " ++
  "блокировки — обратитесь в поддержку."

def blocked : HttpException := ⟨403,blockedDetail⟩

/-- `claim.get("sub") if isinstance(claim, dict) else claim`, without booleans. -/
def rawActor (claim : Json) : Json :=
  let raw :=
    match claim with
    | .obj fields => (fields.lookup "sub").getD .null
    | claim => claim
  match raw with
  | .bool _ => .null
  | raw => raw

/-- A claim that `int` rejects is as good as absent. -/
def readActor (claim : Json) : Option ℤ := (rawActor claim).toInt.toOption

def decodeAccessToken (jwt : Jwt) (token : String) : Option Payload :=
  (jwt.decode token).bind fun claims => claims.sub.bind fun sub =>
    (int sub.toList).map fun n => ⟨n,claims.act.bind readActor⟩

def actorId (payload : Option Payload) : Option ℤ := payload.bind Payload.act

variable (jwt : Jwt) (users : Store User)

/-- The token whose subject the route works for. -/
def routeToken (request : Request) (credentials : Option String) : Option String :=
  match credentials with
  | some token => some token
  | none => request.accessToken

def getCurrentUserId (request : Request) (credentials : Option String) :
    Except HttpException ℤ :=
  match routeToken request credentials with
  | none => .error notAuthenticated
  | some token =>
    match decodeAccessToken jwt token with
    | none => .error invalidToken
    | some payload => .ok payload.sub

/-- `auth_header[7:]` of a header that starts with `"Bearer "` -/
def bearer (header : String) : Option String :=
  if "Bearer ".toList.isPrefixOf header.toList then some (String.ofList (header.toList.drop 7)) else none

def addToken (tokens : List String) : Option String → List String
  | none => tokens
  | some token => if token ∈ tokens then tokens else tokens ++ [token]

def presentedTokens (request : Request) (credentials : Option String) : List String :=
  let tokens := credentials.toList
  let tokens := addToken tokens (request.authorization.bind bearer)
  addToken tokens (request.accessToken.filter fun token => token ≠ "")

/-- `_actor_id`: the first actor that any presented token names. -/
def presentedActor (request : Request) (credentials : Option String) : Option ℤ :=
  (presentedTokens request credentials).findSome? fun token => actorId (decodeAccessToken jwt token)

def getCurrentUserIdActive (request : Request) (credentials : Option String) :
    Except HttpException ℤ :=
  match getCurrentUserId jwt request credentials with
  | .error e => .error e
  | .ok userId =>
    match presentedActor jwt request credentials with
    | some _ => .ok userId
    | none =>
      match users.find userId with
      | none => .error userNotFound
      | some user => if user.isBlocked then .error blocked else .ok userId

/-- The row of the subject with the attribute `impersonated_by`. -/
structure PageUser where
  id : ℤ
  user : User
  impersonatedBy : Option User
  deriving DecidableEq

def getUserFromCookie (request : Request) : Option PageUser :=
  match request.accessToken with
  | none => none
  | some token =>
    if token = "" then none
    else
      match decodeAccessToken jwt token with
      | none => none
      | some payload =>
        match users.find payload.sub with
        | none => none
        | some user =>
          let actor := (actorId (some payload)).bind users.find
          if actor.isNone && user.isBlocked then none
          else some ⟨payload.sub,user,actor⟩

namespace Payload

/-- Whoever acts under the token: its actor, or else its subject. -/
def actingPerson (payload : Payload) : ℤ := payload.act.getD payload.sub

end Payload

/-- The account exists and is not blocked. -/
def InForce (id : ℤ) : Prop := ∃ user, users.find id = some user ∧ user.isBlocked = false

structure Admissible (payload : Payload) : Prop where
  person : InForce users payload.actingPerson
  subject : payload.act = none → ∀ user, users.find payload.sub = some user → user.isBlocked = false

/-- Whoever passes the dependency of the JSON routes passes with an admissible token. -/
def RouteAdmits (request : Request) (credentials : Option String) : Prop :=
  ∀ userId, getCurrentUserIdActive jwt users request credentials = .ok userId →
    ∃ token payload, routeToken request credentials = some token ∧
      decodeAccessToken jwt token = some payload ∧ payload.sub = userId ∧ Admissible users payload

/-- Whoever the pages take for logged in has an admissible token in the cookie. -/
def PageAdmits (request : Request) : Prop :=
  ∀ pageUser, getUserFromCookie jwt users request = some pageUser →
    ∃ token payload, request.accessToken = some token ∧
      decodeAccessToken jwt token = some payload ∧ payload.sub = pageUser.id ∧ Admissible users payload

/-- The token of the route names nobody out of force, or no token of the request names an actor. -/
def RouteCondition (request : Request) (credentials : Option String) : Prop :=
  ∀ token payload, routeToken request credentials = some token →
    decodeAccessToken jwt token = some payload →
    InForce users payload.actingPerson ∨
      ∀ presented ∈ presentedTokens request credentials, actorId (decodeAccessToken jwt presented) = none

/-- The actor that the cookie names, if any, is in force, or is missing while the subject is blocked. -/
def PageCondition (request : Request) : Prop :=
  ∀ token payload user actor, request.accessToken = some token →
    decodeAccessToken jwt token = some payload → users.find payload.sub = some user →
    payload.act = some actor →
    InForce users actor ∨ (users.find actor = none ∧ user.isBlocked = true)

section Facts

variable {jwt : Jwt} {users : Store User} {request : Request} {credentials : Option String}
  {token : String} {payload : Payload}

theorem actingPerson_of_subject (h : payload.act = none) : payload.actingPerson = payload.sub := by
  simp [Payload.actingPerson,h]

theorem actingPerson_of_actor {actor : ℤ} (h : payload.act = some actor) :
    payload.actingPerson = actor := by
  simp [Payload.actingPerson,h]

theorem admissible_iff : Admissible users payload ↔ InForce users payload.actingPerson := by
  constructor
  · intro h
    exact h.person
  · intro h
    have hsubject : payload.act = none →
        ∀ user, users.find payload.sub = some user → user.isBlocked = false := by
      intro hact user huser
      obtain ⟨person,hperson,hfree⟩ := h
      rw [actingPerson_of_subject hact,huser] at hperson
      rw [Option.some.inj hperson]
      exact hfree
    exact ⟨h,hsubject⟩

@[simp] theorem decodeAccessToken_empty : decodeAccessToken jwt "" = none := by
  simp [decodeAccessToken,jwt.decode_empty]

theorem mem_addToken {tokens : List String} {added : Option String} :
    token ∈ addToken tokens added ↔ token ∈ tokens ∨ added = some token := by
  cases added with
  | none => simp [addToken]
  | some t =>
    by_cases ht : t ∈ tokens
    · simp only [addToken,ht,if_true,Option.some.injEq]
      constructor
      · exact Or.inl
      · rintro (h | rfl)
        · exact h
        · exact ht
    · simp [addToken,ht,eq_comm]

theorem mem_presentedTokens (h : routeToken request credentials = some token) (hne : token ≠ "") :
    token ∈ presentedTokens request credentials := by
  simp only [presentedTokens,mem_addToken]
  cases credentials with
  | some t =>
    have ht : t = token := Option.some.inj h
    simp [ht]
  | none =>
    have ht : request.accessToken = some token := h
    simp [ht,hne]

theorem getCurrentUserId_eq_ok {userId : ℤ} :
    getCurrentUserId jwt request credentials = .ok userId ↔
      ∃ token payload, routeToken request credentials = some token ∧
        decodeAccessToken jwt token = some payload ∧ payload.sub = userId := by
  unfold getCurrentUserId
  cases routeToken request credentials with
  | none => simp
  | some token =>
    cases hd : decodeAccessToken jwt token with
    | none => simp [hd]
    | some payload => simp [hd]

theorem presentedActor_eq_none : presentedActor jwt request credentials = none ↔
    ∀ presented ∈ presentedTokens request credentials,
      actorId (decodeAccessToken jwt presented) = none := by
  simp [presentedActor,List.findSome?_eq_none_iff]

theorem active_of_no_actor {userId : ℤ} (hactor : presentedActor jwt request credentials = none) :
    getCurrentUserIdActive jwt users request credentials = .ok userId ↔
      getCurrentUserId jwt request credentials = .ok userId ∧ InForce users userId := by
  unfold getCurrentUserIdActive
  rw [hactor]
  cases hid : getCurrentUserId jwt request credentials with
  | error e => simp
  | ok id =>
    cases hu : users.find id with
    | none =>
      simp only [hu,reduceCtorEq,Except.ok.injEq,false_iff,not_and]
      rintro rfl ⟨user,huser,_⟩
      rw [hu] at huser
      cases huser
    | some user =>
      cases hb : user.isBlocked with
      | true =>
        simp only [hu,hb,if_true,reduceCtorEq,Except.ok.injEq,false_iff,not_and]
        rintro rfl ⟨other,hother,hfree⟩
        rw [hu,Option.some.injEq] at hother
        rw [← hother,hb] at hfree
        cases hfree
      | false =>
        simp only [hu,hb,Bool.false_eq_true,if_false,Except.ok.injEq,iff_self_and]
        rintro rfl
        exact ⟨user,hu,hb⟩

theorem active_of_actor {userId actor : ℤ} (hactor : presentedActor jwt request credentials = some actor) :
    getCurrentUserIdActive jwt users request credentials = .ok userId ↔
      getCurrentUserId jwt request credentials = .ok userId := by
  unfold getCurrentUserIdActive
  rw [hactor]
  cases getCurrentUserId jwt request credentials <;> simp

theorem routeAdmits_iff : RouteAdmits jwt users request credentials ↔
    RouteCondition jwt users request credentials := by
  constructor
  · intro h token payload ht hp
    cases hactor : presentedActor jwt request credentials with
    | none => exact .inr (presentedActor_eq_none.mp hactor)
    | some actor =>
      have hok : getCurrentUserIdActive jwt users request credentials = .ok payload.sub :=
        (active_of_actor hactor).mpr (getCurrentUserId_eq_ok.mpr ⟨token,payload,ht,hp,rfl⟩)
      obtain ⟨token',payload',ht',hp',_,hadmissible⟩ := h _ hok
      have htoken : token' = token := Option.some.inj (ht'.symm.trans ht)
      rw [htoken,hp] at hp'
      rw [Option.some.inj hp']
      exact .inl hadmissible.person
  · intro h userId hok
    cases hactor : presentedActor jwt request credentials with
    | some actor =>
      obtain ⟨token,payload,ht,hp,hsub⟩ := getCurrentUserId_eq_ok.mp ((active_of_actor hactor).mp hok)
      refine ⟨token,payload,ht,hp,hsub,admissible_iff.mpr ?_⟩
      apply (h token payload ht hp).resolve_right
      intro hnone
      rw [presentedActor_eq_none.mpr hnone] at hactor
      cases hactor
    | none =>
      obtain ⟨hid,hforce⟩ := (active_of_no_actor hactor).mp hok
      obtain ⟨token,payload,ht,hp,hsub⟩ := getCurrentUserId_eq_ok.mp hid
      refine ⟨token,payload,ht,hp,hsub,admissible_iff.mpr ?_⟩
      have hne : token ≠ "" := by
        rintro rfl
        rw [decodeAccessToken_empty] at hp
        cases hp
      have hact : payload.act = none := by
        have hown := presentedActor_eq_none.mp hactor token (mem_presentedTokens ht hne)
        simpa [actorId,hp] using hown
      rw [actingPerson_of_subject hact,hsub]
      exact hforce

/-- A page is served to the subject of the cookie unless nobody existing acts and it is blocked. -/
theorem getUserFromCookie_eq_some {pageUser : PageUser} :
    getUserFromCookie jwt users request = some pageUser ↔
      ∃ token payload user, request.accessToken = some token ∧
        decodeAccessToken jwt token = some payload ∧ users.find payload.sub = some user ∧
        (payload.act.bind users.find = none → user.isBlocked = false) ∧
        pageUser = ⟨payload.sub,user,payload.act.bind users.find⟩ := by
  unfold getUserFromCookie
  cases ht : request.accessToken with
  | none => simp
  | some token =>
    by_cases hne : token = ""
    · subst hne
      simp
    · cases hp : decodeAccessToken jwt token with
      | none => simp [hne,hp]
      | some payload =>
        cases hu : users.find payload.sub with
        | none => simp [hne,hp,hu]
        | some user =>
          have hactor : actorId (some payload) = payload.act := rfl
          simp only [hne,if_false,hp,hu,hactor]
          constructor
          · intro h
            refine ⟨token,payload,user,rfl,hp,hu,?_⟩
            revert h
            generalize payload.act.bind users.find = actor
            cases actor <;> cases user.isBlocked <;> simp [eq_comm]
          · rintro ⟨token',payload',user',ht',hp',hu',hlet,rfl⟩
            cases ht'
            rw [hp] at hp'
            cases hp'
            rw [hu] at hu'
            cases hu'
            revert hlet
            generalize payload.act.bind users.find = actor
            cases actor <;> cases user.isBlocked <;> simp

theorem pageAdmits_iff : PageAdmits jwt users request ↔ PageCondition jwt users request := by
  constructor
  · intro h token payload user actor ht hp hu hactor
    by_cases hlet : payload.act.bind users.find = none → user.isBlocked = false
    · have hok := getUserFromCookie_eq_some.mpr ⟨token,payload,user,ht,hp,hu,hlet,rfl⟩
      obtain ⟨token',payload',ht',hp',_,hadmissible⟩ := h _ hok
      have htoken : token' = token := Option.some.inj (ht'.symm.trans ht)
      rw [htoken,hp] at hp'
      have hperson := hadmissible.person
      rw [← Option.some.inj hp',actingPerson_of_actor hactor] at hperson
      exact .inl hperson
    · rw [Classical.not_imp,hactor] at hlet
      exact .inr ⟨hlet.1,by simpa using hlet.2⟩
  · intro h pageUser hok
    obtain ⟨token,payload,user,ht,hp,hu,hlet,rfl⟩ := getUserFromCookie_eq_some.mp hok
    refine ⟨token,payload,ht,hp,rfl,admissible_iff.mpr ?_⟩
    cases hact : payload.act with
    | none =>
      rw [actingPerson_of_subject hact]
      exact ⟨user,hu,hlet (by simp [hact])⟩
    | some actor =>
      rw [actingPerson_of_actor hact]
      apply (h token payload user actor ht hp hu hact).resolve_right
      rintro ⟨hmissing,hblocked⟩
      rw [hlet (by simpa [hact] using hmissing)] at hblocked
      cases hblocked

end Facts

/-- The two entrances let in only people in force exactly under the two conditions. -/
theorem admits_only_people_in_force (jwt : Jwt) (users : Store User) (request : Request)
    (credentials : Option String) :
    (RouteAdmits jwt users request credentials ↔ RouteCondition jwt users request credentials) ∧
    (PageAdmits jwt users request ↔ PageCondition jwt users request) :=
  ⟨routeAdmits_iff,pageAdmits_iff⟩

def twoUsers : Store User := ((Store.empty User).insert ⟨true,"UTC"⟩).insert ⟨false,"UTC"⟩

def impersonation : Jwt where
  decode token := if token = "t" then some ⟨some "1",some (.obj [("sub",.str "0")])⟩ else none
  decode_empty := by decide

def impersonationCookie : Request := ⟨none,some "t"⟩

theorem blocked_administrator_admitted :
    ¬ RouteAdmits impersonation twoUsers impersonationCookie none ∧
    ¬ PageAdmits impersonation twoUsers impersonationCookie := by
  have hdecode : decodeAccessToken impersonation "t" = some ⟨1,some 0⟩ := by decide
  have hzero : ¬ InForce twoUsers 0 := by
    rintro ⟨user,huser,hfree⟩
    have hrow : twoUsers.find 0 = some ⟨true,"UTC"⟩ := by decide
    rw [hrow] at huser
    cases huser
    cases hfree
  constructor
  · rw [routeAdmits_iff]
    intro h
    rcases h "t" ⟨1,some 0⟩ rfl hdecode with hforce | hnone
    · exact hzero hforce
    · have hactor := hnone "t" (by decide)
      rw [hdecode] at hactor
      cases hactor
  · rw [pageAdmits_iff]
    intro h
    have hrow : twoUsers.find 1 = some ⟨false,"UTC"⟩ := by decide
    rcases h "t" ⟨1,some 0⟩ ⟨false,"UTC"⟩ 0 rfl hdecode hrow rfl with hforce | ⟨_,hblocked⟩
    · exact hzero hforce
    · cases hblocked

end RequestIdentity
end Broadcaster
