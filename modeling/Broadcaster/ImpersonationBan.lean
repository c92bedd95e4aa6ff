import Broadcaster.Redirects
import Broadcaster.RequestIdentity

/-!
# The ban on actions under another identity

Routes whose action cannot be undone or costs money depend on
`forbid_when_impersonating`. The framework runs the dependency first; when it
raises, the handler does not run. The handler chooses its identity by itself,
from the header or from the cookie.
-/

namespace Broadcaster
namespace ImpersonationBan

open RequestIdentity

def impersonationForbiddenDetail : String :=
  "Действие недоступно под чужой учётной записью: вы вошли под пользователем. " ++
  "Вернитесь в свою учётную запись, чтобы выполнить его."

def impersonationRefusedLocation : String := "/dashboard?notice=impersonation_forbidden"

/-- An answer with a JSON body, or one that sends the browser elsewhere by a header. -/
inductive Response
  | json (e : HttpException)
  | hxLocation (statusCode : ℕ) (path : String)
  deriving DecidableEq

def locationResponse (location : String) : Except Redirects.Refusal Response :=
  (Redirects.localPath location).map (.hxLocation 204)

/-- A refusal of a dependency: for the layer of htmx or for everybody else. -/
inductive Raised
  | htmxRefusal (location : String)
  | http (e : HttpException)
  deriving DecidableEq

/-- An empty header is none. -/
def isHtmx (hxRequest : Option String) : Bool := hxRequest.any fun value => value ≠ ""

def refuse (hxRequest : Option String) (location : String) (withoutHtmx : HttpException) : Raised :=
  if isHtmx hxRequest then .htmxRefusal location else .http withoutHtmx

section

variable (jwt : Jwt)

def forbidWhenImpersonating (request : Request) (hxRequest : Option String) (credentials : Option String) :
    Except Raised Unit :=
  match presentedActor jwt request credentials with
  | none => .ok ()
  | some _ => .error (refuse hxRequest impersonationRefusedLocation ⟨403,impersonationForbiddenDetail⟩)

/-- What comes of a request; a refusal may fail on the way out. -/
inductive Reply (R : Type)
  | handled (r : R)
  | refused (response : Response)
  | failed
  deriving DecidableEq

def answer {R : Type} : Raised → Reply R
  | .http e => .refused (.json e)
  | .htmxRefusal location =>
    match locationResponse location with
    | .ok response => .refused response
    | .error _ => .failed

def serve {S R : Type} (request : Request) (hxRequest credentials : Option String) (handler : S → S × R) (s : S) :
    S × Reply R :=
  match forbidWhenImpersonating jwt request hxRequest credentials with
  | .error raised => (s,answer raised)
  | .ok () =>
    let r := handler s
    (r.1,.handled r.2)

/-- The identity of the handler is the subject of this token. -/
inductive ActsUnder (users : Store User) (request : Request) (credentials : Option String) (payload : Payload) : Prop
  | route (token : String) (hid : getCurrentUserId jwt request credentials = .ok payload.sub)
      (htoken : routeToken request credentials = some token) (hpayload : decodeAccessToken jwt token = some payload)
  | page (token : String) (pageUser : PageUser) (huser : getUserFromCookie jwt users request = some pageUser)
      (hid : pageUser.id = payload.sub) (htoken : request.accessToken = some token)
      (hpayload : decodeAccessToken jwt token = some payload)

end

section Ban

variable {jwt : Jwt} {users : Store User} {request : Request} {hxRequest credentials : Option String} {payload : Payload}

def refusal (hxRequest : Option String) : Response :=
  if isHtmx hxRequest then .hxLocation 204 impersonationRefusedLocation else .json ⟨403,impersonationForbiddenDetail⟩

theorem answer_refuse (hxRequest : Option String) {R : Type} :
    answer (R := R) (refuse hxRequest impersonationRefusedLocation ⟨403,impersonationForbiddenDetail⟩) =
      .refused (refusal hxRequest) := by
  have hlocation : locationResponse impersonationRefusedLocation =
      .ok (.hxLocation 204 impersonationRefusedLocation) := by
    decide +kernel
  unfold refuse refusal
  split_ifs
  · simp [answer,hlocation]
  · rfl

theorem ActsUnder.presented (h : ActsUnder jwt users request credentials payload) :
    ∃ token ∈ presentedTokens request credentials, decodeAccessToken jwt token = some payload := by
  have hne : ∀ token, decodeAccessToken jwt token = some payload → token ≠ "" := by
    rintro token hpayload rfl
    simp at hpayload
  cases h with
  | route token hid htoken hpayload =>
    exact ⟨token,mem_presentedTokens htoken (hne token hpayload),hpayload⟩
  | page token pageUser huser hid htoken hpayload =>
    refine ⟨token,?_,hpayload⟩
    simp [presentedTokens,mem_addToken,htoken,hne token hpayload]

theorem presentedActor_isSome (h : ActsUnder jwt users request credentials payload) (hact : payload.act ≠ none) :
    ∃ actor, presentedActor jwt request credentials = some actor := by
  obtain ⟨token,hmem,hpayload⟩ := h.presented
  cases hactor : presentedActor jwt request credentials with
  | some actor => exact ⟨actor,rfl⟩
  | none =>
    have hnone := presentedActor_eq_none.mp hactor token hmem
    rw [hpayload] at hnone
    exact absurd hnone hact

/-- Where no token names an actor the ban is not felt. -/
theorem serve_of_no_actor {S R : Type} (handler : S → S × R) (s : S)
    (h : ∀ token ∈ presentedTokens request credentials, actorId (decodeAccessToken jwt token) = none) :
    serve jwt request hxRequest credentials handler s = ((handler s).1,.handled (handler s).2) := by
  simp [serve,forbidWhenImpersonating,presentedActor_eq_none.mpr h]

/-- Whoever would act under a token with an actor is refused, and the handler has changed nothing. -/
theorem impersonated_action_is_refused (jwt : Jwt) (users : Store User) (request : Request)
    (hxRequest credentials : Option String) (payload : Payload) (h : ActsUnder jwt users request credentials payload)
    (hact : payload.act ≠ none) {S R : Type} (handler : S → S × R) (s : S) :
    serve jwt request hxRequest credentials handler s = (s,.refused (refusal hxRequest)) := by
  obtain ⟨actor,hactor⟩ := presentedActor_isSome h hact
  simp only [serve,forbidWhenImpersonating,hactor,answer_refuse]

/-- A page acts under the cookie while the header carries no token at all. -/
theorem impersonated_action_is_refused_cookie :
    serve impersonation impersonationCookie (some "true") (some "no token") (fun n : ℕ => (n+1,())) 0 =
      (0,.refused (.hxLocation 204 "/dashboard?notice=impersonation_forbidden")) := by
  have hpage : ActsUnder impersonation twoUsers impersonationCookie (some "no token") ⟨1,some 0⟩ :=
    .page "t" ⟨1,⟨false,"UTC"⟩,some ⟨true,"UTC"⟩⟩ (by decide) rfl rfl (by decide)
  exact impersonated_action_is_refused impersonation twoUsers impersonationCookie (some "true") (some "no token")
    ⟨1,some 0⟩ hpage (by decide) (fun n : ℕ => (n+1,())) 0

end Ban

end ImpersonationBan
end Broadcaster
