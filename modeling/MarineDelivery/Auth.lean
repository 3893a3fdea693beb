import MarineDelivery.Domain
import MarineDelivery.Traced

/-!
The tokens of the identity provider, and the cache they are kept in.

A call of `fetch_keycloak_token` hands out the cached access token, or asks for a new one, with
the cached refresh token if it still can. The numbers of the clock and of the replies are any
type with the operations the code uses on them; no law of arithmetic is assumed.
-/

namespace MarineDelivery.Auth

open MarineDelivery.Errors MarineDelivery.Domain MarineDelivery.Traced

/-! ### Replies -/

/-- What `json.loads` returns; the members of an object have different names. -/
inductive JsonValue (τ : Type)
  | null
  | bool (b : Bool)
  | number (n : τ)
  | string (s : String)
  | array (items : List (JsonValue τ))
  | object (members : List (String × JsonValue τ))

/-- A response of `requests`; its body is missing when it is not JSON. -/
structure Response (τ : Type) where
  statusCode : ℕ
  url : String
  body : Option (JsonValue τ)

inductive TokenForm (τ : Type)
  | refresh (clientId : String) (refreshToken : JsonValue τ)
  | credentials (grantType clientId username password scope : String)

structure TokenRequest (τ : Type) where
  endpoint : JsonValue τ
  data : TokenForm τ

/-- The dictionary `_token_cache`, with the keys it can have. -/
structure TokenCache (τ : Type) where
  accessToken : Option (JsonValue τ) := none
  accessExpiresAt : Option τ := none
  refreshToken : Option (JsonValue τ) := none
  refreshExpiresAt : Option τ := none

/-- The cache, and the token requests made so far. -/
structure AuthState (τ : Type) where
  tokenCache : TokenCache τ := {}
  requests : List (TokenRequest τ) := []

/-- One call and all it meets: the clock, the environment variables, the two services. -/
structure Call (τ : Type) where
  config : GetConfigResponse
  now : τ
  getenv : String → Option String
  get : String → Except PyError (Response τ)
  post : TokenRequest τ → Except PyError (Response τ)

class Number (τ : Type) extends Add τ, Sub τ, LT τ, Zero τ, One τ where
  thirty : τ
  decEq : DecidableEq τ
  decLt : DecidableLT τ

attribute [reducible, instance] Number.decEq Number.decLt

-- scoped, so that the zero of the rationals stays that of the library elsewhere
scoped instance : Number ℚ where
  zero := 0
  one := 1
  thirty := 30
  decEq := inferInstance
  decLt := inferInstance

variable {τ : Type} [Number τ]

/-! ### The code -/

def JsonValue.truthy : JsonValue τ → Bool
  | .null => false
  | .bool b => b
  | .number n => n ≠ 0
  | .string s => s ≠ ""
  | .array items => !items.isEmpty
  | .object members => !members.isEmpty

/-- `value[key]`. -/
def JsonValue.getItem (key : String) : JsonValue τ → Except PyError (JsonValue τ)
  | .object members =>
    match members.lookup key with
    | some value => .ok value
    | none => .error (.keyError key)
  | _ => .error (.typeError "object is not subscriptable by a text")

/-- A truth value is a number, too. -/
def JsonValue.asNumber : JsonValue τ → Option τ
  | .number n => some n
  | .bool b => some (if b then 1 else 0)
  | _ => none

/-- `now + value`. -/
def JsonValue.addTo (now : τ) (value : JsonValue τ) : Except PyError τ :=
  match value.asNumber with
  | some n => .ok (now + n)
  | none => .error (.typeError "unsupported operand type(s) for +")

def Response.json (response : Response τ) : Except PyError (JsonValue τ) :=
  match response.body with
  | some value => .ok value
  | none => .error (.valueError "Expecting value")

def Response.raiseForStatus (response : Response τ) : Except PyError Unit :=
  if 400 ≤ response.statusCode ∧ response.statusCode < 600 then
    .error (.other s!"{response.statusCode} Error for url: {response.url}")
  else .ok ()

def requiredEnvironmentVariable (getenv : String → Option String) (name : String) :
    Except PyError String :=
  match getenv name with
  | some value =>
    if value = "" then .error (.valueError s!"{name} environment variable is not set.")
    else .ok value
  | none => .error (.valueError s!"{name} environment variable is not set.")

def oidcDiscoveryUrl (oidcProviderUrl : String) : String :=
  "https://" ++ oidcProviderUrl ++ "/.well-known/openid-configuration"

/-- The token, if there is one and it lives for another 30 seconds. -/
def unexpired (token : Option (JsonValue τ)) (expiresAt : Option τ) (key : String) (now : τ) :
    Except PyError (Option (JsonValue τ)) :=
  match token with
  | none => .ok none
  | some value =>
    if value.truthy then
      match expiresAt with
      | none => .error (.keyError key)
      | some t => .ok (if now < t - Number.thirty then some value else none)
    else .ok none

def tokenForm (cache : TokenCache τ) (call : Call τ) : Except PyError (TokenForm τ) := do
  match ← unexpired cache.refreshToken cache.refreshExpiresAt "refresh_expires_at" call.now with
  | some refreshToken => return .refresh call.config.oidcConfig.oidcClientId refreshToken
  | none =>
    let username ← requiredEnvironmentVariable call.getenv "COPERNICUSMARINE_SERVICE_USERNAME"
    let password ← requiredEnvironmentVariable call.getenv "COPERNICUSMARINE_SERVICE_PASSWORD"
    return .credentials call.config.oidcConfig.grantType call.config.oidcConfig.oidcClientId
      username password call.config.oidcConfig.scope

def prepareRequest (cache : TokenCache τ) (call : Call τ) : Except PyError (TokenRequest τ) := do
  let discovery ← call.get (oidcDiscoveryUrl call.config.oidcConfig.oidcProviderUrl)
  discovery.raiseForStatus
  let body ← discovery.json
  let endpoint ← body.getItem "token_endpoint"
  let data ← tokenForm cache call
  return { endpoint, data }

/-- `str` is Python's `str` on what `json()` returns. -/
def keycloakErrorMessage (str : JsonValue τ → String) (response : Response τ) :
    Except PyError String := do
  let reason ← match response.body with
    | none => pure none
    | some (.object members) => pure (members.lookup "error_description")
    | some _ => .error (.attributeError "object has no attribute 'get'")
  let shown := match reason with
    | some value => if value.truthy then str value else "no details provided"
    | none => "no details provided"
  return s!"Could not get a token from {response.url} " ++
    s!"(HTTP {response.statusCode}): {shown}. " ++
    "Please check your COPERNICUSMARINE_SERVICE_USERNAME and " ++
    "COPERNICUSMARINE_SERVICE_PASSWORD."

/-- The cache as a token response received at `now` makes it. -/
def updated (now : τ) (body : JsonValue τ) : Except PyError (JsonValue τ × TokenCache τ) := do
  let accessToken ← body.getItem "access_token"
  let accessExpiresAt ← (← body.getItem "expires_in").addTo now
  let refreshToken ← body.getItem "refresh_token"
  let refreshExpiresAt ← (← body.getItem "refresh_expires_in").addTo now
  return (accessToken, ⟨accessToken, accessExpiresAt, refreshToken, refreshExpiresAt⟩)

def receiveTokens (str : JsonValue τ → String) (call : Call τ) (request : TokenRequest τ) :
    Except PyError (JsonValue τ × TokenCache τ) := do
  let response ← call.post request
  if 400 ≤ response.statusCode then
    let message ← keycloakErrorMessage str response
    throw (.authenticationError message)
  let body ← response.json
  updated call.now body

/-- The state is returned also when the call raises. -/
def fetchKeycloakToken (str : JsonValue τ → String) (call : Call τ) (s : AuthState τ) :
    Except PyError (JsonValue τ) × AuthState τ :=
  match unexpired s.tokenCache.accessToken s.tokenCache.accessExpiresAt "access_expires_at"
      call.now with
  | .error e => (.error e, s)
  | .ok (some token) => (.ok token, s)
  | .ok none =>
    match prepareRequest s.tokenCache call with
    | .error e => (.error e, s)
    | .ok request =>
      let s := { s with requests := s.requests ++ [request] }
      match receiveTokens str call request with
      | .error e => (.error e, s)
      | .ok (token, cache) => (.ok token, { s with tokenCache := cache })

/-! ### What a call can do -/

/-- The tokens of a response and their lifetimes. -/
structure TokenGrant (τ : Type) where
  accessToken : JsonValue τ
  expiresIn : τ
  refreshToken : JsonValue τ
  refreshExpiresIn : τ

def TokenGrant.cacheAt (g : TokenGrant τ) (t₀ : τ) : TokenCache τ :=
  ⟨g.accessToken, t₀ + g.expiresIn, g.refreshToken, t₀ + g.refreshExpiresIn⟩

/-- The body of a response is complete, and these are its tokens. -/
def JsonValue.Grants (body : JsonValue τ) (g : TokenGrant τ) : Prop :=
  body.getItem "access_token" = .ok g.accessToken ∧
  (∃ v, body.getItem "expires_in" = .ok v ∧ v.asNumber = some g.expiresIn) ∧
  body.getItem "refresh_token" = .ok g.refreshToken ∧
  ∃ v, body.getItem "refresh_expires_in" = .ok v ∧ v.asNumber = some g.refreshExpiresIn

/-- The identity provider gives these tokens in its reply to the request. -/
def Answered (call : Call τ) (request : TokenRequest τ) (g : TokenGrant τ) : Prop :=
  ∃ response body, call.post request = .ok response ∧ response.statusCode < 400 ∧
    response.body = some body ∧ body.Grants g

/-- A refresh token is only sent while the cache says that it lives. -/
def Sendable (cache : TokenCache τ) (now : τ) (request : TokenRequest τ) : Prop :=
  ∀ clientId token, request.data = .refresh clientId token →
    cache.refreshToken = some token ∧ ∃ t, cache.refreshExpiresAt = some t ∧ now < t - Number.thirty

/-- The three ends of a call. -/
inductive Fetched (call : Call τ) (s : AuthState τ) :
    Except PyError (JsonValue τ) × AuthState τ → Prop
  | reused {token : JsonValue τ} {t : τ} (htoken : s.tokenCache.accessToken = some token)
      (ht : s.tokenCache.accessExpiresAt = some t) (hnow : call.now < t - Number.thirty) :
      Fetched call s (.ok token, s)
  | raised (e : PyError) (sent : List (TokenRequest τ))
      (hsent : ∀ request ∈ sent, Sendable s.tokenCache call.now request) :
      Fetched call s (.error e, ⟨s.tokenCache, s.requests ++ sent⟩)
  | granted {request : TokenRequest τ} {g : TokenGrant τ}
      (hrequest : Sendable s.tokenCache call.now request) (hg : Answered call request g) :
      Fetched call s (.ok g.accessToken, ⟨g.cacheAt call.now, s.requests ++ [request]⟩)

lemma unexpired_eq_some {token : Option (JsonValue τ)} {expiresAt : Option τ} {key : String}
    {now : τ} {value : JsonValue τ} (h : unexpired token expiresAt key now = .ok (some value)) :
    token = some value ∧ ∃ t, expiresAt = some t ∧ now < t - Number.thirty := by
  unfold unexpired at h
  cases token with
  | none => cases h
  | some v =>
      cases expiresAt with
      | none =>
          dsimp only at h
          split_ifs at h
          cases h
      | some t =>
          dsimp only at h
          split_ifs at h with hv hnow
          · cases h
            exact ⟨rfl, t, rfl, hnow⟩
          · cases h
          · cases h

lemma prepareRequest_sendable {cache : TokenCache τ} {call : Call τ}
    {request : TokenRequest τ} (h : prepareRequest cache call = .ok request) :
    Sendable cache call.now request := by
  unfold prepareRequest at h
  simp only [bind_eq_ok, pure_eq_ok] at h
  obtain ⟨_, -, _, -, _, -, endpoint, -, data, hdata, rfl⟩ := h
  intro clientId token hform
  unfold tokenForm at hdata
  obtain ⟨refreshToken, hrefresh, hdata⟩ := bind_eq_ok.mp hdata
  cases refreshToken with
  | none =>
      simp only [bind_eq_ok, pure_eq_ok] at hdata
      obtain ⟨_, -, _, -, rfl⟩ := hdata
      cases hform
  | some value =>
      cases hdata
      cases hform
      exact unexpired_eq_some hrefresh

lemma addTo_ok_iff {now t : τ} {value : JsonValue τ} :
    value.addTo now = .ok t ↔ ∃ n, value.asNumber = some n ∧ t = now + n := by
  unfold JsonValue.addTo
  cases value.asNumber <;> simp [eq_comm]

/-- All four fields are read before any is stored. -/
lemma updated_ok {now : τ} {body token : JsonValue τ} {cache : TokenCache τ}
    (h : updated now body = .ok (token, cache)) :
    ∃ g, body.Grants g ∧ token = g.accessToken ∧ cache = g.cacheAt now := by
  unfold updated at h
  simp only [bind_eq_ok, addTo_ok_iff, pure_eq_ok] at h
  obtain ⟨_, ha, e, he, _, ⟨expiresIn, hen, rfl⟩, _, hr, r, hre, _,
    ⟨refreshExpiresIn, hrn, rfl⟩, hx⟩ := h
  cases hx
  exact ⟨⟨_, expiresIn, _, refreshExpiresIn⟩, ⟨ha, ⟨e, he, hen⟩, hr, r, hre, hrn⟩, rfl, rfl⟩

omit [Number τ] in
lemma json_ok_iff {response : Response τ} {body : JsonValue τ} :
    response.json = .ok body ↔ response.body = some body := by
  unfold Response.json
  cases response.body <;> simp

variable {str : JsonValue τ → String}

lemma receiveTokens_ok {call : Call τ} {request : TokenRequest τ} {token : JsonValue τ}
    {cache : TokenCache τ} (h : receiveTokens str call request = .ok (token, cache)) :
    ∃ g, Answered call request g ∧ token = g.accessToken ∧ cache = g.cacheAt call.now := by
  unfold receiveTokens at h
  obtain ⟨response, hpost, h⟩ := bind_eq_ok.mp h
  by_cases hstatus : 400 ≤ response.statusCode
  · rw [if_pos hstatus] at h
    obtain ⟨message, -, hthrow⟩ := bind_eq_ok.mp h
    cases hthrow
  · rw [if_neg hstatus] at h
    obtain ⟨body, hbody, hupdate⟩ := bind_eq_ok.mp h
    obtain ⟨g, hg, rfl, rfl⟩ := updated_ok hupdate
    exact ⟨g, ⟨response, body, hpost, not_le.mp hstatus, json_ok_iff.mp hbody, hg⟩, rfl, rfl⟩

/-- **What a call can do**, whatever it meets. -/
theorem fetchKeycloakToken_fetched (str : JsonValue τ → String) (call : Call τ)
    (s : AuthState τ) : Fetched call s (fetchKeycloakToken str call s) := by
  have hnothing : ∀ e, Fetched call s (.error e, s) := by
    intro e
    have h : Fetched call s (.error e, ⟨s.tokenCache, s.requests ++ []⟩) :=
      .raised e [] (by simp)
    rwa [List.append_nil] at h
  unfold fetchKeycloakToken
  cases hcached : unexpired s.tokenCache.accessToken s.tokenCache.accessExpiresAt
      "access_expires_at" call.now with
  | error e => exact hnothing e
  | ok cached =>
      cases cached with
      | some token =>
          obtain ⟨htoken, t, ht, hnow⟩ := unexpired_eq_some hcached
          exact .reused htoken ht hnow
      | none =>
          cases hprep : prepareRequest s.tokenCache call with
          | error e => simpa only [hprep] using hnothing e
          | ok request =>
              have hsend := prepareRequest_sendable hprep
              cases hreply : receiveTokens str call request with
              | error e =>
                  simpa only [hprep, hreply] using .raised e [request] (by simpa using hsend)
              | ok x =>
                  obtain ⟨token, cache⟩ := x
                  obtain ⟨g, hg, rfl, rfl⟩ := receiveTokens_ok hreply
                  simpa only [hprep, hreply] using Fetched.granted hsend hg

/-! ### Runs -/

def afterCalls (str : JsonValue τ → String) (calls : List (Call τ)) : AuthState τ :=
  calls.foldl (fun s call => (fetchKeycloakToken str call s).2) {}

/-- One of the calls began at `t₀`, was given these tokens in one response, and stored them. -/
def Obtained (str : JsonValue τ → String) (calls : List (Call τ)) (t₀ : τ)
    (g : TokenGrant τ) : Prop :=
  ∃ before call after request, calls = before ++ call :: after ∧ call.now = t₀ ∧
    Answered call request g ∧
    fetchKeycloakToken str call (afterCalls str before) =
      (.ok g.accessToken, ⟨g.cacheAt t₀, (afterCalls str before).requests ++ [request]⟩)

lemma afterCalls_concat (calls : List (Call τ)) (call : Call τ) :
    afterCalls str (calls ++ [call]) =
      (fetchKeycloakToken str call (afterCalls str calls)).2 := by
  rw [afterCalls, List.foldl_append]
  rfl

lemma Obtained.concat {calls : List (Call τ)} {t₀ : τ} {g : TokenGrant τ}
    (h : Obtained str calls t₀ g) (call : Call τ) : Obtained str (calls ++ [call]) t₀ g := by
  obtain ⟨before, earlier, after, request, rfl, hrest⟩ := h
  exact ⟨before, earlier, after ++ [call], request, by simp, hrest⟩

/-- **The invariant of the cache**: it is empty, or holds what one response gave. -/
theorem tokenCache_afterCalls (str : JsonValue τ → String) (calls : List (Call τ)) :
    (afterCalls str calls).tokenCache = {} ∨
      ∃ t₀ g, Obtained str calls t₀ g ∧ (afterCalls str calls).tokenCache = g.cacheAt t₀ := by
  induction calls using List.reverseRecOn with
  | nil => exact Or.inl rfl
  | append_singleton calls call ih =>
      have hkeep : (afterCalls str (calls ++ [call])).tokenCache =
            (afterCalls str calls).tokenCache →
          (afterCalls str (calls ++ [call])).tokenCache = {} ∨
          ∃ t₀ g, Obtained str (calls ++ [call]) t₀ g ∧
            (afterCalls str (calls ++ [call])).tokenCache = g.cacheAt t₀ := by
        intro hsame
        rw [hsame]
        exact ih.imp_right fun ⟨t₀, g, hg, hc⟩ => ⟨t₀, g, hg.concat call, hc⟩
      generalize hout : fetchKeycloakToken str call (afterCalls str calls) = out
      have hstep := fetchKeycloakToken_fetched str call (afterCalls str calls)
      have hafter := congrArg Prod.snd hout
      rw [← afterCalls_concat] at hafter
      rw [hout] at hstep
      cases hstep with
      | reused htoken ht hnow => exact hkeep (by rw [hafter])
      | raised e sent hsent => exact hkeep (by rw [hafter])
      | @granted request g hrequest hg =>
          exact Or.inr ⟨call.now, g, ⟨calls, call, [], request, rfl, rfl, hg, hout⟩,
            by rw [hafter]⟩

lemma accessToken_obtained {calls : List (Call τ)} {token : JsonValue τ} {t : τ}
    (htoken : (afterCalls str calls).tokenCache.accessToken = some token)
    (ht : (afterCalls str calls).tokenCache.accessExpiresAt = some t) :
    ∃ t₀ g, Obtained str calls t₀ g ∧ token = g.accessToken ∧ t = t₀ + g.expiresIn := by
  rcases tokenCache_afterCalls str calls with h | ⟨t₀, g, hg, h⟩
  · rw [h] at htoken
    cases htoken
  · rw [h] at htoken ht
    exact ⟨t₀, g, hg, (Option.some.inj htoken).symm, (Option.some.inj ht).symm⟩

lemma refreshToken_obtained {calls : List (Call τ)} {token : JsonValue τ} {t : τ}
    (htoken : (afterCalls str calls).tokenCache.refreshToken = some token)
    (ht : (afterCalls str calls).tokenCache.refreshExpiresAt = some t) :
    ∃ t₀ g, Obtained str calls t₀ g ∧ token = g.refreshToken ∧
      t = t₀ + g.refreshExpiresIn := by
  rcases tokenCache_afterCalls str calls with h | ⟨t₀, g, hg, h⟩
  · rw [h] at htoken
    cases htoken
  · rw [h] at htoken ht
    exact ⟨t₀, g, hg, (Option.some.inj htoken).symm, (Option.some.inj ht).symm⟩

/-- **The cache never mixes or outlives its tokens.** After any calls it is empty or holds what
one response gave; a call that raises leaves it as it was; a token handed out without a
request, and a refresh token that is sent, come from an earlier call and still live for 30
seconds. -/
theorem tokenCache_sound (str : JsonValue τ → String) (calls : List (Call τ))
    (call : Call τ) :
    let s := afterCalls str calls
    let out := fetchKeycloakToken str call s
    (s.tokenCache = {} ∨ ∃ t₀ g, Obtained str calls t₀ g ∧ s.tokenCache = g.cacheAt t₀) ∧
    (∀ e, out.1 = .error e → out.2.tokenCache = s.tokenCache) ∧
    (∀ token, out.1 = .ok token → out.2.requests = s.requests →
      ∃ t₀ g, Obtained str calls t₀ g ∧ token = g.accessToken ∧
        call.now < t₀ + g.expiresIn - Number.thirty) ∧
    ∀ sent request clientId token, out.2.requests = s.requests ++ sent → request ∈ sent →
      request.data = .refresh clientId token →
      ∃ t₀ g, Obtained str calls t₀ g ∧ token = g.refreshToken ∧
        call.now < t₀ + g.refreshExpiresIn - Number.thirty := by
  intro s out
  have hsendable : ∀ request clientId token, Sendable s.tokenCache call.now request →
      request.data = .refresh clientId token →
      ∃ t₀ g, Obtained str calls t₀ g ∧ token = g.refreshToken ∧
        call.now < t₀ + g.refreshExpiresIn - Number.thirty := by
    intro request clientId token hsend hdata
    obtain ⟨htoken, t, ht, hnow⟩ := hsend clientId token hdata
    obtain ⟨t₀, g, hg, hgt, rfl⟩ := refreshToken_obtained htoken ht
    exact ⟨t₀, g, hg, hgt, hnow⟩
  refine ⟨tokenCache_afterCalls str calls, ?_⟩
  have hstep : Fetched call s out := fetchKeycloakToken_fetched str call s
  generalize out = o at hstep
  cases hstep with
  | @reused cached t htoken ht hnow =>
      refine ⟨fun e he => (by cases he), fun token he _ => ?_, ?_⟩
      · cases he
        obtain ⟨t₀, g, hg, hgt, rfl⟩ := accessToken_obtained htoken ht
        exact ⟨t₀, g, hg, hgt, hnow⟩
      · intro sent request _ _ hreq hmem
        have hnil : sent = [] := by simpa using hreq
        rw [hnil] at hmem
        cases hmem
  | raised e sent hsent =>
      refine ⟨fun _ _ => rfl, fun token he => (by cases he), ?_⟩
      intro sent' request clientId token hreq hmem hdata
      have hsame : sent = sent' := List.append_cancel_left hreq
      exact hsendable request clientId token (hsent request (hsame ▸ hmem)) hdata
  | @granted request g hrequest hg =>
      refine ⟨fun e he => (by cases he), fun token _ hreq => ?_, ?_⟩
      · simp at hreq
      · intro sent request' clientId token hreq hmem hdata
        have hsame : [request] = sent := List.append_cancel_left hreq
        rw [← hsame, List.mem_singleton] at hmem
        exact hsendable request' clientId token (hmem ▸ hrequest) hdata

/-- The second call is served from the cache. -/
example :
    let body : JsonValue ℚ := .object [("token_endpoint", .string "https://idp.example/token"),
      ("access_token", .string "a"), ("expires_in", .number 300),
      ("refresh_token", .string "r"), ("refresh_expires_in", .number 1800)]
    let call (now : ℚ) : Call ℚ := ⟨⟨⟨"idp.example", "toolbox", "openid", "password"⟩,
      ⟨100, 10, 5⟩⟩, now, fun _ => some "x", fun _ => .ok ⟨200, "", some body⟩,
      fun _ => .ok ⟨200, "", some body⟩⟩
    (afterCalls (fun _ => "") [call 1000, call 1200]).requests.length = 1 := by
  decide +kernel

end MarineDelivery.Auth
