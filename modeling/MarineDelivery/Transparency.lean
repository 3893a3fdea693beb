import MarineDelivery.Auth

/-!
What the cache of tokens may change.

A call that would be given a token if the cache were empty should be given one with the cache
as earlier calls have left it, a token for the provider and the user name that are configured
now. The cache is one for all providers and users, and a refresh that is refused ends the call.
-/

namespace MarineDelivery.Transparency

open MarineDelivery.Errors MarineDelivery.Domain MarineDelivery.Traced MarineDelivery.Auth

variable {τ : Type} [Number τ]

/-! ### Whose tokens -/

/-- A user of an identity provider. -/
structure Login where
  provider : String
  username : String
  deriving DecidableEq

def getCopernicusmarineUsername (call : Call τ) : Except PyError String :=
  requiredEnvironmentVariable call.getenv "COPERNICUSMARINE_SERVICE_USERNAME"

/-- The last call sent the request, was given these tokens, and stored them. -/
structure Exchanged (str : JsonValue τ → String) (before : List (Call τ)) (call : Call τ)
    (request : TokenRequest τ) (g : TokenGrant τ) : Prop where
  answered : Answered call request g
  stored : fetchKeycloakToken str call (afterCalls str before) =
    (.ok g.accessToken, ⟨g.cacheAt call.now, (afterCalls str before).requests ++ [request]⟩)

/-- In one of the calls the provider issued these tokens for the user. -/
inductive Issued (str : JsonValue τ → String) : List (Call τ) → Login → TokenGrant τ → Prop
  | password {before after : List (Call τ)} {call : Call τ} {request : TokenRequest τ}
      {g : TokenGrant τ} {grantType clientId username password scope : String}
      (hexchange : Exchanged str before call request g)
      (hform : request.data = .credentials grantType clientId username password scope) :
      Issued str (before ++ call :: after) ⟨call.config.oidcConfig.oidcProviderUrl, username⟩ g
  /-- The user is the one the refresh token was issued for. -/
  | refresh {before after : List (Call τ)} {call : Call τ} {request : TokenRequest τ}
      {g g' : TokenGrant τ} {clientId : String} {login : Login}
      (hexchange : Exchanged str before call request g')
      (hform : request.data = .refresh clientId g.refreshToken)
      (hissued : Issued str before login g) :
      Issued str (before ++ call :: after)
        ⟨call.config.oidcConfig.oidcProviderUrl, login.username⟩ g'

lemma Issued.concat {str : JsonValue τ → String} {calls : List (Call τ)} {login : Login}
    {g : TokenGrant τ} (h : Issued str calls login g) (call : Call τ) :
    Issued str (calls ++ [call]) login g := by
  cases h with
  | password hexchange hform =>
      rw [List.append_assoc, List.cons_append]
      exact .password hexchange hform
  | refresh hexchange hform hissued =>
      rw [List.append_assoc, List.cons_append]
      exact .refresh hexchange hform hissued

/-! ### The tokens that are tried first -/

def found {α : Type} : Except PyError (Option α) → Bool
  | .ok (some _) => true
  | _ => false

lemma exists_of_found {α : Type} {x : Except PyError (Option α)} (h : found x = true) :
    ∃ a, x = .ok (some a) := by
  match x, h with
  | .ok (some a), _ => exact ⟨a, rfl⟩

/-- The access token of the cache is handed out. -/
def accessLives (cache : TokenCache τ) (now : τ) : Bool :=
  found (unexpired cache.accessToken cache.accessExpiresAt "access_expires_at" now)

def refreshLives (cache : TokenCache τ) (now : τ) : Bool :=
  found (unexpired cache.refreshToken cache.refreshExpiresAt "refresh_expires_at" now)

/-- Whose tokens the cache holds after the call. -/
def nextLogin (str : JsonValue τ → String) (call : Call τ) (s : AuthState τ)
    (login : Option Login) : Option Login :=
  match (fetchKeycloakToken str call s).1 with
  | .error _ => login
  | .ok _ =>
    if accessLives s.tokenCache call.now then login
    else if refreshLives s.tokenCache call.now then
      login.map fun l => { l with provider := call.config.oidcConfig.oidcProviderUrl }
    else (getCopernicusmarineUsername call).toOption.map fun username =>
      ⟨call.config.oidcConfig.oidcProviderUrl, username⟩

def tracked (str : JsonValue τ → String) (calls : List (Call τ)) : AuthState τ × Option Login :=
  calls.foldl (fun x call =>
    ((fetchKeycloakToken str call x.1).2, nextLogin str call x.1 x.2)) ({}, none)

/-- The user of the last password grant, and the provider that answered last. -/
def loginAfter (str : JsonValue τ → String) (calls : List (Call τ)) : Option Login :=
  (tracked str calls).2

lemma tracked_concat (str : JsonValue τ → String) (calls : List (Call τ)) (call : Call τ) :
    tracked str (calls ++ [call]) =
      ((fetchKeycloakToken str call (tracked str calls).1).2,
        nextLogin str call (tracked str calls).1 (tracked str calls).2) := by
  rw [tracked, List.foldl_append]
  rfl

lemma tracked_fst (str : JsonValue τ → String) (calls : List (Call τ)) :
    (tracked str calls).1 = afterCalls str calls := by
  induction calls using List.reverseRecOn with
  | nil => rfl
  | append_singleton calls call ih => rw [tracked_concat, afterCalls_concat, ih]

lemma loginAfter_concat (str : JsonValue τ → String) (calls : List (Call τ)) (call : Call τ) :
    loginAfter str (calls ++ [call]) =
      nextLogin str call (afterCalls str calls) (loginAfter str calls) := by
  rw [loginAfter, tracked_concat, tracked_fst, loginAfter]

/-! ### One call -/

section Call

variable {str : JsonValue τ → String} {call : Call τ} {s : AuthState τ} {cache : TokenCache τ}
  {request : TokenRequest τ} {g : TokenGrant τ} {token : JsonValue τ}

/-- A token that is kept with its time and not found has expired. -/
lemma unexpired_of_not_found {value : Option (JsonValue τ)} {expiresAt : Option τ} {key : String}
    {now : τ} (htime : value = none ∨ ∃ t, expiresAt = some t)
    (h : found (unexpired value expiresAt key now) = false) :
    unexpired value expiresAt key now = .ok none := by
  unfold unexpired at h ⊢
  cases value with
  | none => rfl
  | some v =>
      obtain ⟨t, rfl⟩ := htime.resolve_left (by simp)
      dsimp only at h ⊢
      split_ifs at h ⊢
      · cases h
      · rfl
      · rfl

lemma receiveTokens_of_answered (h : Answered call request g) :
    receiveTokens str call request = .ok (g.accessToken, g.cacheAt call.now) := by
  obtain ⟨response, body, hpost, hstatus, hbody, ha, ⟨e, he, hen⟩, hr, r, hre, hrn⟩ := h
  have hupdated : updated call.now body = .ok (g.accessToken, g.cacheAt call.now) := by
    unfold updated
    simp only [bind_eq_ok, addTo_ok_iff, pure_eq_ok]
    exact ⟨_, ha, e, he, _, ⟨_, hen, rfl⟩, _, hr, r, hre, _, ⟨_, hrn, rfl⟩, rfl⟩
  unfold receiveTokens
  refine bind_eq_ok.mpr ⟨response, hpost, ?_⟩
  rw [if_neg (not_le.mpr hstatus)]
  exact bind_eq_ok.mpr ⟨body, json_ok_iff.mpr hbody, hupdated⟩

lemma fetch_reused
    (h : unexpired s.tokenCache.accessToken s.tokenCache.accessExpiresAt "access_expires_at"
      call.now = .ok (some token)) :
    fetchKeycloakToken str call s = (.ok token, s) := by
  unfold fetchKeycloakToken
  rw [h]

lemma fetch_answered
    (h : unexpired s.tokenCache.accessToken s.tokenCache.accessExpiresAt "access_expires_at"
      call.now = .ok none)
    (hprepare : prepareRequest s.tokenCache call = .ok request) (hg : Answered call request g) :
    fetchKeycloakToken str call s =
      (.ok g.accessToken, ⟨g.cacheAt call.now, s.requests ++ [request]⟩) := by
  unfold fetchKeycloakToken
  rw [h]
  simp only [hprepare, receiveTokens_of_answered hg]

lemma answered_of_fetch
    (h : unexpired s.tokenCache.accessToken s.tokenCache.accessExpiresAt "access_expires_at"
      call.now = .ok none)
    (hok : (fetchKeycloakToken str call s).1 = .ok token) :
    ∃ request g, prepareRequest s.tokenCache call = .ok request ∧ Answered call request g := by
  unfold fetchKeycloakToken at hok
  rw [h] at hok
  cases hprepare : prepareRequest s.tokenCache call with
  | error e => simp [hprepare] at hok
  | ok request =>
      cases hreply : receiveTokens str call request with
      | error e => simp [hprepare, hreply] at hok
      | ok x =>
          obtain ⟨token, cache⟩ := x
          obtain ⟨g, hg, -⟩ := receiveTokens_ok hreply
          exact ⟨request, g, rfl, hg⟩

lemma tokenCache_of_error {e : PyError} (h : (fetchKeycloakToken str call s).1 = .error e) :
    (fetchKeycloakToken str call s).2.tokenCache = s.tokenCache := by
  have hstep := fetchKeycloakToken_fetched str call s
  generalize fetchKeycloakToken str call s = out at h hstep
  cases hstep with
  | reused htoken ht hnow => cases h
  | raised e sent hsent => rfl
  | granted hrequest hg => cases h

lemma data_of_refresh {value : JsonValue τ}
    (h : unexpired cache.refreshToken cache.refreshExpiresAt "refresh_expires_at" call.now =
      .ok (some value)) (hprepare : prepareRequest cache call = .ok request) :
    request.data = .refresh call.config.oidcConfig.oidcClientId value := by
  unfold prepareRequest tokenForm at hprepare
  rw [h] at hprepare
  simp only [bind_eq_ok, pure_eq_ok] at hprepare
  obtain ⟨_, -, _, -, _, -, _, -, data, hdata, rfl⟩ := hprepare
  obtain ⟨_, hvalue, hdata⟩ := hdata
  cases hvalue
  exact (pure_eq_ok.mp hdata).symm

lemma data_of_expired
    (h : unexpired cache.refreshToken cache.refreshExpiresAt "refresh_expires_at" call.now =
      .ok none) (hprepare : prepareRequest cache call = .ok request) :
    ∃ username password, getCopernicusmarineUsername call = .ok username ∧
      request.data = .credentials call.config.oidcConfig.grantType
        call.config.oidcConfig.oidcClientId username password call.config.oidcConfig.scope := by
  unfold prepareRequest tokenForm at hprepare
  rw [h] at hprepare
  simp only [bind_eq_ok, pure_eq_ok] at hprepare
  obtain ⟨_, -, _, -, _, -, _, -, data, hdata, rfl⟩ := hprepare
  obtain ⟨_, hvalue, hdata⟩ := hdata
  cases hvalue
  obtain ⟨username, husername, password, -, hdata⟩ := by simpa only [bind_eq_ok] using hdata
  exact ⟨username, password, husername, (pure_eq_ok.mp hdata).symm⟩

/-- An expired refresh token is as good as none. -/
lemma prepareRequest_of_expired
    (h : unexpired cache.refreshToken cache.refreshExpiresAt "refresh_expires_at" call.now =
      .ok none) : prepareRequest cache call = prepareRequest {} call := by
  unfold prepareRequest tokenForm
  rw [h]
  rfl

end Call

/-! ### Runs -/

section Runs

variable {str : JsonValue τ → String} {calls : List (Call τ)} {call : Call τ} {now : τ}

/-- Every token of the cache is kept with its time. -/
lemma kept_with_times (str : JsonValue τ → String) (calls : List (Call τ)) :
    let cache := (afterCalls str calls).tokenCache
    (cache.accessToken = none ∨ ∃ t, cache.accessExpiresAt = some t) ∧
      (cache.refreshToken = none ∨ ∃ t, cache.refreshExpiresAt = some t) := by
  dsimp only
  rcases tokenCache_afterCalls str calls with hempty | ⟨t₀, g, -, hcache⟩
  · rw [hempty]
    exact ⟨Or.inl rfl, Or.inl rfl⟩
  · rw [hcache]
    exact ⟨Or.inr ⟨t₀ + g.expiresIn, rfl⟩, Or.inr ⟨t₀ + g.refreshExpiresIn, rfl⟩⟩

lemma access_of_not_lives (h : accessLives (afterCalls str calls).tokenCache now = false) :
    unexpired (afterCalls str calls).tokenCache.accessToken
      (afterCalls str calls).tokenCache.accessExpiresAt "access_expires_at" now = .ok none :=
  unexpired_of_not_found (kept_with_times str calls).1 h

lemma refresh_of_not_lives (h : refreshLives (afterCalls str calls).tokenCache now = false) :
    unexpired (afterCalls str calls).tokenCache.refreshToken
      (afterCalls str calls).tokenCache.refreshExpiresAt "refresh_expires_at" now = .ok none :=
  unexpired_of_not_found (kept_with_times str calls).2 h

/-- An answer to the request of the call fills the cache. -/
lemma Exchanged.of_answered {request : TokenRequest τ} {g : TokenGrant τ}
    (haccess : accessLives (afterCalls str calls).tokenCache call.now = false)
    (hprepare : prepareRequest (afterCalls str calls).tokenCache call = .ok request)
    (hg : Answered call request g) : Exchanged str calls call request g :=
  ⟨hg, fetch_answered (access_of_not_lives haccess) hprepare hg⟩

lemma exists_exchanged {token : JsonValue τ}
    (haccess : accessLives (afterCalls str calls).tokenCache call.now = false)
    (hok : (fetchKeycloakToken str call (afterCalls str calls)).1 = .ok token) :
    ∃ request g, prepareRequest (afterCalls str calls).tokenCache call = .ok request ∧
      Exchanged str calls call request g := by
  obtain ⟨request, g, hprepare, hg⟩ := answered_of_fetch (access_of_not_lives haccess) hok
  exact ⟨request, g, hprepare, .of_answered haccess hprepare hg⟩

/-- The cache is empty, or holds tokens that were issued for the tracked user. -/
def Accounted (str : JsonValue τ → String) (calls : List (Call τ)) : Prop :=
  (afterCalls str calls).tokenCache = {} ∨
    ∃ login t₀ g, loginAfter str calls = some login ∧ Issued str calls login g ∧
      (afterCalls str calls).tokenCache = g.cacheAt t₀

lemma Accounted.access (h : Accounted str calls) {token : JsonValue τ}
    (htoken : (afterCalls str calls).tokenCache.accessToken = some token) :
    ∃ login g, loginAfter str calls = some login ∧ Issued str calls login g ∧
      token = g.accessToken := by
  rcases h with hempty | ⟨login, t₀, g, hlogin, hissued, hcache⟩
  · rw [hempty] at htoken
    cases htoken
  · rw [hcache] at htoken
    exact ⟨login, g, hlogin, hissued, (Option.some.inj htoken).symm⟩

lemma Accounted.refresh (h : Accounted str calls) {token : JsonValue τ}
    (htoken : (afterCalls str calls).tokenCache.refreshToken = some token) :
    ∃ login g, loginAfter str calls = some login ∧ Issued str calls login g ∧
      token = g.refreshToken := by
  rcases h with hempty | ⟨login, t₀, g, hlogin, hissued, hcache⟩
  · rw [hempty] at htoken
    cases htoken
  · rw [hcache] at htoken
    exact ⟨login, g, hlogin, hissued, (Option.some.inj htoken).symm⟩

/-- A refresh that is answered gives tokens for the user it has been. -/
lemma Accounted.refreshed (h : Accounted str calls) {request : TokenRequest τ}
    {g : TokenGrant τ} (hexchange : Exchanged str calls call request g)
    (hprepare : prepareRequest (afterCalls str calls).tokenCache call = .ok request)
    (hlives : refreshLives (afterCalls str calls).tokenCache call.now = true) :
    ∃ login, loginAfter str calls = some login ∧
      Issued str (calls ++ [call]) ⟨call.config.oidcConfig.oidcProviderUrl, login.username⟩ g := by
  obtain ⟨value, hvalue⟩ := exists_of_found hlives
  obtain ⟨login, g₀, hlogin, hissued, rfl⟩ := h.refresh (unexpired_eq_some hvalue).1
  exact ⟨login, hlogin, .refresh hexchange (data_of_refresh hvalue hprepare) hissued⟩

/-- A password grant gives tokens for the user that is configured. -/
lemma issued_of_expired {request : TokenRequest τ} {g : TokenGrant τ}
    (hexchange : Exchanged str calls call request g)
    (hprepare : prepareRequest (afterCalls str calls).tokenCache call = .ok request)
    (hlives : refreshLives (afterCalls str calls).tokenCache call.now = false) :
    ∃ username, getCopernicusmarineUsername call = .ok username ∧
      Issued str (calls ++ [call]) ⟨call.config.oidcConfig.oidcProviderUrl, username⟩ g := by
  obtain ⟨username, password, husername, hform⟩ :=
    data_of_expired (refresh_of_not_lives hlives) hprepare
  exact ⟨username, husername, .password hexchange hform⟩

lemma Accounted.keep (h : Accounted str calls)
    (hcache : (afterCalls str (calls ++ [call])).tokenCache = (afterCalls str calls).tokenCache)
    (hlogin : loginAfter str (calls ++ [call]) = loginAfter str calls) :
    Accounted str (calls ++ [call]) := by
  unfold Accounted
  rw [hcache, hlogin]
  rcases h with hempty | ⟨login, t₀, g, hsome, hissued, hsame⟩
  · exact Or.inl hempty
  · exact Or.inr ⟨login, t₀, g, hsome, hissued.concat call, hsame⟩

lemma Accounted.exchanged (h : Accounted str calls) {request : TokenRequest τ}
    {g : TokenGrant τ} (hexchange : Exchanged str calls call request g)
    (hprepare : prepareRequest (afterCalls str calls).tokenCache call = .ok request)
    (haccess : accessLives (afterCalls str calls).tokenCache call.now = false) :
    Accounted str (calls ++ [call]) := by
  have hcache : (afterCalls str (calls ++ [call])).tokenCache = g.cacheAt call.now := by
    rw [afterCalls_concat, hexchange.stored]
  have hlogin : loginAfter str (calls ++ [call]) = _ := loginAfter_concat str calls call
  rw [nextLogin, hexchange.stored] at hlogin
  dsimp only at hlogin
  rw [if_neg (by simp [haccess])] at hlogin
  cases hrefresh : refreshLives (afterCalls str calls).tokenCache call.now with
  | true =>
      obtain ⟨login, hsome, hissued⟩ := h.refreshed hexchange hprepare hrefresh
      rw [if_pos hrefresh, hsome] at hlogin
      exact Or.inr ⟨_, call.now, g, hlogin, hissued, hcache⟩
  | false =>
      obtain ⟨username, husername, hissued⟩ := issued_of_expired hexchange hprepare hrefresh
      rw [if_neg (by simp [hrefresh]), husername] at hlogin
      exact Or.inr ⟨_, call.now, g, hlogin, hissued, hcache⟩

lemma Accounted.concat (h : Accounted str calls) (call : Call τ) :
    Accounted str (calls ++ [call]) := by
  cases hout : (fetchKeycloakToken str call (afterCalls str calls)).1 with
  | error e =>
      refine h.keep ?_ ?_
      · rw [afterCalls_concat, tokenCache_of_error hout]
      · rw [loginAfter_concat, nextLogin, hout]
  | ok token =>
      cases haccess : accessLives (afterCalls str calls).tokenCache call.now with
      | true =>
          obtain ⟨cached, hcached⟩ := exists_of_found haccess
          refine h.keep ?_ ?_
          · rw [afterCalls_concat, fetch_reused hcached]
          · rw [loginAfter_concat, nextLogin, hout]
            exact if_pos haccess
      | false =>
          obtain ⟨request, g, hprepare, hexchange⟩ := exists_exchanged haccess hout
          exact h.exchanged hexchange hprepare haccess

/-- **Whose tokens the cache holds**, after any calls. -/
theorem accounted (str : JsonValue τ → String) (calls : List (Call τ)) :
    Accounted str calls := by
  induction calls using List.reverseRecOn with
  | nil => exact Or.inl rfl
  | append_singleton calls call ih => exact ih.concat call

end Runs

/-! ### With the cache and without -/

/-- A call that is given a token if the cache is empty is given one after these calls, too,
and its provider has issued it for the user name that is configured. -/
def Transparent (str : JsonValue τ → String) (calls : List (Call τ)) (call : Call τ) : Prop :=
  ∀ fresh, (fetchKeycloakToken str call {}).1 = .ok fresh →
    ∃ g username, getCopernicusmarineUsername call = .ok username ∧
      (fetchKeycloakToken str call (afterCalls str calls)).1 = .ok g.accessToken ∧
      Issued str (calls ++ [call]) ⟨call.config.oidcConfig.oidcProviderUrl, username⟩ g

/-- Tokens that still live are those of the configured provider and user name; a refresh token
that is sent is one of the user name, and the provider accepts it. -/
def Usable (str : JsonValue τ → String) (calls : List (Call τ)) (call : Call τ) : Prop :=
  ∀ fresh username, (fetchKeycloakToken str call {}).1 = .ok fresh →
    getCopernicusmarineUsername call = .ok username →
    let cache := (afterCalls str calls).tokenCache
    (accessLives cache call.now = true →
      loginAfter str calls = some ⟨call.config.oidcConfig.oidcProviderUrl, username⟩) ∧
    (accessLives cache call.now = false → refreshLives cache call.now = true →
      (loginAfter str calls).map Login.username = some username ∧
      ∃ request g, prepareRequest cache call = .ok request ∧ Answered call request g)

/-- No access token is issued for two users or by two providers. -/
def Unmistakable (str : JsonValue τ → String) (calls : List (Call τ)) : Prop :=
  ∀ login login' g g', Issued str calls login g → Issued str calls login' g' →
    g.accessToken = g'.accessToken → login = login'

section Transparent

variable {str : JsonValue τ → String} {calls : List (Call τ)} {call : Call τ}

lemma Usable.transparent (h : Usable str calls call) : Transparent str calls call := by
  intro fresh hfresh
  obtain ⟨request₀, g₀, hprepare₀, hg₀⟩ := answered_of_fetch rfl hfresh
  obtain ⟨username, password, husername, -⟩ := data_of_expired rfl hprepare₀
  obtain ⟨haccess, hrefresh⟩ := h fresh username hfresh husername
  cases hlives : accessLives (afterCalls str calls).tokenCache call.now with
  | true =>
      obtain ⟨cached, hcached⟩ := exists_of_found hlives
      obtain ⟨login, g, hlogin, hissued, rfl⟩ :=
        (accounted str calls).access (unexpired_eq_some hcached).1
      obtain rfl : login = _ := Option.some.inj (hlogin.symm.trans (haccess hlives))
      exact ⟨g, username, husername, by rw [fetch_reused hcached], hissued.concat call⟩
  | false =>
      cases hsent : refreshLives (afterCalls str calls).tokenCache call.now with
      | true =>
          obtain ⟨hsame, request, g, hprepare, hg⟩ := hrefresh hlives hsent
          have hexchange := Exchanged.of_answered hlives hprepare hg
          obtain ⟨login, hlogin, hissued⟩ :=
            (accounted str calls).refreshed hexchange hprepare hsent
          rw [hlogin] at hsame
          obtain rfl : login.username = username := Option.some.inj hsame
          exact ⟨g, login.username, husername, by rw [hexchange.stored], hissued⟩
      | false =>
          -- the request is the one that is made if the cache is empty
          have hprepare := (prepareRequest_of_expired (refresh_of_not_lives hsent)).trans hprepare₀
          have hexchange := Exchanged.of_answered hlives hprepare hg₀
          obtain ⟨username', husername', hissued⟩ := issued_of_expired hexchange hprepare hsent
          obtain rfl : username = username' := Except.ok.inj (husername.symm.trans husername')
          exact ⟨g₀, username, husername, by rw [hexchange.stored], hissued⟩

lemma Transparent.usable (h : Transparent str calls call)
    (htokens : Unmistakable str (calls ++ [call])) : Usable str calls call := by
  intro fresh username hfresh husername
  obtain ⟨g₁, username₁, husername₁, htoken, hissued₁⟩ := h fresh hfresh
  obtain rfl : username = username₁ := Except.ok.inj (husername.symm.trans husername₁)
  refine ⟨fun hlives => ?_, fun hlives hsent => ?_⟩
  · obtain ⟨cached, hcached⟩ := exists_of_found hlives
    obtain ⟨login, g, hlogin, hissued, rfl⟩ :=
      (accounted str calls).access (unexpired_eq_some hcached).1
    rw [fetch_reused hcached] at htoken
    rw [hlogin, htokens _ _ _ _ (hissued.concat call) hissued₁ (Except.ok.inj htoken)]
  · obtain ⟨request, g, hprepare, hexchange⟩ := exists_exchanged hlives htoken
    obtain ⟨login, hlogin, hissued⟩ :=
      (accounted str calls).refreshed hexchange hprepare hsent
    rw [hexchange.stored] at htoken
    have hsame := htokens _ _ _ _ hissued hissued₁ (Except.ok.inj htoken)
    refine ⟨?_, request, g, hprepare, hexchange.answered⟩
    rw [hlogin]
    exact congrArg some (congrArg Login.username hsame)

end Transparent

/-- **When the cache is transparent**, after any calls: if the tokens it would use are of the
provider and the user name of the call, and a refresh is accepted. Where access tokens tell
their users apart, it is not transparent otherwise. -/
theorem transparent_iff (str : JsonValue τ → String) (calls : List (Call τ)) (call : Call τ) :
    (Usable str calls call → Transparent str calls call) ∧
    (Unmistakable str (calls ++ [call]) → Transparent str calls call → Usable str calls call) :=
  ⟨Usable.transparent, fun htokens h => h.usable htokens⟩

def examplePost : TokenRequest ℚ → Except PyError (Response ℚ)
  | ⟨_, .credentials ..⟩ => .ok ⟨200, "https://idp.example/token", some (.object
      [("access_token", .string "a"), ("expires_in", .number 300),
        ("refresh_token", .string "r"), ("refresh_expires_in", .number 1800)])⟩
  | ⟨_, .refresh ..⟩ => .ok ⟨400, "https://idp.example/token",
      some (.object [("error_description", .string "Session not active")])⟩

def exampleCall (now : ℚ) : Call ℚ where
  config := ⟨⟨"idp.example", "toolbox", "openid", "password"⟩, ⟨100, 10, 5⟩⟩
  now
  getenv _ := some "x"
  get _ := .ok ⟨200, "", some (.object [("token_endpoint", .string "https://idp.example/token")])⟩
  post := examplePost

theorem transparent_iff_reused :
    Transparent (fun _ => "") [exampleCall 1000] (exampleCall 1200) := by
  refine (transparent_iff _ _ _).1 fun fresh username _ husername => ⟨fun _ => ?_, fun hdead => ?_⟩
  · obtain rfl : "x" = username := Except.ok.inj husername
    decide +kernel
  · exact absurd hdead (by decide +kernel)

/-- The provider has ended the session, and the password is not tried. -/
theorem not_transparent_revoked :
    ¬ Transparent (fun _ => "") [exampleCall 1000] (exampleCall 1400) := by
  intro h
  have hfails : (fetchKeycloakToken (fun _ => "") (exampleCall 1400)
      (afterCalls (fun _ => "") [exampleCall 1000])).1.toBool = false := by decide +kernel
  cases hfresh : (fetchKeycloakToken (fun _ => "") (exampleCall 1400) {}).1 with
  | error e =>
      have hworks : (fetchKeycloakToken (fun _ => "") (exampleCall 1400) {}).1.toBool =
        true := by decide +kernel
      rw [hfresh] at hworks
      cases hworks
  | ok fresh =>
      obtain ⟨g, username, -, hok, -⟩ := h fresh hfresh
      rw [hok] at hfails
      cases hfails

end MarineDelivery.Transparency
