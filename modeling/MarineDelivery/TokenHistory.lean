import Mathlib.Data.List.Chain
import Mathlib.Tactic.Linarith
import MarineDelivery.Transparency

/-!
How often the identity provider is asked.

The exchanges of a run form a chain: each is made because the tokens of the one before no
longer do, and sends the refresh token of that one or, when it has expired too, the password.
If tokens live long enough, the exchanges of a run therefore lie that far apart, whatever the
calls and however the clock is set between them. The times are exact rationals here, where the
code has floats and rounds.
-/

namespace MarineDelivery.TokenHistory

open MarineDelivery.Errors MarineDelivery.Traced MarineDelivery.Auth MarineDelivery.Transparency

/-! ### Spaced lists -/

lemma exists_far {α : Type} {f : α → ℚ} {d : ℚ} (l : List α) (a : α)
    (h : (a :: l).IsChain fun x y => f x + d ≤ f y) :
    ∃ b ∈ a :: l, f a + l.length * d ≤ f b := by
  induction l generalizing a with
  | nil => exact ⟨a, by simp, by simp⟩
  | cons b l ih =>
      obtain ⟨hab, hl⟩ := List.isChain_cons_cons.mp h
      obtain ⟨c, hc, hfar⟩ := ih b hl
      refine ⟨c, List.mem_cons_of_mem a hc, ?_⟩
      have hlength : ((b :: l).length : ℚ) = l.length + 1 := by simp
      rw [hlength]
      linarith

/-- In a chain that never goes back, what lies behind an element lies behind all before it. -/
lemma pairwise_of_isChain {α : Type} {f : α → ℚ} {d : ℚ} {P : α → Prop} {l : List α}
    (hmono : l.IsChain fun x y => f x ≤ f y) (h : l.IsChain fun x y => P y → f x + d ≤ f y) :
    l.Pairwise fun x y => P y → f x + d ≤ f y := by
  induction l with
  | nil => exact .nil
  | cons a l ih =>
      refine List.pairwise_cons.mpr ⟨fun y hy hP => ?_, ih hmono.tail h.tail⟩
      cases l with
      | nil => cases hy
      | cons b l =>
          obtain ⟨hab, hback⟩ := List.isChain_cons_cons.mp hmono
          rcases List.mem_cons.mp hy with rfl | hy
          · exact (List.isChain_cons_cons.mp h).1 hP
          · have hnext := (List.pairwise_cons.mp (ih hmono.tail h.tail)).1 y hy hP
            linarith

/-! ### Exchanges -/

/-- A token request that has been granted: when, what was sent, and what is cached. -/
structure Exchange (τ : Type) where
  now : τ
  request : TokenRequest τ
  cache : TokenCache τ

def Exchange.sendsPassword {τ : Type} (x : Exchange τ) : Bool :=
  match x.request.data with
  | .refresh .. => false
  | .credentials .. => true

section

variable {τ : Type} [Number τ] (str : JsonValue τ → String)

/-- The exchange of a call, if there is one: the call returns, and has made a request. -/
def exchangeOf (call : Call τ) (s : AuthState τ) : Option (Exchange τ) :=
  match fetchKeycloakToken str call s with
  | (.ok _, s') =>
    s'.requests[s.requests.length]?.map fun request => ⟨call.now, request, s'.tokenCache⟩
  | (.error _, _) => none

def exchanges : AuthState τ → List (Call τ) → List (Exchange τ)
  | _, [] => []
  | s, call :: calls =>
    (exchangeOf str call s).toList ++ exchanges (fetchKeycloakToken str call s).2 calls

def raised : AuthState τ → List (Call τ) → ℕ
  | _, [] => 0
  | s, call :: calls =>
    (if (fetchKeycloakToken str call s).1.toBool then 0 else 1) +
      raised (fetchKeycloakToken str call s).2 calls

/-- The exchange is made because this cache does not do, with what it still holds. -/
def Exchange.Follows (x : Exchange τ) (cache : TokenCache τ) : Prop :=
  unexpired cache.accessToken cache.accessExpiresAt "access_expires_at" x.now = .ok none ∧
  match unexpired cache.refreshToken cache.refreshExpiresAt "refresh_expires_at" x.now with
  | .ok (some token) => ∃ clientId, x.request.data = .refresh clientId token
  | .ok none => x.sendsPassword = true
  | .error _ => False

def Exchange.GrantedBy (x : Exchange τ) (call : Call τ) : Prop :=
  x.now = call.now ∧ ∃ g, Answered call x.request g ∧ x.cache = g.cacheAt call.now

variable {str} {call : Call τ} {s : AuthState τ} {x : Exchange τ}

lemma follows_of_prepareRequest {request : TokenRequest τ} {cache : TokenCache τ}
    (haccess : unexpired cache.accessToken cache.accessExpiresAt "access_expires_at" call.now =
      .ok none) (h : prepareRequest cache call = .ok request) (new : TokenCache τ) :
    (Exchange.mk call.now request new).Follows cache := by
  refine ⟨haccess, ?_⟩
  dsimp only
  cases hrefresh : unexpired cache.refreshToken cache.refreshExpiresAt "refresh_expires_at"
      call.now with
  | error e =>
      unfold prepareRequest tokenForm at h
      simp only [hrefresh, bind_eq_ok] at h
      obtain ⟨_, -, _, -, _, -, _, -, _, ⟨_, herror, -⟩, -⟩ := h
      cases herror
  | ok value =>
      cases value with
      | some token => exact ⟨_, data_of_refresh hrefresh h⟩
      | none =>
          obtain ⟨username, password, -, hdata⟩ := data_of_expired hrefresh h
          dsimp only [Exchange.sendsPassword]
          rw [hdata]

/-- **The three ends of a call, for the history**: nothing is asked, or asking fails, or there is
an exchange, and its tokens are cached. -/
lemma fetch_cases (str : JsonValue τ → String) (call : Call τ) (s : AuthState τ) :
    let s' := (fetchKeycloakToken str call s).2
    (s' = s ∧ exchangeOf str call s = none) ∨
    ((fetchKeycloakToken str call s).1.toBool = false ∧ exchangeOf str call s = none ∧
      s'.tokenCache = s.tokenCache ∧ ∃ request, s'.requests = s.requests ++ [request]) ∨
    ∃ x, exchangeOf str call s = some x ∧ x.Follows s.tokenCache ∧ x.GrantedBy call ∧
      s' = ⟨x.cache, s.requests ++ [x.request]⟩ := by
  unfold exchangeOf fetchKeycloakToken
  cases haccess : unexpired s.tokenCache.accessToken s.tokenCache.accessExpiresAt
      "access_expires_at" call.now with
  | error e => exact Or.inl ⟨rfl, rfl⟩
  | ok cached =>
      cases cached with
      | some token => exact Or.inl ⟨rfl, by simp⟩
      | none =>
          dsimp only
          cases hprepare : prepareRequest s.tokenCache call with
          | error e => exact Or.inl ⟨rfl, rfl⟩
          | ok request =>
              dsimp only
              cases hreply : receiveTokens str call request with
              | error e => exact Or.inr (Or.inl ⟨rfl, rfl, rfl, request, rfl⟩)
              | ok y =>
                  obtain ⟨g, hg, -, hcache⟩ := receiveTokens_ok hreply
                  refine Or.inr (Or.inr ⟨⟨call.now, request, y.2⟩, by simp, ?_, ⟨rfl, g, hg,
                    hcache⟩, rfl⟩)
                  exact follows_of_prepareRequest haccess hprepare y.2

/-- **The exchanges of a run form a chain** that begins with the cache. -/
lemma exchanges_chain (str : JsonValue τ → String) (calls : List (Call τ)) (s : AuthState τ) :
    (exchanges str s calls).IsChain (fun x y => y.Follows x.cache) ∧
      ∀ x ∈ (exchanges str s calls).head?, x.Follows s.tokenCache := by
  induction calls generalizing s with
  | nil => exact ⟨.nil, by simp [exchanges]⟩
  | cons call calls ih =>
      obtain ⟨hchain, hhead⟩ := ih (fetchKeycloakToken str call s).2
      rw [exchanges]
      rcases fetch_cases str call s with ⟨hs, hnone⟩ | ⟨-, hnone, hcache, -⟩ |
        ⟨x, hsome, hfollows, -, hs⟩
      · rw [hnone, Option.toList_none, List.nil_append]
        rw [hs] at hchain hhead ⊢
        exact ⟨hchain, hhead⟩
      · rw [hnone, Option.toList_none, List.nil_append]
        exact ⟨hchain, fun y hy => hcache ▸ hhead y hy⟩
      · rw [hsome, Option.toList_some, List.singleton_append]
        rw [hs] at hchain hhead ⊢
        refine ⟨List.isChain_cons.mpr ⟨hhead, hchain⟩, fun y hy => ?_⟩
        obtain rfl : x = y := by simpa using hy
        exact hfollows

lemma exists_grantedBy {calls : List (Call τ)} (h : x ∈ exchanges str s calls) :
    ∃ call ∈ calls, x.GrantedBy call := by
  induction calls generalizing s with
  | nil => cases h
  | cons call calls ih =>
      rw [exchanges] at h
      rcases List.mem_append.mp h with h | h
      · rcases fetch_cases str call s with ⟨-, hnone⟩ | ⟨-, hnone, -⟩ | ⟨y, hsome, -, hgranted, -⟩
        · rw [hnone] at h
          cases h
        · rw [hnone] at h
          cases h
        · obtain rfl : x = y := by simpa [hsome] using h
          exact ⟨call, List.mem_cons_self, hgranted⟩
      · obtain ⟨call', hcall, hgranted⟩ := ih h
        exact ⟨call', List.mem_cons_of_mem call hcall, hgranted⟩

lemma exchanges_append (before : List (Call τ)) (call : Call τ) (after : List (Call τ))
    (s : AuthState τ) :
    exchanges str s (before ++ call :: after) = exchanges str s before ++
      ((exchangeOf str call (before.foldl (fun s call => (fetchKeycloakToken str call s).2)
        s)).toList ++
      exchanges str (fetchKeycloakToken str call
        (before.foldl (fun s call => (fetchKeycloakToken str call s).2) s)).2 after) := by
  induction before generalizing s with
  | nil => rfl
  | cons first before ih =>
      rw [List.cons_append, exchanges, exchanges, ih, List.foldl_cons, List.append_assoc]

lemma length_requests_le (calls : List (Call τ)) (s : AuthState τ) :
    (calls.foldl (fun s call => (fetchKeycloakToken str call s).2) s).requests.length ≤
      s.requests.length + (exchanges str s calls).length + raised str s calls := by
  induction calls generalizing s with
  | nil => exact Nat.le_add_right _ _
  | cons call calls ih =>
      have hrest := ih (fetchKeycloakToken str call s).2
      rw [List.foldl_cons, exchanges, raised, List.length_append]
      rcases fetch_cases str call s with ⟨hs, hnone⟩ | ⟨hraised, hnone, -, request, hrequests⟩ |
        ⟨x, hsome, -, -, hs⟩
      · rw [hs] at hrest ⊢
        rw [hnone, Option.toList_none, List.length_nil]
        omega
      · have hlength := congrArg List.length hrequests
        simp only [List.length_append, List.length_singleton] at hlength
        rw [hnone, hraised]
        simp only [Option.toList_none, List.length_nil, Bool.false_eq_true, if_false]
        omega
      · have hlength := congrArg (fun s => s.requests.length) hs
        simp only [List.length_append, List.length_singleton] at hlength
        rw [hsome, Option.toList_some, List.length_singleton]
        omega

end

/-! ### Tokens that live long enough -/

/-- Whatever one of the calls is granted lives at least that long. -/
def Generous (calls : List (Call ℚ)) (access refresh : ℚ) : Prop :=
  ∀ call ∈ calls, ∀ request g, Answered call request g →
    (g.accessToken.truthy = true ∧ access ≤ g.expiresIn) ∧
      (g.refreshToken.truthy = true ∧ refresh ≤ g.refreshExpiresIn)

/-- A call asks for nothing, or it asks once and raises, or it asks once and that is one of the
exchanges. -/
def AsksOnce (str : JsonValue ℚ → String) (log : List (Exchange ℚ)) (call : Call ℚ)
    (s : AuthState ℚ) : Prop :=
  let after := fetchKeycloakToken str call s
  after.2.requests = s.requests ∨
    after.1.toBool = false ∧ (∃ request, after.2.requests = s.requests ++ [request]) ∨
    ∃ x ∈ log, x.now = call.now ∧ after.2.requests = s.requests ++ [x.request]

/-- The exchanges of a run lie apart, those that send the password from all before them; `n + 1`
of them take their time; and no call makes another request, unless it raises. -/
structure Sparing (str : JsonValue ℚ → String) (calls : List (Call ℚ)) (access refresh : ℚ) :
    Prop where
  spaced : (exchanges str {} calls).Pairwise fun x y => x.now + (access - 30) ≤ y.now
  passwords : (exchanges str {} calls).Pairwise fun x y =>
    y.sendsPassword = true → x.now + (refresh - 30) ≤ y.now
  count : ∀ n duration, (exchanges str {} calls).length = n + 1 →
    (∀ call ∈ calls, ∀ call' ∈ calls, call'.now ≤ call.now + duration) →
    n * (access - 30) ≤ duration
  requests : (afterCalls str calls).requests.length ≤
    (exchanges str {} calls).length + raised str {} calls
  each : ∀ before call after, calls = before ++ call :: after →
    AsksOnce str (exchanges str {} calls) call (afterCalls str before)

section

variable {str : JsonValue ℚ → String} {calls : List (Call ℚ)} {access refresh : ℚ}
variable {x y : Exchange ℚ}

lemma le_of_unexpired {token : JsonValue ℚ} {t now : ℚ} {key : String}
    (htoken : token.truthy = true) (h : unexpired (some token) (some t) key now = .ok none) :
    t - 30 ≤ now := by
  unfold unexpired at h
  dsimp only at h
  rw [if_pos htoken] at h
  split_ifs at h with hnow
  · cases h
  · exact not_lt.mp hnow

lemma Generous.spaced (h : Generous calls access refresh) {call : Call ℚ} (hcall : call ∈ calls)
    (hx : x.GrantedBy call) (hy : y.Follows x.cache) :
    x.now + (access - 30) ≤ y.now ∧
      (y.sendsPassword = true → x.now + (refresh - 30) ≤ y.now) := by
  obtain ⟨hnow, g, hg, hcache⟩ := hx
  obtain ⟨⟨haccess, hlife⟩, ⟨hrefresh, hlife'⟩⟩ := h call hcall x.request g hg
  obtain ⟨hexpired, hsent⟩ := hy
  rw [hcache] at hexpired hsent
  have hend : call.now + g.expiresIn - 30 ≤ y.now := le_of_unexpired haccess hexpired
  refine ⟨by linarith, fun hpassword => ?_⟩
  have hnone : unexpired (some g.refreshToken) (some (call.now + g.refreshExpiresIn))
      "refresh_expires_at" y.now = .ok none := by
    dsimp only [TokenGrant.cacheAt] at hsent
    split at hsent
    · next token _ =>
        obtain ⟨clientId, hdata⟩ := hsent
        rw [Exchange.sendsPassword, hdata] at hpassword
        cases hpassword
    · next hlater => exact hlater
    · exact hsent.elim
  have hend' : call.now + g.refreshExpiresIn - 30 ≤ y.now := le_of_unexpired hrefresh hnone
  linarith

lemma asksOnce {before after : List (Call ℚ)} {call : Call ℚ}
    (hcalls : calls = before ++ call :: after) :
    AsksOnce str (exchanges str {} calls) call (afterCalls str before) := by
  rcases fetch_cases str call (afterCalls str before) with ⟨hs, -⟩ | ⟨hraised, -, -, hrequests⟩ |
    ⟨x, hsome, -, hgranted, hs⟩
  · exact .inl (congrArg AuthState.requests hs)
  · exact .inr (.inl ⟨hraised, hrequests⟩)
  · refine .inr (.inr ⟨x, ?_, hgranted.1, congrArg AuthState.requests hs⟩)
    have hmem : x ∈ (exchangeOf str call (afterCalls str before)).toList := by
      rw [hsome]
      exact List.mem_singleton_self x
    rw [hcalls, exchanges_append]
    exact List.mem_append_right _ (List.mem_append_left _ hmem)

/-- **The provider is asked sparingly**: if access tokens live for at least 30 seconds, two
exchanges are at least their life less 30 seconds apart, and the password is only sent when the
life of the refresh token before it is over, but for these 30 seconds. -/
theorem exchanges_spaced (str : JsonValue ℚ → String) (haccess : 30 ≤ access)
    (h : Generous calls access refresh) : Sparing str calls access refresh := by
  obtain ⟨hchain, -⟩ := exchanges_chain str calls {}
  have hspaced : (exchanges str {} calls).IsChain fun x y => x.now + (access - 30) ≤ y.now ∧
      (y.sendsPassword = true → x.now + (refresh - 30) ≤ y.now) := by
    refine hchain.imp_of_mem_imp fun x y hx _ hfollows => ?_
    obtain ⟨call, hcall, hgranted⟩ := exists_grantedBy hx
    exact h.spaced hcall hgranted hfollows
  have hmono : (exchanges str {} calls).IsChain fun x y => x.now ≤ y.now :=
    hspaced.imp fun x y hxy => by linarith [hxy.1]
  refine ⟨?_, ?_, fun n duration hn hspan => ?_, ?_, fun before call after => asksOnce⟩
  · have hall : (exchanges str {} calls).Pairwise fun x y =>
        True → x.now + (access - 30) ≤ y.now :=
      pairwise_of_isChain hmono (hspaced.imp fun x y hxy _ => hxy.1)
    exact hall.imp fun hxy => hxy trivial
  · exact pairwise_of_isChain hmono (hspaced.imp fun x y hxy => hxy.2)
  · cases hlog : exchanges str {} calls with
    | nil =>
        rw [hlog] at hn
        cases hn
    | cons x log =>
        rw [hlog] at hn hspaced
        obtain ⟨y, hy, hfar⟩ := exists_far log x (hspaced.imp fun x y hxy => hxy.1)
        obtain rfl : log.length = n := Nat.succ.inj hn
        obtain ⟨call, hcall, hx, -⟩ := exists_grantedBy (hlog ▸ List.mem_cons_self)
        obtain ⟨call', hcall', hy, -⟩ := exists_grantedBy (hlog ▸ hy)
        have hfirst := hspan call hcall call' hcall'
        rw [← hx, ← hy] at hfirst
        linarith
  · have hrequests : (afterCalls str calls).requests.length ≤ 0 + _ + _ :=
      length_requests_le calls {}
    rwa [zero_add] at hrequests

end

lemma generous_exampleCall (times : List ℚ) : Generous (times.map exampleCall) 300 1800 := by
  intro call hcall request g hg
  obtain ⟨now, -, rfl⟩ := List.mem_map.mp hcall
  obtain ⟨response, body, hpost, hstatus, hbody, ha, ⟨e, he, hen⟩, hr, r, hre, hrn⟩ := hg
  obtain ⟨endpoint, data⟩ := request
  cases data with
  | refresh clientId token =>
      cases hpost
      exact absurd hstatus (by decide)
  | credentials grantType clientId username password scope =>
      cases hpost
      cases hbody
      cases he
      cases hre
      have htoken : JsonValue.string "a" = g.accessToken := Except.ok.inj ha
      have htoken' : JsonValue.string "r" = g.refreshToken := Except.ok.inj hr
      have hlife : (300 : ℚ) = g.expiresIn := Option.some.inj hen
      have hlife' : (1800 : ℚ) = g.refreshExpiresIn := Option.some.inj hrn
      exact ⟨⟨htoken ▸ rfl, hlife.le⟩, ⟨htoken' ▸ rfl, hlife'.le⟩⟩

/-- The second of three calls is served from the cache, and the last logs in again. -/
theorem exchanges_spaced_three :
    Sparing (fun _ => "") ([1000, 1200, 3000].map exampleCall) 300 1800 ∧
      (exchanges (fun _ => "") {} ([1000, 1200, 3000].map exampleCall)).length = 2 :=
  ⟨exchanges_spaced _ (by norm_num) (generous_exampleCall [1000, 1200, 3000]),
    by decide +kernel⟩

end MarineDelivery.TokenHistory
