import Precall.Lib.Digest
import Precall.Lib.Text
import Precall.Store.Objects

namespace Precall.Api

open ByteLib TextLib DigestLib Precall.Store

/-!
# Who may ask

The bearer check of `precall-api/src/auth.rs` in front of the routes of
`precall-api/src/routes.rs`.  SHA-256 belongs to a crate outside the repository and is a
parameter.

* `ApiAuth`, `requireAuth`, `buildRouter` — the tokens, the middleware, the routes behind it;
* `Authorised` — who may ask: whoever carries a configured token, or, where none is configured,
  whoever asks from the machine itself;
* `requireAuth_ok_iff` — what the middleware passes; `requireAuth_authorised_iff` — that is what it
  should pass, except that with no token configured it never looks at the peer.
-/

/-! ### Requests -/

/-- The address a request comes from, in either version of the protocol. -/
inductive IpAddr where
  | v4 (octets : Vector UInt8 4)
  | v6 (segments : Vector UInt16 8)
  deriving DecidableEq, Repr

/-- `127.0.0.0/8` and `::1`. -/
def IpAddr.isLoopback : IpAddr → Bool
  | .v4 octets => octets[0] == 127
  | .v6 segments => segments == #v[0, 0, 0, 0, 0, 0, 0, 1]

/-- The routes of the protected API, with the ids in their paths; every one of them stands behind
    the middleware. -/
inductive ApiRoute where
  | timeline
  | search
  | snapshot (id : String)
  | regions (id : String)
  | relaunch
  | apps
  | web
  | clients
  | «export»
  | wipeClient (id : String)
  | live
  deriving DecidableEq, Repr

/-- What the path and method of a request lead to; `api` is a route below `/api/v1`, and only
    `health` is open to all. -/
inductive Target where
  | health
  | api (route : ApiRoute)
  | other
  deriving DecidableEq, Repr

/-- A request as the middleware sees it; `authorization` are the values of its `Authorization`
    headers. -/
structure Request where
  peer : IpAddr
  target : Target
  authorization : List Bytes
  deriving DecidableEq, Repr

/-- The refusals that need no handler. -/
inductive StatusCode where
  | unauthorized
  | notFound
  deriving DecidableEq, Repr

/-- `HeaderValue::to_str` — visible ASCII, blanks and tabs; a value with any other byte is none. -/
def headerText (value : Bytes) : Option String :=
  if value.all fun b => (32 ≤ b && b < 127) || b == 9 then
    some (String.ofList (value.map fun b => Char.ofNat b.toNat))
  else none

section
variable [TextTables]

/-- The token of a bearer header: the first `Authorization` value, behind `Bearer` and one blank,
    trimmed. -/
def bearerToken (req : Request) : Option String := do
  let value ← req.authorization.head?
  let text ← headerText value
  return trim (← stripPrefix? text "Bearer ")

/-! ### The check -/

/-- The accepted tokens, as digests; the tokens themselves are not kept. -/
structure ApiAuth where
  tokenDigests : List Digest

variable (sha256 : Bytes → Digest)

/-- `ApiAuth::new` — each token is digested once, at the start. -/
def ApiAuth.new (tokens : List String) : ApiAuth :=
  ⟨(tokens.map ObjectStore.utf8).map sha256⟩

/-- `ApiAuth::is_configured` — is there any token to compare with? -/
def ApiAuth.isConfigured (auth : ApiAuth) : Bool := !auth.tokenDigests.isEmpty

/-- `ApiAuth::allows` — the hint decides where no token is configured, and the digest of the
    header's token elsewhere. -/
def ApiAuth.allows (auth : ApiAuth) (headerToken : Option String) (loopbackOnlyHint : Bool) :
    Bool :=
  if auth.tokenDigests.isEmpty then loopbackOnlyHint
  else match headerToken with
    | some t => auth.tokenDigests.any fun d => ctEq d (sha256 (ObjectStore.utf8 t))
    | none => false

/-- `require_auth` — the middleware in front of a handler, which it runs or answers for. -/
def requireAuth {ρ : Type} (auth : ApiAuth) (next : Request → ρ) (req : Request) :
    Except StatusCode ρ :=
  -- without tokens the request is passed before anything about it is looked at
  if ¬ auth.isConfigured then .ok (next req)
  else if auth.allows sha256 (bearerToken req) true then .ok (next req)
  else .error .unauthorized

/-- `build_router` — the middleware stands in front of every route below `/api/v1`. -/
def buildRouter {ρ : Type} (auth : ApiAuth) (health : Request → ρ)
    (handlers : ApiRoute → Request → ρ) (req : Request) : Except StatusCode ρ :=
  match req.target with
  | .health => .ok (health req)
  | .api route => requireAuth sha256 auth (handlers route) req
  | .other => .error .notFound

/-! ### Who may ask -/

/-- A header value is `Bearer`, a blank, and a token between blanks; the token itself begins and
    ends with none. -/
def Carries (value : Bytes) (token : String) : Prop :=
  ∃ text l r, headerText value = some text ∧
    text.toList = "Bearer ".toList ++ (l ++ (token.toList ++ r)) ∧
    (∀ c ∈ l ++ r, TextTables.isWhitespace c = true) ∧
    (∀ c ∈ token.toList.head?, TextTables.isWhitespace c = false) ∧
    ∀ c ∈ token.toList.getLast?, TextTables.isWhitespace c = false

/-- Who the API is meant to answer: holders of a configured token, and without any configured one
    the machine itself. -/
def Authorised (tokens : List String) (req : Request) : Prop :=
  (tokens ≠ [] ∧ ∃ value ∈ req.authorization.head?, ∃ t ∈ tokens, Carries value t) ∨
    (tokens = [] ∧ req.peer.isLoopback = true)

/-- The token the code reads is the one the first header carries, up to the blanks around it. -/
theorem bearerToken_eq_some {req : Request} {t : String} :
    bearerToken req = some t ↔ ∃ value ∈ req.authorization.head?, Carries value t := by
  constructor
  · intro h
    obtain ⟨value, hvalue, htext⟩ := Option.bind_eq_some_iff.mp h
    obtain ⟨text, htext, hstrip⟩ := Option.bind_eq_some_iff.mp htext
    obtain ⟨rest, hrest, htrim⟩ := Option.bind_eq_some_iff.mp hstrip
    obtain ⟨l, r, hsplit, hends⟩ := trim_eq_iff.mp (Option.some.inj htrim)
    refine ⟨value, hvalue, text, l, r, htext, ?_, hends⟩
    rw [stripPrefix?_eq_some.mp hrest, hsplit]
  · rintro ⟨value, hvalue, text, l, r, htext, hsplit, hends⟩
    have hstrip : stripPrefix? text "Bearer " = some (String.ofList (l ++ (t.toList ++ r))) := by
      rw [stripPrefix?_eq_some, hsplit]
      exact congrArg ("Bearer ".toList ++ ·) String.toList_ofList.symm
    have htrim : trim (String.ofList (l ++ (t.toList ++ r))) = t :=
      trim_eq_iff.mpr ⟨l, r, String.toList_ofList, hends⟩
    unfold bearerToken
    rw [Option.mem_def.mp hvalue, Option.bind_eq_bind, Option.bind_some, htext,
      Option.bind_eq_bind, Option.bind_some, hstrip]
    exact congrArg some htrim

variable {ρ : Type} {sha256 : Bytes → Digest} {tokens : List String} {req : Request}

omit [TextTables] in
/-- The guard is on exactly if there is a token, however many of them are the same. -/
theorem isConfigured_new : (ApiAuth.new sha256 tokens).isConfigured = true ↔ tokens ≠ [] := by
  cases tokens <;> simp [ApiAuth.new, ApiAuth.isConfigured]

variable (sha256) in
omit [TextTables] in
/-- What a configured check allows: a token with the digest of a configured one.  That this is
    the same token is up to the hash. -/
theorem allows_new (h : tokens ≠ []) (headerToken : Option String) (hint : Bool) :
    (ApiAuth.new sha256 tokens).allows sha256 headerToken hint = true ↔
      ∃ s ∈ headerToken, ∃ t ∈ tokens,
        sha256 (ObjectStore.utf8 t) = sha256 (ObjectStore.utf8 s) := by
  have hempty : (ApiAuth.new sha256 tokens).tokenDigests.isEmpty = false := by
    cases tokens with
    | nil => exact absurd rfl h
    | cons t ts => rfl
  unfold ApiAuth.allows
  rw [hempty]
  cases headerToken with
  | none => simp
  | some s =>
    simp only [ApiAuth.new, Bool.false_eq_true, ↓reduceIte, any_ctEq_iff]
    simp

/-- What the middleware passes: everything without tokens, and otherwise a header whose token has
    the digest of a configured one. -/
theorem requireAuth_ok_iff (next : Request → ρ) :
    requireAuth sha256 (ApiAuth.new sha256 tokens) next req = .ok (next req) ↔
      tokens = [] ∨ ∃ s, bearerToken req = some s ∧ ∃ t ∈ tokens,
        sha256 (ObjectStore.utf8 t) = sha256 (ObjectStore.utf8 s) := by
  unfold requireAuth
  by_cases htokens : tokens = []
  · have hopen : ¬ (ApiAuth.new sha256 tokens).isConfigured = true := fun h =>
      isConfigured_new.mp h htokens
    rw [if_pos hopen]
    exact iff_of_true rfl (Or.inl htokens)
  · have hconfigured : (ApiAuth.new sha256 tokens).isConfigured = true :=
      isConfigured_new.mpr htokens
    have hallows := allows_new sha256 htokens (bearerToken req) true
    rw [if_neg (not_not_intro hconfigured)]
    by_cases h : (ApiAuth.new sha256 tokens).allows sha256 (bearerToken req) true = true
    · rw [if_pos h]
      exact iff_of_true rfl (Or.inr (hallows.mp h))
    · rw [if_neg h]
      refine iff_of_false (by simp) ?_
      rintro (hnone | hsome)
      · exact htokens hnone
      · exact h (hallows.mpr hsome)

/-- With a token configured the middleware passes exactly the authorised, on tokens whose digests
    do not collide. -/
theorem requireAuth_configured (htokens : tokens ≠ [])
    (hdigest : ∀ s, bearerToken req = some s → ∀ t ∈ tokens,
      sha256 (ObjectStore.utf8 t) = sha256 (ObjectStore.utf8 s) → t = s) (next : Request → ρ) :
    requireAuth sha256 (ApiAuth.new sha256 tokens) next req = .ok (next req) ↔
      Authorised tokens req := by
  rw [requireAuth_ok_iff]
  constructor
  · rintro (hnone | ⟨s, hs, t, ht, hsame⟩)
    · exact absurd hnone htokens
    · -- equal digests: the token carried is the one configured
      obtain rfl := hdigest s hs t ht hsame
      obtain ⟨value, hvalue, hcarries⟩ := bearerToken_eq_some.mp hs
      exact Or.inl ⟨htokens, value, hvalue, t, ht, hcarries⟩
  · rintro (⟨-, value, hvalue, t, ht, hcarries⟩ | ⟨hnone, -⟩)
    · exact Or.inr ⟨t, bearerToken_eq_some.mpr ⟨value, hvalue, hcarries⟩, t, ht, rfl⟩
    · exact absurd hnone htokens

/-- **When the middleware enforces the rule.**  Whatever is configured, whoever asks and whatever
    the header, exactly the authorised reach a handler of the API — unless no token is configured
    and the peer is another machine, which the code lets pass. -/
theorem requireAuth_authorised_iff (tokens : List String) (req : Request) (route : ApiRoute)
    (health : Request → ρ) (handlers : ApiRoute → Request → ρ) (hroute : req.target = .api route)
    (hdigest : ∀ s, bearerToken req = some s → ∀ t ∈ tokens,
      sha256 (ObjectStore.utf8 t) = sha256 (ObjectStore.utf8 s) → t = s) :
    (buildRouter sha256 (ApiAuth.new sha256 tokens) health handlers req
        = .ok (handlers route req) ↔ Authorised tokens req) ↔
      tokens ≠ [] ∨ req.peer.isLoopback = true := by
  have hrouter : buildRouter sha256 (ApiAuth.new sha256 tokens) health handlers req
      = requireAuth sha256 (ApiAuth.new sha256 tokens) (handlers route) req := by
    unfold buildRouter
    rw [hroute]
  rw [hrouter]
  by_cases htokens : tokens = []
  -- everybody passes, and the peer decides whether that is right
  · have hpassed : requireAuth sha256 (ApiAuth.new sha256 tokens) (handlers route) req
        = .ok (handlers route req) :=
      (requireAuth_ok_iff (handlers route)).mpr (Or.inl htokens)
    have hauthorised : Authorised tokens req ↔ req.peer.isLoopback = true := by
      constructor
      · rintro (⟨hne, -⟩ | ⟨-, hloopback⟩)
        · exact absurd htokens hne
        · exact hloopback
      · exact fun hloopback => Or.inr ⟨htokens, hloopback⟩
    rw [hauthorised]
    constructor
    · exact fun h => Or.inr (h.mp hpassed)
    · rintro (hne | hloopback)
      · exact absurd htokens hne
      · exact iff_of_true hpassed hloopback
  · exact iff_of_true (requireAuth_configured htokens hdigest _) (Or.inl htokens)

end

/-! ### A machine on the network -/

section
attribute [local instance] TextTables.ascii

/-- A request for the timeline from another machine, with one header. -/
def remoteRequest (authorization : List Bytes) : Request :=
  ⟨.v4 #v[192, 0, 2, 7], .api .timeline, authorization⟩

/-- With no token configured it is answered, though it comes from another machine. -/
theorem remoteRequest_passes :
    ¬ ∀ (tokens : List String) (req : Request),
      (∀ s, bearerToken req = some s → ∀ t ∈ tokens,
        digestOfAbc (ObjectStore.utf8 t) = digestOfAbc (ObjectStore.utf8 s) → t = s) →
      (requireAuth digestOfAbc (ApiAuth.new digestOfAbc tokens) (fun _ => ()) req = .ok () ↔
        Authorised tokens req) := by
  intro h
  have hpassed : requireAuth digestOfAbc (ApiAuth.new digestOfAbc []) (fun _ => ())
      (remoteRequest []) = .ok () := by decide
  rcases (h [] (remoteRequest []) (by simp)).mp hpassed with ⟨hne, -⟩ | ⟨-, hloopback⟩
  · exact hne rfl
  · exact absurd hloopback (by decide)

/-- The bytes of "Bearer abc". -/
def bearerAbc : Bytes := [0x42, 0x65, 0x61, 0x72, 0x65, 0x72, 0x20, 0x61, 0x62, 0x63]

/-- With a token configured it is answered if it carries it. -/
theorem remoteRequest_authorised :
    buildRouter digestOfAbc (ApiAuth.new digestOfAbc ["abc"]) (fun _ => ()) (fun _ _ => ())
        (remoteRequest [bearerAbc]) = .ok () ↔
      Authorised ["abc"] (remoteRequest [bearerAbc]) := by
  have hcarried : bearerToken (remoteRequest [bearerAbc]) = some "abc" := by
    decide
  refine (requireAuth_authorised_iff ["abc"] _ .timeline (fun _ => ()) (fun _ _ => ()) rfl
    ?_).mpr (Or.inl (by decide))
  intro s hs t ht _
  rw [List.mem_singleton.mp ht]
  exact Option.some.inj (hcarried.symm.trans hs)

end

end Precall.Api
