import ChimesUtils.Rust
import ChimesUtils.Lib.Run

/-!
# Access tokens

Clients (`TokioAccessToken`) share one cache of tokens. A call of `get` reads the cache; when the entry
is missing or expired it fetches a token from the server, and sets the entry. The three sections are
steps of their own: no lock is held from one to the next. A call is numbered by its client.

The server issues tokens one after another: `issued` has them, the newest first.
-/

namespace ChimesUtils

open Lib

/-- `API_DOMAIN`. -/
def apiDomain : Text := "https://api.weixin.qq.com".toList

/-- `WECHAT_CONFIG_KEY_TOKIO`. -/
def wechatConfigKeyTokio : Text := "wechat_config_cache_tokio".toList

structure TokioAccessToken where
  appType : Text
  appId : Text
  secret : Text
  deriving DecidableEq

/-- `TokioToken`. The field `serial` is not in the source: it is the place of the token in the order
in which the server has issued tokens. -/
structure TokioToken where
  accessToken : Text
  createTime : ℕ
  expires : ℤ
  serial : ℕ
  deriving DecidableEq

/-- The values that `get_access_token` writes into its URL. -/
structure TokenRequest where
  grantType : Text
  appId : Text
  secret : Text
  deriving DecidableEq

/-- The URL of the request, with the values as they are. -/
def TokenRequest.url (r : TokenRequest) : Text :=
  apiDomain ++ "/cgi-bin/token?grant_type=".toList ++ r.grantType ++ "&appid=".toList ++ r.appId ++
    "&secret=".toList ++ r.secret

/-- A token that the server has issued, and the request it answers. -/
structure Issue where
  token : Text
  request : TokenRequest
  deriving DecidableEq

namespace TokioAccessToken

/-- The request of `get_access_token`, which `get` calls with the application type. -/
def request (c : TokioAccessToken) : TokenRequest where
  grantType := if c.appType = [] then "client_credential".toList else c.appType
  appId := c.appId
  secret := c.secret

/-- The key of the cache entry in `set` and `get`. -/
def rkey (c : TokioAccessToken) : Text := wechatConfigKeyTokio ++ '-' :: c.appId

theorem rkey_inj {c d : TokioAccessToken} : c.rkey = d.rkey ↔ c.appId = d.appId := by
  constructor
  · intro h
    exact (List.cons_eq_cons.mp (List.append_cancel_left h)).2
  · intro h
    rw [rkey, rkey, h]

end TokioAccessToken

/-- `now < create_time + expires as u64 - 1000`. -/
def TokioToken.fresh (p : Profile) (now : ℕ) (mcx : TokioToken) : Option Bool :=
  (p.addU64 mcx.createTime (asU64 mcx.expires)).bind fun sum =>
    (p.subU64 sum 1000).map fun limit => decide (now < limit)

/-- Where the call of a client is. -/
inductive CallPhase where
  | idle
  /-- It has found no valid entry. -/
  | missed
  /-- It has the answer of the server, and is about to set the entry. -/
  | fetched (access : TokioToken)
  | panicked
  deriving DecidableEq

/-- Whether a call is in progress. -/
def CallPhase.busy : CallPhase → Bool
  | missed => true
  | fetched _ => true
  | _ => false

/-- The answer that the call is about to set. -/
def CallPhase.answer : CallPhase → Option TokioToken
  | fetched access => some access
  | _ => none

/-- The cache, the clock, the calls, what the server has issued and what calls have returned. -/
structure TokenSystem where
  cache : Text → Option TokioToken
  now : ℕ
  calls : ℕ → CallPhase
  issued : List Issue
  returned : List (ℕ × TokioToken)

inductive TokenLabel where
  /-- The clock shows another time. -/
  | tick (t : ℕ)
  /-- Client `i` calls `get`, which reads the cache. -/
  | read (i : ℕ)
  /-- The server issues a token, and the answer arrives. -/
  | fetch (i : ℕ) (token : Text)
  /-- The server issues a token, and the answer gets lost. -/
  | lose (i : ℕ) (token : Text)
  /-- The server issues no token. -/
  | refuse (i : ℕ)
  | set (i : ℕ)
  | clear
  deriving DecidableEq

namespace TokenSystem

/-- The empty cache at time `t`. -/
def new (t : ℕ) : TokenSystem := ⟨fun _ => none, t, fun _ => .idle, [], []⟩

def setCall (s : TokenSystem) (i : ℕ) (ph : CallPhase) : TokenSystem :=
  { s with calls := Function.update s.calls i ph }

def issue (s : TokenSystem) (token : Text) (request : TokenRequest) : TokenSystem :=
  { s with issued := ⟨token, request⟩ :: s.issued }

/-- `get` returns a token to client `i`. -/
def give (s : TokenSystem) (i : ℕ) (tok : TokioToken) : TokenSystem :=
  { s with returned := (i, tok) :: s.returned }.setCall i .idle

/-- The first section of `get`. -/
def read (p : Profile) (s : TokenSystem) (i : ℕ) (rkey : Text) : TokenSystem :=
  match s.cache rkey with
  | none => s.setCall i .missed
  | some mcx =>
    match mcx.fresh p s.now with
    | none => s.setCall i .panicked
    | some true => s.give i mcx
    | some false => s.setCall i .missed

/-- One step of the clients `conf`. -/
def step (p : Profile) (conf : ℕ → TokioAccessToken) (s : TokenSystem) :
    TokenLabel → Option TokenSystem
  | .tick t => some { s with now := t }
  | .read i => if s.calls i = .idle then some (s.read p i (conf i).rkey) else none
  | .fetch i token =>
    if s.calls i = .missed then
      some ((s.issue token (conf i).request).setCall i
        (.fetched ⟨token, s.now, 7200, s.issued.length⟩))
    else none
  | .lose i token =>
    if s.calls i = .missed then some ((s.issue token (conf i).request).setCall i .idle) else none
  | .refuse i => if s.calls i = .missed then some (s.setCall i .idle) else none
  | .set i =>
    match s.calls i with
    | .fetched access =>
      some ({ s with cache := Function.update s.cache (conf i).rkey (some access) }.give i access)
    | _ => none
  | .clear => some { s with cache := fun _ => none }

theorem setCall_calls (s : TokenSystem) (i j : ℕ) (ph : CallPhase) :
    (s.setCall i ph).calls j = if j = i then ph else s.calls j := Function.update_apply ..

theorem give_calls (s : TokenSystem) (i j : ℕ) (tok : TokioToken) :
    (s.give i tok).calls j = if j = i then .idle else s.calls j := Function.update_apply ..

/-! ## The moves of a call -/

/-- What a step can do. -/
inductive Move (conf : ℕ → TokioAccessToken) (s : TokenSystem) : TokenLabel → TokenSystem → Prop
  | tick {t : ℕ} : Move conf s (.tick t) { s with now := t }
  | hit {i : ℕ} {mcx : TokioToken} : s.calls i = .idle → s.cache (conf i).rkey = some mcx →
      Move conf s (.read i) (s.give i mcx)
  /-- The entry is missing or expired, or the test has panicked. -/
  | miss {i : ℕ} {ph : CallPhase} : s.calls i = .idle → ph = .missed ∨ ph = .panicked →
      Move conf s (.read i) (s.setCall i ph)
  | fetch {i : ℕ} {token : Text} : s.calls i = .missed →
      Move conf s (.fetch i token) ((s.issue token (conf i).request).setCall i
        (.fetched ⟨token, s.now, 7200, s.issued.length⟩))
  | lose {i : ℕ} {token : Text} : s.calls i = .missed →
      Move conf s (.lose i token) ((s.issue token (conf i).request).setCall i .idle)
  | refuse {i : ℕ} : s.calls i = .missed → Move conf s (.refuse i) (s.setCall i .idle)
  | set {i : ℕ} {access : TokioToken} : s.calls i = .fetched access →
      Move conf s (.set i)
        ({ s with cache := Function.update s.cache (conf i).rkey (some access) }.give i access)
  | clear : Move conf s .clear { s with cache := fun _ => none }

/-- **Inversion of a step.** -/
theorem step_cases {p : Profile} {conf : ℕ → TokioAccessToken} {s s' : TokenSystem}
    {l : TokenLabel} (h : s.step p conf l = some s') : Move conf s l s' := by
  cases l with
  | tick t =>
    cases h
    exact .tick
  | clear =>
    cases h
    exact .clear
  | read i =>
    rw [step] at h
    split_ifs at h with hidle
    cases h
    unfold read
    split
    next => exact .miss hidle (Or.inl rfl)
    next mcx hmcx =>
      split
      · exact .miss hidle (Or.inr rfl)
      · exact .hit hidle hmcx
      · exact .miss hidle (Or.inl rfl)
  | fetch i token =>
    rw [step] at h
    split_ifs at h with hmissed
    cases h
    exact .fetch hmissed
  | lose i token =>
    rw [step] at h
    split_ifs at h with hmissed
    cases h
    exact .lose hmissed
  | refuse i =>
    rw [step] at h
    split_ifs at h with hmissed
    cases h
    exact .refuse hmissed
  | set i =>
    rw [step] at h
    split at h
    next access hfetched =>
      cases h
      exact .set hfetched
    next => cases h

end TokenSystem

end ChimesUtils
