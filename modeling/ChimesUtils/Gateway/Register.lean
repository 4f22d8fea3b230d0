import ChimesUtils.Config.Yaml
import ChimesUtils.Gateway.Info
import ChimesUtils.Queue.Model
import ChimesUtils.Redis.Client

/-!
# Registration at the gateway

`ggp_register_proxy` posts the registration and reads the status of the answer. The handler
`execute_register` calls it, and the worker of the task queue runs the handler in `process_task`. A
panic is `none`, and goes through all three.

* `registerStatus_eq_ok_iff`: which parsed answers are taken for a confirmation;
* `processTask_register_eq_none_iff`: which answers bring the worker down;
* `registersWell_iff`: for which answers the registration ends as it should.
-/

namespace ChimesUtils

/-- `ChimesClient::post`, for the server that is there. -/
abbrev Post := Text → GatewayRegisterInfo → Except ChimesError Text

/-- `build_register_info`. -/
def buildRegisterInfo (conf : AppConfig) : GatewayRegisterInfo where
  appId := conf.appId
  appSecret := conf.appSecret
  server := none
  port := some conf.webserverConf.port
  rewriteUrl := some false
  protocol := some "http".toList
  heathCheck := some "/api/v1/healthcheck".toList
  echoText := some "Iamliving".toList
  proxyPrefix := none

/-- The address of the request. -/
def registerUrl (gateway : Text) : Text := gateway ++ "/gateway/api/v1/gateway/register".toList

/-- An error that repeats the answer. -/
def badResponse (res : Text) : ChimesError := ⟨10040, "Bad response. ".toList ++ res⟩

/-- The `match` on the member `status`. -/
def registerMember (res : Text) : Option Json → Except ChimesError Unit
  | some (.number tc) =>
    if tc.asI64 = some 200 ∨ tc.asI64 = some 0 then .ok () else .error (badResponse res)
  | some (.string tcc) =>
    if tcc = "200".toList ∨ tcc = "0".toList then .ok () else .error (badResponse res)
  | some _ => .error (badResponse res)
  | none => .error (badResponse res)

/-- The `match` on the parsed answer. -/
def registerStatus (res : Text) : Json → Except ChimesError Unit
  | .object mp => registerMember res (mp.lookup "status".toList)
  | _ => .error ⟨10043, "Gateway Server response bad format.".toList⟩

section Calls

variable (S : SerdeJson) (conf : AppConfig) (post : Post)

/-- `ggp_register_proxy`. -/
def ggpRegisterProxy (gr : GatewayRegisterInfo) : Option (Except ChimesError Unit) :=
  match conf.gatewayAddress with
  | none => some (.error ⟨10040, "Gateway Server address was not defined.".toList⟩)
  | some url => match post (registerUrl url) gr with
    | .error err => some (.error err)
    | .ok res => match S.fromStr res with
      | .error _ => none
      | .ok ret => some (registerStatus res ret)

/-- `execute_register`, which only logs what it gets. -/
def executeRegister (_task : ProcessTask) : Option Unit :=
  (ggpRegisterProxy S conf post (buildRegisterInfo conf)).map fun
    | .ok () => ()
    | .error _ => ()

/-- `process_task`, with the handlers of `HANDLER_FUNC_REGISTRY`. -/
def processTask (registry : Text → Option (ProcessTask → Option Unit)) (task : ProcessTask) :
    Option Unit :=
  match registry task.handlerType with
  | some func => func task
  | none => some ()

end Calls

/-! ## One answer -/

section Answer

variable {S : SerdeJson} {conf : AppConfig} {post : Post} {gr : GatewayRegisterInfo} {url body : Text}

theorem ggpRegisterProxy_of_ok (hurl : conf.gatewayAddress = some url)
    (hpost : post (registerUrl url) gr = .ok body) {ret : Json} (hparse : S.fromStr body = .ok ret) :
    ggpRegisterProxy S conf post gr = some (registerStatus body ret) := by
  unfold ggpRegisterProxy
  simp only [hurl, hpost, hparse]

theorem ggpRegisterProxy_of_error (hurl : conf.gatewayAddress = some url)
    (hpost : post (registerUrl url) gr = .ok body) {e : Text} (hparse : S.fromStr body = .error e) :
    ggpRegisterProxy S conf post gr = none := by
  unfold ggpRegisterProxy
  simp only [hurl, hpost, hparse]

theorem executeRegister_eq_none_iff (task : ProcessTask) : executeRegister S conf post task = none ↔
    ggpRegisterProxy S conf post (buildRegisterInfo conf) = none := Option.map_eq_none_iff

/-- **The worker.** It is brought down by the handler just when the answer is no JSON. -/
theorem processTask_register_eq_none_iff {registry : Text → Option (ProcessTask → Option Unit)}
    {task : ProcessTask} (hhandler : registry task.handlerType = some (executeRegister S conf post))
    (hurl : conf.gatewayAddress = some url)
    (hpost : post (registerUrl url) (buildRegisterInfo conf) = .ok body) :
    processTask registry task = none ↔ ∃ e, S.fromStr body = .error e := by
  unfold processTask
  rw [hhandler]
  show executeRegister S conf post task = none ↔ _
  rw [executeRegister_eq_none_iff]
  cases hparse : S.fromStr body with
  | error e => simp [ggpRegisterProxy_of_error hurl hpost hparse]
  | ok ret => simp [ggpRegisterProxy_of_ok hurl hpost hparse]

end Answer

/-! ## What the registration should be -/

/-- A status that confirms the registration: the number 200 or 0, or one of them as a string. -/
def Confirms : Option Json → Prop
  | some (.number num) => num.value = 200 ∨ num.value = 0
  | some (.string s) => s = "200".toList ∨ s = "0".toList
  | _ => False

/-- An answer that confirms the registration. -/
def Accepted (S : SerdeJson) (body : Text) : Prop :=
  ∃ mp, S.fromStr body = .ok (.object mp) ∧ Confirms (mp.lookup "status".toList)

/-- For every configuration with a gateway and every server that gives the answer: the call succeeds
just when the answer confirms it, it fails with an error otherwise, and the worker that runs the handler
goes on. -/
structure RegistersWell (S : SerdeJson) (body : Text) : Prop where
  ok_iff : ∀ (conf : AppConfig) (url : Text) (post : Post) (gr : GatewayRegisterInfo),
    conf.gatewayAddress = some url → post (registerUrl url) gr = .ok body →
      (ggpRegisterProxy S conf post gr = some (.ok ()) ↔ Accepted S body)
  err : ∀ (conf : AppConfig) (url : Text) (post : Post) (gr : GatewayRegisterInfo),
    conf.gatewayAddress = some url → post (registerUrl url) gr = .ok body → ¬ Accepted S body →
      ∃ e, ggpRegisterProxy S conf post gr = some (.error e)
  worker : ∀ (conf : AppConfig) (url : Text) (post : Post) (task : ProcessTask)
    (registry : Text → Option (ProcessTask → Option Unit)), conf.gatewayAddress = some url →
      post (registerUrl url) (buildRegisterInfo conf) = .ok body →
        registry task.handlerType = some (executeRegister S conf post) →
          processTask registry task = some ()

/-- The status is written as a float, such as `200.0`, with a value that confirms. -/
def FloatStatus : Json → Prop
  | .object mp => ∃ x, mp.lookup "status".toList = some (.number (.float x)) ∧ (x = 200 ∨ x = 0)
  | _ => False

/-- **Numbers.** An integer is recognised by its value. -/
theorem int_confirms_iff (n : ℤ) (range : -9223372036854775808 ≤ n ∧ n < 18446744073709551616) :
    (JsonNumber.int n range).asI64 = some 200 ∨ (JsonNumber.int n range).asI64 = some 0 ↔
      Confirms (some (.number (.int n range))) := by
  show (if IsI64 n then some n else none) = some 200 ∨ (if IsI64 n then some n else none) = some 0 ↔
    (n : ℚ) = 200 ∨ (n : ℚ) = 0
  have h200 : (n : ℚ) = 200 ↔ n = 200 := by exact_mod_cast Iff.rfl
  have h0 : (n : ℚ) = 0 ↔ n = 0 := by exact_mod_cast Iff.rfl
  rw [h200, h0]
  by_cases hi64 : IsI64 n
  · rw [if_pos hi64, Option.some_inj, Option.some_inj]
  · rw [if_neg hi64]
    unfold IsI64 at hi64
    simp only [reduceCtorEq, or_self, false_iff]
    omega

theorem except_ite_eq_ok_iff {c : Prop} [Decidable c] {e : ChimesError} :
    (if c then Except.ok () else Except.error e) = Except.ok () ↔ c := by
  by_cases h : c
  · simp [h]
  · simp [h]

/-- **Status.** The `match` accepts what confirms, unless it is a float. -/
theorem registerMember_eq_ok_iff {res : Text} {status : Option Json} :
    registerMember res status = .ok () ↔
      Confirms status ∧ ∀ x, status ≠ some (.number (.float x)) := by
  cases status with
  | none => simp [registerMember, Confirms]
  | some v =>
    cases v with
    | number num =>
      show (if num.asI64 = some 200 ∨ num.asI64 = some 0 then Except.ok ()
        else Except.error (badResponse res)) = .ok () ↔ _
      rw [except_ite_eq_ok_iff]
      cases num with
      | int n range =>
        rw [int_confirms_iff]
        simp
      | float x => simp [JsonNumber.asI64]
    | string s =>
      show (if s = "200".toList ∨ s = "0".toList then Except.ok ()
        else Except.error (badResponse res)) = .ok () ↔ _
      rw [except_ite_eq_ok_iff]
      simp [Confirms]
    | _ => simp [registerMember, Confirms]

theorem registerStatus_eq_ok_iff {res : Text} {ret : Json} : registerStatus res ret = .ok () ↔
    (∃ mp, ret = .object mp ∧ Confirms (mp.lookup "status".toList)) ∧ ¬ FloatStatus ret := by
  cases ret with
  | object mp =>
    rw [registerStatus, registerMember_eq_ok_iff]
    constructor
    · rintro ⟨hconfirms, hfloat⟩
      exact ⟨⟨mp, rfl, hconfirms⟩, fun ⟨x, hx, _⟩ => hfloat x hx⟩
    · rintro ⟨⟨mp', heq, hconfirms⟩, hfloat⟩
      cases heq
      refine ⟨hconfirms, fun x hx => hfloat ⟨x, hx, ?_⟩⟩
      rw [hx] at hconfirms
      exact hconfirms
  | _ => simp [registerStatus]

theorem registerStatus_eq_ok_iff_accepted {S : SerdeJson} {body : Text} {ret : Json}
    (hparse : S.fromStr body = .ok ret) (hfloat : ¬ FloatStatus ret) :
    registerStatus body ret = .ok () ↔ Accepted S body := by
  rw [registerStatus_eq_ok_iff]
  constructor
  · rintro ⟨⟨mp, rfl, hconfirms⟩, -⟩
    exact ⟨mp, hparse, hconfirms⟩
  · rintro ⟨mp, hobject, hconfirms⟩
    rw [hparse] at hobject
    cases hobject
    exact ⟨⟨mp, rfl, hconfirms⟩, hfloat⟩

/-- A configuration with a gateway. -/
def withGateway : AppConfig := { AppConfig.initial with gatewayAddress := some "http://gateway".toList }

/-- A server with one answer. -/
def answering (body : Text) : Post := fun _ _ => .ok body

/-- The task of `ggp_delay_register`. -/
def registerTask (id : Text) (now : ℕ) : ProcessTask :=
  ProcessTask.newWithCookieFn "register".toList false 10 "execute_register".toList id now

/-- The registry after `ggp_delay_register`. -/
def registerHandlers (S : SerdeJson) (conf : AppConfig) (post : Post) (handlerType : Text) :
    Option (ProcessTask → Option Unit) :=
  if handlerType = "execute_register".toList then some (executeRegister S conf post) else none

theorem not_registersWell_of_error {S : SerdeJson} {body e : Text} (he : S.fromStr body = .error e) :
    ¬ RegistersWell S body := by
  intro h
  have hworker := h.worker withGateway _ (answering body) (registerTask [] 0)
    (registerHandlers S withGateway (answering body)) rfl rfl rfl
  have hnone : processTask (registerHandlers S withGateway (answering body)) (registerTask [] 0) =
      none := (processTask_register_eq_none_iff rfl rfl rfl).mpr ⟨e, he⟩
  rw [hnone] at hworker
  cases hworker

/-- **Answers.** The registration ends as it should for just the answers that are JSON and do not have
such a float for a status. -/
theorem registersWell_iff (S : SerdeJson) (body : Text) : RegistersWell S body ↔
    ∃ ret, S.fromStr body = .ok ret ∧ ¬ FloatStatus ret := by
  constructor
  · intro h
    have hok := h.ok_iff withGateway _ (answering body) (buildRegisterInfo withGateway) rfl rfl
    cases hparse : S.fromStr body with
    | error e => exact absurd h (not_registersWell_of_error hparse)
    | ok ret =>
      refine ⟨ret, rfl, fun hfloat => ?_⟩
      rw [ggpRegisterProxy_of_ok rfl rfl hparse, Option.some_inj, registerStatus_eq_ok_iff] at hok
      cases ret with
      | object mp =>
        obtain ⟨x, hx, hvalue⟩ := hfloat
        refine (hok.mpr ⟨mp, hparse, ?_⟩).2 ⟨x, hx, hvalue⟩
        rw [hx]
        exact hvalue
      | _ => exact hfloat
  · rintro ⟨ret, hparse, hfloat⟩
    constructor
    · intro conf url post gr hurl hpost
      rw [ggpRegisterProxy_of_ok hurl hpost hparse, Option.some_inj]
      exact registerStatus_eq_ok_iff_accepted hparse hfloat
    · intro conf url post gr hurl hpost hrejected
      rw [ggpRegisterProxy_of_ok hurl hpost hparse]
      cases hstatus : registerStatus body ret with
      | ok u => exact absurd ((registerStatus_eq_ok_iff_accepted hparse hfloat).mp hstatus) hrejected
      | error e => exact ⟨e, rfl⟩
    · intro conf url post task registry hurl hpost hhandler
      cases hend : processTask registry task with
      | some u => rfl
      | none =>
        obtain ⟨e, he⟩ := (processTask_register_eq_none_iff hhandler hurl hpost).mp hend
        rw [hparse] at he
        cases he

/-- A page of HTML is such an answer. -/
theorem not_registersWell_html :
    ¬ RegistersWell (.reading "null".toList .null) "<html>".toList := by
  have hparse : (SerdeJson.reading "null".toList .null).fromStr "<html>".toList =
      .error "expected value".toList := SerdeJson.reading_fromStr_of_ne .null (by decide)
  exact not_registersWell_of_error hparse

end ChimesUtils
