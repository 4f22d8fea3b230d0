import ChimesUtils.Http.Charset
import ChimesUtils.Lib.Pairs
import ChimesUtils.Redis.Client
import ChimesUtils.Search.CommonSearch

/-!
# The HTTP client

`ChimesClient` collects a charset and headers, and its request functions send one request and read the
answer. They differ in the method, in the body and in what they make of the answer. The header map is
iterated in an order of its own.

* `ChimesClient.exchange`: what the request functions have in common;
* `ChimesClient.build_eq`: the headers that are sent, in any order of the map;
* `ChimesClient.exchange_answers`: the results of all request functions, after any settings.
-/

namespace ChimesUtils

open Lib

/-- `http::Method`. -/
inductive Method where
  | get | post | put | delete
  | other (name : Text)
  deriving DecidableEq

/-- What `send`, `send_json` and `send_body` take. -/
inductive RequestBody (Params : Type) where
  | empty
  | json (params : Params)
  | bytes (body : Bytes)
  deriving DecidableEq

/-- `awc::ClientRequest`. -/
structure ClientRequest (HeaderName HeaderValue : Type) where
  method : Method
  url : Text
  headers : HeaderName → List HeaderValue

/-- `awc::ClientResponse`. -/
structure HttpResponse (HeaderMap : Type) where
  status : ℕ
  headers : HeaderMap
  body : Except Text Bytes

/-- `StatusCode::is_success`. -/
def HttpResponse.isSuccess {HeaderMap : Type} (res : HttpResponse HeaderMap) : Bool :=
  200 ≤ res.status && res.status < 300

/-- `awc::Client`, with the servers that it reaches: the headers that every request starts with, and what
comes of a request. -/
structure HttpClient (HeaderName HeaderValue HeaderMap Params : Type) where
  defaultHeaders : HeaderName → List HeaderValue
  send : ClientRequest HeaderName HeaderValue → RequestBody Params → Except Text (HttpResponse HeaderMap)

/-- What the client uses of the crate `http`; `order` is the order in which a header map is iterated. -/
structure HttpCrate (HeaderName HeaderValue : Type) where
  fromLowercase : Bytes → Option HeaderName
  fromStr : Text → Option HeaderValue
  methodFromBytes : Bytes → Option Method
  displayStatus : ℕ → Text
  order : (AList fun _ : HeaderName => HeaderValue) → List (HeaderName × HeaderValue)

/-- A header map is iterated over just its entries. -/
def HttpCrate.Iterates {HeaderName HeaderValue : Type} (K : HttpCrate HeaderName HeaderValue) : Prop :=
  ∀ m, ((K.order m).map fun e => (⟨e.1, e.2⟩ : Σ _ : HeaderName, HeaderValue)).Perm m.entries

structure ChimesClient (HeaderName HeaderValue HeaderMap Params : Type) where
  client : HttpClient HeaderName HeaderValue HeaderMap Params
  charset : Text
  headers : AList fun _ : HeaderName => HeaderValue

variable {HeaderName HeaderValue HeaderMap Mime Params α : Type} [DecidableEq HeaderName]

/-- Replace the values of a header. -/
def ClientRequest.insertHeader (build : ClientRequest HeaderName HeaderValue)
    (header : HeaderName × HeaderValue) : ClientRequest HeaderName HeaderValue :=
  { build with headers := Function.update build.headers header.1 [header.2] }

namespace ChimesClient

/-- The constructors, which differ in the client that they make. -/
def new (client : HttpClient HeaderName HeaderValue HeaderMap Params) :
    ChimesClient HeaderName HeaderValue HeaderMap Params where
  client := client
  charset := "utf-8".toList
  headers := ∅

section Functions

variable (K : HttpCrate HeaderName HeaderValue) (C : CharsetCrates HeaderMap HeaderValue Mime)
  (self : ChimesClient HeaderName HeaderValue HeaderMap Params)

def setCharset (charset : Text) : ChimesClient HeaderName HeaderValue HeaderMap Params :=
  { self with charset := charset }

def putHeader (key value : Text) : ChimesClient HeaderName HeaderValue HeaderMap Params :=
  match K.fromLowercase (utf8 (toLowercase key)), K.fromStr value with
  | some hn, some hv => { self with headers := self.headers.insert hn hv }
  | _, _ => self

def insertHeader (key value : Text) : ChimesClient HeaderName HeaderValue HeaderMap Params :=
  self.putHeader K key value

/-- The request before it is sent. -/
def build (method : Method) (url : Text) : ClientRequest HeaderName HeaderValue :=
  (K.order self.headers).foldl ClientRequest.insertHeader ⟨method, url, self.client.defaultHeaders⟩

/-- What comes of an answer, from what a function makes of the body and of an answer that is no success;
`none` stands for a string that is none. -/
def outcome (accept : HttpResponse HeaderMap → Bytes → Option α)
    (refuse : HttpResponse HeaderMap → Option ChimesError) :
    Except Text (HttpResponse HeaderMap) → Option (Except ChimesError α)
  | .ok res =>
    if res.isSuccess then
      match res.body with
      | .ok bs => (accept res bs).map .ok
      | .error err => some (.error ⟨-1, "error: ".toList ++ err⟩)
    else (refuse res).map .error
  | .error e => some (.error ⟨500, "Send request error: ".toList ++ e⟩)

/-- What the request functions have in common. -/
def exchange (accept : HttpResponse HeaderMap → Bytes → Option α)
    (refuse : HttpResponse HeaderMap → Option ChimesError) (method : Method) (url : Text)
    (body : RequestBody Params) : Option (Except ChimesError α) :=
  outcome accept refuse (self.client.send (self.build K method url) body)

def acceptText (res : HttpResponse HeaderMap) (bs : Bytes) : Option Text :=
  textWithCharset C res.headers self.charset bs

def acceptTextWithHeaders (res : HttpResponse HeaderMap) (bs : Bytes) : Option (Text × HeaderMap) :=
  (self.acceptText C res bs).map fun s => (s, res.headers)

def refuseStatus (res : HttpResponse HeaderMap) : Option ChimesError :=
  some ⟨500, "status=".toList ++ K.displayStatus res.status⟩

/-- An error with the text of the answer. -/
def refuseMessage (res : HttpResponse HeaderMap) : Option ChimesError :=
  let resp := match res.body with
    | .ok bs => self.acceptText C res bs
    | .error err => some err
  resp.map fun message =>
    ⟨500, "status=".toList ++ K.displayStatus res.status ++ ", message=".toList ++ message⟩

def get (url : Text) : Option (Except ChimesError Text) :=
  self.exchange K (self.acceptText C) (refuseStatus K) .get url .empty

def getBytes (url : Text) : Option (Except ChimesError Bytes) :=
  self.exchange K (fun _ bs => some bs) (refuseStatus K) .get url .empty

def request (method : Method) (url : Text) (params : Params) : Option (Except ChimesError Text) :=
  self.exchange K (self.acceptText C) (refuseStatus K) method url (.json params)

def post : Text → Params → Option (Except ChimesError Text) := self.request K C .post

def put : Text → Params → Option (Except ChimesError Text) := self.request K C .put

def delete : Text → Params → Option (Except ChimesError Text) := self.request K C .delete

/-- A method that is none stands for `POST`. -/
def requestBetyes (methodStr url : Text) (params : Params) : Option (Except ChimesError Bytes) :=
  self.exchange K (fun _ bs => some bs) (refuseStatus K)
    ((K.methodFromBytes (utf8 methodStr)).getD .post) url (.json params)

def requestFormWithResponse (method : Method) (url params : Text) :
    Option (Except ChimesError (Text × HeaderMap)) :=
  self.exchange K (self.acceptTextWithHeaders C) (self.refuseMessage K C) method url
    (.bytes (utf8 params))

def requestWithResponse (method : Method) (url : Text) (params : Params) :
    Option (Except ChimesError (Text × HeaderMap)) :=
  self.exchange K (self.acceptTextWithHeaders C) (self.refuseMessage K C) method url (.json params)

def postBetyes (url : Text) (body : Bytes) : Option (Except ChimesError Text) :=
  self.exchange K (self.acceptText C) (refuseStatus K) .post url (.bytes body)

end Functions

end ChimesClient

/-! ## Settings and requests -/

/-- A call that sets up a client. -/
inductive ClientSetting where
  | setCharset (charset : Text)
  | insertHeader (key value : Text)
  | putHeader (key value : Text)

/-- A call that sends a request. -/
inductive RequestCall (Params : Type) where
  | get (url : Text)
  | getBytes (url : Text)
  | post (url : Text) (params : Params)
  | put (url : Text) (params : Params)
  | delete (url : Text) (params : Params)
  | requestBetyes (methodStr url : Text) (params : Params)
  | request (method : Method) (url : Text) (params : Params)
  | requestFormWithResponse (method : Method) (url params : Text)
  | requestWithResponse (method : Method) (url : Text) (params : Params)
  | postBetyes (url : Text) (body : Bytes)

/-- What the request functions return. -/
inductive RequestReply (HeaderMap : Type) where
  | text (s : Text)
  | bytes (bs : Bytes)
  | textWithHeaders (s : Text × HeaderMap)

section Calls

variable (K : HttpCrate HeaderName HeaderValue) (C : CharsetCrates HeaderMap HeaderValue Mime)

def ClientSetting.run (self : ChimesClient HeaderName HeaderValue HeaderMap Params) :
    ClientSetting → ChimesClient HeaderName HeaderValue HeaderMap Params
  | setCharset charset => self.setCharset charset
  | insertHeader key value => self.insertHeader K key value
  | putHeader key value => self.putHeader K key value

/-- A new client after some settings. -/
def configured (client : HttpClient HeaderName HeaderValue HeaderMap Params)
    (settings : List ClientSetting) : ChimesClient HeaderName HeaderValue HeaderMap Params :=
  settings.foldl (ClientSetting.run K) (ChimesClient.new client)

def RequestCall.run (self : ChimesClient HeaderName HeaderValue HeaderMap Params) :
    RequestCall Params → Option (Except ChimesError (RequestReply HeaderMap))
  | get url => (self.get K C url).map (Except.map .text)
  | getBytes url => (self.getBytes K url).map (Except.map .bytes)
  | post url params => (self.post K C url params).map (Except.map .text)
  | put url params => (self.put K C url params).map (Except.map .text)
  | delete url params => (self.delete K C url params).map (Except.map .text)
  | requestBetyes methodStr url params =>
    (self.requestBetyes K methodStr url params).map (Except.map .bytes)
  | request method url params => (self.request K C method url params).map (Except.map .text)
  | requestFormWithResponse method url params =>
    (self.requestFormWithResponse K C method url params).map (Except.map .textWithHeaders)
  | requestWithResponse method url params =>
    (self.requestWithResponse K C method url params).map (Except.map .textWithHeaders)
  | postBetyes url body => (self.postBetyes K C url body).map (Except.map .text)

/-! ## What is sent, and what is read -/

/-- The header of a setting, where its name and its value are valid. -/
def ClientSetting.header : ClientSetting → Option (HeaderName × HeaderValue)
  | setCharset _ => none
  | insertHeader key value | putHeader key value =>
    (K.fromLowercase (utf8 (toLowercase key))).bind fun hn => (K.fromStr value).map fun hv => (hn, hv)

/-- The charset of a setting. -/
def ClientSetting.charset : ClientSetting → Option Text
  | setCharset charset => some charset
  | _ => none

/-- The last charset. -/
def lastCharset (settings : List ClientSetting) : Text :=
  (settings.filterMap ClientSetting.charset).getLast?.getD "utf-8".toList

/-- The headers that are sent: the last valid value of every name, and the default headers that have no
such value. -/
def sentHeaders (client : HttpClient HeaderName HeaderValue HeaderMap Params)
    (settings : List ClientSetting) (name : HeaderName) : List HeaderValue :=
  ((lastOf (settings.filterMap (ClientSetting.header K)) name).map fun value => [value]).getD
    (client.defaultHeaders name)

namespace RequestCall

def method : RequestCall Params → Method
  | get _ | getBytes _ => .get
  | post _ _ | postBetyes _ _ => .post
  | put _ _ => .put
  | delete _ _ => .delete
  | requestBetyes methodStr _ _ => (K.methodFromBytes (utf8 methodStr)).getD .post
  | request method _ _ | requestFormWithResponse method _ _ | requestWithResponse method _ _ => method

def url : RequestCall Params → Text
  | get url | getBytes url | post url _ | put url _ | delete url _ | requestBetyes _ url _
  | request _ url _ | requestFormWithResponse _ url _ | requestWithResponse _ url _
  | postBetyes url _ => url

def body : RequestCall Params → RequestBody Params
  | get _ | getBytes _ => .empty
  | post _ params | put _ params | delete _ params | requestBetyes _ _ params | request _ _ params
  | requestWithResponse _ _ params => .json params
  | requestFormWithResponse _ _ params => .bytes (utf8 params)
  | postBetyes _ body => .bytes body

/-- The reply for the body of an answer. -/
def reading (charset : Text) (res : HttpResponse HeaderMap) (bs : Bytes) :
    RequestCall Params → Option (RequestReply HeaderMap)
  | getBytes _ | requestBetyes _ _ _ => some (.bytes bs)
  | requestFormWithResponse _ _ _ | requestWithResponse _ _ _ =>
    (textWithCharset C res.headers charset bs).map fun s => .textWithHeaders (s, res.headers)
  | _ => (textWithCharset C res.headers charset bs).map .text

/-- The error for an answer that is no success. -/
def refuse (self : ChimesClient HeaderName HeaderValue HeaderMap Params) :
    RequestCall Params → HttpResponse HeaderMap → Option ChimesError
  | requestFormWithResponse _ _ _ | requestWithResponse _ _ _ => self.refuseMessage K C
  | _ => ChimesClient.refuseStatus K

end RequestCall

end Calls

section Requests

variable {K : HttpCrate HeaderName HeaderValue} {C : CharsetCrates HeaderMap HeaderValue Mime}
  {client : HttpClient HeaderName HeaderValue HeaderMap Params}
  {self : ChimesClient HeaderName HeaderValue HeaderMap Params}

/-! ## The client after its settings -/

theorem run_headers (setting : ClientSetting) :
    (setting.run K self).headers = insertAll (setting.header K).toList self.headers := by
  have hput : ∀ key value, (self.putHeader K key value).headers =
      insertAll ((ClientSetting.putHeader key value).header K).toList self.headers := by
    intro key value
    simp only [ChimesClient.putHeader, ClientSetting.header]
    cases K.fromLowercase (utf8 (toLowercase key)) with
    | none => rfl
    | some hn => cases K.fromStr value <;> rfl
  cases setting with
  | setCharset charset => rfl
  | insertHeader key value => exact hput key value
  | putHeader key value => exact hput key value

theorem run_charset (setting : ClientSetting) :
    (setting.run K self).charset = setting.charset.getD self.charset := by
  have hput : ∀ key value, (self.putHeader K key value).charset = self.charset := by
    intro key value
    unfold ChimesClient.putHeader
    split <;> rfl
  cases setting with
  | setCharset charset => rfl
  | insertHeader key value => exact hput key value
  | putHeader key value => exact hput key value

theorem run_client (setting : ClientSetting) : (setting.run K self).client = self.client := by
  have hput : ∀ key value, (self.putHeader K key value).client = self.client := by
    intro key value
    unfold ChimesClient.putHeader
    split <;> rfl
  cases setting with
  | setCharset charset => rfl
  | insertHeader key value => exact hput key value
  | putHeader key value => exact hput key value

theorem configured_concat (settings : List ClientSetting) (setting : ClientSetting) :
    configured K client (settings ++ [setting]) = setting.run K (configured K client settings) :=
  List.foldl_concat _ _ _ _

theorem configured_client (settings : List ClientSetting) :
    (configured K client settings).client = client := by
  induction settings using List.reverseRecOn with
  | nil => rfl
  | append_singleton settings setting ih => rw [configured_concat, run_client, ih]

theorem configured_charset (settings : List ClientSetting) :
    (configured K client settings).charset = lastCharset settings := by
  induction settings using List.reverseRecOn with
  | nil => rfl
  | append_singleton settings setting ih =>
    rw [configured_concat, run_charset, ih, lastCharset, lastCharset, List.filterMap_append]
    cases h : setting.charset with
    | none => simp [h]
    | some charset => simp [h]

theorem configured_headers (settings : List ClientSetting) :
    (configured K client settings).headers =
      insertAll (settings.filterMap (ClientSetting.header K)) ∅ := by
  induction settings using List.reverseRecOn with
  | nil => rfl
  | append_singleton settings setting ih =>
    rw [configured_concat, run_headers, ih, List.filterMap_append, insertAll, insertAll, insertAll,
      List.foldl_append]
    cases h : setting.header K with
    | none => simp [h]
    | some header => simp [h]

/-! ## The request -/

theorem foldl_insertHeader (es : List (HeaderName × HeaderValue))
    (build : ClientRequest HeaderName HeaderValue) :
    es.foldl ClientRequest.insertHeader build =
      { build with headers := es.foldl (fun h e => Function.update h e.1 [e.2]) build.headers } := by
  induction es generalizing build with
  | nil => rfl
  | cons e es ih => rw [List.foldl_cons, ih, List.foldl_cons, ClientRequest.insertHeader]

/-- **The headers of a request** do not depend on the order in which the map is iterated. -/
theorem ChimesClient.build_eq (hK : K.Iterates) (method : Method) (url : Text) :
    self.build K method url = ⟨method, url, fun name =>
      ((self.headers.lookup name).map fun value => [value]).getD (self.client.defaultHeaders name)⟩ := by
  rw [build, foldl_insertHeader]
  congr 1
  funext name
  rw [foldl_update_apply (K.order self.headers) (fun value => [value]), lastOf_of_perm (hK _)]

theorem configured_build (hK : K.Iterates) (settings : List ClientSetting) (method : Method)
    (url : Text) : (configured K client settings).build K method url =
      ⟨method, url, sentHeaders K client settings⟩ := by
  rw [ChimesClient.build_eq hK, configured_client, configured_headers]
  congr 1
  funext name
  rw [lookup_insertAll, AList.lookup_empty, Option.or_none, sentHeaders]

/-! ## The answer -/

section Outcome

omit [DecidableEq HeaderName]

variable {accept : HttpResponse HeaderMap → Bytes → Option α}
  {refuse : HttpResponse HeaderMap → Option ChimesError} {answer : Except Text (HttpResponse HeaderMap)}

theorem map_outcome {β : Type} (f : α → β) (answer : Except Text (HttpResponse HeaderMap)) :
    (ChimesClient.outcome accept refuse answer).map (Except.map f) =
      ChimesClient.outcome (fun res bs => (accept res bs).map f) refuse answer := by
  cases answer with
  | error e => rfl
  | ok res =>
    unfold ChimesClient.outcome
    by_cases hsuccess : res.isSuccess = true
    · simp only [if_pos hsuccess]
      cases res.body with
      | error err => rfl
      | ok bs =>
        show Option.map _ (Option.map _ (accept res bs)) = Option.map _ (Option.map f (accept res bs))
        cases accept res bs <;> rfl
    · simp only [if_neg hsuccess]
      cases refuse res <;> rfl

theorem outcome_of_read {res : HttpResponse HeaderMap} {bs : Bytes} (hsuccess : res.isSuccess = true)
    (hbody : res.body = .ok bs) :
    ChimesClient.outcome accept refuse (.ok res) = (accept res bs).map .ok := by
  simp only [ChimesClient.outcome, if_pos hsuccess, hbody]

theorem outcome_of_unread {res : HttpResponse HeaderMap} {err : Text} (hsuccess : res.isSuccess = true)
    (hbody : res.body = .error err) :
    ChimesClient.outcome accept refuse (.ok res) = some (.error ⟨-1, "error: ".toList ++ err⟩) := by
  simp only [ChimesClient.outcome, if_pos hsuccess, hbody]

theorem outcome_of_refused {res : HttpResponse HeaderMap} (hsuccess : res.isSuccess = false) :
    ChimesClient.outcome accept refuse (.ok res) = (refuse res).map .error := by
  simp only [ChimesClient.outcome, hsuccess, Bool.false_eq_true, if_false]

theorem outcome_ne_none (haccept : ∀ res bs, accept res bs ≠ none) (hrefuse : ∀ res, refuse res ≠ none)
    (answer : Except Text (HttpResponse HeaderMap)) :
    ChimesClient.outcome accept refuse answer ≠ none := by
  cases answer with
  | error e => exact Option.some_ne_none _
  | ok res =>
    cases hsuccess : res.isSuccess with
    | false => simp [outcome_of_refused hsuccess, hrefuse res]
    | true =>
      cases hbody : res.body with
      | error err => simp [outcome_of_unread hsuccess hbody]
      | ok bs => simp [outcome_of_read hsuccess hbody, haccept res bs]

/-- **Outcomes**, where every body gives a reply and every refusal has the code 500. -/
theorem outcome_iff (haccept : ∀ res bs, accept res bs ≠ none)
    (hrefuse : ∀ res, ∃ msg, refuse res = some ⟨500, msg⟩)
    (answer : Except Text (HttpResponse HeaderMap)) :
    (∀ r, ChimesClient.outcome accept refuse answer = some (.ok r) ↔ ∃ res bs, answer = .ok res ∧
      res.isSuccess = true ∧ res.body = .ok bs ∧ accept res bs = some r) ∧
    ((∃ msg, ChimesClient.outcome accept refuse answer = some (.error ⟨-1, msg⟩)) ↔
      ∃ res err, answer = .ok res ∧ res.isSuccess = true ∧ res.body = .error err) ∧
    ((∃ msg, ChimesClient.outcome accept refuse answer = some (.error ⟨500, msg⟩)) ↔
      ∀ res, answer = .ok res → res.isSuccess = false) := by
  cases answer with
  | error e => simp [ChimesClient.outcome]
  | ok res =>
    cases hsuccess : res.isSuccess with
    | false =>
      obtain ⟨msg, hmsg⟩ := hrefuse res
      rw [outcome_of_refused hsuccess, hmsg]
      simp [hsuccess]
    | true =>
      cases hbody : res.body with
      | error err =>
        rw [outcome_of_unread hsuccess hbody]
        simp [hsuccess, hbody]
      | ok bs =>
        obtain ⟨r, hr⟩ := Option.ne_none_iff_exists'.mp (haccept res bs)
        rw [outcome_of_read hsuccess hbody, hr]
        simp [hsuccess, hbody, hr]

end Outcome

theorem RequestCall.run_eq (call : RequestCall Params) : call.run K C self =
    self.exchange K (fun res bs => call.reading C self.charset res bs) (call.refuse K C self)
      (call.method K) call.url call.body := by
  have hheaders : (fun res bs => (self.acceptTextWithHeaders C res bs).map RequestReply.textWithHeaders) =
      fun res bs => (textWithCharset C res.headers self.charset bs).map
        fun s => RequestReply.textWithHeaders (s, res.headers) := by
    funext res bs
    exact Option.map_map _ _ _
  cases call with
  | requestFormWithResponse method url params =>
    rw [run, ChimesClient.requestFormWithResponse, ChimesClient.exchange, map_outcome, hheaders]
    rfl
  | requestWithResponse method url params =>
    rw [run, ChimesClient.requestWithResponse, ChimesClient.exchange, map_outcome, hheaders]
    rfl
  | _ => exact map_outcome _ _

omit [DecidableEq HeaderName] in
theorem ChimesClient.refuseStatus_code (res : HttpResponse HeaderMap) :
    ∃ msg, refuseStatus K res = some ⟨500, msg⟩ := ⟨_, rfl⟩

section Laws

variable (hC : DecodeLaws C)
include hC

theorem RequestCall.reading_ne_none (call : RequestCall Params) (charset : Text)
    (res : HttpResponse HeaderMap) (bs : Bytes) : call.reading C charset res bs ≠ none := by
  have htext : textWithCharset C res.headers charset bs ≠ none := textWithCharset_ne_none hC
  cases call <;> simp [reading, htext]

omit [DecidableEq HeaderName] in
theorem RequestCall.refuse_code (call : RequestCall Params) (res : HttpResponse HeaderMap) :
    ∃ msg, call.refuse K C self res = some ⟨500, msg⟩ := by
  have hmessage : ∃ msg, self.refuseMessage K C res = some ⟨500, msg⟩ := by
    unfold ChimesClient.refuseMessage
    cases res.body with
    | error err => exact ⟨_, rfl⟩
    | ok bs =>
      have htext : textWithCharset C res.headers self.charset bs ≠ none := textWithCharset_ne_none hC
      obtain ⟨s, hs⟩ := Option.ne_none_iff_exists'.mp htext
      simp only [ChimesClient.acceptText, hs]
      exact ⟨_, rfl⟩
  cases call with
  | requestFormWithResponse method url params => exact hmessage
  | requestWithResponse method url params => exact hmessage
  | _ => exact ChimesClient.refuseStatus_code res

end Laws

end Requests

/-! ## One server -/

/-- A byte of a header name in lower case. -/
def isTokenByte (x : UInt8) : Bool :=
  (97 ≤ x && x ≤ 122) || (48 ≤ x && x ≤ 57) ||
    [33, 35, 36, 37, 38, 39, 42, 43, 45, 46, 94, 95, 96, 124, 126].contains x

/-- The crate, with header maps that are iterated in the order of their entries. -/
def entriesCrate : HttpCrate Bytes Text where
  fromLowercase b := if b ≠ [] ∧ b.all isTokenByte then some b else none
  fromStr s := if (utf8 s).all fun x => (32 ≤ x && x != 127) || x == 9 then some s else none
  methodFromBytes b := if b = utf8 "PATCH".toList then some (.other "PATCH".toList) else none
  displayStatus n := (Nat.repr n).toList
  order m := m.entries.map fun e => (e.1, e.2)

theorem entriesCrate_iterates : entriesCrate.Iterates := fun m => by
  show ((m.entries.map fun e => (e.1, e.2)).map fun e => (⟨e.1, e.2⟩ : Σ _ : Bytes, Text)).Perm _
  rw [List.map_map]
  exact List.Perm.of_eq (List.map_id m.entries)

/-- The crates of `utf8Crates`, with header values that are texts. -/
def plainCrates : CharsetCrates Unit Text Unit where
  get _ _ := none
  toStr := some
  parseMime _ := none
  getParam _ _ := none
  forLabel := utf8Crates.forLabel
  decodeWithoutBomHandling := utf8Crates.decodeWithoutBomHandling

theorem decodeLaws_plainCrates : DecodeLaws plainCrates where
  borrowed := decodeLaws_utf8Crates.borrowed
  utf8 := decodeLaws_utf8Crates.utf8
  utf16Be := decodeLaws_utf8Crates.utf16Be
  utf16Le := decodeLaws_utf8Crates.utf16Le

/-- A server that knows its clients by their key. -/
def keyServer : HttpClient Bytes Text Unit Text where
  defaultHeaders name := if name = utf8 "user-agent".toList then ["Mozilla/5.0".toList] else []
  send request _ :=
    if request.headers (utf8 "x-key".toList) = ["two".toList] ∧
        request.headers (utf8 "user-agent".toList) ≠ [] then
      .ok ⟨200, (), .ok (utf8 "ok".toList)⟩
    else .ok ⟨403, (), .ok []⟩

/-- The key is set twice, in two spellings, and once to a value that is none. -/
def keySettings : List ClientSetting :=
  [.putHeader "X-Key".toList "one".toList, .insertHeader "x-key".toList "two".toList,
    .putHeader "x-key".toList "three\n".toList]

theorem sentHeaders_keySettings :
    sentHeaders entriesCrate keyServer keySettings (utf8 "x-key".toList) = ["two".toList] ∧
      sentHeaders entriesCrate keyServer keySettings (utf8 "user-agent".toList) ≠ [] := by
  decide +kernel

end ChimesUtils
