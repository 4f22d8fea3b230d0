import ChimesUtils.Url.Encode
import ChimesUtils.Wechat.Token

/-!
# Transparency of the token cache

`get_access_token` writes the grant type, the application and the secret of its client into a URL, as
they are; the key of a cache entry is made from the application alone. What the server finds in a URL
is a parameter (`TokenServer`).

* `transparent_iff`: a client gets only tokens that were issued to a request with its own values, in
  every run, just when the server finds in each URL that is sent the values of all the clients of the
  application;
* `carriesOwn_iff`: for values without special characters, when these clients have the same values.
-/

namespace ChimesUtils

open Lib

/-! ## The server -/

/-- The HTTP client and the server. -/
structure TokenServer where
  /-- What the server finds under the name of a parameter of the URL, when the HTTP client sends a
  request to it. -/
  query : Text → Option (Text → Option Text)

/-- An unreserved character of a URL. -/
def urlPlain (c : Char) : Bool := c.isAlphanum || c = '-' || c = '_' || c = '.' || c = '~'

def TokenRequest.Plain (r : TokenRequest) : Prop :=
  ∀ v ∈ [r.grantType, r.appId, r.secret], v.all urlPlain = true

instance (r : TokenRequest) : Decidable r.Plain := inferInstanceAs
  (Decidable (∀ v ∈ [r.grantType, r.appId, r.secret], v.all urlPlain = true))

namespace TokenServer

variable (W : TokenServer)

/-- The HTTP client takes the text for a URL. -/
def Sends (url : Text) : Prop := (W.query url).isSome = true

/-- The server finds the values in the URL. -/
def Carries (url : Text) (r : TokenRequest) : Prop :=
  ∃ q, W.query url = some q ∧ q "grant_type".toList = some r.grantType ∧
    q "appid".toList = some r.appId ∧ q "secret".toList = some r.secret

/-- Values of unreserved characters are found in their URL. -/
def Reads : Prop := ∀ r : TokenRequest, r.Plain → W.Carries r.url r

end TokenServer

variable {W : TokenServer} {r r' : TokenRequest}

theorem TokenServer.Carries.unique {url : Text} (h : W.Carries url r) (h' : W.Carries url r') :
    r = r' := by
  obtain ⟨q, hq, hgrant, happ, hsecret⟩ := h
  obtain ⟨q', hq', hgrant', happ', hsecret'⟩ := h'
  cases hq.symm.trans hq'
  obtain ⟨grantType, appId, secret⟩ := r
  cases hgrant.symm.trans hgrant'
  cases happ.symm.trans happ'
  cases hsecret.symm.trans hsecret'
  rfl

/-! ## What has been issued -/

/-- The token with the given place in the order of issue. -/
def issueAt : List Issue → ℕ → Option Issue
  | [], _ => none
  | iss :: older, n => if n = older.length then some iss else issueAt older n

/-- The server has issued the token to a request, in which it has found the values. -/
def IssuedTo (W : TokenServer) (issued : List Issue) (tok : TokioToken) (request : TokenRequest) :
    Prop :=
  ∃ sent, issueAt issued tok.serial = some ⟨tok.accessToken, sent⟩ ∧ W.Carries sent.url request

namespace TokenSystem

/-- Every returned token was issued to a request with the values of its client. -/
def Transparent (W : TokenServer) (conf : ℕ → TokioAccessToken) (s : TokenSystem) : Prop :=
  ∀ r ∈ s.returned, IssuedTo W s.issued r.2 (conf r.1).request

/-- The server issues tokens to requests that are sent. -/
def Answers (W : TokenServer) (conf : ℕ → TokioAccessToken) (_ : TokenSystem) : TokenLabel → Prop
  | .fetch i _ | .lose i _ => W.Sends (conf i).request.url
  | _ => True

/-- In each URL that is sent the server finds the values of all the clients of the application. -/
def CarriesOwn (W : TokenServer) (conf : ℕ → TokioAccessToken) : Prop :=
  ∀ i j, (conf i).appId = (conf j).appId → W.Sends (conf i).request.url →
    W.Carries (conf i).request.url (conf j).request

end TokenSystem

section Issued

variable {issued : List Issue} {tok : TokioToken} {request : TokenRequest} {iss : Issue} {n : ℕ}

theorem lt_of_issueAt (h : issueAt issued n = some iss) : n < issued.length := by
  induction issued with
  | nil => cases h
  | cons iss' older ih =>
    rw [issueAt] at h
    split_ifs at h with hn
    · rw [hn, List.length_cons]
      omega
    · have := ih h
      rw [List.length_cons]
      omega

theorem IssuedTo.cons (h : IssuedTo W issued tok request) (iss : Issue) :
    IssuedTo W (iss :: issued) tok request := by
  obtain ⟨sent, hissued, hcarries⟩ := h
  have hlt := lt_of_issueAt hissued
  refine ⟨sent, ?_, hcarries⟩
  rw [issueAt, if_neg (by omega)]
  exact hissued

theorem IssuedTo.new (issued : List Issue) (token : Text) (now : ℕ) (exp : ℤ) {sent : TokenRequest}
    (h : W.Carries sent.url request) :
    IssuedTo W (⟨token, sent⟩ :: issued) ⟨token, now, exp, issued.length⟩ request :=
  ⟨sent, if_pos rfl, h⟩

end Issued

namespace TokenSystem

/-- Entries and answers were issued to requests with the values of all the clients of their
application. -/
structure OwnInv (W : TokenServer) (conf : ℕ → TokioAccessToken) (s : TokenSystem) : Prop where
  cache : ∀ i mcx, s.cache (conf i).rkey = some mcx → IssuedTo W s.issued mcx (conf i).request
  fetched : ∀ i access, s.calls i = .fetched access → ∀ j, (conf i).appId = (conf j).appId →
    IssuedTo W s.issued access (conf j).request
  returned : s.Transparent W conf

section Invariant

variable {conf : ℕ → TokioAccessToken} {s s' : TokenSystem} {l : TokenLabel} {i : ℕ}
  {ph : CallPhase} {mcx : TokioToken}

theorem OwnInv.setCall (h : OwnInv W conf s)
    (hph : ∀ access, ph = .fetched access → ∀ j, (conf i).appId = (conf j).appId →
      IssuedTo W s.issued access (conf j).request) : OwnInv W conf (s.setCall i ph) := by
  refine ⟨h.cache, fun k access hk => ?_, h.returned⟩
  rw [setCall_calls] at hk
  split_ifs at hk with heq
  · exact heq ▸ hph access hk
  · exact h.fetched k access hk

theorem OwnInv.issue (h : OwnInv W conf s) (token : Text) (request : TokenRequest) :
    OwnInv W conf (s.issue token request) :=
  ⟨fun j mcx hj => (h.cache j mcx hj).cons _,
    fun i access hi j hj => (h.fetched i access hi j hj).cons _,
    fun r hr => (h.returned r hr).cons _⟩

theorem OwnInv.give (h : OwnInv W conf s) (htok : IssuedTo W s.issued mcx (conf i).request) :
    OwnInv W conf (s.give i mcx) := by
  refine OwnInv.setCall ⟨h.cache, h.fetched, fun r hr => ?_⟩ fun _ heq => by cases heq
  rcases List.mem_cons.mp hr with rfl | hr
  · exact htok
  · exact h.returned r hr

theorem OwnInv.move (hown : CarriesOwn W conf) (h : OwnInv W conf s) (hans : s.Answers W conf l)
    (hmove : Move conf s l s') : OwnInv W conf s' := by
  cases hmove with
  | tick => exact ⟨h.cache, h.fetched, h.returned⟩
  | hit _ hmcx => exact h.give (h.cache _ _ hmcx)
  | miss _ hph =>
    refine h.setCall fun access heq => ?_
    rcases hph with rfl | rfl <;> cases heq
  | @fetch i token _ =>
    refine (h.issue token _).setCall fun access heq j hj => ?_
    cases heq
    exact .new s.issued token s.now 7200 (hown i j hj hans)
  | @lose i token _ => exact (h.issue token _).setCall fun _ heq => by cases heq
  | refuse => exact h.setCall fun _ heq => by cases heq
  | @set i access hfetched =>
    refine OwnInv.give ⟨fun j mcx hj => ?_, h.fetched, h.returned⟩ (h.fetched i access hfetched i rfl)
    simp only [Function.update_apply] at hj
    split_ifs at hj with hkey
    · -- the entry is that of a client of the same application
      cases hj
      exact h.fetched i access hfetched j (TokioAccessToken.rkey_inj.mp hkey).symm
    · exact h.cache j mcx hj
  | clear => exact ⟨fun _ _ hj => (by cases hj), h.fetched, h.returned⟩

theorem OwnInv.new (t : ℕ) : OwnInv W conf (new t) :=
  ⟨fun _ _ h => (by cases h), fun _ _ h => (by cases h), List.forall_mem_nil _⟩

end Invariant

/-! ## All runs -/

/-- Client `i` fetches a token, and client `j` calls `get` while its entry is valid. -/
def shared (i j : ℕ) : List TokenLabel := [.tick 0, .read i, .fetch i ['x'], .set i, .read j]

theorem run_shared (p : Profile) {conf : ℕ → TokioAccessToken} (t : ℕ) {i j : ℕ}
    (happ : (conf i).appId = (conf j).appId) :
    ∃ s, runAll (step p conf) (shared i j) (new t) = some s ∧
      (j, ⟨['x'], 0, 7200, 0⟩) ∈ s.returned ∧ s.issued = [⟨['x'], (conf i).request⟩] := by
  have hkey : (conf i).rkey = (conf j).rkey := TokioAccessToken.rkey_inj.mpr happ
  have hfresh : TokioToken.fresh p 0 ⟨['x'], 0, 7200, 0⟩ = some true := by
    cases p <;> decide
  let s₁ := ({ new t with now := 0 } : TokenSystem).setCall i .missed
  let s₂ := (s₁.issue ['x'] (conf i).request).setCall i (.fetched ⟨['x'], 0, 7200, 0⟩)
  let s₃ := { s₂ with
    cache := Function.update s₂.cache (conf i).rkey (some ⟨['x'], 0, 7200, 0⟩) }.give i
      ⟨['x'], 0, 7200, 0⟩
  have h₁ : s₁.calls i = .missed := Function.update_self ..
  have h₂ : s₂.calls i = .fetched ⟨['x'], 0, 7200, 0⟩ := Function.update_self ..
  have h₃ : s₃.calls j = .idle := by
    show Function.update (Function.update (Function.update _ i _) i _) i _ j = _
    simp only [Function.update_apply]
    split_ifs <;> rfl
  have hcache : s₃.cache (conf j).rkey = some ⟨['x'], 0, 7200, 0⟩ := by
    rw [← hkey]
    exact Function.update_self ..
  have hnow : s₃.now = 0 := rfl
  refine ⟨s₃.give j ⟨['x'], 0, 7200, 0⟩, ?_, List.mem_cons_self, rfl⟩
  calc runAll (step p conf) (shared i j) (new t)
      = runAll (step p conf) [.fetch i ['x'], .set i, .read j] s₁ := rfl
    _ = runAll (step p conf) [.set i, .read j] s₂ := by
      rw [runAll, step, if_pos h₁]
      rfl
    _ = runAll (step p conf) [.read j] s₃ := by
      rw [runAll, step, h₂]
      rfl
    _ = some (s₃.give j ⟨['x'], 0, 7200, 0⟩) := by
      rw [runAll, step, if_pos h₃, read, hcache]
      simp only [hnow, hfresh]
      rfl

/-- **Transparency.** In every run of `get` and `clear` calls of the clients, every returned token is
one that the server issued to a request in which it found the grant type, the application and the
secret of the client, just when it finds in each URL that is sent the values of all the clients of the
application. -/
theorem transparent_iff (W : TokenServer) (p : Profile) (conf : ℕ → TokioAccessToken) (t : ℕ) :
    (∀ ls s, Run (Under (Answers W conf) (Steps (step p conf))) (new t) ls s →
        s.Transparent W conf) ↔ CarriesOwn W conf := by
  constructor
  · intro h i j happ hsends
    obtain ⟨s, hrun, hret, hissued⟩ := run_shared p t happ
    have hans : AllSteps (Answers W conf) (step p conf) (shared i j) (new t) :=
      AllSteps.of_forall fun l hl s => by
        simp only [shared, List.mem_cons, List.not_mem_nil, or_false] at hl
        rcases hl with rfl | rfl | rfl | rfl | rfl <;> trivial
    obtain ⟨sent, hat, hcarries⟩ := h _ s (run_under_of_runAll hans hrun) _ hret
    rw [hissued] at hat
    cases hat
    exact hcarries
  · intro hown ls s hrun
    have hinv : OwnInv W conf s :=
      hrun.invariant (OwnInv.new t) fun _ _ _ hi hs => hi.move hown hs.1 (step_cases hs.2)
    exact hinv.returned

/-- **Values without special characters** are found just when clients of one application have the same
grant type, where no application type stands for `client_credential`, and the same secret. -/
theorem carriesOwn_iff (hW : W.Reads) {conf : ℕ → TokioAccessToken}
    (hplain : ∀ i, (conf i).request.Plain) :
    CarriesOwn W conf ↔ ∀ i j, (conf i).appId = (conf j).appId → (conf i).request = (conf j).request := by
  refine forall₂_congr fun i j => forall_congr' fun happ => ?_
  have hown := hW _ (hplain i)
  constructor
  · intro h
    obtain ⟨q, hq, -⟩ := id hown
    exact hown.unique (h (by rw [TokenServer.Sends, hq]; rfl))
  · intro heq _
    exact heq ▸ hown

end TokenSystem

/-! ## A server of forms -/

/-- A visible character of ASCII. -/
def isVisible (c : Char) : Bool := '!' ≤ c && c ≤ '~'

/-- The parameters before the fragment, decoded. The HTTP client takes visible characters of ASCII. -/
def formServer : TokenServer where
  query url :=
    if url.all isVisible then
      some fun name => ((after '?' (before '#' url)).splitOn '&').findSome? fun seg =>
        if before '=' seg = name then PercentCrates.standard.decodeText (after '=' seg) else none
    else none

theorem decodeText_of_notMem {v : Text} (h : '%' ∉ v) :
    PercentCrates.standard.decodeText v = some v := by
  have hfree : ∀ bs : Bytes, Percent.sign ∉ bs → Percent.EscapeFree Percent.hexPair bs := by
    intro bs hbs
    induction bs with
    | nil => exact (Percent.unescape_eq_self_iff _ _).mp rfl
    | cons b bs ih =>
      rw [List.mem_cons, not_or] at hbs
      exact Percent.escapeFree_cons (fun heq => absurd heq.symm hbs.1) (ih hbs.2)
  refine (decodeText_eq_self_iff PercentCrates.standard_laws v).mpr (hfree _ fun hmem => h ?_)
  exact (mem_utf8_iff (c := '%') (by decide)).mp hmem

theorem isVisible_of_urlPlain {c : Char} (h : urlPlain c = true) : isVisible c = true := by
  simp only [urlPlain, Char.isAlphanum, Char.isAlpha, Char.isUpper, Char.isLower, Char.isDigit,
    Bool.or_eq_true, Bool.and_eq_true, decide_eq_true_eq, ge_iff_le] at h
  rw [isVisible, Bool.and_eq_true, decide_eq_true_eq, decide_eq_true_eq]
  rcases h with (((h | rfl) | rfl) | rfl) | rfl
  · rcases h with (h | h) | h <;> exact ⟨le_trans (by decide) h.1, le_trans h.2 (by decide)⟩
  all_goals decide

theorem urlPlain_eq_false : ∀ c ∈ ['#', '&', '%'], urlPlain c = false := by simp [urlPlain]

theorem TokenRequest.Plain.notMem (h : r.Plain) {c : Char} (hc : c ∈ ['#', '&', '%']) :
    c ∉ r.grantType ∧ c ∉ r.appId ∧ c ∉ r.secret := by
  have hnot : ∀ v ∈ [r.grantType, r.appId, r.secret], c ∉ v := by
    intro v hv hmem
    have hplain := List.all_eq_true.mp (h v hv) c hmem
    rw [urlPlain_eq_false c hc] at hplain
    cases hplain
  simp only [List.forall_mem_cons] at hnot
  exact ⟨hnot.1, hnot.2.1, hnot.2.2.1⟩

/-- The segments of the query. -/
def TokenRequest.segments (r : TokenRequest) : List Text :=
  ["grant_type".toList ++ '=' :: r.grantType, "appid".toList ++ '=' :: r.appId,
    "secret".toList ++ '=' :: r.secret]

/-- The part of the URL before the query. -/
def tokenPath : Text := apiDomain ++ "/cgi-bin/token".toList

theorem TokenRequest.url_eq (r : TokenRequest) :
    r.url = tokenPath ++ '?' :: ['&'].intercalate r.segments := by
  have hquery : "/cgi-bin/token?grant_type=".toList =
      "/cgi-bin/token".toList ++ '?' :: "grant_type=".toList := by decide +kernel
  rw [url, hquery, tokenPath, segments]
  simp

theorem TokenRequest.Plain.url (hr : r.Plain) :
    r.url.all (fun c => isVisible c && c != '#') = true := by
  have hfields : ∀ v ∈ [r.grantType, r.appId, r.secret],
      v.all (fun c => isVisible c && c != '#') = true := by
    intro v hv
    refine List.all_eq_true.mpr fun c hc => ?_
    have hplain := List.all_eq_true.mp (hr v hv) c hc
    rw [isVisible_of_urlPlain hplain, Bool.true_and, bne_iff_ne]
    rintro rfl
    exact absurd hplain (by rw [urlPlain_eq_false '#' List.mem_cons_self]; exact Bool.false_ne_true)
  have hfixed : (apiDomain ++ "/cgi-bin/token?grant_type=".toList).all
        (fun c => isVisible c && c != '#') = true ∧
      "&appid=".toList.all (fun c => isVisible c && c != '#') = true ∧
      "&secret=".toList.all (fun c => isVisible c && c != '#') = true := by
    decide +kernel
  simp only [List.forall_mem_cons] at hfields
  rw [TokenRequest.url]
  simp only [List.all_append, hfields.1, hfields.2.1, hfields.2.2.1, hfixed.2.1, hfixed.2.2,
    Bool.and_true]
  rw [← List.all_append]
  exact hfixed.1

theorem formServer_reads : formServer.Reads := by
  intro r hr
  have hurl := List.all_eq_true.mp hr.url
  have hvisible : r.url.all isVisible = true :=
    List.all_eq_true.mpr fun c hc => (Bool.and_eq_true_iff.mp (hurl c hc)).1
  have hhash : '#' ∉ r.url := fun hc => absurd (hurl '#' hc) (by decide)
  have hpath : '?' ∉ tokenPath := by decide +kernel
  have hsegments : ∀ seg ∈ r.segments, '&' ∉ seg := by
    obtain ⟨hgrant, happ, hsecret⟩ := hr.notMem (c := '&') (by decide)
    simp [TokenRequest.segments, hgrant, happ, hsecret]
  have hsplit : (after '?' (before '#' r.url)).splitOn '&' = r.segments := by
    rw [before_of_notMem hhash, r.url_eq, after_append hpath,
      List.splitOn_intercalate _ hsegments (List.cons_ne_nil _ _)]
  obtain ⟨hgrant, happ, hsecret⟩ := hr.notMem (c := '%') (by decide)
  have hnames : '=' ∉ "grant_type".toList ∧ '=' ∉ "appid".toList ∧ '=' ∉ "secret".toList := by
    decide +kernel
  have hsame : "grant_type".toList ≠ "appid".toList ∧ "grant_type".toList ≠ "secret".toList ∧
      "appid".toList ≠ "secret".toList := by decide +kernel
  refine ⟨_, if_pos hvisible, ?_, ?_, ?_⟩ <;> simp only [hsplit, TokenRequest.segments]
  · rw [List.findSome?_cons, before_append hnames.1, if_pos rfl, after_append hnames.1,
      decodeText_of_notMem hgrant]
  · rw [List.findSome?_cons, before_append hnames.1, if_neg hsame.1, List.findSome?_cons,
      before_append hnames.2.1, if_pos rfl, after_append hnames.2.1, decodeText_of_notMem happ]
  · rw [List.findSome?_cons, before_append hnames.1, if_neg hsame.2.1, List.findSome?_cons,
      before_append hnames.2.1, if_neg hsame.2.2, List.findSome?_cons, before_append hnames.2.2,
      if_pos rfl, after_append hnames.2.2, decodeText_of_notMem hsecret]

namespace TokenSystem

/-- Client `0`, and any number of clients with another secret for the same application. -/
def wrongSecret (i : ℕ) : TokioAccessToken :=
  ⟨[], ['a'], if i = 0 then ['s'] else ['t']⟩

/-- A client with another secret gets the token of client `0` from the cache. -/
theorem shared_wrongSecret : ∃ s,
    Run (Under (Answers formServer wrongSecret) (Steps (step .release wrongSecret))) (new 0)
      (shared 0 1) s ∧
    s.returned.head? = some (1, ⟨['x'], 0, 7200, 0⟩) ∧
    s.issued = [⟨['x'], ⟨"client_credential".toList, ['a'], ['s']⟩⟩] ∧
    ¬ s.Transparent formServer wrongSecret := by
  have hview : (runAll (step .release wrongSecret) (shared 0 1) (new 0)).map
      (fun s => (s.returned, s.issued)) = some ([(1, ⟨['x'], 0, 7200, 0⟩), (0, ⟨['x'], 0, 7200, 0⟩)],
        [⟨['x'], ⟨"client_credential".toList, ['a'], ['s']⟩⟩]) := by decide +kernel
  obtain ⟨s, hs, hv⟩ := Option.map_eq_some_iff.mp hview
  simp only [Prod.mk.injEq] at hv
  obtain ⟨hret, hissued⟩ := hv
  have hplain : ∀ i, (wrongSecret i).request.Plain := by
    intro i
    by_cases hi : i = 0
    · rw [wrongSecret, if_pos hi]
      decide
    · rw [wrongSecret, if_neg hi]
      decide
  have hans : AllSteps (Answers formServer wrongSecret) (step .release wrongSecret) (shared 0 1)
      (new 0) := by
    refine AllSteps.of_forall fun l _ s => ?_
    cases l with
    | fetch i token | lose i token =>
      obtain ⟨q, hq, -⟩ := formServer_reads _ (hplain i)
      show (formServer.query _).isSome = true
      rw [hq]
      rfl
    | _ => trivial
  refine ⟨s, run_under_of_runAll hans hs, by rw [hret]; rfl, hissued, fun h => ?_⟩
  obtain ⟨sent, hat, hcarries⟩ := h (1, ⟨['x'], 0, 7200, 0⟩) (by rw [hret]; exact List.mem_cons_self)
  rw [hissued] at hat
  cases hat
  have hsecret := (formServer_reads _ (hplain 0)).unique hcarries
  exact absurd hsecret (by decide)

end TokenSystem

end ChimesUtils
