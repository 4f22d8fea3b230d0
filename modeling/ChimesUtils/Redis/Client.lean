import ChimesUtils.Rust

/-!
# The redis functions

`redis_get`, `redis_set` and `redis_del` send one command on a pooled connection and convert the reply
to a `String`. What the crate converts is a parameter with the laws `RedisLaws`; the server behaves as
a map from keys to bytes.

`refinesMap_iff`: the functions answer as a map of strings does just when no key is deleted and only
keys that are present are read.
-/

namespace ChimesUtils

/-- `redis::Value`, a reply of the server. -/
inductive RedisValue where
  | nil
  | int (n : ℤ)
  | data (bytes : Bytes)
  | bulk (items : List RedisValue)
  | status (s : Text)
  | okay

/-- `ChimesError::custom`. -/
structure ChimesError where
  code : ℤ
  msg : Text
  deriving DecidableEq

/-- What a call returns. -/
abbrev RedisReply := Except ChimesError (Option Text)

/-- `from_redis_value::<String>`, with the text of its error: data, status and OK replies convert, nil
and integers do not. -/
structure RedisLaws (fromRedisValue : RedisValue → Except Text Text) : Prop where
  data : ∀ v : Text, fromRedisValue (.data (utf8 v)) = .ok v
  status : ∀ s, fromRedisValue (.status s) = .ok s
  okay : fromRedisValue .okay = .ok ['O', 'K']
  nil : ∃ err, fromRedisValue .nil = .error err
  int : ∀ n, ∃ err, fromRedisValue (.int n) = .error err

/-- A command. -/
inductive RedisCmd where
  | get (key : Text)
  | set (key value : Text)
  | del (key : Text)
  deriving DecidableEq

/-- The keys of the server and their bytes. -/
abbrev RedisServer := Text → Option Bytes

/-- The reply of the server to a command, and its new state. -/
def RedisServer.serve (srv : RedisServer) : RedisCmd → RedisValue × RedisServer
  | .get key => (match srv key with
    | some bytes => .data bytes
    | none => .nil, srv)
  | .set key value => (.okay, Function.update srv key (some (utf8 value)))
  | .del key => (.int (if (srv key).isSome then 1 else 0), Function.update srv key none)

/-- `GLOBAL_REDIS_POOL`: no pool, or a pool that hands out a connection or the text of an error. -/
abbrev RedisPool := Option (Except Text Unit)

/-- The pool is initialised and its connections are healthy. -/
def healthyPool : RedisPool := some (.ok ())

section Client

variable (fromRedisValue : RedisValue → Except Text Text)

/-- `RedisConnection::query::<String>`. -/
def redisQuery (cmd : RedisCmd) (srv : RedisServer) : Except Text Text × RedisServer :=
  let (val, srv') := srv.serve cmd
  (fromRedisValue val, srv')

/-- The three functions, with the code of their errors. -/
def redisCall (code : ℤ) (cmd : RedisCmd) (pool : RedisPool) (srv : RedisServer) :
    RedisReply × RedisServer :=
  match pool with
  | some (.ok ()) =>
    match redisQuery fromRedisValue cmd srv with
    | (.ok xv, srv') => (.ok (some xv), srv')
    | (.error err, srv') => (.error ⟨code, err⟩, srv')
  | some (.error err) => (.error ⟨code, err⟩, srv)
  | none => (.ok none, srv)

def redisGet (key : Text) : RedisPool → RedisServer → RedisReply × RedisServer :=
  redisCall fromRedisValue 10070 (.get key)

def redisSet (key value : Text) : RedisPool → RedisServer → RedisReply × RedisServer :=
  redisCall fromRedisValue 10076 (.set key value)

def redisDel (key : Text) : RedisPool → RedisServer → RedisReply × RedisServer :=
  redisCall fromRedisValue 10077 (.del key)

/-- A call on the initialised pool. -/
def RedisCmd.run : RedisCmd → RedisServer → RedisReply × RedisServer
  | .get key => redisGet fromRedisValue key healthyPool
  | .set key value => redisSet fromRedisValue key value healthyPool
  | .del key => redisDel fromRedisValue key healthyPool

end Client

/-! ## The map of strings -/

/-- What every key was last set to since its last deletion. -/
abbrev StringMap := Text → Option Text

/-- A call on the map. -/
def StringMap.step (m : StringMap) : RedisCmd → StringMap
  | .get _ => m
  | .set key value => Function.update m key (some value)
  | .del key => Function.update m key none

/-- The map as a server holds it. -/
def StringMap.server (m : StringMap) : RedisServer := fun key => (m key).map utf8

/-- The reply is no error, and that of a read is what the map holds. -/
def StringMap.Accepts (m : StringMap) (cmd : RedisCmd) (r : RedisReply) : Prop :=
  (∃ x, r = .ok x) ∧ ∀ key, cmd = .get key → r = .ok (m key)

/-- Every reply of the calls is accepted by the map, and the server holds the map all along. -/
def RefinesMap (fromRedisValue : RedisValue → Except Text Text) :
    List RedisCmd → RedisServer → StringMap → Prop
  | [], srv, m => srv = m.server
  | cmd :: cmds, srv, m =>
    srv = m.server ∧ m.Accepts cmd (cmd.run fromRedisValue srv).1 ∧
      RefinesMap fromRedisValue cmds (cmd.run fromRedisValue srv).2 (m.step cmd)

/-- The call reads a key that is present, or sets one. -/
def StringMap.Plain (m : StringMap) : RedisCmd → Prop
  | .get key => m key ≠ none
  | .set _ _ => True
  | .del _ => False

/-- Every call of the sequence is plain where it comes. -/
def AllPlain : List RedisCmd → StringMap → Prop
  | [], _ => True
  | cmd :: cmds, m => m.Plain cmd ∧ AllPlain cmds (m.step cmd)

section Refinement

variable {fromRedisValue : RedisValue → Except Text Text} {m : StringMap} {cmd : RedisCmd}

theorem server_update (m : StringMap) (key : Text) (v : Option Text) :
    StringMap.server (Function.update m key v) = Function.update m.server key (v.map utf8) := by
  funext k
  simp only [StringMap.server, Function.update_apply]
  split_ifs <;> rfl

/-- **The server follows the map**, whatever the functions make of its replies. -/
theorem run_server (fromRedisValue : RedisValue → Except Text Text) (m : StringMap)
    (cmd : RedisCmd) : (cmd.run fromRedisValue m.server).2 = (m.step cmd).server := by
  have hcall : ∀ code, (redisCall fromRedisValue code cmd healthyPool m.server).2 =
      (m.server.serve cmd).2 := by
    intro code
    simp only [redisCall, healthyPool, redisQuery]
    split
    next heq => exact (congrArg Prod.snd heq).symm
    next heq => exact (congrArg Prod.snd heq).symm
  cases cmd with
  | get key => exact hcall 10070
  | set key value => exact (hcall 10076).trans (server_update m key (some value)).symm
  | del key => exact (hcall 10077).trans (server_update m key none).symm

theorem redisCall_fst (code : ℤ) (cmd : RedisCmd) (srv : RedisServer) :
    (redisCall fromRedisValue code cmd healthyPool srv).1 =
      match fromRedisValue (srv.serve cmd).1 with
      | .ok xv => .ok (some xv)
      | .error err => .error ⟨code, err⟩ := by
  simp only [redisCall, healthyPool, redisQuery]
  cases fromRedisValue (srv.serve cmd).1 <;> rfl

/-- **One call.** The reply is that of the map just when the call is plain. -/
theorem accepts_iff_plain (hlaws : RedisLaws fromRedisValue) (m : StringMap) (cmd : RedisCmd) :
    m.Accepts cmd (cmd.run fromRedisValue m.server).1 ↔ m.Plain cmd := by
  cases cmd with
  | get key =>
    rw [RedisCmd.run, redisGet, redisCall_fst]
    simp only [RedisServer.serve, StringMap.server, StringMap.Plain]
    cases hkey : m key with
    | none =>
      obtain ⟨err, herr⟩ := hlaws.nil
      refine iff_of_false (fun h => ?_) (fun h => h rfl)
      obtain ⟨⟨x, hx⟩, -⟩ := h
      simp [herr] at hx
    | some v =>
      refine iff_of_true ⟨⟨some v, ?_⟩, fun key' heq => ?_⟩ (Option.some_ne_none v)
      · simp [hlaws.data]
      · cases heq
        simp [hlaws.data, hkey]
  | set key value =>
    rw [RedisCmd.run, redisSet, redisCall_fst]
    refine iff_of_true ⟨⟨some ['O', 'K'], ?_⟩, fun _ heq => by cases heq⟩ trivial
    simp only [RedisServer.serve, hlaws.okay]
  | del key =>
    rw [RedisCmd.run, redisDel, redisCall_fst]
    obtain ⟨err, herr⟩ := hlaws.int (if (m.server key).isSome then 1 else 0)
    refine iff_of_false (fun h => ?_) not_false
    obtain ⟨⟨x, hx⟩, -⟩ := h
    simp only [RedisServer.serve, herr] at hx
    cases hx

end Refinement

/-- **Refinement.** For every sequence of calls on a server that holds a map of strings, no call
returns an error and every read returns what the map holds just when no key is deleted and every key is
present when it is read. -/
theorem refinesMap_iff {fromRedisValue : RedisValue → Except Text Text}
    (hlaws : RedisLaws fromRedisValue) (cmds : List RedisCmd) (m : StringMap) :
    RefinesMap fromRedisValue cmds m.server m ↔ AllPlain cmds m := by
  induction cmds generalizing m with
  | nil => exact iff_of_true rfl trivial
  | cons cmd cmds ih =>
    rw [RefinesMap, AllPlain, run_server, ih, accepts_iff_plain hlaws]
    exact and_iff_right rfl

/-- The conversion of the crate. -/
def fromRedisValueString : RedisValue → Except Text Text
  | .data bytes =>
    match fromUtf8 bytes with
    | some s => .ok s
    | none => .error "Invalid UTF-8".toList
  | .status s => .ok s
  | .okay => .ok ['O', 'K']
  | _ => .error "Response type not string compatible.".toList

theorem fromRedisValueString_laws : RedisLaws fromRedisValueString where
  data v := by rw [fromRedisValueString, fromUtf8_utf8]
  status _ := rfl
  okay := rfl
  nil := ⟨_, rfl⟩
  int _ := ⟨_, rfl⟩

/-- A key is set twice and read after each. -/
def setAndGet : List RedisCmd := [.set ['k'] ['v'], .get ['k'], .set ['k'] ['w'], .get ['k']]

theorem refinesMap_setAndGet :
    RefinesMap fromRedisValueString setAndGet (StringMap.server fun _ => none) fun _ => none := by
  refine (refinesMap_iff fromRedisValueString_laws setAndGet _).mpr ⟨trivial, ?_, trivial, ?_, trivial⟩
  · exact Option.some_ne_none ['v']
  · exact Option.some_ne_none ['w']

/-- A read of an absent key is an error, and so is a deletion that has removed its key. -/
theorem not_refinesMap_absent :
    (redisGet fromRedisValueString ['k'] healthyPool fun _ => none).1 =
      .error ⟨10070, "Response type not string compatible.".toList⟩ ∧
    (redisDel fromRedisValueString ['k'] healthyPool fun _ => some (utf8 ['v'])).1 =
      .error ⟨10077, "Response type not string compatible.".toList⟩ ∧
    (redisDel fromRedisValueString ['k'] healthyPool fun _ => some (utf8 ['v'])).2 ['k'] = none ∧
    ¬ RefinesMap fromRedisValueString [.get ['k']] (StringMap.server fun _ => none)
      (fun _ => none) ∧
    ¬ RefinesMap fromRedisValueString [.set ['k'] ['v'], .del ['k']]
      (StringMap.server fun _ => none) fun _ => none := by
  refine ⟨rfl, rfl, rfl, fun h => ?_, fun h => ?_⟩
  · obtain ⟨-, ⟨⟨x, hx⟩, -⟩, -⟩ := h
    cases hx
  · obtain ⟨-, -, -, ⟨⟨x, hx⟩, -⟩, -⟩ := h
    cases hx

end ChimesUtils
