import ChimesUtils.Lib.Mutex
import ChimesUtils.Mail.Queue
import ChimesUtils.Numerals

/-!
# The configuration file

`AppConfig::load_yaml` reads a file, parses it, and replaces the configuration by what the first
document says. `AppConfig::init` does so with the lock of the global configuration.

* `loadYaml_eq`: how the function ends, for each kind of file;
* `loadsWell_iff`: for which files it leaves the lock usable.
-/

namespace ChimesUtils

open Lib

/-! ## YAML -/

/-- `yaml_rust::Yaml`. -/
inductive Yaml where
  | real (s : Text)
  | integer (n : I64)
  | string (s : Text)
  | boolean (b : Bool)
  | array (items : List Yaml)
  | hash (entries : List (Yaml × Yaml))
  | alias (n : ℕ)
  | null
  | badValue

namespace Yaml

/-- `as_str`. -/
def asStr : Yaml → Option Text
  | string s => some s
  | _ => none

/-- `as_i64`. -/
def asI64 : Yaml → Option I64
  | integer n => some n
  | _ => none

/-- `as_bool`. -/
def asBool : Yaml → Option Bool
  | boolean b => some b
  | _ => none

/-- `as_vec`. -/
def asVec : Yaml → Option (List Yaml)
  | array items => some items
  | _ => none

/-- `is_null`. -/
def isNull : Yaml → Bool
  | null => true
  | _ => false

/-- `doc[key]`: no such key, or no hash, gives `BadValue`. -/
def index (key : String) : Yaml → Yaml
  | hash entries => ((entries.find? fun e => e.1.asStr == some key.toList).map Prod.snd).getD badValue
  | _ => badValue

/-- The text of a node, or the empty one. -/
def text (y : Yaml) : Text := y.asStr.getD []

end Yaml

/-! ## The configuration -/

/-- `log::LevelFilter`. -/
inductive LevelFilter where
  | off | error | warn | info | debug | trace
  deriving DecidableEq

/-- `LevelFilter::from_str`. -/
def LevelFilter.fromStr (s : Text) : Option LevelFilter :=
  [("OFF".toList, off), ("ERROR".toList, error), ("WARN".toList, warn), ("INFO".toList, info),
    ("DEBUG".toList, debug), ("TRACE".toList, trace)].lookup (s.map Char.toUpper)

/-- The level of a node, `Info` without one. -/
def logLevel (y : Yaml) : LevelFilter := (y.asStr.bind LevelFilter.fromStr).getD .info

structure DatabaseConfig where
  url : Text
  loggerLevel : LevelFilter
  deriving DecidableEq

structure WebServerConfig where
  port : I64
  rsaKey : Text
  rsaCert : Text
  rsaPasswordPrivateKey : Text
  rsaPasswordPublicKey : Text
  uploadStorePath : Text
  resourcesPath : Text
  uploadTempPath : Text
  accessUrlPrefix : Text
  deriving DecidableEq

structure RedisPoolConfig where
  connectionTimeout : ℕ
  maxSize : ℕ
  miniIdel : ℕ
  deriving DecidableEq

inductive InstanceType where
  | single
  | cluster
  deriving DecidableEq

structure RedisConfig where
  urls : List Text
  database : I64
  username : Option Text
  password : Option Text
  instanceType : Option InstanceType
  pool : RedisPoolConfig
  deriving DecidableEq

structure AppConfig where
  dbConf : DatabaseConfig
  webserverConf : WebServerConfig
  emailConf : EmailServerConfig
  redisConf : Option RedisConfig
  gatewayAddress : Option Text
  appId : Option Text
  appSecret : Option Text
  loggerLevel : LevelFilter
  deriving DecidableEq

namespace AppConfig

def defaultPort : I64 := ⟨10089, by decide⟩

/-- The configuration that `AppConfig::get` starts with. -/
def initial : AppConfig where
  dbConf := ⟨[], .info⟩
  webserverConf := ⟨defaultPort, [], [], [], [], [], [], [], []⟩
  emailConf := ⟨[], [], [], [], false⟩
  redisConf := none
  gatewayAddress := none
  appId := none
  appSecret := none
  loggerLevel := .info

/-! ## The conversions -/

def databaseOf (db : Yaml) : DatabaseConfig where
  url := (db.index "url").text
  loggerLevel := logLevel (db.index "log-level")

def webserverOf (web : Yaml) : WebServerConfig where
  port := (web.index "port").asI64.getD defaultPort
  rsaKey := (web.index "rsa_key").text
  rsaCert := (web.index "rsa_cert").text
  rsaPasswordPrivateKey := (web.index "rsa_password_private_key").text
  rsaPasswordPublicKey := (web.index "rsa_password_public_key").text
  uploadStorePath := (web.index "upload-store-path").text
  uploadTempPath := (web.index "upload-temp-path").text
  resourcesPath := (web.index "resources-path").text
  accessUrlPrefix := (web.index "access-url-prefix").text

def emailOf (email : Yaml) : EmailServerConfig where
  smtpServer := (email.index "smtp-server").text
  mineEmail := (email.index "account").text
  password := (email.index "password").text
  port := (email.index "port").text
  ssl := (email.index "ssl").asBool.getD false

def poolOf (pool : Yaml) : RedisPoolConfig where
  connectionTimeout := asU64 ((pool.index "connection_timeout").asI64.getD 0).1
  maxSize := asU32 ((pool.index "max_size").asI64.getD 0).1
  miniIdel := asU32 ((pool.index "mini_idel").asI64.getD 0).1

/-- A missing `redis` is no null, and gives a configuration of defaults. -/
def redisOf (redis : Yaml) : Option RedisConfig :=
  if redis.isNull then none
  else some {
    urls := match (redis.index "urls").asVec with
      | some s => s.filterMap Yaml.asStr
      | none => []
    database := (redis.index "database").asI64.getD 0
    username := (redis.index "username").asStr
    password := (redis.index "password").asStr
    instanceType := match (redis.index "instance-type").asStr with
      | some s => if s = "cluster".toList then some .cluster else some .single
      | none => some .single
    pool := poolOf (redis.index "pool") }

/-- The assignments at the end of `load_yaml`. -/
def assign (self : AppConfig) (doc : Yaml) : AppConfig :=
  { self with
    dbConf := databaseOf (doc.index "database")
    webserverConf := webserverOf (doc.index "webserver")
    emailConf := emailOf (doc.index "email")
    redisConf := redisOf (doc.index "redis")
    gatewayAddress := ((doc.index "registry").index "gateway_address").asStr
    appId := ((doc.index "registry").index "app_id").asStr
    appSecret := ((doc.index "registry").index "app_secret").asStr
    loggerLevel := logLevel (doc.index "log-level") }

theorem assign_eq (self other : AppConfig) (doc : Yaml) : self.assign doc = other.assign doc := rfl

end AppConfig

/-! ## The file -/

/-- A file as `File::open` and `read_to_string` find it: it cannot be opened, or reading it gives some
bytes before it ends or fails. -/
inductive ConfigFile where
  | missing
  | opened (bytes : Bytes)

/-- The string after `read_to_string`, which stays empty when the bytes are not UTF-8. -/
def readToString (bytes : Bytes) : Text := (fromUtf8 bytes).getD []

/-- `YamlLoader::load_from_str`; `none` is an error. -/
abbrev YamlLoader := Text → Option (List Yaml)

namespace AppConfig

variable (loadFromStr : YamlLoader)

/-- `load_yaml`; `none` is a panic. -/
def loadYaml (file : ConfigFile) (self : AppConfig) : Option AppConfig :=
  match file with
  | .missing => some self
  | .opened bytes =>
    -- both the `unwrap` of the documents and the index of the first one can panic
    (loadFromStr (readToString bytes)).bind fun docs => docs[0]?.map fun doc => self.assign doc

/-- `AppConfig::init`, on the mutex of the global configuration. -/
def init (file : ConfigFile) : Prog AppConfig Unit :=
  Prog.withLock do
    let self ← Prog.read
    let conf ← Prog.expect (loadYaml loadFromStr file self)
    Prog.modify fun _ => conf

variable {loadFromStr} {file : ConfigFile} {self : AppConfig}

/-- The first document of a file, if there is one. -/
def firstDoc (loadFromStr : YamlLoader) (bytes : Bytes) : Option Yaml :=
  (loadFromStr (readToString bytes)).bind fun docs => docs[0]?

theorem loadYaml_opened (bytes : Bytes) : loadYaml loadFromStr (.opened bytes) self =
    (firstDoc loadFromStr bytes).map fun doc => self.assign doc := by
  unfold loadYaml firstDoc
  rw [Option.map_bind]
  rfl

/-- **All or nothing.** Where the function returns, nothing is changed, or everything is. -/
theorem loadYaml_eq_some {conf : AppConfig} (h : loadYaml loadFromStr file self = some conf) :
    file = .missing ∧ conf = self ∨
      ∃ bytes doc, file = .opened bytes ∧ firstDoc loadFromStr bytes = some doc ∧
        conf = self.assign doc := by
  cases file with
  | missing => exact .inl ⟨rfl, (Option.some.inj h).symm⟩
  | opened bytes =>
    rw [loadYaml_opened] at h
    obtain ⟨doc, hdoc, rfl⟩ := Option.map_eq_some_iff.mp h
    exact .inr ⟨bytes, doc, rfl, hdoc, rfl⟩

/-- **The lock.** A return releases it, and a panic poisons it. -/
theorem init_free (conf : AppConfig) : init loadFromStr file (.free conf) =
    match loadYaml loadFromStr file conf with
    | some conf' => .returned () (.free conf')
    | none => .panicked ⟨false, true, conf⟩ := by
  unfold init
  rw [Prog.withLock_free, Prog.bind_returned (Prog.read_apply _)]
  cases loadYaml loadFromStr file conf with
  | none => rfl
  | some conf' => rfl

/-- The function returns, it changes nothing or all of the configuration to what the first document
says, and `init` leaves the lock free. -/
structure LoadsWell (loadFromStr : YamlLoader) (file : ConfigFile) : Prop where
  total : ∀ self, loadYaml loadFromStr file self ≠ none
  allOrNothing : ∀ self conf, loadYaml loadFromStr file self = some conf →
    conf = self ∨ ∃ bytes doc, file = .opened bytes ∧ firstDoc loadFromStr bytes = some doc ∧
      ∀ other : AppConfig, conf = other.assign doc
  unpoisoned : ∀ self, ∃ conf, init loadFromStr file (.free self) = .returned () (.free conf)

theorem firstDoc_eq_some_iff {bytes : Bytes} {doc : Yaml} : firstDoc loadFromStr bytes = some doc ↔
    ∃ docs, loadFromStr (readToString bytes) = some (doc :: docs) := by
  unfold firstDoc
  rw [Option.bind_eq_some_iff]
  constructor
  · rintro ⟨docs, hload, hdoc⟩
    cases docs with
    | nil => cases hdoc
    | cons d docs =>
      cases hdoc
      exact ⟨docs, hload⟩
  · rintro ⟨docs, hload⟩
    exact ⟨doc :: docs, hload, rfl⟩

theorem exists_loadYaml_iff : (∃ conf, loadYaml loadFromStr file self = some conf) ↔
    file = .missing ∨ ∃ bytes doc docs, file = .opened bytes ∧
      loadFromStr (readToString bytes) = some (doc :: docs) := by
  constructor
  · rintro ⟨conf, hconf⟩
    rcases loadYaml_eq_some hconf with ⟨hmissing, -⟩ | ⟨bytes, doc, hopened, hdoc, -⟩
    · exact .inl hmissing
    · obtain ⟨docs, hdocs⟩ := firstDoc_eq_some_iff.mp hdoc
      exact .inr ⟨bytes, doc, docs, hopened, hdocs⟩
  · rintro (rfl | ⟨bytes, doc, docs, rfl, hload⟩)
    · exact ⟨self, rfl⟩
    · refine ⟨self.assign doc, ?_⟩
      rw [loadYaml_opened, firstDoc_eq_some_iff.mpr ⟨docs, hload⟩, Option.map_some]

/-- **Files.** The function is safe for just the files that cannot be opened, and those of which the
string that was read has a first document. -/
theorem loadsWell_iff (loadFromStr : YamlLoader) (file : ConfigFile) : LoadsWell loadFromStr file ↔
    file = .missing ∨ ∃ bytes doc docs, file = .opened bytes ∧
      loadFromStr (readToString bytes) = some (doc :: docs) := by
  constructor
  · intro h
    exact exists_loadYaml_iff.mp (Option.ne_none_iff_exists'.mp (h.total initial))
  · intro h
    constructor
    · intro self
      exact Option.ne_none_iff_exists'.mpr (exists_loadYaml_iff.mpr h)
    · intro self conf hconf
      rcases loadYaml_eq_some hconf with ⟨-, hconf⟩ | ⟨bytes, doc, hopened, hdoc, rfl⟩
      · exact .inl hconf
      · exact .inr ⟨bytes, doc, hopened, hdoc, fun other => assign_eq self other doc⟩
    · intro self
      obtain ⟨conf, hconf⟩ := exists_loadYaml_iff.mpr h
      refine ⟨conf, ?_⟩
      rw [init_free, hconf]

/-- An empty file has no document: it brings the function down, and poisons the lock. -/
theorem not_loadsWell_empty :
    ¬ LoadsWell (fun text => if text = [] then some [] else none) (.opened []) := by
  intro h
  exact h.total initial rfl

end AppConfig

end ChimesUtils
