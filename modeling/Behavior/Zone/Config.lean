import Behavior.Yaml.Document
/-!
# Zone configurations

The settings of a zone, and their YAML form: a mapping in which every field may be left out and unknown
fields do not matter.
-/

namespace Behavior

namespace ZoneConfig

/-! ## Values of fields that are left out -/

def defaultName : String := "zone"

def defaultTickMillis : UInt64 := 100

def defaultParallel : Bool := true

def defaultMinShardLength : UInt64 := 16

end ZoneConfig

structure ZoneConfig where
  /-- The zone's name in the journal and to the agents in it. -/
  name : String := ZoneConfig.defaultName
  /-- The period of scheduled rounds, and the time that each of them adds. -/
  tickMillis : UInt64 := ZoneConfig.defaultTickMillis
  /-- How many threads share a round; zero leaves the choice open. -/
  workerThreads : UInt64 := 0
  /-- Whether a round is shared between threads at all. -/
  parallel : Bool := ZoneConfig.defaultParallel
  /-- The least number of agents that one thread takes over at once. -/
  minShardLength : UInt64 := ZoneConfig.defaultMinShardLength
  /-- Whether every round publishes snapshots. -/
  debug : Bool := false
  /-- The seed of every agent that enters the zone; without it each keeps its own. -/
  seed : Option UInt64 := none
  deriving DecidableEq, Repr, Inhabited

/-- Why there is no configuration. -/
inductive ConfigError where
  /-- The text cannot be had. -/
  | unreadable
  /-- The text is not the YAML form of a configuration. -/
  | malformed
  deriving DecidableEq, Repr

/-- How the message of an error begins. -/
def ConfigError.opening : ConfigError → String
  | unreadable => "failed to read config from "
  | malformed => "failed to parse zone config: "

namespace Yaml

/-- The number that the digits of a base write, if it is below `2 ^ 64`. -/
def digits64? (base : Nat) (cs : List Char) : Option UInt64 := do
  if cs.isEmpty then none
  let n ← cs.foldlM (fun n c => do
    let d ← Text.hexValue? c
    if d < base then some (base * n + d) else none) 0
  if n < UInt64.size then some (UInt64.ofNat n) else none

/-- Reads a natural number: decimal without a needless zero in front, or behind the mark of a base; a plus
sign may precede either. -/
def natural64? (cs : List Char) : Option UInt64 :=
  let unsigned := match cs with
    | '+' :: rest => rest
    | cs => cs
  match unsigned with
  | '0' :: 'x' :: rest => digits64? 16 rest
  | '0' :: 'o' :: rest => digits64? 8 rest
  | '0' :: 'b' :: rest => digits64? 2 rest
  | '0' :: _ :: _ => none
  | digits => digits64? 10 digits

/-- A natural number in a plain scalar. -/
def word64? : Yaml → Option UInt64
  | .plain s => natural64? s.toList
  | _ => none

def flag? : Yaml → Option Bool
  | .plain s =>
    if ["true", "True", "TRUE"].contains s then some true
    else if ["false", "False", "FALSE"].contains s then some false
    else none
  | _ => none

/-- Whether a plain scalar stands for nothing. -/
def isNull : Yaml → Bool
  | .plain s => ["", "~", "null", "Null", "NULL"].contains s
  | _ => false

/-- Something that may be absent. -/
def option? {α : Type} (read : Yaml → Option α) (v : Yaml) : Option (Option α) :=
  if v.isNull then some none else (read v).map some

/-- The fields of a mapping whose keys are texts; a document that holds nothing has none. -/
def fields? : Yaml → Option (List (String × Yaml))
  | .mapping fields => fields.mapM fun (k, v) => k.text?.map (·, v)
  | .plain "" => some []
  | _ => none

/-- The field of a name, which must not occur twice, or else what stands for it if it is left out. -/
def field? {α : Type} (fields : List (String × Yaml)) (name : String) (read : Yaml → Option α)
    (absent : α) : Option α :=
  match fields.filter (·.1 == name) with
  | [] => some absent
  | [(_, v)] => read v
  | _ => none

end Yaml

namespace ZoneConfig

/-- Reads the fields of a configuration. A field that is left out takes the value for it, if it has one of its
own, or else what it is in the configuration in which nothing is set. -/
def ofFields? (fields : List (String × Yaml)) : Option ZoneConfig := do
  let absent : ZoneConfig := {}
  return {
    name := ← Yaml.field? fields "name" Yaml.text? defaultName
    tickMillis := ← Yaml.field? fields "tick_millis" Yaml.word64? defaultTickMillis
    workerThreads := ← Yaml.field? fields "worker_threads" Yaml.word64? absent.workerThreads
    parallel := ← Yaml.field? fields "parallel" Yaml.flag? defaultParallel
    minShardLength := ← Yaml.field? fields "min_shard_len" Yaml.word64? defaultMinShardLength
    debug := ← Yaml.field? fields "debug" Yaml.flag? absent.debug
    seed := ← Yaml.field? fields "seed" (Yaml.option? Yaml.word64?) absent.seed }

/-- Reads a configuration from its YAML form. -/
def ofYaml (s : String) : Except ConfigError ZoneConfig :=
  match (Yaml.parse? s).bind Yaml.fields? |>.bind ofFields? with
  | some config => .ok config
  | none => .error .malformed

/-- Reads a configuration from the bytes of a file, if there is one. -/
def load (file : Option ByteArray) : Except ConfigError ZoneConfig :=
  match file.bind String.fromUTF8? with
  | some s => ofYaml s
  | none => .error .unreadable

end ZoneConfig

end Behavior
