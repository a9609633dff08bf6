import QModem.Lib.CMemory

/-!
# Configuration of the Uplink Manager

`up_config` of `balance.sh` with the functions it calls: the checks on texts, `up_member`, `up_ids`
and `up_rule`.

Shell variables hold texts.  A command substitution that fails leaves the variable empty, and a
function that returns early leaves all variables as they are then.  `Manager` holds the variables of
the manager and its files; `Load` is a piece of `up_config`.

The signature of a configuration is taken as the configuration itself.
-/

namespace QModem.Uplink

open Lib

abbrev Text := List UInt8

/-! ## Checks on texts -/

def number (text : Text) : ℕ := text.foldl (fun value c => 10 * value + digitValue c) 0

/-- `up_uint` -/
def upUint (text : Text) (low high : ℕ) : Bool :=
  text ≠ [] && text.all isdigit && !(text.head? = some 48 && 1 < text.length) &&
    low ≤ number text && number text ≤ high

/-- `up_name` -/
def upName (text : Text) : Bool :=
  text ≠ [] && text.all fun c =>
    isdigit c || (65 ≤ c && c ≤ 90) || (97 ≤ c && c ≤ 122) || c = 95

/-- `up_ipv4`: `awk` sees every line. -/
def upIpv4 (text : Text) : Bool :=
  (text.splitOn 10).all fun line =>
    let fields := line.splitOn 46
    fields.length = 4 && fields.all fun field => field ≠ [] && field.all isdigit && number field ≤ 255

/-- `${1%/*}` -/
def beforeSlash (text : Text) : Text :=
  if 47 ∈ text then ((text.reverse.dropWhile (· ≠ 47)).drop 1).reverse else text

/-- `${1#*/}` -/
def afterSlash (text : Text) : Text :=
  if 47 ∈ text then (text.dropWhile (· ≠ 47)).drop 1 else text

/-- `up_cidr` -/
def upCidr (text : Text) : Bool :=
  upIpv4 (beforeSlash text) && (beforeSlash text = afterSlash text || upUint (afterSlash text) 0 32)

/-- `up_num`: the value of an option or the default, unless it is out of range. -/
def upNum (value : Option Text) (default : Text) (low high : ℕ) : Option Text :=
  let val := if value.getD [] ≠ [] then value.getD [] else default
  if upUint val low high then some val else none

/-! ## Sections -/

/-- A section `member`; options that are not set are `none`. -/
structure MemberSection where
  kind : Option Text
  target : Option Text
  priority : Option Text
  enabled : Option Text
  weight : Option Text
  deriving DecidableEq

/-- A section `rule` -/
structure RuleSection where
  enabled : Option Text
  src : Option Text
  dest : Option Text
  proto : Option Text
  srcPort : Option Text
  destPort : Option Text
  target : Option Text
  deriving DecidableEq

/-- The package `qmodem_uplink`, without the option `enabled` of the section `main`. -/
structure Config where
  mode : Option Text
  interval : Option Text
  timeout : Option Text
  failThreshold : Option Text
  recoverThreshold : Option Text
  stableSeconds : Option Text
  targets : Text
  members : List MemberSection
  rules : List RuleSection
  deriving DecidableEq

inductive Kind where
  | wired
  | modem
  deriving DecidableEq

/-- A member of the list `members`; `markId` is zero until `up_ids` has set it. -/
structure Member where
  id : Text
  kind : Kind
  target : Text
  priority : ℕ
  weight : ℕ
  enabled : Bool
  markId : ℕ
  deriving DecidableEq

/-- `up_member`, unless it sets `config_error` -/
def upMember (s : MemberSection) : Option Member :=
  let id := s.target.getD []
  let priority := s.priority.getD (ascii "100")
  let weight := s.weight.getD (ascii "1")
  let enabled := s.enabled.getD (ascii "1")
  let kind : Option Kind :=
    if s.kind = some (ascii "wired") then some .wired
    else if s.kind = some (ascii "modem") then some .modem
    else none
  if !upName id || !upUint priority 1 65535 || !upUint weight 1 255 then none
  else if enabled ≠ ascii "0" && enabled ≠ ascii "1" then none
  else
    kind.map fun kind =>
      { id := (match kind with | .wired => ascii "wired:" | .modem => ascii "modem:") ++ id
        kind, target := id, priority := number priority, weight := number weight
        enabled := enabled = ascii "1", markId := 0 }

/-- The order of `sort_by(.priority,.id)` -/
def Member.NotAfter (a b : Member) : Prop :=
  a.priority < b.priority ∨ a.priority = b.priority ∧ a.id ≤ b.id

instance : DecidableRel Member.NotAfter := fun a b =>
  inferInstanceAs (Decidable (a.priority < b.priority ∨ _))

inductive Proto where
  | all
  | tcp
  | udp
  | icmp
  deriving DecidableEq

/-- A line of the rule file: what it matches and the mark it sets. -/
structure Rule where
  src : Option Text
  dest : Option Text
  proto : Proto
  sport : Option ℕ
  dport : Option ℕ
  mark : ℕ
  deriving DecidableEq

/-- An option that may be empty, but not wrong. -/
def optional (value : Option Text) (valid : Text → Bool) : Option (Option Text) :=
  if value.getD [] = [] then some none
  else if valid (value.getD []) then some (some (value.getD []))
  else none

def parseProto (text : Text) : Option Proto :=
  if text = ascii "all" then some .all
  else if text = ascii "tcp" then some .tcp
  else if text = ascii "udp" then some .udp
  else if text = ascii "icmp" then some .icmp
  else none

/-- The rule of a section that is enabled, unless `up_rule` fails. -/
def enabledRule (members : List Member) (s : RuleSection) : Option Rule := do
  let member ← members.find? fun member => member.id = s.target.getD []
  let src ← optional s.src upCidr
  let dest ← optional s.dest upCidr
  let proto ← parseProto (s.proto.getD (ascii "all"))
  if (proto = .all ∨ proto = .icmp) ∧ ¬ (s.srcPort.getD [] = [] ∧ s.destPort.getD [] = []) then none
  else
    let sport ← optional s.srcPort (upUint · 1 65535)
    let dport ← optional s.destPort (upUint · 1 65535)
    return ⟨src, dest, proto, sport.map number, dport.map number, member.markId⟩

/-- `up_rule`: the lines it writes, unless it fails. -/
def upRule (members : List Member) (s : RuleSection) : Option (List Rule) :=
  if s.enabled.getD (ascii "1") ≠ ascii "1" then some []
  else (enabledRule members s).map ([·])

/-- All lines of the rule file. -/
def upRules (members : List Member) (sections : List RuleSection) : Option (List Rule) :=
  (sections.mapM (upRule members)).map List.flatten

/-! ## Numbers of the members -/

/-- The file `ids.json`: it is not there, an object of names and whole numbers, or something else.
-/
inductive IdsFile where
  | absent
  | object (entries : List (Text × ℕ))
  | other
  deriving DecidableEq

/-- What `conntrack` says: whether it works, and which numbers are in use. -/
structure Conntrack where
  works : Bool
  live : ℕ → Bool

/-- The entries of the file, if they are numbers from 1 to 64 and no two are the same. -/
def IdsFile.entries : IdsFile → Option (List (Text × ℕ))
  | .absent => some []
  | .object entries =>
    if (entries.all fun e => 1 ≤ e.2 && e.2 ≤ 64) && (entries.map Prod.snd).Nodup then some entries
    else none
  | .other => none

/-- The first number that is not taken. -/
def freeId (live : ℕ → Bool) (previous records : List (Text × ℕ)) : Option ℕ :=
  (List.range' 1 64).find? fun n =>
    !(previous.any (·.2 = n)) && !(records.any (·.2 = n)) && !live n

/-- The loop of `up_ids` over the members. -/
def assignIds (live : ℕ → Bool) (previous : List (Text × ℕ)) :
    List Text → List (Text × ℕ) → Option (List (Text × ℕ))
  | [], records => some records
  | key :: keys, records => do
    let n ← match previous.find? (·.1 = key) with
      | some e => some e.2
      | none => freeId live previous records
    assignIds live previous keys (records ++ [(key, n)])

def idOf (records : List (Text × ℕ)) (id : Text) : ℕ :=
  ((records.find? (·.1 = id)).map Prod.snd).getD 0

/-! ## The manager -/

/-- The variables that a configuration sets. -/
structure Parameters where
  /-- `UP_MODE` -/
  mode : Text
  interval : Text
  timeout : Text
  fail : Text
  recover : Text
  stable : Text
  targets : Text
  members : List Member
  deriving DecidableEq

/-- The variables and files of the manager.  `generation` is `config_generation`, which is not set
before a configuration has been accepted. -/
structure Manager where
  parameters : Parameters
  rules : List Rule
  memberFile : List Member
  ids : IdsFile
  generation : Option Config
  deriving DecidableEq

/-- A piece of `up_config`: the manager afterwards, and whether it goes on. -/
abbrev Load := Manager → Manager × Bool

/-- One piece after the other, as long as none fails. -/
def Load.andThen (f g : Load) : Load := fun m =>
  let r := f m
  if r.2 then g r.1 else r

/-- `VARIABLE=$(up_num ...) || return 1` -/
def assignNumber (set : Parameters → Text → Parameters) (value : Option Text) (default : Text)
    (low high : ℕ) : Load := fun m =>
  let result := upNum value default low high
  ({ m with parameters := set m.parameters (result.getD []) }, result.isSome)

namespace Load

variable (tracker : Conntrack) (c : Config)

def interval : Load :=
  assignNumber (fun p v => { p with interval := v }) c.interval (ascii "10") 1 300

def timeout : Load :=
  assignNumber (fun p v => { p with timeout := v }) c.timeout (ascii "2") 1 10

def fail : Load :=
  assignNumber (fun p v => { p with fail := v }) c.failThreshold (ascii "3") 1 30

def recover : Load :=
  assignNumber (fun p v => { p with recover := v }) c.recoverThreshold (ascii "3") 1 30

def stable : Load :=
  assignNumber (fun p v => { p with stable := v }) c.stableSeconds (ascii "60") 0 3600

/-- `UP_TARGETS` and the checks on it -/
def targets : Load := fun m =>
  let words := tokens [32, 9, 10] c.targets
  ({ m with parameters := { m.parameters with targets := c.targets } },
    c.targets ≠ [] && words.length ≤ 4 && words.all upIpv4)

/-- `UP_MODE` and the check on it -/
def mode : Load := fun m =>
  let mode := c.mode.getD (ascii "failover")
  ({ m with parameters := { m.parameters with mode } },
    mode = ascii "balance" || mode = ascii "failover")

/-- The members: each section that is right adds one, then they are sorted and checked. -/
def members : Load := fun m =>
  let found := c.members.filterMap upMember
  if (c.members.mapM upMember).isNone then
    ({ m with parameters := { m.parameters with members := found } }, false)
  else
    let sorted := found.insertionSort Member.NotAfter
    ({ m with parameters := { m.parameters with members := sorted } },
      sorted.length ≤ 64 && (sorted.map Member.id).Nodup)

/-- `up_ids` -/
def ids : Load := fun m =>
  match m.ids.entries with
  | none => (m, false)
  | some entries =>
    if !tracker.works then (m, false)
    else
      let keys := m.parameters.members.map Member.id
      let previous := entries.filter fun e => keys.contains e.1
      match assignIds tracker.live previous keys [] with
      | none => (m, false)
      | some records =>
        ({ m with
            ids := .object records
            parameters := { m.parameters with
              members := m.parameters.members.map fun x => { x with markId := idOf records x.id } } },
          true)

/-- The rules, and the files when they are right. -/
def install : Load := fun m =>
  match upRules m.parameters.members c.rules with
  | none => (m, false)
  | some rules => ({ m with rules, memberFile := m.parameters.members, generation := some c }, true)

end Load

/-- `up_config` -/
def upConfig (tracker : Conntrack) (c : Config) : Load := fun m =>
  if m.generation = some c then (m, true)
  else
    ((Load.interval c).andThen <| (Load.timeout c).andThen <| (Load.fail c).andThen <|
      (Load.recover c).andThen <| (Load.stable c).andThen <| (Load.targets c).andThen <|
      (Load.mode c).andThen <| (Load.members c).andThen <| (Load.ids tracker).andThen <|
      Load.install c) m

end QModem.Uplink
