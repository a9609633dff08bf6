import QModem.Lib.PolicyRouting
import QModem.Lib.Spans
import QModem.Uplink.Accepted

/-!
# Published Policies

`up_nft_publish` of `balance.sh`: the choice of members, the table `qmodem_uplink` and the routes
and rules of the members, with `up_policy_init` and `up_route_default` of `core.sh`.

Byte 2 of a mark carries the number of a member, or 255 for a connection that is denied.  A policy
is what a round of the manager publishes: the members with what the round has found out about them,
the lines of the rule file, and the main routing table of that moment.  Only publications of which
all commands succeed are looked at.
-/

namespace QModem.Uplink

open Lib Nft PolicyRouting

/-! ## Marks -/

/-- `UP_MASK` -/
def upMask : BitVec 32 := 0x00ff0000

/-- `$((id<<16))` -/
def shifted (id : ℕ) : BitVec 32 := BitVec.ofNat 32 (id <<< 16)

/-- The numbers that have a chain: those of members, and 255. -/
def chainIds : List ℕ := List.range' 1 64 ++ [255]

inductive Chain where
  | pre
  | out
  | classify
  | restore
  | mark (id : ℕ)
  deriving DecidableEq

abbrev NftRule := Nft.Rule Chain Text

/-! ## Policies -/

/-- A row of `result`: a member and what the round has found out about it. -/
structure Row where
  member : Member
  device : Text
  address : Text
  gateway : Text
  generation : Text
  ifindex : Text
  healthy : Bool
  deriving DecidableEq

/-- A route of the main table.  The destination `default` is `none`, and so is a missing device. -/
structure MainRoute where
  dst : Option Text
  dev : Option Text

/-- What a round publishes.  Rows and rules come from files that `up_config` has written. -/
structure Policy where
  mode : Text
  result : List Row
  rules : List Rule
  main : List MainRoute
  accepted : Accepted (result.map Row.member)
  targets : ∀ r ∈ rules, 1 ≤ r.mark ∧ r.mark ≤ 64

/-- What a round finds out about a member -/
structure Finding where
  device : Text
  address : Text
  gateway : Text
  generation : Text
  ifindex : Text
  healthy : Bool

/-- The policy of a round: a row for each line of the member file, in its order. -/
def Policy.ofRound (m : Manager) (hm : Usable m) (hset : m.generation ≠ none)
    (found : Member → Finding) (main : List MainRoute) : Policy where
  mode := m.parameters.mode
  result := m.memberFile.map fun x =>
    let f := found x
    ⟨x, f.device, f.address, f.gateway, f.generation, f.ifindex, f.healthy⟩
  rules := m.rules
  main := main
  accepted := by
    rw [List.map_map]
    exact (List.map_id m.memberFile).symm ▸ (hm hset).1
  targets r hr := by
    obtain ⟨x, hx, heq⟩ := (hm hset).2 r hr
    exact heq ▸ (hm hset).1.markIds x hx

/-- An address and a prefix length, or an address alone -/
def prefixOf (text : Text) : Prefix where
  addr := ((beforeSlash text).splitOn 46).foldl
    (fun a field => a <<< 8 ||| BitVec.ofNat 32 (number field)) 0
  len := if 47 ∈ text then number (afterSlash text) else 32

/-- `unique` of `jq` -/
def unique (texts : List Text) : List Text := (texts.insertionSort (· ≤ ·)).dedup

namespace Policy

variable (p : Policy)

/-- `all_devices` -/
def allDevices : List Text := unique ((p.result.map Row.device).filter (· ≠ []))

/-- The routes of the main table that do not leave through a member -/
def lanRoutes : List (Text × Text) :=
  p.main.filterMap fun r =>
    match r.dst, r.dev with
    | some dst, some dev =>
      if dev ≠ ascii "lo" && !p.allDevices.contains dev then some (dst, dev) else none
    | _, _ => none

/-- `lan_devices` -/
def lanDevices : List Text := unique (p.lanRoutes.map Prod.snd)

def bypass : List Text := unique (p.lanRoutes.map Prod.fst)

/-- `selected` -/
def selected : List Row :=
  match p.result.filter fun row => row.healthy && row.member.enabled with
  | [] => []
  | first :: rest =>
    if p.mode = ascii "failover" then [first]
    else (first :: rest).filter fun row => row.member.priority = first.member.priority

/-- `map`: intervals of numbers, and where they lead -/
def verdicts : List ((ℕ × ℕ) × Verdict Chain) :=
  (spans (·.member.weight) 0 p.selected).map fun e => (e.1, .jump (.mark e.2.member.markId))

/-- `total` -/
def total : ℕ := totalWeight (·.member.weight) p.selected

end Policy

/-! ## The table -/

/-- `meta l4proto` or `ip protocol` -/
def Proto.tests : Proto → List (Test Text)
  | .all => []
  | .tcp => [.l4proto 6]
  | .udp => [.l4proto 17]
  | .icmp => [.l4proto 1]

/-- The tests of a line that `up_rule` writes -/
def Rule.tests (r : Rule) : List (Test Text) :=
  .ctMarkClear upMask ::
    List.flatten
      [(r.src.map fun src => .saddr (prefixOf src)).toList,
        (r.dest.map fun dest => .daddr [prefixOf dest]).toList,
        r.proto.tests, (r.sport.map .sport).toList, (r.dport.map .dport).toList]

def Rule.line (r : Rule) : NftRule := markIf 0xff00ffff (shifted r.mark) r.tests

def markChain (id : ℕ) : List NftRule :=
  [[.setCtMark 0xff00ffff (shifted id), .setPacketMark 0xff00ffff (shifted id), .verdict .ret]]

def restoreChain : List NftRule :=
  [[.ctMarkVmap upMask (chainIds.map fun id => (shifted id, .goto (.mark id)))]]

namespace Policy

variable (p : Policy)

/-- Destinations in the local network need no mark. -/
def bypassing : List NftRule :=
  if p.bypass ≠ [] then
    [[.test (.daddr (p.bypass.map prefixOf)), .setPacketMark 0xff00ffff 0, .verdict .ret]]
  else []

/-- What chains `pre` and `out` have in common -/
def restoring : List NftRule :=
  [.test .fibDaddrTypeLocal, .verdict .ret] :: (p.bypassing ++
    [[.test (.ctMarkSet upMask), .verdict (.jump .restore)],
      [.test (.ctMarkSet upMask), .verdict .ret]])

/-- Connections that come in through a member stay with it. -/
def incoming (row : Row) : NftRule :=
  markIf 0xff00ffff (shifted row.member.markId)
    [.iifname row.device, .ctDirectionOriginal, .ctMarkClear upMask]

def preChain : List NftRule :=
  (p.result.filter (·.device ≠ [])).map incoming ++ (p.restoring ++
    p.lanDevices.map fun dev => [.test (.iifname dev), .verdict (.jump .classify)])

/-- Where connections go that no rule matches -/
def spread : NftRule :=
  if 0 < p.total then [.test (.ctMarkClear upMask), .numgenVmap p.total p.verdicts]
  else markIf 0xff00ffff 0x00ff0000 [.ctMarkClear upMask]

def classifyChain : List NftRule :=
  p.rules.map Rule.line ++ [p.spread, [.verdict (.jump .restore)]]

/-- The table `qmodem_uplink` -/
def table : Chain → List NftRule
  | .pre => p.preChain
  | .out => p.restoring
  | .classify => p.classifyChain
  | .restore => restoreChain
  | .mark id => if id ∈ chainIds then markChain id else []

/-- The chain `pre` for a packet that comes in -/
def prerouting (packet : Packet Text) (m : Marks) : Option Marks := evalChain packet p.table 16 .pre m

end Policy

/-! ## Routes -/

inductive Route where
  | unreachable
  | via (gateway : Option Text) (device src : Text)
  deriving DecidableEq

/-- `up_route_default` -/
def upRouteDefault (device address gateway : Text) : Route :=
  if gateway ≠ [] ∧ gateway ≠ ascii "0.0.0.0" then .via (some gateway) device address
  else .via none device address

def flowTable (id : ℕ) : ℕ := 31200 + id - 1

def flowRule (id : ℕ) : IpRule := ⟨31000 + id - 1, shifted id, upMask, flowTable id, false⟩

def denyRule : IpRule := ⟨31064, 0x00ff0000, 0x00ff0000, 31264, false⟩

/-- What a member had when its connections were made -/
structure Identity where
  device : Text
  address : Text
  generation : Text
  ifindex : Text
  deriving DecidableEq

def Row.identity (row : Row) : Identity := ⟨row.device, row.address, row.generation, row.ifindex⟩

/-- Rules and tables of the kernel, and the file `sessions.json`.  The rule for local addresses,
which comes first, is left out. -/
structure Router where
  rules : List IpRule
  tables : ℕ → List (RouteEntry Route)
  sessions : List (ℕ × Identity)

namespace Router

def replaceRoute (r : Router) (table : ℕ) (e : RouteEntry Route) : Router :=
  { r with tables := Function.update r.tables table (replace (r.tables table) e) }

def unreachableDefault : RouteEntry Route := ⟨anywhere, 32767, .unreachable⟩

/-- Before the manager is started; tables that are not the manager's hold anything. -/
def bare (others : ℕ → List (RouteEntry Route)) : Router where
  rules := [⟨32766, 0, 0, 254, false⟩, ⟨32767, 0, 0, 253, false⟩]
  tables t := if 31099 ≤ t ∧ t ≤ 31264 then [] else others t
  sessions := []

/-- `up_policy_init` -/
def upPolicyInit (r : Router) : Router :=
  let r := (r.replaceRoute 31099 unreachableDefault).replaceRoute 31264 unreachableDefault
  { r with
    rules := addRule (addRule (addRule r.rules denyRule) ⟨31100, 0, 0, 254, true⟩)
      ⟨31101, 0, 0, 31099, false⟩ }

/-- Routes and rule of one member -/
def prepare (r : Router) (row : Row) : Router :=
  let table := flowTable row.member.markId
  let r := r.replaceRoute table unreachableDefault
  let r :=
    if row.healthy then
      r.replaceRoute table ⟨anywhere, 1, upRouteDefault row.device row.address row.gateway⟩
    else { r with tables := Function.update r.tables table (deleteDefault (r.tables table) 1) }
  { r with rules := addRule r.rules (flowRule row.member.markId) }

/-- One turn of the loop over healthy members: the sessions, and the numbers whose connections have
been deleted. -/
def session (acc : List (ℕ × Identity) × List ℕ) (row : Row) : List (ℕ × Identity) × List ℕ :=
  let id := row.member.markId
  let changed := (acc.1.find? (·.1 = id)).any (·.2 ≠ row.identity)
  ((id, row.identity) :: acc.1.filter (·.1 ≠ id), if changed then id :: acc.2 else acc.2)

/-- `up_nft_publish`: the router afterwards, and the numbers whose connections have been deleted. -/
def upNftPublish (r : Router) (p : Policy) : Router × List ℕ :=
  let r := p.result.foldl prepare r
  let (sessions, deleted) := (p.result.filter (·.healthy)).foldl session (r.sessions, [])
  ({ r with sessions }, deleted)

/-- Where a packet with this mark goes -/
def forward (r : Router) (mark daddr : BitVec 32) : Option (ℕ × Route) :=
  route r.tables mark daddr r.rules

end Router

end QModem.Uplink
