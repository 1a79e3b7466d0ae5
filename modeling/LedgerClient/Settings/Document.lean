/-
Settings as YAML documents.

A section is a map, or a list of the values of its first settings in order;
what it leaves out has its default. Keys that are not known are passed over,
and a known one may not be given twice.
-/
import LedgerClient.Settings.Basic
import LedgerClient.Settings.Substitution
import LedgerClient.Yaml.Parser

namespace LedgerClient.Settings

open Yaml

/-! ## Values -/

/-- A text may be written in any way, also as what would be a number elsewhere. -/
def text? : Tree → Option String
  | .scalar _ s => some s
  | _ => none

def optionalText? : Tree → Option (Option String)
  | .scalar plain s =>
    if plain ∧ s ∈ ["", "~", "null", "Null", "NULL"] then some none else some (some s)
  | _ => none

def bool? : Tree → Option Bool
  | .scalar true s =>
    if s ∈ ["true", "True", "TRUE"] then some true
    else if s ∈ ["false", "False", "FALSE"] then some false
    else none
  | _ => none

/-- The number that digits spell in a base. -/
def digits? (base : Nat) (cs : List Char) : Option Nat := do
  guard !cs.isEmpty
  let values ← cs.mapM Bytes.hexValue?
  guard (values.all (· < base))
  return values.foldl (fun n d => base * n + d) 0

/-- A number: in decimal without leading zeros, or in another base after `0x`, `0o` or `0b`. -/
def number? (s : String) : Option Nat :=
  let unsigned := match s.toList with
    | '+' :: cs => cs
    | cs => cs
  match unsigned with
  | '0' :: 'x' :: cs => digits? 16 cs
  | '0' :: 'o' :: cs => digits? 8 cs
  | '0' :: 'b' :: cs => digits? 2 cs
  | '0' :: _ :: _ => none
  | cs => digits? 10 cs

def uint64? : Tree → Option UInt64
  | .scalar true s => do
    let n ← number? s
    guard (n < UInt64.size)
    return n.toUInt64
  | _ => none

def texts? : Tree → Option (List String)
  | .list items => items.mapM text?
  | .scalar true "" => some []
  | _ => none

/-! ## Sections -/

/-- The values of the settings that a section gives, by key. -/
def section? (keys : List String) : Tree → Option (List (String × Tree))
  | .map entries => do
    let entries ← entries.mapM fun (key, value) => (text? key).map (·, value)
    let known := entries.filter fun (key, _) => key ∈ keys
    guard (known.map (·.1)).Nodup
    return known
  | .list items => do
    guard (items.length ≤ keys.length)
    return keys.zip items
  | .scalar true "" => some []
  | _ => none

/-- The value of a setting, or its default. -/
def setting? {α : Type} (entries : List (String × Tree)) (key : String) (read : Tree → Option α)
    (default : α) : Option α :=
  match entries.lookup key with
  | some n => read n
  | none => some default

/-- Puts a node into a table that is sorted by name, in place of one of the same name. -/
def insert {α : Type} (name : String) (x : α) : List (String × α) → List (String × α)
  | [] => [(name, x)]
  | (other, y) :: rest =>
    if name = other then (name, x) :: rest
    else if name < other then (name, x) :: (other, y) :: rest
    else (other, y) :: insert name x rest

/-- A table of names; the last node of a name counts. -/
def table? {α : Type} (read : Tree → Option α) : Tree → Option (List (String × α))
  | .map entries => do
    let entries ← entries.mapM fun (key, value) => do return (← text? key, ← read value)
    return entries.foldl (fun table (name, x) => insert name x table) []
  | .scalar true "" => some []
  | _ => none

def crypto? (n : Tree) : Option CryptoSettings := do
  let e ← section? ["family", "algorithm", "hash"] n
  let d : CryptoSettings := {}
  return {
    family := ← setting? e "family" text? d.family
    algorithm := ← setting? e "algorithm" text? d.algorithm
    hash := ← setting? e "hash" text? d.hash }

def node? (n : Tree) : Option NodeSettings := do
  let e ← section? ["url", "org_name", "use_tls", "tls_ca_pem", "domain_name"] n
  return {
    url := ← setting? e "url" text? ""
    organization := ← setting? e "org_name" text? ""
    useTls := ← setting? e "use_tls" bool? false
    authorityPem := ← setting? e "tls_ca_pem" optionalText? none
    serverName := ← setting? e "domain_name" optionalText? none }

def endorsers? (n : Tree) : Option EndorserSettings := do
  let e ← section? ["orgs", "rule"] n
  return {
    organizations := ← setting? e "orgs" texts? []
    rule := ← setting? e "rule" text? "" }

def channel? (n : Tree) : Option ChannelSettings := do
  let e ← section? ["channel_id", "chaincode_name", "chaincode_version", "chaincode_policy"] n
  return {
    channelId := ← setting? e "channel_id" text? ""
    chaincodeName := ← setting? e "chaincode_name" text? ""
    chaincodeVersion := ← setting? e "chaincode_version" text? ""
    endorsers := ← setting? e "chaincode_policy" endorsers? {} }

def timeouts? (n : Tree) : Option Timeouts := do
  let e ← section? ["connect_secs", "request_secs", "deliver_secs", "keepalive_interval_secs",
    "keepalive_timeout_secs"] n
  let d : Timeouts := {}
  return {
    connect := ← setting? e "connect_secs" uint64? d.connect
    request := ← setting? e "request_secs" uint64? d.request
    deliver := ← setting? e "deliver_secs" uint64? d.deliver
    keepaliveInterval := ← setting? e "keepalive_interval_secs" uint64? d.keepaliveInterval
    keepaliveTimeout := ← setting? e "keepalive_timeout_secs" uint64? d.keepaliveTimeout }

def log? (n : Tree) : Option LogSettings := do
  let e ← section? ["level", "format"] n
  let d : LogSettings := {}
  return {
    level := ← setting? e "level" text? d.level
    format := ← setting? e "format" text? d.format }

/-- The settings that a document holds. -/
def ofTree? (n : Tree) : Option Settings := do
  let e ← section?
    ["crypto", "peers", "event_peers", "orderers", "channel", "timeouts", "log"] n
  return {
    crypto := ← setting? e "crypto" crypto? {}
    peers := ← setting? e "peers" (table? node?) []
    eventPeers := ← setting? e "event_peers" (table? node?) []
    orderers := ← setting? e "orderers" (table? node?) []
    channel := ← setting? e "channel" channel? {}
    timeouts := ← setting? e "timeouts" timeouts? {}
    log := ← setting? e "log" log? {} }

/-- The settings in a text, in which variables are replaced first. -/
def parse (value? : String → Option String) (yaml : String) : Except ConfigError Settings :=
  match (Yaml.parse? (substitute value? yaml)).bind ofTree? with
  | some s => .ok s
  | none => .error .malformed

end LedgerClient.Settings
