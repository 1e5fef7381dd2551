import Monutchee.Lib.Act
import Monutchee.Lib.Json
import Monutchee.Lib.Sorted
import Mathlib.Data.List.DropRight
import Mathlib.Data.List.Lex

/-!
# Reading the system monitor (sysmon.cpp)

`IioMonitor::readSnapshot` looks through the IIO devices for AMS devices with the selected device
tree node and samples every voltage and temperature channel of them. Time stamps are left out.
-/

namespace Monutchee.Sysmon
open Monutchee.Lib

/-! ### Attributes (lines 19-67) -/

/-- What a path below a device leads to; `inaccessible` is an error of `stat` other than a missing
file, `broken` one while reading. -/
inductive Attribute where
  | absent | inaccessible | unreadable | broken
  | content (bytes : Text)
  deriving DecidableEq

def read : Attribute → Except Text Text
  | .content bytes =>
    if bytes.length ≤ 4096 then .ok (bytes.rdropWhile fun c => c = 10 || c = 13 || c = 32)
    else .error (text "attribute invalid or too large")
  | .broken => .error (text "attribute invalid or too large")
  | _ => .error (text "attribute unreadable")

def hasAttribute : Attribute → Except Text Bool
  | .absent => .ok false
  | .inaccessible => .error (text "attribute inaccessible")
  | _ => .ok true

/-- The arithmetic of `double`; `fromChars` takes the whole text or nothing. -/
structure Double (α : Type) where
  fromChars : Text → Option α
  zero : α
  add : α → α → α
  mul : α → α → α
  perThousand : α → α
  isPositive : α → Bool
  isFinite : α → Bool

/-- An OF node: its `compatible` file, and the canonical path of the node itself. -/
structure Node where
  compatible : Attribute
  canonical : Except Text Text

/-- A device directory: the files in it by name, its listing, `of_node` and `device/of_node`. -/
structure Device where
  file : Text → Attribute
  listing : Except Text (List Text)
  ofNode : Node
  parentNode : Node

/-- The strings in a property: each ends at a zero byte or at the end. -/
def propertyStrings (values : Text) : List Text :=
  let parts := values.splitOn 0
  if parts.getLast? = some [] then parts.dropLast else parts

def compatible (node : Node) (expected : Text) : Except Text Bool := do
  let values ← read node.compatible
  return expected ∈ propertyStrings values

/-! ### Channels (lines 68-148) -/

def domain (label : Text) : Text :=
  if (text "VCC_PS").isPrefixOf label || (text "PS_").isPrefixOf label || label = text "Temp_LPD" ||
    label = text "Temp_FPD" then text "PS"
  else if label ∈ [text "VCCINT", text "VCCAUX", text "VCCBRAM", text "VCCAMS", text "Temp_PL"] then text "PL"
  else text "unknown"

inductive Kind where
  | voltage | temp
  deriving DecidableEq

def Kind.name : Kind → Text
  | .voltage => text "voltage"
  | .temp => text "temp"

def isIndex (index : Text) : Bool := !index.isEmpty && index.all fun c => 48 ≤ c && c ≤ 57

def channelKind (channel : Text) : Option Kind :=
  [Kind.voltage, Kind.temp].find? fun kind =>
    (text "in_" ++ kind.name).isPrefixOf channel && isIndex (channel.drop (text "in_" ++ kind.name).length)

def suffixes : List Text := [text "_raw", text "_input", text "_label"]

/-- One entry of the directory. -/
def addChannels (channels : List (Text × Kind)) (name : Text) : List (Text × Kind) :=
  suffixes.foldl (fun channels suffix =>
    if suffix.isSuffixOf name then
      match channelKind (name.take (name.length - suffix.length)) with
      | some kind => emplace (name.take (name.length - suffix.length)) kind channels
      | none => channels
    else channels) channels

def enumerate (names : List Text) : Except Text (List (Text × Kind)) :=
  boundedFold addChannels List.length 256 (text "too many AMS channels") [] names

structure Reading (α : Type) where
  id : Text
  device : Text
  sourceChannel : Text
  label : Text
  domain : Text := text "unknown"
  kind : Text
  unit : Text
  value : Option α := none
  status : Text := text "unavailable"
  error : Text := []
  deriving DecidableEq

variable {α : Type}

def number (num : Double α) (file : Attribute) : Except Text α := do
  let chars ← read file
  match num.fromChars chars with
  | some value =>
    if num.isFinite value then return value else throw (text "invalid numeric attribute")
  | none => throw (text "invalid numeric attribute")

/-- The attribute of the channel, or the one that its kind shares. -/
def attributeOf (d : Device) (channel : Text) (kind : Kind) (suffix : Text) : Except Text Attribute := do
  if ← hasAttribute (d.file (channel ++ suffix)) then return d.file (channel ++ suffix)
  else return d.file (text "in_" ++ kind.name ++ suffix)

def labelOf (d : Device) (channel : Text) : Except Text Text := do
  if ← hasAttribute (d.file (channel ++ text "_label")) then
    let value ← read (d.file (channel ++ text "_label"))
    return if value.isEmpty then channel else value
  else return channel

def engineering (num : Double α) (d : Device) (channel : Text) (kind : Kind) : Except Text α := do
  if ← hasAttribute (d.file (channel ++ text "_input")) then
    number num (d.file (channel ++ text "_input"))
  else
    let raw ← number num (d.file (channel ++ text "_raw"))
    let scale ← number num (← attributeOf d channel kind (text "_scale"))
    let offsetFile ← attributeOf d channel kind (text "_offset")
    let offset ← if ← hasAttribute offsetFile then number num offsetFile else pure num.zero
    if !num.isPositive scale then throw (text "invalid channel scale")
    return num.mul (num.add raw offset) scale

/-- mV and millidegrees to V and degrees -/
def convert (num : Double α) (d : Device) (channel : Text) (kind : Kind) : Except Text α := do
  let value ← engineering num d channel kind
  if num.isFinite (num.perThousand value) then return num.perThousand value
  else throw (text "converted value overflow")

def sampleChannel (num : Double α) (d : Device) (identity : Text) (channel : Text × Kind) : Reading α :=
  let reading : Reading α :=
    { id := identity ++ text "/" ++ channel.1
      device := identity
      sourceChannel := channel.1
      label := channel.1
      kind := if channel.2 = .temp then text "temperature" else text "voltage"
      unit := if channel.2 = .temp then [0xC2, 0xB0, 0x43] else text "V" }
  match labelOf d channel.1 with
  | .error what => { reading with error := what }
  | .ok label =>
    match convert num d channel.1 channel.2 with
    | .error what => { reading with label := label, domain := Sysmon.domain label, error := what }
    | .ok value =>
      { reading with label := label, domain := Sysmon.domain label, value := some value, status := text "ok" }

def channelsOf (d : Device) : Except Text (List (Text × Kind)) := do
  let names ← d.listing
  enumerate names

/-- The readings so far stay when something is thrown. -/
abbrev Prog (α : Type) := Act (List (Reading α)) Text

def sampleDevice (num : Double α) (d : Device) (identity : Text) : Prog α Unit := do
  let channels ← Act.lift (channelsOf d)
  Act.each (fun channel => Act.modify fun readings => readings ++ [sampleChannel num d identity channel]) channels

/-! ### readSnapshot (lines 152-212) -/

structure Snapshot (α : Type) where
  status : Text
  error : Text
  readings : List (Reading α)
  deriving DecidableEq

structure Selector where
  compatible : Text
  deviceTreeNode : Text

def filename (path : Text) : Text := ((path.splitOn 47).getLast?).getD []

/-- The text behind the first occurrence. -/
def afterFirst (pattern : Text) : Text → Option Text
  | [] => none
  | c :: rest =>
    if pattern.isPrefixOf (c :: rest) then some ((c :: rest).drop pattern.length) else afterFirst pattern rest

/-- The OF identity, without what stands before the tree in sysfs. -/
def identity (canonical : Text) : Text := (afterFirst (text "/base/") canonical).getD (filename canonical)

/-- The identity of a device that is to be sampled; `none` is a `continue`. -/
def matched (sel : Selector) (d : Device) : Except Text (Option Text) :=
  match read (d.file (text "name")) with
  | .error _ => .ok none
  | .ok name =>
    if name ≠ text "xilinx-ams" then .ok none
    else do
      let own ← hasAttribute (d.file (text "of_node"))
      let node := if own then d.ofNode else d.parentNode
      let fits ← compatible node sel.compatible
      if !fits then return none
      let canonical ← node.canonical
      if sel.deviceTreeNode ≠ [] && filename canonical ≠ sel.deviceTreeNode then return none
      return some (identity canonical)

def visit (num : Double α) (sel : Selector) (d : Device) : Prog α Unit := do
  match ← Act.lift (matched sel d) with
  | none => pure ()
  | some identity => sampleDevice num d identity

def isDevice (name : Text) : Bool := (text "iio:device").isPrefixOf name

def addDevice (devices : List (Text × Device)) (entry : Text × Device) : List (Text × Device) :=
  if isDevice entry.1 then devices ++ [entry] else devices

def discover (num : Double α) (sel : Selector) (root : Except Text (List (Text × Device))) : Prog α Unit := do
  let entries ← Act.lift root
  let devices ← Act.lift (boundedFold addDevice List.length 64 (text "too many IIO devices") [] entries)
  Act.each (fun device => visit num sel device.2) (sortBy Prod.fst devices)

/-- The last lines of the `try` block. -/
def sorted (readings : List (Reading α)) : Snapshot α :=
  let readings := sortBy Reading.id readings
  if readings.isEmpty then ⟨text "unavailable", text "no matching AMS channels exposed", readings⟩
  else ⟨if readings.all fun r => r.value.isSome then text "ok" else text "partial", [], readings⟩

/-- The handler: the readings stay as they are. -/
def interrupted (readings : List (Reading α)) : Snapshot α :=
  ⟨if readings.isEmpty then text "unavailable" else text "partial",
    text "AMS discovery or channel enumeration failed", readings⟩

def readSnapshot (num : Double α) (sel : Selector) (root : Except Text (List (Text × Device))) : Snapshot α :=
  if sel.compatible ≠ text "xlnx,zynqmp-ams" then ⟨text "unsupported", text "unsupported SYSMON compatible", []⟩
  else
    match discover num sel root [] with
    | (.ret _, readings) => sorted readings
    | (_, readings) => interrupted readings

end Monutchee.Sysmon
