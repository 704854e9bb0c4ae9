import Mathlib.Algebra.Group.Nat.Defs
import Mathlib.Data.List.Sort
import Mathlib.Logic.Function.Basic
import Perpetual.Checked
import Perpetual.InsertionMap

/-! `WebsocketService`: the subscriptions of all clients by request id, and what it sends of an
event. The initial response to a subscription reads the database and neither of the maps. -/
namespace Perpetual

inductive Json where
  | null
  | boolean (b : Bool)
  | number (text : String)
  | string (s : String)
  | array (items : List Json)
  | object (fields : List (String × Json))

namespace Json

def property (name : String) : Json → Option Json
  | .object fields => (fields.find? fun field => field.1 = name).map Prod.snd
  | _ => none

/-- A property of a copy. Copying a property `__proto__` sets the prototype of the copy. -/
def copied (name : String) (json : Json) : Option Json :=
  (json.property name).or ((json.property "__proto__").bind (property name))

def isString (s : String) : Option Json → Bool
  | some (.string s') => s' = s
  | _ => false

def truthy : Option Json → Bool
  | none => false
  | some .null => false
  | some (.boolean b) => b
  | some (.number text) => text ≠ "0"
  | some (.string s) => s ≠ ""
  | some (.array _) => true
  | some (.object _) => true

mutual

def text : Json → Checked String
  | .null => .ok "null"
  | .boolean b => .ok (if b then "true" else "false")
  | .number text => .ok text
  | .string s => .ok s
  | .array items => join items
  | .object fields =>
      if fields.any fun field => field.1 = "toString" then
        .error "Cannot convert object to primitive value"
      else .ok "[object Object]"

def join : List Json → Checked String
  | [] => .ok ""
  | item::rest => do
      let first ← text item
      let first := match item with
        | .null => ""
        | _ => first
      let later ← join rest
      return first ++ (if rest.isEmpty then "" else ",") ++ later

end

end Json

/-- A key of a `Map`. An array or an object is only ever equal to itself, so it is known by the
message that it came with. -/
inductive RequestId where
  | undefined
  | null
  | boolean (b : Bool)
  | number (text : String)
  | string (s : String)
  | reference (message : Nat) (text : Checked String)
  deriving DecidableEq

namespace RequestId

def ofJson (message : Nat) : Option Json → RequestId
  | none => .undefined
  | some .null => .null
  | some (.boolean b) => .boolean b
  | some (.number text) => .number text
  | some (.string s) => .string s
  | some (.array items) => .reference message (Json.text (.array items))
  | some (.object fields) => .reference message (Json.text (.object fields))

def propertyName : RequestId → Checked String
  | .undefined => .ok "undefined"
  | .null => .ok "null"
  | .boolean b => .ok (if b then "true" else "false")
  | .number text => .ok text
  | .string s => .ok s
  | .reference _ text => text

end RequestId

structure SubscriptionOpts where
  channel : Option Json
  taker : Option Json
  maker : Option Json
  trader : Option Json

namespace MessageChannels

def Orders : String := "orders"

def TradeHistory : String := "trades"

end MessageChannels

inductive EventType where
  | Order
  | TradeRecord
  deriving DecidableEq, Repr

structure Event where
  type : EventType
  maker : String
  taker : String
  deriving DecidableEq, Repr

inductive ReadyState where
  | CONNECTING
  | OPEN
  | CLOSING
  | CLOSED
  deriving DecidableEq, Repr

structure WebsocketService (ι : Type) where
  readyState : ι → ReadyState
  clients : List ι
  requestIds : ι → List RequestId
  requestIdToSocket : InsertionMap RequestId ι
  requestIdToSubscriptionOpts : InsertionMap RequestId SubscriptionOpts
  messages : Nat

inductive ClientAction (ι : Type) where
  | connection (ws : ι)
  | message (ws : ι) (data : Option Json)
  | ending (ws : ι)
  | close (ws : ι)

def ClientAction.client {ι : Type} : ClientAction ι → ι
  | .connection ws => ws
  | .message ws _ => ws
  | .ending ws => ws
  | .close ws => ws

namespace WebsocketService
variable {ι : Type}

section
variable (lower : String → String)

def excludes (name : String) (filter : Option Json) (accounts : List String) : Checked Bool :=
  if Json.truthy filter then
    match filter with
    | some (.string account) => .ok (decide (lower account ∉ accounts.map lower))
    | _ => .error (name ++ ".toLowerCase is not a function")
  else .ok false

def matchesSubscription (channel : String) (event : Event) (opts : SubscriptionOpts) : Checked Bool :=
  if Json.isString channel opts.channel then do
    let taker ← excludes lower "opts.taker" opts.taker [event.taker]
    if taker then return false
    else
      let maker ← excludes lower "opts.maker" opts.maker [event.maker]
      if maker then return false
      else
        let trader ← excludes lower "opts.trader" opts.trader [event.maker,event.taker]
        return !trader
  else .ok false

def matchesOrdersChannelSubscription : Event → SubscriptionOpts → Checked Bool :=
  matchesSubscription lower MessageChannels.Orders

def matchesTradesHistoryChannelSubscription : Event → SubscriptionOpts → Checked Bool :=
  matchesSubscription lower MessageChannels.TradeHistory

end

def inheritedNames : List String :=
  ["constructor","__defineGetter__","__defineSetter__","hasOwnProperty","__lookupGetter__",
    "__lookupSetter__","isPrototypeOf","propertyIsEnumerable","toString","valueOf","__proto__",
    "toLocaleString"]

def collect (set : String) (isMatch : SubscriptionOpts → Checked Bool) :
    List (RequestId × SubscriptionOpts) → List String → Checked (List String)
  | [],names => .ok names
  | (requestId,opts)::rest,names => do
      let found ← isMatch opts
      if found then
        let name ← requestId.propertyName
        Checked.require (name ∉ inheritedNames) (set ++ ".add is not a function")
        collect set isMatch rest (if name ∈ names then names else names ++ [name])
      else collect set isMatch rest names

def arrayIndex (name : String) : Option Nat :=
  let digits := name.toList.map Char.toNat
  let index := digits.foldl (fun n digit => n * 10 + (digit - 48)) 0
  if digits ≠ [] ∧ (∀ digit ∈ digits, 48 ≤ digit ∧ digit ≤ 57) ∧
      (digits.head? = some 48 → digits.length = 1) ∧ index < 2 ^ 32 - 1 then some index
  else none

def entries (names : List String) : List String :=
  (names.filter fun name => (arrayIndex name).isSome).insertionSort
      (fun a b => (arrayIndex a).getD 0 ≤ (arrayIndex b).getD 0) ++
    names.filter fun name => !(arrayIndex name).isSome

def send (readyState : ι → ReadyState) (requestIdToSocket : InsertionMap RequestId ι) (name : String) :
    Option (ι × RequestId) :=
  match requestIdToSocket.get (.string name) with
  | some ws => if readyState ws = .OPEN then some (ws,.string name) else none
  | none => none

def update (set : String) (isMatch : SubscriptionOpts → Checked Bool) (s : WebsocketService ι) :
    Checked (List (ι × RequestId)) := do
  let names ← collect set isMatch s.requestIdToSubscriptionOpts.entries []
  return (entries names).filterMap (send s.readyState s.requestIdToSocket)

def tradeRecordUpdate (lower : String → String) (trade : Event) (s : WebsocketService ι) :
    Checked (List (ι × RequestId)) :=
  update "tradesHistory" (matchesTradesHistoryChannelSubscription lower trade) s

def orderUpdate (lower : String → String) (order : Event) (s : WebsocketService ι) :
    Checked (List (ι × RequestId)) :=
  if s.clients.length = 0 then .ok []
  else update "orderSet" (matchesOrdersChannelSubscription lower order) s

def emit (lower : String → String) (event : Event) (s : WebsocketService ι) :
    Checked (List (ι × RequestId)) :=
  match event.type with
  | .Order => orderUpdate lower event s
  | .TradeRecord => tradeRecordUpdate lower event s

def start : WebsocketService ι where
  readyState := fun _ => .CONNECTING
  clients := []
  requestIds := fun _ => []
  requestIdToSocket := .empty
  requestIdToSubscriptionOpts := .empty
  messages := 0

def request (messages : Nat) (data : Option Json) : Checked (RequestId × SubscriptionOpts) :=
  match data with
  | none => .error "Malformed JSON Error"
  | some .null => .error "Cannot read properties of null (reading 'requestId')"
  | some message =>
      if Json.isString "subscribe" (message.property "type") then
        let payload := message.property "payload"
        .ok (.ofJson messages (message.property "requestId"),
          { channel := message.property "channel"
            taker := payload.bind (Json.copied "taker")
            maker := payload.bind (Json.copied "maker")
            trader := payload.bind (Json.copied "trader") })
      else do
        let type ← ((message.property "type").map Json.text).getD (.ok "")
        .error type

section
variable [DecidableEq ι]

def processConnection (ws : ι) (s : WebsocketService ι) : WebsocketService ι :=
  { s with
    readyState := Function.update s.readyState ws .OPEN
    clients := s.clients ++ [ws]
    requestIds := Function.update s.requestIds ws [] }

def terminate (ws : ι) (s : WebsocketService ι) : WebsocketService ι :=
  { s with readyState := Function.update s.readyState ws .CLOSING }

def processMessage (ws : ι) (data : Option Json) (s : WebsocketService ι) : WebsocketService ι :=
  let s' := { s with messages := s.messages + 1 }
  match request s.messages data with
  | .ok (requestId,subscriptionOpts) =>
      { s' with
        requestIds := Function.update s.requestIds ws (s.requestIds ws |>.insert requestId)
        requestIdToSubscriptionOpts := s.requestIdToSubscriptionOpts.set requestId subscriptionOpts
        requestIdToSocket := s.requestIdToSocket.set requestId ws }
  | .error _ => terminate ws s'

def closeHandler (ws : ι) (s : WebsocketService ι) : WebsocketService ι :=
  { s with
    readyState := Function.update s.readyState ws .CLOSED
    clients := s.clients.filter fun other => other ≠ ws
    requestIdToSocket := (s.requestIds ws).foldl InsertionMap.delete s.requestIdToSocket
    requestIdToSubscriptionOpts :=
      (s.requestIds ws).foldl InsertionMap.delete s.requestIdToSubscriptionOpts }

def step (s : WebsocketService ι) : ClientAction ι → Option (WebsocketService ι)
  | .connection ws => if s.readyState ws = .CONNECTING then some (processConnection ws s) else none
  | .message ws data =>
      if s.readyState ws = .OPEN ∨ s.readyState ws = .CLOSING then some (processMessage ws data s)
      else none
  | .ending ws => if s.readyState ws = .OPEN then some (terminate ws s) else none
  | .close ws => if s.readyState ws = .CLOSING then some (closeHandler ws s) else none

end
end WebsocketService
end Perpetual
