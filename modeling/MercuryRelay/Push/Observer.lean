/-
  What the output of a controller makes of wakes (push.py, `PushObserver`).

  A frame is read first, and what it says is acted upon; `repr` of an identity is
  given as the octets that are hashed.
-/
import MercuryRelay.Push.Bridge
import MercuryRelay.Python.Sha256

set_option autoImplicit false

namespace MercuryRelay

open Python

/-- `INPUT_EVENTS`. -/
def inputEvents : List Str :=
  [lit "approval.request", lit "clarify.request", lit "secret.request", lit "sudo.request", lit "vault.unlock.request",
    lit "vault.save_login.request"]

def maxTurns : ℕ := 64
def maxTitles : ℕ := 64

/-- What a frame says, if it says something. -/
inductive Observation where
  | nothing
  | title (sid title : Str)
  | start (sid : Str) (seq : Option ℤ)
  | complete (sid : Str) (seq : Json) (content : Str)
  | attention (sid kind request : Str)
  deriving DecidableEq

/-- What a wake is known by. -/
inductive WakeIdentity where
  | turn (sid : Str) (number : ℤ)
  /-- a completion of no turn, by the digest of its content -/
  | content (sid : Str) (seq : Json) (digest : Bytes)
  | attention (sid kind request : Str)
  deriving DecidableEq

/-- `hashlib.sha256(repr(identity).encode()).digest()`. -/
def WakeIdentity.digest (repr : WakeIdentity → Bytes) (identity : WakeIdentity) : Bytes := (sha256 (repr identity)).1

namespace Observation

/-- A flag that keeps a frame from being observed. -/
def isFlagged (source : List (Str × Json)) : Bool :=
  [lit "replay", lit "historical", lit "interim", lit "interrupted"].any fun flag =>
    ((Json.lookup source flag).getD .null).truthy

/-- `payload.get(key, default) == default`. -/
def isDefault (payload : List (Str × Json)) (key default : Str) : Bool :=
  ((Json.lookup payload key).getD (.str default)).asStr? = some default

/-- The text of a completion that counts. -/
def qualifies (payload : List (Str × Json)) : Option Str :=
  if ¬ isDefault payload (lit "role") (lit "assistant") ∨ ¬ isDefault payload (lit "status") (lit "complete") then none
  else
    match Json.lookup payload (lit "text") with
    | some (.str content) =>
      if strip content = [] ∨ startsWith (strip content) (lit "Operation interrupted:") then none else some content
    | _ => none

/-- The request that a user has to attend to. -/
def requestOf (payload : List (Str × Json)) : Option Str :=
  match Json.lookup payload (lit "request_id") with
  | some (.str request) =>
    if ¬ (1 ≤ request.length ∧ request.length ≤ 128) ∨ Json.lookup payload (lit "blocking") = some (.bool false) then none
    else some request
  | _ => none

/-- An event of a session. -/
def ofKind (data : UnicodeData) (sid kind : Str) (params payload : List (Str × Json)) : Observation :=
  if kind = lit "session.title" then
    match Preview.normalizeTitle data ((Json.lookup payload (lit "title")).bind Json.asStr?) with
    | .ok (some text) => .title sid text
    | _ => .nothing
  else if kind = lit "message.start" then .start sid ((Json.lookup params (lit "seq")).bind Json.asInt?)
  else if kind = lit "message.complete" then
    match qualifies payload with
    | some content => .complete sid ((Json.lookup params (lit "seq")).getD .null) content
    | none => .nothing
  else if kind ∈ inputEvents then
    match requestOf payload with
    | some request => .attention sid kind request
    | none => .nothing
  else .nothing

/-- The parameters of an event. -/
def ofParams (data : UnicodeData) (params : List (Str × Json)) : Observation :=
  match (Json.lookup params (lit "payload")).getD (.obj []) with
  | .obj payload =>
    if isFlagged params || isFlagged payload then .nothing
    else
      match Json.lookup params (lit "session_id"), Json.lookup params (lit "type") with
      | some (.str sid), some (.str kind) =>
        if 1 ≤ sid.length ∧ sid.length ≤ 128 then ofKind data sid kind params payload else .nothing
      | _, _ => .nothing
  | _ => .nothing

/-- A frame, as `observe` reads it; where it raises, nothing is said. -/
def ofText (data : UnicodeData) (depths : JsonDepths) (text : Str) : Observation :=
  match loadsStrict depths text with
  | some (.obj value) =>
    if ((Json.lookup value (lit "method")).bind Json.asStr?) ≠ some (lit "event") then .nothing
    else
      match (Json.lookup value (lit "params")).getD (.obj []) with
      | .obj params => ofParams data params
      | _ => .nothing
  | _ => .nothing

end Observation

/-- `PushObserver`. -/
structure PushObserver where
  turns : Dict Str (ℤ × Bool) := []
  titles : Dict Str Str := []
  serial : ℕ := 0

namespace PushObserver

variable (o : PushObserver)

/-- A `message.start`. -/
def startTurn (sid : Str) (seq : Option ℤ) : PushObserver :=
  let serial := o.serial + 1
  { o with
    serial := serial
    turns := Dict.last maxTurns (o.turns.set sid (seq.getD serial, false)) }

/-- The identity of a completion, if there is one for it; `none` where `encode` raises, too. -/
def completes (sid : Str) (seq : Json) (content : Str) : Option WakeIdentity :=
  match o.turns.get sid with
  | some (number, done) => if done then none else some (.turn sid number)
  | none => (utf8 content).map fun encoded => .content sid seq (sha256 encoded).1

/-- A completion. -/
def complete (sid : Str) : PushObserver :=
  match o.turns.get sid with
  | some (number, _) => { o with turns := o.turns.set sid (number, true) }
  | none => o

/-- The observer after a frame. -/
def note : Observation → PushObserver
  | .title sid title => { o with titles := Dict.last maxTitles ((o.titles.set sid title).moveToEnd sid) }
  | .start sid seq => o.startTurn sid seq
  | .complete sid _ _ => o.complete sid
  | _ => o

/-- What a frame wakes for: the session, the identity and the preview, less its title. -/
def wakes : Observation → Option (Str × WakeIdentity × PreviewData)
  | .complete sid seq content => (o.completes sid seq content).map fun identity =>
    (sid, identity, { kind := lit "completion", responseText := some content })
  | .attention sid kind request =>
    some (sid, .attention sid kind request, { kind := lit "attention", attentionKind := some kind })
  | _ => none

end PushObserver

/-- An observer of a device and an epoch, with its bridge. -/
structure PushWatch where
  device : Str
  epoch : ℤ
  observer : PushObserver := {}
  bridge : PushBridge

/-- What an observed frame meets, too: the binding of a session. -/
structure ObserveTurn extends WakeTurn where
  binding : Str → Option PushRoute

namespace PushWatch

variable (functions : PushFunctions) (repr : WakeIdentity → Bytes) (w : PushWatch)

/-- The title of a session is shown where its route is proven. -/
def titled (sid : Str) (route : Option PushRoute) (preview : PreviewData) : PreviewData :=
  if preview.kind = lit "completion" ∧ route.isSome then { preview with title := w.observer.titles.get sid } else preview

/-- `observe`, of a frame that was read. -/
def observe (turn : ObserveTurn) (observation : Observation) : PushWatch :=
  { w with
    observer := w.observer.note observation
    bridge :=
      match w.observer.wakes observation with
      | none => w.bridge
      | some (sid, identity, preview) =>
        let route := turn.binding sid
        w.bridge.wake functions turn.toWakeTurn w.device w.epoch (identity.digest repr) route (w.titled sid route preview) }

end PushWatch

end MercuryRelay
