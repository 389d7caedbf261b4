import RustyDb.WebSocket.Json

/-!
# The WebSocket Client

`RustyDBWebSocketClient` of `examples/websocket_client.py` as a state
machine. Each coroutine becomes a function from the client's fields and the
environment of the call to a result and the new fields. A Python exception
does not undo the assignments made before it, so a failed call still
returns its new state.

## Environment

The environment of one call says what the network does: whether
`websockets.connect`, `send`, `recv` and `close` succeed, which frames reach
the connection while `recv` waits, and what `uuid4()` and `now()` return.
A `recv` returns the oldest buffered frame; with the buffer empty when the
5-second wait ends it times out, and a frame that arrives later stays
buffered for the next `recv`, as in the `websockets` library.

## Ghost state

Each connection keeps logs the client never reads: the messages sent on it,
every frame that reached it, every frame `recv` returned, and the kind of
the last auth reply it returned. Each frame carries the index of the
request the server sent it for. These logs state the correlation and
authentication properties.
-/

namespace RustyDb.WebSocket

open RustyDb.Python

/-! ## §1 State -/

/-- A frame in a connection's receive buffer, with the ghost index of the request
    (in the connection's `sent` log) the server sent it for. -/
structure Delivery where
  frame : Frame
  answers : Nat
  deriving Repr, DecidableEq

/-- An open connection, as `websockets.connect` returns it. -/
structure Socket where
  /-- Frames received and not yet returned by `recv`, oldest first. -/
  inbox : List Delivery
  /-- Ghost: every frame that reached the connection, in arrival order. -/
  arrived : List Delivery
  /-- Ghost: every frame `recv` returned, in order. -/
  consumed : List Delivery
  /-- Ghost: the messages sent, in order. -/
  sent : List JsonValue
  /-- Ghost: whether the last auth reply `recv` returned was `auth_success`. -/
  lastAuthReply : Option Bool

/-- A connection just opened. -/
def Socket.fresh : Socket := ⟨[], [], [], [], none⟩

/-- The fields of a `RustyDBWebSocketClient`. -/
structure Client where
  url : List Char
  authToken : Option (List Char)
  autoReconnect : Bool
  maxReconnectAttempts : Int
  websocket : Option Socket
  reconnectCount : Int
  authenticated : Bool

/-- The default `url` of the constructor. -/
def defaultUrl : List Char := "ws://localhost:8080/api/v1/stream".toList

/-- `RustyDBWebSocketClient(url, auth_token, auto_reconnect, max_reconnect_attempts)`;
    the defaults are `defaultUrl`, `None`, `True` and `5`. -/
def Client.init (url : List Char) (authToken : Option (List Char)) (autoReconnect : Bool)
    (maxReconnectAttempts : Int) : Client :=
  ⟨url, authToken, autoReconnect, maxReconnectAttempts, none, 0, false⟩

/-- What the network and the runtime do during one call. -/
structure Env where
  /-- `websockets.connect(url)` opens a connection; otherwise it raises. -/
  opens : Bool
  /-- `websocket.send` succeeds; otherwise it raises. -/
  sends : Bool
  /-- The frames that reach the connection while `recv` waits. -/
  arrivals : List Delivery
  /-- `websocket.recv` raises (the connection closed). -/
  recvFails : Bool
  /-- `websocket.close()` succeeds; otherwise it raises. -/
  closes : Bool
  /-- `str(uuid.uuid4())`. -/
  uuid : List Char
  /-- `datetime.now(timezone.utc).isoformat()`. -/
  now : List Char

/-- The exceptions a call can raise. -/
inductive PyErr where
  /-- `RuntimeError(msg)`. -/
  | runtime (msg : List Char)
  /-- An exception of the `websockets` library (refused connection, closed connection). -/
  | transport
  /-- `UnicodeDecodeError` from `json.loads` on a binary frame. -/
  | unicodeDecode
  /-- `TypeError`: subscripting a value that is not a `dict`. -/
  | typeError
  /-- `KeyError(k)`. -/
  | keyError (k : List Char)
  deriving Repr, DecidableEq

/-- The message `send_message` and `receive_message` raise without a connection. -/
def notConnected : List Char := "Not connected to server".toList

/-! ## §2 Messages -/

/-- `value[key]` in Python. -/
def getItem (v : JsonValue) (key : List Char) : Except PyErr JsonValue :=
  match v with
  | .obj kvs =>
    match JsonValue.lookup kvs key with
    | some x => .ok x
    | none => .error (.keyError key)
  | _ => .error .typeError

/-- Whether a value is the string `s`: Python's `value == s`. -/
def isStr (v : JsonValue) (s : List Char) : Bool :=
  match v with
  | .str t => t == s
  | _ => false

/-- The ghost reading of a received value: `some true` for `auth_success`,
    `some false` for `auth_error`, `none` for anything else. -/
def authReplyKind (v : JsonValue) : Option Bool :=
  match getItem v "type".toList with
  | .ok t => if isStr t "auth_success".toList then some true
    else if isStr t "auth_error".toList then some false else none
  | .error _ => none

/-- `auth_message` of `authenticate`. -/
def authMessage (token : List Char) (env : Env) : JsonValue :=
  .obj [("type".toList, .str "auth".toList),
    ("payload".toList, .obj [("token".toList, .str token)]),
    ("timestamp".toList, .str env.now), ("id".toList, .str env.uuid)]

/-- `query_message` of `execute_query`; `params or []` keeps a non-empty list. -/
def queryMessage (sql : List Char) (params : Option (List JsonValue)) (streaming : Bool)
    (env : Env) : JsonValue :=
  .obj [("type".toList, .str "query".toList),
    ("payload".toList, .obj [("sql".toList, .str sql), ("params".toList, .arr (params.getD [])),
      ("streaming".toList, .bool streaming)]),
    ("timestamp".toList, .str env.now), ("id".toList, .str env.uuid)]

/-- `ping_message` of `ping`: it carries no `id`. -/
def pingMessage (env : Env) : JsonValue :=
  .obj [("type".toList, .str "ping".toList), ("payload".toList, .obj []),
    ("timestamp".toList, .str env.now)]

/-! ## §3 The coroutines -/

/-- Python statement sequencing: continue with `k` from the value and the state `r`
    leaves, unless `r` raised; an exception keeps the state it left. -/
def andThen {α β : Type} (r : Except PyErr α × Client) (k : α → Client → Except PyErr β × Client) :
    Except PyErr β × Client :=
  match r with
  | (.ok a, c) => k a c
  | (.error e, c) => (.error e, c)

section
variable (env : Env)

/-- `send_message`: `json.dumps` then `websocket.send`. -/
def sendMessage (c : Client) (msg : JsonValue) : Except PyErr Unit × Client :=
  match c.websocket with
  | none => (.error (.runtime notConnected), c)
  | some s =>
    if env.sends then (.ok (), { c with websocket := some { s with sent := s.sent ++ [msg] } })
    else (.error .transport, c)

/-- The connection after `recv` returned `d` from the buffer `rest`. -/
def Socket.pop (s : Socket) (d : Delivery) (rest : List Delivery) : Socket :=
  { s with inbox := rest, arrived := s.arrived ++ env.arrivals, consumed := s.consumed ++ [d],
           lastAuthReply :=
             match loads d.frame with
             | .ok v => (authReplyKind v).orElse fun _ => s.lastAuthReply
             | .error _ => s.lastAuthReply }

/-- `receive_message(timeout)` for the non-zero timeouts every caller passes:
    `None` on a timeout or a `JSONDecodeError`, the decoded value otherwise. -/
def receiveMessage (c : Client) : Except PyErr (Option JsonValue) × Client :=
  match c.websocket with
  | none => (.error (.runtime notConnected), c)
  | some s =>
    if env.recvFails then (.error .transport, c)
    else
      match s.inbox ++ env.arrivals with
      | [] => (.ok none, c)
      | d :: rest =>
        let c' := { c with websocket := some (s.pop env d rest) }
        match loads d.frame with
        | .ok v => (.ok (some v), c')
        | .error .jsonDecode => (.ok none, c')
        | .error .unicodeDecode => (.error .unicodeDecode, c')

/-- `response and response["type"] == t`, with Python's left-to-right evaluation. -/
def typeIs (response : Option JsonValue) (t : List Char) : Except PyErr Bool :=
  match response with
  | none => .ok false
  | some v => if v.truthy then (getItem v "type".toList).map (isStr · t) else .ok false

/-- `authenticate`: send the token, then set `authenticated` from the reply. -/
def authenticate (c : Client) : Except PyErr Bool × Client :=
  match c.authToken with
  | none => (.ok false, c)
  | some token =>
    if token.isEmpty then (.ok false, c)
    else
      andThen (sendMessage env c (authMessage token env)) fun _ c1 =>
      andThen (receiveMessage env c1) fun response c2 =>
      andThen (typeIs response "auth_success".toList, c2) fun success c3 =>
      if success then (.ok true, { c3 with authenticated := true })
      else
        andThen (typeIs response "auth_error".toList, c3) fun failure c4 =>
        if failure then (.ok false, { c4 with authenticated := false }) else (.ok false, c4)

/-- `connect`: open a connection, authenticate when a token is set, reset the counter.
    The `except` clause prints and re-raises. -/
def connect (c : Client) : Except PyErr Unit × Client :=
  if !env.opens then (.error .transport, c)
  else
    let c1 := { c with websocket := some Socket.fresh }
    andThen
      (if !(c1.authToken.getD []).isEmpty then
        andThen (authenticate env c1) fun _ c2 => (.ok (), c2)
      else (.ok (), c1))
      fun _ c2 => (.ok (), { c2 with reconnectCount := 0 })

/-- `execute_query(sql, params, streaming)`: send the query, return the next message. -/
def executeQuery (c : Client) (sql : List Char) (params : Option (List JsonValue))
    (streaming : Bool) : Except PyErr (Option JsonValue) × Client :=
  andThen (sendMessage env c (queryMessage sql params streaming env)) fun _ c1 =>
  receiveMessage env c1

/-- `ping`: send a ping, report whether the next message is a `pong`. -/
def ping (c : Client) : Except PyErr Bool × Client :=
  andThen (sendMessage env c (pingMessage env)) fun _ c1 =>
  andThen (receiveMessage env c1) fun response c2 =>
  match response with
  | none => (.ok false, c2)
  | some v => ((getItem v "type".toList).map (isStr · "pong".toList), c2)

/-- `close`: close the connection and clear the flag, if connected. -/
def close (c : Client) : Except PyErr Unit × Client :=
  match c.websocket with
  | none => (.ok (), c)
  | some _ =>
    if env.closes then (.ok (), { c with websocket := none, authenticated := false })
    else (.error .transport, c)

end

/-! ## §4 Runs -/

/-- A call a program makes on the client. -/
inductive Call where
  | connect
  | authenticate
  | executeQuery (sql : List Char) (params : Option (List JsonValue)) (streaming : Bool)
  | ping
  | close

/-- What a call returns. -/
inductive Answer where
  | none
  | flag (b : Bool)
  | message (m : Option JsonValue)

/-- Run one call. -/
def runCall (env : Env) (c : Client) : Call → Except PyErr Answer × Client
  | .connect => let r := connect env c; (r.1.map fun _ => .none, r.2)
  | .authenticate => let r := authenticate env c; (r.1.map .flag, r.2)
  | .executeQuery sql params streaming =>
    let r := executeQuery env c sql params streaming; (r.1.map .message, r.2)
  | .ping => let r := ping env c; (r.1.map .flag, r.2)
  | .close => let r := close env c; (r.1.map fun _ => .none, r.2)

/-- The client after a sequence of calls, each with its environment, made one at a time;
    a call that raises is followed by the next one. -/
def runCalls : Client → List (Call × Env) → Client
  | c, [] => c
  | c, (k, env) :: rest => runCalls (runCall env c k).2 rest

end RustyDb.WebSocket
