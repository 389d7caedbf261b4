import RustyDb.WebSocket.Correlation

/-!
# The Streaming Receive Loop

`example_8_streaming_results` sends a streaming query and then calls
`receive_message(timeout=10.0)` until a pass of its `while True` body
`break`s. A pass reads only the value it received: its `type`, and for a
`data` value the `rows` and `has_more` of its payload. No pass compares the
value's `id` with the query's.

This module models the body (`loopBody`) and the loop (`streamLoop`) as the
source runs them. §3 reads each result of `receive_message` on its own
(`effectOf`: stop, skip, a batch of rows, or an exception), says what the
loop computes from those effects (`streamSpec`: stop at the first result that
ends it, sum the rows up to and including it), and proves that the body acts
as `effectOf` says (`loopBody_effect`) and so the loop computes `streamSpec`
(`streamLoop_eq_streamSpec`). `receive_message` returns `None` on a timeout
and on a text frame that is not JSON, so both end the loop, and a data batch
of another request is counted like one of the query's own.
-/

namespace RustyDb.WebSocket

open RustyDb.Python

/-! ## §1 The loop body -/

/-- The exceptions that can end the loop. -/
inductive StreamErr where
  /-- One `receive_message` or a subscript raises, or `len` of a value without a length. -/
  | py (e : PyErr)
  /-- `AttributeError`: `.get` on a payload that is not a `dict`. -/
  | attributeError
  deriving Repr, DecidableEq

/-- `value[key]`. -/
def item (v : JsonValue) (key : List Char) : Except StreamErr JsonValue :=
  (getItem v key).mapError .py

/-- `d.get(key, default)`. -/
def dictGet (d : JsonValue) (key : List Char) (default : JsonValue) : Except StreamErr JsonValue :=
  match d with
  | .obj kvs => .ok ((JsonValue.lookup kvs key).getD default)
  | _ => .error .attributeError

/-- `len(value)`: the characters of a `str`, the items of a `list`, the keys of a `dict`. -/
def pyLen : JsonValue → Except StreamErr Nat
  | .str s => .ok s.length
  | .arr xs => .ok xs.length
  | .obj kvs => .ok (kvs.map (·.1)).eraseDups.length
  | _ => .error (.py .typeError)

/-- What a pass of the loop body does when it does not raise. -/
inductive Pass where
  /-- `break`: no value, a falsy one, or an `error` message. -/
  | exit
  /-- On to the next `receive_message`: a message of any other type. -/
  | next
  /-- `total_rows += n`, then `break` when `last` (`has_more` falsy or absent). -/
  | add (n : Nat) (last : Bool)
  deriving Repr, DecidableEq

/-- One pass of the body on the value `response` that `receive_message` returned. The
    `print` of an error message evaluates `response['payload'].get('message')`, which can
    raise; `response["type"]` is read again by the `elif`, to the same value. -/
def loopBody (response : Option JsonValue) : Except StreamErr Pass :=
  match response with
  | none => .ok .exit
  | some v =>
    if !v.truthy then .ok .exit
    else do
      let t ← item v "type".toList
      if isStr t "data".toList then
        let payload ← item v "payload".toList
        let rows ← dictGet payload "rows".toList (.arr [])
        let n ← pyLen rows
        let more ← dictGet payload "has_more".toList (.bool false)
        return .add n !more.truthy
      else if isStr t "error".toList then
        let payload ← item v "payload".toList
        let _ ← dictGet payload "message".toList .null
        return .exit
      else return .next

/-! ## §2 The loop and the example -/

/-- How the loop ended. -/
inductive LoopEnd where
  /-- A `break`, with `total_rows`. -/
  | broke (total : Nat)
  /-- An exception, with `total_rows` when it was raised. -/
  | raised (e : StreamErr) (total : Nat)
  /-- Still looping when the environments ran out. -/
  | running (total : Nat)
  deriving Repr, DecidableEq

/-- `total_rows` at the end. -/
def LoopEnd.total : LoopEnd → Nat
  | .broke t | .raised _ t | .running t => t

/-- The `while True` loop from `total_rows = total`, one environment per
    `receive_message` call. -/
def streamLoop (total : Nat) (c : Client) : List Env → LoopEnd × Client
  | [] => (.running total, c)
  | env :: envs =>
    match receiveMessage env c with
    | (.error e, c1) => (.raised (.py e) total, c1)
    | (.ok response, c1) =>
      match loopBody response with
      | .error e => (.raised e total, c1)
      | .ok .exit => (.broke total, c1)
      | .ok .next => streamLoop total c1 envs
      | .ok (.add n last) =>
        if last then (.broke (total + n), c1) else streamLoop (total + n) c1 envs

/-- The query example 8 sends: `streaming` set and no `params`. -/
def streamingQuery (sql : List Char) (env : Env) : JsonValue :=
  .obj [("type".toList, .str "query".toList),
    ("payload".toList, .obj [("sql".toList, .str sql), ("streaming".toList, .bool true)]),
    ("timestamp".toList, .str env.now), ("id".toList, .str env.uuid)]

/-- The SQL of example 8. -/
def largeTableQuery : List Char := "SELECT * FROM large_table LIMIT 1000".toList

/-- The body of the `async with`: send the query, then loop from `total_rows = 0`. -/
def streamingResults (env : Env) (envs : List Env) (c : Client) : LoopEnd × Client :=
  match sendMessage env c (streamingQuery largeTableQuery env) with
  | (.error e, c1) => (.raised (.py e) 0, c1)
  | (.ok (), c1) => streamLoop 0 c1 envs

/-- `example_8_streaming_results`: `__aenter__` connects a default client, and `__aexit__`
    closes it once the body breaks or raises; an exception of `close` replaces the body's. -/
def exampleStreamingResults (envConnect env envClose : Env) (envs : List Env) :
    LoopEnd × Client :=
  match connect envConnect (Client.init defaultUrl none true 5) with
  | (.error e, c) => (.raised (.py e) 0, c)
  | (.ok (), c) =>
    match streamingResults env envs c with
    | (.running t, c1) => (.running t, c1)
    | (r, c1) =>
      match close envClose c1 with
      | (.error e, c2) => (.raised (.py e) r.total, c2)
      | (.ok (), c2) => (r, c2)

/-! ## §3 What the loop computes -/

/-- What one result of `receive_message` does to the loop, as the statement lists it. -/
inductive Effect where
  /-- `break` without counting: no value, a falsy value, or an `error` dict. -/
  | stop
  /-- On to the next result: a dict of another type. -/
  | skip
  /-- A `data` dict: `rows` are counted, and the loop goes on only when `more`. -/
  | batch (rows : Nat) (more : Bool)
  /-- The body raises `e`. -/
  | fail (e : StreamErr)
  deriving DecidableEq

/-- A `data` dict's payload: `len(payload.get('rows', []))` and whether `has_more` (absent:
    `False`) is truthy; a payload that is not a dict, or rows without a length, raise. -/
def batchOf : JsonValue → Effect
  | .obj kvs =>
    let more := ((JsonValue.lookup kvs "has_more".toList).getD (.bool false)).truthy
    match (JsonValue.lookup kvs "rows".toList).getD (.arr []) with
    | .str s => .batch s.length more
    | .arr xs => .batch xs.length more
    | .obj kvs' => .batch (kvs'.map (·.1)).eraseDups.length more
    | _ => .fail (.py .typeError)
  | _ => .fail .attributeError

/-- The effect of a result read off the result alone: an exception of `receive_message`, `None`
    or a falsy value, then by the dict's `type`; a value that is not a dict, a dict without
    `type`, and a `data` or `error` dict without a dict `payload` raise. No `id` is read. -/
def effectOf : Except PyErr (Option JsonValue) → Effect
  | .error e => .fail (.py e)
  | .ok none => .stop
  | .ok (some v) =>
    if !v.truthy then .stop
    else match v with
      | .obj kvs =>
        match JsonValue.lookup kvs "type".toList with
        | none => .fail (.py (.keyError "type".toList))
        | some t =>
          if isStr t "data".toList then
            match JsonValue.lookup kvs "payload".toList with
            | none => .fail (.py (.keyError "payload".toList))
            | some payload => batchOf payload
          else if isStr t "error".toList then
            match JsonValue.lookup kvs "payload".toList with
            | none => .fail (.py (.keyError "payload".toList))
            | some (.obj _) => .stop
            | some _ => .fail .attributeError
          else .skip
      | _ => .fail (.py .typeError)

/-- Whether an effect ends the loop. -/
def Effect.ends : Effect → Bool
  | .skip => false
  | .batch _ more => !more
  | _ => true

/-- The rows an effect adds to `total_rows`. -/
def Effect.rows : Effect → Nat
  | .batch n _ => n
  | _ => 0

/-- The loop's outcome from its results, starting from `total_rows = total`: it consumes the
    results that do not end it and the first one that does; `total_rows` is `total` plus the
    rows of every consumed result, the last one included unless it raised. -/
def streamSpec (total : Nat) (rs : List (Except PyErr (Option JsonValue))) : LoopEnd :=
  let counted := total +
    ((rs.takeWhile fun r => !(effectOf r).ends).map fun r => (effectOf r).rows).foldr (· + ·) 0
  match rs.dropWhile fun r => !(effectOf r).ends with
  | [] => .running counted
  | r :: _ =>
    match effectOf r with
    | .fail e => .raised e counted
    | e => .broke (counted + e.rows)

/-- The results of successive `receive_message` calls, one per environment. -/
def receives (c : Client) : List Env → List (Except PyErr (Option JsonValue))
  | [] => []
  | env :: envs => (receiveMessage env c).1 :: receives (receiveMessage env c).2 envs

/-- What a pass of the body does, as an effect. -/
def Pass.effect : Except StreamErr Pass → Effect
  | .error e => .fail e
  | .ok .exit => .stop
  | .ok .next => .skip
  | .ok (.add n last) => .batch n !last

/-- The body does what `effectOf` says, on every value `receive_message` can return. -/
theorem loopBody_effect (response : Option JsonValue) :
    Pass.effect (loopBody response) = effectOf (.ok response) := by
  rcases response with _ | v
  · rfl
  simp only [loopBody, effectOf]
  split
  · rfl
  rcases v with _ | _ | _ | _ | _ | _ | kvs
  all_goals try rfl
  simp only [item, getItem, Except.mapError, bind, Except.bind]
  rcases JsonValue.lookup kvs "type".toList with _ | t
  · rfl
  simp only
  split
  · rcases JsonValue.lookup kvs "payload".toList with _ | (_ | _ | _ | _ | _ | _ | p) <;> try rfl
    simp only [dictGet, batchOf, pure, Except.pure]
    rcases (JsonValue.lookup p "rows".toList).getD (.arr []) with _ | _ | _ | _ | _ | _ | _ <;>
      simp [pyLen, Pass.effect]
  · split
    · rcases JsonValue.lookup kvs "payload".toList with _ | (_ | _ | _ | _ | _ | _ | p) <;> rfl
    · rfl

theorem streamSpec_cons (total : Nat) (r : Except PyErr (Option JsonValue))
    (rs : List (Except PyErr (Option JsonValue))) :
    streamSpec total (r :: rs) =
      if (effectOf r).ends then
        (match effectOf r with
         | .fail e => .raised e total
         | e => .broke (total + e.rows))
      else streamSpec (total + (effectOf r).rows) rs := by
  by_cases h : (effectOf r).ends <;>
    simp [streamSpec, List.takeWhile_cons, List.dropWhile_cons, h, Nat.add_assoc]

/-- One iteration of the loop acts on its result as `effectOf` says. -/
theorem streamLoop_cons (total : Nat) (c : Client) (env : Env) (envs : List Env) :
    (streamLoop total c (env :: envs)).1 =
      if (effectOf (receiveMessage env c).1).ends then
        (match effectOf (receiveMessage env c).1 with
         | .fail e => .raised e total
         | e => .broke (total + e.rows))
      else (streamLoop (total + (effectOf (receiveMessage env c).1).rows) (receiveMessage env c).2 envs).1 := by
  simp only [streamLoop]
  rcases receiveMessage env c with ⟨_ | response, c1⟩
  · rfl
  · rw [← loopBody_effect]
    rcases h : loopBody response with _ | _ | _ | ⟨n, _ | _⟩ <;>
      simp [h, Pass.effect, Effect.ends, Effect.rows]

/-- **The loop computes `streamSpec`.** From any client state and under any network
    behaviour, the loop consumes the results of its `receive_message` calls up to the first that
    ends it, as `effectOf` reads each result without its `id`, and `total_rows` is the sum of the
    rows of the `data` dicts it consumed. -/
theorem streamLoop_eq_streamSpec (c : Client) (envs : List Env) :
    (streamLoop 0 c envs).1 = streamSpec 0 (receives c envs) := by
  suffices ∀ total c, (streamLoop total c envs).1 = streamSpec total (receives c envs) from
    this 0 c
  induction envs with
  | nil => intro total c; simp [streamLoop, receives, streamSpec]
  | cons env envs ih =>
    intro total c
    rw [streamLoop_cons, receives, streamSpec_cons, ih]

/-! ## §4 A batch of another request -/

/-- A last batch of two rows for the request `other`. -/
def otherBatch : Frame :=
  textFrame "\x7b\"type\":\"data\",\"id\":\"other\",\"payload\":\x7b\"rows\":[1,2],\"has_more\":false\x7d\x7d"

/-- The batch of another request ends the loop and is counted, and a text frame that is not
    JSON ends it too. -/
theorem streaming_loop_ends_on_foreign_frames :
    answersRequest (streamingQuery largeTableQuery (okEnv "q" [])) otherBatch = false ∧
    (exampleStreamingResults (okEnv "c" []) (okEnv "q" []) (okEnv "z" [])
      [okEnv "r" [⟨otherBatch, 0⟩]]).1 = .broke 2 ∧
    (exampleStreamingResults (okEnv "c" []) (okEnv "q" []) (okEnv "z" [])
      [okEnv "r" [⟨textFrame "oops", 0⟩]]).1 = .broke 0 := by
  decide

end RustyDb.WebSocket
