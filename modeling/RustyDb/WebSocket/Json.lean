import RustyDb.Python.Str

/-!
# JSON Frames

`receive_message` passes every frame the WebSocket delivers to `json.loads`.
This module models that call as CPython's C scanner runs it:

- text frames are parsed directly; a leading U+FEFF is refused;
- binary frames are first decoded with the encoding `json.detect_encoding`
  picks, under `surrogatepass`;
- the scanner accepts exactly the grammar of RFC 8259 plus `NaN`,
  `Infinity` and `-Infinity`, refuses control characters inside strings,
  and lets a later duplicate key win.

Numbers keep their literal parts; floats carry what Python's `float()`
rounding needs to decide truthiness. A lone surrogate, which Lean's `Char`
cannot hold, decodes to U+FFFD. The nesting limit of Python's recursion
guard is not modelled: the parser is total.
-/

namespace RustyDb.WebSocket

open RustyDb.Python

/-! ## §1 Values -/

/-- A JSON float literal: `±digits × 10^exp`, or one of the named constants. -/
inductive JsonFloat where
  /-- `NaN`. -/
  | nan
  /-- `Infinity` or `-Infinity`. -/
  | inf (neg : Bool)
  /-- A literal with a fraction or an exponent. -/
  | dec (neg : Bool) (digits : Nat) (exp : Int)
  deriving Repr, DecidableEq

/-- A value `json.loads` returns. Objects keep their pairs in order. -/
inductive JsonValue where
  | null
  | bool (b : Bool)
  | int (n : Int)
  | float (f : JsonFloat)
  | str (s : List Char)
  | arr (xs : List JsonValue)
  | obj (kvs : List (List Char × JsonValue))
  deriving Repr

namespace JsonFloat

/-- Python's `bool(float(lit))`: false exactly when the literal rounds to `±0.0`,
    i.e. when its magnitude is at most half the least subnormal, `2^-1075`. -/
def truthy : JsonFloat → Bool
  | .nan => true
  | .inf _ => true
  | .dec _ m e =>
    m != 0 && (decide (0 ≤ e) || decide (Nat.pow 10 e.natAbs < m * Nat.pow 2 1075))

end JsonFloat

namespace JsonValue

/-- Python truthiness of a decoded value. -/
def truthy : JsonValue → Bool
  | .null => false
  | .bool b => b
  | .int n => n != 0
  | .float f => f.truthy
  | .str s => !s.isEmpty
  | .arr xs => !xs.isEmpty
  | .obj kvs => !kvs.isEmpty

/-- `d.get(k)` on a `dict`: the value of the last pair with key `k`. -/
def lookup (kvs : List (List Char × JsonValue)) (k : List Char) : Option JsonValue :=
  (kvs.reverse.find? (·.1 == k)).map (·.2)

/-- Whether the value is a `dict`. -/
def isObj : JsonValue → Bool
  | .obj _ => true
  | _ => false

end JsonValue

/-! ## §2 The scanner -/

/-- The whitespace `json` skips: `[ \t\n\r]*`. -/
def jsonWs (s : List Char) : List Char :=
  s.dropWhile fun c => c == ' ' || c == '\t' || c == '\n' || c == '\r'

/-- The value of one hexadecimal digit. -/
def hexVal (c : Char) : Option Nat :=
  if '0' ≤ c ∧ c ≤ '9' then some (c.toNat - '0'.toNat)
  else if 'a' ≤ c ∧ c ≤ 'f' then some (c.toNat - 'a'.toNat + 10)
  else if 'A' ≤ c ∧ c ≤ 'F' then some (c.toNat - 'A'.toNat + 10)
  else none

/-- Four hexadecimal digits. -/
def hex4 (a b c d : Char) : Option Nat := do
  return (← hexVal a) * 4096 + (← hexVal b) * 256 + (← hexVal c) * 16 + (← hexVal d)

/-- A code point as a `Char`; surrogates become U+FFFD. -/
def codePoint (n : Nat) : Char :=
  if 0xD800 ≤ n ∧ n ≤ 0xDFFF then '�' else Char.ofNat n

/-- The character a one-letter escape stands for. -/
def simpleEscape : Char → Option Char
  | '"' => some '"'
  | '\\' => some '\\'
  | '/' => some '/'
  | 'b' => some '\x08'
  | 'f' => some '\x0c'
  | 'n' => some '\n'
  | 'r' => some '\r'
  | 't' => some '\t'
  | _ => none

/-- `scanstring` after the opening quote: the string's characters and the rest. -/
def scanString : List Char → Option (List Char × List Char)
  | [] => none
  | '"' :: rest => some ([], rest)
  | '\\' :: 'u' :: a :: b :: c :: d :: rest =>
    match hex4 a b c d with
    | none => none
    | some hi =>
      let lone := (fun (p : List Char × List Char) => (codePoint hi :: p.1, p.2)) <$>
        scanString rest
      if 0xD800 ≤ hi ∧ hi ≤ 0xDBFF then
        match rest with
        | '\\' :: 'u' :: e :: f :: g :: h :: rest' =>
          match hex4 e f g h with
          | none => none
          | some lo =>
            if 0xDC00 ≤ lo ∧ lo ≤ 0xDFFF then
              (fun p => (Char.ofNat (0x10000 + (hi - 0xD800) * 1024 + (lo - 0xDC00)) :: p.1,
                p.2)) <$> scanString rest'
            else lone
        | _ => lone
      else lone
  | '\\' :: e :: rest =>
    match simpleEscape e with
    | some c => (fun p => (c :: p.1, p.2)) <$> scanString rest
    | none => none
  | c :: rest =>
    if c.toNat < 0x20 then none else (fun p => (c :: p.1, p.2)) <$> scanString rest

/-- The ASCII digits at the front of `s`, and the rest. -/
def spanDigits (s : List Char) : List Char × List Char :=
  (s.takeWhile Char.isDigit, s.dropWhile Char.isDigit)

/-- The value of a string of decimal digits. -/
def digitsVal (ds : List Char) : Nat :=
  ds.foldl (fun n c => 10 * n + (c.toNat - '0'.toNat)) 0

/-- `_match_number_unicode`: an integer, or a float when a fraction or an exponent follows. -/
def scanNumber (s : List Char) : Option (JsonValue × List Char) :=
  let (neg, s1) := match s with
    | '-' :: t => (true, t)
    | t => (false, t)
  let intPart : Option (List Char × List Char) := match s1 with
    | '0' :: t => some (['0'], t)
    | c :: t => if '1' ≤ c ∧ c ≤ '9' then some (c :: (spanDigits t).1, (spanDigits t).2) else none
    | [] => none
  match intPart with
  | none => none
  | some (ip, s2) =>
    let (frac, s3) := match s2 with
      | '.' :: d :: t => if d.isDigit then (d :: (spanDigits t).1, (spanDigits t).2) else ([], s2)
      | _ => ([], s2)
    let (expo, s4) : Option Int × List Char := match s3 with
      | e :: t =>
        if e == 'e' || e == 'E' then
          let (sgn, t1) := match t with
            | '-' :: u => (-1, u)
            | '+' :: u => (1, u)
            | u => (1, u)
          match spanDigits t1 with
          | ([], _) => (none, s3)
          | (ds, t2) => (some (sgn * (digitsVal ds : Int)), t2)
        else (none, s3)
      | [] => (none, s3)
    if frac.isEmpty && expo.isNone then
      some (.int ((if neg then -1 else 1) * (digitsVal ip : Int)), s4)
    else
      some (.float (.dec neg (digitsVal (ip ++ frac)) (expo.getD 0 - frac.length)), s4)

/-- `scan_once` with at most `fuel` levels of nesting: a value and the rest of the input. -/
def scanValue : Nat → List Char → Option (JsonValue × List Char)
  | 0, _ => none
  | n + 1, s =>
    match s with
    | '"' :: t => (fun p => (.str p.1, p.2)) <$> scanString t
    | '{' :: t =>
      match jsonWs t with
      | '}' :: u => some (.obj [], u)
      | u => (fun p => (.obj p.1, p.2)) <$> scanMembers n u
    | '[' :: t =>
      match jsonWs t with
      | ']' :: u => some (.arr [], u)
      | u => (fun p => (.arr p.1, p.2)) <$> scanElements n u
    | 'n' :: 'u' :: 'l' :: 'l' :: t => some (.null, t)
    | 't' :: 'r' :: 'u' :: 'e' :: t => some (.bool true, t)
    | 'f' :: 'a' :: 'l' :: 's' :: 'e' :: t => some (.bool false, t)
    | 'N' :: 'a' :: 'N' :: t => some (.float .nan, t)
    | 'I' :: 'n' :: 'f' :: 'i' :: 'n' :: 'i' :: 't' :: 'y' :: t => some (.float (.inf false), t)
    | '-' :: 'I' :: 'n' :: 'f' :: 'i' :: 'n' :: 'i' :: 't' :: 'y' :: t =>
      some (.float (.inf true), t)
    | _ => scanNumber s
where
  /-- The elements of an array after `[`, up to and including `]`. -/
  scanElements : Nat → List Char → Option (List JsonValue × List Char)
    | 0, _ => none
    | k + 1, s =>
      match scanValue k s with
      | none => none
      | some (v, t) =>
        match jsonWs t with
        | ']' :: u => some ([v], u)
        | ',' :: u => (fun p => (v :: p.1, p.2)) <$> scanElements k (jsonWs u)
        | _ => none
  /-- The members of an object after `{`, up to and including `}`. -/
  scanMembers : Nat → List Char → Option (List (List Char × JsonValue) × List Char)
    | 0, _ => none
    | k + 1, s =>
      match s with
      | '"' :: t =>
        match scanString t with
        | none => none
        | some (key, t1) =>
          match jsonWs t1 with
          | ':' :: t2 =>
            match scanValue k (jsonWs t2) with
            | none => none
            | some (v, t3) =>
              match jsonWs t3 with
              | '}' :: u => some ([(key, v)], u)
              | ',' :: u => (fun p => ((key, v) :: p.1, p.2)) <$> scanMembers k (jsonWs u)
              | _ => none
          | _ => none
      | _ => none

/-- `JSONDecoder.decode`: one value, surrounded by whitespace only. -/
def decodeDocument (s : List Char) : Option JsonValue :=
  match scanValue (s.length + 1) (jsonWs s) with
  | some (v, rest) => if (jsonWs rest).isEmpty then some v else none
  | none => none

/-! ## §3 Binary frames -/

/-- The encodings `json.detect_encoding` can name. -/
inductive Encoding where
  | utf8 | utf8sig | utf16 | utf16be | utf16le | utf32 | utf32be | utf32le
  deriving Repr, DecidableEq

/-- `json.detect_encoding`: byte-order marks first, then the pattern of zero bytes. -/
def detectEncoding (b : List UInt8) : Encoding :=
  if [0, 0, 0xFE, 0xFF].isPrefixOf b || [0xFF, 0xFE, 0, 0].isPrefixOf b then .utf32
  else if [0xFE, 0xFF].isPrefixOf b || [0xFF, 0xFE].isPrefixOf b then .utf16
  else if [0xEF, 0xBB, 0xBF].isPrefixOf b then .utf8sig
  else
    match b with
    | b0 :: b1 :: b2 :: b3 :: _ =>
      if b0 == 0 then (if b1 != 0 then .utf16be else .utf32be)
      else if b1 == 0 then (if b2 != 0 || b3 != 0 then .utf16le else .utf32le)
      else .utf8
    | [b0, b1] => if b0 == 0 then .utf16be else if b1 == 0 then .utf16le else .utf8
    | _ => .utf8

/-- A continuation byte `80-BF` and its six payload bits. -/
def contBits (b : UInt8) : Option Nat :=
  if 0x80 ≤ b ∧ b ≤ 0xBF then some (b.toNat - 0x80) else none

/-- Strict UTF-8 under `surrogatepass`, which also admits the encoded surrogates `ED A0-BF xx`. -/
def decodeUtf8 : List UInt8 → Option (List Char)
  | [] => some []
  | b :: rest =>
    if b < 0x80 then (Char.ofNat b.toNat :: ·) <$> decodeUtf8 rest
    else if 0xC2 ≤ b ∧ b ≤ 0xDF then
      match rest with
      | c :: t => do
        let x ← contBits c
        (Char.ofNat ((b.toNat - 0xC0) * 64 + x) :: ·) <$> decodeUtf8 t
      | [] => none
    else if 0xE0 ≤ b ∧ b ≤ 0xEF then
      match rest with
      | c :: d :: t => do
        let x ← contBits c
        let y ← contBits d
        let n := (b.toNat - 0xE0) * 4096 + x * 64 + y
        if n < 0x800 then none else (codePoint n :: ·) <$> decodeUtf8 t
      | _ => none
    else if 0xF0 ≤ b ∧ b ≤ 0xF4 then
      match rest with
      | c :: d :: e :: t => do
        let x ← contBits c
        let y ← contBits d
        let z ← contBits e
        let n := (b.toNat - 0xF0) * 262144 + x * 4096 + y * 64 + z
        if n < 0x10000 ∨ 0x10FFFF < n then none else (Char.ofNat n :: ·) <$> decodeUtf8 t
      | _ => none
    else none

/-- UTF-16 code units to characters: pairs join, lone surrogates pass as U+FFFD. -/
def joinUtf16 : List Nat → List Char
  | [] => []
  | [u] => [codePoint u]
  | u :: v :: t =>
    if 0xD800 ≤ u ∧ u ≤ 0xDBFF ∧ 0xDC00 ≤ v ∧ v ≤ 0xDFFF then
      Char.ofNat (0x10000 + (u - 0xD800) * 1024 + (v - 0xDC00)) :: joinUtf16 t
    else codePoint u :: joinUtf16 (v :: t)

/-- The 16-bit units of a byte string, or `none` for an odd length. -/
def units16 (bigEndian : Bool) : List UInt8 → Option (List Nat)
  | [] => some []
  | [_] => none
  | a :: b :: t =>
    (((if bigEndian then a.toNat * 256 + b.toNat else b.toNat * 256 + a.toNat)) :: ·) <$>
      units16 bigEndian t

/-- The 32-bit code points of a byte string; `none` for a ragged length or a value past U+10FFFF. -/
def units32 (bigEndian : Bool) : List UInt8 → Option (List Char)
  | a :: b :: c :: d :: t =>
    let n := if bigEndian then ((a.toNat * 256 + b.toNat) * 256 + c.toNat) * 256 + d.toNat
      else ((d.toNat * 256 + c.toNat) * 256 + b.toNat) * 256 + a.toNat
    if 0x10FFFF < n then none else (codePoint n :: ·) <$> units32 bigEndian t
  | [] => some []
  | _ => none

/-- `bytes.decode(encoding, 'surrogatepass')` for the encodings `detect_encoding` names. -/
def decodeBytes (b : List UInt8) : Encoding → Option (List Char)
  | .utf8 => decodeUtf8 b
  | .utf8sig => decodeUtf8 (if [0xEF, 0xBB, 0xBF].isPrefixOf b then b.drop 3 else b)
  | .utf16be => joinUtf16 <$> units16 true b
  | .utf16le => joinUtf16 <$> units16 false b
  | .utf16 =>
    if [0xFE, 0xFF].isPrefixOf b then joinUtf16 <$> units16 true (b.drop 2)
    else joinUtf16 <$> units16 false (if [0xFF, 0xFE].isPrefixOf b then b.drop 2 else b)
  | .utf32be => units32 true b
  | .utf32le => units32 false b
  | .utf32 =>
    if [0, 0, 0xFE, 0xFF].isPrefixOf b then units32 true (b.drop 4)
    else units32 false (if [0xFF, 0xFE, 0, 0].isPrefixOf b then b.drop 4 else b)

/-! ## §4 `json.loads` -/

/-- A frame as `websocket.recv()` returns it: `str` for a text frame, `bytes` for a binary one. -/
inductive Frame where
  | text (s : List Char)
  | binary (b : List UInt8)
  deriving Repr, DecidableEq

/-- What `json.loads` raises. -/
inductive LoadError where
  /-- `json.JSONDecodeError`, which `receive_message` catches. -/
  | jsonDecode
  /-- `UnicodeDecodeError` from decoding a binary frame, which it does not. -/
  | unicodeDecode
  deriving Repr, DecidableEq

/-- `json.loads(frame)`. -/
def loads : Frame → Except LoadError JsonValue
  | .text s =>
    if ['\uFEFF'].isPrefixOf s then .error .jsonDecode
    else match decodeDocument s with
      | some v => .ok v
      | none => .error .jsonDecode
  | .binary b =>
    match decodeBytes b (detectEncoding b) with
    | none => .error .unicodeDecode
    | some s =>
      match decodeDocument s with
      | some v => .ok v
      | none => .error .jsonDecode

end RustyDb.WebSocket
