import TyoMq.Lib.JsString

/-!
# Push endpoints: addresses

The address half of the request-forgery guard of `lib/push.js`: the parsers of IPv4 and IPv6 text,
and the classifier of what they read.
-/

namespace TyoMq.Push

open TyoMq.Lib

/-- Four octets.
Kind: D -/
structure V4 where
  /-- The first octet. -/
  a : UInt8
  /-- The second octet. -/
  b : UInt8
  /-- The third octet. -/
  c : UInt8
  /-- The fourth octet. -/
  d : UInt8
  deriving DecidableEq

/-- The canonical dotted quad.
Kind: D -/
def V4.text (v4 : V4) : JsString :=
  join [unit '.'] [toRadix 10 v4.a.toNat, toRadix 10 v4.b.toNat, toRadix 10 v4.c.toNat,
    toRadix 10 v4.d.toNat]

/-- The octets, in order.
Kind: D -/
def V4.bytes (v4 : V4) : List UInt8 := [v4.a, v4.b, v4.c, v4.d]

/-- One part of a dotted quad.
Source: `lib/push.js`, `parseIPv4`
Kind: D -/
def parseOctet (part : JsString) : Option UInt8 :=
  if isNumeral 10 3 part then
    let n := readDigits 10 part
    if 255 < n then none else some (UInt8.ofNat n)
  else none

/-- Source: `lib/push.js`, `parseIPv4`
Kind: D -/
def parseIPv4 (str : JsString) : Option V4 :=
  match split [unit '.'] str with
  | [p₀, p₁, p₂, p₃] => do
      let a ← parseOctet p₀
      let b ← parseOctet p₁
      let c ← parseOctet p₂
      let d ← parseOctet p₃
      return ⟨a, b, c, d⟩
  | _ => none

/-- `net.isIPv4`: a canonical dotted quad, without leading zeros.
Kind: D -/
def isIPv4 (str : JsString) : Bool :=
  match parseIPv4 str with
  | some v4 => decide (str = v4.text)
  | none => false

/-- The text before the zone id.
Source: `lib/push.js`, `parseIPv6`
Kind: D -/
def stripZone (str : JsString) : JsString :=
  match indexOf str (unit '%') with
  | some zi => str.take zi
  | none => str

/-- The two groups that stand for an embedded quad.
Source: `lib/push.js`, `parseIPv6`
Kind: D -/
def V4.groups (v4 : V4) : List JsString :=
  [toRadix 16 ((v4.a.toNat <<< 8) ||| v4.b.toNat), toRadix 16 ((v4.c.toNat <<< 8) ||| v4.d.toNat)]

/-- An embedded quad in the final segment, folded into two groups.
Source: `lib/push.js`, `parseIPv6`
Kind: D -/
def foldQuad (s : JsString) : Option JsString :=
  match indexOf s (unit '.') with
  | none => some s
  | some _ => do
      let li ← lastIndexOf s (unit ':')
      let v4 ← parseIPv4 (s.drop (li + 1))
      return s.take (li + 1) ++ join [unit ':'] v4.groups

/-- The groups of one side of a `::`.
Source: `lib/push.js`, `parseIPv6`, `toWords`
Kind: D -/
def toWords (part : JsString) : Option (List ℕ) :=
  if part = [] then some []
  else (split [unit ':'] part).mapM fun seg =>
    if isNumeral 16 4 seg then some (readDigits 16 seg) else none

/-- The words, with the `::` filled up to eight.
Source: `lib/push.js`, `parseIPv6`
Kind: D -/
def expand : List JsString → Option (List ℕ)
  | [half] => toWords half
  | [half₀, half₁] => do
      let head ← toWords half₀
      let tail ← toWords half₁
      if 8 < head.length + tail.length then none
      else return head ++ List.replicate (8 - head.length - tail.length) 0 ++ tail
  | _ => none

/-- Source: `lib/push.js`, `parseIPv6`
Kind: D -/
def parseIPv6 (str : JsString) : Option (List UInt8) := do
  let s ← foldQuad (stripZone str)
  let words ← expand (split [unit ':', unit ':'] s)
  if words.length = 8 then
    return words.flatMap fun w => [UInt8.ofNat ((w >>> 8) &&& 0xff), UInt8.ofNat (w &&& 0xff)]
  else none

/-! ### Classes -/

/-- What the guard makes of an address.
Kind: D -/
inductive AddressClass where
  | loopback
  | blocked
  | ok
  deriving DecidableEq

/-- Source: `lib/push.js`, `classifyV4`
Kind: D -/
def classifyV4 (v4 : V4) : AddressClass :=
  if v4.a = 127 then .loopback
  else if v4.a = 0 then .blocked
  else if v4.a = 10 then .blocked
  else if v4.a = 169 ∧ v4.b = 254 then .blocked
  else if v4.a = 172 ∧ 16 ≤ v4.b ∧ v4.b ≤ 31 then .blocked
  else if v4.a = 192 ∧ v4.b = 168 then .blocked
  else .ok

/-- `bytes[i]`.
Kind: D -/
def byteAt (bytes : List UInt8) (i : ℕ) : UInt8 := bytes.getD i 0

/-- Are the bytes from `i` up to `j` all zero?
Kind: D -/
def zeroFrom (bytes : List UInt8) (i j : ℕ) : Bool :=
  ((bytes.drop i).take (j - i)).all fun x => decide (x = 0)

/-- The octets from `i` on.
Kind: D -/
def v4At (bytes : List UInt8) (i : ℕ) : V4 :=
  ⟨byteAt bytes i, byteAt bytes (i + 1), byteAt bytes (i + 2), byteAt bytes (i + 3)⟩

/-- The class of the sixteen bytes of an IPv6 address: an address that carries an IPv4 address has
the class of that, and of the others only global unicast ones are `ok`.
Source: `lib/push.js`, `classifyAddress`
Kind: D -/
def classifyV6 (bytes : List UInt8) : AddressClass :=
  -- `::ffff:a.b.c.d`
  if zeroFrom bytes 0 10 && decide (byteAt bytes 10 = 0xff) && decide (byteAt bytes 11 = 0xff) then
    classifyV4 (v4At bytes 12)
  -- NAT64 `64:ff9b::/96`
  else if decide (byteAt bytes 0 = 0x00 ∧ byteAt bytes 1 = 0x64 ∧ byteAt bytes 2 = 0xff ∧
      byteAt bytes 3 = 0x9b) && zeroFrom bytes 4 12 then
    classifyV4 (v4At bytes 12)
  -- 6to4 `2002::/16`
  else if byteAt bytes 0 = 0x20 ∧ byteAt bytes 1 = 0x02 then
    classifyV4 (v4At bytes 2)
  -- `::a.b.c.d`, but neither `::` nor `::1`
  else if zeroFrom bytes 0 12 && decide (v4At bytes 12 ≠ ⟨0, 0, 0, 0⟩ ∧ v4At bytes 12 ≠ ⟨0, 0, 0, 1⟩)
  then
    classifyV4 (v4At bytes 12)
  else if zeroFrom bytes 0 15 && decide (byteAt bytes 15 = 1) then .loopback
  else if zeroFrom bytes 0 16 then .blocked
  else if byteAt bytes 0 &&& 0xfe = 0xfc then .blocked
  else if byteAt bytes 0 = 0xfe ∧ byteAt bytes 1 &&& 0xc0 = 0x80 then .blocked
  else if byteAt bytes 0 &&& 0xe0 = 0x20 then .ok
  else .blocked

/-- What cannot be parsed is blocked.
Source: `lib/push.js`, `classifyAddress`
Kind: D -/
def classifyAddress (addr : JsString) (family : Option ℕ) : AddressClass :=
  if family = some 4 ∨ isIPv4 addr = true then
    match parseIPv4 addr with
    | some v4 => classifyV4 v4
    | none => .blocked
  else
    match parseIPv6 addr with
    | some bytes => classifyV6 bytes
    | none => .blocked

end TyoMq.Push
