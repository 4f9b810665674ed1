import LinkedCommit.Json.Basic
import LinkedCommit.Number.Decimal
/-!
# Reading JSON text

A text is read one character at a time.  `Lexer` cuts it into tokens; `Builder` puts tokens
together with a stack of the arrays and objects that are open, at most 127 of them.  Both are
state machines that fold over their input, so a text is read in one pass.

A number without a fraction or an exponent that fits 64 bits is an integer.  Every other
number is scaled from as many leading digits as fit 64 bits by a power of ten, each step
rounded; one that grows past the finite range is refused.
-/

set_option autoImplicit false

namespace LinkedCommit

namespace JsonNumber

def maxUnsigned : Nat := twoTo 64 - 1

def mulRounded (a b : Double) : Double :=
  match a.view, b.view with
  | .finite _ m q, .finite _ n r =>
    if 0 ≤ q + r then Double.nearest false (m * n * twoTo (q + r).toNat) 1
    else Double.nearest false (m * n) (twoTo (-(q + r)).toNat)
  | _, _ => Double.infinity false

def divRounded (a b : Double) : Double :=
  match a.view, b.view with
  | .finite _ m q, .finite _ n r =>
    if 0 ≤ q - r then Double.nearest false (m * twoTo (q - r).toNat) n
    else Double.nearest false m (n * twoTo (r - q).toNat)
  | _, _ => Double.infinity false

def doubleTenTo (k : Nat) : Double := Double.nearest false (tenTo k) 1

def isZero (d : Double) : Bool := d.magnitudeBits = 0

/-- Divides by a power of ten, at most `10 ^ 308` at a time. -/
def scaleDown (f : Double) : Nat → Nat → Double
  | 0, _ => Double.ofMagnitude false 0
  | fuel + 1, k =>
    if k ≤ 308 then divRounded f (doubleTenTo k)
    else if isZero f then f
    else scaleDown (divRounded f (doubleTenTo 308)) fuel (k - 308)

/-- The magnitude `significand · 10 ^ exponent`; none past the finite range. -/
def scaled? (significand : Nat) (exponent : Int) : Option Double :=
  let f := Double.nearest false significand 1
  if 0 ≤ exponent then
    if 308 < exponent then (if isZero f then some f else none)
    else
      let g := mulRounded f (doubleTenTo exponent.toNat)
      if g.isFinite then some g else none
  else some (scaleDown f 4 (-exponent).toNat)

/-- Takes digits as long as the number fits 64 bits; answers the rest too. -/
def takeFitting : Nat → List Char → Nat × List Char
  | n, [] => (n, [])
  | n, d :: ds =>
    let m := 10 * n + (d.toNat - 48)
    if m ≤ maxUnsigned then takeFitting m ds else (n, d :: ds)

/-- An exponent with its sign; its digits are at least one. -/
def exponent? : List Char → Option Int
  | '+' :: ds => (Decimal.digits? ds).map (·)
  | '-' :: ds => (Decimal.digits? ds).map fun n => -(n : Int)
  | ds => (Decimal.digits? ds).map (·)

def maxExponent : Int := twoTo 31 - 1

def float? (whole fraction : List Char) (exponent : Int) : Option Double :=
  let (n, wholeRest) := takeFitting 0 whole
  let (significand, fractionRest) := takeFitting n fraction
  let shift : Int := wholeRest.length - (fraction.length - fractionRest.length : Nat)
  if maxExponent < exponent.natAbs then
    if significand ≠ 0 ∧ 0 < exponent then none else some (Double.ofMagnitude false 0)
  else scaled? significand (shift + exponent)

def withSign (negative : Bool) (d : Double) : Double :=
  Double.ofMagnitude negative d.magnitudeBits

def ofChars? (cs : List Char) : Option JsonNumber :=
  let (negative, cs) := match cs with
    | '-' :: r => (true, r)
    | r => (false, r)
  let whole := cs.takeWhile Char.isDigit
  let rest := cs.dropWhile Char.isDigit
  let leadingZero := whole.head? = some '0' && 1 < whole.length
  if whole.isEmpty || leadingZero then none
  else
    let float (fraction : List Char) (exponent : Int) : Option JsonNumber :=
      (float? whole fraction exponent).map fun d => .float (withSign negative d)
    let afterFraction (fraction rest : List Char) : Option JsonNumber :=
      match rest with
      | [] => float fraction 0
      | e :: r => if e = 'e' || e = 'E' then (exponent? r).bind (float fraction) else none
    match rest with
    | [] =>
      let n := Decimal.value whole
      if negative then
        if n ≠ 0 ∧ n ≤ twoTo 63 then some (.integer (-(n : Int))) else float [] 0
      else if n ≤ maxUnsigned then some (.integer n) else float [] 0
    | '.' :: r =>
      let fraction := r.takeWhile Char.isDigit
      if fraction.isEmpty then none else afterFraction fraction (r.dropWhile Char.isDigit)
    | r => afterFraction [] r

end JsonNumber

namespace Json

inductive Token where
  | openArray
  | closeArray
  | openObject
  | closeObject
  | comma
  | colon
  | string (value : String)
  | number (value : JsonNumber)
  | null
  | bool (value : Bool)

inductive Lexer where
  | between
  /-- Inside a string, its characters so far in reverse. -/
  | inString (done : List Char)
  | inEscape (done : List Char)
  /-- Inside a numbered escape: a high surrogate before it, digits still to come, and the
  number so far. -/
  | inUnicode (done : List Char) (high : Option Nat) (digits : Nat) (code : Nat)
  /-- After a high surrogate, and after the backslash that follows it. -/
  | afterHigh (done : List Char) (high : Nat)
  | afterHighEscape (done : List Char) (high : Nat)
  /-- Inside a number or a word, its characters so far in reverse. -/
  | inNumber (done : List Char)
  | inWord (done : List Char)

namespace Lexer

def isNumberChar (c : Char) : Bool :=
  c.isDigit || c = '-' || c = '+' || c = '.' || c = 'e' || c = 'E'

def isWordChar (c : Char) : Bool := 'a' ≤ c && c ≤ 'z'

def wordToken? (cs : List Char) : Option Token :=
  if cs = ['n', 'u', 'l', 'l'] then some .null
  else if cs = ['t', 'r', 'u', 'e'] then some (.bool true)
  else if cs = ['f', 'a', 'l', 's', 'e'] then some (.bool false)
  else none

def escaped? (c : Char) : Option Char :=
  if c = '"' || c = '\\' || c = '/' then some c
  else if c = 'b' then some '\x08'
  else if c = 'f' then some '\x0c'
  else if c = 'n' then some '\n'
  else if c = 'r' then some '\r'
  else if c = 't' then some '\t'
  else none

def hexValue? (c : Char) : Option Nat :=
  if c.isDigit then some (c.toNat - 48)
  else if 'a' ≤ c && c ≤ 'f' then some (c.toNat - 87)
  else if 'A' ≤ c && c ≤ 'F' then some (c.toNat - 55)
  else none

def isHigh (code : Nat) : Bool := 0xd800 ≤ code && code < 0xdc00
def isLow (code : Nat) : Bool := 0xdc00 ≤ code && code < 0xe000

/-- The state after a complete numbered escape; a surrogate without its partner is refused. -/
def finishUnicode (done : List Char) (high : Option Nat) (code : Nat) : Option Lexer :=
  match high with
  | some h =>
    if isLow code then
      some (.inString (Char.ofNat (0x10000 + (h - 0xd800) * 0x400 + (code - 0xdc00)) :: done))
    else none
  | none =>
    if isHigh code then some (.afterHigh done code)
    else if isLow code then none
    else some (.inString (Char.ofNat code :: done))

def start (c : Char) : Option (Lexer × List Token) :=
  if c = ' ' || c = '\n' || c = '\r' || c = '\t' then some (.between, [])
  else if c = '[' then some (.between, [.openArray])
  else if c = ']' then some (.between, [.closeArray])
  else if c = '\x7b' then some (.between, [.openObject])
  else if c = '\x7d' then some (.between, [.closeObject])
  else if c = ',' then some (.between, [.comma])
  else if c = ':' then some (.between, [.colon])
  else if c = '"' then some (.inString [], [])
  else if isNumberChar c then some (.inNumber [c], [])
  else if isWordChar c then some (.inWord [c], [])
  else none

def step : Lexer → Char → Option (Lexer × List Token)
  | .between, c => start c
  | .inString done, c =>
    if c = '"' then some (.between, [.string (String.ofList done.reverse)])
    else if c = '\\' then some (.inEscape done, [])
    else if c.toNat < 0x20 then none
    else some (.inString (c :: done), [])
  | .inEscape done, c =>
    if c = 'u' then some (.inUnicode done none 4 0, [])
    else (escaped? c).map fun d => (.inString (d :: done), [])
  | .inUnicode done high digits code, c =>
    (hexValue? c).bind fun v =>
      if digits ≤ 1 then (finishUnicode done high (16 * code + v)).map (·, [])
      else some (.inUnicode done high (digits - 1) (16 * code + v), [])
  | .afterHigh done high, c => if c = '\\' then some (.afterHighEscape done high, []) else none
  | .afterHighEscape done high, c =>
    if c = 'u' then some (.inUnicode done (some high) 4 0, []) else none
  | .inNumber done, c =>
    if isNumberChar c then some (.inNumber (c :: done), [])
    else do
      let n ← JsonNumber.ofChars? done.reverse
      let (next, tokens) ← start c
      return (next, .number n :: tokens)
  | .inWord done, c =>
    if isWordChar c then some (.inWord (c :: done), [])
    else do
      let w ← wordToken? done.reverse
      let (next, tokens) ← start c
      return (next, w :: tokens)

def finish : Lexer → Option (List Token)
  | .between => some []
  | .inNumber done => (JsonNumber.ofChars? done.reverse).map fun n => [.number n]
  | .inWord done => (wordToken? done.reverse).map fun w => [w]
  | _ => none

end Lexer

/-- An array or object that is still open: its items or members so far, the last one first. -/
inductive Frame where
  | array (items : List Json)
  | object (members : List (String × Json))

inductive Builder where
  | value (stack : List Frame)
  /-- After the bracket of an array: a value or its end. -/
  | firstItem (stack : List Frame)
  /-- After the brace of an object: a name or its end. -/
  | firstName (stack : List Frame)
  | name (stack : List Frame)
  | colon (key : String) (stack : List Frame)
  | memberValue (key : String) (stack : List Frame)
  | afterValue (stack : List Frame)
  | done (result : Json)

namespace Builder

def maxOpen : Nat := 127

def complete (v : Json) (key : Option String) : List Frame → Option Builder
  | [] => some (.done v)
  | .array items :: rest => some (.afterValue (.array (v :: items) :: rest))
  | .object members :: rest => key.map fun k => .afterValue (.object ((k, v) :: members) :: rest)

def openFrame (frame : Frame) (next : List Frame → Builder) (stack : List Frame) :
    Option Builder :=
  if stack.length < maxOpen then some (next (frame :: stack)) else none

def pushKey (key : Option String) (stack : List Frame) : List Frame :=
  match key, stack with
  | some k, .object members :: rest => .object ((k, .null) :: members) :: rest
  | _, stack => stack

def beginValue (key : Option String) (stack : List Frame) : Token → Option Builder
  | .openArray => openFrame (.array []) .firstItem (pushKey key stack)
  | .openObject => openFrame (.object []) .firstName (pushKey key stack)
  | .string s => complete (.string s) key stack
  | .number n => complete (.number n) key stack
  | .null => complete .null key stack
  | .bool b => complete (.bool b) key stack
  | _ => none

def close (v : Json) : List Frame → Option Builder
  | .object ((k, _) :: members) :: rest => complete v (some k) (.object members :: rest)
  | stack => complete v none stack

def step : Builder → Token → Option Builder
  | .value stack, t => beginValue none stack t
  | .memberValue key stack, t => beginValue (some key) stack t
  | .firstItem stack, t =>
    match t, stack with
    | .closeArray, .array items :: rest => close (.array items.reverse) rest
    | t, stack => beginValue none stack t
  | .firstName stack, t =>
    match t, stack with
    | .closeObject, .object members :: rest => close (ofPairs members.reverse) rest
    | .string k, stack => some (.colon k stack)
    | _, _ => none
  | .name stack, t =>
    match t with
    | .string k => some (.colon k stack)
    | _ => none
  | .colon key stack, t =>
    match t with
    | .colon => some (.memberValue key stack)
    | _ => none
  | .afterValue stack, t =>
    match t, stack with
    | .comma, .array _ :: _ => some (.value stack)
    | .comma, .object _ :: _ => some (.name stack)
    | .closeArray, .array items :: rest => close (.array items.reverse) rest
    | .closeObject, .object members :: rest => close (ofPairs members.reverse) rest
    | _, _ => none
  | .done _, _ => none

end Builder

structure Reading where
  lexer : Lexer
  builder : Builder

def Reading.step (r : Reading) (c : Char) : Option Reading := do
  let (lexer, tokens) ← r.lexer.step c
  let builder ← tokens.foldlM Builder.step r.builder
  return ⟨lexer, builder⟩

def ofChars? (cs : List Char) : Option Json := do
  let r ← cs.foldlM Reading.step ⟨.between, .value []⟩
  let builder ← (← r.lexer.finish).foldlM Builder.step r.builder
  match builder with
  | .done v => some v
  | _ => none

def parse? (s : String) : Option Json := ofChars? s.toList

def parseBytes? (bytes : List UInt8) : Option Json :=
  (String.fromUTF8? ⟨bytes.toArray⟩).bind parse?

end Json

end LinkedCommit
