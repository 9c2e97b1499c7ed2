import Lowering.Json.Value
import Lowering.Numeric.Power

/-!
# Tokens of a document

A document is first cut into tokens by one pass over its characters.

* `Json.Token`;
* `Json.Number.ofNumeral?`: the value of a numeral.  An integer is exact as long as it fits;
  any other numeral keeps as many leading digits as fit 64 bits and is then scaled by a power of
  ten in binary arithmetic;
* `Json.tokens?`: the tokens of a text, or nothing when the text has none.
-/

namespace Lowering.Json

/-- A token. A text or a number that cannot be read has no value. -/
inductive Token
  | openArray
  | closeArray
  | openObject
  | closeObject
  | comma
  | colon
  | null
  | bool (b : Bool)
  | number (n : Option Number)
  | string (s : Option String)
  deriving DecidableEq, Repr

/-! ### Numerals -/

/-- The value of a decimal digit. -/
def digitValue (c : Char) : Nat := c.toNat - '0'.toNat

/-- The value of a run of decimal digits. -/
def digitsValue (cs : List Char) : Nat := cs.foldl (fun n c => 10 * n + digitValue c) 0

/-- The leading digits that fit 64 bits, and the power of ten that scales them. -/
structure Leading where
  significand : Nat
  exponent : Int
  full : Bool
  deriving DecidableEq, Repr

namespace Leading

/-- No digit yet. -/
def empty : Leading := ⟨0, 0, false⟩

/-- Whether one more digit still fits. -/
def fits (l : Leading) (c : Char) : Bool :=
  !l.full && decide (10 * l.significand + digitValue c < twoTo 64)

/-- One more digit before the point; a digit that does not fit only scales. -/
def pushWhole (l : Leading) (c : Char) : Leading :=
  if l.fits c then { l with significand := 10 * l.significand + digitValue c }
  else { l with exponent := l.exponent + 1, full := true }

/-- One more digit after the point; a digit that does not fit is dropped with all later ones. -/
def pushFraction (l : Leading) (c : Char) : Leading :=
  if l.fits c then
    { l with significand := 10 * l.significand + digitValue c, exponent := l.exponent - 1 }
  else { l with full := true }

end Leading

/-- The significand scaled by a power of ten in binary arithmetic; nothing when out of range. -/
def scaled (significand : Nat) (exponent : Int) : Option Binary64 :=
  let x := Binary64.ofNat significand
  if 0 ≤ exponent then
    if exponent ≤ 308 then
      let r := x.mul (.powerOfTen exponent.toNat)
      if r.magnitude = .infinite then none else some r
    else if significand = 0 then some x else none
  else
    let n := (-exponent).toNat
    let whole := (n - 1) / 308
    let x := Nat.repeat (fun y => y.div (.powerOfTen 308)) (min whole 4) x
    some (x.div (.powerOfTen (n - 308 * whole)))

namespace Number

/-- The number `± significand * 10 ^ exponent`. -/
def ofParts (negative : Bool) (significand : Nat) (exponent : Int) : Option Number :=
  (scaled significand exponent).map fun x => .float (if negative then x.neg else x)

/-- An integer numeral without its sign. A negative zero is a binary number. -/
def ofInteger (negative : Bool) (n : Nat) : Number :=
  if negative then
    if n = 0 ∨ twoTo 63 < n then .float (Binary64.ofNat n).neg else .integer (-n)
  else .integer n

/-- The value of a numeral's parts: the digits before the point, those after it, and the
exponent. -/
def ofDigits (negative : Bool) (whole : List Char) (fraction : Option (List Char))
    (exponent : Option Int) : Option Number :=
  let l := whole.foldl Leading.pushWhole .empty
  match fraction, exponent with
  | none, none =>
    if l.full then ofParts negative l.significand l.exponent
    else some (ofInteger negative l.significand)
  | _, _ =>
    let l := (fraction.getD []).foldl Leading.pushFraction { l with full := false }
    ofParts negative l.significand (l.exponent + exponent.getD 0)

/-- The fraction of a numeral, and the rest: nothing when the point has no digit after it. -/
def fraction? : List Char → Option (Option (List Char) × List Char)
  | '.' :: cs =>
    let ds := cs.takeWhile Char.isDigit
    if ds.isEmpty then none else some (some ds, cs.dropWhile Char.isDigit)
  | cs => some (none, cs)

/-- The exponent that makes up the whole rest of a numeral. -/
def exponent? : List Char → Option (Option Int)
  | [] => some none
  | c :: cs =>
    if c = 'e' ∨ c = 'E' then
      let (negative, ds) := match cs with
        | '-' :: ds => (true, ds)
        | '+' :: ds => (false, ds)
        | ds => (false, ds)
      if ds.isEmpty || !ds.all Char.isDigit then none
      else
        let e : Int := digitsValue ds
        some (some (if negative then -e else e))
    else none

/-- The value of a numeral: nothing when it is malformed, and an empty value when it is out
of range. -/
def ofNumeral? (cs : List Char) : Option (Option Number) := do
  let (negative, cs) := match cs with
    | '-' :: cs => (true, cs)
    | cs => (false, cs)
  let whole := cs.takeWhile Char.isDigit
  if whole.isEmpty || (whole.head? == some '0' && 1 < whole.length) then none
  else
    let (fraction, cs) ← fraction? (cs.dropWhile Char.isDigit)
    let exponent ← exponent? cs
    some (ofDigits negative whole fraction exponent)

end Number

/-! ### Texts -/

/-- A part of a text: a character, or half of a surrogate pair. -/
inductive Piece
  | char (c : Char)
  | half (unit : Nat)
  deriving DecidableEq, Repr

/-- The piece that four hexadecimal digits stand for. -/
def Piece.ofUnit (n : Nat) : Piece :=
  if 0xD800 ≤ n ∧ n < 0xE000 then .half n else .char (Char.ofNat n)

/-- The characters of a text: the two halves of a pair, in order, are one character, and any
other half spoils the text. -/
def joinPieces : List Piece → Option (List Char)
  | [] => some []
  | .char c :: rest => (joinPieces rest).map (c :: ·)
  | .half high :: .half low :: rest =>
    if high < 0xDC00 ∧ 0xDC00 ≤ low then
      (joinPieces rest).map (Char.ofNat (0x10000 + (high - 0xD800) * 0x400 + (low - 0xDC00)) :: ·)
    else none
  | .half _ :: _ => none

/-- The value of a hexadecimal digit. -/
def hexValue? (c : Char) : Option Nat :=
  if c.isDigit then some (digitValue c)
  else if 'a' ≤ c ∧ c ≤ 'f' then some (c.toNat - 'a'.toNat + 10)
  else if 'A' ≤ c ∧ c ≤ 'F' then some (c.toNat - 'A'.toNat + 10)
  else none

/-- The character that a one-letter escape stands for. -/
def escaped? : Char → Option Char
  | '"' => some '"'
  | '\\' => some '\\'
  | '/' => some '/'
  | 'b' => some '\x08'
  | 'f' => some '\x0c'
  | 'n' => some '\n'
  | 'r' => some '\r'
  | 't' => some '\t'
  | _ => none

/-! ### The pass -/

/-- Where the pass stands; what was read of the current token is kept in reverse. -/
inductive Mode
  | between
  | word (read : List Char)
  | numeral (read : List Char)
  | text (read : List Piece)
  | escape (read : List Piece)
  | unit (read : List Piece) (missing : Nat) (value : Nat)
  deriving DecidableEq, Repr

/-- The token of a word. -/
def wordToken? (cs : List Char) : Option Token :=
  if cs = ['n', 'u', 'l', 'l'] then some .null
  else if cs = ['t', 'r', 'u', 'e'] then some (.bool true)
  else if cs = ['f', 'a', 'l', 's', 'e'] then some (.bool false)
  else none

/-- Whether a character can belong to a numeral. -/
def isNumeral (c : Char) : Bool :=
  c.isDigit || c == '-' || c == '+' || c == '.' || c == 'e' || c == 'E'

/-- The mode that a character between tokens leads to, and the token that it makes up alone. -/
def start? (c : Char) : Option (Mode × List Token) :=
  if c = ' ' ∨ c = '\n' ∨ c = '\t' ∨ c = '\r' then some (.between, [])
  else if c = '[' then some (.between, [.openArray])
  else if c = ']' then some (.between, [.closeArray])
  else if c = '\x7b' then some (.between, [.openObject])
  else if c = '\x7d' then some (.between, [.closeObject])
  else if c = ',' then some (.between, [.comma])
  else if c = ':' then some (.between, [.colon])
  else if c = '"' then some (.text [], [])
  else if c = '-' ∨ c.isDigit then some (.numeral [c], [])
  else if c.isAlpha then some (.word [c], [])
  else none

/-- The tokens that end with the current mode, when a token can end there. -/
def finish? : Mode → Option (List Token)
  | .between => some []
  | .word read => (wordToken? read.reverse).map ([·])
  | .numeral read => (Number.ofNumeral? read.reverse).map fun n => [.number n]
  | _ => none

/-- One character of the pass: the next mode and the tokens completed. -/
def advance? (mode : Mode) (c : Char) : Option (Mode × List Token) :=
  match mode with
  | .between => start? c
  | .word read => if c.isAlpha then some (.word (c :: read), []) else next? mode
  | .numeral read => if isNumeral c then some (.numeral (c :: read), []) else next? mode
  | .text read =>
    if c = '"' then some (.between, [.string ((joinPieces read.reverse).map String.ofList)])
    else if c = '\\' then some (.escape read, [])
    else if c.toNat < 0x20 then none
    else some (.text (.char c :: read), [])
  | .escape read =>
    if c = 'u' then some (.unit read 4 0, [])
    else (escaped? c).map fun d => (.text (.char d :: read), [])
  | .unit read missing value => do
    let value := 16 * value + (← hexValue? c)
    if missing ≤ 1 then some (.text (.ofUnit value :: read), [])
    else some (.unit read (missing - 1) value, [])
where
  /-- The current token ends, and the character is taken between tokens. -/
  next? (mode : Mode) : Option (Mode × List Token) := do
    let ended ← finish? mode
    let (mode, started) ← start? c
    some (mode, ended ++ started)

/-- One character of the pass over a text, with the tokens made so far in reverse. -/
def take? (pass : Mode × List Token) (c : Char) : Option (Mode × List Token) :=
  (advance? pass.1 c).map fun (mode, made) => (mode, made.reverse ++ pass.2)

/-- The tokens of a text. -/
def tokens? (s : String) : Option (List Token) := do
  let (mode, made) ← s.toList.foldlM take? (.between, [])
  let ended ← finish? mode
  some (made.reverse ++ ended)

end Lowering.Json
