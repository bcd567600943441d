import Mathlib.Data.Nat.Digits.Defs
import VertexVeil.Lib.Lines
import VertexVeil.PrivateIntents

/-!
# Parse errors of the private-intent loader

The loader hands its text to the TOML parser and redacts the parser's message: lines with a pipe are dropped, the others trimmed and
joined, quoted substrings blanked. `Literal.rendered` is how such a message shows the value it is about.
-/

namespace VertexVeil

open Codec

/-- What is shown in place of a quoted substring. -/
def redactedMark : Text := "\"[REDACTED]\"".toList

/-- The loop of `redact_quoted`: outside quotes, or after an opening quote on the way past the closing one. -/
def redactQuotedFrom : Option Char → Text → Text
  | _, [] => []
  | none, c :: chars =>
    if c = '"' ∨ c = '\'' then redactedMark ++ redactQuotedFrom (some c) chars else c :: redactQuotedFrom none chars
  | some quote, nc :: chars => if nc = quote then redactQuotedFrom none chars else redactQuotedFrom (some quote) chars

/-- Blank quoted substrings. -/
def redactQuoted (s : Text) : Text := redactQuotedFrom none s

/-- The lines without a pipe, trimmed, those that are not empty, joined by blanks. -/
def cleanedLines (raw : Text) : Text :=
  [' '].intercalate ((((Lines.lines '\n' '\r' raw).filter (fun l => '|' ∉ l)).map trim).filter (· ≠ []))

/-- The error for a message of the parser. -/
def redactParseError (raw : Text) : PrivateIntentError := .parse (redactQuoted (cleanedLines raw))

/-- Load a bundle from text. What the TOML parser makes of the text, a bundle or a message, is a parameter. -/
def fromTomlStr (parse : Text → Except Text RawBundle) (Γ : Crypto) (t : TopologyConfig) (text : Text) :
    Except (Fault PrivateIntentError) Agents :=
  match parse text with
  | .error e => .error (.error (redactParseError e))
  | .ok bundle => agentsFromBundle Γ t bundle

/-! ## How a message of the parser shows a value -/

/-- A character that a text shows as itself in its `Debug` form: of ASCII the printable ones, else as Unicode has it. -/
def shownAsIs (printable : Char → Bool) (c : Char) : Bool :=
  if c.toNat < 0x80 then 0x20 ≤ c.toNat && c.toNat < 0x7F else printable c

/-- `char::escape_unicode` -/
def escapeUnicode (c : Char) : Text := "\\u\x7b".toList ++ (Nat.digits 16 c.toNat).reverse.map hexDigit ++ ['\x7d']

/-- A character in the `Debug` form of a text. -/
def escapeDebug (printable : Char → Bool) (c : Char) : Text :=
  if c = '\x00' then ['\\', '0']
  else if c = '\t' then ['\\', 't']
  else if c = '\r' then ['\\', 'r']
  else if c = '\n' then ['\\', 'n']
  else if c = '\\' ∨ c = '"' then ['\\', c]
  else if shownAsIs printable c then [c] else escapeUnicode c

/-- `{:?}` of a text. -/
def debugStr (printable : Char → Bool) (s : Text) : Text := '"' :: (s.flatMap (escapeDebug printable) ++ ['"'])

/-- What a number is written with: digits, a sign, a point, an exponent, or a name such as `inf`. -/
def isNumberChar (c : Char) : Bool := c.isAlphanum || c == '-' || c == '+' || c == '.'

/-- The digits of a number. -/
abbrev NumberText : Type := { digits : Text // digits ≠ [] ∧ digits.all isNumberChar = true }

/-- A value that does not have the expected type. -/
inductive Literal where
  | string (s : Text)
  | integer (digits : NumberText)
  | floatingPoint (digits : NumberText)

/-- What kind of a value it is. -/
inductive LiteralKind where
  | string | integer | floatingPoint
  deriving DecidableEq

namespace Literal

def kind : Literal → LiteralKind
  | string _ => .string
  | integer _ => .integer
  | floatingPoint _ => .floatingPoint

/-- The value in a message: `Display` of `serde::de::Unexpected`. -/
def rendered (printable : Char → Bool) : Literal → Text
  | string s => "string ".toList ++ debugStr printable s
  | integer digits => "integer `".toList ++ digits.val ++ ['`']
  | floatingPoint digits => "floating point `".toList ++ digits.val ++ ['`']

end Literal

end VertexVeil
