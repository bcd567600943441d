import VertexVeil.Observer

/-!
# The lines a node prints

A node prints a line for each call of its observer. The orchestrator reads the lines of its children and looks for those that say a
round is over.
-/

namespace VertexVeil

open Codec

/-- A number in decimal. -/
def decimalOf (n : UInt64) : Text := Nat.toDigits 10 n.toNat

/-- `short_id` -/
def shortId (n : NodeId) : Text := n.toHex.take 8 ++ "…".toList

/-! ## Printing -/

/-- A line with the alias of the node and a tag. -/
def emitLine (nodeAlias tag detail : Text) : Text :=
  "[".toList ++ nodeAlias ++ "] ".toList ++ tag ++ " ".toList ++ detail

/-- A detail that names a node and a round. -/
def nodeDetail (what : Text) (node : NodeId) (between : Text) (round : RoundId) : Text :=
  what ++ shortId node ++ between ++ decimalOf round

/-- The detail of a round that is over. -/
def committedDetail (round : RoundId) (finalized : Bool) : Text :=
  "round ".toList ++ decimalOf round ++ " committed (finalized=".toList ++ (if finalized then "true" else "false").toList ++ ")".toList

/-- The detail of a run that is given up. -/
def abortDetail (reason : String) (round : RoundId) : Text := reason.toList ++ " at round=".toList ++ decimalOf round

namespace Milestone

/-- The line of a call: `StdoutObserver`. -/
def line (nodeAlias : Text) : Milestone → Text
  | .roundCommitted round finalized => emitLine nodeAlias "[VERTEX]".toList (committedDetail round finalized)
  | .commitment node round => emitLine nodeAlias "[COORD]".toList (nodeDetail "commitment from ".toList node " round=".toList round)
  | .proposal proposer round matchedCapability =>
    emitLine nodeAlias "[COORD]".toList
      (nodeDetail "proposal by ".toList proposer (" (".toList ++ matchedCapability ++ ") round=".toList) round)
  | .proofVerified node round =>
    emitLine nodeAlias "[COORD]".toList (nodeDetail "proof verified for ".toList node " round=".toList round)
  | .receipt provider round =>
    emitLine nodeAlias "[COORD]".toList (nodeDetail "receipt signed by ".toList provider " round=".toList round)
  | .abort reason round => emitLine nodeAlias "[ABORT]".toList (abortDetail reason round)

/-- The round a call says is over. -/
def roundOver : Milestone → Option RoundId
  | .roundCommitted round _ => some round
  | _ => none

end Milestone

namespace Node

/-- The first line of a node. -/
def engineStart (nodeAlias bind : Text) (peers : Nat) (rejoin : Bool) : Text :=
  emitLine nodeAlias "[VERTEX]".toList ("engine start addr=".toList ++ bind ++ " peers=".toList ++ Nat.toDigits 10 peers ++
    " rejoin=".toList ++ (if rejoin then "true" else "false").toList)

/-- The line before the first session. -/
def bootstrapComplete (nodeAlias : Text) : Text := emitLine nodeAlias "[VERTEX]".toList "bootstrap complete".toList

/-- The lines of a node that runs one session. -/
def output (nodeAlias bind : Text) (peers : Nat) (rejoin : Bool) (told : List Milestone) : List Text :=
  engineStart nodeAlias bind peers rejoin :: bootstrapComplete nodeAlias :: told.map (·.line nodeAlias)

end Node

/-! ## Parsing -/

/-- What follows the first place where a tag stands. -/
def afterTag (tag : Text) : Text → Option Text
  | [] => if tag = [] then some [] else none
  | c :: s => if tag <+: c :: s then some ((c :: s).drop tag.length) else afterTag tag s

/-- `str::split_whitespace` -/
def splitWhitespace (s : Text) : List Text := (s.splitOnP isWhitespace).filter (· ≠ [])

/-- A number without a plus sign before it. -/
def afterPlus : Text → Text
  | '+' :: digits => digits
  | s => s

/-- `str::parse::<u64>` -/
def parseU64 (s : Text) : Option UInt64 :=
  let digits := afterPlus s
  if digits = [] ∨ ¬ digits.all isAsciiDigit then none
  else if Nat.ofDigitChars 10 digits 0 < 2 ^ 64 then some (UInt64.ofNat (Nat.ofDigitChars 10 digits 0))
  else none

/-- The number after the word `round`. -/
def roundOf : List Text → Option UInt64
  | [] => none
  | word0 :: words => if word0 ≠ "round".toList then none else words.head?.bind parseU64

/-- `parse_round_committed` -/
def parseRoundCommitted (line : Text) : Option UInt64 :=
  (afterTag "[VERTEX]".toList line).bind fun rest => roundOf (splitWhitespace (rest.dropWhile isWhitespace))

example : parseRoundCommitted "[n3] [VERTEX] round 12 committed (finalized=true)".toList = some 12 := by decide +kernel

end VertexVeil
