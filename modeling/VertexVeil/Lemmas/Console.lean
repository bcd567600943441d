import VertexVeil.Console

/-!
# Helpers about the console: which lines say that a round is over

The tag is looked for in the whole line, so what stands before it and in the details matters: a bracket there may hide it or look
like it. Aliases and details without brackets do neither.
-/

namespace VertexVeil

open Codec

namespace ConsoleAux

/-! ## Finding the tag -/

theorem afterTag_self (tag s : Text) (h : tag ≠ []) : afterTag tag (tag ++ s) = some s := by
  cases tag with
  | nil => exact absurd rfl h
  | cons c tag =>
    rw [List.cons_append, afterTag, if_pos (List.cons_prefix_cons.mpr ⟨rfl, List.prefix_append tag s⟩)]
    exact congrArg some (List.drop_left' rfl)

/-- A place where the tag does not begin is passed over. -/
theorem afterTag_cons {tag : Text} {c : Char} {s : Text} (h : ¬ tag <+: c :: s) : afterTag tag (c :: s) = afterTag tag s := by
  rw [afterTag, if_neg h]

/-- A text without the tag's first character is passed over. -/
theorem afterTag_append {a : Char} {tag x s : Text} (h : a ∉ x) : afterTag (a :: tag) (x ++ s) = afterTag (a :: tag) s := by
  induction x with
  | nil => rfl
  | cons c x ih =>
    rw [List.mem_cons, not_or] at h
    rw [List.cons_append, afterTag_cons fun hp => h.1 (List.cons_prefix_cons.mp hp).1, ih h.2]

theorem afterTag_none {a : Char} {tag x : Text} (h : a ∉ x) : afterTag (a :: tag) x = none := by
  rw [← List.append_nil x, afterTag_append h]
  rfl

/-- An alias that neither has a bracket in it nor begins as the tag does. -/
structure PlainAlias (nodeAlias : Text) : Prop where
  bracket : '[' ∉ nodeAlias
  first : nodeAlias.head? ≠ some 'V'

/-- The tag is looked for after a plain alias. -/
theorem afterTag_emitLine {nodeAlias : Text} (h : PlainAlias nodeAlias) (tag detail : Text) :
    afterTag "[VERTEX]".toList (emitLine nodeAlias tag detail) = afterTag "[VERTEX]".toList (tag ++ " ".toList ++ detail) := by
  have hshape : emitLine nodeAlias tag detail = '[' :: ((nodeAlias ++ "] ".toList) ++ (tag ++ " ".toList ++ detail)) := by
    simp [emitLine]
  have hno : '[' ∉ nodeAlias ++ "] ".toList := by
    rw [List.mem_append, not_or]
    exact ⟨h.bracket, by decide⟩
  have hhead : ¬ "[VERTEX]".toList <+: '[' :: ((nodeAlias ++ "] ".toList) ++ (tag ++ " ".toList ++ detail)) := by
    intro hp
    have hp' : "VERTEX]".toList <+: (nodeAlias ++ "] ".toList) ++ (tag ++ " ".toList ++ detail) := (List.cons_prefix_cons.mp hp).2
    have hfirst := h.first
    cases nodeAlias with
    | nil => exact absurd (List.cons_prefix_cons.mp hp').1 (by decide)
    | cons c cs => exact hfirst (congrArg some (List.cons_prefix_cons.mp hp').1.symm)
  rw [hshape, afterTag_cons hhead]
  exact afterTag_append hno

/-! ## Words -/

theorem solid_of_all {w : Text} (h : w.all (fun x => !isWhitespace x) = true) : ∀ x ∈ w, isWhitespace x = false := by
  simpa using h

/-- A word at the beginning. -/
theorem splitWhitespace_cons {w s : Text} {c : Char} (hw : ∀ x ∈ w, isWhitespace x = false) (hne : w ≠ [])
    (hc : isWhitespace c = true) : splitWhitespace (w ++ c :: s) = w :: splitWhitespace s := by
  rw [splitWhitespace, List.splitOnP_append_cons_of_forall_mem hw c hc, List.filter_cons_of_pos (by simpa using hne)]
  rfl

/-- A line with the tag, whose details begin with a word. -/
theorem parse_vertex {nodeAlias w s : Text} {c : Char} (h : PlainAlias nodeAlias) (hw : ∀ x ∈ w, isWhitespace x = false) (hne : w ≠ [])
    (hc : isWhitespace c = true) :
    parseRoundCommitted (emitLine nodeAlias "[VERTEX]".toList (w ++ c :: s)) = roundOf (w :: splitWhitespace s) := by
  have hafter : afterTag "[VERTEX]".toList (emitLine nodeAlias "[VERTEX]".toList (w ++ c :: s)) = some (' ' :: (w ++ c :: s)) := by
    rw [afterTag_emitLine h, List.append_assoc, afterTag_self _ _ (by decide)]
    rfl
  have hdrop : (' ' :: (w ++ c :: s)).dropWhile isWhitespace = w ++ c :: s := by
    rw [List.dropWhile_cons_of_pos (by decide)]
    cases w with
    | nil => exact absurd rfl hne
    | cons x w => rw [List.cons_append, List.dropWhile_cons_of_neg (by simp [hw x (List.mem_cons_self ..)])]
  rw [parseRoundCommitted, hafter, Option.bind_some, hdrop, splitWhitespace_cons hw hne hc]

/-- A line with another tag, and no bracket in its details. -/
theorem parse_other {nodeAlias tag detail : Text} {a : Char} {as : Text} (h : PlainAlias nodeAlias) (htag : tag = '[' :: a :: as)
    (ha : a ≠ 'V') (has : '[' ∉ a :: as) (hdetail : '[' ∉ detail) : parseRoundCommitted (emitLine nodeAlias tag detail) = none := by
  subst htag
  have hno : '[' ∉ a :: as ++ " ".toList ++ detail := by
    simp only [List.mem_append, not_or]
    exact ⟨⟨has, by decide⟩, hdetail⟩
  have hnone : afterTag "[VERTEX]".toList ('[' :: (a :: as ++ " ".toList ++ detail)) = none := by
    rw [afterTag_cons fun hp => ?_]
    · exact afterTag_none hno
    · have hp' : "VERTEX]".toList <+: a :: as ++ " ".toList ++ detail := (List.cons_prefix_cons.mp hp).2
      exact ha (List.cons_prefix_cons.mp hp').1.symm
  rw [parseRoundCommitted, afterTag_emitLine h]
  exact congrArg (Option.bind · _) hnone

/-! ## Numbers -/

theorem digit_of_mem {n : UInt64} {c : Char} (h : c ∈ decimalOf n) : 48 ≤ c.toNat ∧ c.toNat ≤ 57 := by
  have hd := Nat.isDigit_of_mem_toDigits (by omega) (by omega) h
  simp only [Char.isDigit, Bool.and_eq_true, decide_eq_true_eq] at hd
  exact ⟨UInt32.le_iff_toNat_le.mp hd.1, UInt32.le_iff_toNat_le.mp hd.2⟩

theorem whitespace_of_mem {n : UInt64} {c : Char} (h : c ∈ decimalOf n) : isWhitespace c = false := by
  obtain ⟨hlo, hhi⟩ := digit_of_mem h
  simp only [isWhitespace, Bool.or_eq_false_iff, Bool.and_eq_false_iff, decide_eq_false_iff_not, beq_eq_false_iff_ne]
  omega

theorem ne_of_mem {n : UInt64} {c d : Char} (h : c ∈ decimalOf n) (hd : d.toNat < 48 ∨ 57 < d.toNat) : c ≠ d := by
  rintro rfl
  obtain ⟨hlo, hhi⟩ := digit_of_mem h
  omega

theorem decimalOf_ne_nil (n : UInt64) : decimalOf n ≠ [] := Nat.toDigits_ne_nil

theorem afterPlus_decimalOf (n : UInt64) : afterPlus (decimalOf n) = decimalOf n := by
  have hplus : ∀ c ∈ decimalOf n, c ≠ '+' := fun c hc => ne_of_mem hc (by decide)
  generalize decimalOf n = s at hplus
  unfold afterPlus
  split
  · exact absurd rfl (hplus '+' (List.mem_cons_self ..))
  · rfl

/-- A number is read back. -/
theorem parseU64_decimalOf (n : UInt64) : parseU64 (decimalOf n) = some n := by
  have hall : (decimalOf n).all isAsciiDigit = true :=
    List.all_eq_true.mpr fun c hc => by simpa [isAsciiDigit] using digit_of_mem hc
  have hvalue : Nat.ofDigitChars 10 (decimalOf n) 0 = n.toNat := Nat.ofDigitChars_ten_toDigits
  simp only [parseU64, afterPlus_decimalOf]
  rw [if_neg (by simp [decimalOf_ne_nil, hall]), hvalue, if_pos n.toNat_lt, UInt64.ofNat_toNat]

/-! ## The lines of a node -/

theorem bracket_notMem_shortId (n : NodeId) : '[' ∉ shortId n := by
  intro h
  rcases List.mem_append.mp h with h | h
  · exact absurd (List.all_eq_true.mp (hexEncode_plain n.bytes.toList).1 _ (List.mem_of_mem_take h)) (by decide)
  · exact absurd h (by decide)

theorem bracket_notMem_decimalOf (n : UInt64) : '[' ∉ decimalOf n := fun h => ne_of_mem h (by decide) rfl

/-- A call whose texts have no brackets in them. -/
def Unbracketed : Milestone → Prop
  | .proposal _ _ matchedCapability => '[' ∉ matchedCapability
  | .abort reason _ => '[' ∉ reason.toList
  | _ => True

theorem roundOf_round (words : List Text) : roundOf ("round".toList :: words) = words.head?.bind parseU64 := by
  rw [roundOf, if_neg fun h => h rfl]

theorem bracket_notMem_nodeDetail {what between : Text} (node : NodeId) (round : RoundId) (hwhat : '[' ∉ what)
    (hbetween : '[' ∉ between) : '[' ∉ nodeDetail what node between round := by
  simp only [nodeDetail, List.mem_append, not_or]
  exact ⟨⟨⟨hwhat, bracket_notMem_shortId _⟩, hbetween⟩, bracket_notMem_decimalOf _⟩

/-- A round that is over is read from its line. -/
theorem parse_roundCommitted {nodeAlias : Text} (h : PlainAlias nodeAlias) (round : RoundId) (finalized : Bool) :
    parseRoundCommitted ((Milestone.roundCommitted round finalized).line nodeAlias) = some round := by
  have hshape : committedDetail round finalized = "round".toList ++ ' ' :: (decimalOf round ++
      ' ' :: ("committed (finalized=".toList ++ (if finalized then "true" else "false").toList ++ ")".toList)) := by
    have hword : "round ".toList = "round".toList ++ [' '] := by decide
    have hnext : " committed (finalized=".toList = ' ' :: "committed (finalized=".toList := by decide
    unfold committedDetail
    rw [hword, hnext]
    simp only [List.append_assoc, List.cons_append, List.nil_append]
  have hword : ∀ x ∈ "round".toList, isWhitespace x = false := solid_of_all (by decide)
  rw [Milestone.line, hshape, parse_vertex h hword (by decide) rfl,
    splitWhitespace_cons (fun _ hc => whitespace_of_mem hc) (decimalOf_ne_nil round) rfl, roundOf_round,
    List.head?_cons, Option.bind_some, parseU64_decimalOf]

theorem parse_coord {nodeAlias detail : Text} (h : PlainAlias nodeAlias) (hdetail : '[' ∉ detail) :
    parseRoundCommitted (emitLine nodeAlias "[COORD]".toList detail) = none :=
  parse_other (a := 'C') h (by decide : "[COORD]".toList = '[' :: 'C' :: "OORD]".toList) (by decide) (by decide) hdetail

theorem parse_abort {nodeAlias detail : Text} (h : PlainAlias nodeAlias) (hdetail : '[' ∉ detail) :
    parseRoundCommitted (emitLine nodeAlias "[ABORT]".toList detail) = none :=
  parse_other (a := 'A') h (by decide : "[ABORT]".toList = '[' :: 'A' :: "BORT]".toList) (by decide) (by decide) hdetail

/-- Of the lines of the calls, those that say a round is over are read, as the round. -/
theorem parse_line {nodeAlias : Text} (h : PlainAlias nodeAlias) {m : Milestone} (hm : Unbracketed m) :
    parseRoundCommitted (m.line nodeAlias) = m.roundOver := by
  cases m with
  | roundCommitted round finalized => exact parse_roundCommitted h round finalized
  | commitment node round => exact parse_coord h (bracket_notMem_nodeDetail node round (by decide) (by decide))
  | proposal proposer round cap =>
    refine parse_coord h (bracket_notMem_nodeDetail proposer round (by decide) ?_)
    simp only [List.mem_append, not_or]
    exact ⟨⟨by decide, hm⟩, by decide⟩
  | proofVerified node round => exact parse_coord h (bracket_notMem_nodeDetail node round (by decide) (by decide))
  | receipt provider round => exact parse_coord h (bracket_notMem_nodeDetail provider round (by decide) (by decide))
  | abort reason round =>
    refine parse_abort h ?_
    simp only [abortDetail, List.mem_append, not_or]
    exact ⟨⟨hm, by decide⟩, bracket_notMem_decimalOf _⟩

/-- A line with the tag that says something else. -/
theorem parse_status {nodeAlias w s : Text} (h : PlainAlias nodeAlias) (hw : ∀ x ∈ w, isWhitespace x = false) (hne : w ≠ [])
    (hround : w ≠ "round".toList) : parseRoundCommitted (emitLine nodeAlias "[VERTEX]".toList (w ++ ' ' :: s)) = none := by
  rw [parse_vertex h hw hne rfl, roundOf, if_pos hround]

/-- The lines of a node give the rounds it was told are over. -/
theorem parse_output {nodeAlias : Text} (h : PlainAlias nodeAlias) (bind : Text) (peers : Nat) (rejoin : Bool) {told : List Milestone}
    (htold : ∀ m ∈ told, Unbracketed m) :
    (Node.output nodeAlias bind peers rejoin told).filterMap parseRoundCommitted = told.filterMap Milestone.roundOver := by
  have hstart : parseRoundCommitted (Node.engineStart nodeAlias bind peers rejoin) = none := by
    have hshape : "engine start addr=".toList ++ bind ++ " peers=".toList ++ Nat.toDigits 10 peers ++ " rejoin=".toList ++
        (if rejoin then "true" else "false").toList = "engine".toList ++ ' ' :: ("start addr=".toList ++ bind ++
          " peers=".toList ++ Nat.toDigits 10 peers ++ " rejoin=".toList ++ (if rejoin then "true" else "false").toList) := by
      have hword : "engine start addr=".toList = "engine".toList ++ ' ' :: "start addr=".toList := by decide
      rw [hword]
      simp only [List.append_assoc, List.cons_append]
    rw [Node.engineStart, hshape]
    exact parse_status h (solid_of_all (by decide)) (by decide) (by decide)
  have hboot : parseRoundCommitted (Node.bootstrapComplete nodeAlias) = none :=
    parse_status (w := "bootstrap".toList) (s := "complete".toList) h (solid_of_all (by decide)) (by decide) (by decide)
  rw [Node.output, List.filterMap_cons_none hstart, List.filterMap_cons_none hboot, List.filterMap_map]
  exact List.filterMap_congr fun m hm => parse_line h (htold m hm)

end ConsoleAux

end VertexVeil
