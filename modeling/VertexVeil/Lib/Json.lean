import Mathlib.Tactic.IntervalCases
import VertexVeil.Lib.Codec

/-!
# Compact JSON text

A `Format` writes values of a type as compact JSON and reads them back, whatever follows: an instance carries the proof that
reading undoes writing, so the formats of records are put together from those of their fields and nothing is left to prove about
the text. Numbers and strings are written as a JSON serializer writes them, fields in a fixed order and without blanks; a reader
takes what its writer writes.
-/

namespace Json

open Codec

/-- What may follow a value: nothing, or a character that separates or closes. -/
def Ends : Text → Prop
  | [] => True
  | c :: _ => c = ',' ∨ c = '}' ∨ c = ']'

/-- A way to write the values of a type and to read one off the beginning of a text. -/
structure Format (α : Type) where
  write : α → Text
  read : Text → Option (α × Text)
  read_write : ∀ a rest, Ends rest → read (write a ++ rest) = some (a, rest)

/-- Take a text off the beginning of another. -/
def strip : Text → Text → Option Text
  | [], rest => some rest
  | _ :: _, [] => none
  | c :: cs, d :: rest => if c = d then strip cs rest else none

theorem strip_append (cs rest : Text) : strip cs (cs ++ rest) = some rest := by
  induction cs with
  | nil => rfl
  | cons c cs ih => simp [strip, ih]

/-- A text that begins otherwise. -/
theorem strip_eq_none {pre post : Text} (h : ¬ pre <+: post) (h' : ¬ post <+: pre) (rest : Text) :
    strip pre (post ++ rest) = none := by
  induction pre generalizing post with
  | nil => exact absurd List.nil_prefix h
  | cons c cs ih =>
    cases post with
    | nil => exact absurd List.nil_prefix h'
    | cons d ds =>
      rw [List.cons_append, strip]
      split
      · rename_i he
        subst he
        rw [List.cons_prefix_cons, not_and] at h h'
        exact ih (h rfl) (h' rfl)
      · rfl

/-! ## Numbers and strings -/

/-- Decimal digits. -/
def Format.nat : Format Nat where
  write n := Nat.toDigits 10 n
  read s := some (Nat.ofDigitChars 10 (s.takeWhile Char.isDigit) 0, s.dropWhile Char.isDigit)
  read_write n rest h := by
    have hd : ∀ c ∈ Nat.toDigits 10 n, c.isDigit := fun c hc => Nat.isDigit_of_mem_toDigits (by omega) (by omega) hc
    have hr : rest.takeWhile Char.isDigit = [] ∧ rest.dropWhile Char.isDigit = rest := by
      cases rest with
      | nil => exact ⟨rfl, rfl⟩
      | cons c rest => rcases h with rfl | rfl | rfl <;> exact ⟨rfl, rfl⟩
    rw [List.takeWhile_append_of_pos hd, List.dropWhile_append_of_pos hd, hr.1, hr.2, List.append_nil,
      Nat.ofDigitChars_ten_toDigits]

/-- A character inside a string: quotes, backslashes and control characters are escaped. -/
def escape (c : Char) : Text :=
  if c = '"' then ['\\', '"']
  else if c = '\\' then ['\\', '\\']
  else if 32 ≤ c.toNat then [c]
  else if c.toNat = 8 then ['\\', 'b']
  else if c.toNat = 9 then ['\\', 't']
  else if c.toNat = 10 then ['\\', 'n']
  else if c.toNat = 12 then ['\\', 'f']
  else if c.toNat = 13 then ['\\', 'r']
  else ['\\', 'u', '0', '0', hexDigit (c.toNat / 16), hexDigit (c.toNat % 16)]

/-- The character after a backslash. -/
def unescape (c : Char) : Char :=
  if c = 'b' then Char.ofNat 8
  else if c = 't' then Char.ofNat 9
  else if c = 'n' then Char.ofNat 10
  else if c = 'f' then Char.ofNat 12
  else if c = 'r' then Char.ofNat 13
  else c

/-- The characters of a string up to the closing quote. -/
def readChars : Text → Option (Text × Text)
  | [] => none
  | '"' :: rest => some ([], rest)
  | '\\' :: 'u' :: '0' :: '0' :: h :: l :: rest =>
    (hexVal h).bind fun hi => (hexVal l).bind fun lo =>
      (readChars rest).map fun x => (Char.ofNat (16 * hi + lo) :: x.1, x.2)
  | '\\' :: c :: rest => (readChars rest).map fun x => (unescape c :: x.1, x.2)
  | c :: rest => (readChars rest).map fun x => (c :: x.1, x.2)

/-- A character is read back from its escape. -/
theorem readChars_escape (c : Char) (rest : Text) :
    readChars (escape c ++ rest) = (readChars rest).map fun x => (c :: x.1, x.2) := by
  unfold escape
  split
  · rename_i h
    subst h
    rfl
  · rename_i hq
    split
    · rename_i h
      subst h
      rfl
    · rename_i hb
      split
      · rw [List.singleton_append, readChars]
        · exact hq
        · intro _ _ _ h _
          exact hb h
        · intro _ _ h _
          exact hb h
      · rename_i hc
        -- a control character: one of 32
        have hn : c = Char.ofNat c.toNat := (Char.ofNat_toNat c).symm
        generalize c.toNat = n at hn hc
        subst hn
        have hlt : n < 32 := Nat.lt_of_not_le hc
        interval_cases n <;> rfl

theorem readChars_escapes (s rest : Text) : readChars (s.flatMap escape ++ '"' :: rest) = some (s, rest) := by
  induction s with
  | nil => rfl
  | cons c s ih => rw [List.flatMap_cons, List.append_assoc, readChars_escape, ih, Option.map_some]

/-- A string between quotes. -/
def Format.string : Format Text where
  write s := '"' :: (s.flatMap escape ++ ['"'])
  read s := (strip ['"'] s).bind readChars
  read_write s rest _ := by
    rw [List.cons_append, List.append_assoc, List.singleton_append]
    exact readChars_escapes s rest

/-- `true` or `false`. -/
def Format.bool : Format Bool where
  write b := if b then "true".toList else "false".toList
  read s :=
    match strip "true".toList s with
    | some rest => some (true, rest)
    | none => (strip "false".toList s).map fun rest => (false, rest)
  read_write b rest _ := by
    cases b with
    | true => simp only [if_true, strip_append]
    | false =>
      have hne : strip "true".toList ("false".toList ++ rest) = none := strip_eq_none (by decide) (by decide) rest
      simp only [Bool.false_eq_true, if_false, hne, strip_append, Option.map_some]

namespace Format

variable {α β γ : Type}

/-! ## Composition -/

/-- A format for another type, through a map that is undone on what is written. -/
def map (F : Format α) (make : α → Option β) (parts : β → α) (h : ∀ b, make (parts b) = some b) : Format β where
  write b := F.write (parts b)
  read s := (F.read s).bind fun x => (make x.1).map fun b => (b, x.2)
  read_write b rest hr := by rw [F.read_write _ _ hr, Option.bind_some, h, Option.map_some]

/-- A fixed text before a value. -/
def after (pre : Text) (F : Format α) : Format α where
  write a := pre ++ F.write a
  read s := (strip pre s).bind F.read
  read_write a rest hr := by rw [List.append_assoc, strip_append, Option.bind_some, F.read_write _ _ hr]

/-- A closing bracket after a value. -/
def close (F : Format α) (c : Char) (hc : c = '}' ∨ c = ']') : Format α where
  write a := F.write a ++ [c]
  read s := (F.read s).bind fun x => (strip [c] x.2).map fun rest => (x.1, rest)
  read_write a rest _ := by
    have he : Ends ([c] ++ rest) := Or.inr hc
    rw [List.append_assoc, F.read_write _ _ he, Option.bind_some, strip_append, Option.map_some]

/-- A value after another, with a comma between them. -/
def pair (F : Format α) (G : Format β) : Format (α × β) where
  write x := F.write x.1 ++ ',' :: G.write x.2
  read s := (F.read s).bind fun x => ((strip [','] x.2).bind G.read).map fun y => ((x.1, y.1), y.2)
  read_write x rest hr := by
    have he : Ends ([','] ++ (G.write x.2 ++ rest)) := Or.inl rfl
    rw [List.append_assoc, List.cons_append, ← List.singleton_append, F.read_write _ _ he, Option.bind_some, strip_append,
      Option.bind_some, G.read_write _ _ hr, Option.map_some]

/-- One of two formats, the second of which writes nothing the first reads. -/
def or (F : Format α) (G : Format β) (h : ∀ b rest, F.read (G.write b ++ rest) = none) : Format (α ⊕ β) where
  write := Sum.elim F.write G.write
  read s :=
    match F.read s with
    | some x => some (.inl x.1, x.2)
    | none => (G.read s).map fun x => (.inr x.1, x.2)
  read_write x rest hr := by
    cases x with
    | inl a => simp only [Sum.elim_inl, F.read_write a rest hr]
    | inr b => simp only [Sum.elim_inr, h b rest, G.read_write b rest hr, Option.map_some]

/-- A value after a text is not read after another. -/
theorem read_after_none (F : Format α) (G : Format β) {pre post : Text} (h : ¬ pre <+: post) (h' : ¬ post <+: pre) (b : β)
    (rest : Text) : (after pre F).read ((after post G).write b ++ rest) = none := by
  change (strip pre (post ++ G.write b ++ rest)).bind F.read = none
  rw [List.append_assoc, strip_eq_none h h', Option.bind_none]

/-- A field of an object. -/
def field (key : Text) (F : Format α) : Format α := after ('"' :: key ++ ['"', ':']) F

/-- The fields of a variant of a tagged enumeration, after the tag. -/
def variant (key tag : Text) (F : Format α) : Format α := after ('"' :: key ++ ['"', ':', '"'] ++ tag ++ ['"', ',']) F

/-- An object, by its fields. -/
def object (F : Format α) : Format α := (after ['{'] F).close '}' (Or.inl rfl)

/-- An object with a last field that is left out when there is nothing in it. -/
def objectLast (F : Format α) (G : Format β) : Format (α × Option β) where
  write x := ['{'] ++ (F.write x.1 ++ x.2.elim ['}'] fun b => [','] ++ (G.write b ++ ['}']))
  read s := (strip ['{'] s).bind fun s => (F.read s).bind fun x =>
    match strip ['}'] x.2 with
    | some rest => some ((x.1, none), rest)
    | none => ((strip [','] x.2).bind G.read).bind fun y => (strip ['}'] y.2).map fun rest => ((x.1, some y.1), rest)
  read_write x rest _ := by
    obtain ⟨a, last⟩ := x
    have hclose : Ends (['}'] ++ rest) := Or.inr (Or.inl rfl)
    rw [List.append_assoc, strip_append, Option.bind_some, List.append_assoc]
    cases last with
    | none => simp only [Option.elim_none, F.read_write _ _ hclose, Option.bind_some, strip_append]
    | some b =>
      have hcomma : Ends ([','] ++ (G.write b ++ (['}'] ++ rest))) := Or.inl rfl
      have hopen : strip ['}'] ([','] ++ (G.write b ++ (['}'] ++ rest))) = none := strip_eq_none (by decide) (by decide) _
      simp only [Option.elim_some, List.append_assoc, F.read_write _ _ hcomma, hopen, Option.bind_some, strip_append,
        G.read_write _ _ hclose, Option.map_some]

/-- The items of an array after the first, up to the closing bracket; `fuel` of them at most. -/
def items (F : Format α) : Nat → Text → Option (List α × Text)
  | 0, _ => none
  | fuel + 1, s =>
    match s with
    | ']' :: rest => some ([], rest)
    | ',' :: rest => (F.read rest).bind fun x => (items F fuel x.2).map fun y => (x.1 :: y.1, y.2)
    | _ => none

/-- What follows an item ends it. -/
theorem ends_items (F : Format α) (as : List α) (rest : Text) :
    Ends (as.flatMap (fun a => ',' :: F.write a) ++ ']' :: rest) := by
  cases as with
  | nil => exact Or.inr (Or.inr rfl)
  | cons a as => exact Or.inl rfl

theorem length_le_items (F : Format α) (as : List α) : as.length ≤ (as.flatMap (fun a => ',' :: F.write a)).length := by
  induction as with
  | nil => exact Nat.zero_le _
  | cons a as ih =>
    rw [List.flatMap_cons, List.length_append, List.length_cons, List.length_cons]
    omega

theorem items_write (F : Format α) (as : List α) {fuel : Nat} (h : as.length < fuel) (rest : Text) :
    F.items fuel (as.flatMap (fun a => ',' :: F.write a) ++ ']' :: rest) = some (as, rest) := by
  induction as generalizing fuel with
  | nil =>
    cases fuel with
    | zero => omega
    | succ fuel => rfl
  | cons a as ih =>
    cases fuel with
    | zero => omega
    | succ fuel =>
      rw [List.flatMap_cons, List.append_assoc, List.cons_append, items, F.read_write _ _ (F.ends_items as rest),
        Option.bind_some, ih (Nat.lt_of_succ_lt_succ h), Option.map_some]

/-- An array, when no item begins with a closing bracket. -/
def array (F : Format α) (h : ∀ a rest, strip [']'] (F.write a ++ rest) = none) : Format (List α) where
  write
    | [] => ['[', ']']
    | a :: as => '[' :: (F.write a ++ (as.flatMap (fun a => ',' :: F.write a) ++ [']']))
  read s := (strip ['['] s).bind fun s =>
    match strip [']'] s with
    | some rest => some ([], rest)
    | none => (F.read s).bind fun x => (F.items (x.2.length + 1) x.2).map fun y => (x.1 :: y.1, y.2)
  read_write as rest _ := by
    cases as with
    | nil => rfl
    | cons a as =>
      have hfuel : as.length < (as.flatMap (fun a => ',' :: F.write a) ++ ']' :: rest).length + 1 := by
        have hle := F.length_le_items as
        rw [List.length_append]
        omega
      simp only [List.cons_append, strip, if_true, Option.bind_some, List.append_assoc, List.nil_append]
      rw [h, F.read_write _ _ (F.ends_items as rest), Option.bind_some, F.items_write as hfuel, Option.map_some]

end Format

end Json
