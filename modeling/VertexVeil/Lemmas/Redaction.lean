import VertexVeil.Redaction

/-!
# Helpers for the theorems about parse errors

What the redaction does to text without quotes, and what a rendered value contains.
-/

namespace VertexVeil

open Codec

/-- Text with neither single nor double quotes. -/
def QuoteFree (s : Text) : Prop := '"' ∉ s ∧ '\'' ∉ s

instance (s : Text) : Decidable (QuoteFree s) := inferInstanceAs (Decidable (_ ∧ _))

theorem QuoteFree.append {s s' : Text} (h : QuoteFree s) (h' : QuoteFree s') : QuoteFree (s ++ s') :=
  ⟨fun hm => (List.mem_append.mp hm).elim h.1 h'.1, fun hm => (List.mem_append.mp hm).elim h.2 h'.2⟩

theorem QuoteFree.mono {s s' : Text} (h : QuoteFree s') (hs : ∀ c ∈ s, c ∈ s') : QuoteFree s :=
  ⟨fun hm => h.1 (hs _ hm), fun hm => h.2 (hs _ hm)⟩

/-! ## Quoted substrings -/

/-- Text without quotes is left as it is. -/
theorem redactQuoted_append {a : Text} (h : QuoteFree a) (s : Text) : redactQuoted (a ++ s) = a ++ redactQuoted s := by
  induction a with
  | nil => rfl
  | cons c a ih =>
    obtain ⟨h₁, h₂⟩ := h
    rw [List.mem_cons, not_or] at h₁ h₂
    have hc : ¬ (c = '"' ∨ c = '\'') := by
      rintro (rfl | rfl)
      · exact h₁.1 rfl
      · exact h₂.1 rfl
    have hrest := ih ⟨h₁.2, h₂.2⟩
    unfold redactQuoted at hrest ⊢
    rw [List.cons_append, redactQuotedFrom, if_neg hc, hrest, List.cons_append]

theorem redactQuoted_of_quoteFree {a : Text} (h : QuoteFree a) : redactQuoted a = a := by
  have he := redactQuoted_append h []
  rw [List.append_nil] at he
  rw [he]
  simp [redactQuoted, redactQuotedFrom]

/-- What is quoted is skipped, up to the first closing quote. -/
theorem redactQuotedFrom_skip {q : Char} {x : Text} (h : q ∉ x) (s : Text) :
    redactQuotedFrom (some q) (x ++ q :: s) = redactQuotedFrom none s := by
  induction x with
  | nil => simp [redactQuotedFrom]
  | cons c x ih =>
    rw [List.mem_cons, not_or] at h
    rw [List.cons_append, redactQuotedFrom, if_neg (Ne.symm h.1), ih h.2]

/-- A double-quoted substring that ends is blanked, whatever it says. -/
theorem redactQuoted_quoted {x : Text} (h : '"' ∉ x) (s : Text) :
    redactQuoted ('"' :: (x ++ '"' :: s)) = redactedMark ++ redactQuoted s := by
  unfold redactQuoted
  rw [redactQuotedFrom, if_pos (Or.inl rfl), redactQuotedFrom_skip h]

/-- Where there was a quote there is one. -/
theorem quote_mem_redactQuoted {s : Text} (h : ¬ QuoteFree s) : '"' ∈ redactQuoted s := by
  induction s with
  | nil => exact absurd ⟨List.not_mem_nil, List.not_mem_nil⟩ h
  | cons c s ih =>
    unfold redactQuoted at ih ⊢
    rw [redactQuotedFrom]
    split
    · exact List.mem_append_left _ (by decide)
    · rename_i hc
      rw [not_or] at hc
      refine List.mem_cons_of_mem _ (ih ?_)
      rintro ⟨h₁, h₂⟩
      refine h ⟨?_, ?_⟩
      · intro hm
        rcases List.mem_cons.mp hm with he | hm
        · exact hc.1 he.symm
        · exact h₁ hm
      · intro hm
        rcases List.mem_cons.mp hm with he | hm
        · exact hc.2 he.symm
        · exact h₂ hm

/-! ## Lines -/

/-- The cleaned message is its text reflowed. -/
theorem cleanedLines_eq (raw : Text) :
    cleanedLines raw = Lines.reflow '\n' '\r' [' '] (· == '|') isWhitespace raw := by
  have hfilter : ∀ l : Text, decide ('|' ∉ l) = !l.any (· == '|') := by
    intro l
    rw [Bool.eq_iff_iff]
    simp only [decide_eq_true_eq, Bool.not_eq_true', List.any_eq_false, beq_iff_eq]
    exact ⟨fun h c hc he => h (he ▸ hc), fun h hm => h _ hm rfl⟩
  unfold cleanedLines Lines.reflow Lines.kept
  simp only [hfilter]
  rfl

/-- Cleaning adds no quotes. -/
theorem quoteFree_cleanedLines {raw : Text} (h : QuoteFree raw) : QuoteFree (cleanedLines raw) := by
  rw [cleanedLines_eq]
  constructor
  · intro hm
    rcases Lines.mem_reflow hm with hc | hc
    · simp at hc
    · exact h.1 hc
  · intro hm
    rcases Lines.mem_reflow hm with hc | hc
    · simp at hc
    · exact h.2 hc

/-! ## Rendered values -/

/-- What a Unicode escape is written with. -/
theorem mem_escapeUnicode {c d : Char} (h : d ∈ escapeUnicode c) : d ∈ "\\u\x7b\x7d0123456789abcdef".toList := by
  unfold escapeUnicode at h
  simp only [List.mem_append] at h
  rcases h with (h | h) | h
  · exact List.mem_of_mem_take (i := 3) h
  · obtain ⟨v, hv, rfl⟩ := List.mem_map.mp h
    have hlt : v < 16 := Nat.digits_lt_base (by decide) (List.mem_reverse.mp hv)
    have hall : ∀ m : Fin 16, hexDigit m ∈ "\\u\x7b\x7d0123456789abcdef".toList := by decide
    exact hall ⟨v, hlt⟩
  · rw [List.mem_singleton.mp h]
    decide

/-- The escape of a character contains a quote, or a pipe, when the character is one, and never a newline. -/
theorem mem_escapeDebug {printable : Char → Bool} {c d : Char} (hd : d = '"' ∨ d = '|' ∨ d = '\n') :
    d ∈ escapeDebug printable c ↔ d = c ∧ d ≠ '\n' := by
  unfold escapeDebug
  split_ifs with h₁ h₂ h₃ h₄ h₅ h₆
  · rcases hd with rfl | rfl | rfl <;> simp [h₁]
  · rcases hd with rfl | rfl | rfl <;> simp [h₂]
  · rcases hd with rfl | rfl | rfl <;> simp [h₃]
  · rcases hd with rfl | rfl | rfl <;> simp [h₄]
  · rcases hd with rfl | rfl | rfl <;> rcases h₅ with rfl | rfl <;> simp
  · rw [List.mem_singleton]
    exact ⟨fun he => ⟨he, fun hn => h₄ (he ▸ hn)⟩, fun h => h.1⟩
  · refine iff_of_false ?_ ?_
    · intro hm
      have hmem := mem_escapeUnicode hm
      rcases hd with rfl | rfl | rfl <;> revert hmem <;> decide
    · rintro ⟨rfl, hn⟩
      rcases hd with rfl | rfl | rfl
      · exact h₅ (Or.inr rfl)
      · exact h₆ rfl
      · exact hn rfl

/-- So it is with the escape of a text. -/
theorem mem_flatMap_escapeDebug {printable : Char → Bool} {s : Text} {d : Char} (hd : d = '"' ∨ d = '|' ∨ d = '\n') :
    d ∈ s.flatMap (escapeDebug printable) ↔ d ∈ s ∧ d ≠ '\n' := by
  rw [List.mem_flatMap]
  constructor
  · rintro ⟨c, hc, hm⟩
    obtain ⟨rfl, hn⟩ := (mem_escapeDebug hd).mp hm
    exact ⟨hc, hn⟩
  · rintro ⟨hm, hn⟩
    exact ⟨d, hm, (mem_escapeDebug hd).mpr ⟨rfl, hn⟩⟩

/-- No number is written with a quote, a pipe or a newline. -/
theorem NumberText.notMem (digits : NumberText) {d : Char} (hd : d = '"' ∨ d = '\'' ∨ d = '|' ∨ d = '\n') : d ∉ digits.val := by
  intro hm
  have hc := List.all_eq_true.mp digits.property.2 d hm
  rcases hd with rfl | rfl | rfl | rfl <;> revert hc <;> decide

/-- What stands before and after the escaped text or the digits of a value. -/
def LiteralKind.frame : LiteralKind → Text × Text
  | .string => ("string \"".toList, ['"'])
  | .integer => ("integer `".toList, ['`'])
  | .floatingPoint => ("floating point `".toList, ['`'])

/-- The escaped text or the digits of a value. -/
def Literal.payload (printable : Char → Bool) : Literal → Text
  | .string s => s.flatMap (escapeDebug printable)
  | .integer digits => digits.val
  | .floatingPoint digits => digits.val

theorem Literal.rendered_eq (printable : Char → Bool) (v : Literal) :
    v.rendered printable = v.kind.frame.1 ++ v.payload printable ++ v.kind.frame.2 := by
  cases v <;> rfl

/-- A rendered value lies in one line and starts and ends with what is no blank. -/
theorem Literal.solid (printable : Char → Bool) (v : Literal) :
    Lines.Solid '\n' '\r' isWhitespace (v.rendered printable) := by
  have hpayload : '\n' ∉ v.payload printable := by
    cases v with
    | string s =>
      intro hm
      exact ((mem_flatMap_escapeDebug (Or.inr (Or.inr rfl))).mp hm).2 rfl
    | integer digits => exact digits.notMem (by decide)
    | floatingPoint digits => exact digits.notMem (by decide)
  rw [v.rendered_eq]
  refine ⟨?_, ?_, ?_⟩
  · simp only [List.mem_append, hpayload, or_false]
    cases v.kind <;> decide
  · cases v.kind
    · exact ⟨'s', rfl, by decide⟩
    · exact ⟨'i', rfl, by decide⟩
    · exact ⟨'f', rfl, by decide⟩
  · cases v.kind
    · exact ⟨'"', List.getLast?_concat .., by decide, by decide⟩
    · exact ⟨'`', List.getLast?_concat .., by decide, by decide⟩
    · exact ⟨'`', List.getLast?_concat .., by decide, by decide⟩

/-- A rendered value contains a pipe when it is a string that does. -/
theorem Literal.pipe_mem_rendered {printable : Char → Bool} {v : Literal} :
    '|' ∈ v.rendered printable ↔ ∃ s, v = .string s ∧ '|' ∈ s := by
  have hframe : '|' ∉ v.kind.frame.1 ∧ '|' ∉ v.kind.frame.2 := by
    cases v.kind <;> decide
  rw [v.rendered_eq]
  simp only [List.mem_append, hframe.1, hframe.2, false_or, or_false]
  cases v with
  | string s =>
    have hs : '|' ∈ s.flatMap (escapeDebug printable) ↔ '|' ∈ s := by
      rw [mem_flatMap_escapeDebug (Or.inr (Or.inl rfl))]
      simp
    change '|' ∈ s.flatMap (escapeDebug printable) ↔ _
    rw [hs]
    simp
  | integer digits => simp [Literal.payload, digits.notMem]
  | floatingPoint digits => simp [Literal.payload, digits.notMem]

end VertexVeil
