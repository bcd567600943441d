import VertexVeil.Lemmas.Redaction

/-!
# Parse errors of the private-intent loader

What the redacted message of a parse error says of the value that the message is about.
-/

namespace VertexVeil

open Codec

/-! ## What a parse error says of the typed value -/

/-- A message of the parser: text around a rendered value. -/
def diagnostic (printable : Char → Bool) (pre : Text) (v : Literal) (post : Text) : Text := pre ++ v.rendered printable ++ post

/-- The line of the value contains a pipe outside the value, so the line is dropped. -/
def OnPipedLine (pre post : Text) : Prop := '|' ∈ Lines.lastLine '\n' pre ∨ '|' ∈ Lines.firstLine '\n' '\r' post

/-- A value as one would expect it: a number, or a string with neither double quotes nor pipes. -/
def Literal.Ordinary : Literal → Prop
  | .string s => '"' ∉ s ∧ '|' ∉ s
  | _ => True

/-- The error is the same for two values. -/
def SameError (printable : Char → Bool) (pre post : Text) (v v' : Literal) : Prop :=
  redactParseError (diagnostic printable pre v post) = redactParseError (diagnostic printable pre v' post)

namespace RedactionAux

variable {printable : Char → Bool} {pre post : Text} {v v' : Literal}

theorem sameError_iff : SameError printable pre post v v' ↔
    redactQuoted (cleanedLines (diagnostic printable pre v post)) =
      redactQuoted (cleanedLines (diagnostic printable pre v' post)) := by
  simp [SameError, redactParseError]

theorem barred_iff : Lines.Barred '\n' '\r' (· == '|') pre post ↔ OnPipedLine pre post := by
  simp [Lines.Barred, OnPipedLine]

/-- Values on a line that is dropped leave the same text, without quotes. -/
theorem cleaned_dropped (printable : Char → Bool) (hpre : QuoteFree pre) (hpost : QuoteFree post) : ∃ d, QuoteFree d ∧
    ∀ v : Literal, (OnPipedLine pre post ∨ ∃ s, v = .string s ∧ '|' ∈ s) → cleanedLines (diagnostic printable pre v post) = d := by
  have hreflow : ∃ d : Text, ∀ mid, Lines.Solid '\n' '\r' isWhitespace mid →
      (Lines.Barred '\n' '\r' (· == '|') pre post ∨ ∃ c ∈ mid, (c == '|') = true) →
      Lines.reflow '\n' '\r' [' '] (· == '|') isWhitespace (pre ++ mid ++ post) = d :=
    Lines.reflow_of_bar [' '] (· == '|') isWhitespace pre post
  obtain ⟨d, hd⟩ := hreflow
  refine ⟨d, ?_, ?_⟩
  · -- A pipe of its own would leave the same.
    rw [← hd ['|'] ⟨by decide, ⟨'|', rfl, by decide⟩, ⟨'|', rfl, by decide, by decide⟩⟩ (Or.inr ⟨'|', by decide, rfl⟩),
      ← cleanedLines_eq]
    exact quoteFree_cleanedLines ((hpre.append (by decide)).append hpost)
  · intro v hv
    rw [cleanedLines_eq]
    refine hd _ (v.solid printable) ?_
    rw [barred_iff]
    refine hv.imp id ?_
    intro h
    exact ⟨'|', Literal.pipe_mem_rendered.mpr h, rfl⟩

/-- Other values are left as they are rendered, in text without quotes that does not depend on them. -/
theorem cleaned_kept (printable : Char → Bool) (hpre : QuoteFree pre) (hpost : QuoteFree post) (h : ¬ OnPipedLine pre post) :
    ∃ a b, QuoteFree a ∧ QuoteFree b ∧ ∀ v : Literal, (¬ ∃ s, v = .string s ∧ '|' ∈ s) →
      cleanedLines (diagnostic printable pre v post) = a ++ v.rendered printable ++ b := by
  rw [← barred_iff] at h
  have hreflow : ∃ a b : Text, ∀ mid, Lines.Solid '\n' '\r' isWhitespace mid → (∀ c ∈ mid, (c == '|') = false) →
      Lines.reflow '\n' '\r' [' '] (· == '|') isWhitespace (pre ++ mid ++ post) = a ++ mid ++ b := Lines.reflow_around [' '] h
  obtain ⟨a, b, hab⟩ := hreflow
  -- What surrounds one value is what surrounds any, a quote-free one too.
  have hplain : ∀ c ∈ ['x'], (c == '|') = false := by
    intro c hc
    rw [List.mem_singleton.mp hc]
    rfl
  have hx : QuoteFree (a ++ ['x'] ++ b) := by
    rw [← hab ['x'] ⟨by decide, ⟨'x', rfl, by decide⟩, ⟨'x', rfl, by decide, by decide⟩⟩ hplain, ← cleanedLines_eq]
    exact quoteFree_cleanedLines ((hpre.append (by decide)).append hpost)
  refine ⟨a, b, hx.mono (fun c hc => by simp [hc]), hx.mono (fun c hc => by simp [hc]), ?_⟩
  intro v hv
  rw [cleanedLines_eq]
  refine hab _ (v.solid printable) ?_
  intro c hc
  rw [beq_eq_false_iff_ne]
  rintro rfl
  exact hv (Literal.pipe_mem_rendered.mp hc)

/-- A string without double quotes is blanked. -/
theorem redacted_string {a b s : Text} (ha : QuoteFree a) (hb : QuoteFree b) (hs : '"' ∉ s) :
    redactQuoted (a ++ (Literal.string s).rendered printable ++ b) = a ++ "string ".toList ++ redactedMark ++ b := by
  have he : '"' ∉ s.flatMap (escapeDebug printable) := fun hm => hs ((mem_flatMap_escapeDebug (Or.inl rfl)).mp hm).1
  have hform : a ++ (Literal.string s).rendered printable ++ b =
      (a ++ "string ".toList) ++ '"' :: (s.flatMap (escapeDebug printable) ++ '"' :: b) := by
    change a ++ ("string ".toList ++ '"' :: (s.flatMap (escapeDebug printable) ++ ['"'])) ++ b = _
    generalize "string ".toList = word
    simp only [List.append_assoc, List.cons_append, List.nil_append]
  have hword : QuoteFree (a ++ "string ".toList) := ha.append (by decide)
  rw [hform, redactQuoted_append hword, redactQuoted_quoted he, redactQuoted_of_quoteFree hb, List.append_assoc _ redactedMark]

/-- Of a string with double quotes something is left after the mark: at least where the last quote was. -/
theorem redacted_string_of_quote (printable : Char → Bool) {a s : Text} (ha : QuoteFree a) (b : Text) (hs : '"' ∈ s) : ∃ r, '"' ∈ r ∧
    redactQuoted (a ++ (Literal.string s).rendered printable ++ b) = a ++ "string ".toList ++ redactedMark ++ r := by
  have he : '"' ∈ s.flatMap (escapeDebug printable) := (mem_flatMap_escapeDebug (Or.inl rfl)).mpr ⟨hs, by decide⟩
  obtain ⟨x, y, hxy, hx⟩ := List.eq_append_cons_of_mem he
  have hform : a ++ (Literal.string s).rendered printable ++ b =
      (a ++ "string ".toList) ++ '"' :: (x ++ '"' :: (y ++ '"' :: b)) := by
    change a ++ ("string ".toList ++ '"' :: (s.flatMap (escapeDebug printable) ++ ['"'])) ++ b = _
    generalize "string ".toList = word
    simp only [hxy, List.append_assoc, List.cons_append, List.nil_append]
  have hword : QuoteFree (a ++ "string ".toList) := ha.append (by decide)
  refine ⟨redactQuoted (y ++ '"' :: b), quote_mem_redactQuoted (fun h => h.1 (by simp)), ?_⟩
  rw [hform, redactQuoted_append hword, redactQuoted_quoted hx, List.append_assoc _ redactedMark]

/-- A number is not blanked. -/
theorem redacted_number {a b : Text} (ha : QuoteFree a) (hb : QuoteFree b) (hv : v.kind ≠ .string) :
    redactQuoted (a ++ v.rendered printable ++ b) = a ++ v.rendered printable ++ b := by
  have hfree : QuoteFree (v.rendered printable) := by
    have hpayload : QuoteFree (v.payload printable) := by
      cases v with
      | string s => exact absurd rfl hv
      | integer digits => exact ⟨digits.notMem (by decide), digits.notMem (by decide)⟩
      | floatingPoint digits => exact ⟨digits.notMem (by decide), digits.notMem (by decide)⟩
    rw [v.rendered_eq]
    have hframe : ∀ k : LiteralKind, k ≠ .string → QuoteFree k.frame.1 ∧ QuoteFree k.frame.2 := by
      intro k
      cases k <;> decide
    exact ((hframe _ hv).1.append hpayload).append (hframe _ hv).2
  exact redactQuoted_of_quoteFree ((ha.append hfree).append hb)

/-- On a line that is dropped all values are alike. -/
theorem sameError_of_piped (hpre : QuoteFree pre) (hpost : QuoteFree post) (h : OnPipedLine pre post) (v v' : Literal) :
    SameError printable pre post v v' := by
  obtain ⟨d, -, hd⟩ := cleaned_dropped printable hpre hpost
  rw [sameError_iff, hd v (Or.inl h), hd v' (Or.inl h)]

/-- What is left of an ordinary string, on a line that is not dropped. -/
theorem redacted_of_ordinary {a b s : Text} (ha : QuoteFree a) (hb : QuoteFree b)
    (hab : ∀ v : Literal, (¬ ∃ s, v = .string s ∧ '|' ∈ s) →
      cleanedLines (diagnostic printable pre v post) = a ++ v.rendered printable ++ b)
    (hs : (Literal.string s).Ordinary) : redactQuoted (cleanedLines (diagnostic printable pre (.string s) post)) =
      a ++ "string ".toList ++ redactedMark ++ b := by
  rw [hab, redacted_string ha hb hs.1]
  rintro ⟨s₁, he, hpipe⟩
  obtain rfl := Literal.string.inj he
  exact hs.2 hpipe

/-- Ordinary strings are alike. -/
theorem sameError_of_ordinary (hpre : QuoteFree pre) (hpost : QuoteFree post) {s s' : Text} (hs : (Literal.string s).Ordinary)
    (hs' : (Literal.string s').Ordinary) : SameError printable pre post (.string s) (.string s') := by
  by_cases h : OnPipedLine pre post
  · exact sameError_of_piped hpre hpost h _ _
  · obtain ⟨a, b, ha, hb, hab⟩ := cleaned_kept printable hpre hpost h
    rw [sameError_iff, redacted_of_ordinary ha hb hab hs, redacted_of_ordinary ha hb hab hs']

/-- A string that is not ordinary is told from the empty one. -/
theorem not_sameError_of_string (hpre : QuoteFree pre) (hpost : QuoteFree post) (h : ¬ OnPipedLine pre post) {s : Text}
    (hs : ¬ (Literal.string s).Ordinary) : ¬ SameError printable pre post (.string s) (.string []) := by
  obtain ⟨a, b, ha, hb, hab⟩ := cleaned_kept printable hpre hpost h
  rw [sameError_iff, redacted_of_ordinary ha hb hab (s := []) ⟨List.not_mem_nil, List.not_mem_nil⟩]
  intro he
  by_cases hpipe : '|' ∈ s
  · -- the line is dropped, and no mark is left
    obtain ⟨d, hfree, hd⟩ := cleaned_dropped printable hpre hpost
    rw [hd _ (Or.inr ⟨s, rfl, hpipe⟩), redactQuoted_of_quoteFree hfree] at he
    refine hfree.1 (he ▸ List.mem_append_left _ (List.mem_append_right _ ?_))
    decide
  · -- the mark is left, and behind it what the quote inside exposes
    have hq : '"' ∈ s := by
      by_contra hq
      exact hs ⟨hq, hpipe⟩
    obtain ⟨r, hr, hred⟩ := redacted_string_of_quote printable ha b hq
    rw [hab, hred] at he
    · rw [List.append_cancel_left he] at hr
      exact hb.1 hr
    · rintro ⟨s₁, hs₁, hm⟩
      obtain rfl := Literal.string.inj hs₁
      exact hpipe hm

/-- Numbers are told apart. -/
theorem not_sameError_of_number (hpre : QuoteFree pre) (hpost : QuoteFree post) (h : ¬ OnPipedLine pre post)
    (hv : v.kind ≠ .string) (hk : v'.kind = v.kind) (hne : v'.payload printable ≠ v.payload printable) :
    ¬ SameError printable pre post v v' := by
  obtain ⟨a, b, ha, hb, hab⟩ := cleaned_kept printable hpre hpost h
  have hnumber : ∀ {w : Literal}, w.kind ≠ .string → ¬ ∃ s, w = .string s ∧ '|' ∈ s := by
    rintro w hw ⟨s, rfl, -⟩
    exact hw rfl
  have hv' : v'.kind ≠ .string := hk.symm ▸ hv
  rw [sameError_iff, hab v (hnumber hv), hab v' (hnumber hv'), redacted_number ha hb hv, redacted_number ha hb hv',
    v.rendered_eq, v'.rendered_eq, hk]
  intro he
  exact hne (List.append_cancel_left (List.append_cancel_right (List.append_cancel_left (List.append_cancel_right he)))).symm

/-- There is another number than a given one. -/
theorem exists_other (digits : NumberText) : ∃ other : NumberText, other.val ≠ digits.val := by
  by_cases h0 : digits.val = ['0']
  · exact ⟨⟨['1'], by decide⟩, by rw [h0]; decide⟩
  · exact ⟨⟨['0'], by decide⟩, Ne.symm h0⟩

/-- A value whose error is that of every ordinary value of its kind is on a line that is dropped, or an ordinary string. -/
theorem piped_or_ordinary (hpre : QuoteFree pre) (hpost : QuoteFree post)
    (hsame : ∀ v' : Literal, v'.kind = v.kind → v'.Ordinary → SameError printable pre post v v') :
    OnPipedLine pre post ∨ v.kind = .string ∧ v.Ordinary := by
  by_contra hnot
  rw [not_or] at hnot
  obtain ⟨hpiped, hv⟩ := hnot
  cases v with
  | string s =>
    exact not_sameError_of_string hpre hpost hpiped (fun hs => hv ⟨rfl, hs⟩)
      (hsame (.string []) rfl ⟨List.not_mem_nil, List.not_mem_nil⟩)
  | integer digits =>
    obtain ⟨other, hne⟩ := exists_other digits
    have hk : (Literal.integer other).kind = (Literal.integer digits).kind := rfl
    exact not_sameError_of_number hpre hpost hpiped (fun hs => LiteralKind.noConfusion hs) hk hne (hsame _ hk trivial)
  | floatingPoint digits =>
    obtain ⟨other, hne⟩ := exists_other digits
    have hk : (Literal.floatingPoint other).kind = (Literal.floatingPoint digits).kind := rfl
    exact not_sameError_of_number hpre hpost hpiped (fun hs => LiteralKind.noConfusion hs) hk hne (hsame _ hk trivial)

end RedactionAux

open RedactionAux

/-- A budget that was typed with a decimal point. -/
def typedBudget : Literal := .floatingPoint ⟨"1000.5".toList, by decide⟩

/-- Another one. -/
def otherBudget : Literal := .floatingPoint ⟨"2000.5".toList, by decide⟩

/-- The message shows a number that was typed where something else is expected. -/
theorem error_shows_number : ¬ ∀ (printable : Char → Bool) (pre post : Text), QuoteFree pre → QuoteFree post → ∀ v v' : Literal,
    v.kind = v'.kind → SameError printable pre post v v' := by
  intro h
  have hkind : typedBudget.kind = .floatingPoint := rfl
  have hkind' : otherBudget.kind = .floatingPoint := rfl
  have hsame : SameError (fun _ => true) "invalid type: ".toList ", expected u64".toList typedBudget otherBudget :=
    h _ _ _ (by decide) (by decide) typedBudget otherBudget (hkind.trans hkind'.symm)
  have hnot : ¬ OnPipedLine "invalid type: ".toList ", expected u64".toList := by
    unfold OnPipedLine
    decide
  have hne : otherBudget.payload (fun _ => true) ≠ typedBudget.payload (fun _ => true) := by decide
  refine not_sameError_of_number (by decide) (by decide) hnot ?_ (hkind'.trans hkind.symm) hne hsame
  rw [hkind]
  decide

/-- **Which values a parse error hides.** In a message without quotes around the value, the error is the same for all values of
a kind exactly when the line of the value has a pipe outside it. And for a given value it is the error of every ordinary value
of its kind exactly when the line has such a pipe, or the value is itself an ordinary string. -/
theorem error_hides_iff (printable : Char → Bool) (pre post : Text) (hpre : QuoteFree pre) (hpost : QuoteFree post) :
    (∀ k : LiteralKind, (∀ v v' : Literal, v.kind = k → v'.kind = k → SameError printable pre post v v') ↔
      OnPipedLine pre post) ∧
      ∀ v : Literal, (∀ v' : Literal, v'.kind = v.kind → v'.Ordinary → SameError printable pre post v v') ↔
        OnPipedLine pre post ∨ v.kind = .string ∧ v.Ordinary := by
  refine ⟨?_, ?_⟩
  · intro k
    refine ⟨?_, fun h v v' _ _ => sameError_of_piped hpre hpost h v v'⟩
    intro hall
    have hk : ∃ v : Literal, v.kind = k ∧ ¬ (v.kind = .string ∧ v.Ordinary) := by
      cases k with
      | string => exact ⟨.string ['"'], rfl, fun h => h.2.1 (List.mem_singleton.mpr rfl)⟩
      | integer => exact ⟨.integer ⟨['0'], by decide⟩, rfl, fun h => LiteralKind.noConfusion h.1⟩
      | floatingPoint => exact ⟨.floatingPoint ⟨['0'], by decide⟩, rfl, fun h => LiteralKind.noConfusion h.1⟩
    obtain ⟨v, hv, hnot⟩ := hk
    exact (piped_or_ordinary hpre hpost fun v' hv' _ => hall v v' hv (hv'.trans hv)).resolve_right hnot
  · intro v
    refine ⟨piped_or_ordinary hpre hpost, ?_⟩
    rintro (hpiped | ⟨hk, hv⟩) v' hk' hv'
    · exact sameError_of_piped hpre hpost hpiped v v'
    · cases v with
      | string s =>
        cases v' with
        | string s' => exact sameError_of_ordinary hpre hpost hv hv'
        | integer digits => cases hk'
        | floatingPoint digits => cases hk'
      | integer digits => cases hk
      | floatingPoint digits => cases hk

/-- A budget that was typed as a word. -/
def typedWord : Literal := .string "SECRET-99999".toList

/-- A budget that was typed as a word is hidden. -/
theorem error_hides_sample : SameError (fun _ => true) "invalid type: ".toList ", expected u64\n".toList typedWord (.string []) := by
  have hword : typedWord.Ordinary := ⟨by decide, by decide⟩
  refine ((error_hides_iff _ _ _ (by decide) (by decide)).2 typedWord).mpr (Or.inr ⟨rfl, hword⟩) (.string []) rfl ?_
  exact ⟨List.not_mem_nil, List.not_mem_nil⟩

end VertexVeil
