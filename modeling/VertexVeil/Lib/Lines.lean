import Mathlib.Data.List.Basic

/-!
# Text cut into lines, and a segment inside one of them

`reflow` drops the lines with a character of some kind, strips the rest and joins them. What becomes of a segment within one line
does not depend on the segment, but for whether its line is dropped. Over any alphabet.
-/

namespace Lines

variable {α : Type} {nl cr : α} {bar ws : α → Bool} {sep : List α}

/-! ## A segment -/

/-- A segment that lies in one line and whose ends are not stripped. -/
structure Solid (nl cr : α) (ws : α → Bool) (mid : List α) : Prop where
  oneLine : nl ∉ mid
  first : ∃ a, mid.head? = some a ∧ ws a = false
  last : ∃ b, mid.getLast? = some b ∧ ws b = false ∧ b ≠ cr

theorem Solid.ne_nil {mid : List α} (h : Solid nl cr ws mid) : mid ≠ [] := by
  rintro rfl
  obtain ⟨a, ha, -⟩ := h.first
  simp at ha

/-! ## Stripping -/

/-- A text without the characters of a kind at its ends. -/
def strip (ws : α → Bool) (s : List α) : List α := ((s.dropWhile ws).reverse.dropWhile ws).reverse

/-- Dropping stops at a character that is kept. -/
theorem dropWhile_append_of_head {x y : List α} (h : ∃ a, y.head? = some a ∧ ws a = false) :
    (x ++ y).dropWhile ws = x.dropWhile ws ++ y := by
  obtain ⟨a, ha, hws⟩ := h
  have hy : y.dropWhile ws = y := by
    cases y with
    | nil => rfl
    | cons c y =>
      obtain rfl : c = a := Option.some.inj ha
      rw [List.dropWhile_cons_of_neg (by simp [hws])]
  rw [List.dropWhile_append, hy]
  split
  · rename_i he
    rw [List.isEmpty_iff.mp he, List.nil_append]
  · rfl

/-- Stripping a text around a segment leaves the segment. -/
theorem Solid.strip_around {mid : List α} (h : Solid nl cr ws mid) (p q : List α) :
    strip ws (p ++ mid ++ q) = p.dropWhile ws ++ mid ++ (q.reverse.dropWhile ws).reverse := by
  obtain ⟨a, ha, hwa⟩ := h.first
  obtain ⟨b, hb, hwb, -⟩ := h.last
  have h₁ : ((p ++ (mid ++ q)).dropWhile ws) = p.dropWhile ws ++ (mid ++ q) :=
    dropWhile_append_of_head ⟨a, by rw [List.head?_append_of_ne_nil _ h.ne_nil, ha], hwa⟩
  have h₂ : ((q.reverse ++ (mid.reverse ++ (p.dropWhile ws).reverse)).dropWhile ws) =
      q.reverse.dropWhile ws ++ (mid.reverse ++ (p.dropWhile ws).reverse) := by
    refine dropWhile_append_of_head ⟨b, ?_, hwb⟩
    rw [List.head?_append_of_ne_nil _ (by simpa using h.ne_nil), List.head?_reverse, hb]
  unfold strip
  rw [List.append_assoc, h₁, List.reverse_append, List.reverse_append, List.append_assoc, h₂]
  simp

theorem mem_of_mem_strip {s : List α} {c : α} (h : c ∈ strip ws s) : c ∈ s := by
  unfold strip at h
  have h₁ := List.dropWhile_subset _ (List.mem_reverse.mp h)
  exact List.dropWhile_subset _ (List.mem_reverse.mp h₁)

/-! ## Joining -/

/-- A text joined around one of its parts: what surrounds the part does not depend on it. -/
theorem intercalate_around (sep : List α) (xs ys : List (List α)) :
    ∃ a b, ∀ x, sep.intercalate (xs ++ x :: ys) = a ++ x ++ b := by
  have hright : ∃ b, ∀ x, sep.intercalate (x :: ys) = x ++ b := by
    cases ys with
    | nil => exact ⟨[], fun x => by simp⟩
    | cons y ys => exact ⟨sep ++ sep.intercalate (y :: ys), fun x => by simp [List.intercalate_cons_cons]⟩
  obtain ⟨b, hb⟩ := hright
  induction xs with
  | nil => exact ⟨[], b, hb⟩
  | cons l xs ih =>
    obtain ⟨a, b, hab⟩ := ih
    refine ⟨l ++ sep ++ a, b, ?_⟩
    intro x
    rw [List.cons_append, List.intercalate_cons_of_ne_nil (by simp), hab]
    simp

theorem mem_intercalate {ls : List (List α)} {c : α} (h : c ∈ sep.intercalate ls) : c ∈ sep ∨ ∃ l ∈ ls, c ∈ l := by
  induction ls with
  | nil => simp at h
  | cons l ls ih =>
    by_cases hls : ls = []
    · subst hls
      rw [List.intercalate_singleton] at h
      exact Or.inr ⟨l, List.mem_cons_self .., h⟩
    · rw [List.intercalate_cons_of_ne_nil hls] at h
      simp only [List.mem_append] at h
      rcases h with (h | h) | h
      · exact Or.inr ⟨l, List.mem_cons_self .., h⟩
      · exact Or.inl h
      · rcases ih h with hs | ⟨m, hm, hc⟩
        · exact Or.inl hs
        · exact Or.inr ⟨m, List.mem_cons_of_mem _ hm, hc⟩

/-! ## Choosing -/

/-- The lines that stay: those with no barred character, stripped, when something is left of them. -/
def kept (bar ws : α → Bool) (ls : List (List α)) : List (List α) :=
  ((ls.filter fun l => !l.any bar).map (strip ws)).filter (· ≠ [])

theorem kept_append (x y : List (List α)) : kept bar ws (x ++ y) = kept bar ws x ++ kept bar ws y := by
  simp [kept]

/-! ## Lines -/

variable [DecidableEq α]

/-- The lines that end with a newline, and what follows the last of them. -/
def breakAt (nl : α) : List α → List (List α) × List α
  | [] => ([], [])
  | c :: s =>
    if c = nl then ([] :: (breakAt nl s).1, (breakAt nl s).2)
    else match breakAt nl s with
      | ([], last) => ([], c :: last)
      | (l :: ls, last) => ((c :: l) :: ls, last)

/-- A line without the carriage return at its end. -/
def chomp (cr : α) (l : List α) : List α := if l.getLast? = some cr then l.dropLast else l

/-- The lines of a text: of those that end with a newline a carriage return is taken off, too. -/
def lines (nl cr : α) (s : List α) : List (List α) :=
  (breakAt nl s).1.map (chomp cr) ++ if (breakAt nl s).2 = [] then [] else [(breakAt nl s).2]

/-- What a text begins with, up to its first newline. -/
def firstLine (nl cr : α) (s : List α) : List α := (lines nl cr s).headD []

/-- What a text ends with, after its last newline. -/
def lastLine (nl : α) (s : List α) : List α := (breakAt nl s).2

/-- The lines of two texts: the unfinished line of the first goes on in the second. -/
theorem breakAt_append (x y : List α) : breakAt nl (x ++ y) =
    match breakAt nl y with
    | ([], last) => ((breakAt nl x).1, (breakAt nl x).2 ++ last)
    | (l :: ls, last) => ((breakAt nl x).1 ++ ((breakAt nl x).2 ++ l) :: ls, last) := by
  induction x with
  | nil =>
    rw [List.nil_append]
    rcases hy : breakAt nl y with ⟨_ | ⟨l, ls⟩, last⟩ <;> simp [breakAt]
  | cons c x ih =>
    rw [List.cons_append, breakAt, ih]
    by_cases hc : c = nl
    · rcases breakAt nl y with ⟨_ | ⟨l, ls⟩, last⟩ <;> simp [breakAt, hc]
    · rcases breakAt nl y with ⟨_ | ⟨l, ls⟩, last⟩ <;> rcases hx : breakAt nl x with ⟨_ | ⟨m, ms⟩, rest⟩ <;>
        simp [breakAt, hc, hx]

/-- A text without a newline has no line that ends with one. -/
theorem breakAt_of_notMem {s : List α} (h : nl ∉ s) : breakAt nl s = ([], s) := by
  induction s with
  | nil => rfl
  | cons c s ih =>
    rw [List.mem_cons, not_or] at h
    rw [breakAt, if_neg (Ne.symm h.1), ih h.2]

/-- The carriage return that is taken off is the last one of the text. -/
theorem chomp_append {x y : List α} (h : x.getLast? ≠ some cr) : chomp cr (x ++ y) = x ++ chomp cr y := by
  by_cases hy : y = []
  · subst hy
    rw [List.append_nil, chomp, if_neg h]
    simp [chomp]
  · unfold chomp
    rw [List.getLast?_append_of_ne_nil _ hy]
    split
    · rw [List.dropLast_append_of_ne_nil hy]
    · rfl

/-- The lines of a text around a segment: only the segment's own line has to do with it. -/
theorem Solid.lines_around {mid : List α} (h : Solid nl cr ws mid) (pre post : List α) : lines nl cr (pre ++ mid ++ post) =
    (breakAt nl pre).1.map (chomp cr) ++
      (lastLine nl pre ++ mid ++ firstLine nl cr post) :: (lines nl cr post).tail := by
  obtain ⟨b, hb, -, hcr⟩ := h.last
  have hlast : (lastLine nl pre ++ mid).getLast? ≠ some cr := by
    rw [List.getLast?_append_of_ne_nil _ h.ne_nil, hb]
    exact fun he => hcr (Option.some.inj he)
  have hne : lastLine nl pre ++ mid ≠ [] := by
    simp [h.ne_nil]
  have hpre : breakAt nl (pre ++ mid) = ((breakAt nl pre).1, lastLine nl pre ++ mid) := by
    rw [breakAt_append, breakAt_of_notMem h.oneLine]
    rfl
  unfold firstLine lines
  rw [breakAt_append, hpre]
  rcases breakAt nl post with ⟨_ | ⟨l, ls⟩, last⟩
  · by_cases hl : last = []
    · subst hl
      simp [h.ne_nil]
    · simp [hl]
  · simp [← chomp_append hlast]

/-! ## Reflowing -/

/-- The lines that stay, joined. -/
def reflow (nl cr : α) (sep : List α) (bar ws : α → Bool) (s : List α) : List α :=
  sep.intercalate (kept bar ws (lines nl cr s))

/-- The segment's line is dropped for what surrounds the segment in it. -/
def Barred (nl cr : α) (bar : α → Bool) (pre post : List α) : Prop :=
  (∃ c ∈ lastLine nl pre, bar c = true) ∨ ∃ c ∈ firstLine nl cr post, bar c = true

/-- Whatever a segment that has its line dropped is, the same is left of the text. -/
theorem reflow_of_bar (sep : List α) (bar ws : α → Bool) (pre post : List α) : ∃ d, ∀ mid, Solid nl cr ws mid →
    (Barred nl cr bar pre post ∨ ∃ c ∈ mid, bar c = true) → reflow nl cr sep bar ws (pre ++ mid ++ post) = d := by
  refine ⟨sep.intercalate (kept bar ws ((breakAt nl pre).1.map (chomp cr)) ++ kept bar ws (lines nl cr post).tail), ?_⟩
  intro mid hmid hbar
  have hany : (lastLine nl pre ++ mid ++ firstLine nl cr post).any bar = true := by
    rw [List.any_eq_true]
    rcases hbar with (⟨c, hc, hb⟩ | ⟨c, hc, hb⟩) | ⟨c, hc, hb⟩
    · exact ⟨c, by simp [hc], hb⟩
    · exact ⟨c, by simp [hc], hb⟩
    · exact ⟨c, by simp [hc], hb⟩
  unfold reflow
  rw [hmid.lines_around, kept_append]
  congr 2
  simp only [kept, List.filter_cons, hany, Bool.not_true, Bool.false_eq_true, if_false]

/-- A segment that does not have its line dropped is left as it is, and so is what surrounds it, whatever the segment. -/
theorem reflow_around (sep : List α) {pre post : List α} (hbar : ¬ Barred nl cr bar pre post) :
    ∃ a b, ∀ mid, Solid nl cr ws mid → (∀ c ∈ mid, bar c = false) →
      reflow nl cr sep bar ws (pre ++ mid ++ post) = a ++ mid ++ b := by
  obtain ⟨a, b, hab⟩ := intercalate_around sep (kept bar ws ((breakAt nl pre).1.map (chomp cr)))
    (kept bar ws (lines nl cr post).tail)
  refine ⟨a ++ (lastLine nl pre).dropWhile ws, ((firstLine nl cr post).reverse.dropWhile ws).reverse ++ b, ?_⟩
  intro mid hmid hfree
  have hany : (lastLine nl pre ++ mid ++ firstLine nl cr post).any bar = false := by
    rw [List.any_eq_false]
    intro c hc hb
    simp only [List.mem_append] at hc
    rcases hc with (hc | hc) | hc
    · exact hbar (Or.inl ⟨c, hc, hb⟩)
    · rw [hfree c hc] at hb
      simp at hb
    · exact hbar (Or.inr ⟨c, hc, hb⟩)
  have hkept : kept bar ws ((lastLine nl pre ++ mid ++ firstLine nl cr post) :: (lines nl cr post).tail) =
      strip ws (lastLine nl pre ++ mid ++ firstLine nl cr post) :: kept bar ws (lines nl cr post).tail := by
    have hne : strip ws (lastLine nl pre ++ mid ++ firstLine nl cr post) ≠ [] := by
      rw [hmid.strip_around]
      simp [hmid.ne_nil]
    simp only [kept, List.filter_cons, hany, Bool.not_false, if_true, List.map_cons, decide_true, hne, ne_eq,
      not_false_eq_true]
  unfold reflow
  rw [hmid.lines_around, kept_append, hkept, hab, hmid.strip_around]
  simp

/-! ## What is left is from the text -/

theorem mem_of_mem_breakAt {s l : List α} {c : α} (hl : l ∈ (breakAt nl s).1 ∨ l = (breakAt nl s).2) (hc : c ∈ l) : c ∈ s := by
  induction s generalizing l with
  | nil =>
    rcases hl with hl | rfl
    · exact absurd hl List.not_mem_nil
    · exact hc
  | cons d s ih =>
    rw [breakAt] at hl
    rw [List.mem_cons]
    by_cases hd : d = nl
    · rw [if_pos hd] at hl
      simp only [List.mem_cons] at hl
      rcases hl with (rfl | hl) | hl
      · exact absurd hc List.not_mem_nil
      · exact Or.inr (ih (Or.inl hl) hc)
      · exact Or.inr (ih (Or.inr hl) hc)
    · rw [if_neg hd] at hl
      rcases hs : breakAt nl s with ⟨_ | ⟨m, ms⟩, rest⟩
      · rw [hs] at hl ih
        simp only [List.not_mem_nil, false_or] at hl
        subst hl
        rcases List.mem_cons.mp hc with rfl | hc
        · exact Or.inl rfl
        · exact Or.inr (ih (Or.inr rfl) hc)
      · rw [hs] at hl ih
        simp only [List.mem_cons] at hl
        rcases hl with (rfl | hl) | rfl
        · rcases List.mem_cons.mp hc with rfl | hc
          · exact Or.inl rfl
          · exact Or.inr (ih (Or.inl (List.mem_cons_self ..)) hc)
        · exact Or.inr (ih (Or.inl (List.mem_cons_of_mem _ hl)) hc)
        · exact Or.inr (ih (Or.inr rfl) hc)

theorem mem_of_mem_lines {s l : List α} {c : α} (hl : l ∈ lines nl cr s) (hc : c ∈ l) : c ∈ s := by
  unfold lines at hl
  rcases List.mem_append.mp hl with hl | hl
  · obtain ⟨m, hm, rfl⟩ := List.mem_map.mp hl
    refine mem_of_mem_breakAt (Or.inl hm) ?_
    unfold chomp at hc
    split at hc
    · exact (List.dropLast_sublist _).subset hc
    · exact hc
  · split at hl
    · exact absurd hl List.not_mem_nil
    · exact mem_of_mem_breakAt (Or.inr (List.mem_singleton.mp hl)) hc

/-- What is left of a text is from the text, or separates. -/
theorem mem_reflow {s : List α} {c : α} (h : c ∈ reflow nl cr sep bar ws s) : c ∈ sep ∨ c ∈ s := by
  rcases mem_intercalate h with hs | ⟨l, hl, hc⟩
  · exact Or.inl hs
  · unfold kept at hl
    obtain ⟨m, hm, rfl⟩ := List.mem_map.mp (List.mem_filter.mp hl).1
    exact Or.inr (mem_of_mem_lines (List.mem_filter.mp hm).1 (mem_of_mem_strip hc))

end Lines
