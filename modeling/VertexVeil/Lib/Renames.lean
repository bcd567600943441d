import VertexVeil.Lib.Walks

/-!
# Renaming an entry beside itself and creating its path again

A path that still leads somewhere after an entry was renamed to a free name beside it leads to the moved place. So the entry is
the only one that is missing on the way to where it was, creating that path adds nothing elsewhere, and what is created is empty.
`Leads` is a path that leads where it does within a part of the tree, and so in every tree with that part.
-/

namespace Files

variable {ν β : Type}

namespace FileSystem

variable {fs : FileSystem ν β}

/-! ## An entry renamed beside itself -/

theorem Location.not_prefix_beside {s d : Location fs} (hdir : s.dir = d.dir) (hne : s.entry ≠ d.entry) :
    ¬ s.entry <+: d.entry := by
  intro h
  refine hne (h.eq_of_length ?_)
  rw [Location.entry, Location.entry, hdir, List.length_append, List.length_append, List.length_singleton, List.length_singleton]

section

variable [DecidableEq ν] {s d : Location fs}

theorem moved_dropLast (hdir : s.dir = d.dir) (p : Place ν) :
    (moved s.entry d.entry p).dropLast = moved s.entry d.entry p.dropLast := by
  by_cases hs : s.entry <+: p
  · obtain ⟨t, rfl⟩ := hs
    rw [moved_append]
    by_cases ht : t = []
    · have hlast : ∀ l : Location fs, l.entry.dropLast = l.dir := fun l => List.dropLast_concat
      rw [ht, List.append_nil, List.append_nil, hlast, hlast, moved_of_not s.not_prefix_dir, hdir]
    · rw [List.dropLast_append_of_ne_nil ht, List.dropLast_append_of_ne_nil ht, moved_append]
  · rw [moved_of_not hs, moved_of_not (fun h => hs (h.trans (List.dropLast_prefix p)))]

/-- An entry that a walk meets before the move and one that the moved walk meets are the same, moved. -/
theorem node_moved (hfree : fs.node d.entry = none) {p : Place ν} {name : ν} {x y : Node ν β}
    (hx : fs.node (p ++ [name]) = some x)
    (hy : fs.nodeMoved s.entry d.entry (moved s.entry d.entry p ++ [name]) = some y) :
    y = x ∧ moved s.entry d.entry p ++ [name] = moved s.entry d.entry (p ++ [name]) := by
  by_cases hs : s.entry <+: p
  · obtain ⟨t, rfl⟩ := hs
    rw [moved_append, List.append_assoc, nodeMoved_dst, ← List.append_assoc, hx, Option.some.injEq] at hy
    exact ⟨hy.symm, by rw [moved_append, List.append_assoc, List.append_assoc, moved_append]⟩
  · rw [moved_of_not hs] at hy ⊢
    have hd := not_prefix_of_none hfree hx
    have hsn : ¬ s.entry <+: p ++ [name] := by
      intro hsn
      rw [nodeMoved_src fs hd hsn] at hy
      cases hy
    rw [nodeMoved_other fs hd hsn, hx, Option.some.injEq] at hy
    exact ⟨hy.symm, (moved_of_not hsn _).symm⟩

/-- A walk that still succeeds after an entry was renamed to a free name beside it ends where its end was moved to. -/
theorem Walks.moved {h : ¬ s.entry <+: d.entry} (hdir : s.dir = d.dir) (hfree : fs.node d.entry = none) {n : Nat} {p q : Place ν}
    {steps : List (Step ν)} (hw : Walks fs n p steps q) {q' : Place ν}
    (hw' : Walks (fs.move s d h) n (moved s.entry d.entry p) steps q') : q' = moved s.entry d.entry q := by
  induction hw generalizing q' with
  | nil =>
    cases hw'
    rfl
  | here hd hw ih =>
    cases hw' with
    | here hd' hw' => exact ih hw'
  | up hd hw ih =>
    cases hw' with
    | up hd' hw' => exact ih (moved_dropLast hdir _ ▸ hw')
  | down hd hx hl hw ih =>
    cases hw' with
    | down hd' hx' hl' hw' => exact ih ((node_moved hfree hx hx').2 ▸ hw')
    | link hd' hx' hw' => exact absurd (node_moved hfree hx hx').1.symm (hl _)
  | @link n p q name route rest hd hx hw ih =>
    cases hw' with
    | down hd' hx' hl' hw' => exact absurd (node_moved hfree hx hx').1 (hl' _)
    | link hd' hx' hw' =>
      obtain rfl := Node.link.inj (node_moved hfree hx hx').1
      refine ih ?_
      split
      · rename_i habs
        rw [moved_of_not (by simp [Location.entry])]
        rwa [if_pos habs] at hw'
      · rename_i habs
        rwa [if_neg habs] at hw'

theorem start_moved {h : ¬ s.entry <+: d.entry} {r : Route ν} {p p' : Place ν} (hp : fs.start r = .ok p)
    (hp' : (fs.move s d h).start r = .ok p') : p' = moved s.entry d.entry p := by
  unfold start at hp hp'
  split at hp
  · rename_i habs
    rw [if_pos habs] at hp'
    obtain rfl := Except.ok.inj hp
    obtain rfl := Except.ok.inj hp'
    exact (moved_of_not (by simp [Location.entry]) _).symm
  · rename_i habs
    rw [if_neg habs] at hp'
    cases hc : fs.cwd with
    | none => simp [hc] at hp
    | some c =>
      simp only [hc, Except.ok.injEq] at hp
      subst hp
      by_cases hs : s.entry <+: c
      · simp only [move, hc, Option.bind_some, if_pos hs, Except.ok.injEq] at hp'
        exact hp'.symm
      · by_cases hd : d.entry <+: c
        · simp [move, hc, if_neg hs, if_pos hd] at hp'
        · simp only [move, hc, Option.bind_some, if_neg hs, if_neg hd, Except.ok.injEq] at hp'
          rw [moved_of_not hs, hp']

theorem reach_moved {h : ¬ s.entry <+: d.entry} (hdir : s.dir = d.dir) (hfree : fs.node d.entry = none) {r : Route ν}
    {q q' : Place ν} (hr : fs.reach r = .ok q) (hr' : (fs.move s d h).reach r = .ok q') : q' = moved s.entry d.entry q := by
  obtain ⟨p, hp, hw⟩ := reach_eq_ok.mp hr
  obtain ⟨p', hp', hw'⟩ := reach_eq_ok.mp hr'
  exact hw.moved hdir hfree (start_moved hp hp' ▸ hw')

theorem moved_entry (src dst : Place ν) : moved src dst src = dst := by
  have h := moved_append src dst []
  rwa [List.append_nil, List.append_nil] at h

theorem node_move_entry (h : ¬ s.entry <+: d.entry) : (fs.move s d h).node d.entry = fs.node s.entry := by
  have hnode := fs.nodeMoved_dst s.entry d.entry []
  rwa [List.append_nil, List.append_nil] at hnode

/-- What does not belong to the entry is where it was. -/
theorem part_move (hfree : fs.node d.entry = none) (h : ¬ s.entry <+: d.entry) : (fs.remove s).Part (fs.move s d h) := by
  intro p x hx
  have hx' := part_remove s p x hx
  exact (nodeMoved_other fs (not_prefix_of_none hfree hx') (not_prefix_of_none (node_remove_self s) hx)).trans hx'

/-- After a rename beside itself an entry is the only one missing on the way to where it was. -/
theorem missing_moved {h : ¬ s.entry <+: d.entry} (hdir : s.dir = d.dir) (hfree : fs.node d.entry = none) {r : Route ν}
    {q : Place ν} (hr : fs.reach r = .ok q) {rs : List (Step ν)} (hrs : rs <:+ r.steps.reverse) {l : Location (fs.move s d h)}
    (hl : (fs.move s d h).locate { r with steps := rs.reverse } = .ok l) (hn : (fs.move s d h).node l.entry = none) :
    l.entry = s.entry := by
  obtain ⟨steps, hsteps, hreach⟩ := locate_eq_ok.mp hl
  obtain ⟨p, hp, hw⟩ := reach_eq_ok.mp hr
  obtain ⟨b, x, hb, hx⟩ := hw.entry_on_way hrs hsteps
  have hreach' : fs.reach { r with steps } = .ok b := reach_eq_ok.mpr ⟨p, hp, hb⟩
  have hl : l.entry = moved s.entry d.entry b ++ [l.name] := by rw [Location.entry, reach_moved hdir hfree hreach' hreach]
  change fs.nodeMoved s.entry d.entry l.entry = none at hn
  rw [hl] at hn ⊢
  by_cases hs : s.entry <+: b
  · obtain ⟨t, rfl⟩ := hs
    rw [moved_append, List.append_assoc, nodeMoved_dst, ← List.append_assoc, hx] at hn
    cases hn
  · rw [moved_of_not hs] at hn ⊢
    by_cases hsn : s.entry <+: b ++ [l.name]
    · exact ((List.prefix_concat_iff.mp hsn).resolve_right hs).symm
    · rw [nodeMoved_other fs (not_prefix_of_none hfree hx) hsn, hx] at hn
      cases hn

/-- Where the entry was, its path leads nowhere. -/
theorem not_reach_moved {h : ¬ s.entry <+: d.entry} (hdir : s.dir = d.dir) (hfree : fs.node d.entry = none)
    (hne : s.entry ≠ d.entry) {r : Route ν} (hs : fs.locate r = .ok s) {q : Place ν} : (fs.move s d h).reach r ≠ .ok q := by
  intro hr
  obtain ⟨steps, hsteps, hreach⟩ := locate_eq_ok.mp hs
  obtain ⟨p, hp, hw⟩ := reach_eq_ok.mp hr
  rw [hsteps] at hw
  obtain ⟨b, x, hb, -, hx, -⟩ := hw.last
  have hreach' : (fs.move s d h).reach { r with steps } = .ok b := reach_eq_ok.mpr ⟨p, hp, hb⟩
  obtain rfl : b = s.dir := by rw [reach_moved hdir hfree hreach hreach', moved_of_not s.not_prefix_dir]
  have hnone := nodeMoved_src fs (Location.not_prefix_beside hdir.symm hne.symm) (List.prefix_refl s.entry)
  cases hx.symm.trans hnone

end

/-! ## Directories that are created -/

/-- A place leads to a directory with nothing in it. -/
def EmptyDirectory (fs : FileSystem ν β) (p : Place ν) : Prop :=
  fs.node p = some .directory ∧ ∀ name, fs.node (p ++ [name]) = none

/-- The directory of an entry is where the path before its name leads. -/
theorem locate_dir {absolute : Bool} {steps : List (Step ν)} {step : Step ν} {q : Place ν} {l : Location fs}
    (hq : fs.reach { absolute, steps } = .ok q) (hl : fs.locate { absolute, steps := steps ++ [step] } = .ok l) : l.dir = q := by
  obtain ⟨steps', hsteps, hreach⟩ := locate_eq_ok.mp hl
  obtain ⟨rfl, -⟩ := List.append_inj' hsteps rfl
  exact Except.ok.inj (hreach.symm.trans hq)

/-- In an empty directory one more step, but up, stays. -/
theorem reach_below {absolute : Bool} {steps : List (Step ν)} {step : Step ν} {q q' : Place ν} (hstep : step ≠ .up)
    (hq : fs.reach { absolute, steps } = .ok q) (he : fs.EmptyDirectory q)
    (hr : fs.reach { absolute, steps := steps ++ [step] } = .ok q') : q' = q := by
  obtain ⟨p, hp, hw⟩ := reach_eq_ok.mp hq
  obtain ⟨p', hp', hw'⟩ := reach_eq_ok.mp hr
  obtain rfl : p' = p := Except.ok.inj (hp'.symm.trans hp)
  cases step with
  | here => exact (hw.snoc_here he.1).unique hw'
  | up => exact absurd rfl hstep
  | down name =>
    obtain ⟨b, x, hb, -, hx, -⟩ := hw'.last
    obtain rfl : b = q := hw.unique hb
    rw [he.2 name] at hx
    cases hx

theorem isDir_reach {r : Route ν} (h : fs.isDir r = true) : ∃ q, fs.reach r = .ok q ∧ fs.node q = some .directory := by
  unfold isDir at h
  split at h
  · rename_i q hq
    exact ⟨q, reach_of_resolve hq, isDirectory_iff.mp h⟩
  · cases h

/-- A tree that gained directories and nothing else. -/
structure Grown (fs fs' : FileSystem ν β) : Prop where
  part : fs.Part fs'
  added : ∀ p x, fs'.node p = some x → fs.node p = some x ∨ x = .directory
  cwd : fs'.cwd = fs.cwd
  maxLinks : fs'.maxLinks = fs.maxLinks

theorem Grown.refl (fs : FileSystem ν β) : Grown fs fs := ⟨.refl fs, fun _ _ h => Or.inl h, rfl, rfl⟩

theorem Grown.trans {fs fs' fs'' : FileSystem ν β} (h : Grown fs fs') (h' : Grown fs' fs'') : Grown fs fs'' where
  part := h.part.trans h'.part
  added p x hx := (h'.added p x hx).elim (h.added p x) Or.inr
  cwd := h'.cwd.trans h.cwd
  maxLinks := h'.maxLinks.trans h.maxLinks

/-- What creating directories came to: nothing was there to create, or the last one is where its path leads and is empty. What
was added lies below one place. -/
structure Added (src : Place ν) (fs fs' : FileSystem ν β) (there : Prop) (r : Route ν) (result : Except Error Unit) : Prop where
  frame : ∀ p, ¬ src <+: p → fs'.node p = fs.node p
  created : result = .ok () → (fs' = fs ∧ there) ∨ ∃ q, fs'.reach r = .ok q ∧ src <+: q ∧ fs'.EmptyDirectory q

/-- A step that leads no further than an empty directory below the place. -/
theorem Added.stay {src q : Place ν} {fs fs₁ : FileSystem ν β} {there : Prop} {absolute : Bool} {steps : List (Step ν)}
    {step : Step ν} (hstep : step ≠ .up) (hframe : ∀ p, ¬ src <+: p → fs₁.node p = fs.node p)
    (hq : fs₁.reach { absolute, steps } = .ok q) (hsrc : src <+: q) (hempty : fs₁.EmptyDirectory q)
    (hdir : fs₁.isDir { absolute, steps := steps ++ [step] } = true) :
    Added src fs fs₁ there { absolute, steps := steps ++ [step] } (.ok ()) := by
  refine ⟨hframe, fun _ => Or.inr ⟨q, ?_, hsrc, hempty⟩⟩
  obtain ⟨q', hq', -⟩ := isDir_reach hdir
  rwa [reach_below hstep hq hempty hq'] at hq'

section

variable [DecidableEq ν]

theorem children_eq_empty {p : Place ν} : fs.children p = ∅ ↔ ∀ name, fs.node (p ++ [name]) = none := by
  rw [children, Finset.filter_eq_empty_iff]
  constructor
  · intro h name
    by_contra hn
    exact h ((fs.mem_entries _).mpr hn) ⟨by simp, List.dropLast_concat⟩
  · rintro h q hq ⟨hne, rfl⟩
    have hlast := h (q.getLast hne)
    rw [List.dropLast_concat_getLast] at hlast
    exact (fs.mem_entries q).mp hq hlast

theorem node_insert_self (l : Location fs) (x : Node ν β) (free : fs.node l.entry = none) :
    (fs.insert l x free).node l.entry = some x := if_pos rfl

theorem node_insert_of_ne (l : Location fs) (x : Node ν β) (free : fs.node l.entry = none) {p : Place ν} (h : p ≠ l.entry) :
    (fs.insert l x free).node p = fs.node p := if_neg h

/-- A tree is part of the one with one more entry. -/
theorem part_insert (l : Location fs) (x : Node ν β) (free : fs.node l.entry = none) : fs.Part (fs.insert l x free) := by
  intro p y h
  rw [node_insert_of_ne l x free (fun he => by rw [he, free] at h; cases h)]
  exact h

/-- A directory that was created is where its path leads, and it is empty. -/
theorem reach_insert {r : Route ν} {l : Location fs} (hr : fs.locate r = .ok l) (free : fs.node l.entry = none) :
    (fs.insert l .directory free).reach r = .ok l.entry ∧ (fs.insert l .directory free).EmptyDirectory l.entry := by
  have hmono := part_insert l .directory free
  refine ⟨?_, node_insert_self l _ free, fun name => ?_⟩
  · obtain ⟨steps, hsteps, hreach⟩ := locate_eq_ok.mp hr
    obtain ⟨p, hp, hw⟩ := reach_eq_ok.mp hreach
    refine reach_eq_ok.mpr ⟨p, hp, ?_⟩
    rw [hsteps]
    exact (hw.mono hmono).snoc (hmono _ _ l.directory) (node_insert_self l _ free) (fun route => by simp)
  · rw [node_insert_of_ne l _ free (by simp)]
    exact node_below (by rw [free]; simp) (List.prefix_append _ _) (by simp)

/-- What `mkdir` does when it succeeds. -/
theorem mkdir_ok {r : Route ν} {fs' : FileSystem ν β} (h : fs.mkdir r = .ok fs') :
    ∃ l free, fs.locate r = .ok l ∧ fs' = fs.insert l .directory free := by
  unfold mkdir at h
  split at h
  · split at h
    · cases h
    · rename_i l hl
      split at h
      · rename_i free
        exact ⟨l, free, hl, (Except.ok.inj h).symm⟩
      · cases h
  · split at h <;> cases h

/-- An entry created in an empty directory below the place. -/
theorem Added.entry {src q : Place ν} {fs fs₁ fs₂ : FileSystem ν β} {there : Prop} {absolute : Bool} {steps : List (Step ν)}
    {step : Step ν} (hframe : ∀ p, ¬ src <+: p → fs₁.node p = fs.node p) (hq : fs₁.reach { absolute, steps } = .ok q)
    (hsrc : src <+: q) (hmk : fs₁.mkdir { absolute, steps := steps ++ [step] } = .ok fs₂) :
    Added src fs fs₂ there { absolute, steps := steps ++ [step] } (.ok ()) := by
  obtain ⟨l, free, hl, rfl⟩ := mkdir_ok hmk
  obtain rfl := locate_dir hq hl
  have hbelow : src <+: l.entry := hsrc.trans (List.prefix_append _ _)
  refine ⟨fun p hp => ?_, fun _ => Or.inr ⟨l.entry, (reach_insert hl free).1, hbelow, (reach_insert hl free).2⟩⟩
  have hne : p ≠ l.entry := by
    rintro rfl
    exact hp hbelow
  rw [node_insert_of_ne l _ free hne]
  exact hframe p hp

/-- Where the entries that are missing on the way to a directory are below one place, creating it adds nothing elsewhere, and a
directory that was not there is empty. -/
theorem createDirAllRev_adds (fs : FileSystem ν β) (src : Place ν) (absolute : Bool) {rsteps : List (Step ν)}
    (hup : Step.up ∉ rsteps) (hmiss : ∀ rs, rs <:+ rsteps → ∀ l, fs.locate { absolute, steps := rs.reverse } = .ok l →
      fs.node l.entry = none → src <+: l.entry) :
    Added src fs (fs.createDirAllRev absolute rsteps).2 (rsteps = [] ∨ fs.isDir { absolute, steps := rsteps.reverse } = true)
      { absolute, steps := rsteps.reverse } (fs.createDirAllRev absolute rsteps).1 := by
  induction rsteps with
  | nil => exact ⟨fun _ _ => rfl, fun _ => Or.inl ⟨rfl, Or.inl rfl⟩⟩
  | cons step parent ih =>
    have ih := ih (fun h => hup (List.mem_cons_of_mem _ h)) (fun rs hrs => hmiss rs (hrs.trans (List.suffix_cons _ _)))
    unfold createDirAllRev
    dsimp only
    split
    · -- the entry itself was missing
      rename_i fs' hmk
      obtain ⟨l, free, hl, rfl⟩ := mkdir_ok hmk
      have hsrc := hmiss _ (List.suffix_refl _) l hl free
      refine ⟨fun p hp => node_insert_of_ne l _ free (fun he => hp (he ▸ hsrc)), fun _ => Or.inr ?_⟩
      exact ⟨l.entry, (reach_insert hl free).1, hsrc, (reach_insert hl free).2⟩
    · rename_i hmk
      split
      · rename_i e fs' hrec
        rw [hrec] at ih
        exact ⟨ih.frame, fun h => by cases h⟩
      · rename_i fs₁ hrec
        rw [hrec] at ih
        rcases ih.created rfl with ⟨rfl, -⟩ | ⟨q, hq, hsrc, hempty⟩
        · -- nothing was missing above, so the entry is no name or its directory cannot be searched
          rw [hmk]
          dsimp only
          split
          · rename_i hdir
            exact ⟨fun _ _ => rfl, fun _ => Or.inl ⟨rfl, Or.inr hdir⟩⟩
          · exact ⟨fun _ _ => rfl, fun h => by cases h⟩
        · rw [List.reverse_cons]
          split
          · rename_i fs₂ hmk'
            exact .entry ih.frame hq hsrc hmk'
          · split
            · rename_i hdir
              exact .stay (fun h => hup (h ▸ List.mem_cons_self)) ih.frame hq hsrc hempty hdir
            · exact ⟨ih.frame, fun h => by cases h⟩
    · rename_i e hne hmk
      split
      · rename_i hdir
        exact ⟨fun _ _ => rfl, fun _ => Or.inl ⟨rfl, Or.inr hdir⟩⟩
      · exact ⟨fun _ _ => rfl, fun h => by cases h⟩

theorem grown_insert (l : Location fs) (free : fs.node l.entry = none) : Grown fs (fs.insert l .directory free) where
  part := part_insert l _ free
  added p x hx := by
    by_cases hp : p = l.entry
    · rw [hp, node_insert_self] at hx
      exact Or.inr (Option.some.inj hx).symm
    · rw [node_insert_of_ne l _ free hp] at hx
      exact Or.inl hx
  cwd := rfl
  maxLinks := rfl

theorem grown_mkdir {r : Route ν} {fs' : FileSystem ν β} (h : fs.mkdir r = .ok fs') : Grown fs fs' := by
  obtain ⟨l, free, -, rfl⟩ := mkdir_ok h
  exact grown_insert l free

/-- Creating directories only adds directories. -/
theorem createDirAllRev_grows (fs : FileSystem ν β) (absolute : Bool) (rsteps : List (Step ν)) :
    Grown fs (fs.createDirAllRev absolute rsteps).2 := by
  induction rsteps with
  | nil => exact .refl fs
  | cons step parent ih =>
    unfold createDirAllRev
    dsimp only
    split
    · rename_i fs' hmk
      exact grown_mkdir hmk
    · split
      · rename_i e fs' hrec
        rw [hrec] at ih
        exact ih
      · rename_i fs' hrec
        rw [hrec] at ih
        split
        · rename_i fs'' hmk
          exact ih.trans (grown_mkdir hmk)
        · split <;> exact ih
    · split <;> exact .refl fs

theorem createDirAll_grows (fs : FileSystem ν β) (r : Route ν) : Grown fs (fs.createDirAll r).2 :=
  createDirAllRev_grows fs r.absolute r.steps.reverse

/-- **Creating a path again.** After the entry of a path was renamed to a free name beside it, creating the path adds nothing but
below the place of the entry, and where it succeeds the path leads to an empty directory there. -/
theorem createDirAll_moved {s d : Location fs} {h : ¬ s.entry <+: d.entry} (hdir : s.dir = d.dir) (hfree : fs.node d.entry = none)
    (hne : s.entry ≠ d.entry) {r : Route ν} {q : Place ν} (hr : fs.reach r = .ok q) (hs : fs.locate r = .ok s)
    (hup : Step.up ∉ r.steps) :
    (∀ p, ¬ s.entry <+: p → ((fs.move s d h).createDirAll r).2.node p = (fs.move s d h).node p) ∧
      (((fs.move s d h).createDirAll r).1 = .ok () →
        ∃ p, ((fs.move s d h).createDirAll r).2.reach r = .ok p ∧ s.entry <+: p ∧
          ((fs.move s d h).createDirAll r).2.EmptyDirectory p) := by
  have hup : Step.up ∉ r.steps.reverse := by rwa [List.mem_reverse]
  have hadded := createDirAllRev_adds (fs.move s d h) s.entry r.absolute hup
    (fun rs hrs l hl hn => missing_moved hdir hfree hr hrs hl hn ▸ List.prefix_refl _)
  rw [List.reverse_reverse] at hadded
  refine ⟨hadded.frame, fun hok => (hadded.created hok).resolve_left ?_⟩
  rintro ⟨-, hnil | hdir'⟩
  · obtain ⟨steps, hsteps, -⟩ := locate_eq_ok.mp hs
    rw [hsteps] at hnil
    simp at hnil
  · obtain ⟨q', hq', -⟩ := isDir_reach hdir'
    exact not_reach_moved hdir hfree hne hs hq'

theorem rename_ok {src dst : Route ν} {fs' : FileSystem ν β} (h : fs.rename src dst = .ok fs') :
    ∃ s d, fs.locate src = .ok s ∧ fs.locate dst = .ok d ∧ fs.renameEntry s d = .ok fs' := by
  unfold rename at h
  split at h
  · rename_i s d hs hd
    exact ⟨s, d, hs, hd, h⟩
  · cases h
  · cases h

/-- What renaming one entry to another does when it succeeds: nothing, or it moves the entry, over nothing, an empty directory or
an entry that is none. -/
theorem renameEntry_ok {s d : Location fs} {fs' : FileSystem ν β} (h : fs.renameEntry s d = .ok fs') (hne : s.entry ≠ d.entry) :
    ∃ hp, fs' = fs.move s d hp ∧ (fs.node d.entry = none ∨ fs.replaces s.entry d.entry = .ok ()) := by
  unfold renameEntry at h
  rw [if_neg hne] at h
  split at h
  · cases h
  · split at h
    · cases h
    · rename_i hp
      refine ⟨hp, ?_⟩
      split at h
      · rename_i hfree
        exact ⟨(Except.ok.inj h).symm, Or.inl hfree⟩
      · split at h
        · cases h
        · rename_i hrep
          exact ⟨(Except.ok.inj h).symm, Or.inr hrep⟩

/-- What an entry renamed beside itself and its path created again come to. -/
structure Recreated (s d : Location fs) (fs' : FileSystem ν β) (r : Route ν) : Prop where
  moved : ∀ t, fs'.node (d.entry ++ t) = fs.node (s.entry ++ t)
  kept : ∀ p x, ¬ s.entry <+: p → ¬ d.entry <+: p → fs.node p = some x → fs'.node p = some x
  frame : fs.node d.entry = none → ∀ p, ¬ s.entry <+: p → ¬ d.entry <+: p → fs'.node p = fs.node p
  empty : fs.node d.entry = none → ∃ p, fs'.reach r = .ok p ∧ s.entry <+: p ∧ fs'.EmptyDirectory p

/-- Only a link may be renamed over something here. -/
theorem recreated {s d : Location fs} {h : ¬ s.entry <+: d.entry} (hdir : s.dir = d.dir) (hne : s.entry ≠ d.entry) {r : Route ν}
    {q : Place ν} (hr : fs.reach r = .ok q) (hs : fs.locate r = .ok s) (hup : Step.up ∉ r.steps)
    (hdst : fs.node d.entry = none ∨ ∃ route, fs.node s.entry = some (.link route)) {fs' : FileSystem ν β}
    (hok : (fs.move s d h).createDirAll r = (.ok (), fs')) : Recreated s d fs' r := by
  have hgrown := createDirAll_grows (fs.move s d h) r
  rw [hok] at hgrown
  have hcreate : fs.node d.entry = none → (∀ p, ¬ s.entry <+: p → fs'.node p = (fs.move s d h).node p) ∧
      ∃ p, fs'.reach r = .ok p ∧ s.entry <+: p ∧ fs'.EmptyDirectory p := by
    intro hfree
    obtain ⟨hframe, hempty⟩ := createDirAll_moved (h := h) hdir hfree hne hr hs hup
    rw [hok] at hframe hempty
    exact ⟨hframe, hempty rfl⟩
  have hmoved : ∀ t, (fs.move s d h).node (d.entry ++ t) = fs.node (s.entry ++ t) := fs.nodeMoved_dst s.entry d.entry
  have hother : ∀ p, ¬ s.entry <+: p → ¬ d.entry <+: p → (fs.move s d h).node p = fs.node p :=
    fun p hsp hdp => nodeMoved_other fs hdp hsp
  refine ⟨fun t => ?_, fun p x hsp hdp hx => hgrown.part p x ((hother p hsp hdp).trans hx),
    fun hfree p hsp hdp => ((hcreate hfree).1 p hsp).trans (hother p hsp hdp), fun hfree => (hcreate hfree).2⟩
  rcases hdst with hfree | ⟨route, hlink⟩
  · have hbelow : ¬ s.entry <+: d.entry ++ t := by
      intro hp
      have hlen : s.entry.length = d.entry.length := by simp [Location.entry, hdir]
      exact h (List.prefix_of_prefix_length_le hp (List.prefix_append _ _) hlen.le)
    exact ((hcreate hfree).1 _ hbelow).trans (hmoved t)
  · -- nothing is below a link, before and after
    have hlink' : fs'.node d.entry = some (.link route) := hgrown.part _ _ ((node_move_entry h).trans hlink)
    by_cases ht : t = []
    · rw [ht, List.append_nil, List.append_nil, hlink', hlink]
    · rw [node_below (by rw [hlink']; simp) (List.prefix_append _ _) (by simpa using ht),
        node_below (by rw [hlink]; simp) (List.prefix_append _ _) (by simpa using ht)]

end

/-! ## Paths within a part of the tree -/

/-- A path leads from its start to a directory within a part of the tree. -/
structure Leads (sub fs : FileSystem ν β) (r : Route ν) (p b : Place ν) : Prop where
  part : sub.Part fs
  directory : sub.node b = some .directory
  start : fs.start r = .ok p
  walks : Walks sub fs.maxLinks p r.steps b

namespace Leads

variable {sub fs' : FileSystem ν β} {r : Route ν} {p b : Place ν}

/-- An entry of the directory the path leads to. -/
def location (h : Leads sub fs r p b) (name : ν) : Location fs where
  dir := b
  name := name
  directory := h.part _ _ h.directory

theorem locate (h : Leads sub fs r p b) (name : ν) :
    fs.locate { r with steps := r.steps ++ [.down name] } = .ok (h.location name) :=
  locate_eq_ok.mpr ⟨r.steps, rfl, reach_eq_ok.mpr ⟨p, h.start, h.walks.mono h.part⟩⟩

/-- The path starts at a directory of the part. -/
theorem start_directory (h : Leads sub fs r p b) : sub.node p = some .directory := by
  have hw := h.walks
  generalize fs.maxLinks = n at hw
  cases hs : r.steps with
  | nil =>
    rw [hs] at hw
    cases hw
    exact h.directory
  | cons step rest =>
    rw [hs] at hw
    cases hw with
    | here hd h | up hd h => exact hd
    | down hd hx hl h => exact hd
    | link hd hx h => exact hd

/-- The path leads there as long as its part is there and the working directory stays, if it is in the part. -/
theorem of_part (h : Leads sub fs r p b) (hpart : sub.Part fs')
    (hcwd : ∀ c, sub.node c = some .directory → fs.cwd = some c → fs'.cwd = some c) (hlinks : fs'.maxLinks = fs.maxLinks) :
    Leads sub fs' r p b := by
  refine ⟨hpart, h.directory, ?_, hlinks ▸ h.walks⟩
  have hstart := h.start
  unfold FileSystem.start at hstart ⊢
  split
  · rename_i habs
    rwa [if_pos habs] at hstart
  · rename_i habs
    rw [if_neg habs] at hstart
    cases hc : fs.cwd with
    | none => simp [hc] at hstart
    | some c =>
      rw [hc] at hstart
      obtain rfl := Except.ok.inj hstart
      rw [hcwd c h.start_directory hc]

/-- The path leads there when directories were added. -/
theorem grown (h : Leads sub fs r p b) (hg : Grown fs fs') : Leads sub fs' r p b :=
  h.of_part (h.part.trans hg.part) (fun _ _ hc => hg.cwd.trans hc) hg.maxLinks

section

variable [DecidableEq ν] {s d l : Location fs} {move : ¬ s.entry <+: d.entry}

/-- The path leads there when entries were moved that it does not need. -/
theorem moved (h : Leads sub fs r p b) (hp : ¬ s.entry <+: d.entry) (hs : sub.node s.entry = none)
    (hd : sub.node d.entry = none) : Leads sub (fs.move s d hp) r p b := by
  refine h.of_part (fun q x hx => ?_) (fun c hdir hc => ?_) rfl
  · exact (nodeMoved_other fs (not_prefix_of_none hd hx) (not_prefix_of_none hs hx)).trans (h.part q x hx)
  · simp only [FileSystem.move, hc, Option.bind_some, if_neg (not_prefix_of_none hs hdir), if_neg (not_prefix_of_none hd hdir)]

/-- The path leads there when an entry was removed that it does not need. -/
theorem removed (h : Leads sub fs r p b) (hl : sub.node l.entry = none) : Leads sub (fs.remove l) r p b := by
  refine h.of_part (fun q x hx => ?_) (fun c hdir hc => ?_) rfl
  · rw [node_remove_of_not l (not_prefix_of_none hl hx)]
    exact h.part q x hx
  · have hkeep := not_prefix_of_none hl hdir
    simp [FileSystem.remove, hc, Option.filter, hkeep]

/-- Where the path of its directory leads somewhere, an entry is the only one that creating its path adds. -/
theorem createDirAll_frame (h : Leads sub fs r p b) (hup : Step.up ∉ r.steps) {name : ν} {q : Place ν} (hq : ¬ b ++ [name] <+: q) :
    (fs.createDirAll { r with steps := r.steps ++ [.down name] }).2.node q = fs.node q := by
  have hreach : fs.reach r = .ok b := reach_eq_ok.mpr ⟨p, h.start, h.walks.mono h.part⟩
  refine (createDirAllRev_adds fs (b ++ [name]) _ (by simpa using hup) (fun rs hrs l hl hn => ?_)).frame q hq
  rw [List.reverse_concat] at hrs
  rcases List.suffix_cons_iff.mp hrs with rfl | hrs
  · rw [List.reverse_cons, List.reverse_reverse] at hl
    rw [Location.entry, Except.ok.inj (hl.symm.trans (h.locate name))]
    exact List.prefix_refl _
  · -- every entry before the last is in the part
    obtain ⟨steps, hsteps, hdir⟩ := locate_eq_ok.mp hl
    obtain ⟨b', x, hb', hx⟩ := h.walks.entry_on_way hrs hsteps
    have hreach' : fs.reach { r with steps } = .ok b' := reach_eq_ok.mpr ⟨p, h.start, hb'.mono h.part⟩
    rw [Location.entry, Except.ok.inj (hdir.symm.trans hreach'), h.part _ _ hx] at hn
    cases hn

/-- Creating the path of an entry that is missing adds this entry. -/
theorem createDirAll_eq (h : Leads sub fs r p b) {name : ν} (free : fs.node (h.location name).entry = none) :
    fs.createDirAll { r with steps := r.steps ++ [.down name] } = (.ok (), fs.insert (h.location name) .directory free) := by
  have hmk : fs.mkdir { r with steps := r.steps ++ [.down name] } = .ok (fs.insert (h.location name) .directory free) := by
    unfold mkdir
    rw [List.getLast?_concat]
    simp only [h.locate name]
    rw [dif_pos free]
  unfold createDirAll
  rw [List.reverse_concat]
  unfold createDirAllRev
  rw [List.reverse_cons, List.reverse_reverse]
  simp only [hmk]

/-- **Where the new path leads.** An entry was renamed to a free name beside it, and the way to its directory does not lead through
it. Then the new path leads to the directory that was moved, or to the one the entry linked to, which is where it was. -/
theorem reach_renamed (h : Leads sub fs r p b) (hs : s.dir = b) (hd : d.dir = b) (hsub : sub.node s.entry = none)
    (hfree : fs.node d.entry = none) (hg : Grown (fs.move s d move) fs') {q : Place ν}
    (hq : fs.reach { r with steps := r.steps ++ [.down s.name] } = .ok q) (hdirectory : fs.node q = some .directory) :
    fs'.reach { r with steps := r.steps ++ [.down d.name] } = .ok (FileSystem.moved s.entry d.entry q) := by
  have h' : Leads sub fs' r p b := (h.moved move hsub (h.part.none hfree)).grown hg
  obtain ⟨p', hp', hw⟩ := reach_eq_ok.mp hq
  obtain rfl : p' = p := Except.ok.inj (hp'.symm.trans h.start)
  obtain ⟨m, hm, hgo⟩ := h.walks.past h.part h'.part hw
  refine reach_eq_ok.mpr ⟨p', h'.start, ?_⟩
  have hlinks : fs'.maxLinks = fs.maxLinks := hg.maxLinks
  rw [hlinks]
  refine hgo _ _ ?_
  have hmoved : ∀ x, fs.node s.entry = some x → fs'.node d.entry = some x :=
    fun x hx => hg.part _ _ ((node_move_entry move).trans hx)
  obtain rfl := hs
  have hentry : s.dir ++ [d.name] = d.entry := by rw [← hd]; rfl
  cases hm with
  | down hb hx hl hnil =>
    cases hnil
    change Walks fs' m s.dir [.down d.name] (FileSystem.moved s.entry d.entry s.entry)
    rw [moved_entry, ← hentry]
    exact .down (h'.part _ _ h.directory) (hentry ▸ hmoved _ hx) hl .nil
  | @link m p q name route rest hb hx hway =>
    -- the way of the link needs nothing of the entry, so it is still there
    rw [List.append_nil] at hway
    have hne : ¬ s.entry <+: q := by
      intro hp
      by_cases he : q = s.entry
      · rw [he] at hdirectory
        cases hx.symm.trans hdirectory
      · rw [node_below (fun hd => by cases hx.symm.trans hd) hp he] at hdirectory
        cases hdirectory
    rw [FileSystem.moved_of_not hne]
    refine .link (h'.part _ _ h.directory) (hentry ▸ hmoved _ hx) ?_
    rw [List.append_nil]
    exact (Walks.way hx hway).mono ((part_move hfree move).trans hg.part)

end

end Leads

end FileSystem
end Files
