import VertexVeil.Lib.Files

/-!
# Where paths lead

`Walks` is the walks that succeed, step by step, for inductions over them. A walk depends only on the entries it meets: it stays
the same when entries are added, and when one is renamed beside itself it ends in the moved place or not at all.
-/

namespace Files

variable {ν β : Type}

namespace FileSystem

variable {fs : FileSystem ν β}

theorem isDirectory_iff {p : Place ν} : fs.isDirectory p = true ↔ fs.node p = some .directory := by
  unfold isDirectory
  split
  · rename_i h
    exact iff_of_true rfl h
  · rename_i h
    exact iff_of_false (by simp) h

/-- What has an entry below it is a directory. -/
theorem directory_of_below {p t : Place ν} (h : fs.node (p ++ t) ≠ none) (ht : t ≠ []) : fs.node p = some .directory := by
  induction t using List.reverseRecOn with
  | nil => exact absurd rfl ht
  | append_singleton t name ih =>
    rw [← List.append_assoc] at h
    have hd := fs.parents _ _ h
    by_cases ht' : t = []
    · rwa [ht', List.append_nil] at hd
    · exact ih (by rw [hd]; simp) ht'

/-- Nothing is below a place without a directory. -/
theorem node_below {p q : Place ν} (h : fs.node p ≠ some .directory) (hq : p <+: q) (hne : q ≠ p) : fs.node q = none := by
  obtain ⟨t, rfl⟩ := hq
  by_contra hn
  exact h (directory_of_below hn (fun ht => hne (by rw [ht, List.append_nil])))

/-- What is there is not below a place where nothing is. -/
theorem not_prefix_of_none {p q : Place ν} {x : Node ν β} (hp : fs.node p = none) (hx : fs.node q = some x) : ¬ p <+: q := by
  intro h
  by_cases he : q = p
  · rw [he, hp] at hx
    cases hx
  · rw [node_below (by rw [hp]; simp) h he] at hx
    cases hx

/-- A walk that succeeds. -/
inductive Walks (fs : FileSystem ν β) : Nat → Place ν → List (Step ν) → Place ν → Prop where
  | nil {n : Nat} {p : Place ν} : Walks fs n p [] p
  | here {n : Nat} {p q : Place ν} {rest : List (Step ν)} (hd : fs.node p = some .directory) (h : Walks fs n p rest q) :
      Walks fs n p (.here :: rest) q
  | up {n : Nat} {p q : Place ν} {rest : List (Step ν)} (hd : fs.node p = some .directory) (h : Walks fs n p.dropLast rest q) :
      Walks fs n p (.up :: rest) q
  | down {n : Nat} {p q : Place ν} {name : ν} {x : Node ν β} {rest : List (Step ν)} (hd : fs.node p = some .directory)
      (hx : fs.node (p ++ [name]) = some x) (hl : ∀ route, x ≠ .link route) (h : Walks fs n (p ++ [name]) rest q) :
      Walks fs n p (.down name :: rest) q
  | link {n : Nat} {p q : Place ν} {name : ν} {route : Route ν} {rest : List (Step ν)} (hd : fs.node p = some .directory)
      (hx : fs.node (p ++ [name]) = some (.link route))
      (h : Walks fs n (if route.absolute then [] else p) (route.steps ++ rest) q) : Walks fs (n + 1) p (.down name :: rest) q

theorem walks_of_walkWith {n : Nat} {follow : Place ν → List (Step ν) → Except Error (Place ν)}
    (hfollow : ∀ p route rest name q, fs.node p = some .directory → fs.node (p ++ [name]) = some (.link route) →
      follow (if route.absolute then [] else p) (route.steps ++ rest) = .ok q → Walks fs n p (.down name :: rest) q)
    {p q : Place ν} {steps : List (Step ν)} (h : fs.walkWith follow p steps = .ok q) : Walks fs n p steps q := by
  induction steps generalizing p with
  | nil =>
    obtain rfl := Except.ok.inj h
    exact .nil
  | cons step rest ih =>
    unfold walkWith at h
    split at h
    · rename_i hd
      rw [isDirectory_iff] at hd
      cases step with
      | here => exact .here hd (ih h)
      | up => exact .up hd (ih h)
      | down name =>
        dsimp only at h
        split at h
        · cases h
        · rename_i route hx
          exact hfollow p route rest name q hd hx h
        · rename_i x hl hx
          exact .down hd hx hl (ih h)
    · cases h

theorem walks_of_walk {n : Nat} {p q : Place ν} {steps : List (Step ν)} (h : fs.walk n p steps = .ok q) :
    Walks fs n p steps q := by
  induction n generalizing p q steps with
  | zero =>
    refine walks_of_walkWith (fun _ _ _ _ _ _ _ hf => ?_) h
    cases hf
  | succ n ih => exact walks_of_walkWith (fun _ _ _ _ _ hd hx hf => .link hd hx (ih hf)) h

theorem Walks.walk {n : Nat} {p q : Place ν} {steps : List (Step ν)} (h : Walks fs n p steps q) : fs.walk n p steps = .ok q := by
  have hwith : ∀ n, ∃ follow, fs.walk n = fs.walkWith follow := by
    intro n
    cases n with
    | zero => exact ⟨_, rfl⟩
    | succ n => exact ⟨_, rfl⟩
  induction h with
  | @nil n p =>
    obtain ⟨follow, hn⟩ := hwith n
    rw [hn]
    rfl
  | @here n p q rest hd h ih =>
    obtain ⟨follow, hn⟩ := hwith n
    rw [hn] at ih ⊢
    unfold walkWith
    rw [if_pos (isDirectory_iff.mpr hd)]
    exact ih
  | @up n p q rest hd h ih =>
    obtain ⟨follow, hn⟩ := hwith n
    rw [hn] at ih ⊢
    unfold walkWith
    rw [if_pos (isDirectory_iff.mpr hd)]
    exact ih
  | @down n p q name x rest hd hx hl h ih =>
    obtain ⟨follow, hn⟩ := hwith n
    rw [hn] at ih ⊢
    unfold walkWith
    rw [if_pos (isDirectory_iff.mpr hd)]
    cases x with
    | link route => exact absurd rfl (hl route)
    | directory => simp only [hx, ih]
    | file contents => simp only [hx, ih]
  | @link n p q name route rest hd hx h ih =>
    change fs.walkWith (fs.walk n) p (.down name :: rest) = .ok q
    unfold walkWith
    rw [if_pos (isDirectory_iff.mpr hd)]
    simp only [hx, ih]

theorem walk_eq_ok {n : Nat} {p q : Place ν} {steps : List (Step ν)} : fs.walk n p steps = .ok q ↔ Walks fs n p steps q :=
  ⟨walks_of_walk, Walks.walk⟩

/-- A walk has one end. -/
theorem Walks.unique {n : Nat} {p q q' : Place ν} {steps : List (Step ν)} (h : Walks fs n p steps q)
    (h' : Walks fs n p steps q') : q' = q :=
  Except.ok.inj (h'.walk.symm.trans h.walk)

/-! ## The parts of a walk -/

/-- A walk is one along its first steps and one from there along the rest. -/
theorem Walks.split {n : Nat} {p q : Place ν} {steps rest : List (Step ν)} (h : Walks fs n p (steps ++ rest) q) :
    ∃ m b, Walks fs n p steps b ∧ Walks fs m b rest q := by
  generalize hs : steps ++ rest = all at h
  induction h generalizing steps with
  | nil =>
    obtain ⟨rfl, rfl⟩ := List.append_eq_nil_iff.mp hs
    exact ⟨0, _, .nil, .nil⟩
  | here hd h ih =>
    cases steps with
    | nil =>
      obtain rfl := hs
      exact ⟨_, _, .nil, .here hd h⟩
    | cons step steps =>
      obtain ⟨rfl, htail⟩ := List.cons.inj hs
      obtain ⟨m, b, hb, hrest⟩ := ih htail
      exact ⟨m, b, .here hd hb, hrest⟩
  | up hd h ih =>
    cases steps with
    | nil =>
      obtain rfl := hs
      exact ⟨_, _, .nil, .up hd h⟩
    | cons step steps =>
      obtain ⟨rfl, htail⟩ := List.cons.inj hs
      obtain ⟨m, b, hb, hrest⟩ := ih htail
      exact ⟨m, b, .up hd hb, hrest⟩
  | down hd hx hl h ih =>
    cases steps with
    | nil =>
      obtain rfl := hs
      exact ⟨_, _, .nil, .down hd hx hl h⟩
    | cons step steps =>
      obtain ⟨rfl, htail⟩ := List.cons.inj hs
      obtain ⟨m, b, hb, hrest⟩ := ih htail
      exact ⟨m, b, .down hd hx hl hb, hrest⟩
  | link hd hx h ih =>
    cases steps with
    | nil =>
      obtain rfl := hs
      exact ⟨_, _, .nil, .link hd hx h⟩
    | cons step steps =>
      obtain ⟨rfl, rfl⟩ := List.cons.inj hs
      obtain ⟨m, b, hb, hrest⟩ := ih (List.append_assoc _ _ _)
      exact ⟨m, b, .link hd hx hb, hrest⟩

/-- A walk that ends with a name meets an entry of that name in a directory; unless it is a link, the walk ends there. -/
theorem Walks.last {n : Nat} {p q : Place ν} {steps : List (Step ν)} {name : ν} (h : Walks fs n p (steps ++ [.down name]) q) :
    ∃ b x, Walks fs n p steps b ∧ fs.node b = some .directory ∧ fs.node (b ++ [name]) = some x ∧
      ((∀ route, x ≠ .link route) → q = b ++ [name]) := by
  obtain ⟨m, b, hb, hlast⟩ := h.split
  cases hlast with
  | down hd hx hl h => exact ⟨b, _, hb, hd, hx, fun _ => h.unique .nil ▸ rfl⟩
  | link hd hx h => exact ⟨b, _, hb, hd, hx, fun hl => absurd rfl (hl _)⟩

/-- An entry that a path names on the way is there. -/
theorem Walks.entry_on_way {n : Nat} {p q : Place ν} {all rs steps : List (Step ν)} {name : ν} (h : Walks fs n p all q)
    (hrs : rs <:+ all.reverse) (hsteps : rs.reverse = steps ++ [.down name]) :
    ∃ b x, Walks fs n p steps b ∧ fs.node (b ++ [name]) = some x := by
  obtain ⟨pre, hpre⟩ := hrs
  have hall : all = steps ++ [.down name] ++ pre.reverse := by
    rw [← hsteps, ← List.reverse_append, hpre, List.reverse_reverse]
  rw [hall] at h
  obtain ⟨_, _, hw, _⟩ := h.split
  obtain ⟨b, x, hb, -, hx, -⟩ := hw.last
  exact ⟨b, x, hb, hx⟩

/-- A walk to a directory goes on to an entry in it that is no link. -/
theorem Walks.snoc {n : Nat} {p b : Place ν} {steps : List (Step ν)} {name : ν} {x : Node ν β} (h : Walks fs n p steps b)
    (hd : fs.node b = some .directory) (hx : fs.node (b ++ [name]) = some x) (hl : ∀ route, x ≠ .link route) :
    Walks fs n p (steps ++ [.down name]) (b ++ [name]) := by
  induction h with
  | nil => exact .down hd hx hl .nil
  | here hd' h ih => exact .here hd' (ih hd hx)
  | up hd' h ih => exact .up hd' (ih hd hx)
  | down hd' hx' hl' h ih => exact .down hd' hx' hl' (ih hd hx)
  | link hd' hx' h ih => exact .link hd' hx' (List.append_assoc _ _ _ ▸ ih hd hx)

theorem Walks.snoc_here {n : Nat} {p b : Place ν} {steps : List (Step ν)} (h : Walks fs n p steps b)
    (hd : fs.node b = some .directory) : Walks fs n p (steps ++ [.here]) b := by
  induction h with
  | nil => exact .here hd .nil
  | here hd' h ih => exact .here hd' (ih hd)
  | up hd' h ih => exact .up hd' (ih hd)
  | down hd' hx' hl' h ih => exact .down hd' hx' hl' (ih hd)
  | link hd' hx' h ih => exact .link hd' hx' (List.append_assoc _ _ _ ▸ ih hd)

/-- More links may be followed than a walk needs. -/
theorem Walks.more {n m : Nat} {p q : Place ν} {steps : List (Step ν)} (h : Walks fs n p steps q) (hn : n ≤ m) :
    Walks fs m p steps q := by
  induction h generalizing m with
  | nil => exact .nil
  | here hd h ih => exact .here hd (ih hn)
  | up hd h ih => exact .up hd (ih hn)
  | down hd hx hl h ih => exact .down hd hx hl (ih hn)
  | link hd hx h ih =>
    obtain ⟨k, rfl⟩ : ∃ k, m = k + 1 := ⟨m - 1, by omega⟩
    exact .link hd hx (ih (by omega))

/-! ## Walks in a part of the tree -/

/-- The entries of one tree are entries of another. -/
def Part (sub fs : FileSystem ν β) : Prop := ∀ p x, sub.node p = some x → fs.node p = some x

theorem Part.refl (fs : FileSystem ν β) : fs.Part fs := fun _ _ h => h

theorem Part.none {sub : FileSystem ν β} (h : sub.Part fs) {p : Place ν} (hp : fs.node p = none) : sub.node p = none := by
  by_contra hn
  obtain ⟨x, hx⟩ := Option.ne_none_iff_exists'.mp hn
  rw [h p x hx] at hp
  cases hp

theorem Part.trans {sub fs fs' : FileSystem ν β} (h : sub.Part fs) (h' : fs.Part fs') : sub.Part fs' :=
  fun p x hx => h' p x (h p x hx)

/-- Where all entries are still there, a walk is still one. -/
theorem Walks.mono {fs' : FileSystem ν β} (hfs : fs.Part fs') {n : Nat} {p q : Place ν} {steps : List (Step ν)}
    (h : Walks fs n p steps q) : Walks fs' n p steps q := by
  induction h with
  | nil => exact .nil
  | here hd h ih => exact .here (hfs _ _ hd) ih
  | up hd h ih => exact .up (hfs _ _ hd) ih
  | down hd hx hl h ih => exact .down (hfs _ _ hd) (hfs _ _ hx) hl ih
  | link hd hx h ih => exact .link (hfs _ _ hd) (hfs _ _ hx) ih

/-- A walk whose first steps need only a part of the tree goes on from their end, and so does one in another tree with that
part. -/
theorem Walks.past {sub fs' : FileSystem ν β} (hfs : sub.Part fs) (hfs' : sub.Part fs') {n : Nat} {p b q : Place ν}
    {steps rest : List (Step ν)} (h : Walks sub n p steps b) (hw : Walks fs n p (steps ++ rest) q) :
    ∃ m, Walks fs m b rest q ∧ ∀ rest' q', Walks fs' m b rest' q' → Walks fs' n p (steps ++ rest') q' := by
  induction h with
  | @nil n p => exact ⟨n, hw, fun _ _ h => h⟩
  | here hd h ih =>
    rw [List.cons_append] at hw
    cases hw with
    | here hd' hw =>
      obtain ⟨m, hm, hgo⟩ := ih hw
      exact ⟨m, hm, fun rest' q' h' => .here (hfs' _ _ hd) (hgo rest' q' h')⟩
  | up hd h ih =>
    rw [List.cons_append] at hw
    cases hw with
    | up hd' hw =>
      obtain ⟨m, hm, hgo⟩ := ih hw
      exact ⟨m, hm, fun rest' q' h' => .up (hfs' _ _ hd) (hgo rest' q' h')⟩
  | down hd hx hl h ih =>
    rw [List.cons_append] at hw
    cases hw with
    | down hd' hx' hl' hw =>
      obtain ⟨m, hm, hgo⟩ := ih hw
      exact ⟨m, hm, fun rest' q' h' => .down (hfs' _ _ hd) (hfs' _ _ hx) hl (hgo rest' q' h')⟩
    | link hd' hx' hw => exact absurd (Option.some.inj ((hfs _ _ hx).symm.trans hx')) (hl _)
  | @link n p b name route steps hd hx h ih =>
    rw [List.cons_append] at hw
    cases hw with
    | down hd' hx' hl' hw => exact absurd (Option.some.inj (hx'.symm.trans (hfs _ _ hx))) (hl' _)
    | link hd' hx' hw =>
      obtain rfl := Node.link.inj (Option.some.inj (hx'.symm.trans (hfs _ _ hx)))
      rw [← List.append_assoc] at hw
      obtain ⟨m, hm, hgo⟩ := ih hw
      exact ⟨m, hm, fun rest' q' h' => .link (hfs' _ _ hd) (hfs' _ _ hx) (List.append_assoc _ _ _ ▸ hgo rest' q' h')⟩

theorem reach_eq_ok {r : Route ν} {q : Place ν} :
    fs.reach r = .ok q ↔ ∃ p, fs.start r = .ok p ∧ Walks fs fs.maxLinks p r.steps q := by
  unfold reach
  cases fs.start r with
  | error e => simp
  | ok p => simp [walk_eq_ok]

theorem reach_of_resolve {r : Route ν} {q : Place ν} (h : fs.resolve r = .ok q) : fs.reach r = .ok q := by
  unfold resolve at h
  split at h
  · cases h
  · exact h

/-- What a path names: its last step, in the directory the others lead to. -/
theorem locate_eq_ok {r : Route ν} {l : Location fs} :
    fs.locate r = .ok l ↔ ∃ steps, r.steps = steps ++ [.down l.name] ∧ fs.reach { r with steps } = .ok l.dir := by
  unfold locate
  constructor
  · intro h
    split at h
    · rename_i name hlast
      split at h
      · cases h
      · rename_i p hp
        split at h
        · obtain rfl := Except.ok.inj h
          exact ⟨r.steps.dropLast, (List.dropLast_append_getLast? _ hlast).symm, hp⟩
        · cases h
    · cases h
  · rintro ⟨steps, hsteps, hreach⟩
    obtain ⟨dir, name, hdir⟩ := l
    have hlast : r.steps.getLast? = some (.down name) := by rw [hsteps, List.getLast?_concat]
    have hinit : r.steps.dropLast = steps := by rw [hsteps, List.dropLast_concat]
    rw [hlast]
    simp only [hinit, hreach]
    split
    · rfl
    · rename_i hne
      exact absurd hdir hne

/-- A path that names an entry which is no link leads there. -/
theorem reach_of_locate {r : Route ν} {l : Location fs} (hl : fs.locate r = .ok l) {x : Node ν β} (hx : fs.node l.entry = some x)
    (hn : ∀ route, x ≠ .link route) : fs.reach r = .ok l.entry := by
  obtain ⟨steps, hsteps, hreach⟩ := locate_eq_ok.mp hl
  obtain ⟨p, hp, hw⟩ := reach_eq_ok.mp hreach
  refine reach_eq_ok.mpr ⟨p, hp, ?_⟩
  rw [hsteps]
  exact hw.snoc l.directory hx hn

/-- Where a path leads, the entry it names is a link or that place. -/
theorem link_or_entry {r : Route ν} {l : Location fs} (hl : fs.locate r = .ok l) {q : Place ν} (hr : fs.reach r = .ok q) :
    (∃ route, fs.node l.entry = some (.link route)) ∨ q = l.entry := by
  obtain ⟨steps, hsteps, hreach⟩ := locate_eq_ok.mp hl
  obtain ⟨p, hp, hw⟩ := reach_eq_ok.mp hr
  rw [hsteps] at hw
  obtain ⟨b, x, hb, -, hx, hend⟩ := hw.last
  obtain rfl : b = l.dir := Except.ok.inj ((reach_eq_ok.mpr ⟨p, hp, hb⟩ : fs.reach { r with steps } = .ok b).symm.trans hreach)
  by_cases hlink : ∃ route, x = .link route
  · obtain ⟨route, rfl⟩ := hlink
    exact Or.inl ⟨route, hx⟩
  · exact Or.inr (hend (fun route he => hlink ⟨route, he⟩))

/-! ## The way of a link -/

section

variable [DecidableEq ν]

theorem node_remove_of_not (l : Location fs) {p : Place ν} (h : ¬ l.entry <+: p) : (fs.remove l).node p = fs.node p := if_neg h

theorem node_remove_self (l : Location fs) : (fs.remove l).node l.entry = none := if_pos (List.prefix_refl _)

/-- Without an entry the rest of the tree is part of it. -/
theorem part_remove (l : Location fs) : (fs.remove l).Part fs := by
  intro p x hx
  by_cases h : l.entry <+: p
  · rw [show (fs.remove l).node p = none from if_pos h] at hx
    cases hx
  · rwa [node_remove_of_not l h] at hx

/-- Without a link all other entries are there. -/
theorem node_remove_link {l : Location fs} {route : Route ν} (hlink : fs.node l.entry = some (.link route)) {p : Place ν}
    {x : Node ν β} (hx : fs.node p = some x) (hp : p ≠ l.entry) : (fs.remove l).node p = some x := by
  rw [node_remove_of_not l, hx]
  intro h
  rw [node_below (by rw [hlink]; simp) h hp] at hx
  cases hx

/-- A walk does without a link, or it goes its way with fewer links left. -/
theorem Walks.skips {l : Location fs} {route : Route ν} (hlink : fs.node l.entry = some (.link route)) {n : Nat} {p q : Place ν}
    {steps : List (Step ν)} (h : Walks fs n p steps q) :
    Walks (fs.remove l) n p steps q ∨
      ∃ m < n, ∃ rest, Walks fs m (if route.absolute then [] else l.dir) (route.steps ++ rest) q := by
  have hdirectory : ∀ {p}, fs.node p = some .directory → (fs.remove l).node p = some .directory := by
    intro p hd
    refine node_remove_link hlink hd ?_
    rintro rfl
    rw [hlink] at hd
    cases hd
  induction h with
  | nil => exact Or.inl .nil
  | here hd h ih => exact ih.imp_left fun h => .here (hdirectory hd) h
  | up hd h ih => exact ih.imp_left fun h => .up (hdirectory hd) h
  | down hd hx hl h ih =>
    refine ih.imp_left fun h => .down (hdirectory hd) (node_remove_link hlink hx ?_) hl h
    intro he
    rw [he, hlink] at hx
    exact hl _ (Option.some.inj hx).symm
  | @link n p q name route' rest hd hx h ih =>
    by_cases he : p ++ [name] = l.entry
    · rw [he, hlink] at hx
      obtain rfl := Node.link.inj (Option.some.inj hx)
      obtain rfl : p = l.dir := (List.append_inj' he rfl).1
      exact Or.inr ⟨n, by omega, rest, h⟩
    · rcases ih with h | ⟨m, hm, rest, h⟩
      · exact Or.inl (.link (hdirectory hd) (node_remove_link hlink hx he) h)
      · exact Or.inr ⟨m, by omega, rest, h⟩

/-- The way of a link that leads somewhere does not lead through the link. -/
theorem Walks.way {l : Location fs} {route : Route ν} (hlink : fs.node l.entry = some (.link route)) {n : Nat} {q : Place ν}
    (h : Walks fs n (if route.absolute then [] else l.dir) route.steps q) :
    Walks (fs.remove l) n (if route.absolute then [] else l.dir) route.steps q := by
  induction n using Nat.strongRecOn generalizing q with
  | _ n ih =>
    rcases h.skips hlink with h' | ⟨m, hm, rest, h'⟩
    · exact h'
    · obtain ⟨-, b, hb, -⟩ := h'.split
      have hskip := (ih m hm hb).more hm.le
      rwa [← (hskip.mono (part_remove l)).unique h] at hskip

end

end FileSystem
end Files
