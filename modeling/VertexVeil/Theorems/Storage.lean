import Mathlib.Logic.Relation
import VertexVeil.Lemmas.Storage

/-!
# Bundles that were moved away

A call of `openVersioned` that finds something in the directory renames the entry of the directory to a free sibling. A directory
goes there with everything in it, and stays until somebody deletes it. A link goes there as a link.
-/

namespace VertexVeil

open Codec Files Files.FileSystem ArtifactWriter

variable {β : Type}

/-! ## A bundle that is rotated -/

/-- What a call that found something in its directory leaves. The path `parent` joined to `stem` named the entry `s` and led to
`q`; the sibling of a version names the entry `d`. Where the way to the directory does not lead through it, `leads` says where the
sibling's path leads, and where it does not lead through the sibling either, `apart` says that nothing else changed. -/
structure RotatedTo (fs fs' : FileSystem OsStr β) (parent : PathBuf) (stem : Text) (version : Nat) (q : Place OsStr)
    (s d : Location fs) : Prop where
  source : fs.locate (parent.join (.utf8 stem)).route = .ok s
  sibling : fs.locate (parent.join (siblingName stem version)).route = .ok d
  beside : s.dir = d.dir ∧ s.entry ≠ d.entry
  fresh : fs.pathExists (parent.join (siblingName stem version)).route = false
  free : fs.node d.entry = none ∨
    (∃ route, fs.node s.entry = some (.link route)) ∧ ∃ route, fs.node d.entry = some (.link route)
  recreated : Recreated s d fs' (parent.join (.utf8 stem)).route
  leads : fs.node d.entry = none → ∀ sub p, Leads sub fs parent.route p s.dir → sub.node s.entry = none →
    fs'.resolve (parent.join (siblingName stem version)).route = .ok (moved s.entry d.entry q)
  apart : ∀ sub p, Leads sub fs parent.route p s.dir → sub.node s.entry = none → sub.node d.entry = none →
    (∀ t, ¬ s.entry <+: t → ¬ d.entry <+: t → fs'.node t = fs.node t) ∧
      fs'.resolve (parent.join (.utf8 stem)).route = .ok s.entry ∧ fs'.EmptyDirectory s.entry

/-- The directory a path leads to has neither the run's directory nor a sibling in the part of the disk that the path needs, and
the directory is no link. -/
structure Anchored (sub fs : FileSystem OsStr β) (parent : PathBuf) (stem : Text) (p b : Place OsStr) : Prop where
  leads : Leads sub fs parent.route p b
  own : sub.node (b ++ [.utf8 stem]) = none
  siblings : ∀ version, sub.node (b ++ [siblingName stem version]) = none
  directory : ∀ route, fs.node (b ++ [.utf8 stem]) ≠ some (.link route)

/-- What happens to the disk: a call, anything that is done to what the directory holds, and deleting a sibling. -/
inductive Change (parent : PathBuf) (stem : Text) (deleted : Nat → Prop) : FileSystem OsStr β → FileSystem OsStr β → Prop where
  | call (fs : FileSystem OsStr β) : Change parent stem deleted fs (openVersioned fs (parent.join (.utf8 stem))).2
  | write {fs fs' : FileSystem OsStr β} {q : Place OsStr} (hq : fs.resolve (parent.join (.utf8 stem)).route = .ok q)
      (hnode : ∀ p, ¬ (q <+: p ∧ p ≠ q) → fs'.node p = fs.node p)
      (hcwd : ∀ c, ¬ (q <+: c ∧ c ≠ q) → fs.cwd = some c → fs'.cwd = some c) (hlinks : fs'.maxLinks = fs.maxLinks) :
      Change parent stem deleted fs fs'
  | delete {fs : FileSystem OsStr β} {version : Nat} {l : Location fs} (hd : deleted version)
      (hl : fs.locate (parent.join (siblingName stem version)).route = .ok l) : Change parent stem deleted fs (fs.remove l)

namespace StorageAux

variable {fs fs' fs₁ sub : FileSystem OsStr β} {parent : PathBuf} {stem : Text} {version : Nat} {p q b : Place OsStr}

theorem locate_join {name : OsStr} {l : Location fs} (h : fs.locate (parent.join name).route = .ok l) :
    fs.reach parent.route = .ok l.dir ∧ l.name = name := by
  obtain ⟨steps, hsteps, hreach⟩ := locate_eq_ok.mp h
  obtain ⟨rfl, hlast⟩ := List.append_inj' hsteps rfl
  exact ⟨hreach, (Step.down.inj (List.cons.inj hlast).1).symm⟩

/-- A name that leads nowhere is free, or a link that leads nowhere has it. -/
theorem free_or_link {name : OsStr} {l : Location fs} (hl : fs.locate (parent.join name).route = .ok l)
    (hfresh : fs.pathExists (parent.join name).route = false) :
    fs.node l.entry = none ∨ ∃ route, fs.node l.entry = some (.link route) := by
  cases hx : fs.node l.entry with
  | none => exact Or.inl rfl
  | some x =>
    refine Or.inr ?_
    by_contra hn
    have hreach := reach_of_locate hl hx (fun route he => hn ⟨route, by rw [he]⟩)
    rw [← PathBuf.resolve_join] at hreach
    rw [pathExists, hreach] at hfresh
    cases hfresh

/-- What the rename of a call does: it moves an entry beside itself, where nothing is, or a link over a link. -/
theorem rename_cases (hq : fs.resolve (parent.join (.utf8 stem)).route = .ok q) (hdirectory : fs.node q = some .directory)
    (hfresh : fs.pathExists (parent.join (siblingName stem version)).route = false)
    (hrename : fs.rename (parent.join (.utf8 stem)).route (parent.join (siblingName stem version)).route = .ok fs₁) :
    ∃ s d hp, fs.locate (parent.join (.utf8 stem)).route = .ok s ∧
      fs.locate (parent.join (siblingName stem version)).route = .ok d ∧ (s.dir = d.dir ∧ s.entry ≠ d.entry) ∧
      fs₁ = fs.move s d hp ∧ (fs.node d.entry = none ∨
        (∃ route, fs.node s.entry = some (.link route)) ∧ ∃ route, fs.node d.entry = some (.link route)) := by
  obtain ⟨s, d, hs, hd, hentry⟩ := rename_ok hrename
  obtain ⟨hsdir, hsname⟩ := locate_join hs
  obtain ⟨hddir, hdname⟩ := locate_join hd
  have hdir : s.dir = d.dir := Except.ok.inj (hsdir.symm.trans hddir)
  have hne : s.entry ≠ d.entry := by
    intro he
    have hname := (List.cons.inj (List.append_inj' he rfl).2).1
    rw [hsname, hdname] at hname
    exact siblingName_ne_stem stem version hname.symm
  obtain ⟨hp, hmove, hover⟩ := renameEntry_ok hentry hne
  refine ⟨s, d, hp, hs, hd, ⟨hdir, hne⟩, hmove, ?_⟩
  rcases free_or_link hd hfresh with hfree | ⟨route, hlink⟩
  · exact Or.inl hfree
  · refine Or.inr ⟨?_, route, hlink⟩
    rcases link_or_entry hs (reach_of_resolve hq) with hs' | rfl
    · exact hs'
    · -- a directory is not renamed over a link
      rcases hover with hfree | hover
      · rw [hlink] at hfree
        cases hfree
      · rw [replaces, isDirectory_iff.mpr hdirectory, isDirectory, hlink] at hover
        cases hover

/-- What the rename and creating the directory again leave. -/
theorem rotatedTo_of_rename (hup : Step.up ∉ (parent.join (.utf8 stem)).route.steps)
    (hq : fs.resolve (parent.join (.utf8 stem)).route = .ok q) (hdirectory : fs.node q = some .directory)
    (hfresh : fs.pathExists (parent.join (siblingName stem version)).route = false)
    (hrename : fs.rename (parent.join (.utf8 stem)).route (parent.join (siblingName stem version)).route = .ok fs₁)
    (hok : (fs₁.createDirAll (parent.join (.utf8 stem)).route).1 = .ok ()) :
    ∃ s d, RotatedTo fs (fs₁.createDirAll (parent.join (.utf8 stem)).route).2 parent stem version q s d := by
  obtain ⟨s, d, hp, hs, hd, ⟨hbeside, hentry⟩, rfl, hfree⟩ := rename_cases hq hdirectory hfresh hrename
  have hreach := reach_of_resolve hq
  refine ⟨s, d, hs, hd, ⟨hbeside, hentry⟩, hfresh, hfree, ?_, ?_, ?_⟩
  · exact recreated hbeside hentry hreach hs hup (hfree.imp_right And.left) (Prod.ext hok rfl)
  · intro hnone sub p hleads hsub
    have hgrown := createDirAll_grows (fs.move s d hp) (parent.join (.utf8 stem)).route
    rw [PathBuf.resolve_join, PathBuf.join_route, ← (locate_join hd).2]
    rw [PathBuf.join_route, ← (locate_join hs).2] at hreach
    exact hleads.reach_renamed rfl hbeside.symm hsub hnone hgrown hreach hdirectory
  · intro sub p hleads hsub hsub'
    have hleads₁ := hleads.moved hp hsub hsub'
    have hback := Location.not_prefix_beside hbeside.symm hentry.symm
    have hgone : (fs.move s d hp).node (hleads₁.location s.name).entry = none := nodeMoved_src fs hback (List.prefix_refl _)
    have hroute : (parent.join (.utf8 stem)).route = { parent.route with steps := parent.route.steps ++ [.down s.name] } := by
      rw [PathBuf.join_route, (locate_join hs).2]
    obtain ⟨hreached, hempty⟩ := reach_insert (hleads₁.locate s.name) hgone
    rw [PathBuf.resolve_join, hroute, hleads₁.createDirAll_eq hgone]
    refine ⟨fun t hts htd => ?_, hreached, hempty⟩
    have hne : t ≠ s.entry := fun he => hts (by rw [he])
    rw [node_insert_of_ne _ _ hgone hne]
    exact nodeMoved_other fs htd hts

/-- What a successful call leaves where something was in the directory. -/
theorem rotatedTo_of_call {dir : PathBuf} {name : OsStr} {w : ArtifactWriter} {target : Option PathBuf}
    (hq : fs.resolve dir.route = .ok q) (hne : fs.node (q ++ [name]) ≠ none)
    (h : openVersioned fs dir = (.ok (w, target), fs')) :
    ∃ parent stem version s d, dir = parent.join (.utf8 stem) ∧ w.dir = dir ∧
      target = some (parent.join (siblingName stem version)) ∧ (1 ≤ version ∧
        ∀ v, 1 ≤ v → v < version → fs.pathExists (parent.join (siblingName stem v)).route = true) ∧
      RotatedTo fs fs' parent stem version q s d := by
  have hopened := opened fs dir
  rw [h] at hopened
  cases hopened with
  | empty hq' he => exact absurd (he.2 name) (Except.ok.inj (hq'.symm.trans hq) ▸ hne)
  | created result hup hmissing hresult =>
    rw [pathExists, hq] at hmissing
    cases hmissing
  | @rotated q' parent stem version fs₁ _ hup hq' hdirectory hdir hfind hrename hresult =>
    obtain rfl : q' = q := Except.ok.inj (hq'.symm.trans hq)
    obtain ⟨hw, htarget, hok⟩ := hresult w target rfl
    subst hdir
    obtain ⟨hle, -, hfresh, hall⟩ := findVersion_eq_some.mp hfind
    obtain ⟨s, d, hrotated⟩ := rotatedTo_of_rename hup hq hdirectory hfresh hrename hok
    exact ⟨parent, stem, version, s, d, rfl, hw, htarget, ⟨hle, hall⟩, hrotated⟩

theorem not_prefix_beside {b t : Place OsStr} {x y : OsStr} (h : x ≠ y) : ¬ b ++ [x] <+: b ++ [y] ++ t := by
  rintro ⟨u, hu⟩
  rw [List.append_assoc, List.append_assoc, List.append_cancel_left_eq] at hu
  exact h (List.cons.inj hu).1

end StorageAux

open StorageAux

/-! ### Over many calls -/

namespace Anchored

variable {fs fs' sub : FileSystem OsStr β} {parent : PathBuf} {stem : Text} {p q b : Place OsStr}

/-- Where the directory's path leads, the directory is. -/
theorem resolve_eq (h : Anchored sub fs parent stem p b) (hq : fs.resolve (parent.join (.utf8 stem)).route = .ok q) :
    q = b ++ [.utf8 stem] := by
  rcases link_or_entry (h.leads.locate (.utf8 stem)) (reach_of_resolve hq) with ⟨route, hlink⟩ | he
  · exact absurd hlink (h.directory route)
  · exact he

/-- A call leaves what is beside the directory as it is, and it stays beside. -/
theorem call (h : Anchored sub fs parent stem p b) :
    Anchored sub (openVersioned fs (parent.join (.utf8 stem))).2 parent stem p b ∧
      ∀ x t, x ≠ .utf8 stem → fs.node (b ++ [x]) ≠ none →
        (openVersioned fs (parent.join (.utf8 stem))).2.node (b ++ [x] ++ t) = fs.node (b ++ [x] ++ t) := by
  have hopened := opened fs (parent.join (.utf8 stem))
  generalize (openVersioned fs (parent.join (.utf8 stem))).1 = result at hopened
  generalize (openVersioned fs (parent.join (.utf8 stem))).2 = fs' at hopened
  have hupParent : Step.up ∉ (parent.join (.utf8 stem)).route.steps → Step.up ∉ parent.route.steps :=
    fun hup hm => hup (List.mem_append_left _ hm)
  cases hopened with
  | refused | empty => exact ⟨h, fun _ _ _ _ => rfl⟩
  | created result hup hmissing hresult =>
    have hgrown := createDirAll_grows fs (parent.join (.utf8 stem)).route
    refine ⟨⟨h.leads.grown hgrown, h.own, h.siblings, fun route hlink => ?_⟩, fun x t hx _ => ?_⟩
    · rcases hgrown.added _ _ hlink with hlink | hlink
      · exact h.directory route hlink
      · cases hlink
    · exact h.leads.createDirAll_frame (hupParent hup) (not_prefix_beside hx.symm)
  | @rotated q parent' stem' version fs₁ _ hup hq hdirectory hdir hfind hrename hresult =>
    obtain ⟨rfl, rfl⟩ := PathBuf.join_inj hdir
    obtain ⟨-, -, hfresh, -⟩ := findVersion_eq_some.mp hfind
    obtain ⟨s, d, hp, hs, hd, ⟨-, hentry⟩, rfl, hfree⟩ := rename_cases hq hdirectory hfresh hrename
    obtain rfl : s = h.leads.location (.utf8 stem) := Except.ok.inj (hs.symm.trans (h.leads.locate _))
    obtain rfl : d = h.leads.location (siblingName stem version) := Except.ok.inj (hd.symm.trans (h.leads.locate _))
    have hnone := hfree.resolve_right (fun hlink => hlink.1.elim h.directory)
    have hleads := h.leads.moved hp h.own (h.siblings version)
    have hgrown := createDirAll_grows (fs.move _ _ hp) (parent.join (.utf8 stem)).route
    refine ⟨⟨hleads.grown hgrown, h.own, h.siblings, fun route hlink => ?_⟩, fun x t hx hn => ?_⟩
    · rcases hgrown.added _ _ hlink with hlink | hlink
      · have hback : ¬ b ++ [siblingName stem version] <+: b ++ [.utf8 stem] :=
          fun hp => not_prefix_beside (siblingName_ne_stem stem version) (hp.trans (List.prefix_append _ []))
        cases hlink.symm.trans (nodeMoved_src fs hback (List.prefix_refl _))
      · cases hlink
    · have hxd : siblingName stem version ≠ x := by
        rintro rfl
        exact hn hnone
      refine (hleads.createDirAll_frame (hupParent hup) (not_prefix_beside hx.symm)).trans ?_
      exact nodeMoved_other fs (not_prefix_beside hxd) (not_prefix_beside hx.symm)

/-- A change leaves a sibling that it does not delete as it is, and the directory stays anchored. -/
theorem change {deleted : Nat → Prop} (h : Anchored sub fs parent stem p b) (hc : Change parent stem deleted fs fs') :
    Anchored sub fs' parent stem p b ∧ ∀ version t, ¬ deleted version → fs.node (b ++ [siblingName stem version]) ≠ none →
      fs'.node (b ++ [siblingName stem version] ++ t) = fs.node (b ++ [siblingName stem version] ++ t) := by
  cases hc with
  | call => exact ⟨h.call.1, fun version t _ hn => h.call.2 _ t (siblingName_ne_stem stem version) hn⟩
  | @write _ q hq hnode hcwd hlinks =>
    obtain rfl := h.resolve_eq hq
    refine ⟨⟨h.leads.of_part (fun p x hx => ?_) (fun c hd hc => ?_) hlinks, h.own, h.siblings, fun route hlink => ?_⟩,
      fun version t _ _ => ?_⟩
    · exact (hnode p (fun hp => not_prefix_of_none h.own hx hp.1)).trans (h.leads.part p x hx)
    · exact hcwd c (fun hp => not_prefix_of_none h.own hd hp.1) hc
    · exact h.directory route ((hnode _ (fun hp => hp.2 rfl)).symm.trans hlink)
    · exact hnode _ (fun hp => not_prefix_beside (siblingName_ne_stem stem version).symm hp.1)
  | @delete version l hd hl =>
    obtain rfl : l = h.leads.location (siblingName stem version) := Except.ok.inj (hl.symm.trans (h.leads.locate _))
    refine ⟨⟨h.leads.removed (h.siblings version), h.own, h.siblings, fun route hlink => ?_⟩, fun v t hv _ => ?_⟩
    · exact h.directory route (part_remove _ _ _ hlink)
    · refine node_remove_of_not _ (not_prefix_beside fun he => hv ?_)
      rwa [← siblingName_injective stem he]

theorem run {deleted : Nat → Prop} (h : Anchored sub fs parent stem p b)
    (hrun : Relation.ReflTransGen (Change parent stem deleted) fs fs') :
    Anchored sub fs' parent stem p b ∧ ∀ version t, ¬ deleted version → fs.node (b ++ [siblingName stem version]) ≠ none →
      fs'.node (b ++ [siblingName stem version] ++ t) = fs.node (b ++ [siblingName stem version] ++ t) := by
  induction hrun with
  | refl => exact ⟨h, fun _ _ _ _ => rfl⟩
  | tail hrun hc ih =>
    obtain ⟨hanchored, hkept⟩ := ih
    refine ⟨(hanchored.change hc).1, fun version t hv hn => ?_⟩
    refine ((hanchored.change hc).2 version t hv ?_).trans (hkept version t hv hn)
    have hself := hkept version [] hv hn
    rw [List.append_nil] at hself
    rwa [hself]

/-- A call that moves a bundle away moves all of it to the sibling it returns. -/
theorem rotated (h : Anchored sub fs parent stem p b) {w : ArtifactWriter} {target : PathBuf}
    (hc : openVersioned fs (parent.join (.utf8 stem)) = (.ok (w, some target), fs')) :
    ∃ version, target = parent.join (siblingName stem version) ∧ fs.node (b ++ [.utf8 stem]) = some .directory ∧
      ∀ t, fs'.node (b ++ [siblingName stem version] ++ t) = fs.node (b ++ [.utf8 stem] ++ t) := by
  have hopened := opened fs (parent.join (.utf8 stem))
  rw [hc] at hopened
  cases hopened with
  | created result hup hmissing hresult => cases hresult w _ rfl
  | @rotated q parent' stem' version fs₁ _ hup hq hdirectory hdir hfind hrename hresult =>
    obtain ⟨rfl, rfl⟩ := PathBuf.join_inj hdir
    obtain ⟨-, htarget, hok⟩ := hresult w (some target) rfl
    obtain ⟨-, -, hfresh, -⟩ := findVersion_eq_some.mp hfind
    obtain ⟨s, d, hrotated⟩ := rotatedTo_of_rename hup hq hdirectory hfresh hrename hok
    obtain rfl : s = h.leads.location (.utf8 stem) := Except.ok.inj (hrotated.source.symm.trans (h.leads.locate _))
    obtain rfl : d = h.leads.location (siblingName stem version) :=
      Except.ok.inj (hrotated.sibling.symm.trans (h.leads.locate _))
    exact ⟨version, Option.some.inj htarget, h.resolve_eq hq ▸ hdirectory, hrotated.recreated.moved⟩

end Anchored

/-- **Bundles that were moved away.** A successful call that finds something in its directory moves the entry of the directory to
the first sibling that does not exist: everything below it is below the sibling, every other entry stays, and unless a link took
the place of one that led nowhere, nothing else changed and the directory is a new one with nothing in it. The sibling leads to
what the directory's path led to if the way there does not lead through it. The search for the version ends. And over any calls,
writes into the directory and deletions of other siblings a bundle that was moved away stays, complete, where its path leads. -/
theorem bundle_rotation :
    (∀ (fs fs' : FileSystem OsStr β) (dir : PathBuf) (w : ArtifactWriter) (target : Option PathBuf) (q : Place OsStr) (name : OsStr),
      fs.resolve dir.route = .ok q → fs.node (q ++ [name]) ≠ none → openVersioned fs dir = (.ok (w, target), fs') →
      ∃ parent stem version s d, dir = parent.join (.utf8 stem) ∧ w.dir = dir ∧
        target = some (parent.join (siblingName stem version)) ∧
        (1 ≤ version ∧ ∀ v, 1 ≤ v → v < version → fs.pathExists (parent.join (siblingName stem v)).route = true) ∧
        RotatedTo fs fs' parent stem version q s d) ∧
    (∀ (fs : FileSystem OsStr β) (parent : PathBuf) (stem : Text), fs.entries.card < versions →
      ∃ version ≤ fs.entries.card + 1,
        findVersion (fun v => fs.pathExists (parent.join (siblingName stem v)).route) versions 1 = some version) ∧
    ∀ (sub fs fs₁ fs₂ : FileSystem OsStr β) (parent : PathBuf) (stem : Text) (p b : Place OsStr) (w : ArtifactWriter)
      (target : PathBuf), Anchored sub fs parent stem p b → Relation.ReflTransGen (Change parent stem fun _ => True) fs fs₁ →
      openVersioned fs₁ (parent.join (.utf8 stem)) = (.ok (w, some target), fs₂) →
      ∃ version, target = parent.join (siblingName stem version) ∧
        ∀ fs₃, Relation.ReflTransGen (Change parent stem (· ≠ version)) fs₂ fs₃ →
          fs₃.resolve target.route = .ok (b ++ [siblingName stem version]) ∧
          ∀ t, fs₃.node (b ++ [siblingName stem version] ++ t) = fs₁.node (b ++ [.utf8 stem] ++ t) := by
  refine ⟨fun _ _ _ _ _ _ _ hq hne h => rotatedTo_of_call hq hne h, fun fs parent stem h => exists_findVersion parent stem h, ?_⟩
  intro sub fs fs₁ fs₂ parent stem p b w target hanchored hrun hcall
  have hanchored₁ := (hanchored.run hrun).1
  obtain ⟨version, rfl, hdirectory, hmoved⟩ := hanchored₁.rotated hcall
  refine ⟨version, rfl, fun fs₃ hrun₃ => ?_⟩
  have hanchored₂ : Anchored sub fs₂ parent stem p b := by
    have hchange := hanchored₁.call.1
    rwa [hcall] at hchange
  have hthere : fs₂.node (b ++ [siblingName stem version]) = some .directory := by
    have hself := hmoved []
    rwa [List.append_nil, List.append_nil, hdirectory] at hself
  have hkept : ∀ t, fs₃.node (b ++ [siblingName stem version] ++ t) = fs₁.node (b ++ [.utf8 stem] ++ t) := fun t =>
    ((hanchored₂.run hrun₃).2 version t (fun hv => hv rfl) (by rw [hthere]; simp)).trans (hmoved t)
  refine ⟨?_, hkept⟩
  have hself := hkept []
  rw [List.append_nil, List.append_nil, hdirectory] at hself
  rw [PathBuf.resolve_join]
  exact reach_of_locate ((hanchored₂.run hrun₃).1.leads.locate (siblingName stem version)) hself (fun route => by simp)

/-! ### A bundle and a link -/

namespace StorageAux

def workingDir : PathBuf := { route := { absolute := false, steps := [] }, dotless := by simp [Dotless] }

def out : Text := "out".toList

/-- A disk with nothing but an entry `out` in the working directory. -/
def outDisk (x : Node OsStr Text) : FileSystem OsStr Text :=
  (bare 40).insert { dir := [], name := .utf8 out, directory := rfl } x rfl

/-- A disk with a bundle. -/
def bundleDisk : FileSystem OsStr Text :=
  (outDisk .directory).insert
    { dir := [.utf8 out], name := .utf8 "coordination_log.json".toList, directory := node_insert_self _ _ _ }
    (.file "{}".toList) (node_insert_of_ne _ _ _ (by decide))

/-- A disk where `out` is a link to the directory it is in, which holds a file. -/
def linkDisk : FileSystem OsStr Text :=
  (outDisk (.link { absolute := false, steps := [.here] })).insert
    { dir := [], name := .other [0xFF], directory := rfl } (.file []) (node_insert_of_ne _ _ _ (by decide))

theorem exists_of_isOk {ε α : Type} {r : Except ε α} (h : r.isOk = true) : ∃ a, r = .ok a := by
  cases r with
  | error e => cases h
  | ok a => exact ⟨a, rfl⟩

/-- The root is all that the way to `out` needs. -/
theorem bundleDisk_anchored : Anchored (bare 40) bundleDisk workingDir out [] [] where
  leads := by
    refine ⟨fun p x hx => ?_, rfl, rfl, .nil⟩
    cases p with
    | nil =>
      obtain rfl := Option.some.inj hx
      exact bundleDisk.root
    | cons name p => cases hx
  own := rfl
  siblings _ := rfl
  directory route h := by
    rw [show bundleDisk.node ([] ++ [.utf8 out]) = some .directory by decide +kernel] at h
    cases h

end StorageAux

/-- A bundle in a directory that is a link to where it is: the call renames the link, and what the link leads to, where the
directory is created again, is not what it was. -/
theorem bundle_rotation_link :
    ¬ ∀ (fs fs' : FileSystem OsStr Text) (parent : PathBuf) (stem : Text) (w : ArtifactWriter) (target : Option PathBuf)
        (q : Place OsStr) (name : OsStr), fs.resolve (parent.join (.utf8 stem)).route = .ok q → fs.node (q ++ [name]) ≠ none →
        openVersioned fs (parent.join (.utf8 stem)) = (.ok (w, target), fs') →
        ∃ version q', fs.pathExists (parent.join (siblingName stem version)).route = false ∧
          fs'.resolve (parent.join (siblingName stem version)).route = .ok q' ∧ ∀ t, fs'.node (q' ++ t) = fs.node (q ++ t) := by
  intro hclaim
  obtain ⟨⟨w, target⟩, hok⟩ := exists_of_isOk (r := (openVersioned linkDisk (workingDir.join (.utf8 out))).1) (by decide +kernel)
  obtain ⟨version, q, -, hq, hall⟩ := hclaim linkDisk _ workingDir out w target [] (.utf8 out) (by decide +kernel)
    (by decide +kernel) (Prod.ext hok rfl)
  -- only the first sibling is there after the call
  rw [PathBuf.resolve_join] at hq
  obtain ⟨p, hp, hw⟩ := reach_eq_ok.mp hq
  obtain ⟨b, x, -, -, hx, -⟩ := hw.last
  have hentries : ∀ p ∈ (openVersioned linkDisk (workingDir.join (.utf8 out))).2.entries,
      p.getLast? ∈ [none, some (.utf8 out), some (.other [0xFF]), some (siblingName out 1)] := by decide +kernel
  have hlast := hentries _ ((mem_entries _ _).mpr (by rw [hx]; simp))
  obtain rfl : version = 1 := by
    rw [List.getLast?_concat] at hlast
    have hname : siblingName out version = siblingName out 1 := by
      simpa [siblingName_ne_stem, show siblingName out version ≠ .other [0xFF] from fun h => by cases h] using hlast
    exact siblingName_injective out hname
  have hroot : (openVersioned linkDisk (workingDir.join (.utf8 out))).2.resolve (workingDir.join (siblingName out 1)).route =
      .ok [] := by decide +kernel
  rw [PathBuf.resolve_join, hq] at hroot
  obtain rfl := Except.ok.inj hroot
  exact absurd (hall [.utf8 out]) (by decide +kernel)

/-- A bundle that was moved away, and a second call. -/
theorem bundle_rotation_sample : ∃ w target fs,
    openVersioned bundleDisk (workingDir.join (.utf8 out)) = (.ok (w, some target), fs) ∧
    (∃ parent stem version s d, target = parent.join (siblingName stem version) ∧
      RotatedTo bundleDisk fs parent stem version [.utf8 out] s d) ∧
    (∃ version ≤ 4, findVersion (fun v => bundleDisk.pathExists (workingDir.join (siblingName out v)).route) versions 1 =
      some version) ∧
    ∃ version, (openVersioned fs (workingDir.join (.utf8 out))).2.node
      [siblingName out version, .utf8 "coordination_log.json".toList] = some (.file "{}".toList) := by
  obtain ⟨⟨w, target⟩, hok⟩ := exists_of_isOk (r := (openVersioned bundleDisk (workingDir.join (.utf8 out))).1) (by decide +kernel)
  have hcall : openVersioned bundleDisk (workingDir.join (.utf8 out)) = (.ok (w, target), _) := Prod.ext hok rfl
  obtain ⟨parent, stem, version, s, d, -, -, rfl, -, hrotated⟩ :=
    bundle_rotation.1 _ _ _ _ _ [.utf8 out] (.utf8 "coordination_log.json".toList) (by decide +kernel) (by decide +kernel) hcall
  have hcard : bundleDisk.entries.card = 3 := by decide +kernel
  have hfind := bundle_rotation.2.1 bundleDisk workingDir out (by rw [hcard]; decide)
  rw [hcard] at hfind
  obtain ⟨v, -, hkept⟩ := bundle_rotation.2.2 _ _ _ _ _ _ _ _ _ _ bundleDisk_anchored .refl hcall
  refine ⟨w, _, _, hcall, ⟨parent, stem, version, s, d, rfl, hrotated⟩, hfind, v, ?_⟩
  have hlog := (hkept _ (.single (.call _))).2 [.utf8 "coordination_log.json".toList]
  exact hlog.trans (by decide +kernel)

end VertexVeil
