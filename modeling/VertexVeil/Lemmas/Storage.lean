import Mathlib.Order.Interval.Finset.Nat
import VertexVeil.Lib.Renames
import VertexVeil.Storage

/-!
# What opening a writer does

`Opened` is the ways a call of `openVersioned` can end, each with what it did to the disk. The search for a free version ends
because the names of the siblings differ and a disk has finitely many entries.
-/

namespace VertexVeil

open Codec Files Files.FileSystem

/-! ## Valid paths -/

theorem up_not_mem_of_validate {steps : List (Step OsStr)} (h : validateComponents steps = .ok ()) : Step.up ∉ steps := by
  induction steps with
  | nil => simp
  | cons step rest ih =>
    cases step with
    | here => simpa using ih h
    | up => cases h
    | down name =>
      rw [validateComponents] at h
      split at h
      · cases h
      · simpa using ih h

namespace PathBuf

theorem ext {path path' : PathBuf} (h : path.route = path'.route) : path = path' := by
  cases path
  cases path'
  cases h
  rfl

theorem join_route (path : PathBuf) (name : OsStr) :
    (path.join name).route = { path.route with steps := path.route.steps ++ [.down name] } := rfl

theorem join_inj {path path' : PathBuf} {s s' : Text} (h : path.join (.utf8 s) = path'.join (.utf8 s')) : path = path' ∧ s = s' := by
  have hroute := congrArg PathBuf.route h
  rw [join_route, join_route, Route.mk.injEq] at hroute
  obtain ⟨habs, hsteps⟩ := hroute
  obtain ⟨hinit, hlast⟩ := List.append_inj' hsteps rfl
  refine ⟨ext ?_, OsStr.utf8.inj (Step.down.inj (List.cons.inj hlast).1)⟩
  rw [Route.mk.injEq]
  exact ⟨habs, hinit⟩

/-- A path with a parent and a name is the one joined to the other. -/
theorem eq_join {dir parent : PathBuf} {name : OsStr} (hp : dir.parent = some parent) (hn : dir.fileName = some name) :
    dir = parent.join name := by
  unfold PathBuf.parent at hp
  split at hp
  · cases hp
  · obtain rfl := Option.some.inj hp
    refine ext ?_
    unfold fileName at hn
    split at hn
    · rename_i name' hlast
      obtain rfl := Option.some.inj hn
      rw [join_route]
      dsimp only
      rw [List.dropLast_append_getLast? _ hlast]
    · cases hn

theorem resolve_join {β : Type} {fs : FileSystem OsStr β} {path : PathBuf} {name : OsStr} :
    fs.resolve (path.join name).route = fs.reach (path.join name).route := by
  rw [resolve, if_neg (by simp [join_route])]

end PathBuf

namespace ArtifactWriter

/-! ## The search -/

theorem siblingName_injective (stem : Text) {v w : Nat} (h : siblingName stem v = siblingName stem w) : v = w := by
  rw [siblingName, siblingName, OsStr.utf8.injEq, List.append_cancel_left_eq] at h
  rw [← Nat.ofDigitChars_ten_toDigits (n := v), h, Nat.ofDigitChars_ten_toDigits]

theorem siblingName_ne_stem (stem : Text) (v : Nat) : siblingName stem v ≠ .utf8 stem := by
  intro h
  have hlen := congrArg List.length (OsStr.utf8.inj h)
  simp at hlen

/-- The version that is found is the first one that is not taken. -/
theorem findVersion_eq_some {taken : Nat → Bool} {left version found : Nat} :
    findVersion taken left version = some found ↔
      version ≤ found ∧ found < version + left ∧ taken found = false ∧ ∀ v, version ≤ v → v < found → taken v = true := by
  induction left generalizing version with
  | zero =>
    rw [findVersion]
    exact iff_of_false (by simp) (by omega)
  | succ left ih =>
    rw [findVersion]
    cases ht : taken version with
    | false =>
      rw [if_neg (by simp), Option.some.injEq]
      constructor
      · rintro rfl
        exact ⟨le_refl _, by omega, ht, by omega⟩
      · rintro ⟨hle, -, -, hall⟩
        by_contra hne
        rw [hall version (le_refl _) (by omega)] at ht
        cases ht
    | true =>
      rw [if_pos rfl, ih]
      constructor
      · rintro ⟨hle, hlt, hfree, hall⟩
        refine ⟨by omega, by omega, hfree, fun v hv hvf => ?_⟩
        by_cases he : v = version
        · exact he ▸ ht
        · exact hall v (by omega) hvf
      · rintro ⟨hle, hlt, hfree, hall⟩
        have hne : found ≠ version := by
          rintro rfl
          rw [ht] at hfree
          cases hfree
        exact ⟨by omega, by omega, hfree, fun v hv hvf => hall v (by omega) hvf⟩

/-- No version is found exactly when all are taken. -/
theorem findVersion_eq_none {taken : Nat → Bool} {left version : Nat} :
    findVersion taken left version = none ↔ ∀ v, version ≤ v → v < version + left → taken v = true := by
  induction left generalizing version with
  | zero =>
    rw [findVersion]
    exact iff_of_true rfl (by omega)
  | succ left ih =>
    rw [findVersion]
    cases ht : taken version with
    | false =>
      refine iff_of_false (by simp) (fun hall => ?_)
      rw [hall version (le_refl _) (by omega)] at ht
      cases ht
    | true =>
      rw [if_pos rfl, ih]
      constructor
      · intro hall v hv hlt
        by_cases he : v = version
        · exact he ▸ ht
        · exact hall v (by omega) (by omega)
      · intro hall v hv hlt
        exact hall v (by omega) (by omega)

variable {β : Type} {fs : FileSystem OsStr β}

theorem pathExists_reach {r : Route OsStr} (h : fs.pathExists r = true) : ∃ q, fs.reach r = .ok q := by
  unfold pathExists at h
  split at h
  · rename_i q hq
    exact ⟨q, reach_of_resolve hq⟩
  · cases h

/-- As many versions as exist one after the other, as many entries the disk has. -/
theorem taken_le_card {parent : PathBuf} {stem : Text} {n : Nat}
    (h : ∀ v, 1 ≤ v → v < 1 + n → fs.pathExists (parent.join (siblingName stem v)).route = true) : n ≤ fs.entries.card := by
  have hentry : ∀ v, 1 ≤ v → v < 1 + n → ∃ b, fs.reach parent.route = .ok b ∧ b ++ [siblingName stem v] ∈ fs.entries := by
    intro v hv hlt
    obtain ⟨q, hq⟩ := pathExists_reach (h v hv hlt)
    obtain ⟨p, hp, hw⟩ := reach_eq_ok.mp hq
    obtain ⟨b, x, hb, -, hx, -⟩ := hw.last
    exact ⟨b, reach_eq_ok.mpr ⟨p, hp, hb⟩, (fs.mem_entries _).mpr (by rw [hx]; simp)⟩
  cases hn : n with
  | zero => omega
  | succ m =>
    obtain ⟨b, hb, -⟩ := hentry 1 (le_refl _) (by omega)
    have hmem : ∀ v ∈ Finset.Ico 1 (1 + n), b ++ [siblingName stem v] ∈ fs.entries := by
      intro v hv
      obtain ⟨hv, hlt⟩ := Finset.mem_Ico.mp hv
      obtain ⟨b', hb', hmem⟩ := hentry v hv hlt
      rwa [Except.ok.inj (hb'.symm.trans hb)] at hmem
    have hinj : Set.InjOn (fun v => b ++ [siblingName stem v]) (Finset.Ico 1 (1 + n)) := by
      intro v _ w _ he
      exact siblingName_injective stem (List.cons.inj (List.append_cancel_left he)).1
    have hcard := Finset.card_le_card_of_injOn _ hmem hinj
    rw [Nat.card_Ico] at hcard
    omega

/-- The search finds a version among one more than the disk has entries, unless the counter has fewer values. -/
theorem exists_findVersion (parent : PathBuf) (stem : Text) {left : Nat} (h : fs.entries.card < left) :
    ∃ version ≤ fs.entries.card + 1,
      findVersion (fun v => fs.pathExists (parent.join (siblingName stem v)).route) left 1 = some version := by
  cases hf : findVersion (fun v => fs.pathExists (parent.join (siblingName stem v)).route) left 1 with
  | none =>
    have hle := taken_le_card (fun v hv hlt => findVersion_eq_none.mp hf v hv hlt)
    omega
  | some version =>
    obtain ⟨hle, -, -, hall⟩ := findVersion_eq_some.mp hf
    have hcard : version - 1 ≤ fs.entries.card := taken_le_card (fun v hv hlt => hall v hv (by omega))
    exact ⟨version, by omega, rfl⟩

/-! ## The ways a call ends -/

/-- How a call of `openVersioned` ends and what it leaves on the disk. -/
inductive Opened (fs : FileSystem OsStr β) (dir : PathBuf) :
    Except (Fault ArtifactError) (ArtifactWriter × Option PathBuf) → FileSystem OsStr β → Prop where
  | refused {e : Fault ArtifactError} : Opened fs dir (.error e) fs
  | empty {q : Place OsStr} (hq : fs.resolve dir.route = .ok q) (he : fs.EmptyDirectory q) :
      Opened fs dir (.ok ({ dir }, none)) fs
  | created (result : Except (Fault ArtifactError) (ArtifactWriter × Option PathBuf)) (hup : Step.up ∉ dir.route.steps)
      (hmissing : fs.pathExists dir.route = false) (hresult : ∀ w target, result = .ok (w, target) → target = none) :
      Opened fs dir result (fs.createDirAll dir.route).2
  | rotated {q : Place OsStr} {parent : PathBuf} {stem : Text} {version : Nat} {fs₁ : FileSystem OsStr β}
      (result : Except (Fault ArtifactError) (ArtifactWriter × Option PathBuf)) (hup : Step.up ∉ dir.route.steps)
      (hq : fs.resolve dir.route = .ok q) (hdirectory : fs.node q = some .directory) (hdir : dir = parent.join (.utf8 stem))
      (hfind : findVersion (fun v => fs.pathExists (parent.join (siblingName stem v)).route) versions 1 = some version)
      (hrename : fs.rename dir.route (parent.join (siblingName stem version)).route = .ok fs₁)
      (hresult : ∀ w target, result = .ok (w, target) → w.dir = dir ∧ target = some (parent.join (siblingName stem version)) ∧
        (fs₁.createDirAll dir.route).1 = .ok ()) : Opened fs dir result (fs₁.createDirAll dir.route).2

theorem opened_of_rotate {dir : PathBuf} {q : Place OsStr} (hup : Step.up ∉ dir.route.steps)
    (hq : fs.resolve dir.route = .ok q) (hdirectory : fs.node q = some .directory) :
    Opened fs dir ((rotate fs dir).1.map fun target => ({ dir }, some target)) (rotate fs dir).2 := by
  unfold rotate
  split
  · exact .refused
  · rename_i parent hparent
    split
    · exact .refused
    · rename_i stem hstem
      obtain ⟨name, hname, hname'⟩ := Option.bind_eq_some_iff.mp hstem
      obtain rfl : name = .utf8 stem := by
        cases name with
        | utf8 s => exact congrArg OsStr.utf8 (Option.some.inj hname')
        | other bytes => cases hname'
      split
      · exact .refused
      · rename_i version hfind
        dsimp only
        split
        · exact .refused
        · rename_i fs₁ hrename
          have hall := fun result h => Opened.rotated result hup hq hdirectory (PathBuf.eq_join hparent hname) hfind hrename h
          split
          · rename_i e fs₂ hcreate
            rw [hcreate] at hall
            exact hall _ (fun w target h => by cases h)
          · rename_i fs₂ hcreate
            rw [hcreate] at hall
            refine hall _ (fun w target h => ?_)
            obtain ⟨rfl, rfl⟩ := Prod.mk.inj (Except.ok.inj h)
            exact ⟨rfl, rfl, rfl⟩

/-- Every call ends in one of these ways. -/
theorem opened (fs : FileSystem OsStr β) (dir : PathBuf) : Opened fs dir (openVersioned fs dir).1 (openVersioned fs dir).2 := by
  unfold openVersioned
  split
  · exact .refused
  · rename_i hvalid
    have hup : Step.up ∉ dir.route.steps := by
      unfold validateOutputPath at hvalid
      split at hvalid
      · cases hvalid
      · exact up_not_mem_of_validate hvalid
    split
    · split
      · split
        · exact .refused
        · rename_i entries hread
          unfold readDir at hread
          split at hread
          · cases hread
          · rename_i q hq
            split at hread
            · rename_i hd
              rw [isDirectory_iff] at hd
              obtain rfl := Except.ok.inj hread
              split
              · rename_i hempty
                exact .empty hq ⟨hd, children_eq_empty.mp hempty⟩
              · have hrotate := opened_of_rotate hup hq hd
                split
                · rename_i e fs' hr
                  rw [hr] at hrotate
                  exact hrotate
                · rename_i target fs' hr
                  rw [hr] at hrotate
                  exact hrotate
            · cases hread
      · exact .refused
    · rename_i hmissing
      have hall := fun result h => Opened.created result hup (Bool.eq_false_iff.mpr hmissing) h
      split
      · rename_i e fs' hcreate
        rw [hcreate] at hall
        exact hall _ (fun w target h => by cases h)
      · rename_i fs' hcreate
        rw [hcreate] at hall
        exact hall _ (fun w target h => (Prod.mk.inj (Except.ok.inj h)).2.symm)

end ArtifactWriter

end VertexVeil
