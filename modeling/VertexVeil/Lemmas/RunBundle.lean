import VertexVeil.Lemmas.Ledger
import VertexVeil.Lemmas.Writer
import VertexVeil.Node
import VertexVeil.Theorems.Persistence

/-!
# The bundle of a run

`RunBundle` is what a bundle says, whoever wrote it: `writeBundle` and `persistNodeBundle` put its texts on an empty shelf, and
`verify` finds them and leaves them as they are.
-/

namespace VertexVeil

open Codec Files Files.FileSystem

/-- What a bundle says of a run. -/
structure RunBundle where
  topology : Text
  scenario : Option Text
  log : CoordinationLog
  report : VerifierReport
  receipt : Option CompletionReceiptRecord
  status : RunStatus
  readme : Text

namespace RunBundle

/-- The texts of a bundle by their names, in the order in which they are written. -/
def texts (F : Formats) (b : RunBundle) : Text → Option Text :=
  [(coordinationLogFile, some (F.log.toString b.log)), (topologyFile, some b.topology), (scenarioFile, b.scenario),
    (verifierReportFile, some (F.report b.report)), (completionReceiptFile, b.receipt.map F.receipt),
    (runStatusFile, some (F.status b.status)), (bundleReadmeFile, some b.readme)].foldl
      (fun texts file => Function.update texts file.1 file.2) fun _ => none

/-- The names of a bundle's files. -/
def names (scenario : Option Text) (receipt : Option CompletionReceiptRecord) : Finset Text :=
  ownedFiles.toFinset.filter fun name =>
    (name = scenarioFile → scenario.isSome) ∧ (name = completionReceiptFile → receipt.isSome)

variable {F : Formats} {b : RunBundle} {name : Text}

theorem texts_status : b.texts F runStatusFile = some (F.status b.status) := rfl

theorem texts_readme : b.texts F bundleReadmeFile = some b.readme := rfl

theorem texts_scenario : b.texts F scenarioFile = b.scenario := rfl

theorem texts_receipt : b.texts F completionReceiptFile = b.receipt.map F.receipt := rfl

theorem texts_other (h : name ∉ ownedFiles) : b.texts F name = none := by
  simp only [ownedFiles, List.mem_cons, List.not_mem_nil, or_false, not_or] at h
  obtain ⟨hlog, hreport, hstatus, hreceipt, htopology, hscenario, hreadme⟩ := h
  simp only [texts, List.foldl_cons, List.foldl_nil, Function.update_of_ne hlog, Function.update_of_ne hreport,
    Function.update_of_ne hstatus, Function.update_of_ne hreceipt, Function.update_of_ne htopology,
    Function.update_of_ne hscenario, Function.update_of_ne hreadme]

/-- The names are those of the texts. -/
theorem mem_names (F : Formats) (b : RunBundle) {name : Text} : name ∈ names b.scenario b.receipt ↔ (b.texts F name).isSome := by
  rw [names, Finset.mem_filter, List.mem_toFinset]
  by_cases hn : name ∈ ownedFiles
  · simp only [hn, true_and]
    simp only [ownedFiles, List.mem_cons, List.not_mem_nil, or_false] at hn
    have hrs : completionReceiptFile ≠ scenarioFile := by decide
    rcases hn with rfl | rfl | rfl | rfl | rfl | rfl | rfl
    · exact iff_of_true ⟨fun h => absurd h (by decide), fun h => absurd h (by decide)⟩ rfl
    · exact iff_of_true ⟨fun h => absurd h (by decide), fun h => absurd h (by decide)⟩ rfl
    · exact iff_of_true ⟨fun h => absurd h (by decide), fun h => absurd h (by decide)⟩ rfl
    · rw [texts_receipt, Option.isSome_map]
      exact ⟨fun h => h.2 rfl, fun h => ⟨fun he => absurd he hrs, fun _ => h⟩⟩
    · exact iff_of_true ⟨fun h => absurd h (by decide), fun h => absurd h (by decide)⟩ rfl
    · rw [texts_scenario]
      exact ⟨fun h => h.1 rfl, fun h => ⟨fun _ => h, fun he => absurd he hrs.symm⟩⟩
    · exact iff_of_true ⟨fun h => absurd h (by decide), fun h => absurd h (by decide)⟩ rfl
  · rw [texts_other hn]
    exact iff_of_false (fun h => hn h.1) (by simp)

end RunBundle

/-- A run that is over, with what its bundle is made from. -/
structure EndedRun where
  topology : TopologyConfig
  topologyText : Text
  scenarioText : Option Text
  outcome : RuntimeOutcome
  readme : RunStatus → Text

/-- The bundle of a run, in a directory with other files. -/
def EndedRun.bundle (Γ : Crypto) (e : EndedRun) (others : Finset Text) : RunBundle :=
  let receipt := pickFinalReceipt e.outcome.log
  let files := inOrder (others ∪ RunBundle.names e.scenarioText receipt)
  let status := runStatus e.outcome.log e.outcome.finalized e.outcome.finalRound receipt files
  { topology := e.topologyText, scenario := e.scenarioText, log := e.outcome.log, report := verifyLog Γ e.topology e.outcome.log,
    receipt, status, readme := e.readme status }

/-! ## Writing a bundle -/

section

variable {base sub : Disk} {dir : PathBuf} {q : Place OsStr} {Γ : Crypto} {F : Formats} {t : TopologyConfig}
  {topologyText : Text} {scenarioText : Option Text} {outcome : RuntimeOutcome} {texts : Text → Option Text}

theorem isSome_update {texts : Text → Option Text} {name text n : Text} :
    (Function.update texts name (some text) n).isSome ↔ (texts n).isSome ∨ n = name := by
  by_cases hn : n = name
  · simp [hn]
  · simp [hn]

/-- Before the last two files are written the manifest names them and the others. -/
theorem manifest_eq (hs : Shelf base dir q) (b : RunBundle) {disk : Disk} (status readme : Text)
    (hb : b.texts F = Function.update (Function.update texts runStatusFile (some status)) bundleReadmeFile (some readme))
    (h : Filled base disk q (textFiles texts)) :
    bundleFiles disk dir = (namesIn base q ∪ RunBundle.names b.scenario b.receipt).sort := by
  refine hs.bundleFiles_eq h fun n => ?_
  rw [Finset.mem_union, RunBundle.mem_names F b, hb, isSome_update, isSome_update, or_assoc, or_assoc]

/-- An outcome as a run returns it: its log is closed and has its index. -/
structure Sealed (outcome : RuntimeOutcome) : Prop where
  indexed : outcome.log.Indexed
  finalized : outcome.log.finalized = outcome.finalized
  finalRound : outcome.log.finalRound = outcome.finalRound

theorem not_hasParentDir_join {dir : PathBuf} (h : validateOutputPath dir = .ok ()) (name : OsStr) :
    ¬ (dir.join name).hasParentDir := by
  intro hm
  unfold validateOutputPath at h
  split at h
  · cases h
  · exact up_not_mem_of_validate h ((List.mem_append.mp hm).resolve_right (by simp))

/-- A run whose bundle can be verified: its topology is what the text says, and its outcome is one that a run returns. -/
structure EndedRun.Sound (Γ : Crypto) (F : Formats) (e : EndedRun) : Prop where
  parsed : TopologyConfig.fromTomlStr Γ F e.topologyText = .ok e.topology
  outcome : Sealed e.outcome

/-- Verifying the bundle of a run returns its report and changes nothing. -/
theorem Run.verify_does (hs : Shelf base dir q) (hvalid : validateOutputPath dir = .ok ()) {e : EndedRun} (he : e.Sound Γ F)
    {b : RunBundle} (hb : b = e.bundle Γ (namesIn base q)) :
    Does base q (Run.verify Γ F dir) (textFiles (b.texts F)) (verifyLog Γ e.topology e.outcome.log) (textFiles (b.texts F)) := by
  unfold Run.verify
  refine .get_bind fun disk h => ?_
  rw [hs.isDir_filled h]
  have htopology : b.texts F topologyFile = some e.topologyText := hb ▸ rfl
  have hlog : b.texts F coordinationLogFile = some (F.log.toString e.outcome.log) := hb ▸ rfl
  have hreport : b.texts F verifierReportFile = some (F.report (verifyLog Γ e.topology e.outcome.log)) := hb ▸ rfl
  have hload : Does base q (OnDisk.look (TopologyConfig.load Γ F (dir.join (.utf8 topologyFile)))) (textFiles (b.texts F))
      e.topology (textFiles (b.texts F)) := OnDisk.look_does fun disk h =>
    TopologyConfig.load_eq_ok.mpr ⟨not_hasParentDir_join hvalid _, e.topologyText, hs.read h htopology, he.parsed⟩
  have hread : Does base q (OnDisk.look (readBundleLog F dir)) (textFiles (b.texts F)) e.outcome.log (textFiles (b.texts F)) :=
    OnDisk.look_does fun disk h => by
      simp only [readBundleLog, hs.read h hlog]
      exact PersistenceAux.reload_eq F.log he.outcome.indexed
  refine hload.adaptExcept.bind (hread.adaptExcept.adaptExcept.bind ?_)
  refine (hs.new_does hvalid).adaptExcept.adaptExcept.bind ?_
  refine (hs.writeText_does_same (by simp [ownedFiles]) hreport).adaptExcept.bind ?_
  refine .get_bind fun disk h => ?_
  have hfiles : bundleFiles disk dir = (namesIn base q ∪ RunBundle.names b.scenario b.receipt).sort := by
    refine manifest_eq (F := F) hs b (F.status b.status) b.readme ?_ h
    rw [update_same b.texts_status, update_same b.texts_readme]
  have hstatus : runStatus e.outcome.log e.outcome.log.finalized e.outcome.log.finalRound
      (Run.pickFinalReceipt e.outcome.log) (bundleFiles disk dir) = b.status := by
    rw [hfiles, he.outcome.finalized, he.outcome.finalRound, hb]
    rfl
  simp only [hstatus]
  exact (hs.writeText_does_same (by simp [ownedFiles]) b.texts_status).adaptExcept.bind .pure

end

/-! ## Where a bundle is -/

/-- A directory holds the bundle of a run and, beside its files, others. -/
structure BundledAt (Γ : Crypto) (F : Formats) (disk : Disk) (q : Place OsStr) (e : EndedRun) : Prop where
  directory : disk.node q = some .directory
  files : ∀ name ∈ ownedFiles, disk.node (q ++ [.utf8 name]) =
    ((e.bundle Γ (namesIn disk q \ ownedFiles.toFinset)).texts F name).map fun text => .file (.utf8 text)

namespace BundledAt

variable {Γ : Crypto} {F : Formats} {disk disk' base : Disk} {q q' : Place OsStr} {e : EndedRun} {dir : PathBuf}

/-- A bundle is where its files are, all of it, so it is where they are moved to. -/
theorem moved (h : BundledAt Γ F disk q e) (hsame : ∀ t, disk'.node (q' ++ t) = disk.node (q ++ t)) : BundledAt Γ F disk' q' e := by
  have hnames : namesIn disk' q' = namesIn disk q := by
    ext name
    rw [mem_namesIn, mem_namesIn, hsame]
  refine ⟨?_, fun name hn => ?_⟩
  · have hself := hsame []
    rw [List.append_nil, List.append_nil] at hself
    rw [hself, h.directory]
  · rw [hsame, hnames, h.files name hn]

/-- Without the bundle its directory is a shelf. -/
theorem shelf (h : BundledAt Γ F disk q e) (hq : disk.resolve dir.route = .ok q) :
    ∃ base, Shelf base dir q ∧ Filled base disk q (textFiles ((e.bundle Γ (namesIn base q)).texts F)) := by
  obtain ⟨base, files, hs, hfilled, hother, hnames⟩ := exists_shelf hq h.directory fun name hn => by
    rw [h.files name hn]
    cases (e.bundle Γ (namesIn disk q \ ownedFiles.toFinset)).texts F name with
    | none => exact Or.inl rfl
    | some text => exact Or.inr ⟨_, rfl⟩
  have hsame : namesIn disk q \ ownedFiles.toFinset = namesIn base q := by
    ext name
    rw [Finset.mem_sdiff, List.mem_toFinset, hnames]
  have hfiles : files = textFiles ((e.bundle Γ (namesIn base q)).texts F) := by
    funext n
    by_cases hn : n ∈ ownedFiles.map OsStr.utf8
    · obtain ⟨name, hname, rfl⟩ := List.mem_map.mp hn
      have hnode := hfilled.node_name (hs.free name hname)
      rw [h.files name hname, hsame] at hnode
      refine Option.map_injective (fun _ _ he => Node.file.inj he) (hnode.symm.trans ?_)
      rw [textFiles, Option.map_map]
      rfl
    · rw [hother n hn]
      cases n with
      | other bytes => rfl
      | utf8 name =>
        rw [textFiles, RunBundle.texts_other (by simpa using hn)]
        rfl
  exact ⟨base, hs, hfiles ▸ hfilled⟩

/-- A bundle is verified with the report it has, and stays as it is. -/
theorem verify (h : BundledAt Γ F disk q e) (he : e.Sound Γ F) (hq : disk.resolve dir.route = .ok q)
    (hvalid : validateOutputPath dir = .ok ()) :
    Run.verify Γ F dir disk = .ok (verifyLog Γ e.topology e.outcome.log) disk := by
  obtain ⟨base, hs, hfilled⟩ := h.shelf hq
  exact (Run.verify_does hs hvalid he rfl).stays hfilled

end BundledAt

end VertexVeil
