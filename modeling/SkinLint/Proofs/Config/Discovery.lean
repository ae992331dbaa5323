import SkinLint.Proofs.Config.Saving

/-!
# Which files of settings are loaded

A file of settings is loaded in one role only, the highest it has. The file of the repository is
that of the nearest folder, going upwards, which is the top of one. A file that was asked for and is
not there ends the loading before any file is read.
-/
namespace SkinLint.Config

variable {t : FileTree}

def IsRepository (t : FileTree) (dir : Path) : Prop := t.contains (dir.join (.ofString ".git"))

def NearestRepository (t : FileTree) (folder dir : Path) : Prop :=
  ∃ n, Path.up? n folder = some dir ∧ IsRepository t dir ∧
    ∀ m < n, ∀ below ∈ Path.up? m folder, ¬IsRepository t below

theorem repository?_eq_some_iff {folder dir : Path} :
    repository? t folder = some dir ↔ NearestRepository t folder dir :=
  Path.find?_ancestors_eq_some_iff

theorem isSame_eq_false_iff {p : Path} {given : Option Path} :
    isSame p given = false ↔ ∀ q ∈ given, ¬p.same q := by
  cases given <;> simp [isSame]

theorem ofFile_inj {kind kind' : OriginKind} {p p' : Path} :
    Origin.ofFile kind p = .ofFile kind' p' ↔ kind = kind' ∧ p = p' := by
  constructor
  · intro h
    exact ⟨congrArg Origin.kind h, Option.some.inj (congrArg Origin.path h)⟩
  · rintro ⟨rfl, rfl⟩
    rfl

def Origin.Apart (a b : Origin) : Prop := ∀ p ∈ a.path, ∀ q ∈ b.path, ¬p.same q

theorem apart_ofFile {kind kind' : OriginKind} {p q : Path} (h : ¬p.same q) :
    (Origin.ofFile kind p).Apart (.ofFile kind' q) := by
  rintro _ ⟨⟩ _ ⟨⟩
  exact h

/-- The file of the repository, unless it has a higher role. -/
def shared? (t : FileTree) (folder : Path) (override : Option Path) : Option Path :=
  ((repository? t folder).map (·.join fileName)).filter fun path =>
    t.contains path && !isSame path override && !path.same (folder.join fileName)

/-- The file in the working folder, unless it is the one that was asked for. -/
def own? (t : FileTree) (folder : Path) (override : Option Path) : Option Path :=
  (some (folder.join fileName)).filter fun path => t.contains path && !isSame path override

theorem fileOrigins_eq_roles (folder : Path) (override : Option Path) :
    fileOrigins t folder override =
      ((shared? t folder override).map (.ofFile .repository)).toList ++
        ((own? t folder override).map (.ofFile .folder)).toList ++
        (override.map (.ofFile .override)).toList := by
  unfold fileOrigins shared? own?
  dsimp only
  congr 2
  rw [Option.filter_some]
  split <;> simp_all

section Roles

variable {folder : Path} {override : Option Path}

theorem mem_shared?_iff {path : Path} : path ∈ shared? t folder override ↔
    ∃ dir, NearestRepository t folder dir ∧ path = dir.join fileName ∧ t.contains path ∧
      ¬path.same (folder.join fileName) ∧ ∀ given ∈ override, ¬path.same given := by
  simp only [shared?, Option.mem_def, Option.filter_eq_some_iff, Option.map_eq_some_iff,
    repository?_eq_some_iff, Bool.and_eq_true, Bool.not_eq_true', isSame_eq_false_iff,
    Bool.not_eq_true]
  constructor
  · rintro ⟨⟨dir, hdir, rfl⟩, ⟨hthere, hgiven⟩, hown⟩
    exact ⟨dir, hdir, rfl, hthere, hown, hgiven⟩
  · rintro ⟨dir, hdir, rfl, hthere, hown, hgiven⟩
    exact ⟨⟨dir, hdir, rfl⟩, ⟨hthere, hgiven⟩, hown⟩

theorem mem_own?_iff {path : Path} : path ∈ own? t folder override ↔
    path = folder.join fileName ∧ t.contains path ∧ ∀ given ∈ override, ¬path.same given := by
  simp only [own?, Option.mem_def, Option.filter_eq_some_iff, Option.some.injEq, Bool.and_eq_true,
    Bool.not_eq_true', isSame_eq_false_iff]
  rw [eq_comm]

theorem mem_fileOrigins_iff {origin : Origin} : origin ∈ fileOrigins t folder override ↔
    (∃ path ∈ shared? t folder override, origin = .ofFile .repository path) ∨
      (∃ path ∈ own? t folder override, origin = .ofFile .folder path) ∨
      ∃ path ∈ override, origin = .ofFile .override path := by
  simp only [fileOrigins_eq_roles, List.mem_append, Option.mem_toList, Option.map_eq_some_iff,
    Option.mem_def, or_assoc, eq_comm (a := origin)]

theorem path_ne_none_of_mem {origin : Origin} (h : origin ∈ fileOrigins t folder override) :
    origin.path ≠ none := by
  obtain ⟨p, -, rfl⟩ | ⟨p, -, rfl⟩ | ⟨p, -, rfl⟩ := mem_fileOrigins_iff.1 h
  all_goals exact Option.some_ne_none p

theorem pairwise_apart_fileOrigins : (fileOrigins t folder override).Pairwise Origin.Apart := by
  rw [fileOrigins_eq_roles]
  have hone (o : Option Origin) : o.toList.Pairwise Origin.Apart := by cases o <;> simp
  simp only [List.pairwise_append, hone, true_and, List.mem_append, Option.mem_toList,
    Option.map_eq_some_iff]
  refine ⟨?_, ?_⟩
  · rintro _ ⟨p, hp, rfl⟩ _ ⟨q, hq, rfl⟩
    obtain ⟨-, -, -, -, hown, -⟩ := mem_shared?_iff.1 hp
    obtain ⟨rfl, -⟩ := mem_own?_iff.1 hq
    exact apart_ofFile hown
  · rintro _ (⟨p, hp, rfl⟩ | ⟨p, hp, rfl⟩) _ ⟨q, hq, rfl⟩
    · obtain ⟨-, -, -, -, -, hgiven⟩ := mem_shared?_iff.1 hp
      exact apart_ofFile (hgiven q hq)
    · obtain ⟨-, -, hgiven⟩ := mem_own?_iff.1 hp
      exact apart_ofFile (hgiven q hq)

theorem kinds_fileOrigins_sublist : ((fileOrigins t folder override).map Origin.kind).Sublist
    [.repository, .folder, .override] := by
  have hone (kind : OriginKind) (o : Option Path) :
      ((o.map (Origin.ofFile kind)).toList.map Origin.kind).Sublist [kind] := by
    cases o <;> simp [Origin.ofFile]
  rw [fileOrigins_eq_roles, List.map_append, List.map_append]
  exact ((hone .repository _).append (hone .folder _)).append (hone .override _)

end Roles

section Reading

/-- A layer is what the text of the file of its origin says. -/
def Origin.Says (t : FileTree) (origin : Origin) (layer : Layer) : Prop :=
  ∃ path ∈ origin.path, ∃ text, t.readText path = .ok text ∧
    ∃ d, Toml.Document.parse? .v10 text = some d ∧ Layer.ofValue? origin d.data = some layer

theorem says_of_readLayer {origin : Origin} {layer : Layer} (hfile : origin.path ≠ none)
    (h : readLayer t origin = .ok layer) : origin.Says t layer := by
  unfold readLayer at h
  split at h
  next hnone => exact absurd hnone hfile
  next path hpath =>
    split at h
    next => cases h
    next text htext =>
      split at h
      next => cases h
      next hlayer =>
        obtain rfl := Except.ok.inj h
        obtain ⟨d, hd, hvalue⟩ := Option.bind_eq_some_iff.1 hlayer
        exact ⟨path, hpath, text, htext, d, hd, hvalue⟩

/-- A file that cannot be read is not taken for one that is missing. -/
theorem readLayer_ne_overrideNotFound (origin : Origin) (path : Path) :
    readLayer t origin ≠ .error (.overrideNotFound path) := by
  unfold readLayer
  split
  · simp
  · split
    · simp
    · split <;> simp

theorem loadIn_eq_overrideNotFound_iff {order : NameOrder} {o : LoadOptions} {path : Path} :
    loadIn order t o = .error (.overrideNotFound path) ↔ ∃ folder, o.workingFolder t = .ok folder ∧
      o.overrideFrom folder = some path ∧ t.contains path = false := by
  unfold loadIn
  cases hfolder : o.workingFolder t with
  | error e =>
    have hne : e ≠ .overrideNotFound path := by
      rintro rfl
      unfold LoadOptions.workingFolder at hfolder
      split at hfolder
      · cases hfolder
      · split at hfolder <;> cases hfolder
    simp [bind, Except.bind, hne]
  | ok folder =>
    simp only [bind, Except.bind, Except.ok.injEq, exists_eq_left']
    cases hmissing : (o.overrideFrom folder).filter (!t.contains ·) with
    | some given =>
      obtain ⟨hgiven, habsent⟩ := Option.filter_eq_some_iff.1 hmissing
      simp only [Bool.not_eq_true'] at habsent
      simp only [hgiven, throw, throwThe, MonadExceptOf.throw, Except.error.injEq,
        Error.overrideNotFound.injEq, Option.some.injEq]
      constructor
      · rintro rfl
        exact ⟨rfl, habsent⟩
      · exact And.left
    | none =>
      have hthere := Option.filter_eq_none_iff.1 hmissing
      refine iff_of_false ?_ ?_
      · cases hlayers : (fileOrigins t folder (o.overrideFrom folder)).mapM (readLayer t) with
        | error e =>
          obtain ⟨origin, -, horigin⟩ := exists_error_of_mapM hlayers
          rintro ⟨⟩
          exact readLayer_ne_overrideNotFound origin path horigin
        | ok layers =>
          dsimp only
          split <;> simp [throw, throwThe, MonadExceptOf.throw, pure, Except.pure]
      · rintro ⟨hpath, habsent⟩
        simpa [habsent] using hthere path hpath

/-- The settings that are loaded are those of the files that are named, one upon the other. -/
theorem layers_of_loadIn {order : NameOrder} {o : LoadOptions} {config : Config}
    (h : loadIn order t o = .ok config) :
    ∃ files layers, config.origins = .defaults config.workingFolder :: files ∧
      files = fileOrigins t config.workingFolder (o.overrideFrom config.workingFolder) ∧
      List.Forall₂ (Origin.Says t) files layers ∧
      ((Layer.mergeAll (.defaults config.workingFolder :: layers)).arrange order).resolve =
        .ok config.toSettings := by
  obtain ⟨_, l, hfolder, hthere, hstack, hresolve, rfl, horigins⟩ := loadIn_eq_ok_iff.1 h
  obtain ⟨layers, hlayers, rfl⟩ := stack_eq_ok_iff.1 hstack
  rw [← fileOrigins_eq _ hthere, mapM_eq_ok_iff] at hlayers
  have hread := (List.forall₂_and_left _ _).2 ⟨fun _ => path_ne_none_of_mem, hlayers⟩
  refine ⟨_, layers, horigins, rfl, hread.imp fun _ _ h => says_of_readLayer h.1 h.2, ?_⟩
  rwa [Layer.mergeAll, List.foldl_cons, Layer.merge_empty_left]

end Reading

/-- Each path of a file of settings is loaded once, in its highest role: a file that was asked for
always, the one in the working folder unless it is that one, and the one of the nearest repository
unless it is either. The settings are those of the texts of these files, merged in this order. A file
that was asked for and is not there is reported, whatever the other files hold. -/
theorem settings_files_have_one_role (order : NameOrder) (t : FileTree) (o : LoadOptions) :
    (∀ config, loadIn order t o = .ok config → ∃ files layers,
      o.workingFolder t = .ok config.workingFolder ∧ config.workingFolder.isAbsolute ∧
      config.origins = .defaults config.workingFolder :: files ∧
      (∀ origin ∈ files, ∃ kind path, origin = .ofFile kind path) ∧
      (files.map Origin.kind).Sublist [.repository, .folder, .override] ∧
      files.Pairwise Origin.Apart ∧
      (∀ path, .ofFile .override path ∈ files ↔
        o.overrideFrom config.workingFolder = some path) ∧
      (∀ path, .ofFile .folder path ∈ files ↔
        path = config.workingFolder.join fileName ∧ t.contains path ∧
          ∀ given ∈ o.overrideFrom config.workingFolder, ¬path.same given) ∧
      (∀ path, .ofFile .repository path ∈ files ↔
        ∃ dir, NearestRepository t config.workingFolder dir ∧ path = dir.join fileName ∧
          t.contains path ∧ ¬path.same (config.workingFolder.join fileName) ∧
          ∀ given ∈ o.overrideFrom config.workingFolder, ¬path.same given) ∧
      List.Forall₂ (Origin.Says t) files layers ∧
      ((Layer.mergeAll (.defaults config.workingFolder :: layers)).arrange order).resolve =
        .ok config.toSettings) ∧
    ∀ path, loadIn order t o = .error (.overrideNotFound path) ↔ ∃ folder,
      o.workingFolder t = .ok folder ∧ o.overrideFrom folder = some path ∧
        t.contains path = false := by
  refine ⟨fun config hload => ?_, fun path => loadIn_eq_overrideNotFound_iff⟩
  obtain ⟨_, -, hfolder, -, -, -, rfl, -⟩ := loadIn_eq_ok_iff.1 hload
  obtain ⟨files, layers, horigins, rfl, hlayers, hresolve⟩ := layers_of_loadIn hload
  refine ⟨_, layers, hfolder, isAbsolute_workingFolder hfolder, horigins, ?_,
    kinds_fileOrigins_sublist, pairwise_apart_fileOrigins, ?_, ?_, ?_, hlayers, hresolve⟩
  · intro origin horigin
    obtain ⟨p, -, rfl⟩ | ⟨p, -, rfl⟩ | ⟨p, -, rfl⟩ := mem_fileOrigins_iff.1 horigin
    all_goals exact ⟨_, p, rfl⟩
  · intro path
    simp [mem_fileOrigins_iff, ofFile_inj]
  · intro path
    simpa [mem_fileOrigins_iff, ofFile_inj] using mem_own?_iff
  · intro path
    simpa [mem_fileOrigins_iff, ofFile_inj] using mem_shared?_iff

/-- The repository is two folders up, and the file that was asked for is the one in the working
folder by another spelling. One setting is said by the lower file alone, the other one by both. -/
theorem settings_files_have_one_role_respelled :
    ∃ (t : FileTree) (config : Config),
      load t { override := some (.ofString "./.rainlint.toml") } = .ok config ∧
      .ofFile .repository (.ofString "/r/.rainlint.toml") ∈ config.origins ∧
      (∀ path, .ofFile .folder path ∉ config.origins) ∧
      .ofFile .override (.ofString "/r/v/w/./.rainlint.toml") ∈ config.origins ∧
      config.refresh = { executable := .ofString "/r/e", mode := .specific } := by
  let lower := "[refresh]\nmode = \"specific\"\nexecutable = \"/r/d\"\n".toList
  let upper := "[refresh]\nexecutable = \"/r/e\"\n".toList
  let t : FileTree :=
    { entries := [([['r']], .folder), ([['r'], ".git".toList], .folder),
        ([['r'], fileName.text], .file (Utf8.encode lower) false), ([['r'], ['v']], .folder),
        ([['r'], ['v'], ['w']], .folder),
        ([['r'], ['v'], ['w'], fileName.text], .file (Utf8.encode upper) false)]
      workingFolder := [['r'], ['v'], ['w']] }
  let o : LoadOptions := { override := some (.ofString "./.rainlint.toml") }
  have hloaded : (load t o).toOption.map (·.refresh) =
      some { executable := .ofString "/r/e", mode := .specific } := by
    decide +kernel
  cases hload : load t o with
  | error e => simp [hload, Except.toOption] at hloaded
  | ok config =>
    simp only [hload, Except.toOption, Option.map_some, Option.some.injEq] at hloaded
    obtain ⟨hroles, -⟩ := settings_files_have_one_role .byCharacters t o
    obtain ⟨files, -, hfolder, -, horigins, -, -, -, hoverride, hown, hshared, -⟩ :=
      hroles config hload
    have hworking : config.workingFolder = .ofString "/r/v/w" := (Except.ok.inj hfolder).symm
    have hgiven : o.overrideFrom (.ofString "/r/v/w") = some (.ofString "/r/v/w/./.rainlint.toml") := by
      decide +kernel
    have hnearest : NearestRepository t (.ofString "/r/v/w") (.ofString "/r") :=
      repository?_eq_some_iff.1 (by decide +kernel)
    rw [hworking] at hoverride hown hshared horigins
    simp only [hgiven, Option.mem_some_iff, forall_eq'] at hoverride hown hshared
    refine ⟨t, config, hload, ?_, fun path hpath => ?_, ?_, hloaded⟩
    · rw [horigins]
      refine List.mem_cons_of_mem _ ((hshared _).2 ⟨_, hnearest, ?_⟩)
      decide +kernel
    · rw [horigins, List.mem_cons] at hpath
      obtain hdefaults | hpath := hpath
      · cases hdefaults
      · obtain ⟨rfl, -, hdifferent⟩ := (hown path).1 hpath
        exact hdifferent (by decide +kernel)
    · rw [horigins]
      exact List.mem_cons_of_mem _ ((hoverride _).2 rfl)

end SkinLint.Config
