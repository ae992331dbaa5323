import SkinLint.Config.Loading
import SkinLint.Proofs.Config.Layers
import SkinLint.Proofs.Except
import SkinLint.Proofs.FileTree.Rewriting

/-!
# Loading as a stack

Loading puts what each file of settings says on top of what was said before. A file that is not
there says nothing, so the stack may be built from all files that there could be.
-/
namespace SkinLint.Config

def Origin.isThere (t : FileTree) (origin : Origin) : Bool :=
  (origin.path.map t.contains).getD false

/-- What the file of an origin says, which is nothing if there is no file. -/
def Origin.said (t : FileTree) (origin : Origin) : Except Error Layer :=
  if origin.isThere t then readLayer t origin else .ok {}

def stackOn (t : FileTree) (l : Layer) (origin : Origin) : Except Error Layer :=
  (origin.said t).map l.merge

def stack (t : FileTree) (origins : List Origin) (l : Layer) : Except Error Layer :=
  origins.foldlM (stackOn t) l

/-- The files of settings that there could be, from the lowest to the highest. -/
def possibleOrigins (repository : Option Path) (folder : Path) (override : Option Path) :
    List Origin :=
  let own := folder.join fileName
  let shared := (repository.map (·.join fileName)).filter fun path =>
    !isSame path override && !path.same own
  (shared.map (.ofFile .repository)).toList ++
    (if isSame own override then [] else [.ofFile .folder own]) ++
    (override.map (.ofFile .override)).toList

variable {t : FileTree}

theorem fileOrigins_eq (folder : Path) {override : Option Path}
    (h : ∀ path ∈ override, t.contains path) :
    fileOrigins t folder override =
      (possibleOrigins (repository? t folder) folder override).filter (·.isThere t) := by
  unfold fileOrigins possibleOrigins
  dsimp only
  rw [List.filter_append, List.filter_append]
  congr 1
  · congr 1
    · cases repository? t folder with
      | none => rfl
      | some dir =>
        simp only [Option.map_some, Option.filter_some]
        split_ifs <;> simp_all [Origin.isThere, Origin.ofFile]
    · split_ifs <;> simp_all [Origin.isThere, Origin.ofFile]
  · cases override with
    | none => rfl
    | some path => simp [Origin.isThere, Origin.ofFile, h path rfl]

theorem stack_eq_ok_iff {origins : List Origin} {l l' : Layer} :
    stack t origins l = .ok l' ↔ ∃ layers,
      (origins.filter (·.isThere t)).mapM (readLayer t) = .ok layers ∧
        layers.foldl Layer.merge l = l' := by
  induction origins generalizing l with
  | nil => simp [stack, pure, Except.pure]
  | cons origin origins ih =>
    have hstack : stack t (origin :: origins) l = stackOn t l origin >>= stack t origins :=
      List.foldlM_cons
    rw [hstack, bind_eq_ok_iff]
    cases hthere : origin.isThere t with
    | false =>
      rw [List.filter_cons_of_neg (by simp [hthere])]
      simp [stackOn, Origin.said, hthere, Except.map, Layer.merge_empty_right, ih]
    | true =>
      rw [List.filter_cons_of_pos hthere, List.mapM_cons]
      cases hread : readLayer t origin with
      | error e => simp [stackOn, Origin.said, hthere, hread, Except.map, bind, Except.bind]
      | ok layer =>
        simp only [stackOn, Origin.said, hthere, hread, Except.map, if_true, Except.ok.injEq,
          exists_eq_left', ih, bind_eq_ok_iff, pure, Except.pure]
        constructor
        · rintro ⟨layers, hlayers, hmerged⟩
          exact ⟨layer :: layers, ⟨layers, hlayers, rfl⟩, hmerged⟩
        · rintro ⟨_, ⟨layers, hlayers, rfl⟩, hmerged⟩
          exact ⟨layers, hlayers, hmerged⟩

theorem loadIn_eq_ok_iff {order : NameOrder} {o : LoadOptions} {config : Config} :
    loadIn order t o = .ok config ↔ ∃ folder l, o.workingFolder t = .ok folder ∧
      (∀ path ∈ o.overrideFrom folder, t.contains path) ∧
      stack t (possibleOrigins (repository? t folder) folder (o.overrideFrom folder))
        (.defaults folder) = .ok l ∧
      (l.arrange order).resolve = .ok config.toSettings ∧ config.workingFolder = folder ∧
      config.origins = .defaults folder :: fileOrigins t folder (o.overrideFrom folder) := by
  unfold loadIn
  rw [bind_eq_ok_iff]
  refine exists_congr fun folder => ?_
  rw [exists_and_left]
  refine and_congr_right fun hfolder => ?_
  dsimp only
  cases hmissing : (o.overrideFrom folder).filter (!t.contains ·) with
  | some path =>
    obtain ⟨hpath, habsent⟩ := Option.filter_eq_some_iff.1 hmissing
    constructor
    · intro h
      cases h
    · rintro ⟨l, hthere, -⟩
      simp [hthere path hpath] at habsent
  | none =>
    have hthere : ∀ path ∈ o.overrideFrom folder, t.contains path := by
      simpa using Option.filter_eq_none_iff.1 hmissing
    have hresolve (layers : List Layer) :
        Layer.mergeAll (.defaults folder :: layers) = layers.foldl Layer.merge (.defaults folder) := by
      rw [Layer.mergeAll, List.foldl_cons, Layer.merge_empty_left]
    rw [bind_eq_ok_iff]
    simp only [hresolve, stack_eq_ok_iff, fileOrigins_eq folder hthere]
    constructor
    · rintro ⟨layers, hlayers, h⟩
      split at h
      next => cases h
      next settings hsettings =>
        cases h
        exact ⟨_, hthere, ⟨layers, hlayers, rfl⟩, hsettings, rfl, rfl⟩
    · rintro ⟨_, -, ⟨layers, hlayers, rfl⟩, hsettings, rfl, horigins⟩
      refine ⟨layers, hlayers, ?_⟩
      rw [hsettings, ← horigins]
      rfl

end SkinLint.Config
