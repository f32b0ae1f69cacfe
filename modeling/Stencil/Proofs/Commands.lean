import Stencil.CommandLine.Run
import Stencil.Proofs.Contents

/-! The commands on a tree of files: each is one reading of the manifest and at most one write. -/

namespace Stencil

/-- How an invocation ends, and the tree it leaves. -/
def Invocation.on (invocation : Invocation) (tree : Tree) : Ending × Tree :=
  (invocation.run Disk.tree).run tree

namespace Tree

/-- The manifest that a path leads to. -/
def manifest (tree : Tree) (path : String) : Except ManifestError Manifest :=
  match tree.readFile path with
  | .error fault => .error (.unreadable path fault)
  | .ok document => Manifest.parse document

theorem manifest_eq_ok_iff {tree : Tree} {path : String} {m : Manifest} :
    tree.manifest path = .ok m ↔
      ∃ document, tree.readFile path = .ok document ∧ Manifest.parse document = .ok m := by
  unfold manifest
  cases tree.readFile path <;> simp

theorem readManifest_eq (tree : Tree) (path : String) :
    Disk.tree.readManifest path tree = (tree.manifest path, tree) := by
  have hread : Disk.tree.read path tree = (tree.readFile path, tree) := rfl
  unfold Disk.readManifest manifest
  simp only [bind, StateT.bind, hread]
  cases tree.readFile path <;> rfl

theorem store_eq (tree : Tree) (rules : FileRules) (path content : String) :
    Disk.tree.store rules path (.ok content) tree =
      if rules.keepExisting && tree.isPresent path then (.ok .skipped, tree)
      else match tree.writeFile path (rules.apply content) with
        | .done after => (.ok .written, after)
        | .failed fault after => (.error (.system fault), after) := by
  have hpresent : Disk.tree.isPresent path tree = (tree.isPresent path, tree) := rfl
  have hwrite : Disk.tree.write path (rules.apply content) tree =
      match tree.writeFile path (rules.apply content) with
      | .done t => (.ok (), t)
      | .failed fault t => (.error fault, t) := rfl
  unfold Disk.store
  simp only [bind, StateT.bind, hpresent]
  split
  · rfl
  · simp only [StateT.bind, hwrite, pure]
    cases tree.writeFile path (rules.apply content) <;> rfl

end Tree

theorem on_check (tree : Tree) (config : String) :
    (Invocation.check config).on tree =
      (match tree.manifest config with
        | .error e => .failure e.message
        | .ok m => .success ("✓ " ++ config ++ " is valid\n\n" ++ m.outline), tree) := by
  simp only [Invocation.on, Invocation.run, StateT.run, runCheck, bind, StateT.bind,
    tree.readManifest_eq]
  cases tree.manifest config <;> rfl

/-- Where `render` writes. -/
def RenderOptions.target (options : RenderOptions) (module : Module) : String :=
  options.output.getD (module.path (baseDirectory options.config))

/-- The module that `render` writes. -/
def RenderOptions.moduleOf (options : RenderOptions) (m : Manifest) : Module :=
  (m.restyle options.indent options.lineEnding).module

theorem on_render (tree : Tree) (options : RenderOptions) :
    (Invocation.render options).on tree =
      match tree.manifest options.config with
      | .error e => (.failure e.message, tree)
      | .ok m =>
        let module := options.moduleOf m
        if options.dryRun then
          (.success ("── " ++ module.relativePath ++ " ──\n" ++ module.render), tree)
        else match tree.writeFile (options.target module) module.render with
          | .done after => (.success ("Generated: " ++ options.target module ++ "\n"), after)
          | .failed fault after => (.failure (StoreError.system fault).message, after) := by
  simp only [Invocation.on, Invocation.run, StateT.run, runRender, bind, StateT.bind,
    tree.readManifest_eq]
  cases tree.manifest options.config with
  | error e => rfl
  | ok m =>
    simp only
    split
    · rfl
    · unfold runGeneration
      simp only [bind, StateT.bind]
      rw [tree.store_eq]
      simp only [Bool.false_and, Bool.false_eq_true, if_false]
      unfold RenderOptions.target RenderOptions.moduleOf
      generalize (m.restyle options.indent options.lineEnding).module = module
      have hplain : ({} : FileRules).apply module.render = module.render := rfl
      rw [hplain]
      generalize tree.writeFile _ _ = outcome
      cases outcome <;> rfl

theorem exit_check {tree : Tree} {config : String} {m : Manifest}
    (h : tree.manifest config = .ok m) : ((Invocation.check config).on tree).1.exit = 0 := by
  rw [on_check, h]
  rfl

theorem state_render {tree : Tree} {options : RenderOptions} {m : Manifest}
    (h : tree.manifest options.config = .ok m) (hdry : options.dryRun = false) :
    ((Invocation.render options).on tree).2 =
      (tree.writeFile (options.target (options.moduleOf m)) (options.moduleOf m).render).state := by
  rw [on_render, h]
  simp only [hdry, Bool.false_eq_true, if_false]
  cases tree.writeFile (options.target (options.moduleOf m)) (options.moduleOf m).render <;> rfl

/-- What `render` can do with a manifest that is accepted: fail to write, or write. -/
theorem on_render_cases {tree : Tree} {options : RenderOptions} {m : Manifest}
    (h : tree.manifest options.config = .ok m) (hdry : options.dryRun = false) :
    let path := options.target (options.moduleOf m)
    let result := (Invocation.render options).on tree
    (¬ tree.CanWrite path ∧ result.1.exit = 1 ∧ tree.Widens result.2) ∨
      ∃ ready place, tree.Opens path ready place ∧ result.1.exit = 0 ∧
        result.2 = ready.put place (.file (.text (options.moduleOf m).render)) := by
  intro path result
  have hresult : result = _ := on_render tree options
  rw [h] at hresult
  simp only [hdry, Bool.false_eq_true, if_false] at hresult
  rcases tree.opens_or_fails path with ⟨ready, place, hopens⟩ | ⟨fault, after, hwide, hfails⟩
  · rw [hopens.write] at hresult
    exact .inr ⟨ready, place, hopens, by rw [hresult]; rfl, by rw [hresult]⟩
  · rw [hfails] at hresult
    exact .inl ⟨Tree.not_canWrite hfails, by rw [hresult]; rfl, by rw [hresult]; exact hwide⟩

/-- A manifest that is accepted is rendered, unless the module cannot be written. A dry run leaves
the tree as it is, and any other run leaves the module in one file and all other files alone. -/
theorem render_accepted {tree : Tree} {options : RenderOptions} {m : Manifest}
    (h : tree.manifest options.config = .ok m)
    (hcan : options.dryRun = true ∨ tree.CanWrite (options.target (options.moduleOf m))) :
    let result := (Invocation.render options).on tree
    result.1.exit = 0 ∧ (options.dryRun = true → result.2 = tree) ∧
      (options.dryRun = false → ∃ place,
        result.2.resolve (options.target (options.moduleOf m)) = .ok place ∧
        ∀ location, result.2.content? location =
          if location = place then some (.text (options.moduleOf m).render)
          else tree.content? location) := by
  intro result
  cases hdry : options.dryRun with
  | true =>
    have hresult : result = _ := on_render tree options
    rw [h] at hresult
    simp only [hdry, if_true] at hresult
    rw [hresult]
    exact ⟨rfl, fun _ => rfl, nofun⟩
  | false =>
    have hwrite := hcan.resolve_left (by rw [hdry]; decide)
    rcases on_render_cases h hdry with ⟨hcannot, -, -⟩ | ⟨ready, place, hopens, hexit, htree⟩
    · exact absurd hwrite hcannot
    · have hafter : result.2 = _ := htree
      rw [hafter]
      refine ⟨hexit, nofun, fun _ => ⟨place, ?_, hopens.content?_written _⟩⟩
      exact hopens.resolve_path_written _

theorem on_init (tree : Tree) (name directory : String) :
    (Invocation.init name directory).on tree =
      match Manifest.parse (starter name) with
      | .error e => (.failure e.message, tree)
      | .ok _ =>
        let path := joinPath directory "pyper.toml"
        if tree.isPresent path then
          (.success (path ++ " already exists, leaving it untouched\n"), tree)
        else match tree.writeFile path (starterRules.apply (starter name)) with
          | .done after =>
            (.success ("Created " ++ path ++ "\n\nNext: pyper render -c " ++ path ++ "\n"), after)
          | .failed fault after => (.failure (StoreError.system fault).message, after) := by
  have hrun : (Invocation.init name directory).on tree =
      runInit Disk.tree name directory tree := by
    simp only [Invocation.on, Invocation.run, StateT.run]
  refine hrun.trans ?_
  unfold runInit
  generalize starter name = document
  cases Manifest.parse document with
  | error e => rfl
  | ok m =>
    simp only [bind, StateT.bind]
    rw [tree.store_eq]
    have hkeep : starterRules.keepExisting = true := rfl
    rw [hkeep, Bool.true_and]
    cases tree.isPresent (joinPath directory "pyper.toml") with
    | true => rfl
    | false =>
      cases tree.writeFile (joinPath directory "pyper.toml") (starterRules.apply document) <;> rfl

/-- What `init` can do where no manifest is: refuse the name, fail to write, or write. -/
theorem on_init_cases {tree : Tree} {directory : String}
    (habsent : tree.isPresent (joinPath directory "pyper.toml") = false) (name : String) :
    let path := joinPath directory "pyper.toml"
    let result := (Invocation.init name directory).on tree
    (∃ e, Manifest.parse (starter name) = .error e ∧ result.1.exit = 1 ∧ result.2 = tree) ∨
      ∃ m, Manifest.parse (starter name) = .ok m ∧
        ((¬ tree.CanWrite path ∧ result.1.exit = 1 ∧ tree.Widens result.2) ∨
          ∃ ready place, tree.Opens path ready place ∧ result.1.exit = 0 ∧
            result.2 = ready.put place (.file (.text (starterRules.apply (starter name))))) := by
  intro path result
  have hresult : result = _ := on_init tree name directory
  generalize starter name = document at hresult ⊢
  cases hparse : Manifest.parse document with
  | error e =>
    rw [hparse] at hresult
    exact .inl ⟨e, rfl, by rw [hresult]; rfl, by rw [hresult]⟩
  | ok m =>
    rw [hparse] at hresult
    simp only [habsent, Bool.false_eq_true, if_false] at hresult
    refine .inr ⟨m, rfl, ?_⟩
    rcases tree.opens_or_fails path with ⟨ready, place, hopens⟩ | ⟨fault, after, hwide, hfails⟩
    · rw [hopens.write] at hresult
      exact .inr ⟨ready, place, hopens, by rw [hresult]; rfl, by rw [hresult]⟩
    · rw [hfails] at hresult
      exact .inl ⟨Tree.not_canWrite hfails, by rw [hresult]; rfl, by rw [hresult]; exact hwide⟩

end Stencil
