import Stencil.Proofs.Blanks
import Stencil.Proofs.Refused
import Stencil.Proofs.Starter

/-! The commands agree on which manifests they take and on the module of each. A render writes
one file, and doing it again changes nothing: it writes the same text, or refuses to read what it
wrote over the manifest. -/

namespace Stencil

/-- A manifest that was accepted is not accepted as the module that it describes. -/
theorem RenderOptions.parse_render_ne_ok {m : Manifest} {document : String}
    (h : Manifest.parse document = .ok m) (options : RenderOptions) (n : Manifest) :
    Manifest.parse (options.moduleOf m).render ≠ .ok n := by
  have hcheck := (Manifest.parse_eq_ok_iff.mp h).2
  simp only [Manifest.check, bind_eq_ok_iff, checkAll_eq_ok_iff, Scope.checkImport_eq_ok_iff,
    Scope.checkClass_eq_ok_iff, Scope.checkFunction_eq_ok_iff] at hcheck
  obtain ⟨-, himports, -, hclasses, hfunctions⟩ := hcheck
  intro hparse
  have hread := (Manifest.parse_eq_ok_iff.mp hparse).1
  refine Manifest.read_module_ne_ok ?_ ?_ ?_ n hread
  · exact fun i hi => (himports i hi).source
  · exact fun c hc => (hclasses c hc).name
  · exact fun f hf => (hfunctions f hf).name

theorem IsDotted.newline_not_mem {name : String} (h : IsDotted name) : '\n' ∉ name.toList := by
  intro hm
  have hliteral := List.all_eq_true.mp h.all_isLiteral '\n' hm
  exact absurd hliteral (by decide)

theorem Module.newline_not_mem_relativePath {m : Module} (h : IsDotted m.name) :
    '\n' ∉ m.relativePath.toList := by
  intro hm
  rw [relativePath, String.toList_append, String.toList_ofList] at hm
  rcases List.mem_append.mp hm with hm | hm
  · obtain ⟨c, hc, he⟩ := List.mem_map.mp hm
    split at he
    · exact absurd he (by decide)
    · exact h.newline_not_mem (he ▸ hc)
  · exact absurd hm (by decide)

/-! Where the module goes. -/

theorem baseDirectory_of_bare {config : String} (h : '/' ∉ config.toList) :
    baseDirectory config = "." := by
  have hparts : pathParts config = [config.toList] := splitOn_of_not_mem h
  unfold baseDirectory parent?
  rw [hparts]
  by_cases he : config.toList.isEmpty = true
  · simp [dropIdle, he]
  · have habsolute : isAbsolute config = false := by
      rw [isAbsolute, decide_eq_false_iff_not]
      exact fun hhead => h (List.mem_of_mem_head? hhead)
    simp [dropIdle, he, habsolute]

/-- The path to the directory of a manifest leads to where the manifest lies. -/
theorem Tree.walk_baseDirectory {tree : Tree} {config document : String}
    (h : tree.readFile config = .ok document) :
    ∃ directory file, tree.resolve config = .ok (directory ++ [file]) ∧
      tree.walk [] (pathParts (baseDirectory config)) = .ok directory := by
  obtain ⟨location, hresolve, hcontent⟩ := readFile_eq_ok_iff.mp h
  obtain ⟨up, directory, file, hparent, hwalk, rfl⟩ :=
    walk_parent? hresolve (content?_eq_some_iff.mp hcontent)
  refine ⟨directory, file, hresolve, ?_⟩
  unfold baseDirectory
  rw [hparent]
  split
  · next he =>
    cases he
    exact hwalk
  · next he =>
    cases he
    exact hwalk
  · next he => cases he

theorem Tree.Opens.place_beside {tree ready : Tree} {place : Location} {config document : String}
    {module : Module} (hname : IsDotted module.name) (hread : tree.readFile config = .ok document)
    (h : tree.Opens (module.path (baseDirectory config)) ready place) :
    ∃ directory file, tree.resolve config = .ok (directory ++ [file]) ∧
      place = directory ++ (pathParts module.relativePath).map String.ofList := by
  obtain ⟨directory, file, hresolve, hwalk⟩ := walk_baseDirectory hread
  obtain ⟨start, hstart, hplace⟩ := resolve_joinPath_below
    (fun _ => Module.descends_of_mem_pathParts hname) h.resolves
  have hready := walk_mono (fun _ hd => h.widens.get?_eq hd) hwalk
  obtain rfl : directory = start := Except.ok.inj (hready.symm.trans hstart)
  exact ⟨directory, file, hresolve, hplace⟩

theorem Module.path_of_bare {m : Module} (hname : IsDotted m.name) {config : String}
    (h : '/' ∉ config.toList) : m.path (baseDirectory config) = "./" ++ m.relativePath := by
  have hrelative : isAbsolute m.relativePath = false :=
    isAbsolute_eq_false fun _ => descends_of_mem_pathParts hname
  have hdot : ".".toList.getLast? ≠ some '/' := by decide
  rw [path, baseDirectory_of_bare h, joinPath, hrelative]
  simp only [Bool.false_or, hdot, if_false]
  rfl

/-- The overrides set how the module is indented and how its lines end, each where it is given.
The lines themselves and the place of the module are those of the manifest. -/
theorem RenderOptions.moduleOf_restyled (options : RenderOptions) (m : Manifest) :
    let module := options.moduleOf m
    module.style.indent = options.indent.getD m.style.indent ∧
      module.style.lineEnding = options.lineEnding.getD m.style.lineEnding ∧
      module.relativePath = m.module.relativePath ∧
      module.render = module.style.shown (m.module.element.lines 0) ∧
      m.module.render = m.style.shown (m.module.element.lines 0) := by
  intro module
  have hlines : module.render = module.style.shown (module.element.lines 0) :=
    (m.restyle options.indent options.lineEnding).render_module_lines
  have helement : module.element = m.module.element := rfl
  rw [helement] at hlines
  exact ⟨rfl, rfl, rfl, hlines, m.render_module_lines⟩

/-! Rendering, once and again. -/

/-- A second render finds the manifest again and writes the same text, or finds the module where
the manifest was and stops. -/
theorem content?_render_again {tree ready : Tree} {place : Location} {options : RenderOptions}
    {m : Manifest} (h : tree.manifest options.config = .ok m) (hdry : options.dryRun = false)
    (hopens : tree.Opens (options.target (options.moduleOf m)) ready place) (other : Location) :
    let after := ready.put place (.file (.text (options.moduleOf m).render))
    ((Invocation.render options).on after).2.content? other = after.content? other := by
  intro after
  obtain ⟨document, hread, hparse⟩ := Tree.manifest_eq_ok_iff.mp h
  obtain ⟨location, hresolve, hcontent⟩ := Tree.readFile_eq_ok_iff.mp hread
  have hagain : after.resolve options.config = .ok location := hopens.resolve_written _ hresolve
  have hwritten := hopens.content?_written (.text (options.moduleOf m).render) location
  by_cases hl : location = place
  · -- the module was written over the manifest, and is no manifest
    rw [if_pos hl] at hwritten
    have hreads : after.readFile options.config = .ok (options.moduleOf m).render :=
      Tree.readFile_eq_ok_iff.mpr ⟨location, hagain, hwritten⟩
    cases hmanifest : after.manifest options.config with
    | error e => rw [on_render, hmanifest]
    | ok n =>
      obtain ⟨text, htext, hn⟩ := Tree.manifest_eq_ok_iff.mp hmanifest
      obtain rfl := Except.ok.inj (hreads.symm.trans htext)
      exact absurd hn (options.parse_render_ne_ok hparse n)
  · -- the manifest is as it was
    rw [if_neg hl, hcontent] at hwritten
    have hreads : after.readFile options.config = .ok document :=
      Tree.readFile_eq_ok_iff.mpr ⟨location, hagain, hwritten⟩
    have hmanifest : after.manifest options.config = .ok m :=
      Tree.manifest_eq_ok_iff.mpr ⟨document, hreads, hparse⟩
    rw [state_render hmanifest hdry]
    exact hopens.content?_rewritten _ other

/-- Checking, a dry run and a render refuse the same manifests, and then do nothing else. Of a
manifest that they accept, the dry run shows the module that a render writes. A render that can
write changes the content of one file, which is the given one or lies below the directory of the
manifest, and a second render changes none. -/
theorem commands_agree (tree : Tree) (options : RenderOptions) :
    let wet := { options with dryRun := false }
    let check := (Invocation.check options.config).on tree
    let dry := (Invocation.render { options with dryRun := true }).on tree
    let render := (Invocation.render wet).on tree
    (∀ e, tree.manifest options.config = .error e →
      ∀ result ∈ [check, dry, render], result.1.exit = 1 ∧ result.1.output = "" ∧
        result.1.report = e.message ∧ result.2 = tree) ∧
    ∀ m, tree.manifest options.config = .ok m →
      let module := options.moduleOf m
      let target := options.target module
      check.1.exit = 0 ∧ check.2 = tree ∧
      dry = (.success ("── " ++ module.relativePath ++ " ──\n" ++ module.render), tree) ∧
      '\n' ∉ module.relativePath.toList ∧
      (¬ tree.CanWrite target → render.1.exit = 1 ∧
        ∀ location, render.2.content? location = tree.content? location) ∧
      (tree.CanWrite target → render.1.exit = 0 ∧ ∃ place,
        render.2.resolve target = .ok place ∧
        (options.output = none →
          ('/' ∉ options.config.toList → target = "./" ++ module.relativePath) ∧
          ∃ directory file, tree.resolve options.config = .ok (directory ++ [file]) ∧
            place = directory ++ (pathParts module.relativePath).map String.ofList) ∧
        (∀ location, render.2.content? location =
          if location = place then some (.text module.render) else tree.content? location) ∧
        ∀ location, ((Invocation.render wet).on render.2).2.content? location =
          render.2.content? location) := by
  intro wet check dry render
  refine ⟨?_, ?_⟩
  · intro e he result hresult
    have hcheck : check = (.failure e.message, tree) := by
      refine (on_check tree options.config).trans ?_
      rw [he]
    have hdry : dry = (.failure e.message, tree) := by
      refine (on_render tree { options with dryRun := true }).trans ?_
      rw [he]
    have hrender : render = (.failure e.message, tree) := by
      refine (on_render tree wet).trans ?_
      rw [he]
    rw [hcheck, hdry, hrender] at hresult
    obtain rfl : result = (.failure e.message, tree) := by simpa using hresult
    exact ⟨rfl, rfl, rfl, rfl⟩
  · intro m hm module target
    obtain ⟨document, hread, hparse⟩ := Tree.manifest_eq_ok_iff.mp hm
    have hname : IsDotted module.name :=
      Manifest.isDotted_of_check (Manifest.parse_eq_ok_iff.mp hparse).2
    have hcheck : check.2 = tree := congrArg Prod.snd (on_check tree options.config)
    have hdry : dry =
        (.success ("── " ++ module.relativePath ++ " ──\n" ++ module.render), tree) := by
      refine (on_render tree { options with dryRun := true }).trans ?_
      rw [hm]
      rfl
    refine ⟨exit_check hm, hcheck, hdry, Module.newline_not_mem_relativePath hname, ?_⟩
    have hwet : tree.manifest wet.config = .ok m := hm
    rcases on_render_cases hwet rfl with
      ⟨hcannot, hexit, hwide⟩ | ⟨ready, place, hopens, hexit, htree⟩
    · exact ⟨fun _ => ⟨hexit, hwide.content?_eq⟩, fun hcan => absurd hcan hcannot⟩
    · have hcan : tree.CanWrite target := Tree.canWrite_iff.mpr ⟨ready, place, hopens⟩
      have hafter : render.2 = ready.put place (.file (.text module.render)) := htree
      rw [hafter]
      refine ⟨fun hcannot => absurd hcan hcannot, fun _ => ⟨hexit, place, ?_, ?_, ?_, ?_⟩⟩
      · exact hopens.resolve_path_written _
      · intro hnone
        have htarget : target = module.path (baseDirectory options.config) := by
          simp only [target, RenderOptions.target, hnone, Option.getD_none]
        have hbeside : tree.Opens (module.path (baseDirectory options.config)) ready place :=
          htarget ▸ hopens
        exact ⟨fun hbare => htarget.trans (Module.path_of_bare hname hbare),
          hbeside.place_beside hname hread⟩
      · exact hopens.content?_written _
      · exact content?_render_again hwet rfl hopens

def besideTree (document : String) : Tree :=
  ⟨[(["lib"], .directory), (["lib", "m.toml"], .file (.text document))]⟩

/-- Without a file, all fail. With one, the module goes beside it, or over it if asked to, and
then nothing is left to render. -/
theorem commands_agree_nested :
    let m := starterManifest "pkg.core"
    let tree := besideTree (starter "pkg.core")
    let beside : RenderOptions := { config := "lib/m.toml", lineEnding := some .crlf }
    let replacing : RenderOptions := { config := "lib/m.toml", output := some "lib/m.toml" }
    let after := ((Invocation.render replacing).on tree).2
    ((Invocation.check replacing.config).on {}).1.exit = 1 ∧
      ((Invocation.render replacing).on {}).2 = {} ∧
      ((Invocation.render beside).on tree).2.content? ["lib", "pkg", "core.py"] =
        some (.text (beside.moduleOf m).render) ∧
      after.content? ["lib", "m.toml"] = some (.text (replacing.moduleOf m).render) ∧
      ((Invocation.render replacing).on after).2.content? ["lib", "m.toml"] =
        some (.text (replacing.moduleOf m).render) := by
  intro m tree beside replacing after
  have hname : IsDotted "pkg.core" := (dottedFlaw?_eq_none_iff _).mp (by decide +kernel)
  have habsent : ({} : Tree).manifest "lib/m.toml" =
      .error (.unreadable "lib/m.toml" .notFound) := by
    with_unfolding_all rfl
  have hread : ∀ document, (besideTree document).readFile "lib/m.toml" = .ok document :=
    fun _ => by with_unfolding_all rfl
  have hmanifest : tree.manifest "lib/m.toml" = .ok m :=
    Tree.manifest_eq_ok_iff.mpr ⟨_, hread _, (parse_starter_eq_ok_iff hname.inert).mpr ⟨hname, rfl⟩⟩
  have htarget : beside.target (beside.moduleOf m) = "lib/pkg/core.py" := by decide +kernel
  have hbeside : ∀ document, (besideTree document).CanWrite "lib/pkg/core.py" :=
    fun _ => ⟨"", _, by with_unfolding_all rfl⟩
  have hover : ∀ document content,
      (besideTree document).writeFile "lib/m.toml" content = .done (besideTree content) :=
    fun _ _ => by with_unfolding_all rfl
  have hresolve : ∀ document, (besideTree document).resolve "lib/m.toml" = .ok ["lib", "m.toml"] :=
    fun _ => by with_unfolding_all rfl
  have hafter : after = besideTree (replacing.moduleOf m).render := by
    have hstate : after = ((besideTree _).writeFile "lib/m.toml" _).state :=
      state_render hmanifest rfl
    rw [hstate, hover]
    rfl
  have hrefused := (commands_agree {} replacing).1 _ habsent
  obtain ⟨-, -, -, -, -, hwritten⟩ := (commands_agree tree beside).2 m hmanifest
  obtain ⟨-, -, -, -, -, hreplaced⟩ := (commands_agree tree replacing).2 m hmanifest
  obtain ⟨-, place, -, hplace, hcontent, -⟩ := hwritten (htarget ▸ hbeside _)
  obtain ⟨-, last, hlast, -, hnew, hagain⟩ := hreplaced ⟨"", _, hover _ _⟩
  obtain rfl : place = ["lib", "pkg", "core.py"] := by
    obtain ⟨-, directory, file, hconfig, hbelow⟩ := hplace rfl
    have hdirectory : directory ++ [file] = ["lib"] ++ ["m.toml"] :=
      Except.ok.inj (hconfig.symm.trans (hresolve _))
    have hparts : (pathParts (beside.moduleOf m).relativePath).map String.ofList =
        ["pkg", "core.py"] := by decide +kernel
    rw [hbelow, hparts, (List.append_inj' hdirectory rfl).1]
    rfl
  obtain rfl : last = ["lib", "m.toml"] := by
    have hl : after.resolve "lib/m.toml" = .ok last := hlast
    rw [hafter, hresolve] at hl
    exact (Except.ok.inj hl).symm
  have hfirst := (hnew ["lib", "m.toml"]).trans (if_pos rfl)
  exact ⟨(hrefused _ (.head _)).1, (hrefused _ (.tail _ (.tail _ (.head _)))).2.2.2,
    (hcontent _).trans (if_pos rfl), hfirst, (hagain _).trans hfirst⟩

end Stencil
