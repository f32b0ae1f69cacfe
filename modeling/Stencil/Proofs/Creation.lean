import Stencil.Proofs.Starter

/-! What `init` does with the name it is given. A name without quotes and backslashes is taken
exactly if it is a dotted name, and then it is the name of the manifest that is written; such a
manifest can be checked and rendered. With a quote in it, a name that is none can be taken. -/

namespace Stencil

open Document

theorem on_init_of_parse {tree : Tree} {directory name : String} {m : Manifest}
    (habsent : tree.isPresent (joinPath directory "pyper.toml") = false)
    (hcan : tree.CanWrite (joinPath directory "pyper.toml"))
    (hparse : Manifest.parse (starter name) = .ok m) :
    let path := joinPath directory "pyper.toml"
    let result := (Invocation.init name directory).on tree
    result.1.exit = 0 ∧ result.2.readFile path = .ok (starterRules.apply (starter name)) ∧
      result.2.manifest path = .ok m := by
  have hcases := on_init_cases habsent name
  dsimp only at hcases ⊢
  generalize (Invocation.init name directory).on tree = result at hcases ⊢
  rcases hcases with ⟨e, herror, -, -⟩ |
    ⟨n, -, ⟨hcannot, -, -⟩ | ⟨ready, place, hopens, hexit, htree⟩⟩
  · rw [hparse] at herror
    cases herror
  · exact absurd hcan hcannot
  · have hread := hopens.readFile_written (starterRules.apply (starter name))
    rw [← htree] at hread
    exact ⟨hexit, hread, Tree.manifest_eq_ok_iff.mpr ⟨_, hread, parse_starterFile hparse⟩⟩

/-- Where no manifest is, `init` succeeds only if the manifest that it writes is accepted. That
the name in it is the given one, and a dotted name, is certain exactly for names without quotes
and backslashes. A failure changes no file. -/
theorem init_name_iff (tree : Tree) (directory name : String)
    (habsent : tree.isPresent (joinPath directory "pyper.toml") = false) :
    let path := joinPath directory "pyper.toml"
    let result := (Invocation.init name directory).on tree
    (result.1.exit = 0 → ∃ m, result.2.manifest path = .ok m ∧ IsDotted m.info.name ∧
      (IsDotted name ∧ m.info.name = name ↔ Inert name.toList)) ∧
    (result.1.exit ≠ 0 → ∀ location, result.2.content? location = tree.content? location) ∧
    (Inert name.toList → (result.1.exit = 0 ↔ IsDotted name ∧ tree.CanWrite path) ∧
      (¬ IsDotted name → result.2 = tree)) := by
  have hcases := on_init_cases habsent name
  dsimp only at hcases ⊢
  generalize (Invocation.init name directory).on tree = result at hcases ⊢
  rcases hcases with ⟨e, hparse, hexit, htree⟩ |
    ⟨m, hparse, ⟨hcannot, hexit, hwide⟩ | ⟨ready, place, hopens, hexit, htree⟩⟩
  · -- the name is refused
    have hnot : Inert name.toList → ¬ IsDotted name := by
      intro hinert h
      have hok := (parse_starter_eq_ok_iff hinert).mpr ⟨h, rfl⟩
      rw [hparse] at hok
      cases hok
    refine ⟨fun h0 => by omega, fun _ location => by rw [htree], fun hi => ⟨?_, fun _ => htree⟩⟩
    exact ⟨fun h0 => by omega, fun h => absurd h.1 (hnot hi)⟩
  · -- the name is accepted, and its file cannot be written
    refine ⟨fun h0 => by omega, fun _ => hwide.content?_eq, fun hi => ⟨?_, fun h => ?_⟩⟩
    · exact ⟨fun h0 => by omega, fun h => absurd h.2 hcannot⟩
    · exact absurd ((parse_starter_eq_ok_iff hi).mp hparse).1 h
  · -- the name is accepted, and its file is written
    have hmanifest : result.2.manifest (joinPath directory "pyper.toml") = .ok m := by
      have hread := hopens.readFile_written (starterRules.apply (starter name))
      rw [← htree] at hread
      exact Tree.manifest_eq_ok_iff.mpr ⟨_, hread, parse_starterFile hparse⟩
    have hname : IsDotted m.info.name :=
      Manifest.isDotted_of_check (Manifest.parse_eq_ok_iff.mp hparse).2
    have hgiven : Inert name.toList → IsDotted name ∧ m = starterManifest name := fun hi =>
      (parse_starter_eq_ok_iff hi).mp hparse
    refine ⟨fun _ => ⟨m, hmanifest, hname, fun h => h.1.inert, fun hi => ?_⟩,
      fun h0 => absurd hexit h0, fun hi => ⟨⟨fun _ => ?_, fun _ => hexit⟩, fun h => ?_⟩⟩
    · obtain ⟨h, rfl⟩ := hgiven hi
      exact ⟨h, rfl⟩
    · exact ⟨(hgiven hi).1, Tree.canWrite_iff.mpr ⟨ready, place, hopens⟩⟩
    · exact absurd (hgiven hi).1 h

theorem absent_empty : ({} : Tree).isPresent (joinPath "." "pyper.toml") = false := by
  decide +kernel

theorem canWrite_empty : ({} : Tree).CanWrite (joinPath "." "pyper.toml") :=
  ⟨"", _, by with_unfolding_all rfl⟩

/-- In an empty directory, a name with a blank is refused, and one with dots is taken. -/
theorem init_name_plain :
    let result := (Invocation.init "two words" ".").on {}
    ({} : Tree).isPresent "./pyper.toml" = false ∧ result.1.exit ≠ 0 ∧ result.2 = {} ∧
      ((Invocation.init "pkg.über" ".").on {}).1.exit = 0 := by
  have hwords : ¬ IsDotted "two words" := by
    rw [← dottedFlaw?_eq_none_iff]
    decide +kernel
  have hdots : IsDotted "pkg.über" := (dottedFlaw?_eq_none_iff _).mp (by decide +kernel)
  have hinert : Inert "two words".toList := by
    unfold Inert
    decide +kernel
  have hrefused := (init_name_iff {} "." "two words" absent_empty).2.2 hinert
  have htaken := (init_name_iff {} "." "pkg.über" absent_empty).2.2 hdots.inert
  exact ⟨absent_empty, fun h => hwords (hrefused.1.mp h).1, hrefused.2 hwords,
    htaken.1.mpr ⟨hdots, canWrite_empty⟩⟩

/-- Behind a dotted name, a quote ends the quoted text and a comment takes the quote that was to
end it. -/
def commentedLexemes (name : String) : List Lexeme :=
  starterOpening ++ .quoted false name :: .blank [' '] :: .comment :: starterClosing

set_option maxRecDepth 4000 in
theorem ofLexemes?_commentedLexemes (name : String) :
    manifestRecord.ofLexemes? {} (commentedLexemes name) = some (starterManifest name) := by
  with_unfolding_all rfl

theorem parse_starter_quoted {name : String} (h : IsDotted name) :
    Manifest.parse (starter (name ++ "\" #")) = .ok (starterManifest name) := by
  obtain ⟨closing, hclosing⟩ : ∃ closing, spelling starterClosing = '\n' :: closing := ⟨_, rfl⟩
  have hlist : '"' :: ((name ++ "\" #").toList ++ '"' :: spelling starterClosing) =
      '"' :: (name.toList ++ '"' :: ' ' :: '#' :: (['"'] ++ '\n' :: closing)) := by
    rw [String.toList_append, hclosing]
    simp
  obtain ⟨size, hname⟩ : ∃ size,
      lexeme? ('"' :: (name.toList ++ '"' :: ' ' :: '#' :: (['"'] ++ '\n' :: closing))) =
        some (.quoted false name, size, ' ' :: '#' :: (['"'] ++ '\n' :: closing)) := by
    refine lexeme?_quoted h.all_isLiteral fun c hc => ?_
    obtain rfl : ' ' = c := Option.some.inj hc
    decide
  have hblank : lexeme? (' ' :: '#' :: (['"'] ++ '\n' :: closing)) =
      some (.blank [' '], 1, '#' :: (['"'] ++ '\n' :: closing)) := rfl
  have hcomment : lexeme? ('#' :: (['"'] ++ '\n' :: closing)) =
      some (.comment, 1 + byteSize ['"'], '\n' :: closing) := lexeme?_comment (by decide)
  have hscans : Scans (starter (name ++ "\" #")).toList (commentedLexemes name) := by
    refine scans_starter_iff.mpr ⟨_, rfl, ?_⟩
    rw [hlist]
    exact .cons hname (.cons hblank (.cons hcomment (hclosing ▸ scans_starterClosing)))
  have hlen : (commentedLexemes name).length ≤ (starter (name ++ "\" #")).toList.length := by
    have hopening := length_le_length_spelling all_isSpelled_starterOpening
    have hrest := length_le_length_spelling all_isSpelled_starterClosing
    rw [toList_starter, hlist, ← hclosing, commentedLexemes]
    simp only [List.length_append, List.length_cons]
    omega
  refine Manifest.parse_eq_ok_iff.mpr ⟨?_, (check_starterManifest_iff name _).mpr h⟩
  exact (Record.readDocument_eq_ok_iff placeFree_manifestRecord (unmarked_starter _)).mpr
    ⟨_, hscans, hlen, ofLexemes?_commentedLexemes name⟩

/-- A name with a quote in it is taken, though it is no name, and another one is written. -/
theorem init_takes_quoted_name :
    let name := "m\" #"
    let result := (Invocation.init name ".").on {}
    ({} : Tree).isPresent "./pyper.toml" = false ∧ ¬ IsDotted name ∧ result.1.exit = 0 ∧
      ∃ m, result.2.manifest "./pyper.toml" = .ok m ∧ m.info.name = "m" := by
  have hquoted : ¬ IsDotted "m\" #" := fun h => absurd h.inert (by unfold Inert; decide +kernel)
  have hm : IsDotted "m" := (dottedFlaw?_eq_none_iff _).mp (by decide +kernel)
  have hname : "m" ++ "\" #" = "m\" #" := rfl
  have hpath : joinPath "." "pyper.toml" = "./pyper.toml" := by decide +kernel
  obtain ⟨hexit, -, hmanifest⟩ :=
    on_init_of_parse absent_empty canWrite_empty (parse_starter_quoted hm)
  rw [hname] at hexit hmanifest
  rw [hpath] at hmanifest
  exact ⟨absent_empty, hquoted, hexit, starterManifest "m", hmanifest, rfl⟩

/-- Every dotted name makes a starter that is read as a manifest of that name, alone or in the
file that `init` writes. Checking that file succeeds, and so does rendering it, unless the module
cannot be written. A dry run changes nothing then, and any other run leaves the module of the
manifest in one file and all other files alone. -/
theorem init_survives {name : String} (h : IsDotted name) :
    ∃ m, m.info.name = name ∧ Manifest.parse (starter name) = .ok m ∧
      Manifest.parse ("#" ++ starterComment ++ "\n\n" ++ starter name) = .ok m ∧
      ∀ (tree : Tree) (directory : String),
        let path := joinPath directory "pyper.toml"
        let result := (Invocation.init name directory).on tree
        tree.isPresent path = false → tree.CanWrite path →
          result.1.exit = 0 ∧
          result.2.readFile path = .ok ("#" ++ starterComment ++ "\n\n" ++ starter name) ∧
          ((Invocation.check path).on result.2).1.exit = 0 ∧
          ∀ options : RenderOptions, options.config = path →
            options.dryRun = true ∨ result.2.CanWrite (options.target (options.moduleOf m)) →
            let rendered := (Invocation.render options).on result.2
            rendered.1.exit = 0 ∧ (options.dryRun = true → rendered.2 = result.2) ∧
              (options.dryRun = false → ∃ place,
                rendered.2.resolve (options.target (options.moduleOf m)) = .ok place ∧
                ∀ location, rendered.2.content? location =
                  if location = place then some (.text (options.moduleOf m).render)
                  else result.2.content? location) := by
  have hparse : Manifest.parse (starter name) = .ok (starterManifest name) :=
    (parse_starter_eq_ok_iff h.inert).mpr ⟨h, rfl⟩
  refine ⟨starterManifest name, rfl, hparse, ?_, fun tree directory habsent hcan => ?_⟩
  · rw [← apply_starterRules]
    exact parse_starterFile hparse
  · obtain ⟨hexit, hread, hmanifest⟩ := on_init_of_parse habsent hcan hparse
    rw [apply_starterRules] at hread
    refine ⟨hexit, hread, exit_check hmanifest, ?_⟩
    intro options hconfig hrender
    rw [← hconfig] at hmanifest
    exact render_accepted hmanifest hrender

/-- A new project in an empty directory, of a module two packages deep. -/
theorem init_survives_nested :
    let name := "pkg.über.mod_1"
    let result := (Invocation.init name ".").on {}
    let options : RenderOptions := { config := "./pyper.toml", output := some "out/m.py" }
    let rendered := (Invocation.render options).on result.2
    IsDotted name ∧ result.1.exit = 0 ∧
      ((Invocation.check "./pyper.toml").on result.2).1.exit = 0 ∧ rendered.1.exit = 0 ∧
      ∃ m, Manifest.parse (starter name) = .ok m ∧
        rendered.2.readFile "out/m.py" = .ok (options.moduleOf m).render := by
  have hname : IsDotted "pkg.über.mod_1" := (dottedFlaw?_eq_none_iff _).mp (by decide +kernel)
  have hpath : joinPath "." "pyper.toml" = "./pyper.toml" := by decide +kernel
  have hwrite : ∀ content, ({} : Tree).writeFile (joinPath "." "pyper.toml") content =
      .done ⟨[(["pyper.toml"], .file (.text content))]⟩ := fun _ => by with_unfolding_all rfl
  have hout : ∀ content, (⟨[(["pyper.toml"], .file (.text content))]⟩ : Tree).CanWrite "out/m.py" :=
    fun _ => ⟨"", _, by with_unfolding_all rfl⟩
  obtain ⟨m, -, hparse, -, hinit⟩ := init_survives hname
  obtain ⟨hexit, -, hcheck, hrender⟩ := hinit {} "." absent_empty ⟨"", _, hwrite ""⟩
  have htree : ((Invocation.init "pkg.über.mod_1" ".").on {}).2 =
      ⟨[(["pyper.toml"], .file (.text (starterRules.apply (starter "pkg.über.mod_1"))))]⟩ := by
    have hresult := on_init {} "pkg.über.mod_1" "."
    rw [hparse] at hresult
    dsimp only at hresult
    rw [absent_empty, hwrite] at hresult
    rw [hresult]
    rfl
  have hcan : ((Invocation.init "pkg.über.mod_1" ".").on {}).2.CanWrite "out/m.py" := by
    rw [htree]
    exact hout _
  rw [hpath] at hcheck hrender
  dsimp only
  generalize (Invocation.init "pkg.über.mod_1" ".").on {} = result at hexit hcheck hrender hcan ⊢
  obtain ⟨hdone, -, hleft⟩ :=
    hrender { config := "./pyper.toml", output := some "out/m.py" } rfl (.inr hcan)
  obtain ⟨place, hresolve, hcontent⟩ := hleft rfl
  have hplace := hcontent place
  rw [if_pos rfl] at hplace
  exact ⟨hname, hexit, hcheck, hdone, m, hparse,
    Tree.readFile_eq_ok_iff.mpr ⟨place, hresolve, hplace⟩⟩

end Stencil
