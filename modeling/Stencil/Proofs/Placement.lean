import Stencil.Files.Tree
import Stencil.Manifest.Generate
import Stencil.Proofs.Acceptance

/-! Where the file of an accepted module goes. Its path is the name of the module cut at the
dots, and no part of it climbs or stands still, so the file lies below the base directory
whatever the tree of files looks like. -/

namespace Stencil

section Splitting

variable {separator : Char}

theorem splitOn_ne_nil (cs : List Char) : splitOn separator cs ≠ [] := by
  rw [splitOn_eq]
  exact List.splitOn_ne_nil separator cs

theorem splitOn_of_not_mem {cs : List Char} (h : separator ∉ cs) :
    splitOn separator cs = [cs] := by
  rw [splitOn_eq]
  exact List.splitOn_eq_singleton h

theorem splitOn_append_cons (xs ys : List Char) :
    splitOn separator (xs ++ separator :: ys) = splitOn separator xs ++ splitOn separator ys := by
  simp only [splitOn_eq]
  exact List.splitOn_append_cons_self xs ys

/-- Text without separators only goes on with the last part. -/
theorem exists_splitOn_append (xs : List Char) {ys : List Char} (h : separator ∉ ys) :
    ∃ front last, splitOn separator xs = front ++ [last] ∧
      splitOn separator (xs ++ ys) = front ++ [last ++ ys] := by
  induction xs with
  | nil => exact ⟨[], [], rfl, by simpa using splitOn_of_not_mem h⟩
  | cons c xs ih =>
    obtain ⟨front, last, hs, ha⟩ := ih
    by_cases hc : c = separator
    · refine ⟨[] :: front, last, ?_, ?_⟩
      · simp [splitOn, hc, hs]
      · simp [splitOn, hc, ha]
    · cases front with
      | nil =>
        refine ⟨[], c :: last, ?_, ?_⟩
        · simp [splitOn, hc, hs]
        · simp [splitOn, hc, ha]
      | cons p ps =>
        refine ⟨(c :: p) :: ps, last, ?_, ?_⟩
        · simp [splitOn, hc, hs]
        · simp [splitOn, hc, ha]

theorem getLast?_splitOn_eq_nil_iff (cs : List Char) :
    (splitOn separator cs).getLast? = some [] ↔ cs = [] ∨ cs.getLast? = some separator := by
  rcases List.eq_nil_or_concat cs with rfl | ⟨xs, c, rfl⟩
  · simp [splitOn]
  · rw [List.concat_eq_append]
    by_cases hc : c = separator
    · subst hc
      simp [splitOn_append_cons, splitOn]
    · have hnot : separator ∉ [c] := by simpa using fun he => hc he.symm
      obtain ⟨front, last, -, ha⟩ := exists_splitOn_append xs hnot
      simp [ha, hc]

/-- Another separator in the place of the first leaves the parts as they are. -/
theorem splitOn_map_replace {other : Char} {cs : List Char} (h : other ∉ cs) :
    splitOn other (cs.map fun c => if c = separator then other else c) =
      splitOn separator cs := by
  induction cs with
  | nil => rfl
  | cons c cs ih =>
    simp only [List.mem_cons, not_or] at h
    have hrest := ih h.2
    by_cases hc : c = separator
    · simp [splitOn, hc, hrest]
    · have hne : c ≠ other := fun he => h.1 he.symm
      simp [splitOn, hc, hne, hrest]

theorem separator_not_mem_splitOn {cs part : List Char}
    (h : part ∈ splitOn separator cs) : separator ∉ part := by
  induction cs generalizing part with
  | nil =>
    rw [List.mem_singleton.mp h]
    exact List.not_mem_nil
  | cons c cs ih =>
    rw [splitOn] at h
    split at h
    · rcases List.mem_cons.mp h with rfl | h
      · exact List.not_mem_nil
      · exact ih h
    · next hc =>
      cases hs : splitOn separator cs with
      | nil => exact absurd hs (splitOn_ne_nil cs)
      | cons p ps =>
        rw [hs] at h ih
        rcases List.mem_cons.mp h with rfl | h
        · have hp : separator ∉ p := ih List.mem_cons_self
          simpa [hp] using fun he => hc he.symm
        · exact ih (by simp [h])

theorem exists_mem_splitOn {c : Char} {cs : List Char} (h : c ∈ cs) :
    c = separator ∨ ∃ part ∈ splitOn separator cs, c ∈ part := by
  induction cs with
  | nil => cases h
  | cons d cs ih =>
    by_cases hd : d = separator
    · simp only [splitOn, hd, if_true]
      rcases List.mem_cons.mp h with rfl | h
      · exact .inl hd
      · rcases ih h with hc | ⟨part, hp, hm⟩
        · exact .inl hc
        · exact .inr ⟨part, by simp [hp], hm⟩
    · cases hs : splitOn separator cs with
      | nil => exact absurd hs (splitOn_ne_nil cs)
      | cons p ps =>
        simp only [splitOn, hd, if_false, hs]
        rw [hs] at ih
        rcases List.mem_cons.mp h with rfl | h
        · exact .inr ⟨c :: p, by simp, by simp⟩
        · rcases ih h with hc | ⟨part, hp, hm⟩
          · exact .inl hc
          · rcases List.mem_cons.mp hp with rfl | hp
            · exact .inr ⟨d :: part, by simp, by simp [hm]⟩
            · exact .inr ⟨part, by simp [hp], hm⟩

end Splitting

/-- The parts of the path of a directory. A slash at its end begins no part. -/
def directoryParts (base : String) : List (List Char) :=
  if (pathParts base).getLast? = some [] then (pathParts base).dropLast else pathParts base

theorem pathParts_joinPath {path : String} (base : String) (h : isAbsolute path = false) :
    pathParts (joinPath base path) = directoryParts base ++ pathParts path := by
  simp only [joinPath, directoryParts, pathParts, getLast?_splitOn_eq_nil_iff]
  rcases List.eq_nil_or_concat base.toList with hb | ⟨xs, c, hb⟩
  · have hempty : base = "" := by simpa using hb
    simp [h, hempty, splitOn]
  · rw [List.concat_eq_append] at hb
    have hne : base ≠ "" := by
      rintro rfl
      simp at hb
    by_cases hc : c = '/'
    · subst hc
      simp [h, hne, hb, splitOn_append_cons, splitOn]
    · have hslash : "/".toList = ['/'] := rfl
      have hjoin : splitOn '/' (base.toList ++ '/' :: path.toList) =
          splitOn '/' base.toList ++ splitOn '/' path.toList :=
        splitOn_append_cons base.toList path.toList
      rw [hb] at hjoin
      simpa [h, hne, hb, hc, hslash] using hjoin

/-- A part that names something in the directory before it. -/
def Descends (part : List Char) : Prop :=
  part ≠ [] ∧ part ≠ ['.'] ∧ part ≠ ['.', '.']

/-- A path from the root begins with an empty part. -/
theorem isAbsolute_eq_false {path : String} (h : ∀ part ∈ pathParts path, Descends part) :
    isAbsolute path = false := by
  unfold pathParts at h
  unfold isAbsolute
  cases hp : path.toList with
  | nil => rfl
  | cons c cs =>
    have hc : c ≠ '/' := by
      rintro rfl
      rw [hp] at h
      exact (h [] (by simp [splitOn])).1 rfl
    simpa using hc

namespace Tree

theorem walk_append (tree : Tree) (location : Location) (xs ys : List (List Char)) :
    tree.walk location (xs ++ ys) =
      (tree.walk location xs).bind fun next => tree.walk next ys := by
  induction xs generalizing location with
  | nil => rfl
  | cons part xs ih =>
    simp only [List.cons_append, walk]
    cases tree.get? location with
    | none => rfl
    | some node =>
      cases node with
      | file content => rfl
      | directory =>
        simp only
        split
        · exact ih location
        · split
          · exact ih location.dropLast
          · exact ih (location ++ [String.ofList part])

theorem walk_of_descends {tree : Tree} {parts : List (List Char)} {location last : Location}
    (hp : ∀ part ∈ parts, Descends part) (h : tree.walk location parts = .ok last) :
    last = location ++ parts.map String.ofList := by
  induction parts generalizing location with
  | nil =>
    have he : location = last := by simpa [walk] using h
    simp [he]
  | cons part parts ih =>
    obtain ⟨hempty, hdot, hup⟩ := hp part (by simp)
    have hrest : ∀ part ∈ parts, Descends part := fun a ha => hp a (by simp [ha])
    cases hg : tree.get? location with
    | none => simp [walk, hg] at h
    | some node =>
      cases node with
      | file content => simp [walk, hg] at h
      | directory =>
        have hnext : tree.walk (location ++ [String.ofList part]) parts = .ok last := by
          simpa [walk, hg, hempty, hdot, hup] using h
        have hlast := ih hrest hnext
        simpa using hlast

/-- Only what lies in a directory can be reached through a further part. -/
theorem isDirectory_of_walk {tree : Tree} {part : List Char} {parts : List (List Char)}
    {location last : Location} (h : tree.walk location (part :: parts) = .ok last) :
    tree.get? location = some .directory := by
  cases hg : tree.get? location with
  | none => simp [walk, hg] at h
  | some node =>
    cases node with
    | file content => simp [walk, hg] at h
    | directory => rfl

/-- A slash at the end of the path of a directory changes nothing. -/
theorem walk_pathParts_of_directoryParts {tree : Tree} {base : String} {start : Location}
    (h : tree.walk [] (directoryParts base) = .ok start)
    (hd : tree.get? start = some .directory) : tree.walk [] (pathParts base) = .ok start := by
  unfold directoryParts at h
  split at h
  · next hlast =>
    obtain ⟨front, hf⟩ := List.getLast?_eq_some_iff.mp hlast
    rw [hf, List.dropLast_concat] at h
    rw [hf, walk_append, h]
    simp [Except.bind, walk, hd]
  · exact h

end Tree

/-- Descending parts seen from a base lead to below it, if they lead anywhere. -/
theorem resolve_joinPath_below {tree : Tree} {base path : String} {location : Location}
    (hparts : ∀ part ∈ pathParts path, Descends part)
    (h : tree.resolve (joinPath base path) = .ok location) :
    ∃ start, tree.walk [] (pathParts base) = .ok start ∧
      location = start ++ (pathParts path).map String.ofList := by
  have hwalk : tree.walk [] (directoryParts base ++ pathParts path) = .ok location := by
    unfold Tree.resolve at h
    split at h
    · cases h
    · rwa [pathParts_joinPath base (isAbsolute_eq_false hparts)] at h
  rw [Tree.walk_append] at hwalk
  cases hs : tree.walk [] (directoryParts base) with
  | error fault => simp [hs, Except.bind] at hwalk
  | ok start =>
    have hrest : tree.walk start (pathParts path) = .ok location := by
      simpa [hs, Except.bind] using hwalk
    refine ⟨start, ?_, Tree.walk_of_descends hparts hrest⟩
    cases hp : pathParts path with
    | nil => exact absurd hp (splitOn_ne_nil _)
    | cons part parts =>
      rw [hp] at hrest
      exact Tree.walk_pathParts_of_directoryParts hs (Tree.isDirectory_of_walk hrest)

section Names

/-- What the parts of a dotted name have in common. -/
def PlainPart (part : List Char) : Prop :=
  part ≠ [] ∧ '/' ∉ part ∧ '.' ∉ part

theorem plainPart_of_mem_segments {name : String} (h : IsDotted name) {part : List Char}
    (hp : part ∈ segments name.toList) : PlainPart part := by
  have hname : IsName (String.ofList part) := (isDotted_iff name).mp h part hp
  have hslash : '/' ∉ (String.ofList part).toList := hname.not_mem (by decide +kernel)
  have hdot : '.' ∉ (String.ofList part).toList := hname.not_mem (by decide +kernel)
  rw [String.toList_ofList] at hslash hdot
  refine ⟨?_, hslash, hdot⟩
  rintro rfl
  exact hname.ne_empty rfl

theorem IsDotted.slash_not_mem {name : String} (h : IsDotted name) : '/' ∉ name.toList := by
  intro hm
  have hpart : '/' = '.' ∨ ∃ part ∈ splitOn '.' name.toList, '/' ∈ part := exists_mem_splitOn hm
  rcases hpart with he | ⟨part, hp, hc⟩
  · exact absurd he (by decide)
  · exact (plainPart_of_mem_segments h hp).2.1 hc

theorem PlainPart.descends {part : List Char} (h : PlainPart part) : Descends part := by
  obtain ⟨hempty, -, hdot⟩ := h
  refine ⟨hempty, ?_, ?_⟩
  · rintro rfl
    simp at hdot
  · rintro rfl
    simp at hdot

/-- The last part bears the ending of the file, which is more than two dots. -/
theorem descends_append_extension (part : List Char) : Descends (part ++ ".py".toList) := by
  have hlen : (part ++ ".py".toList).length = part.length + 3 := by simp
  refine ⟨?_, ?_, ?_⟩
  · intro he
    rw [he] at hlen
    simp at hlen
  · intro he
    rw [he] at hlen
    simp at hlen
  · intro he
    rw [he] at hlen
    simp at hlen

end Names

namespace Module

theorem toList_relativePath (m : Module) :
    m.relativePath.toList =
      (m.name.toList.map fun c => if c = '.' then '/' else c) ++ ".py".toList := by
  simp [relativePath]

theorem exists_pathParts_relativePath {m : Module} (h : IsDotted m.name) :
    ∃ front last, segments m.name.toList = front ++ [last] ∧
      pathParts m.relativePath = front ++ [last ++ ".py".toList] := by
  have hextension : '/' ∉ ".py".toList := by decide
  obtain ⟨front, last, hs, ha⟩ := exists_splitOn_append
    (m.name.toList.map fun c => if c = '.' then '/' else c) hextension
  refine ⟨front, last, ?_, ?_⟩
  · rw [← hs, splitOn_map_replace h.slash_not_mem]
    rfl
  · rw [pathParts, toList_relativePath]
    exact ha

theorem relativePath_eq_intercalate {m : Module} (h : IsDotted m.name) :
    m.relativePath = "/".intercalate ((segments m.name.toList).map String.ofList) ++ ".py" := by
  have hslash : "/".toList = ['/'] := rfl
  have hofList : String.toList ∘ String.ofList = id := by
    funext cs
    simp
  have hjoin : ['/'].intercalate
      ((m.name.toList.map fun c => if c = '.' then '/' else c).splitOn '/') =
      m.name.toList.map fun c => if c = '.' then '/' else c := List.intercalate_splitOn '/'
  rw [← splitOn_eq, splitOn_map_replace h.slash_not_mem] at hjoin
  apply String.toList_inj.mp
  rw [toList_relativePath, String.toList_append, String.toList_intercalate, List.map_map,
    hofList, List.map_id, hslash, ← hjoin]
  rfl

theorem descends_of_mem_pathParts {m : Module} (h : IsDotted m.name) {part : List Char}
    (hp : part ∈ pathParts m.relativePath) : Descends part := by
  obtain ⟨front, last, hs, hparts⟩ := exists_pathParts_relativePath h
  rw [hparts] at hp
  rcases List.mem_append.mp hp with hf | hl
  · have hmem : part ∈ segments m.name.toList := by
      rw [hs]
      exact List.mem_append_left _ hf
    exact (plainPart_of_mem_segments h hmem).descends
  · rw [List.mem_singleton.mp hl]
    exact descends_append_extension last

/-- Slashes read back as dots give the name again. -/
theorem map_slash_toList {name : String} (h : IsDotted name) :
    (name.toList.map fun c => if c = '.' then '/' else c).map
      (fun c => if c = '/' then '.' else c) = name.toList := by
  rw [List.map_map]
  conv => rhs; rw [← List.map_id name.toList]
  apply List.map_congr_left
  intro c hc
  have hslash : c ≠ '/' := by
    rintro rfl
    exact h.slash_not_mem hc
  by_cases hdot : c = '.'
  · simp [hdot]
  · simp [hdot, hslash]

theorem name_eq_of_relativePath_eq {m n : Module} (hm : IsDotted m.name) (hn : IsDotted n.name)
    (h : m.relativePath = n.relativePath) : m.name = n.name := by
  have hlist := congrArg String.toList h
  rw [toList_relativePath, toList_relativePath] at hlist
  have hmap := List.append_cancel_right hlist
  apply String.toList_inj.mp
  rw [← map_slash_toList hm, hmap, map_slash_toList hn]

end Module

theorem Manifest.isDotted_of_check {m : Manifest} {document : String}
    (h : m.check document = .ok ()) : IsDotted m.info.name := by
  simp only [Manifest.check, bind_eq_ok_iff, Scope.checkDotted_eq_ok_iff] at h
  exact h.1

/-- The file of an accepted module has the parts of the module's name for its path, the last
with an ending. They descend from whatever place the base leads to, and the path tells the
name. -/
theorem Manifest.path_below_base {m : Manifest} {document : String}
    (h : m.check document = .ok ()) (base : String) :
    m.module.relativePath =
        "/".intercalate ((segments m.info.name.toList).map String.ofList) ++ ".py" ∧
      (∀ part ∈ segments m.info.name.toList, part ≠ [] ∧ '/' ∉ part ∧ '.' ∉ part) ∧
      isAbsolute m.module.relativePath = false ∧
      (∃ front last, segments m.info.name.toList = front ++ [last] ∧
        pathParts m.module.relativePath = front ++ [last ++ ".py".toList]) ∧
      (∀ part ∈ pathParts m.module.relativePath, Descends part) ∧
      pathParts (m.module.path base) =
        directoryParts base ++ pathParts m.module.relativePath ∧
      (∀ (tree : Tree) (location : Location),
        tree.resolve (m.module.path base) = .ok location →
          ∃ start, tree.walk [] (pathParts base) = .ok start ∧
            location = start ++ (pathParts m.module.relativePath).map String.ofList) ∧
      ∀ (other : Manifest) (document' : String), other.check document' = .ok () →
        other.module.relativePath = m.module.relativePath → other.info.name = m.info.name := by
  have hname : IsDotted m.module.name := Manifest.isDotted_of_check h
  have hplain : ∀ part ∈ segments m.info.name.toList, PlainPart part := fun part hp =>
    plainPart_of_mem_segments hname hp
  have hparts := Module.exists_pathParts_relativePath hname
  have hdescends : ∀ part ∈ pathParts m.module.relativePath, Descends part :=
    fun part hp => Module.descends_of_mem_pathParts hname hp
  have habsolute : isAbsolute m.module.relativePath = false := isAbsolute_eq_false hdescends
  refine ⟨Module.relativePath_eq_intercalate hname, hplain, habsolute, hparts, hdescends,
    pathParts_joinPath base habsolute, fun tree location hl => ?_, fun other document' ho he => ?_⟩
  · exact resolve_joinPath_below hdescends hl
  · exact Module.name_eq_of_relativePath_eq (Manifest.isDotted_of_check ho) hname he

/-- A module two packages deep. -/
def nestedModule : Manifest where
  info := { name := "pkg.über.mod_1" }

theorem path_below_base_nestedModule :
    let tree : Tree :=
      ⟨[(["lib"], .directory), (["out"], .directory), (["out", "pkg"], .directory),
        (["out", "pkg", "über"], .directory)]⟩
    let location : Location := ["out", "pkg", "über", "mod_1.py"]
    let other : Manifest := { nestedModule with info := { name := "pkg.über.mod_1", doc := "d" } }
    nestedModule.check "" = .ok () ∧ other.check "" = .ok () ∧
      nestedModule.module.relativePath = "pkg/über/mod_1.py" ∧
      tree.resolve (nestedModule.module.path "lib/../out/") = .ok location ∧
      (∃ start, tree.walk [] (pathParts "lib/../out/") = .ok start ∧
        location = start ++ ["pkg", "über", "mod_1.py"]) ∧
      other.info.name = nestedModule.info.name := by
  intro tree location other
  have h : nestedModule.check "" = .ok () := by decide +kernel
  have ho : other.check "" = .ok () := by decide +kernel
  have hpath : nestedModule.module.relativePath = "pkg/über/mod_1.py" := by decide +kernel
  have hl : tree.resolve (nestedModule.module.path "lib/../out/") = .ok location := by
    decide +kernel
  obtain ⟨-, -, -, -, -, -, hbelow, hnames⟩ := Manifest.path_below_base h "lib/../out/"
  obtain ⟨start, hs, he⟩ := hbelow tree location hl
  have hparts : (pathParts nestedModule.module.relativePath).map String.ofList =
      ["pkg", "über", "mod_1.py"] := by decide +kernel
  rw [hparts] at he
  exact ⟨h, ho, hpath, hl, ⟨start, hs, he⟩, hnames other "" ho rfl⟩

end Stencil
