import Stencil.Files.Disk
import Stencil.Proofs.Placement

/-! What writing a file does to a tree. Directories are added where nothing was, one file gets
its content, and all else stays. So a path that led somewhere leads there still, and the path of
the file leads to its content. -/

namespace Stencil

namespace Tree

/-- The content of a file; other places have none. -/
def content? (tree : Tree) (location : Location) : Option FileContent :=
  match tree.get? location with
  | some (.file content) => some content
  | _ => none

theorem content?_congr {tree other : Tree} {location : Location}
    (h : other.get? location = tree.get? location) :
    other.content? location = tree.content? location := by
  rw [content?, content?, h]

theorem content?_eq_some_iff {tree : Tree} {location : Location} {content : FileContent} :
    tree.content? location = some content ↔ tree.get? location = some (.file content) := by
  unfold content?
  cases tree.get? location with
  | none => simp
  | some node => cases node <;> simp

theorem lookup_putNode (location : Location) (node : Node) (nodes : List (Location × Node))
    (other : Location) :
    (putNode location node nodes).lookup other =
      if other = location then some node else nodes.lookup other := by
  have hbeq : ∀ l : Location, (other == l) = decide (other = l) := fun l => by
    by_cases h : other = l <;> simp [h]
  induction nodes with
  | nil => by_cases h : other = location <;> simp [putNode, List.lookup_cons, hbeq, h]
  | cons entry rest ih =>
    obtain ⟨l, n⟩ := entry
    by_cases hl : l = location
    · by_cases h : other = location <;> simp [putNode, List.lookup_cons, hbeq, hl, h]
    · by_cases h : other = l
      · simp [putNode, hl, h]
      · simp [putNode, List.lookup_cons, hbeq, hl, h, ih]

theorem get?_put (tree : Tree) {location : Location} (h : location ≠ []) (node : Node)
    (other : Location) :
    (tree.put location node).get? other =
      if other = location then some node else tree.get? other := by
  unfold get? put
  by_cases ho : other = []
  · simp [ho, Ne.symm h]
  · simp only [ho, if_false]
    exact lookup_putNode location node tree.nodes other

theorem get?_root (tree : Tree) : tree.get? [] = some .directory :=
  rfl

/-- Directories were added where nothing was, and all else is as before. -/
def Widens (tree after : Tree) : Prop :=
  ∀ location, after.get? location = tree.get? location ∨
    tree.get? location = none ∧ after.get? location = some .directory

namespace Widens

variable {tree after last : Tree}

theorem refl (tree : Tree) : tree.Widens tree :=
  fun _ => .inl rfl

theorem trans (h : tree.Widens after) (h' : after.Widens last) : tree.Widens last := by
  intro location
  rcases h' location with he | ⟨hn, hd⟩
  · rw [he]
    exact h location
  · rcases h location with he | ⟨_, hd'⟩
    · exact .inr ⟨he ▸ hn, hd⟩
    · rw [hn] at hd'
      cases hd'

theorem get?_eq (h : tree.Widens after) {location : Location} {node : Node}
    (hn : tree.get? location = some node) : after.get? location = some node := by
  rcases h location with he | ⟨hnone, _⟩
  · rw [he, hn]
  · rw [hn] at hnone
    cases hnone

theorem content?_eq (h : tree.Widens after) (location : Location) :
    after.content? location = tree.content? location := by
  rcases h location with he | ⟨hn, hd⟩
  · exact content?_congr he
  · rw [content?, content?, hn, hd]

end Widens

/-- Walking only asks for directories, so it goes the same way where they all are. -/
theorem walk_mono {tree after : Tree}
    (h : ∀ location, tree.get? location = some .directory → after.get? location = some .directory)
    {location last : Location} {parts : List (List Char)}
    (hw : tree.walk location parts = .ok last) : after.walk location parts = .ok last := by
  induction parts generalizing location with
  | nil => exact hw
  | cons part parts ih =>
    have hd := isDirectory_of_walk hw
    simp only [walk, hd, h location hd] at hw ⊢
    split
    · next he => exact ih (by simpa [he] using hw)
    · next he =>
      split
      · next hu => exact ih (by simpa [he, hu] using hw)
      · next hu => exact ih (by simpa [he, hu] using hw)

theorem resolve_mono {tree after : Tree}
    (h : ∀ location, tree.get? location = some .directory → after.get? location = some .directory)
    {path : String} {location : Location} (hr : tree.resolve path = .ok location) :
    after.resolve path = .ok location := by
  unfold resolve at hr ⊢
  split
  · next he => simp [he] at hr
  · next he => exact walk_mono h (by simpa [he] using hr)

theorem readFile_eq_ok_iff {tree : Tree} {path document : String} :
    tree.readFile path = .ok document ↔
      ∃ location, tree.resolve path = .ok location ∧
        tree.content? location = some (.text document) := by
  unfold readFile content?
  cases tree.resolve path with
  | error fault => simp
  | ok location =>
    cases hg : tree.get? location with
    | none => simp [hg]
    | some node =>
      cases node with
      | directory => simp [hg]
      | file content => cases content <;> simp [hg]

section Writing

theorem widens_makeDirectory (tree : Tree) (path : String) :
    tree.Widens (tree.makeDirectory path).state := by
  unfold makeDirectory
  cases tree.resolve path with
  | error fault => exact .refl tree
  | ok location =>
    cases hg : tree.get? location with
    | some node => simpa [hg, Outcome.state] using Widens.refl tree
    | none =>
      have hne : location ≠ [] := by
        rintro rfl
        rw [get?_root] at hg
        cases hg
      simp only [hg, Outcome.state]
      intro other
      rw [tree.get?_put hne]
      by_cases ho : other = location
      · exact .inr ⟨ho ▸ hg, if_pos ho⟩
      · exact .inl (if_neg ho)

theorem state_acceptDirectory (path : String) (outcome : Outcome SystemFault Tree) :
    (acceptDirectory path outcome).state = outcome.state := by
  cases outcome with
  | done tree => rfl
  | failed fault tree =>
    rw [acceptDirectory]
    split <;> rfl

theorem widens_makeDirectories (tree : Tree) (paths : List String) :
    tree.Widens (tree.makeDirectories paths).state := by
  induction paths with
  | nil => exact .refl tree
  | cons path up ih =>
    rw [makeDirectories]
    split
    · cases hup : tree.makeDirectories up with
      | done t =>
        rw [hup] at ih
        rw [Outcome.andThen_done, state_acceptDirectory]
        exact ih.trans (t.widens_makeDirectory path)
      | failed fault t =>
        rw [hup] at ih
        exact ih
    · rw [state_acceptDirectory]
      exact tree.widens_makeDirectory path

/-- The path of a file is ready to be written: its directories are there, and it leads to a place
that is no directory. -/
structure Opens (tree : Tree) (path : String) (ready : Tree) (place : Location) : Prop where
  widens : tree.Widens ready
  resolves : ready.resolve path = .ok place
  free : ready.get? place ≠ some .directory
  write : ∀ content, tree.writeFile path content = .done (ready.put place (.file (.text content)))

theorem dropEmptyEnd_pathParts {path : String} (hne : path ≠ "") (hs : endsInSlash path = false) :
    dropEmptyEnd (pathParts path) = pathParts path := by
  have hlast : (pathParts path).getLast? ≠ some [] := by
    rw [pathParts, Ne, getLast?_splitOn_eq_nil_iff]
    simpa [endsInSlash, hne] using hs
  unfold dropEmptyEnd
  cases hr : (pathParts path).reverse with
  | nil =>
    rw [List.reverse_eq_nil_iff] at hr
    rw [hr]
    rfl
  | cons last rest =>
    have hl : (pathParts path).getLast? = some last := by
      rw [← List.head?_reverse, hr]
      rfl
    have hfull : last.isEmpty = false := by
      cases last with
      | nil => exact absurd hl hlast
      | cons c cs => rfl
    rw [List.dropWhile_cons_of_neg (by simp [hfull]), ← hr, List.reverse_reverse]

/-- Whether a file can be written does not depend on its content. A write that fails has only
added directories. -/
theorem opens_or_fails (tree : Tree) (path : String) :
    (∃ ready place, tree.Opens path ready place) ∨
      ∃ fault after, tree.Widens after ∧
        ∀ content, tree.writeFile path content = .failed fault after := by
  have hwide := tree.widens_makeDirectories (((parent? path).map withParents).getD [])
  unfold writeFile
  cases hm : tree.makeDirectories (((parent? path).map withParents).getD []) with
  | failed fault t =>
    rw [hm] at hwide
    exact .inr ⟨fault, t, hwide, fun _ => rfl⟩
  | done t =>
    rw [hm] at hwide
    simp only [Outcome.andThen_done, replaceFile]
    by_cases hne : path = ""
    · exact .inr ⟨.notFound, t, hwide, fun _ => by simp [hne]⟩
    have hempty : path.isEmpty = false := by simpa using hne
    simp only [hempty, Bool.false_eq_true, if_false]
    cases hw : t.walk [] (dropEmptyEnd (pathParts path)) with
    | error fault => exact .inr ⟨fault, t, hwide, fun _ => rfl⟩
    | ok place =>
      by_cases hbad : (endsInSlash path || t.get? place = some .directory) = true
      · exact .inr ⟨.isADirectory, t, hwide, fun _ => by simp only [hbad, if_true]⟩
      · have hok : endsInSlash path = false ∧ t.get? place ≠ some .directory := by
          simpa using hbad
        have hresolve : t.resolve path = .ok place := by
          rw [dropEmptyEnd_pathParts hne hok.1] at hw
          simpa [resolve, hempty] using hw
        refine .inl ⟨t, place, hwide, hresolve, hok.2, fun content => ?_⟩
        unfold writeFile
        simp [hm, replaceFile, hempty, hw, hok]

variable {tree : Tree} {path : String}

def CanWrite (tree : Tree) (path : String) : Prop :=
  ∃ content after, tree.writeFile path content = .done after

theorem not_canWrite {fault : SystemFault} {after : Tree}
    (h : ∀ content, tree.writeFile path content = .failed fault after) : ¬ tree.CanWrite path := by
  rintro ⟨content, last, hwrite⟩
  rw [h content] at hwrite
  cases hwrite

theorem canWrite_iff : tree.CanWrite path ↔ ∃ ready place, tree.Opens path ready place := by
  constructor
  · intro h
    rcases tree.opens_or_fails path with ho | ⟨fault, last, _, hf⟩
    · exact ho
    · exact absurd h (not_canWrite hf)
  · rintro ⟨ready, place, ho⟩
    exact ⟨"", _, ho.write ""⟩

namespace Opens

variable {ready : Tree} {place : Location}

theorem place_ne_nil (h : tree.Opens path ready place) : place ≠ [] := by
  rintro rfl
  exact h.free ready.get?_root

theorem get?_written (h : tree.Opens path ready place) (node : Node) (other : Location) :
    (ready.put place node).get? other = if other = place then some node else ready.get? other :=
  ready.get?_put h.place_ne_nil node other

theorem isDirectory_written (h : tree.Opens path ready place) (node : Node) {other : Location}
    (hd : ready.get? other = some .directory) :
    (ready.put place node).get? other = some .directory := by
  have hne : other ≠ place := by
    rintro rfl
    exact h.free hd
  rw [h.get?_written, if_neg hne, hd]

/-- What led somewhere before still leads there. -/
theorem resolve_written (h : tree.Opens path ready place) (node : Node) {other : String}
    {location : Location} (hr : tree.resolve other = .ok location) :
    (ready.put place node).resolve other = .ok location :=
  resolve_mono (fun _ hd => h.isDirectory_written node (h.widens.get?_eq hd)) hr

theorem resolve_path_written (h : tree.Opens path ready place) (node : Node) :
    (ready.put place node).resolve path = .ok place :=
  resolve_mono (fun _ hd => h.isDirectory_written node hd) h.resolves

theorem content?_written (h : tree.Opens path ready place) (content : FileContent)
    (other : Location) :
    (ready.put place (.file content)).content? other =
      if other = place then some content else tree.content? other := by
  by_cases ho : other = place
  · rw [content?, h.get?_written, if_pos ho, if_pos ho]
  · rw [if_neg ho, ← h.widens.content?_eq other]
    exact content?_congr (by rw [h.get?_written, if_neg ho])

theorem readFile_written (h : tree.Opens path ready place) (content : String) :
    (ready.put place (.file (.text content))).readFile path = .ok content := by
  rw [readFile_eq_ok_iff]
  exact ⟨place, h.resolve_path_written _, by rw [h.content?_written, if_pos rfl]⟩

/-- Writing the same content once more changes no content, whether it succeeds or not. -/
theorem content?_rewritten (h : tree.Opens path ready place) (content : String)
    (other : Location) :
    ((ready.put place (.file (.text content))).writeFile path content).state.content? other =
      (ready.put place (.file (.text content))).content? other := by
  rcases (ready.put place (.file (.text content))).opens_or_fails path with
    ⟨again, last, ho⟩ | ⟨fault, last, hw, hf⟩
  · have hlast : last = place := by
      have hr := resolve_mono (fun _ hd => ho.widens.get?_eq hd)
        (h.resolve_path_written (.file (.text content)))
      rw [ho.resolves] at hr
      exact Except.ok.inj hr
    rw [ho.write, Outcome.state, ho.content?_written]
    by_cases he : other = last
    · rw [if_pos he, h.content?_written, if_pos (he.trans hlast)]
    · rw [if_neg he]
  · rw [hf, Outcome.state]
    exact hw.content?_eq other

end Opens

end Writing

section Parents

/-- All places on the way to a location are directories. -/
def Rooted (tree : Tree) (location : Location) : Prop :=
  ∀ front, front <+: location → front ≠ location → tree.get? front = some .directory

theorem Rooted.dropLast {tree : Tree} {location : Location} (h : tree.Rooted location) :
    tree.Rooted location.dropLast := by
  intro front hp hne
  have hlonger := hp.trans (List.dropLast_prefix location)
  refine h front hlonger fun he => ?_
  have hlen := hp.length_le
  have hcut : location.dropLast.length = location.length - 1 := List.length_dropLast
  rw [he] at hlen hne
  have hnil : location = [] := List.length_eq_zero_iff.mp (by omega)
  exact hne (by rw [hnil]; rfl)

theorem Rooted.concat {tree : Tree} {location : Location} (h : tree.Rooted location)
    (hd : tree.get? location = some .directory) (name : String) :
    tree.Rooted (location ++ [name]) := by
  intro front hp hne
  rcases List.prefix_concat_iff.mp hp with he | hp
  · exact absurd he hne
  · by_cases he : front = location
    · rw [he, hd]
    · exact h front hp he

theorem Rooted.walk {tree : Tree} {location last : Location} {parts : List (List Char)}
    (h : tree.Rooted location) (hw : tree.walk location parts = .ok last) : tree.Rooted last := by
  induction parts generalizing location with
  | nil => exact Except.ok.inj hw ▸ h
  | cons part parts ih =>
    have hd := isDirectory_of_walk hw
    simp only [Tree.walk, hd] at hw
    split at hw
    · exact ih h hw
    · split at hw
      · exact ih h.dropLast hw
      · exact ih (h.concat hd _) hw

/-- A file is reached by its name from its directory, never by standing still or going up. -/
theorem walk_to_file {tree : Tree} {front : List (List Char)} {part : List Char}
    {location : Location} {content : FileContent}
    (hw : tree.walk [] (front ++ [part]) = .ok location)
    (hf : tree.get? location = some (.file content)) :
    ∃ directory, tree.walk [] front = .ok directory ∧ Descends part ∧
      location = directory ++ [String.ofList part] := by
  rw [walk_append] at hw
  cases hd : tree.walk [] front with
  | error fault => simp [hd, Except.bind] at hw
  | ok directory =>
    have hstep : tree.walk directory [part] = .ok location := by simpa [hd, Except.bind] using hw
    have hdir := isDirectory_of_walk hstep
    have hroot : tree.Rooted directory := Rooted.walk (fun front hp hne => by simp_all) hd
    have hnot : location ≠ directory := by
      rintro rfl
      rw [hdir] at hf
      cases hf
    have hup : location ≠ directory.dropLast := by
      intro he
      by_cases hnil : directory.dropLast = directory
      · exact hnot (he.trans hnil)
      · rw [he, hroot _ (List.dropLast_prefix directory) hnil] at hf
        cases hf
    simp only [walk, hdir] at hstep
    split at hstep
    · exact absurd (Except.ok.inj hstep).symm hnot
    · next hidle =>
      split at hstep
      · exact absurd (Except.ok.inj hstep).symm hup
      · next hdots =>
        have hkeep : part ≠ [] ∧ part ≠ ['.'] := by simpa using hidle
        exact ⟨directory, rfl, ⟨hkeep.1, hkeep.2, hdots⟩, (Except.ok.inj hstep).symm⟩

theorem walk_dropIdle {tree : Tree} {location last : Location} {parts : List (List Char)}
    (h : tree.walk location parts.reverse = .ok last) :
    tree.walk location (dropIdle parts).reverse = .ok last := by
  have hidle : ∀ (part : List Char) (rest : List (List Char)),
      (part.isEmpty || part = ['.']) = true →
        tree.walk location (part :: rest).reverse = .ok last →
          tree.walk location rest.reverse = .ok last := by
    intro part rest hp hw
    rw [List.reverse_cons, walk_append] at hw
    cases hd : tree.walk location rest.reverse with
    | error fault => simp [hd, Except.bind] at hw
    | ok mid =>
      have hstep : tree.walk mid [part] = .ok last := by simpa [hd, Except.bind] using hw
      have hdir := isDirectory_of_walk hstep
      simp only [walk, hdir, hp, if_true] at hstep
      exact hstep
  fun_induction dropIdle parts with
  | case1 => exact h
  | case2 part he => exact hidle part [] (by simp [he]) h
  | case3 => exact h
  | case4 part rest _ he ih => exact ih (hidle part rest he h)
  | case5 => exact h

theorem dropIdle_of_descends {part : List Char} (h : Descends part) (rest : List (List Char)) :
    dropIdle (part :: rest) = part :: rest := by
  obtain ⟨hempty, hdot, -⟩ := h
  cases rest <;> simp [dropIdle, hempty, hdot]

theorem dropIdle_suffix (parts : List (List Char)) : dropIdle parts <:+ parts := by
  fun_induction dropIdle parts with
  | case1 => exact List.suffix_refl _
  | case2 part _ => exact List.nil_suffix
  | case3 => exact List.suffix_refl _
  | case4 part rest _ _ ih => exact ih.trans (List.suffix_cons part rest)
  | case5 => exact List.suffix_refl _

theorem pathParts_joinParts {parts : List (List Char)} (hne : parts ≠ [])
    (h : ∀ part ∈ parts, '/' ∉ part) : pathParts (joinParts parts) = parts := by
  have hofList : String.toList ∘ String.ofList = id := by
    funext cs
    simp
  rw [pathParts, joinParts, String.toList_intercalate, List.map_map, hofList, List.map_id,
    splitOn_eq]
  exact List.splitOn_intercalate '/' h hne

/-- The parent of the path of a file leads to the directory that the file lies in. -/
theorem walk_parent? {tree : Tree} {path : String} {location : Location} {content : FileContent}
    (hr : tree.resolve path = .ok location) (hf : tree.get? location = some (.file content)) :
    ∃ up directory name, parent? path = some up ∧
      tree.walk [] (pathParts up) = .ok directory ∧ location = directory ++ [name] := by
  have hw : tree.walk [] (pathParts path) = .ok location := by
    unfold resolve at hr
    split at hr
    · cases hr
    · exact hr
  rcases List.eq_nil_or_concat (pathParts path) with hnil | ⟨front, part, hparts⟩
  · exact absurd hnil (splitOn_ne_nil _)
  rw [List.concat_eq_append] at hparts
  rw [hparts] at hw
  obtain ⟨directory, hd, hpart, hl⟩ := walk_to_file hw hf
  have hkept : tree.walk [] (dropIdle front.reverse).reverse = .ok directory :=
    walk_dropIdle (by rwa [List.reverse_reverse])
  have hreverse : (pathParts path).reverse = part :: front.reverse := by simp [hparts]
  cases hk : dropIdle front.reverse with
  | nil =>
    rw [hk] at hkept
    have hparent : parent? path = some (if isAbsolute path then "/" else "") := by
      simp only [parent?, hreverse, dropIdle_of_descends hpart, hk]
    have hroot : ∀ up ∈ ["/", ""], tree.walk [] (pathParts up) = .ok directory := by
      intro up hup
      have hnil : directory = [] := (Except.ok.inj hkept).symm
      simp only [List.mem_cons, List.not_mem_nil, or_false] at hup
      rcases hup with rfl | rfl <;> rw [hnil] <;> rfl
    refine ⟨_, directory, _, hparent, hroot _ ?_, hl⟩
    split <;> simp
  | cons kept more =>
    rw [hk] at hkept
    have hparent : parent? path = some (joinParts (kept :: more).reverse) := by
      simp only [parent?, hreverse, dropIdle_of_descends hpart, hk]
    refine ⟨_, directory, _, hparent, ?_, hl⟩
    rwa [pathParts_joinParts (by simp)]
    intro p hp
    have hmem : p ∈ pathParts path := by
      have hsuffix : kept :: more <:+ front.reverse := hk ▸ dropIdle_suffix front.reverse
      rw [hparts]
      exact List.mem_append_left _
        (List.mem_reverse.mp (hsuffix.subset (List.mem_reverse.mp hp)))
    exact separator_not_mem_splitOn hmem

end Parents

end Tree

end Stencil
