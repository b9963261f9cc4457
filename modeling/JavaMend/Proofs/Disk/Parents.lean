import JavaMend.Proofs.Disk.Lexical
import Mathlib.Data.List.DropRight

/-!
# `Proofs.Disk.Parents` — a path without its last name

The parent of a path opens the path and has its names but the last one, whatever says nothing in between
(`parentPath?_spec`). A path leads to a folder exactly if its names do, since a slash or a dot at its end asks for nothing
else (`find_folder_iff`).

## Contents
- **Joined parts.** `prefix_joinWith`, `components_joinWith`.
- **Parents.** `trimIdle_spec`; `components_pathHead_append`; `parentPath?_spec`, `exists_parentPath?`.
- **Folders.** `Followable`; `locate_eq_walk`, `find_folder_iff`.
-/

namespace JavaMend

open Text

/-! ## Joined parts -/

/-- Fewer parts make an opening of what all of them make. -/
theorem Text.prefix_joinWith {sep : Text} {ps qs : List Text} (h : ps <+: qs) : joinWith sep ps <+: joinWith sep qs := by
  obtain ⟨rest, rfl⟩ := h
  induction ps with
  | nil => exact List.nil_prefix
  | cons p ps ih =>
    cases ps with
    | nil =>
      cases rest with
      | nil => exact List.prefix_rfl
      | cons r rest => exact ⟨sep ++ joinWith sep (r :: rest), by simp [joinWith]⟩
    | cons q ps => exact List.prefix_append_right_inj _ |>.2 ih

namespace Disk

theorem components_joinWith {parts : List Text} (h : ∀ p ∈ parts, '/' ∉ p) :
    components (joinWith ['/'] parts) = parts.filter fun c => !isIdle c := by
  cases parts with
  | nil => rfl
  | cons p ps => rw [components, splitOn_joinWith (by simp) h]

/-! ## Parents -/

theorem prefix_trimIdle (parts : List Text) : trimIdle parts <+: parts := List.rdropWhile_prefix _ _

/-- Trimming takes parts that say nothing only, and leaves none of them at the end. -/
theorem trimIdle_spec (parts : List Text) :
    ((trimIdle parts).filter fun c => !isIdle c) = (parts.filter fun c => !isIdle c)
      ∧ (trimIdle parts).getLast?.any isIdle = false := by
  have heq (l : List Text) : trimIdle l = List.rdropWhile isIdle l := rfl
  induction parts using List.reverseRecOn with
  | nil => exact ⟨rfl, rfl⟩
  | append_singleton parts p ih =>
    rw [heq] at ih ⊢
    by_cases hp : isIdle p = true
    · simpa [List.rdropWhile_concat_pos _ _ _ hp, hp] using ih
    · simp [List.rdropWhile_concat_neg _ _ _ hp, hp]

theorem prefix_pathHead (path : Text) : pathHead path <+: path := by
  unfold pathHead
  split <;> simp

/-- What a path starts with adds no name to the parts after it, and they end as they did. -/
theorem components_pathHead_append {path : Text} {parts : List Text}
    (h : parts <+: splitOn '/' (path.drop (pathHead path).length)) :
    components (pathHead path ++ joinWith ['/'] parts) = (parts.filter fun c => !isIdle c)
      ∧ ((parts.filter fun c => !isIdle c) ≠ [] →
          (splitOn '/' (pathHead path ++ joinWith ['/'] parts)).getLast? = parts.getLast?) := by
  have hslash : ∀ p ∈ parts, '/' ∉ p := fun p hp hmem => (mem_splitOn (h.subset hp) hmem).2 rfl
  -- Behind a slash there are the parts as they are.
  have hbehind (first : Text) {ps : List Text} (hps : ∀ p ∈ ps, '/' ∉ p) :
      components (first ++ '/' :: joinWith ['/'] ps) = components first ++ (ps.filter fun c => !isIdle c)
        ∧ (ps ≠ [] → (splitOn '/' (first ++ '/' :: joinWith ['/'] ps)).getLast? = ps.getLast?) := by
    refine ⟨by rw [components_append_slash, components_joinWith hps], fun hne => ?_⟩
    rw [splitOn_append, splitOn_joinWith hne hps, List.getLast?_append_of_ne_nil _ hne]
  -- Behind a dot there is a slash, which leaves an empty part, or nothing.
  have hdot (rest : Text) (hparts : parts <+: [] :: splitOn '/' rest ∨ parts <+: [[]]) :
      components (['.'] ++ joinWith ['/'] parts) = (parts.filter fun c => !isIdle c)
        ∧ ((parts.filter fun c => !isIdle c) ≠ [] →
            (splitOn '/' (['.'] ++ joinWith ['/'] parts)).getLast? = parts.getLast?) := by
    cases parts with
    | nil => exact ⟨rfl, fun hne => absurd rfl hne⟩
    | cons p ps =>
      obtain rfl : p = [] := hparts.elim (fun h => (List.cons_prefix_cons.1 h).1) fun h => (List.cons_prefix_cons.1 h).1
      cases ps with
      | nil => exact ⟨rfl, fun hne => absurd rfl hne⟩
      | cons q qs =>
        obtain ⟨hcomponents, hlast⟩ := hbehind ['.'] (List.forall_mem_cons.1 hslash).2
        exact ⟨hcomponents, fun _ => hlast (by simp)⟩
  unfold pathHead at h ⊢
  split at h
  · obtain ⟨hcomponents, hlast⟩ := hbehind [] hslash
    exact ⟨hcomponents, fun hne => hlast (by rintro rfl; exact hne rfl)⟩
  · exact hdot [] (.inr h)
  · rename_i rest
    have h' : parts <+: splitOn '/' ([] ++ '/' :: rest) := h
    rw [splitOn_append] at h'
    exact hdot rest (.inl h')
  · refine ⟨by rw [List.nil_append, components_joinWith hslash], fun hne => ?_⟩
    rw [List.nil_append, splitOn_joinWith (by rintro rfl; exact hne rfl) hslash]

/-- The names of a path are those of the parts behind its start. -/
theorem components_eq_filter (path : Text) :
    components path = (splitOn '/' (path.drop (pathHead path).length)).filter fun c => !isIdle c := by
  have h := (components_pathHead_append (List.prefix_refl (splitOn '/' (path.drop (pathHead path).length)))).1
  rwa [joinWith_splitOn, List.prefix_iff_eq_append.1 (prefix_pathHead path)] at h

/-- **The parent of a path** opens the path, has its names without the last one, and ends with a name if it has any. -/
theorem parentPath?_spec {path up : Text} (h : parentPath? path = some up) :
    up <+: path ∧ components up = (components path).dropLast
      ∧ (components up ≠ [] → (splitOn '/' up).getLast?.any isIdle = false) := by
  unfold parentPath? at h
  obtain ⟨hnames, hlast⟩ := trimIdle_spec (splitOn '/' (path.drop (pathHead path).length))
  have hopens := prefix_trimIdle (splitOn '/' (path.drop (pathHead path).length))
  rw [← components_eq_filter] at hnames
  simp only at h
  generalize trimIdle (splitOn '/' (path.drop (pathHead path).length)) = parts at h hnames hlast hopens
  split at h
  · -- The path has no names.
    split at h
    · cases h
      rw [← hnames]
      exact ⟨List.nil_prefix, rfl, fun hne => absurd rfl hne⟩
    · cases h
  · rename_i hne
    cases h
    obtain ⟨hup, huplast⟩ := trimIdle_spec parts.dropLast
    have hupopens : trimIdle parts.dropLast <+: splitOn '/' (path.drop (pathHead path).length) :=
      ((prefix_trimIdle _).trans (List.dropLast_prefix _)).trans hopens
    obtain ⟨hcomponents, hsame⟩ := components_pathHead_append hupopens
    refine ⟨?_, ?_, fun hne => ?_⟩
    · have hjoin : joinWith ['/'] (trimIdle parts.dropLast) <+: joinWith ['/'] _ := prefix_joinWith hupopens
      rw [joinWith_splitOn] at hjoin
      calc pathHead path ++ joinWith ['/'] (trimIdle parts.dropLast)
          <+: pathHead path ++ path.drop (pathHead path).length := (List.prefix_append_right_inj _).2 hjoin
        _ = path := List.prefix_iff_eq_append.1 (prefix_pathHead path)
    · rw [hcomponents, hup, ← hnames]
      obtain ⟨init, last, rfl⟩ := List.eq_nil_or_concat parts |>.resolve_left hne
      have hname : isIdle last = false := by simpa using hlast
      simp [hname]
    · rw [hsame (hcomponents ▸ hne), huplast]

theorem exists_parentPath? {path : Text} (h : components path ≠ []) : ∃ up, parentPath? path = some up := by
  unfold parentPath?
  obtain ⟨hnames, -⟩ := trimIdle_spec (splitOn '/' (path.drop (pathHead path).length))
  rw [← components_eq_filter] at hnames
  simp only
  split
  · rename_i hnil
    rw [hnil] at hnames
    exact absurd hnames.symm h
  · exact ⟨_, rfl⟩

theorem isAbsolute_of_prefix {path up : Text} (h : up <+: path) (hne : up ≠ []) : isAbsolute up = isAbsolute path := by
  obtain ⟨rest, rfl⟩ := h
  cases up with
  | nil => exact absurd rfl hne
  | cons c cs => rfl

/-! ## Folders -/

/-- A path that can be followed: neither empty nor too long, without null characters. -/
structure Followable (path : Text) : Prop where
  ne_nil : path ≠ []
  noNull : '\x00' ∉ path
  short : path.byteLength < pathLimit

theorem Followable.of_prefix {path up : Text} (h : Followable path) (hup : up <+: path) (hne : up ≠ []) :
    Followable up := by
  obtain ⟨rest, rfl⟩ := hup
  refine ⟨hne, fun hmem => h.noNull (List.mem_append_left _ hmem), ?_⟩
  have hshort := h.short
  rw [byteLength_append] at hshort
  omega

variable {d : Disk} {dir : Place} {path : Text} {p : Place}

theorem locate_eq_walk (h : Followable path) :
    d.locate dir path = d.walk true (linkLimit + 1) (startOf dir path) (namesOf path) := by
  simp only [locate, follow, List.isEmpty_iff, if_neg h.ne_nil, if_neg h.noNull, if_neg (Nat.not_le.2 h.short)]

theorem followable_of_locate (h : d.locate dir path = .ok p) : Followable path := by
  unfold locate follow at h
  by_cases hnil : path = []
  · simp [hnil] at h
  · by_cases hnull : '\x00' ∈ path
    · simp [hnil, hnull] at h
    · by_cases hlong : pathLimit ≤ path.byteLength
      · simp [hnil, hnull, hlong] at h
      · exact ⟨hnil, hnull, Nat.not_le.1 hlong⟩

theorem find_eq_ok_iff {item : Item} :
    d.find dir path = .ok (p, item) ↔ d.locate dir path = .ok p ∧ d.item? p = some item := by
  unfold find itemAt
  cases hlocate : d.locate dir path with
  | error e => simp [bind, Except.bind]
  | ok q =>
    simp only [bind, Except.bind, Except.ok.injEq]
    constructor
    · intro h
      split at h
      · rename_i item' hitem
        cases h
        exact ⟨rfl, hitem⟩
      · cases h
    · rintro ⟨rfl, hitem⟩
      rw [hitem]

/-- Names are followed on from where the first of them led, if no link is met there. -/
theorem walk_append_eq {d : Disk} {fuel : Nat} {p q : Place} {ns ms : List Text} {r : Except PathFault Place}
    (h : d.walk true fuel p ns = .ok q) (hrest : d.walkNames true q ms = r.map .done) :
    d.walk true fuel p (ns ++ ms) = r := by
  induction fuel generalizing p ns with
  | zero => cases h
  | succ fuel ih =>
    rw [walk_succ] at h
    rw [walk_succ, walkNames_append]
    cases htrail : d.walkNames true p ns with
    | error e => simp [htrail] at h
    | ok trail =>
      cases trail with
      | done q' =>
        simp only [htrail] at h
        cases h
        simp only [hrest]
        cases r with
        | error e => rfl
        | ok r => rfl
      | link q' target rest =>
        simp only [htrail] at h
        simp only
        rw [← List.append_assoc]
        exact ih h

/-- A dot at the end of names asks for a folder. -/
theorem walk_dot_iff {fuel : Nat} {q : Place} {ns : List Text} :
    (d.walk true fuel q (ns ++ [['.']]) = .ok p ∧ d.item? p = some .folder) ↔
      d.walk true fuel q ns = .ok p ∧ d.item? p = some .folder := by
  constructor
  · rintro ⟨hwalk, hfolder⟩
    obtain ⟨r, hr, fuel', hdot⟩ := walk_append hwalk
    cases fuel' with
    | zero => cases hdot
    | succ fuel' =>
      have hsame : r = p := by
        rw [walk_succ, walkNames] at hdot
        cases hitem : d.item? r with
        | none => simp [hitem] at hdot
        | some item =>
          cases item <;> simp [hitem, walkNames] at hdot
          exact hdot
      exact ⟨hsame ▸ hr, hfolder⟩
  · rintro ⟨hwalk, hfolder⟩
    refine ⟨walk_append_eq (r := .ok p) hwalk ?_, hfolder⟩
    simp [walkNames, hfolder, Except.map]

/-- **A path leads to a folder** exactly if its names do. -/
theorem find_folder_iff : d.find dir path = .ok (p, .folder) ↔
    Followable path ∧ d.walk true (linkLimit + 1) (startOf dir path) (components path) = .ok p
      ∧ d.item? p = some .folder := by
  rw [find_eq_ok_iff]
  have hnames : (d.walk true (linkLimit + 1) (startOf dir path) (namesOf path) = .ok p ∧ d.item? p = some .folder) ↔
      d.walk true (linkLimit + 1) (startOf dir path) (components path) = .ok p ∧ d.item? p = some .folder := by
    unfold namesOf
    split
    · exact walk_dot_iff
    · rw [List.append_nil]
  constructor
  · rintro ⟨hlocate, hfolder⟩
    have hpath := followable_of_locate hlocate
    rw [locate_eq_walk hpath] at hlocate
    exact ⟨hpath, hnames.1 ⟨hlocate, hfolder⟩⟩
  · rintro ⟨hpath, hwalk⟩
    rw [locate_eq_walk hpath]
    exact hnames.2 hwalk

end Disk
end JavaMend
