import JavaMend.Proofs.Disk.Growth

/-!
# `Proofs.Disk.Lexical` — where paths lead by their names alone

Without looking at a disk, a name leads down and `..` leads up. Names that never lead above their start lead below it,
wherever that is (`resolve_of_descend`); names that do lead above it leave some folder (`not_mem_resolve_of_descend`). On a
disk, names lead where they say as long as no link is met (`walk_of_descend`).

## Contents
- **Names.** `resolve`, `lexical`, `Below`.
- **Descending.** `descend`; `resolve_of_descend`, `below_resolve_iff`.
- **Joined paths.** `components_joinPath`, `namesOf_joinPath`, `lexical_joinPath`.
- **Walking.** `walk_append`, `walk_of_descend`.
-/

namespace JavaMend
namespace Disk

open Text

/-! ## Names -/

/-- One name on: down, or up for `..`. The root has nothing above it. -/
def step (p : Place) (name : Text) : Place := if name = text ".." then p.dropLast else p ++ [name]

/-- Where names lead from a place, by themselves. -/
def resolve (p : Place) (names : List Text) : Place := names.foldl step p

/-- Where a path leads by its names alone. -/
def lexical (dir : Place) (path : Text) : Place := resolve (startOf dir path) (components path)

/-- The place `q` lies strictly below `p`. -/
def Below (p q : Place) : Prop := ∃ names, names ≠ [] ∧ q = p ++ names

theorem resolve_append (p : Place) (ns ms : List Text) : resolve p (ns ++ ms) = resolve (resolve p ns) ms :=
  List.foldl_append

/-! ## Descending -/

/-- Where names lead below their start, with `down` leading from there to the first of them; nothing if they lead above
    the start on the way. -/
def descend (down : Place) : List Text → Option Place
  | []      => some down
  | n :: ns =>
    if n = text ".." then
      if down = [] then none else descend down.dropLast ns
    else descend (down ++ [n]) ns

/-- Names that stay below their start lead to the same place below every start. -/
theorem resolve_of_descend {down below : Place} {names : List Text} (h : descend down names = some below) (p : Place) :
    resolve (p ++ down) names = p ++ below := by
  induction names generalizing down with
  | nil =>
    cases h
    rfl
  | cons n ns ih =>
    unfold descend at h
    show resolve (step (p ++ down) n) ns = p ++ below
    unfold step
    by_cases hup : n = text ".."
    · rw [if_pos hup] at h ⊢
      by_cases hdown : down = []
      · rw [if_pos hdown] at h
        cases h
      · rw [if_neg hdown] at h
        rw [List.dropLast_append_of_ne_nil hdown]
        exact ih h
    · rw [if_neg hup] at h ⊢
      rw [List.append_assoc]
      exact ih h

theorem not_mem_dropLast {α : Type} {x : α} {l : List α} (h : x ∉ l) : x ∉ l.dropLast :=
  fun hmem => h ((List.dropLast_subset l) hmem)

theorem not_mem_resolve {name : Text} {names : List Text} (h : name ∉ names) {p : Place} (hp : name ∉ p) :
    name ∉ resolve p names := by
  induction names generalizing p with
  | nil => exact hp
  | cons n ns ih =>
    rw [List.mem_cons, not_or] at h
    refine ih h.2 ?_
    unfold step
    split
    · exact not_mem_dropLast hp
    · simp [hp, h.1]

/-- Names that lead above their start leave a folder with a name of its own: they never enter it again. -/
theorem not_mem_resolve_of_descend {down : Place} {names : List Text} (h : descend down names = none) {name : Text}
    (hname : name ∉ names) (hdown : name ∉ down) : name ∉ resolve (name :: down) names := by
  induction names generalizing down with
  | nil => cases h
  | cons n ns ih =>
    unfold descend at h
    rw [List.mem_cons, not_or] at hname
    show name ∉ resolve (step (name :: down) n) ns
    unfold step
    by_cases hup : n = text ".."
    · rw [if_pos hup] at h ⊢
      by_cases hnil : down = []
      · subst hnil
        exact not_mem_resolve hname.2 List.not_mem_nil
      · rw [if_neg hnil] at h
        rw [List.dropLast_cons_of_ne_nil hnil]
        exact ih h hname.2 (not_mem_dropLast hdown)
    · rw [if_neg hup] at h ⊢
      exact ih h hname.2 (by simp [hdown, hname.1])

/-- There is a name that is none of the given ones. -/
theorem exists_not_mem (names : List Text) : ∃ name : Text, name ∉ names := by
  refine ⟨'x' :: names.flatten, fun h => ?_⟩
  have hle := (List.sublist_flatten_of_mem h).length_le
  rw [List.length_cons] at hle
  omega

/-- **Names lead below every folder** exactly if they never lead above their start, and to something else. -/
theorem below_resolve_iff {names : List Text} :
    (∀ p, Below p (resolve p names)) ↔ ∃ below, below ≠ [] ∧ descend [] names = some below := by
  constructor
  · intro h
    cases hdescend : descend [] names with
    | none =>
      -- A folder with a new name would be left for good when the names lead above it.
      obtain ⟨name, hname⟩ := exists_not_mem names
      obtain ⟨below, -, heq⟩ := h [name]
      exact absurd (heq ▸ List.mem_append_left _ List.mem_cons_self)
        (not_mem_resolve_of_descend hdescend hname List.not_mem_nil)
    | some below =>
      obtain ⟨names', hne, heq⟩ := h []
      have hbelow : resolve [] names = below := resolve_of_descend hdescend []
      exact ⟨below, by rwa [← hbelow, heq, List.nil_append], rfl⟩
  · rintro ⟨below, hne, hdescend⟩ p
    exact ⟨below, hne, by simpa using resolve_of_descend hdescend p⟩

/-! ## Joined paths -/

theorem components_append_slash (a b : Text) : components (a ++ '/' :: b) = components a ++ components b := by
  unfold components
  rw [splitOn_append, List.filter_append]

/-- A joined path is the path itself, or it is the folder, a slash and the path, where a slash at the end of the folder
    is taken for that one. -/
theorem joinPath_cases {path : Text} (h : isAbsolute path = false) (folder : Text) :
    folder = [] ∧ joinPath folder path = path ∨
      ∃ up, (folder = up ∨ folder = up ++ ['/']) ∧ joinPath folder path = up ++ '/' :: path := by
  unfold joinPath
  rw [h, Bool.false_or]
  split
  · rename_i hnil
    exact .inl ⟨List.isEmpty_iff.1 hnil, rfl⟩
  · split
    · rename_i hlast
      obtain ⟨up, rfl⟩ := List.getLast?_eq_some_iff.1 (by simpa using hlast)
      exact .inr ⟨up, .inr rfl, by simp⟩
    · exact .inr ⟨folder, .inl rfl, rfl⟩

/-- The names of a joined path are those of the folder and those of the path. -/
theorem components_joinPath {path : Text} (h : isAbsolute path = false) (folder : Text) :
    components (joinPath folder path) = components folder ++ components path := by
  obtain ⟨rfl, hjoin⟩ | ⟨up, hup, hjoin⟩ := joinPath_cases h folder
  · rw [hjoin]
    rfl
  · rw [hjoin, components_append_slash]
    obtain rfl | rfl := hup
    · rfl
    · rw [components_append_slash]
      simp [components, splitOn, isIdle]

/-- The last part of a joined path is that of the path. -/
theorem namesOf_joinPath {path : Text} (h : isAbsolute path = false) (folder : Text)
    (hlast : (splitOn '/' path).getLast?.any isIdle = false) :
    namesOf (joinPath folder path) = components folder ++ components path := by
  have hsame : (splitOn '/' (joinPath folder path)).getLast? = (splitOn '/' path).getLast? := by
    obtain ⟨rfl, hjoin⟩ | ⟨up, -, hjoin⟩ := joinPath_cases h folder
    · rw [hjoin]
    · obtain ⟨last, hlast⟩ := Option.ne_none_iff_exists'.1 (mt List.getLast?_eq_none_iff.1 (splitOn_ne_nil '/' path))
      rw [hjoin, splitOn_append, List.getLast?_append, hlast, Option.some_or]
  rw [namesOf, components_joinPath h, hsame, hlast]
  simp

/-- A joined path starts where the folder's does. -/
theorem startOf_joinPath {path : Text} (h : isAbsolute path = false) (dir : Place) (folder : Text) :
    startOf dir (joinPath folder path) = startOf dir folder := by
  have hsame : isAbsolute (joinPath folder path) = isAbsolute folder := by
    unfold joinPath
    rw [h, Bool.false_or]
    obtain _ | ⟨c, cs⟩ := folder
    · exact h
    · simp only [List.isEmpty_cons, Bool.false_eq_true, if_false]
      split <;> rfl
  rw [startOf, startOf, hsame]

theorem lexical_joinPath {path : Text} (h : isAbsolute path = false) (dir : Place) (folder : Text) :
    lexical dir (joinPath folder path) = resolve (lexical dir folder) (components path) := by
  rw [lexical, startOf_joinPath h, components_joinPath h, resolve_append]
  rfl

/-! ## Walking -/

/-- Names are followed from where the names before them led. -/
theorem walkNames_append (d : Disk) (p : Place) (ns ms : List Text) :
    d.walkNames true p (ns ++ ms) = match d.walkNames true p ns with
      | .error e               => .error e
      | .ok (.done q)          => d.walkNames true q ms
      | .ok (.link q t rest)   => .ok (.link q t (rest ++ ms)) := by
  induction ns generalizing p with
  | nil => simp [walkNames]
  | cons n ns ih =>
    rw [List.cons_append, walkNames, walkNames]
    split
    · rfl
    · split
      · exact ih p
      · split
        · exact ih p.dropLast
        · split
          · rfl
          · simp only
            split
            · simp
            · exact ih (p ++ [n])
    · rfl

theorem walk_succ (d : Disk) (fuel : Nat) (p : Place) (names : List Text) :
    d.walk true (fuel + 1) p names = match d.walkNames true p names with
      | .error e                  => .error e
      | .ok (.done q)             => .ok q
      | .ok (.link q target rest) => d.walk true fuel (startOf q target) (namesOf target ++ rest) := rfl

/-- What names lead to is what the last of them lead to from where the first ones lead. -/
theorem walk_append {d : Disk} {fuel : Nat} {p r : Place} {ns ms : List Text}
    (h : d.walk true fuel p (ns ++ ms) = .ok r) :
    ∃ q, d.walk true fuel p ns = .ok q ∧ ∃ fuel', d.walk true fuel' q ms = .ok r := by
  induction fuel generalizing p ns with
  | zero => cases h
  | succ fuel ih =>
    rw [walk_succ, walkNames_append] at h
    rw [walk_succ]
    cases htrail : d.walkNames true p ns with
    | error e => simp [htrail] at h
    | ok trail =>
      cases trail with
      | done q =>
        simp only [htrail] at h
        exact ⟨q, rfl, fuel + 1, h⟩
      | link q target rest =>
        -- The walk goes on at the link, with the names that are left in front of the last ones.
        simp only [htrail] at h
        rw [← List.append_assoc] at h
        exact ih h

theorem walkNames_of_descend {d : Disk} {p : Place} (hlinks : ∀ q t, Below p q → d.item? q ≠ some (.link t))
    {names : List Text} (hdot : ['.'] ∉ names) {down below : Place} (hdescend : descend down names = some below)
    {trail : Trail} (h : d.walkNames true (p ++ down) names = .ok trail) : trail = .done (p ++ below) := by
  -- The walk is at `p ++ down` and never above `p`, so it meets no link.
  induction names generalizing down with
  | nil =>
    cases hdescend
    cases h
    rfl
  | cons n ns ih =>
    rw [List.mem_cons, not_or] at hdot
    unfold descend at hdescend
    rw [walkNames, if_neg (Ne.symm hdot.1)] at h
    split at h
    · cases h
    · by_cases hup : n = text ".."
      · rw [if_pos hup] at h hdescend
        by_cases hdown : down = []
        · rw [if_pos hdown] at hdescend
          cases hdescend
        · rw [if_neg hdown] at hdescend
          rw [List.dropLast_append_of_ne_nil hdown] at h
          exact ih hdot.2 hdescend h
      · rw [if_neg hup] at h hdescend
        rw [List.append_assoc] at h
        split at h
        · cases h
        · simp only at h
          split at h
          · rename_i target hlink
            exact absurd hlink (hlinks _ target ⟨down ++ [n], by simp, rfl⟩)
          · exact ih hdot.2 hdescend h
    · cases h

/-- **Below a folder without links names lead where they say**, if they lead anywhere. -/
theorem walk_of_descend {d : Disk} {p : Place} (hlinks : ∀ q t, Below p q → d.item? q ≠ some (.link t))
    {names : List Text} (hdot : ['.'] ∉ names) {below r : Place} (hdescend : descend [] names = some below) {fuel : Nat}
    (h : d.walk true fuel p names = .ok r) : r = p ++ below := by
  cases fuel with
  | zero => cases h
  | succ fuel =>
    rw [walk_succ] at h
    cases htrail : d.walkNames true p names with
    | error e => simp [htrail] at h
    | ok trail =>
      rw [← List.append_nil p] at htrail
      cases walkNames_of_descend hlinks hdot hdescend htrail
      rw [List.append_nil] at htrail
      simp only [htrail] at h
      exact (Except.ok.inj h).symm

end Disk
end JavaMend
