import JavaMend.Proofs.Disk.Parents

/-!
# `Proofs.Disk.Making` — making folders succeeds

Below a folder, names that a disk takes lead where they say. So a folder can be made there, and every folder on the way
to it, as long as nothing else is in the way (`makeFolders_clear`); and making a folder that is there already changes
nothing (`makeFolders_of_find`).

## Contents
- **Names.** `isName`.
- **Walking.** `walk_append_eq`, `walkNames_down`, `walkNames_clear`.
- **Paths.** `splitOn_joined`, `parentPath?_joined`, `parentPath?_spec`.
- **One folder.** `makeFolder_eq`.
- **Folders.** `makeFolders_of_find`, `makeFolders_clear`.
-/

namespace JavaMend
namespace Disk

open Text

/-! ## Names -/

/-- A name that a disk takes. -/
def isName (n : Text) : Bool :=
  !isIdle n && n != text ".." && !List.contains n '/' && !List.contains n '\x00' && n.byteLength ≤ nameLimit

section
variable {n : Text}

theorem not_isIdle_of_isName (h : isName n = true) : isIdle n = false := by
  simp only [isName, Bool.and_eq_true, Bool.not_eq_true'] at h
  exact h.1.1.1.1

theorem ne_up_of_isName (h : isName n = true) : n ≠ text ".." := by
  simp only [isName, Bool.and_eq_true, bne_iff_ne] at h
  exact h.1.1.1.2

theorem ne_dot_of_isName (h : isName n = true) : n ≠ ['.'] := by
  rintro rfl
  exact absurd (not_isIdle_of_isName h) (by decide)

theorem slash_not_mem_of_isName (h : isName n = true) : '/' ∉ n := by
  simp only [isName, Bool.and_eq_true, Bool.not_eq_true'] at h
  simpa using h.1.1.2

theorem null_not_mem_of_isName (h : isName n = true) : '\x00' ∉ n := by
  simp only [isName, Bool.and_eq_true, Bool.not_eq_true'] at h
  simpa using h.1.2

theorem byteLength_of_isName (h : isName n = true) : ¬ nameLimit < n.byteLength := by
  simp only [isName, Bool.and_eq_true, decide_eq_true_eq] at h
  exact Nat.not_lt.2 h.2

end

/-! ## Walking -/

/-- A name leads one folder down, unless a link is there. -/
theorem walkNames_cons {d : Disk} {p : Place} {n : Text} (hn : isName n = true) (hp : d.item? p = some .folder)
    (hlink : ∀ t, d.item? (p ++ [n]) ≠ some (.link t)) (ns : List Text) :
    d.walkNames true p (n :: ns) = d.walkNames true (p ++ [n]) ns := by
  rw [walkNames]
  simp only [hp, if_neg (ne_dot_of_isName hn), if_neg (ne_up_of_isName hn), if_neg (byteLength_of_isName hn)]

/-- **Names lead down** through folders, to what is no link. -/
theorem walkNames_down {d : Disk} {p : Place} {ns : List Text} (hnames : ∀ n ∈ ns, isName n = true)
    (hfolders : ∀ up n, up ++ [n] <+: ns → d.item? (p ++ up) = some .folder)
    (hlast : ∀ t, d.item? (p ++ ns) ≠ some (.link t)) : d.walkNames true p ns = .ok (.done (p ++ ns)) := by
  induction ns generalizing p with
  | nil => simp [walkNames]
  | cons n ns ih =>
    obtain ⟨hn, hns⟩ := List.forall_mem_cons.1 hnames
    have hbelow : ∀ up m, up ++ [m] <+: ns → d.item? (p ++ [n] ++ up) = some .folder := by
      intro up m hup
      rw [List.append_assoc]
      exact hfolders (n :: up) m (List.cons_prefix_cons.2 ⟨rfl, hup⟩)
    have hlink : ∀ t, d.item? (p ++ [n]) ≠ some (.link t) := by
      cases ns with
      | nil => exact hlast
      | cons m ms =>
        have hfolder := hbelow [] m (by simp)
        rw [List.append_nil] at hfolder
        simp [hfolder]
    have hrest := ih hns hbelow (by simpa using hlast)
    rw [walkNames_cons hn (by simpa using hfolders [] n (by simp)) hlink, hrest, List.append_assoc]
    rfl

/-- **Folders can be made** by the names below a place: nothing is there but folders. -/
structure ClearWay (d : Disk) (p : Place) (ns : List Text) : Prop where
  names : ∀ n ∈ ns, isName n = true
  start : d.item? p = some .folder
  clear : ∀ up, up <+: ns → d.item? (p ++ up) = none ∨ d.item? (p ++ up) = some .folder

theorem ClearWay.of_prefix {d : Disk} {p : Place} {ns up : List Text} (h : ClearWay d p ns) (hup : up <+: ns) :
    ClearWay d p up :=
  ⟨fun n hn => h.names n (hup.subset hn), h.start, fun _ h' => h.clear _ (h'.trans hup)⟩

/-- On a clear way names lead down through folders, or they end where nothing is. -/
theorem walkNames_clear {d : Disk} {p : Place} {ns : List Text} (h : ClearWay d p ns) :
    (d.walkNames true p ns = .ok (.done (p ++ ns)) ∧ ∀ up n, up ++ [n] <+: ns → d.item? (p ++ up) = some .folder)
      ∨ d.walkNames true p ns = .error .missing := by
  induction ns generalizing p with
  | nil => exact .inl ⟨by simp [walkNames], by simp⟩
  | cons n ns ih =>
    obtain ⟨hn, hns⟩ := List.forall_mem_cons.1 h.names
    have hfirst := h.clear [n] (by simp)
    have hlink : ∀ t, d.item? (p ++ [n]) ≠ some (.link t) := by
      rcases hfirst with h | h <;> simp [h]
    rw [walkNames_cons hn h.start hlink]
    rcases hfirst with hnone | hfolder
    · cases ns with
      | nil =>
        refine .inl ⟨by simp [walkNames], fun up m hup => ?_⟩
        obtain rfl : up = [] := by simpa using hup.length_le
        simpa using h.start
      | cons m ms => exact .inr (by simp [walkNames, hnone])
    · have hrest := ih ⟨hns, hfolder, fun up hup => by
        rw [List.append_assoc]
        exact h.clear (n :: up) (List.cons_prefix_cons.2 ⟨rfl, hup⟩)⟩
      rw [List.append_assoc] at hrest
      rcases hrest with ⟨hwalk, hfolders⟩ | hmissing
      · refine .inl ⟨hwalk, fun up m hup => ?_⟩
        cases up with
        | nil => simpa using h.start
        | cons k up =>
          obtain ⟨rfl, hbelow⟩ := List.cons_prefix_cons.1 hup
          simpa using hfolders up m hbelow
      · exact .inr hmissing

/-! ## One folder -/

section
variable {d : Disk} {dir : Place} {path : Text} {p : Place}

/-- The checks on a path are passed, and its last part names the folder. -/
theorem makeFolder_eq (h : Followable path) : d.makeFolder dir path =
    match ((splitOn '/' path).rdropWhile List.isEmpty).getLast? with
    | none      => .error .taken
    | some name =>
      match d.walk true (linkLimit + 1) (startOf dir path)
        (((splitOn '/' path).rdropWhile List.isEmpty).dropLast.filter fun c => !isIdle c) with
      | .error e => .error e
      | .ok up   =>
        match d.item? up with
        | none         => .error .missing
        | some .folder =>
          if name = ['.'] ∨ name = text ".." then .error .taken
          else if nameLimit < byteLength name then .error .tooLong
          else if (d.item? (up ++ [name])).isSome then .error .taken
          else .ok (d.put (up ++ [name]) .folder)
        | some _       => .error .notFolder := by
  have hparts : ((splitOn '/' path).reverse.dropWhile List.isEmpty).reverse =
      (splitOn '/' path).rdropWhile List.isEmpty := rfl
  unfold makeFolder
  simp only [List.isEmpty_iff, h.ne_nil, h.noNull, Nat.not_le.2 h.short, if_false, hparts]
  cases hname : ((splitOn '/' path).rdropWhile List.isEmpty).getLast? with
  | none => rfl
  | some name =>
    simp only [bind, Except.bind, pure, Except.pure]
    cases hwalk : d.walk true (linkLimit + 1) (startOf dir path)
        (((splitOn '/' path).rdropWhile List.isEmpty).dropLast.filter fun c => !isIdle c) with
    | error e => rfl
    | ok up =>
      rcases hitem : d.item? up with _ | (_ | _ | _ | _) <;> simp [hitem, throw, throwThe, MonadExceptOf.throw]

theorem filter_rdropWhile_isEmpty (parts : List Text) :
    (parts.filter fun c => !isIdle c) = (parts.rdropWhile List.isEmpty).filter fun c => !isIdle c := by
  induction parts using List.reverseRecOn with
  | nil => rfl
  | append_singleton parts p ih =>
    by_cases hp : List.isEmpty p = true
    · rw [List.rdropWhile_concat_pos _ _ _ hp, ← ih]
      simp [isIdle, hp]
    · rw [List.rdropWhile_concat_neg _ _ _ hp]

/-- Where a folder is already, none is made, and not for want of a folder on the way to it. -/
theorem makeFolder_of_find (h : d.find dir path = .ok (p, .folder)) :
    ∃ e, d.makeFolder dir path = .error e ∧ e ≠ .missing := by
  obtain ⟨hpath, hwalk, hfolder⟩ := find_folder_iff.1 h
  rw [makeFolder_eq hpath]
  have hparts : components path = ((splitOn '/' path).rdropWhile List.isEmpty).filter fun c => !isIdle c :=
    filter_rdropWhile_isEmpty (splitOn '/' path)
  have hlast := List.rdropWhile_last_not List.isEmpty (splitOn '/' path)
  generalize (splitOn '/' path).rdropWhile List.isEmpty = parts at hparts hlast
  rcases List.eq_nil_or_concat' parts with rfl | ⟨init, name, rfl⟩
  · exact ⟨.taken, rfl, by simp⟩
  · simp only [List.getLast?_concat, List.dropLast_concat]
    rw [List.filter_append, List.filter_singleton] at hparts
    by_cases hdot : name = ['.']
    · -- The names before the dot are all names of the path.
      have hidle : isIdle name = true := by simp [hdot, isIdle]
      rw [hparts, hidle] at hwalk
      rw [show d.walk true (linkLimit + 1) (startOf dir path) (init.filter fun c => !isIdle c) = .ok p by simpa using hwalk]
      simp [hfolder, hdot]
    · have hname : isIdle name = false := by simpa [isIdle, hdot] using hlast (by simp)
      rw [hparts, hname] at hwalk
      obtain ⟨q, hq, fuel, hrest⟩ := walk_append hwalk
      simp only [hq, hdot, false_or]
      cases fuel with
      | zero => cases hrest
      | succ fuel =>
        rw [walk_succ, Bool.not_false, cond_true, walkNames, if_neg hdot] at hrest
        split
        · rename_i hitem
          simp [hitem] at hrest
        · rename_i hitem
          simp only [hitem] at hrest
          by_cases hup : name = text ".."
          · exact ⟨.taken, if_pos hup, by simp⟩
          · rw [if_neg hup] at hrest ⊢
            by_cases hlong : nameLimit < byteLength name
            · exact ⟨.tooLong, if_pos hlong, by simp⟩
            · rw [if_neg hlong] at hrest ⊢
              refine ⟨.taken, if_pos ?_, by simp⟩
              -- With nothing under the name, that is where the path would lead.
              by_contra hnone
              rw [Bool.not_eq_true, Option.isSome_eq_false_iff, Option.isNone_iff_eq_none] at hnone
              simp only [hnone, walkNames, Except.ok.injEq] at hrest
              simp [← hrest, hnone] at hfolder
        · exact ⟨.notFolder, rfl, by simp⟩

/-- **A folder is made** under its last name, where the names before it lead. -/
theorem makeFolder_names {ns : List Text} {n : Text} (hpath : Followable path)
    (hlast : (splitOn '/' path).getLast?.any isIdle = false) (hnames : components path = ns ++ [n])
    (hn : isName n = true) : d.makeFolder dir path =
      match d.walk true (linkLimit + 1) (startOf dir path) ns with
      | .error e => .error e
      | .ok up   =>
        match d.item? up with
        | none         => .error .missing
        | some .folder =>
          if (d.item? (up ++ [n])).isSome then .error .taken else .ok (d.put (up ++ [n]) .folder)
        | some _       => .error .notFolder := by
  rw [makeFolder_eq hpath]
  unfold components at hnames
  rcases List.eq_nil_or_concat' (splitOn '/' path) with hnil | ⟨init, last, hparts⟩
  · exact absurd hnil (splitOn_ne_nil '/' path)
  · rw [hparts] at hlast hnames ⊢
    have hname : isIdle last = false := by simpa using hlast
    have hfull : ¬ List.isEmpty last = true := by
      simp only [isIdle, Bool.or_eq_false_iff] at hname
      simp [hname.1]
    rw [List.rdropWhile_concat_neg _ _ _ hfull]
    rw [List.filter_append, List.filter_singleton, hname] at hnames
    obtain ⟨hinit, rfl⟩ : (init.filter fun c => !isIdle c) = ns ∧ last = n := by simpa using hnames
    rw [List.getLast?_concat, List.dropLast_concat, hinit]
    simp only [ne_dot_of_isName hn, ne_up_of_isName hn, byteLength_of_isName hn, or_self, if_false]

end

/-! ## Folders -/

section
variable {d d' : Disk} {dir : Place} {path : Text} {p : Place}

theorem leadsToFolder_of_find (h : d.find dir path = .ok (p, .folder)) : d.leadsToFolder dir path = true := by
  simp [leadsToFolder, find?, h, Except.toOption]

theorem makeFoldersSteps_of_find (h : d.find dir path = .ok (p, .folder)) (fuel : Nat) :
    (makeFoldersSteps dir fuel path).on d = (.ok (), d) := by
  cases fuel with
  | zero => rfl
  | succ fuel =>
    obtain ⟨e, hfault, hne⟩ := makeFolder_of_find h
    unfold makeFoldersSteps
    split
    · rfl
    · simp only [Action.on_bind, Action.on_get, hfault]
      cases e <;> first | exact absurd rfl hne | simp [leadsToFolder_of_find h]

/-- **Making a folder that is there changes nothing.** -/
theorem makeFolders_of_find (h : d.find dir path = .ok (p, .folder)) : (makeFolders dir path).on d = (.ok (), d) :=
  makeFoldersSteps_of_find h (path.length + 1)

/-- **The path leads to a place** and on by the given names, the last of which is its last part. -/
structure Reaches (d : Disk) (dir : Place) (path : Text) (p : Place) (ns : List Text) : Prop where
  followable : Followable path
  names : ∃ base, components path = base ++ ns ∧ d.walk true (linkLimit + 1) (startOf dir path) base = .ok p
  last : ns ≠ [] → (splitOn '/' path).getLast?.any isIdle = false

theorem Reaches.grows {ns : List Text} (h : Reaches d dir path p ns) (hgrows : Grows d d') : Reaches d' dir path p ns :=
  ⟨h.followable, h.names.imp fun _ hbase => ⟨hbase.1, hgrows.walk hbase.2⟩, h.last⟩

/-- The parent leads to the place and on by all names but the last, unless it is empty. -/
theorem Reaches.parent {ns : List Text} {n : Text} (h : Reaches d dir path p (ns ++ [n])) :
    ∃ up, parentPath? path = some up ∧ up.length < path.length ∧ (up = [] ∧ ns = [] ∨ up ≠ [] ∧ Reaches d dir up p ns) := by
  obtain ⟨base, hnames, hbase⟩ := h.names
  have hne : components path ≠ [] := by simp [hnames]
  obtain ⟨up, hup⟩ := exists_parentPath? hne
  obtain ⟨hopens, hcomponents, hlast⟩ := parentPath?_spec hup
  rw [hnames, ← List.append_assoc, List.dropLast_concat] at hcomponents
  refine ⟨up, hup, ?_, ?_⟩
  · refine Nat.lt_of_le_of_ne hopens.length_le fun hlength => ?_
    rw [hopens.eq_of_length hlength, hnames] at hcomponents
    simp at hcomponents
  · by_cases hnil : up = []
    · subst hnil
      have : base ++ ns = [] := hcomponents.symm
      exact .inl ⟨rfl, (List.append_eq_nil_iff.1 this).2⟩
    · refine .inr ⟨hnil, h.followable.of_prefix hopens hnil, ⟨base, hcomponents, ?_⟩, fun hne => hlast ?_⟩
      · rwa [startOf, isAbsolute_of_prefix hopens hnil]
      · simp [hcomponents, hne]

theorem Reaches.find {ns : List Text} (h : Reaches d dir path p ns) (hnames : ∀ n ∈ ns, isName n = true)
    (hfolders : ∀ up, up <+: ns → d.item? (p ++ up) = some .folder) :
    d.find dir path = .ok (p ++ ns, .folder) := by
  obtain ⟨base, hparts, hbase⟩ := h.names
  have hdown : d.walkNames true p ns = .ok (.done (p ++ ns)) :=
    walkNames_down hnames (fun up n hup => hfolders up ((List.prefix_append up [n]).trans hup))
      (by simp [hfolders ns List.prefix_rfl])
  refine find_folder_iff.2 ⟨h.followable, ?_, hfolders ns List.prefix_rfl⟩
  rw [hparts]
  exact walk_append_eq (r := .ok (p ++ ns)) hbase hdown

/-- **Folders lead down from a place**, wherever the names lead; nothing else is changed. -/
structure LeadsDown (p : Place) (ns : List Text) (d d' : Disk) : Prop where
  folder : ∀ up, up <+: ns → d'.item? (p ++ up) = some .folder
  other : ∀ q, (∀ up, up <+: ns → q ≠ p ++ up) → d'.item? q = d.item? q

theorem LeadsDown.nil (h : d.item? p = some .folder) : LeadsDown p [] d d := by
  refine ⟨fun up hup => ?_, fun _ _ => rfl⟩
  simpa [List.prefix_nil.1 hup] using h

theorem LeadsDown.grows {ns : List Text} (h : LeadsDown p ns d d') (hclear : ClearWay d p ns) : Grows d d' := by
  constructor
  · intro q hq
    by_cases hway : ∃ up, up <+: ns ∧ q = p ++ up
    · obtain ⟨up, hup, rfl⟩ := hway
      exact h.folder up hup
    · rw [h.other q fun up hup heq => hway ⟨up, hup, heq⟩, hq]
  · intro q t
    by_cases hway : ∃ up, up <+: ns ∧ q = p ++ up
    · obtain ⟨up, hup, rfl⟩ := hway
      rw [h.folder up hup]
      rcases hclear.clear up hup with hitem | hitem <;> simp [hitem]
    · rw [h.other q fun up hup heq => hway ⟨up, hup, heq⟩]

/-- A folder more leads further down. -/
theorem LeadsDown.snoc {ns : List Text} {n : Text} (h : LeadsDown p ns d d') :
    LeadsDown p (ns ++ [n]) d (d'.put (p ++ ns ++ [n]) .folder) := by
  constructor
  · intro up hup
    rcases List.prefix_concat_iff.1 hup with rfl | hup
    · rw [← List.append_assoc, item?_put_self (by simp)]
    · rw [item?_put_of_ne, h.folder up hup]
      intro heq
      have hlength := hup.length_le
      have := congrArg List.length heq
      simp at this
      omega
  · intro q hq
    have hne : q ≠ p ++ ns ++ [n] := by simpa using hq (ns ++ [n]) List.prefix_rfl
    rw [item?_put_of_ne hne]
    exact h.other q fun up hup => hq up (hup.trans (List.prefix_append ns [n]))

/-- Where folders lead down, a further one is there, or it can be made. -/
theorem makeFolder_leadsDown {ns : List Text} {n : Text} (hpath : Reaches d' dir path p (ns ++ [n]))
    (hclear : ClearWay d p (ns ++ [n])) (h : LeadsDown p ns d d') :
    (∃ d'', d'.makeFolder dir path = .ok d'' ∧ LeadsDown p (ns ++ [n]) d d'')
      ∨ d'.makeFolder dir path = .error .taken ∧ d'.leadsToFolder dir path = true ∧ LeadsDown p (ns ++ [n]) d d' := by
  obtain ⟨base, hparts, hbase⟩ := hpath.names
  have hns : ∀ m ∈ ns, isName m = true := fun m hm => hclear.names m (List.mem_append_left _ hm)
  have hwalk : d'.walk true (linkLimit + 1) (startOf dir path) (base ++ ns) = .ok (p ++ ns) :=
    walk_append_eq (r := .ok (p ++ ns)) hbase <| walkNames_down hns
      (fun up m hup => h.folder up ((List.prefix_append up [m]).trans hup)) (by simp [h.folder ns List.prefix_rfl])
  have hsame : d'.item? (p ++ ns ++ [n]) = d.item? (p ++ ns ++ [n]) := by
    refine h.other _ fun up hup heq => ?_
    have hlength := congrArg List.length heq
    have hle := hup.length_le
    simp only [List.length_append, List.length_singleton] at hlength
    omega
  rw [← List.append_assoc] at hparts
  rw [makeFolder_names hpath.followable (hpath.last (by simp)) hparts (hclear.names n (by simp)), hwalk]
  simp only [h.folder ns List.prefix_rfl]
  have hitem := hclear.clear (ns ++ [n]) List.prefix_rfl
  rw [← List.append_assoc, ← hsame] at hitem
  rcases hitem with hnone | hfolder
  · rw [hnone]
    exact .inl ⟨_, rfl, h.snoc⟩
  · have hfolders : ∀ up, up <+: ns ++ [n] → d'.item? (p ++ up) = some .folder := by
      intro up hup
      rcases List.prefix_concat_iff.1 hup with rfl | hup
      · rw [← List.append_assoc, hfolder]
      · exact h.folder up hup
    rw [hfolder]
    exact .inr ⟨rfl, leadsToFolder_of_find (hpath.find hclear.names hfolders), hfolders,
      fun q hq => h.other q fun up hup => hq up (hup.trans (List.prefix_append ns [n]))⟩

/-- Folders lead down already, or one on the way is missing. -/
theorem leadsDown_or_missing {ns : List Text} {n : Text} (hpath : Reaches d dir path p (ns ++ [n]))
    (hclear : ClearWay d p (ns ++ [n])) : LeadsDown p ns d d ∨ d.makeFolder dir path = .error .missing := by
  obtain ⟨base, hparts, hbase⟩ := hpath.names
  have hns := hclear.of_prefix (List.prefix_append ns [n])
  rw [← List.append_assoc] at hparts
  rw [makeFolder_names hpath.followable (hpath.last (by simp)) hparts (hclear.names n (by simp))]
  rcases walkNames_clear hns with ⟨hwalk, hfolders⟩ | hmissing
  · rw [walk_append_eq (r := .ok (p ++ ns)) hbase hwalk]
    rcases hns.clear ns List.prefix_rfl with hnone | hfolder
    · exact .inr (by simp [hnone])
    · refine .inl ⟨fun up hup => ?_, fun _ _ => rfl⟩
      obtain ⟨rest, rfl⟩ := hup
      cases rest with
      | nil => simpa using hfolder
      | cons m rest => exact hfolders up m ⟨rest, by simp⟩
  · exact .inr (by rw [walk_append_eq (r := .error .missing) hbase hmissing])

theorem makeFoldersSteps_clear {ns : List Text} (hpath : Reaches d dir path p ns) (hclear : ClearWay d p ns) {fuel : Nat}
    (hfuel : path.length < fuel) : ∃ d', (makeFoldersSteps dir fuel path).on d = (.ok (), d') ∧ LeadsDown p ns d d' := by
  induction ns using List.reverseRecOn generalizing path fuel with
  | nil =>
    have hdown : LeadsDown p [] d d := .nil hclear.start
    exact ⟨d, makeFoldersSteps_of_find (hpath.find (by simp) hdown.folder) fuel, hdown⟩
  | append_singleton ns n ih =>
    obtain _ | fuel := fuel
    · exact absurd hfuel (Nat.not_lt_zero _)
    obtain ⟨up, hup, hshorter, hparent⟩ := hpath.parent
    unfold makeFoldersSteps
    rw [if_neg (by simpa using hpath.followable.ne_nil)]
    simp only [Action.on_bind, Action.on_get]
    rcases leadsDown_or_missing hpath hclear with hdown | hmissing
    · rcases makeFolder_leadsDown hpath hclear hdown with ⟨d', hmade, hdown'⟩ | ⟨htaken, hfolder, hdown'⟩
      · exact ⟨d', by simp [hmade], hdown'⟩
      · exact ⟨d, by simp [htaken, hfolder, Action.on_bind], hdown'⟩
    · have hfirst : ∃ d', (makeFoldersSteps dir fuel up).on d = (.ok (), d') ∧ LeadsDown p ns d d' := by
        rcases hparent with ⟨rfl, rfl⟩ | ⟨-, hparent⟩
        · exact ⟨d, by cases fuel <;> simp [makeFoldersSteps], .nil hclear.start⟩
        · exact ih hparent (hclear.of_prefix (List.prefix_append ns [n])) (by omega)
      obtain ⟨d₁, hrun, hdown⟩ := hfirst
      have hgrows := hdown.grows (hclear.of_prefix (List.prefix_append ns [n]))
      simp only [hmissing, hup, Action.on_bind, hrun, ensureFolder, Action.on_get]
      rcases makeFolder_leadsDown (hpath.grows hgrows) hclear hdown with ⟨d', hmade, hdown'⟩ | ⟨htaken, hfolder, hdown'⟩
      · exact ⟨d', by simp [hmade], hdown'⟩
      · exact ⟨d₁, by simp [htaken, hfolder, Action.on_bind], hdown'⟩

/-- **Folders are made** down to where the path leads. -/
theorem makeFolders_clear {ns : List Text} (hpath : Reaches d dir path p ns) (hclear : ClearWay d p ns) :
    ∃ d', (makeFolders dir path).on d = (.ok (), d') ∧ LeadsDown p ns d d' :=
  makeFoldersSteps_clear hpath hclear (Nat.lt_succ_self _)

/-! ## Files -/

theorem prefix_of_concat {up ns : List Text} {m n : Text} (h : up ++ [m] <+: ns ++ [n]) : up <+: ns :=
  List.prefix_of_prefix_length_le ((List.prefix_append up [m]).trans h) (List.prefix_append ns [n])
    (by simpa using h.length_le)

/-- **A file is written** below folders, where nothing is. -/
theorem writeFile_clear {ns : List Text} {n : Text} (hpath : Reaches d dir path p (ns ++ [n]))
    (hnames : ∀ m ∈ ns ++ [n], isName m = true) (hfolders : ∀ up, up <+: ns → d.item? (p ++ up) = some .folder)
    (hnone : d.item? (p ++ (ns ++ [n])) = none) (data : Bytes) :
    d.writeFile dir path data = .ok (d.put (p ++ (ns ++ [n])) (.file data false)) := by
  obtain ⟨base, hparts, hbase⟩ := hpath.names
  have hdown : d.walkNames true p (ns ++ [n]) = .ok (.done (p ++ (ns ++ [n]))) :=
    walkNames_down hnames (fun up m hup => hfolders up (prefix_of_concat hup)) (by simp [hnone])
  have hplace : d.locate dir path = .ok (p ++ (ns ++ [n])) := by
    rw [locate_eq_walk hpath.followable, namesOf, hpath.last (by simp), hparts]
    simpa using walk_append_eq (r := .ok (p ++ (ns ++ [n]))) hbase hdown
  have hparent : (p ++ (ns ++ [n])).dropLast = p ++ ns := by
    rw [← List.append_assoc, List.dropLast_concat]
  rw [writeFile_eq hplace, writeAt, hnone, hparent, hfolders ns List.prefix_rfl]

end

end Disk
end JavaMend
