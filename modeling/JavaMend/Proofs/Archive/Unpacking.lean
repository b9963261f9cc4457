import JavaMend.Proofs.Archive.Saving
import JavaMend.Proofs.Disk.Lexical

/-!
# `Proofs.Archive.Unpacking` — what unpacking writes

A key is a path without idle parts, but `..` is one of its parts like any other. So unpacking writes below its folder
exactly if no key leads above its start on the way and no two lead to one place (`unpacksBelow_iff`), by the names of
the paths and on every disk, as long as no link lies below the folder; and a key that does lead up writes elsewhere
(`not_unpacksBelow_climbing`).

## Contents
- **Keys as paths.** `Key.components_text`, `Key.down?`, `Key.lexical_of_down?`.
- **Stores that stay below.** `Store.StaysBelow`, `Store.UnpacksBelow`.
- **Paths on disks.** `leads_of_locate`.
- **Runs.** `unpack_eq`; `Unpacked` with `unpacked_unpackEntry`, `unpacked_forM`, `unpacked_unpack`.
- **Below the folder.** `unpacksBelow_iff`, `staysBelow_of_not_mem`.
-/

namespace JavaMend

open Text Disk

/-! ## Keys as paths -/

namespace Key

theorem parts_ne_nil (k : Key) : segments k.text ≠ [] := by
  intro h
  refine k.ne_nil ?_
  rw [← k.isNormal, normalize, h]
  rfl

/-- The parts of a key are its segments. -/
theorem splitOn_text (k : Key) : splitOn '/' k.text = segments k.text := by
  have hjoin : joinWith ['/'] (segments k.text) = k.text := k.isNormal
  conv_lhs => rw [← hjoin]
  exact splitOn_joinWith k.parts_ne_nil fun s hs => (mem_segments hs).2.1

theorem isIdle_of_mem_segments {path part : Text} (h : part ∈ segments path) : isIdle part = false := by
  have hproper := (mem_segments h).1
  simp only [isProper, Bool.and_eq_true, Bool.not_eq_true', bne_iff_ne, ne_eq] at hproper
  simp [isIdle, hproper.1, hproper.2]

theorem components_text (k : Key) : components k.text = segments k.text := by
  unfold components
  rw [splitOn_text, List.filter_eq_self]
  intro part hpart
  simp [isIdle_of_mem_segments hpart]

theorem any_isIdle_last (k : Key) : (splitOn '/' k.text).getLast?.any isIdle = false := by
  rw [splitOn_text, Option.any_eq_false]
  intro part hpart
  simp [isIdle_of_mem_segments (List.mem_of_getLast? hpart)]

theorem isAbsolute_text (k : Key) : isAbsolute k.text = false := by
  cases htext : k.text with
  | nil => rfl
  | cons c t =>
    -- A slash at the start would make an empty part.
    have hc : c ≠ '/' := by
      rintro rfl
      have hparts := k.splitOn_text
      rw [htext, splitOn, if_pos rfl] at hparts
      have hmem : [] ∈ segments k.text := htext ▸ hparts ▸ List.mem_cons_self
      cases isIdle_of_mem_segments hmem
    simp [isAbsolute, hc]

theorem dot_not_mem_segments (k : Key) : ['.'] ∉ segments k.text := by
  intro h
  cases isIdle_of_mem_segments h

/-- Where a key leads below its start, if it stays there. -/
def down? (k : Key) : Option Place := descend [] (segments k.text)

/-- A key leads from the place of a folder as its segments do. -/
theorem lexical_joinPath (k : Key) (dir : Place) (folder : Text) :
    lexical dir (joinPath folder k.text) = resolve (lexical dir folder) (segments k.text) := by
  rw [Disk.lexical_joinPath k.isAbsolute_text, k.components_text]

theorem lexical_of_down? {k : Key} {names : List Text} (h : k.down? = some names) (dir : Place) (folder : Text) :
    lexical dir (joinPath folder k.text) = lexical dir folder ++ names := by
  have hresolve := resolve_of_descend h (lexical dir folder)
  rwa [List.append_nil, ← k.lexical_joinPath] at hresolve

end Key

/-! ## Stores that stay below -/

/-- **Every key stays below its start**, and no two lead to one place there. -/
structure Store.StaysBelow (s : Store) : Prop where
  below : ∀ e ∈ s.entries, ∃ names, names ≠ [] ∧ e.key.down? = some names
  apart : ∀ e ∈ s.entries, ∀ e' ∈ s.entries, e ≠ e' → e.key.down? ≠ e'.key.down?

/-- The place to which a path leads on a disk, name by name. -/
def Disk.Leads (d : Disk) (dir : Place) (path : Text) (p : Place) : Prop :=
  d.walk true (linkLimit + 1) (startOf dir path) (components path) = .ok p

/-- No link lies below the place. -/
def Disk.NoLinksBelow (d : Disk) (p : Place) : Prop := ∀ q t, Below p q → d.item? q ≠ some (.link t)

/-- **Unpacking stays below its folder**: by the names of the paths, and on every disk. -/
structure Store.UnpacksBelow (s : Store) : Prop where
  /-- Entries have paths below the folder. -/
  below : ∀ dir folder, ∀ e ∈ s.entries, Below (lexical dir folder) (lexical dir (joinPath folder e.key.text))
  /-- Different entries have different paths. -/
  apart : ∀ dir folder, ∀ e ∈ s.entries, ∀ e' ∈ s.entries, e ≠ e' →
    lexical dir (joinPath folder e.key.text) ≠ lexical dir (joinPath folder e'.key.text)
  /-- A file that comes to be or is changed lies below the folder, unless links from there lead elsewhere. -/
  confined : ∀ dir folder d q, ((unpack dir folder s).on d).2.file? q ≠ d.file? q →
    ∃ p, ((unpack dir folder s).on d).2.Leads dir folder p ∧ (d.NoLinksBelow p → Below p q)
  /-- In the end every entry has a file of its own there with its bytes, unless there was a device to take them. -/
  kept : ∀ dir folder d n d', (unpack dir folder s).on d = (.ok n, d') → ∀ e ∈ s.entries,
    ∃ p, d'.Leads dir folder p ∧ (d.NoLinksBelow p → ∃ q, Below p q ∧ d'.locate dir (joinPath folder e.key.text) = .ok q
      ∧ (d'.file? q = some e.content.bytes ∨ ∃ x, d.item? q = some (.device x)))

/-! ## Paths on disks -/

section
variable {d d' : Disk} {dir : Place} {folder : Text}

/-- Where an entry leads on a disk, it leads through the folder; from there, if no link is below, it leads down. -/
theorem leads_of_locate {k : Key} {names : List Text} (hdown : k.down? = some names) {q : Place}
    (h : d.locate dir (joinPath folder k.text) = .ok q) :
    ∃ p, d.Leads dir folder p ∧ (d.NoLinksBelow p → q = p ++ names) := by
  have hwalk : d.walk true (linkLimit + 1) (startOf dir folder) (components folder ++ Key.segments k.text) = .ok q := by
    rw [← startOf_joinPath k.isAbsolute_text, ← k.components_text, ← namesOf_joinPath k.isAbsolute_text _ k.any_isIdle_last]
    unfold locate follow at h
    repeat' split at h
    all_goals first | cases h | exact h
  obtain ⟨p, hp, fuel, hrest⟩ := walk_append hwalk
  exact ⟨p, hp, fun hlinks => walk_of_descend hlinks k.dot_not_mem_segments hdown hrest⟩

theorem noLinksBelow_of_grows (h : Grows d d') {p : Place} (hp : d.NoLinksBelow p) : d'.NoLinksBelow p :=
  fun q t hq hlink => hp q t hq (h.link.1 hlink)

end

/-! ## Runs -/

/-- Write the file of an entry. -/
def unpackEntry (dir : Place) (folder : Text) (e : Entry) : Action FileFault Unit := do
  makeParent dir (joinPath folder e.key.text)
  writeFile (fun _ => .notWritten (joinPath folder e.key.text)) dir (joinPath folder e.key.text) e.content.bytes

theorem unpack_eq (dir : Place) (folder : Text) (s : Store) :
    unpack dir folder s = do
      makeFolders dir folder
      forM s.entries (unpackEntry dir folder)
      return s.size := by
  unfold unpack
  generalize s.entries = es
  congr 1
  funext _
  congr 1
  induction es with
  | nil => rfl
  | cons e es ih =>
    simp only [List.forIn_cons, List.forM_cons, unpackEntry, bind_assoc, pure_bind] at ih ⊢
    rw [ih]

/-- **The files of entries were written**, and nothing else was changed but that folders came to be. -/
structure Unpacked (dir : Place) (base : Text) (es : List Entry) (d d' : Disk) : Prop extends Grows d d' where
  devices : SameDevices d d'
  changed : ∀ q, d'.file? q ≠ d.file? q → ∃ e ∈ es, d'.locate dir (joinPath base e.key.text) = .ok q

section
variable {dir : Place} {folder : Text} {es es' : List Entry} {e : Entry} {d d' d'' : Disk}

theorem unpacked_of_addsFolders (h : AddsFolders d d') (hdevices : SameDevices d d') : Unpacked dir folder es d d' :=
  ⟨h.toGrows, hdevices, fun q hq => absurd (h.file q) hq⟩

theorem Unpacked.trans (h : Unpacked dir folder es d d') (h' : Unpacked dir folder es' d' d'') :
    Unpacked dir folder (es ++ es') d d'' := by
  refine ⟨h.toGrows.trans h'.toGrows, h.devices.trans h'.devices, fun q hq => ?_⟩
  by_cases hlater : d''.file? q = d'.file? q
  · rw [hlater] at hq
    obtain ⟨e, he, hplace⟩ := h.changed q hq
    exact ⟨e, List.mem_append_left _ he, h'.toGrows.locate hplace⟩
  · obtain ⟨e, he, hplace⟩ := h'.changed q hlater
    exact ⟨e, List.mem_append_right _ he, hplace⟩

theorem Unpacked.mono (h : Unpacked dir folder es d d') (hsub : es ⊆ es') : Unpacked dir folder es' d d' := by
  refine ⟨h.toGrows, h.devices, fun q hq => ?_⟩
  obtain ⟨e, he, hplace⟩ := h.changed q hq
  exact ⟨e, hsub he, hplace⟩

theorem sameDevices_makeParent (dir : Place) (path : Text) (d : Disk) :
    SameDevices d ((makeParent dir path).on d).2 := by
  unfold makeParent
  split
  · split
    · exact fun p x => Iff.rfl
    · exact sameDevices_makeFolders dir _ d
  · exact fun p x => Iff.rfl

/-- **One entry is unpacked**: afterwards its file is there, or a device has taken the bytes. -/
theorem unpacked_unpackEntry {r : Except FileFault Unit} (h : (unpackEntry dir folder e).on d = (r, d')) :
    Unpacked dir folder [e] d d' ∧ (r = .ok () → ∃ q, d'.locate dir (joinPath folder e.key.text) = .ok q
      ∧ (d'.file? q = some e.content.bytes ∨ ∃ x, d'.item? q = some (.device x))) := by
  have hadds := addsFolders_makeParent dir (joinPath folder e.key.text) d
  have hdevices := sameDevices_makeParent dir (joinPath folder e.key.text) d
  rw [unpackEntry, Action.on_bind] at h
  generalize (makeParent dir (joinPath folder e.key.text)).on d = made at h hadds hdevices
  obtain ⟨_ | _, d₁⟩ := made
  · cases h
    exact ⟨unpacked_of_addsFolders hadds hdevices, fun h => by cases h⟩
  · simp only [writeFile, Action.on_mapFault, Action.on_change] at h
    cases hwritten : d₁.writeFile dir (joinPath folder e.key.text) e.content.bytes with
    | error fault =>
      rw [hwritten] at h
      cases h
      exact ⟨unpacked_of_addsFolders hadds hdevices, fun h => by cases h⟩
    | ok d₂ =>
      rw [hwritten] at h
      cases h
      obtain ⟨q, ⟨hplace, hdevice, rfl⟩ | hwrote⟩ := writeFile_ok hwritten
      · exact ⟨unpacked_of_addsFolders hadds hdevices, fun _ => ⟨q, hplace, .inr hdevice⟩⟩
      · have hchanged (r : Place) (hr : d₂.file? r ≠ d.file? r) : r = q :=
          by_contra fun hne => hr ((hwrote.file_of_ne hne).trans (hadds.file r))
        refine ⟨⟨hadds.toGrows.trans hwrote.toGrows, hdevices.trans (sameDevices_writeFile hwritten), fun r hr => ?_⟩,
          fun _ => ⟨q, hwrote.place, .inl hwrote.file_self⟩⟩
        cases hchanged r hr
        exact ⟨e, List.mem_singleton_self e, hwrote.place⟩

/-- **Entries are unpacked one after the other.** An entry keeps its file if no other one leads to the same place. -/
theorem unpacked_forM (hnodup : es.Nodup) {r : Except FileFault Unit}
    (h : (forM es (unpackEntry dir folder)).on d = (r, d')) :
    Unpacked dir folder es d d' ∧ (r = .ok () → ∀ e ∈ es, ∃ q, d'.locate dir (joinPath folder e.key.text) = .ok q
      ∧ ((∀ e' ∈ es, e' ≠ e → d'.locate dir (joinPath folder e'.key.text) ≠ .ok q) →
          d'.file? q = some e.content.bytes ∨ ∃ x, d.item? q = some (.device x))) := by
  induction es generalizing d with
  | nil =>
    cases h
    exact ⟨unpacked_of_addsFolders (.refl _) fun p x => Iff.rfl, fun _ e he => by cases he⟩
  | cons e es ih =>
    obtain ⟨hnot, hnodup⟩ := List.nodup_cons.1 hnodup
    rw [List.forM_cons, Action.on_bind] at h
    cases hentry : (unpackEntry dir folder e).on d with
    | mk first d₁ =>
      obtain ⟨hunpacked, hheld⟩ := unpacked_unpackEntry hentry
      rw [hentry] at h
      cases first with
      | error fault =>
        cases h
        exact ⟨hunpacked.mono (by simp), fun h => by cases h⟩
      | ok _ =>
        obtain ⟨hlater, hothers⟩ := ih hnodup h
        refine ⟨hunpacked.trans hlater, fun hok e' he' => ?_⟩
        rcases List.mem_cons.1 he' with rfl | he'
        · obtain ⟨q, hplace, hheld⟩ := hheld rfl
          refine ⟨q, hlater.toGrows.locate hplace, fun halone => ?_⟩
          -- None of the later entries leads to the place, so what is there stays there.
          have hsame : d'.file? q = d₁.file? q := by
            by_contra hq
            obtain ⟨e'', he'', hplace''⟩ := hlater.changed q hq
            exact halone e'' (List.mem_cons_of_mem _ he'') (fun heq => hnot (heq ▸ he'')) hplace''
          rw [hsame]
          exact hheld.imp_right fun ⟨x, hx⟩ => ⟨x, (hunpacked.devices q x).1 hx⟩
        · obtain ⟨q, hplace, hheld⟩ := hothers hok e' he'
          refine ⟨q, hplace, fun halone => ?_⟩
          refine (hheld fun e'' he'' => halone e'' (List.mem_cons_of_mem _ he'')).imp_right ?_
          exact fun ⟨x, hx⟩ => ⟨x, (hunpacked.devices q x).1 hx⟩

/-- **A store is unpacked**: the folder is made, and then the entries have their files. -/
theorem unpacked_unpack {s : Store} {r : Except FileFault Nat} (h : (unpack dir folder s).on d = (r, d')) :
    Unpacked dir folder s.entries d d' ∧ (∀ n, r = .ok n → ∀ e ∈ s.entries,
      ∃ q, d'.locate dir (joinPath folder e.key.text) = .ok q
        ∧ ((∀ e' ∈ s.entries, e' ≠ e → d'.locate dir (joinPath folder e'.key.text) ≠ .ok q) →
          d'.file? q = some e.content.bytes ∨ ∃ x, d.item? q = some (.device x))) := by
  have hadds : AddsFolders d ((makeFolders dir folder).on d).2 := addsFolders_makeFolders dir folder d
  have hdevices : SameDevices d ((makeFolders dir folder).on d).2 := sameDevices_makeFolders dir folder d
  rw [unpack_eq, Action.on_bind] at h
  generalize (makeFolders dir folder).on d = made at h hadds hdevices
  obtain ⟨_ | _, d₁⟩ := made
  · cases h
    exact ⟨unpacked_of_addsFolders hadds hdevices, fun n h => by cases h⟩
  · have hfirst : Unpacked dir folder [] d d₁ := unpacked_of_addsFolders hadds hdevices
    simp only [Action.on_bind] at h
    cases hrun : (forM s.entries (unpackEntry dir folder)).on d₁ with
    | mk r₂ d₂ =>
      obtain ⟨hunpacked, hheld⟩ := unpacked_forM s.nodup_keys.of_map hrun
      rw [hrun] at h
      cases r₂ with
      | error fault =>
        cases h
        exact ⟨hfirst.trans hunpacked, fun n h => by cases h⟩
      | ok _ =>
        cases h
        refine ⟨hfirst.trans hunpacked, fun n _ e he => ?_⟩
        obtain ⟨q, hplace, hkept⟩ := hheld rfl e he
        exact ⟨q, hplace, fun halone => (hkept halone).imp_right fun ⟨x, hx⟩ => ⟨x, (hdevices q x).1 hx⟩⟩

end

/-! ## Below the folder -/

/-- **Unpacking stays below its folder exactly if every key does**: if none leads above its start on the way, all lead
    below it, and no two lead to one place. -/
theorem unpacksBelow_iff (s : Store) : s.UnpacksBelow ↔ s.StaysBelow := by
  constructor
  · intro h
    have hbelow : ∀ e ∈ s.entries, ∃ names, names ≠ [] ∧ e.key.down? = some names := by
      intro e he
      refine below_resolve_iff.1 fun p => ?_
      -- With an empty path for the folder, any place can be the one that the key starts from.
      have hp := h.below p [] e he
      rwa [e.key.lexical_joinPath] at hp
    refine ⟨hbelow, fun e he e' he' hne hsame => ?_⟩
    obtain ⟨names, -, hnames⟩ := hbelow e he
    refine h.apart [] [] e he e' he' hne ?_
    rw [Key.lexical_of_down? hnames, Key.lexical_of_down? (hsame ▸ hnames)]
  · intro h
    refine ⟨fun dir folder e he => ?_, fun dir folder e he e' he' hne hsame => ?_, fun dir folder d q hq => ?_,
      fun dir folder d n d' hrun e he => ?_⟩
    · rw [e.key.lexical_joinPath]
      exact below_resolve_iff.2 (h.below e he) (lexical dir folder)
    · obtain ⟨names, -, hnames⟩ := h.below e he
      obtain ⟨names', -, hnames'⟩ := h.below e' he'
      rw [Key.lexical_of_down? hnames, Key.lexical_of_down? hnames', List.append_cancel_left_eq] at hsame
      exact h.apart e he e' he' hne (by rw [hnames, hnames', hsame])
    · obtain ⟨hunpacked, -⟩ := unpacked_unpack (r := ((unpack dir folder s).on d).1) (Prod.eta _).symm
      obtain ⟨e, he, hplace⟩ := hunpacked.changed q hq
      obtain ⟨names, hne, hnames⟩ := h.below e he
      obtain ⟨p, hp, hlinks⟩ := leads_of_locate hnames hplace
      exact ⟨p, hp, fun hno => ⟨names, hne, hlinks (noLinksBelow_of_grows hunpacked.toGrows hno)⟩⟩
    · obtain ⟨hunpacked, hheld⟩ := unpacked_unpack hrun
      obtain ⟨q, hplace, hkept⟩ := hheld n rfl e he
      obtain ⟨names, hne, hnames⟩ := h.below e he
      obtain ⟨p, hp, hlinks⟩ := leads_of_locate hnames hplace
      refine ⟨p, hp, fun hno => ?_⟩
      have hno' := noLinksBelow_of_grows hunpacked.toGrows hno
      refine ⟨q, ⟨names, hne, hlinks hno'⟩, hplace, hkept fun e' he' hne' hplace' => ?_⟩
      -- Another entry at the same place would lead to it by the same names.
      obtain ⟨names', -, hnames'⟩ := h.below e' he'
      obtain ⟨p', hp', hlinks'⟩ := leads_of_locate hnames' hplace'
      cases hp.symm.trans hp'
      have hsame : names = names' := List.append_cancel_left ((hlinks hno').symm.trans (hlinks' hno'))
      exact h.apart e he e' he' hne'.symm (by rw [hnames, hnames', hsame])

/-- A key that leads up and then down again: its file comes to be beside the folder, not in it. -/
theorem not_unpacksBelow_climbing :
    ∃ s, Store.empty.insert (text "../evil.txt") (.source (text "x")) = .ok s ∧ ¬ s.UnpacksBelow
      ∧ ((unpack [] (text "out/tree") s).on Disk.empty).2.file? [text "out", text "evil.txt"] = some (utf8 (text "x")) := by
  let k : Key := ⟨text "../evil.txt", by decide, by decide⟩
  refine ⟨Store.empty.set k (.source (text "x")), by decide +kernel, fun h => ?_, by decide +kernel⟩
  obtain ⟨names, -, heq⟩ := h.below [] (text "out/tree") ⟨k, .source (text "x")⟩ (by decide)
  have hplaces : lexical [] (joinPath (text "out/tree") k.text) = [text "out", text "evil.txt"]
      ∧ lexical [] (text "out/tree") = [text "out", text "tree"] := by decide
  rw [hplaces.1, hplaces.2] at heq
  cases heq

/-- Names without `..` are where they lead. -/
theorem descend_of_not_mem {names : List Text} (h : text ".." ∉ names) (down : Place) :
    descend down names = some (down ++ names) := by
  induction names generalizing down with
  | nil => simp [descend]
  | cons n ns ih =>
    rw [List.mem_cons, not_or] at h
    rw [descend, if_neg (Ne.symm h.1), ih h.2, List.append_assoc]
    rfl

/-- **Without `..` in their segments, keys stay below.** -/
theorem staysBelow_of_not_mem {s : Store} (h : ∀ e ∈ s.entries, text ".." ∉ Key.segments e.key.text) :
    s.StaysBelow := by
  have hdown {e : Entry} (he : e ∈ s.entries) : e.key.down? = some (Key.segments e.key.text) :=
    descend_of_not_mem (h e he) []
  refine ⟨fun e he => ⟨_, e.key.parts_ne_nil, hdown he⟩, fun e he e' he' hne hsame => hne ?_⟩
  rw [hdown he, hdown he', Option.some_inj] at hsame
  have htext : e.key.text = e'.key.text := by
    rw [← e.key.isNormal, ← e'.key.isNormal, Key.normalize, Key.normalize, hsame]
  exact List.inj_on_of_nodup_map s.nodup_keys he he' (Key.ext htext)

end JavaMend
