import JavaMend.Text.Blank

/-!
# `Text` — text as a list of characters

Every edit of this library reads and writes `Text`, a list of characters; `String` is used for
messages only. The operations are the usual ones on words: trimming, splitting, joining, replacing,
and a scanner that cuts a text into the hits of a finder and the single characters between them.

## Contents
- **Ends.** `trimStart`, `trimEnd`, `trim`, `isBlankLine`.
- **Affixes.** `dropPrefix?`, `dropSuffix?` with the equations that characterise them.
- **Splitting and joining.** `splitOn`, `joinWith`; `joinWith_splitOn` and `splitOn_joinWith` say that nothing is lost.
- **Scanning.** `pieces` with `source_pieces`: the pieces of a text spell the text.
- **Length.** `byteLength`; `byteLength_append`, `length_le_byteLength`.
-/

namespace JavaMend

/-- Text is a list of characters. -/
abbrev Text := List Char

namespace Text

-- The two instances have names of their own, so that every module finds the same ones.
instance : LawfulBEq Text := List.instLawfulBEq

instance : Hashable Text := @instHashableList Char instHashableChar

/-! ## Ends -/

/-- Drop white space at the start. -/
def trimStart (t : Text) : Text := t.dropWhile isBlank

/-- Drop white space at the end. -/
def trimEnd (t : Text) : Text := (t.reverse.dropWhile isBlank).reverse

/-- Drop white space at both ends. -/
def trim (t : Text) : Text := trimEnd (trimStart t)

/-- A line of white space only. -/
def isBlankLine (t : Text) : Bool := t.all isBlank

/-! ## Affixes -/

/-- What follows `p` in a text that starts with `p`. -/
def dropPrefix? : Text → Text → Option Text
  | [],     t      => some t
  | _ :: _, []     => none
  | a :: p, b :: t => if a = b then dropPrefix? p t else none

theorem dropPrefix?_eq_some {p t r : Text} : dropPrefix? p t = some r ↔ t = p ++ r := by
  induction p generalizing t with
  | nil => simp [dropPrefix?]
  | cons a p ih =>
    cases t with
    | nil => simp [dropPrefix?]
    | cons b t =>
      by_cases h : a = b
      · simp [dropPrefix?, h, ih]
      · simp [dropPrefix?, h, Ne.symm h]

/-- What precedes `s` in a text that ends with `s`. -/
def dropSuffix? (s t : Text) : Option Text := (dropPrefix? s.reverse t.reverse).map List.reverse

theorem dropSuffix?_eq_some {s t r : Text} : dropSuffix? s t = some r ↔ t = r ++ s := by
  simp only [dropSuffix?, Option.map_eq_some_iff, dropPrefix?_eq_some]
  constructor
  · rintro ⟨u, hu, rfl⟩
    have := congrArg List.reverse hu
    simpa using this
  · rintro rfl
    exact ⟨r.reverse, by simp, by simp⟩

/-- `p` stands at the start of `t`. -/
def startsWith (p t : Text) : Bool := (dropPrefix? p t).isSome

/-- `s` stands at the end of `t`. -/
def endsWith (s t : Text) : Bool := (dropSuffix? s t).isSome

/-- `needle` stands somewhere in `t`. -/
def contains (needle : Text) : Text → Bool
  | []     => needle.isEmpty
  | c :: t => startsWith needle (c :: t) || contains needle t

/-! ## Splitting and joining -/

/-- The parts of a text between the occurrences of a separator; a text without one is its only part. -/
def splitOn (sep : Char) : Text → List Text
  | []     => [[]]
  | c :: t =>
    if c = sep then [] :: splitOn sep t
    else match splitOn sep t with
      | []           => [[c]]
      | part :: rest => (c :: part) :: rest

/-- Texts in a row with `sep` between neighbours. -/
def joinWith (sep : Text) : List Text → Text
  | []          => []
  | [t]         => t
  | t :: u :: r => t ++ sep ++ joinWith sep (u :: r)

theorem splitOn_ne_nil (sep : Char) (t : Text) : splitOn sep t ≠ [] := by
  cases t with
  | nil => simp [splitOn]
  | cons c t =>
    unfold splitOn
    split
    · simp
    · split <;> simp

theorem joinWith_cons_cons (sep : Text) (c : Char) (part : Text) (rest : List Text) :
    joinWith sep ((c :: part) :: rest) = c :: joinWith sep (part :: rest) := by
  cases rest <;> simp [joinWith]

/-- Joined parts, with a separator in front of each but the first. -/
theorem joinWith_cons_eq_flatMap (sep : Char) (part : Text) (parts : List Text) :
    joinWith [sep] (part :: parts) = part ++ parts.flatMap (sep :: ·) := by
  induction parts generalizing part with
  | nil => simp [joinWith]
  | cons next rest ih =>
    rw [joinWith, ih]
    simp

/-- Joining the parts with the separator gives the text back. -/
theorem joinWith_splitOn (sep : Char) (t : Text) : joinWith [sep] (splitOn sep t) = t := by
  induction t with
  | nil => simp [splitOn, joinWith]
  | cons c t ih =>
    have hne := splitOn_ne_nil sep t
    unfold splitOn
    by_cases h : c = sep
    · obtain ⟨p, r, hp⟩ := List.exists_cons_of_ne_nil hne
      rw [hp] at ih
      simp [h, hp, joinWith, ih]
    · obtain ⟨p, r, hp⟩ := List.exists_cons_of_ne_nil hne
      rw [hp] at ih
      simp only [h, if_false, hp]
      rw [joinWith_cons_cons, ih]

theorem mem_splitOn {sep c : Char} {t part : Text} (h : part ∈ splitOn sep t) (hc : c ∈ part) :
    c ∈ t ∧ c ≠ sep := by
  induction t generalizing part with
  | nil => simp [splitOn] at h; simp [h] at hc
  | cons d t ih =>
    unfold splitOn at h
    by_cases hd : d = sep
    · simp only [hd, if_true, List.mem_cons] at h
      rcases h with rfl | h
      · simp at hc
      · exact ⟨List.mem_cons_of_mem _ (ih h hc).1, (ih h hc).2⟩
    · simp only [hd, if_false] at h
      split at h
      · simp only [List.mem_singleton] at h
        subst h
        rw [List.mem_singleton] at hc
        exact ⟨by simp [hc], hc ▸ hd⟩
      · rename_i p r hp
        rcases List.mem_cons.1 h with rfl | h
        · rcases List.mem_cons.1 hc with rfl | hc
          · exact ⟨by simp, hd⟩
          · have hmem : p ∈ splitOn sep t := by simp [hp]
            have := ih hmem hc
            exact ⟨List.mem_cons_of_mem _ this.1, this.2⟩
        · have hmem : part ∈ splitOn sep t := by simp [hp, h]
          have := ih hmem hc
          exact ⟨List.mem_cons_of_mem _ this.1, this.2⟩

/-- A separator parts the parts before it from those after it. -/
theorem splitOn_append (sep : Char) (t u : Text) :
    splitOn sep (t ++ sep :: u) = splitOn sep t ++ splitOn sep u := by
  induction t with
  | nil => simp [splitOn]
  | cons c t ih =>
    by_cases hc : c = sep
    · simp [splitOn, hc, ih]
    · obtain ⟨p, rest, hp⟩ := List.exists_cons_of_ne_nil (splitOn_ne_nil sep t)
      simp [splitOn, hc, ih, hp]

theorem splitOn_append_sep {sep : Char} {part t : Text} (h : sep ∉ part) :
    splitOn sep (part ++ sep :: t) = part :: splitOn sep t := by
  induction part with
  | nil => simp [splitOn]
  | cons c part ih =>
    have hc : c ≠ sep := fun e => h (by simp [e])
    have hp : sep ∉ part := fun e => h (by simp [e])
    simp [splitOn, hc, ih hp]

theorem splitOn_of_not_mem {sep : Char} {part : Text} (h : sep ∉ part) : splitOn sep part = [part] := by
  induction part with
  | nil => rfl
  | cons c part ih =>
    have hc : c ≠ sep := fun e => h (by simp [e])
    have hp : sep ∉ part := fun e => h (by simp [e])
    simp [splitOn, hc, ih hp]

/-- Splitting what was joined gives the parts back. -/
theorem splitOn_joinWith {sep : Char} {parts : List Text} (hne : parts ≠ [])
    (h : ∀ p ∈ parts, sep ∉ p) : splitOn sep (joinWith [sep] parts) = parts := by
  induction parts with
  | nil => exact absurd rfl hne
  | cons p ps ih =>
    cases ps with
    | nil => simp [joinWith, splitOn_of_not_mem (h p (by simp))]
    | cons q qs =>
      have hp := h p (by simp)
      have hq : ∀ x ∈ q :: qs, sep ∉ x := fun x hx => h x (by simp [hx])
      rw [joinWith, List.append_assoc, List.singleton_append, splitOn_append_sep hp,
        ih (by simp) hq]

theorem mem_joinWith {sep : Text} {parts : List Text} {c : Char}
    (hc : c ∈ joinWith sep parts) : c ∈ sep ∨ ∃ p ∈ parts, c ∈ p := by
  induction parts with
  | nil => simp [joinWith] at hc
  | cons p ps ih =>
    cases ps with
    | nil => exact .inr ⟨p, by simp, by simpa [joinWith] using hc⟩
    | cons q qs =>
      simp only [joinWith, List.mem_append] at hc
      rcases hc with (hc | hc) | hc
      · exact .inr ⟨p, by simp, hc⟩
      · exact .inl hc
      · rcases ih hc with h | ⟨x, hx, h⟩
        · exact .inl h
        · exact .inr ⟨x, List.mem_cons_of_mem _ hx, h⟩

/-- The words between runs of white space. -/
def words : Text → List Text
  | []     => []
  | c :: t =>
    if isBlank c then words t
    else match t with
      | []     => [[c]]
      | d :: _ =>
        if isBlank d then [c] :: words t
        else match words t with
          | []           => [[c]]
          | word :: rest => (c :: word) :: rest

/-! ## Scanning -/

/-- A piece of a scanned text: a character that was passed over, or a hit with what was found in it. -/
inductive Piece (α : Type) where
  | plain (c : Char)
  | hit (text : Text) (value : α)
deriving Repr, DecidableEq

/-- The text that a piece was cut from. -/
def Piece.source {α : Type} : Piece α → Text
  | .plain c    => [c]
  | .hit text _ => text

/-- The value of a hit. -/
def Piece.value? {α : Type} : Piece α → Option α
  | .plain _   => none
  | .hit _ val => some val

/-- A finder looks at the character before a position and at the text from there on, and returns the
    text it matched with a value. -/
abbrev Finder (α : Type) := Option Char → Text → Option (Text × α)

/-- Cut a text into hits of `find`, leftmost first and without overlap, and the characters between. -/
def pieces {α : Type} (find : Finder α) (before : Option Char) : Text → List (Piece α)
  | []     => []
  | c :: t =>
    match find before (c :: t) with
    | none          => .plain c :: pieces find (some c) t
    | some (m, val) => .hit m val :: pieces find m.getLast? (t.drop (m.length - 1))
termination_by t => t.length
decreasing_by all_goals (simp only [List.length_cons, List.length_drop]; omega)

/-- A finder is faithful when what it matches is a nonempty text that stands at the position. -/
def Finder.Faithful {α : Type} (find : Finder α) : Prop :=
  ∀ before t m val, find before t = some (m, val) → m ≠ [] ∧ m <+: t

/-- The pieces of a text spell the text. -/
theorem source_pieces {α : Type} {find : Finder α} (hf : find.Faithful) (before : Option Char)
    (t : Text) : (pieces find before t).flatMap Piece.source = t := by
  fun_induction pieces find before t with
  | case1 => rfl
  | case2 before c t h ih => simp [Piece.source, ih]
  | case3 before c t m val h ih =>
    obtain ⟨hne, r, hr⟩ := hf _ _ _ _ h
    have hd : t.drop (m.length - 1) = r := by
      cases m with
      | nil => exact absurd rfl hne
      | cons d m =>
        simp only [List.cons_append, List.cons.injEq] at hr
        simp [← hr.2]
    rw [List.flatMap_cons, Piece.source, ih, hd, hr]

/-- Edit a text: each hit of `find` gives way to what `write` makes of it. -/
def substitute {α : Type} (find : Finder α) (write : Text → α → Text) (t : Text) : Text :=
  (pieces find none t).flatMap fun
    | .plain c    => [c]
    | .hit m val  => write m val

/-- What `find` hits in a text, in order. -/
def hits {α : Type} (find : Finder α) (t : Text) : List α := (pieces find none t).filterMap Piece.value?

/-- The finder of the plain occurrences of a word. -/
def findWord (word : Text) : Finder Unit := fun _ t => if startsWith word t then some (word, ()) else none

/-- Replace every occurrence of the nonempty text `old`, leftmost first, by `new`. -/
def replaceAll (old new : Text) (t : Text) : Text :=
  if old.isEmpty then t else substitute (findWord old) (fun _ _ => new) t

/-- The length of a text in the bytes of its UTF-8 form. -/
def byteLength (t : Text) : Nat := t.foldr (fun c n => c.utf8Size + n) 0

theorem byteLength_append (s t : Text) : (s ++ t).byteLength = s.byteLength + t.byteLength := by
  induction s with
  | nil => simp [byteLength]
  | cons c s ih =>
    simp only [byteLength, List.cons_append, List.foldr_cons] at ih ⊢
    omega

theorem length_le_byteLength (t : Text) : t.length ≤ t.byteLength := by
  induction t with
  | nil => exact Nat.le_refl 0
  | cons c t ih =>
    have := c.utf8Size_pos
    simp only [byteLength, List.foldr_cons, List.length_cons] at ih ⊢
    omega

end Text

/-- The text of a string. -/
abbrev text (s : String) : Text := s.toList

end JavaMend
