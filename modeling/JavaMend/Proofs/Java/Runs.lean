import JavaMend.Proofs.Java.Marks

/-!
# `Proofs.Java.Runs` — runs of name characters

A dotted name stands as a whole only where a run of name characters begins, a dot being one of them. So what an edit of
names does to a text is said run by run: `starts` counts the runs that look in some way, without a view of what comes
before them, and an edit at the starts of runs changes no other run (`starts_edited_le`).

## Contents
- **Runs.** `joinsName`, `runOf`, `starts`; `starts_append_gap`, `starts_run`.
- **Edits.** `edited`, `EditsStarts`; `runOf_edited`, `starts_edited_le`, `edited_eq_self`.
- **Segments.** `Parted`, `parted_segments`; `starts_mapCode`, `starts_eq_total`.
-/

namespace JavaMend.Java

open JavaMend Text

/-! ## Runs -/

/-- A character before or after which a name goes on. -/
def joinsName (c : Char) : Bool := isIdentChar c || c == '.'

/-- The run of name characters at the start of a text. -/
def runOf (t : Text) : Text := t.takeWhile joinsName

/-- How many runs of a text that follows `before` are as `A` says. -/
def starts (A : Text → Bool) : Option Char → Text → Nat
  | _,      []     => 0
  | before, c :: t =>
    (!before.any joinsName && joinsName c && A (runOf (c :: t))).toNat + starts A (some c) t

variable {A B : Text → Bool} {before before' : Option Char} {c : Char} {r s t : Text}

@[simp] theorem starts_nil (A : Text → Bool) (before : Option Char) : starts A before [] = 0 := rfl

theorem starts_cons (A : Text → Bool) (before : Option Char) (c : Char) (t : Text) :
    starts A before (c :: t) =
      (!before.any joinsName && joinsName c && A (runOf (c :: t))).toNat + starts A (some c) t := rfl

theorem runOf_cons_gap (hc : joinsName c = false) (t : Text) : runOf (c :: t) = [] := by simp [runOf, hc]

theorem runOf_cons (hc : joinsName c = true) (t : Text) : runOf (c :: t) = c :: runOf t := by simp [runOf, hc]

theorem runOf_append_gap (hc : joinsName c = false) (s t : Text) : runOf (s ++ c :: t) = runOf s := by
  induction s with
  | nil => exact runOf_cons_gap hc t
  | cons d s ih =>
    cases hd : joinsName d with
    | true => rw [List.cons_append, runOf_cons hd, runOf_cons hd, ih]
    | false => rw [List.cons_append, runOf_cons_gap hd, runOf_cons_gap hd]

theorem runOf_append_run (hr : ∀ c ∈ r, joinsName c = true) (t : Text) : runOf (r ++ t) = r ++ runOf t := by
  unfold runOf
  rw [List.takeWhile_append_of_pos hr]

/-- Of what comes before, it only matters whether it belongs to a run. -/
theorem starts_congr (h : before.any joinsName = before'.any joinsName) (t : Text) :
    starts A before t = starts A before' t := by
  cases t with
  | nil => rfl
  | cons c t => rw [starts_cons, starts_cons, h]

theorem starts_cons_gap (hc : joinsName c = false) (before : Option Char) (t : Text) :
    starts A before (c :: t) = starts A none t := by
  rw [starts_cons, hc, Bool.and_false, Bool.false_and, Bool.toNat_false, Nat.zero_add]
  exact starts_congr (by simp [hc]) t

/-- A character outside of runs parts what is before it from what is behind it. -/
theorem starts_append_gap (hc : joinsName c = false) (before : Option Char) (s t : Text) :
    starts A before (s ++ c :: t) = starts A before s + starts A none t := by
  induction s generalizing before with
  | nil => rw [List.nil_append, starts_cons_gap hc, starts_nil, Nat.zero_add]
  | cons d s ih =>
    rw [List.cons_append, starts_cons, ← List.cons_append, runOf_append_gap hc, ih, starts_cons, Nat.add_assoc]

/-- Within a run nothing starts. -/
theorem starts_inside (hr : ∀ c ∈ r, joinsName c = true) (h : before.any joinsName = true) (t : Text) :
    starts A before (r ++ t) = starts A (some '.') t := by
  induction r generalizing before with
  | nil => exact starts_congr (by rw [h]; decide) t
  | cons c r ih =>
    obtain ⟨hc, hr⟩ := List.forall_mem_cons.1 hr
    rw [List.cons_append, starts_cons, h, ih hr (by simpa using hc)]
    simp

/-- A run counts once, where it starts. -/
theorem starts_run (hne : r ≠ []) (hr : ∀ c ∈ r, joinsName c = true) (before : Option Char) (t : Text) :
    starts A before (r ++ t) = (!before.any joinsName && A (r ++ runOf t)).toNat + starts A (some '.') t := by
  cases r with
  | nil => exact absurd rfl hne
  | cons c r =>
    rw [← runOf_append_run hr]
    obtain ⟨hc, hr⟩ := List.forall_mem_cons.1 hr
    rw [List.cons_append, starts_cons, hc, Bool.and_true, starts_inside hr (by simpa using hc)]

/-! ## Edits -/

section
variable {α : Type} {find : Finder α} {write : Text → α → Text}

/-- What is written for a piece. -/
def writtenFor (write : Text → α → Text) : Piece α → Text
  | .plain c  => [c]
  | .hit m a  => write m a

/-- The text that follows `before`, with every hit edited. -/
def edited (find : Finder α) (write : Text → α → Text) (before : Option Char) (t : Text) : Text :=
  (pieces find before t).flatMap (writtenFor write)

theorem substitute_eq_edited (t : Text) : substitute find write t = edited find write none t := by
  unfold substitute edited
  congr 1

/-- Hits lie within runs, and only those at the start of a run are changed, to a part of a run again. -/
structure EditsStarts (find : Finder α) (write : Text → α → Text) : Prop where
  faithful : find.Faithful
  run : ∀ {before t m a}, find before t = some (m, a) → ∀ c ∈ m, joinsName c = true
  written : ∀ {before t m a}, find before t = some (m, a) →
    write m a = m ∨ before.any joinsName = false ∧ write m a ≠ [] ∧ ∀ c ∈ write m a, joinsName c = true

theorem edited_cons_none (h : find before (c :: t) = none) :
    edited find write before (c :: t) = c :: edited find write (some c) t := by
  unfold edited
  rw [pieces]
  simp [h, writtenFor]

theorem edited_hit (hfind : find.Faithful) {m rest : Text} {a : α} (h : find before (m ++ rest) = some (m, a)) :
    edited find write before (m ++ rest) = write m a ++ edited find write m.getLast? rest := by
  obtain ⟨c, m, rfl⟩ := List.exists_cons_of_ne_nil (hfind _ _ _ _ h).1
  unfold edited
  rw [List.cons_append] at h ⊢
  rw [pieces]
  simp [h, writtenFor]

/-- Induction along the pieces of a text: a character that is passed over, or a hit, and then what is behind it. -/
theorem pieces_induction (hfind : find.Faithful) {motive : Option Char → Text → Prop}
    (nil : ∀ before, motive before [])
    (plain : ∀ before c t, find before (c :: t) = none → motive (some c) t → motive before (c :: t))
    (hit : ∀ before m a rest, find before (m ++ rest) = some (m, a) → motive m.getLast? rest →
      motive before (m ++ rest)) (before : Option Char) (t : Text) : motive before t := by
  fun_induction pieces find before t with
  | case1 before => exact nil before
  | case2 before c t h ih => exact plain before c t h ih
  | case3 before c t m a h ih =>
    obtain ⟨hne, rest, hrest⟩ := hfind _ _ _ _ h
    have hdrop : t.drop (m.length - 1) = rest := by
      obtain ⟨d, m, rfl⟩ := List.exists_cons_of_ne_nil hne
      simp only [List.cons_append, List.cons.injEq] at hrest
      simp [← hrest.2]
    rw [hdrop] at ih
    rw [← hrest] at h ⊢
    exact hit before m a rest h ih

theorem any_getLast? (hne : r ≠ []) (hr : ∀ c ∈ r, joinsName c = true) : r.getLast?.any joinsName = true := by
  rw [List.getLast?_eq_some_getLast hne]
  exact hr _ (List.getLast_mem hne)

/-- Within a run nothing is changed. -/
theorem runOf_edited (he : EditsStarts find write) (t : Text) :
    before.any joinsName = true → runOf (edited find write before t) = runOf t := by
  refine pieces_induction he.faithful (motive := fun before t => before.any joinsName = true →
    runOf (edited find write before t) = runOf t) ?_ ?_ ?_ before t
  · intro before _
    simp [edited, pieces]
  · intro before c t h ih _
    rw [edited_cons_none h]
    cases hc : joinsName c with
    | true => rw [runOf_cons hc, runOf_cons hc, ih (by simpa using hc)]
    | false => rw [runOf_cons_gap hc, runOf_cons_gap hc]
  · intro before m a rest h ih hbefore
    have hm := he.run h
    rw [edited_hit he.faithful h]
    -- A hit that was changed would stand at the start of a run.
    rcases he.written h with hsame | ⟨hgap, -⟩
    · rw [hsame, runOf_append_run hm, runOf_append_run hm, ih (any_getLast? (he.faithful _ _ _ _ h).1 hm)]
    · rw [hgap] at hbefore
      cases hbefore

theorem toNat_start_le {a b : Bool} (h : before.any joinsName = false → a = true → b = true) :
    (!before.any joinsName && a).toNat ≤ (!before.any joinsName && b).toNat := by
  cases hbefore : before.any joinsName with
  | true => exact Nat.le_refl _
  | false =>
    cases ha : a with
    | false => exact Nat.zero_le _
    | true => simp [h hbefore ha]

/-- **An edit at the starts of runs** leaves at most as many runs as `A` says as there were as `B` says, if a run that
    is not changed is as `B` says where it is as `A` says, and one that is changed is not as `A` says. -/
theorem starts_edited_le (he : EditsStarts find write)
    (hsame : ∀ before t, (find before t = none ∨ ∃ m a, find before t = some (m, a) ∧ write m a = m) →
      before.any joinsName = false → A (runOf t) = true → B (runOf t) = true)
    (hchanged : ∀ before m a rest, find before (m ++ rest) = some (m, a) → write m a ≠ m →
      A (write m a ++ runOf rest) = false) (before : Option Char) (t : Text) :
    starts A before (edited find write before t) ≤ starts B before t := by
  refine pieces_induction he.faithful (motive := fun before t =>
    starts A before (edited find write before t) ≤ starts B before t) ?_ ?_ ?_ before t
  · intro before
    simp [edited, pieces]
  · intro before c t h ih
    rw [edited_cons_none h, starts_cons, starts_cons]
    refine Nat.add_le_add ?_ ih
    cases hc : joinsName c with
    | false => simp
    | true =>
      have hrun : runOf (c :: edited find write (some c) t) = runOf (c :: t) := by
        rw [runOf_cons hc, runOf_cons hc, runOf_edited he t (by simpa using hc)]
      rw [hrun, Bool.and_true]
      exact toNat_start_le (hsame before (c :: t) (.inl h))
  · intro before m a rest h ih
    have hm := he.run h
    have hne := (he.faithful _ _ _ _ h).1
    have hlast := any_getLast? hne hm
    -- Behind the hit its run goes on, so it does not matter which character of it came last.
    have hrest : starts A (some '.') (edited find write m.getLast? rest) ≤ starts B (some '.') rest := by
      have hdot : m.getLast?.any joinsName = (some '.').any joinsName := hlast.trans (by decide)
      rwa [← starts_congr hdot, ← starts_congr hdot]
    rw [edited_hit he.faithful h, starts_run hne hm]
    by_cases hwrite : write m a = m
    · rw [hwrite, starts_run hne hm, runOf_edited he rest hlast]
      refine Nat.add_le_add (toNat_start_le ?_) hrest
      rw [← runOf_append_run hm]
      exact hsame before (m ++ rest) (.inr ⟨m, a, h, hwrite⟩)
    · obtain ⟨-, hne', hrun'⟩ := (he.written h).resolve_left hwrite
      rw [starts_run hne' hrun', runOf_edited he rest hlast, hchanged before m a rest h hwrite]
      simp only [Bool.and_false, Bool.toNat_false, Nat.zero_add]
      exact Nat.le_trans hrest (Nat.le_add_left _ _)

/-- Where no run is as `A` says, an edit that only changes such runs has nothing to do. -/
theorem edited_eq_self (he : EditsStarts find write)
    (hchanged : ∀ before m a rest, find before (m ++ rest) = some (m, a) → write m a ≠ m →
      A (m ++ runOf rest) = true) (before : Option Char) (t : Text) :
    starts A before t = 0 → edited find write before t = t := by
  refine pieces_induction he.faithful (motive := fun before t => starts A before t = 0 →
    edited find write before t = t) ?_ ?_ ?_ before t
  · intro before _
    simp [edited, pieces]
  · intro before c t h ih hzero
    rw [starts_cons, Nat.add_eq_zero_iff] at hzero
    rw [edited_cons_none h, ih hzero.2]
  · intro before m a rest h ih hzero
    have hm := he.run h
    have hne := (he.faithful _ _ _ _ h).1
    rw [starts_run hne hm, Nat.add_eq_zero_iff] at hzero
    -- A hit that was changed would start a run as `A` says.
    have hsame : write m a = m := by
      refine Decidable.byContradiction fun hwrite => ?_
      have hgap := ((he.written h).resolve_left hwrite).1
      rw [hgap, hchanged before m a rest h hwrite] at hzero
      exact absurd hzero.1 (by decide)
    have hdot : m.getLast?.any joinsName = (some '.').any joinsName := (any_getLast? hne hm).trans (by decide)
    rw [edited_hit he.faithful h, hsame, ih ((starts_congr hdot rest).trans hzero.2)]

end

/-! ## Segments -/

/-- The text opens with a character outside of runs. -/
def OpensGap (t : Text) : Prop := ∃ c ∈ t.head?, joinsName c = false

/-- The text ends with a character outside of runs. -/
def EndsGap (t : Text) : Prop := ∃ c ∈ t.getLast?, joinsName c = false

/-- An edit at the starts of runs keeps a gap at the start. -/
theorem opensGap_substitute {α : Type} {find : Finder α} {write : Text → α → Text} (he : EditsStarts find write)
    (h : OpensGap t) : OpensGap (substitute find write t) := by
  obtain ⟨c, hhead, hc⟩ := h
  obtain ⟨t, rfl⟩ := List.head?_eq_some_iff.1 hhead
  refine ⟨c, ?_, hc⟩
  have hnone : find none (c :: t) = none := by
    cases hfind : find none (c :: t) with
    | none => rfl
    | some hit =>
      obtain ⟨m, a⟩ := hit
      obtain ⟨hne, hpre⟩ := he.faithful _ _ _ _ hfind
      obtain ⟨d, m, rfl⟩ := List.exists_cons_of_ne_nil hne
      rw [(List.cons_prefix_cons.1 hpre).1] at hfind
      have hrun := he.run hfind c List.mem_cons_self
      rw [hc] at hrun
      cases hrun
  rw [substitute_eq_edited, edited_cons_none hnone]
  rfl

/-- Texts with a gap between them have the runs of both. -/
theorem starts_append (h : EndsGap s ∨ t = [] ∨ OpensGap t) :
    starts A none (s ++ t) = starts A none s + starts A none t := by
  obtain ⟨c, hlast, hc⟩ | rfl | ⟨c, hhead, hc⟩ := h
  · obtain ⟨s', rfl⟩ := List.getLast?_eq_some_iff.1 hlast
    rw [List.append_assoc, List.singleton_append, starts_append_gap hc, starts_append_gap hc, starts_nil, Nat.add_zero]
  · rw [List.append_nil, starts_nil, Nat.add_zero]
  · obtain ⟨t', rfl⟩ := List.head?_eq_some_iff.1 hhead
    rw [starts_append_gap hc, starts_cons_gap hc]

/-- **Segments as they stand in a text**: code stands next to no code, and where a literal or a comment meets code, one
    of them has a gap there. -/
inductive Parted : List Segment → Prop
  | nil : Parted []
  | code {u : Text} {ss : List Segment} (ne_nil : u ≠ []) (next : ∀ s ∈ ss.head?, s.kind ≠ .code)
      (rest : Parted ss) : Parted (⟨.code, u⟩ :: ss)
  | lexeme {s : Segment} {ss : List Segment} (kind : s.kind ≠ .code) (opens : OpensGap s.text)
      (ends : EndsGap s.text ∨ ss = [] ∨ OpensGap (source ss)) (rest : Parted ss) : Parted (s :: ss)

theorem endsGap_concat (hc : joinsName c = false) (s : Text) : EndsGap (s ++ [c]) := ⟨c, by simp, hc⟩

/-- A block comment ends with its mark, or with the text. -/
theorem blockEnd_cases (t : Text) : (blockEnd t).2 = [] ∨ ∃ s, (blockEnd t).1 = s ++ ['/'] := by
  fun_induction blockEnd t with
  | case1 => exact .inl rfl
  | case2 => exact .inr ⟨['*'], rfl⟩
  | case3 c t _ ih =>
    refine ih.imp_right ?_
    rintro ⟨s, hs⟩
    exact ⟨c :: s, by rw [hs]; rfl⟩

/-- A literal ends with its quote, before a line end, or with the text. -/
theorem literalEnd_cases (q : Char) (t : Text) :
    (∃ s, (literalEnd q t).1 = s ++ [q]) ∨ (literalEnd q t).2 = [] ∨ ∃ u, (literalEnd q t).2 = '\n' :: u := by
  have hcons {s : Text} (w : Text) : (∃ x, s = x ++ [q]) → ∃ x, w ++ s = x ++ [q] := by
    rintro ⟨x, rfl⟩
    exact ⟨w ++ x, by rw [List.append_assoc]⟩
  fun_induction literalEnd q t with
  | case1 => exact .inr (.inl rfl)
  | case2 => exact .inr (.inl rfl)
  | case3 c t ih => exact ih.imp_left (hcons ['\\', c])
  | case4 t => exact .inr (.inr ⟨t, rfl⟩)
  | case5 c t => exact .inl ⟨[], rfl⟩
  | case6 c t _ _ _ _ ih => exact ih.imp_left (hcons [c])

/-- A lexeme stands apart from what is around it. -/
theorem parted_lexeme? {rest : Text} {l : Segment} (h : lexeme? t = some (l, rest)) :
    l.kind ≠ .code ∧ OpensGap l.text ∧ (EndsGap l.text ∨ rest = [] ∨ OpensGap rest) := by
  have hslash : joinsName '/' = false := by decide +kernel
  have hnewline : joinsName '\n' = false := by decide +kernel
  have hquote {q : Char} (hq : q = '"' ∨ q = '\'') : joinsName q = false := by
    rcases hq with rfl | rfl <;> decide +kernel
  obtain ⟨u, -, rfl, rfl⟩ | ⟨u, -, rfl, rfl⟩ | ⟨q, u, hq, -, rfl, rfl⟩ := lexeme?_eq_some h
  · refine ⟨by simp, ⟨'/', rfl, hslash⟩, .inr ((lineEnd_spec u).2.imp_right ?_)⟩
    rintro ⟨w, hw⟩
    exact ⟨'\n', by simp [← hw], hnewline⟩
  · refine ⟨by simp, ⟨'/', rfl, hslash⟩, ?_⟩
    obtain hnil | ⟨s, hs⟩ := blockEnd_cases u
    · exact .inr (.inl hnil)
    · simp only [hs]
      exact .inl (endsGap_concat hslash ('/' :: '*' :: s))
  · refine ⟨by simp, ⟨q, rfl, hquote hq⟩, ?_⟩
    obtain ⟨s, hs⟩ | hnil | ⟨w, hw⟩ := literalEnd_cases q u
    · simp only [hs]
      exact .inl (endsGap_concat (hquote hq) (q :: s))
    · exact .inr (.inl hnil)
    · exact .inr (.inr ⟨'\n', by simp [hw], hnewline⟩)

/-- **The segments of a text are parted.** -/
theorem parted_segments (t : Text) : Parted (segments t) := by
  fun_induction segments t with
  | case1 => exact .nil
  | case2 c t l rest h ih =>
    obtain ⟨hkind, hopens, hends⟩ := parted_lexeme? h
    refine .lexeme hkind hopens ?_ ih
    -- What is behind the lexeme is spelled by the segments that follow.
    rw [source_segments]
    refine hends.imp_right (Or.imp_left ?_)
    rintro rfl
    simp [segments]
  | case3 c t h ih =>
    unfold consCode
    split
    · rename_i u ss hss
      rw [hss] at ih
      cases ih with
      | code _ hnext hrest => exact .code (by simp) hnext hrest
      | lexeme hkind => exact absurd rfl hkind
    · rename_i hnot
      refine .code (by simp) ?_ ih
      intro s hs hcode
      obtain ⟨ss, hss⟩ := List.head?_eq_some_iff.1 hs
      obtain ⟨kind, u⟩ := s
      cases hcode
      exact hnot u ss hss

/-- What is written for a segment when code is edited. -/
def editedSegment (f : Text → Text) (s : Segment) : Text := if s.kind = .code then f s.text else s.text

theorem editedSegment_id (s : Segment) : editedSegment id s = s.text := by simp [editedSegment]

theorem mapCode_eq_edited (f : Text → Text) (t : Text) : mapCode f t = (segments t).flatMap (editedSegment f) := rfl

/-- An edit of code keeps the gaps at the starts of segments. -/
theorem opensGap_edited {f : Text → Text} (hf : ∀ code, OpensGap code → OpensGap (f code)) {ss : List Segment}
    (h : Parted ss) (hgap : OpensGap (source ss)) : OpensGap (ss.flatMap (editedSegment f)) := by
  have hhead {x y : Text} (hx : OpensGap x) : OpensGap (x ++ y) := by
    obtain ⟨c, hc, hgap⟩ := hx
    obtain ⟨x', rfl⟩ := List.head?_eq_some_iff.1 hc
    exact ⟨c, rfl, hgap⟩
  cases h with
  | nil => exact hgap
  | @code u ss hne _ _ =>
    obtain ⟨c, u, rfl⟩ := List.exists_cons_of_ne_nil hne
    exact hhead (hf (c :: u) hgap)
  | lexeme hkind hopens _ _ =>
    rw [List.flatMap_cons]
    refine hhead ?_
    rwa [editedSegment, if_neg hkind]

/-- **The runs of a text are those of its segments**, also after an edit of code that keeps a gap at the start. -/
theorem starts_mapCode {f : Text → Text} (hf : ∀ code, OpensGap code → OpensGap (f code)) (t : Text) :
    starts A none (mapCode f t) = total (starts A none) ((segments t).map (editedSegment f)) := by
  rw [mapCode_eq_edited]
  have hparted := parted_segments t
  generalize segments t = ss at hparted ⊢
  induction hparted with
  | nil => rfl
  | @code u ss hne hnext hrest ih =>
    rw [List.flatMap_cons, List.map_cons, total_cons, ← ih]
    -- Behind code comes a lexeme, which opens with a gap.
    refine starts_append (.inr ?_)
    cases hrest with
    | nil => exact .inl rfl
    | code => exact absurd rfl (hnext _ rfl)
    | lexeme hkind hopens hends hrest =>
      refine .inr (opensGap_edited hf (.lexeme hkind hopens hends hrest) ?_)
      obtain ⟨c, hc, hgap⟩ := hopens
      obtain ⟨x, hx⟩ := List.head?_eq_some_iff.1 hc
      exact ⟨c, by simp [source, hx], hgap⟩
  | @lexeme s ss hkind hopens hends hrest ih =>
    rw [List.flatMap_cons, List.map_cons, total_cons, ← ih]
    -- A lexeme stays as it is, and so does the gap at its end or behind it.
    refine starts_append ?_
    rw [editedSegment, if_neg hkind]
    refine hends.imp_right (Or.imp ?_ (opensGap_edited hf hrest))
    rintro rfl
    rfl

theorem starts_eq_total (t : Text) : starts A none t = total (starts A none) ((segments t).map Segment.text) := by
  have htotal := starts_mapCode (A := A) (f := id) (fun _ hgap => hgap) t
  rw [mapCode_id] at htotal
  rw [htotal]
  exact congrArg (total _) (List.map_congr_left fun s _ => editedSegment_id s)

end JavaMend.Java
