import JavaMend.Proofs.Java.Literals
import JavaMend.Proofs.Java.RunMeasure

/-!
# `Proofs.Java.ShortenedCode` — where shortening takes place

`Drops` says which characters of a text can go when its names are shortened. Here is where that happens: at qualified
names below the root packages that stand in code and do not go on from a name on their left. A text is read for that
with a mode, so the same text can begin in code or in a comment.

## Contents
- **Names.** `IsSegment`, `Qualified.InRoot`; `inRoot_of_find`.
- **Reading on.** `endOf_append`, `endOf_of_ne_nil`.
- **Shortened code.** `Shortens`; `Shortens.drops`, `Shortens.keepAll`.
- **Code runs.** `CodeBefore`; `exists_code_run`, `segments_induction`.
- **Behind a lexeme.** `finish_lexeme?`.
- **The result of shortening.** `shortens_mapCode`, `shortens_shorten`.
-/

namespace JavaMend.Java

open JavaMend Text

/-! ## Names -/

/-- A segment of a package name. -/
def IsSegment (s : Text) : Prop := ∃ c r, s = c :: r ∧ opensSegment c = true ∧ ∀ d ∈ r, inSegment d = true

/-- The name is that of a class in a package below `java` or `javax`, or in one of the two. -/
structure Qualified.InRoot (q : Qualified) : Prop where
  package : ∃ root ∈ rootPackages, ∃ segs : List Text, (∀ s ∈ segs, IsSegment s)
    ∧ q.package = root ++ segs.flatMap ('.' :: ·)
  opens : ∃ u t, q.name = u :: t ∧ isAsciiUpper u = true
  name : ∀ c ∈ q.name, inClassName c = true

theorem segments_of_packageTail? {t package name : Text} (h : packageTail? t = some (package, name)) :
    ∃ segs : List Text, (∀ s ∈ segs, IsSegment s) ∧ package = segs.flatMap ('.' :: ·) := by
  fun_induction packageTail? t generalizing package name with
  | case1 c t hopens ih =>
    obtain ⟨⟨p, n⟩, htail, heq⟩ := Option.map_eq_some_iff.1 h
    simp only [Prod.mk.injEq] at heq
    obtain ⟨rfl, rfl⟩ := heq
    obtain ⟨segs, hsegs, rfl⟩ := ih htail
    have hsegment : IsSegment (c :: t.takeWhile inSegment) :=
      ⟨c, _, rfl, hopens, List.all_eq_true.1 List.all_takeWhile⟩
    exact ⟨_ :: segs, List.forall_mem_cons.2 ⟨hsegment, hsegs⟩, rfl⟩
  | case2 c t hopens hupper =>
    obtain ⟨n, -, heq⟩ := Option.map_eq_some_iff.1 h
    simp only [Prod.mk.injEq] at heq
    obtain ⟨rfl, -⟩ := heq
    exact ⟨[], by simp, rfl⟩
  | case3 => cases h
  | case4 => cases h

/-- **A found name is below a root package**, and whether it goes on from a name is told. -/
theorem inRoot_of_find {before : Option Char} {t m : Text} {q : Qualified}
    (h : findQualified before t = some (m, q)) : q.InRoot ∧ q.joined = before.any joinsName := by
  obtain ⟨root, hroot, rest, package, name, -, htail, rfl, -⟩ := findQualified_eq_some h
  obtain ⟨segs, hsegs, rfl⟩ := segments_of_packageTail? htail
  obtain ⟨-, -, hopens, hname⟩ := packageTail?_spec htail
  refine ⟨⟨⟨root, hroot, segs, hsegs, rfl⟩, hopens, hname⟩, ?_⟩
  cases before with
  | none => rfl
  | some c => exact Bool.or_comm _ _

theorem isSegment_inPackage {s : Text} (h : IsSegment s) : ∀ c ∈ '.' :: s, inPackage c = true := by
  obtain ⟨c, r, rfl, hopens, hr⟩ := h
  intro d hd
  simp only [List.mem_cons] at hd
  rcases hd with rfl | rfl | hd
  · decide
  · exact inPackage_of_inSegment (inSegment_of_opensSegment hopens)
  · exact inPackage_of_inSegment (hr d hd)

theorem Qualified.InRoot.proper {q : Qualified} (h : q.InRoot) : q.Proper := by
  obtain ⟨root, hroot, segs, hsegs, hpackage⟩ := h.package
  refine ⟨⟨root, hroot, hpackage ▸ List.prefix_append _ _⟩, fun c hc => ?_, h.opens, h.name⟩
  rw [hpackage] at hc
  rcases List.mem_append.1 hc with hc | hc
  · exact inPackage_of_root hroot c hc
  · obtain ⟨s, hs, hc⟩ := List.mem_flatMap.1 hc
    exact isSegment_inPackage (hsegs s hs) c hc

/-! ## Reading on -/

theorem endOf_of_ne_nil (before : Option Char) {s : Text} (h : s ≠ []) : endOf before s = s.getLast? := by
  obtain ⟨u, c, rfl⟩ := (List.eq_nil_or_concat s).resolve_left h
  rw [List.concat_eq_append, endOf_concat, List.getLast?_concat]

theorem head?_append_or (x y : Text) : (x ++ y).head? = x.head?.or y.head? := by cases x <;> rfl

/-! ## Shortened code -/

/-- **Reading a text from a mode on, some of the qualified names in its code are shortened**, none of which goes on from
    a name on its left, and everything else stays. -/
inductive Shortens : Mode → Option Char → Text → Text → Prop
  | nil {m : Mode} {before : Option Char} : Shortens m before [] []
  | keep {m : Mode} {before : Option Char} (c : Char) {t s : Text} :
      Shortens (step m c t.head?).2 (some c) t s → Shortens m before (c :: t) (c :: s)
  | short {before : Option Char} {q : Qualified} {t s : Text} : q.InRoot → before.any joinsName = false →
      Shortens .code q.name.getLast? t s → Shortens .code before (q.full ++ t) (q.name ++ s)

namespace Shortens

/-- Shortening takes packages out. -/
theorem drops {m : Mode} {before : Option Char} {t s : Text} (h : Shortens m before t s) : Drops t s := by
  induction h with
  | nil => exact .nil
  | keep c _ ih => exact .keep c ih
  | short hroot _ _ ih => exact (drops_full hroot.proper).append ih

/-- A run can stay as a whole. -/
theorem keepAll {m : Mode} {before : Option Char} {x y y' : Text}
    (h : Shortens (finish m x y.head?) (endOf before x) y y') : Shortens m before (x ++ y) (x ++ y') := by
  induction x generalizing m before with
  | nil => exact h
  | cons c x ih =>
    refine .keep c (ih ?_)
    rwa [show (x.append y).head? = x.head?.or y.head? from head?_append_or x y]

theorem eq_nil {m : Mode} {before : Option Char} {s : Text} (h : Shortens m before [] s) : s = [] := by
  cases h.drops with
  | nil => rfl

/-- A line end stays. -/
theorem of_newline {m : Mode} {before : Option Char} {u s : Text} (h : Shortens m before ('\n' :: u) s) :
    ∃ s', s = '\n' :: s' ∧ Shortens (step m '\n' u.head?).2 (some '\n') u s' := by
  generalize hr : '\n' :: u = r at h
  cases h with
  | nil => cases hr
  | keep c h =>
    obtain ⟨rfl, rfl⟩ := List.cons.inj hr
    exact ⟨_, rfl, h⟩
  | @short _ q t s hroot =>
    have hmem : '\n' ∈ q.full := by
      cases hfull : q.full with
      | nil => simp [Qualified.full] at hfull
      | cons d w =>
        rw [hfull, List.cons_append] at hr
        rw [(List.cons.inj hr).1]
        exact List.mem_cons_self
    exact absurd hmem (not_mem_full hroot.proper (by decide) (by decide))

end Shortens

/-! ## Code runs -/

/-- No lexeme opens in the text as it stands in front of another one. -/
def CodeBefore : Text → Text → Prop
  | [],     _ => True
  | c :: x, y => lexeme? (c :: (x ++ y)) = none ∧ CodeBefore x y

theorem finish_of_codeBefore {x y : Text} (h : CodeBefore x y) : finish .code x y.head? = .code := by
  induction x with
  | nil => rfl
  | cons c x ih =>
    rw [finish_cons, ← head?_append_or, step_code_of_none h.1, ih h.2]

theorem codeBefore_append {x x' y : Text} : CodeBefore (x ++ x') y ↔ CodeBefore x (x' ++ y) ∧ CodeBefore x' y := by
  induction x with
  | nil => simp [CodeBefore]
  | cons c x ih => rw [List.cons_append, CodeBefore, CodeBefore, ih, List.append_assoc, and_assoc]

theorem segments_of_lexeme? {t rest : Text} {s : Segment} (h : lexeme? t = some (s, rest)) :
    segments t = s :: segments rest := by
  cases t with
  | nil => cases h
  | cons c t =>
    rw [segments]
    split
    · rename_i heq
      rw [h] at heq
      cases heq
      rfl
    · rename_i heq
      rw [h] at heq
      cases heq

theorem segments_of_code {c : Char} {t : Text} (h : lexeme? (c :: t) = none) :
    segments (c :: t) = consCode c (segments t) := by
  rw [segments]
  split
  · rename_i heq
    rw [h] at heq
    cases heq
  · rfl

/-- **A text begins with a run of code**, and behind it comes a lexeme or nothing. -/
theorem exists_code_run (t : Text) :
    ∃ x y, t = x ++ y ∧ CodeBefore x y ∧ (y = [] ∨ ∃ s rest, lexeme? y = some (s, rest))
      ∧ segments t = (if x = [] then [] else [⟨.code, x⟩]) ++ segments y := by
  induction t with
  | nil => exact ⟨[], [], rfl, trivial, .inl rfl, rfl⟩
  | cons c t ih =>
    cases h : lexeme? (c :: t) with
    | some found => exact ⟨[], c :: t, rfl, trivial, .inr ⟨found.1, found.2, h⟩, rfl⟩
    | none =>
      obtain ⟨x, y, rfl, hcode, hy, hsegments⟩ := ih
      refine ⟨c :: x, y, rfl, ⟨h, hcode⟩, hy, ?_⟩
      rw [segments_of_code h, hsegments]
      by_cases hx : x = []
      · -- What comes next is no code, so the character is a segment of its own.
        subst hx
        rcases hy with rfl | ⟨s, rest, hs⟩
        · simp [segments, consCode]
        · obtain ⟨hkind, -, -⟩ := parted_lexeme? hs
          obtain ⟨kind, u⟩ := s
          rw [segments_of_lexeme? hs]
          cases kind <;> simp_all [consCode]
      · simp [hx, consCode]

/-- Induction along a text: a run of code, then a lexeme, and so on. -/
theorem segments_induction {motive : Text → Prop} (nil : motive [])
    (run : ∀ x y, x ≠ [] → CodeBefore x y → (y = [] ∨ ∃ s rest, lexeme? y = some (s, rest)) →
      segments (x ++ y) = ⟨.code, x⟩ :: segments y → motive y → motive (x ++ y))
    (lexeme : ∀ t s rest, lexeme? t = some (s, rest) → segments t = s :: segments rest → motive rest → motive t)
    (t : Text) : motive t := by
  induction h : t.length using Nat.strongRecOn generalizing t with
  | ind n ih =>
    subst h
    obtain ⟨x, y, rfl, hcode, hy, hsegments⟩ := exists_code_run t
    by_cases hx : x = []
    · subst hx
      rcases hy with rfl | ⟨s, rest, hs⟩
      · exact nil
      · exact lexeme _ s rest hs (segments_of_lexeme? hs) (ih _ (length_lexeme?_lt hs) rest rfl)
    · have hlt : y.length < (x ++ y).length := by
        rw [List.length_append]
        have := List.length_pos_iff.2 hx
        omega
      exact run x y hx hcode hy (by simpa [hx] using hsegments) (ih _ hlt y rfl)

/-! ### Behind a lexeme -/

theorem finish_line {l : Text} (h : '\n' ∉ l) (next : Option Char) : finish .line l next = .line := by
  induction l with
  | nil => rfl
  | cons c l ih =>
    obtain ⟨hc, hl⟩ := not_or.1 (mt List.mem_cons.2 h)
    rw [finish_cons, step, if_neg (Ne.symm hc), ih hl]

theorem finish_blockEnd (t : Text) :
    finish .block (blockEnd t).1 (blockEnd t).2.head? = .code ∨ (blockEnd t).2 = [] := by
  fun_induction blockEnd t with
  | case1 => exact .inr rfl
  | case2 t => exact .inl rfl
  | case3 c t hne ih => rwa [finish_cons, ← head?_append_or, append_blockEnd, step_block hne]

theorem finish_literalEnd (q : Char) (t : Text) :
    finish (.literal q) (literalEnd q t).1 (literalEnd q t).2.head? = .code ∨ (literalEnd q t).2 = []
      ∨ finish (.literal q) (literalEnd q t).1 (literalEnd q t).2.head? = .literal q
        ∧ ∃ u, (literalEnd q t).2 = '\n' :: u := by
  fun_induction literalEnd q t with
  | case1 => exact .inr (.inl rfl)
  | case2 => exact .inr (.inl rfl)
  | case3 c t ih =>
    rw [finish_cons, finish_cons]
    simpa [step] using ih
  | case4 t => exact .inr (.inr ⟨rfl, t, rfl⟩)
  | case5 t h1 h2 hn =>
    have hb := ne_backslash_of_not h1 h2
    exact .inl (by simp [finish_cons, step, hb])
  | case6 c t h1 h2 hn hc ih =>
    have hb := ne_backslash_of_not h1 h2
    rw [finish_cons]
    simpa [step, hb, hn, hc] using ih

/-- **Behind a lexeme** the text goes on in code, if it goes on; a line end that ends the lexeme is read in it. -/
theorem finish_lexeme? {t rest : Text} {s : Segment} (h : lexeme? t = some (s, rest)) :
    finish .code s.text rest.head? = .code ∨ rest = []
      ∨ ∃ u, rest = '\n' :: u ∧ ∀ next, (step (finish .code s.text rest.head?) '\n' next).2 = .code := by
  obtain ⟨t, rfl, rfl, rfl⟩ | ⟨t, rfl, rfl, rfl⟩ | ⟨q, t, hq, rfl, rfl, rfl⟩ := lexeme?_eq_some h
  · obtain ⟨hline, hrest⟩ := lineEnd_spec t
    have hfinish (next : Option Char) : finish .code ('/' :: '/' :: (lineEnd t).1) next = .line := by
      rw [finish_cons, finish_cons]
      exact finish_line hline next
    rw [hfinish]
    refine .inr (hrest.imp_right ?_)
    rintro ⟨u, hu⟩
    exact ⟨u, hu.symm, fun next => rfl⟩
  · have hopens : finish .code ('/' :: '*' :: (blockEnd t).1) (blockEnd t).2.head? =
        finish .block (blockEnd t).1 (blockEnd t).2.head? := rfl
    rw [hopens]
    exact (finish_blockEnd t).imp_right .inl
  · rw [finish_cons, step_quote hq]
    refine (finish_literalEnd q t).imp_right (Or.imp_right ?_)
    rintro ⟨hfinish, u, hu⟩
    refine ⟨u, hu, fun next => ?_⟩
    rw [hfinish, step_newline]
    rfl

/-! ## The result of shortening -/

/-- Where a text goes on behind a lexeme, it is read as from code on. -/
theorem shortens_behind {t rest y' : Text} {s : Segment} {b : Option Char} (h : lexeme? t = some (s, rest))
    (hy : Shortens .code b rest y') : Shortens (finish .code s.text rest.head?) b rest y' := by
  rcases finish_lexeme? h with hcode | rfl | ⟨u, rfl, hnewline⟩
  · rwa [hcode]
  · rw [hy.eq_nil]
    exact .nil
  · obtain ⟨z, rfl, hz⟩ := hy.of_newline
    refine .keep '\n' ?_
    rw [hnewline]
    exact hz

section
variable {short : Qualified → Bool} (hshort : ∀ q, short q = true → q.joined = false)
include hshort

/-- A run of code is shortened, if the names that go are joined to nothing on their left. -/
theorem shortens_edited {before b : Option Char} {x y y' : Text} (hcode : CodeBefore x y)
    (hb : before.any joinsName = b.any joinsName ∨ OpensGap x) (hy : Shortens .code (endOf b x) y y') :
    Shortens .code b (x ++ y) (edited findQualified (written short) before x ++ y') := by
  induction before, x using pieces_induction faithful_findQualified generalizing b with
  | nil before => simpa [edited, pieces, endOf] using hy
  | plain before c x hnone ih =>
    rw [edited_cons_none hnone, List.cons_append]
    refine .keep c ?_
    rw [step_code_of_none hcode.1]
    exact ih hcode.2 (.inl rfl) hy
  | hit before m q rest hfind ih =>
    obtain ⟨rfl, -, hproper⟩ := findQualified_spec hfind
    obtain ⟨hroot, hjoined⟩ := inRoot_of_find hfind
    have hb : before.any joinsName = b.any joinsName := by
      refine hb.resolve_right ?_
      rintro ⟨c, hc, hgap⟩
      have hmem : c ∈ q.full := by
        cases hfull : q.full with
        | nil => simp [Qualified.full] at hfull
        | cons d r => simp_all
      rw [joinsName_full hproper c hmem] at hgap
      cases hgap
    have hlast : endOf b q.full = q.full.getLast? := endOf_of_ne_nil b (by simp [Qualified.full])
    have hname : q.full.getLast? = q.name.getLast? := by
      obtain ⟨u, n, hn, -⟩ := hproper.opens
      rw [Qualified.full, hn, List.getLast?_append_cons, List.getLast?_cons_cons]
    obtain ⟨hfull, hrest⟩ := codeBefore_append.1 hcode
    rw [endOf_append, hlast] at hy
    have hafter := ih hrest (.inl rfl) hy
    rw [edited_hit faithful_findQualified hfind, List.append_assoc, List.append_assoc]
    unfold written
    split
    · rename_i hq
      refine .short hroot ?_ (hname ▸ hafter)
      rw [← hb, ← hjoined, hshort q hq]
    · refine .keepAll ?_
      rw [finish_of_codeBefore hfull, hlast]
      exact hafter

/-- **Shortening names in the code of a text** shortens qualified names in it, read from code on. -/
theorem shortens_mapCode (t : Text) {b : Option Char} (hb : b.any joinsName = false ∨ t = [] ∨ OpensGap t) :
    Shortens .code b t (mapCode (substitute findQualified (written short)) t) := by
  induction t using segments_induction generalizing b with
  | nil => simpa [mapCode, segments] using Shortens.nil
  | run x y hne hcode hy hsegments ih =>
    have hmap : mapCode (substitute findQualified (written short)) (x ++ y) =
        edited findQualified (written short) none x ++ mapCode (substitute findQualified (written short)) y := by
      simp [mapCode, hsegments, substitute_eq_edited]
    have hgap : y = [] ∨ OpensGap y := by
      refine hy.imp_right ?_
      rintro ⟨s, rest, hs⟩
      obtain ⟨-, ⟨c, hc, hgap⟩, -⟩ := parted_lexeme? hs
      obtain ⟨r, hr⟩ := List.head?_eq_some_iff.1 hc
      exact ⟨c, by rw [← source_lexeme? hs, hr]; rfl, hgap⟩
    rw [hmap]
    refine shortens_edited hshort hcode ?_ (ih (.inr hgap))
    rcases hb with hb | hnil | ⟨c, hc, hgap⟩
    · exact .inl hb.symm
    · exact absurd (List.append_eq_nil_iff.1 hnil).1 hne
    · obtain ⟨d, x, rfl⟩ := List.exists_cons_of_ne_nil hne
      exact .inr ⟨c, hc, hgap⟩
  | lexeme t s rest hs hsegments ih =>
    obtain ⟨hkind, hopens, hends⟩ := parted_lexeme? hs
    have hmap : mapCode (substitute findQualified (written short)) t =
        s.text ++ mapCode (substitute findQualified (written short)) rest := by
      simp [mapCode, hsegments, hkind]
    have hrest := source_lexeme? hs
    rw [hmap]
    conv => lhs; rw [← hrest]
    refine .keepAll (shortens_behind hs (ih (hends.imp_left ?_)))
    rintro ⟨c, hc, hgap⟩
    rw [endOf_of_ne_nil b (lexeme?_ne_nil hs), Option.mem_def.1 hc]
    exact hgap

end

/-- **Shortening the names of a body** shortens qualified names in its code. -/
theorem shortens_shorten (bindings : Bindings) (body : Text) : Shortens .code none body (shorten bindings body).1 := by
  refine shortens_mapCode (fun q hq => ?_) body (.inl rfl)
  simp only [usable, Bool.and_eq_true, Bool.not_eq_true'] at hq
  exact hq.1.1

end JavaMend.Java
