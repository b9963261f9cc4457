import JavaMend.Java.Qualified

/-!
# `Proofs.Java.Finding` — what the finder of qualified names finds

A found name is spelled by its package, a dot and its class name; the package is written in the characters of package
segments, and the class name opens with an upper-case letter.

## Contents
- **Names.** `inPackage`, `Qualified.Proper`.
- **The finder.** `longestName?_spec`, `packageTail?_spec`; `findQualified_eq_some`, `findQualified_spec`.
-/

namespace JavaMend.Java

open JavaMend Text

/-! ## Names -/

/-- A character that can stand in a package name. -/
def inPackage (c : Char) : Bool := inSegment c || c == '.'

/-- The name is made as the name of a class in a package below a root package. -/
structure Qualified.Proper (q : Qualified) : Prop where
  below : ∃ root ∈ rootPackages, root <+: q.package
  package : ∀ c ∈ q.package, inPackage c = true
  opens : ∃ u t, q.name = u :: t ∧ isAsciiUpper u = true
  name : ∀ c ∈ q.name, inClassName c = true

theorem inPackage_of_inSegment {c : Char} (h : inSegment c = true) : inPackage c = true := by simp [inPackage, h]

theorem inSegment_of_opensSegment {c : Char} (h : opensSegment c = true) : inSegment c = true := by
  simp only [opensSegment, Bool.or_eq_true] at h
  rcases h with h | h <;> simp [inSegment, h]

theorem inClassName_of_upper {c : Char} (h : isAsciiUpper c = true) : inClassName c = true := by
  simp [inClassName, h]

theorem inClassName_of_inSegment {c : Char} (h : inSegment c = true) : inClassName c = true := by
  simp only [inSegment, Bool.or_eq_true] at h
  rcases h with (h | h) | h <;> simp [inClassName, h]

theorem not_isBlank_of_inClassName {c : Char} (hc : inClassName c = true) : isBlank c = false := by
  simp only [inClassName, isAsciiUpper, isAsciiLower, isAsciiDigit, Bool.or_eq_true, Bool.and_eq_true,
    decide_eq_true_eq, beq_iff_eq] at hc
  rcases hc with (((hc | hc) | hc) | rfl) | rfl
  · simp [isBlank]
    omega
  · simp [isBlank]
    omega
  · simp [isBlank]
    omega
  · decide
  · decide

/-! ## The finder -/

/-- The longest name is a nonempty part at the start. -/
theorem longestName?_spec {after : Option Char} {r name : Text} (h : longestName? after r = some name) :
    name ≠ [] ∧ name <+: r.reverse := by
  induction r generalizing after with
  | nil => simp [longestName?] at h
  | cons c r ih =>
    unfold longestName? at h
    split at h
    · cases h
      exact ⟨by simp, List.prefix_rfl⟩
    · obtain ⟨hne, hpre⟩ := ih h
      rw [List.reverse_cons]
      exact ⟨hne, hpre.trans (List.prefix_append _ _)⟩

/-- **A package tail** is spelled by its segments and its class name. -/
theorem packageTail?_spec {t package name : Text} (h : packageTail? t = some (package, name)) :
    package ++ '.' :: name <+: t ∧ (∀ c ∈ package, inPackage c = true)
      ∧ (∃ u n, name = u :: n ∧ isAsciiUpper u = true) ∧ ∀ c ∈ name, inClassName c = true := by
  fun_induction packageTail? t generalizing package name with
  | case1 c t hopens ih =>
    obtain ⟨⟨p, n⟩, htail, heq⟩ := Option.map_eq_some_iff.1 h
    simp only [Prod.mk.injEq] at heq
    obtain ⟨rfl, rfl⟩ := heq
    obtain ⟨⟨rest, hrest⟩, hp, hn⟩ := ih htail
    refine ⟨⟨rest, ?_⟩, ?_, hn⟩
    · conv => rhs; rw [← List.takeWhile_append_dropWhile (p := inSegment) (l := t), ← hrest]
      simp
    · have hsegment := List.all_eq_true.1 (List.all_takeWhile (p := inSegment) (l := t))
      intro d hd
      simp only [List.cons_append, List.mem_cons, List.mem_append] at hd
      rcases hd with rfl | rfl | hd | hd
      · decide
      · exact inPackage_of_inSegment (inSegment_of_opensSegment hopens)
      · exact inPackage_of_inSegment (hsegment d hd)
      · exact hp d hd
  | case2 c t hopens hupper =>
    obtain ⟨n, hlongest, heq⟩ := Option.map_eq_some_iff.1 h
    simp only [Prod.mk.injEq] at heq
    obtain ⟨rfl, rfl⟩ := heq
    obtain ⟨hne, hpre⟩ := longestName?_spec hlongest
    rw [List.reverse_reverse] at hpre
    have hwhole : c :: t.takeWhile inClassName <+: c :: t := by simp [List.takeWhile_prefix]
    have hclass : ∀ d ∈ c :: t.takeWhile inClassName, inClassName d = true := by
      intro d hd
      rcases List.mem_cons.1 hd with rfl | hd
      · exact inClassName_of_upper hupper
      · exact List.all_eq_true.1 List.all_takeWhile d hd
    refine ⟨by simpa using hpre.trans hwhole, by simp, ?_, fun d hd => hclass d (hpre.subset hd)⟩
    obtain ⟨u, n', rfl⟩ := List.exists_cons_of_ne_nil hne
    exact ⟨u, n', rfl, (List.cons_prefix_cons.1 hpre).1 ▸ hupper⟩
  | case3 => cases h
  | case4 => cases h

theorem inPackage_of_root {root : Text} (h : root ∈ rootPackages) : ∀ c ∈ root, inPackage c = true := by
  have hall : (rootPackages.all fun r => r.all inPackage) = true := by decide +kernel
  exact List.all_eq_true.1 (List.all_eq_true.1 hall root h)

/-- **A find** is a root package with a package tail; it is joined where a name goes on from the left. -/
theorem findQualified_eq_some {before : Option Char} {t m : Text} {q : Qualified}
    (h : findQualified before t = some (m, q)) :
    ∃ root ∈ rootPackages, ∃ rest package name, t = root ++ rest ∧ packageTail? rest = some (package, name)
      ∧ q = ⟨root ++ package, name, before.any fun c => c == '.' || isIdentChar c⟩ ∧ m = q.full := by
  unfold findQualified at h
  split at h
  · cases h
  · obtain ⟨root, hroot, hfound⟩ := List.exists_of_findSome?_eq_some h
    simp only [Option.bind_eq_bind, Option.bind_eq_some_iff, Option.pure_def, Option.some.injEq, Prod.mk.injEq,
      Prod.exists] at hfound
    obtain ⟨rest, hrest, package, name, htail, rfl, rfl⟩ := hfound
    exact ⟨root, hroot, rest, package, name, dropPrefix?_eq_some.1 hrest, htail, rfl, rfl⟩

/-- **A found name stands at the position** and is proper. -/
theorem findQualified_spec {before : Option Char} {t m : Text} {q : Qualified}
    (h : findQualified before t = some (m, q)) : m = q.full ∧ q.full <+: t ∧ q.Proper := by
  obtain ⟨root, hroot, rest, package, name, rfl, htail, rfl, rfl⟩ := findQualified_eq_some h
  obtain ⟨hpre, hpackage, hopens, hname⟩ := packageTail?_spec htail
  refine ⟨rfl, ?_, ⟨⟨root, hroot, List.prefix_append root package⟩, fun c hc => ?_, hopens, hname⟩⟩
  · simpa [Qualified.full] using hpre
  · rcases List.mem_append.1 hc with hc | hc
    · exact inPackage_of_root hroot c hc
    · exact hpackage c hc

/-- A package tail opens with a dot. -/
theorem packageTail?_opens {t package name : Text} (h : packageTail? t = some (package, name)) :
    ∃ r, package ++ '.' :: name = '.' :: r := by
  obtain ⟨rest, hrest⟩ := (packageTail?_spec h).1
  have hdot : t.head? = some '.' := by
    unfold packageTail? at h
    split at h
    · rfl
    · cases h
  rw [← hrest] at hdot
  cases package with
  | nil => exact ⟨name, rfl⟩
  | cons c p =>
    obtain rfl : c = '.' := by simpa using hdot
    exact ⟨p ++ '.' :: name, rfl⟩

/-- A found name goes on behind its root package. -/
theorem findQualified_root {before : Option Char} {t m : Text} {q : Qualified}
    (h : findQualified before t = some (m, q)) : ∃ root ∈ rootPackages, ∃ r, q.full = root ++ '.' :: r := by
  obtain ⟨root, hroot, rest, package, name, -, htail, rfl, -⟩ := findQualified_eq_some h
  obtain ⟨r, hr⟩ := packageTail?_opens htail
  exact ⟨root, hroot, r, by rw [Qualified.full, List.append_assoc, hr]⟩

theorem faithful_findQualified : findQualified.Faithful := by
  intro before t m q h
  obtain ⟨rfl, hpre, -⟩ := findQualified_spec h
  exact ⟨by simp [Qualified.full], hpre⟩

end JavaMend.Java
