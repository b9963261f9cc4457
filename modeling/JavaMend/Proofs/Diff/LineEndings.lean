import JavaMend.Diff.Parser
import JavaMend.Proofs.Diff.Applied
import JavaMend.Proofs.Diff.LineTexts

/-!
# `Proofs.Diff.LineEndings` — patches do not see how lines end

A diff is read by its lines, and a patch is applied to the lines of its target. So a diff whose lines end in CRLF or CR is
the same diff, errors and their line numbers included, and a target whose lines end so is the same document. The text that
results ends its lines in `\n`.

## Contents
- **Reading.** `parseAll_of_lines`.
- **Trying.** `ofText_recode`, `probe_recode`.
- **Both.** `lineEndings_tolerated`.
-/

namespace JavaMend.Diff

open JavaMend Text

/-- A diff is read by its lines. -/
theorem parseAll_of_lines {diff diff' : Text} (h : lines diff = lines diff') (strip : Nat) :
    parseAll diff strip = parseAll diff' strip := by
  simp only [parseAll, h]

/-- A text is the same document whatever ends its lines. -/
theorem ofText_recode {t : Text} (h : '\r' ∉ t) (e : Ending) : Document.ofText (recode e t) = Document.ofText t := by
  have hempty : (recode e t).isEmpty = t.isEmpty := by
    rw [Bool.eq_iff_iff, List.isEmpty_iff, List.isEmpty_iff, recode_eq_nil]
  rw [Document.ofText, Document.ofText, lines_recode h, endsWithNewline_recode h, hempty]

/-- Trying a patch gives the same whatever ends the lines of its target. -/
theorem probe_recode {t : Text} (h : '\r' ∉ t) (e : Ending) (o : Options) {p : Patch} {s s' : Store}
    (hs : s.find? p.target = some ⟨p.target, .source t⟩)
    (hs' : s'.find? p.target = some ⟨p.target, .source (recode e t)⟩) : probe o p s' = probe o p s :=
  probe_of_targetOf o (by simp only [targetOf, hs, hs', ofText_recode h])

/-- **Patches do not see how lines end.** With CRLF or CR for `\n` in a diff, the same patches or the same error are read
    from it; with CRLF or CR for `\n` in the target of a patch, trying the patch gives the same report and the same text,
    and this text is free of carriage returns if the patch was read from a diff. -/
theorem lineEndings_tolerated {diff t : Text} (hdiff : '\r' ∉ diff) (ht : '\r' ∉ t) (e : Ending) (strip : Nat)
    (o : Options) :
    parseAll (recode e diff) strip = parseAll diff strip
      ∧ ∀ (p : Patch) (s s' : Store), s.find? p.target = some ⟨p.target, .source t⟩ →
        s'.find? p.target = some ⟨p.target, .source (recode e t)⟩ →
          probe o p s' = probe o p s
            ∧ ∀ diff' strip' ps, parseAll diff' strip' = .ok ps → p ∈ ps →
              ∀ result, (probe o p s').2 = some result → '\r' ∉ result := by
  refine ⟨parseAll_of_lines (lines_recode hdiff e) strip, fun p s s' hs hs' => ⟨probe_recode ht e o hs hs', ?_⟩⟩
  intro diff' strip' ps hps hp result hresult
  exact carriageReturn_not_mem_probe (lined_of_parseAll hps p hp) hresult

/-- A diff with CRLF edits a target with CRLF, the last line of which is not ended, as one with `\n` does. -/
theorem lineEndings_tolerated_crlf :
    ∃ (diff t : Text) (ps : List Patch) (p : Patch) (s s' : Store),
      diff = text "--- a/F\n+++ b/F\n@@ -1,2 +1,2 @@\n-1\n+2\n\n" ∧ '\r' ∉ diff ∧ t = text "1\n\n3" ∧ '\r' ∉ t
        ∧ s.find? p.target = some ⟨p.target, .source t⟩
        ∧ s'.find? p.target = some ⟨p.target, .source (text "1\r\n\r\n3")⟩
        ∧ parseAll (recode .crlf diff) 1 = .ok ps ∧ p ∈ ps
        ∧ (probe ⟨.exact, 0, false⟩ p s).2 = some (text "2\n\n3")
        ∧ parseAll (recode .crlf diff) 1 = parseAll diff 1
        ∧ probe ⟨.exact, 0, false⟩ p s' = probe ⟨.exact, 0, false⟩ p s
        ∧ ∀ result, (probe ⟨.exact, 0, false⟩ p s').2 = some result → '\r' ∉ result := by
  let diff : Text := text "--- a/F\n+++ b/F\n@@ -1,2 +1,2 @@\n-1\n+2\n\n"
  let p : Patch := ⟨⟨text "F", by decide, by decide⟩,
    [⟨⟨1, 2⟩, ⟨1, 2⟩, [⟨.remove, text "1"⟩, ⟨.add, text "2"⟩, ⟨.context, []⟩]⟩]⟩
  let s : Store := Store.empty.set p.target (.source (text "1\n\n3"))
  let s' : Store := Store.empty.set p.target (.source (text "1\r\n\r\n3"))
  have hdiff : '\r' ∉ diff := by decide
  have ht : '\r' ∉ text "1\n\n3" := by decide
  have hs : s.find? p.target = some ⟨p.target, .source (text "1\n\n3")⟩ := Store.find?_set_self ..
  have hs' : s'.find? p.target = some ⟨p.target, .source (text "1\r\n\r\n3")⟩ := Store.find?_set_self ..
  have hps : parseAll (recode .crlf diff) 1 = .ok [p] := by decide +kernel
  have hresult : (probe ⟨.exact, 0, false⟩ p s).2 = some (text "2\n\n3") := by decide +kernel
  have hrecode : recode .crlf (text "1\n\n3") = text "1\r\n\r\n3" := by decide
  obtain ⟨hparse, hprobe⟩ := lineEndings_tolerated hdiff ht .crlf 1 ⟨.exact, 0, false⟩
  obtain ⟨hsame, hfree⟩ := hprobe p s s' hs (hrecode ▸ hs')
  exact ⟨diff, _, [p], p, s, s', rfl, hdiff, rfl, ht, hs, hs', hps, List.mem_cons_self, hresult, hparse, hsame,
    hfree _ _ _ hps List.mem_cons_self⟩

end JavaMend.Diff
