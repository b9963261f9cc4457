import JavaMend.Proofs.Java.FixedLines
import JavaMend.Proofs.Java.Namings
import JavaMend.Proofs.Java.Nesting
import JavaMend.Proofs.Java.RunMeasure

/-!
# `Proofs.Java.CallScan` — the calls that the scan meets

The names of a table are taken to be ASCII identifiers, with dots between them. Then a call is found where it stands in
a text, and nowhere else: its name is the whole run of name characters, and its head holds no closing parenthesis. So the
scan goes on behind a call that is named, and character by character everywhere else.

## Contents
- **Names.** `isAsciiName`, `hasAsciiNames`; `isAsciiName_spec`.
- **Calls.** `Call`, `isApart`, `CallIn`; `callAt?_eq_some`, `callAt?_of_callIn`, `CallIn.unique`.
- **The scan.** `namings_call`, `namings_char`; `call_induction`.
-/

namespace JavaMend.Java

open JavaMend Text

/-! ## Names -/

/-- A letter or an underscore. -/
def opensAscii (c : Char) : Bool := isAsciiUpper c || isAsciiLower c || c == '_'

/-- A Java identifier of ASCII characters, without dollar signs. -/
def isAsciiIdentifier (t : Text) : Bool := t.head?.any opensAscii && t.all fun c => opensAscii c || isAsciiDigit c

/-- Such identifiers with dots between them. -/
def isAsciiName (t : Text) : Bool := (splitOn '.' t).all isAsciiIdentifier

/-- The names of calls and constants in a table are of this kind. -/
def hasAsciiNames (table : ConstantTable) : Bool :=
  table.all fun g => g.calls.all isAsciiName && g.values.all fun pair => isAsciiName pair.2

/-- A character of such a name. -/
def inAsciiName (c : Char) : Bool := opensAscii c || isAsciiDigit c || c == '.'

theorem isAsciiName_spec {name : Text} (h : isAsciiName name = true) :
    (∃ c rest, name = c :: rest ∧ opensAscii c = true) ∧ ∀ c ∈ name, inAsciiName c = true := by
  have hparts := List.all_eq_true.1 h
  constructor
  · obtain ⟨part, parts, hsplit⟩ := List.exists_cons_of_ne_nil (splitOn_ne_nil '.' name)
    have hpart := hparts part (hsplit ▸ List.mem_cons_self)
    cases part with
    | nil => cases hpart
    | cons c part =>
      rw [← joinWith_splitOn '.' name, hsplit, joinWith_cons_cons]
      exact ⟨c, _, rfl, (Bool.and_eq_true_iff.1 hpart).1⟩
  · intro c hc
    rw [← joinWith_splitOn '.' name] at hc
    rcases mem_joinWith hc with hdot | ⟨part, hpart, hc⟩
    · rw [List.mem_singleton.1 hdot]
      decide
    · have hident := List.all_eq_true.1 (Bool.and_eq_true_iff.1 (hparts part hpart)).2 c hc
      exact Bool.or_eq_true_iff.2 (.inl hident)

theorem inAsciiName_iff {c : Char} : inAsciiName c = true → inClassName c = true ∨ c = '.' := by
  simp only [inAsciiName, opensAscii, inClassName, Bool.or_eq_true, beq_iff_eq]
  rintro ((((h | h) | h) | h) | h) <;> simp [h]

theorem joinsName_of_inAsciiName {c : Char} (h : inAsciiName c = true) : joinsName c = true := by
  rcases inAsciiName_iff h with h | rfl
  · exact joinsName_of_inClassName h
  · rfl

theorem mem_of_isJoint {c : Char} (h : isJoint c = true) : c ∈ text "()[]\x7b\x7d," := by
  unfold isJoint nesting at h
  split at h
  · rename_i hopen
    simp only [Bool.or_eq_true, beq_iff_eq] at hopen
    rcases hopen with (rfl | rfl) | rfl <;> decide
  · split at h
    · rename_i hclose
      simp only [Bool.or_eq_true, beq_iff_eq] at hclose
      rcases hclose with (rfl | rfl) | rfl <;> decide
    · obtain rfl : c = ',' := by simpa using h
      decide

theorem not_isJoint_of_inAsciiName {c : Char} (h : inAsciiName c = true) : isJoint c = false := by
  rw [Bool.eq_false_iff]
  intro hjoint
  have hall : ((text "()[]\x7b\x7d,").all fun c => !inAsciiName c) = true := by decide
  have hnone := List.all_eq_true.1 hall c (mem_of_isJoint hjoint)
  rw [h] at hnone
  cases hnone

theorem not_isJoint_of_isBlank {c : Char} (h : isBlank c = true) : isJoint c = false := by
  rw [Bool.eq_false_iff]
  intro hjoint
  have hall : ((text "()[]\x7b\x7d,").all fun c => !isBlank c) = true := by decide
  have hnone := List.all_eq_true.1 hall c (mem_of_isJoint hjoint)
  rw [h] at hnone
  cases hnone

theorem opensAscii_of_isBlank {c : Char} (h : isBlank c = true) : opensAscii c = false := by
  rw [Bool.eq_false_iff]
  intro hopens
  have hjoins := joinsName_of_inAsciiName (show inAsciiName c = true by simp [inAsciiName, hopens])
  rw [joinsName_of_isBlank h] at hjoins
  cases hjoins

theorem isWordChar_of_opensAscii {c : Char} (h : opensAscii c = true) : isWordChar c = true := by
  simp only [opensAscii, Bool.or_eq_true, beq_iff_eq] at h
  have hletter : isLetter c = true ∨ c = '_' := by
    rcases h with (h | h) | h
    · exact .inl (isLetter_of_upper h)
    · exact .inl (isLetter_of_lower h)
    · exact .inr h
  have hascii : c.toNat < 0x80 := by
    rcases h with (h | h) | rfl
    · simp only [isAsciiUpper, Bool.and_eq_true, decide_eq_true_eq] at h
      omega
    · simp only [isAsciiLower, Bool.and_eq_true, decide_eq_true_eq] at h
      omega
    · decide
  have hrecent : isRecent c = false := by
    rw [isRecent, decide_eq_false (by omega), Bool.false_and]
  rcases hletter with hletter | rfl
  · simp [isWordChar, hletter, hrecent]
  · simp [isWordChar, hrecent]

/-! ## Calls -/

/-- A call as it is written: its name, the white space behind it, and what stands between the parentheses. -/
structure Call where
  name : Text
  gap : Text
  args : Text
deriving DecidableEq, Repr

/-- The call up to its opening parenthesis. -/
def Call.head (call : Call) : Text := call.name ++ call.gap ++ ['(']

/-- The whole call. -/
def Call.text (call : Call) : Text := call.head ++ call.args ++ [')']

/-- No name goes on from the character before a place. -/
def isApart (before : Option Char) : Bool := before.all fun d => !isWordChar d && !joinsName d

/-- **A call in a text** that follows `before`: one of the names at a place where no name goes on from the left, with
    parentheses that balance. -/
structure CallIn (names : List Text) (before : Option Char) (t pre : Text) (call : Call) (post : Text) : Prop where
  spells : t = pre ++ call.text ++ post
  listed : call.name ∈ names
  gap : ∀ c ∈ call.gap, isBlank c = true
  balanced : Balanced call.args
  apart : isApart (endOf before pre) = true

theorem callOf?_eq_some_iff {name t : Text} {found : CallHead} :
    callOf? name t = some found ↔
      found.name = name ∧ ∃ gap, (∀ c ∈ gap, isBlank c = true) ∧ found.head = name ++ gap ++ ['(']
        ∧ t = found.head ++ found.rest := by
  simp only [callOf?, Option.bind_eq_bind, Option.bind_eq_some_iff, Option.pure_def, Option.some.injEq,
    dropPrefix?_eq_some]
  constructor
  · rintro ⟨afterName, rfl, rest, hrest, rfl⟩
    refine ⟨rfl, afterName.takeWhile isBlank, List.all_eq_true.1 List.all_takeWhile, rfl, ?_⟩
    conv => lhs; rw [← List.takeWhile_append_dropWhile (p := isBlank) (l := afterName), hrest]
    simp
  · rintro ⟨hname, gap, hgap, hhead, rfl⟩
    have hparen : isBlank '(' = false := by decide
    refine ⟨gap ++ '(' :: found.rest, by rw [hhead]; simp, found.rest, ?_, ?_⟩
    · rw [List.dropWhile_append_of_pos hgap, List.dropWhile_cons_of_neg (by simp [hparen])]
      rfl
    · rw [List.takeWhile_append_of_pos hgap, List.takeWhile_cons_of_neg (by simp [hparen]), List.append_nil,
        ← hhead, ← hname]

/-- What a head is made of is seen in the text. -/
theorem head_unique {name gap rest name' gap' rest' : Text} (hname : ∀ c ∈ name, inAsciiName c = true)
    (hgap : ∀ c ∈ gap, isBlank c = true) (hname' : ∀ c ∈ name', inAsciiName c = true)
    (hgap' : ∀ c ∈ gap', isBlank c = true) (h : name ++ gap ++ '(' :: rest = name' ++ gap' ++ '(' :: rest') :
    name = name' ∧ gap = gap' ∧ rest = rest' := by
  have hrun {name gap : Text} (rest : Text) (hname : ∀ c ∈ name, inAsciiName c = true)
      (hgap : ∀ c ∈ gap, isBlank c = true) : runOf (name ++ gap ++ '(' :: rest) = name := by
    have hnone : runOf gap = [] := by
      cases gap with
      | nil => rfl
      | cons b gap => exact runOf_cons_gap (joinsName_of_isBlank (hgap b List.mem_cons_self)) gap
    rw [List.append_assoc, runOf_append_run fun c hc => joinsName_of_inAsciiName (hname c hc),
      runOf_append_gap (by decide +kernel), hnone, List.append_nil]
  have hblanks {gap : Text} (rest : Text) (hgap : ∀ c ∈ gap, isBlank c = true) :
      (gap ++ '(' :: rest).takeWhile isBlank = gap := by
    rw [takeWhile_append_cons (by decide), List.takeWhile_eq_self_iff.2 hgap]
  obtain rfl : name = name' := by rw [← hrun rest hname hgap, h, hrun rest' hname' hgap']
  rw [List.append_assoc, List.append_assoc, List.append_cancel_left_eq] at h
  obtain rfl : gap = gap' := by rw [← hblanks rest hgap, h, hblanks rest' hgap']
  exact ⟨rfl, rfl, (List.cons.inj (List.append_cancel_left h)).2⟩

theorem isApart_iff {before : Option Char} :
    isApart before = true ↔ before.any isWordChar = false ∧ before.any joinsName = false := by
  cases before <;> simp [isApart]

theorem isJoined_eq (before : Option Char) : (before.any fun d => d == '.' || isIdentChar d) = before.any joinsName := by
  have hsame : (fun d : Char => d == '.' || isIdentChar d) = joinsName := funext fun d => Bool.or_comm _ _
  rw [hsame]

section
variable {table : ConstantTable} {names : List Text} {before : Option Char}
  (hnames : ∀ name ∈ names, isAsciiName name = true)

theorem callAt?_eq_some {t : Text} {found : CallHead} (h : callAt? names before t = some found) :
    found.name ∈ names ∧ t = found.head ++ found.rest
      ∧ ∃ gap, (∀ c ∈ gap, isBlank c = true) ∧ found.head = found.name ++ gap ++ ['('] := by
  unfold callAt? at h
  split at h
  · obtain ⟨name, hname, hcall⟩ := List.exists_of_findSome?_eq_some h
    obtain ⟨rfl, gap, hgap, hhead, hspells⟩ := callOf?_eq_some_iff.1 hcall
    exact ⟨hname, hspells, gap, hgap, hhead⟩
  · cases h

include hnames

/-- A call opens with the first character of a name. -/
theorem opensAscii_of_callAt? {c : Char} {t : Text} {found : CallHead} (h : callAt? names before (c :: t) = some found) :
    opensAscii c = true := by
  obtain ⟨hname, hspells, gap, -, hhead⟩ := callAt?_eq_some h
  obtain ⟨⟨d, rest, hd, hopens⟩, -⟩ := isAsciiName_spec (hnames _ hname)
  rw [hhead, hd] at hspells
  obtain ⟨rfl, -⟩ := List.cons.inj hspells
  exact hopens

theorem callAt?_eq_none {c : Char} (hc : opensAscii c = false) (t : Text) : callAt? names before (c :: t) = none := by
  rw [Option.eq_none_iff_forall_ne_some]
  intro found h
  rw [opensAscii_of_callAt? hnames h] at hc
  cases hc

/-- A head is found where it stands behind no word. -/
theorem callAt?_head {name gap : Text} (hname : name ∈ names) (hgap : ∀ c ∈ gap, isBlank c = true)
    (hword : before.any isWordChar = false) (rest : Text) :
    callAt? names before (name ++ gap ++ '(' :: rest) = some ⟨name, name ++ gap ++ ['('], rest⟩ := by
  obtain ⟨⟨c, name', hopens, hc⟩, hchars⟩ := isAsciiName_spec (hnames _ hname)
  have hboundary : isBoundary before (name ++ gap ++ '(' :: rest).head? = true := by
    rw [hopens]
    simp [isBoundary, hword, isWordChar_of_opensAscii hc]
  rw [callAt?, if_pos hboundary]
  have hstands : callOf? name (name ++ gap ++ '(' :: rest) = some ⟨name, name ++ gap ++ ['('], rest⟩ :=
    callOf?_eq_some_iff.2 ⟨rfl, gap, hgap, rfl, by simp⟩
  have hsome : (names.findSome? fun name' => callOf? name' (name ++ gap ++ '(' :: rest)).isSome = true :=
    List.findSome?_isSome_iff.2 ⟨name, hname, by rw [hstands]; rfl⟩
  obtain ⟨found, hfound⟩ := Option.isSome_iff_exists.1 hsome
  obtain ⟨name', hname', hcall⟩ := List.exists_of_findSome?_eq_some hfound
  obtain ⟨hfoundName, gap', hgap', hhead, hspells⟩ := callOf?_eq_some_iff.1 hcall
  rw [hhead, List.append_assoc _ _ found.rest, List.singleton_append] at hspells
  obtain ⟨rfl, rfl, hrest⟩ := head_unique hchars hgap (isAsciiName_spec (hnames _ hname')).2 hgap' hspells
  rw [hfound, ← hhead, hrest, ← hfoundName]

/-- A head with its closed arguments is a call. -/
theorem callIn_of_closedArgs? {t args post : Text} {found : CallHead} (h : callAt? names before t = some found)
    (hargs : closedArgs? before 0 found = some (args, post)) :
    ∃ gap, found.head = (Call.mk found.name gap args).head ∧ CallIn names before t [] ⟨found.name, gap, args⟩ post := by
  obtain ⟨hname, hspells, gap, hgap, hhead⟩ := callAt?_eq_some h
  have hword : before.any isWordChar = false := by
    obtain ⟨⟨c, rest, hopens, hc⟩, -⟩ := isAsciiName_spec (hnames _ hname)
    unfold callAt? at h
    split at h
    · rename_i hboundary
      rw [hspells, hhead, hopens] at hboundary
      simpa [isBoundary, isWordChar_of_opensAscii hc] using hboundary
    · cases h
  unfold closedArgs? at hargs
  split at hargs
  · cases hargs
  · rename_i hopen
    obtain ⟨hrest, hbalanced⟩ := closeParen?_zero_iff.1 hargs
    have hjoins : before.any joinsName = false := by
      rw [← isJoined_eq]
      simpa using hopen
    refine ⟨gap, hhead, ⟨?_, hname, hgap, hbalanced, isApart_iff.2 ⟨hword, hjoins⟩⟩⟩
    rw [hspells, hhead, hrest]
    simp [Call.text, Call.head]

/-- A call is found with its arguments. -/
theorem callAt?_of_callIn {t post : Text} {call : Call} (h : CallIn names before t [] call post) :
    callAt? names before t = some ⟨call.name, call.head, call.args ++ ')' :: post⟩
      ∧ ∀ found, found.rest = call.args ++ ')' :: post → closedArgs? before 0 found = some (call.args, post) := by
  obtain ⟨hword, hjoins⟩ := isApart_iff.1 (show isApart before = true from h.apart)
  have hspells : t = call.name ++ call.gap ++ '(' :: (call.args ++ ')' :: post) := by
    rw [h.spells]
    simp [Call.text, Call.head]
  refine ⟨?_, fun found hfound => ?_⟩
  · rw [hspells]
    exact callAt?_head hnames h.listed h.gap hword _
  · rw [closedArgs?, isJoined_eq, hjoins, if_neg (by simp), hfound]
    exact closeParen?_zero_iff.2 ⟨rfl, h.balanced⟩

/-- Calls that open at one place are the same. -/
theorem CallIn.unique {t post post' : Text} {call call' : Call} (h : CallIn names before t [] call post)
    (h' : CallIn names before t [] call' post') : call = call' ∧ post = post' := by
  obtain ⟨hfound, hargs⟩ := callAt?_of_callIn hnames h
  obtain ⟨hfound', hargs'⟩ := callAt?_of_callIn hnames h'
  have hsame := Option.some.inj (hfound.symm.trans hfound')
  have hrest := congrArg CallHead.rest hsame
  have hclosed := (hargs ⟨call.name, call.head, call.args ++ ')' :: post⟩ rfl).symm.trans (hargs' _ hrest)
  obtain ⟨hargs, hpost⟩ := Prod.mk.inj (Option.some.inj hclosed)
  have hname : call.name = call'.name := congrArg CallHead.name hsame
  have hhead : call.head = call'.head := congrArg CallHead.head hsame
  have hgap : call.gap = call'.gap := by
    rw [Call.head, Call.head, hname] at hhead
    simpa using hhead
  obtain ⟨name, gap, args⟩ := call
  obtain ⟨name', gap', args'⟩ := call'
  simp only at hname hgap hargs
  rw [hname, hgap, hargs]
  exact ⟨rfl, hpost⟩

/-! ## The scan -/

theorem close_not_mem_head {found : CallHead} {t : Text} (h : callAt? names before t = some found) : ')' ∉ found.head := by
  obtain ⟨hname, -, gap, hgap, hhead⟩ := callAt?_eq_some h
  rw [hhead]
  simp only [List.mem_append, List.mem_singleton, not_or]
  refine ⟨⟨fun hc => ?_, fun hc => ?_⟩, by decide⟩
  · exact absurd ((isAsciiName_spec (hnames _ hname)).2 _ hc) (by decide)
  · exact absurd (hgap _ hc) (by decide)

/-- What is written already is passed over: no head goes on behind the parenthesis that ends it. -/
theorem namings_written (a rest : Text) (before : Option Char) :
    namings table names before (a.length + 1) (a ++ ')' :: rest) = namings table names (some ')') 0 rest := by
  induction hn : a.length using Nat.strong_induction_on generalizing a before with
  | _ n ih =>
    subst hn
    cases a with
    | nil =>
      rw [List.nil_append, namings_plain (callAt?_eq_none hnames (by decide) rest)]
      rfl
    | cons c a =>
      cases hcall : callAt? names before (c :: a ++ ')' :: rest) with
      | none =>
        rw [List.cons_append] at hcall ⊢
        rw [namings_plain hcall, if_neg (Nat.succ_ne_zero _)]
        exact ih a.length (by simp) a (some c) rfl
      | some found =>
        have hhead := close_not_mem_head hnames hcall
        obtain ⟨hname, hspells, gap, -, hopens⟩ := callAt?_eq_some hcall
        -- The head ends before the parenthesis.
        obtain ⟨x, hx, hrest⟩ : ∃ x, c :: a = found.head ++ x ∧ found.rest = x ++ ')' :: rest := by
          rcases List.append_eq_append_iff.1 hspells with ⟨x, hx, hrest⟩ | ⟨x, hx, hrest⟩
          · cases x with
            | nil => exact ⟨[], by simpa using hx.symm, by simpa using hrest.symm⟩
            | cons d x =>
              obtain ⟨rfl, -⟩ := List.cons.inj hrest
              exact absurd (hx ▸ by simp) hhead
          · exact ⟨x, hx, hrest⟩
        have hlength : (c :: a).length = found.head.length + x.length := by rw [hx, List.length_append]
        have hpos : 0 < found.head.length := List.length_pos_iff.2 (by simp [hopens])
        have hpassed : closedArgs? before ((c :: a).length + 1) found = none := by
          rw [closedArgs?, if_pos (by simp)]
        have hdrop : found.head.drop ((c :: a).length + 1) = [] := List.drop_eq_nil_of_le (by omega)
        have hleft : (c :: a).length + 1 - found.head.length = x.length + 1 := by omega
        rw [namings_passed hcall hpassed, hdrop, hleft, hrest]
        exact ih x.length (by omega) x (some '(') rfl

/-- The rest of a head, behind a character of its name, is passed over. -/
theorem namings_head {name gap : Text} (hname : ∀ c ∈ name, inAsciiName c = true) (hgap : ∀ c ∈ gap, isBlank c = true)
    (hbefore : name ≠ [] → before.any joinsName = true) (rest : Text) :
    namings table names before 0 (name ++ gap ++ '(' :: rest) =
      plains (name ++ gap ++ ['(']) ++ namings table names (some '(') 0 rest := by
  induction name generalizing before with
  | nil =>
    rw [List.nil_append]
    induction gap generalizing before with
    | nil =>
      rw [List.nil_append, namings_plain (callAt?_eq_none hnames (by decide) rest)]
      rfl
    | cons b gap ih =>
      obtain ⟨hb, hgap⟩ := List.forall_mem_cons.1 hgap
      rw [List.cons_append, namings_plain (callAt?_eq_none hnames (opensAscii_of_isBlank hb) _)]
      exact congrArg (Piece.plain b :: ·) (ih hgap (by simp))
  | cons c name ih =>
    obtain ⟨hc, hrest⟩ := List.forall_mem_cons.1 hname
    cases hcall : callAt? names before (c :: name ++ gap ++ '(' :: rest) with
    | none =>
      rw [List.cons_append, List.cons_append] at hcall ⊢
      rw [namings_plain hcall]
      exact congrArg (Piece.plain c :: ·) (ih hrest fun _ => joinsName_of_inAsciiName hc)
    | some found =>
      obtain ⟨hlisted, hspells, gap', hgap', hhead⟩ := callAt?_eq_some hcall
      rw [hhead, List.append_assoc _ _ found.rest, List.singleton_append] at hspells
      obtain ⟨hfound, rfl, rfl⟩ := head_unique hname hgap (isAsciiName_spec (hnames _ hlisted)).2 hgap' hspells
      have hpassed : closedArgs? before 0 found = none := by
        rw [closedArgs?, isJoined_eq, hbefore (by simp), if_pos (by simp)]
      rw [namings_passed hcall hpassed, hhead, ← hfound, List.drop_zero, Nat.zero_sub]

/-- **Where no call opens, the scan goes on with the next character.** -/
theorem namings_char {c : Char} {t : Text} (h : ∀ call post, ¬ CallIn names before (c :: t) [] call post) :
    namings table names before 0 (c :: t) = .plain c :: namings table names (some c) 0 t := by
  cases hcall : callAt? names before (c :: t) with
  | none =>
    rw [namings_plain hcall]
    rfl
  | some found =>
    have hpassed : closedArgs? before 0 found = none := by
      rw [Option.eq_none_iff_forall_ne_some]
      rintro ⟨args, post⟩ hargs
      obtain ⟨gap, -, hin⟩ := callIn_of_closedArgs? hnames hcall hargs
      exact h _ _ hin
    obtain ⟨hlisted, hspells, gap, hgap, hhead⟩ := callAt?_eq_some hcall
    obtain ⟨⟨d, name, hname, -⟩, hchars⟩ := isAsciiName_spec (hnames _ hlisted)
    rw [hname] at hhead hchars
    obtain ⟨hd, hrestChars⟩ := List.forall_mem_cons.1 hchars
    rw [hhead] at hspells
    obtain ⟨rfl, hrest⟩ := List.cons.inj hspells
    have ht : t = name ++ gap ++ '(' :: found.rest := by
      rw [hrest]
      simp
    rw [namings_passed hcall hpassed, hhead, List.drop_zero, Nat.zero_sub, ht,
      @namings_head table names (some c) hnames _ _ hrestChars hgap (fun _ => joinsName_of_inAsciiName hd)]
    rfl

/-- **A call is named, and the scan goes on behind it.** -/
theorem namings_call {t post : Text} {call : Call} (h : CallIn names before t [] call post) :
    namings table names before 0 t =
      plains call.head
        ++ joinArgs ((splitArgs 0 call.args).map fun arg => argPieces table call.name arg (namings table names none 0 arg))
        ++ .plain ')' :: namings table names (some ')') 0 post := by
  obtain ⟨hfound, hargs⟩ := callAt?_of_callIn hnames h
  rw [namings_named hfound (hargs _ rfl), namings_written hnames]

end

/-- **Induction along the calls of a text.** -/
theorem call_induction (names : List Text) {motive : Option Char → Text → Prop} (nil : ∀ before, motive before [])
    (char : ∀ before c t, (∀ call post, ¬ CallIn names before (c :: t) [] call post) → motive (some c) t →
      motive before (c :: t))
    (call : ∀ before t call post, CallIn names before t [] call post → (∀ arg ∈ splitArgs 0 call.args, motive none arg) →
      motive (some ')') post → motive before t)
    (before : Option Char) (t : Text) : motive before t := by
  induction hn : t.length using Nat.strong_induction_on generalizing before t with
  | _ n ih =>
    subst hn
    by_cases hcall : ∃ c post, CallIn names before t [] c post
    · obtain ⟨c, post, hin⟩ := hcall
      have hlength : t.length = c.head.length + c.args.length + 1 + post.length := by
        rw [hin.spells]
        simp [Call.text, Call.head]
        omega
      refine call before t c post hin (fun arg harg => ?_) (ih post.length (by omega) _ post rfl)
      have hle := length_le_of_mem_splitArgs harg
      exact ih arg.length (by omega) none arg rfl
    · cases t with
      | nil => exact nil before
      | cons c t => exact char before c t (fun call post hin => hcall ⟨call, post, hin⟩) (ih t.length (by simp) _ t rfl)

end JavaMend.Java
