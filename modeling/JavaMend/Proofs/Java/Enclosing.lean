import JavaMend.Proofs.Java.FixedLines
import JavaMend.Proofs.Java.Modes

/-!
# `Proofs.Java.Enclosing` — the types around a line, and the `abstract` that a line loses

Which declaration a line belongs to is read off the code before it: a class, an enumeration, a record or an interface
opens with the next brace after its keyword and its name, and ends with the brace that closes it. Whether a line loses
its `abstract` is decided otherwise, by any line of the file that looks like an interface declaration
(`dropsInInterfacesOnly_iff`), so a class beside an interface loses it too (`not_dropsInInterfacesOnly_nested`).

## Contents
- **Tokens.** `Token`, `tokens`.
- **Open brackets.** `TypeKind`, `Bracket`, `readMark`, `readWord`, `readTokens`; `enclosing`, `BeginsInCode`.
- **Declared kinds.** `Without`, `Without.readTokens`; `enclosing_ne`.
- **Lost modifiers.** `TakesOut`, `DropsInInterfacesOnly`; `takesOut_abstract_iff`, `dropsInInterfacesOnly_iff`,
  `not_dropsInInterfacesOnly_nested`.
-/

namespace JavaMend.Java

open JavaMend Text

/-! ## Tokens -/

/-- A word of code, or any other character that is no white space. -/
inductive Token where
  | word (w : Text)
  | mark (c : Char)
deriving DecidableEq, Repr

/-- Put a word that ends in front of tokens. -/
def endWord (w : Text) (ts : List Token) : List Token := if w.isEmpty then ts else .word w :: ts

/-- The tokens of code behind the beginning `w` of a word. -/
def tokensFrom (w : Text) : Text → List Token
  | []     => endWord w []
  | c :: t =>
    if isIdentChar c then tokensFrom (w ++ [c]) t
    else endWord w (if isBlank c then tokensFrom [] t else .mark c :: tokensFrom [] t)

/-- The tokens of code. -/
def tokens (t : Text) : List Token := tokensFrom [] t

/-! ## Open brackets -/

/-- What a type declaration declares. -/
inductive TypeKind where
  | interface
  /-- A class, an enumeration or a record. -/
  | ofClass
deriving DecidableEq, Repr

/-- What a keyword declares. -/
def typeKind? (w : Text) : Option TypeKind :=
  if w = text "interface" then some .interface
  else if w = text "class" ∨ w = text "enum" ∨ w = text "record" then some .ofClass
  else none

/-- A brace or a parenthesis that is open. -/
structure Bracket where
  /-- The type whose body it opens. -/
  body : Option TypeKind
  /-- The type that was declared in it last and whose body has not opened yet. -/
  declared : Option TypeKind
deriving DecidableEq, Repr

/-- The innermost bracket with another declared type. -/
def declare (k : Option TypeKind) : List Bracket → List Bracket
  | []      => []
  | b :: bs => { b with declared := k } :: bs

/-- Close the innermost bracket; the outermost one stands for the file and stays. -/
def closeBracket : List Bracket → List Bracket
  | _ :: b :: bs => b :: bs
  | bs           => bs

/-- What a character of code does to the brackets, innermost first. A brace opens the body of the type that was declared
    last, and ends its declaration as a semicolon does. -/
def readMark (c : Char) (bs : List Bracket) : List Bracket :=
  match c with
  | '\x7b'       => ⟨bs.head?.bind (·.declared), none⟩ :: declare none bs
  | '('          => ⟨none, none⟩ :: bs
  | '\x7d' | ')' => closeBracket bs
  | ';'          => declare none bs
  | _            => bs

/-- What a word does that tokens follow: a keyword declares a type if a name comes next. -/
def readWord (w : Text) (ts : List Token) (bs : List Bracket) : List Bracket :=
  match typeKind? w, ts with
  | some k, .word _ :: _ => declare (some k) bs
  | _,      _            => bs

/-- The brackets that are open behind tokens. -/
def readTokens (bs : List Bracket) : List Token → List Bracket
  | []            => bs
  | .mark c :: ts => readTokens (readMark c bs) ts
  | .word w :: ts => readTokens (readWord w ts bs) ts

/-- The code before a line, literals and comments masked. -/
def codeBefore (t : Text) (i : Nat) : Text := joinWith ['\n'] (showLines .code ((lines t).take i))

/-- **The innermost type declaration whose braces enclose the start of a line.** -/
def enclosing (t : Text) (i : Nat) : Option TypeKind :=
  (readTokens [⟨none, none⟩] (tokens (codeBefore t i))).findSome? (·.body)

/-- The line begins in code, not in a comment or a literal. -/
def BeginsInCode (t : Text) (i : Nat) : Prop := exits .code ((lines t).take i) = .code

instance (t : Text) (i : Nat) : Decidable (BeginsInCode t i) := inferInstanceAs (Decidable (_ = _))

/-! ## Declared kinds -/

section
variable {k : TypeKind} {bs : List Bracket}

/-- No type of the kind is open or about to open. -/
def Without (k : TypeKind) (bs : List Bracket) : Prop := ∀ b ∈ bs, b.body ≠ some k ∧ b.declared ≠ some k

theorem Without.declare {k' : Option TypeKind} (hk : k' ≠ some k) (h : Without k bs) : Without k (declare k' bs) := by
  cases bs with
  | nil => exact h
  | cons b bs =>
    obtain ⟨hb, hbs⟩ := List.forall_mem_cons.1 h
    exact List.forall_mem_cons.2 ⟨⟨hb.1, hk⟩, hbs⟩

theorem Without.closeBracket (h : Without k bs) : Without k (closeBracket bs) := by
  unfold Java.closeBracket
  split
  · exact (List.forall_mem_cons.1 h).2
  · exact h

theorem Without.readMark (c : Char) (h : Without k bs) : Without k (readMark c bs) := by
  have hfresh : (none : Option TypeKind) ≠ some k := by simp
  unfold Java.readMark
  split
  · -- The brace opens what was declared last in the bracket around it.
    refine List.forall_mem_cons.2 ⟨⟨?_, hfresh⟩, h.declare hfresh⟩
    cases bs with
    | nil => exact hfresh
    | cons b bs => exact (h b List.mem_cons_self).2
  · exact List.forall_mem_cons.2 ⟨⟨hfresh, hfresh⟩, h⟩
  · exact h.closeBracket
  · exact h.closeBracket
  · exact h.declare hfresh
  · exact h

theorem Without.readWord {w : Text} (hw : typeKind? w ≠ some k) (ts : List Token) (h : Without k bs) :
    Without k (readWord w ts bs) := by
  unfold Java.readWord
  split
  · rename_i k' w' ts' hk'
    exact h.declare (hk' ▸ hw)
  · exact h

/-- **Without a keyword of the kind no type of the kind opens.** -/
theorem Without.readTokens {ts : List Token} (hts : ∀ w, Token.word w ∈ ts → typeKind? w ≠ some k) (h : Without k bs) :
    Without k (readTokens bs ts) := by
  induction ts generalizing bs with
  | nil => exact h
  | cons tok ts ih =>
    have hrest : ∀ w, Token.word w ∈ ts → typeKind? w ≠ some k := fun w hw => hts w (List.mem_cons_of_mem tok hw)
    cases tok with
    | mark c => exact ih hrest (h.readMark c)
    | word w => exact ih hrest (h.readWord (hts w List.mem_cons_self) ts)

end

/-- **A line lies in a class only if one is declared before it**, and so with interfaces. -/
theorem enclosing_ne {t : Text} {i : Nat} {k : TypeKind}
    (h : ∀ w, Token.word w ∈ tokens (codeBefore t i) → typeKind? w ≠ some k) : enclosing t i ≠ some k := by
  intro henclosing
  have hstart : Without k [⟨none, none⟩] := by simp [Without]
  obtain ⟨b, hb, hbody⟩ := List.exists_of_findSome?_eq_some henclosing
  exact ((hstart.readTokens h) b hb).1 hbody

/-- What a comment or a literal says declares nothing. -/
example :
    let t := text "interface I \x7b\n   // class C \x7b\n   String s = \"class C \x7b\";\n   void run();\n\x7d\n"
    enclosing t 3 = some .interface := by
  decide +kernel

/-! ## Lost modifiers -/

/-- A word is taken out of a line, with the white space behind it. -/
def TakesOut (word line line' : Text) : Prop :=
  ∃ pre gap member, line = pre ++ (word ++ (gap ++ member)) ∧ line' = pre ++ member ∧ ∀ c ∈ gap, isBlank c = true

/-- What becomes of a line of a file, if it stays. -/
def fixedLine (o : FixupOptions) (fileName t line : Text) : Text :=
  fixLine (classNameOf fileName) (o.fixInterfaces && (lines t).any isInterfaceLine) line

theorem fixup_eq_fixedLines (o : FixupOptions) (fileName t : Text) : fixup o fileName t =
    unlines (((lines t).filter fun l => !isEmptySuper l).map (fixedLine o fileName t)) (endsWithNewline t) := rfl

/-- **`abstract` is dropped from members of interfaces only**: where the interface edit takes the word out of a line that
    begins in code, the line lies in an interface, and in no other type within it. -/
def DropsInInterfacesOnly (fileName t : Text) : Prop :=
  ∀ i line, (lines t)[i]? = some line → BeginsInCode t i →
    TakesOut (text "abstract") (fixedLine ⟨false⟩ fileName t line) (fixedLine ⟨true⟩ fileName t line) →
    enclosing t i = some .interface

theorem not_takesOut_self {word : Text} (h : word ≠ []) (line : Text) : ¬ TakesOut word line line := by
  rintro ⟨pre, gap, member, hline, hline', -⟩
  have hlength := congrArg List.length (hline.symm.trans hline')
  have hpos := List.length_pos_iff.2 h
  simp only [List.length_append] at hlength
  omega

/-- **A line loses its `abstract`** exactly if it opens with it and some line of the file looks like the declaration of an
    interface. -/
theorem takesOut_abstract_iff (fileName t line : Text) :
    TakesOut (text "abstract") (fixedLine ⟨false⟩ fileName t line) (fixedLine ⟨true⟩ fileName t line) ↔
      (lines t).any isInterfaceLine = true ∧ opensAbstract (trimEnd line) = true := by
  have hoff : fixedLine ⟨false⟩ fileName t line = repairLine (classNameOf fileName) line := rfl
  have hon : fixedLine ⟨true⟩ fileName t line = if (lines t).any isInterfaceLine then
      dropAbstract (repairLine (classNameOf fileName) line) else repairLine (classNameOf fileName) line := rfl
  have hself : ¬ TakesOut (text "abstract") (repairLine (classNameOf fileName) line)
      (repairLine (classNameOf fileName) line) := not_takesOut_self (by decide) _
  rw [hoff, hon, ← opensAbstract_repairLine (classNameOf fileName) line]
  cases hany : (lines t).any isInterfaceLine with
  | false => exact iff_of_false hself (by simp)
  | true =>
    cases hopens : opensAbstract (repairLine (classNameOf fileName) line) with
    | false =>
      rw [if_pos rfl, dropAbstract_of_not_opens hopens]
      exact iff_of_false hself (by simp)
    | true =>
      obtain ⟨pre, gap, member, hline, hdrop, -, hgap⟩ := dropAbstract_of_opens hopens
      exact iff_of_true ⟨pre, gap, member, hline, hdrop, hgap⟩ ⟨rfl, rfl⟩

/-- In a file that declares interfaces only, `abstract` is dropped from their members only, if a line that opens with it lies
    in some type. -/
theorem dropsInInterfacesOnly_of_interfaces {fileName t : Text}
    (hkinds : ∀ i w, Token.word w ∈ tokens (codeBefore t i) → typeKind? w ≠ some .ofClass)
    (hinside : ∀ i line, (lines t)[i]? = some line → opensAbstract (trimEnd line) = true → enclosing t i ≠ none) :
    DropsInInterfacesOnly fileName t := by
  intro i line hline _ htaken
  have hopens := ((takesOut_abstract_iff fileName t line).1 htaken).2
  cases henclosing : enclosing t i with
  | none => exact absurd henclosing (hinside i line hline hopens)
  | some k =>
    cases k with
    | interface => rfl
    | ofClass => exact absurd henclosing (enclosing_ne (hkinds i))

/-- **Every dropped `abstract` is one of an interface** exactly if no line looks like the declaration of an interface, or
    every line of code that opens with `abstract` lies in one. -/
theorem dropsInInterfacesOnly_iff (fileName t : Text) : DropsInInterfacesOnly fileName t ↔
    ((lines t).any isInterfaceLine = true → ∀ i line, (lines t)[i]? = some line → BeginsInCode t i →
      opensAbstract (trimEnd line) = true → enclosing t i = some .interface) := by
  simp only [DropsInInterfacesOnly, takesOut_abstract_iff]
  exact ⟨fun h hany i line hline hcode hopens => h i line hline hcode ⟨hany, hopens⟩,
    fun h i line hline hcode hopens => h hopens.1 i line hline hcode hopens.2⟩

/-- A class with an interface in it. -/
def nestedInterface : Text :=
  text "public abstract class C \x7b\n   interface I \x7b\n   \x7d\n\n   abstract void run();\n\x7d\n"

/-- **A class with an interface in it** loses `abstract` from its own member. -/
theorem not_dropsInInterfacesOnly_nested : ¬ ∀ fileName t, DropsInInterfacesOnly fileName t := by
  intro h
  have hblank : ∀ c ∈ text " ", isBlank c = true := List.all_eq_true.1 (by decide)
  have hdrops := h (text "C.java") nestedInterface 4 (text "   abstract void run();") (by decide +kernel)
    (by decide +kernel) ⟨text "   ", text " ", text "void run();", by decide +kernel, by decide +kernel, hblank⟩
  exact absurd hdrops (by decide +kernel)

end JavaMend.Java
