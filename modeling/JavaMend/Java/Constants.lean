import JavaMend.Java.Imports
import JavaMend.Text.Numerals

/-!
# `Java.Constants` — named constants for integer arguments

A constant table says which integers have names as arguments of which calls. In a call that it knows, an argument that
is a single integer gives way to its name, also inside the arguments of other calls; the type that owns the name
is imported.

## Contents
- **Tables.** `ConstantGroup` with `ofPairs`, `ConstantTable`, `lookup`.
- **Calls.** `callNames`, `callAt?`, `closeParen?`, `splitArgs`.
- **Naming.** `replaceCore`, `nameCalls`; `length_callAt?_lt` makes the recursion end.
- **Texts.** `nameConstants`.
-/

namespace JavaMend.Java

open JavaMend Text

/-! ## Tables -/

/-- Names of integers that hold for a family of calls. -/
structure ConstantGroup where
  /-- The calls, as they are written. -/
  calls : List Text
  /-- The type to import when one of the names is used. -/
  importing : Option Text
  /-- Integers with their names, in the order of the integers. -/
  values : List (Int × Text)
deriving DecidableEq, Repr

/-- Put a pair in its place among pairs in the order of their integers; it replaces a pair with its integer. -/
def insertValue (pair : Int × Text) : List (Int × Text) → List (Int × Text)
  | []            => [pair]
  | other :: rest =>
    if pair.1 = other.1 then pair :: rest
    else if pair.1 < other.1 then pair :: other :: rest
    else other :: insertValue pair rest

/-- The group of pairs in any order, the last pair with an integer winning. -/
def ConstantGroup.ofPairs (calls : List Text) (importing : Option Text) (pairs : List (Int × Text)) :
    ConstantGroup :=
  ⟨calls, importing, pairs.foldl (fun acc pair => insertValue pair acc) []⟩

/-- The groups in effect. -/
abbrev ConstantTable := List ConstantGroup

/-- A name with the type to import for it. -/
structure Constant where
  name : Text
  importing : Option Text
deriving DecidableEq, Repr

/-- The constant that a group gives for a value. -/
def ConstantGroup.constant? (g : ConstantGroup) (value : Int) : Option Constant :=
  (g.values.find? fun pair => pair.1 == value).map fun pair => ⟨pair.2, g.importing⟩

/-- The first of the constants, if all have one name. -/
def agreed? : List Constant → Option Constant
  | []      => none
  | c :: cs => if cs.all fun d => d.name == c.name then some c else none

/-- The constant for a value as an argument of a call, unless groups disagree. -/
def lookup (table : ConstantTable) (call : Text) (value : Int) : Option Constant :=
  agreed? ((table.filter fun g => g.calls.contains call).filterMap fun g => g.constant? value)

/-! ## Calls -/

/-- A longer name, in bytes, goes before a shorter one; names of one length go in text order. -/
def nameGoesBefore (a b : Text) : Bool :=
  if a.byteLength = b.byteLength then a.before b else decide (b.byteLength < a.byteLength)

/-- Put a call name in its place, unless it is there. -/
def insertName (name : Text) : List Text → List Text
  | []            => [name]
  | other :: rest =>
    if name = other then other :: rest
    else if nameGoesBefore name other then name :: other :: rest
    else other :: insertName name rest

/-- The call names of a table, longer ones first, so that no name hides one that it starts. -/
def callNames (table : ConstantTable) : List Text := (table.flatMap (·.calls)).foldr insertName []

/-- A call at the start of a text: its name, the text up to and with the opening parenthesis, and the rest. -/
structure CallHead where
  name : Text
  head : Text
  rest : Text
deriving DecidableEq, Repr

/-- The text is a call of the given name. -/
def callOf? (name t : Text) : Option CallHead := do
  let afterName ← dropPrefix? name t
  let rest ← dropPrefix? ['('] (afterName.dropWhile isBlank)
  return ⟨name, name ++ afterName.takeWhile isBlank ++ ['('], rest⟩

/-- The call that opens at a word boundary after the character `before`. -/
def callAt? (names : List Text) (before : Option Char) (t : Text) : Option CallHead :=
  if isBoundary before t.head? then names.findSome? fun name => callOf? name t else none

/-- Split the rest of a call at its closing parenthesis; `depth` more are to be closed before it. -/
def closeParen? (depth : Nat) : Text → Option (Text × Text)
  | []       => none
  | ')' :: t =>
    match depth with
    | 0     => some ([], t)
    | d + 1 => (closeParen? d t).map fun (args, rest) => (')' :: args, rest)
  | c :: t   =>
    (closeParen? (if c = '(' then depth + 1 else depth) t).map fun (args, rest) => (c :: args, rest)

/-- How a character changes the nesting of brackets of any kind. -/
def nesting (c : Char) : Int :=
  if c == '(' || c == '[' || c == '\x7b' then 1
  else if c == ')' || c == ']' || c == '\x7d' then -1
  else 0

/-- Split arguments at the commas outside brackets. -/
def splitArgs (depth : Int) : Text → List Text
  | []     => [[]]
  | c :: t =>
    if c = ',' ∧ depth = 0 then [] :: splitArgs 0 t
    else match splitArgs (depth + nesting c) t with
      | []          => [[c]]
      | arg :: rest => (c :: arg) :: rest

theorem length_callOf?_lt {name t : Text} {call : CallHead} (h : callOf? name t = some call) :
    call.rest.length < t.length := by
  simp only [callOf?, Option.bind_eq_bind, Option.pure_def] at h
  obtain ⟨u, hu, h⟩ := Option.bind_eq_some_iff.1 h
  obtain ⟨r, hr, h⟩ := Option.bind_eq_some_iff.1 h
  rw [dropPrefix?_eq_some] at hu hr
  simp only [Option.some.injEq] at h
  subst h
  have h1 := congrArg List.length hr
  have h2 := (List.dropWhile_sublist isBlank (l := u)).length_le
  subst hu
  simp only [List.length_append, List.length_cons, List.length_nil] at h1 ⊢
  omega

theorem length_callAt?_lt {names : List Text} {before : Option Char} {t : Text} {call : CallHead}
    (h : callAt? names before t = some call) : call.rest.length < t.length := by
  unfold callAt? at h
  split at h
  · obtain ⟨name, -, hn⟩ := List.exists_of_findSome?_eq_some h
    exact length_callOf?_lt hn
  · simp at h

theorem length_closeParen? {depth : Nat} {t args rest : Text}
    (h : closeParen? depth t = some (args, rest)) : args.length + rest.length < t.length := by
  induction t generalizing depth args rest with
  | nil => simp [closeParen?] at h
  | cons c t ih =>
    unfold closeParen? at h
    split at h
    · simp_all
    · rename_i u heq
      simp only [List.cons.injEq] at heq
      obtain ⟨rfl, rfl⟩ := heq
      split at h
      · simp only [Option.some.injEq, Prod.mk.injEq] at h
        simp [← h.1, ← h.2]
      · obtain ⟨⟨a, r⟩, hr, he⟩ := Option.map_eq_some_iff.1 h
        simp only [Prod.mk.injEq] at he
        have := ih hr
        rw [← he.1, ← he.2]
        simp only [List.length_cons]
        omega
    · rename_i d u _ heq
      simp only [List.cons.injEq] at heq
      obtain ⟨rfl, rfl⟩ := heq
      obtain ⟨⟨a, r⟩, hr, he⟩ := Option.map_eq_some_iff.1 h
      simp only [Prod.mk.injEq] at he
      have := ih hr
      rw [← he.1, ← he.2]
      simp only [List.length_cons]
      omega

theorem length_le_of_mem_splitArgs {depth : Int} {t arg : Text} (h : arg ∈ splitArgs depth t) :
    arg.length ≤ t.length := by
  induction t generalizing depth arg with
  | nil => simp [splitArgs] at h; simp [h]
  | cons c t ih =>
    unfold splitArgs at h
    split at h
    · rcases List.mem_cons.1 h with rfl | h
      · simp
      · exact Nat.le_succ_of_le (ih h)
    · split at h
      · simp only [List.mem_singleton] at h
        simp [h]
      · rename_i a r hs
        rcases List.mem_cons.1 h with rfl | h
        · have ha : a ∈ splitArgs (depth + nesting c) t := by simp [hs]
          simpa using ih ha
        · have ha : arg ∈ splitArgs (depth + nesting c) t := by simp [hs, h]
          exact Nat.le_succ_of_le (ih ha)

/-! ## Naming -/

/-- An argument with what replaces it kept between the white space around it. -/
def replaceCore (arg new : Text) : Text :=
  arg.takeWhile isBlank ++ new ++ (arg.reverse.takeWhile isBlank).reverse

/-- Name the integer arguments of the known calls in a stretch of code; also the types to import. `before` is the
    character before the stretch. A call that goes on from a longer name on its left, or that does not close, is
    passed over.

    Calls are looked for inside the arguments of a call as well, since a call name may hold brackets and so begin
    before a parenthesis closes and end after it. The first `written` characters stand in the result already: they
    are only read, and no call that begins in them is named. -/
def nameCalls (table : ConstantTable) (names : List Text) (before : Option Char) (written : Nat) :
    Text → Text × List Text
  | []     => ([], [])
  | c :: t =>
    match _hc : callAt? names before (c :: t) with
    | none =>
      let later := nameCalls table names (some c) (written - 1) t
      (if written = 0 then c :: later.1 else later.1, later.2)
    | some call =>
      -- A name that goes on from the left is another call.
      let joined := before.any fun d => d == '.' || isIdentChar d
      match _hp : if joined || written != 0 then none else closeParen? 0 call.rest with
      | none =>
        let later := nameCalls table names (some '(') (written - call.head.length) call.rest
        (call.head.drop written ++ later.1, later.2)
      | some (args, _) =>
        let named := (splitArgs 0 args).attach.map fun ⟨arg, _hm⟩ =>
          match readInt? (trim arg) with
          | some value =>
            match lookup table call.name value with
            | some constant => (replaceCore arg constant.name, constant.importing.toList)
            | none          => (arg, [])
          | none => nameCalls table names none 0 arg
        let later := nameCalls table names (some '(') (args.length + 1) call.rest
        (call.head ++ joinWith [','] (named.map (·.1)) ++ ')' :: later.1,
          named.flatMap (·.2) ++ later.2)
termination_by t => t.length
decreasing_by
  · simp
  · exact length_callAt?_lt _hc
  · have h1 := length_callAt?_lt _hc
    have h2 := length_le_of_mem_splitArgs _hm
    split at _hp
    · simp at _hp
    · have h3 := length_closeParen? _hp
      omega
  · exact length_callAt?_lt _hc

/-! ## Texts -/

/-- Put a text in its place in text order, unless it is there. -/
def insertText (t : Text) : List Text → List Text
  | []      => [t]
  | u :: us => if t = u then u :: us else if t.before u then t :: u :: us else u :: insertText t us

/-- Name the integer arguments of the known calls of a text and import what the names need. -/
def nameConstants (table : ConstantTable) (t : Text) : Text :=
  let names := callNames table
  let named := mapCode (fun code => (nameCalls table names none 0 code).1) t
  if named = t then t
  else
    let wanted := (collectCode (fun code => (nameCalls table names none 0 code).2) t).foldr insertText []
    wanted.foldl ensureImport named

end JavaMend.Java
