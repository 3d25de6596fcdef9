import Mathlib.Data.Option.Basic
import FieldSSA.Assembly.Meaning

namespace FieldSSA

/-- The pieces of a text between the occurrences of a character. -/
def pieces (sep : Char) (text : String) : List String :=
  (text.toList.splitOn sep).map String.ofList

theorem pieces_intercalate {sep : Char} {parts : List String}
    (h : ∀ part ∈ parts, sep ∉ part.toList) (hne : parts ≠ []) :
    pieces sep ((String.singleton sep).intercalate parts) = parts := by
  have hsplit : ([sep].intercalate (parts.map String.toList)).splitOn sep =
      parts.map String.toList :=
    List.splitOn_intercalate sep (by simpa using h) (by simpa using hne)
  rw [pieces, String.toList_intercalate, String.toList_singleton, hsplit, List.map_map]
  simp [Function.comp_def]

theorem pieces_append (sep : Char) {before after : String} (hbefore : sep ∉ before.toList)
    (hafter : sep ∉ after.toList) :
    pieces sep (before ++ String.singleton sep ++ after) = [before, after] := by
  have hfree : ∀ part ∈ [before, after], sep ∉ part.toList := by simp [hbefore, hafter]
  have hparts := pieces_intercalate hfree (by simp)
  rwa [String.intercalate_cons_cons, String.intercalate_singleton] at hparts

theorem unlines_eq_intercalate (lines : List String) :
    unlines lines = "\n".intercalate (lines ++ [""]) := by
  induction lines with
  | nil => rfl
  | cons line rest ih =>
    rw [List.cons_append, String.intercalate_cons_of_ne_nil (by simp), ← ih]
    simp [unlines]

/-- A text without these characters. -/
def Free (cs : List Char) (text : String) : Prop :=
  ∀ c ∈ text.toList, c ∉ cs

instance (cs : List Char) (text : String) : Decidable (Free cs text) :=
  decidable_of_iff (text.toList.all fun c => !cs.contains c) (by simp [Free])

namespace Free

variable {cs : List Char} {s t : String}

theorem not_mem {c : Char} (h : Free cs s) (hc : c ∈ cs) : c ∉ s.toList :=
  fun hmem => h c hmem hc

theorem append_iff : Free cs (s ++ t) ↔ Free cs s ∧ Free cs t := by
  rw [Free, String.toList_append, List.forall_mem_append]
  rfl

theorem append (hs : Free cs s) (ht : Free cs t) : Free cs (s ++ t) :=
  append_iff.mpr ⟨hs, ht⟩

theorem mono {ds : List Char} (h : Free cs s) (hsub : ds.all cs.contains) : Free ds s := by
  intro c hc hmem
  have hcs := List.all_eq_true.mp hsub c hmem
  exact h c hc (List.contains_iff_mem.mp hcs)

theorem intercalate {parts : List String} (hs : Free cs s) (h : ∀ part ∈ parts, Free cs part) :
    Free cs (s.intercalate parts) := by
  induction parts with
  | nil => simp [Free]
  | cons part rest ih =>
    rw [List.forall_mem_cons] at h
    cases rest with
    | nil => simpa using h.1
    | cons next rest =>
      rw [String.intercalate_cons_cons]
      exact (h.1.append hs).append (ih h.2)

theorem repr (hcs : cs.all fun c => !c.isDigit) (n : Nat) : Free cs n.repr := by
  intro c hc hmem
  rw [Nat.toList_repr] at hc
  have hdigit := Nat.isDigit_of_mem_toDigits (by decide) (by decide) hc
  have hother := List.all_eq_true.mp hcs c hmem
  rw [hdigit] at hother
  contradiction

end Free

/-- The characters between the words and the parts of a definition. -/
def separators : List Char := ['\n', ' ', '(', ')']

namespace Helper

def number? (digits : List Char) : Option Nat :=
  if digits ≠ [] ∧ digits.all Char.isDigit then some (Felt.digitsValue digits) else none

def width? (word : String) : Option Nat :=
  match word.toList with
  | 'i' :: digits => number? digits
  | _ => none

def register? (word : String) : Option String :=
  match word.toList with
  | '%' :: name => some (String.ofList name)
  | _ => none

def operand? (word : String) : Option Operand :=
  match register? word with
  | some name => some (.reg name)
  | none => .lit <$> number? word.toList

/-- A word before the comma that ends it. -/
def beforeComma? (word : String) : Option String :=
  match word.toList.reverse with
  | ',' :: cs => some (String.ofList cs.reverse)
  | _ => none

def extension? (word : String) : Option Extension :=
  [Extension.sext, .zext, .trunc].find? fun op => op.mnemonic == word

def arithmetic? (word : String) : Option Arithmetic :=
  [Arithmetic.add, .sub, .mul, .srem, .udiv, .urem].find? fun op => op.mnemonic == word

def ordering? (word : String) : Option Ordering :=
  [Ordering.ult, .slt].find? fun op => op.mnemonic == word

/-- Operands after their types, separated by commas. -/
def typedList? : List String → Option (List (Nat × Operand))
  | [type, x] => do return [(← width? type, ← operand? x)]
  | type :: x :: rest => do
    return (← width? type, ← operand? (← beforeComma? x)) :: (← typedList? rest)
  | _ => none

/-- What stands to the right of an assignment. -/
def assignment? (dest : String) : List String → Option Line
  | ["cmp", op, type, x, y] => do
    return .cmp dest (← ordering? op) (← width? type) (← operand? (← beforeComma? x))
      (← operand? y)
  | ["select", flag, cond, type, x, type', y] => do
    -- The condition is one bit, and both alternatives have one type.
    guard (flag = "i1" ∧ type = type')
    return .select dest (← operand? (← beforeComma? cond)) (← width? type)
      (← operand? (← beforeComma? x)) (← operand? y)
  | [op, type, x, "to", target] => do
    return .extend dest (← extension? op) (← width? type) (← operand? x) (← width? target)
  | [op, type, x, y] => do
    return .arith dest (← arithmetic? op) (← width? type) (← operand? (← beforeComma? x))
      (← operand? y)
  | _ => none

/-- A line that does not begin with a register is a return. -/
def Line.ofWords? : List String → Option Line
  | [] => none
  | head :: words =>
    match register? head, words with
    | some dest, "=" :: code => assignment? dest code
    | none, values => if head = "ret" then .ret <$> typedList? values else none
    | _, _ => none

/-- A line is two blanks and words with single blanks between them. -/
def Line.ofText? (line : String) : Option Line :=
  match pieces ' ' line with
  | "" :: "" :: words => Line.ofWords? words
  | _ => none

/-- The parameters stand in the parentheses of the head. -/
def params? (head : String) : Option (List (Nat × Operand)) :=
  match pieces '(' head with
  | [_, rest] =>
    match pieces ')' rest with
    | [params, " \x7b"] => typedList? (pieces ' ' params)
    | _ => none
  | _ => none

/-- The parameters and the body of a definition. -/
def definition? (text : String) : Option (List (Nat × Operand) × List Line) :=
  match pieces '\n' text with
  | head :: "entry:" :: rest => do
    return (← params? head, ← (rest.takeWhile (· ≠ "\x7d")).mapM Line.ofText?)
  | _ => none

/-- The registers of the parameters. An argument has the width of its parameter. -/
def bindParams : List (Nat × Operand) → List Word → Option Registers
  | [], [] => some []
  | (width, .reg name) :: params, word :: words =>
    if word.width = width then do return (name, word) :: (← bindParams params words) else none
  | _, _ => none

/-- What a printed definition computes. -/
def run (text : String) (args : List Word) : Option (List Word) := do
  let (params, lines) ← definition? text
  evalLines (← bindParams params args) lines

section Words

theorem number?_toDigits (n : Nat) : number? (Nat.toDigits 10 n) = some n := by
  have hdigits : (Nat.toDigits 10 n).all Char.isDigit := by
    rw [List.all_eq_true]
    intro c hc
    exact Nat.isDigit_of_mem_toDigits (by decide) (by decide) hc
  rw [number?, if_pos ⟨Nat.toDigits_ne_nil, hdigits⟩]
  exact congrArg some (Nat.ofDigitChars_toDigits (by decide) (by decide))

def widthText (width : Nat) : String :=
  "i" ++ width.repr

theorem typed_eq (width : Nat) (x : Operand) :
    typed width x = widthText width ++ " " ++ x.text := rfl

@[simp]
theorem width?_text (width : Nat) : width? (widthText width) = some width := by
  simp [width?, widthText, number?_toDigits]

@[simp]
theorem register?_text (name : String) : register? ("%" ++ name) = some name := by
  simp [register?]

theorem register?_repr (n : Nat) : register? n.repr = none := by
  have hfree : Free ['%'] n.repr := Free.repr (by decide) n
  rw [register?]
  split
  next name h => exact absurd (by simp [h]) (hfree.not_mem (List.mem_singleton_self '%'))
  next => rfl

@[simp]
theorem operand?_text (x : Operand) : operand? x.text = some x := by
  cases x with
  | reg name => rw [Operand.text, operand?, register?_text]
  | lit n =>
    rw [Operand.text, operand?, register?_repr, Nat.toList_repr, number?_toDigits]
    rfl

@[simp]
theorem beforeComma?_append (word : String) : beforeComma? (word ++ ",") = some word := by
  simp [beforeComma?]

/-- The words of typed operands with commas between them. -/
def typedWords : List (Nat × Operand) → List String
  | [] => []
  | [(width, x)] => [widthText width, x.text]
  | (width, x) :: rest => widthText width :: (x.text ++ ",") :: typedWords rest

theorem typedWords_ne_nil : {values : List (Nat × Operand)} → values ≠ [] →
    typedWords values ≠ []
  | [_], _ => by simp [typedWords]
  | _ :: _ :: _, _ => by simp [typedWords]

theorem typedList?_typedWords : (values : List (Nat × Operand)) → values ≠ [] →
    typedList? (typedWords values) = some values
  | [(width, x)], _ => by simp [typedWords, typedList?]
  | (width, x) :: value :: rest, _ => by
    have ih := typedList?_typedWords (value :: rest) (by simp)
    rw [typedWords, typedList?]
    · simp [ih]
    -- More operands follow, so the pattern of a last operand does not apply.
    · exact typedWords_ne_nil (by simp)
    · simp

theorem commaList_typed : (values : List (Nat × Operand)) →
    commaList (values.map fun (width, x) => typed width x) = " ".intercalate (typedWords values)
  | [] => rfl
  | [(width, x)] => by simp [commaList, typedWords, typed_eq]
  | (width, x) :: value :: rest => by
    have ih := commaList_typed (value :: rest)
    have hwords : typedWords ((width, x) :: value :: rest) =
        widthText width :: (x.text ++ ",") :: typedWords (value :: rest) := rfl
    calc commaList (((width, x) :: value :: rest).map fun (width, x) => typed width x)
      _ = typed width x ++ ", " ++
            commaList ((value :: rest).map fun (width, x) => typed width x) :=
          String.intercalate_cons_cons
      _ = widthText width ++ " " ++
            (x.text ++ "," ++ " " ++ " ".intercalate (typedWords (value :: rest))) := by
          rw [ih, typed_eq]
          simp [String.append_assoc]
      _ = " ".intercalate (typedWords ((width, x) :: value :: rest)) := by
          rw [hwords, String.intercalate_cons_cons,
            String.intercalate_cons_of_ne_nil (typedWords_ne_nil (by simp))]

def Operand.names : Operand → List String
  | reg name => [name]
  | lit _ => []

theorem free_widthText (width : Nat) : Free separators (widthText width) :=
  Free.append (by decide) (Free.repr (by decide) width)

theorem Operand.free_text {x : Operand} (h : ∀ name ∈ x.names, Free separators name) :
    Free separators x.text := by
  cases x with
  | reg name => exact Free.append (by decide) (h name (List.mem_singleton_self name))
  | lit n => exact Free.repr (by decide) n

theorem free_typedWords : {values : List (Nat × Operand)} →
    (∀ value ∈ values, ∀ name ∈ value.2.names, Free separators name) →
    ∀ word ∈ typedWords values, Free separators word
  | [], _ => by simp [typedWords]
  | [(width, x)], h => by
    have hx : Free separators x.text := Operand.free_text (h (width, x) (by simp))
    simp [typedWords, free_widthText, hx]
  | (width, x) :: value :: rest, h => by
    rw [List.forall_mem_cons] at h
    have hx : Free separators (x.text ++ ",") := (Operand.free_text h.1).append (by decide)
    simp only [typedWords, List.forall_mem_cons]
    exact ⟨free_widthText width, hx, free_typedWords h.2⟩

end Words

namespace Line

/-- The registers that a line names. -/
def names : Line → List String
  | extend dest _ _ x _ => dest :: x.names
  | arith dest _ _ x y | cmp dest _ _ x y => dest :: (x.names ++ y.names)
  | select dest cond _ x y => dest :: (cond.names ++ x.names ++ y.names)
  | ret values => values.flatMap fun (_, x) => x.names

def words : Line → List String
  | extend dest op source x target =>
    ["%" ++ dest, "=", op.mnemonic, widthText source, x.text, "to", widthText target]
  | arith dest op width x y =>
    ["%" ++ dest, "=", op.mnemonic, widthText width, x.text ++ ",", y.text]
  | cmp dest op width x y =>
    ["%" ++ dest, "=", "cmp", op.mnemonic, widthText width, x.text ++ ",", y.text]
  | select dest cond width x y =>
    ["%" ++ dest, "=", "select", "i1", cond.text ++ ",", widthText width, x.text ++ ",",
      widthText width, y.text]
  | ret values => "ret" :: typedWords values

variable (line : Line)

theorem free_words (h : ∀ name ∈ line.names, Free separators name) :
    ∀ word ∈ line.words, Free separators word := by
  cases line with
  | extend dest op source x target =>
    simp only [names, List.forall_mem_cons] at h
    have hop : Free separators op.mnemonic := by cases op <;> decide
    simp +decide [words, Free.append_iff, h.1, hop, free_widthText, Operand.free_text h.2]
  | arith dest op width x y | cmp dest op width x y =>
    simp only [names, List.forall_mem_cons, List.forall_mem_append] at h
    have hop : Free separators op.mnemonic := by cases op <;> decide
    simp +decide [words, Free.append_iff, h.1, hop, free_widthText, Operand.free_text h.2.1,
      Operand.free_text h.2.2]
  | select dest cond width x y =>
    simp only [names, List.forall_mem_cons, List.forall_mem_append] at h
    simp +decide [words, Free.append_iff, h.1, free_widthText, Operand.free_text h.2.1.1,
      Operand.free_text h.2.1.2, Operand.free_text h.2.2]
  | ret values =>
    simp only [names, List.mem_flatMap] at h
    simp only [words, List.forall_mem_cons]
    refine ⟨by decide, free_typedWords ?_⟩
    intro value hvalue name hname
    exact h name ⟨value, hvalue, hname⟩

variable (hret : line ≠ .ret [])
include hret

theorem text_eq_intercalate : line.text = " ".intercalate line.words := by
  apply String.ext
  cases line with
  | extend dest op source x target => simp [text, words, typed_eq, widthText]
  | arith dest op width x y => simp [text, words, typed_eq]
  | cmp dest op width x y => simp [text, words, typed_eq]
  | select dest cond width x y =>
    have hbit : widthText 1 = "i1" := rfl
    simp [text, words, typed_eq, hbit]
  | ret values =>
    have hne : values ≠ [] := by simpa using hret
    rw [text, words, commaList_typed,
      String.intercalate_cons_of_ne_nil (typedWords_ne_nil hne)]
    simp

theorem ofWords?_words : ofWords? line.words = some line := by
  cases line with
  | extend dest op source x target =>
    cases op <;> simp [words, ofWords?, assignment?, extension?, Extension.mnemonic]
  | arith dest op width x y =>
    cases op <;> simp [words, ofWords?, assignment?, arithmetic?, Arithmetic.mnemonic]
  | cmp dest op width x y =>
    cases op <;> simp [words, ofWords?, assignment?, ordering?, Ordering.mnemonic]
  | select dest cond width x y => simp [words, ofWords?, assignment?, guard]
  | ret values =>
    have hne : values ≠ [] := by simpa using hret
    have hhead : register? "ret" = none := by decide
    simp [words, ofWords?, hhead, typedList?_typedWords values hne]

/-- A printed line reads back as the line, if its words have no blanks. -/
theorem ofText?_text (hfree : ∀ word ∈ line.words, Free separators word) :
    ofText? ("  " ++ line.text) = some line := by
  have hne : line.words ≠ [] := by cases line <;> simp [words]
  have htext : "  " ++ line.text = " ".intercalate ("" :: "" :: line.words) := by
    rw [text_eq_intercalate line hret, String.intercalate_cons_cons,
      String.intercalate_cons_of_ne_nil hne]
    apply String.ext
    simp
  have hpieces : pieces ' ' ("  " ++ line.text) = "" :: "" :: line.words := by
    rw [htext]
    apply pieces_intercalate
    · simpa using fun word hword => (hfree word hword).not_mem (by decide)
    · simp
  rw [ofText?, hpieces]
  exact ofWords?_words line hret

end Line

theorem body_ne_ret_nil (i : Intrinsic) (felt wide : Nat) :
    ∀ line ∈ body felt wide i, line ≠ .ret [] := by
  cases i <;> simp [body]

theorem body_free_names (i : Intrinsic) (felt wide : Nat) :
    ∀ line ∈ body felt wide i, ∀ name ∈ line.names, Free separators name := by
  cases i <;> simp +decide [body, Line.names, Operand.names]

theorem body_read (i : Intrinsic) (felt wide : Nat) :
    ∀ line ∈ body felt wide i, Line.ofText? ("  " ++ line.text) = some line := by
  intro line hline
  have hfree := line.free_words (body_free_names i felt wide line hline)
  exact line.ofText?_text (body_ne_ret_nil i felt wide line hline) hfree

theorem free_symbol (i : Intrinsic) : Free ('\x7b' :: separators) i.symbol := by
  cases i with
  | dup ty | storeTemp ty | rename ty => cases ty <;> decide
  | _ => decide

theorem free_loweredTuple (width : Nat) (types : List Ty) :
    Free ['\n', '(', ')', '@'] (Ty.loweredTuple width types) := by
  have hlowered (ty : Ty) : Free ['\n', '(', ')', '@'] (ty.lowered width) :=
    Free.append (by decide) (Free.repr (by decide) _)
  cases types with
  | nil => exact (by decide : Free ['\n', '(', ')', '@'] "void")
  | cons ty rest =>
    cases rest with
    | nil => exact hlowered ty
    | cons next rest =>
      apply Free.append _ (by decide)
      apply Free.append (by decide)
      apply Free.intercalate (by decide)
      simpa using ⟨hlowered ty, hlowered next, fun ty _ => hlowered ty⟩

def typedParams (width : Nat) (i : Intrinsic) : List (Nat × Operand) :=
  (i.params.zip paramNames).map fun (ty, name) => (ty.storageBits width, .reg name)

theorem typedParams_ne_nil (i : Intrinsic) (width : Nat) : typedParams width i ≠ [] := by
  cases i <;> simp [typedParams, Intrinsic.params, paramNames]

theorem free_typedParams (i : Intrinsic) (width : Nat) :
    ∀ word ∈ typedWords (typedParams width i), Free separators word := by
  have hparam : ∀ name ∈ paramNames, Free separators name := by decide
  apply free_typedWords
  intro value hvalue name hname
  obtain ⟨⟨ty, param⟩, hmem, rfl⟩ := List.mem_map.mp hvalue
  rw [List.mem_singleton.mp hname]
  exact hparam param (List.of_mem_zip hmem).2

def headStart (i : Intrinsic) (width : Nat) : String :=
  "define " ++ Ty.loweredTuple width i.results ++ " @" ++ i.symbol

def headParams (i : Intrinsic) (width : Nat) : String :=
  " ".intercalate (typedWords (typedParams width i))

/-- The head, cut at its parentheses. -/
theorem head_eq (i : Intrinsic) (width : Nat) : "define " ++ i.headText width ++ " \x7b" =
    headStart i width ++ "(" ++ (headParams i width ++ ")" ++ " \x7b") := by
  have htyped : (i.params.zip paramNames).map
      (fun (ty, name) => ty.lowered width ++ " %" ++ name) =
      (typedParams width i).map fun (width, x) => typed width x := by
    rw [typedParams, List.map_map]
    apply List.map_congr_left
    rintro ⟨ty, name⟩ -
    apply String.ext
    simp [typed, Ty.lowered, Operand.text]
  rw [headParams, ← commaList_typed, ← htyped]
  simp only [Intrinsic.headText, headStart, String.append_assoc]

theorem free_headStart (i : Intrinsic) (width : Nat) :
    Free ['\n', '(', ')'] (headStart i width) := by
  apply Free.append _ ((free_symbol i).mono (by decide))
  apply Free.append _ (by decide)
  exact Free.append (by decide) ((free_loweredTuple width i.results).mono (by decide))

theorem free_headParams (i : Intrinsic) (width : Nat) :
    Free ['\n', '(', ')'] (headParams i width) := by
  apply Free.intercalate (by decide)
  intro word hword
  exact (free_typedParams i width word hword).mono (by decide)

theorem params?_head (i : Intrinsic) (width : Nat) :
    params? ("define " ++ i.headText width ++ " \x7b") = some (typedParams width i) := by
  have hstart := free_headStart i width
  have hparams := free_headParams i width
  have houter : pieces '(' ("define " ++ i.headText width ++ " \x7b") =
      [headStart i width, headParams i width ++ ")" ++ " \x7b"] := by
    rw [head_eq]
    have hafter : Free ['('] (headParams i width ++ ")" ++ " \x7b") := by
      apply Free.append _ (by decide)
      exact (hparams.mono (by decide)).append (by decide)
    exact pieces_append _ (hstart.not_mem (by decide)) (hafter.not_mem (by decide))
  have hinner : pieces ')' (headParams i width ++ ")" ++ " \x7b") =
      [headParams i width, " \x7b"] :=
    pieces_append _ (hparams.not_mem (by decide)) (by decide)
  have hwords : pieces ' ' (headParams i width) = typedWords (typedParams width i) := by
    apply pieces_intercalate
    · intro word hword
      exact (free_typedParams i width word hword).not_mem (by decide)
    · exact typedWords_ne_nil (typedParams_ne_nil i width)
  simp only [params?, houter, hinner, hwords]
  exact typedList?_typedWords _ (typedParams_ne_nil i width)

theorem free_head (i : Intrinsic) (width : Nat) :
    Free ['\n'] ("define " ++ i.headText width ++ " \x7b") := by
  rw [head_eq]
  apply Free.append
  · exact ((free_headStart i width).mono (by decide)).append (by decide)
  · apply Free.append _ (by decide)
    exact ((free_headParams i width).mono (by decide)).append (by decide)

def bodyTexts (i : Intrinsic) (c : Config) : List String :=
  (body c.width c.wideWidth i).map fun line => "  " ++ line.text

theorem free_bodyTexts (i : Intrinsic) (c : Config) :
    ∀ text ∈ bodyTexts i c, Free ['\n'] text := by
  intro text htext
  obtain ⟨line, hline, rfl⟩ := List.mem_map.mp htext
  have hfree := line.free_words (body_free_names i _ _ line hline)
  rw [line.text_eq_intercalate (body_ne_ret_nil i _ _ line hline)]
  apply Free.append (by decide)
  apply Free.intercalate (by decide)
  intro word hword
  exact (hfree word hword).mono (by decide)

theorem mapM_bodyTexts (i : Intrinsic) (c : Config) :
    (bodyTexts i c).mapM Line.ofText? = some (body c.width c.wideWidth i) := by
  have hread := body_read i c.width c.wideWidth
  rw [bodyTexts]
  generalize body c.width c.wideWidth i = lines at hread ⊢
  induction lines with
  | nil => rfl
  | cons line rest ih =>
    rw [List.forall_mem_cons] at hread
    simp [hread.1, ih hread.2]

theorem takeWhile_bodyTexts (i : Intrinsic) (c : Config) :
    (bodyTexts i c ++ ["\x7d", ""]).takeWhile (· ≠ "\x7d") = bodyTexts i c := by
  -- The closing brace is the first line that is not indented.
  rw [List.takeWhile_append_of_pos]
  · simp
  · intro text htext
    obtain ⟨line, -, rfl⟩ := List.mem_map.mp htext
    have hne : "  " ++ line.text ≠ "\x7d" := by
      intro h
      have := congrArg String.toList h
      simp at this
    simpa using hne

theorem definition?_definition (i : Intrinsic) (c : Config) :
    definition? (i.definition c) = some (typedParams c.width i, body c.width c.wideWidth i) := by
  have hlines : pieces '\n' (i.definition c) =
      ("define " ++ i.headText c.width ++ " \x7b") :: "entry:" ::
        (bodyTexts i c ++ ["\x7d", ""]) := by
    have htext : i.definition c = "\n".intercalate
        (("define " ++ i.headText c.width ++ " \x7b") :: "entry:" ::
          (bodyTexts i c ++ ["\x7d", ""])) := by
      rw [Intrinsic.definition, unlines_eq_intercalate]
      simp [bodyTexts]
    rw [htext]
    apply pieces_intercalate _ (by simp)
    simp only [List.forall_mem_cons, List.forall_mem_append]
    refine ⟨(free_head i c.width).not_mem (by decide), by decide, ?_, by decide, by decide,
      by simp⟩
    intro text htext
    exact (free_bodyTexts i c text htext).not_mem (by decide)
  simp only [definition?, hlines, takeWhile_bodyTexts, mapM_bodyTexts, params?_head]
  rfl

end Helper

end FieldSSA
