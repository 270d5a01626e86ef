import Arbor.Proofs.ExpressionReading

/-!
# Scanned text

A scanner that knows strings and brackets and nothing else of the host. It enters a string at a
quote, passes over the character behind a backslash in it, and leaves it at the next quote.
`Scanned` says what such a scanner is to find in an emitted text.

`Scanner` goes over a text once and keeps the brackets it still waits for. A text is `Neutral` if
the scanner gets through it from code to code and waits for the same brackets as before, and this is
kept by all the ways in which texts are put together.
-/

namespace Arbor

namespace Scanning

/-- Where a character is met: in code, in a string, or in a string behind a backslash. -/
inductive Region where
  | code
  | string
  | escape
deriving DecidableEq

namespace Region

def next : Region → Char → Region
  | code, c => if c = '"' then string else code
  | string, c => if c = '"' then code else if c = '\\' then escape else string
  | escape, _ => string

end Region

/-- The region behind a text. -/
def behind (region : Region) (text : List Char) : Region :=
  text.foldl Region.next region

/-- The characters of a text, each with the region it is met in. -/
def met : Region → List Char → List (Region × Char)
  | _, [] => []
  | region, c :: rest => (region, c) :: met (region.next c) rest

/-- The bracket that closes what this one opens. -/
def closing? : Char → Option Char
  | '(' => some ')'
  | '[' => some ']'
  | '\x7b' => some '\x7d'
  | _ => none

def isBracket (c : Char) : Bool :=
  ['(', ')', '[', ']', '\x7b', '\x7d'].contains c

/-- The brackets among the characters that are met in code. -/
def brackets (met : List (Region × Char)) : List Char :=
  (met.filter fun p => p.1 = .code && isBracket p.2).map Prod.snd

/-- Every bracket has its partner, and what stands between two partners is balanced. -/
inductive Balanced : List Char → Prop where
  | nil : Balanced []
  | pair {first last : Char} {inside behind : List Char} : closing? first = some last →
      Balanced inside → Balanced behind → Balanced (first :: (inside ++ last :: behind))

/-- What a scan of the text from its start finds. -/
structure Scanned (text : String) : Prop where
  /-- It ends in code. -/
  ends : behind .code text.toList = .code
  /-- No string has a control character or a line separator in it. -/
  strings : ∀ p ∈ met .code text.toList, p.1 ≠ .code →
    0x20 ≤ p.2.toNat ∧ p.2.toNat ≠ 0x2028 ∧ p.2.toNat ≠ 0x2029
  /-- All else is printable ASCII and line ends. -/
  code : ∀ p ∈ met .code text.toList, p.1 = .code →
    (0x20 ≤ p.2.toNat ∧ p.2.toNat ≤ 0x7e) ∨ p.2 = '\n'
  balanced : Balanced (brackets (met .code text.toList))

/-! ## The scanner -/

/-- The character may stand in the region. -/
def allowed : Region → Char → Bool
  | .code, c => (0x20 ≤ c.toNat && c.toNat ≤ 0x7e) || c == '\n'
  | _, c => 0x20 ≤ c.toNat && c.toNat != 0x2028 && c.toNat != 0x2029

/-- The brackets that are awaited behind one more. -/
def nest (awaited : List Char) (bracket : Char) : Option (List Char) :=
  match closing? bracket, awaited with
  | some last, awaited => some (last :: awaited)
  | none, last :: rest => if last = bracket then some rest else none
  | none, [] => none

structure Scanner where
  region : Region
  /-- The brackets that are still to come, the next one first. -/
  awaited : List Char

namespace Scanner

/-- The scanner behind one character, unless the character may not stand there. -/
def step (scanner : Scanner) (c : Char) : Option Scanner :=
  if allowed scanner.region c then
    if scanner.region = .code && isBracket c then
      (nest scanner.awaited c).map fun awaited => ⟨scanner.region.next c, awaited⟩
    else some ⟨scanner.region.next c, scanner.awaited⟩
  else none

end Scanner

/-- The scanner gets through the text, from one state to another. -/
def Scans (text : String) (first last : Scanner) : Prop :=
  text.toList.foldlM Scanner.step first = some last

/-- In code, the text leaves the scanner as it is. -/
def Neutral (text : String) : Prop :=
  ∀ awaited, Scans text ⟨.code, awaited⟩ ⟨.code, awaited⟩

theorem Scans.append {text other : String} {first middle last : Scanner}
    (scans : Scans text first middle) (next : Scans other middle last) :
    Scans (text ++ other) first last := by
  unfold Scans
  rw [String.toList_append, List.foldlM_append, scans]
  exact next

/-! ### What a run of the scanner says -/

theorem step_eq_some {scanner last : Scanner} {c : Char} (went : scanner.step c = some last) :
    allowed scanner.region c ∧ last.region = scanner.region.next c ∧
      (brackets [(scanner.region, c)]).foldlM nest scanner.awaited = some last.awaited := by
  unfold Scanner.step at went
  split at went
  · next may =>
    refine ⟨may, ?_⟩
    split at went
    · next bracket =>
      obtain ⟨awaited, nests, rfl⟩ := Option.map_eq_some_iff.mp went
      simp [brackets, bracket, nests]
    · next other =>
      cases went
      simp [brackets, other]
  · cases went

theorem run_eq_some {text : List Char} {scanner last : Scanner}
    (went : text.foldlM Scanner.step scanner = some last) :
    behind scanner.region text = last.region ∧
      (∀ p ∈ met scanner.region text, allowed p.1 p.2) ∧
        (brackets (met scanner.region text)).foldlM nest scanner.awaited = some last.awaited := by
  induction text generalizing scanner with
  | nil =>
    cases went
    exact ⟨rfl, by simp [met], rfl⟩
  | cons c rest ih =>
    obtain ⟨middle, first, next⟩ := Option.bind_eq_some_iff.mp went
    obtain ⟨may, region, nests⟩ := step_eq_some first
    obtain ⟨ends, all, nestsNext⟩ := ih next
    rw [region] at ends all nestsNext
    refine ⟨ends, ?_, ?_⟩
    · intro p member
      rcases List.mem_cons.mp member with rfl | member
      · exact may
      · exact all p member
    · have apart : brackets (met scanner.region (c :: rest)) =
          brackets [(scanner.region, c)] ++ brackets (met (scanner.region.next c) rest) := by
        rw [brackets, brackets, brackets, ← List.map_append, ← List.filter_append]
        rfl
      rw [apart, List.foldlM_append, nests]
      exact nestsNext

/-- The text closes the brackets that are awaited, one behind the other. -/
def Closes : List Char → List Char → Prop
  | [], text => Balanced text
  | last :: awaited, text => ∃ inside behind, text = inside ++ last :: behind ∧ Balanced inside ∧
      Closes awaited behind

theorem Closes.pair {awaited : List Char} {first last : Char} {inside behind : List Char}
    (partner : closing? first = some last) (balanced : Balanced inside)
    (closes : Closes awaited behind) : Closes awaited (first :: (inside ++ last :: behind)) := by
  cases awaited with
  | nil => exact Balanced.pair partner balanced closes
  | cons next awaited =>
    obtain ⟨within, later, rfl, balancedNext, closes⟩ := closes
    exact ⟨first :: (inside ++ last :: within), later, by simp, .pair partner balanced balancedNext,
      closes⟩

/-- Brackets after which none is awaited are balanced but for those that were. -/
theorem closes_of_nest {text awaited : List Char} (nests : text.foldlM nest awaited = some []) :
    Closes awaited text := by
  induction text generalizing awaited with
  | nil =>
    cases nests
    exact .nil
  | cons c rest ih =>
    obtain ⟨middle, first, next⟩ := Option.bind_eq_some_iff.mp nests
    have closes := ih next
    unfold nest at first
    split at first
    · next last partner =>
      cases first
      obtain ⟨inside, behind, rfl, balanced, closes⟩ := closes
      exact closes.pair partner balanced
    · split at first
      · next same =>
        cases first
        exact ⟨[], rest, by rw [same]; rfl, .nil, closes⟩
      · cases first
    · cases first

/-- A text that leaves the scanner as it is has been scanned. -/
theorem Neutral.scanned {text : String} (neutral : Neutral text) : Scanned text := by
  obtain ⟨ends, all, nests⟩ := run_eq_some (neutral [])
  refine ⟨ends, ?_, ?_, closes_of_nest nests⟩
  · rintro ⟨region, c⟩ member other
    have may := all _ member
    cases region with
    | code => exact absurd rfl other
    | string => simpa [allowed, and_assoc] using may
    | escape => simpa [allowed, and_assoc] using may
  · rintro ⟨region, c⟩ member rfl
    simpa [allowed] using all _ member

/-! ## Texts that leave the scanner as it is -/

/-- The character can stand in code and does not lead out of it. -/
def isPlain (c : Char) : Bool :=
  allowed .code c && c != '"' && !isBracket c

theorem step_plain {c : Char} (plain : isPlain c) (awaited : List Char) :
    Scanner.step ⟨.code, awaited⟩ c = some ⟨.code, awaited⟩ := by
  simp only [isPlain, Bool.and_eq_true, bne_iff_ne, Bool.not_eq_eq_eq_not, Bool.not_true] at plain
  obtain ⟨⟨may, noQuote⟩, noBracket⟩ := plain
  simp [Scanner.step, may, noBracket, Region.next, noQuote]

/-- The characters of names and numbers are plain. -/
theorem isPlain_of_isNamePart {c : Char} (part : Host.isNamePart c ∨ Reading.isNumeral c) :
    isPlain c := by
  have ascii : c.toNat < 128 := by
    delta Host.isNamePart Reading.isNumeral Char.isAlphanum Char.isAlpha Char.isUpper Char.isLower
      Char.isDigit at part
    simp only [Bool.or_eq_true, Bool.and_eq_true, decide_eq_true_eq, beq_iff_eq,
      UInt32.le_iff_toNat_le, ge_iff_le] at part
    have value : c.toNat = c.val.toNat := rfl
    have upper : 'Z'.val.toNat = 90 := rfl
    have lower : 'z'.val.toNat = 122 := rfl
    have nine : '9'.val.toNat = 57 := rfl
    rcases part with ((letter | rfl) | rfl) | ((digit | rfl) | rfl)
    · omega
    · decide
    · decide
    · omega
    · decide
    · decide
  have all : ∀ n : Fin 128, Host.isNamePart (Char.ofNat n) ∨ Reading.isNumeral (Char.ofNat n) →
      isPlain (Char.ofNat n) := by decide +kernel
  have plain := all ⟨c.toNat, ascii⟩
  rw [Char.ofNat_toNat] at plain
  exact plain part

namespace Neutral

variable {text other first last : String}

theorem empty : Neutral "" := fun _ => rfl

theorem append (neutral : Neutral text) (next : Neutral other) : Neutral (text ++ other) :=
  fun awaited => (neutral awaited).append (next awaited)

theorem plain (all : ∀ c ∈ text.toList, isPlain c) : Neutral text := by
  intro awaited
  unfold Scans
  generalize text.toList = chars at all
  induction chars with
  | nil => rfl
  | cons c rest ih =>
    rw [List.foldlM_cons, step_plain (all c (by simp))]
    exact ih fun c member => all c (by simp [member])

theorem name (bindable : Host.isBindable text) : Neutral text :=
  plain fun c member => isPlain_of_isNamePart (.inl (Reading.isName_of_isBindable bindable c member))

theorem numeral (number : Reading.Numeral text.toList) : Neutral text :=
  plain fun c member => isPlain_of_isNamePart (.inr (number.all c member))

/-- A text between a fixed opening and a fixed end, each of which the scanner gets through. -/
theorem between {front back : String} {awaiting : List Char}
    (opens : ∀ awaited, Scans front ⟨.code, awaited⟩ ⟨.code, awaiting ++ awaited⟩)
    (neutral : Neutral text)
    (closes : ∀ awaited, Scans back ⟨.code, awaiting ++ awaited⟩ ⟨.code, awaited⟩) :
    Neutral (front ++ text ++ back) :=
  fun awaited => ((opens awaited).append (neutral _)).append (closes awaited)

theorem intercalate {separator : String} (separates : Neutral separator) {texts : List String}
    (all : ∀ text ∈ texts, Neutral text) : Neutral (String.intercalate separator texts) := by
  induction texts with
  | nil =>
    rw [String.intercalate_nil]
    exact empty
  | cons first rest ih =>
    have here := all first (by simp)
    cases rest with
    | nil =>
      rw [String.intercalate_singleton]
      exact here
    | cons second more =>
      rw [String.intercalate_cons_cons]
      exact (here.append separates).append (ih fun text member => all text (by simp [member]))

end Neutral

/-! ### Strings -/

/-- In a string, the scanner stays in it over a character that neither ends it nor escapes. -/
theorem step_string {c : Char} (may : allowed .string c) (noQuote : c ≠ '"') (noSlash : c ≠ '\\')
    (awaited : List Char) : Scanner.step ⟨.string, awaited⟩ c = some ⟨.string, awaited⟩ := by
  simp [Scanner.step, may, Region.next, noQuote, noSlash]

theorem step_digitChar (n : Nat) (awaited : List Char) :
    Scanner.step ⟨.string, awaited⟩ (Nat.digitChar (n % 16)) = some ⟨.string, awaited⟩ := by
  have all : ∀ d : Fin 16, allowed .string (Nat.digitChar d) ∧ Nat.digitChar d ≠ '"' ∧
      Nat.digitChar d ≠ '\\' := by decide
  obtain ⟨may, noQuote, noSlash⟩ := all ⟨n % 16, Nat.mod_lt _ (by decide)⟩
  exact step_string may noQuote noSlash awaited

/-- However a character is spelled in a string, the scanner is still in the string behind it. -/
theorem run_literalEscape (c : Char) (awaited : List Char) :
    (Text.literalEscape c).foldlM Scanner.step ⟨.string, awaited⟩ = some ⟨.string, awaited⟩ := by
  unfold Text.literalEscape
  split
  · rfl
  · rfl
  · rfl
  · rfl
  · rfl
  · next noQuote noSlash _ _ _ =>
    split
    · have entered : Scanner.step ⟨.string, awaited⟩ '\\' = some ⟨.escape, awaited⟩ := rfl
      have passed : Scanner.step ⟨.escape, awaited⟩ 'u' = some ⟨.string, awaited⟩ := rfl
      simp [Text.hex4, entered, passed, step_digitChar]
    · next raw =>
      have may : allowed .string c := by
        simp only [Bool.or_eq_true, decide_eq_true_eq, beq_iff_eq, not_or, Nat.not_lt] at raw
        simp [allowed, raw]
      rw [List.foldlM_cons, step_string may noQuote noSlash]
      rfl

/-- A quoted text is one string, whatever the text is. -/
theorem Neutral.quote (text : String) : Neutral (Text.quote text) := by
  intro awaited
  have inside (chars : List Char) : (chars.flatMap Text.literalEscape).foldlM Scanner.step
      ⟨.string, awaited⟩ = some ⟨.string, awaited⟩ := by
    induction chars with
    | nil => rfl
    | cons c rest ih =>
      rw [List.flatMap_cons, List.foldlM_append, run_literalEscape]
      exact ih
  have opened : Scanner.step ⟨.code, awaited⟩ '"' = some ⟨.string, awaited⟩ := rfl
  have closed : Scanner.step ⟨.string, awaited⟩ '"' = some ⟨.code, awaited⟩ := rfl
  unfold Scans Text.quote Text.quoteWith
  rw [String.toList_ofList]
  simp [opened, closed, inside]

/-! ## Expressions -/

namespace Neutral

variable {payload type value name left right : String}

theorem hostValue (neutral : Neutral payload) (typed : Neutral type) :
    Neutral (Host.value payload type) := by
  intro awaited
  have front : Scans ("new " ++ Host.runtimeName ++ ".value(") ⟨.code, awaited⟩
      ⟨.code, ')' :: awaited⟩ := rfl
  have comma : Neutral ", " := fun _ => rfl
  have back : Scans ")" ⟨.code, ')' :: awaited⟩ ⟨.code, awaited⟩ := rfl
  exact (((front.append (neutral _)).append (comma _)).append (typed _)).append back

/-- An entry of an object, before the others. -/
theorem entry (name : String) (neutral : Neutral value) {others : String}
    (rest : Neutral others) : Neutral (Text.quote name ++ ": " ++ value ++ "," ++ others) := by
  have colon : Neutral ": " := fun _ => rfl
  have comma : Neutral "," := fun _ => rfl
  exact ((((quote name).append colon).append neutral).append comma).append rest

theorem operation (op : BinaryOp) (operands : Ty) (first : Neutral left) (second : Neutral right) :
    Neutral (Emit.operation op operands left right) := by
  have payload : Neutral ".value" := fun _ => rfl
  have spaced : Neutral ".value " := fun _ => rfl
  have symbol : Neutral (Reading.hostSymbol op) := by
    intro awaited
    cases op <;> rfl
  have space : Neutral " " := fun _ => rfl
  have computed : Neutral (left ++ ".value " ++ Reading.hostSymbol op ++ " " ++ right ++ ".value") :=
    ((((first.append spaced).append symbol).append space).append second).append payload
  rcases Reading.operation_cases op operands left right with same | same
  · rw [same]
    exact computed
  · rw [same]
    exact @between _ "Math.trunc(" ")" [')'] (fun _ => rfl) computed fun _ => rfl

theorem unary (op : UnaryOp) (neutral : Neutral value) :
    Neutral (op.symbol ++ "(" ++ value ++ ".value)") := by
  refine @between _ (op.symbol ++ "(") ".value)" [')'] ?_ neutral fun _ => rfl
  intro awaited
  cases op <;> rfl

end Neutral

/-! ## Types -/

theorem constructors_neutral {types : List Ty} {texts : List String}
    (parts : ∀ t ∈ types, ∀ text, t.constructor = .ok text → Neutral text)
    (built : Ty.constructors types = .ok texts) : ∀ text ∈ texts, Neutral text := by
  induction types generalizing texts with
  | nil =>
    cases built
    simp
  | cons type rest ih =>
    obtain ⟨text, first, others⟩ := Except.bind_eq_ok.mp built
    obtain ⟨more, next, ⟨⟩⟩ := Except.bind_eq_ok.mp others
    intro text' member
    rcases List.mem_cons.mp member with rfl | member
    · exact parts type (by simp) _ first
    · exact ih (fun t ht => parts t (by simp [ht])) next text' member

theorem fieldConstructors_neutral {fields : List (String × Ty)} {text : String}
    (parts : ∀ f ∈ fields, ∀ text, f.2.constructor = .ok text → Neutral text)
    (built : Ty.fieldConstructors fields = .ok text) : Neutral text := by
  induction fields generalizing text with
  | nil =>
    cases built
    exact .empty
  | cons field rest ih =>
    obtain ⟨name, type⟩ := field
    obtain ⟨first, here, others⟩ := Except.bind_eq_ok.mp built
    obtain ⟨more, next, same⟩ := Except.bind_eq_ok.mp others
    rw [← Except.ok.inj same]
    exact .entry name (parts (name, type) (by simp) _ here) (ih (fun f hf => parts f (by simp [hf])) next)

/-- The host expression that builds a type. -/
theorem constructor_neutral (type : Ty) :
    ∀ text, type.constructor = .ok text → Neutral text := by
  induction type with
  | prim p =>
    rintro _ ⟨⟩ awaited
    have front : Scans (Host.runtimeName ++ ".type.PRIMITIVES[\"") ⟨.code, awaited⟩
        ⟨.string, ']' :: awaited⟩ := rfl
    have named : Scans p.name ⟨.string, ']' :: awaited⟩ ⟨.string, ']' :: awaited⟩ := by
      cases p <;> rfl
    have back : Scans "\"]" ⟨.string, ']' :: awaited⟩ ⟨.code, awaited⟩ := rfl
    exact (front.append named).append back
  | fn parameters returns parametersIH returnsIH =>
    intro text built
    obtain ⟨texts, given, others⟩ := Except.bind_eq_ok.mp built
    obtain ⟨result, returned, same⟩ := Except.bind_eq_ok.mp others
    rw [← Except.ok.inj same]
    intro awaited
    have front : Scans ("new " ++ Host.runtimeName ++ ".type(\"fn\", \x7b parameters: [")
        ⟨.code, awaited⟩ ⟨.code, ']' :: '\x7d' :: ')' :: awaited⟩ := rfl
    have comma : Neutral "," := fun _ => rfl
    have listed := comma.intercalate (constructors_neutral parametersIH given)
    have middle : Scans "], returns: " ⟨.code, ']' :: '\x7d' :: ')' :: awaited⟩
        ⟨.code, '\x7d' :: ')' :: awaited⟩ := rfl
    have back : Scans "\x7d)" ⟨.code, '\x7d' :: ')' :: awaited⟩ ⟨.code, awaited⟩ := rfl
    exact (((front.append (listed _)).append middle).append (returnsIH _ returned _)).append back
  | obj fields ih =>
    intro text built
    obtain ⟨entries, listed, same⟩ := Except.bind_eq_ok.mp built
    rw [← Except.ok.inj same]
    exact @Neutral.between _ ("new " ++ Host.runtimeName ++ ".type(\"obj\", \x7b") "\x7d)"
      ['\x7d', ')'] (fun _ => rfl) (fieldConstructors_neutral ih listed) fun _ => rfl
  | list => rintro _ ⟨⟩

end Scanning

end Arbor
