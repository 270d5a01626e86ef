import Arbor.Json.Reader
import Arbor.Text.Quoted

/-!
# Quoted text read back

The escapes of an emitted string literal are escapes of a JSON string, so the reader of string
bodies reads an emitted literal back and stops at its closing quote. The same holds for any spelling
of characters whose escapes the reader knows (`Spells`). So a quoted text has one reading, and where
it ends can be told without knowing what follows.
-/

namespace Arbor

namespace StringBody

theorem hexValue?_digitChar {d : Nat} (h : d < 16) : hexValue? (Nat.digitChar d) = some d := by
  have all : ∀ d : Fin 16, hexValue? (Nat.digitChar d) = some d.val := by decide
  exact all ⟨d, h⟩

theorem utf8Size_digitChar {d : Nat} (h : d < 16) : (Nat.digitChar d).utf8Size = 1 := by
  have all : ∀ d : Fin 16, (Nat.digitChar d).utf8Size = 1 := by decide
  exact all ⟨d, h⟩

/-- Four hexadecimal digits name their code unit. -/
theorem codeUnit_hex4 {n : Nat} (h : n < 65536) (rest : List Char) :
    codeUnit (Text.hex4 n ++ rest) = .ok n := by
  have below (m : Nat) : m % 16 < 16 := Nat.mod_lt _ (by decide)
  have first : (Text.hex4 n ++ rest).take 4 = Text.hex4 n := by simp [Text.hex4]
  have bytes : (String.ofList (Text.hex4 n)).utf8ByteSize = 4 := by
    simp [Text.hex4, utf8Size_digitChar (below _)]
  have values : (Text.hex4 n).mapM hexValue? =
      some [n / 4096 % 16, n / 256 % 16, n / 16 % 16, n % 16] := by
    simp [Text.hex4, hexValue?_digitChar (below _)]
  rw [codeUnit, first, bytes, values]
  dsimp only
  rw [if_neg (by decide)]
  congr 1
  omega

/-- A backslash and what follows it are read as one character. -/
theorem scan_escape {c : Char} {taken : Nat} {spelled rest : List Char}
    (read : escape (spelled ++ rest) = .ok (c, taken)) (length : spelled.length = taken) :
    scan 0 ('\\' :: (spelled ++ rest)) = (scan 0 rest).map fun read => (c :: read.1, read.2) := by
  have skip (spelled : List Char) : scan spelled.length (spelled ++ rest) = scan 0 rest := by
    induction spelled with
    | nil => rfl
    | cons d spelled ih => exact ih
  rw [scan]
  simp only [Char.reduceEq, if_false, if_true, read, ← length]
  change (scan spelled.length (spelled ++ rest) >>= _) = _
  rw [skip]
  cases scan 0 rest <;> rfl

theorem escape_hex4 {n : Nat} (h : n < 0xd800) (rest : List Char) :
    escape ('u' :: Text.hex4 n ++ rest) = .ok (Char.ofNat n, 5) := by
  have unit := codeUnit_hex4 (Nat.lt_trans h (by decide)) rest
  have read : unicodeEscape (Text.hex4 n ++ rest) = .ok (Char.ofNat n, 4) := by
    rw [unicodeEscape, unit]
    change (if 0xdc00 ≤ n && n ≤ 0xdfff then _ else _) = _
    rw [if_neg (by simp; omega), if_neg (by simp; omega)]
  rw [List.cons_append, escape, read]
  rfl

/-- A character spelled by its code unit. -/
theorem scan_hex4 {c : Char} (bound : c.toNat < 0xd800) (rest : List Char) :
    scan 0 ('\\' :: 'u' :: Text.hex4 c.toNat ++ rest) =
      (scan 0 rest).map fun read => (c :: read.1, read.2) := by
  have read := escape_hex4 bound rest
  rw [Char.ofNat_toNat] at read
  exact scan_escape read rfl

/-- A character that stands for itself. -/
theorem scan_raw {c : Char} (quote : c ≠ '"') (slash : c ≠ '\\') (printable : ¬c.toNat < 0x20)
    (rest : List Char) :
    scan 0 ([c] ++ rest) = (scan 0 rest).map fun read => (c :: read.1, read.2) := by
  rw [List.singleton_append, scan]
  simp only [if_neg quote, if_neg slash, if_neg printable]
  cases scan 0 rest <;> rfl

/-- A spelling of characters such that each is read as one character, the one it spells. -/
def Spells (spelling : Char → List Char) : Prop :=
  ∀ (c : Char) (rest : List Char),
    scan 0 (spelling c ++ rest) = (scan 0 rest).map fun read => (c :: read.1, read.2)

/-- A text is read back up to its closing quote, whatever follows. -/
theorem Spells.read {spelling : Char → List Char} (spells : Spells spelling) (text : String)
    (rest : List Char) :
    StringBody.read (text.toList.flatMap spelling ++ '"' :: rest) = .ok (text, rest) := by
  have body (chars : List Char) :
      scan 0 (chars.flatMap spelling ++ '"' :: rest) = .ok (chars, rest) := by
    induction chars with
    | nil => rfl
    | cons c chars ih =>
      rw [List.flatMap_cons, List.append_assoc, spells, ih]
      rfl
  rw [StringBody.read, body]
  exact congrArg (fun text => Except.ok (text, rest)) String.ofList_toList

/-- The escapes of an emitted string literal. -/
theorem spells_literalEscape : Spells Text.literalEscape := by
  intro c rest
  unfold Text.literalEscape
  split
  · exact @scan_escape '"' 1 ['"'] rest rfl rfl
  · exact @scan_escape '\\' 1 ['\\'] rest rfl rfl
  · exact @scan_escape '\n' 1 ['n'] rest rfl rfl
  · exact @scan_escape '\r' 1 ['r'] rest rfl rfl
  · exact @scan_escape '\t' 1 ['t'] rest rfl rfl
  · next quote slash _ _ _ =>
    split
    · next spelled =>
      refine scan_hex4 ?_ rest
      simp only [Bool.or_eq_true, decide_eq_true_eq, beq_iff_eq] at spelled
      omega
    · next plain =>
      refine scan_raw quote slash ?_ rest
      intro control
      simp [control] at plain

end StringBody

namespace Text

theorem toList_quoteWith_append (spelling : Char → List Char) (text : String) (rest : List Char) :
    (quoteWith spelling text).toList ++ rest =
      '"' :: (text.toList.flatMap spelling ++ '"' :: rest) := by
  rw [quoteWith, String.toList_ofList, List.cons_append, List.append_assoc, List.singleton_append]

theorem toList_quoteWith (spelling : Char → List Char) (text : String) :
    (quoteWith spelling text).toList = '"' :: (text.toList.flatMap spelling ++ ['"']) := by
  rw [← toList_quoteWith_append, List.append_nil]

/-- The characters of an escape are printable and break no line. -/
theorem printable_of_mem_literalEscape {c d : Char} (member : d ∈ literalEscape c) :
    0x20 ≤ d.toNat ∧ d ≠ '\u2028' ∧ d ≠ '\u2029' := by
  have digits (n : Nat) : 0x20 ≤ (Nat.digitChar (n % 16)).toNat ∧
      Nat.digitChar (n % 16) ≠ '\u2028' ∧ Nat.digitChar (n % 16) ≠ '\u2029' := by
    have all : ∀ d : Fin 16, 0x20 ≤ (Nat.digitChar d).toNat ∧
        Nat.digitChar d ≠ '\u2028' ∧ Nat.digitChar d ≠ '\u2029' := by decide
    exact all ⟨n % 16, Nat.mod_lt n (by decide)⟩
  unfold literalEscape at member
  split at member
  iterate 5
    · simp only [List.mem_cons, List.not_mem_nil, or_false] at member
      rcases member with rfl | rfl <;> decide
  · split at member
    · simp only [hex4, List.map_cons, List.map_nil, List.mem_cons, List.not_mem_nil, or_false]
        at member
      rcases member with rfl | rfl | rfl | rfl | rfl | rfl
      · decide
      · decide
      all_goals exact digits _
    · next raw =>
      rw [List.mem_singleton] at member
      subst member
      simp only [Bool.or_eq_true, decide_eq_true_eq, beq_iff_eq, not_or, Nat.not_lt] at raw
      obtain ⟨⟨control, separator⟩, paragraph⟩ := raw
      refine ⟨control, ?_, ?_⟩
      · rintro rfl
        exact separator rfl
      · rintro rfl
        exact paragraph rfl

/-- Quoting is undone by the reader of JSON, a quoted text has no raw control character and no
raw line separator in it, and where a quoted text ends can be told from the text itself. -/
theorem quote_reversible :
    (∀ text, Json.read (quote text) = .ok (.str text)) ∧
    (∀ text, ∀ c ∈ (quote text).toList, 0x20 ≤ c.toNat ∧ c ≠ '\u2028' ∧ c ≠ '\u2029') ∧
    ∀ first last behind beyond : String,
      quote first ++ behind = quote last ++ beyond ↔ first = last ∧ behind = beyond := by
  have spells := StringBody.spells_literalEscape
  refine ⟨?_, ?_, ?_⟩
  · intro text
    rw [Json.read, quote, toList_quoteWith, Json.readValue]
    change (StringBody.read _ >>= _) >>= _ = _
    rw [spells.read]
    rfl
  · intro text c member
    rw [quote, toList_quoteWith, List.mem_cons, List.mem_append, List.mem_singleton] at member
    rcases member with rfl | member | rfl
    · decide
    · obtain ⟨spelled, -, inside⟩ := List.mem_flatMap.mp member
      exact printable_of_mem_literalEscape inside
    · decide
  · intro first last behind beyond
    constructor
    · intro same
      -- Both sides are read up to the closing quote, which gives the text and what follows it.
      have texts := congrArg String.toList same
      rw [String.toList_append, String.toList_append, quote, quote, toList_quoteWith_append,
        toList_quoteWith_append] at texts
      have read := spells.read first behind.toList
      rw [(List.cons.inj texts).2, spells.read last] at read
      obtain ⟨rfl, rests⟩ := Prod.mk.inj (Except.ok.inj read)
      exact ⟨rfl, (String.toList_inj.mp rests).symm⟩
    · rintro ⟨rfl, rfl⟩
      rfl

/-- Quotes and backslashes side by side, a control character and a line separator. -/
theorem quote_reversible_of_hostile :
    let hostile := "\\\"\\\\\"\x01\u2028"
    quote hostile = "\"\\\\\\\"\\\\\\\\\\\"\\u0001\\u2028\"" ∧
      Json.read (quote hostile) = .ok (.str hostile) ∧
      '0' ∈ (quote hostile).toList ∧ 0x20 ≤ '0'.toNat ∧ '0' ≠ '\u2028' := by
  intro hostile
  have inside : '0' ∈ (quote hostile).toList := by decide
  have printable := quote_reversible.2.1 hostile '0' inside
  exact ⟨by decide, quote_reversible.1 hostile, inside, printable.1, printable.2.1⟩

end Text

end Arbor
