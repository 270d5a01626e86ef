import Arbor.Proofs.NumeralReading
import Arbor.Proofs.QuotedReading
import Arbor.Proofs.TreeDecoding
import Arbor.Proofs.TreeEcho

/-!
# Indented JSON read back

The reader takes an indented value apart as it was put together: white space around the parts of a
list or an object is passed over, escapes and integers are undone, and a table without a name twice
is built again entry by entry. Only a double may come back as another one, since its numeral is not
always read as the nearest double (`Json.reread`). So the tree that a run shows holds the value of
its source exactly when each double in it is read back.
-/

namespace Arbor

/-! ## White space -/

namespace Json

variable {depth : Nat} {rest : List Char}

theorem skipSpace_cons {c : Char} (dark : isSpace c = false) (rest : List Char) :
    skipSpace (c :: rest) = c :: rest := by
  simp [skipSpace, dark]

theorem toList_lineBreak (indent : Nat) :
    (lineBreak indent).toList = '\n' :: List.replicate (2 * indent) ' ' := by
  simp [lineBreak]

theorem skipSpace_lineBreak (indent : Nat) (rest : List Char) :
    skipSpace ((lineBreak indent).toList ++ rest) = skipSpace rest := by
  refine List.dropWhile_append_of_pos ?_
  intro c member
  rw [toList_lineBreak, List.mem_cons] at member
  rcases member with rfl | blank
  · rfl
  · rw [List.eq_of_mem_replicate blank]
    rfl

/-- A line break goes on no numeral. -/
theorem ends_lineBreak (indent : Nat) (rest : List Char) :
    Numeral.Ends ((lineBreak indent).toList ++ rest) := by
  rw [toList_lineBreak]
  exact Numeral.Ends.cons (by decide)

/-- A value is read behind a blank as without it. -/
theorem readValue_blank (text : List Char) :
    readValue depth (' ' :: text) = readValue depth text := by
  unfold readValue
  rfl

end Json

/-! ## Brackets -/

namespace Bracketed

variable {α β : Type} {kind : Bracketed} {item : List Char → Except SyntaxError (β × List Char)}
  {indent : Nat} {rest : List Char}

/-- A written item is recognised by its first character as none of the brackets, and is read with
the given result wherever no numeral goes on behind it. -/
structure Reads (kind : Bracketed) (item : List Char → Except SyntaxError (β × List Char))
    (written : List Char) (result : Except SyntaxError β) : Prop where
  opens : ∃ c more, written = c :: more ∧ Json.isSpace c = false ∧ c ≠ kind.close
  reads : ∀ rest, Numeral.Ends rest → item (written ++ rest) = result.map (·, rest)

/-- A bracket closes a sequence, and is no separator. -/
structure Closes (kind : Bracketed) : Prop where
  dark : Json.isSpace kind.close = false
  comma : ',' ≠ kind.close

theorem closes_list : list.Closes := ⟨rfl, by decide⟩

theorem closes_object : object.Closes := ⟨rfl, by decide⟩

/-- The items behind the first, each behind a comma on a line of its own. -/
def behindFirst (indent : Nat) (write : α → List Char) (values : List α) : List Char :=
  values.flatMap fun value => ',' :: ((Json.lineBreak indent).toList ++ write value)

theorem behindFirst_cons (indent : Nat) (write : α → List Char) (value : α) (values : List α) :
    behindFirst indent write (value :: values) =
      ',' :: ((Json.lineBreak indent).toList ++
        (write value ++ behindFirst indent write values)) := by
  simp [behindFirst]

/-- What closes a sequence, and what follows it. -/
def ending (kind : Bracketed) (indent : Nat) (rest : List Char) : List Char :=
  (Json.lineBreak indent).toList ++ kind.close :: rest

theorem ends_behindFirst (kind : Bracketed) (indent : Nat) (write : α → List Char) (values : List α)
    (rest : List Char) :
    Numeral.Ends (behindFirst (indent + 1) write values ++ kind.ending indent rest) := by
  cases values with
  | nil => exact Json.ends_lineBreak indent _
  | cons value values => exact Numeral.Ends.cons (by decide)

theorem length_le_behindFirst (indent : Nat) (write : α → List Char) (values : List α) :
    values.length ≤ (behindFirst indent write values).length := by
  induction values with
  | nil => exact Nat.le_refl 0
  | cons value values ih =>
    simp only [behindFirst_cons, List.length_cons, List.length_append]
    omega

variable {write : α → List Char} {result : α → Except SyntaxError β} {values : List α}

/-- Reading an item and those behind it is reading all of them. -/
theorem cons_eq_mapM {first : α} (reads : Except SyntaxError (β × List Char))
    {text : List Char} (here : reads = (result first).map (·, text))
    {more : List Char → Except SyntaxError (List β × List Char)}
    (others : more text = (values.mapM result).map (·, rest)) :
    (do
      let (value, text) ← reads
      let (values, text) ← more text
      .ok (value :: values, text)) = ((first :: values).mapM result).map (·, rest) := by
  rw [here, List.mapM_cons]
  cases result first with
  | error e => rfl
  | ok value =>
    change (more text >>= _) = _
    rw [others]
    cases values.mapM result <;> rfl

theorem readMore_written (closes : kind.Closes)
    (each : ∀ value ∈ values, kind.Reads item (write value) (result value))
    {bound : List Char} (enough : values.length < bound.length) :
    kind.readMore id item bound
        (behindFirst (indent + 1) write values ++ kind.ending indent rest) =
      (values.mapM result).map (·, rest) := by
  induction values generalizing bound with
  | nil =>
    cases bound with
    | nil => cases enough
    | cons c bound =>
      change kind.readMore id item _ (kind.ending indent rest) = _
      rw [readMore, ending, Json.skipSpace_lineBreak, Json.skipSpace_cons closes.dark]
      exact if_pos rfl
  | cons value values ih =>
    cases bound with
    | nil => cases enough
    | cons c bound =>
      obtain ⟨first, others⟩ := List.forall_mem_cons.mp each
      obtain ⟨d, more, opened, dark, unclosed⟩ := first.opens
      have split : behindFirst (indent + 1) write (value :: values) ++ kind.ending indent rest =
          ',' :: ((Json.lineBreak (indent + 1)).toList ++ (d :: (more ++
            (behindFirst (indent + 1) write values ++ kind.ending indent rest)))) := by
        rw [behindFirst_cons, opened]
        simp only [List.cons_append, List.append_assoc]
      rw [split, readMore, Json.skipSpace_cons (by rfl)]
      dsimp only
      rw [if_neg closes.comma, if_pos rfl, Json.skipSpace_lineBreak, Json.skipSpace_cons dark]
      dsimp only
      rw [if_neg unclosed]
      have here := first.reads _ (ends_behindFirst kind indent write values rest)
      rw [opened] at here
      exact cons_eq_mapM _ here (ih others (Nat.lt_of_succ_lt_succ enough))

theorem read_written (closes : kind.Closes) {first : α}
    (each : ∀ value ∈ first :: values, kind.Reads item (write value) (result value)) :
    kind.read id item ((Json.lineBreak (indent + 1)).toList ++ (write first ++
        (behindFirst (indent + 1) write values ++ kind.ending indent rest))) =
      ((first :: values).mapM result).map (·, rest) := by
  obtain ⟨reads, others⟩ := List.forall_mem_cons.mp each
  obtain ⟨c, more, opened, dark, unclosed⟩ := reads.opens
  have here := reads.reads _ (ends_behindFirst kind indent write values rest)
  rw [read, Json.skipSpace_lineBreak]
  rw [opened, List.cons_append] at here ⊢
  rw [Json.skipSpace_cons dark]
  dsimp only
  rw [if_neg unclosed]
  have enough : values.length <
      (behindFirst (indent + 1) write values ++ kind.ending indent rest).length := by
    have front := length_le_behindFirst (indent + 1) write values
    simp only [ending, List.length_append, List.length_cons]
    omega
  exact @cons_eq_mapM _ _ _ _ _ _ _ _ here (fun text => kind.readMore id item text text)
    (readMore_written closes others enough)

theorem toList_intercalate (write : α → String) (first : α) (values : List α) :
    (String.intercalate ("," ++ Json.lineBreak indent) ((first :: values).map write)).toList =
      (write first).toList ++ behindFirst indent (fun value => (write value).toList) values := by
  induction values generalizing first with
  | nil =>
    rw [List.map_singleton, String.intercalate_singleton]
    exact (List.append_nil _).symm
  | cons second values ih =>
    rw [List.map_cons, List.map_cons, String.intercalate_cons_cons, ← List.map_cons]
    rw [String.toList_append, String.toList_append, String.toList_append, ih second,
      behindFirst_cons]
    simp only [List.append_assoc]
    rfl

/-- Items on lines of their own between brackets, read behind the opening one. -/
theorem read_bracketLines (closes : kind.Closes) (opening closing : String) {first : Char}
    (opens : opening.toList = [first]) (closed : closing.toList = [kind.close])
    {write : α → String}
    (each : ∀ value ∈ values, kind.Reads item (write value).toList (result value))
    (indent : Nat) (rest : List Char) :
    ∃ behind, (Json.bracketLines opening closing indent (values.map write)).toList ++ rest =
        first :: behind ∧
      kind.read id item behind = (values.mapM result).map (·, rest) := by
  cases values with
  | nil =>
    refine ⟨kind.close :: rest, ?_, ?_⟩
    · simp [Json.bracketLines, opens, closed]
    · rw [read, Json.skipSpace_cons closes.dark]
      exact if_pos rfl
  | cons value values =>
    refine ⟨_, ?_, @read_written _ _ _ _ indent rest _ _ _ closes _ each⟩
    have lines := @toList_intercalate _ (indent + 1) write value values
    rw [List.map_cons] at lines ⊢
    simp only [Json.bracketLines, String.toList_append, lines, opens, closed, ending,
      List.append_assoc, List.cons_append, List.nil_append]

end Bracketed

/-! ## Scalars -/

theorem Numeral.WellFormed.opens {n : Numeral} (formed : n.WellFormed) :
    ∃ c more, n.spelling = c :: more ∧ (c = '-' ∨ isDigit c) := by
  obtain ⟨negative, whole, fraction, exponent⟩ := n
  cases negative with
  | true => exact ⟨'-', _, rfl, .inl rfl⟩
  | false =>
    obtain ⟨digit, more, rfl⟩ := List.exists_cons_of_ne_nil formed.nonempty
    exact ⟨digit, _, rfl, .inr (formed.whole digit (by simp))⟩

namespace Json

variable {depth : Nat} {rest : List Char}

/-- The escapes of a JSON string. -/
theorem spells_stringEscape : StringBody.Spells stringEscape := by
  intro c rest
  unfold stringEscape
  split
  · exact @StringBody.scan_escape '"' 1 ['"'] rest rfl rfl
  · exact @StringBody.scan_escape '\\' 1 ['\\'] rest rfl rfl
  · exact @StringBody.scan_escape '\x08' 1 ['b'] rest rfl rfl
  · exact @StringBody.scan_escape '\x0c' 1 ['f'] rest rfl rfl
  · exact @StringBody.scan_escape '\n' 1 ['n'] rest rfl rfl
  · exact @StringBody.scan_escape '\r' 1 ['r'] rest rfl rfl
  · exact @StringBody.scan_escape '\t' 1 ['t'] rest rfl rfl
  · next quote slash _ _ _ _ _ =>
    split
    · next control => exact StringBody.scan_hex4 (Nat.lt_trans control (by decide)) rest
    · next printable => exact StringBody.scan_raw quote slash printable rest

theorem readValue_quote (text : String) (rest : List Char) :
    readValue depth ((quote text).toList ++ rest) = .ok (.str text, rest) := by
  rw [quote, Text.toList_quoteWith_append, readValue]
  change (StringBody.read _ >>= _) = _
  rw [spells_stringEscape.read]
  rfl

theorem readMember_quote (read : List Char → Except SyntaxError (Json × List Char)) (name : String)
    (text : List Char) :
    readMember read ((quote name).toList ++ ':' :: text) =
      (read text).map fun found => ((name, found.1), found.2) := by
  rw [quote, Text.toList_quoteWith_append, readMember, spells_stringEscape.read]
  change (read text >>= _) = _
  cases read text <;> rfl

theorem dark_of_number {c : Char} (number : c = '-' ∨ Numeral.isDigit c) : isSpace c = false := by
  rcases number with rfl | digit
  · rfl
  · rw [Bool.eq_false_iff]
    intro space
    simp only [isSpace, Bool.or_eq_true, decide_eq_true_eq] at space
    rcases space with ((rfl | rfl) | rfl) | rfl <;> cases digit

/-- A value that begins with a minus sign or a digit is a number. -/
theorem readValue_number {c : Char} (number : c = '-' ∨ Numeral.isDigit c) (rest : List Char) :
    readValue depth (c :: rest) =
      Numeral.read (c :: rest) >>= fun read =>
        read.1.value >>= fun value => .ok (value, read.2) := by
  have apart {d : Char} (other : ¬(d = '-' ∨ Numeral.isDigit d)) {more : List Char} :
      c :: rest ≠ d :: more := by
    intro same
    rw [(List.cons.inj same).1] at number
    exact other number
  unfold readValue
  rw [skipSpace_cons (dark_of_number number)]
  split
  · next none => cases none
  iterate 6
    · next same => exact absurd same (apart (by decide))
  · next same =>
    cases same
    exact if_pos (by simpa using number)

/-- A number is read as what its numeral stands for. -/
theorem readValue_spelling {n : Numeral} (formed : n.WellFormed) (ends : Numeral.Ends rest) :
    readValue depth (n.spelling ++ rest) = n.value.map (·, rest) := by
  obtain ⟨c, more, opened, number⟩ := formed.opens
  have read := Numeral.read_spelling formed ends
  rw [opened, List.cons_append] at read ⊢
  rw [readValue_number number, read]
  change (n.value >>= _) = _
  cases n.value <;> rfl

/-- A double is read in any place as it is alone. -/
theorem readValue_double (x : Binary64) (ends : Numeral.Ends rest) :
    readValue depth ((numberStyle.write x).toList ++ rest) =
      (read (numberStyle.write x)).map (·, rest) := by
  obtain ⟨n, formed, spelled⟩ := exists_spelling x
  have alone := @readValue_spelling maxDepth [] n formed .nil
  rw [List.append_nil] at alone
  rw [read, ← spelled, readValue_spelling formed ends, alone]
  cases n.value <;> rfl

/-! ## What a written value is read as -/

mutual

/-- What the written value is read as: a double as its numeral is read, the rest as it is. -/
def reread : Json → Except SyntaxError Json
  | .float x => read (numberStyle.write x)
  | .arr items => (rereadItems items).map .arr
  | .obj members => (rereadMembers members).map .obj
  | value => .ok value

/-- The items of a list as they are read. -/
def rereadItems : List Json → Except SyntaxError (List Json)
  | [] => .ok []
  | item :: rest => do
    let item ← reread item
    let rest ← rereadItems rest
    .ok (item :: rest)

/-- The members of an object as they are read. -/
def rereadMembers : List (String × Json) → Except SyntaxError (List (String × Json))
  | [] => .ok []
  | (name, value) :: rest => do
    let value ← reread value
    let rest ← rereadMembers rest
    .ok ((name, value) :: rest)

end

mutual

/-- The doubles in the value. -/
def doubles : Json → List Binary64
  | .float x => [x]
  | .arr items => itemDoubles items
  | .obj members => memberDoubles members
  | _ => []

/-- The doubles in the items of a list. -/
def itemDoubles : List Json → List Binary64
  | [] => []
  | item :: rest => doubles item ++ itemDoubles rest

/-- The doubles in the members of an object. -/
def memberDoubles : List (String × Json) → List Binary64
  | [] => []
  | (_, value) :: rest => doubles value ++ memberDoubles rest

end

theorem rereadItems_eq_mapM (items : List Json) : rereadItems items = items.mapM reread := by
  induction items with
  | nil => rfl
  | cons item rest ih =>
    rw [rereadItems, ih, List.mapM_cons]
    rfl

theorem rereadMembers_eq_mapM (members : List (String × Json)) :
    rereadMembers members = members.mapM fun member => member.2.reread.map (member.1, ·) := by
  induction members with
  | nil => rfl
  | cons member rest ih =>
    obtain ⟨name, value⟩ := member
    rw [rereadMembers, ih, List.mapM_cons]
    cases value.reread <;> rfl

theorem itemDoubles_eq_flatMap (items : List Json) : itemDoubles items = items.flatMap doubles := by
  induction items with
  | nil => rfl
  | cons item rest ih => rw [itemDoubles, ih, List.flatMap_cons]

theorem memberDoubles_eq_flatMap (members : List (String × Json)) :
    memberDoubles members = members.flatMap fun member => member.2.doubles := by
  induction members with
  | nil => rfl
  | cons member rest ih =>
    obtain ⟨name, value⟩ := member
    rw [memberDoubles, ih, List.flatMap_cons]

theorem prettyItems_eq_map (indent : Nat) (items : List Json) :
    prettyItems indent items = items.map (prettyAt indent) := by
  induction items with
  | nil => rfl
  | cons item rest ih => rw [prettyItems, ih, List.map_cons]

theorem prettyMembers_eq_map (indent : Nat) (members : List (String × Json)) :
    prettyMembers indent members =
      members.map fun member => quote member.1 ++ ": " ++ prettyAt indent member.2 := by
  induction members with
  | nil => rfl
  | cons member rest ih =>
    obtain ⟨name, value⟩ := member
    rw [prettyMembers, ih, List.map_cons]

end Json

/-- The double that a value is. -/
def Json.double? : Json → Option Binary64
  | .float x => some x
  | _ => none

theorem Json.read_eq_float {text : String} {x : Binary64} :
    (read text).toOption.bind double? = some x ↔ read text = .ok (.float x) := by
  cases read text with
  | error e => simp [Except.toOption]
  | ok value => cases value <;> simp [Except.toOption, double?]

/-- The double is read back from its numeral in JSON. -/
def Binary64.ReadsBack (x : Binary64) : Prop :=
  Json.read (Json.numberStyle.write x) = .ok (.float x)

instance (x : Binary64) : Decidable x.ReadsBack :=
  decidable_of_iff _ Json.read_eq_float

namespace Json

/-- A written value is read back exactly when the doubles in it are. -/
theorem reread_eq_ok_iff (value : Json) :
    value.reread = .ok value ↔ ∀ x ∈ value.doubles, x.ReadsBack := by
  induction value with
  | float x => simp [reread, doubles, Binary64.ReadsBack]
  | arr items ih =>
    have parts : items.mapM reread = .ok items ↔ ∀ item ∈ items, item.reread = .ok item := by
      rw [Except.mapM_eq_ok, List.forall₂_same]
    simp only [reread, rereadItems_eq_mapM, Except.map_eq_ok, arr.injEq, exists_eq_right, parts,
      doubles, itemDoubles_eq_flatMap, List.mem_flatMap]
    constructor
    · rintro all x ⟨item, member, inside⟩
      exact (ih item member).mp (all item member) x inside
    · intro all item member
      exact (ih item member).mpr fun x inside => all x ⟨item, member, inside⟩
  | obj members ih =>
    have parts : (members.mapM fun member => member.2.reread.map (member.1, ·)) = .ok members ↔
        ∀ member ∈ members, member.2.reread = .ok member.2 := by
      rw [Except.mapM_eq_ok, List.forall₂_same]
      simp only [Except.map_eq_ok, Prod.ext_iff, true_and, exists_eq_right]
    simp only [reread, rereadMembers_eq_mapM, Except.map_eq_ok, obj.injEq, exists_eq_right, parts,
      doubles, memberDoubles_eq_flatMap, List.mem_flatMap]
    constructor
    · rintro all x ⟨member, known, inside⟩
      exact (ih member known).mp (all member known) x inside
    · intro all member known
      exact (ih member known).mpr fun x inside => all x ⟨member, known, inside⟩
  | _ => simp [reread, doubles]

/-! ## Reading a written value -/

/-- At most so many lists and objects are open at once in the value. -/
inductive Fits : Nat → Json → Prop where
  | null (depth : Nat) : Fits depth .null
  | bool (depth : Nat) (value : Bool) : Fits depth (.bool value)
  | int (depth : Nat) (value : WideInt) : Fits depth (.int value)
  | float (depth : Nat) (value : Binary64) : Fits depth (.float value)
  | str (depth : Nat) (text : String) : Fits depth (.str text)
  | arr {depth : Nat} {items : List Json} : (∀ item ∈ items, Fits depth item) →
      Fits (depth + 1) (.arr items)
  | obj {depth : Nat} {members : List (String × Json)} :
      (∀ member ∈ members, Fits depth member.2) → Fits (depth + 1) (.obj members)

theorem fits_of_readValue {text : List Char} {value : Json}
    (done : readValue depth text = .ok (value, rest)) : value.Fits depth :=
  @holds_of_readValue (fun depth value => value.Fits depth) .null .bool .int .float .str
    (fun _ _ => .arr) (fun _ _ _ => .obj) depth text rest value done

end Json

namespace Fields

variable {α : Type}

theorem insert_fresh {name : String} {value : α} {fields : List (String × α)}
    (fresh : name ∉ names fields) : insert name value fields = fields ++ [(name, value)] := by
  induction fields with
  | nil => rfl
  | cons field rest ih =>
    obtain ⟨here, others⟩ := not_or.mp (mt List.mem_cons.mpr fresh)
    rw [insert, if_neg (Ne.symm here), ih others, List.cons_append]

/-- Entries without a name twice are the table that they build. -/
theorem ofPairs_eq_self {pairs : List (String × α)} (apart : (names pairs).Nodup) :
    ofPairs pairs = pairs := by
  have step : ∀ start : List (String × α), (names (start ++ pairs)).Nodup →
      pairs.foldl (fun fields p => insert p.1 p.2 fields) start = start ++ pairs := by
    clear apart
    induction pairs with
    | nil => intro start apart; exact (List.append_nil start).symm
    | cons pair rest ih =>
      intro start apart
      have fresh : pair.1 ∉ names start := by
        rw [names, List.map_append, List.nodup_append] at apart
        intro known
        exact apart.2.2 _ known _ List.mem_cons_self rfl
      have together : start ++ pair :: rest = start ++ [pair] ++ rest := by simp
      rw [together] at apart ⊢
      rw [List.foldl_cons, insert_fresh fresh]
      exact ih _ apart
  exact step [] apart

end Fields

namespace Json

theorem bracketLines_opens (opening closing : String) (indent : Nat) (items : List String) :
    ∃ more, (bracketLines opening closing indent items).toList = opening.toList ++ more := by
  cases items with
  | nil => exact ⟨_, String.toList_append⟩
  | cons first items =>
    rw [bracketLines]
    simp only [String.toList_append, List.append_assoc]
    exact ⟨_, rfl⟩

/-- What opens a written value is neither white space nor a closing bracket. -/
theorem prettyAt_opens (indent : Nat) (value : Json) :
    ∃ c more, (prettyAt indent value).toList = c :: more ∧ isSpace c = false ∧
      c ≠ ']' ∧ c ≠ '\x7d' := by
  have number {n : Numeral} (formed : n.WellFormed) : ∃ c more, n.spelling = c :: more ∧
      isSpace c = false ∧ c ≠ ']' ∧ c ≠ '\x7d' := by
    obtain ⟨c, more, opened, number⟩ := formed.opens
    refine ⟨c, more, opened, dark_of_number number, ?_, ?_⟩ <;>
      · rintro rfl
        revert number
        decide
  cases value with
  | null =>
    rw [prettyAt]
    exact ⟨'n', ['u', 'l', 'l'], rfl, by decide⟩
  | bool value =>
    cases value with
    | false =>
      rw [prettyAt]
      exact ⟨'f', ['a', 'l', 's', 'e'], rfl, by decide⟩
    | true =>
      rw [prettyAt]
      exact ⟨'t', ['r', 'u', 'e'], rfl, by decide⟩
  | int n =>
    rw [prettyAt, ← Numeral.spelling_ofInt]
    exact number (Numeral.wellFormed_ofInt n.val)
  | float x =>
    obtain ⟨n, formed, spelled⟩ := exists_spelling x
    rw [prettyAt, ← spelled]
    exact number formed
  | str text =>
    rw [prettyAt, quote, Text.toList_quoteWith]
    exact ⟨_, _, rfl, by decide⟩
  | arr items =>
    obtain ⟨more, opened⟩ := bracketLines_opens "[" "]" indent (prettyItems (indent + 1) items)
    exact ⟨'[', more, opened, by decide⟩
  | obj members =>
    obtain ⟨more, opened⟩ :=
      bracketLines_opens "\x7b" "\x7d" indent (prettyMembers (indent + 1) members)
    exact ⟨'\x7b', more, opened, by decide⟩

/-- The items of a written list. -/
theorem reads_item {item : Json} {indent : Nat}
    (reads : ∀ rest, Numeral.Ends rest →
      readValue depth ((prettyAt indent item).toList ++ rest) = item.reread.map (·, rest)) :
    Bracketed.list.Reads (readValue depth) (prettyAt indent item).toList item.reread where
  opens := by
    obtain ⟨c, more, opened, dark, unclosed, -⟩ := prettyAt_opens indent item
    exact ⟨c, more, opened, dark, unclosed⟩
  reads := reads

/-- The members of a written object. -/
theorem reads_member {member : String × Json} {indent : Nat}
    (reads : ∀ rest, Numeral.Ends rest →
      readValue depth ((prettyAt indent member.2).toList ++ rest) = member.2.reread.map (·, rest)) :
    Bracketed.object.Reads (readMember (readValue depth))
      (quote member.1 ++ ": " ++ prettyAt indent member.2).toList
      (member.2.reread.map (member.1, ·)) where
  opens := by
    rw [String.toList_append, String.toList_append, quote, Text.toList_quoteWith]
    exact ⟨'"', _, rfl, by decide⟩
  reads := by
    intro rest ends
    have text : (quote member.1 ++ ": " ++ prettyAt indent member.2).toList ++ rest =
        (quote member.1).toList ++ ':' :: ' ' :: ((prettyAt indent member.2).toList ++ rest) := by
      simp
    rw [text, readMember_quote, readValue_blank, reads rest ends]
    cases member.2.reread <;> rfl

/-- A written value is read up to where it ends. -/
theorem readValue_prettyAt {value : Json} (fits : value.Fits depth) (distinct : value.Distinct)
    (indent : Nat) (ends : Numeral.Ends rest) :
    readValue depth ((prettyAt indent value).toList ++ rest) = value.reread.map (·, rest) := by
  induction fits generalizing indent rest with
  | null depth =>
    rw [prettyAt, readValue]
    rfl
  | bool depth value =>
    cases value <;>
      · rw [prettyAt, readValue]
        rfl
  | int depth n =>
    rw [prettyAt, ← Numeral.spelling_ofInt,
      readValue_spelling (Numeral.wellFormed_ofInt n.val) ends, Numeral.value_ofInt]
    rfl
  | float depth x => exact readValue_double x ends
  | str depth text => exact readValue_quote text rest
  | @arr depth items _ ih =>
    cases distinct with
    | arr distinct =>
      have each : ∀ item ∈ items, Bracketed.list.Reads (readValue depth)
          (prettyAt (indent + 1) item).toList item.reread := fun item member =>
        reads_item fun rest ends => ih item member (distinct item member) (indent + 1) ends
      obtain ⟨behind, opened, read⟩ :=
        Bracketed.read_bracketLines Bracketed.closes_list "[" "]" rfl rfl each indent rest
      rw [prettyAt, prettyItems_eq_map, opened, readValue]
      change (Bracketed.list.read id (readValue depth) behind >>= _) = _
      rw [read, reread, rereadItems_eq_mapM]
      cases items.mapM reread <;> rfl
  | @obj depth members _ ih =>
    cases distinct with
    | obj apart distinct =>
      have each : ∀ member ∈ members, Bracketed.object.Reads (readMember (readValue depth))
          (quote member.1 ++ ": " ++ prettyAt (indent + 1) member.2).toList
          (member.2.reread.map (member.1, ·)) := fun member known =>
        reads_member fun rest ends => ih member known (distinct member known) (indent + 1) ends
      obtain ⟨behind, opened, read⟩ :=
        Bracketed.read_bracketLines Bracketed.closes_object "\x7b" "\x7d" rfl rfl each indent rest
      rw [prettyAt, prettyMembers_eq_map, opened, readValue]
      change (Bracketed.object.read id (readMember (readValue depth)) behind >>= _) = _
      rw [read, reread, rereadMembers_eq_mapM]
      cases found : members.mapM fun member => member.2.reread.map (member.1, ·) with
      | error e => rfl
      | ok again =>
        -- The names are those of the value, so the writes behind each other take nothing away.
        have same : Fields.names again = Fields.names members := by
          have entries : List.Forall₂ (Fields.Entry fun value again => value.reread = .ok again)
              members again := by
            refine (Except.mapM_eq_ok.mp found).imp ?_
            rintro ⟨name, value⟩ _ here
            obtain ⟨again, read, rfl⟩ := Except.map_eq_ok.mp here
            exact .mk read
          exact (Fields.names_eq_of_entries entries).symm
        change Except.ok (obj (Fields.ofPairs again), rest) = _
        rw [Fields.ofPairs_eq_self (same ▸ apart)]
        rfl

theorem read_pretty_of_read {source : String} {value : Json} (readable : read source = .ok value) :
    read (value.pretty ++ "\n") = value.reread := by
  obtain ⟨⟨_, rest⟩, done, ended⟩ := Except.bind_eq_ok.mp readable
  obtain ⟨_, -, ⟨⟩⟩ := Except.bind_eq_ok.mp ended
  have ends : Numeral.Ends ['\n'] := Numeral.Ends.cons (by decide)
  have again := readValue_prettyAt (fits_of_readValue done) (distinct_of_readValue done) 0 ends
  have text : (value.pretty ++ "\n").toList = (prettyAt 0 value).toList ++ ['\n'] :=
    String.toList_append
  rw [read, text, again]
  cases value.reread <;> rfl

end Json

namespace Cli

/-- The shown tree is a faithful copy. A run that shows the tree of a source writes one text ahead
of everything else, whatever words it has for the errors of a tree; that text is read as the value
of the source exactly when each double in the value is read back from its numeral, and then the same
program is read from it, or none as from the source. -/
theorem echo_is_faithful {source : String} {value : Json}
    (readable : Json.read source = .ok value) :
    ∃ text, (∀ wording, echo wording source = .ok text) ∧
      (∀ (wording : TreeError.Wording) (filter : LogFilter) (options : Options), ∃ said,
        (prepare wording filter { options with printTree := true } source).1 = text ++ said) ∧
      (Json.read text = .ok value ↔ ∀ x ∈ value.doubles, x.ReadsBack) ∧
      ((∀ x ∈ value.doubles, x.ReadsBack) →
        ∀ program, Program.read text = .ok program ↔ Program.read source = .ok program) := by
  have shown (wording : TreeError.Wording) : echo wording source = .ok (value.pretty ++ "\n") := by
    rw [echo, readable]
  have faithful : Json.read (value.pretty ++ "\n") = .ok value ↔
      ∀ x ∈ value.doubles, x.ReadsBack := by
    rw [Json.read_pretty_of_read readable, Json.reread_eq_ok_iff]
  refine ⟨_, shown, ?_, faithful, ?_⟩
  · intro wording filter options
    unfold prepare
    rw [echoIf, if_pos rfl, shown]
    rcases compileLogged source with ⟨failure | artifact, log⟩
    · exact ⟨_, rfl⟩
    · exact ⟨_, rfl⟩
  · intro back program
    rw [Program.read_eq_ok, Program.read_eq_ok, faithful.mpr back, readable]

set_option maxRecDepth 4000 in
/-- A value with empty brackets, a name written twice, an escape, a number beyond the signed words
and a double is shown and read back. The double `3.3333333333333335e-10` is not: its shortest digits
are read as the double below. -/
theorem echo_is_faithful_of_mixed :
    let mixed := "[\x7b\"b\":1,\"a\":[1e16,\x7b\x7d],\"b\":9223372036854775808\x7d,\"\\b\"]"
    let third := "3.3333333333333335e-10"
    (∃ value text, Json.read mixed = .ok value ∧ echo .bare mixed = .ok text ∧
      Json.read text = .ok value) ∧
    ∃ value text, Json.read third = .ok value ∧ echo .bare third = .ok text ∧
      Json.read text ≠ .ok value := by
  intro mixed third
  constructor
  · have readable : Json.read mixed =
        .ok (.arr [.obj [("b", .int ⟨9223372036854775808, by decide, by decide⟩),
          ("a", .arr [.float ⟨false, 4846369599423283200, by decide⟩, .obj []])],
          .str "\x08"]) := by
      unfold mixed
      rfl
    have back : Binary64.ReadsBack ⟨false, 4846369599423283200, by decide⟩ := by decide +kernel
    obtain ⟨text, shown, -, faithful, -⟩ := echo_is_faithful readable
    refine ⟨_, text, readable, shown .bare, faithful.mpr ?_⟩
    intro x inside
    cases List.mem_singleton.mp inside
    exact back
  · have readable : Json.read third = .ok (.float ⟨false, 4465011235468069062, by decide⟩) :=
      Json.read_eq_float.mp (by decide +kernel)
    have lost : ¬Binary64.ReadsBack ⟨false, 4465011235468069062, by decide⟩ := by decide +kernel
    obtain ⟨text, shown, -, faithful, -⟩ := echo_is_faithful readable
    refine ⟨_, text, readable, shown .bare, fun same => lost ?_⟩
    exact faithful.mp same _ (List.mem_singleton.mpr rfl)

end Cli

end Arbor
