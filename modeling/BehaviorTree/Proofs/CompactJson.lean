import BehaviorTree.Json.Codec

/-!
# Compact JSON

`Json.Writes` is the compact written form of data: no blanks, numbers in decimal, fields in their
order. It leaves out what recordings do not need: numbers with a sign, fractions or exponents, and
characters of texts that have to be escaped.

Reading undoes it. A value is read back whatever follows it, as long as what follows does not go on
with a number (`Json.Writes.read?`), so a whole text is read back (`Json.Writes.of_text?`). A
recording is written in this form (`TraceLog.writes`) and found again in the data that is read
(`TraceLog.of_json?_json`), hence it survives being written and read (`recording_survives`).
-/

namespace BehaviorTree

namespace Json

/-! ## Numbers -/

/-- What follows a number without going on with it. -/
def EndsNumber (rest : List Char) : Prop :=
  ∀ c ∈ rest.head?, Decimal.isDigit c = false ∧ c ≠ '.' ∧ c ≠ 'e' ∧ c ≠ 'E'

/-- Digits are read as far as they go. -/
theorem digits?_append {digits rest : List Char} (hdigits : ∀ c ∈ digits, Decimal.isDigit c = true)
    (hsome : digits ≠ []) (hrest : EndsNumber rest) :
    digits? (digits ++ rest) = some (digits, rest) := by
  have hstop : rest.takeWhile Decimal.isDigit = [] ∧ rest.dropWhile Decimal.isDigit = rest := by
    cases rest with
    | nil => exact ⟨rfl, rfl⟩
    | cons c rest =>
        have hc : Decimal.isDigit c = false := (hrest c rfl).1
        simp [hc]
  have htake : (digits ++ rest).takeWhile Decimal.isDigit = digits := by
    rw [List.takeWhile_append_of_pos hdigits, hstop.1, List.append_nil]
  have hdrop : (digits ++ rest).dropWhile Decimal.isDigit = rest := by
    rw [List.dropWhile_append_of_pos hdigits, hstop.2]
  simp [digits?, htake, hdrop, hsome]

/-- A number in decimal is read back if what follows does not go on with it. -/
theorem whole?_to_digits (n : Nat) {rest : List Char} (hrest : EndsNumber rest) :
    whole? (Nat.toDigits 10 n ++ rest) = some (n, rest) := by
  have hdigits : ∀ c ∈ Nat.toDigits 10 n, Decimal.isDigit c = true := fun c hc =>
    Decimal.is_digit_of_mem_to_digits hc
  -- Only zero itself is written with a zero in front.
  have hlead : 1 < (Nat.toDigits 10 n).length → ¬ (Nat.toDigits 10 n).head? = some '0' := by
    intro hlong
    cases n with
    | zero => exact absurd hlong (by decide)
    | succ n => exact Decimal.head?_to_digits_ne_zero (Nat.succ_pos n)
  rw [whole?, digits?_append hdigits Nat.toDigits_ne_nil hrest]
  simpa [Decimal.natural?_to_digits] using hlead

/-- No fraction is read where the number ends. -/
theorem fraction?_of_ends_number {rest : List Char} (hrest : EndsNumber rest) :
    fraction? rest = some (false, rest) := by
  unfold fraction?
  split
  · exact absurd rfl (hrest '.' rfl).2.1
  · rfl

/-- No exponent is read where the number ends. -/
theorem exponent?_of_ends_number {rest : List Char} (hrest : EndsNumber rest) :
    exponent? rest = some (false, rest) := by
  cases rest with
  | nil => rfl
  | cons c rest =>
      have hc : ¬ (c = 'e' ∨ c = 'E') := not_or.2 (hrest c rfl).2.2
      show (if c = 'e' ∨ c = 'E' then _ else some (false, c :: rest)) = _
      rw [if_neg hc]

/-- A number is written with a digit in front. -/
theorem exists_to_digits_cons (n : Nat) :
    ∃ c digits, Nat.toDigits 10 n = c :: digits ∧ ∀ d, Decimal.isDigit d = false → c ≠ d := by
  cases hdigits : Nat.toDigits 10 n with
  | nil => exact absurd hdigits Nat.toDigits_ne_nil
  | cons c digits =>
      refine ⟨c, digits, rfl, ?_⟩
      rintro d hd rfl
      have hdigit : Decimal.isDigit c = true :=
        Decimal.is_digit_of_mem_to_digits (hdigits ▸ List.mem_cons_self)
      rw [hd] at hdigit
      exact absurd hdigit (by decide)

/-- A number in decimal is read as that number. -/
theorem number?_to_digits (n : Nat) {rest : List Char} (hrest : EndsNumber rest) :
    number? (Nat.toDigits 10 n ++ rest) = some (natural n, rest) := by
  obtain ⟨c, digits, hdigits, hother⟩ := exists_to_digits_cons n
  unfold number?
  split
  next isNegative body hsign =>
    split at hsign
    next tail heq =>
      rw [hdigits, List.cons_append, List.cons.injEq] at heq
      exact absurd heq.1 (hother '-' (by decide))
    next =>
      obtain ⟨rfl, rfl⟩ := Prod.mk.inj hsign
      simp [whole?_to_digits n hrest, fraction?_of_ends_number hrest,
        exponent?_of_ends_number hrest]

/-! ## Texts -/

/-- Characters that stand for themselves in a text. -/
def IsPlain (c : Char) : Prop := c ≠ '"' ∧ c ≠ '\\' ∧ 0x20 ≤ c.toNat

instance (c : Char) : Decidable (IsPlain c) := inferInstanceAs (Decidable (_ ∧ _ ∧ _))

/-- Texts that are read as they stand. -/
def ArePlain (s : List Char) : Prop := ∀ c ∈ s, IsPlain c

instance (s : List Char) : Decidable (ArePlain s) := List.decidableBAll IsPlain s

/-- A plain text is read up to its closing quote, one piece for each character. -/
theorem pieces?_plain {s rest : List Char} (hs : ArePlain s) {fuel : Nat}
    (hfuel : s.length < fuel) :
    pieces? fuel (s ++ '"' :: rest) = some (s.map Piece.char, rest) := by
  induction s generalizing fuel with
  | nil =>
      obtain ⟨fuel, rfl⟩ := Nat.exists_eq_add_of_lt hfuel
      simp [pieces?]
  | cons c s ih =>
      obtain ⟨hquote, hescape, hcontrol⟩ := hs c List.mem_cons_self
      cases fuel with
      | zero => exact absurd hfuel (Nat.not_lt_zero _)
      | succ fuel =>
          have hrest : ArePlain s := fun d hd => hs d (List.mem_cons_of_mem _ hd)
          have hrec := ih hrest (Nat.lt_of_succ_lt_succ hfuel)
          simp [pieces?, hquote, hescape, Nat.not_lt.2 hcontrol, hrec]

/-- Pieces that are characters make up the text of these characters. -/
theorem join?_chars (s : List Char) : join? (s.map Piece.char) = some s := by
  induction s with
  | nil => rfl
  | cons c s ih => simp [join?, ih]

/-- A text of plain characters is read as it is. -/
theorem text?_plain {s rest : List Char} (hs : ArePlain s) :
    text? (s ++ '"' :: rest) = some (some (String.ofList s), rest) := by
  have hfuel : s.length < (s ++ '"' :: rest).length + 1 := by
    rw [List.length_append]; omega
  rw [text?, pieces?_plain hs hfuel]
  simp [join?_chars]

/-! ## The written form -/

mutual

/-- The compact form of a value. -/
inductive Writes : List Char → Json → Prop where
  | natural (n : Nat) : Writes (Nat.toDigits 10 n) (.natural n)
  | text {s : List Char} (hs : ArePlain s) :
      Writes ('"' :: (s ++ ['"'])) (.text (some (String.ofList s)))
  | emptyArray : Writes ['[', ']'] (.array [])
  | array {cs : List Char} {items : List Json} (hitems : WritesItems cs items) :
      Writes ('[' :: cs) (.array items)
  | object {cs : List Char} {fields : List (Option String × Json)}
      (hfields : WritesFields cs fields) : Writes ('\x7b' :: cs) (.object fields)

/-- The compact form of one or more items up to the closing bracket. -/
inductive WritesItems : List Char → List Json → Prop where
  | last {cs : List Char} {item : Json} (hitem : Writes cs item) : WritesItems (cs ++ [']']) [item]
  | more {cs rest : List Char} {item : Json} {items : List Json} (hitem : Writes cs item)
      (hitems : WritesItems rest items) : WritesItems (cs ++ ',' :: rest) (item :: items)

/-- The compact form of one or more fields up to the closing brace. -/
inductive WritesFields : List Char → List (Option String × Json) → Prop where
  | last {name cs : List Char} {value : Json} (hname : ArePlain name) (hvalue : Writes cs value) :
      WritesFields ('"' :: (name ++ '"' :: ':' :: (cs ++ ['\x7d'])))
        [(some (String.ofList name), value)]
  | more {name cs rest : List Char} {value : Json} {fields : List (Option String × Json)}
      (hname : ArePlain name) (hvalue : Writes cs value)
      (hfields : WritesFields rest fields) :
      WritesFields ('"' :: (name ++ '"' :: ':' :: (cs ++ ',' :: rest)))
        ((some (String.ofList name), value) :: fields)

end

/-- A character that differs from everything that is no digit is no blank. -/
theorem is_blank_of_ne {c : Char} (hother : ∀ d, Decimal.isDigit d = false → c ≠ d) :
    isBlank c = false := by
  simp only [isBlank, Bool.or_eq_false_iff, beq_eq_false_iff_ne]
  exact ⟨⟨⟨hother _ (by decide), hother _ (by decide)⟩, hother _ (by decide)⟩,
    hother _ (by decide)⟩

/-- In front of anything else there are no blanks to skip. -/
theorem skip_blanks_cons {c : Char} (hc : isBlank c = false) (cs : List Char) :
    skipBlanks (c :: cs) = c :: cs := by
  simp [skipBlanks, hc]

/-- A value starts with a character that is neither a blank nor a closing bracket. -/
theorem Writes.starts {cs : List Char} {json : Json} (h : Writes cs json) :
    ∃ c rest, cs = c :: rest ∧ isBlank c = false ∧ c ≠ ']' := by
  cases h with
  | natural n =>
      obtain ⟨c, digits, hdigits, hother⟩ := exists_to_digits_cons n
      exact ⟨c, digits, hdigits, is_blank_of_ne hother, hother ']' (by decide)⟩
  | text _ => exact ⟨_, _, rfl, by decide, by decide⟩
  | emptyArray => exact ⟨_, _, rfl, by decide, by decide⟩
  | array _ => exact ⟨_, _, rfl, by decide, by decide⟩
  | object _ => exact ⟨_, _, rfl, by decide, by decide⟩

/-- Written items start with the first item, and hence with neither a blank nor the closing
bracket. -/
theorem WritesItems.starts {cs : List Char} {items : List Json} (h : WritesItems cs items) :
    ∃ c rest, cs = c :: rest ∧ isBlank c = false ∧ c ≠ ']' := by
  cases h with
  | last hitem | more hitem _ =>
      obtain ⟨c, rest, rfl, hblank, hclose⟩ := hitem.starts
      exact ⟨c, _, rfl, hblank, hclose⟩

/-- Written fields start with the quote of the first name. -/
theorem WritesFields.starts {cs : List Char} {fields : List (Option String × Json)}
    (h : WritesFields cs fields) : ∃ rest, cs = '"' :: rest := by
  cases h with
  | last _ _ => exact ⟨_, rfl⟩
  | more _ _ _ => exact ⟨_, rfl⟩

/-- The written form may be replaced by an equal one. -/
theorem Writes.of_eq {cs cs' : List Char} {json : Json} (h : Writes cs json) (heq : cs' = cs) :
    Writes cs' json :=
  heq ▸ h

/-- The written form of items may be replaced by an equal one. -/
theorem WritesItems.of_eq {cs cs' : List Char} {items : List Json} (h : WritesItems cs items)
    (heq : cs' = cs) : WritesItems cs' items :=
  heq ▸ h

/-! ## Reading the written form -/

/-- Reading comes to a number from its first digit. -/
theorem read?_to_digits (n fuel : Nat) {rest : List Char} (hrest : EndsNumber rest) :
    read? (fuel + 1) (Nat.toDigits 10 n ++ rest) = some (natural n, rest) := by
  have hnumber := number?_to_digits n hrest
  obtain ⟨c, digits, hdigits, hother⟩ := exists_to_digits_cons n
  rw [hdigits, List.cons_append] at hnumber ⊢
  rw [read?, skip_blanks_cons (is_blank_of_ne hother)]
  simp only [hother '"' (by decide), hother '[' (by decide), hother '\x7b' (by decide),
    hother 'n' (by decide), hother 't' (by decide), hother 'f' (by decide), ↓reduceIte]
  exact hnumber

/-- After an opening bracket, anything but a closing one starts the first item. -/
theorem read?_array {cs : List Char} {fuel : Nat}
    (hstart : ∃ c rest, cs = c :: rest ∧ isBlank c = false ∧ c ≠ ']') :
    read? (fuel + 1) ('[' :: cs) =
      (items? fuel cs).map fun (items, rest) => (array items, rest) := by
  obtain ⟨c, rest, rfl, hblank, hclose⟩ := hstart
  rw [read?, skip_blanks_cons (by decide)]
  simp only [skip_blanks_cons hblank, Char.reduceEq, ↓reduceIte]
  split
  next heq => exact absurd (List.cons.inj heq).1 hclose
  next => rfl

/-- After an opening brace, a quote starts the first field. -/
theorem read?_object (cs : List Char) (fuel : Nat) :
    read? (fuel + 1) ('\x7b' :: '"' :: cs) =
      (fields? fuel ('"' :: cs)).map fun (fields, rest) => (object fields, rest) := by
  rw [read?, skip_blanks_cons (by decide)]
  simp only [skip_blanks_cons (show isBlank '"' = false by decide), Char.reduceEq, ↓reduceIte]
  rfl

/-- A number ends in front of everything that could not go on with it. -/
theorem ends_number_cons {c : Char} (rest : List Char)
    (hc : Decimal.isDigit c = false ∧ c ≠ '.' ∧ c ≠ 'e' ∧ c ≠ 'E') : EndsNumber (c :: rest) := by
  rintro d hd
  rw [List.head?_cons, Option.mem_some_iff] at hd
  exact hd ▸ hc

mutual

/-- A value is read back, and what follows it is left. -/
theorem Writes.read? {cs : List Char} {json : Json} (h : Writes cs json) {fuel : Nat}
    (hfuel : cs.length ≤ fuel) {rest : List Char} (hrest : EndsNumber rest) :
    Json.read? fuel (cs ++ rest) = some (json, rest) := by
  have hsome : 0 < cs.length := by
    obtain ⟨c, tail, rfl, -⟩ := h.starts
    exact Nat.succ_pos _
  obtain ⟨fuel, rfl⟩ : ∃ less, fuel = less + 1 := ⟨fuel - 1, by omega⟩
  cases h with
  | natural n => exact read?_to_digits n fuel hrest
  | text hs =>
      rw [List.cons_append, List.append_assoc, Json.read?, skip_blanks_cons (by decide)]
      simp [text?_plain hs]
  | emptyArray => rfl
  | array hitems =>
      have hrec := hitems.items? (Nat.le_of_succ_le_succ hfuel) rest
      obtain ⟨c, tail, hcs, hblank, hclose⟩ := hitems.starts
      rw [List.cons_append, read?_array ⟨c, tail ++ rest, by rw [hcs]; rfl, hblank, hclose⟩, hrec]
      rfl
  | object hfields =>
      have hrec := hfields.fields? (Nat.le_of_succ_le_succ hfuel) rest
      obtain ⟨tail, hcs⟩ := hfields.starts
      rw [hcs, List.cons_append] at hrec
      rw [hcs, List.cons_append, List.cons_append, read?_object, hrec]
      rfl

/-- Items are read back up to the closing bracket. -/
theorem WritesItems.items? {cs : List Char} {items : List Json} (h : WritesItems cs items)
    {fuel : Nat} (hfuel : cs.length ≤ fuel) (rest : List Char) :
    Json.items? fuel (cs ++ rest) = some (items, rest) := by
  cases h with
  | @last item json hitem =>
      rw [List.length_append, List.length_singleton] at hfuel
      obtain ⟨fuel, rfl⟩ : ∃ less, fuel = less + 1 := ⟨fuel - 1, by omega⟩
      have hitemFuel : item.length ≤ fuel := by omega
      have hvalue := hitem.read? hitemFuel (ends_number_cons (c := ']') rest (by decide))
      rw [List.append_assoc, List.singleton_append, Json.items?, hvalue]
      simp [skip_blanks_cons (show isBlank ']' = false by decide)]
  | @more item more json items hitem hitems =>
      rw [List.length_append, List.length_cons] at hfuel
      obtain ⟨fuel, rfl⟩ : ∃ less, fuel = less + 1 := ⟨fuel - 1, by omega⟩
      have hitemFuel : item.length ≤ fuel := by omega
      have hmoreFuel : more.length ≤ fuel := by omega
      have hvalue := fun rest =>
        hitem.read? hitemFuel (ends_number_cons (c := ',') rest (by decide))
      have hrec := hitems.items? hmoreFuel rest
      rw [List.append_assoc, List.cons_append, Json.items?, hvalue]
      simp [skip_blanks_cons (show isBlank ',' = false by decide), hrec]

/-- Fields are read back up to the closing brace. -/
theorem WritesFields.fields? {cs : List Char} {fields : List (Option String × Json)}
    (h : WritesFields cs fields) {fuel : Nat} (hfuel : cs.length ≤ fuel) (rest : List Char) :
    Json.fields? fuel (cs ++ rest) = some (fields, rest) := by
  cases h with
  | @last name cs value hname hvalue =>
      simp only [List.length_append, List.length_cons] at hfuel
      obtain ⟨fuel, rfl⟩ : ∃ less, fuel = less + 1 := ⟨fuel - 1, by omega⟩
      have hvalueFuel : cs.length ≤ fuel := by omega
      have hread := hvalue.read? hvalueFuel (ends_number_cons (c := '\x7d') rest (by decide))
      simp only [List.cons_append, List.append_assoc, List.nil_append]
      rw [Json.fields?, skip_blanks_cons (by decide)]
      simp [text?_plain hname, skip_blanks_cons (show isBlank ':' = false by decide), hread,
        skip_blanks_cons (show isBlank '\x7d' = false by decide)]
  | @more name cs more value fields hname hvalue hfields =>
      simp only [List.length_append, List.length_cons] at hfuel
      obtain ⟨fuel, rfl⟩ : ∃ less, fuel = less + 1 := ⟨fuel - 1, by omega⟩
      have hvalueFuel : cs.length ≤ fuel := by omega
      have hmoreFuel : more.length ≤ fuel := by omega
      have hread := fun rest =>
        hvalue.read? hvalueFuel (ends_number_cons (c := ',') rest (by decide))
      have hrec := hfields.fields? hmoreFuel rest
      simp only [List.cons_append, List.append_assoc]
      rw [Json.fields?, skip_blanks_cons (by decide)]
      simp [text?_plain hname, skip_blanks_cons (show isBlank ':' = false by decide), hread,
        skip_blanks_cons (show isBlank ',' = false by decide), hrec]

end

/-- A whole text is read back. -/
theorem Writes.of_text? {text : String} {json : Json} (h : Writes text.toList json) :
    Json.ofText? text = some json := by
  have hfuel : text.toList.length ≤ 2 * text.toList.length + 2 := by omega
  have hend : Json.EndsNumber [] := nofun
  have hread := h.read? hfuel hend
  rw [List.append_nil] at hread
  rw [Json.ofText?, hread]
  rfl

end Json

/-! ## Recordings -/

open Json (Writes WritesItems WritesFields ArePlain)

/-- The names of statuses stand for themselves in a text. -/
theorem Status.name_plain (status : Status) : ArePlain status.name.toList := by
  cases status <;> decide

namespace TraceEvent

/-- The data of an event. -/
def json (event : TraceEvent) : Json :=
  .object [(some "tick", .natural event.tick), (some "node", .natural event.node.raw),
    (some "status", .text (some event.status.name))]

/-- Whether the numbers of an event have sixty-four bits. -/
def Fits (event : TraceEvent) : Prop :=
  event.tick < Nat.pow 2 64 ∧ event.node.raw < NodeId.bound

instance (event : TraceEvent) : Decidable event.Fits := inferInstanceAs (Decidable (_ ∧ _))

/-- An event is written in the compact form of its data. -/
theorem writes (event : TraceEvent) : Writes event.toJson.toList event.json := by
  have hstatus := Writes.text event.status.name_plain
  rw [String.ofList_toList] at hstatus
  have htickName : ArePlain "tick".toList := by decide
  have hnodeName : ArePlain "node".toList := by decide
  have hstatusName : ArePlain "status".toList := by decide
  have hwrites : Writes _ event.json :=
    .object (.more htickName (.natural event.tick)
      (.more hnodeName (.natural event.node.raw) (.last hstatusName hstatus)))
  refine hwrites.of_eq ?_
  simp [toJson, toString, Nat.repr]

/-- An event is found again in its data. -/
theorem of_json?_json {event : TraceEvent} (h : event.Fits) : ofJson? event.json = some event := by
  have htick : (Json.natural event.tick).below? (Nat.pow 2 64) = some event.tick := if_pos h.1
  have hnode : NodeId.ofJson? (.natural event.node.raw) = some event.node := by
    simp only [NodeId.ofJson?, Json.below?, h.2, ↓reduceIte, Option.map_some]
  have hstatus : Status.ofJson? (.text (some event.status.name)) = some event.status :=
    Status.of_name?_name event.status
  have hrecord : event.json.record? ["tick", "node", "status"] =
      some [.natural event.tick, .natural event.node.raw, .text (some event.status.name)] := rfl
  simp [ofJson?, hrecord, htick, hnode, hstatus]

end TraceEvent

namespace TraceLog

/-- The data of a recording. -/
def json (log : TraceLog) : Json :=
  .object [(some "events", .array (log.events.map TraceEvent.json))]

/-- The events of a recording, up to the closing bracket. -/
theorem writes_items {events : List TraceEvent} (hsome : events ≠ []) :
    WritesItems ((",".intercalate (events.map TraceEvent.toJson)).toList ++ [']'])
      (events.map TraceEvent.json) := by
  induction events with
  | nil => exact absurd rfl hsome
  | cons event rest ih =>
      cases rest with
      | nil => exact .last event.writes
      | cons next rest =>
          refine (WritesItems.more event.writes (ih (List.cons_ne_nil _ _))).of_eq ?_
          simp [String.toList_intercalate, List.intercalate]

/-- A recording is written in the compact form of its data. -/
theorem writes (log : TraceLog) : Writes log.toJson.toList log.json := by
  have hevents : Writes ('[' :: ((",".intercalate (log.events.map TraceEvent.toJson)).toList ++
      [']'])) (.array (log.events.map TraceEvent.json)) := by
    by_cases hsome : log.events = []
    · rw [hsome]
      exact .emptyArray
    · exact .array (writes_items hsome)
  have hname : ArePlain "events".toList := by decide
  have hwrites : Writes _ log.json := .object (.last hname hevents)
  refine hwrites.of_eq ?_
  simp [toJson]

/-- A recording is found again in its data if all numbers in it have sixty-four bits. -/
theorem of_json?_json {log : TraceLog} (h : ∀ event ∈ log.events, event.Fits) :
    ofJson? log.json = some log := by
  have hevents : ∀ events : List TraceEvent, (∀ event ∈ events, event.Fits) →
      (events.map TraceEvent.json).mapM TraceEvent.ofJson? = some events := by
    intro events h
    induction events with
    | nil => rfl
    | cons event rest ih =>
        have hevent := TraceEvent.of_json?_json (h event List.mem_cons_self)
        have hrest := ih fun other hother => h other (List.mem_cons_of_mem _ hother)
        rw [List.map_cons, List.mapM_cons, hevent, hrest]
        rfl
  have hrecord : log.json.record? ["events"] =
      some [.array (log.events.map TraceEvent.json)] := rfl
  rw [ofJson?, hrecord]
  show ((log.events.map TraceEvent.json).mapM TraceEvent.ofJson?).map mk = some log
  rw [hevents log.events h]
  rfl

/-- Reading undoes writing. -/
theorem parse?_to_json {log : TraceLog} (h : ∀ event ∈ log.events, event.Fits) :
    parse? log.toJson = some log := by
  rw [parse?, log.writes.of_text?]
  exact of_json?_json h

end TraceLog

/-- A recording comes back out of its text, whatever its length, its ticks and its identities. So
recordings that differ are written differently. -/
theorem recording_survives {log : TraceLog} (h : ∀ event ∈ log.events, event.Fits) :
    TraceLog.parse? log.toJson = some log ∧
      ∀ other : TraceLog, (∀ event ∈ other.events, event.Fits) → other ≠ log →
        other.toJson ≠ log.toJson := by
  refine ⟨TraceLog.parse?_to_json h, fun other hother hne heq => hne ?_⟩
  have hback := TraceLog.parse?_to_json hother
  rw [heq, TraceLog.parse?_to_json h] at hback
  exact (Option.some.inj hback).symm

/-- The last tick and the invalid identity survive, beside the first ones. -/
theorem recording_survives_bounds :
    let last : TraceEvent := ⟨Nat.pow 2 64 - 1, .invalid, .canNotExecute⟩
    let first : TraceEvent := ⟨0, ⟨0⟩, .unknown⟩
    TraceLog.parse? (TraceLog.toJson ⟨[last, first]⟩) = some ⟨[last, first]⟩ ∧
      TraceLog.toJson ⟨[first]⟩ ≠ TraceLog.toJson ⟨[last, first]⟩ := by
  intro last first
  have hlast : last.Fits := by decide
  have hfirst : first.Fits := by decide
  have hsurvives := @recording_survives ⟨[last, first]⟩
    (List.forall_mem_cons.2 ⟨hlast, List.forall_mem_singleton.2 hfirst⟩)
  exact ⟨hsurvives.1, hsurvives.2 ⟨[first]⟩ (List.forall_mem_singleton.2 hfirst) (by decide)⟩

end BehaviorTree
