import Mathlib.Data.List.DropRight
import Mathlib.Tactic.FinCases
import Mathlib.Tactic.IntervalCases
import ScriptPack.Json.Write
import ScriptPack.Proofs.Json.Number

/-!
Values read back. The text of a value, in any style, is read as the value itself, up to where the
text of the value ends. Numbers have to be rounded and finite, and the fields of objects in the
order that setting them one after the other gives.
-/

namespace ScriptPack.Json

variable {rest after : List Char}

/-! ### Strings -/

/-- The two last digits of the escape of a character without a short one. -/
theorem hex4?_escape {n : Nat} (h : n < 0x20) (rest : List Char) :
    hex4? ('0' :: '0' :: ((if n < 0x10 then ['0'] else []) ++ (Nat.toDigits 16 n ++ rest))) =
      some (n, rest) := by
  interval_cases n <;> rfl

theorem stringFrom?_escape (found : List Char) (fuel : Nat) (c : Char) (rest : List Char) :
    stringFrom? found (fuel + 1) (escape c ++ rest) = stringFrom? (c :: found) fuel rest := by
  -- The characters with a short escape come first; what is left is escaped by its code, or stands
  -- for itself.
  by_cases hshort : c ∈ ['"', '\\', '\x08', '\x0c', '\n', '\r', '\t']
  · fin_cases hshort <;> rfl
  simp only [List.mem_cons, List.not_mem_nil, or_false, not_or] at hshort
  obtain ⟨hquote, hslash, hb, hf, hn, hr, ht⟩ := hshort
  by_cases hcode : c.toNat < 0x20
  · have hescape : escape c = '\\' :: 'u' :: '0' :: '0' ::
        ((if c.toNat < 0x10 then ['0'] else []) ++ Nat.toDigits 16 c.toNat) := by
      simp [escape, hquote, hslash, hb, hf, hn, hr, ht, hcode]
    have hunit : escapedUnit? ('0' :: '0' :: ((if c.toNat < 0x10 then ['0'] else []) ++
        (Nat.toDigits 16 c.toNat ++ rest))) = some (c, rest) := by
      have hhigh : isHighSurrogate c.toNat = false := by
        rw [isHighSurrogate, Bool.and_eq_false_iff, decide_eq_false_iff_not]
        omega
      have hlow : isLowSurrogate c.toNat = false := by
        rw [isLowSurrogate, Bool.and_eq_false_iff, decide_eq_false_iff_not]
        omega
      simp [escapedUnit?, hex4?_escape hcode, hhigh, hlow]
    rw [hescape]
    simp only [List.cons_append, List.append_assoc, stringFrom?, escaped?, hunit]
    rfl
  · have hescape : escape c = [c] := by
      simp [escape, hquote, hslash, hb, hf, hn, hr, ht, hcode]
    simp [hescape, stringFrom?, hquote, hslash, hcode]

theorem stringFrom?_quoted (found : List Char) {fuel : Nat} (s : List Char)
    (hfuel : s.length < fuel) (rest : List Char) :
    stringFrom? found fuel (s.flatMap escape ++ '"' :: rest) =
      some (String.ofList (found.reverse ++ s), rest) := by
  induction s generalizing found fuel with
  | nil =>
      obtain ⟨fuel, rfl⟩ := Nat.exists_eq_add_of_lt hfuel
      simp [stringFrom?]
  | cons c s ih =>
      obtain ⟨fuel, rfl⟩ : ∃ n, fuel = n + 1 := ⟨fuel - 1, by omega⟩
      rw [List.length_cons] at hfuel
      rw [List.flatMap_cons, List.append_assoc, stringFrom?_escape, ih _ (by omega)]
      simp

theorem length_le_flatMap_escape (s : List Char) : s.length ≤ (s.flatMap escape).length := by
  have hone (c : Char) : 1 ≤ (escape c).length := by
    unfold escape
    split_ifs <;> simp
  induction s with
  | nil => exact Nat.le_refl _
  | cons c s ih =>
      have hc := hone c
      rw [List.flatMap_cons, List.length_append, List.length_cons]
      omega

/-- A quoted text is read behind its opening quote. -/
theorem stringFrom?_text (s : String) (rest : List Char) :
    stringFrom? [] ((s.toList.flatMap escape ++ ['"'] ++ rest).length + 1)
      (s.toList.flatMap escape ++ ['"'] ++ rest) = some (s, rest) := by
  have hlength := length_le_flatMap_escape s.toList
  rw [List.append_assoc, List.singleton_append, stringFrom?_quoted [] s.toList]
  · simp
  · rw [List.length_append, List.length_cons]
    omega

/-! ### Gaps -/

theorem skipGap_append {gap : List Char} (h : ∀ c ∈ gap, isGap c = true) (text : List Char) :
    skipGap (gap ++ text) = skipGap text := List.dropWhile_append_of_pos h

theorem skipGap_cons {c : Char} (h : isGap c = false) (text : List Char) :
    skipGap (c :: text) = c :: text := by
  rw [skipGap, List.dropWhile_cons_of_neg (by simp [h])]

theorem isGap_line (style : Style) (depth : Nat) : ∀ c ∈ style.line depth, isGap c = true := by
  intro c hc
  rw [Style.line] at hc
  split at hc
  · cases hc
  · rcases List.mem_cons.mp hc with rfl | hc
    · rfl
    · rw [(List.mem_replicate.mp hc).2]
      rfl

theorem value?_gap {gap : List Char} (h : ∀ c ∈ gap, isGap c = true) (fuel : Nat)
    (text : List Char) : value? fuel (gap ++ text) = value? fuel text := by
  cases fuel with
  | zero => rfl
  | succ fuel => rw [value?, value?, skipGap_append h]

/-! ### Values -/

/-- A value that its text stands for. -/
inductive Readable : Json → Prop
  | null : Readable null
  | bool (b : Bool) : Readable (bool b)
  | number {q : Rat} (h : Number.ofRat q = .finite q) : Readable (number (.finite q))
  | string (s : String) : Readable (string s)
  | array {items : List Json} (h : ∀ item ∈ items, Readable item) : Readable (array items)
  | object {fields : Fields Json} (ho : Fields.ofList fields = fields)
      (h : ∀ field ∈ fields, Readable field.2) : Readable (object fields)

mutual

/-- What follows the text of a value stays behind it. -/
theorem write_append (style : Style) (depth : Nat) (after : List Char) :
    ∀ value, write style depth after value = write style depth [] value ++ after
  | null => rfl
  | bool b => by simp [write]
  | number n => by simp [write]
  | string s => by simp [write]
  | array [] => rfl
  | array (item :: items) => by
      simp only [write]
      rw [write_append style (depth + 1) (writeItems _ _ _ items) item,
        writeItems_append style (depth + 1) (_ ++ ']' :: after) items,
        write_append style (depth + 1) (writeItems style (depth + 1) (_ ++ [']']) items) item,
        writeItems_append style (depth + 1) (_ ++ [']']) items]
      simp
  | object [] => rfl
  | object ((key, value) :: fields) => by
      simp only [write]
      rw [write_append style (depth + 1) (writeFields _ _ _ fields) value,
        writeFields_append style (depth + 1) (_ ++ '\x7d' :: after) fields,
        write_append style (depth + 1) (writeFields style (depth + 1) (_ ++ ['\x7d']) fields) value,
        writeFields_append style (depth + 1) (_ ++ ['\x7d']) fields]
      simp

theorem writeItems_append (style : Style) (depth : Nat) (after : List Char) :
    ∀ items, writeItems style depth after items = writeItems style depth [] items ++ after
  | [] => rfl
  | item :: items => by
      simp only [writeItems]
      rw [write_append style depth (writeItems style depth after items) item,
        writeItems_append style depth after items,
        write_append style depth (writeItems style depth [] items) item]
      simp

theorem writeFields_append (style : Style) (depth : Nat) (after : List Char) :
    ∀ fields, writeFields style depth after fields = writeFields style depth [] fields ++ after
  | [] => rfl
  | (key, value) :: fields => by
      simp only [writeFields]
      rw [write_append style depth (writeFields style depth after fields) value,
        writeFields_append style depth after fields,
        write_append style depth (writeFields style depth [] fields) value]
      simp

end

mutual

/-- The value that the text of a value stands for: a number that is not finite is lost. -/
def written : Json → Json
  | null => null
  | bool b => bool b
  | number n => if n.isFinite then number n else null
  | string s => string s
  | array items => array (writtenItems items)
  | object fields => object (writtenFields fields)

def writtenItems : List Json → List Json
  | [] => []
  | item :: items => written item :: writtenItems items

def writtenFields : List (String × Json) → List (String × Json)
  | [] => []
  | (key, value) :: fields => (key, written value) :: writtenFields fields

end

mutual

theorem write_written (style : Style) (depth : Nat) (after : List Char) :
    ∀ value, write style depth after (written value) = write style depth after value
  | null => rfl
  | bool b => rfl
  | number (.finite q) => rfl
  | number .nan => rfl
  | number (.infinite negative) => rfl
  | string s => rfl
  | array [] => rfl
  | array (item :: items) => by
      simp only [written, writtenItems, write]
      rw [write_written, writeItems_written]
  | object [] => rfl
  | object ((key, value) :: fields) => by
      simp only [written, writtenFields, write]
      rw [write_written, writeFields_written]

theorem writeItems_written (style : Style) (depth : Nat) (after : List Char) :
    ∀ items, writeItems style depth after (writtenItems items) = writeItems style depth after items
  | [] => rfl
  | item :: items => by
      simp only [writtenItems, writeItems]
      rw [write_written, writeItems_written]

theorem writeFields_written (style : Style) (depth : Nat) (after : List Char) :
    ∀ fields,
      writeFields style depth after (writtenFields fields) = writeFields style depth after fields
  | [] => rfl
  | (key, value) :: fields => by
      simp only [writtenFields, writeFields]
      rw [write_written, writeFields_written]

end

theorem writtenFields_eq_map (fields : List (String × Json)) :
    writtenFields fields = fields.map fun field => (field.1, written field.2) := by
  induction fields with
  | nil => rfl
  | cons field fields ih => rw [writtenFields, ih, List.map_cons]

theorem length_write (style : Style) (depth : Nat) (after : List Char) (value : Json) :
    after.length ≤ (write style depth after value).length := by
  rw [write_append, List.length_append]
  omega

theorem length_writeItems (style : Style) (depth : Nat) (after : List Char) (items : List Json) :
    after.length ≤ (writeItems style depth after items).length := by
  rw [writeItems_append, List.length_append]
  omega

theorem length_writeFields (style : Style) (depth : Nat) (after : List Char)
    (fields : Fields Json) : after.length ≤ (writeFields style depth after fields).length := by
  rw [writeFields_append, List.length_append]
  omega

/-- The text of a value is read as the value, when there is fuel for each of its characters. -/
def Parses (value : Json) : Prop :=
  ∀ (style : Style) (depth : Nat) (after : List Char) (fuel : Nat), Ends after →
    (write style depth after value).length ≤ fuel + after.length →
    value? fuel (write style depth after value) = some (value, after)

theorem ends_cons {c : Char} (hd : c.isDigit = false) (hc : c ∉ ['.', 'e', 'E'])
    (rest : List Char) : Ends (c :: rest) := by
  intro d hd'
  cases hd'
  simpa [hd] using hc

theorem Ends.line (h : Ends rest) (style : Style) (depth : Nat) :
    Ends (style.line depth ++ rest) := by
  rw [Style.line]
  split
  · exact h
  · exact ends_cons (by decide) (by decide) _

theorem items?_write (style : Style) (depth outer : Nat) {item : Json} {items : List Json}
    (h : ∀ value ∈ item :: items, Parses value) (found : List Json) (after : List Char)
    (fuel : Nat) (hfuel : (write style depth (writeItems style depth (style.line outer ++ ']' :: after) items)
      item).length ≤ fuel + after.length) :
    items? fuel found (style.line depth ++
        write style depth (writeItems style depth (style.line outer ++ ']' :: after) items) item) =
      some (found.reverse ++ item :: items, after) := by
  induction items generalizing item found fuel with
  | nil =>
      have hend : Ends (style.line outer ++ ']' :: after) :=
        (ends_cons (by decide) (by decide) after).line style outer
      have hlength := length_write style depth (style.line outer ++ ']' :: after) item
      simp only [writeItems, List.length_append, List.length_cons] at hfuel hlength ⊢
      obtain ⟨fuel, rfl⟩ : ∃ n, fuel = n + 1 := ⟨fuel - 1, by omega⟩
      have hitem := h item List.mem_cons_self style depth _ fuel hend (by
        rw [List.length_append, List.length_cons]
        omega)
      rw [items?, value?_gap (isGap_line style depth), hitem]
      simp only
      rw [skipGap_append (isGap_line style outer), skipGap_cons (by decide)]
      simp
  | cons next items ih =>
      have hend : Ends (writeItems style depth (style.line outer ++ ']' :: after)
          (next :: items)) := by
        rw [writeItems]
        exact ends_cons (by decide) (by decide) _
      have hlength := length_write style depth
        (writeItems style depth (style.line outer ++ ']' :: after) (next :: items)) item
      have hlast := length_write style depth
        (writeItems style depth (style.line outer ++ ']' :: after) items) next
      have hrest := length_writeItems style depth (style.line outer ++ ']' :: after) items
      have hsplit : (writeItems style depth (style.line outer ++ ']' :: after)
          (next :: items)).length = 1 + ((style.line depth).length + (write style depth
            (writeItems style depth (style.line outer ++ ']' :: after) items) next).length) := by
        rw [writeItems, List.length_cons, List.length_append]
        omega
      rw [List.length_append, List.length_cons] at hrest
      obtain ⟨fuel, rfl⟩ : ∃ n, fuel = n + 1 := ⟨fuel - 1, by omega⟩
      have hitem := h item List.mem_cons_self style depth _ fuel hend (by omega)
      have hnext := ih (fun value hv => h value (List.mem_cons_of_mem _ hv)) (item :: found)
        fuel (by omega)
      rw [items?, value?_gap (isGap_line style depth), hitem, writeItems]
      simp only
      rw [skipGap_cons (by decide)]
      simp only
      rw [hnext]
      simp

theorem isGap_colon (style : Style) (text : List Char) :
    ∃ gap, (∀ c ∈ gap, isGap c = true) ∧ style.colon ++ text = ':' :: (gap ++ text) := by
  rw [Style.colon]
  split
  · exact ⟨[], nofun, rfl⟩
  · exact ⟨[' '], by simp [isGap], rfl⟩

/-- A field is read up to the end of its value. -/
theorem fields?_field (style : Style) (depth : Nat) (key : String) {value : Json}
    (h : Parses value) (found : Fields Json) {fuel : Nat} {rest : List Char} (hr : Ends rest)
    (hfuel : (write style depth rest value).length ≤ fuel + rest.length) :
    fields? (fuel + 1) found (style.line depth ++ quoted key ++ style.colon ++
        write style depth rest value) =
      match skipGap rest with
      | ',' :: rest => fields? fuel (found.set key value) rest
      | '\x7d' :: rest => some (found.set key value, rest)
      | _ => none := by
  obtain ⟨gap, hgap, hcolon⟩ := isGap_colon style (write style depth rest value)
  rw [List.append_assoc, List.append_assoc, fields?, skipGap_append (isGap_line style depth),
    quoted, List.cons_append, skipGap_cons (by decide)]
  simp only
  rw [stringFrom?_text, hcolon]
  simp only
  rw [skipGap_cons (by decide)]
  simp only
  rw [value?_gap hgap]
  simp only [h style depth rest fuel hr hfuel]
  all_goals rfl

/-- The fields of an object are set one after the other. -/
theorem fields?_write (style : Style) (depth outer : Nat) {field : String × Json}
    {fields : Fields Json} (h : ∀ f ∈ field :: fields, Parses f.2) (found : Fields Json)
    (after : List Char) (fuel : Nat)
    (hfuel : (write style depth
      (writeFields style depth (style.line outer ++ '\x7d' :: after) fields) field.2).length ≤
        fuel + after.length) :
    fields? fuel found (style.line depth ++ quoted field.1 ++ style.colon ++ write style depth
        (writeFields style depth (style.line outer ++ '\x7d' :: after) fields) field.2) =
      some ((field :: fields).foldl (fun fields field => fields.set field.1 field.2) found,
        after) := by
  induction fields generalizing field found fuel with
  | nil =>
      have hend : Ends (style.line outer ++ '\x7d' :: after) :=
        (ends_cons (by decide) (by decide) after).line style outer
      have hlength := length_write style depth (style.line outer ++ '\x7d' :: after) field.2
      have hrest : (style.line outer ++ '\x7d' :: after).length =
          (style.line outer).length + after.length + 1 := by
        rw [List.length_append, List.length_cons]
        omega
      rw [writeFields] at hfuel ⊢
      obtain ⟨fuel, rfl⟩ : ∃ n, fuel = n + 1 := ⟨fuel - 1, by omega⟩
      rw [fields?_field style depth field.1 (h field List.mem_cons_self) found hend (by omega),
        skipGap_append (isGap_line style outer), skipGap_cons (by decide)]
      rfl
  | cons next fields ih =>
      have hend : Ends (writeFields style depth (style.line outer ++ '\x7d' :: after)
          (next :: fields)) := by
        rw [writeFields]
        exact ends_cons (by decide) (by decide) _
      have hlength := length_write style depth
        (writeFields style depth (style.line outer ++ '\x7d' :: after) (next :: fields)) field.2
      have hlast := length_write style depth
        (writeFields style depth (style.line outer ++ '\x7d' :: after) fields) next.2
      have hrest := length_writeFields style depth (style.line outer ++ '\x7d' :: after) fields
      have hsplit : (write style depth (writeFields style depth
          (style.line outer ++ '\x7d' :: after) fields) next.2).length + 1 ≤
            (writeFields style depth (style.line outer ++ '\x7d' :: after)
              (next :: fields)).length := by
        simp only [writeFields, List.length_cons, List.length_append]
        omega
      rw [List.length_append, List.length_cons] at hrest
      obtain ⟨fuel, rfl⟩ : ∃ n, fuel = n + 1 := ⟨fuel - 1, by omega⟩
      have hnext := ih (fun f hf => h f (List.mem_cons_of_mem _ hf))
        (found.set field.1 field.2) fuel (by omega)
      rw [fields?_field style depth field.1 (h field List.mem_cons_self) found hend (by omega),
        writeFields, skipGap_cons (by decide)]
      simp only
      rw [hnext]
      rfl

/-- What begins a number begins nothing else. -/
theorem number?_head {c : Char} (h : number? (c :: rest) ≠ none) :
    c = '-' ∨ c.isDigit = true := by
  by_contra hc
  rw [not_or, Bool.not_eq_true] at hc
  refine h ?_
  rw [number?_of_ne hc.1, unsigned?]
  simp [digitsOf, hc.2]

theorem value?_number {c : Char} (hc : c = '-' ∨ c.isDigit = true) (fuel : Nat) :
    value? (fuel + 1) (c :: rest) =
      (number? (c :: rest)).map fun (n, rest) => (number n, rest) := by
  have hother : c ∉ [' ', '\t', '\n', '\r', '"', '[', '\x7b', 't', 'f', 'n'] := by
    intro hmem
    rcases hc with rfl | hdigit
    · revert hmem
      decide
    · fin_cases hmem <;> revert hdigit <;> decide
  simp only [List.mem_cons, List.not_mem_nil, or_false, not_or] at hother
  obtain ⟨h₁, h₂, h₃, h₄, hquote, hbracket, hbrace, ht, hf, hn⟩ := hother
  rw [value?, skipGap_cons (by simp [isGap, h₁, h₂, h₃, h₄])]
  simp [hquote, hbracket, hbrace, ht, hf, hn]

theorem value?_skipGap (fuel : Nat) (text : List Char) :
    value? fuel (skipGap text) = value? fuel text := by
  have hgap : ∀ c ∈ text.takeWhile isGap, isGap c = true := fun c hc => List.mem_takeWhile_imp hc
  conv_rhs => rw [← List.takeWhile_append_dropWhile (p := isGap) (l := text)]
  exact (value?_gap hgap fuel _).symm

theorem value?_bracket (fuel : Nat) (rest : List Char) : value? fuel (']' :: rest) = none := by
  cases fuel with
  | zero => rfl
  | succ fuel => rfl

/-- Where items can be read, the array is not closed yet. -/
theorem items?_skipGap {fuel : Nat} {text : List Char} {found : List Json × List Char}
    (h : items? fuel [] text = some found) :
    (match skipGap text with
      | ']' :: rest => some (array [], rest)
      | rest => (items? fuel [] rest).map fun (items, rest) => (array items, rest)) =
      some (array found.1, found.2) := by
  cases fuel with
  | zero => cases h
  | succ fuel =>
      have hsame : items? (fuel + 1) [] (skipGap text) = items? (fuel + 1) [] text := by
        rw [items?, items?, value?_skipGap]
      split
      · rename_i rest heq
        rw [items?, ← value?_skipGap, heq, value?_bracket] at h
        cases h
      · rw [hsame, h]
        rfl

/-- Where fields can be read, the object is not closed yet. -/
theorem fields?_skipGap {fuel : Nat} {text : List Char} {found : Fields Json × List Char}
    (h : fields? fuel [] text = some found) :
    (match skipGap text with
      | '\x7d' :: rest => some (object [], rest)
      | rest => (fields? fuel [] rest).map fun (fields, rest) => (object fields, rest)) =
      some (object found.1, found.2) := by
  cases fuel with
  | zero => cases h
  | succ fuel =>
      have hsame : fields? (fuel + 1) [] (skipGap text) = fields? (fuel + 1) [] text := by
        rw [fields?, fields?, skipGap, skipGap, List.dropWhile_idempotent]
      split
      · rename_i rest heq
        rw [fields?, heq] at h
        cases h
      · rw [hsame, h]
        rfl

/-- Text that is longer than what follows it needs fuel. -/
theorem exists_fuel {text : List Char} {fuel : Nat} (h : text.length ≤ fuel + after.length)
    (hlt : after.length < text.length) : ∃ n, fuel = n + 1 := ⟨fuel - 1, by omega⟩

theorem Readable.parses {value : Json} (h : Readable value) : Parses value := by
  induction h with
  | null =>
      intro style depth after fuel hr hfuel
      obtain ⟨fuel, rfl⟩ := exists_fuel hfuel (by simp +arith [write])
      rfl
  | bool b =>
      intro style depth after fuel hr hfuel
      obtain ⟨fuel, rfl⟩ := exists_fuel hfuel (by cases b <;> simp [write] <;> omega)
      cases b <;> rfl
  | @number q hq =>
      intro style depth after fuel hr hfuel
      have hread := number?_text hq hr
      cases htext : (Number.text (.finite q)).toList with
      | nil =>
          have halone := number?_text hq ends_nil
          rw [htext] at halone
          cases halone
      | cons c text =>
          rw [htext, List.cons_append] at hread
          have hne : number? (c :: (text ++ after)) ≠ none := by simp [hread]
          have hc := number?_head hne
          rw [write, numberText, htext, List.cons_append] at hfuel ⊢
          obtain ⟨fuel, rfl⟩ := exists_fuel hfuel (by simp +arith)
          rw [value?_number hc, hread]
          rfl
  | string s =>
      intro style depth after fuel hr hfuel
      rw [write, quoted, List.cons_append] at hfuel ⊢
      obtain ⟨fuel, rfl⟩ := exists_fuel hfuel (by simp +arith)
      rw [value?, skipGap_cons (by decide)]
      simp only
      rw [if_pos (by decide), stringFrom?_text]
      rfl
  | @array items _ ih =>
      intro style depth after fuel hr hfuel
      cases items with
      | nil =>
          obtain ⟨fuel, rfl⟩ := exists_fuel hfuel (by simp +arith [write])
          rfl
      | cons item items =>
          have hlength := length_write style (depth + 1)
            (writeItems style (depth + 1) (style.line depth ++ ']' :: after) items) item
          have hitems := length_writeItems style (depth + 1) (style.line depth ++ ']' :: after) items
          rw [write, List.length_cons, List.length_append] at hfuel
          rw [List.length_append, List.length_cons] at hitems
          obtain ⟨fuel, rfl⟩ : ∃ n, fuel = n + 1 := ⟨fuel - 1, by omega⟩
          have hread := items?_write style (depth + 1) depth ih [] after fuel (by omega)
          rw [write, value?, skipGap_cons (by decide)]
          simp only
          rw [if_neg (by decide), if_pos (by decide)]
          exact items?_skipGap hread
  | @object fields ho _ ih =>
      intro style depth after fuel hr hfuel
      cases fields with
      | nil =>
          obtain ⟨fuel, rfl⟩ := exists_fuel hfuel (by simp +arith [write])
          rfl
      | cons field fields =>
          have hlength := length_write style (depth + 1)
            (writeFields style (depth + 1) (style.line depth ++ '\x7d' :: after) fields) field.2
          have hfields :=
            length_writeFields style (depth + 1) (style.line depth ++ '\x7d' :: after) fields
          rw [write, List.length_cons, List.length_append] at hfuel
          rw [List.length_append, List.length_cons] at hfields
          obtain ⟨fuel, rfl⟩ : ∃ n, fuel = n + 1 := ⟨fuel - 1, by omega⟩
          have hread := fields?_write style (depth + 1) depth ih [] after fuel (by omega)
          rw [write, value?, skipGap_cons (by decide)]
          simp only
          rw [if_neg (by decide), if_neg (by decide), if_pos (by decide)]
          rw [Fields.ofList] at ho
          rw [ho] at hread
          exact fields?_skipGap hread

/-- What is read from a value that is written with indentation and a line end. -/
theorem Readable.parse?_indented {value : Json} (h : Readable value.written) :
    parse? (value.indented ++ "\n") = some value.written := by
  have hend : Ends ['\n'] := ends_cons (by decide) (by decide) []
  have htext : (value.indented ++ "\n").toList = write ⟨2⟩ 0 ['\n'] value := by
    rw [write_append, indented, String.toList_append, String.toList_ofList]
    rfl
  have hread := h.parses ⟨2⟩ 0 ['\n'] (2 * (write ⟨2⟩ 0 ['\n'] value).length + 2) hend
    (by rw [write_written]; omega)
  rw [write_written] at hread
  unfold parse?
  simp only [htext, hread]
  rfl

end ScriptPack.Json
