import ScriptPack.Config.Resolve
import ScriptPack.Proofs.Cache.Commit
import ScriptPack.Proofs.Number.Rounding
import ScriptPack.Proofs.Path.Joining

/-!
The settings that a configuration gives. Each of them is settled by the value at its own place alone:
it is that value, if it can be used, and otherwise the default (`Config.Settled`). Therefore settings
are valid whatever the configuration is like, and read as a configuration they give themselves again,
with nothing to report (`Effect.resolveSettings_settles`). What is reported is what stands at the place
of a field and cannot be used (`Config.reported_iff`); a section that is no object counts as empty, and
nothing is said about it.
-/

namespace ScriptPack

/-! ### Values that can be used -/

namespace Number

def IsPositive (n : Number) : Prop := ∃ q : Rat, n = .finite q ∧ 0 < q

def IsNatural (n : Number) : Prop := ∃ k : Nat, n = .finite k

variable {n : Number} {k : Nat}

theorem zero_eq : (0 : Number) = .finite 0 := rfl

theorem isPositive_iff : (n.isFinite && less 0 n) = true ↔ n.IsPositive := by
  cases n with
  | nan => simp [isFinite, IsPositive]
  | infinite negative => simp [isFinite, IsPositive]
  | finite q => simp [isFinite, IsPositive, zero_eq, less]

theorem isNatural_iff : (n.isInteger && atMost 0 n) = true ↔ n.IsNatural := by
  cases n with
  | nan => simp [isInteger, IsNatural]
  | infinite negative => simp [isInteger, IsNatural]
  | finite q =>
      have hmost : atMost 0 (finite q) = true ↔ 0 ≤ q := by
        rw [zero_eq, atMost, less, Bool.or_eq_true, decide_eq_true_iff, le_iff_lt_or_eq]
        simp
      rw [Bool.and_eq_true, hmost, isInteger, beq_iff_eq, IsNatural]
      constructor
      · rintro ⟨hden, hq⟩
        have hnum : ((q.num.toNat : Int) : Rat) = q := by
          rw [Int.toNat_of_nonneg (Rat.num_nonneg.mpr hq)]
          exact Rat.coe_int_num_of_den_eq_one hden
        exact ⟨q.num.toNat, congrArg finite (hnum.symm.trans (Int.cast_natCast _))⟩
      · rintro ⟨k, hk⟩
        cases hk
        exact ⟨Rat.den_natCast k, Nat.cast_nonneg k⟩

theorem isPositive_ofNat (hpos : 0 < k) (hle : k ≤ 2 ^ 53) : (ofNat k).IsPositive :=
  ⟨k, ofNat_of_le hle, Nat.cast_pos.mpr hpos⟩

theorem isNatural_ofNat (hle : k ≤ 2 ^ 53) : (ofNat k).IsNatural := ⟨k, ofNat_of_le hle⟩

end Number

namespace Json

variable {value : Json}

/-- A list of texts. -/
def texts (names : List String) : Json := .array (names.map .string)

theorem flag?_eq_some {b : Bool} : value.flag? = some b ↔ value = .bool b := by
  cases value <;> simp [flag?]

theorem text?_eq_some {s : String} : value.text? = some s ↔ value = .string s := by
  cases value <;> simp [text?]

theorem filledText?_eq_some {s : String} :
    value.filledText? = some s ↔ value = .string s ∧ s ≠ "" := by
  cases value with
  | string t =>
      simp only [filledText?, String.isEmpty_iff, Option.ite_none_left_eq_some, Option.some.injEq,
        string.injEq]
      constructor
      · rintro ⟨hne, rfl⟩
        exact ⟨rfl, hne⟩
      · rintro ⟨rfl, hne⟩
        exact ⟨hne, rfl⟩
  | null | bool | number | array | object => simp [filledText?]

theorem positive?_eq_some {n : Number} :
    value.positive? = some n ↔ value = .number n ∧ n.IsPositive := by
  cases value with
  | number m =>
      rw [positive?, Option.ite_none_right_eq_some, Number.isPositive_iff]
      simp only [Option.some.injEq, number.injEq]
      constructor
      · rintro ⟨hn, rfl⟩
        exact ⟨rfl, hn⟩
      · rintro ⟨rfl, hn⟩
        exact ⟨hn, rfl⟩
  | null | bool | string | array | object => simp [positive?]

theorem count?_eq_some {n : Number} :
    value.count? = some n ↔ value = .number n ∧ n.IsNatural := by
  cases value with
  | number m =>
      rw [count?, Option.ite_none_right_eq_some, Number.isNatural_iff]
      simp only [Option.some.injEq, number.injEq]
      constructor
      · rintro ⟨hn, rfl⟩
        exact ⟨rfl, hn⟩
      · rintro ⟨rfl, hn⟩
        exact ⟨hn, rfl⟩
  | null | bool | string | array | object => simp [count?]

theorem mapM_text?_eq_some {items : List Json} {names : List String} :
    items.mapM text? = some names ↔ items = names.map .string := by
  induction items generalizing names with
  | nil => cases names <;> simp
  | cons item items ih =>
      simp only [List.mapM_cons, Option.bind_eq_bind, Option.bind_eq_some_iff, Option.pure_def,
        Option.some.injEq, text?_eq_some, ih]
      cases names with
      | nil => simp
      | cons name names => simp [and_comm, eq_comm]

theorem texts?_eq_some {names : List String} : value.texts? = some names ↔ value = texts names := by
  cases value with
  | array items => simp [texts?, texts, mapM_text?_eq_some]
  | null | bool | number | string | object => simp [texts?, texts]

/-- The value at the end of a row of keys. -/
def at? : List String → Json → Option Json
  | [], value => some value
  | key :: keys, value => (value.get? key).bind (at? keys)

theorem at?_key (config : Json) (key : String) : config.at? [key] = config.get? key := by
  cases hv : config.get? key with
  | none => rw [at?, hv, Option.bind_none]
  | some value => rw [at?, hv, Option.bind_some, at?]

end Json

namespace Config

open Json (texts)

variable {α : Type} {gives : Json → α → Prop} {read : Json → Option α} {fallback a b : α}
  {field : String} {found : Option Json} {config : Json} {home root : String}

/-! ### Single fields -/

/-- A field has the value that is given by what was found at its place, or else the default. -/
def Settles (gives : Json → α → Prop) (fallback : α) (found : Option Json) (a : α) : Prop :=
  (∃ value, found = some value ∧ gives value a) ∨
    ((∀ value, found = some value → ∀ b, ¬gives value b) ∧ a = fallback)

theorem Settles.unique (hgives : ∀ value a b, gives value a → gives value b → a = b)
    (ha : Settles gives fallback found a) (hb : Settles gives fallback found b) : a = b := by
  rcases ha with ⟨value, rfl, ha⟩ | ⟨hnone, rfl⟩
  · rcases hb with ⟨_, heq, hb⟩ | ⟨hnone, -⟩
    · cases heq
      exact hgives _ _ _ ha hb
    · exact absurd ha (hnone value rfl a)
  · rcases hb with ⟨value, rfl, hb⟩ | ⟨-, rfl⟩
    · exact absurd hb (hnone value rfl b)
    · rfl

/-- What holds of the default and of every value that is given holds of the field. -/
theorem Settles.holds {P : α → Prop} (h : Settles gives fallback found a) (hfallback : P fallback)
    (hgives : ∀ value a, gives value a → P a) : P a := by
  rcases h with ⟨value, -, h⟩ | ⟨-, rfl⟩
  · exact hgives value a h
  · exact hfallback

theorem check_settles (hread : ∀ value a, read value = some a ↔ gives value a) (field : String)
    (fallback : α) (found : Option Json) :
    Settles gives fallback found (check field read fallback found).1 := by
  cases found with
  | none => exact .inr ⟨nofun, rfl⟩
  | some value =>
      cases hv : read value with
      | none =>
          refine .inr ⟨fun value' heq b hb => ?_, by rw [check, hv]⟩
          cases heq
          rw [(hread value b).mpr hb] at hv
          cases hv
      | some a =>
          refine .inl ⟨value, rfl, (hread value _).mp ?_⟩
          rw [check, hv]

/-- What is reported of a field: a value that gives nothing. -/
theorem mem_check (hread : ∀ value a, read value = some a ↔ gives value a) {item : Ignored} :
    item ∈ (check field read fallback found).2 ↔
      ∃ value, found = some value ∧ (∀ b, ¬gives value b) ∧ item = ⟨field, value⟩ := by
  cases found with
  | none => simp [check]
  | some value =>
      cases hv : read value with
      | none =>
          have hnone (b : α) : ¬gives value b := fun hb => by
            rw [(hread value b).mpr hb] at hv
            cases hv
          simp [check, hv, hnone]
      | some a =>
          have ha := (hread value a).mp hv
          simp only [check, hv, List.not_mem_nil, false_iff]
          rintro ⟨_, heq, hnone, -⟩
          cases heq
          exact hnone a ha

/-! ### The table of modules -/

/-- A row that a table of modules can hold. -/
def IsRow (row : String × Json) : Prop := row.1 ≠ "__proto__" ∧ ∃ names, row.2 = texts names

def rowOf (row : String × List String) : String × Json := (row.1, texts row.2)

theorem isRow_iff (row : String × Json) :
    (row.1 != "__proto__" && row.2.texts?.isSome) = true ↔ IsRow row := by
  simp only [Bool.and_eq_true, bne_iff_ne, Option.isSome_iff_exists, Json.texts?_eq_some, IsRow]

instance : DecidablePred IsRow := fun row => decidable_of_iff _ (isRow_iff row)

theorem tableRows_texts {module : String} {value : Json} {names : List String}
    {rest : List (String × Json)} (h : value.texts? = some names) :
    tableRows ((module, value) :: rest) =
      (if module == "__proto__" then (tableRows rest).1 else (module, names) :: (tableRows rest).1,
        (tableRows rest).2) := by
  rw [tableRows, h]

theorem tableRows_other {module : String} {value : Json} {rest : List (String × Json)}
    (h : value.texts? = none) :
    tableRows ((module, value) :: rest) = ((tableRows rest).1,
      ⟨"discovery.extraSubmodules." ++ module, value⟩ :: (tableRows rest).2) := by
  rw [tableRows, h]

/-- Each row of a table is kept or not, whatever the other rows are. -/
theorem tableRows_filter (rows : List (String × Json)) :
    (tableRows rows).1.map rowOf = rows.filter fun row => decide (IsRow row) := by
  induction rows with
  | nil => rfl
  | cons row rest ih =>
      obtain ⟨module, value⟩ := row
      cases hv : value.texts? with
      | none =>
          have hrow : ¬IsRow (module, value) := fun h => by
            obtain ⟨-, names, rfl⟩ := h
            rw [Json.texts?_eq_some.mpr rfl] at hv
            cases hv
          rw [tableRows_other hv, List.filter_cons, if_neg (by simpa using hrow), ih]
      | some names =>
          rw [tableRows_texts hv, List.filter_cons]
          have hvalue := Json.texts?_eq_some.mp hv
          by_cases hname : module = "__proto__"
          · have hrow : ¬IsRow (module, value) := fun h => h.1 hname
            rw [if_pos (by simpa using hname), if_neg (by simpa using hrow), ih]
          · have hrow : IsRow (module, value) := ⟨hname, names, hvalue⟩
            rw [if_neg (by simpa using hname), if_pos (by simpa using hrow), List.map_cons, ih, rowOf,
              hvalue]

/-- A row is reported if it is no list of texts. -/
theorem tableRows_ignored (rows : List (String × Json)) :
    (tableRows rows).2 = (rows.filter fun row => row.2.texts?.isNone).map fun row =>
      ⟨"discovery.extraSubmodules." ++ row.1, row.2⟩ := by
  induction rows with
  | nil => rfl
  | cons row rest ih =>
      obtain ⟨module, value⟩ := row
      cases hv : value.texts? with
      | none => simp [tableRows_other hv, ih, hv]
      | some names => simp [tableRows_texts hv, ih, hv]

/-- The rows of what was found at the place of the table. -/
def rowsAt : Option Json → List (String × Json)
  | some (.object rows) => rows
  | _ => []

theorem table_settles (found : Option Json) :
    (table found).1.map rowOf = (rowsAt found).filter fun row => decide (IsRow row) := by
  cases found with
  | none => rfl
  | some value =>
      cases value with
      | object rows => exact tableRows_filter rows
      | null | bool | number | string | array => rfl

theorem rowOf_injective : Function.Injective rowOf := by
  rintro ⟨module, names⟩ ⟨module', names'⟩ h
  simp only [rowOf, texts, Prod.mk.injEq, Json.array.injEq] at h
  have hnames := List.map_injective_iff.mpr (fun _ _ => Json.string.inj) h.2
  rw [h.1, hnames]

/-! ### All fields -/

/-- The settings that a configuration gives. Each field is settled by what is found at its place, and
by nothing else. -/
structure Settled (home root : String) (config : Json) (settings : Settings) : Prop where
  debug : Settles (fun value b => value = .bool b) false (config.at? ["debug"]) settings.debug
  cacheEnabled : Settles (fun value b => value = .bool b) true (config.at? ["cache", "enabled"])
    settings.cache.enabled
  directory : Settles (fun value dir => ∃ path, value = .string path ∧ path ≠ "" ∧
      dir = Path.resolve root path)
    (Settings.cacheRoot home) (config.at? ["cache", "directory"]) settings.cache.directory
  maxSizeMB : Settles (fun value n => value = .number n ∧ n.IsPositive) 1024
    (config.at? ["cache", "maxSizeMB"]) settings.cache.maxSizeMB
  retentionDays : Settles (fun value n => value = .number n ∧ n.IsPositive) 30
    (config.at? ["cache", "retentionDays"]) settings.cache.retentionDays
  discoveryEnabled : Settles (fun value b => value = .bool b) true
    (config.at? ["discovery", "enabled"]) settings.discovery.enabled
  maxDepth : Settles (fun value n => value = .number n ∧ n.IsNatural) 3
    (config.at? ["discovery", "maxDepth"]) settings.discovery.maxDepth
  python : Settles (fun value s => value = .string s ∧ s ≠ "") "python3"
    (config.at? ["discovery", "python"]) settings.python
  extraSubmodules : settings.discovery.extraSubmodules.map rowOf =
    (rowsAt (config.at? ["discovery", "extraSubmodules"])).filter fun row => decide (IsRow row)
  excluded : Settles (fun value names => value = texts names) []
    (config.at? ["discovery", "excluded"]) settings.discovery.excluded

theorem part_get? (config : Json) (name key : String) :
    (part config name).get? key = config.at? [name, key] := by
  rw [Json.at?, part]
  cases config.get? name with
  | none => rfl
  | some value =>
      rw [Option.bind_some, Json.at?_key]
      cases value <;> rfl

/-- A configuration that is no object gives what an empty one gives. -/
theorem resolve_fst (home root : String) (config : Json) :
    (resolve home root config).1 = (resolveObject (.default home) root config).1 := by
  cases config <;> rfl

theorem filledText?_resolve {value : Json} {dir : String} :
    value.filledText?.map (Path.resolve root) = some dir ↔
      ∃ path, value = .string path ∧ path ≠ "" ∧ dir = Path.resolve root path := by
  simp only [Option.map_eq_some_iff, Json.filledText?_eq_some, and_assoc, eq_comm (a := dir)]

theorem resolve_settled (home root : String) (config : Json) :
    Settled home root config (resolve home root config).1 := by
  rw [resolve_fst]
  constructor
  · rw [Json.at?_key]
    exact check_settles (fun _ _ => Json.flag?_eq_some) _ _ _
  all_goals rw [← part_get?]
  · exact check_settles (fun _ _ => Json.flag?_eq_some) _ _ _
  · exact check_settles (fun _ _ => filledText?_resolve) _ _ _
  · exact check_settles (fun _ _ => Json.positive?_eq_some) _ _ _
  · exact check_settles (fun _ _ => Json.positive?_eq_some) _ _ _
  · exact check_settles (fun _ _ => Json.flag?_eq_some) _ _ _
  · exact check_settles (fun _ _ => Json.count?_eq_some) _ _ _
  · exact check_settles (fun _ _ => Json.filledText?_eq_some) _ _ _
  · exact table_settles _
  · exact check_settles (fun _ _ => Json.texts?_eq_some) _ _ _

/-- A configuration gives one row of settings only. -/
theorem Settled.unique {settings other : Settings} (h : Settled home root config settings)
    (h' : Settled home root config other) : settings = other := by
  obtain ⟨debug, ⟨enabled, directory, size, days⟩, ⟨search, depth, table, excluded⟩, python⟩ := settings
  obtain ⟨debug', ⟨enabled', directory', size', days'⟩, ⟨search', depth', table', excluded'⟩,
    python'⟩ := other
  have hflag (value : Json) (b b' : Bool) (hb : value = .bool b) (hb' : value = .bool b') : b = b' :=
    Json.bool.inj (hb.symm.trans hb')
  have hnumber (P : Number → Prop) (value : Json) (n n' : Number) (hn : value = .number n ∧ P n)
      (hn' : value = .number n' ∧ P n') : n = n' :=
    Json.number.inj (hn.1.symm.trans hn'.1)
  have hdebug : debug = debug' := h.debug.unique hflag h'.debug
  have henabled : enabled = enabled' := h.cacheEnabled.unique hflag h'.cacheEnabled
  have hdirectory : directory = directory' := by
    refine h.directory.unique ?_ h'.directory
    rintro _ _ _ ⟨path, rfl, -, rfl⟩ ⟨path', heq, -, rfl⟩
    rw [Json.string.inj heq]
  have hsize : size = size' := h.maxSizeMB.unique (hnumber _) h'.maxSizeMB
  have hdays : days = days' := h.retentionDays.unique (hnumber _) h'.retentionDays
  have hsearch : search = search' := h.discoveryEnabled.unique hflag h'.discoveryEnabled
  have hdepth : depth = depth' := h.maxDepth.unique (hnumber _) h'.maxDepth
  have hpython : python = python' := by
    refine h.python.unique ?_ h'.python
    rintro _ _ _ ⟨rfl, -⟩ ⟨heq, -⟩
    exact Json.string.inj heq
  have htable : table = table' :=
    List.map_injective_iff.mpr rowOf_injective (h.extraSubmodules.trans h'.extraSubmodules.symm)
  have hexcluded : excluded = excluded' := by
    refine h.excluded.unique ?_ h'.excluded
    rintro _ _ _ rfl heq
    exact List.map_injective_iff.mpr (fun _ _ => Json.string.inj) (Json.array.inj heq)
  subst hdebug henabled hdirectory hsize hdays hsearch hdepth hpython htable hexcluded
  rfl

/-! ### What is reported -/

/-- The fields, in the order in which they are looked at, and what a value has to be at their places. -/
def rules : List (List String × (Json → Prop)) :=
  [(["cache", "directory"], fun value => ∃ path, value = .string path ∧ path ≠ ""),
   (["discovery", "maxDepth"], fun value => ∃ n, value = .number n ∧ n.IsNatural),
   (["discovery", "python"], fun value => ∃ s, value = .string s ∧ s ≠ ""),
   (["discovery", "excluded"], fun value => ∃ names, value = texts names),
   (["debug"], fun value => ∃ b, value = .bool b),
   (["cache", "enabled"], fun value => ∃ b, value = .bool b),
   (["cache", "maxSizeMB"], fun value => ∃ n, value = .number n ∧ n.IsPositive),
   (["cache", "retentionDays"], fun value => ∃ n, value = .number n ∧ n.IsPositive),
   (["discovery", "enabled"], fun value => ∃ b, value = .bool b),
   (["discovery", "extraSubmodules"], fun value => ∃ rows, value = .object rows)]

/-- What is reported of a configuration: the whole, a field or a row of the table, if it is there and
is not what it has to be. -/
inductive Reported (config : Json) : Ignored → Prop
  | whole (hnull : config ≠ .null) (hobject : config.isObject = false) :
      Reported config ⟨"config", config⟩
  | field {keys : List String} {rule : Json → Prop} {value : Json} (hrule : (keys, rule) ∈ rules)
      (hfound : config.at? keys = some value) (h : ¬rule value) :
      Reported config ⟨".".intercalate keys, value⟩
  | row {module : String} {value : Json}
      (hrow : (module, value) ∈ rowsAt (config.at? ["discovery", "extraSubmodules"]))
      (h : ∀ names, value ≠ texts names) :
      Reported config ⟨"discovery.extraSubmodules." ++ module, value⟩

theorem mem_table {item : Ignored} : item ∈ (table found).2 ↔
    (∃ value, found = some value ∧ (∀ rows, value ≠ .object rows) ∧
      item = ⟨"discovery.extraSubmodules", value⟩) ∨
    ∃ module value, (module, value) ∈ rowsAt found ∧ (∀ names, value ≠ texts names) ∧
      item = ⟨"discovery.extraSubmodules." ++ module, value⟩ := by
  have hnone (value : Json) : value.texts?.isNone = true ↔ ∀ names, value ≠ texts names := by
    simp only [← Json.texts?_eq_some, Option.isNone_iff_eq_none, Option.eq_none_iff_forall_ne_some,
      ne_eq]
  rcases found with _ | value
  · simp [table, rowsAt]
  · cases value with
    | object rows => simp [table, rowsAt, tableRows_ignored, hnone, eq_comm, and_assoc]
    | null | bool | number | string | array => simp [table, rowsAt]

theorem mem_resolveObject {base : Settings} {item : Ignored} :
    item ∈ (resolveObject base root config).2 ↔
      (∃ keys rule value, (keys, rule) ∈ rules ∧ config.at? keys = some value ∧ ¬rule value ∧
        item = ⟨".".intercalate keys, value⟩) ∨
      ∃ module value, (module, value) ∈ rowsAt (config.at? ["discovery", "extraSubmodules"]) ∧
        (∀ names, value ≠ texts names) ∧ item = ⟨"discovery.extraSubmodules." ++ module, value⟩ := by
  have hdirectory (value : Json) :
      (∀ dir, ¬∃ path, value = .string path ∧ path ≠ "" ∧ dir = Path.resolve root path) ↔
        ¬∃ path, value = .string path ∧ path ≠ "" := by
    constructor
    · rintro h ⟨path, hvalue, hne⟩
      exact h _ ⟨path, hvalue, hne, rfl⟩
    · rintro h dir ⟨path, hvalue, hne, -⟩
      exact h ⟨path, hvalue, hne⟩
  simp only [resolveObject, List.mem_append, or_assoc, part_get?, mem_table,
    mem_check (fun _ _ => Json.flag?_eq_some), mem_check (fun _ _ => filledText?_resolve),
    mem_check (fun _ _ => Json.positive?_eq_some), mem_check (fun _ _ => Json.count?_eq_some),
    mem_check (fun _ _ => Json.filledText?_eq_some), mem_check (fun _ _ => Json.texts?_eq_some),
    hdirectory]
  simp only [rules, List.mem_cons, List.not_mem_nil, or_false, Prod.mk.injEq, or_and_right, exists_or,
    and_assoc, exists_and_left, exists_eq_left, Json.at?_key, not_exists, or_assoc]
  exact Iff.rfl

theorem at?_of_not_object (h : config.isObject = false) (key : String) (keys : List String) :
    config.at? (key :: keys) = none := by
  cases config with
  | object fields => cases h
  | null | bool | number | string | array => rfl

theorem reported_of_not_object (hobject : config.isObject = false) {item : Ignored} :
    Reported config item ↔ config ≠ .null ∧ item = ⟨"config", config⟩ := by
  constructor
  · intro h
    cases h with
    | whole hnull _ => exact ⟨hnull, rfl⟩
    | @field keys rule value hrule hfound _ =>
        cases keys with
        | nil => simp [rules] at hrule
        | cons key keys =>
            rw [at?_of_not_object hobject] at hfound
            cases hfound
    | row hrow _ =>
        rw [at?_of_not_object hobject] at hrow
        cases hrow
  · rintro ⟨hnull, rfl⟩
    exact .whole hnull hobject

/-- Exactly what is there and cannot be used is reported. -/
theorem reported_iff (home root : String) (config : Json) (item : Ignored) :
    item ∈ (resolve home root config).2 ↔ Reported config item := by
  cases config with
  | object fields =>
      have hfields : (resolve home root (.object fields)).2 =
          (resolveObject (.default home) root (.object fields)).2 := rfl
      rw [hfields, mem_resolveObject]
      constructor
      · rintro (⟨keys, rule, value, hrule, hfound, h, rfl⟩ | ⟨module, value, hrow, h, rfl⟩)
        · exact .field hrule hfound h
        · exact .row hrow h
      · intro h
        cases h with
        | whole _ hobject => cases hobject
        | field hrule hfound h => exact .inl ⟨_, _, _, hrule, hfound, h, rfl⟩
        | row hrow h => exact .inr ⟨_, _, hrow, h, rfl⟩
  | null =>
      have hnull : Json.null.isObject = false := rfl
      simp [resolve, reported_of_not_object hnull]
  | bool | number | string | array =>
      rw [reported_of_not_object rfl]
      exact ⟨fun h => ⟨nofun, List.mem_singleton.mp h⟩, fun h => List.mem_singleton.mpr h.2⟩

/-- A section that is no object is passed over, and not a word is said about it. -/
example : resolve "/home/u" "/W" (.object [("cache", .number 5)]) = (.default "/home/u", []) := rfl

end Config

/-! ### Settings as a configuration -/

/-- Settings that can be worked with. -/
structure Settings.Valid (settings : Settings) : Prop where
  maxSizeMB : settings.cache.maxSizeMB.IsPositive
  retentionDays : settings.cache.retentionDays.IsPositive
  maxDepth : settings.discovery.maxDepth.IsNatural
  absolute : Path.isAbsolute settings.cache.directory = true
  /-- The folder of the cache is the same one wherever one is. -/
  directory : ∀ current, Path.resolve current settings.cache.directory = settings.cache.directory
  python : settings.python ≠ ""
  extraSubmodules : ∀ row ∈ settings.discovery.extraSubmodules, row.1 ≠ "__proto__"

theorem Settings.Valid.directory_ne {settings : Settings} (h : settings.Valid) :
    settings.cache.directory ≠ "" := by
  intro heq
  have habs := h.absolute
  rw [heq] at habs
  cases habs

/-- The configuration that says in full what settings are. -/
def Settings.json (settings : Settings) : Json :=
  .object
    [("debug", .bool settings.debug),
     ("cache", .object
       [("enabled", .bool settings.cache.enabled),
        ("directory", .string settings.cache.directory),
        ("maxSizeMB", .number settings.cache.maxSizeMB),
        ("retentionDays", .number settings.cache.retentionDays)]),
     ("discovery", .object
       [("enabled", .bool settings.discovery.enabled),
        ("maxDepth", .number settings.discovery.maxDepth),
        ("python", .string settings.python),
        ("extraSubmodules", .object (settings.discovery.extraSubmodules.map Config.rowOf)),
        ("excluded", .texts settings.discovery.excluded)])]

theorem Settings.cacheRoot_isNormal {home : String} (h : Path.isAbsolute home = true) :
    Path.IsNormal (cacheRoot home) := by
  refine Path.join_isNormal h (List.cons_ne_nil _ _) fun name hname => ?_
  simp only [List.mem_cons, List.not_mem_nil, or_false] at hname
  rcases hname with rfl | rfl <;> exact ⟨by decide, by decide, by decide, by decide⟩

namespace Config

variable {config : Json} {home root : String} {settings : Settings}

theorem Settled.valid (h : Settled home root config settings)
    (hhome : Path.isAbsolute home = true) : settings.Valid where
  maxSizeMB := h.maxSizeMB.holds (Number.isPositive_ofNat (by decide) (by decide)) fun _ _ hn => hn.2
  retentionDays :=
    h.retentionDays.holds (Number.isPositive_ofNat (by decide) (by decide)) fun _ _ hn => hn.2
  maxDepth := h.maxDepth.holds (Number.isNatural_ofNat (by decide)) fun _ _ hn => hn.2
  absolute := by
    rcases h.directory with ⟨_, -, path, -, -, heq⟩ | ⟨-, heq⟩
    · rw [heq]
      exact Path.isAbsolute_resolve root path
    · rw [heq]
      exact (Settings.cacheRoot_isNormal hhome).isAbsolute
  directory current := by
    rcases h.directory with ⟨_, -, path, -, -, heq⟩ | ⟨-, heq⟩
    · rw [heq, Path.resolve_fixed]
    · rw [heq, (Settings.cacheRoot_isNormal hhome).resolve_eq]
  python := h.python.holds (by decide) fun _ _ hs => hs.2
  extraSubmodules row hrow := by
    have hkept := List.mem_map_of_mem (f := rowOf) hrow
    rw [h.extraSubmodules, List.mem_filter, decide_eq_true_iff] at hkept
    exact hkept.2.1

theorem Settled.of_json (h : settings.Valid) (home root : String) :
    Settled home root settings.json settings where
  debug := .inl ⟨_, rfl, rfl⟩
  cacheEnabled := .inl ⟨_, rfl, rfl⟩
  directory := .inl ⟨_, rfl, _, rfl, h.directory_ne, (h.directory root).symm⟩
  maxSizeMB := .inl ⟨_, rfl, rfl, h.maxSizeMB⟩
  retentionDays := .inl ⟨_, rfl, rfl, h.retentionDays⟩
  discoveryEnabled := .inl ⟨_, rfl, rfl⟩
  maxDepth := .inl ⟨_, rfl, rfl, h.maxDepth⟩
  python := .inl ⟨_, rfl, rfl, h.python⟩
  extraSubmodules := by
    refine (List.filter_eq_self.mpr fun row hrow => ?_).symm
    obtain ⟨kept, hkept, rfl⟩ := List.mem_map.mp hrow
    exact decide_eq_true ⟨h.extraSubmodules kept hkept, kept.2, rfl⟩
  excluded := .inl ⟨_, rfl, rfl⟩

theorem rules_json (h : settings.Valid) :
    ∀ rule ∈ rules, ∃ value, settings.json.at? rule.1 = some value ∧ rule.2 value := by
  simp only [rules, List.forall_mem_cons]
  exact ⟨⟨_, rfl, _, rfl, h.directory_ne⟩, ⟨_, rfl, _, rfl, h.maxDepth⟩, ⟨_, rfl, _, rfl, h.python⟩,
    ⟨_, rfl, _, rfl⟩, ⟨_, rfl, _, rfl⟩, ⟨_, rfl, _, rfl⟩, ⟨_, rfl, _, rfl, h.maxSizeMB⟩,
    ⟨_, rfl, _, rfl, h.retentionDays⟩, ⟨_, rfl, _, rfl⟩, ⟨_, rfl, _, rfl⟩, nofun⟩

/-- Valid settings, read as a configuration, are these settings, and nothing is reported. -/
theorem resolve_json (h : settings.Valid) (home root : String) :
    resolve home root settings.json = (settings, []) := by
  have hsettled := Settled.of_json h home root
  refine Prod.ext ((resolve_settled home root settings.json).unique hsettled) ?_
  refine List.eq_nil_iff_forall_not_mem.mpr fun item hitem => ?_
  cases (reported_iff home root settings.json item).mp hitem with
  | whole _ hobject => cases hobject
  | field hrule hfound hvalue =>
      obtain ⟨value, hown, hrule⟩ := rules_json h _ hrule
      rw [hown] at hfound
      cases hfound
      exact hvalue hrule
  | row hrow hvalue =>
      obtain ⟨row, -, heq⟩ := List.mem_map.mp hrow
      cases heq
      exact hvalue row.2 rfl

end Config

namespace Effect

variable {w : World} {root : String}

theorem warnings_does {α : Type} (ignored : List Ignored) (a : α) (w : World) :
    Does (do
      for item in ignored do warn item.warning
      return a) w a w.root := by
  induction ignored generalizing w with
  | nil => exact does_pure a w
  | cons item ignored ih =>
      simp only [List.forIn_cons, bind_assoc, pure_bind]
      refine (warn_does item.warning w).bind fun w' he => ?_
      rw [← he.root_eq]
      exact ih w'

theorem resolveSettings_eq (hroot : Path.isAbsolute root = true) (config : Json) (w : World) :
    resolveSettings root config w = (do
      for item in (Config.resolve w.environment.home root config).2 do warn item.warning
      return (Config.resolve w.environment.home root config).1 : Effect Settings) w := by
  have hresolve : Config.resolve w.environment.home (Path.resolve w.workingDirectory root) config =
      Config.resolve w.environment.home root config := by
    have hpath : Path.resolve (Path.resolve w.workingDirectory root) = Path.resolve root :=
      funext fun path => Path.resolve_resolve hroot w.workingDirectory path
    cases config with
    | object fields => simp only [Config.resolve, Config.resolveObject, hpath]
    | null | bool | number | string | array => rfl
  rw [← hresolve]
  rfl

/-- Resolving settings always gives some, and leaves the files alone. -/
theorem resolveSettings_does (hroot : Path.isAbsolute root = true) (config : Json) (w : World) :
    Does (resolveSettings root config) w (Config.resolve w.environment.home root config).1
      w.root := by
  rw [Does, resolveSettings_eq hroot]
  exact warnings_does _ _ w

/-- Whatever the configuration is, the settings are valid, and each field is settled by the value at its
own place. Resolved once more they are the same, and no line is written. -/
theorem resolveSettings_settles (hhome : Path.isAbsolute w.environment.home = true)
    (hroot : Path.isAbsolute root = true) (config : Json) :
    ∃ settings, Does (resolveSettings root config) w settings w.root ∧ settings.Valid ∧
      Config.Settled w.environment.home root config settings ∧
      (∀ other, Config.Settled w.environment.home root config other → other = settings) ∧
      ∀ w' : World, resolveSettings root settings.json w' = (.ok settings, w') := by
  have hsettled := Config.resolve_settled w.environment.home root config
  have hvalid := hsettled.valid hhome
  refine ⟨_, resolveSettings_does hroot config w, hvalid, hsettled,
    fun other hother => hother.unique hsettled, fun w' => ?_⟩
  rw [resolveSettings_eq hroot, Config.resolve_json hvalid]
  rfl

/-- A configuration in which some values can be used and others cannot. -/
def mixed : Json := .object
  [("debug", .string "yes"),
   ("cache", .object [("enabled", .bool false), ("directory", .string "../store/"),
     ("maxSizeMB", .number (.finite (-5)))]),
   ("discovery", .object [("maxDepth", .number 0),
     ("extraSubmodules", .object [("kivy", .texts ["kivy.core"]), ("bad", .null)])])]

theorem resolveSettings_settles_mixed :
    Path.isAbsolute (World.start (.folder [])).environment.home = true ∧
      Path.isAbsolute "/W/p" = true ∧
      ∃ settings, Does (resolveSettings "/W/p" mixed) (.start (.folder [])) settings (.folder []) ∧
        settings = ⟨false, ⟨false, "/W/store", 1024, 30⟩,
          ⟨true, 0, [("kivy", ["kivy.core"])], []⟩, "python3"⟩ ∧
        ∀ w', resolveSettings "/W/p" settings.json w' = (.ok settings, w') := by
  have hhome : Path.isAbsolute (World.start (.folder [])).environment.home = true := by decide
  have hroot : Path.isAbsolute "/W/p" = true := by decide
  obtain ⟨settings, hdoes, -, -, hunique, hagain⟩ := resolveSettings_settles hhome hroot mixed
  refine ⟨hhome, hroot, settings, hdoes, ?_, hagain⟩
  rw [← hunique _ (Config.resolve_settled _ _ mixed)]
  rfl

end Effect

end ScriptPack
