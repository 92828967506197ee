import Mathlib.Data.List.Induction
import Mathlib.Data.List.Nodup
import ScriptPack.Proofs.Json.Number

/-!
The order of the keys of an object. Keys that spell array indices come first, by their numbers, and
all other keys follow in the order in which they were set; an object that is built from the fields
of another one keeps their order.
-/

namespace ScriptPack

namespace Json

variable {key key' : String} {n : Nat}

/-! ### Array indices -/

/-- A decimal digit is the only digit of its value. -/
theorem toDigits_of_isDigit {c : Char} (h : c.isDigit = true) :
    c.toNat - '0'.toNat < 10 ∧ Nat.toDigits 10 (c.toNat - '0'.toNat) = [c] := by
  have hzero : '0'.toNat = 48 := rfl
  have hnine : '9'.toNat = 57 := rfl
  have hc := Char.isDigit_iff_toNat.mp h
  have hlt : c.toNat - '0'.toNat < 10 := by omega
  have hchar : Nat.digitChar (c.toNat - '0'.toNat) = c := by
    apply Char.toNat_inj.mp
    rw [Nat.toNat_digitChar_of_lt_ten hlt]
    omega
  rw [Nat.toDigits_of_lt_base hlt, hchar]
  exact ⟨hlt, rfl⟩

/-- Digits behind those of a positive number are the digits of a longer number. -/
theorem toDigits_append_eq {digits : List Char} (hd : ∀ c ∈ digits, c.isDigit = true) {first : Nat}
    (hf : 0 < first) :
    Nat.toDigits 10 first ++ digits = Nat.toDigits 10 (Nat.ofDigitChars 10 digits first) := by
  induction digits generalizing first with
  | nil => rw [List.append_nil, Nat.ofDigitChars_nil]
  | cons c digits ih =>
      obtain ⟨hlt, hdigit⟩ := toDigits_of_isDigit (hd c List.mem_cons_self)
      have hlast : Nat.toDigits 10 first ++ [c] =
          Nat.toDigits 10 (10 * first + (c.toNat - '0'.toNat)) := by
        rw [← hdigit, Nat.toDigits_append_toDigits (by decide) hf hlt]
      rw [Nat.ofDigitChars_cons, ← ih (fun c hc => hd c (List.mem_cons_of_mem _ hc)) (by omega),
        ← hlast, List.append_assoc]
      rfl

/-- Digits without a leading zero are the digits of their value. -/
theorem toDigits_ofDigitChars {digits : List Char} (hd : ∀ c ∈ digits, c.isDigit = true)
    (hne : digits ≠ []) (hz : digits.head? = some '0' → digits = ['0']) :
    Nat.toDigits 10 (Nat.ofDigitChars 10 digits 0) = digits := by
  cases digits with
  | nil => exact absurd rfl hne
  | cons c digits =>
      by_cases hzero : c = '0'
      · rw [hz (by rw [hzero]; rfl)]
        rfl
      · obtain ⟨hlt, hdigit⟩ := toDigits_of_isDigit (hd c List.mem_cons_self)
        have hpos : 0 < c.toNat - '0'.toNat := by
          refine Nat.pos_of_ne_zero fun hnone => hzero ?_
          rw [hnone] at hdigit
          exact (List.singleton_inj.mp hdigit).symm
        rw [Nat.ofDigitChars_cons, Nat.mul_zero, Nat.zero_add,
          ← toDigits_append_eq (fun c hc => hd c (List.mem_cons_of_mem _ hc)) hpos, hdigit]
        rfl

/-- A key spells an index if it is the decimal form of a number below `2 ^ 32 - 1`. -/
theorem arrayIndex?_eq_some_iff :
    arrayIndex? key = some n ↔ n ≤ 4294967294 ∧ key = toString n := by
  have hvalue : key.toList.foldl (fun n c => 10 * n + (c.toNat - '0'.toNat)) 0 =
      Nat.ofDigitChars 10 key.toList 0 := rfl
  rw [arrayIndex?]
  simp only [hvalue]
  constructor
  · intro h
    split at h
    · cases h
    split at h
    · cases h
    split at h
    · rename_i hlong hzero hlt
      cases h
      obtain ⟨⟨hne, -⟩, hd⟩ : (key.toList ≠ [] ∧ key.toList.length ≤ 10) ∧
          ∀ c ∈ key.toList, c.isDigit = true := by simpa using hlong
      refine ⟨by omega, ?_⟩
      rw [Nat.toString_eq_ofList_toDigits, toDigits_ofDigitChars hd hne, String.ofList_toList]
      intro hhead
      rw [hhead] at hzero
      simpa using hzero
    · cases h
  · rintro ⟨hle, rfl⟩
    have hdigits : (toString n).toList = Nat.toDigits 10 n := by
      rw [Nat.toString_eq_ofList_toDigits, String.toList_ofList]
    have hlength : (Nat.toDigits 10 n).length ≤ 10 :=
      (Nat.length_toDigits_le_iff (by decide) (by decide)).mpr (by omega)
    have hall : (Nat.toDigits 10 n).all Char.isDigit = true := List.all_eq_true.mpr fun c hc =>
      Nat.isDigit_of_mem_toDigits (by decide) (by decide) hc
    have hzero : (Nat.toDigits 10 n).head? = some '0' → Nat.toDigits 10 n = ['0'] := by
      intro hhead
      by_cases hn : n = 0
      · rw [hn]
        rfl
      · exact absurd hhead (head?_toDigits hn)
    rw [hdigits, hall, Nat.ofDigitChars_ten_toDigits, if_neg (by simp [Nat.toDigits_ne_nil, hlength]),
      if_neg (by simpa using hzero), if_pos (by omega)]

theorem arrayIndex?_injective (h : arrayIndex? key = some n) (h' : arrayIndex? key' = some n) :
    key = key' :=
  (arrayIndex?_eq_some_iff.mp h).2.trans (arrayIndex?_eq_some_iff.mp h').2.symm

/-! ### The order -/

/-- Whether a key stands among the indices. -/
def isIndex (key : String) : Bool := (arrayIndex? key).isSome

/-- Whether the index of one key is at most that of another one. -/
def indexAtMost (key other : String) : Bool := (arrayIndex? key).getD 0 ≤ (arrayIndex? other).getD 0

/-- Whether an object can have one key in front of another one: an index stands only behind smaller
ones. -/
def MayPrecede (key other : String) : Prop :=
  isIndex other = true → isIndex key = true ∧ indexAtMost key other = true

theorem indexAtMost_trans {a b c : String} (hab : indexAtMost a b = true)
    (hbc : indexAtMost b c = true) : indexAtMost a c = true := by
  rw [indexAtMost, decide_eq_true_eq] at *
  exact hab.trans hbc

/-- Two indices of which neither comes first are the same. -/
theorem indexAtMost_antisymm {a b : String} (ha : isIndex a = true) (hb : isIndex b = true)
    (hab : indexAtMost a b = true) (hba : indexAtMost b a = true) : a = b := by
  obtain ⟨i, hi⟩ := Option.isSome_iff_exists.mp ha
  obtain ⟨j, hj⟩ := Option.isSome_iff_exists.mp hb
  have hle : i ≤ j := by simpa [indexAtMost, hi, hj] using hab
  have hge : j ≤ i := by simpa [indexAtMost, hi, hj] using hba
  obtain rfl : i = j := Nat.le_antisymm hle hge
  exact arrayIndex?_injective hi hj

section

variable {α β : Type} (key : α → String) {item : α} {items : List α}

/-- The items with indices, in the order of these. -/
def indexed (items : List α) : List α :=
  (items.filter fun item => isIndex (key item)).mergeSort fun a b => indexAtMost (key a) (key b)

/-- The items with other keys. -/
def named (items : List α) : List α := items.filter fun item => !isIndex (key item)

/-- Items in the order that an object gives to their keys: the indices by their numbers, and then
the other keys as they come. -/
def inKeyOrder (items : List α) : List α := indexed key items ++ named key items

theorem mem_indexed : item ∈ indexed key items ↔ item ∈ items ∧ isIndex (key item) = true :=
  List.mem_mergeSort.trans List.mem_filter

theorem mem_named : item ∈ named key items ↔ item ∈ items ∧ isIndex (key item) = false := by
  rw [named, List.mem_filter, Bool.not_eq_true']

variable {key}

theorem indexed_perm (key : α → String) (items : List α) :
    (indexed key items).Perm (items.filter fun item => isIndex (key item)) :=
  List.mergeSort_perm _ _

theorem indexed_sorted (key : α → String) (items : List α) :
    (indexed key items).Pairwise fun a b => indexAtMost (key a) (key b) = true := by
  refine List.pairwise_mergeSort (fun a b c => @indexAtMost_trans (key a) (key b) (key c))
    (fun a b => ?_) _
  rw [indexAtMost, indexAtMost, Bool.or_eq_true, decide_eq_true_eq, decide_eq_true_eq]
  exact Nat.le_total _ _

/-- A sorted list of the items with indices is the only one if the keys are distinct. -/
theorem eq_indexed {sorted : List α} (hd : (items.map key).Nodup)
    (hp : sorted.Perm (items.filter fun item => isIndex (key item)))
    (hs : sorted.Pairwise fun a b => indexAtMost (key a) (key b) = true) :
    sorted = indexed key items := by
  refine (hp.trans (indexed_perm key items).symm).eq_of_pairwise (fun a b ha hb hab hba => ?_) hs
    (indexed_sorted key items)
  obtain ⟨hmem, hindex⟩ := List.mem_filter.mp (hp.mem_iff.mp ha)
  obtain ⟨hmem', hindex'⟩ := (mem_indexed key).mp hb
  exact List.inj_on_of_nodup_map hd hmem hmem' (indexAtMost_antisymm hindex hindex' hab hba)

theorem inKeyOrder_perm (key : α → String) (items : List α) : (inKeyOrder key items).Perm items :=
  ((indexed_perm key items).append_right _).trans
    (List.filter_append_perm (fun item => isIndex (key item)) items)

theorem map_inKeyOrder (f : α → β) (key : β → String) (items : List α) :
    (inKeyOrder (fun a => key (f a)) items).map f = inKeyOrder key (items.map f) := by
  rw [inKeyOrder, inKeyOrder, List.map_append, indexed, indexed, named, named, List.filter_map,
    List.filter_map,
    List.map_mergeSort (s := fun a b => indexAtMost (key a) (key b)) fun _ _ _ _ => rfl]
  rfl

/-- Each item of the order may stand in front of those behind it. -/
theorem pairwise_inKeyOrder (key : α → String) (items : List α) :
    (inKeyOrder key items).Pairwise fun a b => MayPrecede (key a) (key b) := by
  refine List.pairwise_append.mpr ⟨?_, ?_, fun a _ b hb hindex => ?_⟩
  · refine (indexed_sorted key items).imp_of_mem fun ha _ hle _ => ?_
    exact ⟨((mem_indexed key).mp ha).2, hle⟩
  · refine List.Pairwise.imp_of_mem (fun _ hb _ hindex => ?_)
      (List.pairwise_of_forall fun _ _ => trivial)
    cases hindex.symm.trans ((mem_named key).mp hb).2
  · cases hindex.symm.trans ((mem_named key).mp hb).2

/-- Items of which each may stand in front of those behind it are in the order already. -/
theorem inKeyOrder_of_pairwise (h : items.Pairwise fun a b => MayPrecede (key a) (key b)) :
    inKeyOrder key items = items := by
  have hsorted : (items.filter fun item => isIndex (key item)).Pairwise fun a b =>
      indexAtMost (key a) (key b) = true :=
    (h.filter _).imp_of_mem fun _ hb hab => (hab (List.mem_filter.mp hb).2).2
  rw [inKeyOrder, indexed, named, List.mergeSort_of_pairwise hsorted]
  clear hsorted
  induction items with
  | nil => rfl
  | cons item rest ih =>
      obtain ⟨hfirst, hrest⟩ := List.pairwise_cons.mp h
      cases hindex : isIndex (key item) with
      | true => simp [hindex, ih hrest]
      | false =>
          -- Behind a key that is no index there is none.
          have hnames (other : α) (hother : other ∈ rest) : isIndex (key other) = false := by
            by_contra hne
            cases hindex.symm.trans (hfirst other hother (by simpa using hne)).1
          have hnone : rest.filter (fun item => isIndex (key item)) = [] :=
            List.filter_eq_nil_iff.mpr fun other hother => by simp [hnames other hother]
          have hall : rest.filter (fun item => !isIndex (key item)) = rest :=
            List.filter_eq_self.mpr fun other hother => by simp [hnames other hother]
          simp [hindex, hnone, hall]

/-- Without indices the order is that of the items. -/
theorem inKeyOrder_eq_self (h : ∀ item ∈ items, arrayIndex? (key item) = none) :
    inKeyOrder key items = items := by
  refine inKeyOrder_of_pairwise (List.Pairwise.imp_of_mem (fun _ hb _ hindex => ?_)
    (List.pairwise_of_forall fun _ _ => trivial))
  rw [isIndex, h _ hb] at hindex
  cases hindex

/-- Items that are in the order of their keys stay in it. -/
theorem inKeyOrder_inKeyOrder (key : α → String) (items : List α) :
    inKeyOrder key (inKeyOrder key items) = inKeyOrder key items :=
  inKeyOrder_of_pairwise (pairwise_inKeyOrder key items)

end

end Json

namespace Fields

open Json

variable {α : Type} {fields : Fields α} {key : String} {value : α}

theorem set_new (h : key ∉ fields.map (·.1)) :
    fields.set key value = fields.insertNew key value := by
  have hcontains : fields.contains key = false := by
    rw [contains, List.any_eq_false]
    intro field hf hkey
    rw [beq_iff_eq] at hkey
    exact h (hkey ▸ List.mem_map_of_mem hf)
  rw [set, hcontains, if_neg (by decide)]

/-- A new key that is no index comes last. -/
theorem insertNew_name (h : arrayIndex? key = none) (fields : Fields α) :
    fields.insertNew key value = fields ++ [(key, value)] := by
  induction fields with
  | nil => rfl
  | cons field fields ih =>
      rw [insertNew, overtakes, h]
      simp only
      rw [if_neg (by decide), ih]
      rfl

/-- A new index comes behind the smaller ones and in front of all other keys. -/
theorem insertNew_index (value : α) {indices names : Fields α} (h : isIndex key = true)
    (hi : ∀ field ∈ indices, isIndex field.1 = true)
    (hn : ∀ field ∈ names, isIndex field.1 = false)
    (hs : indices.Pairwise fun a b => indexAtMost a.1 b.1 = true) :
    ∃ low high, indices = low ++ high ∧
      insertNew key value (indices ++ names) = low ++ (key, value) :: high ++ names ∧
      (low ++ (key, value) :: high).Pairwise fun a b => indexAtMost a.1 b.1 = true := by
  obtain ⟨i, hkey⟩ := Option.isSome_iff_exists.mp h
  induction indices with
  | nil =>
      refine ⟨[], [], rfl, ?_, List.pairwise_singleton _ _⟩
      cases names with
      | nil => rfl
      | cons field names =>
          have hname : arrayIndex? field.1 = none :=
            Option.isNone_iff_eq_none.mp (by simpa [isIndex] using hn field List.mem_cons_self)
          rw [List.nil_append, insertNew, overtakes, hkey, hname]
          rfl
  | cons field indices ih =>
      obtain ⟨j, hfield⟩ := Option.isSome_iff_exists.mp (hi field List.mem_cons_self)
      obtain ⟨hfirst, hrest⟩ := List.pairwise_cons.mp hs
      rw [List.cons_append, insertNew, overtakes, hkey, hfield]
      by_cases hlt : i < j
      · have hbefore : indexAtMost key field.1 = true := by
          rw [indexAtMost, hkey, hfield]
          exact decide_eq_true hlt.le
        refine ⟨[], field :: indices, rfl, by simp [hlt], List.pairwise_cons.mpr ⟨?_, hs⟩⟩
        rintro other (_ | ⟨_, hother⟩)
        · exact hbefore
        · exact indexAtMost_trans hbefore (hfirst other hother)
      · obtain ⟨low, high, rfl, hnew, hsorted⟩ :=
          ih (fun f hf => hi f (List.mem_cons_of_mem _ hf)) hrest
        have hafter : indexAtMost field.1 key = true := by
          rw [indexAtMost, hkey, hfield]
          exact decide_eq_true (Nat.le_of_not_lt hlt)
        rw [if_neg (by simpa using hlt), hnew]
        refine ⟨field :: low, high, rfl, rfl, List.pairwise_cons.mpr ⟨?_, hsorted⟩⟩
        intro other hother
        rcases List.mem_append.mp hother with hlow | hhigh
        · exact hfirst other (List.mem_append_left _ hlow)
        · rcases List.mem_cons.mp hhigh with rfl | hhigh
          · exact hafter
          · exact hfirst other (List.mem_append_right _ hhigh)

/-- Setting one more key of fields that are in order. -/
theorem set_inKeyOrder {field : String × α} (hd : ((fields ++ [field]).map (·.1)).Nodup) :
    Fields.set (inKeyOrder (·.1) fields) field.1 field.2 = inKeyOrder (·.1) (fields ++ [field]) := by
  have hnew : field.1 ∉ (inKeyOrder (·.1) fields).map (·.1) := by
    intro hmem
    rw [((inKeyOrder_perm (·.1) fields).map (·.1)).mem_iff] at hmem
    rw [List.map_append] at hd
    exact (List.nodup_append.mp hd).2.2 _ hmem _ List.mem_cons_self rfl
  rw [set_new hnew]
  cases hindex : isIndex field.1 with
  | false =>
      have hname : arrayIndex? field.1 = none :=
        Option.isNone_iff_eq_none.mp (by simpa [isIndex] using hindex)
      rw [insertNew_name hname]
      simp [inKeyOrder, indexed, named, hindex]
  | true =>
      have hnames : named (·.1) (fields ++ [field]) = named (·.1) fields := by
        simp [named, hindex]
      have hindices : ∀ f ∈ indexed (·.1) fields, isIndex f.1 = true := by
        intro f hf
        rw [mem_indexed] at hf
        exact hf.2
      have hothers : ∀ f ∈ named (·.1) fields, isIndex f.1 = false := by
        intro f hf
        rw [mem_named] at hf
        exact hf.2
      obtain ⟨low, high, hsplit, hinsert, hsorted⟩ :=
        insertNew_index field.2 hindex hindices hothers (indexed_sorted Prod.fst fields)
      have hperm : (low ++ field :: high).Perm
          ((fields ++ [field]).filter fun f => isIndex f.1) := by
        have hlast : [field].filter (fun f => isIndex f.1) = [field] := by simp [hindex]
        rw [List.filter_append, hlast]
        refine List.perm_middle.trans (.trans ?_ (List.perm_append_singleton _ _).symm)
        rw [← hsplit]
        exact (indexed_perm Prod.fst fields).cons field
      rw [inKeyOrder, inKeyOrder, hnames, ← eq_indexed hd hperm hsorted]
      exact hinsert

/-- An object has its fields in the order of their keys. -/
theorem ofList_eq_inKeyOrder (hd : (fields.map (·.1)).Nodup) :
    ofList fields = inKeyOrder (·.1) fields := by
  induction fields using List.reverseRecOn with
  | nil =>
      rw [inKeyOrder_eq_self nofun]
      rfl
  | append_singleton fields field ih =>
      have hbefore : (fields.map (·.1)).Nodup := by
        rw [List.map_append] at hd
        exact (List.nodup_append.mp hd).1
      rw [← set_inKeyOrder hd, ← ih hbefore, ofList, ofList, List.foldl_append]
      rfl

end Fields

end ScriptPack
