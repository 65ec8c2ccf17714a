import SchemaMigration.Json.Reader
import SchemaMigration.Proofs.UniqueReading

/-!
# Reading JSON back

A value is read back from what it is written as (`ReadsBack`): a natural number, a text with any characters, and arrays
and objects of such values. It is read as far as it goes, whatever follows, but for a character that a number could go
on with (`isNumberChar`): inside of an array or an object, a comma or a closing bracket follows. Each level of nesting
costs two calls and two brackets, so the fuel for a document covers all of it (`ReadsBack.parse?_render`).
-/

namespace SchemaMigration.Json

open Text (isDigit leaves natText)

/-! ## Strings -/

section Escapes

variable {a b c d : Char} {m : Nat}

theorem readString_malformed (h : unitValue? a b c d = none) (r : List Char) :
    readString ('\\' :: 'u' :: a :: b :: c :: d :: r) = none := by
  by_cases hr : ∃ e f g i s, r = '\\' :: 'u' :: e :: f :: g :: i :: s
  · obtain ⟨e, f, g, i, s, rfl⟩ := hr
    rw [readString, h]
  · rw [readString, h]
    exact fun e f g i s hs => hr ⟨e, f, g, i, s, hs⟩

/-- An escape of a code unit that is no surrogate is one character, whatever follows. -/
theorem readString_unit (h : unitValue? a b c d = some m) (hm : m < 0xD800) (r : List Char) :
    readString ('\\' :: 'u' :: a :: b :: c :: d :: r) = consChar (Char.ofNat m) (readString r) := by
  have hhigh : isHighSurrogate m = false := by simp [isHighSurrogate]; omega
  have hlow : isLowSurrogate m = false := by simp [isLowSurrogate]; omega
  by_cases hr : ∃ e f g i s, r = '\\' :: 'u' :: e :: f :: g :: i :: s
  · obtain ⟨e, f, g, i, s, rfl⟩ := hr
    rw [readString, h]
    cases hn : unitValue? e f g i with
    | some n => simp [hhigh, hlow]
    | none => simp [readString_malformed hn, consChar]
  · rw [readString, h]
    · simp [hhigh, hlow]
    · exact fun e f g i s hs => hr ⟨e, f, g, i, s, hs⟩

theorem readString_simple (h : simpleEscape? c = some d) (r : List Char) :
    readString ('\\' :: c :: r) = consChar d (readString r) := by
  have hu : c ≠ 'u' := by
    rintro rfl
    cases h
  rw [readString, h]
  · exact fun _ _ _ _ _ _ _ _ _ hc => absurd hc hu
  · exact fun _ _ _ _ _ hc => absurd hc hu

end Escapes

theorem unitValue?_hexDigit : ∀ n < 32, unitValue? '0' '0' (hexDigit (n / 16)) (hexDigit (n % 16)) = some n := by
  decide

theorem eq_of_toNat_eq {c : Char} {n : Nat} (h : c.toNat = n) : Char.ofNat n = c := by
  rw [← h, Char.ofNat_toNat]

/-- However a character is written, it is read as that character. -/
theorem readString_escapeChar (c : Char) (r : List Char) :
    readString (escapeChar c ++ r) = consChar c (readString r) := by
  unfold escapeChar
  split_ifs with hquote hbackslash hnewline hreturn htab hbackspace hfeed hcontrol
  · obtain rfl := beq_iff_eq.1 hquote
    exact readString_simple (by decide) r
  · obtain rfl := beq_iff_eq.1 hbackslash
    exact readString_simple (by decide) r
  · obtain rfl := beq_iff_eq.1 hnewline
    exact readString_simple (by decide) r
  · obtain rfl := beq_iff_eq.1 hreturn
    exact readString_simple (by decide) r
  · obtain rfl := beq_iff_eq.1 htab
    exact readString_simple (by decide) r
  · rw [← eq_of_toNat_eq (beq_iff_eq.1 hbackspace)]
    exact readString_simple (by decide) r
  · rw [← eq_of_toNat_eq (beq_iff_eq.1 hfeed)]
    exact readString_simple (by decide) r
  · have hunit := readString_unit (unitValue?_hexDigit c.toNat hcontrol) (by omega) r
    rwa [Char.ofNat_toNat] at hunit
  · rw [beq_iff_eq] at hquote hbackslash
    rw [List.singleton_append, readString]
    · simp [hbackslash, hcontrol]
    · exact hquote
    all_goals exact fun _ _ _ => by simp_all

theorem readString_flatMap (s r : List Char) : readString (s.flatMap escapeChar ++ '"' :: r) = some (some s, r) := by
  induction s with
  | nil => simp [readString]
  | cons c s ih =>
    rw [List.flatMap_cons, List.append_assoc, readString_escapeChar, ih]
    rfl

theorem readString_quote (s : String) (r : List Char) :
    (readString (s.toList.flatMap escapeChar ++ '"' :: r)).map (fun (content, r) =>
      (Json.string (content.map String.ofList), r)) = some (ofText s, r) := by
  simp [readString_flatMap, ofText]

/-! ## Numbers -/

/-- A character that a number can go on with. -/
def isNumberChar (c : Char) : Bool :=
  isDigit c || c == '.' || c == 'e' || c == 'E'

section Numbers

variable {n : Nat} {r : List Char}

theorem leaves_isDigit (hr : leaves isNumberChar r) : leaves isDigit r := by
  cases r <;> simp_all [isNumberChar]

theorem readDigits_append {ds : List Char} (hds : ∀ c ∈ ds, isDigit c) (hne : ds ≠ []) (hr : leaves isDigit r) :
    readDigits (ds ++ r) = some (ds, r) := by
  have htake : (ds ++ r).takeWhile isDigit = ds := by
    rw [List.takeWhile_append_of_pos hds, Text.takeWhile_of_leaves hr, List.append_nil]
  have hdrop : (ds ++ r).dropWhile isDigit = r := by
    rw [List.dropWhile_append_of_pos hds]
    cases r <;> simp_all
  rw [readDigits, htake, hdrop, if_neg (by simpa using hne)]

/-- The digits of a number do not start with zero, unless it is zero. -/
theorem exists_natText_eq_cons_of_ne_zero (hn : n ≠ 0) : ∃ c t, natText n = c :: t ∧ isDigit c ∧ c ≠ '0' := by
  induction n using Nat.strongRecOn with
  | ind n ih =>
    by_cases hsmall : n < 10
    · have hdigit : ∀ k < 10, k ≠ 0 → isDigit k.digitChar ∧ k.digitChar ≠ '0' := by decide
      exact ⟨n.digitChar, [], Nat.toDigits_of_lt_base hsmall, hdigit n hsmall hn⟩
    · obtain ⟨c, t, htext, hc⟩ := ih (n / 10) (by omega) (by omega)
      refine ⟨c, t ++ [(n % 10).digitChar], ?_, hc⟩
      rw [natText, Nat.toDigits_of_base_le (by decide) (by omega), ← natText, htext, List.cons_append]

theorem readWhole_natText (n : Nat) (hr : leaves isDigit r) : readWhole (natText n ++ r) = some (natText n, r) := by
  by_cases hn : n = 0
  · subst hn
    rfl
  · obtain ⟨c, t, htext, -, hc⟩ := exists_natText_eq_cons_of_ne_zero hn
    have hdigits : ∀ d ∈ c :: t, isDigit d := fun d hd => Number.isDigit_of_mem_natText (htext ▸ hd)
    rw [htext, readWhole]
    · exact readDigits_append hdigits (List.cons_ne_nil _ _) hr
    · simpa using hc

theorem readFraction_of_leaves (hr : leaves isNumberChar r) : readFraction r = some ([], r) := by
  cases r with
  | nil => rfl
  | cons c r =>
    rw [readFraction]
    intro r' hc
    cases hc
    cases hr

theorem readExponent_of_leaves (hr : leaves isNumberChar r) : readExponent r = some ([], r) := by
  cases r with
  | nil => rfl
  | cons c r =>
    have hc : ¬ (c == 'e' || c == 'E') = true := by
      intro hc
      simp_all [isNumberChar]
    simp only [readExponent, if_neg hc]

theorem readNumber_natText (n : Nat) (hr : leaves isNumberChar r) :
    readNumber (natText n ++ r) = some (natText n, r) := by
  have hsign : ∀ s, natText n ++ r ≠ '-' :: s := by
    intro s hs
    obtain ⟨c, t, htext, hc⟩ := Text.exists_natText_eq_cons n
    rw [htext] at hs
    cases hs
    cases hc
  have hwhole := readWhole_natText n (leaves_isDigit hr)
  unfold readNumber
  split
  next sign s hs =>
    split at hs
    · next t ht => exact absurd ht (hsign t)
    · cases hs
      simp [hwhole, readFraction_of_leaves hr, readExponent_of_leaves hr]

theorem isSpace_eq_false_of_isDigit {c : Char} (h : isDigit c) : isSpace c = false := by
  cases hs : isSpace c with
  | false => rfl
  | true =>
    simp only [isSpace, Bool.or_eq_true, beq_iff_eq] at hs
    rcases hs with ((rfl | rfl) | rfl) | rfl <;> cases h

/-- What starts with a digit is a number. -/
theorem readValue_of_isDigit {c : Char} (hc : isDigit c) (fuel : Nat) (s : List Char) :
    readValue (fuel + 1) (c :: s) =
      (readNumber (c :: s)).map fun (literal, r) => (.number (String.ofList literal), r) := by
  have hspace : skipSpace (c :: s) = c :: s :=
    List.dropWhile_cons_of_neg (by simp [isSpace_eq_false_of_isDigit hc])
  rw [readValue, hspace]
  split
  case h_7 => rfl
  all_goals next h => cases h; cases hc

theorem readValue_natText (fuel n : Nat) (hr : leaves isNumberChar r) :
    readValue (fuel + 1) (natText n ++ r) = some (ofNat n, r) := by
  have hnumber := readNumber_natText n hr
  obtain ⟨c, t, htext, hc⟩ := Text.exists_natText_eq_cons n
  rw [htext, List.cons_append] at hnumber
  rw [htext, List.cons_append, readValue_of_isDigit hc, hnumber, ofNat, htext]
  rfl

end Numbers

/-! ## Values -/

/-- The value is read from its text, whatever follows, with fuel for every character. -/
structure ReadsBack (v : Json) : Prop where
  starts : ∃ c s, render v = c :: s ∧ isSpace c = false ∧ c ≠ ']'
  reads : ∀ fuel r, leaves isNumberChar r → 2 * (render v).length ≤ fuel → readValue fuel (render v ++ r) = some (v, r)

namespace ReadsBack

variable {v : Json}

/-- A literal without parts. -/
theorem of_literal {c : Char} {s : List Char} (hrender : render v = c :: s) (hspace : isSpace c = false) (hc : c ≠ ']')
    (hreads : ∀ fuel r, leaves isNumberChar r → readValue (fuel + 1) (c :: s ++ r) = some (v, r)) : ReadsBack v where
  starts := ⟨c, s, hrender, hspace, hc⟩
  reads fuel r hr hfuel := by
    rw [hrender, List.length_cons] at hfuel
    obtain ⟨fuel, rfl⟩ : ∃ n, fuel = n + 1 := ⟨fuel - 1, by omega⟩
    rw [hrender]
    exact hreads fuel r hr

theorem null : ReadsBack null :=
  of_literal rfl rfl (by decide) fun _ _ _ => rfl

theorem bool (b : Bool) : ReadsBack (.bool b) := by
  cases b with
  | true => exact of_literal rfl rfl (by decide) fun _ _ _ => rfl
  | false => exact of_literal rfl rfl (by decide) fun _ _ _ => rfl

theorem ofNat (n : Nat) : ReadsBack (ofNat n) := by
  obtain ⟨c, s, htext, hc⟩ := Text.exists_natText_eq_cons n
  have hrender : render (Json.ofNat n) = c :: s := by rw [← htext]; exact String.toList_ofList
  refine of_literal hrender (isSpace_eq_false_of_isDigit hc) ?_ fun fuel r hr => ?_
  · rintro rfl
    cases hc
  · rw [← htext]
    exact readValue_natText fuel n hr

theorem ofText (s : String) : ReadsBack (ofText s) := by
  refine of_literal rfl rfl (by decide) fun fuel r _ => ?_
  rw [List.cons_append, List.append_assoc, List.singleton_append]
  exact readString_quote s r

end ReadsBack

/-! ## Arrays and objects -/

theorem renderItems_singleton (v : Json) : renderItems [v] = render v ++ [']'] := rfl

theorem renderItems_cons_cons (v w : Json) (vs : List Json) :
    renderItems (v :: w :: vs) = render v ++ ',' :: renderItems (w :: vs) := by
  rw [renderItems]
  exact List.cons_ne_nil _ _

theorem exists_renderItems_eq_cons {v : Json} (h : ReadsBack v) (vs : List Json) :
    ∃ c s, renderItems (v :: vs) = c :: s ∧ isSpace c = false ∧ c ≠ ']' := by
  obtain ⟨c, s, hrender, hc⟩ := h.starts
  cases vs with
  | nil => exact ⟨c, s ++ [']'], by rw [renderItems_singleton, hrender, List.cons_append], hc⟩
  | cons w vs =>
    refine ⟨c, s ++ ',' :: renderItems (w :: vs), ?_, hc⟩
    rw [renderItems_cons_cons, hrender, List.cons_append]

/-- The items of an array are read from their text. -/
theorem readItems_renderItems {vs : List Json} (h : ∀ v ∈ vs, ReadsBack v) (hne : vs ≠ []) {fuel : Nat} (r : List Char)
    (hfuel : 2 * (renderItems vs).length ≤ fuel) : readItems fuel (renderItems vs ++ r) = some (vs, r) := by
  induction vs generalizing fuel with
  | nil => exact absurd rfl hne
  | cons v vs ih =>
    obtain ⟨hv, hvs⟩ := List.forall_mem_cons.1 h
    cases vs with
    | nil =>
      rw [renderItems_singleton, List.length_append, List.length_singleton] at hfuel
      obtain ⟨fuel, rfl⟩ : ∃ n, fuel = n + 1 := ⟨fuel - 1, by omega⟩
      have hread := hv.reads fuel (']' :: r) rfl (by omega)
      rw [renderItems_singleton, List.append_assoc, List.singleton_append, readItems, hread]
      rfl
    | cons w vs =>
      simp only [renderItems_cons_cons, List.length_append, List.length_cons] at hfuel
      obtain ⟨fuel, rfl⟩ : ∃ n, fuel = n + 1 := ⟨fuel - 1, by omega⟩
      have hread := hv.reads fuel (',' :: (renderItems (w :: vs) ++ r)) rfl (by omega)
      have hrest : readItems fuel (renderItems (w :: vs) ++ r) = some (w :: vs, r) :=
        ih hvs (List.cons_ne_nil _ _) (by omega)
      rw [renderItems_cons_cons, List.append_assoc, List.cons_append, readItems, hread]
      show (readItems fuel (renderItems (w :: vs) ++ r)).bind _ = _
      rw [hrest]
      rfl

theorem renderMembers_singleton (name : Option String) (v : Json) :
    renderMembers [(name, v)] = quoteText name ++ ':' :: (render v ++ ['}']) := rfl

theorem renderMembers_cons_cons (name : Option String) (v : Json) (m : Option String × Json)
    (ms : List (Option String × Json)) :
    renderMembers ((name, v) :: m :: ms) = quoteText name ++ ':' :: (render v ++ ',' :: renderMembers (m :: ms)) := by
  rw [renderMembers]
  exact List.cons_ne_nil _ _

/-- The name of a member is read from its text, and what follows as its value. -/
theorem readMembers_quoteText (fuel : Nat) (name : String) (s : List Char) :
    readMembers (fuel + 1) (quoteText (some name) ++ ':' :: s) =
      (readValue fuel s).bind fun (v, r) =>
        match skipSpace r with
        | ',' :: r => (readMembers fuel r).bind fun (ms, r) => some ((some name, v) :: ms, r)
        | '}' :: r => some ([(some name, v)], r)
        | _ => none := by
  have hname := readString_flatMap name.toList (':' :: s)
  have hquote : quoteText (some name) ++ ':' :: s = '"' :: (name.toList.flatMap escapeChar ++ '"' :: ':' :: s) := by
    show '"' :: (name.toList.flatMap escapeChar ++ ['"'] ++ ':' :: s) = _
    rw [List.append_assoc, List.singleton_append]
  have hback : (some name.toList).map String.ofList = some name := by simp
  rw [hquote, readMembers]
  show (readString (name.toList.flatMap escapeChar ++ '"' :: ':' :: s)).bind _ = _
  rw [hname, ← hback]
  rfl

/-- The members of an object are read from their text. -/
theorem readMembers_renderMembers {ms : List (Option String × Json)} (hnames : ∀ m ∈ ms, m.1.isSome)
    (h : ∀ m ∈ ms, ReadsBack m.2) (hne : ms ≠ []) {fuel : Nat} (r : List Char)
    (hfuel : 2 * (renderMembers ms).length ≤ fuel) : readMembers fuel (renderMembers ms ++ r) = some (ms, r) := by
  induction ms generalizing fuel with
  | nil => exact absurd rfl hne
  | cons m ms ih =>
    obtain ⟨name, v⟩ := m
    obtain ⟨hname, hothers⟩ := List.forall_mem_cons.1 hnames
    obtain ⟨name, rfl⟩ := Option.isSome_iff_exists.1 hname
    obtain ⟨hv, hvs⟩ : ReadsBack v ∧ ∀ m ∈ ms, ReadsBack m.2 := List.forall_mem_cons.1 h
    cases ms with
    | nil =>
      simp only [renderMembers_singleton, List.length_append, List.length_cons, List.length_nil] at hfuel
      obtain ⟨fuel, rfl⟩ : ∃ n, fuel = n + 1 := ⟨fuel - 1, by omega⟩
      have hread := hv.reads fuel ('}' :: r) rfl (by omega)
      rw [renderMembers_singleton, List.append_assoc, List.cons_append, List.append_assoc, List.singleton_append,
        readMembers_quoteText, hread]
      rfl
    | cons m ms =>
      simp only [renderMembers_cons_cons, List.length_append, List.length_cons] at hfuel
      obtain ⟨fuel, rfl⟩ : ∃ n, fuel = n + 1 := ⟨fuel - 1, by omega⟩
      have hread := hv.reads fuel (',' :: (renderMembers (m :: ms) ++ r)) rfl (by omega)
      have hrest : readMembers fuel (renderMembers (m :: ms) ++ r) = some (m :: ms, r) :=
        ih hothers hvs (List.cons_ne_nil _ _) (by omega)
      rw [renderMembers_cons_cons, List.append_assoc, List.cons_append, List.append_assoc, List.cons_append,
        readMembers_quoteText, hread]
      show (readMembers fuel (renderMembers (m :: ms) ++ r)).bind _ = _
      rw [hrest]
      rfl

theorem exists_renderMembers_eq_cons {m : Option String × Json} {ms : List (Option String × Json)}
    (hnames : ∀ n ∈ m :: ms, n.1.isSome) (r : List Char) : ∃ s, renderMembers (m :: ms) ++ r = '"' :: s := by
  obtain ⟨name, v⟩ := m
  obtain ⟨name, rfl⟩ := Option.isSome_iff_exists.1 (hnames (name, v) List.mem_cons_self)
  cases ms with
  | nil => exact ⟨_, rfl⟩
  | cons m ms => exact ⟨_, by rw [renderMembers_cons_cons]; rfl⟩

/-- An array with items. -/
theorem readValue_bracket {c : Char} {s : List Char} (hspace : isSpace c = false) (hc : c ≠ ']') (fuel : Nat) :
    readValue (fuel + 1) ('[' :: c :: s) = (readItems fuel (c :: s)).map fun p => (.array p.1, p.2) := by
  have hopen : skipSpace ('[' :: c :: s) = '[' :: c :: s := rfl
  have hskip : skipSpace (c :: s) = c :: s := List.dropWhile_cons_of_neg (by simp [hspace])
  simp [readValue, hopen, hskip, hc]

/-- An object with members. -/
theorem readValue_brace {s : List Char} (fuel : Nat) :
    readValue (fuel + 1) ('{' :: '"' :: s) = (readMembers fuel ('"' :: s)).map fun p => (.object p.1, p.2) := rfl

namespace ReadsBack

theorem array {items : List Json} (h : ∀ v ∈ items, ReadsBack v) : ReadsBack (array items) where
  starts := ⟨'[', renderItems items, rfl, rfl, by decide⟩
  reads fuel r _ hfuel := by
    have hlength : (render (.array items)).length = (renderItems items).length + 1 := rfl
    rw [hlength] at hfuel
    obtain ⟨fuel, rfl⟩ : ∃ n, fuel = n + 1 := ⟨fuel - 1, by omega⟩
    cases items with
    | nil => rfl
    | cons v vs =>
      obtain ⟨c, s, hitems, hspace, hc⟩ := exists_renderItems_eq_cons (h v List.mem_cons_self) vs
      have hread : readItems fuel (renderItems (v :: vs) ++ r) = some (v :: vs, r) :=
        readItems_renderItems h (List.cons_ne_nil _ _) r (by omega)
      rw [hitems, List.cons_append] at hread
      have hrender : render (.array (v :: vs)) = '[' :: c :: s := congrArg ('[' :: ·) hitems
      rw [hrender, List.cons_append, List.cons_append, readValue_bracket hspace hc, hread]
      rfl

theorem object {members : List (Option String × Json)} (hnames : ∀ m ∈ members, m.1.isSome)
    (h : ∀ m ∈ members, ReadsBack m.2) : ReadsBack (object members) where
  starts := ⟨'{', renderMembers members, rfl, rfl, by decide⟩
  reads fuel r _ hfuel := by
    have hlength : (render (.object members)).length = (renderMembers members).length + 1 := rfl
    rw [hlength] at hfuel
    obtain ⟨fuel, rfl⟩ : ∃ n, fuel = n + 1 := ⟨fuel - 1, by omega⟩
    cases members with
    | nil => rfl
    | cons m ms =>
      have hread : readMembers fuel (renderMembers (m :: ms) ++ r) = some (m :: ms, r) :=
        readMembers_renderMembers hnames h (List.cons_ne_nil _ _) r (by omega)
      obtain ⟨s, hmembers⟩ := exists_renderMembers_eq_cons hnames r
      rw [hmembers] at hread
      have hrender : render (.object (m :: ms)) ++ r = '{' :: '"' :: s := congrArg ('{' :: ·) hmembers
      rw [hrender, readValue_brace, hread]
      rfl

theorem ofList {α : Type} {f : α → Json} (h : ∀ x, ReadsBack (f x)) (xs : List α) : ReadsBack (ofList f xs) := by
  refine array fun v hv => ?_
  obtain ⟨x, -, rfl⟩ := List.mem_map.1 hv
  exact h x

theorem ofMembers {members : List (String × Option Json)} (h : ∀ m ∈ members, ∀ v ∈ m.2, ReadsBack v) :
    ReadsBack (ofMembers members) := by
  have hmember : ∀ m ∈ members.filterMap fun entry => entry.2.map fun v => (some entry.1, v),
      m.1.isSome ∧ ReadsBack m.2 := by
    intro m hm
    obtain ⟨entry, hmem, hvalue⟩ := List.mem_filterMap.1 hm
    obtain ⟨v, hv, rfl⟩ := Option.map_eq_some_iff.1 hvalue
    exact ⟨rfl, h _ hmem v hv⟩
  exact object (fun m hm => (hmember m hm).1) fun m hm => (hmember m hm).2

/-- The value is what its document holds. -/
theorem parse?_render {v : Json} (h : ReadsBack v) : parse? (String.ofList (render v)) = some v := by
  have hread := h.reads (2 * (render v).length + 2) [] rfl (by omega)
  rw [List.append_nil] at hread
  rw [parse?, String.toList_ofList, hread]
  rfl

end ReadsBack

end SchemaMigration.Json
