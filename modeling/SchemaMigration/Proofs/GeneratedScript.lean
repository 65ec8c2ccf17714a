import SchemaMigration.Script.Document
import SchemaMigration.Proofs.MigrationTokens
import Mathlib.Data.List.Forall2

/-!
# Generated scripts

A migration file that the standard template writes loads back as the script it was written from: the same statements in
the same order, each as it was if it stands on one line, none with values. The text is read in three passes, and each of
them undoes what one layer of the text is for: the tokens are those of `migrationTokens`, if the statements are legible;
the nodes are built from the tokens by a reader with fuel, of which there is enough because every list spends tokens on
its entries; and the value of a node has no alias to follow and no key twice.
-/

namespace SchemaMigration

/-! ## Nodes -/

namespace Yaml.Node

/-- The reader takes the tokens up to `rest`, defines no anchor and gives `x`. -/
def Gives {α : Type} (r : Reader α) (ts : List Token) (x : α) (rest : List Token) : Prop :=
  ∀ anchors, r.run ⟨ts, anchors⟩ = some (x, ⟨rest, anchors⟩)

section

variable {α β : Type} {r : Reader α} {ts ts' rest rest' : List Token} {x : α} {y : β}

theorem Gives.bind {f : α → Reader β} (h : Gives r ts x rest) (h' : Gives (f x) rest y rest') :
    Gives (r >>= f) ts y rest' := by
  intro anchors
  have hrun : (r >>= f).run ⟨ts, anchors⟩ = (r.run ⟨ts, anchors⟩).bind fun p => (f p.1).run p.2 := rfl
  rw [hrun, h]
  exact h' anchors

theorem Gives.map (h : Gives r ts x rest) (f : α → β) : Gives (do return f (← r)) ts (f x) rest :=
  h.bind fun _ => rfl

/-- The reader goes on as another one. -/
theorem Gives.of_run_eq {r' : Reader α} (h' : Gives r' ts' x rest)
    (h : ∀ anchors, r.run ⟨ts, anchors⟩ = r'.run ⟨ts', anchors⟩) : Gives r ts x rest :=
  fun anchors => (h anchors).trans (h' anchors)

end

variable {handles : List (List Char × List Char)} {fuel : Nat} {ts rest rest' : List Token}

theorem gives_scalar (block indentless : Bool) (text : List Char) (style : ScalarStyle) :
    Gives (read handles fuel.succ block indentless) (.scalar text style :: ts) (.scalar {} text style) ts :=
  fun _ => rfl

theorem gives_brackets (block indentless : Bool) :
    Gives (read handles fuel.succ.succ block indentless) (.flowSequenceStart :: .flowSequenceEnd :: ts)
      (.sequence {} []) ts :=
  fun _ => rfl

theorem gives_sequence {items : List Node} (h : Gives (readBlockItems handles fuel) ts items rest) (indentless : Bool) :
    Gives (read handles fuel.succ true indentless) (.blockSequenceStart :: ts) (.sequence {} items) rest :=
  (h.map (Node.sequence {})).of_run_eq fun _ => rfl

theorem gives_mapping {entries : List (Node × Node)} (h : Gives (readBlockEntries handles fuel) ts entries rest)
    (indentless : Bool) :
    Gives (read handles fuel.succ true indentless) (.blockMappingStart :: ts) (.mapping {} entries) rest :=
  (h.map (Node.mapping {})).of_run_eq fun _ => rfl

theorem gives_noItems : Gives (readBlockItems handles fuel.succ) (.blockEnd :: ts) [] ts :=
  fun _ => rfl

theorem gives_noEntries : Gives (readBlockEntries handles fuel.succ) (.blockEnd :: ts) [] ts :=
  fun _ => rfl

/-- A mapping as an item. -/
theorem gives_item {item : Node} {items : List Node}
    (h : Gives (read handles fuel true false) (.blockMappingStart :: ts) item rest)
    (hitems : Gives (readBlockItems handles fuel) rest items rest') :
    Gives (readBlockItems handles fuel.succ) (.blockEntry :: .blockMappingStart :: ts) (item :: items) rest' := by
  let more (item : Node) : Reader (List Node) := do
    return item :: (← readBlockItems handles fuel)
  have hitem : Gives (read handles fuel true false >>= more) (.blockMappingStart :: ts) (item :: items) rest' :=
    h.bind (hitems.map (item :: ·))
  exact hitem.of_run_eq fun _ => rfl

/-- An entry with a value that is written out. -/
theorem gives_entry {key : List Char} {style : ScalarStyle} {value : Node} {entries : List (Node × Node)}
    (hts : ts.head?.any [Token.key, .value, .blockEnd].contains = false)
    (h : Gives (read handles fuel.succ true true) ts value rest)
    (hentries : Gives (readBlockEntries handles fuel.succ) rest entries rest') :
    Gives (readBlockEntries handles fuel.succ.succ) (.key :: .scalar key style :: .value :: ts)
      ((.scalar {} key style, value) :: entries) rest' := by
  let more (value : Node) : Reader (List (Node × Node)) := do
    return (.scalar {} key style, value) :: (← readBlockEntries handles fuel.succ)
  have hread : ∀ anchors,
      (readBlockEntries handles fuel.succ.succ).run ⟨.key :: .scalar key style :: .value :: ts, anchors⟩ =
        (if ts.head?.any [Token.key, .value, .blockEnd].contains then pure empty >>= more
          else read handles fuel.succ true true >>= more).run ⟨ts, anchors⟩ := fun _ => rfl
  simp only [hts, Bool.false_eq_true, if_false] at hread
  exact (h.bind (hentries.map ((.scalar {} key style, value) :: ·))).of_run_eq hread

/-- A document that is a block mapping. -/
theorem ofTokens?_eq {node : Node}
    (h : Gives (read standardHandles (4 * (Token.blockMappingStart :: ts).length + 4) true false)
      (.blockMappingStart :: ts) node [.streamEnd]) :
    ofTokens? (.blockMappingStart :: ts) = some (some node) := by
  have hof : ofTokens? (.blockMappingStart :: ts) =
      ((read standardHandles (4 * (Token.blockMappingStart :: ts).length + 4) true false).run
        ⟨.blockMappingStart :: ts, []⟩).bind fun p =>
          if p.2.tokens.dropWhile (· == .documentEnd) == [.streamEnd] then some (some p.1) else none := rfl
  rw [hof, h]
  rfl

end Yaml.Node

/-! ## The tree of a migration file -/

namespace Template

open Yaml.Node (Gives readBlockItems readBlockEntries gives_scalar gives_brackets gives_sequence gives_mapping
  gives_noItems gives_noEntries gives_item gives_entry)

/-- The node of an entry. -/
def entryNode (statement : String) : Yaml.Node :=
  .mapping {} [(.scalar {} ['r', 'u', 'n'] .plain, .scalar {} statement.toList .quoted)]

/-- The node of a list. -/
def listNode (statements : List String) : Yaml.Node :=
  .sequence {} (statements.map entryNode)

/-- The node of the whole file. -/
def migrationNode (query : Reversible String) : Yaml.Node :=
  .mapping {} [(.scalar {} ['u', 'p'] .plain, listNode query.up),
    (.scalar {} ['d', 'o', 'w', 'n'] .plain, listNode query.down)]

variable {handles : List (List Char × List Char)} {rest : List Yaml.Token}

theorem gives_entryNode (statement : String) (fuel : Nat) :
    Gives (Yaml.Node.read handles (fuel + 4) true false) ((entryTokens statement).tail ++ rest) (entryNode statement)
      rest :=
  gives_mapping (gives_entry rfl (gives_scalar _ _ _ _) gives_noEntries) false

theorem gives_entries (statements : List String) {fuel : Nat} (hfuel : statements.length + 5 ≤ fuel) :
    Gives (readBlockItems handles fuel) (statements.flatMap entryTokens ++ .blockEnd :: rest)
      (statements.map entryNode) rest := by
  induction statements generalizing fuel with
  | nil =>
    obtain ⟨fuel, rfl⟩ := Nat.exists_eq_add_of_le' hfuel
    exact gives_noItems
  | cons statement statements ih =>
    rw [List.length_cons] at hfuel
    obtain ⟨fuel, rfl⟩ := Nat.exists_eq_add_of_le' (Nat.le_trans (Nat.le_add_left 6 statements.length) (by omega))
    rw [List.flatMap_cons, List.append_assoc]
    exact gives_item (gives_entryNode statement (fuel + 1)) (ih (by omega))

theorem gives_list (statements : List String) {fuel : Nat} (hfuel : statements.length + 6 ≤ fuel) :
    Gives (Yaml.Node.read handles fuel true true) (listTokens statements ++ rest) (listNode statements) rest := by
  obtain ⟨fuel, rfl⟩ := Nat.exists_eq_add_of_le' (Nat.le_trans (Nat.le_add_left 6 statements.length) hfuel)
  cases statements with
  | nil => exact gives_brackets true true
  | cons statement statements =>
    have hentries : Gives (readBlockItems handles (fuel + 5)) _ _ rest :=
      gives_entries (statement :: statements) (by omega)
    have hlist := gives_sequence hentries true
    simpa [listTokens, listNode] using hlist

theorem head?_listTokens (statements : List String) :
    (listTokens statements ++ rest).head?.any [Yaml.Token.key, .value, .blockEnd].contains = false := by
  cases statements <;> rfl

theorem migrationTokens_eq (query : Reversible String) : migrationTokens query =
    .blockMappingStart :: .key :: .scalar ['u', 'p'] .plain :: .value :: (listTokens query.up ++
      .key :: .scalar ['d', 'o', 'w', 'n'] .plain :: .value :: (listTokens query.down ++ [.blockEnd, .streamEnd])) := by
  simp [migrationTokens]

theorem gives_migrationNode (query : Reversible String) {fuel : Nat}
    (hfuel : query.up.length + query.down.length + 9 ≤ fuel) :
    Gives (Yaml.Node.read handles fuel true false) (migrationTokens query) (migrationNode query) [.streamEnd] := by
  obtain ⟨fuel, rfl⟩ := Nat.exists_eq_add_of_le' (Nat.le_trans (Nat.le_add_left 9 _) hfuel)
  have hdown : Gives (readBlockEntries handles (fuel + 7)) (.key :: .scalar ['d', 'o', 'w', 'n'] .plain :: .value :: _)
      _ [.streamEnd] :=
    gives_entry (head?_listTokens query.down) (gives_list query.down (by omega)) gives_noEntries
  have hup : Gives (readBlockEntries handles (fuel + 8)) (.key :: .scalar ['u', 'p'] .plain :: .value :: _) _
      [.streamEnd] :=
    gives_entry (head?_listTokens query.up) (gives_list query.up (by omega)) hdown
  rw [migrationTokens_eq]
  exact gives_mapping hup false

theorem length_le_length_listTokens (statements : List String) :
    statements.length ≤ (listTokens statements).length := by
  have hentries : statements.length ≤ (statements.flatMap entryTokens).length := by
    induction statements with
    | nil => exact Nat.le_refl 0
    | cons statement statements ih => simp [entryTokens, openEntryTokens]; omega
  unfold listTokens
  split
  · simp_all
  · simp only [List.length_cons, List.length_append, List.length_nil]
    omega

theorem ofTokens?_migrationTokens (query : Reversible String) :
    Yaml.Node.ofTokens? (migrationTokens query) = some (some (migrationNode query)) := by
  have hfuel : query.up.length + query.down.length + 9 ≤ 4 * (migrationTokens query).length + 4 := by
    have hup := length_le_length_listTokens query.up
    have hdown := length_le_length_listTokens query.down
    simp only [migrationTokens_eq, List.length_cons, List.length_append, List.length_nil]
    omega
  have hread : Gives (Yaml.Node.read Yaml.Node.standardHandles (4 * (migrationTokens query).length + 4) true false)
      _ _ _ := gives_migrationNode query hfuel
  rw [migrationTokens_eq] at hread ⊢
  exact Yaml.Node.ofTokens?_eq hread

end Template

/-! ## Values -/

namespace Yaml.Node

/-- The node stands for a value, whatever aliases are left to follow. -/
def Means (table : List (Nat × Node)) (fuel depth : Nat) (node : Node) (v : Value) : Prop :=
  ∀ left, (value table fuel depth node).run left = some (v, left)

theorem mapM_run {α β : Type} {f : α → StateT Nat Option β} {xs : List α} {ys : List β}
    (h : List.Forall₂ (fun x y => ∀ left, (f x).run left = some (y, left)) xs ys) (left : Nat) :
    (xs.mapM f).run left = some (ys, left) := by
  induction h with
  | nil => rfl
  | cons hx _ ih => simp [List.mapM_cons, hx, ih]

variable {table : List (Nat × Node)} {fuel depth : Nat}

theorem means_scalar {s : List Char} {style : ScalarStyle} {v : Value} (h : Value.ofScalar? {} s style = some v) :
    Means table fuel.succ depth (.scalar {} s style) v := by
  intro left
  rw [value, h]
  rfl

theorem means_sequence {items : List Node} {values : List Value}
    (h : List.Forall₂ (Means table fuel depth) items values) :
    Means table fuel.succ depth.succ (.sequence {} items) (.sequence values) := by
  intro left
  rw [value]
  simp [mapM_run h, withTag, Value.localTag?]

theorem means_mapping {entries : List (Node × Node)} {values : List (Value × Value)}
    (h : List.Forall₂ (fun e v => Means table fuel depth e.1 v.1 ∧ Means table fuel depth e.2 v.2) entries values)
    (hdistinct : distinctEntries values = some values) :
    Means table fuel.succ depth.succ (.mapping {} entries) (.mapping values) := by
  intro left
  have hentries : ∀ (e : Node × Node) (v : Value × Value),
      Means table fuel depth e.1 v.1 ∧ Means table fuel depth e.2 v.2 → ∀ left, (do
        let key ← value table fuel depth e.1
        Prod.mk key <$> value table fuel depth e.2).run left = some (v, left) := by
    rintro e v ⟨hkey, hvalue⟩ left
    have hkey : ∀ left, StateT.run (value table fuel depth e.1) left = some (v.1, left) := hkey
    have hvalue : ∀ left, StateT.run (value table fuel depth e.2) left = some (v.2, left) := hvalue
    simp [hkey, hvalue]
  rw [value]
  simp [mapM_run (h.imp hentries), hdistinct, withTag, Value.localTag?]

end Yaml.Node

/-! ## The script of a migration file -/

namespace Template

open Yaml.Node (Means means_scalar means_sequence means_mapping)

/-- The value of an entry. -/
def entryValue (statement : String) : Yaml.Value :=
  .mapping [(.text "run", .text statement)]

/-- The value of a list. -/
def listValue (statements : List String) : Yaml.Value :=
  .sequence (statements.map entryValue)

/-- The value of the whole file. -/
def migrationValue (query : Reversible String) : Yaml.Value :=
  .mapping [(.text "up", listValue query.up), (.text "down", listValue query.down)]

variable {table : List (Nat × Yaml.Node)} {fuel depth : Nat}

theorem means_entry (statement : String) :
    Means table (fuel + 2) (depth + 1) (entryNode statement) (entryValue statement) := by
  have hkey : Yaml.Value.ofScalar? {} ['r', 'u', 'n'] .plain = some (.text "run") := rfl
  have hvalue : Yaml.Value.ofScalar? {} statement.toList .quoted = some (.text statement) :=
    congrArg (some ∘ Yaml.Value.text) String.ofList_toList
  have hdistinct : Yaml.Node.distinctEntries [(.text "run", .text statement)] = some [(.text "run", .text statement)] :=
    rfl
  exact means_mapping (.cons ⟨means_scalar hkey, means_scalar hvalue⟩ .nil) hdistinct

theorem means_list (statements : List String) :
    Means table (fuel + 3) (depth + 2) (listNode statements) (listValue statements) := by
  refine means_sequence ?_
  rw [List.forall₂_map_left_iff, List.forall₂_map_right_iff]
  exact List.forall₂_same.2 fun statement _ => means_entry statement

theorem means_migration (query : Reversible String) :
    Means table (fuel + 4) (depth + 3) (migrationNode query) (migrationValue query) := by
  have hup : Yaml.Value.ofScalar? {} ['u', 'p'] .plain = some (.text "up") := rfl
  have hdown : Yaml.Value.ofScalar? {} ['d', 'o', 'w', 'n'] .plain = some (.text "down") := rfl
  have hdistinct : Yaml.Node.distinctEntries [(.text "up", listValue query.up), (.text "down", listValue query.down)] =
      some [(.text "up", listValue query.up), (.text "down", listValue query.down)] := rfl
  exact means_mapping
    (.cons ⟨means_scalar hup, means_list query.up⟩ (.cons ⟨means_scalar hdown, means_list query.down⟩ .nil)) hdistinct

/-- A migration file has a value exactly if all its statements are legible. -/
theorem read?_migrationText_eq_ite {name : String} (hname : ∀ c ∈ name.toList, isCommentChar c)
    (query : Reversible String) :
    Yaml.read? (String.ofList (migrationText name query)) =
      if (query.up ++ query.down).all isLegible then some (migrationValue (query.map foldedText)) else none := by
  have hvalue : ∀ query table, Yaml.Node.Means table (2 * Yaml.Node.depthLimit + 3) Yaml.Node.depthLimit
      (migrationNode query) (migrationValue query) := fun query _ => means_migration query
  simp only [Yaml.read?, String.toList_ofList, scan?_migrationText hname]
  split
  · simp [ofTokens?_migrationTokens, hvalue _ _ _]
  · rfl

/-- Statements that stand on one line each are in the value as they are. -/
theorem read?_migrationText {name : String} {query : Reversible String} (hname : ∀ c ∈ name.toList, Yaml.isWordChar c)
    (hup : ∀ s ∈ query.up, ∀ c ∈ s.toList, Yaml.isScalarChar c)
    (hdown : ∀ s ∈ query.down, ∀ c ∈ s.toList, Yaml.isScalarChar c) :
    Yaml.read? (String.ofList (migrationText name query)) = some (migrationValue query) := by
  have hfolded : query.map foldedText = query := by
    have hlists : ∀ l : List String, (∀ s ∈ l, ∀ c ∈ s.toList, Yaml.isScalarChar c) → l.map foldedText = l :=
      fun l h => (List.map_congr_left fun s hs => foldedText_eq_self (h s hs)).trans (List.map_id' l)
    rw [Reversible.map, hlists _ hup, hlists _ hdown]
  have hlegible : (query.up ++ query.down).all isLegible := by
    rw [List.all_append, Bool.and_eq_true, List.all_eq_true, List.all_eq_true]
    exact ⟨fun s hs => isLegible_of_isScalarChar (hup s hs), fun s hs => isLegible_of_isScalarChar (hdown s hs)⟩
  rw [read?_migrationText_eq_ite (fun c hc => isCommentChar_of_isWordChar (hname c hc)), if_pos hlegible, hfolded]

end Template

namespace Script

open Template (entryValue listValue migrationValue)

theorem statements?_listValue (statements : List String) :
    statements? (some (listValue statements)) = some (statements.map fun sql => { sql }) := by
  have hentry : ∀ sql : String, statement? (entryValue sql) = some { sql } := fun _ => rfl
  have hlist : statements? (some (listValue statements)) = (statements.map entryValue).mapM statement? := rfl
  rw [hlist, List.mapM_map]
  exact List.mapM_pure

/-- A mapping with one of the keys is a script, if both of them have lists of statements or are not there. -/
theorem ofValue_mapping {entries : List (Yaml.Value × Yaml.Value)} {up down : Option Yaml.Value} {script : Script}
    (hkey : entries.any fun e => isKey "up" e.1 || isKey "down" e.1)
    (hfields : fields? ["up", "down"] entries = some [up, down]) (hup : statements? up = some script.up)
    (hdown : statements? down = some script.down) : ofValue (.mapping entries) = .ok script := by
  have huntagged : (Yaml.Value.mapping entries).untagged = .mapping entries := rfl
  simp only [ofValue, huntagged, hkey, if_true, hfields, Option.bind_eq_bind, Option.bind_some, hup, hdown]
  rfl

theorem ofValue_migrationValue (query : Reversible String) :
    ofValue (migrationValue query) =
      .ok { up := query.up.map fun sql => { sql }, down := query.down.map fun sql => { sql } } :=
  ofValue_mapping rfl rfl (statements?_listValue query.up) (statements?_listValue query.down)

/-- What a migration file loads as, and whether it loads at all. -/
theorem ofDocument_migrationText {name : String} (hname : ∀ c ∈ name.toList, Template.isCommentChar c)
    (query : Reversible String) :
    ofDocument (String.ofList (Template.migrationText name query)) =
      if (query.up ++ query.down).all Template.isLegible then
        .ok {
          up := query.up.map fun sql => { sql := Template.foldedText sql }
          down := query.down.map fun sql => { sql := Template.foldedText sql } }
      else .error .malformed := by
  rw [ofDocument, Template.read?_migrationText_eq_ite hname]
  by_cases hlegible : (query.up ++ query.down).all Template.isLegible = true
  · rw [if_pos hlegible, if_pos hlegible]
    refine (ofValue_migrationValue _).trans ?_
    simp [Reversible.map]
  · rw [if_neg hlegible, if_neg hlegible]

/-- A migration file is read back as it was written, also where a statement holds quotes, backslashes, line breaks, or
what would be a comment, a key or a document mark outside of quotes. -/
theorem generated_loads_back {name : String} {query : Reversible String}
    (hname : ∀ c ∈ name.toList, Yaml.isWordChar c)
    (hup : ∀ s ∈ query.up, ∀ c ∈ s.toList, Yaml.isScalarChar c)
    (hdown : ∀ s ∈ query.down, ∀ c ∈ s.toList, Yaml.isScalarChar c) :
    ∃ text, Template.renderMigration Template.standardSource name query = .ok text ∧
      ofDocument text = .ok { up := query.up.map fun sql => { sql }, down := query.down.map fun sql => { sql } } := by
  refine ⟨_, Template.renderMigration_standardSource name query, ?_⟩
  rw [ofDocument, Template.read?_migrationText hname hup hdown]
  exact ofValue_migrationValue query

theorem generated_loads_back_awkward :
    ∃ text, Template.renderMigration Template.standardSource "0001-add_users"
        { up := ["-- a: \"b\"\n---\r\n\t# c \\n", "", " é\u00a0🙂: "], down := [] } = .ok text ∧
      ofDocument text = .ok
        { up := [{ sql := "-- a: \"b\"\n---\r\n\t# c \\n" }, { sql := "" }, { sql := " é\u00a0🙂: " }], down := [] } :=
  have hname : "0001-add_users".toList.all Yaml.isWordChar := by decide
  have hup : ["-- a: \"b\"\n---\r\n\t# c \\n", "", " é\u00a0🙂: "].all (·.toList.all Yaml.isScalarChar) := by decide
  generated_loads_back (List.all_eq_true.1 hname)
    (fun s hs => List.all_eq_true.1 (List.all_eq_true.1 hup s hs)) (List.forall_mem_nil _)

end Script

end SchemaMigration
