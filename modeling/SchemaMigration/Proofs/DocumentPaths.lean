import SchemaMigration.Script.Document
import Mathlib.Data.List.Forall2

/-!
# Paths in documents

Where something stands in a document is a path of keys and indices from its root. What a node stands for can be followed
along the path that leads to the node (`Yaml.Node.Leads.exists_hasValue`), and a script binds what its value has at such
a place (`Script.boundAt?_of_leads`). So every scalar that is written as a bound value of a document decides what the
script binds there, or that there is no script (`Script.exists_boundAt?_of_ofDocument`, `Script.ofDocument_of_none`).
-/

namespace SchemaMigration

section

variable {α β : Type} {R : α → β → Prop} {xs : List α} {ys : List β} {x : α}

theorem exists_related_of_getElem? (h : List.Forall₂ R xs ys) {i : Nat} (hx : xs[i]? = some x) :
    ∃ y, ys[i]? = some y ∧ R x y := by
  induction h generalizing i with
  | nil => cases hx
  | @cons x' y xs ys hxy _ ih =>
    cases i with
    | zero =>
      obtain rfl : x' = x := Option.some.inj hx
      exact ⟨y, rfl, hxy⟩
    | succ i => exact ih hx

theorem exists_related_of_mem (h : List.Forall₂ R xs ys) (hx : x ∈ xs) : ∃ y ∈ ys, R x y := by
  obtain ⟨i, hi⟩ := List.mem_iff_getElem?.1 hx
  obtain ⟨y, hy, hxy⟩ := exists_related_of_getElem? h hi
  exact ⟨y, List.mem_of_getElem? hy, hxy⟩

theorem forall₂_of_mapM {f : α → Option β} (h : xs.mapM f = some ys) :
    List.Forall₂ (fun x y => f x = some y) xs ys := by
  induction xs generalizing ys with
  | nil =>
    cases h
    exact .nil
  | cons x xs ih =>
    rw [List.mapM_cons] at h
    obtain ⟨y, hy, h⟩ := Option.bind_eq_some_iff.1 h
    obtain ⟨ys, hys, h⟩ := Option.bind_eq_some_iff.1 h
    cases h
    exact .cons hy (ih hys)

end

namespace Yaml

/-- One step down from a collection. -/
inductive Step where
  | field (name : String)
  | item (i : Nat)

/-! ## Paths to nodes -/

namespace Node

/-- The node is a key that is read as this text, whatever tags it has. -/
def Names (key : Node) (name : String) : Prop :=
  ∃ properties text style value, key = .scalar properties text style ∧
    Value.ofScalar? properties text style = some value ∧ value.untagged = .text name

/-- The path leads from one node to the other. An alias stands for what it refers to. -/
inductive Leads (table : List (Nat × Node)) : Node → List Step → Node → Prop
  | here {n : Node} : Leads table n [] n
  | item {properties : Properties} {items : List Node} {i : Nat} {child target : Node} {path : List Step}
    (hchild : items[i]? = some child) (hrest : Leads table child path target) :
    Leads table (.sequence properties items) (.item i :: path) target
  | field {properties : Properties} {entries : List (Node × Node)} {key child target : Node} {name : String}
    {path : List Step} (hchild : (key, child) ∈ entries) (hkey : key.Names name)
    (hrest : Leads table child path target) : Leads table (.mapping properties entries) (.field name :: path) target
  | referred {id : Nat} {n target : Node} {path : List Step} (hn : table.reverse.lookup id = some n)
    (hrest : Leads table n path target) : Leads table (.alias id) path target

/-- The node stands for the value, with some room and some aliases left. -/
def HasValue (table : List (Nat × Node)) (n : Node) (v : Value) : Prop :=
  ∃ fuel depth left left', (value table fuel depth n).run left = some (v, left')

end Node

namespace Value

/-- No key of a mapping is there again. -/
def DistinctKeys (entries : List (Value × Value)) : Prop :=
  entries.Pairwise fun d e => ¬same d.1 e.1

/-- The path leads from one value to the other, whatever tags the collections on it have. -/
inductive Leads : Value → List Step → Value → Prop
  | here {v : Value} : Leads v [] v
  | item {v child target : Value} {items : List Value} {i : Nat} {path : List Step} (hv : v.untagged = .sequence items)
    (hchild : items[i]? = some child) (hrest : Leads child path target) : Leads v (.item i :: path) target
  | field {v key child target : Value} {entries : List (Value × Value)} {name : String} {path : List Step}
    (hv : v.untagged = .mapping entries) (hdistinct : DistinctKeys entries) (hchild : (key, child) ∈ entries)
    (hkey : key.untagged = .text name) (hrest : Leads child path target) :
    Leads v (.field name :: path) target

end Value

/-! ## Values of nodes -/

namespace Node

section

variable {α β σ : Type}

theorem exists_of_run_bind {x : StateT σ Option α} {f : α → StateT σ Option β} {b : β} {s s' : σ}
    (h : (x >>= f).run s = some (b, s')) : ∃ a s₁, x.run s = some (a, s₁) ∧ (f a).run s₁ = some (b, s') := by
  have hrun : (x >>= f).run s = (x.run s).bind fun p => (f p.1).run p.2 := rfl
  rw [hrun, Option.bind_eq_some_iff] at h
  obtain ⟨⟨a, s₁⟩, ha, hb⟩ := h
  exact ⟨a, s₁, ha, hb⟩

theorem forall₂_of_run_mapM {f : α → StateT σ Option β} {xs : List α} {ys : List β} {s s' : σ}
    (h : (xs.mapM f).run s = some (ys, s')) :
    List.Forall₂ (fun x y => ∃ t t', (f x).run t = some (y, t')) xs ys := by
  induction xs generalizing ys s with
  | nil =>
    cases h
    exact .nil
  | cons x xs ih =>
    rw [List.mapM_cons] at h
    obtain ⟨y, s₁, hy, h⟩ := exists_of_run_bind h
    obtain ⟨ys, s₂, hys, h⟩ := exists_of_run_bind h
    cases h
    exact .cons ⟨_, _, hy⟩ (ih hys)

end

variable {table : List (Nat × Node)} {v : Value}

/-- No key of the entries that are added is there among them again, or among those before. -/
theorem foldlM_addEntry_eq {entries done reversed : List (Value × Value)}
    (h : entries.foldlM addEntry done = some reversed) :
    reversed = entries.reverse ++ done ∧ (∀ d ∈ done, ∀ e ∈ entries, ¬Value.same d.1 e.1) ∧
      Value.DistinctKeys entries := by
  induction entries generalizing done with
  | nil =>
    cases h
    exact ⟨rfl, by simp, .nil⟩
  | cons e entries ih =>
    rw [List.foldlM_cons] at h
    obtain ⟨_, hadd, h⟩ := Option.bind_eq_some_iff.1 h
    rw [addEntry, Option.ite_none_left_eq_some] at hadd
    obtain ⟨hnew, hadd⟩ := hadd
    cases hadd
    obtain ⟨rfl, hlater, hdistinct⟩ := ih h
    refine ⟨by simp, fun d hd e' he' => ?_, .cons (hlater e List.mem_cons_self) hdistinct⟩
    rcases List.mem_cons.1 he' with rfl | he'
    · exact fun hsame => hnew (List.any_eq_true.2 ⟨d, hd, hsame⟩)
    · exact hlater d (List.mem_cons_of_mem _ hd) e' he'

theorem distinctEntries_eq {entries distinct : List (Value × Value)} (h : distinctEntries entries = some distinct) :
    distinct = entries ∧ Value.DistinctKeys entries := by
  obtain ⟨reversed, hreversed, rfl⟩ := Option.map_eq_some_iff.1 h
  obtain ⟨rfl, -, hdistinct⟩ := foldlM_addEntry_eq hreversed
  exact ⟨by simp, hdistinct⟩

theorem untagged_withTag (p : Properties) (v : Value) : (withTag p v).untagged = v.untagged := by
  unfold withTag
  split <;> rfl

/-- A node has a value with some fuel left for its parts. -/
theorem HasValue.exists_run {n : Node} (h : HasValue table n v) :
    ∃ fuel depth left left', (value table (fuel + 1) depth n).run left = some (v, left') := by
  obtain ⟨fuel, depth, left, left', hrun⟩ := h
  cases fuel with
  | zero => cases hrun
  | succ fuel => exact ⟨fuel, depth, left, left', hrun⟩

theorem HasValue.scalar {properties : Properties} {text : List Char} {style : ScalarStyle}
    (h : HasValue table (.scalar properties text style) v) : Value.ofScalar? properties text style = some v := by
  obtain ⟨fuel, depth, left, left', hrun⟩ := h.exists_run
  rw [value] at hrun
  obtain ⟨v', hv', hpair⟩ := Option.bind_eq_some_iff.1 hrun
  cases hpair
  exact hv'

theorem HasValue.referred {id : Nat} (h : HasValue table (.alias id) v) :
    ∃ n, table.reverse.lookup id = some n ∧ HasValue table n v := by
  obtain ⟨fuel, depth, left, left', hrun⟩ := h.exists_run
  rw [value] at hrun
  obtain ⟨count, _, -, hrun⟩ := exists_of_run_bind hrun
  cases htarget : table.reverse.lookup id with
  | none =>
    rw [htarget] at hrun
    dsimp only at hrun
    split at hrun
    · cases hrun
    · cases hrun
  | some target =>
    rw [htarget] at hrun
    dsimp only at hrun
    split at hrun
    · cases hrun
    · obtain ⟨_, _, -, hrun⟩ := exists_of_run_bind hrun
      exact ⟨target, rfl, _, _, _, _, hrun⟩

theorem HasValue.sequence {properties : Properties} {items : List Node}
    (h : HasValue table (.sequence properties items) v) :
    ∃ values, v.untagged = .sequence values ∧ List.Forall₂ (HasValue table) items values := by
  obtain ⟨fuel, depth, left, left', hrun⟩ := h.exists_run
  rw [value] at hrun
  split at hrun
  · cases hrun
  · obtain ⟨values, _, hvalues, hrun⟩ := exists_of_run_bind hrun
    cases hrun
    refine ⟨values, untagged_withTag _ _, (forall₂_of_run_mapM hvalues).imp ?_⟩
    exact fun _ _ ⟨t, t', ht⟩ => ⟨_, _, t, t', ht⟩

theorem HasValue.mapping {properties : Properties} {entries : List (Node × Node)}
    (h : HasValue table (.mapping properties entries) v) :
    ∃ values, v.untagged = .mapping values ∧ Value.DistinctKeys values ∧
      List.Forall₂ (fun e w => HasValue table e.1 w.1 ∧ HasValue table e.2 w.2) entries values := by
  obtain ⟨fuel, depth, left, left', hrun⟩ := h.exists_run
  rw [value] at hrun
  split at hrun
  · cases hrun
  · obtain ⟨values, _, hvalues, hrun⟩ := exists_of_run_bind hrun
    obtain ⟨_, _, hlift, hrun⟩ := exists_of_run_bind hrun
    cases hrun
    obtain ⟨_, hentries, hpair⟩ := Option.bind_eq_some_iff.1 hlift
    cases hpair
    obtain ⟨rfl, hdistinct⟩ := distinctEntries_eq hentries
    refine ⟨_, untagged_withTag _ _, hdistinct, (forall₂_of_run_mapM hvalues).imp ?_⟩
    rintro ⟨key, child⟩ w ⟨t, t', ht⟩
    obtain ⟨k, _, hk, ht⟩ := exists_of_run_bind ht
    obtain ⟨c, _, hc, ht⟩ := exists_of_run_bind ht
    cases ht
    exact ⟨⟨_, _, _, _, hk⟩, ⟨_, _, _, _, hc⟩⟩

/-- What a node stands for is found where its value has the same path. -/
theorem Leads.exists_hasValue {n target : Node} {path : List Step} (h : Leads table n path target)
    (hv : HasValue table n v) : ∃ w, HasValue table target w ∧ v.Leads path w := by
  induction h generalizing v with
  | here => exact ⟨v, hv, .here⟩
  | item hchild _ ih =>
    obtain ⟨values, huntagged, hvalues⟩ := hv.sequence
    obtain ⟨child, hget, hchildValue⟩ := exists_related_of_getElem? hvalues hchild
    obtain ⟨w, hw, hleads⟩ := ih hchildValue
    exact ⟨w, hw, .item huntagged hget hleads⟩
  | field hchild hkey _ ih =>
    obtain ⟨values, huntagged, hdistinct, hvalues⟩ := hv.mapping
    obtain ⟨⟨key, child⟩, hmem, hkeyValue, hchildValue⟩ := exists_related_of_mem hvalues hchild
    obtain ⟨w, hw, hleads⟩ := ih hchildValue
    obtain ⟨properties, text, style, value, rfl, hscalar, hname⟩ := hkey
    cases hscalar.symm.trans hkeyValue.scalar
    exact ⟨w, hw, .field huntagged hdistinct hmem hname hleads⟩
  | referred hn _ ih =>
    obtain ⟨n', hn', hvalue⟩ := hv.referred
    cases hn.symm.trans hn'
    exact ih hvalue

end Node

/-- The document consists of this node and its parts. -/
def HasRoot (text : String) (root : Node) : Prop :=
  ∃ tokens, Token.scan? text.toList = some tokens ∧ Node.ofTokens? tokens = some (some root)

theorem HasRoot.hasValue {text : String} {root : Node} {v : Value} (h : HasRoot text root)
    (hread : read? text = some v) : root.HasValue root.anchors v := by
  obtain ⟨tokens, htokens, hroot⟩ := h
  obtain ⟨_, hscan, hread⟩ := Option.bind_eq_some_iff.1 hread
  cases htokens.symm.trans hscan
  obtain ⟨_, hnode, hread⟩ := Option.bind_eq_some_iff.1 hread
  cases hroot.symm.trans hnode
  obtain ⟨⟨_, left⟩, hrun, rfl⟩ := Option.map_eq_some_iff.1 hread
  exact ⟨_, _, _, left, hrun⟩

end Yaml

/-! ## Places of bound values -/

open Yaml (Step Value Node Properties ScalarStyle)

/-- One of the two lists of a script. -/
inductive Side where
  | up
  | down

namespace Side

def name : Side → String
  | up => "up"
  | down => "down"

def statements (script : Script) : Side → List Statement
  | up => script.up
  | down => script.down

end Side

/-- The place of a value that a statement of a script binds: in a list or under a name. -/
structure BindPlace where
  side : Side
  statement : Nat
  slot : Step

/-- The path to the place from the root of the document. -/
def BindPlace.path (place : BindPlace) : List Step :=
  [.field place.side.name, .item place.statement, .field "binds", place.slot]

/-- The value that a statement binds at the place of a list or under a name. -/
def Statement.boundAt? (s : Statement) : Step → Option BoundValue
  | .item i =>
    match s.binds with
    | some (.positional values) => values[i]?
    | _ => none
  | .field name =>
    match s.binds with
    | some (.named values) => values.lookup name
    | _ => none

namespace Script

/-- The value that a script binds at a place. -/
def boundAt? (script : Script) (place : BindPlace) : Option BoundValue :=
  (place.side.statements script)[place.statement]?.bind fun statement => statement.boundAt? place.slot

section

variable {v key child target : Value} {entries : List (Value × Value)} {name : String}

/-- What the field of a mapping holds, if all fields can be read. -/
theorem fields?_getElem? {names : List String} {found : List (Option Value)} (h : fields? names entries = some found)
    (hmem : (key, child) ∈ entries) (hkey : key.untagged = .text name) {i : Nat} (hname : names[i]? = some name) :
    found[i]? = some (some child) := by
  obtain ⟨named, hnamed, h⟩ := Option.bind_eq_some_iff.1 h
  obtain ⟨field, hfield, hread⟩ := exists_related_of_mem (forall₂_of_mapM hnamed) hmem
  simp only [namedField?, hkey, Option.some.injEq] at hread
  subst hread
  have hfilter : (name, child) ∈ named.filter fun field => field.1 == name := List.mem_filter.2 ⟨hfield, by simp⟩
  obtain ⟨value, hvalue, hfound⟩ := exists_related_of_getElem? (forall₂_of_mapM h) hname
  rw [hvalue]
  split at hfound
  · next hempty =>
    rw [hempty] at hfilter
    cases hfilter
  · next hone =>
    rw [hone, List.mem_singleton] at hfilter
    rw [← hfound, ← hfilter]
  · cases hfound

theorem exists_of_namedValue? {e : Value × Value} {named : String × BoundValue} (h : namedValue? e = some named) :
    ∃ name value, e.1 = .text name ∧ boundValue? e.2 = some value ∧ named = (name, value) := by
  unfold namedValue? at h
  split at h
  · next name hname =>
    obtain ⟨value, hvalue, rfl⟩ := Option.map_eq_some_iff.1 h
    exact ⟨name, value, hname, hvalue, rfl⟩
  · cases h

/-- The value that is bound to a name is the one that stands under it. -/
theorem lookup_of_forall₂_namedValue? {values : List (String × BoundValue)}
    (h : List.Forall₂ (fun e named => namedValue? e = some named) entries values)
    (hdistinct : Value.DistinctKeys entries) (hmem : (key, child) ∈ entries) (hkey : key.untagged = .text name) :
    ∃ value, boundValue? child = some value ∧ values.lookup name = some value := by
  induction h with
  | nil => cases hmem
  | @cons e named entries values hfirst hrest ih =>
    obtain ⟨name', value, hname', hvalue, rfl⟩ := exists_of_namedValue? hfirst
    obtain ⟨hlater, hdistinct⟩ := List.pairwise_cons.1 hdistinct
    rcases List.mem_cons.1 hmem with rfl | hmem
    · obtain rfl : key = .text name' := hname'
      obtain rfl : name' = name := Value.text.inj hkey
      exact ⟨value, hvalue, List.lookup_cons_self⟩
    · obtain ⟨found, hfound, hlookup⟩ := ih hdistinct hmem
      -- a key that comes later is another text, as it has no tag
      obtain ⟨_, _, hrelated⟩ := exists_related_of_mem hrest hmem
      obtain ⟨name'', _, rfl, -, -⟩ := exists_of_namedValue? hrelated
      obtain rfl : name'' = name := Value.text.inj hkey
      have hne : name'' ≠ name' := by
        rintro rfl
        exact hlater _ hmem (by rw [hname']; simp [Value.same])
      refine ⟨found, hfound, ?_⟩
      rw [List.lookup_cons, beq_false_of_ne hne]
      exact hlookup

/-- The lists of a script are those of its mapping. -/
theorem exists_of_ofValue {script : Script} (h : ofValue v = .ok script) :
    ∃ entries up down, v.untagged = .mapping entries ∧ fields? ["up", "down"] entries = some [up, down] ∧
      statements? up = some script.up ∧ statements? down = some script.down := by
  rw [ofValue] at h
  split at h
  · next entries hentries =>
    split at h
    · have hread : ∀ {read : Option Script},
          read.elim (Except.error ScriptError.malformed) Except.ok = Except.ok script → read = some script := by
        rintro (_ | _) ⟨⟩
        rfl
      obtain ⟨found, hfound, h⟩ := Option.bind_eq_some_iff.1 (hread h)
      split at h
      · next up down =>
        obtain ⟨ups, hup, h⟩ := Option.bind_eq_some_iff.1 h
        obtain ⟨downs, hdown, h⟩ := Option.bind_eq_some_iff.1 h
        cases h
        exact ⟨entries, up, down, hentries, hfound, hup, hdown⟩
      · cases h
    · cases h
  · cases h

/-- The text and the values of a statement are those of its mapping. -/
theorem exists_of_statement? {statement : Statement} (h : statement? v = some statement) :
    ∃ entries run binds, v.untagged = .mapping entries ∧ fields? ["run", "binds"] entries = some [run, binds] ∧
      binds.elim (some none) binds? = some statement.binds := by
  unfold statement? at h
  split at h
  · next entries hentries =>
    obtain ⟨found, hfound, h⟩ := Option.bind_eq_some_iff.1 h
    split at h
    · next run binds =>
      obtain ⟨text, -, h⟩ := Option.bind_eq_some_iff.1 h
      split at h
      · refine ⟨entries, run, binds, hentries, hfound, ?_⟩
        cases binds with
        | none =>
          cases h
          rfl
        | some v =>
          obtain ⟨values, hvalues, h⟩ := Option.bind_eq_some_iff.1 h
          cases h
          exact hvalues
      · cases h
    · cases h
  · cases h

theorem mapM_of_statements? {items : List Value} {statements : List Statement}
    (h : statements? (some v) = some statements) (hv : v.untagged = .sequence items) :
    items.mapM statement? = some statements := by
  rw [statements?, hv] at h
  exact h

/-- A statement binds what stands among its values. -/
theorem boundAt?_of_binds? {statement : Statement} {slot : Step} (h : binds? v = some statement.binds)
    (hleads : v.Leads [slot] target) :
    ∃ value, boundValue? target = some value ∧ statement.boundAt? slot = some value := by
  unfold binds? at h
  split at h
  · -- null has no parts
    cases hleads with
    | item hv => cases hv
    | field hv => cases hv
  · next items =>
    obtain ⟨values, hvalues, hbinds⟩ := Option.map_eq_some_iff.1 h
    cases hleads with
    | item hv hchild hrest =>
      cases hv
      cases hrest
      obtain ⟨value, hget, hvalue⟩ := exists_related_of_getElem? (forall₂_of_mapM hvalues) hchild
      refine ⟨value, hvalue, ?_⟩
      rw [Statement.boundAt?, ← hbinds]
      exact hget
    | field hv => cases hv
  · next entries =>
    obtain ⟨values, hvalues, hbinds⟩ := Option.map_eq_some_iff.1 h
    cases hleads with
    | item hv => cases hv
    | field hv hdistinct hchild hkey hrest =>
      cases hv
      cases hrest
      obtain ⟨value, hvalue, hlookup⟩ :=
        lookup_of_forall₂_namedValue? (forall₂_of_mapM hvalues) hdistinct hchild hkey
      refine ⟨value, hvalue, ?_⟩
      rw [Statement.boundAt?, ← hbinds]
      exact hlookup
  · cases h

theorem boundAt?_of_statement? {statement : Statement} {slot : Step} (h : statement? v = some statement)
    (hleads : v.Leads [.field "binds", slot] target) :
    ∃ value, boundValue? target = some value ∧ statement.boundAt? slot = some value := by
  obtain ⟨entries, run, binds, hentries, hfields, hbinds⟩ := exists_of_statement? h
  cases hleads with
  | field hv _ hchild hkey hrest =>
    cases hentries.symm.trans hv
    obtain rfl : binds = some _ := by simpa using fields?_getElem? hfields hchild hkey (i := 1) rfl
    exact boundAt?_of_binds? hbinds hrest

/-- A script binds what its value has at the place. -/
theorem boundAt?_of_leads {script : Script} {place : BindPlace} (h : ofValue v = .ok script)
    (hleads : v.Leads place.path target) :
    ∃ value, boundValue? target = some value ∧ script.boundAt? place = some value := by
  obtain ⟨entries, up, down, hentries, hfields, hup, hdown⟩ := exists_of_ofValue h
  cases hleads with
  | @field _ _ list _ _ _ _ hv _ hchild hkey hrest =>
    cases hentries.symm.trans hv
    have hstatements : statements? (some list) = some (place.side.statements script) := by
      cases hside : place.side <;> rw [hside] at hkey
      · obtain rfl : up = some list := by simpa using fields?_getElem? hfields hchild hkey (i := 0) rfl
        exact hup
      · obtain rfl : down = some list := by simpa using fields?_getElem? hfields hchild hkey (i := 1) rfl
        exact hdown
    cases hrest with
    | item hv hchild hrest =>
      obtain ⟨statement, hget, hstatement⟩ :=
        exists_related_of_getElem? (forall₂_of_mapM (mapM_of_statements? hstatements hv)) hchild
      obtain ⟨value, hvalue, hbound⟩ := boundAt?_of_statement? hstatement hrest
      refine ⟨value, hvalue, ?_⟩
      rw [boundAt?, hget]
      exact hbound

end

section

variable {text : String} {root : Node} {place : BindPlace} {properties : Properties} {chars : List Char}
  {style : ScalarStyle}

/-- What a script binds at a place is what the scalar there stands for. -/
theorem exists_boundAt?_of_ofDocument (hroot : Yaml.HasRoot text root)
    (hleads : root.Leads root.anchors place.path (.scalar properties chars style)) {script : Script}
    (h : ofDocument text = .ok script) :
    ∃ v value, Value.ofScalar? properties chars style = some v ∧ boundValue? v = some value ∧
      script.boundAt? place = some value := by
  rw [ofDocument] at h
  split at h
  · next v hread =>
    obtain ⟨w, hw, hleads⟩ := hleads.exists_hasValue (hroot.hasValue hread)
    obtain ⟨value, hvalue, hbound⟩ := boundAt?_of_leads h hleads
    exact ⟨w, value, hw.scalar, hvalue, hbound⟩
  · cases h

/-- A document with a scalar that stands for nothing holds no script. -/
theorem ofDocument_of_none (hroot : Yaml.HasRoot text root) {path : List Step}
    (hleads : root.Leads root.anchors path (.scalar properties chars style))
    (h : Value.ofScalar? properties chars style = none) : ofDocument text = .error .malformed := by
  rw [ofDocument]
  split
  · next v hread =>
    obtain ⟨w, hw, -⟩ := hleads.exists_hasValue (hroot.hasValue hread)
    cases h.symm.trans hw.scalar
  · rfl

end

end Script

end SchemaMigration
