import SchemaMigration.Template.Migration
import Mathlib.Data.List.Basic

/-!
# The standard template

The tree that the standard template is read as (`parse?_standardSource`) and the file that it gives: a heading, and two
lists of double-quoted scalars, either of them `[]` where it has no entry (`renderMigration_standardSource`).

The texts between the variables have names, so that no proof compares them letter by letter.
-/

namespace SchemaMigration.Template

/-! ## The tree -/

/-- What stands before the name. -/
def titleStart : String :=
  "# Migration "

/-- What stands between the name and the first list. -/
def headingEnd : String :=
  "\n#\n# Statements run from top to bottom. An entry may carry `binds`: a list for\n# `?` placeholders or a map for `:name` placeholders.\nup:"

/-- What stands between the two lists. -/
def downKey : String :=
  "\ndown:"

/-- What stands before a statement. -/
def entryStart : String :=
  "\n  - run: "

/-- A list without entries. -/
def emptyList : String :=
  " []"

/-- What stands behind the second list. -/
def fileEnd : String :=
  "\n"

/-- The segments of the loop over one of the two lists. -/
def loopSegments (list : String) : List Segment :=
  [.tag [.word "for", .word "statement", .word "in", .word list], .text entryStart.toList,
    .output [.word "statement", .mark '|', .word "yaml"], .text [], .tag [.word "else"], .text emptyList.toList,
    .tag [.word "endfor"]]

/-- The segments of the standard template. -/
def standardSegments : List Segment :=
  .text titleStart.toList :: .output [.word "name"] :: .text headingEnd.toList ::
    (loopSegments "up" ++ .text downKey.toList :: (loopSegments "down" ++ [.text fileEnd.toList]))

/-- The entry for a statement. -/
def entryNodes : List Node :=
  [.text entryStart, .output (.filtered (.reference "statement") "yaml")]

/-- The loop over one of the two lists. -/
def loopNode (list : String) : Node :=
  .forEach "statement" (.reference list) entryNodes [.text emptyList]

/-- The tree of the standard template. -/
def standardNodes : List Node :=
  [.text titleStart, .output (.reference "name"), .text headingEnd, loopNode "up", .text downKey, loopNode "down",
    .text fileEnd]

theorem readSegments_standardSource :
    readSegments (standardSource.toList.length + 1) false standardSource.toList = some standardSegments := by
  delta standardSource
  simp only [String.toList_append, String.reduceToList, standardSegments, loopSegments, titleStart, headingEnd, downKey,
    entryStart, emptyList, fileEnd]
  decide +kernel

set_option maxRecDepth 4000 in
theorem readNodes_standardSegments :
    readNodes (3 * standardSegments.length + 3) standardSegments = some (standardNodes, []) := by
  rfl

theorem parse?_standardSource : parse? standardSource = some standardNodes := by
  simp only [parse?, readSegments_standardSource, readNodes_standardSegments, Option.bind_eq_bind, Option.bind_some,
    List.isEmpty_nil, if_true]

/-! ## The file -/

/-- The entry for a statement. -/
def entryText (statement : String) : List Char :=
  entryStart.toList ++ (yamlQuote statement).toList

/-- A list of entries. -/
def listText (statements : List String) : List Char :=
  if statements.isEmpty then emptyList.toList else statements.flatMap entryText

/-- The file that the standard template gives. -/
def migrationText (name : String) (query : Reversible String) : List Char :=
  titleStart.toList ++ name.toList ++ headingEnd.toList ++ listText query.up ++ downKey.toList ++ listText query.down ++
    fileEnd.toList

theorem renderNodes_entryNodes {scope : Scope} {statement : String}
    (h : scope.lookup "statement" = some (.text statement)) :
    renderNodes scope entryNodes = .ok (String.ofList (entryText statement)) := by
  have hreference : (Expr.reference "statement").eval scope = .ok (.text statement) := by
    rw [Expr.eval, h, Option.getD_some]
  have heval : (Expr.filtered (.reference "statement") "yaml").eval scope = .ok (.text (yamlQuote statement)) := by
    rw [Expr.eval, hreference]
    rfl
  have htext : String.ofList (entryText statement) = entryStart ++ (yamlQuote statement ++ "") := by
    rw [String.append_empty, entryText, String.ofList_append, String.ofList_toList, String.ofList_toList]
  rw [htext, entryNodes]
  simp only [renderNodes, Node.render, heval, bind, Except.bind, Value.display]

theorem loopScopes_text (scope : Scope) (variableName : String) (texts : List String) :
    loopScopes scope variableName (texts.map .text) =
      texts.zipIdx.map fun (s, i) => (variableName, .text s) :: ("loop", .loop i texts.length) :: scope := by
  simp [loopScopes, List.zipIdx_map, Function.comp_def]

theorem mapM_renderNodes_entryNodes (scope : Scope) (statements : List String) :
    ((loopScopes scope "statement" (statements.map .text)).mapM fun inner => renderNodes inner entryNodes) =
      .ok (statements.map fun statement => String.ofList (entryText statement)) := by
  have hentry : ∀ statement i,
      renderNodes (("statement", .text statement) :: ("loop", .loop i statements.length) :: scope) entryNodes =
        pure (String.ofList (entryText statement)) := fun _ _ => renderNodes_entryNodes rfl
  rw [loopScopes_text, List.mapM_map]
  simp only [Function.comp_def, hentry, List.mapM_pure]
  have hfst : (statements.zipIdx.map fun x => String.ofList (entryText x.1)) =
      statements.map fun statement => String.ofList (entryText statement) := by
    conv_rhs => rw [← List.zipIdx_map_fst 0 statements, List.map_map]
    rfl
  exact congrArg Except.ok hfst

theorem intercalate_nil {α : Type} (ls : List (List α)) : [].intercalate ls = ls.flatten := by
  induction ls with
  | nil => rfl
  | cons l ls ih =>
    cases ls with
    | nil => simp
    | cons m ls => simp_all [List.intercalate]

theorem intercalate_entryText (statements : List String) :
    "".intercalate (statements.map fun statement => String.ofList (entryText statement)) =
      String.ofList (statements.flatMap entryText) := by
  apply String.toList_injective
  rw [String.toList_intercalate, String.toList_empty, intercalate_nil, String.toList_ofList, List.map_map]
  simp [Function.comp_def, List.flatMap]

theorem render_loopNode {scope : Scope} {list : String} {statements : List String}
    (h : scope.lookup list = some (.list (statements.map .text))) :
    (loopNode list).render scope = .ok (String.ofList (listText statements)) := by
  have heval : (Expr.reference list).eval scope = .ok (.list (statements.map .text)) := by
    rw [Expr.eval, h, Option.getD_some]
  cases statements with
  | nil =>
    have hempty : renderNodes scope [.text emptyList] = .ok (String.ofList (listText [])) := by
      rw [listText, List.isEmpty_nil, if_pos rfl, String.ofList_toList]
      simp only [renderNodes, Node.render, bind, Except.bind, String.append_empty]
    simp only [loopNode, Node.render, heval, bind, Except.bind, Value.items?, List.map_nil, hempty]
  | cons statement statements =>
    simp only [loopNode, Node.render, heval, bind, Except.bind, Value.items?, List.map_cons]
    rw [← List.map_cons, mapM_renderNodes_entryNodes]
    exact congrArg Except.ok (intercalate_entryText (statement :: statements))

theorem renderNodes_standardNodes (name : String) (query : Reversible String) :
    renderNodes (migrationScope name query) standardNodes = .ok (String.ofList (migrationText name query)) := by
  have hname : (Expr.reference "name").eval (migrationScope name query) = .ok (.text name) := rfl
  have hup : (loopNode "up").render (migrationScope name query) = .ok (String.ofList (listText query.up)) :=
    render_loopNode rfl
  have hdown : (loopNode "down").render (migrationScope name query) = .ok (String.ofList (listText query.down)) :=
    render_loopNode rfl
  have htext : String.ofList (migrationText name query) = titleStart ++ (name ++ (headingEnd ++
      (String.ofList (listText query.up) ++ (downKey ++
        (String.ofList (listText query.down) ++ (fileEnd ++ "")))))) := by
    apply String.toList_injective
    simp only [migrationText, String.toList_ofList, String.toList_append, List.append_assoc, String.append_empty]
  rw [htext, standardNodes]
  simp only [renderNodes, Node.render, hname, hup, hdown, bind, Except.bind, Value.display]

theorem renderMigration_eq {source : String} {nodes : List Node} (h : parse? source = some nodes) (name : String)
    (query : Reversible String) :
    renderMigration source name query = (renderNodes (migrationScope name query) nodes).mapError .rendering := by
  rw [renderMigration, h]

/-- The standard template never fails. -/
theorem renderMigration_standardSource (name : String) (query : Reversible String) :
    renderMigration standardSource name query = .ok (String.ofList (migrationText name query)) := by
  rw [renderMigration_eq parse?_standardSource, renderNodes_standardNodes]
  rfl

end SchemaMigration.Template
