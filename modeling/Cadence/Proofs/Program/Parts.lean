import Cadence.Proofs.Program.Channel
import Cadence.Proofs.Tree.Accepted

/-! What a program is made of: the names in its tree, and its numerals, each with the way in which it is
read. A property of values that names and numerals give, and that functions keep, holds of everything that
the program comes to; the walk over the tree is made here once for all such properties. -/

namespace Cadence

namespace Vocabulary

/-- Whether a term gives no step but one that leaves times as they are. -/
def namesPlain (term : Term Operation Reading Unit) : Bool :=
  match (term.force (.ofScope outermost ())).1 with
  | .ok (.step step) =>
    match step with
    | .identity | .mute => true
    | _ => false
  | .ok _ | .error _ => true

theorem namesPlain_of_mem : ∀ entry ∈ (bindings : Bindings Operation Reading Unit),
    namesPlain entry.2 = true := by
  decide +kernel

/-- The way in which the function of a name has numerals read, if it has one of its own. -/
def readingOf? (name : String) : Option Reading :=
  match nameMeaning name outermost with
  | .ok (.function function) => function.arguments.map Scope.reading
  | .ok _ | .error _ => none

theorem readingOf_of_name {name : String} {scope : Scope Reading} {function : Function Operation Reading}
    (h : nameMeaning name scope = .ok (.function function)) :
    readingOf? name = function.arguments.map Scope.reading := by
  cases hlookup : (bindings : Bindings Operation Reading Unit).lookup name with
  | none =>
      rw [nameMeaning, hlookup] at h
      cases h
  | some term =>
      rw [nameMeaning, hlookup] at h
      rw [readingOf?, nameMeaning, hlookup]
      cases known_of_lookup hlookup with
      | step => cases h
      | combinator | literals | channel =>
          cases h
          rfl

/-- A name stands for a step that leaves times as they are, or for a function. -/
theorem plain_of_name {name : String} {scope : Scope Reading} {value : Value Operation Reading}
    (h : nameMeaning name scope = .ok value) :
    value = .step .identity ∨ value = .step .mute ∨
      ∃ function term, value = .function function ∧
        (name, term) ∈ (bindings : Bindings Operation Reading Unit) ∧ operationOf? term = some function.operation := by
  obtain ⟨term, hentry, hvalue⟩ := term_of_name h
  have hplain := namesPlain_of_mem (name, term) hentry
  cases known_of_mem hentry with
  | step step =>
      cases hvalue
      cases step with
      | identity => exact Or.inl rfl
      | mute => exact Or.inr (Or.inl rfl)
      | _ => cases hplain
  | combinator | literals | channel =>
      cases hvalue
      exact Or.inr (Or.inr ⟨_, _, rfl, hentry, rfl⟩)

end Vocabulary

namespace Node

variable {P : Type}

mutual

/-- The names of a node, in the order of the text. -/
def names : Node P → List String
  | .name value _ => [value]
  | .numeral .. => []
  | .paren child _ _ _ => child.names
  | .row children _ _ | .block children _ _ _ => allNames children

def allNames : List (Node P) → List String
  | [] => []
  | node :: nodes => node.names ++ allNames nodes

end

theorem mem_names_of_nameOf (node : Node P) {name : String} (h : node.nameOf? = some name) :
    name ∈ node.names := by
  match node with
  | .name _ _ =>
      cases h
      exact List.mem_singleton_self _
  | .paren child _ _ _ => exact mem_names_of_nameOf child h
  | .numeral .. | .row .. | .block .. => cases h

/-- Whoever sets a channel says so. -/
theorem channel_mem_names (node : Node P) {number : Double} (h : node.channelOf? = some number) :
    "channel" ∈ node.names := by
  match node with
  | .paren child _ _ _ => exact channel_mem_names child h
  | .row [head, argument] _ _ | .block [head, argument] _ _ _ =>
      have happlied : appliedChannel? [head, argument] = some number := h
      rw [appliedChannel?] at happlied
      split at happlied
      case isTrue hhead => exact List.mem_append_left _ (head.mem_names_of_nameOf hhead)
      case isFalse => cases happlied
  | .row [] _ _ | .row [_] _ _ | .row (_ :: _ :: _ :: _) _ _ => cases h
  | .block [] _ _ _ | .block [_] _ _ _ | .block (_ :: _ :: _ :: _) _ _ _ => cases h
  | .name .. | .numeral .. => cases h

/-- The way in which the arguments of a head are read, which stands in a given reading itself. -/
def inside (head : Node P) (reading : Reading) : Reading :=
  (head.nameOf?.bind Vocabulary.readingOf?).getD reading

mutual

/-- The numerals of a node, each with the way in which it is read: that of the nearest head around it that
has one of its own. -/
def readings (node : Node P) (reading : Reading) : List (Reading × Double) :=
  match node with
  | .name .. => []
  | .numeral value _ _ => [(reading, value)]
  | .paren child _ _ _ => child.readings reading
  | .row children _ _ | .block children _ _ _ => applicationReadings children reading

def applicationReadings (children : List (Node P)) (reading : Reading) : List (Reading × Double) :=
  match children with
  | [] => []
  | head :: arguments => head.readings reading ++ allReadings arguments (head.inside reading)

def allReadings (nodes : List (Node P)) (reading : Reading) : List (Reading × Double) :=
  match nodes with
  | [] => []
  | node :: others => node.readings reading ++ allReadings others reading

end

theorem mem_allReadings {nodes : List (Node P)} {node : Node P} (h : node ∈ nodes) {reading : Reading}
    {entry : Reading × Double} (hentry : entry ∈ node.readings reading) :
    entry ∈ allReadings nodes reading := by
  induction nodes with
  | nil => cases h
  | cons first others ih =>
      rcases List.mem_cons.mp h with rfl | hmem
      · exact List.mem_append_left _ hentry
      · exact List.mem_append_right _ (ih hmem)

theorem nameOf_erased (node : Node P) : node.erased.nameOf? = node.nameOf? := by
  match node with
  | .paren child _ _ _ => exact nameOf_erased child
  | .name .. | .numeral .. | .row .. | .block .. => rfl

mutual

theorem names_erased (node : Node P) : node.erased.names = node.names := by
  match node with
  | .name .. | .numeral .. => rfl
  | .paren child _ _ _ => exact names_erased child
  | .row children _ _ => exact allNames_erasedAll children
  | .block children _ _ _ => exact allNames_erasedAll children

theorem allNames_erasedAll (nodes : List (Node P)) : allNames (erasedAll nodes) = allNames nodes := by
  match nodes with
  | [] => rfl
  | node :: others => rw [erasedAll, allNames, allNames, names_erased node, allNames_erasedAll others]

end

mutual

theorem readings_erased (node : Node P) (reading : Reading) :
    node.erased.readings reading = node.readings reading := by
  match node with
  | .name .. | .numeral .. => rfl
  | .paren child _ _ _ => exact readings_erased child reading
  | .row children _ _ => exact applicationReadings_erasedAll children reading
  | .block children _ _ _ => exact applicationReadings_erasedAll children reading

theorem applicationReadings_erasedAll (children : List (Node P)) (reading : Reading) :
    applicationReadings (erasedAll children) reading = applicationReadings children reading := by
  match children with
  | [] => rfl
  | head :: arguments =>
      rw [erasedAll, applicationReadings, applicationReadings, inside, inside, nameOf_erased head,
        readings_erased head, allReadings_erasedAll arguments]

theorem allReadings_erasedAll (nodes : List (Node P)) (reading : Reading) :
    allReadings (erasedAll nodes) reading = allReadings nodes reading := by
  match nodes with
  | [] => rfl
  | node :: others =>
      rw [erasedAll, allReadings, allReadings, readings_erased node, allReadings_erasedAll others]

end

end Node

/-! ### Invariants -/

open Vocabulary

/-- A property of the values that a program comes to, with what it asks of the parts of the program: which
names may stand in it, which numerals and how read, and which channels may be set around them. -/
structure Invariant where
  holds : Value Operation Reading → Prop
  named : String → Prop
  numeral : Reading → Double → Prop
  channel : UInt8 → Prop
  channel_wrapChannel (number : Double) : channel (Note.wrapChannel number)
  holds_name {name : String} {scope : Scope Reading} {value : Value Operation Reading} :
    named name → nameMeaning name scope = .ok value → holds value
  holds_read {reading : Reading} {number : Double} {scope : Scope Reading} :
    numeral reading number → channel scope.channel → holds (reading.read number scope)
  holds_call {function : Function Operation Reading} {values : List (Value Operation Reading)}
    {caller after : Scope Reading} {value : Value Operation Reading} :
    holds (.function function) → (∀ argument ∈ values, holds argument) →
      function.operation.call values caller = .ok (value, after) → holds value

namespace Invariant

variable (invariant : Invariant) {P : Type}

/-- Whether the parts of a tree are as the invariant asks. -/
structure Admits (names : List String) (readings : List (Reading × Double)) : Prop where
  named : ∀ name ∈ names, invariant.named name
  numeral : ∀ entry ∈ readings, invariant.numeral entry.1 entry.2

theorem admits_append {names others : List String} {readings behind : List (Reading × Double)} :
    invariant.Admits (names ++ others) (readings ++ behind) ↔
      invariant.Admits names readings ∧ invariant.Admits others behind := by
  constructor
  · rintro ⟨hnames, hreadings⟩
    rw [List.forall_mem_append] at hnames hreadings
    exact ⟨⟨hnames.1, hreadings.1⟩, hnames.2, hreadings.2⟩
  · rintro ⟨hfirst, hlast⟩
    exact ⟨List.forall_mem_append.mpr ⟨hfirst.named, hlast.named⟩,
      List.forall_mem_append.mpr ⟨hfirst.numeral, hlast.numeral⟩⟩

theorem channel_of_meaning (node : Node P) {scope after : Scope Reading} {value : Value Operation Reading}
    (hchannel : invariant.channel scope.channel)
    (h : node.meaning dialect nameMeaning scope = (.ok value, after)) : invariant.channel after.channel := by
  rw [Node.scope_of_meaning node h]
  cases node.channelOf? with
  | none => exact hchannel
  | some number => exact invariant.channel_wrapChannel number

mutual

theorem holds_of_meaning (node : Node P) (scope : Scope Reading) (hchannel : invariant.channel scope.channel)
    (hparts : invariant.Admits node.names (node.readings scope.reading)) {value : Value Operation Reading}
    {after : Scope Reading} (h : node.meaning dialect nameMeaning scope = (.ok value, after)) :
    invariant.holds value := by
  match node with
  | .name name _ =>
      have hname : nameMeaning name scope = .ok value := congrArg Prod.fst h
      exact invariant.holds_name (hparts.named name (List.mem_singleton_self name)) hname
  | .numeral number _ _ =>
      cases h
      exact invariant.holds_read (hparts.numeral _ (List.mem_singleton_self (scope.reading, number))) hchannel
  | .paren child _ _ _ => exact holds_of_meaning child scope hchannel hparts h
  | .row children _ _ => exact holds_of_application children scope hchannel hparts h
  | .block children _ _ _ => exact holds_of_application children scope hchannel hparts h

theorem holds_of_application (children : List (Node P)) (scope : Scope Reading)
    (hchannel : invariant.channel scope.channel)
    (hparts : invariant.Admits (Node.allNames children) (Node.applicationReadings children scope.reading))
    {value : Value Operation Reading} {after : Scope Reading}
    (h : Node.applicationMeaning dialect nameMeaning children scope = (.ok value, after)) :
    invariant.holds value := by
  match children with
  | [] => cases h
  | head :: arguments =>
      obtain ⟨_, _, name, function, values, hsame, hname, hfunction, hvalues, hcall⟩ :=
        Node.application_of_meaning h
      cases hsame
      have hinside : head.inside scope.reading =
          (function.arguments.map Scope.reading).getD scope.reading := by
        rw [Node.inside, hname, Option.bind_some, readingOf_of_name hfunction]
      obtain ⟨hhead, harguments⟩ := invariant.admits_append.mp hparts
      rw [hinside] at harguments
      have hnamed := hhead.named name (head.mem_names_of_nameOf hname)
      have hargumentsHold := holds_of_meanings arguments
        ⟨(function.arguments.map Scope.reading).getD scope.reading, scope.channel⟩ hchannel harguments hvalues
      exact invariant.holds_call (invariant.holds_name hnamed hfunction) hargumentsHold hcall

theorem holds_of_meanings (nodes : List (Node P)) (scope : Scope Reading)
    (hchannel : invariant.channel scope.channel)
    (hparts : invariant.Admits (Node.allNames nodes) (Node.allReadings nodes scope.reading))
    {values : List (Value Operation Reading)}
    (h : Node.meanings dialect nameMeaning nodes scope = .ok values) :
    ∀ value ∈ values, invariant.holds value := by
  match nodes with
  | [] =>
      cases h
      simp
  | node :: others =>
      obtain ⟨value, after, rest, hvalue, hrest, rfl⟩ := Node.meanings_cons_eq_ok.mp h
      obtain ⟨hnode, hothers⟩ := invariant.admits_append.mp hparts
      have hreading : after.reading = scope.reading := by rw [Node.scope_of_meaning node hvalue]
      rw [← hreading] at hothers
      exact List.forall_mem_cons.mpr ⟨holds_of_meaning node scope hchannel hnode hvalue,
        holds_of_meanings others after (invariant.channel_of_meaning node hchannel hvalue) hothers hrest⟩

end

end Invariant

namespace Node

mutual

/-- The value of a numeral is that of a decimal without a sign. -/
theorem WellFormed.decimal {node : Tree} {column : Nat} (h : node.WellFormed column) {reading : Reading}
    {entry : Reading × Double} (hentry : entry ∈ node.readings reading) :
    ∃ decimal : Decimal, entry.2 = decimal.toDouble false := by
  match node with
  | .name _ _ => cases hentry
  | .numeral value digits _ =>
      obtain ⟨decimal, -, rfl⟩ := h
      rw [List.mem_singleton.mp hentry]
      exact ⟨decimal, rfl⟩
  | .paren child _ _ _ => exact WellFormed.decimal h.2.2.2 hentry
  | .row [] _ _ => cases hentry
  | .row (head :: arguments) _ _ =>
      obtain ⟨-, -, -, hhead, harguments⟩ := h
      rcases List.mem_append.mp hentry with hentry | hentry
      · exact WellFormed.decimal hhead hentry
      · exact AllWellFormed.decimal harguments hentry
  | .block [] _ _ _ => cases hentry
  | .block (head :: arguments) _ _ _ =>
      obtain ⟨-, -, -, -, -, hhead, harguments⟩ := h
      rcases List.mem_append.mp hentry with hentry | hentry
      · exact WellFormed.decimal hhead hentry
      · exact AllWellFormed.decimal harguments hentry

theorem AllWellFormed.decimal {nodes : List Tree} {column : Nat} (h : AllWellFormed column nodes)
    {reading : Reading} {entry : Reading × Double} (hentry : entry ∈ allReadings nodes reading) :
    ∃ decimal : Decimal, entry.2 = decimal.toDouble false := by
  match nodes with
  | [] => cases hentry
  | node :: others =>
      rcases List.mem_append.mp hentry with hentry | hentry
      · exact WellFormed.decimal h.1 hentry
      · exact AllWellFormed.decimal h.2 hentry

end

theorem WellFormedProgram.decimal {tree : Tree} (h : tree.WellFormedProgram) {reading : Reading}
    {entry : Reading × Double} (hentry : entry ∈ tree.readings reading) :
    ∃ decimal : Decimal, entry.2 = decimal.toDouble false := by
  match tree with
  | .block (.name head _ :: first :: others) indent (leading :: gaps) _ =>
      obtain ⟨-, -, -, -, -, hfirst, hothers⟩ := h
      have harguments : AllWellFormed 0 (first :: others) := ⟨hfirst, hothers⟩
      exact AllWellFormed.decimal harguments hentry

end Node

namespace Program

/-- What comes to a step was read, and its tree means this step. -/
theorem meaning_of_text {text : String} {step : Step} (h : stepOfText text = .ok step) :
    ∃ document after, Grammar.readProgram text = .ok document ∧
      document.tree.meaning dialect nameMeaning outermost = (.ok (.step step), after) := by
  obtain ⟨program, hprogram, hrun⟩ := except_bind_eq_ok.mp h
  obtain ⟨document, hread, -⟩ := except_bind_eq_ok.mp hprogram
  have hdocument := ok_of_mapError hread
  obtain ⟨after, hmeaning⟩ := meaning_of_run hdocument hprogram (ok_of_mapError hrun)
  exact ⟨document, after, hdocument, hmeaning⟩

end Program

/-- A program comes to what an invariant asks for, if its parts do. -/
theorem Invariant.holds_of_text (invariant : Invariant) (hchannel : invariant.channel outermost.channel)
    {text : String} {step : Step} (hstep : Program.stepOfText text = .ok step)
    (hparts : ∀ document, Grammar.readProgram text = .ok document →
      invariant.Admits document.tree.names (document.tree.readings .note)) : invariant.holds (.step step) := by
  obtain ⟨document, after, hread, hmeaning⟩ := Program.meaning_of_text hstep
  exact invariant.holds_of_meaning document.tree outermost hchannel (hparts document hread) hmeaning

end Cadence
