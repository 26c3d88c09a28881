import Cadence.Proofs.Program.Evaluation
import Cadence.Proofs.Program.Soundness
import Cadence.Proofs.Tree.Erased

/-! The channels of notes, as the text tells them. The channel at a place is the one that the nearest
`channel` before it sets: first among the arguments that stand before it in its own application, then among
those before that application in the next one, and so on to the root, where it is channel zero. A program is
evaluated without this search, by scopes that are handed on, copied and thrown away; what it comes to is what
the search gives. -/

namespace Cadence

namespace Vocabulary

/-- The operation of the function that a term gives, if it gives one. -/
def operationOf? (term : Term Operation Reading Unit) : Option Operation :=
  match (term.force (.ofScope outermost ())).1 with
  | .ok (.function function) => some function.operation
  | .ok _ | .error _ => none

theorem operationOf_channel_iff :
    ∀ entry ∈ (bindings : Bindings Operation Reading Unit),
      operationOf? entry.2 = some .channel ↔ entry.1 = "channel" := by
  decide +kernel

/-- Behind a name that means something stands a term of the vocabulary. -/
theorem term_of_name {name : String} {scope : Scope Reading} {value : Value Operation Reading}
    (h : nameMeaning name scope = .ok value) :
    ∃ term, (name, term) ∈ (bindings : Bindings Operation Reading Unit) ∧
      (term.force (.ofScope scope ())).1 = .ok value := by
  rw [nameMeaning] at h
  cases hlookup : (bindings : Bindings Operation Reading Unit).lookup name with
  | none =>
      rw [hlookup] at h
      cases h
  | some term =>
      rw [hlookup] at h
      exact ⟨term, mem_of_lookup hlookup, h⟩

/-- The arguments of a function that a name gives are evaluated in the scope of the name, but for the way in
which numerals are read. -/
theorem argumentScope_of_name {name : String} {scope : Scope Reading} {function : Function Operation Reading}
    (h : nameMeaning name scope = .ok (.function function)) :
    function.argumentScope scope =
      ⟨(function.arguments.map Scope.reading).getD scope.reading, scope.channel⟩ := by
  obtain ⟨term, hentry, hvalue⟩ := term_of_name h
  cases known_of_mem hentry with
  | step => cases hvalue
  | combinator | literals | channel =>
      cases hvalue
      rfl

/-- The function that sets a channel goes by one name. -/
theorem operation_of_name {name : String} {scope : Scope Reading} {function : Function Operation Reading}
    (h : nameMeaning name scope = .ok (.function function)) :
    function.operation = .channel ↔ name = "channel" := by
  obtain ⟨term, hentry, hvalue⟩ := term_of_name h
  rw [← operationOf_channel_iff (name, term) hentry]
  cases known_of_mem hentry with
  | step => cases hvalue
  | combinator | literals | channel =>
      cases hvalue
      simp [operationOf?, Term.force, combinator, literals, capturing, Term.ofValue, Term.ofComputation]

theorem nameMeaning_ne_number (name : String) (scope : Scope Reading) (number : Double) :
    nameMeaning name scope ≠ .ok (.number number) := by
  intro h
  obtain ⟨term, hentry, hvalue⟩ := term_of_name h
  cases known_of_mem hentry with
  | step | combinator | literals | channel => cases hvalue

end Vocabulary

namespace Node

section

variable {P : Type}

/-- The name that a node is, in any number of parentheses. -/
def nameOf? : Node P → Option String
  | .name value _ => some value
  | .paren child _ _ _ => child.nameOf?
  | .numeral .. | .row .. | .block .. => none

/-- The number that a node is, in any number of parentheses. -/
def numeralOf? : Node P → Option Double
  | .numeral value _ _ => some value
  | .paren child _ _ _ => child.numeralOf?
  | .name .. | .row .. | .block .. => none

/-- The number that an application of `channel` is to, if it is one. -/
def appliedChannel? : List (Node P) → Option Double
  | [head, argument] => if head.nameOf? = some "channel" then argument.numeralOf? else none
  | _ => none

/-- The number that `channel` is applied to by a node, in any number of parentheses. -/
def channelOf? : Node P → Option Double
  | .paren child _ _ _ => child.channelOf?
  | .row children _ _ | .block children _ _ _ => appliedChannel? children
  | .name .. | .numeral .. => none

/-- A place in a program: for each application around it, the innermost first, the arguments that stand
before it, the nearest first. -/
abbrev Place (P : Type) := List (List (Node P))

/-- The channel at a place. -/
def channelAt : Place P → UInt8
  | [] => 0
  | before :: outer =>
    match before.findSome? channelOf? with
    | some number => Note.wrapChannel number
    | none => channelAt outer

theorem channelAt_cons (node : Node P) (before : List (Node P)) (outer : Place P) :
    channelAt ((node :: before) :: outer) =
      (node.channelOf?.map Note.wrapChannel).getD (channelAt (before :: outer)) := by
  rw [channelAt, List.findSome?_cons]
  cases node.channelOf? with
  | none => rfl
  | some number => rfl

end

section

open Vocabulary

variable {P : Type}

mutual

/-- What a node stands for at a place, by the text alone. Numerals are read in the way of the nearest head
around them that has one, with the channel at their place. -/
def valueAt (node : Node P) (place : Place P) (reading : Reading) :
    Except EvalError (Value Operation Reading) :=
  match node with
  | .name value _ => nameMeaning value ⟨reading, channelAt place⟩
  | .numeral value _ _ => .ok (reading.read value ⟨reading, channelAt place⟩)
  | .paren child _ _ _ => child.valueAt place reading
  | .row children _ _ | .block children _ _ _ => applicationAt children place reading

def applicationAt (children : List (Node P)) (place : Place P) (reading : Reading) :
    Except EvalError (Value Operation Reading) :=
  match children with
  | [] => .error (.notCallable "empty application")
  | head :: arguments => do
    let function ← (← head.valueAt place reading).toFunction
    let inside := (function.arguments.map Scope.reading).getD reading
    let values ← valuesAt arguments [] place inside
    return (← function.operation.call values ⟨reading, channelAt place⟩).1

/-- The values of arguments, of which `before` stand before the rest. -/
def valuesAt (arguments before : List (Node P)) (outer : Place P) (reading : Reading) :
    Except EvalError (List (Value Operation Reading)) :=
  match arguments with
  | [] => .ok []
  | argument :: others => do
    let value ← argument.valueAt (before :: outer) reading
    return value :: (← valuesAt others (argument :: before) outer reading)

end

end

/-! ### What evaluation hands on -/

section

open Vocabulary

variable {P : Type} {scope after : Scope Reading} {value : Value Operation Reading}

theorem meaning_of_nameOf (node : Node P) {name : String} (h : node.nameOf? = some name)
    (scope : Scope Reading) : node.meaning dialect nameMeaning scope = (nameMeaning name scope, scope) := by
  match node with
  | .name _ _ =>
      cases h
      rfl
  | .paren child _ _ _ => exact meaning_of_nameOf child h scope
  | .numeral .. | .row .. | .block .. => cases h

theorem valueAt_of_nameOf (node : Node P) {name : String} (h : node.nameOf? = some name) (place : Place P)
    (reading : Reading) : node.valueAt place reading = nameMeaning name ⟨reading, channelAt place⟩ := by
  match node with
  | .name _ _ =>
      cases h
      rfl
  | .paren child _ _ _ => exact valueAt_of_nameOf child h place reading
  | .numeral .. | .row .. | .block .. => cases h

theorem nameOf_of_isNamed (node : Node P) (h : node.isNamed = true) : ∃ name, node.nameOf? = some name := by
  match node with
  | .name value _ => exact ⟨value, rfl⟩
  | .paren child _ _ _ => exact nameOf_of_isNamed child h
  | .numeral .. | .row .. | .block .. => cases h

/-- Where numerals are read as numbers, nothing but a numeral comes to a number. -/
theorem numeralOf_of_meaning (node : Node P) {number : Double} (hreading : scope.reading = .number)
    (h : node.meaning dialect nameMeaning scope = (.ok (.number number), after)) :
    node.numeralOf? = some number := by
  match node with
  | .name value _ =>
      have hname : nameMeaning value scope = .ok (.number number) := congrArg Prod.fst h
      exact absurd hname (nameMeaning_ne_number value scope number)
  | .numeral found _ _ =>
      have hread : scope.reading.read found scope = Value.number (F := Operation) number :=
        Except.ok.inj (congrArg Prod.fst h)
      rw [hreading] at hread
      cases hread
      rfl
  | .paren child _ _ _ => exact numeralOf_of_meaning child hreading h
  | .row children _ _ | .block children _ _ _ =>
      have happlied : applicationMeaning dialect nameMeaning children scope = (.ok (.number number), after) := h
      cases (applicationNameHeaded_of_meaning happlied).2

/-- An application that succeeds calls the function of a name, with what its arguments come to in the scope of
the application, read in the way of the function or else as around it. -/
theorem application_of_meaning {children : List (Node P)}
    (h : applicationMeaning dialect nameMeaning children scope = (.ok value, after)) :
    ∃ head arguments name function values, children = head :: arguments ∧ head.nameOf? = some name ∧
      nameMeaning name scope = .ok (.function function) ∧
      meanings dialect nameMeaning arguments
        ⟨(function.arguments.map Scope.reading).getD scope.reading, scope.channel⟩ = .ok values ∧
      function.operation.call values scope = .ok (value, after) := by
  obtain ⟨head, arguments, function, caller, values, rfl, hcalled, hvalues, hcall⟩ :=
    applicationMeaning_eq_ok.mp h
  obtain ⟨-, hnamed | htype⟩ := nameHeaded_of_meaning hcalled
  · obtain ⟨name, hname⟩ := nameOf_of_isNamed head hnamed
    rw [meaning_of_nameOf head hname] at hcalled
    obtain ⟨hfunction, rfl⟩ := Prod.mk.inj hcalled
    rw [argumentScope_of_name hfunction] at hvalues
    exact ⟨head, arguments, name, function, values, rfl, hname, hfunction, hvalues, hcall⟩
  · exact absurd rfl htype

theorem scope_of_application {children : List (Node P)}
    (h : applicationMeaning dialect nameMeaning children scope = (.ok value, after)) :
    after = { scope with
      channel := ((appliedChannel? children).map Note.wrapChannel).getD scope.channel } := by
  obtain ⟨head, arguments, name, function, values, rfl, hname, hfunction, hvalues, hcall⟩ :=
    application_of_meaning h
  by_cases hchannel : name = "channel"
  · subst hchannel
    cases hfunction
    obtain ⟨number, rfl, -, rfl⟩ := call_channel_eq_ok.mp hcall
    match arguments with
    | [] => cases hvalues
    | [argument] =>
        obtain ⟨_, _, _, hargument, -, hsame⟩ := meanings_cons_eq_ok.mp hvalues
        cases hsame
        rw [appliedChannel?, if_pos hname, numeralOf_of_meaning argument rfl hargument]
        rfl
    | _ :: _ :: _ =>
        obtain ⟨_, _, _, -, hrest, hsame⟩ := meanings_cons_eq_ok.mp hvalues
        cases hsame
        obtain ⟨_, _, _, -, -, hsame⟩ := meanings_cons_eq_ok.mp hrest
        cases hsame
  · have hnone : appliedChannel? (head :: arguments) = none := by
      match arguments with
      | [] | _ :: _ :: _ => rfl
      | [argument] =>
          rw [appliedChannel?, hname, if_neg]
          exact fun hsame => hchannel (Option.some.inj hsame)
    have hcombines := mt (operation_of_name hfunction).mp hchannel
    obtain ⟨_, -, -, rfl⟩ := (call_eq_ok hcombines).mp hcall
    rw [hnone]
    rfl

/-- Nothing but `channel` applied to a numeral is seen by what stands behind a node. -/
theorem scope_of_meaning (node : Node P)
    (h : node.meaning dialect nameMeaning scope = (.ok value, after)) :
    after = { scope with channel := (node.channelOf?.map Note.wrapChannel).getD scope.channel } := by
  cases node with
  | name | numeral => exact (congrArg Prod.snd h).symm
  | paren child => exact scope_of_meaning child h
  | row children | block children =>
      have happlied : applicationMeaning dialect nameMeaning children scope = (.ok value, after) := h
      exact scope_of_application happlied

mutual

/-- In the scope of its place, a node comes to what it stands for by the text. -/
theorem valueAt_of_meaning (node : Node P) (place : Place P) (reading : Reading)
    {value : Value Operation Reading} {after : Scope Reading}
    (h : node.meaning dialect nameMeaning ⟨reading, channelAt place⟩ = (.ok value, after)) :
    node.valueAt place reading = .ok value := by
  match node with
  | .name _ _ => exact congrArg Prod.fst h
  | .numeral _ _ _ => exact congrArg Prod.fst h
  | .paren child _ _ _ => exact valueAt_of_meaning child place reading h
  | .row children _ _ => exact applicationAt_of_meaning children place reading h
  | .block children _ _ _ => exact applicationAt_of_meaning children place reading h

theorem applicationAt_of_meaning (children : List (Node P)) (place : Place P) (reading : Reading)
    {value : Value Operation Reading} {after : Scope Reading}
    (h : applicationMeaning dialect nameMeaning children ⟨reading, channelAt place⟩ = (.ok value, after)) :
    applicationAt children place reading = .ok value := by
  match children with
  | [] => cases h
  | head :: arguments =>
      obtain ⟨_, _, name, function, values, hsame, hname, hfunction, hvalues, hcall⟩ :=
        application_of_meaning h
      cases hsame
      have harguments := valuesAt_of_meanings arguments [] place _ hvalues
      rw [applicationAt, valueAt_of_nameOf head hname, hfunction]
      show (valuesAt arguments [] place _ >>= fun values => _) = _
      rw [harguments]
      show (function.operation.call values ⟨reading, channelAt place⟩ >>= fun answer => .ok answer.1) = _
      rw [hcall]
      rfl

theorem valuesAt_of_meanings (arguments before : List (Node P)) (outer : Place P) (reading : Reading)
    {values : List (Value Operation Reading)}
    (h : meanings dialect nameMeaning arguments ⟨reading, channelAt (before :: outer)⟩ = .ok values) :
    valuesAt arguments before outer reading = .ok values := by
  match arguments with
  | [] => exact h
  | argument :: others =>
      obtain ⟨value, after, rest, hvalue, hrest, rfl⟩ := meanings_cons_eq_ok.mp h
      have hscope : after = ⟨reading, channelAt ((argument :: before) :: outer)⟩ := by
        rw [channelAt_cons]
        exact scope_of_meaning argument hvalue
      rw [hscope] at hrest
      rw [valuesAt, valueAt_of_meaning argument (before :: outer) reading hvalue,
        valuesAt_of_meanings others (argument :: before) outer reading hrest]
      rfl

end

end

end Node

namespace Program

open Vocabulary

theorem bind_of_ofText {text : String} {document : Document Unit} {program : Program}
    (hread : Grammar.readProgram text = .ok document) (hprogram : ofText text = .ok program) :
    bindings.bind document.tree = .ok program := by
  obtain ⟨found, hfound, h⟩ := except_bind_eq_ok.mp hprogram
  obtain ⟨bound, hbound, h⟩ := except_bind_eq_ok.mp h
  obtain ⟨_, -, h⟩ := except_bind_eq_ok.mp h
  cases h
  rw [hread] at hfound
  cases hfound
  exact ok_of_mapError hbound

theorem run_of_read {text : String} {document : Document Unit} {program : Program}
    (hread : Grammar.readProgram text = .ok document) (hprogram : ofText text = .ok program) :
    program.run.1 = (document.tree.meaning dialect nameMeaning outermost).1.bind Value.toStep := by
  rw [run_of_fresh (ofText_eq_ok hprogram).1,
    Node.meaning_of_mapPayloadM dialect nameMeaning (bind_of_ofText hread hprogram)]

/-- The step that a program comes to is what its tree means. -/
theorem meaning_of_run {text : String} {document : Document Unit} {program : Program} {step : Step}
    (hread : Grammar.readProgram text = .ok document) (hprogram : ofText text = .ok program)
    (hrun : program.run.1 = .ok step) :
    ∃ after, document.tree.meaning dialect nameMeaning outermost = (.ok (.step step), after) := by
  rw [run_of_read hread hprogram] at hrun
  obtain ⟨value, hvalue, hstep⟩ := except_bind_eq_ok.mp hrun
  cases value with
  | step found =>
      cases hstep
      exact ⟨_, Prod.ext hvalue rfl⟩
  | number => cases hstep
  | function => cases hstep

/-- An accepted program in which all heads are names comes to the step that its text stands for, in which
each numeral that is read as a note has the channel at its place. -/
theorem run_eq_valueAt {text : String} {document : Document Unit} {program : Program}
    (hread : Grammar.readProgram text = .ok document) (hprogram : ofText text = .ok program)
    (hheads : program.nameHeaded = true) :
    ∃ step, program.run.1 = .ok step ∧ document.tree.valueAt [] .note = .ok (.step step) := by
  obtain ⟨hfresh, hcheck⟩ := ofText_eq_ok hprogram
  obtain ⟨value, after, hmeaning, htype, -⟩ := Node.meaning_of_check hfresh hheads hcheck outermost rfl
  rw [Node.meaning_of_mapPayloadM dialect nameMeaning (bind_of_ofText hread hprogram)] at hmeaning
  have hvalue := Node.valueAt_of_meaning document.tree [] .note hmeaning
  rw [run_of_read hread hprogram, hmeaning]
  cases value with
  | step step => exact ⟨step, rfl, hvalue⟩
  | number => cases htype
  | function => cases htype

/-- Channels that are set again: `stack 60 (channel 3) (note 61 ((channel) (5)) 62) 63`. -/
def nestedChannels : Tree :=
  .ofBlock [.ofName "do", .ofRow [.ofName "stack", .numeral 60 "60" (),
    .ofParen (.ofRow [.ofName "channel", .numeral 3 "3" ()]),
    .ofParen (.ofRow [.ofName "note", .numeral 61 "61" (),
      .ofParen (.ofRow [.ofParen (.ofName "channel"), .ofParen (.numeral 5 "5" ())]), .numeral 62 "62" ()]),
    .numeral 63 "63" ()]] 0

theorem run_eq_valueAt_nestedChannels :
    ∃ program, ofText "stack 60 (channel 3) (note 61 ((channel) (5)) 62) 63" = .ok program ∧
      program.nameHeaded = true ∧ program.run.1 = .ok (.compose [.stack
        [.note 60 0, .identity, .alternate [.note 61 3, .identity, .note 62 5], .note 63 3]]) := by
  have hheads : (ofText "stack 60 (channel 3) (note 61 ((channel) (5)) 62) 63").toOption.map
      Node.nameHeaded = some true := by decide +kernel
  have htree : (Grammar.readProgram "stack 60 (channel 3) (note 61 ((channel) (5)) 62) 63").toOption.map
      Document.tree = some nestedChannels := by decide +kernel
  have hplain : nestedChannels.valueAt [] .note = .ok (.step (.compose [.stack
      [.note (Note.wrapPitch 60) 0, .identity, .alternate [.note (Note.wrapPitch 61) (Note.wrapChannel 3),
        .identity, .note (Note.wrapPitch 62) (Note.wrapChannel 5)],
        .note (Note.wrapPitch 63) (Note.wrapChannel 3)]])) := rfl
  have hpitches : [60, 61, 62, 63].map Note.wrapPitch = [60, 61, 62, 63] := by decide +kernel
  have hchannels : [3, 5].map Note.wrapChannel = [3, 5] := by decide +kernel
  obtain ⟨program, hprogram, hnamed⟩ := exists_ok_of_map hheads
  obtain ⟨document, hread, hnested⟩ := exists_ok_of_map htree
  obtain ⟨step, hrun, hvalue⟩ := run_eq_valueAt hread hprogram hnamed
  simp only [List.map_cons, List.map_nil, List.cons.injEq, and_true] at hpitches hchannels
  simp only [hnested, hplain, hpitches, hchannels, Except.ok.injEq, Value.step.injEq] at hvalue
  exact ⟨program, hprogram, hnamed, hrun.trans (congrArg Except.ok hvalue.symm)⟩

end Program

end Cadence
