import Cadence.Program.Basic
import Cadence.Proofs.Program.Vocabulary

/-! The evaluation of a program against the meaning of its source. What a tree means is told by the tree as
it was read, which holds no places for values, and by one scope that is passed along; the stack of scopes
and the values that nodes keep can be seen neither in what an evaluation answers nor in what it leaves. -/

namespace Cadence

namespace Node

section Payloads

variable {F R P Q ε : Type} (dialect : Dialect F R) (names : String → Scope R → Except EvalError (Value F R))
  {step : Node P → Except ε Q}

mutual

/-- A tree means the same with other payloads. -/
theorem meaning_of_mapPayloadM {node : Node P} {image : Node Q} (h : node.mapPayloadM step = .ok image)
    (scope : Scope R) : image.meaning dialect names scope = node.meaning dialect names scope := by
  match node with
  | .name value payload =>
      obtain ⟨_, -, himage⟩ := except_bind_eq_ok.mp h
      cases himage
      rfl
  | .numeral value digits payload =>
      obtain ⟨_, -, himage⟩ := except_bind_eq_ok.mp h
      cases himage
      rfl
  | .paren child before behind payload =>
      obtain ⟨_, -, h⟩ := except_bind_eq_ok.mp h
      obtain ⟨inside, hinside, himage⟩ := except_bind_eq_ok.mp h
      cases himage
      exact meaning_of_mapPayloadM hinside scope
  | .row children gaps payload =>
      obtain ⟨_, -, h⟩ := except_bind_eq_ok.mp h
      obtain ⟨inside, hinside, himage⟩ := except_bind_eq_ok.mp h
      cases himage
      exact applicationMeaning_of_mapPayloadsM hinside scope
  | .block children indent gaps payload =>
      obtain ⟨_, -, h⟩ := except_bind_eq_ok.mp h
      obtain ⟨inside, hinside, himage⟩ := except_bind_eq_ok.mp h
      cases himage
      exact applicationMeaning_of_mapPayloadsM hinside scope

theorem applicationMeaning_of_mapPayloadsM {children : List (Node P)} {images : List (Node Q)}
    (h : mapPayloadsM step children = .ok images) (scope : Scope R) :
    applicationMeaning dialect names images scope = applicationMeaning dialect names children scope := by
  match children with
  | [] =>
      cases h
      rfl
  | head :: arguments =>
      obtain ⟨called, hcalled, h⟩ := except_bind_eq_ok.mp h
      obtain ⟨given, hgiven, himages⟩ := except_bind_eq_ok.mp h
      cases himages
      have harguments (scope : Scope R) := meanings_of_mapPayloadsM hgiven scope
      simp only [applicationMeaning, meaning_of_mapPayloadM hcalled scope, harguments]

theorem meanings_of_mapPayloadsM {nodes : List (Node P)} {images : List (Node Q)}
    (h : mapPayloadsM step nodes = .ok images) (scope : Scope R) :
    meanings dialect names images scope = meanings dialect names nodes scope := by
  match nodes with
  | [] =>
      cases h
      rfl
  | node :: others =>
      obtain ⟨first, hfirst, h⟩ := except_bind_eq_ok.mp h
      obtain ⟨rest, hrest, himages⟩ := except_bind_eq_ok.mp h
      cases himages
      have hothers (scope : Scope R) := meanings_of_mapPayloadsM hrest scope
      simp only [meanings, meaning_of_mapPayloadM hfirst scope, hothers]

end

end Payloads

end Node

namespace Vocabulary

open Node

/-- A tree whose names were bound is evaluated, in any context, to what its source means in the current
scope, and leaves that scope as the source does; of what lies around it nothing changes. This holds
whatever functions do and whatever numerals are read as. -/
theorem evaluate_eq_meaning (dialect : Dialect Operation Reading) {tree : Tree} {program : Program}
    (h : bindings.bind tree = .ok program) (context : Context Reading Unit) :
    let evaluation := program.evaluate dialect context
    let plain := tree.meaning dialect nameMeaning context.scope
    evaluation.result = plain.1 ∧ evaluation.context = { context with scope := plain.2 } := by
  have hsource := meaning_of_mapPayloadM dialect nameMeaning h context.scope
  dsimp only
  rw [← hsource]
  exact evaluate_fresh settled (fresh_of_bind h) context

/-- `stack (channel 3) (i 1)`, in which an argument fails behind another that has set a channel. -/
def brokenOff : Tree :=
  ofRow [ofName "stack", ofParen (ofRow [ofName "channel", .numeral 3 "3" ()]),
    ofParen (ofRow [ofName "i", .numeral 1 "1" ()])]

/-- A context in which numerals are factors, on another channel, with a scope around. -/
def slowing : Context Reading Unit := ⟨⟨.slow, 5⟩, [outermost], ()⟩

theorem evaluate_eq_meaning_brokenOff :
    ∃ program : Program, bindings.bind brokenOff = .ok program ∧
      (program.evaluate dialect slowing).result = .error (.notCallable "transformer") ∧
      (program.evaluate dialect slowing).context = slowing := by
  have hbound : ((bindings : Bindings Operation Reading Unit).bind brokenOff).toOption.map (fun _ => ()) =
      some () := by decide +kernel
  obtain ⟨program, hprogram, -⟩ := exists_ok_of_map hbound
  have hplain : brokenOff.meaning dialect nameMeaning slowing.scope =
      (.error (.notCallable "transformer"), slowing.scope) := rfl
  have hevaluation := evaluate_eq_meaning dialect hprogram slowing
  simp only [hplain] at hevaluation
  exact ⟨program, hprogram, hevaluation⟩

end Vocabulary

end Cadence
