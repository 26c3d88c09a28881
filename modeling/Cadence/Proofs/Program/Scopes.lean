import Cadence.Proofs.Program.Channel
import Cadence.Proofs.Program.Repeated
import Mathlib.Logic.Relation

/-! Scopes that do not leak. Whatever is evaluated, with or without success, and however much of the tree has values
already, the scopes around the current one stay as they are, and so does the way in which numerals are read there. Its
channel changes only where the text shows it: for an application of `channel`, or one whose head sets the channel. That
depends on an invariant of the values in the tree: the function that sets a channel is kept by nothing but the name
`channel` in parentheses. -/

namespace Cadence

open Vocabulary

namespace Node

section

variable {P : Type}

/-- Whether a node is the name `channel`, in any number of parentheses. -/
def namesChannel (node : Node P) : Bool := node.nameOf? == some "channel"

mutual

/-- Whether a node applies `channel`, or has a head that sets the channel, in any number of parentheses. -/
def setsChannel : Node P → Bool
  | .name .. | .numeral .. => false
  | .paren child _ _ _ => child.setsChannel
  | .row children _ _ | .block children _ _ _ => applicationSetsChannel children

def applicationSetsChannel : List (Node P) → Bool
  | [] => false
  | head :: _ => head.namesChannel || head.setsChannel

end

end

/-- What becomes of a tree when one of its nodes is evaluated, in any context. -/
inductive Touched : Program → Program → Prop where
  | here (node : Program) (context : Context Reading Unit) : Touched node (node.evaluate dialect context).tree
  | paren {child later : Program} (before behind : String) (term : Term Operation Reading Unit)
    (h : Touched child later) : Touched (.paren child before behind term) (.paren later before behind term)
  | row {node later : Program} (before behind : List Program) (gaps : List String) (term : Term Operation Reading Unit)
    (h : Touched node later) :
    Touched (.row (before ++ node :: behind) gaps term) (.row (before ++ later :: behind) gaps term)
  | block {node later : Program} (before behind : List Program) (indent : Nat) (gaps : List String)
    (term : Term Operation Reading Unit) (h : Touched node later) :
    Touched (.block (before ++ node :: behind) indent gaps term) (.block (before ++ later :: behind) indent gaps term)

end Node

/-- Whether a value is the function that sets a channel. -/
def Value.isChannel : Value Operation Reading → Bool
  | .function called => called.operation == .channel
  | .number _ | .step _ => false

/-- Whether a place is empty, or holds a value that may be the function that sets a channel only in places for it. -/
def Term.Steady (term : Term Operation Reading Unit) (channel : Bool) : Prop :=
  term = .empty ∨ ∃ value, term = ⟨none, .thunk (some value)⟩ ∧ (value.isChannel = true → channel = true)

namespace Node

mutual

/-- A tree with values in some of its places, in which the function that sets a channel is kept by its name alone. -/
def Steady : Program → Prop
  | .name value term => bindings.lookup value = some term
  | .numeral value _ term => term = .ofNumber value
  | .paren child _ _ term => term.Steady child.namesChannel ∧ child.Steady
  | .row children _ term | .block children _ _ term => term.Steady false ∧ AllSteady children

def AllSteady : List Program → Prop
  | [] => True
  | node :: others => node.Steady ∧ AllSteady others

end

mutual

theorem Fresh.steady {node : Program} (h : node.Fresh bindings) : node.Steady := by
  match node with
  | .name .. | .numeral .. => exact h
  | .paren child _ _ term => exact ⟨Or.inl h.1, Fresh.steady h.2⟩
  | .row children _ _ | .block children _ _ _ => exact ⟨Or.inl h.1, AllFresh.steady h.2⟩

theorem AllFresh.steady {nodes : List Program} (h : AllFresh bindings nodes) : AllSteady nodes := by
  match nodes with
  | [] => trivial
  | node :: others => exact ⟨Fresh.steady h.1, AllFresh.steady h.2⟩

end

theorem allSteady_append {before others : List Program} :
    AllSteady (before ++ others) ↔ AllSteady before ∧ AllSteady others := by
  induction before with
  | nil => simp [AllSteady]
  | cons node before ih => simp [AllSteady, ih, and_assoc]

end Node

/-! ### Evaluation -/

/-- What an evaluation owes to the context it begins in, which it leaves as it was but for the channel, and the channel
too if `sets` is false. It leaves a steady tree, and gives the function that sets a channel only if `channel` is
true. -/
structure Evaluation.Contained {B : Type} (evaluation : Evaluation Operation Reading Unit (Value Operation Reading) B)
    (before : Context Reading Unit) (steady : B → Prop) (sets channel : Bool) : Prop where
  tree : steady evaluation.tree
  result (value : Value Operation Reading) (h : evaluation.result = .ok value) : value.isChannel = true → channel = true
  context : before.Kept evaluation.context
  unset (h : sets = false) : evaluation.context.scope.channel = before.scope.channel

namespace Node

theorem isChannel_of_name {name : String} {scope : Scope Reading} {value : Value Operation Reading}
    (h : nameMeaning name scope = .ok value) (hchannel : value.isChannel = true) : name = "channel" := by
  cases value with
  | number | step => cases hchannel
  | function called => exact (operation_of_name h).mp (eq_of_beq hchannel)

theorem isChannel_read (reading : Reading) (number : Double) (scope : Scope Reading) :
    (reading.read number scope : Value Operation Reading).isChannel = false := by
  cases reading <;> rfl

theorem isChannel_of_call {operation : Operation} {values : List (Value Operation Reading)}
    {caller after : Scope Reading} {value : Value Operation Reading}
    (h : operation.call values caller = .ok (value, after)) : value.isChannel = false := by
  rcases step_of_call h with rfl | ⟨_, -, rfl⟩ <;> rfl

/-- What a name, a numeral or a filled place gives touches no scope. -/
theorem contained_unchanged {node : Program} {context : Context Reading Unit}
    {result : Except EvalError (Value Operation Reading)} {channel : Bool} (h : node.Steady)
    (hresult : ∀ value, result = .ok value → value.isChannel = true → channel = true) (sets : Bool) :
    (⟨result, node, context⟩ : Evaluation Operation Reading Unit _ _).Contained context Steady sets channel :=
  ⟨h, hresult, ⟨context.scope.channel, rfl⟩, fun _ => rfl⟩

theorem Steady.place {node : Program} (h : node.Steady) (hcompound : node.isCompound = true) :
    node.payload.Steady node.namesChannel := by
  match node with
  | .name .. | .numeral .. => cases hcompound
  | .paren .. | .row .. | .block .. => exact h.1

/-- An empty place is filled with the value of what is evaluated for it. -/
theorem contained_keep {B : Type} {evaluation : Evaluation Operation Reading Unit (Value Operation Reading) B}
    {before : Context Reading Unit} {steady : B → Prop} {sets channel : Bool}
    (h : evaluation.Contained before steady sets channel) (rebuild : B → Term Operation Reading Unit → Program)
    (hrebuild : ∀ term, term.Steady channel → steady evaluation.tree → (rebuild evaluation.tree term).Steady) :
    (evaluation.keep .empty rebuild).Contained before Steady sets channel where
  tree := by
    refine hrebuild _ ?_ h.tree
    cases hresult : evaluation.result with
    | error error => exact Or.inl rfl
    | ok value => exact Or.inr ⟨value, rfl, h.result value hresult⟩
  result := h.result
  context := h.context
  unset := h.unset

/-- A scope that is made for arguments is dropped with all that they did there, so the channel changes only by the call
of a function that sets it, and that is given by its name alone. -/
theorem stepwise_steady :
    Stepwise dialect
      (fun node context evaluation => evaluation.tree.namesChannel = node.namesChannel ∧
        (node.Steady → evaluation.Contained context Steady node.setsChannel node.namesChannel))
      (fun children context evaluation => AllSteady children →
        evaluation.Contained context AllSteady (applicationSetsChannel children) false)
      (fun nodes context evaluation => AllSteady nodes →
        AllSteady evaluation.tree ∧ context.Kept evaluation.context) where
  name value term context := by
    refine ⟨rfl, fun h => ?_⟩
    rw [forced_name settled h]
    refine contained_unchanged h (fun found hfound hchannel => ?_) _
    rw [isChannel_of_name hfound hchannel]
    rfl
  numeral value digits term context := by
    refine ⟨rfl, fun h => ?_⟩
    have hterm : term = .ofNumber value := h
    subst hterm
    refine contained_unchanged h (fun found hfound hchannel => ?_) _
    cases hfound
    have hread := isChannel_read context.scope.reading value context.scope
    exact absurd (hread.symm.trans hchannel) Bool.false_ne_true
  kept node context hcompound hfilled := by
    refine ⟨rfl, fun h => ?_⟩
    obtain ⟨value, hterm, hvalue⟩ := Term.exists_value (h.place hcompound) hfilled
    rw [forced_of_value hterm]
    refine contained_unchanged h ?_ _
    rintro _ ⟨⟩
    exact hvalue
  paren before behind hempty hinside := by
    obtain ⟨hname, hchild⟩ := hinside
    refine ⟨hname, fun h => ?_⟩
    obtain rfl := Term.eq_empty h.1 hempty
    refine contained_keep (hchild h.2) (fun child term => .paren child before behind term) fun term hterm hparts => ?_
    rw [← hname] at hterm
    exact ⟨hterm, hparts⟩
  application hrebuild hempty hinside := by
    cases hrebuild with
    | row | block =>
        refine ⟨rfl, fun h => ?_⟩
        obtain rfl := Term.eq_empty h.1 hempty
        exact contained_keep (hinside h.2) _ fun _ hterm hparts => ⟨hterm, hparts⟩
  headless context _ := ⟨trivial, by rintro _ ⟨⟩, ⟨context.scope.channel, rfl⟩, fun _ => rfl⟩
  uncalled arguments hhead herror h := by
    obtain ⟨htree, -, hcontext, hunset⟩ := hhead.2 h.1
    exact ⟨⟨htree, h.2⟩, by rintro _ ⟨⟩, hcontext, fun hsets => hunset (Bool.or_eq_false_iff.mp hsets).2⟩
  call {head} {arguments} {context} {called} {function} {given} hhead hfunction harguments h := by
    obtain ⟨htree, hresult, hcontext, hunset⟩ := hhead.2 h.1
    obtain ⟨htrees, hlast⟩ := harguments h.2
    rw [hlast.leave_eq]
    cases houtcome : given.result.bind fun values =>
        dialect.call function.operation values called.context.scope with
    | error error =>
        exact ⟨⟨htree, htrees⟩, by rintro _ ⟨⟩, hcontext, fun hsets => hunset (Bool.or_eq_false_iff.mp hsets).2⟩
    | ok answer =>
        obtain ⟨values, -, hcall⟩ := except_bind_eq_ok.mp houtcome
        refine ⟨⟨htree, htrees⟩, ?_, hcontext.setScope (reading_of_call hcall), fun hsets => ?_⟩
        · rintro _ ⟨⟩ hchannel
          rw [isChannel_of_call hcall] at hchannel
          cases hchannel
        · obtain ⟨hname, hhead⟩ := Bool.or_eq_false_iff.mp hsets
          have hcombines : function.operation ≠ .channel := by
            intro hchannel
            rw [hresult _ hfunction (beq_iff_eq.mpr hchannel)] at hname
            cases hname
          obtain ⟨_, -, -, hcaller⟩ := (call_eq_ok hcombines).mp hcall
          exact (congrArg Scope.channel hcaller).trans (hunset hhead)
  done context _ := ⟨trivial, context.scope.channel, rfl⟩
  broken others hnode herror h :=
    have hfirst := hnode.2 h.1
    ⟨⟨hfirst.tree, h.2⟩, hfirst.context⟩
  further hnode hvalue hothers h := by
    have hfirst := hnode.2 h.1
    obtain ⟨htrees, hlast⟩ := hothers h.2
    exact ⟨⟨hfirst.tree, htrees⟩, hfirst.context.trans hlast⟩

/-- Evaluation does not change what is a name. -/
theorem namesChannel_evaluate (node : Program) (context : Context Reading Unit) :
    (node.evaluate dialect context).tree.namesChannel = node.namesChannel := (stepwise_steady.evaluate node context).1

/-- The evaluation of a steady tree stays within the current scope, and changes the channel there only if the text
shows it. -/
theorem evaluate_steady {node : Program} (h : node.Steady) (context : Context Reading Unit) :
    (node.evaluate dialect context).Contained context Steady node.setsChannel node.namesChannel :=
  (stepwise_steady.evaluate node context).2 h

theorem Touched.namesChannel_eq {node later : Program} (h : Touched node later) :
    later.namesChannel = node.namesChannel := by
  induction h with
  | here node context => exact namesChannel_evaluate node context
  | paren _ _ _ _ ih => exact ih
  | row | block => rfl

/-- The step: a steady tree that is touched is steady. -/
theorem Touched.steady {node later : Program} (h : Touched node later) (hnode : node.Steady) : later.Steady := by
  induction h with
  | here node context => exact (evaluate_steady hnode context).tree
  | paren _ _ _ htouched ih =>
      refine ⟨?_, ih hnode.2⟩
      rw [htouched.namesChannel_eq]
      exact hnode.1
  | row before behind _ _ _ ih | block before behind _ _ _ _ ih =>
      obtain ⟨hterm, hchildren⟩ := hnode
      obtain ⟨hbefore, hchild, hbehind⟩ := allSteady_append.mp hchildren
      exact ⟨hterm, allSteady_append.mpr ⟨hbefore, ih hchild, hbehind⟩⟩

end Node

namespace Program

end Program

end Cadence
