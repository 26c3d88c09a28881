import Cadence.Proofs.Program.Channel

/-! What the type check decides. Among the programs in which the head of every application is a name or a
numeral, it accepts those that come to a step and no others. A numeral as a head is refused by the check
and fails in the evaluation; and a node that comes to a value fits the type of this value, whatever its
numerals are read as, so that no program is refused in vain. -/

namespace Cadence

namespace Node

section Heads

variable {P : Type}

/-- A name or a numeral, in any number of parentheses. -/
def isToken : Node P → Bool
  | .name .. | .numeral .. => true
  | .paren child _ _ _ => child.isToken
  | .row .. | .block .. => false

mutual

/-- Whether the head of every application is a name or a numeral. -/
def tokenHeaded : Node P → Bool
  | .name .. | .numeral .. => true
  | .paren child _ _ _ => child.tokenHeaded
  | .row children _ _ | .block children _ _ _ => applicationTokenHeaded children

def applicationTokenHeaded : List (Node P) → Bool
  | [] => false
  | head :: arguments => head.isToken && allTokenHeaded arguments

def allTokenHeaded : List (Node P) → Bool
  | [] => true
  | node :: nodes => node.tokenHeaded && allTokenHeaded nodes

end

end Heads

section

variable {F R M : Type}

theorem isNamed_of_headType (head : BoundTree F R M) {type : Option Ty} (htoken : head.isToken = true)
    (h : head.headType = .ok type) : head.isNamed = true := by
  match head with
  | .name .. => rfl
  | .numeral .. => cases h
  | .paren child _ _ _ => exact isNamed_of_headType child htoken h
  | .row .. | .block .. => cases htoken

theorem headType_of_checkApplication {head : BoundTree F R M} {arguments : List (BoundTree F R M)}
    {expected : Ty} (h : checkApplication expected (head :: arguments) = .ok ()) :
    ∃ type, head.headType = .ok type := by
  rw [checkApplication] at h
  obtain ⟨type, htype, -⟩ := except_bind_eq_ok.mp h
  exact ⟨type, htype⟩

end

open Vocabulary

mutual

theorem nameHeaded_of_check {node : Program} {expected : Ty} (hfresh : node.Fresh bindings)
    (htokens : node.tokenHeaded = true) (hcheck : node.check expected = .ok ()) : node.nameHeaded = true := by
  match node with
  | .name .. => rfl
  | .numeral .. => rfl
  | .paren child _ _ _ =>
      have hchild : child.nameHeaded = true := nameHeaded_of_check hfresh.2 htokens hcheck
      exact hchild
  | .row children _ _ => exact applicationNameHeaded_of_check hfresh.2 htokens hcheck
  | .block children _ _ _ => exact applicationNameHeaded_of_check hfresh.2 htokens hcheck

theorem applicationNameHeaded_of_check {children : List Program} {expected : Ty}
    (hfresh : AllFresh bindings children) (htokens : applicationTokenHeaded children = true)
    (hcheck : checkApplication expected children = .ok ()) : applicationNameHeaded children = true := by
  match children with
  | [] => cases htokens
  | head :: arguments =>
      obtain ⟨hhead, harguments⟩ := hfresh
      rw [applicationTokenHeaded, Bool.and_eq_true] at htokens
      obtain ⟨htoken, htokens⟩ := htokens
      obtain ⟨_, hfound⟩ := headType_of_checkApplication hcheck
      have hnamed := isNamed_of_headType head htoken hfound
      obtain ⟨term, hknown, htype, -⟩ := named_head hhead hnamed
      have hall : ∃ input, checkAll input arguments = .ok () := by
        cases hknown with
        | step => exact absurd hcheck (checkApplication_transformer htype)
        | combinator => exact ⟨_, ((checkApplication_variadic htype).mp hcheck).2⟩
        | literals => exact ⟨_, ((checkApplication_variadic htype).mp hcheck).2⟩
        | channel => exact ⟨_, ((checkApplication_func htype).mp hcheck).2.2⟩
      obtain ⟨input, hall⟩ := hall
      rw [applicationNameHeaded, hnamed, allNameHeaded_of_checkAll harguments htokens hall]
      rfl

theorem allNameHeaded_of_checkAll {nodes : List Program} {expected : Ty}
    (hfresh : AllFresh bindings nodes) (htokens : allTokenHeaded nodes = true)
    (hcheck : checkAll expected nodes = .ok ()) : allNameHeaded nodes = true := by
  match nodes with
  | [] => rfl
  | node :: others =>
      rw [allTokenHeaded, Bool.and_eq_true] at htokens
      obtain ⟨hnode, hothers⟩ := checkAll_cons_eq_ok.mp hcheck
      rw [allNameHeaded, nameHeaded_of_check hfresh.1 htokens.1 hnode,
        allNameHeaded_of_checkAll hfresh.2 htokens.2 hothers]
      rfl

end

theorem check_of_nameMeaning {name : String} {term : Term Operation Reading Unit} {expected : Ty}
    {scope : Scope Reading} {value : Value Operation Reading} (hfresh : (Node.name name term).Fresh bindings)
    (h : nameMeaning name scope = .ok value) (htype : value.type = some expected) :
    (Node.name name term).check expected = .ok () := by
  have hlookup : (bindings : Bindings Operation Reading Unit).lookup name = some term := hfresh
  rw [nameMeaning, hlookup] at h
  cases known_of_lookup hlookup with
  | step =>
      cases h
      exact (check_name rfl).mpr (Option.some.inj htype)
  | combinator | literals | channel =>
      cases h
      cases htype

mutual

theorem check_of_meaning {node : Program} {expected : Ty} (hfresh : node.Fresh bindings)
    {scope after : Scope Reading} {value : Value Operation Reading}
    (h : node.meaning dialect nameMeaning scope = (.ok value, after)) (htype : value.type = some expected) :
    node.check expected = .ok () := by
  match node with
  | .name text term =>
      have hname : nameMeaning text scope = .ok value := congrArg Prod.fst h
      exact check_of_nameMeaning hfresh hname htype
  | .numeral .. => rfl
  | .paren child _ _ _ =>
      have hchild : child.check expected = .ok () := check_of_meaning hfresh.2 h htype
      exact hchild
  | .row children _ _ => exact checkApplication_of_meaning hfresh.2 h htype
  | .block children _ _ _ => exact checkApplication_of_meaning hfresh.2 h htype

theorem checkApplication_of_meaning {children : List Program} {expected : Ty}
    (hfresh : AllFresh bindings children) {scope after : Scope Reading} {value : Value Operation Reading}
    (h : applicationMeaning dialect nameMeaning children scope = (.ok value, after))
    (htype : value.type = some expected) : checkApplication expected children = .ok () := by
  match children with
  | [] => cases h
  | head :: arguments =>
      obtain ⟨hhead, harguments⟩ := hfresh
      have hheads := (applicationNameHeaded_of_meaning h).1
      rw [applicationNameHeaded, Bool.and_eq_true] at hheads
      obtain ⟨term, hknown, hheadType, hmeaning⟩ := named_head hhead hheads.1
      obtain ⟨_, _, function, caller, values, hsame, hcalled, hvalues, hcall⟩ := applicationMeaning_eq_ok.mp h
      cases hsame
      rw [type_of_call hcall] at htype
      cases htype
      rw [hmeaning] at hcalled
      -- the function of the head says what the arguments came to, and its type what they are checked for
      cases hknown with
      | step => cases hcalled
      | combinator operation hcombines =>
          cases hcalled
          exact (checkApplication_variadic hheadType).mpr
            ⟨rfl, checkAll_of_meanings harguments hvalues (types_of_call hcombines hcall)⟩
      | literals reading =>
          cases hcalled
          have halternate : Operation.alternate ≠ .channel := by decide
          exact (checkApplication_variadic hheadType).mpr
            ⟨rfl, checkAll_of_meanings harguments hvalues (types_of_call halternate hcall)⟩
      | channel =>
          cases hcalled
          obtain ⟨number, rfl, -⟩ := call_channel_eq_ok.mp hcall
          refine (checkApplication_func hheadType).mpr ⟨rfl, (length_of_meanings hvalues).symm, ?_⟩
          exact checkAll_of_meanings harguments hvalues (by simp [Value.type])

theorem checkAll_of_meanings {nodes : List Program} {expected : Ty} (hfresh : AllFresh bindings nodes)
    {scope : Scope Reading} {values : List (Value Operation Reading)}
    (h : meanings dialect nameMeaning nodes scope = .ok values)
    (htypes : ∀ value ∈ values, value.type = some expected) : checkAll expected nodes = .ok () := by
  match nodes with
  | [] => rfl
  | node :: others =>
      obtain ⟨value, after, rest, hvalue, hrest, rfl⟩ := meanings_cons_eq_ok.mp h
      obtain ⟨htype, htypes⟩ := List.forall_mem_cons.mp htypes
      exact checkAll_cons_eq_ok.mpr
        ⟨check_of_meaning hfresh.1 hvalue htype, checkAll_of_meanings hfresh.2 hrest htypes⟩

end

end Node

namespace Program

open Vocabulary

/-- What comes to a step was not to be refused, whatever its heads are. -/
theorem check_of_run {program : Program} (hfresh : program.Fresh bindings) {step : Step}
    (h : program.run.1 = .ok step) : program.check .transformer = .ok () := by
  rw [run_of_fresh hfresh] at h
  obtain ⟨value, hvalue, hstep⟩ := except_bind_eq_ok.mp h
  cases value with
  | step found => exact Node.check_of_meaning hfresh (Prod.ext hvalue rfl) rfl
  | number => cases hstep
  | function => cases hstep

/-- Of the programs in which every head is a name or a numeral, and all of whose names stand for something,
the check accepts those that come to a step, and it refuses all the others. -/
theorem check_iff_run (text : String) (document : Document Unit) (program : Program) :
    Grammar.readProgram text = .ok document → bindings.bind document.tree = .ok program →
      program.tokenHeaded = true →
        (program.check .transformer = .ok () ↔ ∃ step, program.run.1 = .ok step) := by
  intro _ hbound htokens
  have hfresh := Node.fresh_of_bind hbound
  constructor
  · intro hcheck
    have hheads := Node.nameHeaded_of_check hfresh htokens hcheck
    obtain ⟨value, after, hmeaning, htype, -⟩ := Node.meaning_of_check hfresh hheads hcheck outermost rfl
    rw [run_of_fresh hfresh, hmeaning]
    cases value with
    | step step => exact ⟨step, rfl⟩
    | number => cases htype
    | function => cases htype
  · rintro ⟨step, hrun⟩
    exact check_of_run hfresh hrun

/-- A channel is set by a numeral, and by nothing that a numeral can be read as elsewhere. -/
def channelSet : String := "channel (3)\n(note) 60 (slow (2) i)"

def channelMisused : String := "note 60 (channel (slow 2))"

theorem check_iff_run_channels :
    (∃ (document : Document Unit) (program : Program), Grammar.readProgram channelSet = .ok document ∧
      bindings.bind document.tree = .ok program ∧ program.tokenHeaded = true ∧
      program.check .transformer = .ok () ∧ ∃ step, program.run.1 = .ok step) ∧
    ∃ (document : Document Unit) (program : Program), Grammar.readProgram channelMisused = .ok document ∧
      bindings.bind document.tree = .ok program ∧ program.tokenHeaded = true ∧
      program.check .transformer ≠ .ok () ∧ ¬∃ step, program.run.1 = .ok step := by
  have haccepted : (Grammar.readProgram channelSet).toOption.map (fun document =>
      ((bindings : Bindings Operation Reading Unit).bind document.tree).toOption.map fun program =>
        (program.tokenHeaded, (program.check .transformer).toOption)) = some (some (true, some ())) := by
    decide +kernel
  have hrefused : (Grammar.readProgram channelMisused).toOption.map (fun document =>
      ((bindings : Bindings Operation Reading Unit).bind document.tree).toOption.map fun program =>
        (program.tokenHeaded, (program.check .transformer).toOption)) = some (some (true, none)) := by
    decide +kernel
  constructor
  · obtain ⟨document, hread, hbound⟩ := exists_ok_of_map haccepted
    obtain ⟨program, hprogram, hfound⟩ := exists_ok_of_map hbound
    obtain ⟨htokens, hresult⟩ := Prod.mk.inj hfound
    have hcheck : program.check .transformer = .ok () := by
      cases hfound : program.check .transformer with
      | error => simp [hfound, Except.toOption] at hresult
      | ok => rfl
    exact ⟨document, program, hread, hprogram, htokens, hcheck,
      (check_iff_run _ document program hread hprogram htokens).mp hcheck⟩
  · obtain ⟨document, hread, hbound⟩ := exists_ok_of_map hrefused
    obtain ⟨program, hprogram, hfound⟩ := exists_ok_of_map hbound
    obtain ⟨htokens, hresult⟩ := Prod.mk.inj hfound
    have hcheck : program.check .transformer ≠ .ok () := fun h => by simp [h, Except.toOption] at hresult
    exact ⟨document, program, hread, hprogram, htokens, hcheck,
      mt (check_iff_run _ document program hread hprogram htokens).mpr hcheck⟩

end Program

end Cadence
