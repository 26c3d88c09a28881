import Cadence.Tree.Basic

/-! Trees and documents written as text. A gap that is missing from a tree is written as in the usual
layout: one space in a row, nothing in a block. -/

namespace Cadence

/-- A column's worth of spaces. -/
def indentation (column : Nat) : String := String.ofList (List.replicate column ' ')

namespace Node

variable {P : Type}

mutual

/-- The text of a tree. -/
def written : Node P → String
  | .name value _ => value
  | .numeral _ digits _ => digits
  | .paren child before behind _ => "(" ++ before ++ child.written ++ behind ++ ")"
  | .row children gaps _ =>
    match children with
    | [] => ""
    | head :: arguments => head.written ++ writtenRow arguments gaps
  | .block children indent gaps _ =>
    match children with
    | [] => ""
    | head :: arguments => head.written ++ writtenBlock arguments indent gaps

/-- The children of a row after the first, each behind its gap. -/
def writtenRow : List (Node P) → List String → String
  | [], _ => ""
  | child :: children, gaps =>
    gaps.head?.getD " " ++ child.written ++ writtenRow children gaps.tail

/-- The children of a block after the first, each behind its gap on a new line. -/
def writtenBlock : List (Node P) → Nat → List String → String
  | [], _, _ => ""
  | child :: children, indent, gaps =>
    gaps.head?.getD "" ++ "\n" ++ indentation indent ++ child.written ++
      writtenBlock children indent gaps.tail

end

end Node

namespace Document

variable {P : Type}

def written (document : Document P) : String := document.tree.written ++ document.trailing

/-- The text of a program. The head of its outer block is not written, and the first gap of the block
stands at the start of the text. -/
def writtenProgram (document : Document P) : String :=
  match document.tree with
  | .block (_ :: first :: others) indent gaps _ =>
    gaps.head?.getD "" ++ first.written ++ Node.writtenBlock others indent gaps.tail ++ document.trailing
  | .block _ _ _ _ => document.trailing
  | _ => document.written

end Document

end Cadence
