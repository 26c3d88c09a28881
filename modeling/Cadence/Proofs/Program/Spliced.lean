import Cadence.Proofs.Program.Binding

/-! A `do` inside of a `do`. The inner one may be left out and its arguments put in its place: steps that are composed in
groups are composed one after the other, and the inner arguments find the scope that the inner `do` found, and leave it
to what stands behind them. That takes that none of them sets a channel, which the inner `do` would have hidden. -/

namespace Cadence

open Vocabulary

namespace Step

section

variable {T : Type} [TimeScale T]

end

end Step

namespace Node

variable {P : Type}

variable {scope : Scope Reading}

section

variable {before inner behind : List (Node P)} {argument called : Node P}

end

end Node

namespace Program

open Node

/-- `(channel 2)`, which moves what stands behind it. -/
def moved : Tree := ofParen (ofRow [ofName "channel", .numeral 2 "2" ()])

/-- A channel that an inner `do` sets ends with it, and would reach further without it. -/
example :
    ((ofRow [ofName "do", ofParen (ofRow [ofName "do", moved]), .numeral 64 "64" ()]).meaning dialect nameMeaning
        outermost).1 = .ok (.step (.compose [.compose [.identity], .note (Note.wrapPitch 64) 0])) ∧
      ((ofRow [ofName "do", moved, .numeral 64 "64" ()]).meaning dialect nameMeaning outermost).1 =
        .ok (.step (.compose [.identity, .note (Note.wrapPitch 64) (Note.wrapChannel 2)])) := ⟨rfl, rfl⟩

end Program

end Cadence
