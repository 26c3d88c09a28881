/-! The types of names. -/

namespace Cadence

inductive Ty where
  | number
  | transformer
  /-- Takes exactly one argument. -/
  | func (input output : Ty)
  /-- Takes any number of arguments, all of the same type. -/
  | variadic (input output : Ty)
  deriving DecidableEq, Inhabited

def Ty.text : Ty → String
  | .number => "number"
  | .transformer => "transformer"
  | .func input output => "func(" ++ input.text ++ " -> " ++ output.text ++ ")"
  | .variadic input output => "listProcessor(" ++ input.text ++ " -> " ++ output.text ++ ")"

end Cadence
