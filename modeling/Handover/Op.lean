/-!
# Operators

The operators that a graph can hold (`Op`). Each has a name and a numeric code; codes are grouped by
tens, element-wise operators of one and of two operands first, then reductions, products, shape
operators and normalization. `Op.catalog` lists the operators that have a definition, in the order
in which they are listed to users.
-/

set_option autoImplicit false
set_option relaxedAutoImplicit false

namespace Handover

/-- The operator of a node. -/
inductive Op
  | relu | exp | tanh | pow | gelu | neg
  | add | sub | mul | div
  | max | sum | softmax
  | matmul | linear
  | reshape | transpose | cat | split
  | layernorm
deriving DecidableEq, Repr, Inhabited

namespace Op

/-- The name of an operator. -/
def name : Op → String
  | relu => "RELU"
  | exp => "EXP"
  | tanh => "TANH"
  | pow => "POW"
  | gelu => "GELU"
  | neg => "NEG"
  | add => "ADD"
  | sub => "SUB"
  | mul => "MUL"
  | div => "DIV"
  | max => "MAX"
  | sum => "SUM"
  | softmax => "SOFTMAX"
  | matmul => "MATMUL"
  | linear => "LINEAR"
  | reshape => "RESHAPE"
  | transpose => "TRANSPOSE"
  | cat => "CAT"
  | split => "SPLIT"
  | layernorm => "LAYERNORM"

/-- The code of an operator. -/
def code : Op → Nat
  | relu => 10
  | exp => 11
  | tanh => 12
  | pow => 13
  | gelu => 14
  | neg => 15
  | add => 20
  | sub => 21
  | mul => 22
  | div => 23
  | max => 30
  | sum => 31
  | softmax => 32
  | matmul => 40
  | linear => 41
  | reshape => 50
  | transpose => 51
  | cat => 52
  | split => 53
  | layernorm => 60

/-- Every operator, by increasing code, the two that move data last among the shape operators. -/
def all : List Op :=
  [relu, exp, tanh, pow, gelu, neg, add, sub, mul, div, max, sum, softmax, matmul, linear, reshape,
    transpose, cat, split, layernorm]

/-- The operators with a definition, in the order in which they are listed. -/
def catalog : List Op :=
  [add, sub, mul, div, relu, exp, tanh, neg, pow, gelu, max, sum, softmax, matmul, linear, reshape,
    transpose, split, cat, layernorm]

/-- The operator with a given name. -/
def ofName? (name : String) : Option Op := all.find? fun op ↦ op.name = name

/-- Whether the expression of an operator is a view of its first operand. -/
def isView : Op → Bool
  | reshape | transpose | split => true
  | _ => false

/-- Whether the expression of an operator is a tuple with one entry for each result, even when there
is only one. -/
def yieldsTuple : Op → Bool
  | split => true
  | _ => false

/-- Whether an operator has a form that writes its result into its first operand. -/
def hasInPlaceForm : Op → Bool
  | relu | exp | tanh | pow | neg | add | sub | mul | div => true
  | _ => false

end Op

end Handover
