import AbiCodec.Layout.Basic

/-!
# Zero values

The zero value of a layout: zero numbers and bytes, empty texts and arrays of
dynamic length, and the zero values of the children of the rest.
-/

namespace AbiCodec

namespace Layout

mutual

def zero : Layout → Value
  | address _ => .address 0
  | bool _ => .bool false
  | number _ _ isSigned => if isSigned then .int 0 else .uint 0
  | fixedBytes _ width => .fixedBytes (List.replicate width.size 0)
  | bytes _ => .bytes []
  | string _ => .string ""
  | null _ => .null
  | array _ _ .dynamic => .array []
  | array _ element (.fixed n) => .array (List.replicate n element.zero)
  | tuple _ components => .tuple (zeroEntries components)

def zeroEntries : List Layout → List (Option String × Value)
  | [] => []
  | c :: rest => (c.name, c.zero) :: zeroEntries rest

end

/-- The zero values of a list of parameters. -/
def zeroRecord (components : List Layout) : Record := zeroEntries components

end Layout

end AbiCodec
