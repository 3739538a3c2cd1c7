import AbiCodec.Text.Hex
import AbiCodec.Text.Utf8

/-!
# Errors

Every failure of the library is an `AbiError`: its kind, the place it speaks
of, and the cause.  The wording is chosen in one place, `AbiError.message`.
-/

namespace AbiCodec

/-- What is wrong in the text of a type, where the reading stops. -/
inductive SyntaxFault where
  | invalidName
  | unexpectedToken
  | tooDeep
  | expectedType
  | invalidTypeName
  | invalidLength
  | expected (c : Char)
  | expectedSeparator
  | trailing
deriving Repr, DecidableEq

def SyntaxFault.message : SyntaxFault → String
  | .invalidName => "invalid parameter name"
  | .unexpectedToken => "unexpected token"
  | .tooDeep => "type nesting too deep"
  | .expectedType => "expected type"
  | .invalidTypeName => "invalid type name"
  | .invalidLength => "invalid array length"
  | .expected c => "expected " ++ String.ofList ['\x27', c, '\x27']
  | .expectedSeparator => "expected ',' or ')'"
  | .trailing => "unexpected trailing characters"

/-- Why a type, or a text that holds types, is refused. -/
inductive TypeCause where
  | syntaxAt (fault : SyntaxFault) (position : Nat)
  | tupleWithoutComponents
  | componentsOnNonTuple
  | nameInType
  | invalidArraySuffix
  | invalidArrayLength
  | tooDeep (depth limit : Nat)
  | layoutTooLarge (limit : Nat)
  | invalidBitLength
  | invalidBytesLength
  | unknownType
  | missingParameterList
  | invalidFragmentName
  | unbalancedParentheses
  | expectedReturns
  | unexpectedWord (word : String)
  /-- A JSON document that does not hold what it should; a parameter in it that is refused
  for its own reason gives that reason. -/
  | document (detail : Option String)
  | other (text : String)
deriving Repr, DecidableEq

def TypeCause.message : TypeCause → String
  | .syntaxAt fault position => fault.message ++ " at position " ++ decimal position
  | .tupleWithoutComponents => "tuple without components"
  | .componentsOnNonTuple => "components on a non-tuple type"
  | .nameInType => "unexpected name in type"
  | .invalidArraySuffix => "invalid array suffix"
  | .invalidArrayLength => "invalid array length"
  | .tooDeep depth limit =>
    "nesting depth " ++ decimal depth ++ " exceeds limit of " ++ decimal limit
  | .layoutTooLarge limit => "static layout exceeds limit of " ++ decimal limit ++ " words"
  | .invalidBitLength => "invalid bit length"
  | .invalidBytesLength => "invalid bytes length"
  | .unknownType => "invalid type"
  | .missingParameterList => "missing parameter list"
  | .invalidFragmentName => "invalid fragment name"
  | .unbalancedParentheses => "unbalanced parentheses"
  | .expectedReturns => "expected '(' after returns"
  | .unexpectedWord word => "unexpected token " ++ quoted word
  | .document detail => detail.getD "unreadable document"
  | .other text => text

/-- Why a value is refused under its type. -/
inductive ValueCause where
  | missingAddressMark
  | invalidAddress
  | badAddressChecksum
  | invalidBool
  | valueOutOfBounds
  | invalidNumber
  | invalidUnsigned
  | invalidSigned
  | invalidFixedBytes
  | incorrectLength
  | invalidBytes
  | invalidString
  | notNull
  | expectedArrayValue
  | expectedElements (count : Nat)
  | invalidTupleValue
  | missingNames
  | duplicateNames
  | missingComponent (name : String)
  | invalidHex
  | expectedNull
  | expectedArray
  | expectedArrayOrObject
  | unnamedComponents
  | expectedAddressString
  | expectedBool
  | expectedString
  | expectedHexString
  /-- The text of the error that refused a part of the value. -/
  | because (text : String)
deriving Repr, DecidableEq

def ValueCause.message : ValueCause → String
  | .missingAddressMark => "missing address prefix"
  | .invalidAddress => "invalid address"
  | .badAddressChecksum => "bad address checksum"
  | .invalidBool => "invalid bool"
  | .valueOutOfBounds => "value out-of-bounds"
  | .invalidNumber => "invalid number"
  | .invalidUnsigned => "invalid unsigned integer"
  | .invalidSigned => "invalid signed integer"
  | .invalidFixedBytes => "invalid fixed bytes"
  | .incorrectLength => "incorrect data length"
  | .invalidBytes => "invalid bytes"
  | .invalidString => "invalid string"
  | .notNull => "not null"
  | .expectedArrayValue => "expected array value"
  | .expectedElements count => "expected " ++ decimal count ++ " elements"
  | .invalidTupleValue => "invalid tuple value"
  | .missingNames => "cannot encode object for signature with missing names"
  | .duplicateNames => "cannot encode object for signature with duplicate names"
  | .missingComponent name => "missing value for component " ++ name
  | .invalidHex => "invalid hex data"
  | .expectedNull => "expected null"
  | .expectedArray => "expected array"
  | .expectedArrayOrObject => "expected array or object"
  | .unnamedComponents => "cannot use object for tuple with unnamed components"
  | .expectedAddressString => "expected address string"
  | .expectedBool => "expected bool"
  | .expectedString => "expected string"
  | .expectedHexString => "expected 0x hex string"
  | .because text => text

/-- Why data does not decode. -/
inductive DataCause where
  | outOfBounds
  | lengthOverflow
  | inflation (ratio : Nat)
  | addressHighBytes
  | invalidUtf8 (fault : Utf8.Fault)
  | insufficientLength
  | shortCallData
  | selectorMismatch (got : String)
  | unknownSelector (selector : String)
  | missingSignatureTopic
  | signatureTopicMismatch
  | missingTopic (index : Nat)
  | missingValue (index : Nat)
  | other (text : String)
deriving Repr, DecidableEq

def DataCause.message : DataCause → String
  | .outOfBounds => "data out-of-bounds"
  | .lengthOverflow => "offset or length overflow"
  | .inflation ratio => "data exceeds inflation ratio of " ++ decimal ratio
  | .addressHighBytes => "address word has non-zero high bytes"
  | .invalidUtf8 fault => "invalid UTF-8: " ++ fault.message
  | .insufficientLength => "insufficient data length"
  | .shortCallData => "call data shorter than selector"
  | .selectorMismatch got => "selector mismatch: got " ++ got
  | .unknownSelector selector => "no function for selector " ++ selector
  | .missingSignatureTopic => "missing event signature topic"
  | .signatureTopicMismatch => "event signature topic mismatch"
  | .missingTopic index => "missing topic for parameter " ++ decimal index
  | .missingValue index => "no decoded value for parameter " ++ decimal index
  | .other text => text

/-- A broken promise between two parts of the library: a slice outside its bytes, a count
outside its range, a word of another length than 32 bytes, or a record with more or fewer
names than values. -/
inductive Fault where
  | slice
  | count
  | word
  | record
deriving Repr, DecidableEq

def Fault.message : Fault → String
  | .slice => "slice out of range"
  | .count => "count out of range"
  | .word => "word of wrong length"
  | .record => "names and values differ in number"

inductive ErrorKind where
  | invalidType
  | argumentMismatch
  | valueOutOfRange
  | invalidValue
  | malformedData
  | unsupportedOperation
  | internal
deriving Repr, DecidableEq

/-- A failure.  Values stand in it by their written form. -/
inductive AbiError where
  | invalidType (typeName : String) (cause : TypeCause)
  | argumentMismatch (types values : Nat) (value : String)
  | valueOutOfRange (parameter typeName value : String) (cause : ValueCause)
  | invalidValue (parameter typeName value : String) (cause : ValueCause)
  | malformedData (typeName : String) (cause : DataCause) (length offset : Nat)
  | unsupportedOperation (coder operation : String)
  | internal (fault : Fault)
deriving Repr, DecidableEq, Inhabited

namespace AbiError

def kind : AbiError → ErrorKind
  | .invalidType .. => .invalidType
  | .argumentMismatch .. => .argumentMismatch
  | .valueOutOfRange .. => .valueOutOfRange
  | .invalidValue .. => .invalidValue
  | .malformedData .. => .malformedData
  | .unsupportedOperation .. => .unsupportedOperation
  | .internal _ => .internal

def valueMessage (parameter typeName value : String) (cause : ValueCause) : String :=
  cause.message ++ " (param=" ++ quoted parameter ++ ", type=" ++ typeName ++ ", value=" ++
    value ++ ")"

/-- The text of the error for a reader. -/
def message : AbiError → String
  | .invalidType typeName cause => "invalid type " ++ quoted typeName ++ ": " ++ cause.message
  | .argumentMismatch types values value =>
    "types/values length mismatch (types=" ++ decimal types ++ ", values=" ++ decimal values ++
      ", value=" ++ value ++ ")"
  | .valueOutOfRange parameter typeName value cause => valueMessage parameter typeName value cause
  | .invalidValue parameter typeName value cause => valueMessage parameter typeName value cause
  | .malformedData typeName cause length offset =>
    cause.message ++ " (type=" ++ typeName ++ ", length=" ++ decimal length ++ ", offset=" ++
      decimal offset ++ ")"
  | .unsupportedOperation coder operation =>
    "unsupported operation " ++ operation ++ " on " ++ coder ++ " coder"
  | .internal fault => fault.message

def inspectValueFields (parameter typeName value : String) (cause : ValueCause) : String :=
  " \x7b param: " ++ quoted parameter ++ ", type_name: " ++ quoted typeName ++ ", value: " ++
    quoted value ++ ", reason: " ++ quoted cause.message ++ " \x7d"

/-- The text of the error for a log: the kind and every field. -/
def inspect : AbiError → String
  | .invalidType typeName cause =>
    "InvalidType \x7b type_name: " ++ quoted typeName ++ ", reason: " ++ quoted cause.message ++
      " \x7d"
  | .argumentMismatch types values value =>
    "ArgumentMismatch \x7b types: " ++ decimal types ++ ", values: " ++ decimal values ++
      ", value: " ++ quoted value ++ " \x7d"
  | .valueOutOfRange parameter typeName value cause =>
    "ValueOutOfRange" ++ inspectValueFields parameter typeName value cause
  | .invalidValue parameter typeName value cause =>
    "InvalidValue" ++ inspectValueFields parameter typeName value cause
  | .malformedData typeName cause length offset =>
    "MalformedData \x7b type_name: " ++ quoted typeName ++ ", reason: " ++ quoted cause.message ++
      ", length: " ++ decimal length ++ ", offset: " ++ decimal offset ++ " \x7d"
  | .unsupportedOperation coder operation =>
    "UnsupportedOperation \x7b coder: " ++ quoted coder ++ ", operation: " ++ quoted operation ++
      " \x7d"
  | .internal fault => "Internal(" ++ quoted fault.message ++ ")"

/-- The error of a text that holds no hexadecimal bytes. -/
def ofHexFault (fault : Hex.Fault) : AbiError :=
  .invalidValue "" "hex" (quoted fault.message) .invalidHex

end AbiError

end AbiCodec
