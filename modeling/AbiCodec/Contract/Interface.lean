import AbiCodec.Contract.Function
import AbiCodec.Contract.Event

/-!
# Contract interfaces

The functions, the events and the constructor of a contract, and the look-ups
among them.
-/

namespace AbiCodec

structure Constructor where
  inputs : List AbiType := []
  mutability : StateMutability := .nonpayable
deriving Repr

/-- The encoded arguments of a deployment. -/
def Constructor.encodeInput (c : Constructor) (values : List Value) : Except AbiError Bytes :=
  encode .standard (c.inputs.map .tree) values

/-- One item of a contract; some items are of no use here. -/
inductive ContractItem where
  | function (f : Function)
  | event (e : Event)
  | constructor (c : Constructor)
  | other
deriving Repr

structure ContractInterface where
  functions : List Function := []
  events : List Event := []
  constructor : Option Constructor := none
deriving Repr

namespace ContractInterface

/-- The interface with one more item; a second constructor takes the place of the first. -/
def add (contract : ContractInterface) : ContractItem → ContractInterface
  | .function f => { contract with functions := contract.functions ++ [f] }
  | .event e => { contract with events := contract.events ++ [e] }
  | .constructor c => { contract with constructor := some c }
  | .other => contract

def ofItems (items : List ContractItem) : ContractInterface := items.foldl add {}

/-- The first function of a name. -/
def function? (contract : ContractInterface) (name : String) : Option Function :=
  contract.functions.find? fun f => f.name == name

/-- All functions of a name. -/
def functionsNamed (contract : ContractInterface) (name : String) : List Function :=
  contract.functions.filter fun f => f.name == name

/-- The first function with a selector. -/
def functionSelected? (contract : ContractInterface) (selector : Bytes) : Option Function :=
  contract.functions.find? fun f => f.selector == selector

/-- The first event of a name. -/
def event? (contract : ContractInterface) (name : String) : Option Event :=
  contract.events.find? fun e => e.name == name

/-- The first event whose logs start with a topic. -/
def eventOfTopic? (contract : ContractInterface) (topic : Word) : Option Event :=
  contract.events.find? fun e => !e.isAnonymous && e.topic == topic

/-- The function that call data select, and their arguments. -/
def decodeCall (contract : ContractInterface) (data : Bytes) :
    Except AbiError (Function × Record) := do
  let (selector, _) ← splitCallData data
  match contract.functionSelected? selector with
  | none =>
    .error (.malformedData "selector" (.unknownSelector (hexText selector)) data.length 0)
  | some f =>
    let record ← f.decodeInput data
    return (f, record)

end ContractInterface

end AbiCodec
